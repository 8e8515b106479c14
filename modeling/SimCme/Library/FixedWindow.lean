import Mathlib.Algebra.Order.Group.Defs
import Mathlib.Data.Finset.Card
import Mathlib.Order.Interval.Finset.Nat

/-!
# Counting calls in windows

A limiter counts the calls in a window of fixed width.  A call that comes when the window is
over opens the next one, and a call passes when its number within its window does not exceed
the limit.  Windows are opened by calls, so that they are not aligned to anything.

Main results:

- Theorem {lit}`FixedWindow.pairwise_calls`: of two calls, the later one has a higher number
  in the same window, or is in a window that opened a width later.
- Theorem {lit}`FixedWindow.length_window_le`: a window lets no more calls pass than the
  limit.
- Theorem {lit}`FixedWindow.length_interval_le`: an interval as long as a window lets fewer
  calls pass than twice the limit.
- Theorem {lit}`FixedWindow.count_after`: a window counts the calls in it.
-/

namespace Library

variable {α : Type} [AddCommGroup α] [LinearOrder α]

/-- When a window was opened, and how many calls it has counted. -/
structure FixedWindow (α : Type) where
  openedAt : α
  count : Nat
deriving DecidableEq

namespace FixedWindow

/-- A call: when it came, the window it is counted in and its number there. -/
structure Call (α : Type) where
  time : α
  openedAt : α
  number : Nat
deriving DecidableEq

/-- The window after a call. -/
def next (width : α) (w : FixedWindow α) (time : α) : FixedWindow α :=
  if w.openedAt + width ≤ time then ⟨time, 1⟩ else ⟨w.openedAt, w.count + 1⟩

/-- The call that leads to a window. -/
def callAt (w : FixedWindow α) (time : α) : Call α :=
  ⟨time, w.openedAt, w.count⟩

/-- Count calls from a window on. -/
def calls (width : α) : FixedWindow α → List α → List (Call α)
  | _, [] => []
  | w, time :: times =>
      let w' := w.next width time
      w'.callAt time :: calls width w' times

/-- The window after some calls. -/
def after (width : α) (w : FixedWindow α) (times : List α) : FixedWindow α :=
  times.foldl (next width) w

/-- A call comes while its window is open, and the first call of a window opens it. -/
structure Call.InWindow (width : α) (c : Call α) : Prop where
  openedAt_le : c.openedAt ≤ c.time
  time_lt : c.time < c.openedAt + width
  opener : c.number ≤ 1 → c.time = c.openedAt

/-- A later call has a higher number in the same window, or is in a window that opened
after the earlier call and a width after its window. -/
def Call.Before (width : α) (c c' : Call α) : Prop :=
  (c.openedAt = c'.openedAt ∧ c.number < c'.number) ∨
    (c.openedAt + width ≤ c'.openedAt ∧ c.time ≤ c'.openedAt)

variable {width : α} {w : FixedWindow α} {times : List α}

theorem next_of_over {time : α} (hover : w.openedAt + width ≤ time) :
    w.next width time = ⟨time, 1⟩ :=
  if_pos hover

theorem next_of_open {time : α} (hopen : time < w.openedAt + width) :
    w.next width time = ⟨w.openedAt, w.count + 1⟩ :=
  if_neg (not_le.mpr hopen)

/-- Calls of one window with numbers in a range are no more than the numbers. -/
theorem length_le_of_same_window (low high : Nat) {cs : List (Call α)}
    (hordered : cs.Pairwise (Call.Before width))
    (hsame : ∀ c ∈ cs, ∀ c' ∈ cs, ¬(c.openedAt + width ≤ c'.openedAt ∧ c.time ≤ c'.openedAt))
    (hrange : ∀ c ∈ cs, low ≤ c.number ∧ c.number ≤ high) : cs.length ≤ high + 1 - low := by
  have hnumbers : (cs.map Call.number).Nodup := by
    rw [List.Nodup, List.pairwise_map]
    refine hordered.imp_of_mem fun {c c'} hc hc' hbefore => ?_
    rcases hbefore with ⟨-, hlt⟩ | hlater
    · exact hlt.ne
    · exact absurd hlater (hsame c hc c' hc')
  have hsubset : (cs.map Call.number).toFinset ⊆ Finset.Icc low high := by
    intro n hn
    simp only [List.mem_toFinset, List.mem_map] at hn
    obtain ⟨c, hc, rfl⟩ := hn
    exact Finset.mem_Icc.mpr (hrange c hc)
  have hcard := Finset.card_le_card hsubset
  rwa [List.toFinset_card_of_nodup hnumbers, List.length_map, Nat.card_Icc] at hcard

/-- Every call has a number. -/
theorem number_pos (width : α) (w : FixedWindow α) (times : List α) :
    ∀ c ∈ calls width w times, 1 ≤ c.number := by
  induction times generalizing w with
  | nil => simp [calls]
  | cons time times ih =>
      rw [calls, List.forall_mem_cons]
      refine ⟨?_, ih _⟩
      unfold callAt next
      split
      · exact le_rfl
      · exact Nat.succ_le_succ (Nat.zero_le _)

variable [IsOrderedAddMonoid α]

/-- The calls that follow a window with a call in it. -/
theorem of_mem_calls (hwidth : 0 < width) (hcount : 1 ≤ w.count) {last : α}
    (hlast : w.openedAt ≤ last) (hsorted : (last :: times).Pairwise (· ≤ ·)) :
    ∀ c ∈ calls width w times, c.InWindow width ∧ (w.callAt last).Before width c := by
  induction times generalizing w last with
  | nil => simp [calls]
  | cons time times ih =>
      rw [List.pairwise_cons] at hsorted
      have htime : last ≤ time := hsorted.1 time List.mem_cons_self
      rcases le_or_gt (w.openedAt + width) time with hover | hopen
      · -- The call opens a window.
        have hrest := ih (w := ⟨time, 1⟩) le_rfl (le_refl time) hsorted.2
        simp only [calls, next_of_over hover, List.forall_mem_cons]
        refine ⟨⟨⟨le_rfl, ?_, fun _ => rfl⟩, Or.inr ⟨hover, htime⟩⟩, ?_⟩
        · exact lt_add_of_pos_right time hwidth
        · intro c hc
          obtain ⟨hin, hbefore⟩ := hrest c hc
          refine ⟨hin, Or.inr ?_⟩
          rcases hbefore with ⟨hsame, -⟩ | ⟨hlater, -⟩
          · exact ⟨hover.trans hsame.le, htime.trans hsame.le⟩
          · have hle : time ≤ c.openedAt := (le_add_of_nonneg_right hwidth.le).trans hlater
            exact ⟨hover.trans hle, htime.trans hle⟩
      · -- The call is counted in the window.
        have hrest := ih (w := ⟨w.openedAt, w.count + 1⟩)
          (Nat.succ_le_succ (Nat.zero_le _)) (hlast.trans htime) hsorted.2
        simp only [calls, next_of_open hopen, List.forall_mem_cons]
        refine ⟨⟨⟨hlast.trans htime, hopen, ?_⟩, Or.inl ⟨rfl, Nat.lt_succ_self _⟩⟩, ?_⟩
        · intro hfirst
          simp only [callAt] at hfirst
          omega
        · intro c hc
          obtain ⟨hin, hbefore⟩ := hrest c hc
          refine ⟨hin, ?_⟩
          rcases hbefore with ⟨hsame, hnumber⟩ | ⟨hlater, htime'⟩
          · exact Or.inl ⟨hsame, (Nat.lt_succ_self _).trans hnumber⟩
          · exact Or.inr ⟨hlater, htime.trans htime'⟩

/-- The first call opens a window. -/
def Opens (width : α) (w : FixedWindow α) (times : List α) : Prop :=
  ∀ time ∈ times.head?, w.openedAt + width ≤ time

theorem inWindow_of_mem_calls (hwidth : 0 < width) (hopens : w.Opens width times)
    (hsorted : times.Pairwise (· ≤ ·)) : ∀ c ∈ calls width w times, c.InWindow width := by
  cases times with
  | nil => simp [calls]
  | cons time times =>
      have hover : w.openedAt + width ≤ time := hopens time rfl
      simp only [calls, next_of_over hover, List.forall_mem_cons]
      refine ⟨⟨le_rfl, lt_add_of_pos_right time hwidth, fun _ => rfl⟩, ?_⟩
      intro c hc
      exact (of_mem_calls hwidth le_rfl le_rfl hsorted c hc).1

/-- Calls are ordered by their windows and by their numbers within them. -/
theorem pairwise_calls_of_count (hwidth : 0 < width) (hcount : 1 ≤ w.count) {last : α}
    (hlast : w.openedAt ≤ last) (hsorted : (last :: times).Pairwise (· ≤ ·)) :
    (w.callAt last :: calls width w times).Pairwise (Call.Before width) := by
  induction times generalizing w last with
  | nil => simp [calls]
  | cons time times ih =>
      rw [List.pairwise_cons]
      refine ⟨fun c hc => (of_mem_calls hwidth hcount hlast hsorted c hc).2, ?_⟩
      rw [List.pairwise_cons] at hsorted
      have htime : last ≤ time := hsorted.1 time List.mem_cons_self
      rcases le_or_gt (w.openedAt + width) time with hover | hopen
      · simp only [calls, next_of_over hover]
        exact ih le_rfl le_rfl hsorted.2
      · simp only [calls, next_of_open hopen]
        exact ih (by simp) (hlast.trans htime) hsorted.2

theorem pairwise_calls (hwidth : 0 < width) (hopens : w.Opens width times)
    (hsorted : times.Pairwise (· ≤ ·)) :
    (calls width w times).Pairwise (Call.Before width) := by
  cases times with
  | nil => exact List.Pairwise.nil
  | cons time times =>
      have hover : w.openedAt + width ≤ time := hopens time rfl
      simp only [calls, next_of_over hover]
      exact pairwise_calls_of_count hwidth le_rfl le_rfl hsorted

/-- A window is never followed by an earlier one. -/
theorem openedAt_le_after (hwidth : 0 < width) (w : FixedWindow α) (times : List α) :
    w.openedAt ≤ (w.after width times).openedAt := by
  induction times generalizing w with
  | nil => exact le_rfl
  | cons time times ih =>
      refine le_trans ?_ (ih (w.next width time))
      rcases le_or_gt (w.openedAt + width) time with hover | hopen
      · rw [next_of_over hover]
        exact (le_add_of_nonneg_right hwidth.le).trans hover
      · rw [next_of_open hopen]

/-- The count of the last window is the number of calls in it, on top of those the first
window had. -/
theorem count_after (hwidth : 0 < width) (w : FixedWindow α) (times : List α) :
    (w.after width times).count =
      (if (w.after width times).openedAt = w.openedAt then w.count else 0) +
        ((calls width w times).filter
          fun c => c.openedAt = (w.after width times).openedAt).length := by
  induction times generalizing w with
  | nil => simp [after, calls]
  | cons time times ih =>
      have hrest := ih (w.next width time)
      have hafter : w.after width (time :: times) = (w.next width time).after width times := rfl
      have hle := openedAt_le_after hwidth (w.next width time) times
      rw [hafter, hrest, calls, List.filter_cons]
      rcases le_or_gt (w.openedAt + width) time with hover | hopen
      · rw [next_of_over hover] at hle ⊢
        have hlater : w.openedAt < time := (lt_add_of_pos_right _ hwidth).trans_le hover
        rw [if_neg (hlater.trans_le hle).ne']
        by_cases hlast : (after width ⟨time, 1⟩ times).openedAt = time
        · simp [callAt, hlast, Nat.add_comm]
        · simp [callAt, hlast, Ne.symm hlast]
      · rw [next_of_open hopen] at hle ⊢
        by_cases hlast : (after width ⟨w.openedAt, w.count + 1⟩ times).openedAt = w.openedAt
        · simp only [callAt, hlast, if_true, decide_true, List.length_cons]
          omega
        · simp [callAt, hlast, Ne.symm hlast]

/-! ## Bounds -/

/-- A window lets no more calls pass than the limit. -/
theorem length_window_le (hwidth : 0 < width) (hopens : w.Opens width times)
    (hsorted : times.Pairwise (· ≤ ·)) (limit : Nat) (opened : α) :
    ((calls width w times).filter
      fun c => c.openedAt = opened ∧ c.number ≤ limit).length ≤ limit := by
  have hordered := (pairwise_calls hwidth hopens hsorted).filter
    fun c => decide (c.openedAt = opened ∧ c.number ≤ limit)
  refine length_le_of_same_window 1 limit hordered ?_ ?_
  · intro c hc c' hc' hlater
    simp only [List.mem_filter, decide_eq_true_eq] at hc hc'
    rw [hc.2.1, hc'.2.1] at hlater
    exact absurd hlater.1 (not_le.mpr (lt_add_of_pos_right opened hwidth))
  · intro c hc
    simp only [List.mem_filter, decide_eq_true_eq] at hc
    exact ⟨number_pos width w times c hc.1, hc.2.2⟩

/-- The calls that pass in an interval as long as a window. -/
def passedIn (width : α) (limit : Nat) (start : α) (cs : List (Call α)) : List (Call α) :=
  cs.filter fun c => start ≤ c.time ∧ c.time < start + width ∧ c.number ≤ limit

/-- An interval as long as a window overlaps one window opened before it, whose opener it
misses, and one opened in it. -/
theorem length_interval_le (hwidth : 0 < width) (hopens : w.Opens width times)
    (hsorted : times.Pairwise (· ≤ ·)) (limit : Nat) (hlimit : 1 ≤ limit) (start : α) :
    (passedIn width limit start (calls width w times)).length ≤ 2 * limit - 1 := by
  have hordered := (pairwise_calls hwidth hopens hsorted).filter
    fun c => decide (start ≤ c.time ∧ c.time < start + width ∧ c.number ≤ limit)
  have hin := inWindow_of_mem_calls hwidth hopens hsorted
  have hold := hordered.filter fun c => decide (c.openedAt < start)
  have hnew := hordered.filter fun c => !decide (c.openedAt < start)
  have hold_le := length_le_of_same_window 2 limit hold ?_ ?_
  · have hnew_le := length_le_of_same_window 1 limit hnew ?_ ?_
    · have hsplit := List.length_eq_length_filter_add (l := passedIn width limit start
        (calls width w times)) fun c => decide (c.openedAt < start)
      unfold passedIn at hsplit ⊢
      omega
    · intro c hc c' hc' hlater
      simp only [List.mem_filter, Bool.not_eq_true', decide_eq_true_eq, decide_eq_false_iff_not,
        not_lt] at hc hc'
      have hnext : start + width ≤ c'.openedAt :=
        (add_le_add_left hc.2 width).trans hlater.1
      exact absurd (hnext.trans (hin c' hc'.1.1).openedAt_le) (not_le.mpr hc'.1.2.2.1)
    · intro c hc
      simp only [List.mem_filter, Bool.not_eq_true', decide_eq_true_eq] at hc
      exact ⟨number_pos width w times c hc.1.1, hc.1.2.2.2⟩
  · intro c hc c' hc' hlater
    simp only [List.mem_filter, decide_eq_true_eq] at hc hc'
    exact absurd (hc.1.2.1.trans hlater.2) (not_le.mpr hc'.2)
  · intro c hc
    simp only [List.mem_filter, decide_eq_true_eq] at hc
    refine ⟨?_, hc.1.2.2.2⟩
    by_contra hfirst
    have hopener := (hin c hc.1.1).opener (by omega)
    rw [← hopener] at hc
    exact absurd hc.1.2.1 (not_le.mpr hc.2)

end FixedWindow

end Library
