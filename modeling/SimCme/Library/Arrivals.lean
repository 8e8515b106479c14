import Mathlib.Order.Bounds.Basic
import Mathlib.Data.List.Nodup

/-!
# Numbers that arrive out of order

A receiver expects consecutive numbers.  A number ahead of the expected one leaves a range
of numbers out, and the receiver goes on behind it; a number that is late changes nothing.

Main results:

- Theorem {lit}`isGreatest_expectedAfter`: the number expected is the start or one above the
  largest arrival.
- Theorem {lit}`pairwise_skippedRanges`: the ranges left out increase and do not overlap.
- Theorem {lit}`mem_skippedRanges_iff`: they hold the numbers that had not arrived when a
  larger number first did.
- Theorem {lit}`arrived_or_overtaken`: every number below the expected one arrived or was
  left out.
- Theorem {lit}`Numbered.append`: consecutive numbering goes on over a concatenation.
- Theorem {lit}`Stamped.nodup`: items stamped with ascending numbers are distinct.
-/

namespace Library

/-- The number expected after the arrivals. -/
def expectedAfter : Nat → List Nat → Nat
  | start, [] => start
  | start, n :: ns => expectedAfter (max start (n + 1)) ns

/-- The ranges the arrivals leave out, each as its first number and the number behind it. -/
def skippedRanges : Nat → List Nat → List (Nat × Nat)
  | _, [] => []
  | start, n :: ns =>
      (if start < n then [(start, n)] else []) ++ skippedRanges (max start (n + 1)) ns

/-- A number had not arrived when a larger number first did. -/
def Overtaken (ns : List Nat) (n : Nat) : Prop :=
  ∃ before larger after, ns = before ++ larger :: after ∧ n < larger ∧
    (∀ k ∈ before, k ≤ n) ∧ n ∉ before

theorem not_overtaken_nil (n : Nat) : ¬Overtaken [] n := by
  rintro ⟨before, larger, after, hsplit, -⟩
  simp at hsplit

/-- The first arrival overtakes the numbers below it.  It leaves those above it to the
others. -/
theorem overtaken_cons_iff (first n : Nat) (ns : List Nat) :
    Overtaken (first :: ns) n ↔ n < first ∨ (first < n ∧ Overtaken ns n) := by
  constructor
  · rintro ⟨before, larger, after, hsplit, hlarger, hbefore, hnew⟩
    cases before with
    | nil =>
        obtain ⟨rfl, rfl⟩ := List.cons.inj hsplit
        exact Or.inl hlarger
    | cons k before =>
        obtain ⟨rfl, rfl⟩ := List.cons.inj hsplit
        rw [List.forall_mem_cons] at hbefore
        rw [List.mem_cons, not_or] at hnew
        exact Or.inr ⟨by omega, before, larger, after, rfl, hlarger, hbefore.2, hnew.2⟩
  · rintro (hlt | ⟨hlt, before, larger, after, rfl, hlarger, hbefore, hnew⟩)
    · exact ⟨[], first, ns, rfl, hlt, by simp, by simp⟩
    · refine ⟨first :: before, larger, after, rfl, hlarger, ?_, ?_⟩
      · rw [List.forall_mem_cons]
        exact ⟨hlt.le, hbefore⟩
      · rw [List.mem_cons, not_or]
        exact ⟨hlt.ne', hnew⟩

theorem le_expectedAfter (start : Nat) (ns : List Nat) : start ≤ expectedAfter start ns := by
  induction ns generalizing start with
  | nil => exact le_rfl
  | cons n ns ih =>
      have hrest := ih (max start (n + 1))
      rw [expectedAfter]
      omega

theorem lt_expectedAfter {n : Nat} {ns : List Nat} (hn : n ∈ ns) (start : Nat) :
    n < expectedAfter start ns := by
  induction ns generalizing start with
  | nil => simp at hn
  | cons k ns ih =>
      rw [expectedAfter]
      rcases List.mem_cons.mp hn with rfl | hn
      · have hrest := le_expectedAfter (max start (n + 1)) ns
        omega
      · exact ih hn _

/-- The number expected is the start, or one above an arrival. -/
theorem expectedAfter_cases (start : Nat) (ns : List Nat) :
    expectedAfter start ns = start ∨ ∃ n ∈ ns, expectedAfter start ns = n + 1 := by
  induction ns generalizing start with
  | nil => exact Or.inl rfl
  | cons n ns ih =>
      rw [expectedAfter]
      rcases ih (max start (n + 1)) with hsame | ⟨k, hk, hlast⟩
      · rw [hsame]
        rcases le_total start (n + 1) with hle | hle
        · exact Or.inr ⟨n, List.mem_cons_self, max_eq_right hle⟩
        · exact Or.inl (max_eq_left hle)
      · exact Or.inr ⟨k, List.mem_cons_of_mem n hk, hlast⟩

/-- The number expected is the larger of the start and one above the largest arrival. -/
theorem isGreatest_expectedAfter (start : Nat) (ns : List Nat) :
    IsGreatest {e | e = start ∨ ∃ n ∈ ns, e = n + 1} (expectedAfter start ns) := by
  refine ⟨expectedAfter_cases start ns, ?_⟩
  rintro e (rfl | ⟨n, hn, rfl⟩)
  · exact le_expectedAfter e ns
  · exact lt_expectedAfter hn start

/-- No range is empty, and none starts below the start. -/
theorem of_mem_skippedRanges {start : Nat} {ns : List Nat} {r : Nat × Nat}
    (hr : r ∈ skippedRanges start ns) : start ≤ r.1 ∧ r.1 < r.2 := by
  induction ns generalizing start with
  | nil => simp [skippedRanges] at hr
  | cons n ns ih =>
      rcases List.mem_append.mp hr with hr | hr
      · split at hr
        · obtain rfl := List.mem_singleton.mp hr
          exact ⟨le_rfl, ‹_›⟩
        · simp at hr
      · have hrest := ih hr
        omega

/-- The ranges increase and do not overlap. -/
theorem pairwise_skippedRanges (start : Nat) (ns : List Nat) :
    (skippedRanges start ns).Pairwise fun r r' => r.2 ≤ r'.1 := by
  induction ns generalizing start with
  | nil => exact List.Pairwise.nil
  | cons n ns ih =>
      rw [skippedRanges]
      split
      · rw [List.singleton_append, List.pairwise_cons]
        refine ⟨?_, ih _⟩
        intro r hr
        have hstart := (of_mem_skippedRanges hr).1
        dsimp only
        omega
      · exact ih _

/-- A number lies in a range exactly when it is not below the start and had not arrived
when a larger number first did. -/
theorem mem_skippedRanges_iff (start n : Nat) (ns : List Nat) :
    (∃ r ∈ skippedRanges start ns, r.1 ≤ n ∧ n < r.2) ↔ start ≤ n ∧ Overtaken ns n := by
  induction ns generalizing start with
  | nil => simp [skippedRanges, not_overtaken_nil]
  | cons k ns ih =>
      have hfirst : (∃ r ∈ if start < k then [(start, k)] else [], r.1 ≤ n ∧ n < r.2) ↔
          start ≤ n ∧ n < k := by
        split
        · simp
        · simp only [List.not_mem_nil, false_and, exists_false, false_iff]
          omega
      rw [skippedRanges, overtaken_cons_iff]
      simp only [List.mem_append, or_and_right, exists_or]
      rw [hfirst, ih]
      constructor
      · rintro (⟨hstart, hlt⟩ | ⟨hstart, hovertaken⟩)
        · exact ⟨hstart, Or.inl hlt⟩
        · exact ⟨by omega, Or.inr ⟨by omega, hovertaken⟩⟩
      · rintro ⟨hstart, hlt | ⟨hlt, hovertaken⟩⟩
        · exact Or.inl ⟨hstart, hlt⟩
        · exact Or.inr ⟨by omega, hovertaken⟩

/-- A number that is overtaken lies below the number expected. -/
theorem Overtaken.lt_expectedAfter {n : Nat} {ns : List Nat} (hovertaken : Overtaken ns n)
    (start : Nat) : n < expectedAfter start ns := by
  obtain ⟨before, larger, after, rfl, hlarger, -, -⟩ := hovertaken
  have hlast : larger < expectedAfter start (before ++ larger :: after) :=
    Library.lt_expectedAfter (by simp) start
  omega

/-- A number below the number expected arrived or was overtaken. -/
theorem arrived_or_overtaken {start n : Nat} {ns : List Nat} (hstart : start ≤ n)
    (hlt : n < expectedAfter start ns) : n ∈ ns ∨ Overtaken ns n := by
  induction ns generalizing start with
  | nil =>
      rw [expectedAfter] at hlt
      omega
  | cons k ns ih =>
      rw [overtaken_cons_iff, List.mem_cons]
      rcases Nat.lt_trichotomy n k with hbelow | rfl | habove
      · exact Or.inr (Or.inl hbelow)
      · exact Or.inl (Or.inl rfl)
      · have hstart : max start (k + 1) ≤ n := by omega
        rcases ih hstart hlt with hmem | hovertaken
        · exact Or.inl (Or.inr hmem)
        · exact Or.inr (Or.inr ⟨habove, hovertaken⟩)

/-! ## Consecutive numbers -/

section Numbered

variable {α ν : Type} [Add ν] [OfNat ν 1] {number : α → Option ν} {start middle stop : ν}

/-- The items of a list that carry a number carry consecutive ones, from the first number up
to the one behind the last. -/
def Numbered (number : α → Option ν) : ν → List α → ν → Prop
  | start, [], stop => start = stop
  | start, x :: xs, stop =>
      match number x with
      | none => Numbered number start xs stop
      | some n => n = start ∧ Numbered number (start + 1) xs stop

theorem numbered_cons_of_none {x : α} {xs : List α} (hx : number x = none) :
    Numbered number start (x :: xs) stop ↔ Numbered number start xs stop := by
  simp only [Numbered, hx]

theorem numbered_cons_of_some {x : α} {n : ν} {xs : List α} (hx : number x = some n) :
    Numbered number start (x :: xs) stop ↔ n = start ∧ Numbered number (start + 1) xs stop := by
  simp only [Numbered, hx]

/-- A list goes on where its first part stopped. -/
theorem Numbered.append {xs ys : List α} (hxs : Numbered number start xs middle)
    (hys : Numbered number middle ys stop) : Numbered number start (xs ++ ys) stop := by
  induction xs generalizing start with
  | nil =>
      cases hxs
      exact hys
  | cons x xs ih =>
      rw [List.cons_append]
      cases hx : number x with
      | none =>
          rw [numbered_cons_of_none hx] at hxs ⊢
          exact ih hxs
      | some n =>
          rw [numbered_cons_of_some hx] at hxs ⊢
          exact ⟨hxs.1, ih hxs.2⟩

theorem numbered_singleton {x : α} (hx : number x = some start) :
    Numbered number start [x] (start + 1) := by
  rw [numbered_cons_of_some hx]
  exact ⟨rfl, rfl⟩

end Numbered

/-! ## Ascending numbers -/

section Stamped

variable {β : Type} {stamp : Nat → β} {xs ys : List β} {next : Nat}

/-- The items carry the stamps of ascending numbers that have been given out. -/
def Stamped (stamp : Nat → β) (xs : List β) (next : Nat) : Prop :=
  ∃ ns : List Nat, ns.Pairwise (· < ·) ∧ (∀ n ∈ ns, n < next) ∧ xs = ns.map stamp

theorem stamped_nil (stamp : Nat → β) (next : Nat) : Stamped stamp [] next :=
  ⟨[], .nil, by simp, rfl⟩

/-- Items may be lost. -/
theorem Stamped.sublist (hxs : Stamped stamp xs next) (hys : ys.Sublist xs) :
    Stamped stamp ys next := by
  obtain ⟨ns, hascends, hlt, rfl⟩ := hxs
  obtain ⟨ms, hms, rfl⟩ := List.sublist_map_iff.mp hys
  exact ⟨ms, hascends.sublist hms, fun m hm => hlt m (hms.subset hm), rfl⟩

/-- The next numbers are given out. -/
theorem Stamped.append_range' (hxs : Stamped stamp xs next) (count : Nat) :
    Stamped stamp (xs ++ (List.range' next count).map stamp) (next + count) := by
  obtain ⟨ns, hascends, hlt, rfl⟩ := hxs
  refine ⟨ns ++ List.range' next count, ?_, ?_, by rw [List.map_append]⟩
  · rw [List.pairwise_append]
    refine ⟨hascends, List.pairwise_lt_range', fun n hn m hm => ?_⟩
    exact Nat.lt_of_lt_of_le (hlt n hn) (List.mem_range'_1.mp hm).1
  · intro n hn
    rcases List.mem_append.mp hn with hn | hn
    · exact Nat.lt_of_lt_of_le (hlt n hn) (Nat.le_add_right _ _)
    · exact (List.mem_range'_1.mp hn).2

/-- Stamps that tell the numbers given out apart tell the items apart. -/
theorem Stamped.nodup (hxs : Stamped stamp xs next)
    (hinj : ∀ m < next, ∀ n < next, stamp m = stamp n → m = n) : xs.Nodup := by
  obtain ⟨ns, hascends, hlt, rfl⟩ := hxs
  refine List.Nodup.map_on (fun m hm n hn => hinj m (hlt m hm) n (hlt n hn)) ?_
  exact hascends.imp fun hmn => Nat.ne_of_lt hmn

end Stamped

end Library
