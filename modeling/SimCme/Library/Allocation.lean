import Mathlib.Data.List.Basic
import Mathlib.Algebra.BigOperators.Group.List.Basic
import Mathlib.Algebra.Order.Group.Int
import Mathlib.Tactic.Linarith

/-!
# Greedy allocation over a ranked list of offers

A demand is served from a list of offers in the order of the list.  Each offer
has a size; the walk takes as much as the demand still needs from the offer in
front, skips nothing, and stops at the first offer that is not acceptable or
when the demand is met.

Main results:

- Theorem {lit}`sum_allocate`: the allocated total is the demand or everything
  acceptable, whichever is less.
- Theorem {lit}`allocate_split`: every offer ranked before an allocated one is
  taken whole.
- Theorem {lit}`mem_allocate_iff`: an offer is served exactly when all offers up
  to it are acceptable and those before it do not meet the demand.
-/

namespace Library

variable {α : Type}

/-- Serve {lit}`need` units from the offers in list order. -/
def allocate (accepts : α → Bool) (size : α → Int) :
    Int → List α → List (α × Int)
  | _, [] => []
  | need, a :: offers =>
      if need ≤ 0 then []
      else if accepts a then
        (a, min need (size a)) ::
          allocate accepts size (need - min need (size a)) offers
      else []

variable {accepts : α → Bool} {size : α → Int}

/-- A demand that is met takes nothing. -/
theorem allocate_of_nonpos {need : Int} (hneed : need ≤ 0) (offers : List α) :
    allocate accepts size need offers = [] := by
  cases offers with
  | nil => rfl
  | cons a offers => simp [allocate, hneed]

/-- The walk reads its offers only. -/
theorem allocate_congr {accepts' : α → Bool} {size' : α → Int} {need : Int}
    {offers : List α} (haccepts : ∀ a ∈ offers, accepts' a = accepts a)
    (hsize : ∀ a ∈ offers, size' a = size a) :
    allocate accepts' size' need offers = allocate accepts size need offers := by
  induction offers generalizing need with
  | nil => rfl
  | cons a offers ih =>
      simp only [allocate]
      rw [haccepts a (by simp), hsize a (by simp),
        ih (fun b hb => haccepts b (List.mem_cons_of_mem _ hb))
          (fun b hb => hsize b (List.mem_cons_of_mem _ hb))]

/-- Every allocation comes from an acceptable offer. -/
theorem mem_allocate {need : Int} {offers : List α} {p : α × Int}
    (hp : p ∈ allocate accepts size need offers) :
    p.1 ∈ offers ∧ accepts p.1 = true := by
  induction offers generalizing need with
  | nil => simp [allocate] at hp
  | cons a offers ih =>
      simp only [allocate] at hp
      split at hp
      · simp at hp
      · split at hp
        · rename_i haccepts
          rcases List.mem_cons.mp hp with rfl | hp
          · exact ⟨by simp, haccepts⟩
          · have hrest := ih hp
            exact ⟨List.mem_cons_of_mem _ hrest.1, hrest.2⟩
        · simp at hp

/-- The sizes of positive offers add up to a nonnegative total. -/
theorem sum_size_nonneg {offers : List α} (hsize : ∀ a ∈ offers, 0 < size a) :
    0 ≤ (offers.map size).sum := by
  induction offers with
  | nil => simp
  | cons a offers ih =>
      have ha := hsize a (by simp)
      have hrest := ih (fun b hb => hsize b (List.mem_cons_of_mem _ hb))
      simp only [List.map_cons, List.sum_cons]
      omega

/-- The allocated total is the demand or everything acceptable, whichever is
less. -/
theorem sum_allocate {need : Int} {offers : List α}
    (hsize : ∀ a ∈ offers, 0 < size a) :
    ((allocate accepts size need offers).map Prod.snd).sum =
      min (max need 0) ((offers.takeWhile accepts).map size).sum := by
  induction offers generalizing need with
  | nil => simp [allocate]
  | cons a offers ih =>
      have ha := hsize a (by simp)
      have hsize' : ∀ b ∈ offers, 0 < size b :=
        fun b hb => hsize b (List.mem_cons_of_mem _ hb)
      have hrest : 0 ≤ ((offers.takeWhile accepts).map size).sum :=
        sum_size_nonneg fun b hb => hsize' b ((List.takeWhile_sublist accepts).subset hb)
      simp only [allocate, List.takeWhile_cons]
      split
      · rename_i hneed
        split
        · simp only [List.map_nil, List.sum_nil, List.map_cons, List.sum_cons]
          omega
        · simp
      · rename_i hneed
        split
        · simp only [List.map_cons, List.sum_cons, ih hsize']
          omega
        · simp

/-- Every offer ranked before an allocated one is taken whole. -/
theorem allocate_split {need : Int} {offers : List α}
    (hsize : ∀ a ∈ offers, 0 < size a) {before after : List (α × Int)} {a : α}
    {q : Int} (hsplit : allocate accepts size need offers = before ++ (a, q) :: after) :
    ∃ pre post, offers = pre ++ a :: post ∧ before = pre.map fun b => (b, size b) := by
  induction offers generalizing need before with
  | nil => simp [allocate] at hsplit
  | cons b offers ih =>
      have hsize' : ∀ c ∈ offers, 0 < size c :=
        fun c hc => hsize c (List.mem_cons_of_mem _ hc)
      simp only [allocate] at hsplit
      split at hsplit
      · simp at hsplit
      · split at hsplit
        · rename_i hneed haccepts
          cases before with
          | nil =>
              simp only [List.nil_append, List.cons.injEq, Prod.mk.injEq] at hsplit
              obtain ⟨⟨rfl, -⟩, -⟩ := hsplit
              exact ⟨[], offers, rfl, rfl⟩
          | cons p before =>
              simp only [List.cons_append, List.cons.injEq] at hsplit
              obtain ⟨rfl, hsplit⟩ := hsplit
              obtain ⟨pre, post, rfl, rfl⟩ := ih hsize' hsplit
              -- The walk went past `b`, so `b` did not meet the demand.
              have hleft : 0 < need - min need (size b) := by
                by_contra hnot
                rw [allocate_of_nonpos (by omega)] at hsplit
                simp at hsplit
              refine ⟨b :: pre, post, rfl, ?_⟩
              have hmin : min need (size b) = size b := by omega
              simp [hmin]
        · simp at hsplit

/-- An offer is served exactly when every offer up to it is acceptable and the
offers before it leave a part of the demand. -/
theorem mem_allocate_iff {need : Int} {offers : List α}
    (hsize : ∀ a ∈ offers, 0 < size a) (a : α) :
    a ∈ (allocate accepts size need offers).map Prod.fst ↔
      ∃ pre post, offers = pre ++ a :: post ∧
        (∀ b ∈ pre, accepts b = true) ∧ accepts a = true ∧
        (pre.map size).sum < need := by
  induction offers generalizing need with
  | nil => simp [allocate]
  | cons b offers ih =>
      have hb := hsize b (by simp)
      have hsize' : ∀ c ∈ offers, 0 < size c :=
        fun c hc => hsize c (List.mem_cons_of_mem _ hc)
      constructor
      · intro hmem
        simp only [allocate] at hmem
        split at hmem
        · simp at hmem
        · rename_i hneed
          split at hmem
          · rename_i haccepts
            simp only [List.map_cons, List.mem_cons] at hmem
            rcases hmem with rfl | hmem
            · exact ⟨[], offers, rfl, by simp, haccepts, by simpa using hneed⟩
            · obtain ⟨pre, post, rfl, hpre, ha, hsum⟩ := (ih hsize').mp hmem
              have hnonneg : 0 ≤ (pre.map size).sum :=
                sum_size_nonneg fun c hc => hsize' c (by simp [hc])
              refine ⟨b :: pre, post, rfl, ?_, ha, ?_⟩
              · intro c hc
                rcases List.mem_cons.mp hc with rfl | hc
                · exact haccepts
                · exact hpre c hc
              · simp only [List.map_cons, List.sum_cons]
                omega
          · simp at hmem
      · rintro ⟨pre, post, hsplit, hpre, ha, hsum⟩
        cases pre with
        | nil =>
            simp only [List.nil_append, List.cons.injEq] at hsplit
            obtain ⟨rfl, rfl⟩ := hsplit
            have hneed : ¬need ≤ 0 := by simpa using hsum
            simp [allocate, hneed, ha]
        | cons c pre =>
            simp only [List.cons_append, List.cons.injEq] at hsplit
            obtain ⟨rfl, rfl⟩ := hsplit
            have hnonneg : 0 ≤ (pre.map size).sum :=
              sum_size_nonneg fun d hd => hsize' d (by simp [hd])
            simp only [List.map_cons, List.sum_cons] at hsum
            have hneed : ¬need ≤ 0 := by omega
            have hmem : a ∈ (allocate accepts size (need - min need (size b))
                (pre ++ a :: post)).map Prod.fst :=
              (ih hsize').mpr ⟨pre, post, rfl,
                fun d hd => hpre d (List.mem_cons_of_mem _ hd), ha, by omega⟩
            simp [allocate, hneed, hpre b (by simp), hmem]

/-- Where no acceptable offer follows an unacceptable one, the offers the walk can
reach are the acceptable ones. -/
theorem takeWhile_eq_filter {offers : List α}
    (hmono : offers.Pairwise fun a b => accepts a = false → accepts b = false) :
    offers.takeWhile accepts = offers.filter accepts := by
  induction offers with
  | nil => rfl
  | cons a offers ih =>
      rcases List.pairwise_cons.mp hmono with ⟨ha, hrest⟩
      by_cases haccepts : accepts a
      · simp [haccepts, ih hrest]
      · have hnone : offers.filter accepts = [] := by
          apply List.filter_eq_nil_iff.mpr
          intro b hb
          have hb' := ha b hb (Bool.not_eq_true _ ▸ haccepts)
          simp [hb']
        simp [haccepts, hnone]

end Library
