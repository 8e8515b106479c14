import Mathlib.Algebra.BigOperators.Group.Finset.Basic
import Mathlib.Algebra.Order.BigOperators.Group.Finset
import Mathlib.Algebra.Order.Ring.Int
import Mathlib.Logic.Function.Basic

/-!
# Takes of a portion that is offered again and again

A walk over a list of keys takes from every key it comes to the same portion, or what the
key still has if that is less.  The portion does not shrink on the way, so the walk may
take more than one portion altogether.

Main results:

- Theorem {lit}`min_le_total`: every key of the walk gives up its share at least once.
- Theorem {lit}`total_eq_sum`: keys that have no more than a portion are emptied.
- Theorem {lit}`total_le_iff`: the walk takes no more than one portion exactly when it has
  at most one turn, or all its keys together have no more than a portion.
-/

namespace Library

variable {κ : Type} [DecidableEq κ] {portion : Int}

/-- Take the portion from every key of a list, or what the key has.  A key that has nothing
is skipped. -/
def takes (portion : Int) : (κ → Int) → List κ → List (κ × Int)
  | _, [] => []
  | has, k :: ks =>
      let share := min (has k) portion
      if share ≤ 0 then takes portion has ks
      else (k, share) :: takes portion (Function.update has k (has k - share)) ks

/-- What a walk takes altogether. -/
def total (portion : Int) (has : κ → Int) (ks : List κ) : Int :=
  ((takes portion has ks).map Prod.snd).sum

@[simp]
theorem total_nil (has : κ → Int) : total portion has [] = 0 :=
  rfl

/-- A key that has nothing is skipped. -/
theorem total_cons_of_nonpos {has : κ → Int} {k : κ} (hk : has k ≤ 0) (ks : List κ) :
    total portion has (k :: ks) = total portion has ks := by
  have hshare : min (has k) portion ≤ 0 := (min_le_left _ _).trans hk
  simp only [total, takes, if_pos hshare]

theorem total_cons (hportion : 0 < portion) {has : κ → Int} {k : κ} (hk : 0 < has k)
    (ks : List κ) :
    total portion has (k :: ks) = min (has k) portion +
      total portion (Function.update has k (has k - min (has k) portion)) ks := by
  have hshare : ¬min (has k) portion ≤ 0 := not_le.mpr (lt_min hk hportion)
  simp only [total, takes, if_neg hshare, List.map_cons, List.sum_cons]

theorem total_nonneg (has : κ → Int) (ks : List κ) : 0 ≤ total portion has ks := by
  have hpos : ∀ has : κ → Int, ∀ x ∈ takes portion has ks, 0 < x.2 := by
    induction ks with
    | nil => simp [takes]
    | cons k ks ih =>
        intro has x hx
        rw [takes] at hx
        split at hx
        · exact ih has x hx
        · rcases List.mem_cons.mp hx with rfl | hx
          · exact not_le.mp ‹_›
          · exact ih _ x hx
  refine List.sum_nonneg ?_
  intro n hn
  obtain ⟨x, hx, rfl⟩ := List.mem_map.mp hn
  exact (hpos has x hx).le

/-- Keys that have nothing may be left out of a walk. -/
theorem takes_filter {has : κ → Int} {keep : κ → Bool} (hkeep : ∀ k, keep k = false → has k ≤ 0)
    (ks : List κ) : takes portion has (ks.filter keep) = takes portion has ks := by
  induction ks generalizing has with
  | nil => rfl
  | cons k ks ih =>
      cases hk : keep k with
      | false =>
          have hshare : min (has k) portion ≤ 0 := (min_le_left _ _).trans (hkeep k hk)
          rw [List.filter_cons_of_neg (by simp [hk]), ih hkeep, takes, if_pos hshare]
      | true =>
          rw [List.filter_cons_of_pos hk, takes, takes, ih hkeep]
          split
          · rfl
          · rw [ih]
            intro k' hk'
            have hne : k' ≠ k := by
              rintro rfl
              exact absurd (hk.symm.trans hk') (by simp)
            rw [Function.update_of_ne hne]
            exact hkeep k' hk'

/-- Every key of the walk gives up its share at least once. -/
theorem min_le_total (hportion : 0 < portion) {has : κ → Int} {ks : List κ} {k : κ}
    (hk : k ∈ ks) : min (has k) portion ≤ total portion has ks := by
  induction ks generalizing has with
  | nil => contradiction
  | cons k' ks ih =>
      rcases le_or_gt (has k') 0 with hnone | hsome
      · rw [total_cons_of_nonpos hnone]
        rcases List.mem_cons.mp hk with rfl | hk
        · exact ((min_le_left _ _).trans hnone).trans (total_nonneg has ks)
        · exact ih hk
      · rw [total_cons hportion hsome]
        have hshare : 0 < min (has k') portion := lt_min hsome hportion
        by_cases hsame : k = k'
        · subst hsame
          have hrest : 0 ≤ total portion (Function.update has k (has k - min (has k) portion)) ks :=
            total_nonneg _ ks
          omega
        · have hrest : min (Function.update has k' (has k' - min (has k') portion) k) portion ≤
              total portion (Function.update has k' (has k' - min (has k') portion)) ks :=
            ih ((List.mem_cons.mp hk).resolve_left hsame)
          rw [Function.update_of_ne hsame] at hrest
          omega

/-- Keys that have no more than a portion are emptied by their first turns. -/
theorem total_eq_sum (hportion : 0 < portion) {has : κ → Int} {ks : List κ}
    (hhas : ∀ k ∈ ks, 0 ≤ has k ∧ has k ≤ portion) :
    total portion has ks = ∑ k ∈ ks.toFinset, has k := by
  induction ks generalizing has with
  | nil => simp
  | cons k ks ih =>
      rw [List.forall_mem_cons] at hhas
      rw [List.toFinset_cons]
      rcases hhas.1.1.eq_or_lt with hnone | hsome
      · rw [total_cons_of_nonpos hnone.ge, ih hhas.2]
        by_cases hmem : k ∈ ks.toFinset
        · rw [Finset.insert_eq_of_mem hmem]
        · rw [Finset.sum_insert hmem, ← hnone, zero_add]
      · have hshare : min (has k) portion = has k := min_eq_left hhas.1.2
        rw [total_cons hportion hsome, hshare, sub_self, ih]
        · rw [← Finset.sum_erase_add _ _ (Finset.mem_insert_self k ks.toFinset), add_comm]
          congr 1
          rw [Finset.erase_insert_eq_erase, ← Finset.sum_erase _ (Function.update_self k 0 has)]
          refine Finset.sum_congr rfl ?_
          intro k' hk'
          exact Function.update_of_ne (Finset.ne_of_mem_erase hk') _ _
        · intro k' hk'
          by_cases hsame : k' = k
          · subst hsame
            rw [Function.update_self]
            exact ⟨le_rfl, hportion.le⟩
          · rw [Function.update_of_ne hsame]
            exact hhas.2 k' hk'

/-- The walk takes no more than one portion exactly when it has at most one turn, or all its
keys together have no more than a portion. -/
theorem total_le_iff (hportion : 0 < portion) {has : κ → Int} {ks : List κ}
    (hhas : ∀ k ∈ ks, 0 < has k) :
    total portion has ks ≤ portion ↔
      ks.length ≤ 1 ∨ ∑ k ∈ ks.toFinset, has k ≤ portion := by
  constructor
  · intro htotal
    rcases ks with _ | ⟨k, _ | ⟨k', ks⟩⟩
    · exact Or.inl (by simp)
    · exact Or.inl (by simp)
    · -- The second turn takes something, so the first one empties its key, and the rest
      -- takes less than a portion.
      right
      have hk := hhas k List.mem_cons_self
      rw [← total_eq_sum hportion]
      · exact htotal
      rw [total_cons hportion hk] at htotal
      have hshare : 0 < min (has k) portion := lt_min hk hportion
      have hsecond : min (Function.update has k (has k - min (has k) portion) k') portion ≤ _ :=
        min_le_total hportion (List.mem_cons_self (l := ks))
      have hfirst : has k ≤ portion := by
        by_contra hmore
        rw [not_le] at hmore
        rw [min_eq_right hmore.le] at htotal hsecond
        have hleft : 0 < Function.update has k (has k - portion) k' := by
          by_cases hsame : k' = k
          · rw [hsame, Function.update_self]
            omega
          · rw [Function.update_of_ne hsame]
            exact hhas k' (by simp)
        have hpos := lt_min hleft hportion
        omega
      intro j hj
      refine ⟨(hhas j hj).le, ?_⟩
      by_cases hsame : j = k
      · exact hsame ▸ hfirst
      · have hj' : min (Function.update has k (has k - min (has k) portion) j) portion ≤ _ :=
          min_le_total hportion ((List.mem_cons.mp hj).resolve_left hsame)
        rw [Function.update_of_ne hsame] at hj'
        omega
  · rintro (hshort | hsum)
    · rcases ks with _ | ⟨k, _ | ⟨k', ks⟩⟩
      · simpa using hportion.le
      · rw [total_cons hportion (hhas k List.mem_cons_self)]
        simp
      · simp at hshort
    · have hle : ∀ k ∈ ks, has k ≤ portion := by
        intro k hk
        refine le_trans ?_ hsum
        refine Finset.single_le_sum (f := has) ?_ (List.mem_toFinset.mpr hk)
        intro k' hk'
        exact (hhas k' (List.mem_toFinset.mp hk')).le
      rw [total_eq_sum hportion fun k hk => ⟨(hhas k hk).le, hle k hk⟩]
      exact hsum

end Library
