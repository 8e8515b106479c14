import Mathlib.Data.List.Nodup
import Mathlib.Logic.Function.Basic

/-!
# Secondary indexes of a table

A table files values by keys.  A secondary index lists the keys by an attribute of their
values.

Main results:

- Theorem {lit}`Lists.insert`: a new key is listed under the attribute of its value.
- Theorem {lit}`Lists.remove`: keys of one attribute are removed from the table and from
  their list.
- Theorem {lit}`Lists.congr`: the index goes by the attributes of the values only.
- Theorem {lit}`Lists.once`: a listed key stands in one place of one list.
-/

namespace Library

variable {κ α β : Type} {attr : α → β} {table : κ → Option α} {lists : β → List κ}

/-- The lists hold the keys of the table by the attribute of their values, with no
repetition. -/
structure Lists (attr : α → β) (table : κ → Option α) (lists : β → List κ) : Prop where
  listed : ∀ b k, k ∈ lists b ↔ ∃ a, table k = some a ∧ attr a = b
  nodup : ∀ b, (lists b).Nodup

namespace Lists

theorem empty (attr : α → β) : Lists attr (fun _ : κ => none) fun _ => [] where
  listed := by simp
  nodup := by simp

/-- The index goes by the attributes of the values only. -/
theorem congr (hlists : Lists attr table lists) {table' : κ → Option α}
    (hattr : ∀ k, (table' k).map attr = (table k).map attr) : Lists attr table' lists where
  listed := by
    intro b k
    rw [hlists.listed, ← Option.map_eq_some_iff, ← Option.map_eq_some_iff, hattr]
  nodup := hlists.nodup

/-- A key that is not filed is not listed. -/
theorem not_mem_of_eq_none (hlists : Lists attr table lists) {k : κ} (hk : table k = none)
    (b : β) : k ∉ lists b := by
  intro hmem
  obtain ⟨a, ha, -⟩ := (hlists.listed b k).mp hmem
  rw [hk] at ha
  contradiction

/-- A listed key stands in one place of one list. -/
theorem once [DecidableEq κ] (hlists : Lists attr table lists) {b : β} {k : κ}
    (hk : k ∈ lists b) : (lists b).count k = 1 ∧ ∀ b', k ∈ lists b' → b' = b := by
  refine ⟨List.count_eq_one_of_mem (hlists.nodup b) hk, ?_⟩
  intro b' hk'
  obtain ⟨a, ha, rfl⟩ := (hlists.listed b k).mp hk
  obtain ⟨a', ha', rfl⟩ := (hlists.listed b' k).mp hk'
  rw [ha, Option.some.injEq] at ha'
  rw [ha']

/-- Lists that hold every key in one place have no repetition. -/
theorem of_once [DecidableEq κ]
    (hlisted : ∀ b k, k ∈ lists b ↔ ∃ a, table k = some a ∧ attr a = b)
    (honce : ∀ b, ∀ k ∈ lists b, (lists b).count k = 1) : Lists attr table lists where
  listed := hlisted
  nodup := fun b => List.nodup_iff_count_eq_one.mpr (honce b)

variable [DecidableEq κ] [DecidableEq β]

/-- A new key is listed under the attribute of its value. -/
theorem insert (hlists : Lists attr table lists) {k : κ} (hk : table k = none) (a : α) :
    Lists attr (Function.update table k (some a))
      (Function.update lists (attr a) (lists (attr a) ++ [k])) where
  listed := by
    intro b k'
    by_cases hkey : k' = k
    · subst hkey
      have hnew := hlists.not_mem_of_eq_none hk
      rw [Function.update_self, Function.update_apply]
      by_cases hb : b = attr a
      · simp [hb]
      · rw [if_neg hb]
        constructor
        · intro hmem
          exact absurd hmem (hnew b)
        · rintro ⟨a', ha', hattr⟩
          cases ha'
          exact absurd hattr.symm hb
    · rw [Function.update_of_ne hkey, ← hlists.listed, Function.update_apply]
      by_cases hb : b = attr a
      · simp [hb, hkey]
      · rw [if_neg hb]
  nodup := by
    intro b
    rw [Function.update_apply]
    split
    · rw [← List.concat_eq_append]
      exact (hlists.nodup _).concat (hlists.not_mem_of_eq_none hk _)
    · exact hlists.nodup b

/-- Keys of one attribute are removed from the table and from their list. -/
theorem remove (hlists : Lists attr table lists) {table' : κ → Option α} {b : β} {ks : List κ}
    (hks : ∀ k ∈ ks, k ∈ lists b)
    (htable : ∀ k, table' k = if k ∈ ks then none else table k) :
    Lists attr table' (Function.update lists b ((lists b).filter fun k => k ∉ ks)) where
  listed := by
    intro b' k
    rw [htable, Function.update_apply]
    by_cases hk : k ∈ ks
    · have hnone : ¬∃ a, none = some a ∧ attr a = b' := by simp
      rw [if_pos hk]
      refine iff_of_false ?_ hnone
      split
      · simp [hk]
      · rename_i hb
        intro hmem
        exact hb ((hlists.once (hks k hk)).2 b' hmem)
    · rw [if_neg hk, ← hlists.listed]
      by_cases hb : b' = b
      · simp [hb, hk]
      · rw [if_neg hb]
  nodup := by
    intro b'
    rw [Function.update_apply]
    split
    · exact (hlists.nodup b).filter _
    · exact hlists.nodup b'

end Lists

end Library
