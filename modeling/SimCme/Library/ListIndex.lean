import Mathlib.Data.List.Nodup
import Mathlib.Logic.Function.Basic

/-!
# Indexes of a list

An index files the positions of a list under the keys of its elements.

Main results:

- Theorem {lit}`IsIndex.concat`: filing the position behind the list keeps an index, as long
  as the key of the new element is new.
- Theorem {lit}`IsIndex.lookup_eq_some_iff`: a lookup finds the elements of the list by their
  keys, and nothing else.
- Theorem {lit}`IsIndex.congr`: an index goes by the keys only.
- Theorem {lit}`IsIndex.exists_of_mem_modify`: a change at a filed position changes the
  elements of its key only.
-/

namespace Library

variable {α κ : Type}

/-- Every position is filed under the key of its element, and nothing else is filed. -/
def IsIndex (key : α → κ) (xs : List α) (index : κ → Option Nat) : Prop :=
  ∀ k i, index k = some i ↔ (xs.map key)[i]? = some k

/-- The element at the position filed under a key. -/
def lookup (index : κ → Option Nat) (xs : List α) (k : κ) : Option α :=
  (index k).bind fun i => xs[i]?

namespace IsIndex

variable {key : α → κ} {xs ys : List α} {index : κ → Option Nat}

theorem nil (key : α → κ) : IsIndex key [] fun _ => none := by
  intro k i
  simp

theorem congr (hindex : IsIndex key xs index) (hkeys : ys.map key = xs.map key) :
    IsIndex key ys index := by
  intro k i
  rw [hkeys]
  exact hindex k i

/-- File the position behind the list. -/
theorem concat [DecidableEq κ] (hindex : IsIndex key xs index) {x : α}
    (hfresh : key x ∉ xs.map key) :
    IsIndex key (xs ++ [x]) (Function.update index (key x) (some xs.length)) := by
  intro k i
  rw [Function.update_apply, List.map_append, List.map_singleton]
  by_cases hk : k = key x
  · subst hk
    rw [if_pos rfl, Option.some.injEq]
    rcases Nat.lt_trichotomy i xs.length with hlt | heq | hgt
    · rw [List.getElem?_append_left (by rwa [List.length_map])]
      constructor
      · omega
      · intro hi
        exact absurd (List.mem_of_getElem? hi) hfresh
    · simp [heq]
    · have hlong : (xs.map key ++ [key x]).length ≤ i := by
        simp only [List.length_append, List.length_map, List.length_singleton]
        omega
      rw [List.getElem?_eq_none hlong]
      constructor
      · omega
      · intro hnone
        contradiction
  · rw [if_neg hk, hindex]
    rcases Nat.lt_or_ge i xs.length with hlt | hge
    · rw [List.getElem?_append_left (by rwa [List.length_map])]
    · rw [List.getElem?_append_right (by rwa [List.length_map]),
        List.getElem?_eq_none (by rwa [List.length_map])]
      cases hrest : i - (xs.map key).length with
      | zero => simp [Ne.symm hk]
      | succ n => simp

theorem nodup_keys (hindex : IsIndex key xs index) : (xs.map key).Nodup := by
  rw [List.nodup_iff_getElem?_ne_getElem?]
  intro i j hij hj heq
  have hkey : (xs.map key)[j]? = some (xs.map key)[j] := List.getElem?_eq_getElem hj
  have hfiledi := (hindex _ i).mpr (heq.trans hkey)
  have hfiledj := (hindex _ j).mpr hkey
  rw [hfiledi, Option.some.injEq] at hfiledj
  omega

/-- A lookup finds the elements by their keys. -/
theorem lookup_eq_some_iff (hindex : IsIndex key xs index) {k : κ} {x : α} :
    lookup index xs k = some x ↔ x ∈ xs ∧ key x = k := by
  unfold lookup
  rw [Option.bind_eq_some_iff]
  constructor
  · rintro ⟨i, hi, hx⟩
    have hk := (hindex k i).mp hi
    rw [List.getElem?_map, hx, Option.map_some, Option.some.injEq] at hk
    exact ⟨List.mem_of_getElem? hx, hk⟩
  · rintro ⟨hx, rfl⟩
    obtain ⟨i, hi⟩ := List.mem_iff_getElem?.mp hx
    refine ⟨i, (hindex _ i).mpr ?_, hi⟩
    rw [List.getElem?_map, hi, Option.map_some]

theorem lookup_eq_none_iff (hindex : IsIndex key xs index) {k : κ} :
    lookup index xs k = none ↔ ∀ x ∈ xs, key x ≠ k := by
  rw [Option.eq_none_iff_forall_not_mem]
  simp only [Option.mem_def, hindex.lookup_eq_some_iff, not_and, ne_eq]

/-- A change at the position filed under a key changes the elements of that key only. -/
theorem exists_of_mem_modify [DecidableEq κ] (hindex : IsIndex key xs index) {k : κ} {i : Nat}
    (hi : index k = some i) {f : α → α} {y : α} (hy : y ∈ xs.modify i f) :
    ∃ x ∈ xs, y = if key x = k then f x else x := by
  obtain ⟨j, hj⟩ := List.mem_iff_getElem?.mp hy
  rw [List.getElem?_modify] at hj
  obtain ⟨x, hx, hyx⟩ := Option.map_eq_some_iff.mp hj
  have hkey : index (key x) = some j := by
    rw [hindex, List.getElem?_map, hx, Option.map_some]
  refine ⟨x, List.mem_of_getElem? hx, ?_⟩
  by_cases hk : key x = k
  · rw [hk, hi, Option.some.injEq] at hkey
    rw [if_pos hk, ← hyx, if_pos hkey]
  · have hij : i ≠ j := by
      rintro rfl
      have hfiled := (hindex k i).mp hi
      rw [List.getElem?_map, hx, Option.map_some, Option.some.injEq] at hfiled
      exact hk hfiled
    rw [if_neg hk, ← hyx, if_neg hij]

end IsIndex

/-- What a list shows of its elements through a key goes by the keys only. -/
theorem map_filter_of_map_eq {ν : Type} {key : α → κ} {xs ys : List α}
    (hkeys : ys.map key = xs.map key) (p : κ → Bool) (v : κ → ν) :
    (ys.filter (p ∘ key)).map (v ∘ key) = (xs.filter (p ∘ key)).map (v ∘ key) := by
  rw [← List.map_map, ← List.map_map, ← List.filter_map, ← List.filter_map, hkeys]

/-- A change of one element that keeps its key keeps the keys. -/
theorem map_modify_of_eq {key : α → κ} {f : α → α} (hf : ∀ x, key (f x) = key x) (xs : List α)
    (i : Nat) : (xs.modify i f).map key = xs.map key := by
  apply List.ext_getElem?
  intro j
  rw [List.getElem?_map, List.getElem?_modify, List.getElem?_map]
  by_cases hij : i = j
  · cases xs[j]? <;> simp [hij, hf]
  · cases xs[j]? <;> simp [hij]

end Library
