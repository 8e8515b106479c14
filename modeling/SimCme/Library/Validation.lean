import Mathlib.Data.Finset.Insert
import Mathlib.Data.List.Nodup

/-!
# Checks that throw

A validation is a chain of checks each of which may throw.  A loop over a list may keep
the keys it has seen and throw at one it sees again.

Main results:

- Theorem {lit}`forall_mem_of_foldlM_eq_ok`: what every passed turn of a loop shows of its
  element holds of all elements.
- Theorem {lit}`fresh_of_foldlM_eq_ok`: the keys of a loop that throws at a repeated key are
  different, and the loop ends with all of them seen.
-/

namespace Library

variable {ε σ α κ : Type}

/-- Throw if the condition holds. -/
def throwIf (bad : Prop) [Decidable bad] (message : ε) : Except ε Unit :=
  if bad then .error message else .ok ()

@[simp]
theorem throwIf_eq_ok_iff {bad : Prop} [Decidable bad] {message : ε} {u : Unit} :
    throwIf bad message = .ok u ↔ ¬bad := by
  unfold throwIf
  split <;> simp_all

/-- A chain passes exactly when its first check passes and its rest does. -/
@[simp]
theorem bind_eq_ok_iff {x : Except ε σ} {f : σ → Except ε α} {a : α} :
    x >>= f = .ok a ↔ ∃ s, x = .ok s ∧ f s = .ok a := by
  cases x with
  | error e => simp [bind, Except.bind]
  | ok s => simp [bind, Except.bind]

/-- What every passed turn of a loop shows of its element holds of all elements. -/
theorem forall_mem_of_foldlM_eq_ok {turn : σ → α → Except ε σ} {P : α → Prop} {l : List α}
    {s s' : σ} (h : l.foldlM turn s = .ok s') (hturn : ∀ s a s', turn s a = .ok s' → P a) :
    ∀ a ∈ l, P a := by
  induction l generalizing s with
  | nil => simp
  | cons a l ih =>
      rw [List.foldlM_cons, bind_eq_ok_iff] at h
      rcases h with ⟨s₁, hfirst, hrest⟩
      rw [List.forall_mem_cons]
      exact ⟨hturn _ _ _ hfirst, ih hrest⟩

/-- The keys of a loop that throws at a repeated key are different from each other and
from the keys seen before, and the loop ends with all of them seen. -/
theorem fresh_of_foldlM_eq_ok [DecidableEq κ] {turn : σ → α → Except ε σ}
    (seen : σ → Finset κ) (key : α → κ) {l : List α} {s s' : σ}
    (h : l.foldlM turn s = .ok s')
    (hturn : ∀ s a s', turn s a = .ok s' →
      key a ∉ seen s ∧ seen s' = insert (key a) (seen s)) :
    (l.map key).Nodup ∧ (∀ a ∈ l, key a ∉ seen s) ∧
      ∀ k, k ∈ seen s' ↔ k ∈ seen s ∨ k ∈ l.map key := by
  induction l generalizing s with
  | nil =>
      rw [List.foldlM_nil] at h
      cases h
      simp
  | cons a l ih =>
      rw [List.foldlM_cons, bind_eq_ok_iff] at h
      rcases h with ⟨s₁, hfirst, hrest⟩
      rcases hturn _ _ _ hfirst with ⟨hfresh, hseen⟩
      rcases ih hrest with ⟨hnodup, hother, hend⟩
      rw [hseen] at hother hend
      refine ⟨?_, ?_, ?_⟩
      · rw [List.map_cons, List.nodup_cons]
        refine ⟨?_, hnodup⟩
        intro hmem
        rcases List.mem_map.mp hmem with ⟨b, hb, hkey⟩
        exact hother b hb (hkey ▸ Finset.mem_insert_self _ _)
      · rw [List.forall_mem_cons]
        exact ⟨hfresh, fun b hb hmem => hother b hb (Finset.mem_insert_of_mem hmem)⟩
      · intro k
        rw [hend, Finset.mem_insert, List.map_cons, List.mem_cons]
        tauto

end Library
