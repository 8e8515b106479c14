import Mathlib.Data.List.Infix
import Mathlib.Data.List.Nodup

/-!
# Neighbours in a list

The successor of an element of a list without duplicates.  A linked structure that
represents such a list is described by what each element's successor is; the lemmas say
how successors change when the list grows at its end or loses its first element.

Main results:

- Theorem {lit}`Follows.unique`: an element has at most one successor.
- Theorems {lit}`follows_concat_iff` and {lit}`follows_cons_iff`: the successors after an
  append and before a removal.
-/

namespace Library

variable {α : Type} {l : List α} {a b c x : α}

/-- The second element stands right after the first. -/
def Follows (l : List α) (a b : α) : Prop :=
  ∃ pre post, l = pre ++ a :: b :: post

namespace Follows

theorem mem_left (hab : Follows l a b) : a ∈ l := by
  obtain ⟨pre, post, rfl⟩ := hab
  simp

theorem mem_right (hab : Follows l a b) : b ∈ l := by
  obtain ⟨pre, post, rfl⟩ := hab
  simp

end Follows

theorem not_follows_nil : ¬Follows ([] : List α) a b := by
  rintro ⟨pre, post, hsplit⟩
  simp at hsplit

theorem follows_cons_iff :
    Follows (x :: l) a b ↔ (x = a ∧ l.head? = some b) ∨ Follows l a b := by
  constructor
  · rintro ⟨pre, post, hsplit⟩
    cases pre with
    | nil =>
        cases hsplit
        exact Or.inl ⟨rfl, rfl⟩
    | cons y pre =>
        cases hsplit
        exact Or.inr ⟨pre, post, rfl⟩
  · rintro (⟨rfl, hhead⟩ | ⟨pre, post, rfl⟩)
    · obtain ⟨post, rfl⟩ := List.head?_eq_some_iff.mp hhead
      exact ⟨[], post, rfl⟩
    · exact ⟨x :: pre, post, rfl⟩

theorem follows_concat_iff :
    Follows (l ++ [x]) a b ↔ Follows l a b ∨ (l.getLast? = some a ∧ b = x) := by
  induction l with
  | nil =>
      simp only [List.nil_append, List.getLast?_nil, reduceCtorEq, false_and, or_false]
      constructor
      · intro hfollows
        rcases follows_cons_iff.mp hfollows with ⟨-, hhead⟩ | hrest
        · simp at hhead
        · exact hrest
      · exact fun hfollows => (not_follows_nil hfollows).elim
  | cons y l ih =>
      rw [List.cons_append, follows_cons_iff, ih, follows_cons_iff]
      cases l with
      | nil =>
          simp only [List.nil_append, List.head?_cons, Option.some.injEq, List.head?_nil,
            reduceCtorEq, and_false, List.getLast?_nil, false_and, or_false, false_or,
            List.getLast?_singleton, not_follows_nil]
          exact and_congr_right fun _ => eq_comm
      | cons z l => simp [or_assoc]

/-- An element of a list without duplicates has at most one successor. -/
theorem Follows.unique (hl : l.Nodup) (hab : Follows l a b) (hac : Follows l a c) : b = c := by
  induction l with
  | nil => exact (not_follows_nil hab).elim
  | cons x l ih =>
      obtain ⟨hx, hl⟩ := List.nodup_cons.mp hl
      rcases follows_cons_iff.mp hab with ⟨rfl, hb⟩ | hab
      · rcases follows_cons_iff.mp hac with ⟨-, hc⟩ | hac
        · rw [hb] at hc
          exact Option.some.inj hc
        · exact (hx hac.mem_left).elim
      · rcases follows_cons_iff.mp hac with ⟨rfl, -⟩ | hac
        · exact (hx hab.mem_left).elim
        · exact ih hl hab hac

/-- The last element of a list without duplicates has no successor. -/
theorem not_follows_getLast (hl : l.Nodup) (hlast : l.getLast? = some a) : ¬Follows l a b := by
  induction l with
  | nil => exact not_follows_nil
  | cons x l ih =>
      obtain ⟨hx, hl⟩ := List.nodup_cons.mp hl
      intro hab
      rcases follows_cons_iff.mp hab with ⟨rfl, hhead⟩ | hab
      · cases l with
        | nil => simp at hhead
        | cons y l =>
            rw [List.getLast?_cons_cons] at hlast
            exact hx (List.mem_of_getLast? hlast)
      · cases l with
        | nil => exact not_follows_nil hab
        | cons y l =>
            rw [List.getLast?_cons_cons] at hlast
            exact ih hl hlast hab

end Library
