import Mathlib.Data.Nat.Notation
import Mathlib.Tactic.Basic

/-!
# A heap of cells

Objects that a program shares through pointers live in the cells of a heap.  A
reference is a cell's address; allocation hands out addresses that were never
used before, so a reference held anywhere keeps naming the same object.

Main results:

- Theorems {lit}`Heap.read_write_self` and {lit}`Heap.read_write_of_ne`: a write
  is seen through its own reference and through no other.
- Theorem {lit}`Heap.ext_read`: a heap is determined by its reads and its
  allocation frontier.
-/

namespace Library

/-- The address of a heap cell. -/
abbrev Ref := Nat

/-- Cells of type {lit}`α`; the addresses below {lit}`next` are allocated. -/
structure Heap (α : Type) where
  cells : Ref → α
  next : Ref

namespace Heap

variable {α : Type}

/-- The heap without an allocated cell. -/
def empty [Inhabited α] : Heap α where
  cells := fun _ => default
  next := 0

/-- The object a reference points to. -/
def read (h : Heap α) (r : Ref) : α :=
  h.cells r

/-- Overwrite the object a reference points to. -/
def write (h : Heap α) (r : Ref) (a : α) : Heap α where
  cells := fun r' => if r' = r then a else h.cells r'
  next := h.next

/-- Update the object a reference points to in place. -/
def modify (h : Heap α) (r : Ref) (f : α → α) : Heap α :=
  h.write r (f (h.read r))

/-- Allocate a cell holding {lit}`a`; its address is the old frontier. -/
def alloc (h : Heap α) (a : α) : Heap α where
  cells := fun r' => if r' = h.next then a else h.cells r'
  next := h.next + 1

@[simp]
theorem read_write_self (h : Heap α) (r : Ref) (a : α) :
    (h.write r a).read r = a := by
  simp [read, write]

@[simp]
theorem read_write_of_ne (h : Heap α) {r r' : Ref} (a : α) (hne : r' ≠ r) :
    (h.write r a).read r' = h.read r' := by
  simp [read, write, hne]

@[simp]
theorem read_modify_self (h : Heap α) (r : Ref) (f : α → α) :
    (h.modify r f).read r = f (h.read r) := by
  simp [modify]

@[simp]
theorem read_modify_of_ne (h : Heap α) {r r' : Ref} (f : α → α) (hne : r' ≠ r) :
    (h.modify r f).read r' = h.read r' := by
  simp [modify, hne]

/-- What an update of an object preserves, it preserves of every object. -/
theorem read_modify_field {β : Type} (field : α → β) {f : α → α}
    (hfield : ∀ a, field (f a) = field a) (h : Heap α) (r r' : Ref) :
    field ((h.modify r f).read r') = field (h.read r') := by
  by_cases hne : r' = r
  · rw [hne, read_modify_self, hfield]
  · rw [read_modify_of_ne h f hne]

@[simp]
theorem read_alloc_next (h : Heap α) (a : α) : (h.alloc a).read h.next = a := by
  simp [read, alloc]

@[simp]
theorem read_alloc_of_ne (h : Heap α) (a : α) {r : Ref} (hne : r ≠ h.next) :
    (h.alloc a).read r = h.read r := by
  simp [read, alloc, hne]

/-- A heap is determined by its reads and its allocation frontier. -/
theorem ext_read {h h' : Heap α} (hread : ∀ r, h.read r = h'.read r)
    (hnext : h.next = h'.next) : h = h' := by
  cases h with
  | mk cells next =>
      cases h' with
      | mk cells' next' =>
          have hcells : cells = cells' := funext hread
          subst hcells
          subst hnext
          rfl

end Heap
end Library
