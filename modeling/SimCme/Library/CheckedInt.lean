import Mathlib.Algebra.Order.Ring.Int

/-!
# Signed arithmetic without wrapping

Operations on 64-bit integers that have a result only when the exact one is a 64-bit
integer, for languages in which an overflow has no meaning.

Main results:

- Theorem {lit}`checked_of_bounds`: a result within the range is the exact one.
- Theorem {lit}`checkedRem_of_pos`: the remainder of a division by a positive number.
-/

namespace Library

/-- The 64-bit integer of that value, if there is one. -/
def checked (x : Int) : Option Int64 :=
  if -2 ^ 63 ≤ x ∧ x < 2 ^ 63 then some (.ofInt x) else none

def checkedAdd (a b : Int64) : Option Int64 :=
  checked (a.toInt + b.toInt)

def checkedSub (a b : Int64) : Option Int64 :=
  checked (a.toInt - b.toInt)

def checkedMul (a b : Int64) : Option Int64 :=
  checked (a.toInt * b.toInt)

/-- Division toward zero. -/
def checkedDiv (a b : Int64) : Option Int64 :=
  if b = 0 then none else checked (a.toInt.tdiv b.toInt)

/-- The remainder of the division toward zero, which must have a result itself. -/
def checkedRem (a b : Int64) : Option Int64 :=
  (checkedDiv a b).bind fun _ => checked (a.toInt.tmod b.toInt)

theorem toInt_bounds (a : Int64) : -2 ^ 63 ≤ a.toInt ∧ a.toInt < 2 ^ 63 :=
  ⟨a.le_toInt, a.toInt_lt⟩

/-- A result within the range is the exact one. -/
theorem checked_of_bounds {x : Int} (hlow : -2 ^ 63 ≤ x) (hhigh : x < 2 ^ 63) :
    ∃ a : Int64, checked x = some a ∧ a.toInt = x :=
  ⟨.ofInt x, if_pos ⟨hlow, hhigh⟩, Int64.toInt_ofInt_of_le hlow hhigh⟩

/-- A division by a positive number has a result. -/
theorem checkedDiv_of_pos {b : Int64} (hb : 0 < b.toInt) (a : Int64) :
    ∃ q, checkedDiv a b = some q ∧ q.toInt = a.toInt.tdiv b.toInt := by
  have hne : b ≠ 0 := by
    rintro rfl
    simp at hb
  have ha := toInt_bounds a
  unfold checkedDiv
  rw [if_neg hne]
  rcases le_total 0 a.toInt with hpos | hneg
  · have hquot := Int.tdiv_eq_ediv_of_nonneg (b := b.toInt) hpos
    have hnonneg := Int.ediv_nonneg hpos hb.le
    have hle := Int.ediv_le_self b.toInt hpos
    exact checked_of_bounds (by omega) (by omega)
  · -- The quotient of a negative number is that of its absolute value, negated.
    have hpos : 0 ≤ -a.toInt := by omega
    have hquot : a.toInt.tdiv b.toInt = -(-a.toInt / b.toInt) := by
      rw [← Int.tdiv_eq_ediv_of_nonneg hpos, Int.neg_tdiv, Int.neg_neg]
    have hnonneg := Int.ediv_nonneg hpos hb.le
    have hle := Int.ediv_le_self b.toInt hpos
    exact checked_of_bounds (by omega) (by omega)

/-- So has the remainder. -/
theorem checkedRem_of_pos {b : Int64} (hb : 0 < b.toInt) (a : Int64) :
    ∃ r, checkedRem a b = some r ∧ r.toInt = a.toInt.tmod b.toInt := by
  obtain ⟨q, hq, -⟩ := checkedDiv_of_pos hb a
  have hlow := Int.lt_tmod_of_pos a.toInt hb
  have hhigh := Int.tmod_lt_of_pos a.toInt hb
  have hbound := toInt_bounds b
  obtain ⟨r, hr, hvalue⟩ := checked_of_bounds (x := a.toInt.tmod b.toInt) (by omega) (by omega)
  refine ⟨r, ?_, hvalue⟩
  rw [checkedRem, hq, Option.bind_some, hr]

end Library
