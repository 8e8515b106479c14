import Mathlib.Algebra.Order.Ring.Int
import Mathlib.Tactic.Ring

/-!
# Nearest multiples

The multiple of a positive step nearest to an integer, the lower one of two equally near.

Main results:

- Theorem {lit}`eq_nearestMultiple_iff`: it is the only multiple less than half a step above
  and at most half a step below.
- Theorem {lit}`nearestMultiple_mono`: it is monotone.
- Theorem {lit}`nearestMultiple_eq_self_iff`: it is the integer itself exactly for a multiple.
-/

namespace Library

/-- The nearest multiple of a step, the lower one on a tie. -/
def nearestMultiple (step x : Int) : Int :=
  step * ((2 * x + step - 1) / (2 * step))

variable {step : Int}

theorem dvd_nearestMultiple (step x : Int) : step ∣ nearestMultiple step x :=
  Dvd.intro _ rfl

theorem nearestMultiple_bounds (hstep : 0 < step) (x : Int) :
    2 * (x - nearestMultiple step x) ≤ step ∧ 2 * (nearestMultiple step x - x) < step := by
  have hsplit := Int.mul_ediv_add_emod (2 * x + step - 1) (2 * step)
  have hnonneg := Int.emod_nonneg (2 * x + step - 1) (by omega : 2 * step ≠ 0)
  have hlt := Int.emod_lt_of_pos (2 * x + step - 1) (by omega : 0 < 2 * step)
  have htwice : 2 * step * ((2 * x + step - 1) / (2 * step)) = 2 * nearestMultiple step x := by
    unfold nearestMultiple
    ring
  rw [htwice] at hsplit
  omega

/-- Two multiples less than a step apart are equal. -/
theorem eq_of_dvd_of_lt {m m' : Int} (hm : step ∣ m) (hm' : step ∣ m') (hlt : m - m' < step)
    (hlt' : m' - m < step) : m = m' := by
  have hdvd : step ∣ m - m' := Int.dvd_sub hm hm'
  have hzero : m - m' = 0 := Int.eq_zero_of_abs_lt_dvd hdvd (abs_lt.mpr ⟨by omega, hlt⟩)
  omega

/-- The nearest multiple is the only one that near. -/
theorem eq_nearestMultiple_iff (hstep : 0 < step) {x m : Int} :
    m = nearestMultiple step x ↔ step ∣ m ∧ 2 * (x - m) ≤ step ∧ 2 * (m - x) < step := by
  have hbounds := nearestMultiple_bounds hstep x
  constructor
  · rintro rfl
    exact ⟨dvd_nearestMultiple step x, hbounds⟩
  · rintro ⟨hdvd, hbelow, habove⟩
    exact eq_of_dvd_of_lt hdvd (dvd_nearestMultiple step x) (by omega) (by omega)

/-- The nearest multiple grows with the integer. -/
theorem nearestMultiple_mono (hstep : 0 < step) {x y : Int} (hxy : x ≤ y) :
    nearestMultiple step x ≤ nearestMultiple step y := by
  unfold nearestMultiple
  apply Int.mul_le_mul_of_nonneg_left _ hstep.le
  exact Int.ediv_le_ediv (by omega) (by omega)

/-- A multiple is nearest to itself. -/
theorem nearestMultiple_eq_self_iff (hstep : 0 < step) {x : Int} :
    nearestMultiple step x = x ↔ step ∣ x := by
  constructor
  · intro hself
    rw [← hself]
    exact dvd_nearestMultiple step x
  · intro hdvd
    exact ((eq_nearestMultiple_iff hstep).mpr ⟨hdvd, by omega, by omega⟩).symm

end Library
