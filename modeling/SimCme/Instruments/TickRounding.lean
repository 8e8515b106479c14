import Mathlib.Algebra.Order.Group.Abs
import Mathlib.Algebra.Order.Group.Unbundled.Int
import SimCme.Instruments.InstrumentManager
import SimCme.Library.CheckedInt
import SimCme.Library.NearestMultiple

/-!
# Ticks

A price is rounded to the nearest tick, and converted from and to a number of ticks.  The
mantissas are signed 64-bit integers, whose overflow has no meaning in the source, so that a
computation that overflows has no result here.

Main results:

- Theorem {lit}`Instrument.roundToTick_eq`: rounding leads to the nearest multiple of the
  tick, and does not overflow.
- Theorem {lit}`Instrument.tick_rounding`: what follows for rounding and for the conversion
  from ticks and back.
-/

namespace SimCme

open Library

namespace Instrument

/-- Round a price to the nearest valid tick. -/
def roundToTick (instr : Instrument) (price : Price) : Option Price :=
  let tm := instr.tickMantissa
  if tm = 0 then some price
  else do
    let remainder ← checkedRem price.mantissa tm
    if remainder = 0 then return price
    let remainder ← (if remainder < 0 then checkedAdd remainder tm else some remainder)
    let half ← checkedDiv tm 2
    if remainder > half then
      let distance ← checkedSub tm remainder
      let mantissa ← checkedAdd price.mantissa distance
      return ⟨mantissa⟩
    else
      let mantissa ← checkedSub price.mantissa remainder
      return ⟨mantissa⟩

def ticksToPrice (instr : Instrument) (ticks : Int64) : Option Price :=
  (checkedMul ticks instr.tickMantissa).map Price.mk

def priceToTicks (instr : Instrument) (price : Price) : Option Int64 :=
  let tm := instr.tickMantissa
  if tm = 0 then some 0 else checkedDiv price.mantissa tm

variable {instr : Instrument} {price : Price}

/-- A price a tick away from the limits of its format. -/
def Roundable (instr : Instrument) (price : Price) : Prop :=
  |price.mantissa.toInt| ≤ 2 ^ 63 - 1 - instr.tickMantissa.toInt

instance (instr : Instrument) (price : Price) : Decidable (instr.Roundable price) :=
  inferInstanceAs (Decidable (|price.mantissa.toInt| ≤ 2 ^ 63 - 1 - instr.tickMantissa.toInt))

theorem tickMantissa_ne_zero (htick : 0 < instr.tickMantissa.toInt) :
    instr.tickMantissa ≠ 0 := by
  intro hzero
  rw [hzero] at htick
  simp at htick

/-- A price is a valid tick exactly when the tick divides it. -/
theorem isValidTick_iff (htick : 0 < instr.tickMantissa.toInt) (price : Price) :
    instr.isValidTick price = true ↔ instr.tickMantissa.toInt ∣ price.mantissa.toInt := by
  unfold isValidTick
  rw [if_neg (tickMantissa_ne_zero htick), beq_iff_eq, ← Int64.toInt_inj, Int64.toInt_mod,
    Int64.toInt_zero]
  exact Int.dvd_iff_tmod_eq_zero.symm

/-- The remainder that rounding goes by: the truncated one, made positive. -/
theorem exists_remainder (htick : 0 < instr.tickMantissa.toInt)
    (hprice : ¬instr.tickMantissa.toInt ∣ price.mantissa.toInt) :
    ∃ r r' : Int64, checkedRem price.mantissa instr.tickMantissa = some r ∧ r ≠ 0 ∧
      (if r < 0 then checkedAdd r instr.tickMantissa else some r) = some r' ∧
      r'.toInt = price.mantissa.toInt % instr.tickMantissa.toInt ∧ 0 < r'.toInt := by
  obtain ⟨r, hr, hvalue⟩ := checkedRem_of_pos htick price.mantissa
  have hcases := Int.tmod_eq_emod (a := price.mantissa.toInt) (b := instr.tickMantissa.toInt)
  have hnonneg := Int.emod_nonneg price.mantissa.toInt htick.ne'
  have hlt := Int.emod_lt_of_pos price.mantissa.toInt htick
  have hrest : price.mantissa.toInt % instr.tickMantissa.toInt ≠ 0 :=
    fun hzero => hprice (Int.dvd_of_emod_eq_zero hzero)
  simp only [hprice, or_false] at hcases
  by_cases hpos : 0 ≤ price.mantissa.toInt
  · rw [if_pos hpos] at hcases
    have hr0 : ¬r < 0 := by
      rw [Int64.lt_iff_toInt_lt, Int64.toInt_zero]
      omega
    refine ⟨r, r, hr, ?_, if_neg hr0, by omega, by omega⟩
    rintro rfl
    rw [Int64.toInt_zero] at hvalue
    omega
  · rw [if_neg hpos] at hcases
    have hr0 : r < 0 := by
      rw [Int64.lt_iff_toInt_lt, Int64.toInt_zero]
      omega
    have hbound := toInt_bounds instr.tickMantissa
    obtain ⟨r', hr', hvalue'⟩ := checked_of_bounds (x := r.toInt + instr.tickMantissa.toInt)
      (by omega) (by omega)
    refine ⟨r, r', hr, ?_, ?_, by omega, by omega⟩
    · rintro rfl
      exact absurd hr0 (by decide)
    · rw [if_pos hr0, checkedAdd, hr']

/-- A valid tick is left as it is. -/
theorem roundToTick_of_dvd (htick : 0 < instr.tickMantissa.toInt)
    (hprice : instr.tickMantissa.toInt ∣ price.mantissa.toInt) :
    instr.roundToTick price = some price := by
  obtain ⟨r, hr, hvalue⟩ := checkedRem_of_pos htick price.mantissa
  have hzero : r = 0 := by
    rw [← Int64.toInt_inj, hvalue, Int64.toInt_zero]
    exact Int.tmod_eq_zero_of_dvd hprice
  simp [roundToTick, tickMantissa_ne_zero htick, hr, hzero]

/-- Another price goes up when more than half a tick remains, and down otherwise. -/
theorem roundToTick_of_not_dvd (htick : 0 < instr.tickMantissa.toInt)
    (hrange : instr.Roundable price)
    (hprice : ¬instr.tickMantissa.toInt ∣ price.mantissa.toInt) :
    ∃ q, instr.roundToTick price = some q ∧
      q.mantissa.toInt = nearestMultiple instr.tickMantissa.toInt price.mantissa.toInt := by
  obtain ⟨r, r', hr, hne, hr', hvalue, hpos⟩ := exists_remainder htick hprice
  obtain ⟨half, hhalf, hhalfValue⟩ := checkedDiv_of_pos (b := 2) (by decide) instr.tickMantissa
  have htwo : (2 : Int64).toInt = 2 := by decide
  rw [htwo, Int.tdiv_eq_ediv_of_nonneg htick.le] at hhalfValue
  have hlt := Int.emod_lt_of_pos price.mantissa.toInt htick
  have hsplit := Int.mul_ediv_add_emod price.mantissa.toInt instr.tickMantissa.toInt
  have hfloor : instr.tickMantissa.toInt ∣ price.mantissa.toInt - r'.toInt := by
    rw [hvalue]
    exact Int.dvd_self_sub_emod
  have hbound := toInt_bounds instr.tickMantissa
  have hlimits := abs_le.mp hrange
  simp only [roundToTick, tickMantissa_ne_zero htick, if_false, hr, hne, hr', hhalf,
    Option.bind_eq_bind, Option.bind_some]
  by_cases hup : half < r'
  · have hup' := Int64.lt_iff_toInt_lt.mp hup
    obtain ⟨distance, hdistance, hdistanceValue⟩ := checked_of_bounds
      (x := instr.tickMantissa.toInt - r'.toInt) (by omega) (by omega)
    obtain ⟨mantissa, hmantissa, hmantissaValue⟩ := checked_of_bounds
      (x := price.mantissa.toInt + distance.toInt) (by omega) (by omega)
    refine ⟨⟨mantissa⟩, ?_, ?_⟩
    · simp [hup, checkedSub, hdistance, checkedAdd, hmantissa]
    · refine (eq_nearestMultiple_iff htick).mpr ⟨?_, ?_, ?_⟩
      · have hceil := Int.dvd_add hfloor (Int.dvd_refl instr.tickMantissa.toInt)
        rw [hmantissaValue, hdistanceValue]
        convert hceil using 1
        omega
      · dsimp only
        omega
      · dsimp only
        omega
  · have hdown := mt Int64.lt_iff_toInt_lt.mpr hup
    obtain ⟨mantissa, hmantissa, hmantissaValue⟩ := checked_of_bounds
      (x := price.mantissa.toInt - r'.toInt) (by omega) (by omega)
    refine ⟨⟨mantissa⟩, ?_, ?_⟩
    · simp [hup, checkedSub, hmantissa]
    · refine (eq_nearestMultiple_iff htick).mpr ⟨?_, ?_, ?_⟩
      · rw [hmantissaValue]
        exact hfloor
      · dsimp only
        omega
      · dsimp only
        omega

/-- Rounding leads to the nearest multiple of the tick. -/
theorem roundToTick_eq (htick : 0 < instr.tickMantissa.toInt) (hrange : instr.Roundable price) :
    ∃ q, instr.roundToTick price = some q ∧
      q.mantissa.toInt = nearestMultiple instr.tickMantissa.toInt price.mantissa.toInt := by
  by_cases hprice : instr.tickMantissa.toInt ∣ price.mantissa.toInt
  · exact ⟨price, roundToTick_of_dvd htick hprice,
      ((nearestMultiple_eq_self_iff htick).mpr hprice).symm⟩
  · exact roundToTick_of_not_dvd htick hrange hprice

/-- A price and what it is rounded to. -/
structure RoundsTo (instr : Instrument) (price q : Price) : Prop where
  multiple : instr.tickMantissa.toInt ∣ q.mantissa.toInt
  isValidTick : instr.isValidTick q = true
  near : 2 * |q.mantissa.toInt - price.mantissa.toInt| ≤ instr.tickMantissa.toInt
  eq_iff : q = price ↔ instr.isValidTick price = true
  /-- Of two ticks equally near, the lower one. -/
  tie : ∀ m, instr.tickMantissa.toInt ∣ m →
    2 * (price.mantissa.toInt - m) = instr.tickMantissa.toInt → q.mantissa.toInt = m
  idempotent : instr.roundToTick q = some q

theorem roundsTo_of_eq {q : Price} (htick : 0 < instr.tickMantissa.toInt)
    (hq : q.mantissa.toInt = nearestMultiple instr.tickMantissa.toInt price.mantissa.toInt) :
    instr.RoundsTo price q := by
  have hbounds := nearestMultiple_bounds htick price.mantissa.toInt
  have hdvd := dvd_nearestMultiple instr.tickMantissa.toInt price.mantissa.toInt
  rw [← hq] at hbounds hdvd
  refine ⟨hdvd, (isValidTick_iff htick q).mpr hdvd, ?_, ?_, ?_, roundToTick_of_dvd htick hdvd⟩
  · have habs : |q.mantissa.toInt - price.mantissa.toInt| * 2 ≤ instr.tickMantissa.toInt := by
      rcases abs_cases (q.mantissa.toInt - price.mantissa.toInt) with ⟨heq, -⟩ | ⟨heq, -⟩ <;> omega
    omega
  · rw [isValidTick_iff htick, ← nearestMultiple_eq_self_iff htick, ← hq]
    constructor
    · rintro rfl
      rfl
    · exact fun hself => Price.toInt_injective hself
  · intro m hm htie
    rw [hq]
    exact ((eq_nearestMultiple_iff htick).mpr ⟨hm, by omega, by omega⟩).symm

/-- A number of ticks is read back from its price. -/
theorem priceToTicks_ticksToPrice (htick : 0 < instr.tickMantissa.toInt) {n : Int64}
    (hn : |n.toInt * instr.tickMantissa.toInt| ≤ 2 ^ 63 - 1) :
    ∃ price, instr.ticksToPrice n = some price ∧ instr.priceToTicks price = some n := by
  have hlimits := abs_le.mp hn
  obtain ⟨mantissa, hmantissa, hvalue⟩ := checked_of_bounds
    (x := n.toInt * instr.tickMantissa.toInt) (by omega) (by omega)
  obtain ⟨q, hq, hquotient⟩ := checkedDiv_of_pos htick mantissa
  refine ⟨⟨mantissa⟩, ?_, ?_⟩
  · rw [ticksToPrice, checkedMul, hmantissa, Option.map_some]
  · have hback : q = n := by
      rw [← Int64.toInt_inj, hquotient, hvalue]
      exact Int.mul_tdiv_cancel _ htick.ne'
    simp only [priceToTicks, tickMantissa_ne_zero htick, if_false, hq, hback]

/-- For a positive tick, rounding a price away from the limits of its format does not
overflow, leads to the nearest tick and keeps the order of prices, and numbers of ticks
survive the conversion to a price and back. -/
theorem tick_rounding (instr : Instrument) (htick : 0 < instr.tickMantissa.toInt) :
    (∀ price, instr.Roundable price →
      ∃ q, instr.roundToTick price = some q ∧ instr.RoundsTo price q) ∧
    (∀ price price' q q', instr.Roundable price → instr.Roundable price' → price ≤ price' →
      instr.roundToTick price = some q → instr.roundToTick price' = some q' → q ≤ q') ∧
    ∀ n : Int64, |n.toInt * instr.tickMantissa.toInt| ≤ 2 ^ 63 - 1 →
      ∃ price, instr.ticksToPrice n = some price ∧ instr.priceToTicks price = some n := by
  refine ⟨?_, ?_, fun n hn => priceToTicks_ticksToPrice htick hn⟩
  · intro price hrange
    obtain ⟨q, hround, hq⟩ := roundToTick_eq htick hrange
    exact ⟨q, hround, roundsTo_of_eq htick hq⟩
  · intro price price' q q' hrange hrange' hle hround hround'
    obtain ⟨p, hp, hvalue⟩ := roundToTick_eq htick hrange
    obtain ⟨p', hp', hvalue'⟩ := roundToTick_eq htick hrange'
    obtain rfl := Option.some.inj (hp.symm.trans hround)
    obtain rfl := Option.some.inj (hp'.symm.trans hround')
    have hmono : p.mantissa.toInt ≤ p'.mantissa.toInt := by
      rw [hvalue, hvalue']
      exact nearestMultiple_mono htick hle
    exact hmono

/-- With a tick of a quarter, a negative price halfway between two ticks goes down. -/
theorem tick_rounding_of_negative_tie :
    let instr : Instrument := { securityId := 1, tickMantissa := 250000000 }
    instr.roundToTick ⟨-4125000000⟩ = some ⟨-4250000000⟩ ∧
      instr.RoundsTo ⟨-4125000000⟩ ⟨-4250000000⟩ := by
  intro instr
  have hround : instr.roundToTick ⟨-4125000000⟩ = some ⟨-4250000000⟩ := by decide
  obtain ⟨q, hq, hrounds⟩ := (tick_rounding instr (by decide)).1 ⟨-4125000000⟩ (by decide)
  obtain rfl := Option.some.inj (hq.symm.trans hround)
  exact ⟨hround, hrounds⟩

end Instrument

end SimCme
