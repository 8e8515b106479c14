import Mathlib.Data.List.TakeWhile
import SimCme.Instruments.InstrumentIndexes

/-!
# The definitions of a loaded configuration

The thread that replays the definitions builds one for every instrument of the manager.
Nothing there catches what {lit}`std::stoi` throws at a maturity, and the validation of a
configuration does not look at maturities.

Main results:

- Theorem {lit}`InstrumentDefBuilder.stoi_nonneg_iff`: which short texts are read as a number
  that is not negative.
- Theorem {lit}`InstrumentDefBuilder.publishes_iff`: a definition says what its instrument is
  exactly when the maturity can be read.
- Theorem {lit}`InstrumentIndexes.published_iff`: the instruments of an accepted configuration
  are all published exactly when their maturities can be read.
-/

namespace SimCme

open Library

namespace InstrumentDefBuilder

/-! ## Numbers in short texts -/

/-- The number that digits spell behind a number. -/
def spell (n : Int) (digits : List UInt8) : Int :=
  digits.foldl (fun n c => 10 * n + (c.toNat - 48 : Nat)) n

/-- The digits {lit}`std::stoi` reads. -/
def leadingDigits (text : List UInt8) : List UInt8 :=
  let text := text.dropWhile isSpace
  let unsigned := if text.head? = some 45 ∨ text.head? = some 43 then text.tail else text
  unsigned.takeWhile isDigit

/-- The text has a minus sign in front of the digits. -/
def HasMinus (text : List UInt8) : Prop :=
  (text.dropWhile isSpace).head? = some 45

instance (text : List UInt8) : Decidable (HasMinus text) :=
  inferInstanceAs (Decidable (_ = _))

/-- The text starts with a number that is not negative: behind a minus sign stand only
zeros. -/
def StartsWithCount (text : List UInt8) : Prop :=
  leadingDigits text ≠ [] ∧ (HasMinus text → ∀ d ∈ leadingDigits text, d = 48)

instance (text : List UInt8) : Decidable (StartsWithCount text) :=
  inferInstanceAs (Decidable (_ ∧ _))

theorem spell_bounds {digits : List UInt8} (hdigits : ∀ d ∈ digits, isDigit d) {n : Int}
    (hn : 0 ≤ n) : 0 ≤ spell n digits ∧ spell n digits < (n + 1) * 10 ^ digits.length := by
  induction digits generalizing n with
  | nil => exact ⟨hn, by simp [spell]⟩
  | cons d digits ih =>
      rw [List.forall_mem_cons] at hdigits
      obtain ⟨hlow, hhigh⟩ : 48 ≤ d.toNat ∧ d.toNat ≤ 57 := by
        simpa [isDigit, UInt8.le_iff_toNat_le] using hdigits.1
      have hnext : 0 ≤ 10 * n + (d.toNat - 48 : Nat) := by omega
      obtain ⟨hnonneg, hlt⟩ := ih hdigits.2 hnext
      refine ⟨hnonneg, hlt.trans_le ?_⟩
      have hstep : 10 * n + ((d.toNat - 48 : Nat) : Int) + 1 ≤ (n + 1) * 10 := by omega
      rw [List.length_cons, pow_succ', ← mul_assoc]
      exact mul_le_mul_of_nonneg_right hstep (by positivity)

theorem spell_eq_zero_iff {digits : List UInt8} (hdigits : ∀ d ∈ digits, isDigit d) {n : Int}
    (hn : 0 ≤ n) : spell n digits = 0 ↔ n = 0 ∧ ∀ d ∈ digits, d = 48 := by
  induction digits generalizing n with
  | nil => simp [spell]
  | cons d digits ih =>
      rw [List.forall_mem_cons] at hdigits
      have hlow : 48 ≤ d.toNat := by
        have hdigit := hdigits.1
        simp only [isDigit, UInt8.le_iff_toNat_le, Bool.and_eq_true, decide_eq_true_eq] at hdigit
        exact hdigit.1
      have hzero : d = 48 ↔ d.toNat = 48 := UInt8.toNat_inj.symm
      have hrest := ih hdigits.2 (n := 10 * n + (d.toNat - 48 : Nat)) (by omega)
      rw [List.forall_mem_cons, hzero]
      refine hrest.trans ?_
      constructor
      · rintro ⟨hn', htail⟩
        exact ⟨by omega, by omega, htail⟩
      · rintro ⟨hn', hd, htail⟩
        exact ⟨by omega, htail⟩

theorem isDigit_of_mem_leadingDigits (text : List UInt8) :
    ∀ d ∈ leadingDigits text, isDigit d :=
  fun _ hd => List.mem_takeWhile_imp hd

theorem length_leadingDigits_le (text : List UInt8) :
    (leadingDigits text).length ≤ text.length := by
  have hspaces := (List.dropWhile_sublist isSpace (l := text)).length_le
  refine le_trans (List.takeWhile_sublist isDigit).length_le (le_trans ?_ hspaces)
  split
  · rw [List.length_tail]
    omega
  · exact le_rfl

theorem stoi_eq (text : List UInt8) :
    stoi text =
      let value := if HasMinus text then -spell 0 (leadingDigits text)
        else spell 0 (leadingDigits text)
      if leadingDigits text = [] ∨ value < -2 ^ 31 ∨ 2 ^ 31 ≤ value then none
      else some value :=
  rfl

/-- A text too short for the range to matter is read whenever it starts with a number. -/
theorem stoi_of_short {text : List UInt8} (hshort : text.length ≤ 9) :
    stoi text =
      if leadingDigits text = [] then none
      else some (if HasMinus text then -spell 0 (leadingDigits text)
        else spell 0 (leadingDigits text)) := by
  obtain ⟨hnonneg, hlt⟩ := spell_bounds (isDigit_of_mem_leadingDigits text) le_rfl
  have hpow : (10 : Int) ^ (leadingDigits text).length ≤ 10 ^ 9 :=
    pow_le_pow_right₀ (by decide) ((length_leadingDigits_le text).trans hshort)
  rw [stoi_eq]
  by_cases hempty : leadingDigits text = []
  · simp [hempty]
  · by_cases hminus : HasMinus text
    · rw [if_neg hempty, if_pos hminus, if_neg]
      rintro (h | h | h)
      · exact hempty h
      all_goals omega
    · rw [if_neg hempty, if_neg hminus, if_neg]
      rintro (h | h | h)
      · exact hempty h
      all_goals omega

/-- Which short texts are read as a number that is not negative. -/
theorem stoi_nonneg_iff {text : List UInt8} (hshort : text.length ≤ 9) :
    (∃ n, stoi text = some n ∧ 0 ≤ n) ↔ StartsWithCount text := by
  have hdigits := isDigit_of_mem_leadingDigits text
  obtain ⟨hnonneg, -⟩ := spell_bounds hdigits le_rfl
  have hzero := spell_eq_zero_iff hdigits le_rfl
  rw [stoi_of_short hshort, StartsWithCount]
  by_cases hempty : leadingDigits text = []
  · simp [hempty]
  · by_cases hminus : HasMinus text
    · have hread : (∃ n, some (-spell 0 (leadingDigits text)) = some n ∧ 0 ≤ n) ↔
          spell 0 (leadingDigits text) = 0 := by
        constructor
        · rintro ⟨n, hn, hpos⟩
          rw [Option.some.injEq] at hn
          omega
        · intro hspell
          exact ⟨_, rfl, by omega⟩
      rw [if_neg hempty, if_pos hminus, hread, hzero]
      simp [hempty, hminus]
    · simp [hempty, hminus, hnonneg]

/-- A number read from a short text has no more digits than the text. -/
theorem stoi_lt {text : List UInt8} (hshort : text.length ≤ 9) {n : Int}
    (hn : stoi text = some n) : n < 10 ^ text.length := by
  obtain ⟨hnonneg, hlt⟩ := spell_bounds (isDigit_of_mem_leadingDigits text) le_rfl
  have hpow : (10 : Int) ^ (leadingDigits text).length ≤ 10 ^ text.length :=
    pow_le_pow_right₀ (by decide) (length_leadingDigits_le text)
  rw [stoi_of_short hshort] at hn
  split at hn
  · contradiction
  · rw [Option.some.injEq] at hn
    have hpos : (0 : Int) < 10 ^ text.length := by positivity
    split at hn <;> omega

/-! ## Definitions -/

/-- The year and the month of a maturity.  A text with fewer than six characters has
neither. -/
def IsMaturity (text : List UInt8) (year month : Int) : Prop :=
  if text.length < 6 then year = 0 ∧ month = 0
  else stoi (text.take 4) = some year ∧ stoi ((text.drop 4).take 2) = some month

/-- The text is no maturity, or its year and its month both start with a number. -/
def MaturityReadable (text : List UInt8) : Prop :=
  6 ≤ text.length → StartsWithCount (text.take 4) ∧ StartsWithCount ((text.drop 4).take 2)

instance (text : List UInt8) : Decidable (MaturityReadable text) :=
  inferInstanceAs (Decidable (_ → _))

/-- A text cut to a length, with zeros behind it. -/
def cutTo (length : Nat) (text : List UInt8) : List UInt8 :=
  text.take length ++ List.replicate (length - text.length) 0

/-- What a decoded definition says of its instrument. -/
structure Describes (msg : MDInstrumentDefinitionFuture54) (inst : DefinedInstrument) : Prop where
  securityID : msg.securityID.toInt = inst.securityId
  minTradeVol : (msg.minTradeVol.toNat : Int) = inst.minTradeVol
  maxTradeVol : (msg.maxTradeVol.toNat : Int) = inst.maxTradeVol
  symbol : msg.symbol.toList = cutTo 20 inst.symbol
  securityGroup : msg.securityGroup.toList = cutTo 6 inst.securityGroup
  maturity : IsMaturity inst.maturityMonthYear (leNat (msg.maturityMonthYear.toList.take 2))
    msg.maturityMonthYear[2].toNat

/-- A definition is built without a throw, and its decoding describes the instrument. -/
def Publishes (inst : DefinedInstrument) (totNumReports : UInt32) : Prop :=
  ∃ bytes msg, buildDefinition inst totNumReports = some bytes ∧
    MDInstrumentDefinitionFuture54.format.decode {} bytes 0 = some msg ∧ Describes msg inst

theorem toList_copyStr (dstLen : Nat) (src : List UInt8) :
    (copyStr dstLen src).toList = cutTo dstLen src := by
  apply List.ext_getElem
  · simp only [cutTo, Vector.length_toList, List.length_append, List.length_take,
      List.length_replicate]
    omega
  · intro i hi hi'
    have hlt : i < dstLen := by simpa using hi
    simp only [copyStr, cutTo, Vector.getElem_toList, Vector.getElem_ofFn, List.getD_eq_getElem?_getD,
      List.getElem_append, List.getElem_take, List.getElem_replicate, List.length_take]
    by_cases hsrc : i < src.length
    · rw [dif_pos (by omega), List.getElem?_eq_getElem hsrc, Option.getD_some]
    · rw [dif_neg (by omega), List.getElem?_eq_none (by omega), Option.getD_none]

/-- A definition is decoded as it was built. -/
theorem publishes_iff_exists (inst : DefinedInstrument) (totNumReports : UInt32) :
    Publishes inst totNumReports ↔
      ∃ msg, definition inst totNumReports = some msg ∧ Describes msg inst := by
  have hdecode : ∀ msg, MDInstrumentDefinitionFuture54.format.decode {}
      (MDInstrumentDefinitionFuture54.format.toBytes msg) 0 = some msg := by
    intro msg
    have happend := MDInstrumentDefinitionFuture54.format.decode_append msg {}
      (by simp [MDInstrumentDefinitionFuture54.format]) [] []
    simpa using happend
  unfold Publishes buildDefinition
  constructor
  · rintro ⟨bytes, msg, hbytes, hmsg, hdescribes⟩
    obtain ⟨record, hrecord, rfl⟩ := Option.map_eq_some_iff.mp hbytes
    rw [hdecode, Option.some.injEq] at hmsg
    subst hmsg
    exact ⟨record, hrecord, hdescribes⟩
  · rintro ⟨msg, hmsg, hdescribes⟩
    exact ⟨_, msg, by rw [hmsg, Option.map_some], hdecode msg, hdescribes⟩

/-- A volume that is not negative stays itself in an unsigned field. -/
theorem toNat_ofInt_of_inRange {n : Int} (hn : 0 ≤ n) (hrange : InRange n) :
    ((Int32.ofInt n).toUInt32.toNat : Int) = n := by
  have hle := hrange.2
  simp only [Int32.ofInt]
  simp
  omega

/-- The field of a maturity holds its year and its month. -/
theorem leNat_maturityField {year month : Int} (hyear : 0 ≤ year ∧ year < 2 ^ 16)
    (hmonth : 0 ≤ month ∧ month < 2 ^ 8) :
    let field : FixedString 5 := copyStr 5 (leBytes 2 (Int16.ofInt year).toUInt16.toNat ++
      [(Int8.ofInt month).toUInt8, 0, 0])
    (leNat (field.toList.take 2) : Int) = year ∧ (field[2].toNat : Int) = month := by
  intro field
  have hyear16 : ((Int16.ofInt year).toUInt16.toNat : Int) = year := by
    simp only [Int16.ofInt]
    simp
    omega
  have hmonth8 : ((Int8.ofInt month).toUInt8.toNat : Int) = month := by
    simp only [Int8.ofInt]
    simp
    omega
  have hlist : field.toList = leBytes 2 (Int16.ofInt year).toUInt16.toNat ++
      [(Int8.ofInt month).toUInt8, 0, 0] := by
    rw [toList_copyStr, cutTo, List.take_of_length_le (by simp)]
    simp
  constructor
  · have htake : field.toList.take 2 = leBytes 2 (Int16.ofInt year).toUInt16.toNat := by
      rw [hlist, List.take_append_of_le_length (by simp), List.take_of_length_le (by simp)]
    rw [htake, leNat_leBytes (by have := (Int16.ofInt year).toUInt16.toNat_lt; omega)]
    exact hyear16
  · have hget : field[2] = (Int8.ofInt month).toUInt8 := by
      rw [← Vector.getElem_toList (by simp)]
      simp [hlist, leBytes]
    rw [hget]
    exact hmonth8

/-- The maturity a definition carries is the one of the text exactly when both numbers of
the text can be read. -/
theorem maturity_iff (text : List UInt8) :
    (∃ field, maturity text = some field ∧
      IsMaturity text (leNat (field.toList.take 2)) field[2].toNat) ↔ MaturityReadable text := by
  unfold maturity IsMaturity MaturityReadable
  by_cases hlong : 6 ≤ text.length
  · have hfour : (text.take 4).length ≤ 4 := List.length_take_le _ _
    have htwo : ((text.drop 4).take 2).length ≤ 2 := List.length_take_le _ _
    simp only [if_neg (Nat.not_lt.mpr hlong), hlong, if_true, forall_const,
      ← stoi_nonneg_iff (hfour.trans (by decide)), ← stoi_nonneg_iff (htwo.trans (by decide))]
    constructor
    · rintro ⟨field, -, hyear, hmonth⟩
      exact ⟨⟨_, hyear, Int.natCast_nonneg _⟩, ⟨_, hmonth, Int.natCast_nonneg _⟩⟩
    · rintro ⟨⟨year, hyear, hyear0⟩, ⟨month, hmonth, hmonth0⟩⟩
      have hyear_lt := stoi_lt (hfour.trans (by decide)) hyear
      have hmonth_lt := stoi_lt (htwo.trans (by decide)) hmonth
      have hyear_pow : (10 : Int) ^ (text.take 4).length ≤ 10 ^ 4 :=
        pow_le_pow_right₀ (by decide) hfour
      have hmonth_pow : (10 : Int) ^ ((text.drop 4).take 2).length ≤ 10 ^ 2 :=
        pow_le_pow_right₀ (by decide) htwo
      have hyear_bounds : 0 ≤ year ∧ year < 2 ^ 16 := by omega
      have hmonth_bounds : 0 ≤ month ∧ month < 2 ^ 8 := by omega
      obtain ⟨hy, hm⟩ := leNat_maturityField hyear_bounds hmonth_bounds
      refine ⟨_, by rw [hyear, hmonth]; rfl, ?_, ?_⟩
      · rw [hyear, hy]
      · rw [hmonth, hm]
  · simp only [if_pos (Nat.not_le.mp hlong), hlong, if_false, false_implies, iff_true]
    exact ⟨_, rfl, rfl, rfl⟩

/-- A definition says what its instrument is exactly when the maturity can be read. -/
theorem publishes_iff {inst : DefinedInstrument} (totNumReports : UInt32)
    (hid : InRange inst.securityId) (hmin : InRange inst.minTradeVol)
    (hmax : InRange inst.maxTradeVol)
    (hvolumes : 0 < inst.minTradeVol ∧ inst.minTradeVol ≤ inst.maxTradeVol) :
    Publishes inst totNumReports ↔ MaturityReadable inst.maturityMonthYear := by
  rw [publishes_iff_exists, ← maturity_iff]
  unfold definition
  constructor
  · rintro ⟨msg, hmsg, hdescribes⟩
    obtain ⟨field, hfield, rfl⟩ := Option.map_eq_some_iff.mp hmsg
    exact ⟨field, hfield, hdescribes.maturity⟩
  · rintro ⟨field, hfield, hmaturity⟩
    refine ⟨_, by rw [hfield, Option.map_some], ?_⟩
    exact
      { securityID := Int32.toInt_ofInt_of_le hid.1 (Int.lt_of_le_sub_one hid.2)
        minTradeVol := toNat_ofInt_of_inRange hvolumes.1.le hmin
        maxTradeVol := toNat_ofInt_of_inRange (hvolumes.1.le.trans hvolumes.2) hmax
        symbol := toList_copyStr 20 inst.symbol
        securityGroup := toList_copyStr 6 inst.securityGroup
        maturity := hmaturity }

end InstrumentDefBuilder

/-! ## The instruments of a configuration -/

/-- The numbers of an instrument fit their types. -/
structure InstrumentConfig.Typed (ic : InstrumentConfig) : Prop where
  securityId : InRange ic.securityId
  minTradeVol : InRange ic.minTradeVol
  maxTradeVol : InRange ic.maxTradeVol

namespace InstrumentIndexes

open InstrumentDefBuilder

/-- An instrument of an accepted configuration is published exactly when its maturity can be
read, and so all of them are exactly when all maturities can be. -/
theorem published_iff (casts : FloatCasts) {config : ExchangeConfig}
    (hvalid : validateConfig config = .ok ()) (htyped : ∀ ic ∈ config.instruments, ic.Typed)
    (previous : InstrumentIndexes) :
    (∀ ic ∈ config.instruments, ∀ totNumReports,
      Publishes (ofConfig casts ic) totNumReports ↔
        MaturityReadable (configBytes ic.maturityMonthYear)) ∧
      ((∀ inst ∈ (loadFromConfig casts config.instruments config.channels
          previous).getAllInstruments, ∀ totNumReports, Publishes inst totNumReports) ↔
        ∀ ic ∈ config.instruments, MaturityReadable (configBytes ic.maturityMonthYear)) := by
  have heach : ∀ ic ∈ config.instruments, ∀ totNumReports,
      Publishes (ofConfig casts ic) totNumReports ↔
        MaturityReadable (configBytes ic.maturityMonthYear) := by
    intro ic hic totNumReports
    have hfits := htyped ic hic
    exact publishes_iff totNumReports hfits.securityId hfits.minTradeVol hfits.maxTradeVol
      (ExchangeConfig.volumes_of_validateConfig hvalid ic hic)
  refine ⟨heach, ?_⟩
  rw [getAllInstruments, instruments_loadFromConfig, List.forall_mem_map]
  constructor
  · intro hall ic hic
    exact (heach ic hic 0).mp (hall ic hic 0)
  · intro hall ic hic totNumReports
    exact (heach ic hic totNumReports).mpr (hall ic hic)

/-- A maturity the documented way is published. -/
theorem published_iff_of_march :
    let casts : FloatCasts := { mantissa := fun _ => 1, toInt32 := fun _ => 50 }
    let config : ExchangeConfig :=
      { channels := [{ channelId := 310, symbols := ["ESH5"] }]
        instruments := [{ symbol := "ESH5", securityId := 7, channelId := 310
                          tickSize := .finite (1 / 4), contractMultiplier := .finite 50
                          maturityMonthYear := "202503" }] }
    ∀ inst ∈ (loadFromConfig casts config.instruments config.channels {}).getAllInstruments,
      ∀ totNumReports, Publishes inst totNumReports := by
  intro casts config
  have hvalid : validateConfig config = .ok () := by decide +kernel
  have htyped : ∀ ic ∈ config.instruments, ic.Typed := by
    intro ic hic
    rw [List.mem_singleton] at hic
    subst hic
    exact ⟨by decide, by decide, by decide⟩
  refine (published_iff casts hvalid htyped {}).2.mpr ?_
  decide +kernel

/-- A configuration whose instrument names the month of its maturity by letters is accepted,
and building the definition throws. -/
theorem not_published_of_letters :
    let casts : FloatCasts := { mantissa := fun _ => 1, toInt32 := fun _ => 50 }
    let es : InstrumentConfig :=
      { symbol := "ESH5", securityId := 7, channelId := 310, tickSize := .finite (1 / 4)
        contractMultiplier := .finite 50, maturityMonthYear := "MAR2025" }
    let config : ExchangeConfig :=
      { channels := [{ channelId := 310, symbols := ["ESH5"] }], instruments := [es] }
    validateConfig config = .ok () ∧
      ofConfig casts es ∈
        (loadFromConfig casts config.instruments config.channels {}).getAllInstruments ∧
      buildDefinition (ofConfig casts es) 1 = none ∧ ¬Publishes (ofConfig casts es) 1 := by
  intro casts es config
  have hnone : buildDefinition (ofConfig casts es) 1 = none := by decide +kernel
  refine ⟨by decide +kernel, List.mem_cons_self, hnone, ?_⟩
  rintro ⟨bytes, msg, hbytes, -⟩
  rw [hnone] at hbytes
  contradiction

end InstrumentIndexes

end SimCme
