import SimCme.Instruments.InstrumentManager
import SimCme.MarketData.SnapshotBuilder

/-!
# Instrument definitions

The builder turns an instrument into a definition message.  The prices and the
multiplier of an instrument are floating-point numbers that the builder reads as
fixed-point mantissas, so an instrument carries these.  The maturity is read by
{lit}`std::stoi`, which throws on a text without a number.

Main results:

- Theorem {lit}`InstrumentDefBuilder.buildDefinition_ne_nil`: a definition is never
  empty.
-/

namespace SimCme

open Library

/-- The bytes of a text of the source. -/
def textBytes (text : String) : List UInt8 :=
  text.toList.map Char.toUInt8

/-- An instrument with the fields a definition carries. -/
structure DefinedInstrument extends Instrument where
  symbol : List UInt8 := []
  securityGroup : List UInt8 := []
  asset : List UInt8 := []
  contractMultiplier : Int32 := 0
  /-- The multiplier as a mantissa of the price format. -/
  contractMultiplierMantissa : Int64 := 0
  minPriceIncrementAmountMantissa : Int64 := 0
  displayFactorMantissa : Int64 := 0
  maturityMonthYear : List UInt8 := []
  unitOfMeasure : List UInt8 := textBytes "Qty"

/-- The characters {lit}`isspace` accepts. -/
def isSpace (c : UInt8) : Bool :=
  c = 32 || (9 ≤ c && c ≤ 13)

def isDigit (c : UInt8) : Bool :=
  48 ≤ c && c ≤ 57

/-- {lit}`std::stoi`: blanks, a sign, and digits up to the first other character.  It
throws when there is no digit and when the number is no {lit}`int`. -/
def stoi (str : List UInt8) : Option Int :=
  let str := str.dropWhile isSpace
  let negative := str.head? = some 45
  let unsigned := if str.head? = some 45 ∨ str.head? = some 43 then str.tail else str
  let digits := unsigned.takeWhile isDigit
  let magnitude : Int := digits.foldl (fun n c => 10 * n + (c.toNat - 48 : Nat)) 0
  let value := if negative then -magnitude else magnitude
  if digits = [] ∨ value < -2 ^ 31 ∨ 2 ^ 31 ≤ value then none else some value

namespace InstrumentDefBuilder

/-- Copy a string into a field with zeros behind it. -/
def copyStr (dstLen : Nat) (src : List UInt8) : FixedString dstLen :=
  Vector.ofFn fun i => src.getD i 0

/-- Year and month of a maturity, with no day and no week. -/
def maturity (text : List UInt8) : Option (FixedString 5) :=
  if 6 ≤ text.length then do
    let year ← stoi (text.take 4)
    let month ← stoi ((text.drop 4).take 2)
    some (copyStr 5 (leBytes 2 (Int16.ofInt year).toUInt16.toNat ++
      [(Int8.ofInt month).toUInt8, 0, 0]))
  else some (.replicate 5 0)

/-- The message of a definition; there is none when the maturity throws. -/
def definition (inst : DefinedInstrument) (totNumReports : UInt32) :
    Option MDInstrumentDefinitionFuture54 :=
  (maturity inst.maturityMonthYear).map fun maturityMonthYear =>
    { matchEventIndicator := MatchEventIndicator.endOfEvent
      totNumReports := totNumReports
      securityUpdateAction := 'A'.toUInt8
      lastUpdateTime := 0
      mdSecurityTradingStatus := inst.tradingStatus.code
      applID := .ofInt inst.channelId
      marketSegmentID := (Int8.ofInt inst.channelId).toUInt8
      underlyingProduct := 14
      securityExchange := copyStr 4 (textBytes "XCME")
      securityGroup := copyStr 6 inst.securityGroup
      asset := copyStr 6 inst.asset
      symbol := copyStr 20 inst.symbol
      securityID := .ofInt inst.securityId
      securityType := copyStr 6 (textBytes "FUT")
      cfiCode := copyStr 6 (textBytes "FXXXXX")
      maturityMonthYear := maturityMonthYear
      currency := copyStr 3 (textBytes "USD")
      settlCurrency := copyStr 3 (textBytes "USD")
      matchAlgorithm := 'F'.toUInt8
      minTradeVol := (Int32.ofInt inst.minTradeVol).toUInt32
      maxTradeVol := (Int32.ofInt inst.maxTradeVol).toUInt32
      minPriceIncrement := inst.tickMantissa
      displayFactor := inst.displayFactorMantissa
      minPriceIncrementAmount := inst.minPriceIncrementAmountMantissa
      contractMultiplier := inst.contractMultiplier
      originalContractSize := inst.contractMultiplier
      unitOfMeasure := copyStr 30 inst.unitOfMeasure
      unitOfMeasureQty := inst.contractMultiplierMantissa
      tradingReferencePrice := Price.null.mantissa
      highLimitPrice := Price.null.mantissa
      lowLimitPrice := Price.null.mantissa
      maxPriceVariation := Price.null.mantissa
      userDefinedInstrument := 'N'.toUInt8 }

def buildDefinition (inst : DefinedInstrument) (totNumReports : UInt32) : Option (List UInt8) :=
  (definition inst totNumReports).map MDInstrumentDefinitionFuture54.format.toBytes

/-- A definition is never empty. -/
theorem buildDefinition_ne_nil {inst : DefinedInstrument} {totNumReports : UInt32}
    {msg : List UInt8} (hmsg : buildDefinition inst totNumReports = some msg) : msg ≠ [] := by
  rcases Option.map_eq_some_iff.mp hmsg with ⟨record, -, rfl⟩
  intro hnil
  have hlength := MDInstrumentDefinitionFuture54.format.length_toBytes record
  have hpos := MDInstrumentDefinitionFuture54.format.encodedLength_pos record
  rw [hnil] at hlength
  rw [← hlength] at hpos
  exact Nat.lt_irrefl 0 hpos

end InstrumentDefBuilder

end SimCme
