import SimCme.Sbe.ILink3Messages
import SimCme.Sbe.RepeatingGroup

/-!
# Market-data messages

The messages of the market-data schema and their layouts, and the walk of a receiver
over the messages of a payload: it decodes a message, goes on behind it, and stops at
the end of the payload.

Main results:

- Theorem {lit}`mdp3_roundTrips`: every codec of the schema is exact, also for messages
  encoded back to back.
- Theorem {lit}`Mdp3Message.walk_toBytes`: messages whose entries are counted by bytes
  are decoded one after the other, up to the end of the payload.
- Theorem {lit}`Mdp3Message.counted_of_walk`: no message of a walk has more entries in a
  group than a byte counts.
-/

open Library

namespace SimCme

/-! ## Channel and trading status -/

structure ChannelReset4.Entry where
  applID : Int16 := 0
deriving DecidableEq, Repr

structure ChannelReset4 where
  transactTime : UInt64 := 0
  matchEventIndicator : UInt8 := 0
  entries : List ChannelReset4.Entry := []
deriving DecidableEq, Repr

namespace ChannelReset4

def Entry.layout : Layout Entry where
  fields :=
    [ field 0 .int16 (·.applID) fun m v => { m with applID := v } ]
  size := 2
  tile := by decide
  restores := fun m _ => by cases m; rfl
  onto := fun _ => ⟨.mk .., rfl⟩

/-- The group of the applications that are reset. -/
def entriesGroup : Group ChannelReset4 where
  Entry := Entry
  blank := {}
  layout := Entry.layout
  size_lt := by decide
  get := entries
  set m v := { m with entries := v }

def format : GroupedFormat ChannelReset4 where
  templateId := 4
  fields :=
    [ field 0 .uint64 (·.transactTime) fun m v => { m with transactTime := v }
    , field 8 .uint8 (·.matchEventIndicator) fun m v => { m with matchEventIndicator := v } ]
  size := 9
  tile := by decide
  groups := [entriesGroup]
  restores := fun m _ => by cases m; rfl

end ChannelReset4

structure AdminHeartbeat12 where
deriving DecidableEq, Repr

namespace AdminHeartbeat12

def format : GroupedFormat AdminHeartbeat12 where
  templateId := 12
  fields := []
  size := 0
  tile := by decide
  groups := []
  restores := fun m _ => by cases m; rfl

end AdminHeartbeat12

structure SecurityStatus30 where
  transactTime : UInt64 := 0
  securityGroup : FixedString 6 := .replicate 6 0
  asset : FixedString 6 := .replicate 6 0
  securityID : Int32 := 0
  tradeDate : UInt16 := 0
  matchEventIndicator : UInt8 := 0
  securityTradingStatus : UInt8 := 0
  haltReason : UInt8 := 0
  securityTradingEvent : UInt8 := 0
deriving DecidableEq, Repr

namespace SecurityStatus30

def format : GroupedFormat SecurityStatus30 where
  templateId := 30
  fields :=
    [ field 0 .uint64 (·.transactTime) fun m v => { m with transactTime := v }
    , field 8 (.bytes 6) (·.securityGroup) fun m v => { m with securityGroup := v }
    , field 14 (.bytes 6) (·.asset) fun m v => { m with asset := v }
    , field 20 .int32 (·.securityID) fun m v => { m with securityID := v }
    , field 24 .uint16 (·.tradeDate) fun m v => { m with tradeDate := v }
    , field 26 .uint8 (·.matchEventIndicator) fun m v => { m with matchEventIndicator := v }
    , field 27 .uint8 (·.securityTradingStatus) fun m v => { m with securityTradingStatus := v }
    , field 28 .uint8 (·.haltReason) fun m v => { m with haltReason := v }
    , field 29 .uint8 (·.securityTradingEvent) fun m v => { m with securityTradingEvent := v } ]
  size := 30
  tile := by decide
  groups := []
  restores := fun m _ => by cases m; rfl

end SecurityStatus30

/-! ## Book updates -/

structure MDIncrementalRefreshBook46.Entry where
  mdEntryPx : Int64 := 0
  mdEntrySize : Int32 := 0
  securityID : Int32 := 0
  rptSeq : UInt32 := 0
  numberOfOrders : Int32 := 0
  mdPriceLevel : UInt8 := 0
  mdUpdateAction : UInt8 := 0
  mdEntryType : UInt8 := 0
deriving DecidableEq, Repr

structure MDIncrementalRefreshBook46 where
  transactTime : UInt64 := 0
  matchEventIndicator : UInt8 := 0
  entries : List MDIncrementalRefreshBook46.Entry := []
deriving DecidableEq, Repr

namespace MDIncrementalRefreshBook46

def Entry.layout : Layout Entry where
  fields :=
    [ field 0 .int64 (·.mdEntryPx) fun m v => { m with mdEntryPx := v }
    , field 8 .int32 (·.mdEntrySize) fun m v => { m with mdEntrySize := v }
    , field 12 .int32 (·.securityID) fun m v => { m with securityID := v }
    , field 16 .uint32 (·.rptSeq) fun m v => { m with rptSeq := v }
    , field 20 .int32 (·.numberOfOrders) fun m v => { m with numberOfOrders := v }
    , field 24 .uint8 (·.mdPriceLevel) fun m v => { m with mdPriceLevel := v }
    , field 25 .uint8 (·.mdUpdateAction) fun m v => { m with mdUpdateAction := v }
    , field 26 .uint8 (·.mdEntryType) fun m v => { m with mdEntryType := v } ]
  size := 27
  tile := by decide
  restores := fun m _ => by cases m; rfl
  onto := fun _ => ⟨.mk .., rfl⟩

/-- The group of the book entries. -/
def entriesGroup : Group MDIncrementalRefreshBook46 where
  Entry := Entry
  blank := {}
  layout := Entry.layout
  size_lt := by decide
  get := entries
  set m v := { m with entries := v }

def format : GroupedFormat MDIncrementalRefreshBook46 where
  templateId := 46
  fields :=
    [ field 0 .uint64 (·.transactTime) fun m v => { m with transactTime := v }
    , field 8 .uint8 (·.matchEventIndicator) fun m v => { m with matchEventIndicator := v } ]
  size := 9
  tile := by decide
  groups := [entriesGroup]
  restores := fun m _ => by cases m; rfl

end MDIncrementalRefreshBook46

/-! ## Trades -/

structure MDIncrementalRefreshTradeSummary48.MDEntry where
  mdEntryPx : Int64 := 0
  mdEntrySize : Int32 := 0
  securityID : Int32 := 0
  rptSeq : UInt32 := 0
  numberOfOrders : Int32 := 0
  aggressorSide : UInt8 := 0
  mdUpdateAction : UInt8 := 0
deriving DecidableEq, Repr

structure MDIncrementalRefreshTradeSummary48.OrderIDEntry where
  orderID : UInt64 := 0
  lastQty : Int32 := 0
deriving DecidableEq, Repr

structure MDIncrementalRefreshTradeSummary48 where
  transactTime : UInt64 := 0
  matchEventIndicator : UInt8 := 0
  mdEntries : List MDIncrementalRefreshTradeSummary48.MDEntry := []
  orderIDEntries : List MDIncrementalRefreshTradeSummary48.OrderIDEntry := []
deriving DecidableEq, Repr

namespace MDIncrementalRefreshTradeSummary48

def MDEntry.layout : Layout MDEntry where
  fields :=
    [ field 0 .int64 (·.mdEntryPx) fun m v => { m with mdEntryPx := v }
    , field 8 .int32 (·.mdEntrySize) fun m v => { m with mdEntrySize := v }
    , field 12 .int32 (·.securityID) fun m v => { m with securityID := v }
    , field 16 .uint32 (·.rptSeq) fun m v => { m with rptSeq := v }
    , field 20 .int32 (·.numberOfOrders) fun m v => { m with numberOfOrders := v }
    , field 24 .uint8 (·.aggressorSide) fun m v => { m with aggressorSide := v }
    , field 25 .uint8 (·.mdUpdateAction) fun m v => { m with mdUpdateAction := v } ]
  size := 26
  tile := by decide
  restores := fun m _ => by cases m; rfl
  onto := fun _ => ⟨.mk .., rfl⟩

def OrderIDEntry.layout : Layout OrderIDEntry where
  fields :=
    [ field 0 .uint64 (·.orderID) fun m v => { m with orderID := v }
    , field 8 .int32 (·.lastQty) fun m v => { m with lastQty := v } ]
  size := 12
  tile := by decide
  restores := fun m _ => by cases m; rfl
  onto := fun _ => ⟨.mk .., rfl⟩

/-- The group of the trades. -/
def mdEntriesGroup : Group MDIncrementalRefreshTradeSummary48 where
  Entry := MDEntry
  blank := {}
  layout := MDEntry.layout
  size_lt := by decide
  get := mdEntries
  set m v := { m with mdEntries := v }

/-- The group of the orders that trade. -/
def orderIDEntriesGroup : Group MDIncrementalRefreshTradeSummary48 where
  Entry := OrderIDEntry
  blank := {}
  layout := OrderIDEntry.layout
  size_lt := by decide
  get := orderIDEntries
  set m v := { m with orderIDEntries := v }

def format : GroupedFormat MDIncrementalRefreshTradeSummary48 where
  templateId := 48
  fields :=
    [ field 0 .uint64 (·.transactTime) fun m v => { m with transactTime := v }
    , field 8 .uint8 (·.matchEventIndicator) fun m v => { m with matchEventIndicator := v } ]
  size := 9
  tile := by decide
  groups := [mdEntriesGroup, orderIDEntriesGroup]
  restores := fun m _ => by cases m; rfl

end MDIncrementalRefreshTradeSummary48

/-! ## Snapshots and definitions -/

structure SnapshotFullRefresh52.Entry where
  mdEntryPx : Int64 := 0
  mdEntrySize : Int32 := 0
  numberOfOrders : Int32 := 0
  mdPriceLevel : UInt8 := 0
  mdEntryType : UInt8 := 0
deriving DecidableEq, Repr

structure SnapshotFullRefresh52 where
  lastMsgSeqNumProcessed : UInt32 := 0
  totNumReports : UInt32 := 0
  securityID : Int32 := 0
  rptSeq : UInt32 := 0
  transactTime : UInt64 := 0
  lastUpdateTime : UInt64 := 0
  tradeDate : UInt16 := 0
  mdSecurityTradingStatus : UInt8 := 0
  highLimitPrice : Int64 := 0
  lowLimitPrice : Int64 := 0
  maxPriceVariation : Int64 := 0
  entries : List SnapshotFullRefresh52.Entry := []
deriving DecidableEq, Repr

namespace SnapshotFullRefresh52

def Entry.layout : Layout Entry where
  fields :=
    [ field 0 .int64 (·.mdEntryPx) fun m v => { m with mdEntryPx := v }
    , field 8 .int32 (·.mdEntrySize) fun m v => { m with mdEntrySize := v }
    , field 12 .int32 (·.numberOfOrders) fun m v => { m with numberOfOrders := v }
    , field 16 .uint8 (·.mdPriceLevel) fun m v => { m with mdPriceLevel := v }
    , field 17 .uint8 (·.mdEntryType) fun m v => { m with mdEntryType := v } ]
  size := 18
  tile := by decide
  restores := fun m _ => by cases m; rfl
  onto := fun _ => ⟨.mk .., rfl⟩

/-- The group of the price levels. -/
def entriesGroup : Group SnapshotFullRefresh52 where
  Entry := Entry
  blank := {}
  layout := Entry.layout
  size_lt := by decide
  get := entries
  set m v := { m with entries := v }

def format : GroupedFormat SnapshotFullRefresh52 where
  templateId := 52
  fields :=
    [ field 0 .uint32 (·.lastMsgSeqNumProcessed) fun m v => { m with lastMsgSeqNumProcessed := v }
    , field 4 .uint32 (·.totNumReports) fun m v => { m with totNumReports := v }
    , field 8 .int32 (·.securityID) fun m v => { m with securityID := v }
    , field 12 .uint32 (·.rptSeq) fun m v => { m with rptSeq := v }
    , field 16 .uint64 (·.transactTime) fun m v => { m with transactTime := v }
    , field 24 .uint64 (·.lastUpdateTime) fun m v => { m with lastUpdateTime := v }
    , field 32 .uint16 (·.tradeDate) fun m v => { m with tradeDate := v }
    , field 34 .uint8 (·.mdSecurityTradingStatus) fun m v => { m with mdSecurityTradingStatus := v }
    , field 35 .int64 (·.highLimitPrice) fun m v => { m with highLimitPrice := v }
    , field 43 .int64 (·.lowLimitPrice) fun m v => { m with lowLimitPrice := v }
    , field 51 .int64 (·.maxPriceVariation) fun m v => { m with maxPriceVariation := v } ]
  size := 59
  tile := by decide
  groups := [entriesGroup]
  restores := fun m _ => by cases m; rfl

end SnapshotFullRefresh52

structure MDInstrumentDefinitionFuture54 where
  matchEventIndicator : UInt8 := 0
  totNumReports : UInt32 := 0
  securityUpdateAction : UInt8 := 'A'.toUInt8
  lastUpdateTime : UInt64 := 0
  mdSecurityTradingStatus : UInt8 := 0
  applID : Int16 := 0
  marketSegmentID : UInt8 := 0
  underlyingProduct : UInt8 := 0
  securityExchange : FixedString 4 := .replicate 4 0
  securityGroup : FixedString 6 := .replicate 6 0
  asset : FixedString 6 := .replicate 6 0
  symbol : FixedString 20 := .replicate 20 0
  securityID : Int32 := 0
  securityType : FixedString 6 := .replicate 6 0
  cfiCode : FixedString 6 := .replicate 6 0
  maturityMonthYear : FixedString 5 := .replicate 5 0
  currency : FixedString 3 := .replicate 3 0
  settlCurrency : FixedString 3 := .replicate 3 0
  matchAlgorithm : UInt8 := 'F'.toUInt8
  minTradeVol : UInt32 := 1
  maxTradeVol : UInt32 := 10000
  minPriceIncrement : Int64 := 0
  displayFactor : Int64 := 0
  mainFraction : UInt8 := 0
  subFraction : UInt8 := 0
  priceDisplayFormat : UInt8 := 0
  unitOfMeasure : FixedString 30 := .replicate 30 0
  unitOfMeasureQty : Int64 := 0
  tradingReferencePrice : Int64 := 0
  settlPriceType : UInt8 := 0
  openInterestQty : Int32 := 0
  clearedVolume : Int32 := 0
  highLimitPrice : Int64 := 0
  lowLimitPrice : Int64 := 0
  maxPriceVariation : Int64 := 0
  decayQuantity : Int32 := 0
  decayStartDate : UInt16 := 0
  originalContractSize : Int32 := 0
  contractMultiplier : Int32 := 0
  contractMultiplierUnit : UInt8 := 0
  flowScheduleType : UInt8 := 0
  minPriceIncrementAmount : Int64 := 0
  userDefinedInstrument : UInt8 := 'N'.toUInt8
  tradingReferenceDate : UInt16 := 0
deriving DecidableEq, Repr

namespace MDInstrumentDefinitionFuture54

def format : GroupedFormat MDInstrumentDefinitionFuture54 where
  templateId := 54
  fields :=
    [ field 0 .uint8 (·.matchEventIndicator) fun m v => { m with matchEventIndicator := v }
    , field 1 .uint32 (·.totNumReports) fun m v => { m with totNumReports := v }
    , field 5 .uint8 (·.securityUpdateAction) fun m v => { m with securityUpdateAction := v }
    , field 6 .uint64 (·.lastUpdateTime) fun m v => { m with lastUpdateTime := v }
    , field 14 .uint8 (·.mdSecurityTradingStatus) fun m v => { m with mdSecurityTradingStatus := v }
    , field 15 .int16 (·.applID) fun m v => { m with applID := v }
    , field 17 .uint8 (·.marketSegmentID) fun m v => { m with marketSegmentID := v }
    , field 18 .uint8 (·.underlyingProduct) fun m v => { m with underlyingProduct := v }
    , field 19 (.bytes 4) (·.securityExchange) fun m v => { m with securityExchange := v }
    , field 23 (.bytes 6) (·.securityGroup) fun m v => { m with securityGroup := v }
    , field 29 (.bytes 6) (·.asset) fun m v => { m with asset := v }
    , field 35 (.bytes 20) (·.symbol) fun m v => { m with symbol := v }
    , field 55 .int32 (·.securityID) fun m v => { m with securityID := v }
    , field 59 (.bytes 6) (·.securityType) fun m v => { m with securityType := v }
    , field 65 (.bytes 6) (·.cfiCode) fun m v => { m with cfiCode := v }
    , field 71 (.bytes 5) (·.maturityMonthYear) fun m v => { m with maturityMonthYear := v }
    , field 76 (.bytes 3) (·.currency) fun m v => { m with currency := v }
    , field 79 (.bytes 3) (·.settlCurrency) fun m v => { m with settlCurrency := v }
    , field 82 .uint8 (·.matchAlgorithm) fun m v => { m with matchAlgorithm := v }
    , field 83 .uint32 (·.minTradeVol) fun m v => { m with minTradeVol := v }
    , field 87 .uint32 (·.maxTradeVol) fun m v => { m with maxTradeVol := v }
    , field 91 .int64 (·.minPriceIncrement) fun m v => { m with minPriceIncrement := v }
    , field 99 .int64 (·.displayFactor) fun m v => { m with displayFactor := v }
    , field 107 .uint8 (·.mainFraction) fun m v => { m with mainFraction := v }
    , field 108 .uint8 (·.subFraction) fun m v => { m with subFraction := v }
    , field 109 .uint8 (·.priceDisplayFormat) fun m v => { m with priceDisplayFormat := v }
    , field 110 (.bytes 30) (·.unitOfMeasure) fun m v => { m with unitOfMeasure := v }
    , field 140 .int64 (·.unitOfMeasureQty) fun m v => { m with unitOfMeasureQty := v }
    , field 148 .int64 (·.tradingReferencePrice) fun m v => { m with tradingReferencePrice := v }
    , field 156 .uint8 (·.settlPriceType) fun m v => { m with settlPriceType := v }
    , field 157 .int32 (·.openInterestQty) fun m v => { m with openInterestQty := v }
    , field 161 .int32 (·.clearedVolume) fun m v => { m with clearedVolume := v }
    , field 165 .int64 (·.highLimitPrice) fun m v => { m with highLimitPrice := v }
    , field 173 .int64 (·.lowLimitPrice) fun m v => { m with lowLimitPrice := v }
    , field 181 .int64 (·.maxPriceVariation) fun m v => { m with maxPriceVariation := v }
    , field 189 .int32 (·.decayQuantity) fun m v => { m with decayQuantity := v }
    , field 193 .uint16 (·.decayStartDate) fun m v => { m with decayStartDate := v }
    , field 195 .int32 (·.originalContractSize) fun m v => { m with originalContractSize := v }
    , field 199 .int32 (·.contractMultiplier) fun m v => { m with contractMultiplier := v }
    , field 203 .uint8 (·.contractMultiplierUnit) fun m v => { m with contractMultiplierUnit := v }
    , field 204 .uint8 (·.flowScheduleType) fun m v => { m with flowScheduleType := v }
    , field 205 .int64 (·.minPriceIncrementAmount) fun m v =>
        { m with minPriceIncrementAmount := v }
    , field 213 .uint8 (·.userDefinedInstrument) fun m v => { m with userDefinedInstrument := v }
    , field 214 .uint16 (·.tradingReferenceDate) fun m v => { m with tradingReferenceDate := v } ]
  size := 216
  tile := by decide
  groups := []
  restores := fun m _ => by cases m; rfl

end MDInstrumentDefinitionFuture54

/-- The message types of the schema. -/
def mdp3Formats : List ((σ : Type) × GroupedFormat σ) :=
  [ ⟨_, ChannelReset4.format⟩
  , ⟨_, AdminHeartbeat12.format⟩
  , ⟨_, SecurityStatus30.format⟩
  , ⟨_, MDIncrementalRefreshBook46.format⟩
  , ⟨_, MDIncrementalRefreshTradeSummary48.format⟩
  , ⟨_, SnapshotFullRefresh52.format⟩
  , ⟨_, MDInstrumentDefinitionFuture54.format⟩ ]

/-! ## Payloads -/

/-- A message of a packet. -/
inductive Mdp3Message where
  | channelReset (msg : ChannelReset4)
  | adminHeartbeat (msg : AdminHeartbeat12)
  | securityStatus (msg : SecurityStatus30)
  | book (msg : MDIncrementalRefreshBook46)
  | tradeSummary (msg : MDIncrementalRefreshTradeSummary48)
  | snapshot (msg : SnapshotFullRefresh52)
  | instrumentDefinition (msg : MDInstrumentDefinitionFuture54)
deriving DecidableEq, Repr

/-- How a receiver decodes the messages of a template. -/
structure Mdp3Codec where
  templateId : UInt16
  decode : List UInt8 → Nat → Option Mdp3Message

/-- Decode a message of a format into a blank one. -/
def GroupedFormat.codec {σ : Type} (f : GroupedFormat σ) (blank : σ) (wrap : σ → Mdp3Message) :
    Mdp3Codec where
  templateId := f.templateId
  decode payload offset := (f.decode blank payload offset).map wrap

theorem GroupedFormat.codec_decode {σ : Type} {f : GroupedFormat σ} {blank : σ}
    {wrap : σ → Mdp3Message} {payload : List UInt8} {offset : Nat} {msg : Mdp3Message}
    (hdecode : (f.codec blank wrap).decode payload offset = some msg) :
    ∃ m, f.decode blank payload offset = some m ∧ wrap m = msg :=
  Option.map_eq_some_iff.mp hdecode

namespace Mdp3Message

def encode : Mdp3Message → List UInt8 → Nat → List UInt8 × Nat
  | .channelReset msg => ChannelReset4.format.encode msg
  | .adminHeartbeat msg => AdminHeartbeat12.format.encode msg
  | .securityStatus msg => SecurityStatus30.format.encode msg
  | .book msg => MDIncrementalRefreshBook46.format.encode msg
  | .tradeSummary msg => MDIncrementalRefreshTradeSummary48.format.encode msg
  | .snapshot msg => SnapshotFullRefresh52.format.encode msg
  | .instrumentDefinition msg => MDInstrumentDefinitionFuture54.format.encode msg

def toBytes : Mdp3Message → List UInt8
  | .channelReset msg => ChannelReset4.format.toBytes msg
  | .adminHeartbeat msg => AdminHeartbeat12.format.toBytes msg
  | .securityStatus msg => SecurityStatus30.format.toBytes msg
  | .book msg => MDIncrementalRefreshBook46.format.toBytes msg
  | .tradeSummary msg => MDIncrementalRefreshTradeSummary48.format.toBytes msg
  | .snapshot msg => SnapshotFullRefresh52.format.toBytes msg
  | .instrumentDefinition msg => MDInstrumentDefinitionFuture54.format.toBytes msg

def encodedLength : Mdp3Message → Nat
  | .channelReset msg => ChannelReset4.format.encodedLength msg
  | .adminHeartbeat msg => AdminHeartbeat12.format.encodedLength msg
  | .securityStatus msg => SecurityStatus30.format.encodedLength msg
  | .book msg => MDIncrementalRefreshBook46.format.encodedLength msg
  | .tradeSummary msg => MDIncrementalRefreshTradeSummary48.format.encodedLength msg
  | .snapshot msg => SnapshotFullRefresh52.format.encodedLength msg
  | .instrumentDefinition msg => MDInstrumentDefinitionFuture54.format.encodedLength msg

/-- Encode messages back to back.  The position behind them comes with the buffer. -/
def encodeAll : List Mdp3Message → List UInt8 → Nat → List UInt8 × Nat
  | [], buffer, offset => (buffer, offset)
  | msg :: msgs, buffer, offset =>
      let (buffer, written) := msg.encode buffer offset
      encodeAll msgs buffer (offset + written)

def codecs : List Mdp3Codec :=
  [ ChannelReset4.format.codec {} .channelReset
  , AdminHeartbeat12.format.codec {} .adminHeartbeat
  , SecurityStatus30.format.codec {} .securityStatus
  , MDIncrementalRefreshBook46.format.codec {} .book
  , MDIncrementalRefreshTradeSummary48.format.codec {} .tradeSummary
  , SnapshotFullRefresh52.format.codec {} .snapshot
  , MDInstrumentDefinitionFuture54.format.codec {} .instrumentDefinition ]

/-- Decode the message whose header lies at an offset. -/
def decodeAt (payload : List UInt8) (offset : Nat) : Option Mdp3Message := do
  let templateId ← MessageHeader.decodeTemplateId payload offset
  let codec ← codecs.find? (·.templateId == templateId)
  codec.decode payload offset

/-- Decode messages up to the end of the payload, with as many steps as are allowed. -/
def walkFrom (payload : List UInt8) : Nat → Nat → Option (List Mdp3Message)
  | 0, offset => if offset = payload.length then some [] else none
  | fuel + 1, offset =>
      if offset = payload.length then some []
      else do
        let msg ← decodeAt payload offset
        let rest ← walkFrom payload fuel (offset + msg.encodedLength)
        return msg :: rest

/-- Decode the messages of a payload.  No message is empty, so there are no more of
them than bytes. -/
def walk (payload : List UInt8) : Option (List Mdp3Message) :=
  walkFrom payload payload.length 0

/-- A byte counts the entries of each group. -/
def Counted : Mdp3Message → Prop
  | .channelReset msg => msg.entries.length ≤ 255
  | .book msg => msg.entries.length ≤ 255
  | .tradeSummary msg => msg.mdEntries.length ≤ 255 ∧ msg.orderIDEntries.length ≤ 255
  | .snapshot msg => msg.entries.length ≤ 255
  | .adminHeartbeat _ | .securityStatus _ | .instrumentDefinition _ => True

@[simp]
theorem length_toBytes (msg : Mdp3Message) : msg.toBytes.length = msg.encodedLength := by
  cases msg <;> exact GroupedFormat.length_toBytes _ _

theorem encodedLength_pos (msg : Mdp3Message) : 0 < msg.encodedLength := by
  cases msg <;> exact GroupedFormat.encodedLength_pos _ _

theorem encode_eq (msg : Mdp3Message) (front old : List UInt8) :
    msg.encode (front ++ old) front.length =
      (front ++ msg.toBytes ++ old.drop msg.encodedLength, msg.encodedLength) := by
  cases msg <;> simp only [encode, toBytes, encodedLength, GroupedFormat.encode_eq,
    GroupedFormat.toBytes_eq]

/-- Messages that are encoded back to back overwrite their bytes and nothing else. -/
theorem encodeAll_eq (msgs : List Mdp3Message) (front old : List UInt8) :
    encodeAll msgs (front ++ old) front.length =
      (front ++ msgs.flatMap toBytes ++ old.drop (msgs.map encodedLength).sum,
        front.length + (msgs.map encodedLength).sum) := by
  induction msgs generalizing front old with
  | nil => simp [encodeAll]
  | cons msg msgs ih =>
      have hrest := ih (front ++ msg.toBytes) (old.drop msg.encodedLength)
      rw [List.length_append, length_toBytes] at hrest
      rw [encodeAll, encode_eq]
      dsimp only
      rw [hrest]
      simp [Nat.add_assoc]

/-- The receiver chooses the codec of a format by the template id of its header. -/
theorem decodeAt_of_codec {σ : Type} {f : GroupedFormat σ} {blank : σ} {wrap : σ → Mdp3Message}
    (hfind : codecs.find? (·.templateId == f.templateId) = some (f.codec blank wrap)) (m : σ)
    (hcounted : ∀ g ∈ f.groups, (g.get m).length ≤ 255) (front back : List UInt8) :
    decodeAt (front ++ f.toBytes m ++ back) front.length = some (wrap m) := by
  have htemplate := f.decodeTemplateId_append m front back
  have hdecode := f.decode_append m blank hcounted front back
  simp only [decodeAt, htemplate, hfind, Option.bind_eq_bind, Option.bind_some,
    GroupedFormat.codec, hdecode, Option.map_some]

/-- A message is decoded wherever its bytes lie. -/
theorem decodeAt_append (msg : Mdp3Message) (hcounted : msg.Counted) (front back : List UInt8) :
    decodeAt (front ++ msg.toBytes ++ back) front.length = some msg := by
  cases msg with
  | channelReset msg =>
      refine decodeAt_of_codec (f := ChannelReset4.format) rfl msg ?_ front back
      exact List.forall_mem_singleton.mpr hcounted
  | adminHeartbeat msg =>
      refine decodeAt_of_codec (f := AdminHeartbeat12.format) rfl msg ?_ front back
      exact List.forall_mem_nil _
  | securityStatus msg =>
      refine decodeAt_of_codec (f := SecurityStatus30.format) rfl msg ?_ front back
      exact List.forall_mem_nil _
  | book msg =>
      refine decodeAt_of_codec (f := MDIncrementalRefreshBook46.format) rfl msg ?_ front back
      exact List.forall_mem_singleton.mpr hcounted
  | tradeSummary msg =>
      refine decodeAt_of_codec (f := MDIncrementalRefreshTradeSummary48.format) rfl msg ?_
        front back
      exact List.forall_mem_cons.mpr ⟨hcounted.1, List.forall_mem_singleton.mpr hcounted.2⟩
  | snapshot msg =>
      refine decodeAt_of_codec (f := SnapshotFullRefresh52.format) rfl msg ?_ front back
      exact List.forall_mem_singleton.mpr hcounted
  | instrumentDefinition msg =>
      refine decodeAt_of_codec (f := MDInstrumentDefinitionFuture54.format) rfl msg ?_ front back
      exact List.forall_mem_nil _

theorem walkFrom_toBytes (msgs : List Mdp3Message) (hcounted : ∀ msg ∈ msgs, msg.Counted)
    (front : List UInt8) {fuel : Nat} (hfuel : msgs.length ≤ fuel) :
    walkFrom (front ++ msgs.flatMap toBytes) fuel front.length = some msgs := by
  induction msgs generalizing front fuel with
  | nil => cases fuel <;> simp [walkFrom]
  | cons msg msgs ih =>
      obtain ⟨fuel, rfl⟩ : ∃ rest, fuel = rest + 1 :=
        Nat.exists_eq_add_one_of_ne_zero (by rw [List.length_cons] at hfuel; omega)
      obtain ⟨hfirst, hrest⟩ := List.forall_mem_cons.mp hcounted
      have hpos := msg.encodedLength_pos
      have hne : front.length ≠ (front ++ (msg :: msgs).flatMap toBytes).length := by
        simp only [List.flatMap_cons, List.length_append, length_toBytes]
        omega
      have hdecode := msg.decodeAt_append hfirst front (msgs.flatMap toBytes)
      have hwalk := ih hrest (front ++ msg.toBytes) (Nat.le_of_succ_le_succ hfuel)
      simp only [List.append_assoc, List.length_append, length_toBytes] at hdecode hwalk
      rw [walkFrom, if_neg hne]
      simp [hdecode, hwalk]

/-- Messages whose entries are counted by bytes are decoded one after the other, and
the walk ends where the payload ends. -/
theorem walk_toBytes (msgs : List Mdp3Message) (hcounted : ∀ msg ∈ msgs, msg.Counted) :
    walk (msgs.flatMap toBytes) = some msgs := by
  have hfuel : msgs.length ≤ (msgs.flatMap toBytes).length := by
    clear hcounted
    induction msgs with
    | nil => simp
    | cons msg msgs ih =>
        have hpos := msg.encodedLength_pos
        simp only [List.flatMap_cons, List.length_append, length_toBytes, List.length_cons]
        omega
  simpa [walk] using walkFrom_toBytes msgs hcounted [] hfuel

/-- Messages that are encoded back to back up to the end of a buffer are decoded one
after the other. -/
theorem walkFrom_encodeAll (msgs : List Mdp3Message) (hcounted : ∀ msg ∈ msgs, msg.Counted)
    (buffer : List UInt8) (offset : Nat)
    (hfits : offset + (msgs.map encodedLength).sum = buffer.length) :
    walkFrom (encodeAll msgs buffer offset).1 msgs.length offset = some msgs := by
  have hfront : (buffer.take offset).length = offset := by
    rw [List.length_take]
    omega
  have hback : (buffer.drop offset).drop (msgs.map encodedLength).sum = [] := by
    rw [List.drop_drop, hfits, List.drop_length]
  have hwritten := encodeAll_eq msgs (buffer.take offset) (buffer.drop offset)
  rw [List.take_append_drop, hfront, hback, List.append_nil] at hwritten
  have hwalk := walkFrom_toBytes msgs hcounted (buffer.take offset) (Nat.le_refl _)
  rw [hfront] at hwalk
  rw [hwritten]
  exact hwalk

theorem counted_of_decode_tradeSummary {msg : MDIncrementalRefreshTradeSummary48}
    {payload : List UInt8} {offset : Nat}
    (hdecode : MDIncrementalRefreshTradeSummary48.format.decode {} payload offset = some msg) :
    (tradeSummary msg).Counted := by
  simp only [GroupedFormat.decode, MDIncrementalRefreshTradeSummary48.format, Group.decode,
    Option.bind_eq_bind, Option.bind_eq_some_iff, Option.some.injEq] at hdecode
  obtain ⟨root, -, ⟨mdEntries, mid⟩, hmd, ⟨orderIDEntries, stop⟩, horders, rfl⟩ := hdecode
  exact ⟨Group.length_of_decodeEntries hmd, Group.length_of_decodeEntries horders⟩

theorem counted_of_codec {codec : Mdp3Codec} (hcodec : codec ∈ codecs) {payload : List UInt8}
    {offset : Nat} {msg : Mdp3Message} (hdecode : codec.decode payload offset = some msg) :
    msg.Counted := by
  simp only [codecs, List.mem_cons, List.not_mem_nil, or_false] at hcodec
  rcases hcodec with rfl | rfl | rfl | rfl | rfl | rfl | rfl <;>
    obtain ⟨msg, hmsg, rfl⟩ := GroupedFormat.codec_decode hdecode
  · exact GroupedFormat.length_of_decode_single (f := ChannelReset4.format)
      (g := ChannelReset4.entriesGroup) rfl
      (fun _ _ => rfl) hmsg
  · trivial
  · trivial
  · exact GroupedFormat.length_of_decode_single (g := MDIncrementalRefreshBook46.entriesGroup) rfl
      (fun _ _ => rfl) hmsg
  · exact counted_of_decode_tradeSummary hmsg
  · exact GroupedFormat.length_of_decode_single (g := SnapshotFullRefresh52.entriesGroup) rfl
      (fun _ _ => rfl) hmsg
  · trivial

theorem counted_of_decodeAt {payload : List UInt8} {offset : Nat} {msg : Mdp3Message}
    (hdecode : decodeAt payload offset = some msg) : msg.Counted := by
  simp only [decodeAt, Option.bind_eq_bind, Option.bind_eq_some_iff] at hdecode
  obtain ⟨templateId, -, codec, hfind, hdecode⟩ := hdecode
  exact counted_of_codec (List.mem_of_find?_eq_some hfind) hdecode

/-- No message of a walk has more entries in a group than a byte counts. -/
theorem counted_of_walk {payload : List UInt8} {msgs : List Mdp3Message}
    (hwalk : walk payload = some msgs) : ∀ msg ∈ msgs, msg.Counted := by
  have hfrom : ∀ fuel offset msgs, walkFrom payload fuel offset = some msgs →
      ∀ msg ∈ msgs, msg.Counted := by
    intro fuel
    induction fuel with
    | zero =>
        intro offset msgs hwalk
        rw [walkFrom] at hwalk
        split at hwalk
        · cases hwalk
          simp
        · contradiction
    | succ fuel ih =>
        intro offset msgs hwalk
        rw [walkFrom] at hwalk
        split at hwalk
        · cases hwalk
          simp
        · simp only [Option.bind_eq_bind, Option.pure_def, Option.bind_eq_some_iff,
            Option.some.injEq] at hwalk
          obtain ⟨msg, hdecode, rest, hrest, rfl⟩ := hwalk
          exact List.forall_mem_cons.mpr ⟨counted_of_decodeAt hdecode, ih _ _ hrest⟩
  exact hfrom _ _ _ hwalk

end Mdp3Message

open Mdp3Message in
/-- Every codec of the schema is exact, and messages encoded back to back are told
apart again. -/
theorem mdp3_roundTrips :
    (∀ f ∈ mdp3Formats, f.2.RoundTrips) ∧
      ∀ (msgs : List Mdp3Message) (buffer : List UInt8) (offset : Nat),
        (∀ msg ∈ msgs, msg.Counted) →
        offset + (msgs.map encodedLength).sum = buffer.length →
        (encodeAll msgs buffer offset).2 = offset + (msgs.map encodedLength).sum ∧
          walkFrom (encodeAll msgs buffer offset).1 msgs.length offset = some msgs := by
  refine ⟨fun f _ => f.2.roundTrips, ?_⟩
  intro msgs buffer offset hcounted hfits
  refine ⟨?_, walkFrom_encodeAll msgs hcounted buffer offset hfits⟩
  have hfront : (buffer.take offset).length = offset := by
    rw [List.length_take]
    omega
  have hwritten := encodeAll_eq msgs (buffer.take offset) (buffer.drop offset)
  rw [List.take_append_drop, hfront] at hwritten
  rw [hwritten]

open Mdp3Message in
/-- A trade, a heartbeat and a snapshot behind three other bytes. -/
theorem walkFrom_three_messages :
    let trade : MDIncrementalRefreshTradeSummary48 :=
      { mdEntries := [{ mdEntryPx := 100, mdEntrySize := 5 }]
        orderIDEntries := [{ orderID := 1, lastQty := 5 }, { orderID := 2, lastQty := 5 }] }
    let msgs := [tradeSummary trade, adminHeartbeat {}, snapshot { securityID := 7 }]
    walkFrom (encodeAll msgs (List.replicate 154 0xff) 3).1 3 3 = some msgs := by
  intro trade msgs
  have hcounted : ∀ msg ∈ msgs, msg.Counted := by
    intro msg hmsg
    simp only [msgs, List.mem_cons, List.not_mem_nil, or_false] at hmsg
    rcases hmsg with rfl | rfl | rfl
    · exact ⟨by decide, by decide⟩
    · trivial
    · exact Nat.zero_le _
  exact (mdp3_roundTrips.2 msgs _ _ hcounted (by rw [List.length_replicate]; decide)).2

end SimCme
