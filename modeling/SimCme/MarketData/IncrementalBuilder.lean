import SimCme.Engine.Arithmetic
import SimCme.MarketData.Feed
import SimCme.Sbe.Mdp3Messages

/-!
# Incremental packets

A batch of engine events becomes one payload: the book updates go into one message
and the trades into another behind it.  The numbers of entries and the positions of
the levels are cast to bytes on the way.

Main results:

- Theorem {lit}`IncrementalBuilder.packet_eq`: the payload is the bytes of at most two
  messages, with one entry for each update and each trade.
- Theorem {lit}`IncrementalBuilder.losesNothing_iff`: a receiver finds the events of the
  batch in the payload exactly when their numbers and positions fit their bytes.
-/

open Library

namespace SimCme

/-! ## Codes -/

def MDUpdateAction.code : MDUpdateAction → UInt8
  | .new => 0
  | .change => 1
  | .delete => 2
  | .deleteThru => 3
  | .deleteFrom => 4
  | .overlay => 5

inductive MDEntryType where
  | bid
  | offer
  | trade
deriving DecidableEq, Repr

def MDEntryType.code : MDEntryType → UInt8
  | .bid => '0'.toUInt8
  | .offer => '1'.toUInt8
  | .trade => '2'.toUInt8

namespace MatchEventIndicator

def lastTradeMsg : UInt8 := 0x01

def lastVolumeMsg : UInt8 := 0x02

def lastQuoteMsg : UInt8 := 0x04

def endOfEvent : UInt8 := 0x80

end MatchEventIndicator

/-! ## The builder -/

/-- The last report number the builder gave out for each security. -/
structure IncrementalBuilder where
  rptSeqs : SecurityId → UInt32 := fun _ => 0

namespace IncrementalBuilder

def getNextRptSeq (builder : IncrementalBuilder) (secId : SecurityId) :
    UInt32 × IncrementalBuilder :=
  let next := builder.rptSeqs secId + 1
  (next, { rptSeqs := Function.update builder.rptSeqs secId next })

/-- The entry of an update.  An update that comes with a number keeps it. -/
def bookEntry (builder : IncrementalBuilder) (bu : BookUpdate) :
    IncrementalBuilder × MDIncrementalRefreshBook46.Entry :=
  let (rptSeq, builder) :=
    if bu.rptSeq ≠ 0 then (bu.rptSeq, builder) else builder.getNextRptSeq bu.securityId
  (builder,
    { mdEntryPx := bu.price.mantissa
      mdEntrySize := .ofInt bu.newQty
      securityID := .ofInt bu.securityId
      rptSeq := rptSeq
      numberOfOrders := .ofInt bu.newOrderCount
      mdPriceLevel := .ofNat bu.priceLevelIndex
      mdUpdateAction := bu.updateAction.code
      mdEntryType := if bu.side = .buy then MDEntryType.bid.code else MDEntryType.offer.code })

/-- The loop over the book updates. -/
def bookLoop : Machine IncrementalBuilder EngineEvent MDIncrementalRefreshBook46.Entry where
  step builder
    | .bookUpdate bu => ((builder.bookEntry bu).1, [(builder.bookEntry bu).2])
    | _ => (builder, [])

/-- The message of the book updates. -/
def bookRefresh (builder : IncrementalBuilder) (bookUpdates : List EngineEvent)
    (transactTime : Timestamp) : IncrementalBuilder × MDIncrementalRefreshBook46 :=
  let (builder, entries) := bookLoop.run builder bookUpdates
  (builder,
    { transactTime := .ofNat transactTime
      matchEventIndicator := MatchEventIndicator.lastQuoteMsg ||| MatchEventIndicator.endOfEvent
      entries := entries })

def buildBookRefresh (builder : IncrementalBuilder) (bookUpdates : List EngineEvent)
    (transactTime : Timestamp) : IncrementalBuilder × List UInt8 :=
  let (builder, msg) := builder.bookRefresh bookUpdates transactTime
  (builder, if msg.entries = [] then [] else MDIncrementalRefreshBook46.format.toBytes msg)

/-- The entries of a trade: the trade itself, and the orders of its maker and its
taker. -/
structure TradeEntries where
  mdEntry : MDIncrementalRefreshTradeSummary48.MDEntry
  makerOid : MDIncrementalRefreshTradeSummary48.OrderIDEntry
  takerOid : MDIncrementalRefreshTradeSummary48.OrderIDEntry

def tradeEntries (builder : IncrementalBuilder) (fill : OrderFilled) :
    IncrementalBuilder × TradeEntries :=
  let (rptSeq, builder) := builder.getNextRptSeq fill.securityId
  (builder,
    { mdEntry :=
        { mdEntryPx := fill.tradePrice.mantissa
          mdEntrySize := .ofInt fill.tradeQty
          securityID := .ofInt fill.securityId
          rptSeq := rptSeq
          numberOfOrders := 2
          aggressorSide := fill.aggressorSide.code
          mdUpdateAction := MDUpdateAction.new.code }
      makerOid := { orderID := .ofNat fill.makerOrderId, lastQty := .ofInt fill.tradeQty }
      takerOid := { orderID := .ofNat fill.takerOrderId, lastQty := .ofInt fill.tradeQty } })

/-- The loop over the trades. -/
def tradeLoop : Machine IncrementalBuilder EngineEvent TradeEntries where
  step builder
    | .orderFilled fill => ((builder.tradeEntries fill).1, [(builder.tradeEntries fill).2])
    | _ => (builder, [])

/-- The message of the trades. -/
def tradeSummary (builder : IncrementalBuilder) (tradeEvents : List EngineEvent)
    (transactTime : Timestamp) : IncrementalBuilder × MDIncrementalRefreshTradeSummary48 :=
  let (builder, trades) := tradeLoop.run builder tradeEvents
  (builder,
    { transactTime := .ofNat transactTime
      matchEventIndicator := MatchEventIndicator.lastTradeMsg |||
        MatchEventIndicator.lastVolumeMsg ||| MatchEventIndicator.endOfEvent
      mdEntries := trades.map (·.mdEntry)
      orderIDEntries := trades.flatMap fun trade => [trade.makerOid, trade.takerOid] })

def buildTradeSummary (builder : IncrementalBuilder) (tradeEvents : List EngineEvent)
    (transactTime : Timestamp) : IncrementalBuilder × List UInt8 :=
  let (builder, msg) := builder.tradeSummary tradeEvents transactTime
  (builder,
    if msg.mdEntries = [] then [] else MDIncrementalRefreshTradeSummary48.format.toBytes msg)

def isBookUpdate : EngineEvent → Bool
  | .bookUpdate _ => true
  | _ => false

def isOrderFilled : EngineEvent → Bool
  | .orderFilled _ => true
  | _ => false

def buildIncrementalPacket (builder : IncrementalBuilder) (events : List EngineEvent)
    (transactTime : Timestamp) : IncrementalBuilder × List UInt8 :=
  let bookUpdates := events.filter isBookUpdate
  let trades := events.filter isOrderFilled
  let (builder, bookMsg) := builder.buildBookRefresh bookUpdates transactTime
  let (builder, tradeMsg) := builder.buildTradeSummary trades transactTime
  (builder, bookMsg ++ tradeMsg)

end IncrementalBuilder

/-! ## What a receiver should find -/

/-- An entry says what an update says. -/
structure MDIncrementalRefreshBook46.Entry.Reports (entry : Entry) (u : BookUpdate) : Prop where
  price_eq : entry.mdEntryPx = u.price.mantissa
  quantity_eq : entry.mdEntrySize.toInt = u.newQty
  orderCount_eq : entry.numberOfOrders.toInt = u.newOrderCount
  level_eq : entry.mdPriceLevel.toNat = u.priceLevelIndex
  action_eq : entry.mdUpdateAction = u.updateAction.code
  side_eq : entry.mdEntryType = MDEntryType.bid.code ∧ u.side = .buy ∨
    entry.mdEntryType = MDEntryType.offer.code ∧ u.side = .sell
  security_eq : entry.securityID.toInt = u.securityId

/-- An entry says what a trade says. -/
structure MDIncrementalRefreshTradeSummary48.MDEntry.Reports (entry : MDEntry)
    (fill : OrderFilled) : Prop where
  price_eq : entry.mdEntryPx = fill.tradePrice.mantissa
  quantity_eq : entry.mdEntrySize.toInt = fill.tradeQty
  aggressor_eq : entry.aggressorSide = fill.aggressorSide.code
  security_eq : entry.securityID.toInt = fill.securityId

/-- One message with an entry for each update, if there is any. -/
def ReportsBook (updates : List BookUpdate) (msgs : List Mdp3Message) : Prop :=
  if updates = [] then msgs = []
  else ∃ msg, msgs = [.book msg] ∧ List.Forall₂ (·.Reports ·) msg.entries updates

/-- One message with an entry for each trade, and the maker and the taker of each, if
there is any. -/
def ReportsTrades (fills : List OrderFilled) (msgs : List Mdp3Message) : Prop :=
  if fills = [] then msgs = []
  else ∃ msg, msgs = [.tradeSummary msg] ∧
    List.Forall₂ (·.Reports ·) msg.mdEntries fills ∧
    msg.orderIDEntries.map (·.orderID.toNat) =
      fills.flatMap fun fill => [fill.makerOrderId, fill.takerOrderId]

/-- The walk over a payload ends at its end and finds the updates of a batch and then
its trades. -/
def LosesNothing (events : List EngineEvent) (payload : List UInt8) : Prop :=
  ∃ book trades, Mdp3Message.walk payload = some (book ++ trades) ∧
    ReportsBook (bookUpdates events) book ∧ ReportsTrades (orderFills events) trades

/-- The values of an update are values of their types. -/
structure BookUpdate.Typed (u : BookUpdate) : Prop where
  security : InRange u.securityId
  quantity : InRange u.newQty
  orderCount : InRange u.newOrderCount

/-- The values of a trade are values of their types. -/
structure OrderFilled.Typed (fill : OrderFilled) : Prop where
  security : InRange fill.securityId
  quantity : InRange fill.tradeQty
  maker : fill.makerOrderId < 2 ^ 64
  taker : fill.takerOrderId < 2 ^ 64

def EngineEvent.Typed : EngineEvent → Prop
  | .bookUpdate u => u.Typed
  | .orderFilled fill => fill.Typed
  | _ => True

instance (u : BookUpdate) : Decidable u.Typed :=
  decidable_of_iff (InRange u.securityId ∧ InRange u.newQty ∧ InRange u.newOrderCount)
    ⟨fun h => ⟨h.1, h.2.1, h.2.2⟩, fun h => ⟨h.security, h.quantity, h.orderCount⟩⟩

instance (fill : OrderFilled) : Decidable fill.Typed :=
  decidable_of_iff (InRange fill.securityId ∧ InRange fill.tradeQty ∧
      fill.makerOrderId < 2 ^ 64 ∧ fill.takerOrderId < 2 ^ 64)
    ⟨fun h => ⟨h.1, h.2.1, h.2.2.1, h.2.2.2⟩,
      fun h => ⟨h.security, h.quantity, h.maker, h.taker⟩⟩

instance : (e : EngineEvent) → Decidable e.Typed
  | .bookUpdate u => inferInstanceAs (Decidable u.Typed)
  | .orderFilled fill => inferInstanceAs (Decidable fill.Typed)
  | .orderAccepted _ | .orderRejected _ | .orderCancelled _ | .orderCancelRejected _
  | .orderModified _ => inferInstanceAs (Decidable True)

/-- The level of an update fits its byte, and its side is one of the two. -/
def BookUpdate.Fits (u : BookUpdate) : Prop :=
  u.priceLevelIndex ≤ 255 ∧ u.side.Listed

namespace IncrementalBuilder

variable {events : List EngineEvent}

theorem toInt_ofInt_of_inRange {i : Int} (hi : InRange i) : (Int32.ofInt i).toInt = i :=
  Int32.toInt_ofInt_of_le hi.1 (by have := hi.2; omega)

theorem bookEntry_reports (builder : IncrementalBuilder) {u : BookUpdate} (htyped : u.Typed)
    (hfits : u.Fits) : (builder.bookEntry u).2.Reports u where
  price_eq := rfl
  quantity_eq := toInt_ofInt_of_inRange htyped.quantity
  orderCount_eq := toInt_ofInt_of_inRange htyped.orderCount
  level_eq := by
    have hlevel := hfits.1
    simp only [bookEntry, UInt8.toNat_ofNat']
    omega
  action_eq := rfl
  side_eq := by
    rcases hfits.2 with hside | hside
    · exact .inl ⟨by simp [bookEntry, hside], hside⟩
    · exact .inr ⟨by simp [bookEntry, hside], hside⟩
  security_eq := toInt_ofInt_of_inRange htyped.security

/-- The entries of a trade say what the trade says. -/
structure TradeEntries.Reports (trade : TradeEntries) (fill : OrderFilled) : Prop where
  mdEntry_reports : trade.mdEntry.Reports fill
  orders_eq : [trade.makerOid, trade.takerOid].map (·.orderID.toNat) =
    [fill.makerOrderId, fill.takerOrderId]

theorem tradeEntries_reports (builder : IncrementalBuilder) {fill : OrderFilled}
    (htyped : fill.Typed) : (builder.tradeEntries fill).2.Reports fill where
  mdEntry_reports :=
    { price_eq := rfl
      quantity_eq := toInt_ofInt_of_inRange htyped.quantity
      aggressor_eq := rfl
      security_eq := toInt_ofInt_of_inRange htyped.security }
  orders_eq := by
    simpa [tradeEntries] using ⟨htyped.maker, htyped.taker⟩

/-- Each update has its entry, in order. -/
theorem bookLoop_reports (builder : IncrementalBuilder) (htyped : ∀ e ∈ events, e.Typed)
    (hfits : ∀ u ∈ bookUpdates events, u.Fits) :
    List.Forall₂ (·.Reports ·) (bookLoop.run builder events).2 (bookUpdates events) := by
  refine Machine.forall₂_run (fun builder e he => ?_) builder
  cases e with
  | bookUpdate u =>
      have hu : u ∈ bookUpdates events := List.mem_filterMap.mpr ⟨_, he, rfl⟩
      exact .cons (bookEntry_reports builder (htyped _ he) (hfits u hu)) .nil
  | _ => exact .nil

/-- Each trade has its entries, in order. -/
theorem tradeLoop_reports (builder : IncrementalBuilder) (htyped : ∀ e ∈ events, e.Typed) :
    List.Forall₂ (·.Reports ·) (tradeLoop.run builder events).2 (orderFills events) := by
  refine Machine.forall₂_run (fun builder e he => ?_) builder
  cases e with
  | orderFilled fill => exact .cons (tradeEntries_reports builder (htyped _ he)) .nil
  | _ => exact .nil

/-- A message of book updates, unless it is empty. -/
def bookMessages (msg : MDIncrementalRefreshBook46) : List Mdp3Message :=
  if msg.entries = [] then [] else [.book msg]

/-- A message of trades, unless it is empty. -/
def tradeMessages (msg : MDIncrementalRefreshTradeSummary48) : List Mdp3Message :=
  if msg.mdEntries = [] then [] else [.tradeSummary msg]

/-- The message of the updates skips the other events. -/
theorem bookRefresh_filter (builder : IncrementalBuilder) (events : List EngineEvent)
    (transactTime : Timestamp) :
    builder.bookRefresh (events.filter isBookUpdate) transactTime =
      builder.bookRefresh events transactTime := by
  have hskip : ∀ builder e, isBookUpdate e = false → bookLoop.step builder e = (builder, []) := by
    intro builder e he
    cases e <;> first | rfl | contradiction
  simp only [bookRefresh, Machine.run_filter hskip]

/-- The message of the trades skips the other events. -/
theorem tradeSummary_filter (builder : IncrementalBuilder) (events : List EngineEvent)
    (transactTime : Timestamp) :
    builder.tradeSummary (events.filter isOrderFilled) transactTime =
      builder.tradeSummary events transactTime := by
  have hskip : ∀ builder e, isOrderFilled e = false →
      tradeLoop.step builder e = (builder, []) := by
    intro builder e he
    cases e <;> first | rfl | contradiction
  simp only [tradeSummary, Machine.run_filter hskip]

/-- The payload is the bytes of the two messages. -/
theorem packet_eq (builder : IncrementalBuilder) (events : List EngineEvent)
    (transactTime : Timestamp) :
    let book := builder.bookRefresh events transactTime
    let trades := book.1.tradeSummary events transactTime
    (builder.buildIncrementalPacket events transactTime).2 =
      (bookMessages book.2 ++ tradeMessages trades.2).flatMap Mdp3Message.toBytes := by
  simp only [buildIncrementalPacket, buildBookRefresh, buildTradeSummary, bookRefresh_filter,
    tradeSummary_filter, List.flatMap_append, bookMessages, tradeMessages]
  congr 1 <;> split <;> simp [Mdp3Message.toBytes]

theorem reportsBook_bookMessages {updates : List BookUpdate} {msg : MDIncrementalRefreshBook46}
    (hreports : List.Forall₂ (·.Reports ·) msg.entries updates) :
    ReportsBook updates (bookMessages msg) := by
  unfold ReportsBook bookMessages
  have hempty : msg.entries = [] ↔ updates = [] := by
    rw [← List.length_eq_zero_iff, hreports.length_eq, List.length_eq_zero_iff]
  by_cases hupdates : updates = []
  · rw [if_pos hupdates, if_pos (hempty.mpr hupdates)]
  · rw [if_neg hupdates, if_neg (mt hempty.mp hupdates)]
    exact ⟨msg, rfl, hreports⟩

theorem orders_of_reports {trades : List TradeEntries} {fills : List OrderFilled}
    (hreports : List.Forall₂ (·.Reports ·) trades fills) :
    (trades.flatMap fun trade => [trade.makerOid, trade.takerOid]).map (·.orderID.toNat) =
      fills.flatMap fun fill => [fill.makerOrderId, fill.takerOrderId] := by
  induction hreports with
  | nil => rfl
  | cons htrade hrest ih =>
      rw [List.flatMap_cons, List.map_append, htrade.orders_eq, ih, List.flatMap_cons]

theorem reportsTrades_tradeMessages {trades : List TradeEntries} {fills : List OrderFilled}
    {msg : MDIncrementalRefreshTradeSummary48}
    (hentries : msg.mdEntries = trades.map (·.mdEntry))
    (horders : msg.orderIDEntries = trades.flatMap fun trade => [trade.makerOid, trade.takerOid])
    (hreports : List.Forall₂ (·.Reports ·) trades fills) :
    ReportsTrades fills (tradeMessages msg) := by
  unfold ReportsTrades tradeMessages
  have hempty : msg.mdEntries = [] ↔ fills = [] := by
    rw [hentries, List.map_eq_nil_iff, ← List.length_eq_zero_iff, hreports.length_eq,
      List.length_eq_zero_iff]
  by_cases hfills : fills = []
  · rw [if_pos hfills, if_pos (hempty.mpr hfills)]
  · rw [if_neg hfills, if_neg (mt hempty.mp hfills)]
    refine ⟨msg, rfl, ?_, ?_⟩
    · rw [hentries, List.forall₂_map_left_iff]
      exact hreports.imp fun trade fill htrade => htrade.mdEntry_reports
    · rw [horders]
      exact orders_of_reports hreports

/-- What the entries of a message say fits their bytes. -/
theorem fits_of_reports {entries : List MDIncrementalRefreshBook46.Entry}
    {updates : List BookUpdate} (hreports : List.Forall₂ (·.Reports ·) entries updates) :
    ∀ u ∈ updates, u.Fits := by
  induction hreports with
  | nil => simp
  | @cons entry u entries updates hentry hrest ih =>
      have hbyte := entry.mdPriceLevel.toNat_lt
      have hlevel := hentry.level_eq
      have hfits : u.Fits := ⟨by omega, hentry.side_eq.imp And.right And.right⟩
      exact List.forall_mem_cons.mpr ⟨hfits, ih⟩

/-- What a receiver finds in a payload has come through its bytes. -/
theorem fits_of_losesNothing {payload : List UInt8} (hlossless : LosesNothing events payload) :
    (bookUpdates events).length ≤ 255 ∧ (∀ u ∈ bookUpdates events, u.Fits) ∧
      2 * (orderFills events).length ≤ 255 := by
  rcases hlossless with ⟨book, trades, hwalk, hbook, htrades⟩
  have hcounted := Mdp3Message.counted_of_walk hwalk
  rw [List.forall_mem_append] at hcounted
  have hupdates : (bookUpdates events).length ≤ 255 ∧ ∀ u ∈ bookUpdates events, u.Fits := by
    by_cases hnone : bookUpdates events = []
    · simp [hnone]
    · rw [ReportsBook, if_neg hnone] at hbook
      rcases hbook with ⟨msg, rfl, hreports⟩
      exact ⟨hreports.length_eq ▸ hcounted.1 _ List.mem_cons_self, fits_of_reports hreports⟩
  have hfills : 2 * (orderFills events).length ≤ 255 := by
    by_cases hnone : orderFills events = []
    · simp [hnone]
    · rw [ReportsTrades, if_neg hnone] at htrades
      rcases htrades with ⟨msg, rfl, -, horders⟩
      have hlength := congrArg List.length horders
      have hbyte := (hcounted.2 _ List.mem_cons_self).2
      simp at hlength
      omega
  exact ⟨hupdates.1, hupdates.2, hfills⟩

theorem length_bookLoop (builder : IncrementalBuilder) (events : List EngineEvent) :
    (bookLoop.run builder events).2.length = (bookUpdates events).length := by
  refine (Machine.forall₂_run (R := fun _ _ => True) (fun builder e _ => ?_) builder).length_eq
  cases e with
  | bookUpdate u => exact .cons trivial .nil
  | _ => exact .nil

theorem length_tradeLoop (builder : IncrementalBuilder) (events : List EngineEvent) :
    (tradeLoop.run builder events).2.length = (orderFills events).length := by
  refine (Machine.forall₂_run (R := fun _ _ => True) (fun builder e _ => ?_) builder).length_eq
  cases e with
  | orderFilled fill => exact .cons trivial .nil
  | _ => exact .nil

/-- A receiver finds the messages of a batch whose numbers fit the bytes. -/
theorem walk_packet (builder : IncrementalBuilder) (transactTime : Timestamp)
    (hupdates : (bookUpdates events).length ≤ 255)
    (hfills : 2 * (orderFills events).length ≤ 255) :
    let book := builder.bookRefresh events transactTime
    let trades := book.1.tradeSummary events transactTime
    Mdp3Message.walk (builder.buildIncrementalPacket events transactTime).2 =
      some (bookMessages book.2 ++ tradeMessages trades.2) := by
  intro book trades
  have hbook : book.2.entries.length = (bookUpdates events).length :=
    length_bookLoop builder events
  have htrades := length_tradeLoop (builder.bookRefresh events transactTime).1 events
  rw [packet_eq]
  apply Mdp3Message.walk_toBytes
  rw [List.forall_mem_append]
  constructor
  · unfold bookMessages
    split
    · simp
    · rw [List.forall_mem_singleton]
      exact hbook.trans_le hupdates
  · unfold tradeMessages
    split
    · simp
    · rw [List.forall_mem_singleton]
      constructor
      · simp only [tradeSummary, List.length_map]
        omega
      · simp [tradeSummary]
        omega

/-- A batch that fits the bytes is found in its payload. -/
theorem losesNothing_of_fits (builder : IncrementalBuilder) (transactTime : Timestamp)
    (htyped : ∀ e ∈ events, e.Typed) (hupdates : (bookUpdates events).length ≤ 255)
    (hfits : ∀ u ∈ bookUpdates events, u.Fits) (hfills : 2 * (orderFills events).length ≤ 255) :
    LosesNothing events (builder.buildIncrementalPacket events transactTime).2 := by
  have hbook := bookLoop_reports builder htyped hfits
  have htrades := tradeLoop_reports (builder.bookRefresh events transactTime).1 htyped
  exact ⟨_, _, walk_packet builder transactTime hupdates hfills, reportsBook_bookMessages hbook,
    reportsTrades_tradeMessages rfl rfl htrades⟩

/-- A receiver finds the events of a batch in its payload, and the end of the payload
behind them, exactly when bytes count the updates, their levels and the orders that
trade, and every update is on a side. -/
theorem losesNothing_iff (builder : IncrementalBuilder) (events : List EngineEvent)
    (transactTime : Timestamp) (htyped : ∀ e ∈ events, e.Typed) :
    LosesNothing events (builder.buildIncrementalPacket events transactTime).2 ↔
      (bookUpdates events).length ≤ 255 ∧
        (∀ u ∈ bookUpdates events, u.priceLevelIndex ≤ 255 ∧ u.side.Listed) ∧
        2 * (orderFills events).length ≤ 255 :=
  ⟨fits_of_losesNothing, fun ⟨hupdates, hfits, hfills⟩ =>
    losesNothing_of_fits builder transactTime htyped hupdates hfits hfills⟩

/-- The update of a level that one order of ten rests at. -/
def oneUpdate : BookUpdate where
  securityId := 1
  side := .buy
  price := ⟨100⟩
  newQty := 10
  newOrderCount := 1
  updateAction := .new
  priceLevelIndex := 1
  rptSeq := 1

theorem losesNothing_oneUpdate :
    LosesNothing [.bookUpdate oneUpdate]
      (buildIncrementalPacket {} [.bookUpdate oneUpdate] 0).2 := by
  have htyped : ∀ e ∈ [EngineEvent.bookUpdate oneUpdate], e.Typed := by
    rw [List.forall_mem_singleton]
    exact ⟨by decide, by decide, by decide⟩
  exact (losesNothing_iff {} _ 0 htyped).mpr (by decide)

/-- One update more than a byte counts. -/
theorem not_losesNothing_256 :
    ¬LosesNothing (List.replicate 256 (.bookUpdate oneUpdate))
      (buildIncrementalPacket {} (List.replicate 256 (.bookUpdate oneUpdate)) 0).2 := by
  intro hlossless
  have hupdates := (fits_of_losesNothing hlossless).1
  exact absurd hupdates (by decide +kernel)

end IncrementalBuilder

end SimCme
