import SimCme.Gateway.Answers
import SimCme.MarketData.Feed

/-!
# Trading status

The status of an instrument is checked when a new order is received, not when its command
is taken off the queue, and modifications are not checked at all.  A trade therefore
happens in a halted or closed instrument when the status changes while a command waits, or
when a resting order is moved into the opposite side.  This file proves that nothing else
leads to one.

Main results:

- Theorem {lit}`exists_fill_iff`: the operations that trade, by the state they start from.
- Theorem {lit}`Exchange.tradesOpen_iff`: the steps that trade in an open instrument only.
- Theorem {lit}`no_trade_when_halted`: the runs all trades of which happen in an open
  instrument.
-/

namespace SimCme

open Library

/-! ## Operations that trade -/

/-- The order an operation matches has quantity left, and the order in front of the
opposite side is within its limit. -/
def BookOp.Crosses (s : BookState) (op : BookOp) : Prop :=
  ∃ o ∈ op.taker s, 0 < o.remainingQty ∧
    ∃ r ∈ (s.book.queued (OrderBook.takerSide o)).head?, crosses s.heap o r = true

instance (s : BookState) (op : BookOp) : Decidable (op.Crosses s) :=
  inferInstanceAs (Decidable (∃ o ∈ op.taker s, 0 < o.remainingQty ∧
    ∃ r ∈ (s.book.queued (OrderBook.takerSide o)).head?, crosses s.heap o r = true))

/-- A walk allocates something exactly when there is a demand and the first offer is
acceptable. -/
theorem offerFills_ne_nil_iff {β : Type} (key : Order → Int → β) (h : Heap Order) (o : Order)
    (offers : List OrderRef) :
    OrderBook.offerFills key (OrderBook.takerStop o) h o.remainingQty offers ≠ [] ↔
      0 < o.remainingQty ∧ ∃ r ∈ offers.head?, crosses h o r = true := by
  cases offers with
  | nil => simp [OrderBook.offerFills, allocate]
  | cons r offers =>
      by_cases hneed : o.remainingQty ≤ 0
      · simp [OrderBook.offerFills, allocate, hneed, not_lt.mpr hneed]
      · by_cases hr : crosses h o r = true
        · have hstop : OrderBook.takerStop o (h.read r).price = false := by
            simpa [crosses] using hr
          simp [OrderBook.offerFills, allocate, hneed, hstop, hr, not_le.mp hneed]
        · have hstop : OrderBook.takerStop o (h.read r).price = true := by
            simpa [crosses] using hr
          simp [OrderBook.offerFills, allocate, hneed, hstop, hr]

/-- An operation trades exactly when the order it matches meets one to trade with. -/
theorem exists_fill_iff {s : BookState} {op : BookOp} (hinv : BookInv s.heap s.book)
    (hfresh : op.Fresh s) :
    orderFills (s.outcome op).events ≠ [] ↔ op.Crosses s := by
  have hshows : OrderBook.Shows (fun _ => ()) fun _ _ => () := fun _ _ _ _ => rfl
  have hfills := fillsOf_outcome hshows hinv hfresh
  have hsame : orderFills (s.outcome op).events = [] ↔
      fillsOf (fun _ => ()) (s.outcome op).events = [] := by
    unfold orderFills fillsOf
    rw [List.filterMap_eq_nil_iff, List.filterMap_eq_nil_iff]
    apply forall₂_congr
    intro e _
    cases e <;> simp
  rw [ne_eq, hsame, hfills]
  unfold BookOp.Crosses
  cases htaker : op.taker s with
  | none => simp
  | some o =>
      simp only [Option.map_some, Option.getD_some, Option.mem_def, Option.some.injEq,
        exists_eq_left']
      exact offerFills_ne_nil_iff _ s.heap o _

/-! ## Instruments that are open -/

/-- The status validation asks for. -/
def InstrumentManager.isTrading (mgr : InstrumentManager) (s : SecurityId) : Bool :=
  match mgr.findBySecurityId s with
  | none => false
  | some instr => instr.tradingStatus = .open || instr.tradingStatus = .preOpen

namespace Exchange

variable {x : Exchange} {op : ExchangeOp}

/-- All trades of a step are in instruments that are open when it is taken. -/
def TradesOpen (x : Exchange) (op : ExchangeOp) : Prop :=
  ∀ f ∈ orderFills (x.outcome op).events,
    x.gateway.instrumentMgr.isTrading f.securityId = true

/-- A request that meets an order to trade with reaches the book of an instrument that is
open when it is made. -/
def Orderly (x : Exchange) (op : ExchangeOp) : Prop :=
  ∀ eop ∈ x.request op, ∀ routed ∈ x.engine.route eop,
    routed.2.Crosses (x.engine.bookState routed.1) →
      x.gateway.instrumentMgr.isTrading routed.1 = true

/-- What the trades of a step depend on. -/
structure Trading (x : Exchange) : Prop where
  exchange_inv : ExchangeInv x
  feed : ∃ es, FeedTracks es x.engine

theorem Trading.init (mgr : InstrumentManager) (config : RiskConfig) :
    Trading (.init mgr config) where
  exchange_inv := .init mgr config
  feed := ⟨[], FeedTracks.empty⟩

theorem Trading.step (hx : Trading x) (op : ExchangeOp) : Trading (x.outcome op).exchange where
  exchange_inv := hx.exchange_inv.step op
  feed := by
    rcases hx.feed with ⟨es, hfeed⟩
    cases hrequest : x.request op with
    | none =>
        rw [ExchangeInv.engine_of_no_request hrequest]
        exact ⟨es, hfeed⟩
    | some eop =>
        rw [ExchangeInv.engine_of_request hrequest]
        exact ⟨_, hfeed.step hx.exchange_inv.engine_inv
          (hx.exchange_inv.request_fresh hrequest)⟩

/-- A step trades in an open instrument only exactly when its request does not find an
order to trade with in another one. -/
theorem tradesOpen_iff (hx : Trading x) (op : ExchangeOp) :
    x.TradesOpen op ↔ x.Orderly op := by
  unfold TradesOpen Orderly
  have houtcome := x.outcome_engine op
  cases hrequest : x.request op with
  | none =>
      rw [hrequest, Prod.mk.injEq] at houtcome
      simp [houtcome.2, orderFills]
  | some eop =>
      rw [hrequest, Prod.mk.injEq] at houtcome
      have hfresh := hx.exchange_inv.request_fresh hrequest
      simp only [Option.mem_def, Option.some.injEq, forall_eq']
      rw [houtcome.2]
      cases hroute : x.engine.route eop with
      | none =>
          rcases FullMatchingEngine.step_of_not_routed hroute with ⟨-, -, hevents⟩
          rcases hevents with hevents | ⟨y, hevents⟩ | ⟨y, hevents⟩ <;>
            simp [hevents, orderFills]
      | some routed =>
          rcases routed with ⟨s, bop⟩
          rcases hx.feed with ⟨es, hfeed⟩
          have hinv := hx.exchange_inv.engine_inv
          have hown := (hfeed.bookFeed_of_route hinv hfresh hroute).own
          have hfills : orderFills (x.engine.outcome eop).events ≠ [] ↔
              bop.Crosses (x.engine.bookState s) := by
            rw [(FullMatchingEngine.outcome_of_route hroute).1]
            exact exists_fill_iff (hinv.book_inv s) (hinv.fresh_of_route hroute hfresh)
          have hsecurity : ∀ f ∈ orderFills (x.engine.outcome eop).events,
              f.securityId = s := by
            intro f hf
            rcases List.mem_filterMap.mp hf with ⟨e, he, hfill⟩
            cases e with
            | orderFilled f' =>
                cases hfill
                exact hown _ he _ rfl
            | _ => contradiction
          simp only [Option.some.injEq, forall_eq']
          rw [← hfills]
          constructor
          · intro hopen hne
            rcases List.exists_mem_of_ne_nil _ hne with ⟨f, hf⟩
            rw [← hsecurity f hf]
            exact hopen f hf
          · intro horderly f hf
            rw [hsecurity f hf]
            exact horderly (List.ne_nil_of_mem hf)

instance (x : Exchange) (op : ExchangeOp) : Decidable (x.TradesOpen op) :=
  inferInstanceAs (Decidable (∀ f ∈ orderFills (x.outcome op).events,
    x.gateway.instrumentMgr.isTrading f.securityId = true))

end Exchange

/-- Along a run every trade happens in an instrument that is open or about to open exactly
when every new order or modification that meets an order to trade with is taken off the
queue while its instrument is. -/
theorem no_trade_when_halted (mgr : InstrumentManager) (config : RiskConfig)
    (ops : List ExchangeOp) :
    Exchange.machine.Admits Exchange.TradesOpen (.init mgr config) ops ↔
      Exchange.machine.Admits Exchange.Orderly (.init mgr config) ops :=
  Machine.admits_congr (P := Exchange.Trading) (fun _ op hx => Exchange.tradesOpen_iff hx op)
    (fun _ op hx => hx.step op) (.init mgr config) ops

/-- A bid is moved up to an offer in a halted instrument, and a bid that crosses an offer
waits in the queue while the instrument is closed: both trade. -/
theorem trade_when_halted :
    let mgr : InstrumentManager := .single { securityId := 7, tickMantissa := 25 }
    let clock : Clock := { order := fun _ => 0, report := fun _ => 0 }
    let offer : ExchangeOp := .message 3 2000000000 (.newOrderSingle
      { price := 125, orderQty := 5, securityID := 7, side := 2, ordType := 2 })
    let bid (price : Int64) : ExchangeOp := .message 4 2000000001 (.newOrderSingle
      { price := price, orderQty := 5, securityID := 7, side := 1, ordType := 2 })
    let move : ExchangeOp := .message 4 2000000002 (.orderCancelReplaceRequest
      { price := 125, orderQty := 5, securityID := 7, orderID := 2 })
    let moved : List ExchangeOp :=
      [.addInstrument 7, offer, .processNext clock, bid 100, .processNext clock,
        .setTradingStatus 7 .halt, move, .processNext clock]
    let waited : List ExchangeOp :=
      [.addInstrument 7, offer, .processNext clock, bid 125, .setTradingStatus 7 .close,
        .processNext clock]
    ¬Exchange.machine.Admits Exchange.TradesOpen (.init mgr {}) moved ∧
      ¬Exchange.machine.Admits Exchange.TradesOpen (.init mgr {}) waited := by
  decide +kernel

end SimCme
