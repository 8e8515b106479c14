import SimCme.Engine.Coverage
import SimCme.Gateway.GatewayRuns

/-!
# Pre-trade checks

Every resting order should be on a tick and within the limits of its instrument
and of the exchange.  The checks let two things through: no check looks at the
side of a new order, and the check of a modification has no consequence.  This
file proves that a run in which no command brings such an order to rest keeps the
book within its limits.

Main results:

- Theorem {lit}`permitted_step`: one step of the exchange, from the orders it
  brings to rest.
- Theorem {lit}`resting_orders_pass_checks`: every resting order after every such
  run.
-/

namespace SimCme

open Library

/-- What the checks are to make sure of for a resting order. -/
structure PassesChecks (instr : Instrument) (maxOrderQty : Int) (order : Order) : Prop where
  side_listed : order.side.Listed
  on_tick : instr.isValidTick order.price = true
  min_le : instr.minTradeVol ≤ order.quantity
  le_max : order.quantity ≤ instr.maxTradeVol
  le_order_limit : order.quantity ≤ maxOrderQty

instance (instr : Instrument) (maxOrderQty : Int) (orderType : OrderType) (price : Price)
    (quantity : Int) : Decidable (WithinLimits instr maxOrderQty orderType price quantity) :=
  decidable_of_iff ((orderType = .limit → instr.isValidTick price = true) ∧
      instr.minTradeVol ≤ quantity ∧ quantity ≤ instr.maxTradeVol ∧ quantity ≤ maxOrderQty)
    ⟨fun h => ⟨h.1, h.2.1, h.2.2.1, h.2.2.2⟩,
      fun h => ⟨h.on_tick, h.min_le, h.le_max, h.le_order_limit⟩⟩

instance (o : Order) : Decidable o.Restable :=
  inferInstanceAs (Decidable (o.orderType = .limit ∧ o.timeInForce ≠ .ioc ∧
    o.timeInForce ≠ .fok))

/-- A new order that the checks let through has a listed side, or does not come to
rest. -/
abbrev Exchange.ScreensNew (x : Exchange) (order : Order) : Prop :=
  order.status = .rejected ∨ ∀ book ∈ x.engine.orderBooks order.securityId,
    order.side.Listed ∨ ¬order.Restable ∨
      order.quantity ≤ book.crossingQty x.engine.heap order

/-- A resting order is modified to a price and a quantity within the limits, or does
not come to rest again. -/
abbrev Exchange.ScreensModify (x : Exchange) (orderId : OrderId) (securityId : SecurityId)
    (newPrice : Price) (newQty : Int) (newClOrdId : ClOrdId) : Prop :=
  ∀ book ∈ x.engine.orderBooks (x.engine.routeSecurity orderId securityId),
    ∀ r ∈ book.ordersById orderId,
      (∃ instr ∈ x.gateway.instrumentMgr.findBySecurityId (x.engine.heap.read r).securityId,
        WithinLimits instr x.gateway.riskManager.config.maxOrderQty .limit newPrice newQty) ∨
      newQty - (x.engine.heap.read r).filledQty ≤ book.crossingQty x.engine.heap
        (OrderBook.modifiedOrder (x.engine.heap.read r) newPrice newQty newClOrdId)

/-- The order a command brings to rest is one the checks are for. -/
def CommandType.Screened (x : Exchange) (orderId : OrderId) (securityId : SecurityId) :
    CommandType → Prop
  | .newOrder order => x.ScreensNew order
  | .cancelOrder => True
  | .modifyOrder newPrice newQty newClOrdId =>
      x.ScreensModify orderId securityId newPrice newQty newClOrdId

instance (x : Exchange) (orderId : OrderId) (securityId : SecurityId) :
    (type : CommandType) → Decidable (type.Screened x orderId securityId)
  | .newOrder order => inferInstanceAs (Decidable (x.ScreensNew order))
  | .cancelOrder => .isTrue trivial
  | .modifyOrder newPrice newQty newClOrdId =>
      inferInstanceAs (Decidable
        (x.ScreensModify orderId securityId newPrice newQty newClOrdId))

/-- Every step processes a command that is screened. -/
def ExchangeOp.Screened (x : Exchange) : ExchangeOp → Prop
  | .processNext _ =>
      ∀ cmd ∈ x.gateway.commandQueue.head?,
        cmd.type.Screened x cmd.cancelOrderId cmd.securityId
  | _ => True

instance (x : Exchange) : (op : ExchangeOp) → Decidable (op.Screened x)
  | .addInstrument _ => .isTrue trivial
  | .setTradingStatus _ _ => .isTrue trivial
  | .message _ _ _ => .isTrue trivial
  | .processNext _ =>
      inferInstanceAs (Decidable (∀ cmd ∈ x.gateway.commandQueue.head?,
        cmd.type.Screened x cmd.cancelOrderId cmd.securityId))

/-! ## Resting orders -/

/-- What holds of the resting orders of a screened run. -/
def InstrumentManager.Passes (mgr : InstrumentManager) (maxOrderQty : Int)
    (order : Order) : Prop :=
  order.side.Listed ∧ mgr.Permits maxOrderQty order

theorem InstrumentManager.passes_of_terms (mgr : InstrumentManager) (maxOrderQty : Int)
    (o o' : Order) (hterms : o'.terms = o.terms) (hpasses : mgr.Passes maxOrderQty o) :
    mgr.Passes maxOrderQty o' := by
  rw [Order.field_of_terms (mgr.Passes maxOrderQty) hterms fun _ => rfl]
  exact hpasses

/-- The resting orders of every book have a property that operations on other books
cannot touch. -/
theorem restingOrders_engineLaw {Q : Order → Prop}
    (hterms : ∀ o o' : Order, o'.terms = o.terms → Q o → Q o') :
    EngineLaw (fun _ st op => op.RestsOnly Q st) fun _ => RestingOrders Q where
  law _ := restingOrders_law hterms
  turnedAway _ _ hP := ⟨hP.resting, hP.inHand⟩
  frame := by
    intro s s' es new h h' b b' _ hinv _ hsecurity _ hread _ _ hP _
    refine ⟨?_, by simp⟩
    intro r hr
    rw [hread r (hinv.allocated r hr) (hsecurity r hr)]
    exact hP.resting r hr

/-- A screened command makes a request that brings to rest only orders that pass. -/
theorem OrderCommand.restsOnly_of_screened {x : Exchange} (hinv : ExchangeInv x)
    (hpasses : ∀ s r, (x.engine.bookAt s).Resting r →
      x.gateway.instrumentMgr.Passes x.gateway.riskManager.config.maxOrderQty
        (x.engine.heap.read r))
    {cmd : OrderCommand} (hhead : cmd ∈ x.gateway.commandQueue)
    (hscreened : cmd.type.Screened x cmd.cancelOrderId cmd.securityId) {clock : Clock}
    {eop : EngineOp} (hrequest : cmd.request clock x.engine = some eop) :
    EngineLaw.Admitted (fun _ st op => op.RestsOnly
      (x.gateway.instrumentMgr.Passes x.gateway.riskManager.config.maxOrderQty) st)
      x.engine eop := by
  intro s bop hroute o htaker
  have hsound := hinv.queue_sound cmd hhead
  rcases FullMatchingEngine.routed_of_route hroute with ⟨book, hrouted⟩
  cases OrderCommand.requests_of_request hrequest with
  | @newOrder order htype hnot =>
      cases hrouted with | submit hbook
      rw [htype] at hscreened
      rcases hsound order htype with ⟨-, hfilled, hstatus⟩
      have ho : x.engine.stamped order (clock.order x.engine.nextOrderId) = o := by
        simp only [BookOp.taker] at htaker
        split at htaker
        · contradiction
        · exact Option.some.inj htaker
      subst ho
      rcases hscreened.resolve_left hnot book hbook with hside | hrestable | hcovered
      · exact Or.inl ⟨hside, (hstatus.resolve_left hnot).2⟩
      · exact Or.inr (Or.inl hrestable)
      · right
        right
        rw [FullMatchingEngine.bookState, FullMatchingEngine.bookAt_of_some hbook]
        refine le_trans ?_ hcovered
        have hquantity : (x.engine.stamped order
            (clock.order x.engine.nextOrderId)).remainingQty =
            order.quantity - order.filledQty := rfl
        omega
  | cancelOrder htype =>
      cases hrouted with | cancel hbook
      contradiction
  | modifyOrder htype =>
      cases hrouted with | modify hbook
      rw [htype] at hscreened
      simp only [BookOp.taker, FullMatchingEngine.bookState,
        FullMatchingEngine.bookAt_of_some hbook, Option.map_eq_some_iff] at htaker ⊢
      rcases htaker with ⟨r, hr, rfl⟩
      rcases hscreened book hbook r hr with ⟨instr, hfind, hlimits⟩ | hcovered
      · have hbookInv := hinv.engine_inv.book_inv
          (x.engine.routeSecurity cmd.cancelOrderId cmd.securityId)
        have hresting := hpasses (x.engine.routeSecurity cmd.cancelOrderId cmd.securityId) r
        rw [FullMatchingEngine.bookAt_of_some hbook] at hbookInv hresting
        have hside := (hresting ((hbookInv.indexed _ r).mp hr).1).1
        exact Or.inl ⟨hside, instr, hfind, fun _ => hlimits.on_tick rfl, hlimits.min_le,
          hlimits.le_max, hlimits.le_order_limit⟩
      · exact Or.inr (Or.inr hcovered)

/-- No step takes a limit away or lowers it. -/
theorem Exchange.passes_outcome {x : Exchange} {o : Order} (op : ExchangeOp)
    (hpasses : x.gateway.instrumentMgr.Passes x.gateway.riskManager.config.maxOrderQty o) :
    (x.outcome op).exchange.gateway.instrumentMgr.Passes
      (x.outcome op).exchange.gateway.riskManager.config.maxOrderQty o := by
  rw [x.config_outcome]
  cases op with
  | addInstrument securityId => exact hpasses
  | setTradingStatus securityId status =>
      exact ⟨hpasses.1, hpasses.2.setTradingStatus securityId status⟩
  | message sessionUuid now msg => cases msg <;> exact hpasses
  | processNext clock =>
      simp only [Exchange.outcome, x.instrumentMgr_processNext]
      exact hpasses

/-- One step of the exchange keeps the resting orders within the checks. -/
theorem permitted_step {x : Exchange} (hinv : ExchangeInv x)
    (hpasses : ∀ s r, (x.engine.bookAt s).Resting r →
      x.gateway.instrumentMgr.Passes x.gateway.riskManager.config.maxOrderQty
        (x.engine.heap.read r))
    {op : ExchangeOp} (hscreened : op.Screened x) :
    ∀ s r, ((x.outcome op).exchange.engine.bookAt s).Resting r →
      (x.outcome op).exchange.gateway.instrumentMgr.Passes
        (x.outcome op).exchange.gateway.riskManager.config.maxOrderQty
        ((x.outcome op).exchange.engine.heap.read r) := by
  intro s r hr
  apply Exchange.passes_outcome op
  have hadmitted : ∀ eop, x.request op = some eop →
      EngineLaw.Admitted (fun _ st op => op.RestsOnly
        (x.gateway.instrumentMgr.Passes x.gateway.riskManager.config.maxOrderQty) st)
        x.engine eop := by
    apply ExchangeInv.admitted_of_command
    rintro clock cmd eop rfl hcmd hrequest
    exact OrderCommand.restsOnly_of_screened hinv hpasses (List.mem_of_head? hcmd)
      (hscreened cmd hcmd) hrequest
  have hbefore : ∀ s, RestingOrders (x.gateway.instrumentMgr.Passes
      x.gateway.riskManager.config.maxOrderQty) none [] x.engine.heap (x.engine.bookAt s) :=
    fun s => ⟨hpasses s, by simp⟩
  have hafter := ExchangeInv.law_outcome (restingOrders_engineLaw
    (x.gateway.instrumentMgr.passes_of_terms x.gateway.riskManager.config.maxOrderQty))
    hinv hadmitted hbefore s
  exact hafter.resting r hr

/-- Along every run whose commands are all screened, every order resting in a book
passes the checks of the instrument the book is for. -/
theorem resting_orders_pass_checks (mgr : InstrumentManager) (config : RiskConfig)
    (ops : List ExchangeOp)
    (hadmits : Exchange.machine.Admits (fun x op => op.Screened x) (.init mgr config) ops) :
    let x := (Exchange.machine.run (.init mgr config) ops).1
    ∀ s book r, x.engine.orderBooks s = some book → book.Resting r →
      ∃ instr, x.gateway.instrumentMgr.findBySecurityId s = some instr ∧
        PassesChecks instr config.maxOrderQty (x.engine.heap.read r) := by
  have hrun := Machine.state_invariant
    (P := fun x => ExchangeInv x ∧ ∀ s r, (x.engine.bookAt s).Resting r →
      x.gateway.instrumentMgr.Passes x.gateway.riskManager.config.maxOrderQty
        (x.engine.heap.read r))
    ⟨ExchangeInv.init mgr config, fun s r hr => (BookInv.not_resting_empty s r hr).elim⟩
    (fun x op hx hop => ⟨hx.1.step op, permitted_step hx.1 hx.2 hop⟩) ops hadmits
  have hconfig := (ExchangeInv.run mgr config ops).2
  intro x s book r hbook hr
  have hbookInv := hrun.1.engine_inv.book_inv s
  have hpasses := hrun.2 s r
  have hsecurity := hrun.1.engine_inv.resting_security s r
  rw [FullMatchingEngine.bookAt_of_some hbook] at hbookInv hpasses hsecurity
  rcases hpasses hr with ⟨hside, instr, hfind, hlimits⟩
  rw [hsecurity hr] at hfind
  rw [hconfig] at hlimits
  refine ⟨instr, hfind, hside, ?_, hlimits.min_le, hlimits.le_max, hlimits.le_order_limit⟩
  exact hlimits.on_tick (hbookInv.restable_of_resting hr).1

/-- A bid enters and is moved to another tick. -/
theorem resting_orders_pass_checks_of_moved_bid :
    let mgr : InstrumentManager := .single { securityId := 7, tickMantissa := 25 }
    let config : RiskConfig := {}
    let clock : Clock := { order := fun _ => 0, report := fun _ => 0 }
    let ops : List ExchangeOp :=
      [.addInstrument 7,
        .message 1 2000000000 (.newOrderSingle
          { price := 100, orderQty := 5, securityID := 7, side := 1, ordType := 2 }),
        .processNext clock,
        .message 1 2000000001 (.orderCancelReplaceRequest
          { price := 125, orderQty := 7, securityID := 7, orderID := 1 }),
        .processNext clock]
    let x := (Exchange.machine.run (.init mgr config) ops).1
    ∀ s book r, x.engine.orderBooks s = some book → book.Resting r →
      ∃ instr, x.gateway.instrumentMgr.findBySecurityId s = some instr ∧
        PassesChecks instr config.maxOrderQty (x.engine.heap.read r) :=
  resting_orders_pass_checks _ _ _ (by decide)

/-- A bid that passed the checks is modified to a price off the ticks and a
quantity above every limit, and rests there. -/
theorem modified_bid_bypasses_checks :
    let mgr : InstrumentManager := .single { securityId := 7, tickMantissa := 25 }
    let config : RiskConfig := {}
    let clock : Clock := { order := fun _ => 0, report := fun _ => 0 }
    let ops : List ExchangeOp :=
      [.addInstrument 7,
        .message 1 2000000000 (.newOrderSingle
          { price := 100, orderQty := 5, securityID := 7, side := 1, ordType := 2 }),
        .processNext clock,
        .message 1 2000000001 (.orderCancelReplaceRequest
          { price := 101, orderQty := 20000, securityID := 7, orderID := 1 }),
        .processNext clock]
    let x := (Exchange.machine.run (.init mgr config) ops).1
    ¬∀ s book r, x.engine.orderBooks s = some book → book.Resting r →
      ∃ instr, x.gateway.instrumentMgr.findBySecurityId s = some instr ∧
        PassesChecks instr config.maxOrderQty (x.engine.heap.read r) := by
  intro mgr config clock ops x hpass
  have hsome : (x.engine.orderBooks 7).isSome = true := by decide
  have hresting : (x.engine.bookAt 7).Resting 0 := ⟨.bid, by decide⟩
  have htick : ∀ instr ∈ x.gateway.instrumentMgr.findBySecurityId 7,
      instr.isValidTick (x.engine.heap.read 0).price = false := by decide
  clear_value x
  rcases Option.isSome_iff_exists.mp hsome with ⟨book, hbook⟩
  rw [FullMatchingEngine.bookAt_of_some hbook] at hresting
  rcases hpass 7 book 0 hbook hresting with ⟨instr, hfind, hchecks⟩
  have hon := hchecks.on_tick
  rw [htick instr hfind] at hon
  contradiction

end SimCme
