import SimCme.Engine.Isolation
import SimCme.Gateway.GatewayRuns

/-!
# Control over orders

Cancellations and modifications reach a book by order id alone; neither the gateway
nor the engine compares the session of the command with the session of the order.
So an id gives control over the order whoever uses it, and nothing else does: a
command leaves every order it does not name alone, but for trades with the order it
submits or modifies.

Main results:

- Theorem {lit}`Exchange.isolated_processNext`: what a command leaves alone on a
  valid exchange.
- Theorem {lit}`command_isolates_orders`: the same on every reachable exchange.
-/

namespace SimCme

open Library

namespace OrderCommand

/-- A cancel or modify command for an order id. -/
def Names (cmd : OrderCommand) (id : OrderId) : Prop :=
  match cmd.type with
  | .newOrder _ => False
  | .cancelOrder => cmd.cancelOrderId = id
  | .modifyOrder _ _ _ => cmd.cancelOrderId = id

/-- A modify command for an order id. -/
def Modifies (cmd : OrderCommand) (id : OrderId) : Prop :=
  match cmd.type with
  | .modifyOrder _ _ _ => cmd.cancelOrderId = id
  | _ => False

/-- The orders a command trades: those of its sender, and the resting order it
modifies. -/
def Takes (cmd : OrderCommand) (e : FullMatchingEngine) (id : OrderId)
    (sessionUuid : SessionUuid) : Prop :=
  sessionUuid = cmd.sessionUuid ∨
    cmd.Modifies id ∧ ∃ s r, (e.bookAt s).Resting r ∧ (e.heap.read r).orderId = id ∧
      (e.heap.read r).sessionUuid = sessionUuid

/-- A command reaches a book with the order it brings or the id it names. -/
theorem actsOn_of_request {x : Exchange} (hinv : ExchangeInv x) {cmd : OrderCommand}
    (hmem : cmd ∈ x.gateway.commandQueue) {clock : Clock} {op : EngineOp}
    (hrequest : cmd.request clock x.engine = some op) :
    EngineLaw.Admitted (fun _ st bop => bop.ActsOn cmd.Names (cmd.Takes x.engine) st)
      x.engine op := by
  intro s bop hroute
  rcases FullMatchingEngine.routed_of_route hroute with ⟨book, hrouted⟩
  cases requests_of_request hrequest with
  | newOrder htype hstatus =>
      cases hrouted with | submit hbook
      exact Or.inl (hinv.queue_sound cmd hmem _ htype).1
  | cancelOrder htype =>
      cases hrouted with | cancel hbook
      simp [BookOp.ActsOn, Names, htype]
  | modifyOrder htype =>
      cases hrouted with | modify hbook
      refine ⟨by simp [Names, htype], ?_⟩
      intro r hr hid
      exact Or.inr ⟨by simp [Modifies, htype], _, r, hr, hid, rfl⟩

end OrderCommand

/-- Processing a command leaves the orders it does not name alone, on every book of a
valid exchange. -/
theorem Exchange.isolated_processNext {x : Exchange} (hinv : ExchangeInv x) (clock : Clock)
    {cmd : OrderCommand} {rest : List OrderCommand}
    (hqueue : x.gateway.commandQueue = cmd :: rest) (s : SecurityId) :
    let p := x.processNext clock
    Isolated cmd.Names (cmd.Takes x.engine) (x.engine.bookState s) none p.events
      p.exchange.engine.heap (p.exchange.engine.bookAt s) := by
  intro p
  have hadmitted : ∀ eop, x.request (.processNext clock) = some eop →
      EngineLaw.Admitted (fun _ st bop => bop.ActsOn cmd.Names (cmd.Takes x.engine) st)
        x.engine eop := by
    intro eop hrequest
    have hcommand : cmd.request clock x.engine = some eop := by
      simpa [Exchange.request, hqueue] using hrequest
    exact OrderCommand.actsOn_of_request hinv (by rw [hqueue]; exact List.mem_cons_self) hcommand
  have hbefore : ∀ s, Isolated cmd.Names (cmd.Takes x.engine) (x.engine.bookState s) none []
      x.engine.heap (x.engine.bookAt s) := fun _ => .refl hinv.engine_inv.ids_unique
  exact ExchangeInv.law_outcome (isolated_engineLaw hinv.engine_inv) hinv hadmitted hbefore s

/-- What a step leaves of a resting order when it changes the order by trades only. -/
structure LeftAlone (x : Exchange) (p : Processed) (s : SecurityId) (r : OrderRef) :
    Prop where
  price_eq : (p.exchange.engine.heap.read r).price = (x.engine.heap.read r).price
  quantity_eq : (p.exchange.engine.heap.read r).quantity = (x.engine.heap.read r).quantity
  clOrdId_eq : (p.exchange.engine.heap.read r).clOrdId = (x.engine.heap.read r).clOrdId
  filled_eq : (p.exchange.engine.heap.read r).filledQty =
    (x.engine.heap.read r).filledQty + filledIn p.events (x.engine.heap.read r).orderId
  stays : (p.exchange.engine.bookAt s).Resting r ∨
    (p.exchange.engine.heap.read r).remainingQty = 0

/-- On every reachable exchange the next command leaves every order it does not name
alone, but for trades with orders of its sender or with the order it modifies. -/
theorem command_isolates_orders (mgr : InstrumentManager) (config : RiskConfig)
    (ops : List ExchangeOp) (clock : Clock) (cmd : OrderCommand) (rest : List OrderCommand)
    (hqueue : (Exchange.machine.run (.init mgr config) ops).1.gateway.commandQueue =
      cmd :: rest) :
    let x := (Exchange.machine.run (.init mgr config) ops).1
    let p := x.processNext clock
    (∀ f, .orderFilled f ∈ p.events →
        cmd.Takes x.engine f.takerOrderId f.takerSessionUuid) ∧
      ∀ s r, (x.engine.bookAt s).Resting r → ¬cmd.Names (x.engine.heap.read r).orderId →
        LeftAlone x p s r := by
  intro x p
  have hinv := (ExchangeInv.run mgr config ops).1
  have hisolated := Exchange.isolated_processNext hinv clock hqueue
  refine ⟨(hisolated 0).fill_taker, ?_⟩
  intro s r hr hfree
  have hkept := (hisolated s).kept r hr hfree
  have hterms := hkept.1.terms_eq
  exact
    { price_eq := Order.field_of_terms Order.price hterms fun _ => rfl
      quantity_eq := Order.field_of_terms Order.quantity hterms fun _ => rfl
      clOrdId_eq := Order.field_of_terms Order.clOrdId hterms fun _ => rfl
      filled_eq := hkept.1.filled_eq
      stays := hkept.2 }

/-- A session modifies its ask into the bid of another session. -/
theorem command_isolates_orders_of_moved_ask :
    let mgr : InstrumentManager := .single { securityId := 7, tickMantissa := 25 }
    let clock : Clock := { order := fun _ => 0, report := fun _ => 0 }
    let ops : List ExchangeOp :=
      [.addInstrument 7,
        .message 1 2000000000 (.newOrderSingle
          { price := 100, orderQty := 5, securityID := 7, side := 1, ordType := 2 }),
        .message 2 2000000000 (.newOrderSingle
          { price := 125, orderQty := 3, securityID := 7, side := 2, ordType := 2 }),
        .processNext clock, .processNext clock,
        .message 2 2000000001 (.orderCancelReplaceRequest
          { price := 100, orderQty := 3, securityID := 7, orderID := 2 })]
    let cmd : OrderCommand :=
      { type := .modifyOrder ⟨100⟩ 3 [], sessionUuid := 2, cancelOrderId := 2, securityId := 7 }
    let x := (Exchange.machine.run (.init mgr {}) ops).1
    let p := x.processNext clock
    (∀ f, .orderFilled f ∈ p.events →
        cmd.Takes x.engine f.takerOrderId f.takerSessionUuid) ∧
      ∀ s r, (x.engine.bookAt s).Resting r → ¬cmd.Names (x.engine.heap.read r).orderId →
        LeftAlone x p s r :=
  command_isolates_orders _ _ _ _ _ [] (by decide)

/-- A session cancels the bid of another session. -/
theorem cancel_removes_order_of_other_session :
    let mgr : InstrumentManager := .single { securityId := 7, tickMantissa := 25 }
    let clock : Clock := { order := fun _ => 0, report := fun _ => 0 }
    let ops : List ExchangeOp :=
      [.addInstrument 7,
        .message 1 2000000000 (.newOrderSingle
          { price := 100, orderQty := 5, securityID := 7, side := 1, ordType := 2 }),
        .processNext clock,
        .message 2 2000000001 (.orderCancelRequest { orderID := 1, securityID := 7 })]
    let cmd : OrderCommand :=
      { type := .cancelOrder, sessionUuid := 2, cancelOrderId := 1, securityId := 7 }
    let x := (Exchange.machine.run (.init mgr {}) ops).1
    x.gateway.commandQueue = [cmd] ∧
      ¬∀ s r, (x.engine.bookAt s).Resting r →
        (x.engine.heap.read r).sessionUuid ≠ cmd.sessionUuid →
        LeftAlone x (x.processNext clock) s r := by
  intro mgr clock ops cmd x
  have hqueue : x.gateway.commandQueue = [cmd] := by decide
  have hresting : (x.engine.bookAt 7).Resting 0 := ⟨.bid, by decide⟩
  have hsession : (x.engine.heap.read 0).sessionUuid ≠ cmd.sessionUuid := by decide
  have hgone : ∀ s, 0 ∉ ((x.processNext clock).exchange.engine.bookAt 7).queued s := by
    intro s
    cases s <;> decide
  have hleft : ((x.processNext clock).exchange.engine.heap.read 0).remainingQty ≠ 0 := by decide
  clear_value x
  refine ⟨hqueue, ?_⟩
  intro halone
  rcases (halone 7 0 hresting hsession).stays with ⟨s, hs⟩ | hzero
  · exact hgone s hs
  · exact hleft hzero

end SimCme
