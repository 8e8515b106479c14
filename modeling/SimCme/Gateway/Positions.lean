import SimCme.Engine.FillSides
import SimCme.Gateway.GatewayRuns

/-!
# Positions

The gateway books every fill twice, once for the owner of the resting order and once for
the owner of the other one.  The side of the resting order is not in the fill; the handlers
infer it from the side of the aggressor.  So the net positions are the balances of a ledger
in which the seller hands each traded quantity to the buyer.

Main results:

- Theorem {lit}`Exchange.netPosition_outcome`: a step moves the positions by the fills it
  emits.
- Theorem {lit}`positions_conserved`: after every run the positions add up to zero and
  each one is what its session bought less what it sold.
-/

namespace SimCme

open Library

/-! ## What the gateway books -/

namespace RiskManager

def netPosition (risk : RiskManager) (uuid : SessionUuid) : Int :=
  (risk.sessionState uuid).netPosition

/-- Counting orders moves no position. -/
@[simp]
theorem netPosition_checkRate (risk : RiskManager) (sessionUuid : SessionUuid) (now : Int)
    (uuid : SessionUuid) :
    (risk.checkRate sessionUuid now).2.netPosition uuid = risk.netPosition uuid := by
  have hset : ∀ state : SessionRiskState,
      state.netPosition = (risk.sessionState sessionUuid).netPosition →
      (risk.setState sessionUuid state).netPosition uuid = risk.netPosition uuid := by
    intro state hstate
    simp only [netPosition, setState]
    split
    · rename_i heq
      rw [hstate, heq]
    · rfl
  simp only [checkRate]
  split
  · exact hset _ rfl
  · split <;> exact hset _ rfl

theorem netPosition_onFill (risk : RiskManager) (sessionUuid : SessionUuid) (side : Side)
    (qty : Int) (uuid : SessionUuid) :
    (risk.onFill sessionUuid side qty).netPosition uuid = risk.netPosition uuid +
      if sessionUuid = uuid then (if side = .buy then qty else -qty) else 0 := by
  simp only [netPosition, onFill, setState]
  by_cases huuid : uuid = sessionUuid
  · subst huuid
    simp only [if_true]
    split <;> omega
  · rw [if_neg huuid, if_neg (Ne.symm huuid), add_zero]

end RiskManager

namespace OrderEntryGateway

variable {handles : EngineEvent → Bool} {clock : Clock}

/-- The handlers of a fill book its ledger entry. -/
theorem netPosition_respond (g : OrderEntryGateway) (clock : Clock) (e : EngineEvent)
    (uuid : SessionUuid) :
    (g.respond clock e).1.riskManager.netPosition uuid =
      g.riskManager.netPosition uuid + positionIn [e] uuid := by
  cases e with
  | orderFilled f =>
      have hbooked : (g.respond clock (.orderFilled f)).1.riskManager =
          (g.riskManager.onFill f.makerSessionUuid
            (if f.aggressorSide = .buy then .sell else .buy) f.tradeQty).onFill
            f.takerSessionUuid f.aggressorSide f.tradeQty := rfl
      rw [hbooked, RiskManager.netPosition_onFill, RiskManager.netPosition_onFill,
        positionIn_orderFilled, add_assoc]
      congr 1
      unfold OrderFilled.transfer Transfer.entry
      by_cases hbuy : f.aggressorSide = .buy
      · simp only [hbuy, if_true, reduceCtorEq, if_false]
        split <;> split <;> omega
      · simp only [hbuy, if_true, if_false]
        split <;> split <;> omega
  | _ => exact (add_zero _).symm

/-- A dispatcher that handles all fills of a list of events books them. -/
theorem netPosition_responder (g : OrderEntryGateway) {es : List EngineEvent}
    (hhandles : ∀ f, .orderFilled f ∈ es → handles (.orderFilled f) = true)
    (uuid : SessionUuid) :
    ((responder handles clock).run g es).1.riskManager.netPosition uuid =
      g.riskManager.netPosition uuid + positionIn es uuid := by
  induction es generalizing g with
  | nil => exact (add_zero _).symm
  | cons e es ih =>
      have hstep : ((responder handles clock).step g e).1.riskManager.netPosition uuid =
          g.riskManager.netPosition uuid + positionIn [e] uuid := by
        by_cases he : handles e = true
        · simp only [responder, he, if_true]
          exact g.netPosition_respond clock e uuid
        · have hquiet : ∀ f, .orderFilled f ∉ [e] := by
            intro f hf
            rw [List.mem_singleton] at hf
            subst hf
            exact he (hhandles f List.mem_cons_self)
          rw [positionIn_of_quiet hquiet, add_zero]
          simp only [responder, he, if_false, Bool.false_eq_true]
      have hrest := ih ((responder handles clock).step g e).1
        fun f hf => hhandles f (List.mem_cons_of_mem _ hf)
      rw [positionIn_cons, ← add_assoc, ← hstep]
      exact hrest

end OrderEntryGateway

/-- A cancellation trades nothing. -/
theorem FullMatchingEngine.not_orderFilled_mem_cancelOrder (e : FullMatchingEngine)
    (orderId : OrderId) (securityId : SecurityId) (sessionUuid : SessionUuid)
    (f : OrderFilled) :
    .orderFilled f ∉ (e.outcome (.cancel orderId securityId sessionUuid)).events := by
  simp only [outcome, cancelOrder]
  split
  · simp
  · rename_i book hbook
    simp only [OrderBook.cancelOrder]
    split
    · simp
    · simp only [OrderBook.removeFromBook, OrderBook.cancelRest, OrderBook.cancelledEvent]
      split
      · simp
      · simp only [OrderBook.reportLevel, OrderBook.generateBookUpdate]
        split <;> simp

/-- Whatever a command asks for, the dispatcher handles the fills it causes. -/
theorem OrderCommand.answers_of_fill {cmd : OrderCommand} {clock : Clock}
    {e : FullMatchingEngine} {op : EngineOp} (hrequest : cmd.request clock e = some op)
    {f : OrderFilled} (hf : .orderFilled f ∈ (e.outcome op).events) :
    cmd.answers (.orderFilled f) = true := by
  unfold answers
  cases requests_of_request hrequest with
  | newOrder htype hstatus => rw [htype]
  | cancelOrder htype =>
      exact (e.not_orderFilled_mem_cancelOrder _ _ _ f hf).elim
  | modifyOrder htype =>
      rw [htype]
      rfl

namespace Exchange

def netPosition (x : Exchange) (uuid : SessionUuid) : Int :=
  x.gateway.riskManager.netPosition uuid

/-- A command moves the positions by the fills it causes. -/
theorem netPosition_processCommand (x : Exchange) (clock : Clock) (cmd : OrderCommand)
    (uuid : SessionUuid) :
    (x.processCommand clock cmd).exchange.netPosition uuid =
      x.netPosition uuid + positionIn (x.processCommand clock cmd).events uuid := by
  cases hrequest : cmd.request clock x.engine with
  | none =>
      rcases exists_built_of_no_request hrequest with ⟨built, hprocessed⟩
      rw [hprocessed]
      exact (add_zero _).symm
  | some op =>
      rw [processCommand_of_request hrequest]
      exact OrderEntryGateway.netPosition_responder x.gateway
        (fun f hf => OrderCommand.answers_of_fill hrequest hf) uuid

/-- A step moves the positions by the fills it emits. -/
theorem netPosition_outcome (x : Exchange) (op : ExchangeOp) (uuid : SessionUuid) :
    (x.outcome op).exchange.netPosition uuid =
      x.netPosition uuid + positionIn (x.outcome op).events uuid := by
  cases op with
  | addInstrument securityId => exact (add_zero _).symm
  | setTradingStatus securityId status => exact (add_zero _).symm
  | message sessionUuid now msg =>
      refine Eq.trans ?_ (add_zero _).symm
      cases msg with
      | newOrderSingle msg => exact RiskManager.netPosition_checkRate _ _ _ _
      | orderCancelReplaceRequest msg => rfl
      | orderCancelRequest msg => rfl
      | other templateId => rfl
  | processNext clock =>
      simp only [outcome, processNext]
      split
      · exact (add_zero _).symm
      · rename_i cmd rest hqueue
        exact (x.popped rest).netPosition_processCommand clock cmd uuid

end Exchange

/-! ## Whole runs -/

/-- The positions are those of the history, and its fills are borne out by the orders. -/
structure PositionsInv (x : Exchange) (es : List EngineEvent) : Prop where
  exchange_inv : ExchangeInv x
  position_eq : ∀ uuid, x.netPosition uuid = positionIn es uuid
  between : FillsBetween es x.engine.heap

namespace PositionsInv

variable {x : Exchange} {es : List EngineEvent}

theorem init (mgr : InstrumentManager) (config : RiskConfig) :
    PositionsInv (.init mgr config) [] where
  exchange_inv := .init mgr config
  position_eq _ := rfl
  between := .nil _

theorem step (hinv : PositionsInv x es) (op : ExchangeOp) :
    PositionsInv (x.outcome op).exchange (es ++ (x.outcome op).events) where
  exchange_inv := hinv.exchange_inv.step op
  position_eq uuid := by
    rw [x.netPosition_outcome, positionIn_append, hinv.position_eq]
  between := ExchangeInv.law_outcome fillsBetween_engineLaw hinv.exchange_inv
    (fun _ _ _ _ _ => trivial) (fun _ => hinv.between) 0

theorem run (mgr : InstrumentManager) (config : RiskConfig) (ops : List ExchangeOp) :
    let r := Exchange.machine.run (.init mgr config) ops
    PositionsInv r.1 r.2 := by
  have hadmits : Exchange.machine.Admits (fun _ _ => True) (.init mgr config) ops :=
    Machine.admits_of_forall (fun _ _ => trivial) _ ops
  exact Machine.history_invariant (P := fun _ x es => PositionsInv x es) (init mgr config)
    (fun _ _ _ op hinv _ => hinv.step op) ops hadmits

end PositionsInv

/-- After every run the positions add up to zero, and each one is what its session bought
less what it sold. -/
theorem positions_conserved (mgr : InstrumentManager) (config : RiskConfig)
    (ops : List ExchangeOp) :
    let r := Exchange.machine.run (.init mgr config) ops
    Function.HasFiniteSupport r.1.netPosition ∧ ∑ᶠ uuid, r.1.netPosition uuid = 0 ∧
      ∀ uuid, r.1.netPosition uuid = tradedOn r.1.engine.heap r.2 .bid uuid -
        tradedOn r.1.engine.heap r.2 .ask uuid := by
  intro r
  have hinv : PositionsInv r.1 r.2 := .run mgr config ops
  have hledger : r.1.netPosition = balance (fillsOf OrderFilled.transfer r.2) :=
    funext hinv.position_eq
  refine ⟨?_, ?_, ?_⟩
  · rw [hledger]
    exact finite_support_balance _
  · rw [hledger]
    exact finsum_balance _
  · intro uuid
    rw [hinv.position_eq]
    exact positionIn_eq_sub hinv.exchange_inv.engine_inv.ids_unique hinv.between uuid

/-- A session buys from itself and then from another one. -/
example :
    let mgr : InstrumentManager := .single { securityId := 7, tickMantissa := 25 }
    let clock : Clock := { order := fun _ => 0, report := fun _ => 0 }
    let ops : List ExchangeOp :=
      [.addInstrument 7,
        .message 1 2000000000 (.newOrderSingle
          { price := 100, orderQty := 5, securityID := 7, side := 1, ordType := 2 }),
        .message 1 2000000000 (.newOrderSingle
          { price := 100, orderQty := 2, securityID := 7, side := 2, ordType := 2 }),
        .message 2 2000000000 (.newOrderSingle
          { price := 100, orderQty := 3, securityID := 7, side := 2, ordType := 2 }),
        .processNext clock, .processNext clock, .processNext clock]
    let r := Exchange.machine.run (.init mgr {}) ops
    r.1.netPosition 1 = 3 ∧ r.1.netPosition 2 = -3 ∧
      tradedOn r.1.engine.heap r.2 .bid 1 = 5 ∧ tradedOn r.1.engine.heap r.2 .ask 1 = 2 := by
  decide

end SimCme
