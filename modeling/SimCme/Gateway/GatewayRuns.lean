import SimCme.Engine.EngineRuns
import SimCme.Gateway.OrderEntryGateway

/-!
# Runs of the exchange

Whatever arrives and in whatever order the queue is worked off, the engine sees
requests of fresh orders only, and every queued order either carries the mark of a
failed check or has passed them all.

Main results:

- Theorem {lit}`OrderEntryGateway.checkedOrder_sound`: what the checks of the
  gateway make sure of.
- Theorem {lit}`ExchangeInv.run`: the engine and the queue along every run.
- Theorem {lit}`ExchangeInv.law_outcome`: the rule that lifts a law of the engine to the
  exchange.
-/

namespace SimCme

open Library

/-! ## What the checks make sure of -/

/-- The limits of an instrument and the size limit of the exchange. -/
structure WithinLimits (instr : Instrument) (maxOrderQty : Int) (orderType : OrderType)
    (price : Price) (quantity : Int) : Prop where
  on_tick : orderType = .limit → instr.isValidTick price = true
  min_le : instr.minTradeVol ≤ quantity
  le_max : quantity ≤ instr.maxTradeVol
  le_order_limit : quantity ≤ maxOrderQty

/-- An order is within the limits of the instrument it names. -/
def InstrumentManager.Permits (mgr : InstrumentManager) (maxOrderQty : Int)
    (order : Order) : Prop :=
  ∃ instr, mgr.findBySecurityId order.securityId = some instr ∧
    WithinLimits instr maxOrderQty order.orderType order.price order.quantity

/-- The limits do not depend on the trading status. -/
theorem InstrumentManager.Permits.setTradingStatus {mgr : InstrumentManager}
    {maxOrderQty : Int} {order : Order} (hpermits : mgr.Permits maxOrderQty order)
    (id : SecurityId) (status : SecurityTradingStatus) :
    (mgr.setTradingStatus id status).Permits maxOrderQty order := by
  rcases hpermits with ⟨instr, hfind, hlimits⟩
  rcases findBySecurityId_setTradingStatus hfind id status with
    ⟨instr', hfind', -, htick, hmin, hmax⟩
  refine ⟨instr', hfind', ?_, ?_, ?_, hlimits.le_order_limit⟩
  · unfold Instrument.isValidTick
    rw [htick]
    exact hlimits.on_tick
  · rw [hmin]
    exact hlimits.min_le
  · rw [hmax]
    exact hlimits.le_max

/-- What is known of a queued command: a new order belongs to the sender, is not
filled, and carries the mark of a failed check or is within the limits. -/
def OrderCommand.Sound (mgr : InstrumentManager) (config : RiskConfig)
    (cmd : OrderCommand) : Prop :=
  ∀ order, cmd.type = .newOrder order →
    order.sessionUuid = cmd.sessionUuid ∧ order.filledQty = 0 ∧
      (order.status = .rejected ∨
        order.status = .new ∧ mgr.Permits config.maxOrderQty order)

/-- A sound command makes a fresh request. -/
theorem OrderCommand.Sound.fresh {mgr : InstrumentManager} {config : RiskConfig}
    {cmd : OrderCommand} (hsound : cmd.Sound mgr config) {clock : Clock}
    {e : FullMatchingEngine} {op : EngineOp} (hrequest : cmd.request clock e = some op) :
    op.Fresh := by
  cases OrderCommand.requests_of_request hrequest with
  | newOrder htype hnot =>
      rcases hsound _ htype with ⟨-, hfilled, hstatus⟩
      exact ⟨(hstatus.resolve_left hnot).1, hfilled⟩
  | cancelOrder htype => trivial
  | modifyOrder htype => trivial

namespace OrderEntryGateway

/-- A check either leaves an order alone or marks it. -/
theorem checked_cases (passed : Bool) (order : Order) :
    passed = true ∧ checked passed order = order ∨
      checked passed order = { order with status := .rejected } := by
  cases passed with
  | true => exact Or.inl ⟨rfl, rfl⟩
  | false => exact Or.inr rfl

/-- A marked order stays marked. -/
theorem checked_of_rejected {order : Order} (hstatus : order.status = .rejected)
    (passed : Bool) : checked passed order = order := by
  cases passed with
  | true => rfl
  | false =>
      unfold checked
      rw [if_neg (by decide), ← hstatus]

/-- What the checks of the gateway make sure of. -/
theorem checkedOrder_sound (g : OrderEntryGateway) (sessionUuid : SessionUuid)
    (msg : NewOrderSingle514) (now : Int) :
    (OrderCommand.ofOrder (g.checkedOrder sessionUuid msg now)).Sound g.instrumentMgr
      g.riskManager.config := by
  intro order horder
  cases horder
  refine ⟨rfl, ?_⟩
  have hmarked : ∀ passed, checked passed
      { decodeNewOrderSingle sessionUuid msg with status := .rejected } =
      { decodeNewOrderSingle sessionUuid msg with status := .rejected } :=
    checked_of_rejected rfl
  unfold checkedOrder
  simp only
  rcases checked_cases (g.instrumentMgr.validateNewOrder
    (decodeNewOrderSingle sessionUuid msg)).valid (decodeNewOrderSingle sessionUuid msg) with
    ⟨hvalid, heq⟩ | heq
  · rw [heq]
    rcases checked_cases (g.riskManager.checkRate sessionUuid now).1.passed
      (decodeNewOrderSingle sessionUuid msg) with ⟨-, heq'⟩ | heq'
    · rw [heq']
      rcases checked_cases ((g.riskManager.checkRate sessionUuid now).2.checkOrder
        (decodeNewOrderSingle sessionUuid msg)).passed
        (decodeNewOrderSingle sessionUuid msg) with ⟨hpassed, heq''⟩ | heq''
      · rw [heq'']
        rw [RiskManager.checkOrder_passed_iff, RiskManager.config_checkRate] at hpassed
        rcases (validateNewOrder_valid_iff _ _).mp hvalid with ⟨instr, hfind, hvalid⟩
        refine ⟨rfl, Or.inr ⟨rfl, instr, hfind, ?_⟩⟩
        exact
          { on_tick := fun hlimit => hvalid.on_tick (Or.inl hlimit)
            min_le := hvalid.min_le
            le_max := hvalid.le_max
            le_order_limit := hpassed }
      · rw [heq'']
        exact ⟨rfl, Or.inl rfl⟩
    · rw [heq', hmarked]
      exact ⟨rfl, Or.inl rfl⟩
  · rw [heq, hmarked, hmarked]
    exact ⟨rfl, Or.inl rfl⟩

end OrderEntryGateway

/-! ## The invariant of the exchange -/

/-- The engine is valid and every queued command is sound. -/
structure ExchangeInv (x : Exchange) : Prop where
  engine_inv : EngineInv x.engine
  queue_sound : ∀ cmd ∈ x.gateway.commandQueue,
    cmd.Sound x.gateway.instrumentMgr x.gateway.riskManager.config

namespace ExchangeInv

variable {x : Exchange} {op : ExchangeOp}

theorem init (mgr : InstrumentManager) (config : RiskConfig) :
    ExchangeInv (.init mgr config) where
  engine_inv := EngineInv.empty
  queue_sound := by simp [Exchange.init]

/-- Every request to the engine is fresh. -/
theorem request_fresh (hinv : ExchangeInv x) {eop : EngineOp}
    (hrequest : x.request op = some eop) : eop.Fresh := by
  cases op with
  | addInstrument securityId =>
      cases hrequest
      trivial
  | setTradingStatus securityId status => contradiction
  | message sessionUuid now msg => contradiction
  | processNext clock =>
      simp only [Exchange.request, Option.bind_eq_some_iff] at hrequest
      rcases hrequest with ⟨cmd, hcmd, hrequest⟩
      exact (hinv.queue_sound cmd (List.mem_of_head? hcmd)).fresh hrequest

/-- A step that makes a request runs it through the engine. -/
theorem engine_of_request {eop : EngineOp} (hrequest : x.request op = some eop) :
    (x.outcome op).exchange.engine = (x.engine.outcome eop).engine := by
  have houtcome := x.outcome_engine op
  rw [hrequest] at houtcome
  exact congrArg Prod.fst houtcome

theorem engine_of_no_request (hrequest : x.request op = none) :
    (x.outcome op).exchange.engine = x.engine := by
  have houtcome := x.outcome_engine op
  rw [hrequest] at houtcome
  exact congrArg Prod.fst houtcome

/-- One step keeps the invariant. -/
theorem step (hinv : ExchangeInv x) (op : ExchangeOp) :
    ExchangeInv (x.outcome op).exchange where
  engine_inv := by
    cases hrequest : x.request op with
    | none =>
        rw [engine_of_no_request hrequest]
        exact hinv.engine_inv
    | some eop =>
        rw [engine_of_request hrequest]
        exact hinv.engine_inv.step (hinv.request_fresh hrequest)
  queue_sound := by
    cases op with
    | addInstrument securityId => exact hinv.queue_sound
    | setTradingStatus securityId status =>
        intro cmd hcmd order horder
        rcases hinv.queue_sound cmd hcmd order horder with ⟨hsession, hfilled, hstatus⟩
        refine ⟨hsession, hfilled, hstatus.imp id ?_⟩
        intro hnew
        exact ⟨hnew.1, hnew.2.setTradingStatus securityId status⟩
    | message sessionUuid now msg =>
        intro cmd hcmd
        cases msg with
        | newOrderSingle msg =>
            rw [x.config_outcome]
            rcases List.mem_append.mp hcmd with hcmd | hcmd
            · exact hinv.queue_sound cmd hcmd
            · rw [List.mem_singleton.mp hcmd]
              exact x.gateway.checkedOrder_sound sessionUuid msg now
        | orderCancelReplaceRequest msg =>
            rcases List.mem_append.mp hcmd with hcmd | hcmd
            · exact hinv.queue_sound cmd hcmd
            · intro order horder
              rw [List.mem_singleton.mp hcmd, ite_self] at horder
              cases horder
        | orderCancelRequest msg =>
            rcases List.mem_append.mp hcmd with hcmd | hcmd
            · exact hinv.queue_sound cmd hcmd
            · intro order horder
              rw [List.mem_singleton.mp hcmd] at horder
              split at horder <;> cases horder
        | other templateId => exact hinv.queue_sound cmd hcmd
    | processNext clock =>
        intro cmd hcmd
        simp only [Exchange.outcome] at hcmd ⊢
        rw [x.commandQueue_processNext] at hcmd
        rw [x.instrumentMgr_processNext, x.config_processNext]
        exact hinv.queue_sound cmd (List.mem_of_mem_tail hcmd)

/-- A request of a step meets a guard as soon as the requests of commands do. -/
theorem admitted_of_command {guard : SecurityId → BookState → BookOp → Prop}
    (hcommand : ∀ clock cmd eop, op = .processNext clock →
      cmd ∈ x.gateway.commandQueue.head? → cmd.request clock x.engine = some eop →
      EngineLaw.Admitted guard x.engine eop)
    (eop : EngineOp) (hrequest : x.request op = some eop) :
    EngineLaw.Admitted guard x.engine eop := by
  cases op with
  | addInstrument securityId =>
      cases hrequest
      intro s bop hroute
      contradiction
  | setTradingStatus securityId status => contradiction
  | message sessionUuid now msg => contradiction
  | processNext clock =>
      simp only [Exchange.request, Option.bind_eq_some_iff] at hrequest
      rcases hrequest with ⟨cmd, hcmd, hrequest⟩
      exact hcommand clock cmd eop rfl hcmd hrequest

/-- A law of the engine along the steps of the exchange. -/
theorem law_outcome {guard : SecurityId → BookState → BookOp → Prop}
    {L : SecurityId → Option OrderRef → List EngineEvent → Heap Order → OrderBook → Prop}
    (hlaw : EngineLaw guard L) (hinv : ExchangeInv x) {es : List EngineEvent}
    (hadmitted : ∀ eop, x.request op = some eop → EngineLaw.Admitted guard x.engine eop)
    (hL : ∀ s, L s none es x.engine.heap (x.engine.bookAt s)) (s : SecurityId) :
    L s none (es ++ (x.outcome op).events) (x.outcome op).exchange.engine.heap
      ((x.outcome op).exchange.engine.bookAt s) := by
  have houtcome := x.outcome_engine op
  cases hrequest : x.request op with
  | none =>
      rw [hrequest, Prod.mk.injEq] at houtcome
      rw [houtcome.1, houtcome.2, List.append_nil]
      exact hL s
  | some eop =>
      rw [hrequest, Prod.mk.injEq] at houtcome
      rw [houtcome.1, houtcome.2]
      exact hlaw.step hinv.engine_inv (hinv.request_fresh hrequest) (hadmitted eop hrequest) hL s

/-- The invariant and the limits along every run. -/
theorem run (mgr : InstrumentManager) (config : RiskConfig) (ops : List ExchangeOp) :
    let x := (Exchange.machine.run (.init mgr config) ops).1
    ExchangeInv x ∧ x.gateway.riskManager.config = config := by
  have hadmits : Exchange.machine.Admits (fun _ _ => True) (.init mgr config) ops :=
    Machine.admits_of_forall (fun _ _ => trivial) _ ops
  refine Machine.state_invariant
    (P := fun x => ExchangeInv x ∧ x.gateway.riskManager.config = config)
    ⟨init mgr config, rfl⟩ ?_ ops hadmits
  intro x op hx _
  exact ⟨hx.1.step op, (x.config_outcome op).trans hx.2⟩

end ExchangeInv

end SimCme
