import SimCme.Engine.FullMatchingEngine
import SimCme.Gateway.ExecReportBuilder
import SimCme.Gateway.MessageValidator
import SimCme.Gateway.RiskManager

/-!
# The order entry gateway

Sessions hand their messages to the gateway, which decodes and checks them and
queues a command.  The engine thread pops the commands one by one, runs each
through the engine and turns the engine's events into responses.  An exchange is a
gateway together with its engine; its steps are the messages that arrive, the
commands that are popped and the changes of trading status in between, in any
order.

Main results:

- Theorem {lit}`OrderEntryGateway.sessions_responder`: the sessions that the
  responses to a list of events go to.
- Theorem {lit}`Exchange.outcome_engine`: a step makes at most one request to the
  engine, and changes the engine by that request only.
- Theorem {lit}`Exchange.drain_eq_run` and
  {lit}`Exchange.commandQueue_processCommands`: the loop of the engine thread takes
  steps of the exchange until the queue is empty.
-/

namespace SimCme

open Library

/-! ## Commands -/

/-- What a command asks for, with the fields of its type. -/
inductive CommandType where
  | newOrder (order : Order)
  | cancelOrder
  | modifyOrder (newPrice : Price) (newQty : Int) (newClOrdId : ClOrdId)
deriving DecidableEq, Repr

structure OrderCommand where
  type : CommandType
  sessionUuid : SessionUuid := 0
  cancelOrderId : OrderId := 0
  securityId : SecurityId := 0
  clOrdId : ClOrdId := []
  orderRequestId : Nat := 0
deriving DecidableEq, Repr

structure OrderResponse where
  sessionUuid : SessionUuid
  sbeMessage : SbeMessage
deriving DecidableEq, Repr

/-- The cast of a quantity from its wire field. -/
def decodeQty (qty : UInt32) : Int :=
  qty.toInt32.toInt

/-- The order of a new order message. -/
def decodeNewOrderSingle (sessionUuid : SessionUuid) (msg : NewOrderSingle514) : Order :=
  { sessionUuid := sessionUuid
    securityId := msg.securityID.toInt
    side := .ofCode msg.side
    orderType := .ofCode msg.ordType
    timeInForce := .ofCode msg.timeInForce
    price := ⟨msg.price⟩
    stopPrice := ⟨msg.stopPx⟩
    quantity := decodeQty msg.orderQty
    displayQty := decodeQty msg.displayQty
    minQty := decodeQty msg.minQty
    orderRequestId := msg.orderRequestID.toNat
    clOrdId := readFixedString msg.clOrdID }

/-- The command that carries a new order. -/
def OrderCommand.ofOrder (order : Order) : OrderCommand where
  type := .newOrder order
  sessionUuid := order.sessionUuid
  securityId := order.securityId

def decodeCancelRequest (sessionUuid : SessionUuid) (msg : OrderCancelRequest516) :
    OrderCommand where
  type := .cancelOrder
  sessionUuid := sessionUuid
  cancelOrderId := msg.orderID.toNat
  securityId := msg.securityID.toInt
  orderRequestId := msg.orderRequestID.toNat
  clOrdId := readFixedString msg.clOrdID

def decodeModifyRequest (sessionUuid : SessionUuid) (msg : OrderCancelReplaceRequest515) :
    OrderCommand where
  type := .modifyOrder ⟨msg.price⟩ (decodeQty msg.orderQty) (readFixedString msg.clOrdID)
  sessionUuid := sessionUuid
  cancelOrderId := msg.orderID.toNat
  securityId := msg.securityID.toInt
  orderRequestId := msg.orderRequestID.toNat
  clOrdId := readFixedString msg.clOrdID

/-! ## The gateway -/

structure OrderEntryGateway where
  instrumentMgr : InstrumentManager := {}
  riskManager : RiskManager := {}
  execBuilder : ExecReportBuilder := {}
  commandQueue : List OrderCommand := []

/-- The clock readings a run takes: when the engine stamps an order, and when a
report is built. -/
structure Clock where
  order : OrderId → Timestamp
  report : Nat → Timestamp

namespace OrderEntryGateway

def push (g : OrderEntryGateway) (cmd : OrderCommand) : OrderEntryGateway :=
  { g with commandQueue := g.commandQueue ++ [cmd] }

/-- Mark an order as rejected unless a check has passed. -/
def checked (passed : Bool) (order : Order) : Order :=
  if passed then order else { order with status := .rejected }

/-- The order of a new order message once it has been through the checks. -/
def checkedOrder (g : OrderEntryGateway) (sessionUuid : SessionUuid)
    (msg : NewOrderSingle514) (now : Int) : Order :=
  let order := decodeNewOrderSingle sessionUuid msg
  let order := checked (g.instrumentMgr.validateNewOrder order).valid order
  let rate := g.riskManager.checkRate sessionUuid now
  let order := checked rate.1.passed order
  checked (rate.2.checkOrder order).passed order

/-- A message of a session at the steady time {lit}`now`. -/
def onApplicationMessage (g : OrderEntryGateway) (sessionUuid : SessionUuid) (now : Int) :
    ApplicationMessage → OrderEntryGateway
  | .newOrderSingle msg =>
      { g with riskManager := (g.riskManager.checkRate sessionUuid now).2 }.push
        (.ofOrder (g.checkedOrder sessionUuid msg now))
  | .orderCancelRequest msg =>
      let cmd := decodeCancelRequest sessionUuid msg
      let valResult := g.instrumentMgr.validateCancel cmd.cancelOrderId cmd.securityId
      -- A failed check sets the type the command has already.
      g.push (if valResult.valid then cmd else { cmd with type := .cancelOrder })
  | .orderCancelReplaceRequest msg =>
      let cmd := decodeModifyRequest sessionUuid msg
      let valResult := g.instrumentMgr.validateModify cmd.cancelOrderId cmd.securityId
        ⟨msg.price⟩ (decodeQty msg.orderQty)
      -- A failed check has no consequence.
      g.push (if valResult.valid then cmd else cmd)
  | .other _ => g

/-! ## Responses -/

/-- Send a report to a session. -/
def respondWith (g : OrderEntryGateway) (sessionUuid : SessionUuid)
    (built : ExecReportBuilder.Built) : OrderEntryGateway × List OrderResponse :=
  ({ g with execBuilder := built.builder }, [⟨sessionUuid, built.message⟩])

/-- The responses to one event. -/
def respond (g : OrderEntryGateway) (clock : Clock) :
    EngineEvent → OrderEntryGateway × List OrderResponse
  | .orderAccepted e =>
      g.respondWith e.sessionUuid (g.execBuilder.buildExecutionReportNew
        (clock.report g.execBuilder.nextExecId) e e.sessionUuid)
  | .orderRejected e =>
      g.respondWith e.sessionUuid (g.execBuilder.buildExecutionReportReject
        (clock.report g.execBuilder.nextExecId) e e.sessionUuid)
  | .orderFilled e =>
      let maker := g.respondWith e.makerSessionUuid (g.execBuilder.buildExecutionReportFill
        (clock.report g.execBuilder.nextExecId) e e.makerSessionUuid true)
      let taker := maker.1.respondWith e.takerSessionUuid
        (maker.1.execBuilder.buildExecutionReportFill
          (clock.report maker.1.execBuilder.nextExecId) e e.takerSessionUuid false)
      let makerSide := if e.aggressorSide = .buy then Side.sell else Side.buy
      ({ taker.1 with
          riskManager := (g.riskManager.onFill e.makerSessionUuid makerSide e.tradeQty).onFill
            e.takerSessionUuid e.aggressorSide e.tradeQty },
        maker.2 ++ taker.2)
  | .orderCancelled e =>
      g.respondWith e.sessionUuid (g.execBuilder.buildExecutionReportCancel
        (clock.report g.execBuilder.nextExecId) e e.sessionUuid)
  | .orderModified e =>
      g.respondWith e.sessionUuid (g.execBuilder.buildExecutionReportModify
        (clock.report g.execBuilder.nextExecId) e e.sessionUuid)
  | .orderCancelRejected e =>
      g.respondWith e.sessionUuid (g.execBuilder.buildOrderCancelReject
        (clock.report g.execBuilder.nextExecId) e e.sessionUuid)
  | .bookUpdate _ => (g, [])

/-- The machine that answers the events a dispatcher handles and skips the rest. -/
def responder (handles : EngineEvent → Bool) (clock : Clock) :
    Machine OrderEntryGateway EngineEvent OrderResponse where
  step g e := if handles e then g.respond clock e else (g, [])

end OrderEntryGateway

/-- The events the dispatcher answers for a cancel command. -/
def EngineEvent.answersCancel : EngineEvent → Bool
  | .orderCancelled _ => true
  | .orderCancelRejected _ => true
  | _ => false

/-- The events the dispatcher answers for a modify command. -/
def EngineEvent.answersModify : EngineEvent → Bool
  | .orderModified _ => true
  | .orderCancelRejected _ => true
  | .orderFilled _ => true
  | _ => false

/-! ## The exchange -/

/-- A gateway and the engine it feeds. -/
structure Exchange where
  gateway : OrderEntryGateway := {}
  engine : FullMatchingEngine := {}

/-- What processing a command leaves behind, the responses it appends and the
engine events it publishes. -/
structure Processed where
  exchange : Exchange
  responses : List OrderResponse
  events : List EngineEvent

namespace Exchange

/-- Answer the events of a request to the engine. -/
def answer (x : Exchange) (clock : Clock) (handles : EngineEvent → Bool)
    (r : EngineOutcome) : Processed :=
  let answered := (OrderEntryGateway.responder handles clock).run x.gateway r.events
  { exchange := { gateway := answered.1, engine := r.engine }
    responses := answered.2
    events := r.events }

/-- Dispatch one command. -/
def processCommand (x : Exchange) (clock : Clock) (cmd : OrderCommand) : Processed :=
  match cmd.type with
  | .newOrder order =>
      if order.status = .rejected then
        let answered := x.gateway.respondWith cmd.sessionUuid
          (x.gateway.execBuilder.buildExecutionReportReject
            (clock.report x.gateway.execBuilder.nextExecId)
            { clOrdId := order.clOrdId
              sessionUuid := cmd.sessionUuid
              reason := "Pre-trade risk check failed"
              rejectReasonCode := 3 }
            cmd.sessionUuid)
        { exchange := { x with gateway := answered.1 }
          responses := answered.2
          events := [] }
      else
        x.answer clock (fun _ => true)
          (x.engine.submitOrder order (clock.order x.engine.nextOrderId))
  | .cancelOrder =>
      x.answer clock EngineEvent.answersCancel
        (x.engine.cancelOrder cmd.cancelOrderId cmd.securityId cmd.sessionUuid)
  | .modifyOrder newPrice newQty newClOrdId =>
      x.answer clock EngineEvent.answersModify
        (x.engine.modifyOrder cmd.cancelOrderId cmd.securityId newPrice newQty newClOrdId)

/-- Take the next command off the queue. -/
def popped (x : Exchange) (rest : List OrderCommand) : Exchange :=
  { x with gateway := { x.gateway with commandQueue := rest } }

/-- One turn of the loop of {lit}`processCommands`. -/
def processNext (x : Exchange) (clock : Clock) : Processed :=
  match x.gateway.commandQueue with
  | [] => { exchange := x, responses := [], events := [] }
  | cmd :: rest => (x.popped rest).processCommand clock cmd

/-- A number of turns of that loop. -/
def drain (clock : Clock) : Nat → Exchange → Processed
  | 0, x => { exchange := x, responses := [], events := [] }
  | n + 1, x =>
      let first := x.processNext clock
      let rest := drain clock n first.exchange
      { exchange := rest.exchange
        responses := first.responses ++ rest.responses
        events := first.events ++ rest.events }

/-- The loop runs until it finds the queue empty. -/
def processCommands (x : Exchange) (clock : Clock) : Processed :=
  drain clock x.gateway.commandQueue.length x

end Exchange

/-- What happens to an exchange. -/
inductive ExchangeOp where
  | addInstrument (securityId : SecurityId)
  | setTradingStatus (securityId : SecurityId) (status : SecurityTradingStatus)
  | message (sessionUuid : SessionUuid) (now : Int) (msg : ApplicationMessage)
  | processNext (clock : Clock)

namespace Exchange

def outcome (x : Exchange) : ExchangeOp → Processed
  | .addInstrument securityId =>
      { exchange := { x with engine := x.engine.addInstrument securityId }
        responses := []
        events := [] }
  | .setTradingStatus securityId status =>
      { exchange :=
          { x with
            gateway :=
              { x.gateway with
                instrumentMgr := x.gateway.instrumentMgr.setTradingStatus securityId status } }
        responses := []
        events := [] }
  | .message sessionUuid now msg =>
      { exchange := { x with gateway := x.gateway.onApplicationMessage sessionUuid now msg }
        responses := []
        events := [] }
  | .processNext clock => x.processNext clock

/-- The machine whose outputs are the engine events. -/
def machine : Machine Exchange ExchangeOp EngineEvent where
  step x op := ((x.outcome op).exchange, (x.outcome op).events)

/-- An exchange that has seen no message, with its instruments and its limits. -/
def init (instrumentMgr : InstrumentManager) (config : RiskConfig) : Exchange where
  gateway := { instrumentMgr := instrumentMgr, riskManager := { config := config } }

end Exchange

/-! ## What one event and one command do -/

/-- The sessions a report of an event goes to. -/
def EngineEvent.sessions : EngineEvent → List SessionUuid
  | .orderAccepted e => [e.sessionUuid]
  | .orderRejected e => [e.sessionUuid]
  | .orderFilled e => [e.makerSessionUuid, e.takerSessionUuid]
  | .orderCancelled e => [e.sessionUuid]
  | .orderModified e => [e.sessionUuid]
  | .orderCancelRejected e => [e.sessionUuid]
  | .bookUpdate _ => []

namespace OrderEntryGateway

/-- What answering events leaves alone: the instruments, the limits and the queue. -/
def intake (g : OrderEntryGateway) : InstrumentManager × RiskConfig × List OrderCommand :=
  (g.instrumentMgr, g.riskManager.config, g.commandQueue)

theorem sessions_respond (g : OrderEntryGateway) (clock : Clock) (e : EngineEvent) :
    (g.respond clock e).2.map OrderResponse.sessionUuid = e.sessions := by
  cases e <;> rfl

theorem intake_respond (g : OrderEntryGateway) (clock : Clock) (e : EngineEvent) :
    (g.respond clock e).1.intake = g.intake := by
  cases e <;> rfl

variable {handles : EngineEvent → Bool} {clock : Clock}

/-- The sessions that the responses to a list of events go to. -/
theorem sessions_responder (g : OrderEntryGateway) (es : List EngineEvent) :
    ((responder handles clock).run g es).2.map OrderResponse.sessionUuid =
      (es.filter handles).flatMap EngineEvent.sessions := by
  induction es generalizing g with
  | nil => rfl
  | cons e es ih =>
      simp only [Machine.run, List.map_append, ih]
      by_cases hhandles : handles e = true
      · simp [responder, hhandles, sessions_respond]
      · simp [responder, hhandles]

theorem intake_responder (g : OrderEntryGateway) (es : List EngineEvent) :
    ((responder handles clock).run g es).1.intake = g.intake := by
  induction es generalizing g with
  | nil => rfl
  | cons e es ih =>
      have hstep : ((responder handles clock).step g e).1.intake = g.intake := by
        by_cases hhandles : handles e = true
        · simp [responder, hhandles, intake_respond]
        · simp [responder, hhandles]
      exact (ih _).trans hstep

end OrderEntryGateway

namespace OrderCommand

/-- The request a command makes to the engine.  A rejected order makes none. -/
def request (cmd : OrderCommand) (clock : Clock) (e : FullMatchingEngine) : Option EngineOp :=
  match cmd.type with
  | .newOrder order =>
      if order.status = .rejected then none
      else some (.submit order (clock.order e.nextOrderId))
  | .cancelOrder => some (.cancel cmd.cancelOrderId cmd.securityId cmd.sessionUuid)
  | .modifyOrder newPrice newQty newClOrdId =>
      some (.modify cmd.cancelOrderId cmd.securityId newPrice newQty newClOrdId)

/-- The ways a command makes a request. -/
inductive Requests (cmd : OrderCommand) (clock : Clock) (e : FullMatchingEngine) :
    EngineOp → Prop
  | newOrder {order : Order} (htype : cmd.type = .newOrder order)
      (hstatus : order.status ≠ .rejected) :
      Requests cmd clock e (.submit order (clock.order e.nextOrderId))
  | cancelOrder (htype : cmd.type = .cancelOrder) :
      Requests cmd clock e (.cancel cmd.cancelOrderId cmd.securityId cmd.sessionUuid)
  | modifyOrder {newPrice : Price} {newQty : Int} {newClOrdId : ClOrdId}
      (htype : cmd.type = .modifyOrder newPrice newQty newClOrdId) :
      Requests cmd clock e
        (.modify cmd.cancelOrderId cmd.securityId newPrice newQty newClOrdId)

theorem requests_of_request {cmd : OrderCommand} {clock : Clock} {e : FullMatchingEngine}
    {op : EngineOp} (hrequest : cmd.request clock e = some op) :
    cmd.Requests clock e op := by
  unfold request at hrequest
  cases htype : cmd.type with
  | newOrder order =>
      rw [htype] at hrequest
      simp only at hrequest
      split at hrequest
      · contradiction
      · rename_i hstatus
        cases hrequest
        exact .newOrder htype hstatus
  | cancelOrder =>
      rw [htype] at hrequest
      cases hrequest
      exact .cancelOrder htype
  | modifyOrder newPrice newQty newClOrdId =>
      rw [htype] at hrequest
      cases hrequest
      exact .modifyOrder htype

/-- The events the dispatcher answers. -/
def answers (cmd : OrderCommand) : EngineEvent → Bool :=
  match cmd.type with
  | .newOrder _ => fun _ => true
  | .cancelOrder => EngineEvent.answersCancel
  | .modifyOrder _ _ _ => EngineEvent.answersModify

end OrderCommand

namespace Exchange

variable {x : Exchange} {clock : Clock} {cmd : OrderCommand}

/-- A command that makes a request answers the events of that request. -/
theorem processCommand_of_request {op : EngineOp}
    (hrequest : cmd.request clock x.engine = some op) :
    x.processCommand clock cmd = x.answer clock cmd.answers (x.engine.outcome op) := by
  unfold processCommand OrderCommand.answers
  cases OrderCommand.requests_of_request hrequest with
  | newOrder htype hstatus =>
      rw [htype]
      exact if_neg hstatus
  | cancelOrder htype =>
      rw [htype]
      rfl
  | modifyOrder htype =>
      rw [htype]
      rfl

/-- A command that makes no request sends its sender one report. -/
theorem exists_built_of_no_request (hrequest : cmd.request clock x.engine = none) :
    ∃ built, x.processCommand clock cmd =
      { exchange := { x with gateway := (x.gateway.respondWith cmd.sessionUuid built).1 }
        responses := (x.gateway.respondWith cmd.sessionUuid built).2
        events := [] } := by
  unfold OrderCommand.request at hrequest
  unfold processCommand
  cases htype : cmd.type with
  | newOrder order =>
      rw [htype] at hrequest
      simp only at hrequest ⊢
      split at hrequest
      · rename_i hstatus
        rw [if_pos hstatus]
        exact ⟨_, rfl⟩
      · contradiction
  | cancelOrder =>
      rw [htype] at hrequest
      contradiction
  | modifyOrder newPrice newQty newClOrdId =>
      rw [htype] at hrequest
      contradiction

/-- A command that makes no request is answered to its sender. -/
theorem processCommand_of_no_request (hrequest : cmd.request clock x.engine = none) :
    (x.processCommand clock cmd).exchange.engine = x.engine ∧
      (x.processCommand clock cmd).exchange.gateway.intake = x.gateway.intake ∧
      (x.processCommand clock cmd).events = [] ∧
      (x.processCommand clock cmd).responses.map OrderResponse.sessionUuid =
        [cmd.sessionUuid] := by
  rcases exists_built_of_no_request hrequest with ⟨built, hprocessed⟩
  rw [hprocessed]
  exact ⟨rfl, rfl, rfl, rfl⟩

/-- Processing a command takes nothing in. -/
theorem intake_processCommand (x : Exchange) (clock : Clock) (cmd : OrderCommand) :
    (x.processCommand clock cmd).exchange.gateway.intake = x.gateway.intake := by
  cases hrequest : cmd.request clock x.engine with
  | none => exact (processCommand_of_no_request hrequest).2.1
  | some op =>
      rw [processCommand_of_request hrequest]
      exact OrderEntryGateway.intake_responder _ _

/-- The request a step makes to the engine. -/
def request (x : Exchange) : ExchangeOp → Option EngineOp
  | .addInstrument securityId => some (.addInstrument securityId)
  | .setTradingStatus _ _ => none
  | .message _ _ _ => none
  | .processNext clock => x.gateway.commandQueue.head?.bind fun cmd => cmd.request clock x.engine

/-- A step runs its request through the engine, and nothing else. -/
theorem outcome_engine (x : Exchange) (op : ExchangeOp) :
    ((x.outcome op).exchange.engine, (x.outcome op).events) =
      match x.request op with
      | none => (x.engine, [])
      | some eop => ((x.engine.outcome eop).engine, (x.engine.outcome eop).events) := by
  cases op with
  | addInstrument securityId => rfl
  | setTradingStatus securityId status => rfl
  | message sessionUuid now msg => rfl
  | processNext clock =>
      simp only [outcome, processNext, request]
      cases hqueue : x.gateway.commandQueue with
      | nil => rfl
      | cons cmd rest =>
          simp only [List.head?_cons, Option.bind_some]
          cases hrequest : cmd.request clock x.engine with
          | none =>
              have hnone := processCommand_of_no_request (x := x.popped rest) hrequest
              rw [hnone.1, hnone.2.2.1]
              rfl
          | some eop =>
              rw [processCommand_of_request (x := x.popped rest) hrequest]
              rfl

/-- The turns of the loop are steps of the exchange. -/
theorem drain_eq_run (clock : Clock) (n : Nat) (x : Exchange) :
    ((drain clock n x).exchange, (drain clock n x).events) =
      machine.run x (List.replicate n (.processNext clock)) := by
  induction n generalizing x with
  | zero => rfl
  | succ n ih =>
      have hrest := ih (x.processNext clock).exchange
      simp only [drain, List.replicate_succ, Machine.run, machine, outcome] at hrest ⊢
      rw [← hrest]

/-- A turn takes one command off the queue, and keeps the instruments and limits. -/
theorem intake_processNext (x : Exchange) (clock : Clock) :
    (x.processNext clock).exchange.gateway.intake =
      (x.gateway.instrumentMgr, x.gateway.riskManager.config, x.gateway.commandQueue.tail) := by
  unfold processNext
  cases hqueue : x.gateway.commandQueue with
  | nil => simp [OrderEntryGateway.intake, hqueue]
  | cons cmd rest => exact intake_processCommand (x.popped rest) clock cmd

theorem instrumentMgr_processNext (x : Exchange) (clock : Clock) :
    (x.processNext clock).exchange.gateway.instrumentMgr = x.gateway.instrumentMgr :=
  congrArg Prod.fst (x.intake_processNext clock)

theorem config_processNext (x : Exchange) (clock : Clock) :
    (x.processNext clock).exchange.gateway.riskManager.config =
      x.gateway.riskManager.config :=
  congrArg (fun i => i.2.1) (x.intake_processNext clock)

theorem commandQueue_processNext (x : Exchange) (clock : Clock) :
    (x.processNext clock).exchange.gateway.commandQueue = x.gateway.commandQueue.tail :=
  congrArg (fun i => i.2.2) (x.intake_processNext clock)

/-- No step changes the limits. -/
theorem config_outcome (x : Exchange) (op : ExchangeOp) :
    (x.outcome op).exchange.gateway.riskManager.config = x.gateway.riskManager.config := by
  cases op with
  | addInstrument securityId => rfl
  | setTradingStatus securityId status => rfl
  | message sessionUuid now msg =>
      cases msg with
      | newOrderSingle msg => exact RiskManager.config_checkRate _ _ _
      | orderCancelReplaceRequest msg => rfl
      | orderCancelRequest msg => rfl
      | other templateId => rfl
  | processNext clock => exact x.config_processNext clock

/-- The loop ends with an empty queue. -/
theorem commandQueue_processCommands (x : Exchange) (clock : Clock) :
    (x.processCommands clock).exchange.gateway.commandQueue = [] := by
  have hdrain : ∀ n (x : Exchange), x.gateway.commandQueue.length = n →
      (drain clock n x).exchange.gateway.commandQueue = [] := by
    intro n
    induction n with
    | zero =>
        intro x hlength
        exact List.length_eq_zero_iff.mp hlength
    | succ n ih =>
        intro x hlength
        apply ih
        rw [commandQueue_processNext, List.length_tail, hlength]
        rfl
  exact hdrain _ x rfl

end Exchange

end SimCme
