import Mathlib.Data.List.TakeWhile
import SimCme.Engine.ClientNames
import SimCme.Gateway.GatewayRuns

/-!
# Client ids in reports

The client id of a request travels as a string from its field into an order, from the
order into events, and from there into the field of a report.  A ledger notes for each
order the field of the request that last set its client id.

Main results:

- Theorem {lit}`writeFixedString_readFixedString`: a field that is read and written again
  is cut at its first zero.
- Theorem {lit}`LedgerInv.step`: the orders carry the client ids of the ledger.
- Theorem {lit}`client_order_ids_echoed`: every report for an order carries the field the
  ledger has for it.
-/

namespace SimCme

open Library

/-! ## Fields -/

/-- A field up to its first zero, with zeros from there on. -/
def FixedString.cutAtZero {len : Nat} (field : FixedString len) : FixedString len :=
  Vector.ofFn fun i => if 0 ∈ field.toList.take (i + 1) then 0 else field[i]

theorem getD_takeWhile (bytes : List UInt8) (i : Nat) :
    (bytes.takeWhile (· ≠ 0)).getD i 0 =
      if 0 ∈ bytes.take (i + 1) then 0 else bytes.getD i 0 := by
  induction bytes generalizing i with
  | nil => simp
  | cons a bytes ih =>
      by_cases ha : a = 0
      · simp [ha]
      · cases i with
        | zero => simp [ha, Ne.symm ha]
        | succ i =>
            rw [List.takeWhile_cons_of_pos (by simpa using ha), List.getD_cons_succ, ih]
            simp [Ne.symm ha]

/-- A field that is read and written again is cut at its first zero. -/
theorem writeFixedString_readFixedString {len : Nat} (field : FixedString len) :
    writeFixedString len (readFixedString field) = field.cutAtZero := by
  unfold writeFixedString readFixedString FixedString.cutAtZero
  congr 1
  funext i
  rw [List.takeWhile_idem, getD_takeWhile]
  simp

/-! ## Reports -/

/-- The ids in a report. -/
structure OrderReport where
  orderID : UInt64
  clOrdID : FixedString 20
deriving DecidableEq, Repr

/-- The ids in a report that an order is accepted, filled, modified or cancelled. -/
def SbeMessage.orderReport : SbeMessage → Option OrderReport
  | .executionReportNew msg => some ⟨msg.orderID, msg.clOrdID⟩
  | .executionReportTradeOutright msg => some ⟨msg.orderID, msg.clOrdID⟩
  | .executionReportModify msg => some ⟨msg.orderID, msg.clOrdID⟩
  | .executionReportCancel msg => some ⟨msg.orderID, msg.clOrdID⟩
  | _ => none

/-- A report is built for an order. -/
structure OrderReport.IsFor (report : OrderReport) (names : Naming) (id : OrderId) : Prop where
  orderID_eq : report.orderID = .ofNat id
  clOrdID_eq : some report.clOrdID = (names id).map (writeFixedString 20)

/-- The reports of an event are built for the orders it speaks of. -/
theorem OrderEntryGateway.isFor_of_respond {g : OrderEntryGateway} {clock : Clock}
    {names : Naming} {e : EngineEvent} (he : e.Echoes names) {resp : OrderResponse}
    (hresp : resp ∈ (g.respond clock e).2) {report : OrderReport}
    (hreport : resp.sbeMessage.orderReport = some report) :
    ∃ id, e.Mentions id ∧ report.IsFor names id := by
  cases e with
  | orderAccepted e =>
      cases List.mem_singleton.mp hresp
      cases hreport
      exact ⟨e.orderId, rfl, rfl, (congrArg (Option.map (writeFixedString 20)) he).symm⟩
  | orderRejected e =>
      cases List.mem_singleton.mp hresp
      contradiction
  | orderFilled e =>
      rcases List.mem_append.mp hresp with hresp | hresp
      · cases List.mem_singleton.mp hresp
        cases hreport
        exact ⟨e.makerOrderId, Or.inl rfl, rfl,
          (congrArg (Option.map (writeFixedString 20)) he.1).symm⟩
      · cases List.mem_singleton.mp hresp
        cases hreport
        exact ⟨e.takerOrderId, Or.inr rfl, rfl,
          (congrArg (Option.map (writeFixedString 20)) he.2).symm⟩
  | orderCancelled e =>
      cases List.mem_singleton.mp hresp
      cases hreport
      exact ⟨e.orderId, rfl, rfl, (congrArg (Option.map (writeFixedString 20)) he).symm⟩
  | orderModified e =>
      cases List.mem_singleton.mp hresp
      cases hreport
      exact ⟨e.orderId, rfl, rfl, (congrArg (Option.map (writeFixedString 20)) he).symm⟩
  | orderCancelRejected e =>
      cases List.mem_singleton.mp hresp
      contradiction
  | bookUpdate u => simp [respond] at hresp

/-! ## The ledger -/

/-- The client id field of a request. -/
def ApplicationMessage.clOrdID : ApplicationMessage → Option (FixedString 20)
  | .newOrderSingle msg => some msg.clOrdID
  | .orderCancelReplaceRequest msg => some msg.clOrdID
  | .orderCancelRequest msg => some msg.clOrdID
  | .other _ => none

/-- The fields of the requests that wait in the queue, and for each order the field of the
request that last set its client id. -/
structure ClientIdLedger where
  pending : List (FixedString 20) := []
  latest : OrderId → Option (FixedString 20) := fun _ => none

namespace ClientIdLedger

/-- The note of a command that is taken off the queue: a new order that reaches a book is
created under the next order id, and a modification with a client id sets that of the order
it is applied to. -/
def apply (latest : OrderId → Option (FixedString 20)) (e : FullMatchingEngine)
    (cmd : OrderCommand) (field : FixedString 20) : OrderId → Option (FixedString 20) :=
  match cmd.type with
  | .newOrder order =>
      if order.status ≠ .rejected ∧ (e.orderBooks order.securityId).isSome then
        Function.update latest e.nextOrderId (some field)
      else latest
  | .cancelOrder => latest
  | .modifyOrder _ _ _ =>
      if ((e.bookAt (e.routeSecurity cmd.cancelOrderId cmd.securityId)).ordersById
          cmd.cancelOrderId).isSome ∧ readFixedString field ≠ [] then
        Function.update latest cmd.cancelOrderId (some field)
      else latest

/-- The ledger after a step of an exchange. -/
def step (ledger : ClientIdLedger) (x : Exchange) : ExchangeOp → ClientIdLedger
  | .addInstrument _ => ledger
  | .setTradingStatus _ _ => ledger
  | .message _ _ msg => { ledger with pending := ledger.pending ++ msg.clOrdID.toList }
  | .processNext _ =>
      match x.gateway.commandQueue, ledger.pending with
      | cmd :: _, field :: rest =>
          { pending := rest, latest := apply ledger.latest x.engine cmd field }
      | _, _ => ledger

/-- The naming of a ledger. -/
def names (latest : OrderId → Option (FixedString 20)) : Naming :=
  fun id => (latest id).map readFixedString

end ClientIdLedger

/-- An exchange next to its ledger, with the responses as outputs. -/
def Exchange.audited : Machine (Exchange × ClientIdLedger) ExchangeOp OrderResponse where
  step s op := (((s.1.outcome op).exchange, s.2.step s.1 op), (s.1.outcome op).responses)

/-! ## The ledger and the orders -/

/-- A queued command carries the string of its field. -/
def OrderCommand.NamedBy (cmd : OrderCommand) (field : FixedString 20) : Prop :=
  match cmd.type with
  | .newOrder order => order.clOrdId = readFixedString field
  | .cancelOrder => True
  | .modifyOrder _ _ newClOrdId => newClOrdId = readFixedString field

/-- The checks of the gateway leave the client id alone. -/
theorem OrderEntryGateway.clOrdId_checkedOrder (g : OrderEntryGateway)
    (sessionUuid : SessionUuid) (msg : NewOrderSingle514) (now : Int) :
    (g.checkedOrder sessionUuid msg now).clOrdId = readFixedString msg.clOrdID := by
  have hchecked : ∀ passed order, (checked passed order).clOrdId = order.clOrdId := by
    intro passed order
    cases passed <;> rfl
  simp only [checkedOrder, hchecked]
  rfl

namespace ClientIdLedger

theorem names_update (latest : OrderId → Option (FixedString 20)) (id : OrderId)
    (field : FixedString 20) :
    names (Function.update latest id (some field)) =
      Function.update (names latest) id (some (readFixedString field)) := by
  funext id'
  by_cases hid : id' = id
  · simp [names, hid]
  · simp [names, hid]

variable {latest : OrderId → Option (FixedString 20)} {e : FullMatchingEngine}
  {cmd : OrderCommand} {field : FixedString 20} {clock : Clock}

/-- The ledger notes what a request to the engine does to the client ids. -/
theorem names_apply (hnamed : cmd.NamedBy field) {op : EngineOp}
    (hrequest : cmd.request clock e = some op) :
    names (apply latest e cmd field) = e.renames (names latest) op := by
  unfold apply FullMatchingEngine.renames
  unfold OrderCommand.NamedBy at hnamed
  cases OrderCommand.requests_of_request hrequest with
  | @newOrder order htype hstatus =>
      rw [htype] at hnamed ⊢
      simp only at hnamed ⊢
      cases hbook : e.orderBooks order.securityId with
      | none => simp [FullMatchingEngine.route, hbook]
      | some book =>
          rw [e.route_submit _ hbook, if_pos ⟨hstatus, rfl⟩, names_update, ← hnamed]
          rfl
  | cancelOrder htype =>
      rw [htype]
      simp only [FullMatchingEngine.route]
      cases e.orderBooks (e.routeSecurity cmd.cancelOrderId cmd.securityId) <;> rfl
  | @modifyOrder newPrice newQty newClOrdId htype =>
      rw [htype] at hnamed ⊢
      simp only at hnamed ⊢
      rw [hnamed]
      cases hbook : e.orderBooks (e.routeSecurity cmd.cancelOrderId cmd.securityId) with
      | none =>
          -- The book of an unknown security has no orders.
          simp [FullMatchingEngine.route, FullMatchingEngine.bookAt, hbook]
      | some book =>
          rw [e.route_modify _ _ _ hbook]
          simp only [BookOp.renames, FullMatchingEngine.bookState]
          by_cases hset : ((e.bookAt (e.routeSecurity cmd.cancelOrderId
              cmd.securityId)).ordersById cmd.cancelOrderId).isSome ∧ readFixedString field ≠ []
          · rw [if_pos hset, names_update]
            exact (if_pos hset).symm
          · rw [if_neg hset]
            exact (if_neg hset).symm

/-- A command that makes no request sets no client id. -/
theorem apply_of_no_request (hrequest : cmd.request clock e = none) :
    apply latest e cmd field = latest := by
  unfold OrderCommand.request at hrequest
  unfold apply
  cases htype : cmd.type with
  | newOrder order =>
      rw [htype] at hrequest
      have hstatus : order.status = .rejected := by simpa using hrequest
      simp [hstatus]
  | cancelOrder => rfl
  | modifyOrder newPrice newQty newClOrdId =>
      rw [htype] at hrequest
      contradiction

end ClientIdLedger

/-- The ledger has the fields of the queued commands, and the orders carry the client ids
it has for them. -/
structure LedgerInv (s : Exchange × ClientIdLedger) : Prop where
  exchange_inv : ExchangeInv s.1
  pending : List.Forall₂ OrderCommand.NamedBy s.1.gateway.commandQueue s.2.pending
  carries : ∀ r < s.1.engine.heap.next,
    (s.1.engine.heap.read r).Carries (ClientIdLedger.names s.2.latest)

namespace LedgerInv

variable {x : Exchange} {ledger : ClientIdLedger} {cmd : OrderCommand}
  {rest : List OrderCommand} {field : FixedString 20} {fields : List (FixedString 20)}

theorem init (mgr : InstrumentManager) (config : RiskConfig) :
    LedgerInv (.init mgr config, {}) where
  exchange_inv := .init mgr config
  pending := .nil
  carries r hr := (Nat.not_lt_zero r hr).elim

/-- A command that is taken off the queue: its events carry the client ids of the ledger
after it, and so do the orders. -/
theorem processCommand (hinv : LedgerInv (x, ledger)) (clock : Clock)
    (hqueue : x.gateway.commandQueue = cmd :: rest) (hnamed : cmd.NamedBy field) :
    let names := ClientIdLedger.names (ClientIdLedger.apply ledger.latest x.engine cmd field)
    let p := x.processNext clock
    (∀ e ∈ p.events, e.Echoes names) ∧
      ∀ r < p.exchange.engine.heap.next, (p.exchange.engine.heap.read r).Carries names := by
  intro names p
  have houtcome : (p.exchange.engine, p.events) = _ := x.outcome_engine (.processNext clock)
  have hrequests : x.request (.processNext clock) = cmd.request clock x.engine := by
    simp [Exchange.request, hqueue]
  rw [hrequests] at houtcome
  cases hrequest : cmd.request clock x.engine with
  | none =>
      rw [hrequest, Prod.mk.injEq] at houtcome
      have hsame : names = ClientIdLedger.names ledger.latest :=
        congrArg ClientIdLedger.names (ClientIdLedger.apply_of_no_request hrequest)
      rw [houtcome.1, houtcome.2, hsame]
      exact ⟨by simp, hinv.carries⟩
  | some eop =>
      rw [hrequest, Prod.mk.injEq] at houtcome
      have hnames : names = x.engine.renames (ClientIdLedger.names ledger.latest) eop :=
        ClientIdLedger.names_apply hnamed hrequest
      rw [houtcome.1, houtcome.2, hnames]
      exact FullMatchingEngine.echoes_outcome hinv.exchange_inv.engine_inv
        (hinv.exchange_inv.request_fresh (hrequests.trans hrequest)) hinv.carries

/-- One step keeps the ledger true. -/
theorem step (hinv : LedgerInv (x, ledger)) (op : ExchangeOp) :
    LedgerInv ((x.outcome op).exchange, ledger.step x op) := by
  have hexchange := hinv.exchange_inv.step op
  have hpending := hinv.pending
  cases op with
  | addInstrument securityId =>
      refine ⟨hexchange, hpending, ?_⟩
      have hroute : x.engine.route (.addInstrument securityId) = none := rfl
      have hheap := (FullMatchingEngine.step_of_not_routed hroute).1
      simp only [Exchange.outcome, ClientIdLedger.step]
      simp only [FullMatchingEngine.outcome] at hheap
      rw [hheap]
      exact hinv.carries
  | setTradingStatus securityId status => exact ⟨hexchange, hpending, hinv.carries⟩
  | message sessionUuid now msg =>
      refine ⟨hexchange, ?_, hinv.carries⟩
      cases msg with
      | newOrderSingle msg =>
          refine List.rel_append hpending (.cons ?_ .nil)
          exact x.gateway.clOrdId_checkedOrder sessionUuid msg now
      | orderCancelReplaceRequest msg =>
          refine List.rel_append hpending (.cons ?_ .nil)
          rw [ite_self]
          exact rfl
      | orderCancelRequest msg =>
          refine List.rel_append hpending (.cons ?_ .nil)
          split <;> trivial
      | other templateId =>
          rw [ClientIdLedger.step, ApplicationMessage.clOrdID, Option.toList_none,
            List.append_nil]
          exact hpending
  | processNext clock =>
      simp only [Exchange.outcome, ClientIdLedger.step] at hexchange ⊢
      have htail := x.commandQueue_processNext clock
      cases hqueue : x.gateway.commandQueue with
      | nil =>
          rw [hqueue] at htail
          simp only [hqueue] at hpending
          refine ⟨hexchange, by rw [htail]; exact hpending, ?_⟩
          have hidle : (x.processNext clock).exchange = x := by
            rw [Exchange.processNext, hqueue]
          rw [hidle]
          exact hinv.carries
      | cons cmd rest =>
          rw [hqueue] at htail
          simp only [hqueue] at hpending
          cases hfields : ledger.pending with
          | nil =>
              rw [hfields] at hpending
              cases hpending
          | cons field fields =>
              rw [hfields] at hpending
              cases hpending with
              | cons hnamed hrest =>
                  refine ⟨hexchange, by rw [htail]; exact hrest, ?_⟩
                  exact (hinv.processCommand clock hqueue hnamed).2

/-- The ledger is true along every run. -/
theorem run (mgr : InstrumentManager) (config : RiskConfig) (ops : List ExchangeOp) :
    LedgerInv (Exchange.audited.run (.init mgr config, {}) ops).1 := by
  have hadmits := Machine.admits_of_forall (m := Exchange.audited)
    (fun _ _ => trivial) (.init mgr config, {}) ops
  refine Machine.state_invariant (P := LedgerInv) (init mgr config) ?_ ops hadmits
  intro s op hs _
  exact hs.step op

end LedgerInv

/-! ## Reports along a run -/

/-- The reports on events that carry the client ids of a naming. -/
theorem OrderEntryGateway.isFor_of_responder {handles : EngineEvent → Bool} {clock : Clock}
    {names : Naming} {es : List EngineEvent} (hes : ∀ e ∈ es, e.Echoes names)
    (g : OrderEntryGateway) :
    ∀ resp ∈ ((responder handles clock).run g es).2, ∀ report,
      resp.sbeMessage.orderReport = some report →
      ∃ e ∈ es, ∃ id, e.Mentions id ∧ report.IsFor names id := by
  apply Machine.forall_run_output
  intro g' e he resp hresp report hreport
  by_cases hhandles : handles e = true
  · simp only [responder, hhandles, if_true] at hresp
    exact ⟨e, he, isFor_of_respond (hes e he) hresp hreport⟩
  · simp [responder, hhandles] at hresp

/-- A rejection before the engine is no report for an order. -/
theorem Exchange.orderReport_of_no_request {x : Exchange} {clock : Clock} {cmd : OrderCommand}
    (hrequest : cmd.request clock x.engine = none) :
    ∀ resp ∈ (x.processCommand clock cmd).responses, resp.sbeMessage.orderReport = none := by
  unfold OrderCommand.request at hrequest
  unfold processCommand
  cases htype : cmd.type with
  | newOrder order =>
      have hstatus : order.status = .rejected := by
        rw [htype] at hrequest
        simpa using hrequest
      intro resp hresp
      simp only [hstatus, if_true] at hresp
      cases List.mem_singleton.mp hresp
      rfl
  | cancelOrder =>
      rw [htype] at hrequest
      contradiction
  | modifyOrder newPrice newQty newClOrdId =>
      rw [htype] at hrequest
      contradiction

/-- The reports of a command that is taken off the queue. -/
theorem LedgerInv.isFor_of_processNext {x : Exchange} {ledger : ClientIdLedger}
    {cmd : OrderCommand} {rest : List OrderCommand} {field : FixedString 20}
    (hinv : LedgerInv (x, ledger)) (clock : Clock)
    (hqueue : x.gateway.commandQueue = cmd :: rest) (hnamed : cmd.NamedBy field) :
    ∀ resp ∈ (x.processNext clock).responses, ∀ report,
      resp.sbeMessage.orderReport = some report →
      ∃ e ∈ (x.processNext clock).events, ∃ id, e.Mentions id ∧
        report.IsFor
          (ClientIdLedger.names (ClientIdLedger.apply ledger.latest x.engine cmd field)) id := by
  have hechoes := (hinv.processCommand clock hqueue hnamed).1
  have hnext : x.processNext clock = (x.popped rest).processCommand clock cmd := by
    rw [Exchange.processNext, hqueue]
  rw [hnext] at hechoes ⊢
  cases hrequest : cmd.request clock (x.popped rest).engine with
  | none =>
      intro resp hresp report hreport
      rw [Exchange.orderReport_of_no_request hrequest resp hresp] at hreport
      contradiction
  | some eop =>
      rw [Exchange.processCommand_of_request hrequest] at hechoes ⊢
      exact OrderEntryGateway.isFor_of_responder hechoes _

/-- Every report that an order is accepted, filled, modified or cancelled carries the field
of the request that last set the client id of that order, cut at its first zero. -/
theorem client_order_ids_echoed (mgr : InstrumentManager) (config : RiskConfig)
    (ops : List ExchangeOp) (op : ExchangeOp) :
    let s := (Exchange.audited.run (.init mgr config, {}) ops).1
    ∀ resp ∈ (s.1.outcome op).responses, ∀ report,
      resp.sbeMessage.orderReport = some report →
      ∃ e ∈ (s.1.outcome op).events, ∃ id field, e.Mentions id ∧
        report.orderID = .ofNat id ∧ (s.2.step s.1 op).latest id = some field ∧
        report.clOrdID = field.cutAtZero := by
  intro s resp hresp report hreport
  have hinv : LedgerInv (s.1, s.2) := LedgerInv.run mgr config ops
  cases op with
  | addInstrument securityId => simp [Exchange.outcome] at hresp
  | setTradingStatus securityId status => simp [Exchange.outcome] at hresp
  | message sessionUuid now msg => simp [Exchange.outcome] at hresp
  | processNext clock =>
      simp only [Exchange.outcome, ClientIdLedger.step] at hresp ⊢
      have hpending := hinv.pending
      cases hqueue : s.1.gateway.commandQueue with
      | nil =>
          rw [Exchange.processNext, hqueue] at hresp
          simp at hresp
      | cons cmd rest =>
          simp only [hqueue] at hpending ⊢
          cases hfields : s.2.pending with
          | nil =>
              rw [hfields] at hpending
              cases hpending
          | cons field fields =>
              rw [hfields] at hpending
              cases hpending with
              | cons hnamed _ =>
                  rcases hinv.isFor_of_processNext clock hqueue hnamed resp hresp report hreport
                    with ⟨e, he, id, hmentions, hfor⟩
                  have hclOrdID := hfor.clOrdID_eq
                  unfold ClientIdLedger.names at hclOrdID
                  rw [Option.map_map, eq_comm, Option.map_eq_some_iff] at hclOrdID
                  rcases hclOrdID with ⟨set, hset, hwritten⟩
                  refine ⟨e, he, id, set, hmentions, hfor.orderID_eq, hset, ?_⟩
                  rw [← hwritten]
                  exact writeFixedString_readFixedString set

/-- An order is renamed and then filled by another session: the fill reports the new
client id. -/
theorem client_order_ids_echoed_of_renamed_maker :
    let mgr : InstrumentManager := .single { securityId := 7, tickMantissa := 25 }
    let clock : Clock := { order := fun _ => 0, report := fun _ => 0 }
    let first : FixedString 20 := writeFixedString 20 [65, 66]
    let second : FixedString 20 := writeFixedString 20 [67]
    let ops : List ExchangeOp :=
      [.addInstrument 7,
        .message 3 2000000000 (.newOrderSingle
          { price := 100, orderQty := 5, securityID := 7, side := 1, ordType := 2,
            clOrdID := first }),
        .processNext clock,
        .message 3 2000000001 (.orderCancelReplaceRequest
          { price := 125, orderQty := 5, securityID := 7, orderID := 1, clOrdID := second }),
        .processNext clock,
        .message 4 2000000002 (.newOrderSingle
          { price := 125, orderQty := 5, securityID := 7, side := 2, ordType := 2 })]
    let s := (Exchange.audited.run (.init mgr {}, {}) ops).1
    let p := s.1.outcome (.processNext clock)
    ∃ resp ∈ p.responses, ∃ report, resp.sbeMessage.orderReport = some report ∧
      report.orderID = 1 ∧ report.clOrdID = second ∧
      ∃ e ∈ p.events, ∃ id field, e.Mentions id ∧ report.orderID = .ofNat id ∧
        (s.2.step s.1 (.processNext clock)).latest id = some field ∧
        report.clOrdID = field.cutAtZero := by
  intro mgr clock first second ops s p
  have hreport : ∃ resp ∈ p.responses, resp.sbeMessage.orderReport = some ⟨1, second⟩ := by
    decide +kernel
  rcases hreport with ⟨resp, hresp, hreport⟩
  have hechoed := client_order_ids_echoed mgr {} ops (.processNext clock) resp hresp _ hreport
  exact ⟨resp, hresp, ⟨1, second⟩, hreport, rfl, rfl, hechoed⟩

end SimCme
