import SimCme.Engine.Blotter
import SimCme.Gateway.Answers

/-!
# Readings of the reports

The reports of the gateway say what the events of the engine say, to the sessions concerned.  A
reading keeps a picture of the reports.  If the answer to every event brings the picture from
the history before it to the history after it, the picture fits the history after every run.

Main results:

- Theorem {lit}`FullMatchingEngine.skips_of_request`: a dispatcher skips silent events only.
- Theorem {lit}`Reading.run`: the rule for whole runs of the exchange.
-/

namespace SimCme

open Library

/-- Ids of 64 bits are kept apart on the wire. -/
theorem orderID_ne {id id' : OrderId} (hid : id < 2 ^ 64) (hid' : id' < 2 ^ 64) (hne : id ≠ id') :
    UInt64.ofNat id ≠ .ofNat id' := by
  intro heq
  have hnat := congrArg UInt64.toNat heq
  rw [UInt64.toNat_ofNat_of_lt' hid, UInt64.toNat_ofNat_of_lt' hid'] at hnat
  exact hne hnat

/-! ## Skipped events -/

namespace FullMatchingEngine

variable {e : FullMatchingEngine}

/-- The dispatcher of a cancel command skips silent events only. -/
theorem cancelOrder_skips (hinv : EngineInv e) (id : OrderId) (securityId : SecurityId)
    (sender : SessionUuid) :
    ∀ x ∈ (e.cancelOrder id securityId sender).events, x.answersCancel = false → x.Silent := by
  have hbookInv := hinv.book_inv (e.routeSecurity id securityId)
  cases hbook : e.orderBooks (e.routeSecurity id securityId) with
  | none => simp [cancelOrder, hbook, EngineEvent.answersCancel]
  | some book =>
      rw [bookAt_of_some hbook] at hbookInv
      simp only [cancelOrder, hbook, OrderBook.cancelOrder]
      cases hindexed : book.ordersById id with
      | none => simp [EngineEvent.answersCancel]
      | some r =>
          have hr := ((hbookInv.indexed _ r).mp hindexed).1
          rcases OrderBook.removeFromBook_spec hbookInv hr with ⟨edit, level, hedit⟩
          simp [hedit.events_eq, OrderBook.cancelRest, OrderBook.cancelledEvent,
            EngineEvent.answersCancel, silent_bookUpdate]

/-- The dispatcher of a modify command skips silent events only. -/
theorem modifyOrder_skips (hinv : EngineInv e) (id : OrderId) (securityId : SecurityId)
    (newPrice : Price) (newQty : Int) (newClOrdId : ClOrdId) :
    ∀ x ∈ (e.modifyOrder id securityId newPrice newQty newClOrdId).events,
      x.answersModify = false → x.Silent := by
  have hbookInv := hinv.book_inv (e.routeSecurity id securityId)
  cases hbook : e.orderBooks (e.routeSecurity id securityId) with
  | none => simp [modifyOrder, hbook, EngineEvent.answersModify]
  | some book =>
      rw [bookAt_of_some hbook] at hbookInv
      simp only [modifyOrder, hbook]
      cases hindexed : book.ordersById id with
      | none => simp [OrderBook.modifyOrder, hindexed, EngineEvent.answersModify]
      | some r =>
          intro x hx hskipped
          rcases (OrderBook.modifyOrder_events hbookInv hindexed).2 x hx with
            ⟨u, rfl⟩ | rfl | ⟨f, rfl, -⟩
          · exact silent_bookUpdate u
          · contradiction
          · contradiction

/-- The dispatcher of a command skips silent events only. -/
theorem skips_of_request (hinv : EngineInv e) {clock : Clock} {cmd : OrderCommand} {op : EngineOp}
    (hrequest : cmd.request clock e = some op) :
    ∀ x ∈ (e.outcome op).events, cmd.answers x = false → x.Silent := by
  unfold OrderCommand.answers
  cases OrderCommand.requests_of_request hrequest with
  | newOrder htype hnot =>
      rw [htype]
      intro x _ hskipped
      contradiction
  | cancelOrder htype =>
      rw [htype]
      exact cancelOrder_skips hinv _ _ _
  | modifyOrder htype =>
      rw [htype]
      exact modifyOrder_skips hinv _ _ _ _ _

end FullMatchingEngine

/-! ## Readings -/

/-- A picture of the responses, and the histories of the engine that it fits. -/
structure Reading {π : Type} (R : List EngineEvent → π → Prop) (hear : π → OrderResponse → π) :
    Prop where
  respond : ∀ {es p e} (g : OrderEntryGateway) (clock : Clock), R es p → (blotter es).Expects e →
    (∀ id, e.Mentions id → id < 2 ^ 64) → R (es ++ [e]) ((g.respond clock e).2.foldl hear p)
  skip : ∀ {es p e}, R es p → e.Silent → R (es ++ [e]) p
  reject : ∀ {es p} (sessionUuid : SessionUuid) (msg : ExecutionReportReject523), R es p →
    R es (hear p ⟨sessionUuid, .executionReportReject msg⟩)

/-- The machine whose outputs are the responses. -/
def Exchange.reporter : Machine Exchange ExchangeOp OrderResponse where
  step x op := ((x.outcome op).exchange, (x.outcome op).responses)

/-- A run of the exchange, with a picture of its responses. -/
structure Informed {π : Type} (R : List EngineEvent → π → Prop) (p : π) (x : Exchange)
    (es : List EngineEvent) : Prop where
  exchange_inv : ExchangeInv x
  blotted : ∀ s, Blotted none es x.engine.heap (x.engine.bookAt s)
  final : ∀ s, Final none es x.engine.heap (x.engine.bookAt s)
  told : x.engine.nextOrderId ≤ 2 ^ 64 → R es p

/-- The engine gives out ids in ascending order. -/
theorem nextOrderId_le_outcome (x : Exchange) (op : ExchangeOp) :
    x.engine.nextOrderId ≤ (x.outcome op).exchange.engine.nextOrderId := by
  cases hrequest : x.request op with
  | none => rw [ExchangeInv.engine_of_no_request hrequest]
  | some eop =>
      rw [ExchangeInv.engine_of_request hrequest]
      exact x.engine.nextOrderId_le eop

namespace Reading

variable {π : Type} {R : List EngineEvent → π → Prop} {hear : π → OrderResponse → π}
  {es : List EngineEvent} {p : π} {stop : Blotter} {x : Exchange}

/-- The responses to the events of a request, when a dispatcher skips silent events only. -/
theorem responder (hreading : Reading R hear) (hR : R es p) {events : List EngineEvent}
    (hfollows : bookkeeper.Follows (blotter es) events stop)
    (hids : ∀ e ∈ events, ∀ id, e.Mentions id → id < 2 ^ 64) {handles : EngineEvent → Bool}
    (hskips : ∀ e ∈ events, handles e = false → e.Silent) (g : OrderEntryGateway)
    (clock : Clock) :
    R (es ++ events)
      (((OrderEntryGateway.responder handles clock).run g events).2.foldl hear p) := by
  induction events generalizing g es p with
  | nil =>
      rw [List.append_nil]
      exact hR
  | cons e events ih =>
      rw [List.forall_mem_cons] at hids hskips
      have hnext : R (es ++ [e])
          (((OrderEntryGateway.responder handles clock).step g e).2.foldl hear p) := by
        simp only [OrderEntryGateway.responder]
        cases hhandles : handles e with
        | true => exact hreading.respond g clock hR hfollows.1 hids.1
        | false => exact hreading.skip hR (hskips.1 hhandles)
      have hblotter : blotter (es ++ [e]) = bookkeeper.see (blotter es) e := blotter_append es [e]
      have hrest := ih hnext (by rw [hblotter]; exact hfollows.2) hids.2 hskips.2
        ((OrderEntryGateway.responder handles clock).step g e).1
      rw [List.append_assoc] at hrest
      simp only [Machine.run, List.foldl_append]
      exact hrest

/-- One command. -/
theorem processCommand (hreading : Reading R hear) (hR : R es p) (hinv : EngineInv x.engine)
    (clock : Clock) (cmd : OrderCommand)
    (hfollows : bookkeeper.Follows (blotter es) (x.processCommand clock cmd).events stop)
    (hids : ∀ e ∈ (x.processCommand clock cmd).events, ∀ id, e.Mentions id → id < 2 ^ 64) :
    R (es ++ (x.processCommand clock cmd).events)
      ((x.processCommand clock cmd).responses.foldl hear p) := by
  cases hrequest : cmd.request clock x.engine with
  | some op =>
      rw [Exchange.processCommand_of_request hrequest] at hfollows hids ⊢
      exact hreading.responder hR hfollows hids
        (FullMatchingEngine.skips_of_request hinv hrequest) x.gateway clock
  | none =>
      -- The sender of an order that failed a check is told of a rejection.
      cases htype : cmd.type with
      | newOrder order =>
          simp only [OrderCommand.request, htype] at hrequest
          simp only [Exchange.processCommand, htype]
          by_cases hstatus : order.status = .rejected
          · rw [if_pos hstatus, List.append_nil]
            exact hreading.reject _ _ hR
          · rw [if_neg hstatus] at hrequest
            contradiction
      | cancelOrder =>
          simp only [OrderCommand.request, htype] at hrequest
          contradiction
      | modifyOrder newPrice newQty newClOrdId =>
          simp only [OrderCommand.request, htype] at hrequest
          contradiction

/-- One step of the exchange. -/
theorem outcome (hreading : Reading R hear) (hR : R es p) (hinv : EngineInv x.engine)
    (op : ExchangeOp) (hfollows : bookkeeper.Follows (blotter es) (x.outcome op).events stop)
    (hids : ∀ e ∈ (x.outcome op).events, ∀ id, e.Mentions id → id < 2 ^ 64) :
    R (es ++ (x.outcome op).events) ((x.outcome op).responses.foldl hear p) := by
  have hnothing : R (es ++ []) p := by
    rw [List.append_nil]
    exact hR
  cases op with
  | addInstrument securityId => exact hnothing
  | setTradingStatus securityId status => exact hnothing
  | message sessionUuid now msg => exact hnothing
  | processNext clock =>
      simp only [Exchange.outcome, Exchange.processNext] at hfollows hids ⊢
      cases hqueue : x.gateway.commandQueue with
      | nil => exact hnothing
      | cons cmd rest =>
          simp only [hqueue] at hfollows hids
          exact hreading.processCommand (x := x.popped rest) hR hinv clock cmd hfollows hids

/-- A step keeps a run informed. -/
theorem step (hreading : Reading R hear) (hinformed : Informed R p x es) (op : ExchangeOp) :
    Informed R ((x.outcome op).responses.foldl hear p) (x.outcome op).exchange
      (es ++ (x.outcome op).events) := by
  have hinv := hinformed.exchange_inv.step op
  have hblotted : ∀ s, Blotted none (es ++ (x.outcome op).events)
      (x.outcome op).exchange.engine.heap ((x.outcome op).exchange.engine.bookAt s) :=
    hinformed.exchange_inv.law_outcome blotted_engineLaw (fun _ _ _ _ _ => trivial)
      hinformed.blotted
  have hfinal : ∀ s, Final none (es ++ (x.outcome op).events)
      (x.outcome op).exchange.engine.heap ((x.outcome op).exchange.engine.bookAt s) :=
    hinformed.exchange_inv.law_outcome final_engineLaw (fun _ _ _ _ _ => trivial)
      hinformed.final
  refine ⟨hinv, hblotted, hfinal, ?_⟩
  intro hle
  rcases (hblotted 0).follows.of_append with ⟨middle, hfirst, hrest⟩
  rw [← hfirst.seen_eq] at hrest
  refine hreading.outcome (hinformed.told ((nextOrderId_le_outcome x op).trans hle))
    hinformed.exchange_inv.engine_inv op hrest ?_
  intro e he id hmentions
  rcases (hfinal 0).known e (List.mem_append_right _ he) id hmentions with ⟨r, hr, rfl⟩
  exact lt_of_lt_of_le (hinv.engine_inv.ids_lt r hr) hle

/-- The picture fits the history after every run. -/
theorem run (hreading : Reading R hear) (hR : R [] p) (mgr : InstrumentManager)
    (config : RiskConfig) (ops : List ExchangeOp) :
    let r := Exchange.machine.run (.init mgr config) ops
    Informed R ((Exchange.reporter.run (.init mgr config) ops).2.foldl hear p) r.1 r.2 := by
  have hadmits : Exchange.machine.Admits (fun _ _ => True) (.init mgr config) ops :=
    Machine.admits_of_forall (fun _ _ => trivial) _ ops
  have hinit : Informed R p (.init mgr config) [] :=
    ⟨.init mgr config, blotted_empty, final_empty, fun _ => hR⟩
  refine (Machine.history_invariant
    (P := fun is x es => (Exchange.reporter.run (.init mgr config) is).1 = x ∧
      Informed R ((Exchange.reporter.run (.init mgr config) is).2.foldl hear p) x es)
    ⟨rfl, hinit⟩ ?_ ops hadmits).2
  rintro is x es op ⟨rfl, hinformed⟩ -
  rw [Exchange.reporter.run_concat]
  refine ⟨rfl, ?_⟩
  rw [List.foldl_append]
  exact hreading.step hinformed op

end Reading

/-- The ids spoken of in a run that has given out no more ids than the wire can carry. -/
theorem Informed.lt_of_mentions {π : Type} {R : List EngineEvent → π → Prop} {p : π}
    {x : Exchange} {es : List EngineEvent} (hinformed : Informed R p x es)
    (hids : x.engine.nextOrderId ≤ 2 ^ 64) {e : EngineEvent} (he : e ∈ es) {id : OrderId}
    (hmentions : e.Mentions id) : id < 2 ^ 64 := by
  rcases (hinformed.final 0).known e he id hmentions with ⟨r, hr, rfl⟩
  exact lt_of_lt_of_le (hinformed.exchange_inv.engine_inv.ids_lt r hr) hids

/-- The orders in the books have lines, and ids that the wire can carry. -/
theorem Informed.resting {π : Type} {R : List EngineEvent → π → Prop} {p : π} {x : Exchange}
    {es : List EngineEvent} (hinformed : Informed R p x es)
    (hids : x.engine.nextOrderId ≤ 2 ^ 64) {s : SecurityId} {book : OrderBook} {o : OrderRef}
    (hbook : x.engine.orderBooks s = some book) (ho : book.Resting o) :
    (x.engine.heap.read o).orderId < 2 ^ 64 ∧
      blotter es (x.engine.heap.read o).orderId = some (x.engine.heap.read o).line := by
  rw [← FullMatchingEngine.bookAt_of_some hbook] at ho
  have halloc := (hinformed.exchange_inv.engine_inv.book_inv s).allocated o ho
  have hlt := hinformed.exchange_inv.engine_inv.ids_lt o halloc
  exact ⟨lt_of_lt_of_le hlt hids, (hinformed.blotted s).held o (.inl ho)⟩

end SimCme
