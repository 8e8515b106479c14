import SimCme.Engine.PriceTime
import SimCme.Gateway.GatewayRuns

/-!
# Answers to commands

A response goes to the session an event names, not to the sender of the command.
New orders are always answered to their sender.  A request for an order that is
not there is answered to session zero, except by {lit}`cancelOrder` for an unknown
security; a request for an order of another session is answered to that session.
This file proves exactly which commands are answered to their sender.

Main results:

- Theorem {lit}`answered_iff_of_request`: the sessions a request is answered to.
- Theorem {lit}`command_answered_iff`: the commands that are answered to their
  sender, on every reachable exchange.
-/

namespace SimCme

open Library

/-! ## Events of one operation -/

/-- A chain of trades emits fills of the taker and reports of the book. -/
theorem OrderBook.Fills.events_cases {s : BookSide} {stop : Price → Bool} {taker : OrderRef}
    {h h' : Heap Order} {b b' : OrderBook} {events : List EngineEvent}
    (hfills : OrderBook.Fills s stop taker h b events h' b') :
    ∀ e ∈ events, (∃ u, e = .bookUpdate u) ∨
      ∃ f, e = .orderFilled f ∧ f.takerSessionUuid = (h.read taker).sessionUuid := by
  induction hfills with
  | done => simp
  | trade f _ ih =>
      have hsession := Order.field_of_terms Order.sessionUuid (f.read_terms taker) fun _ => rfl
      intro e he
      rcases List.mem_append.mp he with he | he
      · simp only [Fill.events, List.mem_cons, List.not_mem_nil, or_false] at he
        rcases he with rfl | rfl
        · exact Or.inr ⟨_, rfl, rfl⟩
        · exact Or.inl ⟨_, rfl⟩
      · rw [← hsession]
        exact ih e he

/-- What a modification of a resting order emits. -/
theorem OrderBook.modifyOrder_events {h : Heap Order} {b : OrderBook} {r : OrderRef}
    {orderId : OrderId} {newPrice : Price} {newQty : Int} {newClOrdId : ClOrdId}
    (hinv : BookInv h b) (hindexed : b.ordersById orderId = some r) :
    let o := modifiedOrder (h.read r) newPrice newQty newClOrdId
    let events := (b.modifyOrder h orderId newPrice newQty newClOrdId).events
    modifiedEvent o newPrice newQty ∈ events ∧
      ∀ e ∈ events, (∃ u, e = .bookUpdate u) ∨ e = modifiedEvent o newPrice newQty ∨
        ∃ f, e = .orderFilled f ∧ f.takerSessionUuid = (h.read r).sessionUuid := by
  have hr := ((hinv.indexed _ r).mp hindexed).1
  rcases removeFromBook_spec hinv hr with ⟨edit, level, hedit⟩
  rcases hinv.modified hr newPrice newQty newClOrdId with ⟨hinv', hflight'⟩
  have hmatched := (matchOrder_fills hinv' hflight').1.events_cases
  rw [h.read_modify_self] at hmatched
  have hreinserted : ∀ (b : OrderBook) (h : Heap Order),
      ∀ e ∈ (b.reinsertOrder h r).events, ∃ u, e = .bookUpdate u := by
    intro b h e he
    unfold reinsertOrder at he
    simp only at he
    split at he
    · rcases insertResting_spec b h r with ⟨edit, hinserted⟩
      rw [hinserted.events_eq, List.mem_singleton] at he
      exact ⟨_, he⟩
    · contradiction
  simp only [modifyOrder, hindexed, hedit.events_eq, h.read_modify_self]
  constructor
  · simp
  · intro e he
    simp only [List.mem_append, List.mem_cons, List.not_mem_nil, or_false] at he
    rcases he with (he | he | he) | he
    · exact Or.inl ⟨_, he⟩
    · exact Or.inr (Or.inl he)
    · exact (hmatched e he).imp id Or.inr
    · exact Or.inl (hreinserted _ _ e he)

/-- The makers of a walk over the opposite queues, by what is read before it. -/
theorem OrderBook.mem_offerFills_iff {β : Type} {h : Heap Order} {b : OrderBook}
    (hinv : BookInv h b) (field : Order → β) (o : Order) (u : β) :
    u ∈ offerFills (fun maker _ => field maker) (takerStop o) h o.remainingQty
        (b.queued (takerSide o)) ↔
      ∃ before m after, b.queued (takerSide o) = before ++ m :: after ∧
        (∀ r ∈ before, crosses h o r = true) ∧ crosses h o m = true ∧
        (before.map fun r => (h.read r).remainingQty).sum < o.remainingQty ∧
        field (h.read m) = u := by
  have hpos : ∀ r ∈ b.queued (takerSide o), 0 < (h.read r).remainingQty :=
    fun r hr => hinv.remaining_pos_of_resting ⟨_, hr⟩
  unfold offerFills
  constructor
  · intro hu
    rcases List.mem_map.mp hu with ⟨x, hx, rfl⟩
    rcases (mem_allocate_iff hpos x.1).mp (List.mem_map_of_mem hx) with
      ⟨before, after, hsplit, hbefore, hm, hsum⟩
    exact ⟨before, x.1, after, hsplit, hbefore, hm, hsum, rfl⟩
  · rintro ⟨before, m, after, hsplit, hbefore, hm, hsum, rfl⟩
    rcases List.mem_map.mp ((mem_allocate_iff hpos m).mpr
      ⟨before, after, hsplit, hbefore, hm, hsum⟩) with ⟨x, hx, rfl⟩
    exact List.mem_map.mpr ⟨x, hx, rfl⟩

theorem mem_fillsOf_iff {β : Type} {view : OrderFilled → β} {es : List EngineEvent} {u : β} :
    u ∈ fillsOf view es ↔ ∃ f, .orderFilled f ∈ es ∧ view f = u := by
  unfold fillsOf
  rw [List.mem_filterMap]
  constructor
  · rintro ⟨e, he, heq⟩
    cases e with
    | orderFilled f => exact ⟨f, he, Option.some.inj heq⟩
    | _ => contradiction
  · rintro ⟨f, hf, rfl⟩
    exact ⟨_, hf, rfl⟩

/-! ## Responses to a command -/

/-- A session is answered while a command is processed. -/
def Processed.Answers (p : Processed) (sessionUuid : SessionUuid) : Prop :=
  ∃ resp ∈ p.responses, resp.sessionUuid = sessionUuid

instance (p : Processed) (sessionUuid : SessionUuid) : Decidable (p.Answers sessionUuid) :=
  inferInstanceAs (Decidable (∃ resp ∈ p.responses, resp.sessionUuid = sessionUuid))

theorem Processed.answers_iff_mem (p : Processed) (sessionUuid : SessionUuid) :
    p.Answers sessionUuid ↔ sessionUuid ∈ p.responses.map OrderResponse.sessionUuid := by
  unfold Processed.Answers
  rw [List.mem_map]

/-- The sessions a request is answered to. -/
theorem answered_iff_of_request {x : Exchange} {clock : Clock} {cmd : OrderCommand}
    {op : EngineOp} (hrequest : cmd.request clock x.engine = some op)
    (sessionUuid : SessionUuid) :
    (x.processCommand clock cmd).Answers sessionUuid ↔
      ∃ e ∈ (x.engine.outcome op).events, cmd.answers e = true ∧ sessionUuid ∈ e.sessions := by
  rw [Processed.answers_iff_mem, Exchange.processCommand_of_request hrequest]
  simp only [Exchange.answer]
  rw [OrderEntryGateway.sessions_responder, List.mem_flatMap]
  constructor
  · rintro ⟨e, he, hsession⟩
    rcases List.mem_filter.mp he with ⟨he, hanswers⟩
    exact ⟨e, he, hanswers, hsession⟩
  · rintro ⟨e, he, hanswers, hsession⟩
    exact ⟨e, List.mem_filter.mpr ⟨he, hanswers⟩, hsession⟩

/-- An order trades with a resting order of a session: that order and those ahead of
it are within the limit, and those ahead of it leave quantity to trade. -/
def TradesWith (h : Heap Order) (b : OrderBook) (o : Order) (sessionUuid : SessionUuid) :
    Prop :=
  ∃ before m after, b.queued (OrderBook.takerSide o) = before ++ m :: after ∧
    (∀ r ∈ before, crosses h o r = true) ∧ crosses h o m = true ∧
    (before.map fun r => (h.read r).remainingQty).sum < o.remainingQty ∧
    (h.read m).sessionUuid = sessionUuid

/-- The commands that are answered to their sender. -/
def OrderCommand.Answerable (e : FullMatchingEngine) (cmd : OrderCommand) : Prop :=
  let book := e.orderBooks (e.routeSecurity cmd.cancelOrderId cmd.securityId)
  match cmd.type with
  | .newOrder _ => True
  | .cancelOrder =>
      match book with
      | none => True
      | some book =>
          match book.ordersById cmd.cancelOrderId with
          | none => cmd.sessionUuid = 0
          | some r => (e.heap.read r).sessionUuid = cmd.sessionUuid
  | .modifyOrder newPrice newQty newClOrdId =>
      match book with
      | none => cmd.sessionUuid = 0
      | some book =>
          match book.ordersById cmd.cancelOrderId with
          | none => cmd.sessionUuid = 0
          | some r =>
              (e.heap.read r).sessionUuid = cmd.sessionUuid ∨
                TradesWith e.heap book
                  (OrderBook.modifiedOrder (e.heap.read r) newPrice newQty newClOrdId)
                  cmd.sessionUuid

/-- What a modification of a resting order is answered with. -/
theorem OrderBook.modifyOrder_answers {h : Heap Order} {r : OrderRef} {orderId : OrderId}
    (b : OrderBook) (hinv : BookInv h b) (hindexed : b.ordersById orderId = some r)
    (newPrice : Price) (newQty : Int) (newClOrdId : ClOrdId) (sessionUuid : SessionUuid) :
    (∃ x ∈ (b.modifyOrder h orderId newPrice newQty newClOrdId).events,
        x.answersModify = true ∧ sessionUuid ∈ x.sessions) ↔
      (h.read r).sessionUuid = sessionUuid ∨
        TradesWith h b (modifiedOrder (h.read r) newPrice newQty newClOrdId) sessionUuid := by
  have hshows : Shows OrderFilled.makerSessionUuid fun m _ => m.sessionUuid :=
    fun _ _ _ _ => rfl
  have hmakers : fillsOf OrderFilled.makerSessionUuid
      (b.modifyOrder h orderId newPrice newQty newClOrdId).events = _ :=
    fillsOf_modifyOrder hshows hinv hindexed
  have htrades : (∃ f, .orderFilled f ∈
        (b.modifyOrder h orderId newPrice newQty newClOrdId).events ∧
        f.makerSessionUuid = sessionUuid) ↔
      TradesWith h b (modifiedOrder (h.read r) newPrice newQty newClOrdId) sessionUuid := by
    rw [← mem_fillsOf_iff, hmakers, mem_offerFills_iff hinv Order.sessionUuid]
    rfl
  have hcases : modifiedEvent (modifiedOrder (h.read r) newPrice newQty newClOrdId) newPrice
      newQty ∈ (b.modifyOrder h orderId newPrice newQty newClOrdId).events ∧ _ :=
    modifyOrder_events hinv hindexed
  rw [← htrades]
  constructor
  · rintro ⟨x, hx, hanswers, hsession⟩
    rcases hcases.2 x hx with ⟨u, rfl⟩ | rfl | ⟨f, rfl, htaker⟩
    · contradiction
    · exact Or.inl (List.mem_singleton.mp hsession).symm
    · simp only [EngineEvent.sessions, List.mem_cons, List.not_mem_nil, or_false] at hsession
      rcases hsession with hmaker | htaker'
      · exact Or.inr ⟨f, hx, hmaker.symm⟩
      · exact Or.inl (htaker.symm.trans htaker'.symm)
  · rintro (rfl | ⟨f, hf, rfl⟩)
    · exact ⟨_, hcases.1, rfl, List.mem_singleton.mpr rfl⟩
    · exact ⟨_, hf, rfl, List.mem_cons_self⟩

namespace FullMatchingEngine

variable {e : FullMatchingEngine}

/-- A submitted order is accepted or rejected to its session. -/
theorem submitOrder_answers (e : FullMatchingEngine) (order : Order) (now : Timestamp) :
    ∃ x ∈ (e.submitOrder order now).events, order.sessionUuid ∈ x.sessions := by
  have hstamped : (e.stamped order now).securityId = order.securityId := rfl
  unfold submitOrder
  simp only [hstamped]
  cases hbook : e.orderBooks order.securityId with
  | none => exact ⟨_, List.mem_singleton.mpr rfl, List.mem_singleton.mpr rfl⟩
  | some book =>
      simp only [OrderBook.addOrder, Heap.read_alloc_next]
      split
      · exact ⟨_, List.mem_singleton.mpr rfl, List.mem_singleton.mpr rfl⟩
      · refine ⟨OrderBook.acceptedEvent (e.stamped order now), ?_, List.mem_singleton.mpr rfl⟩
        simp

/-- What a cancellation is answered with. -/
theorem cancelOrder_answers (hinv : EngineInv e) (id : OrderId) (securityId : SecurityId)
    (sender sessionUuid : SessionUuid) :
    (∃ x ∈ (e.cancelOrder id securityId sender).events,
        x.answersCancel = true ∧ sessionUuid ∈ x.sessions) ↔
      match e.orderBooks (e.routeSecurity id securityId) with
      | none => sender = sessionUuid
      | some book =>
          match book.ordersById id with
          | none => sessionUuid = 0
          | some r => (e.heap.read r).sessionUuid = sessionUuid := by
  have hbookInv := hinv.book_inv (e.routeSecurity id securityId)
  cases hbook : e.orderBooks (e.routeSecurity id securityId) with
  | none =>
      have hevents : (e.cancelOrder id securityId sender).events = [.orderCancelRejected
          { orderId := id, clOrdId := [], sessionUuid := sender, rejectReasonCode := 0,
            reason := "Unknown security ID" }] := by
        simp only [cancelOrder, hbook]
      simp only [hevents, List.mem_singleton, exists_eq_left, EngineEvent.answersCancel,
        EngineEvent.sessions, true_and]
      exact eq_comm
  | some book =>
      have hevents : (e.cancelOrder id securityId sender).events =
          (book.cancelOrder e.heap id).events := by
        simp only [cancelOrder, hbook]
      rw [bookAt_of_some hbook] at hbookInv
      simp only [hevents, OrderBook.cancelOrder]
      cases hindexed : book.ordersById id with
      | none => simp [EngineEvent.answersCancel, EngineEvent.sessions]
      | some r =>
          have hr := ((hbookInv.indexed _ r).mp hindexed).1
          rcases OrderBook.removeFromBook_spec hbookInv hr with ⟨edit, level, hedit⟩
          simp only [hedit.events_eq, OrderBook.cancelRest, OrderBook.cancelledEvent,
            Heap.read_modify_self, List.singleton_append, List.mem_cons, List.not_mem_nil,
            or_false, exists_eq_or_imp, exists_eq_left, EngineEvent.answersCancel,
            EngineEvent.sessions, Bool.false_eq_true, false_and, false_or, true_and]
          exact eq_comm

/-- What a modification is answered with. -/
theorem modifyOrder_answers (hinv : EngineInv e) (id : OrderId) (securityId : SecurityId)
    (newPrice : Price) (newQty : Int) (newClOrdId : ClOrdId) (sessionUuid : SessionUuid) :
    (∃ x ∈ (e.modifyOrder id securityId newPrice newQty newClOrdId).events,
        x.answersModify = true ∧ sessionUuid ∈ x.sessions) ↔
      match e.orderBooks (e.routeSecurity id securityId) with
      | none => sessionUuid = 0
      | some book =>
          match book.ordersById id with
          | none => sessionUuid = 0
          | some r =>
              (e.heap.read r).sessionUuid = sessionUuid ∨
                TradesWith e.heap book
                  (OrderBook.modifiedOrder (e.heap.read r) newPrice newQty newClOrdId)
                  sessionUuid := by
  have hbookInv := hinv.book_inv (e.routeSecurity id securityId)
  cases hbook : e.orderBooks (e.routeSecurity id securityId) with
  | none =>
      have hevents : (e.modifyOrder id securityId newPrice newQty newClOrdId).events =
          [.orderCancelRejected
            { orderId := id, clOrdId := newClOrdId, sessionUuid := 0, rejectReasonCode := 0,
              reason := "Unknown security ID" }] := by
        simp only [modifyOrder, hbook]
      simp [hevents, EngineEvent.answersModify, EngineEvent.sessions]
  | some book =>
      have hevents : (e.modifyOrder id securityId newPrice newQty newClOrdId).events =
          (book.modifyOrder e.heap id newPrice newQty newClOrdId).events := by
        simp only [modifyOrder, hbook]
      rw [bookAt_of_some hbook] at hbookInv
      rw [hevents]
      cases hindexed : book.ordersById id with
      | none => simp [OrderBook.modifyOrder, hindexed, EngineEvent.answersModify,
          EngineEvent.sessions]
      | some r =>
          simp only [hindexed]
          exact book.modifyOrder_answers hbookInv hindexed newPrice newQty newClOrdId _

end FullMatchingEngine

/-- On every reachable exchange, the next command is answered to its sender exactly
when it is one that can be. -/
theorem command_answered_iff (mgr : InstrumentManager) (config : RiskConfig)
    (ops : List ExchangeOp) (clock : Clock) (cmd : OrderCommand) (rest : List OrderCommand)
    (hqueue : (Exchange.machine.run (.init mgr config) ops).1.gateway.commandQueue =
      cmd :: rest) :
    let x := (Exchange.machine.run (.init mgr config) ops).1
    (x.processNext clock).Answers cmd.sessionUuid ↔ cmd.Answerable x.engine := by
  intro x
  have hinv := (ExchangeInv.run mgr config ops).1
  have hsound := hinv.queue_sound cmd (by rw [hqueue]; exact List.mem_cons_self)
  have hnext : x.processNext clock = (x.popped rest).processCommand clock cmd := by
    unfold Exchange.processNext
    rw [hqueue]
  rw [hnext]
  unfold OrderCommand.Answerable
  cases htype : cmd.type with
  | newOrder order =>
      simp only [iff_true]
      cases hrequest : cmd.request clock (x.popped rest).engine with
      | none =>
          rw [Processed.answers_iff_mem, (Exchange.processCommand_of_no_request hrequest).2.2.2]
          exact List.mem_singleton.mpr rfl
      | some op =>
          rw [answered_iff_of_request hrequest, ← (hsound order htype).1]
          unfold OrderCommand.request at hrequest
          rw [htype] at hrequest
          simp only at hrequest
          split at hrequest
          · contradiction
          · cases hrequest
            rcases x.engine.submitOrder_answers order (clock.order x.engine.nextOrderId) with
              ⟨e, he, hsession⟩
            exact ⟨e, he, by simp [OrderCommand.answers, htype], hsession⟩
  | cancelOrder =>
      have hrequest : cmd.request clock (x.popped rest).engine =
          some (.cancel cmd.cancelOrderId cmd.securityId cmd.sessionUuid) := by
        simp [OrderCommand.request, htype]
      have hanswers : cmd.answers = EngineEvent.answersCancel := by
        simp [OrderCommand.answers, htype]
      rw [answered_iff_of_request hrequest, hanswers]
      refine (FullMatchingEngine.cancelOrder_answers hinv.engine_inv cmd.cancelOrderId
        cmd.securityId cmd.sessionUuid cmd.sessionUuid).trans ?_
      cases x.engine.orderBooks (x.engine.routeSecurity cmd.cancelOrderId cmd.securityId) with
      | none => simp
      | some book => rfl
  | modifyOrder newPrice newQty newClOrdId =>
      have hrequest : cmd.request clock (x.popped rest).engine =
          some (.modify cmd.cancelOrderId cmd.securityId newPrice newQty newClOrdId) := by
        simp [OrderCommand.request, htype]
      have hanswers : cmd.answers = EngineEvent.answersModify := by
        simp [OrderCommand.answers, htype]
      rw [answered_iff_of_request hrequest, hanswers]
      exact FullMatchingEngine.modifyOrder_answers hinv.engine_inv cmd.cancelOrderId
        cmd.securityId newPrice newQty newClOrdId cmd.sessionUuid

/-- A session moves its own bid. -/
theorem command_answered_iff_of_moved_bid :
    let mgr : InstrumentManager := .single { securityId := 7, tickMantissa := 25 }
    let clock : Clock := { order := fun _ => 0, report := fun _ => 0 }
    let ops : List ExchangeOp :=
      [.addInstrument 7,
        .message 3 2000000000 (.newOrderSingle
          { price := 100, orderQty := 5, securityID := 7, side := 1, ordType := 2 }),
        .processNext clock,
        .message 3 2000000001 (.orderCancelReplaceRequest
          { price := 125, orderQty := 7, securityID := 7, orderID := 1 })]
    let cmd : OrderCommand :=
      { type := .modifyOrder ⟨125⟩ 7 [], sessionUuid := 3, cancelOrderId := 1, securityId := 7 }
    let x := (Exchange.machine.run (.init mgr {}) ops).1
    (x.processNext clock).Answers cmd.sessionUuid ↔ cmd.Answerable x.engine :=
  command_answered_iff _ _ _ _ _ [] (by decide)

/-- A session asks to cancel an order that is not there and is not answered. -/
theorem unknown_cancel_not_answered :
    let mgr : InstrumentManager := .single { securityId := 7, tickMantissa := 25 }
    let clock : Clock := { order := fun _ => 0, report := fun _ => 0 }
    let ops : List ExchangeOp :=
      [.addInstrument 7,
        .message 3 2000000000 (.orderCancelRequest { orderID := 99, securityID := 7 })]
    let cmd : OrderCommand :=
      { type := .cancelOrder, sessionUuid := 3, cancelOrderId := 99, securityId := 7 }
    let x := (Exchange.machine.run (.init mgr {}) ops).1
    x.gateway.commandQueue = [cmd] ∧ ¬(x.processNext clock).Answers cmd.sessionUuid := by
  decide

end SimCme
