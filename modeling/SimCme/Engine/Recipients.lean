import SimCme.Engine.EngineRuns

/-!
# Whom events are for

An event names orders by their ids, and for each the session it is to be reported to.
That session is the one the order was submitted by, whoever caused the event.

Main results:

- Theorem {lit}`told_law`: every move of a book addresses its events to the owners.
- Theorem {lit}`told_engineLaw`: so does every request.
- Theorem {lit}`OwnedBy.session_unique`: an id belongs to one session.
-/

namespace SimCme

open Library

/-- The orders an event speaks of, each with the session it is reported to. -/
def EngineEvent.parties : EngineEvent → List (OrderId × SessionUuid)
  | .orderAccepted e => [(e.orderId, e.sessionUuid)]
  | .orderFilled e => [(e.makerOrderId, e.makerSessionUuid), (e.takerOrderId, e.takerSessionUuid)]
  | .orderCancelled e => [(e.orderId, e.sessionUuid)]
  | .orderModified e => [(e.orderId, e.sessionUuid)]
  | _ => []

/-- An order has the id and belongs to the session. -/
def OwnedBy (h : Heap Order) (p : OrderId × SessionUuid) : Prop :=
  ∃ r < h.next, (h.read r).orderId = p.1 ∧ (h.read r).sessionUuid = p.2

/-- Orders keep their ids and their sessions. -/
theorem OwnedBy.of_identity {h h' : Heap Order} {p : OrderId × SessionUuid} (hp : OwnedBy h p)
    (hnext : h.next ≤ h'.next)
    (hidentity : ∀ r < h.next, (h'.read r).identity = (h.read r).identity) : OwnedBy h' p := by
  rcases hp with ⟨r, hr, hid, hsession⟩
  refine ⟨r, lt_of_lt_of_le hr hnext, ?_, ?_⟩
  · rw [← hid]
    exact Order.field_of_identity Order.orderId (hidentity r hr) fun _ => rfl
  · rw [← hsession]
    exact Order.field_of_identity Order.sessionUuid (hidentity r hr) fun _ => rfl

/-- An id belongs to one session. -/
theorem OwnedBy.session_unique {h : Heap Order} {id : OrderId} {uuid uuid' : SessionUuid}
    (howned : OwnedBy h (id, uuid)) (howned' : OwnedBy h (id, uuid')) (hunique : UniqueIds h) :
    uuid = uuid' := by
  rcases howned with ⟨r, hr, hid, hsession⟩
  rcases howned' with ⟨r', hr', hid', hsession'⟩
  rcases hunique r hr r' hr' (hid.trans hid'.symm) with rfl
  exact hsession.symm.trans hsession'

/-- The events of a history are for the owners of the orders they speak of. -/
def Told (es : List EngineEvent) (h : Heap Order) : Prop :=
  ∀ e ∈ es, ∀ p ∈ e.parties, OwnedBy h p

namespace Told

variable {es new : List EngineEvent} {h h' : Heap Order}

theorem nil (h : Heap Order) : Told [] h := by
  simp [Told]

/-- A move that keeps the identities and addresses its own events right. -/
theorem move (hP : Told es h) (hnext : h.next ≤ h'.next)
    (hidentity : ∀ r < h.next, (h'.read r).identity = (h.read r).identity)
    (hnew : Told new h') : Told (es ++ new) h' := by
  intro e he p hp
  rcases List.mem_append.mp he with he | he
  · exact (hP e he p hp).of_identity hnext hidentity
  · exact hnew e he p hp

theorem alloc (hP : Told es h) {o : Order} (hnew : Told new (h.alloc o)) :
    Told (es ++ new) (h.alloc o) := by
  refine hP.move (Nat.le_succ _) ?_ hnew
  intro r hr
  rw [h.read_alloc_of_ne o hr.ne]

end Told

/-- Every move of a book addresses its events to the owners of the orders. -/
theorem told_law : BookLaw (fun _ _ => True) fun _ es h _ => Told es h where
  refused _ _ hP := hP.move le_rfl (fun _ _ => rfl) (by simp [Told, EngineEvent.parties])
  rejected _ _ _ _ hP := hP.alloc (by simp [Told, EngineEvent.parties])
  accepted := by
    intro es h b o _ _ _ hP
    refine hP.alloc ?_
    intro e he p hp
    rw [List.mem_singleton] at he
    subst he
    rw [OrderBook.acceptedEvent, EngineEvent.parties, List.mem_singleton] at hp
    subst hp
    exact ⟨h.next, Nat.lt_succ_self _, by simp, by simp⟩
  withdrawn := by
    intro es h b r hinv hr _ hP
    rcases OrderBook.removeFromBook_spec hinv hr with ⟨edit, level, hedit⟩
    have hread := (b.removeFromBook h r).1.cancelRest_read Order.identity (fun _ => rfl) h r
    refine hP.move le_rfl (fun x _ => hread x) ?_
    intro e he p hp
    rcases hedit.mem_events_append.mp he with rfl | rfl
    · simp [EngineEvent.parties] at hp
    · rw [OrderBook.cancelledEvent, EngineEvent.parties, List.mem_singleton] at hp
      subst hp
      exact ⟨r, hinv.allocated r hr, rfl, rfl⟩
  replaced := by
    intro es h b r newPrice newQty newClOrdId hinv hr _ hP
    rcases OrderBook.removeFromBook_spec hinv hr with ⟨edit, level, hedit⟩
    have hread := OrderBook.modified_read (p := newPrice) (q := newQty) (c := newClOrdId)
      Order.identity (fun _ => rfl) h r
    refine hP.move le_rfl (fun x _ => hread x) ?_
    intro e he p hp
    rcases hedit.mem_events_append.mp he with rfl | rfl
    · simp [EngineEvent.parties] at hp
    · rw [OrderBook.modifiedEvent, EngineEvent.parties, List.mem_singleton] at hp
      subst hp
      exact ⟨r, hinv.allocated r hr, by rw [h.read_modify_self], by rw [h.read_modify_self]⟩
  traded := by
    intro es h b t hinv hflight f hP
    have hidentity : ∀ r < h.next, (f.heap.read r).identity = (h.read r).identity :=
      fun r _ => Order.identity_of_terms (f.read_terms r)
    refine hP.move le_rfl hidentity ?_
    intro e he p hp
    simp only [OrderBook.Fill.events, List.mem_cons, List.not_mem_nil, or_false] at he
    rcases he with rfl | rfl
    · rw [EngineEvent.parties, List.mem_cons, List.mem_singleton] at hp
      -- the fill names the orders as they were before it
      have howned : OwnedBy h p := by
        rcases hp with rfl | rfl
        · exact ⟨f.maker, hinv.allocated _ f.maker_resting, rfl, rfl⟩
        · exact ⟨t, hflight.allocated, rfl, rfl⟩
      exact howned.of_identity le_rfl hidentity
    · simp [EngineEvent.parties] at hp
  entered := by
    intro es h b r _ _ _ _ _ hP
    rcases OrderBook.insertResting_spec b h r with ⟨edit, hedit⟩
    rw [hedit.events_eq]
    exact hP.move le_rfl (fun _ _ => rfl) (by simp [Told, EngineEvent.parties])
  cancelled := by
    intro es h b r _ hflight _ hP
    refine hP.move le_rfl (fun x _ => ?_) ?_
    · exact b.cancelRest_read Order.identity (fun _ => rfl) h r x
    · intro e he p hp
      rw [OrderBook.cancelRest, List.mem_singleton] at he
      subst he
      rw [OrderBook.cancelledEvent, EngineEvent.parties, List.mem_singleton] at hp
      subst hp
      exact ⟨r, hflight.allocated, rfl, rfl⟩
  dropped _ _ _ hP := hP

/-- Whichever book a request goes to, its events are for the owners. -/
theorem told_engineLaw : EngineLaw (fun _ _ _ => True) fun _ _ es h _ => Told es h where
  law _ := told_law
  turnedAway _ _ hP := hP.move le_rfl (fun _ _ => rfl) (by simp [Told, EngineEvent.parties])
  frame := by
    intro s s' es new h h' b b' _ _ _ _ _ _ _ _ _ hactive
    exact hactive

namespace FullMatchingEngine

variable {e : FullMatchingEngine} {op : EngineOp}

/-- The events of a request are for the owners of the orders. -/
theorem told_outcome (hinv : EngineInv e) (hfresh : op.Fresh) :
    Told (e.outcome op).events (e.outcome op).engine.heap := by
  have hstep := told_engineLaw.step hinv hfresh
    (fun _ _ _ => trivial) (fun _ => Told.nil e.heap) 0
  rwa [List.nil_append] at hstep

/-- A request leaves the orders their identities, and may add one of its session. -/
structure Grows (e : FullMatchingEngine) (op : EngineOp) (h : Heap Order) : Prop where
  next_le : e.heap.next ≤ h.next
  identity_eq : ∀ r < e.heap.next, (h.read r).identity = (e.heap.read r).identity
  created : ∀ r, e.heap.next ≤ r → r < h.next →
    ∃ order now, op = .submit order now ∧ (h.read r).sessionUuid = order.sessionUuid

theorem grows_outcome (hinv : EngineInv e) (hfresh : op.Fresh) :
    Grows e op (e.outcome op).engine.heap := by
  cases hroute : e.route op with
  | none =>
      rw [(step_of_not_routed hroute).1]
      exact ⟨le_rfl, fun _ _ => rfl, fun r hle hlt => absurd hlt (Nat.not_lt_of_le hle)⟩
  | some routed =>
      rcases routed with ⟨s, bop⟩
      rw [(outcome_of_route hroute).2.1]
      rcases stepFrame_of_step (hinv.book_inv s) (hinv.fresh_of_route hroute hfresh) [] with
        ⟨hframe, -⟩
      refine ⟨hframe.next_le, hframe.identity_eq, fun r hle hlt => ?_⟩
      rcases hframe.created r hle hlt with ⟨o, rfl, hidentity⟩
      rcases routed_of_route hroute with ⟨book, hrouted⟩
      cases hrouted with
      | @submit order now =>
          have hsession := Order.field_of_identity Order.sessionUuid hidentity fun _ => rfl
          exact ⟨order, now, rfl, hsession⟩

/-- A request gives one id at most. -/
theorem nextOrderId_le_succ (e : FullMatchingEngine) (op : EngineOp) :
    (e.outcome op).engine.nextOrderId ≤ e.nextOrderId + 1 := by
  cases op with
  | addInstrument securityId =>
      simp only [outcome, addInstrument]
      split <;> exact Nat.le_succ _
  | submit order now =>
      simp only [outcome, submitOrder]
      split
      · exact le_rfl
      · dsimp only
        split <;> exact le_rfl
  | cancel orderId securityId sessionUuid =>
      simp only [outcome, cancelOrder]
      split <;> exact Nat.le_succ _
  | modify orderId securityId newPrice newQty newClOrdId =>
      simp only [outcome, modifyOrder]
      split
      · exact Nat.le_succ _
      · dsimp only
        split
        · exact Nat.le_succ _
        · split <;> exact Nat.le_succ _

end FullMatchingEngine

end SimCme
