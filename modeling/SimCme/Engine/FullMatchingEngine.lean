import SimCme.Engine.BookRuns

/-!
# The matching engine

The engine owns the orders, assigns their ids, and routes every request to the
book of one security.  Its tracking maps are indexed by order id; an id that is
not tracked is routed by the security the request names.

Main results:

- Theorem {lit}`step_of_route`: a routed request is the request on that book,
  and touches no other book.
- Theorem {lit}`step_of_not_routed`: a request for an unknown security changes
  neither orders nor books.
-/

namespace SimCme

open Library

structure FullMatchingEngine where
  /-- The order objects. -/
  heap : Heap Order := .empty
  orderBooks : SecurityId → Option OrderBook := fun _ => none
  orderToSecurity : OrderId → Option SecurityId := fun _ => none
  ownedOrders : OrderId → Option OrderRef := fun _ => none
  nextOrderId : Nat := 1

/-- What a request leaves behind and emits. -/
structure EngineOutcome where
  engine : FullMatchingEngine
  events : List EngineEvent

namespace FullMatchingEngine

/-- Write back the orders and one book after a call on that book. -/
def setBook (e : FullMatchingEngine) (securityId : SecurityId) (r : OrderBook.Outcome) :
    FullMatchingEngine :=
  { e with
    heap := r.heap
    orderBooks := fun s => if s = securityId then some r.book else e.orderBooks s }

/-- Take ownership of an order. -/
def track (e : FullMatchingEngine) (orderId : OrderId) (order : OrderRef)
    (securityId : SecurityId) : FullMatchingEngine :=
  { e with
    ownedOrders := fun i => if i = orderId then some order else e.ownedOrders i
    orderToSecurity := fun i => if i = orderId then some securityId else e.orderToSecurity i }

/-- Erase an id from both tracking maps. -/
def untrack (e : FullMatchingEngine) (orderId : OrderId) : FullMatchingEngine :=
  { e with
    ownedOrders := fun i => if i = orderId then none else e.ownedOrders i
    orderToSecurity := fun i => if i = orderId then none else e.orderToSecurity i }

@[simp]
theorem heap_setBook (e : FullMatchingEngine) (s : SecurityId) (r : OrderBook.Outcome) :
    (e.setBook s r).heap = r.heap :=
  rfl

@[simp]
theorem orderBooks_setBook (e : FullMatchingEngine) (s s' : SecurityId)
    (r : OrderBook.Outcome) :
    (e.setBook s r).orderBooks s' = if s' = s then some r.book else e.orderBooks s' :=
  rfl

@[simp]
theorem heap_track (e : FullMatchingEngine) (id : OrderId) (r : OrderRef) (s : SecurityId) :
    (e.track id r s).heap = e.heap :=
  rfl

@[simp]
theorem orderBooks_track (e : FullMatchingEngine) (id : OrderId) (r : OrderRef)
    (s : SecurityId) : (e.track id r s).orderBooks = e.orderBooks :=
  rfl

@[simp]
theorem heap_untrack (e : FullMatchingEngine) (id : OrderId) : (e.untrack id).heap = e.heap :=
  rfl

@[simp]
theorem orderBooks_untrack (e : FullMatchingEngine) (id : OrderId) :
    (e.untrack id).orderBooks = e.orderBooks :=
  rfl

def addInstrument (e : FullMatchingEngine) (securityId : SecurityId) : FullMatchingEngine :=
  match e.orderBooks securityId with
  | some _ => e
  | none =>
      { e with
        orderBooks := fun s =>
          if s = securityId then some { securityId := securityId } else e.orderBooks s }

/-- The order under the id and the time the engine gives it. -/
def stamped (e : FullMatchingEngine) (order : Order) (now : Timestamp) : Order :=
  { order with orderId := e.nextOrderId, timestamp := now }

/-- Submit an order at the system time {lit}`now`. -/
def submitOrder (e : FullMatchingEngine) (order : Order) (now : Timestamp) : EngineOutcome :=
  let order := e.stamped order now
  let e := { e with nextOrderId := e.nextOrderId + 1 }
  match e.orderBooks order.securityId with
  | none =>
      { engine := e
        events := [.orderRejected
          { clOrdId := order.clOrdId
            sessionUuid := order.sessionUuid
            reason := "Unknown security ID"
            rejectReasonCode := 0 }] }
  | some book =>
      let rawPtr := e.heap.next
      let r := book.addOrder (e.heap.alloc order) rawPtr
      let e := (e.track order.orderId rawPtr order.securityId).setBook order.securityId r
      let o := r.heap.read rawPtr
      { engine :=
          if o.isFullyFilled ∨ o.status = .canceled ∨ o.status = .rejected then
            e.untrack order.orderId
          else e
        events := r.events }

/-- The security a request for an order is routed to. -/
def routeSecurity (e : FullMatchingEngine) (orderId : OrderId) (securityId : SecurityId) :
    SecurityId :=
  (e.orderToSecurity orderId).getD securityId

def cancelOrder (e : FullMatchingEngine) (orderId : OrderId) (securityId : SecurityId)
    (sessionUuid : SessionUuid) : EngineOutcome :=
  let secId := e.routeSecurity orderId securityId
  match e.orderBooks secId with
  | none =>
      { engine := e
        events := [.orderCancelRejected
          { orderId := orderId
            clOrdId := []
            sessionUuid := sessionUuid
            rejectReasonCode := 0
            reason := "Unknown security ID" }] }
  | some book =>
      let r := book.cancelOrder e.heap orderId
      { engine := (e.setBook secId r).untrack orderId
        events := r.events }

def modifyOrder (e : FullMatchingEngine) (orderId : OrderId) (securityId : SecurityId)
    (newPrice : Price) (newQty : Int) (newClOrdId : ClOrdId) : EngineOutcome :=
  let secId := e.routeSecurity orderId securityId
  match e.orderBooks secId with
  | none =>
      { engine := e
        events := [.orderCancelRejected
          { orderId := orderId
            clOrdId := newClOrdId
            sessionUuid := 0
            rejectReasonCode := 0
            reason := "Unknown security ID" }] }
  | some book =>
      let r := book.modifyOrder e.heap orderId newPrice newQty newClOrdId
      let e := e.setBook secId r
      { engine :=
          match e.ownedOrders orderId with
          | none => e
          | some rawPtr =>
              if (e.heap.read rawPtr).isFullyFilled ∨ (e.heap.read rawPtr).status = .canceled
              then e.untrack orderId
              else e
        events := r.events }

def getOrderBook (e : FullMatchingEngine) (securityId : SecurityId) : Option OrderBook :=
  e.orderBooks securityId

end FullMatchingEngine

/-- One request to the engine. -/
inductive EngineOp where
  | addInstrument (securityId : SecurityId)
  | submit (order : Order) (now : Timestamp)
  | cancel (orderId : OrderId) (securityId : SecurityId) (sessionUuid : SessionUuid)
  | modify (orderId : OrderId) (securityId : SecurityId) (newPrice : Price) (newQty : Int)
      (newClOrdId : ClOrdId)
deriving DecidableEq, Repr

namespace FullMatchingEngine

def outcome (e : FullMatchingEngine) : EngineOp → EngineOutcome
  | .addInstrument securityId => { engine := e.addInstrument securityId, events := [] }
  | .submit order now => e.submitOrder order now
  | .cancel orderId securityId sessionUuid => e.cancelOrder orderId securityId sessionUuid
  | .modify orderId securityId newPrice newQty newClOrdId =>
      e.modifyOrder orderId securityId newPrice newQty newClOrdId

/-- The machine whose inputs are requests and whose outputs are events. -/
def machine : Machine FullMatchingEngine EngineOp EngineEvent where
  step e op := ((e.outcome op).engine, (e.outcome op).events)

/-! ## Routing -/

/-- The book of a security, empty where the engine has none. -/
def bookAt (e : FullMatchingEngine) (s : SecurityId) : OrderBook :=
  (e.orderBooks s).getD { securityId := s }

/-- The book a request reaches and the call it makes there. -/
def route (e : FullMatchingEngine) : EngineOp → Option (SecurityId × BookOp)
  | .addInstrument _ => none
  | .submit order now =>
      (e.orderBooks order.securityId).map fun _ =>
        (order.securityId, .add (e.stamped order now))
  | .cancel orderId securityId _ =>
      (e.orderBooks (e.routeSecurity orderId securityId)).map fun _ =>
        (e.routeSecurity orderId securityId, .cancel orderId)
  | .modify orderId securityId newPrice newQty newClOrdId =>
      (e.orderBooks (e.routeSecurity orderId securityId)).map fun _ =>
        (e.routeSecurity orderId securityId, .modify orderId newPrice newQty newClOrdId)

/-- The state a routed call starts from. -/
def bookState (e : FullMatchingEngine) (s : SecurityId) : BookState :=
  ⟨e.heap, e.bookAt s⟩

theorem bookAt_of_some {e : FullMatchingEngine} {s : SecurityId} {book : OrderBook}
    (hbook : e.orderBooks s = some book) : e.bookAt s = book := by
  simp [bookAt, hbook]

theorem route_submit {e : FullMatchingEngine} {order : Order} {book : OrderBook}
    (now : Timestamp) (hbook : e.orderBooks order.securityId = some book) :
    e.route (.submit order now) = some (order.securityId, .add (e.stamped order now)) := by
  simp [route, hbook]

theorem route_cancel {e : FullMatchingEngine} {orderId : OrderId} {securityId : SecurityId}
    {book : OrderBook} (sessionUuid : SessionUuid)
    (hbook : e.orderBooks (e.routeSecurity orderId securityId) = some book) :
    e.route (.cancel orderId securityId sessionUuid) =
      some (e.routeSecurity orderId securityId, .cancel orderId) := by
  simp [route, hbook]

theorem route_modify {e : FullMatchingEngine} {orderId : OrderId} {securityId : SecurityId}
    {book : OrderBook} (newPrice : Price) (newQty : Int) (newClOrdId : ClOrdId)
    (hbook : e.orderBooks (e.routeSecurity orderId securityId) = some book) :
    e.route (.modify orderId securityId newPrice newQty newClOrdId) =
      some (e.routeSecurity orderId securityId,
        .modify orderId newPrice newQty newClOrdId) := by
  simp [route, hbook]

/-- The ways a request reaches a book. -/
inductive Routed (e : FullMatchingEngine) :
    EngineOp → SecurityId → OrderBook → BookOp → Prop
  | submit {order : Order} {now : Timestamp} {book : OrderBook}
      (hbook : e.orderBooks order.securityId = some book) :
      Routed e (.submit order now) order.securityId book (.add (e.stamped order now))
  | cancel {orderId : OrderId} {securityId : SecurityId} {sessionUuid : SessionUuid}
      {book : OrderBook}
      (hbook : e.orderBooks (e.routeSecurity orderId securityId) = some book) :
      Routed e (.cancel orderId securityId sessionUuid)
        (e.routeSecurity orderId securityId) book (.cancel orderId)
  | modify {orderId : OrderId} {securityId : SecurityId} {newPrice : Price} {newQty : Int}
      {newClOrdId : ClOrdId} {book : OrderBook}
      (hbook : e.orderBooks (e.routeSecurity orderId securityId) = some book) :
      Routed e (.modify orderId securityId newPrice newQty newClOrdId)
        (e.routeSecurity orderId securityId) book (.modify orderId newPrice newQty newClOrdId)

theorem routed_of_route {e : FullMatchingEngine} {op : EngineOp} {s : SecurityId}
    {bop : BookOp} (hroute : e.route op = some (s, bop)) : ∃ book, Routed e op s book bop := by
  cases op with
  | addInstrument securityId => contradiction
  | submit order now =>
      rcases Option.map_eq_some_iff.mp hroute with ⟨book, hbook, heq⟩
      cases heq
      exact ⟨book, .submit hbook⟩
  | cancel orderId securityId sessionUuid =>
      rcases Option.map_eq_some_iff.mp hroute with ⟨book, hbook, heq⟩
      cases heq
      exact ⟨book, .cancel hbook⟩
  | modify orderId securityId newPrice newQty newClOrdId =>
      rcases Option.map_eq_some_iff.mp hroute with ⟨book, hbook, heq⟩
      cases heq
      exact ⟨book, .modify hbook⟩

/-- A routed request is the call on its book. -/
theorem outcome_of_route {e : FullMatchingEngine} {op : EngineOp} {s : SecurityId}
    {bop : BookOp} (hroute : e.route op = some (s, bop)) :
    let r := (e.bookState s).outcome bop
    (e.outcome op).events = r.events ∧ (e.outcome op).engine.heap = r.heap ∧
      ∀ s', (e.outcome op).engine.orderBooks s' =
        if s' = s then some r.book else e.orderBooks s' := by
  rcases routed_of_route hroute with ⟨book, hrouted⟩
  cases hrouted with
  | @submit order now _ hbook =>
      have hstamped : (e.stamped order now).securityId = order.securityId := rfl
      simp only [outcome, submitOrder, bookState, BookState.outcome, hstamped, hbook,
        bookAt_of_some hbook]
      refine ⟨trivial, ?_, ?_⟩
      · split <;> simp
      · intro s'
        split <;> simp
  | cancel hbook =>
      simp [outcome, cancelOrder, bookState, BookState.outcome, hbook, bookAt_of_some hbook]
  | modify hbook =>
      simp only [outcome, modifyOrder, bookState, BookState.outcome, hbook,
        bookAt_of_some hbook]
      refine ⟨trivial, ?_, ?_⟩
      · split
        · simp
        · split <;> simp
      · intro s'
        split
        · simp
        · split <;> simp

/-- A routed request touches no other book. -/
theorem step_of_route {e : FullMatchingEngine} {op : EngineOp} {s : SecurityId}
    {bop : BookOp} (hroute : e.route op = some (s, bop)) :
    (e.outcome op).engine.bookAt s = ((e.bookState s).outcome bop).book ∧
      ∀ s', s' ≠ s → (e.outcome op).engine.bookAt s' = e.bookAt s' := by
  have hbooks := (outcome_of_route hroute).2.2
  constructor
  · simp [bookAt, hbooks]
  · intro s' hne
    simp [bookAt, hbooks, hne]

/-- A request for an unknown security only uses up an order id, and is rejected. -/
theorem outcome_of_not_routed {e : FullMatchingEngine} {op : EngineOp}
    (hroute : e.route op = none) (hop : ∀ s, op ≠ .addInstrument s) :
    (∃ next, (e.outcome op).engine = { e with nextOrderId := next }) ∧
      ((∃ x, (e.outcome op).events = [.orderRejected x]) ∨
        ∃ x, (e.outcome op).events = [.orderCancelRejected x]) := by
  cases op with
  | addInstrument securityId => exact (hop securityId rfl).elim
  | submit order now =>
      simp only [route, Option.map_eq_none_iff] at hroute
      have hstamped : (e.stamped order now).securityId = order.securityId := rfl
      simp only [outcome, submitOrder, hstamped, hroute]
      exact ⟨⟨_, rfl⟩, Or.inl ⟨_, rfl⟩⟩
  | cancel orderId securityId sessionUuid =>
      simp only [route, Option.map_eq_none_iff] at hroute
      simp only [outcome, cancelOrder, hroute]
      exact ⟨⟨_, rfl⟩, Or.inr ⟨_, rfl⟩⟩
  | modify orderId securityId newPrice newQty newClOrdId =>
      simp only [route, Option.map_eq_none_iff] at hroute
      simp only [outcome, modifyOrder, hroute]
      exact ⟨⟨_, rfl⟩, Or.inr ⟨_, rfl⟩⟩

/-- A new instrument comes with an empty book, and changes nothing else. -/
theorem bookAt_addInstrument (e : FullMatchingEngine) (securityId s : SecurityId) :
    (e.addInstrument securityId).bookAt s = e.bookAt s := by
  unfold addInstrument
  cases hbook : e.orderBooks securityId with
  | some book => rfl
  | none =>
      by_cases hs : s = securityId
      · subst hs
        simp [bookAt, hbook]
      · simp [bookAt, hs]

/-- A request that reaches no book changes neither orders nor books, and emits at
most a rejection. -/
theorem step_of_not_routed {e : FullMatchingEngine} {op : EngineOp}
    (hroute : e.route op = none) :
    (e.outcome op).engine.heap = e.heap ∧
      (∀ s, (e.outcome op).engine.bookAt s = e.bookAt s) ∧
      ((e.outcome op).events = [] ∨
        (∃ x, (e.outcome op).events = [.orderRejected x]) ∨
        ∃ x, (e.outcome op).events = [.orderCancelRejected x]) := by
  by_cases hop : ∀ s, op ≠ .addInstrument s
  · rcases outcome_of_not_routed hroute hop with ⟨⟨next, hengine⟩, hevents⟩
    rw [hengine]
    exact ⟨rfl, fun _ => rfl, Or.inr hevents⟩
  · push Not at hop
    rcases hop with ⟨securityId, rfl⟩
    refine ⟨?_, e.bookAt_addInstrument securityId, Or.inl rfl⟩
    simp only [outcome, addInstrument]
    split <;> rfl

end FullMatchingEngine

end SimCme
