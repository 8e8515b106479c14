import SimCme.Engine.Ownership

/-!
# Which book a request reaches

A request for an order is routed by the security the engine remembers for its id;
only an id the engine does not track is routed by the security the client names.
Ownership makes the difference harmless: an order that rests is tracked with its
own book, so a wrong security id can reach another book only for an id that rests
nowhere, and there the request is turned down.

Main results:

- Theorem {lit}`books_isolated`: every request acts on the one book of its order,
  exactly as the call on that book would, and a request that is turned down
  changes no book.
-/

namespace SimCme

open Library

/-- A request acts on one book only, as the call {lit}`c` on that book. -/
structure ActsAs (e : FullMatchingEngine) (s : SecurityId) (c : OrderBook.Outcome)
    (out : EngineOutcome) : Prop where
  events_eq : out.events = c.events
  heap_eq : out.engine.heap = c.heap
  orderBooks_eq : ∀ s', out.engine.orderBooks s' = if s' = s then some c.book else e.orderBooks s'
  orders_eq : ∀ s' ≠ s, ∀ r, (e.bookAt s').Resting r →
    out.engine.heap.read r = e.heap.read r

/-- Every book, and every order in it, is as it was. -/
structure BooksUnchanged (e e' : FullMatchingEngine) : Prop where
  orderBooks_eq : e'.orderBooks = e.orderBooks
  orders_eq : ∀ s r, (e.bookAt s).Resting r → e'.heap.read r = e.heap.read r

/-- No order rests under an id. -/
def FullMatchingEngine.Unknown (e : FullMatchingEngine) (orderId : OrderId) : Prop :=
  ∀ s r, (e.bookAt s).Resting r → (e.heap.read r).orderId ≠ orderId

/-- What each request may change, whatever security it names. -/
structure BooksIsolated (e : FullMatchingEngine) : Prop where
  submit_books : ∀ order now, ∀ s ≠ order.securityId,
    (e.submitOrder order now).engine.orderBooks s = e.orderBooks s
  submit_orders : ∀ order now, (EngineOp.submit order now).Fresh →
    ∀ s ≠ order.securityId, ∀ r, (e.bookAt s).Resting r →
      (e.submitOrder order now).engine.heap.read r = e.heap.read r
  cancel : ∀ s r, (e.bookAt s).Resting r → ∀ securityId sessionUuid,
    ActsAs e s ((e.bookAt s).cancelOrder e.heap (e.heap.read r).orderId)
      (e.cancelOrder (e.heap.read r).orderId securityId sessionUuid)
  modify : ∀ s r, (e.bookAt s).Resting r → ∀ securityId newPrice newQty newClOrdId,
    ActsAs e s
      ((e.bookAt s).modifyOrder e.heap (e.heap.read r).orderId newPrice newQty newClOrdId)
      (e.modifyOrder (e.heap.read r).orderId securityId newPrice newQty newClOrdId)
  cancel_unknown : ∀ orderId, e.Unknown orderId → ∀ securityId sessionUuid,
    BooksUnchanged e (e.cancelOrder orderId securityId sessionUuid).engine ∧
      ∃ x, (e.cancelOrder orderId securityId sessionUuid).events = [.orderCancelRejected x]
  modify_unknown : ∀ orderId, e.Unknown orderId →
    ∀ securityId newPrice newQty newClOrdId,
    BooksUnchanged e (e.modifyOrder orderId securityId newPrice newQty newClOrdId).engine ∧
      ∃ x, (e.modifyOrder orderId securityId newPrice newQty newClOrdId).events =
        [.orderCancelRejected x]
  submit_unknown : ∀ order now, e.orderBooks order.securityId = none →
    BooksUnchanged e (e.submitOrder order now).engine ∧
      ∃ x, (e.submitOrder order now).events = [.orderRejected x]
  submit_unfillable : ∀ order now book, e.orderBooks order.securityId = some book →
    order.timeInForce = .fok → book.canFillFOK order = false →
    BooksUnchanged e (e.submitOrder order now).engine ∧
      ∃ x, (e.submitOrder order now).events = [.orderRejected x]

namespace FullMatchingEngine

variable {e : FullMatchingEngine} {op : EngineOp}

/-- A request that reaches no book leaves them all as they were. -/
theorem orderBooks_of_not_routed (hroute : e.route op = none)
    (hop : ∀ s, op ≠ .addInstrument s) :
    (e.outcome op).engine.orderBooks = e.orderBooks := by
  rcases outcome_of_not_routed hroute hop with ⟨⟨next, hengine⟩, -⟩
  rw [hengine]

/-- A routed call that leaves its book alone leaves all books alone. -/
theorem booksUnchanged_of_route {s : SecurityId} {bop : BookOp}
    (hroute : e.route op = some (s, bop))
    (hbook : ((e.bookState s).outcome bop).book = e.bookAt s)
    (hread : ∀ s' r, (e.bookAt s').Resting r →
      ((e.bookState s).outcome bop).heap.read r = e.heap.read r) :
    BooksUnchanged e (e.outcome op).engine where
  orderBooks_eq := by
    rcases routed_of_route hroute with ⟨book, hrouted⟩
    have hsome : e.orderBooks s = some (e.bookAt s) := by
      cases hrouted with
      | submit hfound => rw [bookAt_of_some hfound, hfound]
      | cancel hfound => rw [bookAt_of_some hfound, hfound]
      | modify hfound => rw [bookAt_of_some hfound, hfound]
    funext s'
    rw [(outcome_of_route hroute).2.2, hbook]
    split
    · rename_i hs
      rw [hs, hsome]
    · rfl
  orders_eq s' r hr := by
    rw [(outcome_of_route hroute).2.1]
    exact hread s' r hr

/-- Orders rest only in books the engine has. -/
theorem orderBooks_of_resting {s : SecurityId} {r : OrderRef} (hr : (e.bookAt s).Resting r) :
    e.orderBooks s = some (e.bookAt s) := by
  cases hbook : e.orderBooks s with
  | none =>
      have hempty : e.bookAt s = { securityId := s } := by simp [bookAt, hbook]
      rw [hempty] at hr
      exact (BookInv.not_resting_empty s r hr).elim
  | some book => rw [bookAt_of_some hbook]

/-- A routed request acts as the call on its book. -/
theorem actsAs_of_route {s : SecurityId} {bop : BookOp} (hinv : EngineInv e)
    (hroute : e.route op = some (s, bop)) (hfresh : op.Fresh) :
    ActsAs e s ((e.bookState s).outcome bop) (e.outcome op) where
  events_eq := (outcome_of_route hroute).1
  heap_eq := (outcome_of_route hroute).2.1
  orderBooks_eq := (outcome_of_route hroute).2.2
  orders_eq s' hs r hr := by
    apply (hinv.routedFrame hfresh hroute).untouched r ((hinv.book_inv s').allocated r hr)
    rw [hinv.resting_security s' r hr]
    exact hs

/-- The index of no book knows an id under which nothing rests. -/
theorem Unknown.ordersById_eq {orderId : OrderId} (hunknown : e.Unknown orderId)
    (hinv : EngineInv e) (s : SecurityId) : (e.bookAt s).ordersById orderId = none := by
  cases hindexed : (e.bookAt s).ordersById orderId with
  | none => rfl
  | some r =>
      have hr := ((hinv.book_inv s).indexed _ r).mp hindexed
      exact (hunknown s r hr.1 hr.2).elim

/-- A request for an id the book does not know is turned down there. -/
theorem refused_of_route {s : SecurityId} {bop : BookOp} {x : OrderCancelRejected}
    (hroute : e.route op = some (s, bop))
    (hrefused : (e.bookState s).outcome bop =
      { heap := e.heap, book := e.bookAt s, events := [.orderCancelRejected x] }) :
    BooksUnchanged e (e.outcome op).engine ∧
      ∃ x, (e.outcome op).events = [.orderCancelRejected x] := by
  constructor
  · apply booksUnchanged_of_route hroute
    · rw [hrefused]
    · intro s' r _
      rw [hrefused]
  · rw [(outcome_of_route hroute).1, hrefused]
    exact ⟨x, rfl⟩

end FullMatchingEngine

namespace OwnershipInv

variable {e : FullMatchingEngine}

/-- A request for a resting order is routed to the book it rests in. -/
theorem routeSecurity_of_resting (hinv : OwnershipInv e) {s : SecurityId} {r : OrderRef}
    (hr : (e.bookAt s).Resting r) (securityId : SecurityId) :
    e.routeSecurity (e.heap.read r).orderId securityId = s := by
  simp [FullMatchingEngine.routeSecurity, hinv.ownership.security s r hr]

theorem cancel_unknown (hinv : OwnershipInv e) {orderId : OrderId}
    (hunknown : e.Unknown orderId) (securityId : SecurityId) (sessionUuid : SessionUuid) :
    BooksUnchanged e (e.cancelOrder orderId securityId sessionUuid).engine ∧
      ∃ x, (e.cancelOrder orderId securityId sessionUuid).events =
        [.orderCancelRejected x] := by
  cases hbook : e.orderBooks (e.routeSecurity orderId securityId) with
  | none =>
      simp only [FullMatchingEngine.cancelOrder, hbook]
      exact ⟨⟨rfl, fun _ _ _ => rfl⟩, _, rfl⟩
  | some book =>
      have hroute := FullMatchingEngine.route_cancel sessionUuid hbook
      apply FullMatchingEngine.refused_of_route hroute
      simp only [FullMatchingEngine.bookState, BookState.outcome, OrderBook.cancelOrder,
        hunknown.ordersById_eq hinv.engine_inv]
      rfl

theorem modify_unknown (hinv : OwnershipInv e) {orderId : OrderId}
    (hunknown : e.Unknown orderId) (securityId : SecurityId) (newPrice : Price)
    (newQty : Int) (newClOrdId : ClOrdId) :
    BooksUnchanged e (e.modifyOrder orderId securityId newPrice newQty newClOrdId).engine ∧
      ∃ x, (e.modifyOrder orderId securityId newPrice newQty newClOrdId).events =
        [.orderCancelRejected x] := by
  cases hbook : e.orderBooks (e.routeSecurity orderId securityId) with
  | none =>
      simp only [FullMatchingEngine.modifyOrder, hbook]
      exact ⟨⟨rfl, fun _ _ _ => rfl⟩, _, rfl⟩
  | some book =>
      have hroute := FullMatchingEngine.route_modify newPrice newQty newClOrdId hbook
      apply FullMatchingEngine.refused_of_route hroute
      simp only [FullMatchingEngine.bookState, BookState.outcome, OrderBook.modifyOrder,
        hunknown.ordersById_eq hinv.engine_inv]
      rfl

/-- A fill-or-kill order that cannot be filled reaches its book and leaves no mark. -/
theorem submit_unfillable (hinv : OwnershipInv e) {order : Order} (now : Timestamp)
    {book : OrderBook} (hbook : e.orderBooks order.securityId = some book)
    (hfok : order.timeInForce = .fok) (hunfillable : book.canFillFOK order = false) :
    BooksUnchanged e (e.submitOrder order now).engine ∧
      ∃ x, (e.submitOrder order now).events = [.orderRejected x] := by
  have hroute := FullMatchingEngine.route_submit now hbook
  have hstamped : (e.stamped order now).timeInForce = .fok ∧
      (e.bookAt order.securityId).canFillFOK (e.stamped order now) = false := by
    rw [FullMatchingEngine.bookAt_of_some hbook]
    exact ⟨hfok, hunfillable⟩
  have hrejected : ∃ x, (e.bookState order.securityId).outcome (.add (e.stamped order now)) =
      { heap := e.heap.alloc (e.stamped order now)
        book := e.bookAt order.securityId
        events := [.orderRejected x] } := by
    simp only [FullMatchingEngine.bookState, BookState.outcome, OrderBook.addOrder,
      Heap.read_alloc_next, hstamped, and_self, if_true]
    exact ⟨_, rfl⟩
  rcases hrejected with ⟨x, hrejected⟩
  constructor
  · apply FullMatchingEngine.booksUnchanged_of_route hroute
    · rw [hrejected]
    · intro s r hr
      rw [hrejected]
      exact e.heap.read_alloc_of_ne _ ((hinv.engine_inv.book_inv s).allocated r hr).ne
  · refine ⟨x, ?_⟩
    have hevents := (FullMatchingEngine.outcome_of_route hroute).1
    rw [hrejected] at hevents
    exact hevents

theorem booksIsolated (hinv : OwnershipInv e) : BooksIsolated e where
  submit_books order now s hs := by
    have hroute : e.route (.submit order now) = none ∨
        e.route (.submit order now) = some (order.securityId, .add (e.stamped order now)) := by
      simp only [FullMatchingEngine.route]
      cases e.orderBooks order.securityId <;> simp
    rcases hroute with hroute | hroute
    · exact congrFun (FullMatchingEngine.orderBooks_of_not_routed hroute (by simp)) s
    · have hbook := (FullMatchingEngine.outcome_of_route hroute).2.2 s
      rw [if_neg hs] at hbook
      exact hbook
  submit_orders order now hfresh s hs r hr := by
    cases hbook : e.orderBooks order.securityId with
    | none =>
        have hstamped : (e.stamped order now).securityId = order.securityId := rfl
        simp only [FullMatchingEngine.submitOrder, hstamped, hbook]
    | some book =>
        have hroute := FullMatchingEngine.route_submit now hbook
        exact (FullMatchingEngine.actsAs_of_route hinv.engine_inv hroute hfresh).orders_eq
          s hs r hr
  cancel s r hr securityId sessionUuid := by
    have hroute : e.route (.cancel (e.heap.read r).orderId securityId sessionUuid) =
        some (s, .cancel (e.heap.read r).orderId) := by
      simp [FullMatchingEngine.route, hinv.routeSecurity_of_resting hr,
        FullMatchingEngine.orderBooks_of_resting hr]
    exact FullMatchingEngine.actsAs_of_route hinv.engine_inv hroute trivial
  modify s r hr securityId newPrice newQty newClOrdId := by
    have hroute : e.route
        (.modify (e.heap.read r).orderId securityId newPrice newQty newClOrdId) =
        some (s, .modify (e.heap.read r).orderId newPrice newQty newClOrdId) := by
      simp [FullMatchingEngine.route, hinv.routeSecurity_of_resting hr,
        FullMatchingEngine.orderBooks_of_resting hr]
    exact FullMatchingEngine.actsAs_of_route hinv.engine_inv hroute trivial
  cancel_unknown orderId hunknown := hinv.cancel_unknown hunknown
  modify_unknown orderId hunknown := hinv.modify_unknown hunknown
  submit_unknown order now hbook := by
    have hstamped : (e.stamped order now).securityId = order.securityId := rfl
    simp only [FullMatchingEngine.submitOrder, hstamped, hbook]
    exact ⟨⟨rfl, fun _ _ _ => rfl⟩, _, rfl⟩
  submit_unfillable order now book := hinv.submit_unfillable now

end OwnershipInv

/-- In every engine that fresh requests reach, a request acts on the book of its
order alone, and a request that is turned down changes none. -/
theorem books_isolated (ops : List EngineOp)
    (hadmits : FullMatchingEngine.machine.Admits (fun _ op => op.Fresh) {} ops) :
    BooksIsolated (FullMatchingEngine.machine.run {} ops).1 :=
  (OwnershipInv.run hadmits).booksIsolated

/-- A maker that was filled is still remembered by the engine; requests for it and
for a bid of another book leave the books apart. -/
theorem books_isolated_after_fill :
    let ops : List EngineOp :=
      [.addInstrument 7, .addInstrument 8,
        .submit { securityId := 7, price := ⟨100⟩, quantity := 5 } 0,
        .submit { securityId := 8, price := ⟨100⟩, quantity := 5 } 0,
        .submit { securityId := 7, side := .sell, price := ⟨100⟩, quantity := 5 } 0]
    BooksIsolated (FullMatchingEngine.machine.run {} ops).1 :=
  books_isolated _ (by decide)

end SimCme
