import SimCme.Engine.Ownership

/-!
# What the engine still tracks

The clean-up after a request looks at the request's own order only.  An order that
leaves its book during a request for another one, an order turned down by its book
and an order of a type the book neither rests nor cancels stay tracked for good.
Where none of this happens, the tracked ids are exactly the ids that rest.

Main results:

- Theorem {lit}`tracked_ids_rest`: along every run of requests that complete no
  resting order, are not turned down by a book and come to rest or to an end, every
  tracked id is the id of a resting order.
- Theorem {lit}`filled_maker_stays_tracked`: one trade between equal quantities is
  enough for a tracked id that rests nowhere.
-/

namespace SimCme

open Library

/-! ## Calls that settle the orders they touch -/

namespace OrderBook

/-- The order a taker trades with first: the front of the best level of the opposite
half, unless that level is beyond its limit. -/
def frontMaker (b : OrderBook) (taker : Order) : Option OrderRef :=
  match (b.levels (takerSide taker)).entries with
  | [] => none
  | (price, level) :: _ => if takerStop taker price then none else level.front

/-- A taker wants less than the first order it trades with has, so it completes no
order. -/
def CompletesNoMaker (b : OrderBook) (h : Heap Order) (taker : Order) : Prop :=
  ∀ r ∈ b.frontMaker taker, taker.remainingQty < (h.read r).remainingQty

instance (b : OrderBook) (h : Heap Order) (taker : Order) :
    Decidable (b.CompletesNoMaker h taker) :=
  inferInstanceAs (Decidable (∀ r ∈ b.frontMaker taker,
    taker.remainingQty < (h.read r).remainingQty))

/-- An order that {lit}`addOrder` rests or cancels unless it is filled. -/
def Handled (b : OrderBook) (taker : Order) : Prop :=
  taker.orderType = .limit ∨ taker.orderType = .market ∨ taker.timeInForce = .ioc ∨
    taker.timeInForce = .fok ∨ taker.remainingQty ≤ 0 ∨ (b.frontMaker taker).isSome

instance (b : OrderBook) (taker : Order) : Decidable (b.Handled taker) :=
  inferInstanceAs (Decidable (_ ∨ _))

variable {b b' : OrderBook} {h h' : Heap Order} {taker taker' : Order} {r t : OrderRef}

theorem frontMaker_queued (hfront : b.frontMaker taker = some r) :
    r ∈ b.queued (takerSide taker) := by
  unfold frontMaker at hfront
  split at hfront
  · contradiction
  · rename_i price level rest hentries
    split at hfront
    · contradiction
    · apply mem_queued_iff.mpr
      exact ⟨(price, level), by simp [hentries], List.mem_of_mem_head? hfront⟩

/-- The first order a taker trades with depends on its terms and on the opposite
half only. -/
theorem frontMaker_congr (hside : takerSide taker' = takerSide taker)
    (hstop : takerStop taker' = takerStop taker)
    (hlevels : b'.levels (takerSide taker) = b.levels (takerSide taker)) :
    b'.frontMaker taker' = b.frontMaker taker := by
  unfold frontMaker
  rw [hside, hstop, hlevels]

/-- The next trade is with the first order. -/
theorem Fill.frontMaker_eq (f : Fill (takerSide taker) (takerStop taker) t h b) :
    b.frontMaker taker = some f.maker := by
  simp [frontMaker, f.entries_eq, f.not_stop, PriceLevel.front, f.queue_eq]

/-- There is no first order when every level is beyond the limit. -/
theorem frontMaker_of_uncrossed
    (huncrossed : ∀ e ∈ (b.levels (takerSide taker)).entries, takerStop taker e.1 = true) :
    b.frontMaker taker = none := by
  unfold frontMaker
  split
  · rfl
  · rename_i price level rest hentries
    rw [if_pos (huncrossed (price, level) (by simp [hentries]))]

/-- A taker that wants nothing completes nothing. -/
theorem completesNoMaker_of_nonpos (hinv : BookInv h b) (hle : taker.remainingQty ≤ 0) :
    b.CompletesNoMaker h taker := by
  intro r hfront
  have hpos := hinv.remaining_pos_of_resting ⟨_, frontMaker_queued hfront⟩
  omega

/-- Taking an order out of its own half and rewriting it does not change what an
order of its side completes. -/
theorem completesNoMaker_replace (hinv : BookInv h b) (hr : b.Resting r) {f : Order → Order}
    (hside : taker.side = (h.read r).side) (hcompletes : b.CompletesNoMaker h taker) :
    (b.removeFromBook h r).1.CompletesNoMaker (h.modify r f) taker := by
  rcases removeFromBook_spec hinv hr with ⟨e, level, he⟩
  have hopposite : takerSide taker = e.side.opposite := by
    unfold takerSide
    rw [he.side_eq, hside]
  have hlevels : (b.removeFromBook h r).1.levels (takerSide taker) =
      b.levels (takerSide taker) := by
    rw [hopposite, he.applies.opposite]
  intro x hx
  have hfront : b.frontMaker taker = some x := by
    rw [← frontMaker_congr rfl rfl hlevels]
    exact hx
  rw [h.read_modify_of_ne]
  · exact hcompletes x hfront
  · rintro rfl
    have hqueued := frontMaker_queued hfront
    rw [hopposite, he.side_eq] at hqueued
    exact hinv.not_mem_opposite (hinv.queued_of_resting hr) hqueued

end OrderBook

/-- Calls after which the orders they touched rest or are finished by their own
fields: no resting order is completed, no addition is turned down, and an addition
is of a kind that rests or ends. -/
def BookOp.Tidy (s : BookState) : BookOp → Prop
  | .add o =>
      ¬(o.timeInForce = .fok ∧ s.book.canFillFOK o = false) ∧
        s.book.CompletesNoMaker s.heap o ∧ s.book.Handled o
  | .cancel _ => True
  | .modify orderId newPrice newQty newClOrdId =>
      ∀ r ∈ s.book.ordersById orderId,
        s.book.CompletesNoMaker s.heap
          (OrderBook.modifiedOrder (s.heap.read r) newPrice newQty newClOrdId)

instance (s : BookState) : (op : BookOp) → Decidable (op.Tidy s)
  | .add _ => inferInstanceAs (Decidable (_ ∧ _))
  | .cancel _ => .isTrue trivial
  | .modify orderId newPrice newQty newClOrdId =>
      inferInstanceAs (Decidable (∀ r ∈ s.book.ordersById orderId,
        s.book.CompletesNoMaker s.heap
          (OrderBook.modifiedOrder (s.heap.read r) newPrice newQty newClOrdId)))

/-- The call cancels or modifies a given resting order. -/
def BookOp.WorksOn (s : BookState) (own : OrderRef) : BookOp → Prop
  | .add _ => False
  | .cancel orderId => s.book.ordersById orderId = some own
  | .modify orderId _ _ _ => s.book.ordersById orderId = some own

/-- While a call that started in {lit}`s` works on one order, every other order stays
in the book, and its own order ends up in the book or finished. -/
structure Settling (s : BookState) (own : OrderRef) (hand : Option OrderRef)
    (_ : List EngineEvent) (h : Heap Order) (b : OrderBook) : Prop where
  others : ∀ r, r ≠ own → s.book.Resting r → b.Resting r
  inHand : ∀ t, hand = some t →
    t = own ∧ b.CompletesNoMaker h (h.read t) ∧ b.Handled (h.read t)
  settled : hand = none → own < h.next →
    b.Resting own ∨ (h.read own).isFullyFilled ∨ (h.read own).status = .canceled

namespace Settling

variable {s : BookState} {own t r : OrderRef} {es es' : List EngineEvent} {h : Heap Order}
  {b : OrderBook}

/-- A trade completes the taker and leaves everything else in the book. -/
theorem traded (hP : Settling s own (some t) es h b) (hinv : BookInv h b)
    (hflight : InFlight h b t)
    (f : OrderBook.Fill (OrderBook.takerSide (h.read t)) (OrderBook.takerStop (h.read t))
      t h b) : Settling s own (some t) es' f.heap f.book := by
  rcases hP.inHand t rfl with ⟨hown, hcompletes, -⟩
  have hless := hcompletes f.maker f.frontMaker_eq
  have hopen : f.completes ≠ true := by
    rw [Ne, f.completes_iff]
    omega
  have hdone : (f.heap.read t).remainingQty ≤ 0 := by
    have hqty : f.qty = (h.read t).remainingQty := min_eq_left hless.le
    rw [f.remainingQty_taker, hqty]
    omega
  have hinv' := f.bookInv hinv hflight
  exact
    { others := fun r hr hresting =>
        (f.resting_iff hinv r).mpr ⟨hP.others r hr hresting, fun hcompleted => hopen hcompleted.1⟩
      inHand := fun x hx => by
        cases hx
        refine ⟨hown, OrderBook.completesNoMaker_of_nonpos hinv' hdone, ?_⟩
        unfold OrderBook.Handled
        tauto
      settled := by simp }

end Settling

/-- Cancellations and modifications settle the order they work on. -/
theorem settling_law (s : BookState) (own : OrderRef) :
    BookLaw (fun s' op => s' = s ∧ op.Tidy s ∧ op.WorksOn s own) (Settling s own) where
  refused _ _ hP := ⟨hP.others, hP.inHand, hP.settled⟩
  rejected _ _ _ hguard _ := hguard.2.2.elim
  accepted _ _ hguard _ := hguard.2.2.elim
  withdrawn := by
    intro es h b r hinv hr hguard hP
    rcases hguard with ⟨rfl, -, hindexed⟩
    have hown : own = r :=
      Option.some.inj (hindexed.symm.trans (hinv.indexed_of_resting hr))
    subst hown
    refine ⟨?_, by simp, ?_⟩
    · intro x hx hresting
      exact (OrderBook.resting_removeFromBook hinv hr x).mpr ⟨hresting, hx⟩
    · intro _ _
      refine Or.inr (Or.inr ?_)
      simp [OrderBook.cancelRest]
  replaced := by
    intro es h b r newPrice newQty newClOrdId hinv hr hguard hP
    rcases hguard with ⟨rfl, htidy, hindexed⟩
    have hown : own = r :=
      Option.some.inj (hindexed.symm.trans (hinv.indexed_of_resting hr))
    subst hown
    refine ⟨?_, ?_, by simp⟩
    · intro x hx hresting
      exact (OrderBook.resting_removeFromBook hinv hr x).mpr ⟨hresting, hx⟩
    · intro x hx
      cases hx
      rw [h.read_modify_self]
      refine ⟨rfl, ?_, Or.inl (hinv.restable_of_resting hr).1⟩
      exact OrderBook.completesNoMaker_replace hinv hr rfl
        (htidy own (hinv.indexed_of_resting hr))
  traded := by
    intro es h b t hinv hflight f hP
    exact hP.traded hinv hflight f
  entered := by
    intro es h b r hinv _ _ _ _ hP
    have hown := (hP.inHand r rfl).1
    subst hown
    refine ⟨?_, by simp, ?_⟩
    · intro x hx hresting
      exact (OrderBook.resting_insertResting hinv x).mpr (Or.inr (hP.others x hx hresting))
    · intro _ _
      exact Or.inl ((OrderBook.resting_insertResting hinv r).mpr (Or.inl rfl))
  cancelled := by
    intro es h b r _ _ _ hP
    have hown := (hP.inHand r rfl).1
    subst hown
    refine ⟨hP.others, by simp, ?_⟩
    intro _ _
    refine Or.inr (Or.inr ?_)
    simp [OrderBook.cancelRest]
  dropped := by
    intro es h b r _ _ hend hP
    rcases hP.inHand r rfl with ⟨rfl, -, hhandled⟩
    refine ⟨hP.others, by simp, ?_⟩
    intro _ _
    rcases hend with hdone | hstranded
    · exact Or.inr (Or.inl ((Order.isFullyFilled_iff _).mpr hdone))
    · have hnone := OrderBook.frontMaker_of_uncrossed hstranded.uncrossed
      have hpos := hstranded.remaining_pos
      rcases hhandled with hlimit | hmarket | hioc | hfok | hle | hfront
      · exact (hstranded.not_limit hlimit).elim
      · exact (hstranded.not_market hmarket).elim
      · exact (hstranded.not_ioc hioc).elim
      · exact (hstranded.not_fok hfok).elim
      · omega
      · rw [hnone] at hfront
        contradiction

/-- The order a call works on: the one it brings, or the resting order it names. -/
def BookOp.own (s : BookState) : BookOp → OrderRef
  | .add _ => s.heap.next
  | .cancel orderId => (s.book.ordersById orderId).getD s.heap.next
  | .modify orderId _ _ _ => (s.book.ordersById orderId).getD s.heap.next

namespace Settling

variable {s : BookState} {op : BookOp} {o : Order}

theorem next_restOrder (b : OrderBook) (h : Heap Order) (r : OrderRef) :
    (b.restOrder h r).heap.next = h.next := by
  unfold OrderBook.restOrder
  dsimp only
  split_ifs <;> rfl

/-- An addition that is not turned down settles the order it brings. -/
theorem add (hinv : BookInv s.heap s.book) (hfresh : FreshOrder s.heap o)
    (htidy : (BookOp.add o).Tidy s) :
    Settling s s.heap.next none [] (s.outcome (.add o)).heap (s.outcome (.add o)).book ∧
      s.heap.next < (s.outcome (.add o)).heap.next := by
  rcases htidy with ⟨hfillable, hcompletes, hhandled⟩
  have hstart : Settling s s.heap.next (some s.heap.next) [] (s.heap.alloc o) s.book :=
    { others := fun r _ hr => hr
      inHand := fun t ht => by
        cases ht
        rw [s.heap.read_alloc_next]
        refine ⟨rfl, ?_, hhandled⟩
        intro r hr
        have hresting : s.book.Resting r := ⟨_, OrderBook.frontMaker_queued hr⟩
        rw [s.heap.read_alloc_of_ne o (hinv.allocated r hresting).ne]
        exact hcompletes r hr
      settled := by simp }
  rcases (settling_law s s.heap.next).matched (hinv.alloc o) (hinv.inFlight_alloc hfresh)
    hstart with ⟨hmatched, hinv', hflight, -, hdone⟩
  have hrested := ((settling_law s s.heap.next).rest hinv' hflight hdone hmatched).1
  simp only [BookState.outcome, OrderBook.addOrder, s.heap.read_alloc_next, if_neg hfillable]
  refine ⟨⟨hrested.others, hrested.inHand, hrested.settled⟩, ?_⟩
  rw [next_restOrder]
  exact hflight.allocated

/-- A cancellation or modification settles the order it names. -/
theorem work {own : OrderRef} (hinv : BookInv s.heap s.book) (hfresh : op.Fresh s)
    (htidy : op.Tidy s) (hworks : op.WorksOn s own) (hr : s.book.Resting own) :
    Settling s own none [] (s.outcome op).heap (s.outcome op).book := by
  have hstart : Settling s own none [] s.heap s.book :=
    ⟨fun r _ hr => hr, by simp, fun _ _ => Or.inl hr⟩
  have hstep := ((settling_law s own).step hinv hfresh ⟨rfl, htidy, hworks⟩ hstart).1
  exact ⟨hstep.others, hstep.inHand, hstep.settled⟩

/-- A call that changes nothing has nothing to settle. -/
theorem unchanged (s : BookState) : Settling s s.heap.next none [] s.heap s.book :=
  ⟨fun r _ hr => hr, by simp, fun _ hlt => (Nat.lt_irrefl _ hlt).elim⟩

/-- Every tidy call settles the order it works on. -/
theorem of_tidy (hinv : BookInv s.heap s.book) (hfresh : op.Fresh s) (htidy : op.Tidy s) :
    Settling s (op.own s) none [] (s.outcome op).heap (s.outcome op).book := by
  cases op with
  | add o => exact (add hinv hfresh htidy).1
  | cancel orderId =>
      cases hindexed : s.book.ordersById orderId with
      | none =>
          simp only [BookOp.own, BookState.outcome, OrderBook.cancelOrder, hindexed]
          exact unchanged s
      | some r =>
          have hown : (BookOp.cancel orderId).own s = r := by simp [BookOp.own, hindexed]
          rw [hown]
          exact work hinv hfresh htidy hindexed ((hinv.indexed _ r).mp hindexed).1
  | modify orderId newPrice newQty newClOrdId =>
      cases hindexed : s.book.ordersById orderId with
      | none =>
          simp only [BookOp.own, BookState.outcome, OrderBook.modifyOrder, hindexed]
          exact unchanged s
      | some r =>
          have hown : (BookOp.modify orderId newPrice newQty newClOrdId).own s = r := by
            simp [BookOp.own, hindexed]
          rw [hown]
          exact work hinv hfresh htidy hindexed ((hinv.indexed _ r).mp hindexed).1

end Settling

/-- The resting order an index entry names carries the id of the entry. -/
theorem BookInv.orderId_of_getD {h : Heap Order} {b : OrderBook} {r : OrderRef}
    {orderId : OrderId} (hinv : BookInv h b) (hlt : r < h.next)
    (hown : r = (b.ordersById orderId).getD h.next) : (h.read r).orderId = orderId := by
  cases hindexed : b.ordersById orderId with
  | none =>
      rw [hindexed, Option.getD_none] at hown
      exact (hlt.ne hown).elim
  | some r' =>
      rw [hindexed, Option.getD_some] at hown
      subst hown
      exact ((hinv.indexed _ r).mp hindexed).2

/-! ## Tracked ids -/

/-- A request that reaches a book settles the orders it touches there. -/
def EngineOp.Tidy (e : FullMatchingEngine) (op : EngineOp) : Prop :=
  ∀ call ∈ e.route op, call.2.Tidy (e.bookState call.1)

instance (e : FullMatchingEngine) (op : EngineOp) : Decidable (op.Tidy e) :=
  inferInstanceAs (Decidable (∀ call ∈ e.route op, call.2.Tidy (e.bookState call.1)))

/-- An order rests in some book under an id. -/
def FullMatchingEngine.RestsUnder (e : FullMatchingEngine) (id : OrderId) : Prop :=
  ∃ s r, (e.bookAt s).Resting r ∧ (e.heap.read r).orderId = id

/-- Every id in the maps of the engine is the id of a resting order. -/
def FullMatchingEngine.TracksResting (e : FullMatchingEngine) : Prop :=
  ∀ id, (e.ownedOrders id).isSome ∨ (e.orderToSecurity id).isSome → e.RestsUnder id

namespace FullMatchingEngine

variable {e : FullMatchingEngine} {op : EngineOp} {s : SecurityId} {bop : BookOp}

/-- What a tidy request leaves of the book it reaches. -/
theorem settling_of_route (hinv : EngineInv e) (hfresh : op.Fresh) (htidy : op.Tidy e)
    (hroute : e.route op = some (s, bop)) :
    Settling (e.bookState s) (bop.own (e.bookState s)) none [] (e.outcome op).engine.heap
      ((e.outcome op).engine.bookAt s) := by
  rw [(outcome_of_route hroute).2.1, (step_of_route hroute).1]
  exact Settling.of_tidy (hinv.book_inv s) (hinv.fresh_of_route hroute hfresh)
    (htidy (s, bop) hroute)

/-- An order a tidy request does not work on rests on under its id. -/
theorem resting_after (hinv : EngineInv e) (hfresh : op.Fresh) (htidy : op.Tidy e)
    (hroute : e.route op = some (s, bop)) {s' : SecurityId} {r : OrderRef}
    (hr : (e.bookAt s').Resting r) (hne : r ≠ bop.own (e.bookState s)) :
    (e.outcome op).engine.RestsUnder (e.heap.read r).orderId := by
  have hframe := hinv.routedFrame hfresh hroute
  refine ⟨s', r, ?_, ?_⟩
  · by_cases hs : s' = s
    · subst hs
      exact (settling_of_route hinv hfresh htidy hroute).others r hne hr
    · rw [(step_of_route hroute).2 s' hs]
      exact hr
  · exact Order.field_of_identity Order.orderId
      (hframe.identity_eq r ((hinv.book_inv s').allocated r hr)) fun _ => rfl

end FullMatchingEngine

namespace OwnershipInv

variable {e : FullMatchingEngine} {op : EngineOp}

theorem tracksResting_submit (hinv : OwnershipInv e) (htracks : e.TracksResting)
    {order : Order} {now : Timestamp} (hfresh : (EngineOp.submit order now).Fresh)
    (htidy : (EngineOp.submit order now).Tidy e) {book : OrderBook}
    (hbook : e.orderBooks order.securityId = some book) {id : OrderId}
    (hid : ((e.outcome (.submit order now)).engine.ownedOrders id).isSome) :
    (e.outcome (.submit order now)).engine.RestsUnder id := by
  have hroute := FullMatchingEngine.route_submit now hbook
  rcases FullMatchingEngine.submitOrder_cleanedUp now hbook with ⟨e', hsubmitted, hclean⟩
  by_cases hnew : id = e.nextOrderId
  · -- The order the request brought is still tracked, so it is neither filled nor
    -- cancelled, and the call has put it into its book.
    have howned : e'.ownedOrders id = some e.heap.next := by
      rw [hsubmitted.owned_eq, if_pos hnew]
    have hopen := (hnew ▸ hclean).open_of_tracked hid howned
    have hallocated := (Settling.add (hinv.engine_inv.book_inv order.securityId)
      (hinv.engine_inv.fresh_of_route hroute hfresh) (htidy _ hroute)).2
    have hsettling := FullMatchingEngine.settling_of_route hinv.engine_inv hfresh htidy hroute
    have hresting := (hsettling.settled rfl (by
      rw [(FullMatchingEngine.outcome_of_route hroute).2.1]
      exact hallocated)).resolve_right hopen
    refine ⟨_, _, hresting, ?_⟩
    rw [hnew]
    exact ((hinv.engine_inv.routedFrame hfresh hroute).created _ le_rfl
      ((hinv.engine_inv.step hfresh).book_inv _ |>.allocated _ hresting)).2.2.1
  · have hbefore : (e.ownedOrders id).isSome := by
      rw [hclean.ownedOrders_of_ne hnew, hsubmitted.owned_eq, if_neg hnew] at hid
      exact hid
    rcases htracks id (Or.inl hbefore) with ⟨s, r, hr, rfl⟩
    exact FullMatchingEngine.resting_after hinv.engine_inv hfresh htidy hroute hr
      ((hinv.engine_inv.book_inv s).allocated r hr).ne

theorem tracksResting_cancel (hinv : OwnershipInv e) (htracks : e.TracksResting)
    {orderId : OrderId} {securityId : SecurityId} {sessionUuid : SessionUuid}
    (htidy : (EngineOp.cancel orderId securityId sessionUuid).Tidy e) {book : OrderBook}
    (hbook : e.orderBooks (e.routeSecurity orderId securityId) = some book) {id : OrderId}
    (hid : ((e.outcome (.cancel orderId securityId sessionUuid)).engine.ownedOrders
      id).isSome) :
    (e.outcome (.cancel orderId securityId sessionUuid)).engine.RestsUnder id := by
  have hroute := FullMatchingEngine.route_cancel sessionUuid hbook
  have hfresh : (EngineOp.cancel orderId securityId sessionUuid).Fresh := trivial
  have hkept : id ≠ orderId ∧ (e.ownedOrders id).isSome := by
    simp only [FullMatchingEngine.outcome, FullMatchingEngine.cancelOrder, hbook,
      FullMatchingEngine.untrack, FullMatchingEngine.setBook] at hid
    by_cases heq : id = orderId
    · simp [heq] at hid
    · rw [if_neg heq] at hid
      exact ⟨heq, hid⟩
  rcases htracks id (Or.inl hkept.2) with ⟨s, r, hr, rfl⟩
  refine FullMatchingEngine.resting_after hinv.engine_inv hfresh htidy hroute hr ?_
  intro hown
  exact hkept.1 ((hinv.engine_inv.book_inv _).orderId_of_getD
    ((hinv.engine_inv.book_inv s).allocated r hr) hown)

theorem tracksResting_modify (hinv : OwnershipInv e) (htracks : e.TracksResting)
    {orderId : OrderId} {securityId : SecurityId} {newPrice : Price} {newQty : Int}
    {newClOrdId : ClOrdId}
    (htidy : (EngineOp.modify orderId securityId newPrice newQty newClOrdId).Tidy e)
    {book : OrderBook}
    (hbook : e.orderBooks (e.routeSecurity orderId securityId) = some book) {id : OrderId}
    (hid : ((e.outcome (.modify orderId securityId newPrice newQty
      newClOrdId)).engine.ownedOrders id).isSome) :
    (e.outcome (.modify orderId securityId newPrice newQty newClOrdId)).engine.RestsUnder
      id := by
  have hroute := FullMatchingEngine.route_modify newPrice newQty newClOrdId hbook
  have hfresh : (EngineOp.modify orderId securityId newPrice newQty newClOrdId).Fresh :=
    trivial
  have hclean := FullMatchingEngine.modifyOrder_cleanedUp newPrice newQty newClOrdId hbook
  have hbefore : (e.ownedOrders id).isSome := hclean.isSome_of_isSome hid
  rcases htracks id (Or.inl hbefore) with ⟨s, r, hr, rfl⟩
  have hlt := (hinv.engine_inv.book_inv s).allocated r hr
  by_cases hown : r = (BookOp.modify orderId newPrice newQty newClOrdId).own
      (e.bookState (e.routeSecurity orderId securityId))
  · -- The modified order is still tracked, so the call has put it back.
    have horderId := (hinv.engine_inv.book_inv _).orderId_of_getD hlt hown
    have hsettling := FullMatchingEngine.settling_of_route hinv.engine_inv hfresh htidy hroute
    have hframe := hinv.engine_inv.routedFrame hfresh hroute
    rw [← hown] at hsettling
    rw [horderId] at hid
    have howned := hinv.ownership.owned s r hr
    rw [horderId] at howned
    have hresting := (hsettling.settled rfl (lt_of_lt_of_le hlt hframe.next_le)).resolve_right
      (hclean.open_of_tracked hid howned)
    refine ⟨_, r, hresting, ?_⟩
    exact Order.field_of_identity Order.orderId (hframe.identity_eq r hlt) fun _ => rfl
  · exact FullMatchingEngine.resting_after hinv.engine_inv hfresh htidy hroute hr hown

/-- One tidy request leaves no id tracked for nothing. -/
theorem tracksResting_step (hinv : OwnershipInv e) (htracks : e.TracksResting)
    (hfresh : op.Fresh) (htidy : op.Tidy e) : (e.outcome op).engine.TracksResting := by
  intro id hid
  rw [← (hinv.step hfresh).ownership.same_keys, or_self] at hid
  cases hroute : e.route op with
  | none =>
      rcases FullMatchingEngine.step_of_not_routed hroute with ⟨hheap, hbooks, -⟩
      rw [FullMatchingEngine.ownedOrders_of_not_routed hroute] at hid
      rcases htracks id (Or.inl hid) with ⟨s, r, hr, horderId⟩
      refine ⟨s, r, ?_, ?_⟩
      · rw [hbooks]
        exact hr
      · rw [hheap]
        exact horderId
  | some call =>
      rcases call with ⟨s, bop⟩
      rcases FullMatchingEngine.routed_of_route hroute with ⟨book, hrouted⟩
      cases hrouted with
      | submit hbook => exact hinv.tracksResting_submit htracks hfresh htidy hbook hid
      | cancel hbook => exact hinv.tracksResting_cancel htracks htidy hbook hid
      | modify hbook => exact hinv.tracksResting_modify htracks htidy hbook hid

end OwnershipInv

/-- Along every run of requests that settle the orders they touch, the engine tracks
resting orders only. -/
theorem tracked_ids_rest (ops : List EngineOp)
    (hadmits : FullMatchingEngine.machine.Admits (fun e op => op.Fresh ∧ op.Tidy e) {} ops) :
    (FullMatchingEngine.machine.run {} ops).1.TracksResting := by
  have hrun := Machine.state_invariant (P := fun e => OwnershipInv e ∧ e.TracksResting)
    ⟨OwnershipInv.empty, by simp [FullMatchingEngine.TracksResting]⟩
    (fun e op hinv hop => ⟨hinv.1.step hop.1,
      hinv.1.tracksResting_step hinv.2 hop.1 hop.2⟩) ops hadmits
  exact hrun.2

/-- A bid is filled in part by a smaller ask, moved and cancelled. -/
theorem tracked_ids_rest_of_worked_bid :
    let ops : List EngineOp :=
      [.addInstrument 7, .submit { securityId := 7, price := ⟨100⟩, quantity := 5 } 0,
        .submit { securityId := 7, price := ⟨98⟩, quantity := 5 } 0,
        .submit { securityId := 7, side := .sell, price := ⟨99⟩, quantity := 2 } 0,
        .modify 1 7 ⟨97⟩ 9 [], .cancel 1 7 0]
    (FullMatchingEngine.machine.run {} ops).1.TracksResting :=
  tracked_ids_rest _ (by decide)

/-- An ask fills a bid of its own quantity: nothing rests, and the bid's id is still
tracked. -/
theorem filled_maker_stays_tracked :
    let ops : List EngineOp :=
      [.addInstrument 7, .submit { securityId := 7, price := ⟨100⟩, quantity := 5 } 0,
        .submit { securityId := 7, side := .sell, price := ⟨100⟩, quantity := 5 } 0]
    FullMatchingEngine.machine.Admits (fun _ op => op.Fresh) {} ops ∧
      ¬(FullMatchingEngine.machine.run {} ops).1.TracksResting := by
  intro ops
  have hfresh : FullMatchingEngine.machine.Admits (fun _ op => op.Fresh) {} ops := by decide
  refine ⟨hfresh, ?_⟩
  intro htracks
  have hinv := OwnershipInv.run hfresh
  have howned : ((FullMatchingEngine.machine.run {} ops).1.ownedOrders 1).isSome := by decide
  have hsecurity : (FullMatchingEngine.machine.run {} ops).1.orderToSecurity 1 = some 7 := by
    decide
  have hbid : ((FullMatchingEngine.machine.run {} ops).1.bookAt 7).queued .bid = [] := by
    decide
  have hask : ((FullMatchingEngine.machine.run {} ops).1.bookAt 7).queued .ask = [] := by
    decide
  generalize (FullMatchingEngine.machine.run {} ops).1 = e at *
  rcases htracks 1 (Or.inl howned) with ⟨s, r, ⟨side, hr⟩, hid⟩
  have hs := hinv.ownership.security s r ⟨side, hr⟩
  rw [hid, hsecurity, Option.some.injEq] at hs
  subst hs
  cases side with
  | bid => simp [hbid] at hr
  | ask => simp [hask] at hr

end SimCme
