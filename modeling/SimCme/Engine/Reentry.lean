import SimCme.Engine.MatchSimulation
import SimCme.Engine.PriceTime
import SimCme.MarketData.Replica

/-!
# Modification as cancellation and re-entry

A modified order leaves its level, is matched at its new price and enters again with
what is left.  A cancellation followed by the addition of an order with the same id,
owner, side, type and fills takes other branches to the same end, because only limit
orders that may rest are ever in a book.

The added order is another object.  The queues are compared with its cell read as the
cell of the modified order.

Main results:

- Theorem {lit}`OrderBook.insertResting_alike`: two orders that trade alike enter alike.
- Theorem {lit}`modify_reenters`: on every reachable book a modification leaves the
  levels, trades, updates and counters of a cancellation and an addition.
-/

namespace SimCme

open Library

/-- An order as it is added again in the place of a resting one, at another price and
quantity. -/
structure Order.Reenters (o : Order) (newPrice : Price) (newQty : Int) (o' : Order) : Prop where
  orderId_eq : o'.orderId = o.orderId
  sessionUuid_eq : o'.sessionUuid = o.sessionUuid
  side_eq : o'.side = o.side
  orderType_eq : o'.orderType = o.orderType
  timeInForce_eq : o'.timeInForce = o.timeInForce
  filledQty_eq : o'.filledQty = o.filledQty
  price_eq : o'.price = newPrice
  quantity_eq : o'.quantity = newQty

/-- A level whose queue has one object in the place of another. -/
def PriceLevel.renamed (r' r : OrderRef) (level : PriceLevel) : PriceLevel :=
  { level with queue := level.queue.map fun x => if x = r' then r else x }

/-- Entries whose levels have one object in the place of another. -/
def renamedEntries (r' r : OrderRef) (entries : List (Price × PriceLevel)) :
    List (Price × PriceLevel) :=
  entries.map fun e => (e.1, e.2.renamed r' r)

/-- A fill without the client id of its taker. -/
def OrderFilled.anonymous (e : OrderFilled) : OrderFilled :=
  { e with takerClOrdId := [] }

/-- Renaming an object a level does not hold changes nothing. -/
theorem PriceLevel.renamed_of_not_mem {r' r : OrderRef} {level : PriceLevel}
    (hr : r' ∉ level.queue) : level.renamed r' r = level := by
  have hqueue : level.queue.map (fun x => if x = r' then r else x) = level.queue := by
    conv_rhs => rw [← List.map_id level.queue]
    apply List.map_congr_left
    intro x hx
    rw [if_neg]
    · rfl
    · rintro rfl
      exact hr hx
  unfold PriceLevel.renamed
  rw [hqueue]

theorem renamedEntries_of_not_mem {r' r : OrderRef} {entries : List (Price × PriceLevel)}
    (hr : ∀ e ∈ entries, r' ∉ e.2.queue) : renamedEntries r' r entries = entries := by
  unfold renamedEntries
  conv_rhs => rw [← List.map_id entries]
  apply List.map_congr_left
  intro e he
  rw [PriceLevel.renamed_of_not_mem (hr e he)]
  rfl

namespace OrderBook

/-! ## Entering -/

/-- The level of an order that has entered it. -/
def enteredLevel (inserted : Bool) (price : Price) (qty : Int) (r : OrderRef)
    (level : PriceLevel) : PriceLevel :=
  let level := if inserted then { level with price := price } else level
  { level with
    queue := level.queue ++ [r]
    totalQuantity := level.totalQuantity + qty
    orderCount := level.orderCount + 1 }

/-- Entering an order of a given id, side, price and remaining quantity. -/
def entered (b : OrderBook) (s : BookSide) (orderId : OrderId) (price : Price) (qty : Int)
    (r : OrderRef) : OrderBook × List EngineEvent :=
  let b := b.setId orderId r
  let inserted := ((b.levels s).find? price).isNone
  let m := (b.levels s).tryEmplace price {}
  let m := m.update price (enteredLevel inserted price qty r)
  let b := b.withLevels s m
  let level := (m.find? price).getD {}
  let reported := b.generateBookUpdate s price level.totalQuantity level.orderCount
    (if inserted then .new else .change) (b.priceLevelIndex s price)
  (reported.1, [reported.2])

theorem insertResting_eq_entered (b : OrderBook) (h : Heap Order) (r : OrderRef) :
    b.insertResting h r =
      b.entered (h.read r).side.bookSide (h.read r).orderId (h.read r).price
        (h.read r).remainingQty r :=
  rfl

/-- An object in no level is in no queue of the half. -/
theorem not_mem_queue {b : OrderBook} {r : OrderRef} (hfree : ¬b.Resting r) (s : BookSide) :
    ∀ e ∈ (b.levels s).entries, r ∉ e.2.queue := by
  intro e he hr
  exact hfree ⟨s, mem_queued_iff.mpr ⟨e, he, hr⟩⟩

/-- The level after one object entered, from the level after the other did. -/
theorem enteredLevel_renamed {level : PriceLevel} {r r' : OrderRef} (hr : r' ∉ level.queue)
    (inserted : Bool) (price : Price) (qty : Int) :
    (enteredLevel inserted price qty r' level).renamed r' r =
      enteredLevel inserted price qty r level := by
  have hqueue := congrArg PriceLevel.queue (PriceLevel.renamed_of_not_mem (r := r) hr)
  simp only [PriceLevel.renamed] at hqueue
  cases inserted <;> simp [enteredLevel, PriceLevel.renamed, hqueue]

/-- The entries after one object entered, from the entries after the other did. -/
theorem update_entered_renamed {s : BookSide} {m : LevelMap s} {r r' : OrderRef}
    (hr : ∀ e ∈ m.entries, r' ∉ e.2.queue) (inserted : Bool) (price : Price) (qty : Int) :
    (m.update price (enteredLevel inserted price qty r)).entries =
      renamedEntries r' r (m.update price (enteredLevel inserted price qty r')).entries := by
  unfold renamedEntries OrderedMap.update
  rw [List.map_map]
  apply List.map_congr_left
  intro e he
  simp only [Function.comp_apply]
  split
  · simp only [enteredLevel_renamed (hr e he)]
  · rw [PriceLevel.renamed_of_not_mem (hr e he)]

/-- What an update reports of the level an object entered does not show the object. -/
theorem find?_entered {s : BookSide} (m : LevelMap s) (r r' : OrderRef) (inserted : Bool)
    (price : Price) (qty : Int) :
    (((m.update price (enteredLevel inserted price qty r')).find? price).getD {}).totalQuantity =
        (((m.update price (enteredLevel inserted price qty r)).find? price).getD
          {}).totalQuantity ∧
      (((m.update price (enteredLevel inserted price qty r')).find? price).getD {}).orderCount =
        (((m.update price (enteredLevel inserted price qty r)).find? price).getD
          {}).orderCount := by
  rw [OrderedMap.find?_update, OrderedMap.find?_update]
  cases m.find? price with
  | none => exact ⟨rfl, rfl⟩
  | some level => exact ⟨rfl, rfl⟩

/-- Two objects enter alike. -/
theorem entered_renamed {b : OrderBook} {r r' : OrderRef} (hfree : ¬b.Resting r')
    (s : BookSide) (orderId : OrderId) (price : Price) (qty : Int) :
    let e := b.entered s orderId price qty r
    let e' := b.entered s orderId price qty r'
    e'.2 = e.2 ∧ e'.1.rptSeq = e.1.rptSeq ∧ e'.1.nextTradeId = e.1.nextTradeId ∧
      ∀ side, (e.1.levels side).entries = renamedEntries r' r (e'.1.levels side).entries := by
  have hnone : ∀ e ∈ ((b.levels s).tryEmplace price {}).entries, r' ∉ e.2.queue := by
    intro e he
    rcases OrderedMap.mem_insertEntry he with rfl | he
    · simp
    · exact not_mem_queue hfree s e he
  obtain ⟨htotal, hcount⟩ := find?_entered ((b.levels s).tryEmplace price {}) r r'
    ((b.levels s).find? price).isNone price qty
  refine ⟨?_, ?_, ?_, ?_⟩
  · simp [entered, generateBookUpdate, priceLevelIndex, OrderedMap.keys_update, htotal, hcount]
  · simp [entered, generateBookUpdate]
  · cases s <;> rfl
  · intro side
    rcases BookSide.eq_or_eq_opposite s side with rfl | rfl
    · simpa [entered, generateBookUpdate] using update_entered_renamed hnone _ price qty
    · have hother := renamedEntries_of_not_mem (r := r) (not_mem_queue hfree s.opposite)
      simpa [entered, generateBookUpdate] using hother.symm

/-- Two orders that trade alike enter alike. -/
theorem insertResting_alike {b : OrderBook} {h h' : Heap Order} {r r' : OrderRef}
    (halike : (h.read r).Alike (h'.read r')) (hprice : (h'.read r').price = (h.read r).price)
    (hfree : ¬b.Resting r') :
    let e := b.insertResting h r
    let e' := b.insertResting h' r'
    e'.2 = e.2 ∧ e'.1.rptSeq = e.1.rptSeq ∧ e'.1.nextTradeId = e.1.nextTradeId ∧
      ∀ side, (e.1.levels side).entries = renamedEntries r' r (e'.1.levels side).entries := by
  rw [insertResting_eq_entered, insertResting_eq_entered, halike.side_eq, halike.orderId_eq,
    hprice, halike.remainingQty_eq]
  exact entered_renamed hfree _ _ _ _

/-! ## Matching and resting again -/

/-- A restable order rests through either branch. -/
theorem restOrder_eq_reinsertOrder {b : OrderBook} {h : Heap Order} {r : OrderRef}
    (hrestable : (h.read r).Restable) : b.restOrder h r = b.reinsertOrder h r := by
  have htif : ¬((h.read r).timeInForce = .ioc ∨ (h.read r).timeInForce = .fok) :=
    not_or.mpr hrestable.2
  unfold restOrder reinsertOrder
  simp only [if_neg htif, hrestable.1, and_true, if_true]
  cases (h.read r).isFullyFilled <;> rfl

/-- Two orders that trade alike and have one price rest alike. -/
theorem reinsertOrder_alike {b : OrderBook} {h h' : Heap Order} {r r' : OrderRef}
    (halike : (h.read r).Alike (h'.read r')) (hprice : (h'.read r').price = (h.read r).price)
    (htype : (h'.read r').orderType = (h.read r).orderType) (hfree : ¬b.Resting r') :
    let e := b.reinsertOrder h r
    let e' := b.reinsertOrder h' r'
    e'.events = e.events ∧ e'.book.rptSeq = e.book.rptSeq ∧
      e'.book.nextTradeId = e.book.nextTradeId ∧ e.heap = h ∧ e'.heap = h' ∧
      ∀ side, (e.book.levels side).entries =
        renamedEntries r' r (e'.book.levels side).entries := by
  rcases insertResting_alike halike hprice hfree with ⟨hevents, hseq, htrade, hlevels⟩
  unfold reinsertOrder
  simp only [halike.isFullyFilled_eq, htype]
  split
  · exact ⟨hevents, hseq, htrade, rfl, rfl, hlevels⟩
  · refine ⟨rfl, rfl, rfl, rfl, rfl, ?_⟩
    intro side
    exact (renamedEntries_of_not_mem (not_mem_queue hfree side)).symm

theorem bookUpdates_withTakerClOrdId (clOrdId : ClOrdId) (es : List EngineEvent) :
    bookUpdates (es.map (EngineEvent.withTakerClOrdId clOrdId)) = bookUpdates es := by
  unfold bookUpdates
  rw [List.filterMap_map]
  apply List.filterMap_congr
  intro e _
  cases e <;> rfl

/-- What a modification and a re-entry have in common. -/
structure ReentersAlike (r r' : OrderRef) (m : Outcome) (events : List EngineEvent)
    (a : Outcome) : Prop where
  levels_eq : ∀ side, (m.book.levels side).entries =
    renamedEntries r' r (a.book.levels side).entries
  fills_eq : fillsOf OrderFilled.anonymous m.events = fillsOf OrderFilled.anonymous events
  updates_eq : bookUpdates m.events = bookUpdates events
  rptSeq_eq : m.book.rptSeq = a.book.rptSeq
  nextTradeId_eq : m.book.nextTradeId = a.book.nextTradeId
  order_alike : (m.heap.read r).Alike (a.heap.read r')
  others_eq : ∀ x, x ≠ r → x ≠ r' → a.heap.read x = m.heap.read x

/-- The orders of both when matching starts. -/
theorem tradesAlike_reenters {b : OrderBook} {h : Heap Order} {r : OrderRef}
    {newPrice : Price} {newQty : Int} (newClOrdId : ClOrdId) {o' : Order}
    (ho' : (h.read r).Reenters newPrice newQty o') :
    TradesAlike (fun o o' => o' = o) r h.next
      (h.modify r fun o => modifiedOrder o newPrice newQty newClOrdId)
      ((b.cancelRest h r).heap.alloc o') where
  taker := by
    have hread : ((b.cancelRest h r).heap.alloc o').read h.next = o' :=
      Heap.read_alloc_next _ o'
    rw [hread, h.read_modify_self]
    exact
      { orderId_eq := ho'.orderId_eq
        sessionUuid_eq := ho'.sessionUuid_eq
        side_eq := ho'.side_eq
        quantity_eq := ho'.quantity_eq
        filledQty_eq := ho'.filledQty_eq }
  others x hx hx' := by
    have hread : ((b.cancelRest h r).heap.alloc o').read x = (b.cancelRest h r).heap.read x :=
      Heap.read_alloc_of_ne _ o' hx'
    rw [hread, b.cancelRest_read_of_ne h hx, h.read_modify_of_ne _ hx]

/-- What both leave when matching is over, on the book the resting order has left. -/
structure MatchedAlike (b : OrderBook) (h : Heap Order) (r : OrderRef) (m m' : Outcome) :
    Prop where
  book_eq : m'.book = m.book
  fills_eq : fillsOf OrderFilled.anonymous m'.events = fillsOf OrderFilled.anonymous m.events
  updates_eq : bookUpdates m'.events = bookUpdates m.events
  heap : TradesAlike (fun o o' => o' = o) r h.next m.heap m'.heap
  price_eq : (m'.heap.read h.next).price = (m.heap.read r).price
  orderType_eq : (m'.heap.read h.next).orderType = (m.heap.read r).orderType
  restable : (m'.heap.read h.next).Restable
  free : ¬m.book.Resting h.next

theorem matchOrder_reenters {b : OrderBook} {h : Heap Order} {r : OrderRef}
    {newPrice : Price} {newQty : Int} (newClOrdId : ClOrdId) {o' : Order}
    (hinv : BookInv h b) (hr : b.Resting r) (ho' : (h.read r).Reenters newPrice newQty o') :
    let b₁ := (b.removeFromBook h r).1
    MatchedAlike b h r
      (b₁.matchOrder (h.modify r fun o => modifiedOrder o newPrice newQty newClOrdId) r)
      (b₁.matchOrder ((b₁.cancelRest h r).heap.alloc o') h.next) := by
  intro b₁
  rcases hinv.modified hr newPrice newQty newClOrdId with ⟨hinv₁, hflight₁⟩
  have hfree := hinv₁.not_resting_of_inFlight hflight₁
  have hfree' : ¬b₁.Resting h.next := fun hresting => lt_irrefl _ (hinv₁.allocated _ hresting)
  have hread : ((b₁.cancelRest h r).heap.alloc o').read h.next = o' := Heap.read_alloc_next _ o'
  have hread₁ := h.read_modify_self r fun o => modifiedOrder o newPrice newQty newClOrdId
  have hstop : takerStop (((b₁.cancelRest h r).heap.alloc o').read h.next) =
      takerStop ((h.modify r fun o => modifiedOrder o newPrice newQty newClOrdId).read r) := by
    rw [hread, hread₁]
    unfold takerStop takerSide
    rw [ho'.orderType_eq, ho'.side_eq, ho'.price_eq]
    rfl
  have hmatched := matchOrder_alike Order.matched_eq (tradesAlike_reenters (b := b₁) newClOrdId ho')
    hstop hfree hfree'
  rcases matchOrder_fills hinv₁ hflight₁ with ⟨hfills, -⟩
  have hinv₂ := (hfills.bookInv hinv₁ hflight₁).1
  have hterms := hfills.read_terms r
  have hterms' := b₁.matchOrder_read_terms ((b₁.cancelRest h r).heap.alloc o') h.next h.next
  rw [hread₁] at hterms
  rw [hread] at hterms'
  have hprice := Order.field_of_terms Order.price hterms fun _ => rfl
  have htype := Order.field_of_terms Order.orderType hterms fun _ => rfl
  have hrestable := Order.field_of_terms Order.Restable hterms' fun _ => rfl
  exact
    { book_eq := hmatched.book_eq
      fills_eq := by rw [hmatched.events_eq, fillsOf_withTakerClOrdId fun _ _ => rfl]
      updates_eq := by rw [hmatched.events_eq, bookUpdates_withTakerClOrdId]
      heap := hmatched.heap
      price_eq := by
        rw [hprice, Order.field_of_terms Order.price hterms' fun _ => rfl]
        exact ho'.price_eq
      orderType_eq := by
        rw [htype, Order.field_of_terms Order.orderType hterms' fun _ => rfl]
        exact ho'.orderType_eq
      restable := by
        rw [hrestable, Order.Restable, ho'.orderType_eq, ho'.timeInForce_eq]
        exact hinv.restable_of_resting hr
      free := fun hresting => by
        have hlt := hinv₂.allocated _ hresting
        rw [hfills.next_eq] at hlt
        exact lt_irrefl _ hlt }

/-- A modification of a resting order and its re-entry. -/
theorem modifyOrder_reenters {b : OrderBook} {h : Heap Order} {r : OrderRef}
    {orderId : OrderId} {newPrice : Price} {newQty : Int} (newClOrdId : ClOrdId) {o' : Order}
    (hinv : BookInv h b) (hindexed : b.ordersById orderId = some r)
    (ho' : (h.read r).Reenters newPrice newQty o') :
    let m := b.modifyOrder h orderId newPrice newQty newClOrdId
    let k := b.cancelOrder h orderId
    let a := k.book.addOrder (k.heap.alloc o') h.next
    ReentersAlike r h.next m (k.events ++ a.events) a := by
  have hr := ((hinv.indexed _ r).mp hindexed).1
  have hmatched :
      MatchedAlike b h r
        ((b.removeFromBook h r).1.matchOrder
          (h.modify r fun o => modifiedOrder o newPrice newQty newClOrdId) r)
        ((b.removeFromBook h r).1.matchOrder
          (((b.removeFromBook h r).1.cancelRest h r).heap.alloc o') h.next) :=
    matchOrder_reenters newClOrdId hinv hr ho'
  have hrest := reinsertOrder_alike hmatched.heap.taker hmatched.price_eq hmatched.orderType_eq
    hmatched.free
  have hread : (((b.removeFromBook h r).1.cancelRest h r).heap.alloc o').read h.next = o' :=
    Heap.read_alloc_next _ o'
  have hfok : ¬(o'.timeInForce = .fok ∧ (b.removeFromBook h r).1.canFillFOK o' = false) := by
    rw [ho'.timeInForce_eq]
    exact fun hboth => (hinv.restable_of_resting hr).2.2 hboth.1
  have hcancel : b.cancelOrder h orderId =
      { (b.removeFromBook h r).1.cancelRest h r with
        events := (b.removeFromBook h r).2 ++
          ((b.removeFromBook h r).1.cancelRest h r).events } := by
    simp only [cancelOrder, hindexed]
  have hbook : ((b.removeFromBook h r).1.cancelRest h r).book = (b.removeFromBook h r).1 := rfl
  have hcancelled : ((b.removeFromBook h r).1.cancelRest h r).events =
      [cancelledEvent (((b.removeFromBook h r).1.cancelRest h r).heap.read r)] := rfl
  simp only [hcancel, hbook, modifyOrder, hindexed, addOrder, hread, if_neg hfok,
    restOrder_eq_reinsertOrder hmatched.restable, hmatched.book_eq]
  rcases hrest with ⟨hevents, hseq, htrade, hheap, hheap', hlevels⟩
  rcases removeFromBook_spec hinv hr with ⟨edit, level, hedit⟩
  have hremoved : fillsOf OrderFilled.anonymous (b.removeFromBook h r).2 = [] := by
    rw [hedit.events_eq]
    rfl
  have hfillsCons : ∀ (o : Order) (es : List EngineEvent),
      fillsOf OrderFilled.anonymous (modifiedEvent o newPrice newQty :: es) =
          fillsOf OrderFilled.anonymous es ∧
        fillsOf OrderFilled.anonymous (acceptedEvent o :: es) =
          fillsOf OrderFilled.anonymous es ∧
        fillsOf OrderFilled.anonymous [cancelledEvent o] = [] :=
    fun _ _ => ⟨rfl, rfl, rfl⟩
  have hupdatesCons : ∀ (o : Order) (es : List EngineEvent),
      bookUpdates (modifiedEvent o newPrice newQty :: es) = bookUpdates es ∧
        bookUpdates (acceptedEvent o :: es) = bookUpdates es ∧
        bookUpdates [cancelledEvent o] = [] :=
    fun _ _ => ⟨rfl, rfl, rfl⟩
  exact
    { levels_eq := hlevels
      fills_eq := by
        simp only [fillsOf_append, (hfillsCons _ _).1, (hfillsCons _ _).2.1, hcancelled,
          (hfillsCons _ []).2.2, hremoved, List.nil_append, hmatched.fills_eq, hevents]
      updates_eq := by
        simp only [bookUpdates_append, (hupdatesCons _ _).1, (hupdatesCons _ _).2.1, hcancelled,
          (hupdatesCons _ []).2.2, List.nil_append, hmatched.updates_eq, hevents,
          List.append_assoc]
      rptSeq_eq := hseq.symm
      nextTradeId_eq := htrade.symm
      order_alike := by
        rw [hheap, hheap']
        exact hmatched.heap.taker
      others_eq := fun x hx hx' => by
        rw [hheap, hheap']
        exact hmatched.heap.others x hx hx' }

end OrderBook

/-- On every reachable book, a modification of a resting order leaves the same levels
and queues, makes the same trades, up to the client id, reports the same updates and
takes the same numbers as a cancellation followed by the addition of an order with the
same id, owner, side, type, time in force and fills. -/
theorem modify_reenters (securityId : SecurityId) (ops : List BookOp)
    (hadmits : BookState.machine.Admits (fun s op => op.Fresh s) (.empty securityId) ops)
    (orderId : OrderId) (newPrice : Price) (newQty : Int) (newClOrdId : ClOrdId)
    (r : OrderRef) (o' : Order) :
    let s := (BookState.machine.run (.empty securityId) ops).1
    s.book.ordersById orderId = some r → (s.heap.read r).Reenters newPrice newQty o' →
    let m := s.outcome (.modify orderId newPrice newQty newClOrdId)
    let k := s.outcome (.cancel orderId)
    let a := BookState.outcome ⟨k.heap, k.book⟩ (.add o')
    OrderBook.ReentersAlike r k.heap.next m (k.events ++ a.events) a := by
  intro s hindexed ho'
  have hinv := BookInv.of_run securityId hadmits
  have hnext : (s.book.cancelOrder s.heap orderId).heap.next = s.heap.next := by
    simp only [OrderBook.cancelOrder, hindexed]
    rfl
  simp only [BookState.outcome, hnext]
  exact OrderBook.modifyOrder_reenters newClOrdId hinv hindexed ho'

/-- A bid that was filled in part is moved up into the asks, and rests again. -/
theorem modify_reenters_of_raised_bid :
    let ops : List BookOp :=
      [.add { orderId := 1, side := .buy, price := ⟨100⟩, quantity := 9 },
        .add { orderId := 2, side := .sell, price := ⟨100⟩, quantity := 2 },
        .add { orderId := 3, side := .sell, price := ⟨101⟩, quantity := 3 }]
    let s := (BookState.machine.run (.empty 7) ops).1
    let o' : Order :=
      { orderId := 1, side := .buy, price := ⟨101⟩, quantity := 12, filledQty := 2 }
    let m := s.outcome (.modify 1 ⟨101⟩ 12 [65])
    let k := s.outcome (.cancel 1)
    let a := BookState.outcome ⟨k.heap, k.book⟩ (.add o')
    OrderBook.ReentersAlike 0 k.heap.next m (k.events ++ a.events) a :=
  modify_reenters 7 _ (by decide) 1 _ _ _ 0 _ (by decide)
    ⟨by decide, by decide, by decide, by decide, by decide, by decide, rfl, rfl⟩

end SimCme
