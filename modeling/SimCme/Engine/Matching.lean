import SimCme.Engine.BookInvariant

/-!
# What one trade does, and what a matching loop is

The nested loops of the source are a sequence of trades of one taker against the
order in front of the best opposite level.  This file states once what such a
trade reads and changes, and proves that the loops perform a chain of them and
stop for the right reason.

Main results:

- Theorem {lit}`matchQueue_unfold`: the recursion over a level's queue is the
  source's inner {lit}`while` loop.
- Theorem {lit}`matchFront_heap`: one trade books the same quantity on the maker
  and on the taker and touches no other order.
- Theorem {lit}`Fill.matchFront_eq`: the loop body performs the trade it meets.
- Theorem {lit}`matchOrder_fills`: matching an order is a chain of trades that ends
  when nothing is left of the order or the next level is beyond its limit.
-/

namespace SimCme

open Library

/-- Book {lit}`qty` on an order and set the status a trade leaves it with. -/
def Order.fill (o : Order) (qty : Int) : Order :=
  { o with
    filledQty := o.filledQty + qty
    status := if o.quantity ≤ o.filledQty + qty then .filled else .partiallyFilled }

theorem Order.remainingQty_fill (o : Order) (qty : Int) :
    (o.fill qty).remainingQty = o.remainingQty - qty := by
  simp only [Order.fill, Order.remainingQty]
  omega

/-- A fill is full exactly when it covers what remained. -/
theorem Order.status_fill (o : Order) (qty : Int) :
    (o.fill qty).status = if o.remainingQty ≤ qty then .filled else .partiallyFilled := by
  apply if_congr ?_ rfl rfl
  unfold Order.remainingQty
  omega

/-- What a trade leaves alone: everything but the filled quantity and the
status. -/
def Order.terms (o : Order) : Order :=
  { o with filledQty := 0, status := .new }

@[simp]
theorem Order.terms_fill (o : Order) (qty : Int) : (o.fill qty).terms = o.terms :=
  rfl

/-- Orders with the same terms agree on every field that is part of the terms. -/
theorem Order.field_of_terms {β : Type} (field : Order → β) {o o' : Order}
    (hterms : o.terms = o'.terms) (hfield : ∀ x, field x.terms = field x) :
    field o = field o' := by
  rw [← hfield o, hterms, hfield]

namespace OrderBook

/-- The quantity a taker and a maker trade. -/
def tradeQty (h : Heap Order) (taker maker : OrderRef) : Int :=
  min (h.read taker).remainingQty (h.read maker).remainingQty

/-- The heap after a trade. -/
def tradedHeap (h : Heap Order) (taker maker : OrderRef) : Heap Order :=
  (h.write maker ((h.read maker).fill (tradeQty h taker maker))).write taker
    ((h.read taker).fill (tradeQty h taker maker))

/-- The heap of the loop body is the heap after the trade. -/
theorem matchFront_heap (s : BookSide) (p : Price) {taker maker : OrderRef}
    (level : PriceLevel) (h : Heap Order) (b : OrderBook) (hne : maker ≠ taker) :
    (matchFront s p taker maker level h b).heap = tradedHeap h taker maker := by
  apply Heap.ext_read
  · intro r
    by_cases hr : r = taker
    · subst hr
      simp [matchFront, executeTrade, tradedHeap, tradeQty, Order.fill,
        Order.isFullyFilled, hne, hne.symm]
      exact if_congr Iff.rfl rfl rfl
    · by_cases hrm : r = maker
      · subst hrm
        simp [matchFront, executeTrade, tradedHeap, tradeQty, Order.fill,
          Order.isFullyFilled, hne, hne.symm]
        exact if_congr Iff.rfl rfl rfl
      · simp [matchFront, executeTrade, tradedHeap, hr, hrm]
  · rfl

/-- The level after a trade with the order in front of its queue. -/
def tradedLevel (h : Heap Order) (taker maker : OrderRef) (queue : List OrderRef)
    (level : PriceLevel) : PriceLevel :=
  if ((h.read maker).fill (tradeQty h taker maker)).isFullyFilled then
    { level with
      queue := queue
      totalQuantity := level.totalQuantity - tradeQty h taker maker
      orderCount := level.orderCount - 1 }
  else { level with totalQuantity := level.totalQuantity - tradeQty h taker maker }

/-- The fill report of a trade. -/
def tradedFill (b : OrderBook) (h : Heap Order) (p : Price)
    (taker maker : OrderRef) : OrderFilled :=
  let m := (h.read maker).fill (tradeQty h taker maker)
  let t := (h.read taker).fill (tradeQty h taker maker)
  { tradeId := b.nextTradeId
    securityId := b.securityId
    tradePrice := p
    tradeQty := tradeQty h taker maker
    aggressorSide := t.side
    makerOrderId := m.orderId
    makerClOrdId := m.clOrdId
    makerSessionUuid := m.sessionUuid
    makerCumQty := m.filledQty
    makerLeavesQty := m.remainingQty
    makerOrdStatus := m.status
    takerOrderId := t.orderId
    takerClOrdId := t.clOrdId
    takerSessionUuid := t.sessionUuid
    takerCumQty := t.filledQty
    takerLeavesQty := t.remainingQty
    takerOrdStatus := t.status }

/-- The order in front is filled exactly when it is not larger than the taker. -/
theorem fill_isFullyFilled_iff (h : Heap Order) (taker maker : OrderRef) :
    ((h.read maker).fill (tradeQty h taker maker)).isFullyFilled = true ↔
      (h.read maker).remainingQty ≤ (h.read taker).remainingQty := by
  rw [Order.isFullyFilled_iff, Order.remainingQty_fill]
  unfold tradeQty
  omega

/-- The level the loop body leaves is the level after the trade. -/
theorem matchFront_level {s : BookSide} {p : Price} {taker maker : OrderRef}
    {queue : List OrderRef} {level : PriceLevel} {h : Heap Order} {b : OrderBook}
    (hne : maker ≠ taker) (hqueue : level.queue = maker :: queue) :
    (matchFront s p taker maker level h b).level =
      tradedLevel h taker maker queue level := by
  by_cases hfull : (h.read maker).quantity ≤
      (h.read maker).filledQty + tradeQty h taker maker
  · have hleft : (h.read maker).quantity -
        ((h.read maker).filledQty + tradeQty h taker maker) = 0 := by
      have hle : tradeQty h taker maker ≤ (h.read maker).remainingQty :=
        min_le_right _ _
      unfold Order.remainingQty at hle
      omega
    simp only [tradeQty, Order.remainingQty] at hfull hleft
    simp [matchFront, executeTrade, tradedLevel, tradeQty, Order.fill,
      Order.isFullyFilled, PriceLevel.removeOrder, hne, hfull, hqueue,
      Order.remainingQty, hleft]
  · simp only [tradeQty] at hfull
    simp [matchFront, executeTrade, tradedLevel, tradeQty, Order.fill,
      Order.isFullyFilled, hne, hfull]

/-! ## The book after one trade -/

/-- The id index and the counters after a trade. -/
def tradedIndex (b : OrderBook) (h : Heap Order) (taker maker : OrderRef) : OrderBook :=
  if ((h.read maker).fill (tradeQty h taker maker)).isFullyFilled then
    b.nextTrade.eraseId (h.read maker).orderId
  else b.nextTrade

/-- Filling the maker commutes with reading it back from the executed trade. -/
theorem executeTrade_maker_isFullyFilled {b : OrderBook} {h : Heap Order}
    {maker taker : OrderRef} {p : Price} {qty : Int} (hne : maker ≠ taker) :
    ((b.executeTrade h maker taker p qty).heap.read maker).isFullyFilled =
      ((h.read maker).fill qty).isFullyFilled := by
  have hread : (b.executeTrade h maker taker p qty).heap.read maker =
      { h.read maker with filledQty := (h.read maker).filledQty + qty } := by
    simp [executeTrade, hne]
  rw [hread]
  rfl

/-- The book the loop body has changed when it reports the level. -/
def tradedBook (b : OrderBook) (s : BookSide) (p : Price) (h : Heap Order)
    (taker maker : OrderRef) (queue : List OrderRef) (level : PriceLevel) : OrderBook :=
  (b.tradedIndex h taker maker).withLevels s
    ((b.levels s).update p fun _ => tradedLevel h taker maker queue level)

theorem nextReport_injective : Function.Injective nextReport := by
  intro b b' hnext
  cases b
  cases b'
  simpa [nextReport] using hnext

/-- The book and the events of the loop body. -/
theorem matchFront_report {s : BookSide} {p : Price} {taker maker : OrderRef}
    {queue : List OrderRef} {level : PriceLevel} {h : Heap Order} {b : OrderBook}
    (hne : maker ≠ taker) (hqueue : level.queue = maker :: queue) :
    let b' := b.tradedBook s p h taker maker queue level
    (matchFront s p taker maker level h b).book = b'.nextReport ∧
      (matchFront s p taker maker level h b).events =
        [.orderFilled (b.tradedFill h p taker maker),
          (b'.reportLevel s p (tradedLevel h taker maker queue level)
            (b'.priceLevelIndex s p)).2] := by
  have hlevel := matchFront_level (s := s) (p := p) (h := h) (b := b) hne hqueue
  have hheap := matchFront_heap s p level h b hne
  have hbook : (matchFront s p taker maker level h b).book =
      (b.tradedBook s p h taker maker queue level).nextReport := by
    unfold tradedBook
    rw [← hlevel]
    simp only [matchFront, reportLevel_book]
    rw [executeTrade_maker_isFullyFilled hne]
    unfold tradedIndex tradeQty
    split
    · simp [executeTrade, hne]
    · simp [executeTrade]
  have hreported : ∃ b' : OrderBook,
      (matchFront s p taker maker level h b).book = b'.nextReport ∧
      (matchFront s p taker maker level h b).events =
        [.orderFilled (fillReport
            (b.executeTrade h maker taker p (tradeQty h taker maker)).trade
            ((matchFront s p taker maker level h b).heap.read maker)
            ((matchFront s p taker maker level h b).heap.read taker)),
          (b'.reportLevel s p (matchFront s p taker maker level h b).level
            (b'.priceLevelIndex s p)).2] :=
    ⟨_, reportLevel_book .., rfl⟩
  rcases hreported with ⟨b', hb', hevents⟩
  have heq := nextReport_injective (hb'.symm.trans hbook)
  subst heq
  refine ⟨hbook, ?_⟩
  rw [hevents, hheap, hlevel]
  have hfill : fillReport (b.executeTrade h maker taker p (tradeQty h taker maker)).trade
      ((tradedHeap h taker maker).read maker) ((tradedHeap h taker maker).read taker) =
      b.tradedFill h p taker maker := by
    simp [fillReport, executeTrade, tradedFill, tradedHeap, hne, hne.symm, Order.fill]
  rw [hfill]

theorem eraseIfEmpty_of_queue_ne_nil {b : OrderBook} {s : BookSide} {p : Price}
    {level : PriceLevel} (hqueue : level.queue ≠ []) : b.eraseIfEmpty s p level = b := by
  unfold eraseIfEmpty
  rw [if_neg]
  exact fun hempty => hqueue ((PriceLevel.empty_iff level).mp hempty)

/-! ## Trades as edits of the best level -/

/-- A trade the loop is about to make: the taker wants quantity, and the best
level of the half is within its limit. -/
structure Fill (s : BookSide) (stop : Price → Bool) (taker : OrderRef)
    (h : Heap Order) (b : OrderBook) where
  price : Price
  level : PriceLevel
  rest : List (Price × PriceLevel)
  maker : OrderRef
  queue : List OrderRef
  entries_eq : (b.levels s).entries = (price, level) :: rest
  queue_eq : level.queue = maker :: queue
  taker_pos : 0 < (h.read taker).remainingQty
  not_stop : stop price = false

namespace Fill

variable {s : BookSide} {stop : Price → Bool} {taker : OrderRef} {h : Heap Order}
  {b : OrderBook}

def qty (f : Fill s stop taker h b) : Int :=
  tradeQty h taker f.maker

def heap (f : Fill s stop taker h b) : Heap Order :=
  tradedHeap h taker f.maker

/-- The level the trade leaves, possibly empty. -/
def left (f : Fill s stop taker h b) : PriceLevel :=
  tradedLevel h taker f.maker f.queue f.level

/-- The book as the loop body leaves it, an emptied level still in place. -/
def reported (f : Fill s stop taker h b) : OrderBook :=
  (b.tradedBook s f.price h taker f.maker f.queue f.level).nextReport

def book (f : Fill s stop taker h b) : OrderBook :=
  f.reported.eraseIfEmpty s f.price f.left

/-- The edit of the best level. -/
def edit (f : Fill s stop taker h b) : LevelEdit where
  side := s
  price := f.price
  pre := []
  post := f.rest
  old := some f.level
  new := f.left.kept

def events (f : Fill s stop taker h b) : List EngineEvent :=
  [.orderFilled (b.tradedFill h f.price taker f.maker), .bookUpdate (f.edit.report b)]

/-- Whether the trade completes the maker. -/
def completes (f : Fill s stop taker h b) : Bool :=
  ((h.read f.maker).fill f.qty).isFullyFilled

theorem completes_iff (f : Fill s stop taker h b) :
    f.completes = true ↔ (h.read f.maker).remainingQty ≤ (h.read taker).remainingQty :=
  fill_isFullyFilled_iff h taker f.maker

theorem qty_le_taker (f : Fill s stop taker h b) : f.qty ≤ (h.read taker).remainingQty :=
  min_le_left _ _

theorem qty_le_maker (f : Fill s stop taker h b) : f.qty ≤ (h.read f.maker).remainingQty :=
  min_le_right _ _

theorem qty_eq_of_completes (f : Fill s stop taker h b) (hfull : f.completes = true) :
    f.qty = (h.read f.maker).remainingQty :=
  min_eq_right (f.completes_iff.mp hfull)

theorem maker_queued (f : Fill s stop taker h b) : f.maker ∈ b.queued s := by
  apply mem_queued_iff.mpr
  refine ⟨(f.price, f.level), ?_, ?_⟩
  · simp [f.entries_eq]
  · simp [f.queue_eq]

theorem maker_resting (f : Fill s stop taker h b) : b.Resting f.maker :=
  ⟨s, f.maker_queued⟩

theorem maker_ne_taker (f : Fill s stop taker h b) (hinv : BookInv h b)
    (hflight : InFlight h b taker) : f.maker ≠ taker := by
  intro heq
  exact hinv.not_resting_of_inFlight hflight (heq ▸ f.maker_resting)

theorem maker_pos (f : Fill s stop taker h b) (hinv : BookInv h b) :
    0 < (h.read f.maker).remainingQty :=
  hinv.remaining_pos_of_resting f.maker_resting

theorem qty_pos (f : Fill s stop taker h b) (hinv : BookInv h b) : 0 < f.qty :=
  lt_min f.taker_pos (f.maker_pos hinv)

theorem level_inv (f : Fill s stop taker h b) (hinv : BookInv h b) :
    LevelInv h s f.price f.level := by
  apply hinv.level_inv s (f.price, f.level)
  simp [f.entries_eq]

/-- The queue the trade leaves at the level. -/
theorem left_queue (f : Fill s stop taker h b) :
    f.left.queue = if f.completes then f.queue else f.level.queue := by
  unfold left tradedLevel completes qty
  split <;> rfl

theorem left_queue_subset (f : Fill s stop taker h b) : f.left.queue ⊆ f.level.queue := by
  intro r hr
  rw [f.left_queue] at hr
  split at hr
  · rw [f.queue_eq]
    exact List.mem_cons_of_mem _ hr
  · exact hr

theorem left_totalQuantity (f : Fill s stop taker h b) :
    f.left.totalQuantity = f.level.totalQuantity - f.qty := by
  unfold left tradedLevel qty
  split <;> rfl

theorem left_orderCount (f : Fill s stop taker h b) :
    f.left.orderCount =
      if f.completes then f.level.orderCount - 1 else f.level.orderCount := by
  unfold left tradedLevel completes qty
  split <;> rfl

theorem levelQueue_new (f : Fill s stop taker h b) :
    levelQueue f.edit.new = if f.completes then f.queue else f.level.queue := by
  rw [← f.left_queue]
  simp only [edit, PriceLevel.kept]
  split
  · rename_i hempty
    rw [(PriceLevel.empty_iff _).mp hempty]
    rfl
  · rfl

@[simp]
theorem read_taker (f : Fill s stop taker h b) :
    f.heap.read taker = (h.read taker).fill f.qty := by
  simp [heap, tradedHeap, qty]

theorem read_maker (f : Fill s stop taker h b) (hne : f.maker ≠ taker) :
    f.heap.read f.maker = (h.read f.maker).fill f.qty := by
  simp [heap, tradedHeap, qty, hne]

theorem remainingQty_taker (f : Fill s stop taker h b) :
    (f.heap.read taker).remainingQty = (h.read taker).remainingQty - f.qty := by
  rw [f.read_taker, Order.remainingQty_fill]

theorem remainingQty_maker (f : Fill s stop taker h b) (hne : f.maker ≠ taker) :
    (f.heap.read f.maker).remainingQty = (h.read f.maker).remainingQty - f.qty := by
  rw [f.read_maker hne, Order.remainingQty_fill]

/-- A trade touches no other order. -/
theorem read_of_ne (f : Fill s stop taker h b) {r : OrderRef} (htaker : r ≠ taker)
    (hmaker : r ≠ f.maker) : f.heap.read r = h.read r := by
  simp [heap, tradedHeap, htaker, hmaker]

/-- A trade leaves the terms of every order alone. -/
theorem read_terms (f : Fill s stop taker h b) (r : OrderRef) :
    (f.heap.read r).terms = (h.read r).terms := by
  by_cases htaker : r = taker
  · subst htaker
    simp
  · by_cases hmaker : r = f.maker
    · rw [hmaker, f.read_maker (hmaker ▸ htaker), Order.terms_fill]
    · rw [f.read_of_ne htaker hmaker]

theorem read_orderId (f : Fill s stop taker h b) (r : OrderRef) :
    (f.heap.read r).orderId = (h.read r).orderId :=
  Order.field_of_terms Order.orderId (f.read_terms r) fun _ => rfl

/-- The id index after a trade. -/
theorem book_ordersById (f : Fill s stop taker h b) (id : OrderId) :
    f.book.ordersById id =
      if f.completes = true ∧ id = (h.read f.maker).orderId then none
      else b.ordersById id := by
  unfold book reported tradedBook tradedIndex completes qty
  by_cases hfull : ((h.read f.maker).fill (tradeQty h taker f.maker)).isFullyFilled
  · simp [hfull]
  · simp [hfull]

/-- The trade is an edit of the best level, and its second event reports it. -/
theorem applies (f : Fill s stop taker h b) : f.edit.Applies b f.book := by
  have hbefore : (b.levels s).entries = [] ++ (f.price, f.level) :: f.rest := f.entries_eq
  have hupdate := OrderedMap.update_split (fun _ => f.left) hbefore
  have herase := OrderedMap.erase_split hupdate
  have hself : (f.reported.levels s).entries =
      ((b.levels s).update f.price fun _ => f.left).entries := by
    simp [reported, tradedBook, left]
  have hopposite : f.reported.levels s.opposite = b.levels s.opposite := by
    unfold reported tradedBook tradedIndex
    split <;> simp
  have hseq : f.reported.rptSeq = b.rptSeq + 1 := by
    unfold reported tradedBook tradedIndex
    split <;> simp
  have hsecurity : f.reported.securityId = b.securityId := by
    unfold reported tradedBook tradedIndex
    split <;> simp
  exact
    { before := by simpa [LevelEdit.entries, edit] using hbefore
      after := by
        by_cases hempty : f.left.empty
        · have hmap : f.reported.levels s = (b.levels s).update f.price fun _ => f.left :=
            OrderedMap.ext hself
          simpa [LevelEdit.entries, edit, PriceLevel.kept, hempty, book, eraseIfEmpty, hmap]
            using herase
        · simpa [LevelEdit.entries, edit, PriceLevel.kept, hempty, book, eraseIfEmpty, hself]
            using hupdate
      opposite := by simp [book, edit, hopposite]
      rptSeq_eq := by simp [book, hseq]
      securityId_eq := by simp [book, hsecurity] }

/-- The queues of the half before and after a trade. -/
theorem queued_eq (f : Fill s stop taker h b) :
    b.queued s = f.maker :: (f.queue ++ f.rest.flatMap fun e => e.2.queue) ∧
      f.book.queued s = (if f.completes then f.queue else f.level.queue) ++
        f.rest.flatMap fun e => e.2.queue := by
  constructor
  · simp [queued, f.entries_eq, f.queue_eq]
  · have hafter : (f.book.levels s).entries = f.edit.entries f.edit.new := f.applies.after
    rw [← f.levelQueue_new]
    unfold queued
    rw [hafter]
    cases f.edit.new <;> simp [LevelEdit.entries, levelQueue, edit]

/-- A trade touches no order behind the maker. -/
theorem read_behind (f : Fill s stop taker h b) (hinv : BookInv h b)
    (hflight : InFlight h b taker) :
    ∀ r ∈ f.queue ++ f.rest.flatMap (fun e => e.2.queue), f.heap.read r = h.read r := by
  have hbefore := f.queued_eq.1
  have hnodup := hinv.queued_nodup s
  rw [hbefore, List.nodup_cons] at hnodup
  intro r hr
  apply f.read_of_ne
  · rintro rfl
    apply hinv.not_resting_of_inFlight hflight
    exact ⟨s, by rw [hbefore]; exact List.mem_cons_of_mem _ hr⟩
  · rintro rfl
    exact hnodup.1 hr

/-- What rests after a trade: the maker goes exactly when it is completed. -/
theorem resting_iff (f : Fill s stop taker h b) (hinv : BookInv h b) (r : OrderRef) :
    f.book.Resting r ↔ b.Resting r ∧ ¬(f.completes = true ∧ r = f.maker) := by
  have hold : levelQueue f.edit.old = f.maker :: f.queue := f.queue_eq
  have hnodup := f.applies.old_nodup hinv
  have hqueued : r ∈ levelQueue f.edit.old → b.Resting r :=
    fun hr => ⟨_, f.applies.queued_of_old hr⟩
  rw [hold] at hnodup hqueued
  have hmaker := (List.nodup_cons.mp hnodup).1
  rw [f.applies.resting_iff hinv, f.levelQueue_new, hold, f.queue_eq]
  by_cases hfull : f.completes
  · simp only [hfull, if_true, true_and]
    constructor
    · rintro (hr | ⟨hr, hr'⟩)
      · exact ⟨hqueued (List.mem_cons_of_mem _ hr), fun heq => hmaker (heq ▸ hr)⟩
      · exact ⟨hr, fun heq => hr' (by simp [heq])⟩
    · rintro ⟨hr, hne⟩
      by_cases hr' : r ∈ f.queue
      · exact Or.inl hr'
      · exact Or.inr ⟨hr, by simp [hne, hr']⟩
  · simp only [hfull, Bool.false_eq_true, if_false, false_and, not_false_iff, and_true]
    constructor
    · rintro (hr | ⟨hr, -⟩)
      · exact hqueued hr
      · exact hr
    · intro hr
      by_cases hr' : r ∈ f.maker :: f.queue
      · exact Or.inl hr'
      · exact Or.inr ⟨hr, hr'⟩

/-- A trade keeps the shape of the level. -/
theorem left_shape (f : Fill s stop taker h b) (hinv : BookInv h b)
    (hflight : InFlight h b taker) : LevelShape f.heap s f.price f.left := by
  have hlevel := f.level_inv hinv
  have hne := f.maker_ne_taker hinv hflight
  have hbehind : ∀ r ∈ f.queue, f.heap.read r = h.read r := fun r hr =>
    f.read_behind hinv hflight r (List.mem_append_left _ hr)
  have hsum : (f.queue.map fun r => (f.heap.read r).remainingQty) =
      f.queue.map fun r => (h.read r).remainingQty := by
    apply List.map_congr_left
    intro r hr
    rw [hbehind r hr]
  have htotal := hlevel.total_eq
  have hcount := hlevel.count_eq
  rw [f.queue_eq] at htotal hcount
  have hremaining := f.remainingQty_maker hne
  exact
    { price_eq := by
        rw [← hlevel.price_eq]
        unfold left tradedLevel
        split <;> rfl
      order_price := fun r hr => by
        have hprice := Order.field_of_terms Order.price (f.read_terms r) fun _ => rfl
        exact hprice.trans (hlevel.order_price r (f.left_queue_subset hr))
      order_side := fun r hr => by
        have hside := Order.field_of_terms Order.side (f.read_terms r) fun _ => rfl
        exact (congrArg Side.bookSide hside).trans (hlevel.order_side r (f.left_queue_subset hr))
      order_restable := fun r hr => by
        rw [Order.field_of_terms Order.Restable (f.read_terms r) fun _ => rfl]
        exact hlevel.order_restable r (f.left_queue_subset hr)
      remaining_pos := fun r hr => by
        rw [f.left_queue] at hr
        split at hr
        · rw [hbehind r hr]
          exact hlevel.remaining_pos r (by simp [f.queue_eq, hr])
        · rename_i hfull
          rw [f.queue_eq] at hr
          rcases List.mem_cons.mp hr with rfl | hr
          · rw [f.read_maker hne, ← Order.not_isFullyFilled_iff]
            exact Bool.not_eq_true _ ▸ hfull
          · rw [hbehind r hr]
            exact hlevel.remaining_pos r (by simp [f.queue_eq, hr])
      total_eq := by
        rw [f.left_totalQuantity, f.left_queue, htotal]
        simp only [List.map_cons, List.sum_cons]
        split
        · rename_i hfull
          have hqty := f.qty_eq_of_completes hfull
          rw [hsum]
          omega
        · rw [f.queue_eq, List.map_cons, List.sum_cons, hsum, hremaining]
          omega
      count_eq := by
        rw [f.left_orderCount, f.left_queue, hcount]
        split
        · simp
        · rw [f.queue_eq] }

/-- A trade keeps the book invariant. -/
theorem bookInv (f : Fill s stop taker h b) (hinv : BookInv h b)
    (hflight : InFlight h b taker) : BookInv f.heap f.book := by
  have hold : levelQueue f.edit.old = f.maker :: f.queue := f.queue_eq
  have hnodup := f.applies.old_nodup hinv
  have hshape := f.left_shape hinv hflight
  have hresting := f.resting_iff hinv
  have hfree := hinv.not_resting_of_inFlight hflight
  apply f.applies.bookInv hinv
  · intro r hr hout
    rw [hold] at hout
    apply f.read_of_ne
    · rintro rfl
      exact hfree hr
    · rintro rfl
      simp at hout
  · intro level hlevel
    simp only [edit, PriceLevel.kept] at hlevel
    split at hlevel
    · contradiction
    · rename_i hempty
      cases hlevel
      refine ⟨hshape, ?_⟩
      exact fun hnil => hempty ((PriceLevel.empty_iff _).mpr hnil)
  · rw [f.levelQueue_new]
    rw [hold] at hnodup
    split
    · exact (List.nodup_cons.mp hnodup).2
    · rw [f.queue_eq]
      exact hnodup
  · intro r hr
    rw [f.levelQueue_new] at hr
    rw [hold]
    split at hr
    · exact Or.inl (List.mem_cons_of_mem _ hr)
    · rw [f.queue_eq] at hr
      exact Or.inl hr
  · intro id r
    rw [f.book_ordersById, hresting, f.read_orderId]
    split
    · rename_i hgone
      constructor
      · intro hr
        contradiction
      · rintro ⟨⟨hr, hkept⟩, hid⟩
        have hmaker := hinv.orderId_injective hr f.maker_resting (hid.trans hgone.2)
        exact (hkept ⟨hgone.1, hmaker⟩).elim
    · rename_i hkept
      rw [hinv.indexed]
      constructor
      · rintro ⟨hr, hid⟩
        refine ⟨⟨hr, ?_⟩, hid⟩
        rintro ⟨hfull, rfl⟩
        exact hkept ⟨hfull, hid.symm⟩
      · rintro ⟨⟨hr, -⟩, hid⟩
        exact ⟨hr, hid⟩
  · intro r hr
    exact hinv.allocated r ((hresting r).mp hr).1

/-- The taker stays in flight. -/
theorem inFlight (f : Fill s stop taker h b) (hflight : InFlight h b taker) :
    InFlight f.heap f.book taker where
  allocated := hflight.allocated
  unindexed := by
    rw [f.read_orderId, f.book_ordersById, hflight.unindexed]
    split <;> rfl

/-- A completed maker that is not the last of its level leaves the level in place,
with the rest of its queue. -/
theorem next_of_completes (f : Fill s stop taker h b) (hfull : f.completes = true)
    (hqueue : f.queue ≠ []) :
    f.reported = f.book ∧ (f.book.levels s).entries = (f.price, f.left) :: f.rest ∧
      f.left.queue = f.queue := by
  have hleft : f.left.queue = f.queue := by
    rw [f.left_queue, if_pos hfull]
  have hleftne : f.left.queue ≠ [] := by rwa [hleft]
  have hempty : ¬f.left.empty = true := by
    rw [PriceLevel.empty_iff]
    exact hleftne
  refine ⟨(eraseIfEmpty_of_queue_ne_nil hleftne).symm, ?_, hleft⟩
  have hafter := f.applies.after
  simpa [edit, LevelEdit.entries, PriceLevel.kept, hempty] using hafter

/-! ## The loops perform trades -/

/-- The body of the inner loop performs the trade, up to erasing an emptied
level. -/
theorem matchFront_eq (f : Fill s stop taker h b) (hne : f.maker ≠ taker) :
    matchFront s f.price taker f.maker f.level h b =
      { heap := f.heap, book := f.reported, events := f.events, level := f.left } := by
  have hheap := matchFront_heap s f.price f.level h b hne
  have hlevel := matchFront_level (s := s) (p := f.price) (h := h) (b := b) hne f.queue_eq
  have hreport := matchFront_report (s := s) (p := f.price) (h := h) (b := b) hne f.queue_eq
  have hevents : (matchFront s f.price taker f.maker f.level h b).events = f.events := by
    have hentries : ((b.tradedBook s f.price h taker f.maker f.queue f.level).levels
        s).entries = [] ++ (f.price, f.left) :: f.rest := by
      unfold tradedBook
      rw [levels_withLevels_self]
      exact OrderedMap.update_split _ f.entries_eq
    have hindex := priceLevelIndex_split hentries
    have hseq : (b.tradedBook s f.price h taker f.maker f.queue f.level).rptSeq =
        b.rptSeq := by
      unfold tradedBook tradedIndex
      split <;> simp
    have hsecurity : (b.tradedBook s f.price h taker f.maker f.queue f.level).securityId =
        b.securityId := by
      unfold tradedBook tradedIndex
      split <;> simp
    have hleft : f.left = tradedLevel h taker f.maker f.queue f.level := rfl
    rw [hreport.2, hindex, ← hleft]
    by_cases hempty : f.left.empty
    · simp [events, reportLevel, generateBookUpdate, LevelEdit.report, edit,
        PriceLevel.kept, hempty, hseq, hsecurity]
    · simp [events, reportLevel, generateBookUpdate, LevelEdit.report, edit,
        PriceLevel.kept, hempty, hseq, hsecurity]
  rcases hresult : matchFront s f.price taker f.maker f.level h b with
    ⟨⟨heap', book', events'⟩, level'⟩
  rw [hresult] at hheap hlevel hreport hevents
  subst hheap
  subst hlevel
  subst hevents
  rw [show book' = f.reported from hreport.1]
  rfl

end Fill

/-- A chain of trades of one taker on one half, with the events they emit. -/
inductive Fills (s : BookSide) (stop : Price → Bool) (taker : OrderRef) :
    Heap Order → OrderBook → List EngineEvent → Heap Order → OrderBook → Prop where
  | done (h : Heap Order) (b : OrderBook) : Fills s stop taker h b [] h b
  | trade {h h' : Heap Order} {b b' : OrderBook} {events : List EngineEvent}
      (f : Fill s stop taker h b) (rest : Fills s stop taker f.heap f.book events h' b') :
      Fills s stop taker h b (f.events ++ events) h' b'

namespace Fills

variable {s : BookSide} {stop : Price → Bool} {taker : OrderRef} {h h' h'' : Heap Order}
  {b b' b'' : OrderBook} {events events' : List EngineEvent}

theorem trans (hfirst : Fills s stop taker h b events h' b')
    (hsecond : Fills s stop taker h' b' events' h'' b'') :
    Fills s stop taker h b (events ++ events') h'' b'' := by
  induction hfirst with
  | done => exact hsecond
  | trade f _ ih =>
      rw [List.append_assoc]
      exact .trade f (ih hsecond)

/-- A chain keeps the book invariant and the taker in flight. -/
theorem bookInv (hfills : Fills s stop taker h b events h' b') (hinv : BookInv h b)
    (hflight : InFlight h b taker) : BookInv h' b' ∧ InFlight h' b' taker := by
  induction hfills with
  | done => exact ⟨hinv, hflight⟩
  | trade f _ ih => exact ih (f.bookInv hinv hflight) (f.inFlight hflight)

/-- A chain allocates nothing. -/
theorem next_eq (hfills : Fills s stop taker h b events h' b') : h'.next = h.next := by
  induction hfills with
  | done => rfl
  | trade f _ ih => exact ih

/-- A chain leaves the terms of every order alone. -/
theorem read_terms (hfills : Fills s stop taker h b events h' b') (r : OrderRef) :
    (h'.read r).terms = (h.read r).terms := by
  induction hfills with
  | done => rfl
  | trade f _ ih => rw [ih, f.read_terms]

end Fills

/-- The recursion over the queue is the source's inner {lit}`while` loop: while
the level is not empty and the taker wants quantity, run the body. -/
theorem matchQueue_unfold {s : BookSide} {p : Price} {taker maker : OrderRef}
    {queue : List OrderRef} {level : PriceLevel} {h : Heap Order} {b : OrderBook}
    (hne : maker ≠ taker) (hqueue : level.queue = maker :: queue)
    (hpos : 0 < (h.read taker).remainingQty) :
    matchQueue s p taker level.queue level h b =
      let r := matchFront s p taker maker level h b
      let rest := matchQueue s p taker r.level.queue r.level r.heap r.book
      { rest with events := r.events ++ rest.events } := by
  have hheap := matchFront_heap s p level h b hne
  have hlevel := matchFront_level (s := s) (p := p) (h := h) (b := b) hne hqueue
  have hmaker : (matchFront s p taker maker level h b).heap.read maker =
      (h.read maker).fill (tradeQty h taker maker) := by
    simp [hheap, tradedHeap, hne]
  rw [hqueue, matchQueue, if_pos hpos]
  simp only [hmaker]
  by_cases hfull : ((h.read maker).fill (tradeQty h taker maker)).isFullyFilled
  · have hleft : (matchFront s p taker maker level h b).level.queue = queue := by
      rw [hlevel]
      simp [tradedLevel, hfull]
    rw [if_pos hfull, hleft]
  · -- The maker is left, so the taker took all it wanted.
    have hleft : (matchFront s p taker maker level h b).level.queue = maker :: queue := by
      rw [hlevel]
      simp [tradedLevel, hfull, hqueue]
    have hdone : ¬((matchFront s p taker maker level h b).heap.read taker).remainingQty > 0 := by
      have hlt := mt (fill_isFullyFilled_iff h taker maker).mpr hfull
      have htaker : (matchFront s p taker maker level h b).heap.read taker =
          (h.read taker).fill (tradeQty h taker maker) := by
        simp [hheap, tradedHeap]
      rw [htaker, Order.remainingQty_fill]
      unfold tradeQty
      omega
    rw [if_neg hfull, hleft, matchQueue, if_neg hdone]
    simp

/-- The inner loop on the best level, with the erasure that follows it, performs
a chain of trades.  It ends because the taker is done, or with the level gone. -/
theorem matchQueue_fills {s : BookSide} {stop : Price → Bool} {taker : OrderRef}
    {p : Price} {rest : List (Price × PriceLevel)} (hstop : stop p = false)
    {queue : List OrderRef} :
    ∀ {level : PriceLevel} {h : Heap Order} {b : OrderBook}, BookInv h b →
      InFlight h b taker → (b.levels s).entries = (p, level) :: rest →
      level.queue = queue → queue ≠ [] →
      let r := matchQueue s p taker queue level h b
      let b' := r.book.eraseIfEmpty s p r.level
      Fills s stop taker h b r.events r.heap b' ∧
        ((r.heap.read taker).remainingQty ≤ 0 ∨ (b'.levels s).entries = rest) := by
  induction queue with
  | nil =>
      intro level h b _ _ _ _ hnil
      contradiction
  | cons maker queue ih =>
      intro level h b hinv hflight hentries hqueue _
      simp only [matchQueue]
      by_cases hpos : (h.read taker).remainingQty > 0
      · let f : Fill s stop taker h b :=
          ⟨p, level, rest, maker, queue, hentries, hqueue, hpos, hstop⟩
        have hne : maker ≠ taker := f.maker_ne_taker hinv hflight
        have hfront : matchFront s p taker maker level h b = ⟨⟨f.heap, f.reported, f.events⟩,
            f.left⟩ := f.matchFront_eq hne
        have hmaker : (f.heap.read maker).isFullyFilled = f.completes :=
          congrArg Order.isFullyFilled (f.read_maker hne)
        have hlast : Fills s stop taker h b f.events f.heap f.book := by
          have hdone := Fills.trade f (.done f.heap f.book)
          rwa [List.append_nil] at hdone
        have hleft := f.left_queue
        rw [if_pos hpos, hfront]
        simp only [hmaker]
        by_cases hfull : f.completes
        · rw [if_pos hfull] at hleft ⊢
          cases queue with
          | nil =>
              simp only [matchQueue, List.append_nil]
              refine ⟨hlast, Or.inr ?_⟩
              have hempty := (PriceLevel.empty_iff f.left).mpr hleft
              have hafter : (f.book.levels s).entries = rest := by
                have hafter := f.applies.after
                simpa [Fill.edit, LevelEdit.entries, PriceLevel.kept, hempty] using hafter
              exact hafter
          | cons next queue =>
              rcases f.next_of_completes hfull (by simp [f]) with ⟨hbook, hafter, hleft⟩
              obtain ⟨hfills, hend⟩ := ih (f.bookInv hinv hflight) (f.inFlight hflight)
                hafter hleft (by simp)
              rw [hbook]
              exact ⟨.trade f hfills, hend⟩
        · rw [if_neg hfull]
          have htaker : (f.heap.read taker).remainingQty ≤ 0 := by
            have hlt := mt f.completes_iff.mpr hfull
            rw [f.remainingQty_taker]
            unfold Fill.qty tradeQty
            omega
          exact ⟨hlast, Or.inl htaker⟩
      · rw [if_neg hpos]
        have hne : level.queue ≠ [] := by simp [hqueue]
        rw [eraseIfEmpty_of_queue_ne_nil hne]
        exact ⟨.done h b, Or.inl (not_lt.mp hpos)⟩

/-- A taker that wants nothing ends the outer loop. -/
theorem matchLevels_of_done {s : BookSide} {stop : Price → Bool} {taker : OrderRef}
    {h : Heap Order} (hdone : (h.read taker).remainingQty ≤ 0)
    (entries : List (Price × PriceLevel)) (b : OrderBook) :
    matchLevels s stop taker entries h b = { heap := h, book := b, events := [] } := by
  cases entries with
  | nil => rfl
  | cons e rest =>
      rw [matchLevels, if_neg (not_lt.mpr hdone)]

/-- The outer loop performs a chain of trades.  It ends because the taker is
done, or with only levels beyond its limit. -/
theorem matchLevels_fills {s : BookSide} {stop : Price → Bool} {taker : OrderRef}
    (hmono : ∀ p q, s.Better p q → stop p = true → stop q = true)
    {entries : List (Price × PriceLevel)} :
    ∀ {h : Heap Order} {b : OrderBook}, BookInv h b → InFlight h b taker →
      (b.levels s).entries = entries →
      let r := matchLevels s stop taker entries h b
      Fills s stop taker h b r.events r.heap r.book ∧
        ((r.heap.read taker).remainingQty ≤ 0 ∨
          ∀ e ∈ (r.book.levels s).entries, stop e.1 = true) := by
  induction entries with
  | nil =>
      intro h b _ _ hentries
      refine ⟨.done h b, Or.inr ?_⟩
      simp [matchLevels, hentries]
  | cons e rest ih =>
      intro h b hinv hflight hentries
      rcases e with ⟨p, level⟩
      simp only [matchLevels]
      by_cases hpos : (h.read taker).remainingQty > 0
      · rw [if_pos hpos]
        by_cases hstop : stop p
        · rw [if_pos hstop]
          refine ⟨.done h b, Or.inr ?_⟩
          have hsorted := (b.levels s).sorted
          rw [hentries] at hsorted
          rw [hentries]
          intro e he
          rcases List.mem_cons.mp he with rfl | he
          · exact hstop
          · exact hmono p e.1 ((List.pairwise_cons.mp hsorted).1 e he) hstop
        · rw [if_neg hstop]
          have hlevel : LevelInv h s p level := hinv.level_inv s (p, level) (by simp [hentries])
          obtain ⟨hfills, hend⟩ := matchQueue_fills (by simpa using hstop) hinv hflight
            hentries rfl hlevel.queue_ne_nil
          rcases hfills.bookInv hinv hflight with ⟨hinv', hflight'⟩
          by_cases hdone : ((matchQueue s p taker level.queue level h b).heap.read
              taker).remainingQty ≤ 0
          · rw [matchLevels_of_done hdone]
            simp only [List.append_nil]
            exact ⟨hfills, Or.inl hdone⟩
          · have hrest := hend.resolve_left hdone
            rcases ih hinv' hflight' hrest with ⟨hfills', hend'⟩
            exact ⟨hfills.trans hfills', hend'⟩
      · rw [if_neg hpos]
        exact ⟨.done h b, Or.inl (not_lt.mp hpos)⟩

/-- Prices beyond one at which a limit order stops are beyond its limit too. -/
theorem limitStop_mono {s : BookSide} {limit : Price} (p q : Price)
    (hbetter : s.Better p q) (hstop : limitStop s limit p = true) :
    limitStop s limit q = true := by
  cases s with
  | bid =>
      have hlt : p < limit := of_decide_eq_true hstop
      exact decide_eq_true (lt_trans (show q < p from hbetter) hlt)
  | ask =>
      have hlt : limit < p := of_decide_eq_true hstop
      exact decide_eq_true (lt_trans hlt (show p < q from hbetter))

/-- The half an order trades against. -/
def takerSide (o : Order) : BookSide :=
  o.side.bookSide.opposite

/-- The prices an order does not trade at: none for a market order, those beyond
its limit for every other type. -/
def takerStop (o : Order) : Price → Bool :=
  if o.orderType = .market then fun _ => false else limitStop (takerSide o) o.price

theorem takerStop_mono {o : Order} (p q : Price) (hbetter : (takerSide o).Better p q)
    (hstop : takerStop o p = true) : takerStop o q = true := by
  unfold takerStop at hstop ⊢
  split at hstop
  · contradiction
  · rename_i htype
    rw [if_neg htype]
    exact limitStop_mono p q hbetter hstop

/-- Both matching functions are the outer loop on the taker's side. -/
theorem matchOrder_eq (b : OrderBook) (h : Heap Order) (order : OrderRef) :
    b.matchOrder h order =
      matchLevels (takerSide (h.read order)) (takerStop (h.read order)) order
        (b.levels (takerSide (h.read order))).entries h b := by
  unfold matchOrder takerStop
  split <;> rfl

/-- Matching performs a chain of trades and stops for the right reason. -/
theorem matchOrder_fills {b : OrderBook} {h : Heap Order} {order : OrderRef}
    (hinv : BookInv h b) (hflight : InFlight h b order) :
    Fills (takerSide (h.read order)) (takerStop (h.read order)) order h b
        (b.matchOrder h order).events (b.matchOrder h order).heap
        (b.matchOrder h order).book ∧
      (((b.matchOrder h order).heap.read order).remainingQty ≤ 0 ∨
        ∀ e ∈ ((b.matchOrder h order).book.levels (takerSide (h.read order))).entries,
          takerStop (h.read order) e.1 = true) := by
  rw [matchOrder_eq]
  exact matchLevels_fills takerStop_mono hinv hflight rfl

end OrderBook
end SimCme
