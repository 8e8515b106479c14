import SimCme.Engine.PriceTime

/-!
# What matching reads

Matching reads the ids, the owner, the side and the quantities of the order in hand and
of the orders it meets, and nothing else.  Two runs of the loops on one book, whose
orders agree on these, make the same trades.  The order in hand may stand in different
cells in the two runs and may have different client ids.

Main results:

- Theorem {lit}`TradesAlike.traded`: one trade keeps the orders of the two runs alike.
- Theorem {lit}`matchLevels_alike`: the loops leave the same book and report the same
  trades, up to the client id of the order in hand.
- Theorem {lit}`matchOrder_alike`: so does matching, for orders that stop at the same
  prices.
- Theorem {lit}`matchOrder_read_terms`: matching leaves the terms of every order alone,
  whatever the book.
-/

namespace SimCme

open Library

/-- Orders that trade alike. -/
structure Order.Alike (o o' : Order) : Prop where
  orderId_eq : o'.orderId = o.orderId
  sessionUuid_eq : o'.sessionUuid = o.sessionUuid
  side_eq : o'.side = o.side
  quantity_eq : o'.quantity = o.quantity
  filledQty_eq : o'.filledQty = o.filledQty

namespace Order.Alike

variable {o o' : Order}

theorem refl (o : Order) : o.Alike o :=
  ⟨rfl, rfl, rfl, rfl, rfl⟩

theorem remainingQty_eq (halike : o.Alike o') : o'.remainingQty = o.remainingQty := by
  unfold Order.remainingQty
  rw [halike.quantity_eq, halike.filledQty_eq]

theorem isFullyFilled_eq (halike : o.Alike o') : o'.isFullyFilled = o.isFullyFilled := by
  unfold Order.isFullyFilled
  rw [halike.quantity_eq, halike.filledQty_eq]

theorem fill (halike : o.Alike o') (qty : Int) : (o.fill qty).Alike (o'.fill qty) where
  orderId_eq := halike.orderId_eq
  sessionUuid_eq := halike.sessionUuid_eq
  side_eq := halike.side_eq
  quantity_eq := halike.quantity_eq
  filledQty_eq := by
    simp only [Order.fill]
    rw [halike.filledQty_eq]

/-- A trade sets the status from the quantities. -/
theorem status_fill_eq (halike : o.Alike o') (qty : Int) :
    (o'.fill qty).status = (o.fill qty).status := by
  rw [Order.status_fill, Order.status_fill, halike.remainingQty_eq]

end Order.Alike

/-- A relation between the resting orders of two runs that trades respect and that
shows in no report. -/
structure Order.Matched (R : Order → Order → Prop) : Prop where
  alike : ∀ {o o'}, R o o' → o.Alike o'
  clOrdId_eq : ∀ {o o'}, R o o' → o'.clOrdId = o.clOrdId
  fill : ∀ {o o'} (qty : Int), R o o' → R (o.fill qty) (o'.fill qty)

theorem Order.matched_eq : Order.Matched fun o o' => o' = o where
  alike := by
    rintro _ o rfl
    exact .refl o
  clOrdId_eq := by
    rintro _ o rfl
    rfl
  fill := by
    rintro _ o qty rfl
    rfl

/-- The same event for an order in hand with another client id. -/
def EngineEvent.withTakerClOrdId (clOrdId : ClOrdId) : EngineEvent → EngineEvent
  | .orderFilled e => .orderFilled { e with takerClOrdId := clOrdId }
  | e => e

/-- What a view of the fills shows without that client id. -/
theorem fillsOf_withTakerClOrdId {β : Type} {view : OrderFilled → β}
    (hview : ∀ (e : OrderFilled) (c : ClOrdId), view { e with takerClOrdId := c } = view e)
    (clOrdId : ClOrdId) (es : List EngineEvent) :
    fillsOf view (es.map (EngineEvent.withTakerClOrdId clOrdId)) = fillsOf view es := by
  unfold fillsOf
  rw [List.filterMap_map]
  apply List.filterMap_congr
  intro e _
  cases e with
  | orderFilled e => exact congrArg some (hview e clOrdId)
  | _ => rfl

/-- The reports of matching: fills and updates of the book. -/
def EngineEvent.isMatchReport : EngineEvent → Bool
  | .orderFilled _ => true
  | .bookUpdate _ => true
  | _ => false

namespace OrderBook

/-- The orders of two runs of matching: the orders in hand trade alike, and so do all
others, cell by cell. -/
structure TradesAlike (R : Order → Order → Prop) (t t' : OrderRef) (h h' : Heap Order) :
    Prop where
  taker : (h.read t).Alike (h'.read t')
  others : ∀ r, r ≠ t → r ≠ t' → R (h.read r) (h'.read r)

namespace TradesAlike

variable {R : Order → Order → Prop} {t t' m : OrderRef} {h h' : Heap Order} {b : OrderBook}
  {s : BookSide} {p : Price} {queue : List OrderRef} {level : PriceLevel}

theorem tradeQty_eq (hR : Order.Matched R) (hsim : TradesAlike R t t' h h') (hm : m ≠ t)
    (hm' : m ≠ t') : tradeQty h' t' m = tradeQty h t m := by
  unfold tradeQty
  rw [hsim.taker.remainingQty_eq, (hR.alike (hsim.others m hm hm')).remainingQty_eq]

/-- The maker is filled in both runs or in none. -/
theorem maker_fill (hR : Order.Matched R) (hsim : TradesAlike R t t' h h') (hm : m ≠ t)
    (hm' : m ≠ t') :
    R ((h.read m).fill (tradeQty h t m)) ((h'.read m).fill (tradeQty h' t' m)) := by
  rw [hsim.tradeQty_eq hR hm hm']
  exact hR.fill _ (hsim.others m hm hm')

theorem taker_fill (hR : Order.Matched R) (hsim : TradesAlike R t t' h h') (hm : m ≠ t)
    (hm' : m ≠ t') :
    ((h.read t).fill (tradeQty h t m)).Alike ((h'.read t').fill (tradeQty h' t' m)) := by
  rw [hsim.tradeQty_eq hR hm hm']
  exact hsim.taker.fill _

theorem tradedLevel_eq (hR : Order.Matched R) (hsim : TradesAlike R t t' h h') (hm : m ≠ t)
    (hm' : m ≠ t') : tradedLevel h' t' m queue level = tradedLevel h t m queue level := by
  unfold tradedLevel
  rw [(hR.alike (hsim.maker_fill hR hm hm')).isFullyFilled_eq, hsim.tradeQty_eq hR hm hm']

theorem tradedBook_eq (hR : Order.Matched R) (hsim : TradesAlike R t t' h h') (hm : m ≠ t)
    (hm' : m ≠ t') :
    b.tradedBook s p h' t' m queue level = b.tradedBook s p h t m queue level := by
  unfold tradedBook tradedIndex
  rw [(hR.alike (hsim.maker_fill hR hm hm')).isFullyFilled_eq,
    (hR.alike (hsim.others m hm hm')).orderId_eq, hsim.tradedLevel_eq hR hm hm']

theorem tradedFill_eq (hR : Order.Matched R) (hsim : TradesAlike R t t' h h') (hm : m ≠ t)
    (hm' : m ≠ t') :
    b.tradedFill h' p t' m =
      { b.tradedFill h p t m with takerClOrdId := (h'.read t').clOrdId } := by
  have hqty := hsim.tradeQty_eq hR hm hm'
  have hmaker := hR.alike (hsim.others m hm hm')
  have hclOrdId := hR.clOrdId_eq (hsim.others m hm hm')
  simp only [tradedFill, hqty, hmaker.status_fill_eq, hsim.taker.status_fill_eq,
    (hmaker.fill _).remainingQty_eq, (hsim.taker.fill _).remainingQty_eq]
  simp only [Order.fill, hmaker.orderId_eq, hmaker.sessionUuid_eq, hmaker.filledQty_eq, hclOrdId,
    hsim.taker.orderId_eq, hsim.taker.sessionUuid_eq, hsim.taker.filledQty_eq, hsim.taker.side_eq]

/-- One trade keeps the orders of the two runs alike. -/
theorem traded (hR : Order.Matched R) (hsim : TradesAlike R t t' h h') (hm : m ≠ t)
    (hm' : m ≠ t') : TradesAlike R t t' (tradedHeap h t m) (tradedHeap h' t' m) where
  taker := by
    unfold tradedHeap
    rw [Heap.read_write_self, Heap.read_write_self]
    exact hsim.taker_fill hR hm hm'
  others r hr hr' := by
    unfold tradedHeap
    rw [Heap.read_write_of_ne _ _ hr, Heap.read_write_of_ne _ _ hr']
    by_cases hrm : r = m
    · subst hrm
      rw [Heap.read_write_self, Heap.read_write_self]
      exact hsim.maker_fill hR hm hm'
    · rw [Heap.read_write_of_ne _ _ hrm, Heap.read_write_of_ne _ _ hrm]
      exact hsim.others r hr hr'

/-- A trade leaves the client id of the order in hand alone. -/
theorem clOrdId_traded (h : Heap Order) (t m : OrderRef) :
    ((tradedHeap h t m).read t).clOrdId = (h.read t).clOrdId := by
  simp [tradedHeap, Order.fill]

end TradesAlike

/-- What two runs of matching leave behind. -/
structure Outcome.Alike (R : Order → Order → Prop) (t t' : OrderRef) (clOrdId : ClOrdId)
    (r r' : Outcome) : Prop where
  book_eq : r'.book = r.book
  events_eq : r'.events = r.events.map (EngineEvent.withTakerClOrdId clOrdId)
  heap : TradesAlike R t t' r.heap r'.heap
  clOrdId_eq : (r'.heap.read t').clOrdId = clOrdId

variable {R : Order → Order → Prop} {t t' m : OrderRef} {s : BookSide} {p : Price}
  {stop : Price → Bool}

/-- The body of the inner loop trades alike. -/
theorem matchFront_alike (hR : Order.Matched R) {queue : List OrderRef} {level : PriceLevel}
    {h h' : Heap Order} (b : OrderBook) (hsim : TradesAlike R t t' h h')
    (hqueue : level.queue = m :: queue) (hm : m ≠ t) (hm' : m ≠ t') :
    let r := matchFront s p t m level h b
    let r' := matchFront s p t' m level h' b
    r.toOutcome.Alike R t t' (h'.read t').clOrdId r'.toOutcome ∧ r'.level = r.level ∧
      r.heap = tradedHeap h t m ∧ r'.heap = tradedHeap h' t' m := by
  have hheap := matchFront_heap s p level h b hm
  have hheap' := matchFront_heap s p level h' b hm'
  have hlevel := matchFront_level (s := s) (p := p) (h := h) (b := b) hm hqueue
  have hlevel' := matchFront_level (s := s) (p := p) (h := h') (b := b) hm' hqueue
  have hreport := matchFront_report (s := s) (p := p) (h := h) (b := b) hm hqueue
  have hreport' := matchFront_report (s := s) (p := p) (h := h') (b := b) hm' hqueue
  simp only [hsim.tradedBook_eq hR hm hm', hsim.tradedLevel_eq hR hm hm',
    hsim.tradedFill_eq hR hm hm'] at hreport'
  have hupdate : ∀ (b : OrderBook) (level : PriceLevel) (idx : Nat) (c : ClOrdId),
      ((b.reportLevel s p level idx).2).withTakerClOrdId c = (b.reportLevel s p level idx).2 := by
    intro b level idx c
    unfold reportLevel
    split <;> rfl
  refine ⟨⟨?_, ?_, ?_, ?_⟩, ?_, hheap, hheap'⟩
  · rw [hreport.1, hreport'.1]
  · rw [hreport.2, hreport'.2, List.map_cons, List.map_cons, List.map_nil, hupdate]
    rfl
  · rw [hheap, hheap']
    exact hsim.traded hR hm hm'
  · rw [hheap']
    exact TradesAlike.clOrdId_traded h' t' m
  · rw [hlevel, hlevel', hsim.tradedLevel_eq hR hm hm']

/-- The inner loop trades alike. -/
theorem matchQueue_alike (hR : Order.Matched R) {queue : List OrderRef}
    (hqueue : ∀ r ∈ queue, r ≠ t ∧ r ≠ t') :
    ∀ {level : PriceLevel} {h h' : Heap Order} (b : OrderBook), TradesAlike R t t' h h' →
      level.queue = queue →
      let r := matchQueue s p t queue level h b
      let r' := matchQueue s p t' queue level h' b
      r.toOutcome.Alike R t t' (h'.read t').clOrdId r'.toOutcome ∧ r'.level = r.level := by
  induction queue with
  | nil =>
      intro level h h' b hsim _
      exact ⟨⟨rfl, rfl, hsim, rfl⟩, rfl⟩
  | cons m queue ih =>
      intro level h h' b hsim hlevel
      rcases List.forall_mem_cons.mp hqueue with ⟨⟨hm, hm'⟩, hrest⟩
      obtain ⟨hfront, hleft, hheap, hheap'⟩ :=
        matchFront_alike (s := s) (p := p) hR b hsim hlevel hm hm'
      simp only [matchQueue, hsim.taker.remainingQty_eq]
      by_cases hpos : (h.read t).remainingQty > 0
      · rw [if_pos hpos, if_pos hpos]
        have hfull : ((matchFront s p t' m level h' b).heap.read m).isFullyFilled =
            ((matchFront s p t m level h b).heap.read m).isFullyFilled :=
          (hR.alike (hfront.heap.others m hm hm')).isFullyFilled_eq
        rw [hfull]
        by_cases hdone : ((matchFront s p t m level h b).heap.read m).isFullyFilled
        · rw [if_pos hdone, if_pos hdone]
          have hempty : (matchFront s p t m level h b).level.queue = queue := by
            rw [matchFront_level hm hlevel, tradedLevel, if_pos]
            simpa [hheap, tradedHeap, hm] using hdone
          obtain ⟨hnext, hlevels⟩ := ih hrest (matchFront s p t m level h b).book hfront.heap hempty
          rw [hfront.clOrdId_eq] at hnext
          rw [hleft, hfront.book_eq]
          refine ⟨⟨hnext.book_eq, ?_, hnext.heap, hnext.clOrdId_eq⟩, hlevels⟩
          simp only [List.map_append, hfront.events_eq, hnext.events_eq]
        · rw [if_neg hdone, if_neg hdone]
          exact ⟨hfront, hleft⟩
      · rw [if_neg hpos, if_neg hpos]
        exact ⟨⟨rfl, rfl, hsim, rfl⟩, rfl⟩

/-- The loops trade alike on levels that hold neither of the orders in hand. -/
theorem matchLevels_alike (hR : Order.Matched R) {entries : List (Price × PriceLevel)}
    (hentries : ∀ e ∈ entries, ∀ r ∈ e.2.queue, r ≠ t ∧ r ≠ t') :
    ∀ {h h' : Heap Order} (b : OrderBook), TradesAlike R t t' h h' →
      (matchLevels s stop t entries h b).Alike R t t' (h'.read t').clOrdId
        (matchLevels s stop t' entries h' b) := by
  induction entries with
  | nil =>
      intro h h' b hsim
      exact ⟨rfl, rfl, hsim, rfl⟩
  | cons e entries ih =>
      intro h h' b hsim
      rcases e with ⟨p, level⟩
      rcases List.forall_mem_cons.mp hentries with ⟨hlevel, hrest⟩
      simp only [matchLevels, hsim.taker.remainingQty_eq]
      split
      · split
        · exact ⟨rfl, rfl, hsim, rfl⟩
        · obtain ⟨hqueue, hleft⟩ :=
            matchQueue_alike (s := s) (p := p) hR hlevel b hsim rfl
          have hnext := ih hrest ((matchQueue s p t level.queue level h b).book.eraseIfEmpty s p
            (matchQueue s p t level.queue level h b).level) hqueue.heap
          rw [hqueue.clOrdId_eq] at hnext
          rw [hleft, hqueue.book_eq]
          refine ⟨hnext.book_eq, ?_, hnext.heap, hnext.clOrdId_eq⟩
          simp only [List.map_append, hqueue.events_eq, hnext.events_eq]
      · exact ⟨rfl, rfl, hsim, rfl⟩

/-- Matching trades alike for orders that stop at the same prices. -/
theorem matchOrder_alike (hR : Order.Matched R) {h h' : Heap Order} {b : OrderBook}
    (hsim : TradesAlike R t t' h h')
    (hstop : takerStop (h'.read t') = takerStop (h.read t))
    (ht : ¬b.Resting t) (ht' : ¬b.Resting t') :
    (b.matchOrder h t).Alike R t t' (h'.read t').clOrdId (b.matchOrder h' t') := by
  have hside : takerSide (h'.read t') = takerSide (h.read t) := by
    unfold takerSide
    rw [hsim.taker.side_eq]
  rw [matchOrder_eq, matchOrder_eq, hside, hstop]
  apply matchLevels_alike hR _ b hsim
  intro e he r hr
  have hresting : b.Resting r := ⟨_, mem_queued_iff.mpr ⟨e, he, hr⟩⟩
  constructor
  · rintro rfl
    exact ht hresting
  · rintro rfl
    exact ht' hresting

/-! ## Terms -/

/-- The body of the inner loop leaves the terms of every order alone. -/
theorem matchFront_read_terms (s : BookSide) (p : Price) (t m : OrderRef) (level : PriceLevel)
    (h : Heap Order) (b : OrderBook) (r : OrderRef) :
    ((matchFront s p t m level h b).heap.read r).terms = (h.read r).terms := by
  have hfield : ∀ (h : Heap Order) (x : OrderRef) (f : Order → Order),
      (∀ o, (f o).terms = o.terms) → ((h.modify x f).read r).terms = (h.read r).terms :=
    fun h x f hf => Heap.read_modify_field Order.terms hf h x r
  simp only [matchFront, executeTrade]
  rw [hfield, hfield, hfield, hfield]
  · exact fun _ => rfl
  · exact fun _ => rfl
  · exact fun _ => rfl
  · exact fun _ => rfl

theorem matchQueue_read_terms (s : BookSide) (p : Price) (t r : OrderRef)
    (queue : List OrderRef) (level : PriceLevel) (h : Heap Order) (b : OrderBook) :
    ((matchQueue s p t queue level h b).heap.read r).terms = (h.read r).terms := by
  induction queue generalizing level h b with
  | nil => rfl
  | cons m queue ih =>
      simp only [matchQueue]
      split
      · split
        · exact (ih _ _ _).trans (matchFront_read_terms s p t m level h b r)
        · exact matchFront_read_terms s p t m level h b r
      · rfl

theorem matchLevels_read_terms (s : BookSide) (stop : Price → Bool) (t r : OrderRef)
    (entries : List (Price × PriceLevel)) (h : Heap Order) (b : OrderBook) :
    ((matchLevels s stop t entries h b).heap.read r).terms = (h.read r).terms := by
  induction entries generalizing h b with
  | nil => rfl
  | cons e entries ih =>
      simp only [matchLevels]
      split
      · split
        · rfl
        · exact (ih _ _).trans (matchQueue_read_terms s e.1 t r e.2.queue e.2 h b)
      · rfl

/-- Matching leaves the terms of every order alone, whatever the book. -/
theorem matchOrder_read_terms (b : OrderBook) (h : Heap Order) (t r : OrderRef) :
    ((b.matchOrder h t).heap.read r).terms = (h.read r).terms := by
  rw [matchOrder_eq]
  exact matchLevels_read_terms _ _ t r _ h b

/-! ## Reports -/

theorem matchFront_reports (s : BookSide) (p : Price) (t m : OrderRef) (level : PriceLevel)
    (h : Heap Order) (b : OrderBook) :
    ∀ e ∈ (matchFront s p t m level h b).events, e.isMatchReport = true := by
  have hlevel : ∀ (b : OrderBook) (level : PriceLevel) (idx : Nat),
      (b.reportLevel s p level idx).2.isMatchReport = true := by
    intro b level idx
    unfold reportLevel
    split <;> rfl
  simp only [matchFront, List.forall_mem_cons, hlevel]
  simp [EngineEvent.isMatchReport]

theorem matchQueue_reports (s : BookSide) (p : Price) (t : OrderRef) (queue : List OrderRef)
    (level : PriceLevel) (h : Heap Order) (b : OrderBook) :
    ∀ e ∈ (matchQueue s p t queue level h b).events, e.isMatchReport = true := by
  induction queue generalizing level h b with
  | nil => simp [matchQueue]
  | cons m queue ih =>
      have hfront := matchFront_reports s p t m level h b
      simp only [matchQueue]
      split
      · split
        · exact List.forall_mem_append.mpr ⟨hfront, ih _ _ _⟩
        · exact hfront
      · simp

theorem matchLevels_reports (s : BookSide) (stop : Price → Bool) (t : OrderRef)
    (entries : List (Price × PriceLevel)) (h : Heap Order) (b : OrderBook) :
    ∀ e ∈ (matchLevels s stop t entries h b).events, e.isMatchReport = true := by
  induction entries generalizing h b with
  | nil => simp [matchLevels]
  | cons e entries ih =>
      simp only [matchLevels]
      split
      · split
        · simp
        · exact List.forall_mem_append.mpr
            ⟨matchQueue_reports s e.1 t e.2.queue e.2 h b, ih _ _⟩
      · simp

/-- Matching reports fills and updates of the book, and nothing else. -/
theorem matchOrder_reports (b : OrderBook) (h : Heap Order) (t : OrderRef) :
    ∀ e ∈ (b.matchOrder h t).events, e.isMatchReport = true := by
  rw [matchOrder_eq]
  exact matchLevels_reports _ _ t _ h b

end OrderBook
end SimCme
