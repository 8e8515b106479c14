import Mathlib.Algebra.Order.BigOperators.Group.List
import SimCme.Engine.BookSafety
import SimCme.Engine.Coverage
import SimCme.Engine.MatchSimulation

/-!
# Fill or kill

The check for a fill-or-kill order walks the totals of the levels; matching walks their
orders.  On a book whose totals are right both see the same quantity, so that an order
that passes the check trades in full and one that fails it changes nothing.

Main results:

- Theorem {lit}`Representation.canFillFOK_iff`: the check compares the quantity of the
  order with what it crosses.
- Theorem {lit}`OrderBook.Fills.covered`: a covered order trades what it wants.
- Theorem {lit}`fok_all_or_nothing`: a fill-or-kill order trades in full or not at all.
-/

namespace SimCme

open Library

namespace OrderBook

/-! ## The check -/

/-- The walk over the levels compares the need with the totals it may reach. -/
theorem canFillLevels_iff {stop : Price → Bool} {entries : List (Price × PriceLevel)}
    (hmono : entries.Pairwise fun e e' => stop e.1 = true → stop e'.1 = true)
    (htotal : ∀ e ∈ entries, 0 ≤ e.2.totalQuantity) (needed : Int) :
    canFillLevels stop needed entries = true ↔
      needed ≤ ((entries.filter fun e => !stop e.1).map fun e => e.2.totalQuantity).sum := by
  induction entries generalizing needed with
  | nil => simp [canFillLevels]
  | cons e entries ih =>
      rcases List.pairwise_cons.mp hmono with ⟨hfirst, hrest⟩
      rcases List.forall_mem_cons.mp htotal with ⟨he, hentries⟩
      by_cases hstop : stop e.1 = true
      · -- No level behind this one is within the limit.
        have hnone : entries.filter (fun e => !stop e.1) = [] := by
          rw [List.filter_eq_nil_iff]
          intro e' he'
          simp [hfirst e' he' hstop]
        simp [canFillLevels, hstop, hnone]
      · have hnonneg : 0 ≤
            ((entries.filter fun e => !stop e.1).map fun e => e.2.totalQuantity).sum := by
          apply List.sum_nonneg
          intro x hx
          rcases List.mem_map.mp hx with ⟨e', he', rfl⟩
          exact hentries e' (List.mem_of_mem_filter he')
        simp only [canFillLevels, if_neg hstop]
        rw [List.filter_cons_of_pos (by simp [hstop]), List.map_cons, List.sum_cons]
        split
        · simp only [true_iff]
          omega
        · rw [ih hrest hentries]
          omega

/-- What levels within a limit hold is what their orders hold. -/
theorem offeredQty_flatMap {h : Heap Order} {o : Order} {entries : List (Price × PriceLevel)}
    (hprice : ∀ e ∈ entries, ∀ r ∈ e.2.queue, (h.read r).price = e.1)
    (htotal : ∀ e ∈ entries,
      e.2.totalQuantity = (e.2.queue.map fun r => (h.read r).remainingQty).sum) :
    offeredQty h o (entries.flatMap fun e => e.2.queue) =
      ((entries.filter fun e => !takerStop o e.1).map fun e => e.2.totalQuantity).sum := by
  induction entries with
  | nil => rfl
  | cons e entries ih =>
      rcases List.forall_mem_cons.mp hprice with ⟨hfirst, hprice⟩
      rcases List.forall_mem_cons.mp htotal with ⟨hsum, htotal⟩
      have hcrosses : ∀ r ∈ e.2.queue, crosses h o r = !takerStop o e.1 := by
        intro r hr
        unfold crosses
        rw [hfirst r hr]
      have hrest := ih hprice htotal
      unfold offeredQty at hrest ⊢
      rw [List.flatMap_cons, List.filter_append, List.map_append, List.sum_append, hrest,
        List.filter_congr hcrosses]
      by_cases hstop : takerStop o e.1 = true
      · simp [hstop]
      · simp [hstop, hsum]

end OrderBook

namespace Representation

variable {h : Heap Order} {b : OrderBook} {t : OrderRef}

theorem total_nonneg (hrep : Representation h b) (s : BookSide) :
    ∀ e ∈ (b.levels s).entries, 0 ≤ e.2.totalQuantity := by
  intro e he
  rw [hrep.level_total s e he]
  apply List.sum_nonneg
  intro x hx
  rcases List.mem_map.mp hx with ⟨r, hr, rfl⟩
  exact (hrep.remaining_pos s r (OrderBook.mem_queued_iff.mpr ⟨e, he, hr⟩)).le

/-- The check compares the quantity of a limit or market order with what it crosses. -/
theorem canFillFOK_iff (hrep : Representation h b) {o : Order}
    (htype : o.orderType = .limit ∨ o.orderType = .market) :
    b.canFillFOK o = true ↔ o.quantity ≤ b.crossingQty h o := by
  have hstop : (fun price => o.orderType = .limit &&
      OrderBook.limitStop o.side.bookSide.opposite o.price price) = OrderBook.takerStop o := by
    unfold OrderBook.takerStop
    rcases htype with htype | htype
    · simp only [htype]
      rfl
    · simp only [htype]
      rfl
  have hmono : (b.levels (OrderBook.takerSide o)).entries.Pairwise
      fun e e' => OrderBook.takerStop o e.1 = true → OrderBook.takerStop o e'.1 = true :=
    (b.levels (OrderBook.takerSide o)).sorted.imp
      fun hbetter => OrderBook.takerStop_mono _ _ hbetter
  have hcheck := OrderBook.canFillLevels_iff hmono (hrep.total_nonneg _) o.quantity
  rw [← OrderBook.offeredQty_flatMap (fun e he => (hrep.level_price _ e he).2)
    (hrep.level_total _), ← hstop] at hcheck
  exact hcheck

end Representation

/-! ## Trades of a covered order -/

/-- A covered order stays covered over a chain of trades, which take from it what they
report. -/
theorem OrderBook.Fills.covered {s : BookSide} {stop : Price → Bool} {t : OrderRef}
    {h h' : Heap Order} {b b' : OrderBook} {events : List EngineEvent}
    (hfills : OrderBook.Fills s stop t h b events h' b') (hinv : BookInv h b)
    (hflight : InFlight h b t) (hside : s = OrderBook.takerSide (h.read t))
    (hstop : stop = OrderBook.takerStop (h.read t)) (hcovered : Covered h b t)
    (hnonneg : 0 ≤ (h.read t).remainingQty) :
    Covered h' b' t ∧ 0 ≤ (h'.read t).remainingQty ∧
      (fillsOf OrderFilled.tradeQty events).sum + (h'.read t).remainingQty =
        (h.read t).remainingQty := by
  induction hfills with
  | done h b => exact ⟨hcovered, hnonneg, by simp [fillsOf]⟩
  | @trade h h' b b' events f _ ih =>
      subst hside hstop
      have hterms := f.read_terms t
      have hleft := f.remainingQty_taker
      have hqty := f.qty_le_taker
      obtain ⟨hcovered', hnonneg', hsum⟩ := ih (f.bookInv hinv hflight) (f.inFlight hflight)
        (Order.field_of_terms OrderBook.takerSide hterms fun _ => rfl).symm
        (Order.field_of_terms OrderBook.takerStop hterms fun _ => rfl).symm
        (hcovered.fill f hinv hflight) (by omega)
      have hfirst : fillsOf OrderFilled.tradeQty f.events = [f.qty] := rfl
      refine ⟨hcovered', hnonneg', ?_⟩
      rw [fillsOf_append, hfirst, List.sum_append, List.sum_singleton]
      omega

/-- Matching takes from a covered order all it wants. -/
theorem OrderBook.matchOrder_covered {h : Heap Order} {b : OrderBook} {t : OrderRef}
    (hinv : BookInv h b) (hflight : InFlight h b t) (hcovered : Covered h b t)
    (hnonneg : 0 ≤ (h.read t).remainingQty) :
    ((b.matchOrder h t).heap.read t).remainingQty = 0 ∧
      (fillsOf OrderFilled.tradeQty (b.matchOrder h t).events).sum =
        (h.read t).remainingQty := by
  rcases matchOrder_fills hinv hflight with ⟨hfills, hend⟩
  obtain ⟨hcovered', hnonneg', hsum⟩ :=
    hfills.covered hinv hflight rfl rfl hcovered hnonneg
  have hterms := hfills.read_terms t
  have hdone : ((b.matchOrder h t).heap.read t).remainingQty ≤ 0 := by
    rcases hend with hdone | huncrossed
    · exact hdone
    · apply hcovered'.remaining_nonpos (hfills.bookInv hinv hflight).1
      rw [Order.field_of_terms takerSide hterms fun _ => rfl,
        Order.field_of_terms takerStop hterms fun _ => rfl]
      exact huncrossed
  exact ⟨by omega, by omega⟩

/-! ## Books with orders of any kind

The representation says nothing about the type and the time in force of the resting
orders, and matching does not read them: the trades are those on a book of plain limit
orders. -/

/-- The limit order for the day with the terms of an order. -/
def Order.asDayLimit (o : Order) : Order :=
  { o with orderType := .limit, timeInForce := .day }

theorem Order.matched_asDayLimit : Order.Matched fun o o' => o' = o.asDayLimit where
  alike := by
    rintro o _ rfl
    exact ⟨rfl, rfl, rfl, rfl, rfl⟩
  clOrdId_eq := by
    rintro o _ rfl
    rfl
  fill := by
    rintro o _ qty rfl
    rfl

/-- The heap in which every order but one is a day limit order. -/
def asDayLimits (h : Heap Order) (t : OrderRef) (next : Ref) : Heap Order where
  cells := fun r => if r = t then h.read t else (h.read r).asDayLimit
  next := next

section AsDayLimits

variable {h : Heap Order} {b : OrderBook} {t r : OrderRef} {next : Ref}

@[simp]
theorem read_asDayLimits_self : (asDayLimits h t next).read t = h.read t := by
  simp [asDayLimits, Heap.read]

theorem read_asDayLimits_of_ne (hne : r ≠ t) :
    (asDayLimits h t next).read r = (h.read r).asDayLimit := by
  simp [asDayLimits, Heap.read, hne]

/-- A property of orders that the type and the time in force do not change. -/
theorem asDayLimits_field {β : Type} (field : Order → β)
    (hfield : ∀ o : Order, field o.asDayLimit = field o) (r : OrderRef) :
    field ((asDayLimits h t next).read r) = field (h.read r) := by
  by_cases hr : r = t
  · rw [hr, read_asDayLimits_self]
  · rw [read_asDayLimits_of_ne hr, hfield]

theorem tradesAlike_asDayLimits (h : Heap Order) (t : OrderRef) (next : Ref) :
    OrderBook.TradesAlike (fun o o' => o' = o.asDayLimit) t t h (asDayLimits h t next) where
  taker := by
    rw [read_asDayLimits_self]
    exact .refl _
  others r hr _ := read_asDayLimits_of_ne hr

theorem crossingQty_asDayLimits (o : Order) :
    b.crossingQty (asDayLimits h t next) o = b.crossingQty h o := by
  have hremaining : (fun r => ((asDayLimits h t next).read r).remainingQty) =
      fun r => (h.read r).remainingQty :=
    funext (asDayLimits_field Order.remainingQty fun _ => rfl)
  have hcrosses : crosses (asDayLimits h t next) o = crosses h o :=
    funext (asDayLimits_field (fun x => !OrderBook.takerStop o x.price) fun _ => rfl)
  unfold OrderBook.crossingQty OrderBook.offeredQty
  rw [hcrosses, hremaining]

/-- The book of day limit orders has the invariant of the proofs. -/
theorem Representation.bookInv_asDayLimits (hrep : Representation h b) (hfree : ¬b.Resting t)
    (hnext : ∀ r, b.Resting r → r < next) : BookInv (asDayLimits h t next) b where
  level_inv s e he := by
    have hresting : ∀ r ∈ e.2.queue, b.Resting r :=
      fun r hr => ⟨s, OrderBook.mem_queued_iff.mpr ⟨e, he, hr⟩⟩
    have hremaining : (fun r => ((asDayLimits h t next).read r).remainingQty) =
        fun r => (h.read r).remainingQty :=
      funext (asDayLimits_field Order.remainingQty fun _ => rfl)
    have hside : ∀ r ∈ e.2.queue, (h.read r).side.bookSide = s := by
      intro r hr
      cases s with
      | bid => rw [hrep.bid_side e he r hr]; rfl
      | ask => rw [hrep.ask_side e he r hr]; rfl
    exact
      { price_eq := (hrep.level_price s e he).1
        order_price := fun r hr => by
          rw [asDayLimits_field Order.price fun _ => rfl]
          exact (hrep.level_price s e he).2 r hr
        order_side := fun r hr => by
          rw [asDayLimits_field Order.side fun _ => rfl]
          exact hside r hr
        order_restable := fun r hr => by
          have hne : r ≠ t := by
            rintro rfl
            exact hfree (hresting r hr)
          rw [read_asDayLimits_of_ne hne]
          exact ⟨rfl, by simp [Order.asDayLimit], by simp [Order.asDayLimit]⟩
        remaining_pos := fun r hr => by
          rw [asDayLimits_field Order.remainingQty fun _ => rfl]
          exact hrep.remaining_pos s r (OrderBook.mem_queued_iff.mpr ⟨e, he, hr⟩)
        total_eq := by
          rw [hremaining]
          exact hrep.level_total s e he
        count_eq := hrep.level_count s e he
        queue_ne_nil := by
          rw [ne_eq, ← PriceLevel.empty_iff, hrep.level_nonempty s e he]
          exact Bool.false_ne_true }
  queued_nodup s := by
    rcases List.nodup_append.mp hrep.queued_once with ⟨hbid, hask, -⟩
    cases s with
    | bid => exact hbid
    | ask => exact hask
  indexed id r := by
    rw [asDayLimits_field Order.orderId fun _ => rfl, OrderBook.resting_iff_mem]
    exact hrep.indexed id r
  allocated := hnext

/-- Finitely many orders rest. -/
theorem OrderBook.exists_resting_bound (b : OrderBook) (t : OrderRef) :
    ∃ next, t < next ∧ ∀ r, b.Resting r → r < next := by
  refine ⟨t + (b.queued .bid ++ b.queued .ask).sum + 1,
    Nat.lt_succ_of_le (Nat.le_add_right _ _), ?_⟩
  intro r hr
  have hle : r ≤ (b.queued .bid ++ b.queued .ask).sum :=
    List.le_sum_of_mem (OrderBook.resting_iff_mem.mp hr)
  exact Nat.lt_succ_of_le (hle.trans (Nat.le_add_left _ _))

end AsDayLimits

/-! ## The order -/

/-- What adding an order that trades in full does. -/
structure TradesInFull (h : Heap Order) (t : OrderRef) (r : OrderBook.Outcome) : Prop where
  events : ∃ es, r.events = OrderBook.acceptedEvent (h.read t) :: es ∧
    (∀ e ∈ es, e.isMatchReport = true) ∧
    (fillsOf OrderFilled.tradeQty es).sum = (h.read t).quantity
  remaining_eq : (r.heap.read t).remainingQty = 0
  not_resting : ¬r.book.Resting t
  unindexed : r.book.ordersById (h.read t).orderId = none

/-- A covered order that never traded trades in full. -/
theorem Representation.addOrder_tradesInFull {h : Heap Order} {b : OrderBook} {t : OrderRef}
    (hrep : Representation h b) (hfree : ¬b.Resting t)
    (hunindexed : b.ordersById (h.read t).orderId = none)
    (hfilled : (h.read t).filledQty = 0) (hpos : 0 < (h.read t).quantity)
    (hcovered : (h.read t).quantity ≤ b.crossingQty h (h.read t))
    (hcheck : ¬((h.read t).timeInForce = .fok ∧ b.canFillFOK (h.read t) = false)) :
    TradesInFull h t (b.addOrder h t) := by
  rcases b.exists_resting_bound t with ⟨next, ht, hnext⟩
  have hremaining : (h.read t).remainingQty = (h.read t).quantity := by
    unfold Order.remainingQty
    omega
  -- The run on the day limit orders, where the invariant of the proofs holds.
  have hinv := hrep.bookInv_asDayLimits hfree hnext
  have hflight : InFlight (asDayLimits h t next) b t :=
    ⟨ht, by rw [read_asDayLimits_self]; exact hunindexed⟩
  have hcovered' : Covered (asDayLimits h t next) b t := by
    unfold Covered
    rw [read_asDayLimits_self, crossingQty_asDayLimits, hremaining]
    exact hcovered
  obtain ⟨hzero, hsum⟩ := OrderBook.matchOrder_covered hinv hflight hcovered'
    (by rw [read_asDayLimits_self]; omega)
  rcases OrderBook.matchOrder_fills hinv hflight with ⟨hfills, -⟩
  rcases hfills.bookInv hinv hflight with ⟨hinv', hflight'⟩
  -- The run on the orders themselves makes the same trades.
  have halike := OrderBook.matchOrder_alike (b := b) Order.matched_asDayLimit
    (tradesAlike_asDayLimits h t next)
    (by rw [read_asDayLimits_self]) hfree hfree
  have hzero' : ((b.matchOrder h t).heap.read t).remainingQty = 0 :=
    halike.heap.taker.remainingQty_eq.symm.trans hzero
  have hunindexed' : (b.matchOrder h t).book.ordersById (h.read t).orderId = none := by
    have hid := Order.field_of_terms Order.orderId (hfills.read_terms t) fun _ => rfl
    rw [read_asDayLimits_self] at hid
    rw [← halike.book_eq, ← hid]
    exact hflight'.unindexed
  have hdone : ((b.matchOrder h t).heap.read t).isFullyFilled = true :=
    (Order.isFullyFilled_iff _).mpr hzero'.le
  have hadd : b.addOrder h t =
      { (b.matchOrder h t) with
        events := OrderBook.acceptedEvent (h.read t) :: (b.matchOrder h t).events } := by
    simp only [OrderBook.addOrder, if_neg hcheck, OrderBook.restOrder, hdone, if_true,
      List.append_nil]
  rw [hadd]
  refine ⟨⟨_, rfl, b.matchOrder_reports h t, ?_⟩, hzero', ?_, hunindexed'⟩
  · rw [halike.events_eq, fillsOf_withTakerClOrdId fun _ _ => rfl, read_asDayLimits_self,
      hremaining] at hsum
    exact hsum
  · intro hresting
    rw [← halike.book_eq] at hresting
    exact hinv'.not_resting_of_inFlight hflight' hresting

/-- On every book whose representation is right, a new fill-or-kill order of type limit
or market trades in full if the orders within its limit hold its quantity, and otherwise
is rejected with the book and every order as they were. -/
theorem fok_all_or_nothing (h : Heap Order) (b : OrderBook) (t : OrderRef)
    (hrep : Representation h b) (hfree : ¬b.Resting t)
    (hunindexed : b.ordersById (h.read t).orderId = none)
    (hfilled : (h.read t).filledQty = 0) (hfok : (h.read t).timeInForce = .fok)
    (htype : (h.read t).orderType = .limit ∨ (h.read t).orderType = .market)
    (hpos : 0 < (h.read t).quantity) :
    let r := b.addOrder h t
    if (h.read t).quantity ≤ b.crossingQty h (h.read t) then TradesInFull h t r
    else (∃ e, r.events = [.orderRejected e]) ∧ r.book = b ∧ r.heap = h := by
  have hcheck := hrep.canFillFOK_iff htype
  split
  · rename_i hcovered
    apply hrep.addOrder_tradesInFull hfree hunindexed hfilled hpos hcovered
    rw [hcheck.mpr hcovered]
    simp
  · rename_i hcovered
    have hfails : b.canFillFOK (h.read t) = false := by
      rw [← Bool.not_eq_true, hcheck]
      exact hcovered
    simp [OrderBook.addOrder, hfok, hfails]

/-- Two asks cover a market order for eight, and not a limit order for twelve below the
second of them. -/
theorem fok_all_or_nothing_of_two_asks :
    let ops : List BookOp :=
      [.add { orderId := 1, side := .sell, price := ⟨100⟩, quantity := 5 },
        .add { orderId := 2, side := .sell, price := ⟨102⟩, quantity := 9 }]
    let s := (BookState.machine.run (.empty 7) ops).1
    let o : Order :=
      { orderId := 3, side := .buy, orderType := .market, timeInForce := .fok, quantity := 8 }
    let o' : Order :=
      { orderId := 3, side := .buy, price := ⟨101⟩, timeInForce := .fok, quantity := 12 }
    TradesInFull (s.heap.alloc o) 2 (s.book.addOrder (s.heap.alloc o) 2) ∧
      let r := s.book.addOrder (s.heap.alloc o') 2
      (∃ e, r.events = [.orderRejected e]) ∧ r.book = s.book ∧ r.heap = s.heap.alloc o' := by
  intro ops s o o'
  have hinv : BookInv s.heap s.book := BookInv.of_run 7 (by decide)
  have hresting : ∀ r, s.book.Resting r → r = 0 ∨ r = 1 := by
    intro r hr
    have hmem : r ∈ [0, 1] := OrderBook.resting_iff_mem.mp hr
    simpa using hmem
  have hfree : ¬s.book.Resting 2 := fun hr => by
    rcases hresting 2 hr with h | h <;> cases h
  have hrep : ∀ x, Representation (s.heap.alloc x) s.book := by
    intro x
    apply (hinv.alloc x).representation
    intro r hr
    rw [Heap.read_alloc_of_ne _ _ (hinv.allocated r hr).ne]
    rcases hresting r hr with rfl | rfl <;> decide
  constructor
  · exact fok_all_or_nothing _ _ 2 (hrep o) hfree rfl rfl rfl (Or.inr rfl) (by decide)
  · exact fok_all_or_nothing _ _ 2 (hrep o') hfree rfl rfl rfl (Or.inl rfl) (by decide)

end SimCme
