import SimCme.Engine.BookRuns
import SimCme.Engine.MatchSimulation

/-!
# Market orders as limit orders

A market order trades like a limit order at the worst price that is not to rest.  The
two take different branches: the loops differ in their break, the fill-or-kill check in
its limit, and what is left is cancelled for different reasons.

Main results:

- Theorem {lit}`OrderBook.canFillFOK_asLimit`: the fill-or-kill check answers both alike.
- Theorem {lit}`market_order_as_limit`: on every reachable book both leave the same book
  and report the same, but for the type, time in force and price of the acceptance.
-/

namespace SimCme

open Library

/-- The limit that no price is beyond. -/
def Side.worstPrice (s : Side) : Price :=
  if s = .buy then ⟨Int64.maxValue⟩ else ⟨Int64.minValue⟩

/-- The time in force of the limit order. -/
def TimeInForce.notToRest (tif : TimeInForce) : TimeInForce :=
  if tif = .fok then .fok else .ioc

/-- The limit order that stands for a market order. -/
def Order.asLimit (o : Order) : Order :=
  { o with
    orderType := .limit
    price := o.side.worstPrice
    timeInForce := o.timeInForce.notToRest }

/-- The same event for the limit order. -/
def EngineEvent.asLimit : EngineEvent → EngineEvent
  | .orderAccepted e =>
      .orderAccepted
        { e with
          orderType := .limit
          price := e.side.worstPrice
          timeInForce := e.timeInForce.notToRest }
  | e => e

namespace OrderBook

/-- No price is beyond the worst one. -/
theorem limitStop_worstPrice (s : Side) :
    limitStop s.bookSide.opposite s.worstPrice = fun _ => false := by
  funext p
  by_cases hs : s = .buy
  · subst hs
    exact decide_eq_false (not_lt.mpr (Int64.toInt_le p.mantissa))
  · simp only [Side.bookSide, Side.worstPrice, if_neg hs]
    exact decide_eq_false (not_lt.mpr (Int64.minValue_le_toInt p.mantissa))

/-- The fill-or-kill check answers a market order and its limit order alike. -/
theorem canFillFOK_asLimit (b : OrderBook) {o : Order} (hmarket : o.orderType = .market) :
    b.canFillFOK o.asLimit = b.canFillFOK o := by
  have hstop : limitStop o.asLimit.side.bookSide.opposite o.asLimit.price = fun _ => false :=
    limitStop_worstPrice o.side
  unfold canFillFOK
  simp only [hstop, hmarket]
  rfl

theorem takerStop_asLimit {o : Order} (hmarket : o.orderType = .market) :
    takerStop o.asLimit = takerStop o := by
  unfold takerStop
  rw [if_pos hmarket, if_neg (by simp [Order.asLimit])]
  exact limitStop_worstPrice o.side

/-- What is left of an order that is not to rest is cancelled. -/
theorem restOrder_eq_cancelRest {b : OrderBook} {h : Heap Order} {r : OrderRef}
    (hrest : (h.read r).orderType = .market ∨ (h.read r).timeInForce = .ioc ∨
      (h.read r).timeInForce = .fok) :
    b.restOrder h r =
      if (h.read r).isFullyFilled then { heap := h, book := b, events := [] }
      else b.cancelRest h r := by
  unfold restOrder
  simp only
  split
  · rfl
  · split
    · rfl
    · rename_i hnot
      have hmarket := hrest.resolve_right hnot
      simp [hmarket]

/-- The limit order of a market order is not to rest either. -/
theorem notToRest_cases (tif : TimeInForce) : tif.notToRest = .ioc ∨ tif.notToRest = .fok := by
  unfold TimeInForce.notToRest
  split
  · exact Or.inr rfl
  · exact Or.inl rfl

theorem notToRest_eq_fok_iff (tif : TimeInForce) : tif.notToRest = .fok ↔ tif = .fok := by
  unfold TimeInForce.notToRest
  split
  · rename_i hfok
    simp [hfok]
  · rename_i hfok
    simp [hfok]

/-- The heaps of a market order and of its limit order, before matching. -/
theorem tradesAlike_asLimit (h : Heap Order) (o : Order) :
    TradesAlike (fun o o' => o' = o) h.next h.next (h.alloc o) (h.alloc o.asLimit) where
  taker := by
    rw [h.read_alloc_next, h.read_alloc_next]
    exact ⟨rfl, rfl, rfl, rfl, rfl⟩
  others r hr _ := by
    rw [h.read_alloc_of_ne _ hr, h.read_alloc_of_ne _ hr]

/-- Matching gives the limit order the trades of the market order. -/
theorem matchOrder_asLimit {b : OrderBook} {h : Heap Order} {o : Order}
    (hmarket : o.orderType = .market) (hfree : ¬b.Resting h.next) :
    let m := b.matchOrder (h.alloc o) h.next
    let m' := b.matchOrder (h.alloc o.asLimit) h.next
    m'.book = m.book ∧ m'.events = m.events ∧
      TradesAlike (fun o o' => o' = o) h.next h.next m.heap m'.heap := by
  have hsim := matchOrder_alike Order.matched_eq (tradesAlike_asLimit h o)
    (by rw [h.read_alloc_next, h.read_alloc_next, takerStop_asLimit hmarket]) hfree hfree
  -- Compared with itself, the run names the client id it has.
  have hsame : TradesAlike (fun o o' => o' = o) h.next h.next (h.alloc o) (h.alloc o) :=
    ⟨.refl _, fun _ _ _ => rfl⟩
  have hself := matchOrder_alike Order.matched_eq hsame rfl hfree hfree
  have hclOrdId : ((h.alloc o.asLimit).read h.next).clOrdId =
      ((h.alloc o).read h.next).clOrdId := by
    rw [h.read_alloc_next, h.read_alloc_next]
    rfl
  refine ⟨hsim.book_eq, ?_, hsim.heap⟩
  rw [hsim.events_eq, hclOrdId, ← hself.events_eq]

/-- Cancelling what is left of either order reports the same. -/
theorem cancelledEvent_alike {o o' : Order} (halike : o.Alike o')
    (hclOrdId : o'.clOrdId = o.clOrdId) (hsecurity : o'.securityId = o.securityId) :
    cancelledEvent { o' with status := .canceled } =
      cancelledEvent { o with status := .canceled } := by
  simp only [cancelledEvent, halike.orderId_eq, halike.sessionUuid_eq, halike.filledQty_eq,
    hclOrdId, hsecurity]

/-- What is left of either order is cancelled alike. -/
theorem restOrder_alike {b : OrderBook} {h h' : Heap Order} {t : OrderRef}
    (hsim : TradesAlike (fun o o' => o' = o) t t h h')
    (hmarket : (h.read t).orderType = .market)
    (hlimit : (h'.read t).timeInForce = .ioc ∨ (h'.read t).timeInForce = .fok)
    (hclOrdId : (h'.read t).clOrdId = (h.read t).clOrdId)
    (hsecurity : (h'.read t).securityId = (h.read t).securityId) :
    (b.restOrder h' t).book = (b.restOrder h t).book ∧
      (b.restOrder h' t).events = (b.restOrder h t).events.map EngineEvent.asLimit ∧
      ∀ x, x ≠ t → (b.restOrder h' t).heap.read x = (b.restOrder h t).heap.read x := by
  rw [restOrder_eq_cancelRest (Or.inl hmarket), restOrder_eq_cancelRest (Or.inr hlimit),
    hsim.taker.isFullyFilled_eq]
  split
  · exact ⟨rfl, rfl, fun x hx => hsim.others x hx hx⟩
  · refine ⟨rfl, ?_, ?_⟩
    · simp only [cancelRest, Heap.read_modify_self,
        cancelledEvent_alike hsim.taker hclOrdId hsecurity]
      rfl
    · intro x hx
      rw [cancelRest_read_of_ne _ _ hx, cancelRest_read_of_ne _ _ hx]
      exact hsim.others x hx hx

/-- No report of matching is an acceptance. -/
theorem map_asLimit_of_reports {es : List EngineEvent}
    (hreports : ∀ e ∈ es, e.isMatchReport = true) : es.map EngineEvent.asLimit = es := by
  conv_rhs => rw [← List.map_id es]
  apply List.map_congr_left
  intro e he
  cases e with
  | orderAccepted e => simpa [EngineEvent.isMatchReport] using hreports _ he
  | _ => rfl

/-- Adding a market order and adding its limit order. -/
theorem addOrder_asLimit {b : OrderBook} {h : Heap Order} {o : Order}
    (hmarket : o.orderType = .market) (hfree : ¬b.Resting h.next) :
    let r := b.addOrder (h.alloc o) h.next
    let r' := b.addOrder (h.alloc o.asLimit) h.next
    r'.book = r.book ∧ r'.events = r.events.map EngineEvent.asLimit ∧
      ∀ x, x ≠ h.next → r'.heap.read x = r.heap.read x := by
  have hfok : (o.asLimit.timeInForce = .fok ∧ b.canFillFOK o.asLimit = false) ↔
      (o.timeInForce = .fok ∧ b.canFillFOK o = false) := by
    rw [canFillFOK_asLimit b hmarket]
    exact and_congr_left fun _ => notToRest_eq_fok_iff o.timeInForce
  have hclOrdId : o.asLimit.clOrdId = o.clOrdId := rfl
  have hsession : o.asLimit.sessionUuid = o.sessionUuid := rfl
  simp only [addOrder, h.read_alloc_next, hfok, hclOrdId, hsession]
  split
  · refine ⟨rfl, rfl, ?_⟩
    intro x hx
    rw [h.read_alloc_of_ne _ hx, h.read_alloc_of_ne _ hx]
  · rcases matchOrder_asLimit hmarket hfree with ⟨hbook, hevents, hsim⟩
    have hterms := b.matchOrder_read_terms (h.alloc o) h.next h.next
    have hterms' := b.matchOrder_read_terms (h.alloc o.asLimit) h.next h.next
    rw [h.read_alloc_next] at hterms hterms'
    have hrest := restOrder_alike (b := (b.matchOrder (h.alloc o) h.next).book) hsim
      ((Order.field_of_terms Order.orderType hterms fun _ => rfl).trans hmarket)
      (by
        rw [Order.field_of_terms Order.timeInForce hterms' fun _ => rfl]
        exact notToRest_cases o.timeInForce)
      (by
        rw [Order.field_of_terms Order.clOrdId hterms' fun _ => rfl,
          Order.field_of_terms Order.clOrdId hterms fun _ => rfl, hclOrdId])
      (by
        rw [Order.field_of_terms Order.securityId hterms' fun _ => rfl,
          Order.field_of_terms Order.securityId hterms fun _ => rfl]
        rfl)
    have haccepted : (acceptedEvent o).asLimit = acceptedEvent o.asLimit := rfl
    rw [hbook, hevents]
    refine ⟨hrest.1, ?_, hrest.2.2⟩
    rw [hrest.2.1, List.map_append, List.map_cons, haccepted,
      map_asLimit_of_reports (b.matchOrder_reports (h.alloc o) h.next)]

end OrderBook

/-- On every reachable book, a market order and the limit order at the worst price that
is not to rest leave the same book and the same orders in it, and report the same, but
for the type, time in force and price of the acceptance. -/
theorem market_order_as_limit (securityId : SecurityId) (ops : List BookOp)
    (hadmits : BookState.machine.Admits (fun s op => op.Fresh s) (.empty securityId) ops)
    (o : Order) (hmarket : o.orderType = .market) :
    let s := (BookState.machine.run (.empty securityId) ops).1
    let r := s.outcome (.add o)
    let r' := s.outcome (.add o.asLimit)
    r'.book = r.book ∧ r'.events = r.events.map EngineEvent.asLimit ∧
      ∀ x, x ≠ s.heap.next → r'.heap.read x = r.heap.read x := by
  have hinv := BookInv.of_run securityId hadmits
  have hfree : ¬(BookState.machine.run (.empty securityId) ops).1.book.Resting
      (BookState.machine.run (.empty securityId) ops).1.heap.next :=
    fun hr => lt_irrefl _ (hinv.allocated _ hr)
  exact OrderBook.addOrder_asLimit hmarket hfree

/-- A market buy order takes two asks and part of a third. -/
theorem market_order_as_limit_of_swept_asks :
    let ops : List BookOp :=
      [.add { orderId := 1, side := .sell, price := ⟨100⟩, quantity := 5 },
        .add { orderId := 2, side := .sell, price := ⟨100⟩, quantity := 3 },
        .add { orderId := 3, side := .sell, price := ⟨102⟩, quantity := 4 }]
    let o : Order := { orderId := 4, side := .buy, orderType := .market, quantity := 10 }
    let s := (BookState.machine.run (.empty 7) ops).1
    let r := s.outcome (.add o)
    let r' := s.outcome (.add o.asLimit)
    r'.book = r.book ∧ r'.events = r.events.map EngineEvent.asLimit ∧
      ∀ x, x ≠ s.heap.next → r'.heap.read x = r.heap.read x :=
  market_order_as_limit 7 _ (by decide) _ rfl

end SimCme
