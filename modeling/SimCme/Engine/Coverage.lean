import SimCme.Engine.PriceTime

/-!
# Orders that trade in full

An order in hand is covered when the orders it crosses hold at least what it
still wants.  A trade takes the same quantity from both, so a covered order stays
covered until nothing of it is left; it is never the order that stops matching
with quantity to rest.

Main results:

- Theorem {lit}`OrderBook.Fill.crossingQty_eq`: what a trade takes from the
  crossing quantity.
- Theorem {lit}`Covered.remaining_nonpos`: a covered order that finished matching
  is done.
- Theorem {lit}`restingOrders_law`: what holds of every order that comes to rest
  holds of every resting order.
-/

namespace SimCme

open Library

namespace OrderBook

/-- What a list of resting orders holds within the limit of an order. -/
def offeredQty (h : Heap Order) (taker : Order) (offers : List OrderRef) : Int :=
  ((offers.filter (crosses h taker)).map fun r => (h.read r).remainingQty).sum

/-- The quantity resting on the other half within the limit of an order. -/
def crossingQty (b : OrderBook) (h : Heap Order) (taker : Order) : Int :=
  offeredQty h taker (b.queued (takerSide taker))

variable {h h' : Heap Order} {b b' : OrderBook} {o : Order} {r t : OrderRef}

theorem offeredQty_congr {offers : List OrderRef}
    (hread : ∀ r ∈ offers, h'.read r = h.read r) :
    offeredQty h' o offers = offeredQty h o offers := by
  unfold offeredQty
  have hfilter : offers.filter (crosses h' o) = offers.filter (crosses h o) := by
    apply List.filter_congr
    intro r hr
    unfold crosses
    rw [hread r hr]
  rw [hfilter]
  congr 1
  apply List.map_congr_left
  intro r hr
  rw [hread r (List.mem_of_mem_filter hr)]

theorem offeredQty_cons {offers : List OrderRef} (hcrosses : crosses h o r = true) :
    offeredQty h o (r :: offers) = (h.read r).remainingQty + offeredQty h o offers := by
  unfold offeredQty
  rw [List.filter_cons_of_pos hcrosses, List.map_cons, List.sum_cons]

/-- The crossing quantity depends on the queues of one half and their orders. -/
theorem crossingQty_congr (hqueued : b'.queued (takerSide o) = b.queued (takerSide o))
    (hread : ∀ r ∈ b.queued (takerSide o), h'.read r = h.read r) :
    b'.crossingQty h' o = b.crossingQty h o := by
  unfold crossingQty
  rw [hqueued]
  exact offeredQty_congr hread

/-- Nothing crosses once the half is beyond the limit. -/
theorem crossingQty_of_uncrossed (hinv : BookInv h b)
    (huncrossed : ∀ e ∈ (b.levels (takerSide o)).entries, takerStop o e.1 = true) :
    b.crossingQty h o = 0 := by
  have hnone : (b.queued (takerSide o)).filter (crosses h o) = [] := by
    rw [List.filter_eq_nil_iff]
    intro r hr
    rcases mem_queued_iff.mp hr with ⟨e, he, hqueue⟩
    have hprice := (hinv.level_inv _ e he).order_price r hqueue
    simp [crosses, hprice, huncrossed e he]
  unfold crossingQty offeredQty
  rw [hnone]
  rfl

/-- A new order object changes no crossing quantity. -/
theorem crossingQty_alloc (hinv : BookInv h b) (o' : Order) :
    b.crossingQty (h.alloc o') o = b.crossingQty h o := by
  apply crossingQty_congr rfl
  intro r hr
  exact h.read_alloc_of_ne o' (hinv.allocated r ⟨_, hr⟩).ne

/-- Taking an order out of its own half and rewriting it changes nothing an order
of its side crosses. -/
theorem crossingQty_replace (hinv : BookInv h b) (hr : b.Resting r) {f : Order → Order}
    (hside : o.side = (h.read r).side) :
    (b.removeFromBook h r).1.crossingQty (h.modify r f) o = b.crossingQty h o := by
  rcases removeFromBook_spec hinv hr with ⟨e, level, he⟩
  have hopposite : takerSide o = e.side.opposite := by
    unfold takerSide
    rw [he.side_eq, hside]
  apply crossingQty_congr
  · unfold queued
    rw [hopposite, he.applies.opposite]
  · intro x hx
    rw [h.read_modify_of_ne]
    rintro rfl
    rw [hopposite, he.side_eq] at hx
    exact hinv.not_mem_opposite (hinv.queued_of_resting hr) hx

/-- A trade takes its quantity from what the taker crosses. -/
theorem Fill.crossingQty_eq (f : Fill (takerSide (h.read t)) (takerStop (h.read t)) t h b)
    (hinv : BookInv h b) (hflight : InFlight h b t) :
    f.book.crossingQty f.heap (f.heap.read t) = b.crossingQty h (h.read t) - f.qty := by
  have hterms : f.book.crossingQty f.heap (f.heap.read t) =
      f.book.crossingQty f.heap (h.read t) :=
    Order.field_of_terms (f.book.crossingQty f.heap) (f.read_terms t) fun _ => rfl
  rcases f.queued_eq with ⟨hbefore, hafter⟩
  have hne := f.maker_ne_taker hinv hflight
  have hprice := (f.level_inv hinv).order_price f.maker (by simp [f.queue_eq])
  have hcrosses : crosses h (h.read t) f.maker = true := by
    simp [crosses, hprice, f.not_stop]
  have hcrosses' : crosses f.heap (h.read t) f.maker = true := by
    have hsame := Order.field_of_terms Order.price (f.read_terms f.maker) fun _ => rfl
    simp [crosses, hsame, hprice, f.not_stop]
  have hleft : (f.heap.read f.maker).remainingQty =
      (h.read f.maker).remainingQty - f.qty := by
    rw [f.read_maker hne, Order.remainingQty_fill]
  have hrest := offeredQty_congr (o := h.read t) (f.read_behind hinv hflight)
  rw [hterms]
  unfold crossingQty
  rw [hbefore, hafter, offeredQty_cons hcrosses]
  by_cases hfull : f.completes
  · have hqty := f.qty_eq_of_completes hfull
    rw [if_pos hfull, hrest]
    omega
  · rw [if_neg hfull, f.queue_eq, List.cons_append, offeredQty_cons hcrosses', hrest, hleft]
    omega

end OrderBook

/-- The orders an order in hand crosses hold at least what it wants. -/
def Covered (h : Heap Order) (b : OrderBook) (r : OrderRef) : Prop :=
  (h.read r).remainingQty ≤ b.crossingQty h (h.read r)

namespace Covered

variable {h : Heap Order} {b : OrderBook} {r : OrderRef}

/-- A trade keeps an order covered. -/
theorem fill (hcovered : Covered h b r)
    (f : OrderBook.Fill (OrderBook.takerSide (h.read r)) (OrderBook.takerStop (h.read r)) r h b)
    (hinv : BookInv h b) (hflight : InFlight h b r) : Covered f.heap f.book r := by
  unfold Covered at hcovered ⊢
  rw [f.crossingQty_eq hinv hflight, f.remainingQty_taker]
  omega

/-- A covered order that has nothing left to trade against is done. -/
theorem remaining_nonpos (hcovered : Covered h b r) (hinv : BookInv h b)
    (huncrossed : ∀ e ∈ (b.levels (OrderBook.takerSide (h.read r))).entries,
      OrderBook.takerStop (h.read r) e.1 = true) : (h.read r).remainingQty ≤ 0 := by
  rw [← OrderBook.crossingQty_of_uncrossed hinv huncrossed]
  exact hcovered

end Covered

/-! ## Orders that come to rest -/

/-- The order a call matches has a property, or does not come to rest: it is of no
kind that rests, or it trades in full. -/
def BookOp.RestsOnly (Q : Order → Prop) (s : BookState) (op : BookOp) : Prop :=
  ∀ o, op.taker s = some o →
    Q o ∨ ¬o.Restable ∨ o.remainingQty ≤ s.book.crossingQty s.heap o

/-- The orders in the book have a property, and so has the order in hand unless it
will not come to rest. -/
structure RestingOrders (Q : Order → Prop) (hand : Option OrderRef) (_ : List EngineEvent)
    (h : Heap Order) (b : OrderBook) : Prop where
  resting : ∀ r, b.Resting r → Q (h.read r)
  inHand : ∀ r, hand = some r → Q (h.read r) ∨ ¬(h.read r).Restable ∨ Covered h b r

/-- A property of the terms of an order holds of every resting order as long as the
calls bring to rest only orders that have it. -/
theorem restingOrders_law {Q : Order → Prop}
    (hterms : ∀ o o' : Order, o'.terms = o.terms → Q o → Q o') :
    BookLaw (fun s op => op.RestsOnly Q s) (RestingOrders Q) where
  refused _ _ hP := ⟨hP.resting, hP.inHand⟩
  rejected := by
    intro es h b o e hinv _ _ hP
    refine ⟨?_, by simp⟩
    intro r hr
    rw [h.read_alloc_of_ne o (hinv.allocated r hr).ne]
    exact hP.resting r hr
  accepted := by
    intro es h b o hinv _ hguard hP
    constructor
    · intro r hr
      rw [h.read_alloc_of_ne o (hinv.allocated r hr).ne]
      exact hP.resting r hr
    · intro r hr
      cases hr
      unfold Covered
      rw [h.read_alloc_next, OrderBook.crossingQty_alloc hinv]
      by_cases hrestable : o.Restable
      · exact hguard o (by simp [BookOp.taker, hrestable.2.2])
      · exact Or.inr (Or.inl hrestable)
  withdrawn := by
    intro es h b r hinv hr _ hP
    refine ⟨?_, by simp⟩
    intro x hx
    have hx' := (OrderBook.resting_removeFromBook hinv hr x).mp hx
    rw [OrderBook.cancelRest_read_of_ne _ h hx'.2]
    exact hP.resting x hx'.1
  replaced := by
    intro es h b r newPrice newQty newClOrdId hinv hr hguard hP
    constructor
    · intro x hx
      have hx' := (OrderBook.resting_removeFromBook hinv hr x).mp hx
      rw [h.read_modify_of_ne _ hx'.2]
      exact hP.resting x hx'.1
    · intro x hx
      cases hx
      have hside : (OrderBook.modifiedOrder (h.read r) newPrice newQty newClOrdId).side =
          (h.read r).side := rfl
      unfold Covered
      rw [h.read_modify_self, OrderBook.crossingQty_replace hinv hr hside]
      apply hguard
      simp [BookOp.taker, hinv.indexed_of_resting hr]
  traded := by
    intro es h b t hinv hflight f hP
    constructor
    · intro x hx
      exact hterms _ _ (f.read_terms x) (hP.resting x ((f.resting_iff hinv x).mp hx).1)
    · intro x hx
      cases hx
      have hrestable := Order.field_of_terms Order.Restable (f.read_terms t) fun _ => rfl
      rw [hrestable]
      rcases hP.inHand t rfl with hQ | hnot | hcovered
      · exact Or.inl (hterms _ _ (f.read_terms t) hQ)
      · exact Or.inr (Or.inl hnot)
      · exact Or.inr (Or.inr (hcovered.fill f hinv hflight))
  entered := by
    intro es h b r hinv _ hrestable hpos huncrossed hP
    refine ⟨?_, by simp⟩
    intro x hx
    rcases (OrderBook.resting_insertResting hinv x).mp hx with rfl | hx
    · rcases hP.inHand x rfl with hQ | hnot | hcovered
      · exact hQ
      · exact (hnot hrestable).elim
      · have hle := hcovered.remaining_nonpos hinv huncrossed
        omega
    · exact hP.resting x hx
  cancelled := by
    intro es h b r hinv hflight _ hP
    refine ⟨?_, by simp⟩
    intro x hx
    have hne : x ≠ r := by
      rintro rfl
      exact hinv.not_resting_of_inFlight hflight hx
    rw [b.cancelRest_read_of_ne h hne]
    exact hP.resting x hx
  dropped _ _ _ hP := ⟨hP.resting, by simp⟩

end SimCme
