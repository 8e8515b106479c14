import Mathlib.Algebra.BigOperators.Intervals
import Mathlib.Algebra.Order.BigOperators.Group.Finset
import SimCme.Engine.FillSides

/-!
# Exposure

What a session has bought is in the filled quantities of its orders, and what it may still
buy without another request is in the orders of its that rest.  Its exposure on a half of
the books counts both.  Trades turn open quantity into position and cancellations release
it, so the exposure grows only by what a request adds.

Main results:

- Theorem {lit}`filledPosition_engineLaw`: the position of a session is the sum of the
  filled quantities of its orders.
- Theorem {lit}`exposure_law`: a move of a book raises the exposure by what its operation
  adds at most.
- Theorem {lit}`FullMatchingEngine.exposure_outcome_le`: so does a request to the engine.
-/

namespace SimCme

open Library

/-! ## Positions in the orders -/

/-- The direction in which trades of a half move a position. -/
def BookSide.sign : BookSide → Int
  | .bid => 1
  | .ask => -1

/-- What a quantity of an order counts in the position of a session. -/
def Order.signedQty (o : Order) (uuid : SessionUuid) (qty : Int) : Int :=
  if o.sessionUuid = uuid then o.side.bookSide.sign * qty else 0

/-- The position that the filled quantities of the orders make up. -/
def filledPosition (h : Heap Order) (uuid : SessionUuid) : Int :=
  ∑ r ∈ Finset.range h.next, (h.read r).signedQty uuid (h.read r).filledQty

theorem Order.signedQty_add (o : Order) (uuid : SessionUuid) (qty qty' : Int) :
    o.signedQty uuid (qty + qty') = o.signedQty uuid qty + o.signedQty uuid qty' := by
  unfold signedQty
  split
  · exact mul_add _ _ _
  · rfl

/-- The ledger entry of a fill, from its two parties. -/
theorem OrderFilled.entry_eq_party (f : OrderFilled) (half : BookSide) (uuid : SessionUuid) :
    f.transfer.entry uuid =
      (if f.party half.opposite = uuid then half.opposite.sign * f.tradeQty else 0) +
        if f.party half = uuid then half.sign * f.tradeQty else 0 := by
  have hentry : f.transfer.entry uuid = (if f.party .bid = uuid then f.tradeQty else 0) -
      if f.party .ask = uuid then f.tradeQty else 0 := rfl
  rw [hentry]
  cases half with
  | bid =>
      change _ = (if f.party .ask = uuid then -1 * f.tradeQty else 0) +
        if f.party .bid = uuid then 1 * f.tradeQty else 0
      split_ifs <;> omega
  | ask =>
      change _ = (if f.party .bid = uuid then 1 * f.tradeQty else 0) +
        if f.party .ask = uuid then -1 * f.tradeQty else 0
      split_ifs <;> omega

/-- The ledger entry of a fill, from its two orders. -/
theorem OrderFilled.entry_eq_signedQty {f : OrderFilled} {h : Heap Order}
    {maker taker : OrderRef} (hf : f.Between h maker taker) (uuid : SessionUuid) :
    f.transfer.entry uuid = (h.read maker).signedQty uuid f.tradeQty +
      (h.read taker).signedQty uuid f.tradeQty := by
  have hparty := party_of_between hf
  rw [← hf.makerSession_eq, ← hf.takerSession_eq, hf.opposite] at hparty
  unfold Order.signedQty
  rw [← hparty.1, ← hparty.2, hf.opposite]
  exact f.entry_eq_party _ uuid

/-- Orders that keep their filled quantities keep the positions. -/
theorem filledPosition_congr {h h' : Heap Order} {uuid : SessionUuid}
    (hnext : h'.next = h.next)
    (hread : ∀ r, (h'.read r).signedQty uuid (h'.read r).filledQty =
      (h.read r).signedQty uuid (h.read r).filledQty) :
    filledPosition h' uuid = filledPosition h uuid := by
  unfold filledPosition
  rw [hnext]
  exact Finset.sum_congr rfl fun r _ => hread r

/-- A fresh order has no position. -/
theorem filledPosition_alloc {h : Heap Order} {o : Order} (hfresh : FreshOrder h o)
    (uuid : SessionUuid) : filledPosition (h.alloc o) uuid = filledPosition h uuid := by
  have hzero : o.signedQty uuid o.filledQty = 0 := by
    simp [Order.signedQty, hfresh.1]
  have hnext : (h.alloc o).next = h.next + 1 := rfl
  unfold filledPosition
  rw [hnext, Finset.sum_range_succ, h.read_alloc_next, hzero, add_zero]
  apply Finset.sum_congr rfl
  intro r hr
  rw [h.read_alloc_of_ne o (Finset.mem_range.mp hr).ne]

/-- A trade moves the positions by its ledger entry. -/
theorem filledPosition_traded {h : Heap Order} {b : OrderBook} {t : OrderRef}
    (hinv : BookInv h b) (hflight : InFlight h b t)
    (f : OrderBook.Fill (OrderBook.takerSide (h.read t)) (OrderBook.takerStop (h.read t))
      t h b) (uuid : SessionUuid) :
    filledPosition f.heap uuid =
      filledPosition h uuid + positionIn f.events uuid := by
  have hbetween := f.between hinv hflight
  have hentry : positionIn f.events uuid = (h.read f.maker).signedQty uuid f.qty +
      (h.read t).signedQty uuid f.qty := by
    rw [OrderBook.Fill.events, positionIn_cons, positionIn_orderFilled]
    exact (add_zero _).trans (OrderFilled.entry_eq_signedQty hbetween uuid)
  have hne := f.maker_ne_taker hinv hflight
  have hread : ∀ r, (f.heap.read r).signedQty uuid (f.heap.read r).filledQty =
      (h.read r).signedQty uuid (h.read r).filledQty +
        ((if r = f.maker then (h.read f.maker).signedQty uuid f.qty else 0) +
          if r = t then (h.read t).signedQty uuid f.qty else 0) := by
    intro r
    by_cases hrt : r = t
    · subst hrt
      rw [f.read_taker, if_neg hne.symm, if_pos rfl, zero_add]
      exact Order.signedQty_add _ _ _ _
    · rw [if_neg hrt, add_zero]
      by_cases hrm : r = f.maker
      · subst hrm
        rw [f.read_maker hne, if_pos rfl]
        exact Order.signedQty_add _ _ _ _
      · rw [f.read_of_ne hrt hrm, if_neg hrm, add_zero]
  have hmaker := Finset.mem_range.mpr hbetween.maker_lt
  have htaker := Finset.mem_range.mpr hbetween.taker_lt
  have hnext : f.heap.next = h.next := rfl
  unfold filledPosition
  rw [hnext, Finset.sum_congr rfl fun r _ => hread r, Finset.sum_add_distrib,
    Finset.sum_add_distrib, Finset.sum_ite_eq', Finset.sum_ite_eq', if_pos hmaker,
    if_pos htaker, hentry]

/-- A move without trades. -/
theorem filledPosition_move {es new : List EngineEvent} {h h' : Heap Order}
    {uuid : SessionUuid} (hP : filledPosition h uuid = positionIn es uuid)
    (hsame : filledPosition h' uuid = filledPosition h uuid)
    (hnew : ∀ f, .orderFilled f ∉ new) :
    filledPosition h' uuid = positionIn (es ++ new) uuid := by
  rw [positionIn_append, positionIn_of_quiet hnew, add_zero, hsame, hP]

/-- Every move keeps the positions of the history in the orders. -/
theorem filledPosition_law (uuid : SessionUuid) :
    BookLaw (fun _ _ => True) fun _ es h _ => filledPosition h uuid = positionIn es uuid where
  refused _ _ hP := filledPosition_move hP rfl (by simp)
  rejected _ _ hfresh _ hP := filledPosition_move hP (filledPosition_alloc hfresh uuid) (by simp)
  accepted _ hfresh _ hP := filledPosition_move hP (filledPosition_alloc hfresh uuid)
    (by simp [OrderBook.acceptedEvent])
  withdrawn := by
    intro es h b r hinv hr _ hP
    rcases OrderBook.removeFromBook_spec hinv hr with ⟨e, level, he⟩
    rw [he.events_eq]
    refine filledPosition_move hP (filledPosition_congr rfl ?_)
      (by simp [OrderBook.cancelRest, OrderBook.cancelledEvent])
    exact (b.removeFromBook h r).1.cancelRest_read
      (fun o => o.signedQty uuid o.filledQty) (fun _ => rfl) h r
  replaced := by
    intro es h b r newPrice newQty newClOrdId hinv hr _ hP
    rcases OrderBook.removeFromBook_spec hinv hr with ⟨e, level, he⟩
    rw [he.events_eq]
    refine filledPosition_move hP (filledPosition_congr rfl ?_)
      (by simp [OrderBook.modifiedEvent])
    exact OrderBook.modified_read (fun o => o.signedQty uuid o.filledQty) (fun _ => rfl) h r
  traded hinv hflight f hP := by
    rw [positionIn_append, filledPosition_traded hinv hflight f, hP]
  entered := by
    intro es h b r _ _ _ _ _ hP
    rcases OrderBook.insertResting_spec b h r with ⟨e, he⟩
    rw [he.events_eq]
    exact filledPosition_move hP rfl (by simp)
  cancelled := by
    intro es h b r _ _ _ hP
    refine filledPosition_move hP (filledPosition_congr rfl ?_)
      (by simp [OrderBook.cancelRest, OrderBook.cancelledEvent])
    exact b.cancelRest_read (fun o => o.signedQty uuid o.filledQty) (fun _ => rfl) h r
  dropped _ _ _ hP := hP

/-- The position of a session is the sum of the filled quantities of its orders. -/
theorem filledPosition_engineLaw (uuid : SessionUuid) :
    EngineLaw (fun _ _ _ => True)
      fun _ _ es h _ => filledPosition h uuid = positionIn es uuid where
  law _ := filledPosition_law uuid
  turnedAway _ _ hP := filledPosition_move hP rfl (by simp)
  frame := by
    intro s s' es new h h' b b' _ _ _ _ _ _ _ _ _ hactive
    exact hactive

/-! ## Exposure -/

/-- The quantity an order has reached, or may reach if it is live. -/
def Order.reach (o : Order) (live : Prop) [Decidable live] : Int :=
  if live then max o.filledQty o.quantity else o.filledQty

/-- What an order counts in the exposure of a session on a half: what it may reach there,
and against that what it was filled on the other half. -/
def Order.exposure (o : Order) (half : BookSide) (uuid : SessionUuid) (live : Prop)
    [Decidable live] : Int :=
  if o.sessionUuid = uuid then
    if o.side.bookSide = half then o.reach live else -o.filledQty
  else 0

open Classical in
/-- The exposure of a session on a half, from the orders that are live. -/
noncomputable def exposure (half : BookSide) (uuid : SessionUuid) (live : OrderRef → Prop)
    (h : Heap Order) : Int :=
  ∑ r ∈ Finset.range h.next, (h.read r).exposure half uuid (live r)

namespace Order

variable {o o' : Order} {half : BookSide} {uuid : SessionUuid} {live live' : Prop}
  [Decidable live] [Decidable live']

theorem reach_le_max (o : Order) (live : Prop) [Decidable live] :
    o.reach live ≤ max o.filledQty o.quantity := by
  unfold reach
  split
  · exact le_rfl
  · exact le_max_left _ _

theorem reach_mono (hlive : live' → live) : o.reach live' ≤ o.reach live := by
  by_cases h : live
  · have hreach : o.reach live = max o.filledQty o.quantity := if_pos h
    rw [hreach]
    exact reach_le_max _ _
  · rw [reach, reach, if_neg h, if_neg (mt hlive h)]

/-- An order that is filled no less and reaches no further. -/
theorem exposure_le (hsession : o'.sessionUuid = o.sessionUuid) (hside : o'.side = o.side)
    (hfilled : o.filledQty ≤ o'.filledQty) (hreach : o'.reach live' ≤ o.reach live) :
    o'.exposure half uuid live' ≤ o.exposure half uuid live := by
  unfold exposure
  rw [hsession, hside]
  split
  · split
    · exact hreach
    · exact neg_le_neg hfilled
  · exact le_rfl

/-- An order that trades no more than remains of it reaches no further. -/
theorem exposure_fill_le {qty : Int} (hnonneg : 0 ≤ qty) (hqty : qty ≤ o.remainingQty)
    (hlive : live) :
    (o.fill qty).exposure half uuid live' ≤ o.exposure half uuid live := by
  have hfilled : (o.fill qty).filledQty = o.filledQty + qty := rfl
  have hquantity : (o.fill qty).quantity = o.quantity := rfl
  have hremaining : o.remainingQty = o.quantity - o.filledQty := rfl
  refine exposure_le rfl rfl (by omega) (le_trans (reach_le_max _ _) ?_)
  rw [reach, if_pos hlive]
  omega

end Order

open Classical in
/-- A move that fills orders and makes them reach no further. -/
theorem exposure_mono {half : BookSide} {uuid : SessionUuid} {live live' : OrderRef → Prop}
    {h h' : Heap Order} (hnext : h'.next = h.next)
    (hread : ∀ r, (h'.read r).exposure half uuid (live' r) ≤
      (h.read r).exposure half uuid (live r)) :
    exposure half uuid live' h' ≤ exposure half uuid live h := by
  unfold exposure
  rw [hnext]
  exact Finset.sum_le_sum fun r _ => hread r

/-! ## What an operation adds -/

namespace BookOp

/-- The order whose open quantity an operation raises, and by how much: a new order by its
quantity, and a resting order that is modified by the change of its quantity. -/
def raise (s : BookState) : BookOp → Option (Order × Int)
  | .add o => some (o, o.quantity)
  | .cancel _ => none
  | .modify orderId _ newQty _ =>
      (s.book.ordersById orderId).map fun r =>
        (s.heap.read r, newQty - (s.heap.read r).quantity)

end BookOp

/-- What raising the open quantity of an order adds to the exposure of a session on a
half. -/
def addedQty (half : BookSide) (uuid : SessionUuid) : Option (Order × Int) → Int
  | none => 0
  | some (o, qty) => if o.sessionUuid = uuid ∧ o.side.bookSide = half then max 0 qty else 0

theorem addedQty_nonneg (half : BookSide) (uuid : SessionUuid) (raised : Option (Order × Int)) :
    0 ≤ addedQty half uuid raised := by
  unfold addedQty
  split
  · exact le_rfl
  · split
    · exact le_max_left _ _
    · exact le_rfl

section

variable {half : BookSide} {uuid : SessionUuid} {live live' others : OrderRef → Prop}
  {h : Heap Order} {b : OrderBook} {o : Order} {r : OrderRef}

/-- A fresh order counts its quantity at most. -/
theorem exposure_alloc_le (hfresh : FreshOrder h o) (hlive : ∀ r < h.next, live' r ↔ live r) :
    exposure half uuid live' (h.alloc o) ≤
      exposure half uuid live h + addedQty half uuid ((BookOp.add o).raise ⟨h, b⟩) := by
  classical
  have hnext : (h.alloc o).next = h.next + 1 := rfl
  have hold : ∀ r ∈ Finset.range h.next,
      ((h.alloc o).read r).exposure half uuid (live' r) =
        (h.read r).exposure half uuid (live r) := by
    intro r hr
    have hlt := Finset.mem_range.mp hr
    rw [h.read_alloc_of_ne o hlt.ne]
    simp only [hlive r hlt]
  have hnew : o.exposure half uuid (live' h.next) ≤
      addedQty half uuid ((BookOp.add o).raise ⟨h, b⟩) := by
    have hreach := o.reach_le_max (live' h.next)
    have hfilled := hfresh.1
    simp only [Order.exposure, addedQty, BookOp.raise]
    by_cases hsession : o.sessionUuid = uuid
    · by_cases hside : o.side.bookSide = half
      · simp only [hsession, hside, and_self, if_true]
        omega
      · simp [hsession, hside, hfilled]
    · simp [hsession]
  unfold exposure
  rw [hnext, Finset.sum_range_succ, h.read_alloc_next, Finset.sum_congr rfl hold]
  exact Int.add_le_add_left hnew _

/-- A modified order counts the change of its quantity at most. -/
theorem exposure_modify_le {newPrice : Price} {newQty : Int} {newClOrdId : ClOrdId}
    (hr : r < h.next) (hlive : ∀ x, live' x ↔ live x) :
    exposure half uuid live'
        (h.modify r fun o => OrderBook.modifiedOrder o newPrice newQty newClOrdId) ≤
      exposure half uuid live h +
        addedQty half uuid (some (h.read r, newQty - (h.read r).quantity)) := by
  classical
  have hmodified : (OrderBook.modifiedOrder (h.read r) newPrice newQty newClOrdId).exposure
      half uuid (live r) ≤ (h.read r).exposure half uuid (live r) +
        addedQty half uuid (some (h.read r, newQty - (h.read r).quantity)) := by
    simp only [Order.exposure, Order.reach, OrderBook.modifiedOrder, addedQty]
    by_cases hsession : (h.read r).sessionUuid = uuid
    · by_cases hside : (h.read r).side.bookSide = half
      · simp only [hsession, hside, and_self, if_true]
        split <;> omega
      · simp [hsession, hside]
    · simp [hsession]
  have hread : ∀ x ∈ Finset.range h.next,
      ((h.modify r fun o => OrderBook.modifiedOrder o newPrice newQty newClOrdId).read
        x).exposure half uuid (live' x) ≤ (h.read x).exposure half uuid (live x) +
          if x = r then addedQty half uuid (some (h.read r, newQty - (h.read r).quantity))
          else 0 := by
    intro x _
    simp only [hlive x]
    by_cases hx : x = r
    · subst hx
      rw [h.read_modify_self, if_pos rfl]
      exact hmodified
    · rw [h.read_modify_of_ne _ hx, if_neg hx, add_zero]
  have hnext : (h.modify r fun o =>
      OrderBook.modifiedOrder o newPrice newQty newClOrdId).next = h.next := rfl
  unfold exposure
  rw [hnext]
  refine (Finset.sum_le_sum hread).trans ?_
  rw [Finset.sum_add_distrib, Finset.sum_ite_eq', if_pos (Finset.mem_range.mpr hr)]

/-- The orders that count as live while an operation works on one of the books: those it
holds, and those of the other books. -/
def Live (others : OrderRef → Prop) (hand : Option OrderRef) (b : OrderBook) (r : OrderRef) :
    Prop :=
  b.Resting r ∨ hand = some r ∨ others r

theorem live_of_none {hand : Option OrderRef} (hr : Live others none b r) :
    Live others hand b r := by
  rcases hr with hr | hr | hr
  · exact Or.inl hr
  · contradiction
  · exact Or.inr (Or.inr hr)

/-- A trade raises no exposure. -/
theorem exposure_traded_le {t : OrderRef} (hinv : BookInv h b) (hflight : InFlight h b t)
    (f : OrderBook.Fill (OrderBook.takerSide (h.read t)) (OrderBook.takerStop (h.read t))
      t h b) :
    exposure half uuid (Live others (some t) f.book) f.heap ≤
      exposure half uuid (Live others (some t) b) h := by
  classical
  have hne := f.maker_ne_taker hinv hflight
  have hpos := f.qty_pos hinv
  have hnext : f.heap.next = h.next := rfl
  apply exposure_mono hnext
  intro x
  by_cases hxt : x = t
  · subst hxt
    rw [f.read_taker]
    exact Order.exposure_fill_le hpos.le f.qty_le_taker (Or.inr (Or.inl rfl))
  · by_cases hxm : x = f.maker
    · subst hxm
      rw [f.read_maker hne]
      exact Order.exposure_fill_le hpos.le f.qty_le_maker (Or.inl f.maker_resting)
    · rw [f.read_of_ne hxt hxm]
      have hlive : Live others (some t) f.book x ↔ Live others (some t) b x := by
        unfold Live
        rw [f.resting_iff hinv]
        tauto
      simp only [hlive]
      exact le_rfl

/-- Orders that are no longer live raise no exposure. -/
theorem exposure_release (hlive : ∀ x, live' x → live x) :
    exposure half uuid live' h ≤ exposure half uuid live h := by
  classical
  have hnext : h.next = h.next := rfl
  apply exposure_mono hnext
  intro x
  exact Order.exposure_le rfl rfl le_rfl (Order.reach_mono (hlive x))

/-- Cancelling what is left of an order leaves the exposure to the live orders. -/
theorem exposure_cancelRest (b : OrderBook) (h : Heap Order) (r : OrderRef) :
    exposure half uuid live (b.cancelRest h r).heap = exposure half uuid live h := by
  classical
  have hnext : (b.cancelRest h r).heap.next = h.next := rfl
  unfold exposure
  rw [hnext]
  apply Finset.sum_congr rfl
  intro x _
  exact b.cancelRest_read (fun o => o.exposure half uuid (live x)) (fun _ => rfl) h r x

/-- A move of a book raises the exposure by what its operation adds at most. -/
theorem exposure_law (half : BookSide) (uuid : SessionUuid) (others : OrderRef → Prop)
    (bound : Int) :
    BookLaw
      (fun s op => exposure half uuid (Live others none s.book) s.heap +
        addedQty half uuid (op.raise s) ≤ bound)
      fun hand _ h b => exposure half uuid (Live others hand b) h ≤ bound where
  refused _ _ hP := hP
  rejected := by
    intro es h b o e hinv hfresh hguard _
    exact (exposure_alloc_le hfresh fun _ _ => Iff.rfl).trans hguard
  accepted := by
    intro es h b o hinv hfresh hguard _
    refine (exposure_alloc_le hfresh fun r hr => ?_).trans hguard
    have hne : h.next ≠ r := hr.ne'
    simp [Live, hne]
  withdrawn := by
    intro es h b r hinv hr _ hP
    rw [exposure_cancelRest]
    refine (exposure_release fun x hx => ?_).trans hP
    rcases hx with hx | hx
    · exact Or.inl ((OrderBook.resting_removeFromBook hinv hr x).mp hx).1
    · exact Or.inr hx
  replaced := by
    intro es h b r newPrice newQty newClOrdId hinv hr hguard _
    have hindexed : b.ordersById (h.read r).orderId = some r :=
      (hinv.indexed _ r).mpr ⟨hr, rfl⟩
    simp only [BookOp.raise, hindexed, Option.map_some] at hguard
    refine (exposure_modify_le (hinv.allocated r hr) fun x => ?_).trans hguard
    unfold Live
    rw [OrderBook.resting_removeFromBook hinv hr]
    by_cases hx : x = r
    · subst hx
      simp [hr]
    · simp [hx, Ne.symm hx]
  traded hinv hflight f hP := (exposure_traded_le hinv hflight f).trans hP
  entered := by
    intro es h b r hinv _ _ _ _ hP
    have hlive : Live others none (b.insertResting h r).1 = Live others (some r) b := by
      ext x
      unfold Live
      rw [OrderBook.resting_insertResting hinv]
      simp only [Option.some_inj, reduceCtorEq, false_or]
      tauto
    rw [hlive]
    exact hP
  cancelled := by
    intro es h b r _ _ _ hP
    rw [exposure_cancelRest]
    exact (exposure_release fun x => live_of_none).trans hP
  dropped _ _ _ hP := (exposure_release fun x => live_of_none).trans hP

end

/-! ## The engine -/

namespace FullMatchingEngine

/-- The order whose open quantity a request raises on the book it reaches, and by how
much. -/
def raise (e : FullMatchingEngine) (op : EngineOp) : Option (Order × Int) :=
  (e.route op).bind fun (s, bop) => bop.raise (e.bookState s)

/-- The quantity that remains of the orders of a session that rest on a half, over all
books. -/
def openQty (e : FullMatchingEngine) (half : BookSide) (uuid : SessionUuid) : Int :=
  ∑ r ∈ Finset.range e.heap.next,
    let o := e.heap.read r
    if (e.bookAt o.securityId).ordersById o.orderId = some r ∧ o.sessionUuid = uuid ∧
      o.side.bookSide = half then o.remainingQty else 0

/-- An order that rests in one of the books. -/
def Rests (e : FullMatchingEngine) (r : OrderRef) : Prop :=
  ∃ s, (e.bookAt s).Resting r

variable {e : FullMatchingEngine} {op : EngineOp} {half : BookSide} {uuid : SessionUuid}

/-- A resting order is found under its own security and id. -/
theorem rests_iff (hinv : EngineInv e) (r : OrderRef) :
    e.Rests r ↔ (e.bookAt (e.heap.read r).securityId).ordersById (e.heap.read r).orderId =
      some r := by
  rw [(hinv.book_inv _).indexed]
  constructor
  · rintro ⟨s, hr⟩
    rw [hinv.resting_security s r hr]
    exact ⟨hr, rfl⟩
  · rintro ⟨hr, -⟩
    exact ⟨_, hr⟩

/-- The exposure is the position towards the half and the open quantity there. -/
theorem exposure_eq (hinv : EngineInv e) :
    exposure half uuid e.Rests e.heap =
      half.sign * filledPosition e.heap uuid + e.openQty half uuid := by
  classical
  unfold exposure filledPosition openQty
  rw [Finset.mul_sum, ← Finset.sum_add_distrib]
  apply Finset.sum_congr rfl
  intro r _
  simp only [← rests_iff hinv]
  by_cases hsession : (e.heap.read r).sessionUuid = uuid
  · have hsigned : (e.heap.read r).signedQty uuid (e.heap.read r).filledQty =
        (e.heap.read r).side.bookSide.sign * (e.heap.read r).filledQty := if_pos hsession
    rw [hsigned, ← mul_assoc]
    by_cases hside : (e.heap.read r).side.bookSide = half
    · have hsign : half.sign * half.sign = 1 := by cases half <;> rfl
      simp only [Order.exposure, hsession, hside, hsign, and_true, if_true, one_mul]
      by_cases hlive : e.Rests r
      · rcases hlive with ⟨s, hr⟩
        have hremaining := (hinv.book_inv s).remaining_pos_of_resting hr
        have hlive : e.Rests r := ⟨s, hr⟩
        simp only [Order.reach, Order.remainingQty, hlive, if_true] at hremaining ⊢
        omega
      · simp [Order.reach, hlive]
    · have hsign : half.sign * (e.heap.read r).side.bookSide.sign = -1 := by
        rcases BookSide.eq_or_eq_opposite half (e.heap.read r).side.bookSide with heq | heq
        · exact (hside heq).elim
        · rw [heq]
          cases half <;> rfl
      simp [Order.exposure, hsession, hside, hsign]
  · simp [Order.exposure, Order.signedQty, hsession]

/-- An order that rests in another book than the given one. -/
def RestsElsewhere (e : FullMatchingEngine) (s : SecurityId) (r : OrderRef) : Prop :=
  ∃ s', s' ≠ s ∧ (e.bookAt s').Resting r

/-- An order rests in a given book or elsewhere. -/
theorem live_restsElsewhere (e : FullMatchingEngine) (s : SecurityId) :
    Live (e.RestsElsewhere s) none (e.bookAt s) = e.Rests := by
  ext r
  constructor
  · rintro (hr | hr | ⟨s', -, hr⟩)
    · exact ⟨s, hr⟩
    · contradiction
    · exact ⟨s', hr⟩
  · rintro ⟨s', hr⟩
    by_cases hs : s' = s
    · subst hs
      exact Or.inl hr
    · exact Or.inr (Or.inr ⟨s', hs, hr⟩)

/-- A request raises the exposure of a session by what it adds at most. -/
theorem exposure_outcome_le (hinv : EngineInv e) (hfresh : op.Fresh) (half : BookSide)
    (uuid : SessionUuid) :
    exposure half uuid (e.outcome op).engine.Rests (e.outcome op).engine.heap ≤
      exposure half uuid e.Rests e.heap + addedQty half uuid (e.raise op) := by
  cases hroute : e.route op with
  | none =>
      rcases step_of_not_routed hroute with ⟨hheap, hbooks, -⟩
      have hrests : (e.outcome op).engine.Rests = e.Rests := by
        ext r
        simp only [Rests, hbooks]
      rw [hrests, hheap, raise, hroute]
      exact (add_zero _).ge
  | some routed =>
      rcases routed with ⟨s, bop⟩
      rcases outcome_of_route hroute with ⟨-, hheap, -⟩
      rcases step_of_route hroute with ⟨hbook, hothers⟩
      have hraise : e.raise op = bop.raise (e.bookState s) := by
        rw [raise, hroute]
        rfl
      -- The orders of the other books stay where they are.
      have helsewhere : (e.outcome op).engine.RestsElsewhere s = e.RestsElsewhere s := by
        ext r
        apply exists_congr
        intro s'
        apply and_congr_right
        intro hs
        rw [hothers s' hs]
      have hbefore : Live (e.RestsElsewhere s) none (e.bookState s).book = e.Rests :=
        e.live_restsElsewhere s
      have hstart : exposure half uuid (Live (e.RestsElsewhere s) none (e.bookState s).book)
          (e.bookState s).heap ≤ exposure half uuid e.Rests e.heap +
            addedQty half uuid (bop.raise (e.bookState s)) := by
        rw [hbefore]
        exact le_add_of_nonneg_right (addedQty_nonneg half uuid _)
      have hstep := (@BookLaw.step _ _ [] (exposure_law half uuid (e.RestsElsewhere s) _) _ _
        (hinv.book_inv s) (hinv.fresh_of_route hroute hfresh) (by rw [hbefore]; rfl)
        hstart).1
      rw [← live_restsElsewhere _ s, helsewhere, hbook, hheap, hraise]
      exact hstep

end FullMatchingEngine

end SimCme
