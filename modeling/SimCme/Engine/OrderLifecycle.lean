import SimCme.Engine.Coverage
import SimCme.Engine.OrderFinality
import SimCme.Gateway.MessageValidator

/-!
# What becomes of an accepted order

An accepted order should rest, or end with an event that says so.  Two kinds of
request break this.  {lit}`addOrder` has no branch for a stop order that is not
filled at once, and {lit}`modifyOrder` none for an order whose new quantity is
filled already; either way the order is gone and no event reports it.  This file
proves that no other request loses an order.

Main results:

- Theorem {lit}`accounted_law`: every move keeps track of the accepted orders.
- Theorem {lit}`accepted_orders_accounted`: along every run without such requests
  an accepted order rests or has ended.
-/

namespace SimCme

open Library

/-- The book does not lose the order a call matches: a new order is of a type it
rests or cancels, or trades in full; a modified order keeps quantity. -/
def BookOp.Kept (s : BookState) : BookOp → Prop
  | .add o =>
      0 < o.quantity ∧ (o.orderType = .limit ∨ o.orderType = .market ∨
        o.quantity ≤ s.book.crossingQty s.heap o)
  | .cancel _ => True
  | .modify orderId _ newQty _ =>
      ∀ r, s.book.ordersById orderId = some r → (s.heap.read r).filledQty < newQty

/-- What the book rests or cancels when it finishes matching, or trades in full. -/
def Placeable (h : Heap Order) (b : OrderBook) (r : OrderRef) : Prop :=
  (h.read r).orderType = .limit ∨ (h.read r).orderType = .market ∨ Covered h b r

/-- The orders the history accepted exist, and those of one security are in its
book or in hand or have ended. -/
structure Accounted (s : SecurityId) (hand : Option OrderRef) (es : List EngineEvent)
    (h : Heap Order) (b : OrderBook) : Prop where
  known : ∀ x, .orderAccepted x ∈ es → ∃ r < h.next,
    (h.read r).orderId = x.orderId ∧ (h.read r).securityId = x.securityId
  accounted : ∀ x, .orderAccepted x ∈ es → x.securityId = s →
    (∃ r, (b.Resting r ∨ hand = some r) ∧ (h.read r).orderId = x.orderId) ∨
      ∃ y ∈ es, y.Terminal x.orderId
  spent : ∀ r, hand = some r → (h.read r).remainingQty ≤ 0 →
    ∃ y ∈ es, y.Terminal (h.read r).orderId
  placeable : ∀ r, hand = some r → Placeable h b r

namespace Accounted

variable {s : SecurityId} {hand hand' : Option OrderRef} {es new : List EngineEvent}
  {h h' : Heap Order} {b b' : OrderBook} {r : OrderRef}

/-- A move that accepts no order: every order the book or the hand held is still
held or has ended. -/
theorem advance (hP : Accounted s hand es h b) (hnext : h.next ≤ h'.next)
    (hidentity : ∀ r < h.next, (h'.read r).identity = (h.read r).identity)
    (hquiet : ∀ x, .orderAccepted x ∉ new)
    (hkept : ∀ r, b.Resting r ∨ hand = some r →
      ((b'.Resting r ∨ hand' = some r) ∧ (h'.read r).orderId = (h.read r).orderId) ∨
        ∃ y ∈ es ++ new, y.Terminal (h.read r).orderId)
    (hspent : ∀ r, hand' = some r → (h'.read r).remainingQty ≤ 0 →
      ∃ y ∈ es ++ new, y.Terminal (h'.read r).orderId)
    (hplaceable : ∀ r, hand' = some r → Placeable h' b' r) :
    Accounted s hand' (es ++ new) h' b' where
  known x hx := by
    have hold := (List.mem_append.mp hx).resolve_right (hquiet x)
    rcases hP.known x hold with ⟨r, hr, hid, hsecurity⟩
    refine ⟨r, lt_of_lt_of_le hr hnext, ?_, ?_⟩
    · have hfield := Order.field_of_identity Order.orderId (hidentity r hr) fun _ => rfl
      exact hfield.trans hid
    · have hfield := Order.field_of_identity Order.securityId (hidentity r hr) fun _ => rfl
      exact hfield.trans hsecurity
  accounted x hx hs := by
    have hold := (List.mem_append.mp hx).resolve_right (hquiet x)
    rcases hP.accounted x hold hs with ⟨r, hr, hid⟩ | ⟨y, hy, hterminal⟩
    · rcases hkept r hr with ⟨hr', hid'⟩ | hended
      · exact Or.inl ⟨r, hr', hid'.trans hid⟩
      · rw [hid] at hended
        exact Or.inr hended
    · exact Or.inr ⟨y, List.mem_append_left _ hy, hterminal⟩
  spent := hspent
  placeable := hplaceable

end Accounted

namespace OrderBook.Fill

variable {s : BookSide} {stop : Price → Bool} {t : OrderRef} {h : Heap Order} {b : OrderBook}

/-- A trade that completes its maker ends it. -/
theorem ends_maker (f : Fill s stop t h b) (hfull : f.completes = true) :
    ∃ y ∈ f.events, y.Terminal (h.read f.maker).orderId := by
  refine ⟨_, List.mem_cons_self, Or.inl ⟨rfl, ?_⟩⟩
  have hle := f.completes_iff.mp hfull
  have hleft : (h.read f.maker).remainingQty - tradeQty h t f.maker = 0 := by
    unfold tradeQty
    omega
  exact (Order.remainingQty_fill _ _).trans hleft

/-- A trade that leaves nothing of the taker ends it. -/
theorem ends_taker (f : Fill s stop t h b) (hnone : (f.heap.read t).remainingQty ≤ 0) :
    ∃ y ∈ f.events, y.Terminal (h.read t).orderId := by
  refine ⟨_, List.mem_cons_self, Or.inr ⟨rfl, ?_⟩⟩
  have hqty := f.qty_le_taker
  rw [f.remainingQty_taker] at hnone
  have hleft : (h.read t).remainingQty - tradeQty h t f.maker = 0 := by
    have heq : f.qty = tradeQty h t f.maker := rfl
    omega
  exact (Order.remainingQty_fill _ _).trans hleft

end OrderBook.Fill

/-- Cancelling the rest of an order ends it. -/
theorem OrderBook.cancelRest_ends (b : OrderBook) (h : Heap Order) (r : OrderRef) :
    ∃ y ∈ (b.cancelRest h r).events, y.Terminal (h.read r).orderId := by
  refine ⟨cancelledEvent ((b.cancelRest h r).heap.read r), List.mem_singleton.mpr rfl, ?_⟩
  exact b.cancelRest_read Order.orderId (fun _ => rfl) h r r

/-- An accepted order is the order in hand. -/
theorem Accounted.accepted {s : SecurityId} {es : List EngineEvent} {h : Heap Order}
    {b : OrderBook} {o : Order} (hinv : BookInv h b) (hfresh : FreshOrder h o)
    (hkept : (BookOp.add o).Kept ⟨h, b⟩) (hP : Accounted s none es h b) :
    Accounted s (some h.next) (es ++ [OrderBook.acceptedEvent o]) (h.alloc o) b := by
  have hread : ∀ r < h.next, (h.alloc o).read r = h.read r :=
    fun r hr => h.read_alloc_of_ne o hr.ne
  exact
    { known := fun x hx => by
        rcases List.mem_append.mp hx with hx | hx
        · rcases hP.known x hx with ⟨r, hr, hid, hsecurity⟩
          refine ⟨r, Nat.lt_succ_of_lt hr, ?_, ?_⟩
          · rw [hread r hr, hid]
          · rw [hread r hr, hsecurity]
        · cases List.mem_singleton.mp hx
          refine ⟨h.next, Nat.lt_succ_self _, ?_, ?_⟩
          · rw [h.read_alloc_next]
          · rw [h.read_alloc_next]
      accounted := fun x hx hs => by
        rcases List.mem_append.mp hx with hx | hx
        · rcases hP.accounted x hx hs with ⟨r, hr, hid⟩ | ⟨y, hy, hterminal⟩
          · rcases hr with hr | hr
            · exact Or.inl ⟨r, Or.inl hr, by rw [hread r (hinv.allocated r hr), hid]⟩
            · contradiction
          · exact Or.inr ⟨y, List.mem_append_left _ hy, hterminal⟩
        · cases List.mem_singleton.mp hx
          exact Or.inl ⟨h.next, Or.inr rfl, by rw [h.read_alloc_next]⟩
      spent := fun r hr hle => by
        cases hr
        have hpos := hkept.1
        have hfilled := hfresh.1
        rw [h.read_alloc_next] at hle
        unfold Order.remainingQty at hle
        omega
      placeable := fun r hr => by
        cases hr
        unfold Placeable Covered
        rw [h.read_alloc_next, OrderBook.crossingQty_alloc hinv]
        have hfilled := hfresh.1
        refine hkept.2.imp id (Or.imp id ?_)
        intro hle
        have hcovered : o.quantity ≤ b.crossingQty h o := hle
        unfold Order.remainingQty
        omega }

/-- A modified order is the order in hand, and still has something to fill. -/
theorem Accounted.replaced {s : SecurityId} {es : List EngineEvent} {h : Heap Order}
    {b : OrderBook} {r : OrderRef} {newPrice : Price} {newQty : Int} {newClOrdId : ClOrdId}
    (hinv : BookInv h b) (hr : b.Resting r)
    (hkept : (BookOp.modify (h.read r).orderId newPrice newQty newClOrdId).Kept ⟨h, b⟩)
    (hP : Accounted s none es h b) :
    Accounted s (some r)
      (es ++ ((b.removeFromBook h r).2 ++
        [OrderBook.modifiedEvent
          (OrderBook.modifiedOrder (h.read r) newPrice newQty newClOrdId) newPrice newQty]))
      (h.modify r fun o => OrderBook.modifiedOrder o newPrice newQty newClOrdId)
      (b.removeFromBook h r).1 := by
  rcases OrderBook.removeFromBook_spec hinv hr with ⟨e, level, he⟩
  have hidentity := OrderBook.modified_read (p := newPrice) (q := newQty)
    (c := newClOrdId) Order.identity (fun _ => rfl) h r
  have hid := OrderBook.modified_read (p := newPrice) (q := newQty) (c := newClOrdId)
    Order.orderId (fun _ => rfl) h r
  rw [he.events_eq]
  refine hP.advance le_rfl (fun x _ => hidentity x) ?_ ?_ ?_ ?_
  · simp [OrderBook.modifiedEvent]
  · intro x hx
    rcases hx with hx | hx
    · by_cases hxr : x = r
      · exact Or.inl ⟨Or.inr (by rw [hxr]), hid x⟩
      · exact Or.inl ⟨Or.inl ((OrderBook.resting_removeFromBook hinv hr x).mpr ⟨hx, hxr⟩),
          hid x⟩
    · contradiction
  · intro x hx hle
    cases hx
    have hlt := hkept r (hinv.indexed_of_resting hr)
    rw [h.read_modify_self] at hle
    simp only [Order.remainingQty, OrderBook.modifiedOrder] at hle hlt
    omega
  · intro x hx
    cases hx
    left
    rw [h.read_modify_self]
    exact (hinv.restable_of_resting hr).1

/-- A trade ends its maker or leaves it resting, and ends its taker or leaves it in
hand. -/
theorem Accounted.traded {s : SecurityId} {es : List EngineEvent} {h : Heap Order}
    {b : OrderBook} {t : OrderRef} (hinv : BookInv h b) (hflight : InFlight h b t)
    (f : OrderBook.Fill (OrderBook.takerSide (h.read t)) (OrderBook.takerStop (h.read t)) t h b)
    (hP : Accounted s (some t) es h b) :
    Accounted s (some t) (es ++ f.events) f.heap f.book := by
  refine hP.advance le_rfl (fun x _ => Order.identity_of_terms (f.read_terms x)) ?_ ?_ ?_ ?_
  · simp [OrderBook.Fill.events]
  · intro x hx
    rcases hx with hx | hx
    · by_cases hfull : f.completes = true ∧ x = f.maker
      · rcases hfull with ⟨hfull, rfl⟩
        rcases f.ends_maker hfull with ⟨y, hy, hterminal⟩
        exact Or.inr ⟨y, List.mem_append_right _ hy, hterminal⟩
      · exact Or.inl ⟨Or.inl ((f.resting_iff hinv x).mpr ⟨hx, hfull⟩), f.read_orderId x⟩
    · exact Or.inl ⟨Or.inr hx, f.read_orderId x⟩
  · intro x hx hle
    cases hx
    rcases f.ends_taker hle with ⟨y, hy, hterminal⟩
    rw [f.read_orderId]
    exact ⟨y, List.mem_append_right _ hy, hterminal⟩
  · intro x hx
    cases hx
    have htype := Order.field_of_terms Order.orderType (f.read_terms t) fun _ => rfl
    unfold Placeable
    rw [htype]
    exact (hP.placeable t rfl).imp id (Or.imp id fun hcovered => hcovered.fill f hinv hflight)

/-- Every move keeps track of the accepted orders. -/
theorem accounted_law (s : SecurityId) : BookLaw (fun st op => op.Kept st) (Accounted s) where
  refused := by
    intro es h b e _ hP
    exact hP.advance le_rfl (fun _ _ => rfl) (by simp) (fun r hr => Or.inl ⟨hr, rfl⟩)
      (by simp) (by simp)
  rejected := by
    intro es h b o e hinv _ _ hP
    have hread : ∀ r < h.next, (h.alloc o).read r = h.read r :=
      fun r hr => h.read_alloc_of_ne o hr.ne
    refine hP.advance (Nat.le_succ _) ?_ (by simp) ?_ (by simp) (by simp)
    · intro r hr
      rw [hread r hr]
    · intro r hr
      rcases hr with hr | hr
      · exact Or.inl ⟨Or.inl hr, by rw [hread r (hinv.allocated r hr)]⟩
      · contradiction
  accepted := fun hinv hfresh hkept hP => hP.accepted hinv hfresh hkept
  withdrawn := by
    intro es h b r hinv hr _ hP
    rcases OrderBook.removeFromBook_spec hinv hr with ⟨e, level, he⟩
    have hidentity := (b.removeFromBook h r).1.cancelRest_read Order.identity (fun _ => rfl) h r
    rw [he.events_eq]
    refine hP.advance le_rfl (fun x _ => hidentity x) ?_ ?_ (by simp) (by simp)
    · simp [OrderBook.cancelRest, OrderBook.cancelledEvent]
    · intro x hx
      rcases hx with hx | hx
      · by_cases hxr : x = r
        · subst hxr
          rcases (b.removeFromBook h x).1.cancelRest_ends h x with ⟨y, hy, hterminal⟩
          exact Or.inr ⟨y, List.mem_append_right _ (List.mem_append_right _ hy), hterminal⟩
        · refine Or.inl ⟨Or.inl ?_, ?_⟩
          · exact (OrderBook.resting_removeFromBook hinv hr x).mpr ⟨hx, hxr⟩
          · exact Order.field_of_identity Order.orderId (hidentity x) fun _ => rfl
      · contradiction
  replaced := fun hinv hr hkept hP => hP.replaced hinv hr hkept
  traded := fun hinv hflight f hP => hP.traded hinv hflight f
  entered := by
    intro es h b r hinv _ _ _ _ hP
    rcases OrderBook.insertResting_spec b h r with ⟨e, he⟩
    rw [he.events_eq]
    refine hP.advance le_rfl (fun _ _ => rfl) (by simp) ?_ (by simp) (by simp)
    intro x hx
    refine Or.inl ⟨Or.inl ?_, rfl⟩
    rw [OrderBook.resting_insertResting hinv]
    rcases hx with hx | hx
    · exact Or.inr hx
    · cases hx
      exact Or.inl rfl
  cancelled := by
    intro es h b r hinv hflight _ hP
    have hidentity := b.cancelRest_read Order.identity (fun _ => rfl) h r
    have hid : ∀ x, ((b.cancelRest h r).heap.read x).orderId = (h.read x).orderId :=
      fun x => Order.field_of_identity Order.orderId (hidentity x) fun _ => rfl
    refine hP.advance le_rfl (fun x _ => hidentity x) ?_ ?_ (by simp) (by simp)
    · simp [OrderBook.cancelRest, OrderBook.cancelledEvent]
    · intro x hx
      rcases hx with hx | hx
      · exact Or.inl ⟨Or.inl hx, hid x⟩
      · cases hx
        rcases b.cancelRest_ends h r with ⟨y, hy, hterminal⟩
        exact Or.inr ⟨y, List.mem_append_right _ hy, hterminal⟩
  dropped := by
    intro es h b r hinv _ hdone hP
    -- Nothing that is placeable is stranded, so the order has been filled.
    have hle : (h.read r).remainingQty ≤ 0 := by
      rcases hdone with hle | hstranded
      · exact hle
      · rcases hP.placeable r rfl with hlimit | hmarket | hcovered
        · exact (hstranded.not_limit hlimit).elim
        · exact (hstranded.not_market hmarket).elim
        · exact hcovered.remaining_nonpos hinv hstranded.uncrossed
    have hended := hP.spent r rfl hle
    rw [← List.append_nil es]
    refine hP.advance le_rfl (fun _ _ => rfl) (by simp) ?_ (by simp) (by simp)
    intro x hx
    rcases hx with hx | hx
    · exact Or.inl ⟨Or.inl hx, rfl⟩
    · cases hx
      rw [List.append_nil]
      exact Or.inr hended

theorem accounted_engineLaw :
    EngineLaw (fun _ st op => op.Kept st) Accounted where
  law := accounted_law
  turnedAway := by
    intro s es h b e _ hP
    exact hP.advance le_rfl (fun _ _ => rfl) (by simp) (fun r hr => Or.inl ⟨hr, rfl⟩)
      (by simp) (by simp)
  frame := by
    intro s s' es new h h' b b' hne hinv hnext hsecurity hidentity hread hcreated hmentions
      hP hactive
    refine ⟨hactive.known, ?_, by simp, by simp⟩
    intro x hx hs
    rcases List.mem_append.mp hx with hx' | hx'
    · rcases hP.accounted x hx' hs with ⟨r, hr, hid⟩ | ⟨y, hy, hterminal⟩
      · rcases hr with hr | hr
        · refine Or.inl ⟨r, Or.inl hr, ?_⟩
          rw [hread r (hinv.allocated r hr) (hsecurity r hr), hid]
        · contradiction
      · exact Or.inr ⟨y, List.mem_append_left _ hy, hterminal⟩
    · -- The other book accepts no order of this security.
      rcases hactive.known x hx with ⟨r, hr, hid, hrs⟩
      by_cases hlt : r < h.next
      · have hsame : (h'.read r).securityId = (h.read r).securityId :=
          Order.field_of_identity Order.securityId (hidentity r hlt) fun _ => rfl
        have hrs' : (h.read r).securityId = s := by rw [← hsame, hrs, hs]
        rw [hread r hlt hrs'] at hid
        exact (hmentions r hlt hrs' _ hx' hid.symm).elim
      · rw [hcreated r (not_lt.mp hlt) hr, hs] at hrs
        exact (hne hrs.symm).elim

theorem accounted_empty (s : SecurityId) : Accounted s none [] .empty { securityId := s } where
  known := by simp
  accounted := by simp
  spent := by simp
  placeable := by simp

/-! ## Requests that lose no order -/

/-- Validation lets the order of a request pass, on some instrument list. -/
def EngineOp.Validated : EngineOp → Prop
  | .submit order _ => ∃ mgr : InstrumentManager, (mgr.validateNewOrder order).valid = true
  | _ => True

/-- A request loses no order: a submitted order is a limit or a market order, or
the orders it crosses cover it; the new quantity of a resting order exceeds what
has been filled. -/
def EngineOp.Kept (e : FullMatchingEngine) : EngineOp → Prop
  | .submit order _ =>
      ∀ book, e.orderBooks order.securityId = some book →
        order.orderType = .limit ∨ order.orderType = .market ∨
          order.quantity ≤ book.crossingQty e.heap order
  | .modify orderId securityId _ newQty _ =>
      ∀ book r, e.orderBooks (e.routeSecurity orderId securityId) = some book →
        book.ordersById orderId = some r → (e.heap.read r).filledQty < newQty
  | _ => True

/-- Requests that lose no order are calls that lose no order. -/
theorem FullMatchingEngine.kept_of_route {e : FullMatchingEngine} {op : EngineOp}
    {s : SecurityId} {bop : BookOp} (hvalidated : op.Validated) (hkept : op.Kept e)
    (hroute : e.route op = some (s, bop)) : bop.Kept (e.bookState s) := by
  rcases routed_of_route hroute with ⟨book, hrouted⟩
  cases hrouted with
  | @submit order _ _ hbook =>
      rcases hvalidated with ⟨mgr, hvalid⟩
      rcases (validateNewOrder_valid_iff mgr order).mp hvalid with ⟨instr, -, hvalid⟩
      refine ⟨hvalid.quantity_pos, ?_⟩
      have hplaced := hkept book hbook
      rw [← bookAt_of_some hbook] at hplaced
      exact hplaced
  | cancel hbook => trivial
  | modify hbook =>
      intro r hr
      apply hkept book r hbook
      rw [← bookAt_of_some hbook]
      exact hr

/-- Along every run of validated new orders and of any cancellations and
modifications, as long as every request is one that loses no order, each accepted
order rests in its book with quantity left or has ended. -/
theorem accepted_orders_accounted (ops : List EngineOp)
    (hadmits : FullMatchingEngine.machine.Admits
      (fun e op => op.Fresh ∧ op.Validated ∧ op.Kept e) {} ops) :
    let r := FullMatchingEngine.machine.run {} ops
    ∀ x, .orderAccepted x ∈ r.2 →
      (∃ book o, r.1.orderBooks x.securityId = some book ∧
        book.ordersById x.orderId = some o ∧ book.Resting o ∧
        (r.1.heap.read o).orderId = x.orderId ∧ 0 < (r.1.heap.read o).remainingQty) ∨
      ∃ y ∈ r.2, y.Terminal x.orderId := by
  rcases accounted_engineLaw.run accounted_empty (hadmits.mono fun e op hop =>
    ⟨hop.1, fun _ _ hroute => FullMatchingEngine.kept_of_route hop.2.1 hop.2.2 hroute⟩) with
    ⟨hinv, haccounted⟩
  intro r x hx
  rcases (haccounted x.securityId).accounted x hx rfl with ⟨o, ho, hid⟩ | hended
  · rcases ho with ho | ho
    · left
      have hbookInv := hinv.book_inv x.securityId
      cases hbook : r.1.orderBooks x.securityId with
      | none =>
          have hempty : r.1.bookAt x.securityId = { securityId := x.securityId } := by
            simp [FullMatchingEngine.bookAt, hbook]
          rw [hempty] at ho
          exact (BookInv.not_resting_empty x.securityId o ho).elim
      | some book =>
          rw [FullMatchingEngine.bookAt_of_some hbook] at ho hbookInv
          refine ⟨book, o, rfl, ?_, ho, hid, hbookInv.remaining_pos_of_resting ho⟩
          exact (hbookInv.indexed _ o).mpr ⟨ho, hid⟩
    · contradiction
  · exact Or.inr hended

/-- A stop order that an ask covers is filled at once, and the ask is enlarged. -/
theorem accepted_orders_accounted_of_covered_stop :
    let ops : List EngineOp :=
      [.addInstrument 7,
        .submit { securityId := 7, side := .sell, price := ⟨100⟩, quantity := 5 } 10,
        .submit
          { securityId := 7, side := .buy, price := ⟨100⟩, quantity := 3,
            orderType := .stopLimit } 11,
        .modify 1 7 ⟨100⟩ 6 []]
    let r := FullMatchingEngine.machine.run {} ops
    ∀ x, .orderAccepted x ∈ r.2 →
      (∃ book o, r.1.orderBooks x.securityId = some book ∧
        book.ordersById x.orderId = some o ∧ book.Resting o ∧
        (r.1.heap.read o).orderId = x.orderId ∧ 0 < (r.1.heap.read o).remainingQty) ∨
      ∃ y ∈ r.2, y.Terminal x.orderId := by
  apply accepted_orders_accounted
  refine ⟨⟨trivial, trivial, trivial⟩, ⟨by decide, ?_, ?_⟩, ⟨by decide, ?_, ?_⟩,
    ⟨trivial, trivial, ?_⟩, trivial⟩
  · exact ⟨.single { securityId := 7, tickMantissa := 1 }, by decide⟩
  · intro book _
    exact Or.inl rfl
  · exact ⟨.single { securityId := 7, tickMantissa := 1 }, by decide⟩
  · intro book hbook
    cases hbook
    exact Or.inr (Or.inr (by decide))
  · intro book r hbook hr
    cases hbook
    cases hr
    decide

/-- A stop order that meets no ask is accepted and lost. -/
theorem unfilled_stop_order_lost :
    let order : Order :=
      { securityId := 7, side := .buy, price := ⟨100⟩, quantity := 5, orderType := .stopLimit }
    let ops : List EngineOp := [.addInstrument 7, .submit order 10]
    let r := FullMatchingEngine.machine.run {} ops
    FullMatchingEngine.machine.Admits (fun _ op => op.Fresh) {} ops ∧
      (∃ mgr : InstrumentManager, (mgr.validateNewOrder order).valid = true) ∧
      ¬∀ x, .orderAccepted x ∈ r.2 →
        (∃ book o, r.1.orderBooks x.securityId = some book ∧
          book.ordersById x.orderId = some o ∧ book.Resting o ∧
          (r.1.heap.read o).orderId = x.orderId ∧ 0 < (r.1.heap.read o).remainingQty) ∨
        ∃ y ∈ r.2, y.Terminal x.orderId := by
  refine ⟨by decide, ⟨.single { securityId := 7, tickMantissa := 1 }, by decide⟩, ?_⟩
  intro haccounted
  have haccepted := haccounted
    { orderId := 1, clOrdId := [], sessionUuid := 0, securityId := 7, side := .buy,
      price := ⟨100⟩, quantity := 5, orderType := .stopLimit, timeInForce := .day }
    (by decide)
  rcases haccepted with ⟨book, o, hbook, hindexed, -⟩ | hended
  · cases hbook
    cases hindexed
  · revert hended
    decide

end SimCme
