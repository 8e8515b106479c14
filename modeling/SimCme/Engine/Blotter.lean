import SimCme.Engine.OrderLifecycle
import SimCme.Library.Observer

/-!
# The blotter

A blotter is what one can write down about orders from the events of the engine alone: an
acceptance opens a line, a fill books its quantity on two lines and closes those it
completes, a modification rewrites a line, and a cancellation closes one.  The events of all
books go to one blotter, and one request may change the lines of many orders.

Main results:

- Theorem {lit}`blotted_law`: every move of a book fits the blotter.
- Theorem {lit}`blotted_engineLaw`: so does every request to the engine.
- Theorem {lit}`blotter_tells_books`: along every run the blotter has the lines of the orders in
  the books.
-/

namespace SimCme

open Library

/-! ## Lines -/

/-- A line of a blotter. -/
structure Line where
  sessionUuid : SessionUuid
  securityId : SecurityId
  price : Price
  quantity : Int
  filledQty : Int
deriving DecidableEq, Repr

def Order.line (o : Order) : Line where
  sessionUuid := o.sessionUuid
  securityId := o.securityId
  price := o.price
  quantity := o.quantity
  filledQty := o.filledQty

def OrderAccepted.line (accepted : OrderAccepted) : Line where
  sessionUuid := accepted.sessionUuid
  securityId := accepted.securityId
  price := accepted.price
  quantity := accepted.quantity
  filledQty := 0

/-- What a fill says of one of its orders. -/
structure FillSide where
  orderId : OrderId
  sessionUuid : SessionUuid
  cumQty : Int
  leavesQty : Int
  ordStatus : OrdStatus

def Order.fillSide (o : Order) : FillSide :=
  ⟨o.orderId, o.sessionUuid, o.filledQty, o.remainingQty, o.status⟩

namespace OrderFilled

def makerSide (fill : OrderFilled) : FillSide :=
  ⟨fill.makerOrderId, fill.makerSessionUuid, fill.makerCumQty, fill.makerLeavesQty,
    fill.makerOrdStatus⟩

def takerSide (fill : OrderFilled) : FillSide :=
  ⟨fill.takerOrderId, fill.takerSessionUuid, fill.takerCumQty, fill.takerLeavesQty,
    fill.takerOrdStatus⟩

end OrderFilled

namespace Line

/-- The fill takes a part of what the line leaves, or all of it. -/
structure FilledBy (line : Line) (fill : OrderFilled) (side : FillSide) : Prop where
  sessionUuid : side.sessionUuid = line.sessionUuid
  cumQty : side.cumQty = line.filledQty + fill.tradeQty
  leavesQty : side.leavesQty = line.quantity - side.cumQty
  notOverfilled : 0 ≤ side.leavesQty
  ordStatus : side.ordStatus = if side.leavesQty = 0 then .filled else .partiallyFilled

/-- A trade that takes no more than the order leaves fills its line. -/
theorem filledBy_fill {o : Order} {fill : OrderFilled} (hle : fill.tradeQty ≤ o.remainingQty) :
    o.line.FilledBy fill (o.fill fill.tradeQty).fillSide where
  sessionUuid := rfl
  cumQty := rfl
  leavesQty := rfl
  notOverfilled := by
    have hleaves := o.remainingQty_fill fill.tradeQty
    exact le_of_le_of_eq (Int.sub_nonneg_of_le hle) hleaves.symm
  ordStatus := by
    refine (o.status_fill fill.tradeQty).trans (if_congr ?_ rfl rfl)
    have hleaves := o.remainingQty_fill fill.tradeQty
    change o.remainingQty ≤ fill.tradeQty ↔ (o.fill fill.tradeQty).remainingQty = 0
    omega

/-- The cancellation reports the line as it stands. -/
structure CancelledBy (line : Line) (cancelled : OrderCancelled) : Prop where
  sessionUuid : cancelled.sessionUuid = line.sessionUuid
  securityId : cancelled.securityId = line.securityId
  cumQty : cancelled.cumQty = line.filledQty

/-- The modification leaves what has been filled as it is. -/
structure ModifiedBy (line : Line) (modified : OrderModified) : Prop where
  sessionUuid : modified.sessionUuid = line.sessionUuid
  securityId : modified.securityId = line.securityId
  cumQty : modified.cumQty = line.filledQty
  leavesQty : modified.leavesQty = modified.newQty - modified.cumQty

end Line

/-! ## Blotters -/

abbrev Blotter :=
  OrderId → Option Line

namespace Blotter

/-- Book one side of a fill, and close the line it completes. -/
def book (lines : Blotter) (side : FillSide) : Blotter :=
  Function.update lines side.orderId
    (if side.leavesQty = 0 then none
    else (lines side.orderId).map fun line => { line with filledQty := side.cumQty })

theorem book_of_ne (lines : Blotter) {side : FillSide} {id : OrderId} (hid : id ≠ side.orderId) :
    lines.book side id = lines id :=
  Function.update_of_ne hid _ _

/-- The line of an order that a trade leaves open. -/
theorem book_fill {lines : Blotter} {o : Order} {qty : Int}
    (hline : lines o.orderId = some o.line) (hpos : 0 < (o.fill qty).remainingQty) :
    lines.book (o.fill qty).fillSide o.orderId = some (o.fill qty).line := by
  have hleaves : (o.fill qty).fillSide.leavesQty ≠ 0 := hpos.ne'
  refine (Function.update_self _ _ _).trans ?_
  rw [if_neg hleaves]
  exact congrArg (Option.map fun line => { line with filledQty := (o.fill qty).filledQty }) hline

/-- The event fits the lines. -/
def Expects (lines : Blotter) : EngineEvent → Prop
  | .orderAccepted e => lines e.orderId = none
  | .orderFilled e =>
      0 < e.tradeQty ∧ e.makerOrderId ≠ e.takerOrderId ∧
        (∃ line ∈ lines e.makerOrderId, line.FilledBy e e.makerSide ∧ e.tradePrice = line.price) ∧
        ∃ line ∈ lines e.takerOrderId, line.FilledBy e e.takerSide
  | .orderCancelled e => ∃ line ∈ lines e.orderId, line.CancelledBy e
  | .orderModified e => ∃ line ∈ lines e.orderId, line.ModifiedBy e
  | .orderCancelRejected _ | .orderRejected _ | .bookUpdate _ => True

/-- The lines after an event. -/
def see (lines : Blotter) : EngineEvent → Blotter
  | .orderAccepted e => Function.update lines e.orderId (some e.line)
  | .orderFilled e => (lines.book e.makerSide).book e.takerSide
  | .orderCancelled e => Function.update lines e.orderId none
  | .orderModified e =>
      Function.update lines e.orderId ((lines e.orderId).map fun line =>
        { line with price := e.newPrice, quantity := e.newQty })
  | .orderCancelRejected _ | .orderRejected _ | .bookUpdate _ => lines

/-- An event changes the lines of the orders it speaks of. -/
theorem see_of_not_mentions (lines : Blotter) {e : EngineEvent} {id : OrderId}
    (hmentions : ¬e.Mentions id) : lines.see e id = lines id := by
  cases e with
  | orderAccepted e => exact Function.update_of_ne (Ne.symm hmentions) _ _
  | orderFilled e =>
      have hmaker : id ≠ e.makerOrderId := fun hid => hmentions (.inl hid.symm)
      have htaker : id ≠ e.takerOrderId := fun hid => hmentions (.inr hid.symm)
      exact (Function.update_of_ne htaker _ _).trans (Function.update_of_ne hmaker _ _)
  | orderCancelled e => exact Function.update_of_ne (Ne.symm hmentions) _ _
  | orderModified e => exact Function.update_of_ne (Ne.symm hmentions) _ _
  | _ => rfl

end Blotter

/-- One who keeps a blotter. -/
def bookkeeper : Observer Blotter EngineEvent where
  Expects := Blotter.Expects
  see := Blotter.see

/-- The lines after a history. -/
def blotter (es : List EngineEvent) : Blotter :=
  bookkeeper.seen (fun _ => none) es

theorem blotter_append (es new : List EngineEvent) :
    blotter (es ++ new) = bookkeeper.seen (blotter es) new :=
  List.foldl_append

theorem seen_of_not_mentions (lines : Blotter) {new : List EngineEvent} {id : OrderId}
    (hmentions : ∀ e ∈ new, ¬e.Mentions id) : bookkeeper.seen lines new id = lines id := by
  induction new generalizing lines with
  | nil => rfl
  | cons e new ih =>
      rw [List.forall_mem_cons] at hmentions
      exact (ih (lines.see e) hmentions.2).trans (lines.see_of_not_mentions hmentions.1)

/-- The event fits every blotter and changes none. -/
def EngineEvent.Silent (e : EngineEvent) : Prop :=
  ∀ lines : Blotter, lines.Expects e ∧ lines.see e = lines

theorem silent_bookUpdate (u : BookUpdate) : (EngineEvent.bookUpdate u).Silent :=
  fun _ => ⟨trivial, rfl⟩

theorem silent_orderRejected (e : OrderRejected) : (EngineEvent.orderRejected e).Silent :=
  fun _ => ⟨trivial, rfl⟩

theorem silent_orderCancelRejected (e : OrderCancelRejected) :
    (EngineEvent.orderCancelRejected e).Silent :=
  fun _ => ⟨trivial, rfl⟩

theorem follows_of_silent (lines : Blotter) {new : List EngineEvent}
    (hnew : ∀ e ∈ new, e.Silent) : bookkeeper.Follows lines new lines := by
  induction new with
  | nil => exact Observer.follows_nil _
  | cons e new ih =>
      rw [List.forall_mem_cons] at hnew
      rcases hnew.1 lines with ⟨hexpects, hsee⟩
      refine ⟨hexpects, ?_⟩
      rw [show bookkeeper.see lines e = lines from hsee]
      exact ih hnew.2

/-! ## Moves -/

/-- The history fits a blotter, which has a line for every order that can still trade. -/
structure Blotted (hand : Option OrderRef) (es : List EngineEvent) (h : Heap Order)
    (b : OrderBook) : Prop where
  follows : bookkeeper.Follows (fun _ => none) es (blotter es)
  known : ∀ id line, blotter es id = some line → ∃ r < h.next, (h.read r).orderId = id
  held : ∀ r, b.Resting r ∨ hand = some r ∧ 0 < (h.read r).remainingQty →
    blotter es (h.read r).orderId = some (h.read r).line

namespace Blotted

variable {hand hand' : Option OrderRef} {es new : List EngineEvent} {h h' : Heap Order}
  {b b' : OrderBook} {r t : OrderRef} {o : Order}

/-- A move whose events fit, with the lines they lead to. -/
theorem advance (hP : Blotted hand es h b) {lines : Blotter}
    (hnew : bookkeeper.Follows (blotter es) new lines)
    (hknown : ∀ id line, lines id = some line → ∃ r < h'.next, (h'.read r).orderId = id)
    (hheld : ∀ r, b'.Resting r ∨ hand' = some r ∧ 0 < (h'.read r).remainingQty →
      lines (h'.read r).orderId = some (h'.read r).line) : Blotted hand' (es ++ new) h' b' := by
  have hlines : blotter (es ++ new) = lines := by
    rw [blotter_append]
    exact hnew.seen_eq
  refine ⟨?_, ?_, ?_⟩
  · rw [hlines]
    exact hP.follows.append hnew
  · rwa [hlines]
  · rwa [hlines]

/-- An event leaves lines of allocated orders, if it speaks of such orders only. -/
theorem known_see (hP : Blotted hand es h b)
    (hid : ∀ r < h.next, (h'.read r).orderId = (h.read r).orderId) (hnext : h.next ≤ h'.next)
    {e : EngineEvent}
    (hmentions : ∀ id, e.Mentions id → ∃ r < h'.next, (h'.read r).orderId = id) (id : OrderId)
    (line : Line) (hline : (blotter es).see e id = some line) :
    ∃ r < h'.next, (h'.read r).orderId = id := by
  by_cases hsame : e.Mentions id
  · exact hmentions id hsame
  · rw [Blotter.see_of_not_mentions _ hsame] at hline
    rcases hP.known id line hline with ⟨r, hr, hrid⟩
    exact ⟨r, lt_of_lt_of_le hr hnext, (hid r hr).trans hrid⟩

/-- A move that reports nothing of an order. -/
theorem move (hP : Blotted hand es h b) (hnew : ∀ e ∈ new, e.Silent) (hnext : h.next ≤ h'.next)
    (hid : ∀ r < h.next, (h'.read r).orderId = (h.read r).orderId)
    (hheld : ∀ r, b'.Resting r ∨ hand' = some r ∧ 0 < (h'.read r).remainingQty →
      (b.Resting r ∨ hand = some r ∧ 0 < (h.read r).remainingQty) ∧ h'.read r = h.read r) :
    Blotted hand' (es ++ new) h' b' := by
  refine hP.advance (follows_of_silent _ hnew) ?_ ?_
  · intro id line hline
    rcases hP.known id line hline with ⟨r, hr, hrid⟩
    exact ⟨r, lt_of_lt_of_le hr hnext, (hid r hr).trans hrid⟩
  · intro r hr
    rcases hheld r hr with ⟨hr', hread⟩
    rw [hread]
    exact hP.held r hr'

/-- A fresh id has no line. -/
theorem line_of_fresh (hP : Blotted hand es h b) (hfresh : FreshOrder h o) :
    blotter es o.orderId = none := by
  cases hline : blotter es o.orderId with
  | none => rfl
  | some line =>
      rcases hP.known _ line hline with ⟨r, hr, hid⟩
      exact (hfresh.2 r hr hid).elim

/-- An acceptance opens the line of a fresh order. -/
theorem accepted (hP : Blotted none es h b) (hinv : BookInv h b) (hfresh : FreshOrder h o) :
    Blotted (some h.next) (es ++ [OrderBook.acceptedEvent o]) (h.alloc o) b := by
  have hnone := hP.line_of_fresh hfresh
  have hid : ∀ r < h.next, ((h.alloc o).read r).orderId = (h.read r).orderId := by
    intro r hr
    rw [h.read_alloc_of_ne o hr.ne]
  have hmentions : ∀ id, (OrderBook.acceptedEvent o).Mentions id →
      ∃ r < (h.alloc o).next, ((h.alloc o).read r).orderId = id := by
    intro id hid
    refine ⟨h.next, Nat.lt_succ_self _, ?_⟩
    rw [h.read_alloc_next]
    exact hid
  refine hP.advance (Observer.follows_singleton hnone)
    (hP.known_see hid (Nat.le_succ _) hmentions) ?_
  intro r hr
  rcases hr with hr | ⟨hr, -⟩
  · have hlt := hinv.allocated r hr
    rw [h.read_alloc_of_ne o hlt.ne]
    exact (Function.update_of_ne (hfresh.2 r hlt) _ _).trans (hP.held r (.inl hr))
  · cases hr
    rw [h.read_alloc_next]
    refine (Function.update_self _ _ _).trans ?_
    rw [Order.line, hfresh.1]
    rfl

/-- The cancellation of an order that has a line and is in no level closes it. -/
theorem cancelRest (hP : Blotted hand es h b) (halloc : r < h.next)
    (hline : blotter es (h.read r).orderId = some (h.read r).line)
    (hother : ∀ x, b.Resting x → (h.read x).orderId ≠ (h.read r).orderId) :
    Blotted none (es ++ (b.cancelRest h r).events) (b.cancelRest h r).heap b := by
  have hid := b.cancelRest_read Order.orderId (fun _ => rfl) h r
  have hread := b.cancelRest_read Order.line (fun _ => rfl) h r
  have hexpects : (blotter es).Expects
      (OrderBook.cancelledEvent ((b.cancelRest h r).heap.read r)) := by
    rw [OrderBook.cancelRest, Heap.read_modify_self]
    exact ⟨_, hline, rfl, rfl, rfl⟩
  have hmentions : ∀ id, (OrderBook.cancelledEvent ((b.cancelRest h r).heap.read r)).Mentions id →
      ∃ x < h.next, ((b.cancelRest h r).heap.read x).orderId = id :=
    fun _ hid => ⟨r, halloc, hid⟩
  refine hP.advance (Observer.follows_singleton hexpects)
    (hP.known_see (fun x _ => hid x) le_rfl hmentions) ?_
  intro x hx
  rcases hx with hx | ⟨hx, -⟩
  · have hevent : ((b.cancelRest h r).heap.read x).orderId ≠
        ((b.cancelRest h r).heap.read r).orderId := by
      rw [hid, hid]
      exact hother x hx
    rw [hread]
    refine (Function.update_of_ne hevent _ _).trans ?_
    rw [hid]
    exact hP.held x (.inl hx)
  · contradiction

/-- A modification rewrites the line of the order that has been taken out of its level. -/
theorem modified (hP : Blotted none es h b) (halloc : r < h.next) (newPrice : Price) (newQty : Int)
    (newClOrdId : ClOrdId) (hline : blotter es (h.read r).orderId = some (h.read r).line)
    (hother : ∀ x, b.Resting x → (h.read x).orderId ≠ (h.read r).orderId) :
    Blotted (some r)
      (es ++ [OrderBook.modifiedEvent
        (OrderBook.modifiedOrder (h.read r) newPrice newQty newClOrdId) newPrice newQty])
      (h.modify r fun o => OrderBook.modifiedOrder o newPrice newQty newClOrdId) b := by
  have hid := OrderBook.modified_read (p := newPrice) (q := newQty) (c := newClOrdId)
    Order.orderId (fun _ => rfl) h r
  have hexpects : (blotter es).Expects (OrderBook.modifiedEvent
      (OrderBook.modifiedOrder (h.read r) newPrice newQty newClOrdId) newPrice newQty) :=
    ⟨_, hline, rfl, rfl, rfl, rfl⟩
  have hmentions : ∀ id, (OrderBook.modifiedEvent
      (OrderBook.modifiedOrder (h.read r) newPrice newQty newClOrdId) newPrice newQty).Mentions id →
      ∃ x < h.next, ((h.modify r fun o =>
        OrderBook.modifiedOrder o newPrice newQty newClOrdId).read x).orderId = id :=
    fun _ hevent => ⟨r, halloc, (hid r).trans hevent⟩
  refine hP.advance (Observer.follows_singleton hexpects)
    (hP.known_see (fun x _ => hid x) le_rfl hmentions) ?_
  intro x hx
  rw [hid]
  rcases hx with hx | ⟨hx, -⟩
  · have hne : x ≠ r := fun hxr => hother x hx (congrArg (fun y => (h.read y).orderId) hxr)
    rw [h.read_modify_of_ne _ hne]
    exact (Function.update_of_ne (hother x hx) _ _).trans (hP.held x (.inl hx))
  · cases hx
    rw [h.read_modify_self]
    refine (Function.update_self _ _ _).trans ?_
    exact congrArg (Option.map fun line =>
      { line with price := newPrice, quantity := newQty }) hline

/-- Taking an order out of its level leaves every line as it is. -/
theorem removed (hP : Blotted none es h b) (hinv : BookInv h b) (hr : b.Resting r) :
    Blotted none (es ++ (b.removeFromBook h r).2) h (b.removeFromBook h r).1 := by
  rcases OrderBook.removeFromBook_spec hinv hr with ⟨e, level, he⟩
  rw [he.events_eq]
  refine hP.move ?_ le_rfl (fun _ _ => rfl) ?_
  · simp [silent_bookUpdate]
  · intro x hx
    rcases hx with hx | ⟨hx, -⟩
    · exact ⟨.inl ((OrderBook.resting_removeFromBook hinv hr x).mp hx).1, rfl⟩
    · contradiction

/-- The line of an order that has been taken out of its level. -/
theorem line_of_removed (hP : Blotted none es h b) (hinv : BookInv h b) (hr : b.Resting r) :
    blotter (es ++ (b.removeFromBook h r).2) (h.read r).orderId = some (h.read r).line := by
  rcases OrderBook.removeFromBook_spec hinv hr with ⟨e, level, he⟩
  have hsilent : ∀ x ∈ (b.removeFromBook h r).2, x.Silent := by
    simp [he.events_eq, silent_bookUpdate]
  rw [blotter_append, (follows_of_silent _ hsilent).seen_eq]
  exact hP.held r (.inl hr)

/-- The orders left have other ids. -/
theorem orderId_ne_of_removed (hinv : BookInv h b) (hr : b.Resting r) (x : OrderRef)
    (hx : (b.removeFromBook h r).1.Resting x) : (h.read x).orderId ≠ (h.read r).orderId := by
  rw [OrderBook.resting_removeFromBook hinv hr] at hx
  exact fun hid => hx.2 (hinv.orderId_injective hx.1 hr hid)

/-- A trade books its quantity on the lines of both orders. -/
theorem traded (hP : Blotted (some t) es h b) (hinv : BookInv h b) (hflight : InFlight h b t)
    (f : OrderBook.Fill (OrderBook.takerSide (h.read t)) (OrderBook.takerStop (h.read t)) t h b) :
    Blotted (some t) (es ++ f.events) f.heap f.book := by
  have hne := f.maker_ne_taker hinv hflight
  have hids := hinv.orderId_ne_of_inFlight hflight f.maker_resting
  have hmaker := hP.held f.maker (.inl f.maker_resting)
  have htaker := hP.held t (.inr ⟨rfl, f.taker_pos⟩)
  have hprice : f.price = (h.read f.maker).price := by
    refine ((f.level_inv hinv).order_price f.maker ?_).symm
    rw [f.queue_eq]
    exact List.mem_cons_self
  have hexpects : (blotter es).Expects (.orderFilled (b.tradedFill h f.price t f.maker)) :=
    ⟨f.qty_pos hinv, hids, ⟨_, hmaker, Line.filledBy_fill f.qty_le_maker, hprice⟩,
      _, htaker, Line.filledBy_fill f.qty_le_taker⟩
  have hfollows : bookkeeper.Follows (blotter es) f.events
      (((blotter es).book ((h.read f.maker).fill f.qty).fillSide).book
        ((h.read t).fill f.qty).fillSide) :=
    ⟨hexpects, trivial, rfl⟩
  have hmentions : ∀ id,
      (EngineEvent.orderFilled (b.tradedFill h f.price t f.maker)).Mentions id →
      ∃ x < h.next, (f.heap.read x).orderId = id := by
    rintro id (hid | hid)
    · exact ⟨f.maker, hinv.allocated _ f.maker_resting, (f.read_orderId _).trans hid⟩
    · exact ⟨t, hflight.allocated, (f.read_orderId _).trans hid⟩
  refine hP.advance hfollows
    (hP.known_see (fun x _ => f.read_orderId x) le_rfl hmentions) ?_
  intro x hx
  rw [f.read_orderId]
  rcases hx with hx | ⟨hx, hpos⟩
  · rw [f.resting_iff hinv] at hx
    have hxt := hinv.orderId_ne_of_inFlight hflight hx.1
    rw [Blotter.book_of_ne _ hxt]
    by_cases hxm : x = f.maker
    · -- The maker rests on, so the trade leaves some of it.
      have hopen : 0 < ((h.read f.maker).fill f.qty).remainingQty := by
        rw [← Order.not_isFullyFilled_iff, ← Bool.not_eq_true]
        exact fun hfull => hx.2 ⟨hfull, hxm⟩
      rw [hxm, f.read_maker hne]
      exact Blotter.book_fill hmaker hopen
    · have hxid : (h.read x).orderId ≠ (h.read f.maker).orderId :=
        fun hid => hxm (hinv.orderId_injective hx.1 f.maker_resting hid)
      have hxne : x ≠ t := fun heq => hxt (congrArg (fun y => (h.read y).orderId) heq)
      rw [f.read_of_ne hxne hxm]
      exact (Blotter.book_of_ne _ hxid).trans (hP.held x (.inl hx.1))
  · cases hx
    rw [f.read_taker] at hpos ⊢
    refine Blotter.book_fill ?_ hpos
    exact (Blotter.book_of_ne _ hids.symm).trans htaker

end Blotted

/-- Every move of a book fits the blotter. -/
theorem blotted_law : BookLaw (fun _ _ => True) Blotted where
  refused := by
    intro es h b e _ hP
    refine hP.move ?_ le_rfl (fun _ _ => rfl) (fun r hr => ⟨hr, rfl⟩)
    simp [silent_orderCancelRejected]
  rejected := by
    intro es h b o e hinv _ _ hP
    refine hP.move ?_ (Nat.le_succ _) ?_ ?_
    · simp [silent_orderRejected]
    · intro r hr
      rw [h.read_alloc_of_ne o hr.ne]
    · intro r hr
      rcases hr with hr | ⟨hr, -⟩
      · exact ⟨.inl hr, h.read_alloc_of_ne o (hinv.allocated r hr).ne⟩
      · contradiction
  accepted := fun hinv hfresh _ hP => hP.accepted hinv hfresh
  withdrawn := by
    intro es h b r hinv hr _ hP
    rw [← List.append_assoc]
    exact (hP.removed hinv hr).cancelRest (hinv.allocated r hr) (hP.line_of_removed hinv hr)
      (Blotted.orderId_ne_of_removed hinv hr)
  replaced := by
    intro es h b r newPrice newQty newClOrdId hinv hr _ hP
    rw [← List.append_assoc]
    exact (hP.removed hinv hr).modified (hinv.allocated r hr) newPrice newQty newClOrdId
      (hP.line_of_removed hinv hr) (Blotted.orderId_ne_of_removed hinv hr)
  traded := fun hinv hflight f hP => hP.traded hinv hflight f
  entered := by
    intro es h b r hinv _ _ hpos _ hP
    rcases OrderBook.insertResting_spec b h r with ⟨e, he⟩
    rw [he.events_eq]
    refine hP.move ?_ le_rfl (fun _ _ => rfl) ?_
    · simp [silent_bookUpdate]
    · intro x hx
      refine ⟨?_, rfl⟩
      rcases hx with hx | ⟨hx, -⟩
      · rcases (OrderBook.resting_insertResting hinv x).mp hx with rfl | hx
        · exact .inr ⟨rfl, hpos⟩
        · exact .inl hx
      · contradiction
  cancelled := by
    intro es h b r hinv hflight hpos hP
    exact hP.cancelRest hflight.allocated (hP.held r (.inr ⟨rfl, hpos⟩))
      (fun x hx => hinv.orderId_ne_of_inFlight hflight hx)
  dropped := by
    intro es h b r _ _ _ hP
    refine ⟨hP.follows, hP.known, ?_⟩
    intro x hx
    rcases hx with hx | ⟨hx, -⟩
    · exact hP.held x (.inl hx)
    · contradiction

/-- Every request to the engine fits the blotter. -/
theorem blotted_engineLaw : EngineLaw (fun _ _ _ => True) fun _ => Blotted where
  law _ := blotted_law
  turnedAway := by
    intro s es h b e _ hP
    refine hP.move ?_ le_rfl (fun _ _ => rfl) (fun r hr => ⟨hr, rfl⟩)
    simp [silent_orderRejected]
  frame := by
    intro s s' es new h h' b b' _ hinv _ hsecurity _ hread _ hmentions hP hactive
    refine ⟨hactive.follows, hactive.known, ?_⟩
    intro r hr
    rcases hr with hr | ⟨hr, -⟩
    · have hlt := hinv.allocated r hr
      rw [hread r hlt (hsecurity r hr), blotter_append,
        seen_of_not_mentions _ (hmentions r hlt (hsecurity r hr))]
      exact hP.held r (.inl hr)
    · contradiction

theorem blotted_empty (s : SecurityId) : Blotted none [] .empty { securityId := s } where
  follows := rfl
  known := by
    intro id line hline
    cases hline
  held := by
    intro r hr
    rcases hr with hr | ⟨hr, -⟩
    · exact (BookInv.not_resting_empty s r hr).elim
    · contradiction

/-! ## Runs -/

/-- A line is of an order that has been accepted. -/
theorem accepted_of_line {es : List EngineEvent} {lines : Blotter}
    (hfollows : bookkeeper.Follows (fun _ => none) es lines) :
    ∀ id line, lines id = some line → ∃ x, .orderAccepted x ∈ es ∧ x.orderId = id := by
  refine hfollows.induction (P := fun before lines => ∀ id line, lines id = some line →
    ∃ x, .orderAccepted x ∈ before ∧ x.orderId = id) ?_ ?_
  · intro id line hline
    cases hline
  · intro before lines e ih hexpects id line hline
    by_cases hmentions : e.Mentions id
    · cases e with
      | orderAccepted e => exact ⟨e, List.mem_append_right _ List.mem_cons_self, hmentions⟩
      | orderFilled e =>
          rcases hexpects with ⟨-, -, ⟨maker, hmaker, -⟩, taker, htaker, -⟩
          obtain ⟨x, hx, hxid⟩ : ∃ x, .orderAccepted x ∈ before ∧ x.orderId = id := by
            rcases hmentions with rfl | rfl
            · exact ih _ maker hmaker
            · exact ih _ taker htaker
          exact ⟨x, List.mem_append_left _ hx, hxid⟩
      | orderCancelled e =>
          rcases hexpects with ⟨old, hold, -⟩
          rcases ih _ old hold with ⟨x, hx, hxid⟩
          exact ⟨x, List.mem_append_left _ hx, hxid.trans hmentions⟩
      | orderModified e =>
          rcases hexpects with ⟨old, hold, -⟩
          rcases ih _ old hold with ⟨x, hx, hxid⟩
          exact ⟨x, List.mem_append_left _ hx, hxid.trans hmentions⟩
      | _ => exact hmentions.elim
    · rcases ih id line ((lines.see_of_not_mentions hmentions).symm.trans hline) with ⟨x, hx, hxid⟩
      exact ⟨x, List.mem_append_left _ hx, hxid⟩

/-- A terminal event closes the line of the order it ends. -/
theorem see_of_terminal {lines : Blotter} {e : EngineEvent} {id : OrderId}
    (hexpects : lines.Expects e) (hterminal : e.Terminal id) : lines.see e id = none := by
  cases e with
  | orderFilled e =>
      rcases hterminal with ⟨rfl, hleaves⟩ | ⟨rfl, hleaves⟩
      · refine (Blotter.book_of_ne _ hexpects.2.1).trans ?_
        exact (Function.update_self _ _ _).trans (if_pos hleaves)
      · exact (Function.update_self _ _ _).trans (if_pos hleaves)
  | orderCancelled e =>
      cases hterminal
      exact Function.update_self _ _ _
  | _ => exact hterminal.elim

/-- An order that has ended has no line. -/
theorem line_of_ended {es : List EngineEvent}
    (hfollows : bookkeeper.Follows (fun _ => none) es (blotter es))
    (hfinal : es.Pairwise Respects) {y : EngineEvent} {id : OrderId} (hy : y ∈ es)
    (hterminal : y.Terminal id) : blotter es id = none := by
  rcases List.append_of_mem hy with ⟨before, after, rfl⟩
  have hexpects := hfollows.eachAfter before y after rfl
  have hafter : ∀ e ∈ after, ¬e.Mentions id := by
    intro e he
    have hrest := (List.pairwise_append.mp hfinal).2.1
    exact (List.pairwise_cons.mp hrest).1 e he id hterminal
  rw [blotter_append]
  refine (seen_of_not_mentions _ hafter).trans ?_
  exact see_of_terminal hexpects hterminal

/-- Along every run the events fit the blotter kept from them.  It has the line of every order
in a book, and no other line as long as no request loses an order. -/
theorem blotter_tells_books (ops : List EngineOp)
    (hadmits : FullMatchingEngine.machine.Admits (fun _ op => op.Fresh) {} ops) :
    let r := FullMatchingEngine.machine.run {} ops
    bookkeeper.Follows (fun _ => none) r.2 (blotter r.2) ∧
      (∀ s book x, r.1.orderBooks s = some book → book.Resting x →
        blotter r.2 (r.1.heap.read x).orderId = some (r.1.heap.read x).line) ∧
      (FullMatchingEngine.machine.Admits (fun e op => op.Fresh ∧ op.Validated ∧ op.Kept e) {} ops →
        ∀ id line, blotter r.2 id = some line → ∃ s book x, r.1.orderBooks s = some book ∧
          book.Resting x ∧ (r.1.heap.read x).orderId = id ∧ (r.1.heap.read x).line = line) := by
  have hfresh := hadmits.mono fun e op hop =>
    (⟨hop, fun _ _ _ => trivial⟩ : op.Fresh ∧ EngineLaw.Admitted (fun _ _ _ => True) e op)
  rcases blotted_engineLaw.run blotted_empty hfresh with ⟨-, hblotted⟩
  rcases final_engineLaw.run final_empty hfresh with ⟨-, hfinal⟩
  intro r
  have hheld : ∀ s book x, r.1.orderBooks s = some book → book.Resting x →
      blotter r.2 (r.1.heap.read x).orderId = some (r.1.heap.read x).line := by
    intro s book x hbook hx
    rw [← FullMatchingEngine.bookAt_of_some hbook] at hx
    exact (hblotted s).held x (.inl hx)
  refine ⟨(hblotted 0).follows, hheld, ?_⟩
  intro hkept id line hline
  obtain ⟨-, haccounted⟩ := accounted_engineLaw.run accounted_empty (hkept.mono fun e op hop =>
    ⟨hop.1, fun _ _ hroute => FullMatchingEngine.kept_of_route hop.2.1 hop.2.2 hroute⟩)
  rcases accepted_of_line (hblotted 0).follows id line hline with ⟨x, hx, rfl⟩
  rcases (haccounted x.securityId).accounted x hx rfl with ⟨o, ho | ho, hid⟩ | ⟨y, hy, hterminal⟩
  · cases hbook : r.1.orderBooks x.securityId with
    | none =>
        have hempty : r.1.bookAt x.securityId = { securityId := x.securityId } := by
          simp [FullMatchingEngine.bookAt, hbook]
        rw [hempty] at ho
        exact (BookInv.not_resting_empty x.securityId o ho).elim
    | some book =>
        rw [FullMatchingEngine.bookAt_of_some hbook] at ho
        refine ⟨x.securityId, book, o, hbook, ho, hid, ?_⟩
        have hsame := hheld x.securityId book o hbook ho
        rw [hid] at hsame
        exact Option.some.inj (hsame.symm.trans hline)
  · contradiction
  · have hclosed := line_of_ended (hblotted 0).follows (hfinal 0).final hy hterminal
    rw [hclosed] at hline
    contradiction

/-- An ask is filled in part, moved and filled again. -/
theorem blotter_tells_books_of_moved_ask :
    let ops : List EngineOp :=
      [.addInstrument 7,
        .submit { securityId := 7, side := .sell, price := ⟨100⟩, quantity := 9 } 10,
        .submit { securityId := 7, side := .buy, price := ⟨100⟩, quantity := 4 } 11,
        .modify 1 7 ⟨90⟩ 8 [],
        .submit { securityId := 7, side := .buy, price := ⟨95⟩, quantity := 3 } 12]
    let r := FullMatchingEngine.machine.run {} ops
    bookkeeper.Follows (fun _ => none) r.2 (blotter r.2) ∧
      (∀ s book x, r.1.orderBooks s = some book → book.Resting x →
        blotter r.2 (r.1.heap.read x).orderId = some (r.1.heap.read x).line) ∧
      (FullMatchingEngine.machine.Admits (fun e op => op.Fresh ∧ op.Validated ∧ op.Kept e) {} ops →
        ∀ id line, blotter r.2 id = some line → ∃ s book x, r.1.orderBooks s = some book ∧
          book.Resting x ∧ (r.1.heap.read x).orderId = id ∧ (r.1.heap.read x).line = line) :=
  blotter_tells_books _ (by decide)

end SimCme
