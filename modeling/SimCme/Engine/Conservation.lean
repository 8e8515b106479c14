import SimCme.Engine.BookRuns

/-!
# Quantities along a run

What an order has been filled with is the sum of its trades in the event history,
whoever's operations they came from, and every report of a fill, a cancellation
or a modification carries that sum.

Main results:

- Theorem {lit}`conserved_law`: every move keeps the filled quantities equal to
  the sums and emits truthful reports.
- Theorem {lit}`conservation_of_run`: the same for whole runs.
-/

namespace SimCme

open Library

/-- What an event adds to the filled quantity of an order. -/
def EngineEvent.fillQty (id : OrderId) : EngineEvent → Int
  | .orderFilled e => if e.makerOrderId = id ∨ e.takerOrderId = id then e.tradeQty else 0
  | _ => 0

/-- The traded quantity of an order in a history. -/
def filledIn (es : List EngineEvent) (id : OrderId) : Int :=
  (es.map (EngineEvent.fillQty id)).sum

/-- The quantity an event sets for an order: acceptance and modification reports
carry the quantity the operation gave the order. -/
def EngineEvent.setsQty (id : OrderId) : EngineEvent → Option Int
  | .orderAccepted e => if e.orderId = id then some e.quantity else none
  | .orderModified e => if e.orderId = id then some e.newQty else none
  | _ => none

/-- The quantity most recently set for an order. -/
def quantitySet (es : List EngineEvent) (id : OrderId) : Option Int :=
  es.foldl (fun qty e => (e.setsQty id).or qty) none

@[simp]
theorem filledIn_append (es es' : List EngineEvent) (id : OrderId) :
    filledIn (es ++ es') id = filledIn es id + filledIn es' id := by
  simp [filledIn]

/-- An order that no fill speaks of has no fills. -/
theorem filledIn_of_quiet {es : List EngineEvent} {id : OrderId}
    (hquiet : ∀ f, .orderFilled f ∈ es → ¬(f.makerOrderId = id ∨ f.takerOrderId = id)) :
    filledIn es id = 0 := by
  apply List.sum_eq_zero
  intro qty hqty
  rcases List.mem_map.mp hqty with ⟨e, he, rfl⟩
  cases e with
  | orderFilled f => exact if_neg (hquiet f he)
  | _ => rfl

@[simp]
theorem quantitySet_concat (es : List EngineEvent) (e : EngineEvent) (id : OrderId) :
    quantitySet (es ++ [e]) id = (e.setsQty id).or (quantitySet es id) := by
  simp [quantitySet]

/-- One side of a fill report: the cumulative quantity counts the fill itself,
together with what is left it makes the quantity set, and the status says whether
anything is left. -/
structure ReportsSide (before : List EngineEvent) (fill : OrderFilled) (id : OrderId)
    (cumQty leavesQty : Int) (ordStatus : OrdStatus) : Prop where
  cum_eq : cumQty = filledIn (before ++ [.orderFilled fill]) id
  quantity_eq : quantitySet before id = some (cumQty + leavesQty)
  leaves_nonneg : 0 ≤ leavesQty
  status_eq : ordStatus = if leavesQty = 0 then .filled else .partiallyFilled

/-- An event reports the quantities of the history before it. -/
def EngineEvent.Truthful (before : List EngineEvent) : EngineEvent → Prop
  | .orderFilled e =>
      0 < e.tradeQty ∧
        ReportsSide before e e.makerOrderId e.makerCumQty e.makerLeavesQty e.makerOrdStatus ∧
        ReportsSide before e e.takerOrderId e.takerCumQty e.takerLeavesQty e.takerOrdStatus
  | .orderCancelled e => e.cumQty = filledIn before e.orderId
  | .orderModified e => e.cumQty = filledIn before e.orderId
  | _ => True

/-- The quantities of the orders are those of the history. -/
structure Conserved (hand : Option OrderRef) (es : List EngineEvent) (h : Heap Order)
    (b : OrderBook) : Prop where
  ids_unique : UniqueIds h
  filled_eq : ∀ r < h.next, (h.read r).filledQty = filledIn es (h.read r).orderId
  unused : ∀ id, (∀ r < h.next, (h.read r).orderId ≠ id) → filledIn es id = 0
  quantity_eq : ∀ r, b.Resting r ∨ hand = some r →
    quantitySet es (h.read r).orderId = some (h.read r).quantity
  truthful : EachAfter EngineEvent.Truthful es

namespace Conserved

variable {hand hand' : Option OrderRef} {es : List EngineEvent} {h h' : Heap Order}
  {b b' : OrderBook} {r : OrderRef}

/-- An event that neither fills nor sets a quantity changes nothing. -/
theorem concat_other (hP : Conserved hand es h b) {e : EngineEvent}
    (hfill : ∀ id, e.fillQty id = 0) (hset : ∀ id, e.setsQty id = none)
    (htruthful : e.Truthful es) : Conserved hand (es ++ [e]) h b := by
  have hfilled : ∀ id, filledIn (es ++ [e]) id = filledIn es id := by
    intro id
    simp [filledIn, hfill]
  have hquantity : ∀ id, quantitySet (es ++ [e]) id = quantitySet es id := by
    intro id
    simp [hset]
  exact
    { ids_unique := hP.ids_unique
      filled_eq := fun r hr => by rw [hfilled, hP.filled_eq r hr]
      unused := fun id hid => by rw [hfilled, hP.unused id hid]
      quantity_eq := fun r hr => by rw [hquantity, hP.quantity_eq r hr]
      truthful := hP.truthful.concat htruthful }

/-- Rewriting orders without touching ids and fills, and holding fewer orders. -/
theorem transport (hP : Conserved hand es h b) (hnext : h'.next = h.next)
    (hid : ∀ r, (h'.read r).orderId = (h.read r).orderId)
    (hfilled : ∀ r, (h'.read r).filledQty = (h.read r).filledQty)
    (hheld : ∀ r, b'.Resting r ∨ hand' = some r →
      (b.Resting r ∨ hand = some r) ∧ (h'.read r).quantity = (h.read r).quantity) :
    Conserved hand' es h' b' where
  ids_unique := hP.ids_unique.congr_ids hnext hid
  filled_eq r hr := by
    rw [hid, hfilled]
    exact hP.filled_eq r (hnext ▸ hr)
  unused id hfree := by
    apply hP.unused id
    intro r hr
    rw [← hid]
    exact hfree r (hnext.symm ▸ hr)
  quantity_eq r hr := by
    rw [hid, (hheld r hr).2]
    exact hP.quantity_eq r (hheld r hr).1
  truthful := hP.truthful

/-- A fresh order has no fills. -/
theorem alloc {o : Order} (hP : Conserved none es h b) (hinv : BookInv h b)
    (hfresh : FreshOrder h o) : Conserved none es (h.alloc o) b where
  ids_unique := hP.ids_unique.alloc hfresh
  filled_eq r hr := by
    by_cases hrn : r = h.next
    · rw [hrn, h.read_alloc_next, hfresh.1, hP.unused o.orderId hfresh.2]
    · have hlt : r < h.next := lt_of_le_of_ne (Nat.le_of_lt_succ hr) hrn
      rw [h.read_alloc_of_ne o hrn]
      exact hP.filled_eq r hlt
  unused id hfree := by
    apply hP.unused id
    intro r hr
    rw [← h.read_alloc_of_ne o hr.ne]
    exact hfree r (Nat.lt_succ_of_lt hr)
  quantity_eq r hr := by
    rcases hr with hr | hr
    · rw [h.read_alloc_of_ne o (hinv.allocated r hr).ne]
      exact hP.quantity_eq r (Or.inl hr)
    · contradiction
  truthful := hP.truthful

/-- The event that gives an order in flight its quantity. -/
theorem set_quantity (hP : Conserved none es h b) (hinv : BookInv h b)
    (hflight : InFlight h b r) {e : EngineEvent} (hfill : ∀ id, e.fillQty id = 0)
    (hset : ∀ id, e.setsQty id =
      if (h.read r).orderId = id then some (h.read r).quantity else none)
    (htruthful : e.Truthful es) : Conserved (some r) (es ++ [e]) h b := by
  have hfilled : ∀ id, filledIn (es ++ [e]) id = filledIn es id := by
    intro id
    simp [filledIn, hfill]
  exact
    { ids_unique := hP.ids_unique
      filled_eq := fun x hx => by rw [hfilled, hP.filled_eq x hx]
      unused := fun id hid => by rw [hfilled, hP.unused id hid]
      quantity_eq := fun x hx => by
        rw [quantitySet_concat, hset]
        rcases hx with hx | hx
        · have hne := hinv.orderId_ne_of_inFlight hflight hx
          rw [if_neg hne.symm]
          exact hP.quantity_eq x (Or.inl hx)
        · cases hx
          simp
      truthful := hP.truthful.concat htruthful }

/-- Taking an order out of the book. -/
theorem removeFromBook (hP : Conserved none es h b) (hinv : BookInv h b)
    (hr : b.Resting r) :
    Conserved none (es ++ (b.removeFromBook h r).2) h (b.removeFromBook h r).1 := by
  rcases OrderBook.removeFromBook_spec hinv hr with ⟨e, level, he⟩
  rw [he.events_eq]
  have hmoved : Conserved none es h (b.removeFromBook h r).1 := by
    refine hP.transport rfl (fun _ => rfl) (fun _ => rfl) ?_
    intro x hx
    rcases hx with hx | hx
    · exact ⟨Or.inl ((OrderBook.resting_removeFromBook hinv hr x).mp hx).1, rfl⟩
    · contradiction
  exact hmoved.concat_other (fun _ => rfl) (fun _ => rfl) trivial

/-- Cancelling what is left of an order that is in no level. -/
theorem cancelRest (hP : Conserved hand es h b) (halloc : r < h.next) :
    Conserved none (es ++ (b.cancelRest h r).events) (b.cancelRest h r).heap b := by
  have hfilled := hP.filled_eq r halloc
  have hmarked : Conserved none es (b.cancelRest h r).heap b := by
    refine hP.transport rfl ?_ ?_ ?_
    · exact b.cancelRest_read Order.orderId (fun _ => rfl) h r
    · exact b.cancelRest_read Order.filledQty (fun _ => rfl) h r
    · intro x hx
      constructor
      · rcases hx with hx | hx
        · exact Or.inl hx
        · contradiction
      · exact b.cancelRest_read Order.quantity (fun _ => rfl) h r x
  apply hmarked.concat_other (fun _ => rfl) (fun _ => rfl)
  simp only [EngineEvent.Truthful, OrderBook.cancelledEvent, Heap.read_modify_self]
  exact hfilled

end Conserved

/-- One side of a fill report is truthful as soon as the order is, and wants at
least the traded quantity. -/
theorem reportsSide_fill {es : List EngineEvent} {fill : OrderFilled} {o : Order}
    (hfilled : o.filledQty = filledIn es o.orderId)
    (hquantity : quantitySet es o.orderId = some o.quantity)
    (hle : fill.tradeQty ≤ o.remainingQty)
    (hside : fill.makerOrderId = o.orderId ∨ fill.takerOrderId = o.orderId) :
    ReportsSide es fill o.orderId (o.fill fill.tradeQty).filledQty
      (o.fill fill.tradeQty).remainingQty (o.fill fill.tradeQty).status where
  cum_eq := by
    have hsum : filledIn [.orderFilled fill] o.orderId = fill.tradeQty := by
      simp [filledIn, EngineEvent.fillQty, hside]
    rw [filledIn_append, hsum, ← hfilled]
    rfl
  quantity_eq := by
    rw [hquantity]
    simp [Order.fill, Order.remainingQty]
  leaves_nonneg := by
    rw [Order.remainingQty_fill]
    omega
  status_eq := by
    rw [Order.status_fill, Order.remainingQty_fill]
    apply if_congr ?_ rfl rfl
    omega

/-- A trade counts for its maker and its taker. -/
theorem OrderBook.Fill.filledIn_events {s : BookSide} {stop : Price → Bool} {t : OrderRef}
    {h : Heap Order} {b : OrderBook} (f : OrderBook.Fill s stop t h b) (id : OrderId) :
    filledIn f.events id =
      if (h.read f.maker).orderId = id ∨ (h.read t).orderId = id then f.qty else 0 := by
  simp [filledIn, OrderBook.Fill.events, EngineEvent.fillQty, OrderBook.tradedFill,
    Order.fill, OrderBook.Fill.qty]

/-- A trade books its quantity on its two orders and reports it. -/
theorem Conserved.traded {es : List EngineEvent} {s : BookSide} {stop : Price → Bool}
    {t : OrderRef} {h : Heap Order} {b : OrderBook} (hP : Conserved (some t) es h b)
    (hinv : BookInv h b) (hflight : InFlight h b t) (f : OrderBook.Fill s stop t h b) :
    Conserved (some t) (es ++ f.events) f.heap f.book := by
  have hne := f.maker_ne_taker hinv hflight
  have hmaker := hinv.allocated _ f.maker_resting
  have hidne : (h.read f.maker).orderId ≠ (h.read t).orderId :=
    hinv.orderId_ne_of_inFlight hflight f.maker_resting
  have hfilled : ∀ id, filledIn (es ++ f.events) id = filledIn es id +
      if (h.read f.maker).orderId = id ∨ (h.read t).orderId = id then f.qty else 0 := by
    intro id
    rw [filledIn_append, f.filledIn_events]
  have hquantity : ∀ id, quantitySet (es ++ f.events) id = quantitySet es id := by
    intro id
    simp [quantitySet, OrderBook.Fill.events, EngineEvent.setsQty]
  exact
    { ids_unique := hP.ids_unique.congr_ids rfl f.read_orderId
      filled_eq := fun r hr => by
        rw [f.read_orderId, hfilled, ← hP.filled_eq r hr]
        by_cases hrt : r = t
        · subst hrt
          simp [Order.fill]
        · by_cases hrm : r = f.maker
          · subst hrm
            rw [f.read_maker hne]
            simp [Order.fill]
          · rw [f.read_of_ne hrt hrm, if_neg]
            · simp
            · rintro (hid | hid)
              · exact hrm (hP.ids_unique _ hmaker r hr hid).symm
              · exact hrt (hP.ids_unique _ hflight.allocated r hr hid).symm
      unused := fun id hid => by
        have hfree : ∀ r < h.next, (h.read r).orderId ≠ id := by
          intro r hr
          rw [← f.read_orderId]
          exact hid r hr
        rw [hfilled, hP.unused id hfree, if_neg]
        · rfl
        · rintro (heq | heq)
          · exact hfree _ hmaker heq
          · exact hfree _ hflight.allocated heq
      quantity_eq := fun r hr => by
        have hterms := Order.field_of_terms Order.quantity (f.read_terms r) fun _ => rfl
        rw [f.read_orderId, hquantity, hterms]
        apply hP.quantity_eq
        rcases hr with hr | hr
        · exact Or.inl ((f.resting_iff hinv r).mp hr).1
        · exact Or.inr hr
      truthful := by
        have hfill : EngineEvent.Truthful es
            (.orderFilled (b.tradedFill h f.price t f.maker)) := by
          refine ⟨f.qty_pos hinv, ?_, ?_⟩
          · exact reportsSide_fill (hP.filled_eq _ hmaker)
              (hP.quantity_eq _ (Or.inl f.maker_resting)) f.qty_le_maker (Or.inl rfl)
          · exact reportsSide_fill (hP.filled_eq _ hflight.allocated)
              (hP.quantity_eq _ (Or.inr rfl)) f.qty_le_taker (Or.inr rfl)
        have hupdate : EngineEvent.Truthful
            (es ++ [.orderFilled (b.tradedFill h f.price t f.maker)])
            (.bookUpdate (f.edit.report b)) := trivial
        have hreports := (hP.truthful.concat hfill).concat hupdate
        rw [List.append_assoc] at hreports
        exact hreports }

/-- Every move keeps the quantities. -/
theorem conserved_law : BookLaw (fun _ _ => True) Conserved where
  refused _ _ hP := hP.concat_other (fun _ => rfl) (fun _ => rfl) trivial
  rejected _ hinv hfresh _ hP :=
    (hP.alloc hinv hfresh).concat_other (fun _ => rfl) (fun _ => rfl) trivial
  accepted := by
    intro es h b o hinv hfresh _ hP
    have hflight := hinv.inFlight_alloc hfresh
    refine (hP.alloc hinv hfresh).set_quantity (hinv.alloc o) hflight (fun _ => rfl) ?_ trivial
    intro id
    rw [h.read_alloc_next]
    rfl
  withdrawn := by
    intro es h b r hinv hr _ hP
    rw [← List.append_assoc]
    exact (hP.removeFromBook hinv hr).cancelRest (hinv.allocated r hr)
  replaced := by
    intro es h b r newPrice newQty newClOrdId hinv hr _ hP
    have hmoved := hP.removeFromBook hinv hr
    have hflight := hinv.inFlight_removeFromBook hr
    have hfree := (hinv.removeFromBook hr).not_resting_of_inFlight hflight
    have hrewritten : Conserved none (es ++ (b.removeFromBook h r).2)
        (h.modify r fun o => OrderBook.modifiedOrder o newPrice newQty newClOrdId)
        (b.removeFromBook h r).1 := by
      refine hmoved.transport rfl ?_ ?_ ?_
      · exact OrderBook.modified_read Order.orderId (fun _ => rfl) h r
      · exact OrderBook.modified_read Order.filledQty (fun _ => rfl) h r
      · intro x hx
        refine ⟨hx, ?_⟩
        rcases hx with hx | hx
        · rw [h.read_modify_of_ne]
          rintro rfl
          exact hfree hx
        · contradiction
    rw [← List.append_assoc]
    rcases hinv.modified hr newPrice newQty newClOrdId with ⟨hinv', hflight'⟩
    refine hrewritten.set_quantity hinv' hflight' (fun _ => rfl) ?_ ?_
    · intro id
      rw [h.read_modify_self]
      rfl
    · exact hmoved.filled_eq r (hinv.allocated r hr)
  traded := by
    intro es h b t hinv hflight f hP
    exact hP.traded hinv hflight f
  entered := by
    intro es h b r hinv _ _ _ _ hP
    rcases OrderBook.insertResting_spec b h r with ⟨e, he⟩
    rw [he.events_eq]
    have hmoved : Conserved none es h (b.insertResting h r).1 := by
      refine hP.transport rfl (fun _ => rfl) (fun _ => rfl) ?_
      intro x hx
      rcases hx with hx | hx
      · rcases (OrderBook.resting_insertResting hinv x).mp hx with rfl | hx
        · exact ⟨Or.inr rfl, rfl⟩
        · exact ⟨Or.inl hx, rfl⟩
      · contradiction
    exact hmoved.concat_other (fun _ => rfl) (fun _ => rfl) trivial
  cancelled := by
    intro es h b r hinv hflight _ hP
    exact hP.cancelRest hflight.allocated
  dropped := by
    intro es h b r _ _ _ hP
    refine hP.transport rfl (fun _ => rfl) (fun _ => rfl) ?_
    intro x hx
    rcases hx with hx | hx
    · exact ⟨Or.inl hx, rfl⟩
    · contradiction

theorem conserved_empty (securityId : SecurityId) :
    Conserved none [] (BookState.empty securityId).heap
      (BookState.empty securityId).book where
  ids_unique r hr := (Nat.not_lt_zero r hr).elim
  filled_eq r hr := (Nat.not_lt_zero r hr).elim
  unused _ _ := rfl
  quantity_eq := heldOrders_empty (fun o => quantitySet [] o.orderId = some o.quantity) securityId
  truthful := eachAfter_nil

/-- After every run the filled quantity of every order is the sum of its trades,
and every event reports the quantities of the history before it. -/
theorem conservation_of_run (securityId : SecurityId) (ops : List BookOp)
    (hadmits : BookState.machine.Admits (fun s op => op.Fresh s) (.empty securityId) ops) :
    let r := BookState.machine.run (.empty securityId) ops
    (∀ x < r.1.heap.next,
      (r.1.heap.read x).filledQty = filledIn r.2 (r.1.heap.read x).orderId) ∧
      ∀ before e after, r.2 = before ++ e :: after → e.Truthful before := by
  have hrun := conserved_law.run (BookInv.empty .empty securityId)
    (conserved_empty securityId) (hadmits.mono fun s op hop => ⟨hop, trivial⟩)
  exact ⟨hrun.1.filled_eq, hrun.1.truthful⟩

/-- A partial fill, a modification to a smaller quantity, and a second fill. -/
theorem conservation_of_reduced_bid :
    let ops : List BookOp :=
      [.add { orderId := 1, side := .buy, price := ⟨100⟩, quantity := 10 },
        .add { orderId := 2, side := .sell, price := ⟨100⟩, quantity := 4 },
        .modify 1 ⟨100⟩ 6 [], .add { orderId := 3, side := .sell, price := ⟨99⟩, quantity := 5 }]
    let r := BookState.machine.run (.empty 7) ops
    (∀ x < r.1.heap.next,
      (r.1.heap.read x).filledQty = filledIn r.2 (r.1.heap.read x).orderId) ∧
      ∀ before e after, r.2 = before ++ e :: after → e.Truthful before :=
  conservation_of_run 7 _ (by decide)

end SimCme
