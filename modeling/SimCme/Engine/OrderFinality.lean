import SimCme.Engine.EngineRuns

/-!
# Terminal events are final

An order ends with a fill that leaves nothing or with a cancellation.  Along
every run of the engine no later event speaks of an order that has ended, and
requests for it are turned down.

Main results:

- Theorem {lit}`final_law`: every move of a book keeps ended orders ended.
- Theorem {lit}`terminal_events_final`: the same for whole runs of the engine.
-/

namespace SimCme

open Library

/-- The events that end an order: a fill that leaves nothing on its side, or a
cancellation. -/
def EngineEvent.Terminal (id : OrderId) : EngineEvent → Prop
  | .orderFilled e =>
      e.makerOrderId = id ∧ e.makerLeavesQty = 0 ∨ e.takerOrderId = id ∧ e.takerLeavesQty = 0
  | .orderCancelled e => e.orderId = id
  | _ => False

instance (id : OrderId) : (e : EngineEvent) → Decidable (e.Terminal id)
  | .orderAccepted _ => .isFalse not_false
  | .orderRejected _ => .isFalse not_false
  | .orderFilled e =>
      inferInstanceAs (Decidable (e.makerOrderId = id ∧ e.makerLeavesQty = 0 ∨
        e.takerOrderId = id ∧ e.takerLeavesQty = 0))
  | .orderCancelled e => inferInstanceAs (Decidable (e.orderId = id))
  | .orderModified _ => .isFalse not_false
  | .orderCancelRejected _ => .isFalse not_false
  | .bookUpdate _ => .isFalse not_false

theorem EngineEvent.Terminal.mentions {id : OrderId} {e : EngineEvent}
    (hterminal : e.Terminal id) : e.Mentions id := by
  cases e with
  | orderFilled e => exact hterminal.imp And.left And.left
  | orderCancelled e => exact hterminal
  | _ => exact hterminal.elim

/-- The second event does not speak of an order the first one ended. -/
def Respects (a b : EngineEvent) : Prop :=
  ∀ id, a.Terminal id → ¬b.Mentions id

/-- No order is spoken of after it ended, every order spoken of is known, and the
orders that can still trade have not ended. -/
structure Final (hand : Option OrderRef) (es : List EngineEvent) (h : Heap Order)
    (b : OrderBook) : Prop where
  final : es.Pairwise Respects
  known : ∀ e ∈ es, ∀ id, e.Mentions id → ∃ r < h.next, (h.read r).orderId = id
  live : ∀ r, b.Resting r ∨ hand = some r ∧ 0 < (h.read r).remainingQty →
    ∀ e ∈ es, ¬e.Terminal (h.read r).orderId

namespace Final

variable {hand hand' : Option OrderRef} {es new : List EngineEvent} {h h' : Heap Order}
  {b b' : OrderBook} {r : OrderRef}

/-- A move whose events speak of live orders only, and end none that stays live. -/
theorem advance (hP : Final hand es h b) (hnext : h.next ≤ h'.next)
    (hid : ∀ r < h.next, (h'.read r).orderId = (h.read r).orderId)
    (hnew : new.Pairwise Respects)
    (hquiet : ∀ e ∈ new, ∀ id, e.Mentions id →
      (∃ r < h'.next, (h'.read r).orderId = id) ∧ ∀ x ∈ es, ¬x.Terminal id)
    (hlive : ∀ r, b'.Resting r ∨ hand' = some r ∧ 0 < (h'.read r).remainingQty →
      (∀ x ∈ es, ¬x.Terminal (h'.read r).orderId) ∧
        ∀ x ∈ new, ¬x.Terminal (h'.read r).orderId) :
    Final hand' (es ++ new) h' b' where
  final := by
    rw [List.pairwise_append]
    refine ⟨hP.final, hnew, ?_⟩
    intro a ha e he id hterminal hmentions
    exact (hquiet e he id hmentions).2 a ha hterminal
  known e he id hmentions := by
    rcases List.mem_append.mp he with he | he
    · rcases hP.known e he id hmentions with ⟨r, hr, hrid⟩
      exact ⟨r, lt_of_lt_of_le hr hnext, (hid r hr).trans hrid⟩
    · exact (hquiet e he id hmentions).1
  live r hr e he := by
    rcases List.mem_append.mp he with he | he
    · exact (hlive r hr).1 e he
    · exact (hlive r hr).2 e he

/-- A fresh id has not been spoken of. -/
theorem not_terminal_of_fresh {o : Order} (hP : Final hand es h b)
    (hfresh : FreshOrder h o) : ∀ x ∈ es, ¬x.Terminal o.orderId := by
  intro x hx hterminal
  rcases hP.known x hx _ hterminal.mentions with ⟨r, hr, hid⟩
  exact hfresh.2 r hr hid

end Final

/-- The orders a trade ends: the maker if it is completed, and the taker if
nothing of it is left. -/
theorem OrderBook.Fill.terminal_cases {s : BookSide} {stop : Price → Bool} {t : OrderRef}
    {h : Heap Order} {b : OrderBook} (f : OrderBook.Fill s stop t h b) {x : EngineEvent}
    (hx : x ∈ f.events) {id : OrderId} (hterminal : x.Terminal id) :
    (h.read f.maker).orderId = id ∧ f.completes = true ∨
      (h.read t).orderId = id ∧ (f.heap.read t).remainingQty = 0 := by
  simp only [OrderBook.Fill.events, List.mem_cons, List.not_mem_nil, or_false] at hx
  rcases hx with rfl | rfl
  · rcases hterminal with ⟨hid, hleaves⟩ | ⟨hid, hleaves⟩
    · refine Or.inl ⟨hid, ?_⟩
      apply (Order.isFullyFilled_iff _).mpr
      exact le_of_eq hleaves
    · refine Or.inr ⟨hid, ?_⟩
      rw [f.read_taker]
      exact hleaves
  · exact hterminal.elim

/-- A cancellation ends the order it takes out of the book. -/
theorem Final.withdrawn {es : List EngineEvent} {h : Heap Order} {b : OrderBook} {r : OrderRef}
    (hinv : BookInv h b) (hr : b.Resting r) (hP : Final none es h b) :
    Final none
      (es ++ ((b.removeFromBook h r).2 ++ ((b.removeFromBook h r).1.cancelRest h r).events))
      ((b.removeFromBook h r).1.cancelRest h r).heap (b.removeFromBook h r).1 := by
  rcases OrderBook.removeFromBook_spec hinv hr with ⟨e, level, he⟩
  have hid := (b.removeFromBook h r).1.cancelRest_read Order.orderId (fun _ => rfl) h r
  refine hP.advance le_rfl (fun x _ => hid x) ?_ ?_ ?_
  · simp [he.events_eq, OrderBook.cancelRest, Respects, EngineEvent.Terminal]
  · intro x hx id hmentions
    rcases he.mem_events_append.mp hx with rfl | rfl
    · exact hmentions.elim
    · have hrid : (h.read r).orderId = id := by
        simpa [EngineEvent.Mentions, OrderBook.cancelledEvent] using hmentions
      subst hrid
      exact ⟨⟨r, hinv.allocated r hr, hid r⟩, hP.live r (Or.inl hr)⟩
  · intro x hx
    rcases hx with hx | ⟨hx, -⟩
    · have hx' := (OrderBook.resting_removeFromBook hinv hr x).mp hx
      rw [hid]
      refine ⟨hP.live x (Or.inl hx'.1), ?_⟩
      intro y hy hterminal
      rcases he.mem_events_append.mp hy with rfl | rfl
      · exact hterminal.elim
      · have heq : (h.read r).orderId = (h.read x).orderId := by
          simpa [EngineEvent.Terminal, OrderBook.cancelledEvent] using hterminal
        exact hx'.2 (hinv.orderId_injective hx'.1 hr heq.symm)
    · contradiction

/-- A modification ends nothing. -/
theorem Final.replaced {es : List EngineEvent} {h : Heap Order} {b : OrderBook} {r : OrderRef}
    {newPrice : Price} {newQty : Int} {newClOrdId : ClOrdId} (hinv : BookInv h b)
    (hr : b.Resting r) (hP : Final none es h b) :
    Final (some r)
      (es ++ ((b.removeFromBook h r).2 ++
        [OrderBook.modifiedEvent
          (OrderBook.modifiedOrder (h.read r) newPrice newQty newClOrdId) newPrice newQty]))
      (h.modify r fun o => OrderBook.modifiedOrder o newPrice newQty newClOrdId)
      (b.removeFromBook h r).1 := by
  rcases OrderBook.removeFromBook_spec hinv hr with ⟨e, level, he⟩
  have hid := OrderBook.modified_read (p := newPrice) (q := newQty) (c := newClOrdId)
    Order.orderId (fun _ => rfl) h r
  refine hP.advance le_rfl (fun x _ => hid x) ?_ ?_ ?_
  · simp [he.events_eq, Respects, EngineEvent.Terminal]
  · intro x hx id hmentions
    rcases he.mem_events_append.mp hx with rfl | rfl
    · exact hmentions.elim
    · have hrid : (h.read r).orderId = id := hmentions
      subst hrid
      exact ⟨⟨r, hinv.allocated r hr, hid r⟩, hP.live r (Or.inl hr)⟩
  · intro x hx
    rw [hid]
    constructor
    · rcases hx with hx | ⟨hx, -⟩
      · exact hP.live x (Or.inl ((OrderBook.resting_removeFromBook hinv hr x).mp hx).1)
      · cases hx
        exact hP.live r (Or.inl hr)
    · simp [he.events_eq, EngineEvent.Terminal, OrderBook.modifiedEvent]

/-- A trade ends the orders it completes. -/
theorem Final.traded {es : List EngineEvent} {h : Heap Order} {b : OrderBook} {t : OrderRef}
    (hinv : BookInv h b) (hflight : InFlight h b t)
    (f : OrderBook.Fill (OrderBook.takerSide (h.read t)) (OrderBook.takerStop (h.read t)) t h b)
    (hP : Final (some t) es h b) : Final (some t) (es ++ f.events) f.heap f.book := by
  have hne := f.maker_ne_taker hinv hflight
  refine hP.advance le_rfl (fun x _ => f.read_orderId x) ?_ ?_ ?_
  · simp [OrderBook.Fill.events, Respects, EngineEvent.Mentions]
  · intro x hx id hmentions
    simp only [OrderBook.Fill.events, List.mem_cons, List.not_mem_nil, or_false] at hx
    rcases hx with rfl | rfl
    · rcases hmentions with hid | hid
      · have hmaker : (h.read f.maker).orderId = id := hid
        subst hmaker
        exact ⟨⟨f.maker, hinv.allocated _ f.maker_resting, f.read_orderId _⟩,
          hP.live f.maker (Or.inl f.maker_resting)⟩
      · have htaker : (h.read t).orderId = id := hid
        subst htaker
        exact ⟨⟨t, hflight.allocated, f.read_orderId _⟩,
          hP.live t (Or.inr ⟨rfl, f.taker_pos⟩)⟩
    · exact hmentions.elim
  · intro x hx
    rcases hx with hx | ⟨hx, hpos⟩
    · have hx' := (f.resting_iff hinv x).mp hx
      rw [f.read_orderId]
      refine ⟨hP.live x (Or.inl hx'.1), ?_⟩
      intro y hy hterminal
      rcases f.terminal_cases hy hterminal with ⟨hid, hfull⟩ | ⟨hid, -⟩
      · exact hx'.2 ⟨hfull, hinv.orderId_injective hx'.1 f.maker_resting hid.symm⟩
      · exact hinv.orderId_ne_of_inFlight hflight hx'.1 hid.symm
    · cases hx
      rw [f.read_orderId]
      refine ⟨hP.live t (Or.inr ⟨rfl, f.taker_pos⟩), ?_⟩
      intro y hy hterminal
      rcases f.terminal_cases hy hterminal with ⟨hid, -⟩ | ⟨-, hzero⟩
      · exact hinv.orderId_ne_of_inFlight hflight f.maker_resting hid
      · omega

/-- Every move keeps ended orders ended. -/
theorem final_law : BookLaw (fun _ _ => True) Final where
  refused := by
    intro es h b e _ hP
    refine hP.advance le_rfl (fun _ _ => rfl) (List.pairwise_singleton _ _) ?_ ?_
    · simp [EngineEvent.Mentions]
    · intro r hr
      exact ⟨hP.live r hr, by simp [EngineEvent.Terminal]⟩
  rejected := by
    intro es h b o e hinv _ _ hP
    refine hP.advance (Nat.le_succ _) ?_ (List.pairwise_singleton _ _) ?_ ?_
    · intro r hr
      rw [h.read_alloc_of_ne o hr.ne]
    · simp [EngineEvent.Mentions]
    · intro r hr
      rcases hr with hr | ⟨hr, -⟩
      · rw [h.read_alloc_of_ne o (hinv.allocated r hr).ne]
        exact ⟨hP.live r (Or.inl hr), by simp [EngineEvent.Terminal]⟩
      · contradiction
  accepted := by
    intro es h b o hinv hfresh _ hP
    refine hP.advance (Nat.le_succ _) ?_ (List.pairwise_singleton _ _) ?_ ?_
    · intro r hr
      rw [h.read_alloc_of_ne o hr.ne]
    · intro e he id hmentions
      rw [List.mem_singleton.mp he] at hmentions
      have hid : o.orderId = id := hmentions
      subst hid
      refine ⟨⟨h.next, Nat.lt_succ_self _, by rw [h.read_alloc_next]⟩, ?_⟩
      exact hP.not_terminal_of_fresh hfresh
    · intro r hr
      rcases hr with hr | ⟨hr, -⟩
      · rw [h.read_alloc_of_ne o (hinv.allocated r hr).ne]
        exact ⟨hP.live r (Or.inl hr), by simp [EngineEvent.Terminal, OrderBook.acceptedEvent]⟩
      · cases hr
        rw [h.read_alloc_next]
        exact ⟨hP.not_terminal_of_fresh hfresh,
          by simp [EngineEvent.Terminal, OrderBook.acceptedEvent]⟩
  withdrawn := fun hinv hr _ hP => hP.withdrawn hinv hr
  replaced := fun hinv hr _ hP => hP.replaced hinv hr
  traded := fun hinv hflight f hP => hP.traded hinv hflight f
  entered := by
    intro es h b r hinv _ _ hpos _ hP
    rcases OrderBook.insertResting_spec b h r with ⟨e, he⟩
    rw [he.events_eq]
    refine hP.advance le_rfl (fun _ _ => rfl) (List.pairwise_singleton _ _) ?_ ?_
    · simp [EngineEvent.Mentions]
    · intro x hx
      refine ⟨?_, by simp [EngineEvent.Terminal]⟩
      rcases hx with hx | ⟨hx, -⟩
      · rcases (OrderBook.resting_insertResting hinv x).mp hx with rfl | hx
        · exact hP.live x (Or.inr ⟨rfl, hpos⟩)
        · exact hP.live x (Or.inl hx)
      · contradiction
  cancelled := by
    intro es h b r hinv hflight hpos hP
    have hid := b.cancelRest_read Order.orderId (fun _ => rfl) h r
    have hcancelled : ∀ id, (OrderBook.cancelledEvent
        ((b.cancelRest h r).heap.read r)).Mentions id → (h.read r).orderId = id := by
      intro id hmentions
      rw [← hid r]
      exact hmentions
    refine hP.advance le_rfl (fun x _ => hid x) (List.pairwise_singleton _ _) ?_ ?_
    · intro x hx id hmentions
      rw [List.mem_singleton.mp hx] at hmentions
      have hrid := hcancelled id hmentions
      subst hrid
      exact ⟨⟨r, hflight.allocated, hid r⟩, hP.live r (Or.inr ⟨rfl, hpos⟩)⟩
    · intro x hx
      rcases hx with hx | ⟨hx, -⟩
      · rw [hid]
        refine ⟨hP.live x (Or.inl hx), ?_⟩
        intro y hy hterminal
        rw [List.mem_singleton.mp hy] at hterminal
        exact hinv.orderId_ne_of_inFlight hflight hx (hcancelled _ hterminal.mentions).symm
      · contradiction
  dropped := by
    intro es h b r _ _ _ hP
    refine ⟨hP.final, hP.known, ?_⟩
    intro x hx
    rcases hx with hx | ⟨hx, -⟩
    · exact hP.live x (Or.inl hx)
    · contradiction

theorem final_engineLaw : EngineLaw (fun _ _ _ => True) fun _ => Final where
  law _ := final_law
  turnedAway := by
    intro s es h b e _ hP
    refine hP.advance le_rfl (fun _ _ => rfl) (List.pairwise_singleton _ _) ?_ ?_
    · simp [EngineEvent.Mentions]
    · intro r hr
      exact ⟨hP.live r hr, by simp [EngineEvent.Terminal]⟩
  frame := by
    intro s s' es new h h' b b' _ hinv _ hsecurity _ hread _ hmentions hP hactive
    refine ⟨hactive.final, hactive.known, ?_⟩
    intro r hr
    rcases hr with hr | ⟨hr, -⟩
    · have hlt := hinv.allocated r hr
      rw [hread r hlt (hsecurity r hr)]
      intro x hx hterminal
      rcases List.mem_append.mp hx with hx | hx
      · exact hP.live r (Or.inl hr) x hx hterminal
      · exact hmentions r hlt (hsecurity r hr) x hx hterminal.mentions
    · contradiction

theorem final_empty (s : SecurityId) : Final none [] .empty { securityId := s } where
  final := .nil
  known := by simp
  live := by simp

/-! ## Requests for an order that is in no book -/

namespace FullMatchingEngine

/-- A cancel request for an id in no book is turned down. -/
theorem cancelOrder_of_absent {e : FullMatchingEngine} {id : OrderId}
    (habsent : ∀ s, (e.bookAt s).ordersById id = none) (securityId : SecurityId)
    (sessionUuid : SessionUuid) :
    ∃ x, (e.cancelOrder id securityId sessionUuid).events = [.orderCancelRejected x] ∧
      x.orderId = id := by
  have hnone := habsent (e.routeSecurity id securityId)
  cases hbook : e.orderBooks (e.routeSecurity id securityId) with
  | none =>
      simp only [cancelOrder, hbook]
      refine ⟨_, rfl, ?_⟩
      rfl
  | some book =>
      rw [bookAt_of_some hbook] at hnone
      simp only [cancelOrder, hbook, OrderBook.cancelOrder, hnone]
      refine ⟨_, rfl, ?_⟩
      rfl

/-- A modify request for an id in no book is turned down. -/
theorem modifyOrder_of_absent {e : FullMatchingEngine} {id : OrderId}
    (habsent : ∀ s, (e.bookAt s).ordersById id = none) (securityId : SecurityId)
    (newPrice : Price) (newQty : Int) (newClOrdId : ClOrdId) :
    ∃ x, (e.modifyOrder id securityId newPrice newQty newClOrdId).events =
      [.orderCancelRejected x] ∧ x.orderId = id := by
  have hnone := habsent (e.routeSecurity id securityId)
  cases hbook : e.orderBooks (e.routeSecurity id securityId) with
  | none =>
      simp only [modifyOrder, hbook]
      refine ⟨_, rfl, ?_⟩
      rfl
  | some book =>
      rw [bookAt_of_some hbook] at hnone
      simp only [modifyOrder, hbook, OrderBook.modifyOrder, hnone]
      refine ⟨_, rfl, ?_⟩
      rfl

end FullMatchingEngine

/-- Terminal events are final in every run: an order ends at most once, no later
event speaks of it, it is in no book, and requests for it are turned down. -/
theorem terminal_events_final (ops : List EngineOp)
    (hadmits : FullMatchingEngine.machine.Admits (fun _ op => op.Fresh) {} ops) :
    let r := FullMatchingEngine.machine.run {} ops
    (∀ id, r.2.Pairwise fun x y => x.Terminal id → ¬y.Terminal id ∧ ¬y.Mentions id) ∧
      ∀ id, (∃ x ∈ r.2, x.Terminal id) →
        (∀ s book, r.1.orderBooks s = some book → book.ordersById id = none ∧
          ∀ x, book.Resting x → (r.1.heap.read x).orderId ≠ id) ∧
        (∀ securityId sessionUuid, ∃ x,
          (r.1.cancelOrder id securityId sessionUuid).events = [.orderCancelRejected x] ∧
            x.orderId = id) ∧
        ∀ securityId newPrice newQty newClOrdId, ∃ x,
          (r.1.modifyOrder id securityId newPrice newQty newClOrdId).events =
            [.orderCancelRejected x] ∧ x.orderId = id := by
  rcases final_engineLaw.run final_empty
    (hadmits.mono fun e op hop => ⟨hop, fun _ _ _ => trivial⟩) with ⟨hinv, hfinal⟩
  constructor
  · intro id
    apply (hfinal 0).final.imp
    intro x y hrespects hterminal
    exact ⟨fun hy => hrespects id hterminal hy.mentions, hrespects id hterminal⟩
  · rintro id ⟨x, hx, hterminal⟩
    have hnot : ∀ s r, ((FullMatchingEngine.machine.run {} ops).1.bookAt s).Resting r →
        ((FullMatchingEngine.machine.run {} ops).1.heap.read r).orderId ≠ id := by
      intro s r hr hid
      subst hid
      exact (hfinal s).live r (Or.inl hr) x hx hterminal
    have habsent : ∀ s, ((FullMatchingEngine.machine.run {} ops).1.bookAt s).ordersById id =
        none := by
      intro s
      cases hindexed : ((FullMatchingEngine.machine.run {} ops).1.bookAt s).ordersById id with
      | none => rfl
      | some r =>
          rcases ((hinv.book_inv s).indexed id r).mp hindexed with ⟨hr, hid⟩
          exact (hnot s r hr hid).elim
    refine ⟨?_, FullMatchingEngine.cancelOrder_of_absent habsent,
      FullMatchingEngine.modifyOrder_of_absent habsent⟩
    intro s book hbook
    rw [← FullMatchingEngine.bookAt_of_some hbook]
    exact ⟨habsent s, hnot s⟩

/-- A bid is completed by two asks, and the second ask is cancelled. -/
theorem terminal_events_final_of_two_asks :
    let ops : List EngineOp :=
      [.addInstrument 7,
        .submit { securityId := 7, side := .buy, price := ⟨100⟩, quantity := 5 } 10,
        .submit { securityId := 7, side := .sell, price := ⟨100⟩, quantity := 3 } 11,
        .submit { securityId := 7, side := .sell, price := ⟨100⟩, quantity := 4 } 12,
        .cancel 3 7 1]
    let r := FullMatchingEngine.machine.run {} ops
    (∀ id, r.2.Pairwise fun x y => x.Terminal id → ¬y.Terminal id ∧ ¬y.Mentions id) ∧
      ∀ id, (∃ x ∈ r.2, x.Terminal id) →
        (∀ s book, r.1.orderBooks s = some book → book.ordersById id = none ∧
          ∀ x, book.Resting x → (r.1.heap.read x).orderId ≠ id) ∧
        (∀ securityId sessionUuid, ∃ x,
          (r.1.cancelOrder id securityId sessionUuid).events = [.orderCancelRejected x] ∧
            x.orderId = id) ∧
        ∀ securityId newPrice newQty newClOrdId, ∃ x,
          (r.1.modifyOrder id securityId newPrice newQty newClOrdId).events =
            [.orderCancelRejected x] ∧ x.orderId = id :=
  terminal_events_final _ (by decide)

end SimCme
