import SimCme.Engine.Conservation
import SimCme.Engine.EngineRuns

/-!
# What a request leaves alone

A request cancels or modifies the order it names and trades one order.  Every
other resting order keeps its terms; it can only be filled, by trades with that
one order that the events report, and it leaves its book only when nothing of it
is left.

Main results:

- Theorem {lit}`isolated_law`: every move of a book leaves the other orders alone.
- Theorem {lit}`isolated_engineLaw`: so does every request on every book.
-/

namespace SimCme

open Library

/-- The calls that cancel or modify named orders only and bring takers of one kind
only. -/
def BookOp.ActsOn (named : OrderId → Prop) (takers : OrderId → SessionUuid → Prop)
    (s : BookState) : BookOp → Prop
  | .add o => takers o.orderId o.sessionUuid
  | .cancel orderId => named orderId
  | .modify orderId _ _ _ =>
      named orderId ∧ ∀ r, s.book.Resting r → (s.heap.read r).orderId = orderId →
        takers orderId (s.heap.read r).sessionUuid

/-- What trades alone make of an order: its terms stay, and its filled quantity
grows by the trades reported. -/
structure TradedOnly (es : List EngineEvent) (o o' : Order) : Prop where
  terms_eq : o'.terms = o.terms
  filled_eq : o'.filledQty = o.filledQty + filledIn es o.orderId

/-- Since {lit}`s`, the named orders and the new one took all the trades, and the
orders that rested there under other ids were left alone but for those trades. -/
structure Isolated (named : OrderId → Prop) (takers : OrderId → SessionUuid → Prop)
    (s : BookState) (hand : Option OrderRef) (es : List EngineEvent) (h : Heap Order)
    (b : OrderBook) : Prop where
  next_le : s.heap.next ≤ h.next
  ids_unique : UniqueIds h
  hand_apart : ∀ t, hand = some t → s.heap.next ≤ t ∨ named (h.read t).orderId
  hand_taker : ∀ t, hand = some t → takers (h.read t).orderId (h.read t).sessionUuid
  fill_taker : ∀ f, .orderFilled f ∈ es → takers f.takerOrderId f.takerSessionUuid
  kept : ∀ r, s.book.Resting r → ¬named (s.heap.read r).orderId →
    TradedOnly es (s.heap.read r) (h.read r) ∧
      (b.Resting r ∨ (h.read r).remainingQty = 0)

namespace Isolated

variable {named : OrderId → Prop} {takers : OrderId → SessionUuid → Prop} {s : BookState}
  {hand hand' : Option OrderRef} {es new : List EngineEvent} {h h' : Heap Order}
  {b b' : OrderBook} {r x : OrderRef}

theorem refl (hunique : UniqueIds s.heap) :
    Isolated named takers s none [] s.heap s.book where
  next_le := le_rfl
  ids_unique := hunique
  hand_apart := by simp
  hand_taker := by simp
  fill_taker := by simp
  kept r hr _ := ⟨⟨rfl, (add_zero _).symm⟩, Or.inl hr⟩

/-- An order left alone keeps its id. -/
theorem orderId_eq (hP : Isolated named takers s hand es h b) (hr : s.book.Resting r)
    (hfree : ¬named (s.heap.read r).orderId) :
    (h.read r).orderId = (s.heap.read r).orderId :=
  Order.field_of_terms Order.orderId (hP.kept r hr hfree).1.terms_eq fun _ => rfl

/-- An order left alone is none of the orders the request may touch. -/
theorem ne_of_apart (hP : Isolated named takers s hand es h b)
    (hstart : BookInv s.heap s.book) (hr : s.book.Resting r)
    (hfree : ¬named (s.heap.read r).orderId)
    (hapart : s.heap.next ≤ x ∨ named (h.read x).orderId) : r ≠ x := by
  rintro rfl
  rcases hapart with hle | hnamed
  · exact Nat.not_lt_of_le hle (hstart.allocated r hr)
  · rw [hP.orderId_eq hr hfree] at hnamed
    exact hfree hnamed

/-- A move without trades. -/
theorem move (hP : Isolated named takers s hand es h b) (hnext : h.next ≤ h'.next)
    (hunique : UniqueIds h') (hnew : ∀ f, .orderFilled f ∉ new)
    (hhand : ∀ t, hand' = some t → (s.heap.next ≤ t ∨ named (h'.read t).orderId) ∧
      takers (h'.read t).orderId (h'.read t).sessionUuid)
    (hkept : ∀ r, s.book.Resting r → ¬named (s.heap.read r).orderId →
      h'.read r = h.read r ∧ (b.Resting r → b'.Resting r)) :
    Isolated named takers s hand' (es ++ new) h' b' where
  next_le := le_trans hP.next_le hnext
  ids_unique := hunique
  hand_apart t ht := (hhand t ht).1
  hand_taker t ht := (hhand t ht).2
  fill_taker f hf := by
    rcases List.mem_append.mp hf with hf | hf
    · exact hP.fill_taker f hf
    · exact (hnew f hf).elim
  kept r hr hfree := by
    have hsame := hkept r hr hfree
    have hkept := hP.kept r hr hfree
    have hnone : filledIn new (s.heap.read r).orderId = 0 :=
      filledIn_of_quiet fun f hf => (hnew f hf).elim
    rw [hsame.1]
    refine ⟨⟨hkept.1.terms_eq, ?_⟩, hkept.2.imp hsame.2 id⟩
    rw [filledIn_append, hnone, add_zero]
    exact hkept.1.filled_eq

/-- A trade of the order in hand. -/
theorem traded {side : BookSide} {stop : Price → Bool} {t : OrderRef}
    (hP : Isolated named takers s (some t) es h b) (hstart : BookInv s.heap s.book)
    (hinv : BookInv h b) (hflight : InFlight h b t) (f : OrderBook.Fill side stop t h b) :
    Isolated named takers s (some t) (es ++ f.events) f.heap f.book where
  next_le := hP.next_le
  ids_unique := hP.ids_unique.congr_ids rfl f.read_orderId
  hand_apart x hx := by
    rw [f.read_orderId]
    exact hP.hand_apart x hx
  hand_taker x hx := by
    have hsession := Order.field_of_terms Order.sessionUuid (f.read_terms x) fun _ => rfl
    rw [f.read_orderId, hsession]
    exact hP.hand_taker x hx
  fill_taker fill hfill := by
    rcases List.mem_append.mp hfill with hfill | hfill
    · exact hP.fill_taker fill hfill
    · simp only [OrderBook.Fill.events, List.mem_cons, EngineEvent.orderFilled.injEq,
        List.not_mem_nil, or_false, reduceCtorEq] at hfill
      subst hfill
      exact hP.hand_taker t rfl
  kept r hr hfree := by
    have hkept := hP.kept r hr hfree
    have hid := hP.orderId_eq hr hfree
    have hlt := lt_of_lt_of_le (hstart.allocated r hr) hP.next_le
    have hrt : r ≠ t := hP.ne_of_apart hstart hr hfree (hP.hand_apart t rfl)
    have htaker : (h.read t).orderId ≠ (s.heap.read r).orderId := by
      intro heq
      exact hrt (hP.ids_unique t hflight.allocated r hlt (heq.trans hid.symm)).symm
    have hfilled := f.filledIn_events (s.heap.read r).orderId
    have hne := f.maker_ne_taker hinv hflight
    by_cases hrm : r = f.maker
    · subst hrm
      rw [if_pos (Or.inl hid)] at hfilled
      refine ⟨⟨(f.read_terms _).trans hkept.1.terms_eq, ?_⟩, ?_⟩
      · rw [filledIn_append, hfilled, f.read_maker hne, ← add_assoc, ← hkept.1.filled_eq]
        rfl
      · by_cases hfull : f.completes = true
        · have hqty := f.qty_eq_of_completes hfull
          right
          rw [f.remainingQty_maker hne, hqty]
          exact sub_self _
        · left
          exact (f.resting_iff hinv _).mpr ⟨f.maker_resting, fun hgone => hfull hgone.1⟩
    · have hmaker : (h.read f.maker).orderId ≠ (s.heap.read r).orderId := by
        intro heq
        exact hrm (hP.ids_unique f.maker (hinv.allocated _ f.maker_resting) r hlt
          (heq.trans hid.symm)).symm
      rw [if_neg (not_or.mpr ⟨hmaker, htaker⟩)] at hfilled
      rw [f.read_of_ne hrt hrm]
      refine ⟨⟨hkept.1.terms_eq, ?_⟩, hkept.2.imp ?_ id⟩
      · rw [filledIn_append, hfilled, add_zero]
        exact hkept.1.filled_eq
      · intro hresting
        exact (f.resting_iff hinv r).mpr ⟨hresting, fun hgone => hrm hgone.2⟩

end Isolated

section

variable {named : OrderId → Prop} {takers : OrderId → SessionUuid → Prop}

/-- Every move leaves the other orders alone. -/
theorem isolated_law {s : BookState} (hstart : BookInv s.heap s.book) :
    BookLaw (fun st op => op.ActsOn named takers st) (Isolated named takers s) where
  refused := by
    intro es h b e _ hP
    exact hP.move le_rfl hP.ids_unique (by simp) (by simp) fun _ _ _ => ⟨rfl, id⟩
  rejected := by
    intro es h b o e hinv hfresh _ hP
    refine hP.move (Nat.le_succ _) (hP.ids_unique.alloc hfresh) (by simp) (by simp) ?_
    intro r hr _
    have hlt := lt_of_lt_of_le (hstart.allocated r hr) hP.next_le
    exact ⟨h.read_alloc_of_ne o hlt.ne, id⟩
  accepted := by
    intro es h b o hinv hfresh htaker hP
    refine hP.move (Nat.le_succ _) (hP.ids_unique.alloc hfresh)
      (by simp [OrderBook.acceptedEvent]) ?_ ?_
    · intro t ht
      cases ht
      rw [h.read_alloc_next]
      exact ⟨Or.inl hP.next_le, htaker⟩
    · intro r hr _
      have hlt := lt_of_lt_of_le (hstart.allocated r hr) hP.next_le
      exact ⟨h.read_alloc_of_ne o hlt.ne, id⟩
  withdrawn := by
    intro es h b r hinv hr hnamed hP
    rcases OrderBook.removeFromBook_spec hinv hr with ⟨e, level, he⟩
    have hid := (b.removeFromBook h r).1.cancelRest_read Order.orderId (fun _ => rfl) h r
    rw [he.events_eq]
    refine hP.move le_rfl (hP.ids_unique.congr_ids rfl hid)
      (by simp [OrderBook.cancelRest, OrderBook.cancelledEvent]) (by simp) ?_
    intro x hx hfree
    have hne : x ≠ r := hP.ne_of_apart hstart hx hfree (Or.inr hnamed)
    refine ⟨OrderBook.cancelRest_read_of_ne _ h hne, ?_⟩
    intro hresting
    exact (OrderBook.resting_removeFromBook hinv hr x).mpr ⟨hresting, hne⟩
  replaced := by
    intro es h b r newPrice newQty newClOrdId hinv hr hguard hP
    rcases OrderBook.removeFromBook_spec hinv hr with ⟨e, level, he⟩
    have hid := OrderBook.modified_read (p := newPrice) (q := newQty) (c := newClOrdId)
      Order.orderId (fun _ => rfl) h r
    have hsession := OrderBook.modified_read (p := newPrice) (q := newQty) (c := newClOrdId)
      Order.sessionUuid (fun _ => rfl) h r
    rw [he.events_eq]
    refine hP.move le_rfl (hP.ids_unique.congr_ids rfl hid)
      (by simp [OrderBook.modifiedEvent]) ?_ ?_
    · intro t ht
      cases ht
      rw [hid, hsession]
      exact ⟨Or.inr hguard.1, hguard.2 r hr rfl⟩
    · intro x hx hfree
      have hne : x ≠ r := hP.ne_of_apart hstart hx hfree (Or.inr hguard.1)
      refine ⟨h.read_modify_of_ne _ hne, ?_⟩
      intro hresting
      exact (OrderBook.resting_removeFromBook hinv hr x).mpr ⟨hresting, hne⟩
  traded := by
    intro es h b t hinv hflight f hP
    exact hP.traded hstart hinv hflight f
  entered := by
    intro es h b r hinv _ _ _ _ hP
    rcases OrderBook.insertResting_spec b h r with ⟨e, he⟩
    rw [he.events_eq]
    refine hP.move le_rfl hP.ids_unique (by simp) (by simp) ?_
    intro x _ _
    exact ⟨rfl, fun hx => (OrderBook.resting_insertResting hinv x).mpr (Or.inr hx)⟩
  cancelled := by
    intro es h b r _ _ _ hP
    have hid := b.cancelRest_read Order.orderId (fun _ => rfl) h r
    refine hP.move le_rfl (hP.ids_unique.congr_ids rfl hid)
      (by simp [OrderBook.cancelRest, OrderBook.cancelledEvent]) (by simp) ?_
    intro x hx hfree
    have hne : x ≠ r := hP.ne_of_apart hstart hx hfree (hP.hand_apart r rfl)
    exact ⟨b.cancelRest_read_of_ne h hne, id⟩
  dropped := by
    intro es h b r _ _ _ hP
    have hdropped : Isolated named takers s none (es ++ []) h b :=
      hP.move le_rfl hP.ids_unique (by simp) (by simp) fun _ _ _ => ⟨rfl, id⟩
    simpa using hdropped

/-- A request leaves the other orders of every book alone. -/
theorem isolated_engineLaw {e : FullMatchingEngine} (hstart : EngineInv e) :
    EngineLaw (fun _ st op => op.ActsOn named takers st)
      fun s => Isolated named takers (e.bookState s) where
  law s := isolated_law (hstart.book_inv s)
  turnedAway := by
    intro s es h b x _ hP
    exact hP.move le_rfl hP.ids_unique (by simp) (by simp) fun _ _ _ => ⟨rfl, id⟩
  frame := by
    intro s s' es new h h' b b' _ _ hnext _ _ hread _ hmentions hP hactive
    refine ⟨hactive.next_le, hactive.ids_unique, by simp, by simp, hactive.fill_taker, ?_⟩
    intro r hr hfree
    have hkept := hP.kept r hr hfree
    have hlt : r < h.next := lt_of_lt_of_le ((hstart.book_inv s).allocated r hr) hP.next_le
    have hsecurity : (h.read r).securityId = s :=
      (Order.field_of_terms Order.securityId hkept.1.terms_eq fun _ => rfl).trans
        (hstart.resting_security s r hr)
    have hnone : filledIn new ((e.bookState s).heap.read r).orderId = 0 := by
      rw [← hP.orderId_eq hr hfree]
      exact filledIn_of_quiet fun f hf => hmentions r hlt hsecurity _ hf
    rw [hread r hlt hsecurity]
    refine ⟨⟨hkept.1.terms_eq, ?_⟩, hkept.2⟩
    rw [filledIn_append, hnone, add_zero]
    exact hkept.1.filled_eq

end

end SimCme
