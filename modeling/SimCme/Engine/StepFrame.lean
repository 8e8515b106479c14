import SimCme.Engine.BookRuns

/-!
# What one operation can touch

An operation on a book changes the orders resting in that book and the order it
brings, and its events speak of those orders only.  The fields that identify an
order never change.

Main results:

- Theorem {lit}`stepFrame_law`: every move stays within the frame.
- Theorem {lit}`stepFrame_of_step`: so does every operation.
-/

namespace SimCme

open Library

/-- What no operation changes about an order: everything but its price, quantity,
client id, fills and status. -/
def Order.identity (o : Order) : Order :=
  { o with
    price := default, quantity := 0, clOrdId := [], filledQty := 0, status := .new }

/-- Orders of one identity agree on every field that is part of it. -/
theorem Order.field_of_identity {β : Type} (field : Order → β) {o o' : Order}
    (hidentity : o.identity = o'.identity) (hfield : ∀ x, field x.identity = field x) :
    field o = field o' := by
  rw [← hfield o, hidentity, hfield]

theorem Order.identity_of_terms {o o' : Order} (hterms : o.terms = o'.terms) :
    o.identity = o'.identity :=
  Order.field_of_terms Order.identity hterms fun _ => rfl

/-- The orders an event reports an acceptance, a fill, a cancellation or a
modification of. -/
def EngineEvent.Mentions (id : OrderId) : EngineEvent → Prop
  | .orderAccepted e => e.orderId = id
  | .orderFilled e => e.makerOrderId = id ∨ e.takerOrderId = id
  | .orderCancelled e => e.orderId = id
  | .orderModified e => e.orderId = id
  | _ => False

instance (id : OrderId) : (e : EngineEvent) → Decidable (e.Mentions id)
  | .orderAccepted e => inferInstanceAs (Decidable (e.orderId = id))
  | .orderRejected _ => .isFalse not_false
  | .orderFilled e => inferInstanceAs (Decidable (e.makerOrderId = id ∨ e.takerOrderId = id))
  | .orderCancelled e => inferInstanceAs (Decidable (e.orderId = id))
  | .orderModified e => inferInstanceAs (Decidable (e.orderId = id))
  | .orderCancelRejected _ => .isFalse not_false
  | .bookUpdate _ => .isFalse not_false

/-- The frame of an operation that started in {lit}`s` with history {lit}`es₀`. -/
structure StepFrame (op : BookOp) (s : BookState) (es₀ : List EngineEvent)
    (hand : Option OrderRef) (es : List EngineEvent) (h : Heap Order) (b : OrderBook) :
    Prop where
  next_le : s.heap.next ≤ h.next
  next_le_succ : h.next ≤ s.heap.next + 1
  identity_eq : ∀ r < s.heap.next, (h.read r).identity = (s.heap.read r).identity
  untouched : ∀ r < s.heap.next, ¬s.book.Resting r → h.read r = s.heap.read r
  created : ∀ r, s.heap.next ≤ r → r < h.next →
    ∃ o, op = .add o ∧ (h.read r).identity = o.identity
  held : ∀ r, b.Resting r ∨ hand = some r → s.book.Resting r ∨ s.heap.next ≤ r
  emitted : ∃ new, es = es₀ ++ new ∧ ∀ e ∈ new, ∀ id, e.Mentions id →
    ∃ r < h.next, (s.book.Resting r ∨ s.heap.next ≤ r) ∧ (h.read r).orderId = id

namespace StepFrame

variable {op : BookOp} {s : BookState} {es₀ es new : List EngineEvent}
  {hand hand' : Option OrderRef} {h h' : Heap Order} {b b' : OrderBook}

/-- The frame of a state in itself. -/
theorem refl (op : BookOp) (s : BookState) (es₀ : List EngineEvent) :
    StepFrame op s es₀ none es₀ s.heap s.book where
  next_le := le_rfl
  next_le_succ := Nat.le_succ _
  identity_eq _ _ := rfl
  untouched _ _ _ := rfl
  created r hle hlt := (Nat.not_lt_of_le hle hlt).elim
  held r hr := by
    rcases hr with hr | hr
    · exact Or.inl hr
    · contradiction
  emitted := ⟨[], by simp, by simp⟩

/-- A move that writes held orders only, keeps their identities, and speaks of
held orders stays within the frame. -/
theorem move (hP : StepFrame op s es₀ hand es h b) (hnext : h'.next = h.next)
    (hidentity : ∀ r, (h'.read r).identity = (h.read r).identity)
    (hread : ∀ r, ¬(b.Resting r ∨ hand = some r) → h'.read r = h.read r)
    (hheld : ∀ r, b'.Resting r ∨ hand' = some r → b.Resting r ∨ hand = some r)
    (hnew : ∀ e ∈ new, ∀ id, e.Mentions id →
      ∃ r < h.next, (b.Resting r ∨ hand = some r) ∧ (h.read r).orderId = id) :
    StepFrame op s es₀ hand' (es ++ new) h' b' where
  next_le := by
    rw [hnext]
    exact hP.next_le
  next_le_succ := by
    rw [hnext]
    exact hP.next_le_succ
  identity_eq r hr := by
    rw [hidentity]
    exact hP.identity_eq r hr
  untouched r hr hfree := by
    rw [hread]
    · exact hP.untouched r hr hfree
    · intro hr'
      rcases hP.held r hr' with hr' | hle
      · exact hfree hr'
      · exact Nat.not_lt_of_le hle hr
  created r hle hlt := by
    rcases hP.created r hle (hnext ▸ hlt) with ⟨o, ho, hid⟩
    exact ⟨o, ho, (hidentity r).trans hid⟩
  held r hr := hP.held r (hheld r hr)
  emitted := by
    rcases hP.emitted with ⟨before, hes, hbefore⟩
    have hid : ∀ r, (h'.read r).orderId = (h.read r).orderId := fun r =>
      Order.field_of_identity Order.orderId (hidentity r) fun _ => rfl
    refine ⟨before ++ new, by rw [hes, List.append_assoc], ?_⟩
    intro e he id hmentions
    rcases List.mem_append.mp he with he | he
    · rcases hbefore e he id hmentions with ⟨r, hr, hheldr, hrid⟩
      exact ⟨r, hnext ▸ hr, hheldr, (hid r).trans hrid⟩
    · rcases hnew e he id hmentions with ⟨r, hr, hheldr, hrid⟩
      exact ⟨r, hnext ▸ hr, hP.held r hheldr, (hid r).trans hrid⟩

/-- A new order enters the frame. -/
theorem alloc {o : Order} (hP : StepFrame (.add o) s es₀ none es h b)
    (hstart : h.next = s.heap.next) (hhand : ∀ r, hand' = some r → r = h.next)
    (hnew : ∀ e ∈ new, ∀ id, e.Mentions id → o.orderId = id) :
    StepFrame (.add o) s es₀ hand' (es ++ new) (h.alloc o) b where
  next_le := le_trans hP.next_le (Nat.le_succ _)
  next_le_succ := (congrArg Nat.succ hstart).le
  identity_eq r hr := by
    rw [h.read_alloc_of_ne o (lt_of_lt_of_le hr hP.next_le).ne]
    exact hP.identity_eq r hr
  untouched r hr hfree := by
    rw [h.read_alloc_of_ne o (lt_of_lt_of_le hr hP.next_le).ne]
    exact hP.untouched r hr hfree
  created r hle hlt := by
    by_cases hr : r = h.next
    · rw [hr, h.read_alloc_next]
      exact ⟨o, rfl, rfl⟩
    · rw [h.read_alloc_of_ne o hr]
      exact hP.created r hle (lt_of_le_of_ne (Nat.le_of_lt_succ hlt) hr)
  held r hr := by
    rcases hr with hr | hr
    · exact hP.held r (Or.inl hr)
    · rw [hhand r hr]
      exact Or.inr hP.next_le
  emitted := by
    rcases hP.emitted with ⟨before, hes, hbefore⟩
    refine ⟨before ++ new, by rw [hes, List.append_assoc], ?_⟩
    intro e he id hmentions
    rcases List.mem_append.mp he with he | he
    · rcases hbefore e he id hmentions with ⟨r, hr, hheldr, hrid⟩
      refine ⟨r, Nat.lt_succ_of_lt hr, hheldr, ?_⟩
      rw [h.read_alloc_of_ne o hr.ne]
      exact hrid
    · refine ⟨h.next, Nat.lt_succ_self _, Or.inr hP.next_le, ?_⟩
      rw [h.read_alloc_next]
      exact hnew e he id hmentions

end StepFrame

/-- An operation stays within its frame. -/
theorem stepFrame_law (op : BookOp) (s : BookState) (es₀ : List EngineEvent) :
    BookLaw (fun s' op' => s' = s ∧ op' = op) (StepFrame op s es₀) where
  refused := by
    intro es h b e _ hP
    refine hP.move rfl (fun _ => rfl) (fun _ _ => rfl) (fun _ hr => hr) ?_
    simp [EngineEvent.Mentions]
  rejected := by
    intro es h b o e hinv _ hop hP
    rcases hop with ⟨hs, rfl⟩
    refine hP.alloc (by rw [← hs]) (by simp) ?_
    simp [EngineEvent.Mentions]
  accepted := by
    intro es h b o hinv _ hop hP
    rcases hop with ⟨hs, rfl⟩
    refine hP.alloc (by rw [← hs]) (fun r hr => (Option.some.inj hr).symm) ?_
    simp [EngineEvent.Mentions, OrderBook.acceptedEvent]
  withdrawn := by
    intro es h b r hinv hr _ hP
    rcases OrderBook.removeFromBook_spec hinv hr with ⟨e, level, he⟩
    refine hP.move rfl ?_ ?_ ?_ ?_
    · exact (b.removeFromBook h r).1.cancelRest_read Order.identity (fun _ => rfl) h r
    · intro x hx
      apply OrderBook.cancelRest_read_of_ne
      intro heq
      exact hx (Or.inl (heq ▸ hr))
    · intro x hx
      rcases hx with hx | hx
      · exact Or.inl ((OrderBook.resting_removeFromBook hinv hr x).mp hx).1
      · contradiction
    · intro x hx id hmentions
      rcases he.mem_events_append.mp hx with rfl | rfl
      · exact hmentions.elim
      · refine ⟨r, hinv.allocated r hr, Or.inl hr, ?_⟩
        simpa [EngineEvent.Mentions, OrderBook.cancelledEvent] using hmentions
  replaced := by
    intro es h b r newPrice newQty newClOrdId hinv hr _ hP
    rcases OrderBook.removeFromBook_spec hinv hr with ⟨e, level, he⟩
    refine hP.move rfl ?_ ?_ ?_ ?_
    · exact OrderBook.modified_read Order.identity (fun _ => rfl) h r
    · intro x hx
      apply h.read_modify_of_ne
      intro heq
      exact hx (Or.inl (heq ▸ hr))
    · intro x hx
      rcases hx with hx | hx
      · exact Or.inl ((OrderBook.resting_removeFromBook hinv hr x).mp hx).1
      · cases hx
        exact Or.inl hr
    · intro x hx id hmentions
      rcases he.mem_events_append.mp hx with rfl | rfl
      · exact hmentions.elim
      · exact ⟨r, hinv.allocated r hr, Or.inl hr, hmentions⟩
  traded := by
    intro es h b t hinv hflight f hP
    refine hP.move rfl ?_ ?_ ?_ ?_
    · intro x
      exact Order.identity_of_terms (f.read_terms x)
    · intro x hx
      apply f.read_of_ne
      · rintro rfl
        exact hx (Or.inr rfl)
      · rintro rfl
        exact hx (Or.inl f.maker_resting)
    · intro x hx
      rcases hx with hx | hx
      · exact Or.inl ((f.resting_iff hinv x).mp hx).1
      · exact Or.inr hx
    · intro x hx id hmentions
      simp only [OrderBook.Fill.events, List.mem_cons, List.not_mem_nil, or_false] at hx
      rcases hx with rfl | rfl
      · rcases hmentions with hid | hid
        · exact ⟨f.maker, hinv.allocated _ f.maker_resting, Or.inl f.maker_resting, hid⟩
        · exact ⟨t, hflight.allocated, Or.inr rfl, hid⟩
      · exact hmentions.elim
  entered := by
    intro es h b r hinv _ _ _ _ hP
    rcases OrderBook.insertResting_spec b h r with ⟨e, he⟩
    refine hP.move rfl (fun _ => rfl) (fun _ _ => rfl) ?_ ?_
    · intro x hx
      rcases hx with hx | hx
      · rcases (OrderBook.resting_insertResting hinv x).mp hx with rfl | hx
        · exact Or.inr rfl
        · exact Or.inl hx
      · contradiction
    · rw [he.events_eq]
      simp [EngineEvent.Mentions]
  cancelled := by
    intro es h b r hinv hflight _ hP
    refine hP.move rfl ?_ ?_ ?_ ?_
    · exact b.cancelRest_read Order.identity (fun _ => rfl) h r
    · intro x hx
      apply b.cancelRest_read_of_ne
      rintro rfl
      exact hx (Or.inr rfl)
    · intro x hx
      rcases hx with hx | hx
      · exact Or.inl hx
      · contradiction
    · intro x hx id hmentions
      simp only [OrderBook.cancelRest, List.mem_singleton] at hx
      subst hx
      refine ⟨r, hflight.allocated, Or.inr rfl, ?_⟩
      simpa [EngineEvent.Mentions, OrderBook.cancelledEvent] using hmentions
  dropped := by
    intro es h b r _ _ _ hP
    have hdropped : StepFrame op s es₀ none (es ++ []) h b :=
      hP.move rfl (fun _ => rfl) (fun _ _ => rfl) (fun x hx => hx.imp id (by simp)) (by simp)
    simpa using hdropped

/-- The frame of a whole operation. -/
theorem stepFrame_of_step {s : BookState} {op : BookOp} (hinv : BookInv s.heap s.book)
    (hfresh : op.Fresh s) (es₀ : List EngineEvent) :
    StepFrame op s es₀ none (es₀ ++ (s.outcome op).events) (s.outcome op).heap
      (s.outcome op).book ∧ BookInv (s.outcome op).heap (s.outcome op).book :=
  (stepFrame_law op s es₀).step hinv hfresh ⟨rfl, rfl⟩ (StepFrame.refl op s es₀)

end SimCme
