import SimCme.Engine.EngineRuns

/-!
# The client ids of orders

An order keeps the client id it was created under until a modification with a client id
of its own is applied to it.  Every event that speaks of an order carries the client id
the order then has.

Main results:

- Theorem {lit}`named_law`: every move writes the client ids of one naming into its events.
- Theorem {lit}`FullMatchingEngine.echoes_outcome`: so does every request to the engine, and
  all orders carry that naming afterwards.
-/

namespace SimCme

open Library

/-- The client id of each order id in use. -/
abbrev Naming := OrderId → Option ClOrdId

/-- An order carries the client id its id has. -/
def Order.Carries (names : Naming) (o : Order) : Prop :=
  names o.orderId = some o.clOrdId

/-- Orders of the same two ids carry the same namings. -/
theorem Order.Carries.congr {names : Naming} {o o' : Order} (h : o.Carries names)
    (hid : (o'.orderId, o'.clOrdId) = (o.orderId, o.clOrdId)) : o'.Carries names := by
  rw [Prod.mk.injEq] at hid
  unfold Order.Carries
  rw [hid.1, hid.2]
  exact h

/-- The client ids of an event are those of the orders it speaks of. -/
def EngineEvent.Echoes (names : Naming) : EngineEvent → Prop
  | .orderAccepted e => names e.orderId = some e.clOrdId
  | .orderFilled e =>
      names e.makerOrderId = some e.makerClOrdId ∧ names e.takerOrderId = some e.takerClOrdId
  | .orderCancelled e => names e.orderId = some e.clOrdId
  | .orderModified e => names e.orderId = some e.clOrdId
  | _ => True

/-- The naming after a call on a book: a new order brings its client id, and a
modification with a client id gives it to the order it finds. -/
def BookOp.renames (s : BookState) (names : Naming) : BookOp → Naming
  | .add o => Function.update names o.orderId (some o.clOrdId)
  | .cancel _ => names
  | .modify orderId _ _ newClOrdId =>
      if (s.book.ordersById orderId).isSome ∧ newClOrdId ≠ [] then
        Function.update names orderId (some newClOrdId)
      else names

/-- The events of an operation that started in {lit}`s` and the orders it has reached.  Until
its first move the orders carry the old naming. -/
structure Named (op : BookOp) (s : BookState) (names : Naming) (hand : Option OrderRef)
    (es : List EngineEvent) (h : Heap Order) : Prop where
  echoes : ∀ e ∈ es, e.Echoes (op.renames s names)
  carries : (∀ r < h.next, (h.read r).Carries (op.renames s names)) ∨
    hand = none ∧ h = s.heap ∧ ∀ e ∈ es, ∃ x, e = .orderCancelRejected x

namespace Named

variable {op : BookOp} {s : BookState} {names : Naming} {hand hand' : Option OrderRef}
  {es new : List EngineEvent} {h h' : Heap Order}

/-- A move after which all orders carry the new naming. -/
theorem move (hP : Named op s names hand es h)
    (hcarries : ∀ r < h'.next, (h'.read r).Carries (op.renames s names))
    (hnew : ∀ e ∈ new, e.Echoes (op.renames s names)) :
    Named op s names hand' (es ++ new) h' where
  echoes e he := by
    rcases List.mem_append.mp he with he | he
    · exact hP.echoes e he
    · exact hnew e he
  carries := Or.inl hcarries

/-- Once an order is in hand, all orders carry the new naming. -/
theorem carries_of_hand {r : OrderRef} (hP : Named op s names (some r) es h) :
    ∀ x < h.next, (h.read x).Carries (op.renames s names) := by
  rcases hP.carries with hcarries | ⟨hhand, -, -⟩
  · exact hcarries
  · contradiction

end Named

/-- Creating an order names it, and no other order. -/
theorem carries_alloc {names : Naming} {h : Heap Order} {o : Order}
    (hcarries : ∀ r < h.next, (h.read r).Carries names) (hfresh : FreshOrder h o) :
    ∀ r < (h.alloc o).next, ((h.alloc o).read r).Carries
      (Function.update names o.orderId (some o.clOrdId)) := by
  intro r hr
  by_cases hlast : r = h.next
  · rw [hlast, h.read_alloc_next]
    exact Function.update_self o.orderId (some o.clOrdId) names
  · have hold : r < h.next := lt_of_le_of_ne (Nat.le_of_lt_succ hr) hlast
    rw [h.read_alloc_of_ne o hlast, Order.Carries, Function.update_of_ne (hfresh.2 r hold)]
    exact hcarries r hold

/-- A modification names the order it finds if it has a client id, and no other order. -/
theorem carries_modified {names : Naming} {h : Heap Order} {b : OrderBook} {r : OrderRef}
    (hcarries : ∀ x < h.next, (h.read x).Carries names) (hunique : UniqueIds h)
    (hinv : BookInv h b) (hr : b.Resting r) (newPrice : Price) (newQty : Int)
    (newClOrdId : ClOrdId) :
    ∀ x < h.next,
      ((h.modify r fun o => OrderBook.modifiedOrder o newPrice newQty newClOrdId).read
        x).Carries
        ((BookOp.modify (h.read r).orderId newPrice newQty newClOrdId).renames ⟨h, b⟩
          names) := by
  intro x hx
  have hfound : (b.ordersById (h.read r).orderId).isSome := by
    rw [hinv.indexed_of_resting hr]
    rfl
  simp only [BookOp.renames, hfound, true_and]
  by_cases hxr : x = r
  · subst hxr
    rw [h.read_modify_self]
    by_cases hempty : newClOrdId = []
    · simpa [OrderBook.modifiedOrder, Order.Carries, hempty] using hcarries x hx
    · simp [OrderBook.modifiedOrder, Order.Carries, hempty]
  · rw [h.read_modify_of_ne _ hxr]
    split
    · -- Another order has another id.
      have hne : (h.read x).orderId ≠ (h.read r).orderId := fun heq =>
        hxr (hunique x hx r (hinv.allocated r hr) heq)
      rw [Order.Carries, Function.update_of_ne hne]
      exact hcarries x hx
    · exact hcarries x hx

/-- Every move writes the client ids of the naming after the operation. -/
theorem named_law (op : BookOp) {s : BookState} {names : Naming} (hunique : UniqueIds s.heap)
    (hstart : ∀ r < s.heap.next, (s.heap.read r).Carries names) :
    BookLaw (fun s' op' => s' = s ∧ op' = op)
      fun hand es h _ => Named op s names hand es h where
  refused := by
    intro es h b x _ hP
    refine ⟨?_, ?_⟩
    · intro e he
      rcases List.mem_append.mp he with he | he
      · exact hP.echoes e he
      · rw [List.mem_singleton.mp he]
        trivial
    · refine hP.carries.imp id ?_
      rintro ⟨hhand, hheap, hrejected⟩
      refine ⟨hhand, hheap, ?_⟩
      intro e he
      rcases List.mem_append.mp he with he | he
      · exact hrejected e he
      · exact ⟨x, List.mem_singleton.mp he⟩
  rejected := by
    intro es h b o e _ hfresh hop hP
    rcases hop with ⟨rfl, rfl⟩
    exact hP.move (carries_alloc hstart hfresh) (by simp [EngineEvent.Echoes])
  accepted := by
    intro es h b o _ hfresh hop hP
    rcases hop with ⟨rfl, rfl⟩
    refine hP.move (carries_alloc hstart hfresh) ?_
    simp [EngineEvent.Echoes, OrderBook.acceptedEvent, BookOp.renames]
  withdrawn := by
    intro es h b r hinv hr hop hP
    rcases hop with ⟨rfl, rfl⟩
    rcases OrderBook.removeFromBook_spec hinv hr with ⟨edit, level, hedit⟩
    have hread := (b.removeFromBook h r).1.cancelRest_read
      (fun o => (o.orderId, o.clOrdId)) (fun _ => rfl) h r
    have hcarries : ∀ x < h.next,
        (((b.removeFromBook h r).1.cancelRest h r).heap.read x).Carries names :=
      fun x hx => (hstart x hx).congr (hread x)
    refine hP.move hcarries ?_
    intro e he
    rcases hedit.mem_events_append.mp he with rfl | rfl
    · trivial
    · exact hcarries r (hinv.allocated r hr)
  replaced := by
    intro es h b r newPrice newQty newClOrdId hinv hr hop hP
    rcases hop with ⟨rfl, rfl⟩
    rcases OrderBook.removeFromBook_spec hinv hr with ⟨edit, level, hedit⟩
    have hcarries := carries_modified hstart hunique hinv hr newPrice newQty newClOrdId
    refine hP.move hcarries ?_
    intro e he
    rcases hedit.mem_events_append.mp he with rfl | rfl
    · trivial
    · have hmodified := hcarries r (hinv.allocated r hr)
      rw [h.read_modify_self] at hmodified
      exact hmodified
  traded := by
    intro es h b t hinv hflight f hP
    have hcarries := hP.carries_of_hand
    refine hP.move ?_ ?_
    · intro x hx
      refine (hcarries x hx).congr ?_
      exact Order.field_of_terms (fun o => (o.orderId, o.clOrdId)) (f.read_terms x) fun _ => rfl
    · intro e he
      simp only [OrderBook.Fill.events, List.mem_cons, List.not_mem_nil, or_false] at he
      rcases he with rfl | rfl
      · exact ⟨hcarries f.maker (hinv.allocated _ f.maker_resting), hcarries t hflight.allocated⟩
      · trivial
  entered := by
    intro es h b r _ _ _ _ _ hP
    rcases OrderBook.insertResting_spec b h r with ⟨edit, hedit⟩
    rw [hedit.events_eq]
    exact hP.move hP.carries_of_hand (by simp [EngineEvent.Echoes])
  cancelled := by
    intro es h b r _ hflight _ hP
    have hread := b.cancelRest_read (fun o => (o.orderId, o.clOrdId)) (fun _ => rfl) h r
    have hcarries : ∀ x < h.next,
        ((b.cancelRest h r).heap.read x).Carries (op.renames s names) :=
      fun x hx => (hP.carries_of_hand x hx).congr (hread x)
    refine hP.move hcarries ?_
    intro e he
    rw [OrderBook.cancelRest, List.mem_singleton] at he
    rw [he]
    exact hcarries r hflight.allocated
  dropped := by
    intro es h b r _ _ _ hP
    exact ⟨hP.echoes, Or.inl hP.carries_of_hand⟩

/-- An operation that only refuses to cancel or modify names no order. -/
theorem renames_of_refused {op : BookOp} {s : BookState}
    (hrefused : ∀ e ∈ (s.outcome op).events, ∃ x, e = .orderCancelRejected x)
    (names : Naming) : op.renames s names = names := by
  cases op with
  | add o =>
      -- The order is rejected or accepted.
      simp only [BookState.outcome, OrderBook.addOrder, Heap.read_alloc_next] at hrefused
      split at hrefused
      · rcases hrefused _ (List.mem_singleton.mpr rfl) with ⟨x, hx⟩
        contradiction
      · rcases hrefused (OrderBook.acceptedEvent o) (by simp) with ⟨x, hx⟩
        contradiction
  | cancel orderId => rfl
  | modify orderId newPrice newQty newClOrdId =>
      cases hindexed : s.book.ordersById orderId with
      | none => simp [BookOp.renames, hindexed]
      | some r =>
          simp only [BookState.outcome, OrderBook.modifyOrder, hindexed] at hrefused
          rcases hrefused (OrderBook.modifiedEvent
            (OrderBook.modifiedOrder (s.heap.read r) newPrice newQty newClOrdId) newPrice newQty)
            (by simp) with ⟨x, hx⟩
          contradiction

namespace FullMatchingEngine

variable {e : FullMatchingEngine} {op : EngineOp} {names : Naming}

/-- The naming after a request. -/
def renames (e : FullMatchingEngine) (names : Naming) (op : EngineOp) : Naming :=
  match e.route op with
  | none => names
  | some (s, bop) => bop.renames (e.bookState s) names

/-- A request writes the client ids of one naming into its events, and leaves all orders
with that naming. -/
theorem echoes_outcome (hinv : EngineInv e) (hfresh : op.Fresh)
    (hnames : ∀ r < e.heap.next, (e.heap.read r).Carries names) :
    (∀ x ∈ (e.outcome op).events, x.Echoes (e.renames names op)) ∧
      ∀ r < (e.outcome op).engine.heap.next,
        ((e.outcome op).engine.heap.read r).Carries (e.renames names op) := by
  unfold renames
  cases hroute : e.route op with
  | none =>
      rcases step_of_not_routed hroute with ⟨hheap, -, hevents⟩
      rw [hheap]
      refine ⟨?_, hnames⟩
      rcases hevents with hevents | ⟨y, hevents⟩ | ⟨y, hevents⟩ <;>
        simp [hevents, EngineEvent.Echoes]
  | some routed =>
      rcases routed with ⟨s, bop⟩
      rcases outcome_of_route hroute with ⟨hevents, hheap, -⟩
      rw [hevents, hheap]
      have hstart : Named bop (e.bookState s) names none [] (e.bookState s).heap :=
        ⟨by simp, Or.inr ⟨rfl, rfl, by simp⟩⟩
      have hend := ((named_law bop hinv.ids_unique hnames).step (hinv.book_inv s)
        (hinv.fresh_of_route hroute hfresh) ⟨rfl, rfl⟩ hstart).1
      simp only [List.nil_append] at hend
      refine ⟨hend.echoes, ?_⟩
      rcases hend.carries with hcarries | ⟨-, hsame, hrefused⟩
      · exact hcarries
      · dsimp only
        rw [renames_of_refused hrefused, hsame]
        exact hnames

end FullMatchingEngine

end SimCme
