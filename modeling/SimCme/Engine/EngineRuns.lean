import SimCme.Engine.FullMatchingEngine
import SimCme.Engine.StepFrame

/-!
# Runs of the engine

The books of an engine share the order objects and nothing else.  An operation
on one book stays within its frame, so a property of every book follows from the
moves of one book and from its stability under operations on the others.

Main results:

- Theorem {lit}`EngineInv.step`: the books stay disjoint and valid and ids stay
  unique.
- Theorem {lit}`EngineLaw.step` and {lit}`EngineLaw.run`: the rule that lifts a
  law of books to the engine.
-/

namespace SimCme

open Library

/-- Callers submit orders that are new and not filled. -/
def EngineOp.Fresh : EngineOp → Prop
  | .submit order _ => order.status = .new ∧ order.filledQty = 0
  | _ => True

instance : (op : EngineOp) → Decidable op.Fresh
  | .submit order _ => inferInstanceAs (Decidable (order.status = .new ∧ order.filledQty = 0))
  | .addInstrument _ => .isTrue trivial
  | .cancel _ _ _ => .isTrue trivial
  | .modify _ _ _ _ _ => .isTrue trivial

/-- Every book is valid, holds orders of its own security only, and no two orders
share an id. -/
structure EngineInv (e : FullMatchingEngine) : Prop where
  book_inv : ∀ s, BookInv e.heap (e.bookAt s)
  resting_security : ∀ s r, (e.bookAt s).Resting r → (e.heap.read r).securityId = s
  ids_unique : UniqueIds e.heap
  ids_lt : ∀ r < e.heap.next, (e.heap.read r).orderId < e.nextOrderId

/-- A law of books that operations on other books respect.  The guard restricts
the calls each book sees. -/
structure EngineLaw (guard : SecurityId → BookState → BookOp → Prop)
    (L : SecurityId → Option OrderRef → List EngineEvent → Heap Order → OrderBook → Prop) :
    Prop where
  law : ∀ s, BookLaw (guard s) (L s)
  turnedAway : ∀ {s es h b} (e : OrderRejected), BookInv h b → L s none es h b →
    L s none (es ++ [.orderRejected e]) h b
  frame : ∀ {s s' es new h h' b b'}, s ≠ s' → BookInv h b → h.next ≤ h'.next →
    (∀ r, b.Resting r → (h.read r).securityId = s) →
    (∀ r < h.next, (h'.read r).identity = (h.read r).identity) →
    (∀ r < h.next, (h.read r).securityId = s → h'.read r = h.read r) →
    (∀ r, h.next ≤ r → r < h'.next → (h'.read r).securityId = s') →
    (∀ r < h.next, (h.read r).securityId = s → ∀ e ∈ new, ¬e.Mentions (h.read r).orderId) →
    L s none es h b → L s' none (es ++ new) h' b' → L s none (es ++ new) h' b

namespace FullMatchingEngine

/-- What a routed addition brings. -/
theorem route_add {e : FullMatchingEngine} {op : EngineOp} {s : SecurityId} {o : Order}
    (hroute : e.route op = some (s, .add o)) :
    o.securityId = s ∧ o.orderId = e.nextOrderId ∧
      (e.outcome op).engine.nextOrderId = e.nextOrderId + 1 ∧
      (op.Fresh → o.status = .new ∧ o.filledQty = 0) := by
  rcases routed_of_route hroute with ⟨book, hrouted⟩
  cases hrouted with
  | @submit order now _ hbook =>
      have hstamped : (e.stamped order now).securityId = order.securityId := rfl
      refine ⟨rfl, rfl, ?_, fun hfresh => hfresh⟩
      simp only [outcome, submitOrder, hstamped, hbook]
      split <;> rfl

/-- Ids are never handed back. -/
theorem nextOrderId_le (e : FullMatchingEngine) (op : EngineOp) :
    e.nextOrderId ≤ (e.outcome op).engine.nextOrderId := by
  cases op with
  | addInstrument securityId =>
      simp only [outcome, addInstrument]
      split <;> exact le_rfl
  | submit order now =>
      simp only [outcome, submitOrder]
      split
      · exact Nat.le_succ _
      · dsimp only
        split <;> exact Nat.le_succ _
  | cancel orderId securityId sessionUuid =>
      simp only [outcome, cancelOrder]
      split <;> exact le_rfl
  | modify orderId securityId newPrice newQty newClOrdId =>
      simp only [outcome, modifyOrder]
      split
      · exact le_rfl
      · dsimp only
        split
        · exact le_rfl
        · split <;> exact le_rfl

end FullMatchingEngine

namespace EngineInv

variable {e : FullMatchingEngine} {op : EngineOp}

/-- An engine no request has reached. -/
theorem empty : EngineInv {} where
  book_inv s := BookInv.empty _ s
  resting_security s r hr := (BookInv.not_resting_empty s r hr).elim
  ids_unique r hr := (Nat.not_lt_zero r hr).elim
  ids_lt r hr := (Nat.not_lt_zero r hr).elim

/-- A routed call is fresh on its book. -/
theorem fresh_of_route (hinv : EngineInv e) {s : SecurityId} {bop : BookOp}
    (hroute : e.route op = some (s, bop)) (hfresh : op.Fresh) : bop.Fresh (e.bookState s) := by
  cases bop with
  | add o =>
      rcases FullMatchingEngine.route_add hroute with ⟨-, hid, -, hnew⟩
      refine ⟨(hnew hfresh).2, ?_⟩
      intro r hr
      rw [hid]
      exact (hinv.ids_lt r hr).ne
  | cancel orderId => trivial
  | modify orderId newPrice newQty newClOrdId => trivial

/-- What a routed request does to the orders of the engine, seen from its books. -/
structure RoutedFrame (e : FullMatchingEngine) (s : SecurityId) (e' : FullMatchingEngine)
    (new : List EngineEvent) : Prop where
  book_inv : BookInv e'.heap (e'.bookAt s)
  next_le : e.heap.next ≤ e'.heap.next
  identity_eq : ∀ r < e.heap.next, (e'.heap.read r).identity = (e.heap.read r).identity
  untouched : ∀ r < e.heap.next, (e.heap.read r).securityId ≠ s →
    e'.heap.read r = e.heap.read r
  created : ∀ r, e.heap.next ≤ r → r < e'.heap.next → r = e.heap.next ∧
    (e'.heap.read r).securityId = s ∧ (e'.heap.read r).orderId = e.nextOrderId ∧
    e'.nextOrderId = e.nextOrderId + 1
  held : ∀ r, (e'.bookAt s).Resting r → (e.bookAt s).Resting r ∨ e.heap.next ≤ r
  mentioned : ∀ x ∈ new, ∀ id, x.Mentions id → ∃ r < e'.heap.next,
    ((e.bookAt s).Resting r ∨ e.heap.next ≤ r) ∧ (e'.heap.read r).orderId = id

theorem routedFrame (hinv : EngineInv e) (hfresh : op.Fresh) {s : SecurityId}
    {bop : BookOp} (hroute : e.route op = some (s, bop)) :
    RoutedFrame e s (e.outcome op).engine (e.outcome op).events := by
  rcases FullMatchingEngine.outcome_of_route hroute with ⟨hevents, hheap, -⟩
  have hbook := (FullMatchingEngine.step_of_route hroute).1
  rcases stepFrame_of_step (hinv.book_inv s) (hinv.fresh_of_route hroute hfresh) [] with
    ⟨hframe, hbookInv⟩
  have hsecurity : ∀ r, (e.bookAt s).Resting r → (e.heap.read r).securityId = s :=
    hinv.resting_security s
  exact
    { book_inv := by
        rw [hheap, hbook]
        exact hbookInv
      next_le := by
        rw [hheap]
        exact hframe.next_le
      identity_eq := by
        rw [hheap]
        exact hframe.identity_eq
      untouched := by
        rw [hheap]
        intro r hr hne
        exact hframe.untouched r hr fun hresting => hne (hsecurity r hresting)
      created := by
        rw [hheap]
        intro r hle hlt
        have hsucc : r = e.heap.next :=
          le_antisymm (Nat.le_of_lt_succ (lt_of_lt_of_le hlt hframe.next_le_succ)) hle
        rcases hframe.created r hle hlt with ⟨o, rfl, hidentity⟩
        rcases FullMatchingEngine.route_add hroute with ⟨hs, hid, hnext, -⟩
        refine ⟨hsucc, ?_, ?_, hnext⟩
        · have hfield := Order.field_of_identity Order.securityId hidentity fun _ => rfl
          exact hfield.trans hs
        · rw [← hid]
          exact Order.field_of_identity Order.orderId hidentity fun _ => rfl
      held := by
        rw [hbook]
        intro r hr
        exact hframe.held r (Or.inl hr)
      mentioned := by
        rw [hheap, hevents]
        rcases hframe.emitted with ⟨new, hnew, hmentioned⟩
        simp only [List.nil_append] at hnew
        rw [hnew]
        exact hmentioned }

/-- One request keeps the invariant. -/
theorem step (hinv : EngineInv e) (hfresh : op.Fresh) :
    EngineInv (e.outcome op).engine := by
  have hnextId := e.nextOrderId_le op
  cases hroute : e.route op with
  | none =>
      rcases FullMatchingEngine.step_of_not_routed hroute with ⟨hheap, hbooks, -⟩
      exact
        { book_inv := fun s => by
            rw [hheap, hbooks]
            exact hinv.book_inv s
          resting_security := fun s r hr => by
            rw [hbooks] at hr
            rw [hheap]
            exact hinv.resting_security s r hr
          ids_unique := by
            rw [hheap]
            exact hinv.ids_unique
          ids_lt := fun r hr => by
            rw [hheap] at hr ⊢
            exact lt_of_lt_of_le (hinv.ids_lt r hr) hnextId }
  | some routed =>
      rcases routed with ⟨s, bop⟩
      have hframe := hinv.routedFrame hfresh hroute
      have hothers := (FullMatchingEngine.step_of_route hroute).2
      have hid : ∀ r < e.heap.next, ((e.outcome op).engine.heap.read r).orderId =
          (e.heap.read r).orderId := fun r hr =>
        Order.field_of_identity Order.orderId (hframe.identity_eq r hr) fun _ => rfl
      have hsecurity : ∀ r < e.heap.next, ((e.outcome op).engine.heap.read r).securityId =
          (e.heap.read r).securityId := fun r hr =>
        Order.field_of_identity Order.securityId (hframe.identity_eq r hr) fun _ => rfl
      have hold : ∀ s' r, s' ≠ s → (e.bookAt s').Resting r →
          (e.outcome op).engine.heap.read r = e.heap.read r := by
        intro s' r hne hr
        apply hframe.untouched r ((hinv.book_inv s').allocated r hr)
        rw [hinv.resting_security s' r hr]
        exact hne
      -- An order is either older than the request or the one it created.
      have hage : ∀ r < (e.outcome op).engine.heap.next, r < e.heap.next ∨
          r = e.heap.next ∧ ((e.outcome op).engine.heap.read r).orderId = e.nextOrderId ∧
            (e.outcome op).engine.nextOrderId = e.nextOrderId + 1 := by
        intro r hr
        by_cases hlt : r < e.heap.next
        · exact Or.inl hlt
        · have hcreated := hframe.created r (not_lt.mp hlt) hr
          exact Or.inr ⟨hcreated.1, hcreated.2.2.1, hcreated.2.2.2⟩
      exact
        { book_inv := fun s' => by
            by_cases hs : s' = s
            · rw [hs]
              exact hframe.book_inv
            · rw [hothers s' hs]
              exact (hinv.book_inv s').congr_heap (hold s' · hs) hframe.next_le
          resting_security := fun s' r hr => by
            by_cases hs : s' = s
            · subst hs
              rcases hframe.held r hr with hr' | hle
              · rw [hsecurity r ((hinv.book_inv s').allocated r hr')]
                exact hinv.resting_security s' r hr'
              · exact (hframe.created r hle (hframe.book_inv.allocated r hr)).2.1
            · rw [hothers s' hs] at hr
              rw [hold s' r hs hr]
              exact hinv.resting_security s' r hr
          ids_unique := fun r hr r' hr' heq => by
            rcases hage r hr with hlt | ⟨rfl, hnew, -⟩
            · rcases hage r' hr' with hlt' | ⟨rfl, hnew', -⟩
              · rw [hid r hlt, hid r' hlt'] at heq
                exact hinv.ids_unique r hlt r' hlt' heq
              · rw [hid r hlt, hnew'] at heq
                exact ((hinv.ids_lt r hlt).ne heq).elim
            · rcases hage r' hr' with hlt' | ⟨rfl, hnew', -⟩
              · rw [hnew, hid r' hlt'] at heq
                exact ((hinv.ids_lt r' hlt').ne heq.symm).elim
              · rfl
          ids_lt := fun r hr => by
            rcases hage r hr with hlt | ⟨-, hnew, hnext⟩
            · rw [hid r hlt]
              exact lt_of_lt_of_le (hinv.ids_lt r hlt) hnextId
            · rw [hnew, hnext]
              exact Nat.lt_succ_self _ }

end EngineInv

namespace EngineLaw

variable {guard : SecurityId → BookState → BookOp → Prop}
  {L : SecurityId → Option OrderRef → List EngineEvent → Heap Order → OrderBook → Prop}
  {e : FullMatchingEngine} {op : EngineOp} {es : List EngineEvent}

/-- A request meets the guard of the book it reaches. -/
def Admitted (guard : SecurityId → BookState → BookOp → Prop) (e : FullMatchingEngine)
    (op : EngineOp) : Prop :=
  ∀ s bop, e.route op = some (s, bop) → guard s (e.bookState s) bop

/-- One request keeps the law on every book. -/
theorem step (hlaw : EngineLaw guard L) (hinv : EngineInv e) (hfresh : op.Fresh)
    (hguard : Admitted guard e op) (hL : ∀ s, L s none es e.heap (e.bookAt s)) :
    ∀ s, L s none (es ++ (e.outcome op).events) (e.outcome op).engine.heap
      ((e.outcome op).engine.bookAt s) := by
  intro s'
  cases hroute : e.route op with
  | none =>
      rcases FullMatchingEngine.step_of_not_routed hroute with ⟨hheap, hbooks, hevents⟩
      rw [hheap, hbooks]
      rcases hevents with hevents | ⟨x, hevents⟩ | ⟨x, hevents⟩
      · rw [hevents, List.append_nil]
        exact hL s'
      · rw [hevents]
        exact hlaw.turnedAway x (hinv.book_inv s') (hL s')
      · rw [hevents]
        exact (hlaw.law s').refused x (hinv.book_inv s') (hL s')
  | some routed =>
      rcases routed with ⟨s, bop⟩
      have hframe := hinv.routedFrame hfresh hroute
      have hinv' := hinv.step hfresh
      rcases FullMatchingEngine.outcome_of_route hroute with ⟨hevents, hheap, -⟩
      rcases FullMatchingEngine.step_of_route hroute with ⟨hbook, hothers⟩
      have hactive : L s none (es ++ (e.outcome op).events) (e.outcome op).engine.heap
          ((e.outcome op).engine.bookAt s) := by
        rw [hevents, hheap, hbook]
        exact ((hlaw.law s).step (hinv.book_inv s) (hinv.fresh_of_route hroute hfresh)
          (hguard s bop hroute) (hL s)).1
      by_cases hs : s' = s
      · rw [hs]
        exact hactive
      · rw [hothers s' hs]
        refine hlaw.frame hs (hinv.book_inv s') hframe.next_le (hinv.resting_security s')
          hframe.identity_eq ?_ ?_ ?_ (hL s') hactive
        · intro r hr hsecurity
          exact hframe.untouched r hr (hsecurity ▸ hs)
        · intro r hle hlt
          exact (hframe.created r hle hlt).2.1
        · intro r hr hsecurity x hx hmentions
          -- The event speaks of an order of the book it came from.
          rcases hframe.mentioned x hx _ hmentions with ⟨r', hr', hheld, hid⟩
          have hsame : r' = r := by
            apply hinv'.ids_unique r' hr' r (lt_of_lt_of_le hr hframe.next_le)
            rw [hid, hframe.untouched r hr (hsecurity ▸ hs)]
          subst hsame
          rcases hheld with hheld | hle
          · exact hs (hsecurity.symm.trans (hinv.resting_security s r' hheld))
          · exact Nat.not_lt_of_le hle hr

/-- A whole run from the engine without requests. -/
theorem run (hlaw : EngineLaw guard L)
    (hinit : ∀ s, L s none [] .empty { securityId := s }) {ops : List EngineOp}
    (hadmits : FullMatchingEngine.machine.Admits
      (fun e op => op.Fresh ∧ Admitted guard e op) {} ops) :
    let r := FullMatchingEngine.machine.run {} ops
    EngineInv r.1 ∧ ∀ s, L s none r.2 r.1.heap (r.1.bookAt s) := by
  refine Machine.history_invariant
    (P := fun _ e es => EngineInv e ∧ ∀ s, L s none es e.heap (e.bookAt s))
    ⟨EngineInv.empty, hinit⟩ ?_ ops hadmits
  intro _ e es op hP hop
  exact ⟨hP.1.step hop.1, hlaw.step hP.1 hop.1 hop.2 hP.2⟩

end EngineLaw

end SimCme
