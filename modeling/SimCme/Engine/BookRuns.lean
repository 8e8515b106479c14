import SimCme.Engine.Matching
import SimCme.Library.Machine

/-!
# Runs of a book

A run offers a book any finite list of additions, cancellations and
modifications.  Every operation is a short sequence of moves: an order is
accepted or taken out of its level, trades, and enters a level, is cancelled or
is dropped.  A property of the history, the orders and the book that every move
preserves holds after every run; {lit}`BookLaw` lists the moves and
{lit}`BookLaw.run` is that rule.  The first argument of the property is the order
the operation has in hand.

Main results:

- Theorem {lit}`BookLaw.step`: one operation, from its moves.
- Theorem {lit}`BookLaw.run`: a whole run, by induction over its operations.
-/

namespace SimCme

open Library

/-- One call on a book.  An addition brings a new order object. -/
inductive BookOp where
  | add (o : Order)
  | cancel (orderId : OrderId)
  | modify (orderId : OrderId) (newPrice : Price) (newQty : Int) (newClOrdId : ClOrdId)
deriving DecidableEq, Repr

/-- A book together with the orders it points to. -/
structure BookState where
  heap : Heap Order
  book : OrderBook

namespace BookState

/-- A book that no order has reached yet. -/
def empty (securityId : SecurityId) : BookState where
  heap := .empty
  book := { securityId := securityId }

/-- What one call leaves behind and emits. -/
def outcome (s : BookState) : BookOp → OrderBook.Outcome
  | .add o => s.book.addOrder (s.heap.alloc o) s.heap.next
  | .cancel orderId => s.book.cancelOrder s.heap orderId
  | .modify orderId newPrice newQty newClOrdId =>
      s.book.modifyOrder s.heap orderId newPrice newQty newClOrdId

/-- The machine whose inputs are calls and whose outputs are events. -/
def machine : Machine BookState BookOp EngineEvent where
  step s op :=
    let r := s.outcome op
    (⟨r.heap, r.book⟩, r.events)

end BookState

/-- An order nobody has filled, under an id no earlier order used. -/
def FreshOrder (h : Heap Order) (o : Order) : Prop :=
  o.filledQty = 0 ∧ ∀ r < h.next, (h.read r).orderId ≠ o.orderId

instance (h : Heap Order) (o : Order) : Decidable (FreshOrder h o) :=
  inferInstanceAs (Decidable (o.filledQty = 0 ∧ ∀ r < h.next, (h.read r).orderId ≠ o.orderId))

/-- No two orders share an id. -/
def UniqueIds (h : Heap Order) : Prop :=
  ∀ r < h.next, ∀ r' < h.next, (h.read r).orderId = (h.read r').orderId → r = r'

namespace UniqueIds

variable {h h' : Heap Order}

theorem congr_ids (hunique : UniqueIds h) (hnext : h'.next = h.next)
    (hid : ∀ r, (h'.read r).orderId = (h.read r).orderId) : UniqueIds h' := by
  intro r hr r' hr' heq
  rw [hid, hid] at heq
  exact hunique r (hnext ▸ hr) r' (hnext ▸ hr') heq

theorem alloc (hunique : UniqueIds h) {o : Order} (hfresh : FreshOrder h o) :
    UniqueIds (h.alloc o) := by
  intro r hr r' hr' heq
  by_cases hrn : r = h.next
  · by_cases hrn' : r' = h.next
    · rw [hrn, hrn']
    · rw [hrn, h.read_alloc_next, h.read_alloc_of_ne o hrn'] at heq
      have hlt : r' < h.next := lt_of_le_of_ne (Nat.le_of_lt_succ hr') hrn'
      exact (hfresh.2 r' hlt heq.symm).elim
  · have hlt : r < h.next := lt_of_le_of_ne (Nat.le_of_lt_succ hr) hrn
    rw [h.read_alloc_of_ne o hrn] at heq
    by_cases hrn' : r' = h.next
    · rw [hrn', h.read_alloc_next] at heq
      exact (hfresh.2 r hlt heq).elim
    · rw [h.read_alloc_of_ne o hrn'] at heq
      have hlt' : r' < h.next := lt_of_le_of_ne (Nat.le_of_lt_succ hr') hrn'
      exact hunique r hlt r' hlt' heq

end UniqueIds

/-- Callers add fresh orders; they cancel and modify as they like. -/
def BookOp.Fresh (s : BookState) : BookOp → Prop
  | .add o => FreshOrder s.heap o
  | .cancel _ => True
  | .modify _ _ _ _ => True

instance (s : BookState) : (op : BookOp) → Decidable (op.Fresh s)
  | .add o => inferInstanceAs (Decidable (FreshOrder s.heap o))
  | .cancel _ => .isTrue trivial
  | .modify _ _ _ _ => .isTrue trivial

/-! ## Orders in hand -/

namespace BookInv

variable {h : Heap Order} {b : OrderBook} {o : Order}

/-- A new order object changes no level. -/
theorem alloc (hinv : BookInv h b) (o : Order) : BookInv (h.alloc o) b := by
  apply hinv.congr_heap
  · intro r hr
    exact h.read_alloc_of_ne o (hinv.allocated r hr).ne
  · exact Nat.le_succ _

theorem inFlight_alloc (hinv : BookInv h b) (hfresh : FreshOrder h o) :
    InFlight (h.alloc o) b h.next where
  allocated := Nat.lt_succ_self _
  unindexed := by
    rw [h.read_alloc_next]
    cases hindexed : b.ordersById o.orderId with
    | none => rfl
    | some r =>
        have hr := (hinv.indexed _ r).mp hindexed
        exact (hfresh.2 r (hinv.allocated r hr.1) hr.2).elim

end BookInv

/-- Rewriting an order in flight under the same id keeps it in flight. -/
theorem InFlight.modify {h : Heap Order} {b : OrderBook} {r : OrderRef}
    (hflight : InFlight h b r) {f : Order → Order}
    (hid : (f (h.read r)).orderId = (h.read r).orderId) : InFlight (h.modify r f) b r where
  allocated := hflight.allocated
  unindexed := by
    rw [h.read_modify_self, hid]
    exact hflight.unindexed

/-- Taking a resting order out and modifying it. -/
theorem BookInv.modified {h : Heap Order} {b : OrderBook} {r : OrderRef}
    (hinv : BookInv h b) (hr : b.Resting r) (newPrice : Price) (newQty : Int)
    (newClOrdId : ClOrdId) :
    let h' := h.modify r fun o => OrderBook.modifiedOrder o newPrice newQty newClOrdId
    BookInv h' (b.removeFromBook h r).1 ∧ InFlight h' (b.removeFromBook h r).1 r := by
  have hremoved := hinv.removeFromBook hr
  have hflight := hinv.inFlight_removeFromBook hr
  have hfree := hremoved.not_resting_of_inFlight hflight
  exact ⟨hremoved.write_of_not_resting hfree _, hflight.modify rfl⟩

/-- Cancelling the rest of an order touches no field but the status. -/
theorem OrderBook.cancelRest_read {β : Type} (field : Order → β)
    (hfield : ∀ o : Order, field { o with status := .canceled } = field o)
    (b : OrderBook) (h : Heap Order) (r x : OrderRef) :
    field ((b.cancelRest h r).heap.read x) = field (h.read x) :=
  Heap.read_modify_field field hfield h r x

/-- A modification touches no field but the price, the quantity and the client id. -/
theorem OrderBook.modified_read {β : Type} {p : Price} {q : Int} {c : ClOrdId}
    (field : Order → β) (hfield : ∀ o, field (OrderBook.modifiedOrder o p q c) = field o)
    (h : Heap Order) (r x : OrderRef) :
    field ((h.modify r fun o => OrderBook.modifiedOrder o p q c).read x) = field (h.read x) :=
  Heap.read_modify_field field hfield h r x

theorem OrderBook.cancelRest_read_of_ne (b : OrderBook) (h : Heap Order) {r x : OrderRef}
    (hne : x ≠ r) : (b.cancelRest h r).heap.read x = h.read x := by
  simp [cancelRest, hne]

/-- An accepted order that {lit}`addOrder` neither rests nor cancels: of no type
it handles, with quantity left and nothing more to trade against. -/
structure Stranded (h : Heap Order) (b : OrderBook) (r : OrderRef) : Prop where
  remaining_pos : 0 < (h.read r).remainingQty
  not_limit : (h.read r).orderType ≠ .limit
  not_market : (h.read r).orderType ≠ .market
  not_ioc : (h.read r).timeInForce ≠ .ioc
  not_fok : (h.read r).timeInForce ≠ .fok
  uncrossed : ∀ e ∈ (b.levels (OrderBook.takerSide (h.read r))).entries,
    OrderBook.takerStop (h.read r) e.1 = true

/-- The moves that preserve a property of the order in hand, the history, the
orders and the book.  The guard restricts the calls that callers make. -/
structure BookLaw (guard : BookState → BookOp → Prop)
    (P : Option OrderRef → List EngineEvent → Heap Order → OrderBook → Prop) : Prop where
  refused : ∀ {es h b} (e : OrderCancelRejected), BookInv h b → P none es h b →
    P none (es ++ [.orderCancelRejected e]) h b
  rejected : ∀ {es h b o} (e : OrderRejected), BookInv h b → FreshOrder h o →
    guard ⟨h, b⟩ (.add o) → P none es h b → P none (es ++ [.orderRejected e]) (h.alloc o) b
  accepted : ∀ {es h b o}, BookInv h b → FreshOrder h o → guard ⟨h, b⟩ (.add o) →
    P none es h b → P (some h.next) (es ++ [OrderBook.acceptedEvent o]) (h.alloc o) b
  withdrawn : ∀ {es h b r}, BookInv h b → b.Resting r →
    guard ⟨h, b⟩ (.cancel (h.read r).orderId) → P none es h b →
    P none
      (es ++ ((b.removeFromBook h r).2 ++
        ((b.removeFromBook h r).1.cancelRest h r).events))
      ((b.removeFromBook h r).1.cancelRest h r).heap (b.removeFromBook h r).1
  replaced : ∀ {es h b r newPrice newQty newClOrdId}, BookInv h b → b.Resting r →
    guard ⟨h, b⟩ (.modify (h.read r).orderId newPrice newQty newClOrdId) →
    P none es h b →
    P (some r)
      (es ++ ((b.removeFromBook h r).2 ++
        [OrderBook.modifiedEvent
          (OrderBook.modifiedOrder (h.read r) newPrice newQty newClOrdId) newPrice newQty]))
      (h.modify r fun o => OrderBook.modifiedOrder o newPrice newQty newClOrdId)
      (b.removeFromBook h r).1
  traded : ∀ {es h b t}, BookInv h b → InFlight h b t →
    (f : OrderBook.Fill (OrderBook.takerSide (h.read t)) (OrderBook.takerStop (h.read t))
      t h b) →
    P (some t) es h b → P (some t) (es ++ f.events) f.heap f.book
  entered : ∀ {es h b r}, BookInv h b → InFlight h b r →
    (h.read r).Restable → 0 < (h.read r).remainingQty →
    (∀ e ∈ (b.levels (OrderBook.takerSide (h.read r))).entries,
      OrderBook.takerStop (h.read r) e.1 = true) →
    P (some r) es h b →
    P none (es ++ (b.insertResting h r).2) h (b.insertResting h r).1
  cancelled : ∀ {es h b r}, BookInv h b → InFlight h b r → 0 < (h.read r).remainingQty →
    P (some r) es h b → P none (es ++ (b.cancelRest h r).events) (b.cancelRest h r).heap b
  dropped : ∀ {es h b r}, BookInv h b → InFlight h b r →
    (h.read r).remainingQty ≤ 0 ∨ Stranded h b r → P (some r) es h b → P none es h b

namespace BookLaw

variable {guard : BookState → BookOp → Prop}
  {P : Option OrderRef → List EngineEvent → Heap Order → OrderBook → Prop}
  {es : List EngineEvent} {h h' : Heap Order} {b b' : OrderBook} {r : OrderRef}

/-- A chain of trades, from one. -/
theorem fills (hlaw : BookLaw guard P) {s : BookSide} {stop : Price → Bool}
    {events : List EngineEvent} (hfills : OrderBook.Fills s stop r h b events h' b')
    (hs : s = OrderBook.takerSide (h.read r))
    (hstop : stop = OrderBook.takerStop (h.read r)) (hinv : BookInv h b)
    (hflight : InFlight h b r) (hP : P (some r) es h b) : P (some r) (es ++ events) h' b' := by
  induction hfills generalizing es with
  | done => simpa using hP
  | trade f _ ih =>
      have hterms := f.read_terms r
      subst hs
      subst hstop
      rw [← List.append_assoc]
      apply ih
      · exact (Order.field_of_terms OrderBook.takerSide hterms fun _ => rfl).symm
      · exact (Order.field_of_terms OrderBook.takerStop hterms fun _ => rfl).symm
      · exact f.bookInv hinv hflight
      · exact f.inFlight hflight
      · exact hlaw.traded hinv hflight f hP

/-- What {lit}`addOrder` does with an order that has finished matching. -/
theorem rest (hlaw : BookLaw guard P) (hinv : BookInv h b) (hflight : InFlight h b r)
    (hdone : (h.read r).remainingQty ≤ 0 ∨
      ∀ e ∈ (b.levels (OrderBook.takerSide (h.read r))).entries,
        OrderBook.takerStop (h.read r) e.1 = true)
    (hP : P (some r) es h b) :
    P none (es ++ (b.restOrder h r).events) (b.restOrder h r).heap (b.restOrder h r).book ∧
      BookInv (b.restOrder h r).heap (b.restOrder h r).book := by
  have hfree := hinv.not_resting_of_inFlight hflight
  unfold OrderBook.restOrder
  by_cases hfull : (h.read r).isFullyFilled
  · have hle := (Order.isFullyFilled_iff _).mp hfull
    simp only [hfull, if_true, List.append_nil]
    exact ⟨hlaw.dropped hinv hflight (Or.inl hle) hP, hinv⟩
  · have hpos := (Order.not_isFullyFilled_iff _).mp (Bool.not_eq_true _ ▸ hfull)
    have huncrossed := hdone.resolve_left (not_le.mpr hpos)
    simp only [hfull, if_false, Bool.false_eq_true]
    by_cases htif : (h.read r).timeInForce = .ioc ∨ (h.read r).timeInForce = .fok
    · rw [if_pos htif]
      exact ⟨hlaw.cancelled hinv hflight hpos hP, hinv.write_of_not_resting hfree _⟩
    · rw [if_neg htif]
      by_cases hlimit : (h.read r).orderType = .limit
      · rw [if_pos hlimit]
        have hrestable : (h.read r).Restable := ⟨hlimit, not_or.mp htif⟩
        exact ⟨hlaw.entered hinv hflight hrestable hpos huncrossed hP,
          hinv.insertResting hflight hrestable hpos⟩
      · rw [if_neg hlimit]
        by_cases hmarket : (h.read r).orderType = .market
        · rw [if_pos hmarket]
          exact ⟨hlaw.cancelled hinv hflight hpos hP, hinv.write_of_not_resting hfree _⟩
        · rw [if_neg hmarket]
          have hstranded : Stranded h b r :=
            { remaining_pos := hpos
              not_limit := hlimit
              not_market := hmarket
              not_ioc := fun h => htif (Or.inl h)
              not_fok := fun h => htif (Or.inr h)
              uncrossed := huncrossed }
          simp only [List.append_nil]
          exact ⟨hlaw.dropped hinv hflight (Or.inr hstranded) hP, hinv⟩

/-- What {lit}`modifyOrder` does with an order that has finished matching. -/
theorem reinsert (hlaw : BookLaw guard P) (hinv : BookInv h b) (hflight : InFlight h b r)
    (hrestable : (h.read r).Restable)
    (hdone : (h.read r).remainingQty ≤ 0 ∨
      ∀ e ∈ (b.levels (OrderBook.takerSide (h.read r))).entries,
        OrderBook.takerStop (h.read r) e.1 = true)
    (hP : P (some r) es h b) :
    P none (es ++ (b.reinsertOrder h r).events) (b.reinsertOrder h r).heap
        (b.reinsertOrder h r).book ∧
      BookInv (b.reinsertOrder h r).heap (b.reinsertOrder h r).book := by
  unfold OrderBook.reinsertOrder
  simp only [hrestable.1, and_true]
  split
  · rename_i hopen
    have hpos := (Order.not_isFullyFilled_iff _).mp hopen
    have huncrossed := hdone.resolve_left (not_le.mpr hpos)
    exact ⟨hlaw.entered hinv hflight hrestable hpos huncrossed hP,
      hinv.insertResting hflight hrestable hpos⟩
  · rename_i hfull
    have hle := (Order.isFullyFilled_iff _).mp (Bool.not_eq_false _ ▸ hfull)
    simp only [List.append_nil]
    exact ⟨hlaw.dropped hinv hflight (Or.inl hle) hP, hinv⟩

/-- Matching an order in hand, with what holds when it is over. -/
theorem matched (hlaw : BookLaw guard P) (hinv : BookInv h b) (hflight : InFlight h b r)
    (hP : P (some r) es h b) :
    let m := b.matchOrder h r
    P (some r) (es ++ m.events) m.heap m.book ∧ BookInv m.heap m.book ∧
      InFlight m.heap m.book r ∧ (m.heap.read r).terms = (h.read r).terms ∧
      ((m.heap.read r).remainingQty ≤ 0 ∨
        ∀ e ∈ (m.book.levels (OrderBook.takerSide (m.heap.read r))).entries,
          OrderBook.takerStop (m.heap.read r) e.1 = true) := by
  rcases OrderBook.matchOrder_fills hinv hflight with ⟨hfills, hdone⟩
  rcases hfills.bookInv hinv hflight with ⟨hinv', hflight'⟩
  have hterms := hfills.read_terms r
  have hside := Order.field_of_terms OrderBook.takerSide hterms fun _ => rfl
  have hstop := Order.field_of_terms OrderBook.takerStop hterms fun _ => rfl
  refine ⟨hlaw.fills hfills rfl rfl hinv hflight hP, hinv', hflight', hterms, ?_⟩
  rw [hside, hstop]
  exact hdone

theorem addOrder (hlaw : BookLaw guard P) {o : Order} (hinv : BookInv h b)
    (hfresh : FreshOrder h o) (hguard : guard ⟨h, b⟩ (.add o)) (hP : P none es h b) :
    let r := b.addOrder (h.alloc o) h.next
    P none (es ++ r.events) r.heap r.book ∧ BookInv r.heap r.book := by
  have hinv' := hinv.alloc o
  have hflight := hinv.inFlight_alloc hfresh
  simp only [OrderBook.addOrder]
  split
  · exact ⟨hlaw.rejected _ hinv hfresh hguard hP, hinv'⟩
  · have haccepted := hlaw.accepted hinv hfresh hguard hP
    rcases hlaw.matched hinv' hflight haccepted with ⟨hP', hinv'', hflight', -, hdone⟩
    have hrest := hlaw.rest hinv'' hflight' hdone hP'
    simp only [List.append_assoc] at hrest ⊢
    rw [h.read_alloc_next]
    exact hrest

theorem cancelOrder (hlaw : BookLaw guard P) (hinv : BookInv h b) {orderId : OrderId}
    (hguard : guard ⟨h, b⟩ (.cancel orderId)) (hP : P none es h b) :
    let r := b.cancelOrder h orderId
    P none (es ++ r.events) r.heap r.book ∧ BookInv r.heap r.book := by
  unfold OrderBook.cancelOrder
  cases hindexed : b.ordersById orderId with
  | none => exact ⟨hlaw.refused _ hinv hP, hinv⟩
  | some order =>
      rcases (hinv.indexed _ order).mp hindexed with ⟨hr, hid⟩
      subst hid
      have hfree := (hinv.removeFromBook hr).not_resting_of_inFlight
        (hinv.inFlight_removeFromBook hr)
      exact ⟨hlaw.withdrawn hinv hr hguard hP,
        (hinv.removeFromBook hr).write_of_not_resting hfree _⟩

theorem modifyOrder (hlaw : BookLaw guard P) (hinv : BookInv h b) {orderId : OrderId}
    {newPrice : Price} {newQty : Int} {newClOrdId : ClOrdId}
    (hguard : guard ⟨h, b⟩ (.modify orderId newPrice newQty newClOrdId))
    (hP : P none es h b) :
    let r := b.modifyOrder h orderId newPrice newQty newClOrdId
    P none (es ++ r.events) r.heap r.book ∧ BookInv r.heap r.book := by
  unfold OrderBook.modifyOrder
  cases hindexed : b.ordersById orderId with
  | none => exact ⟨hlaw.refused _ hinv hP, hinv⟩
  | some order =>
      rcases (hinv.indexed _ order).mp hindexed with ⟨hr, hid⟩
      subst hid
      rcases hinv.modified hr newPrice newQty newClOrdId with ⟨hinv', hflight'⟩
      have hP' := hlaw.replaced hinv hr hguard hP
      rcases hlaw.matched hinv' hflight' hP' with ⟨hmatched, hinv'', hflight'', hterms, hdone⟩
      have hrestable := Order.field_of_terms Order.Restable hterms fun _ => rfl
      rw [Heap.read_modify_self] at hrestable
      have hrested := hlaw.reinsert hinv'' hflight'' (hrestable ▸ hinv.restable_of_resting hr)
        hdone hmatched
      simp only [List.append_assoc, List.cons_append, List.nil_append,
        Heap.read_modify_self] at hrested ⊢
      exact hrested

/-- One operation, from its moves. -/
theorem step (hlaw : BookLaw guard P) {s : BookState} {op : BookOp}
    (hinv : BookInv s.heap s.book) (hfresh : op.Fresh s) (hguard : guard s op)
    (hP : P none es s.heap s.book) :
    let r := s.outcome op
    P none (es ++ r.events) r.heap r.book ∧ BookInv r.heap r.book := by
  cases op with
  | add o => exact hlaw.addOrder hinv hfresh hguard hP
  | cancel orderId => exact hlaw.cancelOrder hinv hguard hP
  | modify orderId newPrice newQty newClOrdId => exact hlaw.modifyOrder hinv hguard hP

/-- A whole run from a book that satisfies the property. -/
theorem run (hlaw : BookLaw guard P) {s : BookState} (hinv : BookInv s.heap s.book)
    (hP : P none [] s.heap s.book) {ops : List BookOp}
    (hadmits : BookState.machine.Admits (fun s op => op.Fresh s ∧ guard s op) s ops) :
    let r := BookState.machine.run s ops
    P none r.2 r.1.heap r.1.book ∧ BookInv r.1.heap r.1.book := by
  refine Machine.history_invariant
    (P := fun _ s es => P none es s.heap s.book ∧ BookInv s.heap s.book)
    ⟨hP, hinv⟩ ?_ ops hadmits
  intro _ s es op hs hop
  exact hlaw.step hs.2 hop.1 hop.2 hs.1

end BookLaw

/-- Every book that fresh orders reach is valid. -/
theorem BookInv.of_run (securityId : SecurityId) {ops : List BookOp}
    (hadmits : BookState.machine.Admits (fun s op => op.Fresh s) (.empty securityId) ops) :
    let s := (BookState.machine.run (.empty securityId) ops).1
    BookInv s.heap s.book := by
  have hlaw : BookLaw (fun _ _ => True) fun _ _ _ _ => True := by
    constructor <;> intros <;> trivial
  exact (hlaw.run (BookInv.empty .empty securityId) trivial
    (hadmits.mono fun s op hop => ⟨hop, trivial⟩)).2

/-! ## Properties of the orders held -/

/-- The orders in the book and the one in hand have a property. -/
def HeldOrders (Q : Order → Prop) (hand : Option OrderRef) (_ : List EngineEvent)
    (h : Heap Order) (b : OrderBook) : Prop :=
  ∀ r, b.Resting r ∨ hand = some r → Q (h.read r)

theorem heldOrders_empty (Q : Order → Prop) (securityId : SecurityId) :
    HeldOrders Q none [] (BookState.empty securityId).heap
      (BookState.empty securityId).book := by
  intro r hr
  rcases hr with hr | hr
  · exact (BookInv.not_resting_empty securityId r hr).elim
  · contradiction

/-- A property of orders that additions and modifications establish and that fills
keep holds of every order held. -/
theorem heldOrders_law_of_fill {guard : BookState → BookOp → Prop} {Q : Order → Prop}
    (hfill : ∀ (o : Order) (qty : Int), Q o → Q (o.fill qty))
    (hadd : ∀ s o, guard s (.add o) → Q o)
    (hmodify : ∀ s r newPrice newQty newClOrdId,
      guard s (.modify (s.heap.read r).orderId newPrice newQty newClOrdId) →
      Q (s.heap.read r) →
      Q (OrderBook.modifiedOrder (s.heap.read r) newPrice newQty newClOrdId)) :
    BookLaw guard (HeldOrders Q) where
  refused _ _ hP := hP
  rejected := by
    intro es h b o e hinv _ _ hP r hr
    rcases hr with hr | hr
    · rw [h.read_alloc_of_ne o (hinv.allocated r hr).ne]
      exact hP r (Or.inl hr)
    · contradiction
  accepted := by
    intro es h b o hinv _ hguard hP r hr
    rcases hr with hr | hr
    · rw [h.read_alloc_of_ne o (hinv.allocated r hr).ne]
      exact hP r (Or.inl hr)
    · cases hr
      rw [h.read_alloc_next]
      exact hadd _ o hguard
  withdrawn := by
    intro es h b r hinv hr _ hP x hx
    rcases hx with hx | hx
    · have hx' := (OrderBook.resting_removeFromBook hinv hr x).mp hx
      rw [OrderBook.cancelRest_read_of_ne _ h hx'.2]
      exact hP x (Or.inl hx'.1)
    · contradiction
  replaced := by
    intro es h b r newPrice newQty newClOrdId hinv hr hguard hP x hx
    by_cases hxr : x = r
    · subst hxr
      rw [h.read_modify_self]
      exact hmodify ⟨h, b⟩ x newPrice newQty newClOrdId hguard (hP x (Or.inl hr))
    · rw [h.read_modify_of_ne _ hxr]
      rcases hx with hx | hx
      · exact hP x (Or.inl ((OrderBook.resting_removeFromBook hinv hr x).mp hx).1)
      · cases hx
        exact (hxr rfl).elim
  traded := by
    intro es h b t hinv hflight f hP x hx
    have hQ : Q (h.read x) := by
      rcases hx with hx | hx
      · exact hP x (Or.inl ((f.resting_iff hinv x).mp hx).1)
      · exact hP x (Or.inr hx)
    by_cases htaker : x = t
    · subst htaker
      rw [f.read_taker]
      exact hfill _ _ hQ
    · by_cases hmaker : x = f.maker
      · rw [hmaker, f.read_maker (f.maker_ne_taker hinv hflight)]
        exact hfill _ _ (hmaker ▸ hQ)
      · rw [f.read_of_ne htaker hmaker]
        exact hQ
  entered := by
    intro es h b r hinv _ _ _ _ hP x hx
    rcases hx with hx | hx
    · rcases (OrderBook.resting_insertResting hinv x).mp hx with rfl | hx
      · exact hP x (Or.inr rfl)
      · exact hP x (Or.inl hx)
    · contradiction
  cancelled := by
    intro es h b r hinv hflight _ hP x hx
    rcases hx with hx | hx
    · have hne : x ≠ r := by
        rintro rfl
        exact hinv.not_resting_of_inFlight hflight hx
      rw [b.cancelRest_read_of_ne h hne]
      exact hP x (Or.inl hx)
    · contradiction
  dropped := by
    intro es h b r _ _ _ hP x hx
    rcases hx with hx | hx
    · exact hP x (Or.inl hx)
    · contradiction

/-- A property of the terms of an order that additions and modifications
establish holds of every order held. -/
theorem heldOrders_law {guard : BookState → BookOp → Prop} {Q : Order → Prop}
    (hterms : ∀ o o' : Order, o'.terms = o.terms → Q o → Q o')
    (hadd : ∀ s o, guard s (.add o) → Q o)
    (hmodify : ∀ s r newPrice newQty newClOrdId,
      guard s (.modify (s.heap.read r).orderId newPrice newQty newClOrdId) →
      Q (s.heap.read r) →
      Q (OrderBook.modifiedOrder (s.heap.read r) newPrice newQty newClOrdId)) :
    BookLaw guard (HeldOrders Q) :=
  heldOrders_law_of_fill (fun o qty => hterms o _ (o.terms_fill qty)) hadd hmodify

end SimCme
