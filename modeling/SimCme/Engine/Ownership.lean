import SimCme.Engine.EngineRuns

/-!
# Who owns the orders

The books hold raw references; the engine owns the objects through a map from
order ids and remembers the security of each.  The clean-up after a request
decides from the fields of an order, not from the books, which entries it erases.
Along every run it never erases the entry of an order that rests somewhere.

Main results:

- Theorem {lit}`Ownership.step`: one request keeps every resting order owned.
- Theorem {lit}`ownership_of_run`: so does every run of the engine.
-/

namespace SimCme

open Library

/-! ## Orders that can still trade -/

/-- An order that was neither cancelled nor rejected. -/
def Order.Open (o : Order) : Prop :=
  o.status ≠ .canceled ∧ o.status ≠ .rejected

theorem Order.open_fill (o : Order) (qty : Int) : (o.fill qty).Open := by
  unfold Order.Open
  rw [Order.status_fill]
  split <;> simp

/-- Callers add orders in status New. -/
def BookOp.Unworked : BookOp → Prop
  | .add o => o.status = .new
  | _ => True

/-- The fields from which the engine tells that it need not track an order any more. -/
def Order.Finished (o : Order) : Prop :=
  o.isFullyFilled ∨ o.status = .canceled ∨ o.status = .rejected

/-- Resting orders are open. -/
theorem open_law : BookLaw (fun _ op => op.Unworked) (HeldOrders Order.Open) := by
  apply heldOrders_law_of_fill
  · intro o qty _
    exact o.open_fill qty
  · intro s o hnew
    have hstatus : o.status = .new := hnew
    simp [Order.Open, hstatus]
  · intro s r newPrice newQty newClOrdId _ _
    simp [Order.Open, OrderBook.modifiedOrder]

/-- Orders of other books keep their status. -/
theorem open_engineLaw :
    EngineLaw (fun _ _ op => op.Unworked) fun _ => HeldOrders Order.Open where
  law _ := open_law
  turnedAway _ _ hP := hP
  frame := by
    intro s s' es new h h' b b' _ hinv _ hsecurity _ hread _ _ hP _ r hr
    rcases hr with hr | hr
    · rw [hread r (hinv.allocated r hr) (hsecurity r hr)]
      exact hP r (Or.inl hr)
    · contradiction

/-- Fresh requests bring orders in status New to their books. -/
theorem EngineOp.Fresh.unworked {e : FullMatchingEngine} {op : EngineOp}
    (hfresh : op.Fresh) :
    EngineLaw.Admitted (fun _ _ bop => bop.Unworked) e op := by
  intro s bop hroute
  cases bop with
  | add o => exact ((FullMatchingEngine.route_add hroute).2.2.2 hfresh).1
  | cancel orderId => trivial
  | modify orderId newPrice newQty newClOrdId => trivial

/-! ## Ownership -/

/-- The maps of the engine agree with its books: every order that rests is owned
under its id and remembered with its book, and no id rests in two books. -/
structure Ownership (e : FullMatchingEngine) : Prop where
  owned : ∀ s r, (e.bookAt s).Resting r → e.ownedOrders (e.heap.read r).orderId = some r
  security : ∀ s r, (e.bookAt s).Resting r →
    e.orderToSecurity (e.heap.read r).orderId = some s
  same_keys : ∀ id, (e.ownedOrders id).isSome = (e.orderToSecurity id).isSome
  one_book : ∀ s s' r r', (e.bookAt s).Resting r → (e.bookAt s').Resting r' →
    (e.heap.read r).orderId = (e.heap.read r').orderId → s = s' ∧ r = r'
  keys_lt : ∀ id, (e.ownedOrders id).isSome → id < e.nextOrderId

namespace FullMatchingEngine

/-- A request that reaches no book leaves the maps alone. -/
theorem ownedOrders_of_not_routed {e : FullMatchingEngine} {op : EngineOp}
    (hroute : e.route op = none) :
    (e.outcome op).engine.ownedOrders = e.ownedOrders := by
  by_cases hop : ∀ s, op ≠ .addInstrument s
  · rcases outcome_of_not_routed hroute hop with ⟨⟨next, hengine⟩, -⟩
    rw [hengine]
  · push Not at hop
    rcases hop with ⟨securityId, rfl⟩
    simp only [outcome, addInstrument]
    split <;> rfl

@[simp]
theorem bookAt_untrack (e : FullMatchingEngine) (id : OrderId) (s : SecurityId) :
    (e.untrack id).bookAt s = e.bookAt s :=
  rfl

/-- What rests after a routed request rested before, or is the order it brought. -/
theorem resting_of_routed {e : FullMatchingEngine} {op : EngineOp} {s s' : SecurityId}
    {bop : BookOp} {r : OrderRef} (hinv : EngineInv e) (hfresh : op.Fresh)
    (hroute : e.route op = some (s, bop))
    (hr : ((e.outcome op).engine.bookAt s').Resting r) :
    ((e.bookAt s').Resting r ∧
        ((e.outcome op).engine.heap.read r).orderId = (e.heap.read r).orderId) ∨
      (s' = s ∧ r = e.heap.next ∧
        ((e.outcome op).engine.heap.read r).orderId = e.nextOrderId ∧
        (e.outcome op).engine.nextOrderId = e.nextOrderId + 1) := by
  have hframe := hinv.routedFrame hfresh hroute
  have hold : (e.bookAt s').Resting r →
      ((e.outcome op).engine.heap.read r).orderId = (e.heap.read r).orderId := fun hr' =>
    Order.field_of_identity Order.orderId
      (hframe.identity_eq r ((hinv.book_inv s').allocated r hr')) fun _ => rfl
  by_cases hs : s' = s
  · subst hs
    rcases hframe.held r hr with hr' | hle
    · exact Or.inl ⟨hr', hold hr'⟩
    · have hcreated := hframe.created r hle (hframe.book_inv.allocated r hr)
      exact Or.inr ⟨rfl, hcreated.1, hcreated.2.2.1, hcreated.2.2.2⟩
  · rw [(step_of_route hroute).2 s' hs] at hr
    exact Or.inl ⟨hr, hold hr⟩

/-- The clean-up of a request: it leaves the orders and the books alone and erases
at most one id, and only one under which a finished order is owned.  It keeps no
order that is filled or cancelled. -/
inductive CleanedUp (e : FullMatchingEngine) (id : OrderId) : FullMatchingEngine → Prop
  | kept (hopen : ∀ r, e.ownedOrders id = some r →
      ¬((e.heap.read r).isFullyFilled ∨ (e.heap.read r).status = .canceled)) :
      CleanedUp e id e
  | erased (hfinished : ∀ r, e.ownedOrders id = some r → (e.heap.read r).Finished) :
      CleanedUp e id (e.untrack id)

/-- The engine of a submission before its clean-up. -/
structure Submitted (e : FullMatchingEngine) (s : SecurityId) (e' : FullMatchingEngine) :
    Prop where
  owned_eq : ∀ id, e'.ownedOrders id =
    if id = e.nextOrderId then some e.heap.next else e.ownedOrders id
  security_eq : ∀ id, e'.orderToSecurity id =
    if id = e.nextOrderId then some s else e.orderToSecurity id
  next_eq : e'.nextOrderId = e.nextOrderId + 1

theorem submitOrder_cleanedUp {e : FullMatchingEngine} {order : Order} (now : Timestamp)
    {book : OrderBook} (hbook : e.orderBooks order.securityId = some book) :
    ∃ e', Submitted e order.securityId e' ∧
      CleanedUp e' e.nextOrderId (e.outcome (.submit order now)).engine := by
  have hstamped : (e.stamped order now).securityId = order.securityId := rfl
  have hid : (e.stamped order now).orderId = e.nextOrderId := rfl
  simp only [outcome, submitOrder, hstamped, hid, hbook]
  split
  · rename_i hfinished
    refine ⟨_, ⟨?_, ?_, ?_⟩, CleanedUp.erased ?_⟩
    · exact fun id => rfl
    · exact fun id => rfl
    · rfl
    · intro r hr
      simp only [setBook, track, if_true, Option.some.injEq] at hr
      subst hr
      exact hfinished
  · rename_i hopen
    refine ⟨_, ⟨?_, ?_, ?_⟩, CleanedUp.kept ?_⟩
    · exact fun id => rfl
    · exact fun id => rfl
    · rfl
    · intro r hr hfinished
      simp only [setBook, track, if_true, Option.some.injEq] at hr
      subst hr
      exact hopen (hfinished.imp_right Or.inl)

theorem modifyOrder_cleanedUp {e : FullMatchingEngine} {orderId : OrderId}
    {securityId : SecurityId} (newPrice : Price) (newQty : Int) (newClOrdId : ClOrdId)
    {book : OrderBook}
    (hbook : e.orderBooks (e.routeSecurity orderId securityId) = some book) :
    CleanedUp
      (e.setBook (e.routeSecurity orderId securityId)
        (book.modifyOrder e.heap orderId newPrice newQty newClOrdId))
      orderId
      (e.outcome (.modify orderId securityId newPrice newQty newClOrdId)).engine := by
  simp only [outcome, modifyOrder, hbook]
  split
  · rename_i hnone
    apply CleanedUp.kept
    intro r hr
    cases hnone.symm.trans hr
  · rename_i rawPtr howned
    split
    · rename_i hfinished
      apply CleanedUp.erased
      intro r hr
      cases howned.symm.trans hr
      exact hfinished.imp_right Or.inl
    · rename_i hopen
      apply CleanedUp.kept
      intro r hr
      cases howned.symm.trans hr
      exact hopen

theorem CleanedUp.heap_eq {e e' : FullMatchingEngine} {id : OrderId}
    (hclean : CleanedUp e id e') : e'.heap = e.heap := by
  cases hclean <;> rfl

theorem CleanedUp.bookAt_eq {e e' : FullMatchingEngine} {id : OrderId}
    (hclean : CleanedUp e id e') (s : SecurityId) : e'.bookAt s = e.bookAt s := by
  cases hclean <;> rfl

/-- A clean-up leaves every other id alone. -/
theorem CleanedUp.ownedOrders_of_ne {e e' : FullMatchingEngine} {id i : OrderId}
    (hclean : CleanedUp e id e') (hne : i ≠ id) : e'.ownedOrders i = e.ownedOrders i := by
  cases hclean with
  | kept _ => rfl
  | erased _ => simp [untrack, hne]

theorem CleanedUp.isSome_of_isSome {e e' : FullMatchingEngine} {id i : OrderId}
    (hclean : CleanedUp e id e') (hi : (e'.ownedOrders i).isSome) :
    (e.ownedOrders i).isSome := by
  by_cases hne : i = id
  · cases hclean with
    | kept _ => exact hi
    | erased _ => simp [untrack, hne] at hi
  · rw [← hclean.ownedOrders_of_ne hne]
    exact hi

/-- What is still tracked after the clean-up is neither filled nor cancelled. -/
theorem CleanedUp.open_of_tracked {e e' : FullMatchingEngine} {id : OrderId} {r : OrderRef}
    (hclean : CleanedUp e id e') (htracked : (e'.ownedOrders id).isSome)
    (hr : e.ownedOrders id = some r) :
    ¬((e'.heap.read r).isFullyFilled ∨ (e'.heap.read r).status = .canceled) := by
  cases hclean with
  | kept hopen => exact hopen r hr
  | erased _ => simp [untrack] at htracked

theorem CleanedUp.nextOrderId_eq {e e' : FullMatchingEngine} {id : OrderId}
    (hclean : CleanedUp e id e') : e'.nextOrderId = e.nextOrderId := by
  cases hclean <;> rfl

end FullMatchingEngine

namespace Ownership

variable {e e' : FullMatchingEngine} {op : EngineOp}

theorem empty : Ownership {} where
  owned s r hr := (BookInv.not_resting_empty s r hr).elim
  security s r hr := (BookInv.not_resting_empty s r hr).elim
  same_keys _ := rfl
  one_book s _ r _ hr := (BookInv.not_resting_empty s r hr).elim
  keys_lt _ hid := by contradiction

/-- The books follow from the two maps: an id leads to one order in one book. -/
theorem of_maps (howned : ∀ s r, (e.bookAt s).Resting r →
      e.ownedOrders (e.heap.read r).orderId = some r ∧
        e.orderToSecurity (e.heap.read r).orderId = some s)
    (hkeys : ∀ id, (e.ownedOrders id).isSome = (e.orderToSecurity id).isSome)
    (hlt : ∀ id, (e.ownedOrders id).isSome → id < e.nextOrderId) : Ownership e where
  owned s r hr := (howned s r hr).1
  security s r hr := (howned s r hr).2
  same_keys := hkeys
  one_book s s' r r' hr hr' heq := by
    have hfirst := howned s r hr
    rw [heq] at hfirst
    have hsecond := howned s' r' hr'
    exact ⟨Option.some.inj (hfirst.2.symm.trans hsecond.2),
      Option.some.inj (hfirst.1.symm.trans hsecond.1)⟩
  keys_lt := hlt

/-- A request that enters nothing under a new id and leaves the maps alone. -/
theorem keep (hown : Ownership e)
    (hheld : ∀ s r, (e'.bookAt s).Resting r →
      (e.bookAt s).Resting r ∧ (e'.heap.read r).orderId = (e.heap.read r).orderId)
    (howned : e'.ownedOrders = e.ownedOrders)
    (hsecurity : e'.orderToSecurity = e.orderToSecurity)
    (hnext : e.nextOrderId ≤ e'.nextOrderId) : Ownership e' := by
  apply of_maps
  · intro s r hr
    rcases hheld s r hr with ⟨hr', hid⟩
    rw [howned, hsecurity, hid]
    exact ⟨hown.owned s r hr', hown.security s r hr'⟩
  · intro id
    rw [howned, hsecurity]
    exact hown.same_keys id
  · intro id hid
    rw [howned] at hid
    exact lt_of_lt_of_le (hown.keys_lt id hid) hnext

/-- Erasing an id under which nothing rests. -/
theorem erase (hown : Ownership e) {id : OrderId}
    (hgone : ∀ s r, (e.bookAt s).Resting r → (e.heap.read r).orderId ≠ id) :
    Ownership (e.untrack id) := by
  apply of_maps
  · intro s r hr
    have hne := hgone s r hr
    simp only [FullMatchingEngine.untrack, hne, if_false]
    exact ⟨hown.owned s r hr, hown.security s r hr⟩
  · intro i
    simp only [FullMatchingEngine.untrack]
    split
    · rfl
    · exact hown.same_keys i
  · intro i hi
    simp only [FullMatchingEngine.untrack] at hi
    split at hi
    · contradiction
    · exact hown.keys_lt i hi

/-- Taking ownership of the order a request brings, under the next id. -/
theorem enter (hown : Ownership e) {s : SecurityId} {r₀ : OrderRef}
    (hheld : ∀ s' r, (e'.bookAt s').Resting r →
      ((e.bookAt s').Resting r ∧ (e'.heap.read r).orderId = (e.heap.read r).orderId) ∨
        (s' = s ∧ r = r₀ ∧ (e'.heap.read r).orderId = e.nextOrderId))
    (howned : ∀ id, e'.ownedOrders id =
      if id = e.nextOrderId then some r₀ else e.ownedOrders id)
    (hsecurity : ∀ id, e'.orderToSecurity id =
      if id = e.nextOrderId then some s else e.orderToSecurity id)
    (hnext : e'.nextOrderId = e.nextOrderId + 1) : Ownership e' := by
  apply of_maps
  · intro s' r hr
    rcases hheld s' r hr with ⟨hr', hid⟩ | ⟨rfl, rfl, hid⟩
    · have hlt := hown.keys_lt _ (by rw [hown.owned s' r hr']; rfl)
      rw [howned, hsecurity, hid, if_neg hlt.ne, if_neg hlt.ne]
      exact ⟨hown.owned s' r hr', hown.security s' r hr'⟩
    · rw [howned, hsecurity, hid, if_pos rfl, if_pos rfl]
      exact ⟨rfl, rfl⟩
  · intro id
    rw [howned, hsecurity]
    split
    · rfl
    · exact hown.same_keys id
  · intro id hid
    rw [howned] at hid
    rw [hnext]
    by_cases heq : id = e.nextOrderId
    · rw [heq]
      exact Nat.lt_succ_self _
    · rw [if_neg heq] at hid
      exact Nat.lt_succ_of_lt (hown.keys_lt id hid)

/-- A clean-up keeps ownership as long as no finished order rests. -/
theorem cleanUp (hown : Ownership e) {id : OrderId} (hclean : e.CleanedUp id e')
    (hunfinished : ∀ s r, (e'.bookAt s).Resting r → ¬(e'.heap.read r).Finished) :
    Ownership e' := by
  cases hclean with
  | kept _ => exact hown
  | erased hfinished =>
      apply hown.erase
      intro s r hr hid
      have howned := hown.owned s r hr
      rw [hid] at howned
      exact hunfinished s r hr (hfinished r howned)

end Ownership

/-- What every reachable engine satisfies: valid books, open resting orders, and
ownership. -/
structure OwnershipInv (e : FullMatchingEngine) : Prop where
  engine_inv : EngineInv e
  resting_open : ∀ s r, (e.bookAt s).Resting r → (e.heap.read r).Open
  ownership : Ownership e

namespace OwnershipInv

variable {e : FullMatchingEngine} {op : EngineOp}

theorem empty : OwnershipInv {} where
  engine_inv := EngineInv.empty
  resting_open s r hr := (BookInv.not_resting_empty s r hr).elim
  ownership := Ownership.empty

/-- One request leaves the resting orders open. -/
theorem open_step (hinv : OwnershipInv e) (hfresh : op.Fresh) :
    ∀ s r, ((e.outcome op).engine.bookAt s).Resting r →
      ((e.outcome op).engine.heap.read r).Open := by
  intro s r hr
  have hheld : ∀ s, HeldOrders Order.Open none [] e.heap (e.bookAt s) := by
    intro s r hr
    rcases hr with hr | hr
    · exact hinv.resting_open s r hr
    · contradiction
  exact open_engineLaw.step hinv.engine_inv hfresh hfresh.unworked hheld s r (Or.inl hr)

/-- No order the clean-up finds finished rests anywhere. -/
theorem unfinished (hinv : OwnershipInv e) (hfresh : op.Fresh) {s : SecurityId}
    {r : OrderRef} (hr : ((e.outcome op).engine.bookAt s).Resting r) :
    ¬((e.outcome op).engine.heap.read r).Finished := by
  have hopen := hinv.open_step hfresh s r hr
  have hpos := ((hinv.engine_inv.step hfresh).book_inv s).remaining_pos_of_resting hr
  rintro (hfull | hcanceled | hrejected)
  · have hle := (Order.isFullyFilled_iff _).mp hfull
    omega
  · exact hopen.1 hcanceled
  · exact hopen.2 hrejected

theorem submit (hinv : OwnershipInv e) {order : Order} {now : Timestamp}
    (hfresh : (EngineOp.submit order now).Fresh) :
    Ownership (e.outcome (.submit order now)).engine := by
  cases hbook : e.orderBooks order.securityId with
  | none =>
      have hstamped : (e.stamped order now).securityId = order.securityId := rfl
      simp only [FullMatchingEngine.outcome, FullMatchingEngine.submitOrder, hstamped, hbook]
      exact hinv.ownership.keep (fun s r hr => ⟨hr, rfl⟩) rfl rfl (Nat.le_succ _)
  | some book =>
      have hroute := FullMatchingEngine.route_submit now hbook
      rcases FullMatchingEngine.submitOrder_cleanedUp now hbook with
        ⟨e', hsubmitted, hclean⟩
      apply Ownership.cleanUp (e := e') ?_ hclean fun s r => hinv.unfinished hfresh
      refine hinv.ownership.enter ?_ hsubmitted.owned_eq hsubmitted.security_eq
        hsubmitted.next_eq
      intro s r hr
      rw [← hclean.bookAt_eq] at hr
      rw [← hclean.heap_eq]
      rcases FullMatchingEngine.resting_of_routed hinv.engine_inv hfresh hroute hr with
        hold | ⟨hs, hr₀, hid, -⟩
      · exact Or.inl hold
      · exact Or.inr ⟨hs, hr₀, hid⟩

/-- What rests after a request that brings no order rested before. -/
theorem resting_before (hinv : OwnershipInv e) (hfresh : op.Fresh) {s : SecurityId}
    {bop : BookOp} (hroute : e.route op = some (s, bop))
    (hnext : (e.outcome op).engine.nextOrderId = e.nextOrderId) (s' : SecurityId)
    (r : OrderRef) (hr : ((e.outcome op).engine.bookAt s').Resting r) :
    (e.bookAt s').Resting r ∧
      ((e.outcome op).engine.heap.read r).orderId = (e.heap.read r).orderId := by
  rcases FullMatchingEngine.resting_of_routed hinv.engine_inv hfresh hroute hr with
    hold | ⟨-, -, -, hsucc⟩
  · exact hold
  · omega

theorem modify (hinv : OwnershipInv e) (orderId : OrderId) (securityId : SecurityId)
    (newPrice : Price) (newQty : Int) (newClOrdId : ClOrdId) :
    Ownership (e.outcome (.modify orderId securityId newPrice newQty newClOrdId)).engine := by
  cases hbook : e.orderBooks (e.routeSecurity orderId securityId) with
  | none =>
      simp only [FullMatchingEngine.outcome, FullMatchingEngine.modifyOrder, hbook]
      exact hinv.ownership
  | some book =>
      have hroute := FullMatchingEngine.route_modify newPrice newQty newClOrdId hbook
      have hfresh : (EngineOp.modify orderId securityId newPrice newQty newClOrdId).Fresh :=
        trivial
      have hclean := FullMatchingEngine.modifyOrder_cleanedUp newPrice newQty newClOrdId hbook
      apply Ownership.cleanUp ?_ hclean fun s r => hinv.unfinished hfresh
      refine hinv.ownership.keep ?_ rfl rfl le_rfl
      intro s r hr
      rw [← hclean.bookAt_eq] at hr
      rw [← hclean.heap_eq]
      exact hinv.resting_before hfresh hroute hclean.nextOrderId_eq s r hr

/-- A cancellation reaches the book its order rests in, and takes it out there. -/
theorem cancel_gone (hinv : OwnershipInv e) {orderId : OrderId} {securityId : SecurityId}
    {book : OrderBook}
    (hbook : e.orderBooks (e.routeSecurity orderId securityId) = some book)
    (sessionUuid : SessionUuid) (s : SecurityId) (r : OrderRef)
    (hr : ((e.outcome (.cancel orderId securityId sessionUuid)).engine.bookAt s).Resting r)
    (hr' : (e.bookAt s).Resting r) : (e.heap.read r).orderId ≠ orderId := by
  intro hid
  have hroute := FullMatchingEngine.route_cancel sessionUuid hbook
  have hsecurity := hinv.ownership.security s r hr'
  have hs : e.routeSecurity orderId securityId = s := by
    rw [hid] at hsecurity
    simp [FullMatchingEngine.routeSecurity, hsecurity]
  have hindexed := (hinv.engine_inv.book_inv s).indexed_of_resting hr'
  rw [hid] at hindexed
  rw [hs] at hroute
  rw [(FullMatchingEngine.step_of_route hroute).1] at hr
  simp only [FullMatchingEngine.bookState, BookState.outcome, OrderBook.cancelOrder,
    hindexed] at hr
  exact ((OrderBook.resting_removeFromBook (hinv.engine_inv.book_inv s) hr' r).mp hr).2 rfl

theorem cancel (hinv : OwnershipInv e) (orderId : OrderId) (securityId : SecurityId)
    (sessionUuid : SessionUuid) :
    Ownership (e.outcome (.cancel orderId securityId sessionUuid)).engine := by
  cases hbook : e.orderBooks (e.routeSecurity orderId securityId) with
  | none =>
      simp only [FullMatchingEngine.outcome, FullMatchingEngine.cancelOrder, hbook]
      exact hinv.ownership
  | some book =>
      have hroute := FullMatchingEngine.route_cancel sessionUuid hbook
      have hfresh : (EngineOp.cancel orderId securityId sessionUuid).Fresh := trivial
      have hengine : (e.outcome (.cancel orderId securityId sessionUuid)).engine =
          (e.setBook (e.routeSecurity orderId securityId)
            (book.cancelOrder e.heap orderId)).untrack orderId := by
        simp only [FullMatchingEngine.outcome, FullMatchingEngine.cancelOrder, hbook]
      have hheld := hinv.resting_before hfresh hroute (by rw [hengine]; rfl)
      have hgone := hinv.cancel_gone hbook sessionUuid
      rw [hengine] at hheld hgone ⊢
      have hkept : Ownership (e.setBook (e.routeSecurity orderId securityId)
          (book.cancelOrder e.heap orderId)) := hinv.ownership.keep hheld rfl rfl le_rfl
      apply hkept.erase
      intro s r hr hid
      rcases hheld s r hr with ⟨hr', hsame⟩
      exact hgone s r hr hr' (hsame.symm.trans hid)

/-- One request keeps the invariant. -/
theorem step (hinv : OwnershipInv e) (hfresh : op.Fresh) :
    OwnershipInv (e.outcome op).engine where
  engine_inv := hinv.engine_inv.step hfresh
  resting_open := hinv.open_step hfresh
  ownership := by
    cases op with
    | addInstrument securityId =>
        have hroute : e.route (.addInstrument securityId) = none := rfl
        rcases FullMatchingEngine.step_of_not_routed hroute with ⟨hheap, hbooks, -⟩
        have hmaps : (e.addInstrument securityId).ownedOrders = e.ownedOrders ∧
            (e.addInstrument securityId).orderToSecurity = e.orderToSecurity ∧
            (e.addInstrument securityId).nextOrderId = e.nextOrderId := by
          unfold FullMatchingEngine.addInstrument
          split <;> simp
        refine hinv.ownership.keep ?_ hmaps.1 hmaps.2.1 hmaps.2.2.ge
        intro s r hr
        rw [hbooks] at hr
        rw [hheap]
        exact ⟨hr, rfl⟩
    | submit order now => exact hinv.submit hfresh
    | cancel orderId securityId sessionUuid => exact hinv.cancel orderId securityId sessionUuid
    | modify orderId securityId newPrice newQty newClOrdId =>
        exact hinv.modify orderId securityId newPrice newQty newClOrdId

/-- Every engine that fresh requests reach satisfies it. -/
theorem run {ops : List EngineOp}
    (hadmits : FullMatchingEngine.machine.Admits (fun _ op => op.Fresh) {} ops) :
    OwnershipInv (FullMatchingEngine.machine.run {} ops).1 :=
  Machine.state_invariant OwnershipInv.empty (fun _ _ hinv hfresh => hinv.step hfresh) ops
    hadmits

end OwnershipInv

/-- In every engine that fresh requests reach, the books hold owned orders only. -/
theorem ownership_of_run (ops : List EngineOp)
    (hadmits : FullMatchingEngine.machine.Admits (fun _ op => op.Fresh) {} ops) :
    Ownership (FullMatchingEngine.machine.run {} ops).1 :=
  (OwnershipInv.run hadmits).ownership

/-- Two books; a bid is filled in part and moved, another one is cancelled under the
wrong security. -/
theorem ownership_of_worked_bids :
    let ops : List EngineOp :=
      [.addInstrument 7, .addInstrument 8,
        .submit { securityId := 7, price := ⟨100⟩, quantity := 5 } 0,
        .submit { securityId := 8, price := ⟨100⟩, quantity := 5 } 0,
        .submit { securityId := 7, side := .sell, price := ⟨99⟩, quantity := 2 } 0,
        .modify 1 8 ⟨98⟩ 9 [], .cancel 2 7 0]
    Ownership (FullMatchingEngine.machine.run {} ops).1 :=
  ownership_of_run _ (by decide)

end SimCme
