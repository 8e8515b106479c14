import SimCme.Engine.BookRuns

/-!
# What every reachable book looks like

Main results:

- Theorem {lit}`representation_of_run`: every reachable book represents its
  resting orders faithfully.
- Theorem {lit}`uncrossed_of_run`: no reachable book is crossed or locked.
-/

namespace SimCme

open Library

/-! ## Representation -/

/-- The levels, their aggregates and the id index agree with the orders queued. -/
structure Representation (h : Heap Order) (b : OrderBook) : Prop where
  level_nonempty : ∀ s, ∀ e ∈ (b.levels s).entries, e.2.empty = false
  level_price : ∀ s, ∀ e ∈ (b.levels s).entries,
    e.2.price = e.1 ∧ ∀ r ∈ e.2.queue, (h.read r).price = e.1
  bid_side : ∀ e ∈ b.bidLevels.entries, ∀ r ∈ e.2.queue, (h.read r).side = .buy
  ask_side : ∀ e ∈ b.askLevels.entries, ∀ r ∈ e.2.queue, (h.read r).side = .sell
  level_total : ∀ s, ∀ e ∈ (b.levels s).entries,
    e.2.totalQuantity = (e.2.queue.map fun r => (h.read r).remainingQty).sum
  level_count : ∀ s, ∀ e ∈ (b.levels s).entries, e.2.orderCount = e.2.queue.length
  remaining_pos : ∀ s, ∀ r ∈ b.queued s, 0 < (h.read r).remainingQty
  indexed : ∀ id r, b.ordersById id = some r ↔
    r ∈ b.queued .bid ++ b.queued .ask ∧ (h.read r).orderId = id
  queued_once : (b.queued .bid ++ b.queued .ask).Nodup

theorem OrderBook.resting_iff_mem {b : OrderBook} {r : OrderRef} :
    b.Resting r ↔ r ∈ b.queued .bid ++ b.queued .ask := by
  rw [List.mem_append]
  constructor
  · rintro ⟨s, hr⟩
    cases s with
    | bid => exact Or.inl hr
    | ask => exact Or.inr hr
  · rintro (hr | hr)
    · exact ⟨.bid, hr⟩
    · exact ⟨.ask, hr⟩

/-- The invariant of the proofs gives the representation once every queued order
is on one of the two sides. -/
theorem BookInv.representation {h : Heap Order} {b : OrderBook} (hinv : BookInv h b)
    (hlisted : ∀ r, b.Resting r → (h.read r).side.Listed) : Representation h b := by
  have hside : ∀ s, ∀ e ∈ (b.levels s).entries, ∀ r ∈ e.2.queue,
      (h.read r).side = s.side := by
    intro s e he r hr
    rw [← (hinv.level_inv s e he).order_side r hr]
    exact (hlisted r ⟨s, OrderBook.mem_queued_iff.mpr ⟨e, he, hr⟩⟩).eq_side.symm
  exact
    { level_nonempty := fun s e he => by
        rw [← Bool.not_eq_true, PriceLevel.empty_iff]
        exact (hinv.level_inv s e he).queue_ne_nil
      level_price := fun s e he =>
        ⟨(hinv.level_inv s e he).price_eq, (hinv.level_inv s e he).order_price⟩
      bid_side := hside .bid
      ask_side := hside .ask
      level_total := fun s e he => (hinv.level_inv s e he).total_eq
      level_count := fun s e he => (hinv.level_inv s e he).count_eq
      remaining_pos := fun s r hr => hinv.remaining_pos_of_resting ⟨s, hr⟩
      indexed := fun id r => by
        rw [hinv.indexed, OrderBook.resting_iff_mem]
      queued_once := hinv.allQueued_nodup }

/-- Callers add orders of side Buy or Sell. -/
def BookOp.ListedSide : BookOp → Prop
  | .add o => o.side.Listed
  | .cancel _ => True
  | .modify _ _ _ _ => True

instance : (op : BookOp) → Decidable op.ListedSide
  | .add o => inferInstanceAs (Decidable o.side.Listed)
  | .cancel _ => .isTrue trivial
  | .modify _ _ _ _ => .isTrue trivial

theorem listedSide_law :
    BookLaw (fun _ op => op.ListedSide) (HeldOrders fun o => o.side.Listed) :=
  heldOrders_law
    (fun _ _ hterms hlisted =>
      Order.field_of_terms Order.side hterms (fun _ => rfl) ▸ hlisted)
    (fun _ _ hlisted => hlisted) fun _ _ _ _ _ _ hlisted => hlisted

/-- Every book that fresh orders reach represents its resting orders faithfully. -/
theorem representation_of_run (securityId : SecurityId) (ops : List BookOp)
    (hadmits : BookState.machine.Admits (fun s op => op.Fresh s ∧ op.ListedSide)
      (.empty securityId) ops) :
    let s := (BookState.machine.run (.empty securityId) ops).1
    Representation s.heap s.book := by
  have hinv : BookInv (BookState.empty securityId).heap (BookState.empty securityId).book :=
    BookInv.empty _ _
  have hrun := listedSide_law.run hinv (heldOrders_empty _ securityId) hadmits
  exact hrun.2.representation fun r hr => hrun.1 r (Or.inl hr)

/-- Two asks meet a larger bid, the second of them is filled in part, moved and
cancelled. -/
theorem representation_of_swept_asks :
    let ops : List BookOp :=
      [.add { orderId := 1, side := .sell, price := ⟨100⟩, quantity := 5 },
        .add { orderId := 2, side := .sell, price := ⟨101⟩, quantity := 5 },
        .add { orderId := 3, side := .buy, price := ⟨101⟩, quantity := 8 },
        .modify 2 ⟨102⟩ 9 [], .cancel 2]
    let s := (BookState.machine.run (.empty 7) ops).1
    Representation s.heap s.book :=
  representation_of_run 7 _ (by decide)

/-! ## Uncrossed books -/

/-- Every bid price is strictly below every ask price. -/
def Uncrossed (b : OrderBook) : Prop :=
  ∀ p ∈ b.bidLevels.keys, ∀ q ∈ b.askLevels.keys, p < q

/-- The prices of an edited half: the edited one, or one that was there. -/
theorem LevelEdit.Applies.mem_keys {e : LevelEdit} {b b' : OrderBook}
    (he : e.Applies b b') {s : BookSide} {p : Price} (hp : p ∈ (b'.levels s).keys) :
    s = e.side ∧ p = e.price ∧ e.new ≠ none ∨ p ∈ (b.levels s).keys := by
  rcases BookSide.eq_or_eq_opposite e.side s with rfl | rfl
  · simp only [OrderedMap.keys, he.after, he.before, LevelEdit.entries, List.map_append,
      List.mem_append] at hp ⊢
    cases hnew : e.new with
    | none =>
        rw [hnew] at hp
        simp only [Option.toList_none, List.map_nil, List.not_mem_nil, or_false] at hp
        tauto
    | some level =>
        rw [hnew] at hp
        simp only [Option.toList_some, List.map_cons, List.map_nil,
          List.mem_singleton] at hp
        simp only [ne_eq, reduceCtorEq, not_false_eq_true, and_true, true_and]
        tauto
  · rw [he.opposite] at hp
    exact Or.inr hp

/-- Changing or deleting a level adds no price. -/
theorem LevelEdit.Applies.keys_subset {e : LevelEdit} {b b' : OrderBook}
    (he : e.Applies b b') {level : PriceLevel} (hold : e.old = some level) {s : BookSide}
    {p : Price} (hp : p ∈ (b'.levels s).keys) : p ∈ (b.levels s).keys := by
  rcases he.mem_keys hp with ⟨rfl, rfl, -⟩ | hp
  · simp [OrderedMap.keys, he.before, LevelEdit.entries, hold]
  · exact hp

theorem Uncrossed.mono {b b' : OrderBook} (hb : Uncrossed b)
    (hsub : ∀ s, ∀ p ∈ (b'.levels s).keys, p ∈ (b.levels s).keys) : Uncrossed b' :=
  fun p hp q hq => hb p (hsub .bid p hp) q (hsub .ask q hq)

/-- An order whose opposite half is beyond its limit may enter. -/
theorem Uncrossed.insertResting {b : OrderBook} {h : Heap Order} {r : OrderRef}
    (hb : Uncrossed b) (hlimit : (h.read r).orderType = .limit)
    (hstop : ∀ e ∈ (b.levels (OrderBook.takerSide (h.read r))).entries,
      OrderBook.takerStop (h.read r) e.1 = true) :
    Uncrossed (b.insertResting h r).1 := by
  rcases OrderBook.insertResting_spec b h r with ⟨e, he⟩
  have hlimitStop : ∀ q ∈ (b.levels e.side.opposite).keys,
      OrderBook.limitStop e.side.opposite e.price q = true := by
    intro q hq
    rw [he.side_eq, he.price_eq] at *
    rcases List.mem_map.mp hq with ⟨x, hx, rfl⟩
    have hx' := hstop x hx
    unfold OrderBook.takerStop at hx'
    rw [if_neg (by simp [hlimit])] at hx'
    exact hx'
  intro p hp q hq
  rcases he.applies.mem_keys (s := .bid) hp with ⟨hside, rfl, -⟩ | hp'
  · rw [← hside] at hlimitStop
    have hopposite := he.applies.opposite
    rw [← hside] at hopposite
    have hq' : q ∈ (b.levels .ask).keys := by
      rw [← show _ = b.levels .ask from hopposite]
      exact hq
    exact of_decide_eq_true (hlimitStop q hq')
  · rcases he.applies.mem_keys (s := .ask) hq with ⟨hside, rfl, -⟩ | hq'
    · rw [← hside] at hlimitStop
      exact of_decide_eq_true (hlimitStop p hp')
    · exact hb p hp' q hq'

theorem uncrossed_law : BookLaw (fun _ _ => True) fun _ _ _ b => Uncrossed b where
  refused _ _ hP := hP
  rejected _ _ _ _ hP := hP
  accepted _ _ _ hP := hP
  withdrawn := by
    intro es h b r hinv hr _ hP
    rcases OrderBook.removeFromBook_spec hinv hr with ⟨e, level, he⟩
    exact hP.mono fun s p hp => he.applies.keys_subset he.old_eq hp
  replaced := by
    intro es h b r newPrice newQty newClOrdId hinv hr _ hP
    rcases OrderBook.removeFromBook_spec hinv hr with ⟨e, level, he⟩
    exact hP.mono fun s p hp => he.applies.keys_subset he.old_eq hp
  traded := by
    intro es h b t hinv _ f hP
    exact hP.mono fun s p hp => f.applies.keys_subset rfl hp
  entered := by
    intro es h b r hinv _ hrestable _ hstop hP
    exact hP.insertResting hrestable.1 hstop
  cancelled _ _ _ hP := hP
  dropped _ _ _ hP := hP

theorem Uncrossed.bestBid_lt_bestAsk {b : OrderBook} (hb : Uncrossed b)
    (hbid : b.bidLevels.entries ≠ []) (hask : b.askLevels.entries ≠ []) :
    b.bestBid < b.bestAsk := by
  cases hbids : b.bidLevels.entries with
  | nil => contradiction
  | cons x xs =>
      cases hasks : b.askLevels.entries with
      | nil => contradiction
      | cons y ys =>
          have hlt := hb x.1 (by simp [OrderedMap.keys, hbids]) y.1
            (by simp [OrderedMap.keys, hasks])
          simpa [OrderBook.bestBid, OrderBook.bestAsk, hbids, hasks] using hlt

/-- No book that fresh orders reach is crossed or locked. -/
theorem uncrossed_of_run (securityId : SecurityId) (ops : List BookOp)
    (hadmits : BookState.machine.Admits (fun s op => op.Fresh s) (.empty securityId) ops) :
    let b := (BookState.machine.run (.empty securityId) ops).1.book
    Uncrossed b ∧
      (b.bidLevels.entries ≠ [] → b.askLevels.entries ≠ [] → b.bestBid < b.bestAsk) := by
  have hempty : Uncrossed (BookState.empty securityId).book := by
    intro p hp
    simp [BookState.empty, OrderedMap.keys] at hp
  have hrun := uncrossed_law.run (BookInv.empty .empty securityId) hempty
    (hadmits.mono fun s op hop => ⟨hop, trivial⟩)
  exact ⟨hrun.1, hrun.1.bestBid_lt_bestAsk⟩

/-- A bid is moved up to the ask price and only its rest, behind the ask's level,
enters. -/
theorem uncrossed_of_raised_bid :
    let ops : List BookOp :=
      [.add { orderId := 1, side := .sell, price := ⟨100⟩, quantity := 5 },
        .add { orderId := 2, side := .sell, price := ⟨103⟩, quantity := 5 },
        .add { orderId := 3, side := .buy, price := ⟨99⟩, quantity := 8 },
        .modify 3 ⟨101⟩ 8 []]
    let b := (BookState.machine.run (.empty 7) ops).1.book
    Uncrossed b ∧
      (b.bidLevels.entries ≠ [] → b.askLevels.entries ≠ [] → b.bestBid < b.bestAsk) :=
  uncrossed_of_run 7 _ (by decide)

end SimCme
