import SimCme.Engine.BookRuns

/-!
# Book updates as a log of the aggregated book

A receiver of the feed keeps, for each side, the list of price levels from best
to worst, and applies the updates by position alone.  This file proves that the
receiver sees the book: every move of a book that edits a level emits the one
update that makes the same edit on the receiver's list.

Main results:

- Theorem {lit}`Tracks.edit`: an edit and its report keep book and replica equal.
- Theorem {lit}`replica_of_run`: after every run the replica is the book, every
  update found its level, and the report numbers count from one.
-/

namespace SimCme

open Library

/-- What the feed says about a price level. -/
structure AggregateLevel where
  price : Price
  totalQuantity : Int
  orderCount : Int
deriving DecidableEq, Repr

/-- The levels of both sides, best first. -/
abbrev Replica := BookSide → List AggregateLevel

/-- The level an update describes. -/
def BookUpdate.level (u : BookUpdate) : AggregateLevel :=
  { price := u.price, totalQuantity := u.newQty, orderCount := u.newOrderCount }

/-- The list position of an update, from 0. -/
def BookUpdate.position (u : BookUpdate) : Nat :=
  u.priceLevelIndex - 1

/-- Apply an update to the levels of its side, by position: a new level shifts
the worse ones down, a deletion shifts them up. -/
def BookUpdate.applyTo (u : BookUpdate) (levels : List AggregateLevel) :
    List AggregateLevel :=
  match u.updateAction with
  | .new => levels.take u.position ++ u.level :: levels.drop u.position
  | .change => levels.set u.position u.level
  | .delete => levels.eraseIdx u.position
  | _ => levels

/-- The position of the update makes sense on the levels of its side: a new level
goes between or beside them, and any other update finds its own price. -/
def BookUpdate.Finds (u : BookUpdate) (levels : List AggregateLevel) : Prop :=
  0 < u.priceLevelIndex ∧
    match u.updateAction with
    | .new => u.position ≤ levels.length
    | .change => (levels[u.position]?).map AggregateLevel.price = some u.price
    | .delete => (levels[u.position]?).map AggregateLevel.price = some u.price
    | _ => False

/-- Apply an event to the replica. -/
def Replica.apply (replica : Replica) : EngineEvent → Replica
  | .bookUpdate u =>
      Function.update replica u.side.bookSide (u.applyTo (replica u.side.bookSide))
  | _ => replica

/-- The replica that applied a history to empty sides. -/
def Replica.replay (es : List EngineEvent) : Replica :=
  es.foldl Replica.apply fun _ => []

@[simp]
theorem Replica.replay_concat (es : List EngineEvent) (e : EngineEvent) :
    replay (es ++ [e]) = (replay es).apply e := by
  simp [replay]

/-- The aggregated levels of a book. -/
def OrderBook.aggregate (b : OrderBook) : Replica := fun s =>
  (b.levels s).entries.map fun e =>
    { price := e.1, totalQuantity := e.2.totalQuantity, orderCount := e.2.orderCount }

/-- The book updates of a history. -/
def bookUpdates (es : List EngineEvent) : List BookUpdate :=
  es.filterMap fun
    | .bookUpdate u => some u
    | _ => none

@[simp]
theorem bookUpdates_append (es es' : List EngineEvent) :
    bookUpdates (es ++ es') = bookUpdates es ++ bookUpdates es' :=
  List.filterMap_append

/-- Every book update of a history found its level. -/
def Located : List EngineEvent → Prop :=
  EachAfter fun before e =>
    ∀ u, e = .bookUpdate u → u.Finds (Replica.replay before u.side.bookSide)

/-- The replica of the history is the book, and the report numbers run on. -/
structure Tracks (es : List EngineEvent) (b : OrderBook) : Prop where
  replay_eq : Replica.replay es = b.aggregate
  located : Located es
  numbered : (bookUpdates es).map BookUpdate.rptSeq =
    (List.range (bookUpdates es).length).map fun i => UInt32.ofNat (i + 1)
  next_number : b.rptSeq = UInt32.ofNat ((bookUpdates es).length + 1)

/-- An event that is not a book update adds none. -/
theorem bookUpdates_concat_other {e : EngineEvent} (hother : ∀ u, e ≠ .bookUpdate u)
    (es : List EngineEvent) : bookUpdates (es ++ [e]) = bookUpdates es := by
  cases e with
  | bookUpdate u => exact (hother u rfl).elim
  | _ => simp [bookUpdates]

/-- It leaves the replica alone. -/
theorem Replica.replay_concat_other {e : EngineEvent} (hother : ∀ u, e ≠ .bookUpdate u)
    (es : List EngineEvent) : replay (es ++ [e]) = replay es := by
  rw [replay_concat]
  cases e with
  | bookUpdate u => exact (hother u rfl).elim
  | _ => rfl

theorem Tracks.concat_other {es : List EngineEvent} {b : OrderBook} (htracks : Tracks es b)
    {e : EngineEvent} (hother : ∀ u, e ≠ .bookUpdate u) : Tracks (es ++ [e]) b := by
  have hupdates := bookUpdates_concat_other hother es
  exact
    { replay_eq := by
        rw [Replica.replay_concat_other hother]
        exact htracks.replay_eq
      located := htracks.located.concat fun u hu => (hother u hu).elim
      numbered := by
        rw [hupdates]
        exact htracks.numbered
      next_number := by
        rw [hupdates]
        exact htracks.next_number }

/-! ## Edits -/

namespace LevelEdit

variable {e : LevelEdit} {b b' : OrderBook}

/-- The aggregated levels of the edited half. -/
theorem aggregate_entries {level : Option PriceLevel}
    (hentries : (b.levels e.side).entries = e.entries level) :
    b.aggregate e.side =
      e.pre.map (fun x => ⟨x.1, x.2.totalQuantity, x.2.orderCount⟩) ++
        level.toList.map (fun l => ⟨e.price, l.totalQuantity, l.orderCount⟩) ++
        e.post.map fun x => ⟨x.1, x.2.totalQuantity, x.2.orderCount⟩ := by
  simp [OrderBook.aggregate, hentries, entries, Function.comp_def]

/-- The report of an edit makes the edit on the aggregated levels. -/
theorem applyTo_report (he : e.Applies b b') (hedit : e.old ≠ none ∨ e.new ≠ none) :
    (e.report b).applyTo (b.aggregate e.side) = b'.aggregate e.side ∧
      (e.report b).Finds (b.aggregate e.side) := by
  rw [aggregate_entries he.before, aggregate_entries he.after]
  cases hold : e.old with
  | none =>
      cases hnew : e.new with
      | none => simp [hold, hnew] at hedit
      | some level =>
          simp [BookUpdate.applyTo, BookUpdate.Finds, report, hold, hnew,
            BookUpdate.position, BookUpdate.level]
  | some old =>
      cases hnew : e.new with
      | none =>
          simp [BookUpdate.applyTo, BookUpdate.Finds, report, hold, hnew,
            BookUpdate.position, List.eraseIdx_append]
      | some level =>
          simp [BookUpdate.applyTo, BookUpdate.Finds, report, hold, hnew,
            BookUpdate.position, BookUpdate.level]

end LevelEdit

/-- An edit and its report keep book and replica equal. -/
theorem Tracks.edit {es : List EngineEvent} {e : LevelEdit} {b b' : OrderBook}
    (htracks : Tracks es b) (he : e.Applies b b') (hedit : e.old ≠ none ∨ e.new ≠ none) :
    Tracks (es ++ [.bookUpdate (e.report b)]) b' := by
  rcases LevelEdit.applyTo_report he hedit with ⟨happly, hfinds⟩
  have hside : (e.report b).side.bookSide = e.side := Side.bookSide_side e.side
  exact
    { replay_eq := by
        rw [Replica.replay_concat, htracks.replay_eq]
        funext s
        simp only [Replica.apply, hside]
        rcases BookSide.eq_or_eq_opposite e.side s with rfl | rfl
        · rw [Function.update_self]
          exact happly
        · rw [Function.update_of_ne (BookSide.opposite_ne _)]
          unfold OrderBook.aggregate
          rw [he.opposite]
      located := by
        apply htracks.located.concat
        intro u hu
        cases hu
        rw [hside, htracks.replay_eq]
        exact hfinds
      numbered := by
        have hnumber : (e.report b).rptSeq = b.rptSeq := rfl
        rw [bookUpdates_append, List.map_append, htracks.numbered]
        simp [bookUpdates, List.range_succ, hnumber, htracks.next_number]
      next_number := by
        rw [he.rptSeq_eq, htracks.next_number]
        simp [bookUpdates] }

/-- An order that leaves the book is reported. -/
theorem Tracks.removeFromBook {es : List EngineEvent} {h : Heap Order} {b : OrderBook}
    {r : OrderRef} (htracks : Tracks es b) (hinv : BookInv h b) (hr : b.Resting r) :
    Tracks (es ++ (b.removeFromBook h r).2) (b.removeFromBook h r).1 := by
  rcases OrderBook.removeFromBook_spec hinv hr with ⟨e, level, he⟩
  rw [he.events_eq]
  exact htracks.edit he.applies (Or.inl (by simp [he.old_eq]))

theorem tracks_law : BookLaw (fun _ _ => True) fun _ es _ b => Tracks es b where
  refused _ _ htracks := htracks.concat_other (by simp)
  rejected _ _ _ _ htracks := htracks.concat_other (by simp)
  accepted _ _ _ htracks := htracks.concat_other (by simp [OrderBook.acceptedEvent])
  withdrawn := by
    intro es h b r hinv hr _ htracks
    rw [← List.append_assoc]
    exact (htracks.removeFromBook hinv hr).concat_other (by simp [OrderBook.cancelledEvent])
  replaced := by
    intro es h b r newPrice newQty newClOrdId hinv hr _ htracks
    rw [← List.append_assoc]
    exact (htracks.removeFromBook hinv hr).concat_other (by simp [OrderBook.modifiedEvent])
  traded := by
    intro es h b t hinv _ f htracks
    have hfilled : Tracks (es ++ [.orderFilled (b.tradedFill h f.price t f.maker)]) b :=
      htracks.concat_other (by simp)
    have hedited := hfilled.edit f.applies (Or.inl (by simp [OrderBook.Fill.edit]))
    rw [List.append_assoc] at hedited
    exact hedited
  entered := by
    intro es h b r hinv _ _ _ _ htracks
    rcases OrderBook.insertResting_spec b h r with ⟨e, he⟩
    rw [he.events_eq]
    exact htracks.edit he.applies (Or.inr (by simp [he.new_eq]))
  cancelled _ _ _ htracks := htracks.concat_other (by simp [OrderBook.cancelledEvent])
  dropped _ _ _ htracks := htracks

theorem tracks_empty (securityId : SecurityId) :
    Tracks [] (BookState.empty securityId).book where
  replay_eq := by
    funext s
    cases s <;> rfl
  located := eachAfter_nil
  numbered := rfl
  next_number := rfl

/-- Below {lit}`2^32` the report numbers do not wrap. -/
theorem Tracks.rptSeq_toNat {es : List EngineEvent} {b : OrderBook} (htracks : Tracks es b)
    (hfew : (bookUpdates es).length < 2 ^ 32) :
    (bookUpdates es).map (fun u => u.rptSeq.toNat) =
      List.range' 1 (bookUpdates es).length := by
  have hmap : (bookUpdates es).map (fun u => u.rptSeq.toNat) =
      ((bookUpdates es).map BookUpdate.rptSeq).map UInt32.toNat := by
    simp
  rw [hmap, htracks.numbered, List.map_map, List.range'_eq_map_range]
  apply List.map_congr_left
  intro i hi
  have hlt := List.mem_range.mp hi
  simp only [Function.comp_apply, UInt32.toNat_ofNat']
  omega

/-- After every run the replica is the book, every update found its level, and
the report numbers count from one. -/
theorem replica_of_run (securityId : SecurityId) (ops : List BookOp)
    (hadmits : BookState.machine.Admits (fun s op => op.Fresh s) (.empty securityId) ops) :
    let r := BookState.machine.run (.empty securityId) ops
    Replica.replay r.2 = r.1.book.aggregate ∧
      (∀ before u after, r.2 = before ++ .bookUpdate u :: after →
        u.Finds (Replica.replay before u.side.bookSide)) ∧
      ((bookUpdates r.2).length < 2 ^ 32 →
        (bookUpdates r.2).map (fun u => u.rptSeq.toNat) =
          List.range' 1 (bookUpdates r.2).length) := by
  have hrun := tracks_law.run (BookInv.empty .empty securityId) (tracks_empty securityId)
    (hadmits.mono fun s op hop => ⟨hop, trivial⟩)
  refine ⟨hrun.1.replay_eq, ?_, hrun.1.rptSeq_toNat⟩
  intro before u after hsplit
  exact hrun.1.located before _ after hsplit u rfl

/-- A sweep through two ask levels that rests its remainder as a bid. -/
theorem replica_of_sweep :
    let ops : List BookOp :=
      [.add { orderId := 1, side := .sell, price := ⟨100⟩, quantity := 5 },
        .add { orderId := 2, side := .sell, price := ⟨101⟩, quantity := 5 },
        .add { orderId := 3, side := .buy, price := ⟨101⟩, quantity := 12 }]
    let r := BookState.machine.run (.empty 7) ops
    Replica.replay r.2 = r.1.book.aggregate ∧
      (∀ before u after, r.2 = before ++ .bookUpdate u :: after →
        u.Finds (Replica.replay before u.side.bookSide)) ∧
      ((bookUpdates r.2).length < 2 ^ 32 →
        (bookUpdates r.2).map (fun u => u.rptSeq.toNat) =
          List.range' 1 (bookUpdates r.2).length) :=
  replica_of_run 7 _ (by decide)

end SimCme
