import SimCme.Engine.SyntheticEngine

/-!
# A book replayed to the replay engine

The updates of a book go through the builder in batches, and the replay engine takes its
best prices from the messages.  Its best price of a side is that of the book unless the
last update of the best level deleted it and other levels were behind it.

Main results:

- Theorem {lit}`reported_law`: the updates of an operation name the security of the book
  and a position within its levels.
- Theorem {lit}`Replay.known_of_run`: the best prices of the replay engine are those of the
  updates.
- Theorem {lit}`bbo_follows_book`: the runs along which the best prices are those of the
  book.
-/

namespace SimCme

open Library

/-! ## Positions -/

/-- The number of levels of the longer side. -/
def OrderBook.depth (b : OrderBook) : Nat :=
  max (b.levels .bid).entries.length (b.levels .ask).entries.length

theorem OrderBook.length_le_depth (b : OrderBook) (s : BookSide) :
    (b.levels s).entries.length ≤ b.depth := by
  cases s with
  | bid => exact le_max_left _ _
  | ask => exact le_max_right _ _

theorem OrderBook.depth_le {b : OrderBook} {n : Nat} (s : BookSide)
    (hside : (b.levels s).entries.length ≤ n)
    (hopposite : (b.levels s.opposite).entries.length ≤ n) : b.depth ≤ n := by
  cases s with
  | bid => exact max_le hside hopposite
  | ask => exact max_le hopposite hside

namespace LevelEdit

variable {e : LevelEdit} {b b' : OrderBook}

/-- An edit of a level that is there reports its position. -/
theorem index_le_of_old (he : e.Applies b b') (hold : e.old ≠ none) :
    (e.report b).priceLevelIndex ≤ b.depth := by
  refine le_trans ?_ (b.length_le_depth e.side)
  rcases Option.ne_none_iff_exists'.mp hold with ⟨level, hlevel⟩
  simp [he.before, entries, report, hlevel]

/-- An edit that leaves a level reports its position. -/
theorem index_le_of_new (he : e.Applies b b') (hnew : e.new ≠ none) :
    (e.report b).priceLevelIndex ≤ b'.depth := by
  refine le_trans ?_ (b'.length_le_depth e.side)
  rcases Option.ne_none_iff_exists'.mp hnew with ⟨level, hlevel⟩
  simp [he.after, entries, report, hlevel]

/-- An edit of a level that is there adds no level. -/
theorem depth_le_of_old (he : e.Applies b b') (hold : e.old ≠ none) : b'.depth ≤ b.depth := by
  rcases Option.ne_none_iff_exists'.mp hold with ⟨level, hlevel⟩
  apply OrderBook.depth_le e.side
  · refine le_trans ?_ (b.length_le_depth e.side)
    rw [he.after, he.before, hlevel]
    cases e.new <;> simp [entries]
  · rw [he.opposite]
    exact b.length_le_depth _

end LevelEdit

/-- The updates of an operation on the book of a security that started with at most
{lit}`n` levels.  Only the last move can add one. -/
structure Reported (s : SecurityId) (n : Nat) (hand : Option OrderRef) (es : List EngineEvent)
    (b : OrderBook) : Prop where
  securityId_eq : b.securityId = s
  updates : ∀ u ∈ bookUpdates es,
    u.securityId = s ∧ u.side.Listed ∧ u.priceLevelIndex ≤ max n b.depth
  shallow : hand ≠ none → b.depth ≤ n

namespace Reported

variable {s : SecurityId} {n : Nat} {hand hand' : Option OrderRef} {es : List EngineEvent}
  {b b' : OrderBook}

/-- An event that is not an update. -/
theorem concat_other (hP : Reported s n hand es b) {x : EngineEvent}
    (hother : ∀ u, x ≠ .bookUpdate u) (hshallow : hand' ≠ none → b.depth ≤ n) :
    Reported s n hand' (es ++ [x]) b where
  securityId_eq := hP.securityId_eq
  updates := by
    rw [bookUpdates_concat_other hother]
    exact hP.updates
  shallow := hshallow

/-- An edit of a level and its report. -/
theorem edit (hP : Reported s n hand es b) {e : LevelEdit} (he : e.Applies b b')
    (hdepth : b.depth ≤ n) (hindex : (e.report b).priceLevelIndex ≤ max n b'.depth)
    (hshallow : hand' ≠ none → b'.depth ≤ n) :
    Reported s n hand' (es ++ [.bookUpdate (e.report b)]) b' where
  securityId_eq := he.securityId_eq.trans hP.securityId_eq
  updates := by
    intro u hu
    rw [bookUpdates_append] at hu
    rcases List.mem_append.mp hu with hu | hu
    · rcases hP.updates u hu with ⟨hsecurity, hside, hle⟩
      refine ⟨hsecurity, hside, ?_⟩
      omega
    · cases List.mem_singleton.mp hu
      refine ⟨hP.securityId_eq, ?_, hindex⟩
      unfold LevelEdit.report
      cases e.side with
      | bid => exact Or.inl rfl
      | ask => exact Or.inr rfl
  shallow := hshallow

/-- An edit of a level that is there. -/
theorem edit_old (hP : Reported s n hand es b) {e : LevelEdit} (he : e.Applies b b')
    (hdepth : b.depth ≤ n) (hold : e.old ≠ none) :
    Reported s n hand' (es ++ [.bookUpdate (e.report b)]) b' := by
  have hindex := LevelEdit.index_le_of_old he hold
  have hless := LevelEdit.depth_le_of_old he hold
  exact hP.edit he hdepth (by omega) fun _ => hless.trans hdepth

theorem removeFromBook (hP : Reported s n none es b) {h : Heap Order} {r : OrderRef}
    (hinv : BookInv h b) (hr : b.Resting r) (hdepth : b.depth ≤ n) :
    Reported s n none (es ++ (b.removeFromBook h r).2) (b.removeFromBook h r).1 ∧
      (b.removeFromBook h r).1.depth ≤ n := by
  rcases OrderBook.removeFromBook_spec hinv hr with ⟨e, level, he⟩
  have hold : e.old ≠ none := by simp [he.old_eq]
  rw [he.events_eq]
  exact ⟨hP.edit_old he.applies hdepth hold,
    (LevelEdit.depth_le_of_old he.applies hold).trans hdepth⟩

end Reported

theorem reported_law (s : SecurityId) (n : Nat) :
    BookLaw (fun st _ => st.book.depth ≤ n) fun hand es _ b => Reported s n hand es b where
  refused _ _ hP := hP.concat_other (by simp) (by simp)
  rejected _ _ _ _ hP := hP.concat_other (by simp) (by simp)
  accepted _ _ hdepth hP := hP.concat_other (by simp [OrderBook.acceptedEvent]) fun _ => hdepth
  withdrawn := by
    intro es h b r hinv hr hdepth hP
    rw [← List.append_assoc]
    have hremoved := (hP.removeFromBook hinv hr hdepth).1
    exact hremoved.concat_other (by simp [OrderBook.cancelledEvent]) (by simp)
  replaced := by
    intro es h b r newPrice newQty newClOrdId hinv hr hdepth hP
    rw [← List.append_assoc]
    rcases hP.removeFromBook hinv hr hdepth with ⟨hremoved, hshallow⟩
    exact hremoved.concat_other (by simp [OrderBook.modifiedEvent]) fun _ => hshallow
  traded := by
    intro es h b t hinv _ f hP
    have hdepth := hP.shallow (by simp)
    have hfilled : Reported s n (some t)
        (es ++ [.orderFilled (b.tradedFill h f.price t f.maker)]) b :=
      hP.concat_other (by simp) fun _ => hdepth
    have hedited : Reported s n (some t)
        (es ++ [.orderFilled (b.tradedFill h f.price t f.maker)] ++
          [.bookUpdate (f.edit.report b)]) f.book :=
      hfilled.edit_old f.applies hdepth (by simp [OrderBook.Fill.edit])
    rw [List.append_assoc] at hedited
    exact hedited
  entered := by
    intro es h b r _ _ _ _ _ hP
    rcases OrderBook.insertResting_spec b h r with ⟨e, he⟩
    have hindex := LevelEdit.index_le_of_new he.applies (by simp [he.new_eq])
    rw [he.events_eq]
    exact hP.edit he.applies (hP.shallow (by simp)) (hindex.trans (le_max_right _ _)) (by simp)
  cancelled _ _ _ hP := hP.concat_other (by simp [OrderBook.cancelledEvent]) (by simp)
  dropped _ _ _ hP := ⟨hP.securityId_eq, hP.updates, by simp⟩

/-! ## The replay -/

/-- A book, the builder of its feed and the replay engine at the other end. -/
structure Replay where
  state : BookState
  builder : IncrementalBuilder := {}
  engine : SyntheticEngine := {}

/-- An operation on the book and the batches its updates are sent in, each with the time
it is sent at. -/
structure ReplayStep where
  op : BookOp
  batches : List (List EngineEvent × Timestamp)

namespace Replay

/-- A book no operation has reached, and an engine no message has. -/
def init (s : SecurityId) : Replay where
  state := .empty s

/-- Encode a batch and feed it to the replay engine.  A batch without updates is not
sent. -/
def send (feed : IncrementalBuilder × SyntheticEngine) (batch : List EngineEvent × Timestamp) :
    IncrementalBuilder × SyntheticEngine :=
  let (builder, payload) := feed.1.buildBookRefresh batch.1 batch.2
  (builder, if payload = [] then feed.2 else feed.2.receive payload)

/-- The machine whose outputs are the events of the book. -/
def machine : Machine Replay ReplayStep EngineEvent where
  step r step :=
    let out := r.state.outcome step.op
    let feed := step.batches.foldl send (r.builder, r.engine)
    ({ state := ⟨out.heap, out.book⟩, builder := feed.1, engine := feed.2 }, out.events)

/-- The best prices of a security are those of the book. -/
def Agrees (r : Replay) (s : SecurityId) : Prop :=
  ∀ side, match (r.state.book.levels side).entries.head? with
    | some e => (r.engine.getBBO s).price side = e.1 ∧
        (r.engine.getBBO s).size side = e.2.totalQuantity
    | none => (r.engine.getBBO s).size side = 0

end Replay

/-- The batches of a step hold the updates of its operation in order, at most 255 each;
the book has at most 255 levels a side before and after it, and the values of the updates
are values of their types. -/
structure ReplayStep.Valid (r : Replay) (step : ReplayStep) : Prop where
  fresh : step.op.Fresh r.state
  batched : step.batches.flatMap Prod.fst =
    (r.state.outcome step.op).events.filter IncrementalBuilder.isBookUpdate
  small : ∀ batch ∈ step.batches, batch.1.length ≤ 255
  depth_before : r.state.book.depth ≤ 255
  depth_after : (r.state.outcome step.op).book.depth ≤ 255
  typed : ∀ u ∈ bookUpdates (r.state.outcome step.op).events, u.Typed

instance (r : Replay) (step : ReplayStep) : Decidable (step.Valid r) :=
  decidable_of_iff
    (step.op.Fresh r.state ∧
      step.batches.flatMap Prod.fst =
        (r.state.outcome step.op).events.filter IncrementalBuilder.isBookUpdate ∧
      (∀ batch ∈ step.batches, batch.1.length ≤ 255) ∧ r.state.book.depth ≤ 255 ∧
      (r.state.outcome step.op).book.depth ≤ 255 ∧
      ∀ u ∈ bookUpdates (r.state.outcome step.op).events, u.Typed)
    ⟨fun h => ⟨h.1, h.2.1, h.2.2.1, h.2.2.2.1, h.2.2.2.2.1, h.2.2.2.2.2⟩,
      fun h => ⟨h.fresh, h.batched, h.small, h.depth_before, h.depth_after, h.typed⟩⟩

namespace Replay

variable {s : SecurityId}

/-- A batch does to the best prices of a security what its updates do. -/
theorem getBBO_send {batch : List EngineEvent × Timestamp} (htyped : ∀ x ∈ batch.1, x.Typed)
    (hfits : ∀ u ∈ bookUpdates batch.1, u.Fits)
    (hsecurity : ∀ u ∈ bookUpdates batch.1, u.securityId = s)
    (hsmall : (bookUpdates batch.1).length ≤ 255)
    (feed : IncrementalBuilder × SyntheticEngine) :
    (send feed batch).2.getBBO s = (bookUpdates batch.1).foldl BBO.apply (feed.2.getBBO s) := by
  have hlength := IncrementalBuilder.length_bookLoop feed.1 batch.1
  by_cases hempty : (feed.1.bookRefresh batch.1 batch.2).2.entries = []
  · have hnone : bookUpdates batch.1 = [] := by
      rw [← List.length_eq_zero_iff, ← hlength]
      exact List.length_eq_zero_iff.mpr hempty
    have hpayload : (feed.1.buildBookRefresh batch.1 batch.2).2 = [] := if_pos hempty
    simp [send, hpayload, hnone]
  · have hbytes : MDIncrementalRefreshBook46.format.toBytes
        (feed.1.bookRefresh batch.1 batch.2).2 ≠ [] := by
      rw [ne_eq, ← List.length_eq_zero_iff, GroupedFormat.length_toBytes]
      exact (GroupedFormat.encodedLength_pos _ _).ne'
    have hpayload : (feed.1.buildBookRefresh batch.1 batch.2).2 =
        MDIncrementalRefreshBook46.format.toBytes (feed.1.bookRefresh batch.1 batch.2).2 :=
      if_neg hempty
    simp only [send, hpayload, hbytes, if_false]
    exact SyntheticEngine.getBBO_receive htyped hfits hsecurity hsmall feed.2 feed.1 batch.2

/-- So do the batches of a step. -/
theorem getBBO_sends {batches : List (List EngineEvent × Timestamp)}
    (htyped : ∀ x ∈ batches.flatMap Prod.fst, x.Typed)
    (hfits : ∀ u ∈ bookUpdates (batches.flatMap Prod.fst), u.Fits)
    (hsecurity : ∀ u ∈ bookUpdates (batches.flatMap Prod.fst), u.securityId = s)
    (hsmall : ∀ batch ∈ batches, batch.1.length ≤ 255)
    (feed : IncrementalBuilder × SyntheticEngine) :
    (batches.foldl send feed).2.getBBO s =
      (bookUpdates (batches.flatMap Prod.fst)).foldl BBO.apply (feed.2.getBBO s) := by
  induction batches generalizing feed with
  | nil => rfl
  | cons batch batches ih =>
      rw [List.flatMap_cons, List.forall_mem_append] at htyped
      rw [List.flatMap_cons, bookUpdates_append, List.forall_mem_append] at hfits hsecurity
      rw [List.forall_mem_cons] at hsmall
      have hfew : (bookUpdates batch.1).length ≤ 255 :=
        (List.length_filterMap_le _ _).trans hsmall.1
      rw [List.foldl_cons, ih htyped.2 hfits.2 hsecurity.2 hsmall.2,
        getBBO_send htyped.1 hfits.1 hsecurity.1 hfew, List.flatMap_cons, bookUpdates_append,
        List.foldl_append]

/-- What is known of a replay and the events of its book. -/
structure Known (s : SecurityId) (r : Replay) (es : List EngineEvent) : Prop where
  book_inv : BookInv r.state.heap r.state.book
  securityId_eq : r.state.book.securityId = s
  tracks : Tracks es r.state.book
  bbo_eq : r.engine.getBBO s = BBO.replay es

theorem Known.init (s : SecurityId) : Known s (.init s) [] where
  book_inv := BookInv.empty _ s
  securityId_eq := rfl
  tracks := tracks_empty s
  bbo_eq := rfl

theorem bookUpdates_filter (es : List EngineEvent) :
    bookUpdates (es.filter IncrementalBuilder.isBookUpdate) = bookUpdates es := by
  unfold bookUpdates
  rw [List.filterMap_filter]
  congr 1
  funext e
  cases e <;> rfl

/-- One step. -/
theorem Known.step {r : Replay} {es : List EngineEvent} (hr : Known s r es)
    {step : ReplayStep} (hstep : step.Valid r) :
    Known s (machine.step r step).1 (es ++ (machine.step r step).2) := by
  have htracks := tracks_law.step hr.book_inv hstep.fresh trivial hr.tracks
  have hstart : Reported s 255 none [] r.state.book :=
    ⟨hr.securityId_eq, by simp [bookUpdates], by simp⟩
  have hreported := ((reported_law s 255).step hr.book_inv hstep.fresh hstep.depth_before
    hstart).1
  rw [List.nil_append] at hreported
  have hupdates : bookUpdates (step.batches.flatMap Prod.fst) =
      bookUpdates (r.state.outcome step.op).events := by
    rw [hstep.batched, bookUpdates_filter]
  have htyped : ∀ x ∈ step.batches.flatMap Prod.fst, x.Typed := by
    intro x hx
    rw [hstep.batched, List.mem_filter] at hx
    cases x with
    | bookUpdate u => exact hstep.typed u (List.mem_filterMap.mpr ⟨_, hx.1, rfl⟩)
    | _ => exact absurd hx.2 Bool.false_ne_true
  have hsent := getBBO_sends (s := s) htyped
    (by
      rw [hupdates]
      intro u hu
      rcases hreported.updates u hu with ⟨-, hside, hindex⟩
      exact ⟨hindex.trans (max_le le_rfl hstep.depth_after), hside⟩)
    (by
      rw [hupdates]
      exact fun u hu => (hreported.updates u hu).1)
    hstep.small (r.builder, r.engine)
  exact
    { book_inv := htracks.2
      securityId_eq := hreported.securityId_eq
      tracks := htracks.1
      bbo_eq := by
        refine hsent.trans ?_
        rw [hupdates, hr.bbo_eq, BBO.replay, BBO.replay, bookUpdates_append, List.foldl_append]
        rfl }

/-- A whole run. -/
theorem known_of_run {steps : List ReplayStep}
    (hvalid : machine.Admits (fun r step => step.Valid r) (.init s) steps) :
    Known s (machine.run (.init s) steps).1 (machine.run (.init s) steps).2 :=
  Machine.history_invariant (P := fun _ r es => Known s r es) (Known.init s)
    (fun _ _ _ _ hr hstep => hr.step hstep) steps hvalid

/-- The best prices are those of the book exactly when the last update of each best level
stands. -/
theorem Known.agrees_iff {r : Replay} {es : List EngineEvent} (hr : Known s r es) :
    r.Agrees s ↔ ∀ side, TopStands side es (r.state.book.aggregate side) := by
  apply forall_congr'
  intro side
  rw [← hr.tracks.replay_eq]
  have hsize : ∀ level ∈ (Replica.replay es side).head?, level.totalQuantity ≠ 0 := by
    intro level hlevel
    rw [hr.tracks.replay_eq] at hlevel
    rcases List.mem_map.mp (List.mem_of_head? hlevel) with ⟨e, he, rfl⟩
    exact (hr.book_inv.level_inv side e he).total_pos.ne'
  rw [← BBO.shows_replay_iff hr.tracks.located side hsize, ← hr.bbo_eq, hr.tracks.replay_eq]
  unfold BBO.Shows OrderBook.aggregate
  rw [List.head?_map]
  cases (r.state.book.levels side).entries.head? <;> rfl

end Replay

/-- Along every run of a book that is replayed, the best prices of the replay engine are
those of the book after each operation exactly when after each operation, on each side, the
last update of the best level so far was not a deletion, or has left the side empty. -/
theorem bbo_follows_book (s : SecurityId) (steps : List ReplayStep)
    (hvalid : Replay.machine.Admits (fun r step => step.Valid r) (.init s) steps) :
    (∀ done, done <+: steps → (Replay.machine.run (.init s) done).1.Agrees s) ↔
      ∀ done, done <+: steps →
        let r := Replay.machine.run (.init s) done
        ∀ side, TopStands side r.2 (r.1.state.book.aggregate side) := by
  apply forall₂_congr
  rintro done ⟨rest, rfl⟩
  exact (Replay.known_of_run hvalid.of_append).agrees_iff

/-- The only bid is cancelled. -/
theorem bbo_follows_book_of_emptied_side :
    let sent (price : Price) (qty : Int) (action : MDUpdateAction) (seq : UInt32) :
        List (List EngineEvent × Timestamp) :=
      [([.bookUpdate
        { securityId := 7, side := .buy, price := price, newQty := qty,
          newOrderCount := if action = .delete then 0 else 1, updateAction := action,
          priceLevelIndex := 1, rptSeq := seq }], 0)]
    let steps : List ReplayStep :=
      [{ op := .add { orderId := 1, side := .buy, price := ⟨100⟩, quantity := 5 }
         batches := sent ⟨100⟩ 5 .new 1 },
        { op := .cancel 1, batches := sent ⟨100⟩ 0 .delete 2 }]
    Replay.machine.Admits (fun r step => step.Valid r) (.init 7) steps ∧
      ((∀ done, done <+: steps → (Replay.machine.run (.init 7) done).1.Agrees 7) ↔
        ∀ done, done <+: steps →
          let r := Replay.machine.run (.init 7) done
          ∀ side, TopStands side r.2 (r.1.state.book.aggregate side)) := by
  intro sent steps
  have hvalid : Replay.machine.Admits (fun r step => step.Valid r) (.init 7) steps := by
    decide +kernel
  exact ⟨hvalid, bbo_follows_book 7 steps hvalid⟩

/-- The better of two bids is cancelled: the book still has a bid, and the replay engine
knows of none. -/
theorem bbo_lost_behind_cancelled_bid :
    let sent (price : Price) (qty : Int) (action : MDUpdateAction) (level : Nat)
        (seq : UInt32) : List (List EngineEvent × Timestamp) :=
      [([.bookUpdate
        { securityId := 7, side := .buy, price := price, newQty := qty,
          newOrderCount := if action = .delete then 0 else 1, updateAction := action,
          priceLevelIndex := level, rptSeq := seq }], 0)]
    let steps : List ReplayStep :=
      [{ op := .add { orderId := 1, side := .buy, price := ⟨100⟩, quantity := 5 }
         batches := sent ⟨100⟩ 5 .new 1 1 },
        { op := .add { orderId := 2, side := .buy, price := ⟨99⟩, quantity := 3 }
          batches := sent ⟨99⟩ 3 .new 2 2 },
        { op := .cancel 1, batches := sent ⟨100⟩ 0 .delete 1 3 }]
    let r := (Replay.machine.run (.init 7) steps).1
    Replay.machine.Admits (fun r step => step.Valid r) (.init 7) steps ∧
      r.state.book.bestBid = ⟨99⟩ ∧ (r.engine.getBBO 7).bestBid = .null ∧
      ¬∀ done, done <+: steps → (Replay.machine.run (.init 7) done).1.Agrees 7 := by
  intro sent steps r
  have hlost : (r.engine.getBBO 7).bestBid = .null := by decide +kernel
  refine ⟨by decide +kernel, by decide +kernel, hlost, ?_⟩
  intro hagrees
  have hbid := hagrees steps (List.prefix_refl _) .bid
  have hhead : (r.state.book.levels .bid).entries.head?.map Prod.fst = some ⟨99⟩ := by
    decide +kernel
  rcases Option.map_eq_some_iff.mp hhead with ⟨e, he, hprice⟩
  simp only [r] at he hlost
  rw [he] at hbid
  have hnull := hbid.1
  rw [hprice] at hnull
  rw [BBO.price, hlost] at hnull
  exact absurd hnull (by decide)

end SimCme
