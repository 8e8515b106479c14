import SimCme.MarketData.IncrementalBuilder

/-!
# The best prices of the replay engine

The replay engine listens to the book messages of a feed and keeps the best bid and the
best offer of every security.  It reads the entries of the best level only, so that after
a deletion of that level it knows of no best price until the next entry about it.

Main results:

- Theorem {lit}`BBO.applyEntry_of_reports`: an entry does to the best prices what the
  update it reports does.
- Theorem {lit}`SyntheticEngine.getBBO_receive`: a payload of the builder does to the best
  prices of a security what its updates do.
- Theorem {lit}`BBO.shows_replay_iff`: the best prices of a history of updates are those of
  the replica exactly when the last update of each best level stands.
-/

namespace SimCme

open Library

/-! ## Best prices -/

structure BBO where
  bestBid : Price := ⟨0⟩
  bidSize : Int := 0
  bestAsk : Price := ⟨0⟩
  askSize : Int := 0
deriving DecidableEq, Repr

namespace BBO

def price (bbo : BBO) : BookSide → Price
  | .bid => bbo.bestBid
  | .ask => bbo.bestAsk

def size (bbo : BBO) : BookSide → Int
  | .bid => bbo.bidSize
  | .ask => bbo.askSize

/-- Replace the best price of one side. -/
def setTop (bbo : BBO) (side : BookSide) (price : Price) (size : Int) : BBO :=
  match side with
  | .bid => { bbo with bestBid := price, bidSize := size }
  | .ask => { bbo with bestAsk := price, askSize := size }

/-- The two branches of an entry of the best level. -/
def applyTop (bbo : BBO) (side : BookSide) (entry : MDIncrementalRefreshBook46.Entry) : BBO :=
  if entry.mdUpdateAction = MDUpdateAction.new.code ∨
      entry.mdUpdateAction = MDUpdateAction.change.code ∨
      entry.mdUpdateAction = MDUpdateAction.overlay.code then
    bbo.setTop side ⟨entry.mdEntryPx⟩ entry.mdEntrySize.toInt
  else if entry.mdUpdateAction = MDUpdateAction.delete.code then
    bbo.setTop side .null 0
  else bbo

/-- One turn of the loop of {lit}`updateBBO`. -/
def applyEntry (bbo : BBO) (entry : MDIncrementalRefreshBook46.Entry) : BBO :=
  if entry.mdEntryType = MDEntryType.bid.code then
    if entry.mdPriceLevel = 1 then bbo.applyTop .bid entry else bbo
  else if entry.mdEntryType = MDEntryType.offer.code then
    if entry.mdPriceLevel = 1 then bbo.applyTop .ask entry else bbo
  else bbo

/-- The same for an update. -/
def apply (bbo : BBO) (u : BookUpdate) : BBO :=
  if u.priceLevelIndex = 1 then
    match u.updateAction with
    | .new | .change | .overlay => bbo.setTop u.side.bookSide u.price u.newQty
    | .delete => bbo.setTop u.side.bookSide .null 0
    | _ => bbo
  else bbo

@[simp]
theorem price_setTop (bbo : BBO) (side side' : BookSide) (price : Price) (size : Int) :
    (bbo.setTop side price size).price side' =
      if side' = side then price else bbo.price side' := by
  cases side <;> cases side' <;> rfl

@[simp]
theorem size_setTop (bbo : BBO) (side side' : BookSide) (price : Price) (size : Int) :
    (bbo.setTop side price size).size side' = if side' = side then size else bbo.size side' := by
  cases side <;> cases side' <;> rfl

/-- An entry does to the best prices what the update it reports does. -/
theorem applyEntry_of_reports {entry : MDIncrementalRefreshBook46.Entry} {u : BookUpdate}
    (hentry : entry.Reports u) (bbo : BBO) : bbo.applyEntry entry = bbo.apply u := by
  have hlevel : entry.mdPriceLevel = 1 ↔ u.priceLevelIndex = 1 := by
    rw [← hentry.level_eq]
    exact ⟨fun h => by rw [h]; rfl, fun h => UInt8.toNat_inj.mp h⟩
  have htop : ∀ side, u.side.bookSide = side → u.priceLevelIndex = 1 →
      bbo.applyTop side entry = bbo.apply u := by
    rintro side rfl hindex
    unfold applyTop apply
    rw [if_pos hindex, hentry.action_eq, hentry.price_eq, hentry.quantity_eq]
    cases u.updateAction <;> rfl
  have hother : ¬u.priceLevelIndex = 1 → bbo.apply u = bbo := by
    intro hindex
    unfold apply
    rw [if_neg hindex]
  unfold applyEntry
  simp only [hlevel]
  rcases hentry.side_eq with ⟨htype, hside⟩ | ⟨htype, hside⟩
  · rw [if_pos htype]
    split
    · exact htop .bid (by rw [hside]; rfl) ‹_›
    · exact (hother ‹_›).symm
  · rw [htype, if_neg (by decide), if_pos rfl]
    split
    · exact htop .ask (by rw [hside]; rfl) ‹_›
    · exact (hother ‹_›).symm

end BBO

/-! ## The engine -/

structure SyntheticEngine where
  bbos : SecurityId → Option BBO := fun _ => none

namespace SyntheticEngine

def getBBO (e : SyntheticEngine) (securityId : SecurityId) : BBO :=
  (e.bbos securityId).getD {}

def updateBBO (e : SyntheticEngine) (msg : MDIncrementalRefreshBook46) : SyntheticEngine :=
  msg.entries.foldl
    (fun e entry =>
      let secId := entry.securityID.toInt
      { e with bbos := Function.update e.bbos secId (some ((e.getBBO secId).applyEntry entry)) }) e

/-- Decode a book message and feed it to the best prices. -/
def receive (e : SyntheticEngine) (payload : List UInt8) : SyntheticEngine :=
  ((MDIncrementalRefreshBook46.format.decode {} payload 0).map e.updateBBO).getD e

/-- Entries about one security are applied to its best prices one by one. -/
theorem getBBO_updateBBO {s : SecurityId} {msg : MDIncrementalRefreshBook46}
    (hsecurity : ∀ entry ∈ msg.entries, entry.securityID.toInt = s) (e : SyntheticEngine) :
    (e.updateBBO msg).getBBO s = msg.entries.foldl BBO.applyEntry (e.getBBO s) := by
  unfold updateBBO
  generalize msg.entries = entries at hsecurity ⊢
  induction entries generalizing e with
  | nil => rfl
  | cons entry entries ih =>
      rw [List.forall_mem_cons] at hsecurity
      rw [List.foldl_cons, ih _ hsecurity.2, List.foldl_cons]
      simp [getBBO, hsecurity.1]

/-- Entries do what the updates they report do. -/
theorem foldl_applyEntry_of_reports {entries : List MDIncrementalRefreshBook46.Entry}
    {updates : List BookUpdate} (hreports : List.Forall₂ (·.Reports ·) entries updates)
    (bbo : BBO) : entries.foldl BBO.applyEntry bbo = updates.foldl BBO.apply bbo := by
  induction hreports generalizing bbo with
  | nil => rfl
  | cons hentry _ ih => rw [List.foldl_cons, List.foldl_cons, BBO.applyEntry_of_reports hentry, ih]

theorem securityID_of_reports {s : SecurityId} {entries : List MDIncrementalRefreshBook46.Entry}
    {updates : List BookUpdate} (hreports : List.Forall₂ (·.Reports ·) entries updates)
    (hsecurity : ∀ u ∈ updates, u.securityId = s) :
    ∀ entry ∈ entries, entry.securityID.toInt = s := by
  induction hreports with
  | nil => simp
  | cons hentry _ ih =>
      rw [List.forall_mem_cons] at hsecurity ⊢
      exact ⟨hentry.security_eq.trans hsecurity.1, ih hsecurity.2⟩

/-- A payload of the builder does to the best prices of a security what its updates do. -/
theorem getBBO_receive {s : SecurityId} {batch : List EngineEvent}
    (htyped : ∀ x ∈ batch, x.Typed) (hfits : ∀ u ∈ bookUpdates batch, u.Fits)
    (hsecurity : ∀ u ∈ bookUpdates batch, u.securityId = s)
    (hsmall : (bookUpdates batch).length ≤ 255) (e : SyntheticEngine)
    (builder : IncrementalBuilder) (transactTime : Timestamp) :
    let msg := (builder.bookRefresh batch transactTime).2
    (e.receive (MDIncrementalRefreshBook46.format.toBytes msg)).getBBO s =
      (bookUpdates batch).foldl BBO.apply (e.getBBO s) := by
  intro msg
  have hreports : List.Forall₂ (·.Reports ·) msg.entries (bookUpdates batch) :=
    IncrementalBuilder.bookLoop_reports builder htyped hfits
  have hdecode : MDIncrementalRefreshBook46.format.decode {}
      (MDIncrementalRefreshBook46.format.toBytes msg) 0 = some msg := by
    have happend := MDIncrementalRefreshBook46.format.decode_append msg {} (by
      intro g hg
      rw [List.mem_singleton.mp hg]
      exact hreports.length_eq.trans_le hsmall) [] []
    simpa using happend
  rw [receive, hdecode, Option.map_some, Option.getD_some,
    getBBO_updateBBO (securityID_of_reports hreports hsecurity),
    foldl_applyEntry_of_reports hreports]

end SyntheticEngine

/-! ## Best prices and levels -/

/-- The updates of the best level of a side. -/
def topUpdates (side : BookSide) (es : List EngineEvent) : List BookUpdate :=
  (bookUpdates es).filter fun u => u.side.bookSide = side ∧ u.priceLevelIndex = 1

/-- The last update of the best level of a side does not delete it, or leaves the side
empty. -/
def TopStands (side : BookSide) (es : List EngineEvent) (levels : List AggregateLevel) : Prop :=
  ∀ u ∈ (topUpdates side es).getLast?, u.updateAction = .delete → levels.head? = none

instance (side : BookSide) (es : List EngineEvent) (levels : List AggregateLevel) :
    Decidable (TopStands side es levels) :=
  inferInstanceAs (Decidable (∀ u ∈ (topUpdates side es).getLast?,
    u.updateAction = .delete → levels.head? = none))

/-- The best price of a side is that of its first level.  A side without levels has
nothing at its best price. -/
def BBO.Shows (bbo : BBO) (side : BookSide) (levels : List AggregateLevel) : Prop :=
  match levels.head? with
  | some level => bbo.price side = level.price ∧ bbo.size side = level.totalQuantity
  | none => bbo.size side = 0

/-- The best prices after the updates of a history. -/
def BBO.replay (es : List EngineEvent) : BBO :=
  (bookUpdates es).foldl BBO.apply {}

/-- An update behind the best level leaves the best level alone. -/
theorem BookUpdate.head?_applyTo {u : BookUpdate} {levels : List AggregateLevel}
    (hfinds : u.Finds levels) (hindex : u.priceLevelIndex ≠ 1) :
    (u.applyTo levels).head? = levels.head? := by
  obtain ⟨i, hi⟩ : ∃ i, u.position = i + 1 := by
    have hpos := hfinds.1
    exact ⟨u.priceLevelIndex - 2, by unfold position; omega⟩
  have hfound := hfinds.2
  unfold applyTo
  cases haction : u.updateAction with
  | new =>
      simp only [haction, hi] at hfound ⊢
      cases levels with
      | nil => simp at hfound
      | cons level levels => simp
  | change =>
      simp only [hi]
      cases levels <;> simp
  | delete =>
      simp only [hi]
      cases levels <;> simp
  | _ => rfl

/-- An update of another level or side leaves the best price of a side alone. -/
theorem BBO.apply_of_not_top {u : BookUpdate} {side : BookSide}
    (hother : ¬(u.side.bookSide = side ∧ u.priceLevelIndex = 1)) (bbo : BBO) :
    (bbo.apply u).price side = bbo.price side ∧ (bbo.apply u).size side = bbo.size side := by
  unfold apply
  split
  · rename_i hindex
    have hside : side ≠ u.side.bookSide := fun heq => hother ⟨heq.symm, hindex⟩
    split <;> simp [hside]
  · exact ⟨rfl, rfl⟩

/-- It leaves the best level of that side alone as well. -/
theorem Replica.head?_apply_of_not_top {u : BookUpdate} {side : BookSide} {replica : Replica}
    (hfinds : u.Finds (replica u.side.bookSide))
    (hother : ¬(u.side.bookSide = side ∧ u.priceLevelIndex = 1)) :
    (replica.apply (.bookUpdate u) side).head? = (replica side).head? := by
  simp only [apply]
  by_cases hside : side = u.side.bookSide
  · subst hside
    rw [Function.update_self]
    exact BookUpdate.head?_applyTo hfinds fun hindex => hother ⟨rfl, hindex⟩
  · rw [Function.update_of_ne hside]

/-- After an update of the best level of a side the best price is that of the first level,
unless the update is a deletion that leaves other levels. -/
theorem BBO.shows_apply_top {u : BookUpdate} {replica : Replica}
    (hfinds : u.Finds (replica u.side.bookSide)) (hindex : u.priceLevelIndex = 1)
    (hsize : ∀ level ∈ (replica.apply (.bookUpdate u) u.side.bookSide).head?,
      level.totalQuantity ≠ 0) (bbo : BBO) :
    (bbo.apply u).Shows u.side.bookSide (replica.apply (.bookUpdate u) u.side.bookSide) ↔
      (u.updateAction = .delete →
        (replica.apply (.bookUpdate u) u.side.bookSide).head? = none) := by
  have hposition : u.position = 0 := by
    unfold BookUpdate.position
    omega
  have hfound := hfinds.2
  simp only [Replica.apply, Function.update_self] at hsize ⊢
  generalize replica u.side.bookSide = levels at hfound hsize ⊢
  unfold BookUpdate.applyTo at hsize ⊢
  unfold apply Shows
  cases haction : u.updateAction with
  | new => simp [hposition, hindex, BookUpdate.level]
  | change =>
      simp only [haction, hposition] at hfound
      cases levels with
      | nil => simp at hfound
      | cons level levels => simp [hposition, hindex, BookUpdate.level]
  | delete =>
      simp only [haction, hposition] at hfound hsize ⊢
      cases hhead : (levels.eraseIdx 0).head? with
      | none => simp [hindex]
      | some level =>
          have hne := hsize level hhead
          simp [hindex, Ne.symm hne]
  | _ => simp [haction] at hfound

theorem topUpdates_concat (side : BookSide) (es : List EngineEvent) (u : BookUpdate) :
    topUpdates side (es ++ [.bookUpdate u]) =
      topUpdates side es ++
        if u.side.bookSide = side ∧ u.priceLevelIndex = 1 then [u] else [] := by
  unfold topUpdates
  rw [bookUpdates_append, List.filter_append]
  congr 1
  by_cases htop : u.side.bookSide = side ∧ u.priceLevelIndex = 1
  · simp [bookUpdates, htop]
  · simp [bookUpdates, htop]

/-- The best prices of a history of updates are those of the replica exactly when the last
update of the best level stands, as long as the best level is not of size zero. -/
theorem BBO.shows_replay_iff {es : List EngineEvent} (hlocated : Located es) (side : BookSide)
    (hsize : ∀ level ∈ (Replica.replay es side).head?, level.totalQuantity ≠ 0) :
    (BBO.replay es).Shows side (Replica.replay es side) ↔
      TopStands side es (Replica.replay es side) := by
  induction es using List.reverseRecOn with
  | nil => cases side <;> simp [Shows, replay, Replica.replay, TopStands, topUpdates,
      bookUpdates, size]
  | append_singleton es e ih =>
      have hbefore : Located es := by
        intro before x after hsplit
        exact hlocated before x (after ++ [e]) (by simp [hsplit])
      by_cases hupdate : ∃ u, e = .bookUpdate u
      · rcases hupdate with ⟨u, rfl⟩
        have hfinds := hlocated es _ [] rfl u rfl
        have hreplay : replay (es ++ [.bookUpdate u]) = (replay es).apply u := by
          simp [replay, bookUpdates]
        rw [Replica.replay_concat] at hsize ⊢
        rw [hreplay]
        unfold TopStands
        rw [topUpdates_concat]
        by_cases htop : u.side.bookSide = side ∧ u.priceLevelIndex = 1
        · rw [if_pos htop, List.getLast?_concat]
          rcases htop with ⟨rfl, hindex⟩
          simpa using shows_apply_top hfinds hindex hsize (replay es)
        · -- The best level and its price stay as they are.
          have hhead := Replica.head?_apply_of_not_top hfinds htop
          rcases apply_of_not_top htop (replay es) with ⟨hprice, hsame⟩
          rw [hhead] at hsize
          rw [if_neg htop, List.append_nil, hhead]
          have hshows := ih hbefore hsize
          unfold Shows at hshows ⊢
          rw [hhead, hprice, hsame]
          exact hshows
      · have hother : ∀ u, e ≠ .bookUpdate u := fun u heq => hupdate ⟨u, heq⟩
        rw [Replica.replay_concat_other hother] at hsize ⊢
        unfold replay TopStands topUpdates
        rw [bookUpdates_concat_other hother]
        exact ih hbefore hsize

end SimCme
