import SimCme.Engine.EngineRuns
import SimCme.MarketData.Replica

/-!
# The events of one security

The engine puts the events of all its books into one list.  What the feed publishes
of them, book updates and trades, names the security of the book it came from.  The
events of one security replay to the book of that security, whatever happens on the
other books in between.

Main results:

- Theorem {lit}`FeedTracks.bookFeed_of_route`: a book publishes events of its own security
  only.
- Theorem {lit}`FeedTracks.step` and {lit}`FeedTracks.run`: the events of each
  security replay to its book along every run of the engine.
-/

namespace SimCme

open Library

/-- The security of an event that goes to the feed. -/
def EngineEvent.feedSecurity : EngineEvent → Option SecurityId
  | .bookUpdate u => some u.securityId
  | .orderFilled fill => some fill.securityId
  | _ => none

/-- What a history publishes of one security. -/
def feedOf (s : SecurityId) (es : List EngineEvent) : List EngineEvent :=
  es.filter fun e => e.feedSecurity = some s

@[simp]
theorem feedOf_append (s : SecurityId) (es es' : List EngineEvent) :
    feedOf s (es ++ es') = feedOf s es ++ feedOf s es' :=
  List.filter_append ..

@[simp]
theorem feedOf_nil (s : SecurityId) : feedOf s [] = [] :=
  rfl

/-- The trades of a history. -/
def orderFills (es : List EngineEvent) : List OrderFilled :=
  es.filterMap fun
    | .orderFilled fill => some fill
    | _ => none

@[simp]
theorem orderFills_append (es es' : List EngineEvent) :
    orderFills (es ++ es') = orderFills es ++ orderFills es' :=
  List.filterMap_append

theorem mem_orderFills {es : List EngineEvent} {fill : OrderFilled} :
    fill ∈ orderFills es ↔ .orderFilled fill ∈ es := by
  unfold orderFills
  rw [List.mem_filterMap]
  constructor
  · rintro ⟨e, he, heq⟩
    cases e with
    | orderFilled f =>
        cases heq
        exact he
    | _ => contradiction
  · intro hfill
    exact ⟨_, hfill, rfl⟩

theorem mem_bookUpdates {es : List EngineEvent} {u : BookUpdate} :
    u ∈ bookUpdates es ↔ .bookUpdate u ∈ es := by
  unfold bookUpdates
  rw [List.mem_filterMap]
  constructor
  · rintro ⟨e, he, heq⟩
    cases e with
    | bookUpdate u' =>
        cases heq
        exact he
    | _ => contradiction
  · intro hu
    exact ⟨_, hu, rfl⟩

/-! ## A book speaks for itself -/

/-- What a book of a security has added to the feed of that security since
{lit}`before`.  It names that security only, replays to the book, and no trade comes
without an update. -/
structure BookFeed (s : SecurityId) (before es : List EngineEvent) (b : OrderBook) : Prop where
  securityId_eq : b.securityId = s
  own : ∀ e ∈ es, ∀ s', e.feedSecurity = some s' → s' = s
  tracks : Tracks (before ++ feedOf s es) b
  reported : orderFills (before ++ feedOf s es) ≠ [] → bookUpdates (before ++ feedOf s es) ≠ []

namespace BookFeed

variable {s : SecurityId} {before es : List EngineEvent} {b b' : OrderBook}

/-- An event that does not go to the feed. -/
theorem concat_other (hfeed : BookFeed s before es b) {e : EngineEvent}
    (he : e.feedSecurity = none) : BookFeed s before (es ++ [e]) b := by
  have hsame : feedOf s (es ++ [e]) = feedOf s es := by
    simp [feedOf, he]
  exact
    { securityId_eq := hfeed.securityId_eq
      own := by
        intro e' he' s' hs'
        rcases List.mem_append.mp he' with he' | he'
        · exact hfeed.own e' he' s' hs'
        · rw [List.mem_singleton.mp he', he] at hs'
          contradiction
      tracks := by
        rw [hsame]
        exact hfeed.tracks
      reported := by
        rw [hsame]
        exact hfeed.reported }

/-- An edit of a level, perhaps by a trade. -/
theorem edit (hfeed : BookFeed s before es b) {e : LevelEdit} (he : e.Applies b b')
    (hedit : e.old ≠ none ∨ e.new ≠ none) (fill : Option OrderFilled)
    (hfill : ∀ f ∈ fill, f.securityId = b.securityId) :
    BookFeed s before (es ++ (fill.toList.map .orderFilled ++ [.bookUpdate (e.report b)]))
      b' := by
  have hupdate : feedOf s [.bookUpdate (e.report b)] = [.bookUpdate (e.report b)] := by
    simp [feedOf, EngineEvent.feedSecurity, LevelEdit.report, hfeed.securityId_eq]
  have htrade : feedOf s (fill.toList.map .orderFilled) = fill.toList.map .orderFilled := by
    cases fill with
    | none => rfl
    | some f =>
        simp [feedOf, EngineEvent.feedSecurity, hfill f rfl, hfeed.securityId_eq]
  have htraded : Tracks (before ++ (feedOf s es ++ fill.toList.map .orderFilled)) b := by
    rw [← List.append_assoc]
    cases fill with
    | none => simpa using hfeed.tracks
    | some f => exact hfeed.tracks.concat_other (by simp)
  exact
    { securityId_eq := he.securityId_eq.trans hfeed.securityId_eq
      own := by
        intro e' he' s' hs'
        rcases List.mem_append.mp he' with he' | he'
        · exact hfeed.own e' he' s' hs'
        · rcases List.mem_append.mp he' with he' | he'
          · rcases List.mem_map.mp he' with ⟨f, hf, rfl⟩
            cases hs'
            exact (hfill f (Option.mem_toList.mp hf)).trans hfeed.securityId_eq
          · rw [List.mem_singleton.mp he'] at hs'
            cases hs'
            exact hfeed.securityId_eq
      tracks := by
        have hedited := htraded.edit he hedit
        simp only [feedOf_append, hupdate, htrade, List.append_assoc] at hedited ⊢
        exact hedited
      reported := by
        intro _
        simp [hupdate, bookUpdates] }

/-- An edit without a trade. -/
theorem concat_edit (hfeed : BookFeed s before es b) {e : LevelEdit} (he : e.Applies b b')
    (hedit : e.old ≠ none ∨ e.new ≠ none) :
    BookFeed s before (es ++ [.bookUpdate (e.report b)]) b' :=
  hfeed.edit he hedit none (by simp)

theorem removeFromBook (hfeed : BookFeed s before es b) {h : Heap Order} {r : OrderRef}
    (hinv : BookInv h b) (hr : b.Resting r) :
    BookFeed s before (es ++ (b.removeFromBook h r).2) (b.removeFromBook h r).1 := by
  rcases OrderBook.removeFromBook_spec hinv hr with ⟨e, level, he⟩
  rw [he.events_eq]
  exact hfeed.concat_edit he.applies (Or.inl (by simp [he.old_eq]))

end BookFeed

theorem bookFeed_law (s : SecurityId) (before : List EngineEvent) :
    BookLaw (fun _ _ => True) fun _ es _ b => BookFeed s before es b where
  refused _ _ hfeed := hfeed.concat_other rfl
  rejected _ _ _ _ hfeed := hfeed.concat_other rfl
  accepted _ _ _ hfeed := hfeed.concat_other rfl
  withdrawn := by
    intro es h b r hinv hr _ hfeed
    rw [← List.append_assoc]
    exact (hfeed.removeFromBook hinv hr).concat_other rfl
  replaced := by
    intro es h b r newPrice newQty newClOrdId hinv hr _ hfeed
    rw [← List.append_assoc]
    exact (hfeed.removeFromBook hinv hr).concat_other rfl
  traded := by
    intro es h b t hinv _ f hfeed
    exact hfeed.edit f.applies (Or.inl (by simp [OrderBook.Fill.edit]))
      (some (b.tradedFill h f.price t f.maker)) (by simp [OrderBook.tradedFill])
  entered := by
    intro es h b r hinv _ _ _ _ hfeed
    rcases OrderBook.insertResting_spec b h r with ⟨e, he⟩
    rw [he.events_eq]
    exact hfeed.concat_edit he.applies (Or.inr (by simp [he.new_eq]))
  cancelled _ _ _ hfeed := hfeed.concat_other rfl
  dropped _ _ _ hfeed := hfeed

/-! ## The books of an engine -/

/-- The feed of each security replays to its book, comes from a book the engine has,
and has no trade without an update. -/
structure FeedTracks (es : List EngineEvent) (e : FullMatchingEngine) : Prop where
  securityId_eq : ∀ s, (e.bookAt s).securityId = s
  tracks : ∀ s, Tracks (feedOf s es) (e.bookAt s)
  reported : ∀ s, orderFills (feedOf s es) ≠ [] → bookUpdates (feedOf s es) ≠ []
  listed : ∀ x ∈ es, ∀ s, x.feedSecurity = some s → e.orderBooks s ≠ none

namespace FeedTracks

variable {es : List EngineEvent} {e : FullMatchingEngine} {op : EngineOp}

theorem empty : FeedTracks [] {} where
  securityId_eq _ := rfl
  tracks s := tracks_empty s
  reported s hfills := (hfills rfl).elim
  listed := by simp

/-- Events off the feed change nothing. -/
theorem append_other (hfeed : FeedTracks es e) {e' : FullMatchingEngine}
    (hbooks : ∀ s, e'.bookAt s = e.bookAt s)
    (hlisted : ∀ s, e.orderBooks s ≠ none → e'.orderBooks s ≠ none)
    {new : List EngineEvent} (hnew : ∀ x ∈ new, x.feedSecurity = none) :
    FeedTracks (es ++ new) e' := by
  have hsame : ∀ s, feedOf s (es ++ new) = feedOf s es := by
    intro s
    have hnone : feedOf s new = [] := by
      apply List.filter_eq_nil_iff.mpr
      intro x hx
      simp [hnew x hx]
    rw [feedOf_append, hnone, List.append_nil]
  exact
    { securityId_eq := fun s => by
        rw [hbooks]
        exact hfeed.securityId_eq s
      tracks := fun s => by
        rw [hsame, hbooks]
        exact hfeed.tracks s
      reported := fun s => by
        rw [hsame]
        exact hfeed.reported s
      listed := by
        intro x hx s hs
        rcases List.mem_append.mp hx with hx | hx
        · exact hlisted s (hfeed.listed x hx s hs)
        · rw [hnew x hx] at hs
          contradiction }

/-- The engine keeps the books it has. -/
theorem orderBooks_kept (e : FullMatchingEngine) (op : EngineOp) {s : SecurityId}
    (hbook : e.orderBooks s ≠ none) : (e.outcome op).engine.orderBooks s ≠ none := by
  cases hroute : e.route op with
  | some routed =>
      rw [(FullMatchingEngine.outcome_of_route hroute).2.2 s]
      split
      · simp
      · exact hbook
  | none =>
      by_cases hop : ∀ id, op ≠ .addInstrument id
      · rcases FullMatchingEngine.outcome_of_not_routed hroute hop with ⟨⟨next, hengine⟩, -⟩
        rw [hengine]
        exact hbook
      · push Not at hop
        rcases hop with ⟨id, rfl⟩
        simp only [FullMatchingEngine.outcome, FullMatchingEngine.addInstrument]
        split
        · exact hbook
        · dsimp only
          split
          · simp
          · exact hbook

/-- A book comes with an instrument. -/
theorem orderBooks_cases (e : FullMatchingEngine) (op : EngineOp) {s : SecurityId}
    (hbook : (e.outcome op).engine.orderBooks s ≠ none) :
    e.orderBooks s ≠ none ∨ op = .addInstrument s := by
  cases hroute : e.route op with
  | some routed =>
      rcases routed with ⟨s', bop⟩
      rcases FullMatchingEngine.routed_of_route hroute with ⟨book, hrouted⟩
      have hold : e.orderBooks s' ≠ none := by
        cases hrouted with
        | submit hbook => simp [hbook]
        | cancel hbook => simp [hbook]
        | modify hbook => simp [hbook]
      rw [(FullMatchingEngine.outcome_of_route hroute).2.2 s] at hbook
      split at hbook
      · rename_i hs
        exact Or.inl (hs ▸ hold)
      · exact Or.inl hbook
  | none =>
      by_cases hop : ∀ id, op ≠ .addInstrument id
      · rcases FullMatchingEngine.outcome_of_not_routed hroute hop with ⟨⟨next, hengine⟩, -⟩
        rw [hengine] at hbook
        exact Or.inl hbook
      · push Not at hop
        rcases hop with ⟨id, rfl⟩
        simp only [FullMatchingEngine.outcome, FullMatchingEngine.addInstrument] at hbook
        split at hbook
        · exact Or.inl hbook
        · dsimp only at hbook
          split at hbook
          · rename_i hs
            exact Or.inr (by rw [hs])
          · exact Or.inl hbook

/-- A request that reaches a book extends the feed of its security by events of that
security only. -/
theorem bookFeed_of_route (hfeed : FeedTracks es e) (hinv : EngineInv e) (hfresh : op.Fresh)
    {s : SecurityId} {bop : BookOp} (hroute : e.route op = some (s, bop)) :
    BookFeed s (feedOf s es) (e.outcome op).events ((e.outcome op).engine.bookAt s) := by
  rcases FullMatchingEngine.outcome_of_route hroute with ⟨hevents, -, -⟩
  rcases FullMatchingEngine.step_of_route hroute with ⟨hbook, -⟩
  have hstart : BookFeed s (feedOf s es) [] (e.bookAt s) :=
    { securityId_eq := hfeed.securityId_eq s
      own := by simp
      tracks := by simpa using hfeed.tracks s
      reported := by simpa using hfeed.reported s }
  have hactive := ((bookFeed_law s (feedOf s es)).step (hinv.book_inv s)
    (hinv.fresh_of_route hroute hfresh) trivial hstart).1
  rw [List.nil_append, ← hevents, ← hbook] at hactive
  exact hactive

/-- One request. -/
theorem step (hfeed : FeedTracks es e) (hinv : EngineInv e) (hfresh : op.Fresh) :
    FeedTracks (es ++ (e.outcome op).events) (e.outcome op).engine := by
  cases hroute : e.route op with
  | none =>
      rcases FullMatchingEngine.step_of_not_routed hroute with ⟨-, hbooks, hevents⟩
      refine hfeed.append_other hbooks (fun s => orderBooks_kept e op) ?_
      rcases hevents with hevents | ⟨x, hevents⟩ | ⟨x, hevents⟩
      · simp [hevents]
      · simp [hevents, EngineEvent.feedSecurity]
      · simp [hevents, EngineEvent.feedSecurity]
  | some routed =>
      rcases routed with ⟨s, bop⟩
      rcases FullMatchingEngine.outcome_of_route hroute with ⟨-, -, horderBooks⟩
      rcases FullMatchingEngine.step_of_route hroute with ⟨-, hothers⟩
      have hactive := hfeed.bookFeed_of_route hinv hfresh hroute
      -- The other securities see no event.
      have hnone : ∀ s', s' ≠ s → feedOf s' (e.outcome op).events = [] := by
        intro s' hne
        apply List.filter_eq_nil_iff.mpr
        intro x hx hs'
        exact hne (hactive.own x hx s' (of_decide_eq_true hs'))
      exact
        { securityId_eq := fun s' => by
            by_cases hs : s' = s
            · subst hs
              exact hactive.securityId_eq
            · rw [hothers s' hs]
              exact hfeed.securityId_eq s'
          tracks := fun s' => by
            by_cases hs : s' = s
            · subst hs
              simpa using hactive.tracks
            · rw [feedOf_append, hnone s' hs, List.append_nil, hothers s' hs]
              exact hfeed.tracks s'
          reported := fun s' => by
            by_cases hs : s' = s
            · subst hs
              simpa using hactive.reported
            · rw [feedOf_append, hnone s' hs, List.append_nil]
              exact hfeed.reported s'
          listed := by
            intro x hx s' hs'
            rcases List.mem_append.mp hx with hx | hx
            · exact orderBooks_kept e op (hfeed.listed x hx s' hs')
            · have hs : s' = s := hactive.own x hx s' hs'
              rw [horderBooks, if_pos hs]
              simp }

/-- A batch of requests. -/
theorem batch {ops : List EngineOp} (hfeed : FeedTracks es e) (hinv : EngineInv e)
    (hfresh : ∀ op ∈ ops, op.Fresh) :
    let r := FullMatchingEngine.machine.run e ops
    EngineInv r.1 ∧ FeedTracks (es ++ r.2) r.1 := by
  induction ops generalizing es e with
  | nil => simpa using ⟨hinv, hfeed⟩
  | cons op ops ih =>
      rcases List.forall_mem_cons.mp hfresh with ⟨hop, hops⟩
      rcases ih (hfeed.step hinv hop) (hinv.step hop) hops with ⟨hengine, hrest⟩
      rw [List.append_assoc] at hrest
      exact ⟨hengine, hrest⟩

/-- A whole run. -/
theorem run {ops : List EngineOp}
    (hadmits : FullMatchingEngine.machine.Admits (fun _ op => op.Fresh) {} ops) :
    let r := FullMatchingEngine.machine.run {} ops
    EngineInv r.1 ∧ FeedTracks r.2 r.1 := by
  refine Machine.history_invariant (P := fun _ e es => EngineInv e ∧ FeedTracks es e)
    ⟨EngineInv.empty, FeedTracks.empty⟩ ?_ ops hadmits
  intro _ e es op hP hfresh
  exact ⟨hP.1.step hfresh, hP.2.step hP.1 hfresh⟩

end FeedTracks

end SimCme
