import SimCme.MarketData.IncrementalBuilder

/-!
# Report numbers on the feed

A receiver expects one sequence of report numbers for each security.  The book
numbers its updates, and the builder numbers the trades from a counter of its own.

Main results:

- Theorem {lit}`IncrementalBuilder.feed_numbers`: the updates of a security keep the numbers
  of the book, and its trades are numbered from one again.
- Theorem {lit}`feedSeqs_increasing_iff`: the numbers of a security increase along the
  feed exactly when the security does not trade.
-/

open Library

namespace SimCme

/-! ## Entries -/

/-- An entry of the incremental feed. -/
inductive FeedEntry where
  | book (entry : MDIncrementalRefreshBook46.Entry)
  | trade (entry : MDIncrementalRefreshTradeSummary48.MDEntry)
deriving DecidableEq, Repr

namespace FeedEntry

def securityID : FeedEntry → Int32
  | .book entry => entry.securityID
  | .trade entry => entry.securityID

def rptSeq : FeedEntry → UInt32
  | .book entry => entry.rptSeq
  | .trade entry => entry.rptSeq

def isBook : FeedEntry → Bool
  | .book _ => true
  | .trade _ => false

end FeedEntry

/-- The entries of a message, in the order of its bytes. -/
def Mdp3Message.feedEntries : Mdp3Message → List FeedEntry
  | .book msg => msg.entries.map .book
  | .tradeSummary msg => msg.mdEntries.map .trade
  | _ => []

/-- The report numbers of a security, in the order of the feed. -/
def feedSeqs (s : SecurityId) (entries : List FeedEntry) : List UInt32 :=
  (entries.filter fun entry => entry.securityID = Int32.ofInt s).map FeedEntry.rptSeq

/-- The numbers of its updates. -/
def bookSeqs (s : SecurityId) (entries : List FeedEntry) : List UInt32 :=
  feedSeqs s (entries.filter (·.isBook))

/-- The numbers of its trades. -/
def tradeSeqs (s : SecurityId) (entries : List FeedEntry) : List UInt32 :=
  feedSeqs s (entries.filter fun entry => !entry.isBook)

@[simp]
theorem feedSeqs_append (s : SecurityId) (entries entries' : List FeedEntry) :
    feedSeqs s (entries ++ entries') = feedSeqs s entries ++ feedSeqs s entries' := by
  simp [feedSeqs]

/-- The numbers of a security are those of its updates and its trades. -/
theorem feedSeqs_perm (s : SecurityId) (entries : List FeedEntry) :
    (feedSeqs s entries).Perm (bookSeqs s entries ++ tradeSeqs s entries) := by
  have hsplit := (List.filter_append_perm FeedEntry.isBook entries).symm
  have hnumbers := (hsplit.filter fun entry => entry.securityID = Int32.ofInt s).map
    FeedEntry.rptSeq
  simpa [feedSeqs, bookSeqs, tradeSeqs] using hnumbers

/-- Without trades they are those of its updates, in order. -/
theorem feedSeqs_of_no_trade {s : SecurityId} {entries : List FeedEntry}
    (hnone : tradeSeqs s entries = []) : feedSeqs s entries = bookSeqs s entries := by
  unfold tradeSeqs feedSeqs at hnone
  rw [List.map_eq_nil_iff, List.filter_filter, List.filter_eq_nil_iff] at hnone
  unfold bookSeqs feedSeqs
  rw [List.filter_filter]
  congr 1
  apply List.filter_congr
  intro entry hentry
  have hbook := hnone entry hentry
  cases hs : decide (entry.securityID = Int32.ofInt s) with
  | false => simp
  | true =>
      cases hkind : entry.isBook with
      | true => simp
      | false => simp [hs, hkind] at hbook

namespace IncrementalBuilder

/-- The messages of a packet. -/
def packetMessages (builder : IncrementalBuilder) (events : List EngineEvent)
    (transactTime : Timestamp) : List Mdp3Message :=
  let book := builder.bookRefresh events transactTime
  let trades := book.1.tradeSummary events transactTime
  bookMessages book.2 ++ tradeMessages trades.2

/-- The feed of a channel: one packet for each batch of events. -/
def feed : Machine IncrementalBuilder (List EngineEvent × Timestamp) FeedEntry where
  step builder batch :=
    ((builder.buildIncrementalPacket batch.1 batch.2).1,
      (builder.packetMessages batch.1 batch.2).flatMap Mdp3Message.feedEntries)

/-- The feed carries the entries of the packets that are sent. -/
theorem packet_eq_packetMessages (builder : IncrementalBuilder) (events : List EngineEvent)
    (transactTime : Timestamp) :
    (builder.buildIncrementalPacket events transactTime).2 =
      (builder.packetMessages events transactTime).flatMap Mdp3Message.toBytes :=
  packet_eq builder events transactTime

/-! ## Numbers of one packet -/

theorem ofInt_eq_iff {i j : Int} (hi : InRange i) (hj : InRange j) :
    Int32.ofInt i = Int32.ofInt j ↔ i = j := by
  constructor
  · intro heq
    have htoInt := congrArg Int32.toInt heq
    rwa [toInt_ofInt_of_inRange hi, toInt_ofInt_of_inRange hj] at htoInt
  · rintro rfl
    rfl

/-- The securities of the published events are values of their type. -/
def SecuritiesTyped (es : List EngineEvent) : Prop :=
  ∀ e ∈ es, ∀ s, e.feedSecurity = some s → InRange s

variable {s : SecurityId} {es : List EngineEvent}

theorem bookUpdates_feedOf (s : SecurityId) (es : List EngineEvent) :
    bookUpdates (feedOf s es) = (bookUpdates es).filter fun u => u.securityId = s := by
  unfold bookUpdates feedOf
  rw [List.filterMap_filter, List.filter_filterMap]
  apply List.filterMap_congr
  intro e he
  cases e with
  | bookUpdate u =>
      by_cases hs : u.securityId = s
      · simp [EngineEvent.feedSecurity, Option.filter, hs]
      · simp [EngineEvent.feedSecurity, Option.filter, hs]
  | _ => simp

/-- The entry of an update names its security, and keeps its number if it has one. -/
def Numbers (entry : MDIncrementalRefreshBook46.Entry) (u : BookUpdate) : Prop :=
  InRange u.securityId ∧ entry.securityID = Int32.ofInt u.securityId ∧
    (u.rptSeq ≠ 0 → entry.rptSeq = u.rptSeq)

theorem bookLoop_numbers (htyped : SecuritiesTyped es) (builder : IncrementalBuilder) :
    List.Forall₂ Numbers (bookLoop.run builder es).2 (bookUpdates es) := by
  refine Machine.forall₂_run (fun builder e he => ?_) builder
  cases e with
  | bookUpdate u =>
      refine .cons ⟨htyped _ he _ rfl, rfl, ?_⟩ .nil
      intro hnumber
      simp [bookEntry, hnumber]
  | _ => exact .nil

/-- The updates of a security have an entry each. -/
theorem forall₂_feedOf (hs : InRange s) {entries : List MDIncrementalRefreshBook46.Entry}
    (hnumbers : List.Forall₂ Numbers entries (bookUpdates es)) :
    List.Forall₂ Numbers (entries.filter fun entry => entry.securityID = Int32.ofInt s)
      (bookUpdates (feedOf s es)) := by
  rw [bookUpdates_feedOf]
  refine List.rel_filter ?_ hnumbers
  rintro entry u ⟨htyped, hsecurity, -⟩
  simp [hsecurity, ofInt_eq_iff htyped hs]

/-- The entries of a security keep the numbers of its updates. -/
theorem map_rptSeq_of_numbers {entries : List MDIncrementalRefreshBook46.Entry}
    {updates : List BookUpdate} (hnumbers : List.Forall₂ Numbers entries updates)
    (hnonzero : ∀ u ∈ updates, u.rptSeq ≠ 0) :
    entries.map (·.rptSeq) = updates.map (·.rptSeq) := by
  induction hnumbers with
  | nil => rfl
  | cons hentry _ ih =>
      rcases List.forall_mem_cons.mp hnonzero with ⟨hfirst, hrest⟩
      simp [hentry.2.2 hfirst, ih hrest]

/-- Updates that come with numbers leave the counter alone. -/
theorem bookLoop_rptSeqs (hnonzero : ∀ u ∈ bookUpdates (feedOf s es), u.rptSeq ≠ 0)
    (builder : IncrementalBuilder) :
    (bookLoop.run builder es).1.rptSeqs s = builder.rptSeqs s := by
  induction es generalizing builder with
  | nil => rfl
  | cons e es ih =>
      rw [← List.singleton_append, feedOf_append, bookUpdates_append,
        List.forall_mem_append] at hnonzero
      rw [Machine.run, ih hnonzero.2]
      cases e with
      | bookUpdate u =>
          by_cases hnumber : u.rptSeq = 0
          · have hne : s ≠ u.securityId := by
              rintro rfl
              exact hnonzero.1 u (by simp [feedOf, EngineEvent.feedSecurity, bookUpdates]) hnumber
            simp [bookLoop, bookEntry, hnumber, getNextRptSeq, hne]
          · simp [bookLoop, bookEntry, hnumber]
      | _ => rfl

theorem tradeLoop_step_orderFilled (builder : IncrementalBuilder) (fill : OrderFilled) :
    tradeLoop.step builder (.orderFilled fill) =
      ((builder.tradeEntries fill).1, [(builder.tradeEntries fill).2]) :=
  rfl

/-- The trades of a security are numbered on from the counter. -/
theorem tradeLoop_numbers (hs : InRange s) (htyped : SecuritiesTyped es)
    (builder : IncrementalBuilder) :
    let count := (orderFills (feedOf s es)).length
    (tradeLoop.run builder es).1.rptSeqs s = builder.rptSeqs s + .ofNat count ∧
      feedSeqs s ((tradeLoop.run builder es).2.map fun trade => .trade trade.mdEntry) =
        (List.range count).map fun i => builder.rptSeqs s + .ofNat (i + 1) := by
  induction es using List.reverseRecOn with
  | nil => simp [feedSeqs, orderFills]
  | append_singleton es e ih =>
      obtain ⟨hcounter, hseqs⟩ := ih fun e he => htyped e (List.mem_append_left _ he)
      rw [Machine.run_concat]
      cases e with
      | orderFilled fill =>
          have hfill := htyped (.orderFilled fill) (by simp) fill.securityId rfl
          by_cases hfs : fill.securityId = s
          · have hfeed : orderFills (feedOf s [.orderFilled fill]) = [fill] := by
              simp [feedOf, orderFills, EngineEvent.feedSecurity, hfs]
            simp only [feedOf_append, orderFills_append, hfeed, List.length_append,
              List.length_singleton, List.range_succ, List.map_append, feedSeqs_append, hseqs]
            rw [tradeLoop_step_orderFilled]
            refine ⟨?_, ?_⟩
            · simp [tradeEntries, getNextRptSeq, hfs, hcounter, UInt32.add_assoc]
            · simp [feedSeqs, tradeEntries, getNextRptSeq, FeedEntry.securityID,
                FeedEntry.rptSeq, hfs, hcounter, UInt32.add_assoc]
          · have hfeed : feedOf s [.orderFilled fill] = [] := by
              simp [feedOf, EngineEvent.feedSecurity, hfs]
            simp only [feedOf_append, hfeed, List.append_nil, List.map_append, feedSeqs_append,
              hseqs]
            rw [tradeLoop_step_orderFilled]
            refine ⟨?_, ?_⟩
            · simp [tradeEntries, getNextRptSeq, Ne.symm hfs, hcounter]
            · simp [feedSeqs, tradeEntries, getNextRptSeq, FeedEntry.securityID,
                ofInt_eq_iff hfill hs, hfs]
      | bookUpdate u =>
          have hfeed : orderFills (feedOf s [.bookUpdate u]) = [] := by
            by_cases hus : u.securityId = s
            · simp [feedOf, orderFills, EngineEvent.feedSecurity, hus]
            · simp [feedOf, orderFills, EngineEvent.feedSecurity, hus]
          simp only [feedOf_append, orderFills_append, hfeed, List.append_nil]
          exact ⟨hcounter, by simpa [tradeLoop] using hseqs⟩
      | _ =>
          simp only [feedOf_append, orderFills_append]
          exact ⟨by simpa [tradeLoop, feedOf, EngineEvent.feedSecurity, orderFills] using hcounter,
            by simpa [tradeLoop, feedOf, EngineEvent.feedSecurity, orderFills] using hseqs⟩

/-! ## Numbers of a run -/

/-- The entries of a packet: the updates of the batch and then its trades. -/
theorem feed_step (builder : IncrementalBuilder) (batch : List EngineEvent × Timestamp) :
    let book := bookLoop.run builder batch.1
    let trades := tradeLoop.run book.1 batch.1
    feed.step builder batch =
      (trades.1, book.2.map .book ++ trades.2.map fun trade => .trade trade.mdEntry) := by
  refine Prod.ext ?_ ?_
  · simp only [feed, buildIncrementalPacket, buildBookRefresh, buildTradeSummary,
      bookRefresh_filter, tradeSummary_filter]
    rfl
  · simp only [feed, packetMessages, List.flatMap_append, bookMessages, tradeMessages,
      bookRefresh, tradeSummary]
    congr 1
    · by_cases hempty : (bookLoop.run builder batch.1).2 = []
      · simp [hempty]
      · simp [hempty, Mdp3Message.feedEntries]
    · by_cases hempty : (tradeLoop.run (bookLoop.run builder batch.1).1 batch.1).2 = []
      · simp [hempty]
      · simp [hempty, Mdp3Message.feedEntries]

variable {batches : List (List EngineEvent × Timestamp)}

theorem bookSeqs_append (s : SecurityId) (entries entries' : List FeedEntry) :
    bookSeqs s (entries ++ entries') = bookSeqs s entries ++ bookSeqs s entries' := by
  simp [bookSeqs]

theorem tradeSeqs_append (s : SecurityId) (entries entries' : List FeedEntry) :
    tradeSeqs s (entries ++ entries') = tradeSeqs s entries ++ tradeSeqs s entries' := by
  simp [tradeSeqs]

/-- The numbers of the updates of a packet. -/
theorem bookSeqs_step (s : SecurityId) (builder : IncrementalBuilder)
    (batch : List EngineEvent × Timestamp) :
    bookSeqs s (feed.step builder batch).2 =
      ((bookLoop.run builder batch.1).2.filter fun entry =>
        entry.securityID = Int32.ofInt s).map (·.rptSeq) := by
  have hfirst : ∀ entries : List MDIncrementalRefreshBook46.Entry,
      bookSeqs s (entries.map .book) =
        (entries.filter fun entry => entry.securityID = Int32.ofInt s).map (·.rptSeq) := by
    intro entries
    simp only [bookSeqs, feedSeqs, List.filter_map, Function.comp_def, FeedEntry.isBook,
      List.filter_true, List.map_map]
    rfl
  have hsecond : ∀ trades : List TradeEntries,
      bookSeqs s (trades.map fun trade => .trade trade.mdEntry) = [] := by
    intro trades
    simp [bookSeqs, feedSeqs, FeedEntry.isBook]
  rw [feed_step, bookSeqs_append, hfirst, hsecond, List.append_nil]

/-- The numbers of the trades of a packet. -/
theorem tradeSeqs_step (s : SecurityId) (builder : IncrementalBuilder)
    (batch : List EngineEvent × Timestamp) :
    tradeSeqs s (feed.step builder batch).2 =
      feedSeqs s ((tradeLoop.run (bookLoop.run builder batch.1).1 batch.1).2.map fun trade =>
        .trade trade.mdEntry) := by
  have hfirst : ∀ entries : List MDIncrementalRefreshBook46.Entry,
      tradeSeqs s (entries.map .book) = [] := by
    intro entries
    simp [tradeSeqs, feedSeqs, FeedEntry.isBook]
  have hsecond : ∀ trades : List TradeEntries,
      tradeSeqs s (trades.map fun trade => .trade trade.mdEntry) =
        feedSeqs s (trades.map fun trade => .trade trade.mdEntry) := by
    intro trades
    simp [tradeSeqs, List.filter_map, Function.comp_def, FeedEntry.isBook]
  rw [feed_step, tradeSeqs_append, hfirst, hsecond, List.nil_append]

/-- Every update of a security has its entry on the feed. -/
theorem length_bookSeqs_feed (hs : InRange s)
    (htyped : SecuritiesTyped (batches.flatMap Prod.fst)) (builder : IncrementalBuilder) :
    (bookSeqs s (feed.run builder batches).2).length =
      (bookUpdates (feedOf s (batches.flatMap Prod.fst))).length := by
  induction batches using List.reverseRecOn with
  | nil => rfl
  | append_singleton batches batch ih =>
      simp only [List.flatMap_append, List.flatMap_singleton] at htyped ⊢
      have hearlier := ih fun e he => htyped e (List.mem_append_left _ he)
      have hnumbers := forall₂_feedOf hs (bookLoop_numbers
        (fun e he => htyped e (List.mem_append_right _ he)) (feed.run builder batches).1)
      rw [Machine.run_concat, bookSeqs_append, bookSeqs_step, List.length_append, hearlier,
        List.length_map, hnumbers.length_eq, feedOf_append, bookUpdates_append,
        List.length_append]

/-- The updates of a security keep the numbers of the book, and its trades are numbered
from one. -/
theorem feed_numbers (hs : InRange s) (htyped : SecuritiesTyped (batches.flatMap Prod.fst))
    (hnonzero : ∀ u ∈ bookUpdates (feedOf s (batches.flatMap Prod.fst)), u.rptSeq ≠ 0) :
    let r := feed.run {} batches
    let published := feedOf s (batches.flatMap Prod.fst)
    bookSeqs s r.2 = (bookUpdates published).map (·.rptSeq) ∧
      tradeSeqs s r.2 = (List.range (orderFills published).length).map (.ofNat <| · + 1) ∧
      r.1.rptSeqs s = .ofNat (orderFills published).length := by
  induction batches using List.reverseRecOn with
  | nil => exact ⟨rfl, rfl, rfl⟩
  | append_singleton batches batch ih =>
      simp only [List.flatMap_append, List.flatMap_singleton] at htyped hnonzero ⊢
      rw [feedOf_append, bookUpdates_append, List.forall_mem_append] at hnonzero
      have hbatch : SecuritiesTyped batch.1 := fun e he =>
        htyped e (List.mem_append_right _ he)
      obtain ⟨hbook, htrade, hcounter⟩ :=
        ih (fun e he => htyped e (List.mem_append_left _ he)) hnonzero.1
      have hnumbers := forall₂_feedOf hs (bookLoop_numbers hbatch (feed.run {} batches).1)
      have hkept := bookLoop_rptSeqs hnonzero.2 (feed.run {} batches).1
      obtain ⟨hnext, htrades⟩ := tradeLoop_numbers hs hbatch
        (bookLoop.run (feed.run {} batches).1 batch.1).1
      rw [Machine.run_concat, feedOf_append, bookUpdates_append, orderFills_append]
      refine ⟨?_, ?_, ?_⟩
      · rw [bookSeqs_append, hbook, bookSeqs_step, map_rptSeq_of_numbers hnumbers hnonzero.2,
          List.map_append]
      · rw [tradeSeqs_append, htrade, tradeSeqs_step, htrades, hkept, hcounter,
          List.length_append, List.range_add, List.map_append, List.map_map]
        congr 1
        apply List.map_congr_left
        intro i _
        simp [UInt32.ofNat_add, UInt32.add_assoc]
      · rw [feed_step, hnext, hkept, hcounter, List.length_append, UInt32.ofNat_add]

end IncrementalBuilder

/-! ## The numbers of a run of the engine -/

/-- Every book of a run came with an instrument. -/
theorem addInstrument_of_run (ops : List EngineOp) {s : SecurityId}
    (hbook : (FullMatchingEngine.machine.run {} ops).1.orderBooks s ≠ none) :
    .addInstrument s ∈ ops := by
  induction ops using List.reverseRecOn with
  | nil => exact (hbook rfl).elim
  | append_singleton ops op ih =>
      rw [Machine.run_concat] at hbook
      rcases FeedTracks.orderBooks_cases _ op hbook with hold | rfl
      · exact List.mem_append_left _ (ih hold)
      · simp

/-- What a run publishes of a security is numbered from one, if it is not too much. -/
theorem rptSeq_ne_zero {es : List EngineEvent} {b : OrderBook} (htracks : Tracks es b)
    (hfew : (bookUpdates es).length < 2 ^ 32) : ∀ u ∈ bookUpdates es, u.rptSeq ≠ 0 := by
  intro u hu hzero
  have hmem : u.rptSeq.toNat ∈ (bookUpdates es).map fun u => u.rptSeq.toNat :=
    List.mem_map_of_mem hu
  rw [htracks.rptSeq_toNat hfew, hzero, List.mem_range'_1] at hmem
  simp at hmem

open IncrementalBuilder in
/-- The numbers of a security increase along the feed exactly when none of its orders
trade. -/
theorem feedSeqs_increasing_iff (ops : List EngineOp)
    (hadmits : FullMatchingEngine.machine.Admits (fun _ op => op.Fresh) {} ops)
    (hids : ∀ id, .addInstrument id ∈ ops → InRange id)
    (batches : List (List EngineEvent × Timestamp))
    (hbatches : batches.flatMap Prod.fst = (FullMatchingEngine.machine.run {} ops).2)
    (s : SecurityId) (hs : InRange s)
    (hfew : (feedSeqs s (feed.run {} batches).2).length < 2 ^ 32) :
    (feedSeqs s (feed.run {} batches).2).Pairwise (· < ·) ↔
      ∀ fill ∈ orderFills (FullMatchingEngine.machine.run {} ops).2, fill.securityId ≠ s := by
  rcases FeedTracks.run hadmits with ⟨-, hfeed⟩
  rw [← hbatches] at hfeed ⊢
  have htyped : SecuritiesTyped (batches.flatMap Prod.fst) := by
    intro e he id hid
    exact hids id (addInstrument_of_run ops (hfeed.listed e he id hid))
  have hperm := feedSeqs_perm s (feed.run {} batches).2
  have hupdates : (bookUpdates (feedOf s (batches.flatMap Prod.fst))).length < 2 ^ 32 := by
    rw [hperm.length_eq, List.length_append, length_bookSeqs_feed hs htyped] at hfew
    omega
  rcases feed_numbers hs htyped (rptSeq_ne_zero (hfeed.tracks s) hupdates) with ⟨hbook, htrade, -⟩
  constructor
  · -- The first update and the first trade are both number one.
    intro hincreasing fill hfill hfs
    have htraded : orderFills (feedOf s (batches.flatMap Prod.fst)) ≠ [] := by
      apply List.ne_nil_of_mem (a := fill)
      rw [mem_orderFills] at hfill ⊢
      exact List.mem_filter.mpr ⟨hfill, by simp [EngineEvent.feedSecurity, hfs]⟩
    have hfirstBook : 1 ∈ bookSeqs s (feed.run {} batches).2 := by
      have hpos := List.length_pos_iff.mpr (hfeed.reported s htraded)
      rw [hbook, (hfeed.tracks s).numbered]
      exact List.mem_map.mpr ⟨0, List.mem_range.mpr hpos, rfl⟩
    have hfirstTrade : 1 ∈ tradeSeqs s (feed.run {} batches).2 := by
      have hpos := List.length_pos_iff.mpr htraded
      rw [htrade]
      exact List.mem_map.mpr ⟨0, List.mem_range.mpr hpos, rfl⟩
    have hnodup : (feedSeqs s (feed.run {} batches).2).Nodup :=
      hincreasing.imp fun hlt => UInt32.ne_of_lt hlt
    exact List.disjoint_of_nodup_append (hperm.nodup_iff.mp hnodup) hfirstBook hfirstTrade
  · intro hquiet
    have hnone : orderFills (feedOf s (batches.flatMap Prod.fst)) = [] := by
      rw [List.eq_nil_iff_forall_not_mem]
      intro fill hfill
      rw [mem_orderFills] at hfill
      rcases List.mem_filter.mp hfill with ⟨hmem, hsecurity⟩
      have hfs : fill.securityId = s := by
        simpa [EngineEvent.feedSecurity] using hsecurity
      exact hquiet fill (mem_orderFills.mpr hmem) hfs
    rw [feedSeqs_of_no_trade (by simp [htrade, hnone]), hbook, List.pairwise_map]
    have hrange := List.pairwise_lt_range' (s := 1)
      (n := (bookUpdates (feedOf s (batches.flatMap Prod.fst))).length)
    rw [← (hfeed.tracks s).rptSeq_toNat hupdates, List.pairwise_map] at hrange
    exact hrange.imp fun hlt => UInt32.lt_iff_toNat_lt.mpr hlt

open IncrementalBuilder in
/-- Two bids at two prices. -/
theorem feedSeqs_of_two_bids :
    let ops : List EngineOp :=
      [.addInstrument 7, .submit { securityId := 7, price := ⟨100⟩, quantity := 5 } 0,
        .submit { securityId := 7, price := ⟨99⟩, quantity := 5 } 0]
    let batches := [((FullMatchingEngine.machine.run {} ops).2, 0)]
    (feedSeqs 7 (feed.run {} batches).2).Pairwise (· < ·) := by
  intro ops batches
  refine (feedSeqs_increasing_iff ops (by decide) ?_ batches ?_ 7 (by decide)
    (by decide +kernel)).mpr (by decide +kernel)
  · intro id hid
    simp only [ops, List.mem_cons, EngineOp.addInstrument.injEq, reduceCtorEq, or_false,
      List.not_mem_nil] at hid
    rw [hid]
    decide
  · simp [batches]

open IncrementalBuilder in
/-- A bid that a sell order trades against: the trade is number one again. -/
theorem not_feedSeqs_increasing_of_trade :
    let ops : List EngineOp :=
      [.addInstrument 7, .submit { securityId := 7, price := ⟨100⟩, quantity := 5 } 0,
        .submit { securityId := 7, side := .sell, price := ⟨100⟩, quantity := 2 } 0]
    let batches := [((FullMatchingEngine.machine.run {} ops).2, 0)]
    FullMatchingEngine.machine.Admits (fun _ op => op.Fresh) {} ops ∧
      batches.flatMap Prod.fst = (FullMatchingEngine.machine.run {} ops).2 ∧
      feedSeqs 7 (feed.run {} batches).2 = [1, 2, 1] ∧
      ¬(feedSeqs 7 (feed.run {} batches).2).Pairwise (· < ·) := by
  refine ⟨by decide, by simp, by decide +kernel, by decide +kernel⟩

end SimCme
