import SimCme.MarketData.InstrumentDefBuilder
import SimCme.MarketData.MarketDataPublisher

/-!
# The six feeds of a channel

A channel sends everything twice: incremental packets, snapshots and instrument
definitions each go out on a feed A and a feed B.  The incremental packets take their
number from feed A alone, whose counter feed B never touches; the other pairs count on
both feeds.

Main results:

- Theorem {lit}`FeedPair.send_seq` and {lit}`FeedPair.send_both`: either way of numbering
  keeps a pair of feeds together.
- Theorem {lit}`ChannelFeeds.InStep.apply`: one call keeps all pairs together.
- Theorem {lit}`feeds_agree`: after every sequence of calls both feeds of a pair have sent
  the same packets, numbered from one on.
-/

namespace SimCme

open Library

/-! ## Calls -/

namespace ChannelPublisher

def publishSecurityStatus (pub : ChannelPublisher) (securityId : SecurityId)
    (status : SecurityTradingStatus) (transactTime : Timestamp) : ChannelPublisher :=
  let msg : SecurityStatus30 :=
    { transactTime := .ofNat transactTime
      securityID := .ofInt securityId
      securityTradingStatus := status.code
      matchEventIndicator := MatchEventIndicator.endOfEvent }
  let buf := SecurityStatus30.format.toBytes msg
  let seq := pub.incrementalFeedA.nextSeqNum
  { pub with
    incrementalFeedA := pub.incrementalFeedA.send buf
    incrementalFeedB := pub.incrementalFeedB.sendWithSeqNum seq buf
    snapshotCycler := pub.snapshotCycler.map (·.setLastIncrementalSeqNum seq) }

/-- The number of the last incremental packet. -/
def currentIncrementalSeqNum (pub : ChannelPublisher) : UInt32 :=
  pub.incrementalFeedA.nextSeqNum - 1

end ChannelPublisher

namespace SnapshotCycler

/-- The loop over the instruments for any provider.  An instrument comes with the lists
its provider fills and the reading of the clock at its turn. -/
def providedTurns (lastIncrementalSeqNum : UInt32) :
    Machine SnapshotCycler (SecurityId × BookLists × Timestamp) SentSnapshot where
  step cycler turn :=
    let totNumReports := UInt32.ofNat cycler.instruments.length
    let lists := turn.2.1
    let cycler := { cycler with cycleCount := cycler.cycleCount + 1 }
    let snapshot := SnapshotBuilder.buildSnapshot turn.1 lastIncrementalSeqNum totNumReports
      lists.bids lists.asks lists.bidCounts lists.askCounts cycler.cycleCount turn.2.2
    if snapshot = [] then (cycler, [])
    else
      ({ cycler with feedA := cycler.feedA.send snapshot, feedB := cycler.feedB.send snapshot },
        [⟨turn.1, snapshot⟩])

/-- The server's provider reads the engine. -/
theorem turns_eq_providedTurns (engine : FullMatchingEngine) (lastIncrementalSeqNum : UInt32)
    (cycler : SnapshotCycler) (turn : SecurityId × Timestamp) :
    (turns engine lastIncrementalSeqNum).step cycler turn =
      (providedTurns lastIncrementalSeqNum).step cycler
        (turn.1, bookSnapshotProvider engine turn.1 {}, turn.2) :=
  rfl

/-- {lit}`runCycle` with what the provider answers at each turn. -/
def runProvided (cycler : SnapshotCycler) (provider : Nat → SecurityId → BookLists)
    (lastIncrementalSeqNum : UInt32) (clock : Nat → Timestamp) : SnapshotCycler :=
  ((providedTurns lastIncrementalSeqNum).run cycler
    (cycler.instruments.mapIdx fun i secId => (secId, provider i secId, clock i))).1

end SnapshotCycler

/-- A channel with its feeds of instrument definitions. -/
structure ChannelFeeds extends ChannelPublisher where
  instdefFeedA : FeedSender := {}
  instdefFeedB : FeedSender := {}

namespace ChannelFeeds

/-- A new channel whose cycler has its instruments. -/
def init (instruments : List SecurityId) : ChannelFeeds where
  toChannelPublisher := ChannelPublisher.initSnapshotCycler {} instruments

/-- The loop over the definitions.  A definition that throws ends it. -/
def replayLoop (tot : UInt32) : ChannelFeeds → List DefinedInstrument → ChannelFeeds
  | feeds, [] => feeds
  | feeds, inst :: rest =>
      match InstrumentDefBuilder.buildDefinition inst tot with
      | none => feeds
      | some msg =>
          if msg = [] then replayLoop tot feeds rest
          else
            replayLoop tot
              { feeds with
                instdefFeedA := feeds.instdefFeedA.send msg
                instdefFeedB := feeds.instdefFeedB.send msg }
              rest

def replayInstrumentDefinitions (feeds : ChannelFeeds) (instruments : List DefinedInstrument) :
    ChannelFeeds :=
  replayLoop (.ofNat instruments.length) feeds instruments

/-- Definitions that can all be built are all sent on both feeds, in order. -/
theorem replayLoop_of_defined {tot : UInt32} {instruments : List DefinedInstrument}
    {msgs : List (List UInt8)}
    (hmsgs : List.Forall₂
      (fun inst msg => InstrumentDefBuilder.buildDefinition inst tot = some msg) instruments msgs)
    (feeds : ChannelFeeds) :
    replayLoop tot feeds instruments =
      { feeds with
        instdefFeedA := msgs.foldl FeedSender.send feeds.instdefFeedA
        instdefFeedB := msgs.foldl FeedSender.send feeds.instdefFeedB } := by
  induction hmsgs generalizing feeds with
  | nil => rfl
  | cons hmsg _ ih =>
      -- No definition is empty, so the loop skips none.
      simp only [replayLoop, hmsg, if_neg (InstrumentDefBuilder.buildDefinition_ne_nil hmsg)]
      rw [ih]
      rfl

/-- One call on a channel. -/
inductive Call where
  | publishIncrementalUpdates (events : List EngineEvent) (transactTime : Timestamp)
  | publishSecurityStatus (securityId : SecurityId) (status : SecurityTradingStatus)
      (transactTime : Timestamp)
  | replayInstrumentDefinitions (instruments : List DefinedInstrument)
  | runCycle (provider : Nat → SecurityId → BookLists) (lastIncrementalSeqNum : UInt32)
      (clock : Nat → Timestamp)

def apply (feeds : ChannelFeeds) : Call → ChannelFeeds
  | .publishIncrementalUpdates events transactTime =>
      { feeds with
        toChannelPublisher := feeds.toChannelPublisher.publishIncrementalUpdates events
          transactTime }
  | .publishSecurityStatus securityId status transactTime =>
      { feeds with
        toChannelPublisher := feeds.toChannelPublisher.publishSecurityStatus securityId status
          transactTime }
  | .replayInstrumentDefinitions instruments => feeds.replayInstrumentDefinitions instruments
  | .runCycle provider lastIncrementalSeqNum clock =>
      { feeds with
        snapshotCycler := feeds.snapshotCycler.map
          (·.runProvided provider lastIncrementalSeqNum clock) }

end ChannelFeeds

/-! ## Pairs of feeds -/

/-- Two feeds have sent the same packets, numbered from one on, and the next number of
the first feed follows. -/
structure FeedPair (a b : FeedSender) : Prop where
  sent_eq : b.sent = a.sent
  numbers : a.sent.map (·.msgSeqNum) =
    (List.range a.sent.length).map fun i => UInt32.ofNat (i + 1)
  next_eq : a.nextSeqNum = UInt32.ofNat (a.sent.length + 1)

namespace FeedPair

variable {a b : FeedSender}

theorem init : FeedPair {} {} :=
  ⟨rfl, rfl, rfl⟩

/-- The second feed sends under the number of the first. -/
theorem send_seq (hpair : FeedPair a b) (msg : List UInt8) :
    FeedPair (a.send msg) (b.sendWithSeqNum a.nextSeqNum msg) where
  sent_eq := by simp [FeedSender.send, FeedSender.sendWithSeqNum, hpair.sent_eq]
  numbers := by
    simp only [FeedSender.send, List.map_append, List.map_cons, List.map_nil, List.length_append,
      List.length_cons, List.length_nil, Nat.zero_add, List.range_succ]
    rw [hpair.numbers, hpair.next_eq]
  next_eq := by
    simp only [FeedSender.send, List.length_append, List.length_cons, List.length_nil]
    rw [hpair.next_eq]
    exact (UInt32.ofNat_add (a.sent.length + 1) 1).symm

/-- Both feeds count, from the same number on. -/
theorem send_both (hpair : FeedPair a b) (hnext : b.nextSeqNum = a.nextSeqNum)
    (msg : List UInt8) :
    FeedPair (a.send msg) (b.send msg) ∧ (b.send msg).nextSeqNum = (a.send msg).nextSeqNum := by
  rcases hpair.send_seq msg with ⟨hsent, hnumbers, hcount⟩
  refine ⟨⟨?_, hnumbers, hcount⟩, ?_⟩
  · simp only [FeedSender.send, hnext]
    exact hsent
  · simp only [FeedSender.send, hnext]

/-- Below the range of the counter the numbers are those of the packets. -/
theorem numbers_eq (hpair : FeedPair a b) (hfew : a.sent.length < 2 ^ 32) :
    a.sent.map (·.msgSeqNum.toNat) = List.range' 1 a.sent.length := by
  have hmap := congrArg (List.map UInt32.toNat) hpair.numbers
  rw [List.map_map, List.map_map] at hmap
  rw [List.range'_eq_map_range]
  refine hmap.trans (List.map_congr_left ?_)
  intro i hi
  have hlt := List.mem_range.mp hi
  simp only [Function.comp_apply, UInt32.toNat_ofNat']
  omega

end FeedPair

namespace ChannelFeeds

/-- All pairs of a channel are together, and the cycler knows the last incremental
number. -/
structure InStep (feeds : ChannelFeeds) (cycler : SnapshotCycler) : Prop where
  cycler_eq : feeds.snapshotCycler = some cycler
  incremental : FeedPair feeds.incrementalFeedA feeds.incrementalFeedB
  snapshot : FeedPair cycler.feedA cycler.feedB
  snapshot_next : cycler.feedB.nextSeqNum = cycler.feedA.nextSeqNum
  instdef : FeedPair feeds.instdefFeedA feeds.instdefFeedB
  instdef_next : feeds.instdefFeedB.nextSeqNum = feeds.instdefFeedA.nextSeqNum
  lastIncrSeq_eq : cycler.lastIncrSeq = UInt32.ofNat feeds.incrementalFeedA.sent.length

variable {feeds : ChannelFeeds} {cycler : SnapshotCycler}

theorem InStep.init (instruments : List SecurityId) :
    InStep (.init instruments) { instruments := instruments } :=
  ⟨rfl, .init, .init, rfl, .init, rfl, rfl⟩

/-- A packet on the incremental pair. -/
theorem InStep.incrementalPacket (hfeeds : InStep feeds cycler) (packet : List UInt8)
    (builder : IncrementalBuilder) :
    let seq := feeds.incrementalFeedA.nextSeqNum
    InStep
      { feeds with
        incrementalFeedA := feeds.incrementalFeedA.send packet
        incrementalFeedB := feeds.incrementalFeedB.sendWithSeqNum seq packet
        incrementalBuilder := builder
        snapshotCycler := feeds.snapshotCycler.map (·.setLastIncrementalSeqNum seq) }
      (cycler.setLastIncrementalSeqNum seq) where
  cycler_eq := by rw [hfeeds.cycler_eq]; rfl
  incremental := hfeeds.incremental.send_seq packet
  snapshot := hfeeds.snapshot
  snapshot_next := hfeeds.snapshot_next
  instdef := hfeeds.instdef
  instdef_next := hfeeds.instdef_next
  lastIncrSeq_eq := by
    simp only [SnapshotCycler.setLastIncrementalSeqNum, FeedSender.send, List.length_append,
      List.length_cons, List.length_nil]
    exact hfeeds.incremental.next_eq

theorem InStep.publishIncrementalUpdates (hfeeds : InStep feeds cycler)
    (events : List EngineEvent) (transactTime : Timestamp) :
    ∃ cycler', InStep (feeds.apply (.publishIncrementalUpdates events transactTime)) cycler' := by
  simp only [apply, ChannelPublisher.publishIncrementalUpdates]
  split
  · exact ⟨cycler, hfeeds⟩
  · split
    · exact ⟨cycler, ⟨hfeeds.cycler_eq, hfeeds.incremental, hfeeds.snapshot,
        hfeeds.snapshot_next, hfeeds.instdef, hfeeds.instdef_next, hfeeds.lastIncrSeq_eq⟩⟩
    · exact ⟨_, hfeeds.incrementalPacket _ _⟩

theorem InStep.publishSecurityStatus (hfeeds : InStep feeds cycler) (securityId : SecurityId)
    (status : SecurityTradingStatus) (transactTime : Timestamp) :
    ∃ cycler',
      InStep (feeds.apply (.publishSecurityStatus securityId status transactTime)) cycler' :=
  ⟨_, hfeeds.incrementalPacket _ feeds.incrementalBuilder⟩

/-- The definitions go out on their pair, whichever of them throws. -/
theorem InStep.replayLoop (tot : UInt32) (instruments : List DefinedInstrument) :
    ∀ {feeds : ChannelFeeds}, InStep feeds cycler →
      InStep (ChannelFeeds.replayLoop tot feeds instruments) cycler := by
  induction instruments with
  | nil => exact fun hfeeds => hfeeds
  | cons inst rest ih =>
      intro feeds hfeeds
      simp only [ChannelFeeds.replayLoop]
      split
      · exact hfeeds
      · rename_i msg _
        split
        · exact ih hfeeds
        · rcases hfeeds.instdef.send_both hfeeds.instdef_next msg with ⟨hpair, hnext⟩
          exact ih ⟨hfeeds.cycler_eq, hfeeds.incremental, hfeeds.snapshot, hfeeds.snapshot_next,
            hpair, hnext, hfeeds.lastIncrSeq_eq⟩

/-- The snapshots of a cycle go out on their pair. -/
theorem snapshots_together (lastIncrementalSeqNum : UInt32)
    (turns : List (SecurityId × BookLists × Timestamp)) :
    ∀ {cycler : SnapshotCycler}, FeedPair cycler.feedA cycler.feedB →
      cycler.feedB.nextSeqNum = cycler.feedA.nextSeqNum →
      let cycler' := ((SnapshotCycler.providedTurns lastIncrementalSeqNum).run cycler turns).1
      FeedPair cycler'.feedA cycler'.feedB ∧
        cycler'.feedB.nextSeqNum = cycler'.feedA.nextSeqNum ∧
        cycler'.lastIncrSeq = cycler.lastIncrSeq := by
  induction turns with
  | nil => exact fun hpair hnext => ⟨hpair, hnext, rfl⟩
  | cons turn turns ih =>
      intro cycler hpair hnext
      simp only [Machine.run, SnapshotCycler.providedTurns]
      split
      · exact ih hpair hnext
      · rcases hpair.send_both hnext _ with ⟨hpair', hnext'⟩
        exact ih hpair' hnext'

/-- One call keeps all pairs together. -/
theorem InStep.apply (hfeeds : InStep feeds cycler) (call : Call) :
    ∃ cycler', InStep (feeds.apply call) cycler' := by
  cases call with
  | publishIncrementalUpdates events transactTime =>
      exact hfeeds.publishIncrementalUpdates events transactTime
  | publishSecurityStatus securityId status transactTime =>
      exact hfeeds.publishSecurityStatus securityId status transactTime
  | replayInstrumentDefinitions instruments =>
      exact ⟨cycler, InStep.replayLoop _ instruments hfeeds⟩
  | runCycle provider lastIncrementalSeqNum clock =>
      obtain ⟨hpair, hnext, hlast⟩ := snapshots_together lastIncrementalSeqNum
        (cycler.instruments.mapIdx fun i secId => (secId, provider i secId, clock i))
        hfeeds.snapshot hfeeds.snapshot_next
      refine ⟨cycler.runProvided provider lastIncrementalSeqNum clock, ⟨?_, hfeeds.incremental,
        hpair, hnext, hfeeds.instdef, hfeeds.instdef_next, hlast.trans hfeeds.lastIncrSeq_eq⟩⟩
      simp only [ChannelFeeds.apply, hfeeds.cycler_eq]
      rfl

/-- All pairs are together after every sequence of calls. -/
theorem InStep.foldl (calls : List Call) :
    ∀ {feeds : ChannelFeeds} {cycler : SnapshotCycler}, InStep feeds cycler →
      ∃ cycler', InStep (calls.foldl ChannelFeeds.apply feeds) cycler' := by
  induction calls with
  | nil => exact fun hfeeds => ⟨_, hfeeds⟩
  | cons call calls ih =>
      intro feeds cycler hfeeds
      rcases hfeeds.apply call with ⟨cycler', hfeeds'⟩
      exact ih hfeeds'

end ChannelFeeds

/-- Both feeds have sent the same packets under the numbers from one on. -/
def FeedSender.Agrees (a b : FeedSender) : Prop :=
  b.sent = a.sent ∧ a.sent.map (·.msgSeqNum.toNat) = List.range' 1 a.sent.length

/-- After every sequence of calls on a channel with its cycler, with fewer than
{lit}`2^32` packets on each feed, both feeds of each pair have sent the same packets
under the numbers from one on, and the cycler and the channel know the number of
incremental packets. -/
theorem feeds_agree (instruments : List SecurityId) (calls : List ChannelFeeds.Call) :
    let feeds := calls.foldl ChannelFeeds.apply (.init instruments)
    ∃ cycler, feeds.snapshotCycler = some cycler ∧
      (feeds.incrementalFeedA.sent.length < 2 ^ 32 → cycler.feedA.sent.length < 2 ^ 32 →
        feeds.instdefFeedA.sent.length < 2 ^ 32 →
        feeds.incrementalFeedA.Agrees feeds.incrementalFeedB ∧
          cycler.feedA.Agrees cycler.feedB ∧
          feeds.instdefFeedA.Agrees feeds.instdefFeedB ∧
          cycler.lastIncrSeq.toNat = feeds.incrementalFeedA.sent.length ∧
          feeds.currentIncrementalSeqNum.toNat = feeds.incrementalFeedA.sent.length) := by
  intro feeds
  obtain ⟨cycler, hfeeds⟩ :=
    ChannelFeeds.InStep.foldl calls (ChannelFeeds.InStep.init instruments)
  refine ⟨cycler, hfeeds.cycler_eq, ?_⟩
  intro hincremental hsnapshot hinstdef
  refine ⟨⟨hfeeds.incremental.sent_eq, hfeeds.incremental.numbers_eq hincremental⟩,
    ⟨hfeeds.snapshot.sent_eq, hfeeds.snapshot.numbers_eq hsnapshot⟩,
    ⟨hfeeds.instdef.sent_eq, hfeeds.instdef.numbers_eq hinstdef⟩, ?_, ?_⟩
  · rw [hfeeds.lastIncrSeq_eq, UInt32.toNat_ofNat']
    exact Nat.mod_eq_of_lt hincremental
  · have hcurrent : feeds.currentIncrementalSeqNum =
        UInt32.ofNat feeds.incrementalFeedA.sent.length := by
      unfold ChannelPublisher.currentIncrementalSeqNum
      rw [hfeeds.incremental.next_eq, UInt32.ofNat_add]
      exact UInt32.add_sub_cancel _ _
    rw [hcurrent, UInt32.toNat_ofNat']
    exact Nat.mod_eq_of_lt hincremental

/-- A channel opens and halts an instrument, with a cycle between the two. -/
theorem feeds_agree_of_two_statuses :
    let calls : List ChannelFeeds.Call :=
      [.publishSecurityStatus 7 .open 1, .runCycle (fun _ _ => {}) 1 (fun _ => 2),
        .publishSecurityStatus 7 .halt 3]
    let feeds := calls.foldl ChannelFeeds.apply (.init [7])
    feeds.incrementalFeedA.sent.length = 2 ∧
      ∃ cycler, feeds.snapshotCycler = some cycler ∧ cycler.feedA.sent.length = 1 ∧
        feeds.incrementalFeedA.Agrees feeds.incrementalFeedB ∧
        cycler.feedA.Agrees cycler.feedB ∧ feeds.instdefFeedA.Agrees feeds.instdefFeedB ∧
        cycler.lastIncrSeq.toNat = 2 ∧ feeds.currentIncrementalSeqNum.toNat = 2 := by
  intro calls feeds
  rcases feeds_agree [7] calls with ⟨cycler, hcycler, hagree⟩
  have hsnapshots : cycler.feedA.sent.length = 1 := by
    cases hcycler
    rfl
  exact ⟨rfl, cycler, hcycler, hsnapshots,
    hagree (by decide) (by rw [hsnapshots]; decide) (by decide)⟩

end SimCme
