import Mathlib.Data.Nat.ModEq
import SimCme.MarketData.SnapshotBuilder

/-!
# The snapshot cycler

The cycler goes through the instruments of a channel, reads the book of each and sends
a snapshot of it on both feeds.  It numbers the snapshots with a counter of its own,
while a receiver compares that number with the report numbers of the book.

Main results:

- Theorem {lit}`CycledEngine.facts_of_run`: the number of a snapshot counts the snapshots
  before it, and the last report number of a book counts its updates.
- Theorem {lit}`rptSeq_matches_iff`: the numbers of the snapshots of a run are those of
  the books exactly when these counts agree at every snapshot.
-/

open Library

namespace SimCme

/-! ## Senders -/

/-- What a packet of a feed carries behind its sending time. -/
structure FeedPacket where
  msgSeqNum : UInt32
  payload : List UInt8
deriving DecidableEq, Repr

structure FeedSender where
  nextSeqNum : UInt32 := 1
  /-- The packets handed to the socket, oldest first. -/
  sent : List FeedPacket := []
deriving DecidableEq, Repr

namespace FeedSender

def send (sender : FeedSender) (sbeMessages : List UInt8) : FeedSender where
  nextSeqNum := sender.nextSeqNum + 1
  sent := sender.sent ++ [⟨sender.nextSeqNum, sbeMessages⟩]

/-- Send under a given number, and leave the counter alone. -/
def sendWithSeqNum (sender : FeedSender) (seqNum : UInt32) (sbeMessages : List UInt8) :
    FeedSender :=
  { sender with sent := sender.sent ++ [⟨seqNum, sbeMessages⟩] }

end FeedSender

/-! ## The cycler -/

structure SnapshotCycler where
  instruments : List SecurityId
  feedA : FeedSender := {}
  feedB : FeedSender := {}
  lastIncrSeq : UInt32 := 0
  cycleCount : UInt32 := 0

/-- A snapshot on the feeds, with the instrument it was taken of. -/
structure SentSnapshot where
  securityId : SecurityId
  payload : List UInt8
deriving DecidableEq, Repr

namespace SnapshotCycler

def setLastIncrementalSeqNum (cycler : SnapshotCycler) (seq : UInt32) : SnapshotCycler :=
  { cycler with lastIncrSeq := seq }

/-- The loop over the instruments.  An instrument comes with the reading of the clock
at its turn. -/
def turns (engine : FullMatchingEngine) (lastIncrementalSeqNum : UInt32) :
    Machine SnapshotCycler (SecurityId × Timestamp) SentSnapshot where
  step cycler turn :=
    let totNumReports := UInt32.ofNat cycler.instruments.length
    let lists := bookSnapshotProvider engine turn.1 {}
    let cycler := { cycler with cycleCount := cycler.cycleCount + 1 }
    let snapshot := SnapshotBuilder.buildSnapshot turn.1 lastIncrementalSeqNum totNumReports
      lists.bids lists.asks lists.bidCounts lists.askCounts cycler.cycleCount turn.2
    if snapshot = [] then (cycler, [])
    else
      ({ cycler with feedA := cycler.feedA.send snapshot, feedB := cycler.feedB.send snapshot },
        [⟨turn.1, snapshot⟩])

def runCycle (cycler : SnapshotCycler) (engine : FullMatchingEngine)
    (lastIncrementalSeqNum : UInt32) (clock : Nat → Timestamp) :
    SnapshotCycler × List SentSnapshot :=
  (turns engine lastIncrementalSeqNum).run cycler
    (cycler.instruments.mapIdx fun i secId => (secId, clock i))

/-- The snapshot of a turn. -/
def turnSnapshot (cycler : SnapshotCycler) (engine : FullMatchingEngine)
    (lastIncrementalSeqNum : UInt32) (turn : SecurityId × Timestamp) : SnapshotFullRefresh52 :=
  SnapshotBuilder.ofEngine engine turn.1 lastIncrementalSeqNum
    (.ofNat cycler.instruments.length) (cycler.cycleCount + 1) turn.2

/-- A snapshot is never empty, so every turn sends one. -/
theorem turns_step (engine : FullMatchingEngine) (lastIncrementalSeqNum : UInt32)
    (cycler : SnapshotCycler) (turn : SecurityId × Timestamp) :
    let snapshot := SnapshotFullRefresh52.format.toBytes
      (cycler.turnSnapshot engine lastIncrementalSeqNum turn)
    (turns engine lastIncrementalSeqNum).step cycler turn =
      ({ cycler with
          cycleCount := cycler.cycleCount + 1
          feedA := cycler.feedA.send snapshot
          feedB := cycler.feedB.send snapshot },
        [⟨turn.1, snapshot⟩]) := by
  intro snapshot
  have hne : snapshot ≠ [] := by
    intro hnil
    have hlength := SnapshotFullRefresh52.format.length_toBytes
      (cycler.turnSnapshot engine lastIncrementalSeqNum turn)
    have hpos := SnapshotFullRefresh52.format.encodedLength_pos
      (cycler.turnSnapshot engine lastIncrementalSeqNum turn)
    rw [show SnapshotFullRefresh52.format.toBytes _ = snapshot from rfl, hnil] at hlength
    rw [← hlength] at hpos
    exact Nat.lt_irrefl 0 hpos
  exact if_neg hne

end SnapshotCycler

/-! ## Cycles between requests -/

inductive ChannelOp where
  | request (op : EngineOp)
  | cycle (lastIncrementalSeqNum : UInt32) (clock : Nat → Timestamp)

inductive ChannelOutput where
  | event (e : EngineEvent)
  | snapshot (sent : SentSnapshot)
deriving DecidableEq

/-- The events of the engine. -/
def engineEvents (outs : List ChannelOutput) : List EngineEvent :=
  outs.filterMap fun
    | .event e => some e
    | _ => none

/-- The snapshots on the feeds. -/
def sentSnapshots (outs : List ChannelOutput) : List SentSnapshot :=
  outs.filterMap fun
    | .snapshot sent => some sent
    | _ => none

/-- The number of the last update of a security, zero before the first one. -/
def lastRptSeq (s : SecurityId) (es : List EngineEvent) : UInt32 :=
  ((bookUpdates (feedOf s es)).getLast?.map BookUpdate.rptSeq).getD 0

/-- A snapshot carries the number of the last update its book had emitted. -/
def MatchesBook (before : List ChannelOutput) : ChannelOutput → Prop
  | .event _ => True
  | .snapshot sent =>
      ∃ msg, SnapshotFullRefresh52.format.decodeRoot {} sent.payload 0 = some msg ∧
        msg.rptSeq = lastRptSeq sent.securityId (engineEvents before)

/-- The book of a snapshot has emitted as many updates as there are snapshots, this one
included, modulo the width of the numbers. -/
def CountsAgree (before : List ChannelOutput) : ChannelOutput → Prop
  | .event _ => True
  | .snapshot sent =>
      (bookUpdates (feedOf sent.securityId (engineEvents before))).length ≡
        (sentSnapshots before).length + 1 [MOD 2 ^ 32]

instance (before : List ChannelOutput) : (out : ChannelOutput) → Decidable (CountsAgree before out)
  | .event _ => inferInstanceAs (Decidable True)
  | .snapshot _ => inferInstanceAs (Decidable (Nat.ModEq _ _ _))

/-- An engine and the cycler of a channel. -/
structure CycledEngine where
  engine : FullMatchingEngine := {}
  cycler : SnapshotCycler

namespace CycledEngine

def machine : Machine CycledEngine ChannelOp ChannelOutput where
  step state
    | .request op =>
        ({ state with engine := (state.engine.outcome op).engine },
          (state.engine.outcome op).events.map .event)
    | .cycle lastIncrementalSeqNum clock =>
        let r := state.cycler.runCycle state.engine lastIncrementalSeqNum clock
        ({ state with cycler := r.1 }, r.2.map .snapshot)

end CycledEngine

def ChannelOp.Fresh : ChannelOp → Prop
  | .request op => op.Fresh
  | .cycle .. => True

instance : (op : ChannelOp) → Decidable op.Fresh
  | .request op => inferInstanceAs (Decidable op.Fresh)
  | .cycle .. => inferInstanceAs (Decidable True)

/-! ## The numbers of the snapshots -/

@[simp]
theorem engineEvents_append (outs outs' : List ChannelOutput) :
    engineEvents (outs ++ outs') = engineEvents outs ++ engineEvents outs' :=
  List.filterMap_append

@[simp]
theorem sentSnapshots_append (outs outs' : List ChannelOutput) :
    sentSnapshots (outs ++ outs') = sentSnapshots outs ++ sentSnapshots outs' :=
  List.filterMap_append

@[simp]
theorem engineEvents_map_event (es : List EngineEvent) :
    engineEvents (es.map .event) = es := by
  simp [engineEvents, List.filterMap_map]

@[simp]
theorem sentSnapshots_map_event (es : List EngineEvent) :
    sentSnapshots (es.map .event) = [] := by
  simp [sentSnapshots, List.filterMap_map]

/-- The last number of a security counts its updates. -/
theorem lastRptSeq_eq {s : SecurityId} {es : List EngineEvent} {b : OrderBook}
    (htracks : Tracks (feedOf s es) b) :
    lastRptSeq s es = UInt32.ofNat (bookUpdates (feedOf s es)).length := by
  have hnumbers := congrArg List.getLast? htracks.numbered
  rw [List.getLast?_map, List.getLast?_map, List.getLast?_range] at hnumbers
  rw [lastRptSeq, hnumbers]
  cases hcount : (bookUpdates (feedOf s es)).length with
  | zero => rfl
  | succ count => simp

theorem uint32_ofNat_eq_iff (a b : Nat) :
    UInt32.ofNat a = UInt32.ofNat b ↔ a ≡ b [MOD 2 ^ 32] := by
  rw [← UInt32.toNat_inj, UInt32.toNat_ofNat', UInt32.toNat_ofNat']
  rfl

/-- The number of a snapshot counts the snapshots before it, and the last number of
its book counts the updates before it. -/
def SnapshotFacts (before : List ChannelOutput) : ChannelOutput → Prop
  | .event _ => True
  | .snapshot sent =>
      (∃ msg, SnapshotFullRefresh52.format.decodeRoot {} sent.payload 0 = some msg ∧
        msg.rptSeq = UInt32.ofNat ((sentSnapshots before).length + 1)) ∧
      lastRptSeq sent.securityId (engineEvents before) =
        UInt32.ofNat (bookUpdates (feedOf sent.securityId (engineEvents before))).length

theorem matchesBook_iff_countsAgree {before : List ChannelOutput} {out : ChannelOutput}
    (hfacts : SnapshotFacts before out) : MatchesBook before out ↔ CountsAgree before out := by
  cases out with
  | event e => rfl
  | snapshot sent =>
      rcases hfacts with ⟨⟨msg, hmsg, hnumber⟩, hlast⟩
      have hmatch : MatchesBook before (.snapshot sent) ↔
          UInt32.ofNat ((sentSnapshots before).length + 1) =
            UInt32.ofNat (bookUpdates (feedOf sent.securityId (engineEvents before))).length := by
        simp [MatchesBook, hmsg, hnumber, hlast]
      rw [hmatch, uint32_ofNat_eq_iff]
      exact Nat.ModEq.comm

/-- What holds along a run of requests and cycles. -/
structure CycledInv (state : CycledEngine) (outs : List ChannelOutput) : Prop where
  engine_inv : EngineInv state.engine
  feed : FeedTracks (engineEvents outs) state.engine
  cycleCount_eq : state.cycler.cycleCount = UInt32.ofNat (sentSnapshots outs).length
  facts : EachAfter SnapshotFacts outs

namespace CycledEngine

open SnapshotCycler

theorem inv_request {state : CycledEngine} {outs : List ChannelOutput} {op : EngineOp}
    (hinv : CycledInv state outs) (hfresh : op.Fresh) :
    CycledInv (machine.step state (.request op)).1
      (outs ++ (machine.step state (.request op)).2) where
  engine_inv := hinv.engine_inv.step hfresh
  feed := by
    have hfeed := hinv.feed.step hinv.engine_inv hfresh
    simpa [machine] using hfeed
  cycleCount_eq := by simpa [machine] using hinv.cycleCount_eq
  facts := by
    apply hinv.facts.append_of_forall
    intro out hout before
    rcases List.mem_map.mp hout with ⟨e, -, rfl⟩
    trivial

/-- One turn of the cycler. -/
theorem inv_turn {state : CycledEngine} {outs : List ChannelOutput}
    (hinv : CycledInv state outs) (lastIncrementalSeqNum : UInt32)
    (turn : SecurityId × Timestamp) :
    let r := (turns state.engine lastIncrementalSeqNum).step state.cycler turn
    CycledInv { state with cycler := r.1 } (outs ++ r.2.map .snapshot) := by
  intro r
  have hr : r = _ := turns_step state.engine lastIncrementalSeqNum state.cycler turn
  rw [hr]
  refine
    { engine_inv := hinv.engine_inv
      feed := ?_
      cycleCount_eq := ?_
      facts := hinv.facts.concat ?_ }
  · simpa [engineEvents] using hinv.feed
  · simp [sentSnapshots, hinv.cycleCount_eq]
  · refine ⟨⟨_, GroupedFormat.decodeRoot_toBytes _ _ _, ?_⟩, lastRptSeq_eq (hinv.feed.tracks _)⟩
    rw [UInt32.ofNat_add, ← hinv.cycleCount_eq]
    rfl

theorem inv_cycle {state : CycledEngine} {outs : List ChannelOutput}
    (hinv : CycledInv state outs) (lastIncrementalSeqNum : UInt32) (clock : Nat → Timestamp) :
    CycledInv (machine.step state (.cycle lastIncrementalSeqNum clock)).1
      (outs ++ (machine.step state (.cycle lastIncrementalSeqNum clock)).2) := by
  have hturns : ∀ inputs cycler outs, CycledInv { state with cycler := cycler } outs →
      CycledInv
        { state with cycler := ((turns state.engine lastIncrementalSeqNum).run cycler inputs).1 }
        (outs ++ ((turns state.engine lastIncrementalSeqNum).run cycler inputs).2.map
          .snapshot) := by
    intro inputs
    induction inputs with
    | nil =>
        intro cycler outs hinv
        simpa using hinv
    | cons turn inputs ih =>
        intro cycler outs hinv
        have hturn := inv_turn hinv lastIncrementalSeqNum turn
        have hrest := ih _ _ hturn
        rw [List.append_assoc, ← List.map_append] at hrest
        exact hrest
  exact hturns _ _ _ hinv

/-- The number of a snapshot counts the snapshots before it, and the last report number
of a book counts its updates, along every run. -/
theorem facts_of_run (instruments : List SecurityId) (ops : List ChannelOp)
    (hadmits : machine.Admits (fun _ op => op.Fresh) { cycler := { instruments } } ops) :
    EachAfter SnapshotFacts (machine.run { cycler := { instruments } } ops).2 := by
  have hinit : CycledInv { cycler := { instruments } } [] :=
    { engine_inv := EngineInv.empty
      feed := FeedTracks.empty
      cycleCount_eq := rfl
      facts := eachAfter_nil }
  have hrun := Machine.history_invariant (P := fun _ state outs => CycledInv state outs)
    hinit ?_ ops hadmits
  · exact hrun.facts
  · intro _ state outs op hinv hfresh
    cases op with
    | request op => exact inv_request hinv hfresh
    | cycle lastIncrementalSeqNum clock => exact inv_cycle hinv lastIncrementalSeqNum clock

end CycledEngine

/-- Every snapshot of a run carries the number of the last update its book had emitted
exactly when, at every snapshot, the book has emitted as many updates as the cycler has
taken snapshots, this one included. -/
theorem rptSeq_matches_iff (instruments : List SecurityId) (ops : List ChannelOp)
    (hadmits : CycledEngine.machine.Admits (fun _ op => op.Fresh)
      { cycler := { instruments } } ops) :
    let outs := (CycledEngine.machine.run { cycler := { instruments } } ops).2
    EachAfter MatchesBook outs ↔ EachAfter CountsAgree outs := by
  intro outs
  have hfacts := CycledEngine.facts_of_run instruments ops hadmits
  constructor
  · intro hmatches before out after hsplit
    exact (matchesBook_iff_countsAgree (hfacts before out after hsplit)).mp
      (hmatches before out after hsplit)
  · intro hcounts before out after hsplit
    exact (matchesBook_iff_countsAgree (hfacts before out after hsplit)).mpr
      (hcounts before out after hsplit)

/-- One bid, and a snapshot after it. -/
theorem rptSeq_of_one_bid :
    let ops : List ChannelOp :=
      [.request (.addInstrument 7),
        .request (.submit { securityId := 7, price := ⟨100⟩, quantity := 5 } 0),
        .cycle 1 fun _ => 0]
    let outs := (CycledEngine.machine.run { cycler := { instruments := [7] } } ops).2
    (sentSnapshots outs).length = 1 ∧ EachAfter MatchesBook outs := by
  intro ops outs
  refine ⟨by decide +kernel, ?_⟩
  exact (rptSeq_matches_iff [7] ops (by decide)).mpr (by decide +kernel)

/-- Two bids, and the first snapshot after them: it says one, and the book said two. -/
theorem not_rptSeq_of_two_bids :
    let ops : List ChannelOp :=
      [.request (.addInstrument 7),
        .request (.submit { securityId := 7, price := ⟨100⟩, quantity := 5 } 0),
        .request (.submit { securityId := 7, price := ⟨99⟩, quantity := 5 } 0),
        .cycle 1 fun _ => 0]
    let outs := (CycledEngine.machine.run { cycler := { instruments := [7] } } ops).2
    CycledEngine.machine.Admits (fun _ op => op.Fresh) { cycler := { instruments := [7] } } ops ∧
      ¬EachAfter MatchesBook outs := by
  intro ops outs
  refine ⟨by decide, ?_⟩
  intro hmatches
  let sent := (sentSnapshots outs).headD ⟨0, []⟩
  obtain ⟨msg, hmsg, hnumber⟩ := hmatches ((engineEvents outs).map .event) (.snapshot sent) []
    (by decide +kernel)
  have hone : (SnapshotFullRefresh52.format.decodeRoot {} sent.payload 0).map (·.rptSeq) =
      some 1 := by
    decide +kernel
  have htwo : lastRptSeq sent.securityId
      (engineEvents ((engineEvents outs).map .event)) = 2 := by
    decide +kernel
  rw [hmsg, Option.map_some, hnumber, htwo] at hone
  exact absurd hone (by decide)

end SimCme
