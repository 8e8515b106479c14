import SimCme.MarketData.Receiver

/-!
# Recovery from snapshots

The engine thread and the cyclers of the channels take turns.  The engine thread
processes a batch, which changes the books, and then publishes the events of the batch
channel by channel.  A cycler loads the number of the last packet of its channel once,
and then reads the books of its instruments one at a time.  Between any two steps of one
thread the others may act, so the number in a snapshot and the book in it need not
belong together.

Main results:

- Theorem {lit}`MarketDataSystem.inv_of_run`: what the packets of a channel and the events
  still to be published say together is what the engine did.
- Theorem {lit}`MarketDataSystem.recovers_of_run`: the snapshots of a run agree with the
  packets up to their number if no update of the instrument falls between the load of
  the number and the read of the book.
-/

open Library

namespace SimCme

/-! ## The threads -/

/-- A cycle under way: the number it loaded and the instruments it has still to read. -/
structure Cycle where
  lastIncrSeq : UInt32
  left : List SecurityId
deriving DecidableEq, Repr

structure MarketDataSystem where
  engine : FullMatchingEngine := {}
  publisher : MarketDataPublisher
  /-- The events of the last batch that the engine thread has still to publish. -/
  pending : ByChannel := ∅
  cycles : Int → Option Cycle := fun _ => none

/-- The steps of the threads. -/
inductive MarketDataStep where
  | process (ops : List EngineOp)
  | publish (channel : Int) (transactTime : Timestamp)
  | load (channel : Int)
  | snapshot (channel : Int) (now : Timestamp)

/-- A snapshot on the feeds of a channel. -/
structure ChannelSnapshot where
  channel : Int
  sent : SentSnapshot
deriving DecidableEq, Repr

namespace MarketDataSystem

/-- The cycler of a channel. -/
def cyclerOf (sys : MarketDataSystem) (channel : Int) : Option SnapshotCycler :=
  (sys.publisher.channelPublishers channel).bind (·.snapshotCycler)

/-- Store the cycler of a channel. -/
def storeCycler (sys : MarketDataSystem) (channel : Int) (cycler : SnapshotCycler) :
    MarketDataPublisher :=
  { sys.publisher with
    channelPublishers := Function.update sys.publisher.channelPublishers channel
      ((sys.publisher.channelPublishers channel).map
        ({ · with snapshotCycler := some cycler })) }

/-- Process a batch, once the last one is published. -/
def process (sys : MarketDataSystem) (ops : List EngineOp) : MarketDataSystem :=
  if sys.pending.entries = [] then
    let r := FullMatchingEngine.machine.run sys.engine ops
    { sys with engine := r.1, pending := sys.publisher.groupByChannel r.2 }
  else sys

/-- Publish the events of one channel. -/
def publish (sys : MarketDataSystem) (channel : Int) (transactTime : Timestamp) :
    MarketDataSystem :=
  match sys.pending.lookup channel with
  | none => sys
  | some events =>
      { sys with
        publisher := sys.publisher.publishChannel channel events transactTime
        pending := sys.pending.erase channel }

/-- Begin a cycle. -/
def load (sys : MarketDataSystem) (channel : Int) : MarketDataSystem :=
  match sys.cycles channel, sys.cyclerOf channel with
  | none, some cycler =>
      { sys with
        cycles := Function.update sys.cycles channel
          (some ⟨cycler.lastIncrSeq, cycler.instruments⟩) }
  | _, _ => sys

/-- Read the next book of a cycle and send its snapshot, or end the cycle. -/
def snapshot (sys : MarketDataSystem) (channel : Int) (now : Timestamp) :
    MarketDataSystem × List ChannelSnapshot :=
  match sys.cycles channel, sys.cyclerOf channel with
  | some ⟨lastIncrSeq, secId :: left⟩, some cycler =>
      let r := (SnapshotCycler.turns sys.engine lastIncrSeq).step cycler (secId, now)
      ({ sys with
          publisher := sys.storeCycler channel r.1
          cycles := Function.update sys.cycles channel (some ⟨lastIncrSeq, left⟩) },
        r.2.map fun sent => ⟨channel, sent⟩)
  | some ⟨_, []⟩, _ => ({ sys with cycles := Function.update sys.cycles channel none }, [])
  | _, _ => (sys, [])

def machine : Machine MarketDataSystem MarketDataStep ChannelSnapshot where
  step sys
    | .process ops => (sys.process ops, [])
    | .publish channel transactTime => (sys.publish channel transactTime, [])
    | .load channel => (sys.load channel, [])
    | .snapshot channel now => sys.snapshot channel now

/-- Undisturbed, the engine thread publishes a batch as {lit}`publishEvents` does. -/
theorem publisher_foldl_publish {order : List Int} (hnodup : order.Nodup) (byChannel : ByChannel)
    (transactTime : Timestamp) (sys : MarketDataSystem)
    (hpending : ∀ channel ∈ order, sys.pending.lookup channel = byChannel.lookup channel)
    (hkeys : ∀ channel ∈ order, channel ∈ byChannel) :
    (order.foldl (fun sys channel => sys.publish channel transactTime) sys).publisher =
      order.foldl (fun pub channel =>
        pub.publishChannel channel (byChannel.eventsOf channel) transactTime) sys.publisher := by
  induction order generalizing sys with
  | nil => rfl
  | cons channel order ih =>
      obtain ⟨hfirst, hrest⟩ := List.forall_mem_cons.mp hpending
      obtain ⟨hkey, hkeys⟩ := List.forall_mem_cons.mp hkeys
      obtain ⟨hnotMem, hnodup⟩ := List.nodup_cons.mp hnodup
      obtain ⟨events, hevents⟩ := Option.isSome_iff_exists.mp (AList.lookup_isSome.mpr hkey)
      have hpublish : sys.publish channel transactTime =
          { sys with
            publisher := sys.publisher.publishChannel channel events transactTime
            pending := sys.pending.erase channel } := by
        rw [publish, hfirst, hevents]
      have hof : byChannel.eventsOf channel = events := by
        rw [ByChannel.eventsOf, hevents, Option.getD_some]
      rw [List.foldl_cons, List.foldl_cons, hpublish, hof]
      refine ih hnodup _ ?_ hkeys
      intro channel' hchannel'
      have hne : channel' ≠ channel := by
        rintro rfl
        exact hnotMem hchannel'
      rw [AList.lookup_erase_ne hne]
      exact hrest channel' hchannel'

/-- The packets of a channel. -/
def packets (sys : MarketDataSystem) (channel : Int) : List FeedPacket :=
  ((sys.publisher.channelPublishers channel).map (·.incrementalFeedA.sent)).getD []

/-- The threads of a server with these instruments and channels, before the first
batch. -/
def init (mgr : InstrumentManager) (channels : List Int) : MarketDataSystem where
  publisher := (MarketDataPublisher.ofInstruments mgr channels).start mgr

end MarketDataSystem

/-! ## Undisturbed steps -/

namespace MarketDataStep

/-- The requests of a batch are fresh, and the values in its events are values of their
types. -/
def Typed (sys : MarketDataSystem) : MarketDataStep → Prop
  | .process ops => (∀ op ∈ ops, op.Fresh) ∧
      ∀ e ∈ (FullMatchingEngine.machine.run sys.engine ops).2, e.Typed
  | .snapshot channel _ => ∀ cycle ∈ sys.cycles channel, ∀ s ∈ cycle.left.head?,
      (sys.engine.bookAt s).LevelsTyped
  | _ => True

/-- The numbers that are sent fit their fields. -/
def Fits (sys : MarketDataSystem) : MarketDataStep → Prop
  | .publish channel _ => FitsPacket (sys.pending.eventsOf channel) ∧
      (sys.packets channel).length + 1 < 2 ^ 32
  | .snapshot channel _ => ∀ cycle ∈ sys.cycles channel, ∀ s ∈ cycle.left.head?,
      (sys.engine.bookAt s).bidLevels.entries.length +
        (sys.engine.bookAt s).askLevels.entries.length ≤ 255
  | _ => True

/-- When a book is read, all its updates are published, and none of them after the
number of the cycle was loaded. -/
def Undisturbed (sys : MarketDataSystem) : MarketDataStep → Prop
  | .snapshot channel _ => ∀ cycle ∈ sys.cycles channel, ∀ s ∈ cycle.left.head?,
      bookUpdates (feedOf s (sys.pending.eventsOf channel)) = [] ∧
        ∀ packet ∈ sys.packets channel, cycle.lastIncrSeq < packet.msgSeqNum →
          packet.entriesOf s = []
  | _ => True

instance (sys : MarketDataSystem) : (step : MarketDataStep) → Decidable (step.Typed sys)
  | .process ops => inferInstanceAs (Decidable ((∀ op ∈ ops, op.Fresh) ∧ ∀ e ∈ _, _))
  | .snapshot _ _ => inferInstanceAs (Decidable (∀ cycle ∈ sys.cycles _, ∀ s ∈ _, _))
  | .publish _ _ | .load _ => inferInstanceAs (Decidable True)

instance (sys : MarketDataSystem) : (step : MarketDataStep) → Decidable (step.Fits sys)
  | .publish _ _ => inferInstanceAs (Decidable (FitsPacket _ ∧ _))
  | .snapshot _ _ => inferInstanceAs (Decidable (∀ cycle ∈ sys.cycles _, ∀ s ∈ _, _))
  | .process _ | .load _ => inferInstanceAs (Decidable True)

instance (sys : MarketDataSystem) : (step : MarketDataStep) → Decidable (step.Undisturbed sys)
  | .snapshot _ _ => inferInstanceAs (Decidable (∀ cycle ∈ sys.cycles _, ∀ s ∈ _, _ ∧ _))
  | .process _ | .publish _ _ | .load _ => inferInstanceAs (Decidable True)

end MarketDataStep

/-! ## One channel -/

/-- The securities of a channel. -/
def MarketDataPublisher.Serves (pub : MarketDataPublisher) (channel : Int) (s : SecurityId) :
    Prop :=
  InRange s ∧ pub.getChannelForSecurity s = channel ∧ channel ≠ 0

/-- What holds of one channel: its packets carry what the engine did to its securities,
up to the events still to be published, under the numbers from one on. -/
structure ChannelInv (serves : SecurityId → Prop) (es : List EngineEvent)
    (pub : ChannelPublisher) (pending : List EngineEvent) (cycle : Option Cycle) : Prop where
  carried : ∃ batches, List.Forall₂ FeedPacket.Carries pub.incrementalFeedA.sent batches ∧
    ∀ s, serves s → bookUpdates (feedOf s es) =
      bookUpdates (feedOf s batches.flatten) ++ bookUpdates (feedOf s pending)
  numbered : ∀ i (hi : i < pub.incrementalFeedA.sent.length),
    (pub.incrementalFeedA.sent.get ⟨i, hi⟩).msgSeqNum.toNat = i + 1
  next_eq : pub.incrementalFeedA.nextSeqNum =
    UInt32.ofNat (pub.incrementalFeedA.sent.length + 1)
  cycler_inv : ∀ cycler ∈ pub.snapshotCycler,
    cycler.lastIncrSeq.toNat = pub.incrementalFeedA.sent.length ∧
      ∀ s ∈ cycler.instruments, serves s
  cycle_inv : ∀ c ∈ cycle,
    c.lastIncrSeq.toNat ≤ pub.incrementalFeedA.sent.length ∧ ∀ s ∈ c.left, serves s

namespace ChannelInv

variable {serves : SecurityId → Prop} {es pending : List EngineEvent} {pub : ChannelPublisher}
  {cycle : Option Cycle}

/-- A batch, once the last one is published. -/
theorem process (hinv : ChannelInv serves es pub [] cycle) {new : List EngineEvent}
    {pending : List EngineEvent}
    (hpending : ∀ s, serves s → feedOf s pending = feedOf s new) :
    ChannelInv serves (es ++ new) pub pending cycle :=
  { hinv with
    carried := by
      obtain ⟨batches, hcarries, hupdates⟩ := hinv.carried
      refine ⟨batches, hcarries, fun s hs => ?_⟩
      rw [feedOf_append, bookUpdates_append, hupdates s hs, hpending s hs]
      simp [bookUpdates] }

/-- A packet is empty only if there is nothing to say of the books. -/
theorem bookUpdates_of_packet_nil {builder : IncrementalBuilder} {events : List EngineEvent}
    {transactTime : Timestamp}
    (hnil : (builder.buildIncrementalPacket events transactTime).2 = []) :
    bookUpdates events = [] := by
  have hlength := IncrementalBuilder.length_bookLoop builder events
  rw [IncrementalBuilder.packet_eq, List.flatMap_append, List.append_eq_nil_iff] at hnil
  have hentries : (builder.bookRefresh events transactTime).2.entries = [] := by
    by_contra hne
    have hbook := hnil.1
    rw [IncrementalBuilder.bookMessages, if_neg hne] at hbook
    have hpos := (Mdp3Message.book (builder.bookRefresh events transactTime).2).encodedLength_pos
    rw [← Mdp3Message.length_toBytes] at hpos
    simp only [List.flatMap_singleton] at hbook
    rw [hbook] at hpos
    exact Nat.lt_irrefl 0 hpos
  rw [show (IncrementalBuilder.bookLoop.run builder events).2 =
    (builder.bookRefresh events transactTime).2.entries from rfl, hentries] at hlength
  exact List.length_eq_zero_iff.mp hlength.symm

/-- Nothing said of the books of the channel. -/
theorem drop_pending (hinv : ChannelInv serves es pub pending cycle)
    (hnil : bookUpdates pending = []) : ChannelInv serves es pub [] cycle :=
  { hinv with
    carried := by
      obtain ⟨batches, hcarries, hupdates⟩ := hinv.carried
      refine ⟨batches, hcarries, fun s hs => ?_⟩
      rw [hupdates s hs, IncrementalBuilder.bookUpdates_feedOf s pending, hnil]
      rfl }

/-- A packet goes out and its number is set. -/
theorem publish (hinv : ChannelInv serves es pub pending cycle)
    (htyped : ∀ e ∈ pending, e.Typed) (hfits : FitsPacket pending)
    (hfew : pub.incrementalFeedA.sent.length + 1 < 2 ^ 32) (transactTime : Timestamp) :
    ChannelInv serves es (pub.publishIncrementalUpdates pending transactTime) [] cycle := by
  rw [ChannelPublisher.publishIncrementalUpdates]
  split
  · rename_i hnil
    rw [hnil] at hinv
    exact hinv
  · dsimp only
    split
    · rename_i hpacket
      have hdropped := hinv.drop_pending (bookUpdates_of_packet_nil hpacket)
      exact { hdropped with }
    · have hnext : pub.incrementalFeedA.nextSeqNum.toNat =
          pub.incrementalFeedA.sent.length + 1 := by
        rw [hinv.next_eq, UInt32.toNat_ofNat', Nat.mod_eq_of_lt hfew]
      refine
        { carried := ?_
          numbered := ?_
          next_eq := ?_
          cycler_inv := ?_
          cycle_inv := ?_ }
      · obtain ⟨batches, hcarries, hupdates⟩ := hinv.carried
        refine ⟨batches ++ [pending], ?_, fun s hs => ?_⟩
        · exact List.rel_append hcarries (.cons (carries_packet _ htyped hfits _ _) .nil)
        · rw [hupdates s hs, List.flatten_append, feedOf_append, bookUpdates_append]
          simp [bookUpdates]
      · intro i hi
        simp only [FeedSender.send, List.get_eq_getElem, List.length_append,
          List.length_singleton] at hi ⊢
        rw [List.getElem_append]
        split
        · rename_i hold
          exact hinv.numbered i hold
        · have hlast : i = pub.incrementalFeedA.sent.length := by omega
          simp [hlast, hnext]
      · simp only [FeedSender.send, hinv.next_eq, List.length_append, List.length_singleton]
        exact (UInt32.ofNat_add ..).symm
      · intro cycler hcycler
        obtain ⟨old, hold, rfl⟩ := Option.map_eq_some_iff.mp hcycler
        refine ⟨?_, (hinv.cycler_inv old hold).2⟩
        simp [SnapshotCycler.setLastIncrementalSeqNum, hnext, FeedSender.send]
      · intro c hc
        obtain ⟨hle, hserves⟩ := hinv.cycle_inv c hc
        refine ⟨?_, hserves⟩
        simp only [FeedSender.send, List.length_append, List.length_singleton]
        omega

/-- A cycle begins. -/
theorem load (hinv : ChannelInv serves es pub pending cycle) {cycler : SnapshotCycler}
    (hcycler : pub.snapshotCycler = some cycler) :
    ChannelInv serves es pub pending (some ⟨cycler.lastIncrSeq, cycler.instruments⟩) :=
  { hinv with
    cycle_inv := by
      intro c hc
      cases hc
      obtain ⟨hseq, hserves⟩ := hinv.cycler_inv cycler hcycler
      exact ⟨hseq.le, hserves⟩ }

/-- A cycle goes on. -/
theorem turn {lastIncrSeq : UInt32} {secId : SecurityId} {left : List SecurityId}
    (hinv : ChannelInv serves es pub pending (some ⟨lastIncrSeq, secId :: left⟩))
    {cycler : SnapshotCycler} (hcycler : pub.snapshotCycler = some cycler)
    {cycler' : SnapshotCycler} (hseq : cycler'.lastIncrSeq = cycler.lastIncrSeq)
    (hinstruments : cycler'.instruments = cycler.instruments) :
    ChannelInv serves es { pub with snapshotCycler := some cycler' } pending
      (some ⟨lastIncrSeq, left⟩) :=
  { hinv with
    cycler_inv := by
      intro c hc
      cases hc
      rw [hseq, hinstruments]
      exact hinv.cycler_inv cycler hcycler
    cycle_inv := by
      intro c hc
      cases hc
      obtain ⟨hle, hserves⟩ := hinv.cycle_inv _ rfl
      exact ⟨hle, (List.forall_mem_cons.mp hserves).2⟩ }

/-- A cycle ends. -/
theorem finish (hinv : ChannelInv serves es pub pending cycle) :
    ChannelInv serves es pub pending none :=
  { hinv with cycle_inv := by simp }

/-- All packets together replay to the book, once its updates are published. -/
theorem applyPackets_eq (hinv : ChannelInv serves es pub pending cycle) {s : SecurityId}
    (hs : serves s) (hrange : InRange s) (hquiet : bookUpdates (feedOf s pending) = [])
    {b : OrderBook} (htracks : Tracks (feedOf s es) b) :
    Replica.applyPackets s (fun _ => []) pub.incrementalFeedA.sent = b.aggregate := by
  obtain ⟨batches, hcarries, hupdates⟩ := hinv.carried
  have hall := hupdates s hs
  rw [hquiet, List.append_nil] at hall
  rw [Replica.applyPackets_eq hcarries hrange, ← htracks.replay_eq, Replica.replay,
    Replica.foldl_apply, Replica.foldl_apply, hall]

end ChannelInv

/-! ## The numbers of the packets -/

/-- Packets that are numbered from one on are told apart by their numbers. -/
theorem filter_of_numbered {packets : List FeedPacket}
    (hnumbered : ∀ i (hi : i < packets.length), (packets.get ⟨i, hi⟩).msgSeqNum.toNat = i + 1)
    (seq : UInt32) :
    packets.filter (·.msgSeqNum ≤ seq) = packets.take seq.toNat ∧
      packets.filter (seq < ·.msgSeqNum) = packets.drop seq.toNat := by
  have hfront : ∀ packet ∈ packets.take seq.toNat, packet.msgSeqNum ≤ seq := by
    intro packet hpacket
    obtain ⟨i, hi, rfl⟩ := List.mem_iff_getElem.mp hpacket
    rw [List.length_take] at hi
    have hnumber := hnumbered i (by omega)
    rw [List.get_eq_getElem] at hnumber
    rw [List.getElem_take, UInt32.le_iff_toNat_le, hnumber]
    omega
  have hback : ∀ packet ∈ packets.drop seq.toNat, seq < packet.msgSeqNum := by
    intro packet hpacket
    obtain ⟨i, hi, rfl⟩ := List.mem_iff_getElem.mp hpacket
    rw [List.length_drop] at hi
    have hnumber := hnumbered (seq.toNat + i) (by omega)
    rw [List.get_eq_getElem] at hnumber
    rw [List.getElem_drop, UInt32.lt_iff_toNat_lt, hnumber]
    omega
  have hfrontBack : (packets.take seq.toNat).filter (seq < ·.msgSeqNum) = [] := by
    apply List.filter_eq_nil_iff.mpr
    intro packet hpacket
    simpa using hfront packet hpacket
  have hbackFront : (packets.drop seq.toNat).filter (·.msgSeqNum ≤ seq) = [] := by
    apply List.filter_eq_nil_iff.mpr
    intro packet hpacket
    simpa using hback packet hpacket
  constructor
  · conv_lhs => rw [← List.take_append_drop seq.toNat packets]
    rw [List.filter_append, hbackFront, List.append_nil]
    exact List.filter_eq_self.mpr (by simpa using hfront)
  · conv_lhs => rw [← List.take_append_drop seq.toNat packets]
    rw [List.filter_append, hfrontBack, List.nil_append]
    exact List.filter_eq_self.mpr (by simpa using hback)

/-! ## Snapshots that agree with the packets -/

/-- A snapshot holds what the packets up to its number say of its security. -/
structure SentSnapshot.Agrees (sent : SentSnapshot) (packets : List FeedPacket)
    (msg : SnapshotFullRefresh52) : Prop where
  decode_eq : SnapshotFullRefresh52.format.decode {} sent.payload 0 = some msg
  number_le : msg.lastMsgSeqNumProcessed.toNat ≤ packets.length
  book_eq : msg.book = Replica.applyPackets sent.securityId (fun _ => [])
    (packets.take msg.lastMsgSeqNumProcessed.toNat)

theorem SentSnapshot.Agrees.append {sent : SentSnapshot} {packets : List FeedPacket}
    {msg : SnapshotFullRefresh52} (hagrees : sent.Agrees packets msg)
    (more : List FeedPacket) : sent.Agrees (packets ++ more) msg where
  decode_eq := hagrees.decode_eq
  number_le := by
    have hle := hagrees.number_le
    rw [List.length_append]
    omega
  book_eq := by
    rw [List.take_append_of_le_length hagrees.number_le]
    exact hagrees.book_eq

open SnapshotBuilder in
/-- The snapshot of a book whose updates are all in the packets up to its number. -/
theorem ChannelInv.agrees {serves : SecurityId → Prop} {es pending : List EngineEvent}
    {pub : ChannelPublisher} {lastIncrSeq : UInt32} {secId : SecurityId}
    {left : List SecurityId}
    (hinv : ChannelInv serves es pub pending (some ⟨lastIncrSeq, secId :: left⟩))
    (hrange : InRange secId) {engine : FullMatchingEngine} (hfeed : FeedTracks es engine)
    (htyped : (engine.bookAt secId).LevelsTyped)
    (hfits : (engine.bookAt secId).bidLevels.entries.length +
      (engine.bookAt secId).askLevels.entries.length ≤ 255)
    (hpending : bookUpdates (feedOf secId pending) = [])
    (hquiet : ∀ packet ∈ pub.incrementalFeedA.sent, lastIncrSeq < packet.msgSeqNum →
      packet.entriesOf secId = [])
    (totNumReports rptSeq : UInt32) (now : Timestamp) :
    let msg := ofEngine engine secId lastIncrSeq totNumReports rptSeq now
    SentSnapshot.Agrees ⟨secId, SnapshotFullRefresh52.format.toBytes msg⟩
      pub.incrementalFeedA.sent msg := by
  intro msg
  obtain ⟨hle, hserves⟩ := hinv.cycle_inv _ rfl
  have hall := hinv.applyPackets_eq (hserves secId List.mem_cons_self) hrange hpending
    (hfeed.tracks secId)
  -- The packets behind the number say nothing of the security.
  have hback : ∀ packet ∈ pub.incrementalFeedA.sent.drop lastIncrSeq.toNat,
      packet.entriesOf secId = [] := by
    intro packet hpacket
    rw [← (filter_of_numbered hinv.numbered lastIncrSeq).2, List.mem_filter] at hpacket
    exact hquiet packet hpacket.1 (of_decide_eq_true hpacket.2)
  rw [← List.take_append_drop lastIncrSeq.toNat pub.incrementalFeedA.sent,
    Replica.applyPackets_append, Replica.applyPackets_of_quiet hback] at hall
  exact
    { decode_eq := by
        apply decode_toBytes
        rw [entries_ofEngine_bookAt, List.length_append, length_sideEntries, length_sideEntries]
        exact hfits
      number_le := hle
      book_eq := by
        rw [SnapshotFullRefresh52.book_ofEngine htyped]
        exact hall.symm }

/-! ## The system -/

/-- A packet is added at the end, if any. -/
theorem ChannelPublisher.sent_publishIncrementalUpdates (pub : ChannelPublisher)
    (events : List EngineEvent) (transactTime : Timestamp) :
    ∃ more, (pub.publishIncrementalUpdates events transactTime).incrementalFeedA.sent =
      pub.incrementalFeedA.sent ++ more := by
  rw [publishIncrementalUpdates]
  split
  · exact ⟨[], by simp⟩
  · dsimp only
    split
    · exact ⟨[], by simp⟩
    · exact ⟨_, rfl⟩

/-- What holds of all channels along a run. -/
structure SystemInv (sys : MarketDataSystem) (outs : List ChannelSnapshot) : Prop where
  channels : ∃ es, EngineInv sys.engine ∧ FeedTracks es sys.engine ∧
    ∀ channel pub, sys.publisher.channelPublishers channel = some pub →
      ChannelInv (sys.publisher.Serves channel) es pub (sys.pending.eventsOf channel)
        (sys.cycles channel)
  typed : ∀ channel, ∀ e ∈ sys.pending.eventsOf channel, e.Typed
  snapshots : ∀ out ∈ outs, ∃ pub msg,
    sys.publisher.channelPublishers out.channel = some pub ∧
      sys.publisher.Serves out.channel out.sent.securityId ∧
      out.sent.Agrees pub.incrementalFeedA.sent msg

namespace MarketDataSystem

variable {sys : MarketDataSystem} {outs : List ChannelSnapshot}

theorem eventsOf_erase (byChannel : ByChannel) (channel channel' : Int) :
    ByChannel.eventsOf (byChannel.erase channel) channel' =
      if channel' = channel then [] else byChannel.eventsOf channel' := by
  rw [ByChannel.eventsOf, ByChannel.eventsOf]
  split
  · rename_i heq
    rw [heq, AList.lookup_erase]
    rfl
  · rename_i hne
    rw [AList.lookup_erase_ne hne]

theorem eventsOf_of_entries_nil {byChannel : ByChannel} (hnil : byChannel.entries = [])
    (channel : Int) : byChannel.eventsOf channel = [] := by
  have hlookup : byChannel.lookup channel = none := by
    rw [AList.lookup, hnil]
    rfl
  rw [ByChannel.eventsOf, hlookup]
  rfl

theorem inv_process (hinv : SystemInv sys outs) {ops : List EngineOp}
    (hfresh : ∀ op ∈ ops, op.Fresh)
    (htyped : ∀ e ∈ (FullMatchingEngine.machine.run sys.engine ops).2, e.Typed) :
    SystemInv (sys.process ops) outs := by
  rw [process]
  split
  · rename_i hnil
    obtain ⟨es, hengine, hfeed, hchannels⟩ := hinv.channels
    obtain ⟨hengine', hfeed'⟩ := hfeed.batch hengine hfresh
    refine
      { channels := ⟨_, hengine', hfeed', ?_⟩
        typed := ?_
        snapshots := hinv.snapshots }
    · intro channel pub hpub
      have hchannel := hchannels channel pub hpub
      rw [eventsOf_of_entries_nil hnil] at hchannel
      apply hchannel.process
      intro s hs
      exact MarketDataPublisher.feedOf_eventsOf hs.2.1 hs.2.2 _
    · intro channel e he
      rw [MarketDataPublisher.eventsOf_groupByChannel] at he
      exact htyped e (List.mem_of_mem_filter he)
  · exact hinv

theorem inv_publish (hinv : SystemInv sys outs) {channel : Int}
    (hfits : FitsPacket (sys.pending.eventsOf channel))
    (hfew : (sys.packets channel).length + 1 < 2 ^ 32) (transactTime : Timestamp) :
    SystemInv (sys.publish channel transactTime) outs := by
  rw [publish]
  split
  · exact hinv
  · rename_i events hlookup
    have hevents : sys.pending.eventsOf channel = events := by
      rw [ByChannel.eventsOf, hlookup, Option.getD_some]
    obtain ⟨es, hengine, hfeed, hchannels⟩ := hinv.channels
    refine
      { channels := ⟨es, hengine, hfeed, ?_⟩
        typed := ?_
        snapshots := ?_ }
    · intro channel' pub hpub
      simp only [MarketDataPublisher.publishChannel, Function.update_apply] at hpub
      rw [eventsOf_erase]
      split at hpub
      · rename_i heq
        subst heq
        obtain ⟨old, hold, rfl⟩ := Option.map_eq_some_iff.mp hpub
        have hchannel := hchannels channel' old hold
        rw [packets, hold, Option.map_some, Option.getD_some] at hfew
        rw [if_pos rfl]
        rw [hevents] at hchannel hfits
        exact hchannel.publish (hevents ▸ hinv.typed channel') hfits hfew transactTime
      · rename_i hne
        rw [if_neg hne]
        exact hchannels channel' pub hpub
    · intro channel' e he
      rw [eventsOf_erase] at he
      split at he
      · simp at he
      · exact hinv.typed channel' e he
    · intro out hout
      obtain ⟨pub, msg, hpub, hserves, hagrees⟩ := hinv.snapshots out hout
      by_cases heq : out.channel = channel
      · obtain ⟨more, hmore⟩ := pub.sent_publishIncrementalUpdates events transactTime
        refine ⟨pub.publishIncrementalUpdates events transactTime, msg, ?_, hserves, ?_⟩
        · subst heq
          simp [MarketDataPublisher.publishChannel, hpub]
        · rw [hmore]
          exact hagrees.append more
      · refine ⟨pub, msg, ?_, hserves, hagrees⟩
        simpa [MarketDataPublisher.publishChannel, heq] using hpub

theorem inv_load (hinv : SystemInv sys outs) (channel : Int) :
    SystemInv (sys.load channel) outs := by
  rw [load]
  split
  · rename_i cycler hidle hcycler
    obtain ⟨es, hengine, hfeed, hchannels⟩ := hinv.channels
    refine
      { channels := ⟨es, hengine, hfeed, ?_⟩
        typed := hinv.typed
        snapshots := hinv.snapshots }
    intro channel' pub hpub
    have hchannel := hchannels channel' pub hpub
    simp only [Function.update_apply]
    split
    · rename_i heq
      subst heq
      rw [cyclerOf, hpub, Option.bind_some] at hcycler
      exact hchannel.load hcycler
    · exact hchannel
  · exact hinv

/-- The cycle of another channel goes on. -/
theorem inv_turn (hinv : SystemInv sys outs) {channel : Int} {pub : ChannelPublisher}
    (hpub : sys.publisher.channelPublishers channel = some pub) {cycler : SnapshotCycler}
    (hcycler : pub.snapshotCycler = some cycler) {lastIncrSeq : UInt32} {secId : SecurityId}
    {left : List SecurityId} (hcycle : sys.cycles channel = some ⟨lastIncrSeq, secId :: left⟩)
    {cycler' : SnapshotCycler} (hseq : cycler'.lastIncrSeq = cycler.lastIncrSeq)
    (hinstruments : cycler'.instruments = cycler.instruments) :
    SystemInv
      { sys with
        publisher := sys.storeCycler channel cycler'
        cycles := Function.update sys.cycles channel (some ⟨lastIncrSeq, left⟩) } outs := by
  obtain ⟨es, hengine, hfeed, hchannels⟩ := hinv.channels
  refine
    { channels := ⟨es, hengine, hfeed, ?_⟩
      typed := hinv.typed
      snapshots := ?_ }
  · intro channel' pub' hpub'
    simp only [storeCycler, Function.update_apply] at hpub' ⊢
    split at hpub'
    · rename_i heq
      subst heq
      rw [hpub, Option.map_some, Option.some_inj] at hpub'
      subst hpub'
      rw [if_pos rfl]
      have hchannel := hchannels channel' pub hpub
      rw [hcycle] at hchannel
      exact hchannel.turn hcycler hseq hinstruments
    · rename_i hne
      rw [if_neg hne]
      exact hchannels channel' pub' hpub'
  · intro out hout
    obtain ⟨pub', msg, hpub', hserves, hagrees⟩ := hinv.snapshots out hout
    by_cases heq : out.channel = channel
    · subst heq
      rw [hpub, Option.some_inj] at hpub'
      subst hpub'
      exact ⟨{ pub with snapshotCycler := some cycler' }, msg, by simp [storeCycler, hpub], hserves,
        hagrees⟩
    · exact ⟨pub', msg, by simpa [storeCycler, heq] using hpub', hserves, hagrees⟩

theorem inv_snapshot (hinv : SystemInv sys outs) {channel : Int} {now : Timestamp}
    (htyped : (MarketDataStep.snapshot channel now).Typed sys)
    (hfits : (MarketDataStep.snapshot channel now).Fits sys)
    (hquiet : (MarketDataStep.snapshot channel now).Undisturbed sys) :
    SystemInv (sys.snapshot channel now).1 (outs ++ (sys.snapshot channel now).2) := by
  rw [snapshot]
  split
  · rename_i lastIncrSeq secId left cycler hcycle hcycler
    obtain ⟨pub, hpub, hpubCycler⟩ := Option.bind_eq_some_iff.mp hcycler
    have hstep := SnapshotCycler.turns_step sys.engine lastIncrSeq cycler (secId, now)
    dsimp only at hstep
    rw [hstep]
    dsimp only
    let payload := SnapshotFullRefresh52.format.toBytes
      (cycler.turnSnapshot sys.engine lastIncrSeq (secId, now))
    let turned : SnapshotCycler :=
      { cycler with
        cycleCount := cycler.cycleCount + 1
        feedA := cycler.feedA.send payload
        feedB := cycler.feedB.send payload }
    have hseq : turned.lastIncrSeq = cycler.lastIncrSeq := rfl
    have hturn := inv_turn hinv hpub hpubCycler hcycle hseq rfl
    obtain ⟨es, -, hfeed, hchannels⟩ := hinv.channels
    have hchannel := hchannels channel pub hpub
    rw [hcycle] at hchannel
    have hserves : sys.publisher.Serves channel secId :=
      (hchannel.cycle_inv _ rfl).2 secId List.mem_cons_self
    have hquiet := hquiet _ hcycle secId rfl
    rw [packets, hpub, Option.map_some, Option.getD_some] at hquiet
    have hagrees := hchannel.agrees hserves.1 hfeed (htyped _ hcycle secId rfl)
      (hfits _ hcycle secId rfl) hquiet.1 hquiet.2
    refine { hturn with snapshots := List.forall_mem_append.mpr ⟨hturn.snapshots, ?_⟩ }
    rw [List.map_singleton, List.forall_mem_singleton]
    exact ⟨{ pub with snapshotCycler := some turned }, _,
      by simp [storeCycler, hpub, turned, payload], hserves, hagrees _ _ now⟩
  · obtain ⟨es, hengine, hfeed, hchannels⟩ := hinv.channels
    refine
      { channels := ⟨es, hengine, hfeed, ?_⟩
        typed := hinv.typed
        snapshots := by simpa using hinv.snapshots }
    intro channel' pub hpub
    simp only [Function.update_apply]
    split
    · exact (hchannels channel' pub hpub).finish
    · exact hchannels channel' pub hpub
  · simpa using hinv

/-- Along every run of undisturbed steps, the packets of a channel and the events still
to be published say together what the engine did, and the snapshots agree with the
packets. -/
theorem inv_of_run {steps : List MarketDataStep} (hinit : SystemInv sys [])
    (hadmits : machine.Admits
      (fun sys step => step.Typed sys ∧ step.Fits sys ∧ step.Undisturbed sys) sys steps) :
    SystemInv (machine.run sys steps).1 (machine.run sys steps).2 := by
  refine Machine.history_invariant (P := fun _ sys outs => SystemInv sys outs) hinit ?_ steps
    hadmits
  rintro _ sys outs step hinv ⟨htyped, hfits, hquiet⟩
  cases step with
  | process ops => simpa [machine] using inv_process hinv htyped.1 htyped.2
  | publish channel transactTime =>
      simpa [machine] using inv_publish hinv hfits.1 hfits.2 transactTime
  | load channel => simpa [machine] using inv_load hinv channel
  | snapshot channel now => exact inv_snapshot hinv htyped hfits hquiet

end MarketDataSystem

/-! ## Recovery -/

/-- What the checks of the configuration promise: security ids are distinct values of
their type, and channel ids are positive. -/
structure InstrumentManager.Validated (mgr : InstrumentManager) : Prop where
  nodup : (mgr.instruments.map (·.securityId)).Nodup
  inRange : ∀ inst ∈ mgr.instruments, InRange inst.securityId
  channel_pos : ∀ inst ∈ mgr.instruments, 0 < inst.channelId

namespace MarketDataSystem

theorem inv_init {mgr : InstrumentManager} (hmgr : mgr.Validated) (channels : List Int) :
    SystemInv (init mgr channels) [] where
  channels := by
    refine ⟨[], EngineInv.empty, FeedTracks.empty, ?_⟩
    intro channel pub hpub
    have hpub : pub = ChannelPublisher.initSnapshotCycler {}
        ((mgr.getInstrumentsByChannel channel).map (·.securityId)) := by
      simp only [init, MarketDataPublisher.start, MarketDataPublisher.ofInstruments] at hpub
      split at hpub
      · exact (Option.some_inj.mp hpub).symm
      · contradiction
    subst hpub
    exact
      { carried := ⟨[], .nil, fun s _ => rfl⟩
        numbered := by simp [ChannelPublisher.initSnapshotCycler]
        next_eq := rfl
        cycler_inv := by
          intro cycler hcycler
          cases hcycler
          refine ⟨rfl, ?_⟩
          intro s hs
          obtain ⟨inst, hinst, rfl⟩ := List.mem_map.mp hs
          obtain ⟨hmem, hchannel⟩ := List.mem_filter.mp hinst
          have hpos := hmgr.channel_pos inst hmem
          have heq : inst.channelId = channel := of_decide_eq_true hchannel
          refine ⟨hmgr.inRange inst hmem, ?_, by omega⟩
          have hrouted :=
            MarketDataPublisher.securityToChannel_ofInstruments hmgr.nodup channels hmem
          rw [MarketDataPublisher.getChannelForSecurity]
          exact (congrArg (·.getD 0) hrouted).trans heq
        cycle_inv := by simp [init] }
  typed := by
    intro channel e he
    simp [init, ByChannel.eventsOf] at he
  snapshots := by simp

end MarketDataSystem

/-- A snapshot of a run recovers: its book is what the packets of the channel up to its
number say of the security, and together with the later packets it gives the book of
the engine once all updates of the security are published. -/
def ChannelSnapshot.Recovers (out : ChannelSnapshot) (sys : MarketDataSystem) : Prop :=
  ∃ msg, SnapshotFullRefresh52.format.decode {} out.sent.payload 0 = some msg ∧
    msg.book = Replica.applyPackets out.sent.securityId (fun _ => [])
      ((sys.packets out.channel).filter (·.msgSeqNum ≤ msg.lastMsgSeqNumProcessed)) ∧
    (bookUpdates (feedOf out.sent.securityId (sys.pending.eventsOf out.channel)) = [] →
      msg.book.applyPackets out.sent.securityId
          ((sys.packets out.channel).filter (msg.lastMsgSeqNumProcessed < ·.msgSeqNum)) =
        (sys.engine.bookAt out.sent.securityId).aggregate)

namespace MarketDataSystem

/-- Every snapshot of a run recovers if no update of its instrument falls between the
load of its number and the read of its book, as long as the numbers that are sent fit
their fields. -/
theorem recovers_of_run (mgr : InstrumentManager) (hmgr : mgr.Validated) (channels : List Int)
    (steps : List MarketDataStep)
    (hadmits : machine.Admits
      (fun sys step => step.Typed sys ∧ step.Fits sys ∧ step.Undisturbed sys)
      (init mgr channels) steps) :
    let r := machine.run (init mgr channels) steps
    ∀ out ∈ r.2, out.Recovers r.1 := by
  intro r out hout
  have hinv := inv_of_run (inv_init hmgr channels) hadmits
  obtain ⟨pub, msg, hpub, hserves, hagrees⟩ := hinv.snapshots out hout
  obtain ⟨es, -, hfeed, hchannels⟩ := hinv.channels
  have hchannel := hchannels out.channel pub hpub
  have hpackets : r.1.packets out.channel = pub.incrementalFeedA.sent := by
    rw [packets, hpub, Option.map_some, Option.getD_some]
  obtain ⟨hfront, hback⟩ := filter_of_numbered hchannel.numbered msg.lastMsgSeqNumProcessed
  refine ⟨msg, hagrees.decode_eq, ?_, ?_⟩
  · rw [hpackets, hfront]
    exact hagrees.book_eq
  · intro hpending
    rw [hpackets, hback, hagrees.book_eq, ← Replica.applyPackets_append, List.take_append_drop]
    exact hchannel.applyPackets_eq hserves hserves.1 hpending (hfeed.tracks _)

/-- A manager of one instrument of one channel. -/
def oneInstrument : InstrumentManager :=
  .single { securityId := 7, channelId := 310, tickMantissa := 1 }

theorem oneInstrument_validated : oneInstrument.Validated where
  nodup := by decide
  inRange := by decide
  channel_pos := by decide

/-- A bid whose update is published before the cycle begins. -/
theorem recovers_of_published_bid :
    let steps : List MarketDataStep :=
      [.process [.addInstrument 7, .submit { securityId := 7, price := ⟨100⟩, quantity := 5 } 0],
        .publish 310 0, .load 310, .snapshot 310 0]
    let r := machine.run (init oneInstrument [310]) steps
    r.2.length = 1 ∧ ∀ out ∈ r.2, out.Recovers r.1 :=
  ⟨by decide +kernel,
    recovers_of_run oneInstrument oneInstrument_validated [310] _ (by decide +kernel)⟩

/-- A bid that enters the book between the load of the number and the read of the
book: the snapshot shows it, and no packet up to its number does. -/
theorem not_recovers_of_torn_bid :
    let steps : List MarketDataStep :=
      [.process [.addInstrument 7], .load 310,
        .process [.submit { securityId := 7, price := ⟨100⟩, quantity := 5 } 0],
        .snapshot 310 0]
    let r := machine.run (init oneInstrument [310]) steps
    machine.Admits (fun sys step => step.Typed sys ∧ step.Fits sys) (init oneInstrument [310])
        steps ∧
      ¬∀ out ∈ r.2, out.Recovers r.1 := by
  intro steps r
  refine ⟨by decide +kernel, ?_⟩
  intro hall
  let out := r.2.headD ⟨0, ⟨0, []⟩⟩
  obtain ⟨msg, hdecode, hbook, -⟩ := hall out (by decide +kernel)
  have hshown : (SnapshotFullRefresh52.format.decode {} out.sent.payload 0).map
      (fun msg => (msg.book .bid).length) = some 1 := by
    decide +kernel
  have hpackets : r.1.packets out.channel = [] := by decide +kernel
  rw [hpackets] at hbook
  rw [hdecode, Option.map_some, hbook] at hshown
  simp [Replica.applyPackets] at hshown

end MarketDataSystem

end SimCme
