import Mathlib.Data.List.AList
import SimCme.Instruments.InstrumentManager
import SimCme.MarketData.SnapshotCycler

/-!
# Publishing by channel

Each channel has its own feeds, its own builder and its own cycler.  The publisher
sorts the events of a batch by the channel of their security and hands each channel
its events.

Main results:

- Theorem {lit}`MarketDataPublisher.eventsOf_groupByChannel`: a channel gets the events of
  its securities in their order.
- Theorem {lit}`MarketDataPublisher.feedOf_eventsOf`: it gets all events of a security that
  goes to it.
-/

open Library

namespace SimCme

/-! ## One channel -/

structure ChannelPublisher where
  incrementalFeedA : FeedSender := {}
  incrementalFeedB : FeedSender := {}
  incrementalBuilder : IncrementalBuilder := {}
  snapshotCycler : Option SnapshotCycler := none

namespace ChannelPublisher

def publishIncrementalUpdates (pub : ChannelPublisher) (events : List EngineEvent)
    (transactTime : Timestamp) : ChannelPublisher :=
  if events = [] then pub
  else
    let (builder, packet) :=
      pub.incrementalBuilder.buildIncrementalPacket events transactTime
    let pub := { pub with incrementalBuilder := builder }
    if packet = [] then pub
    else
      -- Both feeds carry the packet under the same number.
      let seq := pub.incrementalFeedA.nextSeqNum
      { pub with
        incrementalFeedA := pub.incrementalFeedA.send packet
        incrementalFeedB := pub.incrementalFeedB.sendWithSeqNum seq packet
        snapshotCycler := pub.snapshotCycler.map (·.setLastIncrementalSeqNum seq) }

def initSnapshotCycler (pub : ChannelPublisher) (instruments : List SecurityId) :
    ChannelPublisher :=
  { pub with snapshotCycler := some { instruments := instruments } }

end ChannelPublisher

/-! ## All channels -/

/-- The events of a batch by channel. -/
abbrev ByChannel := AList fun _ : Int => List EngineEvent

/-- The events of one channel. -/
def ByChannel.eventsOf (byChannel : ByChannel) (channel : Int) : List EngineEvent :=
  (byChannel.lookup channel).getD []

structure MarketDataPublisher where
  securityToChannel : SecurityId → Option Int := fun _ => none
  channelPublishers : Int → Option ChannelPublisher := fun _ => none

namespace MarketDataPublisher

/-- The publisher of the instruments and channels of a configuration. -/
def ofInstruments (mgr : InstrumentManager) (channels : List Int) : MarketDataPublisher where
  securityToChannel :=
    mgr.getAllInstruments.foldl
      (fun m inst => Function.update m inst.securityId (some inst.channelId)) fun _ => none
  channelPublishers channel := if channel ∈ channels then some {} else none

/-- Give each channel the cycler of its instruments. -/
def start (pub : MarketDataPublisher) (mgr : InstrumentManager) : MarketDataPublisher :=
  { pub with
    channelPublishers := fun channel =>
      (pub.channelPublishers channel).map
        (·.initSnapshotCycler ((mgr.getInstrumentsByChannel channel).map (·.securityId))) }

def getChannelForSecurity (pub : MarketDataPublisher) (secId : SecurityId) : Int :=
  (pub.securityToChannel secId).getD 0

/-- The channel an event goes to.  Events of a session and of unknown securities go
nowhere. -/
def eventChannel (pub : MarketDataPublisher) (ev : EngineEvent) : Option Int :=
  match ev.feedSecurity with
  | none => none
  | some secId =>
      let channel := pub.getChannelForSecurity secId
      if channel ≠ 0 then some channel else none

/-- Sort the events of a batch. -/
def groupByChannel (pub : MarketDataPublisher) (events : List EngineEvent) : ByChannel :=
  events.foldl
    (fun byChannel ev =>
      match pub.eventChannel ev with
      | none => byChannel
      | some channel => byChannel.insert channel (byChannel.eventsOf channel ++ [ev])) ∅

/-- Publish the events of one channel. -/
def publishChannel (pub : MarketDataPublisher) (channel : Int) (events : List EngineEvent)
    (transactTime : Timestamp) : MarketDataPublisher :=
  { pub with
    channelPublishers := Function.update pub.channelPublishers channel
      ((pub.channelPublishers channel).map (·.publishIncrementalUpdates events transactTime)) }

/-- Publish a batch.  The channels come in the order of a hash map, which is left
open. -/
def publishEvents (pub : MarketDataPublisher) (events : List EngineEvent)
    (order : ByChannel → List Int) (transactTime : Timestamp) : MarketDataPublisher :=
  let byChannel := pub.groupByChannel events
  (order byChannel).foldl
    (fun pub channel => pub.publishChannel channel (byChannel.eventsOf channel) transactTime) pub

/-! ## The channel of a security -/

/-- A security of the instruments goes to the channel of its instrument. -/
theorem securityToChannel_ofInstruments {mgr : InstrumentManager}
    (hnodup : (mgr.instruments.map (·.securityId)).Nodup) (channels : List Int)
    {inst : Instrument} (hinst : inst ∈ mgr.instruments) :
    (ofInstruments mgr channels).securityToChannel inst.securityId = some inst.channelId := by
  rw [ofInstruments, InstrumentManager.getAllInstruments]
  dsimp only
  generalize mgr.instruments = insts at hinst hnodup ⊢
  induction insts using List.reverseRecOn with
  | nil => simp at hinst
  | append_singleton insts last ih =>
      rw [List.map_append, List.nodup_append] at hnodup
      rw [List.foldl_concat]
      rcases List.mem_append.mp hinst with hold | hlast
      · have hne : inst.securityId ≠ last.securityId :=
          hnodup.2.2 _ (List.mem_map_of_mem hold) _ (by simp)
        rw [Function.update_of_ne hne]
        exact ih hold hnodup.1
      · rw [List.mem_singleton.mp hlast, Function.update_self]

/-- A security of no instrument goes nowhere. -/
theorem securityToChannel_ofInstruments_eq_none {mgr : InstrumentManager} (channels : List Int)
    {s : SecurityId} (hs : ∀ inst ∈ mgr.instruments, inst.securityId ≠ s) :
    (ofInstruments mgr channels).securityToChannel s = none := by
  rw [ofInstruments, InstrumentManager.getAllInstruments]
  dsimp only
  generalize mgr.instruments = insts at hs ⊢
  induction insts using List.reverseRecOn with
  | nil => rfl
  | append_singleton insts last ih =>
      rw [List.foldl_concat, Function.update_of_ne (hs last (by simp)).symm]
      exact ih fun inst hinst => hs inst (List.mem_append_left _ hinst)

/-! ## What a channel gets -/

/-- A channel gets the events of its securities in their order. -/
theorem eventsOf_groupByChannel (pub : MarketDataPublisher) (events : List EngineEvent)
    (channel : Int) :
    (pub.groupByChannel events).eventsOf channel =
      events.filter fun ev => pub.eventChannel ev = some channel := by
  induction events using List.reverseRecOn with
  | nil => rfl
  | append_singleton events ev ih =>
      rw [groupByChannel, List.foldl_concat, List.filter_append, ← ih]
      cases hchannel : pub.eventChannel ev with
      | none => simp [hchannel, groupByChannel]
      | some channel' =>
          by_cases heq : channel' = channel
          · subst heq
            simp [ByChannel.eventsOf, hchannel, groupByChannel]
          · simp [ByChannel.eventsOf, hchannel, heq, AList.lookup_insert_ne (Ne.symm heq),
              groupByChannel]

/-- A channel gets all events of a security that goes to it. -/
theorem feedOf_eventsOf {pub : MarketDataPublisher} {s : SecurityId} {channel : Int}
    (hchannel : pub.getChannelForSecurity s = channel) (hne : channel ≠ 0)
    (events : List EngineEvent) :
    feedOf s ((pub.groupByChannel events).eventsOf channel) = feedOf s events := by
  rw [eventsOf_groupByChannel, feedOf, feedOf, List.filter_filter]
  apply List.filter_congr
  intro ev _
  by_cases hs : ev.feedSecurity = some s
  · simp [eventChannel, hs, hchannel, hne]
  · simp [hs]

end MarketDataPublisher

end SimCme
