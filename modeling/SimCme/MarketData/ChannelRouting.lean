import SimCme.Config.ConfigLoader
import SimCme.MarketData.MarketDataPublisher

/-!
# Routing by the configuration

The publisher learns the channel of a security from the instrument manager and its
channels from the configuration.  The two agree once the configuration is validated, so
that no event is lost between them.

Main results:

- Theorem {lit}`MarketDataPublisher.eventChannel_eq`: a publisher of an accepted
  configuration sorts by the channel the configuration gives.
- Theorem {lit}`MarketDataPublisher.publishEvents_eq_foldl`: a batch makes one call for
  each channel that has both events and a publisher.
- Theorem {lit}`market_data_routed`: each channel of an accepted configuration gets the
  events of its instruments, all of them, once and in order.
-/

namespace SimCme

open Library

/-- The channel the configuration gives a security. -/
def ExchangeConfig.channelOf (config : ExchangeConfig) (s : SecurityId) : Option Int :=
  (config.instruments.find? fun ic => ic.securityId = s).map (·.channelId)

/-- A configured security has the channel of its instrument. -/
theorem ExchangeConfig.WellFormed.channelOf_eq {config : ExchangeConfig}
    (hconfig : config.WellFormed) {ic : InstrumentConfig} (hic : ic ∈ config.instruments) :
    config.channelOf ic.securityId = some ic.channelId := by
  unfold channelOf
  cases hfind : config.instruments.find? fun ic' => ic'.securityId = ic.securityId with
  | none => simpa using List.find?_eq_none.mp hfind ic hic
  | some found =>
      have hfound : found = ic :=
        List.inj_on_of_nodup_map hconfig.securities_nodup (List.mem_of_find?_eq_some hfind) hic
          (by simpa using List.find?_some hfind)
      rw [hfound]
      rfl

/-! ## Calls -/

/-- The calls on a publisher between two batches. -/
inductive PublisherCall where
  | publishEvents (events : List EngineEvent) (transactTime : Timestamp)
  | start

namespace MarketDataPublisher

variable {config : ExchangeConfig} {tickMantissa : Double → Int64}

/-- The publisher of a configuration. -/
def ofConfig (config : ExchangeConfig) (tickMantissa : Double → Int64) : MarketDataPublisher :=
  ofInstruments (InstrumentManager.loadFromConfig tickMantissa config.instruments)
    (config.channels.map (·.channelId))

def apply (mgr : InstrumentManager) (order : ByChannel → List Int)
    (pub : MarketDataPublisher) : PublisherCall → MarketDataPublisher
  | .publishEvents events transactTime => pub.publishEvents events order transactTime
  | .start => pub.start mgr

/-- The calls of {lit}`publishIncrementalUpdates` that a batch makes: the channel of the
publisher and the events it is passed. -/
def incrementalCalls (pub : MarketDataPublisher) (events : List EngineEvent)
    (order : ByChannel → List Int) : List (Int × List EngineEvent) :=
  let byChannel := pub.groupByChannel events
  ((order byChannel).filter fun channel => (pub.channelPublishers channel).isSome).map
    fun channel => (channel, byChannel.eventsOf channel)

/-- The events the publisher of a channel is passed by the calls, in order. -/
def passedTo (channel : Int) (calls : List (Int × List EngineEvent)) : List EngineEvent :=
  (calls.filter fun call => call.1 = channel).flatMap (·.2)

/-- Two publishers that send every event the same way. -/
structure SameRoutes (pub pub' : MarketDataPublisher) : Prop where
  securityToChannel : pub'.securityToChannel = pub.securityToChannel
  isSome : ∀ channel,
    (pub'.channelPublishers channel).isSome = (pub.channelPublishers channel).isSome

namespace SameRoutes

variable {pub pub' pub'' : MarketDataPublisher}

theorem refl (pub : MarketDataPublisher) : SameRoutes pub pub :=
  ⟨rfl, fun _ => rfl⟩

theorem trans (h : SameRoutes pub pub') (h' : SameRoutes pub' pub'') : SameRoutes pub pub'' :=
  ⟨h'.securityToChannel.trans h.securityToChannel,
    fun channel => (h'.isSome channel).trans (h.isSome channel)⟩

/-- Passing events on opens and closes no channel. -/
theorem publishChannel (pub : MarketDataPublisher) (channel : Int)
    (events : List EngineEvent) (transactTime : Timestamp) :
    SameRoutes pub (pub.publishChannel channel events transactTime) where
  securityToChannel := rfl
  isSome channel' := by
    dsimp only [MarketDataPublisher.publishChannel]
    rw [Function.update_apply]
    split
    · rename_i heq
      rw [heq, Option.isSome_map]
    · rfl

theorem apply (mgr : InstrumentManager) (order : ByChannel → List Int)
    (pub : MarketDataPublisher) (call : PublisherCall) :
    SameRoutes pub (pub.apply mgr order call) := by
  cases call with
  | publishEvents events transactTime =>
      -- The loop over the channels, one channel at a time.
      rw [MarketDataPublisher.apply, publishEvents]
      generalize order (pub.groupByChannel events) = channels
      generalize pub.groupByChannel events = byChannel
      induction channels generalizing pub with
      | nil => exact refl pub
      | cons channel channels ih => exact (publishChannel pub channel _ _).trans (ih _)
  | start => exact ⟨rfl, fun channel => Option.isSome_map ..⟩

/-- Every run of calls keeps the routes. -/
theorem foldl_apply (mgr : InstrumentManager) (order : ByChannel → List Int)
    (pub : MarketDataPublisher) (calls : List PublisherCall) :
    SameRoutes pub (calls.foldl (MarketDataPublisher.apply mgr order) pub) := by
  induction calls generalizing pub with
  | nil => exact refl pub
  | cons call calls ih => exact (apply mgr order pub call).trans (ih _)

end SameRoutes

/-- A channel without a publisher takes no events. -/
theorem publishChannel_of_none {pub : MarketDataPublisher} {channel : Int}
    (hnone : (pub.channelPublishers channel).isSome = false) (events : List EngineEvent)
    (transactTime : Timestamp) : pub.publishChannel channel events transactTime = pub := by
  have hnone : pub.channelPublishers channel = none := by simpa using hnone
  rw [publishChannel, hnone, Option.map_none, ← hnone, Function.update_eq_self]

/-- A batch is its calls, one after the other. -/
theorem publishEvents_eq_foldl (pub : MarketDataPublisher) (events : List EngineEvent)
    (order : ByChannel → List Int) (transactTime : Timestamp) :
    pub.publishEvents events order transactTime =
      (pub.incrementalCalls events order).foldl
        (fun pub call => pub.publishChannel call.1 call.2 transactTime) pub := by
  rw [publishEvents, incrementalCalls, List.foldl_map]
  generalize order (pub.groupByChannel events) = channels
  generalize pub.groupByChannel events = byChannel
  -- The publishers that are looked up are those of the publisher before the batch.
  suffices h : ∀ pub' : MarketDataPublisher, SameRoutes pub pub' →
      channels.foldl (fun pub channel =>
        pub.publishChannel channel (byChannel.eventsOf channel) transactTime) pub' =
      (channels.filter fun channel => (pub.channelPublishers channel).isSome).foldl
        (fun pub channel =>
          pub.publishChannel channel (byChannel.eventsOf channel) transactTime) pub' from
    h pub (SameRoutes.refl pub)
  induction channels with
  | nil => intro pub' _; rfl
  | cons channel channels ih =>
      intro pub' hroutes
      have hsame := hroutes.isSome channel
      cases hsome : (pub.channelPublishers channel).isSome with
      | false =>
          rw [List.foldl_cons, publishChannel_of_none (hsame.trans hsome),
            List.filter_cons_of_neg (by simp [hsome])]
          exact ih pub' hroutes
      | true =>
          rw [List.filter_cons, if_pos hsome, List.foldl_cons, List.foldl_cons]
          exact ih _ (hroutes.trans (SameRoutes.publishChannel ..))

/-! ## Routing -/

/-- A publisher of an accepted configuration sorts by the channel the configuration
gives. -/
theorem eventChannel_eq (hconfig : config.WellFormed) (hchannels : config.channels ≠ [])
    {pub : MarketDataPublisher} (hroutes : SameRoutes (ofConfig config tickMantissa) pub)
    (ev : EngineEvent) : pub.eventChannel ev = ev.feedSecurity.bind config.channelOf := by
  unfold eventChannel
  cases ev.feedSecurity with
  | none => rfl
  | some s =>
      dsimp only [getChannelForSecurity]
      rw [Option.bind_some, hroutes.securityToChannel, ofConfig]
      have hinsts := InstrumentManager.instruments_loadFromConfig tickMantissa config.instruments
      cases hfind : config.instruments.find? fun ic => ic.securityId = s with
      | none =>
          rw [securityToChannel_ofInstruments_eq_none]
          · simp [ExchangeConfig.channelOf, hfind]
          · rw [hinsts, List.forall_mem_map]
            intro ic hic
            simpa [InstrumentManager.ofConfig] using List.find?_eq_none.mp hfind ic hic
      | some ic =>
          have hic := List.mem_of_find?_eq_some hfind
          have hs : ic.securityId = s := by simpa using List.find?_some hfind
          have hnodup : ((InstrumentManager.loadFromConfig tickMantissa
              config.instruments).instruments.map (·.securityId)).Nodup := by
            rw [hinsts, List.map_map]
            exact hconfig.securities_nodup
          have hchannel := securityToChannel_ofInstruments hnodup
            (config.channels.map (·.channelId))
            (by rw [hinsts]; exact List.mem_map_of_mem hic)
          -- Channel zero stands for no channel, and no channel has it as its id.
          have hpos : 0 < ic.channelId := by
            rcases List.mem_map.mp (hconfig.known hchannels ic hic) with ⟨ch, hch, heq⟩
            exact heq ▸ hconfig.channel_pos ch hch
          rw [← hs, hconfig.channelOf_eq hic]
          simp only [InstrumentManager.ofConfig] at hchannel
          rw [hchannel]
          simp [hpos.ne']

/-- One call for each of some channels passes each of them its own events. -/
theorem passedTo_map {channels : List Int} (hnodup : channels.Nodup)
    (events : Int → List EngineEvent) (channel : Int) :
    passedTo channel (channels.map fun c => (c, events c)) =
      if channel ∈ channels then events channel else [] := by
  induction channels with
  | nil => rfl
  | cons c channels ih =>
      rw [List.nodup_cons] at hnodup
      have hrest := ih hnodup.2
      unfold passedTo at hrest ⊢
      by_cases hc : c = channel
      · subst hc
        rw [if_neg hnodup.1] at hrest
        simp [hrest]
      · simp [hc, Ne.symm hc, hrest]

/-- Each channel gets the events of its securities, in order. -/
theorem passedTo_incrementalCalls (hconfig : config.WellFormed)
    (hchannels : config.channels ≠ []) {pub : MarketDataPublisher}
    (hroutes : SameRoutes (ofConfig config tickMantissa) pub)
    {order : ByChannel → List Int} (horder : ∀ byChannel, (order byChannel).Perm byChannel.keys)
    (events : List EngineEvent) (channel : Int) :
    passedTo channel (pub.incrementalCalls events order) =
      events.filter fun ev => ev.feedSecurity.bind config.channelOf = some channel := by
  have hnodup := (horder (pub.groupByChannel events)).nodup_iff.mpr (AList.keys_nodup _)
  have hgroup := pub.eventsOf_groupByChannel events channel
  simp only [eventChannel_eq hconfig hchannels hroutes] at hgroup
  rw [incrementalCalls, passedTo_map (hnodup.filter _), ← hgroup]
  split
  · rfl
  · rename_i hcall
    rw [List.mem_filter, not_and_or] at hcall
    rcases hcall with hempty | hclosed
    · -- The channel has no events.
      rw [(horder _).mem_iff, ← AList.mem_keys.not, ← AList.lookup_isSome] at hempty
      simp [ByChannel.eventsOf, Option.not_isSome_iff_eq_none.mp hempty]
    · -- The channel has no publisher, so that it is the channel of no instrument.
      rw [hgroup, eq_comm, List.filter_eq_nil_iff]
      intro ev _ hev
      apply hclosed
      have hev : ev.feedSecurity.bind config.channelOf = some channel := by simpa using hev
      rcases Option.bind_eq_some_iff.mp hev with ⟨s, -, hs⟩
      rcases Option.map_eq_some_iff.mp hs with ⟨ic, hfind, rfl⟩
      have hknown := hconfig.known hchannels ic (List.mem_of_find?_eq_some hfind)
      rw [hroutes.isSome, ofConfig, ofInstruments]
      simp [hknown]

end MarketDataPublisher

open MarketDataPublisher in
/-- Every batch that reaches the publisher of an accepted configuration is passed on as
one call for each channel concerned, and each channel gets exactly the updates and fills
of the instruments configured for it, in order. -/
theorem market_data_routed (config : ExchangeConfig) (tickMantissa : Double → Int64)
    (hvalid : validateConfig config = .ok ()) (hchannels : config.channels ≠ [])
    (order : ByChannel → List Int) (horder : ∀ byChannel, (order byChannel).Perm byChannel.keys)
    (earlier : List PublisherCall) (events : List EngineEvent) (transactTime : Timestamp) :
    let mgr := InstrumentManager.loadFromConfig tickMantissa config.instruments
    let pub := earlier.foldl (MarketDataPublisher.apply mgr order)
      (MarketDataPublisher.ofInstruments mgr (config.channels.map (·.channelId)))
    let calls := pub.incrementalCalls events order
    pub.publishEvents events order transactTime =
        calls.foldl (fun pub call => pub.publishChannel call.1 call.2 transactTime) pub ∧
      (calls.map Prod.fst).Nodup ∧
      (∀ call ∈ calls, (pub.channelPublishers call.1).isSome) ∧
      (∀ ic ∈ config.instruments, config.channelOf ic.securityId = some ic.channelId) ∧
      ∀ channel, passedTo channel calls =
        events.filter fun ev => ev.feedSecurity.bind config.channelOf = some channel := by
  intro mgr pub calls
  have hconfig := ExchangeConfig.wellFormed_of_validateConfig hvalid
  have hroutes : SameRoutes (MarketDataPublisher.ofConfig config tickMantissa) pub :=
    SameRoutes.foldl_apply mgr order _ earlier
  refine ⟨publishEvents_eq_foldl pub events order transactTime, ?_, ?_, ?_, ?_⟩
  · have hnodup := (horder (pub.groupByChannel events)).nodup_iff.mpr (AList.keys_nodup _)
    simpa [calls, incrementalCalls, Function.comp_def] using hnodup.filter _
  · intro call hcall
    rcases List.mem_map.mp hcall with ⟨channel, hchannel, rfl⟩
    exact (List.mem_filter.mp hchannel).2
  · intro ic hic
    exact hconfig.channelOf_eq hic
  · intro channel
    exact passedTo_incrementalCalls hconfig hchannels hroutes horder events channel

open MarketDataPublisher in
/-- Of two updates and an update of a security of no instrument, each of two channels gets
its own. -/
theorem market_data_routed_of_two_channels :
    let es : InstrumentConfig :=
      { symbol := "ESH5", securityId := 1, channelId := 310,
        tickSize := .finite (1 / 4), contractMultiplier := .finite 50 }
    let nq : InstrumentConfig :=
      { symbol := "NQH5", securityId := 2, channelId := 318,
        tickSize := .finite (1 / 4), contractMultiplier := .finite 20 }
    let config : ExchangeConfig :=
      { channels := [{ channelId := 310, symbols := ["ESH5"] },
          { channelId := 318, symbols := ["NQH5"] }]
        instruments := [es, nq] }
    let update (s : SecurityId) (n : Int) : EngineEvent := .bookUpdate
      { securityId := s, side := .buy, price := ⟨100⟩, newQty := n, newOrderCount := 1,
        updateAction := .new, priceLevelIndex := 1, rptSeq := 1 }
    let mgr := InstrumentManager.loadFromConfig (fun _ => 250000000) config.instruments
    let pub := MarketDataPublisher.ofInstruments mgr [310, 318]
    let calls := pub.incrementalCalls [update 2 5, update 1 6, update 7 1, update 2 7] AList.keys
    validateConfig config = .ok () ∧
      passedTo 310 calls = [update 1 6] ∧ passedTo 318 calls = [update 2 5, update 2 7] := by
  intro es nq config update mgr pub calls
  have hvalid : validateConfig config = .ok () := by decide +kernel
  have hrouted := (market_data_routed config (fun _ => 250000000) hvalid (by decide) AList.keys
    (fun _ => List.Perm.refl _) [] [update 2 5, update 1 6, update 7 1, update 2 7] 0).2.2.2.2
  exact ⟨hvalid, (hrouted 310).trans (by decide), (hrouted 318).trans (by decide)⟩

end SimCme
