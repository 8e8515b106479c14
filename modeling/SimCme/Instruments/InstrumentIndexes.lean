import SimCme.Config.ConfigLoader
import SimCme.Library.ListIndex
import SimCme.MarketData.InstrumentDefBuilder

/-!
# The indexes of the instrument manager

The manager keeps its instruments and its channels in lists, files the positions of both in
hash indexes, and keeps for every channel the ids of its instruments.  A later entry of the
same key silently replaces an earlier one, so the indexes agree with the lists only because
the validation of a configuration rejects repeated keys.  Names and feeds of a channel are
left out, as before.

Main results:

- Theorem {lit}`InstrumentIndexes.Consistent.addInstrument`: an instrument of new keys and a
  known channel keeps the indexes consistent.
- Theorem {lit}`InstrumentIndexes.consistent_loadFromConfig`: an accepted configuration is
  loaded consistently, whatever the manager held before.
- Theorem {lit}`InstrumentIndexes.findBySecurityId_loadFromConfig`: the manager refines the
  one the order checks ask.
- Theorem {lit}`InstrumentIndexes.lookups_agree`: lookups, channel lists and instruments
  agree after every accepted load and any changes of trading status.
-/

namespace SimCme

open Library

/-- The bytes of a text of the configuration. -/
def configBytes (text : String) : List UInt8 :=
  text.toByteArray.data.toList

theorem configBytes_injective : Function.Injective configBytes := by
  intro text text' htext
  unfold configBytes at htext
  rw [← String.toByteArray_inj]
  exact ByteArray.ext (Array.toList_inj.mp htext)

/-- The casts of floating-point numbers, which are left open: to the mantissa of a price,
and to an integer. -/
structure FloatCasts where
  mantissa : Double → Int64
  toInt32 : Double → Int32

/-- A channel with the ids of its instruments. -/
structure Channel where
  channelId : Int
  securityIds : List SecurityId := []
deriving DecidableEq, Repr

/-- The instrument manager with all of its indexes. -/
structure InstrumentIndexes where
  instruments : List DefinedInstrument := []
  bySecurityId : SecurityId → Option Nat := fun _ => none
  bySymbol : List UInt8 → Option Nat := fun _ => none
  channels : List Channel := []
  channelsById : Int → Option Nat := fun _ => none

/-- The characters {lit}`isalpha` accepts. -/
def isAlpha (c : UInt8) : Bool :=
  (65 ≤ c && c ≤ 90) || (97 ≤ c && c ≤ 122)

namespace InstrumentIndexes

/-! ## Loading -/

/-- The root of a symbol: strip the digits of the year and the letter of the month. -/
def deriveSecurityGroup (symbol : List UInt8) : List UInt8 :=
  let pos := symbol.length - (symbol.reverse.takeWhile isDigit).length
  let pos := if 0 < pos ∧ isAlpha (symbol.getD (pos - 1) 0) then pos - 1 else pos
  if pos = 0 then symbol else symbol.take pos

example : deriveSecurityGroup (textBytes "MESH5") = textBytes "MES" := by decide

/-- The instrument of a configuration. -/
def ofConfig (casts : FloatCasts) (ic : InstrumentConfig) : DefinedInstrument where
  toInstrument := InstrumentManager.ofConfig casts.mantissa ic
  symbol := configBytes ic.symbol
  securityGroup := deriveSecurityGroup (configBytes ic.symbol)
  asset := deriveSecurityGroup (configBytes ic.symbol)
  contractMultiplier := casts.toInt32 ic.contractMultiplier
  contractMultiplierMantissa := casts.mantissa ic.contractMultiplier
  minPriceIncrementAmountMantissa := casts.mantissa ic.minPriceIncrementAmount
  displayFactorMantissa := casts.mantissa ic.displayFactor
  maturityMonthYear := configBytes ic.maturityMonthYear

/-- One turn of the loop over the channels. -/
def addChannel (mgr : InstrumentIndexes) (cc : ChannelConfig) : InstrumentIndexes :=
  { mgr with
    channels := mgr.channels ++ [{ channelId := cc.channelId }]
    channelsById := Function.update mgr.channelsById cc.channelId (some mgr.channels.length) }

/-- Put an id behind the ids of a channel. -/
def Channel.push (id : SecurityId) (ch : Channel) : Channel :=
  { ch with securityIds := ch.securityIds ++ [id] }

/-- One turn of the loop over the instruments.  An unknown channel takes no id. -/
def addInstrument (casts : FloatCasts) (mgr : InstrumentIndexes) (ic : InstrumentConfig) :
    InstrumentIndexes :=
  let inst := ofConfig casts ic
  let idx := mgr.instruments.length
  { mgr with
    bySecurityId := Function.update mgr.bySecurityId inst.securityId (some idx)
    bySymbol := Function.update mgr.bySymbol inst.symbol (some idx)
    channels :=
      match mgr.channelsById ic.channelId with
      | none => mgr.channels
      | some i => mgr.channels.modify i (Channel.push inst.securityId)
    instruments := mgr.instruments ++ [inst] }

/-- Clear the manager, and load the channels first. -/
def loadFromConfig (casts : FloatCasts) (instrumentConfigs : List InstrumentConfig)
    (channelConfigs : List ChannelConfig) (mgr : InstrumentIndexes) : InstrumentIndexes :=
  let cleared : InstrumentIndexes :=
    { mgr with
      instruments := [], bySecurityId := fun _ => none, bySymbol := fun _ => none
      channels := [], channelsById := fun _ => none }
  instrumentConfigs.foldl (addInstrument casts) (channelConfigs.foldl addChannel cleared)

/-! ## Lookups -/

def findBySecurityId (mgr : InstrumentIndexes) (id : SecurityId) : Option DefinedInstrument :=
  lookup mgr.bySecurityId mgr.instruments id

def findBySymbol (mgr : InstrumentIndexes) (symbol : List UInt8) : Option DefinedInstrument :=
  lookup mgr.bySymbol mgr.instruments symbol

def getInstrumentsByChannel (mgr : InstrumentIndexes) (channelId : Int) :
    List DefinedInstrument :=
  mgr.instruments.filter fun inst => inst.channelId = channelId

def getAllInstruments (mgr : InstrumentIndexes) : List DefinedInstrument :=
  mgr.instruments

def findChannel (mgr : InstrumentIndexes) (channelId : Int) : Option Channel :=
  lookup mgr.channelsById mgr.channels channelId

def getAllChannels (mgr : InstrumentIndexes) : List Channel :=
  mgr.channels

def setTradingStatus (mgr : InstrumentIndexes) (id : SecurityId)
    (status : SecurityTradingStatus) : InstrumentIndexes :=
  match mgr.bySecurityId id with
  | none => mgr
  | some i =>
      { mgr with
        instruments := mgr.instruments.modify i fun inst =>
          { inst with tradingStatus := status } }

/-- Calls of {lit}`setTradingStatus`, one after the other. -/
def setTradingStatuses (mgr : InstrumentIndexes)
    (updates : List (SecurityId × SecurityTradingStatus)) : InstrumentIndexes :=
  updates.foldl (fun mgr update => mgr.setTradingStatus update.1 update.2) mgr

/-! ## The manager of the order checks -/

/-- The manager the gateway asks lists the same instruments, and files them by id the same
way. -/
structure Refines (mgr : InstrumentIndexes) (abstract : InstrumentManager) : Prop where
  instruments : mgr.instruments.map (·.toInstrument) = abstract.instruments
  bySecurityId : mgr.bySecurityId = abstract.bySecurityId

theorem Refines.addInstrument {mgr : InstrumentIndexes} {abstract : InstrumentManager}
    (hmgr : mgr.Refines abstract) (casts : FloatCasts) (ic : InstrumentConfig) :
    (mgr.addInstrument casts ic).Refines
      (abstract.push (InstrumentManager.ofConfig casts.mantissa ic)) where
  instruments := by
    simp [InstrumentIndexes.addInstrument, InstrumentManager.push, ofConfig, hmgr.instruments]
  bySecurityId := by
    have hlength : mgr.instruments.length = abstract.instruments.length := by
      rw [← hmgr.instruments, List.length_map]
    simp [InstrumentIndexes.addInstrument, InstrumentManager.push, ofConfig, hmgr.bySecurityId,
      hlength]

theorem Refines.addInstruments {mgr : InstrumentIndexes} {abstract : InstrumentManager}
    (hmgr : mgr.Refines abstract) (casts : FloatCasts) (ics : List InstrumentConfig) :
    (ics.foldl (InstrumentIndexes.addInstrument casts) mgr).Refines
      (ics.foldl (fun mgr ic => mgr.push (InstrumentManager.ofConfig casts.mantissa ic))
        abstract) := by
  induction ics generalizing mgr abstract with
  | nil => exact hmgr
  | cons ic ics ih => exact ih (hmgr.addInstrument casts ic)

theorem Refines.findBySecurityId {mgr : InstrumentIndexes} {abstract : InstrumentManager}
    (hmgr : mgr.Refines abstract) (id : SecurityId) :
    (mgr.findBySecurityId id).map (·.toInstrument) = abstract.findBySecurityId id := by
  unfold InstrumentIndexes.findBySecurityId lookup InstrumentManager.findBySecurityId
  rw [hmgr.bySecurityId, ← hmgr.instruments, Option.map_bind]
  congr 1
  ext i
  simp

/-! ## The invariant -/

/-- The indexes file the lists they belong to, a channel lists the ids of its instruments,
and every instrument has a channel. -/
structure Consistent (mgr : InstrumentIndexes) : Prop where
  bySecurityId : IsIndex (·.securityId) mgr.instruments mgr.bySecurityId
  bySymbol : IsIndex DefinedInstrument.symbol mgr.instruments mgr.bySymbol
  channelsById : IsIndex Channel.channelId mgr.channels mgr.channelsById
  securityIds : ∀ ch ∈ mgr.channels,
    ch.securityIds = (mgr.getInstrumentsByChannel ch.channelId).map (·.securityId)
  housed : ∀ inst ∈ mgr.instruments, inst.channelId ∈ mgr.channels.map (·.channelId)

variable {mgr : InstrumentIndexes} {casts : FloatCasts}

theorem consistent_empty : Consistent {} where
  bySecurityId := .nil _
  bySymbol := .nil _
  channelsById := .nil _
  securityIds := by simp
  housed := by simp

/-- A channel of a new id keeps the indexes consistent: no instrument has named it. -/
theorem Consistent.addChannel (hmgr : mgr.Consistent) {cc : ChannelConfig}
    (hfresh : cc.channelId ∉ mgr.channels.map (·.channelId)) :
    (mgr.addChannel cc).Consistent where
  bySecurityId := hmgr.bySecurityId
  bySymbol := hmgr.bySymbol
  channelsById := hmgr.channelsById.concat hfresh
  securityIds := by
    intro ch hch
    rcases List.mem_append.mp hch with hold | hnew
    · exact hmgr.securityIds ch hold
    · rw [List.mem_singleton] at hnew
      subst hnew
      have hnone : mgr.getInstrumentsByChannel cc.channelId = [] := by
        rw [getInstrumentsByChannel, List.filter_eq_nil_iff]
        intro inst hinst hchannel
        rw [decide_eq_true_eq] at hchannel
        exact hfresh (hchannel ▸ hmgr.housed inst hinst)
      exact (congrArg (List.map (·.securityId)) hnone).symm
  housed := by
    intro inst hinst
    have hhoused := hmgr.housed inst hinst
    simp only [InstrumentIndexes.addChannel, List.map_append, List.mem_append]
    exact Or.inl hhoused

/-- The id of an instrument goes to the channel filed under the channel's id. -/
theorem channels_addInstrument (mgr : InstrumentIndexes) (ic : InstrumentConfig) :
    (mgr.addInstrument casts ic).channels =
      match mgr.channelsById ic.channelId with
      | none => mgr.channels
      | some i => mgr.channels.modify i (Channel.push ic.securityId) :=
  rfl

theorem map_channelId_addInstrument (mgr : InstrumentIndexes) (ic : InstrumentConfig) :
    (mgr.addInstrument casts ic).channels.map (·.channelId) =
      mgr.channels.map (·.channelId) := by
  rw [channels_addInstrument]
  cases mgr.channelsById ic.channelId with
  | none => rfl
  | some i => exact map_modify_of_eq (by simp [Channel.push]) _ _

/-- The ids of a channel grow by the id of an instrument of the channel, and stay the same
for the instruments of other channels. -/
theorem map_securityId_addInstrument (mgr : InstrumentIndexes) (ic : InstrumentConfig)
    (channelId : Int) :
    ((mgr.addInstrument casts ic).getInstrumentsByChannel channelId).map (·.securityId) =
      (mgr.getInstrumentsByChannel channelId).map (·.securityId) ++
        if ic.channelId = channelId then [ic.securityId] else [] := by
  unfold getInstrumentsByChannel
  rw [show (mgr.addInstrument casts ic).instruments = mgr.instruments ++ [ofConfig casts ic]
    from rfl, List.filter_append, List.map_append]
  congr 1
  by_cases hchannel : ic.channelId = channelId
  · simp [ofConfig, InstrumentManager.ofConfig, hchannel]
  · simp [ofConfig, InstrumentManager.ofConfig, hchannel]

/-- An instrument of new keys and a known channel keeps the indexes consistent. -/
theorem Consistent.addInstrument (hmgr : mgr.Consistent) {ic : InstrumentConfig}
    (hid : ic.securityId ∉ mgr.instruments.map (·.securityId))
    (hsymbol : configBytes ic.symbol ∉ mgr.instruments.map (·.symbol))
    (hknown : ic.channelId ∈ mgr.channels.map (·.channelId)) :
    (mgr.addInstrument casts ic).Consistent where
  bySecurityId := hmgr.bySecurityId.concat hid
  bySymbol := hmgr.bySymbol.concat hsymbol
  channelsById := hmgr.channelsById.congr (map_channelId_addInstrument mgr ic)
  securityIds := by
    intro ch hch
    rw [map_securityId_addInstrument]
    obtain ⟨i, hi⟩ := List.mem_iff_getElem?.mp hknown
    have hfiled := (hmgr.channelsById ic.channelId i).mpr hi
    rw [channels_addInstrument, hfiled] at hch
    obtain ⟨old, hold, rfl⟩ := hmgr.channelsById.exists_of_mem_modify hfiled hch
    have hsecurityIds := hmgr.securityIds old hold
    by_cases hchannel : old.channelId = ic.channelId
    · rw [if_pos hchannel]
      simp [Channel.push, hsecurityIds, hchannel]
    · rw [if_neg hchannel, if_neg (Ne.symm hchannel), List.append_nil]
      exact hsecurityIds
  housed := by
    intro inst hinst
    rw [map_channelId_addInstrument]
    rcases List.mem_append.mp hinst with hold | hnew
    · exact hmgr.housed inst hold
    · rw [List.mem_singleton] at hnew
      subst hnew
      exact hknown

/-- A change of trading status keeps what the indexes go by. -/
theorem map_keys_setTradingStatus {κ : Type} {key : DefinedInstrument → κ}
    (hkey : ∀ (inst : DefinedInstrument) (status : SecurityTradingStatus),
      key { inst with tradingStatus := status } = key inst)
    (mgr : InstrumentIndexes) (id : SecurityId) (status : SecurityTradingStatus) :
    (mgr.setTradingStatus id status).instruments.map key = mgr.instruments.map key := by
  unfold InstrumentIndexes.setTradingStatus
  cases mgr.bySecurityId id with
  | none => rfl
  | some i => exact map_modify_of_eq (fun inst => hkey inst status) _ _

/-- A change of trading status touches the instruments only. -/
theorem setTradingStatus_frame (mgr : InstrumentIndexes) (id : SecurityId)
    (status : SecurityTradingStatus) :
    mgr.setTradingStatus id status =
      { mgr with instruments := (mgr.setTradingStatus id status).instruments } := by
  unfold InstrumentIndexes.setTradingStatus
  cases mgr.bySecurityId id <;> rfl

/-- A change of trading status keeps the indexes consistent, since it keeps the keys. -/
theorem Consistent.setTradingStatus (hmgr : mgr.Consistent) (id : SecurityId)
    (status : SecurityTradingStatus) : (mgr.setTradingStatus id status).Consistent := by
  rw [setTradingStatus_frame]
  exact
    { bySecurityId := hmgr.bySecurityId.congr
        (map_keys_setTradingStatus (fun _ _ => rfl) mgr id status)
      bySymbol := hmgr.bySymbol.congr
        (map_keys_setTradingStatus (fun _ _ => rfl) mgr id status)
      channelsById := hmgr.channelsById
      securityIds := by
        intro ch hch
        rw [hmgr.securityIds ch hch]
        have hkeys : (mgr.setTradingStatus id status).instruments.map
            (fun inst => (inst.channelId, inst.securityId)) =
              mgr.instruments.map fun inst => (inst.channelId, inst.securityId) :=
          map_keys_setTradingStatus (fun _ _ => rfl) mgr id status
        exact (map_filter_of_map_eq hkeys (fun k => k.1 = ch.channelId) Prod.snd).symm
      housed := by
        intro inst hinst
        have hmem := List.mem_map_of_mem (f := fun inst : DefinedInstrument => inst.channelId)
          hinst
        rw [map_keys_setTradingStatus (fun _ _ => rfl)] at hmem
        obtain ⟨old, hold, hchannel⟩ := List.mem_map.mp hmem
        exact hchannel ▸ hmgr.housed old hold }

/-! ## Runs of the loops -/

theorem Consistent.setTradingStatuses (hmgr : mgr.Consistent)
    (updates : List (SecurityId × SecurityTradingStatus)) :
    (mgr.setTradingStatuses updates).Consistent := by
  induction updates generalizing mgr with
  | nil => exact hmgr
  | cons update updates ih => exact ih (hmgr.setTradingStatus update.1 update.2)

theorem map_keys_setTradingStatuses {κ : Type} {key : DefinedInstrument → κ}
    (hkey : ∀ (inst : DefinedInstrument) (status : SecurityTradingStatus),
      key { inst with tradingStatus := status } = key inst)
    (mgr : InstrumentIndexes) (updates : List (SecurityId × SecurityTradingStatus)) :
    (mgr.setTradingStatuses updates).instruments.map key = mgr.instruments.map key := by
  induction updates generalizing mgr with
  | nil => rfl
  | cons update updates ih => exact (ih _).trans (map_keys_setTradingStatus hkey _ _ _)

theorem channels_setTradingStatuses (mgr : InstrumentIndexes)
    (updates : List (SecurityId × SecurityTradingStatus)) :
    (mgr.setTradingStatuses updates).channels = mgr.channels := by
  induction updates generalizing mgr with
  | nil => rfl
  | cons update updates ih =>
      have hchannels : (mgr.setTradingStatus update.1 update.2).channels = mgr.channels := by
        rw [setTradingStatus_frame]
      exact (ih _).trans hchannels

/-- Channels of new and different ids keep the indexes consistent. -/
theorem Consistent.addChannels (hmgr : mgr.Consistent) {ccs : List ChannelConfig}
    (hnodup : (mgr.channels.map (·.channelId) ++ ccs.map (·.channelId)).Nodup) :
    (ccs.foldl InstrumentIndexes.addChannel mgr).Consistent ∧
      (ccs.foldl InstrumentIndexes.addChannel mgr).channels.map (·.channelId) =
        mgr.channels.map (·.channelId) ++ ccs.map (·.channelId) := by
  induction ccs generalizing mgr with
  | nil => exact ⟨hmgr, by simp⟩
  | cons cc ccs ih =>
      have hfresh : cc.channelId ∉ mgr.channels.map (·.channelId) := by
        intro hmem
        exact (List.nodup_append.mp hnodup).2.2 _ hmem _ (by simp) rfl
      have hids : (mgr.addChannel cc).channels.map (·.channelId) =
          mgr.channels.map (·.channelId) ++ [cc.channelId] := by
        simp [InstrumentIndexes.addChannel]
      have hrest := ih (hmgr.addChannel hfresh) (by rw [hids]; simpa using hnodup)
      rw [hids] at hrest
      simpa using hrest

/-- Instruments of new and different keys and of known channels keep the indexes
consistent. -/
theorem Consistent.addInstruments (hmgr : mgr.Consistent) {ics : List InstrumentConfig}
    (hids : (mgr.instruments.map (·.securityId) ++ ics.map (·.securityId)).Nodup)
    (hsymbols : (mgr.instruments.map (·.symbol) ++
      ics.map fun ic => configBytes ic.symbol).Nodup)
    (hknown : ∀ ic ∈ ics, ic.channelId ∈ mgr.channels.map (·.channelId)) :
    (ics.foldl (InstrumentIndexes.addInstrument casts) mgr).Consistent := by
  induction ics generalizing mgr with
  | nil => exact hmgr
  | cons ic ics ih =>
      have hid : ic.securityId ∉ mgr.instruments.map (·.securityId) := by
        intro hmem
        exact (List.nodup_append.mp hids).2.2 _ hmem _ (by simp) rfl
      have hsymbol : configBytes ic.symbol ∉ mgr.instruments.map (·.symbol) := by
        intro hmem
        exact (List.nodup_append.mp hsymbols).2.2 _ hmem _ (by simp) rfl
      rw [List.forall_mem_cons] at hknown
      refine ih (hmgr.addInstrument hid hsymbol hknown.1) ?_ ?_ ?_
      · simpa [InstrumentIndexes.addInstrument, ofConfig, InstrumentManager.ofConfig] using hids
      · simpa [InstrumentIndexes.addInstrument, ofConfig] using hsymbols
      · rw [map_channelId_addInstrument]
        exact hknown.2

/-- The channels bring no instruments. -/
theorem instruments_addChannels (mgr : InstrumentIndexes) (ccs : List ChannelConfig) :
    (ccs.foldl InstrumentIndexes.addChannel mgr).instruments = mgr.instruments := by
  induction ccs generalizing mgr with
  | nil => rfl
  | cons cc ccs ih => exact ih (mgr.addChannel cc)

theorem bySecurityId_addChannels (mgr : InstrumentIndexes) (ccs : List ChannelConfig) :
    (ccs.foldl InstrumentIndexes.addChannel mgr).bySecurityId = mgr.bySecurityId := by
  induction ccs generalizing mgr with
  | nil => rfl
  | cons cc ccs ih => exact ih (mgr.addChannel cc)

/-- The instruments bring no channels. -/
theorem map_channelId_addInstruments (mgr : InstrumentIndexes) (ics : List InstrumentConfig) :
    (ics.foldl (InstrumentIndexes.addInstrument casts) mgr).channels.map (·.channelId) =
      mgr.channels.map (·.channelId) := by
  induction ics generalizing mgr with
  | nil => rfl
  | cons ic ics ih => exact (ih _).trans (map_channelId_addInstrument mgr ic)

theorem instruments_addInstruments (mgr : InstrumentIndexes) (ics : List InstrumentConfig) :
    (ics.foldl (InstrumentIndexes.addInstrument casts) mgr).instruments =
      mgr.instruments ++ ics.map (ofConfig casts) := by
  induction ics generalizing mgr with
  | nil => simp
  | cons ic ics ih =>
      rw [List.foldl_cons, ih]
      simp [InstrumentIndexes.addInstrument]

/-- The manager lists the instruments in the order of the configuration. -/
theorem instruments_loadFromConfig (casts : FloatCasts) (ics : List InstrumentConfig)
    (ccs : List ChannelConfig) (mgr : InstrumentIndexes) :
    (loadFromConfig casts ics ccs mgr).instruments = ics.map (ofConfig casts) := by
  rw [loadFromConfig, instruments_addInstruments, instruments_addChannels]
  rfl

/-- The manager lists the channels in the order of the configuration. -/
theorem map_channelId_loadFromConfig (casts : FloatCasts) (ics : List InstrumentConfig)
    {ccs : List ChannelConfig} (hnodup : (ccs.map (·.channelId)).Nodup)
    (mgr : InstrumentIndexes) :
    (loadFromConfig casts ics ccs mgr).channels.map (·.channelId) = ccs.map (·.channelId) := by
  rw [loadFromConfig, map_channelId_addInstruments]
  have hempty : ({} : InstrumentIndexes).Consistent := consistent_empty
  exact (hempty.addChannels (by simpa using hnodup)).2

/-- The full manager finds what the manager of the order checks finds. -/
theorem findBySecurityId_loadFromConfig (casts : FloatCasts) (ics : List InstrumentConfig)
    (ccs : List ChannelConfig) (mgr : InstrumentIndexes) (id : SecurityId) :
    ((loadFromConfig casts ics ccs mgr).findBySecurityId id).map (·.toInstrument) =
      (InstrumentManager.loadFromConfig casts.mantissa ics).findBySecurityId id := by
  have hloaded : (ccs.foldl InstrumentIndexes.addChannel {}).Refines {} :=
    { instruments := by rw [instruments_addChannels]; rfl
      bySecurityId := bySecurityId_addChannels {} ccs }
  exact (hloaded.addInstruments casts ics).findBySecurityId id

/-- An accepted configuration is loaded consistently, whatever the manager held before. -/
theorem consistent_loadFromConfig (casts : FloatCasts) {config : ExchangeConfig}
    (hvalid : validateConfig config = .ok ()) (hchannels : config.channels ≠ [])
    (previous : InstrumentIndexes) :
    (loadFromConfig casts config.instruments config.channels previous).Consistent := by
  have hconfig := ExchangeConfig.wellFormed_of_validateConfig hvalid
  have hempty : ({} : InstrumentIndexes).Consistent := consistent_empty
  obtain ⟨hloaded, hids⟩ := hempty.addChannels (by simpa using hconfig.channels_nodup)
  have hsymbols : (config.instruments.map fun ic => configBytes ic.symbol).Nodup := by
    have hnodup := ExchangeConfig.symbols_nodup_of_validateConfig hvalid
    simpa [List.map_map, Function.comp_def] using hnodup.map configBytes_injective
  have hnone : (config.channels.foldl InstrumentIndexes.addChannel {}).instruments = [] :=
    instruments_addChannels {} config.channels
  refine hloaded.addInstruments ?_ ?_ ?_
  · rw [hnone]
    simpa using hconfig.securities_nodup
  · rw [hnone]
    simpa using hsymbols
  · rw [hids]
    simpa using hconfig.known hchannels

/-! ## What consistent indexes show -/

theorem Consistent.findBySecurityId_eq_some_iff (hmgr : mgr.Consistent) {id : SecurityId}
    {inst : DefinedInstrument} :
    mgr.findBySecurityId id = some inst ↔ inst ∈ mgr.getAllInstruments ∧ inst.securityId = id :=
  hmgr.bySecurityId.lookup_eq_some_iff

theorem Consistent.findBySymbol_eq_some_iff (hmgr : mgr.Consistent) {symbol : List UInt8}
    {inst : DefinedInstrument} :
    mgr.findBySymbol symbol = some inst ↔ inst ∈ mgr.getAllInstruments ∧ inst.symbol = symbol :=
  hmgr.bySymbol.lookup_eq_some_iff

/-- A configured channel is found, with the ids of its instruments. -/
theorem Consistent.findChannel_of_mem (hmgr : mgr.Consistent) {channelId : Int}
    (hmem : channelId ∈ mgr.channels.map (·.channelId)) :
    ∃ ch, mgr.findChannel channelId = some ch ∧
      ch.securityIds = (mgr.getInstrumentsByChannel channelId).map (·.securityId) := by
  obtain ⟨ch, hch, rfl⟩ := List.mem_map.mp hmem
  exact ⟨ch, hmgr.channelsById.lookup_eq_some_iff.mpr ⟨hch, rfl⟩, hmgr.securityIds ch hch⟩

/-- Two instruments of one id are the same instrument. -/
theorem Consistent.eq_of_securityId_eq (hmgr : mgr.Consistent) {inst inst' : DefinedInstrument}
    (hinst : inst ∈ mgr.instruments) (hinst' : inst' ∈ mgr.instruments)
    (hid : inst.securityId = inst'.securityId) : inst = inst' := by
  have hfind := hmgr.findBySecurityId_eq_some_iff.mpr ⟨hinst, hid⟩
  rw [hmgr.findBySecurityId_eq_some_iff.mpr ⟨hinst', rfl⟩] at hfind
  exact (Option.some.inj hfind).symm

/-- The lists of two channels share no id, and a list holds no id twice. -/
theorem Consistent.nodup_securityIds (hmgr : mgr.Consistent) :
    (mgr.channels.flatMap (·.securityIds)).Nodup := by
  rw [List.nodup_flatMap]
  constructor
  · intro ch hch
    rw [hmgr.securityIds ch hch]
    exact hmgr.bySecurityId.nodup_keys.sublist (List.filter_sublist.map _)
  · refine (List.pairwise_map.mp hmgr.channelsById.nodup_keys).imp_of_mem ?_
    intro ch ch' hch hch' hne id hid hid'
    simp only at hid hid'
    rw [hmgr.securityIds ch hch] at hid
    rw [hmgr.securityIds ch' hch'] at hid'
    obtain ⟨inst, hinst, rfl⟩ := List.mem_map.mp hid
    obtain ⟨inst', hinst', hsame⟩ := List.mem_map.mp hid'
    simp only [getInstrumentsByChannel, List.mem_filter, decide_eq_true_eq] at hinst hinst'
    rw [hmgr.eq_of_securityId_eq hinst'.1 hinst.1 hsame] at hinst'
    exact hne (hinst.2.symm.trans hinst'.2)

/-- Every instrument stands in exactly one place of the lists of the channels. -/
theorem Consistent.count_securityIds (hmgr : mgr.Consistent) {inst : DefinedInstrument}
    (hinst : inst ∈ mgr.instruments) :
    (mgr.channels.flatMap (·.securityIds)).count inst.securityId = 1 := by
  refine List.count_eq_one_of_mem hmgr.nodup_securityIds ?_
  obtain ⟨ch, hch, hchannel⟩ := List.mem_map.mp (hmgr.housed inst hinst)
  rw [List.mem_flatMap]
  refine ⟨ch, hch, ?_⟩
  rw [hmgr.securityIds ch hch, List.mem_map]
  exact ⟨inst, by simp [getInstrumentsByChannel, hinst, hchannel], rfl⟩

/-- Lookups, lists and channels agree. -/
structure Agrees (mgr : InstrumentIndexes) (config : ExchangeConfig) : Prop where
  /-- The instruments are those of the configuration, in its order. -/
  instruments : mgr.getAllInstruments.map (·.securityId) =
    config.instruments.map (·.securityId)
  found : ∀ inst ∈ mgr.getAllInstruments,
    mgr.findBySecurityId inst.securityId = some inst ∧ mgr.findBySymbol inst.symbol = some inst
  unknown_id : ∀ id, (∀ inst ∈ mgr.getAllInstruments, inst.securityId ≠ id) →
    mgr.findBySecurityId id = none
  unknown_symbol : ∀ symbol, (∀ inst ∈ mgr.getAllInstruments, inst.symbol ≠ symbol) →
    mgr.findBySymbol symbol = none
  channel : ∀ cc ∈ config.channels, ∃ ch, mgr.findChannel cc.channelId = some ch ∧
    ch.securityIds = (mgr.getInstrumentsByChannel cc.channelId).map (·.securityId)
  /-- Every instrument stands in exactly one place of the lists of the channels. -/
  one_channel : ∀ inst ∈ mgr.getAllInstruments,
    (mgr.getAllChannels.flatMap (·.securityIds)).count inst.securityId = 1

/-- Lookups, channel lists and instruments agree after every accepted load and any changes
of trading status. -/
theorem lookups_agree (casts : FloatCasts) {config : ExchangeConfig}
    (hvalid : validateConfig config = .ok ()) (hchannels : config.channels ≠ [])
    (previous : InstrumentIndexes) (updates : List (SecurityId × SecurityTradingStatus)) :
    ((loadFromConfig casts config.instruments config.channels
      previous).setTradingStatuses updates).Agrees config := by
  have hconfig := ExchangeConfig.wellFormed_of_validateConfig hvalid
  have hmgr := (consistent_loadFromConfig casts hvalid hchannels previous).setTradingStatuses
    updates
  exact
    { instruments := by
        rw [getAllInstruments, map_keys_setTradingStatuses fun _ _ => rfl,
          instruments_loadFromConfig, List.map_map]
        rfl
      found := fun inst hinst =>
        ⟨hmgr.findBySecurityId_eq_some_iff.mpr ⟨hinst, rfl⟩,
          hmgr.findBySymbol_eq_some_iff.mpr ⟨hinst, rfl⟩⟩
      unknown_id := fun id hid => hmgr.bySecurityId.lookup_eq_none_iff.mpr hid
      unknown_symbol := fun symbol hsymbol => hmgr.bySymbol.lookup_eq_none_iff.mpr hsymbol
      channel := by
        intro cc hcc
        refine hmgr.findChannel_of_mem ?_
        rw [channels_setTradingStatuses,
          map_channelId_loadFromConfig casts config.instruments hconfig.channels_nodup]
        exact List.mem_map_of_mem hcc
      one_channel := fun inst hinst => hmgr.count_securityIds hinst }

/-- Two instruments on two channels, one of them halted later, in a manager that held
another instrument before. -/
theorem lookups_agree_of_two_channels :
    let casts : FloatCasts := { mantissa := fun _ => 1, toInt32 := fun _ => 50 }
    let config : ExchangeConfig :=
      { channels := [{ channelId := 310, symbols := ["ESH5"] },
          { channelId := 318, symbols := ["NQH5"] }]
        instruments :=
          [{ symbol := "ESH5", securityId := 7, channelId := 310, tickSize := .finite (1 / 4),
             contractMultiplier := .finite 50 },
           { symbol := "NQH5", securityId := 9, channelId := 318, tickSize := .finite (1 / 4),
             contractMultiplier := .finite 20 }] }
    let previous := addInstrument casts {} { symbol := "NQH5", securityId := 7 }
    ((loadFromConfig casts config.instruments config.channels
      previous).setTradingStatuses [(7, .halt)]).Agrees config := by
  intro casts config previous
  have hvalid : validateConfig config = .ok () := by decide +kernel
  exact lookups_agree casts hvalid (List.cons_ne_nil _ _) previous _

end InstrumentIndexes

end SimCme
