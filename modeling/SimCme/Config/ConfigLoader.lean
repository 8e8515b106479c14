import SimCme.Gateway.RiskManager
import SimCme.Instruments.InstrumentManager
import SimCme.Library.Validation

/-!
# Configurations

A configuration is validated when it is loaded: the checks run in a fixed order, and the
first that fails throws its message.  The instrument manager is then filled from it.
Addresses, names and feeds are left out, since neither a check nor a modelled component
reads them.

Main results:

- Theorem {lit}`ExchangeConfig.wellFormed_of_validateConfig`: the ids of an accepted
  configuration are positive and different, and every instrument names a channel of it.
- Theorem {lit}`InstrumentManager.instruments_loadFromConfig`: the manager lists the
  instruments in the order of the configuration.
-/

namespace SimCme

open Library

/-! ## The configuration -/

structure NetworkConfig where
  tcpListenPort : UInt16 := 9563
  ioThreads : Int := 2
deriving DecidableEq, Repr

structure ChannelConfig where
  channelId : Int := 0
  symbols : List String := []
deriving DecidableEq, Repr

structure InstrumentConfig where
  symbol : String := ""
  securityId : SecurityId := 0
  channelId : Int := 0
  tickSize : Double := .finite 0
  contractMultiplier : Double := .finite 0
  minTradeVol : Int := 1
  maxTradeVol : Int := 10000
  minPriceIncrementAmount : Double := .finite 0
  maturityMonthYear : String := ""
  displayFactor : Double := .finite (1 / 100)
deriving DecidableEq, Repr

structure EngineConfig where
  mode : String := "full_matching"
  pcapPath : String := ""
  syntheticFillProbability : Double := .finite 1
deriving DecidableEq, Repr

structure SessionConfig where
  maxSessions : Int := 100
  retransmitBufferSize : Int := 10000
deriving DecidableEq, Repr

structure ExchangeConfig where
  network : NetworkConfig := {}
  channels : List ChannelConfig := []
  instruments : List InstrumentConfig := []
  engine : EngineConfig := {}
  risk : RiskConfig := {}
  session : SessionConfig := {}
  logLevel : String := "info"
deriving DecidableEq, Repr

/-! ## Validation -/

def NetworkConfig.validate (network : NetworkConfig) : Except String Unit := do
  throwIf (network.tcpListenPort = 0) "TCP listen port must be non-zero"
  throwIf (network.ioThreads < 1) "io_threads must be at least 1"

def EngineConfig.validate (engine : EngineConfig) : Except String Unit := do
  throwIf (engine.mode ≠ "full_matching" ∧ engine.mode ≠ "synthetic")
    ("engine.mode must be 'full_matching' or 'synthetic', got: " ++ engine.mode)
  throwIf (engine.mode = "synthetic" ∧ engine.pcapPath = "")
    "pcap_path is required when engine mode is 'synthetic'"
  throwIf (engine.syntheticFillProbability.lt (.finite 0) ∨
      Double.lt (.finite 1) engine.syntheticFillProbability)
    "synthetic_fill_probability must be between 0.0 and 1.0"

def SessionConfig.validate (session : SessionConfig) : Except String Unit := do
  throwIf (session.maxSessions ≤ 0) "max_sessions must be positive"
  throwIf (session.retransmitBufferSize ≤ 0) "retransmit_buffer_size must be positive"

/-- One turn of the loop over the channels, after the channels of the given ids. -/
def ChannelConfig.validate (channelIds : Finset Int) (ch : ChannelConfig) :
    Except String (Finset Int) := do
  throwIf (ch.channelId ≤ 0) "channel_id must be positive"
  throwIf (ch.channelId ∈ channelIds) ("Duplicate channel_id: " ++ toString ch.channelId)
  throwIf (ch.symbols = []) ("Channel " ++ toString ch.channelId ++ " has no symbols")
  return insert ch.channelId channelIds

/-- The ids and the symbols the loop over the instruments has seen. -/
structure SeenInstruments where
  securityIds : Finset SecurityId := ∅
  symbols : Finset String := ∅

/-- One turn of the loop over the instruments.  The ids of the channels come with whether
there are any channels at all. -/
def InstrumentConfig.validate (channelIds : Finset Int) (anyChannels : Bool)
    (seen : SeenInstruments) (inst : InstrumentConfig) : Except String SeenInstruments := do
  throwIf (inst.symbol = "") "Instrument symbol cannot be empty"
  throwIf (inst.symbol ∈ seen.symbols) ("Duplicate instrument symbol: " ++ inst.symbol)
  throwIf (inst.securityId ≤ 0) ("security_id must be positive for " ++ inst.symbol)
  throwIf (inst.securityId ∈ seen.securityIds)
    ("Duplicate security_id: " ++ toString inst.securityId)
  throwIf (inst.tickSize.le (.finite 0)) ("tick_size must be positive for " ++ inst.symbol)
  throwIf (inst.contractMultiplier.le (.finite 0))
    ("contract_multiplier must be positive for " ++ inst.symbol)
  throwIf (inst.minTradeVol ≤ 0) ("min_trade_vol must be positive for " ++ inst.symbol)
  throwIf (inst.maxTradeVol < inst.minTradeVol)
    ("max_trade_vol must be >= min_trade_vol for " ++ inst.symbol)
  throwIf (inst.channelId ∉ channelIds ∧ anyChannels)
    ("Instrument " ++ inst.symbol ++ " references unknown channel_id " ++
      toString inst.channelId)
  return { securityIds := insert inst.securityId seen.securityIds
           symbols := insert inst.symbol seen.symbols }

def validLevels : List String :=
  ["trace", "debug", "info", "warn", "error", "critical", "off"]

def validateConfig (config : ExchangeConfig) : Except String Unit := do
  config.network.validate
  config.engine.validate
  config.risk.validate
  config.session.validate
  let channelIds ← config.channels.foldlM ChannelConfig.validate ∅
  let _ ← config.instruments.foldlM
    (InstrumentConfig.validate channelIds (!config.channels.isEmpty)) {}
  throwIf (config.logLevel ∉ validLevels)
    ("Invalid log_level: " ++ config.logLevel ++
      ". Must be one of: trace, debug, info, warn, error, critical, off")

/-- A turn passes only at a positive id that was not seen, and sees it. -/
theorem ChannelConfig.of_validate {channelIds channelIds' : Finset Int} {ch : ChannelConfig}
    (h : ch.validate channelIds = .ok channelIds') :
    0 < ch.channelId ∧ ch.channelId ∉ channelIds ∧
      channelIds' = insert ch.channelId channelIds := by
  simp only [validate, bind_eq_ok_iff, throwIf_eq_ok_iff, not_le] at h
  rcases h with ⟨_, hpos, _, hfresh, _, _, hseen⟩
  exact ⟨hpos, hfresh, (Except.ok.inj hseen).symm⟩

/-- A turn passes only at a positive id that was not seen and a known channel, and sees
the id. -/
theorem InstrumentConfig.of_validate {channelIds : Finset Int} {anyChannels : Bool}
    {seen seen' : SeenInstruments} {inst : InstrumentConfig}
    (h : inst.validate channelIds anyChannels seen = .ok seen') :
    (inst.securityId ∉ seen.securityIds ∧
      seen'.securityIds = insert inst.securityId seen.securityIds) ∧
      0 < inst.securityId ∧ (anyChannels = true → inst.channelId ∈ channelIds) := by
  simp only [validate, bind_eq_ok_iff, throwIf_eq_ok_iff, not_le] at h
  rcases h with ⟨_, _, _, _, _, hpos, _, hfresh, _, _, _, _, _, _, _, _, _, hchannel, hseen⟩
  cases hseen
  refine ⟨⟨hfresh, rfl⟩, hpos, ?_⟩
  intro hany
  by_contra hunknown
  exact hchannel ⟨hunknown, hany⟩

/-- What the routing of market data needs of a configuration. -/
structure ExchangeConfig.WellFormed (config : ExchangeConfig) : Prop where
  channel_pos : ∀ ch ∈ config.channels, 0 < ch.channelId
  channels_nodup : (config.channels.map (·.channelId)).Nodup
  security_pos : ∀ inst ∈ config.instruments, 0 < inst.securityId
  securities_nodup : (config.instruments.map (·.securityId)).Nodup
  known : config.channels ≠ [] → ∀ inst ∈ config.instruments,
    inst.channelId ∈ config.channels.map (·.channelId)

/-- An accepted configuration is well formed. -/
theorem ExchangeConfig.wellFormed_of_validateConfig {config : ExchangeConfig}
    (h : validateConfig config = .ok ()) : config.WellFormed := by
  simp only [validateConfig, bind_eq_ok_iff] at h
  rcases h with ⟨_, _, _, _, _, _, _, _, channelIds, hchannels, seen, hinstruments, _⟩
  rcases fresh_of_foldlM_eq_ok id ChannelConfig.channelId hchannels
    (fun _ _ _ hturn => (ChannelConfig.of_validate hturn).2) with ⟨hnodup, -, hids⟩
  have hfresh := fresh_of_foldlM_eq_ok SeenInstruments.securityIds InstrumentConfig.securityId
    hinstruments fun _ _ _ hturn => (InstrumentConfig.of_validate hturn).1
  have hturns := forall_mem_of_foldlM_eq_ok hinstruments
    fun _ _ _ hturn => (InstrumentConfig.of_validate hturn).2
  exact
    { channel_pos := forall_mem_of_foldlM_eq_ok hchannels
        fun _ _ _ hturn => (ChannelConfig.of_validate hturn).1
      channels_nodup := hnodup
      security_pos := fun inst hinst => (hturns inst hinst).1
      securities_nodup := hfresh.1
      known := by
        intro hne inst hinst
        have hmem := (hturns inst hinst).2 (by simpa using hne)
        simpa using (hids _).mp hmem }

/-- A turn passes only at a symbol that was not seen, and sees it. -/
theorem InstrumentConfig.symbol_of_validate {channelIds : Finset Int} {anyChannels : Bool}
    {seen seen' : SeenInstruments} {inst : InstrumentConfig}
    (h : inst.validate channelIds anyChannels seen = .ok seen') :
    inst.symbol ∉ seen.symbols ∧ seen'.symbols = insert inst.symbol seen.symbols := by
  simp only [validate, bind_eq_ok_iff, throwIf_eq_ok_iff] at h
  rcases h with ⟨_, _, _, hfresh, _, _, _, _, _, _, _, _, _, _, _, _, _, _, hseen⟩
  cases hseen
  exact ⟨hfresh, rfl⟩

/-- A turn passes only at a range of volumes that is not empty. -/
theorem InstrumentConfig.volumes_of_validate {channelIds : Finset Int} {anyChannels : Bool}
    {seen seen' : SeenInstruments} {inst : InstrumentConfig}
    (h : inst.validate channelIds anyChannels seen = .ok seen') :
    0 < inst.minTradeVol ∧ inst.minTradeVol ≤ inst.maxTradeVol := by
  simp only [validate, bind_eq_ok_iff, throwIf_eq_ok_iff, not_le, not_lt] at h
  rcases h with ⟨_, _, _, _, _, _, _, _, _, _, _, _, _, hmin, _, hmax, _⟩
  exact ⟨hmin, hmax⟩

/-- The loop over the instruments of an accepted configuration passes. -/
theorem ExchangeConfig.instruments_of_validateConfig {config : ExchangeConfig}
    (h : validateConfig config = .ok ()) :
    ∃ channelIds seen, config.instruments.foldlM
      (InstrumentConfig.validate channelIds (!config.channels.isEmpty)) {} = .ok seen := by
  simp only [validateConfig, bind_eq_ok_iff] at h
  rcases h with ⟨_, _, _, _, _, _, _, _, channelIds, _, seen, hinstruments, _⟩
  exact ⟨channelIds, seen, hinstruments⟩

/-- The symbols of an accepted configuration are different. -/
theorem ExchangeConfig.symbols_nodup_of_validateConfig {config : ExchangeConfig}
    (h : validateConfig config = .ok ()) : (config.instruments.map (·.symbol)).Nodup := by
  rcases config.instruments_of_validateConfig h with ⟨channelIds, seen, hinstruments⟩
  have hfresh := fresh_of_foldlM_eq_ok SeenInstruments.symbols InstrumentConfig.symbol
    hinstruments fun _ _ _ hturn => InstrumentConfig.symbol_of_validate hturn
  exact hfresh.1

/-- The volumes of an accepted configuration are ranges of positive numbers. -/
theorem ExchangeConfig.volumes_of_validateConfig {config : ExchangeConfig}
    (h : validateConfig config = .ok ()) :
    ∀ inst ∈ config.instruments, 0 < inst.minTradeVol ∧ inst.minTradeVol ≤ inst.maxTradeVol := by
  rcases config.instruments_of_validateConfig h with ⟨channelIds, seen, hinstruments⟩
  exact forall_mem_of_foldlM_eq_ok hinstruments
    fun _ _ _ hturn => InstrumentConfig.volumes_of_validate hturn

/-! ## Loading the instruments -/

namespace InstrumentManager

/-- File an instrument under its id, over an earlier one of the same id. -/
def push (mgr : InstrumentManager) (inst : Instrument) : InstrumentManager where
  instruments := mgr.instruments ++ [inst]
  bySecurityId := Function.update mgr.bySecurityId inst.securityId
    (some mgr.instruments.length)
  indexed := by
    intro id i hi
    by_cases hid : id = inst.securityId
    · subst hid
      rw [Function.update_self, Option.some_inj] at hi
      exact ⟨inst, by simp [← hi], rfl⟩
    · rw [Function.update_of_ne hid] at hi
      rcases mgr.indexed id i hi with ⟨instr, hinstr, heq⟩
      refine ⟨instr, ?_, heq⟩
      rw [List.getElem?_append_left (List.getElem?_eq_some_iff.mp hinstr).1]
      exact hinstr

/-- The instrument of a configuration.  The mantissa of its tick is computed in
floating point, which is left open. -/
def ofConfig (tickMantissa : Double → Int64) (ic : InstrumentConfig) : Instrument where
  securityId := ic.securityId
  channelId := ic.channelId
  tickMantissa := tickMantissa ic.tickSize
  minTradeVol := ic.minTradeVol
  maxTradeVol := ic.maxTradeVol
  tradingStatus := .preOpen

/-- Fill the manager anew. -/
def loadFromConfig (tickMantissa : Double → Int64)
    (instrumentConfigs : List InstrumentConfig) : InstrumentManager :=
  instrumentConfigs.foldl (fun mgr ic => mgr.push (ofConfig tickMantissa ic)) {}

/-- The manager lists the instruments in the order of the configuration. -/
theorem instruments_loadFromConfig (tickMantissa : Double → Int64)
    (instrumentConfigs : List InstrumentConfig) :
    (loadFromConfig tickMantissa instrumentConfigs).instruments =
      instrumentConfigs.map (ofConfig tickMantissa) := by
  induction instrumentConfigs using List.reverseRecOn with
  | nil => rfl
  | append_singleton configs ic ih =>
      rw [loadFromConfig, List.foldl_concat, List.map_append, ← ih]
      rfl

end InstrumentManager

end SimCme
