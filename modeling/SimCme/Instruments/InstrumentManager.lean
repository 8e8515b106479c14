import SimCme.Common.Types

/-!
# Instruments

The gateway checks every order against the instrument it names.  The tick size
of the source is a floating-point number that is only ever read as its
fixed-point mantissa, so an instrument carries the mantissa.

Main results:

- Theorem {lit}`InstrumentManager.findBySecurityId_setTradingStatus`: a change of
  trading status leaves the tick and the volume limits of every instrument alone.
-/

namespace SimCme

structure Instrument where
  securityId : SecurityId
  channelId : Int := 0
  /-- The tick size as a mantissa of the price format. -/
  tickMantissa : Int64
  minTradeVol : Int := 1
  maxTradeVol : Int := 10000
  tradingStatus : SecurityTradingStatus := .preOpen
deriving DecidableEq, Repr

/-- Whether a price falls on a tick boundary.  An instrument without a tick takes
every price. -/
def Instrument.isValidTick (instr : Instrument) (price : Price) : Bool :=
  if instr.tickMantissa = 0 then true else price.mantissa % instr.tickMantissa == 0

/-- The same instrument up to its trading status. -/
def Instrument.SameTerms (instr instr' : Instrument) : Prop :=
  instr'.securityId = instr.securityId ∧ instr'.tickMantissa = instr.tickMantissa ∧
    instr'.minTradeVol = instr.minTradeVol ∧ instr'.maxTradeVol = instr.maxTradeVol

/-- The instruments and their index.  Every index entry points at an instrument of
the id it is filed under. -/
structure InstrumentManager where
  instruments : List Instrument := []
  bySecurityId : SecurityId → Option Nat := fun _ => none
  indexed : ∀ id i, bySecurityId id = some i →
    ∃ instr, instruments[i]? = some instr ∧ instr.securityId = id := by simp

namespace InstrumentManager

def findBySecurityId (mgr : InstrumentManager) (id : SecurityId) : Option Instrument :=
  (mgr.bySecurityId id).bind fun i => mgr.instruments[i]?

def getInstrumentsByChannel (mgr : InstrumentManager) (channelId : Int) : List Instrument :=
  mgr.instruments.filter fun instr => instr.channelId = channelId

def getAllInstruments (mgr : InstrumentManager) : List Instrument :=
  mgr.instruments

def setTradingStatus (mgr : InstrumentManager) (id : SecurityId)
    (status : SecurityTradingStatus) : InstrumentManager :=
  match mgr.bySecurityId id with
  | none => mgr
  | some i =>
      { mgr with
        instruments := mgr.instruments.modify i fun instr =>
          { instr with tradingStatus := status }
        indexed := by
          intro id' j hj
          rcases mgr.indexed id' j hj with ⟨instr, hinstr, hid⟩
          rw [List.getElem?_modify, hinstr]
          split
          · exact ⟨_, rfl, hid⟩
          · exact ⟨_, rfl, hid⟩ }

/-- The manager of one instrument. -/
def single (instr : Instrument) : InstrumentManager where
  instruments := [instr]
  bySecurityId id := if id = instr.securityId then some 0 else none
  indexed := by
    intro id i hi
    split at hi
    · rename_i hid
      cases hi
      exact ⟨instr, rfl, hid.symm⟩
    · contradiction

/-- A change of trading status keeps what is found, up to the status. -/
theorem findBySecurityId_setTradingStatus {mgr : InstrumentManager} {id : SecurityId}
    {instr : Instrument} (hfind : mgr.findBySecurityId id = some instr)
    (id' : SecurityId) (status : SecurityTradingStatus) :
    ∃ instr', (mgr.setTradingStatus id' status).findBySecurityId id = some instr' ∧
      instr.SameTerms instr' := by
  unfold setTradingStatus
  cases hid' : mgr.bySecurityId id' with
  | none => exact ⟨instr, hfind, rfl, rfl, rfl, rfl⟩
  | some i =>
      simp only [findBySecurityId, Option.bind_eq_some_iff] at hfind ⊢
      rcases hfind with ⟨j, hj, hinstr⟩
      by_cases hij : i = j
      · refine ⟨{ instr with tradingStatus := status }, ⟨j, hj, ?_⟩, rfl, rfl, rfl, rfl⟩
        simp [hij, hinstr]
      · refine ⟨instr, ⟨j, hj, ?_⟩, rfl, rfl, rfl, rfl⟩
        simp [hij, hinstr]

end InstrumentManager

end SimCme
