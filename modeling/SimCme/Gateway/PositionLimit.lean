import Mathlib.Algebra.Order.Group.Abs
import SimCme.Engine.Exposure
import SimCme.Gateway.Positions

/-!
# The position limit

No check reads the position limit of the configuration, so positions outgrow it.  They
could not if commands kept the exposure of every session within it: an order that rests
may be filled by anybody at any time, so a check before the trade has to count what the
orders of a session may still add to its position.

Main results:

- Theorem {lit}`LimitInv.step`: a command that keeps the exposure of the order it brings or
  modifies within the limit keeps every exposure within it.
- Theorem {lit}`netPosition_within_limit_of_run`: in a run of such commands no position
  exceeds the limit.
-/

namespace SimCme

open Library

namespace Exchange

/-- The position of a session towards a half, together with its open quantity there. -/
def exposure (x : Exchange) (half : BookSide) (uuid : SessionUuid) : Int :=
  half.sign * x.netPosition uuid + x.engine.openQty half uuid

/-- The order whose open quantity a step raises, and by how much. -/
def raise (x : Exchange) (op : ExchangeOp) : Option (Order × Int) :=
  (x.request op).bind x.engine.raise

/-- The position limit has room for an addition to the open quantity of an order. -/
def HasRoom (x : Exchange) : Option (Order × Int) → Prop
  | none => True
  | some (o, qty) => x.exposure o.side.bookSide o.sessionUuid + qty ≤
      x.gateway.riskManager.config.maxPositionPerSession

instance (x : Exchange) : (raised : Option (Order × Int)) → Decidable (x.HasRoom raised)
  | none => .isTrue trivial
  | some (_, _) => inferInstanceAs (Decidable (_ ≤ _))

end Exchange

/-! ## What has room keeps the exposures within the limit -/

/-- The open quantity of a session is never negative. -/
theorem FullMatchingEngine.openQty_nonneg {e : FullMatchingEngine} (hinv : EngineInv e)
    (half : BookSide) (uuid : SessionUuid) : 0 ≤ e.openQty half uuid := by
  apply Finset.sum_nonneg
  intro r _
  simp only
  split
  · rename_i hopen
    have hr := (((hinv.book_inv _).indexed _ r).mp hopen.1).1
    exact ((hinv.book_inv _).remaining_pos_of_resting hr).le
  · exact le_rfl

/-- The positions are in the filled quantities of the orders. -/
structure HeldPositions (x : Exchange) (es : List EngineEvent) : Prop where
  positions : PositionsInv x es
  filled_eq : ∀ uuid, filledPosition x.engine.heap uuid = positionIn es uuid

namespace HeldPositions

variable {x : Exchange} {es : List EngineEvent}

theorem init (mgr : InstrumentManager) (config : RiskConfig) :
    HeldPositions (.init mgr config) [] where
  positions := .init mgr config
  filled_eq _ := rfl

theorem step (hinv : HeldPositions x es) (op : ExchangeOp) :
    HeldPositions (x.outcome op).exchange (es ++ (x.outcome op).events) where
  positions := hinv.positions.step op
  filled_eq uuid :=
    ExchangeInv.law_outcome (filledPosition_engineLaw uuid) hinv.positions.exchange_inv
      (fun _ _ _ _ _ => trivial) (fun _ => hinv.filled_eq uuid) 0

/-- The exposure, from the orders alone. -/
theorem exposure_eq (hinv : HeldPositions x es) (half : BookSide) (uuid : SessionUuid) :
    x.exposure half uuid = exposure half uuid x.engine.Rests x.engine.heap := by
  rw [FullMatchingEngine.exposure_eq hinv.positions.exchange_inv.engine_inv, hinv.filled_eq,
    ← hinv.positions.position_eq]
  rfl

/-- A step raises the exposure of a session by what it adds at most. -/
theorem exposure_outcome_le (hinv : HeldPositions x es) (op : ExchangeOp) (half : BookSide)
    (uuid : SessionUuid) :
    (x.outcome op).exchange.exposure half uuid ≤
      x.exposure half uuid + addedQty half uuid (x.raise op) := by
  rw [hinv.exposure_eq, (hinv.step op).exposure_eq, Exchange.raise]
  cases hrequest : x.request op with
  | none =>
      rw [ExchangeInv.engine_of_no_request hrequest]
      exact (add_zero _).ge
  | some eop =>
      rw [ExchangeInv.engine_of_request hrequest]
      exact FullMatchingEngine.exposure_outcome_le hinv.positions.exchange_inv.engine_inv
        (hinv.positions.exchange_inv.request_fresh hrequest) half uuid

end HeldPositions

/-- What has room within the limit keeps the exposures within it. -/
theorem Exchange.exposure_add_le {x : Exchange} {raised : Option (Order × Int)}
    (hroom : x.HasRoom raised) {half : BookSide} {uuid : SessionUuid}
    (hwithin : x.exposure half uuid ≤ x.gateway.riskManager.config.maxPositionPerSession) :
    x.exposure half uuid + addedQty half uuid raised ≤
      x.gateway.riskManager.config.maxPositionPerSession := by
  cases raised with
  | none => simpa [addedQty] using hwithin
  | some raised =>
      rcases raised with ⟨o, qty⟩
      simp only [addedQty]
      split
      · rename_i howner
        have hroom : x.exposure o.side.bookSide o.sessionUuid + qty ≤ _ := hroom
        rw [howner.1, howner.2] at hroom
        omega
      · simpa using hwithin

/-- Every exposure is within the limit. -/
structure LimitInv (x : Exchange) (es : List EngineEvent) : Prop where
  held : HeldPositions x es
  within : ∀ half uuid, x.exposure half uuid ≤
    x.gateway.riskManager.config.maxPositionPerSession

namespace LimitInv

variable {x : Exchange} {es : List EngineEvent}

theorem init (mgr : InstrumentManager) {config : RiskConfig}
    (hlimit : 0 ≤ config.maxPositionPerSession) : LimitInv (.init mgr config) [] where
  held := .init mgr config
  within half uuid := by
    have hzero : (Exchange.init mgr config).exposure half uuid = half.sign * 0 + 0 := rfl
    rw [hzero, mul_zero, add_zero]
    exact hlimit

/-- A command for whose order there is room keeps every exposure within the limit. -/
theorem step (hinv : LimitInv x es) {op : ExchangeOp} (hroom : x.HasRoom (x.raise op)) :
    LimitInv (x.outcome op).exchange (es ++ (x.outcome op).events) where
  held := hinv.held.step op
  within half uuid := by
    rw [x.config_outcome]
    exact (hinv.held.exposure_outcome_le op half uuid).trans
      (Exchange.exposure_add_le hroom (hinv.within half uuid))

/-- A position is within the limit when both exposures are. -/
theorem abs_netPosition_le (hinv : LimitInv x es) (uuid : SessionUuid) :
    |x.netPosition uuid| ≤ x.gateway.riskManager.config.maxPositionPerSession := by
  have hengine := hinv.held.positions.exchange_inv.engine_inv
  have hlong := hinv.within .bid uuid
  have hshort := hinv.within .ask uuid
  have hbids := FullMatchingEngine.openQty_nonneg hengine .bid uuid
  have hasks := FullMatchingEngine.openQty_nonneg hengine .ask uuid
  simp only [Exchange.exposure, BookSide.sign] at hlong hshort
  rw [abs_le]
  omega

end LimitInv

/-- In a run in which the position limit has room for every order and every modification
when it is processed, no position ever exceeds the limit. -/
theorem netPosition_within_limit_of_run (mgr : InstrumentManager) (config : RiskConfig)
    (hlimit : 0 ≤ config.maxPositionPerSession) (ops : List ExchangeOp)
    (hadmits : Exchange.machine.Admits (fun x op => x.HasRoom (x.raise op))
      (.init mgr config) ops) (uuid : SessionUuid) :
    |(Exchange.machine.run (.init mgr config) ops).1.netPosition uuid| ≤
      config.maxPositionPerSession := by
  have hinv := Machine.history_invariant (P := fun _ x es => LimitInv x es)
    (LimitInv.init mgr hlimit) (fun _ _ _ _ hinv hroom => hinv.step hroom) ops hadmits
  have hconfig := (ExchangeInv.run mgr config ops).2
  have hle := hinv.abs_netPosition_le uuid
  rw [hconfig] at hle
  exact hle

/-- Within a limit of five, a session buys three and bids for two more. -/
theorem netPosition_within_limit_of_two_bids :
    let mgr : InstrumentManager := .single { securityId := 7, tickMantissa := 25 }
    let config : RiskConfig := { maxPositionPerSession := 5 }
    let clock : Clock := { order := fun _ => 0, report := fun _ => 0 }
    let ops : List ExchangeOp :=
      [.addInstrument 7,
        .message 1 2000000000 (.newOrderSingle
          { price := 100, orderQty := 3, securityID := 7, side := 1, ordType := 2 }),
        .message 2 2000000000 (.newOrderSingle
          { price := 100, orderQty := 3, securityID := 7, side := 2, ordType := 2 }),
        .message 1 2000000000 (.newOrderSingle
          { price := 100, orderQty := 2, securityID := 7, side := 1, ordType := 2 }),
        .processNext clock, .processNext clock, .processNext clock]
    let x := (Exchange.machine.run (.init mgr config) ops).1
    config.validate = .ok () ∧ x.netPosition 1 = 3 ∧ x.engine.openQty .bid 1 = 2 ∧
      |x.netPosition 1| ≤ 5 := by
  intro mgr config clock ops x
  refine ⟨rfl, by decide +kernel, by decide +kernel, ?_⟩
  exact netPosition_within_limit_of_run mgr config (by decide) ops (by decide +kernel) 1

/-- Over a limit of five, a session buys six. -/
theorem not_netPosition_within_limit :
    let mgr : InstrumentManager := .single { securityId := 7, tickMantissa := 25 }
    let config : RiskConfig := { maxPositionPerSession := 5 }
    let clock : Clock := { order := fun _ => 0, report := fun _ => 0 }
    let ops : List ExchangeOp :=
      [.addInstrument 7,
        .message 1 2000000000 (.newOrderSingle
          { price := 100, orderQty := 6, securityID := 7, side := 1, ordType := 2 }),
        .message 2 2000000000 (.newOrderSingle
          { price := 100, orderQty := 6, securityID := 7, side := 2, ordType := 2 }),
        .processNext clock, .processNext clock]
    config.validate = .ok () ∧ 0 ≤ config.maxPositionPerSession ∧
      ¬∀ uuid, |(Exchange.machine.run (.init mgr config) ops).1.netPosition uuid| ≤
        config.maxPositionPerSession := by
  intro mgr config clock ops
  refine ⟨rfl, by decide, ?_⟩
  intro hwithin
  have hposition : (Exchange.machine.run (.init mgr config) ops).1.netPosition 1 = 6 := by
    decide +kernel
  have hsix := hwithin 1
  rw [hposition] at hsix
  exact absurd hsix (by decide)

end SimCme
