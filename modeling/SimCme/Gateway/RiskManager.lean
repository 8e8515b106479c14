import SimCme.Engine.Order

/-!
# Risk checks

The order size limit, the rate limit of each session, and the net positions that
fills add up to.  The configuration also has limits on price deviations and positions,
which no check reads.
-/

namespace SimCme

structure RiskConfig where
  maxOrderQty : Int := 10000
  maxPriceDeviationPct : Double := .finite 10
  maxOrdersPerSecond : Int := 1000
  maxPositionPerSession : Int := 50000
deriving DecidableEq, Repr

/-- The checks of {lit}`validateConfig` on the limits. -/
def RiskConfig.validate (risk : RiskConfig) : Except String Unit :=
  if risk.maxOrderQty ≤ 0 then .error "max_order_qty must be positive"
  else if risk.maxPriceDeviationPct.le (.finite 0) then
    .error "max_price_deviation_pct must be positive"
  else if risk.maxOrdersPerSecond ≤ 0 then .error "max_orders_per_second must be positive"
  else .ok ()

structure RiskResult where
  passed : Bool := true
  reason : String := ""
deriving DecidableEq, Repr

structure SessionRiskState where
  netPosition : Int := 0
  /-- Nanoseconds on the steady clock. -/
  lastOrderTime : Int := 0
  ordersThisSecond : Int := 0
deriving DecidableEq, Repr

structure RiskManager where
  config : RiskConfig := {}
  sessionState : SessionUuid → SessionRiskState := fun _ => {}

namespace RiskManager

def setState (risk : RiskManager) (sessionUuid : SessionUuid) (state : SessionRiskState) :
    RiskManager :=
  { risk with
    sessionState := fun uuid => if uuid = sessionUuid then state else risk.sessionState uuid }

def checkOrder (risk : RiskManager) (order : Order) : RiskResult :=
  if risk.config.maxOrderQty < order.quantity then
    { passed := false
      reason := "Order quantity " ++ toString order.quantity ++ " exceeds max " ++
        toString risk.config.maxOrderQty }
  else {}

/-- Count an order of a session at the steady time {lit}`now`.  A full second since
the window opened opens a new one. -/
def checkRate (risk : RiskManager) (sessionUuid : SessionUuid) (now : Int) :
    RiskResult × RiskManager :=
  let state := risk.sessionState sessionUuid
  let elapsed := (now - state.lastOrderTime).tdiv 1000000000
  if 1 ≤ elapsed then
    ({}, risk.setState sessionUuid { state with lastOrderTime := now, ordersThisSecond := 1 })
  else
    let state := { state with ordersThisSecond := state.ordersThisSecond + 1 }
    if risk.config.maxOrdersPerSecond < state.ordersThisSecond then
      ({ passed := false
         reason := "Rate limit exceeded: " ++ toString state.ordersThisSecond ++
          " orders/sec (max " ++ toString risk.config.maxOrdersPerSecond ++ ")" },
        risk.setState sessionUuid state)
    else ({}, risk.setState sessionUuid state)

def onFill (risk : RiskManager) (sessionUuid : SessionUuid) (side : Side) (qty : Int) :
    RiskManager :=
  let state := risk.sessionState sessionUuid
  risk.setState sessionUuid
    { state with
      netPosition := if side = .buy then state.netPosition + qty else state.netPosition - qty }

/-- An order passes exactly when it is not above the size limit. -/
theorem checkOrder_passed_iff (risk : RiskManager) (order : Order) :
    (risk.checkOrder order).passed = true ↔ order.quantity ≤ risk.config.maxOrderQty := by
  unfold checkOrder
  split
  · simpa
  · simpa using not_lt.mp ‹_›

/-- Counting orders changes no limit. -/
@[simp]
theorem config_checkRate (risk : RiskManager) (sessionUuid : SessionUuid) (now : Int) :
    (risk.checkRate sessionUuid now).2.config = risk.config := by
  simp only [checkRate]
  split
  · rfl
  · split <;> rfl

end RiskManager

end SimCme
