import SimCme.Engine.Order
import SimCme.Instruments.InstrumentManager

/-!
# Message validation

The checks the gateway makes on a request before it queues it, with their texts
and reject codes.

Main results:

- Theorem {lit}`validateNewOrder_valid_iff`: the new orders that pass, in one
  statement.
-/

namespace SimCme

structure ValidationResult where
  valid : Bool := true
  reason : String := ""
  rejectReason : Nat := 0
deriving DecidableEq, Repr

namespace InstrumentManager

def isValidInstrument (mgr : InstrumentManager) (id : SecurityId) : Bool :=
  (mgr.findBySecurityId id).isSome

def isValidPrice (mgr : InstrumentManager) (id : SecurityId) (price : Price) : Bool :=
  match mgr.findBySecurityId id with
  | none => false
  | some instr => instr.isValidTick price

def isValidQuantity (mgr : InstrumentManager) (id : SecurityId) (qty : Int) : Bool :=
  if qty ≤ 0 then false
  else
    match mgr.findBySecurityId id with
    | none => false
    | some instr => instr.minTradeVol ≤ qty && qty ≤ instr.maxTradeVol

end InstrumentManager

def isValidOrderType : OrderType → Bool
  | .market => true
  | .limit => true
  | .stopLimit => true
  | .stopMarket => true
  | .unlisted _ => false

def isValidTimeInForce : TimeInForce → OrderType → Bool
  | .day, _ => true
  | .gtc, _ => true
  | .gtd, _ => true
  | .ioc, type => type = .limit || type = .market
  | .fok, type => type = .limit || type = .market
  | .unlisted _, _ => false

namespace InstrumentManager

def validateNewOrder (mgr : InstrumentManager) (order : Order) : ValidationResult :=
  match mgr.findBySecurityId order.securityId with
  | none => { valid := false, reason := "Unknown instrument", rejectReason := 2 }
  | some instr =>
      if instr.tradingStatus ≠ .open ∧ instr.tradingStatus ≠ .preOpen then
        { valid := false, reason := "Instrument not available for trading", rejectReason := 16 }
      else if isValidOrderType order.orderType = false then
        { valid := false, reason := "Unsupported order type", rejectReason := 11 }
      else if isValidTimeInForce order.timeInForce order.orderType = false then
        { valid := false, reason := "Invalid TimeInForce for order type", rejectReason := 11 }
      else if (order.orderType = .limit ∨ order.orderType = .stopLimit) ∧
          mgr.isValidPrice order.securityId order.price = false then
        { valid := false, reason := "Price not on valid tick", rejectReason := 15 }
      else if mgr.isValidQuantity order.securityId order.quantity = false then
        { valid := false, reason := "Quantity outside allowed range", rejectReason := 13 }
      else {}

def validateCancel (mgr : InstrumentManager) (orderId : OrderId) (securityId : SecurityId) :
    ValidationResult :=
  if orderId = 0 then
    { valid := false, reason := "OrderId required for cancel", rejectReason := 99 }
  else if mgr.isValidInstrument securityId = false then
    { valid := false, reason := "Unknown instrument", rejectReason := 2 }
  else {}

def validateModify (mgr : InstrumentManager) (orderId : OrderId) (securityId : SecurityId)
    (newPrice : Price) (newQty : Int) : ValidationResult :=
  if orderId = 0 then
    { valid := false, reason := "OrderId required for modify", rejectReason := 99 }
  else if mgr.isValidInstrument securityId = false then
    { valid := false, reason := "Unknown instrument", rejectReason := 2 }
  else if newPrice.isNull = false ∧ mgr.isValidPrice securityId newPrice = false then
    { valid := false, reason := "New price not on valid tick", rejectReason := 15 }
  else if 0 < newQty ∧ mgr.isValidQuantity securityId newQty = false then
    { valid := false, reason := "New quantity outside allowed range", rejectReason := 13 }
  else {}

end InstrumentManager

/-- What validation makes sure of for a new order on its instrument. -/
structure ValidOrder (instr : Instrument) (order : Order) : Prop where
  status_open : instr.tradingStatus = .open ∨ instr.tradingStatus = .preOpen
  order_type : isValidOrderType order.orderType = true
  time_in_force : isValidTimeInForce order.timeInForce order.orderType = true
  on_tick : order.orderType = .limit ∨ order.orderType = .stopLimit →
    instr.isValidTick order.price = true
  quantity_pos : 0 < order.quantity
  min_le : instr.minTradeVol ≤ order.quantity
  le_max : order.quantity ≤ instr.maxTradeVol

theorem InstrumentManager.isValidQuantity_iff {mgr : InstrumentManager} {id : SecurityId}
    {instr : Instrument} (hfind : mgr.findBySecurityId id = some instr) (qty : Int) :
    mgr.isValidQuantity id qty = true ↔
      0 < qty ∧ instr.minTradeVol ≤ qty ∧ qty ≤ instr.maxTradeVol := by
  unfold InstrumentManager.isValidQuantity
  by_cases hle : qty ≤ 0
  · simp [hle, not_lt.mpr hle]
  · simp [hle, hfind, not_le.mp hle]

/-- A new order passes exactly when it is valid on the instrument it names. -/
theorem validateNewOrder_valid_iff (mgr : InstrumentManager) (order : Order) :
    (mgr.validateNewOrder order).valid = true ↔
      ∃ instr, mgr.findBySecurityId order.securityId = some instr ∧ ValidOrder instr order := by
  unfold InstrumentManager.validateNewOrder
  cases hfind : mgr.findBySecurityId order.securityId with
  | none => simp
  | some instr =>
      have hqty := InstrumentManager.isValidQuantity_iff hfind order.quantity
      have htick : mgr.isValidPrice order.securityId order.price =
          instr.isValidTick order.price := by
        simp [InstrumentManager.isValidPrice, hfind]
      simp only [htick, Option.some.injEq]
      constructor
      · intro hvalid
        refine ⟨instr, rfl, ?_⟩
        split at hvalid
        · contradiction
        · split at hvalid
          · contradiction
          · split at hvalid
            · contradiction
            · split at hvalid
              · contradiction
              · split at hvalid
                · contradiction
                · rename_i hstatus htype htif hprice hquantity
                  have hbounds := hqty.mp (Bool.not_eq_false _ ▸ hquantity)
                  exact
                    { status_open := by
                        by_contra hclosed
                        exact hstatus (not_or.mp hclosed)
                      order_type := Bool.not_eq_false _ ▸ htype
                      time_in_force := Bool.not_eq_false _ ▸ htif
                      on_tick := fun hlimit => by
                        by_contra hoff
                        exact hprice ⟨hlimit, Bool.not_eq_true _ ▸ hoff⟩
                      quantity_pos := hbounds.1
                      min_le := hbounds.2.1
                      le_max := hbounds.2.2 }
      · rintro ⟨_, rfl, hvalid⟩
        have hquantity := hqty.mpr ⟨hvalid.quantity_pos, hvalid.min_le, hvalid.le_max⟩
        have hprice : ¬((order.orderType = .limit ∨ order.orderType = .stopLimit) ∧
            instr.isValidTick order.price = false) := by
          rintro ⟨hlimit, hoff⟩
          rw [hvalid.on_tick hlimit] at hoff
          contradiction
        rw [if_neg (not_and_or.mpr (hvalid.status_open.imp not_not.mpr not_not.mpr)),
          if_neg (by simp [hvalid.order_type]), if_neg (by simp [hvalid.time_in_force]),
          if_neg hprice, if_neg (by simp [hquantity])]

end SimCme
