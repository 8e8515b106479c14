import SimCme.Common.Types
import SimCme.Library.Heap

/-!
# Orders, price levels and engine events

Orders are shared by pointer: the book's levels, its id index and the owner all
hold the same object.  An order therefore lives in a heap cell and everything
else holds its reference.

A price level keeps its queue as the list of references from {lit}`head_` to
{lit}`tail_`; the intrusive links of the source represent that list
({lit}`SimCme.Engine.LinkedLevel`).
-/

namespace SimCme

open Library

/-- The address of an order object. -/
abbrev OrderRef := Ref

structure Order where
  orderId : OrderId := 0
  clOrdId : ClOrdId := []
  /-- The owning session. -/
  sessionUuid : SessionUuid := 0
  securityId : SecurityId := 0
  side : Side := .buy
  orderType : OrderType := .limit
  timeInForce : TimeInForce := .day
  price : Price := default
  stopPrice : Price := default
  quantity : Int := 0
  filledQty : Int := 0
  displayQty : Int := 0
  minQty : Int := 0
  timestamp : Timestamp := 0
  status : OrdStatus := .new
  orderRequestId : Nat := 0
deriving DecidableEq, Repr, Inhabited

namespace Order

def remainingQty (o : Order) : Int :=
  o.quantity - o.filledQty

def isFullyFilled (o : Order) : Bool :=
  o.quantity ≤ o.filledQty

/-- An order is fully filled exactly when nothing remains. -/
theorem isFullyFilled_iff (o : Order) : o.isFullyFilled = true ↔ o.remainingQty ≤ 0 := by
  simp only [isFullyFilled, remainingQty, decide_eq_true_eq]
  omega

theorem not_isFullyFilled_iff (o : Order) :
    o.isFullyFilled = false ↔ 0 < o.remainingQty := by
  rw [← Bool.not_eq_true, isFullyFilled_iff]
  omega

end Order

/-! ## Price levels -/

structure PriceLevel where
  price : Price := default
  totalQuantity : Int := 0
  orderCount : Int := 0
  /-- The queued orders, oldest first. -/
  queue : List OrderRef := []
deriving DecidableEq, Repr, Inhabited

namespace PriceLevel

/-- Append an order to the queue. -/
def addOrder (level : PriceLevel) (h : Heap Order) (order : OrderRef) : PriceLevel :=
  { level with
    queue := level.queue ++ [order]
    totalQuantity := level.totalQuantity + (h.read order).remainingQty
    orderCount := level.orderCount + 1 }

/-- Unlink an order from the queue. -/
def removeOrder (level : PriceLevel) (h : Heap Order) (order : OrderRef) : PriceLevel :=
  { level with
    queue := level.queue.erase order
    totalQuantity := level.totalQuantity - (h.read order).remainingQty
    orderCount := level.orderCount - 1 }

def front (level : PriceLevel) : Option OrderRef :=
  level.queue.head?

def empty (level : PriceLevel) : Bool :=
  level.queue.isEmpty

end PriceLevel

/-! ## Trades and events -/

structure Trade where
  tradeId : Nat
  securityId : SecurityId
  price : Price
  quantity : Int
  aggressorSide : Side
  makerOrderId : OrderId
  takerOrderId : OrderId
  makerSessionUuid : SessionUuid
  takerSessionUuid : SessionUuid
  timestamp : Timestamp
deriving DecidableEq, Repr

structure OrderAccepted where
  orderId : OrderId
  clOrdId : ClOrdId
  sessionUuid : SessionUuid
  securityId : SecurityId
  side : Side
  price : Price
  quantity : Int
  orderType : OrderType
  timeInForce : TimeInForce
deriving DecidableEq, Repr

structure OrderRejected where
  clOrdId : ClOrdId
  sessionUuid : SessionUuid
  reason : String
  rejectReasonCode : Nat
deriving DecidableEq, Repr

structure OrderFilled where
  tradeId : Nat
  securityId : SecurityId
  tradePrice : Price
  tradeQty : Int
  aggressorSide : Side
  makerOrderId : OrderId
  makerClOrdId : ClOrdId
  makerSessionUuid : SessionUuid
  makerCumQty : Int
  makerLeavesQty : Int
  makerOrdStatus : OrdStatus
  takerOrderId : OrderId
  takerClOrdId : ClOrdId
  takerSessionUuid : SessionUuid
  takerCumQty : Int
  takerLeavesQty : Int
  takerOrdStatus : OrdStatus
deriving DecidableEq, Repr

structure OrderCancelled where
  orderId : OrderId
  clOrdId : ClOrdId
  sessionUuid : SessionUuid
  securityId : SecurityId
  cumQty : Int
  ordStatus : OrdStatus
deriving DecidableEq, Repr

structure OrderModified where
  orderId : OrderId
  clOrdId : ClOrdId
  sessionUuid : SessionUuid
  securityId : SecurityId
  newPrice : Price
  newQty : Int
  cumQty : Int
  leavesQty : Int
deriving DecidableEq, Repr

structure OrderCancelRejected where
  orderId : OrderId
  clOrdId : ClOrdId
  sessionUuid : SessionUuid
  rejectReasonCode : Nat
  reason : String
deriving DecidableEq, Repr

structure BookUpdate where
  securityId : SecurityId
  side : Side
  price : Price
  newQty : Int
  newOrderCount : Int
  updateAction : MDUpdateAction
  /-- Position of the level on its side, counted from 1. -/
  priceLevelIndex : Nat
  rptSeq : UInt32
deriving DecidableEq, Repr

inductive EngineEvent where
  | orderAccepted (e : OrderAccepted)
  | orderRejected (e : OrderRejected)
  | orderFilled (e : OrderFilled)
  | orderCancelled (e : OrderCancelled)
  | orderModified (e : OrderModified)
  | orderCancelRejected (e : OrderCancelRejected)
  | bookUpdate (e : BookUpdate)
deriving DecidableEq, Repr

end SimCme
