import SimCme.Common.Types

/-!
# Order-entry messages

The messages of the order-entry protocol, as the codecs hand them to the sessions
and the gateway and take them from these.  Fields have the widths of the wire
format and the defaults of the source.
-/

namespace SimCme

/-- A zero-padded character array. -/
abbrev FixedString (len : Nat) := Vector UInt8 len

/-- Copy a string up to its terminator into a zero-padded field. -/
def writeFixedString (len : Nat) (src : List UInt8) : FixedString len :=
  Vector.ofFn fun i => (src.takeWhile (· ≠ 0)).getD i 0

/-- The string in a field: its bytes up to the first zero. -/
def readFixedString {len : Nat} (src : FixedString len) : List UInt8 :=
  src.toList.takeWhile (· ≠ 0)

/-! ## Session messages -/

structure Negotiate500 where
  hmacSignature : FixedString 32 := .replicate 32 0
  accessKeyID : FixedString 20 := .replicate 20 0
  uuid : UInt64 := 0
  sendingTime : UInt64 := 0
  session : FixedString 3 := .replicate 3 0
  firm : FixedString 5 := .replicate 5 0
  cancelOnDisconnectIndicator : UInt8 := 0
  cancelOnRejectConID : UInt64 := 0
deriving DecidableEq, Repr

structure NegotiationResponse501 where
  uuid : UInt64 := 0
  requestTimestamp : UInt64 := 0
  secretKeySecureIDExpiration : UInt16 := 0
  faultToleranceIndicator : UInt8 := 0
  splitMsg : UInt8 := 0
  previousSeqNo : UInt32 := 0
  previousUUID : UInt64 := 0
deriving DecidableEq, Repr

structure Establish503 where
  hmacSignature : FixedString 32 := .replicate 32 0
  accessKeyID : FixedString 20 := .replicate 20 0
  uuid : UInt64 := 0
  sendingTime : UInt64 := 0
  session : FixedString 3 := .replicate 3 0
  firm : FixedString 5 := .replicate 5 0
  keepAliveInterval : UInt16 := 0
  nextSeqNo : UInt32 := 0
  cancelOnDisconnectIndicator : UInt8 := 0
deriving DecidableEq, Repr

structure EstablishmentAck504 where
  uuid : UInt64 := 0
  requestTimestamp : UInt64 := 0
  keepAliveInterval : UInt16 := 0
  nextSeqNo : UInt32 := 0
  previousSeqNo : UInt32 := 0
  previousUUID : UInt64 := 0
deriving DecidableEq, Repr

structure Sequence506 where
  uuid : UInt64 := 0
  nextSeqNo : UInt32 := 0
  faultToleranceIndicator : UInt8 := 0
  keepAliveIntervalLapsed : UInt8 := 0
deriving DecidableEq, Repr

structure Terminate507 where
  uuid : UInt64 := 0
  requestTimestamp : UInt64 := 0
  errorCodes : UInt16 := 0
  splitMsg : UInt8 := 0
deriving DecidableEq, Repr

structure RetransmitRequest508 where
  uuid : UInt64 := 0
  lastUUID : UInt64 := 0
  requestTimestamp : UInt64 := 0
  fromSeqNo : UInt32 := 0
  msgCount : UInt16 := 0
deriving DecidableEq, Repr

structure Retransmission509 where
  uuid : UInt64 := 0
  lastUUID : UInt64 := 0
  requestTimestamp : UInt64 := 0
  fromSeqNo : UInt32 := 0
  msgCount : UInt16 := 0
  splitMsg : UInt8 := 0
deriving DecidableEq, Repr

structure NotApplied513 where
  uuid : UInt64 := 0
  fromSeqNo : UInt32 := 0
  msgCount : UInt32 := 0
deriving DecidableEq, Repr

/-! ## Requests -/

structure NewOrderSingle514 where
  price : Int64 := 0
  orderQty : UInt32 := 0
  securityID : Int32 := 0
  side : UInt8 := 0
  seqNum : UInt32 := 0
  senderID : FixedString 20 := .replicate 20 0
  clOrdID : FixedString 20 := .replicate 20 0
  partyDetailsListReqID : UInt64 := 0
  orderRequestID : UInt64 := 0
  sendingTimeEpoch : UInt64 := 0
  stopPx : Int64 := 0
  location : FixedString 5 := .replicate 5 0
  minQty : UInt32 := 0
  displayQty : UInt32 := 0
  expireDate : UInt16 := 0
  ordType : UInt8 := 0
  timeInForce : UInt8 := 0
  manualOrderIndicator : UInt8 := 0
  execInst : UInt8 := 0
  executionMode : UInt8 := 0
  liquidityFlag : UInt8 := 0
  managedOrder : UInt8 := 0
  shortSaleType : UInt8 := 0
deriving DecidableEq, Repr

structure OrderCancelReplaceRequest515 where
  price : Int64 := 0
  orderQty : UInt32 := 0
  securityID : Int32 := 0
  side : UInt8 := 0
  seqNum : UInt32 := 0
  senderID : FixedString 20 := .replicate 20 0
  clOrdID : FixedString 20 := .replicate 20 0
  partyDetailsListReqID : UInt64 := 0
  orderID : UInt64 := 0
  stopPx : Int64 := 0
  orderRequestID : UInt64 := 0
  sendingTimeEpoch : UInt64 := 0
  location : FixedString 5 := .replicate 5 0
  minQty : UInt32 := 0
  displayQty : UInt32 := 0
  expireDate : UInt16 := 0
  ordType : UInt8 := 0
  timeInForce : UInt8 := 0
  manualOrderIndicator : UInt8 := 0
  ofmOverride : UInt8 := 0
  execInst : UInt8 := 0
  executionMode : UInt8 := 0
  liquidityFlag : UInt8 := 0
  managedOrder : UInt8 := 0
  shortSaleType : UInt8 := 0
deriving DecidableEq, Repr

structure OrderCancelRequest516 where
  orderID : UInt64 := 0
  partyDetailsListReqID : UInt64 := 0
  manualOrderIndicator : UInt8 := 0
  seqNum : UInt32 := 0
  senderID : FixedString 20 := .replicate 20 0
  clOrdID : FixedString 20 := .replicate 20 0
  securityID : Int32 := 0
  side : UInt8 := 0
  orderRequestID : UInt64 := 0
  sendingTimeEpoch : UInt64 := 0
  location : FixedString 5 := .replicate 5 0
  liquidityFlag : UInt8 := 0
deriving DecidableEq, Repr

/-- What a session hands to the gateway: a template id and a message. -/
inductive ApplicationMessage where
  | newOrderSingle (msg : NewOrderSingle514)
  | orderCancelReplaceRequest (msg : OrderCancelReplaceRequest515)
  | orderCancelRequest (msg : OrderCancelRequest516)
  | other (templateId : UInt16)
deriving DecidableEq, Repr

/-! ## Reports -/

structure ExecutionReportNew522 where
  seqNum : UInt32 := 0
  uuid : UInt64 := 0
  execID : FixedString 40 := .replicate 40 0
  senderID : FixedString 20 := .replicate 20 0
  clOrdID : FixedString 20 := .replicate 20 0
  partyDetailsListReqID : UInt64 := 0
  orderID : UInt64 := 0
  price : Int64 := 0
  stopPx : Int64 := 0
  transactTime : UInt64 := 0
  sendingTimeEpoch : UInt64 := 0
  orderRequestID : UInt64 := 0
  location : FixedString 5 := .replicate 5 0
  securityID : Int32 := 0
  orderQty : UInt32 := 0
  minQty : UInt32 := 0
  displayQty : UInt32 := 0
  ordType : UInt8 := 0
  side : UInt8 := 0
  timeInForce : UInt8 := 0
  manualOrderIndicator : UInt8 := 0
  execInst : UInt8 := 0
  executionMode : UInt8 := 0
  liquidityFlag : UInt8 := 0
  managedOrder : UInt8 := 0
  shortSaleType : UInt8 := 0
  expireDate : UInt16 := 0
deriving DecidableEq, Repr

structure ExecutionReportReject523 where
  seqNum : UInt32 := 0
  uuid : UInt64 := 0
  execID : FixedString 40 := .replicate 40 0
  senderID : FixedString 20 := .replicate 20 0
  clOrdID : FixedString 20 := .replicate 20 0
  partyDetailsListReqID : UInt64 := 0
  orderID : UInt64 := 0
  price : Int64 := 0
  stopPx : Int64 := 0
  transactTime : UInt64 := 0
  sendingTimeEpoch : UInt64 := 0
  orderRequestID : UInt64 := 0
  location : FixedString 5 := .replicate 5 0
  securityID : Int32 := 0
  orderQty : UInt32 := 0
  minQty : UInt32 := 0
  displayQty : UInt32 := 0
  ordRejReason : UInt16 := 0
  ordType : UInt8 := 0
  side : UInt8 := 0
  timeInForce : UInt8 := 0
  manualOrderIndicator : UInt8 := 0
  execInst : UInt8 := 0
  executionMode : UInt8 := 0
  liquidityFlag : UInt8 := 0
  managedOrder : UInt8 := 0
  shortSaleType : UInt8 := 0
  ordStatus : UInt8 := '8'.toUInt8
  execType : UInt8 := '8'.toUInt8
  expireDate : UInt16 := 0
deriving DecidableEq, Repr

structure ExecutionReportElimination524 where
  seqNum : UInt32 := 0
  uuid : UInt64 := 0
  execID : FixedString 40 := .replicate 40 0
  senderID : FixedString 20 := .replicate 20 0
  clOrdID : FixedString 20 := .replicate 20 0
  partyDetailsListReqID : UInt64 := 0
  orderID : UInt64 := 0
  price : Int64 := 0
  stopPx : Int64 := 0
  transactTime : UInt64 := 0
  sendingTimeEpoch : UInt64 := 0
  orderRequestID : UInt64 := 0
  location : FixedString 5 := .replicate 5 0
  securityID : Int32 := 0
  cumQty : UInt32 := 0
  orderQty : UInt32 := 0
  minQty : UInt32 := 0
  displayQty : UInt32 := 0
  ordType : UInt8 := 0
  side : UInt8 := 0
  timeInForce : UInt8 := 0
  manualOrderIndicator : UInt8 := 0
  execInst : UInt8 := 0
  executionMode : UInt8 := 0
  liquidityFlag : UInt8 := 0
  managedOrder : UInt8 := 0
  shortSaleType : UInt8 := 0
  ordStatus : UInt8 := 'C'.toUInt8
  execType : UInt8 := 'C'.toUInt8
  expireDate : UInt16 := 0
deriving DecidableEq, Repr

structure ExecutionReportTradeOutright525 where
  seqNum : UInt32 := 0
  uuid : UInt64 := 0
  execID : FixedString 40 := .replicate 40 0
  senderID : FixedString 20 := .replicate 20 0
  clOrdID : FixedString 20 := .replicate 20 0
  partyDetailsListReqID : UInt64 := 0
  orderID : UInt64 := 0
  price : Int64 := 0
  stopPx : Int64 := 0
  transactTime : UInt64 := 0
  sendingTimeEpoch : UInt64 := 0
  orderRequestID : UInt64 := 0
  lastQty : UInt32 := 0
  lastPx : Int64 := 0
  location : FixedString 5 := .replicate 5 0
  securityID : Int32 := 0
  orderQty : UInt32 := 0
  cumQty : UInt32 := 0
  leavesQty : UInt32 := 0
  minQty : UInt32 := 0
  displayQty : UInt32 := 0
  sideTradeID : UInt32 := 0
  tradeDate : UInt16 := 0
  ordType : UInt8 := 0
  side : UInt8 := 0
  timeInForce : UInt8 := 0
  manualOrderIndicator : UInt8 := 0
  execInst : UInt8 := 0
  executionMode : UInt8 := 0
  liquidityFlag : UInt8 := 0
  managedOrder : UInt8 := 0
  shortSaleType : UInt8 := 0
  ordStatus : UInt8 := '0'.toUInt8
  execType : UInt8 := 'F'.toUInt8
  aggressorIndicator : UInt8 := 0
  expireDate : UInt16 := 0
  fillPx : Int64 := 0
  fillQty : UInt32 := 0
deriving DecidableEq, Repr

structure ExecutionReportModify531 where
  seqNum : UInt32 := 0
  uuid : UInt64 := 0
  execID : FixedString 40 := .replicate 40 0
  senderID : FixedString 20 := .replicate 20 0
  clOrdID : FixedString 20 := .replicate 20 0
  partyDetailsListReqID : UInt64 := 0
  orderID : UInt64 := 0
  price : Int64 := 0
  stopPx : Int64 := 0
  transactTime : UInt64 := 0
  sendingTimeEpoch : UInt64 := 0
  orderRequestID : UInt64 := 0
  location : FixedString 5 := .replicate 5 0
  securityID : Int32 := 0
  cumQty : UInt32 := 0
  orderQty : UInt32 := 0
  minQty : UInt32 := 0
  displayQty : UInt32 := 0
  ordType : UInt8 := 0
  side : UInt8 := 0
  timeInForce : UInt8 := 0
  manualOrderIndicator : UInt8 := 0
  execInst : UInt8 := 0
  executionMode : UInt8 := 0
  liquidityFlag : UInt8 := 0
  managedOrder : UInt8 := 0
  shortSaleType : UInt8 := 0
  ordStatus : UInt8 := '0'.toUInt8
  execType : UInt8 := '5'.toUInt8
  expireDate : UInt16 := 0
deriving DecidableEq, Repr

structure ExecutionReportCancel534 where
  seqNum : UInt32 := 0
  uuid : UInt64 := 0
  execID : FixedString 40 := .replicate 40 0
  senderID : FixedString 20 := .replicate 20 0
  clOrdID : FixedString 20 := .replicate 20 0
  partyDetailsListReqID : UInt64 := 0
  orderID : UInt64 := 0
  price : Int64 := 0
  stopPx : Int64 := 0
  transactTime : UInt64 := 0
  sendingTimeEpoch : UInt64 := 0
  orderRequestID : UInt64 := 0
  location : FixedString 5 := .replicate 5 0
  securityID : Int32 := 0
  cumQty : UInt32 := 0
  orderQty : UInt32 := 0
  minQty : UInt32 := 0
  displayQty : UInt32 := 0
  ordType : UInt8 := 0
  side : UInt8 := 0
  timeInForce : UInt8 := 0
  manualOrderIndicator : UInt8 := 0
  execInst : UInt8 := 0
  executionMode : UInt8 := 0
  liquidityFlag : UInt8 := 0
  managedOrder : UInt8 := 0
  shortSaleType : UInt8 := 0
  ordStatus : UInt8 := '4'.toUInt8
  execType : UInt8 := '4'.toUInt8
  expireDate : UInt16 := 0
deriving DecidableEq, Repr

structure OrderCancelReject535 where
  seqNum : UInt32 := 0
  uuid : UInt64 := 0
  execID : FixedString 40 := .replicate 40 0
  senderID : FixedString 20 := .replicate 20 0
  clOrdID : FixedString 20 := .replicate 20 0
  partyDetailsListReqID : UInt64 := 0
  orderID : UInt64 := 0
  transactTime : UInt64 := 0
  sendingTimeEpoch : UInt64 := 0
  orderRequestID : UInt64 := 0
  location : FixedString 5 := .replicate 5 0
  cxlRejReason : UInt16 := 0
  manualOrderIndicator : UInt8 := 0
deriving DecidableEq, Repr

/-- The messages the gateway sends. -/
inductive SbeMessage where
  | executionReportNew (msg : ExecutionReportNew522)
  | executionReportReject (msg : ExecutionReportReject523)
  | executionReportTradeOutright (msg : ExecutionReportTradeOutright525)
  | executionReportModify (msg : ExecutionReportModify531)
  | executionReportCancel (msg : ExecutionReportCancel534)
  | orderCancelReject (msg : OrderCancelReject535)
deriving DecidableEq, Repr

end SimCme
