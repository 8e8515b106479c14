import SimCme.Engine.Order
import SimCme.Sbe.ILink3Messages

/-!
# Execution reports

Every report takes the next execution id and is stamped with one clock reading.
-/

namespace SimCme

def ordStatusToChar : OrdStatus → UInt8
  | .new => '0'.toUInt8
  | .partiallyFilled => '1'.toUInt8
  | .filled => '2'.toUInt8
  | .canceled => '4'.toUInt8
  | .replaced => '5'.toUInt8
  | .rejected => '8'.toUInt8

/-- The cast of a quantity to its wire field. -/
def wireQty (qty : Int) : UInt32 :=
  (Int32.ofInt qty).toUInt32

structure ExecReportBuilder where
  nextExecId : Nat := 1
deriving DecidableEq, Repr

namespace ExecReportBuilder

/-- The next execution id, in decimal. -/
def generateExecId (builder : ExecReportBuilder) : List UInt8 :=
  (toString builder.nextExecId).toUTF8.toList

/-- A report and the builder that goes on from it. -/
structure Built where
  message : SbeMessage
  builder : ExecReportBuilder
deriving DecidableEq, Repr

def built (builder : ExecReportBuilder) (message : SbeMessage) : Built where
  message := message
  builder := { builder with nextExecId := builder.nextExecId + 1 }

def buildExecutionReportNew (builder : ExecReportBuilder) (now : Timestamp)
    (event : OrderAccepted) (uuid : SessionUuid) : Built :=
  builder.built <| .executionReportNew
    { uuid := .ofNat uuid
      orderID := .ofNat event.orderId
      price := event.price.mantissa
      securityID := .ofInt event.securityId
      orderQty := wireQty event.quantity
      side := event.side.code
      ordType := event.orderType.code
      timeInForce := event.timeInForce.code
      transactTime := .ofNat now
      sendingTimeEpoch := .ofNat now
      execID := writeFixedString 40 builder.generateExecId
      clOrdID := writeFixedString 20 event.clOrdId }

def buildExecutionReportReject (builder : ExecReportBuilder) (now : Timestamp)
    (event : OrderRejected) (uuid : SessionUuid) : Built :=
  builder.built <| .executionReportReject
    { uuid := .ofNat uuid
      ordRejReason := .ofNat event.rejectReasonCode
      transactTime := .ofNat now
      sendingTimeEpoch := .ofNat now
      execID := writeFixedString 40 builder.generateExecId
      clOrdID := writeFixedString 20 event.clOrdId
      ordStatus := '8'.toUInt8
      execType := '8'.toUInt8 }

def buildExecutionReportFill (builder : ExecReportBuilder) (now : Timestamp)
    (event : OrderFilled) (uuid : SessionUuid) (isMaker : Bool) : Built :=
  let msg : ExecutionReportTradeOutright525 :=
    { uuid := .ofNat uuid
      securityID := .ofInt event.securityId
      price := event.tradePrice.mantissa
      lastPx := event.tradePrice.mantissa
      lastQty := wireQty event.tradeQty
      fillPx := event.tradePrice.mantissa
      fillQty := wireQty event.tradeQty
      execType := 'F'.toUInt8
      transactTime := .ofNat now
      sendingTimeEpoch := .ofNat now
      execID := writeFixedString 40 builder.generateExecId }
  builder.built <| .executionReportTradeOutright <|
    if isMaker then
      { msg with
        orderID := .ofNat event.makerOrderId
        clOrdID := writeFixedString 20 event.makerClOrdId
        cumQty := wireQty event.makerCumQty
        leavesQty := wireQty event.makerLeavesQty
        side := if event.aggressorSide = .buy then Side.sell.code else Side.buy.code
        aggressorIndicator := 0
        ordStatus := ordStatusToChar event.makerOrdStatus }
    else
      { msg with
        orderID := .ofNat event.takerOrderId
        clOrdID := writeFixedString 20 event.takerClOrdId
        cumQty := wireQty event.takerCumQty
        leavesQty := wireQty event.takerLeavesQty
        side := event.aggressorSide.code
        aggressorIndicator := 1
        ordStatus := ordStatusToChar event.takerOrdStatus }

def buildExecutionReportCancel (builder : ExecReportBuilder) (now : Timestamp)
    (event : OrderCancelled) (uuid : SessionUuid) : Built :=
  builder.built <| .executionReportCancel
    { uuid := .ofNat uuid
      orderID := .ofNat event.orderId
      securityID := .ofInt event.securityId
      cumQty := wireQty event.cumQty
      ordStatus := '4'.toUInt8
      execType := '4'.toUInt8
      transactTime := .ofNat now
      sendingTimeEpoch := .ofNat now
      execID := writeFixedString 40 builder.generateExecId
      clOrdID := writeFixedString 20 event.clOrdId }

def buildExecutionReportModify (builder : ExecReportBuilder) (now : Timestamp)
    (event : OrderModified) (uuid : SessionUuid) : Built :=
  builder.built <| .executionReportModify
    { uuid := .ofNat uuid
      orderID := .ofNat event.orderId
      securityID := .ofInt event.securityId
      price := event.newPrice.mantissa
      orderQty := wireQty event.newQty
      cumQty := wireQty event.cumQty
      ordStatus := '0'.toUInt8
      execType := '5'.toUInt8
      transactTime := .ofNat now
      sendingTimeEpoch := .ofNat now
      execID := writeFixedString 40 builder.generateExecId
      clOrdID := writeFixedString 20 event.clOrdId }

def buildOrderCancelReject (builder : ExecReportBuilder) (now : Timestamp)
    (event : OrderCancelRejected) (uuid : SessionUuid) : Built :=
  builder.built <| .orderCancelReject
    { uuid := .ofNat uuid
      orderID := .ofNat event.orderId
      cxlRejReason := .ofNat event.rejectReasonCode
      transactTime := .ofNat now
      sendingTimeEpoch := .ofNat now
      execID := writeFixedString 40 builder.generateExecId
      clOrdID := writeFixedString 20 event.clOrdId }

end ExecReportBuilder

end SimCme
