import SimCme.Sbe.ILink3Messages
import SimCme.Sbe.MessageHeader

/-!
# Formats of the order-entry messages

Each message type has one table of its fields and their offsets.  The bodies of
{lit}`encode` and {lit}`decode` copy the same fields at the same offsets, one to the
buffer and the other from it, so both read this table.

Main results:

- Theorem {lit}`ilink3_roundTrips`: every codec of the schema is exact in both
  directions.
- Theorem {lit}`SbeMessage.ofBytes_toBytes`: a report is found in its bytes.
-/

open Library

namespace SimCme

/-! ## Session messages -/

def Negotiate500.format : MessageFormat Negotiate500 :=
  .ilink3 500
    { fields :=
        [ field 0 (.bytes 32) (·.hmacSignature) fun m v => { m with hmacSignature := v }
        , field 32 (.bytes 20) (·.accessKeyID) fun m v => { m with accessKeyID := v }
        , field 52 .uint64 (·.uuid) fun m v => { m with uuid := v }
        , field 60 .uint64 (·.sendingTime) fun m v => { m with sendingTime := v }
        , field 68 (.bytes 3) (·.session) fun m v => { m with session := v }
        , field 71 (.bytes 5) (·.firm) fun m v => { m with firm := v }
        , field 76 .uint8 (·.cancelOnDisconnectIndicator) fun m v =>
            { m with cancelOnDisconnectIndicator := v }
        , field 77 .uint64 (·.cancelOnRejectConID) fun m v =>
            { m with cancelOnRejectConID := v } ]
      size := 85
      tile := by decide
      restores := fun m _ => by cases m; rfl
      onto := fun _ => ⟨.mk .., rfl⟩ }

def NegotiationResponse501.format : MessageFormat NegotiationResponse501 :=
  .ilink3 501
    { fields :=
        [ field 0 .uint64 (·.uuid) fun m v => { m with uuid := v }
        , field 8 .uint64 (·.requestTimestamp) fun m v =>
            { m with requestTimestamp := v }
        , field 16 .uint16 (·.secretKeySecureIDExpiration) fun m v =>
            { m with secretKeySecureIDExpiration := v }
        , field 18 .uint8 (·.faultToleranceIndicator) fun m v =>
            { m with faultToleranceIndicator := v }
        , field 19 .uint8 (·.splitMsg) fun m v => { m with splitMsg := v }
        , field 20 .uint32 (·.previousSeqNo) fun m v => { m with previousSeqNo := v }
        , field 24 .uint64 (·.previousUUID) fun m v => { m with previousUUID := v } ]
      size := 32
      tile := by decide
      restores := fun m _ => by cases m; rfl
      onto := fun _ => ⟨.mk .., rfl⟩ }

def Establish503.format : MessageFormat Establish503 :=
  .ilink3 503
    { fields :=
        [ field 0 (.bytes 32) (·.hmacSignature) fun m v => { m with hmacSignature := v }
        , field 32 (.bytes 20) (·.accessKeyID) fun m v => { m with accessKeyID := v }
        , field 52 .uint64 (·.uuid) fun m v => { m with uuid := v }
        , field 60 .uint64 (·.sendingTime) fun m v => { m with sendingTime := v }
        , field 68 (.bytes 3) (·.session) fun m v => { m with session := v }
        , field 71 (.bytes 5) (·.firm) fun m v => { m with firm := v }
        , field 76 .uint16 (·.keepAliveInterval) fun m v =>
            { m with keepAliveInterval := v }
        , field 78 .uint32 (·.nextSeqNo) fun m v => { m with nextSeqNo := v }
        , field 82 .uint8 (·.cancelOnDisconnectIndicator) fun m v =>
            { m with cancelOnDisconnectIndicator := v } ]
      size := 83
      tile := by decide
      restores := fun m _ => by cases m; rfl
      onto := fun _ => ⟨.mk .., rfl⟩ }

def EstablishmentAck504.format : MessageFormat EstablishmentAck504 :=
  .ilink3 504
    { fields :=
        [ field 0 .uint64 (·.uuid) fun m v => { m with uuid := v }
        , field 8 .uint64 (·.requestTimestamp) fun m v =>
            { m with requestTimestamp := v }
        , field 16 .uint16 (·.keepAliveInterval) fun m v =>
            { m with keepAliveInterval := v }
        , field 18 .uint32 (·.nextSeqNo) fun m v => { m with nextSeqNo := v }
        , field 22 .uint32 (·.previousSeqNo) fun m v => { m with previousSeqNo := v }
        , field 26 .uint64 (·.previousUUID) fun m v => { m with previousUUID := v } ]
      size := 34
      tile := by decide
      restores := fun m _ => by cases m; rfl
      onto := fun _ => ⟨.mk .., rfl⟩ }

def Sequence506.format : MessageFormat Sequence506 :=
  .ilink3 506
    { fields :=
        [ field 0 .uint64 (·.uuid) fun m v => { m with uuid := v }
        , field 8 .uint32 (·.nextSeqNo) fun m v => { m with nextSeqNo := v }
        , field 12 .uint8 (·.faultToleranceIndicator) fun m v =>
            { m with faultToleranceIndicator := v }
        , field 13 .uint8 (·.keepAliveIntervalLapsed) fun m v =>
            { m with keepAliveIntervalLapsed := v } ]
      size := 14
      tile := by decide
      restores := fun m _ => by cases m; rfl
      onto := fun _ => ⟨.mk .., rfl⟩ }

def Terminate507.format : MessageFormat Terminate507 :=
  .ilink3 507
    { fields :=
        [ field 0 .uint64 (·.uuid) fun m v => { m with uuid := v }
        , field 8 .uint64 (·.requestTimestamp) fun m v =>
            { m with requestTimestamp := v }
        , field 16 .uint16 (·.errorCodes) fun m v => { m with errorCodes := v }
        , field 18 .uint8 (·.splitMsg) fun m v => { m with splitMsg := v } ]
      size := 19
      tile := by decide
      restores := fun m _ => by cases m; rfl
      onto := fun _ => ⟨.mk .., rfl⟩ }

def RetransmitRequest508.format : MessageFormat RetransmitRequest508 :=
  .ilink3 508
    { fields :=
        [ field 0 .uint64 (·.uuid) fun m v => { m with uuid := v }
        , field 8 .uint64 (·.lastUUID) fun m v => { m with lastUUID := v }
        , field 16 .uint64 (·.requestTimestamp) fun m v =>
            { m with requestTimestamp := v }
        , field 24 .uint32 (·.fromSeqNo) fun m v => { m with fromSeqNo := v }
        , field 28 .uint16 (·.msgCount) fun m v => { m with msgCount := v } ]
      size := 30
      tile := by decide
      restores := fun m _ => by cases m; rfl
      onto := fun _ => ⟨.mk .., rfl⟩ }

def Retransmission509.format : MessageFormat Retransmission509 :=
  .ilink3 509
    { fields :=
        [ field 0 .uint64 (·.uuid) fun m v => { m with uuid := v }
        , field 8 .uint64 (·.lastUUID) fun m v => { m with lastUUID := v }
        , field 16 .uint64 (·.requestTimestamp) fun m v =>
            { m with requestTimestamp := v }
        , field 24 .uint32 (·.fromSeqNo) fun m v => { m with fromSeqNo := v }
        , field 28 .uint16 (·.msgCount) fun m v => { m with msgCount := v }
        , field 30 .uint8 (·.splitMsg) fun m v => { m with splitMsg := v } ]
      size := 31
      tile := by decide
      restores := fun m _ => by cases m; rfl
      onto := fun _ => ⟨.mk .., rfl⟩ }

def NotApplied513.format : MessageFormat NotApplied513 :=
  .ilink3 513
    { fields :=
        [ field 0 .uint64 (·.uuid) fun m v => { m with uuid := v }
        , field 8 .uint32 (·.fromSeqNo) fun m v => { m with fromSeqNo := v }
        , field 12 .uint32 (·.msgCount) fun m v => { m with msgCount := v } ]
      size := 16
      tile := by decide
      restores := fun m _ => by cases m; rfl
      onto := fun _ => ⟨.mk .., rfl⟩ }

/-! ## Requests -/

def NewOrderSingle514.format : MessageFormat NewOrderSingle514 :=
  .ilink3 514
    { fields :=
        [ field 0 .int64 (·.price) fun m v => { m with price := v }
        , field 8 .uint32 (·.orderQty) fun m v => { m with orderQty := v }
        , field 12 .int32 (·.securityID) fun m v => { m with securityID := v }
        , field 16 .uint8 (·.side) fun m v => { m with side := v }
        , field 17 .uint32 (·.seqNum) fun m v => { m with seqNum := v }
        , field 21 (.bytes 20) (·.senderID) fun m v => { m with senderID := v }
        , field 41 (.bytes 20) (·.clOrdID) fun m v => { m with clOrdID := v }
        , field 61 .uint64 (·.partyDetailsListReqID) fun m v =>
            { m with partyDetailsListReqID := v }
        , field 69 .uint64 (·.orderRequestID) fun m v => { m with orderRequestID := v }
        , field 77 .uint64 (·.sendingTimeEpoch) fun m v =>
            { m with sendingTimeEpoch := v }
        , field 85 .int64 (·.stopPx) fun m v => { m with stopPx := v }
        , field 93 (.bytes 5) (·.location) fun m v => { m with location := v }
        , field 98 .uint32 (·.minQty) fun m v => { m with minQty := v }
        , field 102 .uint32 (·.displayQty) fun m v => { m with displayQty := v }
        , field 106 .uint16 (·.expireDate) fun m v => { m with expireDate := v }
        , field 108 .uint8 (·.ordType) fun m v => { m with ordType := v }
        , field 109 .uint8 (·.timeInForce) fun m v => { m with timeInForce := v }
        , field 110 .uint8 (·.manualOrderIndicator) fun m v =>
            { m with manualOrderIndicator := v }
        , field 111 .uint8 (·.execInst) fun m v => { m with execInst := v }
        , field 112 .uint8 (·.executionMode) fun m v => { m with executionMode := v }
        , field 113 .uint8 (·.liquidityFlag) fun m v => { m with liquidityFlag := v }
        , field 114 .uint8 (·.managedOrder) fun m v => { m with managedOrder := v }
        , field 115 .uint8 (·.shortSaleType) fun m v => { m with shortSaleType := v } ]
      size := 116
      tile := by decide
      restores := fun m _ => by cases m; rfl
      onto := fun _ => ⟨.mk .., rfl⟩ }

def OrderCancelReplaceRequest515.format : MessageFormat OrderCancelReplaceRequest515 :=
  .ilink3 515
    { fields :=
        [ field 0 .int64 (·.price) fun m v => { m with price := v }
        , field 8 .uint32 (·.orderQty) fun m v => { m with orderQty := v }
        , field 12 .int32 (·.securityID) fun m v => { m with securityID := v }
        , field 16 .uint8 (·.side) fun m v => { m with side := v }
        , field 17 .uint32 (·.seqNum) fun m v => { m with seqNum := v }
        , field 21 (.bytes 20) (·.senderID) fun m v => { m with senderID := v }
        , field 41 (.bytes 20) (·.clOrdID) fun m v => { m with clOrdID := v }
        , field 61 .uint64 (·.partyDetailsListReqID) fun m v =>
            { m with partyDetailsListReqID := v }
        , field 69 .uint64 (·.orderID) fun m v => { m with orderID := v }
        , field 77 .int64 (·.stopPx) fun m v => { m with stopPx := v }
        , field 85 .uint64 (·.orderRequestID) fun m v => { m with orderRequestID := v }
        , field 93 .uint64 (·.sendingTimeEpoch) fun m v =>
            { m with sendingTimeEpoch := v }
        , field 101 (.bytes 5) (·.location) fun m v => { m with location := v }
        , field 106 .uint32 (·.minQty) fun m v => { m with minQty := v }
        , field 110 .uint32 (·.displayQty) fun m v => { m with displayQty := v }
        , field 114 .uint16 (·.expireDate) fun m v => { m with expireDate := v }
        , field 116 .uint8 (·.ordType) fun m v => { m with ordType := v }
        , field 117 .uint8 (·.timeInForce) fun m v => { m with timeInForce := v }
        , field 118 .uint8 (·.manualOrderIndicator) fun m v =>
            { m with manualOrderIndicator := v }
        , field 119 .uint8 (·.ofmOverride) fun m v => { m with ofmOverride := v }
        , field 120 .uint8 (·.execInst) fun m v => { m with execInst := v }
        , field 121 .uint8 (·.executionMode) fun m v => { m with executionMode := v }
        , field 122 .uint8 (·.liquidityFlag) fun m v => { m with liquidityFlag := v }
        , field 123 .uint8 (·.managedOrder) fun m v => { m with managedOrder := v }
        , field 124 .uint8 (·.shortSaleType) fun m v => { m with shortSaleType := v } ]
      size := 125
      tile := by decide
      restores := fun m _ => by cases m; rfl
      onto := fun _ => ⟨.mk .., rfl⟩ }

def OrderCancelRequest516.format : MessageFormat OrderCancelRequest516 :=
  .ilink3 516
    { fields :=
        [ field 0 .uint64 (·.orderID) fun m v => { m with orderID := v }
        , field 8 .uint64 (·.partyDetailsListReqID) fun m v =>
            { m with partyDetailsListReqID := v }
        , field 16 .uint8 (·.manualOrderIndicator) fun m v =>
            { m with manualOrderIndicator := v }
        , field 17 .uint32 (·.seqNum) fun m v => { m with seqNum := v }
        , field 21 (.bytes 20) (·.senderID) fun m v => { m with senderID := v }
        , field 41 (.bytes 20) (·.clOrdID) fun m v => { m with clOrdID := v }
        , field 61 .int32 (·.securityID) fun m v => { m with securityID := v }
        , field 65 .uint8 (·.side) fun m v => { m with side := v }
        , field 66 .uint64 (·.orderRequestID) fun m v => { m with orderRequestID := v }
        , field 74 .uint64 (·.sendingTimeEpoch) fun m v =>
            { m with sendingTimeEpoch := v }
        , field 82 (.bytes 5) (·.location) fun m v => { m with location := v }
        , field 87 .uint8 (·.liquidityFlag) fun m v => { m with liquidityFlag := v } ]
      size := 88
      tile := by decide
      restores := fun m _ => by cases m; rfl
      onto := fun _ => ⟨.mk .., rfl⟩ }

/-! ## Reports -/

def ExecutionReportNew522.format : MessageFormat ExecutionReportNew522 :=
  .ilink3 522
    { fields :=
        [ field 0 .uint32 (·.seqNum) fun m v => { m with seqNum := v }
        , field 4 .uint64 (·.uuid) fun m v => { m with uuid := v }
        , field 12 (.bytes 40) (·.execID) fun m v => { m with execID := v }
        , field 52 (.bytes 20) (·.senderID) fun m v => { m with senderID := v }
        , field 72 (.bytes 20) (·.clOrdID) fun m v => { m with clOrdID := v }
        , field 92 .uint64 (·.partyDetailsListReqID) fun m v =>
            { m with partyDetailsListReqID := v }
        , field 100 .uint64 (·.orderID) fun m v => { m with orderID := v }
        , field 108 .int64 (·.price) fun m v => { m with price := v }
        , field 116 .int64 (·.stopPx) fun m v => { m with stopPx := v }
        , field 124 .uint64 (·.transactTime) fun m v => { m with transactTime := v }
        , field 132 .uint64 (·.sendingTimeEpoch) fun m v =>
            { m with sendingTimeEpoch := v }
        , field 140 .uint64 (·.orderRequestID) fun m v => { m with orderRequestID := v }
        , field 148 (.bytes 5) (·.location) fun m v => { m with location := v }
        , field 153 .int32 (·.securityID) fun m v => { m with securityID := v }
        , field 157 .uint32 (·.orderQty) fun m v => { m with orderQty := v }
        , field 161 .uint32 (·.minQty) fun m v => { m with minQty := v }
        , field 165 .uint32 (·.displayQty) fun m v => { m with displayQty := v }
        , field 169 .uint8 (·.ordType) fun m v => { m with ordType := v }
        , field 170 .uint8 (·.side) fun m v => { m with side := v }
        , field 171 .uint8 (·.timeInForce) fun m v => { m with timeInForce := v }
        , field 172 .uint8 (·.manualOrderIndicator) fun m v =>
            { m with manualOrderIndicator := v }
        , field 173 .uint8 (·.execInst) fun m v => { m with execInst := v }
        , field 174 .uint8 (·.executionMode) fun m v => { m with executionMode := v }
        , field 175 .uint8 (·.liquidityFlag) fun m v => { m with liquidityFlag := v }
        , field 176 .uint8 (·.managedOrder) fun m v => { m with managedOrder := v }
        , field 177 .uint8 (·.shortSaleType) fun m v => { m with shortSaleType := v }
        , field 178 .uint16 (·.expireDate) fun m v => { m with expireDate := v } ]
      size := 180
      tile := by decide
      restores := fun m _ => by cases m; rfl
      onto := fun _ => ⟨.mk .., rfl⟩ }

def ExecutionReportReject523.format : MessageFormat ExecutionReportReject523 :=
  .ilink3 523
    { fields :=
        [ field 0 .uint32 (·.seqNum) fun m v => { m with seqNum := v }
        , field 4 .uint64 (·.uuid) fun m v => { m with uuid := v }
        , field 12 (.bytes 40) (·.execID) fun m v => { m with execID := v }
        , field 52 (.bytes 20) (·.senderID) fun m v => { m with senderID := v }
        , field 72 (.bytes 20) (·.clOrdID) fun m v => { m with clOrdID := v }
        , field 92 .uint64 (·.partyDetailsListReqID) fun m v =>
            { m with partyDetailsListReqID := v }
        , field 100 .uint64 (·.orderID) fun m v => { m with orderID := v }
        , field 108 .int64 (·.price) fun m v => { m with price := v }
        , field 116 .int64 (·.stopPx) fun m v => { m with stopPx := v }
        , field 124 .uint64 (·.transactTime) fun m v => { m with transactTime := v }
        , field 132 .uint64 (·.sendingTimeEpoch) fun m v =>
            { m with sendingTimeEpoch := v }
        , field 140 .uint64 (·.orderRequestID) fun m v => { m with orderRequestID := v }
        , field 148 (.bytes 5) (·.location) fun m v => { m with location := v }
        , field 153 .int32 (·.securityID) fun m v => { m with securityID := v }
        , field 157 .uint32 (·.orderQty) fun m v => { m with orderQty := v }
        , field 161 .uint32 (·.minQty) fun m v => { m with minQty := v }
        , field 165 .uint32 (·.displayQty) fun m v => { m with displayQty := v }
        , field 169 .uint16 (·.ordRejReason) fun m v => { m with ordRejReason := v }
        , field 171 .uint8 (·.ordType) fun m v => { m with ordType := v }
        , field 172 .uint8 (·.side) fun m v => { m with side := v }
        , field 173 .uint8 (·.timeInForce) fun m v => { m with timeInForce := v }
        , field 174 .uint8 (·.manualOrderIndicator) fun m v =>
            { m with manualOrderIndicator := v }
        , field 175 .uint8 (·.execInst) fun m v => { m with execInst := v }
        , field 176 .uint8 (·.executionMode) fun m v => { m with executionMode := v }
        , field 177 .uint8 (·.liquidityFlag) fun m v => { m with liquidityFlag := v }
        , field 178 .uint8 (·.managedOrder) fun m v => { m with managedOrder := v }
        , field 179 .uint8 (·.shortSaleType) fun m v => { m with shortSaleType := v }
        , field 180 .uint8 (·.ordStatus) fun m v => { m with ordStatus := v }
        , field 181 .uint8 (·.execType) fun m v => { m with execType := v }
        , field 182 .uint16 (·.expireDate) fun m v => { m with expireDate := v } ]
      size := 184
      tile := by decide
      restores := fun m _ => by cases m; rfl
      onto := fun _ => ⟨.mk .., rfl⟩ }

def ExecutionReportElimination524.format : MessageFormat ExecutionReportElimination524 :=
  .ilink3 524
    { fields :=
        [ field 0 .uint32 (·.seqNum) fun m v => { m with seqNum := v }
        , field 4 .uint64 (·.uuid) fun m v => { m with uuid := v }
        , field 12 (.bytes 40) (·.execID) fun m v => { m with execID := v }
        , field 52 (.bytes 20) (·.senderID) fun m v => { m with senderID := v }
        , field 72 (.bytes 20) (·.clOrdID) fun m v => { m with clOrdID := v }
        , field 92 .uint64 (·.partyDetailsListReqID) fun m v =>
            { m with partyDetailsListReqID := v }
        , field 100 .uint64 (·.orderID) fun m v => { m with orderID := v }
        , field 108 .int64 (·.price) fun m v => { m with price := v }
        , field 116 .int64 (·.stopPx) fun m v => { m with stopPx := v }
        , field 124 .uint64 (·.transactTime) fun m v => { m with transactTime := v }
        , field 132 .uint64 (·.sendingTimeEpoch) fun m v =>
            { m with sendingTimeEpoch := v }
        , field 140 .uint64 (·.orderRequestID) fun m v => { m with orderRequestID := v }
        , field 148 (.bytes 5) (·.location) fun m v => { m with location := v }
        , field 153 .int32 (·.securityID) fun m v => { m with securityID := v }
        , field 157 .uint32 (·.cumQty) fun m v => { m with cumQty := v }
        , field 161 .uint32 (·.orderQty) fun m v => { m with orderQty := v }
        , field 165 .uint32 (·.minQty) fun m v => { m with minQty := v }
        , field 169 .uint32 (·.displayQty) fun m v => { m with displayQty := v }
        , field 173 .uint8 (·.ordType) fun m v => { m with ordType := v }
        , field 174 .uint8 (·.side) fun m v => { m with side := v }
        , field 175 .uint8 (·.timeInForce) fun m v => { m with timeInForce := v }
        , field 176 .uint8 (·.manualOrderIndicator) fun m v =>
            { m with manualOrderIndicator := v }
        , field 177 .uint8 (·.execInst) fun m v => { m with execInst := v }
        , field 178 .uint8 (·.executionMode) fun m v => { m with executionMode := v }
        , field 179 .uint8 (·.liquidityFlag) fun m v => { m with liquidityFlag := v }
        , field 180 .uint8 (·.managedOrder) fun m v => { m with managedOrder := v }
        , field 181 .uint8 (·.shortSaleType) fun m v => { m with shortSaleType := v }
        , field 182 .uint8 (·.ordStatus) fun m v => { m with ordStatus := v }
        , field 183 .uint8 (·.execType) fun m v => { m with execType := v }
        , field 184 .uint16 (·.expireDate) fun m v => { m with expireDate := v } ]
      size := 186
      tile := by decide
      restores := fun m _ => by cases m; rfl
      onto := fun _ => ⟨.mk .., rfl⟩ }

def ExecutionReportTradeOutright525.format : MessageFormat ExecutionReportTradeOutright525 :=
  .ilink3 525
    { fields :=
        [ field 0 .uint32 (·.seqNum) fun m v => { m with seqNum := v }
        , field 4 .uint64 (·.uuid) fun m v => { m with uuid := v }
        , field 12 (.bytes 40) (·.execID) fun m v => { m with execID := v }
        , field 52 (.bytes 20) (·.senderID) fun m v => { m with senderID := v }
        , field 72 (.bytes 20) (·.clOrdID) fun m v => { m with clOrdID := v }
        , field 92 .uint64 (·.partyDetailsListReqID) fun m v =>
            { m with partyDetailsListReqID := v }
        , field 100 .uint64 (·.orderID) fun m v => { m with orderID := v }
        , field 108 .int64 (·.price) fun m v => { m with price := v }
        , field 116 .int64 (·.stopPx) fun m v => { m with stopPx := v }
        , field 124 .uint64 (·.transactTime) fun m v => { m with transactTime := v }
        , field 132 .uint64 (·.sendingTimeEpoch) fun m v =>
            { m with sendingTimeEpoch := v }
        , field 140 .uint64 (·.orderRequestID) fun m v => { m with orderRequestID := v }
        , field 148 .uint32 (·.lastQty) fun m v => { m with lastQty := v }
        , field 152 .int64 (·.lastPx) fun m v => { m with lastPx := v }
        , field 160 (.bytes 5) (·.location) fun m v => { m with location := v }
        , field 165 .int32 (·.securityID) fun m v => { m with securityID := v }
        , field 169 .uint32 (·.orderQty) fun m v => { m with orderQty := v }
        , field 173 .uint32 (·.cumQty) fun m v => { m with cumQty := v }
        , field 177 .uint32 (·.leavesQty) fun m v => { m with leavesQty := v }
        , field 181 .uint32 (·.minQty) fun m v => { m with minQty := v }
        , field 185 .uint32 (·.displayQty) fun m v => { m with displayQty := v }
        , field 189 .uint32 (·.sideTradeID) fun m v => { m with sideTradeID := v }
        , field 193 .uint16 (·.tradeDate) fun m v => { m with tradeDate := v }
        , field 195 .uint8 (·.ordType) fun m v => { m with ordType := v }
        , field 196 .uint8 (·.side) fun m v => { m with side := v }
        , field 197 .uint8 (·.timeInForce) fun m v => { m with timeInForce := v }
        , field 198 .uint8 (·.manualOrderIndicator) fun m v =>
            { m with manualOrderIndicator := v }
        , field 199 .uint8 (·.execInst) fun m v => { m with execInst := v }
        , field 200 .uint8 (·.executionMode) fun m v => { m with executionMode := v }
        , field 201 .uint8 (·.liquidityFlag) fun m v => { m with liquidityFlag := v }
        , field 202 .uint8 (·.managedOrder) fun m v => { m with managedOrder := v }
        , field 203 .uint8 (·.shortSaleType) fun m v => { m with shortSaleType := v }
        , field 204 .uint8 (·.ordStatus) fun m v => { m with ordStatus := v }
        , field 205 .uint8 (·.execType) fun m v => { m with execType := v }
        , field 206 .uint8 (·.aggressorIndicator) fun m v =>
            { m with aggressorIndicator := v }
        , field 207 .uint16 (·.expireDate) fun m v => { m with expireDate := v }
        , field 209 .int64 (·.fillPx) fun m v => { m with fillPx := v }
        , field 217 .uint32 (·.fillQty) fun m v => { m with fillQty := v } ]
      size := 221
      tile := by decide
      restores := fun m _ => by cases m; rfl
      onto := fun _ => ⟨.mk .., rfl⟩ }

def ExecutionReportCancel534.format : MessageFormat ExecutionReportCancel534 :=
  .ilink3 534
    { fields :=
        [ field 0 .uint32 (·.seqNum) fun m v => { m with seqNum := v }
        , field 4 .uint64 (·.uuid) fun m v => { m with uuid := v }
        , field 12 (.bytes 40) (·.execID) fun m v => { m with execID := v }
        , field 52 (.bytes 20) (·.senderID) fun m v => { m with senderID := v }
        , field 72 (.bytes 20) (·.clOrdID) fun m v => { m with clOrdID := v }
        , field 92 .uint64 (·.partyDetailsListReqID) fun m v =>
            { m with partyDetailsListReqID := v }
        , field 100 .uint64 (·.orderID) fun m v => { m with orderID := v }
        , field 108 .int64 (·.price) fun m v => { m with price := v }
        , field 116 .int64 (·.stopPx) fun m v => { m with stopPx := v }
        , field 124 .uint64 (·.transactTime) fun m v => { m with transactTime := v }
        , field 132 .uint64 (·.sendingTimeEpoch) fun m v =>
            { m with sendingTimeEpoch := v }
        , field 140 .uint64 (·.orderRequestID) fun m v => { m with orderRequestID := v }
        , field 148 (.bytes 5) (·.location) fun m v => { m with location := v }
        , field 153 .int32 (·.securityID) fun m v => { m with securityID := v }
        , field 157 .uint32 (·.cumQty) fun m v => { m with cumQty := v }
        , field 161 .uint32 (·.orderQty) fun m v => { m with orderQty := v }
        , field 165 .uint32 (·.minQty) fun m v => { m with minQty := v }
        , field 169 .uint32 (·.displayQty) fun m v => { m with displayQty := v }
        , field 173 .uint8 (·.ordType) fun m v => { m with ordType := v }
        , field 174 .uint8 (·.side) fun m v => { m with side := v }
        , field 175 .uint8 (·.timeInForce) fun m v => { m with timeInForce := v }
        , field 176 .uint8 (·.manualOrderIndicator) fun m v =>
            { m with manualOrderIndicator := v }
        , field 177 .uint8 (·.execInst) fun m v => { m with execInst := v }
        , field 178 .uint8 (·.executionMode) fun m v => { m with executionMode := v }
        , field 179 .uint8 (·.liquidityFlag) fun m v => { m with liquidityFlag := v }
        , field 180 .uint8 (·.managedOrder) fun m v => { m with managedOrder := v }
        , field 181 .uint8 (·.shortSaleType) fun m v => { m with shortSaleType := v }
        , field 182 .uint8 (·.ordStatus) fun m v => { m with ordStatus := v }
        , field 183 .uint8 (·.execType) fun m v => { m with execType := v }
        , field 184 .uint16 (·.expireDate) fun m v => { m with expireDate := v } ]
      size := 186
      tile := by decide
      restores := fun m _ => by cases m; rfl
      onto := fun _ => ⟨.mk .., rfl⟩ }

def ExecutionReportModify531.format : MessageFormat ExecutionReportModify531 :=
  .ilink3 531
    { fields :=
        [ field 0 .uint32 (·.seqNum) fun m v => { m with seqNum := v }
        , field 4 .uint64 (·.uuid) fun m v => { m with uuid := v }
        , field 12 (.bytes 40) (·.execID) fun m v => { m with execID := v }
        , field 52 (.bytes 20) (·.senderID) fun m v => { m with senderID := v }
        , field 72 (.bytes 20) (·.clOrdID) fun m v => { m with clOrdID := v }
        , field 92 .uint64 (·.partyDetailsListReqID) fun m v =>
            { m with partyDetailsListReqID := v }
        , field 100 .uint64 (·.orderID) fun m v => { m with orderID := v }
        , field 108 .int64 (·.price) fun m v => { m with price := v }
        , field 116 .int64 (·.stopPx) fun m v => { m with stopPx := v }
        , field 124 .uint64 (·.transactTime) fun m v => { m with transactTime := v }
        , field 132 .uint64 (·.sendingTimeEpoch) fun m v =>
            { m with sendingTimeEpoch := v }
        , field 140 .uint64 (·.orderRequestID) fun m v => { m with orderRequestID := v }
        , field 148 (.bytes 5) (·.location) fun m v => { m with location := v }
        , field 153 .int32 (·.securityID) fun m v => { m with securityID := v }
        , field 157 .uint32 (·.cumQty) fun m v => { m with cumQty := v }
        , field 161 .uint32 (·.orderQty) fun m v => { m with orderQty := v }
        , field 165 .uint32 (·.minQty) fun m v => { m with minQty := v }
        , field 169 .uint32 (·.displayQty) fun m v => { m with displayQty := v }
        , field 173 .uint8 (·.ordType) fun m v => { m with ordType := v }
        , field 174 .uint8 (·.side) fun m v => { m with side := v }
        , field 175 .uint8 (·.timeInForce) fun m v => { m with timeInForce := v }
        , field 176 .uint8 (·.manualOrderIndicator) fun m v =>
            { m with manualOrderIndicator := v }
        , field 177 .uint8 (·.execInst) fun m v => { m with execInst := v }
        , field 178 .uint8 (·.executionMode) fun m v => { m with executionMode := v }
        , field 179 .uint8 (·.liquidityFlag) fun m v => { m with liquidityFlag := v }
        , field 180 .uint8 (·.managedOrder) fun m v => { m with managedOrder := v }
        , field 181 .uint8 (·.shortSaleType) fun m v => { m with shortSaleType := v }
        , field 182 .uint8 (·.ordStatus) fun m v => { m with ordStatus := v }
        , field 183 .uint8 (·.execType) fun m v => { m with execType := v }
        , field 184 .uint16 (·.expireDate) fun m v => { m with expireDate := v } ]
      size := 186
      tile := by decide
      restores := fun m _ => by cases m; rfl
      onto := fun _ => ⟨.mk .., rfl⟩ }

def OrderCancelReject535.format : MessageFormat OrderCancelReject535 :=
  .ilink3 535
    { fields :=
        [ field 0 .uint32 (·.seqNum) fun m v => { m with seqNum := v }
        , field 4 .uint64 (·.uuid) fun m v => { m with uuid := v }
        , field 12 (.bytes 40) (·.execID) fun m v => { m with execID := v }
        , field 52 (.bytes 20) (·.senderID) fun m v => { m with senderID := v }
        , field 72 (.bytes 20) (·.clOrdID) fun m v => { m with clOrdID := v }
        , field 92 .uint64 (·.partyDetailsListReqID) fun m v =>
            { m with partyDetailsListReqID := v }
        , field 100 .uint64 (·.orderID) fun m v => { m with orderID := v }
        , field 108 .uint64 (·.transactTime) fun m v => { m with transactTime := v }
        , field 116 .uint64 (·.sendingTimeEpoch) fun m v =>
            { m with sendingTimeEpoch := v }
        , field 124 .uint64 (·.orderRequestID) fun m v => { m with orderRequestID := v }
        , field 132 (.bytes 5) (·.location) fun m v => { m with location := v }
        , field 137 .uint16 (·.cxlRejReason) fun m v => { m with cxlRejReason := v }
        , field 139 .uint8 (·.manualOrderIndicator) fun m v =>
            { m with manualOrderIndicator := v } ]
      size := 140
      tile := by decide
      restores := fun m _ => by cases m; rfl
      onto := fun _ => ⟨.mk .., rfl⟩ }

/-! ## All formats -/

/-- The message types of the order-entry schema. -/
def ilink3Formats : List ((σ : Type) × MessageFormat σ) :=
  [ ⟨_, Negotiate500.format⟩
  , ⟨_, NegotiationResponse501.format⟩
  , ⟨_, Establish503.format⟩
  , ⟨_, EstablishmentAck504.format⟩
  , ⟨_, Sequence506.format⟩
  , ⟨_, Terminate507.format⟩
  , ⟨_, RetransmitRequest508.format⟩
  , ⟨_, Retransmission509.format⟩
  , ⟨_, NotApplied513.format⟩
  , ⟨_, NewOrderSingle514.format⟩
  , ⟨_, OrderCancelReplaceRequest515.format⟩
  , ⟨_, OrderCancelRequest516.format⟩
  , ⟨_, ExecutionReportNew522.format⟩
  , ⟨_, ExecutionReportReject523.format⟩
  , ⟨_, ExecutionReportElimination524.format⟩
  , ⟨_, ExecutionReportTradeOutright525.format⟩
  , ⟨_, ExecutionReportModify531.format⟩
  , ⟨_, ExecutionReportCancel534.format⟩
  , ⟨_, OrderCancelReject535.format⟩ ]

/-- Every codec of the schema is exact in both directions. -/
theorem ilink3_roundTrips : ∀ f ∈ ilink3Formats, f.2.RoundTrips := by
  intro f hf
  have hsizes : ilink3Formats.all (fun f => f.2.layout.size < 2 ^ 16) = true := by decide
  exact f.2.roundTrips (of_decide_eq_true (List.all_eq_true.mp hsizes f hf))

/-- An order in the middle of a buffer with other contents. -/
theorem decode_encode_newOrderSingle :
    let msg : NewOrderSingle514 := { price := 100, orderQty := 5, side := 1 }
    let written := NewOrderSingle514.format.encode msg (List.replicate 130 0xff) 3
    NewOrderSingle514.format.decode { price := 7 } written 3 = some msg :=
  (ilink3_roundTrips ⟨_, NewOrderSingle514.format⟩ (by simp [ilink3Formats])).decode_encode
    _ _ _ _ (by rw [List.length_replicate]; decide)

namespace SbeMessage

/-- The encoding of a report. -/
def toBytes : SbeMessage → List UInt8
  | .executionReportNew msg => ExecutionReportNew522.format.toBytes msg
  | .executionReportReject msg => ExecutionReportReject523.format.toBytes msg
  | .executionReportTradeOutright msg => ExecutionReportTradeOutright525.format.toBytes msg
  | .executionReportModify msg => ExecutionReportModify531.format.toBytes msg
  | .executionReportCancel msg => ExecutionReportCancel534.format.toBytes msg
  | .orderCancelReject msg => OrderCancelReject535.format.toBytes msg

/-- The report in a buffer, chosen by the template id of the header. -/
def ofBytes (data : List UInt8) : Option SbeMessage := do
  let templateId ← MessageHeader.decodeTemplateId data
  if templateId = ExecutionReportNew522.format.templateId then
    (ExecutionReportNew522.format.decode {} data 0).map .executionReportNew
  else if templateId = ExecutionReportReject523.format.templateId then
    (ExecutionReportReject523.format.decode {} data 0).map .executionReportReject
  else if templateId = ExecutionReportTradeOutright525.format.templateId then
    (ExecutionReportTradeOutright525.format.decode {} data 0).map .executionReportTradeOutright
  else if templateId = ExecutionReportModify531.format.templateId then
    (ExecutionReportModify531.format.decode {} data 0).map .executionReportModify
  else if templateId = ExecutionReportCancel534.format.templateId then
    (ExecutionReportCancel534.format.decode {} data 0).map .executionReportCancel
  else if templateId = OrderCancelReject535.format.templateId then
    (OrderCancelReject535.format.decode {} data 0).map .orderCancelReject
  else none

def seqNum : SbeMessage → UInt32
  | .executionReportNew msg => msg.seqNum
  | .executionReportReject msg => msg.seqNum
  | .executionReportTradeOutright msg => msg.seqNum
  | .executionReportModify msg => msg.seqNum
  | .executionReportCancel msg => msg.seqNum
  | .orderCancelReject msg => msg.seqNum

theorem ofBytes_toBytes (msg : SbeMessage) : ofBytes msg.toBytes = some msg := by
  cases msg <;>
    simp only [ofBytes, toBytes, MessageFormat.decodeTemplateId_toBytes, Option.bind_eq_bind,
      Option.bind_some, MessageFormat.decode_toBytes, Option.map_some, if_true]
  -- the earlier branches are those of other templates
  all_goals repeat rw [if_neg (by decide)]

end SbeMessage

end SimCme
