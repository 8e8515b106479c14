import SimCme.Sbe.ILink3Codecs

/-!
# The order-entry client

The client shakes hands with a session, sends numbered requests and reads what comes
back.  Its handshake waits for two messages, so it is cut at the waits: each part takes
the message it waited for and returns what is sent next.

Main results:

- Theorem {lit}`ClientSession.processMessage_isSome`: a message is read within the
  reader's buffer, whatever it holds.
- Theorem {lit}`ClientSession.perform_numbered`: every request takes the next number.
-/

open Library

namespace SimCme

/-! ## Messages -/

/-- What a client sends. -/
inductive ClientMessage where
  | negotiate (msg : Negotiate500)
  | establish (msg : Establish503)
  | newOrderSingle (msg : NewOrderSingle514)
  | orderCancelReplaceRequest (msg : OrderCancelReplaceRequest515)
  | orderCancelRequest (msg : OrderCancelRequest516)
  | sequence (msg : Sequence506)
  | terminate (msg : Terminate507)
deriving DecidableEq, Repr

namespace ClientMessage

/-- The bytes handed to the transport. -/
def toBytes : ClientMessage → List UInt8
  | .negotiate msg => Negotiate500.format.toBytes msg
  | .establish msg => Establish503.format.toBytes msg
  | .newOrderSingle msg => NewOrderSingle514.format.toBytes msg
  | .orderCancelReplaceRequest msg => OrderCancelReplaceRequest515.format.toBytes msg
  | .orderCancelRequest msg => OrderCancelRequest516.format.toBytes msg
  | .sequence msg => Sequence506.format.toBytes msg
  | .terminate msg => Terminate507.format.toBytes msg

/-- The number of a request; other messages have none. -/
def seqNum? : ClientMessage → Option UInt32
  | .newOrderSingle msg => some msg.seqNum
  | .orderCancelReplaceRequest msg => some msg.seqNum
  | .orderCancelRequest msg => some msg.seqNum
  | _ => none

end ClientMessage

/-! ## Sessions -/

inductive ClientState where
  | disconnected
  | negotiateSent
  | negotiated
  | establishSent
  | established
  | terminated
deriving DecidableEq, Repr

structure ClientSession where
  uuid : UInt64 := 0
  nextOutSeqNo : UInt32 := 1
  nextInSeqNo : UInt32 := 1
  keepAliveIntervalMs : UInt16 := 30000
  state : ClientState := .disconnected
  nextOrderRequestID : UInt64 := 1
  nextClOrdCounter : UInt32 := 1
  /-- The client's names of the orders that are open. -/
  orderMap : UInt64 → Option (List UInt8) := fun _ => none
  ordersSent : UInt32 := 0
  ordersAccepted : UInt32 := 0
  ordersRejected : UInt32 := 0
  ordersCancelled : UInt32 := 0
  ordersModified : UInt32 := 0
  fills : UInt32 := 0

/-- The bytes of a name. -/
def nameBytes (name : String) : List UInt8 :=
  name.toUTF8.toList

/-- Read a message into a buffer, which grows when it has to. -/
def readInto (buf data : List UInt8) : List UInt8 :=
  data ++ buf.drop data.length

theorem length_le_readInto (buf data : List UInt8) : buf.length ≤ (readInto buf data).length := by
  simp only [readInto, List.length_append, List.length_drop]
  omega

/-- The buffer of the reader thread. -/
abbrev ReaderBuffer :=
  { bytes : List UInt8 // 65536 ≤ bytes.length }

def ReaderBuffer.read (payload : ReaderBuffer) (data : List UInt8) : ReaderBuffer :=
  ⟨readInto payload.1 data, le_trans payload.2 (length_le_readInto payload.1 data)⟩

/-- A request as the command loop reads it. -/
inductive ClientCommand where
  | order (side : Side) (securityID : Int32) (qty : UInt32) (price : Int64)
  | cancel (orderID : UInt64)
  | modify (orderID : UInt64) (newQty : UInt32) (newPrice : Int64)
deriving DecidableEq, Repr

namespace ClientSession

/-! ### Handshake -/

/-- The size of the handshake's buffer. -/
def handshakeBufferSize : Nat :=
  4096

def sendNegotiate (session : ClientSession) (uuid now : UInt64) :
    ClientSession × ClientMessage :=
  ({ session with uuid := uuid, state := .negotiateSent },
    .negotiate
      { uuid := uuid
        sendingTime := now
        accessKeyID := writeFixedString 20 (nameBytes "TestClient")
        session := writeFixedString 3 (nameBytes "T01")
        firm := writeFixedString 5 (nameBytes "TEST")
        cancelOnDisconnectIndicator := 1 })

def sendEstablish (session : ClientSession) (now : UInt64) : ClientSession × ClientMessage :=
  ({ session with state := .establishSent },
    .establish
      { uuid := session.uuid
        sendingTime := now
        accessKeyID := writeFixedString 20 (nameBytes "TestClient")
        session := writeFixedString 3 (nameBytes "T01")
        firm := writeFixedString 5 (nameBytes "TEST")
        keepAliveInterval := 30000
        nextSeqNo := session.nextOutSeqNo })

/-- The handshake goes on with a message of the template it waits for.  A message shorter
than its template leaves the rest to what the buffer held before. -/
def expect {σ : Type} (format : MessageFormat σ) (old : σ) (buf data : List UInt8) :
    Option σ := do
  if data.length > handshakeBufferSize then failure
  let templateId ← MessageHeader.decodeTemplateId (readInto buf data)
  if templateId ≠ format.templateId then failure
  format.decode old (readInto buf data) 0

/-- A message of the template is read, whatever the buffer held. -/
theorem expect_toBytes {σ : Type} (format : MessageFormat σ) (old msg : σ) (buf : List UInt8)
    (hroom : format.encodedLength ≤ handshakeBufferSize) :
    expect format old buf (format.toBytes msg) = some msg := by
  have htemplate : MessageHeader.decodeTemplateId (readInto buf (format.toBytes msg)) =
      some format.templateId := format.decodeTemplateId_append msg _
  have hdecode : format.decode old (readInto buf (format.toBytes msg)) 0 = some msg :=
    format.decode_append msg old [] _
  simp [expect, htemplate, hdecode, hroom]

def onNegotiationResponse (session : ClientSession) (now : UInt64) (buf data : List UInt8) :
    Option (ClientSession × ClientMessage) := do
  let _negResp ← expect NegotiationResponse501.format {} buf data
  return { session with state := .negotiated }.sendEstablish now

def onEstablishmentAck (session : ClientSession) (buf data : List UInt8) :
    Option ClientSession := do
  let estAck ← expect EstablishmentAck504.format {} buf data
  return { session with
    keepAliveIntervalMs := estAck.keepAliveInterval
    nextInSeqNo := estAck.nextSeqNo
    state := .established }

/-! ### Requests -/

/-- A request of the client under its own prefix, and the counter behind it. -/
def clOrdID (session : ClientSession) (kind : String) : FixedString 20 :=
  writeFixedString 20 (nameBytes (kind ++ toString session.nextClOrdCounter.toNat))

/-- The counters every request advances. -/
def advance (session : ClientSession) : ClientSession :=
  { session with
    nextOutSeqNo := session.nextOutSeqNo + 1
    nextOrderRequestID := session.nextOrderRequestID + 1
    nextClOrdCounter := session.nextClOrdCounter + 1 }

def sendOrder (session : ClientSession) (now : UInt64) (side : Side) (securityID : Int32)
    (qty : UInt32) (price : Int64) : ClientSession × ClientMessage :=
  ({ session.advance with ordersSent := session.ordersSent + 1 },
    .newOrderSingle
      { price := price
        orderQty := qty
        securityID := securityID
        side := side.code
        seqNum := session.nextOutSeqNo
        orderRequestID := session.nextOrderRequestID
        sendingTimeEpoch := now
        ordType := OrderType.limit.code
        timeInForce := TimeInForce.day.code
        manualOrderIndicator := 0
        displayQty := qty
        clOrdID := session.clOrdID "ORD-"
        senderID := writeFixedString 20 (nameBytes "TestClient")
        location := writeFixedString 5 (nameBytes "US,NY") })

def sendCancel (session : ClientSession) (now orderID : UInt64) :
    ClientSession × ClientMessage :=
  (session.advance,
    .orderCancelRequest
      { orderID := orderID
        seqNum := session.nextOutSeqNo
        sendingTimeEpoch := now
        orderRequestID := session.nextOrderRequestID
        side := Side.buy.code
        manualOrderIndicator := 0
        clOrdID := session.clOrdID "CXL-"
        senderID := writeFixedString 20 (nameBytes "TestClient")
        location := writeFixedString 5 (nameBytes "US,NY") })

def sendModify (session : ClientSession) (now orderID : UInt64) (newQty : UInt32)
    (newPrice : Int64) : ClientSession × ClientMessage :=
  (session.advance,
    .orderCancelReplaceRequest
      { orderID := orderID
        price := newPrice
        orderQty := newQty
        seqNum := session.nextOutSeqNo
        sendingTimeEpoch := now
        orderRequestID := session.nextOrderRequestID
        side := Side.buy.code
        ordType := OrderType.limit.code
        timeInForce := TimeInForce.day.code
        manualOrderIndicator := 0
        displayQty := newQty
        clOrdID := session.clOrdID "MOD-"
        senderID := writeFixedString 20 (nameBytes "TestClient")
        location := writeFixedString 5 (nameBytes "US,NY") })

def perform (session : ClientSession) (now : UInt64) :
    ClientCommand → ClientSession × ClientMessage
  | .order side securityID qty price => session.sendOrder now side securityID qty price
  | .cancel orderID => session.sendCancel now orderID
  | .modify orderID newQty newPrice => session.sendModify now orderID newQty newPrice

/-- Every request takes the next number, and leaves the state alone. -/
theorem perform_numbered (session : ClientSession) (now : UInt64) (command : ClientCommand) :
    (session.perform now command).2.seqNum? = some session.nextOutSeqNo ∧
      (session.perform now command).1.nextOutSeqNo = session.nextOutSeqNo + 1 ∧
      (session.perform now command).1.state = session.state := by
  cases command with
  | order side securityID qty price => exact ⟨rfl, rfl, rfl⟩
  | cancel orderID => exact ⟨rfl, rfl, rfl⟩
  | modify orderID newQty newPrice => exact ⟨rfl, rfl, rfl⟩

def sendSequenceHeartbeat (session : ClientSession) : ClientMessage :=
  .sequence
    { uuid := session.uuid
      nextSeqNo := session.nextOutSeqNo
      faultToleranceIndicator := 0
      keepAliveIntervalLapsed := 0 }

def sendTerminate (session : ClientSession) (now : UInt64) : ClientSession × ClientMessage :=
  ({ session with state := .terminated },
    .terminate
      { uuid := session.uuid
        requestTimestamp := now
        errorCodes := 0 })

/-! ### What comes back -/

/-- Process the message at the front of the reader's buffer.  Messages that are only
shown change nothing. -/
def processMessage (session : ClientSession) (payload : List UInt8) (len : Nat) :
    Option ClientSession :=
  if len < MessageHeader.layout.size then some session
  else do
    let templateId ← MessageHeader.decodeTemplateId payload
    if templateId = ExecutionReportNew522.format.templateId then
      let er ← ExecutionReportNew522.format.decode {} payload 0
      return { session with
        orderMap := fun id =>
          if id = er.orderID then some (readFixedString er.clOrdID) else session.orderMap id
        ordersAccepted := session.ordersAccepted + 1 }
    else if templateId = ExecutionReportReject523.format.templateId then
      return { session with ordersRejected := session.ordersRejected + 1 }
    else if templateId = ExecutionReportTradeOutright525.format.templateId then
      return { session with fills := session.fills + 1 }
    else if templateId = ExecutionReportCancel534.format.templateId then
      let er ← ExecutionReportCancel534.format.decode {} payload 0
      return { session with
        orderMap := fun id => if id = er.orderID then none else session.orderMap id
        ordersCancelled := session.ordersCancelled + 1 }
    else if templateId = ExecutionReportModify531.format.templateId then
      return { session with ordersModified := session.ordersModified + 1 }
    else if templateId = Terminate507.format.templateId then
      return { session with state := .terminated }
    else
      return session

/-- A message is read within the buffer, whatever it holds. -/
theorem processMessage_isSome (session : ClientSession) (payload : ReaderBuffer) (len : Nat) :
    (session.processMessage payload.1 len).isSome := by
  have hroom : 65536 ≤ payload.1.length := payload.2
  have hheader : MessageHeader.layout.size ≤ payload.1.length := le_trans (by decide) hroom
  rcases MessageHeader.decodeTemplateId_isSome hheader with ⟨templateId, htemplate⟩
  obtain ⟨new, hnew⟩ := Option.isSome_iff_exists.mp
    ((ExecutionReportNew522.format.decode_isSome {} hheader).mpr (le_trans (by decide) hroom))
  obtain ⟨cancel, hcancel⟩ := Option.isSome_iff_exists.mp
    ((ExecutionReportCancel534.format.decode_isSome {} hheader).mpr (le_trans (by decide) hroom))
  simp only [processMessage, htemplate, hnew, hcancel, Option.bind_eq_bind, Option.bind_some]
  repeat' split
  all_goals rfl

/-- A message read ends the session or leaves its state, and takes no number. -/
theorem processMessage_keeps {session session' : ClientSession} {payload : List UInt8} {len : Nat}
    (hprocessed : session.processMessage payload len = some session') :
    session'.nextOutSeqNo = session.nextOutSeqNo ∧
      (session'.state = session.state ∨ session'.state = .terminated) := by
  simp only [processMessage] at hprocessed
  split at hprocessed
  · cases hprocessed
    exact ⟨rfl, Or.inl rfl⟩
  · rcases Option.bind_eq_some_iff.mp hprocessed with ⟨templateId, -, hprocessed⟩
    repeat' split at hprocessed
    -- a New and a Cancel report are decoded first
    case isFalse.isTrue | isFalse.isFalse.isFalse.isFalse.isTrue =>
      rcases Option.bind_eq_some_iff.mp hprocessed with ⟨er, -, hprocessed⟩
      cases hprocessed
      exact ⟨rfl, Or.inl rfl⟩
    all_goals
      cases hprocessed
      first | exact ⟨rfl, Or.inl rfl⟩ | exact ⟨rfl, Or.inr rfl⟩

/-- The reader thread reads a message into its buffer and processes it there. -/
def readMessage (session : ClientSession) (payload : ReaderBuffer) (data : List UInt8) :
    ClientSession × ReaderBuffer :=
  let payload := payload.read data
  ((session.processMessage payload.1 data.length).get
    (session.processMessage_isSome payload data.length), payload)

end ClientSession

end SimCme
