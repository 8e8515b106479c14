import SimCme.Fixp.RetransmitBuffer
import SimCme.Library.Machine
import SimCme.Sbe.ILink3Codecs

/-!
# Sessions

A session follows one connection through the handshake, numbers the application
messages in both directions, keeps the connection alive and ends it.  A call
returns the new session together with what it sends and what it hands to the
gateway, in order.  A call that would read past the end of its message has no
result.
-/

open Library

namespace SimCme

/-! ## Signatures -/

/-- The HMAC-SHA256 of the cryptographic library, and whether the library was
there when the program was built. -/
structure HmacAuthenticator where
  hasOpenssl : Bool
  hmac : (key data : List UInt8) → Option (FixedString 32)

namespace HmacAuthenticator

def computeHmac (auth : HmacAuthenticator) (key data : List UInt8) : FixedString 32 :=
  if auth.hasOpenssl then (auth.hmac key data).getD (.replicate 32 0)
  else .replicate 32 0

/-- Compare a signature with the computed one, byte by byte and to the end. -/
def verify (auth : HmacAuthenticator) (key data expectedSignature : List UInt8) : Bool :=
  if auth.hasOpenssl then
    let diff := (List.range 32).foldl (fun diff i =>
      diff ||| ((auth.computeHmac key data).toList.getD i 0 ^^^ expectedSignature.getD i 0)) 0
    diff == 0
  else true

end HmacAuthenticator

/-! ## State and effects -/

inductive SessionState where
  | connected
  | negotiated
  | established
  | terminated
deriving DecidableEq, Repr

structure Session where
  uuid : UInt64
  state : SessionState := .connected
  nextInSeq : UInt32 := 1
  nextOutSeq : UInt32 := 1
  keepAliveIntervalMs : UInt32 := 30000
  lastReceived : Int
  lastSent : Int
  hmacEnabled : Bool := false
  hmacKey : List UInt8 := []
  retransmitBuffer : RetransmitBuffer := {}

/-- The clock readings of one call, in nanoseconds: the monotonic clock on entry,
when an Establish is accepted and after the last message sent, and the wall clock
for a Terminate. -/
structure SessionClock where
  now : Int
  established : Int
  sent : Int
  nanos : UInt64
deriving DecidableEq, Repr

/-- What a session sends.  An application message comes with the number it is kept
under, on its first sending and when it is sent again. -/
inductive Outbound where
  | negotiationResponse (msg : NegotiationResponse501)
  | establishmentAck (msg : EstablishmentAck504)
  | sequence (msg : Sequence506)
  | terminate (msg : Terminate507)
  | notApplied (msg : NotApplied513)
  | retransmission (msg : Retransmission509)
  | application (seqNum : UInt32) (sbeData : List UInt8)
  | retransmitted (seqNum : UInt32) (sbeData : List UInt8)
deriving DecidableEq, Repr

/-- The bytes handed to the transport. -/
def Outbound.toBytes : Outbound → List UInt8
  | .negotiationResponse msg => NegotiationResponse501.format.toBytes msg
  | .establishmentAck msg => EstablishmentAck504.format.toBytes msg
  | .sequence msg => Sequence506.format.toBytes msg
  | .terminate msg => Terminate507.format.toBytes msg
  | .notApplied msg => NotApplied513.format.toBytes msg
  | .retransmission msg => Retransmission509.format.toBytes msg
  | .application _ sbeData => sbeData
  | .retransmitted _ sbeData => sbeData

inductive SessionEffect where
  | send (msg : Outbound)
  /-- The application callback. -/
  | forward (uuid : UInt64) (templateId : UInt16) (data : List UInt8)
deriving DecidableEq, Repr

/-- How a session tells the incoming messages apart. -/
inductive InboundTemplate where
  | negotiate
  | establish
  | sequence
  | terminate
  | retransmitRequest
  | application (templateId : UInt16)
  | unknown
deriving DecidableEq, Repr

def InboundTemplate.ofId (templateId : UInt16) : InboundTemplate :=
  if templateId = Negotiate500.format.templateId then .negotiate
  else if templateId = Establish503.format.templateId then .establish
  else if templateId = Sequence506.format.templateId then .sequence
  else if templateId = Terminate507.format.templateId then .terminate
  else if templateId = RetransmitRequest508.format.templateId then .retransmitRequest
  else if templateId ≥ 514 then .application templateId
  else .unknown

namespace Session

/-- The result of a call: the session it leaves and its effects. -/
abbrev Outcome := Session × List SessionEffect

def setHmacKey (s : Session) (key : List UInt8) : Session :=
  { s with hmacKey := key }

def setHmacEnabled (s : Session) (enabled : Bool) : Session :=
  { s with hmacEnabled := enabled }

/-! ## Sending -/

def sendFramedMessage (s : Session) (clock : SessionClock) (msg : Outbound) : Outcome :=
  ({ s with lastSent := clock.sent }, [.send msg])

def sendNegotiationResponse (s : Session) (clock : SessionClock) (requestTimestamp : UInt64) :
    Outcome :=
  s.sendFramedMessage clock <| .negotiationResponse
    { uuid := s.uuid
      requestTimestamp := requestTimestamp
      secretKeySecureIDExpiration := 0
      faultToleranceIndicator := 0
      splitMsg := 0
      previousSeqNo := 0
      previousUUID := 0 }

def sendEstablishmentAck (s : Session) (clock : SessionClock) (requestTimestamp : UInt64)
    (keepAliveInterval : UInt16) : Outcome :=
  s.sendFramedMessage clock <| .establishmentAck
    { uuid := s.uuid
      requestTimestamp := requestTimestamp
      keepAliveInterval := keepAliveInterval
      nextSeqNo := s.nextOutSeq
      previousSeqNo := 0
      previousUUID := 0 }

def sendSequenceHeartbeat (s : Session) (clock : SessionClock) : Outcome :=
  s.sendFramedMessage clock <| .sequence
    { uuid := s.uuid
      nextSeqNo := s.nextOutSeq
      faultToleranceIndicator := 0
      keepAliveIntervalLapsed := 0 }

def sendTerminate (s : Session) (clock : SessionClock) (errorCode : UInt16) : Outcome :=
  s.sendFramedMessage clock <| .terminate
    { uuid := s.uuid
      requestTimestamp := clock.nanos
      errorCodes := errorCode
      splitMsg := 0 }

def sendNotApplied (s : Session) (clock : SessionClock) (fromSeq msgCount : UInt32) : Outcome :=
  s.sendFramedMessage clock <| .notApplied
    { uuid := s.uuid
      fromSeqNo := fromSeq
      msgCount := msgCount }

def sendRetransmission (s : Session) (clock : SessionClock) (lastUUID requestTimestamp : UInt64)
    (fromSeq : UInt32) (msgCount : UInt16) : Outcome :=
  s.sendFramedMessage clock <| .retransmission
    { uuid := s.uuid
      lastUUID := lastUUID
      requestTimestamp := requestTimestamp
      fromSeqNo := fromSeq
      msgCount := msgCount
      splitMsg := 0 }

def terminate (s : Session) (clock : SessionClock) (errorCode : UInt16) : Outcome :=
  if s.state = .terminated then (s, [])
  else
    let (s, effects) := s.sendTerminate clock errorCode
    ({ s with state := .terminated }, effects)

def sendApplicationMessage (s : Session) (clock : SessionClock) (sbeData : List UInt8) : Outcome :=
  if s.state ≠ .established then (s, [])
  else
    let seqNum := s.nextOutSeq
    let s :=
      { s with
        retransmitBuffer := s.retransmitBuffer.store seqNum sbeData
        nextOutSeq := seqNum + 1 }
    s.sendFramedMessage clock (.application seqNum sbeData)

/-- Whole milliseconds between two readings of the monotonic clock. -/
def millisecondsSince (earlier now : Int) : Int :=
  (now - earlier).tdiv 1000000

def onTimer (s : Session) (clock : SessionClock) : Outcome :=
  if s.state ≠ .established then (s, [])
  else
    let sinceSent := millisecondsSince s.lastSent clock.now
    let sinceRecv := millisecondsSince s.lastReceived clock.now
    let (s, heartbeat) :=
      if sinceSent ≥ s.keepAliveIntervalMs.toNat then s.sendSequenceHeartbeat clock
      else (s, [])
    let (s, timeout) :=
      if sinceRecv ≥ s.keepAliveIntervalMs.toNat * 2 then s.terminate clock 1
      else (s, [])
    (s, heartbeat ++ timeout)

/-! ## Message handlers -/

/-- The length of the signed part of a message, in the arithmetic of
{lit}`size_t`. -/
def hmacDataLen (len : Nat) : Nat :=
  (UInt64.ofNat len - 8 - 32).toNat

/-- Check the signature at the start of the body against the rest of it. -/
def verifyHmac (auth : HmacAuthenticator) (s : Session) (data : List UInt8) :
    Option Bool :=
  if s.hmacEnabled then do
    let signature ← readAt data 8 32
    let hmacData ← readAt data (8 + 32) (hmacDataLen data.length)
    return auth.verify s.hmacKey hmacData signature
  else
    some true

def handleNegotiate (auth : HmacAuthenticator) (s : Session) (clock : SessionClock)
    (data : List UInt8) : Option Outcome :=
  if s.state ≠ .connected then some (s, [])
  else do
    let neg ← Negotiate500.format.decode {} data 0
    let accepted ← s.verifyHmac auth data
    if accepted then
      return { s with state := .negotiated }.sendNegotiationResponse clock neg.sendingTime
    else
      return s.terminate clock 8

/-- The client's interval, clamped to a reasonable range. -/
def clampKeepAlive (interval : UInt32) : UInt32 :=
  let interval := if interval < 1000 then 1000 else interval
  if interval > 60000 then 60000 else interval

def handleEstablish (auth : HmacAuthenticator) (s : Session) (clock : SessionClock)
    (data : List UInt8) : Option Outcome :=
  if s.state ≠ .negotiated then some (s, [])
  else do
    let est ← Establish503.format.decode {} data 0
    let accepted ← s.verifyHmac auth data
    if accepted then
      let s :=
        { s with
          keepAliveIntervalMs := clampKeepAlive est.keepAliveInterval.toUInt32
          nextInSeq := est.nextSeqNo
          state := .established
          lastReceived := clock.established
          lastSent := clock.established }
      return s.sendEstablishmentAck clock est.sendingTime s.keepAliveIntervalMs.toUInt16
    else
      return s.terminate clock 8

/-- A heartbeat is read and otherwise ignored. -/
def handleSequence (s : Session) (data : List UInt8) : Option Outcome :=
  if s.state ≠ .established then some (s, [])
  else do
    let _seq ← Sequence506.format.decode {} data 0
    return (s, [])

/-- The message is read before the state is looked at. -/
def handleTerminate (s : Session) (clock : SessionClock) (data : List UInt8) : Option Outcome := do
  let _term ← Terminate507.format.decode {} data 0
  return s.terminate clock 0

/-- The sequence numbers a request asks for, in order. -/
def requestedSeqs (fromSeqNo : UInt32) (msgCount : UInt16) : List UInt32 :=
  (List.range msgCount.toNat).map fun i => fromSeqNo + UInt32.ofNat i

def handleRetransmitRequest (s : Session) (clock : SessionClock) (data : List UInt8) :
    Option Outcome :=
  if s.state ≠ .established then some (s, [])
  else do
    let req ← RetransmitRequest508.format.decode {} data 0
    if req.lastUUID ≠ 0 ∧ req.lastUUID ≠ s.uuid then
      return s.sendRetransmission clock req.lastUUID req.requestTimestamp req.fromSeqNo 0
    else
      let seqs := requestedSeqs req.fromSeqNo req.msgCount
      let actualCount := (seqs.filter fun seq => (s.retransmitBuffer.retrieve seq).isSome).length
      let (s, announcement) := s.sendRetransmission clock req.lastUUID req.requestTimestamp
        req.fromSeqNo (.ofNat actualCount)
      let messages := seqs.filterMap fun seq =>
        (s.retransmitBuffer.retrieve seq).map fun msg => .retransmitted seq msg
      return (s, announcement ++ messages.map .send)

/-- The client's sequence number, at body offset 17.  Only the templates that the
switch does not name are checked for length. -/
def clientSeq (templateId : UInt16) (data : List UInt8) : Option UInt32 :=
  if templateId = NewOrderSingle514.format.templateId ∨
      templateId = OrderCancelReplaceRequest515.format.templateId ∨
      templateId = OrderCancelRequest516.format.templateId then
    (readAt data (8 + 17) 4).map Wire.uint32.ofBytes
  else if data.length ≥ 8 + 21 then
    (readAt data (8 + 17) 4).map Wire.uint32.ofBytes
  else
    some 0

def handleApplicationMessage (s : Session) (clock : SessionClock) (templateId : UInt16)
    (data : List UInt8) : Option Outcome :=
  if s.state ≠ .established then some (s, [])
  else do
    let clientSeq ← clientSeq templateId data
    let (s, gap) :=
      if clientSeq > s.nextInSeq then
        let (s', gap) := s.sendNotApplied clock s.nextInSeq (clientSeq - s.nextInSeq)
        ({ s' with nextInSeq := clientSeq }, gap)
      else (s, [])
    let s := if clientSeq = s.nextInSeq then { s with nextInSeq := s.nextInSeq + 1 } else s
    return (s, gap ++ [.forward s.uuid templateId data])

def onMessage (auth : HmacAuthenticator) (s : Session) (clock : SessionClock)
    (data : List UInt8) : Option Outcome :=
  if data.length < MessageHeader.layout.size then some (s, [])
  else do
    let s := { s with lastReceived := clock.now }
    let templateId ← MessageHeader.decodeTemplateId data
    match InboundTemplate.ofId templateId with
    | .negotiate => s.handleNegotiate auth clock data
    | .establish => s.handleEstablish auth clock data
    | .sequence => s.handleSequence data
    | .terminate => s.handleTerminate clock data
    | .retransmitRequest => s.handleRetransmitRequest clock data
    | .application templateId => s.handleApplicationMessage clock templateId data
    | .unknown => return (s, [])

end Session

/-! ## Calls -/

/-- The calls the transport, the timer and the engine thread make. -/
inductive SessionOp where
  | onMessage (clock : SessionClock) (data : List UInt8)
  | onTimer (clock : SessionClock)
  | sendApplicationMessage (clock : SessionClock) (sbeData : List UInt8)
  | terminate (clock : SessionClock) (errorCode : UInt16)
deriving DecidableEq, Repr

namespace Session

def apply (auth : HmacAuthenticator) (s : Session) : SessionOp → Option Outcome
  | .onMessage clock data => s.onMessage auth clock data
  | .onTimer clock => some (s.onTimer clock)
  | .sendApplicationMessage clock sbeData => some (s.sendApplicationMessage clock sbeData)
  | .terminate clock errorCode => some (s.terminate clock errorCode)

/-- A session as a machine.  A call without a result is left out of the run. -/
def machine (auth : HmacAuthenticator) : Machine Session SessionOp SessionEffect where
  step s op := (s.apply auth op).getD (s, [])

end Session

end SimCme
