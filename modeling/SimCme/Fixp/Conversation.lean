import SimCme.Fixp.GapAccounting
import SimCme.Fixp.SessionCalls
import SimCme.Tools.ILink3Client

/-!
# A client and its session

The client and the session talk over a connection that keeps the order in each direction.
The client's main thread shakes hands and sends requests, a second thread sends heartbeats
and a third one reads; on the other side the session answers, times out and is handed
reports to send.  These steps interleave freely.

Main results:

- Theorem {lit}`Session.hears`: what a session does with a message of the client.
- Theorem {lit}`conversation_delivers`: over every interleaving, requests reach the gateway
  in the order they were sent, none twice and none left out, the session declares no gap,
  and the reports reach the reader thread in the same way.
-/

open Library

namespace SimCme

/-! ## Threads of the client -/

/-- The handshake is through. -/
def ClientSession.InSession (session : ClientSession) : Prop :=
  session.state = .established ∨ session.state = .terminated

instance ClientSession.decidableInSession (session : ClientSession) :
    Decidable session.InSession :=
  inferInstanceAs (Decidable (_ ∨ _))

structure Client where
  session : ClientSession
  /-- The buffer of the handshake. -/
  buf : List UInt8
  payload : ReaderBuffer
  /-- The main thread takes no more commands. -/
  mainDone : Bool := false
  /-- The program has ended, or its socket is shut down. -/
  closed : Bool := false

namespace Client

/-- The other threads run once the handshake is through.  They look at {lit}`g_running`
before they block, so they may act once more after it is cleared. -/
def Running (client : Client) : Prop :=
  client.closed = false ∧ client.session.InSession

instance decidableRunning (client : Client) : Decidable client.Running :=
  inferInstanceAs (Decidable (_ ∧ _))

def connect (client : Client) (uuid now : UInt64) : Client × List ClientMessage :=
  if client.session.state = .disconnected then
    let (session, msg) := client.session.sendNegotiate uuid now
    ({ client with session := session, buf := readInto client.buf msg.toBytes }, [msg])
  else (client, [])

/-- The handshake goes on with the message it waits for; otherwise the program ends. -/
def handshake (client : Client) (now : UInt64) (data : List UInt8) :
    Client × List ClientMessage :=
  match client.session.state with
  | .negotiateSent =>
      match client.session.onNegotiationResponse now client.buf data with
      | some (session, msg) =>
          let buf := readInto (readInto client.buf data) msg.toBytes
          ({ client with session := session, buf := buf }, [msg])
      | none => ({ client with closed := true }, [])
  | .establishSent =>
      match client.session.onEstablishmentAck client.buf data with
      | some session =>
          ({ client with session := session, buf := readInto client.buf data }, [])
      | none => ({ client with closed := true }, [])
  | _ => (client, [])

def request (client : Client) (now : UInt64) (command : ClientCommand) :
    Client × List ClientMessage :=
  if client.Running ∧ client.mainDone = false then
    let (session, msg) := client.session.perform now command
    ({ client with session := session }, [msg])
  else (client, [])

def heartbeat (client : Client) : Client × List ClientMessage :=
  if client.Running then (client, [client.session.sendSequenceHeartbeat])
  else (client, [])

def quit (client : Client) (now : UInt64) : Client × List ClientMessage :=
  if client.Running ∧ client.mainDone = false then
    let (session, msg) := client.session.sendTerminate now
    ({ client with session := session, mainDone := true }, [msg])
  else (client, [])

def shutdown (client : Client) : Client :=
  if client.Running then { client with mainDone := true, closed := true } else client

def read (client : Client) (data : List UInt8) : Client :=
  let (session, payload) := client.session.readMessage client.payload data
  { client with session := session, payload := payload }

end Client

/-! ## What a session hears -/

namespace Session

/-- The messages that a session acts on. -/
def Wants (s : Session) : ClientMessage → Prop
  | .negotiate _ => s.state = .connected
  | .establish _ => s.state = .negotiated
  | .newOrderSingle _ | .orderCancelReplaceRequest _ | .orderCancelRequest _ =>
      s.state = .established
  | .sequence _ => False
  | .terminate _ => s.state ≠ .terminated

/-- What a session does with a message of the client. -/
inductive Hears (s : Session) : ClientMessage → Session → List SessionEffect → Prop where
  | ignore {msg t} (hunwanted : ¬s.Wants msg) (ht : t.state = s.state)
      (hnext : t.nextInSeq = s.nextInSeq) : Hears s msg t []
  | negotiate {neg t resp} (hstate : s.state = .connected) (ht : t.state = .negotiated) :
      Hears s (.negotiate neg) t [.send (.negotiationResponse resp)]
  | establish {est t ack} (hstate : s.state = .negotiated) (ht : t.state = .established)
      (hnext : t.nextInSeq = est.nextSeqNo) :
      Hears s (.establish est) t [.send (.establishmentAck ack)]
  | handOn {msg t seqNum templateId} (hstate : s.state = .established)
      (ht : t.state = .established) (hseq : msg.seqNum? = some seqNum)
      (hnext : t.nextInSeq = nextInAfter s.nextInSeq seqNum) :
      Hears s msg t ((gapBefore s.uuid s.nextInSeq seqNum).map (fun na => .send (.notApplied na)) ++
        [.forward s.uuid templateId msg.toBytes])
  | finish {msg t term} (hopen : s.state ≠ .terminated) (ht : t.state = .terminated) :
      Hears s msg t [.send (.terminate term)]

variable {auth : HmacAuthenticator} {s t : Session} {clock : SessionClock}
  {effects : List SessionEffect}

/-- A complete message reaches the handler of its template. -/
theorem onMessage_toBytes {σ : Type} (auth : HmacAuthenticator) (s : Session)
    (clock : SessionClock) (format : MessageFormat σ) (msg : σ) :
    s.onMessage auth clock (format.toBytes msg) =
      match InboundTemplate.ofId format.templateId with
      | .negotiate => { s with lastReceived := clock.now }.handleNegotiate auth clock
          (format.toBytes msg)
      | .establish => { s with lastReceived := clock.now }.handleEstablish auth clock
          (format.toBytes msg)
      | .sequence => { s with lastReceived := clock.now }.handleSequence (format.toBytes msg)
      | .terminate => { s with lastReceived := clock.now }.handleTerminate clock
          (format.toBytes msg)
      | .retransmitRequest => { s with lastReceived := clock.now }.handleRetransmitRequest clock
          (format.toBytes msg)
      | .application templateId => { s with lastReceived := clock.now }.handleApplicationMessage
          clock templateId (format.toBytes msg)
      | .unknown => some ({ s with lastReceived := clock.now }, []) := by
  have hlen : ¬(format.toBytes msg).length < MessageHeader.layout.size := by
    rw [format.length_toBytes, MessageFormat.encodedLength]
    omega
  simp only [onMessage, hlen, if_false, format.decodeTemplateId_toBytes, Option.bind_eq_bind,
    Option.bind_some]
  rfl

theorem hears_terminate (s : Session) (clock : SessionClock) (errorCode : UInt16)
    (msg : ClientMessage) (hwants : s.state = .terminated → ¬s.Wants msg) :
    Hears s msg (s.terminate clock errorCode).1 (s.terminate clock errorCode).2 := by
  by_cases hstate : s.state = .terminated
  · rw [terminate, if_pos hstate]
    exact .ignore (hwants hstate) rfl rfl
  · rw [terminate, if_neg hstate]
    exact .finish hstate rfl

theorem hears_negotiate (auth : HmacAuthenticator) (s : Session) (clock : SessionClock)
    (neg : Negotiate500) :
    ∃ t effects, s.handleNegotiate auth clock (Negotiate500.format.toBytes neg) =
      some (t, effects) ∧ Hears s (.negotiate neg) t effects := by
  by_cases hstate : s.state = .connected
  · have hsigned : 8 + 32 ≤ (Negotiate500.format.toBytes neg).length := by
      rw [MessageFormat.length_toBytes]
      decide
    rcases Option.isSome_iff_exists.mp (verifyHmac_isSome auth s hsigned) with ⟨accepted, haccepted⟩
    simp only [handleNegotiate, hstate, ne_eq, not_true_eq_false, if_false,
      MessageFormat.decode_toBytes, haccepted, Option.bind_eq_bind, Option.bind_some]
    cases accepted with
    | true => exact ⟨_, _, rfl, .negotiate hstate rfl⟩
    | false => exact ⟨_, _, rfl, hears_terminate s clock 8 _ (by simp [hstate])⟩
  · exact ⟨s, [], if_pos hstate, .ignore hstate rfl rfl⟩

theorem hears_establish (auth : HmacAuthenticator) (s : Session) (clock : SessionClock)
    (est : Establish503) :
    ∃ t effects, s.handleEstablish auth clock (Establish503.format.toBytes est) =
      some (t, effects) ∧ Hears s (.establish est) t effects := by
  by_cases hstate : s.state = .negotiated
  · have hsigned : 8 + 32 ≤ (Establish503.format.toBytes est).length := by
      rw [MessageFormat.length_toBytes]
      decide
    rcases Option.isSome_iff_exists.mp (verifyHmac_isSome auth s hsigned) with ⟨accepted, haccepted⟩
    simp only [handleEstablish, hstate, ne_eq, not_true_eq_false, if_false,
      MessageFormat.decode_toBytes, haccepted, Option.bind_eq_bind, Option.bind_some]
    cases accepted with
    | true => exact ⟨_, _, rfl, .establish hstate rfl rfl⟩
    | false => exact ⟨_, _, rfl, hears_terminate s clock 8 _ (by simp [hstate])⟩
  · exact ⟨s, [], if_pos hstate, .ignore hstate rfl rfl⟩

theorem Hears.of_received {msg : ClientMessage} {received : Int}
    (hhears : Hears { s with lastReceived := received } msg t effects) :
    Hears s msg t effects := by
  cases hhears with
  | ignore hunwanted ht hnext => exact .ignore (by cases msg <;> exact hunwanted) ht hnext
  | negotiate hstate ht => exact .negotiate hstate ht
  | establish hstate ht hnext => exact .establish hstate ht hnext
  | handOn hstate ht hseq hnext => exact .handOn hstate ht hseq hnext
  | finish hopen ht => exact .finish hopen ht

/-- A message of one of the templates 514, 515 and 516 is an order-entry message. -/
theorem orderEntry_toBytes {σ : Type} (format : MessageFormat σ) (msg : σ)
    (hnamed : InboundTemplate.ReadsSeqUnchecked format.templateId)
    (hlen : (InboundTemplate.ofId format.templateId).messageLength ≤ format.encodedLength) :
    OrderEntry (format.toBytes msg) := by
  refine ⟨format.templateId, format.decodeTemplateId_toBytes msg, hnamed, ?_⟩
  rwa [format.length_toBytes]

/-- An order-entry message is handed on by an established session only. -/
theorem hears_request (auth : HmacAuthenticator) (s : Session) (clock : SessionClock)
    {msg : ClientMessage} {seqNum : UInt32} (hseq : msg.seqNum? = some seqNum)
    (hentry : OrderEntry msg.toBytes) (hseqNum : seqNumOf msg.toBytes = seqNum)
    (hwants : s.Wants msg → s.state = .established) :
    ∃ t effects, s.onMessage auth clock msg.toBytes = some (t, effects) ∧
      Hears s msg t effects := by
  by_cases hstate : s.state = .established
  · obtain ⟨t, templateId, hhandled, ht, -, hnext⟩ :=
      onMessage_orderEntry auth clock hstate hentry
    rw [hseqNum] at hhandled hnext
    exact ⟨t, _, hhandled, .handOn hstate ht hseq hnext⟩
  · rcases hentry.kind with ⟨templateId, htemplate, hkind, -, hlen⟩
    refine ⟨{ s with lastReceived := clock.now }, [], ?_, .ignore (mt hwants hstate) rfl rfl⟩
    simp [onMessage, Nat.not_lt.mpr hlen, htemplate, hkind, handleApplicationMessage, hstate]

/-- Every message of the client is read within its bounds. -/
theorem hears (auth : HmacAuthenticator) (s : Session) (clock : SessionClock)
    (msg : ClientMessage) :
    ∃ t effects, s.onMessage auth clock msg.toBytes = some (t, effects) ∧
      Hears s msg t effects := by
  cases msg with
  | negotiate neg =>
      obtain ⟨t, effects, hhandled, hhears⟩ :=
        hears_negotiate auth { s with lastReceived := clock.now } clock neg
      exact ⟨t, effects, (onMessage_toBytes auth s clock _ neg).trans hhandled,
        hhears.of_received⟩
  | establish est =>
      obtain ⟨t, effects, hhandled, hhears⟩ :=
        hears_establish auth { s with lastReceived := clock.now } clock est
      exact ⟨t, effects, (onMessage_toBytes auth s clock _ est).trans hhandled,
        hhears.of_received⟩
  | sequence seq =>
      refine ⟨{ s with lastReceived := clock.now }, [],
        (onMessage_toBytes auth s clock _ seq).trans ?_, .ignore id rfl rfl⟩
      change handleSequence _ (Sequence506.format.toBytes seq) = _
      by_cases hstate : s.state = .established <;>
        simp [handleSequence, hstate, MessageFormat.decode_toBytes]
  | terminate term =>
      refine ⟨_, _, (onMessage_toBytes auth s clock _ term).trans ?_,
        (hears_terminate { s with lastReceived := clock.now } clock 0 (.terminate term)
          (fun hstate hwants => hwants hstate)).of_received⟩
      change handleTerminate _ clock (Terminate507.format.toBytes term) = _
      simp [handleTerminate, MessageFormat.decode_toBytes]
  | newOrderSingle msg =>
      exact hears_request auth s clock rfl
        (orderEntry_toBytes NewOrderSingle514.format msg (by decide) (by decide))
        (seqNumOf_newOrderSingle msg) id
  | orderCancelReplaceRequest msg =>
      exact hears_request auth s clock rfl
        (orderEntry_toBytes OrderCancelReplaceRequest515.format msg (by decide) (by decide))
        (seqNumOf_orderCancelReplaceRequest msg) id
  | orderCancelRequest msg =>
      exact hears_request auth s clock rfl
        (orderEntry_toBytes OrderCancelRequest516.format msg (by decide) (by decide))
        (seqNumOf_orderCancelRequest msg) id

end Session

/-! ## Conversations -/

/-- The two parties and the messages between them, oldest first. -/
structure Conversation where
  client : Client
  server : Session
  toServer : List ClientMessage := []
  toClient : List Outbound := []

inductive ConversationOp where
  | connect (uuid now : UInt64)
  | handshake (now : UInt64)
  | read
  | request (now : UInt64) (command : ClientCommand)
  | heartbeat
  | quit (now : UInt64)
  | shutdown
  | onMessage (clock : SessionClock)
  | onTimer (clock : SessionClock)
  | report (clock : SessionClock) (sbeData : List UInt8)
  | terminate (clock : SessionClock) (errorCode : UInt16)
deriving DecidableEq, Repr

inductive ConversationEvent where
  | clientSends (msg : ClientMessage)
  /-- The reader thread takes a message. -/
  | clientReads (msg : Outbound)
  | session (e : SessionEffect)
deriving DecidableEq, Repr

namespace Conversation

/-- The messages among the effects of a call. -/
def sentBy (effects : List SessionEffect) : List Outbound :=
  effects.filterMap fun
    | .send msg => some msg
    | _ => none

def speak (x : Conversation) : Client × List ClientMessage →
    Conversation × List ConversationEvent
  | (client, msgs) =>
      ({ x with client := client, toServer := x.toServer ++ msgs }, msgs.map .clientSends)

def serve (x : Conversation) (auth : HmacAuthenticator) (op : SessionOp) :
    Conversation × List ConversationEvent :=
  let (server, effects) := (Session.machine auth).step x.server op
  ({ x with server := server, toClient := x.toClient ++ sentBy effects }, effects.map .session)

def machine (auth : HmacAuthenticator) : Machine Conversation ConversationOp ConversationEvent where
  step x
    | .connect uuid now => x.speak (x.client.connect uuid now)
    | .handshake now =>
        if x.client.closed then (x, [])
        else match x.client.session.state, x.toClient with
          | .negotiateSent, msg :: rest
          | .establishSent, msg :: rest =>
              { x with toClient := rest }.speak (x.client.handshake now msg.toBytes)
          | _, _ => (x, [])
    | .read =>
        if x.client.Running then
          match x.toClient with
          | [] => (x, [])
          | msg :: rest =>
              ({ x with client := x.client.read msg.toBytes, toClient := rest },
                [.clientReads msg])
        else (x, [])
    | .request now command => x.speak (x.client.request now command)
    | .heartbeat => x.speak x.client.heartbeat
    | .quit now => x.speak (x.client.quit now)
    | .shutdown => ({ x with client := x.client.shutdown }, [])
    | .onMessage clock =>
        match x.toServer with
        | [] => (x, [])
        | msg :: rest => { x with toServer := rest }.serve auth (.onMessage clock msg.toBytes)
    | .onTimer clock => x.serve auth (.onTimer clock)
    | .report clock sbeData => x.serve auth (.sendApplicationMessage clock sbeData)
    | .terminate clock errorCode => x.serve auth (.terminate clock errorCode)

end Conversation

/-! ## What is delivered -/

/-- A request is a message with a number. -/
def ClientMessage.IsRequest (msg : ClientMessage) : Bool :=
  msg.seqNum?.isSome

/-- The number of a report; other messages have none. -/
def Outbound.seqNum? : Outbound → Option UInt32
  | .application seqNum _ => some seqNum
  | _ => none

def Outbound.IsReport (msg : Outbound) : Bool :=
  msg.seqNum?.isSome

namespace Conversation

/-- The messages for the gateway among the effects of a call. -/
def forwardedBy (effects : List SessionEffect) : List (List UInt8) :=
  effects.filterMap fun
    | .forward _ _ data => some data
    | _ => none

def requestsSent (es : List ConversationEvent) : List ClientMessage :=
  (es.filterMap fun
    | .clientSends msg => some msg
    | _ => none).filter ClientMessage.IsRequest

/-- What the session did. -/
def effectsOf (es : List ConversationEvent) : List SessionEffect :=
  es.filterMap fun
    | .session e => some e
    | _ => none

def handedOn (es : List ConversationEvent) : List (List UInt8) :=
  forwardedBy (effectsOf es)

def reportsSent (es : List ConversationEvent) : List Outbound :=
  (sentBy (effectsOf es)).filter Outbound.IsReport

def reportsRead (es : List ConversationEvent) : List Outbound :=
  (es.filterMap fun
    | .clientReads msg => some msg
    | _ => none).filter Outbound.IsReport

/-- What a conversation has delivered. -/
structure Delivers (x : Conversation) (es : List ConversationEvent) : Prop where
  requests_numbered : Numbered ClientMessage.seqNum? 1 (requestsSent es)
    x.client.session.nextOutSeqNo
  handed_prefix : handedOn es <+: (requestsSent es).map ClientMessage.toBytes
  /-- What an open session has not handed on is on its way. -/
  handed_eq : x.server.state ≠ .terminated →
    (requestsSent es).map ClientMessage.toBytes =
      handedOn es ++ (x.toServer.filter ClientMessage.IsRequest).map ClientMessage.toBytes
  no_gap : ∀ na, .session (.send (.notApplied na)) ∉ es
  reports_numbered : Numbered Outbound.seqNum? 1 (reportsSent es) x.server.nextOutSeq
  reports_eq : reportsSent es = reportsRead es ++ x.toClient.filter Outbound.IsReport
  agreed : x.client.session.InSession →
    x.server.state = .established ∨ x.server.state = .terminated
  /-- The client gives up the handshake only with a session that has ended. -/
  refused : x.client.closed = true → x.client.session.InSession ∨ x.server.state = .terminated

/-- How far a conversation has got. -/
inductive Phase (x : Conversation) : Prop where
  | idle (hserver : x.server.state = .connected)
      (hclient : x.client.session.state = .disconnected)
      (hup : x.toServer = []) (hdown : x.toClient = [])
  | negotiating {neg} (hserver : x.server.state = .connected)
      (hclient : x.client.session.state = .negotiateSent)
      (hup : x.toServer = [.negotiate neg]) (hdown : x.toClient = [])
  | negotiated {resp} (hserver : x.server.state = .negotiated)
      (hclient : x.client.session.state = .negotiateSent)
      (hup : x.toServer = []) (hdown : x.toClient = [.negotiationResponse resp])
  | establishing {est} (hserver : x.server.state = .negotiated)
      (hclient : x.client.session.state = .establishSent)
      (hup : x.toServer = [.establish est])
      (hnext : est.nextSeqNo = x.client.session.nextOutSeqNo) (hdown : x.toClient = [])
  | acknowledged {ack rest} (hserver : x.server.state = .established)
      (hclient : x.client.session.state = .establishSent) (hup : x.toServer = [])
      (hnext : x.server.nextInSeq = x.client.session.nextOutSeqNo)
      (hdown : x.toClient = .establishmentAck ack :: rest)
  | established (hserver : x.server.state = .established)
      (hclient : x.client.session.InSession)
      (hup : Numbered ClientMessage.seqNum? x.server.nextInSeq x.toServer
        x.client.session.nextOutSeqNo)
  | terminated (hserver : x.server.state = .terminated)
      (hearly : x.client.session.state = .disconnected ∨
        x.client.session.state = .negotiateSent → ∀ msg ∈ x.toClient, msg.seqNum? = none)
      (hlate : x.client.closed = false → x.client.session.state = .establishSent →
        ∀ msg ∈ x.toClient.head?, msg.seqNum? = none)

/-! ### Deliveries, step by step -/

section Events

variable (es : List ConversationEvent) (effects : List SessionEffect) (msgs : List ClientMessage)

theorem effectsOf_session : effectsOf (es ++ effects.map .session) = effectsOf es ++ effects := by
  simp [effectsOf, List.filterMap_map]

theorem effectsOf_clientSends : effectsOf (es ++ msgs.map .clientSends) = effectsOf es := by
  simp [effectsOf, List.filterMap_map]

theorem requestsSent_session : requestsSent (es ++ effects.map .session) = requestsSent es := by
  simp [requestsSent, List.filterMap_map]

theorem requestsSent_clientSends :
    requestsSent (es ++ msgs.map .clientSends) =
      requestsSent es ++ msgs.filter ClientMessage.IsRequest := by
  simp [requestsSent, List.filterMap_map]

theorem handedOn_session :
    handedOn (es ++ effects.map .session) = handedOn es ++ forwardedBy effects := by
  rw [handedOn, effectsOf_session, forwardedBy, List.filterMap_append]
  rfl

theorem handedOn_clientSends : handedOn (es ++ msgs.map .clientSends) = handedOn es := by
  rw [handedOn, effectsOf_clientSends]
  rfl

theorem reportsSent_session :
    reportsSent (es ++ effects.map .session) =
      reportsSent es ++ (sentBy effects).filter Outbound.IsReport := by
  rw [reportsSent, effectsOf_session, sentBy, List.filterMap_append, List.filter_append]
  rfl

theorem reportsSent_clientSends :
    reportsSent (es ++ msgs.map .clientSends) = reportsSent es := by
  rw [reportsSent, effectsOf_clientSends]
  rfl

theorem reportsRead_session : reportsRead (es ++ effects.map .session) = reportsRead es := by
  simp [reportsRead, List.filterMap_map]

theorem reportsRead_clientSends :
    reportsRead (es ++ msgs.map .clientSends) = reportsRead es := by
  simp [reportsRead, List.filterMap_map]

end Events

variable {x : Conversation} {es : List ConversationEvent}

/-- The session acts. -/
theorem Delivers.serve (hdelivers : Delivers x es) {t : Session} {effects : List SessionEffect}
    {up : List ClientMessage}
    (hended : x.server.state = .terminated → t.state = .terminated)
    (hhanded : t.state ≠ .terminated →
      forwardedBy effects ++ (up.filter ClientMessage.IsRequest).map ClientMessage.toBytes =
        (x.toServer.filter ClientMessage.IsRequest).map ClientMessage.toBytes)
    (hlast : t.state = .terminated → forwardedBy effects = [])
    (hgap : ∀ na, SessionEffect.send (.notApplied na) ∉ effects)
    (hreports : Numbered Outbound.seqNum? x.server.nextOutSeq
      ((sentBy effects).filter Outbound.IsReport) t.nextOutSeq)
    (hagreed : x.client.session.InSession → t.state = .established ∨ t.state = .terminated) :
    Delivers
      { x with server := t, toServer := up, toClient := x.toClient ++ sentBy effects }
      (es ++ effects.map .session) where
  requests_numbered := by
    rw [requestsSent_session]
    exact hdelivers.requests_numbered
  handed_prefix := by
    rw [requestsSent_session, handedOn_session]
    by_cases ht : t.state = .terminated
    · rw [hlast ht, List.append_nil]
      exact hdelivers.handed_prefix
    · rw [hdelivers.handed_eq (mt hended ht), ← hhanded ht, ← List.append_assoc]
      exact List.prefix_append _ _
  handed_eq := by
    intro ht
    rw [requestsSent_session, handedOn_session, hdelivers.handed_eq (mt hended ht), ← hhanded ht,
      List.append_assoc]
  no_gap := by
    intro na hna
    rcases List.mem_append.mp hna with hna | hna
    · exact hdelivers.no_gap na hna
    · simp only [List.mem_map, ConversationEvent.session.injEq, exists_eq_right] at hna
      exact hgap na hna
  reports_numbered := by
    rw [reportsSent_session]
    exact hdelivers.reports_numbered.append hreports
  reports_eq := by
    rw [reportsSent_session, reportsRead_session, List.filter_append, ← List.append_assoc,
      hdelivers.reports_eq]
  agreed := hagreed
  refused hclosed := (hdelivers.refused hclosed).imp_right hended

/-- The client acts, and may take a message that is no report. -/
theorem Delivers.speak (hdelivers : Delivers x es) {client : Client} {msgs : List ClientMessage}
    {down : List Outbound}
    (hnumber : Numbered ClientMessage.seqNum? x.client.session.nextOutSeqNo
      (msgs.filter ClientMessage.IsRequest) client.session.nextOutSeqNo)
    (hdown : down.filter Outbound.IsReport = x.toClient.filter Outbound.IsReport)
    (hagreed : client.session.InSession →
      x.server.state = .established ∨ x.server.state = .terminated)
    (hrefused : client.closed = true → client.session.InSession ∨ x.server.state = .terminated) :
    Delivers { x with client := client, toServer := x.toServer ++ msgs, toClient := down }
      (es ++ msgs.map .clientSends) where
  requests_numbered := by
    rw [requestsSent_clientSends]
    exact hdelivers.requests_numbered.append hnumber
  handed_prefix := by
    rw [requestsSent_clientSends, handedOn_clientSends, List.map_append]
    exact hdelivers.handed_prefix.trans (List.prefix_append _ _)
  handed_eq := by
    intro hopen
    rw [requestsSent_clientSends, handedOn_clientSends, List.filter_append, List.map_append,
      List.map_append, hdelivers.handed_eq hopen, List.append_assoc]
  no_gap := by
    intro na hna
    rcases List.mem_append.mp hna with hna | hna
    · exact hdelivers.no_gap na hna
    · simp at hna
  reports_numbered := by
    rw [reportsSent_clientSends]
    exact hdelivers.reports_numbered
  reports_eq := by
    rw [reportsSent_clientSends, reportsRead_clientSends, hdown]
    exact hdelivers.reports_eq
  agreed := hagreed
  refused := hrefused

/-! ### Phases, step by step -/

/-- An established session goes on. -/
theorem Phase.go_on (hphase : Phase x) {t : Session} (hstate : x.server.state = .established)
    (ht : t.state = .established) (hnext : t.nextInSeq = x.server.nextInSeq)
    (sent : List Outbound) :
    Phase { x with server := t, toClient := x.toClient ++ sent } := by
  cases hphase with
  | idle hserver => simp [hstate] at hserver
  | negotiating hserver => simp [hstate] at hserver
  | negotiated hserver => simp [hstate] at hserver
  | establishing hserver => simp [hstate] at hserver
  | acknowledged hserver hclient hup hnumber hdown =>
      exact .acknowledged ht hclient hup (hnext.trans hnumber) (congrArg (· ++ sent) hdown)
  | established hserver hclient hup =>
      rw [← hnext] at hup
      exact .established ht hclient hup
  | terminated hserver => simp [hstate] at hserver

/-- The session ends. -/
theorem Phase.finish (hphase : Phase x) {t : Session} (hopen : x.server.state ≠ .terminated)
    (ht : t.state = .terminated) {sent : List Outbound}
    (hsent : ∀ msg ∈ sent, msg.seqNum? = none) (up : List ClientMessage) :
    Phase { x with server := t, toServer := up, toClient := x.toClient ++ sent } := by
  have hhead : ∀ msg ∈ sent.head?, msg.seqNum? = none :=
    fun msg hmsg => hsent msg (List.mem_of_mem_head? hmsg)
  cases hphase with
  | idle _ _ _ hdown =>
      exact .terminated ht (fun _ => by simpa [hdown] using hsent)
        (fun _ _ => by simpa [hdown] using hhead)
  | negotiating _ _ _ hdown =>
      exact .terminated ht (fun _ => by simpa [hdown] using hsent)
        (fun _ _ => by simpa [hdown] using hhead)
  | negotiated _ hclient _ hdown =>
      refine .terminated ht (fun _ => ?_) (by simp [hclient])
      intro msg hmsg
      rw [hdown, List.singleton_append, List.mem_cons] at hmsg
      rcases hmsg with rfl | hmsg
      · rfl
      · exact hsent msg hmsg
  | establishing _ _ _ _ hdown =>
      exact .terminated ht (fun _ => by simpa [hdown] using hsent)
        (fun _ _ => by simpa [hdown] using hhead)
  | acknowledged _ hclient _ _ hdown =>
      exact .terminated ht (by simp [hclient]) (by simp [hdown, Outbound.seqNum?])
  | established _ hclient =>
      rcases hclient with hclient | hclient <;>
        exact .terminated ht (by simp [hclient]) (by simp [hclient])
  | terminated hserver => exact absurd hserver hopen

theorem Phase.told (hphase : Phase x) {t : Session} {effects : List SessionEffect}
    (hsaid : x.server.Says t effects) :
    Phase { x with server := t, toClient := x.toClient ++ sentBy effects } := by
  cases hsaid with
  | nothing => simpa [sentBy] using hphase
  | beat hstate ht hnext => exact hphase.go_on hstate ht hnext _
  | report hstate ht hnext => exact hphase.go_on hstate ht hnext _
  | finish hopen ht => exact hphase.finish hopen ht (by simp [sentBy, Outbound.seqNum?]) _
  | lapse hstate ht =>
      exact hphase.finish (by simp [hstate]) ht (by simp [sentBy, Outbound.seqNum?]) _

/-- What an established session ignores has no number. -/
theorem seqNum?_of_not_wants {s : Session} {msg : ClientMessage}
    (hstate : s.state = .established) (hunwanted : ¬s.Wants msg) : msg.seqNum? = none := by
  cases msg with
  | newOrderSingle | orderCancelReplaceRequest | orderCancelRequest =>
      exact absurd hstate hunwanted
  | negotiate | establish | sequence | terminate => rfl

/-- What an open session ignores is no request. -/
theorem Phase.seqNum?_of_not_wants (hphase : Phase x) {msg : ClientMessage}
    {up : List ClientMessage} (hup : x.toServer = msg :: up)
    (hopen : x.server.state ≠ .terminated) (hunwanted : ¬x.server.Wants msg) :
    msg.seqNum? = none := by
  cases hphase with
  | idle _ _ hnone | negotiated _ _ hnone | acknowledged _ _ hnone => simp [hup] at hnone
  | negotiating _ _ hone | establishing _ _ hone =>
      rcases List.cons.inj (hup.symm.trans hone) with ⟨rfl, -⟩
      rfl
  | established hserver => exact Conversation.seqNum?_of_not_wants hserver hunwanted
  | terminated hserver => exact absurd hserver hopen

/-- The request an established session takes next has the number it expects. -/
theorem Phase.expected (hphase : Phase x) {msg : ClientMessage} {up : List ClientMessage}
    (hup : x.toServer = msg :: up) (hstate : x.server.state = .established) {seqNum : UInt32}
    (hseq : msg.seqNum? = some seqNum) :
    seqNum = x.server.nextInSeq ∧ x.client.session.InSession ∧
      Numbered ClientMessage.seqNum? (x.server.nextInSeq + 1) up
        x.client.session.nextOutSeqNo := by
  cases hphase with
  | idle hserver | negotiating hserver | negotiated hserver | establishing hserver
  | terminated hserver => simp [hstate] at hserver
  | acknowledged _ _ hnone => simp [hup] at hnone
  | established _ hclient hnumber =>
      rw [hup, numbered_cons_of_some hseq] at hnumber
      exact ⟨hnumber.1, hclient, hnumber.2⟩

theorem nextInAfter_self (n : UInt32) : Session.nextInAfter n n = n + 1 :=
  if_neg (by simp)

theorem gapBefore_self (uuid : UInt64) (n : UInt32) : Session.gapBefore uuid n n = [] :=
  if_neg (by simp)

theorem Phase.hears (hphase : Phase x) {msg : ClientMessage} {up : List ClientMessage}
    (hup : x.toServer = msg :: up) {t : Session} {effects : List SessionEffect}
    (hhears : x.server.Hears msg t effects) :
    Phase { x with server := t, toServer := up, toClient := x.toClient ++ sentBy effects } := by
  cases hhears with
  | ignore hunwanted ht hnext =>
      have hsent : x.toClient ++ sentBy [] = x.toClient := List.append_nil _
      rw [hsent]
      cases hphase with
      | idle _ _ hnone | negotiated _ _ hnone | acknowledged _ _ hnone =>
          simp [hup] at hnone
      | negotiating hserver _ hone =>
          rcases List.cons.inj (hup.symm.trans hone) with ⟨rfl, rfl⟩
          exact absurd hserver hunwanted
      | establishing hserver _ hone =>
          rcases List.cons.inj (hup.symm.trans hone) with ⟨rfl, rfl⟩
          exact absurd hserver hunwanted
      | established hserver hclient hnumber =>
          rw [hup, numbered_cons_of_none (Conversation.seqNum?_of_not_wants hserver hunwanted), ← hnext]
            at hnumber
          exact .established (ht.trans hserver) hclient hnumber
      | terminated hserver hearly hlate => exact .terminated (ht.trans hserver) hearly hlate
  | negotiate hstate ht =>
      cases hphase with
      | idle _ _ hnone | negotiated _ _ hnone | acknowledged _ _ hnone =>
          simp [hup] at hnone
      | negotiating _ hclient hone hdown =>
          rcases List.cons.inj (hup.symm.trans hone) with ⟨-, rfl⟩
          exact .negotiated ht hclient rfl (congrArg (· ++ sentBy _) hdown)
      | establishing hserver | established hserver | terminated hserver => simp [hstate] at hserver
  | establish hstate ht hnext =>
      cases hphase with
      | idle _ _ hnone | negotiated _ _ hnone | acknowledged _ _ hnone =>
          simp [hup] at hnone
      | establishing _ hclient hone hnumber hdown =>
          rcases List.cons.inj (hup.symm.trans hone) with ⟨hest, rfl⟩
          cases hest
          exact .acknowledged ht hclient rfl (hnext.trans hnumber)
            (congrArg (· ++ sentBy _) hdown)
      | negotiating hserver | established hserver | terminated hserver => simp [hstate] at hserver
  | handOn hstate ht hseq hnext =>
      rcases hphase.expected hup hstate hseq with ⟨rfl, hclient, hnumber⟩
      rw [← nextInAfter_self, ← hnext] at hnumber
      exact .established ht hclient hnumber
  | finish hopen ht => exact hphase.finish hopen ht (by simp [sentBy, Outbound.seqNum?]) up

/-- A client in session says something. -/
theorem Phase.say (hphase : Phase x) {client : Client} {msgs : List ClientMessage}
    (hclient : x.client.session.InSession) (hclient' : client.session.InSession)
    (hnumber : Numbered ClientMessage.seqNum? x.client.session.nextOutSeqNo msgs
      client.session.nextOutSeqNo) (down : List Outbound) :
    Phase { x with client := client, toServer := x.toServer ++ msgs, toClient := down } := by
  cases hphase with
  | idle _ hstate | negotiating _ hstate | negotiated _ hstate | establishing _ hstate
  | acknowledged _ hstate => simp [ClientSession.InSession, hstate] at hclient
  | established hserver _ hup => exact .established hserver hclient' (hup.append hnumber)
  | terminated hserver =>
      rcases hclient' with hstate | hstate <;>
        exact .terminated hserver (by simp [hstate]) (by simp [hstate])

theorem Phase.quiet (hphase : Phase x) (client : Client)
    (hclient : x.client.session.InSession) (hclient' : client.session.InSession)
    (hsame : client.session.nextOutSeqNo = x.client.session.nextOutSeqNo)
    (down : List Outbound) : Phase { x with client := client, toClient := down } := by
  have hnumber : Numbered ClientMessage.seqNum? x.client.session.nextOutSeqNo []
      client.session.nextOutSeqNo := hsame.symm
  have hsaid := hphase.say hclient hclient' hnumber down
  rwa [List.append_nil] at hsaid

theorem Phase.connect (hphase : Phase x) {client : Client} (neg : Negotiate500)
    (hstate : x.client.session.state = .disconnected)
    (hstate' : client.session.state = .negotiateSent) :
    Phase { x with client := client, toServer := x.toServer ++ [.negotiate neg] } := by
  cases hphase with
  | idle hserver _ hup hdown =>
      exact .negotiating hserver hstate' (congrArg (· ++ [.negotiate neg]) hup) hdown
  | negotiating _ hclient | negotiated _ hclient | establishing _ hclient
  | acknowledged _ hclient => simp [hstate] at hclient
  | established _ hclient => simp [ClientSession.InSession, hstate] at hclient
  | terminated hserver hearly =>
      exact .terminated hserver (fun _ => hearly (Or.inl hstate)) (by simp [hstate'])

end Conversation

/-! ### The client, step by step -/

namespace Client

variable {client : Client} {data : List UInt8}

/-- What the handshake does with the message it waits for. -/
inductive Shakes (client : Client) (data : List UInt8) :
    Client × List ClientMessage → Prop where
  | negotiated {client' est} (hstate : client.session.state = .negotiateSent)
      (hstate' : client'.session.state = .establishSent)
      (hclosed : client'.closed = client.closed)
      (hsame : client'.session.nextOutSeqNo = client.session.nextOutSeqNo)
      (hest : est.nextSeqNo = client.session.nextOutSeqNo) :
      Shakes client data (client', [.establish est])
  | established {client'} (hstate : client.session.state = .establishSent)
      (hstate' : client'.session.state = .established)
      (hclosed : client'.closed = client.closed)
      (hsame : client'.session.nextOutSeqNo = client.session.nextOutSeqNo) :
      Shakes client data (client', [])
  | giveUp (hresp : client.session.state = .negotiateSent →
        ∀ resp, data ≠ NegotiationResponse501.format.toBytes resp)
      (hack : client.session.state = .establishSent →
        ∀ ack, data ≠ EstablishmentAck504.format.toBytes ack) :
      Shakes client data ({ client with closed := true }, [])

theorem handshake_shakes (now : UInt64) (data : List UInt8)
    (hstate : client.session.state = .negotiateSent ∨ client.session.state = .establishSent) :
    Shakes client data (client.handshake now data) := by
  rcases hstate with hstate | hstate
  · simp only [handshake, hstate, ClientSession.onNegotiationResponse]
    cases hread : ClientSession.expect NegotiationResponse501.format {} client.buf data with
    | none =>
        refine .giveUp (fun _ resp hdata => ?_) (by simp [hstate])
        rw [hdata, ClientSession.expect_toBytes _ _ _ _ (by decide)] at hread
        cases hread
    | some resp => exact .negotiated hstate rfl rfl rfl rfl
  · simp only [handshake, hstate, ClientSession.onEstablishmentAck]
    cases hread : ClientSession.expect EstablishmentAck504.format {} client.buf data with
    | none =>
        refine .giveUp (by simp [hstate]) (fun _ ack hdata => ?_)
        rw [hdata, ClientSession.expect_toBytes _ _ _ _ (by decide)] at hread
        cases hread
    | some ack => exact .established hstate rfl rfl rfl

theorem read_keeps (client : Client) (data : List UInt8) :
    (client.read data).session.nextOutSeqNo = client.session.nextOutSeqNo ∧
      (client.session.InSession → (client.read data).session.InSession) ∧
      (client.read data).closed = client.closed := by
  obtain ⟨hsame, hstate⟩ := ClientSession.processMessage_keeps
    (Option.some_get (client.session.processMessage_isSome (client.payload.read data)
      data.length)).symm
  refine ⟨hsame, fun hin => ?_, rfl⟩
  rcases hstate with hstate | hstate
  · rw [ClientSession.InSession, ← hstate] at hin
    exact hin
  · exact Or.inr hstate

end Client

/-! ## Interleavings -/

namespace Conversation

variable {x : Conversation} {es : List ConversationEvent}

/-- The invariant of a conversation. -/
structure Sound (x : Conversation) (es : List ConversationEvent) : Prop where
  phase : Phase x
  delivers : Delivers x es

/-- The message the handshake waits for is no report, and a session that has not ended sent
the one it expects. -/
theorem Phase.awaited (hphase : Phase x) {msg : Outbound} {rest : List Outbound}
    (hdown : x.toClient = msg :: rest) (hopen : x.client.closed = false)
    (hwaits : x.client.session.state = .negotiateSent ∨
      x.client.session.state = .establishSent) :
    msg.seqNum? = none ∧ (x.server.state = .terminated ∨
      (x.client.session.state = .negotiateSent ∧ ∃ resp, msg = .negotiationResponse resp) ∨
      (x.client.session.state = .establishSent ∧ ∃ ack, msg = .establishmentAck ack)) := by
  cases hphase with
  | idle _ _ _ hnone | negotiating _ _ _ hnone | establishing _ _ _ _ hnone =>
      simp [hdown] at hnone
  | negotiated _ hclient _ hone =>
      rcases List.cons.inj (hdown.symm.trans hone) with ⟨rfl, -⟩
      exact ⟨rfl, Or.inr (Or.inl ⟨hclient, _, rfl⟩)⟩
  | acknowledged _ hclient _ _ hfirst =>
      rcases List.cons.inj (hdown.symm.trans hfirst) with ⟨rfl, -⟩
      exact ⟨rfl, Or.inr (Or.inr ⟨hclient, _, rfl⟩)⟩
  | established _ hclient =>
      rcases hclient with hclient | hclient <;> simp [hclient] at hwaits
  | terminated hserver hearly hlate =>
      refine ⟨?_, Or.inl hserver⟩
      rcases hwaits with hstate | hstate
      · exact hearly (Or.inr hstate) msg (by simp [hdown])
      · exact hlate hopen hstate msg (by simp [hdown])

/-- The client gets through the handshake only with a session that did. -/
theorem Phase.agreed (hphase : Phase x) (hclient : x.client.session.InSession) :
    x.server.state = .established ∨ x.server.state = .terminated := by
  cases hphase with
  | idle _ hstate | negotiating _ hstate | negotiated _ hstate | establishing _ hstate
  | acknowledged _ hstate => simp [ClientSession.InSession, hstate] at hclient
  | established hserver => exact Or.inl hserver
  | terminated hserver => exact Or.inr hserver

theorem Phase.shake (hphase : Phase x) {msg : Outbound} {rest : List Outbound}
    (hdown : x.toClient = msg :: rest) {client : Client} {msgs : List ClientMessage}
    (hwaits : x.client.session.state = .negotiateSent ∨
      x.client.session.state = .establishSent)
    (hshakes : x.client.Shakes msg.toBytes (client, msgs)) :
    Phase { x with client := client, toServer := x.toServer ++ msgs, toClient := rest } := by
  cases hphase with
  | idle _ _ _ hnone | negotiating _ _ _ hnone | establishing _ _ _ _ hnone =>
      simp [hdown] at hnone
  | negotiated hserver hclient hup hone =>
      rcases List.cons.inj (hdown.symm.trans hone) with ⟨rfl, rfl⟩
      cases hshakes with
      | negotiated _ hstate' _ hsame hest =>
          exact .establishing hserver hstate' (congrArg (· ++ _) hup) (hest.trans hsame.symm) rfl
      | established hstate => simp [hclient] at hstate
      | giveUp hresp => exact absurd rfl (hresp hclient _)
  | acknowledged hserver hclient hup hnumber hfirst =>
      rcases List.cons.inj (hdown.symm.trans hfirst) with ⟨rfl, rfl⟩
      cases hshakes with
      | negotiated hstate => simp [hclient] at hstate
      | established _ hstate' _ hsame =>
          refine .established hserver (Or.inl hstate') ?_
          rw [hup]
          exact hnumber.trans hsame.symm
      | giveUp _ hack => exact absurd rfl (hack hclient _)
  | established _ hclient =>
      rcases hclient with hclient | hclient <;> simp [hclient] at hwaits
  | terminated hserver hearly hlate =>
      rw [hdown] at hearly hlate
      cases hshakes with
      | negotiated hstate hstate' =>
          refine .terminated hserver (by simp [hstate']) (fun _ _ later hlater => ?_)
          exact hearly (Or.inr hstate) later (List.mem_cons_of_mem _ (List.mem_of_mem_head? hlater))
      | established _ hstate' => exact .terminated hserver (by simp [hstate']) (by simp [hstate'])
      | giveUp =>
          refine .terminated hserver (fun hstate later hlater => ?_) (by simp)
          exact hearly hstate later (List.mem_cons_of_mem _ hlater)

/-- A call that ends a session sends no report and hands nothing on. -/
theorem Delivers.finish (hdelivers : Delivers x es) {t : Session} {effects : List SessionEffect}
    {up : List ClientMessage} (ht : t.state = .terminated)
    (hforwards : forwardedBy effects = [])
    (hgap : ∀ na, SessionEffect.send (.notApplied na) ∉ effects)
    (hreports : (sentBy effects).filter Outbound.IsReport = [])
    (hout : t.nextOutSeq = x.server.nextOutSeq) :
    Delivers
      { x with server := t, toServer := up, toClient := x.toClient ++ sentBy effects }
      (es ++ effects.map .session) := by
  refine hdelivers.serve (fun _ => ht) (fun hopen => absurd ht hopen) (fun _ => hforwards) hgap ?_
    (fun _ => Or.inr ht)
  rw [hreports, hout]
  rfl

theorem Sound.told (hsound : Sound x es) {t : Session} {effects : List SessionEffect}
    (hsaid : x.server.Says t effects) :
    Sound { x with server := t, toClient := x.toClient ++ sentBy effects }
      (es ++ effects.map .session) := by
  refine ⟨hsound.phase.told hsaid, ?_⟩
  have hdelivers := hsound.delivers
  cases hsaid with
  | nothing =>
      exact hdelivers.serve id (fun _ => rfl) (fun _ => rfl) (by simp) rfl hdelivers.agreed
  | beat hstate ht _ hout =>
      refine hdelivers.serve (by simp [hstate]) (fun _ => rfl) (fun _ => rfl) (by simp) ?_
        (fun _ => Or.inl ht)
      exact hout.symm
  | report hstate ht _ hout =>
      refine hdelivers.serve (by simp [hstate]) (fun _ => rfl) (fun _ => rfl) (by simp) ?_
        (fun _ => Or.inl ht)
      rw [hout]
      exact numbered_singleton rfl
  | finish _ ht hout => exact hdelivers.finish ht rfl (by simp) rfl hout
  | lapse _ ht hout => exact hdelivers.finish ht rfl (by simp) rfl hout

theorem Sound.hears (hsound : Sound x es) {msg : ClientMessage} {up : List ClientMessage}
    (hup : x.toServer = msg :: up) {t : Session} {effects : List SessionEffect}
    (hhears : x.server.Hears msg t effects) (hout : t.nextOutSeq = x.server.nextOutSeq) :
    Sound { x with server := t, toServer := up, toClient := x.toClient ++ sentBy effects }
      (es ++ effects.map .session) := by
  refine ⟨hsound.phase.hears hup hhears, ?_⟩
  have hdelivers := hsound.delivers
  cases hhears with
  | ignore hunwanted ht =>
      refine hdelivers.serve ht.trans (fun hopen => ?_) (fun _ => rfl) (by simp) hout.symm
        (fun hclient => by rw [ht]; exact hdelivers.agreed hclient)
      have hnone := hsound.phase.seqNum?_of_not_wants hup (ht ▸ hopen) hunwanted
      simp [forwardedBy, hup, ClientMessage.IsRequest, hnone]
  | negotiate hstate ht =>
      refine hdelivers.serve (by simp [hstate]) (fun _ => ?_) (by simp [ht]) (by simp) hout.symm
        (fun hclient => ?_)
      · simp [forwardedBy, hup, ClientMessage.IsRequest, ClientMessage.seqNum?]
      · simpa [hstate] using hdelivers.agreed hclient
  | establish hstate ht =>
      refine hdelivers.serve (by simp [hstate]) (fun _ => ?_) (by simp [ht]) (by simp) hout.symm
        (fun _ => Or.inl ht)
      simp [forwardedBy, hup, ClientMessage.IsRequest, ClientMessage.seqNum?]
  | handOn hstate ht hseq =>
      rcases hsound.phase.expected hup hstate hseq with ⟨rfl, -, -⟩
      rw [gapBefore_self, List.map_nil, List.nil_append]
      refine hdelivers.serve (by simp [hstate]) (fun _ => ?_) (by simp [ht]) (by simp) hout.symm
        (fun _ => Or.inl ht)
      simp [forwardedBy, hup, ClientMessage.IsRequest, hseq]
  | finish _ ht => exact hdelivers.finish ht rfl (by simp) rfl hout

/-- A client in session sends a request under its next number, or another message. -/
theorem Sound.say (hsound : Sound x es) {client : Client} {msg : ClientMessage}
    (hclient : x.client.session.InSession) (hclient' : client.session.InSession)
    (hnumber : Numbered ClientMessage.seqNum? x.client.session.nextOutSeqNo [msg]
      client.session.nextOutSeqNo) :
    Sound (x.speak (client, [msg])).1 (es ++ (x.speak (client, [msg])).2) := by
  refine ⟨hsound.phase.say hclient hclient' hnumber x.toClient,
    hsound.delivers.speak ?_ rfl (fun _ => hsound.delivers.agreed hclient)
      (fun _ => Or.inl hclient')⟩
  cases hseq : msg.seqNum? with
  | none =>
      rw [numbered_cons_of_none hseq] at hnumber
      simpa [ClientMessage.IsRequest, hseq] using hnumber
  | some n => simpa [ClientMessage.IsRequest, hseq] using hnumber

theorem Sound.stay (hsound : Sound x es) : Sound x (es ++ []) := by
  rwa [List.append_nil]

theorem Sound.speak_nothing (hsound : Sound x es) :
    Sound (x.speak (x.client, [])).1 (es ++ (x.speak (x.client, [])).2) := by
  simpa [speak] using hsound

theorem Sound.connect (hsound : Sound x es) (uuid now : UInt64) :
    Sound (x.speak (x.client.connect uuid now)).1
      (es ++ (x.speak (x.client.connect uuid now)).2) := by
  by_cases hstate : x.client.session.state = .disconnected
  · rw [Client.connect, if_pos hstate]
    refine ⟨hsound.phase.connect _ hstate rfl,
      hsound.delivers.speak rfl rfl (by simp [ClientSession.InSession])
        (fun hclosed => ?_)⟩
    refine Or.inr ((hsound.delivers.refused hclosed).resolve_left ?_)
    simp [ClientSession.InSession, hstate]
  · rw [Client.connect, if_neg hstate]
    exact hsound.speak_nothing

theorem Sound.handshake (hsound : Sound x es) {msg : Outbound} {rest : List Outbound}
    (hdown : x.toClient = msg :: rest) (hopen : x.client.closed = false)
    (hwaits : x.client.session.state = .negotiateSent ∨
      x.client.session.state = .establishSent) (now : UInt64) :
    Sound ({ x with toClient := rest }.speak (x.client.handshake now msg.toBytes)).1
      (es ++ ({ x with toClient := rest }.speak (x.client.handshake now msg.toBytes)).2) := by
  have hshakes := Client.handshake_shakes now msg.toBytes hwaits
  generalize x.client.handshake now msg.toBytes = outcome at hshakes ⊢
  rcases outcome with ⟨client, msgs⟩
  rcases hsound.phase.awaited hdown hopen hwaits with ⟨hnone, hawaited⟩
  have hrest : rest.filter Outbound.IsReport = x.toClient.filter Outbound.IsReport := by
    simp [hdown, Outbound.IsReport, hnone]
  have hphase := hsound.phase.shake hdown hwaits hshakes
  refine ⟨hphase, ?_⟩
  cases hshakes with
  | negotiated _ _ hclosed hsame | established _ _ hclosed hsame =>
      exact hsound.delivers.speak hsame.symm hrest hphase.agreed (by simp [hclosed, hopen])
  | giveUp hresp hack =>
      refine hsound.delivers.speak rfl hrest hphase.agreed (fun _ => Or.inr ?_)
      rcases hawaited with hended | ⟨hstate, resp, rfl⟩ | ⟨hstate, ack, rfl⟩
      · exact hended
      · exact absurd rfl (hresp hstate resp)
      · exact absurd rfl (hack hstate ack)

theorem Sound.read (hsound : Sound x es) {msg : Outbound} {rest : List Outbound}
    (hdown : x.toClient = msg :: rest) (hclient : x.client.session.InSession) :
    Sound { x with client := x.client.read msg.toBytes, toClient := rest }
      (es ++ [.clientReads msg]) := by
  rcases x.client.read_keeps msg.toBytes with ⟨hsame, hin, hclosed⟩
  have hphase := hsound.phase.quiet (x.client.read msg.toBytes) hclient (hin hclient) hsame rest
  have hdelivers := hsound.delivers
  refine ⟨hphase, ?_, ?_, ?_, ?_, ?_, ?_, hphase.agreed, fun _ => Or.inl (hin hclient)⟩
  · simpa [requestsSent, hsame] using hdelivers.requests_numbered
  · simpa [requestsSent, handedOn, effectsOf] using hdelivers.handed_prefix
  · simpa [requestsSent, handedOn, effectsOf] using hdelivers.handed_eq
  · simpa using hdelivers.no_gap
  · simpa [reportsSent, effectsOf] using hdelivers.reports_numbered
  · have heq := hdelivers.reports_eq
    cases hreport : msg.IsReport <;>
      simpa [reportsSent, reportsRead, effectsOf, hdown, hreport] using heq

theorem Sound.shutdown (hsound : Sound x es) :
    Sound { x with client := x.client.shutdown } es := by
  by_cases hrunning : x.client.Running
  · rw [Client.shutdown, if_pos hrunning]
    have hphase := hsound.phase.quiet { x.client with mainDone := true, closed := true }
      hrunning.2 hrunning.2 rfl x.toClient
    have hdelivers := hsound.delivers
    exact ⟨hphase, { hdelivers with refused := fun _ => Or.inl hrunning.2 }⟩
  · rw [Client.shutdown, if_neg hrunning]
    exact hsound

/-- Every step of either side keeps the invariant. -/
theorem Sound.step (hsound : Sound x es) (auth : HmacAuthenticator) (op : ConversationOp) :
    Sound ((machine auth).step x op).1 (es ++ ((machine auth).step x op).2) := by
  cases op with
  | connect uuid now => exact hsound.connect uuid now
  | handshake now =>
      simp only [machine]
      split
      · exact hsound.stay
      · rename_i hopen
        split
        · rename_i msg rest hstate hdown
          exact hsound.handshake hdown (by simpa using hopen) (Or.inl hstate) now
        · rename_i msg rest hstate hdown
          exact hsound.handshake hdown (by simpa using hopen) (Or.inr hstate) now
        · exact hsound.stay
  | read =>
      simp only [machine]
      split
      · rename_i hrunning
        split
        · exact hsound.stay
        · rename_i msg rest hdown
          exact hsound.read hdown hrunning.2
      · exact hsound.stay
  | request now command =>
      simp only [machine, Client.request]
      split
      · rename_i hrunning
        rcases x.client.session.perform_numbered now command with ⟨hseq, hnext, hstate⟩
        refine hsound.say hrunning.1.2 ?_ ?_
        · rw [ClientSession.InSession, hstate]
          exact hrunning.1.2
        · rw [hnext]
          exact numbered_singleton hseq
      · exact hsound.speak_nothing
  | heartbeat =>
      simp only [machine, Client.heartbeat]
      split
      · rename_i hrunning
        exact hsound.say hrunning.2 hrunning.2 rfl
      · exact hsound.speak_nothing
  | quit now =>
      simp only [machine, Client.quit]
      split
      · rename_i hrunning
        exact hsound.say hrunning.1.2 (Or.inr rfl) rfl
      · exact hsound.speak_nothing
  | shutdown =>
      simp only [machine, List.append_nil]
      exact hsound.shutdown
  | onMessage clock =>
      simp only [machine]
      split
      · exact hsound.stay
      · rename_i msg up hup
        rcases x.server.hears auth clock msg with ⟨t, effects, hhandled, hhears⟩
        have hsaid := hsound.hears hup hhears (Session.nextOutSeq_of_onMessage hhandled)
        simpa [serve, Session.machine, Session.apply, hhandled] using hsaid
  | onTimer clock => exact hsound.told (Session.says_onTimer x.server clock)
  | report clock sbeData => exact hsound.told (Session.says_report x.server clock sbeData)
  | terminate clock errorCode =>
      exact hsound.told (Session.says_terminate x.server clock errorCode)

end Conversation

/-- A client that has not connected, with whatever its buffers hold, and a new session. -/
def Conversation.start (buf : List UInt8) (payload : ReaderBuffer) (uuid : UInt64) (now : Int)
    (hmacEnabled : Bool) (hmacKey : List UInt8) : Conversation where
  client := { session := {}, buf := buf, payload := payload }
  server :=
    { uuid := uuid
      lastReceived := now
      lastSent := now
      hmacEnabled := hmacEnabled
      hmacKey := hmacKey }

theorem Conversation.sound_start (buf : List UInt8) (payload : ReaderBuffer) (uuid : UInt64)
    (now : Int) (hmacEnabled : Bool) (hmacKey : List UInt8) :
    Sound (start buf payload uuid now hmacEnabled hmacKey) [] where
  phase := .idle rfl rfl rfl rfl
  delivers :=
    { requests_numbered := rfl
      handed_prefix := List.prefix_rfl
      handed_eq := fun _ => rfl
      no_gap := by simp
      reports_numbered := rfl
      reports_eq := rfl
      agreed := by simp [start, ClientSession.InSession]
      refused := by simp [start] }

/-- Over every interleaving of the two programs, requests and reports are delivered in order,
none twice and none left out, and the session declares no gap. -/
theorem conversation_delivers (auth : HmacAuthenticator) (buf : List UInt8)
    (payload : ReaderBuffer) (uuid : UInt64) (now : Int) (hmacEnabled : Bool)
    (hmacKey : List UInt8) (ops : List ConversationOp) :
    let x := Conversation.start buf payload uuid now hmacEnabled hmacKey
    Conversation.Delivers ((Conversation.machine auth).run x ops).1
      ((Conversation.machine auth).run x ops).2 := by
  intro x
  have hadmits : (Conversation.machine auth).Admits (fun _ _ => True) x ops :=
    Machine.admits_of_forall (fun _ _ => trivial) x ops
  have hrun := Machine.history_invariant (P := fun _ y es => Conversation.Sound y es)
    (Conversation.sound_start buf payload uuid now hmacEnabled hmacKey)
    (fun _ _ _ op hsound _ => hsound.step auth op) ops hadmits
  exact hrun.delivers

/-- A handshake without signatures goes through. -/
theorem handshake_completes (auth : HmacAuthenticator) (buf : List UInt8)
    (payload : ReaderBuffer) (uuid : UInt64) (now : Int) (hmacKey : List UInt8)
    (clientUuid sent later latest : UInt64) (clock clock' : SessionClock) :
    let x := Conversation.start buf payload uuid now false hmacKey
    let y := ((Conversation.machine auth).run x [.connect clientUuid sent, .onMessage clock,
      .handshake later, .onMessage clock', .handshake latest]).1
    y.client.session.state = .established ∧ y.server.state = .established := by
  have hresp : ∀ old msg, ClientSession.expect NegotiationResponse501.format {} old
      (NegotiationResponse501.format.toBytes msg) = some msg :=
    fun old msg => ClientSession.expect_toBytes _ _ _ _ (by decide)
  have hack : ∀ old msg, ClientSession.expect EstablishmentAck504.format {} old
      (EstablishmentAck504.format.toBytes msg) = some msg :=
    fun old msg => ClientSession.expect_toBytes _ _ _ _ (by decide)
  have hneg : InboundTemplate.ofId Negotiate500.format.templateId = .negotiate := by decide
  have hest : InboundTemplate.ofId Establish503.format.templateId = .establish := by decide
  simp [Conversation.start, Conversation.machine, Machine.run, Conversation.speak,
    Conversation.serve, Conversation.sentBy, Client.connect, Client.handshake,
    ClientSession.sendNegotiate, ClientSession.onNegotiationResponse, ClientSession.sendEstablish,
    ClientSession.onEstablishmentAck, ClientMessage.toBytes, Outbound.toBytes, Session.machine,
    Session.apply, Session.onMessage_toBytes, Session.handleNegotiate, Session.handleEstablish,
    Session.verifyHmac, Session.sendNegotiationResponse, Session.sendEstablishmentAck,
    Session.sendFramedMessage, MessageFormat.decode_toBytes, hneg, hest, hresp, hack]

end SimCme
