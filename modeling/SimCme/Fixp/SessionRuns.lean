import SimCme.Fixp.Session

/-!
# Runs of a session

The calls on a session are taken one by one.  A call leaves the state as it is,
accepts a handshake message or ends the session; everything else about runs
follows from that.

Main results:

- Theorem {lit}`Session.apply_isSome`: which calls stay within their message.
- Theorem {lit}`Session.step_does`: what one call does.
- Theorem {lit}`Session.safety_of_run`: over every run, the state follows the
  protocol, messages reach the gateway only after an accepted handshake, and a
  Terminate is the last thing sent.
-/

open Library

namespace SimCme

/-! ## Calls that stay within their message -/

/-- The messages whose sequence number is read without a look at their length. -/
def InboundTemplate.ReadsSeqUnchecked (templateId : UInt16) : Prop :=
  templateId = NewOrderSingle514.format.templateId ∨
    templateId = OrderCancelReplaceRequest515.format.templateId ∨
    templateId = OrderCancelRequest516.format.templateId

instance InboundTemplate.decidableReadsSeqUnchecked (templateId : UInt16) :
    Decidable (InboundTemplate.ReadsSeqUnchecked templateId) :=
  inferInstanceAs (Decidable (_ ∨ _ ∨ _))

/-- How far a session reads into a message. -/
def InboundTemplate.readLength : SessionState → InboundTemplate → Nat
  | .connected, .negotiate => Negotiate500.format.encodedLength
  | .negotiated, .establish => Establish503.format.encodedLength
  | .established, .sequence => Sequence506.format.encodedLength
  | _, .terminate => Terminate507.format.encodedLength
  | .established, .retransmitRequest => RetransmitRequest508.format.encodedLength
  | .established, .application templateId =>
      if ReadsSeqUnchecked templateId then MessageHeader.layout.size + 21
      else MessageHeader.layout.size
  | _, _ => MessageHeader.layout.size

namespace Session

open InboundTemplate

variable {auth : HmacAuthenticator} {s t : Session} {clock : SessionClock}
  {data : List UInt8} {effects : List SessionEffect}

theorem hmacDataLen_fits (len : Nat) : 8 + 32 + hmacDataLen len ≤ len ↔ 8 + 32 ≤ len := by
  simp only [hmacDataLen, UInt64.toNat_sub, UInt64.toNat_ofNat', UInt64.reduceToNat]
  omega

theorem verifyHmac_isSome (auth : HmacAuthenticator) (s : Session)
    (hlen : 8 + 32 ≤ data.length) : (s.verifyHmac auth data).isSome := by
  have hsignature : (readAt data 8 32).isSome := by
    rw [readAt_isSome]
    exact hlen
  have hdata : (readAt data (8 + 32) (hmacDataLen data.length)).isSome := by
    rw [readAt_isSome]
    exact (hmacDataLen_fits data.length).mpr hlen
  obtain ⟨signature, hsignature⟩ := Option.isSome_iff_exists.mp hsignature
  obtain ⟨hmacData, hdata⟩ := Option.isSome_iff_exists.mp hdata
  by_cases henabled : s.hmacEnabled <;> simp [verifyHmac, henabled, hsignature, hdata]

/-- The two handshake handlers decode the message, check its signature and then
have a result. -/
theorem handshake_isSome {σ : Type} (format : MessageFormat σ) (old : σ)
    (auth : HmacAuthenticator) (s : Session) (hsize : 32 ≤ format.layout.size)
    (hlen : MessageHeader.layout.size ≤ data.length) (answer : σ → Bool → Option Outcome)
    (hanswer : ∀ msg accepted, (answer msg accepted).isSome) :
    ((format.decode old data 0).bind fun msg =>
        (s.verifyHmac auth data).bind (answer msg)).isSome ↔
      format.encodedLength ≤ data.length := by
  rw [← format.decode_isSome old hlen]
  cases hdecode : format.decode old data 0 with
  | none => simp
  | some msg =>
      have hfull : format.encodedLength ≤ data.length := by
        rw [← format.decode_isSome old hlen, hdecode]
        rfl
      have hsigned : 8 + 32 ≤ data.length := by
        have hheader : MessageHeader.layout.size = 8 := rfl
        simp only [MessageFormat.encodedLength] at hfull
        omega
      obtain ⟨accepted, haccepted⟩ :=
        Option.isSome_iff_exists.mp (verifyHmac_isSome auth s hsigned)
      simp [haccepted, hanswer]

theorem handleNegotiate_isSome (hlen : MessageHeader.layout.size ≤ data.length) :
    (s.handleNegotiate auth clock data).isSome ↔
      (s.state = .connected → Negotiate500.format.encodedLength ≤ data.length) := by
  by_cases hstate : s.state = .connected
  · simp only [handleNegotiate, hstate, ne_eq, not_true_eq_false, if_false, forall_true_left]
    refine handshake_isSome Negotiate500.format {} auth s (by decide) hlen _ ?_
    intro msg accepted
    cases accepted <;> rfl
  · simp [handleNegotiate, hstate]

theorem handleEstablish_isSome (hlen : MessageHeader.layout.size ≤ data.length) :
    (s.handleEstablish auth clock data).isSome ↔
      (s.state = .negotiated → Establish503.format.encodedLength ≤ data.length) := by
  by_cases hstate : s.state = .negotiated
  · simp only [handleEstablish, hstate, ne_eq, not_true_eq_false, if_false, forall_true_left]
    refine handshake_isSome Establish503.format {} auth s (by decide) hlen _ ?_
    intro msg accepted
    cases accepted <;> rfl
  · simp [handleEstablish, hstate]

theorem handleSequence_isSome (hlen : MessageHeader.layout.size ≤ data.length) :
    (s.handleSequence data).isSome ↔
      (s.state = .established → Sequence506.format.encodedLength ≤ data.length) := by
  rw [← Sequence506.format.decode_isSome {} hlen]
  by_cases hstate : s.state = .established
  · cases hdecode : Sequence506.format.decode {} data 0 <;>
      simp [handleSequence, hstate, hdecode]
  · simp [handleSequence, hstate]

theorem handleTerminate_isSome (hlen : MessageHeader.layout.size ≤ data.length) :
    (s.handleTerminate clock data).isSome ↔
      Terminate507.format.encodedLength ≤ data.length := by
  rw [← Terminate507.format.decode_isSome {} hlen]
  cases hdecode : Terminate507.format.decode {} data 0 <;> simp [handleTerminate, hdecode]

theorem handleRetransmitRequest_isSome (hlen : MessageHeader.layout.size ≤ data.length) :
    (s.handleRetransmitRequest clock data).isSome ↔
      (s.state = .established → RetransmitRequest508.format.encodedLength ≤ data.length) := by
  rw [← RetransmitRequest508.format.decode_isSome {} hlen]
  by_cases hstate : s.state = .established
  · cases hdecode : RetransmitRequest508.format.decode {} data 0 with
    | none => simp [handleRetransmitRequest, hstate, hdecode]
    | some req =>
        simp only [handleRetransmitRequest, hstate, ne_eq, not_true_eq_false, if_false,
          hdecode, Option.bind_eq_bind, Option.bind_some]
        split <;> simp
  · simp [handleRetransmitRequest, hstate]

theorem clientSeq_isSome (templateId : UInt16) (data : List UInt8) :
    (clientSeq templateId data).isSome ↔
      (ReadsSeqUnchecked templateId → 8 + 21 ≤ data.length) := by
  by_cases hnamed : ReadsSeqUnchecked templateId
  · have hseq : clientSeq templateId data =
        (readAt data (8 + 17) 4).map Wire.uint32.ofBytes := if_pos hnamed
    simp [hseq, hnamed]
  · have hseq : clientSeq templateId data =
        if data.length ≥ 8 + 21 then (readAt data (8 + 17) 4).map Wire.uint32.ofBytes
        else some 0 := if_neg hnamed
    by_cases hlen : 8 + 21 ≤ data.length
    · simp [hseq, hnamed, hlen]
    · simp [hseq, hnamed, hlen]

theorem handleApplicationMessage_isSome (templateId : UInt16) :
    (s.handleApplicationMessage clock templateId data).isSome ↔
      (s.state = .established → ReadsSeqUnchecked templateId → 8 + 21 ≤ data.length) := by
  by_cases hstate : s.state = .established
  · rw [← clientSeq_isSome]
    cases hseq : clientSeq templateId data <;>
      simp [handleApplicationMessage, hstate, hseq]
  · simp [handleApplicationMessage, hstate]

/-- A message is handled within its bounds exactly when it is as long as the
session reads. -/
theorem onMessage_isSome (auth : HmacAuthenticator) (s : Session) (clock : SessionClock)
    {templateId : UInt16} (hlen : MessageHeader.layout.size ≤ data.length)
    (htemplate : MessageHeader.decodeTemplateId data = some templateId) :
    (s.onMessage auth clock data).isSome ↔
      (ofId templateId).readLength s.state ≤ data.length := by
  simp only [onMessage, Nat.not_lt.mpr hlen, if_false, htemplate, Option.bind_eq_bind,
    Option.bind_some]
  cases hkind : ofId templateId with
  | negotiate =>
      rw [handleNegotiate_isSome hlen]
      cases hstate : s.state <;> simp [readLength, hlen]
  | establish =>
      rw [handleEstablish_isSome hlen]
      cases hstate : s.state <;> simp [readLength, hlen]
  | sequence =>
      rw [handleSequence_isSome hlen]
      cases hstate : s.state <;> simp [readLength, hlen]
  | terminate =>
      rw [handleTerminate_isSome hlen]
      cases hstate : s.state <;> simp [readLength]
  | retransmitRequest =>
      rw [handleRetransmitRequest_isSome hlen]
      cases hstate : s.state <;> simp [readLength, hlen]
  | application id =>
      rw [handleApplicationMessage_isSome]
      cases hstate : s.state
      case established =>
        by_cases hnamed : ReadsSeqUnchecked id
        · simp [readLength, hnamed]
          rfl
        · simp [readLength, hnamed, hlen]
      all_goals simp [readLength, hlen]
  | unknown => cases hstate : s.state <;> simp [readLength, hlen]

end Session

/-! ## What one call does -/

namespace InboundTemplate

variable {templateId : UInt16}

theorem id_of_negotiate (hkind : ofId templateId = .negotiate) :
    templateId = Negotiate500.format.templateId := by
  simp only [ofId] at hkind
  split at hkind
  · assumption
  · repeat' split at hkind
    all_goals cases hkind

theorem id_of_establish (hkind : ofId templateId = .establish) :
    templateId = Establish503.format.templateId := by
  simp only [ofId] at hkind
  split at hkind
  · cases hkind
  split at hkind
  · assumption
  · repeat' split at hkind
    all_goals cases hkind

theorem id_of_application {id : UInt16} (hkind : ofId templateId = .application id) :
    templateId = id := by
  simp only [ofId] at hkind
  repeat' split at hkind
  all_goals cases hkind
  rfl

end InboundTemplate

/-- The moves of the session protocol. -/
inductive SessionState.Moves : SessionState → SessionState → Prop where
  | negotiate : Moves .connected .negotiated
  | establish : Moves .negotiated .established
  | terminate (state : SessionState) : Moves state .terminated

theorem SessionState.Moves.eq_terminated {state : SessionState}
    (hmoves : Moves .terminated state) : state = .terminated := by
  cases hmoves with
  | terminate => rfl

def SessionEffect.IsTerminate : SessionEffect → Prop
  | .send (.terminate _) => True
  | _ => False

def SessionEffect.IsForward : SessionEffect → Prop
  | .forward _ _ _ => True
  | _ => False

/-- An application message on its first sending. -/
def SessionEffect.IsApplication : SessionEffect → Prop
  | .send (.application _ _) => True
  | _ => False

/-- An answer of the session itself that does not end it. -/
def SessionEffect.IsAnswer : SessionEffect → Prop
  | .send (.terminate _) => False
  | .send (.application _ _) => False
  | .send _ => True
  | .forward _ _ _ => False

namespace SessionEffect

variable {e : SessionEffect}

theorem IsAnswer.not_terminate (hanswer : e.IsAnswer) : ¬e.IsTerminate := by
  rcases e with ⟨_ | _ | _ | _ | _ | _ | _ | _⟩ | _ <;> simp_all [IsAnswer, IsTerminate]

theorem IsAnswer.not_forward (hanswer : e.IsAnswer) : ¬e.IsForward := by
  cases e <;> simp_all [IsAnswer, IsForward]

theorem IsAnswer.not_application (hanswer : e.IsAnswer) : ¬e.IsApplication := by
  rcases e with ⟨_ | _ | _ | _ | _ | _ | _ | _⟩ | _ <;> simp_all [IsAnswer, IsApplication]

theorem IsForward.not_terminate (hforward : e.IsForward) : ¬e.IsTerminate := by
  cases e <;> simp_all [IsForward, IsTerminate]

theorem IsForward.not_application (hforward : e.IsForward) : ¬e.IsApplication := by
  cases e <;> simp_all [IsForward, IsApplication]

end SessionEffect

namespace Session

/-- What no call changes: the id of the session and how it is authenticated. -/
def config (s : Session) : UInt64 × Bool × List UInt8 :=
  (s.uuid, s.hmacEnabled, s.hmacKey)

/-- The numbering of the application messages sent, and those kept to send again. -/
def outbox (s : Session) : UInt32 × RetransmitBuffer :=
  (s.nextOutSeq, s.retransmitBuffer)

/-- A step that changes neither the configuration nor the outbox. -/
structure Keeps (s t : Session) : Prop where
  config_eq : t.config = s.config
  outbox_eq : t.outbox = s.outbox

/-- The signature of a handshake message, over the rest of its body, is accepted
under a key. -/
def Signed (auth : HmacAuthenticator) (key data : List UInt8) : Prop :=
  ∃ signature hmacData,
    readAt data 8 32 = some signature ∧
      readAt data (8 + 32) (hmacDataLen data.length) = some hmacData ∧
      auth.verify key hmacData signature = true

/-- A session accepts a handshake message of a template in a state. -/
structure Accepts (auth : HmacAuthenticator) (s : Session) (data : List UInt8)
    (source : SessionState) (templateId : UInt16) : Prop where
  source_eq : s.state = source
  template_eq : MessageHeader.decodeTemplateId data = some templateId
  signed : s.hmacEnabled → Signed auth s.hmacKey data

/-- An effect that hands on the application message of a call. -/
structure Forwards (s : Session) (op : SessionOp) (e : SessionEffect) : Prop where
  established : s.state = .established
  received : ∃ clock data templateId, op = .onMessage clock data ∧
    MessageHeader.decodeTemplateId data = some templateId ∧
    InboundTemplate.ofId templateId = .application templateId ∧
    e = .forward s.uuid templateId data

theorem Forwards.isForward {s : Session} {op : SessionOp} {e : SessionEffect}
    (hforwards : Forwards s op e) : e.IsForward := by
  obtain ⟨clock, data, templateId, -, -, -, rfl⟩ := hforwards.received
  trivial

/-- What a call does: the state stays and messages are answered or forwarded, an
application message is sent, a handshake message is accepted, or the session ends
with a Terminate. -/
inductive Does (auth : HmacAuthenticator) (s : Session) (op : SessionOp) :
    Session → List SessionEffect → Prop where
  | stay {t effects} (hkeeps : Keeps s t) (hstate : t.state = s.state)
      (hsilent : s.state = .terminated → effects = [])
      (hanswers : ∀ e ∈ effects, e.IsAnswer ∨ Forwards s op e) :
      Does auth s op t effects
  | deliver {clock sbeData t effects} (hop : op = .sendApplicationMessage clock sbeData)
      (heffects : effects = [.send (.application s.nextOutSeq sbeData)])
      (hestablished : s.state = .established) (hconfig : t.config = s.config)
      (hstate : t.state = .established)
      (houtbox : t.outbox =
        (s.nextOutSeq + 1, s.retransmitBuffer.store s.nextOutSeq sbeData)) :
      Does auth s op t effects
  | negotiate {clock data t effects} (hop : op = .onMessage clock data)
      (haccepts : Accepts auth s data .connected Negotiate500.format.templateId)
      (hkeeps : Keeps s t) (hstate : t.state = .negotiated)
      (hanswers : ∀ e ∈ effects, e.IsAnswer) :
      Does auth s op t effects
  | establish {clock data t effects} (hop : op = .onMessage clock data)
      (haccepts : Accepts auth s data .negotiated Establish503.format.templateId)
      (hkeeps : Keeps s t) (hstate : t.state = .established)
      (hanswers : ∀ e ∈ effects, e.IsAnswer) :
      Does auth s op t effects
  | finish {t effects before msg} (heffects : effects = before ++ [.send (.terminate msg)])
      (hkeeps : Keeps s t) (hopen : s.state ≠ .terminated) (hstate : t.state = .terminated)
      (hanswers : ∀ e ∈ before, SessionEffect.IsAnswer e) :
      Does auth s op t effects

variable {auth : HmacAuthenticator} {s t : Session} {clock : SessionClock}
  {op : SessionOp} {data : List UInt8} {effects : List SessionEffect}

theorem Does.ignored (auth : HmacAuthenticator) (s : Session) (op : SessionOp) :
    Does auth s op s [] :=
  .stay ⟨rfl, rfl⟩ rfl (fun _ => rfl) (by simp)

/-- The time of the last message does not matter for what a call does. -/
theorem Does.of_received {received : Int}
    (hdoes : Does auth { s with lastReceived := received } op t effects) :
    Does auth s op t effects := by
  cases hdoes with
  | stay hkeeps hstate hsilent hanswers =>
      exact .stay ⟨hkeeps.config_eq, hkeeps.outbox_eq⟩ hstate hsilent fun e he =>
        (hanswers e he).imp_right fun hforwards => ⟨hforwards.established, hforwards.received⟩
  | deliver hop heffects hestablished hconfig hstate houtbox =>
      exact .deliver hop heffects hestablished hconfig hstate houtbox
  | negotiate hop haccepts hkeeps hstate hanswers =>
      exact .negotiate hop ⟨haccepts.source_eq, haccepts.template_eq, haccepts.signed⟩
        ⟨hkeeps.config_eq, hkeeps.outbox_eq⟩ hstate hanswers
  | establish hop haccepts hkeeps hstate hanswers =>
      exact .establish hop ⟨haccepts.source_eq, haccepts.template_eq, haccepts.signed⟩
        ⟨hkeeps.config_eq, hkeeps.outbox_eq⟩ hstate hanswers
  | finish heffects hkeeps hopen hstate hanswers =>
      exact .finish heffects ⟨hkeeps.config_eq, hkeeps.outbox_eq⟩ hopen hstate hanswers

theorem terminate_does (auth : HmacAuthenticator) (s : Session) (op : SessionOp)
    (clock : SessionClock) (errorCode : UInt16) :
    Does auth s op (s.terminate clock errorCode).1 (s.terminate clock errorCode).2 := by
  by_cases hstate : s.state = .terminated
  · rw [terminate, if_pos hstate]
    exact .ignored auth s op
  · rw [terminate, if_neg hstate]
    exact .finish (List.nil_append _).symm ⟨rfl, rfl⟩ hstate rfl (by simp)

theorem sendApplicationMessage_does (auth : HmacAuthenticator) (s : Session)
    (clock : SessionClock) (sbeData : List UInt8) :
    Does auth s (.sendApplicationMessage clock sbeData)
      (s.sendApplicationMessage clock sbeData).1
      (s.sendApplicationMessage clock sbeData).2 := by
  by_cases hstate : s.state = .established
  · rw [sendApplicationMessage, if_neg (not_not.mpr hstate)]
    exact .deliver rfl rfl hstate rfl hstate rfl
  · rw [sendApplicationMessage, if_pos hstate]
    exact .ignored auth s _

theorem onTimer_does (auth : HmacAuthenticator) (s : Session) (op : SessionOp)
    (clock : SessionClock) :
    Does auth s op (s.onTimer clock).1 (s.onTimer clock).2 := by
  by_cases hstate : s.state = .established
  · simp only [onTimer, hstate, ne_eq, not_true_eq_false, if_false]
    -- a heartbeat leaves the state alone, so only a timeout can end the session
    generalize hheartbeat :
      (if millisecondsSince s.lastSent clock.now ≥ s.keepAliveIntervalMs.toNat then
        s.sendSequenceHeartbeat clock else (s, [])) = beat
    have hbeat : Keeps s beat.1 ∧ beat.1.state = .established ∧ ∀ e ∈ beat.2, e.IsAnswer := by
      subst hheartbeat
      split
      · exact ⟨⟨rfl, rfl⟩, hstate, by simp [sendSequenceHeartbeat, sendFramedMessage,
          SessionEffect.IsAnswer]⟩
      · exact ⟨⟨rfl, rfl⟩, hstate, by simp⟩
    obtain ⟨hkeeps, hbeat, hanswers⟩ := hbeat
    split
    · rw [terminate, if_neg (by simp [hbeat])]
      exact .finish rfl ⟨hkeeps.config_eq, hkeeps.outbox_eq⟩ (by simp [hstate]) rfl hanswers
    · refine .stay hkeeps (hbeat.trans hstate.symm) (by simp [hstate]) ?_
      simpa using fun e he => .inl (hanswers e he)
  · rw [onTimer, if_pos hstate]
    exact .ignored auth s op

theorem signed_of_verifyHmac (hverified : s.verifyHmac auth data = some true)
    (henabled : s.hmacEnabled) : Signed auth s.hmacKey data := by
  simp only [verifyHmac, henabled, if_true, Option.bind_eq_bind, Option.pure_def,
    Option.bind_eq_some_iff, Option.some.injEq] at hverified
  obtain ⟨signature, hsignature, hmacData, hdata, hverify⟩ := hverified
  exact ⟨signature, hmacData, hsignature, hdata, hverify⟩

theorem handleNegotiate_does
    (htemplate : MessageHeader.decodeTemplateId data = some Negotiate500.format.templateId)
    (hhandled : s.handleNegotiate auth clock data = some (t, effects)) :
    Does auth s (.onMessage clock data) t effects := by
  by_cases hstate : s.state = .connected
  · simp only [handleNegotiate, hstate, ne_eq, not_true_eq_false, if_false,
      Option.bind_eq_bind, Option.bind_eq_some_iff] at hhandled
    obtain ⟨neg, -, accepted, hverified, hanswer⟩ := hhandled
    cases accepted with
    | true =>
        cases hanswer
        exact .negotiate rfl ⟨hstate, htemplate, signed_of_verifyHmac hverified⟩
          ⟨rfl, rfl⟩ rfl (by simp [SessionEffect.IsAnswer])
    | false =>
        obtain ⟨rfl, rfl⟩ := Prod.mk.inj (Option.some.inj hanswer)
        exact terminate_does auth s _ clock 8
  · rw [handleNegotiate, if_pos hstate] at hhandled
    cases hhandled
    exact .ignored auth s _

theorem handleEstablish_does
    (htemplate : MessageHeader.decodeTemplateId data = some Establish503.format.templateId)
    (hhandled : s.handleEstablish auth clock data = some (t, effects)) :
    Does auth s (.onMessage clock data) t effects := by
  by_cases hstate : s.state = .negotiated
  · simp only [handleEstablish, hstate, ne_eq, not_true_eq_false, if_false,
      Option.bind_eq_bind, Option.bind_eq_some_iff] at hhandled
    obtain ⟨est, -, accepted, hverified, hanswer⟩ := hhandled
    cases accepted with
    | true =>
        cases hanswer
        exact .establish rfl ⟨hstate, htemplate, signed_of_verifyHmac hverified⟩
          ⟨rfl, rfl⟩ rfl (by simp [SessionEffect.IsAnswer])
    | false =>
        obtain ⟨rfl, rfl⟩ := Prod.mk.inj (Option.some.inj hanswer)
        exact terminate_does auth s _ clock 8
  · rw [handleEstablish, if_pos hstate] at hhandled
    cases hhandled
    exact .ignored auth s _

theorem handleSequence_does (op : SessionOp)
    (hhandled : s.handleSequence data = some (t, effects)) : Does auth s op t effects := by
  have hignored : (t, effects) = (s, []) := by
    by_cases hstate : s.state = .established
    · simp only [handleSequence, hstate, ne_eq, not_true_eq_false, if_false,
        Option.bind_eq_bind, Option.bind_eq_some_iff] at hhandled
      obtain ⟨seq, -, hanswer⟩ := hhandled
      exact (Option.some.inj hanswer).symm
    · rw [handleSequence, if_pos hstate] at hhandled
      exact (Option.some.inj hhandled).symm
  cases hignored
  exact .ignored auth s op

theorem handleTerminate_does (op : SessionOp)
    (hhandled : s.handleTerminate clock data = some (t, effects)) :
    Does auth s op t effects := by
  simp only [handleTerminate, Option.bind_eq_bind, Option.bind_eq_some_iff] at hhandled
  obtain ⟨term, -, hanswer⟩ := hhandled
  obtain ⟨rfl, rfl⟩ := Prod.mk.inj (Option.some.inj hanswer)
  exact terminate_does auth s op clock 0

theorem handleRetransmitRequest_does (op : SessionOp)
    (hhandled : s.handleRetransmitRequest clock data = some (t, effects)) :
    Does auth s op t effects := by
  by_cases hstate : s.state = .established
  · simp only [handleRetransmitRequest, hstate, ne_eq, not_true_eq_false, if_false,
      Option.bind_eq_bind, Option.bind_eq_some_iff] at hhandled
    obtain ⟨req, -, hanswer⟩ := hhandled
    split at hanswer
    · cases hanswer
      exact .stay ⟨rfl, rfl⟩ rfl (by simp [hstate]) (by simp [SessionEffect.IsAnswer])
    · cases hanswer
      refine .stay ⟨rfl, rfl⟩ rfl (by simp [hstate]) ?_
      intro e he
      simp only [sendRetransmission, sendFramedMessage, List.singleton_append, List.mem_cons,
        List.mem_map, List.mem_filterMap, Option.map_eq_some_iff] at he
      obtain rfl | ⟨_, ⟨seq, -, msg, -, rfl⟩, rfl⟩ := he <;> exact .inl trivial
  · rw [handleRetransmitRequest, if_pos hstate] at hhandled
    cases hhandled
    exact .ignored auth s op

theorem handleApplicationMessage_does {templateId : UInt16}
    (htemplate : MessageHeader.decodeTemplateId data = some templateId)
    (hkind : InboundTemplate.ofId templateId = .application templateId)
    (hhandled : s.handleApplicationMessage clock templateId data = some (t, effects)) :
    Does auth s (.onMessage clock data) t effects := by
  by_cases hstate : s.state = .established
  · simp only [handleApplicationMessage, hstate, ne_eq, not_true_eq_false, if_false,
      Option.bind_eq_bind, Option.bind_eq_some_iff] at hhandled
    obtain ⟨seq, -, hanswer⟩ := hhandled
    obtain ⟨rfl, rfl⟩ := Prod.mk.inj (Option.some.inj hanswer)
    refine .stay ?_ ?_ (by simp [hstate]) ?_
    · constructor <;> split <;> split <;> rfl
    · split <;> split <;> rfl
    · intro e he
      rcases List.mem_append.mp he with hgap | hlast
      · left
        split at hgap
        · obtain rfl := List.mem_singleton.mp hgap
          trivial
        · simp at hgap
      · right
        refine ⟨hstate, clock, data, templateId, rfl, htemplate, hkind, ?_⟩
        rw [List.mem_singleton.mp hlast]
        split <;> split <;> rfl
  · rw [handleApplicationMessage, if_pos hstate] at hhandled
    cases hhandled
    exact .ignored auth s _

theorem onMessage_does (hhandled : s.onMessage auth clock data = some (t, effects)) :
    Does auth s (.onMessage clock data) t effects := by
  by_cases hlen : data.length < MessageHeader.layout.size
  · rw [onMessage, if_pos hlen] at hhandled
    cases hhandled
    exact .ignored auth s _
  · simp only [onMessage, hlen, if_false, Option.bind_eq_bind, Option.bind_eq_some_iff]
      at hhandled
    obtain ⟨templateId, htemplate, hhandled⟩ := hhandled
    apply Does.of_received
    split at hhandled
    case h_1 hkind =>
      rw [InboundTemplate.id_of_negotiate hkind] at htemplate
      exact handleNegotiate_does htemplate hhandled
    case h_2 hkind =>
      rw [InboundTemplate.id_of_establish hkind] at htemplate
      exact handleEstablish_does htemplate hhandled
    case h_3 => exact handleSequence_does _ hhandled
    case h_4 => exact handleTerminate_does _ hhandled
    case h_5 => exact handleRetransmitRequest_does _ hhandled
    case h_6 hkind =>
      obtain rfl := InboundTemplate.id_of_application hkind
      exact handleApplicationMessage_does htemplate hkind hhandled
    case h_7 =>
      cases hhandled
      exact .ignored auth _ _

/-- What one call does, whatever the call. -/
theorem step_does (auth : HmacAuthenticator) (s : Session) (op : SessionOp) :
    Does auth s op ((machine auth).step s op).1 ((machine auth).step s op).2 := by
  cases op with
  | onMessage clock data =>
      cases hhandled : s.onMessage auth clock data with
      | none =>
          simp only [machine, apply, hhandled, Option.getD_none]
          exact .ignored auth s _
      | some outcome =>
          simp only [machine, apply, hhandled, Option.getD_some]
          exact onMessage_does hhandled
  | onTimer clock => exact onTimer_does auth s _ clock
  | sendApplicationMessage clock sbeData =>
      exact sendApplicationMessage_does auth s clock sbeData
  | terminate clock errorCode => exact terminate_does auth s _ clock errorCode

theorem Does.config_eq (hdoes : Does auth s op t effects) : t.config = s.config := by
  cases hdoes with
  | stay hkeeps => exact hkeeps.config_eq
  | deliver hop heffects hestablished hconfig => exact hconfig
  | negotiate hop haccepts hkeeps => exact hkeeps.config_eq
  | establish hop haccepts hkeeps => exact hkeeps.config_eq
  | finish heffects hkeeps => exact hkeeps.config_eq

theorem Does.not_terminate_of_stay
    (hanswers : ∀ e ∈ effects, e.IsAnswer ∨ Forwards s op e) :
    ∀ e ∈ effects, ¬e.IsTerminate := by
  intro e he
  rcases hanswers e he with hanswer | hforwards
  · exact hanswer.not_terminate
  · exact hforwards.isForward.not_terminate

/-- A session that is still open after a call was open before it and sent no
Terminate. -/
theorem Does.goes_on (hdoes : Does auth s op t effects) (hopen : t.state ≠ .terminated) :
    s.state ≠ .terminated ∧ ∀ e ∈ effects, ¬e.IsTerminate := by
  cases hdoes with
  | stay hkeeps hstate hsilent hanswers =>
      exact ⟨hstate ▸ hopen, not_terminate_of_stay hanswers⟩
  | deliver hop heffects hestablished =>
      exact ⟨by simp [hestablished], by simp [heffects, SessionEffect.IsTerminate]⟩
  | negotiate hop haccepts hkeeps hstate hanswers =>
      exact ⟨by simp [haccepts.source_eq], fun e he => (hanswers e he).not_terminate⟩
  | establish hop haccepts hkeeps hstate hanswers =>
      exact ⟨by simp [haccepts.source_eq], fun e he => (hanswers e he).not_terminate⟩
  | finish heffects hkeeps hstill hstate => exact absurd hstate hopen

/-- A session that has ended after a call had ended before and was silent, or ends
in the call with a Terminate. -/
theorem Does.ends (hdoes : Does auth s op t effects) (hended : t.state = .terminated) :
    s.state = .terminated ∧ effects = [] ∨
      s.state ≠ .terminated ∧ ∃ before msg, effects = before ++ [.send (.terminate msg)] ∧
        ∀ e ∈ before, ¬SessionEffect.IsTerminate e := by
  cases hdoes with
  | stay hkeeps hstate hsilent =>
      rw [hstate] at hended
      exact .inl ⟨hended, hsilent hended⟩
  | deliver hop heffects hestablished hconfig hstate => simp [hstate] at hended
  | negotiate hop haccepts hkeeps hstate => simp [hstate] at hended
  | establish hop haccepts hkeeps hstate => simp [hstate] at hended
  | finish heffects hkeeps hopen hstate hanswers =>
      exact .inr ⟨hopen, _, _, heffects, fun e he => (hanswers e he).not_terminate⟩

theorem Does.moves (hdoes : Does auth s op t effects) :
    t.state = s.state ∨ s.state.Moves t.state := by
  cases hdoes with
  | stay hkeeps hstate => exact .inl hstate
  | deliver hop heffects hestablished hconfig hstate => exact .inl (hstate.trans hestablished.symm)
  | negotiate hop haccepts hkeeps hstate =>
      rw [haccepts.source_eq, hstate]
      exact .inr .negotiate
  | establish hop haccepts hkeeps hstate =>
      rw [haccepts.source_eq, hstate]
      exact .inr .establish
  | finish heffects hkeeps hopen hstate =>
      rw [hstate]
      exact .inr (.terminate _)

/-- A call sends one application message and stores it, or sends none and leaves the
outbox alone. -/
theorem Does.sends (hdoes : Does auth s op t effects) :
    (∃ clock sbeData, op = .sendApplicationMessage clock sbeData ∧
      effects = [.send (.application s.nextOutSeq sbeData)] ∧
      t.outbox = (s.nextOutSeq + 1, s.retransmitBuffer.store s.nextOutSeq sbeData)) ∨
    (∀ e ∈ effects, ¬e.IsApplication) ∧ t.outbox = s.outbox := by
  cases hdoes with
  | stay hkeeps hstate hsilent hanswers =>
      refine .inr ⟨fun e he => ?_, hkeeps.outbox_eq⟩
      rcases hanswers e he with hanswer | hforwards
      · exact hanswer.not_application
      · exact hforwards.isForward.not_application
  | deliver hop heffects hestablished hconfig hstate houtbox =>
      exact .inl ⟨_, _, hop, heffects, houtbox⟩
  | negotiate hop haccepts hkeeps hstate hanswers =>
      exact .inr ⟨fun e he => (hanswers e he).not_application, hkeeps.outbox_eq⟩
  | establish hop haccepts hkeeps hstate hanswers =>
      exact .inr ⟨fun e he => (hanswers e he).not_application, hkeeps.outbox_eq⟩
  | finish heffects hkeeps hopen hstate hanswers =>
      refine .inr ⟨?_, hkeeps.outbox_eq⟩
      rw [heffects, List.forall_mem_append, List.forall_mem_singleton]
      exact ⟨fun e he => (hanswers e he).not_application, not_false⟩

/-- Only a call to send an application message sends one. -/
theorem Does.not_application (hdoes : Does auth s op t effects)
    (hop : ∀ clock sbeData, op ≠ .sendApplicationMessage clock sbeData) :
    ∀ e ∈ effects, ¬e.IsApplication := by
  rcases hdoes.sends with ⟨clock, sbeData, hsend, -⟩ | ⟨hnone, -⟩
  · exact absurd hsend (hop clock sbeData)
  · exact hnone

/-- What is forwarded is the message of the call. -/
theorem Does.forwards (hdoes : Does auth s op t effects) {e : SessionEffect}
    (he : e ∈ effects) (hforward : e.IsForward) : Forwards s op e := by
  cases hdoes with
  | stay hkeeps hstate hsilent hanswers =>
      rcases hanswers e he with hanswer | hforwards
      · exact absurd hforward hanswer.not_forward
      · exact hforwards
  | deliver hop heffects =>
      rw [heffects, List.mem_singleton] at he
      subst he
      exact hforward.elim
  | negotiate hop haccepts hkeeps hstate hanswers =>
      exact absurd hforward (hanswers e he).not_forward
  | establish hop haccepts hkeeps hstate hanswers =>
      exact absurd hforward (hanswers e he).not_forward
  | finish heffects hkeeps hopen hstate hanswers =>
      rw [heffects, List.mem_append, List.mem_singleton] at he
      rcases he with he | rfl
      · exact absurd hforward (hanswers e he).not_forward
      · exact hforward.elim

/-! ## Whole runs -/

/-- The session a run of calls leads to. -/
def after (auth : HmacAuthenticator) (s : Session) (ops : List SessionOp) : Session :=
  ((machine auth).run s ops).1

/-- All that a run sends and forwards, in order. -/
def effectsOf (auth : HmacAuthenticator) (s : Session) (ops : List SessionOp) :
    List SessionEffect :=
  ((machine auth).run s ops).2

theorem after_concat (auth : HmacAuthenticator) (s : Session) (ops : List SessionOp)
    (op : SessionOp) :
    s.after auth (ops ++ [op]) = ((machine auth).step (s.after auth ops) op).1 := by
  rw [after, Machine.run_concat]
  rfl

theorem effectsOf_concat (auth : HmacAuthenticator) (s : Session) (ops : List SessionOp)
    (op : SessionOp) :
    s.effectsOf auth (ops ++ [op]) =
      s.effectsOf auth ops ++ ((machine auth).step (s.after auth ops) op).2 := by
  rw [effectsOf, Machine.run_concat]
  rfl

theorem config_after (auth : HmacAuthenticator) (s : Session) (ops : List SessionOp) :
    (s.after auth ops).config = s.config := by
  induction ops using List.reverseRecOn with
  | nil => rfl
  | append_singleton ops op ih =>
      rw [after_concat, (step_does auth _ op).config_eq, ih]

/-- After some calls, a handshake message of a template takes the session from one
state to the next; with HMAC enabled its signature is accepted under the session
key. -/
structure Handshake (auth : HmacAuthenticator) (s : Session) (before : List SessionOp)
    (clock : SessionClock) (data : List UInt8) (templateId : UInt16)
    (source target : SessionState) : Prop where
  source_eq : (s.after auth before).state = source
  target_eq : (s.after auth (before ++ [.onMessage clock data])).state = target
  template_eq : MessageHeader.decodeTemplateId data = some templateId
  signed : s.hmacEnabled → Signed auth s.hmacKey data

theorem Accepts.handshake {before : List SessionOp} {templateId : UInt16}
    {source target : SessionState}
    (haccepts : Accepts auth (s.after auth before) data source templateId)
    (htarget : ((machine auth).step (s.after auth before) (.onMessage clock data)).1.state =
      target) :
    Handshake auth s before clock data templateId source target where
  source_eq := haccepts.source_eq
  target_eq := by rw [after_concat, htarget]
  template_eq := haccepts.template_eq
  signed := by
    have hconfig := s.config_after auth before
    simp only [config, Prod.mk.injEq] at hconfig
    rw [← hconfig.2.1, ← hconfig.2.2]
    exact haccepts.signed

/-- A Negotiate was accepted among the calls. -/
def HasNegotiated (auth : HmacAuthenticator) (s : Session) (ops : List SessionOp) : Prop :=
  ∃ before clock data after, ops = before ++ .onMessage clock data :: after ∧
    Handshake auth s before clock data Negotiate500.format.templateId .connected .negotiated

/-- A Negotiate and after it an Establish were accepted among the calls. -/
def HasEstablished (auth : HmacAuthenticator) (s : Session) (ops : List SessionOp) : Prop :=
  ∃ before clock data after, ops = before ++ .onMessage clock data :: after ∧
    HasNegotiated auth s before ∧
    Handshake auth s before clock data Establish503.format.templateId .negotiated .established

theorem HasNegotiated.append {ops : List SessionOp} (hhas : s.HasNegotiated auth ops)
    (more : List SessionOp) : s.HasNegotiated auth (ops ++ more) := by
  obtain ⟨before, clock, data, after, rfl, haccepts⟩ := hhas
  exact ⟨before, clock, data, after ++ more, by simp, haccepts⟩

theorem HasEstablished.append {ops : List SessionOp} (hhas : s.HasEstablished auth ops)
    (more : List SessionOp) : s.HasEstablished auth (ops ++ more) := by
  obtain ⟨before, clock, data, after, rfl, hnegotiated, haccepts⟩ := hhas
  exact ⟨before, clock, data, after ++ more, by simp, hnegotiated, haccepts⟩

/-- The state tells which handshake messages were accepted. -/
theorem handshake_of_state (hconnected : s.state = .connected) (ops : List SessionOp) :
    ((s.after auth ops).state = .negotiated → s.HasNegotiated auth ops) ∧
      ((s.after auth ops).state = .established → s.HasEstablished auth ops) := by
  induction ops using List.reverseRecOn with
  | nil => simp [after, hconnected]
  | append_singleton ops op ih =>
      obtain ⟨hnegotiated, hestablished⟩ := ih
      rw [after_concat]
      generalize hstep : (machine auth).step (s.after auth ops) op = outcome
      have hdoes := step_does auth (s.after auth ops) op
      rw [hstep] at hdoes
      cases hdoes with
      | stay hkeeps hstate =>
          rw [hstate]
          exact ⟨fun h => (hnegotiated h).append _, fun h => (hestablished h).append _⟩
      | deliver hop heffects hstill hconfig hstate =>
          exact ⟨by simp [hstate], fun _ => (hestablished hstill).append _⟩
      | negotiate hop haccepts hkeeps hstate =>
          subst hop
          rw [← hstep] at hstate
          exact ⟨fun _ => ⟨ops, _, _, [], rfl, haccepts.handshake hstate⟩, by
            simp [← hstep, hstate]⟩
      | establish hop haccepts hkeeps hstate =>
          subst hop
          rw [← hstep] at hstate
          exact ⟨by simp [← hstep, hstate], fun _ => ⟨ops, _, _, [], rfl,
            hnegotiated haccepts.source_eq, haccepts.handshake hstate⟩⟩
      | finish heffects hkeeps hopen hstate => simp [hstate]

/-- A Terminate is the last effect of an ended session, and others sent none. -/
def LastWord (s : Session) (effects : List SessionEffect) : Prop :=
  (s.state ≠ .terminated → ∀ e ∈ effects, ¬e.IsTerminate) ∧
    (s.state = .terminated → ∃ before msg, effects = before ++ [.send (.terminate msg)] ∧
      ∀ e ∈ before, ¬SessionEffect.IsTerminate e)

theorem LastWord.eq_nil (hlast : s.LastWord effects) {before after : List SessionEffect}
    {msg : Terminate507} (heffects : effects = before ++ .send (.terminate msg) :: after) :
    after = [] := by
  have hmem : .send (.terminate msg) ∈ effects := by simp [heffects]
  have hstate : s.state = .terminated := by
    by_contra hopen
    exact hlast.1 hopen _ hmem trivial
  obtain ⟨earlier, last, hended, hquiet⟩ := hlast.2 hstate
  cases after using List.reverseRecOn with
  | nil => rfl
  | append_singleton after e =>
      -- the Terminate would lie before the last effect
      rw [hended, ← List.cons_append, ← List.append_assoc] at heffects
      have hearlier := (List.append_inj' heffects rfl).1
      exact absurd trivial (hquiet (.send (.terminate msg)) (by simp [hearlier]))

theorem lastWord_of_run (auth : HmacAuthenticator) (hopen : s.state ≠ .terminated)
    (ops : List SessionOp) :
    (s.after auth ops).LastWord (s.effectsOf auth ops) := by
  induction ops using List.reverseRecOn with
  | nil => exact ⟨by simp [effectsOf], fun hstate => absurd hstate hopen⟩
  | append_singleton ops op ih =>
      obtain ⟨hgoes_on, hended⟩ := ih
      have hdoes := step_does auth (s.after auth ops) op
      rw [after_concat, effectsOf_concat]
      constructor
      · intro hopen e he
        obtain ⟨hbefore, hquiet⟩ := hdoes.goes_on hopen
        rcases List.mem_append.mp he with he | he
        · exact hgoes_on hbefore e he
        · exact hquiet e he
      · intro hstate
        obtain ⟨hbefore, hsilent⟩ | ⟨hbefore, before, msg, heffects, hquiet⟩ := hdoes.ends hstate
        · rw [hsilent, List.append_nil]
          exact hended hbefore
        · refine ⟨s.effectsOf auth ops ++ before, msg, ?_, ?_⟩
          · rw [heffects, List.append_assoc]
          · intro e he
            rcases List.mem_append.mp he with he | he
            · exact hgoes_on hbefore e he
            · exact hquiet e he

theorem terminated_after (hstate : s.state = .terminated) (ops : List SessionOp) :
    (s.after auth ops).state = .terminated := by
  induction ops using List.reverseRecOn with
  | nil => exact hstate
  | append_singleton ops op ih =>
      rw [after_concat]
      rcases (step_does auth (s.after auth ops) op).moves with hsame | hmoves
      · rw [hsame, ih]
      · rw [ih] at hmoves
        exact hmoves.eq_terminated

/-- The safety of a run of calls: every call stays within its message, the state
follows the protocol and is final once terminated, the gateway is called only in
an established session whose handshake was accepted, and a Terminate is the last
thing sent. -/
structure Safety (auth : HmacAuthenticator) (s : Session) (ops : List SessionOp) : Prop where
  within_bounds : ∀ before op after, ops = before ++ op :: after →
    ((s.after auth before).apply auth op).isSome
  moves : ∀ before op after, ops = before ++ op :: after →
    (s.after auth (before ++ [op])).state = (s.after auth before).state ∨
      (s.after auth before).state.Moves (s.after auth (before ++ [op])).state
  terminated_final : ∀ before after, ops = before ++ after →
    (s.after auth before).state = .terminated → (s.after auth ops).state = .terminated
  callback : ∀ before op after uuid templateId data, ops = before ++ op :: after →
    .forward uuid templateId data ∈ ((machine auth).step (s.after auth before) op).2 →
      (s.after auth before).state = .established ∧ HasEstablished auth s before
  last_word : ∀ before msg after,
    s.effectsOf auth ops = before ++ .send (.terminate msg) :: after → after = []

end Session

/-- The length of a message of a template. -/
def InboundTemplate.messageLength : InboundTemplate → Nat
  | .negotiate => Negotiate500.format.encodedLength
  | .establish => Establish503.format.encodedLength
  | .sequence => Sequence506.format.encodedLength
  | .terminate => Terminate507.format.encodedLength
  | .retransmitRequest => RetransmitRequest508.format.encodedLength
  | .application templateId =>
      if templateId = NewOrderSingle514.format.templateId then
        NewOrderSingle514.format.encodedLength
      else if templateId = OrderCancelReplaceRequest515.format.templateId then
        OrderCancelReplaceRequest515.format.encodedLength
      else if templateId = OrderCancelRequest516.format.templateId then
        OrderCancelRequest516.format.encodedLength
      else MessageHeader.layout.size
  | .unknown => MessageHeader.layout.size

/-- A message with a header is long enough for its template. -/
def SessionOp.LongEnough : SessionOp → Prop
  | .onMessage _ data => MessageHeader.layout.size ≤ data.length →
      ∀ templateId ∈ MessageHeader.decodeTemplateId data,
        (InboundTemplate.ofId templateId).messageLength ≤ data.length
  | _ => True

instance SessionOp.decidableLongEnough : ∀ op : SessionOp, Decidable op.LongEnough
  | .onMessage _ data =>
      -- looks at the one template there is, not at every sixteen-bit number
      have := Option.decidableForallMem
        (p := fun templateId => (InboundTemplate.ofId templateId).messageLength ≤ data.length)
        (MessageHeader.decodeTemplateId data)
      inferInstanceAs (Decidable (_ → _))
  | .onTimer _ => .isTrue trivial
  | .sendApplicationMessage _ _ => .isTrue trivial
  | .terminate _ _ => .isTrue trivial

theorem InboundTemplate.readLength_le (state : SessionState) (template : InboundTemplate) :
    template.readLength state ≤ template.messageLength := by
  cases template with
  | application templateId =>
      by_cases hnamed : ReadsSeqUnchecked templateId
      · obtain rfl | rfl | rfl := hnamed <;> cases state <;> decide
      · have hread : (application templateId).readLength state = MessageHeader.layout.size := by
          cases state <;> simp [readLength, hnamed]
        simp only [ReadsSeqUnchecked, not_or] at hnamed
        simp [hread, messageLength, hnamed]
  | _ => cases state <;> decide

namespace Session

variable {auth : HmacAuthenticator} {s : Session} {op : SessionOp}

theorem apply_isSome (auth : HmacAuthenticator) (s : Session) (hlong : op.LongEnough) :
    (s.apply auth op).isSome := by
  cases op with
  | onMessage clock data =>
      by_cases hlen : MessageHeader.layout.size ≤ data.length
      · obtain ⟨templateId, htemplate⟩ := MessageHeader.decodeTemplateId_isSome hlen
        rw [apply, onMessage_isSome auth s clock hlen htemplate]
        exact (InboundTemplate.readLength_le _ _).trans (hlong hlen templateId htemplate)
      · rw [apply, onMessage, if_pos (Nat.lt_of_not_le hlen)]
        rfl
  | _ => rfl

/-- Over every run of calls, a session is safe. -/
theorem safety_of_run (auth : HmacAuthenticator) (s : Session)
    (hconnected : s.state = .connected) (ops : List SessionOp)
    (hlong : ∀ op ∈ ops, op.LongEnough) : Safety auth s ops where
  within_bounds before op after hops := by
    refine apply_isSome auth _ (hlong op ?_)
    simp [hops]
  moves before op after hops := by
    rw [after_concat]
    exact (step_does auth (s.after auth before) op).moves
  terminated_final before after hops hstate := by
    have hafter : s.after auth ops = (s.after auth before).after auth after := by
      rw [hops, Session.after, Machine.run_append]
      rfl
    rw [hafter]
    exact terminated_after hstate after
  callback before op after uuid templateId data hops hforward := by
    have hestablished :=
      ((step_does auth (s.after auth before) op).forwards hforward trivial).established
    exact ⟨hestablished, (handshake_of_state hconnected before).2 hestablished⟩
  last_word before msg after heffects := by
    have hopen : s.state ≠ .terminated := by simp [hconnected]
    exact (lastWord_of_run auth hopen ops).eq_nil heffects

/-- A build without the cryptographic library. -/
def withoutOpenssl : HmacAuthenticator where
  hasOpenssl := false
  hmac _ _ := none

/-- A client that shakes hands, sends two orders and leaves. -/
def shortVisit : List SessionOp :=
  let clock : SessionClock := ⟨0, 0, 0, 0⟩
  [ .onMessage clock (Negotiate500.format.toBytes { uuid := 1 })
  , .onMessage clock (Establish503.format.toBytes { uuid := 1, nextSeqNo := 1 })
  , .onMessage clock (NewOrderSingle514.format.toBytes { seqNum := 1 })
  , .onMessage clock (NewOrderSingle514.format.toBytes { seqNum := 3 })
  , .onTimer clock
  , .onMessage clock (Terminate507.format.toBytes { uuid := 1 }) ]

theorem safety_of_shortVisit :
    let s : Session := { uuid := 1, lastReceived := 0, lastSent := 0, hmacEnabled := true }
    (∀ op ∈ shortVisit, op.LongEnough) ∧
      (s.after withoutOpenssl shortVisit).state = .terminated ∧
      Safety withoutOpenssl s shortVisit :=
  ⟨by decide +kernel, by decide +kernel, safety_of_run _ _ rfl _ (by decide +kernel)⟩

end Session

end SimCme
