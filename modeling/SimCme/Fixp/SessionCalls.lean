import SimCme.Fixp.SessionRuns

/-!
# What single calls send

The calls of the timer and of the other threads send one of a few lists of messages.  What
a call carries of the gateway's reports is the new one or was kept to be sent again.

Main results:

- Theorems {lit}`Session.says_onTimer`, {lit}`Session.says_report` and
  {lit}`Session.says_terminate`: what those calls send.
- Theorems {lit}`Session.passes_onMessage` and {lit}`Session.passes_report`: what a call
  carries and keeps.
-/

open Library

namespace SimCme

/-- The application message that an effect sends, for the first time or again. -/
def SessionEffect.carries? : SessionEffect → Option (List UInt8)
  | .send (.application _ sbeData) => some sbeData
  | .send (.retransmitted _ sbeData) => some sbeData
  | _ => none

namespace Session

/-! ## What a session says of its own accord -/

/-- What the calls of the timer and of the other threads do. -/
inductive Says (s : Session) : Session → List SessionEffect → Prop where
  | nothing : Says s s []
  | beat {t seq} (hstate : s.state = .established) (ht : t.state = .established)
      (hnext : t.nextInSeq = s.nextInSeq) (hout : t.nextOutSeq = s.nextOutSeq) :
      Says s t [.send (.sequence seq)]
  | report {t sbeData} (hstate : s.state = .established) (ht : t.state = .established)
      (hnext : t.nextInSeq = s.nextInSeq) (hout : t.nextOutSeq = s.nextOutSeq + 1) :
      Says s t [.send (.application s.nextOutSeq sbeData)]
  | finish {t term} (hopen : s.state ≠ .terminated) (ht : t.state = .terminated)
      (hout : t.nextOutSeq = s.nextOutSeq) : Says s t [.send (.terminate term)]
  | lapse {t seq term} (hstate : s.state = .established) (ht : t.state = .terminated)
      (hout : t.nextOutSeq = s.nextOutSeq) :
      Says s t [.send (.sequence seq), .send (.terminate term)]

variable {auth : HmacAuthenticator} {s t : Session} {clock : SessionClock} {data : List UInt8}
  {effects : List SessionEffect}

theorem says_terminate (s : Session) (clock : SessionClock) (errorCode : UInt16) :
    Says s (s.terminate clock errorCode).1 (s.terminate clock errorCode).2 := by
  by_cases hstate : s.state = .terminated
  · rw [terminate, if_pos hstate]
    exact .nothing
  · rw [terminate, if_neg hstate]
    exact .finish hstate rfl rfl

theorem says_report (s : Session) (clock : SessionClock) (sbeData : List UInt8) :
    Says s (s.sendApplicationMessage clock sbeData).1
      (s.sendApplicationMessage clock sbeData).2 := by
  by_cases hstate : s.state = .established
  · rw [sendApplicationMessage, if_neg (not_not.mpr hstate)]
    exact .report hstate hstate rfl rfl
  · rw [sendApplicationMessage, if_pos hstate]
    exact .nothing

theorem says_onTimer (s : Session) (clock : SessionClock) :
    Says s (s.onTimer clock).1 (s.onTimer clock).2 := by
  by_cases hstate : s.state = .established
  · have hopen : s.state ≠ .terminated := by simp [hstate]
    simp only [onTimer, hstate, ne_eq, not_true_eq_false, if_false]
    by_cases hsilent : millisecondsSince s.lastSent clock.now ≥ s.keepAliveIntervalMs.toNat
    · rw [if_pos hsilent]
      have hbeat : (s.sendSequenceHeartbeat clock).1.state ≠ .terminated := hopen
      split
      · rw [terminate, if_neg hbeat]
        exact .lapse hstate rfl rfl
      · exact .beat hstate hstate rfl rfl
    · rw [if_neg hsilent]
      split
      · exact says_terminate s clock 1
      · exact .nothing
  · rw [onTimer, if_pos hstate]
    exact .nothing

/-- A message of the client leaves the numbering of the reports alone. -/
theorem nextOutSeq_of_onMessage (hhandled : s.onMessage auth clock data = some (t, effects)) :
    t.nextOutSeq = s.nextOutSeq := by
  cases onMessage_does hhandled with
  | stay hkeeps => exact congrArg Prod.fst hkeeps.outbox_eq
  | deliver hop => cases hop
  | negotiate _ _ hkeeps => exact congrArg Prod.fst hkeeps.outbox_eq
  | establish _ _ hkeeps => exact congrArg Prod.fst hkeeps.outbox_eq
  | finish _ hkeeps => exact congrArg Prod.fst hkeeps.outbox_eq

/-! ## What a session carries -/

/-- What a call does with application messages: it carries the new one and messages that
were kept, and keeps no others. -/
structure Passes (s : Session) (new : Option (List UInt8)) (t : Session)
    (effects : List SessionEffect) : Prop where
  uuid_eq : t.uuid = s.uuid
  carried : ∀ e ∈ effects, ∀ sbeData ∈ e.carries?,
    new = some sbeData ∨ ∃ seqNum, s.retransmitBuffer.retrieve seqNum = some sbeData
  kept : ∀ seqNum sbeData, t.retransmitBuffer.retrieve seqNum = some sbeData →
    new = some sbeData ∨ s.retransmitBuffer.retrieve seqNum = some sbeData

theorem not_retransmitted_terminate (s : Session) (clock : SessionClock) (errorCode : UInt16)
    (seqNum : UInt32) (sbeData : List UInt8) :
    .send (.retransmitted seqNum sbeData) ∉ (s.terminate clock errorCode).2 := by
  unfold terminate
  split <;> simp [sendTerminate, sendFramedMessage]

/-- An accepted or refused handshake message sends nothing again. -/
theorem not_retransmitted_handshake {σ : Type} {msg : Option σ} {verified : Option Bool}
    {answer : σ → Outcome} {errorCode : UInt16}
    (hanswer : ∀ msg seqNum sbeData, .send (.retransmitted seqNum sbeData) ∉ (answer msg).2)
    (hhandled : (msg.bind fun msg => verified.bind fun accepted =>
      if accepted then some (answer msg) else some (s.terminate clock errorCode)) =
        some (t, effects)) (seqNum : UInt32) (sbeData : List UInt8) :
    .send (.retransmitted seqNum sbeData) ∉ effects := by
  simp only [Option.bind_eq_some_iff] at hhandled
  obtain ⟨msg, -, accepted, -, hhandled⟩ := hhandled
  split at hhandled
  · have heffects := hanswer msg seqNum sbeData
    rwa [Option.some.inj hhandled] at heffects
  · have heffects := not_retransmitted_terminate s clock errorCode seqNum sbeData
    rwa [Option.some.inj hhandled] at heffects

/-- What is sent again was kept. -/
theorem retrieve_of_retransmitted
    (hhandled : s.onMessage auth clock data = some (t, effects)) {seqNum : UInt32}
    {sbeData : List UInt8} (hmem : .send (.retransmitted seqNum sbeData) ∈ effects) :
    s.retransmitBuffer.retrieve seqNum = some sbeData := by
  unfold onMessage at hhandled
  split at hhandled
  · cases hhandled
    simp at hmem
  · obtain ⟨templateId, -, hhandled⟩ := Option.bind_eq_some_iff.mp hhandled
    split at hhandled
    · simp only [handleNegotiate] at hhandled
      split at hhandled
      · cases hhandled
        simp at hmem
      · refine absurd hmem (not_retransmitted_handshake ?_ hhandled seqNum sbeData)
        simp [sendNegotiationResponse, sendFramedMessage]
    · simp only [handleEstablish] at hhandled
      split at hhandled
      · cases hhandled
        simp at hmem
      · refine absurd hmem (not_retransmitted_handshake ?_ hhandled seqNum sbeData)
        simp [sendEstablishmentAck, sendFramedMessage]
    · simp only [handleSequence] at hhandled
      split at hhandled
      · cases hhandled
        simp at hmem
      · obtain ⟨seq, -, hhandled⟩ := Option.bind_eq_some_iff.mp hhandled
        cases hhandled
        simp at hmem
    · obtain ⟨term, -, hhandled⟩ := Option.bind_eq_some_iff.mp hhandled
      have heffects := not_retransmitted_terminate
        { s with lastReceived := clock.now } clock 0 seqNum sbeData
      rw [Option.some.inj hhandled] at heffects
      exact absurd hmem heffects
    · simp only [handleRetransmitRequest] at hhandled
      split at hhandled
      · cases hhandled
        simp at hmem
      · obtain ⟨req, -, hhandled⟩ := Option.bind_eq_some_iff.mp hhandled
        split at hhandled
        · cases hhandled
          simp at hmem
        · cases hhandled
          simp only [sendRetransmission, sendFramedMessage, List.singleton_append, List.mem_cons,
            List.mem_map, List.mem_filterMap, Option.map_eq_some_iff] at hmem
          rcases hmem with hmem | ⟨_, ⟨seq, -, msg, hkept, rfl⟩, heq⟩
          · simp at hmem
          · cases heq
            exact hkept
    · simp only [handleApplicationMessage] at hhandled
      split at hhandled
      · cases hhandled
        simp at hmem
      · obtain ⟨seq, -, hhandled⟩ := Option.bind_eq_some_iff.mp hhandled
        cases hhandled
        split at hmem <;> simp [sendNotApplied, sendFramedMessage] at hmem
    · cases hhandled
      simp at hmem

theorem Does.passes {op : SessionOp} {new : Option (List UInt8)}
    (hdoes : Does auth s op t effects)
    (hnew : ∀ clock sbeData, op = .sendApplicationMessage clock sbeData → new = some sbeData)
    (hagain : ∀ seqNum sbeData, .send (.retransmitted seqNum sbeData) ∈ effects →
      s.retransmitBuffer.retrieve seqNum = some sbeData) : Passes s new t effects where
  uuid_eq := congrArg Prod.fst hdoes.config_eq
  carried := by
    intro e he sbeData hcarries
    rcases e with ⟨_ | _ | _ | _ | _ | _ | ⟨seqNum, msg⟩ | ⟨seqNum, msg⟩⟩ | _
    case send.application =>
      cases hcarries
      rcases hdoes.sends with ⟨clock, sbeData, hop, heffects, -⟩ | ⟨hnone, -⟩
      · rw [heffects, List.mem_singleton] at he
        cases he
        exact Or.inl (hnew clock _ hop)
      · exact absurd trivial (hnone _ he)
    case send.retransmitted =>
      cases hcarries
      exact Or.inr ⟨seqNum, hagain seqNum _ he⟩
    all_goals cases hcarries
  kept := by
    intro seqNum sbeData hkept
    rcases hdoes.sends with ⟨clock, msg, hop, -, houtbox⟩ | ⟨-, houtbox⟩
    · rw [show t.retransmitBuffer = _ from congrArg Prod.snd houtbox,
        RetransmitBuffer.retrieve_store] at hkept
      split at hkept
      · split at hkept
        · cases hkept
          exact Or.inl (hnew clock _ hop)
        · cases hkept
      · exact Or.inr hkept
    · rw [show t.retransmitBuffer = _ from congrArg Prod.snd houtbox] at hkept
      exact Or.inr hkept

theorem Says.not_retransmitted (hsaid : Says s t effects) (seqNum : UInt32)
    (sbeData : List UInt8) : .send (.retransmitted seqNum sbeData) ∉ effects := by
  cases hsaid <;> simp

theorem passes_onMessage (hhandled : s.onMessage auth clock data = some (t, effects)) :
    Passes s none t effects :=
  (onMessage_does hhandled).passes (by simp) fun _ _ hmem => retrieve_of_retransmitted hhandled hmem

theorem passes_report (s : Session) (clock : SessionClock) (sbeData : List UInt8) :
    Passes s (some sbeData) (s.sendApplicationMessage clock sbeData).1
      (s.sendApplicationMessage clock sbeData).2 :=
  (sendApplicationMessage_does withoutOpenssl s clock sbeData).passes (by simp)
    fun seqNum msg hmem => absurd hmem ((says_report s clock sbeData).not_retransmitted seqNum msg)

theorem passes_onTimer (s : Session) (clock : SessionClock) :
    Passes s none (s.onTimer clock).1 (s.onTimer clock).2 :=
  (onTimer_does withoutOpenssl s (.onTimer clock) clock).passes (by simp)
    fun seqNum msg hmem => absurd hmem ((says_onTimer s clock).not_retransmitted seqNum msg)

theorem passes_terminate (s : Session) (clock : SessionClock) (errorCode : UInt16) :
    Passes s none (s.terminate clock errorCode).1 (s.terminate clock errorCode).2 :=
  (terminate_does withoutOpenssl s (.terminate clock errorCode) clock errorCode).passes (by simp)
    fun seqNum msg hmem =>
      absurd hmem (not_retransmitted_terminate s clock errorCode seqNum msg)

end Session

end SimCme
