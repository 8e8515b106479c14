import Mathlib.Data.List.Basic
import SimCme.Fixp.SessionRuns

/-!
# Retransmission

A session keeps the latest application messages it sent.  Asked to send some of
them again, it announces the number the request starts with and how many of the
requested messages it still has, and sends these.

Main results:

- Theorem {lit}`Session.outboxInv_of_run`: after every run the buffer holds the
  latest of the messages sent.
- Theorem {lit}`Session.announces_iff`: the announcement describes the messages
  that follow it exactly when the first requested number is still kept, or none
  of the requested numbers is.
-/

open Library

namespace SimCme

namespace Session

variable {auth : HmacAuthenticator} {s t : Session} {clock : SessionClock}
  {op : SessionOp} {data : List UInt8} {effects : List SessionEffect}

/-! ## The messages sent -/

/-- The application messages sent, without those sent again. -/
def sentOf (effects : List SessionEffect) : List (List UInt8) :=
  effects.filterMap fun
    | .send (.application _ sbeData) => some sbeData
    | _ => none

theorem sentOf_append (before after : List SessionEffect) :
    sentOf (before ++ after) = sentOf before ++ sentOf after :=
  List.filterMap_append

theorem sentOf_eq_nil (hnone : ∀ e ∈ effects, ¬e.IsApplication) : sentOf effects = [] := by
  rw [sentOf, List.filterMap_eq_nil_iff]
  intro e he
  have hnot := hnone e he
  rcases e with ⟨_ | _ | _ | _ | _ | _ | _ | _⟩ | _ <;> simp_all [SessionEffect.IsApplication]

end Session

/-- What is sent is a fully encoded message. -/
def SessionOp.Encoded : SessionOp → Prop
  | .sendApplicationMessage _ sbeData => MessageHeader.layout.size ≤ sbeData.length
  | _ => True

instance SessionOp.decidableEncoded : ∀ op : SessionOp, Decidable op.Encoded
  | .sendApplicationMessage _ sbeData =>
      inferInstanceAs (Decidable (MessageHeader.layout.size ≤ sbeData.length))
  | .onMessage _ _ => .isTrue trivial
  | .onTimer _ => .isTrue trivial
  | .terminate _ _ => .isTrue trivial

namespace Session

variable {auth : HmacAuthenticator} {s t : Session} {clock : SessionClock}
  {op : SessionOp} {data : List UInt8} {effects : List SessionEffect}

/-- The outbox after some messages were sent: the next number counts them, and the
buffer holds the latest. -/
structure OutboxInv (s : Session) (sent : List (List UInt8)) : Prop where
  next_eq : s.nextOutSeq = .ofNat (sent.length + 1)
  capacity_eq : s.retransmitBuffer.capacity = 10000
  retains : sent.length < 2 ^ 32 → s.retransmitBuffer.Retains sent

theorem OutboxInv.of_outbox_eq {sent : List (List UInt8)} (hinv : s.OutboxInv sent)
    (houtbox : t.outbox = s.outbox) : t.OutboxInv sent := by
  obtain ⟨hnext, hbuffer⟩ := Prod.mk.inj houtbox
  exact ⟨hnext.trans hinv.next_eq, hbuffer ▸ hinv.capacity_eq, hbuffer ▸ hinv.retains⟩

theorem OutboxInv.send {sent : List (List UInt8)} (hinv : s.OutboxInv sent)
    {sbeData : List UInt8} (hencoded : MessageHeader.layout.size ≤ sbeData.length)
    (houtbox : t.outbox = (s.nextOutSeq + 1, s.retransmitBuffer.store s.nextOutSeq sbeData)) :
    t.OutboxInv (sent ++ [sbeData]) := by
  obtain ⟨hnext, hbuffer⟩ := Prod.mk.inj houtbox
  have hsome : sbeData ≠ [] := by
    rintro rfl
    exact absurd hencoded (by decide)
  refine ⟨?_, ?_, fun hcount => ?_⟩
  · rw [hnext, hinv.next_eq, List.length_append, List.length_singleton, ← UInt32.ofNat_one,
      ← UInt32.ofNat_add]
  · rw [hbuffer]
    exact hinv.capacity_eq
  · rw [List.length_append, List.length_singleton] at hcount
    have hstored : s.nextOutSeq.toNat = sent.length + 1 := by
      rw [hinv.next_eq, UInt32.toNat_ofNat']
      exact Nat.mod_eq_of_lt hcount
    rw [hbuffer]
    exact (hinv.retains (by omega)).store (by rw [hinv.capacity_eq]; decide) hstored hsome

/-- After every run the buffer holds the latest of the messages sent. -/
theorem outboxInv_of_run (auth : HmacAuthenticator) (s : Session)
    (hfresh : s.outbox = (1, {})) (ops : List SessionOp) (hencoded : ∀ op ∈ ops, op.Encoded) :
    (s.after auth ops).OutboxInv (sentOf (s.effectsOf auth ops)) := by
  induction ops using List.reverseRecOn with
  | nil =>
      obtain ⟨hnext, hbuffer⟩ := Prod.mk.inj hfresh
      refine ⟨hnext, by rw [after, Machine.run_nil, hbuffer], fun _ => ?_⟩
      rw [after, Machine.run_nil, hbuffer]
      exact RetransmitBuffer.retains_nil 10000
  | append_singleton ops op ih =>
      have hinv := ih fun op' hop' => hencoded op' (List.mem_append_left _ hop')
      rw [after_concat, effectsOf_concat, sentOf_append]
      obtain ⟨clock, sbeData, rfl, heffects, houtbox⟩ | ⟨hnone, houtbox⟩ :=
        (step_does auth (s.after auth ops) op).sends
      · rw [heffects]
        exact hinv.send (hencoded (.sendApplicationMessage clock sbeData) (by simp)) houtbox
      · rw [sentOf_eq_nil hnone, List.append_nil]
        exact hinv.of_outbox_eq houtbox

/-! ## Announcements -/

open RetransmitBuffer

/-- A retransmission announces what it carries: after the announcement of a first
number and a count come exactly that many messages, which are the originals with
the consecutive numbers from the first on. -/
def Announces (sent : List (List UInt8)) (effects : List SessionEffect) : Prop :=
  ∃ (announced : Retransmission509) (carried : List (UInt32 × List UInt8)),
    effects = .send (.retransmission announced) ::
      carried.map (fun msg => .send (.retransmitted msg.1 msg.2)) ∧
    carried.length = announced.msgCount.toNat ∧
    ∀ i msg, carried[i]? = some msg →
      msg.1.toNat = announced.fromSeqNo.toNat + i ∧
        original sent (announced.fromSeqNo.toNat + i) = some msg.2

/-- The requested messages that are still kept, with their numbers. -/
def carriedFor (buffer : RetransmitBuffer) (req : RetransmitRequest508) :
    List (UInt32 × List UInt8) :=
  (requestedSeqs req.fromSeqNo req.msgCount).filterMap fun seq =>
    (buffer.retrieve seq).map fun msg => (seq, msg)

/-- A frame that a session reads as a request for retransmission. -/
structure Requests (data : List UInt8) (req : RetransmitRequest508) : Prop where
  header_fits : MessageHeader.layout.size ≤ data.length
  template_eq : MessageHeader.decodeTemplateId data =
    some RetransmitRequest508.format.templateId
  decode_eq : RetransmitRequest508.format.decode {} data 0 = some req

theorem length_carriedFor (buffer : RetransmitBuffer) (req : RetransmitRequest508) :
    ((requestedSeqs req.fromSeqNo req.msgCount).filter fun seq =>
      (buffer.retrieve seq).isSome).length = (carriedFor buffer req).length := by
  rw [carriedFor, List.length_filterMap_eq_countP, List.countP_eq_length_filter]
  congr 2
  funext seq
  simp

theorem length_carriedFor_le (buffer : RetransmitBuffer) (req : RetransmitRequest508) :
    (carriedFor buffer req).length ≤ req.msgCount.toNat := by
  refine (List.length_filterMap_le _ _).trans ?_
  simp [requestedSeqs]

/-- An established session answers a request with an announcement of the requested
number and the count of what it carries. -/
theorem onMessage_retransmitRequest (auth : HmacAuthenticator) (clock : SessionClock)
    (hstate : s.state = .established) {req : RetransmitRequest508} (hreq : Requests data req)
    (huuid : req.lastUUID = 0 ∨ req.lastUUID = s.uuid) :
    ((machine auth).step s (.onMessage clock data)).2 =
      .send (.retransmission
        { uuid := s.uuid
          lastUUID := req.lastUUID
          requestTimestamp := req.requestTimestamp
          fromSeqNo := req.fromSeqNo
          msgCount := .ofNat (carriedFor s.retransmitBuffer req).length
          splitMsg := 0 }) ::
        (carriedFor s.retransmitBuffer req).map
          fun msg => .send (.retransmitted msg.1 msg.2) := by
  have hkind : InboundTemplate.ofId RetransmitRequest508.format.templateId =
      .retransmitRequest := by decide
  have hsame : ¬(req.lastUUID ≠ 0 ∧ req.lastUUID ≠ s.uuid) := by tauto
  simp only [machine, apply, onMessage, Nat.not_lt.mpr hreq.header_fits, if_false,
    hreq.template_eq, Option.bind_eq_bind, Option.bind_some, hkind, handleRetransmitRequest,
    hstate, ne_eq, not_true_eq_false, hreq.decode_eq, hsame, length_carriedFor]
  simp [sendRetransmission, sendFramedMessage, carriedFor, List.map_filterMap,
    Function.comp_def]

/-- A function that has values exactly below a bound yields these values. -/
theorem filterMap_range_of_bound {β : Type} {g : Nat → Option β} {h : Nat → β}
    {bound count : Nat} (hsome : ∀ i < bound, g i = some (h i))
    (hnone : ∀ i < count, bound ≤ i → g i = none) :
    (List.range count).filterMap g = (List.range (min count bound)).map h := by
  induction count with
  | zero => simp
  | succ count ih =>
      rw [List.range_succ, List.filterMap_append, ih fun i hi => hnone i (by omega)]
      by_cases hlt : count < bound
      · have hmin : min (count + 1) bound = min count bound + 1 := by omega
        have hcount : min count bound = count := by omega
        rw [hmin, List.range_succ, List.map_append, hcount]
        simp [hsome count hlt]
      · have hmin : min (count + 1) bound = min count bound := by omega
        rw [hmin]
        simp [hnone count (by omega) (by omega)]

theorem OutboxInv.retrieve_isSome {sent : List (List UInt8)} (hinv : s.OutboxInv sent)
    (hcount : sent.length < 2 ^ 32) (seqNum : UInt32) :
    (s.retransmitBuffer.retrieve seqNum).isSome ↔ InWindow 10000 sent.length seqNum.toNat := by
  rw [← hinv.capacity_eq]
  exact (hinv.retains hcount).retrieve_isSome seqNum

theorem toNat_add_ofNat (seqNum : UInt32) (i : Nat) :
    (seqNum + UInt32.ofNat i).toNat = (seqNum.toNat + i) % 2 ^ 32 := by
  simp [UInt32.toNat_add]

/-- A request that starts in the window is answered with the consecutive messages
from its first number on. -/
theorem carriedFor_of_inWindow {sent : List (List UInt8)} (hinv : s.OutboxInv sent)
    (hcount : sent.length < 2 ^ 32) {req : RetransmitRequest508}
    (hfirst : InWindow 10000 sent.length req.fromSeqNo.toNat) :
    carriedFor s.retransmitBuffer req =
      (List.range (min req.msgCount.toNat (sent.length + 1 - req.fromSeqNo.toNat))).map
        fun i => (req.fromSeqNo + .ofNat i,
          (original sent (req.fromSeqNo.toNat + i)).getD []) := by
  obtain ⟨hpos, hlast, hrecent⟩ := hfirst
  rw [carriedFor, requestedSeqs, List.filterMap_map]
  apply filterMap_range_of_bound
  · intro i hi
    have hseq : (req.fromSeqNo + UInt32.ofNat i).toNat = req.fromSeqNo.toNat + i := by
      rw [toNat_add_ofNat, Nat.mod_eq_of_lt (by omega)]
    have hin : InWindow s.retransmitBuffer.capacity sent.length
        (req.fromSeqNo.toNat + i) := by
      rw [hinv.capacity_eq]
      simp only [InWindow]
      omega
    obtain ⟨msg, hmsg⟩ := Option.isSome_iff_exists.mp
      (original_isSome.mpr (show 1 ≤ req.fromSeqNo.toNat + i ∧
        req.fromSeqNo.toNat + i ≤ sent.length by omega))
    simp only [Function.comp_apply, hinv.retains hcount _, hin, if_true, hseq, hmsg,
      Option.map_some, Option.getD_some]
  · -- past the end of the window, also where the numbers wrap around
    intro i hi hbound
    have hmsgs := req.msgCount.toNat_lt
    have hout : ¬(s.retransmitBuffer.retrieve (req.fromSeqNo + UInt32.ofNat i)).isSome := by
      rw [hinv.retrieve_isSome hcount, toNat_add_ofNat]
      simp only [InWindow]
      omega
    simp only [Function.comp_apply, Option.not_isSome_iff_eq_none.mp hout, Option.map_none]

/-- A request that starts in the window is answered with originals under their
numbers. -/
theorem original_of_carriedFor {sent : List (List UInt8)} (hinv : s.OutboxInv sent)
    (hcount : sent.length < 2 ^ 32) {req : RetransmitRequest508}
    (hfirst : InWindow 10000 sent.length req.fromSeqNo.toNat) {i : Nat}
    {msg : UInt32 × List UInt8} (hmsg : (carriedFor s.retransmitBuffer req)[i]? = some msg) :
    msg.1.toNat = req.fromSeqNo.toNat + i ∧
      original sent (req.fromSeqNo.toNat + i) = some msg.2 := by
  rw [carriedFor_of_inWindow hinv hcount hfirst, List.getElem?_map,
    Option.map_eq_some_iff] at hmsg
  obtain ⟨j, hj, rfl⟩ := hmsg
  obtain ⟨hlt, hj⟩ := List.getElem?_eq_some_iff.mp hj
  rw [List.getElem_range] at hj
  rw [List.length_range] at hlt
  obtain ⟨hpos, hlast, hrecent⟩ := hfirst
  subst hj
  have hsome := original_isSome.mpr (show 1 ≤ req.fromSeqNo.toNat + i ∧
    req.fromSeqNo.toNat + i ≤ sent.length by omega)
  constructor
  · rw [toNat_add_ofNat, Nat.mod_eq_of_lt (by omega)]
  · obtain ⟨bytes, hbytes⟩ := Option.isSome_iff_exists.mp hsome
    simp [hbytes]

/-- What is carried is in the window. -/
theorem inWindow_of_mem_carriedFor {sent : List (List UInt8)} (hinv : s.OutboxInv sent)
    (hcount : sent.length < 2 ^ 32) {req : RetransmitRequest508} {msg : UInt32 × List UInt8}
    (hmsg : msg ∈ carriedFor s.retransmitBuffer req) :
    InWindow 10000 sent.length msg.1.toNat := by
  simp only [carriedFor, List.mem_filterMap, Option.map_eq_some_iff] at hmsg
  obtain ⟨seq, -, bytes, hretrieve, rfl⟩ := hmsg
  rw [← hinv.retrieve_isSome hcount, hretrieve]
  rfl

/-- Nothing is carried exactly when nothing that was asked for is in the window. -/
theorem carriedFor_eq_nil_iff {sent : List (List UInt8)} (hinv : s.OutboxInv sent)
    (hcount : sent.length < 2 ^ 32) {req : RetransmitRequest508} :
    carriedFor s.retransmitBuffer req = [] ↔
      ∀ seq ∈ requestedSeqs req.fromSeqNo req.msgCount,
        ¬InWindow 10000 sent.length seq.toNat := by
  simp only [carriedFor, List.filterMap_eq_nil_iff, Option.map_eq_none_iff,
    ← hinv.retrieve_isSome hcount, Option.not_isSome_iff_eq_none]

/-- The announcement made to a request for an established session. -/
theorem announces_iff_of_outboxInv (auth : HmacAuthenticator) (clock : SessionClock)
    (hstate : s.state = .established) {sent : List (List UInt8)} (hinv : s.OutboxInv sent)
    (hcount : sent.length < 2 ^ 32) {req : RetransmitRequest508} (hreq : Requests data req)
    (huuid : req.lastUUID = 0 ∨ req.lastUUID = s.uuid) :
    Announces sent ((machine auth).step s (.onMessage clock data)).2 ↔
      InWindow 10000 sent.length req.fromSeqNo.toNat ∨
        ∀ seq ∈ requestedSeqs req.fromSeqNo req.msgCount,
          ¬InWindow 10000 sent.length seq.toNat := by
  rw [onMessage_retransmitRequest auth clock hstate hreq huuid,
    ← carriedFor_eq_nil_iff hinv hcount]
  constructor
  · rintro ⟨announced, carried, heffects, hlength, hcarried⟩
    obtain ⟨hannounced, hmessages⟩ := List.cons.inj heffects
    have hcarried_eq : carriedFor s.retransmitBuffer req = carried := by
      refine (List.map_injective_iff.mpr ?_) hmessages
      rintro ⟨seq, msg⟩ ⟨seq', msg'⟩ heq
      simpa using heq
    have hfrom : announced.fromSeqNo = req.fromSeqNo := by
      simp only [SessionEffect.send.injEq, Outbound.retransmission.injEq] at hannounced
      rw [← hannounced]
    cases hfirst : carried with
    | nil => exact .inr (hcarried_eq.trans hfirst)
    | cons msg rest =>
        -- the first message carries the announced number
        have hmsg := (hcarried 0 msg (by simp [hfirst])).1
        have hmem : msg ∈ carriedFor s.retransmitBuffer req := by simp [hcarried_eq, hfirst]
        rw [hfrom, Nat.add_zero] at hmsg
        exact .inl (hmsg ▸ inWindow_of_mem_carriedFor hinv hcount hmem)
  · intro hcondition
    refine ⟨_, _, rfl, ?_, ?_⟩
    · have hle := length_carriedFor_le s.retransmitBuffer req
      have hbound := req.msgCount.toNat_lt
      rw [UInt16.toNat_ofNat', Nat.mod_eq_of_lt (by omega)]
    · intro i msg hmsg
      rcases hcondition with hfirst | hnone
      · exact original_of_carriedFor hinv hcount hfirst hmsg
      · simp [hnone] at hmsg

theorem requests_toBytes (req : RetransmitRequest508) :
    Requests (RetransmitRequest508.format.toBytes req) req where
  header_fits := by
    rw [MessageFormat.length_toBytes]
    decide
  template_eq := RetransmitRequest508.format.decodeTemplateId_toBytes req
  decode_eq := RetransmitRequest508.format.decode_toBytes req {}

/-- After every run of an established session, the answer to a request announces
what it carries exactly when the first requested number is still kept, or none of
the requested numbers is. -/
theorem announces_iff (auth : HmacAuthenticator) (s : Session) (hfresh : s.outbox = (1, {}))
    (ops : List SessionOp) (hencoded : ∀ op ∈ ops, op.Encoded)
    (hstate : (s.after auth ops).state = .established)
    (hcount : (sentOf (s.effectsOf auth ops)).length < 2 ^ 32) (clock : SessionClock)
    (data : List UInt8) (req : RetransmitRequest508) (hreq : Requests data req)
    (huuid : req.lastUUID = 0 ∨ req.lastUUID = s.uuid) :
    let sent := sentOf (s.effectsOf auth ops)
    Announces sent ((machine auth).step (s.after auth ops) (.onMessage clock data)).2 ↔
      InWindow 10000 sent.length req.fromSeqNo.toNat ∨
        ∀ seq ∈ requestedSeqs req.fromSeqNo req.msgCount,
          ¬InWindow 10000 sent.length seq.toNat := by
  have hinv := outboxInv_of_run auth s hfresh ops hencoded
  have hconfig := s.config_after auth ops
  simp only [config, Prod.mk.injEq] at hconfig
  rw [← hconfig.1] at huuid
  exact announces_iff_of_outboxInv auth clock hstate hinv hcount hreq huuid

/-- A client that shakes hands and is sent one report. -/
def oneReport : List SessionOp :=
  let clock : SessionClock := ⟨0, 0, 0, 0⟩
  [ .onMessage clock (Negotiate500.format.toBytes { uuid := 1 })
  , .onMessage clock (Establish503.format.toBytes { uuid := 1, nextSeqNo := 1 })
  , .sendApplicationMessage clock (OrderCancelReject535.format.toBytes { orderID := 7 }) ]

theorem announces_first_report :
    let s : Session := { uuid := 1, lastReceived := 0, lastSent := 0 }
    Announces (sentOf (s.effectsOf withoutOpenssl oneReport))
      ((machine withoutOpenssl).step (s.after withoutOpenssl oneReport)
        (.onMessage ⟨0, 0, 0, 0⟩ (RetransmitRequest508.format.toBytes
          { uuid := 1, fromSeqNo := 1, msgCount := 5 }))).2 :=
  (announces_iff _ _ rfl _ (by decide +kernel) (by decide +kernel) (by decide +kernel) _ _ _
    (requests_toBytes _) (.inl rfl)).mpr (.inl (by decide +kernel))

/-- A request from one number too early: the announcement starts with a number that
is not among the messages carried. -/
theorem not_announces_from_zero :
    let s : Session := { uuid := 1, lastReceived := 0, lastSent := 0 }
    ¬Announces (sentOf (s.effectsOf withoutOpenssl oneReport))
      ((machine withoutOpenssl).step (s.after withoutOpenssl oneReport)
        (.onMessage ⟨0, 0, 0, 0⟩ (RetransmitRequest508.format.toBytes
          { uuid := 1, fromSeqNo := 0, msgCount := 2 }))).2 := by
  intro s
  have hinv := outboxInv_of_run withoutOpenssl s rfl oneReport (by decide +kernel)
  have hstate : (s.after withoutOpenssl oneReport).state = .established := by decide +kernel
  have hlength : (sentOf (s.effectsOf withoutOpenssl oneReport)).length = 1 := by
    decide +kernel
  rw [announces_iff_of_outboxInv withoutOpenssl _ hstate hinv (by rw [hlength]; decide)
    (requests_toBytes _) (.inl rfl), hlength]
  rintro (hfirst | hnone)
  · exact absurd hfirst (by decide)
  · exact hnone 1 (by decide) (by decide)

end Session

end SimCme
