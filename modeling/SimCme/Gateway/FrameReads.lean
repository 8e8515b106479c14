import SimCme.Fixp.SessionRuns
import SimCme.Gateway.OrderEntryGateway

/-!
# Reading a frame

A frame of the transport goes to its session, and what the session forwards goes
on to the gateway, which decodes it again.  Neither looks at the length of a frame
beyond that of the header.

Main results:

- Theorem {lit}`readsWithin_iff`: a frame is read within its bounds exactly when it
  is as long as the message its template announces, unless the state ignores the
  template.
-/

open Library

namespace SimCme

/-! ## The gateway's reads -/

/-- The templates that the gateway knows are decoded in full. -/
def decodeApplicationMessage (templateId : UInt16) (data : List UInt8) :
    Option ApplicationMessage :=
  if templateId = NewOrderSingle514.format.templateId then
    (NewOrderSingle514.format.decode {} data 0).map .newOrderSingle
  else if templateId = OrderCancelRequest516.format.templateId then
    (OrderCancelRequest516.format.decode {} data 0).map .orderCancelRequest
  else if templateId = OrderCancelReplaceRequest515.format.templateId then
    (OrderCancelReplaceRequest515.format.decode {} data 0).map .orderCancelReplaceRequest
  else some (.other templateId)

namespace OrderEntryGateway

/-- Handle what a session forwards, in order. -/
def onEffects (g : OrderEntryGateway) (now : Int) :
    List SessionEffect → Option OrderEntryGateway
  | [] => some g
  | .send _ :: effects => g.onEffects now effects
  | .forward uuid templateId data :: effects => do
      let msg ← decodeApplicationMessage templateId data
      (g.onApplicationMessage uuid.toNat now msg).onEffects now effects

theorem onEffects_isSome (g : OrderEntryGateway) (now : Int) (effects : List SessionEffect) :
    (g.onEffects now effects).isSome ↔
      ∀ uuid templateId data, .forward uuid templateId data ∈ effects →
        (decodeApplicationMessage templateId data).isSome := by
  induction effects generalizing g with
  | nil => simp [onEffects]
  | cons e effects ih =>
      cases e with
      | send msg => simp [onEffects, ih]
      | forward uuid templateId data =>
          cases hdecode : decodeApplicationMessage templateId data with
          | none =>
              simp only [onEffects, hdecode, Option.bind_eq_bind, Option.bind_none,
                Option.isSome_none, Bool.false_eq_true, false_iff]
              intro hall
              simpa [hdecode] using hall uuid templateId data List.mem_cons_self
          | some msg =>
              simp only [onEffects, hdecode, Option.bind_eq_bind, Option.bind_some, ih,
                List.mem_cons]
              constructor
              · rintro hrest u t d (heq | hmem)
                · cases heq
                  simp [hdecode]
                · exact hrest u t d hmem
              · intro hall u t d hmem
                exact hall u t d (.inr hmem)

end OrderEntryGateway

/-- A frame is handled by its session and, as far as the session forwards it, by
the gateway. -/
def receiveFrame (auth : HmacAuthenticator) (s : Session) (g : OrderEntryGateway)
    (clock : SessionClock) (now : Int) (data : List UInt8) :
    Option (Session × OrderEntryGateway × List SessionEffect) := do
  let (s, effects) ← s.onMessage auth clock data
  let g ← g.onEffects now effects
  return (s, g, effects)

/-! ## Lengths -/

theorem decodeApplicationMessage_isSome {templateId : UInt16} {data : List UInt8}
    (hlen : MessageHeader.layout.size ≤ data.length) :
    (decodeApplicationMessage templateId data).isSome ↔
      (InboundTemplate.application templateId).messageLength ≤ data.length := by
  simp only [decodeApplicationMessage, InboundTemplate.messageLength]
  split
  · rw [Option.isSome_map, NewOrderSingle514.format.decode_isSome {} hlen]
  split
  · rename_i hcancel
    subst hcancel
    rw [Option.isSome_map, OrderCancelRequest516.format.decode_isSome {} hlen]
    rfl
  split
  · rw [Option.isSome_map, OrderCancelReplaceRequest515.format.decode_isSome {} hlen]
  · simpa using hlen

/-- How far the session and the gateway together read into a message. -/
def InboundTemplate.handledLength : SessionState → InboundTemplate → Nat
  | .established, .application templateId => (application templateId).messageLength
  | state, template => template.readLength state

/-- The frame is checked against its signature. -/
def ChecksHmac (s : Session) (data : List UInt8) : Prop :=
  s.hmacEnabled ∧ MessageHeader.layout.size ≤ data.length ∧
    ∃ templateId ∈ MessageHeader.decodeTemplateId data,
      s.state = .connected ∧ InboundTemplate.ofId templateId = .negotiate ∨
        s.state = .negotiated ∧ InboundTemplate.ofId templateId = .establish

/-- The frame is read only below its length, and the length of what is signed does
not wrap. -/
def ReadsWithin (auth : HmacAuthenticator) (s : Session) (g : OrderEntryGateway)
    (clock : SessionClock) (now : Int) (data : List UInt8) : Prop :=
  (receiveFrame auth s g clock now data).isSome ∧ (ChecksHmac s data → 8 + 32 ≤ data.length)

variable {auth : HmacAuthenticator} {s t : Session} {clock : SessionClock}
  {data : List UInt8} {effects : List SessionEffect}

/-- An established session forwards every application message. -/
theorem Session.forward_mem_of_application {templateId : UInt16}
    (hlen : MessageHeader.layout.size ≤ data.length) (hstate : s.state = .established)
    (htemplate : MessageHeader.decodeTemplateId data = some templateId)
    (hkind : InboundTemplate.ofId templateId = .application templateId)
    (hhandled : s.onMessage auth clock data = some (t, effects)) :
    ∃ uuid, .forward uuid templateId data ∈ effects := by
  simp only [onMessage, Nat.not_lt.mpr hlen, if_false, htemplate, Option.bind_eq_bind,
    Option.bind_some, hkind, handleApplicationMessage, hstate, ne_eq, not_true_eq_false,
    Option.bind_eq_some_iff] at hhandled
  rcases hhandled with ⟨seq, -, hanswer⟩
  rcases Prod.mk.inj (Option.some.inj hanswer) with ⟨-, rfl⟩
  exact ⟨_, List.mem_append_right _ List.mem_cons_self⟩

theorem receiveFrame_isSome (g : OrderEntryGateway) (now : Int) :
    (receiveFrame auth s g clock now data).isSome ↔
      ∃ t effects, s.onMessage auth clock data = some (t, effects) ∧
        (g.onEffects now effects).isSome := by
  cases hhandled : s.onMessage auth clock data with
  | none => simp [receiveFrame, hhandled]
  | some outcome =>
      rcases outcome with ⟨t, effects⟩
      cases heffects : g.onEffects now effects <;>
        simp [receiveFrame, hhandled, heffects, Prod.ext_iff]

/-- The gateway handles what a session forwards exactly when an application message
of an established session is complete. -/
theorem onEffects_isSome_of_onMessage (g : OrderEntryGateway) (now : Int) {templateId : UInt16}
    (hlen : MessageHeader.layout.size ≤ data.length)
    (htemplate : MessageHeader.decodeTemplateId data = some templateId)
    (hhandled : s.onMessage auth clock data = some (t, effects)) :
    (g.onEffects now effects).isSome ↔
      (s.state = .established → InboundTemplate.ofId templateId = .application templateId →
        (InboundTemplate.application templateId).messageLength ≤ data.length) := by
  rw [g.onEffects_isSome]
  constructor
  · intro hdecodes hstate hkind
    rcases Session.forward_mem_of_application hlen hstate htemplate hkind hhandled with ⟨uuid, hmem⟩
    rw [← decodeApplicationMessage_isSome hlen]
    exact hdecodes uuid templateId data hmem
  · intro hcomplete uuid id forwarded hmem
    have hforwards := (Session.onMessage_does hhandled).forwards hmem trivial
    rcases hforwards.received with ⟨_, _, _, hop, hid, hkind, heq⟩
    cases hop
    cases heq
    obtain rfl : templateId = id := Option.some.inj (htemplate.symm.trans hid)
    rw [decodeApplicationMessage_isSome hlen]
    exact hcomplete hforwards.established hkind

theorem InboundTemplate.handledLength_le_iff (state : SessionState) (template : InboundTemplate)
    (len : Nat) :
    template.handledLength state ≤ len ↔
      template.readLength state ≤ len ∧
        (state = .established → ∀ templateId, template = .application templateId →
          template.messageLength ≤ len) := by
  cases template with
  | application templateId =>
      cases state
      case established =>
        have hle := readLength_le .established (.application templateId)
        simp only [handledLength, forall_true_left]
        constructor
        · intro hfits
          exact ⟨hle.trans hfits, fun _ _ => hfits⟩
        · intro hfits
          exact hfits.2 templateId rfl
      all_goals simp [handledLength]
  | _ => cases state <;> simp [handledLength]

/-- A frame is handled within its bounds exactly when it is as long as it is
read. -/
theorem receiveFrame_isSome_iff (g : OrderEntryGateway) (now : Int) {templateId : UInt16}
    (hlen : MessageHeader.layout.size ≤ data.length)
    (htemplate : MessageHeader.decodeTemplateId data = some templateId) :
    (receiveFrame auth s g clock now data).isSome ↔
      (InboundTemplate.ofId templateId).handledLength s.state ≤ data.length := by
  rw [receiveFrame_isSome, InboundTemplate.handledLength_le_iff,
    ← Session.onMessage_isSome auth s clock hlen htemplate]
  constructor
  · rintro ⟨t, effects, hhandled, heffects⟩
    rw [onEffects_isSome_of_onMessage g now hlen htemplate hhandled] at heffects
    refine ⟨by simp [hhandled], fun hstate id hkind => ?_⟩
    rcases InboundTemplate.id_of_application hkind with rfl
    rw [hkind]
    exact heffects hstate hkind
  · rintro ⟨hsome, hcomplete⟩
    rcases Option.isSome_iff_exists.mp hsome with ⟨⟨t, effects⟩, hhandled⟩
    refine ⟨t, effects, hhandled, ?_⟩
    rw [onEffects_isSome_of_onMessage g now hlen htemplate hhandled]
    intro hstate hkind
    rw [← hkind]
    exact hcomplete hstate templateId hkind

/-- A frame is read within its bounds exactly when it has no header, or is as long
as the state reads a message of its template. -/
theorem readsWithin_iff (auth : HmacAuthenticator) (s : Session) (g : OrderEntryGateway)
    (clock : SessionClock) (now : Int) (data : List UInt8) :
    ReadsWithin auth s g clock now data ↔
      (MessageHeader.layout.size ≤ data.length →
        ∀ templateId ∈ MessageHeader.decodeTemplateId data,
          (InboundTemplate.ofId templateId).handledLength s.state ≤ data.length) := by
  by_cases hlen : MessageHeader.layout.size ≤ data.length
  · rcases MessageHeader.decodeTemplateId_isSome hlen with ⟨templateId, htemplate⟩
    simp only [ReadsWithin, receiveFrame_isSome_iff g now hlen htemplate, hlen,
      forall_true_left, htemplate, Option.mem_some_iff, forall_eq']
    refine and_iff_left_of_imp fun hfits hchecks => ?_
    rcases hchecks with ⟨-, -, id, hid, hchecked⟩
    obtain rfl : templateId = id := Option.some.inj (htemplate.symm.trans hid)
    -- the handshake messages are longer than a header and a signature
    rcases hchecked with ⟨hstate, hkind⟩ | ⟨hstate, hkind⟩ <;>
    · rw [hstate, hkind] at hfits
      exact le_trans (by decide) hfits
  · have hshort : s.onMessage auth clock data = some (s, []) := by
      rw [Session.onMessage, if_pos (Nat.lt_of_not_le hlen)]
    simp [ReadsWithin, receiveFrame, hshort, OrderEntryGateway.onEffects, ChecksHmac, hlen]

/-- An order cut off behind its header. -/
theorem truncated_order_read_past_end :
    ¬ReadsWithin Session.withoutOpenssl
      { uuid := 1, state := .established, lastReceived := 0, lastSent := 0 } {} ⟨0, 0, 0, 0⟩ 0
      ((NewOrderSingle514.format.toBytes {}).take 8) := by
  rintro ⟨hread, -⟩
  revert hread
  decide +kernel

end SimCme
