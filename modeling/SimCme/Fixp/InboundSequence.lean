import Mathlib.Data.List.Nodup
import SimCme.Fixp.SessionRuns

/-!
# Inbound sequence numbers

An established session compares the number of every order-entry message with the
number it expects.  It declares a gap when the number is ahead, and hands the
message to the gateway in every case, also when the number is behind.

Main results:

- Theorem {lit}`Session.onMessage_orderEntry`: what a session does with an
  order-entry message.
- Theorem {lit}`Session.appliedAtMostOnce_iff`: a stream of messages is applied at
  most once exactly when its numbers are strictly increasing.
-/

open Library

namespace SimCme

/-! ## Order-entry messages -/

/-- A complete message of one of the templates 514, 515 and 516. -/
def OrderEntry (data : List UInt8) : Prop :=
  ∃ templateId ∈ MessageHeader.decodeTemplateId data,
    InboundTemplate.ReadsSeqUnchecked templateId ∧
      (InboundTemplate.ofId templateId).messageLength ≤ data.length

instance decidableOrderEntry (data : List UInt8) : Decidable (OrderEntry data) :=
  Option.decidableExistsMem
    (p := fun templateId => InboundTemplate.ReadsSeqUnchecked templateId ∧
      (InboundTemplate.ofId templateId).messageLength ≤ data.length)
    (MessageHeader.decodeTemplateId data)

/-- The sequence number of an order-entry message. -/
def seqNumOf (data : List UInt8) : UInt32 :=
  Wire.uint32.ofBytes ((data.drop (8 + 17)).take 4)

theorem seqNumOf_of_readAt {data : List UInt8} {seqNum : UInt32}
    (hread : readAt data (8 + 17) 4 = some (Wire.uint32.toBytes seqNum)) :
    seqNumOf data = seqNum := by
  by_cases hlen : 8 + 17 + 4 ≤ data.length
  · simp only [readAt, hlen, if_true, Option.some.injEq] at hread
    rw [seqNumOf, hread, Wire.ofBytes_toBytes]
  · simp [readAt, hlen] at hread

/-- The number at body offset 17 is the sequence number of a new order. -/
theorem seqNumOf_newOrderSingle (msg : NewOrderSingle514) :
    seqNumOf (NewOrderSingle514.format.toBytes msg) = msg.seqNum := by
  have hmem : field 17 .uint32 (·.seqNum) (fun m v => { m with seqNum := v }) ∈
      NewOrderSingle514.format.layout.fields := by
    simp [NewOrderSingle514.format, MessageFormat.ilink3]
  exact seqNumOf_of_readAt (NewOrderSingle514.format.readAt_toBytes hmem msg)

theorem seqNumOf_orderCancelReplaceRequest (msg : OrderCancelReplaceRequest515) :
    seqNumOf (OrderCancelReplaceRequest515.format.toBytes msg) = msg.seqNum := by
  have hmem : field 17 .uint32 (·.seqNum) (fun m v => { m with seqNum := v }) ∈
      OrderCancelReplaceRequest515.format.layout.fields := by
    simp [OrderCancelReplaceRequest515.format, MessageFormat.ilink3]
  exact seqNumOf_of_readAt (OrderCancelReplaceRequest515.format.readAt_toBytes hmem msg)

theorem seqNumOf_orderCancelRequest (msg : OrderCancelRequest516) :
    seqNumOf (OrderCancelRequest516.format.toBytes msg) = msg.seqNum := by
  have hmem : field 17 .uint32 (·.seqNum) (fun m v => { m with seqNum := v }) ∈
      OrderCancelRequest516.format.layout.fields := by
    simp [OrderCancelRequest516.format, MessageFormat.ilink3]
  exact seqNumOf_of_readAt (OrderCancelRequest516.format.readAt_toBytes hmem msg)

theorem OrderEntry.kind {data : List UInt8} (hentry : OrderEntry data) :
    ∃ templateId, MessageHeader.decodeTemplateId data = some templateId ∧
      InboundTemplate.ofId templateId = .application templateId ∧
      Session.clientSeq templateId data = some (seqNumOf data) ∧
      MessageHeader.layout.size ≤ data.length := by
  obtain ⟨templateId, htemplate, hnamed, hlen⟩ := hentry
  have hkind : InboundTemplate.ofId templateId = .application templateId := by
    obtain rfl | rfl | rfl := hnamed <;> decide
  have hread : MessageHeader.layout.size + 21 ≤ data.length := by
    refine le_trans ?_ hlen
    obtain rfl | rfl | rfl := hnamed <;> decide
  have hlong : 8 + 17 + 4 ≤ data.length := hread
  refine ⟨templateId, htemplate, hkind, ?_, by omega⟩
  have hseq : Session.clientSeq templateId data =
      (readAt data (8 + 17) 4).map Wire.uint32.ofBytes := if_pos hnamed
  rw [hseq, readAt, if_pos hlong]
  rfl

namespace Session

variable {auth : HmacAuthenticator} {s : Session} {clock : SessionClock}
  {data : List UInt8}

/-- The number expected after a message. -/
def nextInAfter (expected seq : UInt32) : UInt32 :=
  if seq < expected then expected else seq + 1

/-- The gap a message reveals. -/
def gapBefore (uuid : UInt64) (expected seq : UInt32) : List NotApplied513 :=
  if seq > expected then [{ uuid := uuid, fromSeqNo := expected, msgCount := seq - expected }]
  else []

/-- An established session declares the gap before an order-entry message, moves
its expected number and hands the message on. -/
theorem onMessage_orderEntry (auth : HmacAuthenticator) (clock : SessionClock)
    (hstate : s.state = .established) (hentry : OrderEntry data) :
    ∃ t templateId, s.onMessage auth clock data = some (t,
        (gapBefore s.uuid s.nextInSeq (seqNumOf data)).map (fun na => .send (.notApplied na)) ++
          [.forward s.uuid templateId data]) ∧
      t.state = .established ∧ t.uuid = s.uuid ∧
      t.nextInSeq = nextInAfter s.nextInSeq (seqNumOf data) := by
  obtain ⟨templateId, htemplate, hkind, hseq, hlen⟩ := hentry.kind
  simp only [onMessage, Nat.not_lt.mpr hlen, if_false, htemplate, Option.bind_eq_bind,
    Option.bind_some, hkind, handleApplicationMessage, hstate, ne_eq, not_true_eq_false, hseq,
    gapBefore, nextInAfter]
  rcases Nat.lt_trichotomy (seqNumOf data).toNat s.nextInSeq.toNat with
    hbehind | hexpected | hahead
  · have hlt : seqNumOf data < s.nextInSeq := UInt32.lt_iff_toNat_lt.mpr hbehind
    have hle : ¬s.nextInSeq < seqNumOf data := by
      rw [UInt32.lt_iff_toNat_lt]
      omega
    have hne : seqNumOf data ≠ s.nextInSeq := by
      rw [Ne, ← UInt32.toNat_inj]
      omega
    simp [hlt, hle, hne]
  · rw [UInt32.toNat_inj] at hexpected
    simp [hexpected]
  · have hlt : s.nextInSeq < seqNumOf data := UInt32.lt_iff_toNat_lt.mpr hahead
    have hle : ¬seqNumOf data < s.nextInSeq := by
      rw [UInt32.lt_iff_toNat_lt]
      omega
    simp [hlt, hle, sendNotApplied, sendFramedMessage]

/-! ## Streams of messages -/

/-- The numbers of the messages handed to the gateway. -/
def forwardedSeqs (effects : List SessionEffect) : List UInt32 :=
  effects.filterMap fun
    | .forward _ _ data => some (seqNumOf data)
    | _ => none

/-- The gaps declared to the client. -/
def notAppliedOf (effects : List SessionEffect) : List NotApplied513 :=
  effects.filterMap fun
    | .send (.notApplied na) => some na
    | _ => none

/-- A number in the range a declaration names. -/
def Covers (na : NotApplied513) (seq : UInt32) : Prop :=
  na.fromSeqNo.toNat ≤ seq.toNat ∧ seq.toNat < na.fromSeqNo.toNat + na.msgCount.toNat

/-- Messages are applied at most once: no number reaches the gateway twice, the
numbers increase, and none of them was declared not applied. -/
structure AppliedAtMostOnce (effects : List SessionEffect) : Prop where
  once : ∀ seq, (forwardedSeqs effects).count seq ≤ 1
  increasing : (forwardedSeqs effects).Pairwise (· < ·)
  not_declared : ∀ na ∈ notAppliedOf effects, ∀ seq ∈ forwardedSeqs effects, ¬Covers na seq

/-- A stream of messages, each with the clock readings of its call. -/
abbrev Stream := List (SessionClock × List UInt8)

def Stream.ops (msgs : Stream) : List SessionOp :=
  msgs.map fun m => .onMessage m.1 m.2

def Stream.seqs (msgs : Stream) : List UInt32 :=
  msgs.map fun m => seqNumOf m.2

/-- The gaps an established session declares over a stream. -/
def gapsOver (uuid : UInt64) : UInt32 → List UInt32 → List NotApplied513
  | _, [] => []
  | expected, seq :: seqs =>
      gapBefore uuid expected seq ++ gapsOver uuid (nextInAfter expected seq) seqs

/-- Over a stream every message reaches the gateway, in order, and the gaps are
those of its numbers. -/
theorem effectsOf_stream (auth : HmacAuthenticator) {msgs : Stream}
    (hmsgs : ∀ m ∈ msgs, OrderEntry m.2) (hstate : s.state = .established) :
    forwardedSeqs (s.effectsOf auth msgs.ops) = msgs.seqs ∧
      notAppliedOf (s.effectsOf auth msgs.ops) = gapsOver s.uuid s.nextInSeq msgs.seqs := by
  induction msgs generalizing s with
  | nil => exact ⟨rfl, rfl⟩
  | cons m msgs ih =>
      obtain ⟨t, templateId, hhandled, htstate, huuid, hnext⟩ :=
        onMessage_orderEntry auth m.1 hstate (hmsgs m List.mem_cons_self)
      obtain ⟨hforwarded, hgaps⟩ := ih (fun m' hm' => hmsgs m' (List.mem_cons_of_mem m hm')) htstate
      have heffects : s.effectsOf auth (Stream.ops (m :: msgs)) =
          (gapBefore s.uuid s.nextInSeq (seqNumOf m.2)).map (fun na => .send (.notApplied na)) ++
            [.forward s.uuid templateId m.2] ++ t.effectsOf auth (Stream.ops msgs) := by
        simp only [effectsOf, Stream.ops, List.map_cons, Machine.run, machine, apply, hhandled,
          Option.getD_some]
      rw [heffects]
      constructor
      · simp only [forwardedSeqs, List.filterMap_append] at hforwarded ⊢
        rw [hforwarded]
        simp [Stream.seqs, List.filterMap_map]
      · simp only [notAppliedOf, List.filterMap_append] at hgaps ⊢
        rw [hgaps]
        simp [Stream.seqs, List.filterMap_map, gapsOver, huuid, hnext]

/-- Before a larger number, the expected number is one above the largest so far. -/
theorem toNat_nextInAfter {expected seq next : UInt32} (hlt : seq.toNat < next.toNat) :
    (nextInAfter expected seq).toNat = max expected.toNat (seq.toNat + 1) := by
  have hbound := next.toNat_lt
  have hsucc : (seq + 1).toNat = seq.toNat + 1 := by
    rw [UInt32.toNat_add]
    exact Nat.mod_eq_of_lt (by simp; omega)
  simp only [nextInAfter, UInt32.lt_iff_toNat_lt]
  split <;> omega

/-- A declared gap ends where the message lies. -/
theorem covers_gapBefore {uuid : UInt64} {expected seq n : UInt32} {na : NotApplied513}
    (hna : na ∈ gapBefore uuid expected seq) :
    Covers na n ↔ expected.toNat ≤ n.toNat ∧ n.toNat < seq.toNat := by
  simp only [gapBefore] at hna
  split at hna
  case isTrue hahead =>
    rw [gt_iff_lt, UInt32.lt_iff_toNat_lt] at hahead
    have hcount : (seq - expected).toNat = seq.toNat - expected.toNat :=
      UInt32.toNat_sub_of_le _ _ (by rw [UInt32.le_iff_toNat_le]; omega)
    simp only [List.mem_singleton] at hna
    simp only [hna, Covers, hcount]
    omega
  case isFalse => simp at hna

theorem fromSeqNo_of_gapBefore {uuid : UInt64} {expected seq : UInt32} {na : NotApplied513}
    (hna : na ∈ gapBefore uuid expected seq) : na.fromSeqNo = expected := by
  simp only [gapBefore] at hna
  split at hna <;> simp_all

/-- The gaps over increasing numbers start above whatever lies below the numbers
and the expected number. -/
theorem lt_fromSeqNo_of_gapsOver {uuid : UInt64} {low : Nat} {seqs : List UInt32}
    (hincreasing : seqs.Pairwise (· < ·)) (hlow : ∀ seq ∈ seqs, low < seq.toNat)
    {expected : UInt32} (hexpected : seqs ≠ [] → low < expected.toNat) :
    ∀ na ∈ gapsOver uuid expected seqs, low < na.fromSeqNo.toNat := by
  induction seqs generalizing expected with
  | nil => simp [gapsOver]
  | cons seq seqs ih =>
      obtain ⟨hfirst, hrest⟩ := List.pairwise_cons.mp hincreasing
      have hstart : low < expected.toNat := hexpected (by simp)
      intro na hna
      rcases List.mem_append.mp hna with hna | hna
      · rw [fromSeqNo_of_gapBefore hna]
        exact hstart
      · refine ih hrest (fun n hn => hlow n (List.mem_cons_of_mem seq hn)) ?_ na hna
        intro hne
        obtain ⟨next, hnext⟩ := List.exists_mem_of_ne_nil seqs hne
        rw [toNat_nextInAfter (UInt32.lt_iff_toNat_lt.mp (hfirst next hnext))]
        omega

/-- The gaps over increasing numbers cover none of the numbers. -/
theorem not_covers_of_gapsOver {uuid : UInt64} {seqs : List UInt32}
    (hincreasing : seqs.Pairwise (· < ·)) (expected : UInt32) :
    ∀ na ∈ gapsOver uuid expected seqs, ∀ n ∈ seqs, ¬Covers na n := by
  induction seqs generalizing expected with
  | nil => simp
  | cons seq seqs ih =>
      obtain ⟨hfirst, hrest⟩ := List.pairwise_cons.mp hincreasing
      have habove : ∀ n ∈ seqs, seq.toNat < n.toNat :=
        fun n hn => UInt32.lt_iff_toNat_lt.mp (hfirst n hn)
      intro na hna n hn
      rcases List.mem_append.mp hna with hna | hna
      · -- the gap ends before the first number, and the others are larger
        rw [covers_gapBefore hna]
        rcases List.mem_cons.mp hn with rfl | hn
        · omega
        · have := habove n hn
          omega
      · rcases List.mem_cons.mp hn with rfl | hn
        · have hfrom := lt_fromSeqNo_of_gapsOver hrest habove (fun hne => by
            obtain ⟨next, hnext⟩ := List.exists_mem_of_ne_nil seqs hne
            rw [toNat_nextInAfter (habove next hnext)]
            omega) na hna
          simp only [Covers]
          omega
        · exact ih hrest (nextInAfter expected seq) na hna n hn

/-- An established session applies a stream of order-entry messages at most once
exactly when the numbers of the stream are strictly increasing. -/
theorem appliedAtMostOnce_iff (auth : HmacAuthenticator) (s : Session)
    (hstate : s.state = .established) (msgs : Stream) (hmsgs : ∀ m ∈ msgs, OrderEntry m.2) :
    AppliedAtMostOnce (s.effectsOf auth msgs.ops) ↔ msgs.seqs.Pairwise (· < ·) := by
  obtain ⟨hforwarded, hgaps⟩ := effectsOf_stream auth hmsgs hstate
  constructor
  · intro happlied
    rw [← hforwarded]
    exact happlied.increasing
  · intro hincreasing
    have hnodup : msgs.seqs.Nodup := by
      refine hincreasing.imp fun {a b} hlt heq => ?_
      rw [heq, UInt32.lt_iff_toNat_lt] at hlt
      omega
    refine ⟨?_, ?_, ?_⟩
    · rw [hforwarded]
      exact List.nodup_iff_count_le_one.mp hnodup
    · rw [hforwarded]
      exact hincreasing
    · rw [hforwarded, hgaps]
      exact not_covers_of_gapsOver hincreasing s.nextInSeq

/-- An established session that expects the first message. -/
def freshlyEstablished : Session :=
  { uuid := 1, state := .established, lastReceived := 0, lastSent := 0 }

/-- A stream of new orders with the given numbers. -/
def ordersNumbered (seqs : List UInt32) : Stream :=
  seqs.map fun seq => (⟨0, 0, 0, 0⟩, NewOrderSingle514.format.toBytes { seqNum := seq })

theorem appliedAtMostOnce_of_gap :
    (∀ m ∈ ordersNumbered [1, 4], OrderEntry m.2) ∧
      AppliedAtMostOnce
        (freshlyEstablished.effectsOf withoutOpenssl (ordersNumbered [1, 4]).ops) :=
  have horders : ∀ m ∈ ordersNumbered [1, 4], OrderEntry m.2 := by decide +kernel
  ⟨horders, (appliedAtMostOnce_iff _ _ rfl _ horders).mpr (by decide +kernel)⟩

/-- The second message arrives after its number was declared not applied. -/
theorem late_message_applied :
    ¬AppliedAtMostOnce
      (freshlyEstablished.effectsOf withoutOpenssl (ordersNumbered [3, 2]).ops) := by
  intro happlied
  have hincreasing := happlied.increasing
  revert hincreasing
  decide +kernel

end Session

end SimCme
