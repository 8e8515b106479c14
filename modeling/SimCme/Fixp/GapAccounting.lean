import SimCme.Fixp.InboundSequence
import SimCme.Library.Arrivals

/-!
# Declared gaps

The number an established session expects moves with the largest number received.  Each
time it jumps, the session declares the numbers it jumps over not applied.

Main results:

- Theorem {lit}`Session.toNat_nextIn_stream`: the number expected after a stream of
  messages.
- Theorem {lit}`Session.map_range_gapsOver`: the gaps declared are the ranges the numbers of
  the stream leave out.
- Theorem {lit}`Session.gaps_accounted`: every number between the one the client announced
  and the one expected was handed on or declared, and none was declared that had arrived
  before a larger one.
-/

open Library

namespace SimCme

/-- The numbers a declaration names: the first and the one behind the last. -/
def NotApplied513.range (na : NotApplied513) : Nat × Nat :=
  (na.fromSeqNo.toNat, na.fromSeqNo.toNat + na.msgCount.toNat)

namespace Session

variable {auth : HmacAuthenticator} {s t : Session} {clock : SessionClock}
  {data : List UInt8} {effects : List SessionEffect}

/-! ## Established sessions -/

/-- The session that accepting an Establish leads to. -/
def OpenedBy (auth : HmacAuthenticator) (est : Establish503) (t : Session) : Prop :=
  ∃ (s : Session) (clock : SessionClock) (data : List UInt8) (effects : List SessionEffect),
    s.state = .negotiated ∧
    MessageHeader.decodeTemplateId data = some Establish503.format.templateId ∧
    Establish503.format.decode {} data 0 = some est ∧
    s.onMessage auth clock data = some (t, effects) ∧ t.state = .established

/-- An accepted Establish sets the number expected. -/
theorem nextInSeq_of_handleEstablish {est : Establish503}
    (hstate : s.state = .negotiated) (hdecode : Establish503.format.decode {} data 0 = some est)
    (hhandled : s.handleEstablish auth clock data = some (t, effects))
    (hestablished : t.state = .established) : t.nextInSeq = est.nextSeqNo := by
  simp only [handleEstablish, hstate, ne_eq, not_true_eq_false, if_false, hdecode,
    Option.bind_eq_bind, Option.bind_some, Option.bind_eq_some_iff] at hhandled
  obtain ⟨accepted, -, hanswer⟩ := hhandled
  cases accepted with
  | true =>
      cases hanswer
      rfl
  | false =>
      -- A refused Establish ends the session.
      have hopen : s.state ≠ .terminated := by simp [hstate]
      simp only [Bool.false_eq_true, if_false, terminate, hopen, Option.pure_def,
        Option.some.injEq] at hanswer
      cases hanswer
      simp at hestablished

theorem OpenedBy.nextInSeq_eq {est : Establish503} (hopened : OpenedBy auth est t) :
    t.nextInSeq = est.nextSeqNo := by
  obtain ⟨s, clock, data, effects, hstate, htemplate, hdecode, hhandled, hestablished⟩ := hopened
  have hkind : InboundTemplate.ofId Establish503.format.templateId = .establish := by decide
  unfold onMessage at hhandled
  split at hhandled
  · cases hhandled
    simp [hstate] at hestablished
  · simp only [htemplate, Option.bind_eq_bind, Option.bind_some, hkind] at hhandled
    exact nextInSeq_of_handleEstablish (s := { s with lastReceived := clock.now }) hstate hdecode
      hhandled hestablished

theorem OpenedBy.state_eq {est : Establish503} (hopened : OpenedBy auth est t) :
    t.state = .established := by
  obtain ⟨s, clock, data, effects, -, -, -, -, hestablished⟩ := hopened
  exact hestablished

/-! ## Gaps over a stream -/

/-- The numbers of a stream. -/
def Stream.numbers (msgs : Stream) : List Nat :=
  msgs.seqs.map UInt32.toNat

/-- The number expected after a message, as long as it does not wrap. -/
theorem toNat_nextInAfter_of_lt {expected seq : UInt32} (hseq : seq.toNat < 2 ^ 32 - 1) :
    (nextInAfter expected seq).toNat = max expected.toNat (seq.toNat + 1) := by
  have htop : (UInt32.ofNat (2 ^ 32 - 1)).toNat = 2 ^ 32 - 1 := rfl
  have hbelow : seq.toNat < (UInt32.ofNat (2 ^ 32 - 1)).toNat := by omega
  exact toNat_nextInAfter hbelow

/-- A gap reaches from the number expected to the number received. -/
theorem map_range_gapBefore (uuid : UInt64) (expected seq : UInt32) :
    (gapBefore uuid expected seq).map NotApplied513.range =
      if expected.toNat < seq.toNat then [(expected.toNat, seq.toNat)] else [] := by
  simp only [gapBefore, gt_iff_lt, UInt32.lt_iff_toNat_lt]
  split
  · rename_i hahead
    have hcount : (seq - expected).toNat = seq.toNat - expected.toNat :=
      UInt32.toNat_sub_of_le _ _ (UInt32.le_iff_toNat_le.mpr hahead.le)
    simp only [List.map_cons, List.map_nil, NotApplied513.range, hcount, List.cons.injEq,
      Prod.mk.injEq, and_true, true_and]
    omega
  · rfl

/-- The gaps declared over a stream are the ranges its numbers leave out. -/
theorem map_range_gapsOver (uuid : UInt64) (expected : UInt32) {seqs : List UInt32}
    (hseqs : ∀ seq ∈ seqs, seq.toNat < 2 ^ 32 - 1) :
    (gapsOver uuid expected seqs).map NotApplied513.range =
      skippedRanges expected.toNat (seqs.map UInt32.toNat) := by
  induction seqs generalizing expected with
  | nil => rfl
  | cons seq seqs ih =>
      rw [List.forall_mem_cons] at hseqs
      rw [gapsOver, List.map_append, map_range_gapBefore, ih _ hseqs.2,
        toNat_nextInAfter_of_lt hseqs.1]
      rfl

/-- The number expected after a stream. -/
theorem toNat_nextIn_stream (auth : HmacAuthenticator) {msgs : Stream}
    (hmsgs : ∀ m ∈ msgs, OrderEntry m.2) (hseqs : ∀ seq ∈ msgs.seqs, seq.toNat < 2 ^ 32 - 1)
    (hstate : s.state = .established) :
    (s.after auth msgs.ops).nextInSeq.toNat = expectedAfter s.nextInSeq.toNat msgs.numbers := by
  induction msgs generalizing s with
  | nil => rfl
  | cons m msgs ih =>
      rw [List.forall_mem_cons] at hmsgs
      have hbounds : (seqNumOf m.2).toNat < 2 ^ 32 - 1 ∧
          ∀ seq ∈ Stream.seqs msgs, seq.toNat < 2 ^ 32 - 1 := by
        rwa [Stream.seqs, List.map_cons, List.forall_mem_cons] at hseqs
      obtain ⟨t, templateId, hhandled, htstate, -, hnext⟩ :=
        onMessage_orderEntry auth m.1 hstate hmsgs.1
      have hafter : s.after auth (Stream.ops (m :: msgs)) = t.after auth (Stream.ops msgs) := by
        simp only [after, Stream.ops, List.map_cons, Machine.run, machine, apply, hhandled,
          Option.getD_some]
      have hnumbers : Stream.numbers (m :: msgs) =
          (seqNumOf m.2).toNat :: Stream.numbers msgs := rfl
      rw [hafter, ih hmsgs.2 hbounds.2 htstate, hnext, toNat_nextInAfter_of_lt hbounds.1,
        hnumbers, expectedAfter]

/-! ## Accounts -/

/-- The gaps of a stream are accounted for, from the first number the client announced to
the number a session expects behind it. -/
structure GapsAccounted (start : UInt32) (msgs : Stream) (t : Session)
    (effects : List SessionEffect) : Prop where
  next_eq : IsGreatest {e | e = start.toNat ∨ ∃ seq ∈ msgs.seqs, e = seq.toNat + 1}
    t.nextInSeq.toNat
  nonempty : ∀ na ∈ notAppliedOf effects, na.range.1 < na.range.2
  increasing : (notAppliedOf effects).Pairwise fun na na' => na.range.2 ≤ na'.range.1
  declared_iff : ∀ n, (∃ na ∈ notAppliedOf effects, na.range.1 ≤ n ∧ n < na.range.2) ↔
    start.toNat ≤ n ∧ n < t.nextInSeq.toNat ∧ Overtaken msgs.numbers n
  settled : ∀ n, start.toNat ≤ n → n < t.nextInSeq.toNat →
    (∃ seq ∈ forwardedSeqs effects, seq.toNat = n) ∨
      ∃ na ∈ notAppliedOf effects, na.range.1 ≤ n ∧ n < na.range.2

/-- Over every stream of order-entry messages, an established session accounts for the
gaps from the number its Establish carried. -/
theorem gaps_accounted (auth : HmacAuthenticator) (est : Establish503) (t : Session)
    (hopened : OpenedBy auth est t) (msgs : Stream) (hmsgs : ∀ m ∈ msgs, OrderEntry m.2)
    (hseqs : ∀ seq ∈ msgs.seqs, seq.toNat < 2 ^ 32 - 1) :
    GapsAccounted est.nextSeqNo msgs (t.after auth msgs.ops) (t.effectsOf auth msgs.ops) := by
  obtain ⟨hforwarded, hgaps⟩ := effectsOf_stream auth hmsgs hopened.state_eq
  have hnext := toNat_nextIn_stream auth hmsgs hseqs hopened.state_eq
  rw [hopened.nextInSeq_eq] at hgaps hnext
  have hranges := map_range_gapsOver t.uuid est.nextSeqNo hseqs
  rw [← hgaps] at hranges
  have hmem : ∀ n, (∃ na ∈ notAppliedOf (t.effectsOf auth msgs.ops),
      na.range.1 ≤ n ∧ n < na.range.2) ↔
      est.nextSeqNo.toNat ≤ n ∧ Overtaken msgs.numbers n := by
    intro n
    rw [← mem_skippedRanges_iff, Stream.numbers, ← hranges]
    simp only [List.mem_map, exists_exists_and_eq_and]
  refine ⟨?_, ?_, ?_, ?_, ?_⟩
  · have hgreatest := isGreatest_expectedAfter est.nextSeqNo.toNat msgs.numbers
    rw [← hnext] at hgreatest
    simpa only [Stream.numbers, List.mem_map, exists_exists_and_eq_and] using hgreatest
  · intro na hna
    have hrange : na.range ∈ skippedRanges est.nextSeqNo.toNat msgs.numbers := by
      rw [Stream.numbers, ← hranges]
      exact List.mem_map_of_mem hna
    exact (of_mem_skippedRanges hrange).2
  · rw [← List.pairwise_map (f := NotApplied513.range) (R := fun r r' => r.2 ≤ r'.1), hranges]
    exact pairwise_skippedRanges _ _
  · intro n
    rw [hmem, hnext]
    constructor
    · rintro ⟨hstart, hovertaken⟩
      exact ⟨hstart, hovertaken.lt_expectedAfter _, hovertaken⟩
    · rintro ⟨hstart, -, hovertaken⟩
      exact ⟨hstart, hovertaken⟩
  · intro n hstart hlt
    rw [hnext] at hlt
    rcases arrived_or_overtaken hstart hlt with harrived | hovertaken
    · rw [hforwarded]
      exact Or.inl (List.mem_map.mp harrived)
    · exact Or.inr ((hmem n).mpr ⟨hstart, hovertaken⟩)

/-- Of the numbers 2 to 6, the orders 4, 3 and 6 leave 2, 3 and 5 declared. -/
theorem gaps_accounted_of_late_order :
    let s : Session := { uuid := 1, state := .negotiated, lastReceived := 0, lastSent := 0 }
    let est : Establish503 := { uuid := 1, nextSeqNo := 2 }
    let ops := [SessionOp.onMessage ⟨0, 0, 0, 0⟩ (Establish503.format.toBytes est)]
    let t := s.after withoutOpenssl ops
    let msgs := ordersNumbered [4, 3, 6]
    (t.after withoutOpenssl msgs.ops).nextInSeq = 7 ∧
      GapsAccounted 2 msgs (t.after withoutOpenssl msgs.ops)
        (t.effectsOf withoutOpenssl msgs.ops) := by
  intro s est ops t msgs
  have hhandled : (s.onMessage withoutOpenssl ⟨0, 0, 0, 0⟩
      (Establish503.format.toBytes est)).isSome := by decide +kernel
  obtain ⟨⟨t', effects⟩, houtcome⟩ := Option.isSome_iff_exists.mp hhandled
  have ht : t = t' := by
    simp [t, ops, after, Machine.run, machine, apply, houtcome]
  have hopened : OpenedBy withoutOpenssl est t := by
    refine ⟨s, ⟨0, 0, 0, 0⟩, Establish503.format.toBytes est, effects, rfl, ?_, ?_, ?_, ?_⟩
    · exact Establish503.format.decodeTemplateId_toBytes est
    · exact Establish503.format.decode_toBytes est {}
    · rw [ht]
      exact houtcome
    · decide +kernel
  have hseqs : ∀ seq ∈ msgs.seqs, seq.toNat < 2 ^ 32 - 1 := by
    have hnumbers : msgs.seqs = [4, 3, 6] := by decide +kernel
    rw [hnumbers]
    simp
  exact ⟨by decide +kernel, gaps_accounted withoutOpenssl est t hopened msgs
    (by decide +kernel) hseqs⟩

end Session

end SimCme
