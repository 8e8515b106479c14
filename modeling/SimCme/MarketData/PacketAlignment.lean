import SimCme.Engine.PacketReplay
import SimCme.Sbe.ExtendedMessages
import SimCme.Tools.Mdp3Listener

/-!
# Packets with unknown fields

The replay engine and the listener walk the same packets.  Both decode the entries of a
message at the length the message declares, and both go on behind the message at the
lengths they know.

Main results:

- Theorem {lit}`ExtendedMessage.aligned_iff`: both walks see the known fields of every message
  of a packet, and go on where it ends, exactly when no message carries unknown bytes.
-/

open Library

namespace SimCme

/-- A book or trade message on the wire, with unknown fields behind the known ones. -/
inductive ExtendedMessage where
  | book (w : WireMessage MDIncrementalRefreshBook46.format)
  | tradeSummary (w : WireMessage MDIncrementalRefreshTradeSummary48.format)

namespace ExtendedMessage

def bytes : ExtendedMessage → List UInt8
  | .book w => w.bytes
  | .tradeSummary w => w.bytes

/-- The message carries no unknown bytes. -/
def Plain : ExtendedMessage → Prop
  | .book w => w.Plain
  | .tradeSummary w => w.Plain

/-- What the replay engine is to see of the message. -/
def replayed : ExtendedMessage → ReplayedItem
  | .book w => .book (w.known {})
  | .tradeSummary w => .tradeSummary (w.known {})

/-- What the listener is to see of the message. -/
def shown : ExtendedMessage → Option Mdp3Message
  | .book w => some (.book (w.known {}))
  | .tradeSummary w => some (.tradeSummary (w.known {}))

/-- The packet of a header and messages. -/
def packet (header : Vector UInt8 12) (msgs : List ExtendedMessage) : List UInt8 :=
  header.toList ++ msgs.flatMap bytes

theorem header_le_length (msg : ExtendedMessage) :
    MessageHeader.layout.size ≤ msg.bytes.length := by
  cases msg with
  | book w => exact w.header_le_length
  | tradeSummary w => exact w.header_le_length

/-! ## Visits -/

/-- A visit that decodes a message and goes on at its known length sees the message and its
end exactly when it carries no unknown bytes. -/
theorem visit_iff {σ ι : Type} {f : GroupedFormat σ} (w : WireMessage f) {blank : σ}
    {wrap : σ → ι} (hwrap : ∀ m m', wrap m = wrap m' → m = m')
    (hlength : f.encodedLength (w.known blank) = w.knownLength) (front back : List UInt8)
    {visit : Option (ι × Nat)}
    (hvisit : visit = (f.decode blank (front ++ w.bytes ++ back) front.length).map
      fun msg => (wrap msg, f.encodedLength msg)) :
    visit = some (wrap (w.known blank), w.bytes.length) ↔ w.Plain := by
  rw [← w.decode_length_iff hlength front back, hvisit, Option.map_eq_some_iff]
  constructor
  · intro hseen
    obtain ⟨msg, hdecode, hpair⟩ := hseen
    obtain ⟨hitem, hend⟩ := Prod.mk.inj hpair
    obtain rfl := hwrap _ _ hitem
    exact ⟨hdecode, hend⟩
  · intro hdecoded
    obtain ⟨hdecode, hend⟩ := hdecoded
    exact ⟨w.known blank, hdecode, by rw [hend]⟩

open SyntheticEngine in
/-- The engine sees a message and its end exactly when it carries no unknown bytes. -/
theorem replayVisit_iff (msg : ExtendedMessage) (front back : List UInt8) :
    replayVisit (front ++ msg.bytes ++ back) front.length =
      some (msg.replayed, msg.bytes.length) ↔ msg.Plain := by
  cases msg with
  | book w =>
      refine visit_iff w (fun _ _ => ReplayedItem.book.inj)
        (MDIncrementalRefreshBook46.encodedLength_known w) front back ?_
      have htemplate := w.decodeTemplateId_append front back
      have hlength := w.decodeBlockLength_append front back
      simp only [bytes, replayVisit, htemplate, hlength, Option.bind_eq_bind, Option.bind_some,
        if_true]
      exact Option.map_eq_bind.symm
  | tradeSummary w =>
      refine visit_iff w (fun _ _ => ReplayedItem.tradeSummary.inj)
        (MDIncrementalRefreshTradeSummary48.encodedLength_known w) front back ?_
      have htemplate := w.decodeTemplateId_append front back
      have hlength := w.decodeBlockLength_append front back
      have hother : MDIncrementalRefreshTradeSummary48.format.templateId ≠
          MDIncrementalRefreshBook46.format.templateId := by
        decide
      simp only [bytes, replayVisit, htemplate, hlength, Option.bind_eq_bind, Option.bind_some,
        if_neg hother, if_true]
      exact Option.map_eq_bind.symm

open Mdp3Listener in
/-- The listener shows a message that it has a codec for. -/
theorem listenVisit_eq {σ : Type} {f : GroupedFormat σ} {wrap : σ → Mdp3Message} {blank : σ}
    (hcodec : Mdp3Message.codecs.find? (·.templateId == f.templateId) = some (f.codec blank wrap))
    {blockLength : UInt16}
    (hsize : ∀ msg, msgSize blockLength (some (wrap msg)) = f.encodedLength msg)
    {data : List UInt8} {offset : Nat}
    (htemplate : MessageHeader.decodeTemplateId data offset = some f.templateId)
    (hlength : MessageHeader.decodeBlockLength data offset = some blockLength) :
    listenVisit data offset =
      (f.decode blank data offset).map fun msg => (some (wrap msg), f.encodedLength msg) := by
  simp only [listenVisit, decodeMessage, htemplate, hlength, hcodec, Option.bind_eq_bind,
    Option.bind_some, GroupedFormat.codec]
  cases f.decode blank data offset with
  | none => rfl
  | some msg =>
      have hmsg := hsize msg
      simp [hmsg]

open Mdp3Listener in
/-- The listener sees a message and its end exactly when it carries no unknown bytes. -/
theorem listenVisit_iff (msg : ExtendedMessage) (front back : List UInt8) :
    listenVisit (front ++ msg.bytes ++ back) front.length =
      some (msg.shown, msg.bytes.length) ↔ msg.Plain := by
  cases msg with
  | book w =>
      refine visit_iff w (fun _ _ heq => Mdp3Message.book.inj (Option.some.inj heq))
        (MDIncrementalRefreshBook46.encodedLength_known w) front back ?_
      exact listenVisit_eq rfl (fun _ => rfl) (w.decodeTemplateId_append front back)
        (w.decodeBlockLength_append front back)
  | tradeSummary w =>
      refine visit_iff w (fun _ _ heq => Mdp3Message.tradeSummary.inj (Option.some.inj heq))
        (MDIncrementalRefreshTradeSummary48.encodedLength_known w) front back ?_
      exact listenVisit_eq rfl (fun _ => rfl) (w.decodeTemplateId_append front back)
        (w.decodeBlockLength_append front back)

/-! ## Walks -/

/-- The turns of a walk that sees every message where it lies, and goes on where it ends. -/
def turns {ι : Type} (see : ExtendedMessage → ι) (msgs : List ExtendedMessage) : List (Turn ι) :=
  turnsFrom (fun msg => msg.bytes.length) see 12 msgs

theorem packet_eq (header : Vector UInt8 12) (msgs : List ExtendedMessage) :
    packet header msgs = header.toList ++ msgs.flatMap bytes :=
  rfl

/-- Both walks see the known fields of every message of a packet, and go on where it ends,
exactly when no message carries unknown bytes. -/
theorem aligned_iff (header : Vector UInt8 12) (msgs : List ExtendedMessage) :
    (SyntheticEngine.replayTurns (packet header msgs) = .ok (turns replayed msgs) ↔
        ∀ msg ∈ msgs, msg.Plain) ∧
      (Mdp3Listener.listenTurns (packet header msgs) = .ok (turns shown msgs) ↔
        ∀ msg ∈ msgs, msg.Plain) := by
  have hheader : 0 < MessageHeader.layout.size := by decide
  have hreplay := walk_append_iff hheader header_le_length replayVisit_iff header.toList msgs
    (packet_eq header msgs)
  have hlisten := walk_append_iff hheader header_le_length listenVisit_iff header.toList msgs
    (packet_eq header msgs)
  rw [Vector.length_toList] at hreplay hlisten
  exact ⟨hreplay, hlisten⟩

/-- The engine applies the known fields of messages that carry no others. -/
theorem processReplayedPacket_of_plain (draws : Nat → Nat → Double) (r : PacketReplay)
    (header : Vector UInt8 12) {msgs : List ExtendedMessage} (hplain : ∀ msg ∈ msgs, msg.Plain) :
    r.processReplayedPacket draws (packet header msgs) =
      .ok ((msgs.map replayed).foldl (PacketReplay.applyItem draws) r) := by
  have hlong : ¬(packet header msgs).length < SyntheticEngine.mdp3PacketHeaderSize := by
    rw [packet, List.length_append, Vector.length_toList]
    exact Nat.not_lt.mpr (Nat.le_add_right _ _)
  have hturns := (aligned_iff header msgs).1.mpr hplain
  rw [PacketReplay.processReplayedPacket, if_neg hlong, hturns, Except.map, turns,
    map_item_turnsFrom]

/-! ## Messages of a longer schema -/

/-- A book message with an entry of 32 bytes, as the schema declares it. -/
def longEntry : ExtendedMessage :=
  .book { root := {}, groups := ({ extra := 5, entries := [({}, .replicate 5 0)] }, ()) }

/-- A book message without entries. -/
def noEntries : ExtendedMessage :=
  .book { root := {}, groups := ({}, ()) }

/-- The walk goes on within the entry of 32 bytes, and takes its last bytes for the next
header. -/
theorem not_aligned_of_longEntry :
    ¬∀ (header : Vector UInt8 12) (msgs : List ExtendedMessage),
      SyntheticEngine.replayTurns (packet header msgs) = .ok (turns replayed msgs) ∧
        Mdp3Listener.listenTurns (packet header msgs) = .ok (turns shown msgs) := by
  intro haligned
  have hwalk := (haligned (.replicate 12 0) [longEntry, noEntries]).1
  revert hwalk
  decide

end ExtendedMessage

end SimCme
