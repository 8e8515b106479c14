import SimCme.Engine.SyntheticOrders
import SimCme.Library.BufferWalk

/-!
# Replayed packets

The replay engine walks the messages of a packet: it decodes book and trade messages and
skips the others by the length of their root block.  Before a message it checks for room for
a header only; the decoders follow the counts and the lengths that the buffer declares.

Main results:

- Theorem {lit}`SyntheticEngine.replayVisit_iff`: a message is decoded exactly when what it
  declares lies within the buffer.
- Theorem {lit}`PacketReplay.replay_safe_iff`: replaying a packet always comes to its end, and
  it reads within the buffer exactly when every message that the walk starts at declares no
  more than there is.
-/

namespace SimCme

open Library

theorem MDIncrementalRefreshBook46.encodedLength_eq (msg : MDIncrementalRefreshBook46) :
    format.encodedLength msg = 20 + 27 * msg.entries.length := by
  have hgroups : (format.groups.map (·.encodedLength msg)).sum = 3 + msg.entries.length * 27 + 0 :=
    rfl
  have hroot : MessageHeader.layout.size + format.size = 17 := rfl
  rw [GroupedFormat.encodedLength, hgroups, hroot]
  omega

theorem MDIncrementalRefreshTradeSummary48.encodedLength_eq
    (msg : MDIncrementalRefreshTradeSummary48) :
    format.encodedLength msg =
      23 + 26 * msg.mdEntries.length + 12 * msg.orderIDEntries.length := by
  have hgroups : (format.groups.map (·.encodedLength msg)).sum =
      3 + msg.mdEntries.length * 26 + (3 + msg.orderIDEntries.length * 12 + 0) :=
    rfl
  have hroot : MessageHeader.layout.size + format.size = 17 := rfl
  rw [GroupedFormat.encodedLength, hgroups, hroot]
  omega

/-! ## The walk -/

/-- What the engine sees of a message. -/
inductive ReplayedItem where
  | book (msg : MDIncrementalRefreshBook46)
  | tradeSummary (msg : MDIncrementalRefreshTradeSummary48)
  | skipped
deriving DecidableEq, Repr

namespace SyntheticEngine

def mdp3PacketHeaderSize : Nat := 12

/-- One turn of the loop over the messages: what it sees, and how far it goes on. -/
def replayVisit (data : List UInt8) (offset : Nat) : Option (ReplayedItem × Nat) := do
  let templateId ← MessageHeader.decodeTemplateId data offset
  let blockLength ← MessageHeader.decodeBlockLength data offset
  if templateId = MDIncrementalRefreshBook46.format.templateId then
    let msg ← MDIncrementalRefreshBook46.format.decode {} data offset
    return (.book msg, MDIncrementalRefreshBook46.format.encodedLength msg)
  else if templateId = MDIncrementalRefreshTradeSummary48.format.templateId then
    let msg ← MDIncrementalRefreshTradeSummary48.format.decode {} data offset
    return (.tradeSummary msg, MDIncrementalRefreshTradeSummary48.format.encodedLength msg)
  else
    return (.skipped, MessageHeader.layout.size + blockLength.toNat)

/-- The loop over the messages of a packet.  No message is empty, so there are no more turns
than bytes. -/
def replayTurns (data : List UInt8) : Except WalkError (List (Turn ReplayedItem)) :=
  walk (replayVisit data) MessageHeader.layout.size data.length data.length mdp3PacketHeaderSize

end SyntheticEngine

/-! ## The engine -/

/-- The engine with the events it has yet to hand out, and the number of trades it has
replayed. -/
structure PacketReplay where
  engine : ReplayEngine := {}
  pendingEvents : List EngineEvent := []
  trades : Nat := 0

namespace PacketReplay

/-- Replay a trade with the numbers drawn for it. -/
def applyTrade (draws : Nat → Nat → Double) (r : PacketReplay)
    (entry : MDIncrementalRefreshTradeSummary48.MDEntry) : PacketReplay :=
  let aggressor := if entry.aggressorSide = 1 then Side.buy else .sell
  let outcome := r.engine.checkFillsOnTrade (draws r.trades) entry.securityID.toInt
    ⟨entry.mdEntryPx⟩ entry.mdEntrySize.toInt aggressor
  { engine := outcome.engine
    pendingEvents := r.pendingEvents ++ outcome.events
    trades := r.trades + 1 }

def applyItem (draws : Nat → Nat → Double) (r : PacketReplay) : ReplayedItem → PacketReplay
  | .book msg =>
      { r with
        engine := { r.engine with toSyntheticEngine := r.engine.toSyntheticEngine.updateBBO msg } }
  | .tradeSummary msg => msg.mdEntries.foldl (applyTrade draws) r
  | .skipped => r

/-- Replay a packet.  The messages are decoded by themselves, so the walk comes first. -/
def processReplayedPacket (draws : Nat → Nat → Double) (r : PacketReplay) (data : List UInt8) :
    Except WalkError PacketReplay :=
  if data.length < SyntheticEngine.mdp3PacketHeaderSize then .ok r
  else
    (SyntheticEngine.replayTurns data).map fun turns =>
      (turns.map (·.item)).foldl (applyItem draws) r

end PacketReplay

/-! ## What a buffer declares -/

namespace SyntheticEngine

/-- The template of the message at a position. -/
def declaredTemplate (data : List UInt8) (offset : Nat) : Nat :=
  wordAt data (offset + 2) 2

/-- The first group of the message at a position. -/
def firstGroup (offset : Nat) : Nat :=
  offset + 17

/-- What the message at a position declares lies within the buffer: the heads of its groups
and the known parts of their entries, each as far behind the one before as is declared. -/
def MessageFits (data : List UInt8) (offset : Nat) : Prop :=
  if declaredTemplate data offset = 46 then GroupSize.Fits data (firstGroup offset) 27
  else if declaredTemplate data offset = 48 then
    GroupSize.Fits data (firstGroup offset) 26 ∧
      GroupSize.Fits data (GroupSize.declaredEnd data (firstGroup offset)) 12
  else True

/-- How far the walk goes on behind the message at a position: over the entries the message
declares, at the lengths the decoder knows. -/
def advance (data : List UInt8) (offset : Nat) : Nat :=
  if declaredTemplate data offset = 46 then
    20 + 27 * GroupSize.declaredCount data (firstGroup offset)
  else if declaredTemplate data offset = 48 then
    23 + 26 * GroupSize.declaredCount data (firstGroup offset) +
      12 * GroupSize.declaredCount data (GroupSize.declaredEnd data (firstGroup offset))
  else 8 + wordAt data offset 2

/-- The positions the walk comes to. -/
def MessageStart (data : List UInt8) (offset : Nat) : Prop :=
  Reached (advance data) 8 data.length 12 offset

theorem advance_pos (data : List UInt8) (offset : Nat) : 0 < advance data offset := by
  unfold advance
  split
  · omega
  · split <;> omega

/-- The header of a message is read whenever there is room for it. -/
theorem decode_header {data : List UInt8} {offset : Nat} (hroom : offset + 8 ≤ data.length) :
    ∃ templateId blockLength, MessageHeader.decodeTemplateId data offset = some templateId ∧
      MessageHeader.decodeBlockLength data offset = some blockLength ∧
      templateId.toNat = declaredTemplate data offset ∧
      blockLength.toNat = wordAt data offset 2 := by
  have hword : ∀ pos, pos + 2 ≤ data.length → ∃ v, (readAt data pos 2).map Wire.uint16.ofBytes =
      some v ∧ v.toNat = wordAt data pos 2 := by
    intro pos hpos
    refine ⟨.ofNat (wordAt data pos 2), ?_, ?_⟩
    · rw [readAt, if_pos hpos]
      rfl
    · have hlt := wordAt_lt data pos 2
      rw [UInt16.toNat_ofNat']
      omega
  obtain ⟨templateId, htemplate, htoNat⟩ := hword (offset + 2) (by omega)
  obtain ⟨blockLength, hlength, hlength_toNat⟩ := hword offset (by omega)
  exact ⟨templateId, blockLength, htemplate, hlength, htoNat, hlength_toNat⟩

/-- A book message is decoded exactly when what it declares lies within the buffer, with as
many entries as it declares. -/
theorem decode_book_iff {data : List UInt8} {offset : Nat} (hroom : offset + 8 ≤ data.length) :
    ((MDIncrementalRefreshBook46.format.decode {} data offset).isSome ↔
      GroupSize.Fits data (firstGroup offset) 27) ∧
    ∀ msg, MDIncrementalRefreshBook46.format.decode {} data offset = some msg →
      MDIncrementalRefreshBook46.format.encodedLength msg =
        20 + 27 * GroupSize.declaredCount data (firstGroup offset) := by
  constructor
  · refine (MDIncrementalRefreshBook46.format.decode_isSome_iff (by decide) {} hroom).trans ?_
    constructor
    · rintro ⟨-, hgroup, -⟩
      exact hgroup
    · intro hgroup
      have hhead := hgroup.1
      exact ⟨Nat.le_of_add_right_le hhead, hgroup, trivial⟩
  · intro msg hdecode
    simp only [GroupedFormat.decode, MDIncrementalRefreshBook46.format, Group.decode,
      Option.bind_eq_bind, Option.bind_eq_some_iff, Option.some.injEq] at hdecode
    obtain ⟨root, -, ⟨entries, stop⟩, hentries, rfl⟩ := hdecode
    have hcount := ((MDIncrementalRefreshBook46.entriesGroup.decodeEntries_iff (by decide) _ data
      _).2 entries stop hentries).1
    rw [MDIncrementalRefreshBook46.encodedLength_eq]
    exact congrArg (20 + 27 * ·) hcount

/-- A trade message is decoded exactly when what its two groups declare lies within the
buffer, with as many entries as they declare. -/
theorem decode_tradeSummary_iff {data : List UInt8} {offset : Nat}
    (hroom : offset + 8 ≤ data.length) :
    ((MDIncrementalRefreshTradeSummary48.format.decode {} data offset).isSome ↔
      GroupSize.Fits data (firstGroup offset) 26 ∧
        GroupSize.Fits data (GroupSize.declaredEnd data (firstGroup offset)) 12) ∧
    ∀ msg, MDIncrementalRefreshTradeSummary48.format.decode {} data offset = some msg →
      MDIncrementalRefreshTradeSummary48.format.encodedLength msg =
        23 + 26 * GroupSize.declaredCount data (firstGroup offset) +
          12 * GroupSize.declaredCount data
            (GroupSize.declaredEnd data (firstGroup offset)) := by
  constructor
  · refine (MDIncrementalRefreshTradeSummary48.format.decode_isSome_iff (by decide) {}
      hroom).trans ?_
    constructor
    · rintro ⟨-, hfirst, hsecond, -⟩
      exact ⟨hfirst, hsecond⟩
    · rintro ⟨hfirst, hsecond⟩
      have hhead := hfirst.1
      exact ⟨Nat.le_of_add_right_le hhead, hfirst, hsecond, trivial⟩
  · intro msg hdecode
    simp only [GroupedFormat.decode, MDIncrementalRefreshTradeSummary48.format, Group.decode,
      Option.bind_eq_bind, Option.bind_eq_some_iff, Option.some.injEq] at hdecode
    obtain ⟨root, -, ⟨mdEntries, mid⟩, hmd, ⟨orderIDEntries, stop⟩, horders, rfl⟩ := hdecode
    obtain ⟨hmd_count, rfl⟩ :=
      (MDIncrementalRefreshTradeSummary48.mdEntriesGroup.decodeEntries_iff (by decide) _ data
        _).2 mdEntries mid hmd
    have horders_count :=
      ((MDIncrementalRefreshTradeSummary48.orderIDEntriesGroup.decodeEntries_iff (by decide) _
        data _).2 orderIDEntries stop horders).1
    rw [MDIncrementalRefreshTradeSummary48.encodedLength_eq]
    exact congrArg₂ (23 + 26 * · + 12 * ·) hmd_count horders_count

/-- A message is decoded exactly when what it declares lies within the buffer, and the walk
goes on behind the entries it declares. -/
theorem replayVisit_iff {data : List UInt8} {offset : Nat} (hroom : offset + 8 ≤ data.length) :
    ((replayVisit data offset).isSome ↔ MessageFits data offset) ∧
      ∀ item n, replayVisit data offset = some (item, n) → n = advance data offset := by
  obtain ⟨templateId, blockLength, htemplate, hlength, htoNat, hlength_toNat⟩ :=
    decode_header hroom
  have hbook : templateId = 46 ↔ declaredTemplate data offset = 46 := by
    rw [← htoNat]
    exact UInt16.toNat_inj.symm
  have htrade : templateId = 48 ↔ declaredTemplate data offset = 48 := by
    rw [← htoNat]
    exact UInt16.toNat_inj.symm
  have hbook_id : MDIncrementalRefreshBook46.format.templateId = 46 := rfl
  have htrade_id : MDIncrementalRefreshTradeSummary48.format.templateId = 48 := rfl
  unfold replayVisit MessageFits advance
  simp only [htemplate, hlength, Option.bind_eq_bind, Option.bind_some, hbook_id, htrade_id,
    ← hbook, ← htrade]
  by_cases h46 : templateId = 46
  · obtain ⟨hsome, hcount⟩ := decode_book_iff hroom
    simp only [if_pos h46, ← hsome]
    cases hdecode : MDIncrementalRefreshBook46.format.decode {} data offset with
    | none => simp
    | some msg => simp [hcount msg hdecode]
  · by_cases h48 : templateId = 48
    · obtain ⟨hsome, hcount⟩ := decode_tradeSummary_iff hroom
      simp only [if_neg h46, if_pos h48, ← hsome]
      cases hdecode : MDIncrementalRefreshTradeSummary48.format.decode {} data offset with
      | none => simp
      | some msg => simp [hcount msg hdecode]
    · simp only [if_neg h46, if_neg h48]
      have hroot : MessageHeader.layout.size = 8 := rfl
      simp [hlength_toNat, hroot, eq_comm]

/-- The walk over a packet's messages succeeds exactly when what they declare is there. -/
theorem replayTurns_ok_iff (data : List UInt8) :
    (∃ turns, replayTurns data = .ok turns) ↔
      ∀ offset, MessageStart data offset → offset + 8 ≤ data.length → MessageFits data offset := by
  have hheader : 0 < MessageHeader.layout.size := by decide
  exact walk_ok_iff hheader (advance_pos data) (fun offset hroom => (replayVisit_iff hroom).1)
    (fun offset item n hroom => (replayVisit_iff hroom).2 item n) (Nat.le_add_left _ _)

theorem replayTurns_ne_outOfTurns (data : List UInt8) :
    replayTurns data ≠ .error .outOfTurns :=
  walk_ne_outOfTurns (by decide) (Nat.le_add_left _ _)

end SyntheticEngine

namespace PacketReplay

open SyntheticEngine

theorem not_messageStart_of_short {data : List UInt8} (hshort : data.length < 12) {offset : Nat}
    (hstart : MessageStart data offset) : data.length < offset + 8 := by
  have hle := hstart.le
  omega

/-- Replaying a packet comes to its end, and it reads within the buffer exactly when every
message that the walk starts at declares no more than there is. -/
theorem replay_safe_iff (draws : Nat → Nat → Double) (r : PacketReplay) (data : List UInt8) :
    r.processReplayedPacket draws data ≠ .error .outOfTurns ∧
      ((∃ r', r.processReplayedPacket draws data = .ok r') ↔
        ∀ offset, MessageStart data offset → offset + 8 ≤ data.length →
          MessageFits data offset) := by
  unfold processReplayedPacket
  split
  next hshort =>
    refine ⟨by simp, iff_of_true ⟨r, rfl⟩ ?_⟩
    intro offset hstart hroom
    have hend := not_messageStart_of_short hshort hstart
    omega
  next =>
    have hturns := replayTurns_ne_outOfTurns data
    refine ⟨?_, exists_map_eq_ok_iff.trans (replayTurns_ok_iff data)⟩
    cases hwalk : replayTurns data with
    | error e =>
        rw [hwalk] at hturns
        simpa [Except.map] using hturns
    | ok turns => simp [Except.map]

/-- A packet that ends with the header of a book message. -/
def headerOnly : List UInt8 :=
  List.replicate 12 0 ++ [9, 0, 46, 0, 1, 0, 9, 0]

/-- The decoder reads the root of a message of which there is a header only. -/
theorem not_replay_safe_of_headerOnly :
    ¬∀ (draws : Nat → Nat → Double) (r : PacketReplay) (data : List UInt8),
      ∃ r', r.processReplayedPacket draws data = .ok r' := by
  intro hsafe
  obtain ⟨r', hreplay⟩ := hsafe (fun _ _ => .finite 0) {} headerOnly
  have houtside : replayTurns headerOnly = .error .outOfBounds := by decide
  rw [processReplayedPacket, if_neg (by decide), houtside] at hreplay
  contradiction

end PacketReplay

end SimCme
