import SimCme.Sbe.Mdp3Messages
import SimCme.Library.BufferWalk

/-!
# The listener

The listener shows the messages of the packets of a feed and counts what it receives.  It
decodes the messages it knows, and goes on behind the groups of those that have any and
behind the root block of all others.

Main results:

- Theorem {lit}`Stats.processPacket_ne_outOfTurns`: every packet is processed to its end.
- Theorem {lit}`Stats.processPacket_of_listenTurns`: what a packet counts.
-/

open Library

namespace SimCme

structure PacketHeader where
  msgSeqNum : UInt32 := 0
  sendingTime : UInt64 := 0
deriving DecidableEq, Repr

def PacketHeader.layout : Layout PacketHeader where
  fields :=
    [ field 0 .uint32 (·.msgSeqNum) fun m v => { m with msgSeqNum := v }
    , field 4 .uint64 (·.sendingTime) fun m v => { m with sendingTime := v } ]
  size := 12
  tile := by decide
  restores := fun _ _ => rfl
  onto := fun _ => ⟨.mk .., rfl⟩

namespace Mdp3Listener

/-- What is shown of the message at a position.  Messages of unknown templates are named
only. -/
def decodeMessage (data : List UInt8) (offset : Nat) (templateId : UInt16) :
    Option (Option Mdp3Message) :=
  match Mdp3Message.codecs.find? (·.templateId == templateId) with
  | some codec => (codec.decode data offset).map some
  | none => some none

/-- How far the listener goes on behind a message.  It decodes the message once more for
that, at the same position. -/
def msgSize (blockLength : UInt16) : Option Mdp3Message → Nat
  | some (.book msg) => MDIncrementalRefreshBook46.format.encodedLength msg
  | some (.tradeSummary msg) => MDIncrementalRefreshTradeSummary48.format.encodedLength msg
  | some (.snapshot msg) => SnapshotFullRefresh52.format.encodedLength msg
  | some (.channelReset msg) => ChannelReset4.format.encodedLength msg
  | _ => MessageHeader.layout.size + blockLength.toNat

/-- One turn of the loop over the messages. -/
def listenVisit (data : List UInt8) (offset : Nat) : Option (Option Mdp3Message × Nat) := do
  let blockLength ← MessageHeader.decodeBlockLength data offset
  let templateId ← MessageHeader.decodeTemplateId data offset
  let shown ← decodeMessage data offset templateId
  return (shown, msgSize blockLength shown)

/-- The loop over the messages of a packet. -/
def listenTurns (data : List UInt8) : Except WalkError (List (Turn (Option Mdp3Message))) :=
  walk (listenVisit data) MessageHeader.layout.size data.length data.length
    PacketHeader.layout.size

theorem listenTurns_ne_outOfTurns (data : List UInt8) : listenTurns data ≠ .error .outOfTurns :=
  walk_ne_outOfTurns (by decide) (Nat.le_add_left _ _)

end Mdp3Listener

/-! ## Statistics -/

structure Stats where
  packetsReceived : UInt64 := 0
  messagesDecoded : UInt64 := 0
  gaps : UInt64 := 0
  lastSeqNum : UInt32 := 0
deriving DecidableEq, Repr

namespace Stats

open Mdp3Listener

/-- Note the number of a packet, and the numbers that are missing before it. -/
def countPacket (stats : Stats) (seqNum : UInt32) : Stats :=
  let missing :=
    if 0 < stats.lastSeqNum ∧ seqNum ≠ stats.lastSeqNum + 1 then seqNum - stats.lastSeqNum - 1
    else 0
  { stats with
    packetsReceived := stats.packetsReceived + 1
    gaps := stats.gaps + missing.toUInt64
    lastSeqNum := seqNum }

/-- Process a packet.  The messages that are shown come with the counts. -/
def processPacket (stats : Stats) (data : List UInt8) :
    Except WalkError (Stats × List (Turn (Option Mdp3Message))) := do
  if data.length < PacketHeader.layout.size then return (stats, [])
  let some header := PacketHeader.layout.decode {} data 0 | throw .outOfBounds
  let turns ← listenTurns data
  let stats := stats.countPacket header.msgSeqNum
  return ({ stats with messagesDecoded := stats.messagesDecoded + .ofNat turns.length }, turns)

/-- The header of a packet is read wherever there is room for it. -/
theorem exists_decode_header {data : List UInt8} (hroom : PacketHeader.layout.size ≤ data.length) :
    ∃ header, PacketHeader.layout.decode {} data 0 = some header := by
  rw [← Option.isSome_iff_exists, PacketHeader.layout.decode_isSome_iff (by decide)]
  omega

/-- A packet that is walked to its end is counted, with its messages. -/
theorem processPacket_of_listenTurns (stats : Stats) {data : List UInt8}
    (hroom : PacketHeader.layout.size ≤ data.length) :
    ∃ seqNum, stats.processPacket data = (listenTurns data).map fun turns =>
      ({ stats.countPacket seqNum with
          messagesDecoded := (stats.countPacket seqNum).messagesDecoded + .ofNat turns.length },
        turns) := by
  obtain ⟨header, hheader⟩ := exists_decode_header hroom
  refine ⟨header.msgSeqNum, ?_⟩
  unfold processPacket
  rw [if_neg (Nat.not_lt.mpr hroom), hheader]
  cases listenTurns data <;> rfl

/-- Every packet is processed to its end. -/
theorem processPacket_ne_outOfTurns (stats : Stats) (data : List UInt8) :
    stats.processPacket data ≠ .error .outOfTurns := by
  rcases Nat.lt_or_ge data.length PacketHeader.layout.size with hshort | hroom
  · unfold processPacket
    rw [if_pos hshort]
    simp [pure, Except.pure]
  · obtain ⟨seqNum, hprocess⟩ := stats.processPacket_of_listenTurns hroom
    have hturns := listenTurns_ne_outOfTurns data
    rw [hprocess]
    cases hwalk : listenTurns data with
    | error e =>
        rw [hwalk] at hturns
        simpa [Except.map] using hturns
    | ok turns => simp [Except.map]

end Stats

end SimCme
