import SimCme.MarketData.ChannelFeeds
import SimCme.MarketData.PacketAlignment
import Mathlib.Data.List.Induction
import Mathlib.Data.List.Nodup
import Mathlib.Algebra.Order.Ring.Nat

/-!
# The listener on a feed that loses packets

A feed is sent as datagrams: a packet header and the messages of the packet.  The network may
lose any of them, and delivers the others in order.  The listener walks every datagram, shows
its messages, and counts the numbers that are missing between two packets.

It begins with the first packet it receives, and cannot know of packets before it or behind
the last one.

Main results:

- Theorem {lit}`Stats.processPacket_datagram`: the listener shows the messages of a packet.
- Theorem {lit}`Stats.Heard.concat`: a later packet adds the numbers between it and the last
  one.
- Theorem {lit}`listener_follows_feed`: on every feed of a channel, whatever is lost, the
  listener shows the messages of the packets it receives and counts the packets it misses.
-/

open Library

namespace SimCme

/-! ## Datagrams -/

/-- The datagram of a packet: {lit}`UdpMulticastSender::send`. -/
def FeedPacket.datagram (packet : FeedPacket) (sendingTime : UInt64) : List UInt8 :=
  PacketHeader.layout.block { msgSeqNum := packet.msgSeqNum, sendingTime := sendingTime } ++
    packet.payload

/-- The payload is the bytes of messages. -/
structure FeedPacket.Encodes (packet : FeedPacket) (msgs : List Mdp3Message) : Prop where
  payload_eq : packet.payload = msgs.flatMap Mdp3Message.toBytes
  counted : ∀ msg ∈ msgs, msg.Counted

/-- The messages that a receiver finds in the payload. -/
def FeedPacket.messages (packet : FeedPacket) : List Mdp3Message :=
  (Mdp3Message.walk packet.payload).getD []

theorem FeedPacket.Encodes.messages_eq {packet : FeedPacket} {msgs : List Mdp3Message}
    (hencodes : packet.Encodes msgs) : packet.messages = msgs := by
  rw [messages, hencodes.payload_eq, Mdp3Message.walk_toBytes msgs hencodes.counted]
  rfl

namespace Mdp3Listener

/-- The listener shows a message that has a codec, and goes on behind its bytes. -/
theorem listenVisit_of_codec {σ : Type} {f : GroupedFormat σ} {blank : σ}
    {wrap : σ → Mdp3Message}
    (hfind : Mdp3Message.codecs.find? (·.templateId == f.templateId) = some (f.codec blank wrap))
    (m : σ) (hcounted : ∀ g ∈ f.groups, (g.get m).length ≤ 255)
    (hsize : ∀ m, msgSize f.header.blockLength (some (wrap m)) = f.encodedLength m)
    (front back : List UInt8) :
    listenVisit (front ++ f.toBytes m ++ back) front.length =
      some (some (wrap m), (f.toBytes m).length) := by
  have htemplate := f.decodeTemplateId_append m front back
  have hdecode := f.decode_append m blank hcounted front back
  have hlength : MessageHeader.decodeBlockLength (front ++ f.toBytes m ++ back) front.length =
      some f.header.blockLength := by
    have hread := MessageHeader.decodeBlockLength_append f.header front
      (f.fields.flatMap (·.bytes m) ++ f.groups.flatMap (·.bytes m) ++ back)
    simpa [f.toBytes_eq] using hread
  rw [ExtendedMessage.listenVisit_eq hfind hsize htemplate hlength, hdecode, Option.map_some,
    f.length_toBytes]

/-- The listener shows a message wherever its bytes lie. -/
theorem listenVisit_toBytes (msg : Mdp3Message) (hcounted : msg.Counted)
    (front back : List UInt8) :
    listenVisit (front ++ msg.toBytes ++ back) front.length =
      some (some msg, msg.toBytes.length) := by
  cases msg with
  | channelReset msg =>
      refine listenVisit_of_codec (f := ChannelReset4.format) rfl msg ?_ (fun _ => rfl) front back
      exact List.forall_mem_singleton.mpr hcounted
  | adminHeartbeat msg =>
      refine listenVisit_of_codec (f := AdminHeartbeat12.format) rfl msg ?_ (fun _ => rfl) front back
      exact List.forall_mem_nil _
  | securityStatus msg =>
      refine listenVisit_of_codec (f := SecurityStatus30.format) rfl msg ?_ (fun _ => rfl) front back
      exact List.forall_mem_nil _
  | book msg =>
      refine listenVisit_of_codec (f := MDIncrementalRefreshBook46.format) rfl msg ?_
        (fun _ => rfl) front back
      exact List.forall_mem_singleton.mpr hcounted
  | tradeSummary msg =>
      refine listenVisit_of_codec (f := MDIncrementalRefreshTradeSummary48.format) rfl msg ?_
        (fun _ => rfl) front back
      exact List.forall_mem_cons.mpr ⟨hcounted.1, List.forall_mem_singleton.mpr hcounted.2⟩
  | snapshot msg =>
      refine listenVisit_of_codec (f := SnapshotFullRefresh52.format) rfl msg ?_ (fun _ => rfl) front back
      exact List.forall_mem_singleton.mpr hcounted
  | instrumentDefinition msg =>
      refine listenVisit_of_codec (f := MDInstrumentDefinitionFuture54.format) rfl msg ?_
        (fun _ => rfl) front back
      exact List.forall_mem_nil _

/-- The listener shows the messages behind a packet header. -/
theorem listenTurns_messages (header : PacketHeader) {msgs : List Mdp3Message}
    (hcounted : ∀ msg ∈ msgs, msg.Counted) :
    ∃ turns, listenTurns (PacketHeader.layout.block header ++ msgs.flatMap Mdp3Message.toBytes) =
      .ok turns ∧ turns.map (·.item) = msgs.map some := by
  let ms : List { msg : Mdp3Message // msg.Counted } := msgs.attachWith _ hcounted
  have hms : ms.map Subtype.val = msgs :=
    List.attachWith_map_subtype_val hcounted
  have hbytes : ∀ msg : { msg : Mdp3Message // msg.Counted },
      MessageHeader.layout.size ≤ msg.1.toBytes.length := by
    intro msg
    rw [Mdp3Message.length_toBytes]
    cases msg.1 <;> exact Nat.le_add_right_of_le (Nat.le_add_right _ _)
  have hvisit : ∀ (msg : { msg : Mdp3Message // msg.Counted }) front back,
      listenVisit (front ++ msg.1.toBytes ++ back) front.length =
        some (some msg.1, msg.1.toBytes.length) ↔ True := fun msg front back =>
    iff_of_true (listenVisit_toBytes msg.1 msg.2 front back) trivial
  have hwalk := (walk_append_iff (by decide) hbytes hvisit (PacketHeader.layout.block header) ms
    rfl).mpr fun _ _ => trivial
  rw [Layout.length_block, ← List.flatMap_map, hms] at hwalk
  refine ⟨_, hwalk, ?_⟩
  rw [map_item_turnsFrom, ← hms, List.map_map]
  rfl

end Mdp3Listener

/-! ## One packet -/

namespace Stats

open Mdp3Listener

/-- What a packet with a number of messages counts. -/
def count (stats : Stats) (packet : FeedPacket) : Stats :=
  { stats.countPacket packet.msgSeqNum with
    messagesDecoded := stats.messagesDecoded + .ofNat packet.messages.length }

/-- The listener counts a packet and shows its messages. -/
theorem processPacket_datagram (stats : Stats) {packet : FeedPacket} {msgs : List Mdp3Message}
    (hencodes : packet.Encodes msgs) (sendingTime : UInt64) :
    ∃ turns, stats.processPacket (packet.datagram sendingTime) =
      .ok (stats.count packet, turns) ∧ turns.map (·.item) = packet.messages.map some := by
  obtain ⟨turns, hturns, hshown⟩ := listenTurns_messages
    { msgSeqNum := packet.msgSeqNum, sendingTime := sendingTime } hencodes.counted
  have hdatagram : packet.datagram sendingTime =
      PacketHeader.layout.block { msgSeqNum := packet.msgSeqNum, sendingTime := sendingTime } ++
        msgs.flatMap Mdp3Message.toBytes := by
    rw [FeedPacket.datagram, hencodes.payload_eq]
  have hheader := PacketHeader.layout.decode_block
    { msgSeqNum := packet.msgSeqNum, sendingTime := sendingTime } {} []
    (msgs.flatMap Mdp3Message.toBytes)
  have hlong : ¬(packet.datagram sendingTime).length < PacketHeader.layout.size := by
    rw [hdatagram, List.length_append, Layout.length_block]
    exact Nat.not_lt.mpr (Nat.le_add_right _ _)
  have hcount : turns.length = msgs.length := by
    simpa using congrArg List.length hshown
  refine ⟨turns, ?_, by rw [hencodes.messages_eq, hshown]⟩
  rw [List.nil_append, List.length_nil, ← hdatagram] at hheader
  rw [← hdatagram] at hturns
  unfold processPacket
  rw [if_neg hlong, hheader, hturns, count, hencodes.messages_eq, ← hcount]
  rfl

/-- The loop over the datagrams that arrive, with the messages it shows. -/
def listen (stats : Stats) : List (List UInt8) →
    Except WalkError (Stats × List (Option Mdp3Message))
  | [] => .ok (stats, [])
  | data :: rest => do
      let (stats, turns) ← stats.processPacket data
      let (stats, shown) ← listen stats rest
      return (stats, turns.map (·.item) ++ shown)

/-- The listener shows the messages of all packets that arrive. -/
theorem listen_datagrams (stats : Stats) {arrived : List (FeedPacket × UInt64)}
    (hencodes : ∀ a ∈ arrived, ∃ msgs, a.1.Encodes msgs) :
    stats.listen (arrived.map fun a => a.1.datagram a.2) =
      .ok ((arrived.map Prod.fst).foldl count stats,
        (arrived.flatMap fun a => a.1.messages).map some) := by
  induction arrived generalizing stats with
  | nil => rfl
  | cons a arrived ih =>
      rw [List.forall_mem_cons] at hencodes
      rcases hencodes with ⟨⟨msgs, hfirst⟩, hrest⟩
      rcases stats.processPacket_datagram hfirst a.2 with ⟨turns, hprocess, hshown⟩
      have hlater := ih (stats.count a.1) hrest
      simp only [List.map_cons, listen, hprocess, hlater, List.foldl_cons, List.flatMap_cons,
        List.map_append, hshown, bind, Except.bind, pure, Except.pure]

theorem messagesDecoded_foldl_count (stats : Stats) (packets : List FeedPacket) :
    (packets.foldl count stats).messagesDecoded =
      stats.messagesDecoded + .ofNat (packets.flatMap FeedPacket.messages).length := by
  induction packets generalizing stats with
  | nil => exact (UInt64.add_zero _).symm
  | cons packet packets ih =>
      rw [List.foldl_cons, ih, List.flatMap_cons, List.length_append, UInt64.ofNat_add,
        ← UInt64.add_assoc]
      rfl

/-! ## Numbers that are missing -/

/-- What the listener has counted after packets with ascending numbers. -/
structure Heard (stats : Stats) (ns : List Nat) : Prop where
  received : stats.packetsReceived = .ofNat ns.length
  silent : ns = [] → stats.lastSeqNum = 0 ∧ stats.gaps = 0
  last : ∀ n ∈ ns.getLast?, stats.lastSeqNum.toNat = n
  gaps : ∀ n ∈ ns.head?, stats.gaps.toNat + ns.length + n = stats.lastSeqNum.toNat + 1

theorem heard_nil : Heard {} [] where
  received := rfl
  silent _ := ⟨rfl, rfl⟩
  last := by simp
  gaps := by simp

/-- The numbers between the last packet and a later one. -/
theorem toNat_missing {last seqNum : UInt32} (hpos : 0 < last.toNat)
    (hlater : last.toNat < seqNum.toNat) :
    (if 0 < last ∧ seqNum ≠ last + 1 then seqNum - last - 1 else 0).toNat =
      seqNum.toNat - last.toNat - 1 := by
  have hbound := seqNum.toNat_lt
  have hnext : (last + 1).toNat = last.toNat + 1 := by
    rw [UInt32.toNat_add, UInt32.toNat_one]
    omega
  have hlast : 0 < last := by
    rw [UInt32.lt_iff_toNat_lt]
    exact hpos
  by_cases hsame : seqNum = last + 1
  · rw [if_neg fun h => h.2 hsame, hsame, hnext]
    simp
  · have hne : seqNum.toNat ≠ last.toNat + 1 := by
      rw [← hnext]
      exact fun h => hsame (UInt32.toNat_inj.mp h)
    have hdiff : (seqNum - last).toNat = seqNum.toNat - last.toNat :=
      UInt32.toNat_sub_of_le _ _ (UInt32.le_iff_toNat_le.mpr hlater.le)
    have hone : (1 : UInt32) ≤ seqNum - last := by
      rw [UInt32.le_iff_toNat_le, hdiff, UInt32.toNat_one]
      omega
    rw [if_pos ⟨hlast, hsame⟩, UInt32.toNat_sub_of_le _ _ hone, hdiff, UInt32.toNat_one]

/-- A later packet adds the numbers between it and the last one. -/
theorem Heard.concat {stats : Stats} {ns : List Nat} (hheard : Heard stats ns)
    (hpos : ∀ n ∈ ns, 0 < n) {seqNum : UInt32} (hlater : ∀ n ∈ ns, n < seqNum.toNat) :
    Heard (stats.countPacket seqNum) (ns ++ [seqNum.toNat]) where
  received := by
    rw [countPacket, hheard.received, List.length_append, UInt64.ofNat_add]
    rfl
  silent := by simp
  last := by simp [countPacket]
  gaps := by
    intro first hfirst
    cases hlast : ns.getLast? with
    | none =>
        rw [List.getLast?_eq_none_iff] at hlast
        subst hlast
        rcases hheard.silent rfl with ⟨hzero, hnone⟩
        simp at hfirst
        simp [countPacket, hzero, hnone, hfirst]
        omega
    | some n =>
        have hmem : n ∈ ns := List.mem_of_getLast? hlast
        have hold := hheard.last n hlast
        have hn := hpos n hmem
        have hlt := hlater n hmem
        have hfirst' : first ∈ ns.head? := by
          rwa [List.head?_append_of_ne_nil _ (List.ne_nil_of_mem hmem)] at hfirst
        have hgaps := hheard.gaps first hfirst'
        have hbound := seqNum.toNat_lt
        have hmissing : (if 0 < stats.lastSeqNum ∧ seqNum ≠ stats.lastSeqNum + 1 then
            seqNum - stats.lastSeqNum - 1 else 0).toNat = seqNum.toNat - n - 1 :=
          (toNat_missing (by omega) (by omega)).trans (by rw [hold])
        simp only [countPacket, UInt64.toNat_add, UInt32.toNat_toUInt64, hmissing,
          List.length_append, List.length_singleton]
        omega

/-- Packets in the order of their numbers. -/
theorem heard_foldl_count {packets : List FeedPacket}
    (hpos : ∀ packet ∈ packets, 0 < packet.msgSeqNum.toNat)
    (hascends : (packets.map (·.msgSeqNum.toNat)).Pairwise (· < ·)) :
    Heard (packets.foldl count {}) (packets.map (·.msgSeqNum.toNat)) := by
  induction packets using List.reverseRecOn with
  | nil => exact heard_nil
  | append_singleton packets packet ih =>
      rw [List.map_append, List.pairwise_append] at hascends
      rw [List.forall_mem_append] at hpos
      rcases hascends with ⟨hearlier, -, hlater⟩
      have hheard := ih hpos.1 hearlier
      have hnext := hheard.concat
        (fun n hn => by
          rcases List.mem_map.mp hn with ⟨earlier, hearlier, rfl⟩
          exact hpos.1 earlier hearlier)
        (fun n hn => hlater n hn packet.msgSeqNum.toNat (by simp))
      rw [List.foldl_append, List.map_append]
      exact ⟨hnext.received, hnext.silent, hnext.last, hnext.gaps⟩

end Stats

/-! ## Packets that are lost -/

section Lost

variable {α : Type} [DecidableEq α] {num : α → Nat} {sent received : List α}

/-- What is sent between two packets that arrive, and does not arrive. -/
def lostBetween (num : α → Nat) (sent received : List α) : List α :=
  sent.filter fun p =>
    p ∉ received ∧ (∃ a ∈ received, num a < num p) ∧ ∃ b ∈ received, num p < num b

/-- How many of the numbers from one on lie between two of them. -/
theorem countP_range'_between {first : Nat} (hfirst : 0 < first) (last count : Nat) :
    (List.range' 1 count).countP (fun n => first ≤ n ∧ n ≤ last) = min last count + 1 - first := by
  induction count with
  | zero =>
      rw [List.range'_zero, List.countP_nil]
      omega
  | succ count ih =>
      rw [List.range'_1_concat, List.countP_append, List.countP_singleton, ih]
      simp only [decide_eq_true_eq]
      split
      · omega
      · omega

theorem le_of_mem_head? {ns : List Nat} (hascends : ns.Pairwise (· < ·)) {first : Nat}
    (hfirst : first ∈ ns.head?) {n : Nat} (hn : n ∈ ns) : first ≤ n := by
  cases ns with
  | nil => simp at hn
  | cons m ns =>
      rw [List.head?_cons, Option.mem_some_iff] at hfirst
      subst hfirst
      rcases List.mem_cons.mp hn with rfl | hn
      · exact le_rfl
      · exact (List.rel_of_pairwise_cons hascends hn).le

theorem le_of_mem_getLast? {ns : List Nat} (hascends : ns.Pairwise (· < ·)) {last : Nat}
    (hlast : last ∈ ns.getLast?) {n : Nat} (hn : n ∈ ns) : n ≤ last := by
  obtain ⟨front, rfl⟩ := List.getLast?_eq_some_iff.mp hlast
  rw [List.pairwise_append] at hascends
  rcases List.mem_append.mp hn with hn | hn
  · exact (hascends.2.2 n hn last List.mem_cons_self).le
  · exact (List.mem_singleton.mp hn).le

/-- What is sent from the first packet that arrives to the last one arrives or is lost. -/
theorem between_perm (hnumbers : (sent.map num).Nodup)
    (hascends : (received.map num).Pairwise (· < ·)) (hreceived : received.Sublist sent)
    {first last : Nat} (hfirst : first ∈ (received.map num).head?)
    (hlast : last ∈ (received.map num).getLast?) :
    (sent.filter fun p => first ≤ num p ∧ num p ≤ last).Perm
      (lostBetween num sent received ++ received) := by
  have hsent : sent.Nodup := hnumbers.of_map num
  have hdisjoint : (lostBetween num sent received).Disjoint received := by
    intro p hlost
    have hlost := List.of_mem_filter hlost
    simp only [decide_eq_true_eq] at hlost
    exact hlost.1
  have hnodup : (lostBetween num sent received ++ received).Nodup :=
    (hsent.filter _).append (hreceived.nodup hsent) hdisjoint
  rw [List.perm_ext_iff_of_nodup (hsent.filter _) hnodup]
  intro p
  simp only [List.mem_append, lostBetween, List.mem_filter, decide_eq_true_eq]
  constructor
  · rintro ⟨hp, hle, hge⟩
    by_cases hmem : p ∈ received
    · exact .inr hmem
    · -- Numbers are different, so the first and the last packet are others.
      have hother : ∀ a ∈ received, num a ≠ num p := fun a ha hsame =>
        hmem (List.inj_on_of_nodup_map hnumbers (hreceived.subset ha) hp hsame ▸ ha)
      obtain ⟨a, ha, rfl⟩ := List.mem_map.mp (List.mem_of_mem_head? hfirst)
      obtain ⟨b, hb, rfl⟩ := List.mem_map.mp (List.mem_of_getLast? hlast)
      exact .inl ⟨hp, hmem, ⟨a, ha, lt_of_le_of_ne hle (hother a ha)⟩,
        ⟨b, hb, lt_of_le_of_ne hge (hother b hb).symm⟩⟩
  · rintro (⟨hp, -, ⟨a, ha, hlt⟩, b, hb, hgt⟩ | hmem)
    · have hle := le_of_mem_head? hascends hfirst (List.mem_map_of_mem ha)
      have hge := le_of_mem_getLast? hascends hlast (List.mem_map_of_mem hb)
      exact ⟨hp, hle.trans hlt.le, hgt.le.trans hge⟩
    · exact ⟨hreceived.subset hmem, le_of_mem_head? hascends hfirst (List.mem_map_of_mem hmem),
        le_of_mem_getLast? hascends hlast (List.mem_map_of_mem hmem)⟩

/-- With numbers from one on, the lost packets are the numbers that are missing. -/
theorem length_lostBetween (hnumbers : sent.map num = List.range' 1 sent.length)
    (hreceived : received.Sublist sent) {first last : Nat}
    (hfirst : first ∈ (received.map num).head?) (hlast : last ∈ (received.map num).getLast?) :
    (lostBetween num sent received).length + received.length + first = last + 1 := by
  have hsub : (received.map num).Sublist (List.range' 1 sent.length) := by
    rw [← hnumbers]
    exact hreceived.map num
  have hascends : (received.map num).Pairwise (· < ·) :=
    List.Pairwise.sublist hsub List.pairwise_lt_range'
  have hnodup : (sent.map num).Nodup := by
    rw [hnumbers]
    exact List.nodup_range'
  have hperm := (between_perm hnodup hascends hreceived hfirst hlast).length_eq
  have hfrom := List.mem_range'_1.mp (hsub.subset (List.mem_of_mem_head? hfirst))
  have hupto := List.mem_range'_1.mp (hsub.subset (List.mem_of_getLast? hlast))
  have hle := le_of_mem_head? hascends hfirst (List.mem_of_getLast? hlast)
  have hcount := countP_range'_between hfrom.1 last sent.length
  rw [← hnumbers, List.countP_map, List.countP_eq_length_filter] at hcount
  have hlengths := hperm.symm.trans hcount
  rw [List.length_append] at hlengths
  omega

end Lost

/-! ## What a channel sends -/

/-- Every packet of the feed encodes messages. -/
def FeedSender.Encodes (sender : FeedSender) : Prop :=
  ∀ packet ∈ sender.sent, ∃ msgs, packet.Encodes msgs

namespace FeedSender

theorem encodes_init : FeedSender.Encodes {} := by
  simp [Encodes]

variable {sender : FeedSender} {payload : List UInt8} {msgs : List Mdp3Message}

theorem Encodes.sendWithSeqNum (hsender : sender.Encodes) (seqNum : UInt32)
    (hpayload : payload = msgs.flatMap Mdp3Message.toBytes) (hcounted : ∀ msg ∈ msgs, msg.Counted) :
    (sender.sendWithSeqNum seqNum payload).Encodes := by
  intro packet hpacket
  rcases List.mem_append.mp hpacket with hpacket | hpacket
  · exact hsender packet hpacket
  · rw [List.mem_singleton] at hpacket
    subst hpacket
    exact ⟨msgs, hpayload, hcounted⟩

theorem Encodes.send (hsender : sender.Encodes)
    (hpayload : payload = msgs.flatMap Mdp3Message.toBytes) (hcounted : ∀ msg ∈ msgs, msg.Counted) :
    (sender.send payload).Encodes :=
  hsender.sendWithSeqNum sender.nextSeqNum hpayload hcounted

end FeedSender

namespace ChannelFeeds

/-- The numbers of entries of a call fit their bytes. -/
def Call.Counted : Call → Prop
  | .publishIncrementalUpdates events _ =>
      (bookUpdates events).length ≤ 255 ∧ 2 * (orderFills events).length ≤ 255
  | .runCycle provider _ _ =>
      ∀ i secId, (provider i secId).bids.length + (provider i secId).asks.length ≤ 255
  | .publishSecurityStatus .. => True
  | .replayInstrumentDefinitions _ => True

/-- All feeds of a channel. -/
def senders (feeds : ChannelFeeds) : List FeedSender :=
  [feeds.incrementalFeedA, feeds.incrementalFeedB, feeds.instdefFeedA, feeds.instdefFeedB] ++
    feeds.snapshotCycler.toList.flatMap fun cycler => [cycler.feedA, cycler.feedB]

/-- Every packet of every feed encodes messages. -/
structure Encodes (feeds : ChannelFeeds) : Prop where
  incrementalFeedA : feeds.incrementalFeedA.Encodes
  incrementalFeedB : feeds.incrementalFeedB.Encodes
  instdefFeedA : feeds.instdefFeedA.Encodes
  instdefFeedB : feeds.instdefFeedB.Encodes
  snapshots : ∀ cycler ∈ feeds.snapshotCycler, cycler.feedA.Encodes ∧ cycler.feedB.Encodes

variable {feeds : ChannelFeeds}

theorem Encodes.init (instruments : List SecurityId) : (ChannelFeeds.init instruments).Encodes :=
  ⟨FeedSender.encodes_init, FeedSender.encodes_init, FeedSender.encodes_init,
    FeedSender.encodes_init, by
      rintro cycler ⟨⟩
      exact ⟨FeedSender.encodes_init, FeedSender.encodes_init⟩⟩

theorem Encodes.mem_senders (hfeeds : feeds.Encodes) {sender : FeedSender}
    (hsender : sender ∈ feeds.senders) : sender.Encodes := by
  simp only [senders, List.mem_append, List.mem_cons, List.not_mem_nil, or_false,
    List.mem_flatMap, Option.mem_toList] at hsender
  rcases hsender with (rfl | rfl | rfl | rfl) | ⟨cycler, hcycler, rfl | rfl⟩
  · exact hfeeds.incrementalFeedA
  · exact hfeeds.incrementalFeedB
  · exact hfeeds.instdefFeedA
  · exact hfeeds.instdefFeedB
  · exact (hfeeds.snapshots cycler hcycler).1
  · exact (hfeeds.snapshots cycler hcycler).2

/-- A packet of messages on the incremental pair. -/
theorem Encodes.incrementalPacket (hfeeds : feeds.Encodes) {payload : List UInt8}
    {msgs : List Mdp3Message} (hpayload : payload = msgs.flatMap Mdp3Message.toBytes)
    (hcounted : ∀ msg ∈ msgs, msg.Counted) (seqNum : UInt32) (builder : IncrementalBuilder) :
    ChannelFeeds.Encodes
      { feeds with
        incrementalFeedA := feeds.incrementalFeedA.send payload
        incrementalFeedB := feeds.incrementalFeedB.sendWithSeqNum seqNum payload
        incrementalBuilder := builder
        snapshotCycler := feeds.snapshotCycler.map (·.setLastIncrementalSeqNum seqNum) } where
  incrementalFeedA := hfeeds.incrementalFeedA.send hpayload hcounted
  incrementalFeedB := hfeeds.incrementalFeedB.sendWithSeqNum seqNum hpayload hcounted
  instdefFeedA := hfeeds.instdefFeedA
  instdefFeedB := hfeeds.instdefFeedB
  snapshots := by
    intro cycler hcycler
    rcases Option.mem_map.mp hcycler with ⟨before, hbefore, rfl⟩
    exact hfeeds.snapshots before hbefore

theorem Encodes.publishIncrementalUpdates (hfeeds : feeds.Encodes) {events : List EngineEvent}
    {transactTime : Timestamp}
    (hcounted : Call.Counted (.publishIncrementalUpdates events transactTime)) :
    (feeds.apply (.publishIncrementalUpdates events transactTime)).Encodes := by
  have hmsgs := Mdp3Message.counted_of_walk
    (feeds.incrementalBuilder.walk_packet transactTime hcounted.1 hcounted.2)
  simp only [ChannelFeeds.apply, ChannelPublisher.publishIncrementalUpdates]
  split
  · exact hfeeds
  · split
    · exact ⟨hfeeds.incrementalFeedA, hfeeds.incrementalFeedB, hfeeds.instdefFeedA,
        hfeeds.instdefFeedB, hfeeds.snapshots⟩
    · exact hfeeds.incrementalPacket (feeds.incrementalBuilder.packet_eq events transactTime)
        hmsgs _ _

theorem Encodes.publishSecurityStatus (hfeeds : feeds.Encodes) (securityId : SecurityId)
    (status : SecurityTradingStatus) (transactTime : Timestamp) :
    (feeds.apply (.publishSecurityStatus securityId status transactTime)).Encodes := by
  let msg : SecurityStatus30 :=
    { transactTime := .ofNat transactTime
      securityID := .ofInt securityId
      securityTradingStatus := status.code
      matchEventIndicator := MatchEventIndicator.endOfEvent }
  have hpayload : SecurityStatus30.format.toBytes msg =
      [Mdp3Message.securityStatus msg].flatMap Mdp3Message.toBytes := by
    rw [List.flatMap_singleton]
    rfl
  exact hfeeds.incrementalPacket hpayload (List.forall_mem_singleton.mpr trivial) _
    feeds.incrementalBuilder

/-- The definitions that are built encode messages. -/
theorem Encodes.replayLoop (tot : UInt32) (instruments : List DefinedInstrument)
    (hfeeds : feeds.Encodes) : (ChannelFeeds.replayLoop tot feeds instruments).Encodes := by
  induction instruments generalizing feeds with
  | nil => exact hfeeds
  | cons inst rest ih =>
      simp only [ChannelFeeds.replayLoop]
      split
      · exact hfeeds
      · rename_i payload hbuilt
        rcases Option.map_eq_some_iff.mp hbuilt with ⟨msg, -, rfl⟩
        have hpayload : MDInstrumentDefinitionFuture54.format.toBytes msg =
            [Mdp3Message.instrumentDefinition msg].flatMap Mdp3Message.toBytes := by
          rw [List.flatMap_singleton]
          rfl
        have hcounted : ∀ msg' ∈ [Mdp3Message.instrumentDefinition msg], msg'.Counted :=
          List.forall_mem_singleton.mpr trivial
        split
        · exact ih hfeeds
        · exact ih ⟨hfeeds.incrementalFeedA, hfeeds.incrementalFeedB,
            hfeeds.instdefFeedA.send hpayload hcounted,
            hfeeds.instdefFeedB.send hpayload hcounted, hfeeds.snapshots⟩

/-- The message of a snapshot counts the levels of both sides. -/
theorem counted_snapshot {lists : BookLists}
    (hcounted : lists.bids.length + lists.asks.length ≤ 255) (securityId : SecurityId)
    (lastMsgSeqNumProcessed totNumReports rptSeq : UInt32) (transactTime : Timestamp) :
    (Mdp3Message.snapshot (SnapshotBuilder.snapshot securityId lastMsgSeqNumProcessed
      totNumReports lists.bids lists.asks lists.bidCounts lists.askCounts rptSeq
      transactTime)).Counted := by
  simpa [Mdp3Message.Counted, SnapshotBuilder.snapshot, SnapshotBuilder.levelEntries] using hcounted

/-- The snapshots of a cycle encode messages. -/
theorem encodes_providedTurns (lastIncrementalSeqNum : UInt32)
    {turns : List (SecurityId × BookLists × Timestamp)}
    (hcounted : ∀ turn ∈ turns, turn.2.1.bids.length + turn.2.1.asks.length ≤ 255)
    {cycler : SnapshotCycler} (hfeedA : cycler.feedA.Encodes) (hfeedB : cycler.feedB.Encodes) :
    let cycler' := ((SnapshotCycler.providedTurns lastIncrementalSeqNum).run cycler turns).1
    cycler'.feedA.Encodes ∧ cycler'.feedB.Encodes := by
  induction turns generalizing cycler with
  | nil => exact ⟨hfeedA, hfeedB⟩
  | cons turn turns ih =>
      rcases List.forall_mem_cons.mp hcounted with ⟨hturn, hturns⟩
      simp only [Machine.run, SnapshotCycler.providedTurns]
      split
      · exact ih hturns hfeedA hfeedB
      · have hcounted : ∀ msg ∈ [Mdp3Message.snapshot _], msg.Counted :=
          List.forall_mem_singleton.mpr (counted_snapshot hturn turn.1 lastIncrementalSeqNum
            (.ofNat cycler.instruments.length) (cycler.cycleCount + 1) turn.2.2)
        have hpayload := (List.flatMap_singleton Mdp3Message.toBytes
          (.snapshot (SnapshotBuilder.snapshot turn.1 lastIncrementalSeqNum
            (.ofNat cycler.instruments.length) turn.2.1.bids turn.2.1.asks turn.2.1.bidCounts
            turn.2.1.askCounts (cycler.cycleCount + 1) turn.2.2))).symm
        exact ih hturns (hfeedA.send hpayload hcounted) (hfeedB.send hpayload hcounted)

theorem Encodes.apply (hfeeds : feeds.Encodes) {call : Call} (hcounted : call.Counted) :
    (feeds.apply call).Encodes := by
  cases call with
  | publishIncrementalUpdates events transactTime =>
      exact hfeeds.publishIncrementalUpdates hcounted
  | publishSecurityStatus securityId status transactTime =>
      exact hfeeds.publishSecurityStatus securityId status transactTime
  | replayInstrumentDefinitions instruments => exact hfeeds.replayLoop _ instruments
  | runCycle provider lastIncrementalSeqNum clock =>
      refine ⟨hfeeds.incrementalFeedA, hfeeds.incrementalFeedB, hfeeds.instdefFeedA,
        hfeeds.instdefFeedB, ?_⟩
      intro cycler hcycler
      rcases Option.mem_map.mp hcycler with ⟨before, hbefore, rfl⟩
      rcases hfeeds.snapshots before hbefore with ⟨hfeedA, hfeedB⟩
      refine encodes_providedTurns lastIncrementalSeqNum ?_ hfeedA hfeedB
      intro turn hturn
      rcases List.mem_mapIdx.mp hturn with ⟨i, hi, rfl⟩
      exact hcounted i _

theorem Encodes.foldl {calls : List Call} (hcounted : ∀ call ∈ calls, call.Counted)
    (hfeeds : feeds.Encodes) : (calls.foldl ChannelFeeds.apply feeds).Encodes := by
  induction calls generalizing feeds with
  | nil => exact hfeeds
  | cons call calls ih =>
      rcases List.forall_mem_cons.mp hcounted with ⟨hcall, hcalls⟩
      exact ih hcalls (hfeeds.apply hcall)

/-- The packets of a feed have the numbers from one on. -/
theorem InStep.numbers_of_mem_senders {cycler : SnapshotCycler} (hfeeds : InStep feeds cycler)
    {sender : FeedSender} (hsender : sender ∈ feeds.senders)
    (hfew : sender.sent.length < 2 ^ 32) :
    sender.sent.map (·.msgSeqNum.toNat) = List.range' 1 sender.sent.length := by
  have hpair : ∃ a b, FeedPair a b ∧ sender.sent = a.sent := by
    simp only [senders, hfeeds.cycler_eq, Option.toList_some, List.flatMap_singleton,
      List.mem_append, List.mem_cons, List.not_mem_nil, or_false] at hsender
    rcases hsender with (rfl | rfl | rfl | rfl) | rfl | rfl
    · exact ⟨_, _, hfeeds.incremental, rfl⟩
    · exact ⟨_, _, hfeeds.incremental, hfeeds.incremental.sent_eq⟩
    · exact ⟨_, _, hfeeds.instdef, rfl⟩
    · exact ⟨_, _, hfeeds.instdef, hfeeds.instdef.sent_eq⟩
    · exact ⟨_, _, hfeeds.snapshot, rfl⟩
    · exact ⟨_, _, hfeeds.snapshot, hfeeds.snapshot.sent_eq⟩
  rcases hpair with ⟨a, b, hpair, hsent⟩
  rw [hsent] at hfew ⊢
  exact hpair.numbers_eq hfew

end ChannelFeeds

/-! ## The listener and the channel -/

/-- What the listener makes of a feed of which it receives a part. -/
structure Listened (sent received : List FeedPacket) (stats : Stats)
    (shown : List (Option Mdp3Message)) : Prop where
  encodes : ∀ packet ∈ sent, packet.Encodes packet.messages
  shown_eq : shown = (received.flatMap FeedPacket.messages).map some
  received_eq : stats.packetsReceived = .ofNat received.length
  decoded_eq : stats.messagesDecoded = .ofNat shown.length
  gaps_eq : stats.gaps.toNat = (lostBetween (·.msgSeqNum.toNat) sent received).length

/-- The counts of packets that arrive from a feed with numbers from one on. -/
theorem Stats.gaps_foldl_count {sent received : List FeedPacket}
    (hnumbers : sent.map (·.msgSeqNum.toNat) = List.range' 1 sent.length)
    (hreceived : received.Sublist sent) :
    (received.foldl count {}).packetsReceived = .ofNat received.length ∧
      (received.foldl count {}).gaps.toNat =
        (lostBetween (·.msgSeqNum.toNat) sent received).length := by
  have hsub : (received.map (·.msgSeqNum.toNat)).Sublist (List.range' 1 sent.length) := by
    rw [← hnumbers]
    exact hreceived.map _
  have hpos : ∀ packet ∈ received, 0 < packet.msgSeqNum.toNat := fun packet hpacket =>
    (List.mem_range'_1.mp (hsub.subset (List.mem_map_of_mem hpacket))).1
  have hheard := heard_foldl_count hpos (List.Pairwise.sublist hsub List.pairwise_lt_range')
  refine ⟨by simpa using hheard.received, ?_⟩
  cases received with
  | nil => simp [lostBetween]
  | cons packet rest =>
      have hne : (packet :: rest).map (·.msgSeqNum.toNat) ≠ [] := List.cons_ne_nil _ _
      have hlast := hheard.last _ (List.getLast?_eq_some_getLast hne)
      have hgaps := hheard.gaps _ rfl
      have hlost := length_lostBetween hnumbers hreceived rfl (List.getLast?_eq_some_getLast hne)
      rw [List.length_map] at hgaps
      omega

/-- On every feed of a channel, after every sequence of calls whose messages a byte can count
and fewer than {lit}`2^32` packets, and whatever the network loses: the listener shows the
messages of the packets that arrive, in order, and its gaps are the packets that were lost
between two that arrived. -/
theorem listener_follows_feed (instruments : List SecurityId) (calls : List ChannelFeeds.Call)
    (hcounted : ∀ call ∈ calls, call.Counted) :
    ∀ sender ∈ (calls.foldl ChannelFeeds.apply (.init instruments)).senders,
      sender.sent.length < 2 ^ 32 →
      ∀ arrived : List (FeedPacket × UInt64), (arrived.map Prod.fst).Sublist sender.sent →
        ∃ stats shown,
          Stats.listen {} (arrived.map fun a => a.1.datagram a.2) = .ok (stats, shown) ∧
            Listened sender.sent (arrived.map Prod.fst) stats shown := by
  intro sender hsender hfew arrived hreceived
  have hencodes := (ChannelFeeds.Encodes.foldl hcounted (.init instruments)).mem_senders hsender
  obtain ⟨cycler, hfeeds⟩ :=
    ChannelFeeds.InStep.foldl calls (ChannelFeeds.InStep.init instruments)
  have hnumbers := hfeeds.numbers_of_mem_senders hsender hfew
  have hlisten := Stats.listen_datagrams {} fun a ha =>
    hencodes a.1 (hreceived.subset (List.mem_map_of_mem ha))
  rcases Stats.gaps_foldl_count hnumbers hreceived with ⟨hpackets, hgaps⟩
  refine ⟨_, _, hlisten, ⟨?_, ?_, hpackets, ?_, hgaps⟩⟩
  · intro packet hpacket
    rcases hencodes packet hpacket with ⟨msgs, hmsgs⟩
    rw [hmsgs.messages_eq]
    exact hmsgs
  · rw [List.flatMap_map]
  · rw [Stats.messagesDecoded_foldl_count, List.flatMap_map, List.length_map]
    exact UInt64.zero_add _

/-- Three statuses go out, and the one in the middle is lost. -/
theorem listener_follows_feed_oneLost :
    let calls : List ChannelFeeds.Call :=
      [.publishSecurityStatus 7 .preOpen 1, .publishSecurityStatus 7 .open 2,
        .publishSecurityStatus 7 .halt 3]
    let sender := (calls.foldl ChannelFeeds.apply (.init [7])).incrementalFeedA
    let arrived := (sender.sent.eraseIdx 1).map fun packet => (packet, (5 : UInt64))
    ∃ stats shown,
      Stats.listen {} (arrived.map fun a => a.1.datagram a.2) = .ok (stats, shown) ∧
        Listened sender.sent (arrived.map Prod.fst) stats shown ∧ stats.gaps.toNat = 1 ∧
        shown.length = 2 := by
  intro calls sender arrived
  have hreceived : (arrived.map Prod.fst).Sublist sender.sent := by
    rw [List.map_map]
    exact (List.map_id _).symm ▸ List.eraseIdx_sublist _ _
  obtain ⟨stats, shown, hlisten, hlistened⟩ :=
    listener_follows_feed [7] calls (by simp [calls, ChannelFeeds.Call.Counted]) sender
      (by simp [ChannelFeeds.senders, sender]) (by decide +kernel) arrived hreceived
  refine ⟨stats, shown, hlisten, hlistened, ?_, ?_⟩
  · rw [hlistened.gaps_eq]
    decide +kernel
  · rw [hlistened.shown_eq]
    decide +kernel

end SimCme
