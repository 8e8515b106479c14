import SimCme.Engine.PcapReader

/-!
# Payloads of a capture

A capture is a list of records of frames.  The reader goes by the length of a record and not by
the lengths in the headers, so it hands out padding with the payload; nor does it look whether
a packet is a fragment.

Main results:

- Theorem {lit}`PcapReader.readAll_of_unread`: the reader hands out what it extracts from the
  records, in their order.
- Theorem {lit}`PcapReader.readAll_iff`: it hands out the payloads of the datagrams exactly when
  nothing follows them in their frames and no fragment has room for the header of a datagram.
-/

open Library

namespace SimCme

/-! ## Choices -/

/-- A choice that keeps whatever another one keeps keeps no fewer elements. -/
theorem length_filterMap_le {α β : Type} {f g : α → Option β} {l : List α}
    (hkeep : ∀ a ∈ l, (g a).isSome → (f a).isSome) :
    (l.filterMap g).length ≤ (l.filterMap f).length := by
  induction l with
  | nil => exact Nat.le_refl _
  | cons a l ih =>
      obtain ⟨hfirst, hrest⟩ := List.forall_mem_cons.mp hkeep
      have hle := ih hrest
      rw [List.filterMap_cons, List.filterMap_cons]
      cases hg : g a with
      | none =>
          cases hf : f a with
          | none => exact hle
          | some b => exact Nat.le_succ_of_le hle
      | some c =>
          rw [hg] at hfirst
          obtain ⟨b, hf⟩ := Option.isSome_iff_exists.mp (hfirst rfl)
          rw [hf]
          exact Nat.succ_le_succ hle

/-- What two choices keep, of which the first keeps whatever the other one does, is the same
exactly when they agree on every element. -/
theorem filterMap_eq_filterMap_iff {α β : Type} {f g : α → Option β} {l : List α}
    (hkeep : ∀ a ∈ l, (g a).isSome → (f a).isSome) :
    l.filterMap f = l.filterMap g ↔ ∀ a ∈ l, f a = g a := by
  induction l with
  | nil => simp
  | cons a l ih =>
      obtain ⟨hfirst, hrest⟩ := List.forall_mem_cons.mp hkeep
      rw [List.forall_mem_cons, List.filterMap_cons, List.filterMap_cons]
      refine Iff.trans ?_ (and_congr Iff.rfl (ih hrest))
      cases hg : g a with
      | none =>
          cases hf : f a with
          | none => simp
          | some b =>
              have hle := length_filterMap_le hrest
              refine iff_of_false ?_ (by simp)
              intro heq
              have hcons := congrArg List.length heq
              simp only [List.length_cons] at hcons
              omega
      | some c =>
          rw [hg] at hfirst
          obtain ⟨b, hf⟩ := Option.isSome_iff_exists.mp (hfirst rfl)
          simp [hf]

namespace PcapReader

/-! ## Frames -/

/-- A word is read where its two bytes lie. -/
theorem readWord_append (front : List UInt8) (n : UInt16) (back : List UInt8) :
    readWord (front ++ beBytes n ++ back) front.length = some n.toNat := by
  have hhi : (front ++ beBytes n ++ back)[front.length]? = some (.ofNat (n.toNat / 256)) := by
    simp [beBytes]
  have hlo : (front ++ beBytes n ++ back)[front.length + 1]? = some (.ofNat n.toNat) := by
    rw [List.append_assoc, List.getElem?_append_right (by omega)]
    simp [beBytes]
  simp only [readWord, hhi, hlo, Option.bind_eq_bind, Option.bind_some, bigEndian_beBytes]
  rfl

/-- The headers behind that of Ethernet are looked for at its end, with or without a tag. -/
theorem stripHeaders_link (link : EthernetHeader) {etherType : UInt16}
    (hother : etherType ≠ vlanType) (body : List UInt8) :
    stripHeaders (link.bytes etherType ++ body) =
      stripIpHeaders (link.bytes etherType ++ body) link.length etherType.toNat := by
  have haddresses : (link.destination.toList ++ link.source.toList).length = 12 := by simp
  have hlength : (link.bytes etherType ++ body).length = link.length + body.length := by
    rw [List.length_append, EthernetHeader.length_bytes]
  have hvlan : vlanType.toNat = 0x8100 := rfl
  have hlen : ethernetHeaderLen = 14 := rfl
  cases htag : link.tag with
  | none =>
      have hlink : link.length = 14 := by
        simp [EthernetHeader.length, EthernetHeader.tagBytes, htag]
      have hword : readWord (link.bytes etherType ++ body) 12 = some etherType.toNat := by
        have hread := readWord_append (link.destination.toList ++ link.source.toList) etherType body
        rw [haddresses] at hread
        simpa [EthernetHeader.bytes, EthernetHeader.tagBytes, htag] using hread
      have hne : etherType.toNat ≠ 0x8100 := by
        rw [← hvlan]
        exact fun heq => hother (UInt16.toNat_inj.mp heq)
      rw [stripHeaders, if_neg (by omega), hword, hlink]
      simp [hne, hlen]
  | some control =>
      have hlink : link.length = 18 := by
        simp [EthernetHeader.length, EthernetHeader.tagBytes, htag]
      have hword : readWord (link.bytes etherType ++ body) 12 = some 0x8100 := by
        have hread := readWord_append (link.destination.toList ++ link.source.toList) vlanType
          (beBytes control ++ beBytes etherType ++ body)
        rw [haddresses, hvlan] at hread
        simpa [EthernetHeader.bytes, EthernetHeader.tagBytes, htag] using hread
      have hinner : readWord (link.bytes etherType ++ body) 16 = some etherType.toNat := by
        have hread := readWord_append (link.destination.toList ++ link.source.toList ++
          beBytes vlanType ++ beBytes control) etherType body
        rw [List.length_append, List.length_append, haddresses] at hread
        simpa [EthernetHeader.bytes, EthernetHeader.tagBytes, htag] using hread
      have hroom : ¬(link.bytes etherType ++ body).length < 18 := by omega
      rw [stripHeaders, if_neg (by omega), hword, hlink]
      simp only [Option.bind_eq_bind, Option.bind_some, if_true, hlen, if_neg hroom]
      rw [hinner]
      rfl

/-- The payload of a packet is looked for behind 8 bytes of its body and the padding. -/
theorem stripIpHeaders_packet (front : List UInt8) (packet : Ipv4Packet) (padding : List UInt8) :
    stripIpHeaders (front ++ packet.bytes ++ padding) front.length 0x0800 =
      some (if packet.protocol = udpProtocol ∧ 8 ≤ packet.body.length + padding.length then
          some (front.length + 4 * packet.headerWords + 8)
        else none) := by
  have hlength : (front ++ packet.bytes ++ padding).length =
      front.length + 4 * packet.headerWords + (packet.body.length + padding.length) := by
    simp only [List.length_append, Ipv4Packet.bytes, Ipv4Packet.length_headerBytes]
    omega
  have hwords : 5 ≤ packet.headerWords := Nat.le_add_right _ _
  have hfirst : (front ++ packet.bytes ++ padding)[front.length]? = some packet.first := by
    simp [Ipv4Packet.bytes, Ipv4Packet.headerBytes]
  have hprotocol : (front ++ packet.bytes ++ padding)[front.length + 9]? =
      some packet.protocol := by
    rw [List.append_assoc, List.getElem?_append_right (by omega)]
    have hlead := packet.length_lead
    simp [Ipv4Packet.bytes, Ipv4Packet.headerBytes, Ipv4Packet.lead, beBytes]
  obtain ⟨hversion, hihl⟩ := packet.first_halves
  have hipv4 : ¬((0x0800 : Nat) ≠ 0x0800) := by simp
  have hroom : ¬(front ++ packet.bytes ++ padding).length < front.length + 20 := by omega
  have hheader : ¬(packet.headerWords * 4 < 20 ∨
      front.length + 4 * packet.headerWords + (packet.body.length + padding.length) <
        front.length + packet.headerWords * 4) := by
    omega
  have hudp : udpHeaderLen = 8 := rfl
  rw [stripIpHeaders, if_neg hipv4, if_neg hroom]
  simp only [hfirst, hprotocol, Option.bind_eq_bind, Option.bind_some, hversion, hihl, hlength,
    hudp, if_neg hheader, ne_eq, not_true_eq_false, if_false]
  by_cases hprotocol_udp : packet.protocol = udpProtocol
  · by_cases hlong : 8 ≤ packet.body.length + padding.length
    · rw [if_neg (not_not_intro hprotocol_udp), if_neg (by omega),
        if_pos ⟨hprotocol_udp, hlong⟩, Nat.mul_comm packet.headerWords]
    · rw [if_neg (not_not_intro hprotocol_udp), if_pos (by omega),
        if_neg (fun hboth => hlong hboth.2)]
  · rw [if_pos hprotocol_udp, if_neg (fun hboth => hprotocol_udp hboth.1)]

/-! ## Extraction -/

/-- What is handed out of a frame with an IPv4 packet. -/
theorem extract_packet (isNanosecond : Bool) (header : PcapPacketHeader) (link : EthernetHeader)
    (packet : Ipv4Packet) (padding : List UInt8) :
    extract isNanosecond header (link.bytes ipv4Type ++ packet.bytes ++ padding) =
      if packet.protocol = udpProtocol ∧ 8 ≤ packet.body.length + padding.length then
        some
          { timestampUs := timestampUs isNanosecond header
            data := (packet.body ++ padding).drop 8 }
      else none := by
  have hother : ipv4Type ≠ vlanType := by decide
  have hstrip : stripHeaders (link.bytes ipv4Type ++ packet.bytes ++ padding) =
      some (if packet.protocol = udpProtocol ∧ 8 ≤ packet.body.length + padding.length then
          some (link.length + 4 * packet.headerWords + 8)
        else none) := by
    have hpacket := stripIpHeaders_packet (link.bytes ipv4Type) packet padding
    rw [EthernetHeader.length_bytes] at hpacket
    rw [List.append_assoc, stripHeaders_link link hother, ← List.append_assoc]
    exact hpacket
  have hdrop : (link.bytes ipv4Type ++ packet.bytes ++ padding).drop
      (link.length + 4 * packet.headerWords + 8) = (packet.body ++ padding).drop 8 := by
    have hfront : (link.bytes ipv4Type ++ packet.headerBytes).length =
        link.length + 4 * packet.headerWords := by
      rw [List.length_append, EthernetHeader.length_bytes, Ipv4Packet.length_headerBytes]
    have hshift : link.bytes ipv4Type ++ packet.bytes ++ padding =
        link.bytes ipv4Type ++ packet.headerBytes ++ (packet.body ++ padding) := by
      simp [Ipv4Packet.bytes]
    rw [hshift, ← hfront, ← List.drop_drop, List.drop_left]
  rw [extract, hstrip]
  split_ifs
  · exact congrArg (fun data => some (PcapPacket.mk (timestampUs isNanosecond header) data)) hdrop
  · rfl

/-- A frame of another type holds nothing. -/
theorem extract_other (isNanosecond : Bool) (header : PcapPacketHeader) (link : EthernetHeader)
    {etherType : UInt16} (hipv4 : etherType ≠ ipv4Type) (hvlan : etherType ≠ vlanType)
    (body : List UInt8) : extract isNanosecond header (link.bytes etherType ++ body) = none := by
  have hne : etherType.toNat ≠ 0x0800 := by
    have hword : ipv4Type.toNat = 0x0800 := rfl
    rw [← hword]
    exact fun heq => hipv4 (UInt16.toNat_inj.mp heq)
  rw [extract, stripHeaders_link link hvlan, stripIpHeaders, if_pos hne]

/-- Something is handed out of every frame that holds a datagram, and it is the payload
exactly if nothing follows. -/
theorem extract_frame (isNanosecond : Bool) (header : PcapPacketHeader) (frame : Frame) :
    (frame.payload.isSome → (extract isNanosecond header frame.bytes).isSome) ∧
      (extract isNanosecond header frame.bytes =
          frame.payload.map (PcapPacket.mk (timestampUs isNanosecond header)) ↔
        frame.Bare) := by
  cases frame with
  | other link etherType hother body =>
      have hnone : extract isNanosecond header (link.bytes etherType ++ body) = none :=
        extract_other isNanosecond header link hother.1 hother.2 body
      simp [Frame.payload, Frame.bytes, Frame.Bare, hnone]
  | nonUdp link packet hother padding =>
      have hnone : extract isNanosecond header (link.bytes ipv4Type ++ packet.bytes ++ padding) = none := by
        rw [extract_packet, if_neg (fun hboth => hother hboth.1)]
      simp only [Frame.payload, Frame.bytes, Frame.Bare, hnone]
      simp
  | fragment link packet hudp hfragment padding =>
      have hextract := extract_packet isNanosecond header link packet padding
      simp only [Frame.payload, Frame.bytes, Frame.Bare, hextract, hudp, true_and]
      simp
  | udp link packet datagram hudp hwhole hbody padding =>
      have hlong : 8 ≤ packet.body.length + padding.length := by
        rw [hbody, UdpDatagram.bytes, List.length_append, UdpDatagram.length_headerBytes]
        omega
      have hdrop : (packet.body ++ padding).drop 8 = datagram.payload ++ padding := by
        rw [hbody, UdpDatagram.bytes, ← datagram.length_headerBytes, List.append_assoc,
          List.drop_left]
      have hextract := extract_packet isNanosecond header link packet padding
      rw [if_pos ⟨hudp, hlong⟩, hdrop] at hextract
      simp only [Frame.payload, Frame.bytes, Frame.Bare, hextract, Option.map_some]
      simp

end PcapReader

/-! ## Capture files -/

/-- A record of a capture, complete in its file. -/
structure PcapRecord where
  tsSec : UInt32 := 0
  /-- Micro- or nanoseconds. -/
  tsFraction : UInt32 := 0
  origLen : UInt32 := 0
  frame : Frame
  length_lt : frame.bytes.length < 2 ^ 32

namespace PcapRecord

def header (record : PcapRecord) : PcapPacketHeader where
  tsSec := record.tsSec
  tsUsec := record.tsFraction
  inclLen := .ofNat record.frame.bytes.length
  origLen := record.origLen

def bytes (record : PcapRecord) : List UInt8 :=
  PcapPacketHeader.layout.block record.header ++ record.frame.bytes

/-- The time of a record in microseconds. -/
def microseconds (record : PcapRecord) (nanosecond : Bool) : Nat :=
  record.tsSec.toNat * 1000000 +
    if nanosecond then record.tsFraction.toNat / 1000 else record.tsFraction.toNat

theorem microseconds_lt (record : PcapRecord) (nanosecond : Bool) :
    record.microseconds nanosecond < 2 ^ 64 := by
  have hsec := record.tsSec.toNat_lt
  have hfraction := record.tsFraction.toNat_lt
  unfold microseconds
  split <;> omega

/-- The payload of the datagram that a record holds, with the time of the record. -/
def packet (record : PcapRecord) (nanosecond : Bool) : Option PcapPacket :=
  record.frame.payload.map (PcapPacket.mk
    (.ofNatLT (record.microseconds nanosecond) (record.microseconds_lt nanosecond)))

end PcapRecord

/-- A capture of Ethernet frames. -/
structure PcapFile where
  nanosecond : Bool := false
  versionMajor : UInt16 := 2
  versionMinor : UInt16 := 4
  thiszone : Int32 := 0
  sigfigs : UInt32 := 0
  snaplen : UInt32 := 65535
  records : List PcapRecord

namespace PcapFile

open PcapReader

def header (file : PcapFile) : PcapGlobalHeader where
  magicNumber := if file.nanosecond then pcapMagicNanosec else pcapMagicMicrosec
  versionMajor := file.versionMajor
  versionMinor := file.versionMinor
  thiszone := file.thiszone
  sigfigs := file.sigfigs
  snaplen := file.snaplen
  network := linktypeEthernet

def bytes (file : PcapFile) : List UInt8 :=
  PcapGlobalHeader.layout.block file.header ++ file.records.flatMap PcapRecord.bytes

/-- The payloads of the datagrams of a capture, in file order. -/
def packets (file : PcapFile) : List PcapPacket :=
  file.records.filterMap (·.packet file.nanosecond)

end PcapFile

namespace PcapReader

/-! ## Records of a capture -/

/-- The time of a record is computed without overflow. -/
theorem timestampUs_eq (isNanosecond : Bool) (record : PcapRecord) :
    timestampUs isNanosecond record.header = .ofNatLT (record.microseconds isNanosecond)
      (record.microseconds_lt isNanosecond) := by
  have hsec := record.tsSec.toNat_lt
  have hfraction := record.tsFraction.toNat_lt
  apply UInt64.toNat_inj.mp
  rw [UInt64.toNat_ofNatLT]
  unfold timestampUs PcapRecord.microseconds
  cases isNanosecond with
  | false =>
      simp [PcapRecord.header]
      omega
  | true =>
      simp [PcapRecord.header]
      omega

/-- A record is read where it lies in front. -/
theorem readRecord_of_unread (record : PcapRecord) {file : InputStream} {rest : List UInt8}
    (hunread : file.Unread (record.bytes ++ rest)) :
    ∃ file', readRecord file = (some (record.header, record.frame.bytes), file') ∧
      file'.Unread rest := by
  rw [PcapRecord.bytes, List.append_assoc] at hunread
  obtain ⟨mid, hheader, hmid, -⟩ := InputStream.read_of_unread hunread
  obtain ⟨stop, hframe, hstop, -⟩ := InputStream.read_of_unread hmid
  rw [Layout.length_block] at hheader
  have hdecode : PcapPacketHeader.layout.decode {} (PcapPacketHeader.layout.block record.header) 0 =
      some record.header := by
    simpa using PcapPacketHeader.layout.decode_block record.header {} [] []
  have hlength : record.header.inclLen.toNat = record.frame.bytes.length := by
    have hlt := record.length_lt
    simp only [PcapRecord.header, UInt32.toNat_ofNat']
    omega
  refine ⟨stop, ?_, hstop⟩
  simp only [readRecord, hheader, hdecode, hlength, hframe]

theorem readRecord_of_unread_nil {file : InputStream} (hunread : file.Unread []) :
    (readRecord file).1 = none := by
  have hnone := InputStream.read_of_unread_nil hunread
    (show 0 < PcapPacketHeader.layout.size by decide)
  unfold readRecord
  split
  next => rfl
  next _ _ heq =>
    rw [heq] at hnone
    cases hnone

/-- The reader hands out what it extracts from the records, in their order. -/
theorem readAll_of_unread (records : List PcapRecord) {r : PcapReader} (hopen : r.isOpen)
    (hunread : r.file.Unread (records.flatMap PcapRecord.bytes)) :
    r.readAll.1 = records.filterMap fun record =>
      extract r.isNanosecond record.header record.frame.bytes := by
  induction records generalizing r with
  | nil =>
      have hnone := readRecord_of_unread_nil hunread
      have hrecord : readRecord r.file = (none, (readRecord r.file).2) := Prod.ext hnone rfl
      rw [readAll_of_none (readNext_of_none hopen hrecord)]
      rfl
  | cons record records ih =>
      obtain ⟨file, hrecord, hrest⟩ := readRecord_of_unread record hunread
      have hlater : ({ r with file } : PcapReader).readAll.1 =
          records.filterMap fun record =>
            extract r.isNanosecond record.header record.frame.bytes :=
        ih hopen hrest
      cases hextract : extract r.isNanosecond record.header record.frame.bytes with
      | none =>
          rw [readAll_congr (readNext_of_skip hopen hrecord hextract), hlater,
            List.filterMap_cons]
          simp only [hextract]
      | some packet =>
          rw [readAll_of_packet (readNext_of_packet hopen hrecord hextract), hlater,
            List.filterMap_cons]
          simp only [hextract]

/-- A capture is opened in front of its records. -/
theorem openFile_bytes (file : PcapFile) :
    ∃ stream : InputStream, openFile {} (some file.bytes) =
        (true, { file := stream, isOpen := true, isNanosecond := file.nanosecond }) ∧
      stream.Unread (file.records.flatMap PcapRecord.bytes) := by
  have hunread : ({ contents := file.bytes } : InputStream).Unread
      (PcapGlobalHeader.layout.block file.header ++ file.records.flatMap PcapRecord.bytes) :=
    ⟨rfl, Nat.zero_le _, rfl⟩
  obtain ⟨stream, hread, hrest, -⟩ := InputStream.read_of_unread hunread
  rw [Layout.length_block] at hread
  have hdecode : PcapGlobalHeader.layout.decode {} (PcapGlobalHeader.layout.block file.header) 0 =
      some file.header := by
    simpa using PcapGlobalHeader.layout.decode_block file.header {} [] []
  refine ⟨stream, ?_, hrest⟩
  simp only [openFile, hread, hdecode]
  cases hnano : file.nanosecond with
  | false =>
      simp [PcapFile.header, hnano]
      decide
  | true => simp [PcapFile.header, hnano]

/-! ## Payloads -/

/-- The headers are looked for within the frame, and the reader hands out the payloads of the
datagrams of a capture exactly when nothing follows them in their frames and no fragment has
room for the header of a datagram. -/
theorem readAll_iff (file : PcapFile) :
    (∀ data, (stripHeaders data).isSome) ∧
      ((openFile {} (some file.bytes)).2.readAll.1 = file.packets ↔
        ∀ record ∈ file.records, record.frame.Bare) := by
  refine ⟨stripHeaders_isSome, ?_⟩
  obtain ⟨stream, hopen, hunread⟩ := openFile_bytes file
  have hframe : ∀ record : PcapRecord,
      ((record.packet file.nanosecond).isSome →
        (extract file.nanosecond record.header record.frame.bytes).isSome) ∧
      (extract file.nanosecond record.header record.frame.bytes =
          record.packet file.nanosecond ↔ record.frame.Bare) := by
    intro record
    have hextract := extract_frame file.nanosecond record.header record.frame
    rw [timestampUs_eq] at hextract
    rw [PcapRecord.packet, Option.isSome_map]
    exact hextract
  rw [hopen, readAll_of_unread file.records rfl hunread, PcapFile.packets,
    filterMap_eq_filterMap_iff fun record _ => (hframe record).1]
  exact forall₂_congr fun record _ => (hframe record).2

/-- A datagram of four bytes, in a frame that is padded to 60 bytes. -/
def paddedRecord : PcapRecord where
  frame := .udp { destination := .replicate 6 0, source := .replicate 6 0 }
    { protocol := udpProtocol
      source := .replicate 4 0
      destination := .replicate 4 0
      body := UdpDatagram.bytes { payload := [1, 2, 3, 4] }
      length_lt := by decide }
    { payload := [1, 2, 3, 4] } rfl (by decide) rfl (.replicate 14 0)
  length_lt := by decide

/-- The padding of a frame is handed out with the payload. -/
theorem not_readAll_of_padded :
    ¬∀ file : PcapFile, (openFile {} (some file.bytes)).2.readAll.1 = file.packets := by
  intro hread
  obtain ⟨stream, hopen, hunread⟩ := openFile_bytes { records := [paddedRecord] }
  have hpackets := hread { records := [paddedRecord] }
  rw [hopen, readAll_of_unread [paddedRecord] rfl hunread] at hpackets
  have hdiffer : [paddedRecord].filterMap (fun record =>
      extract false record.header record.frame.bytes) ≠
        PcapFile.packets { records := [paddedRecord] } := by
    decide
  exact hdiffer hpackets

end PcapReader

end SimCme
