import SimCme.Library.Datagrams
import SimCme.Library.InputStream

/-!
# The capture reader

The reader takes the records of a capture file one after the other.  It looks for the
headers of Ethernet, IPv4 and UDP in each, and hands out what lies behind them.

Main results:

- Theorem {lit}`PcapReader.stripHeaders_isSome`: the headers are looked for within the frame.
- Theorem {lit}`PcapReader.readAll_reset`: a reader that is reset reads the same packets again.
-/

open Library

namespace SimCme

/-! ## Records -/

structure PcapGlobalHeader where
  magicNumber : UInt32 := 0
  versionMajor : UInt16 := 0
  versionMinor : UInt16 := 0
  thiszone : Int32 := 0
  sigfigs : UInt32 := 0
  snaplen : UInt32 := 0
  network : UInt32 := 0
deriving DecidableEq, Repr

def PcapGlobalHeader.layout : Layout PcapGlobalHeader where
  fields :=
    [ field 0 .uint32 (·.magicNumber) fun m v => { m with magicNumber := v }
    , field 4 .uint16 (·.versionMajor) fun m v => { m with versionMajor := v }
    , field 6 .uint16 (·.versionMinor) fun m v => { m with versionMinor := v }
    , field 8 .int32 (·.thiszone) fun m v => { m with thiszone := v }
    , field 12 .uint32 (·.sigfigs) fun m v => { m with sigfigs := v }
    , field 16 .uint32 (·.snaplen) fun m v => { m with snaplen := v }
    , field 20 .uint32 (·.network) fun m v => { m with network := v } ]
  size := 24
  tile := by decide
  restores := fun _ _ => rfl
  onto := fun _ => ⟨.mk .., rfl⟩

structure PcapPacketHeader where
  tsSec : UInt32 := 0
  /-- The nanoseconds in a file of that resolution. -/
  tsUsec : UInt32 := 0
  inclLen : UInt32 := 0
  origLen : UInt32 := 0
deriving DecidableEq, Repr

def PcapPacketHeader.layout : Layout PcapPacketHeader where
  fields :=
    [ field 0 .uint32 (·.tsSec) fun m v => { m with tsSec := v }
    , field 4 .uint32 (·.tsUsec) fun m v => { m with tsUsec := v }
    , field 8 .uint32 (·.inclLen) fun m v => { m with inclLen := v }
    , field 12 .uint32 (·.origLen) fun m v => { m with origLen := v } ]
  size := 16
  tile := by decide
  restores := fun _ _ => rfl
  onto := fun _ => ⟨.mk .., rfl⟩

structure PcapPacket where
  timestampUs : UInt64
  data : List UInt8
deriving DecidableEq, Repr

/-! ## The reader -/

structure PcapReader where
  file : InputStream := {}
  isOpen : Bool := false
  isNanosecond : Bool := false
deriving DecidableEq, Repr

namespace PcapReader

def pcapMagicMicrosec : UInt32 := 0xA1B2C3D4

def pcapMagicNanosec : UInt32 := 0xA1B23C4D

def linktypeEthernet : UInt32 := 1

def ethernetHeaderLen : Nat := 14

def udpHeaderLen : Nat := 8

/-- Read a word of the frame. -/
def readWord (data : List UInt8) (pos : Nat) : Option Nat := do
  let hi ← data[pos]?
  let lo ← data[pos + 1]?
  return bigEndian hi lo

/-- Look for the headers of IPv4 and UDP behind that of Ethernet. -/
def stripIpHeaders (data : List UInt8) (ethHeaderLen etherType : Nat) : Option (Option Nat) :=
  if etherType ≠ 0x0800 then some none
  else if data.length < ethHeaderLen + 20 then some none
  else do
    let first ← data[ethHeaderLen]?
    let ipHeaderLen := (first.toNat &&& 0x0F) * 4
    if first.toNat >>> 4 &&& 0x0F ≠ 4 then some none
    else if ipHeaderLen < 20 ∨ data.length < ethHeaderLen + ipHeaderLen then some none
    else do
      let protocol ← data[ethHeaderLen + 9]?
      let udpStart := ethHeaderLen + ipHeaderLen
      if protocol ≠ udpProtocol then some none
      else if data.length < udpStart + udpHeaderLen then some none
      else some (some (udpStart + udpHeaderLen))

/-- Look for the payload of a datagram in a frame.  A read outside the frame has no result. -/
def stripHeaders (data : List UInt8) : Option (Option Nat) :=
  if data.length < ethernetHeaderLen then some none
  else do
    let etherType ← readWord data 12
    if etherType = 0x8100 then
      let ethHeaderLen := ethernetHeaderLen + 4
      if data.length < ethHeaderLen then some none
      else do
        let etherType ← readWord data (ethHeaderLen - 2)
        stripIpHeaders data ethHeaderLen etherType
    else stripIpHeaders data ethernetHeaderLen etherType

/-- Open a file, if there is one. -/
def openFile (r : PcapReader) (file : Option (List UInt8)) : Bool × PcapReader :=
  match file with
  | none => (false, r)
  | some contents =>
      match InputStream.read { contents } PcapGlobalHeader.layout.size with
      | (none, _) => (false, r)
      | (some bytes, stream) =>
          match PcapGlobalHeader.layout.decode {} bytes 0 with
          | none => (false, r)
          | some header =>
              if header.magicNumber ≠ pcapMagicMicrosec ∧
                  header.magicNumber ≠ pcapMagicNanosec then
                (false, r)
              else
                let r := { r with isNanosecond := header.magicNumber == pcapMagicNanosec }
                if header.network ≠ linktypeEthernet then (false, r)
                else (true, { r with file := stream, isOpen := true })

/-- Go back to the first record. -/
def reset (r : PcapReader) : PcapReader :=
  { r with file := { r.file with position := PcapGlobalHeader.layout.size, good := true } }

def timestampUs (isNanosecond : Bool) (header : PcapPacketHeader) : UInt64 :=
  if isNanosecond then header.tsSec.toUInt64 * 1000000 + (header.tsUsec / 1000).toUInt64
  else header.tsSec.toUInt64 * 1000000 + header.tsUsec.toUInt64

/-- Read the header and the frame of a record. -/
def readRecord (file : InputStream) : Option (PcapPacketHeader × List UInt8) × InputStream :=
  match file.read PcapPacketHeader.layout.size with
  | (none, file) => (none, file)
  | (some bytes, file) =>
      match PcapPacketHeader.layout.decode {} bytes 0 with
      | none => (none, file)
      | some header =>
          match file.read header.inclLen.toNat with
          | (none, file) => (none, file)
          | (some raw, file) => (some (header, raw), file)

/-- What is handed out of a record, if it is one of a UDP frame. -/
def extract (isNanosecond : Bool) (header : PcapPacketHeader) (raw : List UInt8) :
    Option PcapPacket :=
  match stripHeaders raw with
  | some (some offset) =>
      some { timestampUs := timestampUs isNanosecond header, data := raw.drop offset }
  | some none | none => none

/-- Reading a record takes at least its header from the file. -/
theorem position_of_readRecord {file file' : InputStream}
    {record : PcapPacketHeader × List UInt8} (hread : readRecord file = (some record, file')) :
    file'.contents = file.contents ∧ file.position < file'.position ∧
      file'.position ≤ file.contents.length := by
  have hsize : PcapPacketHeader.layout.size = 16 := rfl
  unfold readRecord at hread
  split at hread
  next => cases hread
  next bytes mid hheader =>
    obtain ⟨hmid, hpos, -⟩ := InputStream.position_of_read hheader
    split at hread
    next => cases hread
    next header hdecode =>
      split at hread
      next => cases hread
      next raw stop hraw =>
        obtain ⟨hstop, hpos', hle⟩ := InputStream.position_of_read hraw
        cases hread
        rw [hmid] at hle
        exact ⟨hstop.trans hmid, by omega, by omega⟩

/-- Read the next packet, behind the records that hold none. -/
def readNext (r : PcapReader) : Option PcapPacket × PcapReader :=
  if r.isOpen then
    match _hread : readRecord r.file with
    | (none, file) => (none, { r with file })
    | (some (header, raw), file) =>
        match extract r.isNanosecond header raw with
        | none => readNext { r with file }
        | some packet => (some packet, { r with file })
  else (none, r)
termination_by r.file.contents.length - r.file.position
decreasing_by
  obtain ⟨hcontents, hlt, hle⟩ := position_of_readRecord _hread
  simp only [hcontents]
  omega

theorem readNext_eq {r : PcapReader} (hopen : r.isOpen) :
    r.readNext =
      match readRecord r.file with
      | (none, file) => (none, { r with file })
      | (some (header, raw), file) =>
          match extract r.isNanosecond header raw with
          | none => readNext { r with file }
          | some packet => (some packet, { r with file }) := by
  rw [readNext, if_pos hopen]
  split
  next heq => rw [heq]
  next heq => rw [heq]

theorem readNext_of_none {r : PcapReader} {file : InputStream} (hopen : r.isOpen)
    (hrecord : readRecord r.file = (none, file)) : r.readNext = (none, { r with file }) := by
  rw [readNext_eq hopen, hrecord]

/-- The reader goes on behind a record that it hands nothing out of. -/
theorem readNext_of_skip {r : PcapReader} {file : InputStream} {header : PcapPacketHeader}
    {raw : List UInt8} (hopen : r.isOpen)
    (hrecord : readRecord r.file = (some (header, raw), file))
    (hskip : extract r.isNanosecond header raw = none) :
    r.readNext = readNext { r with file } := by
  rw [readNext_eq hopen, hrecord]
  simp only [hskip]

theorem readNext_of_packet {r : PcapReader} {file : InputStream} {header : PcapPacketHeader}
    {raw : List UInt8} {packet : PcapPacket} (hopen : r.isOpen)
    (hrecord : readRecord r.file = (some (header, raw), file))
    (hpacket : extract r.isNanosecond header raw = some packet) :
    r.readNext = (some packet, { r with file }) := by
  rw [readNext_eq hopen, hrecord]
  simp only [hpacket]

/-- Reading a packet takes something from the file. -/
theorem position_of_readNext {r r' : PcapReader} {packet : PcapPacket}
    (hread : r.readNext = (some packet, r')) :
    r'.file.contents = r.file.contents ∧ r.file.position < r'.file.position ∧
      r'.file.position ≤ r.file.contents.length := by
  induction r using readNext.induct with
  | case1 r hopen file hrecord =>
      rw [readNext_of_none hopen hrecord] at hread
      cases hread
  | case2 r hopen header raw file hrecord hskip ih =>
      obtain ⟨hcontents, hlt, -⟩ := position_of_readRecord hrecord
      rw [readNext_of_skip hopen hrecord hskip] at hread
      obtain ⟨hcontents', hlt', hle⟩ := ih hread
      simp only [hcontents] at hcontents' hle
      exact ⟨hcontents', Nat.lt_trans hlt hlt', hle⟩
  | case3 r hopen header raw file hrecord packet hpacket =>
      rw [readNext_of_packet hopen hrecord hpacket] at hread
      cases hread
      exact position_of_readRecord hrecord
  | case4 r hclosed =>
      rw [readNext, if_neg hclosed] at hread
      cases hread

/-- Read all packets. -/
def readAll (r : PcapReader) : List PcapPacket × PcapReader :=
  match _hread : r.readNext with
  | (none, r') => ([], r')
  | (some packet, r') =>
      let (packets, r'') := readAll r'
      (packet :: packets, r'')
termination_by r.file.contents.length - r.file.position
decreasing_by
  obtain ⟨hcontents, hlt, hle⟩ := position_of_readNext _hread
  rw [hcontents]
  omega

theorem readAll_eq (r : PcapReader) :
    r.readAll =
      match r.readNext with
      | (none, r') => ([], r')
      | (some packet, r') => (packet :: r'.readAll.1, r'.readAll.2) := by
  rw [readAll]
  split
  next heq => rw [heq]
  next heq => rw [heq]

theorem readAll_of_none {r r' : PcapReader} (hread : r.readNext = (none, r')) :
    r.readAll = ([], r') := by
  rw [readAll_eq, hread]

theorem readAll_of_packet {r r' : PcapReader} {packet : PcapPacket}
    (hread : r.readNext = (some packet, r')) :
    r.readAll = (packet :: r'.readAll.1, r'.readAll.2) := by
  rw [readAll_eq, hread]

/-- Reading all packets depends on what is read next only. -/
theorem readAll_congr {r s : PcapReader} (hnext : r.readNext = s.readNext) :
    r.readAll = s.readAll := by
  rw [readAll_eq, readAll_eq s, hnext]

/-! ## Reading again -/

theorem contents_of_readRecord (file : InputStream) :
    (readRecord file).2.contents = file.contents := by
  have hheader := file.contents_of_read PcapPacketHeader.layout.size
  unfold readRecord
  split
  next _ heq =>
    rw [heq] at hheader
    exact hheader
  next _ mid heq =>
    rw [heq] at hheader
    split
    next => exact hheader
    next header _ =>
      have hframe := mid.contents_of_read header.inclLen.toNat
      split
      next _ heq' =>
        rw [heq'] at hframe
        exact hframe.trans hheader
      next _ _ heq' =>
        rw [heq'] at hframe
        exact hframe.trans hheader

/-- A reader has the same file open as another one, at any position. -/
structure SameFile (r s : PcapReader) : Prop where
  contents_eq : r.file.contents = s.file.contents
  isOpen_eq : r.isOpen = s.isOpen
  isNanosecond_eq : r.isNanosecond = s.isNanosecond

theorem sameFile_of_readRecord {r : PcapReader} {file : InputStream}
    {record : Option (PcapPacketHeader × List UInt8)} (hread : readRecord r.file = (record, file)) :
    SameFile { r with file } r := by
  have hcontents := contents_of_readRecord r.file
  rw [hread] at hcontents
  exact ⟨hcontents, rfl, rfl⟩

theorem SameFile.trans {r s t : PcapReader} (hrs : SameFile r s) (hst : SameFile s t) :
    SameFile r t :=
  ⟨hrs.contents_eq.trans hst.contents_eq, hrs.isOpen_eq.trans hst.isOpen_eq,
    hrs.isNanosecond_eq.trans hst.isNanosecond_eq⟩

theorem sameFile_readNext (r : PcapReader) : SameFile r.readNext.2 r := by
  induction r using readNext.induct with
  | case1 r hopen file hrecord =>
      rw [readNext_of_none hopen hrecord]
      exact sameFile_of_readRecord hrecord
  | case2 r hopen header raw file hrecord hskip ih =>
      rw [readNext_of_skip hopen hrecord hskip]
      exact ih.trans (sameFile_of_readRecord hrecord)
  | case3 r hopen header raw file hrecord packet hpacket =>
      rw [readNext_of_packet hopen hrecord hpacket]
      exact sameFile_of_readRecord hrecord
  | case4 r hclosed =>
      rw [readNext, if_neg hclosed]
      exact ⟨rfl, rfl, rfl⟩

theorem sameFile_readAll (r : PcapReader) : SameFile r.readAll.2 r := by
  induction r using readAll.induct with
  | case1 r r' hread =>
      have hsame := r.sameFile_readNext
      rw [hread] at hsame
      rw [readAll_of_none hread]
      exact hsame
  | case2 r packet r' hread packets r'' hlater ih =>
      have hsame := r.sameFile_readNext
      rw [hread] at hsame
      rw [readAll_of_packet hread]
      exact ih.trans hsame

theorem SameFile.reset_eq {r s : PcapReader} (hsame : SameFile r s) : r.reset = s.reset := by
  obtain ⟨hcontents, hopen, hnanosecond⟩ := hsame
  simp only [reset, hcontents, hopen, hnanosecond]

/-- A reader that is reset reads as if it had not read anything since it was reset before. -/
theorem readAll_reset (r : PcapReader) : r.reset.readAll.2.reset.readAll = r.reset.readAll := by
  rw [(sameFile_readAll r.reset).reset_eq]
  rfl

/-! ## Headers -/

/-- Both bytes of a word within the frame are read. -/
theorem exists_readWord {data : List UInt8} {pos : Nat} (hroom : pos + 2 ≤ data.length) :
    ∃ word, readWord data pos = some word := by
  have hhi : data[pos]? = some data[pos] := List.getElem?_eq_getElem (by omega)
  have hlo : data[pos + 1]? = some data[pos + 1] := List.getElem?_eq_getElem (by omega)
  exact ⟨bigEndian data[pos] data[pos + 1], by simp [readWord, hhi, hlo]⟩

/-- No read was outside the frame, and a payload that was found starts within it. -/
def FoundWithin (data : List UInt8) (result : Option (Option Nat)) : Prop :=
  ∃ found, result = some found ∧ ∀ offset, found = some offset → offset ≤ data.length

/-- A check that fails ends the search. -/
theorem FoundWithin.ite {data : List UInt8} {c : Prop} [Decidable c]
    {result : Option (Option Nat)} (hresult : ¬c → FoundWithin data result) :
    FoundWithin data (if c then some none else result) := by
  split
  next => exact ⟨none, rfl, by simp⟩
  next hc => exact hresult hc

theorem stripIpHeaders_within (data : List UInt8) (ethHeaderLen etherType : Nat) :
    FoundWithin data (stripIpHeaders data ethHeaderLen etherType) := by
  unfold stripIpHeaders
  refine .ite fun _ => .ite fun hroom => ?_
  have hfirst : data[ethHeaderLen]? = some data[ethHeaderLen] :=
    List.getElem?_eq_getElem (by omega)
  have hprotocol : data[ethHeaderLen + 9]? = some data[ethHeaderLen + 9] :=
    List.getElem?_eq_getElem (by omega)
  simp only [hfirst, hprotocol, Option.bind_eq_bind, Option.bind_some]
  refine .ite fun _ => .ite fun _ => .ite fun _ => .ite fun hpayload => ?_
  refine ⟨_, rfl, ?_⟩
  intro offset hoffset
  obtain rfl := Option.some.inj hoffset
  omega

theorem stripHeaders_within (data : List UInt8) : FoundWithin data (stripHeaders data) := by
  have hlen : ethernetHeaderLen = 14 := rfl
  unfold stripHeaders
  refine .ite fun hroom => ?_
  obtain ⟨etherType, hword⟩ : ∃ word, readWord data 12 = some word :=
    exists_readWord (by omega)
  simp only [hword, Option.bind_eq_bind, Option.bind_some]
  split
  next =>
    refine .ite fun htag => ?_
    obtain ⟨inner, hinner⟩ : ∃ word, readWord data (ethernetHeaderLen + 4 - 2) = some word :=
      exists_readWord (by omega)
    simp only [hinner, Option.bind_some]
    exact stripIpHeaders_within data _ inner
  next => exact stripIpHeaders_within data _ etherType

/-- The headers are looked for within the frame. -/
theorem stripHeaders_isSome (data : List UInt8) : (stripHeaders data).isSome := by
  obtain ⟨found, hstrip, -⟩ := stripHeaders_within data
  rw [hstrip]
  rfl

end PcapReader

end SimCme
