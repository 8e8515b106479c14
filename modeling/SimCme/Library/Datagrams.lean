import SimCme.Library.WireLayout

/-!
# Frames that carry datagrams

An Ethernet frame starts with two addresses, at most one VLAN tag and the type of what it
carries.  An IPv4 packet has a header of 5 to 15 words, which tells whether the packet is a
fragment of a datagram.  A UDP datagram is a header of 8 bytes with its own length and the
payload.  Padding may follow the packet in the frame.

Main results:

- Theorem {lit}`bigEndian_beBytes`: the two bytes of a word spell it.
- Theorem {lit}`Ipv4Packet.first_halves`: the first byte of a packet holds the version and the
  length of the header.
-/

namespace Library

/-! ## Big-endian words -/

/-- The number that two bytes spell, most significant first. -/
def bigEndian (hi lo : UInt8) : Nat :=
  hi.toNat <<< 8 ||| lo.toNat

/-- The two bytes of a word, most significant first. -/
def beBytes (n : UInt16) : List UInt8 :=
  [.ofNat (n.toNat / 256), .ofNat n.toNat]

theorem bigEndian_eq (hi lo : UInt8) : bigEndian hi lo = hi.toNat * 256 + lo.toNat := by
  rw [bigEndian, ← Nat.shiftLeft_add_eq_or_of_lt lo.toNat_lt, Nat.shiftLeft_eq]

/-- The two bytes of a word spell it. -/
theorem bigEndian_beBytes (n : UInt16) :
    bigEndian (.ofNat (n.toNat / 256)) (.ofNat n.toNat) = n.toNat := by
  have hn := n.toNat_lt
  rw [bigEndian_eq, UInt8.toNat_ofNat', UInt8.toNat_ofNat']
  omega

@[simp]
theorem length_beBytes (n : UInt16) : (beBytes n).length = 2 :=
  rfl

/-! ## Frames -/

def vlanType : UInt16 := 0x8100

def ipv4Type : UInt16 := 0x0800

def udpProtocol : UInt8 := 17

structure EthernetHeader where
  destination : Vector UInt8 6
  source : Vector UInt8 6
  tag : Option UInt16 := none

namespace EthernetHeader

def tagBytes (h : EthernetHeader) : List UInt8 :=
  match h.tag with
  | none => []
  | some control => beBytes vlanType ++ beBytes control

/-- The header in front of a packet of a type. -/
def bytes (h : EthernetHeader) (etherType : UInt16) : List UInt8 :=
  h.destination.toList ++ h.source.toList ++ h.tagBytes ++ beBytes etherType

def length (h : EthernetHeader) : Nat :=
  14 + h.tagBytes.length

@[simp]
theorem length_bytes (h : EthernetHeader) (etherType : UInt16) :
    (h.bytes etherType).length = h.length := by
  simp only [bytes, length, List.length_append, Vector.length_toList, length_beBytes]
  omega

end EthernetHeader

/-- An IPv4 packet. -/
structure Ipv4Packet where
  typeOfService : UInt8 := 0
  identification : UInt16 := 0
  /-- The flags and the place of a fragment. -/
  place : UInt16 := 0
  timeToLive : UInt8 := 64
  protocol : UInt8
  checksum : UInt16 := 0
  source : Vector UInt8 4
  destination : Vector UInt8 4
  options : List (Vector UInt8 4) := []
  options_le : options.length ≤ 10 := by decide
  body : List UInt8
  length_lt : 4 * (5 + options.length) + body.length < 2 ^ 16

namespace Ipv4Packet

/-- The length of the header in words. -/
def headerWords (p : Ipv4Packet) : Nat :=
  5 + p.options.length

/-- More fragments follow, or there are some before. -/
def IsFragment (p : Ipv4Packet) : Prop :=
  p.place &&& 0x3FFF ≠ 0

instance (p : Ipv4Packet) : Decidable p.IsFragment :=
  inferInstanceAs (Decidable (_ ≠ _))

/-- The fields in front of the protocol. -/
def lead (p : Ipv4Packet) : List UInt8 :=
  p.typeOfService :: (beBytes (.ofNat (4 * p.headerWords + p.body.length)) ++
    beBytes p.identification ++ beBytes p.place ++ [p.timeToLive])

/-- The fields behind the protocol. -/
def tail (p : Ipv4Packet) : List UInt8 :=
  beBytes p.checksum ++ p.source.toList ++ p.destination.toList ++ p.options.flatMap (·.toList)

/-- The version and the length of the header. -/
def first (p : Ipv4Packet) : UInt8 :=
  .ofNat (4 * 16 + p.headerWords)

def headerBytes (p : Ipv4Packet) : List UInt8 :=
  p.first :: (p.lead ++ p.protocol :: p.tail)

def bytes (p : Ipv4Packet) : List UInt8 :=
  p.headerBytes ++ p.body

@[simp]
theorem length_lead (p : Ipv4Packet) : p.lead.length = 8 :=
  rfl

@[simp]
theorem length_tail (p : Ipv4Packet) : p.tail.length = 10 + 4 * p.options.length := by
  have hoptions : (p.options.flatMap (·.toList)).length = 4 * p.options.length := by
    induction p.options with
    | nil => rfl
    | cons word words ih =>
        rw [List.flatMap_cons, List.length_append, ih, Vector.length_toList, List.length_cons]
        omega
  simp only [tail, List.length_append, length_beBytes, Vector.length_toList, hoptions]

@[simp]
theorem length_headerBytes (p : Ipv4Packet) : p.headerBytes.length = 4 * p.headerWords := by
  simp only [headerBytes, headerWords, List.length_cons, List.length_append, length_lead,
    length_tail]
  omega

theorem first_toNat (p : Ipv4Packet) : p.first.toNat = 4 * 16 + p.headerWords := by
  have hle := p.options_le
  rw [first, UInt8.toNat_ofNat', headerWords]
  omega

/-- The upper half of the first byte is the version, its lower half the length of the
header. -/
theorem first_halves (p : Ipv4Packet) :
    p.first.toNat >>> 4 &&& 0x0F = 4 ∧ p.first.toNat &&& 0x0F = p.headerWords := by
  have hle := p.options_le
  have hwords : p.headerWords < 16 := by
    rw [headerWords]
    omega
  have hmask : ∀ n : Nat, n &&& 0x0F = n % 16 := fun n => Nat.and_two_pow_sub_one_eq_mod n 4
  rw [hmask, hmask, Nat.shiftRight_eq_div_pow, first_toNat]
  omega

end Ipv4Packet

/-- A UDP datagram. -/
structure UdpDatagram where
  sourcePort : UInt16 := 0
  destinationPort : UInt16 := 0
  checksum : UInt16 := 0
  payload : List UInt8

namespace UdpDatagram

/-- The header holds the length of the datagram. -/
def headerBytes (d : UdpDatagram) : List UInt8 :=
  beBytes d.sourcePort ++ beBytes d.destinationPort ++ beBytes (.ofNat (8 + d.payload.length)) ++
    beBytes d.checksum

def bytes (d : UdpDatagram) : List UInt8 :=
  d.headerBytes ++ d.payload

@[simp]
theorem length_headerBytes (d : UdpDatagram) : d.headerBytes.length = 8 :=
  rfl

end UdpDatagram

/-- A frame, with or without padding behind its packet. -/
inductive Frame where
  | other (link : EthernetHeader) (etherType : UInt16)
      (hother : etherType ≠ ipv4Type ∧ etherType ≠ vlanType) (body : List UInt8)
  | nonUdp (link : EthernetHeader) (packet : Ipv4Packet)
      (hother : packet.protocol ≠ udpProtocol) (padding : List UInt8)
  | fragment (link : EthernetHeader) (packet : Ipv4Packet)
      (hudp : packet.protocol = udpProtocol) (hfragment : packet.IsFragment)
      (padding : List UInt8)
  | udp (link : EthernetHeader) (packet : Ipv4Packet) (datagram : UdpDatagram)
      (hudp : packet.protocol = udpProtocol) (hwhole : ¬packet.IsFragment)
      (hbody : packet.body = datagram.bytes) (padding : List UInt8)

namespace Frame

def bytes : Frame → List UInt8
  | .other link etherType _ body => link.bytes etherType ++ body
  | .nonUdp link packet _ padding => link.bytes ipv4Type ++ packet.bytes ++ padding
  | .fragment link packet _ _ padding => link.bytes ipv4Type ++ packet.bytes ++ padding
  | .udp link packet _ _ _ _ padding => link.bytes ipv4Type ++ packet.bytes ++ padding

/-- The payload of the datagram that a frame carries as a whole. -/
def payload : Frame → Option (List UInt8)
  | .udp _ _ datagram _ _ _ _ => some datagram.payload
  | .other .. | .nonUdp .. | .fragment .. => none

/-- Nothing follows a whole datagram in its frame, and a fragment leaves no room behind its
header for that of a datagram. -/
def Bare : Frame → Prop
  | .other .. | .nonUdp .. => True
  | .fragment _ packet _ _ padding => packet.body.length + padding.length < 8
  | .udp _ _ _ _ _ _ padding => padding = []

end Frame

end Library
