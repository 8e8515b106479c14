import SimCme.Library.WireLayout

/-!
# Message headers and message formats

A message is an 8-byte header followed by a block of fixed layout.  The header
names the message type and the length of the block.

Main results:

- Theorem {lit}`MessageFormat.decode_toBytes`: a message is decoded from its bytes.
- Theorem {lit}`MessageFormat.decode_isSome`: decoding stays within the buffer
  exactly when the buffer holds the whole message.
- Theorem {lit}`MessageFormat.roundTrips`: the codec of a message type is exact in
  both directions.
-/

open Library

namespace SimCme

structure MessageHeader where
  blockLength : UInt16 := 0
  templateId : UInt16 := 0
  schemaId : UInt16 := 0
  version : UInt16 := 0
deriving DecidableEq, Repr

namespace MessageHeader

def ilink3SchemaId : UInt16 := 8

def ilink3Version : UInt16 := 8

def mdp3SchemaId : UInt16 := 1

def mdp3Version : UInt16 := 9

def layout : Layout MessageHeader where
  fields :=
    [ field 0 .uint16 (·.blockLength) fun m v => { m with blockLength := v }
    , field 2 .uint16 (·.templateId) fun m v => { m with templateId := v }
    , field 4 .uint16 (·.schemaId) fun m v => { m with schemaId := v }
    , field 6 .uint16 (·.version) fun m v => { m with version := v } ]
  size := 8
  tile := by decide
  restores := fun _ _ => rfl
  onto := fun _ => ⟨.mk .., rfl⟩

def decodeBlockLength (buffer : List UInt8) (offset : Nat := 0) : Option UInt16 :=
  (readAt buffer offset 2).map Wire.uint16.ofBytes

def decodeTemplateId (buffer : List UInt8) (offset : Nat := 0) : Option UInt16 :=
  (readAt buffer (offset + 2) 2).map Wire.uint16.ofBytes

theorem decodeTemplateId_isSome {buffer : List UInt8} (hlen : 8 ≤ buffer.length) :
    ∃ templateId, decodeTemplateId buffer = some templateId := by
  rw [← Option.isSome_iff_exists, decodeTemplateId, Option.isSome_map, readAt_isSome]
  omega

/-- A field of a header that lies at an offset. -/
theorem decodeField_append {f : RecordField MessageHeader} (hf : f ∈ layout.fields)
    (header : MessageHeader) (front back : List UInt8) :
    (readAt (front ++ layout.block header ++ back) (front.length + f.offset) f.wire.width).map
      f.wire.ofBytes = some (f.get header) := by
  rw [layout.readAt_block hf header front back, Option.map_some, RecordField.bytes,
    f.wire.ofBytes_toBytes]

/-- The block length of a header that lies at an offset. -/
theorem decodeBlockLength_append (header : MessageHeader) (front back : List UInt8) :
    decodeBlockLength (front ++ layout.block header ++ back) front.length =
      some header.blockLength := by
  have hmem : field 0 .uint16 (·.blockLength) (fun m v => { m with blockLength := v }) ∈
      layout.fields := by
    simp [layout]
  exact decodeField_append hmem header front back

/-- The template id of a header that lies at an offset. -/
theorem decodeTemplateId_append (header : MessageHeader) (front back : List UInt8) :
    decodeTemplateId (front ++ layout.block header ++ back) front.length =
      some header.templateId := by
  have hmem : field 2 .uint16 (·.templateId) (fun m v => { m with templateId := v }) ∈
      layout.fields := by
    simp [layout]
  exact decodeField_append hmem header front back

end MessageHeader

/-- A message type: its identification in the header and the layout of its
block. -/
structure MessageFormat (σ : Type) where
  templateId : UInt16
  schemaId : UInt16
  version : UInt16
  layout : Layout σ

namespace MessageFormat

variable {σ : Type}

/-- A message type of the order-entry schema. -/
def ilink3 (templateId : UInt16) (layout : Layout σ) : MessageFormat σ where
  templateId := templateId
  schemaId := MessageHeader.ilink3SchemaId
  version := MessageHeader.ilink3Version
  layout := layout

/-- The header in front of every message of the type. -/
def header (f : MessageFormat σ) : MessageHeader where
  blockLength := .ofNat f.layout.size
  templateId := f.templateId
  schemaId := f.schemaId
  version := f.version

def encodedLength (f : MessageFormat σ) : Nat :=
  MessageHeader.layout.size + f.layout.size

def encode (f : MessageFormat σ) (m : σ) (buffer : List UInt8) (offset : Nat) :
    List UInt8 :=
  f.layout.encode m (MessageHeader.layout.encode f.header buffer offset)
    (offset + MessageHeader.layout.size)

/-- Read the block behind a header, into a message with arbitrary contents. -/
def decode (f : MessageFormat σ) (old : σ) (buffer : List UInt8) (offset : Nat) :
    Option σ :=
  f.layout.decode old buffer (offset + MessageHeader.layout.size)

/-- The bytes of a message, encoded into a buffer of its own length. -/
def toBytes (f : MessageFormat σ) (m : σ) : List UInt8 :=
  f.encode m (List.replicate f.encodedLength 0) 0

theorem encode_eq (f : MessageFormat σ) (m : σ) (front old : List UInt8) :
    f.encode m (front ++ old) front.length =
      front ++ (MessageHeader.layout.block f.header ++ f.layout.block m) ++
        old.drop f.encodedLength := by
  rw [encode, Layout.encode_eq, ← Layout.length_append_block _ f.header, Layout.encode_eq]
  simp [encodedLength]

theorem toBytes_eq (f : MessageFormat σ) (m : σ) :
    f.toBytes m = MessageHeader.layout.block f.header ++ f.layout.block m := by
  simpa [toBytes] using f.encode_eq m [] (List.replicate f.encodedLength 0)

@[simp]
theorem length_toBytes (f : MessageFormat σ) (m : σ) :
    (f.toBytes m).length = f.encodedLength := by
  simp [toBytes_eq, encodedLength]

/-- A message is decoded wherever its bytes lie. -/
theorem decode_append (f : MessageFormat σ) (m old : σ) (front back : List UInt8) :
    f.decode old (front ++ f.toBytes m ++ back) front.length = some m := by
  rw [decode, toBytes_eq, ← Layout.length_append_block _ f.header, ← List.append_assoc front]
  exact f.layout.decode_block m old _ back

/-- A message is decoded from its bytes. -/
theorem decode_toBytes (f : MessageFormat σ) (m old : σ) :
    f.decode old (f.toBytes m) 0 = some m := by
  simpa using f.decode_append m old [] []

theorem decodeTemplateId_toBytes (f : MessageFormat σ) (m : σ) :
    MessageHeader.decodeTemplateId (f.toBytes m) = some f.templateId := by
  rw [toBytes_eq]
  exact MessageHeader.decodeTemplateId_append f.header [] (f.layout.block m)

theorem decodeTemplateId_append (f : MessageFormat σ) (m : σ) (back : List UInt8) :
    MessageHeader.decodeTemplateId (f.toBytes m ++ back) = some f.templateId := by
  rw [toBytes_eq, List.append_assoc]
  exact MessageHeader.decodeTemplateId_append f.header [] (f.layout.block m ++ back)

/-- A field of a message is found at its offset behind the header. -/
theorem readAt_toBytes (f : MessageFormat σ) {entry : RecordField σ}
    (hentry : entry ∈ f.layout.fields) (m : σ) :
    readAt (f.toBytes m) (MessageHeader.layout.size + entry.offset) entry.wire.width =
      some (entry.bytes m) := by
  have hread := f.layout.readAt_block hentry m (MessageHeader.layout.block f.header) []
  rw [List.append_nil, ← toBytes_eq, Layout.length_block] at hread
  exact hread

/-- Decoding stays within a buffer that holds a header exactly when the buffer
holds the whole message. -/
theorem decode_isSome (f : MessageFormat σ) (old : σ) {buffer : List UInt8}
    (hlen : MessageHeader.layout.size ≤ buffer.length) :
    (f.decode old buffer 0).isSome ↔ f.encodedLength ≤ buffer.length := by
  have hiff := f.layout.decode_isSome old buffer hlen
  simpa [decode, encodedLength] using hiff

/-- Encoding overwrites the bytes of the message in a buffer that holds it. -/
theorem encode_take_drop (f : MessageFormat σ) (m : σ) {buffer : List UInt8} {offset : Nat}
    (hfits : offset + f.encodedLength ≤ buffer.length) :
    f.encode m buffer offset =
      buffer.take offset ++ f.toBytes m ++ buffer.drop (offset + f.encodedLength) := by
  have hfront : (buffer.take offset).length = offset := by
    rw [List.length_take]
    omega
  have hwritten := f.encode_eq m (buffer.take offset) (buffer.drop offset)
  rwa [List.take_append_drop, hfront, List.drop_drop, ← toBytes_eq] at hwritten

/-- What is written starts with the header. -/
theorem exists_encode_header (f : MessageFormat σ) (m : σ) {buffer : List UInt8} {offset : Nat}
    (hfits : offset + f.encodedLength ≤ buffer.length) :
    ∃ front back, front.length = offset ∧
      f.encode m buffer offset = front ++ MessageHeader.layout.block f.header ++ back := by
  refine ⟨buffer.take offset, f.layout.block m ++ buffer.drop (offset + f.encodedLength), ?_, ?_⟩
  · rw [List.length_take]
    omega
  · rw [f.encode_take_drop m hfits, toBytes_eq]
    simp

/-- Every string of the right length behind the header is a message. -/
theorem exists_decode_of_header (f : MessageFormat σ) (old : σ) {bytes : List UInt8}
    (hbytes : bytes.length = f.encodedLength)
    (hstart : bytes.take 8 = MessageHeader.layout.block f.header) :
    ∃ m, f.decode old bytes 0 = some m ∧ f.toBytes m = bytes := by
  have hfits : MessageHeader.layout.size + f.layout.size ≤ bytes.length := hbytes.ge
  have hbody : (bytes.drop 8).take f.layout.size = bytes.drop 8 := by
    apply List.take_of_length_le
    rw [List.length_drop, hbytes]
    exact (Nat.add_sub_cancel_left ..).le
  obtain ⟨m, hdecode, hblock⟩ := f.layout.block_of_decode old bytes hfits
  refine ⟨m, ?_, ?_⟩
  · rwa [decode, Nat.zero_add]
  · calc
      f.toBytes m = bytes.take 8 ++ (bytes.drop 8).take f.layout.size := by
        rw [toBytes_eq, hblock, ← hstart]
        rfl
      _ = bytes.take 8 ++ bytes.drop 8 := by rw [hbody]
      _ = bytes := List.take_append_drop 8 bytes

/-- The codec of a message type is exact in both directions. -/
structure RoundTrips (f : MessageFormat σ) : Prop where
  /-- Encoding overwrites the bytes of the message and no others. -/
  encode_eq : ∀ m buffer offset, offset + f.encodedLength ≤ buffer.length →
    f.encode m buffer offset =
      buffer.take offset ++ f.toBytes m ++ buffer.drop (offset + f.encodedLength)
  length_eq : ∀ m, (f.toBytes m).length = f.encodedLength
  templateId_eq : ∀ m buffer offset, offset + f.encodedLength ≤ buffer.length →
    MessageHeader.decodeTemplateId (f.encode m buffer offset) offset = some f.templateId
  blockLength_eq : ∀ m buffer offset, offset + f.encodedLength ≤ buffer.length →
    (MessageHeader.decodeBlockLength (f.encode m buffer offset) offset).map UInt16.toNat =
      some (f.encodedLength - 8)
  decode_encode : ∀ m old buffer offset, offset + f.encodedLength ≤ buffer.length →
    f.decode old (f.encode m buffer offset) offset = some m
  /-- Every string of the right length behind the header is a message. -/
  encode_decode : ∀ old bytes, bytes.length = f.encodedLength →
    bytes.take 8 = MessageHeader.layout.block f.header →
    ∃ m, f.decode old bytes 0 = some m ∧
      ∀ buffer, buffer.length = f.encodedLength → f.encode m buffer 0 = bytes

theorem roundTrips (f : MessageFormat σ) (hsize : f.layout.size < 2 ^ 16) : f.RoundTrips where
  encode_eq m _ _ hfits := f.encode_take_drop m hfits
  length_eq := f.length_toBytes
  templateId_eq := by
    intro m buffer offset hfits
    obtain ⟨front, back, rfl, hwritten⟩ := f.exists_encode_header m hfits
    rw [hwritten, MessageHeader.decodeTemplateId_append]
    rfl
  blockLength_eq := by
    intro m buffer offset hfits
    have hlength : f.encodedLength - 8 = f.layout.size := Nat.add_sub_cancel_left ..
    obtain ⟨front, back, rfl, hwritten⟩ := f.exists_encode_header m hfits
    rw [hwritten, MessageHeader.decodeBlockLength_append, Option.map_some, hlength, header,
      UInt16.toNat_ofNat', Nat.mod_eq_of_lt hsize]
  decode_encode := by
    intro m old buffer offset hfits
    have hfront : (buffer.take offset).length = offset := by
      rw [List.length_take]
      omega
    have hdecode := f.decode_append m old (buffer.take offset)
      (buffer.drop (offset + f.encodedLength))
    rwa [← f.encode_take_drop m hfits, hfront] at hdecode
  encode_decode := by
    intro old bytes hbytes hstart
    obtain ⟨m, hdecode, hsame⟩ := f.exists_decode_of_header old hbytes hstart
    refine ⟨m, hdecode, ?_⟩
    intro buffer hbuffer
    have hall : buffer.drop (0 + f.encodedLength) = [] := by
      rw [Nat.zero_add, ← hbuffer, List.drop_length]
    rw [f.encode_take_drop m (by omega), hall, List.take_zero, List.nil_append,
      List.append_nil, hsame]

end MessageFormat

end SimCme
