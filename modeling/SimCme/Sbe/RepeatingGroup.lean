import SimCme.Sbe.MessageHeader

/-!
# Repeating groups

A market-data message is a header and a root block followed by repeating groups.
Each group starts with the length of an entry and the number of its entries, and
that number has one byte on the wire.

Main results:

- Theorem {lit}`GroupedFormat.toBytes_eq`: the bytes of a message.
- Theorem {lit}`GroupedFormat.decode_append`: a message is decoded from its bytes as
  long as the numbers of its entries fit their bytes.
- Theorem {lit}`GroupedFormat.roundTrips`: the codec of a format is exact on such messages.
- Theorem {lit}`Group.decodeEntries_iff`: a group is decoded exactly when what it declares
  lies within the buffer.
- Theorem {lit}`Group.length_of_decodeEntries`: no group is decoded to more entries
  than a byte counts.
-/

open Library

namespace SimCme

structure GroupSize where
  blockLength : UInt16 := 0
  numInGroup : UInt8 := 0
deriving DecidableEq, Repr

def GroupSize.layout : Layout GroupSize where
  fields :=
    [ field 0 .uint16 (·.blockLength) fun m v => { m with blockLength := v }
    , field 2 .uint8 (·.numInGroup) fun m v => { m with numInGroup := v } ]
  size := 3
  tile := by decide
  restores := fun _ _ => rfl
  onto := fun _ => ⟨.mk .., rfl⟩

namespace GroupSize

/-- The length of an entry that the head of a group declares. -/
def declaredLength (buf : List UInt8) (pos : Nat) : Nat :=
  wordAt buf pos 2

/-- The number of entries that the head of a group declares. -/
def declaredCount (buf : List UInt8) (pos : Nat) : Nat :=
  wordAt buf (pos + 2) 1

/-- The head of a group holds what it declares. -/
theorem decode_eq {buf : List UInt8} {pos : Nat} (hfits : pos + layout.size ≤ buf.length) :
    ∃ size, layout.decode {} buf pos = some size ∧
      size.blockLength.toNat = declaredLength buf pos ∧
      size.numInGroup.toNat = declaredCount buf pos := by
  have hsize : layout.size = 3 := rfl
  have hlength : readAt buf pos 2 = some ((buf.drop pos).take 2) := by
    rw [readAt, if_pos (by omega)]
  have hcount : readAt buf (pos + 2) 1 = some ((buf.drop (pos + 2)).take 1) := by
    rw [readAt, if_pos (by omega)]
  have hdecode : layout.decode {} buf pos = some
      { blockLength := .ofNat (declaredLength buf pos)
        numInGroup := .ofNat (declaredCount buf pos) } := by
    change (do
      let bs ← readAt buf (pos + 0) 2
      let bs' ← readAt buf (pos + 2) 1
      some ({ blockLength := .ofNat (leNat bs), numInGroup := .ofNat (leNat bs') } : GroupSize)) = _
    rw [Nat.add_zero, hlength, hcount]
    rfl
  refine ⟨_, hdecode, ?_, ?_⟩
  · have hlt := wordAt_lt buf pos 2
    simp only [UInt16.toNat_ofNat', declaredLength]
    omega
  · have hlt := wordAt_lt buf (pos + 2) 1
    simp only [UInt8.toNat_ofNat', declaredCount]
    omega

/-- Where the entries of a group end. -/
def declaredEnd (buf : List UInt8) (pos : Nat) : Nat :=
  pos + layout.size + declaredCount buf pos * declaredLength buf pos

/-- The head of a group and the known part of its last entry lie within the buffer. -/
def Fits (buf : List UInt8) (pos size : Nat) : Prop :=
  pos + layout.size ≤ buf.length ∧
    (declaredCount buf pos = 0 ∨
      pos + layout.size + (declaredCount buf pos - 1) * declaredLength buf pos + size ≤ buf.length)

instance (buf : List UInt8) (pos size : Nat) : Decidable (Fits buf pos size) :=
  inferInstanceAs (Decidable (_ ∧ _))

end GroupSize

/-- A repeating group of a message: the layout of its entries and where the message
keeps them. -/
structure Group (σ : Type) where
  Entry : Type
  /-- An entry that {lit}`resize` adds. -/
  blank : Entry
  layout : Layout Entry
  size_lt : layout.size < 2 ^ 16
  get : σ → List Entry
  set : σ → List Entry → σ

namespace Group

variable {σ : Type}

/-! ## Encoding -/

/-- The head of a group.  The cast keeps the low byte of the number of entries. -/
def groupSize (g : Group σ) (m : σ) : GroupSize where
  blockLength := .ofNat g.layout.size
  numInGroup := .ofNat (g.get m).length

def encodedLength (g : Group σ) (m : σ) : Nat :=
  GroupSize.layout.size + (g.get m).length * g.layout.size

/-- Write the head of a group and its entries, and go on behind them. -/
def encodeEntries (g : Group σ) (m : σ) (buf : List UInt8) (pos : Nat) : List UInt8 × Nat :=
  g.layout.encodeAll (g.get m) (GroupSize.layout.encode (g.groupSize m) buf pos)
    (pos + GroupSize.layout.size)

/-- Write the groups of a message one after the other. -/
def encode (m : σ) : List (Group σ) → List UInt8 → Nat → List UInt8 × Nat
  | [], buf, pos => (buf, pos)
  | g :: gs, buf, pos =>
      let (buf, pos) := g.encodeEntries m buf pos
      encode m gs buf pos

/-- The bytes of a group. -/
def bytes (g : Group σ) (m : σ) : List UInt8 :=
  GroupSize.layout.block (g.groupSize m) ++ (g.get m).flatMap g.layout.block

@[simp]
theorem length_bytes (g : Group σ) (m : σ) : (g.bytes m).length = g.encodedLength m := by
  rw [bytes, List.length_append, Layout.length_block, Layout.length_flatMap_block,
    encodedLength]

theorem encodeEntries_eq (g : Group σ) (m : σ) (front old : List UInt8) :
    g.encodeEntries m (front ++ old) front.length =
      (front ++ g.bytes m ++ old.drop (g.encodedLength m), (front ++ g.bytes m).length) := by
  rw [encodeEntries, Layout.encode_eq, ← Layout.length_append_block _ (g.groupSize m),
    Layout.encodeAll_eq]
  simp [bytes, encodedLength]

/-- The groups overwrite their bytes and nothing else, and stop behind them. -/
theorem encode_eq (m : σ) (gs : List (Group σ)) (front old : List UInt8) :
    encode m gs (front ++ old) front.length =
      (front ++ gs.flatMap (·.bytes m) ++ old.drop (gs.map (·.encodedLength m)).sum,
        (front ++ gs.flatMap (·.bytes m)).length) := by
  induction gs generalizing front old with
  | nil => simp [encode]
  | cons g gs ih =>
      rw [encode, encodeEntries_eq]
      dsimp only
      rw [ih]
      simp

theorem length_flatMap_bytes (m : σ) (gs : List (Group σ)) :
    (gs.flatMap (·.bytes m)).length = (gs.map (·.encodedLength m)).sum := by
  induction gs with
  | nil => rfl
  | cons g gs ih => simp [ih]

/-! ## Decoding -/

/-- Resize the entries a message holds.  The first ones keep their contents. -/
def resize (g : Group σ) (entries : List g.Entry) (count : Nat) : List g.Entry :=
  entries.take count ++ List.replicate (count - entries.length) g.blank

@[simp]
theorem length_resize (g : Group σ) (entries : List g.Entry) (count : Nat) :
    (g.resize entries count).length = count := by
  simp only [resize, List.length_append, List.length_take, List.length_replicate]
  omega

/-- Read the head of a group and its entries into old ones, and go on behind them. -/
def decodeEntries (g : Group σ) (old : List g.Entry) (buf : List UInt8) (pos : Nat) :
    Option (List g.Entry × Nat) := do
  let size ← GroupSize.layout.decode {} buf pos
  let pos := pos + GroupSize.layout.size
  let entries ← g.layout.decodeAll buf size.blockLength.toNat
    (g.resize old size.numInGroup.toNat) pos
  return (entries, pos + size.numInGroup.toNat * size.blockLength.toNat)

/-- Read the groups of a message one after the other. -/
def decode (buf : List UInt8) : List (Group σ) → σ → Nat → Option σ
  | [], m, _ => some m
  | g :: gs, m, pos => do
      let (entries, pos) ← g.decodeEntries (g.get m) buf pos
      decode buf gs (g.set m entries) pos

/-- Copy the groups of one message to another. -/
def restore (m : σ) : List (Group σ) → σ → σ
  | [], old => old
  | g :: gs, old => restore m gs (g.set old (g.get m))

/-- No group is decoded to more entries than a byte counts. -/
theorem length_of_decodeEntries {g : Group σ} {old entries : List g.Entry} {buf : List UInt8}
    {pos stop : Nat} (hdecode : g.decodeEntries old buf pos = some (entries, stop)) :
    entries.length ≤ 255 := by
  simp only [decodeEntries, Option.bind_eq_bind, Option.pure_def, Option.bind_eq_some_iff,
    Option.some.injEq, Prod.mk.injEq] at hdecode
  obtain ⟨size, -, decoded, hdecoded, rfl, -⟩ := hdecode
  rw [Layout.length_of_decodeAll hdecoded, length_resize]
  have hlt := size.numInGroup.toNat_lt
  omega

/-- A group is decoded exactly when what it declares lies within the buffer, and it has as
many entries as it declares. -/
theorem decodeEntries_iff (g : Group σ) (hsize : 0 < g.layout.size) (old : List g.Entry)
    (buf : List UInt8) (pos : Nat) :
    ((g.decodeEntries old buf pos).isSome ↔ GroupSize.Fits buf pos g.layout.size) ∧
      ∀ entries stop, g.decodeEntries old buf pos = some (entries, stop) →
        entries.length = GroupSize.declaredCount buf pos ∧
          stop = GroupSize.declaredEnd buf pos := by
  by_cases hhead : pos + GroupSize.layout.size ≤ buf.length
  · obtain ⟨size, hdecode, hlength, hcount⟩ := GroupSize.decode_eq hhead
    have hentries := g.layout.decodeAll_isSome_iff hsize buf (GroupSize.declaredLength buf pos)
      (g.resize old (GroupSize.declaredCount buf pos)) (pos + GroupSize.layout.size)
    have hnone : g.resize old (GroupSize.declaredCount buf pos) = [] ↔
        GroupSize.declaredCount buf pos = 0 := by
      rw [← List.length_eq_zero_iff, length_resize]
    rw [hnone, length_resize] at hentries
    have heq : g.decodeEntries old buf pos =
        (g.layout.decodeAll buf (GroupSize.declaredLength buf pos)
          (g.resize old (GroupSize.declaredCount buf pos)) (pos + GroupSize.layout.size)).map
          fun entries => (entries, GroupSize.declaredEnd buf pos) := by
      rw [decodeEntries, hdecode, Option.bind_eq_bind, Option.bind_some, hlength, hcount]
      dsimp only
      cases g.layout.decodeAll buf (GroupSize.declaredLength buf pos)
        (g.resize old (GroupSize.declaredCount buf pos)) (pos + GroupSize.layout.size) <;> rfl
    rw [heq, Option.isSome_map, hentries]
    refine ⟨by simp [GroupSize.Fits, hhead], ?_⟩
    intro entries stop hsome
    obtain ⟨decoded, hdecoded, heq⟩ := Option.map_eq_some_iff.mp hsome
    cases heq
    rw [Layout.length_of_decodeAll hdecoded, length_resize]
    exact ⟨rfl, rfl⟩
  · have hnone : g.decodeEntries old buf pos = none := by
      have hsome := GroupSize.layout.decode_isSome_iff (by decide) {} buf pos
      rw [decodeEntries, Option.not_isSome_iff_eq_none.mp (mt hsome.mp hhead)]
      rfl
    rw [hnone]
    simp [GroupSize.Fits, hhead]

/-- What the heads of groups declare lies within the buffer. -/
def FitAll (buf : List UInt8) : List (Group σ) → Nat → Prop
  | [], _ => True
  | g :: gs, pos =>
      GroupSize.Fits buf pos g.layout.size ∧ FitAll buf gs (GroupSize.declaredEnd buf pos)

/-- Groups are decoded exactly when what they declare lies within the buffer. -/
theorem decode_isSome_iff {gs : List (Group σ)} (hsize : ∀ g ∈ gs, 0 < g.layout.size)
    (buf : List UInt8) (m : σ) (pos : Nat) : (decode buf gs m pos).isSome ↔ FitAll buf gs pos := by
  induction gs generalizing m pos with
  | nil => simp [decode, FitAll]
  | cons g gs ih =>
      rw [List.forall_mem_cons] at hsize
      obtain ⟨hsome, hdeclared⟩ := g.decodeEntries_iff hsize.1 (g.get m) buf pos
      rw [decode, FitAll, ← hsome]
      cases hentries : g.decodeEntries (g.get m) buf pos with
      | none => simp
      | some decoded =>
          obtain ⟨entries, stop⟩ := decoded
          obtain ⟨-, rfl⟩ := hdeclared entries stop hentries
          simpa using ih hsize.2 (g.set m entries) (GroupSize.declaredEnd buf pos)

/-- A group is decoded from its bytes as long as a byte counts its entries. -/
theorem decodeEntries_bytes (g : Group σ) (m : σ) (hfits : (g.get m).length ≤ 255)
    (old : List g.Entry) (front back : List UInt8) :
    g.decodeEntries old (front ++ g.bytes m ++ back) front.length =
      some (g.get m, (front ++ g.bytes m).length) := by
  have hsize := GroupSize.layout.decode_block (g.groupSize m) {} front
    ((g.get m).flatMap g.layout.block ++ back)
  have hentries := g.layout.decodeAll_blocks (g.get m) (g.resize old (g.get m).length)
    (g.length_resize old _) (front ++ GroupSize.layout.block (g.groupSize m)) back
  have hcount : (g.groupSize m).numInGroup.toNat = (g.get m).length := by
    simp only [groupSize, UInt8.toNat_ofNat']
    omega
  have hstride : (g.groupSize m).blockLength.toNat = g.layout.size := by
    have hlt := g.size_lt
    simp only [groupSize, UInt16.toNat_ofNat']
    omega
  simp only [List.append_assoc, List.length_append, Layout.length_block] at hsize hentries
  rw [List.length_append, length_bytes, bytes]
  simp [decodeEntries, hsize, hcount, hstride, hentries, encodedLength, Nat.add_assoc]

/-- Groups whose entries are counted by a byte are decoded from their bytes. -/
theorem decode_bytes (m : σ) (gs : List (Group σ)) (hfits : ∀ g ∈ gs, (g.get m).length ≤ 255)
    (old : σ) (front back : List UInt8) :
    decode (front ++ gs.flatMap (·.bytes m) ++ back) gs old front.length =
      some (restore m gs old) := by
  induction gs generalizing old front with
  | nil => rfl
  | cons g gs ih =>
      obtain ⟨hfirst, hrest⟩ := List.forall_mem_cons.mp hfits
      have hshift : front ++ (g :: gs).flatMap (·.bytes m) ++ back =
          front ++ g.bytes m ++ (gs.flatMap (·.bytes m) ++ back) := by
        simp
      rw [decode, hshift, decodeEntries_bytes g m hfirst]
      simpa [restore] using ih hrest (g.set old (g.get m)) (front ++ g.bytes m)

end Group

/-! ## Messages with groups -/

/-- A message type of the market-data schema: its template, its root block and its
groups, which together hold the whole message. -/
structure GroupedFormat (σ : Type) where
  templateId : UInt16
  fields : List (RecordField σ)
  size : Nat
  tile : RecordField.Tile fields 0 size
  groups : List (Group σ)
  restores : ∀ m old, Group.restore m groups (RecordField.restore m fields old) = m

namespace GroupedFormat

variable {σ : Type}

/-- The header in front of every message of the type. -/
def header (f : GroupedFormat σ) : MessageHeader where
  blockLength := .ofNat f.size
  templateId := f.templateId
  schemaId := MessageHeader.mdp3SchemaId
  version := MessageHeader.mdp3Version

def encodedLength (f : GroupedFormat σ) (m : σ) : Nat :=
  MessageHeader.layout.size + f.size + (f.groups.map (·.encodedLength m)).sum

/-- Write a message into a buffer.  The number of bytes written comes with it. -/
def encode (f : GroupedFormat σ) (m : σ) (buffer : List UInt8) (offset : Nat) :
    List UInt8 × Nat :=
  let body := offset + MessageHeader.layout.size
  let buffer := MessageHeader.layout.encode f.header buffer offset
  let (buffer, stop) :=
    Group.encode m f.groups (RecordField.encode m body f.fields buffer) (body + f.size)
  (buffer, MessageHeader.layout.size + (stop - body))

/-- Read the root block and the groups behind a header, into a message with arbitrary
contents. -/
def decode (f : GroupedFormat σ) (old : σ) (buffer : List UInt8) (offset : Nat) : Option σ := do
  let body := offset + MessageHeader.layout.size
  let m ← RecordField.decode buffer body f.fields old
  Group.decode buffer f.groups m (body + f.size)

/-- A message is decoded exactly when its root block and what its groups declare lie within
the buffer. -/
theorem decode_isSome_iff (f : GroupedFormat σ) (hsize : ∀ g ∈ f.groups, 0 < g.layout.size)
    (old : σ) {buffer : List UInt8} {offset : Nat}
    (hroom : offset + MessageHeader.layout.size ≤ buffer.length) :
    (f.decode old buffer offset).isSome ↔
      offset + MessageHeader.layout.size + f.size ≤ buffer.length ∧
        Group.FitAll buffer f.groups (offset + MessageHeader.layout.size + f.size) := by
  have hroot := RecordField.decode_isSome_of_tile f.tile old
    (offset + MessageHeader.layout.size) buffer (by omega)
  rw [← hroot, decode]
  cases RecordField.decode buffer (offset + MessageHeader.layout.size) f.fields old with
  | none => simp
  | some m => simpa using Group.decode_isSome_iff hsize buffer m _

/-- Read the root block alone. -/
def decodeRoot (f : GroupedFormat σ) (old : σ) (buffer : List UInt8) (offset : Nat) : Option σ :=
  RecordField.decode buffer (offset + MessageHeader.layout.size) f.fields old

/-- The bytes of a message, encoded into a buffer of its own length. -/
def toBytes (f : GroupedFormat σ) (m : σ) : List UInt8 :=
  (f.encode m (List.replicate (f.encodedLength m) 0) 0).1

/-- The groups lie behind the root block. -/
theorem length_append_root (f : GroupedFormat σ) (m : σ) (front : List UInt8) :
    (front ++ f.fields.flatMap (·.bytes m)).length = front.length + f.size := by
  simp only [List.length_append, f.tile.length_flatMap m]
  omega

/-- Encoding overwrites the message and nothing else, and returns its length. -/
theorem encode_eq (f : GroupedFormat σ) (m : σ) (front old : List UInt8) :
    f.encode m (front ++ old) front.length =
      (front ++ (MessageHeader.layout.block f.header ++ f.fields.flatMap (·.bytes m) ++
        f.groups.flatMap (·.bytes m)) ++ old.drop (f.encodedLength m), f.encodedLength m) := by
  have hroot := RecordField.encode_of_tile f.tile m
    (front ++ MessageHeader.layout.block f.header).length
    (front ++ MessageHeader.layout.block f.header) (old.drop MessageHeader.layout.size) rfl
  simp only [encode, Layout.encode_eq, ← Layout.length_append_block _ f.header, hroot]
  rw [← f.length_append_root m, Group.encode_eq]
  have hlength := f.tile.length_flatMap m
  simp only [List.length_append, hlength, Group.length_flatMap_bytes, Layout.length_block]
  refine Prod.ext ?_ ?_
  · simp [encodedLength, Nat.add_assoc]
  · simp only [encodedLength]
    omega

theorem toBytes_eq (f : GroupedFormat σ) (m : σ) :
    f.toBytes m = MessageHeader.layout.block f.header ++ f.fields.flatMap (·.bytes m) ++
      f.groups.flatMap (·.bytes m) := by
  have hencode := f.encode_eq m [] (List.replicate (f.encodedLength m) 0)
  simpa [toBytes] using congrArg Prod.fst hencode

@[simp]
theorem length_toBytes (f : GroupedFormat σ) (m : σ) :
    (f.toBytes m).length = f.encodedLength m := by
  simp only [toBytes_eq, encodedLength, List.length_append, Layout.length_block,
    f.tile.length_flatMap m, Group.length_flatMap_bytes]
  omega

theorem encodedLength_pos (f : GroupedFormat σ) (m : σ) : 0 < f.encodedLength m := by
  have hheader : 0 < MessageHeader.layout.size := by decide
  simp only [encodedLength]
  omega

/-- A message whose entries are counted by bytes is decoded wherever its bytes lie. -/
theorem decode_append (f : GroupedFormat σ) (m old : σ)
    (hfits : ∀ g ∈ f.groups, (g.get m).length ≤ 255) (front back : List UInt8) :
    f.decode old (front ++ f.toBytes m ++ back) front.length = some m := by
  have hroot := RecordField.decode_of_tile f.tile m old
    (front ++ MessageHeader.layout.block f.header).length
    (front ++ MessageHeader.layout.block f.header) (f.groups.flatMap (·.bytes m) ++ back) rfl
  have hgroups := Group.decode_bytes m f.groups hfits (RecordField.restore m f.fields old)
    (front ++ MessageHeader.layout.block f.header ++ f.fields.flatMap (·.bytes m)) back
  have hshift : front ++ f.toBytes m ++ back =
      front ++ MessageHeader.layout.block f.header ++ f.fields.flatMap (·.bytes m) ++
        (f.groups.flatMap (·.bytes m) ++ back) := by
    simp [toBytes_eq]
  rw [f.restores, List.append_assoc _ (f.groups.flatMap _) back] at hgroups
  simp only [decode, hshift, ← Layout.length_append_block _ f.header, hroot,
    ← f.length_append_root m, Option.bind_eq_bind, Option.bind_some]
  exact hgroups

/-- The root block is decoded whatever the number of entries. -/
theorem decodeRoot_toBytes (f : GroupedFormat σ) (m old : σ) :
    f.decodeRoot old (f.toBytes m) 0 = some (RecordField.restore m f.fields old) := by
  have hroot := RecordField.decode_of_tile f.tile m old MessageHeader.layout.size
    (MessageHeader.layout.block f.header) (f.groups.flatMap (·.bytes m))
    (Layout.length_block _ _)
  rw [decodeRoot, toBytes_eq, Nat.zero_add, hroot]

/-- A format with one group decodes no more entries than a byte counts. -/
theorem length_of_decode_single {f : GroupedFormat σ} {g : Group σ} (hgroups : f.groups = [g])
    (hget : ∀ m entries, g.get (g.set m entries) = entries) {old m : σ} {buffer : List UInt8}
    {offset : Nat} (hdecode : f.decode old buffer offset = some m) : (g.get m).length ≤ 255 := by
  simp only [decode, hgroups, Group.decode, Option.bind_eq_bind, Option.bind_eq_some_iff,
    Option.some.injEq] at hdecode
  obtain ⟨root, -, ⟨entries, stop⟩, hentries, rfl⟩ := hdecode
  rw [hget]
  exact Group.length_of_decodeEntries hentries

theorem decodeTemplateId_append (f : GroupedFormat σ) (m : σ) (front back : List UInt8) :
    MessageHeader.decodeTemplateId (front ++ f.toBytes m ++ back) front.length =
      some f.templateId := by
  have hread := MessageHeader.decodeTemplateId_append f.header front
    (f.fields.flatMap (·.bytes m) ++ f.groups.flatMap (·.bytes m) ++ back)
  simpa [toBytes_eq, header] using hread

/-- The codec of a format is exact on every message whose entries are counted by bytes:
it writes the bytes of the message and no others, reports their number, and reads every
field and every entry back, whatever the message it reads into held before. -/
structure RoundTrips (f : GroupedFormat σ) : Prop where
  encode_eq : ∀ m buffer offset, offset + f.encodedLength m ≤ buffer.length →
    f.encode m buffer offset =
      (buffer.take offset ++ f.toBytes m ++ buffer.drop (offset + f.encodedLength m),
        f.encodedLength m)
  length_eq : ∀ m, (f.toBytes m).length = f.encodedLength m
  decode_encode : ∀ m old buffer offset, offset + f.encodedLength m ≤ buffer.length →
    (∀ g ∈ f.groups, (g.get m).length ≤ 255) →
    f.decode old (f.encode m buffer offset).1 offset = some m

theorem encode_take_drop (f : GroupedFormat σ) (m : σ) (buffer : List UInt8) (offset : Nat)
    (hfits : offset + f.encodedLength m ≤ buffer.length) :
    f.encode m buffer offset =
      (buffer.take offset ++ f.toBytes m ++ buffer.drop (offset + f.encodedLength m),
        f.encodedLength m) := by
  have hfront : (buffer.take offset).length = offset := by
    rw [List.length_take]
    omega
  have hwritten := f.encode_eq m (buffer.take offset) (buffer.drop offset)
  rwa [List.take_append_drop, hfront, List.drop_drop, ← toBytes_eq] at hwritten

theorem roundTrips (f : GroupedFormat σ) : f.RoundTrips where
  encode_eq := f.encode_take_drop
  length_eq := f.length_toBytes
  decode_encode := by
    intro m old buffer offset hfits hcounted
    have hfront : (buffer.take offset).length = offset := by
      rw [List.length_take]
      omega
    have hdecode := f.decode_append m old hcounted (buffer.take offset)
      (buffer.drop (offset + f.encodedLength m))
    rw [f.encode_take_drop m buffer offset hfits]
    rwa [hfront] at hdecode

end GroupedFormat

end SimCme
