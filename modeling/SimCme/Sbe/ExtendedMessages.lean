import SimCme.Sbe.Mdp3Messages

/-!
# Messages with unknown fields

A later version of a schema adds fields behind the known ones: the header of a message then
declares a longer root block, and the head of a group declares longer entries.

Main results:

- Theorem {lit}`WireMessage.decode_append`: a message without unknown fields in its root block
  is decoded to its known fields, whatever its entries carry.
- Theorem {lit}`WireMessage.length_eq_knownLength_iff`: a message is as long as its known
  fields exactly when it carries no others.
-/

open Library

namespace SimCme

/-! ## Groups -/

/-- A group on the wire: entries with unknown bytes behind the known ones, as many in each. -/
structure WireGroup {α : Type} (l : Layout α) where
  extra : Nat := 0
  entries : List (α × Vector UInt8 extra) := []
  counted : entries.length ≤ 255 := by decide
  size_lt : l.size + extra < 2 ^ 16 := by decide

namespace WireGroup

variable {α : Type} {l : Layout α}

/-- The head of the group declares the entries with their unknown bytes. -/
def groupSize (w : WireGroup l) : GroupSize where
  blockLength := .ofNat (l.size + w.extra)
  numInGroup := .ofNat w.entries.length

def bytes (w : WireGroup l) : List UInt8 :=
  GroupSize.layout.block w.groupSize ++ w.entries.flatMap fun e => l.block e.1 ++ e.2.toList

/-- The known parts of the entries. -/
def known (w : WireGroup l) : List α :=
  w.entries.map Prod.fst

/-- The length of the group without unknown bytes. -/
def knownLength (w : WireGroup l) : Nat :=
  GroupSize.layout.size + w.entries.length * l.size

/-- No entry carries unknown bytes. -/
def Plain (w : WireGroup l) : Prop :=
  w.entries = [] ∨ w.extra = 0

@[simp]
theorem length_bytes (w : WireGroup l) :
    w.bytes.length = w.knownLength + w.entries.length * w.extra := by
  have hentries : (w.entries.flatMap fun e => l.block e.1 ++ e.2.toList).length =
      w.entries.length * (l.size + w.extra) := by
    induction w.entries with
    | nil => simp
    | cons e es ih =>
        rw [List.flatMap_cons, List.length_append, ih, List.length_append, Layout.length_block,
          Vector.length_toList, List.length_cons, Nat.succ_mul]
        omega
  rw [bytes, List.length_append, Layout.length_block, hentries, knownLength, Nat.mul_add]
  omega

theorem plain_iff (w : WireGroup l) : w.Plain ↔ w.entries.length * w.extra = 0 := by
  rw [Plain, Nat.mul_eq_zero, List.length_eq_zero_iff]

end WireGroup

/-- A group is decoded at the length its head declares. -/
theorem Group.decodeEntries_wire {σ : Type} (g : Group σ) (w : WireGroup g.layout)
    (old : List g.Entry) (front back : List UInt8) :
    g.decodeEntries old (front ++ w.bytes ++ back) front.length =
      some (w.known, (front ++ w.bytes).length) := by
  have hsize := GroupSize.layout.decode_block w.groupSize {} front
    ((w.entries.flatMap fun e => g.layout.block e.1 ++ e.2.toList) ++ back)
  have hentries := g.layout.decodeAll_spaced w.entries (g.resize old w.entries.length)
    (g.length_resize old _) (front ++ GroupSize.layout.block w.groupSize) back
  have hcount : w.groupSize.numInGroup.toNat = w.entries.length := by
    have hcounted := w.counted
    simp only [WireGroup.groupSize, UInt8.toNat_ofNat']
    omega
  have hstride : w.groupSize.blockLength.toNat = g.layout.size + w.extra := by
    have hlt := w.size_lt
    simp only [WireGroup.groupSize, UInt16.toNat_ofNat']
    omega
  have hlength : (front ++ w.bytes).length =
      front.length + GroupSize.layout.size + w.entries.length * (g.layout.size + w.extra) := by
    rw [List.length_append, WireGroup.length_bytes, WireGroup.knownLength, Nat.mul_add]
    omega
  simp only [List.append_assoc, List.length_append, Layout.length_block] at hsize hentries
  rw [hlength, WireGroup.bytes]
  simp [decodeEntries, hsize, hcount, hstride, hentries, WireGroup.known]

/-- Groups on the wire, one for each group of a message. -/
def WireGroups {σ : Type} : List (Group σ) → Type
  | [] => Unit
  | g :: gs => WireGroup g.layout × WireGroups gs

namespace WireGroups

variable {σ : Type}

def bytes : (gs : List (Group σ)) → WireGroups gs → List UInt8
  | [], _ => []
  | _ :: gs, (w, ws) => w.bytes ++ bytes gs ws

/-- Put the known parts of the entries into a message. -/
def known : (gs : List (Group σ)) → WireGroups gs → σ → σ
  | [], _, m => m
  | g :: gs, (w, ws), m => known gs ws (g.set m w.known)

def knownLength : (gs : List (Group σ)) → WireGroups gs → Nat
  | [], _ => 0
  | _ :: gs, (w, ws) => w.knownLength + knownLength gs ws

def Plain : (gs : List (Group σ)) → WireGroups gs → Prop
  | [], _ => True
  | _ :: gs, (w, ws) => w.Plain ∧ Plain gs ws

theorem knownLength_le (gs : List (Group σ)) (ws : WireGroups gs) :
    knownLength gs ws ≤ (bytes gs ws).length := by
  induction gs with
  | nil => exact Nat.zero_le _
  | cons g gs ih =>
      obtain ⟨w, ws⟩ := ws
      have hrest := ih ws
      rw [knownLength, bytes, List.length_append, WireGroup.length_bytes]
      omega

theorem length_eq_knownLength_iff (gs : List (Group σ)) (ws : WireGroups gs) :
    (bytes gs ws).length = knownLength gs ws ↔ Plain gs ws := by
  induction gs with
  | nil => exact iff_of_true rfl trivial
  | cons g gs ih =>
      obtain ⟨w, ws⟩ := ws
      have hle := knownLength_le gs ws
      rw [Plain, w.plain_iff, ← ih ws, knownLength, bytes, List.length_append,
        WireGroup.length_bytes]
      omega

/-- Groups are decoded to the known parts of their entries. -/
theorem decode_append (gs : List (Group σ)) (ws : WireGroups gs) (m : σ)
    (front back : List UInt8) :
    Group.decode (front ++ bytes gs ws ++ back) gs m front.length = some (known gs ws m) := by
  induction gs generalizing m front with
  | nil => rfl
  | cons g gs ih =>
      obtain ⟨w, ws⟩ := ws
      have hshift : front ++ bytes (g :: gs) (w, ws) ++ back =
          front ++ w.bytes ++ (bytes gs ws ++ back) := by
        simp [bytes]
      rw [Group.decode, hshift, g.decodeEntries_wire w]
      simpa [known] using ih ws (g.set m w.known) (front ++ w.bytes)

end WireGroups

/-! ## Messages -/

/-- A message of a format on the wire, of any version of the schema.  Unknown bytes lie
behind the known fields of the root block and behind those of the entries. -/
structure WireMessage {σ : Type} (f : GroupedFormat σ) where
  schemaId : UInt16 := MessageHeader.mdp3SchemaId
  version : UInt16 := MessageHeader.mdp3Version
  /-- The message whose root block is known. -/
  root : σ
  rootTail : List UInt8 := []
  root_lt : f.size + rootTail.length < 2 ^ 16 := by decide
  groups : WireGroups f.groups

namespace WireMessage

variable {σ : Type} {f : GroupedFormat σ}

/-- The header declares the root block with its unknown bytes. -/
def header (w : WireMessage f) : MessageHeader where
  blockLength := .ofNat (f.size + w.rootTail.length)
  templateId := f.templateId
  schemaId := w.schemaId
  version := w.version

def bytes (w : WireMessage f) : List UInt8 :=
  MessageHeader.layout.block w.header ++ f.fields.flatMap (·.bytes w.root) ++ w.rootTail ++
    WireGroups.bytes f.groups w.groups

/-- The message that a decoder knows, which it puts into a blank one. -/
def known (w : WireMessage f) (blank : σ) : σ :=
  WireGroups.known f.groups w.groups (RecordField.restore w.root f.fields blank)

/-- The length of the message without unknown bytes. -/
def knownLength (w : WireMessage f) : Nat :=
  MessageHeader.layout.size + f.size + WireGroups.knownLength f.groups w.groups

/-- The message carries no unknown bytes. -/
def Plain (w : WireMessage f) : Prop :=
  w.rootTail = [] ∧ WireGroups.Plain f.groups w.groups

theorem length_bytes (w : WireMessage f) :
    w.bytes.length = MessageHeader.layout.size + f.size + w.rootTail.length +
      (WireGroups.bytes f.groups w.groups).length := by
  simp only [bytes, List.length_append, Layout.length_block, f.tile.length_flatMap w.root]
  omega

/-- A message is as long as its known fields exactly when it carries no others. -/
theorem length_eq_knownLength_iff (w : WireMessage f) :
    w.bytes.length = w.knownLength ↔ w.Plain := by
  have hle := WireGroups.knownLength_le f.groups w.groups
  rw [Plain, ← WireGroups.length_eq_knownLength_iff, ← List.length_eq_zero_iff, length_bytes,
    knownLength]
  omega

/-- There is a header in front. -/
theorem header_le_length (w : WireMessage f) : MessageHeader.layout.size ≤ w.bytes.length := by
  rw [length_bytes]
  omega

theorem decodeTemplateId_append (w : WireMessage f) (front back : List UInt8) :
    MessageHeader.decodeTemplateId (front ++ w.bytes ++ back) front.length =
      some f.templateId := by
  have hread := MessageHeader.decodeTemplateId_append w.header front
    (f.fields.flatMap (·.bytes w.root) ++ w.rootTail ++ WireGroups.bytes f.groups w.groups ++ back)
  simpa [bytes, header] using hread

theorem decodeBlockLength_append (w : WireMessage f) (front back : List UInt8) :
    MessageHeader.decodeBlockLength (front ++ w.bytes ++ back) front.length =
      some (.ofNat (f.size + w.rootTail.length)) := by
  have hread := MessageHeader.decodeBlockLength_append w.header front
    (f.fields.flatMap (·.bytes w.root) ++ w.rootTail ++ WireGroups.bytes f.groups w.groups ++ back)
  simpa [bytes, header] using hread

/-- A message without unknown fields in its root block is decoded to its known fields,
whatever its entries carry. -/
theorem decode_append (w : WireMessage f) (hroot : w.rootTail = []) (blank : σ)
    (front back : List UInt8) :
    f.decode blank (front ++ w.bytes ++ back) front.length = some (w.known blank) := by
  have hfields := RecordField.decode_of_tile f.tile w.root blank
    (front ++ MessageHeader.layout.block w.header).length
    (front ++ MessageHeader.layout.block w.header) (WireGroups.bytes f.groups w.groups ++ back) rfl
  have hgroups := WireGroups.decode_append f.groups w.groups
    (RecordField.restore w.root f.fields blank)
    (front ++ MessageHeader.layout.block w.header ++ f.fields.flatMap (·.bytes w.root)) back
  have hshift : front ++ w.bytes ++ back =
      front ++ MessageHeader.layout.block w.header ++ f.fields.flatMap (·.bytes w.root) ++
        (WireGroups.bytes f.groups w.groups ++ back) := by
    simp [bytes, hroot]
  rw [List.append_assoc _ (WireGroups.bytes f.groups w.groups) back] at hgroups
  simp only [GroupedFormat.decode, hshift, ← Layout.length_append_block _ w.header, hfields,
    ← f.length_append_root w.root, Option.bind_eq_bind, Option.bind_some]
  exact hgroups

/-- A decoder sees the known fields of a message, and that the message ends behind them,
exactly when the message carries no unknown bytes. -/
theorem decode_length_iff (w : WireMessage f) {blank : σ}
    (hlength : f.encodedLength (w.known blank) = w.knownLength) (front back : List UInt8) :
    f.decode blank (front ++ w.bytes ++ back) front.length = some (w.known blank) ∧
      f.encodedLength (w.known blank) = w.bytes.length ↔ w.Plain := by
  rw [← length_eq_knownLength_iff, hlength]
  constructor
  · rintro ⟨-, hsame⟩
    exact hsame.symm
  · intro hsame
    have hplain := w.length_eq_knownLength_iff.mp hsame
    exact ⟨w.decode_append hplain.1 blank front back, hsame.symm⟩

end WireMessage

/-! ## Book and trade messages -/

theorem MDIncrementalRefreshBook46.encodedLength_known
    (w : WireMessage MDIncrementalRefreshBook46.format) :
    format.encodedLength (w.known {}) = w.knownLength := by
  obtain ⟨schemaId, version, root, rootTail, root_lt, entries, ⟨⟩⟩ := w
  have hcount : (entriesGroup.get (entriesGroup.set root entries.known)).length =
      entries.entries.length :=
    List.length_map _
  simp only [GroupedFormat.encodedLength, WireMessage.knownLength]
  exact congrArg (fun n => 17 + (3 + n * 27 + 0)) hcount

theorem MDIncrementalRefreshTradeSummary48.encodedLength_known
    (w : WireMessage MDIncrementalRefreshTradeSummary48.format) :
    format.encodedLength (w.known {}) = w.knownLength := by
  obtain ⟨schemaId, version, root, rootTail, root_lt, mdEntries, orderIDEntries, ⟨⟩⟩ := w
  have hmd : mdEntries.known.length = mdEntries.entries.length := List.length_map _
  have horders : orderIDEntries.known.length = orderIDEntries.entries.length := List.length_map _
  simp only [GroupedFormat.encodedLength, WireMessage.knownLength]
  exact congrArg₂ (fun n k => 17 + (3 + n * 26 + (3 + k * 12 + 0))) hmd horders

end SimCme
