import Mathlib.Algebra.Order.Ring.Nat

/-!
# Fixed layouts of records in byte buffers

A layout lists the fields of a record with their offsets in a block of bytes.
Encoding copies each field to its place; decoding reads the fields back into a
record that may hold anything before.  A read that would pass the end of the
buffer has no result.

Main results:

- Theorem {lit}`Layout.encode_eq`: encoding overwrites exactly the block.
- Theorem {lit}`Layout.decode_block`: a block is decoded to the record it was made
  from, whatever the record held before.
- Theorem {lit}`Layout.decode_isSome`: a record is decoded exactly when its block
  lies within the buffer.
- Theorem {lit}`Layout.block_of_decode`: what is decoded from a block encodes to that
  block again.
- Theorem {lit}`Layout.decodeAll_blocks`: a sequence of records is decoded from its
  blocks.
- Theorem {lit}`Layout.decodeAll_isSome_iff`: records a stride apart are decoded exactly when
  the block of the last one lies within the buffer.
-/

namespace Library

/-! ## Little-endian words -/

/-- The lowest bytes of a number, least significant first. -/
def leBytes : Nat → Nat → List UInt8
  | 0, _ => []
  | width + 1, n => UInt8.ofNat n :: leBytes width (n / 256)

/-- The number that little-endian bytes spell. -/
def leNat : List UInt8 → Nat
  | [] => 0
  | b :: bs => b.toNat + 256 * leNat bs

@[simp]
theorem length_leBytes (width n : Nat) : (leBytes width n).length = width := by
  induction width generalizing n with
  | zero => rfl
  | succ width ih => simp [leBytes, ih]

/-- A number that fits the width is read back from its bytes. -/
theorem leNat_leBytes {width n : Nat} (hn : n < 256 ^ width) :
    leNat (leBytes width n) = n := by
  induction width generalizing n with
  | zero =>
      simp only [leBytes, leNat]
      omega
  | succ width ih =>
      have hdiv : n / 256 < 256 ^ width := by
        rw [Nat.div_lt_iff_lt_mul (by decide), ← Nat.pow_succ]
        exact hn
      simp only [leBytes, leNat, ih hdiv, UInt8.toNat_ofNat']
      omega

theorem leNat_lt (bs : List UInt8) : leNat bs < 256 ^ bs.length := by
  induction bs with
  | nil => simp [leNat]
  | cons b bs ih =>
      have hb := b.toNat_lt
      rw [leNat, List.length_cons, Nat.pow_succ]
      omega

/-- Bytes are written back from the number they spell. -/
theorem leBytes_leNat (bs : List UInt8) : leBytes bs.length (leNat bs) = bs := by
  induction bs with
  | nil => rfl
  | cons b bs ih =>
      have hb := b.toNat_lt
      have hdiv : (b.toNat + 256 * leNat bs) / 256 = leNat bs := by omega
      have hlow : UInt8.ofNat (b.toNat + 256 * leNat bs) = b := by
        apply UInt8.toNat_inj.mp
        rw [UInt8.toNat_ofNat']
        omega
      rw [List.length_cons, leBytes, leNat, hdiv, ih, hlow]

/-! ## Reading and writing -/

/-- Copy bytes out of a buffer; a read past the end has no result. -/
def readAt (buf : List UInt8) (offset width : Nat) : Option (List UInt8) :=
  if offset + width ≤ buf.length then some ((buf.drop offset).take width) else none

/-- The number that the bytes at an offset spell. -/
def wordAt (buf : List UInt8) (offset width : Nat) : Nat :=
  leNat ((buf.drop offset).take width)

/-- Copy bytes into a buffer. -/
def writeAt (buf : List UInt8) (offset : Nat) (bytes : List UInt8) : List UInt8 :=
  buf.take offset ++ bytes ++ buf.drop (offset + bytes.length)

theorem readAt_append (front bytes back : List UInt8) :
    readAt (front ++ bytes ++ back) front.length bytes.length = some bytes := by
  simp [readAt]

@[simp]
theorem readAt_isSome (buf : List UInt8) (offset width : Nat) :
    (readAt buf offset width).isSome ↔ offset + width ≤ buf.length := by
  by_cases hfits : offset + width ≤ buf.length <;> simp [readAt, hfits]

theorem wordAt_lt (buf : List UInt8) (offset width : Nat) : wordAt buf offset width < 256 ^ width :=
  Nat.lt_of_lt_of_le (leNat_lt _) (Nat.pow_le_pow_right (by decide) (List.length_take_le _ _))

theorem writeAt_append (front old bytes : List UInt8) :
    writeAt (front ++ old) front.length bytes =
      front ++ bytes ++ old.drop bytes.length := by
  simp [writeAt]

/-! ## Values on the wire -/

/-- A type of values with a representation of fixed width: the values stand for the
byte strings of that width, one for one. -/
structure Wire (α : Type) where
  width : Nat
  toBytes : α → List UInt8
  ofBytes : List UInt8 → α
  length_toBytes : ∀ a, (toBytes a).length = width
  ofBytes_toBytes : ∀ a, ofBytes (toBytes a) = a
  toBytes_ofBytes : ∀ bs, bs.length = width → toBytes (ofBytes bs) = bs

namespace Wire

attribute [simp] length_toBytes ofBytes_toBytes

/-- Little-endian representation of a type that stands for the numbers below
{lit}`256 ^ width`. -/
def littleEndian {α : Type} (width : Nat) (toNat : α → Nat) (ofNat : Nat → α)
    (hlt : ∀ a, toNat a < 256 ^ width) (hinv : ∀ a, ofNat (toNat a) = a)
    (hfits : ∀ n < 256 ^ width, toNat (ofNat n) = n) :
    Wire α where
  width := width
  toBytes a := leBytes width (toNat a)
  ofBytes bs := ofNat (leNat bs)
  length_toBytes _ := length_leBytes _ _
  ofBytes_toBytes a := by rw [leNat_leBytes (hlt a), hinv]
  toBytes_ofBytes bs hbs := by
    subst hbs
    rw [hfits _ (leNat_lt bs), leBytes_leNat]

def uint8 : Wire UInt8 :=
  littleEndian 1 UInt8.toNat UInt8.ofNat (fun a => a.toNat_lt) (fun _ => UInt8.ofNat_toNat)
    fun n hn => by rw [UInt8.toNat_ofNat']; omega

def uint16 : Wire UInt16 :=
  littleEndian 2 UInt16.toNat UInt16.ofNat (fun a => a.toNat_lt) (fun _ => UInt16.ofNat_toNat)
    fun n hn => by rw [UInt16.toNat_ofNat']; omega

def uint32 : Wire UInt32 :=
  littleEndian 4 UInt32.toNat UInt32.ofNat (fun a => a.toNat_lt) (fun _ => UInt32.ofNat_toNat)
    fun n hn => by rw [UInt32.toNat_ofNat']; omega

def uint64 : Wire UInt64 :=
  littleEndian 8 UInt64.toNat UInt64.ofNat (fun a => a.toNat_lt) (fun _ => UInt64.ofNat_toNat)
    fun n hn => by rw [UInt64.toNat_ofNat']; omega

def int16 : Wire Int16 :=
  littleEndian 2 (fun a => a.toUInt16.toNat) (fun n => (UInt16.ofNat n).toInt16)
    (fun a => a.toUInt16.toNat_lt) (fun a => by simp)
    fun n hn => by rw [UInt16.toUInt16_toInt16, UInt16.toNat_ofNat']; omega

def int32 : Wire Int32 :=
  littleEndian 4 (fun a => a.toUInt32.toNat) (fun n => (UInt32.ofNat n).toInt32)
    (fun a => a.toUInt32.toNat_lt) (fun a => by simp)
    fun n hn => by rw [UInt32.toUInt32_toInt32, UInt32.toNat_ofNat']; omega

def int64 : Wire Int64 :=
  littleEndian 8 (fun a => a.toUInt64.toNat) (fun n => (UInt64.ofNat n).toInt64)
    (fun a => a.toUInt64.toNat_lt) (fun a => by simp)
    fun n hn => by rw [UInt64.toUInt64_toInt64, UInt64.toNat_ofNat']; omega

/-- A character array. -/
def bytes (width : Nat) : Wire (Vector UInt8 width) where
  width := width
  toBytes v := v.toList
  ofBytes bs := Vector.ofFn fun i => bs.getD i 0
  length_toBytes v := by simp
  ofBytes_toBytes v := by
    ext i hi
    simp
  toBytes_ofBytes bs hbs := by
    apply List.ext_getElem
    · simp [hbs]
    · intro i hi hi'
      simp [hi']

end Wire

/-! ## Layouts -/

/-- A field of a record: where its bytes lie and how it is read and set. -/
structure RecordField (σ : Type) where
  Value : Type
  offset : Nat
  wire : Wire Value
  get : σ → Value
  set : σ → Value → σ

/-- A field at an offset of the block. -/
def field {σ α : Type} (offset : Nat) (wire : Wire α) (get : σ → α)
    (set : σ → α → σ) : RecordField σ :=
  ⟨α, offset, wire, get, set⟩

namespace RecordField

variable {σ : Type}

/-- The bytes of the field of a record. -/
def bytes (f : RecordField σ) (m : σ) : List UInt8 :=
  f.wire.toBytes (f.get m)

@[simp]
theorem length_bytes (f : RecordField σ) (m : σ) : (f.bytes m).length = f.wire.width :=
  f.wire.length_toBytes _

/-- The fields lie one after the other from one offset to another. -/
def Tile : List (RecordField σ) → Nat → Nat → Prop
  | [], start, stop => start = stop
  | f :: fs, start, stop => f.offset = start ∧ Tile fs (start + f.wire.width) stop

instance decidableTile : ∀ (fs : List (RecordField σ)) (start stop : Nat),
    Decidable (Tile fs start stop)
  | [], start, stop => inferInstanceAs (Decidable (start = stop))
  | f :: fs, start, stop =>
      have := decidableTile fs (start + f.wire.width) stop
      inferInstanceAs (Decidable (f.offset = start ∧ Tile fs (start + f.wire.width) stop))

/-- Copy every field of a record into a buffer. -/
def encode (m : σ) (offset : Nat) : List (RecordField σ) → List UInt8 → List UInt8
  | [], buf => buf
  | f :: fs, buf => encode m offset fs (writeAt buf (offset + f.offset) (f.bytes m))

/-- Read every field from a buffer into a record. -/
def decode (buf : List UInt8) (offset : Nat) : List (RecordField σ) → σ → Option σ
  | [], m => some m
  | f :: fs, m => do
      let bs ← readAt buf (offset + f.offset) f.wire.width
      decode buf offset fs (f.set m (f.wire.ofBytes bs))

/-- Copy the fields of one record to another. -/
def restore (m : σ) : List (RecordField σ) → σ → σ
  | [], old => old
  | f :: fs, old => restore m fs (f.set old (f.get m))

theorem Tile.le {fs : List (RecordField σ)} {start stop : Nat} (htile : Tile fs start stop) :
    start ≤ stop := by
  induction fs generalizing start with
  | nil => exact Nat.le_of_eq htile
  | cons f fs ih =>
      have hrest := ih htile.2
      omega

theorem Tile.length_flatMap {fs : List (RecordField σ)} {start stop : Nat}
    (htile : Tile fs start stop) (m : σ) :
    (fs.flatMap (·.bytes m)).length = stop - start := by
  induction fs generalizing start with
  | nil =>
      have hstart : start = stop := htile
      simp [hstart]
  | cons f fs ih =>
      have hle := htile.2.le
      simp only [List.flatMap_cons, List.length_append, length_bytes, ih htile.2]
      omega

/-- Fields that tile an interval overwrite exactly that interval. -/
theorem encode_of_tile {fs : List (RecordField σ)} {start stop : Nat}
    (htile : Tile fs start stop) (m : σ) (offset : Nat) (front old : List UInt8)
    (hfront : front.length = offset + start) :
    encode m offset fs (front ++ old) =
      front ++ fs.flatMap (·.bytes m) ++ old.drop (stop - start) := by
  induction fs generalizing start front old with
  | nil =>
      have hstart : start = stop := htile
      simp [encode, hstart]
  | cons f fs ih =>
      obtain ⟨hoffset, hrest⟩ := htile
      have hle := hrest.le
      rw [encode, hoffset, ← hfront, writeAt_append,
        ih hrest (front ++ f.bytes m) _ (by simp; omega)]
      simp only [List.drop_drop, length_bytes, List.flatMap_cons, List.append_assoc]
      congr 4
      omega

/-- A field is found at its offset in what the fields of a record write. -/
theorem readAt_of_tile {fs : List (RecordField σ)} {start stop : Nat}
    (htile : Tile fs start stop) {f : RecordField σ} (hf : f ∈ fs) (m : σ) (offset : Nat)
    (front back : List UInt8) (hfront : front.length = offset + start) :
    readAt (front ++ fs.flatMap (·.bytes m) ++ back) (offset + f.offset) f.wire.width =
      some (f.bytes m) := by
  induction fs generalizing start front with
  | nil => simp at hf
  | cons g fs ih =>
      obtain ⟨hoffset, hrest⟩ := htile
      rcases List.mem_cons.mp hf with rfl | hf
      · have h := readAt_append front (f.bytes m) (fs.flatMap (·.bytes m) ++ back)
        rw [length_bytes, hfront, ← hoffset] at h
        simpa using h
      · simpa using ih hrest hf (front ++ g.bytes m) (by simp; omega)

/-- Fields that tile an interval read back what lies there. -/
theorem decode_of_tile {fs : List (RecordField σ)} {start stop : Nat}
    (htile : Tile fs start stop) (m old : σ) (offset : Nat) (front back : List UInt8)
    (hfront : front.length = offset + start) :
    decode (front ++ fs.flatMap (·.bytes m) ++ back) offset fs old =
      some (restore m fs old) := by
  induction fs generalizing start front old with
  | nil => rfl
  | cons f fs ih =>
      have hread := readAt_of_tile htile List.mem_cons_self m offset front back hfront
      have hshift : front ++ (f :: fs).flatMap (·.bytes m) ++ back =
          front ++ f.bytes m ++ fs.flatMap (·.bytes m) ++ back := by
        simp
      rw [decode, hread, hshift]
      simpa [restore, bytes] using
        ih htile.2 (f.set old (f.get m)) (front ++ f.bytes m) (by simp; omega)

/-- Fields that tile an interval are all read exactly when it lies within the
buffer. -/
theorem decode_isSome_of_tile {fs : List (RecordField σ)} {start stop : Nat}
    (htile : Tile fs start stop) (old : σ) (offset : Nat) (buf : List UInt8)
    (hstart : offset + start ≤ buf.length) :
    (decode buf offset fs old).isSome ↔ offset + stop ≤ buf.length := by
  induction fs generalizing start old with
  | nil =>
      have hstop : start = stop := htile
      simp only [decode, Option.isSome_some, true_iff]
      omega
  | cons f fs ih =>
      obtain ⟨hoffset, hrest⟩ := htile
      have hle := hrest.le
      by_cases hfits : offset + start + f.wire.width ≤ buf.length
      · have hread : readAt buf (offset + f.offset) f.wire.width =
            some ((buf.drop (offset + start)).take f.wire.width) := by
          simp [readAt, hoffset, hfits]
        rw [decode, hread]
        exact ih hrest _ (by omega)
      · have hread : readAt buf (offset + f.offset) f.wire.width = none := by
          simp [readAt, hoffset]
          omega
        rw [decode, hread]
        simp
        omega

/-- Fields that take up room are read within the buffer only. -/
theorem le_of_decode {fs : List (RecordField σ)} {start stop : Nat} (htile : Tile fs start stop)
    {old m : σ} {offset : Nat} {buf : List UInt8} (hdecode : decode buf offset fs old = some m) :
    start = stop ∨ offset + stop ≤ buf.length := by
  induction fs generalizing start old with
  | nil => exact Or.inl htile
  | cons f fs ih =>
      obtain ⟨hoffset, hrest⟩ := htile
      rw [decode, Option.bind_eq_bind, Option.bind_eq_some_iff] at hdecode
      obtain ⟨bs, hread, hdecode⟩ := hdecode
      have hfits : offset + f.offset + f.wire.width ≤ buf.length := by
        rw [← readAt_isSome, hread]
        rfl
      right
      rcases ih hrest hdecode with hstop | hle
      · omega
      · exact hle

/-! ### The values of the fields -/

/-- A value for each field. -/
def Values : List (RecordField σ) → Type
  | [] => Unit
  | f :: fs => f.Value × Values fs

/-- Set every field. -/
def assign : (fs : List (RecordField σ)) → Values fs → σ → σ
  | [], _, m => m
  | f :: fs, vs, m => assign fs vs.2 (f.set m vs.1)

/-- Get every field. -/
def values : (fs : List (RecordField σ)) → σ → Values fs
  | [], _ => ()
  | f :: fs, m => (f.get m, values fs m)

/-- The bytes of the values, one after the other. -/
def valueBytes : (fs : List (RecordField σ)) → Values fs → List UInt8
  | [], _ => []
  | f :: fs, vs => f.wire.toBytes vs.1 ++ valueBytes fs vs.2

theorem valueBytes_cons (f : RecordField σ) (fs : List (RecordField σ)) (v : f.Value)
    (vs : Values fs) :
    valueBytes (f :: fs) (v, vs) = f.wire.toBytes v ++ valueBytes fs vs :=
  rfl

theorem restore_eq_assign (m : σ) (fs : List (RecordField σ)) (old : σ) :
    restore m fs old = assign fs (values fs m) old := by
  induction fs generalizing old with
  | nil => rfl
  | cons f fs ih => exact ih (f.set old (f.get m))

theorem flatMap_bytes (fs : List (RecordField σ)) (m : σ) :
    fs.flatMap (·.bytes m) = valueBytes fs (values fs m) := by
  induction fs with
  | nil => rfl
  | cons f fs ih => rw [List.flatMap_cons, ih, values, valueBytes_cons, bytes]

/-- Fields that tile an interval of a buffer read the values whose bytes lie there. -/
theorem decode_eq_assign {fs : List (RecordField σ)} {start stop : Nat}
    (htile : Tile fs start stop) (offset : Nat) (buf : List UInt8)
    (hfits : offset + stop ≤ buf.length) :
    ∃ vs, (∀ old, decode buf offset fs old = some (assign fs vs old)) ∧
      valueBytes fs vs = (buf.drop (offset + start)).take (stop - start) := by
  induction fs generalizing start with
  | nil =>
      have hstop : start = stop := htile
      exact ⟨(), fun _ => rfl, by simp [valueBytes, hstop]⟩
  | cons f fs ih =>
      obtain ⟨hoffset, hrest⟩ := htile
      have hle := hrest.le
      obtain ⟨vs, hdecode, hbytes⟩ := ih hrest
      have hread : readAt buf (offset + f.offset) f.wire.width =
          some ((buf.drop (offset + start)).take f.wire.width) := by
        rw [readAt, hoffset, if_pos (by omega)]
      have hfirst : ((buf.drop (offset + start)).take f.wire.width).length = f.wire.width := by
        rw [List.length_take, List.length_drop]
        omega
      refine ⟨(f.wire.ofBytes ((buf.drop (offset + start)).take f.wire.width), vs), ?_, ?_⟩
      · intro old
        simp [decode, hread, hdecode, assign]
      · have hsplit : stop - start = f.wire.width + (stop - (start + f.wire.width)) := by omega
        rw [valueBytes_cons, f.wire.toBytes_ofBytes _ hfirst, hbytes, hsplit, List.take_add,
          List.drop_drop, Nat.add_assoc]

end RecordField

/-- The layout of a record: fields that tile a block, together hold the whole record
and can take any values. -/
structure Layout (σ : Type) where
  fields : List (RecordField σ)
  size : Nat
  tile : RecordField.Tile fields 0 size
  restores : ∀ m old, RecordField.restore m fields old = m
  onto : ∀ vs, ∃ m, RecordField.values fields m = vs

namespace Layout

variable {σ : Type}

/-- Write a record into a buffer at an offset. -/
def encode (l : Layout σ) (m : σ) (buf : List UInt8) (offset : Nat) : List UInt8 :=
  RecordField.encode m offset l.fields buf

/-- Read a record from a buffer at an offset, into one with arbitrary contents. -/
def decode (l : Layout σ) (old : σ) (buf : List UInt8) (offset : Nat) : Option σ :=
  RecordField.decode buf offset l.fields old

/-- The block of a record. -/
def block (l : Layout σ) (m : σ) : List UInt8 :=
  l.fields.flatMap (·.bytes m)

@[simp]
theorem length_block (l : Layout σ) (m : σ) : (l.block m).length = l.size :=
  l.tile.length_flatMap m

theorem length_append_block (l : Layout σ) (m : σ) (front : List UInt8) :
    (front ++ l.block m).length = front.length + l.size := by
  simp

/-- Encoding overwrites the block and nothing else. -/
theorem encode_eq (l : Layout σ) (m : σ) (front old : List UInt8) :
    l.encode m (front ++ old) front.length = front ++ l.block m ++ old.drop l.size := by
  simpa [encode, block] using RecordField.encode_of_tile l.tile m front.length front old rfl

/-- A block is decoded to the record it was made from. -/
theorem decode_block (l : Layout σ) (m old : σ) (front back : List UInt8) :
    l.decode old (front ++ l.block m ++ back) front.length = some m := by
  rw [decode, block, RecordField.decode_of_tile l.tile m old front.length front back rfl,
    l.restores]

/-- A field is found at its offset in the block. -/
theorem readAt_block (l : Layout σ) {f : RecordField σ} (hf : f ∈ l.fields) (m : σ)
    (front back : List UInt8) :
    readAt (front ++ l.block m ++ back) (front.length + f.offset) f.wire.width =
      some (f.bytes m) :=
  RecordField.readAt_of_tile l.tile hf m front.length front back rfl

/-- A record is decoded exactly when its block lies within the buffer. -/
theorem decode_isSome (l : Layout σ) (old : σ) (buf : List UInt8) {offset : Nat}
    (hoffset : offset ≤ buf.length) :
    (l.decode old buf offset).isSome ↔ offset + l.size ≤ buf.length :=
  RecordField.decode_isSome_of_tile l.tile old offset buf hoffset

/-- A record that takes up room is decoded exactly when its block lies within the buffer. -/
theorem decode_isSome_iff (l : Layout σ) (hsize : 0 < l.size) (old : σ) (buf : List UInt8)
    (offset : Nat) : (l.decode old buf offset).isSome ↔ offset + l.size ≤ buf.length := by
  constructor
  · intro hsome
    obtain ⟨m, hm⟩ := Option.isSome_iff_exists.mp hsome
    rcases RecordField.le_of_decode l.tile hm with hempty | hle
    · omega
    · exact hle
  · intro hle
    exact (l.decode_isSome old buf (by omega)).mpr hle

/-- Every block within a buffer is the block of the record decoded from it. -/
theorem block_of_decode (l : Layout σ) (old : σ) (buf : List UInt8) {offset : Nat}
    (hfits : offset + l.size ≤ buf.length) :
    ∃ m, l.decode old buf offset = some m ∧ l.block m = (buf.drop offset).take l.size := by
  obtain ⟨vs, hdecode, hbytes⟩ := RecordField.decode_eq_assign l.tile offset buf hfits
  obtain ⟨m, rfl⟩ := l.onto vs
  have hm := hdecode old
  rw [← RecordField.restore_eq_assign, l.restores] at hm
  refine ⟨m, hm, ?_⟩
  rw [block, RecordField.flatMap_bytes, hbytes, Nat.add_zero, Nat.sub_zero]

/-! ### Sequences of records -/

/-- Write records one after the other.  The position behind them comes with the
buffer. -/
def encodeAll (l : Layout σ) : List σ → List UInt8 → Nat → List UInt8 × Nat
  | [], buf, pos => (buf, pos)
  | m :: ms, buf, pos => l.encodeAll ms (l.encode m buf pos) (pos + l.size)

/-- Read as many records as there are old ones, a stride apart, into these. -/
def decodeAll (l : Layout σ) (buf : List UInt8) (stride : Nat) :
    List σ → Nat → Option (List σ)
  | [], _ => some []
  | old :: olds, pos => do
      let m ← l.decode old buf pos
      let ms ← l.decodeAll buf stride olds (pos + stride)
      return m :: ms

theorem length_flatMap_block (l : Layout σ) (ms : List σ) :
    (ms.flatMap l.block).length = ms.length * l.size := by
  induction ms with
  | nil => simp
  | cons m ms ih =>
      simp only [List.flatMap_cons, List.length_append, length_block, ih, List.length_cons]
      rw [Nat.succ_mul]
      omega

/-- Encoding a sequence overwrites the blocks of its records and nothing else, and
stops behind them. -/
theorem encodeAll_eq (l : Layout σ) (ms : List σ) (front old : List UInt8) :
    l.encodeAll ms (front ++ old) front.length =
      (front ++ ms.flatMap l.block ++ old.drop (ms.length * l.size),
        (front ++ ms.flatMap l.block).length) := by
  induction ms generalizing front old with
  | nil => simp [encodeAll]
  | cons m ms ih =>
      rw [encodeAll, encode_eq, ← length_append_block l m, ih]
      simp [Nat.succ_mul, Nat.add_comm]

/-- A sequence of blocks is decoded to the records it was made from, whatever records
it is decoded into. -/
theorem decodeAll_blocks (l : Layout σ) (ms olds : List σ) (hcount : olds.length = ms.length)
    (front back : List UInt8) :
    l.decodeAll (front ++ ms.flatMap l.block ++ back) l.size olds front.length = some ms := by
  induction ms generalizing front olds with
  | nil =>
      rw [List.length_eq_zero_iff.mp hcount]
      rfl
  | cons m ms ih =>
      obtain ⟨old, olds, rfl⟩ := List.exists_cons_of_length_eq_add_one hcount
      have hfirst := l.decode_block m old front (ms.flatMap l.block ++ back)
      have hrest := ih olds (by simpa using hcount) (front ++ l.block m)
      simp only [List.append_assoc, List.length_append, length_block] at hfirst hrest
      simp [decodeAll, hfirst, hrest]

/-- As many records are decoded as were asked for. -/
theorem length_of_decodeAll {l : Layout σ} {buf : List UInt8} {stride : Nat} {olds : List σ}
    {pos : Nat} {ms : List σ} (hdecode : l.decodeAll buf stride olds pos = some ms) :
    ms.length = olds.length := by
  induction olds generalizing pos ms with
  | nil =>
      cases hdecode
      rfl
  | cons old olds ih =>
      simp only [decodeAll, Option.bind_eq_bind, Option.pure_def, Option.bind_eq_some_iff,
        Option.some.injEq] at hdecode
      obtain ⟨m, -, rest, hrest, rfl⟩ := hdecode
      rw [List.length_cons, ih hrest, List.length_cons]

/-- Records a stride apart are decoded exactly when the block of the last one lies within
the buffer. -/
theorem decodeAll_isSome_iff (l : Layout σ) (hsize : 0 < l.size) (buf : List UInt8)
    (stride : Nat) (olds : List σ) (pos : Nat) :
    (l.decodeAll buf stride olds pos).isSome ↔
      olds = [] ∨ pos + (olds.length - 1) * stride + l.size ≤ buf.length := by
  induction olds generalizing pos with
  | nil => simp [decodeAll]
  | cons old olds ih =>
      have hfirst := l.decode_isSome_iff hsize old buf pos
      have hrest := ih (pos + stride)
      have hboth : (l.decodeAll buf stride (old :: olds) pos).isSome ↔
          (l.decode old buf pos).isSome ∧ (l.decodeAll buf stride olds (pos + stride)).isSome := by
        rw [decodeAll]
        cases l.decode old buf pos with
        | none => simp
        | some m => cases l.decodeAll buf stride olds (pos + stride) <;> simp
      rw [hboth, hfirst, hrest]
      cases olds with
      | nil => simp
      | cons old' olds =>
          simp only [List.length_cons, Nat.add_sub_cancel, List.cons_ne_nil, false_or]
          rw [Nat.succ_mul]
          omega

/-- Records with tails of the same length between them are decoded at the stride of both. -/
theorem decodeAll_spaced (l : Layout σ) {extra : Nat} (es : List (σ × Vector UInt8 extra))
    (olds : List σ) (hcount : olds.length = es.length) (front back : List UInt8) :
    l.decodeAll (front ++ es.flatMap (fun e => l.block e.1 ++ e.2.toList) ++ back)
      (l.size + extra) olds front.length = some (es.map Prod.fst) := by
  induction es generalizing front olds with
  | nil =>
      rw [List.length_eq_zero_iff.mp hcount]
      rfl
  | cons e es ih =>
      obtain ⟨old, olds, rfl⟩ := List.exists_cons_of_length_eq_add_one hcount
      have hfirst := l.decode_block e.1 old front (e.2.toList ++
        es.flatMap (fun e => l.block e.1 ++ e.2.toList) ++ back)
      have hrest := ih olds (by simpa using hcount) (front ++ l.block e.1 ++ e.2.toList)
      simp only [List.append_assoc, List.length_append, length_block, Vector.length_toList]
        at hfirst hrest
      simp [decodeAll, hfirst, hrest]

end Layout

end Library
