import SimCme.Common.EndianUtils
import SimCme.Library.Machine

/-!
# Framed connections

Every message on a connection travels in a frame: a header with the length of the frame
and the encoding of the message, both big-endian, and then the message.  The reader
waits for a header, checks it, waits for as many bytes as the header announces, hands
them on and waits for the next header.  A header it does not accept closes the
connection, and so does the end of the stream.

Main results:

- Theorem {lit}`FrameReader.run_frames`: frames are delivered one after the other.
- Theorem {lit}`FrameReader.run_of_no_frame`: where no frame begins, the connection is
  closed and nothing is delivered.
- Theorem {lit}`FrameReader.run_delivers`: the reader inverts the writer, and on any stream
  it delivers the frames in front and nothing else.
-/

open Library

namespace SimCme

/-! ## Headers -/

namespace SOFH

def size : Nat := 6

def sbeEncodingType : UInt16 := 0xCAFE

def encode (messageLength : UInt32) : List UInt8 :=
  Wire.uint32.toBytes (nativeToBig32 messageLength) ++
    Wire.uint16.toBytes (nativeToBig16 sbeEncodingType)

def decodeMessageLength (buffer : List UInt8) : UInt32 :=
  bigToNative32 (Wire.uint32.ofBytes (buffer.take 4))

def decodeEncodingType (buffer : List UInt8) : UInt16 :=
  bigToNative16 (Wire.uint16.ofBytes ((buffer.drop 4).take 2))

def isValidSBE (buffer : List UInt8) : Bool :=
  decodeEncodingType buffer == sbeEncodingType

/-- The length of a frame, header included. -/
def framedLength (payloadLength : UInt32) : UInt32 :=
  .ofNat size + payloadLength

/-- A header is read back. -/
theorem decode_encode (messageLength : UInt32) :
    decodeMessageLength (encode messageLength) = messageLength ∧
      isValidSBE (encode messageLength) = true := by
  have hlength : (Wire.uint32.toBytes (nativeToBig32 messageLength)).length = 4 :=
    Wire.uint32.length_toBytes _
  have hencoding : (Wire.uint16.toBytes (nativeToBig16 sbeEncodingType)).length ≤ 2 :=
    (Wire.uint16.length_toBytes _).le
  constructor
  · rw [decodeMessageLength, encode, List.take_left' hlength, Wire.ofBytes_toBytes, bigToNative32,
      nativeToBig32, nativeToBig32, bswap32_bswap32]
  · rw [isValidSBE, decodeEncodingType, encode, List.drop_left' hlength,
      List.take_of_length_le hencoding, Wire.ofBytes_toBytes, bigToNative16, nativeToBig16,
      nativeToBig16, bswap16_bswap16, beq_self_eq_true]

end SOFH

/-! ## The writer -/

namespace TcpConnection

def kSofhSize : Nat := 6

def kSofhEncodingSbe : UInt16 := 0xCAFE

/-- The frame that is built for a message. -/
def frame (data : List UInt8) : List UInt8 :=
  let msgLength := UInt32.ofNat (kSofhSize + data.length)
  Wire.uint32.toBytes (nativeToBig32 msgLength) ++
    Wire.uint16.toBytes (nativeToBig16 kSofhEncodingSbe) ++ data

theorem frame_eq (data : List UInt8) :
    frame data = SOFH.encode (SOFH.framedLength (.ofNat data.length)) ++ data := by
  rw [frame, UInt32.ofNat_add]
  rfl

end TcpConnection

/-! ## The reader -/

inductive ReadState where
  | header
  | body (length : UInt32)
  | closed
deriving DecidableEq, Repr

structure FrameReader where
  state : ReadState := .header
  /-- The bytes still to come before the end of the stream. -/
  stream : List UInt8
deriving DecidableEq, Repr

/-- Read a number of bytes; the read fails at the end of the stream. -/
def asyncRead (stream : List UInt8) (length : Nat) : Option (List UInt8 × List UInt8) :=
  if length ≤ stream.length then some (stream.take length, stream.drop length) else none

namespace FrameReader

open TcpConnection

def kMaxBody : UInt32 := 64 * 1024

def doReadHeader (reader : FrameReader) : FrameReader :=
  match asyncRead reader.stream kSofhSize with
  | none => { reader with state := .closed }
  | some (headerBuf, stream) =>
      let msgLength := bigToNative32 (Wire.uint32.ofBytes (headerBuf.take 4))
      let encType := bigToNative16 (Wire.uint16.ofBytes (headerBuf.drop 4))
      if encType ≠ kSofhEncodingSbe then { state := .closed, stream := stream }
      else if msgLength.toNat ≤ kSofhSize then { state := .closed, stream := stream }
      else
        let bodyLength := msgLength - .ofNat kSofhSize
        if bodyLength > kMaxBody then { state := .closed, stream := stream }
        else { state := .body bodyLength, stream := stream }

def doReadBody (reader : FrameReader) (bodyLength : UInt32) :
    FrameReader × List (List UInt8) :=
  match asyncRead reader.stream bodyLength.toNat with
  | none => ({ reader with state := .closed }, [])
  | some (body, stream) => ({ state := .header, stream := stream }, [body])

/-- One read at a time; the outputs are the messages handed on. -/
def machine : Machine FrameReader Unit (List UInt8) where
  step reader _ :=
    match reader.state with
    | .header => (reader.doReadHeader, [])
    | .body bodyLength => reader.doReadBody bodyLength
    | .closed => (reader, [])

/-- The reader of a stream after a number of reads. -/
def read (stream : List UInt8) (reads : Nat) : FrameReader × List (List UInt8) :=
  machine.run { stream } (List.replicate reads ())

end FrameReader

/-! ## Frames -/

/-- A frame of a message: the header announces the encoding and the length of the whole,
and the message is neither empty nor too long. -/
structure IsFrame (frame body : List UInt8) : Prop where
  header_length : 6 ≤ frame.length
  encoding_eq : beNat ((frame.take 6).drop 4) = 0xCAFE
  length_eq : beNat ((frame.take 6).take 4) = frame.length
  body_eq : body = frame.drop 6
  body_pos : 0 < body.length
  body_le : body.length ≤ 65536

namespace TcpConnection

theorem beNat_nativeToBig16 (v : UInt16) :
    beNat (Wire.uint16.toBytes (nativeToBig16 v)) = v.toNat := by
  rw [← bigToNative16_ofBytes (Wire.uint16.length_toBytes _), Wire.ofBytes_toBytes, bigToNative16,
    nativeToBig16, nativeToBig16, bswap16_bswap16]

theorem beNat_nativeToBig32 (v : UInt32) :
    beNat (Wire.uint32.toBytes (nativeToBig32 v)) = v.toNat := by
  rw [← bigToNative32_ofBytes (Wire.uint32.length_toBytes _), Wire.ofBytes_toBytes, bigToNative32,
    nativeToBig32, nativeToBig32, bswap32_bswap32]

/-- What the writer builds for a message of an admitted length is a frame. -/
theorem isFrame_frame {data : List UInt8} (hpos : 0 < data.length) (hle : data.length ≤ 65536) :
    IsFrame (frame data) data := by
  have hlength : (Wire.uint32.toBytes
      (nativeToBig32 (UInt32.ofNat (kSofhSize + data.length)))).length = 4 :=
    Wire.uint32.length_toBytes _
  have hencoding : (Wire.uint16.toBytes (nativeToBig16 kSofhEncodingSbe)).length = 2 :=
    Wire.uint16.length_toBytes _
  have hheader : (Wire.uint32.toBytes
      (nativeToBig32 (UInt32.ofNat (kSofhSize + data.length))) ++
        Wire.uint16.toBytes (nativeToBig16 kSofhEncodingSbe)).length = 6 := by
    rw [List.length_append, hlength, hencoding]
  have htake : (frame data).take 6 = Wire.uint32.toBytes
      (nativeToBig32 (UInt32.ofNat (kSofhSize + data.length))) ++
        Wire.uint16.toBytes (nativeToBig16 kSofhEncodingSbe) :=
    List.take_left' hheader
  have hsize : (frame data).length = 6 + data.length := by
    rw [frame, List.length_append, hheader]
  exact
    { header_length := by omega
      encoding_eq := by
        rw [htake, List.drop_left' hlength, beNat_nativeToBig16]
        rfl
      length_eq := by
        rw [htake, List.take_left' hlength, beNat_nativeToBig32, hsize, UInt32.toNat_ofNat']
        exact Nat.mod_eq_of_lt (by simp only [kSofhSize]; omega)
      body_eq := (List.drop_left' hheader).symm
      body_pos := hpos
      body_le := hle }

end TcpConnection

/-! ## What the reader does -/

namespace FrameReader

open TcpConnection

/-- What a header must say for its body to be read. -/
theorem doReadHeader_cases (stream : List UInt8) :
    (doReadHeader { stream }).state = .closed ∨
      ∃ bodyLength : UInt32,
        doReadHeader { stream } = { state := .body bodyLength, stream := stream.drop 6 } ∧
          6 ≤ stream.length ∧ beNat ((stream.take 6).drop 4) = 0xCAFE ∧
          beNat ((stream.take 6).take 4) = 6 + bodyLength.toNat ∧
          0 < bodyLength.toNat ∧ bodyLength.toNat ≤ 65536 := by
  by_cases hlength : 6 ≤ stream.length
  · have hread : asyncRead stream kSofhSize = some (stream.take 6, stream.drop 6) := if_pos hlength
    have hfour : ((stream.take 6).take 4).length = 4 := by
      simp only [List.length_take]
      omega
    have htwo : ((stream.take 6).drop 4).length = 2 := by
      simp only [List.length_drop, List.length_take]
      omega
    have hmsg := bigToNative32_ofBytes hfour
    have henc := bigToNative16_ofBytes htwo
    simp only [doReadHeader, hread]
    split
    · exact .inl rfl
    · rename_i hencoding
      split
      · exact .inl rfl
      · rename_i hshort
        split
        · exact .inl rfl
        · rename_i hlong
          rw [not_not] at hencoding
          rw [hencoding] at henc
          simp only [kSofhSize, not_le] at hshort
          refine .inr ⟨_, rfl, hlength, henc.symm, ?_⟩
          generalize bigToNative32 (Wire.uint32.ofBytes ((stream.take 6).take 4)) = msgLength at *
          have hsix : (UInt32.ofNat kSofhSize).toNat = 6 := rfl
          have hle : UInt32.ofNat kSofhSize ≤ msgLength := by
            rw [UInt32.le_iff_toNat_le, hsix]
            omega
          have hsub := UInt32.toNat_sub_of_le _ _ hle
          rw [gt_iff_lt, UInt32.lt_iff_toNat_lt, not_lt] at hlong
          have hmax : kMaxBody.toNat = 65536 := rfl
          omega
  · have hread : asyncRead stream kSofhSize = none := if_neg hlength
    simp [doReadHeader, hread]

/-- The header of a frame is accepted. -/
theorem doReadHeader_frame {frame body : List UInt8} (hframe : IsFrame frame body)
    (tail : List UInt8) :
    doReadHeader { stream := frame ++ tail } =
      { state := .body (.ofNat body.length), stream := body ++ tail } := by
  have hsix := hframe.header_length
  have hread : asyncRead (frame ++ tail) kSofhSize = some (frame.take 6, body ++ tail) := by
    rw [asyncRead, if_pos (by simp only [kSofhSize, List.length_append]; omega), kSofhSize,
      List.take_append_of_le_length hsix, List.drop_append_of_le_length hsix, hframe.body_eq]
  have hfour : ((frame.take 6).take 4).length = 4 := by
    simp only [List.length_take]
    omega
  have htwo : ((frame.take 6).drop 4).length = 2 := by
    simp only [List.length_drop, List.length_take]
    omega
  have hbody : body.length = frame.length - 6 := by
    rw [hframe.body_eq, List.length_drop]
  have hpos := hframe.body_pos
  have hle := hframe.body_le
  have henc : bigToNative16 (Wire.uint16.ofBytes ((frame.take 6).drop 4)) = kSofhEncodingSbe := by
    apply UInt16.toNat_inj.mp
    rw [bigToNative16_ofBytes htwo, hframe.encoding_eq]
    rfl
  have hmsg : bigToNative32 (Wire.uint32.ofBytes ((frame.take 6).take 4)) =
      UInt32.ofNat body.length + UInt32.ofNat kSofhSize := by
    apply UInt32.toNat_inj.mp
    rw [bigToNative32_ofBytes hfour, hframe.length_eq, ← UInt32.ofNat_add, UInt32.toNat_ofNat',
      kSofhSize]
    omega
  have hlong : (UInt32.ofNat body.length + UInt32.ofNat kSofhSize).toNat = body.length + 6 := by
    rw [← UInt32.ofNat_add, UInt32.toNat_ofNat', kSofhSize]
    omega
  have hsub : UInt32.ofNat body.length + UInt32.ofNat kSofhSize - UInt32.ofNat kSofhSize =
      UInt32.ofNat body.length := UInt32.add_sub_cancel ..
  have hmax : ¬UInt32.ofNat body.length > kMaxBody := by
    rw [gt_iff_lt, UInt32.lt_iff_toNat_lt, UInt32.toNat_ofNat']
    have : kMaxBody.toNat = 65536 := rfl
    omega
  simp only [doReadHeader, hread, henc, hmsg, hlong, hsub]
  rw [if_neg (by simp), if_neg (by simp only [kSofhSize]; omega), if_neg hmax]

/-- A frame takes two reads. -/
theorem run_frame {frame body : List UInt8} (hframe : IsFrame frame body) (tail : List UInt8) :
    machine.run { stream := frame ++ tail } [(), ()] = ({ stream := tail }, [body]) := by
  have hle := hframe.body_le
  have hlength : (UInt32.ofNat body.length).toNat = body.length := by
    rw [UInt32.toNat_ofNat']
    omega
  have hread : asyncRead (body ++ tail) body.length = some (body, tail) := by
    simp [asyncRead]
  simp [Machine.run, machine, doReadHeader_frame hframe, doReadBody, hlength, hread]

/-- Frames are delivered one after the other. -/
theorem run_frames {frames bodies : List (List UInt8)}
    (hframes : List.Forall₂ IsFrame frames bodies) (tail : List UInt8) :
    read (frames.flatten ++ tail) (2 * frames.length) = ({ stream := tail }, bodies) := by
  induction hframes with
  | nil => rfl
  | @cons frame body frames bodies hframe _ ih =>
      have hreads : List.replicate (2 * (frame :: frames).length) () =
          [(), ()] ++ List.replicate (2 * frames.length) () := by
        rw [List.length_cons, Nat.mul_succ, Nat.add_comm, List.replicate_add]
        rfl
      rw [read, hreads, Machine.run_append, List.flatten_cons, List.append_assoc,
        run_frame hframe]
      rw [read] at ih
      simp [ih]

theorem step_closed {reader : FrameReader} (hclosed : reader.state = .closed) :
    machine.step reader () = (reader, []) := by
  simp [machine, hclosed]

/-- A closed connection delivers nothing more. -/
theorem run_closed {reader : FrameReader} (hclosed : reader.state = .closed) (reads : Nat) :
    machine.run reader (List.replicate reads ()) = (reader, []) := by
  induction reads with
  | zero => rfl
  | succ reads ih => simp [List.replicate_succ, Machine.run, step_closed hclosed, ih]

/-- Where no frame begins, two reads close the connection. -/
theorem run_of_no_frame {stream : List UInt8}
    (hnone : ∀ frame body tail, stream = frame ++ tail → ¬IsFrame frame body) :
    (machine.run { stream } [(), ()]).1.state = .closed ∧
      (machine.run { stream } [(), ()]).2 = [] := by
  have hfirst : machine.step { stream } () = (doReadHeader { stream }, []) := rfl
  rw [Machine.run, hfirst]
  rcases doReadHeader_cases stream with hclosed | ⟨bodyLength, hheader, hsix, henc, hmsg, hpos, hle⟩
  · have hrest := run_closed hclosed 1
    rw [show List.replicate 1 () = [()] from rfl] at hrest
    simp [hrest, hclosed]
  · rw [hheader]
    by_cases hfits : bodyLength.toNat ≤ (stream.drop 6).length
    · -- The body would be complete, and with the header it would be a frame.
      rw [List.length_drop] at hfits
      have htake : (stream.take (6 + bodyLength.toNat)).take 6 = stream.take 6 := by
        rw [List.take_take, Nat.min_eq_left (by omega)]
      have hlength : (stream.take (6 + bodyLength.toNat)).length = 6 + bodyLength.toNat := by
        rw [List.length_take]
        omega
      refine absurd ?_ (hnone (stream.take (6 + bodyLength.toNat))
        ((stream.take (6 + bodyLength.toNat)).drop 6) (stream.drop (6 + bodyLength.toNat))
        (List.take_append_drop ..).symm)
      exact
        { header_length := by omega
          encoding_eq := by rw [htake, henc]
          length_eq := by rw [htake, hmsg, hlength]
          body_eq := rfl
          body_pos := by rw [List.length_drop]; omega
          body_le := by rw [List.length_drop]; omega }
    · have hread : asyncRead (stream.drop 6) bodyLength.toNat = none := if_neg hfits
      simp [Machine.run, machine, doReadBody, hread]

/-- More reads deliver more. -/
theorem read_prefix (stream : List UInt8) {reads reads' : Nat} (hle : reads ≤ reads') :
    (read stream reads).2 <+: (read stream reads').2 := by
  obtain ⟨more, rfl⟩ := Nat.exists_eq_add_of_le hle
  rw [read, read, List.replicate_add, Machine.run_append]
  exact List.prefix_append ..

/-- Every stream starts with some frames behind which no frame begins. -/
theorem exists_frames (stream : List UInt8) :
    ∃ frames bodies rest, stream = frames.flatten ++ rest ∧
      List.Forall₂ IsFrame frames bodies ∧
      ∀ frame body tail, rest = frame ++ tail → ¬IsFrame frame body := by
  induction hn : stream.length using Nat.strong_induction_on generalizing stream with
  | _ n ih =>
      by_cases hnone : ∀ frame body tail, stream = frame ++ tail → ¬IsFrame frame body
      · exact ⟨[], [], stream, rfl, .nil, hnone⟩
      · push Not at hnone
        obtain ⟨frame, body, tail, rfl, hframe⟩ := hnone
        have hsix := hframe.header_length
        rw [List.length_append] at hn
        obtain ⟨frames, bodies, rest, htail, hframes, hrest⟩ := ih tail.length (by omega) tail rfl
        refine ⟨frame :: frames, body :: bodies, rest, ?_, .cons hframe hframes, hrest⟩
        rw [List.flatten_cons, List.append_assoc, ← htail]

/-- Frames that fill the front of a stream are delivered, and then the connection is
closed. -/
theorem read_of_frames {frames bodies : List (List UInt8)} {rest : List UInt8}
    (hframes : List.Forall₂ IsFrame frames bodies)
    (hrest : ∀ frame body tail, rest = frame ++ tail → ¬IsFrame frame body) {reads : Nat}
    (hreads : 2 * frames.length + 2 ≤ reads) :
    (read (frames.flatten ++ rest) reads).1.state = .closed ∧
      (read (frames.flatten ++ rest) reads).2 = bodies := by
  obtain ⟨more, rfl⟩ := Nat.exists_eq_add_of_le hreads
  obtain ⟨hclosed, hnil⟩ := run_of_no_frame hrest
  have hfront := run_frames hframes rest
  rw [read] at hfront
  rw [read, Nat.add_assoc, List.replicate_add, List.replicate_add, Machine.run_append, hfront,
    Machine.run_append, show List.replicate 2 () = [(), ()] from rfl, run_closed hclosed]
  simp [hclosed, hnil]

/-- The reader delivers the messages of the writer, and on any stream exactly the
messages of the longest series of frames in front; then it closes the connection. -/
theorem run_delivers :
    (∀ payloads : List (List UInt8), (∀ p ∈ payloads, 1 ≤ p.length ∧ p.length ≤ 65536) →
      ∀ reads, 2 * payloads.length + 2 ≤ reads →
        (read (payloads.flatMap frame) reads).1.state = .closed ∧
          (read (payloads.flatMap frame) reads).2 = payloads) ∧
      ∀ stream : List UInt8, ∃ frames bodies rest,
        stream = frames.flatten ++ rest ∧ List.Forall₂ IsFrame frames bodies ∧
          (∀ frames' bodies' rest', stream = frames'.flatten ++ rest' →
            List.Forall₂ IsFrame frames' bodies' → bodies' <+: bodies) ∧
          (∀ reads, (read stream reads).2 <+: bodies) ∧
          ∀ reads, 2 * frames.length + 2 ≤ reads →
            (read stream reads).1.state = .closed ∧ (read stream reads).2 = bodies := by
  constructor
  · intro payloads hlengths reads hreads
    have hframes : List.Forall₂ IsFrame (payloads.map frame) payloads := by
      rw [List.forall₂_map_left_iff, List.forall₂_same]
      intro p hp
      exact isFrame_frame (hlengths p hp).1 (hlengths p hp).2
    have hend : ∀ frame body tail, [] = frame ++ tail → ¬IsFrame frame body := by
      intro frame body tail hnil hframe
      have hsix := hframe.header_length
      rw [(List.append_eq_nil_iff.mp hnil.symm).1] at hsix
      simp at hsix
    have hread := read_of_frames hframes hend (by simpa using hreads)
    rwa [List.append_nil, ← List.flatMap_def] at hread
  · intro stream
    obtain ⟨frames, bodies, rest, rfl, hframes, hrest⟩ := exists_frames stream
    have hread : ∀ reads, 2 * frames.length + 2 ≤ reads →
        (read (frames.flatten ++ rest) reads).1.state = .closed ∧
          (read (frames.flatten ++ rest) reads).2 = bodies :=
      fun reads hreads => read_of_frames hframes hrest hreads
    have hprefix : ∀ reads, (read (frames.flatten ++ rest) reads).2 <+: bodies := by
      intro reads
      have hmore := read_prefix (frames.flatten ++ rest)
        (Nat.le_add_right reads (2 * frames.length + 2))
      rwa [(hread _ (Nat.le_add_left ..)).2] at hmore
    refine ⟨frames, bodies, rest, rfl, hframes, ?_, hprefix, hread⟩
    intro frames' bodies' rest' hstream hframes'
    have hdelivered := hprefix (2 * frames'.length)
    rwa [hstream, run_frames hframes'] at hdelivered

/-- Two messages on one stream. -/
theorem read_two_messages :
    (read ([[1], [2, 3]].flatMap frame) 6).2 = [[1], [2, 3]] :=
  (run_delivers.1 [[1], [2, 3]] (by decide) 6 (by decide)).2

end FrameReader

end SimCme
