import SimCme.Library.WireLayout

/-!
# Files that are read from the front

A file that is read hands out as many bytes as are asked for.  A read past its end fails, and
so do all later ones.

Main results:

- Theorem {lit}`InputStream.read_of_unread`: the bytes that are still to be read are read.
- Theorem {lit}`InputStream.position_of_read`: a read goes on by the bytes it takes.
-/

namespace Library

/-- A file that is read from the front. -/
structure InputStream where
  contents : List UInt8 := []
  position : Nat := 0
  good : Bool := true
deriving DecidableEq, Repr

namespace InputStream

/-- Read bytes.  A read past the end fails, and so do all later ones. -/
def read (s : InputStream) (width : Nat) : Option (List UInt8) × InputStream :=
  if s.good then
    match readAt s.contents s.position width with
    | some bytes => (some bytes, { s with position := s.position + width })
    | none => (none, { s with position := s.contents.length, good := false })
  else (none, s)

/-- Bytes are still to be read. -/
structure Unread (s : InputStream) (rest : List UInt8) : Prop where
  good : s.good = true
  position_le : s.position ≤ s.contents.length
  drop_eq : s.contents.drop s.position = rest

theorem read_of_unread {s : InputStream} {bytes rest : List UInt8}
    (hunread : s.Unread (bytes ++ rest)) :
    ∃ s', s.read bytes.length = (some bytes, s') ∧ s'.Unread rest ∧ s'.contents = s.contents := by
  obtain ⟨hgood, hle, hdrop⟩ := hunread
  have hlength := congrArg List.length hdrop
  rw [List.length_drop, List.length_append] at hlength
  have hread : readAt s.contents s.position bytes.length = some bytes := by
    rw [readAt, if_pos (by omega), hdrop, List.take_left]
  refine ⟨{ s with position := s.position + bytes.length }, ?_, ?_, rfl⟩
  · rw [read, if_pos hgood, hread]
  · have hfits : s.position + bytes.length ≤ s.contents.length := by omega
    refine ⟨hgood, hfits, ?_⟩
    change s.contents.drop (s.position + bytes.length) = rest
    rw [← List.drop_drop, hdrop, List.drop_left]

theorem read_of_unread_nil {s : InputStream} (hunread : s.Unread []) {width : Nat}
    (hwidth : 0 < width) : (s.read width).1 = none := by
  obtain ⟨hgood, hle, hdrop⟩ := hunread
  have hend : s.contents.length ≤ s.position := List.drop_eq_nil_iff.mp hdrop
  have hread : readAt s.contents s.position width = none := by
    rw [readAt, if_neg (by omega)]
  rw [read, if_pos hgood, hread]

theorem contents_of_read (s : InputStream) (width : Nat) :
    (s.read width).2.contents = s.contents := by
  unfold read
  split
  · split <;> rfl
  · rfl

/-- A read goes on in the file by the bytes it takes. -/
theorem position_of_read {s s' : InputStream} {width : Nat} {bytes : List UInt8}
    (hread : s.read width = (some bytes, s')) :
    s'.contents = s.contents ∧ s'.position = s.position + width ∧
      s.position + width ≤ s.contents.length := by
  unfold read at hread
  split at hread
  · split at hread
    next _ heq =>
      have hfits : s.position + width ≤ s.contents.length := by
        rw [← readAt_isSome, heq]
        rfl
      cases hread
      exact ⟨rfl, rfl, hfits⟩
    next => cases hread
  · cases hread

end InputStream

end Library
