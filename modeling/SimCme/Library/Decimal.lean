import Mathlib.Algebra.Order.Ring.Nat
import Mathlib.Data.List.Basic

/-!
# Numbers in decimal

The bytes of a number that is printed in decimal.

Main results:

- Theorem {lit}`decimalBytes_injective`: different numbers are printed differently.
- Theorem {lit}`length_decimalBytes_le_iff`: how many bytes a number takes.
-/

namespace Library

/-- The bytes of a number in decimal. -/
def decimalBytes (n : Nat) : List UInt8 :=
  (toString n).toUTF8.toList

/-! ## Bytes of a string -/

theorem toList_byteArray (bytes : ByteArray) : bytes.toList = bytes.data.toList := by
  have hloop : ∀ i read, ByteArray.toList.loop bytes i read =
      read.reverse ++ bytes.data.toList.drop i := by
    intro i read
    induction i, read using ByteArray.toList.loop.induct bytes with
    | case1 i read hlt ih =>
        have hlt' : i < bytes.data.toList.length := by simpa using hlt
        have hget : bytes.get! i = bytes.data.toList[i] := by
          simp [ByteArray.get!, getElem!_pos bytes.data i hlt]
        rw [ByteArray.toList.loop, if_pos hlt, ih, hget, List.drop_eq_getElem_cons hlt']
        simp
    | case2 i read hge =>
        have hend : bytes.data.toList.drop i = [] := by
          rw [List.drop_eq_nil_iff]
          simpa using hge
        rw [ByteArray.toList.loop, if_neg hge, hend, List.append_nil]
  exact hloop 0 []

/-- A string of ASCII characters takes one byte for each. -/
theorem utf8Encode_of_ascii {cs : List Char} (hascii : ∀ c ∈ cs, c.val ≤ 127) :
    cs.utf8Encode.data.toList = cs.map fun c => c.val.toUInt8 := by
  induction cs with
  | nil => simp
  | cons c cs ih =>
      obtain ⟨hc, hcs⟩ := List.forall_mem_cons.mp hascii
      have hone : String.utf8EncodeChar c = [c.val.toUInt8] :=
        String.utf8EncodeChar_eq_singleton (Char.utf8Size_eq_one_iff.mpr hc)
      rw [List.utf8Encode_cons, List.utf8Encode_singleton, ByteArray.toList_data_append, hone,
        ih hcs]
      simp

/-! ## Digits -/

theorem toNat_digit {n : Nat} {c : Char} (hc : c ∈ Nat.toDigits 10 n) :
    48 ≤ c.toNat ∧ c.toNat ≤ 57 := by
  have hdigit := Nat.isDigit_of_mem_toDigits (by decide) (by decide) hc
  simp only [Char.isDigit, Bool.and_eq_true, decide_eq_true_eq] at hdigit
  exact hdigit

theorem toNat_toUInt8_digit {n : Nat} {c : Char} (hc : c ∈ Nat.toDigits 10 n) :
    c.val.toUInt8.toNat = c.toNat := by
  have hle := (toNat_digit hc).2
  rw [UInt32.toNat_toUInt8]
  exact Nat.mod_eq_of_lt (Nat.lt_of_le_of_lt hle (by decide))

/-- One byte for each digit. -/
theorem decimalBytes_eq (n : Nat) :
    decimalBytes n = (Nat.toDigits 10 n).map fun c => c.val.toUInt8 := by
  have hascii : ∀ c ∈ Nat.toDigits 10 n, c.val ≤ 127 := by
    intro c hc
    rw [UInt32.le_iff_toNat_le]
    exact Nat.le_trans (toNat_digit hc).2 (by decide)
  rw [decimalBytes, toList_byteArray, Nat.toString_eq_ofList_toDigits]
  exact utf8Encode_of_ascii hascii

/-- Different numbers are printed differently. -/
theorem decimalBytes_injective : Function.Injective decimalBytes := by
  intro m n hbytes
  have hread : ∀ k, Nat.ofDigitChars 10 (Nat.toDigits 10 k) 0 =
      (decimalBytes k).foldl (fun sofar byte => 10 * sofar + (byte.toNat - 48)) 0 := by
    intro k
    rw [decimalBytes_eq, List.foldl_map, Nat.ofDigitChars_eq_foldl]
    refine List.foldl_ext _ _ 0 fun sofar c hc => ?_
    rw [toNat_toUInt8_digit hc]
    rfl
  calc
    m = Nat.ofDigitChars 10 (Nat.toDigits 10 m) 0 := Nat.ofDigitChars_ten_toDigits.symm
    _ = Nat.ofDigitChars 10 (Nat.toDigits 10 n) 0 := by rw [hread, hread, hbytes]
    _ = n := Nat.ofDigitChars_ten_toDigits

theorem length_decimalBytes_le_iff {n k : Nat} (hpos : 0 < k) :
    (decimalBytes n).length ≤ k ↔ n < 10 ^ k := by
  rw [decimalBytes_eq, List.length_map]
  exact Nat.length_toDigits_le_iff (by decide) hpos

theorem zero_not_mem_decimalBytes (n : Nat) : 0 ∉ decimalBytes n := by
  rw [decimalBytes_eq, List.mem_map]
  rintro ⟨c, hc, hzero⟩
  have hle := (toNat_digit hc).1
  rw [← toNat_toUInt8_digit hc, hzero] at hle
  exact absurd hle (by decide)

end Library
