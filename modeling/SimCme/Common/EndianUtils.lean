import Mathlib.Data.Nat.Bitwise
import SimCme.Library.WireLayout

/-!
# Byte order

Words are swapped with masks and shifts.  On a little-endian host the swap turns a word
into its big-endian form and back.

Main results:

- Theorems {lit}`bswap16_toNat` and {lit}`bswap32_toNat`: the swaps exchange the bytes of a
  word.
- Theorems {lit}`bigToNative16_ofBytes` and {lit}`bigToNative32_ofBytes`: the word read from
  bytes in memory is swapped to the number that they spell, most significant first.
-/

open Library

namespace SimCme

/-! ## Swaps -/

def bswap16 (v : UInt16) : UInt16 :=
  (v >>> 8) ||| (v <<< 8)

def bswap32 (v : UInt32) : UInt32 :=
  ((v &&& 0xFF000000) >>> 24) ||| ((v &&& 0x00FF0000) >>> 8) ||| ((v &&& 0x0000FF00) <<< 8) |||
    ((v &&& 0x000000FF) <<< 24)

/-- The host is little-endian. -/
def nativeToBig16 (v : UInt16) : UInt16 :=
  bswap16 v

def nativeToBig32 (v : UInt32) : UInt32 :=
  bswap32 v

/-- The conversion is symmetric. -/
def bigToNative16 (v : UInt16) : UInt16 :=
  nativeToBig16 v

def bigToNative32 (v : UInt32) : UInt32 :=
  nativeToBig32 v

/-! ## Bytes of numbers -/

theorem and_shiftLeft (n mask k : Nat) : n &&& mask <<< k = (n >>> k &&& mask) <<< k := by
  apply Nat.eq_of_testBit_eq
  intro i
  by_cases hi : k ≤ i
  · simp [hi]
  · simp [hi]

/-- A mask keeps one byte of a number in its place. -/
theorem and_byte (n k : Nat) : n &&& 255 <<< k = n / 2 ^ k % 256 * 2 ^ k := by
  have hmask : n >>> k &&& 255 = n >>> k % 256 := Nat.and_two_pow_sub_one_eq_mod _ 8
  rw [and_shiftLeft, hmask, Nat.shiftRight_eq_div_pow, Nat.shiftLeft_eq]

/-- A byte is put in front of lower ones. -/
theorem or_eq_add {x : Nat} (y k : Nat) (hx : x < 2 ^ k) : x ||| y * 2 ^ k = x + y * 2 ^ k := by
  rw [Nat.or_comm, ← Nat.shiftLeft_eq, ← Nat.shiftLeft_add_eq_or_of_lt hx, Nat.add_comm]

theorem bswap16_toNat (v : UInt16) :
    (bswap16 v).toNat = v.toNat / 2 ^ 8 + v.toNat % 256 * 2 ^ 8 := by
  have hlt := v.toNat_lt
  have h8 : (v >>> 8).toNat = v.toNat / 2 ^ 8 := by
    simp [Nat.shiftRight_eq_div_pow]
  have h0 : (v <<< 8).toNat = v.toNat % 256 * 2 ^ 8 := by
    simp only [UInt16.toNat_shiftLeft, UInt16.reduceToNat, Nat.reduceMod, Nat.shiftLeft_eq]
    omega
  rw [bswap16, UInt16.toNat_or, h8, h0, or_eq_add _ 8 (by omega)]

theorem bswap32_toNat (v : UInt32) :
    (bswap32 v).toNat = v.toNat / 2 ^ 24 % 256 + v.toNat / 2 ^ 16 % 256 * 2 ^ 8 +
      v.toNat / 2 ^ 8 % 256 * 2 ^ 16 + v.toNat % 256 * 2 ^ 24 := by
  have h24 : ((v &&& 0xFF000000) >>> 24).toNat = v.toNat / 2 ^ 24 % 256 := by
    have hbyte := and_byte v.toNat 24
    simp only [Nat.reduceShiftLeft, UInt32.toNat_shiftRight, UInt32.toNat_and,
      UInt32.reduceToNat, Nat.reduceMod, Nat.shiftRight_eq_div_pow] at hbyte ⊢
    omega
  have h16 : ((v &&& 0x00FF0000) >>> 8).toNat = v.toNat / 2 ^ 16 % 256 * 2 ^ 8 := by
    have hbyte := and_byte v.toNat 16
    simp only [Nat.reduceShiftLeft, UInt32.toNat_shiftRight, UInt32.toNat_and,
      UInt32.reduceToNat, Nat.reduceMod, Nat.shiftRight_eq_div_pow] at hbyte ⊢
    omega
  have h8 : ((v &&& 0x0000FF00) <<< 8).toNat = v.toNat / 2 ^ 8 % 256 * 2 ^ 16 := by
    have hbyte := and_byte v.toNat 8
    simp only [Nat.shiftLeft_eq, Nat.reducePow, Nat.reduceMul, UInt32.toNat_shiftLeft,
      UInt32.toNat_and, UInt32.reduceToNat, Nat.reduceMod] at hbyte ⊢
    omega
  have h0 : ((v &&& 0x000000FF) <<< 24).toNat = v.toNat % 256 * 2 ^ 24 := by
    have hbyte := and_byte v.toNat 0
    simp only [Nat.shiftLeft_eq, Nat.pow_zero, Nat.mul_one, Nat.div_one, UInt32.toNat_shiftLeft,
      UInt32.toNat_and, UInt32.reduceToNat, Nat.reduceMod] at hbyte ⊢
    omega
  rw [bswap32, UInt32.toNat_or, UInt32.toNat_or, UInt32.toNat_or, h24, h16, h8, h0,
    or_eq_add _ 8 (by omega), or_eq_add _ 16 (by omega), or_eq_add _ 24 (by omega)]

/-- A word of four bytes is swapped to the word of the same bytes in the other order. -/
theorem bswap32_of_bytes {v : UInt32} {a b c d : Nat} (ha : a < 256) (hb : b < 256)
    (hc : c < 256) (hd : d < 256) (hv : v.toNat = a + 256 * (b + 256 * (c + 256 * d))) :
    (bswap32 v).toNat = d + 256 * (c + 256 * (b + 256 * a)) := by
  have h24 : v.toNat / 2 ^ 24 % 256 = d := by omega
  have h16 : v.toNat / 2 ^ 16 % 256 = c := by omega
  have h8 : v.toNat / 2 ^ 8 % 256 = b := by omega
  have h0 : v.toNat % 256 = a := by omega
  rw [bswap32_toNat, h24, h16, h8, h0]
  omega

theorem bswap16_bswap16 (v : UInt16) : bswap16 (bswap16 v) = v := by
  have hlt := v.toNat_lt
  apply UInt16.toNat_inj.mp
  rw [bswap16_toNat, bswap16_toNat]
  omega

theorem bswap32_bswap32 (v : UInt32) : bswap32 (bswap32 v) = v := by
  have hlt := v.toNat_lt
  have hv : v.toNat = v.toNat % 256 + 256 * (v.toNat / 256 % 256 +
      256 * (v.toNat / 256 / 256 % 256 + 256 * (v.toNat / 256 / 256 / 256))) := by
    omega
  have hswap := bswap32_of_bytes (by omega) (by omega) (by omega) (by omega) hv
  apply UInt32.toNat_inj.mp
  rw [bswap32_of_bytes (by omega) (by omega) (by omega) (by omega) hswap, ← hv]

/-! ## Words in memory -/

/-- The number that bytes spell, most significant first. -/
def beNat (bs : List UInt8) : Nat :=
  bs.foldl (fun n b => 256 * n + b.toNat) 0

theorem bigToNative16_ofBytes {bs : List UInt8} (hlength : bs.length = 2) :
    (bigToNative16 (Wire.uint16.ofBytes bs)).toNat = beNat bs := by
  match bs, hlength with
  | [a, b], _ =>
      have ha := a.toNat_lt
      have hb := b.toNat_lt
      have hword : (Wire.uint16.ofBytes [a, b]).toNat = a.toNat + 256 * b.toNat := by
        simp only [Wire.uint16, Wire.littleEndian, leNat, UInt16.toNat_ofNat']
        omega
      rw [bigToNative16, nativeToBig16, bswap16_toNat, hword]
      simp only [beNat, List.foldl_cons, List.foldl_nil]
      omega

theorem bigToNative32_ofBytes {bs : List UInt8} (hlength : bs.length = 4) :
    (bigToNative32 (Wire.uint32.ofBytes bs)).toNat = beNat bs := by
  match bs, hlength with
  | [a, b, c, d], _ =>
      have ha := a.toNat_lt
      have hb := b.toNat_lt
      have hc := c.toNat_lt
      have hd := d.toNat_lt
      have hword : (Wire.uint32.ofBytes [a, b, c, d]).toNat =
          a.toNat + 256 * (b.toNat + 256 * (c.toNat + 256 * d.toNat)) := by
        simp only [Wire.uint32, Wire.littleEndian, leNat, UInt32.toNat_ofNat']
        omega
      rw [bigToNative32, nativeToBig32, bswap32_of_bytes ha hb hc hd hword]
      simp only [beNat, List.foldl_cons, List.foldl_nil]
      omega

end SimCme
