import Mathlib.Data.List.Induction
import ToyBasket.Lib.Words

/-!
# Signed integers in memory

A signed integer of `width` bytes on a host that keeps the least significant byte first, and the
conversions between the order of such a host and that of the network.
-/

namespace Words

variable {width n : Nat} {bytes : Bytes} {i : Int}

/-- Conversion of a signed value to the unsigned type of `width` bytes. -/
def toUnsigned (width : Nat) (i : Int) : Nat := (i % (256 ^ width : Nat)).toNat

/-- Conversion to the signed type of `width` bytes. -/
def toSigned (width n : Nat) : Int := (n : Int).bmod (256 ^ width)

/-- The bytes of a value as they stand in memory. -/
def memory (width n : Nat) : Bytes := (bigEndian width n).reverse

def ofMemory (bytes : Bytes) : Nat := ofBigEndian bytes.reverse

/-- `htobe16`, `htobe32` and `htobe64`: the value whose bytes are those of `n` in network order. -/
def htobe (width n : Nat) : Nat := ofMemory (bigEndian width n)

def betoh (width n : Nat) : Nat := ofBigEndian (memory width n)

theorem ofBigEndian_lt (bytes : Bytes) : ofBigEndian bytes < 256 ^ bytes.length := by
  induction bytes using List.reverseRecOn with
  | nil => exact Nat.one_pos
  | append_singleton bytes byte ih =>
      have hbyte := byte.toNat_lt
      rw [ofBigEndian_append_singleton, List.length_append, List.length_singleton, pow_succ]
      omega

theorem bigEndian_ofBigEndian (bytes : Bytes) :
    bigEndian bytes.length (ofBigEndian bytes) = bytes := by
  induction bytes using List.reverseRecOn with
  | nil => rfl
  | append_singleton bytes byte ih =>
      have hbyte := byte.toNat_lt
      have hlow : UInt8.ofNat (ofBigEndian bytes * 256 + byte.toNat) = byte := by
        apply UInt8.toNat_inj.mp
        rw [UInt8.toNat_ofNat']
        omega
      have hhigh : (ofBigEndian bytes * 256 + byte.toNat) / 256 = ofBigEndian bytes := by omega
      rw [ofBigEndian_append_singleton, List.length_append, List.length_singleton, bigEndian, hlow,
        hhigh, ih]

theorem memory_ofMemory (h : bytes.length = width) : memory width (ofMemory bytes) = bytes := by
  have hreverse := bigEndian_ofBigEndian bytes.reverse
  rw [List.length_reverse, h] at hreverse
  rw [memory, ofMemory, hreverse, List.reverse_reverse]

theorem ofMemory_lt (h : bytes.length = width) : ofMemory bytes < 256 ^ width := by
  have hlt := ofBigEndian_lt bytes.reverse
  rwa [List.length_reverse, h] at hlt

theorem htobe_lt (width n : Nat) : htobe width n < 256 ^ width :=
  ofMemory_lt (length_bigEndian width n)

theorem memory_htobe (width n : Nat) : memory width (htobe width n) = bigEndian width n :=
  memory_ofMemory (length_bigEndian width n)

theorem betoh_ofMemory (h : bytes.length = width) :
    betoh width (ofMemory bytes) = ofBigEndian bytes := by
  rw [betoh, memory_ofMemory h]

theorem toUnsigned_lt (width : Nat) (i : Int) : toUnsigned width i < 256 ^ width := by
  have hpos : 0 < 256 ^ width := Nat.pow_pos (by decide)
  have hlt := Int.emod_lt_of_pos i (Int.natCast_pos.mpr hpos)
  rw [toUnsigned]
  omega

/-- A value that fits keeps its bits through the signed type. -/
theorem toUnsigned_toSigned (h : n < 256 ^ width) : toUnsigned width (toSigned width n) = n := by
  rw [toUnsigned, toSigned, Int.bmod_emod, ← Int.natCast_emod, Nat.mod_eq_of_lt h,
    Int.toNat_natCast]

theorem toSigned_toUnsigned (hlower : -(256 ^ width : Nat) ≤ i * 2)
    (hupper : i * 2 < (256 ^ width : Nat)) : toSigned width (toUnsigned width i) = i := by
  have hpos : 0 < 256 ^ width := Nat.pow_pos (by decide)
  have hnonneg := Int.emod_nonneg i (Int.natCast_ne_zero.mpr hpos.ne')
  rw [toSigned, toUnsigned, Int.toNat_of_nonneg hnonneg, Int.emod_bmod]
  exact Int.bmod_eq_of_le_mul_two hlower hupper

end Words
