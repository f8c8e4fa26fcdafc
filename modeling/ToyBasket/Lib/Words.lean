import Mathlib.Data.List.Basic
import Mathlib.Tactic.Ring

/-!
# Fixed-width integers and their big-endian bytes

Machine arithmetic over unbounded numbers: a `size_t` is a natural below `2 ^ 64` and its operations
wrap, a signed 32-bit value is an integer, and a conversion reduces modulo the width of its target.
The second half is the network byte order of a value of any width.
-/

namespace Words

/-- The bytes of a string, of a stream or of a stretch of memory. -/
abbrev Bytes := List UInt8

/-- Addition of two `size_t`. -/
def sizeAdd (a b : Nat) : Nat := (a + b) % 18446744073709551616

def sizeSub (a b : Nat) : Nat := if b ≤ a then a - b else a + 18446744073709551616 - b

/-- Conversion of a signed value to `size_t`, or to any other unsigned 64-bit type. -/
def toSize (i : Int) : Nat := (i % 18446744073709551616).toNat

/-- Conversion to a signed 32-bit `int`. -/
def toInt32 (i : Int) : Int := (i + 2147483648) % 4294967296 - 2147483648

theorem sizeAdd_of_lt {a b : Nat} (h : a + b < 2 ^ 64) : sizeAdd a b = a + b := by
  unfold sizeAdd
  omega

theorem sizeSub_of_le {a b : Nat} (h : b ≤ a) : sizeSub a b = a - b :=
  if_pos h

theorem toSize_of_nonneg {i : Int} (h0 : 0 ≤ i) (h : i < 2 ^ 64) : toSize i = i.toNat := by
  unfold toSize
  omega

theorem toSize_of_neg {i : Int} (h0 : i < 0) (h : -(2 ^ 63) ≤ i) : 2 ^ 63 ≤ toSize i := by
  unfold toSize
  omega

theorem toInt32_of_bounds {i : Int} (h0 : -(2 ^ 31) ≤ i) (h : i < 2 ^ 31) : toInt32 i = i := by
  unfold toInt32
  omega

theorem toInt32_bounds (i : Int) : -(2 ^ 31) ≤ toInt32 i ∧ toInt32 i < 2 ^ 31 := by
  unfold toInt32
  omega

/-! ### Network byte order -/

/-- The `width` low bytes of `n`, the most significant one first. -/
def bigEndian : (width : Nat) → (n : Nat) → Bytes
  | 0, _ => []
  | width + 1, n => bigEndian width (n / 256) ++ [UInt8.ofNat n]

def ofBigEndian (bytes : Bytes) : Nat :=
  bytes.foldl (fun n byte => n * 256 + byte.toNat) 0

@[simp]
theorem length_bigEndian (width n : Nat) : (bigEndian width n).length = width := by
  induction width generalizing n with
  | zero => rfl
  | succ width ih => simp [bigEndian, ih]

theorem ofBigEndian_append_singleton (bytes : Bytes) (byte : UInt8) :
    ofBigEndian (bytes ++ [byte]) = ofBigEndian bytes * 256 + byte.toNat := by
  simp [ofBigEndian, List.foldl_append]

theorem ofBigEndian_bigEndian (width n : Nat) :
    ofBigEndian (bigEndian width n) = n % 256 ^ width := by
  induction width generalizing n with
  | zero => simp [bigEndian, ofBigEndian, Nat.mod_one]
  | succ width ih =>
      rw [bigEndian, ofBigEndian_append_singleton, ih]
      have hbyte : (UInt8.ofNat n).toNat = n % 256 := by simp
      rw [hbyte, pow_succ, Nat.mul_comm (256 ^ width) 256, Nat.mod_mul]
      ring

theorem ofBigEndian_bigEndian_of_lt {width n : Nat} (h : n < 256 ^ width) :
    ofBigEndian (bigEndian width n) = n := by
  rw [ofBigEndian_bigEndian, Nat.mod_eq_of_lt h]

end Words
