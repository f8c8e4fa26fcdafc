import ToyBasket.Lib.Crc
import ToyBasket.Lib.Words

/-!
# The checksums

`getCrcCheck` of `Serial.cpp` and of `ComponentBase.cpp`, which differ in the type of the elements
only: a byte is promoted to `int` before it is shifted to its place in a word. A buffer and its
length are one list.
-/

namespace ToyBasket

open Words Crc

def xCode : BitVec 32 := 0x04C11DB7

/-- `count` rounds of the loop over the bits of `temp`. -/
def crcBits (temp : BitVec 32) : (count : Nat) → (reCrc xbit : BitVec 32) → BitVec 32
  | 0, reCrc, _ => reCrc
  | count + 1, reCrc, xbit =>
      let reCrc := if reCrc &&& 0x80000000 ≠ 0 then reCrc <<< 1 ^^^ xCode else reCrc <<< 1
      let reCrc := if temp &&& xbit ≠ 0 then reCrc ^^^ xCode else reCrc
      crcBits temp count reCrc (xbit >>> 1)

/-- The loop that packs the next `cnt` bytes. -/
def crcTemp (promote : UInt8 → BitVec 32) (ptr : Bytes) (cnt : Nat) : BitVec 32 :=
  (List.range cnt).foldl (fun temp j => temp ||| promote (ptr.getD j 0) <<< (8 * j)) 0

def crcLoop (promote : UInt8 → BitVec 32) (ptr : Bytes) (reCrc : BitVec 32) : BitVec 32 :=
  if 0 < ptr.length then
    let cnt := if 4 < ptr.length then 4 else ptr.length
    crcLoop promote (ptr.drop cnt) (crcBits (crcTemp promote ptr cnt) 32 reCrc 0x80000000)
  else reCrc
termination_by ptr.length
decreasing_by
  rw [List.length_drop]
  split <;> omega

namespace Serial

def getCrcCheck (buf : Bytes) : BitVec 32 :=
  crcLoop (fun byte => byte.toBitVec.zeroExtend 32) buf 0xFFFFFFFF

end Serial

namespace ComponentBase

/-- `char` is signed. -/
def getCrcCheck (buf : Bytes) : BitVec 32 :=
  crcLoop (fun byte => byte.toBitVec.signExtend 32) buf 0xFFFFFFFF

end ComponentBase

/-! ### The words of a buffer -/

/-- The words that a buffer is cut into, the last one filled up with zeroes. -/
def wordCount (buf : Bytes) : Nat := (buf.length + 3) / 4

/-- Word number `i`, the first byte being the lowest. -/
def word (buf : Bytes) (i : Nat) : BitVec 32 :=
  (buf.getD (4 * i + 3) 0).toBitVec ++ (buf.getD (4 * i + 2) 0).toBitVec ++
    (buf.getD (4 * i + 1) 0).toBitVec ++ (buf.getD (4 * i) 0).toBitVec

/-- The bits in the order in which `Serial::getCrcCheck` takes them. -/
def bitStream (buf : Bytes) : List Bool :=
  (List.range (wordCount buf)).flatMap fun i => topFirst (word buf i)

/-! ### The loops -/

section Loops

variable {promote : UInt8 → BitVec 32} {buf : Bytes}

theorem and_ne_zero_iff (temp : BitVec 32) {i : Nat} (hi : i < 32) :
    temp &&& (0x80000000 : BitVec 32) >>> i ≠ 0 ↔ temp.getMsbD i = true := by
  have hbit : (0x80000000 : BitVec 32) >>> i = BitVec.twoPow 32 (31 - i) := by
    revert i
    decide
  have hone : BitVec.twoPow 32 (31 - i) ≠ 0 := by
    revert i
    decide
  rw [hbit, BitVec.and_twoPow, BitVec.getMsbD_eq_getLsbD, decide_eq_true hi, Bool.true_and]
  split
  · rename_i hset
    exact iff_of_true hone hset
  · rename_i hset
    exact iff_of_false (fun hne => hne rfl) hset

theorem round_eq (temp reCrc : BitVec 32) {i : Nat} (hi : i < 32) :
    (if temp &&& (0x80000000 : BitVec 32) >>> i ≠ 0 then
      (if reCrc &&& 0x80000000 ≠ 0 then reCrc <<< 1 ^^^ xCode else reCrc <<< 1) ^^^ xCode
    else if reCrc &&& 0x80000000 ≠ 0 then reCrc <<< 1 ^^^ xCode else reCrc <<< 1) =
      feed xCode reCrc (temp.getMsbD i) := by
  have htop : (reCrc &&& 0x80000000 ≠ 0) ↔ reCrc.msb = true :=
    and_ne_zero_iff reCrc (i := 0) (by decide)
  simp only [feed, shift, htop, and_ne_zero_iff temp hi]

/-- A round feeds the register with a bit. -/
theorem crcBits_eq (temp reCrc : BitVec 32) {count : Nat} (hcount : count ≤ 32) :
    crcBits temp count reCrc ((0x80000000 : BitVec 32) >>> (32 - count)) =
      ((topFirst temp).drop (32 - count)).foldl (feed xCode) reCrc := by
  induction count generalizing reCrc with
  | zero =>
      rw [List.drop_eq_nil_of_le (length_topFirst temp).le]
      rfl
  | succ count ih =>
      have hnext : ((0x80000000 : BitVec 32) >>> (32 - (count + 1))) >>> 1 =
          (0x80000000 : BitVec 32) >>> (32 - count) := by
        rw [← BitVec.shiftRight_add]
        congr 1
        omega
      have hindex : 32 - (count + 1) + 1 = 32 - count := by omega
      have hlt : 32 - (count + 1) < (topFirst temp).length := by
        rw [length_topFirst]
        omega
      rw [crcBits, hnext, List.drop_eq_getElem_cons hlt, hindex, List.foldl_cons,
        getElem_topFirst]
      simp only [round_eq temp reCrc (show 32 - (count + 1) < 32 by omega)]
      exact ih _ (by omega)

/-- The four bytes from a place on, promoted and packed. -/
def packed (promote : UInt8 → BitVec 32) (buf : Bytes) (i : Nat) : BitVec 32 :=
  crcTemp promote (buf.drop (4 * i)) 4

/-- Bytes that are not there are packed like zeroes. -/
theorem crcTemp_eq_packed (hzero : promote 0 = 0) (buf : Bytes) :
    crcTemp promote buf (if 4 < buf.length then 4 else buf.length) = packed promote buf 0 := by
  match buf with
  | [] => simp [crcTemp, packed, List.range_succ, hzero]
  | [a] => simp [crcTemp, packed, List.range_succ, hzero]
  | [a, b] => simp [crcTemp, packed, List.range_succ, hzero]
  | [a, b, c] => simp [crcTemp, packed, List.range_succ, hzero]
  | [a, b, c, d] => rfl
  | a :: b :: c :: d :: e :: rest =>
      rw [if_pos (by simp)]
      rfl

theorem packed_drop (promote : UInt8 → BitVec 32) (buf : Bytes) (i : Nat) :
    packed promote (buf.drop (if 4 < buf.length then 4 else buf.length)) i =
      packed promote buf (i + 1) := by
  have hdrop : (buf.drop (if 4 < buf.length then 4 else buf.length)).drop (4 * i) =
      buf.drop (4 * (i + 1)) := by
    split
    · rw [List.drop_drop, Nat.mul_succ, Nat.add_comm]
    · rw [List.drop_length, List.drop_nil, List.drop_eq_nil_of_le (by omega)]
  rw [packed, hdrop, packed]

theorem crcLoop_eq (hzero : promote 0 = 0) (buf : Bytes) (reCrc : BitVec 32) :
    crcLoop promote buf reCrc =
      ((List.range (wordCount buf)).flatMap fun i => topFirst (packed promote buf i)).foldl
        (feed xCode) reCrc := by
  fun_induction crcLoop promote buf reCrc with
  | case1 buf reCrc hpos cnt ih =>
      have hcnt : cnt = if 4 < buf.length then 4 else buf.length := dite_eq_ite
      have htemp : crcTemp promote buf cnt = packed promote buf 0 := by
        rw [hcnt]
        exact crcTemp_eq_packed hzero buf
      have hrest : ∀ i, packed promote (buf.drop cnt) i = packed promote buf (i + 1) := by
        rw [hcnt]
        exact packed_drop promote buf
      have hcount : wordCount buf = wordCount (buf.drop cnt) + 1 := by
        rw [hcnt, wordCount, wordCount, List.length_drop]
        split <;> omega
      have hword := crcBits_eq (packed promote buf 0) reCrc (Nat.le_refl 32)
      rw [Nat.sub_self, BitVec.ushiftRight_zero, List.drop_zero] at hword
      rw [ih, hcount, List.range_succ_eq_map, List.flatMap_cons, List.foldl_append,
        List.flatMap_map, htemp, hword]
      simp only [hrest, Nat.succ_eq_add_one]
  | case2 buf reCrc hempty =>
      have hcount : wordCount buf = 0 := by
        simp only [wordCount]
        omega
      rw [hcount]
      rfl

theorem packed_eq (promote : UInt8 → BitVec 32) (buf : Bytes) (i : Nat) :
    packed promote buf i =
      promote (buf.getD (4 * i) 0) ||| promote (buf.getD (4 * i + 1) 0) <<< 8 |||
        promote (buf.getD (4 * i + 2) 0) <<< 16 ||| promote (buf.getD (4 * i + 3) 0) <<< 24 := by
  simp [packed, crcTemp, List.range_succ]

theorem append_bytes_eq (a b c d : BitVec 8) :
    (a.zeroExtend 32 ||| b.zeroExtend 32 <<< 8 ||| c.zeroExtend 32 <<< 16 |||
      d.zeroExtend 32 <<< 24 : BitVec 32) = d ++ c ++ b ++ a := by
  grind

theorem packed_zeroExtend (buf : Bytes) (i : Nat) :
    packed (fun byte => byte.toBitVec.zeroExtend 32) buf i = word buf i := by
  rw [packed_eq, append_bytes_eq, word]

end Loops

/-! ### The remainder -/

section Remainder

variable {buf buf' : Bytes}

theorem getCrcCheck_eq_foldl (buf : Bytes) :
    Serial.getCrcCheck buf = (bitStream buf).foldl (feed xCode) 0xFFFFFFFF := by
  rw [Serial.getCrcCheck, crcLoop_eq (by decide)]
  simp only [packed_zeroExtend, bitStream]

open Polynomial in
/-- The check of `Serial` is a remainder over `ZMod 2`. -/
theorem toPoly_getCrcCheck (buf : Bytes) :
    toPoly (Serial.getCrcCheck buf) =
      (toPoly (0xFFFFFFFF : BitVec 32) * X ^ (32 * wordCount buf) +
        (∑ i ∈ Finset.range (wordCount buf),
          toPoly (word buf i) * X ^ (32 * (wordCount buf - 1 - i))) * X ^ 32) %ₘ
            (X ^ 32 + toPoly (0x04C11DB7 : BitVec 32)) := by
  rw [getCrcCheck_eq_foldl, toPoly_foldl_feed, bitStream, length_flatMap_topFirst,
    messagePoly_flatMap]
  rfl

end Remainder

/-! ### Bursts -/

section Burst

variable {buf buf' : Bytes}

theorem append_inj {m n : Nat} {x x' : BitVec m} {y y' : BitVec n} (h : x ++ y = x' ++ y') :
    x = x' ∧ y = y' := by
  have hbit (i : Nat) : (x ++ y).getLsbD i = (x' ++ y').getLsbD i := by rw [h]
  constructor
  · apply BitVec.eq_of_getLsbD_eq
    intro i _
    simpa [BitVec.getLsbD_append] using hbit (n + i)
  · apply BitVec.eq_of_getLsbD_eq
    intro i hi
    simpa [BitVec.getLsbD_append, hi] using hbit i

theorem getD_eq_of_word_eq {i : Nat} (h : word buf i = word buf' i) {j : Nat} (hj : j < 4) :
    buf.getD (4 * i + j) 0 = buf'.getD (4 * i + j) 0 := by
  obtain ⟨hrest, hfirst⟩ := append_inj h
  obtain ⟨hrest, hsecond⟩ := append_inj hrest
  obtain ⟨hfourth, hthird⟩ := append_inj hrest
  apply UInt8.toBitVec_inj.mp
  obtain rfl | rfl | rfl | rfl : j = 0 ∨ j = 1 ∨ j = 2 ∨ j = 3 := by omega
  · exact hfirst
  · exact hsecond
  · exact hthird
  · exact hfourth

/-- The words of a buffer are the buffer. -/
theorem bitStream_inj (hlength : buf.length = buf'.length) (h : bitStream buf = bitStream buf') :
    buf = buf' := by
  apply List.ext_getElem hlength
  intro p hp hp'
  have hcount : wordCount buf = wordCount buf' := by rw [wordCount, hlength, wordCount]
  rw [bitStream, bitStream, ← hcount] at h
  have hword := flatMap_topFirst_inj h (i := p / 4) (by rw [wordCount]; omega)
  have hbyte := getD_eq_of_word_eq hword (Nat.mod_lt p (by decide))
  rw [Nat.div_add_mod] at hbyte
  simpa [List.getD_eq_getElem?_getD, hp, hp'] using hbyte

/-- Buffers of one length that differ within 32 consecutive bits have different checks. -/
theorem getCrcCheck_ne (hlength : buf.length = buf'.length) (hne : buf ≠ buf') {start : Nat}
    (hwindow : ∀ i, (bitStream buf)[i]? ≠ (bitStream buf')[i]? → start ≤ i ∧ i < start + 32) :
    Serial.getCrcCheck buf ≠ Serial.getCrcCheck buf' := by
  rw [getCrcCheck_eq_foldl, getCrcCheck_eq_foldl]
  have hbits : (bitStream buf).length = (bitStream buf').length := by
    rw [bitStream, bitStream, length_flatMap_topFirst, length_flatMap_topFirst, wordCount,
      hlength, wordCount]
  exact foldl_feed_ne (by decide) hbits (fun h => hne (bitStream_inj hlength h)) hwindow

/-- A burst across two words. -/
theorem getCrcCheck_ne_acrossWords :
    Serial.getCrcCheck [1, 0, 0, 0, 0, 0, 0, 0x80] ≠
      Serial.getCrcCheck [0, 0, 0, 0, 0, 0, 0, 0] := by
  have hin : ∀ i < 64, (bitStream [1, 0, 0, 0, 0, 0, 0, 0x80])[i]? ≠
      (bitStream [0, 0, 0, 0, 0, 0, 0, 0])[i]? → 31 ≤ i ∧ i < 31 + 32 := by
    decide +kernel
  have hwindow : ∀ i, (bitStream [1, 0, 0, 0, 0, 0, 0, 0x80])[i]? ≠
      (bitStream [0, 0, 0, 0, 0, 0, 0, 0])[i]? → 31 ≤ i ∧ i < 31 + 32 := by
    intro i hdiffer
    by_cases hi : i < 64
    · exact hin i hi hdiffer
    · rw [List.getElem?_eq_none (Nat.le_of_not_lt hi),
        List.getElem?_eq_none (Nat.le_of_not_lt hi)] at hdiffer
      exact absurd rfl hdiffer
  exact getCrcCheck_ne rfl (by decide) hwindow

end Burst

end ToyBasket
