import ToyBasket.Checksum

/-!
# Signed bytes

A negative `char` is promoted to an `int` whose upper bits are set, and packed these stand where
the bytes behind it belong. The checksum of `ComponentBase` is that of words with more bits.
-/

namespace ToyBasket

open Words Crc Polynomial

/-- The bits that the promotion of a negative `char` sets. -/
def signBits (byte : UInt8) : BitVec 32 :=
  if byte.toBitVec.msb = true then BitVec.allOnes 32 <<< 8 else 0

/-- The bits that the signs of its bytes add to a word. -/
def addedBits (buf : Bytes) (i : Nat) : BitVec 32 := packed signBits buf i &&& ~~~word buf i

section Signed

variable {buf : Bytes}

theorem getLsbD_signBits (byte : UInt8) {i : Nat} (hi : i < 32) :
    (signBits byte).getLsbD i = (byte.toBitVec.msb && decide (8 ≤ i)) := by
  rw [signBits]
  split
  · rename_i hmsb
    rw [hmsb, BitVec.getLsbD_shiftLeft, BitVec.getLsbD_allOnes]
    by_cases hlow : i < 8
    · simp [hlow]
    · simp [hi, hlow]
      omega
  · rename_i hmsb
    simp [hmsb]

theorem signExtend_eq (byte : UInt8) :
    byte.toBitVec.signExtend 32 = byte.toBitVec.zeroExtend 32 ||| signBits byte := by
  apply BitVec.eq_of_getLsbD_eq
  intro i hi
  rw [BitVec.getLsbD_or, BitVec.getLsbD_signExtend, getLsbD_signBits byte hi]
  by_cases hlow : i < 8
  · simp [hi, hlow]
  · simp [hi, hlow, BitVec.getLsbD_of_ge _ i (Nat.le_of_not_lt hlow)]
    omega

theorem or_or_or_comm (a b c d a' b' c' d' : BitVec 32) :
    (a ||| a') ||| (b ||| b') ||| (c ||| c') ||| (d ||| d') =
      (a ||| b ||| c ||| d) ||| (a' ||| b' ||| c' ||| d') := by
  ac_rfl

theorem packed_or (f g : UInt8 → BitVec 32) (buf : Bytes) (i : Nat) :
    packed (fun byte => f byte ||| g byte) buf i = packed f buf i ||| packed g buf i := by
  simp only [packed_eq, BitVec.shiftLeft_or_distrib, or_or_or_comm]

theorem packed_signExtend (buf : Bytes) (i : Nat) :
    packed (fun byte => byte.toBitVec.signExtend 32) buf i =
      word buf i ||| packed signBits buf i := by
  simp only [signExtend_eq, packed_or, packed_zeroExtend]

theorem or_xor_eq (v w : BitVec 32) : (v ||| w) ^^^ v = w &&& ~~~v := by
  ext i hi
  rw [BitVec.getElem_xor, BitVec.getElem_or, BitVec.getElem_and, BitVec.getElem_not]
  cases v[i] <;> cases w[i] <;> rfl

theorem componentBase_getCrcCheck_eq_foldl (buf : Bytes) :
    ComponentBase.getCrcCheck buf =
      ((List.range (wordCount buf)).flatMap fun i =>
        topFirst (word buf i ||| packed signBits buf i)).foldl (feed xCode) 0xFFFFFFFF := by
  rw [ComponentBase.getCrcCheck, crcLoop_eq (by decide)]
  simp only [packed_signExtend]

theorem messagePoly_add_bitStream (buf : Bytes) :
    messagePoly ((List.range (wordCount buf)).flatMap fun i =>
        topFirst (word buf i ||| packed signBits buf i)) + messagePoly (bitStream buf) =
      ∑ i ∈ Finset.range (wordCount buf),
        toPoly (addedBits buf i) * X ^ (32 * (wordCount buf - 1 - i)) := by
  have hadded (i : Nat) : toPoly (word buf i ||| packed signBits buf i) + toPoly (word buf i) =
      toPoly (addedBits buf i) := by
    rw [← toPoly_xor, or_xor_eq, addedBits]
  rw [bitStream, messagePoly_flatMap, messagePoly_flatMap, ← Finset.sum_add_distrib]
  simp only [← add_mul, hadded]

theorem length_eq_length_bitStream (words : Nat → BitVec 32) (buf : Bytes) :
    ((List.range (wordCount buf)).flatMap fun i => topFirst (words i)).length =
      (bitStream buf).length := by
  rw [bitStream, length_flatMap_topFirst, length_flatMap_topFirst]

/-- The two checks are the same exactly when the bits that signs add are a multiple of the
generator. -/
theorem getCrcCheck_eq_iff (buf : Bytes) :
    ComponentBase.getCrcCheck buf = Serial.getCrcCheck buf ↔
      (X ^ 32 + toPoly (0x04C11DB7 : BitVec 32)) ∣
        ∑ i ∈ Finset.range (wordCount buf),
          toPoly (addedBits buf i) * X ^ (32 * (wordCount buf - 1 - i)) := by
  rw [componentBase_getCrcCheck_eq_foldl, getCrcCheck_eq_foldl,
    foldl_feed_eq_iff (by decide) (length_eq_length_bitStream _ buf), messagePoly_add_bitStream]
  rfl

/-- The signs of one negative byte fill up the word. -/
theorem getCrcCheck_ne_negative :
    ComponentBase.getCrcCheck [0x80] ≠ Serial.getCrcCheck [0x80] := by
  rw [componentBase_getCrcCheck_eq_foldl, getCrcCheck_eq_foldl]
  decide +kernel

/-! ### Words without added bits -/

theorem getLsbD_word (buf : Bytes) (i : Nat) {k r : Nat} (hk : k < 4) (hr : r < 8) :
    (word buf i).getLsbD (8 * k + r) = (buf.getD (4 * i + k) 0).toBitVec.getLsbD r := by
  rw [word, BitVec.getLsbD_append, BitVec.getLsbD_append, BitVec.getLsbD_append]
  obtain rfl | rfl | rfl | rfl : k = 0 ∨ k = 1 ∨ k = 2 ∨ k = 3 := by omega
  · rw [if_pos (by omega), Nat.mul_zero, Nat.zero_add]
    rfl
  · rw [if_neg (by omega), if_pos (by omega), Nat.mul_one, Nat.add_sub_cancel_left]
  · rw [if_neg (by omega), if_neg (by omega), if_pos (by omega),
      show 8 * 2 + r - 8 - 8 = r by omega]
  · rw [if_neg (by omega), if_neg (by omega), if_neg (by omega),
      show 8 * 3 + r - 8 - 8 - 8 = r by omega]

theorem getLsbD_signBits_shiftLeft (byte : UInt8) (j : Nat) {k r : Nat} (hk : k < 4)
    (hr : r < 8) :
    (signBits byte <<< (8 * j)).getLsbD (8 * k + r) = true ↔
      j < k ∧ byte.toBitVec.msb = true := by
  have hwidth : 8 * k + r < 32 := by omega
  have hbehind : 8 * j ≤ 8 * k + r ∧ 8 ≤ 8 * k + r - 8 * j ↔ j < k := by omega
  rw [BitVec.getLsbD_shiftLeft, getLsbD_signBits byte (by omega), ← hbehind]
  simp [hwidth, and_assoc, and_comm]

theorem getLsbD_packed_signBits (buf : Bytes) (i : Nat) {k r : Nat} (hk : k < 4) (hr : r < 8) :
    (packed signBits buf i).getLsbD (8 * k + r) = true ↔
      ∃ j < k, (buf.getD (4 * i + j) 0).toBitVec.msb = true := by
  have hpacked : packed signBits buf i =
      signBits (buf.getD (4 * i + 0) 0) <<< (8 * 0) |||
        signBits (buf.getD (4 * i + 1) 0) <<< (8 * 1) |||
        signBits (buf.getD (4 * i + 2) 0) <<< (8 * 2) |||
        signBits (buf.getD (4 * i + 3) 0) <<< (8 * 3) := by
    rw [packed_eq, Nat.mul_zero, BitVec.shiftLeft_zero]
    rfl
  simp only [hpacked, BitVec.getLsbD_or, Bool.or_eq_true, getLsbD_signBits_shiftLeft _ _ hk hr]
  constructor
  · rintro (((h | h) | h) | h)
    · exact ⟨0, h⟩
    · exact ⟨1, h⟩
    · exact ⟨2, h⟩
    · exact ⟨3, h⟩
  · rintro ⟨j, hj, hmsb⟩
    obtain rfl | rfl | rfl : j = 0 ∨ j = 1 ∨ j = 2 := by omega
    · exact .inl (.inl (.inl ⟨hj, hmsb⟩))
    · exact .inl (.inl (.inr ⟨hj, hmsb⟩))
    · exact .inl (.inr ⟨hj, hmsb⟩)

theorem getLsbD_ones {r : Nat} (hr : r < 8) : (0xFF : UInt8).toBitVec.getLsbD r = true := by
  revert r
  decide

/-- The sign of a byte adds no bit where only `0xFF` stands behind it in its word. -/
theorem addedBits_eq_zero_iff (buf : Bytes) (i : Nat) :
    addedBits buf i = 0 ↔
      ∀ k < 4, (∃ j < k, (buf.getD (4 * i + j) 0).toBitVec.msb = true) →
        buf.getD (4 * i + k) 0 = 0xFF := by
  constructor
  · intro hnone k hk hsign
    apply UInt8.toBitVec_inj.mp
    apply BitVec.eq_of_getLsbD_eq
    intro r hr
    have hset := (getLsbD_packed_signBits buf i hk hr).mpr hsign
    have hbit : (addedBits buf i).getLsbD (8 * k + r) = false := by
      rw [hnone]
      exact BitVec.getLsbD_zero
    rw [addedBits, BitVec.getLsbD_and, BitVec.getLsbD_not, hset, getLsbD_word buf i hk hr] at hbit
    rw [getLsbD_ones hr]
    simpa [show 8 * k + r < 32 by omega] using hbit
  · intro hfilled
    apply BitVec.eq_of_getLsbD_eq
    intro p hp
    have hk : p / 8 < 4 := by omega
    have hr : p % 8 < 8 := Nat.mod_lt p (by decide)
    rw [← Nat.div_add_mod p 8, addedBits, BitVec.getLsbD_and, BitVec.getLsbD_not,
      getLsbD_word buf i hk hr]
    by_cases hsign : ∃ j < p / 8, (buf.getD (4 * i + j) 0).toBitVec.msb = true
    · rw [hfilled (p / 8) hk hsign, getLsbD_ones hr]
      simp
    · have hclear := mt (getLsbD_packed_signBits buf i hk hr).mp hsign
      simp [hclear]

/-- The checks are the same where no sign adds a bit, as in a text of seven-bit characters. -/
theorem getCrcCheck_eq_of_filled
    (hfilled : ∀ i < wordCount buf, ∀ k < 4,
      (∃ j < k, (buf.getD (4 * i + j) 0).toBitVec.msb = true) → buf.getD (4 * i + k) 0 = 0xFF) :
    ComponentBase.getCrcCheck buf = Serial.getCrcCheck buf := by
  rw [componentBase_getCrcCheck_eq_foldl, getCrcCheck_eq_foldl,
    foldl_feed_eq_iff (by decide) (length_eq_length_bitStream _ buf), messagePoly_add_bitStream,
    Finset.sum_eq_zero]
  · exact dvd_zero _
  · intro i hi
    rw [(addedBits_eq_zero_iff buf i).mpr (hfilled i (Finset.mem_range.mp hi)), toPoly_zero,
      zero_mul]

/-- Where a single word gets bits added, they show. -/
theorem getCrcCheck_ne_of_onlyWord {i : Nat} (hi : i < wordCount buf)
    (hadded : addedBits buf i ≠ 0) (honly : ∀ j ≠ i, addedBits buf j = 0) :
    ComponentBase.getCrcCheck buf ≠ Serial.getCrcCheck buf := by
  rw [componentBase_getCrcCheck_eq_foldl, getCrcCheck_eq_foldl, Ne,
    foldl_feed_eq_iff (by decide) (length_eq_length_bitStream _ buf), messagePoly_add_bitStream,
    Finset.sum_eq_single i, mul_comm]
  · have hpoly : toPoly (addedBits buf i) ≠ 0 := fun hzero =>
      hadded (toPoly_injective (hzero.trans toPoly_zero.symm))
    exact not_dvd_of_degree_lt (by decide) hpoly (degree_toPoly_lt _) _
  · intro j _ hj
    rw [honly j hj, toPoly_zero, zero_mul]
  · intro hout
    exact absurd (Finset.mem_range.mpr hi) hout

end Signed

end ToyBasket
