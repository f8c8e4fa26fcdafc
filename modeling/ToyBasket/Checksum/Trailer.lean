import ToyBasket.Checksum

/-!
# A checksum behind its buffer

Behind a buffer that is filled up to whole words, the check of `Serial` in the order of its own
words makes the check of the whole zero.
-/

namespace ToyBasket

open Words Crc

/-- The buffer with the zeroes that its last word is filled up with. -/
def filledUp (buf : Bytes) : Bytes := buf ++ List.replicate (4 * wordCount buf - buf.length) 0

section Trailer

variable {buf trailer : Bytes}

theorem length_filledUp (buf : Bytes) : (filledUp buf).length = 4 * wordCount buf := by
  rw [filledUp, List.length_append, List.length_replicate, wordCount]
  omega

theorem getD_filledUp (buf : Bytes) (i : Nat) : (filledUp buf).getD i 0 = buf.getD i 0 := by
  simp only [filledUp, List.getD_eq_getElem?_getD]
  by_cases hi : i < buf.length
  · rw [List.getElem?_append_left hi]
  · rw [List.getElem?_append_right (Nat.le_of_not_lt hi), List.getElem?_replicate,
      List.getElem?_eq_none (Nat.le_of_not_lt hi)]
    split <;> rfl

theorem bitStream_filledUp (buf : Bytes) : bitStream (filledUp buf) = bitStream buf := by
  have hcount : wordCount (filledUp buf) = wordCount buf := by
    rw [wordCount, length_filledUp]
    omega
  have hword : ∀ i, word (filledUp buf) i = word buf i := by
    intro i
    simp only [word, getD_filledUp]
  rw [bitStream, hcount, bitStream]
  simp only [hword]

theorem bitStream_append (h : 4 ∣ buf.length) (rest : Bytes) :
    bitStream (buf ++ rest) = bitStream buf ++ bitStream rest := by
  have hcount : wordCount (buf ++ rest) = wordCount buf + wordCount rest := by
    rw [wordCount, List.length_append, wordCount, wordCount]
    omega
  have hfirst : ∀ i ∈ List.range (wordCount buf), word (buf ++ rest) i = word buf i := by
    intro i hi
    have hlt : 4 * i + 3 < buf.length := by
      rw [List.mem_range, wordCount] at hi
      omega
    have hbyte : ∀ j, j ≤ 4 * i + 3 → (buf ++ rest).getD j 0 = buf.getD j 0 := by
      intro j hj
      rw [List.getD_eq_getElem?_getD, List.getElem?_append_left (by omega),
        ← List.getD_eq_getElem?_getD]
    rw [word, hbyte _ (by omega), hbyte _ (by omega), hbyte _ (by omega), hbyte _ (by omega), word]
  have hlast : ∀ i, word (buf ++ rest) (wordCount buf + i) = word rest i := by
    intro i
    have hbyte : ∀ j, (buf ++ rest).getD (4 * (wordCount buf + i) + j) 0 =
        rest.getD (4 * i + j) 0 := by
      intro j
      have hindex : 4 * (wordCount buf + i) + j - buf.length = 4 * i + j := by
        rw [wordCount]
        omega
      have hle : buf.length ≤ 4 * (wordCount buf + i) + j := by
        rw [wordCount]
        omega
      rw [List.getD_eq_getElem?_getD, List.getElem?_append_right hle, hindex,
        ← List.getD_eq_getElem?_getD]
    have hzero := hbyte 0
    rw [Nat.add_zero, Nat.add_zero] at hzero
    rw [word, hbyte, hbyte, hbyte, hzero, word]
  calc bitStream (buf ++ rest)
      = ((List.range (wordCount buf)).flatMap fun i => topFirst (word (buf ++ rest) i)) ++
          ((List.range (wordCount rest)).map (wordCount buf + ·)).flatMap
            fun i => topFirst (word (buf ++ rest) i) := by
        rw [bitStream, hcount, List.range_add, List.flatMap_append]
    _ = bitStream buf ++ bitStream rest := by
        rw [List.flatMap_map]
        congr 1
        · exact List.flatMap_congr fun i hi => by rw [hfirst i hi]
        · exact List.flatMap_congr fun i _ => by rw [hlast]

theorem bitStream_of_length (h : trailer.length = 4) :
    bitStream trailer = topFirst (word trailer 0) := by
  have hcount : wordCount trailer = 1 := by rw [wordCount, h]
  rw [bitStream, hcount]
  exact List.append_nil _

/-- Of the words that can stand behind a buffer, its check alone makes the check of the whole
zero. -/
theorem getCrcCheck_trailer_iff (buf : Bytes) (htrailer : trailer.length = 4) :
    Serial.getCrcCheck (filledUp buf ++ trailer) = 0 ↔
      word trailer 0 = Serial.getCrcCheck buf := by
  have hwhole : 4 ∣ (filledUp buf).length := by
    rw [length_filledUp]
    exact Nat.dvd_mul_right _ _
  have hcheck : Serial.getCrcCheck (filledUp buf ++ trailer) =
      (topFirst (word trailer 0)).foldl (feed xCode) (Serial.getCrcCheck buf) := by
    rw [getCrcCheck_eq_foldl, bitStream_append hwhole, bitStream_filledUp,
      bitStream_of_length htrailer, List.foldl_append, ← getCrcCheck_eq_foldl]
  rw [hcheck]
  exact foldl_feed_topFirst_eq_zero_iff (by decide) _

/-- Three bytes, filled up, and their check with its lowest byte first. -/
theorem getCrcCheck_trailer_iff_threeBytes :
    Serial.getCrcCheck [1, 2, 3, 0, 74, 171, 94, 97] = 0 := by
  have hcheck : word [74, 171, 94, 97] 0 = Serial.getCrcCheck [1, 2, 3] := by
    rw [getCrcCheck_eq_foldl]
    decide +kernel
  exact (getCrcCheck_trailer_iff [1, 2, 3] rfl).mpr hcheck

end Trailer

end ToyBasket
