import ToyBasket.StringPiece

/-!
# The order of string pieces

The comparisons of `StringPiece` go by the bytes that the pieces stand for: they are the
lexicographic order, in which a byte is without a sign and a beginning comes first.
-/

namespace ToyBasket

open Words Outcome

/-- The difference of the first two bytes that differ. -/
def firstDifference : Bytes → Bytes → Int
  | x :: xs, y :: ys => if x = y then firstDifference xs ys else x.toNat - y.toNat
  | _, _ => 0

/-- `memcmp`, of which only the sign counts. -/
def memcmp (s1 s2 : Bytes) (n : Nat) : Except Fault Int :=
  if n ≤ s1.length ∧ n ≤ s2.length then .ok (firstDifference (s1.take n) (s2.take n))
  else .error .outOfRange

namespace StringPiece

/-- `STRINGPIECE_BINARY_PREDICATE` -/
def binaryPredicate (cmp auxcmp : Int → Int → Bool) (a b : StringPiece) : Except Fault Bool := do
  let r ← memcmp a.ptr b.ptr (toSize (if a.length < b.length then a.length else b.length))
  return auxcmp r 0 || (r = 0 && cmp a.length b.length)

def lt : StringPiece → StringPiece → Except Fault Bool := binaryPredicate (· < ·) (· < ·)

def le : StringPiece → StringPiece → Except Fault Bool := binaryPredicate (· ≤ ·) (· < ·)

def ge : StringPiece → StringPiece → Except Fault Bool := binaryPredicate (· ≥ ·) (· > ·)

def gt : StringPiece → StringPiece → Except Fault Bool := binaryPredicate (· > ·) (· > ·)

def eq (a b : StringPiece) : Except Fault Bool :=
  if a.length = b.length then do
    let r ← memcmp a.ptr b.ptr (toSize a.length)
    return r = 0
  else .ok false

def compare (a b : StringPiece) : Except Fault Int := do
  let r ← memcmp a.ptr b.ptr (toSize (if a.length < b.length then a.length else b.length))
  return if r = 0 then (if a.length < b.length then -1 else if a.length > b.length then 1 else r)
    else r

def startsWith (a b : StringPiece) : Except Fault Bool :=
  if a.length ≥ b.length then do
    let r ← memcmp a.ptr b.ptr (toSize b.length)
    return r = 0
  else .ok false

/-- The piece lies in the memory that the pointer points to. -/
structure Readable (piece : StringPiece) : Prop where
  nonneg : 0 ≤ piece.length
  le : piece.length ≤ piece.ptr.length
  int : piece.length < 2 ^ 31

def bytes (piece : StringPiece) : Bytes := piece.ptr.take piece.length.toNat

end StringPiece

/-! ### The first difference -/

theorem firstDifference_nil (s2 : Bytes) : firstDifference [] s2 = 0 := by
  cases s2 <;> rfl

theorem firstDifference_cons (x y : UInt8) (s1 s2 : Bytes) : firstDifference (x :: s1) (y :: s2) =
    if x = y then firstDifference s1 s2 else x.toNat - y.toNat := rfl

theorem firstDifference_swap (s1 s2 : Bytes) :
    firstDifference s2 s1 = -firstDifference s1 s2 := by
  induction s1 generalizing s2 with
  | nil =>
      rw [firstDifference_nil]
      cases s2 <;> rfl
  | cons x s1 ih =>
      cases s2 with
      | nil => rfl
      | cons y s2 =>
          rw [firstDifference_cons, firstDifference_cons]
          by_cases hxy : x = y
          · rw [if_pos hxy, if_pos hxy.symm, ih]
          · rw [if_neg hxy, if_neg (Ne.symm hxy)]
            omega

/-- It is found in what both have. -/
theorem firstDifference_take (s1 s2 : Bytes) :
    firstDifference (s1.take (min s1.length s2.length)) (s2.take (min s1.length s2.length)) =
      firstDifference s1 s2 := by
  induction s1 generalizing s2 with
  | nil => simp [firstDifference_nil]
  | cons x s1 ih =>
      cases s2 with
      | nil => rfl
      | cons y s2 =>
          rw [List.length_cons, List.length_cons, Nat.succ_min_succ, List.take_succ_cons,
            List.take_succ_cons, firstDifference_cons, firstDifference_cons, ih]

theorem lt_iff_firstDifference (s1 s2 : Bytes) : s1 < s2 ↔
    firstDifference s1 s2 < 0 ∨ (firstDifference s1 s2 = 0 ∧ s1.length < s2.length) := by
  induction s1 generalizing s2 with
  | nil =>
      rw [firstDifference_nil]
      cases s2 with
      | nil => simp
      | cons y s2 => simp
  | cons x s1 ih =>
      cases s2 with
      | nil => simp [firstDifference]
      | cons y s2 =>
          rw [List.cons_lt_cons_iff, firstDifference_cons, ih, List.length_cons, List.length_cons]
          by_cases hxy : x = y
          · subst hxy
            simp
          · have hne : x.toNat ≠ y.toNat := fun heq => hxy (UInt8.toNat_inj.mp heq)
            rw [if_neg hxy, UInt8.lt_iff_toNat_lt]
            simp only [hxy, false_and, or_false]
            omega

theorem eq_iff_firstDifference (s1 s2 : Bytes) : s1 = s2 ↔
    firstDifference s1 s2 = 0 ∧ s1.length = s2.length := by
  induction s1 generalizing s2 with
  | nil =>
      rw [firstDifference_nil]
      cases s2 <;> simp
  | cons x s1 ih =>
      cases s2 with
      | nil => simp
      | cons y s2 =>
          rw [List.cons_eq_cons, firstDifference_cons, ih, List.length_cons, List.length_cons]
          by_cases hxy : x = y
          · simp [hxy]
          · have hne : x.toNat ≠ y.toNat := fun heq => hxy (UInt8.toNat_inj.mp heq)
            rw [if_neg hxy]
            simp only [hxy, false_and, false_iff]
            omega

namespace StringPiece

variable {a b : StringPiece}

theorem Readable.length_bytes (h : a.Readable) : (a.bytes.length : Int) = a.length := by
  have hnonneg := h.nonneg
  have hle := h.le
  rw [bytes, List.length_take]
  omega

theorem Readable.toSize_length (h : a.Readable) : toSize a.length = a.bytes.length := by
  have hlength := h.length_bytes
  have hint := h.int
  rw [toSize_of_nonneg h.nonneg (by omega)]
  omega

theorem Readable.take_bytes (h : a.Readable) {k : Nat} (hk : k ≤ a.bytes.length) :
    a.ptr.take k = a.bytes.take k := by
  have hlength := h.length_bytes
  have hmin : min k a.length.toNat = k := by omega
  rw [bytes, List.take_take, hmin]

/-- What `memcmp` finds in bytes that both pieces have. -/
theorem memcmp_take (ha : a.Readable) (hb : b.Readable) {k : Nat} (hka : k ≤ a.bytes.length)
    (hkb : k ≤ b.bytes.length) :
    memcmp a.ptr b.ptr k = .ok (firstDifference (a.bytes.take k) (b.bytes.take k)) := by
  have hlengtha := ha.length_bytes
  have hlengthb := hb.length_bytes
  have hlea := ha.le
  have hleb := hb.le
  rw [memcmp, if_pos (by omega), ha.take_bytes hka, hb.take_bytes hkb]

theorem memcmp_min (ha : a.Readable) (hb : b.Readable) :
    memcmp a.ptr b.ptr (toSize (if a.length < b.length then a.length else b.length)) =
      .ok (firstDifference a.bytes b.bytes) := by
  have hlengtha := ha.length_bytes
  have hlengthb := hb.length_bytes
  have hmin : toSize (if a.length < b.length then a.length else b.length) =
      min a.bytes.length b.bytes.length := by
    split
    · rw [ha.toSize_length]
      omega
    · rw [hb.toSize_length]
      omega
  rw [hmin, memcmp_take ha hb (Nat.min_le_left _ _) (Nat.min_le_right _ _), firstDifference_take]

theorem binaryPredicate_eq (cmp auxcmp : Int → Int → Bool) (ha : a.Readable) (hb : b.Readable) :
    binaryPredicate cmp auxcmp a b =
      .ok (auxcmp (firstDifference a.bytes b.bytes) 0 ||
        (firstDifference a.bytes b.bytes = 0 && cmp a.bytes.length b.bytes.length)) := by
  rw [binaryPredicate, memcmp_min ha hb, ha.length_bytes, hb.length_bytes]
  rfl

theorem lt_eq (ha : a.Readable) (hb : b.Readable) : lt a b = .ok (decide (a.bytes < b.bytes)) := by
  rw [lt, binaryPredicate_eq _ _ ha hb]
  congr 1
  rw [Bool.eq_iff_iff, decide_eq_true_iff, lt_iff_firstDifference]
  simp

theorem gt_eq_lt (ha : a.Readable) (hb : b.Readable) : gt a b = lt b a := by
  rw [gt, lt, binaryPredicate_eq _ _ ha hb, binaryPredicate_eq _ _ hb ha, firstDifference_swap]
  simp

theorem le_eq (ha : a.Readable) (hb : b.Readable) : le a b = .ok (decide (a.bytes ≤ b.bytes)) := by
  rw [le, binaryPredicate_eq _ _ ha hb]
  congr 1
  rw [Bool.eq_iff_iff, decide_eq_true_iff, ← List.not_lt, lt_iff_firstDifference,
    firstDifference_swap]
  simp
  omega

theorem ge_eq_le (ha : a.Readable) (hb : b.Readable) : ge a b = le b a := by
  rw [ge, le, binaryPredicate_eq _ _ ha hb, binaryPredicate_eq _ _ hb ha, firstDifference_swap]
  simp

theorem eq_eq (ha : a.Readable) (hb : b.Readable) : eq a b = .ok (decide (a.bytes = b.bytes)) := by
  have hlengtha := ha.length_bytes
  have hlengthb := hb.length_bytes
  unfold eq
  split
  · rename_i hlength
    have hsame : a.bytes.length = b.bytes.length := by omega
    rw [ha.toSize_length, memcmp_take ha hb (Nat.le_refl _) hsame.le, List.take_length, hsame,
      List.take_length, ok_bind]
    refine congrArg Except.ok (decide_eq_decide.mpr ?_)
    rw [eq_iff_firstDifference a.bytes]
    exact (and_iff_left hsame).symm
  · rename_i hlength
    have hne : a.bytes ≠ b.bytes := by
      intro heq
      rw [heq] at hlengtha
      omega
    rw [decide_eq_false hne]

theorem compare_run (ha : a.Readable) (hb : b.Readable) : compare a b =
    .ok (if firstDifference a.bytes b.bytes = 0 then
      (if a.bytes.length < b.bytes.length then -1
        else if a.bytes.length > b.bytes.length then 1 else firstDifference a.bytes b.bytes)
      else firstDifference a.bytes b.bytes) := by
  rw [compare, memcmp_min ha hb, ← ha.length_bytes, ← hb.length_bytes]
  simp only [ok_bind, gt_iff_lt, Int.ofNat_lt]
  rfl

/-- `compare` is negative, zero or positive as the first piece is less, the same or greater. -/
theorem compare_eq (ha : a.Readable) (hb : b.Readable) : ∃ r, compare a b = .ok r ∧
    (r < 0 ↔ a.bytes < b.bytes) ∧ (r = 0 ↔ a.bytes = b.bytes) ∧ (0 < r ↔ b.bytes < a.bytes) := by
  refine ⟨_, compare_run ha hb, ?_⟩
  rw [lt_iff_firstDifference, lt_iff_firstDifference b.bytes, eq_iff_firstDifference,
    firstDifference_swap a.bytes b.bytes]
  generalize firstDifference a.bytes b.bytes = r
  generalize a.bytes.length = m
  generalize b.bytes.length = n
  split
  · split
    · omega
    · split <;> omega
  · omega

theorem startsWith_eq (ha : a.Readable) (hb : b.Readable) :
    startsWith a b = .ok (decide (b.bytes <+: a.bytes)) := by
  have hlengtha := ha.length_bytes
  have hlengthb := hb.length_bytes
  unfold startsWith
  split
  · rename_i hlength
    have hle : b.bytes.length ≤ a.bytes.length := by omega
    rw [hb.toSize_length, memcmp_take ha hb hle (Nat.le_refl _), List.take_length, ok_bind]
    refine congrArg Except.ok (decide_eq_decide.mpr ?_)
    rw [List.prefix_iff_eq_take, eq_comm (a := b.bytes), eq_iff_firstDifference]
    exact (and_iff_left (List.length_take_of_le hle)).symm
  · rename_i hlength
    have hne : ¬ b.bytes <+: a.bytes := by
      intro hstart
      have hle := hstart.length_le
      omega
    rw [decide_eq_false hne]

/-- The operators are the lexicographic order of what the pieces stand for. -/
theorem operators_eq (ha : a.Readable) (hb : b.Readable) :
    lt a b = .ok (decide (a.bytes < b.bytes)) ∧ le a b = .ok (decide (a.bytes ≤ b.bytes)) ∧
      gt a b = .ok (decide (b.bytes < a.bytes)) ∧ ge a b = .ok (decide (b.bytes ≤ a.bytes)) ∧
      eq a b = .ok (decide (a.bytes = b.bytes)) ∧
      startsWith a b = .ok (decide (b.bytes <+: a.bytes)) ∧
      ∃ r, compare a b = .ok r ∧ (r < 0 ↔ a.bytes < b.bytes) ∧ (r = 0 ↔ a.bytes = b.bytes) ∧
        (0 < r ↔ b.bytes < a.bytes) := by
  refine ⟨lt_eq ha hb, le_eq ha hb, ?_, ?_, eq_eq ha hb, startsWith_eq ha hb, compare_eq ha hb⟩
  · rw [gt_eq_lt ha hb, lt_eq hb ha]
  · rw [ge_eq_le ha hb, le_eq hb ha]

/-- A byte with its highest bit set is greater than one without. -/
theorem operators_eq_highByte :
    lt ⟨[97, 127, 0], 2⟩ ⟨[97, 128], 2⟩ = .ok true ∧
      gt ⟨[97, 127, 0], 2⟩ ⟨[97, 128], 2⟩ = .ok false := by
  have ha : Readable ⟨[97, 127, 0], 2⟩ := ⟨by decide, by decide, by decide⟩
  have hb : Readable ⟨[97, 128], 2⟩ := ⟨by decide, by decide, by decide⟩
  obtain ⟨hlt, -, hgt, -⟩ := operators_eq ha hb
  refine ⟨hlt.trans ?_, hgt.trans ?_⟩
  · decide
  · decide

end StringPiece

end ToyBasket
