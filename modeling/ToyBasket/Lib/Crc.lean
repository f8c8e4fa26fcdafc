import Mathlib

/-!
# Cyclic redundancy checks

A register of `n` bits into which the bits of a message are shifted. The bits of a word are the
coefficients of a polynomial over `ZMod 2`, and a register holds a residue modulo the generator
`X ^ n + code`: a shift is a multiplication by `X`.
-/

namespace Crc

open Polynomial

variable {n : Nat}

/-! ### Words as polynomials -/

noncomputable def toPoly (v : BitVec n) : (ZMod 2)[X] :=
  ∑ i ∈ Finset.range n, if v.getLsbD i = true then X ^ i else 0

section Words

variable {v w : BitVec n}

theorem coeff_toPoly (v : BitVec n) (i : Nat) :
    (toPoly v).coeff i = if v.getLsbD i = true then 1 else 0 := by
  rw [toPoly, finsetSum_coeff]
  by_cases hi : i < n
  · rw [Finset.sum_eq_single i]
    · split
      · exact coeff_X_pow_self i
      · exact coeff_zero i
    · intro j _ hne
      split
      · rw [coeff_X_pow, if_neg hne.symm]
      · exact coeff_zero i
    · intro hnot
      exact absurd (Finset.mem_range.mpr hi) hnot
  · rw [BitVec.getLsbD_of_ge v i (Nat.le_of_not_lt hi), if_neg (by decide)]
    apply Finset.sum_eq_zero
    intro j hj
    have hlt := Finset.mem_range.mp hj
    split
    · rw [coeff_X_pow, if_neg (by omega)]
    · exact coeff_zero i

theorem toPoly_injective : Function.Injective (toPoly (n := n)) := by
  intro v w h
  apply BitVec.eq_of_getLsbD_eq
  intro i _
  have hcoeff := congrArg (fun p => p.coeff i) h
  simp only [coeff_toPoly] at hcoeff
  cases hv : v.getLsbD i <;> cases hw : w.getLsbD i <;> simp [hv, hw] at hcoeff ⊢

@[simp]
theorem toPoly_zero : toPoly (0 : BitVec n) = 0 := by
  ext i
  simp [coeff_toPoly]

theorem toPoly_xor (v w : BitVec n) : toPoly (v ^^^ w) = toPoly v + toPoly w := by
  ext i
  rw [coeff_add, coeff_toPoly, coeff_toPoly, coeff_toPoly, BitVec.getLsbD_xor]
  cases v.getLsbD i <;> cases w.getLsbD i <;> decide

theorem degree_toPoly_lt (v : BitVec n) : (toPoly v).degree < n := by
  rw [degree_lt_iff_coeff_zero]
  intro i hi
  rw [coeff_toPoly, BitVec.getLsbD_of_ge v i hi, if_neg (by decide)]

theorem X_mul_toPoly (v : BitVec n) :
    X * toPoly v = toPoly (v <<< 1) + if v.msb = true then X ^ n else 0 := by
  have htop (i : Nat) : (if v.msb = true then (X : (ZMod 2)[X]) ^ n else 0).coeff i =
      if v.msb = true ∧ i = n then 1 else 0 := by
    by_cases hmsb : v.msb = true
    · simp only [hmsb, if_true, true_and, coeff_X_pow]
    · simp only [hmsb, Bool.false_eq_true, if_false, false_and, coeff_zero]
  ext i
  rw [coeff_add, coeff_toPoly, htop, BitVec.getLsbD_shiftLeft, BitVec.msb_eq_getLsbD_last]
  cases i with
  | zero =>
      have hzero : ¬ (v.getLsbD (n - 1) = true ∧ 0 = n) := by
        rintro ⟨hlast, rfl⟩
        simp at hlast
      rw [coeff_X_mul_zero, if_neg hzero]
      simp
  | succ i =>
      rw [coeff_X_mul, coeff_toPoly]
      obtain hlt | rfl | hgt := Nat.lt_trichotomy (i + 1) n
      · have hne : i + 1 ≠ n := Nat.ne_of_lt hlt
        simp [hlt, hne]
      · simp
      · have hge : n ≤ i := by omega
        have hne : i + 1 ≠ n := Nat.ne_of_gt hgt
        simp [BitVec.getLsbD_of_ge v i hge, hne]

end Words

/-! ### The register -/

/-- The generator with the leading coefficient that `code` leaves out. -/
noncomputable def generator (code : BitVec n) : (ZMod 2)[X] := X ^ n + toPoly code

def shift (code v : BitVec n) : BitVec n := if v.msb = true then v <<< 1 ^^^ code else v <<< 1

def feed (code v : BitVec n) (bit : Bool) : BitVec n :=
  if bit = true then shift code v ^^^ code else shift code v

/-- The residue in a register. -/
noncomputable def residue (code v : BitVec n) : AdjoinRoot (generator code) :=
  AdjoinRoot.mk _ (toPoly v)

section Register

variable {code v w : BitVec n} {p : (ZMod 2)[X]}

theorem monic_generator (code : BitVec n) : (generator code).Monic :=
  monic_X_pow_add (degree_toPoly_lt code)

theorem degree_generator (code : BitVec n) : (generator code).degree = n := by
  rw [generator, degree_add_eq_left_of_degree_lt]
  · exact degree_X_pow n
  · rw [degree_X_pow]
    exact degree_toPoly_lt code

theorem root_pow_eq (code : BitVec n) :
    AdjoinRoot.root (generator code) ^ n = residue code code := by
  rw [residue, ← AdjoinRoot.mk_X, ← map_pow, AdjoinRoot.mk_eq_mk, CharTwo.sub_eq_add]
  exact dvd_refl _

theorem residue_xor (v w : BitVec n) :
    residue code (v ^^^ w) = residue code v + residue code w := by
  rw [residue, toPoly_xor, map_add]
  rfl

theorem residue_shift (v : BitVec n) :
    residue code (shift code v) = AdjoinRoot.root (generator code) * residue code v := by
  have hmul : AdjoinRoot.root (generator code) * residue code v =
      residue code (v <<< 1) + if v.msb = true then residue code code else 0 := by
    rw [residue, ← AdjoinRoot.mk_X, ← map_mul, X_mul_toPoly, map_add]
    split
    · rw [map_pow, AdjoinRoot.mk_X, root_pow_eq]
      rfl
    · rw [map_zero]
      rfl
  rw [hmul, shift]
  split
  · rw [residue_xor]
  · rw [add_zero]

theorem residue_feed (v : BitVec n) (bit : Bool) :
    residue code (feed code v bit) = AdjoinRoot.root (generator code) * residue code v +
      if bit = true then AdjoinRoot.root (generator code) ^ n else 0 := by
  rw [feed]
  split
  · rw [residue_xor, residue_shift, root_pow_eq]
  · rw [residue_shift, add_zero]

/-- A register holds the remainder of what its residue comes from. -/
theorem toPoly_eq_modByMonic (h : residue code v = AdjoinRoot.mk _ p) :
    toPoly v = p %ₘ generator code := by
  have hself : toPoly v %ₘ generator code = toPoly v := by
    rw [modByMonic_eq_self_iff (monic_generator code), degree_generator]
    exact degree_toPoly_lt v
  rw [← hself]
  exact modByMonic_eq_of_dvd_sub (monic_generator code) (AdjoinRoot.mk_eq_mk.mp h)

theorem residue_injective (code : BitVec n) : Function.Injective (residue code) := by
  intro v w h
  apply toPoly_injective
  rw [toPoly_eq_modByMonic (v := v) rfl, toPoly_eq_modByMonic (v := w) rfl]
  exact modByMonic_eq_of_dvd_sub (monic_generator code) (AdjoinRoot.mk_eq_mk.mp h)

end Register

/-! ### Messages -/

/-- The first bit is the coefficient of the highest power. -/
noncomputable def messagePoly (bits : List Bool) : (ZMod 2)[X] :=
  bits.foldl (fun p bit => X * p + if bit = true then 1 else 0) 0

section Message

variable {code v : BitVec n} {bits bits' : List Bool} {bit : Bool}

@[simp]
theorem messagePoly_nil : messagePoly [] = 0 := rfl

theorem messagePoly_concat (bits : List Bool) (bit : Bool) :
    messagePoly (bits ++ [bit]) = X * messagePoly bits + if bit = true then 1 else 0 := by
  rw [messagePoly, List.foldl_append]
  rfl

theorem messagePoly_append (bits bits' : List Bool) :
    messagePoly (bits ++ bits') = messagePoly bits * X ^ bits'.length + messagePoly bits' := by
  induction bits' using List.reverseRecOn with
  | nil => simp
  | append_singleton bits' bit ih =>
      rw [← List.append_assoc, messagePoly_concat, messagePoly_concat, ih, List.length_append,
        List.length_singleton, pow_succ]
      ring

theorem coeff_messagePoly (bits : List Bool) (i : Nat) :
    (messagePoly bits).coeff i = if bits.reverse.getD i false = true then 1 else 0 := by
  induction bits using List.reverseRecOn generalizing i with
  | nil => simp
  | append_singleton bits bit ih =>
      rw [messagePoly_concat, coeff_add, List.reverse_append, List.reverse_singleton,
        List.singleton_append]
      cases i with
      | zero =>
          rw [coeff_X_mul_zero, zero_add, List.getD_cons_zero]
          split
          · exact coeff_one_zero
          · exact coeff_zero 0
      | succ i =>
          rw [coeff_X_mul, ih, List.getD_cons_succ]
          have hnone : (if bit = true then (1 : (ZMod 2)[X]) else 0).coeff (i + 1) = 0 := by
            split
            · rw [coeff_one, if_neg (Nat.succ_ne_zero i)]
            · exact coeff_zero _
          rw [hnone, add_zero]

/-- The bits of a word, the top one first. -/
def topFirst (w : BitVec n) : List Bool := List.ofFn fun i : Fin n => w.getMsbD i

@[simp]
theorem length_topFirst (w : BitVec n) : (topFirst w).length = n := List.length_ofFn

theorem getElem_topFirst (w : BitVec n) {i : Nat} (hi : i < (topFirst w).length) :
    (topFirst w)[i] = w.getMsbD i :=
  List.getElem_ofFn _

theorem messagePoly_topFirst (w : BitVec n) : messagePoly (topFirst w) = toPoly w := by
  have hlength := length_topFirst w
  ext i
  rw [coeff_messagePoly, coeff_toPoly, List.getD_eq_getElem?_getD]
  by_cases hi : i < n
  · have hlt : n - 1 - i < n := by omega
    rw [List.getElem?_reverse (by rwa [hlength]), hlength, topFirst, List.getElem?_ofFn,
      dif_pos hlt, Option.getD_some, BitVec.getLsbD_eq_getMsbD]
    simp [hi]
  · rw [List.getElem?_eq_none (by rw [List.length_reverse, hlength]; omega),
      BitVec.getLsbD_of_ge w i (Nat.le_of_not_lt hi), Option.getD_none]

theorem topFirst_injective : Function.Injective (topFirst (n := n)) := by
  intro w w' h
  apply toPoly_injective
  rw [← messagePoly_topFirst, ← messagePoly_topFirst, h]

/-- The words of a message are its coefficients in the powers of `X ^ n`. -/
theorem messagePoly_flatMap (words : Nat → BitVec n) (count : Nat) :
    messagePoly ((List.range count).flatMap fun i => topFirst (words i)) =
      ∑ i ∈ Finset.range count, toPoly (words i) * X ^ (n * (count - 1 - i)) := by
  induction count with
  | zero => rfl
  | succ count ih =>
      have hbefore : ∀ i ∈ Finset.range count,
          toPoly (words i) * X ^ (n * (count - 1 - i)) * X ^ n =
            toPoly (words i) * X ^ (n * (count + 1 - 1 - i)) := by
        intro i hi
        have hlt := Finset.mem_range.mp hi
        have hexponent : count + 1 - 1 - i = (count - 1 - i) + 1 := by omega
        rw [hexponent, Nat.mul_succ, pow_add, mul_assoc]
      have hlast : count + 1 - 1 - count = 0 := by omega
      rw [List.range_succ, List.flatMap_append, List.flatMap_singleton, messagePoly_append, ih,
        length_topFirst, messagePoly_topFirst, Finset.sum_mul, Finset.sum_congr rfl hbefore,
        Finset.sum_range_succ, hlast, Nat.mul_zero, pow_zero, mul_one]

theorem length_flatMap_topFirst (words : Nat → BitVec n) (count : Nat) :
    ((List.range count).flatMap fun i => topFirst (words i)).length = n * count := by
  simp [List.length_flatMap, Nat.mul_comm]

theorem flatMap_topFirst_inj {words words' : Nat → BitVec n} {count : Nat}
    (h : (List.range count).flatMap (fun i => topFirst (words i)) =
      (List.range count).flatMap fun i => topFirst (words' i)) {i : Nat} (hi : i < count) :
    words i = words' i := by
  induction count with
  | zero => omega
  | succ count ih =>
      rw [List.range_succ, List.flatMap_append, List.flatMap_append, List.flatMap_singleton,
        List.flatMap_singleton] at h
      obtain ⟨hinit, hlast⟩ := List.append_inj' h (by simp)
      obtain hlt | rfl := Nat.lt_succ_iff_lt_or_eq.mp hi
      · exact ih hinit hlt
      · exact topFirst_injective hlast

/-- Fed with a message, the register holds what it held and the message, both shifted. -/
theorem residue_foldl_feed (v : BitVec n) (bits : List Bool) :
    residue code (bits.foldl (feed code) v) =
      AdjoinRoot.mk _ (toPoly v * X ^ bits.length + messagePoly bits * X ^ n) := by
  induction bits using List.reverseRecOn with
  | nil => simp [residue]
  | append_singleton bits bit ih =>
      have hshifted : X * (toPoly v * X ^ bits.length + messagePoly bits * X ^ n) +
            (if bit = true then X ^ n else 0) =
          toPoly v * X ^ (bits.length + 1) +
            (X * messagePoly bits + if bit = true then 1 else 0) * X ^ n := by
        split
        · ring
        · ring
      have hbit : (if bit = true then AdjoinRoot.root (generator code) ^ n else 0) =
          AdjoinRoot.mk _ (if bit = true then X ^ n else 0) := by
        split
        · rw [map_pow, AdjoinRoot.mk_X]
        · rw [map_zero]
      calc residue code ((bits ++ [bit]).foldl (feed code) v)
          = AdjoinRoot.root (generator code) * residue code (bits.foldl (feed code) v) +
              if bit = true then AdjoinRoot.root (generator code) ^ n else 0 := by
            rw [List.foldl_append]
            exact residue_feed _ _
        _ = AdjoinRoot.mk _ (X * (toPoly v * X ^ bits.length + messagePoly bits * X ^ n) +
              if bit = true then X ^ n else 0) := by
            rw [ih, hbit, ← AdjoinRoot.mk_X, ← map_mul, ← map_add]
        _ = AdjoinRoot.mk _ (toPoly v * X ^ (bits ++ [bit]).length +
              messagePoly (bits ++ [bit]) * X ^ n) := by
            rw [hshifted, messagePoly_concat, List.length_append, List.length_singleton]

/-- The check of a message is a remainder. -/
theorem toPoly_foldl_feed (v : BitVec n) (bits : List Bool) :
    toPoly (bits.foldl (feed code) v) =
      (toPoly v * X ^ bits.length + messagePoly bits * X ^ n) %ₘ generator code :=
  toPoly_eq_modByMonic (residue_foldl_feed v bits)

end Message

/-! ### Bursts -/

section Burst

variable {code v : BitVec n} {bits bits' : List Bool} {p : (ZMod 2)[X]}

theorem isUnit_root (hcode : code.getLsbD 0 = true) :
    IsUnit (AdjoinRoot.root (generator code)) := by
  have hn : n ≠ 0 := by
    rintro rfl
    simp at hcode
  have hone : (generator code).coeff 0 = 1 := by
    rw [generator, coeff_add, coeff_X_pow, if_neg hn.symm, coeff_toPoly, if_pos hcode, zero_add]
  have hsplit := congrArg (AdjoinRoot.mk (generator code)) (divX_mul_X_add (generator code))
  rw [hone, map_one, map_add, map_mul, map_one, AdjoinRoot.mk_X, AdjoinRoot.mk_self] at hsplit
  refine IsUnit.of_mul_eq_one (-AdjoinRoot.mk _ (generator code).divX) ?_
  linear_combination -hsplit

/-- Shifted or not, nothing that fits into the register is a multiple of the generator. -/
theorem not_dvd_of_degree_lt (hcode : code.getLsbD 0 = true) (hp : p ≠ 0) (hdegree : p.degree < n)
    (a : Nat) : ¬ generator code ∣ X ^ a * p := by
  rw [← AdjoinRoot.mk_eq_zero, map_mul, map_pow, AdjoinRoot.mk_X,
    ((isUnit_root hcode).pow a).mul_right_eq_zero, AdjoinRoot.mk_eq_zero]
  rw [← degree_generator code] at hdegree
  exact (monic_generator code).not_dvd_of_degree_lt hp hdegree

/-- The sum of two messages has the powers of the places where they differ. -/
theorem coeff_messagePoly_add (hlength : bits.length = bits'.length) (i : Nat) :
    (messagePoly bits + messagePoly bits').coeff i = 0 ↔
      (i < bits.length → bits[bits.length - 1 - i]? = bits'[bits.length - 1 - i]?) := by
  rw [coeff_add, coeff_messagePoly, coeff_messagePoly, List.getD_eq_getElem?_getD,
    List.getD_eq_getElem?_getD]
  by_cases hi : i < bits.length
  · have hlt : bits.length - 1 - i < bits.length := by omega
    rw [List.getElem?_reverse hi, List.getElem?_reverse (hlength ▸ hi), ← hlength,
      List.getElem?_eq_getElem hlt, List.getElem?_eq_getElem (hlength ▸ hlt), Option.getD_some,
      Option.getD_some]
    cases bits[bits.length - 1 - i] <;> cases bits'[bits.length - 1 - i] <;> simp [hi]
    decide
  · rw [List.getElem?_eq_none (by rw [List.length_reverse]; omega),
      List.getElem?_eq_none (by rw [List.length_reverse]; omega)]
    simp [hi]

theorem foldl_feed_eq_iff (hcode : code.getLsbD 0 = true) (hlength : bits.length = bits'.length) :
    bits.foldl (feed code) v = bits'.foldl (feed code) v ↔
      generator code ∣ messagePoly bits + messagePoly bits' := by
  rw [← (residue_injective code).eq_iff, residue_foldl_feed, residue_foldl_feed, hlength, map_add,
    map_add, add_right_inj, map_mul, map_mul, map_pow, AdjoinRoot.mk_X,
    ((isUnit_root hcode).pow n).mul_left_inj, AdjoinRoot.mk_eq_mk, CharTwo.sub_eq_add]

/-- A word empties the register if and only if it is what the register holds. -/
theorem foldl_feed_topFirst_eq_zero_iff (hcode : code.getLsbD 0 = true) (w : BitVec n) :
    (topFirst w).foldl (feed code) v = 0 ↔ w = v := by
  have hsum : residue code ((topFirst w).foldl (feed code) v) =
      (residue code v + residue code w) * AdjoinRoot.root (generator code) ^ n := by
    calc residue code ((topFirst w).foldl (feed code) v)
        = AdjoinRoot.mk _ (toPoly v * X ^ n + toPoly w * X ^ n) := by
          rw [residue_foldl_feed, length_topFirst, messagePoly_topFirst]
      _ = AdjoinRoot.mk _ ((toPoly v + toPoly w) * X ^ n) := by rw [add_mul]
      _ = (residue code v + residue code w) * AdjoinRoot.root (generator code) ^ n := by
          rw [map_mul, map_add, map_pow, AdjoinRoot.mk_X]
          rfl
  have hzero : residue code (0 : BitVec n) = 0 := by
    rw [residue, toPoly_zero, map_zero]
  rw [← (residue_injective code).eq_iff, hsum, hzero,
    ((isUnit_root hcode).pow n).mul_left_eq_zero, ← residue_xor, ← hzero,
    (residue_injective code).eq_iff]
  exact BitVec.xor_eq_zero_iff.trans eq_comm

/-- Two messages that differ within `n` consecutive bits have different checks. -/
theorem foldl_feed_ne (hcode : code.getLsbD 0 = true) (hlength : bits.length = bits'.length)
    (hne : bits ≠ bits') {start : Nat}
    (hwindow : ∀ i, bits[i]? ≠ bits'[i]? → start ≤ i ∧ i < start + n) :
    bits.foldl (feed code) v ≠ bits'.foldl (feed code) v := by
  rw [Ne, foldl_feed_eq_iff hcode hlength]
  have hsame (i : Nat) (hi : i < start ∨ start + n ≤ i) : bits[i]? = bits'[i]? := by
    by_contra hdiffer
    have hin := hwindow i hdiffer
    omega
  have hlow : X ^ (bits.length - (start + n)) ∣ messagePoly bits + messagePoly bits' := by
    rw [X_pow_dvd_iff]
    intro i hi
    rw [coeff_messagePoly_add hlength]
    exact fun _ => hsame _ (.inr (by omega))
  obtain ⟨p, hp⟩ := hlow
  have hdegree : p.degree < n := by
    rw [degree_lt_iff_coeff_zero]
    intro i hi
    rw [← coeff_X_pow_mul p (bits.length - (start + n)) i, ← hp, coeff_messagePoly_add hlength]
    exact fun hlt => hsame _ (.inl (by omega))
  have hnonzero : p ≠ 0 := by
    rintro rfl
    rw [mul_zero] at hp
    apply hne
    apply List.ext_getElem?
    intro i
    by_cases hi : i < bits.length
    · have hzero : (messagePoly bits + messagePoly bits').coeff (bits.length - 1 - i) = 0 := by
        rw [hp, coeff_zero]
      rw [coeff_messagePoly_add hlength] at hzero
      have hindex : bits.length - 1 - (bits.length - 1 - i) = i := by omega
      rw [hindex] at hzero
      exact hzero (by omega)
    · rw [List.getElem?_eq_none (by omega), List.getElem?_eq_none (by omega)]
  rw [hp]
  exact not_dvd_of_degree_lt hcode hnonzero hdegree _

end Burst

end Crc
