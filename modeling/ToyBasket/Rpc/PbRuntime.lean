import ToyBasket.Lib.Protobuf

/-!
# A runtime for the generated code

The wire format as far as it goes without groups, with ASCII for UTF-8. It shows that what is
asked of a runtime can be had, and runs the examples.
-/

namespace ToyBasket.PbRuntime

open Words Protobuf

/-- Seven bits to a byte, the lowest first. -/
def writeGroups : (fuel : Nat) → Nat → Bytes
  | 0, n => [UInt8.ofNat n]
  | fuel + 1, n =>
      if n < 128 then [UInt8.ofNat n]
      else UInt8.ofNat (n % 128 + 128) :: writeGroups fuel (n / 128)

def writeVarint (n : Nat) : Bytes := writeGroups n n

def readVarint : Reader Nat
  | [] => none
  | byte :: bytes =>
      if byte.toNat < 128 then some (byte.toNat, bytes)
      else
        match readVarint bytes with
        | none => none
        | some (n, rest) => some (byte.toNat - 128 + 128 * n, rest)

/-- A varint below the bound. -/
def readBelow (bound : Nat) : Reader Nat := fun bytes =>
  match readVarint bytes with
  | none => none
  | some (n, rest) => if n < bound then some (n, rest) else none

def readBytes (size : Nat) : Reader Bytes := fun bytes =>
  if size ≤ bytes.length then some (bytes.take size, bytes.drop size) else none

def readString : Reader Bytes := fun bytes =>
  match readBelow (maxStringSize + 1) bytes with
  | none => none
  | some (size, rest) => readBytes size rest

/-- The value is written back as it was read, a varint in its shortest form. -/
def unknownFieldParse (tag : Nat) : Reader Bytes := fun bytes =>
  match tag % 8 with
  | 0 => (readBelow (2 ^ 64) bytes).map (Prod.map writeVarint id)
  | 1 => readBytes 8 bytes
  | 2 => (readString bytes).map (Prod.map (fun str => writeVarint str.length ++ str) id)
  | 5 => readBytes 4 bytes
  | _ => none

def runtime : Runtime where
  readTag := readBelow (2 ^ 32)
  readVarint := readBelow (2 ^ 64)
  readString := readString
  unknownFieldParse := unknownFieldParse
  verifyUTF8 := fun str => str.all (· < 128)
  writeVarint := writeVarint
  varintSize := fun n => (writeVarint n).length

/-! ### The readers -/

section Readers

variable {bytes rest : Bytes} {n : Nat}

theorem readVarint_length_lt (h : readVarint bytes = some (n, rest)) :
    rest.length < bytes.length := by
  induction bytes generalizing n with
  | nil => cases h
  | cons byte bytes ih =>
      rw [readVarint] at h
      split at h
      · cases h
        exact Nat.lt_succ_self _
      · split at h
        · cases h
        · rename_i n' rest' hread
          cases h
          exact (ih hread).trans (Nat.lt_succ_self _)

theorem readVarint_append (h : readVarint bytes = some (n, rest)) (more : Bytes) :
    readVarint (bytes ++ more) = some (n, rest ++ more) := by
  induction bytes generalizing n with
  | nil => cases h
  | cons byte bytes ih =>
      rw [readVarint] at h
      rw [List.cons_append, readVarint]
      split at h
      · rename_i hlast
        cases h
        rw [if_pos hlast]
      · rename_i hlast
        rw [if_neg hlast]
        split at h
        · cases h
        · rename_i n' rest' hread
          cases h
          rw [ih hread]

theorem readBelow_eq_some {bound : Nat} (h : readBelow bound bytes = some (n, rest)) :
    readVarint bytes = some (n, rest) ∧ n < bound := by
  unfold readBelow at h
  split at h
  · cases h
  · rename_i n' rest' hread
    split at h
    · rename_i hlt
      cases h
      exact ⟨hread, hlt⟩
    · cases h

theorem readBelow_of_lt {bound : Nat} (h : readVarint bytes = some (n, rest)) (hn : n < bound) :
    readBelow bound bytes = some (n, rest) := by
  simp only [readBelow, h, if_pos hn]

theorem reads_readBelow (bound : Nat) : Reads (readBelow bound) where
  length_le h := (readVarint_length_lt (readBelow_eq_some h).1).le
  append := by
    intro bytes n rest h more
    obtain ⟨hread, hlt⟩ := readBelow_eq_some h
    exact readBelow_of_lt (readVarint_append hread more) hlt

theorem readVarint_writeGroups {fuel : Nat} (h : n < 128 ^ (fuel + 1)) (more : Bytes) :
    readVarint (writeGroups fuel n ++ more) = some (n, more) := by
  induction fuel generalizing n with
  | zero =>
      have hbyte : (UInt8.ofNat n).toNat = n := by
        rw [UInt8.toNat_ofNat']
        exact Nat.mod_eq_of_lt (by omega)
      simp [writeGroups, readVarint, hbyte]
      omega
  | succ fuel ih =>
      rw [writeGroups]
      split
      · rename_i hlt
        have hbyte : (UInt8.ofNat n).toNat = n := by
          rw [UInt8.toNat_ofNat']
          exact Nat.mod_eq_of_lt (by omega)
        simp [readVarint, hbyte, hlt]
      · rename_i hge
        have hbyte : (UInt8.ofNat (n % 128 + 128)).toNat = n % 128 + 128 := by
          rw [UInt8.toNat_ofNat']
          exact Nat.mod_eq_of_lt (by omega)
        have hdiv : n / 128 < 128 ^ (fuel + 1) := by
          rw [Nat.div_lt_iff_lt_mul (by decide)]
          rwa [pow_succ] at h
        rw [List.cons_append, readVarint, hbyte, if_neg (by omega), ih hdiv]
        simp only [Nat.add_sub_cancel, Nat.mod_add_div]

theorem readVarint_write (n : Nat) (more : Bytes) :
    readVarint (writeVarint n ++ more) = some (n, more) := by
  apply readVarint_writeGroups
  calc
    n < n + 1 := Nat.lt_succ_self n
    _ < 128 ^ (n + 1) := Nat.lt_pow_self (by decide)

theorem readBelow_write {bound : Nat} (hn : n < bound) (more : Bytes) :
    readBelow bound (writeVarint n ++ more) = some (n, more) :=
  readBelow_of_lt (readVarint_write n more) hn

theorem readBytes_eq_some {size : Nat} {value : Bytes}
    (h : readBytes size bytes = some (value, rest)) :
    bytes = value ++ rest ∧ value.length = size := by
  unfold readBytes at h
  split at h
  · rename_i hle
    cases h
    exact ⟨(List.take_append_drop size bytes).symm, List.length_take_of_le hle⟩
  · cases h

theorem readBytes_append (value more : Bytes) :
    readBytes value.length (value ++ more) = some (value, more) := by
  have hle : value.length ≤ (value ++ more).length := by
    rw [List.length_append]
    exact Nat.le_add_right _ _
  rw [readBytes, if_pos hle, List.take_left' rfl, List.drop_left' rfl]

theorem reads_readBytes (size : Nat) : Reads (readBytes size) where
  length_le h := by
    rw [(readBytes_eq_some h).1, List.length_append]
    exact Nat.le_add_left _ _
  append := by
    intro bytes value rest h more
    obtain ⟨rfl, rfl⟩ := readBytes_eq_some h
    rw [List.append_assoc]
    exact readBytes_append value _

theorem readString_eq_some {str : Bytes} (h : readString bytes = some (str, rest)) :
    readBelow (maxStringSize + 1) bytes = some (str.length, str ++ rest) := by
  unfold readString at h
  split at h
  · cases h
  · rename_i size rest' hread
    obtain ⟨rfl, rfl⟩ := readBytes_eq_some h
    exact hread

theorem readString_of_readBelow {str : Bytes}
    (h : readBelow (maxStringSize + 1) bytes = some (str.length, str ++ rest)) :
    readString bytes = some (str, rest) := by
  rw [readString, h]
  exact readBytes_append str rest

theorem reads_readString : Reads readString where
  length_le h := by
    have hle := (reads_readBelow _).length_le (readString_eq_some h)
    rw [List.length_append] at hle
    omega
  append := by
    intro bytes str rest h more
    have hmore := (reads_readBelow _).append (readString_eq_some h) more
    rw [List.append_assoc] at hmore
    exact readString_of_readBelow hmore

theorem readString_write {str : Bytes} (hlength : str.length ≤ maxStringSize) :
    readString (writeVarint str.length ++ str) = some (str, []) := by
  apply readString_of_readBelow
  rw [List.append_nil]
  exact readBelow_write (Nat.lt_succ_of_le hlength) str

theorem reads_unknownFieldParse (tag : Nat) : Reads (unknownFieldParse tag) := by
  unfold unknownFieldParse
  generalize tag % 8 = wireType
  match wireType with
  | 0 => exact (reads_readBelow _).map _
  | 1 => exact reads_readBytes 8
  | 2 => exact reads_readString.map _
  | 3 => exact reads_none
  | 4 => exact reads_none
  | 5 => exact reads_readBytes 4
  | _ + 6 => exact reads_none

theorem unknownFieldParse_value {tag : Nat} {value : Bytes}
    (h : unknownFieldParse tag bytes = some (value, rest)) :
    unknownFieldParse tag value = some (value, []) := by
  unfold unknownFieldParse at h ⊢
  generalize tag % 8 = wireType at h ⊢
  match wireType with
  | 0 =>
      obtain ⟨⟨n, rest'⟩, hread, hpair⟩ := Option.map_eq_some_iff.mp h
      cases hpair
      have hwrite := readBelow_write (readBelow_eq_some hread).2 []
      rw [List.append_nil] at hwrite
      simp only [hwrite]
      rfl
  | 1 =>
      obtain ⟨-, hlength⟩ := readBytes_eq_some h
      have hread := readBytes_append value []
      rwa [hlength, List.append_nil] at hread
  | 2 =>
      obtain ⟨⟨str, rest'⟩, hread, hpair⟩ := Option.map_eq_some_iff.mp h
      cases hpair
      have hlength := Nat.le_of_lt_succ (readBelow_eq_some (readString_eq_some hread)).2
      simp only [readString_write hlength]
      rfl
  | 3 => cases h
  | 4 => cases h
  | 5 =>
      obtain ⟨-, hlength⟩ := readBytes_eq_some h
      have hread := readBytes_append value []
      rwa [hlength, List.append_nil] at hread
  | _ + 6 => cases h

end Readers

theorem lawful_runtime : runtime.Lawful where
  tag := reads_readBelow _
  tag_lt h := ⟨(readBelow_eq_some h).2, readVarint_length_lt (readBelow_eq_some h).1⟩
  varint := reads_readBelow _
  string := reads_readString
  string_le h := Nat.le_of_lt_succ (readBelow_eq_some (readString_eq_some h)).2
  unknown := reads_unknownFieldParse
  unknown_value := unknownFieldParse_value
  readTag_write tag htag := by
    have hread := readBelow_write htag []
    rwa [List.append_nil] at hread
  readVarint_write n hn := by
    have hread := readBelow_write hn []
    rwa [List.append_nil] at hread
  readString_write _ := readString_write
  length_write _ := rfl
  varintSize_one := by
    intro n hn
    have hshort : writeGroups n n = [UInt8.ofNat n] := by
      cases n with
      | zero => rfl
      | succ n => rw [writeGroups, if_pos hn]
    simp only [runtime, writeVarint, hshort, List.length_singleton]
  verifyUTF8_ascii := by
    intro str hascii
    simpa [runtime] using hascii
  verifyUTF8_append := by
    intro str str' hstr hstr'
    simp only [runtime, List.all_append, Bool.and_eq_true] at hstr hstr' ⊢
    exact ⟨hstr, hstr'⟩

end ToyBasket.PbRuntime
