import ToyBasket.Buffer.Spec
import ToyBasket.Lib.HostOrder

/-!
# Integers in a buffer

`appendInt64` to `prependInt8` of `communication/Buffer.h`. All but the 8-bit functions go through a
value in network order, which is again one of the signed type.
-/

namespace ToyBasket

open Words Outcome

inductive IntType where
  | char
  | short
  | int
  | longLong
deriving DecidableEq, Repr

/-- `sizeof`. -/
def IntType.size : IntType → Nat
  | .char => 1
  | .short => 2
  | .int => 4
  | .longLong => 8

structure TypedInt where
  type : IntType
  value : Int
  lower : -(2 ^ (8 * type.size - 1)) ≤ value
  upper : value < 2 ^ (8 * type.size - 1)

/-- Two's complement, the most significant byte first. -/
def TypedInt.encoding (v : TypedInt) : Bytes :=
  bigEndian v.type.size (toUnsigned v.type.size v.value)

namespace Buffer

/-- The bytes of the value that `htobe` makes of `x`. -/
def networkBytes (type : IntType) (x : Int) : Bytes :=
  let be := toSigned type.size (htobe type.size (toUnsigned type.size x))
  memory type.size (toUnsigned type.size be)

def appendInt (b : Buffer) (type : IntType) (x : Int) : Except Fault Buffer :=
  b.append (networkBytes type x)

def appendInt64 (b : Buffer) (x : Int) : Except Fault Buffer := b.appendInt .longLong x

def appendInt32 (b : Buffer) (x : Int) : Except Fault Buffer := b.appendInt .int x

def appendInt16 (b : Buffer) (x : Int) : Except Fault Buffer := b.appendInt .short x

def appendInt8 (b : Buffer) (x : Int) : Except Fault Buffer :=
  b.append (memory IntType.char.size (toUnsigned IntType.char.size x))

def retrieveInt64 (b : Buffer) : Except Fault Buffer := b.retrieve IntType.longLong.size

def retrieveInt32 (b : Buffer) : Except Fault Buffer := b.retrieve IntType.int.size

def retrieveInt16 (b : Buffer) : Except Fault Buffer := b.retrieve IntType.short.size

def retrieveInt8 (b : Buffer) : Except Fault Buffer := b.retrieve IntType.char.size

def peekInt (b : Buffer) (type : IntType) : Except Fault Int := do
  assert (type.size ≤ b.readableBytes)
  let be := toSigned type.size (ofMemory (b.readable.take type.size))
  return toSigned type.size (betoh type.size (toUnsigned type.size be))

def peekInt64 (b : Buffer) : Except Fault Int := b.peekInt .longLong

def peekInt16 (b : Buffer) : Except Fault Int := b.peekInt .short

def peekInt8 (b : Buffer) : Except Fault Int := do
  assert (IntType.char.size ≤ b.readableBytes)
  return toSigned IntType.char.size (ofMemory (b.readable.take IntType.char.size))

def readInt (peek : Buffer → Except Fault Int) (retrieve : Buffer → Except Fault Buffer)
    (b : Buffer) : Except Fault (Int × Buffer) := do
  let result ← peek b
  let b ← retrieve b
  return (result, b)

def readInt64 (b : Buffer) : Except Fault (Int × Buffer) := b.readInt peekInt64 retrieveInt64

def readInt32 (b : Buffer) : Except Fault (Int × Buffer) := b.readInt peekInt32 retrieveInt32

def readInt16 (b : Buffer) : Except Fault (Int × Buffer) := b.readInt peekInt16 retrieveInt16

def readInt8 (b : Buffer) : Except Fault (Int × Buffer) := b.readInt peekInt8 retrieveInt8

def prependInt (b : Buffer) (type : IntType) (x : Int) : Except Fault Buffer :=
  b.prepend (networkBytes type x)

def prependInt64 (b : Buffer) (x : Int) : Except Fault Buffer := b.prependInt .longLong x

def prependInt32 (b : Buffer) (x : Int) : Except Fault Buffer := b.prependInt .int x

def prependInt16 (b : Buffer) (x : Int) : Except Fault Buffer := b.prependInt .short x

def prependInt8 (b : Buffer) (x : Int) : Except Fault Buffer :=
  b.prepend (memory IntType.char.size (toUnsigned IntType.char.size x))

/-! ### Values of mixed widths -/

def appendValue (b : Buffer) (v : TypedInt) : Except Fault Buffer :=
  match v.type with
  | .char => b.appendInt8 v.value
  | .short => b.appendInt16 v.value
  | .int => b.appendInt32 v.value
  | .longLong => b.appendInt64 v.value

def prependValue (b : Buffer) (v : TypedInt) : Except Fault Buffer :=
  match v.type with
  | .char => b.prependInt8 v.value
  | .short => b.prependInt16 v.value
  | .int => b.prependInt32 v.value
  | .longLong => b.prependInt64 v.value

def readValue (b : Buffer) : IntType → Except Fault (Int × Buffer)
  | .char => b.readInt8
  | .short => b.readInt16
  | .int => b.readInt32
  | .longLong => b.readInt64

def appendAll (b : Buffer) (values : List TypedInt) : Except Fault Buffer :=
  values.foldlM appendValue b

def retrieveEach (b : Buffer) (lens : List Nat) : Except Fault Buffer := lens.foldlM retrieve b

def readAll (b : Buffer) : List IntType → Except Fault (List Int × Buffer)
  | [] => .ok ([], b)
  | type :: types => do
      let (x, b) ← b.readValue type
      let (xs, b) ← b.readAll types
      return (x :: xs, b)

section Values

variable {b : Buffer} {type : IntType} {v : TypedInt} {values : List TypedInt} {rest : Bytes}

theorem networkBytes_eq (type : IntType) (x : Int) :
    networkBytes type x = bigEndian type.size (toUnsigned type.size x) := by
  unfold networkBytes
  dsimp only
  rw [toUnsigned_toSigned (htobe_lt _ _), memory_htobe]

/-- One byte is the same in both orders. -/
theorem memory_char (n : Nat) : memory IntType.char.size n = bigEndian IntType.char.size n := rfl

@[simp]
theorem length_encoding (v : TypedInt) : v.encoding.length = v.type.size :=
  length_bigEndian _ _

theorem appendValue_eq (b : Buffer) (v : TypedInt) : b.appendValue v = b.append v.encoding := by
  obtain ⟨type, value, lower, upper⟩ := v
  cases type with
  | char => exact congrArg b.append (memory_char _)
  | short => exact congrArg b.append (networkBytes_eq .short value)
  | int => exact congrArg b.append (networkBytes_eq .int value)
  | longLong => exact congrArg b.append (networkBytes_eq .longLong value)

theorem prependValue_eq (b : Buffer) (v : TypedInt) : b.prependValue v = b.prepend v.encoding := by
  obtain ⟨type, value, lower, upper⟩ := v
  cases type with
  | char => exact congrArg b.prepend (memory_char _)
  | short => exact congrArg b.prepend (networkBytes_eq .short value)
  | int => exact congrArg b.prepend (networkBytes_eq .int value)
  | longLong => exact congrArg b.prepend (networkBytes_eq .longLong value)

theorem toSigned_encoding (v : TypedInt) :
    toSigned v.type.size (ofBigEndian v.encoding) = v.value := by
  obtain ⟨type, value, lower, upper⟩ := v
  have hbits : ofBigEndian (bigEndian type.size (toUnsigned type.size value))
      = toUnsigned type.size value := ofBigEndian_bigEndian_of_lt (toUnsigned_lt _ _)
  change toSigned type.size (ofBigEndian (bigEndian type.size _)) = value
  rw [hbits]
  apply toSigned_toUnsigned
  · cases type with
    | _ => simp only [IntType.size] at *; omega
  · cases type with
    | _ => simp only [IntType.size] at *; omega

theorem peekInt_eq (h : b.WellFormed) (hsize : type.size ≤ b.readableBytes) :
    b.peekInt type = .ok (toSigned type.size (ofBigEndian (b.readable.take type.size))) := by
  have hlength : (b.readable.take type.size).length = type.size := by
    rw [List.length_take, h.length_readable]
    omega
  rw [peekInt, assert_bind hsize]
  dsimp only
  rw [toUnsigned_toSigned (ofMemory_lt hlength), betoh_ofMemory hlength]
  rfl

theorem peekInt32_eq_peekInt (h : b.WellFormed) (hsize : IntType.int.size ≤ b.readableBytes) :
    b.peekInt32 = b.peekInt .int := by
  have hsame : ∀ n : Nat, toInt32 n = toSigned IntType.int.size n := by
    intro n
    simp only [toInt32, toSigned, Int.bmod, IntType.size]
    omega
  have hassert : 4 ≤ b.readableBytes := hsize
  rw [peekInt_eq h hsize, peekInt32, assert_bind hassert, hsame]
  rfl

theorem peekInt8_eq_peekInt (h : b.WellFormed) (hsize : IntType.char.size ≤ b.readableBytes) :
    b.peekInt8 = b.peekInt .char := by
  have hlength : (b.readable.take IntType.char.size).length = 1 := by
    rw [List.length_take, h.length_readable]
    exact Nat.min_eq_left hsize
  obtain ⟨byte, hbyte⟩ := List.length_eq_one_iff.mp hlength
  rw [peekInt_eq h hsize, peekInt8, assert_bind hsize, hbyte]
  rfl

theorem readInt_holds (h : b.WellFormed) (hb : b.readable = v.encoding ++ rest)
    {peek : Buffer → Except Fault Int} (hpeek : peek b = b.peekInt v.type) :
    Holds (b.readInt peek fun b => b.retrieve v.type.size)
      (fun result => result.1 = v.value ∧ Becomes b result.2 rest 0) (fun _ => False) := by
  have hsize : v.type.size ≤ b.readableBytes := by
    rw [← h.length_readable, hb, List.length_append, length_encoding]
    omega
  have htake : b.readable.take v.type.size = v.encoding := by
    rw [hb]
    exact List.take_left' (length_encoding v)
  have hdrop : b.readable.drop v.type.size = rest := by
    rw [hb]
    exact List.drop_left' (length_encoding v)
  rw [readInt, hpeek, peekInt_eq h hsize, htake, toSigned_encoding, ok_bind]
  refine (retrieve_holds h hsize).bind fun after hafter => ?_
  rw [hdrop] at hafter
  exact ⟨rfl, hafter.1⟩

/-- Each member reads the value that is encoded in front. -/
theorem readValue_holds (h : b.WellFormed) (hb : b.readable = v.encoding ++ rest) :
    Holds (b.readValue v.type)
      (fun result => result.1 = v.value ∧ Becomes b result.2 rest 0) (fun _ => False) := by
  have hsize : v.type.size ≤ b.readableBytes := by
    rw [← h.length_readable, hb, List.length_append, length_encoding]
    omega
  obtain ⟨type, value, lower, upper⟩ := v
  cases type with
  | char => exact readInt_holds h hb (peekInt8_eq_peekInt h hsize)
  | short => exact readInt_holds h hb rfl
  | int => exact readInt_holds h hb (peekInt32_eq_peekInt h hsize)
  | longLong => exact readInt_holds h hb rfl

theorem readAll_holds (h : b.WellFormed)
    (hb : b.readable = values.flatMap TypedInt.encoding ++ rest) :
    Holds (b.readAll (values.map TypedInt.type))
      (fun result => result.1 = values.map TypedInt.value ∧ Becomes b result.2 rest 0)
      (fun _ => False) := by
  induction values generalizing b with
  | nil => exact ⟨rfl, h, hb, Nat.le_refl _⟩
  | cons v values ih =>
      rw [List.flatMap_cons, List.append_assoc] at hb
      refine (readValue_holds h hb).bind ?_
      rintro ⟨x, middle⟩ ⟨rfl, hmiddle⟩
      refine (ih hmiddle.wellFormed hmiddle.readable_eq).bind ?_
      rintro ⟨xs, after⟩ ⟨rfl, hafter⟩
      exact ⟨rfl, hmiddle.trans hafter⟩

theorem appendAll_holds (values : List TypedInt) (h : b.WellFormed) :
    Holds (b.appendAll values)
      (fun after => Becomes b after (b.readable ++ values.flatMap TypedInt.encoding)
        (values.map fun v => v.type.size).sum)
      (Refused b (values.map fun v => v.type.size).sum) := by
  induction values generalizing b with
  | nil => exact ⟨h, (List.append_nil _).symm, Nat.le_refl _⟩
  | cons v values ih =>
      have hsmall : v.encoding.length ≤ 2 ^ 63 := by
        rw [length_encoding]
        cases v.type with
        | _ => decide
      have hfirst := append_holds h hsmall
      rw [← appendValue_eq, length_encoding] at hfirst
      rw [List.map_cons, List.sum_cons, appendAll, List.foldlM_cons]
      cases hnext : b.appendValue v with
      | error fault =>
          obtain ⟨hfault, hmax⟩ := hfirst.of_error hnext
          exact ⟨hfault, by omega⟩
      | ok middle =>
          obtain ⟨hmiddle, -⟩ := hfirst.of_ok hnext
          have hsize := hmiddle.size_le
          refine (ih hmiddle.wellFormed).mono ?_ ?_
          · intro after hafter
            have hboth := hmiddle.trans hafter
            rwa [hmiddle.readable_eq, List.append_assoc, ← List.flatMap_cons] at hboth
          · rintro fault ⟨hfault, hmax⟩
            exact ⟨hfault, by omega⟩

/-- However the bytes in front are retrieved. -/
theorem retrieveEach_holds (lens : List Nat) (h : b.WellFormed)
    (hlens : lens.sum ≤ b.readableBytes) :
    Holds (b.retrieveEach lens) (fun after => Becomes b after (b.readable.drop lens.sum) 0)
      (fun _ => False) := by
  induction lens generalizing b with
  | nil => exact ⟨h, rfl, Nat.le_refl _⟩
  | cons len lens ih =>
      rw [List.sum_cons] at hlens ⊢
      rw [retrieveEach, List.foldlM_cons]
      refine (retrieve_holds h (by omega)).bind ?_
      rintro middle ⟨hmiddle, -⟩
      have hleft : middle.readableBytes = b.readableBytes - len := by
        rw [← hmiddle.wellFormed.length_readable, hmiddle.readable_eq, List.length_drop,
          h.length_readable]
      refine (ih hmiddle.wellFormed (by omega)).imp ?_
      intro after hafter
      have hboth := hmiddle.trans hafter
      rwa [hmiddle.readable_eq, List.drop_drop] at hboth

/-- Integers of any widths are appended in network order and read back as they were, and so is one
that is prepended. -/
theorem typedInts_roundTrip (values : List TypedInt) (h : b.WellFormed) :
    Holds (b.appendAll values)
      (fun filled => filled.readable = b.readable ++ values.flatMap TypedInt.encoding ∧
        ∀ lens : List Nat, lens.sum = b.readableBytes →
          Holds (filled.retrieveEach lens >>= fun b => b.readAll (values.map TypedInt.type))
            (fun result => result.1 = values.map TypedInt.value ∧ result.2.readableBytes = 0)
            (fun _ => False))
      (fun fault => fault = .lengthError ∧
        maxSize < b.buffer.length + (values.map fun v => v.type.size).sum) ∧
    ∀ v : TypedInt, v.type.size ≤ b.prependableBytes →
      Holds (b.prependValue v >>= fun b => b.readValue v.type)
        (fun result => result.1 = v.value ∧ result.2.readable = b.readable) (fun _ => False) := by
  constructor
  · refine (appendAll_holds values h).imp ?_
    intro filled hfilled
    refine ⟨hfilled.readable_eq, ?_⟩
    intro lens hlens
    have hlength : b.readable.length = lens.sum := by rw [h.length_readable, hlens]
    have henough : lens.sum ≤ filled.readableBytes := by
      rw [← hfilled.wellFormed.length_readable, hfilled.readable_eq, List.length_append, hlength]
      omega
    refine (retrieveEach_holds lens hfilled.wellFormed henough).bind ?_
    intro left hleft
    have hreadable : left.readable = values.flatMap TypedInt.encoding ++ [] := by
      rw [hleft.readable_eq, hfilled.readable_eq, List.drop_left' hlength, List.append_nil]
    refine (readAll_holds hleft.wellFormed hreadable).imp ?_
    rintro ⟨xs, after⟩ ⟨hxs, hafter⟩
    refine ⟨hxs, ?_⟩
    rw [← hafter.wellFormed.length_readable, hafter.readable_eq]
    rfl
  · intro v hroom
    rw [prependValue_eq]
    refine (prepend_holds h (by rwa [length_encoding])).bind ?_
    intro grown hgrown
    refine (readValue_holds hgrown.wellFormed hgrown.readable_eq).imp ?_
    rintro ⟨x, after⟩ ⟨hx, hafter⟩
    exact ⟨hx, hafter.readable_eq⟩

end Values

/-- The least value of each width. -/
def leastInts : List TypedInt :=
  [⟨.char, -128, by decide, by decide⟩, ⟨.longLong, -(2 ^ 63), by decide, by decide⟩,
    ⟨.short, -32768, by decide, by decide⟩, ⟨.int, -(2 ^ 31), by decide, by decide⟩]

def prefixed : Buffer where
  buffer := List.replicate 16 1
  readerIndex := 8
  writerIndex := 11

theorem typedInts_roundTrip_leastInts :
    Holds (prefixed.appendAll leastInts)
      (fun filled => filled.readable = prefixed.readable ++ leastInts.flatMap TypedInt.encoding ∧
        ∀ lens : List Nat, lens.sum = prefixed.readableBytes →
          Holds (filled.retrieveEach lens >>= fun b => b.readAll (leastInts.map TypedInt.type))
            (fun result => result.1 = leastInts.map TypedInt.value ∧ result.2.readableBytes = 0)
            (fun _ => False))
      (fun fault => fault = .lengthError ∧
        maxSize < prefixed.buffer.length + (leastInts.map fun v => v.type.size).sum) ∧
    ∀ v : TypedInt, v.type.size ≤ prefixed.prependableBytes →
      Holds (prefixed.prependValue v >>= fun b => b.readValue v.type)
        (fun result => result.1 = v.value ∧ result.2.readable = prefixed.readable)
        (fun _ => False) :=
  typedInts_roundTrip leastInts ⟨by decide, by decide, by decide, by decide⟩

end Buffer

end ToyBasket
