import ToyBasket.Lib.Words

/-!
# Generated protocol buffer code

What the code that `protoc` generates for a message calls of its runtime, and the loop of its
`_InternalParse`. The runtime is a parameter. A failed parse leaves the message as the rounds before
made it and the round that fails, which may have written to it first, leaves it: this is a parameter
too.
-/

namespace Protobuf

open Words

abbrev Reader (α : Type) := Bytes → Option (α × Bytes)

/-- `readTag`, `readVarint` and `readString` are `ReadTag`, `ReadVarint64` and
`InlineGreedyStringParser`. `unknownFieldParse` gives what the set of unknown fields will write for
the value of the field with this tag. -/
structure Runtime where
  readTag : Reader Nat
  readVarint : Reader Nat
  readString : Reader Bytes
  unknownFieldParse : Nat → Reader Bytes
  verifyUTF8 : Bytes → Bool
  writeVarint : Nat → Bytes
  varintSize : Nat → Nat

structure UnknownField where
  tag : Nat
  value : Bytes
deriving DecidableEq, Repr

/-- What one `case` of the `switch` does; an unusual tag goes to the unknown fields. -/
inductive FieldResult (M : Type) where
  | parsed (m : M) (rest : Bytes)
  | unusual
  | failure

/-- The generated code of a message. -/
structure Generated (M : Type) where
  field : Nat → M → Bytes → FieldResult M
  addUnknown : M → UnknownField → M

/-- The tags at which `_InternalParse` returns, which `ParseFromString` takes for a failure: the end
of a group, and 0. -/
def EndsParse (tag : Nat) : Prop := tag % 8 = 4 ∨ tag = 0

instance (tag : Nat) : Decidable (EndsParse tag) := inferInstanceAs (Decidable (_ ∨ _))

section Parse

variable {M : Type} (rt : Runtime) (gen : Generated M)

/-- The body of the loop. -/
def round (m : M) (bytes : Bytes) : Option (M × Bytes) :=
  match rt.readTag bytes with
  | none => none
  | some (tag, rest) =>
      match gen.field tag m rest with
      | .parsed m rest => some (m, rest)
      | .failure => none
      | .unusual =>
          if EndsParse tag then none
          else
            match rt.unknownFieldParse tag rest with
            | none => none
            | some (value, rest) => some (gen.addUnknown m { tag := tag, value := value }, rest)

def parseLoop : (fuel : Nat) → M → Bytes → Option M
  | _, m, [] => some m
  | 0, _, _ :: _ => none
  | fuel + 1, m, byte :: bytes =>
      match round rt gen m (byte :: bytes) with
      | none => none
      | some (m, rest) => parseLoop fuel m rest

/-- `MergeFromString`, that is `ParseFromString` into a message that is not cleared first. -/
def parse (m : M) (bytes : Bytes) : Option M := parseLoop rt gen bytes.length m bytes

def parseIntoLoop (left : M → Bytes → M) : (fuel : Nat) → M → Bytes → M
  | _, m, [] => m
  | 0, m, _ :: _ => m
  | fuel + 1, m, byte :: bytes =>
      match round rt gen m (byte :: bytes) with
      | none => left m (byte :: bytes)
      | some (m, rest) => parseIntoLoop left fuel m rest

/-- The message after `parse`, whether it succeeds or not. `left` is what a round that fails
leaves. -/
def parseInto (left : M → Bytes → M) (m : M) (bytes : Bytes) : M :=
  parseIntoLoop rt gen left bytes.length m bytes

/-- The rounds that come to the end of the bytes. -/
inductive Parses : M → Bytes → M → Prop where
  | done (m : M) : Parses m [] m
  | next {m m' m'' : M} {bytes rest : Bytes} :
      round rt gen m bytes = some (m', rest) → Parses m' rest m'' → Parses m bytes m''

end Parse

/-! ### What is relied on -/

/-- `ReadSize` refuses more than `INT_MAX - kSlopBytes`. -/
def maxStringSize : Nat := 2 ^ 31 - 1 - 16

/-- A reader takes bytes off the beginning and does not look at those that it leaves. -/
structure Reads {α : Type} (read : Reader α) : Prop where
  length_le : ∀ {bytes a rest}, read bytes = some (a, rest) → rest.length ≤ bytes.length
  append : ∀ {bytes a rest}, read bytes = some (a, rest) →
    ∀ more, read (bytes ++ more) = some (a, rest ++ more)

theorem Reads.map {α β : Type} {read : Reader α} (h : Reads read) (f : α → β) :
    Reads fun bytes => (read bytes).map (Prod.map f id) where
  length_le := by
    intro bytes b rest hread
    obtain ⟨⟨a, rest'⟩, ha, hpair⟩ := Option.map_eq_some_iff.mp hread
    cases hpair
    exact h.length_le ha
  append := by
    intro bytes b rest hread more
    obtain ⟨⟨a, rest'⟩, ha, hpair⟩ := Option.map_eq_some_iff.mp hread
    cases hpair
    rw [h.append ha more]
    rfl

theorem reads_none {α : Type} : Reads fun _ => (none : Option (α × Bytes)) where
  length_le := by
    intro bytes a rest h
    cases h
  append := by
    intro bytes a rest h
    cases h

structure Runtime.Lawful (rt : Runtime) : Prop where
  tag : Reads rt.readTag
  tag_lt : ∀ {bytes tag rest}, rt.readTag bytes = some (tag, rest) →
    tag < 2 ^ 32 ∧ rest.length < bytes.length
  varint : Reads rt.readVarint
  string : Reads rt.readString
  string_le : ∀ {bytes str rest}, rt.readString bytes = some (str, rest) →
    str.length ≤ maxStringSize
  unknown : ∀ tag, Reads (rt.unknownFieldParse tag)
  unknown_value : ∀ {tag bytes value rest}, rt.unknownFieldParse tag bytes = some (value, rest) →
    rt.unknownFieldParse tag value = some (value, [])
  readTag_write : ∀ tag < 2 ^ 32, rt.readTag (rt.writeVarint tag) = some (tag, [])
  readVarint_write : ∀ n < 2 ^ 64, rt.readVarint (rt.writeVarint n) = some (n, [])
  readString_write : ∀ str : Bytes, str.length ≤ maxStringSize →
    rt.readString (rt.writeVarint str.length ++ str) = some (str, [])
  length_write : ∀ n, (rt.writeVarint n).length = rt.varintSize n
  varintSize_one : ∀ n < 128, rt.varintSize n = 1
  verifyUTF8_ascii : ∀ str : Bytes, (∀ byte ∈ str, byte < 128) → rt.verifyUTF8 str
  verifyUTF8_append : ∀ str str' : Bytes, rt.verifyUTF8 str → rt.verifyUTF8 str' →
    rt.verifyUTF8 (str ++ str')

/-- The generated code reads in the same way, and it is the tag that makes a field unusual. -/
structure Generated.Lawful {M : Type} (gen : Generated M) : Prop where
  length_le : ∀ {tag m bytes m' rest}, gen.field tag m bytes = .parsed m' rest →
    rest.length ≤ bytes.length
  append : ∀ {tag m bytes m' rest}, gen.field tag m bytes = .parsed m' rest →
    ∀ more, gen.field tag m (bytes ++ more) = .parsed m' (rest ++ more)
  unusual : ∀ {tag m bytes}, gen.field tag m bytes = .unusual →
    ∀ m' bytes', gen.field tag m' bytes' = .unusual

/-! ### The loop -/

section Loop

variable {M : Type} {rt : Runtime} {gen : Generated M} {m m' m'' : M} {bytes rest : Bytes}

theorem round_eq_some (h : round rt gen m bytes = some (m', rest)) :
    ∃ tag value, rt.readTag bytes = some (tag, value) ∧
      (gen.field tag m value = .parsed m' rest ∨
        (gen.field tag m value = .unusual ∧ ¬ EndsParse tag ∧ ∃ unknown,
          rt.unknownFieldParse tag value = some (unknown, rest) ∧
            m' = gen.addUnknown m { tag := tag, value := unknown })) := by
  unfold round at h
  cases htag : rt.readTag bytes with
  | none =>
      rw [htag] at h
      cases h
  | some p =>
      obtain ⟨tag, value⟩ := p
      simp only [htag] at h
      refine ⟨tag, value, rfl, ?_⟩
      cases hfield : gen.field tag m value with
      | parsed m₁ rest₁ =>
          simp only [hfield, Option.some_inj, Prod.mk.injEq] at h
          obtain ⟨rfl, rfl⟩ := h
          exact .inl rfl
      | failure =>
          simp only [hfield] at h
          cases h
      | unusual =>
          simp only [hfield] at h
          split at h
          · cases h
          · rename_i hends
            cases hunknown : rt.unknownFieldParse tag value with
            | none =>
                simp only [hunknown] at h
                cases h
            | some q =>
                obtain ⟨unknown, rest₁⟩ := q
                simp only [hunknown, Option.some_inj, Prod.mk.injEq] at h
                obtain ⟨rfl, rfl⟩ := h
                exact .inr ⟨rfl, hends, unknown, rfl, rfl⟩

theorem round_of_parsed {tag : Nat} {value : Bytes} (htag : rt.readTag bytes = some (tag, value))
    (hfield : gen.field tag m value = .parsed m' rest) :
    round rt gen m bytes = some (m', rest) := by
  simp only [round, htag, hfield]

theorem round_of_unusual {tag : Nat} {value unknown : Bytes}
    (htag : rt.readTag bytes = some (tag, value)) (hfield : gen.field tag m value = .unusual)
    (hends : ¬ EndsParse tag) (hunknown : rt.unknownFieldParse tag value = some (unknown, rest)) :
    round rt gen m bytes = some (gen.addUnknown m { tag := tag, value := unknown }, rest) := by
  simp only [round, htag, hfield, if_neg hends, hunknown]

theorem round_length_lt (hrt : rt.Lawful) (hgen : gen.Lawful)
    (h : round rt gen m bytes = some (m', rest)) : rest.length < bytes.length := by
  obtain ⟨tag, value, htag, hfield | ⟨-, -, unknown, hunknown, -⟩⟩ := round_eq_some h
  · exact (hgen.length_le hfield).trans_lt (hrt.tag_lt htag).2
  · exact ((hrt.unknown tag).length_le hunknown).trans_lt (hrt.tag_lt htag).2

theorem round_append (hrt : rt.Lawful) (hgen : gen.Lawful)
    (h : round rt gen m bytes = some (m', rest)) (more : Bytes) :
    round rt gen m (bytes ++ more) = some (m', rest ++ more) := by
  obtain ⟨tag, value, htag, hfield | ⟨hfield, hends, unknown, hunknown, rfl⟩⟩ := round_eq_some h
  · exact round_of_parsed (hrt.tag.append htag more) (hgen.append hfield more)
  · exact round_of_unusual (hrt.tag.append htag more) (hgen.unusual hfield m _) hends
      ((hrt.unknown tag).append hunknown more)

theorem ne_nil_of_round (hrt : rt.Lawful) (hgen : gen.Lawful)
    (h : round rt gen m bytes = some (m', rest)) : bytes ≠ [] := by
  rintro rfl
  exact Nat.not_lt_zero _ (round_length_lt hrt hgen h)

theorem parseLoop_eq_some_iff (hrt : rt.Lawful) (hgen : gen.Lawful) {fuel : Nat}
    (hfuel : bytes.length ≤ fuel) :
    parseLoop rt gen fuel m bytes = some m' ↔ Parses rt gen m bytes m' := by
  induction fuel generalizing m bytes with
  | zero =>
      obtain rfl : bytes = [] := List.length_eq_zero_iff.mp (Nat.le_zero.mp hfuel)
      constructor
      · intro h
        cases h
        exact .done _
      · intro h
        cases h with
        | done => rfl
        | next hround _ => exact absurd rfl (ne_nil_of_round hrt hgen hround)
  | succ fuel ih =>
      cases bytes with
      | nil =>
          constructor
          · intro h
            cases h
            exact .done _
          · intro h
            cases h with
            | done => rfl
            | next hround _ => exact absurd rfl (ne_nil_of_round hrt hgen hround)
      | cons byte bytes =>
          rw [parseLoop]
          constructor
          · intro h
            cases hround : round rt gen m (byte :: bytes) with
            | none =>
                simp only [hround] at h
                cases h
            | some p =>
                obtain ⟨m₁, rest⟩ := p
                simp only [hround] at h
                have hlt := round_length_lt hrt hgen hround
                exact .next hround ((ih (by omega)).mp h)
          · intro h
            cases h with
            | next hround hparses =>
                have hlt := round_length_lt hrt hgen hround
                simp only [hround]
                exact (ih (by omega)).mpr hparses

theorem parse_eq_some_iff (hrt : rt.Lawful) (hgen : gen.Lawful) :
    parse rt gen m bytes = some m' ↔ Parses rt gen m bytes m' :=
  parseLoop_eq_some_iff hrt hgen (Nat.le_refl _)

theorem parseIntoLoop_of_parseLoop (left : M → Bytes → M) {fuel : Nat}
    (h : parseLoop rt gen fuel m bytes = some m') :
    parseIntoLoop rt gen left fuel m bytes = m' := by
  induction fuel generalizing m bytes with
  | zero =>
      cases bytes with
      | nil =>
          cases h
          rfl
      | cons byte bytes => cases h
  | succ fuel ih =>
      cases bytes with
      | nil =>
          cases h
          rfl
      | cons byte bytes =>
          rw [parseLoop] at h
          rw [parseIntoLoop]
          cases hround : round rt gen m (byte :: bytes) with
          | none =>
              simp only [hround] at h
              cases h
          | some p =>
              simp only [hround] at h
              exact ih h

theorem parseInto_of_parse (left : M → Bytes → M) (h : parse rt gen m bytes = some m') :
    parseInto rt gen left m bytes = m' :=
  parseIntoLoop_of_parseLoop left h

/-- What one parse leaves the next one starts with. -/
theorem Parses.append_iff (hrt : rt.Lawful) (hgen : gen.Lawful) (h : Parses rt gen m bytes m')
    (more : Bytes) : Parses rt gen m (bytes ++ more) m'' ↔ Parses rt gen m' more m'' := by
  induction h with
  | done m => rfl
  | next hround _ ih =>
      have hmore := round_append hrt hgen hround more
      rw [← ih]
      constructor
      · intro hparses
        generalize hbytes : _ ++ more = all at hparses hmore
        cases hparses with
        | done => exact absurd rfl (ne_nil_of_round hrt hgen hmore)
        | next hround' hrest =>
            rw [hmore] at hround'
            cases hround'
            exact hrest
      · exact .next hmore

theorem Parses.append {more : Bytes} (hrt : rt.Lawful) (hgen : gen.Lawful)
    (h : Parses rt gen m bytes m') (h' : Parses rt gen m' more m'') :
    Parses rt gen m (bytes ++ more) m'' :=
  (h.append_iff hrt hgen more).mpr h'

theorem parse_append (hrt : rt.Lawful) (hgen : gen.Lawful) (h : Parses rt gen m bytes m')
    (more : Bytes) : parse rt gen m (bytes ++ more) = parse rt gen m' more := by
  ext m''
  rw [parse_eq_some_iff hrt hgen, parse_eq_some_iff hrt hgen]
  exact h.append_iff hrt hgen more

/-- What every field keeps a parse keeps. -/
theorem Parses.invariant {inv : M → Prop}
    (hstep : ∀ {m bytes m' rest}, round rt gen m bytes = some (m', rest) → inv m → inv m')
    (h : Parses rt gen m bytes m') (hm : inv m) : inv m' := by
  induction h with
  | done m => exact hm
  | next hround _ ih => exact ih (hstep hround hm)

end Loop

/-! ### Fields -/

section Fields

variable {M : Type} {rt : Runtime} {gen : Generated M} {m m' : M} {bytes rest : Bytes}

def ofLittleEndian (bytes : Bytes) : Nat := ofBigEndian bytes.reverse

def littleEndian (width n : Nat) : Bytes := (bigEndian width n).reverse

/-- `UnalignedLoad` of 64 bits. To go past the end is seen before the next tag. -/
def fixed64Field (set : Nat → M) (bytes : Bytes) : FieldResult M :=
  if 8 ≤ bytes.length then .parsed (set (ofLittleEndian (bytes.take 8))) (bytes.drop 8)
  else .failure

def Runtime.varintField (rt : Runtime) (set : Nat → M) (bytes : Bytes) : FieldResult M :=
  match rt.readVarint bytes with
  | none => .failure
  | some (n, rest) => .parsed (set n) rest

def Runtime.stringField (rt : Runtime) (set : Bytes → M) (bytes : Bytes) : FieldResult M :=
  match rt.readString bytes with
  | none => .failure
  | some (str, rest) => if rt.verifyUTF8 str then .parsed (set str) rest else .failure

theorem fixed64Field_eq_parsed {set : Nat → M} (h : fixed64Field set bytes = .parsed m' rest) :
    m' = set (ofLittleEndian (bytes.take 8)) ∧ rest = bytes.drop 8 ∧ 8 ≤ bytes.length := by
  unfold fixed64Field at h
  split at h
  · rename_i hle
    cases h
    exact ⟨rfl, rfl, hle⟩
  · cases h

theorem varintField_eq_parsed {set : Nat → M} (h : rt.varintField set bytes = .parsed m' rest) :
    ∃ n, rt.readVarint bytes = some (n, rest) ∧ m' = set n := by
  unfold Runtime.varintField at h
  split at h
  · cases h
  · rename_i n rest' hread
    cases h
    exact ⟨n, hread, rfl⟩

theorem stringField_eq_parsed {set : Bytes → M} (h : rt.stringField set bytes = .parsed m' rest) :
    ∃ str, rt.readString bytes = some (str, rest) ∧ rt.verifyUTF8 str ∧ m' = set str := by
  unfold Runtime.stringField at h
  split at h
  · cases h
  · rename_i str rest' hread
    split at h
    · rename_i hutf8
      cases h
      exact ⟨str, hread, hutf8, rfl⟩
    · cases h

theorem fixed64Field_ne_unusual (set : Nat → M) (bytes : Bytes) :
    fixed64Field set bytes ≠ .unusual := by
  unfold fixed64Field
  split
  · simp
  · simp

theorem varintField_ne_unusual (set : Nat → M) (bytes : Bytes) :
    rt.varintField set bytes ≠ .unusual := by
  unfold Runtime.varintField
  split
  · simp
  · simp

theorem stringField_ne_unusual (set : Bytes → M) (bytes : Bytes) :
    rt.stringField set bytes ≠ .unusual := by
  unfold Runtime.stringField
  split
  · simp
  · split
    · simp
    · simp

/-- One `case` of the `switch`: it is unusual, or it takes bytes off the beginning. -/
structure ReadsField (field : M → Bytes → FieldResult M) : Prop where
  length_le : ∀ {m bytes m' rest}, field m bytes = .parsed m' rest → rest.length ≤ bytes.length
  append : ∀ {m bytes m' rest}, field m bytes = .parsed m' rest →
    ∀ more, field m (bytes ++ more) = .parsed m' (rest ++ more)
  unusual : ∀ {m bytes}, field m bytes = .unusual → ∀ m' bytes', field m' bytes' = .unusual

theorem readsField_unusual : ReadsField fun (_ : M) _ => FieldResult.unusual where
  length_le := by
    intro m bytes m' rest h
    cases h
  append := by
    intro m bytes m' rest h
    cases h
  unusual := fun _ _ _ => rfl

theorem readsField_fixed64 (set : M → Nat → M) : ReadsField fun m => fixed64Field (set m) where
  length_le := by
    intro m bytes m' rest h
    obtain ⟨-, rfl, -⟩ := fixed64Field_eq_parsed h
    rw [List.length_drop]
    exact Nat.sub_le _ _
  append := by
    intro m bytes m' rest h more
    obtain ⟨rfl, rfl, hle⟩ := fixed64Field_eq_parsed h
    have hmore : 8 ≤ (bytes ++ more).length := by
      rw [List.length_append]
      exact Nat.le_add_right_of_le hle
    rw [fixed64Field, if_pos hmore, List.take_append_of_le_length hle,
      List.drop_append_of_le_length hle]
  unusual := fun h => absurd h (fixed64Field_ne_unusual _ _)

theorem readsField_varint (hrt : rt.Lawful) (set : M → Nat → M) :
    ReadsField fun m => rt.varintField (set m) where
  length_le := by
    intro m bytes m' rest h
    obtain ⟨n, hread, -⟩ := varintField_eq_parsed h
    exact hrt.varint.length_le hread
  append := by
    intro m bytes m' rest h more
    obtain ⟨n, hread, rfl⟩ := varintField_eq_parsed h
    rw [Runtime.varintField, hrt.varint.append hread more]
  unusual := fun h => absurd h (varintField_ne_unusual _ _)

theorem readsField_string (hrt : rt.Lawful) (set : M → Bytes → M) :
    ReadsField fun m => rt.stringField (set m) where
  length_le := by
    intro m bytes m' rest h
    obtain ⟨str, hread, -, -⟩ := stringField_eq_parsed h
    exact hrt.string.length_le hread
  append := by
    intro m bytes m' rest h more
    obtain ⟨str, hread, hutf8, rfl⟩ := stringField_eq_parsed h
    rw [Runtime.stringField, hrt.string.append hread more]
    simp only [hutf8, if_true]
  unusual := fun h => absurd h (stringField_ne_unusual _ _)

theorem lawful_of_readsField (h : ∀ tag, ReadsField (gen.field tag)) : gen.Lawful where
  length_le := (h _).length_le
  append := (h _).append
  unusual := (h _).unusual

/-! ### What is written is read -/

def Runtime.writeTag (rt : Runtime) (number wireType : Nat) : Bytes :=
  rt.writeVarint (8 * number + wireType)

def Runtime.writeFixed64 (rt : Runtime) (number n : Nat) : Bytes :=
  rt.writeTag number 1 ++ littleEndian 8 n

def Runtime.writeVarintField (rt : Runtime) (number n : Nat) : Bytes :=
  rt.writeTag number 0 ++ rt.writeVarint n

def Runtime.writeString (rt : Runtime) (number : Nat) (str : Bytes) : Bytes :=
  rt.writeTag number 2 ++ (rt.writeVarint str.length ++ str)

theorem length_writeTag (hrt : rt.Lawful) {number wireType : Nat}
    (htag : 8 * number + wireType < 128) : (rt.writeTag number wireType).length = 1 := by
  rw [Runtime.writeTag, hrt.length_write, hrt.varintSize_one _ htag]

theorem length_writeFixed64 (hrt : rt.Lawful) {number n : Nat} (htag : 8 * number + 1 < 128) :
    (rt.writeFixed64 number n).length = 1 + 8 := by
  rw [Runtime.writeFixed64, List.length_append, length_writeTag hrt htag, littleEndian,
    List.length_reverse, length_bigEndian]

theorem length_writeVarintField (hrt : rt.Lawful) {number n : Nat} (htag : 8 * number < 128) :
    (rt.writeVarintField number n).length = 1 + rt.varintSize n := by
  rw [Runtime.writeVarintField, List.length_append, length_writeTag hrt htag, hrt.length_write]

theorem length_writeString (hrt : rt.Lawful) {number : Nat} {str : Bytes}
    (htag : 8 * number + 2 < 128) :
    (rt.writeString number str).length = 1 + (rt.varintSize str.length + str.length) := by
  rw [Runtime.writeString, List.length_append, length_writeTag hrt htag, List.length_append,
    hrt.length_write]

theorem parses_of_field (hrt : rt.Lawful) {tag : Nat} {value : Bytes} (htag : tag < 2 ^ 32)
    (hfield : gen.field tag m value = .parsed m' []) :
    Parses rt gen m (rt.writeVarint tag ++ value) m' :=
  .next (round_of_parsed (hrt.tag.append (hrt.readTag_write tag htag) value) hfield) (.done m')

theorem fixed64Field_littleEndian (set : Nat → M) {n : Nat} (hn : n < 2 ^ 64) :
    fixed64Field set (littleEndian 8 n) = .parsed (set n) [] := by
  have hlength : (littleEndian 8 n).length = 8 := by
    rw [littleEndian, List.length_reverse, length_bigEndian]
  rw [fixed64Field, if_pos hlength.ge, List.take_of_length_le hlength.le,
    List.drop_of_length_le hlength.le, ofLittleEndian, littleEndian, List.reverse_reverse,
    ofBigEndian_bigEndian_of_lt hn]

theorem varintField_write (hrt : rt.Lawful) (set : Nat → M) {n : Nat} (hn : n < 2 ^ 64) :
    rt.varintField set (rt.writeVarint n) = .parsed (set n) [] := by
  rw [Runtime.varintField, hrt.readVarint_write n hn]

theorem stringField_write (hrt : rt.Lawful) (set : Bytes → M) {str : Bytes}
    (hlength : str.length ≤ maxStringSize) : rt.stringField set (rt.writeVarint str.length ++ str)
      = if rt.verifyUTF8 str then .parsed (set str) [] else .failure := by
  rw [Runtime.stringField, hrt.readString_write str hlength]

/-- A string that is not valid is refused, whatever follows. -/
theorem parse_of_invalid (hrt : rt.Lawful) {number : Nat} {str : Bytes}
    (htag : 8 * number + 2 < 2 ^ 32) (hlength : str.length ≤ maxStringSize)
    (hinvalid : rt.verifyUTF8 str = false) {set : Bytes → M}
    (hfield : ∀ bytes, gen.field (8 * number + 2) m bytes = rt.stringField set bytes)
    (more : Bytes) : parse rt gen m (rt.writeString number str ++ more) = none := by
  have hread : rt.readTag (rt.writeString number str ++ more)
      = some (8 * number + 2, rt.writeVarint str.length ++ str ++ more) := by
    rw [Runtime.writeString, Runtime.writeTag, List.append_assoc]
    exact hrt.tag.append (hrt.readTag_write _ htag) _
  have hstring : rt.stringField set (rt.writeVarint str.length ++ str ++ more) = .failure := by
    rw [Runtime.stringField, hrt.string.append (hrt.readString_write str hlength) more]
    simp only [hinvalid, Bool.false_eq_true, if_false]
  have hround : round rt gen m (rt.writeString number str ++ more) = none := by
    simp only [round, hread, hfield, hstring]
  rw [parse]
  generalize hbytes : rt.writeString number str ++ more = bytes at hround hread
  cases bytes with
  | nil => exact absurd (hrt.tag_lt hread).2 (Nat.not_lt_zero _)
  | cons byte bytes => simp only [List.length_cons, parseLoop, hround]

end Fields

/-! ### Unknown fields -/

section Unknown

variable {M : Type} {rt : Runtime} {gen : Generated M} {m : M}

/-- The set of unknown fields may hold the field. -/
structure UnknownField.Kept (rt : Runtime) (gen : Generated M) (u : UnknownField) : Prop where
  tag_lt : u.tag < 2 ^ 32
  unusual : ∀ m bytes, gen.field u.tag m bytes = .unusual
  goes_on : ¬ EndsParse u.tag
  value : rt.unknownFieldParse u.tag u.value = some (u.value, [])

/-- `InternalSerializeUnknownFieldsToArray`. -/
def Runtime.writeUnknown (rt : Runtime) (us : List UnknownField) : Bytes :=
  us.flatMap fun u => rt.writeVarint u.tag ++ u.value

/-- `ComputeUnknownFieldsSize`. -/
def Runtime.unknownSize (rt : Runtime) (us : List UnknownField) : Nat :=
  (us.map fun u => rt.varintSize u.tag + u.value.length).sum

theorem length_writeUnknown (hrt : rt.Lawful) (us : List UnknownField) :
    (rt.writeUnknown us).length = rt.unknownSize us := by
  rw [Runtime.writeUnknown, Runtime.unknownSize, List.length_flatMap]
  simp only [List.length_append, hrt.length_write]

theorem parses_unknown (hrt : rt.Lawful) (hgen : gen.Lawful) {us : List UnknownField}
    (hus : ∀ u ∈ us, u.Kept rt gen) :
    Parses rt gen m (rt.writeUnknown us) (us.foldl gen.addUnknown m) := by
  induction us generalizing m with
  | nil => exact .done m
  | cons u us ih =>
      have hu := hus u List.mem_cons_self
      have hfirst : round rt gen m (rt.writeVarint u.tag ++ u.value)
          = some (gen.addUnknown m u, []) :=
        round_of_unusual (hrt.tag.append (hrt.readTag_write u.tag hu.tag_lt) u.value)
          (hu.unusual m _) hu.goes_on hu.value
      rw [Runtime.writeUnknown, List.flatMap_cons, List.foldl_cons]
      exact Parses.append hrt hgen (.next hfirst (.done _))
        (ih fun u hmem => hus u (List.mem_cons_of_mem _ hmem))

/-- What an unusual tag adds may be kept. -/
theorem kept_of_unusual (hrt : rt.Lawful) (hgen : gen.Lawful) {tag : Nat}
    {bytes value unknown rest : Bytes} (htag : rt.readTag bytes = some (tag, value))
    (hfield : gen.field tag m value = .unusual) (hends : ¬ EndsParse tag)
    (hunknown : rt.unknownFieldParse tag value = some (unknown, rest)) :
    UnknownField.Kept rt gen { tag := tag, value := unknown } where
  tag_lt := (hrt.tag_lt htag).1
  unusual := hgen.unusual hfield
  goes_on := hends
  value := hrt.unknown_value hunknown

end Unknown

end Protobuf
