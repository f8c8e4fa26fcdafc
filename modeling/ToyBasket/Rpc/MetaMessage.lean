import ToyBasket.Rpc.PbRuntime
import ToyBasket.Rpc.Frame

/-!
# RpcMeta in full

`rpc_meta.pb.cc` with unknown fields, strings that are not valid UTF-8 and parses that fail. What it
calls of the runtime is a parameter, and so is what a round leaves that fails.
-/

namespace ToyBasket

open Words Protobuf

structure RpcMetaMessage extends RpcMeta where
  unknownFields : List UnknownField
deriving DecidableEq, Repr

namespace RpcMetaMessage

def defaultInstance : RpcMetaMessage where
  id := 0
  server := []
  method := []
  dataSize := 0
  unknownFields := []

/-- The `switch` of `_InternalParse`. -/
def field (rt : Runtime) (tag : Nat) (m : RpcMetaMessage) (bytes : Bytes) :
    FieldResult RpcMetaMessage :=
  match tag / 8 with
  | 1 =>
      if tag % 256 = 9 then fixed64Field (fun n => { m with id := UInt64.ofNat n }) bytes
      else .unusual
  | 2 =>
      if tag % 256 = 18 then rt.stringField (fun str => { m with server := str }) bytes
      else .unusual
  | 3 =>
      if tag % 256 = 26 then rt.stringField (fun str => { m with method := str }) bytes
      else .unusual
  | 4 =>
      if tag % 256 = 32 then
        rt.varintField (fun n => { m with dataSize := Int32.ofInt n }) bytes
      else .unusual
  | _ => .unusual

def generated (rt : Runtime) : Generated RpcMetaMessage where
  field := field rt
  addUnknown := fun m u => { m with unknownFields := m.unknownFields ++ [u] }

def internalSerialize (rt : Runtime) (m : RpcMetaMessage) : Bytes :=
  (if m.id ≠ 0 then rt.writeFixed64 1 m.id.toNat else []) ++
    (if 0 < m.server.length then rt.writeString 2 m.server else []) ++
    (if 0 < m.method.length then rt.writeString 3 m.method else []) ++
    (if m.dataSize ≠ 0 then rt.writeVarintField 4 (toSize m.dataSize.toInt) else []) ++
    rt.writeUnknown m.unknownFields

def stringSize (rt : Runtime) (str : Bytes) : Nat := rt.varintSize str.length + str.length

def byteSizeLong (rt : Runtime) (m : RpcMetaMessage) : Nat :=
  (if 0 < m.server.length then 1 + stringSize rt m.server else 0) +
    (if 0 < m.method.length then 1 + stringSize rt m.method else 0) +
    (if m.id ≠ 0 then 1 + 8 else 0) +
    (if m.dataSize ≠ 0 then 1 + rt.varintSize (toSize m.dataSize.toInt) else 0) +
    rt.unknownSize m.unknownFields

/-- `MergeFrom`. -/
def mergeFrom (m source : RpcMetaMessage) : RpcMetaMessage where
  id := if source.id ≠ 0 then source.id else m.id
  server := if 0 < source.server.length then source.server else m.server
  method := if 0 < source.method.length then source.method else m.method
  dataSize := if source.dataSize ≠ 0 then source.dataSize else m.dataSize
  unknownFields := m.unknownFields ++ source.unknownFields

variable {rt : Runtime} {m m₀ : RpcMetaMessage} {bytes : Bytes}

theorem field_of_other {tag : Nat} (h : tag ≠ 9 ∧ tag ≠ 18 ∧ tag ≠ 26 ∧ tag ≠ 32)
    (m : RpcMetaMessage) (bytes : Bytes) : field rt tag m bytes = .unusual := by
  unfold field
  split
  · rw [if_neg (by omega)]
  · rw [if_neg (by omega)]
  · rw [if_neg (by omega)]
  · rw [if_neg (by omega)]
  · rfl

theorem field_id : (generated rt).field 9 m bytes
    = fixed64Field (fun n => { m with id := UInt64.ofNat n }) bytes := rfl

theorem field_server : (generated rt).field 18 m bytes
    = rt.stringField (fun str => { m with server := str }) bytes := rfl

theorem field_method : (generated rt).field 26 m bytes
    = rt.stringField (fun str => { m with method := str }) bytes := rfl

theorem field_dataSize : (generated rt).field 32 m bytes
    = rt.varintField (fun n => { m with dataSize := Int32.ofInt n }) bytes := rfl

theorem lawful_generated (hrt : rt.Lawful) : (generated rt).Lawful := by
  apply lawful_of_readsField
  intro tag
  by_cases hother : tag ≠ 9 ∧ tag ≠ 18 ∧ tag ≠ 26 ∧ tag ≠ 32
  · have hfield : field rt tag = fun _ _ => .unusual := by
      funext m bytes
      exact field_of_other hother m bytes
    have hunusual : ReadsField (fun (_ : RpcMetaMessage) (_ : Bytes) => .unusual) :=
      readsField_unusual
    rwa [← hfield] at hunusual
  · obtain rfl | rfl | rfl | rfl : tag = 9 ∨ tag = 18 ∨ tag = 26 ∨ tag = 32 := by omega
    · exact readsField_fixed64 fun (m : RpcMetaMessage) n => { m with id := UInt64.ofNat n }
    · exact readsField_string hrt fun (m : RpcMetaMessage) str => { m with server := str }
    · exact readsField_string hrt fun (m : RpcMetaMessage) str => { m with method := str }
    · exact readsField_varint hrt fun (m : RpcMetaMessage) n => { m with dataSize := Int32.ofInt n }

/-! ### Each field -/

theorem parses_id (hrt : rt.Lawful) (id : UInt64) :
    Parses rt (generated rt) m (if id ≠ 0 then rt.writeFixed64 1 id.toNat else [])
      { m with id := if id ≠ 0 then id else m.id } := by
  split
  · have hfield := fixed64Field_littleEndian
      (fun n => ({ m with id := UInt64.ofNat n } : RpcMetaMessage)) id.toNat_lt
    simp only [UInt64.ofNat_toNat] at hfield
    exact parses_of_field hrt (by decide) hfield
  · exact .done m

/-- The sign of the size survives the 64 bits of the varint. -/
theorem ofInt_toSize (dataSize : Int32) : Int32.ofInt (toSize dataSize.toInt) = dataSize := by
  have hlow := dataSize.le_toInt
  have hhigh := dataSize.toInt_lt
  apply Int32.toInt_inj.mp
  rw [Int32.toInt_ofInt, Int.bmod_eq_iff (by decide)]
  have hsize : (Int32.size : Int) = 4294967296 := rfl
  rw [hsize, toSize]
  omega

theorem parses_dataSize (hrt : rt.Lawful) (dataSize : Int32) :
    Parses rt (generated rt) m
      (if dataSize ≠ 0 then rt.writeVarintField 4 (toSize dataSize.toInt) else [])
      { m with dataSize := if dataSize ≠ 0 then dataSize else m.dataSize } := by
  split
  · have hsize : toSize dataSize.toInt < 2 ^ 64 := by
      unfold toSize
      omega
    have hfield := varintField_write hrt
      (fun n => ({ m with dataSize := Int32.ofInt n } : RpcMetaMessage)) hsize
    simp only [ofInt_toSize] at hfield
    exact parses_of_field hrt (by decide) hfield
  · exact .done m

/-- A string that the parser takes, or that is not written. -/
def ValidString (rt : Runtime) (str : Bytes) : Prop := str ≠ [] → rt.verifyUTF8 str

theorem parses_server (hrt : rt.Lawful) {str : Bytes} (hlength : str.length ≤ maxStringSize)
    (hvalid : ValidString rt str) :
    Parses rt (generated rt) m (if 0 < str.length then rt.writeString 2 str else [])
      { m with server := if 0 < str.length then str else m.server } := by
  split
  · rename_i hne
    have hutf8 := hvalid (List.length_pos_iff.mp hne)
    have hfield := stringField_write hrt
      (fun str => ({ m with server := str } : RpcMetaMessage)) hlength
    rw [if_pos hutf8] at hfield
    exact parses_of_field hrt (by decide) hfield
  · exact .done m

theorem parses_method (hrt : rt.Lawful) {str : Bytes} (hlength : str.length ≤ maxStringSize)
    (hvalid : ValidString rt str) :
    Parses rt (generated rt) m (if 0 < str.length then rt.writeString 3 str else [])
      { m with method := if 0 < str.length then str else m.method } := by
  split
  · rename_i hne
    have hutf8 := hvalid (List.length_pos_iff.mp hne)
    have hfield := stringField_write hrt
      (fun str => ({ m with method := str } : RpcMetaMessage)) hlength
    rw [if_pos hutf8] at hfield
    exact parses_of_field hrt (by decide) hfield
  · exact .done m

theorem foldl_addUnknown (us : List UnknownField) :
    us.foldl (generated rt).addUnknown m = { m with unknownFields := m.unknownFields ++ us } := by
  induction us generalizing m with
  | nil => rw [List.foldl_nil, List.append_nil]
  | cons u us ih =>
      rw [List.foldl_cons, ih]
      simp only [generated, List.append_assoc, List.singleton_append]

/-! ### The message -/

/-- What the fields can hold. -/
structure Storable (rt : Runtime) (m : RpcMetaMessage) : Prop where
  server_le : m.server.length ≤ maxStringSize
  method_le : m.method.length ≤ maxStringSize
  unknown : ∀ u ∈ m.unknownFields, u.Kept rt (generated rt)

def ValidNames (rt : Runtime) (m : RpcMetaMessage) : Prop :=
  ValidString rt m.server ∧ ValidString rt m.method

instance (rt : Runtime) (str : Bytes) : Decidable (ValidString rt str) :=
  inferInstanceAs (Decidable (_ → _))

instance (rt : Runtime) (m : RpcMetaMessage) : Decidable (m.ValidNames rt) :=
  inferInstanceAs (Decidable (_ ∧ _))

theorem storable_defaultInstance : defaultInstance.Storable rt where
  server_le := by decide
  method_le := by decide
  unknown := by
    rintro u ⟨⟩

theorem mergeFrom_defaultInstance (m : RpcMetaMessage) : defaultInstance.mergeFrom m = m := by
  have hstring : ∀ str : Bytes, (if 0 < str.length then str else []) = str := by
    intro str
    split
    · rfl
    · rename_i hempty
      exact (List.length_eq_zero_iff.mp (Nat.eq_zero_of_not_pos hempty)).symm
  have hid : (if m.id ≠ 0 then m.id else 0) = m.id := by
    split
    · rfl
    · rename_i hzero
      exact (not_not.mp hzero).symm
  have hdataSize : (if m.dataSize ≠ 0 then m.dataSize else 0) = m.dataSize := by
    split
    · rfl
    · rename_i hzero
      exact (not_not.mp hzero).symm
  simp only [mergeFrom, defaultInstance, hstring, hid, hdataSize, List.nil_append]

/-- Reading what was written is merging. -/
theorem parses_internalSerialize (hrt : rt.Lawful) (hm : m.Storable rt) (hnames : m.ValidNames rt) :
    Parses rt (generated rt) m₀ (internalSerialize rt m) (m₀.mergeFrom m) := by
  have hgen := lawful_generated hrt
  have hid := parses_id (m := m₀) hrt m.id
  have hserver := hid.append hrt hgen (parses_server hrt hm.server_le hnames.1)
  have hmethod := hserver.append hrt hgen (parses_method hrt hm.method_le hnames.2)
  have hdataSize := hmethod.append hrt hgen (parses_dataSize hrt m.dataSize)
  have hunknown := hdataSize.append hrt hgen (parses_unknown hrt hgen hm.unknown)
  rwa [foldl_addUnknown] at hunknown

theorem length_internalSerialize (hrt : rt.Lawful) (m : RpcMetaMessage) :
    (internalSerialize rt m).length = m.byteSizeLong rt := by
  have hid : (if m.id ≠ 0 then rt.writeFixed64 1 m.id.toNat else []).length
      = if m.id ≠ 0 then 1 + 8 else 0 := by
    rw [apply_ite List.length, length_writeFixed64 hrt (by decide), List.length_nil]
  have hserver : (if 0 < m.server.length then rt.writeString 2 m.server else []).length
      = if 0 < m.server.length then 1 + stringSize rt m.server else 0 := by
    rw [apply_ite List.length, length_writeString hrt (by decide), List.length_nil, stringSize]
  have hmethod : (if 0 < m.method.length then rt.writeString 3 m.method else []).length
      = if 0 < m.method.length then 1 + stringSize rt m.method else 0 := by
    rw [apply_ite List.length, length_writeString hrt (by decide), List.length_nil, stringSize]
  have hdataSize : (if m.dataSize ≠ 0 then rt.writeVarintField 4 (toSize m.dataSize.toInt)
      else []).length = if m.dataSize ≠ 0 then 1 + rt.varintSize (toSize m.dataSize.toInt)
      else 0 := by
    rw [apply_ite List.length, length_writeVarintField hrt (by decide), List.length_nil]
  simp only [internalSerialize, byteSizeLong, List.length_append, hid, hserver, hmethod, hdataSize,
    length_writeUnknown hrt]
  omega

/-- A name that is not valid UTF-8 is written, and is refused by the parser. -/
theorem parse_of_invalidNames (hrt : rt.Lawful) (hm : m.Storable rt) (hnames : ¬ m.ValidNames rt)
    (more : Bytes) : parse rt (generated rt) m₀ (internalSerialize rt m ++ more) = none := by
  have hgen := lawful_generated hrt
  have hid := parses_id (m := m₀) hrt m.id
  simp only [internalSerialize, List.append_assoc]
  rw [parse_append hrt hgen hid]
  by_cases hserver : ValidString rt m.server
  · have hmethod : ¬ ValidString rt m.method := fun hmethod => hnames ⟨hserver, hmethod⟩
    simp only [ValidString, Classical.not_imp, Bool.not_eq_true] at hmethod
    rw [parse_append hrt hgen (parses_server hrt hm.server_le hserver),
      if_pos (List.length_pos_iff.mpr hmethod.1)]
    exact parse_of_invalid hrt (by decide) hm.method_le hmethod.2 (fun _ => rfl) _
  · simp only [ValidString, Classical.not_imp, Bool.not_eq_true] at hserver
    rw [if_pos (List.length_pos_iff.mpr hserver.1)]
    exact parse_of_invalid hrt (by decide) hm.server_le hserver.2 (fun _ => rfl) _

/-- Reading what `_InternalSerialize` wrote, before anything else, is `MergeFrom`, unless a name is
not valid UTF-8; and what it wrote is as long as `ByteSizeLong` says. -/
theorem parse_internalSerialize (hrt : rt.Lawful) (hm : m.Storable rt) (m₀ : RpcMetaMessage)
    (more : Bytes) :
    (parse rt (generated rt) m₀ (internalSerialize rt m ++ more)
      = if m.ValidNames rt then parse rt (generated rt) (m₀.mergeFrom m) more else none) ∧
      (internalSerialize rt m).length = m.byteSizeLong rt := by
  refine ⟨?_, length_internalSerialize hrt m⟩
  split
  · rename_i hnames
    exact parse_append hrt (lawful_generated hrt) (parses_internalSerialize hrt hm hnames) more
  · rename_i hnames
    exact parse_of_invalidNames hrt hm hnames more

/-- A response's meta with a field that a later version has added. -/
def withUnknown : RpcMetaMessage where
  id := 7
  server := []
  method := [69, 99, 104, 111]
  dataSize := -1
  unknownFields := [{ tag := 40, value := [200, 1] }]

theorem storable_withUnknown : withUnknown.Storable PbRuntime.runtime where
  server_le := by decide
  method_le := by decide
  unknown := by
    intro u hu
    have hother : ∀ m bytes, field PbRuntime.runtime 40 m bytes = .unusual :=
      field_of_other (by decide)
    rw [List.mem_singleton.mp hu]
    exact ⟨by decide, hother, by decide, by decide⟩

theorem parse_internalSerialize_withUnknown :
    parse PbRuntime.runtime (generated PbRuntime.runtime) defaultInstance
        (internalSerialize PbRuntime.runtime withUnknown ++ [9, 1, 0, 0, 0, 0, 0, 0, 0])
      = some { withUnknown with id := 1 } ∧
      (internalSerialize PbRuntime.runtime withUnknown).length
        = withUnknown.byteSizeLong PbRuntime.runtime := by
  obtain ⟨hparse, hlength⟩ := parse_internalSerialize PbRuntime.lawful_runtime storable_withUnknown
    defaultInstance [9, 1, 0, 0, 0, 0, 0, 0, 0]
  refine ⟨?_, hlength⟩
  rw [hparse, if_pos (by decide), mergeFrom_defaultInstance]
  decide

/-! ### What is accepted -/

theorem storable_round {m' : RpcMetaMessage} {rest : Bytes} (hrt : rt.Lawful)
    (hround : round rt (generated rt) m bytes = some (m', rest))
    (h : m.Storable rt ∧ m.ValidNames rt) : m'.Storable rt ∧ m'.ValidNames rt := by
  obtain ⟨hm, hserver, hmethod⟩ := h
  obtain ⟨tag, value, htag, hfield | ⟨hfield, hends, unknown, hunknown, rfl⟩⟩ :=
    round_eq_some hround
  · by_cases hother : tag ≠ 9 ∧ tag ≠ 18 ∧ tag ≠ 26 ∧ tag ≠ 32
    · have hunusual : (generated rt).field tag m value = .unusual :=
        field_of_other hother m value
      rw [hunusual] at hfield
      cases hfield
    · obtain rfl | rfl | rfl | rfl : tag = 9 ∨ tag = 18 ∨ tag = 26 ∨ tag = 32 := by omega
      · rw [field_id] at hfield
        obtain ⟨rfl, -, -⟩ := fixed64Field_eq_parsed hfield
        exact ⟨⟨hm.server_le, hm.method_le, hm.unknown⟩, hserver, hmethod⟩
      · rw [field_server] at hfield
        obtain ⟨str, hread, hutf8, rfl⟩ := stringField_eq_parsed hfield
        exact ⟨⟨hrt.string_le hread, hm.method_le, hm.unknown⟩, fun _ => hutf8, hmethod⟩
      · rw [field_method] at hfield
        obtain ⟨str, hread, hutf8, rfl⟩ := stringField_eq_parsed hfield
        exact ⟨⟨hm.server_le, hrt.string_le hread, hm.unknown⟩, hserver, fun _ => hutf8⟩
      · rw [field_dataSize] at hfield
        obtain ⟨n, -, rfl⟩ := varintField_eq_parsed hfield
        exact ⟨⟨hm.server_le, hm.method_le, hm.unknown⟩, hserver, hmethod⟩
  · refine ⟨⟨hm.server_le, hm.method_le, ?_⟩, hserver, hmethod⟩
    intro u hu
    obtain hu | hu := List.mem_append.mp hu
    · exact hm.unknown u hu
    · rw [List.mem_singleton.mp hu]
      exact kept_of_unusual hrt (lawful_generated hrt) htag hfield hends hunknown

/-- Whatever bytes a message was read from, it is read again from those that it writes, and reading
those into another message merges it. -/
theorem reparse (hrt : rt.Lawful) (h : parse rt (generated rt) defaultInstance bytes = some m) :
    m.Storable rt ∧ m.ValidNames rt ∧
      parse rt (generated rt) defaultInstance (internalSerialize rt m) = some m ∧
      ∀ m₀, parse rt (generated rt) m₀ (internalSerialize rt m) = some (m₀.mergeFrom m) := by
  have hgen := lawful_generated hrt
  have hparses := (parse_eq_some_iff hrt hgen).mp h
  obtain ⟨hm, hnames⟩ := hparses.invariant (fun hround => storable_round hrt hround)
    ⟨storable_defaultInstance, fun hne => absurd rfl hne, fun hne => absurd rfl hne⟩
  have hmerge : ∀ m₀, parse rt (generated rt) m₀ (internalSerialize rt m)
      = some (m₀.mergeFrom m) := fun m₀ =>
    (parse_eq_some_iff hrt hgen).mpr (parses_internalSerialize hrt hm hnames)
  refine ⟨hm, hnames, ?_, hmerge⟩
  rw [hmerge, mergeFrom_defaultInstance]

/-- The fields come in another order, one of them twice, with a varint that is longer than it has to
be and a field of another type. -/
theorem reparse_outOfOrder : ∃ m : RpcMetaMessage,
    parse PbRuntime.runtime (generated PbRuntime.runtime) defaultInstance
        [32, 133, 0, 8, 129, 0, 26, 1, 65, 26, 1, 66] = some m ∧
      internalSerialize PbRuntime.runtime m = [26, 1, 66, 32, 5, 8, 1] ∧
      parse PbRuntime.runtime (generated PbRuntime.runtime) defaultInstance
        (internalSerialize PbRuntime.runtime m) = some m := by
  have hparse : parse PbRuntime.runtime (generated PbRuntime.runtime) defaultInstance
      [32, 133, 0, 8, 129, 0, 26, 1, 65, 26, 1, 66] = some {
        id := 0
        server := []
        method := [66]
        dataSize := 5
        unknownFields := [{ tag := 8, value := [1] }] } := by
    decide +kernel
  obtain ⟨-, -, hagain, -⟩ := reparse PbRuntime.lawful_runtime hparse
  exact ⟨_, hparse, by decide +kernel, hagain⟩

/-! ### The codec of the frames -/

/-- The metas of the frames have no unknown fields. -/
def ofMeta (m : RpcMeta) : RpcMetaMessage where
  toRpcMeta := m
  unknownFields := []

/-- `SerializeToString`, and `ParseFromString` of a new object, which is used whatever it
returns. -/
def codec (rt : Runtime) (left : RpcMetaMessage → Bytes → RpcMetaMessage) : MetaCodec where
  serialize := fun m => internalSerialize rt (ofMeta m)
  parse := fun bytes => (parseInto rt (generated rt) left defaultInstance bytes).toRpcMeta

theorem parse_codec (hrt : rt.Lawful) (left : RpcMetaMessage → Bytes → RpcMetaMessage) {m : RpcMeta}
    (hm : (ofMeta m).Storable rt) (hnames : (ofMeta m).ValidNames rt) :
    (codec rt left).parse ((codec rt left).serialize m) = m := by
  have hparses : Parses rt (generated rt) defaultInstance _ _ :=
    parses_internalSerialize hrt hm hnames
  rw [mergeFrom_defaultInstance] at hparses
  have hparse := (parse_eq_some_iff hrt (lawful_generated hrt)).mpr hparses
  simp only [codec, parseInto_of_parse left hparse]
  rfl

/-- The codec of the examples. -/
def pbCodec : MetaCodec := codec PbRuntime.runtime fun m _ => m

end RpcMetaMessage

end ToyBasket
