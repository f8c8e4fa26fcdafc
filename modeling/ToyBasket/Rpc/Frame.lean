import ToyBasket.Buffer.Spec
import ToyBasket.Lib.Drain

/-!
# Frames

Both directions of the protocol use one frame: the size of the meta in network byte order, the
serialized `RpcMeta`, and the message whose size the meta carries. The two sides build and take
apart frames with the same lines of code, which stand here once.
-/

namespace ToyBasket

open Words Outcome Drain

/-- `rpc_meta.proto`. -/
structure RpcMeta where
  id : UInt64
  server : Bytes
  method : Bytes
  dataSize : Int32
deriving DecidableEq, Repr

/-- `SerializeToString` and `ParseFromString` of `RpcMeta`. The value `parse` gives is the one the
object has afterwards, parsed or not. -/
structure MetaCodec where
  serialize : RpcMeta → Bytes
  parse : Bytes → RpcMeta

def builtMeta (id : UInt64) (server method payload : Bytes) : RpcMeta where
  id := id
  server := server
  method := method
  dataSize := Int32.ofNat payload.length

/-- The lines by which `CallMethod` and `OnCallbackDone` build a frame. -/
def buildFrame (c : MetaCodec) (id : UInt64) (server method payload : Bytes) : Bytes :=
  let rpcMetaStr := c.serialize (builtMeta id server method payload)
  bigEndian 4 rpcMetaStr.length ++ rpcMetaStr ++ payload

/-- A frame in front of the buffer: its meta, where its payload begins after `peek()`, and its
length. -/
structure Frame where
  metaProto : RpcMeta
  offset : Nat
  length : Nat
deriving DecidableEq, Repr

namespace Buffer

/-- The tests both `onMessage` make before they handle a frame: nothing when one of them breaks off
the loop. -/
def nextFrame (c : MetaCodec) (buff : Buffer) : Except Fault (Option Frame) := do
  if 4 < buff.readableBytes then
    let len ← buff.peekInt32
    if sizeAdd (toSize len) 4 < buff.readableBytes then
      let metaData ← buff.substr 4 (toSize len)
      let metaProto := c.parse metaData
      let length := toInt32 (4 + len + metaProto.dataSize.toInt)
      if toSize length ≤ buff.readableBytes then
        return some
          { metaProto := metaProto, offset := sizeAdd (toSize len) 4, length := toSize length }
  return none

/-- `std::string(buff->peek() + len + sizeof(int32_t), meta_proto.data_size())`. -/
def payload (buff : Buffer) (frame : Frame) : Except Fault Bytes :=
  buff.substr frame.offset (toSize frame.metaProto.dataSize.toInt)

end Buffer

variable {σ ω : Type}

/-- One round of the loop of `onMessage`, whose two versions differ in how they handle a frame. -/
def frameRound (c : MetaCodec) (handle : σ → Buffer → Frame → Except Fault (ω × σ)) :
    Body Fault ω (σ × Buffer) := fun (s, buff) => do
  match ← buff.nextFrame c with
  | none => return none
  | some frame =>
      let (out, s) ← handle s buff frame
      let buff ← buff.retrieve frame.length
      return some (out, s, buff)

theorem frameRound_eq_some {c : MetaCodec} {handle : σ → Buffer → Frame → Except Fault (ω × σ)}
    {s s' : σ} {buff buff' : Buffer} {out : ω}
    (h : frameRound c handle (s, buff) = .ok (some (out, s', buff'))) :
    ∃ frame, buff.nextFrame c = .ok (some frame) ∧ handle s buff frame = .ok (out, s') ∧
      buff.retrieve frame.length = .ok buff' := by
  obtain ⟨next, hnext, hframe⟩ := bind_eq_ok.mp h
  cases next with
  | none => cases hframe
  | some frame =>
      obtain ⟨result, hhandle, hrest⟩ := bind_eq_ok.mp hframe
      obtain ⟨after, hretrieve, hafter⟩ := bind_eq_ok.mp hrest
      cases hafter
      exact ⟨frame, hnext, hhandle, hretrieve⟩

/-! ### The same on the readable bytes -/

def metaLength (bytes : Bytes) : Int := toInt32 (ofBigEndian (bytes.take 4))

/-- The meta after it. -/
def metaOf (c : MetaCodec) (bytes : Bytes) : RpcMeta :=
  c.parse ((bytes.drop 4).take (metaLength bytes).toNat)

/-- What the tests come to. Of the negative prefixes those from -4 on pass the second test, since
`len + sizeof(int32_t)` is small again, and the string they make is refused. -/
def readFrame (c : MetaCodec) (bytes : Bytes) : Except Fault (Option Frame) :=
  let len := metaLength bytes
  if bytes.length ≤ 4 ∨ len < -4 ∨ (bytes.length : Int) ≤ len + 4 then .ok none
  else if len < 0 then .error .lengthError
  else
    let metaProto := metaOf c bytes
    let length := toInt32 (4 + len + metaProto.dataSize.toInt)
    if length < 0 ∨ (bytes.length : Int) < length then .ok none
    else .ok (some { metaProto := metaProto, offset := len.toNat + 4, length := length.toNat })

def readPayload (bytes : Bytes) (frame : Frame) : Except Fault Bytes :=
  let size := frame.metaProto.dataSize.toInt
  if size < 0 then .error .lengthError
  else if frame.offset + size.toNat ≤ bytes.length then
    .ok ((bytes.drop frame.offset).take size.toNat)
  else .error .outOfRange

namespace Buffer

variable {c : MetaCodec} {buff : Buffer}

theorem peekInt32_eq (h : buff.WellFormed) (hlen : 4 < buff.readable.length) :
    buff.peekInt32 = .ok (metaLength buff.readable) := by
  rw [h.length_readable] at hlen
  rw [peekInt32, assert_bind (by omega)]
  rfl

theorem substr_of_neg {offset : Nat} {len : Int} (h0 : len < 0) (h : -(2 ^ 31) ≤ len) :
    buff.substr offset (toSize len) = .error .lengthError := by
  have hhuge := toSize_of_neg h0 (by omega)
  rw [substr, if_pos (by simp only [maxSize]; omega)]

theorem nextFrame_eq (h : buff.WellFormed) : buff.nextFrame c = readFrame c buff.readable := by
  have hlength := h.length_readable
  have hlt := h.readableBytes_lt
  obtain ⟨hlow, hhigh⟩ := toInt32_bounds (ofBigEndian (buff.readable.take 4))
  change -(2 ^ 31) ≤ metaLength buff.readable at hlow
  change metaLength buff.readable < 2 ^ 31 at hhigh
  unfold nextFrame readFrame
  by_cases hshort : buff.readable.length ≤ 4
  · rw [if_neg (by omega), if_pos (.inl hshort)]
    rfl
  rw [if_pos (by omega), peekInt32_eq h (by omega), ok_bind]
  simp only [metaOf]
  obtain ⟨len, hlen⟩ : ∃ len, metaLength buff.readable = len := ⟨_, rfl⟩
  rw [hlen] at hlow hhigh
  simp only [hlen]
  by_cases hneg : len < 0
  · by_cases hfar : len < -4
    · rw [if_neg, if_pos (.inr (.inl hfar))]
      · rfl
      · simp only [sizeAdd, toSize]
        omega
    · rw [if_pos, substr_of_neg hneg hlow, if_neg (by omega), if_pos hneg]
      · rfl
      · simp only [sizeAdd, toSize]
        omega
  have hsize : toSize len = len.toNat := toSize_of_nonneg (by omega) (by omega)
  have hoffset : sizeAdd (toSize len) 4 = len.toNat + 4 := by
    rw [hsize]
    exact sizeAdd_of_lt (by omega)
  rw [hoffset, hsize]
  by_cases hwait : (buff.readable.length : Int) ≤ len + 4
  · rw [if_neg (by omega), if_pos (.inr (.inr hwait))]
    rfl
  have hready : ¬ (buff.readable.length ≤ 4 ∨ len < -4 ∨
      (buff.readable.length : Int) ≤ len + 4) := by
    omega
  rw [if_pos (by omega), substr_of_le h (by omega), ok_bind, if_neg hready, if_neg hneg]
  obtain ⟨hlow', hhigh'⟩ := toInt32_bounds
    (4 + len + (c.parse ((buff.readable.drop 4).take len.toNat)).dataSize.toInt)
  obtain ⟨length, htotal⟩ : ∃ length, toInt32
    (4 + len + (c.parse ((buff.readable.drop 4).take len.toNat)).dataSize.toInt) = length :=
      ⟨_, rfl⟩
  rw [htotal] at hlow' hhigh'
  simp only [htotal]
  by_cases hlength' : length < 0
  · have hhuge := toSize_of_neg hlength' (by omega)
    rw [if_neg (by omega), if_pos (.inl hlength')]
    rfl
  have htoSize : toSize length = length.toNat := toSize_of_nonneg (by omega) (by omega)
  rw [htoSize]
  by_cases hfits : (buff.readable.length : Int) < length
  · rw [if_neg (by omega), if_pos (.inr hfits)]
    rfl
  · rw [if_pos (by omega), if_neg (not_or.mpr ⟨hlength', hfits⟩)]
    rfl

theorem payload_eq {frame : Frame} (h : buff.WellFormed) :
    buff.payload frame = readPayload buff.readable frame := by
  have hlow := frame.metaProto.dataSize.le_toInt
  have hhigh := frame.metaProto.dataSize.toInt_lt
  unfold payload readPayload
  by_cases hneg : frame.metaProto.dataSize.toInt < 0
  · rw [substr_of_neg hneg hlow]
    simp only [if_pos hneg]
  have hsize : toSize frame.metaProto.dataSize.toInt = frame.metaProto.dataSize.toInt.toNat :=
    toSize_of_nonneg (by omega) (by omega)
  simp only [if_neg hneg]
  rw [hsize, h.length_readable]
  split
  · rename_i hfits
    exact substr_of_le h hfits
  · rename_i hfits
    rw [substr, if_neg (by simp only [maxSize]; omega), if_neg hfits]

end Buffer

def bytesRound (c : MetaCodec) (handle : σ → Bytes → Frame → Except Fault (ω × σ)) :
    Body Fault ω (σ × Bytes) := fun (s, bytes) => do
  match ← readFrame c bytes with
  | none => return none
  | some frame =>
      let (out, s) ← handle s bytes frame
      return some (out, s, bytes.drop frame.length)

/-! ### More bytes behind a frame -/

section Stable

variable {c : MetaCodec} {bytes : Bytes} {frame : Frame}

theorem metaLength_append (h : 4 ≤ bytes.length) (more : Bytes) :
    metaLength (bytes ++ more) = metaLength bytes := by
  rw [metaLength, List.take_append_of_le_length h]
  rfl

theorem metaOf_append (h : 4 ≤ bytes.length)
    (hlen : (metaLength bytes).toNat + 4 ≤ bytes.length) (more : Bytes) :
    metaOf c (bytes ++ more) = metaOf c bytes := by
  rw [metaOf, metaLength_append h, List.drop_append_of_le_length h, List.take_append_of_le_length]
  · rfl
  · rw [List.length_drop]
    omega

theorem readFrame_eq_some (h : readFrame c bytes = .ok (some frame)) :
    4 < bytes.length ∧ 0 ≤ metaLength bytes ∧ metaLength bytes + 4 < bytes.length ∧
      0 ≤ toInt32 (4 + metaLength bytes + (metaOf c bytes).dataSize.toInt) ∧
      toInt32 (4 + metaLength bytes + (metaOf c bytes).dataSize.toInt) ≤ bytes.length ∧
      frame =
        { metaProto := metaOf c bytes
          offset := (metaLength bytes).toNat + 4
          length := (toInt32 (4 + metaLength bytes + (metaOf c bytes).dataSize.toInt)).toNat } := by
  unfold readFrame at h
  simp only at h
  split at h
  · cases h
  · rename_i hready
    split at h
    · cases h
    · rename_i hneg
      split at h
      · cases h
      · rename_i hfits
        cases h
        exact ⟨by omega, by omega, by omega, by omega, by omega, rfl⟩

theorem length_le_of_readFrame (h : readFrame c bytes = .ok (some frame)) :
    frame.length ≤ bytes.length := by
  obtain ⟨-, -, -, hnonneg, hfits, rfl⟩ := readFrame_eq_some h
  simp only
  omega

theorem readFrame_append (h : readFrame c bytes = .ok (some frame)) (more : Bytes) :
    readFrame c (bytes ++ more) = .ok (some frame) := by
  obtain ⟨hlen, hnonneg, hready, hlength, hfits, rfl⟩ := readFrame_eq_some h
  have hmeta : metaOf c (bytes ++ more) = metaOf c bytes := metaOf_append (by omega) (by omega) more
  simp only [readFrame, metaLength_append (Nat.le_of_lt hlen), hmeta, List.length_append]
  rw [if_neg (by omega), if_neg (by omega), if_neg (by omega)]

theorem readPayload_append {data : Bytes} (h : readPayload bytes frame = .ok data)
    (more : Bytes) : readPayload (bytes ++ more) frame = .ok data := by
  unfold readPayload at h ⊢
  simp only at h ⊢
  split at h
  · cases h
  · rename_i hneg
    split at h
    · rename_i hfits
      cases h
      rw [if_neg hneg, if_pos (by rw [List.length_append]; omega),
        List.drop_append_of_le_length (by omega), List.take_append_of_le_length]
      rw [List.length_drop]
      omega
    · cases h

section Round

variable {handle : σ → Bytes → Frame → Except Fault (ω × σ)} {s s' : σ} {out : ω} {rest : Bytes}

theorem bytesRound_eq_none (h : readFrame c bytes = .ok none) :
    bytesRound c handle (s, bytes) = .ok none := by
  simp only [bytesRound, h, ok_bind]
  rfl

theorem bytesRound_eq_some (hframe : readFrame c bytes = .ok (some frame))
    (hhandle : handle s bytes frame = .ok (out, s')) :
    bytesRound c handle (s, bytes) = .ok (some (out, s', bytes.drop frame.length)) := by
  simp only [bytesRound, hframe, ok_bind, hhandle]
  rfl

theorem readFrame_of_bytesRound (h : bytesRound c handle (s, bytes) = .ok (some (out, s', rest))) :
    ∃ frame, readFrame c bytes = .ok (some frame) ∧ handle s bytes frame = .ok (out, s') ∧
      rest = bytes.drop frame.length := by
  obtain ⟨next, hframe, hrest⟩ := bind_eq_ok.mp h
  cases next with
  | none => cases hrest
  | some frame =>
      obtain ⟨result, hhandle, hafter⟩ := bind_eq_ok.mp hrest
      cases hafter
      exact ⟨frame, hframe, hhandle, rfl⟩

theorem bytesRound_stable (hhandle : ∀ s bytes frame result more,
      handle s bytes frame = .ok result → handle s (bytes ++ more) frame = .ok result) :
    Stable (fun (p : σ × Bytes) more => (p.1, p.2 ++ more)) (bytesRound c handle) := by
  rintro ⟨s, bytes⟩ out ⟨s', rest⟩ more h
  obtain ⟨frame, hframe, hresult, rfl⟩ := readFrame_of_bytesRound h
  have hle := length_le_of_readFrame hframe
  simp only
  rw [bytesRound_eq_some (readFrame_append hframe more) (hhandle _ _ _ _ more hresult),
    List.drop_append_of_le_length hle]

theorem frameRound_views {handle : σ → Buffer → Frame → Except Fault (ω × σ)}
    {handle' : σ → Bytes → Frame → Except Fault (ω × σ)}
    (hhandle : ∀ s buff frame, buff.WellFormed →
      handle s buff frame = handle' s buff.readable frame) :
    Views (Prod.map id Buffer.readable) (fun p => p.2.WellFormed) (frameRound c handle)
      (bytesRound c handle') := by
  have hround : ∀ (s : σ) (buff : Buffer), buff.WellFormed →
      Holds (frameRound c handle (s, buff))
        (fun next => bytesRound c handle' (s, buff.readable)
            = .ok (next.map (Prod.map id (Prod.map id Buffer.readable))) ∧
          ∀ out p, next = some (out, p) → p.2.WellFormed)
        (fun fault => bytesRound c handle' (s, buff.readable) = .error fault) := by
    intro s buff hbuff
    simp only [frameRound, bytesRound, Buffer.nextFrame_eq hbuff]
    cases hframe : readFrame c buff.readable with
    | error fault => exact rfl
    | ok next =>
        cases next with
        | none => exact ⟨rfl, by simp⟩
        | some frame =>
            simp only [ok_bind, hhandle s buff frame hbuff]
            cases hresult : handle' s buff.readable frame with
            | error fault => exact rfl
            | ok result =>
                have hle := length_le_of_readFrame hframe
                rw [hbuff.length_readable] at hle
                obtain ⟨after, hretrieve, hafter, -⟩ := (Buffer.retrieve_holds hbuff hle).returns
                rw [ok_bind, hretrieve, ok_bind]
                refine ⟨?_, ?_⟩
                · simp [hafter.readable_eq]
                · rintro out p hp
                  cases hp
                  exact hafter.wellFormed
  refine ⟨?_, ?_⟩
  · rintro ⟨s, buff⟩ hbuff
    have h := hround s buff hbuff
    cases hnext : frameRound c handle (s, buff) with
    | error fault => exact (h.of_error hnext).symm
    | ok next => exact (h.of_ok hnext).1.symm
  · rintro ⟨s, buff⟩ out p hbuff hnext
    exact ((hround s buff hbuff).of_ok hnext).2 out p rfl

end Round

end Stable

/-! ### Frames that were built -/

section Built

variable {c : MetaCodec} {id : UInt64} {server method payload : Bytes}

theorem length_buildFrame (c : MetaCodec) (id : UInt64) (server method payload : Bytes) :
    (buildFrame c id server method payload).length
      = 4 + (c.serialize (builtMeta id server method payload)).length + payload.length := by
  simp [buildFrame, Nat.add_assoc]

theorem metaLength_buildFrame (rest : Bytes)
    (hsize : (buildFrame c id server method payload).length < 2 ^ 31) :
    metaLength (buildFrame c id server method payload ++ rest)
      = (c.serialize (builtMeta id server method payload)).length := by
  rw [length_buildFrame] at hsize
  have htake : (buildFrame c id server method payload ++ rest).take 4
      = bigEndian 4 (c.serialize (builtMeta id server method payload)).length := by
    rw [buildFrame, List.append_assoc, List.append_assoc]
    exact List.take_left' (length_bigEndian _ _)
  rw [metaLength, htake, ofBigEndian_bigEndian_of_lt (by omega)]
  exact toInt32_of_bounds (by omega) (by omega)

theorem metaOf_buildFrame (rest : Bytes)
    (hsize : (buildFrame c id server method payload).length < 2 ^ 31)
    (hcodec : c.parse (c.serialize (builtMeta id server method payload))
      = builtMeta id server method payload) :
    metaOf c (buildFrame c id server method payload ++ rest)
      = builtMeta id server method payload := by
  rw [metaOf, metaLength_buildFrame rest hsize, Int.toNat_natCast, buildFrame, List.append_assoc,
    List.append_assoc, List.drop_left' (length_bigEndian _ _), List.take_left' rfl, hcodec]

/-- A built frame is not recognized while nothing follows its meta. -/
theorem readFrame_buildFrame (rest : Bytes)
    (hsize : (buildFrame c id server method payload).length < 2 ^ 31)
    (hcodec : c.parse (c.serialize (builtMeta id server method payload))
      = builtMeta id server method payload) :
    readFrame c (buildFrame c id server method payload ++ rest) =
      if payload ++ rest = [] then .ok none
      else .ok (some
        { metaProto := builtMeta id server method payload
          offset := (c.serialize (builtMeta id server method payload)).length + 4
          length := (buildFrame c id server method payload).length }) := by
  have hlength := length_buildFrame c id server method payload
  have hdata : (builtMeta id server method payload).dataSize.toInt = payload.length :=
    Int32.toInt_ofNat_of_lt (by omega)
  have htotal : toInt32 (4 + ((c.serialize (builtMeta id server method payload)).length : Int)
      + payload.length) = (buildFrame c id server method payload).length := by
    rw [hlength, toInt32_of_bounds (by omega) (by omega)]
    omega
  simp only [readFrame, metaLength_buildFrame rest hsize, metaOf_buildFrame rest hsize hcodec,
    hdata,
    htotal, List.length_append]
  by_cases hempty : payload ++ rest = []
  · have hnil := congrArg List.length hempty
    rw [List.length_append, List.length_nil] at hnil
    rw [if_pos hempty, if_pos (by omega)]
  · have hpos := List.length_pos_iff.mpr hempty
    rw [List.length_append] at hpos
    rw [if_neg hempty, if_neg (by omega), if_neg (by omega), if_neg (by omega), Int.toNat_natCast,
      Int.toNat_natCast]

theorem readPayload_buildFrame (rest : Bytes) (length : Nat)
    (hsize : (buildFrame c id server method payload).length < 2 ^ 31) :
    readPayload (buildFrame c id server method payload ++ rest)
      { metaProto := builtMeta id server method payload
        offset := (c.serialize (builtMeta id server method payload)).length + 4
        length := length } = .ok payload := by
  have hlength := length_buildFrame c id server method payload
  have hdata : (builtMeta id server method payload).dataSize.toInt = payload.length :=
    Int32.toInt_ofNat_of_lt (by omega)
  simp only [readPayload, hdata, Int.toNat_natCast]
  rw [if_neg (by omega), if_pos (by rw [List.length_append]; omega)]
  have hdrop : (buildFrame c id server method payload ++ rest).drop
      ((c.serialize (builtMeta id server method payload)).length + 4) = payload ++ rest := by
    rw [buildFrame, List.append_assoc]
    apply List.drop_left'
    rw [List.length_append, length_bigEndian, Nat.add_comm]
  rw [hdrop, List.take_left' rfl]

end Built

end ToyBasket
