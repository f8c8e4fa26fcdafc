import Mathlib.Data.List.TakeDrop
import ToyBasket.Buffer.Refinement
import ToyBasket.Lib.Machine
import ToyBasket.StringPiece

/-!
# The sizes a buffer grows to

`makeSpace`, `ensureWritableBytes` and `shrink` of `communication/Buffer.h` for any 64-bit argument,
as methods that change the object step by step, so that one can say what a throw leaves behind.
-/

namespace ToyBasket

open Words Outcome Machine

namespace Buffer

/-- A throw leaves the object as it is then. -/
abbrev Method : Type → Type := EStateM Fault Buffer

namespace Method

/-- What does not touch the object. -/
def lift {α : Type} (run : Except Fault α) : Method α := fun b =>
  match run with
  | .ok value => .ok value b
  | .error fault => .error fault b

def makeSpace (len : Nat) : Method Unit := do
  let b ← get
  if sizeAdd b.writableBytes b.prependableBytes < sizeAdd len kCheapPrepend then
    let grown ← lift (resize b.buffer (sizeAdd b.writerIndex len))
    set { b with buffer := grown }
  else
    lift (assert (kCheapPrepend < b.readerIndex))
    let moved : Buffer :=
      { buffer := copyTo b.buffer kCheapPrepend b.readable
        readerIndex := kCheapPrepend
        writerIndex := sizeAdd kCheapPrepend b.readableBytes }
    set moved
    lift (assert (b.readableBytes = moved.readableBytes))

def ensureWritableBytes (len : Nat) : Method Unit := do
  let b ← get
  if b.writableBytes < len then makeSpace len
  let b ← get
  lift (assert (len ≤ b.writableBytes))

end Method

def toStringPiece (b : Buffer) : StringPiece where
  ptr := b.buffer.drop b.readerIndex
  length := toInt32 b.readableBytes

/-- `append(const StringPiece&)`, whose length becomes a `size_t`. -/
def appendPiece (b : Buffer) (str : StringPiece) : Except Fault Buffer := do
  let len := toSize str.size
  let b ← b.ensureWritableBytes len
  if len ≤ str.data.length then (b.write (str.data.take len)).hasWritten len
  else .error .outOfRange

/-- The buffer `other` of `shrink`. -/
def shrunk (b : Buffer) (reserve : Nat) : Except Fault Buffer := do
  let other ← new kInitialSize
  let other ← other.ensureWritableBytes (sizeAdd b.readableBytes reserve)
  other.appendPiece b.toStringPiece

def Method.shrink (reserve : Nat) : Method Unit := do
  let b ← get
  let other ← lift (b.shrunk reserve)
  set other

/-! ### The methods and their results -/

/-- The method does to the object what the function does to the value, and leaves it alone when the
vector refuses. -/
structure Method.Does (method : Method Unit) (run : Except Fault Buffer) (b : Buffer) : Prop where
  returns : ∀ after, run = .ok after → method b = .ok () after
  stops : ∀ fault, run = .error fault →
    ∃ left, method b = .error fault left ∧ (fault = .lengthError → left = b)

namespace Method

section Rules

variable {α : Type} {b after : Buffer} {run : Except Fault Buffer} {value : Except Fault α}

theorem Does.get_bind {next : Buffer → Method Unit} (h : Does (next b) run b) :
    Does (get >>= next) run b :=
  ⟨h.returns, h.stops⟩

theorem Does.lift_bind {next : α → Method Unit} {next' : α → Except Fault Buffer}
    (h : ∀ v, Does (next v) (next' v) b) : Does (lift value >>= next) (value >>= next') b := by
  cases value with
  | ok v => exact ⟨(h v).returns, (h v).stops⟩
  | error fault =>
      refine ⟨fun after hafter => (by cases hafter), ?_⟩
      rintro fault' ⟨⟩
      exact ⟨b, rfl, fun _ => rfl⟩

theorem does_set : Does (set after) (pure after) b := by
  refine ⟨?_, fun fault hfault => (by cases hfault)⟩
  rintro _ ⟨⟩
  rfl

/-- The object may be changed when an assert stops the method. -/
theorem Does.bind_assert {first : Method Unit} {c : Buffer → Prop} [DecidablePred c]
    (h : Does first run b) :
    Does (first >>= fun _ => get >>= fun b => lift (assert (c b)))
      (run >>= fun b => assert (c b) >>= fun _ => pure b) b := by
  have hbind : ∀ {next : Unit → Method Unit}, (first >>= next) b = match first b with
      | .ok value left => next value left
      | .error fault left => .error fault left := by
    intro next
    change EStateM.bind first next b = _
    unfold EStateM.bind
    cases first b with
    | ok value left => rfl
    | error fault left => rfl
  cases run with
  | error fault =>
      obtain ⟨left, hleft, hkept⟩ := h.stops fault rfl
      refine ⟨fun after hafter => (by cases hafter), ?_⟩
      rintro fault' ⟨⟩
      refine ⟨left, ?_, hkept⟩
      rw [hbind, hleft]
  | ok middle =>
      have hmiddle := h.returns middle rfl
      by_cases hc : c middle
      · rw [ok_bind, assert_bind hc]
        refine ⟨?_, fun fault hfault => (by cases hfault)⟩
        rintro _ ⟨⟩
        rw [hbind, hmiddle]
        change lift (assert (c middle)) middle = _
        rw [assert, check_of_true hc]
        rfl
      · have hstop : assert (c middle) = .error .assertion := check_of_false hc
        rw [ok_bind, hstop]
        refine ⟨fun after hafter => (by cases hafter), ?_⟩
        rintro _ ⟨⟩
        refine ⟨middle, ?_, fun hfault => (by cases hfault)⟩
        rw [hbind, hmiddle]
        change lift (assert (c middle)) middle = _
        rw [hstop]
        rfl

end Rules

theorem does_makeSpace (b : Buffer) (len : Nat) : Does (makeSpace len) (b.makeSpace len) b := by
  apply Does.get_bind
  unfold Buffer.makeSpace
  split
  · exact Does.lift_bind fun grown => does_set
  · apply Does.lift_bind
    intro _
    exact does_set.bind_assert

theorem does_ensureWritableBytes (b : Buffer) (len : Nat) :
    Does (ensureWritableBytes len) (b.ensureWritableBytes len) b := by
  apply Does.get_bind
  unfold Buffer.ensureWritableBytes
  split
  · exact (does_makeSpace b len).bind_assert
  · have hset : Does (set b) (pure b) b := does_set
    have hkept : Does (pure ()) (pure b) b := ⟨hset.returns, hset.stops⟩
    exact hkept.bind_assert

theorem does_shrink (b : Buffer) (reserve : Nat) :
    Does (shrink reserve) (b.shrunk reserve) b := by
  have hlift : Does (lift (b.shrunk reserve) >>= fun other => set other)
      (b.shrunk reserve >>= pure) b := Does.lift_bind fun other => does_set
  rw [bind_pure] at hlift
  exact hlift.get_bind

end Method

/-! ### Room for what was asked -/

structure HasRoom (b after : Buffer) (room : Nat) : Prop where
  readable_eq : after.readable = b.readable
  reader_le : after.readerIndex ≤ after.writerIndex
  writer_le : after.writerIndex ≤ after.buffer.length
  room_le : room ≤ after.writableBytes

/-- A method that is asked for room makes it, or leaves everything as it is because the vector
refuses the size that takes. -/
def Grown (b : Buffer) (room size : Nat) : EStateM.Result Fault Buffer Unit → Prop
  | .ok _ after => HasRoom b after room
  | .error fault left => fault = .lengthError ∧ maxSize < size ∧ left.readable = b.readable ∧
      left.readerIndex = b.readerIndex ∧ left.writerIndex = b.writerIndex

section Room

variable {b : Buffer} {len reserve : Nat}

theorem Method.Does.grown_iff {method : Method Unit} {run : Except Fault Buffer}
    (h : Does method run b) (room size : Nat) : Grown b room size (method b) ↔
      Holds run (fun after => HasRoom b after room)
        (fun fault => fault = .lengthError ∧ maxSize < size) := by
  cases run with
  | ok after =>
      rw [h.returns after rfl]
      exact Iff.rfl
  | error fault =>
      obtain ⟨left, hleft, hkept⟩ := h.stops fault rfl
      rw [hleft, holds_error]
      constructor
      · rintro ⟨hfault, hmax, -⟩
        exact ⟨hfault, hmax⟩
      · rintro ⟨hfault, hmax⟩
        rw [hkept hfault]
        exact ⟨hfault, hmax, rfl, rfl, rfl⟩

theorem length_resize {bytes grown : Bytes} {n : Nat} (h : resize bytes n = .ok grown) :
    grown.length = n := by
  unfold resize at h
  split at h
  · cases h
    rw [List.length_append, List.length_take, List.length_replicate]
    omega
  · cases h

/-- What `makeSpace` does when one of its sums wraps: the vector is cut off before the writer, or
nothing is gained. -/
theorem makeSpace_of_wrap (h : b.WellFormed) (hsmall : b.writableBytes < len) (hlen : len < 2 ^ 64)
    (hwrap : ¬ (len + kCheapPrepend < 2 ^ 64 ∧ b.writerIndex + len < 2 ^ 64)) :
    Holds (b.makeSpace len)
      (fun after => after.buffer.length < after.writerIndex ∨ after.writableBytes < len)
      (fun fault => fault = .assertion) := by
  have hreader := h.reader_le
  have hwriter := h.writer_le
  have hcheap := h.cheap_le
  have hsize := h.size_le
  simp only [maxSize, kCheapPrepend] at hsize hcheap hwrap
  have hspace : sizeAdd b.writableBytes b.prependableBytes
      = b.buffer.length - b.writerIndex + b.readerIndex := by
    rw [h.writableBytes_eq]
    exact sizeAdd_of_lt (by unfold prependableBytes; omega)
  rw [h.writableBytes_eq] at hsmall
  rw [makeSpace, hspace]
  split
  · rename_i hgrow
    have hshort : sizeAdd b.writerIndex len < b.writerIndex := by
      simp only [sizeAdd, kCheapPrepend] at hgrow ⊢
      omega
    cases hresize : resize b.buffer (sizeAdd b.writerIndex len) with
    | ok grown =>
        left
        change grown.length < b.writerIndex
        rwa [length_resize hresize]
    | error fault =>
        unfold resize at hresize
        rw [if_pos (by simp only [maxSize]; omega)] at hresize
        cases hresize
  · rename_i hroom
    by_cases hgap : kCheapPrepend < b.readerIndex
    · rw [move_eq_compacted h hgap]
      right
      rw [writableBytes_compacted h hgap]
      simp only [sizeAdd, kCheapPrepend] at hroom ⊢
      omega
    · have hstop : assert (kCheapPrepend < b.readerIndex) = .error .assertion := check_of_false hgap
      rw [hstop]
      exact rfl

theorem ensureWritableBytes_hasRoom_iff (h : b.WellFormed) (hlen : len < 2 ^ 64) :
    Holds (b.ensureWritableBytes len) (fun after => HasRoom b after len)
      (fun fault => fault = .lengthError ∧ maxSize < b.writerIndex + len) ↔
        len + kCheapPrepend < 2 ^ 64 ∧ b.writerIndex + len < 2 ^ 64 := by
  constructor
  · intro hroom
    by_contra hwrap
    have hwriter := h.writer_le
    have hsize := h.size_le
    simp only [maxSize] at hsize
    have hsmall : b.writableBytes < len := by
      rw [h.writableBytes_eq]
      simp only [kCheapPrepend] at hwrap
      omega
    have hspace := makeSpace_of_wrap h hsmall hlen hwrap
    rw [ensureWritableBytes, if_pos hsmall] at hroom
    cases hmake : b.makeSpace len with
    | error fault =>
        have hfault := hspace.of_error hmake
        rw [hmake] at hroom
        have hfault' := hroom.1
        rw [hfault] at hfault'
        cases hfault'
    | ok after =>
        rw [hmake, ok_bind] at hroom
        beta_reduce at hroom
        by_cases hassert : len ≤ after.writableBytes
        · rw [assert_bind hassert] at hroom
          have hafter : HasRoom b after len := hroom
          have hle := hafter.writer_le
          obtain hshort | hfew := hspace.of_ok hmake
          · omega
          · omega
        · have hstop : assert (len ≤ after.writableBytes) = .error .assertion :=
            check_of_false hassert
          rw [hstop] at hroom
          cases hroom.1
  · rintro ⟨hneed, hend⟩
    refine (ensureWritableBytes_holds_of_lt h hneed hend).imp ?_
    rintro after ⟨⟨hafter, -⟩, hroom⟩
    exact ⟨hafter.readable_eq, hafter.wellFormed.reader_le, hafter.wellFormed.writer_le, hroom⟩

/-! ### The buffer that `shrink` makes -/

theorem ensureWritableBytes_of_le {len : Nat} (hlen : len ≤ b.writableBytes) :
    b.ensureWritableBytes len = .ok b := by
  rw [ensureWritableBytes, if_neg (by omega), pure_bind]
  beta_reduce
  rw [assert_bind hlen]
  rfl

theorem writableBytes_empty {init : Nat} (h : kCheapPrepend + init ≤ maxSize) :
    (empty init).writableBytes = init := by
  rw [(empty_wellFormed h).writableBytes_eq]
  simp [empty]

theorem resize_empty {init len : Nat} (hlen : init ≤ len) (h : kCheapPrepend + len ≤ maxSize) :
    resize (empty init).buffer (kCheapPrepend + len) = .ok (empty len).buffer := by
  rw [resize, if_pos h]
  simp only [empty, List.length_replicate, List.take_replicate, List.replicate_append_replicate]
  congr 2
  omega

/-- A buffer that nothing was written to. -/
theorem ensureWritableBytes_empty {init : Nat} (h : kCheapPrepend + init ≤ maxSize)
    (hlen : len < 2 ^ 64) : (empty init).ensureWritableBytes len =
      if 2 ^ 64 ≤ len + kCheapPrepend then .error .assertion
      else if kCheapPrepend + len ≤ maxSize then .ok (empty (max init len))
      else .error .lengthError := by
  have hwritable := writableBytes_empty h
  have hmax := h
  simp only [maxSize, kCheapPrepend] at hmax
  by_cases hroom : len ≤ init
  · have hfits : ¬ 2 ^ 64 ≤ len + kCheapPrepend := by
      simp only [kCheapPrepend]
      omega
    rw [ensureWritableBytes_of_le (by rw [hwritable]; exact hroom), if_neg hfits,
      if_pos (by omega), Nat.max_eq_left hroom]
  · have hspace : sizeAdd (empty init).writableBytes (empty init).prependableBytes
        = init + kCheapPrepend := by
      rw [hwritable]
      exact sizeAdd_of_lt (by simp only [empty, prependableBytes, kCheapPrepend]; omega)
    rw [ensureWritableBytes, if_pos (by rw [hwritable]; omega), makeSpace, hspace]
    by_cases hwrap : 2 ^ 64 ≤ len + kCheapPrepend
    · have hneed : ¬ init + kCheapPrepend < sizeAdd len kCheapPrepend := by
        simp only [sizeAdd, kCheapPrepend] at hwrap ⊢
        omega
      have hstop : assert (kCheapPrepend < (empty init).readerIndex) = .error .assertion :=
        check_of_false (Nat.lt_irrefl _)
      rw [if_pos hwrap, if_neg hneed, hstop]
      rfl
    · have hneed : sizeAdd len kCheapPrepend = len + kCheapPrepend := sizeAdd_of_lt (by omega)
      have hend : sizeAdd (empty init).writerIndex len = kCheapPrepend + len :=
        sizeAdd_of_lt (by simp only [empty, kCheapPrepend] at hwrap ⊢; omega)
      rw [if_neg hwrap, hneed, if_pos (by omega), hend]
      split
      · rename_i hfits
        have hgrown := writableBytes_empty hfits
        rw [resize_empty (by omega) hfits, ok_bind, Nat.max_eq_right (by omega)]
        change (assert (len ≤ (empty len).writableBytes) >>= fun _ => pure (empty len)) = _
        rw [assert_bind (by rw [hgrown])]
        rfl
      · rename_i hrefused
        rw [resize, if_neg hrefused]
        rfl

/-- A piece of the buffer is appended to one that nothing was written to, if its length is one the
vector accepts. -/
theorem appendPiece_empty {str : StringPiece} {init len : Nat} {run : Except Fault Buffer}
    (hsize : toSize str.size = len) (h : kCheapPrepend + max init len ≤ maxSize)
    (hdata : len ≤ str.data.length) (hrun : (empty init).appendPiece str = run) :
    Holds run
      (fun after => after.WellFormed ∧ after.readable = str.data.take len ∧
        after.writableBytes = max init len - len) (fun _ => False) := by
  have hmax := h
  simp only [maxSize, kCheapPrepend] at hmax
  have hgrown := writableBytes_empty h
  have hwell := empty_wellFormed h
  have hlength : (str.data.take len).length = len := List.length_take_of_le hdata
  have hensure : (empty init).ensureWritableBytes len = .ok (empty (max init len)) := by
    have hfits : ¬ 2 ^ 64 ≤ len + kCheapPrepend := by
      simp only [kCheapPrepend]
      omega
    rw [ensureWritableBytes_empty (by omega) (by omega), if_neg hfits, if_pos (by omega)]
  have hroom : (str.data.take len).length ≤ (empty (max init len)).writableBytes := by
    rw [hlength, hgrown]
    omega
  have hwritten := write_hasWritten_eq hwell hroom
  rw [hlength] at hwritten
  have hbuffer : (empty (max init len)).buffer.length = kCheapPrepend + max init len :=
    List.length_replicate
  have hend : (empty (max init len)).writerIndex + (str.data.take len).length
      ≤ (empty (max init len)).buffer.length := by
    rw [hlength, hbuffer]
    change kCheapPrepend + len ≤ _
    omega
  have hafter := becomes_write_advance (str.data.take len) hwell hend
  rw [hlength] at hafter
  rw [appendPiece] at hrun
  simp only [hsize] at hrun
  rw [hensure, ok_bind, if_pos hdata, hwritten] at hrun
  rw [← hrun, holds_ok]
  refine ⟨hafter.wellFormed, ?_, ?_⟩
  · rw [hafter.readable_eq, readable_empty, List.nil_append]
  · rw [hafter.wellFormed.writableBytes_eq]
    change (copyTo _ _ _).length - (kCheapPrepend + len) = _
    rw [length_copyTo hend, hbuffer]
    omega

theorem appendPiece_of_error {str : StringPiece} {fault : Fault}
    (h : b.ensureWritableBytes (toSize str.size) = .error fault) :
    b.appendPiece str = .error fault := by
  rw [appendPiece]
  simp only [h]
  rfl

/-- The bytes that the piece of a buffer stands for. -/
def pieceSize (b : Buffer) : Nat := toSize (toInt32 b.readableBytes)

/-- The size is taken modulo `2 ^ 32`, and from `2 ^ 31` on it is that of a negative number. -/
theorem pieceSize_cases (b : Buffer) :
    (b.readableBytes % 2 ^ 32 < 2 ^ 31 ∧ b.pieceSize = b.readableBytes % 2 ^ 32) ∨
      (2 ^ 31 ≤ b.readableBytes % 2 ^ 32 ∧
        b.pieceSize = 2 ^ 64 - 2 ^ 32 + b.readableBytes % 2 ^ 32) := by
  unfold pieceSize toSize toInt32
  omega

theorem max_fits {n : Nat} (h : kCheapPrepend + n ≤ maxSize) :
    kCheapPrepend + max kInitialSize n ≤ maxSize := by
  have hinit : kCheapPrepend + kInitialSize ≤ maxSize := by decide
  omega

/-- `shrink` asks for `readableBytes() + reserve` first. -/
theorem shrunk_eq (b : Buffer) (reserve : Nat) : b.shrunk reserve =
    if 2 ^ 64 ≤ sizeAdd b.readableBytes reserve + kCheapPrepend then .error .assertion
    else if kCheapPrepend + sizeAdd b.readableBytes reserve ≤ maxSize then
      (empty (max kInitialSize (sizeAdd b.readableBytes reserve))).appendPiece b.toStringPiece
    else .error .lengthError := by
  have hinit : kCheapPrepend + kInitialSize ≤ maxSize := by decide
  have hsize : sizeAdd b.readableBytes reserve < 2 ^ 64 := Nat.mod_lt _ (by decide)
  rw [shrunk, new_eq_empty hinit, ok_bind, ensureWritableBytes_empty hinit hsize]
  split
  · rfl
  · split
    · rw [ok_bind]
    · rfl

/-- The piece is the readable bytes, or as many of them as its length has bits for. -/
theorem appendPiece_toStringPiece {init n : Nat} {run : Except Fault Buffer} (h : b.WellFormed)
    (hinit : kCheapPrepend + init ≤ maxSize) (hn : b.pieceSize = n)
    (hrun : (empty init).appendPiece b.toStringPiece = run) :
    Holds run
      (fun after => kCheapPrepend + n ≤ maxSize ∧ after.WellFormed ∧
        after.readable = b.readable.take n ∧ after.writableBytes = max init n - n)
      (fun fault => (2 ^ 64 ≤ n + kCheapPrepend ∧ fault = .assertion) ∨
        (n + kCheapPrepend < 2 ^ 64 ∧ maxSize < kCheapPrepend + n ∧ fault = .lengthError)) := by
  have hpiece : toSize b.toStringPiece.size = n :=
    (congrArg toSize (StringPiece.size_mk _ _)).trans hn
  have hcases := pieceSize_cases b
  rw [hn] at hcases
  clear hn
  have hlt : n < 2 ^ 64 := by omega
  have hensure := ensureWritableBytes_empty hinit hlt
  by_cases hwrap : 2 ^ 64 ≤ n + kCheapPrepend
  · rw [if_pos hwrap, ← hpiece] at hensure
    rw [appendPiece_of_error hensure] at hrun
    rw [← hrun, holds_error]
    exact .inl ⟨hwrap, rfl⟩
  · rw [if_neg hwrap] at hensure
    by_cases hfits : kCheapPrepend + n ≤ maxSize
    · have hle : n ≤ b.readableBytes := by
        simp only [maxSize, kCheapPrepend] at hfits
        omega
      have htake : b.toStringPiece.data.take n = b.readable.take n := by
        rw [readable, List.take_take, ← h.readableBytes_eq, Nat.min_eq_left hle]
        rfl
      have hdata : n ≤ b.toStringPiece.data.length := by
        rw [h.readableBytes_eq] at hle
        have hwriter := h.writer_le
        change n ≤ (b.buffer.drop b.readerIndex).length
        rw [List.length_drop]
        omega
      have hmax : kCheapPrepend + max init n ≤ maxSize := by omega
      refine (appendPiece_empty hpiece hmax hdata hrun).mono ?_ (fun _ => False.elim)
      rintro after ⟨hwell, hcontent, hroom⟩
      exact ⟨hfits, hwell, hcontent.trans htake, hroom⟩
    · rw [if_neg hfits, ← hpiece] at hensure
      rw [appendPiece_of_error hensure] at hrun
      rw [← hrun, holds_error]
      exact .inr ⟨by omega, by omega, rfl⟩

/-- The size fits, and so does the length of the piece; or a size that is too large is refused,
before it wraps or because of what the length of the piece becomes. -/
def ShrinkFits (b : Buffer) (reserve : Nat) : Prop :=
  sizeAdd b.readableBytes reserve + kCheapPrepend < 2 ^ 64 ∧
    (maxSize < kCheapPrepend + sizeAdd b.readableBytes reserve ∨
      (b.readableBytes + reserve < 2 ^ 64 ∧ b.readableBytes < 2 ^ 31) ∨
      (2 ^ 64 ≤ b.readableBytes + reserve ∧ 2 ^ 31 ≤ b.readableBytes % 2 ^ 32 ∧
        b.readableBytes % 2 ^ 32 + kCheapPrepend < 2 ^ 32))

theorem shrunk_hasRoom_iff (h : b.WellFormed) (hreserve : reserve < 2 ^ 64) :
    Holds (b.shrunk reserve) (fun after => HasRoom b after reserve)
      (fun fault => fault = .lengthError ∧ maxSize < kCheapPrepend + b.readableBytes + reserve) ↔
        b.ShrinkFits reserve := by
  have hlt := h.readableBytes_lt
  rw [shrunk_eq, ShrinkFits]
  by_cases hwrap : 2 ^ 64 ≤ sizeAdd b.readableBytes reserve + kCheapPrepend
  · rw [if_pos hwrap, holds_error]
    constructor
    · rintro ⟨⟨⟩, -⟩
    · rintro ⟨hfits, -⟩
      omega
  · rw [if_neg hwrap]
    by_cases hfits : kCheapPrepend + sizeAdd b.readableBytes reserve ≤ maxSize
    · rw [if_pos hfits]
      have hinit := max_fits hfits
      generalize hrun : (empty (max kInitialSize (sizeAdd b.readableBytes reserve))).appendPiece
        b.toStringPiece = run
      obtain ⟨n, hn⟩ : ∃ n, b.pieceSize = n := ⟨_, rfl⟩
      have hpiece := appendPiece_toStringPiece h hinit hn hrun
      have hcases := pieceSize_cases b
      rw [hn] at hcases
      clear hrun hn
      cases run with
      | error fault =>
          rw [holds_error]
          obtain ⟨hover, rfl⟩ | ⟨hunder, hrefused, rfl⟩ := hpiece
          · constructor
            · rintro ⟨⟨⟩, -⟩
            · simp only [kCheapPrepend, maxSize] at *
              omega
          · simp only [true_and, sizeAdd, kCheapPrepend, maxSize] at *
            omega
      | ok after =>
          obtain ⟨hn, hwell, hcontent, hroom⟩ := hpiece
          have hsmall : n = b.readableBytes % 2 ^ 32 ∧ b.readableBytes % 2 ^ 32 < 2 ^ 31 := by
            simp only [kCheapPrepend, maxSize] at hn
            omega
          have hkept : b.readable.take n = b.readable ↔ b.readableBytes ≤ n := by
            rw [List.take_eq_self_iff, h.length_readable]
          rw [holds_ok]
          constructor
          · rintro ⟨hsame, -, -, hle⟩
            have hwhole := hkept.mp (hcontent.symm.trans hsame)
            rw [hroom] at hle
            have hsum : b.readableBytes + reserve < 2 ^ 64 := by
              simp only [sizeAdd, kCheapPrepend, maxSize, kInitialSize] at hfits hle
              omega
            exact ⟨by omega, .inr (.inl ⟨hsum, by omega⟩)⟩
          · rintro ⟨-, hmax | ⟨hsum, hlow⟩ | ⟨-, hhigh, -⟩⟩
            · omega
            · refine ⟨hcontent.trans (hkept.mpr (by omega)), hwell.reader_le, hwell.writer_le, ?_⟩
              rw [hroom, sizeAdd_of_lt hsum]
              omega
            · omega
    · rw [if_neg hfits, holds_error]
      constructor
      · intro _
        exact ⟨by omega, .inl (by omega)⟩
      · intro _
        refine ⟨rfl, ?_⟩
        simp only [sizeAdd, kCheapPrepend] at hfits ⊢
        omega

theorem wellFormed_of_shrunk {after : Buffer} (h : b.WellFormed)
    (hrun : b.shrunk reserve = .ok after) : after.WellFormed := by
  rw [shrunk_eq] at hrun
  split at hrun
  · cases hrun
  · split at hrun
    · rename_i hfits
      have hinit := max_fits hfits
      obtain ⟨n, hn⟩ : ∃ n, b.pieceSize = n := ⟨_, rfl⟩
      exact (appendPiece_toStringPiece h hinit hn hrun).2.1
    · cases hrun

end Room

/-! ### Every reachable buffer -/

namespace Growth

variable {ι : Type} [DecidableEq ι]

/-- The bytes of a call are in memory; the two sizes are any. -/
inductive Event (ι : Type) where
  | call (call : { call : Call ι // call.demand ≤ maxSize })
  | ensureWritableBytes (i : ι) (len : UInt64)
  | shrink (i : ι) (reserve : UInt64)

/-- The caller may go on when the vector refuses, with what is left of the object. -/
def finish (s : ι → Buffer) (i : ι) :
    EStateM.Result Fault Buffer Unit → Except Fault (ι → Buffer)
  | .ok _ after => .ok (Function.update s i after)
  | .error .lengthError left => .ok (Function.update s i left)
  | .error fault _ => .error fault

def step (s : ι → Buffer) : Event ι → Except Fault (ι → Buffer)
  | .call call => if call.1.Pre s then (call.1.exec s).map Prod.snd else .error .assertion
  | .ensureWritableBytes i len => finish s i (Method.ensureWritableBytes len.toNat (s i))
  | .shrink i reserve => finish s i (Method.shrink reserve.toNat (s i))

/-- The method does what it is asked for. -/
def Delivers (s : ι → Buffer) : Event ι → Prop
  | .call _ => True
  | .ensureWritableBytes i len =>
      Grown (s i) len.toNat ((s i).writerIndex + len.toNat)
        (Method.ensureWritableBytes len.toNat (s i))
  | .shrink i reserve =>
      Grown (s i) reserve.toNat (kCheapPrepend + (s i).readableBytes + reserve.toNat)
        (Method.shrink reserve.toNat (s i))

/-- The sums of `makeSpace` do not wrap, and `shrink` gets sizes that it can keep or refuse. -/
def Fits (s : ι → Buffer) : Event ι → Prop
  | .call _ => True
  | .ensureWritableBytes i len =>
      len.toNat + kCheapPrepend < 2 ^ 64 ∧ (s i).writerIndex + len.toNat < 2 ^ 64
  | .shrink i reserve => (s i).ShrinkFits reserve.toNat

section Runs

variable {s s' : ι → Buffer} {event : Event ι} {i : ι}

omit [DecidableEq ι] in
theorem delivers_iff_fits (h : ∀ i, (s i).WellFormed) : Delivers s event ↔ Fits s event := by
  cases event with
  | call call => exact Iff.rfl
  | ensureWritableBytes i len =>
      have hdoes := Method.does_ensureWritableBytes (s i) len.toNat
      have hgrown := hdoes.grown_iff len.toNat ((s i).writerIndex + len.toNat)
      exact hgrown.trans (ensureWritableBytes_hasRoom_iff (h i) len.toNat_lt)
  | shrink i reserve =>
      have hdoes := Method.does_shrink (s i) reserve.toNat
      have hgrown := hdoes.grown_iff reserve.toNat
        (kCheapPrepend + (s i).readableBytes + reserve.toNat)
      exact hgrown.trans (shrunk_hasRoom_iff (h i) reserve.toNat_lt)

theorem wellFormed_update {b : Buffer} (h : ∀ i, (s i).WellFormed) (hb : b.WellFormed) :
    ∀ j, (Function.update s i b j).WellFormed := by
  intro j
  by_cases hj : j = i
  · rw [hj, Function.update_self]
    exact hb
  · rw [Function.update_of_ne hj]
    exact h j

/-- A method that returns well-formed buffers, or leaves the object as it is. -/
theorem wellFormed_finish {method : Method Unit} {run : Except Fault Buffer}
    (h : ∀ i, (s i).WellFormed) (hdoes : method.Does run (s i))
    (hrun : ∀ after, run = .ok after → after.WellFormed)
    (hnext : finish s i (method (s i)) = .ok s') : ∀ j, (s' j).WellFormed := by
  cases run with
  | ok after =>
      rw [hdoes.returns after rfl] at hnext
      cases hnext
      exact wellFormed_update h (hrun after rfl)
  | error fault =>
      obtain ⟨left, hleft, hkept⟩ := hdoes.stops fault rfl
      rw [hleft] at hnext
      cases fault with
      | lengthError =>
          cases hnext
          rw [hkept rfl]
          exact wellFormed_update h (h i)
      | assertion => cases hnext
      | outOfRange => cases hnext
      | nullPointer => cases hnext
      | overflow => cases hnext

theorem wellFormed_step (h : ∀ i, (s i).WellFormed) (hfits : Fits s event)
    (hnext : step s event = .ok s') : ∀ j, (s' j).WellFormed := by
  cases event with
  | call call =>
      obtain ⟨call, hdemand⟩ := call
      unfold step at hnext
      dsimp only at hnext
      split at hnext
      · rename_i hpre
        have hreads : Refines s (fun i => (s i).readable) maxSize :=
          fun i => ⟨h i, rfl, (h i).size_le⟩
        have hexec := call.exec_holds hreads hpre (hdemand.trans (by decide))
        cases hresult : call.exec s with
        | ok result =>
            rw [hresult] at hnext
            cases hnext
            exact fun j => ((hexec.of_ok hresult).2.1 j).wellFormed
        | error fault =>
            rw [hresult] at hnext
            cases hnext
      · cases hnext
  | ensureWritableBytes i len =>
      rw [step] at hnext
      apply wellFormed_finish h (Method.does_ensureWritableBytes (s i) len.toNat) _ hnext
      intro after hafter
      obtain ⟨hneed, hend⟩ := hfits
      have hroom := ensureWritableBytes_holds_of_lt (h i) hneed hend
      rw [hafter] at hroom
      exact hroom.1.1.wellFormed
  | shrink i reserve =>
      rw [step] at hnext
      apply wellFormed_finish h (Method.does_shrink (s i) reserve.toNat) _ hnext
      exact fun after hafter => wellFormed_of_shrunk (h i) hafter

/-- Whatever is done with buffers whose constructors did not wrap, the two methods do what they are
asked for exactly as long as their sizes fit. -/
theorem delivers_always_iff_fits (initialSize : ι → Nat) (s : ι → Buffer) (events : List (Event ι))
    (hnew : ∀ i, new (initialSize i) = .ok (s i))
    (hsize : ∀ i, kCheapPrepend + initialSize i < 2 ^ 64) :
    Always step Delivers s events ↔ Always step Fits s events := by
  have hwell : ∀ i, (s i).WellFormed := by
    intro i
    obtain ⟨hempty, hmax⟩ := eq_empty_of_new (hnew i) (hsize i)
    rw [hempty]
    exact empty_wellFormed hmax
  have hinv : ∀ (s : ι → Buffer) (event : Event ι) (s' : ι → Buffer),
      (∀ i, (s i).WellFormed) → Fits s event → step s event = .ok s' → ∀ i, (s' i).WellFormed :=
    fun s event s' h hfits hnext => wellFormed_step h hfits hnext
  exact always_congr hinv (fun s event h => delivers_iff_fits h) hwell

omit [DecidableEq ι] in
/-- A constructor that wraps returns a buffer whose writer is beyond the end of its vector, and no
call of a method brings it back. -/
theorem not_delivers_of_new_wrap {initialSize : Nat} (hlt : initialSize < 2 ^ 64)
    (hwrap : 2 ^ 64 ≤ kCheapPrepend + initialSize) (hnew : new initialSize = .ok (s i)) :
    ¬ Delivers s (.ensureWritableBytes i 0) := by
  have hshort : (s i).buffer.length < (s i).writerIndex := by
    unfold new at hnew
    obtain ⟨bytes, hbytes, hrest⟩ := bind_eq_ok.mp hnew
    obtain ⟨-, -, hrest⟩ := bind_eq_ok.mp hrest
    obtain ⟨-, -, hrest⟩ := bind_eq_ok.mp hrest
    obtain ⟨-, -, hlast⟩ := bind_eq_ok.mp hrest
    rw [← Except.ok.inj hlast]
    change bytes.length < kCheapPrepend
    rw [length_resize hbytes]
    simp only [sizeAdd, kCheapPrepend] at hwrap ⊢
    omega
  intro hdelivers
  have hdoes := Method.does_ensureWritableBytes (s i) 0
  have hroom := (hdoes.grown_iff 0 ((s i).writerIndex + 0)).mp hdelivers
  rw [ensureWritableBytes_of_le (Nat.zero_le _)] at hroom
  have hle := hroom.writer_le
  omega

omit [DecidableEq ι] in
theorem not_delivers_of_wrap {len : UInt64} (h : ∀ i, (s i).WellFormed)
    (hwrap : 2 ^ 64 ≤ len.toNat + kCheapPrepend) : ¬ Delivers s (.ensureWritableBytes i len) := by
  intro hdelivers
  obtain ⟨hneed, -⟩ := (delivers_iff_fits h).mp hdelivers
  omega

/-- A size that wraps on a new buffer: the assert of `ensureWritableBytes` fails. -/
theorem ensureWritableBytes_notDelivered :
    ¬ ∀ (s : Unit → Buffer) (events : List (Event Unit)),
      (∀ i, new kInitialSize = .ok (s i)) → Always step Delivers s events := by
  intro hclaim
  have hfits : kCheapPrepend + kInitialSize ≤ maxSize := by decide
  obtain ⟨b, hnew, hb⟩ : ∃ b, new kInitialSize = .ok b ∧ b.WellFormed :=
    ⟨empty kInitialSize, new_eq_empty hfits, empty_wellFormed hfits⟩
  have hwrap : 2 ^ 64 ≤ (18446744073709551615 : UInt64).toNat + kCheapPrepend := by
    simp [kCheapPrepend]
  have hrun := hclaim (fun _ => b) [.ensureWritableBytes () 18446744073709551615] fun _ => hnew
  exact not_delivers_of_wrap (fun _ => hb) hwrap hrun.1

instance (s : ι → Buffer) : (event : Event ι) → Decidable (Fits s event)
  | .call _ => .isTrue trivial
  | .ensureWritableBytes _ _ => inferInstanceAs (Decidable (_ ∧ _))
  | .shrink _ _ => inferInstanceAs (Decidable (_ ∧ _))

/-- The buffer has content when it grows, and when it shrinks. -/
def fillAndShrink : List (Event Unit) :=
  [.call ⟨.on () (.append [1, 2, 3]), by decide⟩, .ensureWritableBytes () 100,
    .call ⟨.on () (.retrieve 1), by decide⟩, .shrink () 3]

theorem delivers_always_iff_fits_fillAndShrink :
    Always step Delivers (fun _ : Unit => empty 4) fillAndShrink := by
  apply (delivers_always_iff_fits (fun _ => 4) _ _ (fun _ => by decide) (fun _ => by decide)).mpr
  decide +kernel

end Runs

end Growth

end Buffer

end ToyBasket
