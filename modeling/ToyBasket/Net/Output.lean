import ToyBasket.Buffer.Spec

/-!
# Sending through a buffer

The lines that `StreamConnection` and `Serial` share: `sendInLoop` writes directly when nothing
waits and appends the rest to the output buffer, `handleWrite` writes from the buffer when the file
is ready.
-/

namespace ToyBasket

open Words Outcome

inductive Errno where
  | wouldBlock
  | pipe
  | connReset
  | other
deriving DecidableEq, Repr

/-- What `write` returns: at most `n` bytes were taken, or none and the error. -/
inductive WriteResult where
  | accepted (n : Nat)
  | failed (errno : Errno)
deriving DecidableEq, Repr

/-- The errors after which `sendInLoop` gives up: the connection is gone. -/
def WriteResult.Fatal : WriteResult → Prop
  | .failed errno => errno = .pipe ∨ errno = .connReset
  | .accepted _ => False

inductive Callback where
  | writeComplete
  | highWaterMark (size : Nat)
deriving DecidableEq, Repr

/-- `written` records what the file has accepted. A callback that is set is queued when due. -/
structure Output where
  outputBuffer : Buffer
  isWriting : Bool
  highWaterMark : Nat
  writeCompleteCallback : Bool
  highWaterMarkCallback : Bool
  written : Bytes
deriving DecidableEq, Repr

namespace Output

def init (highWaterMark : Nat) (writeCompleteCallback highWaterMarkCallback : Bool) : Output where
  outputBuffer := Buffer.empty Buffer.kInitialSize
  isWriting := false
  highWaterMark := highWaterMark
  writeCompleteCallback := writeCompleteCallback
  highWaterMarkCallback := highWaterMarkCallback
  written := []

def onWriteComplete (out : Output) : List Callback :=
  if out.writeCompleteCallback then [.writeComplete] else []

/-- `nwrote`, `faultError` and the callback after the direct write. -/
def writeDirectly (out : Output) (len : Nat) (result : WriteResult) : Nat × Bool × List Callback :=
  if out.isWriting = false ∧ out.outputBuffer.readableBytes = 0 then
    match result with
    | .accepted n =>
        let nwrote := min n len
        (nwrote, false, if sizeSub len nwrote = 0 then out.onWriteComplete else [])
    | .failed errno => (0, errno = .pipe ∨ errno = .connReset, [])
  else (0, false, [])

def onHighWaterMark (out : Output) (remaining : Nat) : List Callback :=
  let oldLen := out.outputBuffer.readableBytes
  if out.highWaterMark ≤ sizeAdd oldLen remaining ∧ oldLen < out.highWaterMark ∧
      out.highWaterMarkCallback then
    [.highWaterMark (sizeAdd oldLen remaining)]
  else []

def sendInLoop (out : Output) (data : Bytes) (result : WriteResult) :
    Except Fault (Output × List Callback) := do
  let (nwrote, faultError, callbacks) := out.writeDirectly data.length result
  let remaining := sizeSub data.length nwrote
  let out := { out with written := out.written ++ data.take nwrote }
  assert (remaining ≤ data.length)
  if faultError = false ∧ 0 < remaining then
    let outputBuffer ← out.outputBuffer.append (data.drop nwrote)
    return ({ out with outputBuffer := outputBuffer, isWriting := true },
      callbacks ++ out.onHighWaterMark remaining)
  else
    return (out, callbacks)

def Drains (out : Output) : WriteResult → Prop
  | .accepted n => out.isWriting = true ∧ 0 < n ∧ out.outputBuffer.readableBytes ≤ n
  | .failed _ => False

instance (out : Output) : DecidablePred out.Drains
  | .accepted _ => inferInstanceAs (Decidable (_ ∧ _))
  | .failed _ => .isFalse id

/-- The second component tells whether the buffer is empty now, so that writing was disabled. -/
def handleWrite (out : Output) (result : WriteResult) :
    Except Fault (Output × Bool × List Callback) :=
  if out.isWriting then
    match result with
    | .failed _ => .ok (out, false, [])
    | .accepted n => do
        let n := min n out.outputBuffer.readableBytes
        if 0 < n then
          let outputBuffer ← out.outputBuffer.retrieve n
          let out := {
            out with
            outputBuffer := outputBuffer
            written := out.written ++ out.outputBuffer.readable.take n }
          if outputBuffer.readableBytes = 0 then
            return ({ out with isWriting := false }, true, out.onWriteComplete)
          else
            return (out, false, [])
        else
          return (out, false, [])
  else .ok (out, false, [])

/-! ### Nothing is lost or reordered -/

/-- What the file has accepted and what waits make up `total`, and the file is waited for exactly
while something waits. -/
structure Carries (out : Output) (total : Bytes) : Prop where
  wellFormed : out.outputBuffer.WellFormed
  bytes : out.written ++ out.outputBuffer.readable = total
  writing_iff : out.isWriting = true ↔ out.outputBuffer.readable ≠ []

theorem carries_init (highWaterMark : Nat) (writeComplete highWaterMarkCallback : Bool) :
    (init highWaterMark writeComplete highWaterMarkCallback).Carries [] where
  wellFormed := Buffer.empty_wellFormed (by decide)
  bytes := Buffer.readable_empty Buffer.kInitialSize
  writing_iff := by simp [init, Buffer.readable_empty]

variable {out : Output} {total data : Bytes} {result : WriteResult}

theorem Carries.readableBytes_eq_zero_iff (h : out.Carries total) :
    out.outputBuffer.readableBytes = 0 ↔ out.outputBuffer.readable = [] := by
  rw [← h.wellFormed.length_readable, List.length_eq_zero_iff]

/-- Unless the connection is gone, the direct write takes some of the message, and none of it when
something waits. -/
theorem writeDirectly_spec (h : out.Carries total) (hresult : ¬ result.Fatal) (len : Nat) :
    (out.writeDirectly len result).2.1 = false ∧ (out.writeDirectly len result).1 ≤ len ∧
      ((out.writeDirectly len result).1 = 0 ∨ out.outputBuffer.readable = []) := by
  unfold writeDirectly
  split
  · rename_i hdirect
    have hempty := h.readableBytes_eq_zero_iff.mp hdirect.2
    cases result with
    | accepted n => exact ⟨rfl, Nat.min_le_right _ _, .inr hempty⟩
    | failed errno => exact ⟨decide_eq_false hresult, Nat.zero_le _, .inl rfl⟩
  · exact ⟨rfl, Nat.zero_le _, .inl rfl⟩

theorem sendInLoop_holds (h : out.Carries total) (hresult : ¬ result.Fatal)
    (hlen : data.length ≤ maxSize) :
    Holds (out.sendInLoop data result) (fun after => after.1.Carries (total ++ data))
      (fun fault => fault = .lengthError) := by
  obtain ⟨hfault, hle, hbehind⟩ := writeDirectly_spec h hresult data.length
  unfold sendInLoop
  generalize out.writeDirectly data.length result = direct at hfault hle hbehind ⊢
  obtain ⟨nwrote, faultError, callbacks⟩ := direct
  simp only at hfault hle hbehind ⊢
  have hremaining : sizeSub data.length nwrote = data.length - nwrote := sizeSub_of_le hle
  rw [hremaining, assert_bind (Nat.sub_le _ _)]
  have hbytes : out.written ++ data.take nwrote ++ (out.outputBuffer.readable ++ data.drop nwrote)
      = total ++ data := by
    obtain hzero | hempty := hbehind
    · rw [hzero, List.take_zero, List.append_nil, List.drop_zero, ← List.append_assoc, h.bytes]
    · have htotal := h.bytes
      rw [hempty, List.append_nil] at htotal
      rw [hempty, List.nil_append, List.append_assoc, List.take_append_drop, htotal]
  by_cases hrest : 0 < data.length - nwrote
  · rw [if_pos ⟨hfault, hrest⟩]
    have hdrop : (data.drop nwrote).length ≤ 2 ^ 63 := by
      rw [List.length_drop]
      simp only [maxSize] at hlen
      omega
    have happend : Holds (out.outputBuffer.append (data.drop nwrote))
        (fun buffer => buffer.WellFormed ∧
          buffer.readable = out.outputBuffer.readable ++ data.drop nwrote)
        (fun fault => fault = .lengthError) :=
      (Buffer.append_holds h.wellFormed hdrop).mono
        (fun _ hbuffer => ⟨hbuffer.1.wellFormed, hbuffer.1.readable_eq⟩)
        (fun _ hrefused => hrefused.1)
    apply happend.bind
    rintro buffer ⟨hwell, hreadable⟩
    refine ⟨hwell, ?_, ?_⟩
    · simp only [hreadable]
      exact hbytes
    · simp only [hreadable, true_iff]
      apply List.append_ne_nil_of_right_ne_nil
      apply List.ne_nil_of_length_pos
      rwa [List.length_drop]
  · rw [if_neg (by omega)]
    have hall : data.drop nwrote = [] := List.drop_eq_nil_of_le (by omega)
    rw [hall, List.append_nil] at hbytes
    exact ⟨h.wellFormed, hbytes, h.writing_iff⟩

theorem handleWrite_holds (h : out.Carries total) :
    Holds (out.handleWrite result)
      (fun after => after.1.Carries total ∧ (after.2.1 = true ↔ out.Drains result) ∧
        (after.2.1 = true → after.1.isWriting = false))
      (fun _ => False) := by
  unfold handleWrite
  cases hwriting : out.isWriting with
  | false =>
      refine ⟨h, ?_, by simp⟩
      cases result with
      | accepted n => simp [Drains, hwriting]
      | failed errno => simp [Drains]
  | true =>
      cases result with
      | failed errno => exact ⟨h, by simp [Drains], by simp⟩
      | accepted n =>
          have hlength := h.wellFormed.length_readable
          have hsome : 0 < out.outputBuffer.readableBytes := by
            rw [← hlength]
            exact List.length_pos_iff.mpr (h.writing_iff.mp hwriting)
          simp only [if_true]
          by_cases hpos : 0 < min n out.outputBuffer.readableBytes
          · rw [if_pos hpos]
            apply (Buffer.retrieve_holds h.wellFormed (Nat.min_le_right _ _)).bind
            rintro buffer ⟨hbuffer, -⟩
            have hbytes : out.written
                ++ out.outputBuffer.readable.take (min n out.outputBuffer.readableBytes)
                ++ buffer.readable = total := by
              rw [hbuffer.readable_eq, List.append_assoc, List.take_append_drop, h.bytes]
            have hleft := hbuffer.wellFormed.length_readable
            have hcount := congrArg List.length hbuffer.readable_eq
            rw [List.length_drop, hleft, hlength] at hcount
            by_cases hempty : buffer.readableBytes = 0
            · rw [if_pos hempty]
              rw [hempty] at hleft
              have hnil := List.length_eq_zero_iff.mp hleft
              refine ⟨⟨hbuffer.wellFormed, hbytes, by simp [hnil]⟩, ?_, fun _ => rfl⟩
              simp only [Drains, hwriting, true_and, true_iff]
              omega
            · rw [if_neg hempty]
              have hne : buffer.readable ≠ [] := by
                apply List.ne_nil_of_length_pos
                omega
              refine ⟨⟨hbuffer.wellFormed, hbytes, by simp [hne]⟩, ?_, by simp⟩
              simp only [Drains, hwriting, true_and, Bool.false_eq_true, false_iff]
              omega
          · rw [if_neg hpos]
            refine ⟨h, ?_, by simp⟩
            simp only [Drains, hwriting, true_and, Bool.false_eq_true, false_iff]
            omega

end Output

end ToyBasket
