import ToyBasket.Net.StreamConnection
import ToyBasket.StringPiece

/-!
# The ways into `sendInLoop`

`send` of a `StringPiece` or of a `Buffer`, down to the pointer and the length that `sendInLoop`
gets. On the thread of the loop it is called at once; another thread binds a string to a functor.
The length of a `StringPiece` is an `int`.
-/

namespace ToyBasket

open Words Outcome

/-- The arguments of a call of `sendInLoop(const void*, size_t)`. -/
structure SendCall where
  data : Bytes
  len : Nat
deriving DecidableEq, Repr

namespace SendCall

/-- What the arguments stand for, if there are so many bytes. -/
def bytes (call : SendCall) : Option Bytes :=
  if call.len ≤ call.data.length then some (call.data.take call.len) else none

/-- The call that `sendInLoop(const StringPiece&)` makes. -/
def ofPiece (message : StringPiece) : SendCall where
  data := message.data
  len := toSize message.size

end SendCall

section Lengths

variable {call : SendCall} {content : Bytes}

theorem SendCall.bytes_eq_some : call.bytes = some content ↔
    call.len ≤ call.data.length ∧ call.data.take call.len = content := by
  unfold bytes
  split
  · rename_i hle
    simp [hle]
  · rename_i hle
    simp [hle]

theorem SendCall.len_ofPiece (ptr : Bytes) (length : Int) :
    (ofPiece (.mk ptr length)).len = toSize length := rfl

theorem SendCall.len_ofString (str : Bytes) :
    (ofPiece (.ofString str)).len = toSize (toInt32 str.length) :=
  len_ofPiece _ _

theorem SendCall.data_ofString (str : Bytes) : (ofPiece (.ofString str)).data = str := rfl

end Lengths

/-- A functor is the string bound to `sendInLoop(const StringPiece&)`. -/
structure Sender where
  state : ConnectionState
  loop : EventLoop Bytes
  calls : List SendCall
deriving DecidableEq, Repr

namespace Sender

def sendInLoop (s : Sender) (call : SendCall) : Sender := { s with calls := s.calls ++ [call] }

def send (s : Sender) (isInLoopThread : Bool) (message : StringPiece) : Except Fault Sender :=
  if s.state = .kConnected then
    if isInLoopThread then .ok (s.sendInLoop (.ofPiece message))
    else do
      let str ← message.asString
      return { s with loop := s.loop.queueInLoop str }
  else .ok s

def sendBuffer (s : Sender) (isInLoopThread : Bool) (buf : Buffer) :
    Except Fault (Sender × Buffer) :=
  if s.state = .kConnected then
    if isInLoopThread then
      .ok (s.sendInLoop ⟨buf.buffer.drop buf.readerIndex, buf.readableBytes⟩, buf.retrieveAll)
    else do
      let (str, buf) ← buf.retrieveAllAsString
      return ({ s with loop := s.loop.queueInLoop str }, buf)
  else .ok (s, buf)

/-- The loop runs the next functor of its batch. -/
def functor (s : Sender) : Sender :=
  match s.loop.functors with
  | [] => s
  | str :: functors =>
      { s with loop := { s.loop with functors := functors } }.sendInLoop
        (.ofPiece (.ofString str))

/-- What the loop does between two calls of `send`. -/
inductive LoopStep where
  | swapFunctors
  | functor
deriving DecidableEq, Repr

def loopStep (s : Sender) : LoopStep → Sender
  | .swapFunctors => { s with loop := s.loop.swapFunctors }
  | .functor => s.functor

/-- What the calls made and those of the functors to come pass on. -/
def received (s : Sender) : List (Option Bytes) :=
  (s.calls ++ s.loop.inOrder.map fun str => SendCall.ofPiece (.ofString str)).map
    SendCall.bytes

/-- One message more, the whole of `content`. -/
def Whole (s s' : Sender) (content : Bytes) : Prop :=
  s'.received.Perm (s.received ++ [some content])

variable {s : Sender} {content : Bytes} {b : Buffer}

theorem received_functor (s : Sender) : s.functor.received = s.received := by
  unfold functor
  split
  · rfl
  · rename_i str functors hbatch
    simp [received, sendInLoop, EventLoop.inOrder, hbatch]

theorem received_swapFunctors (s : Sender) :
    received { s with loop := s.loop.swapFunctors } = s.received := by
  rw [received, EventLoop.inOrder_swapFunctors, received]

theorem received_run (s : Sender) (steps : List LoopStep) :
    (steps.foldl loopStep s).received = s.received := by
  induction steps generalizing s with
  | nil => rfl
  | cons next steps ih =>
      rw [List.foldl_cons, ih]
      cases next with
      | swapFunctors => exact received_swapFunctors s
      | functor => exact received_functor s

/-- Once the loop has run all functors `sendInLoop` has been called with what was received. -/
theorem calls_of_drained {steps : List LoopStep}
    (hdrained : (steps.foldl loopStep s).loop.inOrder = []) :
    (steps.foldl loopStep s).calls.map SendCall.bytes = s.received := by
  rw [← received_run s steps, received, hdrained, List.map_nil, List.append_nil]

theorem whole_sendInLoop_iff {call : SendCall} :
    s.Whole (s.sendInLoop call) content ↔ call.bytes = some content := by
  have hmove : (s.sendInLoop call).received.Perm (s.received ++ [call.bytes]) := by
    simp only [received, sendInLoop, List.map_append, List.map_cons, List.map_nil,
      List.append_assoc]
    exact List.perm_append_comm.append_left _
  constructor
  · intro h
    have hlast := (List.perm_append_left_iff _).mp (hmove.symm.trans h)
    exact List.singleton_inj.mp (List.perm_singleton.mp hlast)
  · intro h
    rw [Whole, ← h]
    exact hmove

theorem whole_queueInLoop_iff {str : Bytes} :
    s.Whole { s with loop := s.loop.queueInLoop str } content ↔
      (SendCall.ofPiece (.ofString str)).bytes = some content := by
  have hqueue : received { s with loop := s.loop.queueInLoop str } =
      s.received ++ [(SendCall.ofPiece (.ofString str)).bytes] := by
    simp only [received, EventLoop.inOrder_queueInLoop, List.map_append, List.map_cons,
      List.map_nil, List.append_assoc]
  rw [Whole, hqueue, List.perm_append_left_iff, List.perm_singleton, List.singleton_inj]

/-- The conversions leave the length as it is, or name too many bytes or too few. -/
theorem bytes_ofString_iff {str : Bytes} (h : str.length < 2 ^ 63) :
    (SendCall.ofPiece (.ofString str)).bytes = some str ↔ str.length < 2 ^ 31 := by
  rw [SendCall.bytes_eq_some, SendCall.len_ofString, SendCall.data_ofString,
    ← toSize_toInt32_iff h]
  constructor
  · rintro ⟨hle, htake⟩
    have hlength := congrArg List.length htake
    rw [List.length_take] at hlength
    exact (Nat.min_eq_left hle).symm.trans hlength
  · intro hlength
    rw [hlength, List.take_length]
    exact ⟨Nat.le_refl _, rfl⟩

theorem asString_ofString {str : Bytes} (h : str.length < 2 ^ 31) :
    (StringPiece.ofString str).asString = .ok str := by
  have hsize := (toSize_toInt32_iff (h.trans (by decide))).mpr h
  rw [StringPiece.asString_eq_ok, StringPiece.size_ofString, StringPiece.data_ofString, hsize,
    List.take_length]
  exact ⟨h.le.trans (by decide), Nat.le_refl _, rfl⟩

theorem send_whole_iff (hstate : s.state = .kConnected) (hlen : content.length < 2 ^ 63)
    (isInLoopThread : Bool) :
    (∃ s', s.send isInLoopThread (.ofString content) = .ok s' ∧ s.Whole s' content) ↔
      content.length < 2 ^ 31 := by
  unfold send
  rw [if_pos hstate]
  cases isInLoopThread with
  | true =>
      rw [← bytes_ofString_iff hlen, ← whole_sendInLoop_iff (s := s)]
      simp
  | false =>
      constructor
      · rintro ⟨s', hsend, hwhole⟩
        obtain ⟨str, hstring, hqueue⟩ := bind_eq_ok.mp hsend
        cases hqueue
        rw [StringPiece.asString_eq_ok, StringPiece.size_ofString,
          StringPiece.data_ofString] at hstring
        rw [whole_queueInLoop_iff, SendCall.bytes_eq_some, SendCall.data_ofString] at hwhole
        obtain ⟨-, hle, htake⟩ := hstring
        have hshort := congrArg List.length htake
        have hlong := congrArg List.length hwhole.2
        rw [List.length_take] at hshort hlong
        rw [← toSize_toInt32_iff hlen]
        omega
      · intro hsmall
        refine ⟨{ s with loop := s.loop.queueInLoop content }, ?_, ?_⟩
        · simp only [asString_ofString hsmall, ok_bind]
          rfl
        · rw [whole_queueInLoop_iff, bytes_ofString_iff hlen]
          exact hsmall

/-- The buffer is empty in any case; what was in it is passed from its memory on the thread of the
loop, and through a string from another. -/
theorem sendBuffer_empties (hstate : s.state = .kConnected) (hb : b.WellFormed)
    (isInLoopThread : Bool) :
    ∃ s' b', s.sendBuffer isInLoopThread b = .ok (s', b') ∧ b'.readable = [] ∧
      (s.Whole s' b.readable ↔ isInLoopThread = true ∨ b.readable.length < 2 ^ 31) := by
  have hlen := hb.length_readable
  have hlt := hb.readableBytes_lt
  unfold sendBuffer
  rw [if_pos hstate]
  cases isInLoopThread with
  | true =>
      refine ⟨_, _, rfl, (Buffer.becomes_retrieveAll hb).readable_eq, iff_of_true ?_ (.inl rfl)⟩
      rw [whole_sendInLoop_iff, SendCall.bytes_eq_some]
      simp only [Buffer.readable, hb.readableBytes_eq, List.length_drop, and_true]
      have hwriter := hb.writer_le
      omega
  | false =>
      obtain ⟨⟨str, b'⟩, hretrieve, hstr, hbecomes, -⟩ :=
        (Buffer.retrieveAsString_holds hb (Nat.le_refl _)).returns
      refine ⟨{ s with loop := s.loop.queueInLoop str }, b', ?_, ?_, ?_⟩
      · simp only [Buffer.retrieveAllAsString, hretrieve, ok_bind]
        rfl
      · rw [hbecomes.readable_eq, ← hlen, List.drop_length]
      · have hwhole : str = b.readable := by
          rw [← hlen, List.take_length] at hstr
          exact hstr
        rw [hwhole, whole_queueInLoop_iff, bytes_ofString_iff (by omega)]
        simp

/-- A string is passed whole if and only if its length is below `2 ^ 31`; so is the content of a
buffer, which from the thread of the loop is passed whole always. -/
theorem sendPaths_whole_iff (hstate : s.state = .kConnected) (hlen : content.length < 2 ^ 63)
    (hb : b.WellFormed) (isInLoopThread : Bool) :
    ((∃ s', s.send isInLoopThread (.ofString content) = .ok s' ∧ s.Whole s' content) ↔
      content.length < 2 ^ 31) ∧
    ∃ s' b', s.sendBuffer isInLoopThread b = .ok (s', b') ∧ b'.readable = [] ∧
      (s.Whole s' b.readable ↔ isInLoopThread = true ∨ b.readable.length < 2 ^ 31) :=
  ⟨send_whole_iff hstate hlen isInLoopThread, sendBuffer_empties hstate hb isInLoopThread⟩

def connected : Sender where
  state := .kConnected
  loop := EventLoop.init
  calls := []

def holdingThree : Buffer where
  buffer := [0, 0, 0, 0, 0, 0, 0, 0, 7, 8, 9, 0]
  readerIndex := 8
  writerIndex := 11

theorem sendPaths_whole_iff_holdingThree :
    (∃ s', connected.send false (.ofString [1, 2]) = .ok s' ∧ connected.Whole s' [1, 2]) ∧
    ∃ s' b', connected.sendBuffer false holdingThree = .ok (s', b') ∧ b'.readable = [] ∧
      connected.Whole s' [7, 8, 9] := by
  have hwell : holdingThree.WellFormed := ⟨by decide, by decide, by decide, by decide⟩
  have hcontent : ([1, 2] : Bytes).length < 2 ^ 63 := by decide
  obtain ⟨hstring, s', b', hsend, hempty, hbuffer⟩ :=
    sendPaths_whole_iff (s := connected) rfl hcontent hwell false
  refine ⟨hstring.mpr (by decide), s', b', hsend, hempty, ?_⟩
  exact hbuffer.mpr (.inr (by decide))

/-- Of `2 ^ 31` bytes the length becomes negative. -/
theorem twoGiB_not_whole : ¬ ∀ (s : Sender) (content : Bytes) (isInLoopThread : Bool),
    s.state = .kConnected → content.length < 2 ^ 63 →
      ∃ s', s.send isInLoopThread (.ofString content) = .ok s' ∧ s.Whole s' content := by
  intro hclaim
  have hlength : (List.replicate (2 ^ 31) (0 : UInt8)).length = 2 ^ 31 := List.length_replicate
  have hlen : (List.replicate (2 ^ 31) (0 : UInt8)).length < 2 ^ 63 := by
    rw [hlength]
    decide
  have hshort := (send_whole_iff rfl hlen true).mp (hclaim connected _ true rfl hlen)
  rw [hlength] at hshort
  exact lt_irrefl _ hshort

end Sender

end ToyBasket
