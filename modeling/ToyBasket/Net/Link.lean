import ToyBasket.Net.Integrity

/-!
# From one end to the other

`handleRead` of `StreamConnection.cpp` behind the output side of the other end. The kernel keeps
what was written in order and hands it over in whatever pieces it likes; the message callback
retrieves as much of the input buffer as it likes, when it likes.
-/

namespace ToyBasket

open Words Outcome Machine

/-! ### What a connection adds to its records -/

theorem Output.written_sendInLoop {out out' : Output} {data : Bytes} {result : WriteResult}
    {cbs : List Callback} (h : out.sendInLoop data result = .ok (out', cbs)) :
    out.written <+: out'.written := by
  unfold Output.sendInLoop at h
  generalize out.writeDirectly data.length result = direct at h
  obtain ⟨nwrote, faultError, callbacks⟩ := direct
  simp only at h
  obtain ⟨-, -, h⟩ := bind_eq_ok.mp h
  split at h
  · obtain ⟨outputBuffer, -, h⟩ := bind_eq_ok.mp h
    cases h
    exact List.prefix_append _ _
  · cases h
    exact List.prefix_append _ _

theorem Output.written_handleWrite {out out' : Output} {result : WriteResult} {empty : Bool}
    {cbs : List Callback} (h : out.handleWrite result = .ok (out', empty, cbs)) :
    out.written <+: out'.written := by
  unfold Output.handleWrite at h
  split at h
  · cases result with
    | failed errno =>
        cases h
        exact List.prefix_refl _
    | accepted n =>
        simp only at h
        split at h
        · obtain ⟨outputBuffer, -, h⟩ := bind_eq_ok.mp h
          split at h <;> cases h <;> exact List.prefix_append _ _
        · cases h
          exact List.prefix_refl _
  · cases h
    exact List.prefix_refl _

namespace StreamConnection

/-- What a step without a `send` does to the records: nothing new was given. -/
structure Grows (conn conn' : StreamConnection) : Prop where
  given : conn'.given = conn.given
  executed : conn.executed <+: conn'.executed
  written : conn.output.written <+: conn'.output.written

variable {conn conn' conn'' : StreamConnection} {thread : Nat} {message : Bytes}
  {result : WriteResult}

theorem Grows.refl (conn : StreamConnection) : conn.Grows conn where
  given := rfl
  executed := List.prefix_refl _
  written := List.prefix_refl _

theorem grows_sendInLoop (h : conn.sendInLoop thread message result = .ok conn') :
    conn.Grows conn' := by
  unfold sendInLoop at h
  simp only at h
  split at h
  · cases h
    exact ⟨rfl, List.prefix_append _ _, List.prefix_refl _⟩
  · obtain ⟨⟨output, cbs⟩, hsend, h⟩ := bind_eq_ok.mp h
    cases h
    exact ⟨rfl, List.prefix_append _ _, Output.written_sendInLoop hsend⟩

theorem grows_shutdownInLoop (conn : StreamConnection) : conn.Grows conn.shutdownInLoop := by
  obtain ⟨shutdowns, heq⟩ := conn.shutdownInLoop_eq
  rw [heq]
  exact ⟨rfl, List.prefix_refl _, List.prefix_refl _⟩

theorem grows_advance (conn : StreamConnection) (thread : Nat) :
    conn.Grows (conn.advance thread) := by
  unfold advance
  split
  · exact .refl _
  · exact ⟨rfl, List.prefix_refl _, List.prefix_refl _⟩
  · exact ⟨rfl, List.prefix_refl _, List.prefix_refl _⟩
  · simp only
    split
    · have h := grows_shutdownInLoop
        { conn with threads := Function.update conn.threads thread .idle }
      exact ⟨h.given, h.executed, h.written⟩
    · exact ⟨rfl, List.prefix_refl _, List.prefix_refl _⟩

theorem grows_functor (h : conn.functor result = .ok conn') : conn.Grows conn' := by
  unfold functor at h
  split at h
  · cases h
    exact .refl _
  · rename_i f functors hfunctors
    simp only at h
    cases f with
    | sendInLoop thread message =>
        have hgrows := grows_sendInLoop h
        exact ⟨hgrows.given, hgrows.executed, hgrows.written⟩
    | shutdownInLoop =>
        cases h
        have hgrows := grows_shutdownInLoop
          { conn with loop := { conn.loop with functors := functors } }
        exact ⟨hgrows.given, hgrows.executed, hgrows.written⟩
    | callback cb =>
        cases h
        exact ⟨rfl, List.prefix_refl _, List.prefix_refl _⟩

theorem grows_handleWrite (h : conn.handleWrite result = .ok conn') : conn.Grows conn' := by
  obtain ⟨output, empty, cbs, hwrite, rfl⟩ := handleWrite_eq_ok h
  have hwritten := Output.written_handleWrite hwrite
  split
  · have hgrows := grows_shutdownInLoop ({ conn with output := output }.queueCallbacks cbs)
    exact ⟨hgrows.given, hgrows.executed, hwritten.trans hgrows.written⟩
  · exact ⟨rfl, List.prefix_refl _, hwritten⟩

/-- A step that is no `send`. -/
def Event.isSend : Event → Bool
  | .send .. => true
  | .shutdown _ | .advance _ | .doPendingFunctors | .functor _ | .handleWrite _ => false

theorem grows_step {event : Event} (hevent : event.isSend = false)
    (h : conn.step event = .ok conn') : conn.Grows conn' := by
  cases event with
  | send thread message result => cases hevent
  | shutdown thread =>
      cases h
      split
      · unfold shutdown
        split
        · exact ⟨rfl, List.prefix_refl _, List.prefix_refl _⟩
        · exact .refl _
      · exact .refl _
  | advance thread =>
      cases h
      exact grows_advance conn thread
  | doPendingFunctors =>
      cases h
      split
      · exact ⟨rfl, List.prefix_refl _, List.prefix_refl _⟩
      · exact .refl _
  | functor result =>
      simp only [step] at h
      split at h
      · exact grows_functor h
      · cases h
        exact .refl _
  | handleWrite result =>
      simp only [step] at h
      split at h
      · exact grows_handleWrite h
      · cases h
        exact .refl _

/-- A message that is taken is given, and the loop's own is executed at once. -/
theorem send_eq_ok (hstate : conn.state = .kConnected)
    (h : conn.send thread message result = .ok conn') :
    conn'.given = conn.given ++ [(thread, message)] ∧ conn.executed <+: conn'.executed ∧
      conn.output.written <+: conn'.output.written := by
  unfold send at h
  rw [if_pos hstate] at h
  simp only at h
  split at h
  · have hgrows := grows_sendInLoop h
    exact ⟨hgrows.given, hgrows.executed, hgrows.written⟩
  · cases h
    exact ⟨rfl, List.prefix_refl _, List.prefix_refl _⟩

theorem written_step {event : Event} (h : conn.step event = .ok conn') :
    conn.output.written <+: conn'.output.written := by
  cases hsend : event.isSend with
  | false => exact (grows_step hsend h).written
  | true =>
      cases event with
      | send thread message result =>
          simp only [step] at h
          split at h
          · by_cases hstate : conn.state = .kConnected
            · exact (send_eq_ok hstate h).2.2
            · rw [send, if_neg hstate] at h
              cases h
              exact List.prefix_refl _
          · cases h
            exact List.prefix_refl _
      | _ => cases hsend

end StreamConnection

/-! ### Two ends -/

/-- The output of one connection and the input of the other. `arrived` counts the bytes that were
read, and `taken` are those that the message callback has retrieved. -/
structure Link where
  sender : StreamConnection
  arrived : Nat
  inputBuffer : Buffer
  taken : Bytes

namespace Link

inductive Event where
  | sender (event : StreamConnection.Event)
  | handleRead (n : Nat)
  | retrieve (len : Nat)

def Event.Usual : Event → Prop
  | .sender event => event.Usual
  | .handleRead _ | .retrieve _ => True

def init (highWaterMark : Nat) (writeCompleteCallback highWaterMarkCallback : Bool) : Link where
  sender := StreamConnection.init highWaterMark writeCompleteCallback highWaterMarkCallback
  arrived := 0
  inputBuffer := Buffer.empty Buffer.kInitialSize
  taken := []

/-- What has been written and not been read, and of it at most `n` bytes. -/
def chunk (link : Link) (n : Nat) : Bytes :=
  (link.sender.output.written.drop link.arrived).take n

/-- `readv` returns 0 only at the end, and -1 leaves the buffer as it is. -/
def CanRead (link : Link) (n : Nat) : Prop :=
  link.chunk n ≠ [] ∧ (link.chunk n).length ≤ link.inputBuffer.readLimit

instance (link : Link) (n : Nat) : Decidable (link.CanRead n) :=
  inferInstanceAs (Decidable (_ ∧ _))

def handleRead (link : Link) (n : Nat) : Except Fault Link := do
  let inputBuffer ← link.inputBuffer.readFd (some (link.chunk n))
  return { link with
    inputBuffer := inputBuffer
    arrived := link.arrived + (link.chunk n).length }

def retrieve (link : Link) (len : Nat) : Except Fault Link := do
  let inputBuffer ← link.inputBuffer.retrieve len
  return { link with
    inputBuffer := inputBuffer
    taken := link.taken ++ link.inputBuffer.readable.take len }

def step (link : Link) : Event → Except Fault Link
  | .sender event => do
      let sender ← link.sender.step event
      return { link with sender := sender }
  | .handleRead n => if link.CanRead n then link.handleRead n else .ok link
  | .retrieve len =>
      if len ≤ link.inputBuffer.readableBytes then link.retrieve len else .ok link

/-- What was read is in the buffer behind what was taken. -/
structure Linked (link : Link) : Prop where
  intact : link.sender.Intact
  wellFormed : link.inputBuffer.WellFormed
  arrived_le : link.arrived ≤ link.sender.output.written.length
  bytes : link.taken ++ link.inputBuffer.readable
    = link.sender.output.written.take link.arrived

variable {link link' : Link}

theorem linked_init (highWaterMark : Nat) (writeCompleteCallback highWaterMarkCallback : Bool) :
    (init highWaterMark writeCompleteCallback highWaterMarkCallback).Linked where
  intact := ⟨by simp [init, StreamConnection.init], intact_init _ _ _⟩
  wellFormed := Buffer.empty_wellFormed (by decide)
  arrived_le := Nat.zero_le _
  bytes := by simp [init, Buffer.readable_empty]

theorem Linked.sender_holds (h : link.Linked) {event : StreamConnection.Event}
    (hevent : event.Usual) :
    Holds (link.step (.sender event)) Linked (fun fault => fault = .lengthError) := by
  cases hnext : link.sender.step event with
  | error fault =>
      rw [step, hnext]
      exact (h.intact.step_holds hevent).of_error hnext
  | ok sender =>
      rw [step, hnext, ok_bind]
      obtain ⟨more, hmore⟩ := StreamConnection.written_step hnext
      refine ⟨(h.intact.step_holds hevent).of_ok hnext, h.wellFormed, ?_, ?_⟩
      · simp only [← hmore, List.length_append]
        exact Nat.le_add_right_of_le h.arrived_le
      · simp only [← hmore]
        rw [List.take_append_of_le_length h.arrived_le]
        exact h.bytes

theorem Linked.handleRead_holds (h : link.Linked) {n : Nat} (hread : link.CanRead n) :
    Holds (link.handleRead n) Linked (fun fault => fault = .lengthError) := by
  have hlength : (link.chunk n).length ≤ 2 ^ 63 := hread.2.trans (readLimit_le h.wellFormed)
  have hholds : Holds (link.inputBuffer.readFd (some (link.chunk n))) _ _ :=
    Buffer.readFd_holds h.wellFormed hlength
  have htake : link.sender.output.written.take (link.arrived + (link.chunk n).length)
      = link.sender.output.written.take link.arrived ++ link.chunk n := by
    rw [List.take_add, chunk, List.length_take, List.take_eq_take_min (i := n)]
  have hle : (link.chunk n).length ≤ link.sender.output.written.length - link.arrived := by
    rw [chunk, List.length_take, List.length_drop]
    exact Nat.min_le_right _ _
  have harrived := h.arrived_le
  apply (hholds.mono (fun _ => id) (fun _ hrefused => hrefused.1)).bind
  rintro inputBuffer ⟨⟨hwell, hreadable, -⟩, -⟩
  refine ⟨h.intact, hwell, ?_, ?_⟩
  · simp only
    omega
  · simp only [hreadable, Option.getD_some]
    rw [htake, ← List.append_assoc, h.bytes]

theorem Linked.retrieve_holds (h : link.Linked) {len : Nat}
    (hlen : len ≤ link.inputBuffer.readableBytes) :
    Holds (link.retrieve len) Linked (fun _ => False) := by
  apply (Buffer.retrieve_holds h.wellFormed hlen).bind
  rintro inputBuffer ⟨⟨hwell, hreadable, -⟩, -⟩
  refine ⟨h.intact, hwell, h.arrived_le, ?_⟩
  simp only [hreadable]
  rw [List.append_assoc, List.take_append_drop, h.bytes]

theorem Linked.step_holds (h : link.Linked) {event : Event} (hevent : event.Usual) :
    Holds (link.step event) Linked (fun fault => fault = .lengthError) := by
  cases event with
  | sender event => exact h.sender_holds hevent
  | handleRead n =>
      rw [step]
      split
      · rename_i hread
        exact h.handleRead_holds hread
      · exact h
  | retrieve len =>
      rw [step]
      split
      · rename_i hlen
        exact (h.retrieve_holds hlen).mono (fun _ => id) (fun _ => False.elim)
      · exact h

/-- The messages that were executed are, in this order and each in one piece, what the callback has
taken, what is in the input buffer, what the kernel holds, and what is in the output buffer; and of
each thread the messages were executed in the order of its calls. -/
structure Delivered (link : Link) : Prop where
  bytes : link.taken ++ link.inputBuffer.readable
    ++ link.sender.output.written.drop link.arrived ++ link.sender.output.outputBuffer.readable
      = (link.sender.executed.map Prod.snd).flatten
  order : ∀ thread, ofThread thread link.sender.given
    = ofThread thread link.sender.executed ++ ofThread thread link.sender.waiting
      ++ (link.sender.current thread).toList

theorem Linked.delivered (h : link.Linked) : link.Delivered where
  bytes := by
    have hwritten := h.intact.intact.carries.bytes
    rw [h.bytes, List.take_append_drop, hwritten]
  order := h.intact.intact.inOrder.order

/-- In every run, however the threads' messages, the short writes, the reads and the callback
interleave, nothing is lost, repeated or reordered between the calls of `send` and the callback at
the other end. -/
theorem delivered_run {highWaterMark : Nat} {writeCompleteCallback highWaterMarkCallback : Bool}
    {events : List Event} (hevents : ∀ event ∈ events, event.Usual) :
    Holds (run step (init highWaterMark writeCompleteCallback highWaterMarkCallback) events)
      Delivered (fun fault => fault = .lengthError) := by
  have hstep : ∀ (link : Link) (event : Event), event.Usual → link.Linked →
      Holds (link.step event) Linked (fun fault => fault = .lengthError) :=
    fun _ _ hevent h => h.step_holds hevent
  have hrun := holds_run hstep hevents
    (linked_init highWaterMark writeCompleteCallback highWaterMarkCallback)
  exact hrun.imp fun _ h => h.delivered

/-- A message of another thread is written in two pieces and read in two others. -/
def shortReads : List Event :=
  [.sender (.send 1 [1, 2, 3] (.accepted 0)), .sender (.advance 1), .sender .doPendingFunctors,
    .sender (.functor (.accepted 2)), .handleRead 1, .retrieve 1,
    .sender (.handleWrite (.accepted 1)), .handleRead 5]

theorem delivered_run_shortReads : ∃ link, run step (init 2 true true) shortReads = .ok link ∧
    link.taken = [1] ∧ link.inputBuffer.readable = [2, 3] ∧ link.Delivered := by
  obtain ⟨link, hrun, htaken, hreadable⟩ : ∃ link,
      run step (init 2 true true) shortReads = .ok link ∧ link.taken = [1] ∧
        link.inputBuffer.readable = [2, 3] := by
    apply Holds.returns
    decide +kernel
  have husual : ∀ event ∈ shortReads, event.Usual := by
    simp [shortReads, Event.Usual, StreamConnection.Event.Usual, WriteResult.Fatal, maxSize]
  generalize shortReads = events at hrun husual
  exact ⟨link, hrun, htaken, hreadable, (delivered_run husual).of_ok hrun⟩

end Link

end ToyBasket
