import ToyBasket.Net.StreamConnection
import ToyBasket.Net.Serial
import ToyBasket.Lib.Machine

/-!
# The output stream

However the messages of the threads and the writes of the loop interleave, the file accepts the
messages one after the other, each in one piece.
-/

namespace ToyBasket

open Words Outcome Machine

/-- What a step may bring: a message is a string, and the connection is not gone. The message is the
one that `sendInLoop` gets, and so is not bounded by the `int` of a `StringPiece`: `send(Buffer*)`
passes a `size_t` on the thread of the loop. -/
def StreamConnection.Event.Usual : StreamConnection.Event → Prop
  | .send _ message result => message.length ≤ maxSize ∧ ¬ result.Fatal
  | .functor result | .handleWrite result => ¬ result.Fatal
  | .shutdown _ | .advance _ | .doPendingFunctors => True

def Serial.Event.Usual : Serial.Event → Prop
  | .send _ message result => message.length ≤ maxSize ∧ ¬ result.Fatal
  | .functor result | .handleWrite result => ¬ result.Fatal
  | .advance _ | .doPendingFunctors => True

/-- The file has accepted the executed messages up to what is in the buffer, and the executed
messages, those that wait and those being handed over are, thread by thread, the ones that were
given. -/
structure Intact (output : Output) (given executed waiting : List (Nat × Bytes))
    (current : Nat → Option Bytes) : Prop where
  carries : output.Carries (executed.map Prod.snd).flatten
  inOrder : InOrder given executed waiting current
  small : ∀ p ∈ given, p.2.length ≤ maxSize

section Intact

variable {output output' : Output} {given executed waiting : List (Nat × Bytes)}
  {current : Nat → Option Bytes} {thread : Nat} {message : Bytes}

theorem Intact.small_append (h : Intact output given executed waiting current)
    (hmessage : message.length ≤ maxSize) :
    ∀ p ∈ given ++ [(thread, message)], p.2.length ≤ maxSize := by
  intro p hp
  obtain hp | hp := List.mem_append.mp hp
  · exact h.small p hp
  · rw [List.mem_singleton.mp hp]
    exact hmessage

theorem Intact.handleOwn (h : Intact output given executed waiting current)
    (hmessage : message.length ≤ maxSize)
    (hcarries : output'.Carries ((executed.map Prod.snd).flatten ++ message)) :
    Intact output' (given ++ [(0, message)]) (executed ++ [(0, message)]) waiting current where
  carries := by simpa using hcarries
  inOrder := h.inOrder.handleOwn message
  small := h.small_append hmessage

theorem Intact.give (h : Intact output given executed waiting current) (hthread : thread ≠ 0)
    (hidle : current thread = none) (hmessage : message.length ≤ maxSize) :
    Intact output (given ++ [(thread, message)]) executed waiting
      (Function.update current thread (some message)) where
  carries := h.carries
  inOrder := h.inOrder.give hthread hidle message
  small := h.small_append hmessage

theorem Intact.queue (h : Intact output given executed waiting current)
    (hcurrent : current thread = some message) :
    Intact output given executed (waiting ++ [(thread, message)])
      (Function.update current thread none) where
  carries := h.carries
  inOrder := h.inOrder.queue hcurrent
  small := h.small

theorem Intact.handle (h : Intact output given executed ((thread, message) :: waiting) current)
    (hcarries : output'.Carries ((executed.map Prod.snd).flatten ++ message)) :
    Intact output' given (executed ++ [(thread, message)]) waiting current where
  carries := by simpa using hcarries
  inOrder := h.inOrder.handle
  small := h.small

/-- The next message that waits is a string, as it was given. -/
theorem Intact.length_le (h : Intact output given executed ((thread, message) :: waiting) current) :
    message.length ≤ maxSize :=
  h.small _ (h.inOrder.mem_given List.mem_cons_self)

theorem intact_init (highWaterMark : Nat) (writeCompleteCallback highWaterMarkCallback : Bool) :
    Intact (Output.init highWaterMark writeCompleteCallback highWaterMarkCallback) [] [] []
      fun _ => none where
  carries := Output.carries_init _ _ _
  inOrder := inOrder_nil
  small := by simp

end Intact

/-! ### The connection -/

namespace StreamConnection

structure Intact (conn : StreamConnection) : Prop where
  state_ne : conn.state ≠ .kDisconnected
  intact : ToyBasket.Intact conn.output conn.given conn.executed conn.waiting conn.current

variable {conn conn' : StreamConnection} {thread : Nat} {message : Bytes} {result : WriteResult}

/-- The message is executed, and what the output does with it is known. -/
theorem sendInLoop_holds {total : Bytes} (hstate : conn.state ≠ .kDisconnected)
    (hcarries : conn.output.Carries total) (hmessage : message.length ≤ maxSize)
    (hresult : ¬ result.Fatal) :
    Holds (conn.sendInLoop thread message result)
      (fun after => ∃ output cbs, output.Carries (total ++ message) ∧
        after = { conn with
          executed := conn.executed ++ [(thread, message)]
          output := output }.queueCallbacks cbs)
      (fun fault => fault = .lengthError) := by
  unfold StreamConnection.sendInLoop
  simp only [if_neg hstate]
  apply (Output.sendInLoop_holds hcarries hresult hmessage).bind
  rintro ⟨output, cbs⟩ hafter
  exact ⟨output, cbs, hafter, rfl⟩

theorem Intact.send_holds (h : conn.Intact) (hidle : conn.threads thread = .idle)
    (hmessage : message.length ≤ maxSize) (hresult : ¬ result.Fatal) :
    Holds (conn.send thread message result) Intact (fun fault => fault = .lengthError) := by
  unfold StreamConnection.send
  split
  · simp only
    split
    · rename_i hthread
      subst hthread
      refine (sendInLoop_holds (by exact h.state_ne) (by exact h.intact.carries) hmessage
        hresult).imp ?_
      rintro after ⟨output, cbs, hcarries, rfl⟩
      refine ⟨h.state_ne, ?_⟩
      rw [waiting_queueCallbacks]
      exact h.intact.handleOwn hmessage hcarries
    · rename_i hthread
      have hcurrent : conn.current thread = none := by rw [current, hidle]; rfl
      have hupdate : current { conn with
            given := conn.given ++ [(thread, message)]
            threads := Function.update conn.threads thread (.queueMessage message) }
          = Function.update conn.current thread (some message) :=
        current_update conn thread (.queueMessage message)
      refine ⟨h.state_ne, ?_⟩
      rw [hupdate]
      exact h.intact.give hthread hcurrent hmessage
  · exact h

theorem Intact.shutdownInLoop (h : conn.Intact) : conn.shutdownInLoop.Intact := by
  obtain ⟨shutdowns, heq⟩ := conn.shutdownInLoop_eq
  rw [heq]
  exact ⟨h.state_ne, h.intact⟩

theorem Intact.update (h : conn.Intact) {s : ThreadState}
    (hcurrent : conn.current thread = s.message) :
    Intact { conn with threads := Function.update conn.threads thread s } where
  state_ne := h.state_ne
  intact := by
    rw [current_update_of_eq hcurrent]
    exact h.intact

theorem Intact.shutdown (h : conn.Intact) (hidle : conn.threads thread = .idle) :
    (conn.shutdown thread).Intact := by
  unfold StreamConnection.shutdown
  split
  · apply h.update
    rw [current, hidle]
    rfl
  · exact h

theorem Intact.advance (h : conn.Intact) : (conn.advance thread).Intact := by
  unfold StreamConnection.advance
  split
  · exact h
  · rename_i message hthread
    have hcurrent : conn.current thread = some message := by rw [current, hthread]; rfl
    have hqueue := h.intact.queue hcurrent
    refine ⟨h.state_ne, ?_⟩
    have hwaiting := conn.waiting_queueInLoop (.sendInLoop thread message)
    have hupdate := current_update conn thread .idle
    exact hwaiting ▸ hupdate ▸ hqueue
  · rename_i hthread
    have hcurrent : conn.current thread = none := by rw [current, hthread]; rfl
    have hupdate := h.update (s := .queueShutdown) hcurrent
    exact ⟨by simp, hupdate.intact⟩
  · rename_i hthread
    have hcurrent : conn.current thread = none := by rw [current, hthread]; rfl
    have hupdate := h.update (s := .idle) hcurrent
    simp only
    split
    · exact hupdate.shutdownInLoop
    · have hwaiting : waiting {
            conn with
            threads := Function.update conn.threads thread .idle
            loop := conn.loop.queueInLoop .shutdownInLoop } = conn.waiting :=
        (conn.waiting_queueInLoop .shutdownInLoop).trans (List.append_nil _)
      refine ⟨h.state_ne, ?_⟩
      rw [hwaiting]
      exact hupdate.intact

theorem Intact.functor_holds (h : conn.Intact) (hresult : ¬ result.Fatal) :
    Holds (conn.functor result) Intact (fun fault => fault = .lengthError) := by
  unfold StreamConnection.functor
  split
  · exact h
  · rename_i f functors hfunctors
    have hwaiting := waiting_of_functors_eq_cons hfunctors
    have hintact := h.intact
    rw [hwaiting] at hintact
    cases f with
    | sendInLoop thread message =>
        refine (sendInLoop_holds (by exact h.state_ne) (by exact hintact.carries)
          hintact.length_le hresult).imp ?_
        rintro after ⟨output, cbs, hcarries, rfl⟩
        refine ⟨h.state_ne, ?_⟩
        rw [waiting_queueCallbacks]
        exact hintact.handle hcarries
    | shutdownInLoop =>
        apply Intact.shutdownInLoop
        exact ⟨h.state_ne, hintact⟩
    | callback cb => exact ⟨h.state_ne, hintact⟩

theorem Intact.wrote {output : Output} (h : conn.Intact)
    (hcarries : output.Carries (conn.executed.map Prod.snd).flatten) (cbs : List Callback) :
    ({ conn with output := output }.queueCallbacks cbs).Intact := by
  refine ⟨h.state_ne, ?_⟩
  rw [waiting_queueCallbacks]
  exact ⟨hcarries, h.intact.inOrder, h.intact.small⟩

theorem Intact.handleWrite_holds (h : conn.Intact) :
    Holds (conn.handleWrite result) Intact (fun fault => fault = .lengthError) := by
  unfold StreamConnection.handleWrite
  refine ((Output.handleWrite_holds h.intact.carries).mono (fun _ => id) ?_).bind ?_
  · exact fun _ => False.elim
  · rintro ⟨output, empty, cbs⟩ ⟨hcarries, -, -⟩
    simp only
    split
    · exact (h.wrote hcarries cbs).shutdownInLoop
    · exact h.wrote hcarries cbs

theorem Intact.step_holds (h : conn.Intact) {event : Event} (hevent : event.Usual) :
    Holds (conn.step event) Intact (fun fault => fault = .lengthError) := by
  cases event with
  | send thread message result =>
      simp only [StreamConnection.step]
      split
      · rename_i hidle
        exact h.send_holds hidle hevent.1 hevent.2
      · exact h
  | shutdown thread =>
      simp only [StreamConnection.step, holds_ok]
      split
      · rename_i hidle
        exact h.shutdown hidle
      · exact h
  | advance thread => exact h.advance
  | doPendingFunctors =>
      simp only [StreamConnection.step, holds_ok]
      split
      · refine ⟨h.state_ne, ?_⟩
        rw [waiting, EventLoop.inOrder_swapFunctors]
        exact h.intact
      · exact h
  | functor result =>
      simp only [StreamConnection.step]
      split
      · exact h.functor_holds hevent
      · exact h
  | handleWrite result =>
      simp only [StreamConnection.step]
      split
      · exact h.handleWrite_holds
      · exact h

end StreamConnection

/-! ### The serial line -/

namespace Serial

def Intact (serial : Serial) : Prop :=
  ToyBasket.Intact serial.output serial.given serial.executed serial.waiting serial.sending

variable {serial serial' : Serial} {thread : Nat} {message : Bytes} {result : WriteResult}

theorem sendInLoop_holds {total : Bytes} (hcarries : serial.output.Carries total)
    (hmessage : message.length ≤ maxSize) (hresult : ¬ result.Fatal) :
    Holds (serial.sendInLoop thread message result)
      (fun after => ∃ output cbs, output.Carries (total ++ message) ∧
        after = { serial with
          executed := serial.executed ++ [(thread, message)]
          output := output
          writing := false }.queueCallbacks cbs)
      (fun fault => fault = .lengthError) := by
  unfold Serial.sendInLoop
  apply (Output.sendInLoop_holds hcarries hresult hmessage).bind
  rintro ⟨output, cbs⟩ hafter
  exact ⟨output, cbs, hafter, rfl⟩

theorem Intact.send_holds (h : serial.Intact) (hidle : serial.sending thread = none)
    (hmessage : message.length ≤ maxSize) (hresult : ¬ result.Fatal) :
    Holds (serial.send thread message result) Intact (fun fault => fault = .lengthError) := by
  unfold Serial.send
  simp only
  split
  · split
    · rename_i hthread
      subst hthread
      refine (sendInLoop_holds (by exact h.carries) hmessage hresult).imp ?_
      rintro after ⟨output, cbs, hcarries, rfl⟩
      rw [Intact, waiting_queueCallbacks]
      exact ToyBasket.Intact.handleOwn h hmessage hcarries
    · rename_i hthread
      exact ToyBasket.Intact.give h hthread hidle hmessage
  · exact h

theorem Intact.advance (h : serial.Intact) : (serial.advance thread).Intact := by
  unfold Serial.advance
  split
  · exact h
  · rename_i message hcurrent
    have hqueue := ToyBasket.Intact.queue h hcurrent
    rwa [← serial.waiting_queueInLoop] at hqueue

theorem Intact.functor_holds (h : serial.Intact) (hresult : ¬ result.Fatal) :
    Holds (serial.functor result) Intact (fun fault => fault = .lengthError) := by
  unfold Serial.functor
  split
  · exact h
  · rename_i f functors hfunctors
    have hwaiting := waiting_of_functors_eq_cons hfunctors
    rw [Intact, hwaiting] at h
    cases f with
    | sendInLoop thread message =>
        refine (sendInLoop_holds (by exact h.carries) h.length_le hresult).imp ?_
        rintro after ⟨output, cbs, hcarries, rfl⟩
        rw [Intact, waiting_queueCallbacks]
        exact ToyBasket.Intact.handle h hcarries
    | callback cb => exact h

theorem Intact.handleWrite_holds (h : serial.Intact) :
    Holds (serial.handleWrite result) Intact (fun fault => fault = .lengthError) := by
  unfold Serial.handleWrite
  refine ((Output.handleWrite_holds h.carries).mono (fun _ => id) ?_).bind ?_
  · exact fun _ => False.elim
  · rintro ⟨output, empty, cbs⟩ ⟨hcarries, -, -⟩
    rw [holds_pure, Intact, waiting_queueCallbacks]
    exact ⟨hcarries, h.inOrder, h.small⟩

theorem Intact.step_holds (h : serial.Intact) {event : Event} (hevent : event.Usual) :
    Holds (serial.step event) Intact (fun fault => fault = .lengthError) := by
  cases event with
  | send thread message result =>
      simp only [Serial.step]
      split
      · rename_i hidle
        exact h.send_holds hidle hevent.1 hevent.2
      · exact h
  | advance thread => exact h.advance
  | doPendingFunctors =>
      simp only [Serial.step, holds_ok]
      rw [Intact, waiting, EventLoop.inOrder_swapFunctors]
      exact h
  | functor result => exact h.functor_holds hevent
  | handleWrite result =>
      simp only [Serial.step]
      split
      · exact h.handleWrite_holds
      · exact h

end Serial

/-! ### Whole runs -/

/-- What the file has accepted and what is in the buffer are the executed messages in their order,
the file is waited for exactly while the buffer holds something, and every thread's messages are
executed in the order of its calls. -/
structure Streamed (output : Output) (given executed waiting : List (Nat × Bytes))
    (current : Nat → Option Bytes) : Prop where
  bytes : output.written ++ output.outputBuffer.readable = (executed.map Prod.snd).flatten
  writing_iff : output.isWriting = true ↔ output.outputBuffer.readable ≠ []
  order : ∀ thread, ofThread thread given
    = ofThread thread executed ++ ofThread thread waiting ++ (current thread).toList

theorem Intact.streamed {output : Output} {given executed waiting : List (Nat × Bytes)}
    {current : Nat → Option Bytes} (h : Intact output given executed waiting current) :
    Streamed output given executed waiting current where
  bytes := h.carries.bytes
  writing_iff := h.carries.writing_iff
  order := h.inOrder.order

theorem StreamConnection.intact_run (highWaterMark : Nat)
    (writeCompleteCallback highWaterMarkCallback : Bool) {events : List Event}
    (hevents : ∀ event ∈ events, event.Usual) :
    Holds (run step (init highWaterMark writeCompleteCallback highWaterMarkCallback) events) Intact
      (fun fault => fault = .lengthError) :=
  holds_run (fun _ _ hevent h => h.step_holds hevent) hevents ⟨by simp [init], intact_init _ _ _⟩

theorem Serial.intact_run (isOpen : Bool) (highWaterMark : Nat)
    (writeCompleteCallback highWaterMarkCallback : Bool) {events : List Event}
    (hevents : ∀ event ∈ events, event.Usual) :
    Holds (run step (init isOpen highWaterMark writeCompleteCallback highWaterMarkCallback) events)
      Intact (fun fault => fault = .lengthError) :=
  holds_run (fun _ _ hevent h => Intact.step_holds h hevent) hevents (intact_init _ _ _)

/-- On a connection and on a serial line, in every run in which the connection is not lost, the
output stream consists of the messages. A run stops only if the buffer would outgrow its vector. -/
theorem streamed_run {highWaterMark : Nat} {writeCompleteCallback highWaterMarkCallback : Bool} :
    (∀ events : List StreamConnection.Event, (∀ event ∈ events, event.Usual) →
      Holds (run StreamConnection.step
          (StreamConnection.init highWaterMark writeCompleteCallback highWaterMarkCallback) events)
        (fun conn => Streamed conn.output conn.given conn.executed conn.waiting conn.current)
        (fun fault => fault = .lengthError)) ∧
    (∀ (isOpen : Bool) (events : List Serial.Event), (∀ event ∈ events, event.Usual) →
      Holds (run Serial.step
          (Serial.init isOpen highWaterMark writeCompleteCallback highWaterMarkCallback) events)
        (fun serial =>
          Streamed serial.output serial.given serial.executed serial.waiting serial.sending)
        (fun fault => fault = .lengthError)) := by
  constructor
  · intro events hevents
    exact (StreamConnection.intact_run _ _ _ hevents).imp fun _ h => h.intact.streamed
  · intro isOpen events hevents
    exact (Serial.intact_run _ _ _ _ hevents).imp fun _ h => Intact.streamed h

/-- Another thread's message is written in part, one of the loop waits behind it. -/
def shortWrites : List StreamConnection.Event :=
  [.send 1 [1, 2, 3] (.accepted 0), .advance 1, .doPendingFunctors, .functor (.accepted 1),
    .send 0 [4] (.accepted 1), .handleWrite (.failed .wouldBlock), .handleWrite (.accepted 2)]

def serialShortWrites : List Serial.Event :=
  [.send 1 [1, 2, 3] (.accepted 0), .advance 1, .doPendingFunctors, .functor (.accepted 1),
    .send 0 [4] (.accepted 1), .handleWrite (.failed .wouldBlock), .handleWrite (.accepted 2)]

theorem streamed_run_shortWrites :
    (∃ conn, run StreamConnection.step (StreamConnection.init 2 true true) shortWrites = .ok conn ∧
      conn.output.written = [1, 2, 3] ∧
      Streamed conn.output conn.given conn.executed conn.waiting conn.current) ∧
    (∃ serial, run Serial.step (Serial.init true 2 true true) serialShortWrites = .ok serial ∧
      serial.output.written = [1, 2, 3] ∧
      Streamed serial.output serial.given serial.executed serial.waiting serial.sending) := by
  constructor
  · obtain ⟨conn, hrun, hwritten⟩ : ∃ conn,
        run StreamConnection.step (StreamConnection.init 2 true true) shortWrites = .ok conn ∧
          conn.output.written = [1, 2, 3] := by
      apply Holds.returns
      decide +kernel
    have husual : ∀ event ∈ shortWrites, event.Usual := by
      simp [shortWrites, StreamConnection.Event.Usual, WriteResult.Fatal, maxSize]
    generalize shortWrites = events at hrun husual
    exact ⟨conn, hrun, hwritten, (streamed_run.1 events husual).of_ok hrun⟩
  · obtain ⟨serial, hrun, hwritten⟩ : ∃ serial,
        run Serial.step (Serial.init true 2 true true) serialShortWrites = .ok serial ∧
          serial.output.written = [1, 2, 3] := by
      apply Holds.returns
      decide +kernel
    have husual : ∀ event ∈ serialShortWrites, event.Usual := by
      simp [serialShortWrites, Serial.Event.Usual, WriteResult.Fatal, maxSize]
    generalize serialShortWrites = events at hrun husual
    exact ⟨serial, hrun, hwritten, (streamed_run.2 true events husual).of_ok hrun⟩

end ToyBasket
