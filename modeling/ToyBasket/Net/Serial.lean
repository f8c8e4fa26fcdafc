import ToyBasket.Net.EventLoop
import ToyBasket.Net.Output

/-!
# Sending on a serial line

The output side of `Serial.cpp`, which has the same lines as a connection but no state: `send` asks
whether the file is open, and `writing_` is set while a message is on its way.
-/

namespace ToyBasket

open Words Outcome

inductive SerialFunctor where
  | sendInLoop (thread : Nat) (message : Bytes)
  | callback (cb : Callback)
deriving DecidableEq, Repr

def SerialFunctor.message : SerialFunctor → Option (Nat × Bytes)
  | .sendInLoop thread message => some (thread, message)
  | .callback _ => none

/-- `sending` is the message of a thread in `send` that has passed the test, and the records are
those of a connection. -/
structure Serial where
  isOpen : Bool
  writing : Bool
  output : Output
  loop : EventLoop SerialFunctor
  sending : Nat → Option Bytes
  given : List (Nat × Bytes)
  executed : List (Nat × Bytes)

namespace Serial

inductive Event where
  | send (thread : Nat) (message : Bytes) (result : WriteResult)
  | advance (thread : Nat)
  | doPendingFunctors
  | functor (result : WriteResult)
  | handleWrite (result : WriteResult)
deriving DecidableEq, Repr

def init (isOpen : Bool) (highWaterMark : Nat)
    (writeCompleteCallback highWaterMarkCallback : Bool) : Serial where
  isOpen := isOpen
  writing := false
  output := Output.init highWaterMark writeCompleteCallback highWaterMarkCallback
  loop := EventLoop.init
  sending := fun _ => none
  given := []
  executed := []

def queueCallbacks (serial : Serial) (cbs : List Callback) : Serial :=
  { serial with loop := serial.loop.queueAll (cbs.map .callback) }

def sendInLoop (serial : Serial) (thread : Nat) (message : Bytes) (result : WriteResult) :
    Except Fault Serial := do
  let serial := { serial with executed := serial.executed ++ [(thread, message)] }
  let (output, cbs) ← serial.output.sendInLoop message result
  return { serial with output := output, writing := false }.queueCallbacks cbs

def send (serial : Serial) (thread : Nat) (message : Bytes) (result : WriteResult) :
    Except Fault Serial :=
  let serial := { serial with writing := true }
  if serial.isOpen then
    let serial := { serial with given := serial.given ++ [(thread, message)] }
    if thread = 0 then serial.sendInLoop thread message result
    else .ok { serial with sending := Function.update serial.sending thread (some message) }
  else .ok serial

def advance (serial : Serial) (thread : Nat) : Serial :=
  match serial.sending thread with
  | none => serial
  | some message =>
      { serial with
        loop := serial.loop.queueInLoop (.sendInLoop thread message)
        sending := Function.update serial.sending thread none }

def functor (serial : Serial) (result : WriteResult) : Except Fault Serial :=
  match serial.loop.functors with
  | [] => .ok serial
  | f :: functors =>
      let serial := { serial with loop := { serial.loop with functors := functors } }
      match f with
      | .sendInLoop thread message => serial.sendInLoop thread message result
      | .callback _ => .ok serial

def handleWrite (serial : Serial) (result : WriteResult) : Except Fault Serial := do
  let (output, _, cbs) ← serial.output.handleWrite result
  return { serial with output := output }.queueCallbacks cbs

def step (serial : Serial) : Event → Except Fault Serial
  | .send thread message result =>
      if serial.sending thread = none then serial.send thread message result else .ok serial
  | .advance thread => .ok (serial.advance thread)
  | .doPendingFunctors => .ok { serial with loop := serial.loop.swapFunctors }
  | .functor result => serial.functor result
  | .handleWrite result =>
      if serial.loop.functors = [] then serial.handleWrite result else .ok serial

/-! ### What waits -/

def waiting (serial : Serial) : List (Nat × Bytes) :=
  serial.loop.inOrder.filterMap SerialFunctor.message

variable {serial : Serial}

@[simp]
theorem waiting_queueCallbacks (serial : Serial) (cbs : List Callback) :
    (serial.queueCallbacks cbs).waiting = serial.waiting := by
  apply EventLoop.filterMap_inOrder_queueAll
  intro f hf
  obtain ⟨cb, -, rfl⟩ := List.mem_map.mp hf
  rfl

theorem waiting_queueInLoop (serial : Serial) (thread : Nat) (message : Bytes) :
    waiting { serial with loop := serial.loop.queueInLoop (.sendInLoop thread message) }
      = serial.waiting ++ [(thread, message)] := by
  simp only [waiting, EventLoop.inOrder_queueInLoop, List.filterMap_append]
  rfl

theorem waiting_of_functors_eq_cons {f : SerialFunctor} {functors : List SerialFunctor}
    (h : serial.loop.functors = f :: functors) : serial.waiting = f.message.toList
      ++ waiting { serial with loop := { serial.loop with functors := functors } } := by
  apply EventLoop.filterMap_inOrder_of_cons
  exact h

end Serial

end ToyBasket
