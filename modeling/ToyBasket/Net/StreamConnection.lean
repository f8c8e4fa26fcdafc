import ToyBasket.Net.EventLoop
import ToyBasket.Net.Output

/-!
# Sending on a connection

The output side of `StreamConnection.cpp`: `send` and `shutdown` from any thread, and the loop's
`sendInLoop`, `shutdownInLoop` and `handleWrite`. A call of another thread takes several steps,
between which other threads and the loop go on; the loop does one thing at a time.
-/

namespace ToyBasket

open Words Outcome

inductive ConnectionState where
  | kDisconnected
  | kConnecting
  | kConnected
  | kDisconnecting
deriving DecidableEq, Repr

/-- Where a thread is: in `send` after the test of the state, in `shutdown` after the test or after
the state has been set, or in neither. -/
inductive ThreadState where
  | idle
  | queueMessage (message : Bytes)
  | setDisconnecting
  | queueShutdown
deriving DecidableEq, Repr

inductive ConnectionFunctor where
  | sendInLoop (thread : Nat) (message : Bytes)
  | shutdownInLoop
  | callback (cb : Callback)
deriving DecidableEq, Repr

def ThreadState.message : ThreadState → Option Bytes
  | .queueMessage message => some message
  | _ => none

def ConnectionFunctor.message : ConnectionFunctor → Option (Nat × Bytes)
  | .sendInLoop thread message => some (thread, message)
  | _ => none

/-- The loop is thread 0. `given` records the messages `send` took and `executed` those passed to
`sendInLoop`, with their threads. `shutdowns` records, for each `shutdownWrite`, what the socket had
accepted by then and what `send` had taken. -/
structure StreamConnection where
  state : ConnectionState
  output : Output
  loop : EventLoop ConnectionFunctor
  threads : Nat → ThreadState
  given : List (Nat × Bytes)
  executed : List (Nat × Bytes)
  shutdowns : List (Bytes × Bytes)

namespace StreamConnection

/-- A step of a thread. Where a write happens the result is that of `write`; it does not matter
where none does. -/
inductive Event where
  | send (thread : Nat) (message : Bytes) (result : WriteResult)
  | shutdown (thread : Nat)
  | advance (thread : Nat)
  | doPendingFunctors
  | functor (result : WriteResult)
  | handleWrite (result : WriteResult)
deriving DecidableEq, Repr

def init (highWaterMark : Nat) (writeCompleteCallback highWaterMarkCallback : Bool) :
    StreamConnection where
  state := .kConnected
  output := Output.init highWaterMark writeCompleteCallback highWaterMarkCallback
  loop := EventLoop.init
  threads := fun _ => .idle
  given := []
  executed := []
  shutdowns := []

def queueCallbacks (conn : StreamConnection) (cbs : List Callback) : StreamConnection :=
  { conn with loop := conn.loop.queueAll (cbs.map .callback) }

def sendInLoop (conn : StreamConnection) (thread : Nat) (message : Bytes) (result : WriteResult) :
    Except Fault StreamConnection := do
  let conn := { conn with executed := conn.executed ++ [(thread, message)] }
  if conn.state = .kDisconnected then
    return conn
  let (output, cbs) ← conn.output.sendInLoop message result
  return { conn with output := output }.queueCallbacks cbs

/-- The test of `send`, and the whole of it on the thread of the loop. -/
def send (conn : StreamConnection) (thread : Nat) (message : Bytes) (result : WriteResult) :
    Except Fault StreamConnection :=
  if conn.state = .kConnected then
    let conn := { conn with given := conn.given ++ [(thread, message)] }
    if thread = 0 then conn.sendInLoop thread message result
    else .ok { conn with threads := Function.update conn.threads thread (.queueMessage message) }
  else .ok conn

def shutdown (conn : StreamConnection) (thread : Nat) : StreamConnection :=
  if conn.state = .kConnected then
    { conn with threads := Function.update conn.threads thread .setDisconnecting }
  else conn

def shutdownInLoop (conn : StreamConnection) : StreamConnection :=
  if conn.output.isWriting then conn
  else
    let taken := (conn.given.map Prod.snd).flatten
    { conn with shutdowns := conn.shutdowns ++ [(conn.output.written, taken)] }

/-- The next step of a thread inside of `send` or `shutdown`. -/
def advance (conn : StreamConnection) (thread : Nat) : StreamConnection :=
  match conn.threads thread with
  | .idle => conn
  | .queueMessage message =>
      { conn with
        loop := conn.loop.queueInLoop (.sendInLoop thread message)
        threads := Function.update conn.threads thread .idle }
  | .setDisconnecting =>
      { conn with
        state := .kDisconnecting
        threads := Function.update conn.threads thread .queueShutdown }
  | .queueShutdown =>
      let conn := { conn with threads := Function.update conn.threads thread .idle }
      if thread = 0 then conn.shutdownInLoop
      else { conn with loop := conn.loop.queueInLoop .shutdownInLoop }

def functor (conn : StreamConnection) (result : WriteResult) : Except Fault StreamConnection :=
  match conn.loop.functors with
  | [] => .ok conn
  | f :: functors =>
      let conn := { conn with loop := { conn.loop with functors := functors } }
      match f with
      | .sendInLoop thread message => conn.sendInLoop thread message result
      | .shutdownInLoop => .ok conn.shutdownInLoop
      | .callback _ => .ok conn

def handleWrite (conn : StreamConnection) (result : WriteResult) :
    Except Fault StreamConnection := do
  let (output, empty, cbs) ← conn.output.handleWrite result
  let conn := { conn with output := output }.queueCallbacks cbs
  if empty ∧ conn.state = .kDisconnecting then
    return conn.shutdownInLoop
  return conn

/-- A thread that is in a call begins no other, and the loop takes events when no batch of functors
is being run. -/
def step (conn : StreamConnection) : Event → Except Fault StreamConnection
  | .send thread message result =>
      if conn.threads thread = .idle then conn.send thread message result else .ok conn
  | .shutdown thread => .ok (if conn.threads thread = .idle then conn.shutdown thread else conn)
  | .advance thread => .ok (conn.advance thread)
  | .doPendingFunctors =>
      .ok (if conn.threads 0 = .idle then { conn with loop := conn.loop.swapFunctors } else conn)
  | .functor result => if conn.threads 0 = .idle then conn.functor result else .ok conn
  | .handleWrite result =>
      if conn.threads 0 = .idle ∧ conn.loop.functors = [] then conn.handleWrite result
      else .ok conn

/-! ### What waits -/

/-- The messages that are queued, in the order in which they will be executed. -/
def waiting (conn : StreamConnection) : List (Nat × Bytes) :=
  conn.loop.inOrder.filterMap ConnectionFunctor.message

def current (conn : StreamConnection) (thread : Nat) : Option Bytes :=
  (conn.threads thread).message

theorem message_of_mem_callbacks {f : ConnectionFunctor} {cbs : List Callback}
    (h : f ∈ cbs.map ConnectionFunctor.callback) : f.message = none := by
  obtain ⟨cb, -, rfl⟩ := List.mem_map.mp h
  rfl

variable {conn conn' : StreamConnection} {thread : Nat} {message : Bytes} {result : WriteResult}

@[simp]
theorem waiting_queueCallbacks (conn : StreamConnection) (cbs : List Callback) :
    (conn.queueCallbacks cbs).waiting = conn.waiting := by
  apply EventLoop.filterMap_inOrder_queueAll
  exact fun f => message_of_mem_callbacks

theorem waiting_queueInLoop (conn : StreamConnection) (f : ConnectionFunctor) :
    waiting { conn with loop := conn.loop.queueInLoop f } = conn.waiting ++ f.message.toList := by
  simp only [waiting, EventLoop.inOrder_queueInLoop, List.filterMap_append]
  cases f with
  | _ => rfl

theorem waiting_of_functors_eq_cons {f : ConnectionFunctor} {functors : List ConnectionFunctor}
    (h : conn.loop.functors = f :: functors) : conn.waiting = f.message.toList
      ++ waiting { conn with loop := { conn.loop with functors := functors } } := by
  apply EventLoop.filterMap_inOrder_of_cons
  exact h

theorem current_update (conn : StreamConnection) (thread : Nat) (s : ThreadState) :
    current { conn with threads := Function.update conn.threads thread s }
      = Function.update conn.current thread s.message :=
  Function.comp_update _ _ _ _

theorem current_update_of_eq {s : ThreadState} (h : conn.current thread = s.message) :
    current { conn with threads := Function.update conn.threads thread s } = conn.current := by
  rw [current_update, ← h, Function.update_eq_self]

theorem sendInLoop_eq_ok (hstate : conn.state ≠ .kDisconnected)
    (h : conn.sendInLoop thread message result = .ok conn') :
    ∃ output cbs, conn.output.sendInLoop message result = .ok (output, cbs) ∧
      conn' = { conn with
        executed := conn.executed ++ [(thread, message)]
        output := output }.queueCallbacks cbs := by
  unfold sendInLoop at h
  simp only [if_neg hstate] at h
  obtain ⟨⟨output, cbs⟩, hsend, hafter⟩ := bind_eq_ok.mp h
  cases hafter
  exact ⟨output, cbs, hsend, rfl⟩

theorem handleWrite_eq_ok (h : conn.handleWrite result = .ok conn') :
    ∃ output empty cbs, conn.output.handleWrite result = .ok (output, empty, cbs) ∧
      conn' = if empty = true ∧ conn.state = .kDisconnecting then
          ({ conn with output := output }.queueCallbacks cbs).shutdownInLoop
        else { conn with output := output }.queueCallbacks cbs := by
  unfold handleWrite at h
  obtain ⟨⟨output, empty, cbs⟩, hwrite, hafter⟩ := bind_eq_ok.mp h
  refine ⟨output, empty, cbs, hwrite, ?_⟩
  simp only at hafter
  split at hafter
  · rename_i hdrained
    cases hafter
    exact (if_pos hdrained).symm
  · rename_i hdrained
    cases hafter
    exact (if_neg hdrained).symm

theorem shutdownInLoop_eq (conn : StreamConnection) :
    ∃ shutdowns, conn.shutdownInLoop = { conn with shutdowns := shutdowns } := by
  unfold shutdownInLoop
  split
  · exact ⟨conn.shutdowns, rfl⟩
  · exact ⟨_, rfl⟩

end StreamConnection

end ToyBasket
