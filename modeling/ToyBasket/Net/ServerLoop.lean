import ToyBasket.Net.InetAddress
import ToyBasket.Net.Poller
import ToyBasket.Net.StreamConnection

/-!
# A server and its loop

`StreamServer.cpp`, `StreamConnection.cpp`, `Channel.cpp` and `EventLoop.cpp` together: a loop that
polls, handles what was reported and then runs the functors queued by then, and the connections that
come and go meanwhile. The callbacks of the program are lists of calls.
-/

namespace ToyBasket

open Outcome (check Holds)

/-- What becomes of a connection; `removed` tells whether that is while functors are run. -/
inductive Milestone where
  | up
  | handleClose
  | down
  | closeCallback
  | erased
  | connectDestroyed
  | removed (inFunctors : Bool)
  | destructed
deriving DecidableEq, Repr

/-- The functors keep the connection they are bound to. -/
inductive ServerFunctor where
  | forceCloseInLoop (id : Nat)
  | connectDestroyed (id : Nat)
  | callback (id : Nat) (cb : Callback)
deriving DecidableEq, Repr

def ServerFunctor.conn : ServerFunctor → Nat
  | forceCloseInLoop id | connectDestroyed id | callback id _ => id

/-- What a callback does: it sends so many bytes, or it keeps a pointer to a connection or gives it
up. -/
inductive ServerCall where
  | send (id len : Nat) (result : WriteResult)
  | shutdown (id : Nat)
  | forceClose (id : Nat)
  | keep (id : Nat)
  | release (id : Nat)
deriving DecidableEq, Repr

def ServerCall.conn : ServerCall → Nat
  | send id _ _ | shutdown id | forceClose id | keep id | release id => id

/-- Where the loop is; `active` are the channels still to be handled and what they have received. -/
inductive ServerPhase where
  | poll
  | dispatch (active : List (Nat × BitVec 32))
  | functors
deriving DecidableEq, Repr

/-- What the callbacks of a channel run into: what they read and write, and what the program does
with a message and when the connection is down. -/
structure EventInput where
  read : ReadResult
  write : WriteResult
  messageCalls : List ServerCall
  downCalls : List ServerCall
deriving DecidableEq, Repr

/-- With the channels of connections so many `others` are reported, such as that of the acceptor. -/
inductive ServerStep where
  | poll (active : List (Nat × BitVec 32)) (others : Nat)
  | accept (fd : Nat) (upCalls : List ServerCall)
  | handleEvent (input : EventInput)
  | swap
  | functor (calls : List ServerCall)
  | endFunctors
deriving DecidableEq, Repr

inductive ServerLoopFault where
  | assertion
  | dangling
  | poller (fault : PollerFault)
deriving DecidableEq, Repr

/-- `outputBuffer` is the number of bytes in it. -/
structure LoopConnection where
  state : ConnectionState
  outputBuffer : Nat
  tied : Bool
  eventHandling : Bool
deriving DecidableEq, Repr

/-- `names` are the names that `newConnection` makes. -/
structure ServerSetup where
  names : Nat → Text
  writeCompleteCallback : Bool
  highWaterMarkCallback : Bool
  highWaterMark : Nat

/-- The objects are numbered. `alive` are those that exist, `called` the functors of the batch that
have run, and `kept` the pointers that the program keeps. -/
structure ServerLoop where
  poller : EPollPoller Nat
  eventListSize : Nat
  conn : Nat → LoopConnection
  connections : Text → Option Nat
  accepted : Nat
  alive : List Nat
  queue : EventLoop ServerFunctor
  called : List ServerFunctor
  phase : ServerPhase
  activeChannels : List Nat
  currentActiveChannel : Option Nat
  kept : List Nat
  notes : List (Nat × Milestone)

namespace ServerLoop

def kInitEventListSize : Nat := 16

def init : ServerLoop where
  poller := EPollPoller.init fun _ => 0
  eventListSize := kInitEventListSize
  conn := fun _ => ⟨.kConnecting, 0, false, false⟩
  connections := fun _ => none
  accepted := 0
  alive := []
  queue := EventLoop.init
  called := []
  phase := .poll
  activeChannels := []
  currentActiveChannel := none
  kept := []
  notes := []

def channel (server : ServerLoop) (id : Nat) : Channel := server.poller.channel id

def setConn (server : ServerLoop) (id : Nat) (conn : LoopConnection) : ServerLoop :=
  { server with conn := Function.update server.conn id conn }

def setState (server : ServerLoop) (id : Nat) (state : ConnectionState) : ServerLoop :=
  server.setConn id { server.conn id with state := state }

def note (server : ServerLoop) (id : Nat) (milestone : Milestone) : ServerLoop :=
  { server with notes := server.notes ++ [(id, milestone)] }

def queueInLoop (server : ServerLoop) (cb : ServerFunctor) : ServerLoop :=
  { server with queue := server.queue.queueInLoop cb }

def callPoller (server : ServerLoop) (run : Except PollerFault (EPollPoller Nat)) :
    Except ServerLoopFault ServerLoop :=
  match run with
  | .ok poller => .ok { server with poller := poller }
  | .error fault => .error (.poller fault)

/-! ### Calls on a connection -/

/-- `nwrote`, `faultError`, and whether all has been written. -/
def writeDirectly (server : ServerLoop) (id len : Nat) (result : WriteResult) : Nat × Bool × Bool :=
  if (server.channel id).isWriting = false ∧ (server.conn id).outputBuffer = 0 then
    match result with
    | .accepted n => (min n len, false, len - min n len = 0)
    | .failed errno => (0, errno = .pipe ∨ errno = .connReset, false)
  else (0, false, false)

def queueCallback (server : ServerLoop) (id : Nat) (due : Bool) (cb : Callback) : ServerLoop :=
  if due then server.queueInLoop (.callback id cb) else server

def sendInLoop (setup : ServerSetup) (server : ServerLoop) (id len : Nat) (result : WriteResult) :
    Except ServerLoopFault ServerLoop := do
  if (server.conn id).state = .kDisconnected then
    return server
  let (nwrote, faultError, complete) := server.writeDirectly id len result
  let remaining := len - nwrote
  let server := server.queueCallback id (complete && setup.writeCompleteCallback) .writeComplete
  check .assertion (remaining ≤ len)
  if faultError = false ∧ 0 < remaining then
    let conn := server.conn id
    let total := conn.outputBuffer + remaining
    let server := server.queueCallback id
      (setup.highWaterMark ≤ total && conn.outputBuffer < setup.highWaterMark &&
        setup.highWaterMarkCallback) (.highWaterMark total)
    let server := server.setConn id { conn with outputBuffer := total }
    if (server.channel id).isWriting then
      return server
    else
      server.callPoller (server.poller.enableWriting id)
  else
    return server

/-- A call on a connection that exists. Whether the socket is shut down does not matter here. -/
def call (setup : ServerSetup) (server : ServerLoop) (call : ServerCall) :
    Except ServerLoopFault ServerLoop :=
  if call.conn ∈ server.alive then
    match call with
    | .send id len result =>
        if (server.conn id).state = .kConnected then server.sendInLoop setup id len result
        else .ok server
    | .shutdown id =>
        .ok (if (server.conn id).state = .kConnected then server.setState id .kDisconnecting
          else server)
    | .forceClose id =>
        .ok (if (server.conn id).state = .kConnected ∨ (server.conn id).state = .kDisconnecting then
            (server.setState id .kDisconnecting).queueInLoop (.forceCloseInLoop id)
          else server)
    | .keep id => .ok { server with kept := server.kept ++ [id] }
    | .release id => .ok { server with kept := server.kept.erase id }
  else .ok server

def callAll (setup : ServerSetup) (server : ServerLoop) (calls : List ServerCall) :
    Except ServerLoopFault ServerLoop :=
  Machine.run (call setup) server calls

/-! ### The life of a connection -/

def connectEstablished (setup : ServerSetup) (server : ServerLoop) (id : Nat)
    (upCalls : List ServerCall) : Except ServerLoopFault ServerLoop := do
  check .assertion ((server.conn id).state = .kConnecting)
  let server := server.setConn id { server.conn id with state := .kConnected, tied := true }
  let server ← server.callPoller (server.poller.enableReading id)
  (server.note id .up).callAll setup upCalls

def newConnection (setup : ServerSetup) (server : ServerLoop) (sockfd : Nat)
    (upCalls : List ServerCall) : Except ServerLoopFault ServerLoop :=
  let id := server.accepted
  let server := server.setConn id ⟨.kConnecting, 0, false, false⟩
  connectEstablished setup
    { server with
      poller := server.poller.setChannel id (Channel.new sockfd)
      connections := Function.update server.connections (setup.names id) (some id)
      accepted := id + 1
      alive := server.alive ++ [id] }
    id upCalls

def removeConnectionInLoop (setup : ServerSetup) (server : ServerLoop) (id : Nat) :
    Except ServerLoopFault ServerLoop := do
  let n := if server.connections (setup.names id) = none then 0 else 1
  let erased := { server with
    connections := Function.update server.connections (setup.names id) none }.note id .erased
  check .assertion (n = 1)
  return erased.queueInLoop (.connectDestroyed id)

def handleClose (setup : ServerSetup) (server : ServerLoop) (id : Nat)
    (downCalls : List ServerCall) : Except ServerLoopFault ServerLoop := do
  check .assertion ((server.conn id).state = .kConnected ∨
    (server.conn id).state = .kDisconnecting)
  let server := (server.note id .handleClose).setState id .kDisconnected
  let server ← server.callPoller (server.poller.disableAll id)
  let server ← (server.note id .down).callAll setup downCalls
  (server.note id .closeCallback).removeConnectionInLoop setup id

def forceCloseInLoop (setup : ServerSetup) (server : ServerLoop) (id : Nat)
    (downCalls : List ServerCall) : Except ServerLoopFault ServerLoop :=
  if (server.conn id).state = .kConnected ∨ (server.conn id).state = .kDisconnecting then
    server.handleClose setup id downCalls
  else .ok server

/-- `EventLoop::removeChannel`. -/
def removeChannel (server : ServerLoop) (id : Nat) : Except ServerLoopFault ServerLoop := do
  match server.phase with
  | .dispatch _ =>
      check .assertion (server.currentActiveChannel = some id ∨ id ∉ server.activeChannels)
  | .poll | .functors => .ok ()
  let server := server.note id (.removed (server.phase = .functors))
  server.callPoller (server.poller.removeChannel id)

def connectDestroyed (setup : ServerSetup) (server : ServerLoop) (id : Nat)
    (downCalls : List ServerCall) : Except ServerLoopFault ServerLoop := do
  let server := server.note id .connectDestroyed
  let server ←
    if (server.conn id).state = .kConnected then do
      let server := server.setState id .kDisconnected
      let server ← server.callPoller (server.poller.disableAll id)
      (server.note id .down).callAll setup downCalls
    else .ok server
  check .assertion (server.channel id).isNoneEvent
  let channel := { server.channel id with addedToLoop := false }
  { server with poller := server.poller.setChannel id channel }.removeChannel id

/-- An error is only logged. -/
def handleRead (setup : ServerSetup) (server : ServerLoop) (id : Nat) (input : EventInput) :
    Except ServerLoopFault ServerLoop :=
  match input.read with
  | .bytes => server.callAll setup input.messageCalls
  | .eof => server.handleClose setup id input.downCalls
  | .failed => .ok server

def handleWrite (setup : ServerSetup) (server : ServerLoop) (id : Nat) (result : WriteResult) :
    Except ServerLoopFault ServerLoop :=
  if (server.channel id).isWriting then
    match result with
    | .failed _ => .ok server
    | .accepted n => do
        let conn := server.conn id
        if 0 < min n conn.outputBuffer then
          let left := conn.outputBuffer - min n conn.outputBuffer
          let server := server.setConn id { conn with outputBuffer := left }
          if left = 0 then
            let server ← server.callPoller (server.poller.disableWriting id)
            return server.queueCallback id setup.writeCompleteCallback .writeComplete
          else
            return server
        else
          return server
  else .ok server

/-- The error callback only logs. -/
def handleEventWithGuard (setup : ServerSetup) (server : ServerLoop) (id : Nat)
    (revents : BitVec 32) (input : EventInput) : Except ServerLoopFault ServerLoop := do
  let server := server.setConn id { server.conn id with eventHandling := true }
  let server ←
    if revents &&& POLLHUP ≠ 0 ∧ revents &&& POLLIN = 0 then
      server.handleClose setup id input.downCalls
    else .ok server
  let server ←
    if revents &&& (POLLIN ||| POLLPRI ||| POLLRDHUP) ≠ 0 then
      server.handleRead setup id input
    else .ok server
  let server ←
    if revents &&& POLLOUT ≠ 0 then server.handleWrite setup id input.write else .ok server
  return server.setConn id { server.conn id with eventHandling := false }

/-- The pointers are raw; `tie_` keeps the connection while its channel is current. -/
def handleEvent (setup : ServerSetup) (server : ServerLoop) (id : Nat) (revents : BitVec 32)
    (input : EventInput) : Except ServerLoopFault ServerLoop := do
  check .dangling (id ∈ server.alive)
  let server ← { server with currentActiveChannel := some id }.handleEventWithGuard setup id revents
    input
  return { server with currentActiveChannel := none }

def runFunctor (setup : ServerSetup) (server : ServerLoop) (calls : List ServerCall) :
    ServerFunctor → Except ServerLoopFault ServerLoop
  | .forceCloseInLoop id => server.forceCloseInLoop setup id calls
  | .connectDestroyed id => server.connectDestroyed setup id calls
  | .callback _ _ => server.callAll setup calls

/-! ### Destructors -/

/-- Who points to a connection: the map of the server, a functor, the guard of `handleEvent`, or the
program. -/
def Referenced (setup : ServerSetup) (server : ServerLoop) (id : Nat) : Prop :=
  server.connections (setup.names id) = some id ∨
    (∃ f ∈ server.queue.inOrder ++ server.called, f.conn = id) ∨
    ((server.conn id).tied ∧ server.currentActiveChannel = some id) ∨ id ∈ server.kept

instance (setup : ServerSetup) (server : ServerLoop) :
    DecidablePred (server.Referenced setup) :=
  fun _ => inferInstanceAs (Decidable (_ ∨ _))

/-- `~StreamConnection` and the `~Channel` of its channel. -/
def destruct (server : ServerLoop) (id : Nat) : Except ServerLoopFault ServerLoop := do
  check .assertion ((server.conn id).state = .kDisconnected)
  check .assertion ((server.conn id).eventHandling = false)
  check .assertion ((server.channel id).addedToLoop = false)
  check .assertion (server.poller.mChannels (server.channel id).fd ≠ some id)
  return { server with alive := server.alive.filter fun other => other ≠ id }.note id .destructed

def destructAll (setup : ServerSetup) (server : ServerLoop) : Except ServerLoopFault ServerLoop :=
  Machine.run destruct server (server.alive.filter fun id => ¬ server.Referenced setup id)

/-! ### The loop -/

/-- What `epoll_wait` returns: channels that the kernel watches, each at most once. -/
def Reports (server : ServerLoop) (active : List (Nat × BitVec 32)) (others : Nat) : Prop :=
  active.length + others ≤ server.eventListSize ∧ (active.map Prod.fst).Nodup ∧
    ∀ p ∈ active, (server.poller.epoll (server.channel p.1).fd).any fun event => event.ptr = p.1

instance (server : ServerLoop) (active : List (Nat × BitVec 32)) (others : Nat) :
    Decidable (server.Reports active others) :=
  inferInstanceAs (Decidable (_ ∧ _))

def poll (server : ServerLoop) (active : List (Nat × BitVec 32)) (others : Nat) :
    Except ServerLoopFault ServerLoop := do
  let numEvents := active.length + others
  check .assertion (numEvents ≤ server.eventListSize)
  return { server with
    phase := .dispatch active
    activeChannels := active.map Prod.fst
    eventListSize :=
      if numEvents = server.eventListSize then server.eventListSize * 2
      else server.eventListSize }

/-- A step that is not possible where the loop is changes nothing, nor does an `accept` of a
descriptor that is open. Objects to which no pointer is left when the step ends are destructed. -/
def step (setup : ServerSetup) (server : ServerLoop) :
    ServerStep → Except ServerLoopFault ServerLoop
  | .poll active others =>
      if server.phase = .poll ∧ server.Reports active others then server.poll active others
      else .ok server
  | .accept fd upCalls =>
      match server.phase with
      | .dispatch _ =>
          if fd ∈ server.alive.map fun id => (server.channel id).fd then .ok server
          else do
            let server ← server.newConnection setup fd upCalls
            server.destructAll setup
      | .poll | .functors => .ok server
  | .handleEvent input =>
      match server.phase with
      | .dispatch ((id, revents) :: active) => do
          let server ← { server with phase := .dispatch active }.handleEvent setup id revents input
          server.destructAll setup
      | .dispatch [] | .poll | .functors => .ok server
  | .swap =>
      .ok (if server.phase = .dispatch [] then
          { server with phase := .functors, queue := server.queue.swapFunctors }
        else server)
  | .functor calls =>
      if server.phase = .functors then
        match server.queue.functors with
        | [] => .ok server
        | f :: functors => do
            let server ← { server with
              queue := { server.queue with functors := functors }
              called := server.called ++ [f] }.runFunctor setup calls f
            server.destructAll setup
      else .ok server
  | .endFunctors =>
      if server.phase = .functors ∧ server.queue.functors = [] then
        { server with phase := .poll, called := [] }.destructAll setup
      else .ok server

end ServerLoop

end ToyBasket
