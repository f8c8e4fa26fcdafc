import Mathlib.Data.List.Count
import Mathlib.Logic.Function.Basic
import ToyBasket.Lib.Machine
import ToyBasket.Net.EventLoop

/-!
# The connector

`Connector.cpp`. Its functions run on the thread of the loop or, where a retry timer fires, on the
thread of the timer manager. A descriptor is the number of the `socket` call that returned it, and a
failed assertion is noted and the code goes on, as it does without assertions.
-/

namespace ToyBasket

open Outcome (check Holds)

/-- What `connect` leaves in `savedErrno`. -/
inductive ConnectErrno where
  | zero
  | EINPROGRESS
  | EINTR
  | EISCONN
  | EAGAIN
  | EADDRINUSE
  | EADDRNOTAVAIL
  | ECONNREFUSED
  | ENETUNREACH
  | EACCES
  | EPERM
  | EAFNOSUPPORT
  | EALREADY
  | EBADF
  | EFAULT
  | ENOTSOCK
  | other (errno : Nat)
deriving DecidableEq, Repr

/-- The errors on which `connect` goes on to `connecting`. -/
def ConnectErrno.underWay : ConnectErrno → Bool
  | .zero | .EINPROGRESS | .EINTR | .EISCONN => true
  | _ => false

/-- What is found when the descriptor becomes writable. -/
structure Completion where
  soError : Nat
  selfConnect : Bool
deriving DecidableEq, Repr

inductive ConnectorState where
  | kDisconnected
  | kConnecting
  | kConnected
deriving DecidableEq, Repr

/-- What `channel_` points to; `registered` is whether the poller knows it. -/
structure ConnectorChannel where
  fd : Nat
  registered : Bool
deriving DecidableEq, Repr

/-- The functors of a client: those of its connector and those of its connections. -/
inductive ClientFunctor where
  | startInLoop
  | stopInLoop
  | resetChannel
  | forceCloseInLoop (fd : Nat)
  | connectDestroyed (fd : Nat)
deriving DecidableEq, Repr

inductive PollerFunction where
  | updateChannel
  | removeChannel
deriving DecidableEq, Repr

/-- A call of the poller and the thread it was made on. -/
structure PollerCall where
  thread : Nat
  function : PollerFunction
  fd : Nat
deriving DecidableEq, Repr

/-- A timer that will call `startInLoop`; `after` counts the functors queued before it. -/
structure RetryTimer where
  delay : Nat
  after : Nat
deriving DecidableEq, Repr

/-- The functions whose assertion has failed. -/
inductive ClientAssertion where
  | startInLoop
  | connecting
  | resetChannel
  | handleWrite
  | removeConnection
deriving DecidableEq, Repr

inductive ConnectorFault where
  | nullChannel
deriving DecidableEq, Repr

/-- `queued` and `ran` count the functors of the loop. `sockets`, `closed` and `handed` record what
became of the descriptors, `calls` those of the poller, and `failed` the assertions. `begun` and
`resets` count the channels made and the runs of `resetChannel`, and `busy` is whether an attempt is
under way or has succeeded. -/
structure Connector where
  connect : Bool
  state : ConnectorState
  channel : Option ConnectorChannel
  retryDelayMs : Nat
  queue : EventLoop ClientFunctor
  queued : Nat
  ran : Nat
  timers : List RetryTimer
  sockets : Nat
  closed : List Nat
  handed : List Nat
  calls : List PollerCall
  failed : List ClientAssertion
  begun : Nat
  resets : Nat
  busy : Bool
deriving DecidableEq, Repr

namespace Connector

def kMaxRetryDelayMs : Nat := 30 * 1000
def kInitRetryDelayMs : Nat := 500

def init : Connector where
  connect := false
  state := .kDisconnected
  channel := none
  retryDelayMs := kInitRetryDelayMs
  queue := EventLoop.init
  queued := 0
  ran := 0
  timers := []
  sockets := 0
  closed := []
  handed := []
  calls := []
  failed := []
  begun := 0
  resets := 0
  busy := false

def queueInLoop (c : Connector) (cb : ClientFunctor) : Connector :=
  { c with queue := c.queue.queueInLoop cb, queued := c.queued + 1 }

def assert (c : Connector) (assertion : ClientAssertion) (holds : Bool) : Connector :=
  if holds then c else { c with failed := c.failed ++ [assertion] }

def poller (c : Connector) (thread : Nat) (function : PollerFunction) (fd : Nat) : Connector :=
  { c with calls := c.calls ++ [⟨thread, function, fd⟩] }

def close (c : Connector) (sockfd : Nat) : Connector := { c with closed := c.closed ++ [sockfd] }

/-- `addTimer` and the doubling of `retryDelayMs_` after it are one step. -/
def retry (c : Connector) (sockfd : Nat) : Connector :=
  let c := { c.close sockfd with state := .kDisconnected, busy := false }
  if c.connect then
    { c with
      timers := c.timers ++ [⟨c.retryDelayMs, c.queued⟩]
      retryDelayMs := min (c.retryDelayMs * 2) kMaxRetryDelayMs }
  else c

def connecting (c : Connector) (thread sockfd : Nat) : Connector :=
  let c := { c with state := .kConnecting, busy := true, begun := c.begun + 1 }
  let c := c.assert .connecting c.channel.isNone
  { c with channel := some ⟨sockfd, true⟩ }.poller thread .updateChannel sockfd

def connectTo (c : Connector) (thread : Nat) (errno : ConnectErrno) : Connector :=
  let sockfd := c.sockets
  let c := { c with sockets := c.sockets + 1 }
  match errno with
  | .zero | .EINPROGRESS | .EINTR | .EISCONN => c.connecting thread sockfd
  | .EAGAIN | .EADDRINUSE | .EADDRNOTAVAIL | .ECONNREFUSED | .ENETUNREACH => c.retry sockfd
  | .EACCES | .EPERM | .EAFNOSUPPORT | .EALREADY | .EBADF | .EFAULT | .ENOTSOCK =>
      c.close sockfd
  | .other _ => c.close sockfd

def startInLoop (c : Connector) (thread : Nat) (errno : ConnectErrno) : Connector :=
  let c := c.assert .startInLoop (c.state = .kDisconnected)
  if c.connect then c.connectTo thread errno else c

/-- The loop is on thread 0. -/
def start (c : Connector) (thread : Nat) (errno : ConnectErrno) : Connector :=
  let c := { c with connect := true }
  if thread = 0 then c.startInLoop thread errno else c.queueInLoop .startInLoop

def stop (c : Connector) : Connector := { c with connect := false }.queueInLoop .stopInLoop

/-- `disableAll` and `remove`, and the functor that will reset the channel. -/
def removeAndResetChannel (c : Connector) (thread : Nat) :
    Except ConnectorFault (Nat × Connector) :=
  match c.channel with
  | none => .error .nullChannel
  | some channel =>
      let c := { c with channel := some { channel with registered := false } }
      let c := (c.poller thread .updateChannel channel.fd).poller thread .removeChannel channel.fd
      .ok (channel.fd, c.queueInLoop .resetChannel)

def stopInLoop (c : Connector) (thread : Nat) : Except ConnectorFault Connector := do
  if c.state = .kConnecting then
    let (sockfd, c) ← { c with state := .kDisconnected }.removeAndResetChannel thread
    return c.retry sockfd
  else
    return c

/-- The destructor of the channel asserts that the poller does not know it. -/
def resetChannel (c : Connector) : Connector :=
  let c := c.assert .resetChannel (c.channel.all fun channel => !channel.registered)
  { c with channel := none, resets := c.resets + 1 }

def restart (c : Connector) (thread : Nat) (errno : ConnectErrno) : Connector :=
  let c := { c with
    state := .kDisconnected
    busy := false
    retryDelayMs := kInitRetryDelayMs
    connect := true }
  c.startInLoop thread errno

/-- The descriptor is the one that `newConnectionCallback_` is called with. -/
def handleWrite (c : Connector) (thread : Nat) (completion : Completion) :
    Except ConnectorFault (Connector × Option Nat) := do
  if c.state = .kConnecting then
    let (sockfd, c) ← c.removeAndResetChannel thread
    if completion.soError ≠ 0 then
      return (c.retry sockfd, none)
    else if completion.selfConnect then
      return (c.retry sockfd, none)
    else
      let c := { c with state := .kConnected }
      if c.connect then
        return ({ c with handed := c.handed ++ [sockfd] }, some sockfd)
      else
        return (c.close sockfd, none)
  else
    return (c.assert .handleWrite (c.state = .kDisconnected), none)

def handleError (c : Connector) (thread : Nat) : Except ConnectorFault Connector := do
  if c.state = .kConnecting then
    let (sockfd, c) ← c.removeAndResetChannel thread
    return c.retry sockfd
  else
    return c

variable {c : Connector} {thread sockfd : Nat} {errno : ConnectErrno}

theorem assert_of_true {assertion : ClientAssertion} {holds : Bool} (h : holds = true) :
    c.assert assertion holds = c := if_pos h

/-- Of the fields an assertion changes one. -/
theorem assert_eq (assertion : ClientAssertion) (holds : Bool) : c.assert assertion holds =
    { c with failed := c.failed ++ if holds then [] else [assertion] } := by
  cases holds <;> simp [assert]

@[simp]
theorem assert_connect (assertion : ClientAssertion) (holds : Bool) :
    (c.assert assertion holds).connect = c.connect := by
  rw [assert_eq]

@[simp]
theorem assert_sockets (assertion : ClientAssertion) (holds : Bool) :
    (c.assert assertion holds).sockets = c.sockets := by
  rw [assert_eq]

theorem connectTo_of_underWay (h : errno.underWay) :
    c.connectTo thread errno =
      { c with sockets := c.sockets + 1 }.connecting thread c.sockets := by
  cases errno <;> first | rfl | cases h

theorem connectTo_of_not_underWay (c : Connector) (thread : Nat) (h : ¬ errno.underWay) :
    c.connectTo thread errno = { c with sockets := c.sockets + 1 }.retry c.sockets ∨
      c.connectTo thread errno = { c with sockets := c.sockets + 1 }.close c.sockets := by
  cases errno <;> first | exact .inl rfl | exact .inr rfl | exact (h rfl).elim

end Connector

end ToyBasket
