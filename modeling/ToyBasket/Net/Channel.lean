import Mathlib.Data.BitVec

/-!
# The channels of an event loop

`Channel.h` and `Channel.cpp`: the events that a channel waits for, what the poller notes in it, and
the callbacks that a mask of received events calls.
-/

namespace ToyBasket

def POLLIN : BitVec 32 := 0x1
def POLLPRI : BitVec 32 := 0x2
def POLLOUT : BitVec 32 := 0x4
def POLLERR : BitVec 32 := 0x8
def POLLHUP : BitVec 32 := 0x10
def POLLNVAL : BitVec 32 := 0x20
def POLLRDHUP : BitVec 32 := 0x2000

def kNoneEvent : BitVec 32 := 0
def kReadEvent : BitVec 32 := POLLIN ||| POLLPRI
def kWriteEvent : BitVec 32 := POLLOUT

/-- The `index_` of a channel. -/
inductive Index where
  | kNew
  | kAdded
  | kDeleted
deriving DecidableEq, Repr

/-- What `readFd` finds: some bytes, the end, or an error. -/
inductive ReadResult where
  | bytes
  | eof
  | failed
deriving DecidableEq, Repr

structure Channel where
  fd : Nat
  events : BitVec 32
  index : Index
  addedToLoop : Bool
deriving DecidableEq, Repr

namespace Channel

def new (fd : Nat) : Channel where
  fd := fd
  events := kNoneEvent
  index := .kNew
  addedToLoop := false

def isNoneEvent (channel : Channel) : Bool := channel.events = kNoneEvent

def isWriting (channel : Channel) : Bool := channel.events &&& kWriteEvent ≠ 0

def isReading (channel : Channel) : Bool := channel.events &&& kReadEvent ≠ 0

end Channel

end ToyBasket
