import ToyBasket.Net.Output
import ToyBasket.Net.Poller
import ToyBasket.Net.StreamConnection

/-!
# Destroying a connection

`connectDestroyed` takes the channel of a connection out of the poller, for good: the connection may
still be referenced, and its channel is freed with it. It is queued by the owner after
`handleClose`, or called by `~StreamServer` in whatever state the connection is. The poller is that
of the one channel, whose descriptor no other channel of the loop has.
-/

namespace ToyBasket

open Outcome (check check_of_true of_check bind_eq_ok ok_bind)
open Machine

/-- Where the loop is: running functors, or handling a batch of events in which the channel is not,
still waits, is the current one, or was handled. -/
inductive LoopPlace where
  | functors
  | unlisted
  | waiting
  | current
  | handled
deriving DecidableEq, Repr

/-- `outputBuffer` is the size of the buffer. `owned` tells that the server has the connection in
its map, `queued` counts the `connectDestroyed` in the loop, `destroying` tells that the loop is in
its callback, `destroyed` that it has returned, and `aborted` that an assertion in it has failed. -/
structure OwnedConnection where
  state : ConnectionState
  reading : Bool
  outputBuffer : Nat
  poller : EPollPoller Unit
  place : LoopPlace
  owned : Bool
  queued : Nat
  destroying : Bool
  destroyed : Bool
  aborted : Bool

namespace OwnedConnection

/-- `setDisconnecting` is the write of a `shutdown` or `forceClose` of any thread, whose test came
earlier. `deleteServer` is `~StreamServer`, and `remove` what `connectDestroyed` does after its
callback. -/
inductive Event where
  | connectEstablished
  | setDisconnecting
  | sendInLoop (len : Nat) (result : WriteResult)
  | shutdownInLoop
  | startReadInLoop
  | stopReadInLoop
  | forceCloseInLoop
  | connectDestroyed
  | deleteServer
  | remove
  | poll (listed : Bool)
  | handleEvent
  | handleClose
  | handleWrite (result : WriteResult)
  | nextChannel
  | doPendingFunctors
deriving DecidableEq, Repr

def init (fd : Nat) : OwnedConnection where
  state := .kConnecting
  reading := true
  outputBuffer := 0
  poller := EPollPoller.init fun _ => fd
  place := .functors
  owned := false
  queued := 0
  destroying := false
  destroyed := false
  aborted := false

def channel (conn : OwnedConnection) : Channel := conn.poller.channel ()

/-- A call on `channel_` that changes its events. -/
def changeEvents (conn : OwnedConnection) (change : BitVec 32 → BitVec 32) :
    Except PollerFault OwnedConnection := do
  let poller ← conn.poller.changeEvents () change
  return { conn with poller := poller }

def enableReading (conn : OwnedConnection) : Except PollerFault OwnedConnection :=
  conn.changeEvents fun events => events ||| kReadEvent

def disableReading (conn : OwnedConnection) : Except PollerFault OwnedConnection :=
  conn.changeEvents fun events => events &&& ~~~kReadEvent

def enableWriting (conn : OwnedConnection) : Except PollerFault OwnedConnection :=
  conn.changeEvents fun events => events ||| kWriteEvent

def disableWriting (conn : OwnedConnection) : Except PollerFault OwnedConnection :=
  conn.changeEvents fun events => events &&& ~~~kWriteEvent

def disableAll (conn : OwnedConnection) : Except PollerFault OwnedConnection :=
  conn.changeEvents fun _ => kNoneEvent

def connectEstablished (conn : OwnedConnection) : Except PollerFault OwnedConnection :=
  enableReading { conn with state := .kConnected, owned := true }

/-- `nwrote` and `faultError` of `sendInLoop`. -/
def writeDirectly (conn : OwnedConnection) (len : Nat) (result : WriteResult) : Nat × Bool :=
  if conn.channel.isWriting = false ∧ conn.outputBuffer = 0 then
    match result with
    | .accepted n => (min n len, false)
    | .failed errno => (0, errno = .pipe ∨ errno = .connReset)
  else (0, false)

def sendInLoop (conn : OwnedConnection) (len : Nat) (result : WriteResult) :
    Except PollerFault OwnedConnection :=
  if conn.state = .kDisconnected then .ok conn
  else
    let (nwrote, faultError) := conn.writeDirectly len result
    let remaining := len - nwrote
    if faultError = false ∧ 0 < remaining then
      let conn := { conn with outputBuffer := conn.outputBuffer + remaining }
      if conn.channel.isWriting then .ok conn else conn.enableWriting
    else .ok conn

def startReadInLoop (conn : OwnedConnection) : Except PollerFault OwnedConnection :=
  if conn.reading = false ∨ conn.channel.isReading = false then do
    let conn ← conn.enableReading
    return { conn with reading := true }
  else .ok conn

def stopReadInLoop (conn : OwnedConnection) : Except PollerFault OwnedConnection :=
  if conn.reading ∨ conn.channel.isReading then do
    let conn ← conn.disableReading
    return { conn with reading := false }
  else .ok conn

/-- `closeCallback_` takes the connection from its owner, which queues `connectDestroyed`. -/
def handleClose (conn : OwnedConnection) : Except PollerFault OwnedConnection := do
  check .assertion (conn.state = .kConnected ∨ conn.state = .kDisconnecting)
  let conn ← { conn with state := .kDisconnected }.disableAll
  return { conn with owned := false, queued := conn.queued + 1 }

def forceCloseInLoop (conn : OwnedConnection) : Except PollerFault OwnedConnection :=
  if conn.state = .kConnected ∨ conn.state = .kDisconnecting then conn.handleClose else .ok conn

def handleWrite (conn : OwnedConnection) : WriteResult → Except PollerFault OwnedConnection
  | .failed _ => .ok conn
  | .accepted n =>
      let n := min n conn.outputBuffer
      if conn.channel.isWriting ∧ 0 < n then
        let conn := { conn with outputBuffer := conn.outputBuffer - n }
        if conn.outputBuffer = 0 then conn.disableWriting else .ok conn
      else .ok conn

/-- `channel_->remove()`, with the assertion of `EventLoop::removeChannel`. -/
def remove (conn : OwnedConnection) : OwnedConnection :=
  let removed : Except PollerFault (EPollPoller Unit) := do
    check .assertion (conn.place ≠ .waiting ∧ conn.place ≠ .handled)
    conn.poller.remove ()
  match removed with
  | .ok poller => { conn with poller := poller, destroying := false, destroyed := true }
  | .error _ => { conn with aborted := true }

/-- Up to the callback, if there is one. -/
def connectDestroyed (conn : OwnedConnection) : Except PollerFault OwnedConnection :=
  if conn.state = .kConnected then
    disableAll { conn with state := .kDisconnected, destroying := true }
  else .ok conn.remove

/-- What can happen. The calls of users reach the loop at any time, also from its callbacks; while
the loop is in the callback of `connectDestroyed` it does nothing else. -/
def Enabled (conn : OwnedConnection) : Event → Prop
  | .connectEstablished => conn.state = .kConnecting
  | .setDisconnecting => conn.state ≠ .kConnecting
  | .sendInLoop _ _ => conn.state ≠ .kConnecting
  | .shutdownInLoop => conn.state ≠ .kConnecting
  | .startReadInLoop => conn.state ≠ .kConnecting
  | .stopReadInLoop => conn.state ≠ .kConnecting
  | .forceCloseInLoop => conn.destroying = false ∧ conn.place = .functors
  | .connectDestroyed => conn.destroying = false ∧ conn.place = .functors ∧ 0 < conn.queued
  | .deleteServer => conn.destroying = false ∧ conn.owned
  | .remove => conn.destroying
  | .poll listed => conn.destroying = false ∧ conn.place = .functors ∧
      (listed → conn.poller.epoll conn.channel.fd ≠ none)
  | .handleEvent => conn.destroying = false ∧ conn.place = .waiting
  | .handleClose => conn.destroying = false ∧ conn.place = .current
  | .handleWrite _ => conn.destroying = false ∧ conn.place = .current
  | .nextChannel => conn.destroying = false ∧ conn.place = .current
  | .doPendingFunctors =>
      conn.destroying = false ∧ (conn.place = .unlisted ∨ conn.place = .handled)

instance (conn : OwnedConnection) (event : Event) : Decidable (conn.Enabled event) := by
  cases event <;> unfold Enabled <;> infer_instance

def act (conn : OwnedConnection) : Event → Except PollerFault OwnedConnection
  | .connectEstablished => conn.connectEstablished
  | .setDisconnecting => .ok { conn with state := .kDisconnecting }
  | .sendInLoop len result => conn.sendInLoop len result
  | .shutdownInLoop => .ok conn
  | .startReadInLoop => conn.startReadInLoop
  | .stopReadInLoop => conn.stopReadInLoop
  | .forceCloseInLoop => conn.forceCloseInLoop
  | .connectDestroyed => connectDestroyed { conn with queued := conn.queued - 1 }
  | .deleteServer => connectDestroyed { conn with owned := false }
  | .remove => .ok conn.remove
  | .poll listed => .ok { conn with place := if listed then .waiting else .unlisted }
  | .handleEvent => .ok { conn with place := .current }
  | .handleClose => conn.handleClose
  | .handleWrite result => conn.handleWrite result
  | .nextChannel => .ok { conn with place := .handled }
  | .doPendingFunctors => .ok { conn with place := .functors }

def step (conn : OwnedConnection) (event : Event) : Except PollerFault OwnedConnection :=
  if conn.Enabled event then conn.act event else .ok conn

/-- No assertion of `connectDestroyed` has failed, and since it returned the connection is closed
and the poller does not know its channel. -/
structure Destroyed (conn : OwnedConnection) : Prop where
  asserted : conn.aborted = false
  complete : conn.destroyed → conn.state = .kDisconnected ∧ conn.channel.events = kNoneEvent ∧
    conn.poller.mChannels conn.channel.fd = none ∧ conn.poller.epoll conn.channel.fd = none

/-- The connection is closed, its channel waits for nothing and is one that the poller knows, and
the loop is not about to come to it or past it in a batch. -/
structure Removable (conn : OwnedConnection) : Prop where
  state : conn.state = .kDisconnected
  events : conn.channel.events = kNoneEvent
  index : conn.channel.index ≠ .kNew
  place : conn.place ≠ .waiting ∧ conn.place ≠ .handled

/-- What must not happen otherwise, if it can happen. -/
def Allowed (conn : OwnedConnection) : Event → Prop
  | .connectDestroyed => conn.state = .kConnected ∨ conn.Removable
  | .deleteServer => conn.state = .kConnected ∨ conn.Removable
  | .remove => conn.Removable
  | .setDisconnecting => conn.destroyed = false
  | .startReadInLoop => conn.destroyed = false
  | .stopReadInLoop => conn.destroyed → conn.reading = false
  | _ => True

def Good (conn : OwnedConnection) (event : Event) : Prop := conn.Enabled event → conn.Allowed event

/-- As long as all is good, a connection that was destroyed is as `connectDestroyed` left it. -/
structure Inv (conn : OwnedConnection) : Prop where
  inStep : conn.poller.InStep
  asserted : conn.aborted = false
  left : conn.destroyed → conn.state = .kDisconnected ∧ conn.channel.events = kNoneEvent ∧
    conn.channel.index = .kNew

theorem inv_init (fd : Nat) : Inv (init fd) where
  inStep := EPollPoller.inStep_init _
  asserted := rfl
  left := nofun

section Step

variable {conn conn' : OwnedConnection}

theorem Removable.of_same (h : Removable conn) (hpoller : conn'.poller = conn.poller)
    (hstate : conn'.state = conn.state) (hplace : conn'.place = conn.place) : Removable conn' where
  state := hstate.trans h.state
  events := by
    rw [channel, hpoller]
    exact h.events
  index := by
    rw [channel, hpoller]
    exact h.index
  place := by
    rw [hplace]
    exact h.place

theorem ownFd (poller : EPollPoller Unit) : poller.OwnFd () := fun _ _ _ => rfl

/-- The poller knows the channel by its descriptor. -/
theorem index_eq_kNew_iff (h : conn.poller.InStep) : conn.channel.index = .kNew ↔
    conn.poller.mChannels conn.channel.fd = none ∧ conn.poller.epoll conn.channel.fd = none := by
  constructor
  · intro hindex
    exact ⟨h.mChannels_eq_none (ownFd _) hindex, h.epoll_eq_none (ownFd _) (by
      rw [channel] at hindex
      simp [hindex])⟩
  · rintro ⟨hnone, -⟩
    by_contra hindex
    have hsome := h.mChannels_eq_some hindex
    rw [channel] at hnone
    rw [hnone] at hsome
    cases hsome

theorem Inv.destroyed (h : Inv conn) : Destroyed conn where
  asserted := h.asserted
  complete := by
    intro hdestroyed
    obtain ⟨hstate, hevents, hindex⟩ := h.left hdestroyed
    exact ⟨hstate, hevents, (index_eq_kNew_iff h.inStep).mp hindex⟩

theorem changeEvents_eq_ok {change : BitVec 32 → BitVec 32} (h : conn.poller.InStep)
    (hnext : conn.changeEvents change = .ok conn') :
    ∃ poller, conn' = { conn with poller := poller } ∧ poller.InStep ∧
      poller.channel () = EPollPoller.updated conn.channel (change conn.channel.events) := by
  have hrun := EPollPoller.changeEvents_holds h (ownFd conn.poller) change
  obtain ⟨poller, hpoller, hafter⟩ := bind_eq_ok.mp hnext
  have hleaves := hrun.of_ok hpoller
  cases hafter
  refine ⟨poller, rfl, hleaves.inStep, ?_⟩
  rw [hleaves.channel, Function.update_self]
  rfl

theorem index_updated_ne (channel : Channel) (events : BitVec 32) :
    (EPollPoller.updated channel events).index ≠ .kNew := by
  simp only [EPollPoller.updated]
  split
  · simp
  · simp

/-! ### The other calls -/

/-- A step that is none of `connectDestroyed`. -/
structure Keeps (conn conn' : OwnedConnection) : Prop where
  inStep : conn'.poller.InStep
  aborted : conn'.aborted = conn.aborted
  destroyed : conn'.destroyed = conn.destroyed

theorem Keeps.of_changeEvents {change : BitVec 32 → BitVec 32}
    (hnext : conn.changeEvents change = .ok conn') (h : conn.poller.InStep) :
    Keeps conn conn' := by
  obtain ⟨poller, rfl, hinStep, -⟩ := changeEvents_eq_ok h hnext
  exact ⟨hinStep, rfl, rfl⟩

theorem keeps_sendInLoop {len : Nat} {result : WriteResult} (h : conn.poller.InStep)
    (hnext : conn.sendInLoop len result = .ok conn') : Keeps conn conn' := by
  unfold sendInLoop at hnext
  split at hnext
  · cases hnext
    exact ⟨h, rfl, rfl⟩
  · simp only at hnext
    split at hnext
    · split at hnext
      · cases hnext
        exact ⟨h, rfl, rfl⟩
      · obtain ⟨hinStep, haborted, hdestroyed⟩ := Keeps.of_changeEvents hnext h
        exact ⟨hinStep, haborted, hdestroyed⟩
    · cases hnext
      exact ⟨h, rfl, rfl⟩

theorem keeps_startReadInLoop (h : conn.poller.InStep)
    (hnext : conn.startReadInLoop = .ok conn') : Keeps conn conn' := by
  unfold startReadInLoop at hnext
  split at hnext
  · obtain ⟨between, henable, hafter⟩ := bind_eq_ok.mp hnext
    cases hafter
    obtain ⟨hinStep, haborted, hdestroyed⟩ := Keeps.of_changeEvents henable h
    exact ⟨hinStep, haborted, hdestroyed⟩
  · cases hnext
    exact ⟨h, rfl, rfl⟩

theorem keeps_stopReadInLoop (h : conn.poller.InStep)
    (hnext : conn.stopReadInLoop = .ok conn') : Keeps conn conn' := by
  unfold stopReadInLoop at hnext
  split at hnext
  · obtain ⟨between, hdisable, hafter⟩ := bind_eq_ok.mp hnext
    cases hafter
    obtain ⟨hinStep, haborted, hdestroyed⟩ := Keeps.of_changeEvents hdisable h
    exact ⟨hinStep, haborted, hdestroyed⟩
  · cases hnext
    exact ⟨h, rfl, rfl⟩

theorem handleClose_eq_ok (h : conn.poller.InStep) (hnext : conn.handleClose = .ok conn') :
    conn.state ≠ .kDisconnected ∧ Keeps conn conn' := by
  obtain ⟨_, hassert, hrest⟩ := bind_eq_ok.mp hnext
  obtain ⟨between, hdisable, hafter⟩ := bind_eq_ok.mp hrest
  cases hafter
  have hkeeps := Keeps.of_changeEvents hdisable h
  refine ⟨?_, hkeeps.inStep, hkeeps.aborted, hkeeps.destroyed⟩
  intro hstate
  have hopen := of_check hassert
  simp [hstate] at hopen

theorem keeps_forceCloseInLoop (h : conn.poller.InStep)
    (hnext : conn.forceCloseInLoop = .ok conn') : Keeps conn conn' := by
  unfold forceCloseInLoop at hnext
  split at hnext
  · exact (handleClose_eq_ok h hnext).2
  · cases hnext
    exact ⟨h, rfl, rfl⟩

theorem keeps_handleWrite {result : WriteResult} (h : conn.poller.InStep)
    (hnext : conn.handleWrite result = .ok conn') : Keeps conn conn' := by
  cases result with
  | failed errno =>
      cases hnext
      exact ⟨h, rfl, rfl⟩
  | accepted n =>
      simp only [handleWrite] at hnext
      split at hnext
      · split at hnext
        · obtain ⟨hinStep, haborted, hdestroyed⟩ := Keeps.of_changeEvents hnext h
          exact ⟨hinStep, haborted, hdestroyed⟩
        · cases hnext
          exact ⟨h, rfl, rfl⟩
      · cases hnext
        exact ⟨h, rfl, rfl⟩

/-- The calls that are part of `connectDestroyed`. -/
def Event.Destroys : Event → Prop
  | .connectDestroyed => True
  | .deleteServer => True
  | .remove => True
  | _ => False

theorem keeps_act {event : Event} (h : conn.poller.InStep) (hevent : ¬ event.Destroys)
    (hnext : conn.act event = .ok conn') : Keeps conn conn' := by
  cases event with
  | connectDestroyed | deleteServer | remove => exact absurd trivial hevent
  | connectEstablished =>
      have hkeeps := Keeps.of_changeEvents hnext h
      exact ⟨hkeeps.inStep, hkeeps.aborted, hkeeps.destroyed⟩
  | sendInLoop len result => exact keeps_sendInLoop h hnext
  | startReadInLoop => exact keeps_startReadInLoop h hnext
  | stopReadInLoop => exact keeps_stopReadInLoop h hnext
  | forceCloseInLoop => exact keeps_forceCloseInLoop h hnext
  | handleClose => exact (handleClose_eq_ok h hnext).2
  | handleWrite result => exact keeps_handleWrite h hnext
  | setDisconnecting | shutdownInLoop | poll listed | handleEvent | nextChannel
  | doPendingFunctors =>
      cases hnext
      exact ⟨h, rfl, rfl⟩

/-- A call on a connection that was destroyed does nothing to it, if it is allowed. -/
theorem act_of_destroyed {event : Event} (h : conn.poller.InStep)
    (hstate : conn.state = .kDisconnected) (hevents : conn.channel.events = kNoneEvent)
    (hdestroyed : conn.destroyed) (hevent : ¬ event.Destroys) (henabled : conn.Enabled event)
    (hallowed : conn.Allowed event) (hnext : conn.act event = .ok conn') :
    conn'.state = conn.state ∧ conn'.channel = conn.channel := by
  have hreading : conn.channel.isReading = false := by simp [Channel.isReading, hevents, kNoneEvent]
  have hwriting : conn.channel.isWriting = false := by simp [Channel.isWriting, hevents, kNoneEvent]
  cases event with
  | connectDestroyed | deleteServer | remove => exact absurd trivial hevent
  | connectEstablished =>
      simp only [Enabled, hstate] at henabled
      cases henabled
  | setDisconnecting =>
      simp only [Allowed, hdestroyed] at hallowed
      cases hallowed
  | sendInLoop len result =>
      simp only [act, sendInLoop, if_pos hstate] at hnext
      cases hnext
      exact ⟨rfl, rfl⟩
  | startReadInLoop =>
      simp only [Allowed, hdestroyed] at hallowed
      cases hallowed
  | stopReadInLoop =>
      have hnot := hallowed hdestroyed
      simp only [act, stopReadInLoop, hnot, hreading, Bool.false_eq_true, or_self, if_false]
        at hnext
      cases hnext
      exact ⟨rfl, rfl⟩
  | forceCloseInLoop =>
      simp only [act, forceCloseInLoop, hstate, reduceCtorEq, or_self, if_false] at hnext
      cases hnext
      exact ⟨rfl, rfl⟩
  | handleClose => exact absurd hstate (handleClose_eq_ok h hnext).1
  | handleWrite result =>
      cases result with
      | failed errno =>
          cases hnext
          exact ⟨rfl, rfl⟩
      | accepted n =>
          simp only [act, handleWrite, hwriting, Bool.false_eq_true, false_and, if_false] at hnext
          cases hnext
          exact ⟨rfl, rfl⟩
  | shutdownInLoop | poll listed | handleEvent | nextChannel | doPendingFunctors =>
      cases hnext
      exact ⟨rfl, rfl⟩

/-! ### connectDestroyed -/

theorem inv_remove (h : conn.poller.InStep) (haborted : conn.aborted = false)
    (hremovable : conn.Removable) : Inv conn.remove := by
  have hrun := EPollPoller.remove_holds h (ownFd conn.poller) hremovable.events hremovable.index
  obtain ⟨poller, hpoller, hleaves⟩ := hrun.returns
  have hchannel : poller.channel () =
      { conn.channel with index := .kNew, addedToLoop := false } := by
    rw [hleaves.channel, Function.update_self]
    rfl
  unfold remove
  simp only [check_of_true hremovable.place, ok_bind, hpoller]
  refine ⟨hleaves.inStep, haborted, fun _ => ⟨hremovable.state, ?_, ?_⟩⟩
  · simp only [channel, hchannel]
    exact hremovable.events
  · simp only [channel, hchannel]

/-- What the assertions of `remove` ask for. -/
theorem removable_of_destroyed (h : conn.poller.InStep) (hdestroyed : Destroyed conn.remove) :
    conn.Removable := by
  unfold remove at hdestroyed
  simp only at hdestroyed
  split at hdestroyed
  · rename_i poller hremoved
    have hstate := (hdestroyed.complete rfl).1
    obtain ⟨_, hplace, hremove⟩ := bind_eq_ok.mp hremoved
    obtain ⟨hnone, hknown⟩ := EPollPoller.of_remove_eq_ok hremove
    refine ⟨hstate, of_decide_eq_true hnone, ?_, of_check hplace⟩
    intro hindex
    exact hknown (h.mChannels_eq_none (ownFd _) hindex)
  · have haborted := hdestroyed.asserted
    cases haborted

theorem inv_connectDestroyed (hnext : conn.connectDestroyed = .ok conn') (h : conn.poller.InStep)
    (haborted : conn.aborted = false) (hdestroyed : conn.destroyed = false)
    (hallowed : conn.state = .kConnected ∨ conn.Removable) : Inv conn' := by
  unfold connectDestroyed at hnext
  split at hnext
  · have hkeeps := Keeps.of_changeEvents hnext h
    refine ⟨hkeeps.inStep, hkeeps.aborted.trans haborted, ?_⟩
    intro hcontra
    rw [hkeeps.destroyed, hdestroyed] at hcontra
    cases hcontra
  · rename_i hstate
    cases hnext
    exact inv_remove h haborted (hallowed.resolve_left hstate)

/-- A connection that was destroyed cannot be removed again. -/
theorem Inv.not_removable (h : Inv conn) (hremovable : conn.Removable) :
    conn.destroyed = false := by
  rw [Bool.eq_false_iff]
  intro hdestroyed
  exact hremovable.index (h.left hdestroyed).2.2

theorem Inv.not_destroyed (h : Inv conn) (hallowed : conn.state = .kConnected ∨ conn.Removable) :
    conn.destroyed = false := by
  obtain hstate | hremovable := hallowed
  · rw [Bool.eq_false_iff]
    intro hdestroyed
    rw [(h.left hdestroyed).1] at hstate
    cases hstate
  · exact h.not_removable hremovable

theorem inv_step {event : Event} (h : Inv conn) (hgood : conn.Good event)
    (hnext : step conn event = .ok conn') : Inv conn' := by
  unfold step at hnext
  split at hnext
  · rename_i henabled
    have hallowed := hgood henabled
    cases event with
    | connectDestroyed =>
        have hremovable : conn.state = .kConnected ∨
            Removable { conn with queued := conn.queued - 1 } :=
          hallowed.imp id fun hr => hr.of_same rfl rfl rfl
        exact inv_connectDestroyed hnext h.inStep h.asserted (h.not_destroyed hallowed) hremovable
    | deleteServer =>
        have hremovable : conn.state = .kConnected ∨ Removable { conn with owned := false } :=
          hallowed.imp id fun hr => hr.of_same rfl rfl rfl
        exact inv_connectDestroyed hnext h.inStep h.asserted (h.not_destroyed hallowed) hremovable
    | remove =>
        cases hnext
        exact inv_remove h.inStep h.asserted hallowed
    | _ =>
        have hkeeps := keeps_act h.inStep (by exact id) hnext
        refine ⟨hkeeps.inStep, hkeeps.aborted.trans h.asserted, ?_⟩
        intro hcontra
        rw [hkeeps.destroyed] at hcontra
        obtain ⟨hstate, hevents, hindex⟩ := h.left hcontra
        obtain ⟨hstate', hchannel⟩ := act_of_destroyed h.inStep hstate hevents hcontra (by exact id)
          henabled hallowed hnext
        rw [hstate', hchannel]
        exact ⟨hstate, hevents, hindex⟩
  · cases hnext
    exact h

/-! ### What is not allowed -/

theorem allowed_of_connectDestroyed (hnext : conn.connectDestroyed = .ok conn')
    (h : conn.poller.InStep) (hdestroyed : Destroyed conn') :
    conn.state = .kConnected ∨ conn.Removable := by
  unfold connectDestroyed at hnext
  split at hnext
  · rename_i hstate
    exact .inl hstate
  · cases hnext
    exact .inr (removable_of_destroyed h hdestroyed)

/-- A change of the events makes the channel known. -/
theorem not_destroyed_of_changeEvents {change : BitVec 32 → BitVec 32}
    (hnext : conn.changeEvents change = .ok conn') (h : conn.poller.InStep)
    (hdestroyed : Destroyed conn') : conn.destroyed = false := by
  obtain ⟨poller, rfl, hinStep, hchannel⟩ := changeEvents_eq_ok h hnext
  rw [Bool.eq_false_iff]
  intro hbefore
  have hunknown := (hdestroyed.complete hbefore).2.2
  have hindex := (index_eq_kNew_iff hinStep).mpr hunknown
  simp only [channel] at hindex
  rw [hchannel] at hindex
  exact index_updated_ne _ _ hindex

/-- The same with the `reading_` that is written after it. -/
theorem not_destroyed_of_bind {change : BitVec 32 → BitVec 32} {reading : Bool}
    (hnext : (do
      let conn ← conn.changeEvents change
      return { conn with reading := reading }) = .ok conn')
    (h : conn.poller.InStep) (hdestroyed : Destroyed conn') : conn.destroyed = false := by
  obtain ⟨between, hchange, hafter⟩ := bind_eq_ok.mp hnext
  cases hafter
  have hbetween : Destroyed between := ⟨hdestroyed.asserted, hdestroyed.complete⟩
  exact not_destroyed_of_changeEvents hchange h hbetween

theorem allowed_of_destroyed {event : Event} (h : Inv conn) (hnext : conn.act event = .ok conn')
    (hdestroyed : Destroyed conn') : conn.Allowed event := by
  cases event with
  | connectDestroyed =>
      have hremovable := allowed_of_connectDestroyed hnext h.inStep hdestroyed
      exact hremovable.imp id fun hr => hr.of_same rfl rfl rfl
  | deleteServer =>
      have hremovable := allowed_of_connectDestroyed hnext h.inStep hdestroyed
      exact hremovable.imp id fun hr => hr.of_same rfl rfl rfl
  | remove =>
      cases hnext
      exact removable_of_destroyed h.inStep hdestroyed
  | setDisconnecting =>
      cases hnext
      simp only [Allowed]
      rw [Bool.eq_false_iff]
      intro hbefore
      have hstate := (hdestroyed.complete hbefore).1
      cases hstate
  | startReadInLoop =>
      simp only [Allowed]
      rw [Bool.eq_false_iff]
      intro hbefore
      have hreading : conn.channel.isReading = false := by
        simp [Channel.isReading, (h.left hbefore).2.1, kNoneEvent]
      simp only [act, startReadInLoop, hreading, or_true, if_true] at hnext
      have hnot := not_destroyed_of_bind hnext h.inStep hdestroyed
      rw [hbefore] at hnot
      cases hnot
  | stopReadInLoop =>
      simp only [Allowed]
      intro hbefore
      rw [Bool.eq_false_iff]
      intro hreading
      simp only [act, stopReadInLoop, hreading, true_or, if_true] at hnext
      have hnot := not_destroyed_of_bind hnext h.inStep hdestroyed
      rw [hbefore] at hnot
      cases hnot
  | _ => trivial

theorem good_of_destroyed {event : Event} (h : Inv conn) (hnext : step conn event = .ok conn')
    (hdestroyed : Destroyed conn') : conn.Good event := by
  intro henabled
  rw [step, if_pos henabled] at hnext
  exact allowed_of_destroyed h hnext hdestroyed

theorem changeEvents_returns (h : conn.poller.InStep) (change : BitVec 32 → BitVec 32) :
    ∃ conn', conn.changeEvents change = .ok conn' := by
  obtain ⟨poller, hpoller, -⟩ :=
    (EPollPoller.changeEvents_holds h (ownFd conn.poller) change).returns
  exact ⟨{ conn with poller := poller }, bind_eq_ok.mpr ⟨poller, hpoller, rfl⟩⟩

theorem good_of_error {event : Event} {fault : PollerFault} (h : Inv conn)
    (hnext : step conn event = .error fault) : conn.Good event := by
  intro henabled
  rw [step, if_pos henabled] at hnext
  cases event with
  | connectDestroyed | deleteServer =>
      simp only [act, connectDestroyed] at hnext
      split at hnext
      · rename_i hstate
        exact .inl hstate
      · cases hnext
  | startReadInLoop =>
      obtain ⟨between, hbetween⟩ :=
        changeEvents_returns h.inStep fun events => events ||| kReadEvent
      simp only [act, startReadInLoop, enableReading, hbetween, ok_bind] at hnext
      split at hnext
      · cases hnext
      · cases hnext
  | stopReadInLoop =>
      obtain ⟨between, hbetween⟩ :=
        changeEvents_returns h.inStep fun events => events &&& ~~~kReadEvent
      simp only [act, stopReadInLoop, disableReading, hbetween, ok_bind] at hnext
      split at hnext
      · cases hnext
      · cases hnext
  | remove | setDisconnecting => cases hnext
  | _ => trivial

end Step

/-- `connectDestroyed` fails no assertion and is complete, and the channel stays out of the poller,
in every state of a run, if and only if every step is one of the allowed. -/
theorem destroyed_iff_good (fd : Nat) (events : List Event) :
    Throughout step Destroyed (init fd) events ↔ Always step Good (init fd) events := by
  have hprop : ∀ conn, Inv conn → Destroyed conn := fun conn h => h.destroyed
  exact throughout_iff_always hprop (fun conn event conn' => inv_step)
    (fun conn event conn' => good_of_destroyed) (fun conn event fault => good_of_error)
    (inv_init fd)

/-! ### Half closed, and read from again -/

/-- `~StreamServer` after a `shutdown` finds a channel that still waits for events; and after a
close by the other side, completed by `connectDestroyed`, a `startRead` of a user who still has the
connection registers its channel. -/
theorem halfClosed_startedAgain_not_destroyed :
    ¬ Throughout step Destroyed (init 5)
      [.connectEstablished, .setDisconnecting, .shutdownInLoop, .deleteServer] ∧
    ¬ Throughout step Destroyed (init 5)
      [.connectEstablished, .poll true, .handleEvent, .handleClose, .nextChannel,
        .doPendingFunctors, .connectDestroyed, .startReadInLoop] := by
  constructor
  · intro h
    have hlast := h.last rfl
    have hasserted := hlast.asserted
    revert hasserted
    decide
  · intro h
    have hlast := h.last rfl
    have hunknown := (hlast.complete rfl).2.2.1
    cases hunknown

end OwnedConnection

end ToyBasket
