import ToyBasket.Buffer
import ToyBasket.Lib.Machine
import ToyBasket.Net.EventLoop
import ToyBasket.Net.StreamConnection

/-!
# Closing a connection

`state_` from `connectEstablished` to the end. `shutdown`, `forceClose` and `forceCloseWithDelay`
test it, set it and hand the rest to the loop or the timer, in three steps, and the loop may close
the connection between any two of them.
-/

namespace ToyBasket

open Outcome Machine

inductive CloseCall where
  | shutdown
  | forceClose
  | forceCloseWithDelay
deriving DecidableEq, Repr

/-- Where a thread is: after the test of `state_`, or after `setState(kDisconnecting)`. The loop can
also be in `connectDestroyed`, after the test. -/
inductive ClosePlace where
  | idle
  | tested (call : CloseCall)
  | written (call : CloseCall)
  | destroying
deriving DecidableEq, Repr

inductive CloseFunctor where
  | shutdownInLoop
  | forceCloseInLoop
  | connectDestroyed
deriving DecidableEq, Repr

/-- The loop is thread 0. `watched` tells that the poller reports the events of `channel_`, `timers`
counts the timers of `forceCloseWithDelay`, `reached` tells that `state_` has been `kDisconnected`,
and `closes` counts how often the body of `handleClose` was executed. -/
structure ClosingConnection where
  state : ConnectionState
  watched : Bool
  loop : EventLoop CloseFunctor
  threads : Nat → ClosePlace
  timers : Nat
  reached : Bool
  closes : Nat

namespace ClosingConnection

/-- `timer` is the timer thread calling `forceClose`, `handleClose` an event of the channel, and
`connectDestroyed` the call in `~StreamServer`. -/
inductive Event where
  | connectEstablished
  | call (thread : Nat) (call : CloseCall)
  | advance (thread : Nat)
  | timer (thread : Nat)
  | doPendingFunctors
  | functor
  | handleClose
  | connectDestroyed
deriving DecidableEq, Repr

def init : ClosingConnection where
  state := .kConnecting
  watched := false
  loop := EventLoop.init
  threads := fun _ => .idle
  timers := 0
  reached := false
  closes := 0

def setState (conn : ClosingConnection) (state : ConnectionState) : ClosingConnection :=
  { conn with state := state, reached := conn.reached || decide (state = .kDisconnected) }

def goTo (conn : ClosingConnection) (thread : Nat) (place : ClosePlace) : ClosingConnection :=
  { conn with threads := Function.update conn.threads thread place }

def connectEstablished (conn : ClosingConnection) : ClosingConnection :=
  { conn.setState .kConnected with watched := true }

/-- The test that the three calls begin with. -/
def test (state : ConnectionState) : CloseCall → Bool
  | .shutdown => state = .kConnected
  | .forceClose => state = .kConnected ∨ state = .kDisconnecting
  | .forceCloseWithDelay => state = .kConnected ∨ state = .kDisconnecting

def beginCall (conn : ClosingConnection) (thread : Nat) (call : CloseCall) : ClosingConnection :=
  if test conn.state call then conn.goTo thread (.tested call) else conn

/-- What a call does after `setState(kDisconnecting)`. `shutdownInLoop` does not touch `state_`. -/
def handOver (conn : ClosingConnection) (thread : Nat) : CloseCall → ClosingConnection
  | .shutdown =>
      if thread = 0 then conn else { conn with loop := conn.loop.queueInLoop .shutdownInLoop }
  | .forceClose => { conn with loop := conn.loop.queueInLoop .forceCloseInLoop }
  | .forceCloseWithDelay => { conn with timers := conn.timers + 1 }

def advance (conn : ClosingConnection) (thread : Nat) : ClosingConnection :=
  match conn.threads thread with
  | .idle => conn
  | .tested call => (conn.setState .kDisconnecting).goTo thread (.written call)
  | .written call => (conn.handOver thread call).goTo thread .idle
  | .destroying => { conn.setState .kDisconnected with watched := false }.goTo thread .idle

/-- `closeCallback_` removes the connection from its owner, which queues `connectDestroyed`. -/
def handleClose (conn : ClosingConnection) : Except Fault ClosingConnection := do
  assert (conn.state = .kConnected ∨ conn.state = .kDisconnecting)
  return {
    conn.setState .kDisconnected with
    watched := false
    closes := conn.closes + 1
    loop := conn.loop.queueInLoop .connectDestroyed }

def forceCloseInLoop (conn : ClosingConnection) : Except Fault ClosingConnection :=
  if conn.state = .kConnected ∨ conn.state = .kDisconnecting then conn.handleClose else .ok conn

def connectDestroyed (conn : ClosingConnection) : ClosingConnection :=
  if conn.state = .kConnected then conn.goTo 0 .destroying else { conn with watched := false }

def functor (conn : ClosingConnection) : Except Fault ClosingConnection :=
  match conn.loop.functors with
  | [] => .ok conn
  | f :: functors =>
      let conn := { conn with loop := { conn.loop with functors := functors } }
      match f with
      | .shutdownInLoop => .ok conn
      | .forceCloseInLoop => conn.forceCloseInLoop
      | .connectDestroyed => .ok conn.connectDestroyed

/-- A thread that is in a call begins no other, and the loop does one thing at a time. -/
def step (conn : ClosingConnection) : Event → Except Fault ClosingConnection
  | .connectEstablished =>
      .ok (if conn.state = .kConnecting then conn.connectEstablished else conn)
  | .call thread call =>
      .ok (if conn.threads thread = .idle then conn.beginCall thread call else conn)
  | .advance thread => .ok (conn.advance thread)
  | .timer thread =>
      .ok (if 0 < conn.timers ∧ conn.threads thread = .idle then
        { conn with timers := conn.timers - 1 }.beginCall thread .forceClose else conn)
  | .doPendingFunctors =>
      .ok (if conn.threads 0 = .idle then { conn with loop := conn.loop.swapFunctors } else conn)
  | .functor => if conn.threads 0 = .idle then conn.functor else .ok conn
  | .handleClose =>
      if conn.threads 0 = .idle ∧ conn.loop.functors = [] ∧ conn.watched then conn.handleClose
      else .ok conn
  | .connectDestroyed =>
      .ok (if conn.threads 0 = .idle then conn.connectDestroyed else conn)

/-- `state_` has not left `kDisconnected`, and the connection was closed once at most. -/
structure Final (conn : ClosingConnection) : Prop where
  stays : conn.reached → conn.state = .kDisconnected
  once : conn.closes ≤ 1

/-- The step is not the late write of a call that tested `state_` before the loop closed the
connection. -/
def InTime (conn : ClosingConnection) : Event → Prop
  | .advance thread =>
      match conn.threads thread with
      | .tested _ => conn.state ≠ .kDisconnected
      | _ => True
  | _ => True

/-- While no write is late, the state says whether the connection was closed. -/
structure Inv (conn : ClosingConnection) : Prop extends Final conn where
  reached : conn.state = .kDisconnected → conn.reached
  closed : 0 < conn.closes → conn.reached

theorem inv_init : Inv init where
  stays := nofun
  once := by decide
  reached := nofun
  closed := by decide

section Step

variable {conn conn' : ClosingConnection} {thread : Nat} {state : ConnectionState}

theorem Inv.of_same (h : Inv conn) (hstate : conn'.state = conn.state)
    (hreached : conn'.reached = conn.reached) (hcloses : conn'.closes = conn.closes) :
    Inv conn' where
  stays := by
    rw [hreached, hstate]
    exact h.stays
  once := by
    rw [hcloses]
    exact h.once
  reached := by
    rw [hreached, hstate]
    exact h.reached
  closed := by
    rw [hreached, hcloses]
    exact h.closed

/-- Of a connection that is not `kDisconnected` nothing was done yet that is final. -/
theorem Inv.not_reached (h : Inv conn) (hstate : conn.state ≠ .kDisconnected) :
    conn.reached = false ∧ conn.closes = 0 := by
  have hnot : conn.reached = false := by
    rw [Bool.eq_false_iff]
    exact fun hreached => hstate (h.stays hreached)
  refine ⟨hnot, ?_⟩
  by_contra hcloses
  have hclosed := h.closed (Nat.pos_of_ne_zero hcloses)
  rw [hnot] at hclosed
  cases hclosed

theorem Inv.setState (h : Inv conn) (hstate : conn.state ≠ .kDisconnected) :
    Inv (conn.setState state) := by
  obtain ⟨hreached, hcloses⟩ := h.not_reached hstate
  refine ⟨⟨?_, h.once⟩, ?_, ?_⟩
  · simp [ClosingConnection.setState, hreached]
  · intro hnew
    simp only [ClosingConnection.setState] at hnew ⊢
    simp [hnew]
  · intro hpos
    change 0 < conn.closes at hpos
    omega

theorem handleClose_eq_ok (h : conn.handleClose = .ok conn') :
    (conn.state = .kConnected ∨ conn.state = .kDisconnecting) ∧
      conn' = {
        conn.setState .kDisconnected with
        watched := false
        closes := conn.closes + 1
        loop := conn.loop.queueInLoop .connectDestroyed } := by
  obtain ⟨_, hassert, hafter⟩ := bind_eq_ok.mp h
  cases hafter
  refine ⟨?_, rfl⟩
  by_contra hnot
  unfold assert at hassert
  rw [check_of_false hnot] at hassert
  cases hassert

theorem Inv.handleClose (h : Inv conn) (hnext : conn.handleClose = .ok conn') : Inv conn' := by
  obtain ⟨hstate, rfl⟩ := handleClose_eq_ok hnext
  have hnot : conn.state ≠ .kDisconnected := by
    rintro hclosed
    rw [hclosed] at hstate
    obtain hstate | hstate := hstate
    · cases hstate
    · cases hstate
  obtain ⟨-, hcloses⟩ := h.not_reached hnot
  have hset : Inv (conn.setState .kDisconnected) := h.setState hnot
  refine ⟨⟨hset.stays, ?_⟩, hset.reached, ?_⟩
  · simp only [hcloses]
    exact Nat.le_refl 1
  · exact fun _ => hset.reached rfl

/-- Reaching `kDisconnected` once more changes nothing. -/
theorem Inv.setDisconnected (h : Inv conn) : Inv (conn.setState .kDisconnected) where
  stays := fun _ => rfl
  once := h.once
  reached := fun _ => by simp [ClosingConnection.setState]
  closed := fun _ => by simp [ClosingConnection.setState]

theorem Inv.connectDestroyed (h : Inv conn) : Inv conn.connectDestroyed := by
  unfold ClosingConnection.connectDestroyed
  split
  · exact h.of_same rfl rfl rfl
  · exact h.of_same rfl rfl rfl

theorem handOver_same (conn : ClosingConnection) (thread : Nat) (call : CloseCall) :
    (conn.handOver thread call).state = conn.state ∧
      (conn.handOver thread call).reached = conn.reached ∧
      (conn.handOver thread call).closes = conn.closes := by
  cases call with
  | shutdown =>
      simp only [handOver]
      split
      · exact ⟨rfl, rfl, rfl⟩
      · exact ⟨rfl, rfl, rfl⟩
  | forceClose => exact ⟨rfl, rfl, rfl⟩
  | forceCloseWithDelay => exact ⟨rfl, rfl, rfl⟩

theorem Inv.beginCall (h : Inv conn) (call : CloseCall) : Inv (conn.beginCall thread call) := by
  unfold ClosingConnection.beginCall
  split
  · exact h.of_same rfl rfl rfl
  · exact h

theorem Inv.advance (h : Inv conn) (hgood : conn.InTime (.advance thread)) :
    Inv (conn.advance thread) := by
  unfold ClosingConnection.advance
  unfold InTime at hgood
  cases hplace : conn.threads thread with
  | idle => exact h
  | tested call =>
      simp only [hplace] at hgood
      exact (h.setState hgood).of_same rfl rfl rfl
  | written call =>
      obtain ⟨hstate, hreached, hcloses⟩ := handOver_same conn thread call
      exact h.of_same hstate hreached hcloses
  | destroying => exact h.setDisconnected.of_same rfl rfl rfl

theorem Inv.functor (h : Inv conn) (hnext : conn.functor = .ok conn') : Inv conn' := by
  unfold ClosingConnection.functor at hnext
  split at hnext
  · cases hnext
    exact h
  · rename_i f functors hfunctors
    have hrest : Inv { conn with loop := { conn.loop with functors := functors } } :=
      h.of_same rfl rfl rfl
    cases f with
    | shutdownInLoop =>
        cases hnext
        exact hrest
    | forceCloseInLoop =>
        simp only [forceCloseInLoop] at hnext
        split at hnext
        · exact hrest.handleClose hnext
        · cases hnext
          exact hrest
    | connectDestroyed =>
        cases hnext
        exact hrest.connectDestroyed

theorem inv_step {event : Event} (h : Inv conn) (hgood : conn.InTime event)
    (hnext : step conn event = .ok conn') : Inv conn' := by
  cases event with
  | connectEstablished =>
      cases hnext
      split
      · rename_i hstate
        have hset : Inv (conn.setState .kConnected) := h.setState (by rw [hstate]; nofun)
        exact hset.of_same rfl rfl rfl
      · exact h
  | call thread call =>
      cases hnext
      split
      · exact h.beginCall call
      · exact h
  | advance thread =>
      cases hnext
      exact h.advance hgood
  | timer thread =>
      cases hnext
      split
      · have hfired : Inv { conn with timers := conn.timers - 1 } := h.of_same rfl rfl rfl
        exact hfired.beginCall .forceClose
      · exact h
  | doPendingFunctors =>
      cases hnext
      split
      · exact h.of_same rfl rfl rfl
      · exact h
  | functor =>
      simp only [step] at hnext
      split at hnext
      · exact h.functor hnext
      · cases hnext
        exact h
  | handleClose =>
      simp only [step] at hnext
      split at hnext
      · exact h.handleClose hnext
      · cases hnext
        exact h
  | connectDestroyed =>
      cases hnext
      split
      · exact h.connectDestroyed
      · exact h

/-- A late write takes `state_` out of `kDisconnected`. -/
theorem inTime_of_final {event : Event} (h : Inv conn) (hnext : step conn event = .ok conn')
    (hfinal : Final conn') : conn.InTime event := by
  cases event with
  | advance thread =>
      cases hplace : conn.threads thread with
      | tested call =>
          simp only [InTime, hplace]
          intro hstate
          cases hnext
          have hreached : (conn.advance thread).reached = true := by
            simp [ClosingConnection.advance, hplace, goTo, setState, h.reached hstate]
          have hstays := hfinal.stays hreached
          simp [ClosingConnection.advance, hplace, goTo, setState] at hstays
      | _ => simp only [InTime, hplace]
  | _ => trivial

end Step

/-- `state_` stays `kDisconnected` and the connection is closed once at most, in every state of a
run, if and only if no call writes `state_` after the loop has closed the connection. -/
theorem final_iff_inTime (events : List Event) :
    Throughout step Final init events ↔ Always step InTime init events := by
  have hprop : ∀ conn, Inv conn → Final conn := fun conn h => h.toFinal
  have hfault : ∀ conn event fault, Inv conn → step conn event = .error fault →
      InTime conn event := by
    intro conn event fault _ h
    cases event with
    | advance thread => cases h
    | _ => trivial
  exact throughout_iff_always hprop (fun conn event conn' => inv_step)
    (fun conn event conn' => inTime_of_final) hfault inv_init

/-! ### A late write -/

/-- Thread 1 is in `forceClose` while the other side closes: the connection is closed a second time
by `forceCloseInLoop`. -/
theorem lateWrite_not_final : ¬ Throughout step Final init
    [.connectEstablished, .call 1 .forceClose, .handleClose, .advance 1, .advance 1,
      .doPendingFunctors, .functor, .functor] := by
  intro h
  have hlast := h.last rfl
  have honce := hlast.once
  revert honce
  decide

end ClosingConnection

end ToyBasket
