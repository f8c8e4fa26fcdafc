import ToyBasket.Net.StreamClient

/-!
# The threads that call the poller

A retry timer calls `startInLoop` on the thread of the timer manager, and from there the poller.
-/

namespace ToyBasket

open Outcome (bind_eq_ok)

namespace Connector

variable {c next : Connector} {thread sockfd : Nat} {errno : ConnectErrno}

@[simp]
theorem queueInLoop_calls (cb : ClientFunctor) : (c.queueInLoop cb).calls = c.calls := rfl

@[simp]
theorem assert_calls (assertion : ClientAssertion) (holds : Bool) :
    (c.assert assertion holds).calls = c.calls := by
  unfold assert
  split <;> rfl

@[simp]
theorem poller_calls (thread : Nat) (function : PollerFunction) (fd : Nat) :
    (c.poller thread function fd).calls = c.calls ++ [⟨thread, function, fd⟩] := rfl

@[simp]
theorem close_calls : (c.close sockfd).calls = c.calls := rfl

@[simp]
theorem retry_calls : (c.retry sockfd).calls = c.calls := by
  unfold retry
  dsimp only
  split <;> rfl

@[simp]
theorem connecting_calls :
    (c.connecting thread sockfd).calls = c.calls ++ [⟨thread, .updateChannel, sockfd⟩] := by
  simp [connecting]

theorem connectTo_calls : (c.connectTo thread errno).calls =
    c.calls ++ if errno.underWay then [⟨thread, .updateChannel, c.sockets⟩] else [] := by
  cases errno <;> simp [connectTo, ConnectErrno.underWay]

/-- `startInLoop` calls the poller once, on the thread that it runs on, or not at all. -/
theorem startInLoop_calls : (c.startInLoop thread errno).calls =
    c.calls ++
      if c.connect ∧ errno.underWay then [⟨thread, .updateChannel, c.sockets⟩] else [] := by
  unfold startInLoop
  dsimp only
  rw [assert_connect]
  split
  · rename_i hconnect
    simp [connectTo_calls, hconnect]
  · rename_i hconnect
    simp [hconnect]

/-- The poller has only been called on the thread of the loop. -/
def OnLoopThread (c : Connector) : Prop := ∀ call ∈ c.calls, call.thread = StreamClient.loopThread

theorem onLoopThread_append {calls : List PollerCall} (hcalls : next.calls = c.calls ++ calls) :
    next.OnLoopThread ↔ c.OnLoopThread ∧ ∀ call ∈ calls, call.thread = StreamClient.loopThread := by
  unfold OnLoopThread
  rw [hcalls, List.forall_mem_append]

theorem onLoopThread_of_calls_eq (hcalls : next.calls = c.calls) :
    next.OnLoopThread ↔ c.OnLoopThread := by
  unfold OnLoopThread
  rw [hcalls]

theorem startInLoop_onLoopThread : (c.startInLoop thread errno).OnLoopThread ↔
    c.OnLoopThread ∧ (c.connect → errno.underWay → thread = StreamClient.loopThread) := by
  rw [onLoopThread_append startInLoop_calls]
  by_cases hbegins : c.connect ∧ errno.underWay
  · simp [hbegins]
  · rw [if_neg hbegins]
    simp only [List.not_mem_nil, false_imp_iff, implies_true, and_true, iff_self_and]
    exact fun _ hconnect hunderWay => (hbegins ⟨hconnect, hunderWay⟩).elim

theorem removeAndResetChannel_calls (h : c.removeAndResetChannel thread = .ok (sockfd, next)) :
    next.calls = c.calls ++
      [⟨thread, .updateChannel, sockfd⟩, ⟨thread, .removeChannel, sockfd⟩] := by
  unfold removeAndResetChannel at h
  split at h
  · cases h
  · cases h
    simp

theorem removeAndResetChannel_onLoopThread
    (h : c.removeAndResetChannel StreamClient.loopThread = .ok (sockfd, next)) :
    next.OnLoopThread ↔ c.OnLoopThread := by
  rw [onLoopThread_append (removeAndResetChannel_calls h)]
  simp

theorem stopInLoop_onLoopThread (h : c.stopInLoop StreamClient.loopThread = .ok next) :
    next.OnLoopThread ↔ c.OnLoopThread := by
  unfold stopInLoop at h
  split at h
  · obtain ⟨⟨sockfd, removed⟩, hremoved, hnext⟩ := bind_eq_ok.mp h
    cases hnext
    rw [onLoopThread_of_calls_eq retry_calls, removeAndResetChannel_onLoopThread hremoved]
    rfl
  · cases h
    rfl

theorem handleError_onLoopThread (h : c.handleError StreamClient.loopThread = .ok next) :
    next.OnLoopThread ↔ c.OnLoopThread := by
  unfold handleError at h
  split at h
  · obtain ⟨⟨sockfd, removed⟩, hremoved, hnext⟩ := bind_eq_ok.mp h
    cases hnext
    rw [onLoopThread_of_calls_eq retry_calls, removeAndResetChannel_onLoopThread hremoved]
  · cases h
    rfl

theorem handleWrite_onLoopThread {completion : Completion} {handed : Option Nat}
    (h : c.handleWrite StreamClient.loopThread completion = .ok (next, handed)) :
    next.OnLoopThread ↔ c.OnLoopThread := by
  unfold handleWrite at h
  split at h
  · obtain ⟨⟨sockfd, removed⟩, hremoved, hnext⟩ := bind_eq_ok.mp h
    rw [← removeAndResetChannel_onLoopThread hremoved]
    apply onLoopThread_of_calls_eq
    dsimp only at hnext
    split at hnext
    · cases hnext
      exact retry_calls
    · split at hnext
      · cases hnext
        exact retry_calls
      · split at hnext
        · cases hnext
          rfl
        · cases hnext
          rfl
  · cases h
    exact onLoopThread_of_calls_eq (assert_calls _ _)

end Connector

namespace StreamClient

variable {client next : StreamClient} {errno : ConnectErrno} {fd : Nat}

theorem poller_onLoopThread {c : Connector} (function : PollerFunction) :
    (c.poller loopThread function fd).OnLoopThread ↔ c.OnLoopThread := by
  rw [Connector.onLoopThread_append (Connector.poller_calls _ _ _)]
  simp

theorem startInLoop_onLoopThread {c : Connector} :
    (c.startInLoop loopThread errno).OnLoopThread ↔ c.OnLoopThread := by
  rw [Connector.startInLoop_onLoopThread]
  simp

theorem start_onLoopThread {c : Connector} {thread : Nat} :
    (c.start thread errno).OnLoopThread ↔ c.OnLoopThread := by
  unfold Connector.start
  dsimp only
  split
  · rename_i hthread
    subst hthread
    rw [← loopThread, startInLoop_onLoopThread]
    rfl
  · rfl

theorem restart_onLoopThread {c : Connector} :
    (c.restart loopThread errno).OnLoopThread ↔ c.OnLoopThread := by
  unfold Connector.restart
  rw [startInLoop_onLoopThread]
  rfl

theorem handleClose_onLoopThread :
    (client.handleClose fd errno).connector.OnLoopThread ↔ client.connector.OnLoopThread := by
  have hqueued : ∀ c : Connector,
      ((c.assert .removeConnection (client.connection = some fd)).queueInLoop
        (.connectDestroyed fd)).OnLoopThread ↔ c.OnLoopThread :=
    fun c => Connector.onLoopThread_of_calls_eq (by simp)
  simp only [handleClose, removeConnection]
  split
  · rw [restart_onLoopThread, hqueued, poller_onLoopThread]
  · rw [hqueued, poller_onLoopThread]

theorem runCallback_onLoopThread {completion : Completion} {outcome : ConnectionOutcome}
    {cb : ClientCallback} (h : client.runCallback completion outcome errno cb = .ok next) :
    next.connector.OnLoopThread ↔ client.connector.OnLoopThread := by
  cases cb with
  | handleError =>
      obtain ⟨connector, hrun, hnext⟩ := bind_eq_ok.mp h
      cases hnext
      exact Connector.handleError_onLoopThread hrun
  | handleWrite =>
      obtain ⟨⟨connector, handed⟩, hrun, hnext⟩ := bind_eq_ok.mp h
      rw [← Connector.handleWrite_onLoopThread hrun]
      cases handed with
      | none =>
          cases hnext
          rfl
      | some sockfd =>
          cases hnext
          exact poller_onLoopThread _
  | connection fd =>
      simp only [runCallback] at h
      split at h
      · cases outcome with
        | closes =>
            cases h
            exact handleClose_onLoopThread
        | updates =>
            cases h
            exact poller_onLoopThread _
        | neither =>
            cases h
            rfl
      · cases h
        rfl

theorem runFunctor_onLoopThread {f : ClientFunctor} (h : client.runFunctor errno f = .ok next) :
    next.connector.OnLoopThread ↔ client.connector.OnLoopThread := by
  cases f with
  | startInLoop =>
      cases h
      exact startInLoop_onLoopThread
  | stopInLoop =>
      obtain ⟨connector, hrun, hnext⟩ := bind_eq_ok.mp h
      cases hnext
      exact Connector.stopInLoop_onLoopThread hrun
  | resetChannel =>
      cases h
      exact Connector.onLoopThread_of_calls_eq (by simp [Connector.resetChannel])
  | forceCloseInLoop fd =>
      cases h
      split
      · exact handleClose_onLoopThread
      · rfl
  | connectDestroyed fd =>
      cases h
      exact poller_onLoopThread _

/-- No timer fires that would begin an attempt. -/
def NoTimerConnects (client : StreamClient) : ClientEvent → Prop
  | .timer index errno =>
      index < client.connector.timers.length → client.connector.connect → ¬ errno.underWay
  | _ => True

theorem step_onLoopThread {event : ClientEvent} (h : client.step event = .ok next) :
    next.connector.OnLoopThread ↔
      client.connector.OnLoopThread ∧ client.NoTimerConnects event := by
  cases event with
  | timer index errno =>
      cases h
      by_cases hindex : index < client.connector.timers.length
      · rw [if_pos hindex, Connector.startInLoop_onLoopThread]
        simp [NoTimerConnects, hindex, timerThread, loopThread, Connector.OnLoopThread]
      · rw [if_neg hindex]
        simp [NoTimerConnects, hindex]
  | connect thread errno =>
      cases h
      rw [start_onLoopThread]
      simp [NoTimerConnects]
  | connectorStart thread errno =>
      cases h
      rw [start_onLoopThread]
      simp [NoTimerConnects]
  | connectorRestart errno =>
      cases h
      rw [restart_onLoopThread]
      simp [NoTimerConnects]
  | callback completion outcome errno =>
      simp only [NoTimerConnects, and_true]
      simp only [step] at h
      split at h
      · rw [runCallback_onLoopThread h]
      all_goals
        cases h
        rfl
  | functor errno =>
      simp only [NoTimerConnects, and_true]
      simp only [step] at h
      split at h
      · split at h
        · cases h
          rfl
        · rw [runFunctor_onLoopThread h]
          rfl
      · cases h
        rfl
  | forceClose fd =>
      cases h
      split <;> simp [NoTimerConnects, Connector.OnLoopThread]
  | poll active =>
      cases h
      split <;> simp [NoTimerConnects]
  | swap =>
      cases h
      split <;> simp [NoTimerConnects, Connector.OnLoopThread]
  | _ =>
      cases h
      simp [NoTimerConnects, Connector.OnLoopThread, Connector.stop]

/-- The poller is called on the thread of the loop alone if and only if no timer fires that begins
an attempt. -/
theorem onLoopThread_iff_noTimerConnects (retry : Bool) {events : List ClientEvent}
    (hrun : Machine.run step (init retry) events = .ok next) :
    (∀ call ∈ next.connector.calls, call.thread = loopThread) ↔
      Machine.Always step NoTimerConnects (init retry) events := by
  have hstep : ∀ (client : StreamClient) event next, True → True → step client event = .ok next →
      (next.connector.OnLoopThread ↔
        client.connector.OnLoopThread ∧ client.NoTimerConnects event) :=
    fun _ _ _ _ _ h => step_onLoopThread h
  have hiff := Machine.iff_always (fun _ _ _ _ _ _ => trivial) hstep hrun (fun _ _ => trivial)
    trivial
  have hinitial : (init retry).connector.OnLoopThread := fun _ h => nomatch h
  exact hiff.trans (and_iff_right hinitial)

/-- A first attempt is refused, the next one is under way. -/
def refusedOnce : List ClientEvent := [.connect loopThread .ECONNREFUSED, .timer 0 .EINPROGRESS]

theorem onLoopThread_iff_noTimerConnects_refusedOnce :
    ∃ client, Machine.run step (init false) refusedOnce = .ok client ∧
      ((∀ call ∈ client.connector.calls, call.thread = loopThread) ↔
        Machine.Always step NoTimerConnects (init false) refusedOnce) :=
  ⟨_, rfl, onLoopThread_iff_noTimerConnects false rfl⟩

theorem not_onLoopThread_refusedOnce :
    ¬ ∀ (retry : Bool) (events : List ClientEvent) (client : StreamClient),
      Machine.run step (init retry) events = .ok client →
        ∀ call ∈ client.connector.calls, call.thread = loopThread := by
  intro h
  have hcall := h false refusedOnce _ rfl ⟨timerThread, .updateChannel, 1⟩ (by decide)
  exact absurd hcall (by decide)

end StreamClient

end ToyBasket
