import ToyBasket.Net.Attempt

/-!
# The attempts of a run

The counters `begun` and `resets` of a connector are read off the events of the run: the attempts
that the events have begun, and the functors that have reset the channel of one.
-/

namespace ToyBasket

open Outcome (bind_eq_ok)
open Machine (run count counter_run)

namespace Connector

variable {c next : Connector} {thread sockfd : Nat} {errno : ConnectErrno}

/-- Both counters. -/
def attempts (c : Connector) : Nat × Nat := (c.begun, c.resets)

theorem attempts_assert (assertion : ClientAssertion) (holds : Bool) :
    (c.assert assertion holds).attempts = c.attempts := by
  rw [assert_eq]
  rfl

theorem attempts_retry : (c.retry sockfd).attempts = c.attempts := by
  unfold retry
  dsimp only
  split
  · rfl
  · rfl

theorem attempts_connectTo : (c.connectTo thread errno).attempts =
    (c.begun + if errno.underWay then 1 else 0, c.resets) := by
  by_cases hunderWay : errno.underWay
  · rw [connectTo_of_underWay hunderWay, if_pos hunderWay, connecting]
    exact attempts_assert .connecting _
  · rw [if_neg hunderWay]
    cases connectTo_of_not_underWay c thread hunderWay with
    | inl hretry =>
        rw [hretry]
        exact attempts_retry
    | inr hclose =>
        rw [hclose]
        rfl

theorem attempts_startInLoop : (c.startInLoop thread errno).attempts =
    (c.begun + if c.connect && errno.underWay then 1 else 0, c.resets) := by
  unfold startInLoop
  dsimp only
  rw [assert_connect, assert_eq]
  by_cases hconnect : c.connect
  · rw [if_pos hconnect, attempts_connectTo, hconnect, Bool.true_and]
  · rw [if_neg hconnect, (Bool.not_eq_true _).mp hconnect, Bool.false_and]
    rfl

theorem attempts_start : (c.start thread errno).attempts =
    (c.begun + if thread = 0 && errno.underWay then 1 else 0, c.resets) := by
  unfold start
  dsimp only
  by_cases hthread : thread = 0
  · rw [if_pos hthread, attempts_startInLoop, hthread]
    rfl
  · rw [if_neg hthread, decide_eq_false hthread, Bool.false_and]
    rfl

theorem attempts_restart : (c.restart thread errno).attempts =
    (c.begun + if errno.underWay then 1 else 0, c.resets) := by
  rw [restart, attempts_startInLoop, Bool.true_and]

theorem attempts_removeAndResetChannel
    (h : c.removeAndResetChannel thread = .ok (sockfd, next)) : next.attempts = c.attempts := by
  unfold removeAndResetChannel at h
  split at h
  · cases h
  · cases h
    rfl

theorem attempts_stopInLoop (h : c.stopInLoop thread = .ok next) :
    next.attempts = c.attempts := by
  unfold stopInLoop at h
  split at h
  · obtain ⟨⟨sockfd, removed⟩, hremoved, hretried⟩ := bind_eq_ok.mp h
    have hsame := attempts_removeAndResetChannel hremoved
    cases hretried
    rw [attempts_retry]
    exact hsame
  · cases h
    rfl

theorem attempts_handleError (h : c.handleError thread = .ok next) :
    next.attempts = c.attempts := by
  unfold handleError at h
  split at h
  · obtain ⟨⟨sockfd, removed⟩, hremoved, hretried⟩ := bind_eq_ok.mp h
    cases hretried
    exact attempts_retry.trans (attempts_removeAndResetChannel hremoved)
  · cases h
    rfl

theorem attempts_handleWrite {completion : Completion} {handed : Option Nat}
    (h : c.handleWrite thread completion = .ok (next, handed)) : next.attempts = c.attempts := by
  unfold handleWrite at h
  split at h
  · obtain ⟨⟨sockfd, removed⟩, hremoved, hcompleted⟩ := bind_eq_ok.mp h
    rw [← attempts_removeAndResetChannel hremoved]
    dsimp only at hcompleted
    split at hcompleted
    · cases hcompleted
      exact attempts_retry
    · split at hcompleted
      · cases hcompleted
        exact attempts_retry
      · split at hcompleted
        · cases hcompleted
          rfl
        · cases hcompleted
          rfl
  · cases h
    exact attempts_assert .handleWrite _

end Connector

namespace StreamClient

/-- The event closes a connection, and the client connects again. -/
def reconnects (client : StreamClient) (fd : Nat) (errno : ConnectErrno) : Bool :=
  fd ∈ client.live && client.retry && client.connect && errno.underWay

/-- An attempt begins: `connect` is called, and is under way. -/
def begins (client : StreamClient) : ClientEvent → Bool
  | .connect thread errno | .connectorStart thread errno => thread = loopThread && errno.underWay
  | .connectorRestart errno => errno.underWay
  | .timer index errno =>
      index < client.connector.timers.length && (client.connector.connect && errno.underWay)
  | .callback _ outcome errno =>
      match client.position with
      | .dispatch (.connection fd :: _) => outcome = .closes && client.reconnects fd errno
      | _ => false
  | .functor errno =>
      match client.position, client.connector.queue.functors with
      | .functors, .startInLoop :: _ => client.connector.connect && errno.underWay
      | .functors, .forceCloseInLoop fd :: _ => client.reconnects fd errno
      | _, _ => false
  | _ => false

/-- The functor that the event runs is `resetChannel`. -/
def resetsChannel (client : StreamClient) : ClientEvent → Bool
  | .functor _ =>
      match client.position, client.connector.queue.functors with
      | .functors, .resetChannel :: _ => true
      | _, _ => false
  | _ => false

variable {client next : StreamClient} {event : ClientEvent} {fd : Nat} {errno : ConnectErrno}

theorem attempts_handleClose (hlive : fd ∈ client.live) :
    (client.handleClose fd errno).connector.attempts =
      (client.connector.begun + if client.reconnects fd errno then 1 else 0,
        client.connector.resets) := by
  have hqueued : ∀ c : Connector,
      ((c.assert .removeConnection (client.connection = some fd)).queueInLoop
        (.connectDestroyed fd)).attempts = c.attempts := fun c => c.attempts_assert _ _
  simp only [handleClose, removeConnection]
  by_cases hreconnects : client.retry ∧ client.connect
  · have hsame : client.reconnects fd errno = errno.underWay := by
      simp [reconnects, hlive, hreconnects.1, hreconnects.2]
    rw [if_pos hreconnects, Connector.attempts_restart, Connector.assert_eq, hsame]
    rfl
  · have hnot : client.reconnects fd errno = false := by
      rw [← Bool.not_eq_true]
      intro h
      simp only [reconnects, Bool.and_eq_true] at h
      exact hreconnects ⟨h.1.1.2, h.1.2⟩
    rw [if_neg hreconnects, hqueued, hnot]
    rfl

/-- The callbacks of the connector's channel begin no attempt. -/
theorem attempts_runCallback {completion : Completion} {outcome : ConnectionOutcome}
    {cb : ClientCallback} {callbacks : List ClientCallback}
    (hposition : client.position = .dispatch (cb :: callbacks))
    (h : { client with position := .dispatch callbacks }.runCallback completion outcome errno cb
      = .ok next) :
    next.connector.attempts = (client.connector.begun +
        if client.begins (.callback completion outcome errno) then 1 else 0,
      client.connector.resets) := by
  cases cb with
  | handleError =>
      obtain ⟨connector, hrun, hclient⟩ := bind_eq_ok.mp h
      cases hclient
      simp only [begins, hposition]
      exact Connector.attempts_handleError hrun
  | handleWrite =>
      obtain ⟨⟨connector, handed⟩, hrun, hclient⟩ := bind_eq_ok.mp h
      have hsame := Connector.attempts_handleWrite hrun
      simp only [begins, hposition]
      cases handed with
      | none =>
          cases hclient
          exact hsame
      | some sockfd =>
          cases hclient
          exact hsame
  | connection fd =>
      simp only [runCallback] at h
      simp only [begins, hposition]
      by_cases hlive : fd ∈ client.live
      · rw [if_pos hlive] at h
        cases outcome with
        | closes =>
            cases h
            exact attempts_handleClose hlive
        | updates =>
            cases h
            rfl
        | neither =>
            cases h
            rfl
      · rw [if_neg hlive] at h
        cases h
        simp only [reconnects, decide_eq_false hlive, Bool.false_and, Bool.and_false]
        rfl

theorem attempts_runFunctor {f : ClientFunctor} {functors : List ClientFunctor}
    (hposition : client.position = .functors)
    (hfunctors : client.connector.queue.functors = f :: functors)
    (h : { client with connector :=
        { client.connector with
          queue := { client.connector.queue with functors := functors }
          ran := client.connector.ran + 1 } }.runFunctor errno f = .ok next) :
    next.connector.attempts =
      (client.connector.begun + if client.begins (.functor errno) then 1 else 0,
        client.connector.resets + if client.resetsChannel (.functor errno) then 1 else 0) := by
  simp only [begins, resetsChannel, hposition, hfunctors]
  cases f with
  | startInLoop =>
      cases h
      exact Connector.attempts_startInLoop
  | stopInLoop =>
      obtain ⟨connector, hrun, hclient⟩ := bind_eq_ok.mp h
      have hsame := Connector.attempts_stopInLoop hrun
      cases hclient
      exact hsame
  | resetChannel =>
      cases h
      simp only [Connector.resetChannel, Connector.assert_eq]
      rfl
  | forceCloseInLoop fd =>
      simp only [runFunctor] at h
      by_cases hlive : fd ∈ client.live
      · rw [if_pos hlive] at h
        cases h
        exact attempts_handleClose hlive
      · rw [if_neg hlive] at h
        cases h
        simp only [reconnects, decide_eq_false hlive, Bool.false_and]
        rfl
  | connectDestroyed fd =>
      cases h
      rfl

theorem attempts_step (h : client.step event = .ok next) :
    next.connector.attempts =
      (client.connector.begun + if client.begins event then 1 else 0,
        client.connector.resets + if client.resetsChannel event then 1 else 0) := by
  cases event with
  | connect thread errno | connectorStart thread errno =>
      cases h
      exact Connector.attempts_start
  | connectorRestart errno =>
      cases h
      exact Connector.attempts_restart
  | timer index errno =>
      cases h
      by_cases hindex : index < client.connector.timers.length
      · have hbegins : client.begins (.timer index errno) =
            (client.connector.connect && errno.underWay) := by
          simp only [begins, decide_eq_true hindex, Bool.true_and]
        rw [if_pos hindex, hbegins]
        exact Connector.attempts_startInLoop
      · have hbegins : client.begins (.timer index errno) = false := by
          simp only [begins, decide_eq_false hindex, Bool.false_and]
        rw [if_neg hindex, hbegins]
        rfl
  | callback completion outcome errno =>
      simp only [step] at h
      split at h
      · rename_i cb callbacks hposition
        exact attempts_runCallback hposition h
      · rename_i hposition
        cases h
        simp only [begins, hposition]
        rfl
      · rename_i hposition
        cases h
        simp only [begins, hposition]
        rfl
      · rename_i hposition
        cases h
        simp only [begins, hposition]
        rfl
  | functor errno =>
      simp only [step] at h
      by_cases hposition : client.position = .functors
      · rw [if_pos hposition] at h
        split at h
        · rename_i hfunctors
          cases h
          simp only [begins, resetsChannel, hposition, hfunctors]
          rfl
        · rename_i f functors hfunctors
          exact attempts_runFunctor hposition hfunctors h
      · rw [if_neg hposition] at h
        cases h
        have hbegins : client.begins (.functor errno) = false := by
          simp only [begins]
          split
          · rename_i hcontra _
            exact absurd hcontra hposition
          · rename_i hcontra _
            exact absurd hcontra hposition
          · rfl
        have hresets : client.resetsChannel (.functor errno) = false := by
          simp only [resetsChannel]
          split
          · rename_i hcontra _
            exact absurd hcontra hposition
          · rfl
        rw [hbegins, hresets]
        rfl
  | forceClose fd | poll active | swap =>
      cases h
      split
      · rfl
      · rfl
  | stop | disconnect | enableRetry | connectorStop =>
      cases h
      rfl

/-- What the counters say in every run. -/
theorem attempts_run {retry : Bool} {events : List ClientEvent}
    (hrun : run step (init retry) events = .ok client) :
    client.connector.begun = count step begins (init retry) events ∧
      client.connector.resets = count step resetsChannel (init retry) events := by
  have hbegun := counter_run (fun client : StreamClient => client.connector.begun)
    (fun _ _ _ hnext => congrArg Prod.fst (attempts_step hnext)) hrun
  have hresets := counter_run (fun client : StreamClient => client.connector.resets)
    (fun _ _ _ hnext => congrArg Prod.snd (attempts_step hnext)) hrun
  exact ⟨hbegun.trans (Nat.zero_add _), hresets.trans (Nat.zero_add _)⟩

/-- To come in turn, with the channels counted by the events. -/
theorem inTurn_iff_count {retry : Bool} {events : List ClientEvent}
    (hrun : run step (init retry) events = .ok client) :
    client.InTurn event ↔ client.Asks (¬ client.connector.busy)
      (count step begins (init retry) events = count step resetsChannel (init retry) events)
      event := by
  obtain ⟨hbegun, hresets⟩ := attempts_run hrun
  rw [InTurn, hbegun, hresets]

end StreamClient

end ToyBasket
