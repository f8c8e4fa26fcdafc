import ToyBasket.Net.StreamClient

/-!
# One attempt at a time

An attempt begins in `connecting` and leaves its channel to `resetChannel`. While the attempts
follow each other, the connector accounts for its channel and for its descriptors.
-/

namespace ToyBasket

open Outcome (Holds bind_eq_ok)

namespace Connector

/-- No assertion about the attempts has failed. -/
def Asserted (c : Connector) : Prop :=
  .startInLoop ∉ c.failed ∧ .connecting ∉ c.failed ∧ .resetChannel ∉ c.failed

/-- The descriptor of the channel that the poller knows. -/
def watched (c : Connector) : List Nat :=
  (c.channel.toList.filter ConnectorChannel.registered).map ConnectorChannel.fd

/-- `held` are the descriptors that the code has in hand. -/
structure Sound (c : Connector) (held : List Nat) : Prop where
  asserted : c.Asserted
  begun : c.begun = c.resets + c.channel.toList.length
  queued : c.queue.inOrder.count .resetChannel =
    c.channel.toList.countP fun channel => !channel.registered
  owned : ∀ fd, c.closed.count fd + c.handed.count fd + c.watched.count fd + held.count fd =
    (List.range c.sockets).count fd

/-- Between two steps. -/
structure AtRest (c : Connector) : Prop extends Sound c [] where
  busy : c.busy ↔ c.state ≠ .kDisconnected
  connecting : c.state = .kConnecting → ∃ sockfd, c.channel = some ⟨sockfd, true⟩

variable {c next : Connector} {thread sockfd : Nat} {errno : ConnectErrno} {held : List Nat}

theorem atRest_init : init.AtRest where
  asserted := ⟨List.not_mem_nil, List.not_mem_nil, List.not_mem_nil⟩
  begun := rfl
  queued := rfl
  owned := fun _ => rfl
  busy := by decide
  connecting := fun h => nomatch h

theorem Sound.channel_eq_none (h : c.Sound held) : c.channel = none ↔ c.begun = c.resets := by
  rw [h.begun]
  cases c.channel <;> simp

/-- The channel that is to be reset is one that the poller does not know. -/
theorem Sound.channel_of_mem (h : c.Sound held) (hmem : .resetChannel ∈ c.queue.inOrder) :
    ∃ sockfd, c.channel = some ⟨sockfd, false⟩ := by
  have hqueued := h.queued
  have hcount := List.count_pos_iff.mpr hmem
  rcases hcase : c.channel with _ | ⟨sockfd, registered⟩
  · rw [hqueued, hcase] at hcount
    simp at hcount
  · cases registered with
    | false => exact ⟨sockfd, rfl⟩
    | true =>
        rw [hqueued, hcase] at hcount
        simp at hcount

theorem Sound.close (h : c.Sound [sockfd]) : (c.close sockfd).Sound [] where
  asserted := h.asserted
  begun := h.begun
  queued := h.queued
  owned := by
    intro fd
    have howned := h.owned fd
    simp only [Connector.close, watched, List.count_append, List.count_nil] at howned ⊢
    omega

theorem Sound.setDisconnected (h : c.Sound held) : { c with state := .kDisconnected }.Sound held :=
  { h with }

theorem Sound.retry (h : c.Sound [sockfd]) : (c.retry sockfd).AtRest := by
  have hclosed := h.close
  unfold Connector.retry
  dsimp only
  split
  · exact { hclosed with
      busy := by simp
      connecting := fun h => nomatch h }
  · exact { hclosed with
      busy := by simp
      connecting := fun h => nomatch h }

theorem Sound.connecting (h : c.Sound [sockfd]) (hchannel : c.channel = none) :
    (c.connecting thread sockfd).AtRest := by
  unfold Connector.connecting
  dsimp only
  rw [assert_of_true (by rw [hchannel]; rfl)]
  exact {
    asserted := h.asserted
    begun := by
      have hbegun := h.begun
      rw [hchannel] at hbegun
      simp [Connector.poller, hbegun]
    queued := by
      have hqueued := h.queued
      rw [hchannel] at hqueued
      simpa [Connector.poller] using hqueued
    owned := by
      intro fd
      have howned := h.owned fd
      simp only [watched, hchannel] at howned
      simpa [Connector.poller, watched] using howned
    busy := by simp [Connector.poller]
    connecting := fun _ => ⟨sockfd, rfl⟩ }

theorem Sound.socket (h : c.Sound []) :
    { c with sockets := c.sockets + 1 }.Sound [c.sockets] where
  asserted := h.asserted
  begun := h.begun
  queued := h.queued
  owned := by
    intro fd
    have howned := h.owned fd
    rw [List.range_succ, List.count_append, ← howned]
    simp [watched]

/-- `startInLoop` at a time when it can. -/
theorem AtRest.startInLoop (h : c.AtRest) (hstate : c.state = .kDisconnected)
    (hchannel : c.connect → errno.underWay → c.channel = none) :
    (c.startInLoop thread errno).AtRest := by
  unfold Connector.startInLoop
  rw [assert_of_true (by simp [hstate])]
  dsimp only
  split
  · rename_i hconnect
    have hsocket := h.toSound.socket
    by_cases hunderWay : errno.underWay
    · rw [connectTo_of_underWay hunderWay]
      exact hsocket.connecting (hchannel hconnect hunderWay)
    · cases connectTo_of_not_underWay c thread hunderWay with
      | inl hretry =>
          rw [hretry]
          exact hsocket.retry
      | inr hclose =>
          rw [hclose]
          exact {
            toSound := hsocket.close
            busy := h.busy
            connecting := h.connecting }
  · exact h

theorem AtRest.setDisconnected (h : c.AtRest) (connect : Bool) (retryDelayMs : Nat) :
    { c with state := .kDisconnected, busy := false, retryDelayMs, connect }.AtRest where
  asserted := h.asserted
  begun := h.begun
  queued := h.queued
  owned := h.owned
  busy := by simp
  connecting := fun h => nomatch h

theorem AtRest.restart (h : c.AtRest) (hchannel : errno.underWay → c.channel = none) :
    (c.restart thread errno).AtRest :=
  (h.setDisconnected true kInitRetryDelayMs).startInLoop rfl fun _ => hchannel

theorem AtRest.queueInLoop (h : c.AtRest) {cb : ClientFunctor} (hcb : cb ≠ .resetChannel) :
    (c.queueInLoop cb).AtRest where
  asserted := h.asserted
  begun := h.begun
  queued := by
    have hqueued := h.queued
    simpa [Connector.queueInLoop, hcb] using hqueued
  owned := h.owned
  busy := h.busy
  connecting := h.connecting

theorem AtRest.setConnect (h : c.AtRest) (connect : Bool) : { c with connect }.AtRest where
  asserted := h.asserted
  begun := h.begun
  queued := h.queued
  owned := h.owned
  busy := h.busy
  connecting := h.connecting

theorem AtRest.stop (h : c.AtRest) : c.stop.AtRest := (h.setConnect false).queueInLoop nofun

theorem AtRest.poller (h : c.AtRest) (thread : Nat) (function : PollerFunction) (fd : Nat) :
    (c.poller thread function fd).AtRest where
  asserted := h.asserted
  begun := h.begun
  queued := h.queued
  owned := h.owned
  busy := h.busy
  connecting := h.connecting

theorem AtRest.setTimers (h : c.AtRest) (timers : List RetryTimer) : { c with timers }.AtRest where
  asserted := h.asserted
  begun := h.begun
  queued := h.queued
  owned := h.owned
  busy := h.busy
  connecting := h.connecting

theorem AtRest.swapFunctors (h : c.AtRest) : { c with queue := c.queue.swapFunctors }.AtRest where
  asserted := h.asserted
  begun := h.begun
  queued := by
    have hqueued := h.queued
    simpa using hqueued
  owned := h.owned
  busy := h.busy
  connecting := h.connecting

theorem AtRest.start (h : c.AtRest) (hstate : thread = 0 → c.state = .kDisconnected)
    (hchannel : thread = 0 → errno.underWay → c.channel = none) :
    (c.start thread errno).AtRest := by
  unfold Connector.start
  dsimp only
  split
  · rename_i hthread
    exact (h.setConnect true).startInLoop (hstate hthread) fun _ => hchannel hthread
  · exact (h.setConnect true).queueInLoop nofun

/-- What `removeAndResetChannel` leaves. -/
theorem Sound.removeAndResetChannel (h : c.Sound []) (hchannel : c.channel = some ⟨sockfd, true⟩) :
    Holds (c.removeAndResetChannel thread) (fun p => p.1 = sockfd ∧ p.2.Sound [sockfd] ∧
      p.2.busy = c.busy) fun _ => False := by
  unfold Connector.removeAndResetChannel
  rw [hchannel]
  refine ⟨rfl, ?_, rfl⟩
  exact {
    asserted := h.asserted
    begun := by
      have hbegun := h.begun
      rw [hchannel] at hbegun
      exact hbegun
    queued := by
      have hqueued := h.queued
      simp only [hchannel] at hqueued
      simpa [Connector.queueInLoop, Connector.poller] using hqueued
    owned := by
      intro fd
      have howned := h.owned fd
      simp only [watched, hchannel] at howned
      simpa [Connector.queueInLoop, Connector.poller, watched] using howned }

theorem AtRest.stopInLoop (h : c.AtRest) :
    Holds (c.stopInLoop thread) AtRest fun _ => False := by
  unfold Connector.stopInLoop
  split
  · rename_i hstate
    obtain ⟨sockfd, hchannel⟩ := h.connecting hstate
    apply (h.toSound.setDisconnected.removeAndResetChannel hchannel).bind
    rintro ⟨_, next⟩ ⟨rfl, hnext, -⟩
    exact hnext.retry
  · exact h

theorem AtRest.handleError (h : c.AtRest) :
    Holds (c.handleError thread) AtRest fun _ => False := by
  unfold Connector.handleError
  split
  · rename_i hstate
    obtain ⟨sockfd, hchannel⟩ := h.connecting hstate
    apply (h.toSound.removeAndResetChannel hchannel).bind
    rintro ⟨_, next⟩ ⟨rfl, hnext, -⟩
    exact hnext.retry
  · exact h

theorem AtRest.assert (h : c.AtRest) {assertion : ClientAssertion} {holds : Bool}
    (hother : assertion = .handleWrite ∨ assertion = .removeConnection) :
    (c.assert assertion holds).AtRest := by
  rw [assert_eq]
  exact {
    asserted := by
      obtain ⟨hstart, hconnecting, hreset⟩ := h.asserted
      obtain rfl | rfl := hother <;> cases holds <;> simp [Asserted, *]
    begun := h.begun
    queued := h.queued
    owned := h.owned
    busy := h.busy
    connecting := h.connecting }

theorem Sound.handOver (h : c.Sound [sockfd]) (hbusy : c.busy = true) :
    { c with state := .kConnected, handed := c.handed ++ [sockfd] }.AtRest where
  asserted := h.asserted
  begun := h.begun
  queued := h.queued
  owned := by
    intro fd
    have howned := h.owned fd
    simp only [watched, List.count_append, List.count_nil] at howned ⊢
    omega
  busy := by simp [hbusy]
  connecting := fun h => nomatch h

theorem Sound.abandon (h : c.Sound [sockfd]) (hbusy : c.busy = true) :
    ({ c with state := .kConnected }.close sockfd).AtRest where
  asserted := h.asserted
  begun := h.begun
  queued := h.queued
  owned := h.close.owned
  busy := by simp [Connector.close, hbusy]
  connecting := fun h => nomatch h

theorem AtRest.handleWrite (h : c.AtRest) {completion : Completion} :
    Holds (c.handleWrite thread completion) (fun p => p.1.AtRest) fun _ => False := by
  unfold Connector.handleWrite
  split
  · rename_i hstate
    obtain ⟨sockfd, hchannel⟩ := h.connecting hstate
    apply (h.toSound.removeAndResetChannel hchannel).bind
    rintro ⟨_, next⟩ ⟨rfl, hnext, hbusy⟩
    have hconnected : next.busy = true := by
      rw [hbusy, h.busy, hstate]
      simp
    dsimp only
    split
    · exact hnext.retry
    · split
      · exact hnext.retry
      · split
        · exact hnext.handOver hconnected
        · exact hnext.abandon hconnected
  · exact h.assert (.inl rfl)

/-- The functor that was queued for it resets the channel. -/
theorem AtRest.resetChannel (h : c.AtRest) {functors : List ClientFunctor}
    (hfunctors : c.queue.functors = .resetChannel :: functors) :
    { c with queue.functors := functors, ran := c.ran + 1 }.resetChannel.AtRest := by
  have hqueued := h.queued
  simp only [EventLoop.inOrder, hfunctors, List.cons_append, List.count_cons_self] at hqueued
  obtain ⟨sockfd, hchannel⟩ := h.channel_of_mem (by simp [EventLoop.inOrder, hfunctors])
  unfold Connector.resetChannel
  rw [assert_of_true (by simp [hchannel])]
  exact {
    asserted := h.asserted
    begun := by
      have hbegun := h.begun
      rw [hchannel] at hbegun
      simpa using hbegun
    queued := by
      rw [hchannel] at hqueued
      simpa [EventLoop.inOrder] using hqueued
    owned := by
      intro fd
      have howned := h.owned fd
      simp only [watched, hchannel] at howned
      simpa [watched] using howned
    busy := h.busy
    connecting := by
      intro hstate
      obtain ⟨_, hregistered⟩ := h.connecting hstate
      rw [hchannel] at hregistered
      cases hregistered }

theorem AtRest.takeFunctor (h : c.AtRest) {cb : ClientFunctor} {functors : List ClientFunctor}
    (hfunctors : c.queue.functors = cb :: functors) (hcb : cb ≠ .resetChannel) :
    { c with queue.functors := functors, ran := c.ran + 1 }.AtRest where
  asserted := h.asserted
  begun := h.begun
  queued := by
    rw [← h.queued]
    simp [EventLoop.inOrder, hfunctors, hcb]
  owned := h.owned
  busy := h.busy
  connecting := h.connecting

/-! ### Assertions that have failed -/

theorem asserted_of_append {assertions : List ClientAssertion}
    (hfailed : next.failed = c.failed ++ assertions) (h : next.Asserted) : c.Asserted := by
  unfold Asserted at h
  rw [hfailed] at h
  simp only [List.mem_append, not_or] at h
  exact ⟨h.1.1, h.2.1.1, h.2.2.1⟩

theorem asserted_of_eq (hfailed : next.failed = c.failed) (h : next.Asserted) : c.Asserted := by
  unfold Asserted at h
  rwa [hfailed] at h

@[simp]
theorem retry_failed : (c.retry sockfd).failed = c.failed := by
  unfold Connector.retry
  dsimp only
  split <;> rfl

theorem assert_asserted {assertion : ClientAssertion} {holds : Bool}
    (h : (c.assert assertion holds).Asserted) : c.Asserted :=
  asserted_of_append (by rw [assert_eq]) h

theorem connectTo_asserted (h : (c.connectTo thread errno).Asserted) :
    c.Asserted ∧ (errno.underWay → c.channel = none) := by
  by_cases hunderWay : errno.underWay
  · rw [connectTo_of_underWay hunderWay, Connector.connecting, assert_eq] at h
    dsimp only [Connector.poller] at h
    refine ⟨asserted_of_append rfl h, ?_⟩
    cases hchannel : c.channel with
    | none => exact fun _ => rfl
    | some channel => simp [Asserted, hchannel] at h
  · refine ⟨?_, fun hcontra => (hunderWay hcontra).elim⟩
    cases connectTo_of_not_underWay c thread hunderWay with
    | inl hretry =>
        rw [hretry] at h
        exact asserted_of_eq (c := c) (by rw [retry_failed]) h
    | inr hclose =>
        rw [hclose] at h
        exact h

/-- `startInLoop` and `connecting` assert what they need. -/
theorem startInLoop_asserted (h : (c.startInLoop thread errno).Asserted) :
    c.Asserted ∧ c.state = .kDisconnected ∧ (c.connect → errno.underWay → c.channel = none) := by
  unfold Connector.startInLoop at h
  dsimp only at h
  have hstart : (c.assert .startInLoop (c.state = .kDisconnected)).Asserted ∧
      (c.connect → errno.underWay → c.channel = none) := by
    rw [assert_connect] at h
    split at h
    · rw [assert_eq] at h ⊢
      obtain ⟨hasserted, hchannel⟩ := connectTo_asserted h
      exact ⟨hasserted, fun _ => hchannel⟩
    · rename_i hconnect
      exact ⟨h, fun hcontra => (hconnect hcontra).elim⟩
  obtain ⟨hasserted, hchannel⟩ := hstart
  refine ⟨assert_asserted hasserted, ?_, hchannel⟩
  by_contra hstate
  simp [assert_eq, Asserted, hstate] at hasserted

theorem restart_asserted (h : (c.restart thread errno).Asserted) :
    c.Asserted ∧ (errno.underWay → c.channel = none) := by
  obtain ⟨hasserted, -, hchannel⟩ := startInLoop_asserted h
  exact ⟨hasserted, hchannel rfl⟩

theorem removeAndResetChannel_failed
    (h : c.removeAndResetChannel thread = .ok (sockfd, next)) : next.failed = c.failed := by
  unfold Connector.removeAndResetChannel at h
  split at h
  · cases h
  · cases h
    rfl

/-- The attempt is given up and made again later. -/
theorem asserted_of_retried {start : Connector} (hstart : start.failed = c.failed)
    (h : (do let (sockfd, c) ← start.removeAndResetChannel thread
             return c.retry sockfd) = .ok next) (hnext : next.Asserted) : c.Asserted := by
  obtain ⟨⟨sockfd, removed⟩, hremoved, hretried⟩ := bind_eq_ok.mp h
  cases hretried
  apply asserted_of_eq _ hnext
  rw [retry_failed, removeAndResetChannel_failed hremoved, hstart]

theorem stopInLoop_asserted (h : c.stopInLoop thread = .ok next) (hnext : next.Asserted) :
    c.Asserted := by
  unfold Connector.stopInLoop at h
  split at h
  · have hstart : { c with state := .kDisconnected }.failed = c.failed := rfl
    exact asserted_of_retried hstart h hnext
  · cases h
    exact hnext

theorem handleError_asserted (h : c.handleError thread = .ok next) (hnext : next.Asserted) :
    c.Asserted := by
  unfold Connector.handleError at h
  split at h
  · exact asserted_of_retried rfl h hnext
  · cases h
    exact hnext

theorem handleWrite_asserted {completion : Completion} {handed : Option Nat}
    (h : c.handleWrite thread completion = .ok (next, handed)) (hnext : next.Asserted) :
    c.Asserted := by
  unfold Connector.handleWrite at h
  split at h
  · obtain ⟨⟨sockfd, removed⟩, hremoved, hcompleted⟩ := bind_eq_ok.mp h
    apply asserted_of_eq _ hnext
    rw [← removeAndResetChannel_failed hremoved]
    dsimp only at hcompleted
    split at hcompleted
    · cases hcompleted
      exact retry_failed
    · split at hcompleted
      · cases hcompleted
        exact retry_failed
      · split at hcompleted
        · cases hcompleted
          rfl
        · cases hcompleted
          rfl
  · cases h
    exact assert_asserted hnext

end Connector

namespace StreamClient

/-! What a step asks for: `idle` where it calls `startInLoop` other than through `restart`, and
`free` where it begins an attempt. -/

def CloseAsks (client : StreamClient) (free : Prop) (fd : Nat) (errno : ConnectErrno) : Prop :=
  fd ∈ client.live → client.retry ∧ client.connect → errno.underWay → free

def CallbackAsks (client : StreamClient) (free : Prop) (outcome : ConnectionOutcome)
    (errno : ConnectErrno) : ClientCallback → Prop
  | .connection fd => outcome = .closes → client.CloseAsks free fd errno
  | .handleError | .handleWrite => True

def FunctorAsks (client : StreamClient) (idle free : Prop) (errno : ConnectErrno) :
    ClientFunctor → Prop
  | .startInLoop => idle ∧ (client.connector.connect → errno.underWay → free)
  | .forceCloseInLoop fd => client.CloseAsks free fd errno
  | .stopInLoop | .resetChannel | .connectDestroyed _ => True

def Asks (client : StreamClient) (idle free : Prop) : ClientEvent → Prop
  | .connect thread errno | .connectorStart thread errno =>
      thread = loopThread → idle ∧ (errno.underWay → free)
  | .connectorRestart errno => errno.underWay → free
  | .timer index errno =>
      index < client.connector.timers.length →
        idle ∧ (client.connector.connect → errno.underWay → free)
  | .callback _ outcome errno =>
      ∀ cb callbacks, client.position = .dispatch (cb :: callbacks) →
        client.CallbackAsks free outcome errno cb
  | .functor errno =>
      client.position = .functors → ∀ f functors, client.connector.queue.functors = f :: functors →
        client.FunctorAsks idle free errno f
  | .stop | .disconnect | .enableRetry | .connectorStop | .forceClose _ | .poll _ | .swap => True

/-- `startInLoop` is not called while an attempt is under way or has succeeded, nor does an attempt
begin before the channel of the one before it has been reset. -/
def InTurn (client : StreamClient) (event : ClientEvent) : Prop :=
  client.Asks (¬ client.connector.busy) (client.connector.begun = client.connector.resets) event

variable {client next : StreamClient} {event : ClientEvent} {fd : Nat} {errno : ConnectErrno}

theorem inTurn_iff (h : client.connector.AtRest) : client.InTurn event ↔
    client.Asks (client.connector.state = .kDisconnected) (client.connector.channel = none)
      event := by
  have hidle : (¬ client.connector.busy) ↔ client.connector.state = .kDisconnected := by
    rw [h.busy, not_not]
  rw [InTurn, hidle, ← h.channel_eq_none]

theorem handleClose_asserted (h : (client.handleClose fd errno).connector.Asserted) :
    client.connector.Asserted ∧ client.CloseAsks (client.connector.channel = none) fd errno := by
  have hremoved : ∀ c : Connector,
      ((c.assert .removeConnection (client.connection = some fd)).queueInLoop
        (.connectDestroyed fd)).Asserted → c.Asserted :=
    fun c h => Connector.assert_asserted (c := c) h
  simp only [handleClose, removeConnection] at h
  split at h
  · obtain ⟨hasserted, hchannel⟩ := Connector.restart_asserted h
    refine ⟨hremoved (client.connector.poller _ _ _) hasserted, fun _ _ hunderWay => ?_⟩
    have hnone := hchannel hunderWay
    rwa [Connector.assert_eq] at hnone
  · rename_i hreconnects
    refine ⟨hremoved (client.connector.poller _ _ _) h, ?_⟩
    exact fun _ hcontra => (hreconnects hcontra).elim

theorem start_asserted {c : Connector} {thread : Nat} (h : (c.start thread errno).Asserted) :
    c.Asserted ∧ (thread = loopThread →
      c.state = .kDisconnected ∧ (errno.underWay → c.channel = none)) := by
  unfold Connector.start at h
  dsimp only at h
  split at h
  · obtain ⟨hasserted, hstate, hchannel⟩ := Connector.startInLoop_asserted h
    exact ⟨hasserted, fun _ => ⟨hstate, hchannel rfl⟩⟩
  · rename_i hthread
    exact ⟨h, fun hcontra => (hthread hcontra).elim⟩

theorem runCallback_asserted {completion : Completion} {outcome : ConnectionOutcome}
    {cb : ClientCallback} (h : client.runCallback completion outcome errno cb = .ok next)
    (hnext : next.connector.Asserted) :
    client.connector.Asserted ∧
      client.CallbackAsks (client.connector.channel = none) outcome errno cb := by
  cases cb with
  | handleError =>
      obtain ⟨connector, hrun, hclient⟩ := bind_eq_ok.mp h
      cases hclient
      exact ⟨Connector.handleError_asserted hrun hnext, trivial⟩
  | handleWrite =>
      obtain ⟨⟨connector, handed⟩, hrun, hclient⟩ := bind_eq_ok.mp h
      refine ⟨Connector.handleWrite_asserted hrun ?_, trivial⟩
      cases handed with
      | none =>
          cases hclient
          exact hnext
      | some sockfd =>
          cases hclient
          exact hnext
  | connection fd =>
      simp only [runCallback] at h
      by_cases hlive : fd ∈ client.live
      · rw [if_pos hlive] at h
        cases outcome with
        | closes =>
            cases h
            obtain ⟨hasserted, hasks⟩ := handleClose_asserted hnext
            exact ⟨hasserted, fun _ => hasks⟩
        | updates =>
            cases h
            exact ⟨hnext, nofun⟩
        | neither =>
            cases h
            exact ⟨hnext, nofun⟩
      · rw [if_neg hlive] at h
        cases h
        exact ⟨hnext, fun _ hcontra => (hlive hcontra).elim⟩

theorem runFunctor_asserted {f : ClientFunctor} (h : client.runFunctor errno f = .ok next)
    (hnext : next.connector.Asserted) :
    client.connector.Asserted ∧ client.FunctorAsks (client.connector.state = .kDisconnected)
      (client.connector.channel = none) errno f := by
  cases f with
  | startInLoop =>
      cases h
      exact Connector.startInLoop_asserted hnext
  | stopInLoop =>
      obtain ⟨connector, hrun, hclient⟩ := bind_eq_ok.mp h
      cases hclient
      exact ⟨Connector.stopInLoop_asserted hrun hnext, trivial⟩
  | resetChannel =>
      cases h
      exact ⟨Connector.assert_asserted (c := client.connector) hnext, trivial⟩
  | forceCloseInLoop fd =>
      cases h
      by_cases hlive : fd ∈ client.live
      · rw [if_pos hlive] at hnext
        exact handleClose_asserted hnext
      · rw [if_neg hlive] at hnext
        exact ⟨hnext, fun hcontra => (hlive hcontra).elim⟩
  | connectDestroyed fd =>
      cases h
      exact ⟨hnext, trivial⟩

/-- Where no assertion fails the event has got what it asks for. -/
theorem step_asserted (h : client.step event = .ok next) (hnext : next.connector.Asserted) :
    client.connector.Asserted ∧
      client.Asks (client.connector.state = .kDisconnected) (client.connector.channel = none)
        event := by
  cases event with
  | connect thread errno =>
      cases h
      exact start_asserted hnext
  | connectorStart thread errno =>
      cases h
      exact start_asserted hnext
  | connectorRestart errno =>
      cases h
      exact Connector.restart_asserted hnext
  | timer index errno =>
      cases h
      by_cases hindex : index < client.connector.timers.length
      · rw [if_pos hindex] at hnext
        obtain ⟨hasserted, hstart⟩ := Connector.startInLoop_asserted hnext
        exact ⟨hasserted, fun _ => hstart⟩
      · rw [if_neg hindex] at hnext
        exact ⟨hnext, fun hcontra => (hindex hcontra).elim⟩
  | callback completion outcome errno =>
      simp only [step] at h
      split at h
      · rename_i cb callbacks hposition
        obtain ⟨hasserted, hasks⟩ := runCallback_asserted h hnext
        refine ⟨hasserted, ?_⟩
        rintro cb' callbacks' hposition'
        rw [hposition] at hposition'
        cases hposition'
        exact hasks
      all_goals
        rename_i hposition
        cases h
        refine ⟨hnext, ?_⟩
        rintro cb callbacks hcontra
        rw [hposition] at hcontra
        cases hcontra
  | functor errno =>
      simp only [step] at h
      by_cases hposition : client.position = .functors
      · rw [if_pos hposition] at h
        split at h
        · rename_i hfunctors
          cases h
          refine ⟨hnext, ?_⟩
          rintro - f functors hcontra
          rw [hfunctors] at hcontra
          cases hcontra
        · rename_i f functors hfunctors
          obtain ⟨hasserted, hasks⟩ := runFunctor_asserted h hnext
          refine ⟨hasserted, ?_⟩
          rintro - f' functors' hfunctors'
          rw [hfunctors] at hfunctors'
          cases hfunctors'
          exact hasks
      · rw [if_neg hposition] at h
        cases h
        exact ⟨hnext, fun hcontra => (hposition hcontra).elim⟩
  | forceClose fd =>
      cases h
      split at hnext <;> exact ⟨hnext, trivial⟩
  | poll active =>
      cases h
      split at hnext <;> exact ⟨hnext, trivial⟩
  | swap =>
      cases h
      split at hnext <;> exact ⟨hnext, trivial⟩
  | _ =>
      cases h
      exact ⟨hnext, trivial⟩

/-! ### Events that get what they ask for -/

theorem handleClose_atRest (h : client.connector.AtRest) (hlive : fd ∈ client.live)
    (hasks : client.CloseAsks (client.connector.channel = none) fd errno) :
    (client.handleClose fd errno).connector.AtRest := by
  have hremoved : ((client.connector.poller loopThread .updateChannel fd).assert
      .removeConnection (client.connection = some fd)).AtRest :=
    (h.poller loopThread .updateChannel fd).assert (.inr rfl)
  have hqueued : (Connector.queueInLoop _ (.connectDestroyed fd)).AtRest :=
    hremoved.queueInLoop nofun
  simp only [handleClose, removeConnection]
  split
  · rename_i hreconnects
    apply hqueued.restart
    intro hunderWay
    rw [Connector.assert_eq]
    exact hasks hlive hreconnects hunderWay
  · exact hqueued

theorem runCallback_atRest {completion : Completion} {outcome : ConnectionOutcome}
    {cb : ClientCallback} (h : client.connector.AtRest)
    (hasks : client.CallbackAsks (client.connector.channel = none) outcome errno cb) :
    Holds (client.runCallback completion outcome errno cb) (fun next => next.connector.AtRest)
      fun _ => False := by
  cases cb with
  | handleError => exact h.handleError.bind fun _ hconnector => hconnector
  | handleWrite =>
      apply h.handleWrite.bind
      rintro ⟨connector, handed⟩ hconnector
      cases handed with
      | none => exact hconnector
      | some sockfd => exact hconnector.poller _ _ _
  | connection fd =>
      simp only [runCallback]
      split
      · rename_i hlive
        cases outcome with
        | closes => exact handleClose_atRest h hlive (hasks rfl)
        | updates => exact h.poller _ _ _
        | neither => exact h
      · exact h

theorem runFunctor_atRest {f : ClientFunctor} {functors : List ClientFunctor}
    (h : client.connector.AtRest) (hfunctors : client.connector.queue.functors = f :: functors)
    (hasks : client.FunctorAsks (client.connector.state = .kDisconnected)
      (client.connector.channel = none) errno f) :
    Holds ({ client with connector :=
        { client.connector with
          queue := { client.connector.queue with functors := functors }
          ran := client.connector.ran + 1 } }.runFunctor errno f)
      (fun next => next.connector.AtRest) fun _ => False := by
  cases f with
  | resetChannel => exact h.resetChannel hfunctors
  | startInLoop => exact (h.takeFunctor hfunctors nofun).startInLoop hasks.1 hasks.2
  | stopInLoop => exact (h.takeFunctor hfunctors nofun).stopInLoop.bind fun _ hnext => hnext
  | forceCloseInLoop fd =>
      have htaken := h.takeFunctor hfunctors nofun
      simp only [runFunctor]
      split
      · rename_i hlive
        exact handleClose_atRest htaken hlive hasks
      · exact htaken
  | connectDestroyed fd => exact (h.takeFunctor hfunctors nofun).poller _ _ _

/-- An event that gets what it asks for leaves the connector at rest. -/
theorem step_atRest (h : client.connector.AtRest)
    (hasks : client.Asks (client.connector.state = .kDisconnected)
      (client.connector.channel = none) event) :
    Holds (client.step event) (fun next => next.connector.AtRest) fun _ => False := by
  cases event with
  | connect thread errno =>
      exact h.start (fun hthread => (hasks hthread).1) fun hthread => (hasks hthread).2
  | connectorStart thread errno =>
      exact h.start (fun hthread => (hasks hthread).1) fun hthread => (hasks hthread).2
  | connectorRestart errno => exact h.restart hasks
  | stop => exact h.stop
  | connectorStop => exact h.stop
  | disconnect => exact h
  | enableRetry => exact h
  | forceClose fd =>
      simp only [step]
      split
      · exact h.queueInLoop nofun
      · exact h
  | timer index errno =>
      simp only [step]
      split
      · rename_i hindex
        obtain ⟨hstate, hchannel⟩ := hasks hindex
        exact (h.setTimers _).startInLoop hstate hchannel
      · exact h
  | poll active =>
      simp only [step]
      split <;> exact h
  | callback completion outcome errno =>
      simp only [step]
      split
      · rename_i cb callbacks hposition
        exact runCallback_atRest h (hasks cb callbacks hposition)
      all_goals exact h
  | swap =>
      simp only [step]
      split
      · exact h.swapFunctors
      · exact h
  | functor errno =>
      simp only [step]
      split
      · rename_i hposition
        split
        · exact h
        · rename_i f functors hfunctors
          exact runFunctor_atRest h hfunctors (hasks hposition f functors hfunctors)
      · exact h

/-- No assertion about the attempts fails if and only if the attempts come in turn. -/
theorem asserted_iff_inTurn (retry : Bool) (events : List ClientEvent) :
    Holds (Machine.run step (init retry) events) (fun client => client.connector.Asserted)
        (fun _ => False) ↔
      Machine.Always step InTurn (init retry) events := by
  refine Machine.holds_iff_always (fun client (h : client.connector.AtRest) => h.asserted)
    ?_ ?_ ?_ Connector.atRest_init
  · intro client event next hstep hnext
    exact (step_asserted hstep hnext).1
  · intro client event h hturn
    exact step_atRest h ((inTurn_iff h).mp hturn)
  · intro client event next h hstep hnext
    exact (inTurn_iff h).mpr (step_asserted hstep hnext).2

/-- Another attempt begins before the timer of a refused one fires. -/
def startedTwice : List ClientEvent :=
  [.connect loopThread .ECONNREFUSED, .connect loopThread .EINPROGRESS, .timer 0 .EINPROGRESS]

theorem not_asserted_startedTwice :
    ¬ ∀ (retry : Bool) (events : List ClientEvent) (client : StreamClient),
      Machine.run step (init retry) events = .ok client → client.connector.Asserted := by
  intro h
  exact (h false startedTwice _ rfl).1 (by decide)

end StreamClient

end ToyBasket
