import Mathlib.Algebra.Group.Nat.Defs
import ToyBasket.Net.ClientLife

/-!
# A client that keeps trying

While a client is not stopped one thing keeps it going: a connection, the attempt that is under way,
the timer of `retry` or the `startInLoop` that is queued. Only an error of `connect` on which the
connector does not try again ends that.
-/

namespace ToyBasket

open Outcome Machine

/-- The errors on which `connect` goes on to `connecting` or to `retry`. -/
def ConnectErrno.goesOn : ConnectErrno → Bool
  | .zero | .EINPROGRESS | .EINTR | .EISCONN => true
  | .EAGAIN | .EADDRINUSE | .EADDRNOTAVAIL | .ECONNREFUSED | .ENETUNREACH => true
  | .EACCES | .EPERM | .EAFNOSUPPORT | .EALREADY | .EBADF | .EFAULT | .ENOTSOCK => false
  | .other _ => false

namespace Connector

/-- What can still lead to a connection. -/
def prospects (c : Connector) : Nat :=
  c.watched.length + c.timers.length + c.queue.inOrder.count .startInLoop

/-- The descriptor of the first attempt since the last connection. -/
def first (c : Connector) : Nat := c.handed.getLast?.elim 0 (· + 1)

/-- The delay after so many retries. -/
def backOff (retries : Nat) : Nat := min (kInitRetryDelayMs * 2 ^ retries) kMaxRetryDelayMs

/-- How many attempts have failed since the last connection, by their descriptors. -/
structure Spaced (c : Connector) : Prop where
  connecting : c.state = .kConnecting → ∃ retries registered,
    c.channel = some ⟨c.first + retries, registered⟩ ∧ c.sockets = c.first + retries + 1 ∧
      c.retryDelayMs = backOff retries
  connected : c.state = .kConnected → c.sockets = c.first
  waiting : ∀ timer ∈ c.timers, ∃ retries, c.sockets = c.first + retries + 1 ∧
    timer.delay = backOff retries ∧ c.retryDelayMs = backOff (retries + 1)
  queued : .startInLoop ∈ c.queue.inOrder → c.sockets = c.first ∧ c.retryDelayMs = backOff 0

variable {c next : Connector} {thread sockfd retries : Nat} {errno : ConnectErrno}
  {live : List Nat} {cb f : ClientFunctor} {functors : List ClientFunctor}

theorem min_backOff_mul (retries : Nat) :
    min (backOff retries * 2) kMaxRetryDelayMs = backOff (retries + 1) := by
  unfold backOff kInitRetryDelayMs kMaxRetryDelayMs
  rw [pow_succ]
  omega

theorem connectTo_of_retries (hunderWay : ¬ errno.underWay) (hgoesOn : errno.goesOn) :
    c.connectTo thread errno = { c with sockets := c.sockets + 1 }.retry c.sockets := by
  cases errno <;> first | exact (hunderWay rfl).elim | rfl | cases hgoesOn

theorem connectTo_of_not_goesOn (hgoesOn : ¬ errno.goesOn) :
    c.connectTo thread errno = { c with sockets := c.sockets + 1 }.close c.sockets := by
  cases errno <;> first | rfl | exact (hgoesOn rfl).elim

theorem goesOn_of_underWay (hunderWay : errno.underWay) : errno.goesOn := by
  cases errno <;> first | rfl | cases hunderWay

theorem Spaced.of_eq (h : c.Spaced) (hstate : next.state = c.state)
    (hchannel : next.channel = c.channel) (hdelay : next.retryDelayMs = c.retryDelayMs)
    (htimers : next.timers = c.timers) (hsockets : next.sockets = c.sockets)
    (hhanded : next.handed = c.handed)
    (hqueue : .startInLoop ∈ next.queue.inOrder → .startInLoop ∈ c.queue.inOrder) :
    next.Spaced := by
  have hfirst : next.first = c.first := by rw [first, hhanded, first]
  constructor
  · rw [hstate, hchannel, hsockets, hfirst, hdelay]
    exact h.connecting
  · rw [hstate, hsockets, hfirst]
    exact h.connected
  · rw [htimers, hsockets, hfirst, hdelay]
    exact h.waiting
  · rw [hsockets, hfirst, hdelay]
    exact fun hmem => h.queued (hqueue hmem)

/-- What a function of a connector that is not stopped leaves. -/
structure Trying (c : Connector) (prospects : Nat) : Prop where
  connect : c.connect = true
  spaced : c.Spaced
  prospects : c.prospects = prospects

theorem retry_trying (hconnect : c.connect = true) (htimers : c.timers = [])
    (hwatched : c.watched = []) (hstart : .startInLoop ∉ c.queue.inOrder)
    (hsockets : c.sockets = c.first + retries + 1) (hdelay : c.retryDelayMs = backOff retries) :
    (c.retry sockfd).Trying 1 := by
  have hnone : c.queue.inOrder.count .startInLoop = 0 := List.count_eq_zero.mpr hstart
  have hnext := min_backOff_mul retries
  rw [← hdelay] at hnext
  unfold Connector.retry Connector.close
  simp only [hconnect, if_true, htimers, List.nil_append]
  refine ⟨rfl, ⟨?_, ?_, ?_, fun hmem => (hstart hmem).elim⟩, ?_⟩
  · simp
  · simp
  · rw [List.forall_mem_singleton]
    exact ⟨retries, hsockets, hdelay, hnext⟩
  · calc _ = c.watched.length + 1 + c.queue.inOrder.count .startInLoop := rfl
      _ = 1 := by rw [hwatched, hnone]; rfl

/-- An attempt begins where none is under way and none is to come. -/
theorem Fresh.startInLoop_trying (h : c.Fresh) (hstart : .startInLoop ∉ c.queue.inOrder)
    (hconnect : c.connect = true) (hsockets : c.sockets = c.first + retries)
    (hdelay : c.retryDelayMs = backOff retries) :
    (c.startInLoop thread errno).Trying (if errno.goesOn then 1 else 0) := by
  have hnone : c.queue.inOrder.count .startInLoop = 0 := List.count_eq_zero.mpr hstart
  unfold Connector.startInLoop
  rw [assert_of_true (by simp [h.state])]
  simp only [hconnect, if_true]
  by_cases hunderWay : errno.underWay
  · rw [if_pos (goesOn_of_underWay hunderWay), connectTo_of_underWay hunderWay,
      Connector.connecting]
    simp only [assert_of_true, h.channel, Option.isNone_none]
    refine ⟨hconnect, ⟨fun _ => ⟨retries, true, ?_, ?_, hdelay⟩, ?_, ?_, ?_⟩, ?_⟩
    · simp [poller, first, hsockets]
    · simp [poller, first, hsockets]
    · simp [poller]
    · simp [poller, h.timers]
    · exact fun hmem => (hstart hmem).elim
    · simp [prospects, poller, watched, h.timers, hnone]
  · by_cases hgoesOn : errno.goesOn
    · rw [if_pos hgoesOn, connectTo_of_retries hunderWay hgoesOn]
      have hnext : c.sockets + 1 = c.first + retries + 1 := by rw [hsockets]
      exact Connector.retry_trying (by exact hconnect) h.timers
        (by simp [watched, h.channel]) hstart hnext hdelay
    · rw [if_neg hgoesOn, connectTo_of_not_goesOn hgoesOn]
      refine ⟨hconnect, ⟨?_, ?_, ?_, ?_⟩, ?_⟩
      · simp [Connector.close, h.state]
      · simp [Connector.close, h.state]
      · simp [Connector.close, h.timers]
      · exact fun hmem => (hstart hmem).elim
      · simp [prospects, Connector.close, watched, h.channel, h.timers, hnone]

/-- What `removeAndResetChannel` leaves as it was. -/
structure Kept (c next : Connector) : Prop where
  connect : next.connect = c.connect
  sockets : next.sockets = c.sockets
  retryDelayMs : next.retryDelayMs = c.retryDelayMs

theorem Sound.removed_kept (h : c.Sound []) (hchannel : c.channel = some ⟨sockfd, true⟩) :
    Holds (c.removeAndResetChannel thread)
      (fun p => p.1 = sockfd ∧ c.Removed sockfd p.2 ∧ c.Kept p.2) fun _ => False := by
  have hremoved : Holds (c.removeAndResetChannel thread) _ _ := h.removed hchannel
  unfold Connector.removeAndResetChannel at hremoved ⊢
  rw [hchannel] at hremoved ⊢
  exact ⟨hremoved.1, hremoved.2, rfl, rfl, rfl⟩

theorem Removed.first_eq (h : c.Removed sockfd next) : next.first = c.first := by
  rw [first, h.handed, first]

/-- The attempt that is under way is given up, and the next one is to come. -/
theorem Orderly.retry_trying (h : c.Orderly live) (hstate : c.state = .kConnecting)
    (hremoved : c.Removed sockfd next) (hkept : c.Kept next) (hconnect : c.connect = true)
    (hspaced : c.Spaced) : (next.retry sockfd).Trying 1 := by
  obtain ⟨retries, registered, -, hsockets, hdelay⟩ := hspaced.connecting hstate
  obtain ⟨-, htimers, hstart, -⟩ := h.of_removed hstate hremoved
  rw [← hkept.sockets, ← hremoved.first_eq] at hsockets
  rw [← hkept.retryDelayMs] at hdelay
  exact Connector.retry_trying (hkept.connect.trans hconnect) htimers hremoved.watched hstart
    hsockets hdelay

theorem Orderly.watched_eq_nil (h : c.Orderly live) (hstate : c.state ≠ .kConnecting) :
    c.watched = [] := by
  by_contra hne
  exact hstate (h.watching hne)

theorem Orderly.prospects_connecting (h : c.Orderly live) (hstate : c.state = .kConnecting) :
    c.prospects = 1 := by
  have hconnecting : c.state ≠ .kDisconnected := by simp [hstate]
  obtain ⟨sockfd, hchannel⟩ := h.connecting hstate
  have hnone := List.count_eq_zero.mpr (h.not_mem_of_not_fresh hconnecting)
  simp [prospects, watched, hchannel, h.timers_eq_nil hconnecting, hnone]

theorem Orderly.handleError_trying (h : c.Orderly live) {prospects : Nat}
    (htrying : c.Trying prospects) :
    Holds (c.handleError thread) (fun next => next.Trying prospects) fun _ => False := by
  unfold Connector.handleError
  split
  · rename_i hstate
    obtain ⟨sockfd, hchannel⟩ := h.connecting hstate
    apply (h.toSound.removed_kept hchannel).bind
    rintro ⟨_, next⟩ ⟨rfl, hremoved, hkept⟩
    rw [← htrying.prospects, h.prospects_connecting hstate]
    exact h.retry_trying hstate hremoved hkept htrying.connect htrying.spaced
  · exact htrying

theorem Orderly.stopInLoop_trying (h : c.Orderly live) {prospects : Nat}
    (htrying : c.Trying prospects) :
    Holds (c.stopInLoop thread) (fun next => next.Trying prospects) fun _ => False := by
  unfold Connector.stopInLoop
  split
  · rename_i hstate
    obtain ⟨sockfd, hchannel⟩ := h.connecting hstate
    apply (h.toSound.setDisconnected.removed_kept hchannel).bind
    rintro ⟨_, next⟩ ⟨rfl, hremoved, hkept⟩
    rw [← htrying.prospects, h.prospects_connecting hstate]
    exact h.retry_trying hstate { hremoved with } { hkept with } htrying.connect htrying.spaced
  · exact htrying

/-- The attempt that was under way has become a connection. -/
theorem Orderly.handOver_trying (h : c.Orderly live) (hstate : c.state = .kConnecting)
    (hchannel : c.channel = some ⟨sockfd, true⟩) (hremoved : c.Removed sockfd next)
    (hkept : c.Kept next) (hconnect : c.connect = true) (hspaced : c.Spaced) :
    { next with state := .kConnected, handed := next.handed ++ [sockfd] }.Trying 0 := by
  obtain ⟨retries, registered, hfirst, hsockets, -⟩ := hspaced.connecting hstate
  obtain ⟨-, htimers, hstart, -⟩ := h.of_removed hstate hremoved
  have hfd : sockfd = c.first + retries := by
    rw [hchannel] at hfirst
    cases hfirst
    rfl
  refine ⟨hkept.connect.trans hconnect, ⟨?_, ?_, ?_, fun hmem => (hstart hmem).elim⟩, ?_⟩
  · simp
  · intro _
    calc next.sockets = c.first + retries + 1 := hkept.sockets.trans hsockets
      _ = sockfd + 1 := by rw [hfd]
      _ = (next.handed ++ [sockfd]).getLast?.elim 0 (· + 1) := by simp
  · simp [htimers]
  · calc _ = next.watched.length + next.timers.length +
          next.queue.inOrder.count .startInLoop := rfl
      _ = 0 := by rw [hremoved.watched, htimers, List.count_eq_zero.mpr hstart]; rfl

/-- What `handleWrite` leaves, and the connection that it hands over. -/
theorem Orderly.handleWrite_trying (h : c.Orderly live) (hstate : c.state ≠ .kConnected)
    {prospects : Nat} (htrying : c.Trying prospects) {completion : Completion} :
    Holds (c.handleWrite thread completion)
      (fun p => ∃ left, p.1.Trying left ∧ p.2.toList.length + left = prospects)
      fun _ => False := by
  unfold Connector.handleWrite
  split
  · rename_i hconnecting
    obtain ⟨sockfd, hchannel⟩ := h.connecting hconnecting
    apply (h.toSound.removed_kept hchannel).bind
    rintro ⟨_, next⟩ ⟨rfl, hremoved, hkept⟩
    rw [← htrying.prospects, h.prospects_connecting hconnecting]
    have hretry := h.retry_trying hconnecting hremoved hkept htrying.connect htrying.spaced
    have hhanded := h.handOver_trying hconnecting hchannel hremoved hkept htrying.connect
      htrying.spaced
    dsimp only
    split
    · exact ⟨1, hretry, rfl⟩
    · split
      · exact ⟨1, hretry, rfl⟩
      · rw [if_pos (hkept.connect.trans htrying.connect)]
        exact ⟨0, hhanded, rfl⟩
  · rename_i hconnecting
    have hdisconnected : c.state = .kDisconnected := by
      cases hcase : c.state with
      | kDisconnected => rfl
      | kConnecting => exact (hconnecting hcase).elim
      | kConnected => exact (hstate hcase).elim
    rw [assert_of_true (by simp [hdisconnected])]
    exact ⟨prospects, htrying, Nat.zero_add _⟩

/-! ### The queue -/

theorem Trying.takeFunctor {prospects : Nat} (h : c.Trying prospects)
    (hfunctors : c.queue.functors = f :: functors) :
    ∃ left, Trying { c with
        queue := { c.queue with functors := functors }
        ran := c.ran + 1 } left ∧
      left + [f].count .startInLoop = prospects := by
  have hcount : c.queue.inOrder.count .startInLoop =
      [f].count .startInLoop + (functors ++ c.queue.pendingFunctors).count .startInLoop := by
    rw [EventLoop.inOrder, hfunctors, List.cons_append, ← List.singleton_append,
      List.count_append]
  refine ⟨c.watched.length + c.timers.length +
    (functors ++ c.queue.pendingFunctors).count .startInLoop, ⟨h.connect, ?_, rfl⟩, ?_⟩
  · refine h.spaced.of_eq rfl rfl rfl rfl rfl rfl ?_
    intro hmem
    rw [EventLoop.inOrder, hfunctors, List.cons_append]
    exact List.mem_cons_of_mem _ hmem
  · rw [← h.prospects, Connector.prospects, hcount]
    omega

theorem Trying.queueInLoop {prospects : Nat} (h : c.Trying prospects) (hcb : cb ≠ .startInLoop) :
    (c.queueInLoop cb).Trying prospects where
  connect := h.connect
  spaced := by
    refine h.spaced.of_eq rfl rfl rfl rfl rfl rfl ?_
    intro hmem
    rw [Connector.queueInLoop, EventLoop.inOrder_queueInLoop, List.mem_append] at hmem
    exact hmem.resolve_right fun hcontra => hcb (List.mem_singleton.mp hcontra).symm
  prospects := by
    have hnone : [cb].count .startInLoop = 0 :=
      List.count_eq_zero.mpr fun hcontra => hcb (List.mem_singleton.mp hcontra).symm
    rw [← h.prospects, Connector.prospects, Connector.queueInLoop, EventLoop.inOrder_queueInLoop,
      List.count_append, hnone]
    rfl

theorem Trying.poller {prospects : Nat} (h : c.Trying prospects) (thread : Nat)
    (function : PollerFunction) (fd : Nat) : (c.poller thread function fd).Trying prospects where
  connect := h.connect
  spaced := h.spaced.of_eq rfl rfl rfl rfl rfl rfl id
  prospects := h.prospects

theorem Trying.swapFunctors {prospects : Nat} (h : c.Trying prospects) :
    { c with queue := c.queue.swapFunctors }.Trying prospects where
  connect := h.connect
  spaced := by
    refine h.spaced.of_eq rfl rfl rfl rfl rfl rfl ?_
    rw [EventLoop.inOrder_swapFunctors]
    exact id
  prospects := by
    rw [← h.prospects, Connector.prospects, EventLoop.inOrder_swapFunctors]
    rfl

/-- The channel of an attempt that was given up is reset. -/
theorem Trying.resetChannel {prospects : Nat} (h : c.Trying prospects)
    (hstate : c.state ≠ .kConnecting) (hwatched : c.watched = []) :
    c.resetChannel.Trying prospects where
  connect := by rw [Connector.resetChannel, assert_eq]; exact h.connect
  spaced := by
    rw [Connector.resetChannel, assert_eq]
    exact ⟨fun hcontra => (hstate hcontra).elim, h.spaced.connected, h.spaced.waiting,
      h.spaced.queued⟩
  prospects := by
    rw [Connector.resetChannel, assert_eq, ← h.prospects, Connector.prospects,
      Connector.prospects, hwatched]
    rfl

/-- A connection has closed, and the first attempt after it begins. -/
theorem Trying.restart {prospects : Nat} (h : c.Trying prospects) (horderly : c.Orderly [])
    (hstate : c.state = .kConnected) (hchannel : c.channel = none) :
    (c.restart thread errno).Trying (if errno.goesOn then 1 else 0) := by
  have hconnected : c.state ≠ .kDisconnected := by simp [hstate]
  have hdelay : kInitRetryDelayMs = backOff 0 := by decide
  unfold Connector.restart
  exact Fresh.startInLoop_trying ⟨rfl, hchannel, horderly.timers_eq_nil hconnected⟩
    (horderly.not_mem_of_not_fresh hconnected) rfl (h.spaced.connected hstate) hdelay

end Connector

/-- What `connect` leaves if the event comes to it. -/
def ClientEvent.errno : ClientEvent → ConnectErrno
  | .connect _ errno | .connectorStart _ errno | .timer _ errno => errno
  | .connectorRestart errno | .functor errno => errno
  | .callback _ _ errno => errno
  | .stop | .disconnect | .enableRetry | .connectorStop | .forceClose _ | .poll _ | .swap => .zero

namespace StreamClient

/-- A connection, and what can still lead to one. -/
def prospects (client : StreamClient) : Nat := client.live.length + client.connector.prospects

/-- The event comes to `connect`, for a client that is neither stopped nor disconnected. -/
def connects (client : StreamClient) : ClientEvent → Bool
  | .connect thread _ => thread = loopThread
  | .timer index _ => index < client.connector.timers.length
  | .callback _ outcome _ =>
      match client.position with
      | .dispatch (.connection fd :: _) => outcome = .closes ∧ fd ∈ client.live
      | _ => false
  | .functor _ =>
      match client.position, client.connector.queue.functors with
      | .functors, .startInLoop :: _ => true
      | .functors, .forceCloseInLoop fd :: _ => fd ∈ client.live
      | _, _ => false
  | _ => false

/-- `connect` does not fail with an error on which the connector does not try again. -/
def GoesOn (client : StreamClient) (event : ClientEvent) : Prop :=
  client.connects event → event.errno.goesOn

instance (client : StreamClient) (event : ClientEvent) : Decidable (client.GoesOn event) :=
  inferInstanceAs (Decidable (_ → _))

/-- The client is not told to give up. -/
def Uninterrupted (event : ClientEvent) : Prop :=
  Ordinary event ∧ event ≠ .stop ∧ event ≠ .disconnect

/-- A client that is to be connected, and its prospects. -/
structure Tries (client : StreamClient) (prospects : Nat) : Prop where
  connect : client.connect = true
  retry : client.retry = true
  trying : ∃ left, client.connector.Trying left ∧ client.live.length + left = prospects

variable {client next : StreamClient} {fd prospects : Nat} {errno : ConnectErrno}

theorem Tries.prospects_eq (h : client.Tries prospects) : client.prospects = prospects := by
  obtain ⟨left, htrying, hsum⟩ := h.trying
  rw [StreamClient.prospects, htrying.prospects, hsum]

theorem Normal.prospects_le_one (h : client.Normal) : client.prospects ≤ 1 := by
  have honce := h.orderly.once
  unfold StreamClient.prospects
  cases hstate : client.connector.state with
  | kConnecting =>
      rw [h.orderly.prospects_connecting hstate, h.orderly.live_eq_nil (by simp [hstate])]
      exact Nat.le_refl _
  | kConnected =>
      have hconnected : client.connector.state ≠ .kDisconnected := by simp [hstate]
      have hlive : client.live.length ≤ 1 := by
        rw [h.connection, Option.length_toList]
        split <;> simp
      have hwatched := h.orderly.watched_eq_nil (by simp [hstate])
      rw [Connector.prospects, hwatched, h.orderly.timers_eq_nil hconnected,
        List.count_eq_zero.mpr (h.orderly.not_mem_of_not_fresh hconnected)]
      simpa using hlive
  | kDisconnected =>
      have hwatched := h.orderly.watched_eq_nil (by simp [hstate])
      have hone := h.orderly.oneTimer
      rw [h.orderly.live_eq_nil (by simp [hstate]), Connector.prospects, hwatched]
      by_cases hstart : .startInLoop ∈ client.connector.queue.inOrder
      · rw [(h.orderly.fresh hstart).1.timers]
        simpa using honce
      · rw [List.count_eq_zero.mpr hstart]
        simpa using hone

theorem Tries.handleClose (h : client.Tries prospects) (hnormal : client.Normal)
    (hfd : fd ∈ client.live) (hreset : .resetChannel ∉ client.connector.queue.inOrder) :
    (client.handleClose fd errno).Tries (if errno.goesOn then 1 else 0) := by
  obtain ⟨hstate, -⟩ := hnormal.orderly.connected fd hfd
  obtain ⟨hlive, hconnection⟩ := hnormal.live_eq hfd
  obtain ⟨left, htrying, -⟩ := h.trying
  have hchannel := hnormal.orderly.channel_eq_none (by simp [hstate]) hreset
  have hqueued : (Connector.queueInLoop
      (client.connector.poller loopThread .updateChannel fd) (.connectDestroyed fd)).Orderly [] :=
    (hnormal.orderly.noneLive.poller _ _ _).queueInLoop (by simp) (by simp) (by simp)
  have htried : (Connector.queueInLoop
      (client.connector.poller loopThread .updateChannel fd) (.connectDestroyed fd)).Trying left :=
    (htrying.poller _ _ _).queueInLoop (by simp)
  have hnone : (client.live.filter fun other => other ≠ fd) = [] := by simp [hlive]
  simp only [StreamClient.handleClose, removeConnection, hnone,
    Connector.assert_of_true (decide_eq_true hconnection), h.connect, h.retry, and_self, if_true]
  exact ⟨rfl, rfl, _, htried.restart hqueued hstate hchannel, Nat.zero_add _⟩

/-! ### The steps of the loop -/

theorem Tries.timer (h : client.Tries prospects) (hnormal : client.Normal) {index : Nat}
    (hindex : index < client.connector.timers.length)
    (hturn : client.FiresInTurn (.timer index errno)) :
    Tries { client with connector :=
      { client.connector with
        timers := client.connector.timers.eraseIdx index }.startInLoop timerThread errno }
      (if errno.goesOn then 1 else 0) := by
  obtain ⟨timer, htimers⟩ : ∃ timer, client.connector.timers = [timer] := by
    rw [← List.length_eq_one_iff]
    have hone := hnormal.orderly.oneTimer
    omega
  rw [htimers, List.length_singleton, Nat.lt_one_iff] at hindex
  subst hindex
  obtain ⟨left, htrying, -⟩ := h.trying
  obtain ⟨hstate, hreset⟩ := hnormal.orderly.waiting timer (by simp [htimers])
  obtain ⟨retries, hsockets, -, hdelay⟩ := htrying.spaced.waiting timer (by simp [htimers])
  have hran := hturn timer (by simp [htimers])
  rw [Nat.sub_eq_zero_of_le hran] at hreset
  have hchannel := hnormal.orderly.channel_eq_none (by simp [hstate]) hreset
  have hstart : .startInLoop ∉ client.connector.queue.inOrder := by
    intro hmem
    have hnil := (hnormal.orderly.fresh hmem).1.timers
    rw [htimers] at hnil
    cases hnil
  have hfresh : Connector.Fresh { client.connector with timers := [] } := ⟨hstate, hchannel, rfl⟩
  have hlive := hnormal.orderly.live_eq_nil (by simp [hstate])
  rw [htimers, List.eraseIdx_zero, List.tail_cons]
  refine ⟨h.connect, h.retry, _, hfresh.startInLoop_trying hstart htrying.connect hsockets hdelay,
    ?_⟩
  rw [hlive]
  exact Nat.zero_add _

/-- What is left of the prospects when the event is over. -/
def left (client : StreamClient) (event : ClientEvent) : Nat :=
  if client.connects event then (if event.errno.goesOn then 1 else 0) else client.prospects

theorem Tries.runCallback (h : client.Tries prospects) (hnormal : client.Normal)
    {cb : ClientCallback} {callbacks : List ClientCallback}
    (hposition : client.position = .dispatch (cb :: callbacks)) {completion : Completion}
    {outcome : ConnectionOutcome} :
    Holds ({ client with position := .dispatch callbacks }.runCallback completion outcome errno cb)
      (fun next => next.Tries (client.left (.callback completion outcome errno)))
      fun _ => False := by
  have htaken := hnormal.takeCallback hposition
  obtain ⟨before, htrying, hsum⟩ := h.trying
  cases cb with
  | handleError =>
      rw [left, if_neg (by simp [connects, hposition]), h.prospects_eq]
      apply (htaken.orderly.handleError_trying htrying).bind
      intro connector hconnector
      exact ⟨h.connect, h.retry, before, hconnector, hsum⟩
  | handleWrite =>
      rw [left, if_neg (by simp [connects, hposition]), h.prospects_eq]
      obtain ⟨-, hstate⟩ := hnormal.placed.handleWrite _ hposition
      apply (htaken.orderly.handleWrite_trying (hstate List.mem_cons_self) htrying).bind
      rintro ⟨connector, handed⟩ ⟨left, hconnector, hleft⟩
      cases handed with
      | none =>
          refine ⟨h.connect, h.retry, left, hconnector, ?_⟩
          rw [← hsum, ← hleft]
          simp
      | some sockfd =>
          refine ⟨h.connect, h.retry, left, hconnector.poller _ _ _, ?_⟩
          rw [← hsum, ← hleft]
          simp [StreamClient.newConnection]
          omega
  | connection fd =>
      simp only [StreamClient.runCallback]
      split
      · rename_i hfd
        cases outcome with
        | closes =>
            rw [left, if_pos (by simp [connects, hposition]; exact hfd)]
            have htries : Tries { client with position := .dispatch callbacks } prospects :=
              ⟨h.connect, h.retry, h.trying⟩
            apply htries.handleClose htaken hfd
            obtain ⟨-, hreset⟩ := hnormal.placed.connection _ fd hposition List.mem_cons_self
            have hbatch := hnormal.placed.batch (by simp [hposition])
            simp only [EventLoop.inOrder, hbatch, List.nil_append]
            exact hreset hfd
        | updates =>
            rw [left, if_neg (by simp [connects, hposition]), h.prospects_eq]
            exact ⟨h.connect, h.retry, before, htrying.poller _ _ _, hsum⟩
        | neither =>
            rw [left, if_neg (by simp [connects, hposition]), h.prospects_eq]
            exact ⟨h.connect, h.retry, h.trying⟩
      · rename_i hfd
        rw [left, if_neg (by simp only [connects, hposition]; simpa using fun _ => hfd),
          h.prospects_eq]
        exact ⟨h.connect, h.retry, h.trying⟩

theorem Normal.takeFunctor (h : client.Normal) {f : ClientFunctor} {functors : List ClientFunctor}
    (hfunctors : client.connector.queue.functors = f :: functors) (hf : f ≠ .resetChannel) :
    Normal { client with connector :=
      { client.connector with
        queue := { client.connector.queue with functors := functors }
        ran := client.connector.ran + 1 } } := by
  refine h.of_follows _ _ (h.orderly.takeFunctor hfunctors hf) ⟨?_, fun _ => id, id, fun _ => id⟩
  intro hnil
  rw [hnil] at hfunctors
  cases hfunctors

theorem Tries.runFunctor (h : client.Tries prospects) (hnormal : client.Normal)
    (hposition : client.position = .functors) {f : ClientFunctor} {functors : List ClientFunctor}
    (hfunctors : client.connector.queue.functors = f :: functors) :
    Holds ({ client with connector :=
        { client.connector with
          queue := { client.connector.queue with functors := functors }
          ran := client.connector.ran + 1 } }.runFunctor errno f)
      (fun next => next.Tries (client.left (.functor errno))) fun _ => False := by
  have hmem : f ∈ client.connector.queue.inOrder := by
    simp [EventLoop.inOrder, hfunctors]
  obtain ⟨before, htrying, hsum⟩ := h.trying
  obtain ⟨rest, htaken, hrest⟩ := htrying.takeFunctor hfunctors
  by_cases hstarts : f = .startInLoop
  · subst hstarts
    obtain ⟨hfresh, hlive⟩ := hnormal.orderly.fresh hmem
    obtain ⟨hsockets, hdelay⟩ := htrying.spaced.queued hmem
    have honce := hnormal.orderly.once
    simp only [EventLoop.inOrder, hfunctors, List.cons_append, List.count_cons_self] at honce
    have hstart : .startInLoop ∉ functors ++ client.connector.queue.pendingFunctors :=
      List.count_eq_zero.mp (by omega)
    have hfreshTaken : Connector.Fresh { client.connector with
        queue := { client.connector.queue with functors := functors }
        ran := client.connector.ran + 1 } := hfresh.of_eq rfl rfl rfl
    rw [left, if_pos (by simp [connects, hposition, hfunctors])]
    refine ⟨h.connect, h.retry, _,
      hfreshTaken.startInLoop_trying hstart htrying.connect hsockets hdelay, ?_⟩
    rw [hlive]
    exact Nat.zero_add _
  have hsame : rest = before := by
    rw [← hrest, List.count_eq_zero.mpr (by simpa using Ne.symm hstarts), Nat.add_zero]
  subst hsame
  cases f with
  | startInLoop => exact (hstarts rfl).elim
  | stopInLoop =>
      rw [left, if_neg (by simp [connects, hposition, hfunctors]), h.prospects_eq]
      have horderly := hnormal.orderly.takeFunctor hfunctors (by simp)
      apply (horderly.stopInLoop_trying htaken).bind
      intro connector hconnector
      exact ⟨h.connect, h.retry, rest, hconnector, hsum⟩
  | resetChannel =>
      rw [left, if_neg (by simp [connects, hposition, hfunctors]), h.prospects_eq]
      obtain ⟨sockfd, hchannel⟩ := hnormal.orderly.channel_of_mem hmem
      have hstate : client.connector.state ≠ .kConnecting := by
        intro hcontra
        obtain ⟨other, hother⟩ := hnormal.orderly.connecting hcontra
        rw [hchannel] at hother
        cases hother
      exact ⟨h.connect, h.retry, rest,
        htaken.resetChannel hstate (hnormal.orderly.watched_eq_nil hstate), hsum⟩
  | forceCloseInLoop fd =>
      simp only [StreamClient.runFunctor]
      have htries : Tries { client with connector :=
          { client.connector with
            queue := { client.connector.queue with functors := functors }
            ran := client.connector.ran + 1 } } prospects :=
        ⟨h.connect, h.retry, rest, htaken, hsum⟩
      split
      · rename_i hfd
        rw [left, if_pos (by simp only [connects, hposition, hfunctors]; simpa using hfd)]
        apply htries.handleClose (hnormal.takeFunctor hfunctors (by simp)) hfd
        have hturn := hnormal.orderly.inTurn fd hfd
        simp only [EventLoop.inOrder, hfunctors, List.cons_append] at hturn
        exact fun hreset => (List.rel_of_pairwise_cons hturn hreset) rfl rfl
      · rename_i hfd
        rw [left, if_neg (by simp only [connects, hposition, hfunctors]; simpa using hfd),
          h.prospects_eq]
        exact htries
  | connectDestroyed fd =>
      rw [left, if_neg (by simp [connects, hposition, hfunctors]), h.prospects_eq]
      exact ⟨h.connect, h.retry, rest, htaken.poller _ _ _, hsum⟩

theorem Tries.step (h : client.Tries prospects) (hnormal : client.Normal) {event : ClientEvent}
    (hevent : Uninterrupted event) (hturn : client.FiresInTurn event) :
    Holds (client.step event) (fun next => next.Tries (client.left event)) fun _ => False := by
  obtain ⟨hordinary, hstop, hdisconnect⟩ := hevent
  obtain ⟨before, htrying, hsum⟩ := h.trying
  cases event with
  | connect thread errno => exact hordinary.elim
  | connectorStart thread errno => exact hordinary.elim
  | connectorStop => exact hordinary.elim
  | connectorRestart errno => exact hordinary.elim
  | stop => exact (hstop rfl).elim
  | disconnect => exact (hdisconnect rfl).elim
  | enableRetry =>
      rw [left, if_neg (by simp [connects]), h.prospects_eq]
      exact ⟨h.connect, rfl, h.trying⟩
  | forceClose fd =>
      rw [left, if_neg (by simp [connects]), h.prospects_eq]
      simp only [StreamClient.step]
      split
      · exact ⟨h.connect, h.retry, before, htrying.queueInLoop (by simp), hsum⟩
      · exact h
  | timer index errno =>
      simp only [StreamClient.step]
      split
      · rename_i hindex
        rw [left, if_pos (by simpa [connects] using hindex)]
        exact h.timer hnormal hindex hturn
      · rename_i hindex
        rw [left, if_neg (by simpa [connects] using hindex), h.prospects_eq]
        exact h
  | poll active =>
      rw [left, if_neg (by simp [connects]), h.prospects_eq]
      simp only [StreamClient.step]
      split
      · exact ⟨h.connect, h.retry, h.trying⟩
      · exact h
  | callback completion outcome errno =>
      simp only [StreamClient.step]
      split
      · rename_i cb callbacks hposition
        exact h.runCallback hnormal hposition
      all_goals
        rename_i hposition
        rw [left, if_neg (by simp [connects, hposition]), h.prospects_eq]
        exact h
  | swap =>
      rw [left, if_neg (by simp [connects]), h.prospects_eq]
      simp only [StreamClient.step]
      split
      · exact ⟨h.connect, h.retry, before, htrying.swapFunctors, hsum⟩
      · exact h
  | functor errno =>
      simp only [StreamClient.step]
      split
      · rename_i hposition
        split
        · rename_i hfunctors
          rw [left, if_neg (by simp [connects, hposition, hfunctors]), h.prospects_eq]
          exact ⟨h.connect, h.retry, h.trying⟩
        · rename_i f functors hfunctors
          exact h.runFunctor hnormal hposition hfunctors
      · rename_i hposition
        rw [left, if_neg (by simp [connects, hposition]), h.prospects_eq]
        exact h

/-! ### Runs -/

theorem Normal.prospects_of_connects (h : client.Normal) {event : ClientEvent}
    (hevent : Uninterrupted event) (hconnects : client.connects event) : client.prospects = 1 := by
  apply Nat.le_antisymm h.prospects_le_one
  have hlive : ∀ fd ∈ client.live, 0 < client.prospects := fun fd hfd =>
    Nat.add_pos_left (List.length_pos_of_mem hfd) _
  have hstart : .startInLoop ∈ client.connector.queue.inOrder → 0 < client.prospects := fun hmem =>
    Nat.add_pos_right _ (Nat.add_pos_right _ (List.count_pos_iff.mpr hmem))
  cases event with
  | connect thread errno => exact hevent.1.elim
  | timer index errno =>
      have hindex : index < client.connector.timers.length := by simpa [connects] using hconnects
      unfold StreamClient.prospects Connector.prospects
      omega
  | callback completion outcome errno =>
      simp only [connects] at hconnects
      split at hconnects
      · rename_i fd callbacks hposition
        rw [decide_eq_true_eq] at hconnects
        exact hlive fd hconnects.2
      · cases hconnects
  | functor errno =>
      simp only [connects] at hconnects
      split at hconnects
      · rename_i functors hposition hfunctors
        apply hstart
        rw [EventLoop.inOrder, hfunctors]
        exact List.mem_cons_self
      · rename_i fd functors hposition hfunctors
        exact hlive fd (of_decide_eq_true hconnects)
      · cases hconnects
  | stop | disconnect | enableRetry | connectorStart | connectorStop | connectorRestart
  | forceClose | poll | swap => cases hconnects

/-- Between two steps of a client that has been connected and not been stopped since. -/
structure Keen (client : StreamClient) : Prop extends Normal client where
  tries : client.Tries client.prospects

theorem Keen.step (h : client.Keen) {event : ClientEvent} (hevent : Uninterrupted event)
    (hturn : client.FiresInTurn event) :
    Holds (client.step event) (fun next => next.Keen ∧
      (next.prospects = 1 ↔ client.prospects = 1 ∧ client.GoesOn event)) fun _ => False := by
  obtain ⟨next, hnext, hnormal⟩ := (h.toNormal.step hevent.1 hturn).returns
  have htries := (h.tries.step h.toNormal hevent hturn).of_ok hnext
  have hleft := htries.prospects_eq
  rw [hnext]
  refine ⟨⟨hnormal, by rwa [hleft]⟩, ?_⟩
  rw [hleft, left, GoesOn]
  split
  · rename_i hconnects
    rw [h.toNormal.prospects_of_connects hevent hconnects, eq_self, true_and,
      forall_prop_of_true hconnects]
    split <;> simp_all
  · rename_i hconnects
    rw [forall_prop_of_false hconnects, and_true]

/-- The call that connects the client is the first thing that it does. -/
theorem start_trying (thread : Nat) (errno : ConnectErrno) :
    (Connector.init.start thread errno).Trying
      (if thread = loopThread then (if errno.goesOn then 1 else 0) else 1) := by
  have hdelay : Connector.kInitRetryDelayMs = Connector.backOff 0 := by decide
  have hfresh : Connector.Fresh { Connector.init with connect := true } :=
    Connector.fresh_init.of_eq rfl rfl rfl
  unfold Connector.start loopThread
  dsimp only
  split
  · exact hfresh.startInLoop_trying List.not_mem_nil rfl rfl hdelay
  · refine ⟨rfl, ⟨?_, ?_, ?_, fun _ => ⟨rfl, hdelay⟩⟩, rfl⟩
    · simp [Connector.queueInLoop, Connector.init]
    · simp [Connector.queueInLoop, Connector.init]
    · simp [Connector.queueInLoop, Connector.init]

theorem keen_connect (thread : Nat) (errno : ConnectErrno) :
    Holds ((init true).step (.connect thread errno)) (fun next => next.Keen ∧
      (next.prospects = 1 ↔ (init true).GoesOn (.connect thread errno))) fun _ => False := by
  obtain ⟨next, hnext, hnormal⟩ := (idle_init.connect thread errno).returns
  have htries : next.Tries
      (if thread = loopThread then (if errno.goesOn then 1 else 0) else 1) := by
    cases hnext
    exact ⟨rfl, rfl, _, start_trying thread errno, Nat.zero_add _⟩
  have hprospects := htries.prospects_eq
  rw [hnext]
  refine ⟨⟨hnormal, by rwa [hprospects]⟩, ?_⟩
  rw [hprospects, GoesOn]
  by_cases hthread : thread = loopThread
  · rw [if_pos hthread, forall_prop_of_true (by simpa [connects] using hthread)]
    split <;> simp_all [ClientEvent.errno]
  · rw [if_neg hthread, forall_prop_of_false (by simpa [connects] using hthread), eq_self]

theorem keen_run {thread : Nat} {errno : ConnectErrno} {events : List ClientEvent}
    (hevents : ∀ event ∈ events, Uninterrupted event)
    (hturn : Always step FiresInTurn (init true) (.connect thread errno :: events)) :
    Holds (run step (init true) (.connect thread errno :: events))
      (fun client => client.Keen ∧ (client.prospects = 1 ↔
        Always step GoesOn (init true) (.connect thread errno :: events))) fun _ => False := by
  have hstep : ∀ client event, Uninterrupted event → Keen client → FiresInTurn client event →
      Holds (step client event) (fun next => next.Keen ∧
        (next.prospects = 1 ↔ client.prospects = 1 ∧ client.GoesOn event)) fun _ => False :=
    fun _ _ hevent h hturn => h.step hevent hturn
  obtain ⟨next, hnext, hkeen, hfirst⟩ := (keen_connect thread errno).returns
  have hafter := holds_iff_of_always hstep hevents hkeen (hturn.2 next hnext)
  rw [run, hnext]
  refine hafter.imp fun client hclient => ⟨hclient.1, ?_⟩
  rw [hclient.2, hfirst, Always]
  apply and_congr_right
  intro _
  simp [hnext]

/-- Two refused attempts, a connection that closes, an attempt that is reset and the timer after
it. -/
def refusedTwice : List ClientEvent :=
  [.timer 0 .ENETUNREACH, .timer 0 .EINPROGRESS, .poll [.connector false true],
    .callback ⟨0, false⟩ .neither .zero, .swap, .functor .zero, .functor .zero,
    .poll [.connection 2], .callback ⟨0, false⟩ .closes .EINPROGRESS, .swap, .functor .zero,
    .functor .zero, .poll [.connector true false], .callback ⟨104, false⟩ .neither .zero]

theorem uninterrupted_refusedTwice : ∀ event ∈ refusedTwice, Uninterrupted event := by
  simp [refusedTwice, Uninterrupted, Ordinary]

theorem firesInTurn_refusedTwice : Always step FiresInTurn (init true)
    (.connect loopThread .ECONNREFUSED :: refusedTwice) := by
  decide +kernel

/-- One thing keeps the client going, whether it is a connection, an attempt, the timer or a queued
start, exactly as long as `connect` has not failed with an error that is not tried again. -/
theorem prospects_run {thread : Nat} {errno : ConnectErrno} {events : List ClientEvent}
    (hevents : ∀ event ∈ events, Uninterrupted event)
    (hturn : Always step FiresInTurn (init true) (.connect thread errno :: events)) :
    Holds (run step (init true) (.connect thread errno :: events))
      (fun client => client.prospects ≤ 1 ∧ (client.prospects = 1 ↔
        Always step GoesOn (init true) (.connect thread errno :: events))) fun _ => False :=
  (keen_run hevents hturn).imp fun _ h => ⟨h.1.toNormal.prospects_le_one, h.2⟩

theorem prospects_run_refusedTwice : ∃ client,
    run step (init true) (.connect loopThread .ECONNREFUSED :: refusedTwice) = .ok client ∧
      client.connector.sockets = 4 ∧ client.prospects = 1 := by
  obtain ⟨client, hrun, hsockets⟩ : ∃ client,
      run step (init true) (.connect loopThread .ECONNREFUSED :: refusedTwice) = .ok client ∧
        client.connector.sockets = 4 := by
    apply Holds.returns
    decide +kernel
  have hgoesOn : Always step GoesOn (init true)
      (.connect loopThread .ECONNREFUSED :: refusedTwice) := by
    decide +kernel
  have hprospects := prospects_run uninterrupted_refusedTwice firesInTurn_refusedTwice
  exact ⟨client, hrun, hsockets, (hprospects.of_ok hrun).2.mpr hgoesOn⟩

/-- While the client waits, the delay of the timer is that of the attempts that have failed in a row
since it was last connected. -/
theorem delays_run {thread : Nat} {errno : ConnectErrno} {events : List ClientEvent}
    (hevents : ∀ event ∈ events, Uninterrupted event)
    (hturn : Always step FiresInTurn (init true) (.connect thread errno :: events)) :
    Holds (run step (init true) (.connect thread errno :: events))
      (fun client => ∀ timer ∈ client.connector.timers, ∃ retries,
        client.connector.sockets = client.connector.first + retries + 1 ∧
          timer.delay = Connector.backOff retries) fun _ => False := by
  refine (keen_run hevents hturn).imp fun client h timer htimer => ?_
  obtain ⟨left, htrying, -⟩ := h.1.tries.trying
  obtain ⟨retries, hsockets, hdelay, -⟩ := htrying.spaced.waiting timer htimer
  exact ⟨retries, hsockets, hdelay⟩

theorem delays_run_refusedTwice : ∃ client,
    run step (init true) (.connect loopThread .ECONNREFUSED :: refusedTwice) = .ok client ∧
      client.connector.timers.map RetryTimer.delay = [500] ∧
        ∀ timer ∈ client.connector.timers, ∃ retries,
          client.connector.sockets = client.connector.first + retries + 1 ∧
            timer.delay = Connector.backOff retries := by
  obtain ⟨client, hrun, htimers⟩ : ∃ client,
      run step (init true) (.connect loopThread .ECONNREFUSED :: refusedTwice) = .ok client ∧
        client.connector.timers.map RetryTimer.delay = [500] := by
    apply Holds.returns
    decide +kernel
  have hdelays := delays_run uninterrupted_refusedTwice firesInTurn_refusedTwice
  exact ⟨client, hrun, htimers, hdelays.of_ok hrun⟩

end StreamClient

end ToyBasket
