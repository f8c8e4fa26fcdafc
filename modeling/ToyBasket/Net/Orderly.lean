import Mathlib.Data.List.Nodup
import ToyBasket.Net.Attempt

/-!
# A connector in order

The connector of a client whose attempts come in turn: what is queued for it, its timer and the
connections that it has handed over. Every function and every functor leaves it so.
-/

namespace ToyBasket

open Outcome (Holds)

namespace Connector

/-- Nothing is under way, nor will it be but for a queued `startInLoop`. -/
structure Fresh (c : Connector) : Prop where
  state : c.state = .kDisconnected
  channel : c.channel = none
  timers : c.timers = []

/-- What is queued for a client with these connections. Once a connection is told to close nothing
behind that in the queue resets a channel. -/
structure Queued (c : Connector) (live : List Nat) : Prop where
  counted : c.ran + c.queue.inOrder.length = c.queued
  handed : ∀ fd, .forceCloseInLoop fd ∈ c.queue.inOrder → fd ∈ c.handed
  inTurn : ∀ fd ∈ live,
    c.queue.inOrder.Pairwise fun f g => f = .forceCloseInLoop fd → g ≠ .resetChannel
  once : c.queue.inOrder.count .startInLoop ≤ 1

structure Orderly (c : Connector) (live : List Nat) : Prop extends AtRest c, Queued c live where
  failed : c.failed = []
  watching : c.watched ≠ [] → c.state = .kConnecting
  oneTimer : c.timers.length ≤ 1
  waiting : ∀ timer ∈ c.timers, c.state = .kDisconnected ∧
    .resetChannel ∉ c.queue.inOrder.drop (timer.after - c.ran)
  connected : ∀ fd ∈ live, c.state = .kConnected ∧ fd ∈ c.handed
  fresh : .startInLoop ∈ c.queue.inOrder → c.Fresh ∧ live = []

variable {c next : Connector} {thread sockfd : Nat} {errno : ConnectErrno} {live live' : List Nat}
  {cb f : ClientFunctor} {functors : List ClientFunctor}

theorem fresh_init : init.Fresh := ⟨rfl, rfl, rfl⟩

theorem Fresh.of_eq (h : c.Fresh) (hstate : next.state = c.state)
    (hchannel : next.channel = c.channel) (htimers : next.timers = c.timers) : next.Fresh :=
  ⟨hstate.trans h.state, hchannel.trans h.channel, htimers.trans h.timers⟩

theorem orderly_init : init.Orderly [] where
  toAtRest := atRest_init
  counted := rfl
  handed := nofun
  inTurn := nofun
  once := Nat.zero_le _
  failed := rfl
  watching := fun h => (h rfl).elim
  oneTimer := Nat.zero_le _
  waiting := nofun
  connected := nofun
  fresh := nofun

/-! ### The queue -/

theorem Queued.mono (h : c.Queued live) (hqueue : next.queue = c.queue)
    (hqueued : next.queued = c.queued) (hran : next.ran = c.ran)
    (hhanded : ∀ fd ∈ c.handed, fd ∈ next.handed) (hlive : ∀ fd ∈ live', fd ∈ live) :
    next.Queued live' where
  counted := by rw [hqueue, hqueued, hran, h.counted]
  handed := by
    intro fd hmem
    rw [hqueue] at hmem
    exact hhanded fd (h.handed fd hmem)
  inTurn := by
    rw [hqueue]
    exact fun fd hmem => h.inTurn fd (hlive fd hmem)
  once := by rw [hqueue]; exact h.once

/-- A step that neither queues a functor nor takes one. -/
theorem Queued.of_queue_eq (h : c.Queued live) (hqueue : next.queue = c.queue)
    (hqueued : next.queued = c.queued) (hran : next.ran = c.ran)
    (hhanded : next.handed = c.handed) : next.Queued live := by
  apply h.mono hqueue hqueued hran
  · rw [hhanded]
    exact fun _ hmem => hmem
  · exact fun _ hmem => hmem

theorem Queued.queueInLoop (h : c.Queued live) (hstart : cb = .startInLoop →
      .startInLoop ∉ c.queue.inOrder)
    (hclose : ∀ fd, cb = .forceCloseInLoop fd → fd ∈ c.handed)
    (hreset : cb = .resetChannel → live = []) : (c.queueInLoop cb).Queued live where
  counted := by
    have hcounted := h.counted
    simp only [Connector.queueInLoop, EventLoop.inOrder_queueInLoop, List.length_append,
      List.length_singleton]
    omega
  handed := by
    intro fd hmem
    simp only [Connector.queueInLoop, EventLoop.inOrder_queueInLoop, List.mem_append,
      List.mem_singleton] at hmem
    cases hmem with
    | inl hmem => exact h.handed fd hmem
    | inr hmem => exact hclose fd hmem.symm
  inTurn := by
    intro fd hfd
    simp only [Connector.queueInLoop, EventLoop.inOrder_queueInLoop]
    rw [List.pairwise_append]
    refine ⟨h.inTurn fd hfd, List.pairwise_singleton _ _, ?_⟩
    rintro f - g hg - hcontra
    rw [List.mem_singleton] at hg
    rw [hreset (hg.symm.trans hcontra)] at hfd
    cases hfd
  once := by
    have honce := h.once
    simp only [Connector.queueInLoop, EventLoop.inOrder_queueInLoop, List.count_append]
    by_cases hcb : cb = .startInLoop
    · have hnone := List.count_eq_zero.mpr (hstart hcb)
      rw [hcb, hnone]
      decide
    · have hnone : [cb].count .startInLoop = 0 :=
        List.count_eq_zero.mpr (by simpa using Ne.symm hcb)
      rw [hnone]
      exact honce

theorem Queued.takeFunctor (h : c.Queued live) (hfunctors : c.queue.functors = f :: functors) :
    { c with queue.functors := functors, ran := c.ran + 1 }.Queued live where
  counted := by
    have hcounted := h.counted
    simp only [EventLoop.inOrder, hfunctors, List.cons_append, List.length_cons] at hcounted ⊢
    omega
  handed := by
    intro fd hmem
    apply h.handed fd
    simp only [EventLoop.inOrder, hfunctors, List.cons_append]
    exact List.mem_cons_of_mem _ hmem
  inTurn := by
    intro fd hfd
    have hturn := h.inTurn fd hfd
    simp only [EventLoop.inOrder, hfunctors, List.cons_append] at hturn
    exact hturn.of_cons
  once := by
    have honce := h.once
    simp only [EventLoop.inOrder, hfunctors, List.cons_append, List.count_cons] at honce ⊢
    omega

theorem not_mem_drop_takeFunctor {queue : EventLoop ClientFunctor} {g : ClientFunctor}
    (hfunctors : queue.functors = f :: functors) {after ran : Nat}
    (h : g ∉ queue.inOrder.drop (after - ran)) :
    g ∉ (EventLoop.inOrder { queue with functors := functors }).drop (after - (ran + 1)) := by
  simp only [EventLoop.inOrder, hfunctors, List.cons_append] at h ⊢
  cases hleft : after - ran with
  | zero =>
      rw [hleft] at h
      rw [show after - (ran + 1) = 0 by omega]
      exact fun hmem => h (List.mem_cons_of_mem _ hmem)
  | succ left =>
      rw [hleft] at h
      rw [show after - (ran + 1) = left by omega]
      exact h

/-! ### The functions of the connector -/

theorem Orderly.live_eq_nil (h : c.Orderly live) (hstate : c.state ≠ .kConnected) : live = [] := by
  rw [List.eq_nil_iff_forall_not_mem]
  exact fun fd hfd => hstate (h.connected fd hfd).1

theorem Orderly.timers_eq_nil (h : c.Orderly live) (hstate : c.state ≠ .kDisconnected) :
    c.timers = [] := by
  rw [List.eq_nil_iff_forall_not_mem]
  exact fun timer htimer => hstate (h.waiting timer htimer).1

theorem Orderly.not_mem_of_not_fresh (h : c.Orderly live) (hstate : c.state ≠ .kDisconnected) :
    .startInLoop ∉ c.queue.inOrder :=
  fun hmem => hstate (h.fresh hmem).1.state

theorem Orderly.noneLive (h : c.Orderly live) : c.Orderly [] where
  toAtRest := h.toAtRest
  toQueued := h.toQueued.mono rfl rfl rfl (fun _ => id) nofun
  failed := h.failed
  watching := h.watching
  oneTimer := h.oneTimer
  waiting := h.waiting
  connected := nofun
  fresh := fun hmem => ⟨(h.fresh hmem).1, rfl⟩

theorem Orderly.channel_eq_none (h : c.Orderly live) (hstate : c.state ≠ .kConnecting)
    (hreset : .resetChannel ∉ c.queue.inOrder) : c.channel = none := by
  rcases hchannel : c.channel with _ | ⟨sockfd, registered⟩
  · rfl
  · cases registered with
    | true =>
        refine (hstate (h.watching ?_)).elim
        simp [watched, hchannel]
    | false =>
        refine (hreset ?_).elim
        rw [← List.count_pos_iff, h.toAtRest.queued, hchannel]
        simp

theorem Orderly.queueInLoop (h : c.Orderly live) (hcb : cb ≠ .resetChannel)
    (hstart : cb = .startInLoop → .startInLoop ∉ c.queue.inOrder ∧ c.Fresh ∧ live = [])
    (hclose : ∀ fd, cb = .forceCloseInLoop fd → fd ∈ c.handed) :
    (c.queueInLoop cb).Orderly live where
  toAtRest := h.toAtRest.queueInLoop hcb
  toQueued := h.toQueued.queueInLoop (fun hstarts => (hstart hstarts).1) hclose
    fun hcontra => (hcb hcontra).elim
  failed := h.failed
  watching := h.watching
  oneTimer := h.oneTimer
  waiting := by
    intro timer htimer
    obtain ⟨hstate, hreset⟩ := h.waiting timer htimer
    refine ⟨hstate, ?_⟩
    simp only [Connector.queueInLoop, EventLoop.inOrder_queueInLoop]
    intro hmem
    rw [List.drop_append] at hmem
    cases List.mem_append.mp hmem with
    | inl hmem => exact hreset hmem
    | inr hmem => exact hcb (List.mem_singleton.mp (List.mem_of_mem_drop hmem)).symm
  connected := h.connected
  fresh := by
    intro hmem
    have hfresh : c.Fresh ∧ live = [] := by
      simp only [Connector.queueInLoop, EventLoop.inOrder_queueInLoop, List.mem_append,
        List.mem_singleton] at hmem
      cases hmem with
      | inl hmem => exact h.fresh hmem
      | inr hmem => exact (hstart hmem.symm).2
    exact ⟨hfresh.1.of_eq rfl rfl rfl, hfresh.2⟩

theorem Orderly.waiting_takeFunctor (h : c.Orderly live)
    (hfunctors : c.queue.functors = f :: functors) :
    ∀ timer ∈ c.timers, c.state = .kDisconnected ∧ .resetChannel ∉
      { c with queue.functors := functors }.queue.inOrder.drop (timer.after - (c.ran + 1)) := by
  intro timer htimer
  obtain ⟨hstate, hreset⟩ := h.waiting timer htimer
  exact ⟨hstate, not_mem_drop_takeFunctor hfunctors hreset⟩

theorem Orderly.takeFunctor (h : c.Orderly live) (hfunctors : c.queue.functors = f :: functors)
    (hf : f ≠ .resetChannel) :
    { c with queue.functors := functors, ran := c.ran + 1 }.Orderly live where
  toAtRest := h.toAtRest.takeFunctor hfunctors hf
  toQueued := h.toQueued.takeFunctor hfunctors
  failed := h.failed
  watching := h.watching
  oneTimer := h.oneTimer
  waiting := h.waiting_takeFunctor hfunctors
  connected := h.connected
  fresh := by
    intro hmem
    have hfresh : c.Fresh ∧ live = [] := by
      apply h.fresh
      simp only [EventLoop.inOrder, hfunctors, List.cons_append]
      exact List.mem_cons_of_mem _ hmem
    exact ⟨hfresh.1.of_eq rfl rfl rfl, hfresh.2⟩

theorem Orderly.poller (h : c.Orderly live) (thread : Nat) (function : PollerFunction) (fd : Nat) :
    (c.poller thread function fd).Orderly live where
  toAtRest := h.toAtRest.poller thread function fd
  toQueued := h.toQueued.of_queue_eq rfl rfl rfl rfl
  failed := h.failed
  watching := h.watching
  oneTimer := h.oneTimer
  waiting := h.waiting
  connected := h.connected
  fresh := by
    intro hmem
    obtain ⟨hfresh, hlive⟩ := h.fresh hmem
    exact ⟨hfresh.of_eq rfl rfl rfl, hlive⟩

/-- A descriptor is given up while there is no other attempt, no timer and no connection. -/
theorem Sound.retry_orderly (h : c.Sound [sockfd]) (hqueued : c.Queued []) (hfailed : c.failed = [])
    (hwatched : c.watched = []) (htimers : c.timers = [])
    (hstart : .startInLoop ∉ c.queue.inOrder) : (c.retry sockfd).Orderly [] := by
  have hrest := h.retry
  have hdrop : c.queue.inOrder.drop (c.queued - c.ran) = [] := by
    rw [List.drop_eq_nil_iff, ← hqueued.counted]
    omega
  unfold Connector.retry at hrest ⊢
  dsimp only at hrest ⊢
  split at hrest
  · rename_i hconnect
    rw [if_pos hconnect]
    exact {
      toAtRest := hrest
      toQueued := hqueued.of_queue_eq rfl rfl rfl rfl
      failed := hfailed
      watching := fun hcontra => (hcontra hwatched).elim
      oneTimer := by simp [Connector.close, htimers]
      waiting := by
        simp only [Connector.close, htimers, List.nil_append, List.mem_singleton, forall_eq]
        rw [hdrop]
        exact ⟨trivial, List.not_mem_nil⟩
      connected := nofun
      fresh := fun hmem => (hstart hmem).elim }
  · rename_i hconnect
    rw [if_neg hconnect]
    exact {
      toAtRest := hrest
      toQueued := hqueued.of_queue_eq rfl rfl rfl rfl
      failed := hfailed
      watching := fun hcontra => (hcontra hwatched).elim
      oneTimer := by simp [Connector.close, htimers]
      waiting := by simp [Connector.close, htimers]
      connected := nofun
      fresh := fun hmem => (hstart hmem).elim }

/-- `startInLoop` while nothing is under way. -/
theorem Orderly.startInLoop (h : c.Orderly []) (thread : Nat) (errno : ConnectErrno)
    (hfresh : c.Fresh) (hstart : .startInLoop ∉ c.queue.inOrder) :
    (c.startInLoop thread errno).Orderly [] := by
  have hrest : (c.startInLoop thread errno).AtRest :=
    h.toAtRest.startInLoop hfresh.state fun _ _ => hfresh.channel
  have hwatched : c.watched = [] := by simp [watched, hfresh.channel]
  unfold Connector.startInLoop at hrest ⊢
  rw [assert_of_true (by simp [hfresh.state])] at hrest ⊢
  dsimp only at hrest ⊢
  split at hrest
  · rename_i hconnect
    rw [if_pos hconnect]
    by_cases hunderWay : errno.underWay
    · rw [connectTo_of_underWay hunderWay, Connector.connecting] at hrest ⊢
      rw [assert_of_true (by simp [hfresh.channel])] at hrest ⊢
      exact {
        toAtRest := hrest
        toQueued := h.toQueued.of_queue_eq rfl rfl rfl rfl
        failed := h.failed
        watching := fun _ => rfl
        oneTimer := h.oneTimer
        waiting := by simp [Connector.poller, hfresh.timers]
        connected := by simp
        fresh := fun hmem => (hstart hmem).elim }
    · cases connectTo_of_not_underWay c thread hunderWay with
      | inl hretry =>
          rw [hretry]
          exact h.toSound.socket.retry_orderly
            (h.toQueued.of_queue_eq rfl rfl rfl rfl) h.failed hwatched hfresh.timers hstart
      | inr hclose =>
          rw [hclose] at hrest ⊢
          exact {
            toAtRest := hrest
            toQueued := h.toQueued.of_queue_eq rfl rfl rfl rfl
            failed := h.failed
            watching := fun hcontra => (hcontra hwatched).elim
            oneTimer := h.oneTimer
            waiting := h.waiting
            connected := by simp
            fresh := fun hmem => (hstart hmem).elim }
  · rename_i hconnect
    rw [if_neg hconnect]
    exact h

theorem Orderly.setConnect (h : c.Orderly live) (connect : Bool) :
    { c with connect }.Orderly live where
  toAtRest := h.toAtRest.setConnect connect
  toQueued := h.toQueued.of_queue_eq rfl rfl rfl rfl
  failed := h.failed
  watching := h.watching
  oneTimer := h.oneTimer
  waiting := h.waiting
  connected := h.connected
  fresh := by
    intro hmem
    obtain ⟨hfresh, hlive⟩ := h.fresh hmem
    exact ⟨hfresh.of_eq rfl rfl rfl, hlive⟩

theorem Orderly.fired (h : c.Orderly live) : { c with timers := [] }.Orderly live where
  toAtRest := h.toAtRest.setTimers []
  toQueued := h.toQueued.of_queue_eq rfl rfl rfl rfl
  failed := h.failed
  watching := h.watching
  oneTimer := Nat.zero_le _
  waiting := nofun
  connected := h.connected
  fresh := by
    intro hmem
    obtain ⟨hfresh, hlive⟩ := h.fresh hmem
    exact ⟨⟨hfresh.state, hfresh.channel, rfl⟩, hlive⟩

theorem Orderly.stop (h : c.Orderly live) : c.stop.Orderly live :=
  (h.setConnect false).queueInLoop nofun nofun nofun

theorem Orderly.start (h : c.Orderly []) (thread : Nat) (errno : ConnectErrno) (hfresh : c.Fresh)
    (hstart : .startInLoop ∉ c.queue.inOrder) : (c.start thread errno).Orderly [] := by
  have hconnect := h.setConnect true
  have hfreshConnect : { c with connect := true }.Fresh :=
    hfresh.of_eq rfl rfl rfl
  unfold Connector.start
  dsimp only
  split
  · exact hconnect.startInLoop _ _ hfreshConnect hstart
  · exact hconnect.queueInLoop nofun (fun _ => ⟨hstart, hfreshConnect, rfl⟩) nofun

theorem Orderly.swapFunctors (h : c.Orderly live) :
    { c with queue := c.queue.swapFunctors }.Orderly live where
  toAtRest := h.toAtRest.swapFunctors
  counted := by rw [EventLoop.inOrder_swapFunctors, h.counted]
  handed := by
    rw [EventLoop.inOrder_swapFunctors]
    exact h.handed
  inTurn := by
    rw [EventLoop.inOrder_swapFunctors]
    exact h.inTurn
  once := by
    rw [EventLoop.inOrder_swapFunctors]
    exact h.once
  failed := h.failed
  watching := h.watching
  oneTimer := h.oneTimer
  waiting := by
    rw [EventLoop.inOrder_swapFunctors]
    exact h.waiting
  connected := h.connected
  fresh := by
    rw [EventLoop.inOrder_swapFunctors]
    intro hmem
    obtain ⟨hfresh, hlive⟩ := h.fresh hmem
    exact ⟨hfresh.of_eq rfl rfl rfl, hlive⟩

/-! ### What the loop depends on -/

/-- What a step can do to a connector whose client then has these connections. -/
structure Follows (c next : Connector) (live : List Nat) : Prop where
  functors : c.queue.functors = [] → next.queue.functors = []
  reset : live ≠ [] → .resetChannel ∈ next.queue.pendingFunctors →
    .resetChannel ∈ c.queue.pendingFunctors
  state : next.state = .kConnected → c.state = .kConnected
  handed : ∀ fd ∈ c.handed, fd ∈ next.handed

theorem Follows.of_queue_eq (hqueue : next.queue = c.queue)
    (hstate : next.state = .kConnected → c.state = .kConnected)
    (hhanded : next.handed = c.handed) : c.Follows next live where
  functors := by
    rw [hqueue]
    exact fun hnil => hnil
  reset := by
    rw [hqueue]
    exact fun _ hmem => hmem
  state := hstate
  handed := by
    rw [hhanded]
    exact fun _ hmem => hmem

theorem Follows.refl (c : Connector) (live : List Nat) : c.Follows c live :=
  .of_queue_eq rfl id rfl

theorem Follows.trans {last : Connector} (h : c.Follows next live)
    (hlast : next.Follows last live) : c.Follows last live where
  functors := fun hnil => hlast.functors (h.functors hnil)
  reset := fun hlive hmem => h.reset hlive (hlast.reset hlive hmem)
  state := fun hstate => h.state (hlast.state hstate)
  handed := fun fd hmem => hlast.handed fd (h.handed fd hmem)

theorem queueInLoop_follows (hcb : cb ≠ .resetChannel) : c.Follows (c.queueInLoop cb) live where
  functors := id
  reset := by
    intro _ hmem
    simp only [Connector.queueInLoop, EventLoop.queueInLoop, List.mem_append,
      List.mem_singleton] at hmem
    exact hmem.resolve_right (Ne.symm hcb)
  state := id
  handed := fun _ => id

theorem poller_follows (thread : Nat) (function : PollerFunction) (fd : Nat) :
    c.Follows (c.poller thread function fd) live :=
  .of_queue_eq rfl id rfl

theorem assert_follows {assertion : ClientAssertion} {holds : Bool} :
    c.Follows (c.assert assertion holds) live := by
  rw [assert_eq]
  exact .of_queue_eq rfl id rfl

@[simp]
theorem retry_state : (c.retry sockfd).state = .kDisconnected := by
  unfold Connector.retry
  dsimp only
  split <;> rfl

theorem resetChannel_follows : c.Follows c.resetChannel live := by
  unfold Connector.resetChannel
  rw [assert_eq]
  exact .of_queue_eq rfl id rfl

theorem retry_follows : c.Follows (c.retry sockfd) live := by
  unfold Connector.retry
  dsimp only
  split
  · exact .of_queue_eq rfl nofun rfl
  · exact .of_queue_eq rfl nofun rfl

theorem connecting_follows : c.Follows (c.connecting thread sockfd) live := by
  unfold Connector.connecting
  dsimp only
  rw [assert_eq]
  exact .of_queue_eq rfl nofun rfl

theorem connectTo_follows : c.Follows (c.connectTo thread errno) live := by
  have hsocket : c.Follows { c with sockets := c.sockets + 1 } live :=
    .of_queue_eq rfl id rfl
  by_cases hunderWay : errno.underWay
  · rw [connectTo_of_underWay hunderWay]
    exact hsocket.trans connecting_follows
  · cases connectTo_of_not_underWay c thread hunderWay with
    | inl hretry =>
        rw [hretry]
        exact hsocket.trans retry_follows
    | inr hclose =>
        rw [hclose]
        exact .of_queue_eq rfl id rfl

theorem startInLoop_follows : c.Follows (c.startInLoop thread errno) live := by
  apply assert_follows.trans
  unfold Connector.startInLoop
  dsimp only
  split
  · exact connectTo_follows
  · exact Follows.refl _ _

theorem stop_follows : c.Follows c.stop live := by
  have hconnect : c.Follows { c with connect := false } live :=
    .of_queue_eq rfl id rfl
  exact hconnect.trans (queueInLoop_follows (by simp))

theorem start_follows : c.Follows (c.start thread errno) live := by
  have hconnect : c.Follows { c with connect := true } live :=
    .of_queue_eq rfl id rfl
  unfold Connector.start
  dsimp only
  split
  · exact hconnect.trans startInLoop_follows
  · exact hconnect.trans (queueInLoop_follows nofun)

theorem restart_follows : c.Follows (c.restart thread errno) live := by
  have hset : c.Follows { c with
      state := .kDisconnected
      busy := false
      retryDelayMs := kInitRetryDelayMs
      connect := true } live :=
    .of_queue_eq rfl nofun rfl
  exact hset.trans startInLoop_follows

/-! ### Callbacks and functors -/

/-- What `removeAndResetChannel` does to the rest of the connector. -/
structure Removed (c : Connector) (sockfd : Nat) (next : Connector) : Prop where
  sound : next.Sound [sockfd]
  channel : next.channel = some ⟨sockfd, false⟩
  queue : next.queue = (c.queueInLoop .resetChannel).queue
  queued : next.queued = (c.queueInLoop .resetChannel).queued
  ran : next.ran = c.ran
  timers : next.timers = c.timers
  handed : next.handed = c.handed
  failed : next.failed = c.failed
  busy : next.busy = c.busy

theorem Sound.removed (h : c.Sound []) (hchannel : c.channel = some ⟨sockfd, true⟩) :
    Holds (c.removeAndResetChannel thread) (fun p => p.1 = sockfd ∧ c.Removed sockfd p.2)
      fun _ => False := by
  have hsound : Holds (c.removeAndResetChannel thread) _ _ := h.removeAndResetChannel hchannel
  unfold Connector.removeAndResetChannel at hsound ⊢
  rw [hchannel] at hsound ⊢
  exact ⟨rfl, hsound.2.1, rfl, rfl, rfl, rfl, rfl, rfl, rfl, rfl⟩

theorem Removed.watched (h : c.Removed sockfd next) : next.watched = [] := by
  simp [Connector.watched, h.channel]

theorem Removed.follows (h : c.Removed sockfd next) : c.Follows (next.retry sockfd) [] := by
  have hretry : next.Follows (next.retry sockfd) [] := retry_follows
  exact {
    functors := fun hnil => hretry.functors (by rw [h.queue]; exact hnil)
    reset := fun hlive => (hlive rfl).elim
    state := by
      rw [retry_state]
      exact nofun
    handed := fun fd hmem => hretry.handed fd (by rw [h.handed]; exact hmem) }

theorem Removed.queued_nil (h : c.Removed sockfd next) (hqueued : c.Queued []) :
    next.Queued [] := by
  have hreset : (c.queueInLoop .resetChannel).Queued [] :=
    hqueued.queueInLoop nofun nofun fun _ => rfl
  exact hreset.mono h.queue h.queued h.ran (fun fd => by rw [h.handed]; exact id) nofun

theorem Removed.not_mem (h : c.Removed sockfd next) (hstart : .startInLoop ∉ c.queue.inOrder) :
    .startInLoop ∉ next.queue.inOrder := by
  rw [h.queue, Connector.queueInLoop, EventLoop.inOrder_queueInLoop, List.mem_append, not_or]
  exact ⟨hstart, by decide⟩

/-- Without the channel of the attempt nothing is left that would start another. -/
theorem Orderly.of_removed (h : c.Orderly live) (hstate : c.state = .kConnecting)
    (hremoved : c.Removed sockfd next) :
    next.Queued [] ∧ next.timers = [] ∧ .startInLoop ∉ next.queue.inOrder ∧ next.failed = [] := by
  have hconnecting : c.state ≠ .kDisconnected := by rw [hstate]; decide
  have hlive := h.live_eq_nil (by rw [hstate]; decide)
  subst hlive
  refine ⟨hremoved.queued_nil h.toQueued, ?_, ?_, ?_⟩
  · rw [hremoved.timers, h.timers_eq_nil hconnecting]
  · exact hremoved.not_mem (h.not_mem_of_not_fresh hconnecting)
  · rw [hremoved.failed, h.failed]

/-- The attempt under way is given up. -/
theorem Orderly.retry_removed (h : c.Orderly live) (hstate : c.state = .kConnecting)
    (hremoved : c.Removed sockfd next) : (next.retry sockfd).Orderly [] := by
  obtain ⟨hqueued, htimers, hstart, hfailed⟩ := h.of_removed hstate hremoved
  exact hremoved.sound.retry_orderly hqueued hfailed hremoved.watched htimers hstart

theorem Orderly.handleError (h : c.Orderly live) :
    Holds (c.handleError thread) (fun next => next.Orderly live ∧ c.Follows next live)
      fun _ => False := by
  unfold Connector.handleError
  split
  · rename_i hstate
    obtain ⟨sockfd, hchannel⟩ := h.connecting hstate
    apply (h.toSound.removed hchannel).bind
    rintro ⟨_, next⟩ ⟨rfl, hremoved⟩
    rw [h.live_eq_nil (by rw [hstate]; decide)]
    exact ⟨h.retry_removed hstate hremoved, hremoved.follows⟩
  · exact ⟨h, Follows.refl _ _⟩

theorem stopInLoop_of_ne (h : c.state ≠ .kConnecting) : c.stopInLoop thread = .ok c := by
  unfold Connector.stopInLoop
  rw [if_neg h]
  rfl

theorem Orderly.stopInLoop (h : c.Orderly live) :
    Holds (c.stopInLoop thread) (fun next => next.Orderly live ∧ c.Follows next live)
      fun _ => False := by
  unfold Connector.stopInLoop
  split
  · rename_i hstate
    obtain ⟨sockfd, hchannel⟩ := h.connecting hstate
    apply (h.toSound.setDisconnected.removed hchannel).bind
    rintro ⟨_, next⟩ ⟨rfl, hremoved⟩
    rw [h.live_eq_nil (by rw [hstate]; decide)]
    have hsame : c.Removed _ next := { hremoved with }
    exact ⟨h.retry_removed hstate hsame, hsame.follows⟩
  · exact ⟨h, Follows.refl _ _⟩

theorem Sound.not_mem_handed (h : c.Sound [sockfd]) : sockfd ∉ c.handed := by
  intro hmem
  have howned := h.owned sockfd
  have hhanded := List.count_pos_iff.mpr hmem
  have hrange : (List.range c.sockets).count sockfd ≤ 1 :=
    List.nodup_iff_count_le_one.mp List.nodup_range sockfd
  rw [List.count_singleton_self] at howned
  omega

/-- The connection is handed over. -/
theorem Orderly.handOver (h : c.Orderly live) (hstate : c.state = .kConnecting)
    (hremoved : c.Removed sockfd next) :
    { next with state := .kConnected, handed := next.handed ++ [sockfd] }.Orderly [sockfd] := by
  have hconnecting : c.state ≠ .kDisconnected := by rw [hstate]; decide
  obtain ⟨hqueued, htimers, hstart, hfailed⟩ := h.of_removed hstate hremoved
  exact {
    toAtRest := hremoved.sound.handOver (by rw [hremoved.busy, h.busy]; exact hconnecting)
    counted := hqueued.counted
    handed := fun fd hmem => List.mem_append_left _ (hqueued.handed fd hmem)
    inTurn := by
      intro fd hfd
      rw [List.mem_singleton] at hfd
      subst hfd
      apply List.pairwise_of_forall_mem_list
      rintro f hf g - rfl
      exact (hremoved.sound.not_mem_handed (hqueued.handed _ hf)).elim
    once := hqueued.once
    failed := hfailed
    watching := fun hcontra => (hcontra hremoved.watched).elim
    oneTimer := by rw [htimers]; exact Nat.zero_le _
    waiting := by rw [htimers]; exact nofun
    connected := by simp
    fresh := fun hmem => (hstart hmem).elim }

/-- The client has been stopped in the meantime. -/
theorem Orderly.abandon (h : c.Orderly live) (hstate : c.state = .kConnecting)
    (hremoved : c.Removed sockfd next) :
    ({ next with state := .kConnected }.close sockfd).Orderly [] := by
  have hconnecting : c.state ≠ .kDisconnected := by rw [hstate]; decide
  obtain ⟨hqueued, htimers, hstart, hfailed⟩ := h.of_removed hstate hremoved
  exact {
    toAtRest := hremoved.sound.abandon (by rw [hremoved.busy, h.busy]; exact hconnecting)
    toQueued := hqueued.mono rfl rfl rfl (fun _ => id) (by simp)
    failed := hfailed
    watching := fun hcontra => (hcontra hremoved.watched).elim
    oneTimer := by rw [Connector.close, htimers]; exact Nat.zero_le _
    waiting := by rw [Connector.close, htimers]; simp
    connected := by simp
    fresh := fun hmem => (hstart hmem).elim }

/-- What `handleWrite` leaves for a client with these connections. A connection that is handed over
is the only one, and new. -/
def Completed (c : Connector) (live : List Nat) (next : Connector) : Option Nat → Prop
  | none => next.Orderly live
  | some sockfd => next.Orderly [sockfd] ∧ sockfd ∉ c.handed

theorem Orderly.handleWrite (h : c.Orderly live) (hstate : c.state ≠ .kConnected)
    {completion : Completion} :
    Holds (c.handleWrite thread completion)
      (fun p => c.Completed live p.1 p.2 ∧
        (c.queue.functors = [] → p.1.queue.functors = []) ∧ ∀ fd ∈ c.handed, fd ∈ p.1.handed)
      fun _ => False := by
  have hlive := h.live_eq_nil hstate
  subst hlive
  unfold Connector.handleWrite
  split
  · rename_i hconnecting
    obtain ⟨sockfd, hchannel⟩ := h.connecting hconnecting
    apply (h.toSound.removed hchannel).bind
    rintro ⟨_, next⟩ ⟨rfl, hremoved⟩
    have hretried := h.retry_removed hconnecting hremoved
    have hfollows := hremoved.follows
    have hbatch : c.queue.functors = [] → next.queue.functors = [] := by
      rw [hremoved.queue]
      exact id
    have hhanded : ∀ fd ∈ c.handed, fd ∈ next.handed := by
      rw [hremoved.handed]
      exact fun _ => id
    dsimp only
    split
    · exact ⟨hretried, hfollows.functors, hfollows.handed⟩
    · split
      · exact ⟨hretried, hfollows.functors, hfollows.handed⟩
      · split
        · refine ⟨⟨h.handOver hconnecting hremoved, ?_⟩, hbatch, ?_⟩
          · rw [← hremoved.handed]
            exact hremoved.sound.not_mem_handed
          · exact fun fd hmem => List.mem_append_left _ (hhanded fd hmem)
        · exact ⟨h.abandon hconnecting hremoved, hbatch, hhanded⟩
  · rename_i hconnecting
    have hdisconnected : c.state = .kDisconnected := by
      cases hcase : c.state with
      | kDisconnected => rfl
      | kConnecting => exact (hconnecting hcase).elim
      | kConnected => exact (hstate hcase).elim
    rw [assert_of_true (by simp [hdisconnected])]
    exact ⟨h, id, fun _ => id⟩

theorem Orderly.resetChannel (h : c.Orderly live)
    (hfunctors : c.queue.functors = .resetChannel :: functors) :
    { c with queue.functors := functors, ran := c.ran + 1 }.resetChannel.Orderly live := by
  have hrest := h.toAtRest.resetChannel hfunctors
  obtain ⟨sockfd, hchannel⟩ := h.channel_of_mem (by simp [EventLoop.inOrder, hfunctors])
  unfold Connector.resetChannel at hrest ⊢
  rw [assert_of_true (by simp [hchannel])] at hrest ⊢
  exact {
    toAtRest := hrest
    toQueued := (h.toQueued.takeFunctor hfunctors).of_queue_eq rfl rfl rfl rfl
    failed := h.failed
    watching := fun hcontra => (hcontra rfl).elim
    oneTimer := h.oneTimer
    waiting := h.waiting_takeFunctor hfunctors
    connected := h.connected
    fresh := by
      intro hmem
      have hfresh := h.fresh (by
        simp only [EventLoop.inOrder, hfunctors, List.cons_append]
        exact List.mem_cons_of_mem _ hmem)
      rw [hfresh.1.channel] at hchannel
      cases hchannel }

/-- A connection has closed, and the client connects again. -/
theorem Orderly.restart (h : c.Orderly []) (hstate : c.state = .kConnected)
    (hchannel : c.channel = none) : (c.restart thread errno).Orderly [] := by
  have hconnected : c.state ≠ .kDisconnected := by rw [hstate]; decide
  have hstart := h.not_mem_of_not_fresh hconnected
  have htimers := h.timers_eq_nil hconnected
  unfold Connector.restart
  refine Orderly.startInLoop ?_ _ _ ⟨rfl, hchannel, htimers⟩ hstart
  exact {
    toAtRest := h.toAtRest.setDisconnected true kInitRetryDelayMs
    toQueued := h.toQueued.of_queue_eq rfl rfl rfl rfl
    failed := h.failed
    watching := by simp [watched, hchannel]
    oneTimer := h.oneTimer
    waiting := by simp [htimers]
    connected := nofun
    fresh := fun hmem => (hstart hmem).elim }

end Connector

end ToyBasket
