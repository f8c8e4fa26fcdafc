import ToyBasket.Net.Orderly

/-!
# The life of a client

A client that is connected once, and may then be stopped and disconnected. Its attempts come in
turn, so every descriptor that it opens is accounted for.
-/

namespace ToyBasket

open Outcome (Holds ok_bind)

namespace StreamClient

/-- Where the loop is, as far as the connector depends on it. A connection can only close when no
channel is still to be reset. -/
structure Placed (client : StreamClient) : Prop where
  batch : client.position ≠ .functors → client.connector.queue.functors = []
  behind : client.position = .poll ∨ client.position = .functors → client.live ≠ [] →
    .resetChannel ∉ client.connector.queue.pendingFunctors
  handleWrite : ∀ callbacks, client.position = .dispatch callbacks →
    callbacks.count .handleWrite ≤ 1 ∧
      (.handleWrite ∈ callbacks → client.connector.state ≠ .kConnected)
  connection : ∀ callbacks fd, client.position = .dispatch callbacks →
    .connection fd ∈ callbacks → fd ∈ client.connector.handed ∧
      (fd ∈ client.live → .resetChannel ∉ client.connector.queue.pendingFunctors)

/-- Between two steps of a client that is connected at most once. -/
structure Normal (client : StreamClient) : Prop where
  orderly : client.connector.Orderly client.live
  connection : client.live = client.connection.toList
  placed : client.Placed

variable {client next : StreamClient} {fd : Nat} {errno : ConnectErrno} {retry : Bool}

theorem normal_init : (init retry).Normal where
  orderly := Connector.orderly_init
  connection := rfl
  placed := ⟨fun _ => rfl, nofun, nofun, nofun⟩

theorem Placed.follows (h : client.Placed) (hposition : next.position = client.position)
    (hlive : ∀ fd ∈ next.live, fd ∈ client.live)
    (hfollows : client.connector.Follows next.connector next.live) : next.Placed where
  batch := by
    rw [hposition]
    exact fun hplace => hfollows.functors (h.batch hplace)
  behind := by
    rw [hposition]
    intro hplace hnext hmem
    refine h.behind hplace ?_ (hfollows.reset hnext hmem)
    obtain ⟨fd, hfd⟩ := List.exists_mem_of_ne_nil _ hnext
    exact List.ne_nil_of_mem (hlive fd hfd)
  handleWrite := by
    rw [hposition]
    intro callbacks hplace
    obtain ⟨hcount, hstate⟩ := h.handleWrite callbacks hplace
    exact ⟨hcount, fun hmem hcontra => hstate hmem (hfollows.state hcontra)⟩
  connection := by
    rw [hposition]
    intro callbacks fd hplace hmem
    obtain ⟨hhanded, hreset⟩ := h.connection callbacks fd hplace hmem
    refine ⟨hfollows.handed fd hhanded, fun hfd hcontra => ?_⟩
    exact hreset (hlive fd hfd) (hfollows.reset (List.ne_nil_of_mem hfd) hcontra)

/-- A step that leaves the connections as they are. -/
theorem Normal.of_follows (h : client.Normal) {connector : Connector} (connect retry : Bool)
    (horderly : connector.Orderly client.live)
    (hfollows : client.connector.Follows connector client.live) :
    { client with connector, connect, retry }.Normal where
  orderly := horderly
  connection := h.connection
  placed := h.placed.follows rfl (fun _ => id) hfollows

theorem Normal.live_eq (h : client.Normal) (hfd : fd ∈ client.live) :
    client.live = [fd] ∧ client.connection = some fd := by
  rw [h.connection] at hfd ⊢
  rw [Option.mem_toList.mp hfd]
  exact ⟨rfl, rfl⟩

theorem Normal.handleClose (h : client.Normal) (hfd : fd ∈ client.live)
    (hreset : .resetChannel ∉ client.connector.queue.inOrder) :
    (client.handleClose fd errno).Normal := by
  obtain ⟨hstate, hhanded⟩ := h.orderly.connected fd hfd
  obtain ⟨hlive, hconnection⟩ := h.live_eq hfd
  have hchannel := h.orderly.channel_eq_none (by rw [hstate]; decide) hreset
  have hqueued : (Connector.queueInLoop
      (client.connector.poller loopThread .updateChannel fd) (.connectDestroyed fd)).Orderly [] :=
    (h.orderly.noneLive.poller _ _ _).queueInLoop (by simp) (by simp) (by simp)
  have hfollows : client.connector.Follows (Connector.queueInLoop
      (client.connector.poller loopThread .updateChannel fd) (.connectDestroyed fd)) [] :=
    (Connector.poller_follows _ _ _).trans (Connector.queueInLoop_follows (by simp))
  have hnone : (client.live.filter fun other => other ≠ fd) = [] := by simp [hlive]
  simp only [StreamClient.handleClose, removeConnection, hnone,
    Connector.assert_of_true (decide_eq_true hconnection)]
  split
  · exact {
      orderly := hqueued.restart hstate hchannel
      connection := rfl
      placed := h.placed.follows rfl (by simp) (hfollows.trans Connector.restart_follows) }
  · exact {
      orderly := hqueued
      connection := rfl
      placed := h.placed.follows rfl (by simp) hfollows }

/-! ### The steps of the loop -/

theorem Normal.takeCallback (h : client.Normal) {cb : ClientCallback}
    {callbacks : List ClientCallback} (hposition : client.position = .dispatch (cb :: callbacks)) :
    { client with position := .dispatch callbacks }.Normal where
  orderly := h.orderly
  connection := h.connection
  placed := {
    batch := fun _ => h.placed.batch (by rw [hposition]; exact nofun)
    behind := nofun
    handleWrite := by
      rintro _ ⟨⟩
      obtain ⟨hcount, hstate⟩ := h.placed.handleWrite _ hposition
      rw [List.count_cons] at hcount
      exact ⟨by omega, fun hmem => hstate (List.mem_cons_of_mem _ hmem)⟩
    connection := by
      rintro _ fd ⟨⟩ hmem
      exact h.placed.connection _ fd hposition (List.mem_cons_of_mem _ hmem) }

/-- `handleWrite` is not called twice, and connections it hands over have not been reported. -/
theorem Placed.afterWrite (h : client.Placed) {callbacks : List ClientCallback}
    (hposition : client.position = .dispatch callbacks) (hnext : next.position = client.position)
    (hwrite : .handleWrite ∉ callbacks)
    (hbatch : client.connector.queue.functors = [] → next.connector.queue.functors = [])
    (hhanded : ∀ fd ∈ client.connector.handed, fd ∈ next.connector.handed)
    (hnew : ∀ fd ∈ next.live, fd ∉ client.connector.handed) : next.Placed where
  batch := fun _ => hbatch (h.batch (by rw [hposition]; exact nofun))
  behind := by
    rw [hnext, hposition]
    exact nofun
  handleWrite := by
    rw [hnext, hposition]
    rintro _ ⟨⟩
    rw [List.count_eq_zero.mpr hwrite]
    exact ⟨Nat.zero_le _, fun hcontra => (hwrite hcontra).elim⟩
  connection := by
    rw [hnext]
    intro _ fd hplace hmem
    obtain ⟨hfd, -⟩ := h.connection _ fd hplace hmem
    exact ⟨hhanded fd hfd, fun hlive => (hnew fd hlive hfd).elim⟩

theorem Normal.runCallback (h : client.Normal) {cb : ClientCallback}
    {callbacks : List ClientCallback} (hposition : client.position = .dispatch (cb :: callbacks))
    {completion : Completion} {outcome : ConnectionOutcome} :
    Holds ({ client with position := .dispatch callbacks }.runCallback completion outcome errno cb)
      Normal fun _ => False := by
  have htaken := h.takeCallback hposition
  cases cb with
  | handleError =>
      apply htaken.orderly.handleError.bind
      rintro connector ⟨horderly, hfollows⟩
      exact htaken.of_follows _ _ horderly hfollows
  | handleWrite =>
      obtain ⟨hcount, hstate⟩ := h.placed.handleWrite _ hposition
      have hwrite : .handleWrite ∉ callbacks := by
        rw [List.count_cons_self] at hcount
        exact List.count_eq_zero.mp (by omega)
      have hstate := hstate List.mem_cons_self
      have hlive := h.orderly.live_eq_nil hstate
      apply (htaken.orderly.handleWrite hstate).bind
      rintro ⟨connector, handed⟩ ⟨hcompleted, hbatch, hhanded⟩
      cases handed with
      | none => exact {
          orderly := hcompleted
          connection := h.connection
          placed := htaken.placed.afterWrite rfl rfl hwrite hbatch hhanded (by
            dsimp only
            rw [hlive]
            simp) }
      | some sockfd =>
          obtain ⟨horderly, hnew⟩ := hcompleted
          simp only [StreamClient.newConnection, hlive, List.nil_append]
          exact {
            orderly := horderly.poller _ _ _
            connection := rfl
            placed := htaken.placed.afterWrite rfl rfl hwrite hbatch hhanded (by
              simpa using hnew) }
  | connection fd =>
      simp only [StreamClient.runCallback]
      split
      · rename_i hfd
        cases outcome with
        | closes =>
            apply htaken.handleClose hfd
            obtain ⟨-, hreset⟩ := h.placed.connection _ fd hposition List.mem_cons_self
            have hbatch := h.placed.batch (by rw [hposition]; simp)
            simp only [EventLoop.inOrder, hbatch, List.nil_append]
            exact hreset hfd
        | updates =>
            exact htaken.of_follows _ _ (htaken.orderly.poller _ _ _)
              (Connector.poller_follows _ _ _)
        | neither => exact htaken
      · exact htaken

theorem Normal.runFunctor (h : client.Normal) {f : ClientFunctor} {functors : List ClientFunctor}
    (hfunctors : client.connector.queue.functors = f :: functors) :
    Holds ({ client with connector :=
        { client.connector with
          queue := { client.connector.queue with functors := functors }
          ran := client.connector.ran + 1 } }.runFunctor errno f)
      Normal fun _ => False := by
  have hmem : f ∈ client.connector.queue.inOrder := by
    simp [EventLoop.inOrder, hfunctors]
  have hfollows : client.connector.Follows { client.connector with
      queue := { client.connector.queue with functors := functors }
      ran := client.connector.ran + 1 } client.live := by
    refine ⟨?_, fun _ => id, id, fun _ => id⟩
    intro hnil
    rw [hnil] at hfunctors
    cases hfunctors
  by_cases hf : f = .resetChannel
  · subst hf
    exact h.of_follows _ _ (h.orderly.resetChannel hfunctors)
      (hfollows.trans Connector.resetChannel_follows)
  have htaken : Normal { client with connector :=
      { client.connector with
        queue := { client.connector.queue with functors := functors }
        ran := client.connector.ran + 1 } } :=
    h.of_follows _ _ (h.orderly.takeFunctor hfunctors hf) hfollows
  cases f with
  | resetChannel => exact (hf rfl).elim
  | startInLoop =>
      obtain ⟨hfresh, hlive⟩ := h.orderly.fresh hmem
      have horderly := htaken.orderly
      rw [hlive] at horderly
      have honce := h.orderly.once
      simp only [EventLoop.inOrder, hfunctors, List.cons_append, List.count_cons_self] at honce
      have hstart : .startInLoop ∉ functors ++ client.connector.queue.pendingFunctors :=
        List.count_eq_zero.mp (by omega)
      have hstarted := horderly.startInLoop loopThread errno
        (hfresh.of_eq rfl rfl rfl) hstart
      rw [← hlive] at hstarted
      exact htaken.of_follows _ _ hstarted Connector.startInLoop_follows
  | stopInLoop =>
      apply htaken.orderly.stopInLoop.bind
      rintro connector ⟨horderly, hstopped⟩
      exact htaken.of_follows _ _ horderly hstopped
  | forceCloseInLoop fd =>
      simp only [StreamClient.runFunctor]
      split
      · rename_i hfd
        apply htaken.handleClose hfd
        have hturn := h.orderly.inTurn fd hfd
        simp only [EventLoop.inOrder, hfunctors, List.cons_append] at hturn
        exact fun hreset => (List.rel_of_pairwise_cons hturn hreset) rfl rfl
      · exact htaken
  | connectDestroyed fd =>
      exact htaken.of_follows _ _ (htaken.orderly.poller _ _ _) (Connector.poller_follows _ _ _)

/-! ### Runs -/

/-- Neither a call that connects the client nor one on its connector. -/
def Ordinary : ClientEvent → Prop
  | .connect _ _ | .connectorStart _ _ | .connectorStop | .connectorRestart _ => False
  | _ => True

/-- A timer that fires only does so once the functors queued before it have run. -/
def FiresInTurn (client : StreamClient) : ClientEvent → Prop
  | .timer index _ =>
      ∀ timer, client.connector.timers[index]? = some timer → timer.after ≤ client.connector.ran
  | _ => True

instance (client : StreamClient) (event : ClientEvent) : Decidable (client.FiresInTurn event) :=
  match event with
  | .timer index _ =>
      inferInstanceAs (Decidable (∀ timer ∈ client.connector.timers[index]?,
        timer.after ≤ client.connector.ran))
  | .connect _ _ | .stop | .disconnect | .enableRetry | .connectorStart _ _ | .connectorStop
  | .connectorRestart _ | .forceClose _ | .poll _ | .callback _ _ _ | .swap | .functor _ =>
      .isTrue trivial

theorem countP_connector {active : List ClientActive} :
    (active.flatMap ClientActive.callbacks).count .handleWrite ≤
      active.countP fun a => a matches .connector _ _ := by
  induction active with
  | nil => exact Nat.zero_le _
  | cons a active ih =>
      rw [List.flatMap_cons, List.count_append, List.countP_cons]
      cases a with
      | connector error write =>
          have hcount : (ClientActive.connector error write).callbacks.count .handleWrite ≤ 1 := by
            cases error <;> cases write <;> decide
          simp only [if_true]
          omega
      | connection fd => simpa [ClientActive.callbacks] using ih

theorem Normal.poll (h : client.Normal) {active : List ClientActive}
    (hposition : client.position = .poll) (hreports : client.Reports active) :
    { client with position := .dispatch (active.flatMap ClientActive.callbacks) }.Normal where
  orderly := h.orderly
  connection := h.connection
  placed := {
    batch := fun _ => h.placed.batch (by rw [hposition]; exact nofun)
    behind := nofun
    handleWrite := by
      rintro _ ⟨⟩
      refine ⟨Nat.le_trans countP_connector hreports.1, ?_⟩
      intro hmem
      obtain ⟨a, ha, hcb⟩ := List.mem_flatMap.mp hmem
      have hreported := hreports.2 a ha
      cases a with
      | connection fd => simp [ClientActive.callbacks] at hcb
      | connector error write =>
          have hwatching := h.orderly.watching (by
            simp only [Option.any_eq_true] at hreported
            obtain ⟨channel, hchannel, hregistered⟩ := hreported
            simp [Connector.watched, hchannel, hregistered])
          rw [hwatching]
          decide
    connection := by
      rintro _ fd ⟨⟩ hmem
      obtain ⟨a, ha, hcb⟩ := List.mem_flatMap.mp hmem
      have hreported := hreports.2 a ha
      cases a with
      | connector error write =>
          cases error <;> cases write <;> simp [ClientActive.callbacks] at hcb
      | connection other =>
          simp only [ClientActive.callbacks, List.mem_singleton] at hcb
          cases hcb
          exact ⟨(h.orderly.connected fd hreported).2,
            fun _ => h.placed.behind (.inl hposition) (List.ne_nil_of_mem hreported)⟩ }

theorem Normal.swap (h : client.Normal) (hposition : client.position = .dispatch []) :
    Normal { client with
      position := .functors
      connector := { client.connector with queue := client.connector.queue.swapFunctors } } where
  orderly := h.orderly.swapFunctors
  connection := h.connection
  placed := {
    batch := fun hcontra => (hcontra rfl).elim
    behind := by
      intro _ _
      have hbatch := h.placed.batch (by rw [hposition]; exact nofun)
      rw [EventLoop.swapFunctors, if_pos hbatch]
      exact List.not_mem_nil
    handleWrite := nofun
    connection := nofun }

theorem Normal.functorsEnd (h : client.Normal) (hposition : client.position = .functors)
    (hfunctors : client.connector.queue.functors = []) :
    { client with position := .poll }.Normal where
  orderly := h.orderly
  connection := h.connection
  placed := {
    batch := fun _ => hfunctors
    behind := fun _ => h.placed.behind (.inr hposition)
    handleWrite := nofun
    connection := nofun }

theorem Normal.timer (h : client.Normal) {index : Nat}
    (hindex : index < client.connector.timers.length)
    (hturn : client.FiresInTurn (.timer index errno)) :
    Normal { client with connector :=
      { client.connector with
        timers := client.connector.timers.eraseIdx index }.startInLoop timerThread errno } := by
  obtain ⟨timer, htimers⟩ : ∃ timer, client.connector.timers = [timer] := by
    rw [← List.length_eq_one_iff]
    have hone := h.orderly.oneTimer
    omega
  rw [htimers, List.length_singleton, Nat.lt_one_iff] at hindex
  subst hindex
  obtain ⟨hstate, hreset⟩ := h.orderly.waiting timer (by simp [htimers])
  have hran := hturn timer (by simp [htimers])
  rw [Nat.sub_eq_zero_of_le hran] at hreset
  have hlive := h.orderly.live_eq_nil (by rw [hstate]; decide)
  have hchannel := h.orderly.channel_eq_none (by rw [hstate]; decide) hreset
  have hstart : .startInLoop ∉ client.connector.queue.inOrder := by
    intro hmem
    have hnil := (h.orderly.fresh hmem).1.timers
    rw [htimers] at hnil
    cases hnil
  have hfired := h.orderly.fired
  rw [hlive] at hfired
  have hstarted := hfired.startInLoop timerThread errno
    ⟨hstate, hchannel, rfl⟩ hstart
  rw [htimers, List.eraseIdx_zero, List.tail_cons]
  rw [← hlive] at hstarted
  have herased : client.connector.Follows { client.connector with timers := [] } client.live :=
    .of_queue_eq rfl id rfl
  exact h.of_follows _ _ hstarted (herased.trans Connector.startInLoop_follows)

theorem Normal.step (h : client.Normal) {event : ClientEvent} (hordinary : Ordinary event)
    (hturn : client.FiresInTurn event) : Holds (client.step event) Normal fun _ => False := by
  cases event with
  | connect thread errno => exact hordinary.elim
  | connectorStart thread errno => exact hordinary.elim
  | connectorStop => exact hordinary.elim
  | connectorRestart errno => exact hordinary.elim
  | stop =>
      exact h.of_follows _ _ h.orderly.stop Connector.stop_follows
  | disconnect => exact h.of_follows _ _ h.orderly (Connector.Follows.refl _ _)
  | enableRetry => exact h.of_follows _ _ h.orderly (Connector.Follows.refl _ _)
  | forceClose fd =>
      simp only [StreamClient.step]
      split
      · rename_i hfd
        refine h.of_follows _ _ ?_ (Connector.queueInLoop_follows (by simp))
        refine h.orderly.queueInLoop (by simp) (by simp) ?_
        rintro _ ⟨⟩
        exact (h.orderly.connected fd hfd).2
      · exact h
  | timer index errno =>
      simp only [StreamClient.step]
      split
      · rename_i hindex
        exact h.timer hindex hturn
      · exact h
  | poll active =>
      simp only [StreamClient.step]
      split
      · rename_i hpolls
        exact h.poll hpolls.1 hpolls.2
      · exact h
  | callback completion outcome errno =>
      simp only [StreamClient.step]
      split
      · rename_i cb callbacks hposition
        exact h.runCallback hposition
      all_goals exact h
  | swap =>
      simp only [StreamClient.step]
      split
      · rename_i hposition
        exact h.swap hposition
      · exact h
  | functor errno =>
      simp only [StreamClient.step]
      split
      · rename_i hposition
        split
        · rename_i hfunctors
          exact h.functorsEnd hposition hfunctors
        · rename_i f functors hfunctors
          exact h.runFunctor hfunctors
      · exact h

/-- Nothing has been started. -/
structure Unused (client : StreamClient) : Prop where
  fresh : client.connector.Fresh
  live : client.live = []
  start : .startInLoop ∉ client.connector.queue.inOrder

theorem Unused.stop (h : client.Unused) :
    Unused { client with connect := false, connector := client.connector.stop } where
  fresh := h.fresh.of_eq rfl rfl rfl
  live := h.live
  start := by
    simp only [Connector.stop, Connector.queueInLoop, EventLoop.inOrder_queueInLoop]
    rw [List.mem_append, not_or]
    exact ⟨h.start, by decide⟩

theorem Unused.runCallback (h : client.Unused) {cb : ClientCallback} {completion : Completion}
    {outcome : ConnectionOutcome} :
    Holds (client.runCallback completion outcome errno cb) Unused fun _ => False := by
  cases cb with
  | handleError =>
      simp only [StreamClient.runCallback, Connector.handleError, h.fresh.state]
      exact h
  | handleWrite =>
      simp only [StreamClient.runCallback, Connector.handleWrite, h.fresh.state]
      exact h
  | connection fd =>
      simp only [StreamClient.runCallback, h.live]
      exact h

theorem Unused.runFunctor (h : client.Unused) {f : ClientFunctor} {functors : List ClientFunctor}
    (hfunctors : client.connector.queue.functors = f :: functors) :
    Holds ({ client with connector :=
        { client.connector with
          queue := { client.connector.queue with functors := functors }
          ran := client.connector.ran + 1 } }.runFunctor errno f)
      Unused fun _ => False := by
  have hstart := h.start
  simp only [EventLoop.inOrder, hfunctors, List.cons_append, List.mem_cons, not_or] at hstart
  have htaken : Unused { client with connector :=
      { client.connector with
        queue := { client.connector.queue with functors := functors }
        ran := client.connector.ran + 1 } } :=
    ⟨h.fresh.of_eq rfl rfl rfl, h.live, hstart.2⟩
  cases f with
  | startInLoop => exact (hstart.1 rfl).elim
  | stopInLoop =>
      simp only [StreamClient.runFunctor]
      rw [Connector.stopInLoop_of_ne (by simp [h.fresh.state])]
      exact htaken
  | resetChannel =>
      simp only [StreamClient.runFunctor, Connector.resetChannel, Connector.assert_eq]
      exact ⟨⟨h.fresh.state, rfl, h.fresh.timers⟩, h.live, hstart.2⟩
  | forceCloseInLoop fd =>
      simp only [StreamClient.runFunctor]
      rw [if_neg (by simp [h.live])]
      exact htaken
  | connectDestroyed fd =>
      exact ⟨h.fresh.of_eq rfl rfl rfl, h.live, hstart.2⟩

theorem Unused.step (h : client.Unused) {event : ClientEvent} (hordinary : Ordinary event) :
    Holds (client.step event) Unused fun _ => False := by
  cases event with
  | connect thread errno => exact hordinary.elim
  | connectorStart thread errno => exact hordinary.elim
  | connectorStop => exact hordinary.elim
  | connectorRestart errno => exact hordinary.elim
  | stop => exact h.stop
  | disconnect => exact ⟨h.fresh, h.live, h.start⟩
  | enableRetry => exact ⟨h.fresh, h.live, h.start⟩
  | forceClose fd =>
      simp only [StreamClient.step, h.live]
      exact h
  | timer index errno =>
      simp only [StreamClient.step, h.fresh.timers]
      exact h
  | poll active =>
      simp only [StreamClient.step]
      split
      · exact ⟨h.fresh, h.live, h.start⟩
      · exact h
  | callback completion outcome errno =>
      simp only [StreamClient.step]
      split
      · rename_i cb callbacks hposition
        have htaken : Unused { client with position := .dispatch callbacks } :=
          ⟨h.fresh, h.live, h.start⟩
        exact htaken.runCallback
      all_goals exact h
  | swap =>
      simp only [StreamClient.step]
      split
      · refine ⟨h.fresh.of_eq rfl rfl rfl, h.live, ?_⟩
        simp only [EventLoop.inOrder_swapFunctors]
        exact h.start
      · exact h
  | functor errno =>
      simp only [StreamClient.step]
      split
      · split
        · exact ⟨h.fresh, h.live, h.start⟩
        · rename_i f functors hfunctors
          exact h.runFunctor hfunctors
      · exact h

/-- Before the call that connects the client. -/
structure Idle (client : StreamClient) : Prop extends Normal client, Unused client

theorem idle_init : (init retry).Idle where
  toNormal := normal_init
  fresh := Connector.fresh_init
  live := rfl
  start := List.not_mem_nil

theorem Idle.step (h : client.Idle) {event : ClientEvent} (hordinary : Ordinary event)
    (hturn : client.FiresInTurn event) : Holds (client.step event) Idle fun _ => False := by
  obtain ⟨next, hnext, hnormal⟩ := (h.toNormal.step hordinary hturn).returns
  have hunused := (h.toUnused.step hordinary).of_ok hnext
  rw [hnext]
  exact ⟨hnormal, hunused⟩

theorem Idle.connect (h : client.Idle) (thread : Nat) (errno : ConnectErrno) :
    Holds (client.step (.connect thread errno)) Normal fun _ => False := by
  have horderly := h.orderly
  rw [h.live] at horderly
  have hstarted := horderly.start thread errno h.fresh h.start
  rw [← h.live] at hstarted
  exact h.toNormal.of_follows _ _ hstarted Connector.start_follows

/-- Every descriptor is accounted for. -/
theorem Normal.accounted (h : client.Normal) :
    client.connector.failed = [] ∧
      client.connector.watched.length + client.connector.timers.length ≤ 1 ∧
      (∀ fd < client.connector.sockets, client.connector.closed.count fd +
        client.connector.handed.count fd + client.connector.watched.count fd = 1) ∧
      ∀ fd, client.connector.sockets ≤ fd → client.connector.closed.count fd +
        client.connector.handed.count fd + client.connector.watched.count fd = 0 := by
  refine ⟨h.orderly.failed, ?_, ?_, ?_⟩
  · have hwatched : client.connector.watched.length ≤ 1 := by
      rcases hchannel : client.connector.channel with _ | ⟨sockfd, registered⟩
      · simp [Connector.watched, hchannel]
      · cases registered <;> simp [Connector.watched, hchannel]
    by_cases hnone : client.connector.watched = []
    · have htimer := h.orderly.oneTimer
      rw [hnone, List.length_nil]
      omega
    · have hstate := h.orderly.watching hnone
      rw [h.orderly.timers_eq_nil (by rw [hstate]; decide), List.length_nil]
      exact hwatched
  · intro fd hfd
    have howned := h.orderly.owned fd
    rw [List.count_nil, Nat.add_zero] at howned
    rw [howned]
    exact List.count_eq_one_of_mem List.nodup_range (List.mem_range.mpr hfd)
  · intro fd hfd
    have howned := h.orderly.owned fd
    rw [List.count_nil, Nat.add_zero] at howned
    rw [howned]
    exact List.count_eq_zero.mpr (by simpa using hfd)

/-- Each descriptor of a client that is connected once is closed, or handed over, or that of the
channel that the poller knows. -/
theorem sockets_accounted (retry : Bool) (before after : List ClientEvent) (thread : Nat)
    (errno : ConnectErrno) (hordinary : ∀ event ∈ before ++ after, Ordinary event)
    (hturn : Machine.Always step FiresInTurn (init retry)
      (before ++ .connect thread errno :: after)) :
    Holds (Machine.run step (init retry) (before ++ .connect thread errno :: after))
      (fun client => client.connector.failed = [] ∧
        client.connector.watched.length + client.connector.timers.length ≤ 1 ∧
        (∀ fd < client.connector.sockets, client.connector.closed.count fd +
          client.connector.handed.count fd + client.connector.watched.count fd = 1) ∧
        ∀ fd, client.connector.sockets ≤ fd → client.connector.closed.count fd +
          client.connector.handed.count fd + client.connector.watched.count fd = 0)
      fun _ => False := by
  rw [List.forall_mem_append] at hordinary
  rw [Machine.always_append] at hturn
  have hidleStep : ∀ client event, Ordinary event → Idle client → FiresInTurn client event →
      Holds (step client event) Idle fun _ => False := fun _ _ hevent h => h.step hevent
  have hstep : ∀ client event, Ordinary event → Normal client → FiresInTurn client event →
      Holds (step client event) Normal fun _ => False := fun _ _ hevent h => h.step hevent
  have hbefore := Machine.holds_of_always hidleStep hordinary.1 idle_init hturn.1
  obtain ⟨client, hrun, hidle⟩ := hbefore.returns
  obtain ⟨-, hrest⟩ := hturn.2 client hrun
  obtain ⟨next, hnext, hnormal⟩ := (hidle.connect thread errno).returns
  have hafter := Machine.holds_of_always hstep hordinary.2 hnormal (hrest next hnext)
  rw [Machine.run_append, hrun, ok_bind, Machine.run, hnext]
  exact hafter.imp fun _ h => h.accounted

/-- A refused attempt, a connection that closes, and another attempt that is stopped. -/
theorem sockets_accounted_reconnected :
    Holds (Machine.run step (init false) ([.enableRetry] ++ .connect loopThread .ECONNREFUSED ::
        [.timer 0 .EINPROGRESS, .poll [.connector false true], .callback ⟨0, false⟩ .neither .zero,
          .swap, .functor .zero, .functor .zero, .poll [.connection 1],
          .callback ⟨0, false⟩ .closes .EINPROGRESS, .stop, .swap, .functor .zero, .functor .zero]))
      (fun client => client.connector.failed = [] ∧
        client.connector.watched.length + client.connector.timers.length ≤ 1 ∧
        (∀ fd < client.connector.sockets, client.connector.closed.count fd +
          client.connector.handed.count fd + client.connector.watched.count fd = 1) ∧
        ∀ fd, client.connector.sockets ≤ fd → client.connector.closed.count fd +
          client.connector.handed.count fd + client.connector.watched.count fd = 0)
      fun _ => False := by
  apply sockets_accounted
  · simp [Ordinary]
  · decide +kernel

end StreamClient

end ToyBasket
