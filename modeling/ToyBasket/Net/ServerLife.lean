import ToyBasket.Net.ServerClose

/-!
# The life of a connection of a server

What a step of the loop makes of the stages of all connections, and from it a whole run: a
connection is destructed once nothing points to it, which is after it has been removed, and a new
one begins at the first stage.
-/

namespace ToyBasket

open Outcome (Holds check_of_true ok_bind)

namespace ServerLoop

variable {setup : ServerSetup} {server next last : ServerLoop} {id : Nat} {stage : Nat → Stage}

/-! ### Destructors -/

/-- Only a connection that has been removed is left without a pointer to it. -/
theorem Inv.removed_of_unreferenced (h : server.Inv setup stage) (hid : id ∈ server.alive)
    (hfree : ¬ server.Referenced setup id) : stage id = .removed := by
  have hlife := h.at_of_mem hid
  unfold Referenced at hfree
  push Not at hfree
  obtain ⟨hheld, hqueued, -⟩ := hfree
  cases hstage : stage id with
  | established => exact (hheld (hlife.held.mpr (.inl hstage))).elim
  | closing => exact (hheld (hlife.held.mpr (.inr hstage))).elim
  | closed =>
      have hcount := hlife.queued
      rw [if_pos hstage] at hcount
      have hmem : .connectDestroyed id ∈ server.queue.inOrder := by
        rw [← List.count_pos_iff, hcount]
        decide
      exact (hqueued _ (List.mem_append_left _ hmem) rfl).elim
  | removed => rfl
  | destructed => exact (hlife.alive.mp hid hstage).elim

theorem Inv.destruct (h : server.Inv setup stage) (hcurrent : server.currentActiveChannel = none)
    (hid : id ∈ server.alive) (hstage : stage id = .removed)
    (hfunctors : ∀ f ∈ server.queue.inOrder ++ server.called, f.conn ≠ id) :
    Holds (server.destruct id)
      (fun next => next.Inv setup (Function.update stage id .destructed) ∧
        next = { server with
          alive := server.alive.filter fun other => other ≠ id }.note id .destructed)
      fun _ => False := by
  have hlife := h.at_of_mem hid
  rw [hstage] at hlife
  have hstate : (server.conn id).state = .kDisconnected := hlife.state
  have hchannel : (server.channel id).index = .kNew ∧ (server.channel id).events = kNoneEvent ∧
    (server.channel id).addedToLoop = false := hlife.channel
  have hunknown : server.poller.mChannels (server.channel id).fd ≠ some id := by
    intro hknown
    exact ((h.inStep.mChannels _ _).mp hknown).2 hchannel.1
  unfold ServerLoop.destruct
  rw [check_of_true hstate, ok_bind, check_of_true (h.not_handling hcurrent id), ok_bind,
    check_of_true hchannel.2.2, ok_bind, check_of_true hunknown, ok_bind]
  refine ⟨?_, rfl⟩
  have halive : ∀ other, other ∈ server.alive.filter (fun other => other ≠ id) ↔
      other ∈ server.alive ∧ other ≠ id := by simp
  have hnotes : ∀ other ≠ id,
      ofThread other (server.note id .destructed).notes = ofThread other server.notes := by
    intro other hsame
    rw [note, ofThread_append, ofThread_singleton_of_ne hsame, List.append_nil]
  exact {
    life := by
      intro other hother
      by_cases hsame : other = id
      · subst hsame
        rw [Function.update_self]
        exact { hlife with
          notes := by
            rw [ofThread_note_self]
            exact congrArg (· ++ _) hlife.notes
          held := hlife.held.trans (by simp)
          queued := hlife.queued
          alive := (halive other).trans (by simp) }
      · rw [Function.update_of_ne hsame]
        exact (h.life other hother).of_eq (hnotes other hsame) rfl rfl Iff.rfl rfl
          ((halive other).trans (by simp [hsame]))
    unborn := by
      intro other hother
      obtain ⟨hnone, hindex, hdead⟩ := h.unborn other hother
      have hsame : other ≠ id := ((h.lt_accepted hid).trans_le hother).ne'
      exact ⟨(hnotes other hsame).trans hnone, hindex, fun hmem => hdead ((halive other).mp hmem).1⟩
    inStep := h.inStep
    nodup := h.nodup.filter _
    fds := by
      intro other hother other' hother'
      exact h.fds other ((halive other).mp hother).1 other' ((halive other').mp hother').1
    map := h.map
    functors := by
      intro f hf
      exact (halive f.conn).mpr ⟨h.functors f hf, hfunctors f hf⟩
    current := by
      intro other hother
      exact absurd hother (by change server.currentActiveChannel ≠ _; rw [hcurrent]; simp)
    handling := h.handling
    active := by
      intro p hp
      obtain ⟨haccepted, hup, hproper⟩ := h.active p hp
      refine ⟨haccepted, ?_, hproper⟩
      rw [Function.update_of_ne, hup]
      intro hsame
      rw [hsame, hstage] at hup
      cases hup
    once := h.once }

/-- A connection that nothing keeps any more. -/
structure Free (server : ServerLoop) (stage : Nat → Stage) (id : Nat) : Prop where
  alive : id ∈ server.alive
  removed : stage id = .removed
  functors : ∀ f ∈ server.queue.inOrder ++ server.called, f.conn ≠ id

theorem Inv.run_destruct {ids : List Nat} (h : server.Inv setup stage)
    (hcurrent : server.currentActiveChannel = none) (hnodup : ids.Nodup)
    (hfree : ∀ id ∈ ids, server.Free stage id) :
    Holds (Machine.run ServerLoop.destruct server ids) (Settled setup) fun _ => False := by
  induction ids generalizing server stage with
  | nil => exact ⟨hcurrent, stage, h⟩
  | cons id ids ih =>
      rw [List.nodup_cons] at hnodup
      rw [List.forall_mem_cons] at hfree
      obtain ⟨⟨hid, hstage, hfunctors⟩, hrest⟩ := hfree
      obtain ⟨next, hnext, hinv, rfl⟩ := (h.destruct hcurrent hid hstage hfunctors).returns
      rw [Machine.run, hnext]
      apply ih hinv hcurrent hnodup.2
      intro other hother
      have hsame : other ≠ id := by
        rintro rfl
        exact hnodup.1 hother
      obtain ⟨halive, hremoved, hfunctors'⟩ := hrest other hother
      refine ⟨?_, ?_, hfunctors'⟩
      · exact List.mem_filter.mpr ⟨halive, decide_eq_true hsame⟩
      · rw [Function.update_of_ne hsame, hremoved]

/-- Whatever is destructed has been removed from the poller before. -/
theorem Settled.destructAll (h : server.Settled setup) :
    Holds (server.destructAll setup) (Settled setup) fun _ => False := by
  obtain ⟨hcurrent, stage, hinv⟩ := h
  apply hinv.run_destruct hcurrent (hinv.nodup.filter _)
  intro id hmem
  rw [List.mem_filter, decide_eq_true_iff] at hmem
  obtain ⟨hid, hfree⟩ := hmem
  refine ⟨hid, hinv.removed_of_unreferenced hid hfree, ?_⟩
  intro f hf hconn
  exact hfree (.inr (.inl ⟨f, hf, hconn⟩))

/-! ### New connections -/

/-- The connection after it has come up. -/
def born (setup : ServerSetup) (server : ServerLoop) (poller : EPollPoller Nat) : ServerLoop :=
  let id := server.accepted
  { server with
    poller := poller
    conn := Function.update server.conn id ⟨.kConnected, 0, true, false⟩
    connections := Function.update server.connections (setup.names id) (some id)
    accepted := id + 1
    alive := server.alive ++ [id] }.note id .up

theorem newConnection_eq {fd : Nat} {poller : EPollPoller Nat}
    (hrun : (server.poller.setChannel server.accepted (Channel.new fd)).enableReading
      server.accepted = .ok poller) (upCalls : List ServerCall) :
    server.newConnection setup fd upCalls = (server.born setup poller).callAll setup upCalls := by
  unfold ServerLoop.newConnection ServerLoop.connectEstablished
  simp only [ServerLoop.setConn, Function.update_self, Function.update_idem, check_of_true, ok_bind,
    callPoller, hrun]
  rfl

theorem Inv.ownFd_new (h : server.Inv setup stage) {fd : Nat}
    (hfd : fd ∉ server.alive.map fun id => (server.channel id).fd) :
    (server.poller.setChannel server.accepted (Channel.new fd)).OwnFd server.accepted := by
  intro other hknown hsame
  by_contra hother
  simp only [EPollPoller.setChannel, Function.update_of_ne hother, Function.update_self]
    at hknown hsame
  have haccepted : other < server.accepted := by
    rw [← Nat.not_le]
    exact fun hle => hknown (h.unborn other hle).2.1
  have hlife := h.life other haccepted
  have halive := hlife.alive.mpr (Stage.ne_destructed_of_known hlife.channel hknown)
  exact hfd (List.mem_map.mpr ⟨other, halive, hsame⟩)

section Born

variable {fd other : Nat} {poller : EPollPoller Nat} {events : BitVec 32}

/-- What the poller is after the channel of the new connection has been enabled. -/
def Enabled (server : ServerLoop) (fd : Nat) (events : BitVec 32) (poller : EPollPoller Nat) :
    Prop :=
  (server.poller.setChannel server.accepted (Channel.new fd)).Leaves server.accepted
    (EPollPoller.updated (Channel.new fd) events) poller

theorem Enabled.channel_self (h : server.Enabled fd events poller) :
    (server.born setup poller).channel server.accepted =
      EPollPoller.updated (Channel.new fd) events := by
  simp only [ServerLoop.channel, ServerLoop.born, ServerLoop.note, EPollPoller.Leaves.channel h,
    Function.update_self]

theorem Enabled.channel_of_ne (h : server.Enabled fd events poller)
    (hother : other ≠ server.accepted) :
    (server.born setup poller).channel other = server.channel other := by
  simp only [ServerLoop.channel, ServerLoop.born, ServerLoop.note, EPollPoller.Leaves.channel h,
    EPollPoller.setChannel, Function.update_of_ne hother]

theorem born_notes_of_ne (hother : other ≠ server.accepted) :
    ofThread other (server.born setup poller).notes = ofThread other server.notes := by
  rw [born, note, ofThread_append, ofThread_singleton_of_ne hother, List.append_nil]

theorem mem_born_alive :
    other ∈ (server.born setup poller).alive ↔ other ∈ server.alive ∨ other = server.accepted := by
  simp [born, note]

theorem Inv.born_self (h : server.Inv setup stage) (henabled : server.Enabled fd events poller)
    (hreading : events &&& kReadEvent ≠ 0) :
    (server.born setup poller).At setup server.accepted .established := by
  obtain ⟨hfresh, -, hdead⟩ := h.unborn server.accepted le_rfl
  exact {
    notes := by
      rw [ServerLoop.born, ofThread_note_self]
      exact congrArg (· ++ _) hfresh
    state := by simp [ServerLoop.born, note, Stage.HasState]
    tied := by simp [ServerLoop.born, note]
    channel := by
      rw [henabled.channel_self]
      exact ⟨rfl, hreading⟩
    held := by simp [ServerLoop.born, note]
    queued := by
      rw [if_neg (by decide), List.count_eq_zero]
      intro hmem
      exact hdead (h.functors _ (List.mem_append_left _ hmem))
    alive := by simp [mem_born_alive] }

theorem Inv.born_of_ne (h : server.Inv setup stage) (henabled : server.Enabled fd events poller)
    (hname : server.connections (setup.names server.accepted) = none)
    (hother : other < server.accepted) :
    (server.born setup poller).At setup other (stage other) := by
  have hsame : other ≠ server.accepted := hother.ne
  apply (h.life other hother).of_eq (born_notes_of_ne hsame) _ (henabled.channel_of_ne hsame) _ rfl
  · simp [mem_born_alive, hsame]
  · simp [ServerLoop.born, note, hsame]
  · change Function.update server.connections _ _ _ = _ ↔ _
    by_cases hnames : setup.names other = setup.names server.accepted
    · rw [hnames, Function.update_self, hname]
      simp [Ne.symm hsame]
    · rw [Function.update_of_ne hnames]

theorem Inv.born_fds (h : server.Inv setup stage) (henabled : server.Enabled fd events poller)
    (hfd : fd ∉ server.alive.map fun id => (server.channel id).fd) :
    ∀ id ∈ (server.born setup poller).alive, ∀ other ∈ (server.born setup poller).alive,
      ((server.born setup poller).channel id).fd = ((server.born setup poller).channel other).fd →
        id = other := by
  have hold : ∀ id ∈ server.alive, id ≠ server.accepted :=
    fun id hid => (h.lt_accepted hid).ne
  have hfds : ∀ id ∈ server.alive, (server.channel id).fd ≠ fd := by
    intro id hid hsame
    exact hfd (List.mem_map.mpr ⟨id, hid, hsame⟩)
  intro id hid other hother hsame
  rw [mem_born_alive] at hid hother
  rcases hid with hid | rfl <;> rcases hother with hother | rfl
  · rw [henabled.channel_of_ne (hold id hid), henabled.channel_of_ne (hold other hother)] at hsame
    exact h.fds id hid other hother hsame
  · rw [henabled.channel_of_ne (hold id hid), henabled.channel_self] at hsame
    exact (hfds id hid hsame).elim
  · rw [henabled.channel_of_ne (hold other hother), henabled.channel_self] at hsame
    exact (hfds other hother hsame.symm).elim
  · rfl

/-- A new connection comes up under a name and a descriptor of its own. -/
theorem Inv.born (h : server.Inv setup stage)
    (hname : server.connections (setup.names server.accepted) = none)
    (hfd : fd ∉ server.alive.map fun id => (server.channel id).fd)
    (henabled : server.Enabled fd events poller) (hreading : events &&& kReadEvent ≠ 0) :
    (server.born setup poller).Inv setup
      (Function.update stage server.accepted .established) where
  life := by
    intro other hother
    by_cases hsame : other = server.accepted
    · subst hsame
      rw [Function.update_self]
      exact h.born_self henabled hreading
    · rw [Function.update_of_ne hsame]
      exact h.born_of_ne henabled hname (Nat.lt_of_le_of_ne (Nat.le_of_lt_succ hother) hsame)
  unborn := by
    intro other hother
    have hlt : server.accepted < other := hother
    obtain ⟨hnone, hindex, hdead⟩ := h.unborn other hlt.le
    rw [born_notes_of_ne hlt.ne', henabled.channel_of_ne hlt.ne', mem_born_alive]
    exact ⟨hnone, hindex, by simp [hdead, hlt.ne']⟩
  inStep := EPollPoller.Leaves.inStep henabled
  nodup := by
    refine List.nodup_append.mpr ⟨h.nodup, List.nodup_singleton _, ?_⟩
    intro id hid other hother
    rw [List.mem_singleton] at hother
    rw [hother]
    exact (h.lt_accepted hid).ne
  fds := h.born_fds henabled hfd
  map := by
    intro name id hmap
    change Function.update server.connections _ _ _ = _ at hmap
    by_cases hnames : name = setup.names server.accepted
    · rw [hnames, Function.update_self] at hmap
      cases hmap
      exact ⟨Nat.lt_succ_self _, hnames.symm⟩
    · rw [Function.update_of_ne hnames] at hmap
      obtain ⟨hlt, hsame⟩ := h.map name id hmap
      exact ⟨Nat.lt_succ_of_lt hlt, hsame⟩
  functors := fun f hf => mem_born_alive.mpr (.inl (h.functors f hf))
  current := fun other hother => mem_born_alive.mpr (.inl (h.current other hother))
  handling := by
    intro other hhandling
    by_cases hsame : other = server.accepted
    · simp [hsame, ServerLoop.born, note] at hhandling
    · apply h.handling other
      simpa [ServerLoop.born, note, hsame] using hhandling
  active := by
    intro p hp
    obtain ⟨hlt, hup, hproper⟩ := h.active p hp
    refine ⟨Nat.lt_succ_of_lt hlt, ?_, hproper⟩
    rw [Function.update_of_ne hlt.ne, hup]
  once := h.once

end Born

theorem Inv.newConnection (h : server.Inv setup stage)
    (hcurrent : server.currentActiveChannel = none)
    (hname : server.connections (setup.names server.accepted) = none) {fd : Nat}
    (hfd : fd ∉ server.alive.map fun id => (server.channel id).fd) (upCalls : List ServerCall) :
    Holds (server.newConnection setup fd upCalls) (Settled setup) fun _ => False := by
  have hindex : (server.poller.channel server.accepted).index = .kNew :=
    (h.unborn server.accepted le_rfl).2.1
  have hinStep : (server.poller.setChannel server.accepted (Channel.new fd)).InStep :=
    h.inStep.setChannel hindex rfl
  have hreading : ((Channel.new fd).events ||| kReadEvent) &&& kReadEvent ≠ 0 := by
    change (kNoneEvent ||| kReadEvent) &&& kReadEvent ≠ 0
    decide
  obtain ⟨poller, hrun, hleaves⟩ := (EPollPoller.changeEvents_holds hinStep (h.ownFd_new hfd)
    fun events => events ||| kReadEvent).returns
  have henabled : server.Enabled fd ((Channel.new fd).events ||| kReadEvent) poller := by
    simpa only [Enabled, EPollPoller.setChannel, Function.update_self] using hleaves
  rw [newConnection_eq hrun]
  have hborn := h.born hname hfd henabled hreading
  apply (hborn.callAll upCalls).imp
  exact fun next hnext => hnext.settled hcurrent

/-! ### Runs -/

/-- The kernel watches only connections that are up. -/
theorem Inv.established_of_watched (h : server.Inv setup stage)
    (hwatched : (server.poller.epoll (server.channel id).fd).any fun event => event.ptr = id) :
    id < server.accepted ∧ stage id = .established := by
  rw [Option.any_eq_true] at hwatched
  obtain ⟨event, hevent, hptr⟩ := hwatched
  obtain ⟨-, hadded, -⟩ := (h.inStep.epoll _ _).mp hevent
  rw [of_decide_eq_true hptr] at hadded
  have hindex : (server.channel id).index = .kAdded := hadded
  have haccepted : id < server.accepted := by
    rw [← Nat.not_le]
    intro hle
    have hnew := (h.unborn id hle).2.1
    rw [hindex] at hnew
    cases hnew
  refine ⟨haccepted, ?_⟩
  have hchannel := (h.life id haccepted).channel
  cases hstage : stage id with
  | established => rfl
  | _ =>
      rw [hstage] at hchannel
      have hother := hchannel.1
      rw [hindex] at hother
      cases hother

theorem Settled.poll (h : server.Settled setup) {active : List (Nat × BitVec 32)}
    {others : Nat} (hreports : server.Reports active others) (hproper : ∀ p ∈ active, Proper p.2) :
    Holds (server.poll active others) (Settled setup) fun _ => False := by
  obtain ⟨hcurrent, stage, hinv⟩ := h
  obtain ⟨hlength, hnodup, hwatched⟩ := hreports
  unfold ServerLoop.poll
  dsimp only
  rw [check_of_true hlength, ok_bind]
  refine ⟨hcurrent, stage, hinv.proceed rfl rfl rfl rfl rfl rfl rfl (fun _ hf => hf) hinv.current
    hinv.handling ?_ hnodup⟩
  intro p hp
  obtain ⟨haccepted, hstage⟩ := hinv.established_of_watched (hwatched p hp)
  exact ⟨haccepted, hstage, hproper p hp⟩

/-- What is assumed: the names are distinct, and the kernel reports proper masks. -/
def Assumed (setup : ServerSetup) (server : ServerLoop) : ServerStep → Prop
  | .poll active _ => ∀ p ∈ active, Proper p.2
  | .accept _ _ => ∀ id < server.accepted, setup.names id ≠ setup.names server.accepted
  | .handleEvent _ | .swap | .functor _ | .endFunctors => True

instance (revents : BitVec 32) : Decidable (Proper revents) :=
  inferInstanceAs (Decidable (_ → _ → _))

instance (setup : ServerSetup) (server : ServerLoop) (event : ServerStep) :
    Decidable (server.Assumed setup event) := by
  cases event <;> unfold Assumed <;> infer_instance

theorem Settled.newConnection (h : server.Settled setup)
    (hnames : ∀ id < server.accepted, setup.names id ≠ setup.names server.accepted) {fd : Nat}
    (hfd : fd ∉ server.alive.map fun id => (server.channel id).fd) (upCalls : List ServerCall) :
    Holds (server.newConnection setup fd upCalls) (Settled setup) fun _ => False := by
  obtain ⟨hcurrent, stage, hinv⟩ := h
  apply hinv.newConnection hcurrent _ hfd
  rw [Option.eq_none_iff_forall_ne_some]
  intro id hheld
  obtain ⟨haccepted, hname⟩ := hinv.map _ id hheld
  exact hnames id haccepted hname

theorem Settled.swap (h : server.Settled setup) : Settled setup
    { server with phase := .functors, queue := server.queue.swapFunctors } := by
  obtain ⟨hcurrent, stage, hinv⟩ := h
  exact ⟨hcurrent, stage, hinv.proceed rfl rfl rfl rfl rfl rfl (EventLoop.inOrder_swapFunctors _)
    (fun _ hf => hf) hinv.current hinv.handling nofun List.nodup_nil⟩

theorem Settled.endFunctors (h : server.Settled setup) :
    Settled setup { server with phase := .poll, called := [] } := by
  obtain ⟨hcurrent, stage, hinv⟩ := h
  exact ⟨hcurrent, stage, hinv.proceed rfl rfl rfl rfl rfl rfl rfl nofun hinv.current hinv.handling
    nofun List.nodup_nil⟩

theorem Settled.step (h : server.Settled setup) (event : ServerStep)
    (hassumed : server.Assumed setup event) :
    Holds (server.step setup event) (Settled setup) fun _ => False := by
  unfold ServerLoop.step
  cases event with
  | poll active others =>
      dsimp only
      split
      · rename_i hpoll
        exact h.poll hpoll.2 hassumed
      · exact h
  | accept fd upCalls =>
      dsimp only
      split
      · split
        · exact h
        · rename_i hfd
          exact (h.newConnection hassumed hfd upCalls).bind fun _ hnext => hnext.destructAll
      · exact h
      · exact h
  | handleEvent input =>
      dsimp only
      split
      · rename_i hphase
        obtain ⟨hcurrent, stage, hinv⟩ := h
        exact (hinv.handleEvent hcurrent hphase input).bind fun _ hnext => hnext.destructAll
      · exact h
      · exact h
      · exact h
  | swap =>
      dsimp only
      split
      · exact h.swap
      · exact h
  | functor calls =>
      dsimp only
      split
      · rename_i hphase
        split
        · exact h
        · rename_i hqueue
          obtain ⟨hcurrent, stage, hinv⟩ := h
          exact (hinv.runFunctor hcurrent hphase hqueue calls).bind
            fun _ hnext => hnext.destructAll
      · exact h
  | endFunctors =>
      dsimp only
      split
      · exact h.endFunctors.destructAll
      · exact h

/-- Each connection has come as far as it has in this order, no assertion fails and no object is
used after its end. -/
theorem lifecycle_inOrder (setup : ServerSetup) (events : List ServerStep)
    (hassumed : Machine.Always (step setup) (Assumed setup) init events) :
    Holds (Machine.run (step setup) init events)
      (fun server =>
        (∀ id < server.accepted,
          ofThread id server.notes <+: lifecycle ∧ ofThread id server.notes ≠ []) ∧
        ∀ id, server.accepted ≤ id → ofThread id server.notes = [])
      fun _ => False := by
  have hinit : init.Settled setup := ⟨rfl, fun _ => .established, inv_init _⟩
  have hrun := Machine.holds_of_always
    (fun server event (_ : True) (h : server.Settled setup) => h.step event)
    (fun _ _ => trivial) hinit hassumed
  apply hrun.imp
  rintro server ⟨-, stage, hinv⟩
  refine ⟨?_, fun id hid => (hinv.unborn id hid).1⟩
  intro id hid
  rw [(hinv.life id hid).notes]
  exact ⟨(stage id).milestones_initial, (stage id).milestones_ne_nil⟩

/-- The end of one connection closes another that is still to be handled. -/
theorem lifecycle_inOrder_twoConnections :
    Holds (Machine.run
        (step ⟨fun id => decimal id, true, true, 64⟩) init
        [.poll [] 1, .accept 7 [], .accept 8 [.send 0 5 (.accepted 2)], .swap, .endFunctors,
          .poll [(0, POLLIN ||| POLLHUP), (1, POLLIN ||| POLLOUT)] 0,
          .handleEvent ⟨.eof, .accepted 0, [], [.keep 0, .forceClose 1]⟩,
          .handleEvent ⟨.bytes, .accepted 0, [.send 1 3 (.failed .wouldBlock)], []⟩,
          .swap, .functor [.release 0], .functor [], .endFunctors, .poll [] 0, .swap, .functor [],
          .endFunctors])
      (fun server =>
        (∀ id < server.accepted,
          ofThread id server.notes <+: lifecycle ∧ ofThread id server.notes ≠ []) ∧
        ∀ id, server.accepted ≤ id → ofThread id server.notes = [])
      fun _ => False := by
  apply lifecycle_inOrder
  decide +kernel

end ServerLoop

end ToyBasket
