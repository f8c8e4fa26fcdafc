import ToyBasket.Net.ServerStages

/-!
# How a connection of a server closes

The end of the stream, a hangup or `forceClose` closes a connection that is up, and a functor
removes it later. Whatever a channel handles and whatever functor runs, each connection stays at its
stage or goes on to the next.
-/

namespace ToyBasket

open Outcome (Holds check_of_true ok_bind)

namespace ServerLoop

variable {setup : ServerSetup} {server next last : ServerLoop} {id : Nat} {stage : Nat → Stage}
  {s : Stage}

/-! ### Closing -/

theorem ofThread_note_self (server : ServerLoop) (id : Nat) (milestone : Milestone) :
    ofThread id (server.note id milestone).notes = ofThread id server.notes ++ [milestone] := by
  rw [note, ofThread_append, ofThread_singleton_self]

/-- The part of `handleClose` before the callback of the program. -/
theorem Inv.beginClose (h : server.Inv setup stage) (hid : id ∈ server.alive)
    (hstage : stage id = .established) (hactive : id ∉ server.remaining.map Prod.fst) :
    Holds (((server.note id .handleClose).setState id .kDisconnected).callPoller
        (server.poller.disableAll id))
      (fun next => Goes setup (Function.update stage id .closing) server (next.note id .down))
      fun _ => False := by
  have hlife := h.at_of_mem hid
  rw [hstage] at hlife
  apply (callPoller_holds
    (EPollPoller.changeEvents_holds h.inStep (h.ownFd hid) fun _ => kNoneEvent)).imp
  rintro _ ⟨poller, rfl, hleaves⟩
  have hnoted : Moves setup server id (server.note id .handleClose) :=
    Moves.note h.inStep id .handleClose
  have hset : Moves setup server id ((server.note id .handleClose).setState id .kDisconnected) :=
    hnoted.trans (Moves.setConn hnoted.inStep rfl)
  have hdisabled := hset.trans (Moves.poller hleaves rfl)
  have hmoves := hdisabled.trans (Moves.note hdisabled.inStep id .down)
  apply h.goes hmoves hid _ (.inr hactive)
  exact {
    notes := by
      rw [ofThread_note_self]
      change ofThread id (server.note id .handleClose).notes ++ _ = _
      rw [ofThread_note_self, hlife.notes]
      rfl
    state := by simp [Stage.HasState, ServerLoop.note, setState, ServerLoop.setConn]
    tied := by simp [ServerLoop.note, setState, ServerLoop.setConn, hlife.tied]
    channel := by
      simp only [ServerLoop.channel, ServerLoop.note, hleaves.channel, Function.update_self]
      exact ⟨if_pos ⟨hlife.channel.1, rfl⟩, rfl⟩
    held := by
      refine hlife.held.trans ?_
      simp
    queued := hlife.queued
    alive := hlife.alive.trans (by simp) }

theorem Inv.removeConnectionInLoop (h : server.Inv setup stage) (hid : id ∈ server.alive)
    (hstage : stage id = .closing) (hactive : id ∉ server.remaining.map Prod.fst) :
    Holds ((server.note id .closeCallback).removeConnectionInLoop setup id)
      (Goes setup (Function.update stage id .closed) server) fun _ => False := by
  have hlife := h.at_of_mem hid
  rw [hstage] at hlife
  have hheld : server.connections (setup.names id) = some id := hlife.held.mpr (.inr rfl)
  unfold ServerLoop.removeConnectionInLoop
  dsimp only
  rw [check_of_true (by simp [ServerLoop.note, hheld]), ok_bind]
  have hnoted : Moves setup server id (server.note id .closeCallback) :=
    Moves.note h.inStep id .closeCallback
  have hgone := hnoted.trans (Moves.erase hnoted.inStep hheld)
  have herased := hgone.trans (Moves.note hgone.inStep id .erased)
  have hmoves := herased.trans
    (Moves.queueInLoop herased.inStep (f := .connectDestroyed id) rfl)
  apply h.goes hmoves hid _ (.inr hactive)
  exact {
    notes := by
      change ofThread id (ServerLoop.note _ id .erased).notes = _
      rw [ofThread_note_self]
      change ofThread id (server.note id .closeCallback).notes ++ _ = _
      rw [ofThread_note_self, hlife.notes]
      rfl
    state := hlife.state
    tied := hlife.tied
    channel := hlife.channel
    held := by simp [ServerLoop.queueInLoop, ServerLoop.note]
    queued := by
      have hqueued := hlife.queued
      rw [if_neg (by decide)] at hqueued
      simp only [ServerLoop.queueInLoop, ServerLoop.note, EventLoop.inOrder_queueInLoop,
        List.count_append, hqueued]
      simp
    alive := hlife.alive.trans (by simp) }

theorem Inv.handleClose (h : server.Inv setup stage) (hid : id ∈ server.alive)
    (hstage : stage id = .established) (hactive : id ∉ server.remaining.map Prod.fst)
    (downCalls : List ServerCall) :
    Holds (server.handleClose setup id downCalls)
      (Goes setup (Function.update stage id .closed) server) fun _ => False := by
  have hlife := h.at_of_mem hid
  rw [hstage] at hlife
  have hstate : (server.conn id).state = .kConnected ∨ (server.conn id).state = .kDisconnecting :=
    hlife.state
  unfold ServerLoop.handleClose
  rw [check_of_true hstate, ok_bind]
  apply (h.beginClose hid hstage hactive).bind
  intro closing hclosing
  apply (hclosing.inv.callAll downCalls).bind
  intro down hdown
  have hboth := hclosing.trans hdown
  have hremaining : down.remaining = server.remaining := by simp only [remaining, hboth.phase]
  have hremoved := hdown.inv.removeConnectionInLoop (hboth.mem hid) (Function.update_self _ _ _)
    (by rwa [hremaining])
  rw [Function.update_idem] at hremoved
  exact hremoved.imp fun _ hlast => hboth.trans hlast

/-! ### Handling what was reported -/

/-- The loop goes on to something else, and the connections stay as they are. -/
theorem Inv.proceed (h : server.Inv setup stage) (hpoller : next.poller = server.poller)
    (hconn : next.conn = server.conn) (hconnections : next.connections = server.connections)
    (haccepted : next.accepted = server.accepted) (halive : next.alive = server.alive)
    (hnotes : next.notes = server.notes) (hqueue : next.queue.inOrder = server.queue.inOrder)
    (hcalled : ∀ f ∈ next.called, f ∈ server.called)
    (hcurrent : ∀ id, next.currentActiveChannel = some id → id ∈ server.alive)
    (hhandling : ∀ id, (server.conn id).eventHandling → next.currentActiveChannel = some id)
    (hactive : ∀ p ∈ next.remaining,
      p.1 < server.accepted ∧ stage p.1 = .established ∧ Proper p.2)
    (honce : (next.remaining.map Prod.fst).Nodup) : next.Inv setup stage where
  life := by
    rw [haccepted]
    intro id hid
    have hchannel : next.channel id = server.channel id := by rw [channel, channel, hpoller]
    exact (h.life id hid).of_eq (by rw [hnotes]) (by rw [hconn]) hchannel (by rw [hconnections])
      (by rw [hqueue]) (by rw [halive])
  unborn := by
    rw [haccepted, hnotes, halive]
    intro id hid
    rw [channel, hpoller]
    exact h.unborn id hid
  inStep := by rw [hpoller]; exact h.inStep
  nodup := by rw [halive]; exact h.nodup
  fds := by
    simp only [channel, hpoller, halive]
    exact h.fds
  map := by
    rw [hconnections, haccepted]
    exact h.map
  functors := by
    rw [hqueue, halive]
    intro f hf
    apply h.functors f
    rw [List.mem_append] at hf ⊢
    exact hf.imp_right (hcalled f)
  current := by rw [halive]; exact hcurrent
  handling := by rw [hconn]; exact hhandling
  active := by rw [haccepted]; exact hactive
  once := honce

/-- The channel begins or ends to handle its event. -/
theorem Inv.setHandling (h : server.Inv setup stage) (hid : id ∈ server.alive)
    (hcurrent : server.currentActiveChannel = some id) (eventHandling : Bool) :
    Goes setup stage server
      (server.setConn id { server.conn id with eventHandling := eventHandling }) where
  inv := { h with
    life := by
      intro other hother
      have hlife := h.life other hother
      by_cases hsame : other = id
      · subst hsame
        exact { hlife with
          state := by simpa [ServerLoop.setConn] using hlife.state
          tied := by simpa [ServerLoop.setConn] using hlife.tied }
      · exact { hlife with
          state := by simpa [ServerLoop.setConn, hsame] using hlife.state
          tied := by simpa [ServerLoop.setConn, hsame] using hlife.tied }
    handling := by
      intro other hother
      by_cases hsame : other = id
      · rw [hsame]
        exact hcurrent
      · simp only [ServerLoop.setConn, Function.update_of_ne hsame] at hother
        exact h.handling other hother }
  alive := rfl
  phase := rfl
  current := rfl

theorem Inv.handleWrite (h : server.Inv setup stage) (hid : id ∈ server.alive)
    (hstage : stage id = .established ∨ stage id = .closed) (result : WriteResult) :
    Holds (server.handleWrite setup id result) (Goes setup stage server) fun _ => False := by
  have hlife := h.at_of_mem hid
  unfold ServerLoop.handleWrite
  split
  · rename_i hwriting
    have hup : stage id = .established := by
      refine hstage.resolve_right fun hclosed => ?_
      rw [hclosed] at hlife
      have hevents : (server.channel id).events = kNoneEvent := hlife.channel.2
      rw [Channel.isWriting, hevents] at hwriting
      exact absurd hwriting (by decide)
    cases result with
    | failed errno => exact Goes.refl h
    | accepted n =>
        dsimp only
        split
        · generalize (server.conn id).outputBuffer - min n (server.conn id).outputBuffer = left
          have hset : Goes setup stage server
              (server.setConn id { server.conn id with outputBuffer := left }) :=
            h.setConn hid hlife.state hlife.tied rfl
          split
          · apply (hset.inv.changeEvents (hset.mem hid) hup _ disableWriting_reading).bind
            intro next hnext
            have hboth := hset.trans hnext
            exact hboth.trans (hnext.inv.queueCallback (hboth.mem hid) _ _)
          · exact hset
        · exact Goes.refl h
  · exact Goes.refl h

/-- What handling an event leaves of a connection that was up. -/
def Handled (setup : ServerSetup) (stage : Nat → Stage) (server : ServerLoop) (id : Nat)
    (next : ServerLoop) : Prop :=
  ∃ s, (s = .established ∨ s = .closed) ∧ Goes setup (Function.update stage id s) server next

theorem Goes.handled (h : Goes setup stage server next) (hstage : stage id = .established) :
    Handled setup stage server id next := by
  refine ⟨.established, .inl rfl, ?_⟩
  rwa [← hstage, Function.update_eq_self]

theorem Inv.handleRead (h : server.Inv setup stage) (hid : id ∈ server.alive)
    (hstage : stage id = .established) (hactive : id ∉ server.remaining.map Prod.fst)
    (input : EventInput) :
    Holds (server.handleRead setup id input) (Handled setup stage server id) fun _ => False := by
  unfold ServerLoop.handleRead
  cases input.read with
  | bytes =>
      apply (h.callAll input.messageCalls).imp
      exact fun next hnext => hnext.handled hstage
  | eof =>
      apply (h.handleClose hid hstage hactive input.downCalls).imp
      exact fun next hnext => ⟨.closed, .inr rfl, hnext⟩
  | failed => exact (Goes.refl h).handled hstage

/-- A channel that has hung up has nothing to read. -/
theorem Proper.nothing_to_read {revents : BitVec 32} (h : Proper revents)
    (hhup : revents &&& POLLHUP ≠ 0) (hin : revents &&& POLLIN = 0) :
    revents &&& (POLLIN ||| POLLPRI ||| POLLRDHUP) = 0 := by
  have hrest : revents &&& (POLLPRI ||| POLLRDHUP) = 0 := by
    by_contra hcontra
    exact h hhup hcontra hin
  rw [BitVec.or_assoc, BitVec.and_or_distrib_left, hin, hrest]
  rfl

/-- The last part of `handleEventWithGuard`. -/
theorem Handled.writeAndEnd (h : Handled setup stage server id next) (hid : id ∈ server.alive)
    (hcurrent : server.currentActiveChannel = some id) (revents : BitVec 32)
    (result : WriteResult) :
    Holds (do
        let server ←
          if revents &&& POLLOUT ≠ 0 then next.handleWrite setup id result else .ok next
        return server.setConn id { server.conn id with eventHandling := false })
      (fun last => Handled setup stage server id last ∧ (last.conn id).eventHandling = false)
      fun _ => False := by
  obtain ⟨s, hs, hnext⟩ := h
  have hstage : Function.update stage id s id = .established ∨
      Function.update stage id s id = .closed := by
    rwa [Function.update_self]
  have hended : ∀ last, Goes setup (Function.update stage id s) server last →
      Handled setup stage server id
        (last.setConn id { last.conn id with eventHandling := false }) ∧
      ((last.setConn id { last.conn id with eventHandling := false }).conn id).eventHandling
        = false := by
    intro last hlast
    have hset := hlast.inv.setHandling (hlast.mem hid) (hlast.current.trans hcurrent) false
    refine ⟨⟨s, hs, hlast.trans hset⟩, ?_⟩
    simp [ServerLoop.setConn]
  split
  · apply (hnext.inv.handleWrite (hnext.mem hid) hstage result).bind
    exact fun last hlast => hended last (hnext.trans hlast)
  · exact hended next hnext

/-- The connection is closed at most once, by the close callback or by the read callback. -/
theorem Inv.handleEventWithGuard (h : server.Inv setup stage) (hid : id ∈ server.alive)
    (hstage : stage id = .established) (hactive : id ∉ server.remaining.map Prod.fst)
    (hcurrent : server.currentActiveChannel = some id) {revents : BitVec 32}
    (hproper : Proper revents) (input : EventInput) :
    Holds (server.handleEventWithGuard setup id revents input)
      (fun next => Handled setup stage server id next ∧ (next.conn id).eventHandling = false)
      fun _ => False := by
  have hbegun := h.setHandling hid hcurrent true
  unfold ServerLoop.handleEventWithGuard
  dsimp only
  by_cases hhup : revents &&& POLLHUP ≠ 0 ∧ revents &&& POLLIN = 0
  · rw [if_pos hhup]
    apply (hbegun.inv.handleClose (hbegun.mem hid) hstage hactive input.downCalls).bind
    intro next hnext
    rw [if_neg (not_not.mpr (hproper.nothing_to_read hhup.1 hhup.2)), ok_bind]
    have hclosed : Handled setup stage server id next := ⟨.closed, .inr rfl, hbegun.trans hnext⟩
    exact hclosed.writeAndEnd hid hcurrent revents input.write
  · rw [if_neg hhup, ok_bind]
    split
    · apply (hbegun.inv.handleRead (hbegun.mem hid) hstage hactive input).bind
      rintro next ⟨s, hs, hnext⟩
      have hread : Handled setup stage server id next := ⟨s, hs, hbegun.trans hnext⟩
      exact hread.writeAndEnd hid hcurrent revents input.write
    · rw [ok_bind]
      exact (hbegun.handled hstage).writeAndEnd hid hcurrent revents input.write

/-- Between two callbacks of the loop. -/
def Settled (setup : ServerSetup) (server : ServerLoop) : Prop :=
  server.currentActiveChannel = none ∧ ∃ stage, server.Inv setup stage

theorem Inv.not_handling (h : server.Inv setup stage)
    (hcurrent : server.currentActiveChannel = none) (id : Nat) :
    (server.conn id).eventHandling = false := by
  rw [Bool.eq_false_iff]
  intro hhandling
  rw [h.handling id hhandling] at hcurrent
  cases hcurrent

/-- The next of the channels that were reported. -/
theorem Inv.handleEvent (h : server.Inv setup stage) (hcurrent : server.currentActiveChannel = none)
    {revents : BitVec 32} {active : List (Nat × BitVec 32)}
    (hphase : server.phase = .dispatch ((id, revents) :: active)) (input : EventInput) :
    Holds ({ server with phase := .dispatch active }.handleEvent setup id revents input)
      (Settled setup) fun _ => False := by
  have hremaining : server.remaining = (id, revents) :: active := by rw [remaining, hphase]
  have hactive := h.active
  have honce := h.once
  rw [hremaining, List.map_cons, List.nodup_cons] at honce
  rw [hremaining, List.forall_mem_cons] at hactive
  obtain ⟨⟨haccepted, hstage, hproper⟩, hrest⟩ := hactive
  have hid : id ∈ server.alive := by
    rw [(h.life id haccepted).alive, hstage]
    decide
  have hcurrentInv : Inv setup { server with
      phase := .dispatch active
      currentActiveChannel := some id } stage := by
    refine h.proceed rfl rfl rfl rfl rfl rfl rfl (fun _ hf => hf) ?_ ?_ hrest honce.2
    · rintro _ ⟨⟩
      exact hid
    · intro other hhandling
      rw [h.not_handling hcurrent other] at hhandling
      cases hhandling
  unfold ServerLoop.handleEvent
  rw [check_of_true hid, ok_bind]
  apply (hcurrentInv.handleEventWithGuard hid hstage honce.1 rfl hproper input).bind
  rintro next ⟨⟨s, -, hnext⟩, hended⟩
  refine ⟨rfl, Function.update stage id s, ?_⟩
  refine hnext.inv.proceed rfl rfl rfl rfl rfl rfl rfl (fun _ hf => hf) (by simp) ?_
    hnext.inv.active hnext.inv.once
  · intro other hhandling
    have hother := hnext.inv.handling other hhandling
    rw [hnext.current] at hother
    cases hother
    rw [hended] at hhandling
    cases hhandling

/-! ### Functors -/

theorem Inv.forceCloseInLoop (h : server.Inv setup stage) (hid : id ∈ server.alive)
    (hactive : id ∉ server.remaining.map Prod.fst) (downCalls : List ServerCall) :
    Holds (server.forceCloseInLoop setup id downCalls)
      (fun next => ∃ stage', Goes setup stage' server next) fun _ => False := by
  unfold ServerLoop.forceCloseInLoop
  split
  · rename_i hstate
    apply (h.handleClose hid (h.established hid hstate) hactive downCalls).imp
    exact fun next hnext => ⟨_, hnext⟩
  · exact ⟨stage, Goes.refl h⟩

/-- The functor that is taken from the batch. -/
def takeFunctor (server : ServerLoop) (f : ServerFunctor) (functors : List ServerFunctor) :
    ServerLoop :=
  { server with
    queue := { server.queue with functors := functors }
    called := server.called ++ [f] }

theorem Moves.takeFunctor (h : server.poller.InStep) {f : ServerFunctor}
    {functors : List ServerFunctor} (hqueue : server.queue.functors = f :: functors) :
    Moves setup server f.conn (server.takeFunctor f functors) :=
  { refl h f.conn with
    queued := by
      intro other hother
      have hf : (f == .connectDestroyed other) = false := by
        rw [beq_eq_false_iff_ne]
        rintro rfl
        exact hother rfl
      simp [ServerLoop.takeFunctor, EventLoop.inOrder, hqueue, List.count_cons, hf]
    functors := by
      intro g hg
      simp only [ServerLoop.takeFunctor, EventLoop.inOrder, hqueue, List.mem_append,
        List.mem_cons] at hg ⊢
      tauto }

theorem Inv.takeFunctor (h : server.Inv setup stage) {f : ServerFunctor}
    {functors : List ServerFunctor} (hqueue : server.queue.functors = f :: functors)
    (hf : f ≠ .connectDestroyed f.conn) :
    Goes setup stage server (server.takeFunctor f functors) := by
  have hid : f.conn ∈ server.alive := by
    apply h.functors f
    simp [EventLoop.inOrder, hqueue]
  have hlife := h.at_of_mem hid
  apply h.stays (Moves.takeFunctor h.inStep hqueue) hid
  exact { hlife with
    queued := by
      rw [← hlife.queued]
      simp [ServerLoop.takeFunctor, EventLoop.inOrder, hqueue, hf] }

theorem removeChannel_eq (hphase : server.phase = .functors) (id : Nat) :
    server.removeChannel id =
      (server.note id (.removed true)).callPoller (server.poller.removeChannel id) := by
  unfold ServerLoop.removeChannel
  rw [hphase]
  rfl

theorem connectDestroyed_eq (hphase : server.phase = .functors)
    (hstate : (server.conn id).state ≠ .kConnected)
    (hnone : (server.channel id).events = kNoneEvent) (downCalls : List ServerCall) :
    server.connectDestroyed setup id downCalls =
      ((server.note id .connectDestroyed).note id (.removed true)).callPoller
        ((server.poller.setChannel id
          { server.poller.channel id with addedToLoop := false }).removeChannel id) := by
  have hempty : ((server.note id .connectDestroyed).channel id).isNoneEvent :=
    decide_eq_true hnone
  have hdown : ((server.note id .connectDestroyed).conn id).state ≠ .kConnected := hstate
  unfold ServerLoop.connectDestroyed
  dsimp only
  rw [if_neg hdown, ok_bind, check_of_true hempty, ok_bind]
  refine (removeChannel_eq ?_ id).trans ?_
  · exact hphase
  · rfl

/-- A connection that is about to be removed has been closed, and will not be removed again. -/
theorem Inv.closed_of_queued (h : server.Inv setup stage) (hid : id ∈ server.alive)
    {functors : List ServerFunctor}
    (hqueue : server.queue.functors = .connectDestroyed id :: functors) :
    stage id = .closed ∧
      (functors ++ server.queue.pendingFunctors).count (.connectDestroyed id) = 0 := by
  have hcount := (h.at_of_mem hid).queued
  simp only [EventLoop.inOrder, hqueue, List.cons_append, List.count_cons_self] at hcount
  have hstage : stage id = .closed := by
    by_contra hcontra
    rw [if_neg hcontra] at hcount
    omega
  rw [if_pos hstage] at hcount
  exact ⟨hstage, Nat.succ_inj.mp hcount⟩

/-- The functor that removes a connection finds it closed. -/
theorem Inv.connectDestroyed (h : server.Inv setup stage) (hphase : server.phase = .functors)
    {functors : List ServerFunctor}
    (hqueue : server.queue.functors = .connectDestroyed id :: functors)
    (downCalls : List ServerCall) :
    Holds ((server.takeFunctor (.connectDestroyed id) functors).connectDestroyed setup id downCalls)
      (fun next => ∃ stage', Goes setup stage' server next) fun _ => False := by
  have hid : id ∈ server.alive := by
    apply h.functors (.connectDestroyed id)
    simp [EventLoop.inOrder, hqueue]
  obtain ⟨hstage, hcount⟩ := h.closed_of_queued hid hqueue
  have hlife := h.at_of_mem hid
  rw [hstage] at hlife
  have hstate : (server.conn id).state = .kDisconnected := hlife.state
  have hevents : (server.channel id).events = kNoneEvent := hlife.channel.2
  have hindex : (server.channel id).index = .kDeleted := hlife.channel.1
  have hinactive : id ∉ server.remaining.map Prod.fst := by simp [remaining, hphase]
  have htaken : Moves setup server id (server.takeFunctor (.connectDestroyed id) functors) :=
    Moves.takeFunctor h.inStep hqueue
  have hnoted := htaken.trans (Moves.note htaken.inStep id .connectDestroyed)
  have hremoved := hnoted.trans (Moves.note hnoted.inStep id (.removed true))
  have hpoller := EPollPoller.removeChannel_holds h.inStep (h.ownFd hid) false hevents
    (by rw [← ServerLoop.channel, hindex]; decide)
  have htakenState :
      ((server.takeFunctor (.connectDestroyed id) functors).conn id).state ≠ .kConnected := by
    change (server.conn id).state ≠ _
    rw [hstate]
    decide
  have htakenPhase :
      (server.takeFunctor (.connectDestroyed id) functors).phase = .functors := hphase
  rw [connectDestroyed_eq htakenPhase htakenState hevents]
  apply (callPoller_holds hpoller).imp
  rintro _ ⟨poller, rfl, hleaves⟩
  have hat : At setup { ((server.takeFunctor (.connectDestroyed id) functors).note id
      .connectDestroyed).note id (.removed true) with poller := poller } id .removed := {
    notes := by
      rw [ofThread_note_self, ofThread_note_self]
      change ofThread id server.notes ++ _ ++ _ = _
      rw [hlife.notes]
      rfl
    state := hlife.state
    tied := hlife.tied
    channel := by
      simp only [ServerLoop.channel, hleaves.channel, Function.update_self]
      exact ⟨rfl, hevents, rfl⟩
    held := hlife.held.trans (by simp)
    queued := hcount
    alive := hlife.alive.trans (by simp) }
  exact ⟨_, h.goes (hremoved.trans (Moves.poller hleaves rfl)) hid hat (.inr hinactive)⟩

theorem Goes.settled (h : Goes setup stage server next)
    (hcurrent : server.currentActiveChannel = none) : next.Settled setup :=
  ⟨h.current.trans hcurrent, stage, h.inv⟩

theorem Inv.runFunctor (h : server.Inv setup stage) (hcurrent : server.currentActiveChannel = none)
    (hphase : server.phase = .functors) {f : ServerFunctor} {functors : List ServerFunctor}
    (hqueue : server.queue.functors = f :: functors) (calls : List ServerCall) :
    Holds ((server.takeFunctor f functors).runFunctor setup calls f) (Settled setup)
      fun _ => False := by
  have hid : f.conn ∈ server.alive := by
    apply h.functors f
    simp [EventLoop.inOrder, hqueue]
  cases f with
  | forceCloseInLoop id =>
      have htaken := h.takeFunctor hqueue (by simp)
      have hinactive :
          id ∉ (server.takeFunctor (.forceCloseInLoop id) functors).remaining.map Prod.fst := by
        simp [remaining, htaken.phase, hphase]
      apply (htaken.inv.forceCloseInLoop (htaken.mem hid) hinactive calls).imp
      rintro next ⟨stage', hnext⟩
      exact (htaken.trans hnext).settled hcurrent
  | connectDestroyed id =>
      apply (h.connectDestroyed hphase hqueue calls).imp
      rintro next ⟨stage', hnext⟩
      exact hnext.settled hcurrent
  | callback id cb =>
      have htaken := h.takeFunctor hqueue (by simp)
      apply (htaken.inv.callAll calls).imp
      intro next hnext
      exact (htaken.trans hnext).settled hcurrent

end ServerLoop

end ToyBasket
