import ToyBasket.Net.ServerLoop

/-!
# The stages of a connection of a server

A connection comes up, closes, is erased from the map of the server, and is removed from the poller
by a functor that the loop runs later. Each connection is at some stage of this, and what is done
with one of them leaves the others at theirs.
-/

namespace ToyBasket

open Outcome (Holds check_of_true ok_bind)

/-- All that becomes of a connection, in order. -/
def lifecycle : List Milestone :=
  [.up, .handleClose, .down, .closeCallback, .erased, .connectDestroyed, .removed true, .destructed]

inductive Stage where
  | established
  | closing
  | closed
  | removed
  | destructed
deriving DecidableEq, Repr

namespace Stage

def milestones : Stage → List Milestone
  | established => [.up]
  | closing => [.up, .handleClose, .down]
  | closed => [.up, .handleClose, .down, .closeCallback, .erased]
  | removed =>
      [.up, .handleClose, .down, .closeCallback, .erased, .connectDestroyed, .removed true]
  | destructed => lifecycle

def HasState : Stage → ConnectionState → Prop
  | established, state => state = .kConnected ∨ state = .kDisconnecting
  | closing, state | closed, state | removed, state | destructed, state => state = .kDisconnected

def HasChannel : Stage → Channel → Prop
  | established, channel => channel.index = .kAdded ∧ channel.events &&& kReadEvent ≠ 0
  | closing, channel | closed, channel =>
      channel.index = .kDeleted ∧ channel.events = kNoneEvent
  | removed, channel | destructed, channel =>
      channel.index = .kNew ∧ channel.events = kNoneEvent ∧ channel.addedToLoop = false

theorem milestones_initial (stage : Stage) : stage.milestones <+: lifecycle := by
  cases stage <;> decide

theorem milestones_ne_nil (stage : Stage) : stage.milestones ≠ [] := by
  cases stage <;> decide

end Stage

namespace ServerLoop

/-- The channels still to be handled. -/
def remaining (server : ServerLoop) : List (Nat × BitVec 32) :=
  match server.phase with
  | .dispatch active => active
  | .poll | .functors => []

/-- A mask that `epoll` reports. -/
def Proper (revents : BitVec 32) : Prop :=
  revents &&& POLLHUP ≠ 0 → revents &&& (POLLPRI ||| POLLRDHUP) ≠ 0 → revents &&& POLLIN ≠ 0

/-- A connection is at this stage. -/
structure At (setup : ServerSetup) (server : ServerLoop) (id : Nat) (stage : Stage) : Prop where
  notes : ofThread id server.notes = stage.milestones
  state : stage.HasState (server.conn id).state
  tied : (server.conn id).tied = true
  channel : stage.HasChannel (server.channel id)
  held : server.connections (setup.names id) = some id ↔ stage = .established ∨ stage = .closing
  queued : server.queue.inOrder.count (.connectDestroyed id) = if stage = .closed then 1 else 0
  alive : id ∈ server.alive ↔ stage ≠ .destructed

/-- Each connection is at its stage. -/
structure Inv (setup : ServerSetup) (server : ServerLoop) (stage : Nat → Stage) : Prop where
  life : ∀ id < server.accepted, server.At setup id (stage id)
  unborn : ∀ id, server.accepted ≤ id →
    ofThread id server.notes = [] ∧ (server.channel id).index = .kNew ∧ id ∉ server.alive
  inStep : server.poller.InStep
  nodup : server.alive.Nodup
  fds : ∀ id ∈ server.alive, ∀ other ∈ server.alive,
    (server.channel id).fd = (server.channel other).fd → id = other
  map : ∀ name id, server.connections name = some id → id < server.accepted ∧ setup.names id = name
  functors : ∀ f ∈ server.queue.inOrder ++ server.called, f.conn ∈ server.alive
  current : ∀ id, server.currentActiveChannel = some id → id ∈ server.alive
  handling : ∀ id, (server.conn id).eventHandling → server.currentActiveChannel = some id
  active : ∀ p ∈ server.remaining, p.1 < server.accepted ∧ stage p.1 = .established ∧ Proper p.2
  once : (server.remaining.map Prod.fst).Nodup

/-- What concerns one connection alone. -/
structure Moves (setup : ServerSetup) (server : ServerLoop) (id : Nat) (next : ServerLoop) :
    Prop where
  accepted : next.accepted = server.accepted
  notes : ∀ other ≠ id, ofThread other next.notes = ofThread other server.notes
  conn : ∀ other ≠ id, next.conn other = server.conn other
  handling : (next.conn id).eventHandling = (server.conn id).eventHandling
  channel : ∀ other ≠ id, next.channel other = server.channel other
  fd : (next.channel id).fd = (server.channel id).fd
  inStep : next.poller.InStep
  held : ∀ other ≠ id, (next.connections (setup.names other) = some other ↔
    server.connections (setup.names other) = some other)
  map : ∀ name other, next.connections name = some other → server.connections name = some other
  queued : ∀ other ≠ id, next.queue.inOrder.count (.connectDestroyed other) =
    server.queue.inOrder.count (.connectDestroyed other)
  functors : ∀ f ∈ next.queue.inOrder ++ next.called,
    f ∈ server.queue.inOrder ++ server.called ∨ f.conn = id
  alive : next.alive = server.alive
  phase : next.phase = server.phase
  current : next.currentActiveChannel = server.currentActiveChannel

variable {setup : ServerSetup} {server next last : ServerLoop} {id : Nat} {stage : Nat → Stage}
  {s : Stage}

theorem inv_init (stage : Nat → Stage) : init.Inv setup stage where
  life := nofun
  unborn := fun _ _ => ⟨rfl, rfl, List.not_mem_nil⟩
  inStep := EPollPoller.inStep_init _
  nodup := List.nodup_nil
  fds := nofun
  map := nofun
  functors := nofun
  current := nofun
  handling := nofun
  active := nofun
  once := List.nodup_nil

theorem Inv.lt_accepted (h : server.Inv setup stage) (hid : id ∈ server.alive) :
    id < server.accepted := by
  rw [← Nat.not_le]
  exact fun hle => (h.unborn id hle).2.2 hid

theorem Inv.at_of_mem (h : server.Inv setup stage) (hid : id ∈ server.alive) :
    server.At setup id (stage id) :=
  h.life id (h.lt_accepted hid)

/-! ### Moves -/

namespace Moves

theorem refl (h : server.poller.InStep) (id : Nat) : Moves setup server id server where
  accepted := rfl
  notes := fun _ _ => rfl
  conn := fun _ _ => rfl
  handling := rfl
  channel := fun _ _ => rfl
  fd := rfl
  inStep := h
  held := fun _ _ => Iff.rfl
  map := fun _ _ h => h
  queued := fun _ _ => rfl
  functors := fun _ => .inl
  alive := rfl
  phase := rfl
  current := rfl

theorem trans (h : Moves setup server id next) (hlast : Moves setup next id last) :
    Moves setup server id last where
  accepted := hlast.accepted.trans h.accepted
  notes := fun other hother => (hlast.notes other hother).trans (h.notes other hother)
  conn := fun other hother => (hlast.conn other hother).trans (h.conn other hother)
  handling := hlast.handling.trans h.handling
  channel := fun other hother => (hlast.channel other hother).trans (h.channel other hother)
  fd := hlast.fd.trans h.fd
  inStep := hlast.inStep
  held := fun other hother => (hlast.held other hother).trans (h.held other hother)
  map := fun name other hmap => h.map name other (hlast.map name other hmap)
  queued := fun other hother => (hlast.queued other hother).trans (h.queued other hother)
  functors := by
    intro f hf
    obtain hf | hf := hlast.functors f hf
    · exact h.functors f hf
    · exact .inr hf
  alive := hlast.alive.trans h.alive
  phase := hlast.phase.trans h.phase
  current := hlast.current.trans h.current

theorem fd_eq (h : Moves setup server id next) (other : Nat) :
    (next.channel other).fd = (server.channel other).fd := by
  by_cases hsame : other = id
  · rw [hsame, h.fd]
  · rw [h.channel other hsame]

theorem note (h : server.poller.InStep) (id : Nat) (milestone : Milestone) :
    Moves setup server id (server.note id milestone) :=
  { refl h id with
    notes := by
      intro other hother
      rw [ServerLoop.note, ofThread_append, ofThread_singleton_of_ne hother, List.append_nil] }

theorem setConn (h : server.poller.InStep) {id : Nat} {conn : LoopConnection}
    (hhandling : conn.eventHandling = (server.conn id).eventHandling) :
    Moves setup server id (server.setConn id conn) :=
  { refl h id with
    conn := fun other hother => Function.update_of_ne hother _ _
    handling := by simp [ServerLoop.setConn, hhandling] }

theorem queueInLoop (h : server.poller.InStep) {f : ServerFunctor} (hconn : f.conn = id) :
    Moves setup server id (server.queueInLoop f) :=
  { refl h id with
    queued := by
      intro other hother
      have hcount : [f].count (.connectDestroyed other) = 0 := by
        rw [List.count_eq_zero, List.mem_singleton]
        rintro rfl
        exact hother hconn
      simp only [ServerLoop.queueInLoop, EventLoop.inOrder_queueInLoop, List.count_append, hcount]
      rfl
    functors := by
      intro g hg
      simp only [ServerLoop.queueInLoop, EventLoop.inOrder_queueInLoop, List.mem_append,
        List.mem_singleton] at hg ⊢
      rcases hg with (hg | rfl) | hg
      · exact .inl (.inl hg)
      · exact .inr hconn
      · exact .inl (.inr hg) }

theorem poller {poller : EPollPoller Nat} {channel : Channel}
    (h : server.poller.Leaves id channel poller) (hfd : channel.fd = (server.channel id).fd) :
    Moves setup server id { server with poller := poller } where
  accepted := rfl
  notes := fun _ _ => rfl
  conn := fun _ _ => rfl
  handling := rfl
  channel := by
    intro other hother
    simp only [ServerLoop.channel, h.channel, Function.update_of_ne hother]
  fd := by
    simp only [ServerLoop.channel, h.channel, Function.update_self]
    exact hfd
  inStep := h.inStep
  held := fun _ _ => Iff.rfl
  map := fun _ _ h => h
  queued := fun _ _ => rfl
  functors := fun _ => .inl
  alive := rfl
  phase := rfl
  current := rfl

theorem erase (h : server.poller.InStep) (hheld : server.connections (setup.names id) = some id) :
    Moves setup server id { server with
      connections := Function.update server.connections (setup.names id) none } :=
  { (refl h id : Moves setup server id server) with
    held := by
      intro other hother
      dsimp only
      by_cases hname : setup.names other = setup.names id
      · rw [hname, Function.update_self, hheld]
        simp [hother.symm]
      · rw [Function.update_of_ne hname]
    map := by
      intro name other hmap
      dsimp only at hmap
      by_cases hname : name = setup.names id
      · simp [hname] at hmap
      · rwa [Function.update_of_ne hname] at hmap }

end Moves

/-- What a connection is at a stage for. -/
theorem At.of_eq (h : server.At setup id s)
    (hnotes : ofThread id next.notes = ofThread id server.notes)
    (hconn : next.conn id = server.conn id) (hchannel : next.channel id = server.channel id)
    (hheld : next.connections (setup.names id) = some id ↔
      server.connections (setup.names id) = some id)
    (hqueued : next.queue.inOrder.count (.connectDestroyed id) =
      server.queue.inOrder.count (.connectDestroyed id))
    (halive : id ∈ next.alive ↔ id ∈ server.alive) : next.At setup id s where
  notes := hnotes.trans h.notes
  state := by
    rw [hconn]
    exact h.state
  tied := by rw [hconn, h.tied]
  channel := by
    rw [hchannel]
    exact h.channel
  held := hheld.trans h.held
  queued := hqueued.trans h.queued
  alive := halive.trans h.alive

/-- Where the connection ends up at a stage all the others stay where they are. -/
theorem Inv.move (h : server.Inv setup stage) (hmoves : Moves setup server id next)
    (hid : id ∈ server.alive) (hat : next.At setup id s)
    (hactive : s = .established ∨ id ∉ server.remaining.map Prod.fst) :
    next.Inv setup (Function.update stage id s) where
  life := by
    intro other hother
    by_cases hsame : other = id
    · subst hsame
      rw [Function.update_self]
      exact hat
    · rw [hmoves.accepted] at hother
      rw [Function.update_of_ne hsame]
      exact (h.life other hother).of_eq (hmoves.notes other hsame) (hmoves.conn other hsame)
        (hmoves.channel other hsame) (hmoves.held other hsame) (hmoves.queued other hsame)
        (by rw [hmoves.alive])
  unborn := by
    intro other hother
    rw [hmoves.accepted] at hother
    obtain ⟨hnotes, hindex, hdead⟩ := h.unborn other hother
    have hsame : other ≠ id := ((h.lt_accepted hid).trans_le hother).ne'
    rw [hmoves.notes other hsame, hmoves.channel other hsame, hmoves.alive]
    exact ⟨hnotes, hindex, hdead⟩
  inStep := hmoves.inStep
  nodup := by rw [hmoves.alive]; exact h.nodup
  fds := by
    intro other hother other' hother'
    rw [hmoves.alive] at hother hother'
    rw [hmoves.fd_eq, hmoves.fd_eq]
    exact h.fds other hother other' hother'
  map := by
    intro name other hmap
    rw [hmoves.accepted]
    exact h.map name other (hmoves.map name other hmap)
  functors := by
    intro f hf
    rw [hmoves.alive]
    obtain hf | hf := hmoves.functors f hf
    · exact h.functors f hf
    · rw [hf]
      exact hid
  current := by
    intro other hother
    rw [hmoves.current] at hother
    rw [hmoves.alive]
    exact h.current other hother
  handling := by
    intro other hother
    rw [hmoves.current]
    apply h.handling
    by_cases hsame : other = id
    · subst hsame
      rwa [hmoves.handling] at hother
    · rwa [hmoves.conn other hsame] at hother
  active := by
    intro p hp
    simp only [remaining, hmoves.phase] at hp
    obtain ⟨haccepted, hstage, hproper⟩ := h.active p hp
    rw [hmoves.accepted]
    refine ⟨haccepted, ?_, hproper⟩
    by_cases hsame : p.1 = id
    · rw [hsame, Function.update_self]
      refine hactive.resolve_right fun hnot => hnot ?_
      exact List.mem_map.mpr ⟨p, hp, hsame⟩
    · rw [Function.update_of_ne hsame, hstage]
  once := by
    simp only [remaining, hmoves.phase]
    exact h.once

theorem Stage.ne_destructed_of_known {channel : Channel} (h : s.HasChannel channel)
    (hindex : channel.index ≠ .kNew) : s ≠ .destructed := by
  rintro rfl
  exact hindex h.1

/-- No other channel that the poller knows has the descriptor of a connection that exists. -/
theorem Inv.ownFd (h : server.Inv setup stage) (hid : id ∈ server.alive) :
    server.poller.OwnFd id := by
  intro other hknown hfd
  have haccepted : other < server.accepted := by
    rw [← Nat.not_le]
    exact fun hle => hknown (h.unborn other hle).2.1
  have hlife := h.life other haccepted
  have halive := hlife.alive.mpr (Stage.ne_destructed_of_known hlife.channel hknown)
  exact h.fds other halive id hid hfd

/-- A step that leaves the connections at their stages, and the loop where it is. -/
structure Goes (setup : ServerSetup) (stage : Nat → Stage) (server next : ServerLoop) : Prop where
  inv : next.Inv setup stage
  alive : next.alive = server.alive
  phase : next.phase = server.phase
  current : next.currentActiveChannel = server.currentActiveChannel

theorem Goes.refl (h : server.Inv setup stage) : Goes setup stage server server :=
  ⟨h, rfl, rfl, rfl⟩

theorem Goes.trans {stage' : Nat → Stage} (h : Goes setup stage server next)
    (hlast : Goes setup stage' next last) : Goes setup stage' server last :=
  ⟨hlast.inv, hlast.alive.trans h.alive, hlast.phase.trans h.phase,
    hlast.current.trans h.current⟩

theorem Goes.mem (h : Goes setup stage server next) (hid : id ∈ server.alive) :
    id ∈ next.alive := by
  rwa [h.alive]

theorem Inv.goes (h : server.Inv setup stage) (hmoves : Moves setup server id next)
    (hid : id ∈ server.alive) (hat : next.At setup id s)
    (hactive : s = .established ∨ id ∉ server.remaining.map Prod.fst) :
    Goes setup (Function.update stage id s) server next :=
  ⟨h.move hmoves hid hat hactive, hmoves.alive, hmoves.phase, hmoves.current⟩

/-- The same where the connection stays at its stage. -/
theorem Inv.stays (h : server.Inv setup stage) (hmoves : Moves setup server id next)
    (hid : id ∈ server.alive) (hat : next.At setup id (stage id)) :
    Goes setup stage server next := by
  rw [← Function.update_eq_self id stage]
  apply h.goes hmoves hid hat
  by_cases hactive : id ∈ server.remaining.map Prod.fst
  · obtain ⟨p, hp, hsame⟩ := List.mem_map.mp hactive
    left
    rw [← hsame]
    exact (h.active p hp).2.1
  · exact .inr hactive

theorem Inv.setConn (h : server.Inv setup stage) (hid : id ∈ server.alive) {conn : LoopConnection}
    (hstate : (stage id).HasState conn.state) (htied : conn.tied = true)
    (hhandling : conn.eventHandling = (server.conn id).eventHandling) :
    Goes setup stage server (server.setConn id conn) := by
  apply h.stays (Moves.setConn h.inStep hhandling) hid
  exact { h.at_of_mem hid with
    state := by simpa [ServerLoop.setConn] using hstate
    tied := by simpa [ServerLoop.setConn] using htied }

theorem Inv.queueInLoop (h : server.Inv setup stage) {f : ServerFunctor}
    (hconn : f.conn ∈ server.alive) (hf : f ≠ .connectDestroyed f.conn) :
    Goes setup stage server (server.queueInLoop f) := by
  have hlife := h.at_of_mem hconn
  have hcount : [f].count (.connectDestroyed f.conn) = 0 := by
    rw [List.count_eq_zero, List.mem_singleton]
    exact Ne.symm hf
  apply h.stays (Moves.queueInLoop h.inStep rfl) hconn
  exact { hlife with
    queued := by
      simp only [ServerLoop.queueInLoop, EventLoop.inOrder_queueInLoop, List.count_append, hcount]
      exact hlife.queued }

theorem queueCallback_conn (server : ServerLoop) (id : Nat) (due : Bool) (cb : Callback) :
    (server.queueCallback id due cb).conn = server.conn := by
  unfold ServerLoop.queueCallback
  split <;> rfl

theorem Inv.queueCallback (h : server.Inv setup stage) (hid : id ∈ server.alive) (due : Bool)
    (cb : Callback) : Goes setup stage server (server.queueCallback id due cb) := by
  unfold ServerLoop.queueCallback
  split
  · exact h.queueInLoop hid nofun
  · exact Goes.refl h

theorem callPoller_holds {run : Except PollerFault (EPollPoller Nat)}
    {post : EPollPoller Nat → Prop} (h : Holds run post fun _ => False) :
    Holds (server.callPoller run)
      (fun next => ∃ poller, next = { server with poller := poller } ∧ post poller)
      fun _ => False := by
  obtain ⟨poller, hrun, hpoller⟩ := h.returns
  rw [hrun]
  exact ⟨poller, rfl, hpoller⟩

theorem Inv.setOutputBuffer (h : server.Inv setup stage) (hid : id ∈ server.alive) (due : Bool)
    (cb : Callback) (outputBuffer : Nat) :
    Goes setup stage server ((server.queueCallback id due cb).setConn id
      { server.conn id with outputBuffer := outputBuffer }) := by
  have hlife := h.at_of_mem hid
  have hqueued := h.queueCallback hid due cb
  refine hqueued.trans (hqueued.inv.setConn (hqueued.mem hid) hlife.state hlife.tied ?_)
  rw [queueCallback_conn]

/-- A connection that is up goes on reading. -/
theorem Inv.changeEvents (h : server.Inv setup stage) (hid : id ∈ server.alive)
    (hstage : stage id = .established) (change : BitVec 32 → BitVec 32)
    (hreading : ∀ events, events &&& kReadEvent ≠ 0 → change events &&& kReadEvent ≠ 0) :
    Holds (server.callPoller (server.poller.changeEvents id change)) (Goes setup stage server)
      fun _ => False := by
  have hlife := h.at_of_mem hid
  apply (callPoller_holds (EPollPoller.changeEvents_holds h.inStep (h.ownFd hid) change)).imp
  rintro _ ⟨poller, rfl, hleaves⟩
  apply h.stays (Moves.poller hleaves rfl) hid
  have hchannel := hlife.channel
  rw [hstage] at hchannel
  have hnext := hreading _ hchannel.2
  exact { hlife with
    channel := by
      rw [hstage]
      simp only [ServerLoop.channel, hleaves.channel, Function.update_self]
      refine ⟨if_neg ?_, hnext⟩
      rintro ⟨-, hnone⟩
      apply hnext
      rw [ServerLoop.channel, hnone]
      rfl }

theorem enableWriting_reading (events : BitVec 32) (h : events &&& kReadEvent ≠ 0) :
    (events ||| kWriteEvent) &&& kReadEvent ≠ 0 := by
  have hkept : (events ||| kWriteEvent) &&& kReadEvent = events &&& kReadEvent := by
    rw [BitVec.and_or_distrib_right]
    exact BitVec.or_zero
  rwa [hkept]

theorem disableWriting_reading (events : BitVec 32) (h : events &&& kReadEvent ≠ 0) :
    (events &&& ~~~kWriteEvent) &&& kReadEvent ≠ 0 := by
  rw [BitVec.and_assoc]
  exact h

theorem Inv.sendInLoop (h : server.Inv setup stage) (hid : id ∈ server.alive)
    (hstage : stage id = .established) (len : Nat) (result : WriteResult) :
    Holds (server.sendInLoop setup id len result) (Goes setup stage server) fun _ => False := by
  unfold ServerLoop.sendInLoop
  split
  · exact Goes.refl h
  generalize server.writeDirectly id len result = written
  obtain ⟨nwrote, faultError, complete⟩ := written
  dsimp only
  rw [check_of_true (Nat.sub_le _ _), ok_bind]
  have hqueued := h.queueCallback hid (complete && setup.writeCompleteCallback) .writeComplete
  split
  · generalize server.queueCallback id (complete && setup.writeCompleteCallback) .writeComplete
      = server₁ at hqueued ⊢
    split
    · exact hqueued.trans (hqueued.inv.setOutputBuffer (hqueued.mem hid) _ _ _)
    · have happended := hqueued.trans (hqueued.inv.setOutputBuffer (hqueued.mem hid)
        (setup.highWaterMark ≤ (server₁.conn id).outputBuffer + (len - nwrote) &&
          (server₁.conn id).outputBuffer < setup.highWaterMark && setup.highWaterMarkCallback)
        (.highWaterMark ((server₁.conn id).outputBuffer + (len - nwrote)))
        ((server₁.conn id).outputBuffer + (len - nwrote)))
      apply (happended.inv.changeEvents (happended.mem hid) hstage _ enableWriting_reading).imp
      exact fun next hnext => happended.trans hnext
  · exact hqueued

theorem Stage.eq_established {state : ConnectionState} (h : s.HasState state)
    (hstate : state = .kConnected ∨ state = .kDisconnecting) : s = .established := by
  cases s with
  | established => rfl
  | _ => obtain rfl | rfl := hstate <;> cases h

theorem Inv.established (h : server.Inv setup stage) (hid : id ∈ server.alive)
    (hstate : (server.conn id).state = .kConnected ∨ (server.conn id).state = .kDisconnecting) :
    stage id = .established :=
  Stage.eq_established (h.at_of_mem hid).state hstate

theorem Inv.setDisconnecting (h : server.Inv setup stage) (hid : id ∈ server.alive)
    (hstage : stage id = .established) :
    Goes setup stage server (server.setState id .kDisconnecting) := by
  refine h.setConn hid ?_ (h.at_of_mem hid).tied rfl
  rw [hstage]
  exact .inr rfl

theorem Inv.setKept (h : server.Inv setup stage) (hid : id ∈ server.alive) (kept : List Nat) :
    Goes setup stage server { server with kept := kept } := by
  have hlife := h.at_of_mem hid
  have hmoves : Moves setup server id { server with kept := kept } :=
    { Moves.refl h.inStep id with }
  exact h.stays hmoves hid { hlife with }

theorem Inv.call (h : server.Inv setup stage) (c : ServerCall) :
    Holds (server.call setup c) (Goes setup stage server) fun _ => False := by
  unfold ServerLoop.call
  split
  · rename_i hid
    cases c with
    | send id len result =>
        dsimp only
        split
        · rename_i hstate
          exact h.sendInLoop hid (h.established hid (.inl hstate)) len result
        · exact Goes.refl h
    | shutdown id =>
        dsimp only
        split
        · rename_i hstate
          exact h.setDisconnecting hid (h.established hid (.inl hstate))
        · exact Goes.refl h
    | forceClose id =>
        dsimp only
        split
        · rename_i hstate
          have hset := h.setDisconnecting hid (h.established hid hstate)
          exact hset.trans (hset.inv.queueInLoop (f := .forceCloseInLoop id) (hset.mem hid) nofun)
        · exact Goes.refl h
    | keep id => exact h.setKept hid _
    | release id => exact h.setKept hid _
  · exact Goes.refl h

theorem Inv.callAll (h : server.Inv setup stage) (calls : List ServerCall) :
    Holds (server.callAll setup calls) (Goes setup stage server) fun _ => False := by
  refine Machine.holds_run (fun next c (_ : True) hnext => ?_) (fun _ _ => trivial) (Goes.refl h)
  exact (hnext.inv.call c).imp fun _ hlast => hnext.trans hlast

end ServerLoop

end ToyBasket
