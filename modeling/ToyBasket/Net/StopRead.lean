import ToyBasket.Buffer
import ToyBasket.Lib.Machine
import ToyBasket.Net.Channel
import Mathlib.Logic.Function.Basic

/-!
# Stopping to read

Any number of connections on one loop. `poll` fixes the active channels and their `revents_`, and
with them the callbacks of the whole batch. `stopReadInLoop` changes what the next `poll` asks the
kernel for, but not what is left of the batch.
-/

namespace ToyBasket

open Machine

inductive ChannelCallback where
  | close
  | error
  | read
  | write
deriving DecidableEq, Repr

/-- The callbacks that `handleEventWithGuard` calls for a mask of received events. -/
def handleEventWithGuard (revents : BitVec 32) : List ChannelCallback :=
  (if revents &&& POLLHUP ≠ 0 ∧ revents &&& POLLIN = 0 then [.close] else [])
    ++ (if revents &&& (POLLERR ||| POLLNVAL) ≠ 0 then [.error] else [])
    ++ (if revents &&& (POLLIN ||| POLLPRI ||| POLLRDHUP) ≠ 0 then [.read] else [])
    ++ if revents &&& POLLOUT ≠ 0 then [.write] else []

/-- The events the kernel may report of a channel that waits for these. -/
def Reported (events revents : BitVec 32) : Prop :=
  revents &&& ~~~(events ||| POLLERR ||| POLLHUP) = 0

instance (events revents : BitVec 32) : Decidable (Reported events revents) :=
  inferInstanceAs (Decidable (_ = _))

/-- The part of a connection that has to do with reading. -/
structure ReadState where
  established : Bool
  events : BitVec 32
  reading : Bool
deriving DecidableEq, Repr

namespace ReadState

def init : ReadState where
  established := false
  events := kNoneEvent
  reading := true

def isReading (conn : ReadState) : Bool := conn.events &&& kReadEvent ≠ 0

def connectEstablished (conn : ReadState) : ReadState :=
  { conn with established := true, events := conn.events ||| kReadEvent }

def startReadInLoop (conn : ReadState) : ReadState :=
  if conn.reading = false ∨ conn.isReading = false then
    { conn with events := conn.events ||| kReadEvent, reading := true }
  else conn

def stopReadInLoop (conn : ReadState) : ReadState :=
  if conn.reading ∨ conn.isReading then
    { conn with events := conn.events &&& ~~~kReadEvent, reading := false }
  else conn

def enableWriting (conn : ReadState) : ReadState :=
  { conn with events := conn.events ||| kWriteEvent }

def disableWriting (conn : ReadState) : ReadState :=
  { conn with events := conn.events &&& ~~~kWriteEvent }

/-- What `handleClose` and `connectDestroyed` do. -/
def disableAll (conn : ReadState) : ReadState := { conn with events := kNoneEvent }

end ReadState

/-- `todo` is what is left of the batch, and `messages` records the calls of `messageCallback_`. -/
structure ReadLoop (C : Type) where
  conn : C → ReadState
  todo : List (C × ChannelCallback)
  messages : List C

namespace ReadLoop

variable {C : Type} [DecidableEq C]

/-- `callback` is the next callback of the batch, with what the read gives if it is one. What a user
does in a callback comes as an event after it, and so does what functors do. `expired` is the end of
a connection, after which `handleEvent` does nothing for it. -/
inductive Event (C : Type) where
  | connectEstablished (c : C)
  | startReadInLoop (c : C)
  | stopReadInLoop (c : C)
  | enableWriting (c : C)
  | disableWriting (c : C)
  | disableAll (c : C)
  | poll (active : List (C × BitVec 32))
  | callback (result : ReadResult)
  | expired (c : C)

def init : ReadLoop C where
  conn := fun _ => ReadState.init
  todo := []
  messages := []

def setConn (s : ReadLoop C) (c : C) (conn : ReadState) : ReadLoop C :=
  { s with conn := Function.update s.conn c conn }

def fillActiveChannels (active : List (C × BitVec 32)) : List (C × ChannelCallback) :=
  active.flatMap fun p => (handleEventWithGuard p.2).map fun callback => (p.1, callback)

def handleRead (s : ReadLoop C) (c : C) : ReadResult → ReadLoop C
  | .bytes => { s with messages := s.messages ++ [c] }
  | .eof => s.setConn c (s.conn c).disableAll
  | .failed => s

def callback (s : ReadLoop C) (result : ReadResult) : ReadLoop C :=
  match s.todo with
  | [] => s
  | (c, callback) :: todo =>
      let s := { s with todo := todo }
      match callback with
      | .read => s.handleRead c result
      | .close => s.setConn c (s.conn c).disableAll
      | .error => s
      | .write => s

/-- A connection is known to its users once it is established. -/
def update (s : ReadLoop C) (c : C) (change : ReadState → ReadState) : ReadLoop C :=
  if (s.conn c).established then s.setConn c (change (s.conn c)) else s

def step (s : ReadLoop C) : Event C → Except Fault (ReadLoop C)
  | .connectEstablished c =>
      .ok (if (s.conn c).established then s else s.setConn c (s.conn c).connectEstablished)
  | .startReadInLoop c => .ok (s.update c ReadState.startReadInLoop)
  | .stopReadInLoop c => .ok (s.update c ReadState.stopReadInLoop)
  | .enableWriting c => .ok (s.update c ReadState.enableWriting)
  | .disableWriting c => .ok (s.update c ReadState.disableWriting)
  | .disableAll c => .ok (s.update c ReadState.disableAll)
  | .poll active =>
      .ok (if s.todo = [] ∧ ∀ p ∈ active, Reported (s.conn p.1).events p.2 then
        { s with todo := fillActiveChannels active } else s)
  | .callback result => .ok (s.callback result)
  | .expired c => .ok { s with todo := s.todo.filter fun p => p.1 ≠ c }

/-! ### Masks -/

section Mask

variable {revents events mask : BitVec 32}

/-- Of the events a channel does not wait for, only errors and hang-ups are reported. -/
theorem and_eq_zero_of_reported (h : Reported events revents) (hevents : events &&& mask = 0)
    (herror : POLLERR &&& mask = 0) (hhup : POLLHUP &&& mask = 0) : revents &&& mask = 0 := by
  unfold Reported at h
  grind

theorem or_and_eq_zero (hevents : events &&& mask = 0) (hrevents : revents &&& mask = 0) :
    (events ||| revents) &&& mask = 0 := by
  rw [BitVec.and_or_distrib_right, hevents, hrevents]
  rfl

theorem and_not_and_eq_zero (hevents : events &&& mask = 0) (revents : BitVec 32) :
    events &&& ~~~revents &&& mask = 0 := by
  grind

theorem read_mem_handleEventWithGuard :
    .read ∈ handleEventWithGuard revents ↔ revents &&& (POLLIN ||| POLLPRI ||| POLLRDHUP) ≠ 0 := by
  unfold handleEventWithGuard
  simp

end Mask

omit [DecidableEq C] in
/-- No channel waits for the hang-up of the other side alone. -/
def Masked (s : ReadLoop C) : Prop := ∀ c, (s.conn c).events &&& POLLRDHUP = 0

/-- The connection waits for no read, in the kernel or in the batch, and has had `n` messages. -/
structure Quiet (c : C) (n : Nat) (s : ReadLoop C) : Prop where
  masked : s.Masked
  established : (s.conn c).established
  events : (s.conn c).events &&& kReadEvent = 0
  todo : (c, .read) ∉ s.todo
  messages : s.messages.count c = n

section Step

variable {s s' : ReadLoop C} {c other : C} {conn : ReadState} {change : ReadState → ReadState}
  {n : Nat}

theorem masked_setConn (h : s.Masked) (hmask : conn.events &&& POLLRDHUP = 0) :
    (s.setConn c conn).Masked := by
  intro other
  by_cases hother : other = c
  · subst hother
    simpa [setConn] using hmask
  · simpa [setConn, hother] using h other

theorem masked_update (h : s.Masked)
    (hmask : (change (s.conn c)).events &&& POLLRDHUP = 0) : (s.update c change).Masked := by
  unfold update
  split
  · exact masked_setConn h hmask
  · exact h

/-- No event at all, whatever the mask. -/
theorem disableAll_and_eq_zero (mask : BitVec 32) : conn.disableAll.events &&& mask = 0 :=
  BitVec.zero_and

theorem masked_startReadInLoop (hmask : conn.events &&& POLLRDHUP = 0) :
    conn.startReadInLoop.events &&& POLLRDHUP = 0 := by
  unfold ReadState.startReadInLoop
  split
  · exact or_and_eq_zero hmask (by decide)
  · exact hmask

theorem masked_stopReadInLoop (hmask : conn.events &&& POLLRDHUP = 0) :
    conn.stopReadInLoop.events &&& POLLRDHUP = 0 := by
  unfold ReadState.stopReadInLoop
  split
  · exact and_not_and_eq_zero hmask _
  · exact hmask

theorem masked_callback (h : s.Masked) (result : ReadResult) : (s.callback result).Masked := by
  unfold callback
  split
  · exact h
  · rename_i c callback todo htodo
    cases callback with
    | read =>
        cases result with
        | bytes => exact h
        | eof => exact masked_setConn h (disableAll_and_eq_zero _)
        | failed => exact h
    | close => exact masked_setConn h (disableAll_and_eq_zero _)
    | error => exact h
    | write => exact h

theorem masked_step {event : Event C} (h : s.Masked) (hnext : step s event = .ok s') :
    s'.Masked := by
  cases event with
  | connectEstablished c =>
      cases hnext
      split
      · exact h
      · exact masked_setConn h (or_and_eq_zero (h c) (by decide))
  | startReadInLoop c =>
      cases hnext
      exact masked_update h (masked_startReadInLoop (h c))
  | stopReadInLoop c =>
      cases hnext
      exact masked_update h (masked_stopReadInLoop (h c))
  | enableWriting c =>
      cases hnext
      exact masked_update h (or_and_eq_zero (h c) (by decide))
  | disableWriting c =>
      cases hnext
      exact masked_update h (and_not_and_eq_zero (h c) _)
  | disableAll c =>
      cases hnext
      exact masked_update h (disableAll_and_eq_zero _)
  | poll active =>
      cases hnext
      split
      · exact h
      · exact h
  | callback result =>
      cases hnext
      exact masked_callback h result
  | expired c =>
      cases hnext
      exact h

omit [DecidableEq C] in
theorem masked_init : (init : ReadLoop C).Masked := by
  intro c
  change kNoneEvent &&& POLLRDHUP = 0
  decide

/-! ### After a stop -/

theorem established_startReadInLoop : conn.startReadInLoop.established = conn.established := by
  unfold ReadState.startReadInLoop
  split
  · rfl
  · rfl

theorem established_stopReadInLoop : conn.stopReadInLoop.established = conn.established := by
  unfold ReadState.stopReadInLoop
  split
  · rfl
  · rfl

theorem events_stopReadInLoop : conn.stopReadInLoop.events &&& kReadEvent = 0 := by
  unfold ReadState.stopReadInLoop
  split
  · simp only
    grind
  · rename_i hnot
    have hreading : conn.isReading = false := by simpa using (not_or.mp hnot).2
    simpa [ReadState.isReading] using hreading

/-- A connection changes, and the one that waits for no read still waits for none. -/
theorem Quiet.setConn (h : s.Quiet c n) (hmask : conn.events &&& POLLRDHUP = 0)
    (hsame : other = c → conn.established ∧ conn.events &&& kReadEvent = 0) :
    (s.setConn other conn).Quiet c n := by
  have hconn : ((s.setConn other conn).conn c).established ∧
      ((s.setConn other conn).conn c).events &&& kReadEvent = 0 := by
    by_cases hother : other = c
    · subst hother
      simpa [ReadLoop.setConn] using hsame rfl
    · have hne : c ≠ other := Ne.symm hother
      simpa [ReadLoop.setConn, hne] using ⟨h.established, h.events⟩
  exact ⟨masked_setConn h.masked hmask, hconn.1, hconn.2, h.todo, h.messages⟩

theorem Quiet.update (h : s.Quiet c n)
    (hmask : (change (s.conn other)).events &&& POLLRDHUP = 0)
    (hknown : (change (s.conn other)).established = (s.conn other).established)
    (hsame : other = c → (change (s.conn other)).events &&& kReadEvent = 0) :
    (s.update other change).Quiet c n := by
  unfold ReadLoop.update
  split
  · refine h.setConn hmask fun hother => ⟨?_, hsame hother⟩
    rw [hknown, hother]
    exact h.established
  · exact h

theorem Quiet.rest (h : s.Quiet c n) {todo : List (C × ChannelCallback)} (htodo : todo ⊆ s.todo) :
    Quiet c n { s with todo := todo } :=
  ⟨h.masked, h.established, h.events, fun hmem => h.todo (htodo hmem), h.messages⟩

theorem Quiet.callback (h : s.Quiet c n) (result : ReadResult) :
    (s.callback result).Quiet c n := by
  unfold ReadLoop.callback
  split
  · exact h
  · rename_i other callback todo htodo
    have hrest : Quiet c n { s with todo := todo } := h.rest (by simp [htodo])
    have hclosed : (ReadLoop.setConn { s with todo := todo } other
        (s.conn other).disableAll).Quiet c n := by
      refine hrest.setConn (disableAll_and_eq_zero _) ?_
      rintro rfl
      exact ⟨h.established, disableAll_and_eq_zero _⟩
    cases callback with
    | read =>
        have hother : other ≠ c := by
          rintro rfl
          apply h.todo
          rw [htodo]
          exact List.mem_cons_self
        cases result with
        | bytes =>
            refine ⟨h.masked, h.established, h.events, hrest.todo, ?_⟩
            simp [handleRead, h.messages, hother]
        | eof => exact hclosed
        | failed => exact hrest
    | close => exact hclosed
    | error => exact hrest
    | write => exact hrest

theorem Quiet.poll (h : s.Quiet c n) {active : List (C × BitVec 32)}
    (hactive : ∀ p ∈ active, Reported (s.conn p.1).events p.2) :
    Quiet c n { s with todo := fillActiveChannels active } := by
  refine ⟨h.masked, h.established, h.events, ?_, h.messages⟩
  intro hmem
  obtain ⟨p, hp, hcallback⟩ := List.mem_flatMap.mp hmem
  obtain ⟨callback, hmem, hpair⟩ := List.mem_map.mp hcallback
  cases hpair
  have hread := read_mem_handleEventWithGuard.mp hmem
  have hevents : (s.conn p.1).events &&& (POLLIN ||| POLLPRI ||| POLLRDHUP) = 0 := by
    have hnone : (s.conn p.1).events &&& (POLLIN ||| POLLPRI) = 0 := h.events
    rw [BitVec.and_or_distrib_left, h.masked, hnone]
    rfl
  exact hread (and_eq_zero_of_reported (hactive p hp) hevents (by decide) (by decide))

theorem quiet_step {event : Event C} (hevent : event ≠ .startReadInLoop c) (h : s.Quiet c n)
    (hnext : step s event = .ok s') : s'.Quiet c n := by
  cases event with
  | connectEstablished other =>
      cases hnext
      split
      · exact h
      · rename_i hnew
        refine h.setConn (or_and_eq_zero (h.masked other) (by decide)) ?_
        rintro rfl
        exact absurd h.established hnew
  | startReadInLoop other =>
      cases hnext
      have hother : other ≠ c := by
        rintro rfl
        exact hevent rfl
      exact h.update (masked_startReadInLoop (h.masked other)) established_startReadInLoop
        fun hsame => absurd hsame hother
  | stopReadInLoop other =>
      cases hnext
      exact h.update (masked_stopReadInLoop (h.masked other)) established_stopReadInLoop
        fun _ => events_stopReadInLoop
  | enableWriting other =>
      cases hnext
      refine h.update (or_and_eq_zero (h.masked other) (by decide)) rfl ?_
      rintro rfl
      exact or_and_eq_zero h.events (by decide)
  | disableWriting other =>
      cases hnext
      refine h.update (and_not_and_eq_zero (h.masked other) _) rfl ?_
      rintro rfl
      exact and_not_and_eq_zero h.events _
  | disableAll other =>
      cases hnext
      exact h.update (disableAll_and_eq_zero _) rfl fun _ => disableAll_and_eq_zero _
  | poll active =>
      cases hnext
      split
      · rename_i hpoll
        exact h.poll hpoll.2
      · exact h
  | callback result =>
      cases hnext
      exact h.callback result
  | expired other =>
      cases hnext
      exact h.rest List.filter_sublist.subset

theorem quiet_of_stop (h : s.Masked) (hestablished : (s.conn c).established)
    (hwaiting : (c, .read) ∉ s.todo) :
    (s.update c ReadState.stopReadInLoop).Quiet c (s.messages.count c) := by
  have hconn : (s.update c ReadState.stopReadInLoop).conn c = (s.conn c).stopReadInLoop := by
    simp [update, hestablished, setConn]
  have hsame : (s.update c ReadState.stopReadInLoop).todo = s.todo ∧
      (s.update c ReadState.stopReadInLoop).messages = s.messages := by
    rw [update, if_pos hestablished]
    exact ⟨rfl, rfl⟩
  refine ⟨masked_update h (masked_stopReadInLoop (h c)), ?_, ?_, ?_, ?_⟩
  · rw [hconn, established_stopReadInLoop, hestablished]
  · rw [hconn]
    exact events_stopReadInLoop
  · rwa [hsame.1]
  · rw [hsame.2]

theorem run_quiet {more : List (Event C)} {t : ReadLoop C} (h : s.Quiet c n)
    (hmore : ∀ event ∈ more, event ≠ .startReadInLoop c) (hrun : run step s more = .ok t) :
    t.Quiet c n := by
  have hstep : ∀ (s : ReadLoop C) event s', event ≠ .startReadInLoop c → s.Quiet c n →
      step s event = .ok s' → s'.Quiet c n := fun _ _ _ => quiet_step
  exact invariant_of_allowed hstep hrun hmore h

/-- A read that is left in the batch is dispatched when the loop comes to it. -/
theorem exists_message (hwaiting : (c, .read) ∈ s.todo) :
    ∃ more t, (∀ event ∈ more, event ≠ .startReadInLoop c) ∧ run step s more = .ok t ∧
      t.messages.count c = s.messages.count c + 1 := by
  induction htodo : s.todo generalizing s with
  | nil =>
      rw [htodo] at hwaiting
      cases hwaiting
  | cons p todo ih =>
      rw [htodo] at hwaiting
      by_cases hp : p = (c, .read)
      · subst hp
        refine ⟨[.callback .bytes], s.callback .bytes, by simp, rfl, ?_⟩
        simp [callback, htodo, handleRead]
      · have hrest : (s.callback .failed).todo = todo ∧
            (s.callback .failed).messages = s.messages := by
          obtain ⟨other, callback⟩ := p
          simp only [ReadLoop.callback, htodo]
          cases callback with
          | _ => exact ⟨rfl, rfl⟩
        have hmem : (c, .read) ∈ (s.callback .failed).todo := by
          rw [hrest.1]
          exact (List.mem_cons.mp hwaiting).resolve_left (Ne.symm hp)
        obtain ⟨more, t, hmore, hrun, hcount⟩ := ih hmem hrest.1
        refine ⟨.callback .failed :: more, t, ?_, run_cons_eq_ok.mpr ⟨_, rfl, hrun⟩, ?_⟩
        · exact List.forall_mem_cons.mpr ⟨by simp, hmore⟩
        · rw [hcount, hrest.2]

end Step

/-- A connection that was stopped gets no message before it is started again, if and only if no read
of it was left in the batch when it was stopped. -/
theorem stopRead_effective_iff {events : List (Event C)} {s : ReadLoop C} {c : C}
    (hrun : run step init events = .ok s) (hestablished : (s.conn c).established) :
    (∀ more t, (∀ event ∈ more, event ≠ .startReadInLoop c) →
      run step s (.stopReadInLoop c :: more) = .ok t →
        t.messages.count c = s.messages.count c) ↔ (c, .read) ∉ s.todo := by
  have hmasked : s.Masked := by
    have hstep : ∀ (s : ReadLoop C) event s', s.Masked → step s event = .ok s' → s'.Masked :=
      fun _ _ _ => masked_step
    exact invariant hstep hrun masked_init
  constructor
  · intro h hwaiting
    have hstopped : (c, .read) ∈ (s.update c ReadState.stopReadInLoop).todo := by
      rw [update, if_pos hestablished]
      exact hwaiting
    obtain ⟨more, t, hmore, hrest, hcount⟩ := exists_message hstopped
    have hsame := h more t hmore (run_cons_eq_ok.mpr ⟨_, rfl, hrest⟩)
    rw [update, if_pos hestablished] at hcount
    change t.messages.count c = s.messages.count c + 1 at hcount
    omega
  · intro hwaiting more t hmore hall
    obtain ⟨s', hstop, hrest⟩ := run_cons_eq_ok.mp hall
    cases hstop
    exact (run_quiet (quiet_of_stop hmasked hestablished hwaiting) hmore hrest).messages

/-! ### Two connections in a batch -/

/-- Both have data, and the first has had its read when it is stopped. -/
theorem stopRead_effective_iff_midBatch :
    ∃ s : ReadLoop Bool,
      run step init
        [.connectEstablished true, .connectEstablished false,
          .poll [(true, POLLIN), (false, POLLIN)], .callback .bytes] = .ok s ∧
      (false, .read) ∈ s.todo ∧
      ∀ more t, (∀ event ∈ more, event ≠ .startReadInLoop true) →
        run step s (.stopReadInLoop true :: more) = .ok t →
          t.messages.count true = s.messages.count true := by
  have hrun : run step (init : ReadLoop Bool)
      [.connectEstablished true, .connectEstablished false,
        .poll [(true, POLLIN), (false, POLLIN)], .callback .bytes] = .ok _ := rfl
  exact ⟨_, hrun, by decide, (stopRead_effective_iff hrun rfl).mpr (by decide)⟩

/-- Both have data. The message of the first stops the second, which gets its message all the
same. -/
theorem stoppedByOther_getsMessage :
    ∃ s t : ReadLoop Bool,
      run step init
        [.connectEstablished false, .connectEstablished true,
          .poll [(false, POLLIN), (true, POLLIN)], .callback .bytes] = .ok s ∧
      run step s [.stopReadInLoop true, .callback .bytes] = .ok t ∧
      t.messages.count true = s.messages.count true + 1 :=
  ⟨_, _, rfl, rfl, by decide⟩

end ReadLoop

end ToyBasket
