import Mathlib.Logic.Function.Basic
import ToyBasket.Lib.Machine
import ToyBasket.Net.Channel

/-!
# The poller

`EPollPoller.cpp`: the channels that the poller knows and the set of descriptors that the kernel
watches for it.
-/

namespace ToyBasket

open Outcome (check Holds check_of_true of_check bind_eq_ok ok_bind)

inductive EpollOp where
  | EPOLL_CTL_ADD
  | EPOLL_CTL_MOD
  | EPOLL_CTL_DEL
deriving DecidableEq, Repr

/-- What the kernel holds for a descriptor, `ptr` being the channel it reports. -/
structure EpollEvent (C : Type) where
  events : BitVec 32
  ptr : C
deriving DecidableEq, Repr

inductive PollerFault where
  | assertion
  | fatal (operation : EpollOp) (fd : Nat)
deriving DecidableEq, Repr

variable {C : Type} [DecidableEq C]

/-- `channel` is what the pointers of type `C` lead to, `epoll` the kernel's set, and `errors` the
calls of `epoll_ctl` of which only a line in the log tells that they failed. -/
structure EPollPoller (C : Type) where
  channel : C → Channel
  mChannels : Nat → Option C
  epoll : Nat → Option (EpollEvent C)
  errors : List (EpollOp × Nat)

/-- The set after the call, unless it fails. -/
def epollCtl (epoll : Nat → Option (EpollEvent C)) (operation : EpollOp) (fd : Nat)
    (event : EpollEvent C) : Option (Nat → Option (EpollEvent C)) :=
  match operation, epoll fd with
  | .EPOLL_CTL_ADD, none => some (Function.update epoll fd (some event))
  | .EPOLL_CTL_MOD, some _ => some (Function.update epoll fd (some event))
  | .EPOLL_CTL_DEL, some _ => some (Function.update epoll fd none)
  | _, _ => none

namespace EPollPoller

def init (fd : C → Nat) : EPollPoller C where
  channel := fun c => Channel.new (fd c)
  mChannels := fun _ => none
  epoll := fun _ => none
  errors := []

def setChannel (poller : EPollPoller C) (c : C) (channel : Channel) : EPollPoller C :=
  { poller with channel := Function.update poller.channel c channel }

def setIndex (poller : EPollPoller C) (c : C) (index : Index) : EPollPoller C :=
  poller.setChannel c { poller.channel c with index := index }

def update (poller : EPollPoller C) (operation : EpollOp) (c : C) :
    Except PollerFault (EPollPoller C) :=
  let event : EpollEvent C := { events := (poller.channel c).events, ptr := c }
  let fd := (poller.channel c).fd
  match epollCtl poller.epoll operation fd event with
  | some epoll => .ok { poller with epoll := epoll }
  | none =>
      if operation = .EPOLL_CTL_DEL then
        .ok { poller with errors := poller.errors ++ [(operation, fd)] }
      else
        .error (.fatal operation fd)

def updateChannel (poller : EPollPoller C) (c : C) : Except PollerFault (EPollPoller C) := do
  let index := (poller.channel c).index
  let fd := (poller.channel c).fd
  if index = .kNew then
    check .assertion (poller.mChannels fd = none)
    let known := { poller with mChannels := Function.update poller.mChannels fd (some c) }
    (known.setIndex c .kAdded).update .EPOLL_CTL_ADD c
  else if index = .kDeleted then
    check .assertion (poller.mChannels fd ≠ none)
    check .assertion (poller.mChannels fd = some c)
    (poller.setIndex c .kAdded).update .EPOLL_CTL_ADD c
  else
    check .assertion (poller.mChannels fd ≠ none)
    check .assertion (poller.mChannels fd = some c)
    check .assertion (index = .kAdded)
    if (poller.channel c).isNoneEvent then
      let deleted ← poller.update .EPOLL_CTL_DEL c
      return deleted.setIndex c .kDeleted
    else
      poller.update .EPOLL_CTL_MOD c

def removeChannel (poller : EPollPoller C) (c : C) : Except PollerFault (EPollPoller C) := do
  let fd := (poller.channel c).fd
  check .assertion (poller.mChannels fd ≠ none)
  check .assertion (poller.mChannels fd = some c)
  check .assertion (poller.channel c).isNoneEvent
  let index := (poller.channel c).index
  check .assertion (index = .kAdded ∨ index = .kDeleted)
  let n := if poller.mChannels fd = none then 0 else 1
  let erased := { poller with mChannels := Function.update poller.mChannels fd none }
  check .assertion (n = 1)
  let removed ← if index = .kAdded then erased.update .EPOLL_CTL_DEL c else .ok erased
  return removed.setIndex c .kNew

/-! ### The calls of `Channel.h` -/

/-- What the calls that change `events_` have in common, `Channel::update` included. -/
def changeEvents (poller : EPollPoller C) (c : C) (change : BitVec 32 → BitVec 32) :
    Except PollerFault (EPollPoller C) :=
  let channel := poller.channel c
  updateChannel
    (poller.setChannel c { channel with events := change channel.events, addedToLoop := true }) c

def enableReading (poller : EPollPoller C) (c : C) : Except PollerFault (EPollPoller C) :=
  poller.changeEvents c fun events => events ||| kReadEvent

def disableReading (poller : EPollPoller C) (c : C) : Except PollerFault (EPollPoller C) :=
  poller.changeEvents c fun events => events &&& ~~~kReadEvent

def enableWriting (poller : EPollPoller C) (c : C) : Except PollerFault (EPollPoller C) :=
  poller.changeEvents c fun events => events ||| kWriteEvent

def disableWriting (poller : EPollPoller C) (c : C) : Except PollerFault (EPollPoller C) :=
  poller.changeEvents c fun events => events &&& ~~~kWriteEvent

def disableAll (poller : EPollPoller C) (c : C) : Except PollerFault (EPollPoller C) :=
  poller.changeEvents c fun _ => kNoneEvent

/-- `Channel::remove` while no events are handled. -/
def remove (poller : EPollPoller C) (c : C) : Except PollerFault (EPollPoller C) := do
  let channel := poller.channel c
  check .assertion channel.isNoneEvent
  removeChannel (poller.setChannel c { channel with addedToLoop := false }) c

/-- The three records of a registration agree. -/
structure InStep (poller : EPollPoller C) : Prop where
  mChannels : ∀ fd c, poller.mChannels fd = some c ↔
    (poller.channel c).fd = fd ∧ (poller.channel c).index ≠ .kNew
  epoll : ∀ fd event, poller.epoll fd = some event ↔
    (poller.channel event.ptr).fd = fd ∧ (poller.channel event.ptr).index = .kAdded ∧
      event.events = (poller.channel event.ptr).events

/-- No other channel that the poller knows has the descriptor of `c`. -/
def OwnFd (poller : EPollPoller C) (c : C) : Prop :=
  ∀ c', (poller.channel c').index ≠ .kNew → (poller.channel c').fd = (poller.channel c).fd → c' = c

variable {poller next : EPollPoller C} {c : C}

omit [DecidableEq C] in
theorem inStep_init (fd : C → Nat) : (init fd).InStep where
  mChannels := by simp [init, Channel.new]
  epoll := by simp [init, Channel.new]

namespace InStep

omit [DecidableEq C] in
theorem mChannels_eq_none (h : poller.InStep) (hown : poller.OwnFd c)
    (hindex : (poller.channel c).index = .kNew) :
    poller.mChannels (poller.channel c).fd = none := by
  rw [Option.eq_none_iff_forall_ne_some]
  intro c' hc'
  obtain ⟨hfd, hknown⟩ := (h.mChannels _ _).mp hc'
  apply hknown
  rw [hown c' hknown hfd, hindex]

omit [DecidableEq C] in
theorem mChannels_eq_some (h : poller.InStep) (hindex : (poller.channel c).index ≠ .kNew) :
    poller.mChannels (poller.channel c).fd = some c :=
  (h.mChannels _ _).mpr ⟨rfl, hindex⟩

omit [DecidableEq C] in
theorem epoll_eq_none (h : poller.InStep) (hown : poller.OwnFd c)
    (hindex : (poller.channel c).index ≠ .kAdded) : poller.epoll (poller.channel c).fd = none := by
  rw [Option.eq_none_iff_forall_ne_some]
  intro event hevent
  obtain ⟨hfd, hadded, -⟩ := (h.epoll _ _).mp hevent
  apply hindex
  rw [← hown event.ptr (by simp [hadded]) hfd, hadded]

omit [DecidableEq C] in
theorem epoll_eq_some (h : poller.InStep) (hindex : (poller.channel c).index = .kAdded) :
    poller.epoll (poller.channel c).fd = some ⟨(poller.channel c).events, c⟩ :=
  (h.epoll _ _).mpr ⟨rfl, hindex, rfl⟩

/-- A step that only concerns `c`. -/
theorem of_update {channel : Channel} (h : poller.InStep) (hown : poller.OwnFd c)
    (hfd : channel.fd = (poller.channel c).fd)
    (hchannel : next.channel = Function.update poller.channel c channel)
    (hmap : next.mChannels = Function.update poller.mChannels (poller.channel c).fd
      (if channel.index = .kNew then none else some c))
    (hset : next.epoll = Function.update poller.epoll (poller.channel c).fd
      (if channel.index = .kAdded then some ⟨channel.events, c⟩ else none)) :
    next.InStep := by
  constructor
  · intro fd c'
    rw [hchannel, hmap]
    by_cases hsame : fd = (poller.channel c).fd
    · subst hsame
      rw [Function.update_self]
      by_cases hc : c' = c
      · subst hc
        rw [Function.update_self]
        by_cases hindex : channel.index = .kNew <;> simp [hindex, hfd]
      · rw [Function.update_of_ne hc]
        have hnot : ¬ ((poller.channel c').fd = (poller.channel c).fd ∧
            (poller.channel c').index ≠ .kNew) := fun hboth => hc (hown c' hboth.2 hboth.1)
        simp only [hnot, iff_false]
        split <;> simp [Ne.symm hc]
    · rw [Function.update_of_ne hsame, h.mChannels]
      by_cases hc : c' = c
      · subst hc
        rw [Function.update_self, hfd]
        simp [Ne.symm hsame]
      · rw [Function.update_of_ne hc]
  · intro fd event
    rw [hchannel, hset]
    by_cases hsame : fd = (poller.channel c).fd
    · subst hsame
      rw [Function.update_self]
      obtain ⟨events, c'⟩ := event
      by_cases hc : c' = c
      · subst hc
        rw [Function.update_self]
        by_cases hindex : channel.index = .kAdded <;> simp [hindex, hfd, eq_comm]
      · rw [Function.update_of_ne hc]
        have hnot : ¬ ((poller.channel c').fd = (poller.channel c).fd ∧
            (poller.channel c').index = .kAdded ∧ events = (poller.channel c').events) :=
          fun hboth => hc (hown c' (by simp [hboth.2.1]) hboth.1)
        simp only [hnot, iff_false]
        split <;> simp [Ne.symm hc]
    · rw [Function.update_of_ne hsame, h.epoll]
      by_cases hc : event.ptr = c
      · rw [hc, Function.update_self, hfd]
        simp [Ne.symm hsame]
      · rw [Function.update_of_ne hc]

/-- The poller does not notice when a channel that it does not know is replaced by another. -/
theorem setChannel {channel : Channel} (h : poller.InStep)
    (hindex : (poller.channel c).index = .kNew) (hnew : channel.index = .kNew) :
    (poller.setChannel c channel).InStep := by
  have hsame : ∀ c', (Function.update poller.channel c channel c').index = .kNew ∧
      (poller.channel c').index = .kNew ∨
      Function.update poller.channel c channel c' = poller.channel c' := by
    intro c'
    by_cases hc : c' = c
    · subst hc
      rw [Function.update_self]
      exact .inl ⟨hnew, hindex⟩
    · exact .inr (Function.update_of_ne hc _ _)
  constructor
  · intro fd c'
    refine (h.mChannels fd c').trans ?_
    rcases hsame c' with ⟨hfirst, hlast⟩ | heq
    · simp [EPollPoller.setChannel, hfirst, hlast]
    · simp only [EPollPoller.setChannel, heq]
  · intro fd event
    refine (h.epoll fd event).trans ?_
    rcases hsame event.ptr with ⟨hfirst, hlast⟩ | heq
    · simp [EPollPoller.setChannel, hfirst, hlast]
    · simp only [EPollPoller.setChannel, heq]

end InStep

/-- A call about `c` has left `channel` there and nothing else has changed. -/
structure Leaves (poller : EPollPoller C) (c : C) (channel : Channel) (next : EPollPoller C) :
    Prop where
  inStep : next.InStep
  channel : next.channel = Function.update poller.channel c channel
  errors : next.errors = poller.errors

theorem InStep.leaves {channel : Channel} (h : poller.InStep) (hown : poller.OwnFd c)
    (hfd : channel.fd = (poller.channel c).fd)
    (hchannel : next.channel = Function.update poller.channel c channel)
    (hmap : next.mChannels = Function.update poller.mChannels (poller.channel c).fd
      (if channel.index = .kNew then none else some c))
    (hset : next.epoll = Function.update poller.epoll (poller.channel c).fd
      (if channel.index = .kAdded then some ⟨channel.events, c⟩ else none))
    (herrors : next.errors = poller.errors) : poller.Leaves c channel next :=
  ⟨h.of_update hown hfd hchannel hmap hset, hchannel, herrors⟩

/-- The channel after `Channel::update` with these `events_`. -/
def updated (channel : Channel) (events : BitVec 32) : Channel where
  fd := channel.fd
  events := events
  index := if channel.index = .kAdded ∧ events = kNoneEvent then .kDeleted else .kAdded
  addedToLoop := true

theorem changeEvents_holds (h : poller.InStep) (hown : poller.OwnFd c)
    (change : BitVec 32 → BitVec 32) :
    Holds (poller.changeEvents c change)
      (poller.Leaves c (updated (poller.channel c) (change (poller.channel c).events)))
      fun _ => False := by
  unfold changeEvents updateChannel
  simp only [setChannel, Function.update_self]
  cases hindex : (poller.channel c).index with
  | kNew =>
      have hmap := h.mChannels_eq_none hown hindex
      have hset := h.epoll_eq_none hown (by simp [hindex])
      simp only [setChannel, setIndex, update, epollCtl, hmap, hset, Function.update_self,
        Function.update_idem, check_of_true, ok_bind, if_true]
      apply h.leaves hown <;> simp [updated, hindex]
  | kDeleted =>
      have hmap := h.mChannels_eq_some (c := c) (by simp [hindex])
      have hset := h.epoll_eq_none hown (by simp [hindex])
      simp only [reduceCtorEq, if_true, if_false, ne_eq, not_false_eq_true, hmap, check_of_true,
        setIndex, setChannel, update, epollCtl, hset, Function.update_self, Function.update_idem,
        ok_bind]
      apply h.leaves hown <;> simp [updated, hindex, ← hmap]
  | kAdded =>
      have hmap := h.mChannels_eq_some (c := c) (by simp [hindex])
      have hset := h.epoll_eq_some hindex
      by_cases hnone : change (poller.channel c).events = kNoneEvent
      · simp only [reduceCtorEq, if_true, if_false, ne_eq, not_false_eq_true, hmap, check_of_true,
          Channel.isNoneEvent, hnone, decide_true, setIndex, setChannel, update, epollCtl, hset,
          Function.update_self, bind_pure_comp, Except.map_ok, Function.update_idem, ok_bind]
        apply h.leaves hown <;> simp [updated, hindex, ← hmap]
      · simp only [reduceCtorEq, if_false, ne_eq, not_false_eq_true, hmap, check_of_true,
          Channel.isNoneEvent, hnone, decide_false, Bool.false_eq_true, update, epollCtl, hset,
          Function.update_self, ok_bind]
        apply h.leaves hown <;> simp [updated, hindex, hnone, ← hmap]

theorem removeChannel_holds (h : poller.InStep) (hown : poller.OwnFd c) (addedToLoop : Bool)
    (hnone : (poller.channel c).events = kNoneEvent) (hindex : (poller.channel c).index ≠ .kNew) :
    Holds (removeChannel
        (poller.setChannel c { poller.channel c with addedToLoop := addedToLoop }) c)
      (poller.Leaves c { poller.channel c with index := .kNew, addedToLoop := addedToLoop })
      fun _ => False := by
  have hmap := h.mChannels_eq_some hindex
  unfold removeChannel
  simp only [setChannel, Function.update_self, Channel.isNoneEvent, hnone, hmap]
  cases hadded : (poller.channel c).index with
  | kNew => exact (hindex hadded).elim
  | kDeleted =>
      have hset := h.epoll_eq_none hown (by simp [hadded])
      simp only [ne_eq, reduceCtorEq, not_false_eq_true, check_of_true, decide_true, or_true,
        if_false, setIndex, setChannel, bind_pure_comp, Except.map_ok, Function.update_self,
        Function.update_idem, ok_bind]
      apply h.leaves hown <;> simp [← hset]
  | kAdded =>
      have hset := h.epoll_eq_some hadded
      simp only [ne_eq, reduceCtorEq, not_false_eq_true, check_of_true, decide_true, or_false,
        if_true, update, epollCtl, hset, setIndex, setChannel, bind_pure_comp, Except.map_ok,
        Function.update_self, Function.update_idem, ok_bind]
      apply h.leaves hown <;> simp

theorem remove_holds (h : poller.InStep) (hown : poller.OwnFd c)
    (hnone : (poller.channel c).events = kNoneEvent) (hindex : (poller.channel c).index ≠ .kNew) :
    Holds (poller.remove c)
      (poller.Leaves c { poller.channel c with index := .kNew, addedToLoop := false })
      fun _ => False := by
  have hempty : (poller.channel c).isNoneEvent := by simp [Channel.isNoneEvent, hnone]
  simp only [remove, hempty, check_of_true, ok_bind]
  exact removeChannel_holds h hown false hnone hindex

/-- What the assertions of `remove` ask for. -/
theorem of_remove_eq_ok (h : poller.remove c = .ok next) :
    (poller.channel c).isNoneEvent ∧ poller.mChannels (poller.channel c).fd ≠ none := by
  obtain ⟨_, hnone, hremove⟩ := bind_eq_ok.mp h
  obtain ⟨_, hknown, -⟩ := bind_eq_ok.mp hremove
  refine ⟨of_check hnone, ?_⟩
  have hmap := of_check hknown
  simp only [setChannel, Function.update_self] at hmap
  exact hmap

/-! ### Calls one after the other -/

/-- A call on a channel. -/
inductive ChannelCall where
  | enableReading
  | disableReading
  | enableWriting
  | disableWriting
  | disableAll
  | remove
deriving DecidableEq, Repr

def call (poller : EPollPoller C) : C × ChannelCall → Except PollerFault (EPollPoller C)
  | (c, .enableReading) => poller.enableReading c
  | (c, .disableReading) => poller.disableReading c
  | (c, .enableWriting) => poller.enableWriting c
  | (c, .disableWriting) => poller.disableWriting c
  | (c, .disableAll) => poller.disableAll c
  | (c, .remove) => poller.remove c

/-- `c` has been updated since it was last removed. -/
def updatedSince (c : C) (calls : List (C × ChannelCall)) : Bool :=
  match (calls.filter fun p => p.1 = c).getLast? with
  | some (_, .remove) => false
  | some _ => true
  | none => false

@[simp]
theorem updatedSince_append (c c' : C) (calls : List (C × ChannelCall)) (call : ChannelCall) :
    updatedSince c (calls ++ [(c', call)])
      = if c' = c then decide (call ≠ .remove) else updatedSince c calls := by
  by_cases hc : c' = c
  · cases call <;> simp [updatedSince, hc]
  · simp [updatedSince, hc]

theorem call_eq_changeEvents (poller : EPollPoller C) (c : C) {call : ChannelCall}
    (hcall : call ≠ .remove) :
    ∃ change, poller.call (c, call) = poller.changeEvents c change := by
  cases call with
  | remove => exact (hcall rfl).elim
  | enableReading => exact ⟨fun events => events ||| kReadEvent, rfl⟩
  | disableReading => exact ⟨fun events => events &&& ~~~kReadEvent, rfl⟩
  | enableWriting => exact ⟨fun events => events ||| kWriteEvent, rfl⟩
  | disableWriting => exact ⟨fun events => events &&& ~~~kWriteEvent, rfl⟩
  | disableAll => exact ⟨fun _ => kNoneEvent, rfl⟩

/-- After these calls on channels of these descriptors. -/
structure After (fd : C → Nat) (calls : List (C × ChannelCall)) (poller : EPollPoller C) :
    Prop where
  inStep : poller.InStep
  fd : ∀ c, (poller.channel c).fd = fd c
  known : ∀ c, (poller.channel c).index ≠ .kNew ↔ updatedSince c calls
  errors : poller.errors = []

variable {fd : C → Nat} {calls : List (C × ChannelCall)} {last : ChannelCall}

theorem After.ownFd (h : After fd calls poller) (hfd : Function.Injective fd) : poller.OwnFd c := by
  intro c' _ hsame
  apply hfd
  rw [← h.fd, ← h.fd, hsame]

theorem After.leaves {channel : Channel} (h : After fd calls poller)
    (hleaves : poller.Leaves c channel next) (hsame : channel.fd = (poller.channel c).fd)
    (hindex : channel.index ≠ .kNew ↔ last ≠ .remove) : After fd (calls ++ [(c, last)]) next where
  inStep := hleaves.inStep
  fd := by
    intro c'
    rw [hleaves.channel]
    by_cases hc : c' = c
    · rw [hc, Function.update_self, hsame, h.fd]
    · rw [Function.update_of_ne hc, h.fd]
  known := by
    intro c'
    rw [hleaves.channel, updatedSince_append]
    by_cases hc : c' = c
    · rw [hc, Function.update_self, if_pos rfl, hindex, decide_eq_true_iff]
    · rw [Function.update_of_ne hc, if_neg (Ne.symm hc), h.known]
  errors := by rw [hleaves.errors, h.errors]

theorem After.call (h : After fd calls poller) (hfd : Function.Injective fd)
    (hremove : last = .remove → updatedSince c calls ∧ (poller.channel c).isNoneEvent) :
    Holds (poller.call (c, last)) (After fd (calls ++ [(c, last)])) fun _ => False := by
  by_cases hcall : last = .remove
  · subst hcall
    obtain ⟨hsince, hnone⟩ := hremove rfl
    have hrun := remove_holds h.inStep (h.ownFd hfd) (of_decide_eq_true hnone)
      ((h.known c).mpr hsince)
    apply hrun.imp
    exact fun next hleaves => h.leaves hleaves rfl (by simp)
  · obtain ⟨change, hchange⟩ := call_eq_changeEvents poller c hcall
    rw [hchange]
    apply (changeEvents_holds h.inStep (h.ownFd hfd) change).imp
    intro next hleaves
    apply h.leaves hleaves rfl
    simp only [updated]
    split <;> simp [hcall]

/-- Whatever the channels are told, what the poller knows of them and what the kernel watches agree,
and no call to the kernel fails. -/
theorem call_inStep (hfd : Function.Injective fd)
    (hremove : ∀ i (hi : i < calls.length), calls[i].2 = .remove →
      updatedSince calls[i].1 (calls.take i) ∧
      Holds (Machine.run EPollPoller.call (init fd) (calls.take i))
        (fun poller => (poller.channel calls[i].1).isNoneEvent) fun _ => True) :
    Holds (Machine.run EPollPoller.call (init fd) calls)
      (fun poller => poller.InStep ∧ poller.errors = []) fun _ => False := by
  have hafter : Holds (Machine.run EPollPoller.call (init fd) calls) (After fd calls)
      fun _ => False := by
    induction calls using List.reverseRecOn with
    | nil => exact ⟨inStep_init fd, fun _ => rfl, by simp [init, Channel.new, updatedSince], rfl⟩
    | append_singleton calls last ih =>
        have hbefore := ih fun i hi => by
          have hprefix := hremove i (by rw [List.length_append]; omega)
          rwa [List.getElem_append_left hi, List.take_append_of_le_length hi.le] at hprefix
        have hlast := hremove calls.length (by simp)
        simp only [List.getElem_concat_length, List.take_left] at hlast
        rw [Machine.run_append]
        cases hrun : Machine.run EPollPoller.call (init fd) calls with
        | error fault => exact (hbefore.of_error hrun).elim
        | ok poller =>
            rw [ok_bind, Machine.run_singleton]
            apply (hbefore.of_ok hrun).call hfd
            intro hcall
            obtain ⟨hsince, hnone⟩ := hlast hcall
            exact ⟨hsince, hnone.of_ok hrun⟩
  exact hafter.imp fun _ h => ⟨h.inStep, h.errors⟩

/-- Two channels, one of which is removed and comes back. -/
theorem call_inStep_twoChannels :
    Holds (Machine.run EPollPoller.call (init fun c : Bool => if c then 5 else 4)
        [(true, .enableReading), (false, .disableAll), (true, .enableWriting), (true, .disableAll),
          (true, .remove), (false, .disableWriting), (false, .enableReading),
          (true, .enableReading)])
      (fun poller => poller.InStep ∧ poller.errors = []) fun _ => False := by
  apply call_inStep
  · decide
  · decide +kernel

end EPollPoller

end ToyBasket
