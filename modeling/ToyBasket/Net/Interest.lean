import ToyBasket.Net.Poller

/-!
# Channels without interest

`updateChannel` looks at `events_` only when the channel is in the kernel's set. A channel that is
told to wait for nothing while it is not there is added with no events.
-/

namespace ToyBasket

open Outcome Machine

namespace EPollPoller

variable {C : Type} [DecidableEq C]

/-- What a call makes of `events_`. -/
def ChannelCall.change : ChannelCall → BitVec 32 → BitVec 32
  | .enableReading, events => events ||| kReadEvent
  | .disableReading, events => events &&& ~~~kReadEvent
  | .enableWriting, events => events ||| kWriteEvent
  | .disableWriting, events => events &&& ~~~kWriteEvent
  | .disableAll, _ => kNoneEvent
  | .remove, events => events

omit [DecidableEq C] in
/-- No channel that waits for nothing is in the kernel's set. -/
def Unwatched (poller : EPollPoller C) : Prop :=
  ∀ c, (poller.channel c).isNoneEvent = true →
    ∀ fd event, poller.epoll fd = some event → event.ptr ≠ c

/-- A call that leaves a channel without events finds it in the kernel's set. -/
def FindsAdded (poller : EPollPoller C) (p : C × ChannelCall) : Prop :=
  p.2 ≠ .remove → p.2.change (poller.channel p.1).events = kNoneEvent →
    (poller.channel p.1).index = .kAdded

/-- The records agree, and `kAdded` goes with some events. -/
structure Attentive (fd : C → Nat) (poller : EPollPoller C) : Prop where
  inStep : poller.InStep
  fd_eq : ∀ c, (poller.channel c).fd = fd c
  events : ∀ c, (poller.channel c).isNoneEvent = true → (poller.channel c).index ≠ .kAdded

section Step

variable {fd : C → Nat} {poller next : EPollPoller C} {c : C} {last : ChannelCall}

omit [DecidableEq C] in
theorem attentive_init (fd : C → Nat) : Attentive fd (init fd) where
  inStep := inStep_init fd
  fd_eq := fun _ => rfl
  events := by simp [init, Channel.new]

omit [DecidableEq C] in
theorem Attentive.unwatched (h : Attentive fd poller) : poller.Unwatched := by
  intro c hnone fd' event hevent hsame
  obtain ⟨-, hindex, -⟩ := (h.inStep.epoll fd' event).mp hevent
  rw [hsame] at hindex
  exact h.events c hnone hindex

omit [DecidableEq C] in
theorem Attentive.ownFd (h : Attentive fd poller) (hfd : Function.Injective fd) :
    poller.OwnFd c := by
  intro c' _ hsame
  apply hfd
  rw [← h.fd_eq, ← h.fd_eq, hsame]

theorem call_eq_change (poller : EPollPoller C) (c : C) (hcall : last ≠ .remove) :
    poller.call (c, last) = poller.changeEvents c last.change := by
  cases last with
  | remove => exact absurd rfl hcall
  | _ => rfl

theorem Attentive.leaves {channel : Channel} (h : Attentive fd poller)
    (hleaves : poller.Leaves c channel next) (hsame : channel.fd = (poller.channel c).fd)
    (hevents : channel.isNoneEvent = true → channel.index ≠ .kAdded) : Attentive fd next where
  inStep := hleaves.inStep
  fd_eq := by
    intro c'
    rw [hleaves.channel]
    by_cases hc : c' = c
    · rw [hc, Function.update_self, hsame, h.fd_eq]
    · rw [Function.update_of_ne hc, h.fd_eq]
  events := by
    intro c'
    rw [hleaves.channel]
    by_cases hc : c' = c
    · rw [hc, Function.update_self]
      exact hevents
    · rw [Function.update_of_ne hc]
      exact h.events c'

theorem Attentive.call (h : Attentive fd poller) (hfd : Function.Injective fd)
    (hfinds : poller.FindsAdded (c, last)) (hnext : poller.call (c, last) = .ok next) :
    Attentive fd next := by
  by_cases hcall : last = .remove
  · subst hcall
    obtain ⟨hnone, hknown⟩ := of_remove_eq_ok hnext
    have hindex : (poller.channel c).index ≠ .kNew := fun hnew =>
      hknown (h.inStep.mChannels_eq_none (h.ownFd hfd) hnew)
    have hleaves := (remove_holds h.inStep (h.ownFd hfd) (of_decide_eq_true hnone) hindex).of_ok
      hnext
    exact h.leaves hleaves rfl (by simp)
  · rw [call_eq_change poller c hcall] at hnext
    have hleaves := (changeEvents_holds h.inStep (h.ownFd hfd) last.change).of_ok hnext
    apply h.leaves hleaves rfl
    intro hnone
    have hadded := hfinds hcall (of_decide_eq_true hnone)
    have hchange : last.change (poller.channel c).events = kNoneEvent := of_decide_eq_true hnone
    simp [updated, hadded, hchange]

/-- A channel left without events and added is watched. -/
theorem Unwatched.findsAdded (h : Attentive fd poller) (hfd : Function.Injective fd)
    (hnext : poller.call (c, last) = .ok next) (hunwatched : next.Unwatched) :
    poller.FindsAdded (c, last) := by
  intro hcall hchange
  by_contra hindex
  rw [call_eq_change poller c hcall] at hnext
  have hleaves := (changeEvents_holds h.inStep (h.ownFd hfd) last.change).of_ok hnext
  have hchannel : next.channel c = ⟨(poller.channel c).fd, kNoneEvent, .kAdded, true⟩ := by
    rw [hleaves.channel, Function.update_self, hchange]
    simp [updated, hindex]
  have hset := hleaves.inStep.epoll_eq_some (c := c) (by rw [hchannel])
  exact hunwatched c (by rw [hchannel]; rfl) _ _ hset rfl

/-- In every state that the calls lead to, a channel without events is not watched, if and only if
no call leaves a channel without events that is not in the kernel's set. -/
theorem unwatched_iff_findsAdded (hfd : Function.Injective fd) (calls : List (C × ChannelCall)) :
    Throughout call Unwatched (init fd) calls ↔ Always call FindsAdded (init fd) calls := by
  have hprop : ∀ poller : EPollPoller C, Attentive fd poller → Unwatched poller :=
    fun poller h => h.unwatched
  apply throughout_iff_always hprop
  · exact fun poller p next h hfinds hnext => h.call hfd hfinds hnext
  · exact fun poller p next h hnext hunwatched => hunwatched.findsAdded h hfd hnext
  · intro poller p fault h hfault hcall
    rw [call_eq_change poller p.1 hcall] at hfault
    exact ((changeEvents_holds h.inStep (h.ownFd hfd) p.2.change).of_error hfault).elim
  · exact attentive_init fd

/-- A connection that reads, writes and stops, and a server that listens. -/
theorem unwatched_iff_findsAdded_connection :
    Throughout call Unwatched (init fun c : Bool => if c then 5 else 4)
        [(false, .enableReading), (true, .enableReading), (true, .enableWriting),
          (true, .disableWriting), (true, .disableAll), (true, .remove)] ↔
      Always call FindsAdded (init fun c : Bool => if c then 5 else 4)
        [(false, .enableReading), (true, .enableReading), (true, .enableWriting),
          (true, .disableWriting), (true, .disableAll), (true, .remove)] :=
  unwatched_iff_findsAdded (by decide) _

/-- The second `disableAll` adds the channel again. -/
theorem disableAll_twice_watched :
    ¬ ∀ calls : List (Unit × ChannelCall), Throughout call Unwatched (init fun _ => 5) calls := by
  intro hclaim
  have hlast := (hclaim [((), .enableReading), ((), .disableAll), ((), .disableAll)]).last rfl
  exact hlast () rfl 5 ⟨kNoneEvent, ()⟩ rfl rfl

end Step

end EPollPoller

end ToyBasket
