import ToyBasket.Task.LoopThread

/-!
# The stop request of a loop

`EventLoop::loop` clears `quit_` before it tests it for the first time, and the pointer to the loop
is handed out before that. A `quit` of `stopLoop` that comes in between is lost.
-/

namespace ToyBasket

open Machine

namespace FuncPlace

/-- From the reset of `quit_` in `loop` to the end of the thread. -/
def AfterReset : FuncPlace → Prop
  | .constructing => False
  | .inCallback => False
  | .published => False
  | _ => True

theorem AfterReset.hasLoop_or_cleared {func : FuncPlace} (h : func.AfterReset)
    (hfunc : func ≠ .absent) : func.HasLoop ∨ func = .cleared := by
  cases func with
  | absent => exact (hfunc rfl).elim
  | constructing | inCallback | published => exact h.elim
  | cleared => exact .inr rfl
  | _ => exact .inl trivial

end FuncPlace

namespace LoopThread

/-- The thread is not in a poll that it began with `quit_` false though `stopLoop` has called
`quit`. -/
def OnTime (s : LoopThread) : Prop := s.requested → s.func = .inPoll → s.quit

/-- Once `stopLoop` has called `quit`, no poll is begun with `quit_` false, whatever comes next. -/
def StopKept (s : LoopThread) : Prop := s.requested → ∀ events, Throughout step OnTime s events

/-- `stopLoop` calls `quit` after `loop` has reset `quit_`. -/
def QuitInTime (s : LoopThread) : Event → Prop
  | .caller => s.caller = .quitting → s.func.AfterReset
  | _ => True

/-- The request is there until the thread ends, and no other thread is made. -/
structure Requested (s : LoopThread) : Prop where
  quit : s.requested = true → s.quit = true
  afterReset : s.requested = true → s.func.AfterReset
  inited : s.requested = true → s.inited = true

theorem requested_init : Requested init := ⟨nofun, nofun, nofun⟩

section Step

variable {s s' : LoopThread} {event : Event}

theorem Requested.of_same (h : Requested s) (hrequested : s'.requested = s.requested)
    (hquit : s'.quit = s.quit) (hfunc : s'.func = s.func) (hinited : s'.inited = s.inited) :
    Requested s' := by
  obtain ⟨hq, hf, hi⟩ := h
  rw [← hrequested, ← hquit] at hq
  rw [← hrequested, ← hfunc] at hf
  rw [← hrequested, ← hinited] at hi
  exact ⟨hq, hf, hi⟩

/-- The thread goes on after the reset. -/
theorem Requested.goOn (h : Requested s) (hfunc : s'.func.AfterReset)
    (hrequested : s'.requested = s.requested) (hquit : s'.quit = s.quit)
    (hinited : s'.inited = s.inited) : Requested s' where
  quit := by
    rw [hrequested, hquit]
    exact h.quit
  afterReset := fun _ => hfunc
  inited := by
    rw [hrequested, hinited]
    exact h.inited

theorem requested_of_not (h : ¬ s.requested = true) : Requested s :=
  ⟨fun hr => (h hr).elim, fun hr => (h hr).elim, fun hr => (h hr).elim⟩

theorem Requested.not_of_early (h : Requested s) (hfunc : ¬ s.func.AfterReset) :
    ¬ s.requested = true :=
  fun hrequested => hfunc (h.afterReset hrequested)

theorem Requested.funcStep (h : Requested s) : Requested s.funcStep := by
  unfold LoopThread.funcStep
  cases hfunc : s.func with
  | absent => exact h
  | constructing => exact requested_of_not (h.not_of_early (by rw [hfunc]; exact id))
  | inCallback => exact requested_of_not (h.not_of_early (by rw [hfunc]; exact id))
  | published => exact requested_of_not (h.not_of_early (by rw [hfunc]; exact id))
  | testing =>
      refine h.goOn ?_ rfl rfl rfl
      dsimp only
      split
      · trivial
      · trivial
  | tested => exact h.goOn trivial rfl rfl rfl
  | inPoll => exact h.goOn trivial rfl rfl rfl
  | handling => exact h.goOn trivial rfl rfl rfl
  | left => exact h.goOn trivial rfl rfl rfl
  | cleared => exact h.goOn trivial rfl rfl rfl

theorem requested_step (h : Requested s) (hlinked : Linked s) (hgood : s.QuitInTime event)
    (hnext : step s event = .ok s') : Requested s' := by
  obtain ⟨_, _, rfl⟩ | ⟨-, -, rfl⟩ | ⟨rfl, hcaller, hfunc, rfl⟩ | ⟨-, rfl⟩ | rfl | rfl :=
    step_cases hnext
  · exact h.of_same rfl rfl rfl rfl
  · exact requested_of_not nofun
  · have hreset := hgood hcaller
    have hinited := hlinked.inited (hreset.hasLoop_or_cleared hfunc)
    exact ⟨fun _ => rfl, fun _ => hreset, fun _ => hinited⟩
  · exact h.of_same rfl rfl rfl rfl
  · exact h.funcStep
  · exact ⟨fun _ => rfl, h.afterReset, h.inited⟩

theorem Requested.onTime (h : Requested s) : s.OnTime := fun hrequested _ => h.quit hrequested

/-- Only a new thread takes the request away, and none is made once `inited_` is set. -/
theorem requested_stays (hinited : s.inited = true) (h : s.requested = true)
    (hnext : step s event = .ok s') : s'.requested = true := by
  obtain ⟨_, _, rfl⟩ | ⟨hnot, -, -⟩ | ⟨-, -, -, rfl⟩ | ⟨-, rfl⟩ | rfl | rfl := step_cases hnext
  · exact h
  · rw [hinited] at hnot
    cases hnot
  · rfl
  · exact h
  · unfold LoopThread.funcStep
    split
    all_goals exact h
  · exact h

/-- A request that came after the reset is not lost in any run from here. -/
theorem Requested.stopKept (h : Requested s) (hlinked : Linked s) : s.StopKept := by
  intro hrequested events
  have hstep : ∀ s event s', (Requested s ∧ Linked s) ∧ s.requested = true →
      step s event = .ok s' → (Requested s' ∧ Linked s') ∧ s'.requested = true := by
    rintro s event s' ⟨⟨h, hlinked⟩, hrequested⟩ hnext
    have hgood : s.QuitInTime event := by
      cases event with
      | caller => exact fun _ => h.afterReset hrequested
      | _ => trivial
    exact ⟨⟨requested_step h hlinked hgood hnext, linked_step hlinked hnext⟩,
      requested_stays (h.inited hrequested) hrequested hnext⟩
  rw [throughout_iff]
  intro before _ _ t hrun
  exact (invariant hstep hrun ⟨⟨h, hlinked⟩, hrequested⟩).1.1.onTime

/-- Before the reset the thread can go on to a poll that it begins with `quit_` false. -/
theorem exists_run_inPoll (h : ¬ s.func.AfterReset) : ∃ events t, run step s events = .ok t ∧
    t.requested = s.requested ∧ t.func = .inPoll ∧ t.quit = false := by
  cases hfunc : s.func with
  | constructing =>
      refine ⟨[.func, .func, .func, .func, .func],
        { s with loop := true, inited := true, quit := false, func := .inPoll }, ?_, rfl, rfl, rfl⟩
      simp [run, step, LoopThread.funcStep, hfunc]
  | inCallback =>
      refine ⟨[.func, .func, .func, .func],
        { s with loop := true, inited := true, quit := false, func := .inPoll }, ?_, rfl, rfl, rfl⟩
      simp [run, step, LoopThread.funcStep, hfunc]
  | published =>
      refine ⟨[.func, .func, .func], { s with quit := false, func := .inPoll }, ?_, rfl, rfl, rfl⟩
      simp [run, step, LoopThread.funcStep, hfunc]
  | _ =>
      rw [hfunc] at h
      exact (h trivial).elim

theorem StopKept.afterReset (h : s.StopKept) (hrequested : s.requested = true) :
    s.func.AfterReset := by
  by_contra hfunc
  obtain ⟨events, t, hrun, hsame, hpoll, hquit⟩ := exists_run_inPoll hfunc
  have honTime := (h hrequested events).last hrun
  have htrue : t.quit = true := honTime (hsame.trans hrequested) hpoll
  rw [hquit] at htrue
  cases htrue

theorem quitInTime_of_stopKept (hnext : step s event = .ok s') (h : s'.StopKept) :
    s.QuitInTime event := by
  cases event with
  | caller =>
      intro hcaller
      simp only [step, callerStep, hcaller] at hnext
      split at hnext
      · cases hnext
      · cases hnext
        exact h.afterReset rfl
  | _ => trivial

theorem quitInTime_of_fault {fault : ThreadFault} (hnext : step s event = .error fault) :
    s.QuitInTime event := by
  cases event with
  | caller =>
      intro hcaller
      simp only [step, callerStep, hcaller] at hnext
      split at hnext
      · rename_i hfunc
        rw [hfunc]
        trivial
      · cases hnext
  | _ => trivial

end Step

/-- In a run no request of `stopLoop` is lost, then or later, if and only if each of its calls of
`quit` comes after the reset of `quit_`. -/
theorem stopKept_iff_quitInTime (events : List Event) :
    Throughout step StopKept init events ↔ Always step QuitInTime init events := by
  have hgood : ∀ s event s', Requested s ∧ Linked s → s.QuitInTime event →
      step s event = .ok s' → Requested s' ∧ Linked s' := by
    rintro s event s' ⟨h, hlinked⟩ hevent hnext
    exact ⟨requested_step h hlinked hevent hnext, linked_step hlinked hnext⟩
  exact throughout_iff_always (fun s h => h.1.stopKept h.2) hgood
    (fun s event s' _ => quitInTime_of_stopKept) (fun s event fault _ => quitInTime_of_fault)
    ⟨requested_init, linked_init⟩

/-- `stopLoop` is called as soon as `startLoop` has returned, while the thread is still on its way
to `loop`. -/
theorem quitEarly_not_stopKept : ¬ Throughout step StopKept init
    [.startLoop, .func, .func, .caller, .stopLoop, .caller, .caller] := by
  intro h
  have hkept := h.last rfl
  exact hkept.afterReset rfl

end LoopThread

end ToyBasket
