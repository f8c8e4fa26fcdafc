import ToyBasket.Lib.Machine

/-!
# A thread with its event loop

`startLoop` and `stopLoop` of one thread beside `threadFunc` of another, which has the event loop on
its stack. `startLoop` goes by `inited_`, which nothing clears, and `stopLoop` by `loop_`, which the
thread clears when its loop has ended.
-/

namespace ToyBasket

open Machine

/-- Where `threadFunc` is. A thread that was not made yet, or that has ended, is `absent`. `tested`
comes after a test of `quit_` that gave false, `left` after one that gave true. -/
inductive FuncPlace where
  | absent
  | constructing
  | inCallback
  | published
  | testing
  | tested
  | inPoll
  | handling
  | left
  | cleared
deriving DecidableEq, Repr

/-- Where the other thread is: out of both functions, in the wait of `startLoop`, before its
`return loop_`, and in `stopLoop` after the test of `loop_`, before the write of `quit_`, before
`wakeup` and before the join. -/
inductive CallerPlace where
  | idle
  | waiting
  | reading
  | tested
  | quitting
  | waking
  | joining
deriving DecidableEq, Repr

/-- What the last call returned, `startLoop` with whether the pointer was not null. -/
inductive Returned where
  | startLoop (loop : Bool)
  | stopLoop
deriving DecidableEq, Repr

inductive ThreadFault where
  | nullPointer
  | destroyedLoop
  | notJoinable
  | terminate
deriving DecidableEq, Repr

namespace FuncPlace

/-- Between the write of `loop_` and its clearing. -/
def HasLoop : FuncPlace → Prop
  | .published => True
  | .testing => True
  | .tested => True
  | .inPoll => True
  | .handling => True
  | .left => True
  | _ => False

end FuncPlace

/-- `loop` tells that `loop_` is not null, `quit` is `quit_` of the loop, and `requested` tells that
`stopLoop` has called `quit` on it. -/
structure LoopThread where
  loop : Bool
  inited : Bool
  joinable : Bool
  quit : Bool
  requested : Bool
  func : FuncPlace
  caller : CallerPlace
  returned : Option Returned
deriving DecidableEq, Repr

namespace LoopThread

/-- `startLoop` and `stopLoop` are calls, the last one that of the destructor, and `quitInside` is
`quit` called by the callback or by what the loop runs. -/
inductive Event where
  | startLoop
  | stopLoop
  | caller
  | func
  | quitInside
deriving DecidableEq, Repr

def init : LoopThread where
  loop := false
  inited := false
  joinable := false
  quit := false
  requested := false
  func := .absent
  caller := .idle
  returned := none

def startLoop (s : LoopThread) : Except ThreadFault LoopThread :=
  if s.inited then
    .ok { s with caller := .reading, returned := none }
  else if s.joinable then
    .error .terminate
  else
    .ok {
      s with
      joinable := true
      requested := false
      func := .constructing
      caller := .waiting
      returned := none }

def stopLoop (s : LoopThread) : LoopThread :=
  if s.loop then { s with caller := .tested, returned := none }
  else { s with returned := some .stopLoop }

def leave (s : LoopThread) (returned : Returned) : LoopThread :=
  { s with caller := .idle, returned := some returned }

/-- The wait of `startLoop` ends with the mutex held and `loop_` read as not null. -/
def callerStep (s : LoopThread) : Except ThreadFault LoopThread :=
  match s.caller with
  | .idle => .ok s
  | .waiting => .ok (if s.loop then s.leave (.startLoop true) else s)
  | .reading => .ok (s.leave (.startLoop s.loop))
  | .tested => if s.loop then .ok { s with caller := .quitting } else .error .nullPointer
  | .quitting =>
      if s.func = .absent then .error .destroyedLoop
      else .ok { s with quit := true, requested := true, caller := .waking }
  | .waking =>
      if s.func = .absent then .error .destroyedLoop else .ok { s with caller := .joining }
  | .joining =>
      if ¬ s.joinable then .error .notJoinable
      else if s.func = .absent then .ok ({ s with joinable := false }.leave .stopLoop)
      else .ok s

/-- `loop_` and `inited_` are written under the mutex that the wait of `startLoop` needs. -/
def funcStep (s : LoopThread) : LoopThread :=
  match s.func with
  | .absent => s
  | .constructing => { s with quit := false, func := .inCallback }
  | .inCallback => { s with loop := true, inited := true, func := .published }
  | .published => { s with quit := false, func := .testing }
  | .testing => { s with func := if s.quit then .left else .tested }
  | .tested => { s with func := .inPoll }
  | .inPoll => { s with func := .handling }
  | .handling => { s with func := .testing }
  | .left => { s with loop := false, func := .cleared }
  | .cleared => { s with func := .absent }

def quitInside (s : LoopThread) : LoopThread :=
  if s.func = .inCallback ∨ s.func = .handling then { s with quit := true } else s

def step (s : LoopThread) : Event → Except ThreadFault LoopThread
  | .startLoop => if s.caller = .idle then s.startLoop else .ok s
  | .stopLoop => .ok (if s.caller = .idle then s.stopLoop else s)
  | .caller => s.callerStep
  | .func => .ok s.funcStep
  | .quitInside => .ok s.quitInside

/-- What the flags say about the thread. -/
structure Linked (s : LoopThread) : Prop where
  loop : s.loop = true ↔ s.func.HasLoop
  inited : s.func.HasLoop ∨ s.func = .cleared → s.inited = true
  alone : s.joinable = false → s.func = .absent

/-- `startLoop` did not return null, and after `stopLoop` no thread is left to join. -/
structure Joined (s : LoopThread) : Prop where
  start : s.returned ≠ some (.startLoop false)
  stop : s.returned = some .stopLoop → s.joinable = false

/-- The thread has not cleared `loop_` yet where `startLoop` returns it, and where `stopLoop` tests
it with a thread to join. -/
def NotEnded (s : LoopThread) : Event → Prop
  | .caller => s.caller = .reading → s.func.HasLoop
  | .stopLoop => s.caller = .idle → s.joinable → s.func.HasLoop
  | _ => True

theorem linked_init : Linked init where
  loop := by simp [init, FuncPlace.HasLoop]
  inited := by simp [init, FuncPlace.HasLoop]
  alone := fun _ => rfl

theorem joined_init : Joined init where
  start := nofun
  stop := nofun

section Step

variable {s s' : LoopThread} {event : Event}

/-- What a step of either thread can do to the flags and to the thread. -/
theorem step_cases (hnext : step s event = .ok s') :
    (∃ caller returned, s' = { s with caller := caller, returned := returned }) ∨
    (s.inited = false ∧ s.joinable = false ∧ s' = { s with
      joinable := true
      requested := false
      func := .constructing
      caller := .waiting
      returned := none }) ∨
    (event = .caller ∧ s.caller = .quitting ∧ s.func ≠ .absent ∧
      s' = { s with quit := true, requested := true, caller := .waking }) ∨
    (s.func = .absent ∧ s' = { s with joinable := false }.leave .stopLoop) ∨
    s' = s.funcStep ∨ s' = { s with quit := true } := by
  cases event with
  | startLoop =>
      simp only [step, startLoop] at hnext
      split at hnext
      · split at hnext
        · cases hnext
          exact .inl ⟨_, _, rfl⟩
        · rename_i hinited
          split at hnext
          · cases hnext
          · rename_i hjoinable
            cases hnext
            right; left
            exact ⟨Bool.eq_false_iff.mpr hinited, Bool.eq_false_iff.mpr hjoinable, rfl⟩
      · cases hnext
        exact .inl ⟨_, _, rfl⟩
  | stopLoop =>
      left
      cases hnext
      simp only [stopLoop]
      split
      · split
        · exact ⟨_, _, rfl⟩
        · exact ⟨_, _, rfl⟩
      · exact ⟨_, _, rfl⟩
  | caller =>
      simp only [step, callerStep] at hnext
      split at hnext
      · cases hnext
        exact .inl ⟨_, _, rfl⟩
      · left
        cases hnext
        split
        · exact ⟨_, _, rfl⟩
        · exact ⟨_, _, rfl⟩
      · cases hnext
        exact .inl ⟨_, _, rfl⟩
      · split at hnext
        · cases hnext
          exact .inl ⟨_, _, rfl⟩
        · cases hnext
      · rename_i hcaller
        split at hnext
        · cases hnext
        · rename_i hfunc
          cases hnext
          right; right; left
          exact ⟨rfl, hcaller, hfunc, rfl⟩
      · split at hnext
        · cases hnext
        · cases hnext
          exact .inl ⟨_, _, rfl⟩
      · split at hnext
        · cases hnext
        · split at hnext
          · rename_i habsent
            cases hnext
            right; right; right; left
            exact ⟨habsent, rfl⟩
          · cases hnext
            exact .inl ⟨_, _, rfl⟩
  | func =>
      cases hnext
      right; right; right; right; left
      rfl
  | quitInside =>
      cases hnext
      unfold quitInside
      split
      · right; right; right; right; right
        rfl
      · exact .inl ⟨_, _, rfl⟩

theorem Linked.of_same (h : Linked s) (hloop : s'.loop = s.loop) (hfunc : s'.func = s.func)
    (hinited : s'.inited = s.inited) (hjoinable : s'.joinable = s.joinable) : Linked s' where
  loop := by
    rw [hloop, hfunc]
    exact h.loop
  inited := by
    rw [hfunc, hinited]
    exact h.inited
  alone := by
    rw [hjoinable, hfunc]
    exact h.alone

/-- The thread goes on with its loop. -/
theorem Linked.goOn (h : Linked s) (hfunc : s.func.HasLoop) (hfunc' : s'.func.HasLoop)
    (hloop : s'.loop = s.loop) (hinited : s'.inited = s.inited)
    (hjoinable : s'.joinable = s.joinable) : Linked s' where
  loop := by
    rw [hloop]
    exact iff_of_true (h.loop.mpr hfunc) hfunc'
  inited := by
    intro _
    rw [hinited]
    exact h.inited (.inl hfunc)
  alone := by
    intro hnot
    rw [h.alone (hjoinable ▸ hnot)] at hfunc
    exact hfunc.elim

theorem Linked.joinable_of_ne (h : Linked s) (hfunc : s.func ≠ .absent) : s.joinable = true := by
  by_contra hnot
  exact hfunc (h.alone (Bool.eq_false_iff.mpr hnot))

theorem Linked.loop_eq_false (h : Linked s) (hfunc : ¬ s.func.HasLoop) : s.loop = false := by
  rw [Bool.eq_false_iff]
  exact fun hloop => hfunc (h.loop.mp hloop)

theorem Linked.funcStep (h : Linked s) : Linked s.funcStep := by
  have hjoinable : s.func ≠ .absent → s.joinable = true := h.joinable_of_ne
  unfold LoopThread.funcStep
  cases hfunc : s.func with
  | absent => exact h
  | constructing =>
      rw [hfunc] at hjoinable
      have hloop : s.loop = false := h.loop_eq_false (by rw [hfunc]; exact id)
      exact ⟨by simp [hloop, FuncPlace.HasLoop], by simp [FuncPlace.HasLoop],
        by simp [hjoinable]⟩
  | inCallback =>
      rw [hfunc] at hjoinable
      exact ⟨by simp [FuncPlace.HasLoop], fun _ => rfl, by simp [hjoinable]⟩
  | published => exact h.goOn (by rw [hfunc]; trivial) trivial rfl rfl rfl
  | testing =>
      refine h.goOn (by rw [hfunc]; trivial) ?_ rfl rfl rfl
      dsimp only
      split
      · trivial
      · trivial
  | tested => exact h.goOn (by rw [hfunc]; trivial) trivial rfl rfl rfl
  | inPoll => exact h.goOn (by rw [hfunc]; trivial) trivial rfl rfl rfl
  | handling => exact h.goOn (by rw [hfunc]; trivial) trivial rfl rfl rfl
  | left =>
      have hinited : s.inited = true := h.inited (.inl (by rw [hfunc]; trivial))
      rw [hfunc] at hjoinable
      exact ⟨by simp [FuncPlace.HasLoop], fun _ => hinited, by simp [hjoinable]⟩
  | cleared =>
      have hloop : s.loop = false := h.loop_eq_false (by rw [hfunc]; exact id)
      exact ⟨by simp [hloop, FuncPlace.HasLoop], by simp [FuncPlace.HasLoop], fun _ => rfl⟩

theorem linked_step (h : Linked s) (hnext : step s event = .ok s') : Linked s' := by
  obtain ⟨_, _, rfl⟩ | ⟨-, hjoinable, rfl⟩ | ⟨-, -, -, rfl⟩ | ⟨habsent, rfl⟩ | rfl | rfl :=
    step_cases hnext
  · exact h.of_same rfl rfl rfl rfl
  · have hloop : s.loop = false := h.loop_eq_false (by rw [h.alone hjoinable]; exact id)
    exact ⟨by simp [hloop, FuncPlace.HasLoop], by simp [FuncPlace.HasLoop], nofun⟩
  · exact h.of_same rfl rfl rfl rfl
  · exact ⟨h.loop, h.inited, fun _ => habsent⟩
  · exact h.funcStep
  · exact h.of_same rfl rfl rfl rfl

theorem joined_of_none (h : s.returned = none) : Joined s where
  start := by
    rw [h]
    nofun
  stop := by
    rw [h]
    nofun

theorem joined_leave_startLoop (h : s.loop = true) : Joined (s.leave (.startLoop s.loop)) where
  start := by
    rw [h]
    nofun
  stop := nofun

theorem joined_leave_stopLoop (h : s.joinable = false) : Joined (s.leave .stopLoop) where
  start := nofun
  stop := fun _ => h

theorem Joined.of_same (h : Joined s) (hreturned : s'.returned = s.returned)
    (hjoinable : s'.joinable = s.joinable) : Joined s' where
  start := by
    rw [hreturned]
    exact h.start
  stop := by
    rw [hreturned, hjoinable]
    exact h.stop

theorem Joined.funcStep (h : Joined s) : Joined s.funcStep := by
  unfold LoopThread.funcStep
  split
  · exact h
  all_goals exact h.of_same rfl rfl

theorem Joined.startLoop (hnext : s.startLoop = .ok s') : Joined s' := by
  unfold LoopThread.startLoop at hnext
  split at hnext
  · cases hnext
    exact joined_of_none rfl
  · split at hnext
    · cases hnext
    · cases hnext
      exact joined_of_none rfl

theorem Joined.stopLoop (hlinked : Linked s) (hgood : s.joinable = true → s.func.HasLoop) :
    Joined s.stopLoop := by
  unfold LoopThread.stopLoop
  split
  · exact joined_of_none rfl
  · rename_i hloop
    refine ⟨nofun, fun _ => ?_⟩
    rw [Bool.eq_false_iff]
    exact fun hjoinable => hloop (hlinked.loop.mpr (hgood hjoinable))

theorem Joined.callerStep (h : Joined s) (hlinked : Linked s) (hgood : s.NotEnded .caller)
    (hnext : s.callerStep = .ok s') : Joined s' := by
  unfold LoopThread.callerStep at hnext
  split at hnext
  · cases hnext
    exact h
  · cases hnext
    split
    · exact ⟨nofun, nofun⟩
    · exact h
  · rename_i hcaller
    cases hnext
    exact joined_leave_startLoop (hlinked.loop.mpr (hgood hcaller))
  · split at hnext
    · cases hnext
      exact h.of_same rfl rfl
    · cases hnext
  · split at hnext
    · cases hnext
    · cases hnext
      exact h.of_same rfl rfl
  · split at hnext
    · cases hnext
    · cases hnext
      exact h.of_same rfl rfl
  · split at hnext
    · cases hnext
    · split at hnext
      · cases hnext
        exact joined_leave_stopLoop rfl
      · cases hnext
        exact h

theorem joined_step (h : Joined s) (hlinked : Linked s) (hgood : s.NotEnded event)
    (hnext : step s event = .ok s') : Joined s' := by
  cases event with
  | startLoop =>
      simp only [step] at hnext
      split at hnext
      · exact Joined.startLoop hnext
      · cases hnext
        exact h
  | stopLoop =>
      cases hnext
      split
      · rename_i hidle
        exact Joined.stopLoop hlinked (hgood hidle)
      · exact h
  | caller => exact h.callerStep hlinked hgood hnext
  | func =>
      cases hnext
      exact h.funcStep
  | quitInside =>
      cases hnext
      unfold LoopThread.quitInside
      split
      · exact h.of_same rfl rfl
      · exact h

/-- Once the thread has cleared `loop_`, `startLoop` returns null and `stopLoop` returns without a
join. -/
theorem notEnded_of_joined (hlinked : Linked s) (hnext : step s event = .ok s') (h : Joined s') :
    s.NotEnded event := by
  cases event with
  | stopLoop =>
      intro hidle hjoinable
      by_contra hended
      have hloop := hlinked.loop_eq_false hended
      simp only [step, if_pos hidle, LoopThread.stopLoop, hloop] at hnext
      cases hnext
      have hnot : s.joinable = false := h.stop rfl
      rw [hnot] at hjoinable
      cases hjoinable
  | caller =>
      intro hcaller
      by_contra hended
      have hloop := hlinked.loop_eq_false hended
      simp only [step, callerStep, hcaller, hloop] at hnext
      cases hnext
      exact h.start rfl
  | _ => trivial

end Step

/-- In every state of a run `startLoop` has returned a loop and `stopLoop` no joinable thread, if
and only if no `startLoop` and no `stopLoop` looks for a loop that has ended. -/
theorem joined_iff_notEnded (events : List Event) :
    Throughout step Joined init events ↔ Always step NotEnded init events := by
  have hgood : ∀ s event s', Linked s ∧ Joined s → s.NotEnded event → step s event = .ok s' →
      Linked s' ∧ Joined s' := by
    rintro s event s' ⟨hlinked, h⟩ hevent hnext
    exact ⟨linked_step hlinked hnext, joined_step h hlinked hevent hnext⟩
  have hfault : ∀ s event fault, Linked s ∧ Joined s → step s event = .error fault →
      s.NotEnded event := by
    intro s event fault _ hnext
    cases event with
    | stopLoop => cases hnext
    | caller =>
        intro hcaller
        simp only [step, callerStep, hcaller] at hnext
        cases hnext
    | _ => trivial
  refine throughout_iff_always (fun s h => h.2) hgood ?_ hfault ⟨linked_init, joined_init⟩
  rintro s event s' ⟨hlinked, -⟩ hnext h
  exact notEnded_of_joined hlinked hnext h

/-- A functor calls `quit`, and the thread ends before `stopLoop` is called. -/
theorem endedItself_not_joined : ¬ Throughout step Joined init
    [.startLoop, .func, .func, .caller, .func, .func, .func, .func, .quitInside, .func, .func,
      .func, .stopLoop] := by
  intro h
  have hlast := h.last rfl
  have hstop := hlast.stop rfl
  cases hstop

end LoopThread

end ToyBasket
