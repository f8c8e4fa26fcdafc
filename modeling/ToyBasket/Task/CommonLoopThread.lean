import ToyBasket.Lib.Machine

/-!
# A thread that repeats a callback

`TaskCommonLoopThread.cpp`: `startLoop` and `stopLoop` of one thread beside `threadFunc` of another.
`exiting_` is set by `stopLoop` and never reset, and `started_` is written by the thread itself.
-/

namespace ToyBasket

open Outcome Machine

/-- Where `threadFunc` is: before it sets `started_`, before the test of `exiting_`, after a test
that gave false, in the callback, before it clears `started_`, and at its end. -/
inductive CommonPlace where
  | starting
  | testing
  | tested
  | inCallback
  | leaving
  | ended
deriving DecidableEq, Repr

/-- Where the other thread is: out of both functions, in `startLoop` before it makes a thread, and
in `stopLoop` before it clears `started_` and before the join. -/
inductive CommonCaller where
  | idle
  | creating
  | clearing
  | joining
deriving DecidableEq, Repr

/-- A `std::thread` that can be joined was assigned to. -/
inductive CommonFault where
  | terminate
deriving DecidableEq, Repr

/-- `thread` is `thread_` if it can be joined, and `called` counts the calls of the callback. -/
structure CommonLoopThread where
  callback : Bool
  exiting : Bool
  started : Bool
  thread : Option CommonPlace
  caller : CommonCaller
  called : Nat
deriving DecidableEq, Repr

namespace CommonLoopThread

inductive Event where
  | startLoop
  | stopLoop
  | caller
  | func
deriving DecidableEq, Repr

def init (callback : Bool) : CommonLoopThread where
  callback := callback
  exiting := false
  started := false
  thread := none
  caller := .idle
  called := 0

def startLoop (s : CommonLoopThread) : CommonLoopThread :=
  if s.started then s else { s with caller := .creating }

def stopLoop (s : CommonLoopThread) : CommonLoopThread :=
  { s with exiting := true, caller := .clearing }

def callerStep (s : CommonLoopThread) : Except CommonFault CommonLoopThread :=
  match s.caller with
  | .idle => .ok s
  | .creating =>
      if s.thread.isSome then .error .terminate
      else .ok { s with thread := some .starting, caller := .idle }
  | .clearing => .ok { s with started := false, caller := .joining }
  | .joining =>
      match s.thread with
      | none => .ok { s with caller := .idle }
      | some .ended => .ok { s with thread := none, caller := .idle }
      | some _ => .ok s

def funcStep (s : CommonLoopThread) : CommonLoopThread :=
  match s.thread with
  | none | some .ended => s
  | some .starting => { s with started := true, thread := some .testing }
  | some .testing => { s with thread := some (if s.exiting then .leaving else .tested) }
  | some .tested =>
      if s.callback then { s with thread := some .inCallback, called := s.called + 1 }
      else { s with thread := some .leaving }
  | some .inCallback => { s with thread := some .testing }
  | some .leaving => { s with started := false, thread := some .ended }

def step (s : CommonLoopThread) : Event → Except CommonFault CommonLoopThread
  | .startLoop => .ok (if s.caller = .idle then s.startLoop else s)
  | .stopLoop => .ok (if s.caller = .idle then s.stopLoop else s)
  | .caller => s.callerStep
  | .func => .ok s.funcStep

variable {s s' t : CommonLoopThread} {event : Event} {events : List Event} {callback : Bool}

/-! ### The end -/

/-- How many steps the thread has still to make when it is to exit. -/
def remaining : Option CommonPlace → Nat
  | none | some .ended => 0
  | some .leaving => 1
  | some .testing => 2
  | some .starting | some .inCallback => 3
  | some .tested => 4

/-- Whether the thread has found `exiting_` false and has not called the callback since. -/
def pendingCall (thread : Option CommonPlace) : Nat := if thread = some .tested then 1 else 0

theorem startLoop_cases (s : CommonLoopThread) :
    s.startLoop = s ∨ s.startLoop = { s with caller := .creating } := by
  unfold startLoop
  split
  · exact .inl rfl
  · exact .inr rfl

theorem funcStep_exiting (h : s.exiting = true) : s.funcStep.exiting = true ∧
    s.funcStep.called + pendingCall s.funcStep.thread ≤ s.called + pendingCall s.thread := by
  cases hthread : s.thread with
  | none =>
      simp only [funcStep, hthread]
      exact ⟨h, Nat.le_refl _⟩
  | some place =>
      cases place with
      | starting =>
          simp only [funcStep, hthread]
          exact ⟨h, Nat.le_refl _⟩
      | testing =>
          simp only [funcStep, hthread, h, if_true]
          exact ⟨trivial, Nat.le_refl _⟩
      | tested =>
          simp only [funcStep, hthread]
          split
          · exact ⟨h, Nat.le_refl _⟩
          · exact ⟨h, Nat.le_add_right _ _⟩
      | inCallback =>
          simp only [funcStep, hthread]
          exact ⟨h, Nat.le_refl _⟩
      | leaving =>
          simp only [funcStep, hthread]
          exact ⟨h, Nat.le_refl _⟩
      | ended =>
          simp only [funcStep, hthread]
          exact ⟨h, Nat.le_refl _⟩

/-- No test gives false any more. -/
theorem step_exiting (h : s.exiting = true) (hnext : s.step event = .ok s') :
    s'.exiting = true ∧ s'.called + pendingCall s'.thread ≤ s.called + pendingCall s.thread := by
  cases event with
  | startLoop =>
      cases hnext
      split
      · obtain hsame | hcreating := s.startLoop_cases
        · rw [hsame]
          exact ⟨h, Nat.le_refl _⟩
        · rw [hcreating]
          exact ⟨h, Nat.le_refl _⟩
      · exact ⟨h, Nat.le_refl _⟩
  | stopLoop =>
      cases hnext
      split
      · exact ⟨rfl, Nat.le_refl _⟩
      · exact ⟨h, Nat.le_refl _⟩
  | caller =>
      simp only [step, callerStep] at hnext
      split at hnext
      · cases hnext
        exact ⟨h, Nat.le_refl _⟩
      · split at hnext
        · cases hnext
        · cases hnext
          exact ⟨h, Nat.le_add_right _ _⟩
      · cases hnext
        exact ⟨h, Nat.le_refl _⟩
      · split at hnext
        · cases hnext
          exact ⟨h, Nat.le_refl _⟩
        · cases hnext
          exact ⟨h, Nat.le_add_right _ _⟩
        · cases hnext
          exact ⟨h, Nat.le_refl _⟩
  | func =>
      cases hnext
      exact funcStep_exiting h

/-- `stopLoop` has returned, and there is no thread any more. -/
def Returned (s : CommonLoopThread) : Prop := s.caller = .idle ∧ s.thread = none

theorem funcStep_caller (s : CommonLoopThread) : s.funcStep.caller = s.caller := by
  unfold funcStep
  split
  · rfl
  · rfl
  · rfl
  · rfl
  · split
    · rfl
    · rfl
  · rfl
  · rfl

theorem remaining_funcStep (h : s.exiting = true) :
    remaining s.funcStep.thread ≤ remaining s.thread - 1 := by
  cases hthread : s.thread with
  | none => simp [funcStep, hthread, remaining]
  | some place =>
      cases place with
      | starting => simp [funcStep, hthread, remaining]
      | testing => simp [funcStep, hthread, remaining, h]
      | tested =>
          simp only [funcStep, hthread]
          split
          · exact Nat.le_refl _
          · exact Nat.le_of_ble_eq_true rfl
      | inCallback => simp [funcStep, hthread, remaining]
      | leaving => simp [funcStep, hthread, remaining]
      | ended => simp [funcStep, hthread, remaining]

/-- `join` goes on waiting as long as the thread has a step to make. -/
theorem callerStep_joining (hcaller : s.caller = .joining) :
    ∃ s', s.callerStep = .ok s' ∧ (Returned s' ∨ s' = s ∧ remaining s.thread ≠ 0) := by
  simp only [callerStep, hcaller]
  cases hthread : s.thread with
  | none => exact ⟨_, rfl, .inl ⟨rfl, rfl⟩⟩
  | some place =>
      cases place with
      | starting => exact ⟨s, rfl, .inr ⟨rfl, by simp [remaining]⟩⟩
      | testing => exact ⟨s, rfl, .inr ⟨rfl, by simp [remaining]⟩⟩
      | tested => exact ⟨s, rfl, .inr ⟨rfl, by simp [remaining]⟩⟩
      | inCallback => exact ⟨s, rfl, .inr ⟨rfl, by simp [remaining]⟩⟩
      | leaving => exact ⟨s, rfl, .inr ⟨rfl, by simp [remaining]⟩⟩
      | ended => exact ⟨_, rfl, .inl ⟨rfl, rfl⟩⟩

/-- While `stopLoop` waits for the thread each step of the thread brings it nearer to its end. -/
theorem step_joining (event : Event) (h : s.exiting = true) (hcaller : s.caller = .joining) :
    ∃ s', s.step event = .ok s' ∧ (Returned s' ∨
      (s'.caller = .joining ∧ (event = .caller → remaining s.thread ≠ 0) ∧
        remaining s'.thread ≤ remaining s.thread - (if event = .func then 1 else 0))) := by
  have hidle : ¬ s.caller = .idle := by
    rw [hcaller]
    decide
  cases event with
  | startLoop => exact ⟨s, by rw [step, if_neg hidle], .inr ⟨hcaller, by simp, by simp⟩⟩
  | stopLoop => exact ⟨s, by rw [step, if_neg hidle], .inr ⟨hcaller, by simp, by simp⟩⟩
  | caller =>
      obtain ⟨s', hnext, hreturned | ⟨rfl, hleft⟩⟩ := callerStep_joining hcaller
      · exact ⟨s', hnext, .inl hreturned⟩
      · exact ⟨s', hnext, .inr ⟨hcaller, fun _ => hleft, by simp⟩⟩
  | func =>
      refine ⟨s.funcStep, rfl, .inr ⟨s.funcStep_caller.trans hcaller, by simp, ?_⟩⟩
      rw [if_pos rfl]
      exact remaining_funcStep h

theorem run_joining (h : s.exiting = true) (hcaller : s.caller = .joining)
    (hcount : remaining s.thread ≤ events.count .func) :
    ∃ before after u, events ++ [.caller] = before ++ after ∧
      run step s before = .ok u ∧ Returned u := by
  induction events generalizing s with
  | nil =>
      obtain ⟨u, hnext, hreturned | ⟨-, hleft, -⟩⟩ := step_joining .caller h hcaller
      · exact ⟨[.caller], [], u, rfl, by rw [run_singleton, hnext], hreturned⟩
      · exact absurd (Nat.le_zero.mp hcount) (hleft rfl)
  | cons event events ih =>
      obtain ⟨u, hnext, hreturned | ⟨hjoining, -, hnearer⟩⟩ :=
        step_joining event h hcaller
      · exact ⟨[event], events ++ [.caller], u, rfl, by rw [run_singleton, hnext], hreturned⟩
      · obtain ⟨hexiting, -⟩ := step_exiting h hnext
        have hless : remaining u.thread ≤ events.count .func := by
          rw [List.count_cons] at hcount
          by_cases hfunc : event = .func
          · subst hfunc
            simp at hcount hnearer
            omega
          · simp [hfunc] at hcount hnearer
            omega
        obtain ⟨before, after, v, hsplit, hrun, hreturned⟩ := ih hexiting hjoining hless
        refine ⟨event :: before, after, v, ?_, ?_, hreturned⟩
        · rw [List.cons_append, hsplit, List.cons_append]
        · exact run_cons_eq_ok.mpr ⟨u, hnext, hrun⟩

/-- Whoever is in `stopLoop` has set `exiting_`. -/
def Announced (s : CommonLoopThread) : Prop :=
  s.caller = .clearing ∨ s.caller = .joining → s.exiting = true

theorem Announced.step (h : Announced s) (hnext : s.step event = .ok s') : Announced s' := by
  cases event with
  | startLoop =>
      cases hnext
      split
      · unfold startLoop
        split
        · exact h
        · exact fun hcaller => (by simp at hcaller)
      · exact h
  | stopLoop =>
      cases hnext
      split
      · exact fun _ => rfl
      · exact h
  | caller =>
      simp only [CommonLoopThread.step, callerStep] at hnext
      split at hnext
      · cases hnext
        exact h
      · split at hnext
        · cases hnext
        · cases hnext
          exact fun hcaller => (by simp at hcaller)
      · rename_i hcaller
        cases hnext
        exact fun _ => h (.inl hcaller)
      · split at hnext
        · cases hnext
          exact fun hcaller => (by simp at hcaller)
        · cases hnext
          exact fun hcaller => (by simp at hcaller)
        · cases hnext
          exact h
  | func =>
      cases hnext
      intro hcaller
      rw [funcStep_caller] at hcaller
      exact (funcStep_exiting (h hcaller)).1

/-- Once `stopLoop` has been called the callback is called at most once more, and only if the thread
had found `exiting_` false before, also after another `startLoop`; and `stopLoop` returns as soon as
the thread has made four more steps. -/
theorem stopLoop_final (hrun : run step (init callback) events = .ok s) :
    (s.exiting = true → ∀ later t, run step s later = .ok t →
        t.called ≤ s.called + pendingCall s.thread) ∧
      (s.caller = .joining → ∀ later : List Event, 4 ≤ later.count .func →
        ∃ before after u, later ++ [.caller] = before ++ after ∧
          run step s before = .ok u ∧ Returned u) := by
  have hset : Announced s := invariant (fun s event s' hs hnext => Announced.step hs hnext) hrun
    (fun hcaller => (by simp [init] at hcaller))
  constructor
  · intro hexiting later t hlater
    have hstep : ∀ u event u', (u.exiting = true ∧
        u.called + pendingCall u.thread ≤ s.called + pendingCall s.thread) →
        step u event = .ok u' → u'.exiting = true ∧
          u'.called + pendingCall u'.thread ≤ s.called + pendingCall s.thread := by
      rintro u event u' ⟨hu, hcalled⟩ hnext
      obtain ⟨hexiting', hless⟩ := step_exiting hu hnext
      exact ⟨hexiting', Nat.le_trans hless hcalled⟩
    calc t.called ≤ t.called + pendingCall t.thread := Nat.le_add_right _ _
      _ ≤ s.called + pendingCall s.thread := (invariant hstep hlater ⟨hexiting, Nat.le_refl _⟩).2
  · intro hcaller later hcount
    have hremaining : remaining s.thread ≤ 4 := by
      unfold remaining
      split
      all_goals decide
    exact run_joining (hset (.inr hcaller)) hcaller (Nat.le_trans hremaining hcount)

/-- The callback has been called once, and the thread has found `exiting_` false again when
`stopLoop` is called. -/
def stopAfterTest : List Event :=
  [.startLoop, .caller, .func, .func, .func, .func, .func, .stopLoop, .caller]

theorem stopLoop_final_stopAfterTest : ∃ s,
    run step (init true) stopAfterTest = .ok s ∧ s.called = 1 ∧
      (∀ later t, run step s later = .ok t → t.called ≤ 2) ∧
      ∃ before after u, [.func, .func, .func, .func] ++ [.caller] = before ++ after ∧
        run step s before = .ok u ∧ Returned u := by
  obtain ⟨s, hrun, hcalled, hthread, hexiting, hcaller⟩ : ∃ s,
      run step (init true) stopAfterTest = .ok s ∧ s.called = 1 ∧ s.thread = some .tested ∧
        s.exiting = true ∧ s.caller = .joining := by
    apply Holds.returns
    decide +kernel
  generalize stopAfterTest = events at hrun
  obtain ⟨hnever, hreturns⟩ := stopLoop_final hrun
  refine ⟨s, hrun, hcalled, ?_, hreturns hcaller [.func, .func, .func, .func] (by decide)⟩
  intro later t hlater
  have hcalls := hnever hexiting later t hlater
  rwa [hcalled, hthread] at hcalls

/-- After `stopLoop` was called the callback is called indeed. -/
example : ∃ s, run step (init true) (stopAfterTest ++ [.func]) = .ok s ∧ s.called = 2 := by
  apply Holds.returns
  decide +kernel

end CommonLoopThread

end ToyBasket
