import Mathlib.Data.List.Nodup
import Mathlib.Tactic.Ring
import ToyBasket.Lib.Machine
import ToyBasket.Net.EventLoop

/-!
# The loop among other threads

`EventLoop::loop` of `EventLoop.cpp`, one access to what it shares with other threads at a time,
against any number of threads that call `queueInLoop` and `quit`.
-/

namespace ToyBasket

open Outcome (check Holds bind_eq_ok)

/-- A functor that a thread pushed, `number` others having been pushed before. -/
structure Pushed (F : Type) where
  thread : Nat
  number : Nat
  functor : F
deriving DecidableEq, Repr

/-- An element of `activeChannels_`. -/
inductive Active where
  | wakeupChannel
  | other
deriving DecidableEq, Repr

/-- Where in `loop` the owner of the loop is. -/
inductive Position where
  | outside
  | whileTest
  | poll
  | handleEvents (active : List Active)
  | callback (active : List Active)
  | swap
  | functors
  | functor
deriving DecidableEq, Repr

/-- The owner will come to the swap before it polls again. -/
def Position.SwapAhead : Position → Prop
  | .handleEvents _ | .callback _ | .swap => True
  | .outside | .whileTest | .poll | .functors | .functor => False

/-- Where a thread is in `queueInLoop` or `quit`. -/
inductive LoopCall where
  | idle
  | pushed (number : Nat)
  | quitting
deriving DecidableEq, Repr

/-- The owner of the loop is thread 0. `counter` is the one of the eventfd, `pushes` counts the
functors ever pushed, `swaps` the batches, and `started` are the functors called so far. -/
structure Loop (F : Type) where
  position : Position
  quit : Bool
  callingPendingFunctors : Bool
  counter : Nat
  queue : EventLoop (Pushed F)
  calls : Nat → LoopCall
  pushes : Nat
  swaps : Nat
  started : List (Pushed F)

/-- What happens next: a thread begins a call or goes on with it, the owner enters `loop` or makes
its next step there, `active` being what `poll` reports. -/
inductive LoopEvent (F : Type) where
  | queueInLoop (thread : Nat) (cb : F)
  | quit (thread : Nat)
  | advance (thread : Nat)
  | loop
  | next (active : List Active)
deriving DecidableEq, Repr

namespace Loop

variable {F : Type}

def init : Loop F where
  position := .outside
  quit := false
  callingPendingFunctors := false
  counter := 0
  queue := EventLoop.init
  calls := fun _ => .idle
  pushes := 0
  swaps := 0
  started := []

/-- The greatest value of an eventfd. -/
def maxCounter : Nat := 2 ^ 64 - 2

/-- A write that does not fit fails, and the counter stays. -/
def wakeup (loop : Loop F) : Loop F :=
  { loop with counter := if loop.counter < maxCounter then loop.counter + 1 else loop.counter }

def handleRead (loop : Loop F) : Loop F := { loop with counter := 0 }

def setCall (loop : Loop F) (thread : Nat) (call : LoopCall) : Loop F :=
  { loop with calls := Function.update loop.calls thread call }

/-- A thread may call something: the owner does so in a callback or a functor. -/
def MayCall (loop : Loop F) (thread : Nat) : Prop :=
  loop.calls thread = .idle ∧
    (thread = 0 → (∃ active, loop.position = .callback active) ∨ loop.position = .functor)

instance (loop : Loop F) (thread : Nat) : Decidable (loop.MayCall thread) :=
  have : Decidable (∃ active, loop.position = .callback active) :=
    match loop.position with
    | .callback active => .isTrue ⟨active, rfl⟩
    | .outside | .whileTest | .poll | .handleEvents _ | .swap | .functors | .functor =>
        .isFalse (by simp)
  inferInstanceAs (Decidable (_ ∧ _))

/-- The push of `queueInLoop`. -/
def push (loop : Loop F) (thread : Nat) (cb : F) : Loop F :=
  { loop with
    queue := loop.queue.queueInLoop ⟨thread, loop.pushes, cb⟩
    pushes := loop.pushes + 1
    calls := Function.update loop.calls thread (.pushed loop.pushes) }

/-- The rest of `queueInLoop` and of `quit`. -/
def advance (loop : Loop F) (thread : Nat) : Loop F :=
  match loop.calls thread with
  | .idle => loop
  | .pushed _ =>
      let loop := loop.setCall thread .idle
      if thread ≠ 0 ∨ loop.callingPendingFunctors then loop.wakeup else loop
  | .quitting =>
      let loop := loop.setCall thread .idle
      if thread ≠ 0 then loop.wakeup else loop

/-- The next step of the owner inside of `loop`. -/
def next (loop : Loop F) (active : List Active) : Except Unit (Loop F) :=
  match loop.position with
  | .outside => .error ()
  | .whileTest =>
      if loop.quit then .ok { loop with position := .outside }
      else .ok { loop with position := .poll }
  | .poll =>
      -- the kernel reports the eventfd only while it can be read
      if .wakeupChannel ∈ active ∧ loop.counter = 0 then .error ()
      else .ok { loop with position := .handleEvents active }
  | .handleEvents [] => .ok { loop with position := .swap, callingPendingFunctors := true }
  | .handleEvents (.wakeupChannel :: active) =>
      .ok { loop.handleRead with position := .handleEvents active }
  | .handleEvents (.other :: active) => .ok { loop with position := .callback active }
  | .callback active => .ok { loop with position := .handleEvents active }
  | .swap =>
      .ok { loop with
        position := .functors
        queue := loop.queue.swapFunctors
        swaps := loop.swaps + 1 }
  | .functors =>
      match loop.queue.functors with
      | [] => .ok { loop with position := .whileTest, callingPendingFunctors := false }
      | functor :: functors =>
          .ok { loop with
            position := .functor
            queue := { loop.queue with functors := functors }
            started := loop.started ++ [functor] }
  | .functor => .ok { loop with position := .functors }

/-- An event that cannot happen is an error. -/
def step (loop : Loop F) : LoopEvent F → Except Unit (Loop F)
  | .queueInLoop thread cb =>
      if loop.MayCall thread then .ok (loop.push thread cb) else .error ()
  | .quit thread =>
      if loop.MayCall thread then .ok { loop.setCall thread .quitting with quit := true }
      else .error ()
  | .advance thread => .ok (loop.advance thread)
  | .loop =>
      if loop.position = .outside then .ok { loop with position := .whileTest, quit := false }
      else .error ()
  | .next active => if loop.calls 0 = .idle then loop.next active else .error ()

variable {loop loop' : Loop F} {event : LoopEvent F} {events : List (LoopEvent F)} {thread : Nat}

/-! ### What a step does -/

theorem wakeup_counter_pos (loop : Loop F) : 0 < loop.wakeup.counter := by
  unfold wakeup
  by_cases hfits : loop.counter < maxCounter
  · simp [hfits]
  · have hmax : 0 < maxCounter := by decide
    simp only [if_neg hfits]
    omega

/-- The end of a call clears it, and writes to the eventfd after a push that has to be told. -/
theorem advance_eq (loop : Loop F) (thread : Nat) :
    ∃ counter, loop.advance thread
        = { loop with counter := counter, calls := Function.update loop.calls thread .idle } ∧
      (0 < loop.counter → 0 < counter) ∧
      ∀ number, loop.calls thread = .pushed number →
        thread ≠ 0 ∨ loop.callingPendingFunctors = true → 0 < counter := by
  unfold advance
  cases hcall : loop.calls thread with
  | idle =>
      have hself : Function.update loop.calls thread .idle = loop.calls := by
        rw [← hcall, Function.update_eq_self]
      exact ⟨loop.counter, by rw [hself], id, by simp⟩
  | pushed number =>
      by_cases hwake : thread ≠ 0 ∨ (loop.setCall thread .idle).callingPendingFunctors = true
      · simp only [if_pos hwake]
        exact ⟨_, rfl, fun _ => wakeup_counter_pos _, fun _ _ _ => wakeup_counter_pos _⟩
      · simp only [if_neg hwake]
        exact ⟨loop.counter, rfl, id, fun _ _ htold => (hwake htold).elim⟩
  | quitting =>
      by_cases hwake : thread ≠ 0
      · simp only [if_pos hwake]
        exact ⟨_, rfl, fun _ => wakeup_counter_pos _, by simp⟩
      · simp only [if_neg hwake]
        exact ⟨loop.counter, rfl, id, by simp⟩

/-- The steps of the owner, one for each place in `loop`. -/
inductive Next (loop : Loop F) : Loop F → Prop where
  | returns (hposition : loop.position = .whileTest) (hquit : loop.quit = true) :
      Next loop { loop with position := .outside }
  | goesOn (hposition : loop.position = .whileTest) (hquit : loop.quit = false) :
      Next loop { loop with position := .poll }
  | polls (active : List Active) (hposition : loop.position = .poll) :
      Next loop { loop with position := .handleEvents active }
  | handled (hposition : loop.position = .handleEvents []) :
      Next loop { loop with position := .swap, callingPendingFunctors := true }
  | reads (active : List Active)
      (hposition : loop.position = .handleEvents (.wakeupChannel :: active)) :
      Next loop { loop with position := .handleEvents active, counter := 0 }
  | calls (active : List Active) (hposition : loop.position = .handleEvents (.other :: active)) :
      Next loop { loop with position := .callback active }
  | called (active : List Active) (hposition : loop.position = .callback active) :
      Next loop { loop with position := .handleEvents active }
  | swaps (hposition : loop.position = .swap) :
      Next loop { loop with
        position := .functors
        queue := loop.queue.swapFunctors
        swaps := loop.swaps + 1 }
  | starts (functor : Pushed F) (functors : List (Pushed F)) (hposition : loop.position = .functors)
      (hbatch : loop.queue.functors = functor :: functors) :
      Next loop { loop with
        position := .functor
        queue := { loop.queue with functors := functors }
        started := loop.started ++ [functor] }
  | finished (hposition : loop.position = .functor) :
      Next loop { loop with position := .functors }
  | drained (hposition : loop.position = .functors) (hbatch : loop.queue.functors = []) :
      Next loop { loop with position := .whileTest, callingPendingFunctors := false }

theorem next_cases {active : List Active} (h : loop.next active = .ok loop') :
    Next loop loop' := by
  unfold next at h
  split at h
  · cases h
  · rename_i hposition
    split at h
    · rename_i hquit
      cases h
      exact .returns hposition hquit
    · rename_i hquit
      cases h
      exact .goesOn hposition (eq_false_of_ne_true hquit)
  · rename_i hposition
    split at h
    · cases h
    · cases h
      exact .polls active hposition
  · rename_i hposition
    cases h
    exact .handled hposition
  · rename_i active' hposition
    cases h
    exact .reads active' hposition
  · rename_i active' hposition
    cases h
    exact .calls active' hposition
  · rename_i active' hposition
    cases h
    exact .called active' hposition
  · rename_i hposition
    cases h
    exact .swaps hposition
  · rename_i hposition
    split at h
    · rename_i hbatch
      cases h
      exact .drained hposition hbatch
    · rename_i functor functors hbatch
      cases h
      exact .starts functor functors hposition hbatch
  · rename_i hposition
    cases h
    exact .finished hposition

/-- The steps of all threads. -/
inductive Step (loop : Loop F) : LoopEvent F → Loop F → Prop where
  | pushes (thread : Nat) (cb : F) (hmay : loop.MayCall thread) :
      Step loop (.queueInLoop thread cb) (loop.push thread cb)
  | quits (thread : Nat) (hmay : loop.MayCall thread) :
      Step loop (.quit thread) { loop.setCall thread .quitting with quit := true }
  | advances (thread : Nat) : Step loop (.advance thread) (loop.advance thread)
  | enters (hposition : loop.position = .outside) :
      Step loop .loop { loop with position := .whileTest, quit := false }
  | next (active : List Active) (hidle : loop.calls 0 = .idle) {after : Loop F}
      (hnext : Next loop after) : Step loop (.next active) after

theorem step_cases (h : step loop event = .ok loop') : Step loop event loop' := by
  cases event with
  | queueInLoop thread cb =>
      simp only [step] at h
      split at h
      · rename_i hmay
        cases h
        exact .pushes thread cb hmay
      · cases h
  | quit thread =>
      simp only [step] at h
      split at h
      · rename_i hmay
        cases h
        exact .quits thread hmay
      · cases h
  | advance thread =>
      cases h
      exact .advances thread
  | loop =>
      simp only [step] at h
      split at h
      · rename_i hposition
        cases h
        exact .enters hposition
      · cases h
  | next active =>
      simp only [step] at h
      split at h
      · rename_i hidle
        exact .next active hidle (next_cases h)
      · cases h

/-! ### Order -/

/-- The functors that the events push, `number` others having been pushed before. -/
def pushedFrom (number : Nat) : List (LoopEvent F) → List (Pushed F)
  | [] => []
  | .queueInLoop thread cb :: events => ⟨thread, number, cb⟩ :: pushedFrom (number + 1) events
  | _ :: events => pushedFrom number events

/-- The functors that the events push, in that order. -/
def pushedIn (events : List (LoopEvent F)) : List (Pushed F) := pushedFrom 0 events

theorem le_number_of_mem_pushedFrom {number : Nat} {p : Pushed F}
    (h : p ∈ pushedFrom number events) : number ≤ p.number := by
  fun_induction pushedFrom number events with
  | case1 => cases h
  | case2 number thread cb events ih =>
      obtain rfl | h := List.mem_cons.mp h
      · exact Nat.le_refl number
      · exact Nat.le_of_succ_le (ih h)
  | case3 number event events _ ih => exact ih h

theorem number_lt_of_mem_pushedFrom {number : Nat} {p : Pushed F}
    (h : p ∈ pushedFrom number events) : p.number < number + (pushedFrom number events).length := by
  fun_induction pushedFrom number events with
  | case1 => cases h
  | case2 number thread cb events ih =>
      rw [List.length_cons]
      obtain rfl | h := List.mem_cons.mp h
      · exact Nat.lt_add_of_pos_right (Nat.succ_pos _)
      · have hlater := ih h
        omega
  | case3 number event events _ ih => exact ih h

theorem nodup_pushedFrom (number : Nat) (events : List (LoopEvent F)) :
    (pushedFrom number events).Nodup := by
  fun_induction pushedFrom number events with
  | case1 => exact List.nodup_nil
  | case2 number thread cb events ih =>
      rw [List.nodup_cons]
      refine ⟨?_, ih⟩
      intro hmem
      exact absurd (le_number_of_mem_pushedFrom hmem) (Nat.not_succ_le_self number)
  | case3 number event events _ ih => exact ih

theorem nodup_pushedIn (events : List (LoopEvent F)) : (pushedIn events).Nodup :=
  nodup_pushedFrom 0 events

/-- All functors that have been pushed, those that were called first. -/
def contents (loop : Loop F) : List (Pushed F) := loop.started ++ loop.queue.inOrder

theorem contents_push (loop : Loop F) (thread : Nat) (cb : F) :
    (loop.push thread cb).contents = loop.contents ++ [⟨thread, loop.pushes, cb⟩] := by
  simp [push, contents]

theorem contents_next (h : Next loop loop') :
    loop'.contents = loop.contents ∧ loop'.pushes = loop.pushes := by
  cases h with
  | swaps => simp [contents]
  | starts functor functors _ hbatch => simp [contents, EventLoop.inOrder, hbatch]
  | _ => exact ⟨rfl, rfl⟩

/-- What has been pushed is what had been pushed before and what the event pushes. -/
theorem contents_step (h : step loop event = .ok loop') :
    loop'.contents = loop.contents ++ pushedFrom loop.pushes [event] ∧
      loop'.pushes = loop.pushes + (pushedFrom loop.pushes [event]).length := by
  cases step_cases h with
  | pushes thread cb _ => exact ⟨contents_push loop thread cb, rfl⟩
  | quits => exact ⟨(List.append_nil _).symm, rfl⟩
  | advances thread =>
      obtain ⟨counter, hadvance, -⟩ := loop.advance_eq thread
      rw [hadvance]
      exact ⟨(List.append_nil _).symm, rfl⟩
  | enters => exact ⟨(List.append_nil _).symm, rfl⟩
  | next _ _ hnext =>
      obtain ⟨hcontents, hpushes⟩ := contents_next hnext
      exact ⟨by rw [hcontents]; exact (List.append_nil _).symm, hpushes⟩

theorem pushedFrom_cons (number : Nat) (event : LoopEvent F) (events : List (LoopEvent F)) :
    pushedFrom number (event :: events) = pushedFrom number [event]
      ++ pushedFrom (number + (pushedFrom number [event]).length) events := by
  cases event with
  | _ => rfl

theorem contents_run (hrun : Machine.run step loop events = .ok loop') :
    loop'.contents = loop.contents ++ pushedFrom loop.pushes events ∧
      loop'.pushes = loop.pushes + (pushedFrom loop.pushes events).length := by
  induction events generalizing loop with
  | nil =>
      cases hrun
      exact ⟨(List.append_nil _).symm, rfl⟩
  | cons event events ih =>
      obtain ⟨between, hnext, hrest⟩ := Machine.run_cons_eq_ok.mp hrun
      obtain ⟨hcontents, hpushes⟩ := contents_step hnext
      obtain ⟨hcontents', hpushes'⟩ := ih hrest
      rw [hcontents', hpushes', hcontents, hpushes, pushedFrom_cons _ event events,
        List.append_assoc, List.length_append, Nat.add_assoc]
      exact ⟨rfl, rfl⟩

theorem contents_eq (hrun : Machine.run step init events = .ok loop) :
    loop.contents = pushedIn events ∧ loop.pushes = (pushedIn events).length := by
  simpa [init, contents, pushedIn] using contents_run hrun

/-! ### Batches -/

/-- Without a further swap what is pending stays pending. -/
theorem pending_step (h : step loop event = .ok loop') :
    loop.swaps ≤ loop'.swaps ∧
      (loop'.swaps = loop.swaps → loop.queue.pendingFunctors ⊆ loop'.queue.pendingFunctors) := by
  cases step_cases h with
  | pushes thread cb _ => exact ⟨Nat.le_refl _, fun _ => List.subset_append_left _ _⟩
  | quits => exact ⟨Nat.le_refl _, fun _ => List.Subset.refl _⟩
  | advances thread =>
      obtain ⟨counter, hadvance, -⟩ := loop.advance_eq thread
      rw [hadvance]
      exact ⟨Nat.le_refl _, fun _ => List.Subset.refl _⟩
  | enters => exact ⟨Nat.le_refl _, fun _ => List.Subset.refl _⟩
  | next _ _ hnext =>
      cases hnext with
      | swaps => exact ⟨Nat.le_succ _, fun hsame => absurd hsame (Nat.succ_ne_self _)⟩
      | _ => exact ⟨Nat.le_refl _, fun _ => List.Subset.refl _⟩

theorem pending_run (hrun : Machine.run step loop events = .ok loop') :
    loop.swaps ≤ loop'.swaps ∧
      (loop'.swaps = loop.swaps → loop.queue.pendingFunctors ⊆ loop'.queue.pendingFunctors) := by
  induction events generalizing loop with
  | nil =>
      cases hrun
      exact ⟨Nat.le_refl _, fun _ => List.Subset.refl _⟩
  | cons event events ih =>
      obtain ⟨between, hnext, hrest⟩ := Machine.run_cons_eq_ok.mp hrun
      obtain ⟨hle, hsub⟩ := pending_step hnext
      obtain ⟨hle', hsub'⟩ := ih hrest
      refine ⟨Nat.le_trans hle hle', ?_⟩
      intro hsame
      exact List.Subset.trans (hsub (by omega)) (hsub' (by omega))

/-- The functors called so far, the rest of the batch and the pending ones are those pushed, in
order and each once, and one pushed while a batch runs is not called before the next one. -/
theorem functors_fifo (hrun : Machine.run step init events = .ok loop) :
    loop.started ++ loop.queue.functors ++ loop.queue.pendingFunctors = pushedIn events ∧
      (pushedIn events).Nodup ∧
      ∀ before thread cb after between, events = before ++ .queueInLoop thread cb :: after →
        Machine.run step init before = .ok between → between.swaps = loop.swaps →
        ⟨thread, (pushedIn before).length, cb⟩ ∉ loop.started ++ loop.queue.functors := by
  have hcontents : loop.started ++ loop.queue.functors ++ loop.queue.pendingFunctors
      = pushedIn events := by
    rw [← (contents_eq hrun).1, contents, EventLoop.inOrder, List.append_assoc]
  have hnodup := nodup_pushedIn events
  refine ⟨hcontents, hnodup, ?_⟩
  rintro before thread cb after between rfl hbefore hsame hmem
  rw [Machine.run_append, hbefore, Outcome.ok_bind] at hrun
  obtain ⟨pushed, hpush, hrest⟩ := Machine.run_cons_eq_ok.mp hrun
  have hpending : ⟨thread, (pushedIn before).length, cb⟩ ∈ loop.queue.pendingFunctors := by
    cases step_cases hpush with
    | pushes _ _ _ =>
        apply (pending_run hrest).2 hsame.symm
        rw [← (contents_eq hbefore).2]
        exact List.mem_append_right _ (List.mem_singleton_self _)
  rw [← hcontents] at hnodup
  exact (List.nodup_append.mp hnodup).2.2 _ hmem _ hpending rfl

/-- Another thread pushes while a functor runs. -/
theorem functors_fifo_duringFunctor :
    ∃ loop : Loop Unit,
      Machine.run step init [.loop, .queueInLoop 1 (), .next [], .next [], .next [], .next [],
        .next [], .queueInLoop 2 (), .next []] = .ok loop ∧
      ⟨2, 1, ()⟩ ∉ loop.started ++ loop.queue.functors := by
  refine ⟨_, rfl, ?_⟩
  have hrun : Machine.run step (init : Loop Unit) [.loop, .queueInLoop 1 (), .next [], .next [],
    .next [], .next [], .next [], .queueInLoop 2 (), .next []] = .ok _ := rfl
  exact (functors_fifo hrun).2.2 [.loop, .queueInLoop 1 (), .next [], .next [], .next [], .next [],
    .next []] 2 () [.next []] _ rfl rfl rfl

/-! ### Wakeups -/

/-- A functor that waits is about to be told, or the eventfd tells, or the owner will come to it. -/
structure Awake (loop : Loop F) : Prop where
  told : ∀ p ∈ loop.queue.pendingFunctors, loop.calls p.thread = .pushed p.number ∨
    0 < loop.counter ∨ loop.position.SwapAhead
  owner : loop.calls 0 = .idle ∨ (∃ active, loop.position = .callback active) ∨
    loop.position = .functor
  calling : loop.position = .swap ∨ loop.position = .functors ∨ loop.position = .functor →
    loop.callingPendingFunctors = true
  batch : loop.queue.functors = [] ∨ loop.position = .functors ∨ loop.position = .functor

theorem awake_init : (init : Loop F).Awake where
  told := by simp [init, EventLoop.init]
  owner := .inl rfl
  calling := by simp [init]
  batch := .inl rfl

theorem Awake.owner_update {call : LoopCall} (h : loop.Awake)
    (hcall : thread = 0 → call = .idle ∨ (∃ active, loop.position = .callback active) ∨
      loop.position = .functor) :
    Function.update loop.calls thread call 0 = .idle ∨
      (∃ active, loop.position = .callback active) ∨ loop.position = .functor := by
  by_cases hthread : thread = 0
  · subst hthread
    rw [Function.update_self]
    exact hcall rfl
  · rw [Function.update_of_ne (Ne.symm hthread)]
    exact h.owner

theorem Awake.told_update (h : loop.Awake) (hidle : loop.calls thread = .idle) (call : LoopCall) :
    ∀ p ∈ loop.queue.pendingFunctors,
      Function.update loop.calls thread call p.thread = .pushed p.number ∨
        0 < loop.counter ∨ loop.position.SwapAhead := by
  intro p hp
  apply (h.told p hp).imp_left
  intro hcall
  have hother : p.thread ≠ thread := by
    intro hsame
    rw [hsame, hidle] at hcall
    cases hcall
  rw [Function.update_of_ne hother, hcall]

theorem Awake.push (h : loop.Awake) (hmay : loop.MayCall thread) (cb : F) :
    (loop.push thread cb).Awake where
  told := by
    intro p hp
    obtain hp | hp := List.mem_append.mp hp
    · exact h.told_update hmay.1 _ p hp
    · rw [List.mem_singleton.mp hp]
      exact .inl (Function.update_self _ _ _)
  owner := h.owner_update fun hthread => .inr (hmay.2 hthread)
  calling := h.calling
  batch := h.batch

theorem Awake.quit (h : loop.Awake) (hmay : loop.MayCall thread) :
    Awake { loop.setCall thread .quitting with quit := true } where
  told := h.told_update hmay.1 _
  owner := h.owner_update fun hthread => .inr (hmay.2 hthread)
  calling := h.calling
  batch := h.batch

theorem Awake.advance (h : loop.Awake) (thread : Nat) : (loop.advance thread).Awake := by
  obtain ⟨counter, hadvance, hkept, htold⟩ := loop.advance_eq thread
  rw [hadvance]
  refine ⟨?_, h.owner_update fun _ => .inl rfl, h.calling, h.batch⟩
  intro p hp
  obtain hcall | hcounter | hahead := h.told p hp
  · by_cases hsame : p.thread = thread
    · rw [hsame] at hcall
      by_cases howner : thread = 0
      · obtain hidle | ⟨active, hposition⟩ | hposition := h.owner
        · rw [howner, hidle] at hcall
          cases hcall
        · right; right
          simp [hposition, Position.SwapAhead]
        · exact .inr (.inl (htold p.number hcall (.inr (h.calling (.inr (.inr hposition))))))
      · exact .inr (.inl (htold p.number hcall (.inl howner)))
    · exact .inl ((Function.update_of_ne hsame _ _).trans hcall)
  · exact .inr (.inl (hkept hcounter))
  · exact .inr (.inr hahead)

theorem awake_of_swapAhead (hahead : loop.position.SwapAhead) (hidle : loop.calls 0 = .idle)
    (hcalling : loop.position = .swap → loop.callingPendingFunctors = true)
    (hbatch : loop.queue.functors = []) : loop.Awake where
  told := fun _ _ => .inr (.inr hahead)
  owner := .inl hidle
  calling := by
    rintro (hposition | hposition | hposition)
    · exact hcalling hposition
    · simp [hposition, Position.SwapAhead] at hahead
    · simp [hposition, Position.SwapAhead] at hahead
  batch := .inl hbatch

theorem Awake.next (h : loop.Awake) (hidle : loop.calls 0 = .idle) (hnext : Next loop loop') :
    loop'.Awake := by
  have htold : ¬ loop.position.SwapAhead → ∀ p ∈ loop.queue.pendingFunctors,
      loop.calls p.thread = .pushed p.number ∨ 0 < loop.counter := fun hahead p hp =>
    (h.told p hp).imp_right fun hrest => hrest.resolve_right hahead
  cases hnext with
  | returns hposition hquit =>
      simp only [hposition, Position.SwapAhead] at htold
      exact ⟨fun p hp => (htold id p hp).imp_right .inl, .inl hidle, by simp,
        by simpa [hposition] using h.batch⟩
  | goesOn hposition hquit =>
      simp only [hposition, Position.SwapAhead] at htold
      exact ⟨fun p hp => (htold id p hp).imp_right .inl, .inl hidle, by simp,
        by simpa [hposition] using h.batch⟩
  | polls active hposition =>
      exact awake_of_swapAhead trivial hidle (by simp) (by simpa [hposition] using h.batch)
  | handled hposition =>
      exact awake_of_swapAhead trivial hidle (by simp) (by simpa [hposition] using h.batch)
  | reads active hposition =>
      exact awake_of_swapAhead trivial hidle (by simp) (by simpa [hposition] using h.batch)
  | calls active hposition =>
      exact awake_of_swapAhead trivial hidle (by simp) (by simpa [hposition] using h.batch)
  | called active hposition =>
      exact awake_of_swapAhead trivial hidle (by simp) (by simpa [hposition] using h.batch)
  | swaps hposition =>
      have hempty : loop.queue.functors = [] := by simpa [hposition] using h.batch
      refine ⟨?_, .inl hidle, fun _ => h.calling (.inl hposition), .inr (.inl rfl)⟩
      simp [EventLoop.swapFunctors, hempty]
  | starts functor functors hposition hcons =>
      simp only [hposition, Position.SwapAhead] at htold
      exact ⟨fun p hp => (htold id p hp).imp_right .inl, .inl hidle,
        fun _ => h.calling (.inr (.inl hposition)), .inr (.inr rfl)⟩
  | finished hposition =>
      simp only [hposition, Position.SwapAhead] at htold
      exact ⟨fun p hp => (htold id p hp).imp_right .inl, .inl hidle,
        fun _ => h.calling (.inr (.inr hposition)), .inr (.inl rfl)⟩
  | drained hposition hempty =>
      simp only [hposition, Position.SwapAhead] at htold
      exact ⟨fun p hp => (htold id p hp).imp_right .inl, .inl hidle, by simp, .inl hempty⟩

theorem Awake.step (h : loop.Awake) (hstep : step loop event = .ok loop') : loop'.Awake := by
  cases step_cases hstep with
  | pushes thread cb hmay => exact h.push hmay cb
  | quits thread hmay => exact h.quit hmay
  | advances thread => exact h.advance thread
  | enters hposition =>
      have htold : ∀ p ∈ loop.queue.pendingFunctors,
          loop.calls p.thread = .pushed p.number ∨ 0 < loop.counter ∨ False := by
        simpa [hposition, Position.SwapAhead] using h.told
      have hbatch : loop.queue.functors = [] := by simpa [hposition] using h.batch
      have howner : loop.calls 0 = .idle := by simpa [hposition] using h.owner
      exact ⟨htold, .inl howner, by simp, .inl hbatch⟩
  | next active hidle hnext => exact h.next hidle hnext

theorem awake_run (hrun : Machine.run Loop.step init events = .ok loop) : loop.Awake :=
  Machine.invariant (fun _ _ _ h hstep => h.step hstep) hrun awake_init

/-- Where the owner is about to block although functors wait, each was pushed by another thread that
has still to write to the eventfd. -/
theorem poll_wakes (hrun : Machine.run step init events = .ok loop)
    (hposition : loop.position = .poll) (hcounter : loop.counter = 0) :
    ∀ p ∈ loop.queue.pendingFunctors,
      p.thread ≠ 0 ∧ loop.calls p.thread = .pushed p.number := by
  have hawake := awake_run hrun
  intro p hp
  have hcall : loop.calls p.thread = .pushed p.number := by
    simpa [hposition, hcounter, Position.SwapAhead] using hawake.told p hp
  have howner : loop.calls 0 = .idle := by simpa [hposition] using hawake.owner
  refine ⟨?_, hcall⟩
  intro hthread
  rw [hthread, howner] at hcall
  cases hcall

/-- A thread has pushed and not yet written. -/
theorem poll_wakes_afterPush :
    ∃ loop : Loop Unit,
      Machine.run step init [.loop, .next [], .queueInLoop 1 ()] = .ok loop ∧
        ∀ p ∈ loop.queue.pendingFunctors,
          p.thread ≠ 0 ∧ loop.calls p.thread = .pushed p.number := by
  refine ⟨_, rfl, ?_⟩
  apply poll_wakes (rfl : Machine.run step init [.loop, .next [], .queueInLoop 1 ()] = _)
  · rfl
  · rfl

/-! ### The end of the loop -/

section Quit

variable {p : Pushed F}

/-- `p` is still called before the loop ends: it is not pending any more, or the owner has yet to
swap. -/
def WillCall (loop : Loop F) (p : Pushed F) : Prop :=
  p ∉ loop.queue.pendingFunctors ∨ loop.position = .poll ∨ loop.position.SwapAhead

theorem willCall_step (hawake : loop.Awake) (hp : p.number < loop.pushes)
    (hcall : loop.WillCall p) (h : step loop event = .ok loop') : loop'.WillCall p := by
  cases step_cases h with
  | pushes thread cb hmay =>
      apply hcall.imp_left
      intro hpending hmem
      obtain hmem | hmem := List.mem_append.mp hmem
      · exact hpending hmem
      · rw [List.mem_singleton.mp hmem] at hp
        exact absurd hp (Nat.lt_irrefl _)
  | quits => exact hcall
  | advances thread =>
      obtain ⟨counter, hadvance, -⟩ := loop.advance_eq thread
      rw [hadvance]
      exact hcall
  | enters hposition =>
      exact .inl (hcall.resolve_right (by simp [hposition, Position.SwapAhead]))
  | next active hidle hnext =>
      cases hnext with
      | returns hposition =>
          exact .inl (hcall.resolve_right (by simp [hposition, Position.SwapAhead]))
      | goesOn => exact .inr (.inl rfl)
      | polls => exact .inr (.inr trivial)
      | handled => exact .inr (.inr trivial)
      | reads => exact .inr (.inr trivial)
      | calls => exact .inr (.inr trivial)
      | called => exact .inr (.inr trivial)
      | swaps hposition =>
          have hempty : loop.queue.functors = [] := by simpa [hposition] using hawake.batch
          left
          simp [EventLoop.swapFunctors, hempty]
      | starts functor functors hposition =>
          exact .inl (hcall.resolve_right (by simp [hposition, Position.SwapAhead]))
      | finished hposition =>
          exact .inl (hcall.resolve_right (by simp [hposition, Position.SwapAhead]))
      | drained hposition =>
          exact .inl (hcall.resolve_right (by simp [hposition, Position.SwapAhead]))

/-- `quit_` is set, `p` is pending and the owner has no swap before it. -/
structure Dropped (loop : Loop F) (p : Pushed F) : Prop where
  quit : loop.quit = true
  pending : p ∈ loop.queue.pendingFunctors
  position : ¬ (loop.position = .poll ∨ loop.position.SwapAhead)

theorem Dropped.step (hdropped : loop.Dropped p) (hevent : event ≠ .loop)
    (h : step loop event = .ok loop') : loop'.Dropped p := by
  obtain ⟨hquit, hpending, hplace⟩ := hdropped
  cases step_cases h with
  | pushes thread cb hmay => exact ⟨hquit, List.mem_append_left _ hpending, hplace⟩
  | quits => exact ⟨rfl, hpending, hplace⟩
  | advances thread =>
      obtain ⟨counter, hadvance, -⟩ := loop.advance_eq thread
      rw [hadvance]
      exact ⟨hquit, hpending, hplace⟩
  | enters => exact (hevent rfl).elim
  | next active hidle hnext =>
      cases hnext with
      | returns => exact ⟨hquit, hpending, by simp [Position.SwapAhead]⟩
      | goesOn _ hgoesOn =>
          rw [hquit] at hgoesOn
          cases hgoesOn
      | polls _ hposition => exact (hplace (.inl hposition)).elim
      | handled hposition => simp [hposition, Position.SwapAhead] at hplace
      | reads _ hposition => simp [hposition, Position.SwapAhead] at hplace
      | calls _ hposition => simp [hposition, Position.SwapAhead] at hplace
      | called _ hposition => simp [hposition, Position.SwapAhead] at hplace
      | swaps hposition => simp [hposition, Position.SwapAhead] at hplace
      | starts => exact ⟨hquit, hpending, by simp [Position.SwapAhead]⟩
      | finished => exact ⟨hquit, hpending, by simp [Position.SwapAhead]⟩
      | drained => exact ⟨hquit, hpending, by simp [Position.SwapAhead]⟩

theorem Dropped.run (hdropped : loop.Dropped p) (honce : .loop ∉ events)
    (hrun : Machine.run Loop.step loop events = .ok loop') : loop'.Dropped p := by
  have hevents : ∀ event ∈ events, event ≠ .loop := fun event hmem hloop => by
    rw [hloop] at hmem
    exact honce hmem
  apply Machine.invariant_of_allowed _ hrun hevents hdropped
  exact fun _ _ _ hevent h hstep => h.step hevent hstep

theorem willCall_run (hawake : loop.Awake) (hp : p.number < loop.pushes) (hcall : loop.WillCall p)
    (hrun : Machine.run step loop events = .ok loop') : loop'.WillCall p := by
  have hkept : loop'.Awake ∧ p.number < loop'.pushes ∧ loop'.WillCall p := by
    apply Machine.invariant _ hrun ⟨hawake, hp, hcall⟩
    intro loop event loop' ⟨hawake, hp, hcall⟩ hstep
    refine ⟨hawake.step hstep, ?_, willCall_step hawake hp hcall hstep⟩
    have hpushes := (contents_step hstep).2
    omega
  exact hkept.2.2

/-- What had been pushed before `quit` is called before `loop` returns if and only if, when `quit_`
is set, it is not pending any more or the owner has yet to swap. -/
theorem called_iff_willCall {before after : List (LoopEvent F)}
    (hbefore : Machine.run step init before = .ok loop) (hp : p ∈ pushedIn before)
    (hafter : Machine.run step loop (.quit p.thread :: after) = .ok loop')
    (honce : .loop ∉ after) (hreturned : loop'.position = .outside) :
    p ∈ loop'.started ↔ loop.WillCall p := by
  obtain ⟨quitting, hquit, hrest⟩ := Machine.run_cons_eq_ok.mp hafter
  have hall : Machine.run step init (before ++ .quit p.thread :: after) = .ok loop' := by
    rw [Machine.run_append, hbefore, Outcome.ok_bind, hafter]
  have hawake := awake_run hbefore
  have hnumber : p.number < loop.pushes := by
    rw [(contents_eq hbefore).2, ← Nat.zero_add (pushedIn before).length]
    exact number_lt_of_mem_pushedFrom hp
  constructor
  · intro hstarted
    by_contra hnot
    obtain ⟨hpending, hplace⟩ := not_or.mp hnot
    have hdropped : quitting.Dropped p := by
      cases step_cases hquit with
      | quits => exact ⟨rfl, not_not.mp hpending, hplace⟩
    have hend := hdropped.run honce hrest
    have hnodup := nodup_pushedIn (before ++ .quit p.thread :: after)
    rw [← (functors_fifo hall).1] at hnodup
    exact (List.nodup_append.mp hnodup).2.2 p (List.mem_append_left _ hstarted) p hend.pending rfl
  · intro hcall
    have hend := willCall_run hawake hnumber hcall hafter
    have hpending : p ∉ loop'.queue.pendingFunctors :=
      hend.resolve_right (by simp [hreturned, Position.SwapAhead])
    have hempty : loop'.queue.functors = [] := by
      simpa [hreturned] using (awake_run hall).batch
    have hmem : p ∈ loop'.contents := by
      rw [(contents_run hafter).1, (contents_eq hbefore).1]
      exact List.mem_append_left _ hp
    simpa [contents, EventLoop.inOrder, hempty, hpending] using hmem

/-- The thread pushes and quits while the loop polls. -/
theorem called_iff_willCall_inPoll :
    ∃ loop loop' : Loop Unit,
      Machine.run step init [.loop, .next [], .queueInLoop 1 (), .advance 1] = .ok loop ∧
        Machine.run step loop [.quit 1, .next [.wakeupChannel], .next [], .next [], .next [],
          .next [], .next [], .next [], .next []] = .ok loop' ∧
        (⟨1, 0, ()⟩ ∈ loop'.started ↔ loop.WillCall ⟨1, 0, ()⟩) := by
  refine ⟨_, _, rfl, rfl, ?_⟩
  exact called_iff_willCall
    (rfl : Machine.run step init [.loop, .next [], .queueInLoop 1 (), .advance 1] = _)
    (by decide)
    (rfl : Machine.run step _ [.quit 1, .next [.wakeupChannel], .next [], .next [], .next [],
      .next [], .next [], .next [], .next []] = _)
    (by decide) rfl

/-- The owner is past the swap when the thread pushes and quits. -/
theorem not_called_pastSwap :
    ¬ ∀ (before after : List (LoopEvent Unit)) (loop loop' : Loop Unit) (p : Pushed Unit),
      Machine.run step init before = .ok loop → p ∈ pushedIn before →
      loop.position ≠ .outside →
      Machine.run step loop (.quit p.thread :: after) = .ok loop' → .loop ∉ after →
      loop'.position = .outside → p ∈ loop'.started := by
  intro h
  have hcalled := h [.loop, .next [], .next [], .next [], .next [], .queueInLoop 1 (), .advance 1]
    [.next [], .next []] _ _ ⟨1, 0, ()⟩ rfl (by decide) (by decide) rfl (by decide) rfl
  exact absurd hcalled (by decide)

end Quit

end Loop

end ToyBasket
