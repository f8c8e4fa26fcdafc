import ToyBasket.Buffer
import ToyBasket.Lib.Machine
import Mathlib.Logic.Function.Basic

/-!
# Starting and stopping the timers

`asyncWorkStart`, `syncWorkStart` and `workStop` from any threads. `syncWorkStart` writes
`threadId_`, tests `isStart_` and only then sets it, and a worker that was stopped leaves its loop
at its next test, after the sleep that ends a pass.
-/

namespace ToyBasket

open Machine

/-- Where a thread is in a call of `syncWorkStart`: at its beginning, after the write of
`threadId_`, after a load of `isStart_` that gave false, in the loop at its test, in a pass or in
its sleep. -/
inductive WorkerPlace where
  | entered
  | identified
  | loaded
  | testing
  | inPass
  | asleep
deriving DecidableEq, Repr

namespace WorkerPlace

/-- Between `isStart_.exchange(true)` and the exit from the loop. -/
def InLoop : WorkerPlace → Prop
  | .testing => True
  | .inPass => True
  | .asleep => True
  | _ => False

/-- In `loopForExecute`. -/
def Executes : WorkerPlace → Prop
  | .inPass => True
  | .asleep => True
  | _ => False

end WorkerPlace

/-- `places` has for each thread the calls of `syncWorkStart` it is in, the innermost first: an
action of a timer may call it again. `spawned` counts the threads that `asyncWorkStart` is about to
make. -/
structure TimerWorkers where
  isStart : Bool
  threadId : Option Nat
  spawned : Nat
  places : Nat → List WorkerPlace

namespace TimerWorkers

inductive Event where
  | asyncWorkStart
  | spawn (thread : Nat)
  | syncWorkStart (thread : Nat)
  | workStop
  | writeThreadId (thread : Nat)
  | loadIsStart (thread : Nat)
  | exchange (thread : Nat)
  | test (thread : Nat)
  | endPass (thread : Nat)
  | wake (thread : Nat)
deriving DecidableEq, Repr

def init : TimerWorkers where
  isStart := false
  threadId := none
  spawned := 0
  places := fun _ => []

def goTo (s : TimerWorkers) (thread : Nat) (places : List WorkerPlace) : TimerWorkers :=
  { s with places := Function.update s.places thread places }

/-- A thread that has no call to make, or runs the action of a timer. -/
def MayCall : List WorkerPlace → Prop
  | [] => True
  | place :: _ => place = .inPass

instance (places : List WorkerPlace) : Decidable (MayCall places) :=
  match places with
  | [] => .isTrue trivial
  | place :: _ => inferInstanceAs (Decidable (place = .inPass))

/-- A step that the thread is not at has no effect. -/
def next (s : TimerWorkers) : Event → TimerWorkers
  | .asyncWorkStart => if s.isStart then s else { s with spawned := s.spawned + 1 }
  | .spawn thread =>
      if 0 < s.spawned ∧ s.places thread = [] then
        { s with spawned := s.spawned - 1 }.goTo thread [.entered]
      else s
  | .syncWorkStart thread =>
      if MayCall (s.places thread) then s.goTo thread (.entered :: s.places thread) else s
  | .workStop => { s with isStart := false }
  | .writeThreadId thread =>
      match s.places thread with
      | .entered :: outer => { s with threadId := some thread }.goTo thread (.identified :: outer)
      | _ => s
  | .loadIsStart thread =>
      match s.places thread with
      | .identified :: outer => s.goTo thread (if s.isStart then outer else .loaded :: outer)
      | _ => s
  | .exchange thread =>
      match s.places thread with
      | .loaded :: outer => { s with isStart := true }.goTo thread (.testing :: outer)
      | _ => s
  | .test thread =>
      match s.places thread with
      | .testing :: outer => s.goTo thread (if s.isStart then .inPass :: outer else outer)
      | _ => s
  | .endPass thread =>
      match s.places thread with
      | .inPass :: outer => s.goTo thread ((if s.isStart then .asleep else .testing) :: outer)
      | _ => s
  | .wake thread =>
      match s.places thread with
      | .asleep :: outer => s.goTo thread (.testing :: outer)
      | _ => s

def step (s : TimerWorkers) (event : Event) : Except Fault TimerWorkers := .ok (s.next event)

def InLoop (s : TimerWorkers) (thread : Nat) : Prop := ∃ place ∈ s.places thread, place.InLoop

def Executes (s : TimerWorkers) (thread : Nat) : Prop := ∃ place ∈ s.places thread, place.Executes

/-- One thread at most is in the loop, and while it executes a pass `threadId_` is its own. -/
structure Single (s : TimerWorkers) : Prop where
  one : ∀ thread thread', s.InLoop thread → s.InLoop thread' → thread = thread'
  own : ∀ thread, s.Executes thread → s.threadId = some thread

/-- A thread sets `isStart_` while no other is in the loop, writes `threadId_` while no other
executes a pass, and begins a pass while `threadId_` is still its own. -/
def Alone (s : TimerWorkers) : Event → Prop
  | .exchange thread =>
      (s.places thread).head? = some .loaded → ∀ other, other ≠ thread → ¬ s.InLoop other
  | .writeThreadId thread =>
      (s.places thread).head? = some .entered → ∀ other, other ≠ thread → ¬ s.Executes other
  | .test thread =>
      (s.places thread).head? = some .testing → s.isStart → s.threadId = some thread
  | _ => True

theorem single_init : Single init where
  one := by
    rintro thread thread' ⟨place, hmem, -⟩
    cases hmem
  own := by
    rintro thread ⟨place, hmem, -⟩
    cases hmem

section Step

variable {s s' : TimerWorkers} {thread other : Nat} {places outer : List WorkerPlace}
  {place : WorkerPlace}

theorem inLoop_goTo_of_ne (h : other ≠ thread) :
    (s.goTo thread places).InLoop other ↔ s.InLoop other := by
  unfold InLoop goTo
  simp only [Function.update_of_ne h]

theorem executes_goTo_of_ne (h : other ≠ thread) :
    (s.goTo thread places).Executes other ↔ s.Executes other := by
  unfold Executes goTo
  simp only [Function.update_of_ne h]

/-- A thread goes on: it was in the loop before or finds it free, and executes a pass under its own
id. -/
theorem Single.goTo (h : Single s)
    (hloop : (s.goTo thread places).InLoop thread →
      s.InLoop thread ∨ ∀ other, other ≠ thread → ¬ s.InLoop other)
    (hexecutes : (s.goTo thread places).Executes thread →
      s.Executes thread ∨ s.threadId = some thread) : Single (s.goTo thread places) where
  one := by
    have hother : ∀ other, other ≠ thread → (s.goTo thread places).InLoop thread →
        (s.goTo thread places).InLoop other → False := by
      intro other hne hself hin
      rw [inLoop_goTo_of_ne hne] at hin
      obtain hbefore | hfree := hloop hself
      · exact hne (h.one other thread hin hbefore)
      · exact hfree other hne hin
    intro first second hfirst hsecond
    by_cases hf : first = thread
    · subst hf
      by_contra hne
      exact hother second (Ne.symm hne) hfirst hsecond
    · by_cases hs : second = thread
      · subst hs
        exact (hother first hf hsecond hfirst).elim
      · rw [inLoop_goTo_of_ne hf] at hfirst
        rw [inLoop_goTo_of_ne hs] at hsecond
        exact h.one first second hfirst hsecond
  own := by
    intro other hother
    by_cases ho : other = thread
    · subst ho
      exact (hexecutes hother).elim (h.own other) id
    · rw [executes_goTo_of_ne ho] at hother
      exact h.own other hother

theorem inLoop_goTo_self :
    (s.goTo thread places).InLoop thread ↔ ∃ place ∈ places, place.InLoop := by
  unfold InLoop goTo
  simp only [Function.update_self]

theorem executes_goTo_self :
    (s.goTo thread places).Executes thread ↔ ∃ place ∈ places, place.Executes := by
  unfold Executes goTo
  simp only [Function.update_self]

/-- The innermost call of a thread goes on or returns, and does not enter the loop. -/
theorem Single.move (h : Single s) (hplace : s.places thread = place :: outer)
    (hplaces : ∀ next ∈ places, next ∈ outer ∨ ((next.InLoop → place.InLoop) ∧
      (next.Executes → place.Executes ∨ s.threadId = some thread))) :
    Single (s.goTo thread places) := by
  have hsome : ∀ next, next ∈ outer ∨ next = place → next ∈ s.places thread := by
    rintro next (hmem | rfl)
    · rw [hplace]
      exact List.mem_cons_of_mem _ hmem
    · rw [hplace]
      exact List.mem_cons_self
  apply h.goTo
  · intro hin
    obtain ⟨next, hmem, hloop⟩ := inLoop_goTo_self.mp hin
    obtain houter | ⟨hsame, -⟩ := hplaces next hmem
    · exact .inl ⟨next, hsome next (.inl houter), hloop⟩
    · exact .inl ⟨place, hsome place (.inr rfl), hsame hloop⟩
  · intro hin
    obtain ⟨next, hmem, hexecutes⟩ := executes_goTo_self.mp hin
    obtain houter | ⟨-, hsame⟩ := hplaces next hmem
    · exact .inl ⟨next, hsome next (.inl houter), hexecutes⟩
    · obtain hplaceExecutes | hown := hsame hexecutes
      · exact .inl ⟨place, hsome place (.inr rfl), hplaceExecutes⟩
      · exact .inr hown

/-- The innermost call goes on to a place that is not newly in the loop. -/
theorem Single.replace {place' : WorkerPlace} (h : Single s)
    (hplace : s.places thread = place :: outer) (hloop : place'.InLoop → place.InLoop)
    (hexecutes : place'.Executes → place.Executes ∨ s.threadId = some thread) :
    Single (s.goTo thread (place' :: outer)) := by
  refine h.move hplace ?_
  intro next hmem
  obtain rfl | hmem := List.mem_cons.mp hmem
  · exact .inr ⟨hloop, hexecutes⟩
  · exact .inl hmem

/-- The innermost call returns. -/
theorem Single.pop (h : Single s) (hplace : s.places thread = place :: outer) :
    Single (s.goTo thread outer) :=
  h.move hplace fun _ hmem => .inl hmem

theorem Single.push (h : Single s) : Single (s.goTo thread (.entered :: s.places thread)) := by
  apply h.goTo
  · intro hin
    obtain ⟨next, hmem, hloop⟩ := inLoop_goTo_self.mp hin
    obtain rfl | hmem := List.mem_cons.mp hmem
    · exact hloop.elim
    · exact .inl ⟨next, hmem, hloop⟩
  · intro hin
    obtain ⟨next, hmem, hexecutes⟩ := executes_goTo_self.mp hin
    obtain rfl | hmem := List.mem_cons.mp hmem
    · exact hexecutes.elim
    · exact .inl ⟨next, hmem, hexecutes⟩

/-- The innermost call enters the loop, which no other thread is in. -/
theorem Single.enter (h : Single s) (hplace : s.places thread = place :: outer)
    (hfree : ∀ other, other ≠ thread → ¬ s.InLoop other) :
    Single (s.goTo thread (.testing :: outer)) := by
  apply h.goTo
  · exact fun _ => .inr hfree
  · intro hin
    obtain ⟨next, hmem, hexecutes⟩ := executes_goTo_self.mp hin
    obtain rfl | hmem := List.mem_cons.mp hmem
    · exact hexecutes.elim
    · left
      refine ⟨next, ?_, hexecutes⟩
      rw [hplace]
      exact List.mem_cons_of_mem _ hmem

theorem Single.writeThreadId (h : Single s)
    (hfree : ∀ other, other ≠ thread → ¬ s.Executes other) :
    Single { s with threadId := some thread } where
  one := h.one
  own := by
    intro other hexecutes
    by_cases hother : other = thread
    · rw [hother]
    · exact (hfree other hother hexecutes).elim

theorem single_next {event : Event} (h : Single s) (hgood : s.Alone event) :
    Single (s.next event) := by
  cases event with
  | asyncWorkStart =>
      simp only [next]
      split
      · exact h
      · exact ⟨h.one, h.own⟩
  | spawn thread =>
      simp only [next]
      split
      · rename_i hspawn
        have hspawned : Single { s with spawned := s.spawned - 1 } := ⟨h.one, h.own⟩
        have hpush : Single ({ s with spawned := s.spawned - 1 }.goTo thread
            (.entered :: s.places thread)) := hspawned.push
        rw [hspawn.2] at hpush
        exact hpush
      · exact h
  | syncWorkStart thread =>
      simp only [next]
      split
      · exact h.push
      · exact h
  | workStop => exact ⟨h.one, h.own⟩
  | writeThreadId thread =>
      simp only [next]
      split
      · rename_i outer hplace
        have hwritten := h.writeThreadId (hgood (by rw [hplace]; rfl))
        exact hwritten.replace hplace False.elim False.elim
      · exact h
  | loadIsStart thread =>
      simp only [next]
      split
      · rename_i outer hplace
        split
        · exact h.pop hplace
        · exact h.replace hplace False.elim False.elim
      · exact h
  | exchange thread =>
      simp only [next]
      split
      · rename_i outer hplace
        have hfree := hgood (by rw [hplace]; rfl)
        have hset : Single { s with isStart := true } := ⟨h.one, h.own⟩
        exact hset.enter hplace hfree
      · exact h
  | test thread =>
      simp only [next]
      split
      · rename_i outer hplace
        split
        · rename_i hstart
          have hown := hgood (by rw [hplace]; rfl) hstart
          exact h.replace hplace id fun _ => .inr hown
        · exact h.pop hplace
      · exact h
  | endPass thread =>
      simp only [next]
      split
      · rename_i outer hplace
        exact h.replace hplace (fun _ => trivial) fun _ => .inl trivial
      · exact h
  | wake thread =>
      simp only [next]
      split
      · rename_i outer hplace
        exact h.replace hplace (fun _ => trivial) False.elim
      · exact h

/-- A step that is not good ends with two threads in the loop, or with one that executes a pass
under another's id. -/
theorem alone_of_single_next {event : Event} (h : Single (s.next event)) : s.Alone event := by
  cases event with
  | writeThreadId thread =>
      intro hhead other hother hexecutes
      obtain ⟨outer, hplace⟩ := List.head?_eq_some_iff.mp hhead
      simp only [next, hplace] at h
      have hown := h.own other ((executes_goTo_of_ne hother).mpr hexecutes)
      exact hother (Option.some.inj hown).symm
  | exchange thread =>
      intro hhead other hother hin
      obtain ⟨outer, hplace⟩ := List.head?_eq_some_iff.mp hhead
      simp only [next, hplace] at h
      apply hother
      apply h.one other thread
      · exact (inLoop_goTo_of_ne hother).mpr hin
      · exact inLoop_goTo_self.mpr ⟨.testing, List.mem_cons_self, trivial⟩
  | test thread =>
      intro hhead hstart
      obtain ⟨outer, hplace⟩ := List.head?_eq_some_iff.mp hhead
      simp only [next, hplace, hstart, if_true] at h
      exact h.own thread (executes_goTo_self.mpr ⟨.inPass, List.mem_cons_self, trivial⟩)
  | _ => trivial

end Step

/-- In a run of starts and stops from any threads there is one timer worker at most, and it
executes its passes under its own id, exactly as long as no worker is started beside another. -/
theorem single_iff_alone (events : List Event) :
    Throughout step Single init events ↔ Always step Alone init events := by
  refine throughout_iff_always (fun s h => h) ?_ ?_ ?_ single_init
  · rintro s event s' h hgood ⟨⟩
    exact single_next h hgood
  · rintro s event s' - ⟨⟩ h
    exact alone_of_single_next h
  · rintro s event fault - ⟨⟩

/-- Two starts that both come before the first worker has set `isStart_`. -/
theorem startedTwice_not_single : ¬ Throughout step Single init
    [.asyncWorkStart, .asyncWorkStart, .spawn 1, .spawn 2, .writeThreadId 1, .writeThreadId 2,
      .loadIsStart 1, .loadIsStart 2, .exchange 1, .exchange 2] := by
  intro h
  have hlast := h.last rfl
  have hsame := hlast.one 1 2 ⟨.testing, by decide, trivial⟩ ⟨.testing, by decide, trivial⟩
  cases hsame

end TimerWorkers

end ToyBasket
