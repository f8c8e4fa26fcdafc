import ToyBasket.Lib.Machine
import ToyBasket.Lib.Words
import Mathlib.Data.Finset.Card

/-!
# The blocking queue

`put` and `take` of `BlockingQueue.h` by any number of threads. What a thread does while it holds
`mutex_` is one step; `wait` gives the mutex up and blocks in one, and a consumer that is woken up
tests the queue again once it has the mutex.
-/

namespace ToyBasket

open Words Machine

/-- `waiting` are the consumers blocked in `wait`, `awake` those that a notification or a spurious
wakeup has taken out of it. The records are the items put and those returned. -/
structure BlockingQueue (T ι : Type) where
  queue : List T
  waiting : Finset ι
  awake : Finset ι
  given : List T
  taken : List T

namespace BlockingQueue

variable {T ι : Type} [DecidableEq ι]

/-- The consumer that `notify_one` chooses is given with the call, as none may be when some wait. -/
inductive Event (T ι : Type) where
  | put (x : T) (notified : Option ι)
  | take (consumer : ι)
  | wakeup (consumer : ι)
  | takeAgain (consumer : ι)
deriving DecidableEq, Repr

def init : BlockingQueue T ι where
  queue := []
  waiting := ∅
  awake := ∅
  given := []
  taken := []

def wakeup (s : BlockingQueue T ι) (consumer : ι) : BlockingQueue T ι :=
  { s with waiting := s.waiting.erase consumer, awake := insert consumer s.awake }

def notifyOne (s : BlockingQueue T ι) : Option ι → Except Unit (BlockingQueue T ι)
  | none => if s.waiting = ∅ then .ok s else .error ()
  | some consumer => if consumer ∈ s.waiting then .ok (s.wakeup consumer) else .error ()

def put (s : BlockingQueue T ι) (x : T) (notified : Option ι) :
    Except Unit (BlockingQueue T ι) :=
  { s with queue := s.queue ++ [x], given := s.given ++ [x] }.notifyOne notified

/-- The test of the loop in `take`, and what follows it. -/
def test (s : BlockingQueue T ι) (consumer : ι) : BlockingQueue T ι :=
  match s.queue with
  | [] => { s with waiting := insert consumer s.waiting }
  | front :: rest => { s with queue := rest, taken := s.taken ++ [front] }

/-- A step that the thread is not at is an error. -/
def step (s : BlockingQueue T ι) : Event T ι → Except Unit (BlockingQueue T ι)
  | .put x notified => s.put x notified
  | .take consumer =>
      if consumer ∈ s.waiting ∪ s.awake then .error () else .ok (s.test consumer)
  | .wakeup consumer => if consumer ∈ s.waiting then .ok (s.wakeup consumer) else .error ()
  | .takeAgain consumer =>
      if consumer ∈ s.awake then .ok ({ s with awake := s.awake.erase consumer }.test consumer)
      else .error ()

/-- What was put comes out in that order, and while a consumer is blocked there are no more items
than consumers about to test the queue. -/
structure NoneStranded (s : BlockingQueue T ι) : Prop where
  inOrder : s.taken ++ s.queue = s.given
  covered : s.waiting.Nonempty → s.queue.length ≤ s.awake.card

/-- A consumer is either blocked or awake. -/
structure Sound (s : BlockingQueue T ι) : Prop extends NoneStranded s where
  disjoint : Disjoint s.waiting s.awake

section Step

variable {s s' : BlockingQueue T ι} {event : Event T ι} {consumer : ι} {x : T}
  {notified : Option ι}

omit [DecidableEq ι] in
theorem sound_init : Sound (init : BlockingQueue T ι) where
  inOrder := rfl
  covered := fun h => (Finset.not_nonempty_empty h).elim
  disjoint := Finset.disjoint_empty_left _

theorem card_awake_wakeup (h : Disjoint s.waiting s.awake) (hwaiting : consumer ∈ s.waiting) :
    (s.wakeup consumer).awake.card = s.awake.card + 1 :=
  Finset.card_insert_of_notMem (Finset.disjoint_left.mp h hwaiting)

theorem disjoint_wakeup (h : Disjoint s.waiting s.awake) :
    Disjoint (s.wakeup consumer).waiting (s.wakeup consumer).awake := by
  have hothers : Disjoint (s.waiting.erase consumer) s.awake :=
    h.mono_left (Finset.erase_subset _ _)
  exact Finset.disjoint_insert_right.mpr ⟨Finset.notMem_erase _ _, hothers⟩

theorem nonempty_of_wakeup (h : (s.wakeup consumer).waiting.Nonempty) : s.waiting.Nonempty :=
  h.mono (Finset.erase_subset _ _)

/-- A spurious wakeup. -/
theorem Sound.wakeup (h : Sound s) (hwaiting : consumer ∈ s.waiting) :
    Sound (s.wakeup consumer) where
  inOrder := h.inOrder
  covered := by
    intro hblocked
    have hcovered := h.covered (nonempty_of_wakeup hblocked)
    rw [card_awake_wakeup h.disjoint hwaiting]
    exact Nat.le_succ_of_le hcovered
  disjoint := disjoint_wakeup h.disjoint

/-- An item comes with a consumer to test for it, unless none is blocked. -/
theorem Sound.put (h : Sound s) (hput : s.put x notified = .ok s') : Sound s' := by
  have hinOrder : s.taken ++ (s.queue ++ [x]) = s.given ++ [x] := by
    rw [← List.append_assoc, h.inOrder]
  cases notified with
  | none =>
      simp only [BlockingQueue.put, notifyOne] at hput
      split at hput
      · rename_i hnone
        cases hput
        refine ⟨⟨hinOrder, fun hblocked => ?_⟩, h.disjoint⟩
        rw [hnone] at hblocked
        exact (Finset.not_nonempty_empty hblocked).elim
      · cases hput
  | some consumer =>
      simp only [BlockingQueue.put, notifyOne] at hput
      split at hput
      · rename_i hwaiting
        cases hput
        refine ⟨⟨hinOrder, fun hblocked => ?_⟩, disjoint_wakeup h.disjoint⟩
        have hcovered := h.covered (nonempty_of_wakeup hblocked)
        have hcard : (insert consumer s.awake).card = s.awake.card + 1 :=
          card_awake_wakeup h.disjoint hwaiting
        change (s.queue ++ [x]).length ≤ (insert consumer s.awake).card
        rw [hcard, List.length_append, List.length_singleton]
        exact Nat.succ_le_succ hcovered
      · cases hput

/-- The items left are no more than the other consumers that are awake. -/
theorem sound_test (hinOrder : s.taken ++ s.queue = s.given)
    (hdisjoint : Disjoint s.waiting s.awake) (hconsumer : consumer ∉ s.awake)
    (hcovered : s.waiting.Nonempty → s.queue.length ≤ s.awake.card + 1) :
    Sound (s.test consumer) := by
  unfold test
  split
  · rename_i hempty
    refine ⟨⟨hinOrder, fun _ => ?_⟩, Finset.disjoint_insert_left.mpr ⟨hconsumer, hdisjoint⟩⟩
    change s.queue.length ≤ s.awake.card
    rw [hempty]
    exact Nat.zero_le _
  · rename_i front rest hqueue
    rw [hqueue] at hinOrder hcovered
    refine ⟨⟨?_, fun hblocked => ?_⟩, hdisjoint⟩
    · rw [List.append_assoc]
      exact hinOrder
    · exact Nat.le_of_succ_le_succ (hcovered hblocked)

theorem Sound.step (h : Sound s) (hnext : step s event = .ok s') : Sound s' := by
  cases event with
  | put x notified => exact h.put hnext
  | take consumer =>
      simp only [BlockingQueue.step] at hnext
      split at hnext
      · cases hnext
      · rename_i hout
        cases hnext
        rw [Finset.mem_union, not_or] at hout
        exact sound_test h.inOrder h.disjoint hout.2 fun hblocked =>
          Nat.le_succ_of_le (h.covered hblocked)
  | wakeup consumer =>
      simp only [BlockingQueue.step] at hnext
      split at hnext
      · rename_i hwaiting
        cases hnext
        exact h.wakeup hwaiting
      · cases hnext
  | takeAgain consumer =>
      simp only [BlockingQueue.step] at hnext
      split at hnext
      · rename_i hawake
        cases hnext
        apply sound_test
        · exact h.inOrder
        · exact h.disjoint.mono_right (Finset.erase_subset _ _)
        · exact Finset.notMem_erase _ _
        · intro hblocked
          change s.queue.length ≤ (s.awake.erase consumer).card + 1
          rw [Finset.card_erase_add_one hawake]
          exact h.covered hblocked
      · cases hnext

/-- However the calls interleave, no item is left to a consumer that nobody has woken up. -/
theorem noneStranded_throughout (events : List (Event T ι)) :
    Throughout BlockingQueue.step NoneStranded init events := by
  rw [throughout_iff]
  intro before after _ s hrun
  have hsound := invariant (fun _ _ _ h hnext => Sound.step h hnext) hrun sound_init
  exact hsound.toNoneStranded

/-- A newcomer takes the item of a consumer that was notified. -/
example : (run BlockingQueue.step (init : BlockingQueue Nat Nat)
      [.take 1, .put 7 (some 1), .take 2, .takeAgain 1]).toOption.map
    (fun s => (s.taken, s.queue, s.waiting)) = some ([7], [], {1}) := by
  decide

end Step

end BlockingQueue

/-! ### The queue of a component -/

/-- The message queue of a component, and whether it has been initialized. -/
structure ComponentBase (ι : Type) where
  inited : Bool
  msgQueue : BlockingQueue Bytes ι

namespace ComponentBase

variable {ι : Type} [DecidableEq ι] {component component' : ComponentBase ι} {msg : Bytes}
  {notified : Option ι}

def addMsgToQueue (component : ComponentBase ι) (msg : Bytes) (notified : Option ι) :
    Except Unit (ComponentBase ι) := do
  if component.inited then
    return { component with msgQueue := ← component.msgQueue.put msg notified }
  else
    return component

/-- A message is put into the queue or dropped. -/
theorem addMsgToQueue_cases (h : component.addMsgToQueue msg notified = .ok component') :
    component.inited = true ∧
        component.msgQueue.step (.put msg notified) = .ok component'.msgQueue ∨
      component.inited = false ∧ component' = component := by
  unfold addMsgToQueue at h
  split at h
  · rename_i hinited
    left
    obtain ⟨msgQueue, hput, ⟨⟩⟩ := Outcome.bind_eq_ok.mp h
    exact ⟨hinited, hput⟩
  · rename_i hinited
    right
    cases h
    exact ⟨Bool.eq_false_of_not_eq_true hinited, rfl⟩

end ComponentBase

end ToyBasket
