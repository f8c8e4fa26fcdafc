import ToyBasket.Timer.Pass
import Mathlib.Data.List.Sort

/-!
# A pass against a sorted list

Actions that stop the manager at most. The reference keeps the timers in a list in deadline order:
a pass runs the first of them and puts the new entries of the repeating ones back.
-/

namespace ToyBasket

open StdHeap

namespace TimerManager

variable {α : Type}

/-- One pass over a list in deadline order that runs its first `count` timers: these and what is
left. -/
def sortedPass (timeline count : Nat) (sorted : List (Timer α)) : List (Timer α) × List (Timer α) :=
  (sorted.take count, sorted.drop count ++ renewed timeline (sorted.take count))

/-- No action calls the manager but for `workStop`, which shows in the loads of `isStart_`. -/
def stoppable (isStart : Nat → Bool) : Env α where
  isStart := isStart
  calls := fun _ _ => []

/-- The pass has run due timers only, as many of the sorted list as it came to before it was
stopped, and left a heap of what the reference leaves. -/
structure AsSorted (isStart : Nat → Bool) (m : TimerManager α) (r : PassResult α) : Prop where
  finished : r.finished = true
  isHeap : IsHeap Timer.gt r.mgr.timer
  once : (r.ran.map Timer.id).Nodup
  due : ∀ t ∈ r.ran, t.due m.timeline = true
  all : (∀ j ≤ r.ran.length, isStart j = true) →
    r.ran.Perm (m.timer.filter (Timer.due m.timeline))
  sorted : ∃ sorted, sorted.Perm m.timer ∧
    sorted.Pairwise (fun t u => t.deadline ≤ u.deadline) ∧
    r.ran = (sortedPass m.timeline r.ran.length sorted).1 ∧
    r.mgr.timer.Perm (sortedPass m.timeline r.ran.length sorted).2

/-- The timers have run in deadline order and before those in the vector. -/
structure Ordered (timer ran : List (Timer α)) : Prop where
  sorted : ran.Pairwise fun t u => t.deadline ≤ u.deadline
  earlier : ∀ t ∈ ran, ∀ u ∈ timer, t.deadline ≤ u.deadline

section Loop

variable {env : Env α} {m mgr mgr' : TimerManager α} {p p' : Pass α} {ran : List (Timer α)}
  {top : Timer α}

/-- Of one run timer more the vector gains its new entry and nothing else. -/
theorem Balanced.mem_of_append (h : Balanced m mgr ran) (h' : Balanced m mgr' (ran ++ [top]))
    {u : Timer α} (hu : u ∈ mgr'.timer) : u ∈ mgr.timer ∨ u ∈ renewed m.timeline [top] := by
  have hperm : (ran ++ ([top] ++ mgr'.timer)).Perm
      (ran ++ (mgr.timer ++ renewed m.timeline [top])) :=
    calc
      (ran ++ ([top] ++ mgr'.timer)).Perm (m.timer ++ renewed m.timeline (ran ++ [top])) := by
        rw [← List.append_assoc]
        exact h'.perm
      _ = m.timer ++ renewed m.timeline ran ++ renewed m.timeline [top] := by
        rw [renewed_append, List.append_assoc]
      _ |>.Perm (ran ++ mgr.timer ++ renewed m.timeline [top]) := h.perm.symm.append_right _
      _ = ran ++ (mgr.timer ++ renewed m.timeline [top]) := List.append_assoc _ _ _
  have hrest := (List.perm_append_left_iff ran).mp hperm
  exact List.mem_append.mp (hrest.subset (List.mem_append_right _ hu))

theorem Ordered.run (hdue : ∀ t ∈ ran ++ [top], t.due m.timeline = true)
    (h : Ordered mgr.timer ran) (htop : top ∈ mgr.timer)
    (hfirst : ∀ t ∈ mgr.timer, top.deadline ≤ t.deadline) (hbalanced : Balanced m mgr ran)
    (hbalanced' : Balanced m mgr' (ran ++ [top])) : Ordered mgr'.timer (ran ++ [top]) where
  sorted := by
    rw [List.pairwise_append]
    refine ⟨h.sorted, List.pairwise_singleton _ _, ?_⟩
    intro t ht u hu
    rw [List.mem_singleton.mp hu]
    exact h.earlier t ht top htop
  earlier := by
    intro t ht u hu
    obtain hold | hnew := hbalanced.mem_of_append hbalanced' hu
    · obtain ht | ht := List.mem_append.mp ht
      · exact h.earlier t ht u hold
      · rw [List.mem_singleton.mp ht]
        exact hfirst u hold
    · obtain ⟨r, -, -, rfl⟩ := mem_renewed.mp hnew
      have hle : t.deadline ≤ m.timeline := of_decide_eq_true (hdue t ht)
      exact hle.trans (Nat.le_add_left _ _)

theorem AtHead.first (hheap : IsHeap Timer.gt m.timer) (h : AtHead env m p) :
    p.top ∈ p.mgr.timer ∧ ∀ t ∈ p.mgr.timer, p.top.deadline ≤ t.deadline := by
  obtain ⟨l, hl, hsplit⟩ := h.split
  rw [hl]
  refine ⟨List.mem_append_right _ (List.mem_singleton_self _), ?_⟩
  intro t ht
  obtain ht | ht := List.mem_append.mp ht
  · exact (hsplit hheap).2 t ht
  · rw [List.mem_singleton.mp ht]

theorem AtHead.ordered_whileLoop (hm : Sound m.timer) (hheap : IsHeap Timer.gt m.timer)
    (hcalls : ∀ i t, env.calls i t = []) (h : AtHead env m p) (ho : Ordered p.mgr.timer p.ran)
    (fuel : Nat) : Ordered (TimerManager.whileLoop env fuel p).1.mgr.timer
      (TimerManager.whileLoop env fuel p).1.ran := by
  induction fuel generalizing p with
  | zero => exact ho
  | succ fuel ih =>
      by_cases hgo : env.isStart p.ran.length = true ∧ p.top.deadline ≤ p.mgr.timeline
      · obtain ⟨p', next, hbody, hran, hnext⟩ := h.body hm hgo.1 hgo.2 (hcalls _ _)
        have hbalanced : Balanced m p'.mgr (p.ran ++ [p.top]) := by
          rw [← hran]
          cases next with
          | again => exact hnext.balanced
          | leave => exact hnext.balanced
        obtain ⟨htop, hfirst⟩ := h.first hheap
        have ho' : Ordered p'.mgr.timer p'.ran := by
          rw [hran]
          exact ho.run (fun t ht => (hbalanced.ran_mem t ht).2) htop hfirst h.balanced hbalanced
        cases next with
        | again =>
            rw [whileLoop_again hgo hbody]
            exact ih hnext ho'
        | leave =>
            rw [whileLoop_leave hgo hbody]
            exact ho'
      · rw [whileLoop_stop hgo]
        exact ho

end Loop

section Pass

variable {isStart : Nat → Bool} {m : TimerManager α} {fuel : Nat}

theorem ordered_executeLocked (hm : Sound m.timer) (hheap : IsHeap Timer.gt m.timer)
    (fuel : Nat) : Ordered (executeLocked (stoppable isStart) fuel m).mgr.timer
      (executeLocked (stoppable isStart) fuel m).ran := by
  cases hl : m.timer with
  | nil =>
      rw [executeLocked_nil hl]
      exact ⟨List.Pairwise.nil, by simp⟩
  | cons x l =>
      obtain ⟨l', hpop, hperm, heq⟩ := executeLocked_cons hl
      have hstart : AtHead (stoppable isStart) m
          { mgr := { m with timer := l' ++ [x] }, top := x } := atHead_start hl hpop hperm
      have ho := hstart.ordered_whileLoop hm hheap (fun _ _ => rfl)
        ⟨List.Pairwise.nil, by simp⟩ fuel
      rw [heq]
      refine ⟨ho.sorted, ?_⟩
      intro t ht u hu
      exact ho.earlier t ht u ((makeHeap_perm Timer.gt _).subset hu)

theorem Completed.asSorted (hm : Sound m.timer) (hheap : IsHeap Timer.gt m.timer)
    (hids : (m.timer.map Timer.id).Nodup) {r : PassResult α} (ho : Ordered r.mgr.timer r.ran)
    (h : Completed (stoppable isStart) m r) : AsSorted isStart m r := by
  obtain ⟨waiting, hfirst, hlast⟩ := h.balanced.waiting hm
  have hsort := List.perm_insertionSort (fun t u : Timer α => t.deadline ≤ u.deadline) waiting
  have hran : (r.ran ++
      waiting.insertionSort fun t u => t.deadline ≤ u.deadline).take r.ran.length = r.ran :=
    List.take_left
  refine ⟨h.finished, h.isHeap, ?_, fun t ht => (h.balanced.ran_mem t ht).2, ?_, ?_⟩
  · have hnodup := (hfirst.map Timer.id).nodup_iff.mp hids
    rw [List.map_append] at hnodup
    exact (List.nodup_append.mp hnodup).1
  · intro hstart
    have hnone := h.complete hheap (hstart _ (Nat.le_refl _))
    have hperm := h.balanced.perm_due hm
    rwa [List.filter_eq_nil_iff.mpr fun t ht => by simp [hnone t ht], List.append_nil] at hperm
  · refine ⟨r.ran ++ waiting.insertionSort fun t u => t.deadline ≤ u.deadline,
      (hsort.append_left _).trans hfirst.symm, ?_, hran.symm, ?_⟩
    · rw [List.pairwise_append]
      refine ⟨ho.sorted, List.pairwise_insertionSort _ waiting, ?_⟩
      intro t ht u hu
      exact ho.earlier t ht u
        (hlast.symm.subset (List.mem_append_left _ (hsort.subset hu)))
    · simp only [sortedPass, hran, List.drop_left]
      exact hlast.trans (hsort.symm.append_right _)

/-- A pass is one of the reference on the timers in some order of their deadlines. -/
theorem loopForExecute_asSorted (hm : Sound m.timer) (hheap : IsHeap Timer.gt m.timer)
    (hids : (m.timer.map Timer.id).Nodup)
    (hfuel : (m.timer.filter (Timer.due m.timeline)).length < fuel) :
    AsSorted isStart m (loopForExecute (stoppable isStart) fuel m) := by
  have hcompleted : Completed (stoppable isStart) m (executeLocked (stoppable isStart) fuel m) :=
    completed_executeLocked hm hfuel fun _ _ _ _ => rfl
  have h := hcompleted.asSorted hm hheap hids (ordered_executeLocked hm hheap fuel)
  exact ⟨h.finished, h.isHeap, h.once, h.due, h.all, h.sorted⟩

/-- Two timers due at the same time and a third one, and the manager stopped by the second
action. -/
theorem loopForExecute_asSorted_stopped :
    AsSorted (fun j => decide (j < 2))
      ({ timeline := 5, autoIncrementId := 4,
         timer := [⟨1, 5, 5, (), true⟩, ⟨2, 3, 5, (), false⟩, ⟨3, 2, 5, (), true⟩] } :
        TimerManager Unit)
      (loopForExecute (stoppable fun j => decide (j < 2)) 4
        { timeline := 5, autoIncrementId := 4,
          timer := [⟨1, 5, 5, (), true⟩, ⟨2, 3, 5, (), false⟩, ⟨3, 2, 5, (), true⟩] }) :=
  loopForExecute_asSorted ⟨by decide, by decide⟩ (by decide) (by decide) (by decide)

end Pass

end TimerManager

end ToyBasket
