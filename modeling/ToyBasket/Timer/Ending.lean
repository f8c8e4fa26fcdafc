import ToyBasket.Timer.InOrder
import ToyBasket.Timer.Iteration

/-!
# The end of a pass

An iteration takes a due timer out of the vector, unless the timer is queued again for the same
time. A pass ends when no due timer repeats with interval 0, and not otherwise.
-/

namespace ToyBasket

open StdHeap

namespace TimerManager

variable {α : Type}

/-- No due timer is queued again for the time of the pass. -/
def Later (timeline : Nat) (timer : List (Timer α)) : Prop :=
  ∀ t ∈ timer, t.due timeline = true → t.isRepeat = true → 1 ≤ t.interval

/-- Bounds the iterations to come. -/
def measure (timeline : Nat) (timer : List (Timer α)) : Nat :=
  timer.length + (timer.filter (Timer.due timeline)).length

section Finishes

variable {env : Env α} {m mgr : TimerManager α} {p : Pass α} {timeline : Nat} {top : Timer α}
  {l timer : List (Timer α)}

theorem not_due_again (mgr : TimerManager α) (h : top.isRepeat = true → 1 ≤ top.interval) :
    (again mgr top).filter (Timer.due mgr.timeline) = [] := by
  rw [List.filter_eq_nil_iff]
  intro t ht hdue
  obtain ⟨hrepeat, -, -, hdeadline⟩ := mem_again ht
  have hpos := h hrepeat
  have hle : t.deadline ≤ mgr.timeline := of_decide_eq_true hdue
  omega

theorem measure_dropLast_lt (hdue : top.due timeline = true)
    (h : Spared top.id (l ++ [top]) timer) (hfound : timer ≠ []) :
    timer.length + (timer.dropLast.filter (Timer.due timeline)).length
      < measure timeline (l ++ [top]) := by
  unfold measure
  obtain rfl | ⟨-, hless⟩ := h.changed
  · rw [List.dropLast_concat, List.filter_append, List.length_append, List.length_append,
      List.filter_cons_of_pos hdue]
    simp
  · have hlength := hless ⟨top, List.mem_append_right _ (List.mem_singleton_self _), rfl⟩
    have hdrop := ((List.dropLast_sublist timer).filter (Timer.due timeline)).length_le
    have hsub := (h.subperm.filter (Timer.due timeline)).length_le
    omega

/-- The vector of the next iteration. -/
theorem measure_next (hlater : top.isRepeat = true → 1 ≤ top.interval)
    (hdue : top.due mgr.timeline = true) (h : Spared top.id (l ++ [top]) timer)
    (hfound : timer ≠ []) {next : List (Timer α)}
    (hnext : next.Perm (timer.dropLast ++ again { mgr with timer := timer } top)) :
    measure mgr.timeline next < measure mgr.timeline (l ++ [top]) := by
  have hless := measure_dropLast_lt hdue h hfound
  have hagain := length_again_le { mgr with timer := timer } top
  have hpos := List.length_pos_of_ne_nil hfound
  have hnone := not_due_again { mgr with timer := timer } hlater
  have hlength : (next.filter (Timer.due mgr.timeline)).length
      = (timer.dropLast.filter (Timer.due mgr.timeline)).length := by
    rw [(hnext.filter _).length_eq, List.filter_append, hnone, List.append_nil]
  rw [measure, hlength, hnext.length_eq, List.length_append, List.length_dropLast]
  omega

theorem Later.next (h : Later mgr.timeline (l ++ [top])) (hdue : top.due mgr.timeline = true)
    (hspared : Spared top.id (l ++ [top]) timer) {next : List (Timer α)}
    (hnext : next.Perm (timer.dropLast ++ again { mgr with timer := timer } top)) :
    Later mgr.timeline next := by
  intro t ht htdue
  obtain hold | hnew := List.mem_append.mp (hnext.subset ht)
  · exact h t (hspared.subperm.subset (List.dropLast_subset _ hold)) htdue
  · intro _
    have htop := h top (List.mem_append_right _ (List.mem_singleton_self _)) hdue
    obtain ⟨hrepeat, hinterval, -, -⟩ := mem_again hnew
    rw [hinterval]
    exact htop hrepeat

theorem whileLoop_finishes (hown : DeletesOwn env) {fuel : Nat}
    (hsplit : ∃ l, p.mgr.timer = l ++ [p.top]) (hlater : Later p.mgr.timeline p.mgr.timer)
    (hfuel : measure p.mgr.timeline p.mgr.timer < fuel) : (whileLoop env fuel p).2 = true := by
  induction fuel generalizing p with
  | zero => omega
  | succ fuel ih =>
      by_cases hgo : env.isStart p.ran.length = true ∧ p.top.deadline ≤ p.mgr.timeline
      · obtain ⟨l, hl⟩ := hsplit
        have hdue : p.top.due p.mgr.timeline = true := decide_eq_true hgo.2
        obtain ⟨timer, -, hspared, ⟨-, hbody⟩ | ⟨hfound, p', next, hbody, -, htimeline, hnext,
          hmatch⟩⟩ := whileBody_own hown p
        · rw [whileLoop_leave hgo hbody]
        · cases next with
          | leave => rw [whileLoop_leave hgo hbody]
          | again =>
              obtain ⟨t, ht, -⟩ := hfound
              rw [hl] at hspared hlater hfuel
              have htop := hlater p.top (List.mem_append_right _ (List.mem_singleton_self _)) hdue
              have hless := measure_next htop hdue hspared (List.ne_nil_of_mem ht) hnext
              rw [whileLoop_again hgo hbody]
              apply ih hmatch.1
              · rw [htimeline]
                exact hlater.next hdue hspared hnext
              · rw [htimeline]
                omega
      · rw [whileLoop_stop hgo]

theorem measure_le (timeline : Nat) (timer : List (Timer α)) :
    measure timeline timer ≤ 2 * timer.length := by
  have hle := List.length_filter_le (Timer.due timeline) timer
  unfold measure
  omega

/-- A pass ends when no due timer is queued again for the time of the pass. -/
theorem executeLocked_finishes (hown : DeletesOwn env) (hlater : Later m.timeline m.timer)
    {fuel : Nat} (hfuel : 2 * m.timer.length < fuel) :
    (executeLocked env fuel m).finished = true := by
  cases hl : m.timer with
  | nil => rw [executeLocked_nil hl]
  | cons x rest =>
      obtain ⟨l, -, hperm, heq⟩ := executeLocked_cons hl
      have hall : (l ++ [x]).Perm m.timer := by
        rw [hl]
        exact concat_perm_cons hperm
      rw [heq]
      apply whileLoop_finishes hown ⟨l, rfl⟩
      · exact fun t ht => hlater t (hall.subset ht)
      · have hle := measure_le m.timeline (l ++ [x])
        rw [hall.length_eq] at hle
        exact hle.trans_lt hfuel

theorem deletesOwn_stoppable (isStart : Nat → Bool) :
    DeletesOwn (stoppable isStart : Env α) := by
  intro i t call hcall
  cases hcall

/-- A pass that is stopped ends. -/
theorem whileLoop_of_stopped {isStart : Nat → Bool} {j fuel : Nat} (hj : isStart j = false)
    (hran : p.ran.length ≤ j) (hfuel : j < p.ran.length + fuel) :
    (whileLoop (stoppable isStart) fuel p).2 = true := by
  induction fuel generalizing p with
  | zero => omega
  | succ fuel ih =>
      by_cases hgo : (stoppable isStart : Env α).isStart p.ran.length = true ∧
          p.top.deadline ≤ p.mgr.timeline
      · obtain ⟨timer, -, -, ⟨-, hbody⟩ | ⟨-, p', next, hbody, hran', -⟩⟩ :=
          whileBody_own (deletesOwn_stoppable isStart) p
        · rw [whileLoop_leave hgo hbody]
        · cases next with
          | leave => rw [whileLoop_leave hgo hbody]
          | again =>
              have hne : p.ran.length ≠ j := by
                rintro rfl
                rw [stoppable] at hgo
                simp [hj] at hgo
              rw [whileLoop_again hgo hbody]
              have hlength : p'.ran.length = p.ran.length + 1 := by rw [hran']; simp
              exact ih (by omega) (by omega)
      · rw [whileLoop_stop hgo]

end Finishes

/-! ### A timer queued again for the same time -/

/-- A due timer with interval 0 that repeats is in the vector. -/
def Stuck (timeline : Nat) (timer : List (Timer α)) : Prop :=
  ∃ t ∈ timer, t.due timeline = true ∧ t.isRepeat = true ∧ t.interval = 0

section Stuck

variable {isStart : Nat → Bool} {m : TimerManager α} {p : Pass α}

theorem not_later_iff {timeline : Nat} {timer : List (Timer α)} :
    ¬ Later timeline timer ↔ Stuck timeline timer := by
  unfold Later Stuck
  push Not
  simp only [Nat.lt_one_iff]

theorem stuck_again (mgr : TimerManager α) {top : Timer α} {l next : List (Timer α)}
    (h : Stuck mgr.timeline (l ++ [top])) (hnext : next.Perm (l ++ again mgr top)) :
    Stuck mgr.timeline next := by
  obtain ⟨t, ht, hdue, hrepeat, hinterval⟩ := h
  obtain ht | ht := List.mem_append.mp ht
  · exact ⟨t, hnext.symm.subset (List.mem_append_left _ ht), hdue, hrepeat, hinterval⟩
  · obtain rfl := List.mem_singleton.mp ht
    have hmem : mgr.event (requeueArgs t) ∈ again mgr t := by
      rw [again_of_repeat hrepeat]
      exact List.mem_singleton_self _
    obtain ⟨-, hinterval', hrepeat', hdeadline⟩ := mem_again hmem
    refine ⟨_, hnext.symm.subset (List.mem_append_right _ hmem), ?_, hrepeat',
      hinterval'.trans hinterval⟩
    exact decide_eq_true (by omega)

theorem Stuck.top_due {timeline : Nat} {timer : List (Timer α)} {top : Timer α}
    (h : Stuck timeline timer) (hfirst : Earliest timer top) : top.deadline ≤ timeline := by
  obtain ⟨l, rfl, -, hle⟩ := hfirst
  obtain ⟨t, ht, hdue, -, -⟩ := h
  have hdeadline : t.deadline ≤ timeline := of_decide_eq_true hdue
  obtain ht | ht := List.mem_append.mp ht
  · exact (hle t ht).trans hdeadline
  · rwa [List.mem_singleton.mp ht] at hdeadline

theorem whileLoop_of_stuck (hstart : ∀ j, isStart j = true)
    (hfirst : Earliest p.mgr.timer p.top) (h : Stuck p.mgr.timeline p.mgr.timer) (fuel : Nat) :
    (whileLoop (stoppable isStart) fuel p).2 = false := by
  induction fuel generalizing p with
  | zero => rfl
  | succ fuel ih =>
      have hgo : (stoppable isStart : Env α).isStart p.ran.length = true ∧
          p.top.deadline ≤ p.mgr.timeline := ⟨hstart _, h.top_due hfirst⟩
      obtain ⟨l, hl, hheap, -⟩ := hfirst
      obtain ⟨timer, hperform, -, hbody⟩ := whileBody_own (deletesOwn_stoppable isStart) p
      have hsame : p.mgr.timer = timer := congrArg TimerManager.timer hperform
      subst hsame
      rw [hl, List.dropLast_concat] at hbody
      obtain ⟨hnone, -⟩ | ⟨-, p', next, hbody, -, htimeline, hnext, hmatch⟩ := hbody
      · exact absurd rfl (hnone p.top (List.mem_append_right _ (List.mem_singleton_self _)))
      · rw [hl] at h
        have hstuck : Stuck p.mgr.timeline p'.mgr.timer :=
          stuck_again { p.mgr with timer := l ++ [p.top] } h hnext
        cases next with
        | leave =>
            obtain ⟨t, ht, -⟩ := hstuck
            rw [hmatch] at ht
            cases ht
        | again =>
            rw [whileLoop_again hgo hbody]
            rw [← htimeline] at hstuck
            exact ih (hmatch.2 hheap) hstuck

theorem isHeap_addTimer (h : IsHeap Timer.gt m.timer) (args : TimerArgs α) :
    IsHeap Timer.gt (m.addTimer args).2.timer :=
  isHeap_pushHeap Timer.strictWeakOrder_gt h

/-- A pass over a heap ends if and only if no due timer repeats with interval 0 or the manager is
stopped at one of its tests. -/
theorem loopForExecute_ends_iff (hheap : IsHeap Timer.gt m.timer) :
    (∃ fuel, (loopForExecute (stoppable isStart) fuel m).finished = true) ↔
      (∀ t ∈ m.timer, t.due m.timeline = true → t.isRepeat = true → 1 ≤ t.interval) ∨
        ∃ j, isStart j = false := by
  constructor
  · rintro ⟨fuel, hfinished⟩
    by_contra hnot
    rw [not_or, not_exists] at hnot
    obtain ⟨hlater, hstart⟩ := hnot
    obtain ⟨z, hz, hstuck⟩ := not_later_iff.mp hlater
    cases hl : m.timer with
    | nil =>
        rw [hl] at hz
        cases hz
    | cons x rest =>
        obtain ⟨l, hpop, hperm, heq⟩ := executeLocked_cons hl
        have hmem : z ∈ l ++ [x] := by
          rw [hl] at hz
          exact (concat_perm_cons hperm).symm.subset hz
        rw [hl] at hheap
        have hloop := whileLoop_of_stuck
          (p := { mgr := { m with timer := l ++ [x] }, top := x })
          (fun j => Bool.of_not_eq_false (hstart j)) (earliest_popHeap hheap hpop hperm)
          ⟨z, hmem, hstuck⟩ fuel
        have hsame : (whileLoop (stoppable isStart) fuel
            { mgr := { m with timer := l ++ [x] }, top := x }).2 = true := by
          rw [← hfinished]
          simp only [loopForExecute, heq, finish]
        rw [hsame] at hloop
        cases hloop
  · rintro (hlater | ⟨j, hj⟩)
    · exact ⟨_, executeLocked_finishes (deletesOwn_stoppable isStart) hlater (Nat.lt_succ_self _)⟩
    · refine ⟨j + 1, ?_⟩
      cases hl : m.timer with
      | nil => simp only [loopForExecute, executeLocked_nil hl]
      | cons x rest =>
          obtain ⟨l, -, -, heq⟩ := executeLocked_cons hl
          simp only [loopForExecute, heq, finish]
          exact whileLoop_of_stopped hj (Nat.zero_le _) (by simp)

/-- The contents `addTimer` makes of a timer of every second tick. -/
theorem loopForExecute_ends_iff_everySecondTick :
    (∃ fuel, (loopForExecute (stoppable fun _ => true) fuel
        (TimerManager.new.addTimer ⟨2, (), true, true, -1⟩).2).finished = true) ↔
      (∀ t ∈ (TimerManager.new.addTimer ⟨2, (), true, true, -1⟩).2.timer,
        t.due (TimerManager.new.addTimer ⟨2, (), true, true, -1⟩).2.timeline = true →
          t.isRepeat = true → 1 ≤ t.interval) ∨ ∃ _ : Nat, true = false :=
  loopForExecute_ends_iff (isHeap_addTimer isHeap_nil _)

/-- A repeating timer with interval 0 keeps the worker in its first pass. -/
theorem everyZeroTicks_loops :
    ¬ ∃ fuel, (loopForExecute (stoppable fun _ => true) fuel
      (TimerManager.new.addTimer ⟨0, (), true, false, -1⟩).2).finished = true := by
  rintro ⟨fuel, hfinished⟩
  have hloop : (whileLoop (stoppable fun _ => true) fuel
      { mgr := (TimerManager.new.addTimer ⟨0, (), true, false, -1⟩).2
        top := ⟨1, 0, 0, (), true⟩ }).2 = false :=
    whileLoop_of_stuck (fun _ => rfl) ⟨[], rfl, isHeap_nil, by simp⟩
      ⟨_, List.mem_singleton_self _, rfl, rfl, rfl⟩ fuel
  cases hloop.symm.trans hfinished

end Stuck

end TimerManager

end ToyBasket
