import ToyBasket.Timer.Pass
import Mathlib.Data.List.Induction

/-!
# One iteration, whatever the ids are

Actions that delete their own timers at most. An id of more than 31 bits may change when a timer is
queued again, so two timers may come to have the same one; deadlines and intervals stay as they are.
-/

namespace ToyBasket

open Words StdHeap

namespace TimerManager

variable {α : Type}

/-- Actions call `deleteTimer` for their own timers and nothing else. -/
def DeletesOwn (env : Env α) : Prop :=
  ∀ i t, ∀ call ∈ env.calls i t, call = .deleteTimer t.id

/-- The new entry of a timer that repeats, under the id that `int` leaves of the old one. -/
def again (mgr : TimerManager α) (top : Timer α) : List (Timer α) :=
  if top.isRepeat then [mgr.event (requeueArgs top)] else []

/-- The earliest timer waits at the end of the vector. -/
def Earliest (timer : List (Timer α)) (top : Timer α) : Prop :=
  ∃ l, timer = l ++ [top] ∧ IsHeap Timer.gt l ∧ ∀ t ∈ l, top.deadline ≤ t.deadline

section Calls

variable {m mgr : TimerManager α} {top : Timer α}

/-- Only the id of a timer may change when it is queued again. -/
theorem event_requeueArgs_eq (mgr : TimerManager α) (top : Timer α) :
    mgr.event (requeueArgs top) =
      { top.renew mgr.timeline with id := (mgr.event (requeueArgs top)).id } := by
  simp only [event, requeueArgs, Timer.new, Timer.renew, Bool.false_eq_true, if_false]

theorem again_of_repeat (h : top.isRepeat = true) (mgr : TimerManager α) :
    again mgr top = [mgr.event (requeueArgs top)] := by
  rw [again, if_pos h]

theorem again_of_not_repeat (h : ¬ top.isRepeat = true) (mgr : TimerManager α) :
    again mgr top = [] := by
  rw [again, if_neg h]

theorem mem_again {t : Timer α} (ht : t ∈ again mgr top) :
    top.isRepeat = true ∧ t.interval = top.interval ∧ t.isRepeat = true ∧
      t.deadline = top.interval + mgr.timeline := by
  unfold again at ht
  split at ht
  · rename_i hrepeat
    rw [List.mem_singleton.mp ht, event_requeueArgs_eq]
    exact ⟨hrepeat, rfl, hrepeat, rfl⟩
  · cases ht

theorem length_again_le (mgr : TimerManager α) (top : Timer α) : (again mgr top).length ≤ 1 := by
  unfold again
  split
  · exact Nat.le_refl _
  · exact Nat.zero_le _

theorem timeline_afterRun (mgr : TimerManager α) (top : Timer α) :
    (afterRun mgr top).timeline = mgr.timeline := by
  simp only [afterRun, addTimer]
  split
  · rfl
  · rfl

theorem afterRun_perm (mgr : TimerManager α) (top : Timer α) :
    (afterRun mgr top).timer.Perm (mgr.timer.dropLast ++ again mgr top) := by
  unfold afterRun again
  simp only
  split
  · exact pushHeap_perm _ _
  · rw [List.append_nil]

theorem isHeap_afterRun (h : IsHeap Timer.gt mgr.timer.dropLast) :
    IsHeap Timer.gt (afterRun mgr top).timer := by
  unfold afterRun
  simp only
  split
  · exact isHeap_pushHeap Timer.strictWeakOrder_gt h
  · exact h

theorem earliest_popHeap {x : Timer α} {rest l : List (Timer α)}
    (h : IsHeap Timer.gt (x :: rest)) (hpop : popHeap Timer.gt (x :: rest) = l ++ [x])
    (hl : l.Perm rest) : Earliest (l ++ [x]) x := by
  refine ⟨l, rfl, isHeap_popHeap Timer.strictWeakOrder_gt h hpop, ?_⟩
  intro t ht
  have hroot := h.root Timer.strictWeakOrder_gt t (List.mem_cons_of_mem x (hl.subset ht))
  exact Timer.gt_eq_false.mp hroot

/-- What the calls of an action for its own id leave: some of the timers, all those with other ids
and a heap, unless they did nothing. -/
structure Spared (timerId : Nat) (before after : List (Timer α)) : Prop where
  subperm : after.Subperm before
  others : (after.filter fun t => t.id ≠ timerId).Perm (before.filter fun t => t.id ≠ timerId)
  changed : after = before ∨ IsHeap Timer.gt after ∧
    ((∃ t ∈ before, t.id = timerId) → after.length < before.length)

theorem spared_refl (timerId : Nat) (timer : List (Timer α)) : Spared timerId timer timer where
  subperm := .refl _
  others := .refl _
  changed := .inl rfl

theorem spared_deleteTimer (m : TimerManager α) (timerId : Nat) :
    Spared timerId m.timer (m.deleteTimer timerId).2.timer := by
  unfold deleteTimer
  split
  · exact spared_refl _ _
  · have hperm := makeHeap_perm Timer.gt (m.timer.eraseP fun t => t.id == timerId)
    refine ⟨hperm.subperm.trans (List.eraseP_sublist.subperm), ?_, .inr ⟨?_, ?_⟩⟩
    · apply (hperm.filter _).trans
      clear hperm
      induction m.timer with
      | nil => exact .refl _
      | cons t timer ih =>
          by_cases hid : t.id = timerId
          · rw [List.eraseP_cons_of_pos (by simpa using hid),
              List.filter_cons_of_neg (by simpa using hid)]
          · rw [List.eraseP_cons_of_neg (by simpa using hid),
              List.filter_cons_of_pos (by simpa using hid),
              List.filter_cons_of_pos (by simpa using hid)]
            exact ih.cons t
    · exact isHeap_makeHeap Timer.strictWeakOrder_gt _
    · rintro ⟨t, ht, hid⟩
      rw [hperm.length_eq, List.length_eraseP_of_mem ht (by simpa using hid)]
      have hpos := List.length_pos_of_mem ht
      omega

theorem Spared.trans {timerId : Nat} {first second third : List (Timer α)}
    (h : Spared timerId first second) (h' : Spared timerId second third) :
    Spared timerId first third where
  subperm := h'.subperm.trans h.subperm
  others := h'.others.trans h.others
  changed := by
    obtain rfl | ⟨hheap, hless⟩ := h.changed
    · exact h'.changed
    · right
      refine ⟨?_, fun hmem => h'.subperm.length_le.trans_lt (hless hmem)⟩
      obtain rfl | ⟨hheap', -⟩ := h'.changed
      · exact hheap
      · exact hheap'

theorem perform_own {timerId : Nat} {calls : List (TimerCall α)}
    (hcalls : ∀ call ∈ calls, call = .deleteTimer timerId) :
    ∃ timer, m.perform calls = ({ m with timer := timer }, []) ∧
      Spared timerId m.timer timer := by
  induction calls generalizing m with
  | nil => exact ⟨m.timer, rfl, spared_refl _ _⟩
  | cons call calls ih =>
      obtain rfl := hcalls call List.mem_cons_self
      obtain ⟨timer, hperform, hspared⟩ := ih (m := (m.deleteTimer timerId).2)
        fun call hmem => hcalls call (List.mem_cons_of_mem _ hmem)
      refine ⟨timer, ?_, (spared_deleteTimer m timerId).trans hspared⟩
      rw [perform, hperform]
      unfold deleteTimer
      split
      · rfl
      · rfl

theorem Spared.isHeap_dropLast {timer l : List (Timer α)}
    (h : Spared top.id (l ++ [top]) timer) (hl : IsHeap Timer.gt l) :
    IsHeap Timer.gt timer.dropLast := by
  obtain rfl | ⟨hheap, -⟩ := h.changed
  · rwa [List.dropLast_concat]
  · cases timer using List.reverseRecOn with
    | nil => exact isHeap_nil
    | append_singleton rest last =>
        rw [List.dropLast_concat]
        exact isHeap_of_append hheap

end Calls

/-! ### The iteration -/

section Body

variable {env : Env α} {p : Pass α}

/-- After the action the timer is gone and the loop is left, or an element is taken from the end of
the vector and the timer is queued again. -/
theorem whileBody_own (hown : DeletesOwn env) (p : Pass α) :
    ∃ timer, (p.mgr.perform (env.calls p.ran.length p.top)).1 = { p.mgr with timer := timer } ∧
      Spared p.top.id p.mgr.timer timer ∧
      ((∀ t ∈ timer, t.id ≠ p.top.id) ∧ whileBody env p =
        (⟨{ p.mgr with timer := timer }, p.top, p.ran ++ [p.top], p.added⟩, .leave) ∨
      (∃ t ∈ timer, t.id = p.top.id) ∧ ∃ p' next, whileBody env p = (p', next) ∧
        p'.ran = p.ran ++ [p.top] ∧ p'.mgr.timeline = p.mgr.timeline ∧
        p'.mgr.timer.Perm
          (timer.dropLast ++ again { p.mgr with timer := timer } p.top) ∧
        match next with
        | .again => (∃ l, p'.mgr.timer = l ++ [p'.top]) ∧
            (IsHeap Timer.gt timer.dropLast → Earliest p'.mgr.timer p'.top)
        | .leave => p'.mgr.timer = []) := by
  obtain ⟨timer, hperform, hspared⟩ := perform_own (m := p.mgr) (hown p.ran.length p.top)
  refine ⟨timer, congrArg Prod.fst hperform, hspared, ?_⟩
  by_cases hfound : ∃ t ∈ timer, t.id = p.top.id
  · right
    refine ⟨hfound, ?_⟩
    have hperm := afterRun_perm { p.mgr with timer := timer } p.top
    have htimeline := timeline_afterRun { p.mgr with timer := timer } p.top
    obtain ⟨hempty, hbody⟩ | ⟨x, rest, l, hrest, hpop, hl, hbody⟩ :=
      whileBody_of_find hperform hfound
    · exact ⟨_, _, hbody, rfl, htimeline, hperm, hempty⟩
    · rw [hrest] at hperm
      refine ⟨_, _, hbody, rfl, htimeline, ?_, ⟨l, rfl⟩, ?_⟩
      · exact (concat_perm_cons hl).trans hperm
      · intro hheap
        have hnew : IsHeap Timer.gt (x :: rest) := by
          rw [← hrest]
          exact isHeap_afterRun hheap
        exact earliest_popHeap hnew hpop hl
  · left
    have hnone : ∀ t ∈ timer, t.id ≠ p.top.id := fun t ht hid => hfound ⟨t, ht, hid⟩
    refine ⟨hnone, ?_⟩
    rw [whileBody_of_not_found hperform hnone, List.append_nil]

end Body

end TimerManager

end ToyBasket
