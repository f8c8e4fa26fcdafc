import ToyBasket.Timer
import Mathlib.Data.List.Count
import Mathlib.Data.List.Perm.Subperm

/-!
# One pass whose actions make no calls

As long as no action has called the manager, the timers that have run and those still in the vector
are the timers the pass began with and the new entries of the repeating ones that ran. This balance
needs no order; with heap order the timer about to run is also the earliest one.
-/

namespace ToyBasket

open Words StdHeap

namespace Timer

variable {α : Type}

/-- The entry a repeating timer is queued again with. -/
def renew (timeline : Nat) (t : Timer α) : Timer α :=
  { t with deadline := t.interval + timeline }

def due (timeline : Nat) (t : Timer α) : Bool := t.deadline ≤ timeline

end Timer

namespace TimerManager

variable {α : Type}

theorem event_requeueArgs (m : TimerManager α) {t : Timer α} (hid : t.id < 2 ^ 31) :
    m.event (requeueArgs t) = t.renew m.timeline := by
  have hint : toInt32 t.id = t.id := toInt32_of_bounds (by omega) (by omega)
  have hne : (t.id : Int) ≠ -1 := by omega
  have hsize : toSize t.id = t.id := by
    rw [toSize_of_nonneg (by omega) (by omega), Int.toNat_natCast]
  simp [event, requeueArgs, Timer.new, Timer.renew, hint, hne, hsize]

theorem addTimer_requeueArgs (m : TimerManager α) {t : Timer α} (hid : t.id < 2 ^ 31) :
    (m.addTimer (requeueArgs t)).2
      = { m with timer := pushHeap Timer.gt (m.timer ++ [t.renew m.timeline]) } := by
  have hint : toInt32 t.id = t.id := toInt32_of_bounds (by omega) (by omega)
  have hne : (requeueArgs t).id ≠ -1 := by
    simp only [requeueArgs, hint]
    omega
  simp only [addTimer, event_requeueArgs m hid, if_pos hne]

theorem eraseP_eq_filter {l : List (Timer α)} (h : (l.map Timer.id).Nodup) (timerId : Nat) :
    (l.eraseP fun t => t.id == timerId) = l.filter fun t => t.id ≠ timerId := by
  induction l with
  | nil => rfl
  | cons t l ih =>
      rw [List.map_cons, List.nodup_cons] at h
      by_cases hid : t.id = timerId
      · have hkept : l.filter (fun u => u.id ≠ timerId) = l := by
          rw [List.filter_eq_self]
          intro u hu
          apply decide_eq_true
          rintro rfl
          exact h.1 (hid ▸ List.mem_map_of_mem hu)
        rw [List.eraseP_cons_of_pos (by simpa using hid),
          List.filter_cons_of_neg (by simpa using hid), hkept]
      · rw [List.eraseP_cons_of_neg (by simpa using hid),
          List.filter_cons_of_pos (by simpa using hid), ih h.2]

def renewed (timeline : Nat) (ran : List (Timer α)) : List (Timer α) :=
  (ran.filter (·.isRepeat)).map (Timer.renew timeline)

/-- The contents a pass can be started on for its ids to survive the `int` and its repeating timers
to come back later only. -/
structure Sound (timers : List (Timer α)) : Prop where
  id_lt : ∀ t ∈ timers, t.id < 2 ^ 31
  interval_pos : ∀ t ∈ timers, t.isRepeat → 1 ≤ t.interval

/-- No action has called the manager since `m`, and `ran` are the timers whose actions have run. -/
structure Balanced (m mgr : TimerManager α) (ran : List (Timer α)) : Prop where
  timeline_eq : mgr.timeline = m.timeline
  autoIncrementId_eq : mgr.autoIncrementId = m.autoIncrementId
  perm : (ran ++ mgr.timer).Perm (m.timer ++ renewed m.timeline ran)
  ran_mem : ∀ t ∈ ran, t ∈ m.timer ∧ t.due m.timeline

section Balance

variable {m mgr : TimerManager α} {ran : List (Timer α)}

theorem renewed_append (timeline : Nat) (ran ran' : List (Timer α)) :
    renewed timeline (ran ++ ran') = renewed timeline ran ++ renewed timeline ran' := by
  simp [renewed]

theorem mem_renewed {timeline : Nat} {t : Timer α} :
    t ∈ renewed timeline ran ↔ ∃ r ∈ ran, r.isRepeat ∧ r.renew timeline = t := by
  simp [renewed, and_assoc]

theorem id_mem_of_mem_renewed {timeline : Nat} {t : Timer α} (ht : t ∈ renewed timeline ran) :
    t.id ∈ ran.map Timer.id := by
  obtain ⟨r, hr, -, rfl⟩ := mem_renewed.mp ht
  exact List.mem_map.mpr ⟨r, hr, rfl⟩

theorem balanced_refl {l : List (Timer α)} (h : l.Perm m.timer) :
    Balanced m { m with timer := l } [] where
  timeline_eq := rfl
  autoIncrementId_eq := rfl
  perm := by simpa [renewed] using h
  ran_mem := by simp

theorem Balanced.mem_timer (h : Balanced m mgr ran) {t : Timer α} (ht : t ∈ mgr.timer) :
    t ∈ m.timer ∨ ∃ r ∈ ran, r.isRepeat ∧ r.renew m.timeline = t := by
  have hmem := h.perm.subset (List.mem_append_right ran ht)
  rwa [List.mem_append, mem_renewed] at hmem

theorem Balanced.id_lt (hm : Sound m.timer) (h : Balanced m mgr ran) {t : Timer α}
    (ht : t ∈ mgr.timer) : t.id < 2 ^ 31 := by
  obtain hmem | ⟨r, hr, -, rfl⟩ := h.mem_timer ht
  · exact hm.id_lt t hmem
  · exact hm.id_lt r (h.ran_mem r hr).1

theorem Balanced.not_due_renewed (hm : Sound m.timer) (h : Balanced m mgr ran) {t : Timer α}
    (ht : t ∈ renewed m.timeline ran) : t.due m.timeline = false := by
  obtain ⟨r, hr, hrepeat, rfl⟩ := mem_renewed.mp ht
  have hpos := hm.interval_pos r (h.ran_mem r hr).1 hrepeat
  exact decide_eq_false (by simp only [Timer.renew]; omega)

theorem Balanced.mem_of_due (hm : Sound m.timer) (h : Balanced m mgr ran) {t : Timer α}
    (ht : t ∈ mgr.timer) (hdue : t.due m.timeline) : t ∈ m.timer := by
  have hmem := h.perm.subset (List.mem_append_right ran ht)
  rw [List.mem_append] at hmem
  refine hmem.resolve_right fun hrenewed => ?_
  rw [h.not_due_renewed hm hrenewed] at hdue
  cases hdue

/-- The timers that ran and the due ones still waiting are those that were due at the start. -/
theorem Balanced.perm_due (hm : Sound m.timer) (h : Balanced m mgr ran) :
    (ran ++ mgr.timer.filter (Timer.due m.timeline)).Perm
      (m.timer.filter (Timer.due m.timeline)) := by
  have hran : ran.filter (Timer.due m.timeline) = ran :=
    List.filter_eq_self.mpr fun t ht => (h.ran_mem t ht).2
  have hrenewed : (renewed m.timeline ran).filter (Timer.due m.timeline) = [] :=
    List.filter_eq_nil_iff.mpr fun t ht => by simp [h.not_due_renewed hm ht]
  have hperm := h.perm.filter (Timer.due m.timeline)
  rwa [List.filter_append, List.filter_append, hran, hrenewed, List.append_nil] at hperm

theorem Balanced.waiting (hm : Sound m.timer) (h : Balanced m mgr ran) :
    ∃ waiting, m.timer.Perm (ran ++ waiting) ∧
      mgr.timer.Perm (waiting ++ renewed m.timeline ran) := by
  have hfirst : m.timer.Perm (ran ++ (mgr.timer.filter (Timer.due m.timeline) ++
      m.timer.filter fun t => !t.due m.timeline)) :=
    calc
      m.timer.Perm (m.timer.filter (Timer.due m.timeline) ++
          m.timer.filter fun t => !t.due m.timeline) :=
        (List.filter_append_perm _ _).symm
      _ |>.Perm (ran ++ mgr.timer.filter (Timer.due m.timeline) ++
          m.timer.filter fun t => !t.due m.timeline) :=
        (h.perm_due hm).symm.append_right _
      _ = _ := List.append_assoc _ _ _
  refine ⟨_, hfirst, ?_⟩
  apply (List.perm_append_left_iff ran).mp
  rw [← List.append_assoc]
  exact h.perm.trans (hfirst.append_right _)

theorem Balanced.length_le (hm : Sound m.timer) (h : Balanced m mgr ran) :
    ran.length + (mgr.timer.filter (Timer.due m.timeline)).length
      = (m.timer.filter (Timer.due m.timeline)).length := by
  rw [← List.length_append]
  exact (h.perm_due hm).length_eq

theorem Balanced.run {top : Timer α} {l rest : List (Timer α)} (hm : Sound m.timer)
    (h : Balanced m mgr ran) (hl : mgr.timer = l ++ [top]) (hdue : top.due m.timeline)
    (hrest : rest.Perm (l ++ renewed m.timeline [top])) :
    Balanced m { mgr with timer := rest } (ran ++ [top]) where
  timeline_eq := h.timeline_eq
  autoIncrementId_eq := h.autoIncrementId_eq
  perm := by
    have hperm := h.perm
    rw [hl] at hperm
    calc
      (ran ++ [top] ++ rest).Perm (ran ++ [top] ++ (l ++ renewed m.timeline [top])) :=
        hrest.append_left _
      _ = ran ++ ([top] ++ l) ++ renewed m.timeline [top] := by simp
      _ |>.Perm (ran ++ (l ++ [top]) ++ renewed m.timeline [top]) :=
        (List.perm_append_comm.append_left ran).append_right _
      _ |>.Perm (m.timer ++ renewed m.timeline ran ++ renewed m.timeline [top]) :=
        hperm.append_right _
      _ = m.timer ++ renewed m.timeline (ran ++ [top]) := by
        rw [renewed_append, List.append_assoc]
  ran_mem := by
    intro t ht
    rw [List.mem_append, List.mem_singleton] at ht
    obtain ht | rfl := ht
    · exact h.ran_mem t ht
    · exact ⟨h.mem_of_due hm (by simp [hl]) hdue, hdue⟩

end Balance

/-! ### The loop -/

/-- The state at the head of the loop when no action has called the manager: the timer about to run
is the last of the vector, and the earliest one if the pass began with a heap. -/
structure AtHead (env : Env α) (m : TimerManager α) (p : Pass α) : Prop where
  balanced : Balanced m p.mgr p.ran
  added_eq : p.added = []
  started : ∀ j < p.ran.length, env.isStart j = true
  split : ∃ l, p.mgr.timer = l ++ [p.top] ∧
    (IsHeap Timer.gt m.timer → IsHeap Timer.gt l ∧ ∀ t ∈ l, p.top.deadline ≤ t.deadline)

structure Left (env : Env α) (m : TimerManager α) (p : Pass α) : Prop where
  balanced : Balanced m p.mgr p.ran
  added_eq : p.added = []
  complete : IsHeap Timer.gt m.timer → env.isStart p.ran.length = true →
    ∀ t ∈ p.mgr.timer, t.due m.timeline = false

section Loop

variable {env : Env α} {m : TimerManager α} {p : Pass α}

theorem whileLoop_again {p' : Pass α} {fuel : Nat}
    (hgo : env.isStart p.ran.length ∧ p.top.deadline ≤ p.mgr.timeline)
    (hbody : whileBody env p = (p', .again)) :
    TimerManager.whileLoop env (fuel + 1) p = TimerManager.whileLoop env fuel p' := by
  rw [TimerManager.whileLoop, if_pos hgo, hbody]

theorem whileLoop_leave {p' : Pass α} {fuel : Nat}
    (hgo : env.isStart p.ran.length ∧ p.top.deadline ≤ p.mgr.timeline)
    (hbody : whileBody env p = (p', .leave)) :
    TimerManager.whileLoop env (fuel + 1) p = (p', true) := by
  rw [TimerManager.whileLoop, if_pos hgo, hbody]

theorem whileLoop_stop {fuel : Nat}
    (hstop : ¬ (env.isStart p.ran.length ∧ p.top.deadline ≤ p.mgr.timeline)) :
    TimerManager.whileLoop env (fuel + 1) p = (p, true) := by
  rw [TimerManager.whileLoop, if_neg hstop]

theorem whileLoop_of_le {fuel fuel' : Nat} (hle : fuel ≤ fuel')
    (h : (TimerManager.whileLoop env fuel p).2 = true) :
    TimerManager.whileLoop env fuel' p = TimerManager.whileLoop env fuel p := by
  induction fuel generalizing p fuel' with
  | zero => cases h
  | succ fuel ih =>
      obtain ⟨fuel', rfl⟩ := Nat.exists_eq_add_of_le' (Nat.zero_lt_of_lt hle)
      by_cases hgo : env.isStart p.ran.length ∧ p.top.deadline ≤ p.mgr.timeline
      · cases hbody : whileBody env p with
        | mk p' next =>
        cases next with
        | again =>
            rw [whileLoop_again hgo hbody] at h ⊢
            rw [whileLoop_again hgo hbody]
            exact ih (by omega) h
        | leave => rw [whileLoop_leave hgo hbody, whileLoop_leave hgo hbody]
      · rw [whileLoop_stop hgo, whileLoop_stop hgo]

/-- The vector after the action of `top` has run: its place is given up, and taken again at the
right place when the timer repeats. -/
def requeue (timeline : Nat) (top : Timer α) (l : List (Timer α)) : List (Timer α) :=
  if top.isRepeat then pushHeap Timer.gt (l ++ [top.renew timeline]) else l

theorem requeue_perm (timeline : Nat) (top : Timer α) (l : List (Timer α)) :
    (requeue timeline top l).Perm (l ++ renewed timeline [top]) := by
  unfold requeue
  split
  · rename_i hrepeat
    simpa [renewed, hrepeat] using pushHeap_perm Timer.gt (l ++ [top.renew timeline])
  · rename_i hrepeat
    simp [renewed, hrepeat]

theorem isHeap_requeue {timeline : Nat} {top : Timer α} {l : List (Timer α)}
    (h : IsHeap Timer.gt l) : IsHeap Timer.gt (requeue timeline top l) := by
  unfold requeue
  split
  · exact isHeap_pushHeap Timer.strictWeakOrder_gt h
  · exact h

/-- The manager after `pop_back`, with the timer that ran queued again if it repeats. -/
def afterRun (mgr : TimerManager α) (top : Timer α) : TimerManager α :=
  let mgr := { mgr with timer := mgr.timer.dropLast }
  if top.isRepeat then (mgr.addTimer (requeueArgs top)).2 else mgr

/-- An iteration after whose action a timer with the id of the one that ran is in the vector. -/
theorem whileBody_of_find {mgr : TimerManager α} {added : List (Timer α)}
    (hperform : p.mgr.perform (env.calls p.ran.length p.top) = (mgr, added))
    (hfound : ∃ t ∈ mgr.timer, t.id = p.top.id) :
    ((afterRun mgr p.top).timer = [] ∧ whileBody env p =
      (⟨afterRun mgr p.top, p.top, p.ran ++ [p.top], p.added ++ added⟩, .leave)) ∨
    ∃ x rest l', (afterRun mgr p.top).timer = x :: rest ∧
      popHeap Timer.gt (x :: rest) = l' ++ [x] ∧ l'.Perm rest ∧
      whileBody env p = (⟨{ afterRun mgr p.top with timer := l' ++ [x] }, x, p.ran ++ [p.top],
        p.added ++ added⟩, .again) := by
  obtain ⟨t, ht, hid⟩ := hfound
  obtain ⟨found, hfind⟩ : ∃ found, mgr.timer.find? (Timer.eq · p.top) = some found :=
    Option.isSome_iff_exists.mp (List.find?_isSome.mpr ⟨t, ht, by simp [Timer.eq, hid]⟩)
  have hnonempty : mgr.timer.isEmpty = false := by
    rw [List.isEmpty_eq_false_iff]
    exact List.ne_nil_of_mem ht
  have hafter : (if p.top.isRepeat then
        (({ mgr with timer := mgr.timer.dropLast } : TimerManager α).addTimer (requeueArgs p.top)).2
      else { mgr with timer := mgr.timer.dropLast }) = afterRun mgr p.top := rfl
  cases hrest : (afterRun mgr p.top).timer with
  | nil =>
      left
      refine ⟨rfl, ?_⟩
      simp [whileBody, hperform, hfind, hnonempty, hafter, hrest]
  | cons x rest =>
      right
      obtain ⟨l', hpop, hl'⟩ := popHeap_cons Timer.gt x rest
      refine ⟨x, rest, l', rfl, hpop, hl', ?_⟩
      simp [whileBody, hperform, hfind, hnonempty, hafter, hrest, hpop]

theorem whileBody_of_not_found {mgr : TimerManager α} {added : List (Timer α)}
    (hperform : p.mgr.perform (env.calls p.ran.length p.top) = (mgr, added))
    (hnone : ∀ t ∈ mgr.timer, t.id ≠ p.top.id) :
    whileBody env p = (⟨mgr, p.top, p.ran ++ [p.top], p.added ++ added⟩, .leave) := by
  have hfind : mgr.timer.find? (Timer.eq · p.top) = none := by
    rw [List.find?_eq_none]
    intro t ht
    simpa [Timer.eq] using hnone t ht
  simp [whileBody, hperform, hfind]

theorem afterRun_of_small (mgr : TimerManager α) {top : Timer α} (hid : top.id < 2 ^ 31) :
    afterRun mgr top = { mgr with timer := requeue mgr.timeline top mgr.timer.dropLast } := by
  unfold afterRun requeue
  simp only
  split
  · rw [addTimer_requeueArgs _ hid]
  · rfl

/-- The same with the timer that ran, whose id comes back from `int` unchanged. -/
theorem whileBody_of_mem {mgr : TimerManager α} {added : List (Timer α)}
    (hperform : p.mgr.perform (env.calls p.ran.length p.top) = (mgr, added))
    (hid : p.top.id < 2 ^ 31) (htop : p.top ∈ mgr.timer) :
    (requeue mgr.timeline p.top mgr.timer.dropLast = [] ∧
      whileBody env p = (⟨{ mgr with timer := [] }, p.top, p.ran ++ [p.top], p.added ++ added⟩,
        .leave)) ∨
    ∃ x rest l', requeue mgr.timeline p.top mgr.timer.dropLast = x :: rest ∧
      popHeap Timer.gt (x :: rest) = l' ++ [x] ∧ l'.Perm rest ∧
      whileBody env p = (⟨{ mgr with timer := l' ++ [x] }, x, p.ran ++ [p.top], p.added ++ added⟩,
        .again) := by
  have hbody := whileBody_of_find hperform ⟨p.top, htop, rfl⟩
  rw [afterRun_of_small _ hid] at hbody
  obtain ⟨hempty, hleave⟩ | hagain := hbody
  · simp only at hempty
    rw [hempty] at hleave
    exact .inl ⟨hempty, hleave⟩
  · exact .inr hagain

theorem AtHead.body (hm : Sound m.timer) (h : AtHead env m p)
    (hstart : env.isStart p.ran.length = true) (hdue : p.top.deadline ≤ p.mgr.timeline)
    (hcalls : env.calls p.ran.length p.top = []) :
    ∃ p' next, whileBody env p = (p', next) ∧ p'.ran = p.ran ++ [p.top] ∧
      match next with
      | .again => AtHead env m p'
      | .leave => Left env m p' := by
  obtain ⟨l, hl, hheap⟩ := h.split
  have hid : p.top.id < 2 ^ 31 := h.balanced.id_lt hm (by simp [hl])
  have htimeline := h.balanced.timeline_eq
  have hdue' : p.top.due m.timeline := by
    rw [htimeline] at hdue
    exact decide_eq_true hdue
  have hstarted : ∀ j < (p.ran ++ [p.top]).length, env.isStart j = true := by
    intro j hj
    rw [List.length_append, List.length_singleton] at hj
    obtain hlt | rfl := Nat.lt_or_eq_of_le (Nat.le_of_lt_succ hj)
    · exact h.started j hlt
    · exact hstart
  have hperm := requeue_perm p.mgr.timeline p.top l
  have hdrop : p.mgr.timer.dropLast = l := by simp [hl]
  have hperform : p.mgr.perform (env.calls p.ran.length p.top) = (p.mgr, []) := by
    rw [hcalls, perform]
  obtain ⟨hempty, hbody⟩ | ⟨x, rest, l', hrest, hpop, hl', hbody⟩ :=
    whileBody_of_mem hperform hid (by simp [hl])
  · rw [hdrop] at hempty
    rw [hempty, htimeline] at hperm
    rw [List.append_nil] at hbody
    exact ⟨_, _, hbody, rfl, h.balanced.run hm hl hdue' hperm, h.added_eq, by simp⟩
  · rw [hdrop] at hrest
    rw [hrest, htimeline] at hperm
    rw [List.append_nil] at hbody
    have hx : (l' ++ [x]).Perm (x :: rest) := concat_perm_cons hl'
    refine ⟨_, _, hbody, rfl, h.balanced.run hm hl hdue' (hx.trans hperm), h.added_eq,
      hstarted, l', rfl, fun hm' => ?_⟩
    have hnew : IsHeap Timer.gt (x :: rest) := hrest ▸ isHeap_requeue (hheap hm').1
    refine ⟨isHeap_popHeap Timer.strictWeakOrder_gt hnew hpop, fun t ht => ?_⟩
    have hroot := hnew.root Timer.strictWeakOrder_gt t (hx.subset (List.mem_append_left _ ht))
    exact Timer.gt_eq_false.mp hroot

theorem AtHead.left (h : AtHead env m p)
    (hstop : ¬ (env.isStart p.ran.length = true ∧ p.top.deadline ≤ p.mgr.timeline)) :
    Left env m p where
  balanced := h.balanced
  added_eq := h.added_eq
  complete := by
    intro hm hstart t ht
    obtain ⟨l, hl, hheap⟩ := h.split
    rw [h.balanced.timeline_eq] at hstop
    have hlate : m.timeline < p.top.deadline :=
      not_le.mp fun hdue => hstop ⟨hstart, hdue⟩
    have htop : p.top.deadline ≤ t.deadline := by
      rw [hl, List.mem_append, List.mem_singleton] at ht
      obtain ht | rfl := ht
      · exact (hheap hm).2 t ht
      · exact Nat.le_refl _
    exact decide_eq_false (by omega)

theorem AtHead.due_top (hm : Sound m.timer) (hheap : IsHeap Timer.gt m.timer)
    (h : AtHead env m p) (hlt : p.ran.length < (m.timer.filter (Timer.due m.timeline)).length) :
    p.top.deadline ≤ m.timeline := by
  obtain ⟨l, hl, hfirst⟩ := h.split
  have hlength := h.balanced.length_le hm
  obtain ⟨t, ht⟩ := List.exists_mem_of_length_pos
    (l := p.mgr.timer.filter (Timer.due m.timeline)) (by omega)
  obtain ⟨hmem, hdue⟩ := List.mem_filter.mp ht
  rw [hl, List.mem_append, List.mem_singleton] at hmem
  obtain hmem | rfl := hmem
  · exact ((hfirst hheap).2 t hmem).trans (of_decide_eq_true hdue)
  · exact of_decide_eq_true hdue

/-- The loop runs at least `k` actions when so many timers are due and none of these actions makes a
call. -/
theorem AtHead.reach (hm : Sound m.timer) (hheap : IsHeap Timer.gt m.timer) (h : AtHead env m p)
    (hran : p.ran = []) {k : Nat} (hk : k < (m.timer.filter (Timer.due m.timeline)).length)
    (hstart : ∀ j ≤ k, env.isStart j = true) (hcalls : ∀ i t, i < k → env.calls i t = []) :
    ∃ p', AtHead env m p' ∧ p'.ran.length = k ∧
      ∀ fuel, TimerManager.whileLoop env (fuel + k) p = TimerManager.whileLoop env fuel p' := by
  induction k with
  | zero => exact ⟨p, h, by simp [hran], fun _ => rfl⟩
  | succ k ih =>
      obtain ⟨p', hhead, hlength, hloop⟩ := ih (by omega)
        (fun j hj => hstart j (by omega)) (fun i t hi => hcalls i t (by omega))
      subst hlength
      have hdue := hhead.due_top hm hheap (by omega)
      have hgo : env.isStart p'.ran.length = true ∧ p'.top.deadline ≤ p'.mgr.timeline := by
        rw [hhead.balanced.timeline_eq]
        exact ⟨hstart _ (Nat.le_succ _), hdue⟩
      obtain ⟨p'', next, hbody, hran', hnext⟩ :=
        hhead.body hm hgo.1 hgo.2 (hcalls _ _ (Nat.lt_succ_self _))
      have hlength' : p''.ran.length = p'.ran.length + 1 := by simp [hran']
      cases next with
      | again =>
          refine ⟨p'', hnext, hlength', fun fuel => ?_⟩
          rw [Nat.add_succ, ← Nat.succ_add, hloop]
          exact whileLoop_again hgo hbody
      | leave =>
          -- a due timer would have been left behind
          have hnone := hnext.complete hheap (hlength' ▸ hstart _ (Nat.le_refl _))
          have hbalance := hnext.balanced.length_le hm
          rw [List.filter_eq_nil_iff.mpr fun t ht => by simp [hnone t ht],
            List.length_nil] at hbalance
          omega

theorem AtHead.whileLoop (hm : Sound m.timer) (h : AtHead env m p) {fuel : Nat}
    (hfuel : (m.timer.filter (Timer.due m.timeline)).length < p.ran.length + fuel)
    (hcalls : ∀ i t, i < (m.timer.filter (Timer.due m.timeline)).length →
      (∀ j ≤ i, env.isStart j = true) → env.calls i t = []) :
    ∃ p', TimerManager.whileLoop env fuel p = (p', true) ∧ Left env m p' := by
  induction fuel generalizing p with
  | zero =>
      have hle := h.balanced.length_le hm
      omega
  | succ fuel ih =>
      by_cases hgo : env.isStart p.ran.length ∧ p.top.deadline ≤ p.mgr.timeline
      · obtain ⟨hstart, hdue⟩ := hgo
        have hcount : p.ran.length < (m.timer.filter (Timer.due m.timeline)).length := by
          obtain ⟨l, hl, -⟩ := h.split
          have htop : p.top ∈ p.mgr.timer.filter (Timer.due m.timeline) := by
            rw [h.balanced.timeline_eq] at hdue
            exact List.mem_filter.mpr ⟨by simp [hl], decide_eq_true hdue⟩
          have hpos := List.length_pos_of_mem htop
          have hlength := h.balanced.length_le hm
          omega
        have hstarted : ∀ j ≤ p.ran.length, env.isStart j = true := by
          intro j hj
          obtain hlt | rfl := Nat.lt_or_eq_of_le hj
          · exact h.started j hlt
          · exact hstart
        obtain ⟨p', next, hbody, hran, hnext⟩ :=
          h.body hm hstart hdue (hcalls _ _ hcount hstarted)
        cases next with
        | again =>
            rw [whileLoop_again ⟨hstart, hdue⟩ hbody]
            apply ih hnext
            rw [hran, List.length_append, List.length_singleton]
            omega
        | leave => exact ⟨p', whileLoop_leave ⟨hstart, hdue⟩ hbody, hnext⟩
      · exact ⟨p, whileLoop_stop hgo, h.left hgo⟩

end Loop

/-! ### The whole pass -/

structure Completed (env : Env α) (m : TimerManager α) (r : PassResult α) : Prop where
  finished : r.finished = true
  added_eq : r.added = []
  isHeap : IsHeap Timer.gt r.mgr.timer
  balanced : Balanced m r.mgr r.ran
  complete : IsHeap Timer.gt m.timer → env.isStart r.ran.length = true →
    ∀ t ∈ r.mgr.timer, t.due m.timeline = false

section Pass

variable {env : Env α} {m : TimerManager α}

theorem executeLocked_cons {x : Timer α} {l : List (Timer α)} (hm : m.timer = x :: l) :
    ∃ l', popHeap Timer.gt (x :: l) = l' ++ [x] ∧ l'.Perm l ∧ ∀ env fuel,
      executeLocked env fuel m =
        finish (whileLoop env fuel { mgr := { m with timer := l' ++ [x] }, top := x }).1
          (whileLoop env fuel { mgr := { m with timer := l' ++ [x] }, top := x }).2 := by
  obtain ⟨l', hpop, hperm⟩ := popHeap_cons Timer.gt x l
  refine ⟨l', hpop, hperm, fun env fuel => ?_⟩
  simp [executeLocked, hm, hpop]

theorem executeLocked_nil (hm : m.timer = []) (fuel : Nat) :
    executeLocked env fuel m = ⟨m, [], [], true⟩ := by
  simp [executeLocked, hm, popHeap]

theorem atHead_start {x : Timer α} {l l' : List (Timer α)} (hm : m.timer = x :: l)
    (hpop : popHeap Timer.gt (x :: l) = l' ++ [x]) (hperm : l'.Perm l) :
    AtHead env m { mgr := { m with timer := l' ++ [x] }, top := x } where
  balanced := by
    apply balanced_refl
    rw [hm]
    exact concat_perm_cons hperm
  added_eq := rfl
  started := by simp
  split := by
    refine ⟨l', rfl, fun hheap => ?_⟩
    rw [hm] at hheap
    refine ⟨isHeap_popHeap Timer.strictWeakOrder_gt hheap hpop, fun t ht => ?_⟩
    have hroot := hheap.root Timer.strictWeakOrder_gt t
      (List.mem_cons_of_mem x (hperm.subset ht))
    exact Timer.gt_eq_false.mp hroot

theorem Left.completed {p : Pass α} (h : Left env m p) : Completed env m (finish p true) where
  finished := rfl
  added_eq := h.added_eq
  isHeap := isHeap_makeHeap Timer.strictWeakOrder_gt _
  balanced :=
    { timeline_eq := h.balanced.timeline_eq
      autoIncrementId_eq := h.balanced.autoIncrementId_eq
      perm := ((makeHeap_perm Timer.gt p.mgr.timer).append_left p.ran).trans h.balanced.perm
      ran_mem := h.balanced.ran_mem }
  complete := by
    intro hm hstart t ht
    exact h.complete hm hstart t ((makeHeap_perm Timer.gt p.mgr.timer).subset ht)

/-- A pass during which no action makes a call ends, after at most the due timers have run. -/
theorem completed_executeLocked (hm : Sound m.timer) {fuel : Nat}
    (hfuel : (m.timer.filter (Timer.due m.timeline)).length < fuel)
    (hcalls : ∀ i t, i < (m.timer.filter (Timer.due m.timeline)).length →
      (∀ j ≤ i, env.isStart j = true) → env.calls i t = []) :
    Completed env m (executeLocked env fuel m) := by
  cases hl : m.timer with
  | nil =>
      rw [executeLocked_nil hl]
      exact
        { finished := rfl
          added_eq := rfl
          isHeap := by
            rw [hl]
            exact isHeap_nil
          balanced := balanced_refl (List.Perm.refl m.timer)
          complete := by simp [hl] }
  | cons x l =>
      obtain ⟨l', hpop, hperm, heq⟩ := executeLocked_cons hl
      have hstart : AtHead env m { mgr := { m with timer := l' ++ [x] }, top := x } :=
        atHead_start hl hpop hperm
      obtain ⟨p', hloop, hleft⟩ := hstart.whileLoop hm (by simpa using hfuel) hcalls
      rw [heq, hloop]
      exact hleft.completed

end Pass

end TimerManager

end ToyBasket
