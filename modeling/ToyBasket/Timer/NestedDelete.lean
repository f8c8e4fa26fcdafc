import ToyBasket.Timer.Pass
import Mathlib.Data.List.Infix
import Mathlib.Data.List.Nodup

/-!
# Timers deleted from inside an action

A call of `deleteTimer` makes the whole vector a heap again, also the place at its end where the
timer of the running action waits for `pop_back`. A pass removes only what its actions delete when
each of them leaves its own timer at the end.
-/

namespace ToyBasket

open Words StdHeap

namespace TimerManager

variable {α : Type}

/-- The ids the calls delete. With 0 `deleteTimer` leaves at once. -/
def deletedIds : List (TimerCall α) → List Nat
  | [] => []
  | .addTimer _ :: calls => deletedIds calls
  | .deleteTimer timerId :: calls =>
      if timerId < 1 then deletedIds calls else timerId :: deletedIds calls

/-- The ids the actions that have run have deleted. -/
def deletedBy (env : Env α) (ran : List (Timer α)) : List Nat :=
  (ran.mapIdx fun i t => deletedIds (env.calls i t)).flatten

/-- Actions call `deleteTimer` for other timers than their own and nothing else. -/
def DeletesOthers (env : Env α) : Prop :=
  ∀ i t, ∀ call ∈ env.calls i t, ∃ timerId, call = .deleteTimer timerId ∧ timerId ≠ t.id

/-- The pass has ended with the timers neither deleted nor run and one new entry for each repeating
one that ran and was not deleted, and nothing ran twice. -/
structure OnlyTargets (env : Env α) (m : TimerManager α) (r : PassResult α) : Prop where
  finished : r.finished = true
  perm : r.mgr.timer.Perm
    ((m.timer.filter fun t => t.id ∉ r.ran.map Timer.id ∧ t.id ∉ deletedBy env r.ran) ++
      (renewed m.timeline r.ran).filter fun t => t.id ∉ deletedBy env r.ran)
  ids : (r.mgr.timer.map Timer.id).Nodup
  once : (r.ran.map Timer.id).Nodup

/-- The action about to run leaves its timer at the end of the vector. -/
def LeavesLast (env : Env α) (p : Pass α) : Prop :=
  (p.mgr.perform (env.calls p.ran.length p.top)).1.timer.getLast? = some p.top

/-- So do all actions the loop comes to. -/
def LeaveLast (env : Env α) : (fuel : Nat) → Pass α → Prop
  | 0, _ => True
  | fuel + 1, p =>
      env.isStart p.ran.length = true → p.top.deadline ≤ p.mgr.timeline →
        LeavesLast env p ∧ ∀ p', whileBody env p = (p', .again) → LeaveLast env fuel p'

/-- So do all actions of a pass. -/
def PassLeavesLast (env : Env α) (fuel : Nat) (m : TimerManager α) : Prop :=
  ∀ top, (popHeap Timer.gt m.timer).getLast? = some top →
    LeaveLast env fuel { mgr := { m with timer := popHeap Timer.gt m.timer }, top := top }

section Calls

variable {env : Env α} {m : TimerManager α} {ran : List (Timer α)}

theorem deletedBy_append (env : Env α) (ran : List (Timer α)) (t : Timer α) :
    deletedBy env (ran ++ [t]) = deletedBy env ran ++ deletedIds (env.calls ran.length t) := by
  simp [deletedBy]

theorem DeletesOthers.not_mem (h : DeletesOthers env) (i : Nat) (t : Timer α) :
    t.id ∉ deletedIds (env.calls i t) := by
  have hcalls := h i t
  generalize env.calls i t = calls at hcalls
  fun_induction deletedIds calls with
  | case1 => simp
  | case2 args calls ih => exact ih fun call hmem => hcalls call (List.mem_cons_of_mem _ hmem)
  | case3 timerId calls hzero ih =>
      exact ih fun call hmem => hcalls call (List.mem_cons_of_mem _ hmem)
  | case4 timerId calls hzero ih =>
      obtain ⟨timerId', hsame, hne⟩ := hcalls _ List.mem_cons_self
      cases hsame
      rw [List.mem_cons, not_or]
      exact ⟨Ne.symm hne, ih fun call hmem => hcalls call (List.mem_cons_of_mem _ hmem)⟩

/-- What calls of `deleteTimer` leave: nothing of theirs, and a heap unless they did nothing. -/
theorem perform_deletes {calls : List (TimerCall α)} (hids : (m.timer.map Timer.id).Nodup)
    (hcalls : ∀ call ∈ calls, ∃ timerId, call = .deleteTimer timerId) :
    ∃ timer, m.perform calls = ({ m with timer := timer }, []) ∧
      timer.Perm (m.timer.filter fun t => t.id ∉ deletedIds calls) ∧
      (deletedIds calls = [] ∧ timer = m.timer ∨ IsHeap Timer.gt timer) := by
  induction calls generalizing m with
  | nil => exact ⟨m.timer, rfl, by simp [deletedIds], .inl ⟨rfl, rfl⟩⟩
  | cons call calls ih =>
      obtain ⟨timerId, rfl⟩ := hcalls call List.mem_cons_self
      have hrest := fun call hmem => hcalls call (List.mem_cons_of_mem _ hmem)
      by_cases hzero : timerId < 1
      · have hsame : (m.deleteTimer timerId).2 = m := by rw [deleteTimer, if_pos hzero]
        rw [perform, hsame, deletedIds, if_pos hzero]
        exact ih hids hrest
      · have hperm : (makeHeap Timer.gt (m.timer.eraseP fun t => t.id == timerId)).Perm
            (m.timer.filter fun t => t.id ≠ timerId) := by
          rw [eraseP_eq_filter hids]
          exact makeHeap_perm _ _
        rw [perform, deleteTimer, if_neg hzero, deletedIds, if_neg hzero]
        have hids' : ((makeHeap Timer.gt (m.timer.eraseP fun t => t.id == timerId)).map
            Timer.id).Nodup :=
          (hperm.map _).nodup_iff.mpr (hids.sublist (List.filter_sublist.map _))
        obtain ⟨timer, hperform, hleft, hheap⟩ := ih (m := { m with
          timer := makeHeap Timer.gt (m.timer.eraseP fun t => t.id == timerId) }) hids' hrest
        refine ⟨timer, hperform, ?_, .inr ?_⟩
        · calc
            timer.Perm ((makeHeap Timer.gt (m.timer.eraseP fun t => t.id == timerId)).filter
                fun t => t.id ∉ deletedIds calls) := hleft
            _ |>.Perm ((m.timer.filter fun t => t.id ≠ timerId).filter
                fun t => t.id ∉ deletedIds calls) := hperm.filter _
            _ = m.timer.filter fun t => t.id ∉ timerId :: deletedIds calls := by
              rw [List.filter_filter]
              congr 1
              ext t
              simp [Bool.and_comm]
        · obtain ⟨-, rfl⟩ | hheap := hheap
          · exact isHeap_makeHeap Timer.strictWeakOrder_gt _
          · exact hheap

end Calls

/-! ### What a pass has to leave -/

/-- The entries owed after these actions: timers that have neither run nor been deleted, and new
ones of those that ran. -/
def Owed (env : Env α) (m : TimerManager α) (ran : List (Timer α)) (t : Timer α) : Prop :=
  (t ∈ m.timer ∧ t.id ∉ ran.map Timer.id ∨ t ∈ renewed m.timeline ran) ∧ t.id ∉ deletedBy env ran

/-- The vector holds what is owed, and nothing has run twice. -/
structure Trimmed (env : Env α) (m : TimerManager α) (timer ran : List (Timer α)) : Prop where
  ids : (timer.map Timer.id).Nodup
  mem : ∀ t, t ∈ timer ↔ Owed env m ran t
  once : (ran.map Timer.id).Nodup
  ran_mem : ∀ t ∈ ran, t ∈ m.timer

section Trim

variable {env : Env α} {m : TimerManager α} {timer ran : List (Timer α)}

theorem eq_of_id_eq (hids : (m.timer.map Timer.id).Nodup) {t u : Timer α} (ht : t ∈ m.timer)
    (hu : u ∈ m.timer) (hid : t.id = u.id) : t = u :=
  List.inj_on_of_nodup_map hids ht hu hid

theorem not_due_of_mem_renewed (hm : Sound m.timer) (hran : ∀ t ∈ ran, t ∈ m.timer) {t : Timer α}
    (ht : t ∈ renewed m.timeline ran) : m.timeline < t.deadline := by
  obtain ⟨r, hr, hrepeat, rfl⟩ := mem_renewed.mp ht
  have hpos := hm.interval_pos r (hran r hr) hrepeat
  simp only [Timer.renew]
  omega

theorem Trimmed.mem_of_due (hm : Sound m.timer) (h : Trimmed env m timer ran) {t : Timer α}
    (ht : t ∈ timer) (hdue : t.deadline ≤ m.timeline) :
    t ∈ m.timer ∧ t.id ∉ ran.map Timer.id := by
  obtain hold | hnew := ((h.mem t).mp ht).1
  · exact hold
  · have hlate := not_due_of_mem_renewed hm h.ran_mem hnew
    omega

theorem Trimmed.id_lt (hm : Sound m.timer) (h : Trimmed env m timer ran) {t : Timer α}
    (ht : t ∈ timer) : t.id < 2 ^ 31 := by
  obtain hold | hnew := ((h.mem t).mp ht).1
  · exact hm.id_lt t hold.1
  · obtain ⟨r, hr, -, rfl⟩ := mem_renewed.mp hnew
    exact hm.id_lt r (h.ran_mem r hr)

theorem trimmed_start (hids : (m.timer.map Timer.id).Nodup) (hperm : timer.Perm m.timer) :
    Trimmed env m timer [] where
  ids := (hperm.map _).nodup_iff.mpr hids
  mem := by
    intro t
    simp [Owed, renewed, deletedBy, hperm.mem_iff]
  once := List.nodup_nil
  ran_mem := by simp

/-- An action that leaves its timer at the end: the pass owes one entry less or a new one. -/
theorem Trimmed.run {top : Timer α} {l rest : List (Timer α)}
    (hids : (m.timer.map Timer.id).Nodup) (hm : Sound m.timer) (h : Trimmed env m timer ran)
    (htop : top ∈ timer) (hdue : top.deadline ≤ m.timeline)
    (hother : top.id ∉ deletedIds (env.calls ran.length top))
    (hl : (l ++ [top]).Perm
      (timer.filter fun t => t.id ∉ deletedIds (env.calls ran.length top)))
    (hrest : rest.Perm (l ++ renewed m.timeline [top])) :
    Trimmed env m rest (ran ++ [top]) := by
  obtain ⟨hmem, hfresh⟩ := h.mem_of_due hm htop hdue
  have hkept : top.id ∉ deletedBy env ran := ((h.mem top).mp htop).2
  have hlids : ((l ++ [top]).map Timer.id).Nodup :=
    (hl.map _).nodup_iff.mpr (h.ids.sublist (List.filter_sublist.map _))
  rw [List.map_append, List.nodup_append] at hlids
  have hnot : ∀ t ∈ l, t.id ≠ top.id := fun t ht =>
    hlids.2.2 _ (List.mem_map_of_mem ht) _ (List.mem_map_of_mem (List.mem_singleton_self top))
  have hmem_l : ∀ t, t ∈ l ↔
      Owed env m ran t ∧ t.id ∉ deletedIds (env.calls ran.length top) ∧ t ≠ top := by
    intro t
    have hboth := hl.mem_iff (a := t)
    rw [List.mem_append, List.mem_singleton, List.mem_filter, h.mem, decide_eq_true_iff] at hboth
    constructor
    · intro ht
      obtain ⟨howed, hleft⟩ := hboth.mp (.inl ht)
      exact ⟨howed, hleft, fun hsame => hnot t ht (congrArg _ hsame)⟩
    · rintro ⟨howed, hleft, hne⟩
      exact (hboth.mpr ⟨howed, hleft⟩).resolve_right hne
  have hmem_new : ∀ t, t ∈ renewed m.timeline [top] → t.id = top.id := by
    intro t ht
    simpa using id_mem_of_mem_renewed ht
  refine ⟨?_, ?_, ?_, ?_⟩
  · rw [(hrest.map _).nodup_iff, List.map_append, List.nodup_append]
    refine ⟨hlids.1, ?_, ?_⟩
    · cases hrepeat : top.isRepeat <;> simp [renewed, hrepeat]
    · intro id hid id' hid'
      obtain ⟨t, ht, rfl⟩ := List.mem_map.mp hid
      obtain ⟨u, hu, rfl⟩ := List.mem_map.mp hid'
      rw [hmem_new u hu]
      exact hnot t ht
  · intro t
    rw [hrest.mem_iff, List.mem_append, hmem_l]
    simp only [Owed, deletedBy_append, renewed_append, List.map_append, List.mem_append,
      List.map_cons, List.map_nil, List.mem_singleton, not_or]
    constructor
    · rintro (⟨⟨⟨hold, hwaits⟩ | hnew, hleft⟩, hnow, hne⟩ | hnew)
      · have hid : t.id ≠ top.id := fun hid => hne (eq_of_id_eq hids hold hmem hid)
        exact ⟨.inl ⟨hold, hwaits, hid⟩, hleft, hnow⟩
      · exact ⟨.inr (.inl hnew), hleft, hnow⟩
      · rw [hmem_new t hnew]
        exact ⟨.inr (.inr hnew), hkept, hother⟩
    · rintro ⟨⟨hold, hwaits, hid⟩ | hnew | hnew, hleft, hnow⟩
      · exact .inl ⟨⟨.inl ⟨hold, hwaits⟩, hleft⟩, hnow, fun hsame => hid (congrArg _ hsame)⟩
      · have hlate := not_due_of_mem_renewed hm h.ran_mem hnew
        refine .inl ⟨⟨.inr hnew, hleft⟩, hnow, ?_⟩
        rintro rfl
        omega
      · exact .inr hnew
  · rw [List.map_append, List.nodup_append]
    refine ⟨h.once, List.nodup_singleton _, ?_⟩
    intro id hid id' hid'
    rw [List.map_singleton, List.mem_singleton] at hid'
    rintro rfl
    rw [hid'] at hid
    exact hfresh hid
  · intro t ht
    obtain ht | ht := List.mem_append.mp ht
    · exact h.ran_mem t ht
    · rw [List.mem_singleton.mp ht]
      exact hmem

/-- Due timers have deadlines of their own when those at the start of the pass do. -/
theorem Trimmed.deadline_lt (hm : Sound m.timer) (hdeadlines : (m.timer.map Timer.deadline).Nodup)
    (h : Trimmed env m timer ran) {t u : Timer α} (ht : t ∈ timer) (hu : u ∈ timer)
    (hne : u ≠ t) (hdue : t.deadline ≤ m.timeline) (hle : t.deadline ≤ u.deadline) :
    t.deadline < u.deadline := by
  obtain ⟨hmem, -⟩ := h.mem_of_due hm ht hdue
  obtain ⟨hold, -⟩ | hnew := ((h.mem u).mp hu).1
  · apply Nat.lt_of_le_of_ne hle
    intro hsame
    exact hne (List.inj_on_of_nodup_map hdeadlines hold hmem hsame.symm)
  · exact hdue.trans_lt (not_due_of_mem_renewed hm h.ran_mem hnew)

/-- The due timers get fewer. -/
theorem Trimmed.length_due_lt (hm : Sound m.timer) (h : Trimmed env m timer ran) {top : Timer α}
    {rest : List (Timer α)} (hrest : Trimmed env m rest (ran ++ [top])) (htop : top ∈ timer)
    (hdue : top.deadline ≤ m.timeline) :
    (rest.filter (Timer.due m.timeline)).length < (timer.filter (Timer.due m.timeline)).length := by
  have hwaits : ∀ t ∈ rest.filter (Timer.due m.timeline),
      t ∈ timer ∧ t.due m.timeline = true ∧ t ≠ top := by
    intro t ht
    obtain ⟨hmem, htdue⟩ := List.mem_filter.mp ht
    obtain ⟨hold, hran⟩ := hrest.mem_of_due hm hmem (of_decide_eq_true htdue)
    have howed := ((hrest.mem t).mp hmem).2
    rw [deletedBy_append, List.mem_append, not_or] at howed
    rw [List.map_append, List.mem_append, not_or] at hran
    refine ⟨(h.mem t).mpr ⟨.inl ⟨hold, hran.1⟩, howed.1⟩, htdue, ?_⟩
    rintro rfl
    exact hran.2 (by simp)
  have hnodup : (top :: rest.filter (Timer.due m.timeline)).Nodup := by
    rw [List.nodup_cons]
    exact ⟨fun hmem => (hwaits top hmem).2.2 rfl, (List.Nodup.of_map _ hrest.ids).filter _⟩
  have hsub : top :: rest.filter (Timer.due m.timeline) ⊆ timer.filter (Timer.due m.timeline) := by
    intro t ht
    obtain rfl | ht := List.mem_cons.mp ht
    · exact List.mem_filter.mpr ⟨htop, decide_eq_true hdue⟩
    · exact List.mem_filter.mpr ⟨(hwaits t ht).1, (hwaits t ht).2.1⟩
  exact (hnodup.subperm hsub).length_le

theorem nodup_renewed (timeline : Nat) (h : (ran.map Timer.id).Nodup) :
    (renewed timeline ran).Nodup := by
  have hids : (renewed timeline ran).map Timer.id = (ran.filter (·.isRepeat)).map Timer.id := by
    rw [renewed, List.map_map]
    rfl
  apply List.Nodup.of_map Timer.id
  rw [hids]
  exact h.sublist (List.filter_sublist.map _)

theorem Trimmed.perm_owed (hids : (m.timer.map Timer.id).Nodup) (h : Trimmed env m timer ran) :
    timer.Perm
      ((m.timer.filter fun t => t.id ∉ ran.map Timer.id ∧ t.id ∉ deletedBy env ran) ++
        (renewed m.timeline ran).filter fun t => t.id ∉ deletedBy env ran) := by
  have howed : ((m.timer.filter fun t => t.id ∉ ran.map Timer.id ∧ t.id ∉ deletedBy env ran) ++
      (renewed m.timeline ran).filter fun t => t.id ∉ deletedBy env ran).Nodup := by
    rw [List.nodup_append]
    refine ⟨(List.Nodup.of_map _ hids).filter _, (nodup_renewed _ h.once).filter _, ?_⟩
    intro t ht u hu
    rw [List.mem_filter, decide_eq_true_iff] at ht
    rintro rfl
    exact ht.2.1 (id_mem_of_mem_renewed (List.mem_of_mem_filter hu))
  rw [List.perm_ext_iff_of_nodup (List.Nodup.of_map _ h.ids) howed]
  intro t
  simp only [h.mem, Owed, List.mem_append, List.mem_filter, decide_eq_true_iff]
  tauto

end Trim

/-! ### The loop -/

/-- A heap with no two deadlines the same. -/
structure Strict (timers : List (Timer α)) : Prop where
  isHeap : IsHeap Timer.gt timers
  deadlines : (timers.map Timer.deadline).Nodup

/-- The state at the head of the loop when all actions have left their timers at the end. -/
structure Head (env : Env α) (m : TimerManager α) (p : Pass α) : Prop where
  timeline_eq : p.mgr.timeline = m.timeline
  trimmed : Trimmed env m p.mgr.timer p.ran
  split : ∃ l, p.mgr.timer = l ++ [p.top] ∧ (Strict m.timer → IsHeap Timer.gt l ∧
    (p.top.deadline ≤ m.timeline → ∀ t ∈ l, p.top.deadline < t.deadline))

section Loop

variable {env : Env α} {m : TimerManager α} {p : Pass α}

theorem Head.top_mem (h : Head env m p) : p.top ∈ p.mgr.timer := by
  obtain ⟨l, hl, -⟩ := h.split
  rw [hl]
  exact List.mem_append_right _ (List.mem_singleton_self _)

/-- The new head of the loop: the root of a heap is earlier than the rest. -/
theorem head_of_popHeap (hm : Sound m.timer) {ran added : List (Timer α)} {x : Timer α}
    {mgr : TimerManager α} {rest l : List (Timer α)} (htimeline : mgr.timeline = m.timeline)
    (htrimmed : Trimmed env m (l ++ [x]) ran)
    (hpop : popHeap Timer.gt (x :: rest) = l ++ [x]) (hl : l.Perm rest)
    (hheap : Strict m.timer → IsHeap Timer.gt (x :: rest)) :
    Head env m ⟨{ mgr with timer := l ++ [x] }, x, ran, added⟩ where
  timeline_eq := htimeline
  trimmed := htrimmed
  split := by
    refine ⟨l, rfl, ?_⟩
    intro hstrict
    refine ⟨isHeap_popHeap Timer.strictWeakOrder_gt (hheap hstrict) hpop, ?_⟩
    intro hdue t ht
    have hroot := (hheap hstrict).root Timer.strictWeakOrder_gt t
      (List.mem_cons_of_mem x (hl.subset ht))
    have hne : t ≠ x := by
      rintro rfl
      have hids := htrimmed.ids
      rw [List.map_append, List.nodup_append] at hids
      exact hids.2.2 _ (List.mem_map_of_mem ht) _ (List.mem_map_of_mem (List.mem_singleton_self t))
        rfl
    exact htrimmed.deadline_lt hm hstrict.deadlines (List.mem_append_right _
      (List.mem_singleton_self x)) (List.mem_append_left _ ht) hne hdue (Timer.gt_eq_false.mp hroot)

/-- What the action of the running timer leaves. -/
theorem Head.perform (henv : DeletesOthers env) (h : Head env m p) :
    ∃ timer, p.mgr.perform (env.calls p.ran.length p.top) = ({ p.mgr with timer := timer }, []) ∧
      timer.Perm
        (p.mgr.timer.filter fun t => t.id ∉ deletedIds (env.calls p.ran.length p.top)) ∧
      p.top ∈ timer ∧ (timer = p.mgr.timer ∨ IsHeap Timer.gt timer) := by
  have hcalls : ∀ call ∈ env.calls p.ran.length p.top,
      ∃ timerId, call = .deleteTimer timerId := by
    intro call hcall
    obtain ⟨timerId, hdelete, -⟩ := henv _ _ call hcall
    exact ⟨timerId, hdelete⟩
  obtain ⟨timer, hperform, hperm, hheap⟩ := perform_deletes h.trimmed.ids hcalls
  refine ⟨timer, hperform, hperm, ?_, hheap.imp_left And.right⟩
  rw [hperm.mem_iff, List.mem_filter, decide_eq_true_iff]
  exact ⟨h.top_mem, henv.not_mem _ _⟩

theorem Head.body (hm : Sound m.timer) (hids : (m.timer.map Timer.id).Nodup)
    (henv : DeletesOthers env) (h : Head env m p) (hdue : p.top.deadline ≤ p.mgr.timeline)
    (hlast : LeavesLast env p) :
    ∃ p' next, whileBody env p = (p', next) ∧ p'.ran = p.ran ++ [p.top] ∧
      match next with
      | .again => Head env m p'
      | .leave => Trimmed env m p'.mgr.timer p'.ran := by
  obtain ⟨timer, hperform, hperm, htop, hheap⟩ := h.perform henv
  have htimeline := h.timeline_eq
  rw [htimeline] at hdue
  rw [LeavesLast, hperform] at hlast
  obtain ⟨l, hl⟩ := List.getLast?_eq_some_iff.mp hlast
  simp only at hl
  subst hl
  have hqueue := requeue_perm p.mgr.timeline p.top l
  rw [htimeline] at hqueue
  have hrun : ∀ rest : List (Timer α), rest.Perm (requeue m.timeline p.top l) →
      Trimmed env m rest (p.ran ++ [p.top]) := fun rest hrest =>
    h.trimmed.run hids hm h.top_mem hdue (henv.not_mem _ _) hperm (hrest.trans hqueue)
  have hlheap : Strict m.timer → IsHeap Timer.gt (requeue m.timeline p.top l) := by
    intro hstrict
    apply isHeap_requeue
    obtain ⟨l', hl', hsplit⟩ := h.split
    obtain hsame | hheap := hheap
    · rw [hl', List.append_cancel_right_eq] at hsame
      rw [hsame]
      exact (hsplit hstrict).1
    · exact isHeap_of_append hheap
  obtain ⟨hempty, hbody⟩ | ⟨x, rest, l', hrest, hpop, hl', hbody⟩ :=
    whileBody_of_mem hperform (h.trimmed.id_lt hm h.top_mem) htop
  · rw [List.dropLast_concat, htimeline] at hempty
    refine ⟨_, _, hbody, rfl, hrun [] ?_⟩
    rw [hempty]
  · rw [List.dropLast_concat, htimeline] at hrest
    have hx : (l' ++ [x]).Perm (x :: rest) := concat_perm_cons hl'
    rw [hrest] at hrun hlheap
    exact ⟨_, _, hbody, rfl,
      head_of_popHeap hm htimeline (hrun _ hx) hpop hl' hlheap⟩

theorem Head.whileLoop (hm : Sound m.timer) (hids : (m.timer.map Timer.id).Nodup)
    (henv : DeletesOthers env) (h : Head env m p) {fuel : Nat}
    (hfuel : (p.mgr.timer.filter (Timer.due m.timeline)).length < fuel)
    (hlast : LeaveLast env fuel p) :
    ∃ p', TimerManager.whileLoop env fuel p = (p', true) ∧ Trimmed env m p'.mgr.timer p'.ran := by
  induction fuel generalizing p with
  | zero => omega
  | succ fuel ih =>
      by_cases hgo : env.isStart p.ran.length = true ∧ p.top.deadline ≤ p.mgr.timeline
      · obtain ⟨hfirst, hrest⟩ := hlast hgo.1 hgo.2
        obtain ⟨p', next, hbody, hran, hnext⟩ := h.body hm hids henv hgo.2 hfirst
        cases next with
        | again =>
            rw [whileLoop_again hgo hbody]
            have htrimmed := hnext.trimmed
            rw [hran] at htrimmed
            have hdue := hgo.2
            rw [h.timeline_eq] at hdue
            have hless := h.trimmed.length_due_lt hm htrimmed h.top_mem hdue
            exact ih hnext (by omega) (hrest p' hbody)
        | leave => exact ⟨p', whileLoop_leave hgo hbody, hnext⟩
      · exact ⟨p, whileLoop_stop hgo, h.trimmed⟩

theorem onlyTargets_finish (hids : (m.timer.map Timer.id).Nodup)
    (h : Trimmed env m p.mgr.timer p.ran) : OnlyTargets env m (finish p true) where
  finished := rfl
  perm := (makeHeap_perm _ _).trans (h.perm_owed hids)
  ids := ((makeHeap_perm _ _).map _).nodup_iff.mpr h.ids
  once := h.once

/-! ### A timer that runs again -/

/-- A timer that has run is still in the vector and is the next one. -/
structure Stale (m : TimerManager α) (p : Pass α) : Prop where
  ran : p.top ∈ p.ran
  mem : p.top ∈ p.mgr.timer
  due : p.top.deadline ≤ m.timeline
  ran_mem : ∀ t ∈ p.ran, t ∈ m.timer

theorem ran_whileBody (env : Env α) (p : Pass α) : (whileBody env p).1.ran = p.ran ++ [p.top] := by
  unfold whileBody
  simp only
  repeat' split
  all_goals rfl

theorem ran_whileLoop (env : Env α) (fuel : Nat) (p : Pass α) :
    p.ran <+: (TimerManager.whileLoop env fuel p).1.ran := by
  induction fuel generalizing p with
  | zero => exact List.prefix_refl _
  | succ fuel ih =>
      by_cases hgo : env.isStart p.ran.length = true ∧ p.top.deadline ≤ p.mgr.timeline
      · have hran := ran_whileBody env p
        cases hbody : whileBody env p with
        | mk p' next =>
        have hfirst : p.ran <+: p'.ran := by
          rw [hbody] at hran
          rw [hran]
          exact List.prefix_append _ _
        cases next with
        | again =>
            rw [whileLoop_again hgo hbody]
            exact hfirst.trans (ih p')
        | leave =>
            rw [whileLoop_leave hgo hbody]
            exact hfirst
      · rw [whileLoop_stop hgo]

theorem ran_whileLoop_of_go (fuel : Nat)
    (hgo : env.isStart p.ran.length = true ∧ p.top.deadline ≤ p.mgr.timeline) :
    p.ran ++ [p.top] <+: (TimerManager.whileLoop env (fuel + 1) p).1.ran := by
  have hran := ran_whileBody env p
  cases hbody : whileBody env p with
  | mk p' next =>
  rw [hbody] at hran
  rw [← hran]
  cases next with
  | again =>
      rw [whileLoop_again hgo hbody]
      exact ran_whileLoop env fuel p'
  | leave => rw [whileLoop_leave hgo hbody]

/-- A pass that comes to such a state fails, stopped or not. -/
theorem Stale.not_onlyTargets (hm : Sound m.timer) (h : Stale m p) (fuel : Nat) :
    ¬ OnlyTargets env m (finish (TimerManager.whileLoop env fuel p).1
      (TimerManager.whileLoop env fuel p).2) := by
  intro honly
  cases fuel with
  | zero => exact absurd honly.finished (by simp [TimerManager.whileLoop, finish])
  | succ fuel =>
      by_cases hgo : env.isStart p.ran.length = true ∧ p.top.deadline ≤ p.mgr.timeline
      · have hran := (ran_whileLoop_of_go fuel hgo).sublist.map Timer.id
        have htwice := honly.once.sublist hran
        rw [List.map_append, List.nodup_append] at htwice
        exact htwice.2.2 _ (List.mem_map_of_mem h.ran) _
          (List.mem_map_of_mem (List.mem_singleton_self p.top)) rfl
      · rw [whileLoop_stop hgo] at honly
        have hmem := honly.perm.subset ((makeHeap_perm _ _).mem_iff.mpr h.mem)
        obtain hold | hnew := List.mem_append.mp hmem
        · rw [List.mem_filter, decide_eq_true_iff] at hold
          exact hold.2.1 (List.mem_map_of_mem h.ran)
        · have hlate := not_due_of_mem_renewed hm h.ran_mem (List.mem_of_mem_filter hnew)
          exact absurd h.due (Nat.not_le.mpr hlate)

/-- After an action that does not leave its timer at the end `pop_back` takes another one, and the
timer that ran is the earliest again. -/
theorem Head.stale (hm : Sound m.timer) (henv : DeletesOthers env) (hstrict : Strict m.timer)
    (h : Head env m p) (hdue : p.top.deadline ≤ p.mgr.timeline) (hlast : ¬ LeavesLast env p) :
    ∃ p', whileBody env p = (p', .again) ∧ p'.ran = p.ran ++ [p.top] ∧ Stale m p' := by
  obtain ⟨timer, hperform, hperm, htop, hheap⟩ := h.perform henv
  have htimeline := h.timeline_eq
  rw [htimeline] at hdue
  rw [LeavesLast, hperform] at hlast
  simp only at hlast
  obtain ⟨l, hl, hsplit⟩ := h.split
  have hearly := (hsplit hstrict).2 hdue
  have htimer : IsHeap Timer.gt timer := by
    apply hheap.resolve_left
    rintro rfl
    rw [hl] at hlast
    exact hlast (by simp)
  -- the running timer is not the element `pop_back` takes
  obtain ⟨rest, y, rfl⟩ : ∃ rest y, timer = rest ++ [y] :=
    ⟨_, _, (List.dropLast_append_getLast (List.ne_nil_of_mem htop)).symm⟩
  have hrest : p.top ∈ rest := by
    obtain hmem | hmem := List.mem_append.mp htop
    · exact hmem
    · rw [List.mem_singleton.mp hmem] at hlast
      exact (hlast (by simp)).elim
  have hqueue : IsHeap Timer.gt (requeue m.timeline p.top rest) :=
    isHeap_requeue (isHeap_of_append htimer)
  have hmem : p.top ∈ requeue m.timeline p.top rest :=
    (requeue_perm _ _ _).mem_iff.mpr (List.mem_append_left _ hrest)
  have hfirst := h.trimmed.mem_of_due hm h.top_mem hdue
  obtain ⟨hempty, -⟩ | ⟨x, rest', l', hx, hpop, hl', hbody⟩ :=
    whileBody_of_mem hperform (h.trimmed.id_lt hm h.top_mem) htop
  · rw [List.dropLast_concat, htimeline] at hempty
    rw [hempty] at hmem
    cases hmem
  · rw [List.dropLast_concat, htimeline] at hx
    rw [hx] at hqueue hmem
    have hroot := Timer.gt_eq_false.mp (hqueue.root Timer.strictWeakOrder_gt p.top hmem)
    have hsame : x = p.top := by
      by_contra hne
      have hxmem : x ∈ rest ++ renewed m.timeline [p.top] := by
        rw [← (requeue_perm m.timeline p.top rest).mem_iff, hx]
        exact List.mem_cons_self
      obtain hold | hnew := List.mem_append.mp hxmem
      · have hwaiting := List.mem_of_mem_filter (hperm.subset (List.mem_append_left [y] hold))
        rw [hl, List.mem_append, List.mem_singleton] at hwaiting
        have hlater := hearly x (hwaiting.resolve_right hne)
        omega
      · have hlate := not_due_of_mem_renewed hm (by simpa using hfirst.1) hnew
        omega
    subst hsame
    refine ⟨_, hbody, rfl, by simp, by simp, hdue, ?_⟩
    intro t ht
    obtain ht | ht := List.mem_append.mp ht
    · exact h.trimmed.ran_mem t ht
    · rw [List.mem_singleton.mp ht]
      exact hfirst.1

theorem Head.leaveLast (hm : Sound m.timer) (hids : (m.timer.map Timer.id).Nodup)
    (henv : DeletesOthers env) (hstrict : Strict m.timer) (h : Head env m p) {fuel : Nat}
    (honly : OnlyTargets env m (finish (TimerManager.whileLoop env fuel p).1
      (TimerManager.whileLoop env fuel p).2)) : LeaveLast env fuel p := by
  induction fuel generalizing p with
  | zero => trivial
  | succ fuel ih =>
      intro hstart hdue
      have hgo : env.isStart p.ran.length = true ∧ p.top.deadline ≤ p.mgr.timeline := ⟨hstart, hdue⟩
      have hlast : LeavesLast env p := by
        by_contra hnot
        obtain ⟨p', hbody, hran, hstale⟩ := h.stale hm henv hstrict hdue hnot
        rw [whileLoop_again hgo hbody] at honly
        exact hstale.not_onlyTargets hm fuel honly
      refine ⟨hlast, ?_⟩
      intro p' hbody
      rw [whileLoop_again hgo hbody] at honly
      obtain ⟨p'', next, hbody', -, hnext⟩ := h.body hm hids henv hdue hlast
      rw [hbody] at hbody'
      cases hbody'
      exact ih hnext honly

end Loop

/-! ### The whole pass -/

section Pass

variable {env : Env α} {m : TimerManager α}

theorem head_start (hm : Sound m.timer) (hids : (m.timer.map Timer.id).Nodup) {x : Timer α}
    {l l' : List (Timer α)} (hl : m.timer = x :: l) (hpop : popHeap Timer.gt (x :: l) = l' ++ [x])
    (hperm : l'.Perm l) : Head env m { mgr := { m with timer := l' ++ [x] }, top := x } := by
  have hall : (l' ++ [x]).Perm m.timer := by
    rw [hl]
    exact concat_perm_cons hperm
  apply head_of_popHeap hm rfl (trimmed_start hids hall) hpop hperm
  intro hstrict
  rw [← hl]
  exact hstrict.isHeap

/-- A pass whose actions delete other timers removes only those if each action leaves its own timer
at the end of the vector; where no two deadlines are the same, only if. -/
theorem onlyTargets_iff_leavesLast (hm : Sound m.timer) (hids : (m.timer.map Timer.id).Nodup)
    (henv : DeletesOthers env) {fuel : Nat}
    (hfuel : (m.timer.filter (Timer.due m.timeline)).length < fuel) :
    (PassLeavesLast env fuel m → OnlyTargets env m (loopForExecute env fuel m)) ∧
    (Strict m.timer → OnlyTargets env m (loopForExecute env fuel m) →
      PassLeavesLast env fuel m) := by
  have hadvance : OnlyTargets env m (loopForExecute env fuel m) ↔
      OnlyTargets env m (executeLocked env fuel m) :=
    ⟨fun h => ⟨h.finished, h.perm, h.ids, h.once⟩, fun h => ⟨h.finished, h.perm, h.ids, h.once⟩⟩
  rw [hadvance]
  cases hl : m.timer with
  | nil =>
      rw [executeLocked_nil hl]
      refine ⟨fun _ => ?_, fun _ _ top htop => ?_⟩
      · exact
          { finished := rfl
            perm := by simp [hl, renewed]
            ids := by simp [hl]
            once := List.nodup_nil }
      · simp [hl, popHeap] at htop
  | cons x l =>
      obtain ⟨l', hpop, hperm, heq⟩ := executeLocked_cons hl
      have hstart : Head env m { mgr := { m with timer := l' ++ [x] }, top := x } :=
        head_start hm hids hl hpop hperm
      have hpass : PassLeavesLast env fuel m ↔
          LeaveLast env fuel { mgr := { m with timer := l' ++ [x] }, top := x } := by
        simp [PassLeavesLast, hl, hpop]
      rw [hpass, heq]
      constructor
      · intro hlast
        have hcount : ((l' ++ [x]).filter (Timer.due m.timeline)).length < fuel := by
          have hall : (l' ++ [x]).Perm (x :: l) := concat_perm_cons hperm
          rw [(hall.filter _).length_eq, ← hl]
          exact hfuel
        obtain ⟨p', hloop, htrimmed⟩ := hstart.whileLoop hm hids henv hcount hlast
        rw [hloop]
        exact onlyTargets_finish hids htrimmed
      · intro hstrict honly
        rw [← hl] at hstrict
        exact hstart.leaveLast hm hids henv hstrict honly

end Pass

/-! ### A timer deleted and a timer lost -/

/-- Timer 1 is due and timer 2 is not. -/
def oneDue : TimerManager Unit where
  timeline := 5
  autoIncrementId := 3
  timer := [⟨1, 5, 5, (), false⟩, ⟨2, 10, 10, (), false⟩]

/-- The action of timer 1 deletes this timer. -/
def deletingEnv (timerId : Nat) : Env Unit where
  isStart := fun _ => true
  calls := fun _ t => if t.id = 1 then [.deleteTimer timerId] else []

theorem deletesOthers_deletingEnv {timerId : Nat} (h : timerId ≠ 1) :
    DeletesOthers (deletingEnv timerId) := by
  intro i t call hcall
  by_cases hid : t.id = 1
  · simp only [deletingEnv, if_pos hid, List.mem_singleton] at hcall
    exact ⟨timerId, hcall, fun hsame => h (hsame.trans hid)⟩
  · simp [deletingEnv, hid] at hcall

theorem sound_oneDue : Sound oneDue.timer := ⟨by decide, by decide⟩

/-- The pass removes timer 2 and nothing else. -/
theorem onlyTargets_iff_leavesLast_oneDue :
    OnlyTargets (deletingEnv 2) oneDue (loopForExecute (deletingEnv 2) 2 oneDue) := by
  apply (onlyTargets_iff_leavesLast sound_oneDue (by decide)
    (deletesOthers_deletingEnv (by decide)) (by decide)).1
  intro top htop
  obtain rfl : (⟨1, 5, 5, (), false⟩ : Timer Unit) = top := Option.some.inj htop
  intro _ _
  refine ⟨rfl, ?_⟩
  intro p' hbody
  have hleave : Next.leave = Next.again := congrArg Prod.snd hbody
  cases hleave

/-- Deleting an id that is not there loses timer 2. -/
theorem not_onlyTargets_absentId :
    ¬ ∀ (env : Env Unit) (m : TimerManager Unit), Sound m.timer →
      (m.timer.map Timer.id).Nodup → DeletesOthers env →
      ∃ fuel, OnlyTargets env m (loopForExecute env fuel m) := by
  intro h
  obtain ⟨fuel, honly⟩ := h (deletingEnv 99) oneDue sound_oneDue (by decide)
    (deletesOthers_deletingEnv (by decide))
  match fuel with
  | 0 => exact absurd honly.finished (by decide)
  | 1 => exact absurd honly.finished (by decide)
  | fuel + 2 =>
      have htwice : ((loopForExecute (deletingEnv 99) (fuel + 2) oneDue).ran.map Timer.id)
          = [1, 1] := rfl
      have honce := honly.once
      rw [htwice] at honce
      exact absurd honce (by decide)

end TimerManager

end ToyBasket
