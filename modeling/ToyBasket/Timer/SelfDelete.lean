import ToyBasket.Timer.Ending
import ToyBasket.Timer.NestedDelete
import Mathlib.Data.List.Nodup

/-!
# Timers that delete themselves

An action that deletes its own timer ends the pass, whoever else is due. When ids of more than 31
bits have made two timers alike it may delete the other one, and `pop_back` then takes the last
timer of the rebuilt heap.
-/

namespace ToyBasket

open StdHeap

namespace TimerManager

variable {α : Type}

/-- The pass has ended, all timers that were due have run, and none in the vector is due. -/
structure AllDueRun (m : TimerManager α) (r : PassResult α) : Prop where
  finished : r.finished = true
  ran : ∀ t ∈ m.timer, t.due m.timeline = true → t ∈ r.ran
  left : ∀ t ∈ r.mgr.timer, t.due m.timeline = false

/-- After the action about to run, `pop_back` takes no due timer that has not run, and if the loop
is left, for the timer is gone, none in the vector is due. -/
def SparesDue (env : Env α) (p : Pass α) : Prop :=
  let timer := (p.mgr.perform (env.calls p.ran.length p.top)).1.timer
  ((∃ t ∈ timer, t.id = p.top.id) → ∀ t, timer.getLast? = some t →
    t.due p.mgr.timeline = true → t = p.top ∨ t ∈ p.ran) ∧
  ((∀ t ∈ timer, t.id ≠ p.top.id) → ∀ t ∈ timer, t.due p.mgr.timeline = false)

/-- So do all actions the loop comes to. -/
def SpareDue (env : Env α) : (fuel : Nat) → Pass α → Prop
  | 0, _ => True
  | fuel + 1, p =>
      p.top.deadline ≤ p.mgr.timeline →
        SparesDue env p ∧ ∀ p', whileBody env p = (p', .again) → SpareDue env fuel p'

/-- So do all actions of a pass. -/
def PassSparesDue (env : Env α) (fuel : Nat) (m : TimerManager α) : Prop :=
  ∀ top, (popHeap Timer.gt m.timer).getLast? = some top →
    SpareDue env fuel { mgr := { m with timer := popHeap Timer.gt m.timer }, top := top }

/-- The due timers in the vector are from the start of the pass, each there once. -/
structure DueFrom (m : TimerManager α) (timer : List (Timer α)) : Prop where
  mem : ∀ t ∈ timer, t.due m.timeline = true → t ∈ m.timer
  nodup : (timer.filter (Timer.due m.timeline)).Nodup

/-- The state at the head of the loop. -/
structure Waiting (m : TimerManager α) (p : Pass α) : Prop where
  timeline_eq : p.mgr.timeline = m.timeline
  ran_mem : ∀ t ∈ p.ran, t ∈ m.timer
  due : DueFrom m p.mgr.timer
  earliest : Earliest p.mgr.timer p.top

/-- No timer that was due is lost. -/
def Covered (m : TimerManager α) (timer ran : List (Timer α)) : Prop :=
  ∀ t ∈ m.timer, t.due m.timeline = true → t ∈ ran ∨ t ∈ timer

section Step

variable {m mgr : TimerManager α} {top : Timer α} {before after timer ran : List (Timer α)}

theorem DueFrom.later (hinterval : ∀ t ∈ m.timer, t.isRepeat = true → 1 ≤ t.interval)
    (h : DueFrom m before) : Later m.timeline before :=
  fun t ht hdue => hinterval t (h.mem t ht hdue)

/-- What is due after an iteration is what was due before in the part of the vector that stays. -/
theorem due_next_iff (mgr : TimerManager α) (hlater : top.isRepeat = true → 1 ≤ top.interval)
    (htimeline : mgr.timeline = m.timeline)
    (hnext : timer.Perm (after.dropLast ++ again mgr top)) {t : Timer α}
    (hdue : t.due m.timeline = true) : t ∈ timer ↔ t ∈ after.dropLast := by
  rw [hnext.mem_iff, List.mem_append]
  refine ⟨fun hmem => hmem.resolve_right ?_, .inl⟩
  intro hnew
  have hnone := List.filter_eq_nil_iff.mp (not_due_again mgr hlater) t hnew
  rw [htimeline] at hnone
  exact hnone hdue

theorem DueFrom.of_subperm (h : DueFrom m before) (hsub : after.Subperm before) :
    DueFrom m after where
  mem := fun t ht => h.mem t (hsub.subset ht)
  nodup := by
    obtain ⟨l, hperm, hl⟩ := hsub.filter (Timer.due m.timeline)
    exact hperm.nodup_iff.mp (h.nodup.sublist hl)

theorem DueFrom.next (mgr : TimerManager α) (hlater : top.isRepeat = true → 1 ≤ top.interval)
    (htimeline : mgr.timeline = m.timeline) (h : DueFrom m before)
    (hspared : Spared top.id before after)
    (hnext : timer.Perm (after.dropLast ++ again mgr top)) : DueFrom m timer := by
  have hdrop : DueFrom m after.dropLast :=
    h.of_subperm ((List.dropLast_sublist after).subperm.trans hspared.subperm)
  refine ⟨?_, ?_⟩
  · intro t ht hdue
    exact hdrop.mem t ((due_next_iff mgr hlater htimeline hnext hdue).mp ht) hdue
  · have hnone := not_due_again mgr hlater
    rw [htimeline] at hnone
    rw [(hnext.filter _).nodup_iff, List.filter_append, hnone, List.append_nil]
    exact hdrop.nodup

/-- A due timer that is not the one whose action ran is still in the vector after it. -/
theorem mem_after (hids : (m.timer.map Timer.id).Nodup) (htop : top ∈ m.timer)
    (hspared : Spared top.id before after) {t : Timer α} (ht : t ∈ m.timer) (hne : t ≠ top)
    (hmem : t ∈ before) : t ∈ after := by
  have hid : t.id ≠ top.id := fun hsame => hne (List.inj_on_of_nodup_map hids ht htop hsame)
  have hkept : t ∈ before.filter fun u => u.id ≠ top.id :=
    List.mem_filter.mpr ⟨hmem, decide_eq_true hid⟩
  exact List.mem_of_mem_filter (hspared.others.symm.subset hkept)

theorem Covered.of_next (htop : top ∈ before)
    (hnext : ∀ t, t.due m.timeline = true → t ∈ timer → t ∈ before)
    (h : Covered m timer (ran ++ [top])) : Covered m before ran := by
  intro t ht hdue
  obtain hran | hmem := h t ht hdue
  · obtain hran | hsame := List.mem_append.mp hran
    · exact .inl hran
    · rw [List.mem_singleton.mp hsame]
      exact .inr htop
  · exact .inr (hnext t hdue hmem)

/-- `pop_back` loses no due timer exactly when it takes none that has not run. -/
theorem covered_next_iff (mgr : TimerManager α) (hids : (m.timer.map Timer.id).Nodup)
    (htop : top ∈ m.timer) (hlater : top.isRepeat = true → 1 ≤ top.interval)
    (htimeline : mgr.timeline = m.timeline) (hdue : DueFrom m before)
    (hspared : Spared top.id before after)
    (hnext : timer.Perm (after.dropLast ++ again mgr top)) (h : Covered m before ran) :
    Covered m timer (ran ++ [top]) ↔
      ∀ t, after.getLast? = some t → t.due m.timeline = true → t = top ∨ t ∈ ran := by
  have hafter := hdue.of_subperm hspared.subperm
  constructor
  · intro hcovered t hlast htdue
    obtain ⟨rest, rfl⟩ := List.getLast?_eq_some_iff.mp hlast
    have hmem := hafter.mem t (List.mem_append_right _ (List.mem_singleton_self _)) htdue
    obtain hran | hin := hcovered t hmem htdue
    · obtain hran | hsame := List.mem_append.mp hran
      · exact .inr hran
      · exact .inl (List.mem_singleton.mp hsame)
    · rw [due_next_iff mgr hlater htimeline hnext htdue, List.dropLast_concat] at hin
      have hnodup := hafter.nodup
      rw [List.filter_append, List.filter_cons_of_pos htdue, List.nodup_append] at hnodup
      exact absurd rfl (hnodup.2.2 t (List.mem_filter.mpr ⟨hin, htdue⟩) t List.mem_cons_self)
  · intro hlast t ht htdue
    obtain hran | hmem := h t ht htdue
    · exact .inl (List.mem_append_left _ hran)
    · by_cases hsame : t = top
      · rw [hsame]
        exact .inl (List.mem_append_right _ (List.mem_singleton_self _))
      · have hin := mem_after hids htop hspared ht hsame hmem
        rw [due_next_iff mgr hlater htimeline hnext htdue]
        rw [← List.dropLast_append_getLast (List.ne_nil_of_mem hin)] at hin
        obtain hin | hin := List.mem_append.mp hin
        · exact .inr hin
        · have hthis := hlast t (by
            rw [List.mem_singleton.mp hin, List.getLast?_eq_some_getLast]) htdue
          exact .inl (List.mem_append_left _ (hthis.resolve_left hsame))

end Step

/-! ### The loop -/

section Loop

variable {env : Env α} {m : TimerManager α} {p : Pass α} {fuel : Nat}

theorem Waiting.top_mem (h : Waiting m p) : p.top ∈ p.mgr.timer := by
  obtain ⟨l, hl, -⟩ := h.earliest
  rw [hl]
  exact List.mem_append_right _ (List.mem_singleton_self _)

theorem Waiting.top_mem_start (h : Waiting m p) (hdue : p.top.deadline ≤ p.mgr.timeline) :
    p.top ∈ m.timer := by
  rw [h.timeline_eq] at hdue
  exact h.due.mem p.top h.top_mem (decide_eq_true hdue)

theorem Earliest.none_due {timer : List (Timer α)} {top : Timer α} {timeline : Nat}
    (h : Earliest timer top) (hlate : ¬ top.deadline ≤ timeline) :
    ∀ t ∈ timer, t.due timeline = false := by
  obtain ⟨l, rfl, -, hle⟩ := h
  intro t ht
  apply decide_eq_false
  obtain ht | ht := List.mem_append.mp ht
  · have := hle t ht
    omega
  · rwa [List.mem_singleton.mp ht]

theorem allDueRun_finish {finished : Bool} : AllDueRun m (finish p finished) ↔
    finished = true ∧ (∀ t ∈ m.timer, t.due m.timeline = true → t ∈ p.ran) ∧
      ∀ t ∈ p.mgr.timer, t.due m.timeline = false := by
  have hperm := makeHeap_perm Timer.gt p.mgr.timer
  constructor
  · rintro ⟨hfinished, hran, hleft⟩
    exact ⟨hfinished, hran, fun t ht => hleft t (hperm.symm.subset ht)⟩
  · rintro ⟨hfinished, hran, hleft⟩
    exact ⟨hfinished, hran, fun t ht => hleft t (hperm.subset ht)⟩

theorem covered_of_ran {timer ran : List (Timer α)}
    (h : ∀ t ∈ m.timer, t.due m.timeline = true → t ∈ ran) : Covered m timer ran :=
  fun t ht hdue => .inl (h t ht hdue)

theorem deletedIds_own {timerId : Nat} {calls : List (TimerCall α)}
    (hcalls : ∀ call ∈ calls, call = .deleteTimer timerId) :
    (∀ id ∈ deletedIds calls, id = timerId) ∧
      (timerId ∈ deletedIds calls ↔ .deleteTimer timerId ∈ calls ∧ timerId ≠ 0) := by
  induction calls with
  | nil => simp [deletedIds]
  | cons call calls ih =>
      obtain rfl := hcalls call List.mem_cons_self
      have hrest := ih fun call hmem => hcalls call (List.mem_cons_of_mem _ hmem)
      unfold deletedIds
      by_cases hzero : timerId < 1
      · rw [if_pos hzero]
        refine ⟨hrest.1, ?_⟩
        rw [hrest.2]
        have hid : timerId = 0 := by omega
        simp [hid]
      · rw [if_neg hzero]
        have hid : timerId ≠ 0 := by omega
        refine ⟨?_, by simp [hid]⟩
        intro id hmem
        obtain rfl | hmem := List.mem_cons.mp hmem
        · rfl
        · exact hrest.1 id hmem

theorem sparesDue_gone_iff {timer : List (Timer α)}
    (hperform : (p.mgr.perform (env.calls p.ran.length p.top)).1 = { p.mgr with timer := timer })
    (hgone : ∀ t ∈ timer, t.id ≠ p.top.id) :
    SparesDue env p ↔ ∀ t ∈ timer, t.due p.mgr.timeline = false := by
  simp only [SparesDue, hperform]
  constructor
  · intro h
    exact h.2 hgone
  · intro hleft
    refine ⟨?_, fun _ => hleft⟩
    rintro ⟨t, ht, hid⟩
    exact absurd hid (hgone t ht)

theorem sparesDue_found_iff {timer : List (Timer α)}
    (hperform : (p.mgr.perform (env.calls p.ran.length p.top)).1 = { p.mgr with timer := timer })
    (hfound : ∃ t ∈ timer, t.id = p.top.id) :
    SparesDue env p ↔ ∀ t, timer.getLast? = some t → t.due p.mgr.timeline = true →
      t = p.top ∨ t ∈ p.ran := by
  simp only [SparesDue, hperform]
  constructor
  · intro h
    exact h.1 hfound
  · intro hlast
    refine ⟨fun _ => hlast, fun hgone => ?_⟩
    obtain ⟨t, ht, hid⟩ := hfound
    exact absurd hid (hgone t ht)

theorem spareDue_leave_iff {p' : Pass α} (hdue : p.top.deadline ≤ p.mgr.timeline)
    (hbody : whileBody env p = (p', .leave)) : SpareDue env (fuel + 1) p ↔ SparesDue env p := by
  rw [SpareDue, hbody]
  constructor
  · intro h
    exact (h hdue).1
  · intro hspares _
    refine ⟨hspares, fun q hq => ?_⟩
    cases hq

theorem spareDue_again_iff {p' : Pass α} (hdue : p.top.deadline ≤ p.mgr.timeline)
    (hbody : whileBody env p = (p', .again)) :
    SpareDue env (fuel + 1) p ↔ SparesDue env p ∧ SpareDue env fuel p' := by
  rw [SpareDue, hbody]
  constructor
  · intro h
    exact ⟨(h hdue).1, (h hdue).2 p' rfl⟩
  · rintro ⟨hspares, hrest⟩ -
    refine ⟨hspares, fun q hq => ?_⟩
    cases hq
    exact hrest

/-- Where no two timers have the same id, an action may delete its own timer when no other one is
due, and not before. -/
theorem sparesDue_iff (hown : DeletesOwn env) (hids : (p.mgr.timer.map Timer.id).Nodup)
    (htop : ∃ l, p.mgr.timer = l ++ [p.top]) :
    SparesDue env p ↔
      (.deleteTimer p.top.id ∈ env.calls p.ran.length p.top → p.top.id ≠ 0 →
        ∀ t ∈ p.mgr.timer, t ≠ p.top → t.due p.mgr.timeline = false) := by
  have hcalls := hown p.ran.length p.top
  obtain ⟨hall, hmem⟩ := deletedIds_own hcalls
  obtain ⟨timer, hperform, hperm, -⟩ :=
    perform_deletes (m := p.mgr) hids fun call hcall => ⟨_, hcalls call hcall⟩
  obtain ⟨timer', hperform', hspared⟩ := perform_own (m := p.mgr) hcalls
  obtain rfl : timer = timer' := by
    rw [hperform] at hperform'
    exact congrArg (fun r => r.1.timer) hperform'
  obtain ⟨l, hl⟩ := htop
  have htop : p.top ∈ p.mgr.timer := by simp [hl]
  rw [← and_imp, ← hmem]
  have hmgr := congrArg Prod.fst hperform
  by_cases hdel : p.top.id ∈ deletedIds (env.calls p.ran.length p.top)
  · have hleft : ∀ t, t ∈ timer ↔ t ∈ p.mgr.timer ∧ t ≠ p.top := by
      intro t
      rw [hperm.mem_iff, List.mem_filter, decide_eq_true_iff]
      refine and_congr_right fun ht => not_congr ⟨fun hid => ?_, fun hid => hid ▸ hdel⟩
      exact List.inj_on_of_nodup_map hids ht htop (hall _ hid)
    have hgone : ∀ t ∈ timer, t.id ≠ p.top.id := by
      intro t ht hid
      obtain ⟨hold, hne⟩ := (hleft t).mp ht
      exact hne (List.inj_on_of_nodup_map hids hold htop hid)
    rw [sparesDue_gone_iff hmgr hgone]
    constructor
    · intro h _ t ht hne
      exact h t ((hleft t).mpr ⟨ht, hne⟩)
    · intro h t ht
      exact h hdel t ((hleft t).mp ht).1 ((hleft t).mp ht).2
  · have hnone : ∀ t ∈ p.mgr.timer, t.id ∉ deletedIds (env.calls p.ran.length p.top) :=
      fun t _ hid => hdel (hall _ hid ▸ hid)
    rw [List.filter_eq_self.mpr fun t ht => decide_eq_true (hnone t ht)] at hperm
    have hsame : timer = p.mgr.timer := by
      refine hspared.changed.resolve_right fun hchanged => ?_
      have hless := hchanged.2 ⟨p.top, htop, rfl⟩
      rw [hperm.length_eq] at hless
      exact lt_irrefl _ hless
    rw [sparesDue_found_iff hmgr ⟨p.top, by rw [hsame]; exact htop, rfl⟩, hsame]
    refine iff_of_true (fun t hlast _ => ?_) fun h => absurd h hdel
    rw [hl, List.getLast?_concat] at hlast
    exact .inl (Option.some.inj hlast).symm

/-- What an iteration does to the timers. -/
theorem Waiting.iteration (hinterval : ∀ t ∈ m.timer, t.isRepeat = true → 1 ≤ t.interval)
    (hown : DeletesOwn env) (h : Waiting m p) (hdue : p.top.deadline ≤ p.mgr.timeline) :
    ∃ timer, (p.mgr.perform (env.calls p.ran.length p.top)).1 = { p.mgr with timer := timer } ∧
      Spared p.top.id p.mgr.timer timer ∧
      ((∀ t ∈ timer, t.id ≠ p.top.id) ∧ whileBody env p =
        (⟨{ p.mgr with timer := timer }, p.top, p.ran ++ [p.top], p.added⟩, .leave) ∨
      (∃ t ∈ timer, t.id = p.top.id) ∧ ∃ p' next, whileBody env p = (p', next) ∧
        p'.ran = p.ran ++ [p.top] ∧ p'.mgr.timer.Perm
          (timer.dropLast ++ again { p.mgr with timer := timer } p.top) ∧
        match next with
        | .again => Waiting m p' ∧
            measure m.timeline p'.mgr.timer < measure m.timeline p.mgr.timer
        | .leave => p'.mgr.timer = []) := by
  have htimeline := h.timeline_eq
  have htop := h.top_mem_start hdue
  have hlater := hinterval p.top htop
  obtain ⟨timer, hperform, hspared, hleave | ⟨hfound, p', next, hbody, hran, htimeline', hnext,
    hmatch⟩⟩ := whileBody_own hown p
  · exact ⟨timer, hperform, hspared, .inl hleave⟩
  · refine ⟨timer, hperform, hspared, .inr ⟨hfound, p', next, hbody, hran, hnext, ?_⟩⟩
    cases next with
    | leave => exact hmatch
    | again =>
        obtain ⟨l, hl, hheap, -⟩ := h.earliest
        have hdueFrom := h.due.next { p.mgr with timer := timer } hlater htimeline
          hspared hnext
        rw [hl] at hspared
        obtain ⟨t, ht, -⟩ := hfound
        have hless := measure_next hlater (decide_eq_true hdue) hspared
          (List.ne_nil_of_mem ht) hnext
        rw [htimeline, ← hl] at hless
        refine ⟨⟨htimeline'.trans htimeline, ?_, hdueFrom, hmatch.2 ?_⟩, hless⟩
        · intro t ht
          rw [hran] at ht
          obtain ht | ht := List.mem_append.mp ht
          · exact h.ran_mem t ht
          · rw [List.mem_singleton.mp ht]
            exact htop
        · exact hspared.isHeap_dropLast hheap

/-- A timer that was due and is lost does not run any more. -/
theorem Waiting.lost (hinterval : ∀ t ∈ m.timer, t.isRepeat = true → 1 ≤ t.interval)
    (hown : DeletesOwn env) (h : Waiting m p) (hlost : ¬ Covered m p.mgr.timer p.ran) :
    ¬ AllDueRun m (finish (whileLoop env fuel p).1 (whileLoop env fuel p).2) := by
  induction fuel generalizing p with
  | zero =>
      rw [allDueRun_finish]
      rintro ⟨hfinished, -⟩
      cases hfinished
  | succ fuel ih =>
      by_cases hgo : env.isStart p.ran.length = true ∧ p.top.deadline ≤ p.mgr.timeline
      · have htop := h.top_mem_start hgo.2
        obtain ⟨timer, -, hspared, ⟨-, hbody⟩ | ⟨-, p', next, hbody, hran, hnext, hmatch⟩⟩ :=
          h.iteration hinterval hown hgo.2
        · rw [whileLoop_leave hgo hbody, allDueRun_finish]
          rintro ⟨-, hall, -⟩
          have hcovered : Covered m timer (p.ran ++ [p.top]) := covered_of_ran hall
          exact hlost (hcovered.of_next h.top_mem fun t _ ht => hspared.subperm.subset ht)
        · have hkept : Covered m p'.mgr.timer p'.ran → Covered m p.mgr.timer p.ran := by
            rw [hran]
            apply Covered.of_next h.top_mem
            intro t hdue ht
            have hin := (due_next_iff { p.mgr with timer := timer }
              (hinterval p.top htop) h.timeline_eq hnext hdue).mp ht
            exact hspared.subperm.subset (List.dropLast_subset _ hin)
          cases next with
          | again =>
              rw [whileLoop_again hgo hbody]
              exact ih hmatch.1 (fun hcovered => hlost (hkept hcovered))
          | leave =>
              rw [whileLoop_leave hgo hbody, allDueRun_finish]
              rintro ⟨-, hall, -⟩
              exact hlost (hkept (covered_of_ran hall))
      · rw [whileLoop_stop hgo, allDueRun_finish]
        rintro ⟨-, hall, -⟩
        exact hlost (covered_of_ran hall)

/-- The loop ends with all due timers run exactly when no action it comes to loses one. -/
theorem Waiting.allDueRun_iff (hids : (m.timer.map Timer.id).Nodup)
    (hinterval : ∀ t ∈ m.timer, t.isRepeat = true → 1 ≤ t.interval) (hown : DeletesOwn env)
    (hstart : ∀ j, env.isStart j = true) (h : Waiting m p)
    (hcovered : Covered m p.mgr.timer p.ran)
    (hfuel : measure m.timeline p.mgr.timer < fuel) :
    AllDueRun m (finish (whileLoop env fuel p).1 (whileLoop env fuel p).2) ↔
      SpareDue env fuel p := by
  induction fuel generalizing p with
  | zero => omega
  | succ fuel ih =>
      have htimeline := h.timeline_eq
      by_cases hdue : p.top.deadline ≤ p.mgr.timeline
      · have hgo : env.isStart p.ran.length = true ∧ p.top.deadline ≤ p.mgr.timeline :=
          ⟨hstart _, hdue⟩
        have htop := h.top_mem_start hdue
        obtain ⟨timer, hperform, hspared, ⟨hnone, hbody⟩ | ⟨hfound, p', next, hbody, hran, hnext,
          hmatch⟩⟩ := h.iteration hinterval hown hdue
        · -- the timer deleted itself: the loop is left with the vector as it is
          rw [whileLoop_leave hgo hbody, allDueRun_finish, spareDue_leave_iff hdue hbody,
            sparesDue_gone_iff hperform hnone, htimeline]
          refine ⟨fun hall => hall.2.2, fun hleft => ⟨rfl, ?_, hleft⟩⟩
          intro t ht htdue
          obtain hran | hmem := hcovered t ht htdue
          · exact List.mem_append_left _ hran
          · by_cases hsame : t = p.top
            · rw [hsame]
              exact List.mem_append_right _ (List.mem_singleton_self _)
            · have hin := mem_after hids htop hspared ht hsame hmem
              rw [hleft t hin] at htdue
              cases htdue
        · have hkept := covered_next_iff { p.mgr with timer := timer } hids htop
            (hinterval p.top htop) htimeline h.due hspared hnext hcovered
          rw [← hran] at hkept
          have hfirst : SparesDue env p ↔ Covered m p'.mgr.timer p'.ran := by
            rw [hkept, sparesDue_found_iff hperform hfound, htimeline]
          cases next with
          | leave =>
              rw [whileLoop_leave hgo hbody, allDueRun_finish, spareDue_leave_iff hdue hbody,
                hfirst, hmatch]
              constructor
              · rintro ⟨-, hall, -⟩
                exact covered_of_ran hall
              · intro hall
                refine ⟨rfl, fun t ht htdue => (hall t ht htdue).resolve_right ?_, ?_⟩
                · exact List.not_mem_nil
                · exact fun t ht => absurd ht List.not_mem_nil
          | again =>
              rw [whileLoop_again hgo hbody, spareDue_again_iff hdue hbody, hfirst]
              by_cases hnow : Covered m p'.mgr.timer p'.ran
              · rw [ih hmatch.1 hnow (by omega)]
                exact (and_iff_right hnow).symm
              · exact iff_of_false (hmatch.1.lost hinterval hown hnow) fun h => hnow h.1
      · have hgo : ¬ (env.isStart p.ran.length = true ∧ p.top.deadline ≤ p.mgr.timeline) :=
          fun h => hdue h.2
        have hnone := h.earliest.none_due hdue
        rw [whileLoop_stop hgo, allDueRun_finish, ← htimeline]
        refine iff_of_true ⟨rfl, ?_, hnone⟩ fun h => absurd h hdue
        intro t ht htdue
        obtain hran | hmem := hcovered t ht (htimeline ▸ htdue)
        · exact hran
        · rw [hnone t hmem] at htdue
          cases htdue

end Loop

section Pass

variable {env : Env α} {m : TimerManager α} {fuel : Nat}

theorem waiting_start (hids : (m.timer.map Timer.id).Nodup) (hheap : IsHeap Timer.gt m.timer)
    {x : Timer α} {rest l : List (Timer α)} (hx : m.timer = x :: rest)
    (hpop : popHeap Timer.gt (x :: rest) = l ++ [x]) (hl : l.Perm rest)
    (hall : (l ++ [x]).Perm m.timer) :
    Waiting m { mgr := { m with timer := l ++ [x] }, top := x } where
  timeline_eq := rfl
  ran_mem := fun t ht => absurd ht List.not_mem_nil
  due :=
    { mem := fun t ht _ => hall.subset ht
      nodup := (hall.nodup_iff.mpr (List.Nodup.of_map _ hids)).filter _ }
  earliest := by
    rw [hx] at hheap
    exact earliest_popHeap hheap hpop hl

/-- A pass whose actions delete their own timers at most runs all that is due if and only if no
action takes a due timer along or ends the loop before one. -/
theorem allDueRun_iff_sparesDue (hids : (m.timer.map Timer.id).Nodup)
    (hheap : IsHeap Timer.gt m.timer)
    (hinterval : ∀ t ∈ m.timer, t.isRepeat = true → 1 ≤ t.interval) (hown : DeletesOwn env)
    (hstart : ∀ j, env.isStart j = true) (hfuel : 2 * m.timer.length < fuel) :
    AllDueRun m (loopForExecute env fuel m) ↔ PassSparesDue env fuel m := by
  cases hl : m.timer with
  | nil =>
      have hnone : ∀ t ∈ m.timer, t ∉ m.timer := by simp [hl]
      have hspares : PassSparesDue env fuel m := by
        intro top htop
        rw [hl] at htop
        cases htop
      refine iff_of_true ⟨?_, ?_, ?_⟩ hspares
      · simp only [loopForExecute, executeLocked_nil hl]
      · exact fun t ht => absurd ht (hnone t ht)
      · intro t ht
        simp only [loopForExecute, executeLocked_nil hl, advance] at ht
        exact absurd ht (hnone t ht)
  | cons x rest =>
      obtain ⟨l, hpop, hperm, heq⟩ := executeLocked_cons hl
      have hall : (l ++ [x]).Perm m.timer := by
        rw [hl]
        exact concat_perm_cons hperm
      have hwaiting := waiting_start hids hheap hl hpop hperm hall
      have hmeasure : measure m.timeline (l ++ [x]) < fuel := by
        have hle := measure_le m.timeline (l ++ [x])
        rw [hall.length_eq] at hle
        exact hle.trans_lt hfuel
      have hcovered : Covered m (l ++ [x]) [] := fun t ht _ => .inr (hall.symm.subset ht)
      have hloop := hwaiting.allDueRun_iff hids hinterval hown hstart hcovered hmeasure
      have hpass : PassSparesDue env fuel m ↔
          SpareDue env fuel { mgr := { m with timer := l ++ [x] }, top := x } := by
        rw [PassSparesDue, hl, hpop]
        simp
      rw [hpass, ← hloop]
      constructor
      · rintro ⟨hfinished, hran, hleft⟩
        rw [loopForExecute, heq] at hfinished hran hleft
        exact ⟨hfinished, hran, hleft⟩
      · rintro ⟨hfinished, hran, hleft⟩
        refine ⟨?_, ?_, ?_⟩
        · rw [loopForExecute, heq]
          exact hfinished
        · rw [loopForExecute, heq]
          exact hran
        · rw [loopForExecute, heq]
          exact hleft

end Pass

/-! ### The earliest timer deletes itself -/

/-- Two due timers. -/
def twoDue : TimerManager Unit where
  timeline := 5
  autoIncrementId := 3
  timer := [⟨1, 4, 4, (), true⟩, ⟨2, 5, 5, (), true⟩]

/-- The action of one timer deletes it. -/
def selfDeletingEnv (timerId : Nat) : Env Unit where
  isStart := fun _ => true
  calls := fun _ t => if t.id = timerId then [.deleteTimer timerId] else []

theorem deletesOwn_selfDeletingEnv (timerId : Nat) : DeletesOwn (selfDeletingEnv timerId) := by
  intro i t call hcall
  by_cases hid : t.id = timerId
  · simp only [selfDeletingEnv, if_pos hid, List.mem_singleton] at hcall
    rw [hcall, hid]
  · simp [selfDeletingEnv, hid] at hcall

/-- Timer 2 is the last one due. -/
theorem allDueRun_iff_sparesDue_second :
    AllDueRun twoDue (loopForExecute (selfDeletingEnv 2) 5 twoDue) ↔
      PassSparesDue (selfDeletingEnv 2) 5 twoDue :=
  allDueRun_iff_sparesDue (by decide) (by decide) (by decide) (deletesOwn_selfDeletingEnv 2)
    (fun _ => rfl) (by decide)

/-- When timer 1 deletes itself the pass ends without timer 2. -/
theorem first_delays_second :
    ¬ ∀ (m : TimerManager Unit) (env : Env Unit), (m.timer.map Timer.id).Nodup →
      IsHeap Timer.gt m.timer → (∀ t ∈ m.timer, t.isRepeat = true → 1 ≤ t.interval) →
      DeletesOwn env → (∀ j, env.isStart j = true) →
      ∃ fuel, AllDueRun m (loopForExecute env fuel m) := by
  intro hclaim
  obtain ⟨fuel, hall⟩ := hclaim twoDue (selfDeletingEnv 1) (by decide) (by decide) (by decide)
    (deletesOwn_selfDeletingEnv 1) fun _ => rfl
  cases fuel with
  | zero => exact absurd hall.finished (by decide)
  | succ fuel =>
      have hsame : loopForExecute (selfDeletingEnv 1) (fuel + 1) twoDue =
          loopForExecute (selfDeletingEnv 1) 1 twoDue := rfl
      rw [hsame] at hall
      exact absurd (hall.ran ⟨2, 5, 5, (), true⟩ (by decide) (by decide)) (by decide)

end TimerManager

end ToyBasket
