import ToyBasket.Timer.Pass

/-!
# Timers added from inside an action

While an action runs, its timer waits at the end of the vector for `pop_back`. A timer the action
adds goes behind it, or changes places with a parent, so `pop_back` takes another timer away and the
one that ran stays. A pass keeps every timer exactly when none of its actions adds one.
-/

namespace ToyBasket

open Words StdHeap

namespace TimerManager

variable {α : Type}

/-- A pass whose action number `i` adds the timers of `script i`. -/
def addingEnv (isStart : Nat → Bool) (script : Nat → List (TimerArgs α)) : Env α where
  isStart := isStart
  calls := fun i _ => (script i).map .addTimer

def PassResult.hasRun (r : PassResult α) (t : Timer α) : Bool := r.ran.any (Timer.eq t)

/-- The pass has ended, no one-shot timer ran twice, and the vector holds the timers that did not
run, those the actions added and a new entry for each repeating timer that ran. -/
structure Kept (m : TimerManager α) (r : PassResult α) : Prop where
  finished : r.finished = true
  once : ∀ t ∈ m.timer ++ r.added, t.isRepeat = false → r.ran.countP (Timer.eq t) ≤ 1
  perm : r.mgr.timer.Perm ((m.timer.filter fun t => !r.hasRun t) ++ r.added ++
    (m.timer.filter fun t => t.isRepeat && r.hasRun t).map (Timer.renew m.timeline))

/-- Repeating intervals and the delays of the timers added are at least 1; the ids are below `2^31`
and no two are the same. -/
structure Admissible (isStart : Nat → Bool) (script : Nat → List (TimerArgs α))
    (m : TimerManager α) : Prop where
  interval_pos : ∀ t ∈ m.timer, t.isRepeat → 1 ≤ t.interval
  delay : ∀ i, ∀ args ∈ script i, 1 ≤ args.interval ∧ args.isNoDelay = false
  id_lt : ∀ fuel, ∀ t ∈ m.timer ++ (loopForExecute (addingEnv isStart script) fuel m).added,
    t.id < 2 ^ 31
  distinct : ∀ fuel,
    ((m.timer ++ (loopForExecute (addingEnv isStart script) fuel m).added).map Timer.id).Nodup

/-- None of the actions the pass comes to adds a timer: it runs one for each due timer unless the
manager is stopped before. -/
def AddsNothing (isStart : Nat → Bool) (script : Nat → List (TimerArgs α))
    (m : TimerManager α) : Prop :=
  ∀ i < (m.timer.filter (Timer.due m.timeline)).length, (∀ j ≤ i, isStart j = true) → script i = []

variable {isStart : Nat → Bool} {script : Nat → List (TimerArgs α)} {m : TimerManager α}

theorem Admissible.sound (h : Admissible isStart script m) : Sound m.timer where
  id_lt := fun t ht => h.id_lt 0 t (List.mem_append_left _ ht)
  interval_pos := h.interval_pos

theorem Admissible.nodup (h : Admissible isStart script m) : (m.timer.map Timer.id).Nodup := by
  have hids := h.distinct 0
  rw [List.map_append] at hids
  exact (List.nodup_append.mp hids).1

/-! ### No action adds a timer -/

theorem hasRun_of_perm {r : PassResult α} {waiting : List (Timer α)}
    (hids : (m.timer.map Timer.id).Nodup) (hperm : m.timer.Perm (r.ran ++ waiting)) :
    (r.ran.map Timer.id).Nodup ∧ (∀ t ∈ r.ran, r.hasRun t = true) ∧
      ∀ t ∈ waiting, r.hasRun t = false := by
  have hall := (hperm.map Timer.id).nodup_iff.mp hids
  rw [List.map_append, List.nodup_append] at hall
  obtain ⟨hran, -, hdisjoint⟩ := hall
  refine ⟨hran, ?_, ?_⟩
  · intro t ht
    exact List.any_eq_true.mpr ⟨t, ht, by simp [Timer.eq]⟩
  · intro t ht
    rw [PassResult.hasRun, List.any_eq_false]
    intro u hu heq
    simp only [Timer.eq, beq_iff_eq] at heq
    exact hdisjoint _ (List.mem_map_of_mem hu) _ (List.mem_map_of_mem ht) heq.symm

theorem countP_eq_le_one {l : List (Timer α)} (h : (l.map Timer.id).Nodup) (t : Timer α) :
    l.countP (Timer.eq t) ≤ 1 := by
  calc
    l.countP (Timer.eq t) = (l.map Timer.id).count t.id := by
      rw [List.count, List.countP_map]
      apply List.countP_congr
      intro u _
      simp only [Timer.eq, Function.comp_apply, beq_iff_eq]
      exact eq_comm
    _ ≤ 1 := List.nodup_iff_count.mp h t.id

theorem Completed.kept {env : Env α} {r : PassResult α} (hm : Sound m.timer)
    (hids : (m.timer.map Timer.id).Nodup) (h : Completed env m r) : Kept m r where
  finished := h.finished
  once := by
    obtain ⟨waiting, hfirst, -⟩ := h.balanced.waiting hm
    intro t _ _
    exact countP_eq_le_one (hasRun_of_perm hids hfirst).1 t
  perm := by
    obtain ⟨waiting, hfirst, hlast⟩ := h.balanced.waiting hm
    obtain ⟨-, hran, hwaiting⟩ := hasRun_of_perm hids hfirst
    have hkeep : (m.timer.filter fun t => !r.hasRun t).Perm waiting :=
      calc
        (m.timer.filter fun t => !r.hasRun t).Perm
            ((r.ran ++ waiting).filter fun t => !r.hasRun t) := hfirst.filter _
        _ = waiting := by
          rw [List.filter_append, List.filter_eq_nil_iff.mpr fun t ht => by simp [hran t ht],
            List.filter_eq_self.mpr fun t ht => by simp [hwaiting t ht], List.nil_append]
    have hnone : waiting.filter (fun t => t.isRepeat && r.hasRun t) = [] :=
      List.filter_eq_nil_iff.mpr fun t ht => by simp [hwaiting t ht]
    have hall : r.ran.filter (fun t => t.isRepeat && r.hasRun t) = r.ran.filter (·.isRepeat) :=
      List.filter_congr fun t ht => by rw [hran t ht, Bool.and_true]
    have hagain : (m.timer.filter fun t => t.isRepeat && r.hasRun t).Perm
        (r.ran.filter (·.isRepeat)) :=
      calc
        (m.timer.filter fun t => t.isRepeat && r.hasRun t).Perm
            ((r.ran ++ waiting).filter fun t => t.isRepeat && r.hasRun t) := hfirst.filter _
        _ = r.ran.filter (·.isRepeat) := by
          rw [List.filter_append, hnone, hall, List.append_nil]
    rw [h.added_eq, List.append_nil]
    exact hlast.trans (hkeep.symm.append (hagain.symm.map _))

theorem kept_loopForExecute {env : Env α} {fuel : Nat} :
    Kept m (loopForExecute env fuel m) ↔ Kept m (executeLocked env fuel m) :=
  ⟨fun h => ⟨h.finished, h.once, h.perm⟩, fun h => ⟨h.finished, h.once, h.perm⟩⟩

theorem kept_of_addsNothing (h : Admissible isStart script m)
    (hnothing : AddsNothing isStart script m) :
    ∃ fuel, Kept m (loopForExecute (addingEnv isStart script) fuel m) := by
  refine ⟨_, kept_loopForExecute.mpr (Completed.kept h.sound h.nodup
    (completed_executeLocked h.sound (Nat.lt_succ_self _) ?_))⟩
  intro i t hi hstart
  change (script i).map TimerCall.addTimer = []
  rw [hnothing i hi hstart, List.map_nil]

/-! ### An action adds a timer -/

structure Added (m m' : TimerManager α) (args : List (TimerArgs α)) (added : List (Timer α)) :
    Prop where
  perm : m'.timer.Perm (m.timer ++ added)
  length_eq : added.length = args.length
  timeline_eq : m'.timeline = m.timeline
  stays : ∀ (j : Nat) (t : Timer α), m.timer[j]? = some t → t.deadline ≤ m.timeline →
    m'.timer[j]? = some t

theorem added_perform (mgr : TimerManager α) {args : List (TimerArgs α)}
    (hdelay : ∀ a ∈ args, 1 ≤ a.interval ∧ a.isNoDelay = false) :
    Added mgr (mgr.perform (args.map .addTimer)).1 args (mgr.perform (args.map .addTimer)).2 := by
  induction args generalizing mgr with
  | nil =>
      exact
        { perm := by simp [perform]
          length_eq := rfl
          timeline_eq := rfl
          stays := fun _ _ hj _ => hj }
  | cons a args ih =>
      obtain ⟨hinterval, hnoDelay⟩ := hdelay a List.mem_cons_self
      have hlater : mgr.timeline < (mgr.event a).deadline := by
        simp only [event, Timer.new, hnoDelay, Bool.false_eq_true, if_false]
        omega
      have hrest := ih (mgr.addTimer a).2 fun b hb => hdelay b (List.mem_cons_of_mem a hb)
      simp only [List.map_cons, perform]
      refine ⟨?_, congrArg (· + 1) hrest.length_eq, hrest.timeline_eq, ?_⟩
      · have hpush := pushHeap_perm Timer.gt (mgr.timer ++ [mgr.event a])
        apply hrest.perm.trans
        rw [← List.singleton_append, ← List.append_assoc]
        exact hpush.append_right _
      · intro j t hj hdue
        apply hrest.stays j t _ hdue
        exact getElem?_pushHeap_of_not_gt Timer.gt hj (Timer.gt_eq_false.mpr (by omega))

/-- The vector has lost `x`, which was added or was due to come back. -/
structure Missing (m : TimerManager α) (x : Timer α) (timer ran added : List (Timer α)) : Prop where
  absent : ∀ t ∈ timer, t.id ≠ x.id
  known : ∀ t ∈ timer, t.id ∈ (m.timer ++ added).map Timer.id
  owed : x ∈ added ∨ ∃ t ∈ m.timer, t.id = x.id ∧ (t.isRepeat ∨ ∀ r ∈ ran, r.id ≠ x.id)

abbrev Lost (m : TimerManager α) (x : Timer α) (p : Pass α) : Prop :=
  Missing m x p.mgr.timer p.ran p.added

theorem Lost.not_kept {x : Timer α} {p : Pass α} {finished : Bool} (h : Lost m x p) :
    ¬ Kept m (finish p finished) := by
  intro hkept
  have habsent : ∀ t ∈ (finish p finished).mgr.timer, t.id ≠ x.id := fun t ht =>
    h.absent t ((makeHeap_perm Timer.gt p.mgr.timer).subset ht)
  have hback := fun (t : Timer α) ht => habsent t (hkept.perm.symm.subset ht)
  obtain hadded | ⟨t, ht, hid, hdue⟩ := h.owed
  · exact hback x (by simp [finish, hadded]) rfl
  · by_cases hran : (finish p finished).hasRun t
    · obtain ⟨r, hr, heq⟩ := List.any_eq_true.mp hran
      simp only [Timer.eq, beq_iff_eq] at heq
      have hrepeat := hdue.resolve_right fun hnot => hnot r hr (heq.symm.trans hid)
      apply hback (t.renew m.timeline) _ hid
      apply List.mem_append_right
      exact List.mem_map_of_mem (List.mem_filter.mpr ⟨ht, by simp [hrepeat, hran]⟩)
    · apply hback t _ hid
      rw [List.append_assoc]
      exact List.mem_append_left _ (List.mem_filter.mpr ⟨ht, by simpa using hran⟩)

section Loss

variable {p : Pass α} {x : Timer α}

theorem missing_whileBody (env : Env α) {mgr : TimerManager α} {added : List (Timer α)}
    (hperform : p.mgr.perform (env.calls p.ran.length p.top) = (mgr, added))
    (hid : p.top.id < 2 ^ 31) (htop : p.top ∈ mgr.timer) (hne : p.top.id ≠ x.id)
    (htopKnown : p.top.id ∈ (m.timer ++ (p.added ++ added)).map Timer.id)
    (h : Missing m x mgr.timer.dropLast (p.ran ++ [p.top]) (p.added ++ added)) :
    ∃ p' next, whileBody env p = (p', next) ∧ p'.added = p.added ++ added ∧
      Lost m x p' ∧ (next = .again → p'.top ∈ p'.mgr.timer) := by
  have hrequeued : ∀ t ∈ requeue mgr.timeline p.top mgr.timer.dropLast,
      t ∈ mgr.timer.dropLast ∨ t.id = p.top.id := by
    intro t ht
    have hmem := (requeue_perm mgr.timeline p.top mgr.timer.dropLast).subset ht
    rw [List.mem_append] at hmem
    apply hmem.imp_right
    intro hnew
    simpa using id_mem_of_mem_renewed hnew
  have hmissing : Missing m x (requeue mgr.timeline p.top mgr.timer.dropLast)
      (p.ran ++ [p.top]) (p.added ++ added) := by
    refine ⟨?_, ?_, h.owed⟩
    · intro t ht
      obtain ht | heq := hrequeued t ht
      · exact h.absent t ht
      · rwa [heq]
    · intro t ht
      obtain ht | heq := hrequeued t ht
      · exact h.known t ht
      · rwa [heq]
  obtain ⟨hempty, hbody⟩ | ⟨y, rest, l', hrest, -, hl', hbody⟩ :=
    whileBody_of_mem hperform hid htop
  · rw [hempty] at hmissing
    exact ⟨_, _, hbody, rfl, hmissing, by simp⟩
  · rw [hrest] at hmissing
    have hsame : (l' ++ [y]).Perm (y :: rest) := concat_perm_cons hl'
    refine ⟨_, _, hbody, rfl, ⟨?_, ?_, hmissing.owed⟩, by simp⟩
    · exact fun t ht => hmissing.absent t (hsame.subset ht)
    · exact fun t ht => hmissing.known t (hsame.subset ht)

structure Losing (m : TimerManager α) (x : Timer α) (p : Pass α) : Prop where
  missing : Lost m x p
  top_mem : p.top ∈ p.mgr.timer

/-- What is asked of the ids, of a state of the loop. -/
structure GoodIds (m : TimerManager α) (added : List (Timer α)) : Prop where
  id_lt : ∀ t ∈ m.timer ++ added, t.id < 2 ^ 31
  distinct : ((m.timer ++ added).map Timer.id).Nodup

theorem GoodIds.lt_of_mem {added : List (Timer α)} (h : GoodIds m added) {id : Nat}
    (hid : id ∈ (m.timer ++ added).map Timer.id) : id < 2 ^ 31 := by
  obtain ⟨t, ht, rfl⟩ := List.mem_map.mp hid
  exact h.id_lt t ht

theorem added_whileBody (env : Env α) (p : Pass α) :
    (whileBody env p).1.added
      = p.added ++ (p.mgr.perform (env.calls p.ran.length p.top)).2 := by
  unfold whileBody
  simp only
  repeat' split
  all_goals rfl

theorem Losing.body (hdelay : ∀ i, ∀ a ∈ script i, 1 ≤ a.interval ∧ a.isNoDelay = false)
    (hids : GoodIds m (whileBody (addingEnv isStart script) p).1.added) (h : Losing m x p) :
    ∃ p' next, whileBody (addingEnv isStart script) p = (p', next) ∧
      Lost m x p' ∧ (next = .again → Losing m x p') := by
  have hadd := added_perform p.mgr (hdelay p.ran.length)
  rw [added_whileBody] at hids
  cases hperform : p.mgr.perform ((script p.ran.length).map .addTimer) with
  | mk mgr added =>
  simp only [addingEnv, hperform] at hadd hids
  have hold : ∀ id ∈ (m.timer ++ p.added).map Timer.id,
      id ∈ (m.timer ++ (p.added ++ added)).map Timer.id := by
    intro id hid
    rw [← List.append_assoc, List.map_append]
    exact List.mem_append_left _ hid
  have hxid : x.id ∈ (m.timer ++ p.added).map Timer.id := by
    obtain hx | ⟨t, ht, hid, -⟩ := h.missing.owed
    · exact List.mem_map_of_mem (List.mem_append_right _ hx)
    · exact hid ▸ List.mem_map_of_mem (List.mem_append_left _ ht)
  have htop := hadd.perm.symm.subset (List.mem_append_left added h.top_mem)
  have htopKnown := hold _ (h.missing.known _ h.top_mem)
  have hmissing : Missing m x mgr.timer.dropLast (p.ran ++ [p.top]) (p.added ++ added) := by
    refine ⟨?_, ?_, ?_⟩
    · intro t ht
      have hmem := hadd.perm.subset (List.dropLast_subset _ ht)
      obtain hmem | hmem := List.mem_append.mp hmem
      · exact h.missing.absent t hmem
      · have hdistinct := hids.distinct
        rw [← List.append_assoc, List.map_append, List.nodup_append] at hdistinct
        exact (hdistinct.2.2 _ hxid _ (List.mem_map_of_mem hmem)).symm
    · intro t ht
      have hmem := hadd.perm.subset (List.dropLast_subset _ ht)
      obtain hmem | hmem := List.mem_append.mp hmem
      · exact hold _ (h.missing.known t hmem)
      · exact List.mem_map_of_mem (List.mem_append_right _ (List.mem_append_right _ hmem))
    · apply h.missing.owed.imp (List.mem_append_left _)
      rintro ⟨t, ht, hid, hdue⟩
      refine ⟨t, ht, hid, hdue.imp_right fun hran r hr => ?_⟩
      obtain hr | hr := List.mem_append.mp hr
      · exact hran r hr
      · rw [List.mem_singleton.mp hr]
        exact h.missing.absent _ h.top_mem
  have hne := h.missing.absent _ h.top_mem
  obtain ⟨p', next, hbody, -, hmissing', hmem⟩ :=
    missing_whileBody (addingEnv isStart script) hperform (hids.lt_of_mem htopKnown) htop hne
      htopKnown hmissing
  exact ⟨p', next, hbody, hmissing', fun hagain => ⟨hmissing', hmem hagain⟩⟩

section Contents

variable {ran waiting added : List (Timer α)} {t : Timer α}

theorem nodup_contents {timeline : Nat} (hids : ((ran ++ waiting ++ added).map Timer.id).Nodup) :
    ((waiting ++ renewed timeline ran ++ added).map Timer.id).Nodup := by
  rw [((List.perm_append_comm.append_right added).map Timer.id).nodup_iff] at hids
  apply List.Nodup.sublist _ hids
  simp only [List.map_append, renewed, List.map_map]
  exact ((List.filter_sublist.map Timer.id).append_left _).append_right _

theorem id_mem_of_mem_contents (hfirst : m.timer.Perm (ran ++ waiting))
    (h : t ∈ waiting ++ renewed m.timeline ran ++ added) :
    t.id ∈ (m.timer ++ added).map Timer.id := by
  rw [List.mem_append, List.mem_append] at h
  rw [List.map_append, List.mem_append]
  obtain (hwaiting | hnew) | hadded := h
  · exact .inl (List.mem_map_of_mem (hfirst.symm.subset (List.mem_append_right _ hwaiting)))
  · have hran : ran ⊆ m.timer := fun _ hr => hfirst.symm.subset (List.mem_append_left _ hr)
    exact .inl (List.map_subset _ hran (id_mem_of_mem_renewed hnew))
  · exact .inr (List.mem_map_of_mem hadded)

/-- An entry of the vector was added, or is due to come back, or has not run. -/
theorem owed_of_mem_contents (hfirst : m.timer.Perm (ran ++ waiting))
    (hids : ((ran ++ waiting ++ added).map Timer.id).Nodup)
    (h : t ∈ waiting ++ renewed m.timeline ran ++ added) :
    t ∈ added ∨ ∃ u ∈ m.timer, u.id = t.id ∧ (u.isRepeat ∨ ∀ r ∈ ran, r.id ≠ t.id) := by
  rw [List.mem_append, List.mem_append, mem_renewed] at h
  obtain (hwaiting | ⟨r, hr, hrepeat, rfl⟩) | hadded := h
  · refine .inr ⟨t, hfirst.symm.subset (List.mem_append_right _ hwaiting), rfl, .inr ?_⟩
    intro r hr
    rw [List.map_append, List.map_append, List.nodup_append, List.nodup_append] at hids
    exact hids.1.2.2 _ (List.mem_map_of_mem hr) _ (List.mem_map_of_mem hwaiting)
  · exact .inr ⟨r, hfirst.symm.subset (List.mem_append_left _ hr), rfl, .inl hrepeat⟩
  · exact .inl hadded

end Contents

/-- The first action that adds a timer makes `pop_back` take the last of the vector away. -/
theorem AtHead.losing (hdelay : ∀ i, ∀ a ∈ script i, 1 ≤ a.interval ∧ a.isNoDelay = false)
    (hm : Sound m.timer) (h : AtHead (addingEnv isStart script) m p)
    (hdue : p.top.deadline ≤ p.mgr.timeline) (hadds : script p.ran.length ≠ [])
    (hids : GoodIds m (whileBody (addingEnv isStart script) p).1.added) :
    ∃ x p' next, whileBody (addingEnv isStart script) p = (p', next) ∧
      Lost m x p' ∧ (next = .again → Losing m x p') := by
  have hadd := added_perform p.mgr (hdelay p.ran.length)
  rw [added_whileBody, h.added_eq, List.nil_append] at hids
  cases hperform : p.mgr.perform ((script p.ran.length).map .addTimer) with
  | mk mgr added =>
  simp only [addingEnv, hperform] at hadd hids
  obtain ⟨l, hl, -⟩ := h.split
  obtain ⟨waiting, hfirst, hlast⟩ := h.balanced.waiting hm
  have hall : mgr.timer.Perm (waiting ++ renewed m.timeline p.ran ++ added) :=
    hadd.perm.trans (hlast.append_right added)
  have hfirstIds : ((p.ran ++ waiting ++ added).map Timer.id).Nodup :=
    ((hfirst.append_right added).map Timer.id).nodup_iff.mp hids.distinct
  have hallIds : (mgr.timer.map Timer.id).Nodup := by
    rw [(hall.map Timer.id).nodup_iff]
    exact nodup_contents hfirstIds
  -- `top` has kept its place, which is not the last one
  have hlen : l.length + 1 + added.length = mgr.timer.length := by
    rw [hadd.perm.length_eq, hl, List.length_append, List.length_append, List.length_singleton]
  have hpos : 0 < added.length := by
    rw [hadd.length_eq]
    exact List.length_pos_iff.mpr hadds
  obtain ⟨d, x, hd⟩ : ∃ d x, mgr.timer = d ++ [x] :=
    (List.eq_nil_or_concat' mgr.timer).resolve_left (List.ne_nil_of_length_pos (by omega))
  have htop : p.top ∈ d := by
    have hstays := hadd.stays l.length p.top (by simp [hl]) hdue
    rw [hd, List.length_append, List.length_singleton] at hlen
    rw [hd, List.getElem?_append_left (by omega)] at hstays
    exact List.mem_of_getElem? hstays
  have habsent : ∀ t ∈ d, t.id ≠ x.id := by
    intro t ht
    rw [hd, List.map_append, List.nodup_append] at hallIds
    exact hallIds.2.2 _ (List.mem_map_of_mem ht) _ (by simp)
  have hknown : ∀ t ∈ d, t.id ∈ (m.timer ++ added).map Timer.id := by
    intro t ht
    exact id_mem_of_mem_contents hfirst (hall.subset (hd ▸ List.mem_append_left [x] ht))
  have howed : x ∈ added ∨ ∃ t ∈ m.timer, t.id = x.id ∧
      (t.isRepeat ∨ ∀ r ∈ p.ran ++ [p.top], r.id ≠ x.id) := by
    have hmem := hall.subset (hd ▸ List.mem_append_right d List.mem_cons_self)
    apply (owed_of_mem_contents hfirst hfirstIds hmem).imp_right
    rintro ⟨t, ht, hid, hdue⟩
    refine ⟨t, ht, hid, hdue.imp_right fun hran r hr => ?_⟩
    obtain hr | hr := List.mem_append.mp hr
    · exact hran r hr
    · rw [List.mem_singleton.mp hr]
      exact habsent _ htop
  have hdrop : mgr.timer.dropLast = d := by simp [hd]
  have htopMem : p.top ∈ mgr.timer := hd ▸ List.mem_append_left [x] htop
  obtain ⟨p', next, hbody, -, hlost, hagain⟩ :=
    missing_whileBody (addingEnv isStart script) hperform
      (hids.lt_of_mem (hknown _ htop)) htopMem (habsent _ htop)
      (by rw [h.added_eq]; exact hknown _ htop)
      (by rw [hdrop, h.added_eq]; exact ⟨habsent, hknown, howed⟩)
  exact ⟨x, p', next, hbody, hlost, fun hnext => ⟨hlost, hagain hnext⟩⟩

theorem missing_whileLoop {fuel : Nat} {env : Env α}
    (hbody : ∃ p' next, whileBody env p = (p', next) ∧ Lost m x p' ∧
      (next = .again → Losing m x p'))
    (hgo : env.isStart p.ran.length ∧ p.top.deadline ≤ p.mgr.timeline)
    (hids : ∀ k ≤ fuel + 1, GoodIds m (whileLoop env k p).1.added)
    (hrest : ∀ p', Losing m x p' → (∀ k ≤ fuel, GoodIds m (whileLoop env k p').1.added) →
      Lost m x (whileLoop env fuel p').1) :
    Lost m x (whileLoop env (fuel + 1) p).1 := by
  obtain ⟨p', next, hbody, hlost, hagain⟩ := hbody
  cases next with
  | again =>
      rw [whileLoop_again hgo hbody]
      apply hrest p' (hagain rfl)
      intro k hk
      have hlater := hids (k + 1) (by omega)
      rwa [whileLoop_again hgo hbody] at hlater
  | leave =>
      rw [whileLoop_leave hgo hbody]
      exact hlost

theorem goodIds_whileBody {env : Env α}
    (hgo : env.isStart p.ran.length ∧ p.top.deadline ≤ p.mgr.timeline)
    (hids : GoodIds m (whileLoop env 1 p).1.added) : GoodIds m (whileBody env p).1.added := by
  cases hbody : whileBody env p with
  | mk p' next =>
  cases next with
  | again => rwa [whileLoop_again hgo hbody] at hids
  | leave => rwa [whileLoop_leave hgo hbody] at hids

theorem Losing.whileLoop (hdelay : ∀ i, ∀ a ∈ script i, 1 ≤ a.interval ∧ a.isNoDelay = false)
    (h : Losing m x p) {fuel : Nat}
    (hids : ∀ k ≤ fuel, GoodIds m (whileLoop (addingEnv isStart script) k p).1.added) :
    Lost m x (TimerManager.whileLoop (addingEnv isStart script) fuel p).1 := by
  induction fuel generalizing p with
  | zero => exact h.missing
  | succ fuel ih =>
      by_cases hgo : (addingEnv isStart script).isStart p.ran.length ∧
          p.top.deadline ≤ p.mgr.timeline
      · have hbody := h.body hdelay (goodIds_whileBody hgo (hids 1 (by omega)))
        exact missing_whileLoop hbody hgo hids fun p' h' hids' => ih h' hids'
      · rw [whileLoop_stop hgo]
        exact h.missing

end Loss

theorem exists_first_add (hadds : ¬ AddsNothing isStart script m) :
    ∃ i < (m.timer.filter (Timer.due m.timeline)).length,
      (∀ j ≤ i, isStart j = true) ∧ script i ≠ [] ∧ ∀ j < i, script j = [] := by
  classical
  have hexists : ∃ i, i < (m.timer.filter (Timer.due m.timeline)).length ∧
      (∀ j ≤ i, isStart j = true) ∧ script i ≠ [] := by
    simpa [AddsNothing] using hadds
  obtain ⟨hcount, hstart, hscript⟩ := Nat.find_spec hexists
  refine ⟨Nat.find hexists, hcount, hstart, hscript, fun j hj => ?_⟩
  by_contra hne
  exact Nat.find_min hexists hj ⟨by omega, fun k hk => hstart k (by omega), hne⟩

theorem not_kept_of_adds (h : Admissible isStart script m) (hheap : IsHeap Timer.gt m.timer)
    (hadds : ¬ AddsNothing isStart script m) (fuel : Nat) :
    ¬ Kept m (loopForExecute (addingEnv isStart script) fuel m) := by
  obtain ⟨i, hcount, hstart, hscript, hbefore⟩ := exists_first_add hadds
  cases hl : m.timer with
  | nil =>
      rw [hl] at hcount
      simp at hcount
  | cons x l =>
      obtain ⟨l', hpop, hperm, heq⟩ := executeLocked_cons hl
      have hfirst : AtHead (addingEnv isStart script) m
          { mgr := { m with timer := l' ++ [x] }, top := x } := atHead_start hl hpop hperm
      obtain ⟨p, hhead, rfl, hloop⟩ := hfirst.reach h.sound hheap rfl hcount hstart
        fun j _ hj => by simp [addingEnv, hbefore j hj]
      have hids : ∀ k, GoodIds m (whileLoop (addingEnv isStart script) k p).1.added := by
        intro k
        have hlt := h.id_lt (k + p.ran.length)
        have hdistinct := h.distinct (k + p.ran.length)
        rw [loopForExecute, heq, hloop] at hlt hdistinct
        exact ⟨hlt, hdistinct⟩
      have hdue := hhead.due_top h.sound hheap hcount
      rw [← hhead.balanced.timeline_eq] at hdue
      have hgo : (addingEnv isStart script).isStart p.ran.length ∧
          p.top.deadline ≤ p.mgr.timeline := ⟨hstart _ (Nat.le_refl _), hdue⟩
      obtain ⟨x, hbody⟩ := hhead.losing h.delay h.sound hdue hscript
        (goodIds_whileBody hgo (hids 1))
      have hlost : Lost m x (whileLoop (addingEnv isStart script) (fuel + 1) p).1 :=
        missing_whileLoop hbody hgo (fun k _ => hids k) fun p' h' hids' =>
          h'.whileLoop h.delay hids'
      intro hkept
      rw [kept_loopForExecute, heq] at hkept
      -- the loop had been left, so more fuel ends in the same state
      have hsame := whileLoop_of_le (Nat.le_add_right fuel (1 + p.ran.length)) hkept.finished
      rw [← Nat.add_assoc, hloop] at hsame
      rw [← hsame] at hkept
      exact hlost.not_kept hkept

/-- A pass keeps every timer if and only if none of the actions it comes to adds one. That it keeps
them then does not depend on the order of the vector; the other direction is about heaps, which the
vector is at the start of every pass. -/
theorem kept_iff_addsNothing (h : Admissible isStart script m) :
    (AddsNothing isStart script m →
      ∃ fuel, Kept m (loopForExecute (addingEnv isStart script) fuel m)) ∧
    (IsHeap Timer.gt m.timer →
      (∃ fuel, Kept m (loopForExecute (addingEnv isStart script) fuel m)) →
      AddsNothing isStart script m) := by
  refine ⟨kept_of_addsNothing h, ?_⟩
  rintro hheap ⟨fuel, hkept⟩
  by_contra hadds
  exact not_kept_of_adds h hheap hadds fuel hkept

/-! ### A timer lost -/

def dueAndWaiting : TimerManager Unit where
  timeline := 5
  autoIncrementId := 3
  timer := [⟨1, 5, 5, (), false⟩, ⟨2, 10, 10, (), false⟩]

/-- The action adds a timer, as `Connector::retry` does. -/
def retryScript : Nat → List (TimerArgs Unit)
  | 0 => [{ interval := 500, action := () }]
  | _ + 1 => []

theorem added_retryScript (fuel : Nat) :
    (loopForExecute (addingEnv (fun _ => true) retryScript) fuel dueAndWaiting).added
      = if fuel = 0 then [] else [⟨3, 500, 505, (), false⟩] := by
  match fuel with
  | 0 => rfl
  | 1 => rfl
  | fuel + 2 => rfl

theorem admissible_retryScript : Admissible (fun _ => true) retryScript dueAndWaiting where
  interval_pos := by decide
  delay := by
    intro i a ha
    match i with
    | 0 =>
        rw [List.mem_singleton.mp ha]
        decide
    | i + 1 => cases ha
  id_lt := by
    intro fuel
    rw [added_retryScript]
    split
    · decide
    · decide
  distinct := by
    intro fuel
    rw [added_retryScript]
    split
    · decide
    · decide

theorem isHeap_dueAndWaiting : IsHeap Timer.gt dueAndWaiting.timer := by
  intro c hc hpos
  obtain rfl : c = 1 := by
    simp only [dueAndWaiting, List.length_cons, List.length_nil] at hc
    omega
  rfl

theorem not_kept_retryScript :
    Admissible (fun _ => true) retryScript dueAndWaiting ∧ IsHeap Timer.gt dueAndWaiting.timer ∧
      ¬ ∃ fuel, Kept dueAndWaiting
        (loopForExecute (addingEnv (fun _ => true) retryScript) fuel dueAndWaiting) := by
  refine ⟨admissible_retryScript, isHeap_dueAndWaiting, ?_⟩
  rintro ⟨fuel, hkept⟩
  refine not_kept_of_adds admissible_retryScript isHeap_dueAndWaiting ?_ fuel hkept
  intro hnothing
  have hfirst := hnothing 0 (by decide) (by simp)
  cases hfirst

theorem admissible_quiet :
    Admissible (fun _ => true) (fun _ => ([] : List (TimerArgs Unit))) dueAndWaiting := by
  have hadded : ∀ fuel, (loopForExecute (addingEnv (fun _ => true)
      (fun _ => ([] : List (TimerArgs Unit)))) fuel dueAndWaiting).added = [] := by
    intro fuel
    match fuel with
    | 0 => rfl
    | 1 => rfl
    | fuel + 2 => rfl
  refine ⟨by decide, by simp, ?_, ?_⟩
  · intro fuel
    rw [hadded]
    decide
  · intro fuel
    rw [hadded]
    decide

theorem kept_iff_addsNothing_quiet :
    (∃ fuel, Kept dueAndWaiting
      (loopForExecute (addingEnv (fun _ => true) (fun _ => [])) fuel dueAndWaiting)) ∧
    ((∃ fuel, Kept dueAndWaiting
      (loopForExecute (addingEnv (fun _ => true) (fun _ => [])) fuel dueAndWaiting)) →
      AddsNothing (fun _ => true) (fun _ => []) dueAndWaiting) :=
  ⟨(kept_iff_addsNothing admissible_quiet).1 fun _ _ _ => rfl,
    (kept_iff_addsNothing admissible_quiet).2 isHeap_dueAndWaiting⟩

end TimerManager

end ToyBasket
