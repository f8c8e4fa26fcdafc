import ToyBasket.Timer.Pass
import Mathlib.Data.List.Induction

/-!
# The schedule of a worker's passes

Passes of the worker and calls of other threads, in any order. The heap follows a plain schedule: a
list of the timers added and not deleted, from which the passes a timer runs in are read off.
-/

namespace ToyBasket

open Words StdHeap

namespace TimerManager

variable {α : Type}

/-! ### The worker and the other threads -/

/-- Where the worker is: in front of the lock or asleep after it. -/
inductive WorkerPc where
  | execute
  | advance
deriving DecidableEq, Repr

/-- A step of the worker, or a call of another thread between two steps of the worker. -/
inductive Event (α : Type) where
  | worker
  | addTimer (interval : Nat) (action : α) (isRepeat : Bool)
  | deleteTimer (timerId : Nat)
deriving DecidableEq, Repr

/-- `passes` records the timeline of each pass and the timers whose actions it ran. -/
structure Worker (α : Type) where
  mgr : TimerManager α
  pc : WorkerPc
  passes : List (Nat × List (Timer α))

/-- Nothing stops the worker and no action calls the manager. -/
def undisturbed : Env α where
  isStart := fun _ => true
  calls := fun _ _ => []

namespace Worker

def init : Worker α where
  mgr := .new
  pc := .execute
  passes := []

def pass (s : Worker α) : PassResult α :=
  executeLocked undisturbed (s.mgr.timer.length + 1) s.mgr

def addArgs (interval : Nat) (action : α) (isRepeat : Bool) : TimerArgs α where
  interval := interval
  action := action
  isRepeat := isRepeat

def step (s : Worker α) : Event α → Worker α
  | .worker =>
      match s.pc with
      | .execute =>
          { mgr := s.pass.mgr, pc := .advance
            passes := s.passes ++ [(s.mgr.timeline, s.pass.ran)] }
      | .advance => { s with mgr := s.mgr.advance, pc := .execute }
  | .addTimer interval action isRepeat =>
      { s with mgr := (s.mgr.addTimer (addArgs interval action isRepeat)).2 }
  | .deleteTimer timerId => { s with mgr := (s.mgr.deleteTimer timerId).2 }

def run (events : List (Event α)) : Worker α := events.foldl step init

end Worker

/-! ### The schedule -/

/-- A timer added when the timeline was `added`. -/
structure Entry (α : Type) where
  id : Nat
  added : Nat
  interval : Nat
  action : α
  isRepeat : Bool

namespace Entry

def RunsAt (e : Entry α) (time : Nat) : Prop :=
  if e.isRepeat then ∃ k, 1 ≤ k ∧ time = e.added + k * e.interval
  else time = e.added + e.interval

/-- The first of these times that is not before `time`. -/
def next (e : Entry α) (time : Nat) : Option Nat :=
  if e.isRepeat then some (e.added + ((time - 1 - e.added) / e.interval + 1) * e.interval)
  else if time ≤ e.added + e.interval then some (e.added + e.interval)
  else none

def timer (e : Entry α) (deadline : Nat) : Timer α where
  id := e.id
  interval := e.interval
  deadline := deadline
  action := e.action
  isRepeat := e.isRepeat

/-- What the heap holds for the entry when the next pass is at `time` or later. -/
def pending (time : Nat) (e : Entry α) : Option (Timer α) :=
  (e.next time).map e.timer

variable {e : Entry α} {time deadline : Nat}

theorem le_of_next_eq_some (hinterval : 1 ≤ e.interval) (h : e.next time = some deadline) :
    time ≤ deadline := by
  unfold next at h
  split at h
  · obtain rfl := Option.some.inj h
    have hdiv := Nat.lt_mul_div_succ (time - 1 - e.added) hinterval
    rw [Nat.mul_comm] at hdiv
    omega
  · split at h
    · obtain rfl := Option.some.inj h
      assumption
    · cases h

theorem next_eq_some_iff (hinterval : 1 ≤ e.interval) :
    e.next time = some time ↔ e.RunsAt time := by
  unfold next RunsAt
  split
  · rw [Option.some.injEq]
    constructor
    · intro h
      exact ⟨_, Nat.le_add_left 1 _, h.symm⟩
    · rintro ⟨k, hk, rfl⟩
      obtain ⟨k, rfl⟩ := Nat.exists_eq_add_of_le' hk
      have hpred : e.added + (k + 1) * e.interval - 1 - e.added
          = (e.interval - 1) + k * e.interval := by
        rw [Nat.add_mul, Nat.one_mul]
        omega
      rw [hpred, Nat.add_mul_div_right _ _ hinterval, Nat.div_eq_of_lt (by omega), Nat.zero_add]
  · constructor
    · intro h
      split at h
      · exact (Option.some.inj h).symm
      · cases h
    · rintro rfl
      simp

theorem next_succ_of_ne (h : e.next time ≠ some time) :
    e.next (time + 1) = e.next time := by
  unfold next at h ⊢
  split
  · rename_i hrepeat
    rw [if_pos hrepeat] at h
    by_cases hlate : e.added < time
    · obtain ⟨y, rfl⟩ := Nat.exists_eq_add_of_lt hlate
      have hpred : e.added + y + 1 - 1 - e.added = y := by omega
      have hsucc : e.added + y + 1 + 1 - 1 - e.added = y + 1 := by omega
      rw [hpred] at h ⊢
      rw [hsucc, Nat.succ_div_of_not_dvd]
      intro hdvd
      -- the entry would run at this time
      have hmul : (y / e.interval + 1) * e.interval = y + 1 := by
        rw [← Nat.succ_div_of_dvd hdvd]
        exact Nat.div_mul_cancel hdvd
      rw [hmul] at h
      exact h rfl
    · have hpred : time - 1 - e.added = 0 := by omega
      have hsucc : time + 1 - 1 - e.added = 0 := by omega
      rw [hpred, hsucc]
  · rename_i hrepeat
    rw [if_neg hrepeat] at h
    split at h
    · rename_i hle
      have hne : e.added + e.interval ≠ time := fun heq => h (congrArg some heq)
      rw [if_pos hle, if_pos (by omega)]
    · rename_i hle
      rw [if_neg hle, if_neg (by omega)]

theorem next_succ_of_eq (hinterval : 1 ≤ e.interval) (h : e.next time = some time) :
    e.next (time + 1) = if e.isRepeat then some (time + e.interval) else none := by
  rw [next_eq_some_iff hinterval] at h
  unfold RunsAt at h
  unfold next
  split at h
  · rename_i hrepeat
    obtain ⟨k, hk, rfl⟩ := h
    have hpred : e.added + k * e.interval + 1 - 1 - e.added = k * e.interval := by omega
    rw [if_pos hrepeat, if_pos hrepeat, hpred, Nat.mul_div_cancel _ hinterval, Nat.add_mul,
      Nat.one_mul, Nat.add_assoc]
  · rename_i hrepeat
    rw [if_neg hrepeat, if_neg hrepeat, if_neg (by omega)]

end Entry

/-! ### What a pass does to the schedule -/

section Pending

variable {entries : List (Entry α)} {time : Nat}

theorem due_pending {e : Entry α} {t : Timer α} (hinterval : 1 ≤ e.interval)
    (h : e.pending time = some t) : t.due time = true ↔ e.next time = some time := by
  obtain ⟨deadline, hnext, rfl⟩ := Option.map_eq_some_iff.mp h
  have hle := Entry.le_of_next_eq_some hinterval hnext
  rw [hnext, Option.some.injEq]
  constructor
  · intro hdue
    exact Nat.le_antisymm (of_decide_eq_true hdue) hle
  · rintro rfl
    exact decide_eq_true (Nat.le_refl _)

theorem filter_due_pending (hinterval : ∀ e ∈ entries, 1 ≤ e.interval) :
    (entries.filterMap (Entry.pending time)).filter (Timer.due time)
      = (entries.filter fun e => e.next time = some time).map (Entry.timer · time) := by
  induction entries with
  | nil => rfl
  | cons e entries ih =>
      have hrest := ih fun e' he' => hinterval e' (List.mem_cons_of_mem e he')
      have he := hinterval e List.mem_cons_self
      by_cases hruns : e.next time = some time
      · have hpending : e.pending time = some (e.timer time) := by simp [Entry.pending, hruns]
        have hdue := (due_pending he hpending).mpr hruns
        rw [List.filterMap_cons_some hpending, List.filter_cons_of_pos hdue, hrest,
          List.filter_cons_of_pos (by simpa using hruns), List.map_cons]
      · rw [List.filter_cons_of_neg (by simpa using hruns), ← hrest]
        cases hpending : e.pending time with
        | none => rw [List.filterMap_cons_none hpending]
        | some t =>
            rw [List.filterMap_cons_some hpending, List.filter_cons_of_neg]
            exact fun hdue => hruns ((due_pending he hpending).mp hdue)

theorem pending_succ_perm (hinterval : ∀ e ∈ entries, 1 ≤ e.interval) :
    ((entries.filterMap (Entry.pending time)).filter (fun t => !t.due time) ++
        renewed time ((entries.filterMap (Entry.pending time)).filter (Timer.due time))).Perm
      (entries.filterMap (Entry.pending (time + 1))) := by
  induction entries with
  | nil => exact .refl _
  | cons e entries ih =>
      have hrest := ih fun e' he' => hinterval e' (List.mem_cons_of_mem e he')
      have he := hinterval e List.mem_cons_self
      by_cases hruns : e.next time = some time
      · have hpending : e.pending time = some (e.timer time) := by simp [Entry.pending, hruns]
        have hdue := (due_pending he hpending).mpr hruns
        have hsucc := Entry.next_succ_of_eq he hruns
        rw [List.filterMap_cons_some hpending, List.filter_cons_of_pos hdue,
          List.filter_cons_of_neg (by simp [hdue])]
        by_cases hrepeat : e.isRepeat
        · have hagain : e.pending (time + 1) = some ((e.timer time).renew time) := by
            simp [Entry.pending, hsucc, hrepeat, Entry.timer, Timer.renew, Nat.add_comm]
          have hrenewed : ∀ l, renewed time (e.timer time :: l)
              = (e.timer time).renew time :: renewed time l := by
            intro l
            simp [renewed, Entry.timer, hrepeat]
          rw [List.filterMap_cons_some hagain, hrenewed]
          exact List.perm_middle.trans (hrest.cons _)
        · have hnone : e.pending (time + 1) = none := by simp [Entry.pending, hsucc, hrepeat]
          have hrenewed : ∀ l, renewed time (e.timer time :: l) = renewed time l := by
            intro l
            simp [renewed, Entry.timer, hrepeat]
          rw [List.filterMap_cons_none hnone, hrenewed]
          exact hrest
      · have hsucc : e.pending (time + 1) = e.pending time := by
          simp only [Entry.pending, Entry.next_succ_of_ne hruns]
        cases hpending : e.pending time with
        | none =>
            rw [hpending] at hsucc
            rw [List.filterMap_cons_none hpending, List.filterMap_cons_none hsucc]
            exact hrest
        | some t =>
            rw [hpending] at hsucc
            have hnot : ¬ t.due time = true := fun hdue => hruns ((due_pending he hpending).mp hdue)
            rw [List.filterMap_cons_some hpending, List.filterMap_cons_some hsucc,
              List.filter_cons_of_neg hnot, List.filter_cons_of_pos (by simpa using hnot)]
            exact hrest.cons t

end Pending

/-! ### The heap follows the schedule -/

structure Schedule (α : Type) where
  time : Nat
  pc : WorkerPc
  nextId : Nat
  entries : List (Entry α)

namespace Schedule

def init : Schedule α where
  time := 0
  pc := .execute
  nextId := 1
  entries := []

def newEntry (a : Schedule α) (interval : Nat) (action : α) (isRepeat : Bool) : Entry α where
  id := a.nextId
  added := a.time
  interval := interval
  action := action
  isRepeat := isRepeat

/-- A pass leaves the schedule as it is. -/
def step (a : Schedule α) : Event α → Schedule α
  | .worker =>
      match a.pc with
      | .execute => { a with pc := .advance }
      | .advance => { a with time := a.time + 1, pc := .execute }
  | .addTimer interval action isRepeat =>
      { a with
        nextId := a.nextId + 1
        entries := a.entries ++ [a.newEntry interval action isRepeat] }
  | .deleteTimer timerId => { a with entries := a.entries.filter (·.id != timerId) }

def run (events : List (Event α)) : Schedule α := events.foldl step init

/-- The time of the pass that comes next. -/
def horizon (a : Schedule α) : Nat :=
  match a.pc with
  | .execute => a.time
  | .advance => a.time + 1

structure WellFormed (a : Schedule α) : Prop where
  nextId_pos : 1 ≤ a.nextId
  id_pos : ∀ e ∈ a.entries, 1 ≤ e.id
  id_lt : ∀ e ∈ a.entries, e.id < a.nextId
  nodup : (a.entries.map Entry.id).Nodup
  interval_pos : ∀ e ∈ a.entries, 1 ≤ e.interval

end Schedule

def Event.isAdd : Event α → Bool
  | .addTimer .. => true
  | _ => false

/-- Intervals are at least 1 and the ids stay below `2^31`: they count from 1. -/
structure Valid (events : List (Event α)) : Prop where
  interval_pos : ∀ interval action isRepeat,
    .addTimer interval action isRepeat ∈ events → 1 ≤ interval
  count_lt : events.countP Event.isAdd < 2 ^ 31

structure Follows (s : Worker α) (a : Schedule α) : Prop where
  wellFormed : a.WellFormed
  timeline_eq : s.mgr.timeline = a.time
  pc_eq : s.pc = a.pc
  autoIncrementId_eq : s.mgr.autoIncrementId = a.nextId
  isHeap : IsHeap Timer.gt s.mgr.timer
  perm : s.mgr.timer.Perm (a.entries.filterMap (Entry.pending a.horizon))
  passes_lt : ∀ q ∈ s.passes, ∀ t ∈ q.2, t.id < a.nextId

section Follows

variable {s : Worker α} {a : Schedule α}

theorem pending_timer {e : Entry α} {time : Nat} {t : Timer α} (h : e.pending time = some t) :
    t.id = e.id ∧ t.interval = e.interval := by
  obtain ⟨deadline, -, rfl⟩ := Option.map_eq_some_iff.mp h
  exact ⟨rfl, rfl⟩

theorem Follows.entry_of_mem (h : Follows s a) {t : Timer α} (ht : t ∈ s.mgr.timer) :
    ∃ e ∈ a.entries, t.id = e.id ∧ t.interval = e.interval := by
  obtain ⟨e, he, hpending⟩ := List.mem_filterMap.mp (h.perm.subset ht)
  exact ⟨e, he, pending_timer hpending⟩

theorem Follows.sound (h : Follows s a) (hids : a.nextId ≤ 2 ^ 31) : Sound s.mgr.timer where
  id_lt := by
    intro t ht
    obtain ⟨e, he, hid, -⟩ := h.entry_of_mem ht
    have hlt := h.wellFormed.id_lt e he
    omega
  interval_pos := by
    intro t ht _
    obtain ⟨e, he, -, hinterval⟩ := h.entry_of_mem ht
    rw [hinterval]
    exact h.wellFormed.interval_pos e he

theorem Follows.completed (h : Follows s a) (hids : a.nextId ≤ 2 ^ 31) :
    Completed undisturbed s.mgr s.pass := by
  apply completed_executeLocked (h.sound hids)
  · exact Nat.lt_succ_of_le (List.length_filter_le _ _)
  · intro i t _ _
    rfl

theorem Follows.ran_perm (h : Follows s a) (hids : a.nextId ≤ 2 ^ 31) :
    s.pass.ran.Perm (s.mgr.timer.filter (Timer.due s.mgr.timeline)) := by
  have hcompleted := h.completed hids
  have hperm := hcompleted.balanced.perm_due (h.sound hids)
  have hnone := hcompleted.complete h.isHeap rfl
  rwa [List.filter_eq_nil_iff.mpr fun t ht => by simp [hnone t ht], List.append_nil] at hperm

theorem Follows.pass_timer_perm (h : Follows s a) (hids : a.nextId ≤ 2 ^ 31) :
    s.pass.mgr.timer.Perm (s.mgr.timer.filter (fun t => !t.due s.mgr.timeline) ++
      renewed s.mgr.timeline (s.mgr.timer.filter (Timer.due s.mgr.timeline))) := by
  have hran := h.ran_perm hids
  have hrenewed : (renewed s.mgr.timeline s.pass.ran).Perm
      (renewed s.mgr.timeline (s.mgr.timer.filter (Timer.due s.mgr.timeline))) :=
    (hran.filter _).map _
  apply (List.perm_append_left_iff s.pass.ran).mp
  calc
    (s.pass.ran ++ s.pass.mgr.timer).Perm
        (s.mgr.timer ++ renewed s.mgr.timeline s.pass.ran) :=
      (h.completed hids).balanced.perm
    _ |>.Perm (s.mgr.timer.filter (Timer.due s.mgr.timeline) ++
          s.mgr.timer.filter (fun t => !t.due s.mgr.timeline) ++
          renewed s.mgr.timeline (s.mgr.timer.filter (Timer.due s.mgr.timeline))) :=
      (List.filter_append_perm _ _).symm.append hrenewed
    _ |>.Perm (s.pass.ran ++ s.mgr.timer.filter (fun t => !t.due s.mgr.timeline) ++
          renewed s.mgr.timeline (s.mgr.timer.filter (Timer.due s.mgr.timeline))) :=
      (hran.symm.append_right _).append_right _
    _ = _ := List.append_assoc _ _ _

theorem follows_init : Follows (Worker.init : Worker α) .init where
  wellFormed :=
    { nextId_pos := Nat.le_refl 1
      id_pos := by simp [Schedule.init]
      id_lt := by simp [Schedule.init]
      nodup := List.nodup_nil
      interval_pos := by simp [Schedule.init] }
  timeline_eq := rfl
  pc_eq := rfl
  autoIncrementId_eq := rfl
  isHeap := isHeap_nil
  perm := .refl _
  passes_lt := by simp [Worker.init]

theorem Follows.worker (h : Follows s a) (hids : a.nextId ≤ 2 ^ 31) :
    Follows (s.step .worker) (a.step .worker) := by
  have hpc := h.pc_eq
  have hperm := h.perm
  cases hcase : a.pc with
  | execute =>
      rw [hcase] at hpc
      have hcompleted := h.completed hids
      simp only [Worker.step, Schedule.step, hpc, hcase]
      refine
        { wellFormed := ⟨h.wellFormed.1, h.wellFormed.2, h.wellFormed.3, h.wellFormed.4,
            h.wellFormed.5⟩
          timeline_eq := hcompleted.balanced.timeline_eq.trans h.timeline_eq
          pc_eq := rfl
          autoIncrementId_eq := hcompleted.balanced.autoIncrementId_eq.trans h.autoIncrementId_eq
          isHeap := hcompleted.isHeap
          perm := ?_
          passes_lt := ?_ }
      · simp only [Schedule.horizon, hcase] at hperm ⊢
        have hpass := h.pass_timer_perm hids
        rw [h.timeline_eq] at hpass
        have hnotDue := hperm.filter fun t => !t.due a.time
        have hdue := ((hperm.filter (Timer.due a.time)).filter (·.isRepeat)).map
          (Timer.renew a.time)
        exact hpass.trans ((hnotDue.append hdue).trans
          (pending_succ_perm h.wellFormed.interval_pos))
      · intro q hq t ht
        obtain hq | hq := List.mem_append.mp hq
        · exact h.passes_lt q hq t ht
        · rw [List.mem_singleton.mp hq] at ht
          obtain ⟨e, he, hid, -⟩ := h.entry_of_mem (hcompleted.balanced.ran_mem t ht).1
          rw [hid]
          exact h.wellFormed.id_lt e he
  | advance =>
      rw [hcase] at hpc
      simp only [Worker.step, Schedule.step, hpc, hcase]
      refine
        { wellFormed := ⟨h.wellFormed.1, h.wellFormed.2, h.wellFormed.3, h.wellFormed.4,
            h.wellFormed.5⟩
          timeline_eq := congrArg (· + 1) h.timeline_eq
          pc_eq := rfl
          autoIncrementId_eq := h.autoIncrementId_eq
          isHeap := h.isHeap
          perm := ?_
          passes_lt := h.passes_lt }
      simp only [Schedule.horizon, hcase] at hperm
      exact hperm

theorem pending_newEntry {interval : Nat} (hinterval : 1 ≤ interval) (action : α)
    (isRepeat : Bool) :
    (a.newEntry interval action isRepeat).pending a.horizon
      = some (.new a.nextId interval a.time action isRepeat false) := by
  have hnext : (a.newEntry interval action isRepeat).next a.horizon
      = some (interval + a.time) := by
    have hzero : a.horizon - 1 - a.time = 0 := by
      unfold Schedule.horizon
      split <;> omega
    have hle : a.horizon ≤ interval + a.time := by
      unfold Schedule.horizon
      split <;> omega
    simp only [Entry.next, Schedule.newEntry, hzero, Nat.zero_div, Nat.zero_add, Nat.one_mul,
      Nat.add_comm]
    rw [if_pos hle, ite_self]
  rw [Entry.pending, hnext]
  rfl

theorem Follows.addTimer {interval : Nat} (hinterval : 1 ≤ interval) (h : Follows s a)
    (hids : a.nextId < 2 ^ 31) (action : α) (isRepeat : Bool) :
    Follows (s.step (.addTimer interval action isRepeat))
      (a.step (.addTimer interval action isRepeat)) := by
  have hevent : s.mgr.event (Worker.addArgs interval action isRepeat)
      = .new a.nextId interval a.time action isRepeat false := by
    simp [event, Worker.addArgs, h.timeline_eq, h.autoIncrementId_eq]
  refine
    { wellFormed := ?_
      timeline_eq := h.timeline_eq
      pc_eq := h.pc_eq
      autoIncrementId_eq := ?_
      isHeap := isHeap_pushHeap Timer.strictWeakOrder_gt h.isHeap
      perm := ?_
      passes_lt := fun q hq t ht => Nat.lt_succ_of_lt (h.passes_lt q hq t ht) }
  · have hwell := h.wellFormed
    refine ⟨Nat.le_succ_of_le hwell.nextId_pos, ?_, ?_, ?_, ?_⟩
    · intro e he
      obtain he | he := List.mem_append.mp he
      · exact hwell.id_pos e he
      · rw [List.mem_singleton.mp he]
        exact hwell.nextId_pos
    · intro e he
      obtain he | he := List.mem_append.mp he
      · exact Nat.lt_succ_of_lt (hwell.id_lt e he)
      · rw [List.mem_singleton.mp he]
        exact Nat.lt_succ_self _
    · simp only [Schedule.step, List.map_append, List.map_cons, List.map_nil]
      refine List.nodup_append.mpr ⟨hwell.nodup, List.pairwise_singleton _ _, ?_⟩
      intro id hid id' hid'
      obtain ⟨e, he, rfl⟩ := List.mem_map.mp hid
      rw [List.mem_singleton.mp hid']
      exact (hwell.id_lt e he).ne
    · intro e he
      obtain he | he := List.mem_append.mp he
      · exact hwell.interval_pos e he
      · rw [List.mem_singleton.mp he]
        exact hinterval
  · change sizeAdd s.mgr.autoIncrementId 1 = a.nextId + 1
    rw [h.autoIncrementId_eq, sizeAdd_of_lt (by omega)]
  · have hpush := pushHeap_perm Timer.gt
      (s.mgr.timer ++ [s.mgr.event (Worker.addArgs interval action isRepeat)])
    have hnew := pending_newEntry (a := a) hinterval action isRepeat
    have hentries : (a.entries ++ [a.newEntry interval action isRepeat]).filterMap
        (Entry.pending a.horizon) = a.entries.filterMap (Entry.pending a.horizon) ++
          [.new a.nextId interval a.time action isRepeat false] := by
      rw [List.filterMap_append, List.filterMap_cons_some hnew, List.filterMap_nil]
    calc
      (s.step (.addTimer interval action isRepeat)).mgr.timer.Perm (s.mgr.timer ++
          [s.mgr.event (Worker.addArgs interval action isRepeat)]) := hpush
      _ = s.mgr.timer ++ [.new a.nextId interval a.time action isRepeat false] := by rw [hevent]
      _ |>.Perm (a.entries.filterMap (Entry.pending a.horizon) ++
          [.new a.nextId interval a.time action isRepeat false]) := h.perm.append_right _
      _ = _ := hentries.symm

theorem map_id_pending_sublist (entries : List (Entry α)) (time : Nat) :
    ((entries.filterMap (Entry.pending time)).map Timer.id).Sublist (entries.map Entry.id) := by
  induction entries with
  | nil => exact .slnil
  | cons e entries ih =>
      cases hpending : e.pending time with
      | none =>
          rw [List.filterMap_cons_none hpending]
          exact ih.cons _
      | some t =>
          rw [List.filterMap_cons_some hpending, List.map_cons, (pending_timer hpending).1]
          exact ih.cons_cons _

theorem filterMap_pending_filter (entries : List (Entry α)) (time timerId : Nat) :
    (entries.filter (·.id != timerId)).filterMap (Entry.pending time)
      = (entries.filterMap (Entry.pending time)).filter fun t => t.id != timerId := by
  rw [List.filterMap_filter, List.filter_filterMap]
  apply List.filterMap_congr
  intro e _
  cases hpending : e.pending time with
  | none => simp
  | some t =>
      rw [← (pending_timer hpending).1]
      by_cases hid : t.id = timerId
      · simp [hid, Option.filter_some]
      · simp [hid, Option.filter_some]

theorem Follows.deleteTimer (h : Follows s a) (timerId : Nat) :
    Follows (s.step (.deleteTimer timerId)) (a.step (.deleteTimer timerId)) := by
  have hwell := h.wellFormed
  have hwell' : (a.step (.deleteTimer timerId)).WellFormed :=
    { nextId_pos := hwell.nextId_pos
      id_pos := fun e he => hwell.id_pos e (List.mem_of_mem_filter he)
      id_lt := fun e he => hwell.id_lt e (List.mem_of_mem_filter he)
      nodup := hwell.nodup.sublist (List.filter_sublist.map _)
      interval_pos := fun e he => hwell.interval_pos e (List.mem_of_mem_filter he) }
  by_cases hzero : timerId < 1
  · have hnone : s.mgr.deleteTimer timerId = (timerId, s.mgr) := if_pos hzero
    have hsame : a.entries.filter (·.id != timerId) = a.entries := by
      rw [List.filter_eq_self]
      intro e he
      have hpos := hwell.id_pos e he
      rw [bne_iff_ne]
      omega
    simp only [Worker.step, Schedule.step, hnone, hsame]
    exact h
  · have hmgr : s.mgr.deleteTimer timerId = (0, { s.mgr with
        timer := makeHeap Timer.gt (s.mgr.timer.eraseP fun t => t.id == timerId) }) := if_neg hzero
    refine
      { wellFormed := hwell'
        timeline_eq := ?_
        pc_eq := h.pc_eq
        autoIncrementId_eq := ?_
        isHeap := ?_
        perm := ?_
        passes_lt := h.passes_lt }
    · simp only [Worker.step, hmgr]
      exact h.timeline_eq
    · simp only [Worker.step, hmgr]
      exact h.autoIncrementId_eq
    · simp only [Worker.step, hmgr]
      exact isHeap_makeHeap Timer.strictWeakOrder_gt _
    · have hids : (s.mgr.timer.map Timer.id).Nodup := by
        rw [(h.perm.map Timer.id).nodup_iff]
        exact hwell.nodup.sublist (map_id_pending_sublist _ _)
      simp only [Worker.step, hmgr]
      calc
        List.Perm _ (s.mgr.timer.eraseP fun t => t.id == timerId) := makeHeap_perm Timer.gt _
        _ = s.mgr.timer.filter fun t => t.id ≠ timerId := eraseP_eq_filter hids timerId
        _ = s.mgr.timer.filter fun t => t.id != timerId := by
          apply List.filter_congr
          intro t _
          rw [Bool.eq_iff_iff, decide_eq_true_iff, bne_iff_ne]
        _ |>.Perm ((a.entries.filterMap (Entry.pending a.horizon)).filter
            fun t => t.id != timerId) := h.perm.filter _
        _ = _ := (filterMap_pending_filter a.entries a.horizon timerId).symm

theorem Follows.step (h : Follows s a) (e : Event α)
    (hinterval : ∀ interval action isRepeat, e = .addTimer interval action isRepeat → 1 ≤ interval)
    (hids : a.nextId + (if e.isAdd then 1 else 0) ≤ 2 ^ 31) : Follows (s.step e) (a.step e) := by
  cases e with
  | worker => exact h.worker hids
  | addTimer interval action isRepeat =>
      exact h.addTimer (hinterval _ _ _ rfl) hids action isRepeat
  | deleteTimer timerId => exact h.deleteTimer timerId

theorem Schedule.nextId_step (a : Schedule α) (e : Event α) :
    (a.step e).nextId = a.nextId + if e.isAdd then 1 else 0 := by
  cases e with
  | worker =>
      simp only [Schedule.step]
      split <;> rfl
  | addTimer interval action isRepeat => rfl
  | deleteTimer timerId => rfl

theorem Schedule.nextId_run (events : List (Event α)) :
    (Schedule.run events).nextId = 1 + events.countP Event.isAdd := by
  induction events using List.reverseRecOn with
  | nil => rfl
  | append_singleton events e ih =>
      rw [Schedule.run, List.foldl_append, List.foldl_cons, List.foldl_nil, Schedule.nextId_step]
      change (Schedule.run events).nextId + _ = _
      rw [ih, List.countP_append, List.countP_singleton, Nat.add_assoc]

theorem follows_run {events : List (Event α)} (hvalid : Valid events) :
    Follows (Worker.run events) (Schedule.run events) := by
  induction events using List.reverseRecOn with
  | nil => exact follows_init
  | append_singleton events e ih =>
      have hcount := hvalid.count_lt
      rw [List.countP_append, List.countP_singleton] at hcount
      have hrest : Valid events :=
        ⟨fun interval action isRepeat he => hvalid.interval_pos interval action isRepeat
          (List.mem_append_left _ he), by omega⟩
      simp only [Worker.run, Schedule.run, List.foldl_append, List.foldl_cons, List.foldl_nil]
      apply (ih hrest).step e
      · rintro interval action isRepeat rfl
        exact hvalid.interval_pos interval action isRepeat (by simp)
      · rw [Schedule.nextId_run]
        omega

end Follows

/-! ### The passes of one timer -/

section Single

variable {a : Schedule α} {timerId : Nat}

theorem Schedule.filter_step {e : Event α} (hid : timerId < a.nextId)
    (hne : e ≠ .deleteTimer timerId) :
    (a.step e).entries.filter (·.id == timerId) = a.entries.filter (·.id == timerId) := by
  cases e with
  | worker =>
      simp only [Schedule.step]
      split <;> rfl
  | addTimer interval action isRepeat =>
      have hnew : a.nextId ≠ timerId := by omega
      simp [Schedule.step, Schedule.newEntry, hnew]
  | deleteTimer other =>
      simp only [Schedule.step, List.filter_filter]
      apply List.filter_congr
      intro entry _
      have hother : timerId ≠ other := fun heq => hne (heq ▸ rfl)
      by_cases hentry : entry.id = timerId
      · simp [hentry, hother]
      · simp [hentry]

/-- Events that do not delete a timer leave its entry alone; once it is deleted no entry has its id
again. -/
theorem Schedule.filter_foldl (hid : timerId < a.nextId) (events : List (Event α)) :
    (.deleteTimer timerId ∉ events →
      (events.foldl Schedule.step a).entries.filter (·.id == timerId)
        = a.entries.filter (·.id == timerId)) ∧
    (.deleteTimer timerId ∈ events ∨ a.entries.filter (·.id == timerId) = [] →
      (events.foldl Schedule.step a).entries.filter (·.id == timerId) = []) := by
  induction events generalizing a with
  | nil => simp
  | cons e events ih =>
      have hid' : timerId < (a.step e).nextId := by
        rw [Schedule.nextId_step]
        omega
      obtain ⟨hkeep, hgone⟩ := ih hid'
      refine ⟨?_, ?_⟩
      · intro hnot
        rw [List.mem_cons, not_or] at hnot
        rw [List.foldl_cons, hkeep hnot.2, Schedule.filter_step hid (Ne.symm hnot.1)]
      · intro h
        rw [List.foldl_cons]
        apply hgone
        by_cases he : e = .deleteTimer timerId
        · right
          subst he
          simp only [Schedule.step, List.filter_filter, List.filter_eq_nil_iff]
          intro entry _
          simp
        · rw [Schedule.filter_step hid he]
          apply h.imp_left
          rw [List.mem_cons]
          exact fun hmem => hmem.resolve_left (Ne.symm he)

theorem Schedule.filter_run (pre mid : List (Event α)) (interval : Nat) (action : α)
    (isRepeat : Bool) (hwell : (Schedule.run pre).WellFormed) :
    (.deleteTimer (Schedule.run pre).nextId ∉ mid →
      (Schedule.run (pre ++ .addTimer interval action isRepeat :: mid)).entries.filter
          (·.id == (Schedule.run pre).nextId)
        = [(Schedule.run pre).newEntry interval action isRepeat]) ∧
    (.deleteTimer (Schedule.run pre).nextId ∈ mid →
      (Schedule.run (pre ++ .addTimer interval action isRepeat :: mid)).entries.filter
          (·.id == (Schedule.run pre).nextId) = []) := by
  have hnone : (Schedule.run pre).entries.filter (·.id == (Schedule.run pre).nextId) = [] := by
    rw [List.filter_eq_nil_iff]
    intro e he
    have hlt := hwell.id_lt e he
    simp only [beq_iff_eq]
    omega
  have hone : ((Schedule.run pre).step (.addTimer interval action isRepeat)).entries.filter
      (·.id == (Schedule.run pre).nextId)
        = [(Schedule.run pre).newEntry interval action isRepeat] := by
    simp only [Schedule.step, List.filter_append, hnone]
    simp [Schedule.newEntry]
  have hid : (Schedule.run pre).nextId
      < ((Schedule.run pre).step (.addTimer interval action isRepeat)).nextId := Nat.lt_succ_self _
  have hrun : Schedule.run (pre ++ .addTimer interval action isRepeat :: mid)
      = mid.foldl Schedule.step
        ((Schedule.run pre).step (.addTimer interval action isRepeat)) := by
    simp [Schedule.run]
  rw [hrun]
  obtain ⟨hkeep, hgone⟩ := Schedule.filter_foldl hid mid
  exact ⟨fun hnot => (hkeep hnot).trans hone, fun hmem => hgone (.inl hmem)⟩

theorem Follows.ran_perm_entries {s : Worker α} (h : Follows s a) (hids : a.nextId ≤ 2 ^ 31)
    (hpc : s.pc = .execute) :
    s.pass.ran.Perm
      ((a.entries.filter fun e => e.next a.time = some a.time).map (Entry.timer · a.time)) := by
  have hhorizon : a.horizon = a.time := by
    rw [Schedule.horizon, ← h.pc_eq, hpc]
  have hperm := h.perm.filter (Timer.due a.time)
  rw [hhorizon, filter_due_pending h.wellFormed.interval_pos] at hperm
  have hran := h.ran_perm hids
  rw [h.timeline_eq] at hran
  exact hran.trans hperm

/-- The timers with the id among those due come from the entries with the id. -/
theorem Entry.filter_map_timer (entries : List (Entry α)) (time timerId : Nat) :
    ((entries.filter fun e => e.next time = some time).map (Entry.timer · time)).filter
        (·.id == timerId)
      = ((entries.filter (·.id == timerId)).filter fun e => e.next time = some time).map
        (Entry.timer · time) := by
  rw [List.filter_map, List.filter_filter, List.filter_filter]
  congr 1
  apply List.filter_congr
  intro e _
  exact Bool.and_comm _ _

/-- The timer added after `pre` runs in the passes at its times, once in each and in no other pass,
until it is deleted, whatever the other threads do. -/
theorem runs_on_schedule (pre mid : List (Event α)) (interval : Nat) (action : α) (isRepeat : Bool)
    (hvalid : Valid (pre ++ .addTimer interval action isRepeat :: mid))
    (hpc : (Worker.run (pre ++ .addTimer interval action isRepeat :: mid)).pc = .execute) :
    let before := Worker.run pre
    let timerId := (before.mgr.addTimer (Worker.addArgs interval action isRepeat)).1
    let entry : Entry α := ⟨timerId, before.mgr.timeline, interval, action, isRepeat⟩
    let s := Worker.run (pre ++ .addTimer interval action isRepeat :: mid)
    s.pass.finished = true ∧
    (.deleteTimer timerId ∉ mid → entry.RunsAt s.mgr.timeline →
      s.pass.ran.filter (·.id == timerId) = [entry.timer s.mgr.timeline]) ∧
    (.deleteTimer timerId ∈ mid ∨ ¬ entry.RunsAt s.mgr.timeline →
      s.pass.ran.filter (·.id == timerId) = []) ∧
    ∀ q ∈ before.passes, ∀ t ∈ q.2, t.id ≠ timerId := by
  have hpre : Valid pre := by
    refine ⟨fun i x r hmem => hvalid.interval_pos i x r (List.mem_append_left _ hmem), ?_⟩
    have hcount := hvalid.count_lt
    rw [List.countP_append] at hcount
    omega
  have hbefore := follows_run hpre
  have hafter := follows_run hvalid
  have hids :
      (Schedule.run (pre ++ .addTimer interval action isRepeat :: mid)).nextId ≤ 2 ^ 31 := by
    have hcount := hvalid.count_lt
    rw [Schedule.nextId_run]
    omega
  have hid : ((Worker.run pre).mgr.addTimer (Worker.addArgs interval action isRepeat)).1
      = (Schedule.run pre).nextId := hbefore.autoIncrementId_eq
  have hentry : (⟨(Schedule.run pre).nextId, (Worker.run pre).mgr.timeline, interval, action,
      isRepeat⟩ : Entry α) = (Schedule.run pre).newEntry interval action isRepeat := by
    rw [hbefore.timeline_eq]
    rfl
  have hinterval : 1 ≤ interval := hvalid.interval_pos interval action isRepeat (by simp)
  obtain ⟨hkept, hgone⟩ :=
    Schedule.filter_run pre mid interval action isRepeat hbefore.wellFormed
  have hran := (hafter.ran_perm_entries hids hpc).filter (·.id == (Schedule.run pre).nextId)
  rw [Entry.filter_map_timer] at hran
  simp only [hid, hentry, hafter.timeline_eq]
  refine ⟨(hafter.completed hids).finished, ?_, ?_, ?_⟩
  · intro hnot hruns
    rw [hkept hnot] at hran
    have hnext := (Entry.next_eq_some_iff hinterval).mpr hruns
    rw [List.filter_cons_of_pos (by simpa using hnext)] at hran
    exact List.perm_singleton.mp hran
  · intro h
    apply List.Perm.eq_nil
    by_cases hdeleted : .deleteTimer (Schedule.run pre).nextId ∈ mid
    · rw [hgone hdeleted] at hran
      exact hran
    · rw [hkept hdeleted] at hran
      have hnext := fun heq => h.resolve_left hdeleted ((Entry.next_eq_some_iff hinterval).mp heq)
      rw [List.filter_cons_of_neg (by simpa using hnext)] at hran
      exact hran
  · intro q hq t ht
    exact (hbefore.passes_lt q hq t ht).ne

theorem runs_on_schedule_everySecondTick :
    (Worker.run ([] ++ .addTimer 2 () true :: [.worker, .addTimer 2 () false, .worker, .worker,
      .deleteTimer 2, .worker])).pass.ran.filter (·.id == 1) = [⟨1, 2, 2, (), true⟩] := by
  have hvalid : Valid ([] ++ .addTimer 2 () true :: [.worker, .addTimer 2 () false, .worker,
      .worker, .deleteTimer 2, .worker]) := by
    refine ⟨?_, by decide⟩
    intro interval action isRepeat hmem
    simp only [List.nil_append, List.mem_cons, Event.addTimer.injEq, List.not_mem_nil, or_false,
      reduceCtorEq, false_or] at hmem
    omega
  exact (runs_on_schedule [] _ 2 () true hvalid rfl).2.1 (by decide) ⟨1, Nat.le_refl 1, rfl⟩

end Single

end TimerManager

end ToyBasket
