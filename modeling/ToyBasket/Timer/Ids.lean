import ToyBasket.Timer.Ending
import ToyBasket.Timer.NestedDelete
import ToyBasket.Lib.Machine

/-!
# The ids of timers

Runs of the worker's steps and of calls made by actions and other threads. An id goes through `int`
each time its timer is queued again, where -1 asks for a new one, and the entry `pop_back` takes for
the running timer may be another one.
-/

namespace ToyBasket

open Words StdHeap Machine

namespace TimerManager

/-- Where the worker is: outside `loopForExecute`, at the head of the loop, in the action of a timer
or past the lock, with `timeline_++` still to come. -/
inductive Place (α : Type) where
  | outside
  | head (top : Timer α)
  | action (top : Timer α)
  | unlocked
deriving DecidableEq, Repr

namespace Place

variable {α : Type}

/-- The variable `top`. -/
def top : Place α → Option (Timer α)
  | .head top => some top
  | .action top => some top
  | _ => none

/-- The lock is held and no action is running. -/
def locked : Place α → Bool
  | .head _ => true
  | _ => false

end Place

/-- The action of a timer carries the number of the call of `addTimer` it was passed to, and
`returned` has the results of these calls. -/
structure Issued (α : Type) where
  mgr : TimerManager (Nat × α)
  place : Place (Nat × α)
  returned : List Nat
deriving DecidableEq, Repr

namespace Issued

variable {α : Type}

inductive Event (α : Type) where
  | addTimer (interval : Nat) (action : α) (isRepeat isNoDelay : Bool)
  | deleteTimer (timerId : Nat)
  | loopForExecute
  | test (isStart : Bool)
  | actionReturns
  | advance
deriving DecidableEq, Repr

def init : Issued α where
  mgr := .new
  place := .outside
  returned := []

def addArgs (s : Issued α) (interval : Nat) (action : α) (isRepeat isNoDelay : Bool) :
    TimerArgs (Nat × α) where
  interval := interval
  action := (s.returned.length, action)
  isRepeat := isRepeat
  isNoDelay := isNoDelay

/-- The loop with an action that has returned: its calls have been made. -/
def afterAction (s : Issued α) (top : Timer (Nat × α)) : Issued α :=
  match whileBody (stoppable fun _ => true) { mgr := s.mgr, top := top } with
  | (p, .again) => { s with mgr := p.mgr, place := .head p.top }
  | (p, .leave) => { s with mgr := (finish p true).mgr, place := .unlocked }

/-- A step that the worker is not at, or a call that waits for the lock, has no effect. -/
def next (s : Issued α) : Event α → Issued α
  | .addTimer interval action isRepeat isNoDelay =>
      if s.place.locked then s
      else
        let (id, mgr) := s.mgr.addTimer (s.addArgs interval action isRepeat isNoDelay)
        { s with mgr := mgr, returned := s.returned ++ [id] }
  | .deleteTimer timerId =>
      if s.place.locked then s else { s with mgr := (s.mgr.deleteTimer timerId).2 }
  | .loopForExecute =>
      match s.place with
      | .outside =>
          match (popHeap Timer.gt s.mgr.timer).getLast? with
          | none => { s with place := .unlocked }
          | some top =>
              { s with
                mgr := { s.mgr with timer := popHeap Timer.gt s.mgr.timer }
                place := .head top }
      | _ => s
  | .test isStart =>
      match s.place with
      | .head top =>
          if isStart ∧ top.deadline ≤ s.mgr.timeline then { s with place := .action top }
          else
            { s with
              mgr := (finish { mgr := s.mgr, top := top } true).mgr
              place := .unlocked }
      | _ => s
  | .actionReturns =>
      match s.place with
      | .action top => s.afterAction top
      | _ => s
  | .advance =>
      match s.place with
      | .unlocked => { s with mgr := s.mgr.advance, place := .outside }
      | _ => s

def step (s : Issued α) (event : Event α) : Except Unit (Issued α) := .ok (s.next event)

/-- No two timers have the same id, and a repeating timer still has the one returned for it, with
which `deleteTimer` removes it. -/
structure ValidIds (s : Issued α) : Prop where
  distinct : (s.mgr.timer.map Timer.id).Nodup
  kept : ∀ t ∈ s.mgr.timer, t.isRepeat = true → s.returned[t.action.1]? = some t.id
  removed : ∀ t ∈ s.mgr.timer, t.isRepeat = true →
    ∀ u ∈ (s.mgr.deleteTimer t.id).2.timer, u.id ≠ t.id

/-- The counter gives an id that is not in use, and not 0 for a repeating timer; a timer is queued
again under its own id, and in the place of the entry with this id. -/
def KeepsIds (s : Issued α) : Event α → Prop
  | .addTimer _ _ isRepeat _ =>
      s.place.locked = false → s.mgr.autoIncrementId ∉ s.mgr.timer.map Timer.id ∧
        (isRepeat = true → s.mgr.autoIncrementId ≠ 0)
  | .actionReturns =>
      ∀ top, s.place = .action top → top.isRepeat = true →
        (∃ t ∈ s.mgr.timer, t.id = top.id) →
          (s.mgr.event (requeueArgs top)).id = top.id ∧
            ∃ last, s.mgr.timer.getLast? = some last ∧ last.id = top.id
  | _ => True

theorem id_event (mgr : TimerManager (Nat × α)) (args : TimerArgs (Nat × α)) :
    (mgr.event args).id =
      if args.id ≠ -1 then toSize args.id else mgr.autoIncrementId := rfl

/-- The id a timer is queued again under is its own: it fits into `int`, or it is one that a sign
extension gives, other than -1, or -1 asks for a new id and the counter gives this one. -/
theorem id_requeue_eq_iff (mgr : TimerManager (Nat × α)) (top : Timer (Nat × α)) :
    (mgr.event (requeueArgs top)).id = top.id ↔
      top.id < 2 ^ 31 ∨ (2 ^ 64 - 2 ^ 31 ≤ top.id ∧ top.id < 2 ^ 64 - 1) ∨
        (top.id % 2 ^ 32 = 2 ^ 32 - 1 ∧ top.id = mgr.autoIncrementId) := by
  have hargs : (requeueArgs top).id = toInt32 top.id := rfl
  rw [id_event]
  by_cases hnew : (requeueArgs top).id = -1
  · rw [if_neg (not_not.mpr hnew)]
    rw [hargs] at hnew
    unfold toInt32 at hnew
    omega
  · rw [if_pos hnew, hargs]
    rw [hargs] at hnew
    unfold toInt32 at hnew ⊢
    unfold toSize
    omega

/-- `KeepsIds` when an action returns, as a condition on numbers. -/
theorem keepsIds_actionReturns_iff (s : Issued α) :
    s.KeepsIds .actionReturns ↔ ∀ top, s.place = .action top → top.isRepeat = true →
      (∃ t ∈ s.mgr.timer, t.id = top.id) →
        (top.id < 2 ^ 31 ∨ (2 ^ 64 - 2 ^ 31 ≤ top.id ∧ top.id < 2 ^ 64 - 1) ∨
          (top.id % 2 ^ 32 = 2 ^ 32 - 1 ∧ top.id = s.mgr.autoIncrementId)) ∧
          ∃ last, s.mgr.timer.getLast? = some last ∧ last.id = top.id := by
  simp only [KeepsIds, id_requeue_eq_iff]

/-! ### The invariant -/

/-- The timer has the id returned for it, not 0 if it repeats. -/
def Known (returned : List Nat) (t : Timer (Nat × α)) : Prop :=
  returned[t.action.1]? = some t.id ∧ (t.isRepeat = true → t.id ≠ 0)

/-- The timers of the vector and the one the worker has taken. -/
structure Traced (s : Issued α) : Prop where
  distinct : (s.mgr.timer.map Timer.id).Nodup
  timers : ∀ t ∈ s.mgr.timer, Known s.returned t
  top : ∀ t, s.place.top = some t → Known s.returned t

section Step

variable {s : Issued α} {top t : Timer (Nat × α)} {timer timer' : List (Timer (Nat × α))}

theorem traced_init : Traced (init : Issued α) where
  distinct := List.nodup_nil
  timers := fun t ht => absurd ht List.not_mem_nil
  top := fun t ht => by cases ht

theorem Known.append {returned : List Nat} (h : Known returned t) (id : Nat) :
    Known (returned ++ [id]) t := by
  refine ⟨?_, h.2⟩
  obtain ⟨hlt, -⟩ := List.getElem?_eq_some_iff.mp h.1
  rw [List.getElem?_append_left hlt]
  exact h.1

/-- Without its first entry with an id the vector has no entry with it. -/
theorem Traced.validIds (h : Traced s) : ValidIds s where
  distinct := h.distinct
  kept := fun t ht _ => (h.timers t ht).1
  removed := by
    intro t ht hrepeat u hu
    have hid : ¬ t.id < 1 := by
      have hne := (h.timers t ht).2 hrepeat
      omega
    rw [deleteTimer, if_neg hid] at hu
    have hmem := (makeHeap_perm Timer.gt _).subset hu
    rw [eraseP_eq_filter h.distinct, List.mem_filter] at hmem
    exact of_decide_eq_true hmem.2

/-- What is left of a vector whose entries are known. -/
theorem Traced.subperm (h : Traced s) (hsub : timer.Subperm s.mgr.timer)
    {place : Place (Nat × α)} (hplace : ∀ t, place.top = some t → Known s.returned t)
    (timeline autoIncrementId : Nat) :
    Traced { s with mgr := ⟨timeline, autoIncrementId, timer⟩, place := place } where
  distinct := by
    obtain ⟨l, hperm, hl⟩ := hsub
    exact (hperm.map Timer.id).nodup_iff.mp (h.distinct.sublist (hl.map Timer.id))
  timers := fun t ht => h.timers t (hsub.subset ht)
  top := hplace

theorem id_addArgs (s : Issued α) (interval : Nat) (action : α) (isRepeat isNoDelay : Bool) :
    (s.mgr.event (s.addArgs interval action isRepeat isNoDelay)).id = s.mgr.autoIncrementId := by
  simp [event, addArgs, Timer.new]

theorem Traced.addTimer (h : Traced s) {interval : Nat} {action : α} {isRepeat isNoDelay : Bool}
    (hfresh : s.mgr.autoIncrementId ∉ s.mgr.timer.map Timer.id)
    (hzero : isRepeat = true → s.mgr.autoIncrementId ≠ 0) :
    Traced
      { s with
        mgr := (s.mgr.addTimer (s.addArgs interval action isRepeat isNoDelay)).2
        returned := s.returned ++
          [(s.mgr.addTimer (s.addArgs interval action isRepeat isNoDelay)).1] } := by
  have hperm := pushHeap_perm Timer.gt
    (s.mgr.timer ++ [s.mgr.event (s.addArgs interval action isRepeat isNoDelay)])
  have hid := id_addArgs s interval action isRepeat isNoDelay
  refine ⟨?_, ?_, fun t ht => (h.top t ht).append _⟩
  · refine (hperm.map Timer.id).nodup_iff.mpr ?_
    rw [List.map_append, List.nodup_append]
    refine ⟨h.distinct, List.nodup_singleton _, ?_⟩
    intro id hold id' hnew
    rw [List.map_singleton, List.mem_singleton, hid] at hnew
    rintro rfl
    rw [hnew] at hold
    exact hfresh hold
  · intro t ht
    obtain hold | hnew := List.mem_append.mp (hperm.subset ht)
    · exact (h.timers t hold).append _
    · rw [List.mem_singleton.mp hnew]
      refine ⟨?_, fun hrepeat => ?_⟩
      · simp [TimerManager.addTimer, event, addArgs, Timer.new]
      · rw [hid]
        exact hzero hrepeat

/-- After an action the loop is left with what is in the vector, or the entry at its end is taken
out and the timer queued again. -/
theorem afterAction_cases (s : Issued α) (top : Timer (Nat × α)) :
    ∃ mgr place, s.afterAction top = { s with mgr := mgr, place := place } ∧
      mgr.timeline = s.mgr.timeline ∧ (∀ t, place.top = some t → t ∈ mgr.timer) ∧
      ((∀ t ∈ s.mgr.timer, t.id ≠ top.id) ∧ mgr.timer.Perm s.mgr.timer ∨
      (∃ t ∈ s.mgr.timer, t.id = top.id) ∧
        mgr.timer.Perm (s.mgr.timer.dropLast ++ again s.mgr top)) := by
  obtain ⟨timer, hperform, -, hbody⟩ :=
    whileBody_own (deletesOwn_stoppable fun _ => true) { mgr := s.mgr, top := top }
  obtain rfl : s.mgr.timer = timer := congrArg TimerManager.timer hperform
  unfold afterAction
  obtain ⟨hnone, hbody⟩ | ⟨hfound, p', next, hbody, -, htimeline, hperm, hnext⟩ := hbody
  · rw [hbody]
    refine ⟨_, _, rfl, rfl, ?_, .inl ⟨hnone, makeHeap_perm _ _⟩⟩
    intro t ht
    cases ht
  · rw [hbody]
    cases next with
    | leave =>
        refine ⟨_, _, rfl, htimeline, ?_, .inr ⟨hfound, (makeHeap_perm _ _).trans hperm⟩⟩
        intro t ht
        cases ht
    | again =>
        refine ⟨_, _, rfl, htimeline, ?_, .inr ⟨hfound, hperm⟩⟩
        intro t ht
        obtain ⟨⟨l, hl⟩, -⟩ := hnext
        cases ht
        rw [hl]
        exact List.mem_append_right _ (List.mem_singleton_self _)

/-- An iteration of the loop is the calls of its action and what follows the action. -/
theorem whileBody_eq_afterAction {env : Env (Nat × α)} {p : Pass (Nat × α)}
    (hcalls : s.mgr = (p.mgr.perform (env.calls p.ran.length p.top)).1) :
    s.afterAction p.top = match whileBody env p with
      | (p', .again) => { s with mgr := p'.mgr, place := .head p'.top }
      | (p', .leave) => { s with mgr := (finish p' true).mgr, place := .unlocked } := by
  rcases hperform : p.mgr.perform (env.calls p.ran.length p.top) with ⟨mgr, added⟩
  rw [hperform] at hcalls
  have hquiet :
      s.mgr.perform ((stoppable fun _ => true : Env (Nat × α)).calls 0 p.top) = (mgr, []) := by
    rw [hcalls]
    rfl
  by_cases hfound : ∃ t ∈ mgr.timer, t.id = p.top.id
  · obtain ⟨hempty, hbody⟩ | ⟨x, rest, l, hrest, hpop, -, hbody⟩ :=
      whileBody_of_find hperform hfound
    · obtain ⟨-, hbody'⟩ | ⟨x', rest', l', hrest', -⟩ :=
        whileBody_of_find (p := { mgr := s.mgr, top := p.top }) hquiet hfound
      · rw [hbody, Issued.afterAction, hbody']
        rfl
      · rw [hempty] at hrest'
        cases hrest'
    · obtain ⟨hempty', -⟩ | ⟨x', rest', l', hrest', hpop', -, hbody'⟩ :=
        whileBody_of_find (p := { mgr := s.mgr, top := p.top }) hquiet hfound
      · rw [hempty'] at hrest
        cases hrest
      · rw [hrest] at hrest'
        obtain ⟨rfl, rfl⟩ := List.cons_eq_cons.mp hrest'
        rw [hpop] at hpop'
        obtain ⟨rfl, -⟩ := List.append_inj' hpop' rfl
        rw [hbody, Issued.afterAction, hbody']
  · have hnone : ∀ t ∈ mgr.timer, t.id ≠ p.top.id := fun t ht hid => hfound ⟨t, ht, hid⟩
    rw [whileBody_of_not_found hperform hnone, Issued.afterAction,
      whileBody_of_not_found (p := { mgr := s.mgr, top := p.top }) hquiet hnone]
    rfl

theorem action_requeue (mgr : TimerManager (Nat × α)) (top : Timer (Nat × α)) :
    (mgr.event (requeueArgs top)).action = top.action := by
  cases top
  rfl

theorem isRepeat_requeue (mgr : TimerManager (Nat × α)) (top : Timer (Nat × α)) :
    (mgr.event (requeueArgs top)).isRepeat = top.isRepeat := by
  cases top
  rfl

theorem Traced.afterAction (h : Traced s) (htop : Known s.returned top)
    (hkeeps : top.isRepeat = true → (∃ t ∈ s.mgr.timer, t.id = top.id) →
      (s.mgr.event (requeueArgs top)).id = top.id ∧
        ∃ last, s.mgr.timer.getLast? = some last ∧ last.id = top.id) :
    Traced (s.afterAction top) := by
  obtain ⟨mgr, place, heq, -, hplace, ⟨-, hperm⟩ | ⟨hfound, hperm⟩⟩ := afterAction_cases s top
  · rw [heq]
    exact h.subperm hperm.subperm
      (fun t ht => h.timers t (hperm.subset (hplace t ht))) _ _
  · rw [heq]
    by_cases hrepeat : top.isRepeat = true
    · obtain ⟨hid, last, hlast, hlastid⟩ := hkeeps hrepeat hfound
      rw [again_of_repeat hrepeat] at hperm
      have hknown : ∀ t ∈ mgr.timer, Known s.returned t := by
        intro t ht
        obtain hold | hagain := List.mem_append.mp (hperm.subset ht)
        · exact h.timers t (List.dropLast_subset _ hold)
        · obtain rfl := List.mem_singleton.mp hagain
          rw [Known, action_requeue, hid]
          exact ⟨htop.1, fun _ => htop.2 hrepeat⟩
      refine ⟨?_, hknown, fun t ht => hknown t (hplace t ht)⟩
      have hids : (s.mgr.timer.dropLast ++ [s.mgr.event (requeueArgs top)]).map Timer.id =
          s.mgr.timer.map Timer.id := by
        obtain ⟨rest, hrest⟩ := List.getLast?_eq_some_iff.mp hlast
        rw [hrest, List.dropLast_concat, List.map_append, List.map_append,
          List.map_singleton, List.map_singleton, hid, hlastid]
      rw [(hperm.map Timer.id).nodup_iff, hids]
      exact h.distinct
    · rw [again_of_not_repeat hrepeat, List.append_nil] at hperm
      have hsub := hperm.subperm.trans (List.dropLast_sublist _).subperm
      exact h.subperm hsub (fun t ht => h.timers t (hsub.subset (hplace t ht))) _ _

theorem ValidIds.keeps_top (h : ValidIds (s.afterAction top)) (htop : Known s.returned top)
    (hrepeat : top.isRepeat = true) (hfound : ∃ t ∈ s.mgr.timer, t.id = top.id) :
    (s.mgr.event (requeueArgs top)).id = top.id ∧
      ∃ last, s.mgr.timer.getLast? = some last ∧ last.id = top.id := by
  obtain ⟨mgr, place, heq, -, -, ⟨hnone, -⟩ | ⟨-, hperm⟩⟩ := afterAction_cases s top
  · obtain ⟨t, ht, hid⟩ := hfound
    exact absurd hid (hnone t ht)
  · rw [heq] at h
    rw [again_of_repeat hrepeat] at hperm
    have hkept := h.kept (s.mgr.event (requeueArgs top))
      (hperm.symm.subset (List.mem_append_right _ (List.mem_singleton_self _)))
      (by rw [isRepeat_requeue, hrepeat])
    rw [action_requeue] at hkept
    have hid : (s.mgr.event (requeueArgs top)).id = top.id :=
      Option.some.inj (hkept.symm.trans htop.1)
    refine ⟨hid, ?_⟩
    have hdistinct := (hperm.map Timer.id).nodup_iff.mp h.distinct
    rw [List.map_append, List.map_singleton, hid, List.nodup_append] at hdistinct
    obtain ⟨t, ht, htid⟩ := hfound
    have hne := List.ne_nil_of_mem ht
    refine ⟨_, List.getLast?_eq_some_getLast hne, ?_⟩
    rw [← List.dropLast_append_getLast hne] at ht
    obtain hold | hlast := List.mem_append.mp ht
    · exact absurd rfl (hdistinct.2.2 _ (List.mem_map_of_mem hold) _
        (htid ▸ List.mem_singleton_self _))
    · rw [← List.mem_singleton.mp hlast]
      exact htid

/-! ### Runs -/

theorem Traced.next (h : Traced s) {event : Event α} (hkeeps : s.KeepsIds event) :
    Traced (s.next event) := by
  cases event with
  | addTimer interval action isRepeat isNoDelay =>
      simp only [Issued.next]
      split
      · exact h
      · rename_i hlocked
        obtain ⟨hfresh, hzero⟩ := hkeeps (Bool.eq_false_of_not_eq_true hlocked)
        exact h.addTimer hfresh hzero
  | deleteTimer timerId =>
      simp only [Issued.next]
      split
      · exact h
      · exact h.subperm (spared_deleteTimer s.mgr timerId).subperm h.top _ _
  | loopForExecute =>
      simp only [Issued.next]
      split
      · split
        · exact ⟨h.distinct, h.timers, fun t ht => by cases ht⟩
        · rename_i hlast
          have hperm := popHeap_perm Timer.gt s.mgr.timer
          refine h.subperm hperm.subperm ?_ _ _
          intro t ht
          cases ht
          exact h.timers _ (hperm.subset (List.mem_of_getLast? hlast))
      · exact h
  | test isStart =>
      simp only [Issued.next]
      split
      · rename_i top hplace
        split
        · refine ⟨h.distinct, h.timers, fun t ht => h.top t ?_⟩
          rw [hplace]
          exact ht
        · exact h.subperm (makeHeap_perm _ _).subperm (fun t ht => by cases ht) _ _
      · exact h
  | actionReturns =>
      simp only [Issued.next]
      split
      · rename_i top hplace
        exact h.afterAction (h.top top (by rw [hplace]; rfl)) (hkeeps top hplace)
      · exact h
  | advance =>
      simp only [Issued.next]
      split
      · exact ⟨h.distinct, h.timers, fun t ht => by cases ht⟩
      · exact h

/-- The counter has given an id of its own, and to a repeating timer one that `deleteTimer`
takes. -/
theorem ValidIds.fresh {interval : Nat} {action : α} {isRepeat isNoDelay : Bool}
    {returned : List Nat}
    (h : ValidIds
      { s with
        mgr := (s.mgr.addTimer (s.addArgs interval action isRepeat isNoDelay)).2
        returned := returned }) :
    s.mgr.autoIncrementId ∉ s.mgr.timer.map Timer.id ∧
      (isRepeat = true → s.mgr.autoIncrementId ≠ 0) := by
  have hperm := pushHeap_perm Timer.gt
    (s.mgr.timer ++ [s.mgr.event (s.addArgs interval action isRepeat isNoDelay)])
  have hid := id_addArgs s interval action isRepeat isNoDelay
  constructor
  · have hdistinct := (hperm.map Timer.id).nodup_iff.mp h.distinct
    rw [List.map_append, List.map_singleton, hid, List.nodup_append] at hdistinct
    intro hmem
    exact hdistinct.2.2 _ hmem _ (List.mem_singleton_self _) rfl
  · intro hrepeat hzero
    have hmem := hperm.symm.subset (List.mem_append_right _ (List.mem_singleton_self _))
    have hgone := h.removed _ hmem hrepeat
    rw [hid, hzero] at hgone
    exact hgone _ hmem (hid.trans hzero)

theorem ValidIds.keepsIds (h : Traced s) {event : Event α} (hvalid : ValidIds (s.next event)) :
    s.KeepsIds event := by
  cases event with
  | addTimer interval action isRepeat isNoDelay =>
      intro hlocked
      simp only [Issued.next, hlocked] at hvalid
      exact hvalid.fresh
  | actionReturns =>
      intro top hplace hrepeat hfound
      simp only [Issued.next, hplace] at hvalid
      exact hvalid.keeps_top (h.top top (by rw [hplace]; rfl)) hrepeat hfound
  | deleteTimer => trivial
  | loopForExecute => trivial
  | test => trivial
  | advance => trivial

/-- In every state of a run the ids are valid exactly when every step keeps them. -/
theorem validIds_iff_keepsIds (events : List (Event α)) :
    Throughout step ValidIds init events ↔ Always step KeepsIds init events := by
  have hprop : ∀ s : Issued α, Traced s → ValidIds s := fun s h => h.validIds
  apply throughout_iff_always hprop
  · rintro s event s' h hkeeps ⟨⟩
    exact h.next hkeeps
  · rintro s event s' h ⟨⟩ hvalid
    exact hvalid.keepsIds h
  · rintro s event fault h ⟨⟩
  · exact traced_init

end Step

/-! ### The counter past `int` -/

theorem pushHeap_singleton (t : Timer α) : pushHeap Timer.gt [t] = [t] :=
  List.perm_singleton.mp (pushHeap_perm Timer.gt [t])

theorem popHeap_singleton (t : Timer α) : popHeap Timer.gt [t] = [t] :=
  List.perm_singleton.mp (popHeap_perm Timer.gt [t])

/-- Timers added and deleted at once, to use up ids. -/
def spend : (count : Nat) → List (Event Unit)
  | 0 => []
  | count + 1 => spend count ++ [.addTimer 1 () false false, .deleteTimer (count + 1)]

theorem run_spend {count : Nat} (h : count + 1 < 2 ^ 64) :
    ∃ returned, run step init (spend count) = .ok
      { mgr := { timeline := 0, autoIncrementId := count + 1, timer := [] }
        place := .outside, returned := returned } ∧ returned.length = count := by
  induction count with
  | zero => exact ⟨[], rfl, rfl⟩
  | succ count ih =>
      obtain ⟨returned, hrun, hlength⟩ := ih (by omega)
      refine ⟨returned ++ [count + 1], ?_, by simp [hlength]⟩
      have hcounter := sizeAdd_of_lt (a := count + 1) (b := 1) (by omega)
      have hempty := List.perm_nil.mp (makeHeap_perm (Timer.gt (α := Nat × Unit)) [])
      rw [spend, run_append, hrun]
      simp [run, step, next, Place.locked, addTimer, event, addArgs, Timer.new, deleteTimer,
        pushHeap_singleton, hcounter, hempty]

/-- The timer added as number `2 ^ 31 - 1`, in its action. -/
def pastInt (returned : List Nat) : Issued Unit where
  mgr :=
    { timeline := 0, autoIncrementId := 2147483649
      timer := [⟨2147483648, 1, 0, (2147483647, ()), true⟩] }
  place := .action ⟨2147483648, 1, 0, (2147483647, ()), true⟩
  returned := returned

theorem run_pastInt : ∃ returned, run step init
    (spend 2147483647 ++ [.addTimer 1 () true true, .loopForExecute, .test true]) =
      .ok (pastInt returned) ∧ returned[2147483647]? = some 2147483648 := by
  obtain ⟨returned, hrun, hlength⟩ := run_spend (show 2147483647 + 1 < 2 ^ 64 by decide)
  refine ⟨returned ++ [2147483648], ?_, ?_⟩
  · rw [run_append, hrun]
    simp [run, step, next, Place.locked, addTimer, event, addArgs, Timer.new, pushHeap_singleton,
      popHeap_singleton, hlength, sizeAdd, pastInt]
  · rw [← hlength, List.getElem?_concat_length]

/-- The id is `2 ^ 64 - 2 ^ 31` once the timer has been queued again. -/
theorem pastInt_invalid : ¬ ∀ events : List (Event Unit), Throughout step ValidIds init events := by
  intro hvalid
  obtain ⟨returned, hrun, hreturned⟩ := run_pastInt
  have hlast : ValidIds
      ((pastInt returned).afterAction ⟨2147483648, 1, 0, (2147483647, ()), true⟩) := by
    apply (hvalid (spend 2147483647 ++
      [.addTimer 1 () true true, .loopForExecute, .test true] ++ [.actionReturns])).last
    rw [run_append, hrun]
    rfl
  obtain ⟨hid, -⟩ := hlast.keeps_top ⟨hreturned, by simp⟩ rfl
    ⟨_, List.mem_singleton_self _, rfl⟩
  have hmgr : (pastInt returned).mgr = (pastInt []).mgr := rfl
  rw [hmgr] at hid
  exact absurd hid (by decide)

end Issued

end TimerManager

end ToyBasket
