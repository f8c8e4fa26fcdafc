import ToyBasket.Timer.Ids

/-!
# The milliseconds as words

`timeline_` and the deadlines are 64 bits wide and are not wrapped in this model. Before
`2 ^ 64 - 2 ^ 32` passes have been made, whatever actions and other threads have called in between,
neither of the two sums that they go through wraps.
-/

namespace ToyBasket

open Words StdHeap Machine

namespace TimerManager

variable {α : Type}

/-- The timer was added, or queued again, at this time or before it. -/
structure InReach (timeline : Nat) (t : Timer α) : Prop where
  interval_lt : t.interval < 2 ^ 32
  deadline_lt : t.deadline < timeline + 2 ^ 32

theorem InReach.later {timeline later : Nat} {t : Timer α} (h : InReach timeline t)
    (hle : timeline ≤ later) : InReach later t where
  interval_lt := h.interval_lt
  deadline_lt := Nat.lt_of_lt_of_le h.deadline_lt (Nat.add_le_add_right hle _)

theorem inReach_event {args : TimerArgs α} (hinterval : args.interval < 2 ^ 32)
    (m : TimerManager α) : InReach m.timeline (m.event args) where
  interval_lt := hinterval
  deadline_lt := by
    simp only [event, Timer.new]
    split
    · omega
    · omega

namespace Issued

/-- The interval is an `unsigned int`. -/
def Event.Fits : Event α → Prop
  | .addTimer interval _ _ _ => interval < 2 ^ 32
  | _ => True

def Event.isAdvance : Event α → Bool
  | .advance => true
  | _ => false

/-- The number of passes bounds the timeline, and the timeline the deadlines. -/
structure Timed (s : Issued α) (passes : Nat) : Prop where
  timeline_le : s.mgr.timeline ≤ passes
  timers : ∀ t ∈ s.mgr.timer, InReach s.mgr.timeline t
  top : ∀ t, s.place.top = some t → InReach s.mgr.timeline t

variable {s s' : Issued α} {passes : Nat}

theorem timed_init : Timed (init : Issued α) 0 where
  timeline_le := Nat.le_refl _
  timers := fun t ht => absurd ht List.not_mem_nil
  top := fun t ht => by cases ht

/-- Other contents at the same time. -/
theorem Timed.with (h : Timed s passes) {mgr : TimerManager (Nat × α)} {place : Place (Nat × α)}
    {returned : List Nat} (htimeline : mgr.timeline = s.mgr.timeline)
    (htimers : ∀ t ∈ mgr.timer, InReach s.mgr.timeline t)
    (htop : ∀ t, place.top = some t → InReach s.mgr.timeline t) :
    Timed ⟨mgr, place, returned⟩ passes where
  timeline_le := by
    simp only [htimeline]
    exact h.timeline_le
  timers := by
    simp only [htimeline]
    exact htimers
  top := by
    simp only [htimeline]
    exact htop

theorem Timed.afterAction {top : Timer (Nat × α)} (h : Timed s passes)
    (htop : InReach s.mgr.timeline top) : Timed (s.afterAction top) passes := by
  obtain ⟨mgr, place, heq, htimeline, hplace, ⟨-, hperm⟩ | ⟨-, hperm⟩⟩ := afterAction_cases s top
  · rw [heq]
    have htimers : ∀ t ∈ mgr.timer, InReach s.mgr.timeline t := fun t ht =>
      h.timers t (hperm.subset ht)
    exact h.with htimeline htimers fun t ht => htimers t (hplace t ht)
  · rw [heq]
    have htimers : ∀ t ∈ mgr.timer, InReach s.mgr.timeline t := by
      intro t ht
      obtain hold | hagain := List.mem_append.mp (hperm.subset ht)
      · exact h.timers t (List.dropLast_subset _ hold)
      · obtain ⟨-, hinterval, -, hdeadline⟩ := mem_again hagain
        have hlt := htop.interval_lt
        exact ⟨by omega, by omega⟩
    exact h.with htimeline htimers fun t ht => htimers t (hplace t ht)

theorem Timed.next (h : Timed s passes) {event : Event α} (hevent : event.Fits) :
    Timed (s.next event) (passes + if event.isAdvance then 1 else 0) := by
  cases event with
  | addTimer interval action isRepeat isNoDelay =>
      simp only [Issued.next]
      split
      · exact h
      · have hinterval : (s.addArgs interval action isRepeat isNoDelay).interval < 2 ^ 32 := hevent
        refine h.with rfl ?_ h.top
        intro t ht
        obtain hold | hnew := List.mem_append.mp ((pushHeap_perm Timer.gt _).subset ht)
        · exact h.timers t hold
        · rw [List.mem_singleton.mp hnew]
          exact inReach_event hinterval s.mgr
  | deleteTimer timerId =>
      simp only [Issued.next]
      split
      · exact h
      · have htimeline : (s.mgr.deleteTimer timerId).2.timeline = s.mgr.timeline := by
          unfold TimerManager.deleteTimer
          split
          · rfl
          · rfl
        refine h.with htimeline ?_ h.top
        exact fun t ht => h.timers t ((spared_deleteTimer s.mgr timerId).subperm.subset ht)
  | loopForExecute =>
      simp only [Issued.next]
      split
      · split
        · exact h.with rfl h.timers fun t ht => by cases ht
        · rename_i hlast
          have hperm := popHeap_perm Timer.gt s.mgr.timer
          refine h.with rfl (fun t ht => h.timers t (hperm.subset ht)) ?_
          intro t ht
          cases ht
          exact h.timers _ (hperm.subset (List.mem_of_getLast? hlast))
      · exact h
  | test isStart =>
      simp only [Issued.next]
      split
      · rename_i top hplace
        split
        · refine h.with rfl h.timers fun t ht => h.top t ?_
          rw [hplace]
          exact ht
        · refine h.with rfl ?_ fun t ht => by cases ht
          exact fun t ht => h.timers t ((makeHeap_perm _ _).subset ht)
      · exact h
  | actionReturns =>
      simp only [Issued.next]
      split
      · rename_i top hplace
        exact h.afterAction (h.top top (by rw [hplace]; rfl))
      · exact h
  | advance =>
      have hle := h.timeline_le
      simp only [Issued.next, Event.isAdvance, if_true]
      split
      · exact ⟨Nat.succ_le_succ hle, fun t ht => (h.timers t ht).later (Nat.le_succ _),
          fun t ht => by cases ht⟩
      · exact ⟨Nat.le_succ_of_le hle, h.timers, h.top⟩

theorem Timed.run {events : List (Event α)} (h : Timed s passes)
    (hevents : ∀ event ∈ events, event.Fits) (hrun : run step s events = .ok s') :
    Timed s' (passes + events.countP Event.isAdvance) := by
  induction events generalizing s passes with
  | nil =>
      cases hrun
      exact h
  | cons event events ih =>
      obtain ⟨mid, hnext, hrest⟩ := run_cons_eq_ok.mp hrun
      cases hnext
      have hmid := ih (h.next (hevents event List.mem_cons_self))
        (fun event' hmem => hevents event' (List.mem_cons_of_mem _ hmem)) hrest
      rwa [List.countP_cons, Nat.add_comm (events.countP _), ← Nat.add_assoc]

/-- The timeline can go on, any timer can be queued, and the deadlines are those of the words. -/
theorem milliseconds_run {events : List (Event α)} (hevents : ∀ event ∈ events, event.Fits)
    (hrun : Machine.run step init events = .ok s)
    (hpasses : events.countP Event.isAdvance < 2 ^ 64 - 2 ^ 32) :
    sizeAdd s.mgr.timeline 1 = s.mgr.timeline + 1 ∧
      (∀ interval < 2 ^ 32, sizeAdd interval s.mgr.timeline = interval + s.mgr.timeline) ∧
      ∀ t ∈ s.mgr.timer, t.deadline < 2 ^ 64 := by
  have h := timed_init.run hevents hrun
  have hle := h.timeline_le
  refine ⟨sizeAdd_of_lt (by omega), fun interval hlt => sizeAdd_of_lt (by omega), ?_⟩
  intro t ht
  have hlt := (h.timers t ht).deadline_lt
  omega

end Issued

end TimerManager

end ToyBasket
