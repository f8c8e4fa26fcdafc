import ToyBasket.Lib.Outcome

/-!
# Runs of a machine

A machine takes one event after the other, and an event may fault. What a step keeps a run keeps,
and what a step brings about exactly when the event is good in the state it finds, a run brings
about exactly when all its events are.
-/

namespace Machine

variable {ε σ α : Type} {step : σ → α → Except ε σ} {s s' t : σ} {event : α} {events : List α}

/-- The state after the events, unless one of them faults. -/
def run (step : σ → α → Except ε σ) : σ → List α → Except ε σ
  | s, [] => .ok s
  | s, event :: events =>
      match step s event with
      | .error fault => .error fault
      | .ok s' => run step s' events

/-- Every event is good in the state it finds. -/
def Always (step : σ → α → Except ε σ) (good : σ → α → Prop) : σ → List α → Prop
  | _, [] => True
  | s, event :: events =>
      good s event ∧ ∀ s', step s event = .ok s' → Always step good s' events

/-- How many of the events are good in the state they find. -/
def count (step : σ → α → Except ε σ) (good : σ → α → Bool) : σ → List α → Nat
  | _, [] => 0
  | s, event :: events =>
      (if good s event then 1 else 0) +
        match step s event with
        | .error _ => 0
        | .ok s' => count step good s' events

theorem run_cons_eq_ok :
    run step s (event :: events) = .ok t ↔
      ∃ s', step s event = .ok s' ∧ run step s' events = .ok t := by
  rw [run]
  cases step s event with
  | error fault => simp
  | ok s' => simp

theorem run_singleton : run step s [event] = step s event := by
  rw [run]
  cases step s event with
  | error fault => rfl
  | ok s' => rfl

theorem run_append {events' : List α} : run step s (events ++ events') =
    (run step s events >>= fun s' => run step s' events') := by
  induction events generalizing s with
  | nil => rfl
  | cons first events ih =>
      rw [List.cons_append, run, run]
      cases step s first with
      | error fault => rfl
      | ok s' => exact ih

theorem foldlM_eq_run : events.foldlM step s = run step s events := by
  induction events generalizing s with
  | nil => rfl
  | cons event events ih =>
      rw [List.foldlM_cons, run]
      cases step s event with
      | error fault => rfl
      | ok s' => exact ih

/-- A machine whose events never fault. -/
theorem run_eq_foldl {next : σ → α → σ} (hstep : ∀ s event, step s event = .ok (next s event)) :
    run step s events = .ok (events.foldl next s) := by
  induction events generalizing s with
  | nil => rfl
  | cons event events ih =>
      rw [run, hstep s event]
      exact ih

/-- A counter that the good events advance. -/
theorem counter_run (counter : σ → Nat) {good : σ → α → Bool}
    (hstep : ∀ s event s', step s event = .ok s' →
      counter s' = counter s + if good s event then 1 else 0)
    (hrun : run step s events = .ok t) : counter t = counter s + count step good s events := by
  induction events generalizing s with
  | nil =>
      cases hrun
      rfl
  | cons event events ih =>
      obtain ⟨s', hnext, hrest⟩ := run_cons_eq_ok.mp hrun
      rw [ih hrest, hstep s event s' hnext, count, hnext, Nat.add_assoc]

instance decidableAlways {good : σ → α → Prop} [∀ s event, Decidable (good s event)] :
    (s : σ) → (events : List α) → Decidable (Always step good s events)
  | _, [] => .isTrue trivial
  | s, event :: events =>
      have : Decidable (∀ s', step s event = .ok s' → Always step good s' events) :=
        match hnext : step s event with
        | .error fault => .isTrue (by simp)
        | .ok s' =>
            have : Decidable (Always step good s' events) := decidableAlways s' events
            decidable_of_iff (Always step good s' events) (by simp)
      inferInstanceAs (Decidable (_ ∧ _))

section Invariant

variable {inv : σ → Prop} {allowed : α → Prop} {good : σ → α → Prop}

theorem invariant_of_allowed
    (hstep : ∀ s event s', allowed event → inv s → step s event = .ok s' → inv s')
    (hrun : run step s events = .ok t) (hevents : ∀ event ∈ events, allowed event) (hs : inv s) :
    inv t := by
  induction events generalizing s with
  | nil =>
      cases hrun
      exact hs
  | cons event events ih =>
      obtain ⟨s', hnext, hrest⟩ := run_cons_eq_ok.mp hrun
      have hs' := hstep s event s' (hevents event List.mem_cons_self) hs hnext
      exact ih hrest (fun event' hmem => hevents event' (List.mem_cons_of_mem _ hmem)) hs'

/-- The same with the faults that are possible. -/
theorem holds_run {fails : ε → Prop}
    (hstep : ∀ s event, allowed event → inv s → Outcome.Holds (step s event) inv fails)
    (hevents : ∀ event ∈ events, allowed event) (hs : inv s) :
    Outcome.Holds (run step s events) inv fails := by
  induction events generalizing s with
  | nil => exact hs
  | cons event events ih =>
      have hfirst := hstep s event (hevents event List.mem_cons_self) hs
      rw [run]
      cases hnext : step s event with
      | error fault => exact hfirst.of_error hnext
      | ok s' =>
          apply ih
          · exact fun event' hmem => hevents event' (List.mem_cons_of_mem _ hmem)
          · exact hfirst.of_ok hnext

theorem invariant (hstep : ∀ s event s', inv s → step s event = .ok s' → inv s')
    (hrun : run step s events = .ok t) (hs : inv s) : inv t :=
  invariant_of_allowed (fun s event s' (_ : True) => hstep s event s') hrun (fun _ _ => trivial) hs

/-- A property that a step keeps if and only if its event is good. -/
theorem iff_always {prop : σ → Prop}
    (hinv : ∀ s event s', allowed event → inv s → step s event = .ok s' → inv s')
    (hstep : ∀ s event s', allowed event → inv s → step s event = .ok s' →
      (prop s' ↔ prop s ∧ good s event))
    (hrun : run step s events = .ok t) (hevents : ∀ event ∈ events, allowed event) (hs : inv s) :
    prop t ↔ prop s ∧ Always step good s events := by
  induction events generalizing s with
  | nil =>
      cases hrun
      simp [Always]
  | cons event events ih =>
      obtain ⟨s', hnext, hrest⟩ := run_cons_eq_ok.mp hrun
      have hevent := hevents event List.mem_cons_self
      rw [ih hrest (fun event' hmem => hevents event' (List.mem_cons_of_mem _ hmem))
        (hinv s event s' hevent hs hnext), hstep s event s' hevent hs hnext, Always, and_assoc]
      have hsame : (∀ u, step s event = .ok u → Always step good u events) ↔
          Always step good s' events := by
        constructor
        · exact fun h => h s' hnext
        · intro h u hu
          rw [hnext] at hu
          cases hu
          exact h
      rw [hsame]

/-- What no step restores was there before the run. -/
theorem before_run {prop : σ → Prop}
    (hkeep : ∀ s event s', step s event = .ok s' → prop s' → prop s)
    (hrun : run step s events = .ok t) (ht : prop t) : prop s := by
  induction events generalizing s with
  | nil =>
      cases hrun
      exact ht
  | cons event events ih =>
      obtain ⟨s', hnext, hrest⟩ := run_cons_eq_ok.mp hrun
      exact hkeep s event s' hnext (ih hrest)

/-- While every event is good the invariant is kept. -/
theorem holds_of_always (hstep : ∀ s event, allowed event → inv s → good s event →
      Outcome.Holds (step s event) inv fun _ => False)
    (hevents : ∀ event ∈ events, allowed event) (hs : inv s) (hgood : Always step good s events) :
    Outcome.Holds (run step s events) inv fun _ => False := by
  induction events generalizing s with
  | nil => exact hs
  | cons event events ih =>
      obtain ⟨hevent, hrest⟩ := hgood
      have hfirst := hstep s event (hevents event List.mem_cons_self) hs hevent
      obtain ⟨s', hnext, hs'⟩ := hfirst.returns
      rw [run, hnext]
      exact ih (fun event' hmem => hevents event' (List.mem_cons_of_mem _ hmem)) hs'
        (hrest s' hnext)

/-- While the assumption on the events is met, a property that a step keeps if and only if its event
is good. -/
theorem holds_iff_of_always {prop : σ → Prop} {meets : σ → α → Prop}
    (hstep : ∀ s event, allowed event → inv s → meets s event →
      Outcome.Holds (step s event) (fun s' => inv s' ∧ (prop s' ↔ prop s ∧ good s event))
        fun _ => False)
    (hevents : ∀ event ∈ events, allowed event) (hs : inv s)
    (hmeets : Always step meets s events) :
    Outcome.Holds (run step s events)
      (fun t => inv t ∧ (prop t ↔ prop s ∧ Always step good s events)) fun _ => False := by
  induction events generalizing s with
  | nil => exact ⟨hs, (and_iff_left trivial).symm⟩
  | cons event events ih =>
      obtain ⟨hevent, hrest⟩ := hmeets
      have hfirst := hstep s event (hevents event List.mem_cons_self) hs hevent
      obtain ⟨s', hnext, hs', hprop⟩ := hfirst.returns
      have hthen := ih (fun event' hmem => hevents event' (List.mem_cons_of_mem _ hmem)) hs'
        (hrest s' hnext)
      rw [run, hnext]
      refine hthen.imp fun t ht => ⟨ht.1, ?_⟩
      have hsame : (∀ u, step s event = .ok u → Always step good u events) ↔
          Always step good s' events := by
        simp [hnext]
      rw [ht.2, hprop, Always, hsame, and_assoc]

/-- A property that no step restores, and that is lost in a step whose event is not good. -/
theorem holds_iff_always {prop : σ → Prop} (hprop : ∀ s, inv s → prop s)
    (hkeep : ∀ s event s', step s event = .ok s' → prop s' → prop s)
    (hgood : ∀ s event, inv s → good s event →
      Outcome.Holds (step s event) inv fun _ => False)
    (hbad : ∀ s event s', inv s → step s event = .ok s' → prop s' → good s event) (hs : inv s) :
    Outcome.Holds (run step s events) prop (fun _ => False) ↔ Always step good s events := by
  constructor
  · intro h
    obtain ⟨t, hrun, ht⟩ := h.returns
    clear h
    induction events generalizing s with
    | nil => trivial
    | cons event events ih =>
        obtain ⟨s', hnext, hrest⟩ := run_cons_eq_ok.mp hrun
        have hevent := hbad s event s' hs hnext (before_run hkeep hrest ht)
        refine ⟨hevent, ?_⟩
        intro u hu
        rw [hnext] at hu
        cases hu
        exact ih ((hgood s event hs hevent).of_ok hnext) hrest
  · intro h
    have hrun := holds_of_always (fun s event (_ : True) => hgood s event)
      (fun _ _ => trivial) hs h
    exact hrun.imp hprop

/-- Two conditions that are the same wherever the invariant holds. -/
theorem always_congr {good' : σ → α → Prop}
    (hinv : ∀ s event s', inv s → good' s event → step s event = .ok s' → inv s')
    (hsame : ∀ s event, inv s → (good s event ↔ good' s event)) (hs : inv s) :
    Always step good s events ↔ Always step good' s events := by
  induction events generalizing s with
  | nil => exact Iff.rfl
  | cons event events ih =>
      rw [Always, Always, hsame s event hs]
      apply and_congr_right
      intro hevent
      constructor
      · exact fun h s' hnext => (ih (hinv s event s' hs hevent hnext)).mp (h s' hnext)
      · exact fun h s' hnext => (ih (hinv s event s' hs hevent hnext)).mpr (h s' hnext)

end Invariant

theorem always_append {good : σ → α → Prop} {events' : List α} :
    Always step good s (events ++ events') ↔ Always step good s events ∧
      ∀ t, run step s events = .ok t → Always step good t events' := by
  induction events generalizing s with
  | nil =>
      rw [List.nil_append]
      constructor
      · rintro h
        refine ⟨trivial, ?_⟩
        rintro t ⟨⟩
        exact h
      · exact fun h => h.2 s rfl
  | cons event events ih =>
      rw [List.cons_append, Always, Always, and_assoc]
      apply and_congr_right
      intro hevent
      constructor
      · intro h
        refine ⟨fun s' hnext => (ih.mp (h s' hnext)).1, ?_⟩
        intro t hrun
        obtain ⟨s', hnext, hrest⟩ := run_cons_eq_ok.mp hrun
        exact (ih.mp (h s' hnext)).2 t hrest
      · rintro ⟨hfirst, hlast⟩ s' hnext
        rw [ih]
        exact ⟨hfirst s' hnext, fun t hrest => hlast t (run_cons_eq_ok.mpr ⟨s', hnext, hrest⟩)⟩

/-! ### Every state of a run -/

/-- The property holds of every state the run comes to, the first and the last included. -/
def Throughout (step : σ → α → Except ε σ) (prop : σ → Prop) : σ → List α → Prop
  | s, [] => prop s
  | s, event :: events =>
      prop s ∧ ∀ s', step s event = .ok s' → Throughout step prop s' events

section Throughout

variable {prop inv : σ → Prop} {good : σ → α → Prop}

theorem Throughout.first (h : Throughout step prop s events) : prop s := by
  cases events with
  | nil => exact h
  | cons event events => exact h.1

theorem throughout_iff : Throughout step prop s events ↔
    ∀ before after, events = before ++ after → ∀ t, run step s before = .ok t → prop t := by
  induction events generalizing s with
  | nil =>
      constructor
      · intro h before after hsplit t hrun
        obtain ⟨rfl, -⟩ := List.append_eq_nil_iff.mp hsplit.symm
        cases hrun
        exact h
      · intro h
        exact h [] [] rfl s rfl
  | cons event events ih =>
      constructor
      · rintro ⟨hs, hrest⟩ before after hsplit t hrun
        cases before with
        | nil =>
            cases hrun
            exact hs
        | cons first before =>
            obtain ⟨rfl, htail⟩ := List.cons_eq_cons.mp hsplit
            obtain ⟨s', hnext, hrun⟩ := run_cons_eq_ok.mp hrun
            exact ih.mp (hrest s' hnext) before after htail t hrun
      · intro h
        refine ⟨h [] _ rfl s rfl, ?_⟩
        intro s' hnext
        rw [ih]
        intro before after hsplit t hrun
        exact h (event :: before) after (by rw [hsplit, List.cons_append]) t
          (run_cons_eq_ok.mpr ⟨s', hnext, hrun⟩)

theorem Throughout.last (h : Throughout step prop s events) (hrun : run step s events = .ok t) :
    prop t :=
  throughout_iff.mp h events [] (List.append_nil _).symm t hrun

/-- A property that holds in every state exactly as long as the events are good. -/
theorem throughout_iff_always (hprop : ∀ s, inv s → prop s)
    (hgood : ∀ s event s', inv s → good s event → step s event = .ok s' → inv s')
    (hbad : ∀ s event s', inv s → step s event = .ok s' → prop s' → good s event)
    (hfault : ∀ s event fault, inv s → step s event = .error fault → good s event) (hs : inv s) :
    Throughout step prop s events ↔ Always step good s events := by
  induction events generalizing s with
  | nil =>
      constructor
      · exact fun _ => trivial
      · exact fun _ => hprop s hs
  | cons event events ih =>
      constructor
      · rintro ⟨-, hrest⟩
        cases hnext : step s event with
        | error fault => exact ⟨hfault s event fault hs hnext, fun s' hs' => by simp [hnext] at hs'⟩
        | ok s' =>
            have hevent := hbad s event s' hs hnext (hrest s' hnext).first
            refine ⟨hevent, ?_⟩
            intro u hu
            exact (ih (hgood s event u hs hevent hu)).mp (hrest u hu)
      · rintro ⟨hevent, hrest⟩
        refine ⟨hprop s hs, ?_⟩
        intro s' hnext
        exact (ih (hgood s event s' hs hevent hnext)).mpr (hrest s' hnext)

end Throughout

end Machine
