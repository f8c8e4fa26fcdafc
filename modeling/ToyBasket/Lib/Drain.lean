import Mathlib.Data.List.Basic

/-!
# Loops that take one item at a time off their state

The body of such a loop either leaves it, or goes round once more with an output and a new state, or
faults. When more input never changes what a round does, it does not matter how the input is cut
into pieces with a run of the loop after each.
-/

namespace Drain

variable {ε ω σ τ ι : Type}

abbrev Body (ε ω σ : Type) := σ → Except ε (Option (ω × σ))

/-- The loop, for at most `fuel` rounds: nothing if it has not been left by then. -/
def loop (body : Body ε ω σ) : (fuel : Nat) → σ → Except ε (Option (List ω × σ))
  | 0, _ => .ok none
  | fuel + 1, s =>
      match body s with
      | .error fault => .error fault
      | .ok none => .ok (some ([], s))
      | .ok (some (out, s')) =>
          match loop body fuel s' with
          | .error fault => .error fault
          | .ok none => .ok none
          | .ok (some (outs, t)) => .ok (some (out :: outs, t))

inductive Rounds (body : Body ε ω σ) : σ → List ω → σ → Prop where
  | refl (s : σ) : Rounds body s [] s
  | step {s s' t : σ} {out : ω} {outs : List ω} :
      body s = .ok (some (out, s')) → Rounds body s' outs t → Rounds body s (out :: outs) t

structure Leaves (body : Body ε ω σ) (s : σ) (outs : List ω) (t : σ) : Prop where
  rounds : Rounds body s outs t
  left : body t = .ok none

section Loop

variable {body : Body ε ω σ} {s t u : σ} {outs outs' : List ω}

theorem Rounds.trans (h : Rounds body s outs t) (h' : Rounds body t outs' u) :
    Rounds body s (outs ++ outs') u := by
  induction h with
  | refl s => exact h'
  | step hbody _ ih => exact .step hbody (ih h')

theorem Leaves.unique (h : Leaves body s outs t) (h' : Leaves body s outs' u) :
    outs = outs' ∧ t = u := by
  obtain ⟨hrounds, hleft⟩ := h
  induction hrounds generalizing outs' with
  | refl s =>
      obtain ⟨hrounds', hleft'⟩ := h'
      cases hrounds' with
      | refl => exact ⟨rfl, rfl⟩
      | step hbody _ =>
          rw [hleft] at hbody
          cases hbody
  | step hbody _ ih =>
      obtain ⟨hrounds', hleft'⟩ := h'
      cases hrounds' with
      | refl =>
          rw [hbody] at hleft'
          cases hleft'
      | step hbody' hrest' =>
          rw [hbody] at hbody'
          cases hbody'
          obtain ⟨rfl, rfl⟩ := ih ⟨hrest', hleft'⟩ hleft
          exact ⟨rfl, rfl⟩

theorem leaves_of_loop {fuel : Nat} (h : loop body fuel s = .ok (some (outs, t))) :
    Leaves body s outs t := by
  induction fuel generalizing s outs with
  | zero => cases h
  | succ fuel ih =>
      rw [loop] at h
      split at h
      · cases h
      · rename_i hbody
        cases h
        exact ⟨.refl _, hbody⟩
      · rename_i out s' hbody
        split at h
        · cases h
        · cases h
        · rename_i outs' t' hloop
          cases h
          obtain ⟨hrounds, hleft⟩ := ih hloop
          exact ⟨.step hbody hrounds, hleft⟩

theorem Leaves.loop (h : Leaves body s outs t) :
    ∃ fuel, Drain.loop body fuel s = .ok (some (outs, t)) := by
  obtain ⟨hrounds, hleft⟩ := h
  induction hrounds with
  | refl s =>
      refine ⟨1, ?_⟩
      simp [Drain.loop, hleft]
  | step hbody _ ih =>
      obtain ⟨fuel, hfuel⟩ := ih hleft
      refine ⟨fuel + 1, ?_⟩
      simp [Drain.loop, hbody, hfuel]

theorem loop_error_iff {fault : ε} :
    (∃ fuel, loop body fuel s = .error fault) ↔
      ∃ outs t, Rounds body s outs t ∧ body t = .error fault := by
  constructor
  · rintro ⟨fuel, h⟩
    induction fuel generalizing s with
    | zero => cases h
    | succ fuel ih =>
        rw [loop] at h
        split at h
        · rename_i hbody
          cases h
          exact ⟨[], s, .refl s, hbody⟩
        · cases h
        · rename_i out s' hbody
          split at h
          · rename_i hloop
            cases h
            obtain ⟨outs, t, hrounds, hfault⟩ := ih hloop
            exact ⟨out :: outs, t, .step hbody hrounds, hfault⟩
          · cases h
          · cases h
  · rintro ⟨outs, t, hrounds, hfault⟩
    induction hrounds with
    | refl s =>
        refine ⟨1, ?_⟩
        simp [loop, hfault]
    | step hbody _ ih =>
        obtain ⟨fuel, hfuel⟩ := ih hfault
        refine ⟨fuel + 1, ?_⟩
        simp [loop, hbody, hfuel]

end Loop

/-! ### Leaving the loop -/

/-- Every round the loop comes to makes the measure smaller. -/
def Decreases (measure : σ → Nat) (body : Body ε ω σ) (s : σ) : Prop :=
  ∀ outs t out t', Rounds body s outs t → body t = .ok (some (out, t')) → measure t' < measure t

section Decreases

variable {measure : σ → Nat} {body : Body ε ω σ} {s s' : σ} {out : ω}

theorem Decreases.next (h : Decreases measure body s) (hbody : body s = .ok (some (out, s'))) :
    Decreases measure body s' :=
  fun outs t out' t' hrounds => h (out :: outs) t out' t' (.step hbody hrounds)

/-- With enough fuel such a loop is left, or one of its rounds faults. -/
theorem Decreases.exists_fuel (h : Decreases measure body s) :
    ∃ fuel, loop body fuel s ≠ .ok none := by
  induction hrank : measure s using Nat.strongRecOn generalizing s with
  | ind rank ih =>
      cases hbody : body s with
      | error fault =>
          refine ⟨1, ?_⟩
          simp [loop, hbody]
      | ok next =>
          cases next with
          | none =>
              refine ⟨1, ?_⟩
              simp [loop, hbody]
          | some p =>
              obtain ⟨out, s'⟩ := p
              have hless := h [] s out s' (.refl s) hbody
              rw [hrank] at hless
              obtain ⟨fuel, hfuel⟩ := ih (measure s') hless (h.next hbody) rfl
              refine ⟨fuel + 1, ?_⟩
              cases hrest : loop body fuel s' with
              | error fault => simp [loop, hbody, hrest]
              | ok left =>
                  cases left with
                  | none => exact absurd hrest hfuel
                  | some q => simp [loop, hbody, hrest]

/-- A loop that always goes round once more is never left. -/
theorem loop_eq_none {inv : σ → Prop}
    (hstep : ∀ s, inv s → ∃ out s', body s = .ok (some (out, s')) ∧ inv s') (hs : inv s)
    (fuel : Nat) : loop body fuel s = .ok none := by
  induction fuel generalizing s with
  | zero => rfl
  | succ fuel ih =>
      obtain ⟨out, s', hbody, hs'⟩ := hstep s hs
      rw [loop, hbody]
      simp only [ih hs']

end Decreases

/-! ### Another view of the state -/

/-- On the good states the two bodies do the same, up to the view. -/
structure Views (view : σ → τ) (good : σ → Prop) (body : Body ε ω σ) (body' : Body ε ω τ) :
    Prop where
  commutes : ∀ s, good s → (body s).map (Option.map (Prod.map id view)) = body' (view s)
  keeps : ∀ s out s', good s → body s = .ok (some (out, s')) → good s'

section Views

variable {view : σ → τ} {good : σ → Prop} {body : Body ε ω σ} {body' : Body ε ω τ} {s t : σ}
  {outs : List ω}

theorem Views.rounds (h : Views view good body body') (hs : good s) (hr : Rounds body s outs t) :
    Rounds body' (view s) outs (view t) ∧ good t := by
  induction hr with
  | refl s => exact ⟨.refl _, hs⟩
  | step hbody _ ih =>
      obtain ⟨hrest, ht⟩ := ih (h.keeps _ _ _ hs hbody)
      have hview := h.commutes _ hs
      rw [hbody] at hview
      exact ⟨.step hview.symm hrest, ht⟩

theorem Views.leaves (h : Views view good body body') (hs : good s) (hl : Leaves body s outs t) :
    Leaves body' (view s) outs (view t) ∧ good t := by
  obtain ⟨hrounds, ht⟩ := h.rounds hs hl.rounds
  have hview := h.commutes t ht
  rw [hl.left] at hview
  exact ⟨⟨hrounds, hview.symm⟩, ht⟩

theorem Views.lift_rounds {x : τ} (h : Views view good body body') (hs : good s)
    (hr : Rounds body' (view s) outs x) : ∃ t, Rounds body s outs t ∧ good t ∧ view t = x := by
  generalize hy : view s = y at hr
  induction hr generalizing s with
  | refl y => exact ⟨s, .refl s, hs, hy⟩
  | step hbody' _ ih =>
      have hview := h.commutes s hs
      rw [hy, hbody'] at hview
      cases hbody : body s with
      | error fault =>
          rw [hbody] at hview
          cases hview
      | ok next =>
          rw [hbody] at hview
          cases next with
          | none => cases hview
          | some p =>
              obtain ⟨out, s'⟩ := p
              cases hview
              obtain ⟨t, hrounds, ht, hx⟩ := ih (h.keeps _ _ _ hs hbody) rfl
              exact ⟨t, .step hbody hrounds, ht, hx⟩

theorem Views.lift {x : τ} (h : Views view good body body') (hs : good s)
    (hl : Leaves body' (view s) outs x) : ∃ t, Leaves body s outs t ∧ good t ∧ view t = x := by
  obtain ⟨t, hrounds, ht, rfl⟩ := h.lift_rounds hs hl.rounds
  refine ⟨t, ⟨hrounds, ?_⟩, ht, rfl⟩
  have hview := h.commutes t ht
  rw [hl.left] at hview
  cases hbody : body t with
  | error fault =>
      rw [hbody] at hview
      cases hview
  | ok next =>
      rw [hbody] at hview
      cases next with
      | none => rfl
      | some p => cases hview

theorem Views.error_iff {fault : ε} (h : Views view good body body') (hs : good s) :
    body s = .error fault ↔ body' (view s) = .error fault := by
  have hview := h.commutes s hs
  cases hbody : body s with
  | error fault' =>
      rw [hbody] at hview
      rw [← hview]
      constructor
      · rintro ⟨⟩
        rfl
      · rintro ⟨⟩
        rfl
  | ok next =>
      rw [hbody] at hview
      rw [← hview]
      constructor
      · rintro ⟨⟩
      · rintro ⟨⟩

theorem Views.loop_error_iff {fault : ε} (h : Views view good body body') (hs : good s) :
    (∃ fuel, loop body fuel s = .error fault) ↔
      ∃ fuel, loop body' fuel (view s) = .error fault := by
  rw [Drain.loop_error_iff, Drain.loop_error_iff]
  constructor
  · rintro ⟨outs, t, hrounds, hfault⟩
    obtain ⟨hrounds', ht⟩ := h.rounds hs hrounds
    exact ⟨outs, view t, hrounds', (h.error_iff ht).mp hfault⟩
  · rintro ⟨outs, x, hrounds, hfault⟩
    obtain ⟨t, hrounds', ht, rfl⟩ := h.lift_rounds hs hrounds
    exact ⟨outs, t, hrounds', (h.error_iff ht).mpr hfault⟩

theorem Views.decreases_iff {measure : σ → Nat} {measure' : τ → Nat}
    (h : Views view good body body') (hmeasure : ∀ s, good s → measure s = measure' (view s))
    (hs : good s) : Decreases measure body s ↔ Decreases measure' body' (view s) := by
  constructor
  · intro hdec outs x out x' hrounds hbody'
    obtain ⟨t, hrounds', ht, rfl⟩ := h.lift_rounds hs hrounds
    obtain ⟨t', hnext, ht', rfl⟩ := h.lift_rounds ht (.step hbody' (.refl x'))
    cases hnext with
    | step hbody hrefl =>
        cases hrefl
        rw [← hmeasure _ ht, ← hmeasure _ ht']
        exact hdec outs t out _ hrounds' hbody
  · intro hdec outs t out t' hrounds hbody
    obtain ⟨hrounds', ht⟩ := h.rounds hs hrounds
    obtain ⟨hnext, ht'⟩ := h.rounds ht (.step hbody (.refl t'))
    cases hnext with
    | step hbody' _ =>
        have hview := h.commutes t ht
        rw [hbody] at hview
        rw [hmeasure _ ht, hmeasure _ ht']
        exact hdec outs _ out _ hrounds' hview.symm

end Views

/-! ### Input in pieces -/

/-- More input does not change what a round does. -/
def Stable (extend : σ → List ι → σ) (body : Body ε ω σ) : Prop :=
  ∀ s out s' more, body s = .ok (some (out, s')) →
    body (extend s more) = .ok (some (out, extend s' more))

/-- The pieces of the input are added one after the other, with a run of the loop after each. -/
inductive Fed (extend : σ → List ι → σ) (body : Body ε ω σ) :
    σ → List (List ι) → List ω → σ → Prop where
  | nil (s : σ) : Fed extend body s [] [] s
  | cons {s t u : σ} {chunk : List ι} {chunks : List (List ι)} {outs outs' : List ω} :
      Leaves body (extend s chunk) outs t → Fed extend body t chunks outs' u →
      Fed extend body s (chunk :: chunks) (outs ++ outs') u

section Pieces

variable {extend : σ → List ι → σ} {body : Body ε ω σ} {s t u : σ} {outs outs' : List ω}
  {chunks chunks' : List (List ι)}

theorem Rounds.extended (hstable : Stable extend body) (h : Rounds body s outs t) (more : List ι) :
    Rounds body (extend s more) outs (extend t more) := by
  induction h with
  | refl s => exact .refl _
  | step hbody _ ih => exact .step (hstable _ _ _ more hbody) ih

theorem Fed.rounds (hstable : Stable extend body) (hnil : ∀ s, extend s [] = s)
    (happend : ∀ s a b, extend (extend s a) b = extend s (a ++ b))
    (h : Fed extend body s chunks outs t) : Rounds body (extend s chunks.flatten) outs t := by
  induction h with
  | nil s =>
      rw [List.flatten_nil, hnil]
      exact .refl s
  | cons hleaves _ ih =>
      rw [List.flatten_cons, ← happend]
      exact (hleaves.rounds.extended hstable _).trans ih

theorem Fed.left (hs : body s = .ok none) (h : Fed extend body s chunks outs t) :
    body t = .ok none := by
  induction h with
  | nil s => exact hs
  | cons hleaves _ ih => exact ih hleaves.left

/-- Two ways of cutting the input into pieces end alike. -/
theorem Fed.unique (hstable : Stable extend body) (hnil : ∀ s, extend s [] = s)
    (happend : ∀ s a b, extend (extend s a) b = extend s (a ++ b)) (hs : body s = .ok none)
    (h : Fed extend body s chunks outs t) (h' : Fed extend body s chunks' outs' u)
    (hflatten : chunks.flatten = chunks'.flatten) : outs = outs' ∧ t = u := by
  have hwhole : Leaves body (extend s chunks.flatten) outs t :=
    ⟨h.rounds hstable hnil happend, h.left hs⟩
  have hwhole' : Leaves body (extend s chunks.flatten) outs' u := by
    rw [hflatten]
    exact ⟨h'.rounds hstable hnil happend, h'.left hs⟩
  exact hwhole.unique hwhole'

end Pieces

end Drain
