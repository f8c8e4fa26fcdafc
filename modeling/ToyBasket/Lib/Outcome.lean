import Mathlib.Tactic.ByContra
import Mathlib.Tactic.TypeStar

/-!
# Pre- and postconditions of fallible code

A computation either returns a value or stops with a fault. `Holds` says what is true of the value
and which faults are possible; its rules follow the way such code is put together, so that a caller
cites the outcome of each callee and never unfolds it.
-/

namespace Outcome

universe u v

variable {ε : Type u} {α β : Type v}

/-- A run test of the code: it goes on, or stops with the fault. -/
def check (fault : ε) (c : Prop) [Decidable c] : Except ε Unit :=
  if c then .ok () else .error fault

/-- Every value returned satisfies `post` and every fault satisfies `fails`. -/
def Holds (run : Except ε α) (post : α → Prop) (fails : ε → Prop) : Prop :=
  match run with
  | .ok value => post value
  | .error fault => fails fault

variable {run : Except ε α} {post : α → Prop} {fails : ε → Prop}

instance [DecidablePred post] [DecidablePred fails] : Decidable (Holds run post fails) :=
  match run with
  | .ok value => inferInstanceAs (Decidable (post value))
  | .error fault => inferInstanceAs (Decidable (fails fault))

@[simp]
theorem holds_ok {value : α} : Holds (.ok value : Except ε α) post fails ↔ post value := Iff.rfl

@[simp]
theorem holds_error {fault : ε} : Holds (.error fault : Except ε α) post fails ↔ fails fault :=
  Iff.rfl

@[simp]
theorem holds_pure {value : α} : Holds (pure value : Except ε α) post fails ↔ post value := Iff.rfl

theorem Holds.of_ok {value : α} (h : Holds run post fails) (hrun : run = .ok value) :
    post value := by
  rwa [hrun] at h

theorem Holds.of_error {fault : ε} (h : Holds run post fails) (hrun : run = .error fault) :
    fails fault := by
  rwa [hrun] at h

theorem Holds.mono {post' : α → Prop} {fails' : ε → Prop} (h : Holds run post fails)
    (hpost : ∀ value, post value → post' value) (hfails : ∀ fault, fails fault → fails' fault) :
    Holds run post' fails' := by
  cases run with
  | ok value => exact hpost value h
  | error fault => exact hfails fault h

theorem Holds.imp {post' : α → Prop} (h : Holds run post fails)
    (hpost : ∀ value, post value → post' value) : Holds run post' fails :=
  h.mono hpost fun _ hfault => hfault

theorem Holds.returns (h : Holds run post fun _ => False) :
    ∃ value, run = .ok value ∧ post value := by
  cases run with
  | ok value => exact ⟨value, rfl, h⟩
  | error fault => exact h.elim

theorem Holds.bind {next : α → Except ε β} {post' : β → Prop} (h : Holds run post fails)
    (hnext : ∀ value, post value → Holds (next value) post' fails) :
    Holds (run >>= next) post' fails := by
  cases run with
  | ok value => exact hnext value h
  | error fault => exact h

@[simp]
theorem ok_bind {value : α} {next : α → Except ε β} :
    (Except.ok value >>= next) = next value := (rfl)

/-- Two computations in a row return when both do. -/
theorem bind_eq_ok {next : α → Except ε β} {value : β} :
    (run >>= next) = .ok value ↔ ∃ between, run = .ok between ∧ next between = .ok value := by
  cases run with
  | ok between =>
      rw [ok_bind]
      constructor
      · exact fun h => ⟨between, rfl, h⟩
      · rintro ⟨_, ⟨⟩, h⟩
        exact h
  | error fault =>
      constructor
      · exact fun h => nomatch h
      · rintro ⟨_, ⟨⟩, _⟩

@[simp]
theorem check_of_true {fault : ε} {c : Prop} [Decidable c] (hc : c) : check fault c = .ok () :=
  if_pos hc

@[simp]
theorem check_of_false {fault : ε} {c : Prop} [Decidable c] (hc : ¬ c) :
    check fault c = .error fault := if_neg hc

theorem of_check {fault : ε} {c : Prop} [Decidable c] {value : Unit}
    (h : check fault c = .ok value) : c := by
  by_contra hc
  rw [check_of_false hc] at h
  cases h

end Outcome
