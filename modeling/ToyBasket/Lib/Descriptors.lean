import Mathlib.Data.List.Basic
import Mathlib.Logic.Function.Basic

/-!
# Descriptor tables

The descriptors of a process and who owns each of them. A system call that makes one takes the
lowest number that is free, below the limit.
-/

structure Descriptors (ω : Type) where
  limit : Nat
  owner : Nat → Option ω

namespace Descriptors

variable {ω : Type} {table table' : Descriptors ω} {o : ω} {fd : Nat}

def lowestFree (table : Descriptors ω) : Option Nat :=
  (List.range table.limit).find? fun fd => (table.owner fd).isNone

def give (table : Descriptors ω) (fd : Nat) (o : Option ω) : Descriptors ω :=
  { table with owner := Function.update table.owner fd o }

/-- A system call that makes a descriptor, and fails with `EMFILE` if none is free. -/
def allocate (table : Descriptors ω) (o : ω) : Option (Nat × Descriptors ω) :=
  match table.lowestFree with
  | none => none
  | some fd => some (fd, table.give fd (some o))

/-- `close`, which finds nothing behind a negative number. -/
def close (table : Descriptors ω) (fd : Int) : Descriptors ω :=
  if fd < 0 then table else table.give fd.toNat none

/-- Who owns the descriptor of this number. -/
def ownerOf (table : Descriptors ω) (fd : Int) : Option ω :=
  if fd < 0 then none else table.owner fd.toNat

theorem owner_give_self (o : Option ω) : (table.give fd o).owner fd = o :=
  Function.update_self _ _ _

theorem owner_give_of_ne {other : Nat} (h : other ≠ fd) (o : Option ω) :
    (table.give fd o).owner other = table.owner other :=
  Function.update_of_ne h _ _

theorem owner_of_lowestFree (h : table.lowestFree = some fd) : table.owner fd = none := by
  have hfree := List.find?_some h
  rwa [Option.isNone_iff_eq_none] at hfree

theorem lt_of_lowestFree (h : table.lowestFree = some fd) : fd < table.limit :=
  List.mem_range.mp (List.mem_of_find?_eq_some h)

theorem lowestFree_eq_none_iff :
    table.lowestFree = none ↔ ∀ fd < table.limit, table.owner fd ≠ none := by
  rw [lowestFree, List.find?_eq_none]
  simp only [List.mem_range, Option.isNone_iff_eq_none, ne_eq]

theorem lowestFree_ne_none (hlt : fd < table.limit) (hfree : table.owner fd = none) :
    table.lowestFree ≠ none := by
  intro hnone
  exact lowestFree_eq_none_iff.mp hnone fd hlt hfree

/-- Of a table in which one number is free that number is the lowest. -/
theorem lowestFree_give_none (hfull : table.lowestFree = none) (hlt : fd < table.limit) :
    (table.give fd none).lowestFree = some fd := by
  cases hfree : (table.give fd none).lowestFree with
  | none => exact absurd hfree (lowestFree_ne_none hlt (owner_give_self none))
  | some other =>
      by_contra hne
      rw [Option.some_inj] at hne
      have hother : other < (table.give fd none).limit := lt_of_lowestFree hfree
      have howner := owner_of_lowestFree hfree
      rw [owner_give_of_ne hne] at howner
      exact lowestFree_eq_none_iff.mp hfull other hother howner

theorem give_give (o o' : Option ω) : (table.give fd o).give fd o' = table.give fd o' := by
  simp only [give, Function.update_idem]

theorem give_of_owner {o : Option ω} (h : table.owner fd = o) : table.give fd o = table := by
  rw [give, ← h, Function.update_eq_self]

theorem close_of_neg {fd : Int} (h : fd < 0) : table.close fd = table := by
  rw [close, if_pos h]

theorem close_natCast : table.close fd = table.give fd none := by
  rw [close, if_neg (by omega), Int.toNat_natCast]

theorem ownerOf_natCast : table.ownerOf fd = table.owner fd := by
  rw [ownerOf, if_neg (by omega), Int.toNat_natCast]

theorem allocate_eq_some (h : table.allocate o = some (fd, table')) :
    table.lowestFree = some fd ∧ table' = table.give fd (some o) := by
  unfold allocate at h
  cases hfree : table.lowestFree with
  | none =>
      rw [hfree] at h
      cases h
  | some free =>
      rw [hfree] at h
      cases h
      exact ⟨rfl, rfl⟩

theorem allocate_eq_none_iff : table.allocate o = none ↔ table.lowestFree = none := by
  unfold allocate
  cases table.lowestFree with
  | none => simp
  | some fd => simp

/-- Every descriptor there is has a number below the limit. -/
def Bounded (table : Descriptors ω) : Prop :=
  ∀ fd, table.owner fd ≠ none → fd < table.limit

theorem Bounded.give (h : table.Bounded) (hfd : fd < table.limit) (o : Option ω) :
    (table.give fd o).Bounded := by
  intro other hother
  by_cases hne : other = fd
  · rw [hne]
    exact hfd
  · rw [owner_give_of_ne hne] at hother
    exact h other hother

theorem Bounded.close (h : table.Bounded) (fd : Int) : (table.close fd).Bounded := by
  cases fd with
  | negSucc n =>
      rw [close_of_neg (Int.negSucc_lt_zero n)]
      exact h
  | ofNat n =>
      rw [Int.ofNat_eq_natCast, close_natCast]
      intro other hother
      by_cases hne : other = n
      · rw [hne, owner_give_self] at hother
        exact absurd rfl hother
      · rw [owner_give_of_ne hne] at hother
        exact h other hother

/-- What is closed is free. -/
theorem lowestFree_close (h : table.Bounded) (hown : table.owner fd ≠ none) :
    (table.close fd).lowestFree ≠ none := by
  rw [close_natCast]
  have hlt : fd < (table.give fd none).limit := h fd hown
  exact lowestFree_ne_none hlt (owner_give_self none)

theorem lowestFree_close_ne_none (h : table.lowestFree ≠ none) (fd : Int) :
    (table.close fd).lowestFree ≠ none := by
  cases fd with
  | negSucc n =>
      rw [close_of_neg (Int.negSucc_lt_zero n)]
      exact h
  | ofNat n =>
      rw [Int.ofNat_eq_natCast, close_natCast]
      obtain ⟨free, hfree⟩ := Option.ne_none_iff_exists'.mp h
      have hlt : free < table.limit := lt_of_lowestFree hfree
      refine lowestFree_ne_none (show free < (table.give n none).limit from hlt) ?_
      by_cases hne : free = n
      · rw [hne, owner_give_self]
      · rw [owner_give_of_ne hne]
        exact owner_of_lowestFree hfree

/-! ### What a component holds -/

/-- Among the owners that are mine, each has the descriptors that the component believes it has. -/
def OwnedBy (table : Descriptors ω) (mine : ω → Prop) (holds : Nat → ω → Prop) : Prop :=
  ∀ fd o, mine o → (table.owner fd = some o ↔ holds fd o)

section OwnedBy

variable {mine : ω → Prop} {holds holds' : Nat → ω → Prop}

theorem OwnedBy.not_holds (h : table.OwnedBy mine holds) (ho : mine o)
    (hfree : table.owner fd = none) : ¬ holds fd o := by
  rw [← h fd o ho, hfree]
  simp

theorem OwnedBy.give (h : table.OwnedBy mine holds) (hfree : table.lowestFree = some fd) {own : ω}
    (hholds : ∀ other o, mine o → (holds' other o ↔ holds other o ∨ other = fd ∧ o = own)) :
    (table.give fd (some own)).OwnedBy mine holds' := by
  intro other o ho
  rw [hholds other o ho]
  by_cases hne : other = fd
  · subst hne
    rw [owner_give_self, Option.some_inj]
    have hnot := h.not_holds ho (owner_of_lowestFree hfree)
    constructor
    · exact fun hown => .inr ⟨rfl, hown.symm⟩
    · rintro (hold | ⟨-, rfl⟩)
      · exact absurd hold hnot
      · rfl
  · rw [owner_give_of_ne hne, h other o ho]
    simp [hne]

theorem OwnedBy.close (h : table.OwnedBy mine holds) (fd : Int)
    (hholds : ∀ other o, mine o → (holds' other o ↔ holds other o ∧ (other : Int) ≠ fd)) :
    (table.close fd).OwnedBy mine holds' := by
  intro other o ho
  rw [hholds other o ho, ← h other o ho]
  cases fd with
  | negSucc n =>
      rw [close_of_neg (Int.negSucc_lt_zero n)]
      have hne : (other : Int) ≠ Int.negSucc n := by omega
      simp [hne]
  | ofNat n =>
      rw [Int.ofNat_eq_natCast, close_natCast]
      by_cases hne : other = n
      · subst hne
        rw [owner_give_self]
        simp
      · rw [owner_give_of_ne hne]
        have hcast : (other : Int) ≠ n := by omega
        simp [hcast]

/-- Two owners never have one descriptor. -/
theorem OwnedBy.ne (h : table.OwnedBy mine holds) {other : Nat} {o' : ω} (ho : mine o)
    (ho' : mine o') (hfd : holds fd o) (hother : holds other o') (hne : o ≠ o') : other ≠ fd := by
  rintro rfl
  have hown := (h other o ho).mpr hfd
  rw [(h other o' ho').mpr hother, Option.some_inj] at hown
  exact hne hown.symm

end OwnedBy

end Descriptors
