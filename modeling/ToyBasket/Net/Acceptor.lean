import Mathlib.Data.List.Perm.Basic
import ToyBasket.Lib.Descriptors
import ToyBasket.Lib.Machine

/-!
# The acceptor and its descriptors

`Acceptor.cpp` and `Socket::accept`. The acceptor keeps a descriptor in reserve, and gives it up to
refuse a client when there is no other one left. Each system call is a step, and between two of them
other threads open and close files.
-/

namespace ToyBasket

open Machine

/-- Who closes a descriptor. What was handed to `newConnectionCallback_` is somebody else's. -/
inductive FdOwner where
  | acceptSocket
  | idle
  | client (c : Nat)
  | other
deriving DecidableEq, Repr

/-- A descriptor that the acceptor has to close. -/
def FdOwner.Mine : FdOwner → Prop
  | .acceptSocket | .idle | .client _ => True
  | .other => False

/-- The system call that is next. -/
inductive AcceptStage where
  | waiting
  | closeIdle
  | acceptAgain
  | closeAgain (client : Option Nat)
  | openIdle
  | closeClient (fd c : Nat)
  | gone
deriving DecidableEq, Repr

inductive AcceptFault where
  | assertion
  | logFatal
deriving DecidableEq, Repr

/-- The clients are numbered in the order in which they come; `backlog` are those in the queue of
the kernel. `closes` records what each `close` of the acceptor was called with and whose it was. -/
structure Acceptor where
  fds : Descriptors FdOwner
  arrived : Nat
  backlog : List Nat
  callback : Bool
  acceptSocket : Nat
  idleFd : Int
  stage : AcceptStage
  handed : List (Nat × Nat)
  refused : List Nat
  aborted : List Nat
  closes : List (Int × Option FdOwner)

namespace Acceptor

/-- Other errors of `accept` than the ones of a full table and an empty queue: those that
`Socket::accept` expects, and those it takes for fatal. -/
inductive Failure where
  | expected
  | unexpected
deriving DecidableEq, Repr

inductive Event where
  | arrive
  | abort (i : Nat)
  | openOther
  | closeOther (fd : Nat)
  | handleRead (failure : Option Failure)
  | proceed (failure : Option Failure)
  | destroy
deriving DecidableEq, Repr

/-- The constructor, in a process with these descriptors. -/
def construct (fds : Descriptors FdOwner) (callback : Bool) : Except AcceptFault Acceptor :=
  match fds.allocate .acceptSocket with
  | none => .error .assertion
  | some (acceptSocket, fds) =>
      match fds.allocate .idle with
      | none => .error .assertion
      | some (idleFd, fds) => .ok {
          fds := fds
          arrived := 0
          backlog := []
          callback := callback
          acceptSocket := acceptSocket
          idleFd := idleFd
          stage := .waiting
          handed := []
          refused := []
          aborted := []
          closes := [] }

/-- `::close`. -/
def close (a : Acceptor) (fd : Int) : Acceptor :=
  { a with fds := a.fds.close fd, closes := a.closes ++ [(fd, a.fds.ownerOf fd)] }

/-- The first part of `handleRead`. `accept4` looks for a free descriptor before it looks for a
client. -/
def handleRead (a : Acceptor) : Option Failure → Except AcceptFault Acceptor
  | some .unexpected => .error .logFatal
  | some .expected => .ok a
  | none =>
      match a.fds.lowestFree, a.backlog with
      | none, _ => .ok { a with stage := .closeIdle }
      | some _, [] => .ok a
      | some connfd, c :: backlog =>
          if a.callback then
            .ok { a with
              fds := a.fds.give connfd (some .other)
              backlog := backlog
              handed := a.handed ++ [(c, connfd)] }
          else
            .ok { a with
              fds := a.fds.give connfd (some (.client c))
              backlog := backlog
              stage := .closeClient connfd c }

/-- `idleFd_ = ::accept(..)`. -/
def acceptAgain (a : Acceptor) (failure : Option Failure) : Acceptor :=
  match failure, a.fds.lowestFree, a.backlog with
  | none, some fd, c :: backlog =>
      { a with
        fds := a.fds.give fd (some (.client c))
        backlog := backlog
        idleFd := fd
        stage := .closeAgain (some c) }
  | _, _, _ => { a with idleFd := -1, stage := .closeAgain none }

/-- `idleFd_ = ::open("/dev/null", ..)`. -/
def openIdle (a : Acceptor) : Acceptor :=
  match a.fds.allocate .idle with
  | none => { a with idleFd := -1, stage := .waiting }
  | some (fd, fds) => { a with fds := fds, idleFd := fd, stage := .waiting }

def proceed (a : Acceptor) (failure : Option Failure) : Acceptor :=
  match a.stage with
  | .waiting | .gone => a
  | .closeIdle => { a.close a.idleFd with stage := .acceptAgain }
  | .acceptAgain => a.acceptAgain failure
  | .closeAgain client =>
      { a.close a.idleFd with refused := a.refused ++ client.toList, stage := .openIdle }
  | .openIdle => a.openIdle
  | .closeClient fd c => { a.close fd with refused := a.refused ++ [c], stage := .waiting }

/-- The destructors of the acceptor and of its socket. -/
def destroy (a : Acceptor) : Acceptor :=
  { (a.close a.idleFd).close a.acceptSocket with stage := .gone }

def step (a : Acceptor) : Event → Except AcceptFault Acceptor
  | .arrive => .ok { a with arrived := a.arrived + 1, backlog := a.backlog ++ [a.arrived] }
  | .abort i =>
      match a.backlog[i]? with
      | none => .ok a
      | some c => .ok { a with backlog := a.backlog.eraseIdx i, aborted := a.aborted ++ [c] }
  | .openOther =>
      match a.fds.allocate .other with
      | none => .ok a
      | some (_, fds) => .ok { a with fds := fds }
  | .closeOther fd =>
      if a.fds.owner fd = some .other then .ok { a with fds := a.fds.close fd } else .ok a
  | .handleRead failure => if a.stage = .waiting then a.handleRead failure else .ok a
  | .proceed failure => .ok (a.proceed failure)
  | .destroy => if a.stage = .waiting then .ok a.destroy else .ok a

/-! ### What the acceptor holds -/

/-- The acceptor owns the descriptor and will close it. -/
def Holds (a : Acceptor) (fd : Nat) (o : FdOwner) : Prop :=
  (a.stage ≠ .gone ∧ fd = a.acceptSocket ∧ o = .acceptSocket) ∨
    match a.stage with
    | .waiting | .closeIdle => a.idleFd = fd ∧ o = .idle
    | .closeAgain client => a.idleFd = fd ∧ ∃ c, client = some c ∧ o = .client c
    | .closeClient connfd c => (fd = connfd ∧ o = .client c) ∨ (a.idleFd = fd ∧ o = .idle)
    | .acceptAgain | .openIdle | .gone => False

/-- The client that has been accepted to be refused. -/
def inHand (a : Acceptor) : List Nat :=
  match a.stage with
  | .closeAgain client => client.toList
  | .closeClient _ c => [c]
  | .waiting | .closeIdle | .acceptAgain | .openIdle | .gone => []

/-- The number is that of no descriptor, or of one that the acceptor has to close. -/
def OwnClose (p : Int × Option FdOwner) : Prop := p.1 < 0 ∨ ∃ o, p.2 = some o ∧ o.Mine

/-- What every system call keeps. -/
structure Accounted (a : Acceptor) : Prop where
  clients : (List.range a.arrived).Perm
    (a.backlog ++ a.handed.map Prod.fst ++ a.refused ++ a.aborted ++ a.inHand)
  owner : a.fds.OwnedBy FdOwner.Mine a.Holds
  closes : ∀ p ∈ a.closes, OwnClose p
  failed : a.stage = .closeAgain none → a.idleFd < 0

variable {a a' : Acceptor} {events : List Event} {fds fds' : Descriptors FdOwner} {callback : Bool}

theorem Accounted.construct (hother : ∀ fd o, fds.owner fd = some o → o = .other)
    (h : construct fds callback = .ok a) : a.Accounted := by
  unfold Acceptor.construct at h
  split at h
  · cases h
  · rename_i acceptSocket fds₁ hsocket
    split at h
    · cases h
    · rename_i idleFd fds₂ hidle
      cases h
      obtain ⟨hfree₁, rfl⟩ := Descriptors.allocate_eq_some hsocket
      obtain ⟨hfree₂, rfl⟩ := Descriptors.allocate_eq_some hidle
      refine ⟨List.Perm.refl _, ?_, by simp, by simp⟩
      have hnone : fds.OwnedBy FdOwner.Mine fun _ _ => False := by
        intro fd o ho
        rw [iff_false]
        intro hown
        rw [hother fd o hown] at ho
        exact ho
      have hlisten : (fds.give acceptSocket (some .acceptSocket)).OwnedBy FdOwner.Mine
          fun fd o => fd = acceptSocket ∧ o = .acceptSocket := by
        refine hnone.give hfree₁ ?_
        simp
      refine hlisten.give hfree₂ ?_
      simp only [Holds, ne_eq, eq_comm, reduceCtorEq, not_false_eq_true, true_and,
        Int.natCast_inj, implies_true]

theorem holds_acceptSocket (hstage : a.stage ≠ .gone) : a.Holds a.acceptSocket .acceptSocket :=
  .inl ⟨hstage, rfl, rfl⟩

/-- What is closed is the own. -/
theorem ownClose_of_holds (h : a.Accounted) {fd : Int}
    (hfd : ∀ n : Nat, fd = n → ∃ o, o.Mine ∧ a.Holds n o) :
    ∀ p ∈ (a.close fd).closes, OwnClose p := by
  intro p hp
  rw [close, List.mem_append, List.mem_singleton] at hp
  rcases hp with hp | rfl
  · exact h.closes p hp
  · cases fd with
    | negSucc n => exact .inl (Int.negSucc_lt_zero n)
    | ofNat n =>
        obtain ⟨o, ho, hholds⟩ := hfd n rfl
        refine .inr ⟨o, ?_, ho⟩
        rw [Int.ofNat_eq_natCast, Descriptors.ownerOf_natCast]
        exact (h.owner n o ho).mpr hholds

/-- What has another owner is not the listening socket. -/
theorem ne_acceptSocket (h : a.Accounted) (hstage : a.stage ≠ .gone) {fd : Int} {o : FdOwner}
    (ho : o.Mine) (hne : o ≠ .acceptSocket) (hfd : ∀ n : Nat, fd = n → a.Holds n o) :
    fd ≠ a.acceptSocket := by
  intro heq
  have hmine : FdOwner.Mine .acceptSocket := trivial
  exact h.owner.ne ho hmine (hfd _ heq) (holds_acceptSocket hstage) hne rfl

/-- The reserve is given up, to refuse a client or for good. -/
theorem Accounted.closeIdle (h : a.Accounted) (hstage : a.stage = .closeIdle ∨ a.stage = .waiting) :
    ({ a.close a.idleFd with stage := .acceptAgain } : Acceptor).Accounted := by
  have hmine : FdOwner.Mine .idle := trivial
  have hidle : ∀ n : Nat, a.idleFd = n → a.Holds n .idle := by
    intro n hn
    right
    rcases hstage with hstage | hstage <;> rw [hstage] <;> exact ⟨hn, rfl⟩
  have hgone : a.stage ≠ .gone := by
    rcases hstage with hstage | hstage <;> simp [hstage]
  have hsocket := ne_acceptSocket h hgone hmine (by simp) hidle
  refine ⟨?_, h.owner.close _ ?_, ownClose_of_holds h fun n hn => ⟨_, hmine, hidle n hn⟩, by simp⟩
  · have hclients := h.clients
    rcases hstage with hstage | hstage <;> rw [inHand, hstage] at hclients <;> exact hclients
  · intro other o ho
    rcases hstage with hstage | hstage <;> simp only [Holds, hstage, Acceptor.close] <;> grind

/-- The second `close`, of the client that is refused or of no descriptor at all. -/
theorem Accounted.closeAgain (h : a.Accounted) {client : Option Nat}
    (hstage : a.stage = .closeAgain client) :
    ({ a.close a.idleFd with
      refused := a.refused ++ client.toList, stage := .openIdle } : Acceptor).Accounted := by
  have hmine : FdOwner.Mine (.client (client.getD 0)) := trivial
  have hidle : ∀ n : Nat, a.idleFd = n → a.Holds n (.client (client.getD 0)) := by
    intro n hn
    right
    rw [hstage]
    cases client with
    | none =>
        have hneg := h.failed hstage
        omega
    | some c => exact ⟨hn, c, rfl, rfl⟩
  have hsocket := ne_acceptSocket h (by simp [hstage]) hmine (by simp) hidle
  refine ⟨?_, h.owner.close _ ?_, ownClose_of_holds h fun n hn => ⟨_, hmine, hidle n hn⟩, by simp⟩
  · have hclients := h.clients
    rw [inHand, hstage] at hclients
    refine hclients.trans ?_
    simp only [inHand, Acceptor.close]
    grind
  · intro other o ho
    simp only [Holds, hstage, Acceptor.close]
    grind

theorem Accounted.closeClient (h : a.Accounted) {fd c : Nat}
    (hstage : a.stage = .closeClient fd c) :
    ({ a.close fd with refused := a.refused ++ [c], stage := .waiting } : Acceptor).Accounted := by
  have hmine : FdOwner.Mine (.client c) := trivial
  have hfd : a.Holds fd (.client c) := by
    right
    rw [hstage]
    exact .inl ⟨rfl, rfl⟩
  have hclient : ∀ n : Nat, (fd : Int) = n → a.Holds n (.client c) := by
    intro n hn
    rwa [← Int.natCast_inj.mp hn]
  have hsocket := ne_acceptSocket h (by simp [hstage]) hmine (by simp) hclient
  have hidle : a.idleFd ≠ fd := by
    intro heq
    have hreserve : a.Holds fd .idle := by
      right
      rw [hstage]
      exact .inr ⟨heq, rfl⟩
    exact h.owner.ne hmine (show FdOwner.Mine .idle from trivial) hfd hreserve (by simp) rfl
  have hcloses := ownClose_of_holds h fun n hn => ⟨_, hmine, hclient n hn⟩
  refine ⟨?_, h.owner.close fd ?_, hcloses, by simp⟩
  · have hclients := h.clients
    rw [inHand, hstage] at hclients
    refine hclients.trans ?_
    simp only [inHand, Acceptor.close]
    grind
  · intro other o ho
    simp only [Holds, hstage, Acceptor.close]
    grind

/-- `accept` with one descriptor free, or without a client or a descriptor. -/
theorem Accounted.acceptAgain (h : a.Accounted) (hstage : a.stage = .acceptAgain)
    (failure : Option Failure) : (a.acceptAgain failure).Accounted := by
  have hclients := h.clients
  rw [inHand, hstage] at hclients
  have hfail : ({ a with idleFd := -1, stage := .closeAgain none } : Acceptor).Accounted := by
    refine ⟨hclients, ?_, h.closes, by simp⟩
    intro other o ho
    rw [h.owner other o ho]
    simp [Holds, hstage]
  unfold Acceptor.acceptAgain
  split
  · rename_i fd c backlog hfree hbacklog
    refine ⟨?_, h.owner.give hfree ?_, h.closes, by simp⟩
    · rw [hbacklog] at hclients
      refine hclients.trans ?_
      simp only [inHand]
      grind
    · intro other o ho
      simp only [Holds, hstage]
      grind
  · exact hfail

theorem Accounted.openIdle (h : a.Accounted) (hstage : a.stage = .openIdle) :
    a.openIdle.Accounted := by
  have hclients := h.clients
  rw [inHand, hstage] at hclients
  unfold Acceptor.openIdle
  split
  · refine ⟨hclients, ?_, h.closes, by simp⟩
    intro other o ho
    rw [h.owner other o ho]
    simp only [Holds, hstage]
    grind
  · rename_i fd fds hidle
    obtain ⟨hfree, rfl⟩ := Descriptors.allocate_eq_some hidle
    refine ⟨hclients, h.owner.give hfree ?_, h.closes, by simp⟩
    intro other o ho
    simp only [Holds, hstage]
    grind

theorem Accounted.proceed (h : a.Accounted) (failure : Option Failure) :
    (a.proceed failure).Accounted := by
  unfold Acceptor.proceed
  split
  · exact h
  · exact h
  · rename_i hstage
    exact h.closeIdle (.inl hstage)
  · rename_i hstage
    exact h.acceptAgain hstage failure
  · rename_i client hstage
    exact h.closeAgain hstage
  · rename_i hstage
    exact h.openIdle hstage
  · rename_i fd c hstage
    exact h.closeClient hstage

theorem Accounted.handleRead (h : a.Accounted) (hstage : a.stage = .waiting)
    {failure : Option Failure} (hnext : a.handleRead failure = .ok a') : a'.Accounted := by
  have hclients := h.clients
  rw [inHand, hstage] at hclients
  unfold Acceptor.handleRead at hnext
  split at hnext
  · cases hnext
  · cases hnext
    exact h
  · split at hnext
    · cases hnext
      refine ⟨hclients, ?_, h.closes, by simp⟩
      intro other o ho
      rw [h.owner other o ho]
      simp only [Holds, hstage]
      grind
    · cases hnext
      exact h
    · rename_i connfd c backlog hfree hbacklog
      rw [hbacklog] at hclients
      split at hnext
      · cases hnext
        refine ⟨?_, h.owner.give hfree ?_, h.closes, by simp [hstage]⟩
        · refine hclients.trans ?_
          simp only [inHand, hstage]
          grind
        · intro other o ho
          simp only [Holds, hstage]
          grind [FdOwner.Mine]
      · cases hnext
        refine ⟨?_, h.owner.give hfree ?_, h.closes, by simp⟩
        · refine hclients.trans ?_
          simp only [inHand]
          grind
        · intro other o ho
          simp only [Holds, hstage]
          grind

theorem Accounted.destroy (h : a.Accounted) (hstage : a.stage = .waiting) :
    a.destroy.Accounted := by
  have hmid := h.closeIdle (.inr hstage)
  have hmine : FdOwner.Mine .acceptSocket := trivial
  have hsocket : ∀ n : Nat, (a.acceptSocket : Int) = n →
      ({ a.close a.idleFd with stage := .acceptAgain } : Acceptor).Holds n .acceptSocket := by
    intro n hn
    exact .inl ⟨by simp, (Int.natCast_inj.mp hn).symm, rfl⟩
  have hcloses := ownClose_of_holds hmid fun n hn => ⟨_, hmine, hsocket n hn⟩
  refine ⟨?_, hmid.owner.close a.acceptSocket ?_, hcloses, by simp [Acceptor.destroy]⟩
  · have hclients := hmid.clients
    exact hclients
  · intro other o ho
    simp only [Holds, Acceptor.destroy, Acceptor.close]
    grind

theorem Accounted.step {event : Event} (h : a.Accounted) (hnext : a.step event = .ok a') :
    a'.Accounted := by
  cases event with
  | arrive =>
      cases hnext
      refine ⟨?_, h.owner, h.closes, h.failed⟩
      rw [List.range_succ]
      have hclients := h.clients
      simp only [inHand] at hclients ⊢
      grind
  | abort i =>
      simp only [Acceptor.step] at hnext
      split at hnext
      · cases hnext
        exact h
      · rename_i c hget
        cases hnext
        refine ⟨?_, h.owner, h.closes, h.failed⟩
        obtain ⟨hi, rfl⟩ := List.getElem?_eq_some_iff.mp hget
        have hperm := List.getElem_cons_eraseIdx_perm hi
        have hclients := h.clients
        simp only [inHand] at hclients ⊢
        grind
  | openOther =>
      simp only [Acceptor.step] at hnext
      split at hnext
      · cases hnext
        exact h
      · rename_i fd fds hother
        cases hnext
        obtain ⟨hfree, rfl⟩ := Descriptors.allocate_eq_some hother
        refine ⟨h.clients, h.owner.give hfree ?_, h.closes, h.failed⟩
        intro other o ho
        simp only [Holds]
        grind [FdOwner.Mine]
  | closeOther fd =>
      simp only [Acceptor.step] at hnext
      split at hnext
      · rename_i hown
        cases hnext
        refine ⟨h.clients, h.owner.close fd ?_, h.closes, h.failed⟩
        intro other o ho
        have hne : a.Holds other o → (other : Int) ≠ fd := by
          intro hholds heq
          rw [← h.owner other o ho, Int.natCast_inj.mp heq, hown] at hholds
          cases hholds
          exact ho
        exact ⟨fun hholds => ⟨hholds, hne hholds⟩, And.left⟩
      · cases hnext
        exact h
  | handleRead failure =>
      simp only [Acceptor.step] at hnext
      split at hnext
      · rename_i hstage
        exact h.handleRead hstage hnext
      · cases hnext
        exact h
  | proceed failure =>
      cases hnext
      exact h.proceed failure
  | destroy =>
      simp only [Acceptor.step] at hnext
      split at hnext
      · rename_i hstage
        cases hnext
        exact h.destroy hstage
      · cases hnext
        exact h

/-- The descriptors that the acceptor is left with, whatever happens between its system calls. -/
theorem accounted_run (hother : ∀ fd o, fds.owner fd = some o → o = .other)
    (hstart : construct fds callback = .ok a) (hrun : run step a events = .ok a') :
    (List.range a'.arrived).Perm
        (a'.backlog ++ a'.handed.map Prod.fst ++ a'.refused ++ a'.aborted ++ a'.inHand) ∧
      (∀ p ∈ a'.closes, OwnClose p) ∧
      (a'.stage = .waiting → ∀ fd o, o.Mine → (a'.fds.owner fd = some o ↔
        (fd = a'.acceptSocket ∧ o = .acceptSocket) ∨ (a'.idleFd = fd ∧ o = .idle))) ∧
      (a'.stage = .gone → ∀ fd o, a'.fds.owner fd = some o → o = .other) := by
  have hstep : ∀ s event s', Accounted s → step s event = .ok s' → Accounted s' :=
    fun s event s' hs hnext => hs.step hnext
  have hacc := Machine.invariant hstep hrun (Accounted.construct hother hstart)
  refine ⟨hacc.clients, hacc.closes, ?_, ?_⟩
  · intro hstage fd o ho
    rw [hacc.owner fd o ho]
    simp [Holds, hstage]
  · intro hstage fd o hown
    by_contra hne
    have ho : o.Mine := by
      cases o <;> trivial
    rw [hacc.owner fd o ho] at hown
    simp [Holds, hstage] at hown

/-- A process that may have three descriptors and has one. -/
def smallTable : Descriptors FdOwner where
  limit := 3
  owner fd := if fd = 0 then some .other else none

/-- A client is refused, and another thread takes the descriptor that the acceptor gave up. -/
def disturbed : List Event :=
  [.arrive, .arrive, .handleRead none, .proceed none, .proceed none, .proceed none, .openOther,
    .proceed none]

theorem smallTable_other : ∀ fd o, smallTable.owner fd = some o → o = .other := by
  intro fd o hown
  simp only [smallTable] at hown
  split at hown
  · exact (Option.some_inj.mp hown).symm
  · cases hown

theorem accounted_run_disturbed : ∃ a a', construct smallTable true = .ok a ∧
    Machine.run step a disturbed = .ok a' ∧ a'.refused = [0] ∧ a'.backlog = [1] ∧
      a'.idleFd = -1 ∧ ∀ fd, a'.fds.owner fd ≠ some .idle := by
  have hboth : Outcome.Holds (construct smallTable true) (fun a =>
      Outcome.Holds (Machine.run step a disturbed) (fun a' => a'.refused = [0] ∧
        a'.backlog = [1] ∧ a'.idleFd = -1 ∧ a'.stage = .waiting) fun _ => False)
      fun _ => False := by
    decide +kernel
  obtain ⟨a, hstart, hevents⟩ := hboth.returns
  obtain ⟨a', hrun, hrefused, hbacklog, hidle, hstage⟩ := hevents.returns
  generalize disturbed = events at hrun
  obtain ⟨-, -, hown, -⟩ := accounted_run smallTable_other hstart hrun
  refine ⟨a, a', hstart, hrun, hrefused, hbacklog, hidle, ?_⟩
  intro fd hfd
  rw [hown hstage fd .idle trivial] at hfd
  simp [hidle] at hfd

/-! ### The reserve -/

/-- The descriptor in reserve is there, or the free one that takes its place. -/
def Reserved (a : Acceptor) : Prop :=
  match a.stage with
  | .waiting | .closeIdle | .closeClient _ _ | .closeAgain (some _) => 0 ≤ a.idleFd
  | .acceptAgain | .closeAgain none | .openIdle => a.fds.lowestFree ≠ none
  | .gone => True

/-- Nobody else opens a file when the one descriptor is free that the acceptor has given up. -/
def Spares (a : Acceptor) (event : Event) : Prop :=
  event = .openOther → (a.stage = .acceptAgain ∨ a.stage = .closeAgain none ∨ a.stage = .openIdle) →
    ∀ fd fds, a.fds.allocate .other = some (fd, fds) → fds.lowestFree ≠ none

/-- What is kept as long as the reserve is spared. -/
structure Guarded (a : Acceptor) : Prop where
  accounted : a.Accounted
  bounded : a.fds.Bounded
  reserved : a.Reserved

theorem Guarded.construct (hother : ∀ fd o, fds.owner fd = some o → o = .other)
    (hbounded : fds.Bounded) (h : construct fds callback = .ok a) : a.Guarded := by
  have hacc := Accounted.construct hother h
  unfold Acceptor.construct at h
  split at h
  · cases h
  · rename_i acceptSocket fds₁ hsocket
    split at h
    · cases h
    · rename_i idleFd fds₂ hidle
      cases h
      obtain ⟨hfree₁, rfl⟩ := Descriptors.allocate_eq_some hsocket
      obtain ⟨hfree₂, rfl⟩ := Descriptors.allocate_eq_some hidle
      have hlisten := hbounded.give (Descriptors.lt_of_lowestFree hfree₁) (some .acceptSocket)
      exact ⟨hacc, hlisten.give (Descriptors.lt_of_lowestFree hfree₂) _, Int.natCast_nonneg idleFd⟩

theorem Guarded.lt_idleFd (h : a.Guarded) {fd : Nat} {o : FdOwner} (ho : o.Mine)
    (hfd : a.Holds fd o) : (a.fds.close fd).lowestFree ≠ none := by
  apply Descriptors.lowestFree_close h.bounded
  rw [(h.accounted.owner fd o ho).mpr hfd]
  simp

theorem bounded_proceed (h : a.fds.Bounded) (failure : Option Failure) :
    (a.proceed failure).fds.Bounded := by
  unfold Acceptor.proceed
  split
  · exact h
  · exact h
  · exact h.close _
  · unfold Acceptor.acceptAgain
    split
    · rename_i hfree _
      exact h.give (Descriptors.lt_of_lowestFree hfree) _
    · exact h
  · exact h.close _
  · unfold Acceptor.openIdle
    split
    · exact h
    · rename_i hidle
      obtain ⟨hfree, rfl⟩ := Descriptors.allocate_eq_some hidle
      exact h.give (Descriptors.lt_of_lowestFree hfree) _
  · rename_i fd c _
    exact h.close fd

theorem bounded_step {event : Event} (h : a.fds.Bounded) (hnext : a.step event = .ok a') :
    a'.fds.Bounded := by
  cases event with
  | arrive =>
      cases hnext
      exact h
  | abort i =>
      simp only [Acceptor.step] at hnext
      split at hnext <;> cases hnext <;> exact h
  | openOther =>
      simp only [Acceptor.step] at hnext
      split at hnext
      · cases hnext
        exact h
      · rename_i hother
        cases hnext
        obtain ⟨hfree, rfl⟩ := Descriptors.allocate_eq_some hother
        exact h.give (Descriptors.lt_of_lowestFree hfree) _
  | closeOther fd =>
      simp only [Acceptor.step] at hnext
      split at hnext
      · cases hnext
        exact h.close fd
      · cases hnext
        exact h
  | handleRead failure =>
      simp only [Acceptor.step] at hnext
      split at hnext
      · unfold Acceptor.handleRead at hnext
        split at hnext
        · cases hnext
        · cases hnext
          exact h
        · split at hnext
          · cases hnext
            exact h
          · cases hnext
            exact h
          · rename_i hfree _
            have hgive := h.give (Descriptors.lt_of_lowestFree hfree)
            split at hnext <;> cases hnext <;> exact hgive _
      · cases hnext
        exact h
  | proceed failure =>
      cases hnext
      exact bounded_proceed h failure
  | destroy =>
      simp only [Acceptor.step] at hnext
      split at hnext
      · cases hnext
        exact (h.close a.idleFd).close a.acceptSocket
      · cases hnext
        exact h

theorem Guarded.reserved_proceed (h : a.Guarded) (failure : Option Failure) :
    (a.proceed failure).Reserved := by
  have hreserved := h.reserved
  unfold Acceptor.proceed
  split
  · exact hreserved
  · exact hreserved
  · rename_i hstage
    rw [Reserved, hstage] at hreserved
    obtain ⟨fd, hfd⟩ := Int.eq_ofNat_of_zero_le hreserved
    have hidle : a.Holds fd .idle := by
      right
      rw [hstage]
      exact ⟨hfd, rfl⟩
    have hfree := h.lt_idleFd (show FdOwner.Mine .idle from trivial) hidle
    rw [← hfd] at hfree
    exact hfree
  · rename_i hstage
    rw [Reserved, hstage] at hreserved
    unfold Acceptor.acceptAgain
    split
    · rename_i fd c backlog hfree hbacklog
      exact Int.natCast_nonneg fd
    · exact hreserved
  · rename_i client hstage
    rw [Reserved, hstage] at hreserved
    cases client with
    | none => exact Descriptors.lowestFree_close_ne_none hreserved _
    | some c =>
        obtain ⟨fd, hfd⟩ := Int.eq_ofNat_of_zero_le hreserved
        have hclient : a.Holds fd (.client c) := by
          right
          rw [hstage]
          exact ⟨hfd, c, rfl, rfl⟩
        have hfree := h.lt_idleFd (show FdOwner.Mine (.client c) from trivial) hclient
        rw [← hfd] at hfree
        exact hfree
  · rename_i hstage
    rw [Reserved, hstage] at hreserved
    unfold Acceptor.openIdle
    split
    · rename_i hidle
      exact absurd (Descriptors.allocate_eq_none_iff.mp hidle) hreserved
    · exact Int.natCast_nonneg _
  · rename_i fd c hstage
    rw [Reserved, hstage] at hreserved
    exact hreserved

theorem Guarded.step {event : Event} (h : a.Guarded) (hspares : a.Spares event)
    (hnext : a.step event = .ok a') : a'.Guarded := by
  refine ⟨h.accounted.step hnext, bounded_step h.bounded hnext, ?_⟩
  have hreserved := h.reserved
  cases event with
  | arrive =>
      cases hnext
      exact hreserved
  | abort i =>
      simp only [Acceptor.step] at hnext
      split at hnext <;> cases hnext <;> exact hreserved
  | openOther =>
      simp only [Acceptor.step] at hnext
      split at hnext
      · cases hnext
        exact hreserved
      · rename_i fd fds hother
        cases hnext
        have hfree := fun hstage => hspares rfl hstage fd fds hother
        simp only [Reserved] at hreserved ⊢
        grind
  | closeOther fd =>
      simp only [Acceptor.step] at hnext
      split at hnext
      · cases hnext
        have hfree : a.fds.lowestFree ≠ none → (a.fds.close fd).lowestFree ≠ none :=
          fun hfree => Descriptors.lowestFree_close_ne_none hfree fd
        simp only [Reserved] at hreserved ⊢
        grind
      · cases hnext
        exact hreserved
  | handleRead failure =>
      simp only [Acceptor.step] at hnext
      split at hnext
      · rename_i hstage
        rw [Reserved, hstage] at hreserved
        unfold Acceptor.handleRead at hnext
        split at hnext
        · cases hnext
        · cases hnext
          exact h.reserved
        · split at hnext
          · cases hnext
            exact hreserved
          · cases hnext
            exact h.reserved
          · split at hnext
            · cases hnext
              simp only [Reserved, hstage]
              exact hreserved
            · cases hnext
              exact hreserved
      · cases hnext
        exact hreserved
  | proceed failure =>
      cases hnext
      exact h.reserved_proceed failure
  | destroy =>
      simp only [Acceptor.step] at hnext
      split at hnext
      · cases hnext
        trivial
      · cases hnext
        exact hreserved

/-- The reserve is there throughout the run exactly if nobody takes the descriptor given up. -/
theorem reserved_throughout (hother : ∀ fd o, fds.owner fd = some o → o = .other)
    (hbounded : fds.Bounded) (hstart : construct fds callback = .ok a) :
    Throughout step Reserved a events ↔ Always step Spares a events := by
  apply throughout_iff_always (fun s hs => Guarded.reserved hs)
  · exact fun s event s' hs hspares hnext => hs.step hspares hnext
  · rintro s event s' hs hnext hreserved rfl hstage fd fds hopen
    simp only [Acceptor.step, hopen] at hnext
    cases hnext
    rcases hstage with hstage | hstage | hstage <;>
      rw [Reserved, hstage] at hreserved <;> exact hreserved
  · rintro s event fault hs hfault rfl
    simp only [Acceptor.step] at hfault
    split at hfault <;> cases hfault
  · exact Guarded.construct hother hbounded hstart

theorem smallTable_bounded : smallTable.Bounded := by
  intro fd hown
  have hfd : fd = 0 := by
    by_contra hne
    exact hown (if_neg hne)
  rw [hfd]
  decide

/-- A client is refused while nobody else opens a file. -/
def undisturbed : List Event :=
  [.openOther, .arrive, .handleRead none, .proceed none, .proceed none, .proceed none,
    .proceed none]

theorem reserved_throughout_undisturbed : ∃ a, construct smallTable true = .ok a ∧
    Throughout step Reserved a undisturbed := by
  have hstart : Outcome.Holds (construct smallTable true) (fun a => a.stage = .waiting)
      fun _ => False := by
    decide +kernel
  obtain ⟨a, hstart, hstage⟩ := hstart.returns
  refine ⟨a, hstart, ?_⟩
  apply (reserved_throughout smallTable_other smallTable_bounded hstart).mpr
  simp [undisturbed, Always, Spares, hstage]

/-! ### Refusing with a full table -/

/-- One turn of the loop in which nobody comes between the system calls. -/
def refusal : List Event :=
  [.handleRead none, .proceed none, .proceed none, .proceed none, .proceed none]

/-- What refusing clients leaves as it was. -/
structure Refused (a a' : Acceptor) (cs : List Nat) : Prop where
  stage : a'.stage = .waiting
  fds : a'.fds = a.fds
  idleFd : 0 ≤ a.idleFd → a'.idleFd = a.idleFd
  lost : a.idleFd < 0 → a'.idleFd < 0
  backlog : a.backlog = cs ++ a'.backlog
  refused : a'.refused = a.refused ++ cs
  handed : a'.handed = a.handed
  aborted : a'.aborted = a.aborted

theorem Refused.trans {b c : Acceptor} {cs cs' : List Nat} (h : Refused a b cs)
    (h' : Refused b c cs') : Refused a c (cs ++ cs') := by
  refine ⟨h'.stage, h'.fds.trans h.fds, ?_, ?_, ?_, ?_, h'.handed.trans h.handed,
    h'.aborted.trans h.aborted⟩
  · intro hidle
    have hmid := h.idleFd hidle
    rw [← hmid]
    exact h'.idleFd (by rw [hmid]; exact hidle)
  · exact fun hidle => h'.lost (h.lost hidle)
  · rw [h.backlog, h'.backlog, List.append_assoc]
  · rw [h'.refused, h.refused, List.append_assoc]

/-- The four system calls of a refusal. -/
def refuse (a : Acceptor) : Acceptor :=
  ((({ a with stage := .closeIdle }.proceed none).proceed none).proceed none).proceed none

theorem run_refusal (hstage : a.stage = .waiting) (hfull : a.fds.lowestFree = none) :
    Machine.run step a refusal = .ok a.refuse := by
  have hfirst : a.step (.handleRead none) = .ok { a with stage := .closeIdle } := by
    simp only [step, handleRead, hstage, hfull, if_true]
  rw [refusal, run, hfirst]
  rfl

/-- Without the reserve each of the calls fails. -/
theorem refused_lost (hfull : a.fds.lowestFree = none) (hidle : a.idleFd < 0) :
    Refused a a.refuse [] := by
  have hclose : a.fds.close a.idleFd = a.fds := Descriptors.close_of_neg hidle
  have hnone : a.fds.close (-1) = a.fds := Descriptors.close_of_neg (by omega)
  have hopen : a.fds.allocate .idle = none := Descriptors.allocate_eq_none_iff.mpr hfull
  constructor <;>
    simp [refuse, proceed, close, hclose, acceptAgain, hfull, hnone, openIdle, hopen,
      Int.not_le.mpr hidle]

/-- With the reserve the next client is refused, and the reserve is there again. -/
theorem refused_reserved (hfull : a.fds.lowestFree = none) {fd : Nat} (hfd : a.idleFd = fd)
    (hlt : fd < a.fds.limit) (hown : a.fds.owner fd = some .idle) :
    Refused a a.refuse (a.backlog.take 1) := by
  have hfree := Descriptors.lowestFree_give_none hfull hlt
  have hopen : (a.fds.give fd none).allocate .idle = some (fd, a.fds) := by
    simp only [Descriptors.allocate, hfree, Descriptors.give_give]
    rw [Descriptors.give_of_owner hown]
  cases hbacklog : a.backlog with
  | nil =>
      have hnone : (a.fds.give fd none).close (-1) = a.fds.give fd none :=
        Descriptors.close_of_neg (by omega)
      constructor <;>
        simp [refuse, proceed, close, hfd, Descriptors.close_natCast, acceptAgain, hbacklog, hfree,
          hnone, openIdle, hopen]
  | cons c backlog =>
      constructor <;>
        simp [refuse, proceed, close, hfd, Descriptors.close_natCast, acceptAgain, hbacklog, hfree,
          Descriptors.give_give, openIdle, hopen]

/-- That many turns in which nobody comes between the system calls. -/
def refusals (n : Nat) : List Event := (List.replicate n refusal).flatten

theorem run_refusals (hstage : a.stage = .waiting) (hfull : a.fds.lowestFree = none)
    (hidle : ∀ fd : Nat, a.idleFd = fd → fd < a.fds.limit ∧ a.fds.owner fd = some .idle) (n : Nat) :
    ∃ t, Machine.run step a (refusals n) = .ok t ∧
      Refused a t (if 0 ≤ a.idleFd then a.backlog.take n else []) := by
  induction n generalizing a with
  | zero => exact ⟨a, rfl, hstage, rfl, fun _ => rfl, id, by simp, by simp, rfl, rfl⟩
  | succ n ih =>
      have hrun : ∀ t, Machine.run step a.refuse (refusals n) = .ok t →
          Machine.run step a (refusals (n + 1)) = .ok t := by
        intro t ht
        rw [refusals, List.replicate_succ, List.flatten_cons, run_append, run_refusal hstage hfull]
        exact ht
      rcases Int.lt_or_le a.idleFd 0 with hneg | hpos
      · have hfirst := refused_lost hfull hneg
        have hlost := hfirst.lost hneg
        obtain ⟨t, ht, hrest⟩ := ih hfirst.stage (by rw [hfirst.fds]; exact hfull)
          (fun fd hfd => by omega)
        refine ⟨t, hrun t ht, ?_⟩
        rw [if_neg (by omega)] at hrest ⊢
        exact hfirst.trans hrest
      · obtain ⟨fd, hfd⟩ := Int.eq_ofNat_of_zero_le hpos
        obtain ⟨hlt, hown⟩ := hidle fd hfd
        have hfirst := refused_reserved hfull hfd hlt hown
        have hkept := hfirst.idleFd hpos
        obtain ⟨t, ht, hrest⟩ := ih hfirst.stage (by rw [hfirst.fds]; exact hfull)
          (by rw [hkept, hfirst.fds]; exact hidle)
        refine ⟨t, hrun t ht, ?_⟩
        rw [hkept, if_pos hpos] at hrest
        rw [if_pos hpos]
        have hall := hfirst.trans hrest
        have htake : a.backlog.take 1 ++ a.refuse.backlog.take n = a.backlog.take (n + 1) := by
          have hsplit := hfirst.backlog
          cases hbacklog : a.backlog with
          | nil =>
              rw [hbacklog] at hsplit
              rw [(List.append_eq_nil_iff.mp hsplit.symm).2]
              simp
          | cons c backlog =>
              rw [hbacklog] at hsplit
              have htail : backlog = a.refuse.backlog := (List.cons_eq_cons.mp hsplit).2
              rw [← htail]
              rfl
        rw [htake] at hall
        exact hall

/-- In a turn of the loop with a full table a client is refused, if there is a reserve. -/
theorem refusals_reachable (hother : ∀ fd o, fds.owner fd = some o → o = .other)
    (hbounded : fds.Bounded) (hstart : construct fds callback = .ok a)
    (hrun : Machine.run step a events = .ok a') (hstage : a'.stage = .waiting)
    (hfull : a'.fds.lowestFree = none) (n : Nat) :
    ∃ t, Machine.run step a' (refusals n) = .ok t ∧
      Refused a' t (if 0 ≤ a'.idleFd then a'.backlog.take n else []) := by
  have hacc : Accounted a' :=
    Machine.invariant (fun s event s' hs hnext => Accounted.step hs hnext) hrun
      (Accounted.construct hother hstart)
  have hstep : ∀ s event s', s.fds.Bounded → step s event = .ok s' → s'.fds.Bounded :=
    fun s event s' hs hnext => bounded_step hs hnext
  have hin := Machine.invariant hstep hrun (Guarded.construct hother hbounded hstart).bounded
  apply run_refusals hstage hfull
  intro fd hfd
  have hidle : a'.Holds fd .idle := by
    right
    rw [hstage]
    exact ⟨hfd, rfl⟩
  have hown := (hacc.owner fd .idle trivial).mpr hidle
  exact ⟨hin fd (by rw [hown]; simp), hown⟩

def threeClients : List Event := [.arrive, .arrive, .arrive]

theorem refusals_reachable_threeClients : ∃ a a' t, construct smallTable true = .ok a ∧
    Machine.run step a threeClients = .ok a' ∧ Machine.run step a' (refusals 2) = .ok t ∧
      t.refused = [0, 1] ∧ t.fds = a'.fds := by
  have hboth : Outcome.Holds (construct smallTable true) (fun a =>
      Outcome.Holds (Machine.run step a threeClients) (fun a' => a'.backlog = [0, 1, 2] ∧
        a'.refused = [] ∧ 0 ≤ a'.idleFd ∧ a'.stage = .waiting ∧ a'.fds.lowestFree = none)
        fun _ => False) fun _ => False := by
    decide +kernel
  obtain ⟨a, hstart, hevents⟩ := hboth.returns
  obtain ⟨a', hrun, hbacklog, hrefused, hidle, hstage, hfull⟩ := hevents.returns
  obtain ⟨t, hturns, h⟩ := refusals_reachable smallTable_other smallTable_bounded hstart hrun
    hstage hfull 2
  refine ⟨a, a', t, hstart, hrun, hturns, ?_, h.fds⟩
  rw [h.refused, hrefused, if_pos hidle, hbacklog]
  rfl

end Acceptor

end ToyBasket
