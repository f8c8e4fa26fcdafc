import ToyBasket.Lib.Words
import ToyBasket.Lib.Heap

/-!
# The timer manager

`base/Timer.h` and `base/Timer.cpp`. The vector `timer_` is a list and its heap functions are those
of the standard library, with `std::greater`, so the timer with the earliest deadline is the root.

The 64-bit `timeline_` counts milliseconds from the start of the process and is not wrapped here;
`Timer.Milliseconds` says for how long this makes no difference. Ids are 64 bits wide and go through
`int` when a timer is queued again, so they are wrapped. Both branches of `addTimer` and of
`deleteTimer` do the same, one of them under the lock, and a call is one step.
-/

namespace ToyBasket

open Words StdHeap

/-- The action is any type: what an action does is part of the environment of a pass. -/
structure Timer (α : Type) where
  id : Nat
  interval : Nat
  deadline : Nat
  action : α
  isRepeat : Bool
deriving DecidableEq, Repr

namespace Timer

variable {α : Type}

/-- The constructor, which leaves `m_id` to its caller. -/
def new (id interval timeline : Nat) (action : α) (isRepeat isNoDelay : Bool) : Timer α where
  id := id
  interval := interval
  deadline := if isNoDelay then timeline else interval + timeline
  action := action
  isRepeat := isRepeat

def gt (t u : Timer α) : Bool := u.deadline < t.deadline

/-- `operator==`. -/
def eq (t u : Timer α) : Bool := t.id == u.id

theorem gt_eq_false {t u : Timer α} : t.gt u = false ↔ t.deadline ≤ u.deadline := by
  simp [gt]

theorem strictWeakOrder_gt : StrictWeakOrder (gt (α := α)) where
  asymm h := by
    simp only [gt, decide_eq_true_eq, decide_eq_false_iff_not] at h ⊢
    omega
  trans h h' := by
    rw [gt_eq_false] at h h' ⊢
    omega

end Timer

structure TimerArgs (α : Type) where
  interval : Nat
  action : α
  isRepeat : Bool := false
  isNoDelay : Bool := false
  id : Int := -1
deriving DecidableEq, Repr

structure TimerManager (α : Type) where
  timeline : Nat
  autoIncrementId : Nat
  timer : List (Timer α)
deriving DecidableEq, Repr

/-- The calls on the manager an action can make. `workStop` is not among them, as it only stores
into `isStart_`. -/
inductive TimerCall (α : Type) where
  | addTimer (args : TimerArgs α)
  | deleteTimer (timerId : Nat)
deriving DecidableEq, Repr

namespace TimerManager

variable {α : Type}

def new : TimerManager α where
  timeline := 0
  autoIncrementId := 1
  timer := []

def event (m : TimerManager α) (args : TimerArgs α) : Timer α :=
  .new (if args.id ≠ -1 then toSize args.id else m.autoIncrementId) args.interval m.timeline
    args.action args.isRepeat args.isNoDelay

def addTimer (m : TimerManager α) (args : TimerArgs α) : Nat × TimerManager α :=
  let event := m.event args
  (event.id,
    { m with
      autoIncrementId := if args.id ≠ -1 then m.autoIncrementId else sizeAdd m.autoIncrementId 1
      timer := pushHeap Timer.gt (m.timer ++ [event]) })

/-- The variable `timerId` refers to is zeroed, unless it was zero. -/
def deleteTimer (m : TimerManager α) (timerId : Nat) : Nat × TimerManager α :=
  if timerId < 1 then (timerId, m)
  else (0, { m with timer := makeHeap Timer.gt (m.timer.eraseP fun t => t.id == timerId) })

/-- The calls of an action in order, and the timers `addTimer` built for them. -/
def perform (m : TimerManager α) : List (TimerCall α) → TimerManager α × List (Timer α)
  | [] => (m, [])
  | .addTimer args :: calls =>
      let (m', added) := perform (m.addTimer args).2 calls
      (m', m.event args :: added)
  | .deleteTimer timerId :: calls => perform (m.deleteTimer timerId).2 calls

/-- How `loopForExecute` queues a repeating timer again. -/
def requeueArgs (t : Timer α) : TimerArgs α where
  interval := t.interval
  action := t.action
  isRepeat := t.isRepeat
  isNoDelay := false
  id := toInt32 t.id

/-! ### loopForExecute -/

/-- What a pass meets: the values its successive `isStart_.load()` read, and the calls the action
run as number `i`, of the timer given, makes. -/
structure Env (α : Type) where
  isStart : Nat → Bool
  calls : Nat → Timer α → List (TimerCall α)

/-- The state at the head of the `while` loop; `ran` and `added` record the timers whose actions
have run and those the actions have added. -/
structure Pass (α : Type) where
  mgr : TimerManager α
  top : Timer α
  ran : List (Timer α) := []
  added : List (Timer α) := []

inductive Next where
  | again
  | leave
deriving DecidableEq, Repr

def whileBody (env : Env α) (p : Pass α) : Pass α × Next :=
  let (mgr, added) := p.mgr.perform (env.calls p.ran.length p.top)
  let p := { p with mgr := mgr, ran := p.ran ++ [p.top], added := p.added ++ added }
  match mgr.timer.find? (Timer.eq · p.top) with
  | none => (p, .leave)
  | some _ =>
      if mgr.timer.isEmpty then (p, .leave)
      else
        let mgr := { mgr with timer := mgr.timer.dropLast }
        let mgr := if p.top.isRepeat then (mgr.addTimer (requeueArgs p.top)).2 else mgr
        let p := { p with mgr := mgr }
        if mgr.timer.isEmpty then (p, .leave)
        else
          let timer := popHeap Timer.gt mgr.timer
          match timer.getLast? with
          | none => (p, .leave)
          | some top => ({ p with mgr := { mgr with timer := timer }, top := top }, .again)

/-- The `while` loop, for at most `fuel` actions: the state it has come to, and whether it has been
left. -/
def whileLoop (env : Env α) : (fuel : Nat) → Pass α → Pass α × Bool
  | 0, p => (p, false)
  | fuel + 1, p =>
      if env.isStart p.ran.length ∧ p.top.deadline ≤ p.mgr.timeline then
        match whileBody env p with
        | (p, .again) => whileLoop env fuel p
        | (p, .leave) => (p, true)
      else (p, true)

structure PassResult (α : Type) where
  mgr : TimerManager α
  ran : List (Timer α)
  added : List (Timer α)
  finished : Bool

def finish (p : Pass α) (finished : Bool) : PassResult α where
  mgr := { p.mgr with timer := makeHeap Timer.gt p.mgr.timer }
  ran := p.ran
  added := p.added
  finished := finished

/-- The part of `loopForExecute` that holds the lock. -/
def executeLocked (env : Env α) (fuel : Nat) (m : TimerManager α) : PassResult α :=
  match (popHeap Timer.gt m.timer).getLast? with
  | none => ⟨m, [], [], true⟩
  | some top =>
      let (p, finished) :=
        whileLoop env fuel { mgr := { m with timer := popHeap Timer.gt m.timer }, top := top }
      finish p finished

/-- `timeline_++`, after the sleep. -/
def advance (m : TimerManager α) : TimerManager α :=
  { m with timeline := m.timeline + 1 }

def loopForExecute (env : Env α) (fuel : Nat) (m : TimerManager α) : PassResult α :=
  let r := executeLocked env fuel m
  { r with mgr := r.mgr.advance }

end TimerManager

end ToyBasket
