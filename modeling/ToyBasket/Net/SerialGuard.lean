import ToyBasket.Lib.Machine
import ToyBasket.Net.Serial

/-!
# The guard of a serial line's destructor

`~Serial` waits until `writing_` is false. A `send` sets it before it tests `fd_`, and the functor
of the message clears it when it ends, whatever else is queued by then. The functors are those of
messages: the ones that call `writeCompleteCallback_` and `highWaterMarkCallback_` are bound to the
line too, but `writing_` says nothing about them.
-/

namespace ToyBasket

open Machine Outcome Words

/-- How far a thread is in `send`: it has set `writing_`, or has passed the test too. -/
inductive SendPlace where
  | outside
  | set
  | passed
deriving DecidableEq, Repr

/-- The functors are the threads that queued them, and `running` that of the `sendInLoop` the loop
is in. The loop is thread 0. -/
structure SerialGuard where
  writing : Bool
  place : Nat → SendPlace
  loop : EventLoop Nat
  running : Option Nat

namespace SerialGuard

/-- `test` finds `fd` in `fd_`. -/
inductive Event where
  | exchange (thread : Nat)
  | test (thread : Nat) (fd : Int)
  | queueInLoop (thread : Nat)
  | doPendingFunctors
  | functor
  | finish
deriving DecidableEq, Repr

def init : SerialGuard where
  writing := false
  place := fun _ => .outside
  loop := EventLoop.init
  running := none

/-- The loop is between its functors. -/
def Idle (s : SerialGuard) : Prop := s.running = none ∧ s.place 0 = .outside

instance (s : SerialGuard) : Decidable s.Idle := inferInstanceAs (Decidable (_ ∧ _))

def moveTo (s : SerialGuard) (thread : Nat) (place : SendPlace) : SerialGuard :=
  { s with place := Function.update s.place thread place }

@[simp]
theorem place_moveTo_self (s : SerialGuard) (thread : Nat) (place : SendPlace) :
    (s.moveTo thread place).place thread = place := by
  simp [moveTo]

theorem place_moveTo_of_ne (s : SerialGuard) {thread other : Nat} (h : other ≠ thread)
    (place : SendPlace) : (s.moveTo thread place).place other = s.place other := by
  simp [moveTo, h]

def exchange (s : SerialGuard) (thread : Nat) : SerialGuard :=
  if s.place thread = .outside ∧ (thread = 0 → s.running = none) then
    { s.moveTo thread .set with writing := true }
  else s

def test (s : SerialGuard) (thread : Nat) (fd : Int) : SerialGuard :=
  if s.place thread = .set then
    if fd < 0 then s.moveTo thread .outside
    else if thread = 0 then { s.moveTo thread .outside with running := some thread }
    else s.moveTo thread .passed
  else s

def queueInLoop (s : SerialGuard) (thread : Nat) : SerialGuard :=
  if s.place thread = .passed then
    { s.moveTo thread .outside with loop := s.loop.queueInLoop thread }
  else s

def doPendingFunctors (s : SerialGuard) : SerialGuard :=
  if s.Idle then { s with loop := s.loop.swapFunctors } else s

def functor (s : SerialGuard) : SerialGuard :=
  if s.Idle then
    match s.loop.functors with
    | [] => s
    | thread :: functors =>
        { s with loop := { s.loop with functors := functors }, running := some thread }
  else s

def finish (s : SerialGuard) : SerialGuard :=
  if s.running = none then s else { s with writing := false, running := none }

def next (s : SerialGuard) : Event → SerialGuard
  | .exchange thread => s.exchange thread
  | .test thread fd => s.test thread fd
  | .queueInLoop thread => s.queueInLoop thread
  | .doPendingFunctors => s.doPendingFunctors
  | .functor => s.functor
  | .finish => s.finish

def step (s : SerialGuard) (event : Event) : Except Unit SerialGuard := .ok (s.next event)

/-! ### What the guard stands for -/

/-- A functor is queued or running. -/
def Bound (s : SerialGuard) : Prop := s.loop.inOrder ≠ [] ∨ s.running ≠ none

/-- A call that has set `writing_` is still to finish. -/
def Unfinished (s : SerialGuard) : Prop := (∃ thread, s.place thread ≠ .outside) ∨ s.Bound

def Event.OfLoop : Event → Prop
  | .doPendingFunctors | .functor | .finish => True
  | _ => False

/-- The destructor passes with no functor bound, and with no thread in `send` the loop lets it
pass. -/
structure Exact (s : SerialGuard) : Prop where
  writing_iff : s.writing = true ↔ s.Unfinished
  passes : s.writing = false → ¬ s.Bound
  waits : (∀ thread, s.place thread = .outside) →
    ∃ events : List Event, (∀ event ∈ events, event.OfLoop) ∧
      (events.foldl next s).writing = false

/-- A call that is refused leaves another unfinished, and a functor ends as the last. -/
def KeepsExact (s : SerialGuard) : Event → Prop
  | .test thread fd => s.place thread = .set → fd < 0 →
      (∃ other, other ≠ thread ∧ s.place other ≠ .outside) ∨ s.Bound
  | .finish => s.running ≠ none → (∀ thread, s.place thread = .outside) ∧ s.loop.inOrder = []
  | _ => True

section Step

variable {s : SerialGuard} {event : Event} {thread : Nat} {fd : Int}

theorem inOrder_doPendingFunctors : s.doPendingFunctors.loop.inOrder = s.loop.inOrder := by
  unfold doPendingFunctors
  split
  · exact EventLoop.inOrder_swapFunctors s.loop
  · rfl

/-- One functor at a time, the loop comes to the end of one and clears the flag. -/
theorem exists_clear (hplace : s.place 0 = .outside) (hbound : s.Bound) :
    ∃ events : List Event, (∀ event ∈ events, event.OfLoop) ∧
      (events.foldl next s).writing = false := by
  have hclear : ∀ u : SerialGuard, u.running ≠ none → u.finish.writing = false := by
    intro u hu
    rw [finish, if_neg hu]
  have hrun : ∀ u : SerialGuard, u.Idle → u.loop.functors ≠ [] →
      u.functor.finish.writing = false := by
    intro u hidle hne
    apply hclear
    rw [functor, if_pos hidle]
    cases hl : u.loop.functors with
    | nil => exact absurd hl hne
    | cons thread functors => exact Option.some_ne_none thread
  by_cases hrunning : s.running = none
  · have hidle : s.Idle := ⟨hrunning, hplace⟩
    have hqueued : s.loop.inOrder ≠ [] := by
      obtain hqueued | hrunning' := hbound
      · exact hqueued
      · exact absurd hrunning hrunning'
    by_cases hbatch : s.loop.functors = []
    · refine ⟨[.doPendingFunctors, .functor, .finish], by simp [Event.OfLoop], ?_⟩
      apply hrun s.doPendingFunctors
      · rw [doPendingFunctors, if_pos hidle]
        exact hidle
      · rw [doPendingFunctors, if_pos hidle]
        simpa [EventLoop.swapFunctors, EventLoop.inOrder, hbatch] using hqueued
    · exact ⟨[.functor, .finish], by simp [Event.OfLoop], hrun s hidle hbatch⟩
  · exact ⟨[.finish], by simp [Event.OfLoop], hclear s hrunning⟩

theorem exact_iff : Exact s ↔ (s.writing = true ↔ s.Unfinished) := by
  constructor
  · exact Exact.writing_iff
  · intro h
    refine ⟨h, ?_, ?_⟩
    · intro hwriting hbound
      have hset := h.mpr (.inr hbound)
      rw [hwriting] at hset
      cases hset
    · intro houtside
      cases hwriting : s.writing with
      | false => exact ⟨[], by simp, hwriting⟩
      | true =>
          obtain ⟨thread, hthread⟩ | hbound := h.mp hwriting
          · exact absurd (houtside thread) hthread
          · exact exists_clear (houtside 0) hbound

theorem moveTo_eq_self {place : SendPlace} (h : s.place thread = place) :
    s.moveTo thread place = s := by
  rw [moveTo, ← h, Function.update_eq_self]

/-- A call up to the test. -/
theorem test_exchange (hplace : s.place thread = .outside) (hrunning : s.running = none) :
    (s.exchange thread).test thread fd =
      if fd < 0 then { s with writing := true }
      else if thread = 0 then { s with writing := true, running := some thread }
      else { s.moveTo thread .passed with writing := true } := by
  have hset : s.exchange thread = { s.moveTo thread .set with writing := true } := by
    rw [exchange, if_pos ⟨hplace, fun _ => hrunning⟩]
  have hmove : ∀ place, moveTo { s.moveTo thread .set with writing := true } thread place
      = { s.moveTo thread place with writing := true } := by
    intro place
    simp [moveTo]
  rw [hset, test, if_pos (place_moveTo_self s thread .set), hmove, hmove, moveTo_eq_self hplace]

theorem exists_place_moveTo {place : SendPlace} :
    (∃ other, (s.moveTo thread place).place other ≠ .outside) ↔
      place ≠ .outside ∨ ∃ other, other ≠ thread ∧ s.place other ≠ .outside := by
  constructor
  · rintro ⟨other, hother⟩
    by_cases hsame : other = thread
    · rw [hsame, place_moveTo_self] at hother
      exact .inl hother
    · rw [place_moveTo_of_ne s hsame] at hother
      exact .inr ⟨other, hsame, hother⟩
  · rintro (hplace | ⟨other, hne, hother⟩)
    · exact ⟨thread, by rwa [place_moveTo_self]⟩
    · exact ⟨other, by rwa [place_moveTo_of_ne s hne]⟩

theorem Exact.writing (h : Exact s) (hplace : s.place thread ≠ .outside) : s.writing = true :=
  h.writing_iff.mpr (.inl ⟨thread, hplace⟩)

theorem exact_exchange (h : Exact s) : Exact (s.exchange thread) := by
  unfold exchange
  split
  · rw [exact_iff]
    have hset : Unfinished { s.moveTo thread .set with writing := true } :=
      .inl (exists_place_moveTo.mpr (.inl (by decide)))
    exact ⟨fun _ => hset, fun _ => rfl⟩
  · exact h

theorem exact_test_iff (h : Exact s) :
    Exact (s.test thread fd) ↔ s.KeepsExact (.test thread fd) := by
  unfold test KeepsExact
  by_cases hset : s.place thread = .set
  · have hplace : s.place thread ≠ .outside := by
      rw [hset]
      decide
    have hwriting : s.writing = true := h.writing hplace
    rw [if_pos hset, exact_iff]
    by_cases hfd : fd < 0
    · have hrefused : (s.moveTo thread .outside).Unfinished ↔
          (∃ other, other ≠ thread ∧ s.place other ≠ .outside) ∨ s.Bound := by
        rw [Unfinished, exists_place_moveTo]
        simp [Bound, moveTo]
      rw [if_pos hfd, hrefused]
      simp [moveTo, hset, hfd, hwriting]
    · rw [if_neg hfd]
      have hkept : ∀ u : SerialGuard, u.writing = true → u.Unfinished →
          ((u.writing = true ↔ u.Unfinished) ↔ (s.place thread = .set → fd < 0 →
            (∃ other, other ≠ thread ∧ s.place other ≠ .outside) ∨ s.Bound)) := by
        intro u hu hunfinished
        simp [hu, hunfinished, hfd]
      split
      · exact hkept _ hwriting (.inr (.inr (Option.some_ne_none thread)))
      · exact hkept _ hwriting (.inl (exists_place_moveTo.mpr (.inl (by decide))))
  · rw [if_neg hset]
    exact ⟨fun _ hset' => absurd hset' hset, fun _ => h⟩

theorem exact_queueInLoop (h : Exact s) : Exact (s.queueInLoop thread) := by
  unfold queueInLoop
  split
  · rename_i hpassed
    have hplace : s.place thread ≠ .outside := by
      rw [hpassed]
      decide
    have hwriting : s.writing = true := h.writing hplace
    rw [exact_iff]
    refine ⟨fun _ => .inr (.inl ?_), fun _ => hwriting⟩
    rw [EventLoop.inOrder_queueInLoop]
    exact List.append_ne_nil_of_right_ne_nil _ (List.cons_ne_nil thread [])
  · exact h

theorem exact_doPendingFunctors (h : Exact s) : Exact s.doPendingFunctors := by
  have hsame : s.doPendingFunctors.Unfinished ↔ s.Unfinished := by
    have hinOrder := inOrder_doPendingFunctors (s := s)
    unfold Unfinished Bound
    rw [hinOrder]
    unfold doPendingFunctors
    split
    · exact Iff.rfl
    · exact Iff.rfl
  have hwriting : s.doPendingFunctors.writing = s.writing := by
    unfold doPendingFunctors
    split
    · rfl
    · rfl
  rw [exact_iff, hsame, hwriting]
  exact h.writing_iff

theorem exact_functor (h : Exact s) : Exact s.functor := by
  unfold functor
  split
  · split
    · exact h
    · rename_i thread functors hfunctors
      have hqueued : s.loop.inOrder ≠ [] := by simp [EventLoop.inOrder, hfunctors]
      rw [exact_iff]
      refine ⟨fun _ => .inr (.inr (Option.some_ne_none thread)), fun _ => ?_⟩
      exact h.writing_iff.mpr (.inr (.inl hqueued))
  · exact h

theorem exact_finish_iff (h : Exact s) : Exact s.finish ↔ s.KeepsExact .finish := by
  unfold finish KeepsExact
  by_cases hrunning : s.running = none
  · rw [if_pos hrunning]
    exact ⟨fun _ hne => absurd hrunning hne, fun _ => h⟩
  · rw [if_neg hrunning, exact_iff]
    simp [Unfinished, Bound, hrunning]

theorem exact_next_iff (h : Exact s) : Exact (s.next event) ↔ s.KeepsExact event := by
  cases event with
  | exchange thread => exact iff_of_true (exact_exchange h) trivial
  | test thread fd => exact exact_test_iff h
  | queueInLoop thread => exact iff_of_true (exact_queueInLoop h) trivial
  | doPendingFunctors => exact iff_of_true (exact_doPendingFunctors h) trivial
  | functor => exact iff_of_true (exact_functor h) trivial
  | finish => exact exact_finish_iff h

theorem exact_init : Exact init := by
  rw [exact_iff]
  simp [init, Unfinished, Bound]

/-- The guard is exact in every state of a run if and only if every event keeps it so. -/
theorem exact_throughout_iff (events : List Event) :
    Throughout step Exact init events ↔ Always step KeepsExact init events := by
  have hprop : ∀ s, Exact s → Exact s := fun _ h => h
  apply throughout_iff_always hprop
  · rintro s event s' h hgood ⟨⟩
    exact (exact_next_iff h).mpr hgood
  · rintro s event s' h ⟨⟩ hexact
    exact (exact_next_iff h).mp hexact
  · rintro s event fault - ⟨⟩
  · exact exact_init

/-- A call on a line that is not open leaves the flag set, and no functor will clear it. -/
theorem refused_notExact : ¬ ∀ events : List Event, Throughout step Exact init events := by
  intro hclaim
  have hlast := (hclaim [.exchange 1, .test 1 (-1)]).last rfl
  obtain ⟨thread, hthread⟩ | hqueued | hrunning := hlast.writing_iff.mp rfl
  · apply hthread
    simp [next, exchange, test, moveTo, init]
  · exact hqueued rfl
  · exact hrunning rfl

end Step

/-! ### The line as it sends -/

section Simulation

variable {serial serial' : Serial} {event : Serial.Event}

def loopOf (loop : EventLoop SerialFunctor) : EventLoop Nat where
  pendingFunctors := loop.pendingFunctors.filterMap fun f => f.message.map Prod.fst
  functors := loop.functors.filterMap fun f => f.message.map Prod.fst

def placeOf : Option Bytes → SendPlace
  | none => .outside
  | some _ => .passed

theorem placeOf_update (sending : Nat → Option Bytes) (thread : Nat) (message : Option Bytes) :
    (fun other => placeOf (Function.update sending thread message other))
      = Function.update (fun other => placeOf (sending other)) thread (placeOf message) := by
  funext other
  by_cases hsame : other = thread
  · rw [hsame, Function.update_self, Function.update_self]
  · rw [Function.update_of_ne hsame, Function.update_of_ne hsame]

def ofSerial (serial : Serial) : SerialGuard where
  writing := serial.writing
  place := fun thread => placeOf (serial.sending thread)
  loop := loopOf serial.loop
  running := none

/-- What a step of the line is to its guard. -/
def eventsOf (serial : Serial) : Serial.Event → List Event
  | .send thread _ _ =>
      if serial.sending thread = none then
        if serial.isOpen then
          if thread = 0 then [.exchange thread, .test thread 0, .finish]
          else [.exchange thread, .test thread 0]
        else [.exchange thread, .test thread (-1)]
      else []
  | .advance thread => [.queueInLoop thread]
  | .doPendingFunctors => if serial.loop.functors = [] then [.doPendingFunctors] else []
  | .functor _ =>
      match serial.loop.functors with
      | .sendInLoop _ _ :: _ => [.functor, .finish]
      | _ => []
  | .handleWrite _ => []

theorem ofSerial_queueCallbacks (serial : Serial) (cbs : List Callback) :
    ofSerial (serial.queueCallbacks cbs) = ofSerial serial := by
  have hloop : ∀ loop : EventLoop SerialFunctor,
      loopOf (loop.queueAll (cbs.map .callback)) = loopOf loop := by
    induction cbs with
    | nil => exact fun _ => rfl
    | cons cb cbs ih =>
        intro loop
        have hqueue : loop.queueAll ((cb :: cbs).map .callback)
            = (loop.queueInLoop (.callback cb)).queueAll (cbs.map .callback) := rfl
        rw [hqueue, ih]
        simp [loopOf, EventLoop.queueInLoop, SerialFunctor.message]
  simp only [ofSerial, Serial.queueCallbacks, hloop]

/-- A message that is handled clears the flag, and that is all the guard sees. -/
theorem ofSerial_sendInLoop {thread : Nat} {message : Bytes} {result : WriteResult}
    (h : serial.sendInLoop thread message result = .ok serial') :
    ofSerial serial' = { ofSerial serial with writing := false } := by
  unfold Serial.sendInLoop at h
  obtain ⟨⟨output, cbs⟩, -, hnext⟩ := bind_eq_ok.mp h
  cases hnext
  rw [ofSerial_queueCallbacks]
  rfl

theorem doPendingFunctors_ofSerial (hidle : serial.sending 0 = none)
    (hbatch : serial.loop.functors = []) : (ofSerial serial).doPendingFunctors
      = ofSerial { serial with loop := serial.loop.swapFunctors } := by
  have hguard : (ofSerial serial).Idle := ⟨rfl, congrArg placeOf hidle⟩
  rw [doPendingFunctors, if_pos hguard]
  simp [ofSerial, loopOf, EventLoop.swapFunctors, hbatch]

theorem functor_ofSerial {thread : Nat} {message : Bytes} {functors : List SerialFunctor}
    (hidle : serial.sending 0 = none)
    (hbatch : serial.loop.functors = .sendInLoop thread message :: functors) :
    (ofSerial serial).functor.finish
      = { ofSerial { serial with loop := { serial.loop with functors := functors } } with
          writing := false } := by
  have hguard : (ofSerial serial).Idle := ⟨rfl, congrArg placeOf hidle⟩
  have hfunctors : (ofSerial serial).loop.functors
      = thread :: functors.filterMap fun f => f.message.map Prod.fst := by
    simp [ofSerial, loopOf, hbatch, SerialFunctor.message]
  rw [functor, if_pos hguard, hfunctors]
  rfl

theorem send_ofSerial {thread : Nat} {message : Bytes} {result : WriteResult}
    (hidle : serial.sending thread = none) (h : serial.send thread message result = .ok serial') :
    (eventsOf serial (.send thread message result)).foldl next (ofSerial serial)
      = ofSerial serial' := by
  have hplace : (ofSerial serial).place thread = .outside := congrArg placeOf hidle
  have htest : ∀ fd : Int, ((ofSerial serial).exchange thread).test thread fd =
      if fd < 0 then { ofSerial serial with writing := true }
      else if thread = 0 then { ofSerial serial with writing := true, running := some thread }
      else { (ofSerial serial).moveTo thread .passed with writing := true } :=
    fun _ => test_exchange hplace rfl
  simp only [eventsOf, if_pos hidle]
  unfold Serial.send at h
  dsimp only at h
  by_cases hopen : serial.isOpen
  · rw [if_pos hopen]
    rw [if_pos hopen] at h
    by_cases hthread : thread = 0
    · rw [if_pos hthread]
      rw [if_pos hthread] at h
      simp only [List.foldl_cons, List.foldl_nil, next, htest, if_pos hthread]
      rw [ofSerial_sendInLoop h]
      rfl
    · rw [if_neg hthread]
      rw [if_neg hthread] at h
      cases h
      simp only [List.foldl_cons, List.foldl_nil, next, htest, if_neg hthread]
      simp only [ofSerial, moveTo, placeOf_update]
      rfl
  · rw [if_neg hopen]
    rw [if_neg hopen] at h
    cases h
    simp only [List.foldl_cons, List.foldl_nil, next, htest]
    rfl

theorem advance_ofSerial (serial : Serial) (thread : Nat) :
    (ofSerial serial).queueInLoop thread = ofSerial (serial.advance thread) := by
  unfold queueInLoop Serial.advance
  cases hsending : serial.sending thread with
  | none =>
      have hplace : (ofSerial serial).place thread = .outside := congrArg placeOf hsending
      rw [if_neg (by rw [hplace]; decide)]
  | some message =>
      have hplace : (ofSerial serial).place thread = .passed := congrArg placeOf hsending
      rw [if_pos hplace]
      simp only [ofSerial, moveTo, placeOf_update]
      simp [placeOf, loopOf, EventLoop.queueInLoop, SerialFunctor.message]

/-- The loop does not stay in `send`. -/
theorem idle_step (hidle : serial.sending 0 = none) (h : serial.step event = .ok serial') :
    serial'.sending 0 = none := by
  have hsent : ∀ {u u' : Serial} {thread message result},
      u.sendInLoop thread message result = .ok u' → u'.sending = u.sending := by
    intro u u' thread message result hu
    obtain ⟨⟨output, cbs⟩, -, hnext⟩ := bind_eq_ok.mp hu
    cases hnext
    rfl
  cases event with
  | send thread message result =>
      unfold Serial.step Serial.send at h
      dsimp only at h
      split at h
      · split at h
        · split at h
          · rw [hsent h]
            exact hidle
          · rename_i hthread
            cases h
            exact (Function.update_of_ne (Ne.symm hthread) _ _).trans hidle
        · cases h
          exact hidle
      · cases h
        exact hidle
  | advance thread =>
      cases h
      unfold Serial.advance
      split
      · exact hidle
      · by_cases hthread : 0 = thread
        · rw [← hthread]
          simp
        · exact (Function.update_of_ne hthread _ _).trans hidle
  | doPendingFunctors =>
      cases h
      exact hidle
  | functor result =>
      unfold Serial.step Serial.functor at h
      dsimp only at h
      split at h
      · cases h
        exact hidle
      · split at h
        · rw [hsent h]
          exact hidle
        · cases h
          exact hidle
  | handleWrite result =>
      unfold Serial.step at h
      dsimp only at h
      split at h
      · obtain ⟨⟨output, report, cbs⟩, -, hnext⟩ := bind_eq_ok.mp h
        cases hnext
        exact hidle
      · cases h
        exact hidle

/-- A step of the line is some steps of its guard. -/
theorem step_ofSerial (hidle : serial.sending 0 = none)
    (h : serial.step event = .ok serial') :
    (eventsOf serial event).foldl next (ofSerial serial) = ofSerial serial' := by
  cases event with
  | send thread message result =>
      unfold Serial.step at h
      dsimp only at h
      split at h
      · rename_i hthread
        exact send_ofSerial hthread h
      · rename_i hthread
        cases h
        simp [eventsOf, hthread]
  | advance thread =>
      cases h
      exact advance_ofSerial serial thread
  | doPendingFunctors =>
      cases h
      unfold eventsOf
      dsimp only
      split
      · rename_i hbatch
        exact doPendingFunctors_ofSerial hidle hbatch
      · rename_i hbatch
        simp [EventLoop.swapFunctors, hbatch]
  | functor result =>
      unfold Serial.step Serial.functor at h
      unfold eventsOf
      cases hbatch : serial.loop.functors with
      | nil =>
          rw [hbatch] at h
          cases h
          rfl
      | cons f functors =>
          rw [hbatch] at h
          cases f with
          | sendInLoop thread message =>
              have hsent := functor_ofSerial hidle hbatch
              rw [ofSerial_sendInLoop h]
              exact hsent
          | callback cb =>
              cases h
              simp [ofSerial, loopOf, hbatch, SerialFunctor.message]
  | handleWrite result =>
      unfold Serial.step at h
      dsimp only at h
      split at h
      · obtain ⟨⟨output, report, cbs⟩, -, hnext⟩ := bind_eq_ok.mp h
        cases hnext
        rw [ofSerial_queueCallbacks]
        rfl
      · cases h
        rfl

/-- Every run of the line is one of its guard. -/
theorem run_ofSerial {events : List Serial.Event} (hidle : serial.sending 0 = none)
    (h : run Serial.step serial events = .ok serial') :
    ∃ events' : List Event, events'.foldl next (ofSerial serial) = ofSerial serial' := by
  induction events generalizing serial with
  | nil =>
      cases h
      exact ⟨[], rfl⟩
  | cons event events ih =>
      obtain ⟨middle, hnext, hrest⟩ := run_cons_eq_ok.mp h
      obtain ⟨events', hevents'⟩ := ih (idle_step hidle hnext) hrest
      refine ⟨eventsOf serial event ++ events', ?_⟩
      rw [List.foldl_append, step_ofSerial hidle hnext, hevents']

theorem init_ofSerial (isOpen : Bool) (highWaterMark : Nat)
    (writeCompleteCallback highWaterMarkCallback : Bool) :
    ofSerial (Serial.init isOpen highWaterMark writeCompleteCallback highWaterMarkCallback)
      = init := rfl

end Simulation

end SerialGuard

end ToyBasket
