import ToyBasket.Lib.Machine

/-!
# The descriptor of a serial line

`openPort`, `setPortParam`, `start` and the destructor of `Serial.cpp`. Only what is in `fd_` is
ever closed; a `setPortParam` that fails closes it and leaves it there.
-/

namespace ToyBasket

open Machine

/-- What `open` has returned, and how often it has been closed since. -/
structure Descriptor where
  fd : Nat
  closes : Nat
deriving DecidableEq, Repr

/-- `close` of a number: that of the latest descriptor with it, or of none. -/
def closeFd (fd : Int) : List Descriptor → List Descriptor
  | [] => []
  | d :: rest =>
      if (d.fd : Int) = fd then { d with closes := d.closes + 1 } :: rest else d :: closeFd fd rest

/-- `descriptors` records those that `open` has returned, the latest first, and `registered` those
that channels were made for, as they were then. -/
structure SerialPort where
  fd : Int
  channel : Option Int
  descriptors : List Descriptor
  registered : List Descriptor
deriving DecidableEq, Repr

namespace SerialPort

/-- What `open` returns, or whether `tcgetattr` and `tcsetattr` succeed. -/
inductive Event where
  | openPort (result : Option Nat)
  | setPortParam (getattr setattr : Bool)
  | start
deriving DecidableEq, Repr

def init : SerialPort where
  fd := -1
  channel := none
  descriptors := []
  registered := []

/-- The descriptor in `fd_`. -/
def current (s : SerialPort) : Option Descriptor :=
  s.descriptors.find? fun d => (d.fd : Int) = s.fd

def close (s : SerialPort) : SerialPort := { s with descriptors := closeFd s.fd s.descriptors }

def openPort (s : SerialPort) : Option Nat → Int × SerialPort
  | none => (-1, { s with fd := -1 })
  | some fd => (fd, { s with fd := fd, descriptors := ⟨fd, 0⟩ :: s.descriptors })

def setPortParam (s : SerialPort) (getattr setattr : Bool) : Int × SerialPort :=
  if getattr = false then (-1, s.close)
  else if setattr = false then (-1, s.close)
  else (0, s)

def start (s : SerialPort) : SerialPort :=
  if s.fd < 0 then s
  else if s.channel = none then
    { s with channel := some s.fd, registered := s.registered ++ s.current.toList }
  else s

def destroy (s : SerialPort) : SerialPort :=
  let s := { s with channel := none }
  if 0 < s.fd then { s.close with fd := -1 } else s

def next (s : SerialPort) : Event → SerialPort
  | .openPort result => (s.openPort result).2
  | .setPortParam getattr setattr => (s.setPortParam getattr setattr).2
  | .start => s.start

def step (s : SerialPort) (event : Event) : Except Unit SerialPort := .ok (s.next event)

/-- Destroyed now, it has closed every descriptor once, and none was registered closed. -/
structure ClosedOnce (s : SerialPort) : Prop where
  closes : ∀ d ∈ s.destroy.descriptors, d.closes = 1
  registered : ∀ d ∈ s.destroy.registered, d.closes = 0

/-- `openPort` finds no descriptor that is open, and `start` and a `setPortParam` that fails none
that is closed. -/
def KeepsCount (s : SerialPort) : Event → Prop
  | .openPort _ => ∀ d ∈ s.current, d.closes = 1
  | .setPortParam getattr setattr => (getattr && setattr) = false → ∀ d ∈ s.current, d.closes = 0
  | .start => s.channel = none → ∀ d ∈ s.current, d.closes = 0

/-- The destructor finds a descriptor open, but descriptor 0 closed. -/
def EndsClosed (s : SerialPort) : Prop :=
  ∀ d ∈ s.current, d.closes = if d.fd = 0 then 1 else 0

/-- What is in `fd_` is the latest descriptor, or none. -/
def Latest (s : SerialPort) : Prop :=
  s.fd < 0 ∨ ∃ d rest, s.descriptors = d :: rest ∧ (d.fd : Int) = s.fd

/-- The descriptors that `fd_` had before. -/
def past (s : SerialPort) : List Descriptor :=
  if s.fd < 0 then s.descriptors else s.descriptors.tail

/-- So far every descriptor has been closed once, that in `fd_` at most once. -/
structure Intact (s : SerialPort) : Prop where
  past : ∀ d ∈ s.past, d.closes = 1
  current : ∀ d ∈ s.current, d.closes ≤ 1
  registered : ∀ d ∈ s.registered, d.closes = 0

section Step

variable {s : SerialPort} {event : Event} {events : List Event} {d : Descriptor}
  {rest : List Descriptor}

theorem closeFd_of_neg {fd : Int} (h : fd < 0) (descriptors : List Descriptor) :
    closeFd fd descriptors = descriptors := by
  induction descriptors with
  | nil => rfl
  | cons d rest ih => rw [closeFd, if_neg (by omega), ih]

theorem current_of_neg (h : s.fd < 0) : s.current = none := by
  rw [current, List.find?_eq_none]
  intro d _ hfd
  have hsame : (d.fd : Int) = s.fd := of_decide_eq_true hfd
  omega

theorem current_of_cons (hl : s.descriptors = d :: rest) (hd : (d.fd : Int) = s.fd) :
    s.current = some d := by
  simp [current, hl, hd]

theorem past_of_cons (hl : s.descriptors = d :: rest) (hd : (d.fd : Int) = s.fd) :
    s.past = rest := by
  rw [past, if_neg (by omega), hl, List.tail_cons]

theorem close_of_neg (h : s.fd < 0) : s.close = s := by
  rw [close, closeFd_of_neg h]

theorem close_of_cons (hl : s.descriptors = d :: rest) (hd : (d.fd : Int) = s.fd) :
    s.close.descriptors = { d with closes := d.closes + 1 } :: rest := by
  rw [close, hl, closeFd, if_pos hd]

theorem forall_mem_descriptors (h : Latest s) : (∀ d ∈ s.descriptors, d.closes = 1) ↔
    (∀ d ∈ s.past, d.closes = 1) ∧ ∀ d ∈ s.current, d.closes = 1 := by
  obtain hfd | ⟨d, rest, hl, hd⟩ := h
  · simp [past, hfd, current_of_neg hfd]
  · rw [past_of_cons hl hd, current_of_cons hl hd, hl, List.forall_mem_cons, and_comm]
    simp

theorem latest_close (h : Latest s) : Latest s.close := by
  obtain hfd | ⟨d, rest, hl, hd⟩ := h
  · rw [close_of_neg hfd]
    exact .inl hfd
  · exact .inr ⟨_, rest, close_of_cons hl hd, hd⟩

/-- A descriptor that is closed has been open. -/
theorem intact_close_iff (h : Latest s) :
    Intact s.close ↔ Intact s ∧ ∀ d ∈ s.current, d.closes = 0 := by
  obtain hfd | ⟨d, rest, hl, hd⟩ := h
  · simp [close_of_neg hfd, current_of_neg hfd]
  · have hl' := close_of_cons hl hd
    have hpast : s.close.past = s.past := by
      rw [past_of_cons hl hd, past_of_cons hl' hd]
    have hcurrent : s.close.current = some { d with closes := d.closes + 1 } :=
      current_of_cons hl' hd
    constructor
    · rintro ⟨hone, hclosed, hregistered⟩
      rw [hpast] at hone
      have hzero : d.closes + 1 ≤ 1 := hclosed _ hcurrent
      have hopen : ∀ e ∈ s.current, e.closes = 0 := by
        intro e he
        rw [current_of_cons hl hd] at he
        cases he
        omega
      exact ⟨⟨hone, fun e he => by rw [hopen e he]; exact Nat.zero_le 1, hregistered⟩, hopen⟩
    · rintro ⟨⟨hone, -, hregistered⟩, hopen⟩
      refine ⟨by rwa [hpast], ?_, hregistered⟩
      intro e he
      rw [hcurrent] at he
      cases he
      exact Nat.succ_le_of_lt (by rw [hopen d (current_of_cons hl hd)]; exact Nat.one_pos)

/-- The descriptors before are left as they are for good. -/
theorem intact_openPort_iff (h : Latest s) (result : Option Nat) :
    Intact (s.openPort result).2 ↔ Intact s ∧ ∀ d ∈ s.current, d.closes = 1 := by
  have hopened : Intact (s.openPort result).2 ↔
      (∀ d ∈ s.descriptors, d.closes = 1) ∧ ∀ d ∈ s.registered, d.closes = 0 := by
    cases result with
    | none =>
        have hfd : (s.openPort none).2.fd < 0 := by
          change (-1 : Int) < 0
          decide
        constructor
        · rintro ⟨hpast, -, hregistered⟩
          rw [past, if_pos hfd] at hpast
          exact ⟨hpast, hregistered⟩
        · rintro ⟨hall, hregistered⟩
          refine ⟨by rwa [past, if_pos hfd], ?_, hregistered⟩
          rw [current_of_neg hfd]
          simp
    | some fd =>
        have hl : (s.openPort (some fd)).2.descriptors = ⟨fd, 0⟩ :: s.descriptors := rfl
        constructor
        · rintro ⟨hpast, -, hregistered⟩
          rw [past_of_cons hl rfl] at hpast
          exact ⟨hpast, hregistered⟩
        · rintro ⟨hall, hregistered⟩
          refine ⟨by rwa [past_of_cons hl rfl], ?_, hregistered⟩
          rw [current_of_cons hl rfl]
          simp
  rw [hopened, forall_mem_descriptors h]
  constructor
  · rintro ⟨⟨hpast, hclosed⟩, hregistered⟩
    exact ⟨⟨hpast, fun d hd => Nat.le_of_eq (hclosed d hd), hregistered⟩, hclosed⟩
  · rintro ⟨⟨hpast, -, hregistered⟩, hclosed⟩
    exact ⟨⟨hpast, hclosed⟩, hregistered⟩

theorem intact_start_iff :
    Intact s.start ↔ Intact s ∧ (s.channel = none → ∀ d ∈ s.current, d.closes = 0) := by
  unfold start
  split
  · rename_i hfd
    simp [current_of_neg hfd]
  · split
    · rename_i hchannel
      have hsplit : (∀ d ∈ s.registered ++ s.current.toList, d.closes = 0) ↔
          (∀ d ∈ s.registered, d.closes = 0) ∧ ∀ d ∈ s.current, d.closes = 0 := by
        rw [List.forall_mem_append]
        simp
      constructor
      · rintro ⟨hpast, hcurrent, hregistered⟩
        obtain ⟨hregistered, hopen⟩ := hsplit.mp hregistered
        exact ⟨⟨hpast, hcurrent, hregistered⟩, fun _ => hopen⟩
      · rintro ⟨⟨hpast, hcurrent, hregistered⟩, hopen⟩
        exact ⟨hpast, hcurrent, hsplit.mpr ⟨hregistered, hopen hchannel⟩⟩
    · rename_i hchannel
      exact ⟨fun h => ⟨h, fun hnone => absurd hnone hchannel⟩, fun h => h.1⟩

theorem latest_next (h : Latest s) (event : Event) : Latest (s.next event) := by
  cases event with
  | openPort result =>
      cases result with
      | none =>
          left
          change (-1 : Int) < 0
          decide
      | some fd => exact .inr ⟨⟨fd, 0⟩, s.descriptors, rfl, rfl⟩
  | setPortParam getattr setattr =>
      unfold next setPortParam
      dsimp only
      split
      · exact latest_close h
      · split
        · exact latest_close h
        · exact h
  | start =>
      unfold next start
      dsimp only
      split
      · exact h
      · split
        · exact h
        · exact h

theorem intact_next_iff (h : Latest s) :
    Intact (s.next event) ↔ Intact s ∧ s.KeepsCount event := by
  cases event with
  | openPort result => exact intact_openPort_iff h result
  | start => exact intact_start_iff
  | setPortParam getattr setattr =>
      cases getattr with
      | false => simpa [next, setPortParam, KeepsCount] using intact_close_iff h
      | true =>
          cases setattr with
          | false => simpa [next, setPortParam, KeepsCount] using intact_close_iff h
          | true => simp [next, setPortParam, KeepsCount]

/-- The destructor closes what is in `fd_`, unless that is 0. -/
theorem closedOnce_iff (h : Latest s) : s.ClosedOnce ↔ Intact s ∧ s.EndsClosed := by
  have hregistered : s.destroy.registered = s.registered := by
    unfold destroy
    dsimp only
    split
    · rfl
    · rfl
  have hdescriptors : (∀ d ∈ s.destroy.descriptors, d.closes = 1) ↔
      (∀ d ∈ s.past, d.closes = 1) ∧ s.EndsClosed := by
    unfold destroy
    dsimp only
    obtain hfd | ⟨d, rest, hl, hd⟩ := h
    · rw [if_neg (by omega), EndsClosed, current_of_neg hfd, past, if_pos hfd]
      simp
    · rw [EndsClosed, current_of_cons hl hd, past_of_cons hl hd, and_comm]
      by_cases hzero : d.fd = 0
      · rw [if_neg (by omega)]
        simp [hl, hzero]
      · rw [if_pos (by omega)]
        have hl' : closeFd s.fd s.descriptors = { d with closes := d.closes + 1 } :: rest :=
          close_of_cons hl hd
        simp [close, hl', hzero]
  constructor
  · rintro ⟨hcloses, hnone⟩
    obtain ⟨hpast, hends⟩ := hdescriptors.mp hcloses
    rw [hregistered] at hnone
    refine ⟨⟨hpast, fun d hd => ?_, hnone⟩, hends⟩
    rw [hends d hd]
    split
    · exact Nat.le_refl 1
    · exact Nat.zero_le 1
  · rintro ⟨⟨hpast, -, hnone⟩, hends⟩
    rw [← hregistered] at hnone
    exact ⟨hdescriptors.mpr ⟨hpast, hends⟩, hnone⟩

theorem latest_init : Latest init := .inl (by decide)

theorem intact_init : Intact init := ⟨by decide, by decide, by decide⟩

/-- The descriptors of a run are closed once each, and none is registered closed, if and only if
every call keeps the count and the destructor makes it up. -/
theorem closedOnce_iff_keepsCount (events : List Event) :
    (events.foldl next init).ClosedOnce ↔
      Always step KeepsCount init events ∧ (events.foldl next init).EndsClosed := by
  have hinv : ∀ (s : SerialPort) (event : Event) (s' : SerialPort), True → Latest s →
      step s event = .ok s' → Latest s' := by
    rintro s event s' - h ⟨⟩
    exact latest_next h event
  have hrun : run step init events = .ok (events.foldl next init) :=
    run_eq_foldl fun _ _ => rfl
  have hlatest : Latest (events.foldl next init) :=
    invariant_of_allowed hinv hrun (fun _ _ => trivial) latest_init
  have hkept : Intact (events.foldl next init) ↔
      Intact init ∧ Always step KeepsCount init events := by
    have hstep : ∀ (s : SerialPort) (event : Event) (s' : SerialPort), True → Latest s →
        step s event = .ok s' → (Intact s' ↔ Intact s ∧ s.KeepsCount event) := by
      rintro s event s' - h ⟨⟩
      exact intact_next_iff h
    exact iff_always hinv hstep hrun (fun _ _ => trivial) latest_init
  rw [closedOnce_iff hlatest, hkept]
  simp only [intact_init, true_and]

/-- A port whose parameters cannot be set is closed twice. -/
theorem failedParam_closedTwice :
    ¬ ∀ events : List Event, (events.foldl next init).ClosedOnce := by
  intro hclaim
  have hclosed := (hclaim [.openPort (some 3), .setPortParam false false]).closes ⟨3, 2⟩
    (by decide)
  cases hclosed

end Step

end SerialPort

end ToyBasket
