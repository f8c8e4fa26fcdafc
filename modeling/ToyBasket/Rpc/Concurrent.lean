import ToyBasket.Lib.Machine
import ToyBasket.Rpc.MetaMessage
import ToyBasket.Rpc.Channel
import Mathlib.Data.List.Nodup

/-!
# Concurrent calls

Any number of threads are in `CallMethod`. The counter is advanced, read for the meta and read again
for the key of `out_`, and only the insertion is locked, so that other calls come between any two of
these steps.
-/

namespace ToyBasket

open Words Outcome Machine

/-- Where a thread is in `CallMethod`: after `++index_`, after `set_id` with the id it read, or
after the insertion. -/
inductive CallPlace (R D : Type) where
  | idle
  | counted (call : MethodCall R D)
  | identified (id : Int) (call : MethodCall R D)
  | inserted (id : Int) (call : MethodCall R D)

def MethodCall.out {R D : Type} (call : MethodCall R D) : OutstandingCall R D where
  response := call.response
  done := call.done

/-- `calls` of the channel has the calls with the ids in their frames, and `unanswered` those whose
insertion was made and whose id has not been answered since. `advanced` records whether the counter
was advanced since a call last read its id. -/
structure ConcurrentChannel (R D : Type) where
  channel : RpcChannel R D
  threads : Nat → CallPlace R D
  unanswered : List (Int × OutstandingCall R D)
  advanced : Bool

namespace ConcurrentChannel

variable {R D : Type}

inductive Event (R D : Type) where
  | callMethod (thread : Nat) (call : MethodCall R D)
  | setId (thread : Nat)
  | insert (thread : Nat)
  | send (thread : Nat)
  | answer (id : Int)
  | onConnection (connected : Bool)

def init : ConcurrentChannel R D where
  channel := RpcChannel.init
  threads := fun _ => .idle
  unanswered := []
  advanced := false

def goTo (s : ConcurrentChannel R D) (thread : Nat) (place : CallPlace R D) :
    ConcurrentChannel R D :=
  { s with threads := Function.update s.threads thread place }

/-- `++index_`. -/
def callMethod (s : ConcurrentChannel R D) (thread : Nat) (call : MethodCall R D) :
    Except Fault (ConcurrentChannel R D) := do
  check .overflow (s.channel.index < 9223372036854775807)
  return { s with
    channel := { s.channel with index := s.channel.index + 1 }
    advanced := true }.goTo thread (.counted call)

/-- `rpc_meta.set_id(index_)`. -/
def setId (s : ConcurrentChannel R D) (thread : Nat) (call : MethodCall R D) :
    ConcurrentChannel R D :=
  let id := s.channel.index
  { s with
    channel := { s.channel with calls := s.channel.calls ++ [(id, call)] }
    advanced := false }.goTo thread (.identified id call)

/-- `out_[index_] = out`, under the lock. -/
def insert (s : ConcurrentChannel R D) (thread : Nat) (id : Int) (call : MethodCall R D) :
    ConcurrentChannel R D :=
  { s with
    channel := { s.channel with
      out := fun key => if key = s.channel.index then some call.out else s.channel.out key }
    unanswered := s.unanswered ++ [(id, call.out)] }.goTo thread (.inserted id call)

def send (c : MetaCodec) (s : ConcurrentChannel R D) (thread : Nat) (id : Int)
    (call : MethodCall R D) : ConcurrentChannel R D :=
  { s with
    channel := { s.channel with
      sent := if s.channel.conn then s.channel.sent ++ [RpcChannel.requestFrame c id call]
        else s.channel.sent } }.goTo thread .idle

/-- A step that the thread is not at has no effect. -/
def step (c : MetaCodec) (s : ConcurrentChannel R D) :
    Event R D → Except Fault (ConcurrentChannel R D)
  | .callMethod thread call =>
      match s.threads thread with
      | .idle => s.callMethod thread call
      | _ => .ok s
  | .setId thread =>
      match s.threads thread with
      | .counted call => .ok (s.setId thread call)
      | _ => .ok s
  | .insert thread =>
      match s.threads thread with
      | .identified id call => .ok (s.insert thread id call)
      | _ => .ok s
  | .send thread =>
      match s.threads thread with
      | .inserted id call => .ok (s.send c thread id call)
      | _ => .ok s
  | .answer id =>
      .ok { s with
        channel := (s.channel.take id).2
        unanswered := s.unanswered.filter fun p => p.1 ≠ id }
  | .onConnection connected => .ok { s with channel := s.channel.onConnection connected }

/-- The ids in the frames. -/
def ids (s : ConcurrentChannel R D) : List Int := s.channel.calls.map Prod.fst

/-- The frames of two calls carry different ids, and `out_` has each call under the id in its frame
from its insertion until the id is answered. -/
structure KeepsIds (s : ConcurrentChannel R D) : Prop where
  distinct : s.ids.Nodup
  mapped : ∀ id out, (id, out) ∈ s.unanswered → s.channel.out id = some out

/-- The step is not disturbed: the counter was advanced since the last call read its id, and has not
been since this call read its own. -/
def Undisturbed (s : ConcurrentChannel R D) : Event R D → Prop
  | .setId thread =>
      match s.threads thread with
      | .counted _ => s.advanced = true
      | _ => True
  | .insert thread =>
      match s.threads thread with
      | .identified id _ => s.channel.index = id
      | _ => True
  | _ => True

/-- The thread has read the id for its frame, and its insertion is still to come. -/
def Waits (s : ConcurrentChannel R D) (thread : Nat) (id : Int) : Prop :=
  ∃ call, s.threads thread = .identified id call

/-- While no step is disturbed, a call that waits for its insertion has its id to itself. -/
structure Inv (s : ConcurrentChannel R D) : Prop extends KeepsIds s where
  entered : ∀ id, s.channel.out id ≠ none → id ∈ s.ids
  counted : ∀ thread id, s.Waits thread id → id ∈ s.ids
  free : ∀ thread id, s.Waits thread id → s.channel.out id = none
  apart : ∀ thread thread' id, s.Waits thread id → s.Waits thread' id → thread = thread'

/-- The ids that were read are not past the counter, and are behind it once it was advanced since
the last one was read. -/
structure Advancing (s : ConcurrentChannel R D) : Prop where
  le : ∀ id ∈ s.ids, id ≤ s.channel.index
  behind : s.advanced = true → ∀ id ∈ s.ids, id < s.channel.index
  reached : ∀ thread call, s.threads thread = .counted call → s.advanced = false →
    s.channel.index ∈ s.ids

theorem inv_init : Inv (init : ConcurrentChannel R D) where
  distinct := .nil
  mapped := nofun
  entered := fun _ hout => absurd rfl hout
  counted := nofun
  free := nofun
  apart := nofun

theorem advancing_init : Advancing (init : ConcurrentChannel R D) where
  le := fun _ hmem => absurd hmem List.not_mem_nil
  behind := fun h => by cases h
  reached := fun _ _ hplace => by cases hplace

section Steps

variable {c : MetaCodec} {s s' : ConcurrentChannel R D} {thread other : Nat} {id : Int}
  {call : MethodCall R D} {place : CallPlace R D}

theorem waits_goTo_of_ne (h : other ≠ thread) :
    (s.goTo thread place).Waits other id ↔ s.Waits other id := by
  unfold Waits goTo
  simp only [Function.update_of_ne h]

theorem waits_goTo_self : (s.goTo thread place).Waits thread id ↔
    ∃ call, place = .identified id call := by
  unfold Waits goTo
  simp only [Function.update_self]

/-- A thread that goes elsewhere does not wait. -/
theorem waits_of_goTo (hplace : ∀ id call, place ≠ .identified id call)
    (h : (s.goTo thread place).Waits other id) : other ≠ thread ∧ s.Waits other id := by
  have hne : other ≠ thread := by
    rintro rfl
    obtain ⟨call, hcall⟩ := waits_goTo_self.mp h
    exact hplace id call hcall
  exact ⟨hne, (waits_goTo_of_ne hne).mp h⟩

/-- The steps that touch neither the ids nor the entries. -/
theorem Inv.of_same (h : Inv s) (hcalls : s'.channel.calls = s.channel.calls)
    (hout : s'.channel.out = s.channel.out) (hunanswered : s'.unanswered = s.unanswered)
    (hwaits : ∀ thread id, s'.Waits thread id → s.Waits thread id) : Inv s' where
  distinct := by
    rw [ids, hcalls]
    exact h.distinct
  mapped := by
    rw [hunanswered, hout]
    exact h.mapped
  entered := by
    rw [ids, hcalls, hout]
    exact h.entered
  counted := by
    rw [ids, hcalls]
    exact fun thread id hw => h.counted thread id (hwaits thread id hw)
  free := by
    rw [hout]
    exact fun thread id hw => h.free thread id (hwaits thread id hw)
  apart := fun thread thread' id hw hw' =>
    h.apart thread thread' id (hwaits thread id hw) (hwaits thread' id hw')

theorem ids_setId : (s.setId thread call).ids = s.ids ++ [s.channel.index] := by
  simp [ids, setId, goTo]

theorem Inv.setId (h : Inv s) (hnew : s.channel.index ∉ s.ids) : Inv (s.setId thread call) := by
  have hwaits : ∀ other id, (s.setId thread call).Waits other id →
      (other = thread ∧ id = s.channel.index) ∨ (other ≠ thread ∧ s.Waits other id) := by
    intro other id hw
    by_cases hother : other = thread
    · subst hother
      obtain ⟨call', hplace⟩ := waits_goTo_self.mp hw
      cases hplace
      exact .inl ⟨rfl, rfl⟩
    · exact .inr ⟨hother, (waits_goTo_of_ne hother).mp hw⟩
  refine ⟨⟨?_, h.mapped⟩, ?_, ?_, ?_, ?_⟩
  · rw [ids_setId, List.nodup_append]
    refine ⟨h.distinct, List.nodup_singleton _, ?_⟩
    rintro id hold id' hmem rfl
    rw [List.mem_singleton.mp hmem] at hold
    exact hnew hold
  · intro id hout
    rw [ids_setId]
    exact List.mem_append_left _ (h.entered id hout)
  · intro other id hw
    rw [ids_setId]
    obtain ⟨-, rfl⟩ | ⟨-, hw⟩ := hwaits other id hw
    · exact List.mem_concat_self
    · exact List.mem_append_left _ (h.counted other id hw)
  · intro other id hw
    obtain ⟨-, rfl⟩ | ⟨-, hw⟩ := hwaits other id hw
    · by_contra hout
      exact hnew (h.entered _ hout)
    · exact h.free other id hw
  · intro other other' id hw hw'
    obtain ⟨rfl, rfl⟩ | ⟨-, hw⟩ := hwaits other id hw
    · obtain ⟨rfl, -⟩ | ⟨-, hw'⟩ := hwaits other' _ hw'
      · rfl
      · exact absurd (h.counted other' _ hw') hnew
    · obtain ⟨-, rfl⟩ | ⟨-, hw'⟩ := hwaits other' id hw'
      · exact absurd (h.counted other _ hw) hnew
      · exact h.apart other other' id hw hw'

theorem Inv.insert (h : Inv s) (hthread : s.threads thread = .identified s.channel.index call) :
    Inv (s.insert thread s.channel.index call) := by
  have hself : s.Waits thread s.channel.index := ⟨call, hthread⟩
  have hwaits : ∀ other id, (s.insert thread s.channel.index call).Waits other id →
      id ≠ s.channel.index ∧ s.Waits other id := by
    intro other id hw
    obtain ⟨hother, hw⟩ := waits_of_goTo (by simp) hw
    refine ⟨?_, hw⟩
    rintro rfl
    exact hother (h.apart other thread _ hw hself)
  have hout : (s.insert thread s.channel.index call).channel.out
      = fun key => if key = s.channel.index then some call.out else s.channel.out key := rfl
  refine ⟨⟨h.distinct, ?_⟩, ?_, ?_, ?_, ?_⟩
  · intro id out hmem
    rw [hout]
    obtain hold | hnew := List.mem_append.mp hmem
    · have hmapped := h.mapped id out hold
      have hne : id ≠ s.channel.index := by
        rintro rfl
        rw [h.free thread _ hself] at hmapped
        cases hmapped
      simp only [if_neg hne]
      exact hmapped
    · cases List.mem_singleton.mp hnew
      simp
  · intro id hkey
    rw [hout] at hkey
    by_cases hid : id = s.channel.index
    · subst hid
      exact h.counted thread _ hself
    · simp only [if_neg hid] at hkey
      exact h.entered id hkey
  · exact fun other id hw => h.counted other id (hwaits other id hw).2
  · intro other id hw
    obtain ⟨hne, hw⟩ := hwaits other id hw
    simp only [hout, if_neg hne]
    exact h.free other id hw
  · exact fun other other' id hw hw' =>
      h.apart other other' id (hwaits other id hw).2 (hwaits other' id hw').2

theorem Inv.answer (h : Inv s) : Inv { s with
    channel := (s.channel.take id).2
    unanswered := s.unanswered.filter fun p => p.1 ≠ id } := by
  have hcalls : (s.channel.take id).2.calls = s.channel.calls := RpcChannel.calls_take
  have hout : ∀ other, (s.channel.take id).2.out other ≠ none → s.channel.out other ≠ none := by
    intro other hother
    rwa [RpcChannel.out_take_of_ne] at hother
    rintro rfl
    exact hother RpcChannel.out_take_self
  refine ⟨⟨?_, ?_⟩, ?_, ?_, ?_, h.apart⟩
  · rw [ids, hcalls]
    exact h.distinct
  · intro other out hmem
    obtain ⟨hmem, hne⟩ := List.mem_filter.mp hmem
    rw [RpcChannel.out_take_of_ne (of_decide_eq_true hne)]
    exact h.mapped other out hmem
  · intro other hother
    rw [ids, hcalls]
    exact h.entered other (hout other hother)
  · intro thread other hw
    rw [ids, hcalls]
    exact h.counted thread other hw
  · intro thread other hw
    by_contra hother
    exact hout other hother (h.free thread other hw)

theorem callMethod_eq_ok (h : s.callMethod thread call = .ok s') :
    s' = { s with
      channel := { s.channel with index := s.channel.index + 1 }
      advanced := true }.goTo thread (.counted call) := by
  obtain ⟨-, -, hafter⟩ := bind_eq_ok.mp h
  cases hafter
  rfl

/-- A call that is about to read its id finds one that was not read. -/
theorem Advancing.not_mem_iff (h : Advancing s) (hplace : s.threads thread = .counted call) :
    s.channel.index ∉ s.ids ↔ s.advanced = true := by
  constructor
  · intro hnew
    by_contra hsame
    exact hnew (h.reached thread call hplace (Bool.eq_false_of_not_eq_true hsame))
  · exact fun hadvanced hmem => Int.lt_irrefl _ (h.behind hadvanced _ hmem)

/-- The steps that do not touch the counter and the ids. -/
theorem Advancing.of_same (h : Advancing s) (hcalls : s'.channel.calls = s.channel.calls)
    (hindex : s'.channel.index = s.channel.index) (hadvanced : s'.advanced = s.advanced)
    (hcounted : ∀ thread call, s'.threads thread = .counted call →
      s.threads thread = .counted call) : Advancing s' where
  le := by
    rw [ids, hcalls, hindex]
    exact h.le
  behind := by
    rw [ids, hcalls, hindex, hadvanced]
    exact h.behind
  reached := by
    rw [ids, hcalls, hindex, hadvanced]
    exact fun thread call hplace => h.reached thread call (hcounted thread call hplace)

theorem counted_of_goTo (hplace : ∀ call, place ≠ .counted call)
    (h : (s.goTo thread place).threads other = .counted call) :
    s.threads other = .counted call := by
  unfold goTo at h
  by_cases hother : other = thread
  · subst hother
    simp only [Function.update_self] at h
    exact absurd h (hplace call)
  · simp only [Function.update_of_ne hother] at h
    exact h

theorem advancing_step {event : Event R D} (h : Advancing s) (hnext : step c s event = .ok s') :
    Advancing s' := by
  cases event with
  | callMethod thread call =>
      simp only [step] at hnext
      split at hnext
      · rw [callMethod_eq_ok hnext]
        have hlt : ∀ id ∈ s.ids, id < s.channel.index + 1 := fun id hmem =>
          Int.lt_add_one_iff.mpr (h.le id hmem)
        refine ⟨fun id hmem => Int.le_of_lt (hlt id hmem), fun _ => hlt, ?_⟩
        intro other call' _ hsame
        cases hsame
      · cases hnext
        exact h
  | setId thread =>
      simp only [step] at hnext
      split at hnext
      · cases hnext
        refine ⟨?_, ?_, ?_⟩
        · intro id hmem
          rw [ids_setId] at hmem
          obtain hold | hnew := List.mem_append.mp hmem
          · exact h.le id hold
          · exact Int.le_of_eq (List.mem_singleton.mp hnew)
        · intro hadvanced
          cases hadvanced
        · intro other call' _ _
          rw [ids_setId]
          exact List.mem_concat_self
      · cases hnext
        exact h
  | insert thread =>
      simp only [step] at hnext
      split at hnext
      · cases hnext
        exact h.of_same rfl rfl rfl fun _ _ hplace => counted_of_goTo (by simp) hplace
      · cases hnext
        exact h
  | send thread =>
      simp only [step] at hnext
      split at hnext
      · cases hnext
        exact h.of_same rfl rfl rfl fun _ _ hplace => counted_of_goTo (by simp) hplace
      · cases hnext
        exact h
  | answer id =>
      cases hnext
      exact h.of_same RpcChannel.calls_take RpcChannel.index_take rfl fun _ _ hplace => hplace
  | onConnection connected =>
      cases hnext
      unfold RpcChannel.onConnection
      split
      · exact h.of_same rfl rfl rfl fun _ _ hplace => hplace
      · exact h

theorem inv_step {event : Event R D} (h : Inv s) (hadvancing : Advancing s)
    (hgood : s.Undisturbed event) (hnext : step c s event = .ok s') : Inv s' := by
  cases event with
  | callMethod thread call =>
      simp only [step] at hnext
      split at hnext
      · rw [callMethod_eq_ok hnext]
        exact h.of_same rfl rfl rfl fun other id hw => (waits_of_goTo (by simp) hw).2
      · cases hnext
        exact h
  | setId thread =>
      simp only [step, Undisturbed] at hnext hgood
      cases hplace : s.threads thread with
      | counted call =>
          rw [hplace] at hnext hgood
          cases hnext
          exact h.setId ((hadvancing.not_mem_iff hplace).mpr hgood)
      | _ =>
          rw [hplace] at hnext
          cases hnext
          exact h
  | insert thread =>
      simp only [step, Undisturbed] at hnext hgood
      cases hplace : s.threads thread with
      | identified id call =>
          rw [hplace] at hnext hgood
          cases hnext
          simp only at hgood
          subst hgood
          exact h.insert hplace
      | _ =>
          rw [hplace] at hnext
          cases hnext
          exact h
  | send thread =>
      simp only [step] at hnext
      split at hnext
      · cases hnext
        exact h.of_same rfl rfl rfl fun other id hw => (waits_of_goTo (by simp) hw).2
      · cases hnext
        exact h
  | answer id =>
      cases hnext
      exact h.answer
  | onConnection connected =>
      cases hnext
      unfold RpcChannel.onConnection
      split
      · exact h.of_same rfl rfl rfl fun _ _ hw => hw
      · exact h

/-- A step that is disturbed takes an id another call has, or leaves its own call without entry. -/
theorem undisturbed_of_keepsIds {event : Event R D} (h : Inv s) (hadvancing : Advancing s)
    (hnext : step c s event = .ok s') (hkeeps : s'.KeepsIds) : s.Undisturbed event := by
  cases event with
  | setId thread =>
      simp only [step, Undisturbed] at hnext ⊢
      cases hplace : s.threads thread with
      | counted call =>
          rw [hplace] at hnext
          cases hnext
          have hdistinct := hkeeps.distinct
          rw [ids_setId, List.nodup_append] at hdistinct
          apply (hadvancing.not_mem_iff hplace).mp
          intro hold
          exact hdistinct.2.2 _ hold _ (List.mem_singleton_self _) rfl
      | _ => trivial
  | insert thread =>
      simp only [step, Undisturbed] at hnext ⊢
      cases hplace : s.threads thread with
      | identified id call =>
          rw [hplace] at hnext
          cases hnext
          simp only
          by_contra hne
          have hmapped : (if id = s.channel.index then some call.out else s.channel.out id)
              = some call.out := hkeeps.mapped id call.out List.mem_concat_self
          rw [if_neg (Ne.symm hne), h.free thread id ⟨call, hplace⟩] at hmapped
          cases hmapped
      | _ => trivial
  | _ => trivial

end Steps

/-- In every state of a run the ids are kept apart and the entries in place, if and only if no call
reads the id or makes the insertion after another one has moved the counter. -/
theorem keepsIds_iff_undisturbed (c : MetaCodec) (events : List (Event R D)) :
    Throughout (step c) KeepsIds init events ↔ Always (step c) Undisturbed init events := by
  have hprop : ∀ s : ConcurrentChannel R D, s.Inv ∧ s.Advancing → s.KeepsIds :=
    fun s h => h.1.toKeepsIds
  have hfault : ∀ (s : ConcurrentChannel R D) event fault, s.Inv ∧ s.Advancing →
      step c s event = .error fault → s.Undisturbed event := by
    intro s event fault _ h
    cases event with
    | setId thread | insert thread =>
        simp only [step] at h
        split at h
        · cases h
        · cases h
    | _ => trivial
  apply throughout_iff_always hprop _ _ hfault ⟨inv_init, advancing_init⟩
  · exact fun s event s' h hgood hnext =>
      ⟨inv_step h.1 h.2 hgood hnext, advancing_step h.2 hnext⟩
  · exact fun s event s' h hnext hkeeps => undisturbed_of_keepsIds h.1 h.2 hnext hkeeps

/-! ### One call at a time -/

/-- The four steps of a call in a row are `CallMethod` of the channel. -/
theorem callMethod_steps {c : MetaCodec} {s : ConcurrentChannel R D} {thread : Nat}
    (hidle : s.threads thread = .idle) (call : MethodCall R D) :
    (run (step c) s [.callMethod thread call, .setId thread, .insert thread, .send thread]).map
        channel = s.channel.callMethod c call := by
  unfold RpcChannel.callMethod
  by_cases hindex : s.channel.index < 9223372036854775807
  · simp [run, step, hidle, callMethod, hindex, setId, insert, send, goTo, MethodCall.out,
      Except.map]
  · simp [run, step, hidle, callMethod, hindex, Except.map]

/-! ### Two calls -/

def callOf (response : Nat) : MethodCall Nat Unit where
  service := []
  method := []
  request := []
  response := some response
  done := none

/-- Both threads advance the counter before either reads it. -/
theorem bothCounted_not_keepsIds : ¬ Throughout (step RpcMetaMessage.pbCodec) KeepsIds init
    [.callMethod 1 (callOf 1), .callMethod 2 (callOf 2), .setId 1, .setId 2] := by
  intro h
  have hlast := h.last rfl
  have hdistinct := hlast.distinct
  revert hdistinct
  decide

end ConcurrentChannel

end ToyBasket
