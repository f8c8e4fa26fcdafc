import Mathlib.Algebra.Group.Nat.Defs
import Mathlib.Data.List.Nodup
import Mathlib.Data.List.Perm.Subperm

/-!
# The list that the poller hands to the kernel

`EPollPoller::poll` and `fillActiveChannels`. `events_` has room for a few descriptors and is made
larger when it was full, so that in the meantime some that are ready are left to the next turn.
Which ones, and in which order `epoll_wait` reports the others, is up to the kernel.
-/

namespace ToyBasket

/-- `watched` are the descriptors in the interest list of the kernel and `ready` those that are
ready, both in no order. `batches` are the active channels of each poll, `missed` counts the polls
that left a ready one out, and `most` is how many have been watched at once. -/
structure EventList where
  size : Nat
  watched : List Nat
  ready : List Nat
  batches : List (List Nat)
  missed : Nat
  most : Nat
deriving DecidableEq, Repr

namespace EventList

def kInitEventListSize : Nat := 16

def init : EventList where
  size := kInitEventListSize
  watched := []
  ready := []
  batches := []
  missed := 0
  most := 0

/-- `poll` comes with what `epoll_wait` reports, and `interrupted` is a poll that it fails. -/
inductive Event where
  | watch (fd : Nat)
  | unwatch (fd : Nat)
  | becomeReady (fd : Nat)
  | becomeIdle (fd : Nat)
  | poll (reported : List Nat)
  | interrupted
deriving DecidableEq, Repr

/-- What `epoll_wait` can report: ready descriptors, each once, and all of them unless the vector is
full. -/
def Reports (l : EventList) (reported : List Nat) : Prop :=
  reported.Nodup ∧ reported ⊆ l.ready ∧ reported.length ≤ l.size ∧
    (reported.length = l.size ∨ l.ready ⊆ reported)

instance (l : EventList) (reported : List Nat) : Decidable (l.Reports reported) :=
  inferInstanceAs (Decidable (_ ∧ _))

/-- What is done with the events. -/
def poll (l : EventList) (reported : List Nat) : EventList :=
  let numEvents := reported.length
  { l with
    batches := l.batches ++ [reported]
    size := if 0 < numEvents ∧ numEvents = l.size then l.size * 2 else l.size
    missed := if l.ready ⊆ reported then l.missed else l.missed + 1 }

/-- A report that `epoll_wait` does not make changes nothing. -/
def step (l : EventList) : Event → EventList
  | .watch fd =>
      let watched := l.watched.insert fd
      { l with watched := watched, most := max l.most watched.length }
  | .unwatch fd => { l with watched := l.watched.erase fd, ready := l.ready.erase fd }
  | .becomeReady fd => if fd ∈ l.watched then { l with ready := l.ready.insert fd } else l
  | .becomeIdle fd => { l with ready := l.ready.erase fd }
  | .poll reported => if l.Reports reported then l.poll reported else l
  | .interrupted => l

variable {l : EventList} {fd : Nat} {event : Event} {events reported : List Nat}

/-! ### The size of the vector -/

structure Sound (l : EventList) : Prop where
  watched : l.watched.Nodup
  ready : l.ready.Nodup
  subset : l.ready ⊆ l.watched
  most : l.watched.length ≤ l.most
  pos : kInitEventListSize * 2 ^ l.missed ≤ l.size
  size : l.size ≤ max kInitEventListSize (2 * l.most)
  missed : l.missed = 0 ∨ kInitEventListSize * 2 ^ (l.missed - 1) < l.most
  batches : ∀ batch ∈ l.batches, batch.Nodup

theorem Sound.init : Sound init where
  watched := List.nodup_nil
  ready := List.nodup_nil
  subset := List.Subset.refl _
  most := Nat.le_refl _
  pos := Nat.le_refl _
  size := Nat.le_max_left _ _
  missed := .inl rfl
  batches := by simp [EventList.init]

theorem Sound.length_ready_le (h : Sound l) : l.ready.length ≤ l.most :=
  Nat.le_trans (h.ready.subperm h.subset).length_le h.most

theorem Sound.size_pos (h : Sound l) : kInitEventListSize ≤ l.size := by
  calc kInitEventListSize = kInitEventListSize * 1 := (Nat.mul_one _).symm
    _ ≤ kInitEventListSize * 2 ^ l.missed := Nat.mul_le_mul_left _ Nat.one_le_two_pow
    _ ≤ l.size := h.pos

/-- When something ready is left out the vector was full, and more are ready. -/
theorem Reports.length_lt (h : l.Reports reported) (hleft : ¬ l.ready ⊆ reported) :
    reported.length = l.size ∧ l.size < l.ready.length := by
  obtain ⟨hnodup, hsubset, -, hfull⟩ := h
  have hlength := hfull.resolve_right hleft
  have hperm := hnodup.subperm hsubset
  refine ⟨hlength, ?_⟩
  rw [← hlength]
  apply Nat.lt_of_le_of_ne hperm.length_le
  intro hsame
  exact hleft (hperm.perm_of_length_le (Nat.le_of_eq hsame.symm)).symm.subset

theorem Sound.poll (h : Sound l) (hreports : l.Reports reported) : Sound (l.poll reported) := by
  have hready := h.length_ready_le
  have hpos := h.pos
  have hsmall := h.size_pos
  have hnumEvents : reported.length ≤ l.ready.length :=
    (hreports.1.subperm hreports.2.1).length_le
  have hbatches : ∀ batch ∈ l.batches ++ [reported], batch.Nodup := by
    rw [List.forall_mem_append, List.forall_mem_singleton]
    exact ⟨h.batches, hreports.1⟩
  refine ⟨h.watched, h.ready, h.subset, h.most, ?_, ?_, ?_, hbatches⟩
  · simp only [EventList.poll]
    split
    · split
      · omega
      · exact hpos
    · rename_i hleft
      have hfull := (hreports.length_lt hleft).1
      have hsome : 0 < reported.length ∧ reported.length = l.size := by
        simp only [kInitEventListSize] at hsmall
        omega
      rw [if_pos hsome, pow_succ, ← Nat.mul_assoc]
      exact Nat.mul_le_mul_right 2 hpos
  · have hsize := h.size
    simp only [EventList.poll]
    split
    · omega
    · exact hsize
  · simp only [EventList.poll]
    split
    · exact h.missed
    · rename_i hleft
      have hmore := (hreports.length_lt hleft).2
      right
      rw [Nat.add_sub_cancel]
      omega

theorem Sound.step (h : Sound l) (event : Event) : Sound (l.step event) := by
  cases event with
  | watch fd =>
      have hmost := h.most
      have hsize := h.size
      refine ⟨h.watched.insert, h.ready, ?_, Nat.le_max_right _ _, h.pos, ?_, ?_, h.batches⟩
      · exact fun other hother => List.mem_insert_of_mem (h.subset hother)
      · simp only [EventList.step]
        omega
      · simp only [EventList.step]
        exact h.missed.imp_right fun hmissed => by omega
  | unwatch fd =>
      refine ⟨h.watched.erase fd, h.ready.erase fd, ?_, ?_, h.pos, h.size, h.missed, h.batches⟩
      · intro other hother
        obtain ⟨hne, hmem⟩ := (h.ready.mem_erase_iff).mp hother
        exact (h.watched.mem_erase_iff).mpr ⟨hne, h.subset hmem⟩
      · exact Nat.le_trans List.length_erase_le h.most
  | becomeReady fd =>
      simp only [EventList.step]
      split
      · rename_i hwatched
        refine ⟨h.watched, h.ready.insert, ?_, h.most, h.pos, h.size, h.missed, h.batches⟩
        intro other hother
        rcases List.mem_insert_iff.mp hother with rfl | hother
        · exact hwatched
        · exact h.subset hother
      · exact h
  | becomeIdle fd =>
      refine ⟨h.watched, h.ready.erase fd, ?_, h.most, h.pos, h.size, h.missed, h.batches⟩
      exact fun other hother => h.subset (List.mem_of_mem_erase hother)
  | poll reported =>
      simp only [EventList.step]
      split
      · rename_i hreports
        exact h.poll hreports
      · exact h
  | interrupted => exact h

theorem sound_run (events : List Event) : Sound (events.foldl step EventList.init) :=
  List.foldlRecOn events step Sound.init fun _ h event _ => h.step event

/-- Since the first state `fd` has been ready, and each poll has reported it or has left it out. -/
structure Waits (fd : Nat) (l l' : EventList) : Prop where
  ready : fd ∈ l'.ready
  grown : l.batches <+: l'.batches
  counted : (∃ batch ∈ l'.batches.drop l.batches.length, fd ∈ batch) ∨
    l.missed + (l'.batches.drop l.batches.length).length ≤ l'.missed

theorem Waits.refl (hready : fd ∈ l.ready) : Waits fd l l where
  ready := hready
  grown := List.prefix_refl _
  counted := by simp

theorem Waits.of_eq {l' l'' : EventList} (h : Waits fd l l') (hready : fd ∈ l''.ready)
    (hbatches : l''.batches = l'.batches) (hmissed : l''.missed = l'.missed) : Waits fd l l'' where
  ready := hready
  grown := by rw [hbatches]; exact h.grown
  counted := by rw [hbatches, hmissed]; exact h.counted

theorem Waits.poll {l' : EventList} (h : Waits fd l l') (reported : List Nat) :
    Waits fd l (l'.poll reported) := by
  have hdrop : (l'.poll reported).batches.drop l.batches.length =
      l'.batches.drop l.batches.length ++ [reported] :=
    List.drop_append_of_le_length h.grown.length_le
  refine ⟨h.ready, h.grown.trans (List.prefix_append _ _), ?_⟩
  rw [hdrop]
  by_cases hmem : fd ∈ reported
  · exact .inl ⟨reported, by simp, hmem⟩
  · obtain ⟨batch, hbatch, hfd⟩ | hmissed := h.counted
    · exact .inl ⟨batch, List.mem_append_left _ hbatch, hfd⟩
    · have hleft : ¬ l'.ready ⊆ reported := fun hsubset => hmem (hsubset h.ready)
      right
      simp only [EventList.poll, if_neg hleft, List.length_append, List.length_singleton]
      omega

theorem Waits.step {l' : EventList} (h : Waits fd l l') (hidle : event ≠ .becomeIdle fd)
    (hunwatch : event ≠ .unwatch fd) : Waits fd l (l'.step event) := by
  have herase : ∀ other, fd ≠ other → fd ∈ l'.ready.erase other :=
    fun other hne => (List.mem_erase_of_ne hne).mpr h.ready
  cases event with
  | watch other => exact h.of_eq h.ready rfl rfl
  | unwatch other => exact h.of_eq (herase other fun heq => hunwatch (by rw [heq])) rfl rfl
  | becomeReady other =>
      simp only [EventList.step]
      split
      · exact h.of_eq (List.mem_insert_of_mem h.ready) rfl rfl
      · exact h
  | becomeIdle other => exact h.of_eq (herase other fun heq => hidle (by rw [heq])) rfl rfl
  | poll reported =>
      simp only [EventList.step]
      split
      · exact h.poll reported
      · exact h
  | interrupted => exact h

theorem waits_run {events : List Event} (hready : fd ∈ l.ready)
    (hidle : .becomeIdle fd ∉ events) (hunwatch : .unwatch fd ∉ events) :
    Waits fd l (events.foldl step l) := by
  apply List.foldlRecOn events step (Waits.refl hready)
  intro l' h event hevent
  exact h.step (fun heq => hidle (heq ▸ hevent)) (fun heq => hunwatch (heq ▸ hevent))

/-- A channel that stays ready is reported within so many polls that the vector, doubled by all of
them but one, has room for every descriptor, whatever the kernel reports first. -/
theorem reported_within (before : List Event) {after : List Event} (doublings : Nat)
    (hready : fd ∈ (before.foldl step EventList.init).ready)
    (hidle : .becomeIdle fd ∉ after) (hunwatch : .unwatch fd ∉ after)
    (hpolls : doublings < (((before ++ after).foldl step EventList.init).batches.drop
      (before.foldl step EventList.init).batches.length).length)
    (hmost : ((before ++ after).foldl step EventList.init).most ≤
      kInitEventListSize * 2 ^ doublings) :
    ∃ batch ∈ ((before ++ after).foldl step EventList.init).batches.drop
      (before.foldl step EventList.init).batches.length, fd ∈ batch := by
  have hmissed := (sound_run (before ++ after)).missed
  have hwaits := waits_run hready hidle hunwatch
  rw [← List.foldl_append] at hwaits
  apply hwaits.counted.resolve_right
  intro hcounted
  have hless := hmissed.resolve_left (by omega)
  have hpow : 2 ^ doublings ≤ 2 ^ (((before ++ after).foldl step EventList.init).missed - 1) :=
    Nat.pow_le_pow_right (by decide) (by omega)
  have hroom := Nat.mul_le_mul_left kInitEventListSize hpow
  omega

/-- Twenty channels become ready. -/
def twenty : List Event := (List.range 20).flatMap fun fd => [.watch fd, .becomeReady fd]

/-- The second poll reports those again that the first one did, and the last four. -/
def twoPolls : List Event :=
  [.poll (List.range 16), .becomeIdle 3, .becomeReady 3, .poll (List.range 20)]

theorem reported_within_twenty :
    ∃ batch ∈ ((twenty ++ twoPolls).foldl step EventList.init).batches.drop
      (twenty.foldl step EventList.init).batches.length, 19 ∈ batch := by
  apply reported_within twenty 1
  · decide +kernel
  · decide
  · decide
  · decide +kernel
  · decide +kernel

end EventList

end ToyBasket
