import ToyBasket.Lib.Machine
import ToyBasket.Net.EventLoop
import ToyBasket.Net.Output

/-!
# Flow control

The callbacks a connection queues while its output runs full and is drained: steps of `sendInLoop`
and `handleWrite` with any results of `write`, fatal ones included.
-/

namespace ToyBasket

open Words Outcome Machine

def WriteResult.succeeded : WriteResult → Bool
  | .accepted _ => true
  | .failed _ => false

namespace FlowControl

inductive Event where
  | sendInLoop (data : Bytes) (result : WriteResult)
  | handleWrite (result : WriteResult)
deriving DecidableEq, Repr

def Event.isHandleWrite : Event → Bool
  | .handleWrite _ => true
  | .sendInLoop _ _ => false

/-- A vector holds the data. -/
def Event.Possible : Event → Prop
  | .sendInLoop data _ => data.length ≤ maxSize
  | .handleWrite _ => True

instance : DecidablePred Event.Possible
  | .sendInLoop data _ => inferInstanceAs (Decidable (data.length ≤ maxSize))
  | .handleWrite _ => .isTrue trivial

/-- A step: what was pending before and after it, whether it called `write` with success, and the
callbacks it queued. -/
structure Entry where
  event : Event
  before : Nat
  after : Nat
  wrote : Bool
  queued : List Callback
deriving DecidableEq, Repr

namespace Entry

/-- The output runs full. -/
def Crosses (mark : Nat) (entry : Entry) : Prop := entry.before < mark ∧ mark ≤ entry.after

/-- It is drained below the mark by a write event. -/
def Relieves (mark : Nat) (entry : Entry) : Prop :=
  entry.event.isHandleWrite = true ∧ mark ≤ entry.before ∧ entry.after < mark

instance (mark : Nat) (entry : Entry) : Decidable (entry.Crosses mark) :=
  inferInstanceAs (Decidable (_ ∧ _))

/-- The callbacks that have to be queued. -/
def due (mark : Nat) (entry : Entry) : List Callback :=
  (if entry.wrote = true ∧ entry.after = 0 then [.writeComplete] else []) ++
    if entry.Crosses mark then [.highWaterMark entry.after] else []

end Entry

end FlowControl

/-- The output of a connection with the loop it queues callbacks in; `log` records its steps. -/
structure FlowControl where
  output : Output
  loop : EventLoop Callback
  log : List FlowControl.Entry
deriving DecidableEq, Repr

namespace FlowControl

def init (highWaterMark : Nat) : FlowControl where
  output := Output.init highWaterMark true true
  loop := EventLoop.init
  log := []

/-- Whether the step calls `write` with success. -/
def wrote (out : Output) : Event → Bool
  | .sendInLoop _ result =>
      !out.isWriting && out.outputBuffer.readableBytes == 0 && result.succeeded
  | .handleWrite result => out.isWriting && result.succeeded

def record (s : FlowControl) (event : Event) (output : Output) (callbacks : List Callback) :
    FlowControl where
  output := output
  loop := s.loop.queueAll callbacks
  log := s.log ++ [⟨event, s.output.outputBuffer.readableBytes, output.outputBuffer.readableBytes,
    wrote s.output event, callbacks⟩]

def step (s : FlowControl) (event : Event) : Except Fault FlowControl :=
  match event with
  | .sendInLoop data result => do
      let (output, callbacks) ← s.output.sendInLoop data result
      return s.record event output callbacks
  | .handleWrite result => do
      let (output, _, callbacks) ← s.output.handleWrite result
      return s.record event output callbacks

/-- Each step has queued what is due, and between two steps that report the high-water mark a write
event has drained the output below it. -/
structure Notified (mark : Nat) (s : FlowControl) : Prop where
  due : ∀ entry ∈ s.log, entry.queued = entry.due mark
  queued : s.loop.inOrder = (s.log.map Entry.queued).flatten
  between : ∀ before first between second after,
    s.log = before ++ first :: (between ++ second :: after) →
      ∀ size size', .highWaterMark size ∈ first.queued → .highWaterMark size' ∈ second.queued →
        ∃ entry ∈ between, entry.Relieves mark

/-! ### One step -/

/-- The output of a connection with both callbacks: the channel is written to while something is
pending. -/
structure Ready (mark : Nat) (out : Output) : Prop where
  wellFormed : out.outputBuffer.WellFormed
  writing_iff : out.isWriting = true ↔ out.outputBuffer.readableBytes ≠ 0
  highWaterMark_eq : out.highWaterMark = mark
  writeComplete : out.writeCompleteCallback = true
  highWater : out.highWaterMarkCallback = true

/-- What an entry is to say of its step. -/
structure Describes (mark : Nat) (out : Output) (event : Event) (output : Output)
    (callbacks : List Callback) : Prop where
  ready : Ready mark output
  due : callbacks = Entry.due mark ⟨event, out.outputBuffer.readableBytes,
    output.outputBuffer.readableBytes, wrote out event, callbacks⟩
  grows : event.isHandleWrite = false →
    out.outputBuffer.readableBytes ≤ output.outputBuffer.readableBytes

section Step

variable {mark : Nat} {out : Output} {data : Bytes} {result : WriteResult}

theorem ready_init (mark : Nat) : Ready mark (Output.init mark true true) where
  wellFormed := Buffer.empty_wellFormed (by decide)
  writing_iff := by simp [Output.init, Buffer.empty, Buffer.readableBytes, sizeSub]
  highWaterMark_eq := rfl
  writeComplete := rfl
  highWater := rfl

/-- Only the output of a step that leaves more than it finds runs full. -/
theorem Entry.due_of_le {entry : Entry} (h : entry.after ≤ entry.before) :
    entry.due mark =
      if entry.wrote = true ∧ entry.after = 0 then [.writeComplete] else [] := by
  have hnot : ¬ entry.Crosses mark := by
    unfold Crosses
    omega
  rw [due, if_neg hnot, List.append_nil]

/-- The direct write happens when nothing is pending; the callback is queued when it takes all. -/
theorem writeDirectly_describes (h : Ready mark out) (data : Bytes) (result : WriteResult) :
    (out.writeDirectly data.length result).1 ≤ data.length ∧
      (out.writeDirectly data.length result).2.2 =
        (if wrote out (.sendInLoop data result) = true ∧
          (out.writeDirectly data.length result).1 = data.length then [.writeComplete] else []) ∧
      (wrote out (.sendInLoop data result) = true → out.outputBuffer.readableBytes = 0 ∧
        (out.writeDirectly data.length result).2.1 = false) := by
  unfold Output.writeDirectly
  split
  · rename_i hdirect
    have hwrote : wrote out (.sendInLoop data result) = result.succeeded := by
      simp [wrote, hdirect]
    rw [hwrote]
    cases result with
    | accepted n =>
        have hle := Nat.min_le_right n data.length
        have hall : sizeSub data.length (min n data.length) = 0 ↔
            min n data.length = data.length := by
          rw [sizeSub_of_le hle]
          omega
        simp only [WriteResult.succeeded, true_and, hall]
        refine ⟨hle, ?_, fun _ => ⟨hdirect.2, trivial⟩⟩
        rw [Output.onWriteComplete, if_pos h.writeComplete]
    | failed errno => simp [WriteResult.succeeded]
  · rename_i hqueued
    have hwrote : wrote out (.sendInLoop data result) = false := by
      rw [Bool.eq_false_iff]
      intro hwrote
      simp only [wrote, Bool.and_eq_true, Bool.not_eq_true', beq_iff_eq] at hwrote
      exact hqueued hwrote.1
    simp [hwrote]

theorem Ready.onHighWaterMark_eq (h : Ready mark out) {remaining : Nat}
    (hsum : out.outputBuffer.readableBytes + remaining < 2 ^ 64) :
    out.onHighWaterMark remaining =
      if out.outputBuffer.readableBytes < mark ∧
        mark ≤ out.outputBuffer.readableBytes + remaining then
        [.highWaterMark (out.outputBuffer.readableBytes + remaining)]
      else [] := by
  simp only [Output.onHighWaterMark, sizeAdd_of_lt hsum, h.highWaterMark_eq, h.highWater, and_true]
  congr 1
  exact propext and_comm

theorem sendInLoop_describes (h : Ready mark out)
    (hlen : data.length ≤ maxSize) :
    Holds (out.sendInLoop data result)
      (fun after => Describes mark out (.sendInLoop data result) after.1 after.2)
      (fun fault => fault = .lengthError) := by
  obtain ⟨hle, hcallbacks, hwrote⟩ := writeDirectly_describes h data result
  have hsize := h.wellFormed.readableBytes_lt
  unfold Output.sendInLoop
  generalize out.writeDirectly data.length result = direct at hle hcallbacks hwrote ⊢
  obtain ⟨nwrote, faultError, callbacks⟩ := direct
  simp only at hle hcallbacks hwrote ⊢
  have hremaining : sizeSub data.length nwrote = data.length - nwrote := sizeSub_of_le hle
  rw [hremaining, assert_bind (Nat.sub_le _ _)]
  by_cases hrest : faultError = false ∧ 0 < data.length - nwrote
  · rw [if_pos hrest]
    simp only [maxSize] at hlen
    have hdrop : (data.drop nwrote).length = data.length - nwrote := List.length_drop
    apply Holds.bind ((Buffer.append_holds h.wellFormed (by omega)).mono
      (fun _ hbuffer => hbuffer.1) (fun _ hrefused => hrefused.1))
    intro buffer hbuffer
    have hafter :
        buffer.readableBytes = out.outputBuffer.readableBytes + (data.length - nwrote) := by
      rw [← hbuffer.wellFormed.length_readable, hbuffer.readable_eq, List.length_append, hdrop,
        h.wellFormed.length_readable]
    have hmarks := h.onHighWaterMark_eq
      (show out.outputBuffer.readableBytes + (data.length - nwrote) < 2 ^ 64 by omega)
    refine ⟨⟨hbuffer.wellFormed, ?_, h.highWaterMark_eq, h.writeComplete, h.highWater⟩, ?_, ?_⟩
    · simp only [hafter, true_iff]
      omega
    · have hnone : callbacks = [] := by
        rw [hcallbacks, if_neg (by omega)]
      have hmore : ¬ (wrote out (.sendInLoop data result) = true ∧
          out.outputBuffer.readableBytes + (data.length - nwrote) = 0) := by omega
      rw [Output.onHighWaterMark] at hmarks
      simp only [hnone, Entry.due, Entry.Crosses, hafter, Output.onHighWaterMark, hmarks]
      rw [if_neg hmore]
    · intro _
      simp only [hafter]
      exact Nat.le_add_right _ _
  · rw [if_neg hrest]
    refine ⟨⟨h.wellFormed, h.writing_iff, h.highWaterMark_eq, h.writeComplete, h.highWater⟩, ?_,
      fun _ => Nat.le_refl _⟩
    have hsame : wrote out (.sendInLoop data result) = true ∧ nwrote = data.length ↔
        wrote out (.sendInLoop data result) = true ∧ out.outputBuffer.readableBytes = 0 := by
      refine and_congr_right fun htrue => ?_
      obtain ⟨hempty, hfault⟩ := hwrote htrue
      rw [hfault] at hrest
      simp only [true_and] at hrest
      exact iff_of_true (by omega) hempty
    rw [Entry.due_of_le (Nat.le_refl _)]
    simp only [hcallbacks, hsame]

theorem handleWrite_describes (h : Ready mark out) :
    Holds (out.handleWrite result)
      (fun after => Describes mark out (.handleWrite result) after.1 after.2.2)
      (fun _ => False) := by
  have hsame (hwrote : wrote out (.handleWrite result) = true →
      out.outputBuffer.readableBytes ≠ 0) : Describes mark out (.handleWrite result) out [] := by
    refine ⟨h, ?_, fun hsend => by cases hsend⟩
    have hmore : ¬ (wrote out (.handleWrite result) = true ∧
        out.outputBuffer.readableBytes = 0) := fun hall => hwrote hall.1 hall.2
    rw [Entry.due_of_le (Nat.le_refl _), if_neg hmore]
  unfold Output.handleWrite
  cases hwriting : out.isWriting with
  | false => exact hsame (by simp [wrote, hwriting])
  | true =>
      have hpending := h.writing_iff.mp hwriting
      cases result with
      | failed errno => exact hsame (by simp [wrote, WriteResult.succeeded])
      | accepted n =>
          simp only [if_true]
          split
          · rename_i hpos
            apply (Buffer.retrieve_holds h.wellFormed (Nat.min_le_right _ _)).bind
            rintro buffer ⟨hbuffer, -⟩
            have hafter : buffer.readableBytes = out.outputBuffer.readableBytes -
                min n out.outputBuffer.readableBytes := by
              rw [← hbuffer.wellFormed.length_readable, hbuffer.readable_eq, List.length_drop,
                h.wellFormed.length_readable]
            have hwrote : wrote out (.handleWrite (.accepted n)) = true := by
              rw [wrote, hwriting]
              rfl
            have hless : buffer.readableBytes ≤ out.outputBuffer.readableBytes := by omega
            by_cases hempty : buffer.readableBytes = 0
            · rw [if_pos hempty]
              refine ⟨⟨hbuffer.wellFormed, by simp [hempty], h.highWaterMark_eq, h.writeComplete,
                h.highWater⟩, ?_, fun hsend => by cases hsend⟩
              rw [Entry.due_of_le hless, if_pos ⟨hwrote, hempty⟩, Output.onWriteComplete,
                if_pos h.writeComplete]
            · rw [if_neg hempty]
              refine ⟨⟨hbuffer.wellFormed, by simp [hempty], h.highWaterMark_eq,
                h.writeComplete, h.highWater⟩, ?_, fun hsend => by cases hsend⟩
              rw [Entry.due_of_le hless, if_neg fun hall => hempty hall.2]
          · exact hsame fun _ => hpending

end Step

/-! ### The steps of a run -/

/-- Each step finds what the one before it left pending, and `sendInLoop` takes nothing away. -/
def Chained : (pending : Nat) → List Entry → (left : Nat) → Prop
  | pending, [], left => pending = left
  | pending, entry :: log, left =>
      entry.before = pending ∧ (entry.event.isHandleWrite = false → entry.before ≤ entry.after) ∧
        Chained entry.after log left

section Chain

variable {mark pending left : Nat} {log log' : List Entry} {entry : Entry}

theorem chained_append : Chained pending (log ++ log') left ↔
    ∃ between, Chained pending log between ∧ Chained between log' left := by
  induction log generalizing pending with
  | nil => simp [Chained]
  | cons entry log ih => simp [Chained, ih, and_assoc]

/-- The output gets below the mark in a write event only. -/
theorem Chained.relieved (h : Chained pending log left) (hfull : mark ≤ pending)
    (hleft : left < mark) : ∃ entry ∈ log, entry.Relieves mark := by
  induction log generalizing pending with
  | nil =>
      rw [Chained] at h
      omega
  | cons entry log ih =>
      obtain ⟨rfl, hgrows, hrest⟩ := h
      by_cases hstill : mark ≤ entry.after
      · obtain ⟨later, hmem, hrelieves⟩ := ih hrest hstill
        exact ⟨later, List.mem_cons_of_mem _ hmem, hrelieves⟩
      · refine ⟨entry, List.mem_cons_self, ?_, hfull, Nat.lt_of_not_le hstill⟩
        by_contra hsend
        have hle := hgrows (Bool.eq_false_of_not_eq_true hsend)
        omega

theorem Entry.crosses_of_mem {size : Nat} (h : .highWaterMark size ∈ entry.due mark) :
    entry.Crosses mark := by
  unfold due at h
  by_contra hnot
  rw [if_neg hnot, List.append_nil] at h
  split at h
  · simp at h
  · cases h

end Chain

/-- What the log of a run says of it. -/
structure Logged (mark : Nat) (s : FlowControl) : Prop where
  ready : Ready mark s.output
  due : ∀ entry ∈ s.log, entry.queued = entry.due mark
  queued : s.loop.inOrder = (s.log.map Entry.queued).flatten
  chained : Chained 0 s.log s.output.outputBuffer.readableBytes

section Run

variable {mark : Nat} {s : FlowControl} {event : Event} {events : List Event}

theorem logged_init (mark : Nat) : Logged mark (init mark) where
  ready := ready_init mark
  due := fun entry hentry => absurd hentry List.not_mem_nil
  queued := rfl
  chained := by simp [Chained, init, Output.init, Buffer.empty, Buffer.readableBytes, sizeSub]

theorem Logged.record (h : Logged mark s) {output : Output} {callbacks : List Callback}
    (hstep : Describes mark s.output event output callbacks) :
    Logged mark (s.record event output callbacks) where
  ready := hstep.ready
  due := by
    intro entry hentry
    obtain hold | hnew := List.mem_append.mp hentry
    · exact h.due entry hold
    · rw [List.mem_singleton.mp hnew]
      exact hstep.due
  queued := by
    simp only [FlowControl.record, EventLoop.inOrder_queueAll, h.queued, List.map_append,
      List.map_singleton, List.flatten_append, List.flatten_singleton]
  chained := by
    simp only [FlowControl.record]
    rw [chained_append]
    exact ⟨_, h.chained, rfl, hstep.grows, rfl⟩

theorem Logged.step (h : Logged mark s) (hevent : event.Possible) :
    Holds (s.step event) (Logged mark) (fun fault => fault = .lengthError) := by
  cases event with
  | sendInLoop data result =>
      apply (sendInLoop_describes h.ready hevent).bind
      exact fun after hafter => h.record hafter
  | handleWrite result =>
      apply Holds.bind ((handleWrite_describes h.ready).mono (fun _ hafter => hafter)
        fun _ => False.elim)
      exact fun after hafter => h.record hafter

theorem Logged.notified (h : Logged mark s) : Notified mark s where
  due := h.due
  queued := h.queued
  between := by
    intro before first between second after hlog size size' hfirst hsecond
    have hmem : first ∈ s.log ∧ second ∈ s.log := by simp [hlog]
    rw [h.due first hmem.1] at hfirst
    rw [h.due second hmem.2] at hsecond
    have hchained := h.chained
    rw [hlog, chained_append] at hchained
    obtain ⟨-, -, -, -, hrest⟩ := hchained
    obtain ⟨-, hbetween, rfl, -⟩ := chained_append.mp hrest
    exact hbetween.relieved (Entry.crosses_of_mem hfirst).2 (Entry.crosses_of_mem hsecond).1

/-- A run reports each time the output runs full or empty, and faults only where a vector refuses
what is pending. -/
theorem run_notified (mark : Nat) (hevents : ∀ event ∈ events, event.Possible) :
    Holds (run FlowControl.step (init mark) events) (Notified mark)
      (fun fault => fault = .lengthError) :=
  (holds_run (fun _ _ hevent h => h.step hevent) hevents (logged_init mark)).imp
    fun _ h => h.notified

set_option maxRecDepth 10000 in
/-- The output runs full, is drained below the mark and runs full again. -/
theorem run_notified_twice :
    Holds (run FlowControl.step (init 3)
        [.sendInLoop [1, 2, 3, 4, 5] (.accepted 1), .handleWrite (.accepted 3),
          .sendInLoop [6, 7] (.accepted 0), .handleWrite (.accepted 3)])
      (Notified 3) (fun fault => fault = .lengthError) :=
  run_notified 3 (by decide)

end Run

end FlowControl

end ToyBasket
