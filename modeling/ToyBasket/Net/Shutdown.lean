import ToyBasket.Net.Integrity

/-!
# The graceful shutdown

`shutdown` lets the loop half-close the socket behind the messages that are queued. But it sets the
state at once, and `handleWrite` half-closes too when it finds the buffer empty in that state,
whether or not messages are queued.
-/

namespace ToyBasket.StreamConnection

open Words Outcome Machine

def BlocksAtMost (result : WriteResult) : Prop :=
  ∀ errno, result = .failed errno → errno = .wouldBlock

/-- Thread 1, which is not that of the loop, is the only one that sends and shuts down, and writes
fail with `EAGAIN` only. -/
def Event.OneThread : Event → Prop
  | .send thread message result => thread = 1 ∧ message.length ≤ maxSize ∧ BlocksAtMost result
  | .shutdown thread | .advance thread => thread = 1
  | .doPendingFunctors => True
  | .functor result | .handleWrite result => BlocksAtMost result

theorem BlocksAtMost.not_fatal {result : WriteResult} (h : BlocksAtMost result) :
    ¬ result.Fatal := by
  cases result with
  | accepted n => exact id
  | failed errno =>
      rw [h errno rfl]
      simp [WriteResult.Fatal]

theorem Event.OneThread.usual {event : Event} (h : event.OneThread) : event.Usual := by
  cases event with
  | send thread message result => exact ⟨h.2.1, h.2.2.not_fatal⟩
  | shutdown thread => trivial
  | advance thread => trivial
  | doPendingFunctors => trivial
  | functor result => exact BlocksAtMost.not_fatal h
  | handleWrite result => exact BlocksAtMost.not_fatal h

/-- At each half-close the socket had accepted all that `send` had taken. -/
def Lossless (conn : StreamConnection) : Prop := ∀ p ∈ conn.shutdowns, p.1 = p.2

/-- Unless the event is a write that empties the buffer while the connection is shutting down and a
message that is not empty is still queued. -/
def KeepsOpen (conn : StreamConnection) : Event → Prop
  | .handleWrite result => ¬ (conn.state = .kDisconnecting ∧ conn.loop.functors = [] ∧
      conn.output.Drains result ∧ ∃ p ∈ conn.waiting, p.2 ≠ [])
  | _ => True

instance (conn : StreamConnection) : Decidable conn.Lossless :=
  inferInstanceAs (Decidable (∀ p ∈ conn.shutdowns, p.1 = p.2))

instance (conn : StreamConnection) : DecidablePred conn.KeepsOpen
  | .handleWrite _ => inferInstanceAs (Decidable (¬ (_ ∧ _)))
  | .send .. | .shutdown _ | .advance _ | .doPendingFunctors | .functor _ => .isTrue trivial

/-- How far thread 1 has got: no message comes behind `shutdownInLoop`. -/
structure Phased (conn : StreamConnection) : Prop where
  others : ∀ thread, thread ≠ 1 → conn.threads thread = .idle
  one : ∀ p ∈ conn.given, p.1 = 1
  phase : (conn.state = .kConnected ∧ conn.threads 1 ≠ .queueShutdown ∧
      .shutdownInLoop ∉ conn.loop.inOrder) ∨
    (conn.state = .kDisconnecting ∧ conn.current 1 = none ∧ conn.threads 1 ≠ .setDisconnecting)
  behind : conn.loop.inOrder.Pairwise fun f g => f = .shutdownInLoop → g.message = none

variable {conn conn' : StreamConnection} {message : Bytes} {result : WriteResult}

theorem phased_init (highWaterMark : Nat) (writeCompleteCallback highWaterMarkCallback : Bool) :
    (init highWaterMark writeCompleteCallback highWaterMarkCallback).Phased where
  others := fun _ _ => rfl
  one := by simp [init]
  phase := .inl ⟨rfl, by simp [init], by simp [init]⟩
  behind := .nil

theorem Phased.queueCallbacks (h : conn.Phased) (cbs : List Callback) :
    (conn.queueCallbacks cbs).Phased where
  others := h.others
  one := h.one
  phase := by
    rw [StreamConnection.queueCallbacks, EventLoop.inOrder_queueAll]
    apply h.phase.imp_left
    rintro ⟨hstate, hthread, hnone⟩
    exact ⟨hstate, hthread, by simp [hnone]⟩
  behind := by
    rw [StreamConnection.queueCallbacks, EventLoop.inOrder_queueAll, List.pairwise_append]
    refine ⟨h.behind, ?_, fun f _ g hg _ => message_of_mem_callbacks hg⟩
    exact List.pairwise_of_forall_mem_list fun f _ g hg _ => message_of_mem_callbacks hg

theorem Phased.shutdownInLoop (h : conn.Phased) : conn.shutdownInLoop.Phased := by
  obtain ⟨shutdowns, heq⟩ := conn.shutdownInLoop_eq
  rw [heq]
  exact ⟨h.others, h.one, h.phase, h.behind⟩

theorem Phased.others_update (h : conn.Phased) (s : ThreadState) :
    ∀ thread, thread ≠ 1 → Function.update conn.threads 1 s thread = .idle := by
  intro thread hthread
  rw [Function.update_of_ne hthread]
  exact h.others thread hthread

theorem Phased.send (h : conn.Phased) (hnext : conn.send 1 message result = .ok conn') :
    conn'.Phased := by
  unfold StreamConnection.send at hnext
  split at hnext
  · rename_i hstate
    simp only [if_neg one_ne_zero] at hnext
    cases hnext
    refine ⟨h.others_update _, ?_, ?_, h.behind⟩
    · intro p hp
      obtain hp | hp := List.mem_append.mp hp
      · exact h.one p hp
      · rw [List.mem_singleton.mp hp]
    · obtain ⟨-, -, hnone⟩ | ⟨hother, -, -⟩ := h.phase
      · exact .inl ⟨hstate, by simp, hnone⟩
      · rw [hstate] at hother
        cases hother
  · cases hnext
    exact h

theorem Phased.shutdown (h : conn.Phased) : (conn.shutdown 1).Phased := by
  unfold StreamConnection.shutdown
  split
  · rename_i hstate
    refine ⟨h.others_update _, h.one, ?_, h.behind⟩
    obtain ⟨-, -, hnone⟩ | ⟨hother, -, -⟩ := h.phase
    · exact .inl ⟨hstate, by simp, hnone⟩
    · rw [hstate] at hother
      cases hother
  · exact h

theorem Phased.advance (h : conn.Phased) : (conn.advance 1).Phased := by
  unfold StreamConnection.advance
  split
  · exact h
  · rename_i message hthread
    obtain ⟨hstate, -, hnone⟩ | ⟨-, hcurrent, -⟩ := h.phase
    · refine ⟨h.others_update _, h.one, .inl ⟨hstate, by simp, by simp [hnone]⟩, ?_⟩
      simp only [EventLoop.inOrder_queueInLoop, List.pairwise_append]
      refine ⟨h.behind, List.pairwise_singleton _ _, ?_⟩
      intro f hf g _ hshutdown
      rw [hshutdown] at hf
      exact absurd hf hnone
    · rw [current, hthread] at hcurrent
      cases hcurrent
  · exact ⟨h.others_update _, h.one, .inr ⟨rfl, by simp [current, ThreadState.message], by simp⟩,
      h.behind⟩
  · rename_i hthread
    simp only [if_neg one_ne_zero]
    obtain ⟨-, hne, -⟩ | ⟨hstate, -, -⟩ := h.phase
    · exact absurd hthread hne
    · refine ⟨h.others_update _, h.one,
        .inr ⟨hstate, by simp [current, ThreadState.message], by simp⟩, ?_⟩
      simp only [EventLoop.inOrder_queueInLoop, List.pairwise_append]
      refine ⟨h.behind, List.pairwise_singleton _ _, ?_⟩
      intro f _ g hg _
      rw [List.mem_singleton.mp hg]
      rfl

theorem Phased.tail (h : conn.Phased) {f : ConnectionFunctor} {functors : List ConnectionFunctor}
    (hfunctors : conn.loop.functors = f :: functors) :
    Phased { conn with loop := { conn.loop with functors := functors } } ∧
      (f = .shutdownInLoop → conn.state = .kDisconnecting ∧
        waiting { conn with loop := { conn.loop with functors := functors } } = []) := by
  have hinOrder : conn.loop.inOrder
      = f :: EventLoop.inOrder { conn.loop with functors := functors } := by
    rw [EventLoop.inOrder, hfunctors]
    rfl
  have hphase := h.phase
  have hbehind := h.behind
  rw [hinOrder] at hphase hbehind
  rw [List.pairwise_cons] at hbehind
  refine ⟨⟨h.others, h.one, ?_, hbehind.2⟩, ?_⟩
  · apply hphase.imp_left
    rintro ⟨hstate, hthread, hnone⟩
    exact ⟨hstate, hthread, fun hmem => hnone (List.mem_cons_of_mem _ hmem)⟩
  · intro hf
    obtain ⟨-, -, hnone⟩ | ⟨hstate, -, -⟩ := hphase
    · exact absurd (hf ▸ List.mem_cons_self) hnone
    · refine ⟨hstate, ?_⟩
      rw [waiting, List.filterMap_eq_nil_iff]
      exact fun g hg => hbehind.1 g hg hf

theorem Phased.functor (h : conn.Phased) (hstate : conn.state ≠ .kDisconnected)
    (hnext : conn.functor result = .ok conn') : conn'.Phased := by
  unfold StreamConnection.functor at hnext
  split at hnext
  · cases hnext
    exact h
  · rename_i f functors hfunctors
    obtain ⟨htail, -⟩ := h.tail hfunctors
    cases f with
    | sendInLoop thread message =>
        obtain ⟨output, cbs, -, rfl⟩ := sendInLoop_eq_ok (by exact hstate) hnext
        apply Phased.queueCallbacks
        exact ⟨htail.others, htail.one, htail.phase, htail.behind⟩
    | shutdownInLoop =>
        cases hnext
        exact htail.shutdownInLoop
    | callback cb =>
        cases hnext
        exact htail

theorem Phased.wrote (h : conn.Phased) (output : Output) (cbs : List Callback) :
    ({ conn with output := output }.queueCallbacks cbs).Phased := by
  apply Phased.queueCallbacks
  exact ⟨h.others, h.one, h.phase, h.behind⟩

theorem Phased.handleWrite (h : conn.Phased) (hnext : conn.handleWrite result = .ok conn') :
    conn'.Phased := by
  obtain ⟨output, empty, cbs, -, rfl⟩ := handleWrite_eq_ok hnext
  split
  · exact (h.wrote output cbs).shutdownInLoop
  · exact h.wrote output cbs

theorem Phased.step (h : conn.Phased) (hstate : conn.state ≠ .kDisconnected) {event : Event}
    (hevent : event.OneThread) (hnext : conn.step event = .ok conn') : conn'.Phased := by
  cases event with
  | send thread message result =>
      obtain ⟨rfl, -, -⟩ := hevent
      simp only [StreamConnection.step] at hnext
      split at hnext
      · exact h.send hnext
      · cases hnext
        exact h
  | shutdown thread =>
      cases hevent
      cases hnext
      split
      · exact h.shutdown
      · exact h
  | advance thread =>
      cases hevent
      cases hnext
      exact h.advance
  | doPendingFunctors =>
      cases hnext
      split
      · refine ⟨h.others, h.one, ?_, ?_⟩
        · rw [EventLoop.inOrder_swapFunctors]
          exact h.phase
        · rw [EventLoop.inOrder_swapFunctors]
          exact h.behind
      · exact h
  | functor result =>
      simp only [StreamConnection.step] at hnext
      split at hnext
      · exact h.functor hstate hnext
      · cases hnext
        exact h
  | handleWrite result =>
      simp only [StreamConnection.step] at hnext
      split at hnext
      · exact h.handleWrite hnext
      · cases hnext
        exact h

/-! ### What a half-close finds -/

/-- Once the connection is shutting down, what `send` has taken is what has been executed and what
waits. -/
theorem given_eq (hi : conn.Intact) (hp : conn.Phased) (hcurrent : conn.current 1 = none) :
    (conn.given.map Prod.snd).flatten
      = (conn.executed.map Prod.snd).flatten ++ (conn.waiting.map Prod.snd).flatten := by
  have hone : ∀ l : List (Nat × Bytes), (∀ p ∈ l, p.1 = 1) → ofThread 1 l = l.map Prod.snd := by
    intro l hl
    rw [ofThread, List.filter_eq_self.mpr]
    simpa using hl
  have hexecuted : ∀ p ∈ conn.executed, p.1 = 1 := by
    intro p hmem
    exact hp.one p (hi.intact.inOrder.handled_given hmem)
  have hwaiting : ∀ p ∈ conn.waiting, p.1 = 1 := by
    intro p hmem
    exact hp.one p (hi.intact.inOrder.mem_given hmem)
  have horder := hi.intact.inOrder.order 1
  rw [hcurrent, Option.toList_none, List.append_nil, hone _ hp.one, hone _ hexecuted,
    hone _ hwaiting] at horder
  rw [horder, List.flatten_append]

theorem lossless_shutdownInLoop_iff (hi : conn.Intact) (hp : conn.Phased)
    (hcurrent : conn.current 1 = none) :
    conn.shutdownInLoop.Lossless ↔
      conn.Lossless ∧ (conn.output.isWriting = false → ∀ p ∈ conn.waiting, p.2 = []) := by
  unfold StreamConnection.shutdownInLoop
  cases hwriting : conn.output.isWriting with
  | true => simp
  | false =>
      have hempty : conn.output.outputBuffer.readable = [] := by
        by_contra hne
        have htrue := hi.intact.carries.writing_iff.mpr hne
        rw [hwriting] at htrue
        cases htrue
      have hwritten := hi.intact.carries.bytes
      rw [hempty, List.append_nil] at hwritten
      have hiff : conn.output.written = (conn.given.map Prod.snd).flatten ↔
          ∀ p ∈ conn.waiting, p.2 = [] := by
        rw [hwritten, given_eq hi hp hcurrent, List.self_eq_append_right, List.flatten_eq_nil_iff,
          List.forall_mem_map]
      simp only [Bool.false_eq_true, if_false, Lossless, List.forall_mem_append,
        List.forall_mem_singleton, hiff, forall_const]

theorem Phased.current_eq_none (h : conn.Phased) (hstate : conn.state = .kDisconnecting) :
    conn.current 1 = none := by
  obtain ⟨hother, -, -⟩ | ⟨-, hcurrent, -⟩ := h.phase
  · rw [hstate] at hother
    cases hother
  · exact hcurrent

/-- Behind `shutdownInLoop` nothing is queued, so the functor loses nothing. -/
theorem lossless_functor_iff (hi : conn.Intact) (hp : conn.Phased)
    (hnext : conn.functor result = .ok conn') : conn'.Lossless ↔ conn.Lossless := by
  unfold functor at hnext
  split at hnext
  · cases hnext
    rfl
  · rename_i f functors hfunctors
    have hwaiting := waiting_of_functors_eq_cons hfunctors
    obtain ⟨htail, hshutdown⟩ := hp.tail hfunctors
    cases f with
    | sendInLoop thread message =>
        obtain ⟨output, cbs, -, rfl⟩ := sendInLoop_eq_ok (by exact hi.state_ne) hnext
        rfl
    | shutdownInLoop =>
        cases hnext
        obtain ⟨hstate, hnone⟩ := hshutdown rfl
        have hintact : Intact { conn with loop := { conn.loop with functors := functors } } := by
          refine ⟨hi.state_ne, ?_⟩
          have hintact := hi.intact
          rwa [hwaiting] at hintact
        rw [lossless_shutdownInLoop_iff hintact htail (htail.current_eq_none hstate), hnone]
        simp [Lossless]
    | callback cb =>
        cases hnext
        rfl

theorem lossless_handleWrite_iff (hi : conn.Intact) (hp : conn.Phased)
    (hnext : conn.handleWrite result = .ok conn') :
    conn'.Lossless ↔ conn.Lossless ∧ ¬ (conn.state = .kDisconnecting ∧
      conn.output.Drains result ∧ ∃ p ∈ conn.waiting, p.2 ≠ []) := by
  obtain ⟨output, empty, cbs, hwrite, rfl⟩ := handleWrite_eq_ok hnext
  obtain ⟨hcarries, hdrains, hidle⟩ : output.Carries _ ∧
      (empty = true ↔ conn.output.Drains result) ∧ (empty = true → output.isWriting = false) :=
    (Output.handleWrite_holds hi.intact.carries).of_ok hwrite
  have hwrote := hp.wrote output cbs
  split
  · rename_i hdrained
    obtain ⟨hempty, hstate⟩ := hdrained
    rw [lossless_shutdownInLoop_iff (hi.wrote hcarries cbs) hwrote (hwrote.current_eq_none hstate),
      waiting_queueCallbacks]
    have hnone : (∀ p ∈ waiting { conn with output := output }, p.2 = []) ↔
        ¬ (conn.state = .kDisconnecting ∧ conn.output.Drains result ∧
          ∃ p ∈ conn.waiting, p.2 ≠ []) := by
      constructor
      · rintro hnone ⟨-, -, p, hmem, hne⟩
        exact hne (hnone p hmem)
      · intro hkeeps p hmem
        by_contra hne
        exact hkeeps ⟨hstate, hdrains.mp hempty, p, hmem, hne⟩
    apply and_congr Iff.rfl
    rw [← hnone]
    exact forall_prop_of_true (hidle hempty)
  · rename_i hopen
    refine (and_iff_left ?_).symm
    rintro ⟨hstate, hdrained, -⟩
    exact hopen ⟨hdrains.mpr hdrained, hstate⟩

theorem shutdowns_send (hnext : conn.send 1 message result = .ok conn') :
    conn'.shutdowns = conn.shutdowns := by
  unfold send at hnext
  split at hnext
  · simp only [if_neg one_ne_zero] at hnext
    cases hnext
    rfl
  · cases hnext
    rfl

theorem shutdowns_shutdown (conn : StreamConnection) (thread : Nat) :
    (conn.shutdown thread).shutdowns = conn.shutdowns := by
  unfold shutdown
  split
  · rfl
  · rfl

theorem shutdowns_advance (conn : StreamConnection) :
    (conn.advance 1).shutdowns = conn.shutdowns := by
  unfold advance
  split
  · rfl
  · rfl
  · rfl
  · rw [if_neg one_ne_zero]

theorem lossless_step_iff {event : Event} (hevent : event.OneThread) (hi : conn.Intact)
    (hp : conn.Phased) (hnext : conn.step event = .ok conn') :
    conn'.Lossless ↔ conn.Lossless ∧ conn.KeepsOpen event := by
  cases event with
  | send thread message result =>
      obtain ⟨rfl, -, -⟩ := hevent
      simp only [step] at hnext
      split at hnext
      · rw [Lossless, shutdowns_send hnext]
        exact (and_iff_left trivial).symm
      · cases hnext
        exact (and_iff_left trivial).symm
  | shutdown thread =>
      cases hnext
      split
      · rw [Lossless, shutdowns_shutdown]
        exact (and_iff_left trivial).symm
      · exact (and_iff_left trivial).symm
  | advance thread =>
      cases hevent
      cases hnext
      rw [Lossless, shutdowns_advance]
      exact (and_iff_left trivial).symm
  | doPendingFunctors =>
      cases hnext
      split
      · exact (and_iff_left trivial).symm
      · exact (and_iff_left trivial).symm
  | functor result =>
      simp only [step] at hnext
      split at hnext
      · rw [lossless_functor_iff hi hp hnext]
        exact (and_iff_left trivial).symm
      · cases hnext
        exact (and_iff_left trivial).symm
  | handleWrite result =>
      simp only [step] at hnext
      split at hnext
      · rename_i hready
        rw [lossless_handleWrite_iff hi hp hnext, KeepsOpen]
        simp only [hready.2, true_and]
      · rename_i hbusy
        cases hnext
        refine (and_iff_left ?_).symm
        rintro ⟨-, hbatch, -⟩
        exact hbusy ⟨hp.others 0 (by decide), hbatch⟩

/-- In every run with one sending thread, each half-close finds everything written if and only if
`handleWrite` never empties the buffer while the connection shuts down and messages are queued. -/
theorem lossless_run_iff {highWaterMark : Nat} {writeCompleteCallback highWaterMarkCallback : Bool}
    {events : List Event} {conn : StreamConnection}
    (hevents : ∀ event ∈ events, event.OneThread)
    (hrun : run step (init highWaterMark writeCompleteCallback highWaterMarkCallback) events
      = .ok conn) :
    conn.Lossless ↔ Always step KeepsOpen
      (init highWaterMark writeCompleteCallback highWaterMarkCallback) events := by
  have hinv : ∀ (conn : StreamConnection) event conn', event.OneThread →
      conn.Intact ∧ conn.Phased → conn.step event = .ok conn' → conn'.Intact ∧ conn'.Phased := by
    rintro conn event conn' hevent ⟨hi, hp⟩ hnext
    exact ⟨(hi.step_holds hevent.usual).of_ok hnext, hp.step hi.state_ne hevent hnext⟩
  have hstart : (init highWaterMark writeCompleteCallback highWaterMarkCallback).Lossless := by
    simp [Lossless, init]
  rw [iff_always hinv (fun _ _ _ hevent h => lossless_step_iff hevent h.1 h.2) hrun hevents
    ⟨⟨by simp [init], intact_init _ _ _⟩, phased_init _ _ _⟩]
  exact and_iff_right hstart

/-- The rest of the first message is written when the second one is queued, and the state is set
already. -/
def cutOff : List Event :=
  [.send 1 [1, 2] (.accepted 0), .advance 1, .doPendingFunctors, .functor (.accepted 1),
    .send 1 [3] (.accepted 0), .advance 1, .shutdown 1, .advance 1, .handleWrite (.accepted 1)]

/-- The same calls when the loop comes to the second message before it can write. -/
def graceful : List Event :=
  [.send 1 [1, 2] (.accepted 0), .advance 1, .doPendingFunctors, .functor (.accepted 1),
    .send 1 [3] (.accepted 0), .advance 1, .shutdown 1, .advance 1,
    .handleWrite (.failed .wouldBlock), .doPendingFunctors, .functor (.accepted 0), .advance 1,
    .handleWrite (.accepted 2), .doPendingFunctors, .functor (.accepted 0)]

theorem not_lossless_cutOff :
    (∀ event ∈ cutOff, event.OneThread) ∧
    ∃ conn, run step (init (64 * 1024 * 1024) false false) cutOff = .ok conn ∧ ¬ conn.Lossless := by
  constructor
  · simp [cutOff, Event.OneThread, BlocksAtMost, maxSize]
  · apply Holds.returns
    decide +kernel

theorem lossless_run_iff_graceful :
    ∃ conn, run step (init (64 * 1024 * 1024) false false) graceful = .ok conn ∧
      conn.shutdowns.length = 2 ∧ conn.Lossless := by
  obtain ⟨conn, hrun, hshutdowns⟩ : ∃ conn,
      run step (init (64 * 1024 * 1024) false false) graceful = .ok conn ∧
        conn.shutdowns.length = 2 := by
    apply Holds.returns
    decide +kernel
  have hevents : ∀ event ∈ graceful, event.OneThread := by
    simp [graceful, Event.OneThread, BlocksAtMost, maxSize]
  exact ⟨conn, hrun, hshutdowns, (lossless_run_iff hevents hrun).mpr (by decide +kernel)⟩

end ToyBasket.StreamConnection
