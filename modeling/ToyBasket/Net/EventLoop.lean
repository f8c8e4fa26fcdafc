import Mathlib.Data.List.Nodup
import Mathlib.Logic.Function.Basic

/-!
# The functors of an event loop

`queueInLoop` and `doPendingFunctors` of `EventLoop.cpp`. A batch of functors is taken all at once
and then run one by one, while more of them may be queued.
-/

namespace ToyBasket

/-- `functors` is what is left of the batch that `doPendingFunctors` runs. -/
structure EventLoop (F : Type) where
  pendingFunctors : List F
  functors : List F
deriving DecidableEq, Repr

namespace EventLoop

variable {F : Type}

def init : EventLoop F where
  pendingFunctors := []
  functors := []

def queueInLoop (loop : EventLoop F) (cb : F) : EventLoop F :=
  { loop with pendingFunctors := loop.pendingFunctors ++ [cb] }

def queueAll (loop : EventLoop F) (cbs : List F) : EventLoop F := cbs.foldl queueInLoop loop

/-- `functors.swap(pendingFunctors_)`. -/
def swapFunctors (loop : EventLoop F) : EventLoop F :=
  if loop.functors = [] then { pendingFunctors := [], functors := loop.pendingFunctors } else loop

/-- The functors still to be run, in that order. -/
def inOrder (loop : EventLoop F) : List F := loop.functors ++ loop.pendingFunctors

@[simp]
theorem inOrder_init : (init : EventLoop F).inOrder = [] := rfl

@[simp]
theorem inOrder_queueInLoop (loop : EventLoop F) (cb : F) :
    (loop.queueInLoop cb).inOrder = loop.inOrder ++ [cb] :=
  (List.append_assoc _ _ _).symm

@[simp]
theorem inOrder_queueAll (loop : EventLoop F) (cbs : List F) :
    (loop.queueAll cbs).inOrder = loop.inOrder ++ cbs := by
  induction cbs generalizing loop with
  | nil => simp [queueAll]
  | cons cb cbs ih =>
      have hqueue : loop.queueAll (cb :: cbs) = (loop.queueInLoop cb).queueAll cbs := rfl
      rw [hqueue, ih, inOrder_queueInLoop, List.append_assoc, List.singleton_append]

@[simp]
theorem inOrder_swapFunctors (loop : EventLoop F) : loop.swapFunctors.inOrder = loop.inOrder := by
  unfold swapFunctors
  split
  · rename_i hbatch
    simp [inOrder, hbatch]
  · rfl

section FilterMap

variable {β : Type} {message : F → Option β} {loop : EventLoop F}

theorem filterMap_inOrder_queueAll {cbs : List F} (h : ∀ cb ∈ cbs, message cb = none) :
    (loop.queueAll cbs).inOrder.filterMap message = loop.inOrder.filterMap message := by
  rw [inOrder_queueAll, List.filterMap_append, List.filterMap_eq_nil_iff.mpr h, List.append_nil]

theorem filterMap_inOrder_of_cons {cb : F} {functors : List F}
    (h : loop.functors = cb :: functors) :
    loop.inOrder.filterMap message = (message cb).toList
      ++ (inOrder { loop with functors := functors }).filterMap message := by
  simp only [inOrder, h, List.cons_append, List.filterMap_cons]
  cases message cb with
  | none => rfl
  | some value => rfl

end FilterMap

end EventLoop

/-! ### The messages of several threads

The loop is thread 0. It handles its own messages at once; another thread hands over one at a time,
and the loop handles them when it comes to them.
-/

section Threads

variable {α : Type} {given handled waiting : List (Nat × α)} {current : Nat → Option α}
  {thread : Nat} {message : α}

/-- What a thread has to do with, in order. -/
def ofThread (thread : Nat) (messages : List (Nat × α)) : List α :=
  (messages.filter fun p => p.1 = thread).map Prod.snd

@[simp]
theorem ofThread_append (thread : Nat) (messages messages' : List (Nat × α)) :
    ofThread thread (messages ++ messages')
      = ofThread thread messages ++ ofThread thread messages' := by
  rw [ofThread, List.filter_append, List.map_append]
  rfl

@[simp]
theorem ofThread_singleton_self (thread : Nat) (message : α) :
    ofThread thread [(thread, message)] = [message] := by
  simp [ofThread]

theorem ofThread_singleton_of_ne {other : Nat} (h : other ≠ thread) (message : α) :
    ofThread other [(thread, message)] = [] := by
  simp [ofThread, h.symm]

/-- Of each thread the messages given so far are, in order, those handled, those waiting and the one
the thread is handing over. -/
structure InOrder (given handled waiting : List (Nat × α)) (current : Nat → Option α) : Prop where
  order : ∀ thread, ofThread thread given
    = ofThread thread handled ++ ofThread thread waiting ++ (current thread).toList
  loop_current : current 0 = none
  loop_waiting : ofThread 0 waiting = []

theorem inOrder_nil : InOrder ([] : List (Nat × α)) [] [] fun _ => none where
  order := fun _ => rfl
  loop_current := rfl
  loop_waiting := rfl

theorem mem_ofThread {messages : List (Nat × α)} :
    message ∈ ofThread thread messages ↔ (thread, message) ∈ messages := by
  simp [ofThread]

theorem InOrder.mem_given (h : InOrder given handled waiting current)
    (hmem : (thread, message) ∈ waiting) : (thread, message) ∈ given := by
  rw [← mem_ofThread, h.order]
  exact List.mem_append_left _ (List.mem_append_right _ (mem_ofThread.mpr hmem))

theorem InOrder.handled_given (h : InOrder given handled waiting current)
    (hmem : (thread, message) ∈ handled) : (thread, message) ∈ given := by
  rw [← mem_ofThread, h.order]
  exact List.mem_append_left _ (List.mem_append_left _ (mem_ofThread.mpr hmem))

/-- The loop handles a message of its own. -/
theorem InOrder.handleOwn (h : InOrder given handled waiting current) (message : α) :
    InOrder (given ++ [(0, message)]) (handled ++ [(0, message)]) waiting current where
  order := by
    intro thread
    rw [ofThread_append, ofThread_append, h.order]
    by_cases hloop : thread = 0
    · rw [hloop, h.loop_waiting, h.loop_current]
      simp
    · rw [ofThread_singleton_of_ne hloop]
      simp
  loop_current := h.loop_current
  loop_waiting := h.loop_waiting

theorem InOrder.give (h : InOrder given handled waiting current) (hthread : thread ≠ 0)
    (hidle : current thread = none) (message : α) :
    InOrder (given ++ [(thread, message)]) handled waiting
      (Function.update current thread (some message)) where
  order := by
    intro other
    rw [ofThread_append, h.order]
    by_cases hsame : other = thread
    · rw [hsame, Function.update_self, hidle]
      simp
    · rw [ofThread_singleton_of_ne hsame, Function.update_of_ne hsame, List.append_nil]
  loop_current := by rw [Function.update_of_ne hthread.symm, h.loop_current]
  loop_waiting := h.loop_waiting

theorem InOrder.queue (h : InOrder given handled waiting current)
    (hcurrent : current thread = some message) :
    InOrder given handled (waiting ++ [(thread, message)])
      (Function.update current thread none) := by
  have hthread : thread ≠ 0 := by
    rintro rfl
    rw [h.loop_current] at hcurrent
    cases hcurrent
  refine ⟨?_, ?_, ?_⟩
  · intro other
    rw [ofThread_append, h.order]
    by_cases hsame : other = thread
    · rw [hsame, Function.update_self, hcurrent]
      simp
    · rw [ofThread_singleton_of_ne hsame, Function.update_of_ne hsame, List.append_nil]
  · rw [Function.update_of_ne hthread.symm, h.loop_current]
  · rw [ofThread_append, h.loop_waiting, ofThread_singleton_of_ne hthread.symm, List.append_nil]

/-- The loop handles the next message that waits. -/
theorem InOrder.handle (h : InOrder given handled ((thread, message) :: waiting) current) :
    InOrder given (handled ++ [(thread, message)]) waiting current := by
  have hcons : ∀ other, ofThread other ((thread, message) :: waiting)
      = ofThread other [(thread, message)] ++ ofThread other waiting := by
    intro other
    rw [← ofThread_append, List.singleton_append]
  refine ⟨?_, h.loop_current, ?_⟩
  · intro other
    simp only [h.order, hcons, ofThread_append, List.append_assoc]
  · have hnone := h.loop_waiting
    rw [hcons, List.append_eq_nil_iff] at hnone
    exact hnone.2

theorem ofThread_map {β : Type} (f : β → α) (thread : Nat) (labels : List (Nat × β)) :
    ofThread thread (labels.map (Prod.map id f)) = (ofThread thread labels).map f := by
  rw [ofThread, ofThread, List.filter_map, List.map_map, List.map_map]
  rfl

theorem ofThread_eq_map {messages : List (Nat × α)} (h : ∀ p ∈ messages, p.1 = thread) :
    ofThread thread messages = messages.map Prod.snd := by
  have hall : messages.filter (fun p => p.1 = thread) = messages := by
    rw [List.filter_eq_self]
    exact fun p hp => decide_eq_true (h p hp)
  rw [ofThread, hall]

theorem InOrder.handled_prefix (h : InOrder given handled waiting current) (thread : Nat) :
    ofThread thread handled <+: ofThread thread given := by
  rw [h.order, List.append_assoc]
  exact List.prefix_append _ _

/-- What the messages stand for: those given for `labels`, those handled for `done`. -/
structure Labelled {β : Type} (f : β → α) (given handled : List (Nat × α))
    (labels done : List (Nat × β)) : Prop where
  given_eq : given = labels.map (Prod.map id f)
  handled_eq : handled = done.map (Prod.map id f)
  order : ∀ thread, ofThread thread done <+: ofThread thread labels

section Labelled

variable {β : Type} {f : β → α} {labels done : List (Nat × β)}

theorem labelled_nil : Labelled f [] [] [] [] where
  given_eq := rfl
  handled_eq := rfl
  order := fun _ => List.prefix_refl _

theorem Labelled.give (h : Labelled f given handled labels done) (thread : Nat) (label : β) :
    Labelled f (given ++ [(thread, f label)]) handled (labels ++ [(thread, label)]) done where
  given_eq := by
    rw [h.given_eq, List.map_append]
    rfl
  handled_eq := h.handled_eq
  order := by
    intro other
    rw [ofThread_append]
    exact (h.order other).trans (List.prefix_append _ _)

/-- The next message of a thread is handled, and it stands for the next label of the thread. -/
theorem Labelled.handle (h : Labelled f given handled labels done)
    (hnext : ofThread thread (handled ++ [(thread, message)]) <+: ofThread thread given) :
    ∃ label, Labelled f given (handled ++ [(thread, message)]) labels
      (done ++ [(thread, label)]) := by
  obtain ⟨rest, hrest⟩ := h.order thread
  rw [ofThread_append, ofThread_singleton_self, h.given_eq, h.handled_eq, ofThread_map,
    ofThread_map, ← hrest, List.map_append, List.prefix_append_right_inj] at hnext
  cases rest with
  | nil => simp at hnext
  | cons label rest =>
      rw [List.map_cons, List.cons_prefix_cons] at hnext
      obtain ⟨rfl, -⟩ := hnext
      refine ⟨label, h.given_eq, ?_, ?_⟩
      · rw [h.handled_eq, List.map_append]
        rfl
      · intro other
        rw [ofThread_append]
        by_cases hsame : other = thread
        · subst hsame
          rw [ofThread_singleton_self, ← hrest, List.prefix_append_right_inj]
          exact ⟨rest, rfl⟩
        · rw [ofThread_singleton_of_ne hsame, List.append_nil]
          exact h.order other

theorem Labelled.handleAll {more : List (Nat × α)} (h : Labelled f given handled labels done)
    (hnext : ∀ thread, ofThread thread (handled ++ more) <+: ofThread thread given) :
    ∃ new, Labelled f given (handled ++ more) labels (done ++ new) := by
  induction more generalizing handled done with
  | nil => exact ⟨[], by rwa [List.append_nil, List.append_nil]⟩
  | cons p more ih =>
      have hsplit : handled ++ p :: more = handled ++ [p] ++ more := by simp
      have hfirst : ofThread p.1 (handled ++ [p]) <+: ofThread p.1 given := by
        refine .trans ?_ (hnext p.1)
        rw [hsplit, ofThread_append p.1 (handled ++ [p]) more]
        exact List.prefix_append _ _
      obtain ⟨label, hlabel⟩ := h.handle hfirst
      rw [hsplit] at hnext ⊢
      obtain ⟨new, hnew⟩ := ih hlabel hnext
      exact ⟨(p.1, label) :: new, by simpa using hnew⟩

theorem count_ofThread [DecidableEq β] (thread : Nat) (label : β) (labels : List (Nat × β)) :
    (ofThread thread labels).count label = labels.count (thread, label) := by
  induction labels with
  | nil => rfl
  | cons p labels ih =>
      have hcons : ofThread thread (p :: labels)
          = ofThread thread [p] ++ ofThread thread labels := by
        rw [← ofThread_append, List.singleton_append]
      rw [hcons, List.count_append, ih, List.count_cons, Nat.add_comm]
      obtain ⟨other, label'⟩ := p
      by_cases hsame : other = thread
      · subst hsame
        simp [List.count_cons]
      · rw [ofThread_singleton_of_ne (Ne.symm hsame)]
        simp [hsame]

theorem Labelled.subset (h : Labelled f given handled labels done) : done ⊆ labels := by
  intro p hp
  rw [← mem_ofThread] at hp ⊢
  exact (h.order p.1).subset hp

theorem Labelled.nodup (h : Labelled f given handled labels done) (hlabels : labels.Nodup) :
    done.Nodup := by
  classical
  rw [List.nodup_iff_count_le_one] at hlabels ⊢
  intro p
  calc
    done.count p = (ofThread p.1 done).count p.2 := (count_ofThread p.1 p.2 done).symm
    _ ≤ (ofThread p.1 labels).count p.2 := (h.order p.1).sublist.count_le p.2
    _ = labels.count p := count_ofThread p.1 p.2 labels
    _ ≤ 1 := hlabels p

end Labelled

end Threads

end ToyBasket
