import ToyBasket.Net.Link
import ToyBasket.Net.Shutdown

/-!
# The end of a stream

`shutdown` at one end and `handleClose` at the other. When the socket has been half-closed and all
that it had accepted has been read, the next read returns 0.
-/

namespace ToyBasket

open Words Outcome Machine

namespace StreamConnection

variable {conn conn' : StreamConnection} {result : WriteResult}

/-- What `send` has taken. -/
def takenBytes (conn : StreamConnection) : Bytes := (conn.given.map Prod.snd).flatten

/-- A step only half-closes a connection that is shutting down, which takes nothing any more. -/
structure Advances (conn conn' : StreamConnection) : Prop where
  written : conn.output.written <+: conn'.output.written
  given : conn.state = .kDisconnecting → conn'.given = conn.given
  state : conn.state = .kDisconnecting → conn'.state = .kDisconnecting
  shutdowns : conn'.shutdowns = conn.shutdowns ∨
    (conn'.state = .kDisconnecting ∧
      conn'.shutdowns = conn.shutdowns ++ [(conn'.output.written, conn'.takenBytes)])

theorem Advances.of_grows (h : conn.Grows conn') (hstate : conn'.state = conn.state)
    (hshutdowns : conn'.shutdowns = conn.shutdowns) : conn.Advances conn' where
  written := h.written
  given := fun _ => h.given
  state := fun hdisconnecting => hstate.trans hdisconnecting
  shutdowns := .inl hshutdowns

theorem advances_shutdownInLoop (conn : StreamConnection) (hstate : conn.state = .kDisconnecting) :
    conn.Advances conn.shutdownInLoop := by
  have hgrows := grows_shutdownInLoop conn
  unfold shutdownInLoop at hgrows ⊢
  split
  · exact .of_grows (.refl conn) rfl rfl
  · exact ⟨List.prefix_refl _, fun _ => rfl, fun _ => hstate, .inr ⟨hstate, rfl⟩⟩

theorem advances_send {message : Bytes} (hnext : conn.send 1 message result = .ok conn') :
    conn.Advances conn' := by
  have hshutdowns := shutdowns_send hnext
  unfold send at hnext
  split at hnext
  · rename_i hstate
    simp only [if_neg one_ne_zero] at hnext
    cases hnext
    refine ⟨List.prefix_refl _, ?_, ?_, .inl rfl⟩ <;>
      · intro hdisconnecting
        rw [hstate] at hdisconnecting
        cases hdisconnecting
  · cases hnext
    exact .of_grows (.refl conn) rfl rfl

theorem advances_functor (hi : conn.Intact) (hp : conn.Phased)
    (hnext : conn.functor result = .ok conn') : conn.Advances conn' := by
  have hgrows := grows_functor hnext
  unfold functor at hnext
  split at hnext
  · cases hnext
    exact .of_grows (.refl conn) rfl rfl
  · rename_i f functors hfunctors
    obtain ⟨-, hshutdown⟩ := hp.tail hfunctors
    cases f with
    | sendInLoop thread message =>
        obtain ⟨output, cbs, -, rfl⟩ := sendInLoop_eq_ok (by exact hi.state_ne) hnext
        exact .of_grows hgrows rfl rfl
    | shutdownInLoop =>
        cases hnext
        have hadvances := advances_shutdownInLoop
          { conn with loop := { conn.loop with functors := functors } } (hshutdown rfl).1
        exact ⟨hadvances.written, hadvances.given, hadvances.state, hadvances.shutdowns⟩
    | callback cb =>
        cases hnext
        exact .of_grows hgrows rfl rfl

theorem advances_handleWrite (hnext : conn.handleWrite result = .ok conn') :
    conn.Advances conn' := by
  obtain ⟨output, empty, cbs, hwrite, rfl⟩ := handleWrite_eq_ok hnext
  have hwritten := Output.written_handleWrite hwrite
  split
  · rename_i hdrained
    have hadvances := advances_shutdownInLoop
      ({ conn with output := output }.queueCallbacks cbs) hdrained.2
    exact ⟨hwritten.trans hadvances.written, hadvances.given, hadvances.state, hadvances.shutdowns⟩
  · exact .of_grows ⟨rfl, List.prefix_refl _, hwritten⟩ rfl rfl

theorem advances_step {event : Event} (hevent : event.OneThread) (hi : conn.Intact)
    (hp : conn.Phased) (hnext : conn.step event = .ok conn') : conn.Advances conn' := by
  have hrefl : conn.Advances conn := .of_grows (.refl conn) rfl rfl
  cases event with
  | send thread message result =>
      obtain ⟨rfl, -, -⟩ := hevent
      simp only [step] at hnext
      split at hnext
      · exact advances_send hnext
      · cases hnext
        exact hrefl
  | shutdown thread =>
      cases hnext
      split
      · unfold shutdown
        split
        · exact ⟨List.prefix_refl _, fun _ => rfl, id, .inl rfl⟩
        · exact hrefl
      · exact hrefl
  | advance thread =>
      cases hevent
      cases hnext
      have hgrows := grows_advance conn 1
      refine ⟨hgrows.written, fun _ => hgrows.given, ?_, .inl (shutdowns_advance conn)⟩
      intro hstate
      unfold advance
      split
      · exact hstate
      · exact hstate
      · rfl
      · rw [if_neg one_ne_zero]
        exact hstate
  | doPendingFunctors =>
      cases hnext
      split
      · exact ⟨List.prefix_refl _, fun _ => rfl, id, .inl rfl⟩
      · exact hrefl
  | functor result =>
      simp only [step] at hnext
      split at hnext
      · exact advances_functor hi hp hnext
      · cases hnext
        exact hrefl
  | handleWrite result =>
      simp only [step] at hnext
      split at hnext
      · exact advances_handleWrite hnext
      · cases hnext
        exact hrefl

/-- What each half-close found: a beginning of what is written since, and of what `send` has taken
for good. -/
structure HalfClosed (conn : StreamConnection) : Prop where
  state : conn.shutdowns ≠ [] → conn.state = .kDisconnecting
  written : ∀ p ∈ conn.shutdowns, p.1 <+: conn.output.written
  taken : ∀ p ∈ conn.shutdowns, p.2 = conn.takenBytes
  ordered : conn.shutdowns.Pairwise fun p q => p.1 <+: q.1

theorem written_prefix_takenBytes (hi : conn.Intact) (hp : conn.Phased)
    (hstate : conn.state = .kDisconnecting) : conn.output.written <+: conn.takenBytes := by
  rw [takenBytes, given_eq hi hp (hp.current_eq_none hstate), ← hi.intact.carries.bytes,
    List.append_assoc]
  exact List.prefix_append _ _

theorem HalfClosed.advance (h : conn.HalfClosed) (hadvances : conn.Advances conn') :
    conn'.HalfClosed := by
  have hold : ∀ p ∈ conn.shutdowns, p.1 <+: conn'.output.written ∧ p.2 = conn'.takenBytes := by
    intro p hmem
    have hstate := h.state (List.ne_nil_of_mem hmem)
    rw [takenBytes, hadvances.given hstate]
    exact ⟨(h.written p hmem).trans hadvances.written, h.taken p hmem⟩
  rcases hadvances.shutdowns with hsame | ⟨hstate, hmore⟩
  · rw [← hsame] at hold
    refine ⟨?_, fun p hmem => (hold p hmem).1, fun p hmem => (hold p hmem).2, ?_⟩
    · intro hne
      rw [hsame] at hne
      exact hadvances.state (h.state hne)
    · rw [hsame]
      exact h.ordered
  · refine ⟨fun _ => hstate, ?_, ?_, ?_⟩
    · rw [hmore, List.forall_mem_append, List.forall_mem_singleton]
      exact ⟨fun p hmem => (hold p hmem).1, List.prefix_refl _⟩
    · rw [hmore, List.forall_mem_append, List.forall_mem_singleton]
      exact ⟨fun p hmem => (hold p hmem).2, rfl⟩
    · rw [hmore, List.pairwise_append]
      refine ⟨h.ordered, List.pairwise_singleton _ _, ?_⟩
      intro p hmem q hq
      rw [List.mem_singleton.mp hq]
      exact (hold p hmem).1

/-- The bytes that the other end can see: a socket that is half-closed sends no more. -/
def stream (conn : StreamConnection) : Bytes :=
  match conn.shutdowns with
  | [] => conn.output.written
  | (written, _) :: _ => written

theorem HalfClosed.stream_written (h : conn.HalfClosed) :
    conn.stream <+: conn.output.written := by
  unfold stream
  split
  · exact List.prefix_refl _
  · rename_i written taken shutdowns hshutdowns
    exact h.written (written, taken) (by rw [hshutdowns]; exact List.mem_cons_self)

theorem Advances.stream (h : conn.Advances conn') :
    conn.stream <+: conn'.stream ∧ (conn.shutdowns ≠ [] → conn'.stream = conn.stream) := by
  unfold StreamConnection.stream
  rcases h.shutdowns with hsame | ⟨-, hmore⟩
  · rw [hsame]
    split
    · rename_i hnone
      exact ⟨h.written, fun hne => absurd hnone hne⟩
    · exact ⟨List.prefix_refl _, fun _ => rfl⟩
  · rw [hmore]
    cases conn.shutdowns with
    | nil => exact ⟨h.written, fun hne => absurd rfl hne⟩
    | cons p shutdowns => exact ⟨List.prefix_refl _, fun _ => rfl⟩

/-- The first half-close decides: no later one finds less than it. -/
theorem HalfClosed.stream_eq_iff (h : conn.HalfClosed) (hi : conn.Intact) (hp : conn.Phased)
    (hne : conn.shutdowns ≠ []) :
    conn.stream <+: conn.takenBytes ∧ (conn.stream = conn.takenBytes ↔ conn.Lossless) := by
  have hstate := h.state hne
  have hwritten := written_prefix_takenBytes hi hp hstate
  refine ⟨h.stream_written.trans hwritten, ?_⟩
  obtain ⟨first, shutdowns, hshutdowns⟩ := List.exists_cons_of_ne_nil hne
  have hfirst : conn.stream = first.1 := by
    rw [stream, hshutdowns]
  have hordered := h.ordered
  have htaken := h.taken
  have hbehind := h.written
  rw [hshutdowns] at hordered htaken hbehind
  rw [hfirst, Lossless, hshutdowns]
  constructor
  · intro hall p hmem
    have hle : first.1 <+: p.1 := by
      rcases List.mem_cons.mp hmem with rfl | hlater
      · exact List.prefix_refl _
      · exact (List.pairwise_cons.mp hordered).1 p hlater
    have hge : p.1 <+: first.1 := by
      rw [hall]
      exact (hbehind p hmem).trans hwritten
    calc p.1 = first.1 := hge.eq_of_length_le hle.length_le
      _ = conn.takenBytes := hall
      _ = p.2 := (htaken p hmem).symm
  · intro hlossless
    calc first.1 = first.2 := hlossless first List.mem_cons_self
      _ = conn.takenBytes := htaken first List.mem_cons_self

end StreamConnection

/-! ### The other end -/

theorem Link.sender_of_handleRead {link link' : Link} {n : Nat}
    (hnext : link.step (.handleRead n) = .ok link') : link'.sender = link.sender := by
  rw [step] at hnext
  split at hnext
  · obtain ⟨inputBuffer, -, hnext⟩ := bind_eq_ok.mp hnext
    cases hnext
    rfl
  · cases hnext
    rfl

theorem Link.sender_of_retrieve {link link' : Link} {len : Nat}
    (hnext : link.step (.retrieve len) = .ok link') : link'.sender = link.sender := by
  rw [step] at hnext
  split at hnext
  · obtain ⟨inputBuffer, -, hnext⟩ := bind_eq_ok.mp hnext
    cases hnext
    rfl
  · cases hnext
    rfl

/-- A link whose reading end is open until `readFd` has returned 0 and `handleClose` was called. -/
structure EndOfStream where
  link : Link
  closed : Bool

namespace EndOfStream

inductive Event where
  | link (event : Link.Event)
  | handleClose

def Event.OneThread : Event → Prop
  | .link (.sender event) => event.OneThread
  | .link (.handleRead _) | .link (.retrieve _) | .handleClose => True

def init (highWaterMark : Nat) (writeCompleteCallback highWaterMarkCallback : Bool) :
    EndOfStream where
  link := Link.init highWaterMark writeCompleteCallback highWaterMarkCallback
  closed := false

/-- `readFd` finds bytes only before the end of the stream. -/
def CanRead (conn : EndOfStream) (n : Nat) : Prop :=
  conn.closed = false ∧
    conn.link.arrived + (conn.link.chunk n).length ≤ conn.link.sender.stream.length

/-- `readFd` returns 0 when the socket was half-closed and all that it had accepted was read. -/
def AtEnd (conn : EndOfStream) : Prop :=
  conn.link.sender.shutdowns ≠ [] ∧ conn.link.arrived = conn.link.sender.stream.length

instance (conn : EndOfStream) (n : Nat) : Decidable (conn.CanRead n) :=
  inferInstanceAs (Decidable (_ ∧ _))

instance (conn : EndOfStream) : Decidable conn.AtEnd :=
  inferInstanceAs (Decidable (_ ∧ _))

def step (conn : EndOfStream) : Event → Except Fault EndOfStream
  | .link (.handleRead n) =>
      if conn.CanRead n then
        do return { conn with link := ← conn.link.step (.handleRead n) }
      else
        .ok conn
  | .link event => do return { conn with link := ← conn.link.step event }
  | .handleClose => .ok (if conn.AtEnd then { conn with closed := true } else conn)

/-- What has reached the input buffer, and of it what the message callback has taken. -/
def received (conn : EndOfStream) : Bytes := conn.link.taken ++ conn.link.inputBuffer.readable

def KeepsOpen (conn : EndOfStream) : Event → Prop
  | .link (.sender event) => conn.link.sender.KeepsOpen event
  | _ => True

instance (conn : EndOfStream) : DecidablePred conn.KeepsOpen
  | .link (.sender event) => inferInstanceAs (Decidable (conn.link.sender.KeepsOpen event))
  | .link (.handleRead _) | .link (.retrieve _) | .handleClose => .isTrue trivial

structure Ordered (conn : EndOfStream) : Prop where
  linked : conn.link.Linked
  phased : conn.link.sender.Phased
  halfClosed : conn.link.sender.HalfClosed
  arrived_le : conn.link.arrived ≤ conn.link.sender.stream.length
  atEnd : conn.closed = true → conn.AtEnd

variable {conn conn' : EndOfStream}

theorem ordered_init (highWaterMark : Nat) (writeCompleteCallback highWaterMarkCallback : Bool) :
    (init highWaterMark writeCompleteCallback highWaterMarkCallback).Ordered where
  linked := Link.linked_init _ _ _
  phased := StreamConnection.phased_init _ _ _
  halfClosed := by
    constructor <;> simp [init, Link.init, StreamConnection.init]
  arrived_le := Nat.zero_le _
  atEnd := by simp [init]

theorem Ordered.sender (h : conn.Ordered) {event : StreamConnection.Event}
    (hevent : event.OneThread) {sender : StreamConnection}
    (hnext : conn.link.sender.step event = .ok sender) :
    Ordered { conn with link := { conn.link with sender := sender } } := by
  have hi := h.linked.intact
  have hadvances := StreamConnection.advances_step hevent hi h.phased hnext
  obtain ⟨hgrown, hfixed⟩ := hadvances.stream
  have hlinked : Holds (conn.link.step (.sender event)) Link.Linked _ :=
    h.linked.sender_holds hevent.usual
  refine ⟨hlinked.of_ok (by rw [Link.step, hnext, ok_bind]; rfl),
    h.phased.step hi.state_ne hevent hnext, h.halfClosed.advance hadvances,
    h.arrived_le.trans hgrown.length_le, ?_⟩
  intro hclosed
  obtain ⟨hne, hall⟩ := h.atEnd hclosed
  refine ⟨?_, by rw [hfixed hne]; exact hall⟩
  rcases hadvances.shutdowns with hsame | ⟨-, hmore⟩
  · rw [hsame]
    exact hne
  · rw [hmore]
    exact List.append_ne_nil_of_left_ne_nil hne _

theorem Ordered.handleRead (h : conn.Ordered) {n : Nat} (hread : conn.CanRead n) {link : Link}
    (hnext : conn.link.step (.handleRead n) = .ok link) :
    Ordered { conn with link := link } := by
  have hlinked : Holds (conn.link.step (.handleRead n)) Link.Linked _ :=
    h.linked.step_holds trivial
  have hopen : conn.closed ≠ true := by simp [hread.1]
  have hlinked := hlinked.of_ok hnext
  rw [Link.step] at hnext
  split at hnext
  · rw [Link.handleRead] at hnext
    obtain ⟨inputBuffer, -, hnext⟩ := bind_eq_ok.mp hnext
    cases hnext
    exact ⟨hlinked, h.phased, h.halfClosed, hread.2, fun hclosed => absurd hclosed hopen⟩
  · cases hnext
    exact h

theorem Ordered.retrieve (h : conn.Ordered) {len : Nat} {link : Link}
    (hnext : conn.link.step (.retrieve len) = .ok link) : Ordered { conn with link := link } := by
  have hlinked : Holds (conn.link.step (.retrieve len)) Link.Linked _ :=
    h.linked.step_holds trivial
  have hlinked := hlinked.of_ok hnext
  rw [Link.step] at hnext
  split at hnext
  · rw [Link.retrieve] at hnext
    obtain ⟨inputBuffer, -, hnext⟩ := bind_eq_ok.mp hnext
    cases hnext
    exact ⟨hlinked, h.phased, h.halfClosed, h.arrived_le, h.atEnd⟩
  · cases hnext
    exact h

theorem Ordered.step (h : conn.Ordered) {event : Event} (hevent : event.OneThread)
    (hnext : conn.step event = .ok conn') : conn'.Ordered := by
  cases event with
  | link event =>
      cases event with
      | sender event =>
          obtain ⟨link, hlink, hnext⟩ := bind_eq_ok.mp hnext
          obtain ⟨sender, hsender, hlink⟩ := bind_eq_ok.mp hlink
          cases hlink
          cases hnext
          exact h.sender hevent hsender
      | handleRead n =>
          simp only [EndOfStream.step] at hnext
          split at hnext
          · rename_i hread
            obtain ⟨link, hlink, hnext⟩ := bind_eq_ok.mp hnext
            cases hnext
            exact h.handleRead hread hlink
          · cases hnext
            exact h
      | retrieve len =>
          obtain ⟨link, hlink, hnext⟩ := bind_eq_ok.mp hnext
          cases hnext
          exact h.retrieve hlink
  | handleClose =>
      cases hnext
      split
      · rename_i hend
        exact ⟨h.linked, h.phased, h.halfClosed, h.arrived_le, fun _ => hend⟩
      · exact h

theorem lossless_step_iff (h : conn.Ordered) {event : Event} (hevent : event.OneThread)
    (hnext : conn.step event = .ok conn') :
    conn'.link.sender.Lossless ↔ conn.link.sender.Lossless ∧ conn.KeepsOpen event := by
  cases event with
  | link event =>
      cases event with
      | sender event =>
          obtain ⟨link, hlink, hnext⟩ := bind_eq_ok.mp hnext
          obtain ⟨sender, hsender, hlink⟩ := bind_eq_ok.mp hlink
          cases hlink
          cases hnext
          exact StreamConnection.lossless_step_iff hevent h.linked.intact h.phased hsender
      | handleRead n =>
          simp only [EndOfStream.step] at hnext
          split at hnext
          · obtain ⟨link, hlink, hnext⟩ := bind_eq_ok.mp hnext
            cases hnext
            rw [Link.sender_of_handleRead hlink]
            exact (and_iff_left trivial).symm
          · cases hnext
            exact (and_iff_left trivial).symm
      | retrieve len =>
          obtain ⟨link, hlink, hnext⟩ := bind_eq_ok.mp hnext
          cases hnext
          rw [Link.sender_of_retrieve hlink]
          exact (and_iff_left trivial).symm
  | handleClose =>
      cases hnext
      split
      · exact (and_iff_left trivial).symm
      · exact (and_iff_left trivial).symm

theorem Ordered.received_eq (h : conn.Ordered) (hclosed : conn.closed = true) :
    conn.received = conn.link.sender.stream := by
  obtain ⟨more, hmore⟩ := h.halfClosed.stream_written
  rw [received, h.linked.bytes, (h.atEnd hclosed).2, ← hmore, List.take_left]

/-- In every run in which one thread, not that of the loop, makes all calls of `send` and
`shutdown` and writes fail with `EAGAIN` only: when the reading end has closed it has received a
beginning of what `send` has taken; and all of it, if and only if `handleWrite` has never emptied
the buffer while the connection was shutting down and messages were queued. -/
theorem received_closed {highWaterMark : Nat}
    {writeCompleteCallback highWaterMarkCallback : Bool} {events : List Event}
    (hevents : ∀ event ∈ events, event.OneThread)
    (hrun : run step (init highWaterMark writeCompleteCallback highWaterMarkCallback) events
      = .ok conn)
    (hclosed : conn.closed = true) :
    conn.received <+: conn.link.sender.takenBytes ∧
      (conn.received = conn.link.sender.takenBytes ↔ Always step KeepsOpen
        (init highWaterMark writeCompleteCallback highWaterMarkCallback) events) := by
  have hstart := ordered_init highWaterMark writeCompleteCallback highWaterMarkCallback
  have hinv : ∀ (conn : EndOfStream) event conn', event.OneThread → conn.Ordered →
      conn.step event = .ok conn' → conn'.Ordered :=
    fun _ _ _ hevent h hnext => h.step hevent hnext
  have hordered := invariant_of_allowed hinv hrun hevents hstart
  have hlossless := iff_always hinv (fun _ _ _ hevent h => lossless_step_iff h hevent) hrun hevents
    hstart
  have hnone : (init highWaterMark writeCompleteCallback
      highWaterMarkCallback).link.sender.Lossless := by
    simp [init, Link.init, StreamConnection.init, StreamConnection.Lossless]
  obtain ⟨htaken, hall⟩ := hordered.halfClosed.stream_eq_iff hordered.linked.intact hordered.phased
    (hordered.atEnd hclosed).1
  rw [hordered.received_eq hclosed, hall, hlossless]
  exact ⟨htaken, and_iff_right hnone⟩

/-- The loop comes to the second message before it can write, and the other end reads all three
bytes before it closes. -/
def readOut : List Event :=
  StreamConnection.graceful.map (fun event => .link (.sender event)) ++
    [.handleClose, .link (.handleRead 2), .link (.retrieve 1), .link (.handleRead 2), .handleClose]

theorem received_closed_readOut : ∃ conn,
    run step (init (64 * 1024 * 1024) false false) readOut = .ok conn ∧
      conn.link.taken = [1] ∧ conn.received = conn.link.sender.takenBytes := by
  obtain ⟨conn, hrun, hclosed, htaken⟩ : ∃ conn,
      run step (init (64 * 1024 * 1024) false false) readOut = .ok conn ∧
        conn.closed = true ∧ conn.link.taken = [1] := by
    apply Holds.returns
    decide +kernel
  have hevents : ∀ event ∈ readOut, event.OneThread := by
    simp [readOut, StreamConnection.graceful, Event.OneThread, StreamConnection.Event.OneThread,
      StreamConnection.BlocksAtMost, maxSize]
  have hopen : Always step KeepsOpen (init (64 * 1024 * 1024) false false) readOut := by
    decide +kernel
  exact ⟨conn, hrun, htaken, (received_closed hevents hrun hclosed).2.mpr hopen⟩

end EndOfStream

end ToyBasket
