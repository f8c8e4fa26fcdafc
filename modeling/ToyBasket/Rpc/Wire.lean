import ToyBasket.Net.Link
import ToyBasket.Rpc.Correlation

/-!
# A channel and its server over their connections

`RpcSession` with the two `StreamConnection`s in between. A frame is handed to `send`, may be
written in pieces, may wait in the output buffer or among the functors of the loop, and the other
side reads only what has been written. The calls are made by one thread, the loop or another; a
service may run its closures on any thread.
-/

namespace ToyBasket

open Words Outcome Machine

/-! ### A connection that stays up -/

namespace StreamConnection

/-- Nobody has called `shutdown`. -/
structure Sending (conn : StreamConnection) : Prop where
  state : conn.state = .kConnected
  threads : ∀ thread, conn.threads thread = .idle ∨
    ∃ message, conn.threads thread = .queueMessage message

/-- The steps that no caller begins. -/
def Event.goesOn : Event → Bool
  | .send .. | .shutdown _ => false
  | .advance _ | .doPendingFunctors | .functor _ | .handleWrite _ => true

variable {conn conn' : StreamConnection} {thread : Nat} {message : Bytes} {result : WriteResult}

theorem sending_init (highWaterMark : Nat) (writeCompleteCallback highWaterMarkCallback : Bool) :
    (init highWaterMark writeCompleteCallback highWaterMarkCallback).Sending where
  state := rfl
  threads := fun _ => .inl rfl

theorem Sending.update (h : conn.Sending) {s : ThreadState}
    (hs : s = .idle ∨ ∃ message, s = .queueMessage message) (other : Nat) :
    Function.update conn.threads thread s other = .idle ∨
      ∃ message, Function.update conn.threads thread s other = .queueMessage message := by
  by_cases hsame : other = thread
  · rw [hsame, Function.update_self]
    exact hs
  · rw [Function.update_of_ne hsame]
    exact h.threads other

theorem Sending.sendInLoop (h : conn.Sending)
    (hnext : conn.sendInLoop thread message result = .ok conn') : conn'.Sending := by
  obtain ⟨output, cbs, -, rfl⟩ := sendInLoop_eq_ok (by simp [h.state]) hnext
  exact ⟨h.state, h.threads⟩

theorem Sending.send (h : conn.Sending) (hnext : conn.send thread message result = .ok conn') :
    conn'.Sending := by
  unfold StreamConnection.send at hnext
  rw [if_pos h.state] at hnext
  simp only at hnext
  split at hnext
  · have hgiven : Sending { conn with given := conn.given ++ [(thread, message)] } :=
      ⟨h.state, h.threads⟩
    exact hgiven.sendInLoop hnext
  · cases hnext
    exact ⟨h.state, h.update (.inr ⟨message, rfl⟩)⟩

theorem Sending.advance (h : conn.Sending) (thread : Nat) : (conn.advance thread).Sending := by
  unfold StreamConnection.advance
  obtain hidle | ⟨message, hmessage⟩ := h.threads thread
  · simp only [hidle]
    exact h
  · simp only [hmessage]
    exact ⟨h.state, h.update (.inl rfl)⟩

theorem Sending.functor (h : conn.Sending) (hnext : conn.functor result = .ok conn') :
    conn'.Sending := by
  unfold StreamConnection.functor at hnext
  split at hnext
  · cases hnext
    exact h
  · rename_i f functors hfunctors
    simp only at hnext
    have htaken : Sending { conn with loop := { conn.loop with functors := functors } } :=
      ⟨h.state, h.threads⟩
    cases f with
    | sendInLoop thread message => exact htaken.sendInLoop hnext
    | shutdownInLoop =>
        cases hnext
        obtain ⟨shutdowns, heq⟩ := shutdownInLoop_eq
          { conn with loop := { conn.loop with functors := functors } }
        rw [heq]
        exact ⟨h.state, h.threads⟩
    | callback cb =>
        cases hnext
        exact htaken

theorem Sending.handleWrite (h : conn.Sending) (hnext : conn.handleWrite result = .ok conn') :
    conn'.Sending := by
  obtain ⟨output, empty, cbs, -, rfl⟩ := handleWrite_eq_ok hnext
  rw [if_neg (by simp [h.state])]
  exact ⟨h.state, h.threads⟩

theorem Sending.goesOn (h : conn.Sending) {event : Event} (hevent : event.goesOn)
    (hnext : conn.step event = .ok conn') : conn'.Sending := by
  cases event with
  | send thread message result => cases hevent
  | shutdown thread => cases hevent
  | advance thread =>
      cases hnext
      exact h.advance thread
  | doPendingFunctors =>
      cases hnext
      split
      · exact ⟨h.state, h.threads⟩
      · exact h
  | functor result =>
      simp only [step] at hnext
      split at hnext
      · exact h.functor hnext
      · cases hnext
        exact h
  | handleWrite result =>
      simp only [step] at hnext
      split at hnext
      · exact h.handleWrite hnext
      · cases hnext
        exact h

theorem Event.isSend_of_goesOn {event : Event} (h : event.goesOn) : event.isSend = false := by
  cases event with
  | send thread message result => cases h
  | _ => rfl

/-- A connection that is up and has lost nothing. -/
structure Up (conn : StreamConnection) : Prop extends conn.Intact, conn.Sending

theorem up_init (highWaterMark : Nat) (writeCompleteCallback highWaterMarkCallback : Bool) :
    (init highWaterMark writeCompleteCallback highWaterMarkCallback).Up where
  toIntact := ⟨by simp [init], intact_init _ _ _⟩
  toSending := sending_init _ _ _

theorem Up.goesOn (h : conn.Up) {event : Event} (hevent : event.goesOn) (husual : event.Usual)
    (hnext : conn.step event = .ok conn') : conn'.Up where
  toIntact := (h.toIntact.step_holds husual).of_ok hnext
  toSending := h.toSending.goesOn hevent hnext

theorem Up.send (h : conn.Up) (hidle : conn.threads thread = .idle)
    (hmessage : message.length ≤ maxSize) (hresult : ¬ result.Fatal)
    (hnext : conn.step (.send thread message result) = .ok conn') :
    conn'.Up ∧ conn'.given = conn.given ++ [(thread, message)] ∧
      conn.executed <+: conn'.executed := by
  have hsend : conn.send thread message result = .ok conn' := by
    rwa [step, if_pos hidle] at hnext
  obtain ⟨hgiven, hexecuted, -⟩ := send_eq_ok h.state hsend
  exact ⟨⟨(h.toIntact.send_holds hidle hmessage hresult).of_ok hsend, h.toSending.send hsend⟩,
    hgiven, hexecuted⟩

/-- The loop is never in the middle of handing over. -/
theorem Up.idle_loop (h : conn.Up) : conn.threads 0 = .idle := by
  obtain hidle | ⟨message, hmessage⟩ := h.threads 0
  · exact hidle
  · have hnone := h.intact.inOrder.loop_current
    rw [current, hmessage] at hnone
    cases hnone

/-- What was written is the beginning of the messages that were executed. -/
theorem Up.written_prefix (h : conn.Up) :
    conn.output.written <+: (conn.executed.map Prod.snd).flatten :=
  ⟨_, h.intact.carries.bytes⟩

end StreamConnection

/-! ### The two sides -/

/-- The channel with its connection and its input buffer, and the server with its. `requestsRead`
and `responsesRead` count the bytes that were read of what the other side has written, and `busy` is
whether the channel is in `onMessage`. -/
structure RpcWire (S M R D : Type) where
  channel : RpcChannel R D
  client : StreamConnection
  input : Buffer
  busy : Bool
  handled : List (RpcChannel.Handled R D)
  host : RpcHost S M
  server : StreamConnection
  requestsRead : Nat
  responsesRead : Nat

namespace RpcWire

open RpcSession (runDone)

/-- `client` and `server` are steps of the connections; a call comes with what `write` would return
if the frame is written at once. -/
inductive Event (R D : Type) where
  | connect
  | call (call : MethodCall R D) (result : WriteResult)
  | client (event : StreamConnection.Event)
  | serverReads (n : Nat)
  | serverRound
  | complete (thread i : Nat) (response : Bytes) (result : WriteResult)
  | server (event : StreamConnection.Event)
  | channelReads (n : Nat)
  | channelRound (calls : List (MethodCall R D × WriteResult))

variable {S M R D : Type}

def init (services : List (S × Bytes × List (Bytes × M))) (highWaterMark : Nat)
    (writeCompleteCallback highWaterMarkCallback : Bool) : RpcWire S M R D where
  channel := RpcChannel.init
  client := StreamConnection.init highWaterMark writeCompleteCallback highWaterMarkCallback
  input := Buffer.empty Buffer.kInitialSize
  busy := false
  handled := []
  host := (RpcHost.init services).connect
  server := StreamConnection.init highWaterMark writeCompleteCallback highWaterMarkCallback
  requestsRead := 0
  responsesRead := 0

/-- Frames that one thread passes to `send`, one after the other. -/
def sendAll (conn : StreamConnection) (thread : Nat) (frames : List (Bytes × WriteResult)) :
    Except Fault StreamConnection :=
  run StreamConnection.step conn (frames.map fun p => .send thread p.1 p.2)

/-- The channel has made calls, and the frames that are new in `sent` go to its connection. -/
def makeCalls (caller : Nat) (wire : RpcWire S M R D) (channel : RpcChannel R D)
    (results : List WriteResult) : Except Fault (RpcWire S M R D) := do
  let frames := (channel.sent.drop wire.channel.sent.length).zip results
  let client ← sendAll wire.client caller frames
  return { wire with channel := channel, client := client }

def call (c : MetaCodec) (caller : Nat) (wire : RpcWire S M R D) (call : MethodCall R D)
    (result : WriteResult) : Except Fault (RpcWire S M R D) := do
  let channel ← RpcChannel.callMethod c wire.channel call
  wire.makeCalls caller channel [result]

def serverReads (wire : RpcWire S M R D) (chunk : Bytes) : Except Fault (RpcWire S M R D) := do
  let host ← wire.host.receive 0 chunk
  return { wire with
    host := host
    requestsRead := wire.requestsRead + chunk.length }

def complete (c : MetaCodec) (wire : RpcWire S M R D) (thread i : Nat) (response : Bytes)
    (result : WriteResult) : Except Fault (RpcWire S M R D) := do
  let host := wire.host.complete c i response
  let written := (host.replies.drop wire.host.replies.length).filterMap Reply.written
  let server ← sendAll wire.server thread (written.map fun p => (p.2, result))
  return { wire with host := host, server := server }

def channelReads (wire : RpcWire S M R D) (chunk : Bytes) : Except Fault (RpcWire S M R D) := do
  let input ← wire.input.readFd (some chunk)
  return { wire with
    input := input
    busy := true
    responsesRead := wire.responsesRead + chunk.length }

/-- One round of `onMessage`; `calls` are those its closure makes. -/
def channelRound (c : MetaCodec) (wire : RpcWire S M R D)
    (calls : List (MethodCall R D × WriteResult)) : Except Fault (RpcWire S M R D) := do
  match ← RpcChannel.onMessageRound c (runDone c (calls.map Prod.fst)) (wire.channel, wire.input)
    with
  | none => return { wire with busy := false }
  | some (handled, channel, input) =>
      let wire ← wire.makeCalls 0 channel (calls.map Prod.snd)
      return { wire with input := input, handled := wire.handled ++ [handled] }

def CanRead (wire : RpcWire S M R D) (chunk : Bytes) : Prop :=
  wire.busy = false ∧ wire.channel.conn = true ∧ chunk ≠ [] ∧ chunk.length ≤ wire.input.readLimit

instance (wire : RpcWire S M R D) (chunk : Bytes) : Decidable (wire.CanRead chunk) :=
  inferInstanceAs (Decidable (_ ∧ _))

/-- A call on the loop thread is not made while the loop is in `onMessage`, except by a closure, and
a closure makes calls only if the loop is the thread that makes them. -/
def step (c : MetaCodec) (caller : Nat) (wire : RpcWire S M R D) :
    Event R D → Except Fault (RpcWire S M R D)
  | .connect => .ok { wire with channel := wire.channel.onConnection true }
  | .call call result =>
      if wire.client.threads caller = .idle ∧ (caller = 0 → wire.busy = false) then
        wire.call c caller call result
      else .ok wire
  | .client event =>
      if event.goesOn then do
        let client ← wire.client.step event
        return { wire with client := client }
      else .ok wire
  | .serverReads n =>
      let chunk := (wire.client.output.written.drop wire.requestsRead).take n
      if wire.host.CanReceive 0 chunk then wire.serverReads chunk else .ok wire
  | .serverRound => do
      let host ← wire.host.step c .round
      return { wire with host := host }
  | .complete thread i response result =>
      if wire.server.threads thread = .idle then wire.complete c thread i response result
      else .ok wire
  | .server event =>
      if event.goesOn then do
        let server ← wire.server.step event
        return { wire with server := server }
      else .ok wire
  | .channelReads n =>
      let chunk := (wire.server.output.written.drop wire.responsesRead).take n
      if wire.CanRead chunk then wire.channelReads chunk else .ok wire
  | .channelRound calls =>
      if wire.busy ∧ (calls = [] ∨ caller = 0) then wire.channelRound c calls else .ok wire

def Event.Usual : Event R D → Prop
  | .call _ result | .complete _ _ _ result => ¬ result.Fatal
  | .client event | .server event => event.Usual
  | .channelRound calls => ∀ p ∈ calls, ¬ p.2.Fatal
  | .connect | .serverReads _ | .serverRound | .channelReads _ => True

end RpcWire

end ToyBasket
