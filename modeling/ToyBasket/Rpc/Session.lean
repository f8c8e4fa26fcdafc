import ToyBasket.Rpc.Host
import ToyBasket.Rpc.Channel

/-!
# A channel and its server

One channel, the connection it makes, and the server at the other end of it. What each side is given
to send is a stream that the other side reads in whatever pieces it arrives.
-/

namespace ToyBasket

open Words Outcome Drain

/-- The server has the connection from the start, under the number 0, and the channel from the event
`connect` on. `busy` tells whether `onMessage` of the channel is running, and the other two numbers
how much of its stream each side has read. -/
structure RpcSession (S M R D : Type) where
  channel : RpcChannel R D
  input : Buffer
  busy : Bool
  handled : List (RpcChannel.Handled R D)
  host : RpcHost S M
  requestsRead : Nat
  responsesRead : Nat

namespace RpcSession

variable {S M R D : Type}

/-- A round of the channel's `onMessage` says which calls the closure makes if one runs in it. The
reads say how many bytes there are to read. -/
inductive Event (R D : Type) where
  | connect
  | call (call : MethodCall R D)
  | serverReads (n : Nat)
  | serverRound
  | complete (i : Nat) (response : Bytes)
  | channelReads (n : Nat)
  | channelRound (calls : List (MethodCall R D))

def init (services : List (S × Bytes × List (Bytes × M))) : RpcSession S M R D where
  channel := RpcChannel.init
  input := Buffer.empty Buffer.kInitialSize
  busy := false
  handled := []
  host := (RpcHost.init services).connect
  requestsRead := 0
  responsesRead := 0

def requests (session : RpcSession S M R D) : Bytes := session.channel.sent.flatten

/-- The stream of the server. -/
def responses (session : RpcSession S M R D) : Bytes :=
  (session.host.replies.filterMap fun reply => reply.written.map Prod.snd).flatten

def call (c : MetaCodec) (session : RpcSession S M R D) (call : MethodCall R D) :
    Except Fault (RpcSession S M R D) := do
  let channel ← RpcChannel.callMethod c session.channel call
  return { session with channel := channel }

/-- `handleRead` of the server's connection up to the call of `onMessage`. -/
def serverReads (session : RpcSession S M R D) (chunk : Bytes) :
    Except Fault (RpcSession S M R D) := do
  let host ← session.host.receive 0 chunk
  return { session with
    host := host
    requestsRead := session.requestsRead + chunk.length }

/-- `handleRead` of the channel's connection up to the call of `onMessage`. -/
def channelReads (session : RpcSession S M R D) (chunk : Bytes) :
    Except Fault (RpcSession S M R D) := do
  let input ← session.input.readFd (some chunk)
  return { session with
    input := input
    busy := true
    responsesRead := session.responsesRead + chunk.length }

/-- The closure of a call, which makes the calls given. -/
def runDone (c : MetaCodec) (calls : List (MethodCall R D)) (channel : RpcChannel R D) (_ : D) :
    Except Fault (RpcChannel R D) :=
  calls.foldlM (RpcChannel.callMethod c) channel

def channelRound (c : MetaCodec) (session : RpcSession S M R D) (calls : List (MethodCall R D)) :
    Except Fault (RpcSession S M R D) := do
  match ← RpcChannel.onMessageRound c (runDone c calls) (session.channel, session.input) with
  | none => return { session with busy := false }
  | some (handled, channel, input) =>
      return { session with
        channel := channel
        input := input
        handled := session.handled ++ [handled] }

/-- The channel's loop takes no other event while `onMessage` runs. -/
def CanRead (session : RpcSession S M R D) (chunk : Bytes) : Prop :=
  session.busy = false ∧ session.channel.conn = true ∧ chunk ≠ [] ∧
    chunk.length ≤ session.input.readLimit

instance (session : RpcSession S M R D) (chunk : Bytes) : Decidable (session.CanRead chunk) :=
  inferInstanceAs (Decidable (_ ∧ _))

def step (c : MetaCodec) (session : RpcSession S M R D) :
    Event R D → Except Fault (RpcSession S M R D)
  | .connect => .ok { session with channel := session.channel.onConnection true }
  | .call call => if session.busy = false then session.call c call else .ok session
  | .serverReads n =>
      let chunk := (session.requests.drop session.requestsRead).take n
      if session.host.CanReceive 0 chunk then session.serverReads chunk else .ok session
  | .serverRound => do
      let host ← session.host.step c .round
      return { session with host := host }
  | .complete i response =>
      .ok { session with host := session.host.complete c i response }
  | .channelReads n =>
      let chunk := (session.responses.drop session.responsesRead).take n
      if session.CanRead chunk then session.channelReads chunk else .ok session
  | .channelRound calls =>
      if session.busy then session.channelRound c calls else .ok session

end RpcSession

end ToyBasket
