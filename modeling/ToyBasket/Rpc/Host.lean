import ToyBasket.Rpc.Server
import ToyBasket.Lib.Machine
import Mathlib.Logic.Function.Basic

/-!
# The server and its clients

What the loop of a server goes through: clients connect and leave, a read of one connection is
followed by its run of `onMessage`, one round at a time, and the services run their closures when
they like, also in the middle of a round.
-/

namespace ToyBasket

open Words Outcome Drain

/-- A closure the service has not run yet, with the connection its request came from. -/
structure Pending (S M : Type) where
  call : ServiceCall S M
  origin : Nat
deriving DecidableEq, Repr

/-- What running a closure did: whether the connection of the request was still there, and which
connection was written to. -/
structure Reply (S M : Type) where
  call : ServiceCall S M
  origin : Nat
  originConnected : Bool
  response : Bytes
  written : Option (Nat × Bytes)
deriving DecidableEq, Repr

/-- The connections are numbered in the order in which they connect. `busy` is the one whose
`onMessage` is running. -/
structure RpcHost (S M : Type) where
  server : RpcServer S M
  count : Nat
  connected : Nat → Bool
  input : Nat → Buffer
  busy : Option Nat
  pending : List (Pending S M)
  replies : List (Reply S M)

namespace RpcHost

variable {S M : Type}

/-- What happens to a server. A chunk is what one `readFd` reads. -/
inductive Event where
  | connect
  | disconnect (conn : Nat)
  | receive (conn : Nat) (chunk : Bytes)
  | round
  | complete (i : Nat) (response : Bytes)

def init (services : List (S × Bytes × List (Bytes × M))) : RpcHost S M where
  server := RpcServer.registered services
  count := 0
  connected := fun _ => false
  input := fun _ => Buffer.empty Buffer.kInitialSize
  busy := none
  pending := []
  replies := []

/-- `newConnection` and `connectEstablished`. -/
def connect (host : RpcHost S M) : RpcHost S M :=
  { host with
    server := host.server.onConnection host.count true
    count := host.count + 1
    connected := Function.update host.connected host.count true }

/-- `handleClose`. -/
def disconnect (host : RpcHost S M) (conn : Nat) : RpcHost S M :=
  { host with
    server := host.server.onConnection conn false
    connected := Function.update host.connected conn false }

/-- `handleRead` up to the call of `onMessage`. -/
def receive (host : RpcHost S M) (conn : Nat) (chunk : Bytes) : Except Fault (RpcHost S M) := do
  let buff ← (host.input conn).readFd (some chunk)
  return { host with input := Function.update host.input conn buff, busy := some conn }

def procRpcData (conn : Nat) (s : RpcServer S M × List (Pending S M)) (call : ProcCall) :
    Except Fault (RpcServer S M × List (Pending S M)) := do
  let (serviceCall, server) ← s.1.procRpcData call
  return (server, s.2 ++ [{ call := serviceCall, origin := conn }])

def round (c : MetaCodec) (host : RpcHost S M) (conn : Nat) : Except Fault (RpcHost S M) := do
  match ← RpcServer.onMessageRound c (procRpcData conn)
      ((host.server, host.pending), host.input conn) with
  | none => return { host with busy := none }
  | some (_, (server, pending), buff) =>
      return {
        host with
        server := server
        pending := pending
        input := Function.update host.input conn buff }

def complete (c : MetaCodec) (host : RpcHost S M) (i : Nat) (response : Bytes) : RpcHost S M :=
  match host.pending[i]? with
  | none => host
  | some p =>
      let reply : Reply S M :=
        { call := p.call
          origin := p.origin
          originConnected := host.connected p.origin
          response := response
          written := host.server.onCallbackDone c host.connected p.call.id response }
      { host with pending := host.pending.eraseIdx i, replies := host.replies ++ [reply] }

/-- The loop takes no other event while `onMessage` runs, and a connection that is there is read
from, as much as `readv` can return. -/
def CanReceive (host : RpcHost S M) (conn : Nat) (chunk : Bytes) : Prop :=
  host.busy = none ∧ host.connected conn = true ∧ chunk ≠ [] ∧
    chunk.length ≤ (host.input conn).readLimit

instance (host : RpcHost S M) (conn : Nat) (chunk : Bytes) :
    Decidable (host.CanReceive conn chunk) :=
  inferInstanceAs (Decidable (_ ∧ _))

/-- An event that cannot happen changes nothing. -/
def step (c : MetaCodec) (host : RpcHost S M) : Event → Except Fault (RpcHost S M)
  | .connect => .ok (if host.busy = none then host.connect else host)
  | .disconnect conn =>
      .ok (if host.busy = none ∧ host.connected conn then host.disconnect conn else host)
  | .receive conn chunk =>
      if host.CanReceive conn chunk then host.receive conn chunk else .ok host
  | .round =>
      match host.busy with
      | none => .ok host
      | some conn => host.round c conn
  | .complete i response => .ok (host.complete c i response)

variable {c : MetaCodec} {host host' : RpcHost S M}

/-! ### What the operations do -/

theorem receive_eq_ok {conn : Nat} {chunk : Bytes} (h : host.receive conn chunk = .ok host') :
    ∃ buff, (host.input conn).readFd (some chunk) = .ok buff ∧
      host' = { host with input := Function.update host.input conn buff, busy := some conn } := by
  unfold receive at h
  obtain ⟨buff, hread, hafter⟩ := bind_eq_ok.mp h
  cases hafter
  exact ⟨buff, hread, rfl⟩

theorem procRpcData_eq_ok {conn : Nat} {s s' : RpcServer S M × List (Pending S M)}
    {call : ProcCall} (h : procRpcData conn s call = .ok s') :
    ∃ serviceCall, s.1.procRpcData call = .ok (serviceCall, s'.1) ∧
      s'.2 = s.2 ++ [{ call := serviceCall, origin := conn }] := by
  unfold procRpcData at h
  obtain ⟨⟨serviceCall, server⟩, hproc, hafter⟩ := bind_eq_ok.mp h
  cases hafter
  exact ⟨serviceCall, hproc, rfl⟩

theorem round_eq_ok {conn : Nat} (h : host.round c conn = .ok host') :
    (host' = { host with busy := none } ∧
      RpcServer.onMessageRound c (procRpcData conn) ((host.server, host.pending), host.input conn)
        = .ok none) ∨
    ∃ call serviceCall server buff,
      RpcServer.onMessageRound c (procRpcData conn) ((host.server, host.pending), host.input conn)
        = .ok (some (call, (server, host.pending ++ [{ call := serviceCall, origin := conn }]),
            buff)) ∧
      host.server.procRpcData call = .ok (serviceCall, server) ∧
      host' = {
        host with
        server := server
        pending := host.pending ++ [{ call := serviceCall, origin := conn }]
        input := Function.update host.input conn buff } := by
  unfold round at h
  obtain ⟨next, hround, hafter⟩ := bind_eq_ok.mp h
  cases next with
  | none =>
      cases hafter
      exact .inl ⟨rfl, hround⟩
  | some result =>
      obtain ⟨call, ⟨server, pending⟩, buff⟩ := result
      cases hafter
      obtain ⟨serviceCall, hproc, hpending⟩ :=
        procRpcData_eq_ok (RpcServer.handled_of_onMessageRound hround)
      simp only at hproc hpending
      subst hpending
      exact .inr ⟨call, serviceCall, server, buff, hround, hproc, rfl⟩

theorem complete_of_getElem? {i : Nat} {response : Bytes} {p : Pending S M}
    (h : host.pending[i]? = some p) : host.complete c i response = {
      host with
      pending := host.pending.eraseIdx i
      replies := host.replies ++ [
        { call := p.call
          origin := p.origin
          originConnected := host.connected p.origin
          response := response
          written := host.server.onCallbackDone c host.connected p.call.id response }] } := by
  simp only [complete, h]

theorem complete_of_getElem?_eq_none {i : Nat} {response : Bytes} (h : host.pending[i]? = none) :
    host.complete c i response = host := by
  simp only [complete, h]

theorem replies_step {event : Event} (hevent : ∀ i response, event ≠ .complete i response)
    (hnext : host.step c event = .ok host') : host'.replies = host.replies := by
  cases event with
  | connect =>
      cases hnext
      split
      · rfl
      · rfl
  | disconnect conn =>
      cases hnext
      split
      · rfl
      · rfl
  | receive conn chunk =>
      simp only [RpcHost.step] at hnext
      split at hnext
      · obtain ⟨buff, -, rfl⟩ := receive_eq_ok hnext
        rfl
      · cases hnext
        rfl
  | round =>
      simp only [RpcHost.step] at hnext
      split at hnext
      · cases hnext
        rfl
      · obtain ⟨rfl, -⟩ | ⟨_, _, _, _, -, -, rfl⟩ := round_eq_ok hnext
        · rfl
        · rfl
  | complete i response => exact absurd rfl (hevent i response)

theorem replies_complete (i : Nat) (response : Bytes) :
    ∃ new, (host.complete c i response).replies = host.replies ++ new := by
  cases hp : host.pending[i]? with
  | none =>
      rw [complete_of_getElem?_eq_none hp]
      exact ⟨[], (List.append_nil _).symm⟩
  | some p =>
      rw [complete_of_getElem? hp]
      exact ⟨_, rfl⟩

end RpcHost

end ToyBasket
