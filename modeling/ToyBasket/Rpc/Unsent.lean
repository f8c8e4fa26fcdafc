import ToyBasket.Lib.Machine
import ToyBasket.Net.StreamConnection
import ToyBasket.Rpc.Channel
import ToyBasket.Rpc.MetaMessage

/-!
# Calls that are not sent

`CallMethod` enters the call in `out_`, then looks whether there is a connection, and `send` takes
the frame only while `state_` is `kConnected`. Only a frame from the other side takes an entry out
again. The channel is modelled with the connections of its client, of which `conn_` refers to one
weakly.
-/

namespace ToyBasket

open Words Outcome Machine

/-- `connections` has those that still exist, and `accepted` records the frames `send` took. -/
structure RpcClient (R D : Type) where
  channel : RpcChannel R D
  conn : Option Nat
  created : Nat
  connections : Nat → Option ConnectionState
  accepted : List Bytes

namespace RpcClient

variable {R D : Type}

/-- `answer` is a round of `onMessage` for a frame with the id; a closure it runs makes its calls
after that. `close` is `handleClose`, or `connectDestroyed` of a connection that is up. -/
inductive Event (R D : Type) where
  | newConnection
  | connectEstablished (conn : Nat)
  | shutdown (conn : Nat)
  | close (conn : Nat)
  | destroy (conn : Nat)
  | answer (id : Int)
  | callMethod (call : MethodCall R D)

def init : RpcClient R D where
  channel := RpcChannel.init
  conn := none
  created := 0
  connections := fun _ => none
  accepted := []

/-- `conn_.lock()`, as the state of the connection it gives. -/
def lock (client : RpcClient R D) : Option ConnectionState := client.conn.bind client.connections

def setState (client : RpcClient R D) (conn : Nat) (state : Option ConnectionState) :
    RpcClient R D :=
  { client with connections := Function.update client.connections conn state }

/-- The connection of the client is connected. -/
def Connected (client : RpcClient R D) : Prop := client.lock = some .kConnected

instance (client : RpcClient R D) : Decidable client.Connected :=
  inferInstanceAs (Decidable (_ = _))

def callMethod (c : MetaCodec) (client : RpcClient R D) (call : MethodCall R D) :
    Except Fault (RpcClient R D) := do
  let channel ← RpcChannel.callMethod c { client.channel with conn := client.lock.isSome } call
  let frame := RpcChannel.requestFrame c channel.index call
  return {
    client with
    channel := channel
    accepted := if client.Connected then client.accepted ++ [frame] else client.accepted }

def step (c : MetaCodec) (client : RpcClient R D) : Event R D → Except Fault (RpcClient R D)
  | .newConnection =>
      .ok { client.setState client.created (some .kConnecting) with created := client.created + 1 }
  | .connectEstablished conn =>
      .ok (if client.connections conn = some .kConnecting then
        { client.setState conn (some .kConnected) with conn := some conn } else client)
  | .shutdown conn =>
      .ok (if client.connections conn = some .kConnected then
        client.setState conn (some .kDisconnecting) else client)
  | .close conn =>
      .ok (if client.connections conn = some .kConnected ∨
          client.connections conn = some .kDisconnecting then
        client.setState conn (some .kDisconnected) else client)
  | .destroy conn =>
      .ok (if client.connections conn = some .kDisconnected then client.setState conn none
        else client)
  | .answer id => .ok { client with channel := (client.channel.take id).2 }
  | .callMethod call => client.callMethod c call

section Step

variable {c : MetaCodec} {client client' : RpcClient R D} {call : MethodCall R D}

theorem callMethod_eq_ok (h : client.callMethod c call = .ok client') :
    ∃ channel,
      RpcChannel.callMethod c { client.channel with conn := client.lock.isSome } call
          = .ok channel ∧
        client' = {
          client with
          channel := channel
          accepted :=
            if client.Connected then
              client.accepted ++ [RpcChannel.requestFrame c channel.index call]
            else client.accepted } := by
  obtain ⟨channel, hcall, hafter⟩ := bind_eq_ok.mp h
  cases hafter
  exact ⟨channel, hcall, rfl⟩

def Numbered (client : RpcClient R D) : Prop := client.channel.Numbered

theorem numbered_step {event : Event R D} (hclient : client.Numbered)
    (h : step c client event = .ok client') : client'.Numbered := by
  cases event with
  | callMethod call =>
      obtain ⟨channel, hcall, rfl⟩ := callMethod_eq_ok h
      have hlocked :
          RpcChannel.Numbered { client.channel with conn := client.lock.isSome } := hclient
      exact RpcChannel.numbered_callMethod hlocked hcall
  | answer id =>
      cases h
      exact RpcChannel.numbered_take hclient
  | newConnection =>
      cases h
      exact hclient
  | connectEstablished conn | shutdown conn | close conn | destroy conn =>
      simp only [step] at h
      split at h
      · cases h
        exact hclient
      · cases h
        exact hclient

theorem numbered_run {events : List (Event R D)} (h : run (step c) init events = .ok client) :
    client.Numbered := by
  have hstep : ∀ (s : RpcClient R D) event s', s.Numbered → step c s event = .ok s' → s'.Numbered :=
    fun _ _ _ => numbered_step
  exact invariant hstep h RpcChannel.numbered_init

/-- Every call that is made has an entry afterwards, and had none before. -/
theorem out_callMethod (hclient : client.Numbered)
    (h : client.callMethod c call = .ok client') :
    client.channel.out (client.channel.index + 1) = none ∧
      client'.channel.out (client.channel.index + 1)
        = some { response := call.response, done := call.done } := by
  obtain ⟨channel, hcall, rfl⟩ := callMethod_eq_ok h
  obtain ⟨rfl, -⟩ := RpcChannel.callMethod_eq_ok hcall
  refine ⟨?_, by simp⟩
  cases hout : client.channel.out (client.channel.index + 1) with
  | none => rfl
  | some out =>
      have hle := hclient _ _ hout
      omega

theorem accepted_callMethod (h : client.callMethod c call = .ok client') :
    client'.accepted = client.accepted ↔ ¬ client.Connected := by
  obtain ⟨channel, -, rfl⟩ := callMethod_eq_ok h
  simp only
  split
  · rename_i hconnected
    simp [hconnected]
  · rename_i hconnected
    simp [hconnected]

end Step

/-- In every reachable state, "a call that is not accepted leaves `out_` as it was" is true only
where the call is accepted: the entry of a call that is not stays behind. -/
theorem unsent_out_iff {c : MetaCodec} {events : List (Event R D)} {client client' : RpcClient R D}
    {call : MethodCall R D} (hrun : run (step c) init events = .ok client)
    (hcall : client.callMethod c call = .ok client') :
    (client'.accepted = client.accepted → client'.channel.out = client.channel.out) ↔
      client.Connected := by
  obtain ⟨hbefore, hafter⟩ := out_callMethod (numbered_run hrun) hcall
  have hout : client'.channel.out ≠ client.channel.out := by
    intro hsame
    rw [hsame, hbefore] at hafter
    cases hafter
  rw [accepted_callMethod hcall]
  constructor
  · intro h
    by_contra hnot
    exact hout (h hnot)
  · exact fun hconnected hnot => absurd hconnected hnot

/-! ### Before the connection is up -/

def earlyCall : MethodCall Unit Unit where
  service := []
  method := []
  request := []
  response := some ()
  done := none

theorem earlyCall_stays :
    ∃ client, callMethod RpcMetaMessage.pbCodec init earlyCall = .ok client ∧
      client.accepted = (init : RpcClient Unit Unit).accepted ∧
      client.channel.out ≠ (init : RpcClient Unit Unit).channel.out := by
  refine ⟨_, rfl, rfl, ?_⟩
  intro hsame
  have hentry := congrFun hsame 1
  cases hentry

theorem unsent_out_iff_established :
    ∃ client client' : RpcClient Unit Unit,
      run (step RpcMetaMessage.pbCodec) init [.newConnection, .connectEstablished 0] = .ok client ∧
      client.callMethod RpcMetaMessage.pbCodec earlyCall = .ok client' ∧
      ((client'.accepted = client.accepted → client'.channel.out = client.channel.out) ↔
        client.Connected) := by
  refine ⟨_, _, rfl, rfl, ?_⟩
  have hrun : run (step RpcMetaMessage.pbCodec) (init : RpcClient Unit Unit)
      [.newConnection, .connectEstablished 0] = .ok _ := rfl
  exact unsent_out_iff hrun rfl

end RpcClient

end ToyBasket
