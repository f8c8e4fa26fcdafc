import ToyBasket.Rpc.Frame

/-!
# The channel

`protorpc/rpc_channel.cc`, the client's side. Response objects and closures are any types, and a
null pointer is `none`; `out_` is a function. The counter `index_` is signed, so counting past its
largest value is a fault.
-/

namespace ToyBasket

open Words Outcome Drain

structure OutstandingCall (R D : Type) where
  response : Option R
  done : Option D
deriving DecidableEq, Repr

/-- The arguments of `CallMethod`, with the request serialized. -/
structure MethodCall (R D : Type) where
  service : Bytes
  method : Bytes
  request : Bytes
  response : Option R
  done : Option D
deriving DecidableEq, Repr

/-- `calls` records the calls with their numbers, and `sent` the frames the connection was given to
send. -/
structure RpcChannel (R D : Type) where
  conn : Bool
  index : Int
  out : Int → Option (OutstandingCall R D)
  calls : List (Int × MethodCall R D)
  sent : List Bytes

namespace RpcChannel

variable {R D : Type}

def init : RpcChannel R D where
  conn := false
  index := 0
  out := fun _ => none
  calls := []
  sent := []

def onConnection (channel : RpcChannel R D) (connected : Bool) : RpcChannel R D :=
  if connected then { channel with conn := true } else channel

def requestFrame (c : MetaCodec) (index : Int) (call : MethodCall R D) : Bytes :=
  buildFrame c (Int64.ofInt index).toUInt64 call.service call.method call.request

def callMethod (c : MetaCodec) (channel : RpcChannel R D) (call : MethodCall R D) :
    Except Fault (RpcChannel R D) := do
  check .overflow (channel.index < 9223372036854775807)
  let index := channel.index + 1
  let out : OutstandingCall R D := { response := call.response, done := call.done }
  return {
    channel with
    index := index
    out := fun id => if id = index then some out else channel.out id
    calls := channel.calls ++ [(index, call)]
    sent := if channel.conn then channel.sent ++ [requestFrame c index call] else channel.sent }

/-- The calls in `out_` have numbers that have been counted. -/
def Numbered (channel : RpcChannel R D) : Prop :=
  ∀ id out, channel.out id = some out → id ≤ channel.index

theorem numbered_init : Numbered (init : RpcChannel R D) := by
  rintro id out ⟨⟩

section CallMethod

variable {c : MetaCodec} {channel channel' : RpcChannel R D} {call : MethodCall R D}

theorem callMethod_eq_ok (h : callMethod c channel call = .ok channel') :
    channel' = {
      channel with
      index := channel.index + 1
      out := fun id => if id = channel.index + 1 then
          some { response := call.response, done := call.done } else channel.out id
      calls := channel.calls ++ [(channel.index + 1, call)]
      sent := if channel.conn then channel.sent ++ [requestFrame c (channel.index + 1) call]
        else channel.sent } ∧ channel.index < 9223372036854775807 := by
  unfold callMethod at h
  by_cases hindex : channel.index < 9223372036854775807
  · rw [check_of_true hindex, ok_bind] at h
    cases h
    exact ⟨rfl, hindex⟩
  · rw [check_of_false hindex] at h
    cases h

theorem numbered_callMethod (hchannel : channel.Numbered)
    (h : callMethod c channel call = .ok channel') : channel'.Numbered := by
  obtain ⟨rfl, -⟩ := callMethod_eq_ok h
  intro id out hout
  simp only at hout ⊢
  split at hout
  · omega
  · exact Int.le_add_one (hchannel id out hout)

/-- A new call takes the place of none. -/
theorem out_callMethod (hchannel : channel.Numbered) (h : callMethod c channel call = .ok channel')
    {id : Int} {out : OutstandingCall R D} (hout : channel.out id = some out) :
    channel'.out id = some out := by
  obtain ⟨rfl, -⟩ := callMethod_eq_ok h
  have hle := hchannel id out hout
  simp only
  rw [if_neg (by omega)]
  exact hout

end CallMethod

/-! ### onMessage -/

/-- What a round did: the id and the length of the frame, and the response object parsed with its
closure and the bytes it was parsed from. -/
structure Handled (R D : Type) where
  id : Int
  length : Nat
  answer : Option (R × Option D × Bytes)
deriving DecidableEq, Repr

def take (channel : RpcChannel R D) (id : Int) : OutstandingCall R D × RpcChannel R D :=
  match channel.out id with
  | none => ({ response := none, done := none }, channel)
  | some out =>
      (out, { channel with out := fun other => if other = id then none else channel.out other })

section Take

variable {channel : RpcChannel R D} {id other : Int} {out : OutstandingCall R D}

theorem out_take_of_ne (h : other ≠ id) : (channel.take id).2.out other = channel.out other := by
  unfold take
  split
  · rfl
  · simp [h]

theorem out_take_self : (channel.take id).2.out id = none := by
  unfold take
  split
  · assumption
  · simp

theorem take_of_out_eq_some (h : channel.out id = some out) : (channel.take id).1 = out := by
  simp [take, h]

theorem out_eq_some_of_take {response : R} (h : (channel.take id).1.response = some response) :
    channel.out id = some { response := some response, done := (channel.take id).1.done } := by
  unfold take at h ⊢
  split at h
  · cases h
  · rename_i out hout
    rw [hout, ← h]

theorem take_of_out_eq_none (h : channel.out id = none) : (channel.take id).2 = channel := by
  simp [take, h]

theorem index_take : (channel.take id).2.index = channel.index := by
  unfold take
  split
  · rfl
  · rfl

theorem calls_take : (channel.take id).2.calls = channel.calls := by
  unfold take
  split
  · rfl
  · rfl

theorem numbered_take (hchannel : channel.Numbered) : (channel.take id).2.Numbered := by
  intro other out hout
  rw [index_take]
  by_cases hother : other = id
  · rw [hother, out_take_self] at hout
    cases hout
  · rw [out_take_of_ne hother] at hout
    exact hchannel other out hout

end Take

section OnMessage

variable (c : MetaCodec) (runDone : RpcChannel R D → D → Except Fault (RpcChannel R D))

/-- `runDone` stands for `out.done->Run()`, which may make calls. -/
def answerWith (payload : Except Fault Bytes) (channel : RpcChannel R D) (frame : Frame) :
    Except Fault (Handled R D × RpcChannel R D) :=
  let id := frame.metaProto.id.toInt64.toInt
  let out := (channel.take id).1
  let channel := (channel.take id).2
  match out.response with
  | none => .ok ({ id := id, length := frame.length, answer := none }, channel)
  | some response => do
      let data ← payload
      let handled : Handled R D :=
        { id := id, length := frame.length, answer := some (response, out.done, data) }
      match out.done with
      | none => return (handled, channel)
      | some done => return (handled, ← runDone channel done)

variable {runDone} in
theorem answerWith_eq_ok {payload : Except Fault Bytes} {channel channel' : RpcChannel R D}
    {frame : Frame} {handled : Handled R D}
    (h : answerWith runDone payload channel frame = .ok (handled, channel')) :
    handled.id = frame.metaProto.id.toInt64.toInt ∧
      ((handled.answer = none ∧ (channel.take handled.id).1.response = none ∧
          channel' = (channel.take handled.id).2) ∨
        ∃ response done data,
          handled.answer = some (response, done, data) ∧ payload = .ok data ∧
            channel.out handled.id = some { response := some response, done := done } ∧
            ((done = none ∧ channel' = (channel.take handled.id).2) ∨
              ∃ closure, done = some closure ∧
                runDone (channel.take handled.id).2 closure = .ok channel')) := by
  unfold answerWith at h
  simp only at h
  cases hresponse : (channel.take frame.metaProto.id.toInt64.toInt).1.response with
  | none =>
      simp only [hresponse] at h
      cases h
      exact ⟨rfl, .inl ⟨rfl, hresponse, rfl⟩⟩
  | some response =>
      simp only [hresponse] at h
      have hout : channel.out frame.metaProto.id.toInt64.toInt
          = some { response := some response
                   done := (channel.take frame.metaProto.id.toInt64.toInt).1.done } :=
        out_eq_some_of_take hresponse
      cases payload with
      | error fault => cases h
      | ok data =>
          rw [ok_bind] at h
          cases hdone : (channel.take frame.metaProto.id.toInt64.toInt).1.done with
          | none =>
              rw [hdone] at hout
              simp only [hdone] at h
              cases h
              exact ⟨rfl, .inr ⟨response, none, data, rfl, rfl, hout, .inl ⟨rfl, rfl⟩⟩⟩
          | some closure =>
              rw [hdone] at hout
              simp only [hdone] at h
              obtain ⟨after, hrun, hafter⟩ := bind_eq_ok.mp h
              cases hafter
              exact ⟨rfl, .inr ⟨response, some closure, data, rfl, rfl, hout,
                .inr ⟨closure, rfl, hrun⟩⟩⟩

def handleFrame (channel : RpcChannel R D) (buff : Buffer) (frame : Frame) :
    Except Fault (Handled R D × RpcChannel R D) :=
  answerWith runDone (buff.payload frame) channel frame

def onMessageRound : Body Fault (Handled R D) (RpcChannel R D × Buffer) :=
  frameRound c (handleFrame runDone)

/-- What the rounds did and the state afterwards, if the loop is left within `fuel` rounds. -/
def onMessage (fuel : Nat) (channel : RpcChannel R D) (buff : Buffer) :
    Except Fault (Option (List (Handled R D) × RpcChannel R D × Buffer)) :=
  loop (onMessageRound c runDone) fuel (channel, buff)

/-- The same on the readable bytes. -/
def handleBytes (channel : RpcChannel R D) (bytes : Bytes) (frame : Frame) :
    Except Fault (Handled R D × RpcChannel R D) :=
  answerWith runDone (readPayload bytes frame) channel frame

theorem onMessageRound_views :
    Views (Prod.map id Buffer.readable) (fun p => p.2.WellFormed) (onMessageRound c runDone)
      (bytesRound c (handleBytes runDone)) := by
  apply frameRound_views
  intro channel buff frame hbuff
  simp only [handleFrame, handleBytes, Buffer.payload_eq hbuff]

theorem handleBytes_append (channel : RpcChannel R D) (bytes : Bytes) (frame : Frame)
    (result : Handled R D × RpcChannel R D) (more : Bytes)
    (h : handleBytes runDone channel bytes frame = .ok result) :
    handleBytes runDone channel (bytes ++ more) frame = .ok result := by
  unfold handleBytes answerWith at h ⊢
  cases hresponse : (channel.take frame.metaProto.id.toInt64.toInt).1.response with
  | none =>
      simp only [hresponse] at h ⊢
      exact h
  | some response =>
      simp only [hresponse] at h ⊢
      obtain ⟨data, hdata, hanswer⟩ := bind_eq_ok.mp h
      rw [readPayload_append hdata more]
      exact hanswer

theorem onMessageRound_stable :
    Stable (fun (p : RpcChannel R D × Bytes) more => (p.1, p.2 ++ more))
      (bytesRound c (handleBytes runDone)) :=
  bytesRound_stable (handleBytes_append runDone)

end OnMessage

end RpcChannel

end ToyBasket
