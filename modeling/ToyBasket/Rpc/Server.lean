import ToyBasket.Rpc.Frame
import Mathlib.Data.List.Induction

/-!
# The server

`protorpc/rpc_server.cc`. Services and method descriptors are any types; a map is a function, where
`operator[]` on a missing key enters a null pointer. The connections are numbered.
-/

namespace ToyBasket

open Words Outcome Drain

structure ProcCall where
  id : Int64
  serviceId : Bytes
  methodId : Bytes
  data : Bytes
deriving DecidableEq, Repr

structure ServiceInfo (S M : Type) where
  service : Option S
  mdescriptor : Bytes → Option M

/-- The arguments of `service->CallMethod`; the closure keeps the id. -/
structure ServiceCall (S M : Type) where
  service : S
  method : M
  request : Bytes
  id : Int64
deriving DecidableEq, Repr

structure RpcServer (S M : Type) where
  services : Bytes → Option (ServiceInfo S M)
  basicConn : Option Nat

namespace RpcServer

variable {S M : Type}

def init : RpcServer S M where
  services := fun _ => none
  basicConn := none

def serviceInfo (server : RpcServer S M) (serviceId : Bytes) : ServiceInfo S M :=
  (server.services serviceId).getD { service := none, mdescriptor := fun _ => none }

/-- `methods` are the methods of the descriptor of the service with their names. -/
def registerService (server : RpcServer S M) (service : S) (name : Bytes)
    (methods : List (Bytes × M)) : RpcServer S M :=
  let serviceInfo : ServiceInfo S M :=
    { service := some service
      mdescriptor := methods.foldl (fun map (methodId, descriptor) methodId' =>
        if methodId' = methodId then some descriptor else map methodId') fun _ => none }
  { server with
    services := fun serviceId => if serviceId = name then some serviceInfo
      else server.services serviceId }

def registered (services : List (S × Bytes × List (Bytes × M))) : RpcServer S M :=
  services.foldl (fun server (service, name, methods) =>
    server.registerService service name methods) init

def onConnection (server : RpcServer S M) (conn : Nat) (connected : Bool) : RpcServer S M :=
  if connected then { server with basicConn := some conn } else server

def procRpcData (server : RpcServer S M) (call : ProcCall) :
    Except Fault (ServiceCall S M × RpcServer S M) :=
  let info := server.serviceInfo call.serviceId
  let server :=
    { server with
      services := fun serviceId =>
        if serviceId = call.serviceId then some info else server.services serviceId }
  match info.service, info.mdescriptor call.methodId with
  | some service, some method =>
      .ok ({ service := service, method := method, request := call.data, id := call.id }, server)
  | _, _ => .error .nullPointer

/-! ### Looking up a service -/

section Services

variable {services : List (S × Bytes × List (Bytes × M))} {server server' : RpcServer S M}

theorem mem_of_mdescriptor {methods : List (Bytes × M)} {methodId : Bytes} {method : M}
    (h : methods.foldl (fun map (methodId, descriptor) methodId' =>
      if methodId' = methodId then some descriptor else map methodId') (fun _ => none) methodId
        = some method) : (methodId, method) ∈ methods := by
  induction methods using List.reverseRecOn with
  | nil => cases h
  | append_singleton methods p ih =>
      obtain ⟨methodId', descriptor⟩ := p
      rw [List.foldl_concat] at h
      by_cases hid : methodId = methodId'
      · simp only [if_pos hid, Option.some_inj] at h
        rw [hid, ← h]
        exact List.mem_concat_self
      · simp only [if_neg hid] at h
        exact List.mem_append_left _ (ih h)

theorem mem_of_registered {name : Bytes} {info : ServiceInfo S M}
    (h : (registered services).services name = some info) :
    ∃ service methods, (service, name, methods) ∈ services ∧ info.service = some service ∧
      ∀ methodId method, info.mdescriptor methodId = some method →
        (methodId, method) ∈ methods := by
  induction services using List.reverseRecOn with
  | nil => cases h
  | append_singleton services p ih =>
      obtain ⟨service, name', methods⟩ := p
      rw [registered, List.foldl_concat] at h
      by_cases hname : name = name'
      · simp only [registerService, hname, if_true, Option.some_inj] at h
        rw [← h, hname]
        exact ⟨service, methods, List.mem_concat_self, rfl, fun _ _ => mem_of_mdescriptor⟩
      · simp only [registerService, if_neg hname] at h
        obtain ⟨service', methods', hmem, hinfo⟩ := ih h
        exact ⟨service', methods', List.mem_append_left _ hmem, hinfo⟩

theorem procRpcData_eq_ok {call : ProcCall} {serviceCall : ServiceCall S M}
    (h : server.procRpcData call = .ok (serviceCall, server')) :
    server' = server ∧ ∃ info, server.services call.serviceId = some info ∧
      info.service = some serviceCall.service ∧
      info.mdescriptor call.methodId = some serviceCall.method ∧
      serviceCall.request = call.data ∧ serviceCall.id = call.id := by
  unfold procRpcData serviceInfo at h
  cases hinfo : server.services call.serviceId with
  | none =>
      simp only [hinfo, Option.getD_none] at h
      cases h
  | some info =>
      simp only [hinfo, Option.getD_some] at h
      split at h
      · rename_i service method hservice hmethod
        cases h
        refine ⟨?_, info, rfl, hservice, hmethod, rfl, rfl⟩
        have hsame : (fun serviceId => if serviceId = call.serviceId then some info
            else server.services serviceId) = server.services := by
          funext serviceId
          split
          · rename_i hid
            rw [hid, hinfo]
          · rfl
        rw [hsame]
      · cases h

end Services

/-- `resp_data`, for the serialized response. -/
def responseFrame (c : MetaCodec) (id : Int64) (response : Bytes) : Bytes :=
  buildFrame c id.toUInt64 [] [] response

/-- The connection written to, if there is one, and the bytes. -/
def onCallbackDone (c : MetaCodec) (server : RpcServer S M) (alive : Nat → Bool) (id : Int64)
    (response : Bytes) : Option (Nat × Bytes) :=
  match server.basicConn with
  | none => none
  | some conn => if alive conn then some (conn, responseFrame c id response) else none

/-! ### onMessage -/

section OnMessage

variable {σ : Type} (c : MetaCodec) (proc : σ → ProcCall → Except Fault σ)

def callOf (frame : Frame) (data : Bytes) : ProcCall where
  id := frame.metaProto.id.toInt64
  serviceId := frame.metaProto.server
  methodId := frame.metaProto.method
  data := data

/-- `proc` stands for `ProcRpcData`, on the state it changes. -/
def handleFrame (s : σ) (buff : Buffer) (frame : Frame) : Except Fault (ProcCall × σ) := do
  let call := callOf frame (← buff.payload frame)
  let s ← proc s call
  return (call, s)

def onMessageRound : Body Fault ProcCall (σ × Buffer) := frameRound c (handleFrame proc)

/-- The calls of `ProcRpcData` and the state afterwards, if the loop is left within the fuel. -/
def onMessage (fuel : Nat) (s : σ) (buff : Buffer) :
    Except Fault (Option (List ProcCall × σ × Buffer)) :=
  loop (onMessageRound c proc) fuel (s, buff)

variable {c proc} in
theorem handled_of_onMessageRound {s s' : σ} {buff buff' : Buffer} {call : ProcCall}
    (h : onMessageRound c proc (s, buff) = .ok (some (call, s', buff'))) :
    proc s call = .ok s' := by
  obtain ⟨frame, -, hhandle, -⟩ := frameRound_eq_some h
  unfold handleFrame at hhandle
  obtain ⟨data, -, hcall⟩ := bind_eq_ok.mp hhandle
  obtain ⟨after, hproc, hafter⟩ := bind_eq_ok.mp hcall
  cases hafter
  exact hproc

def handleBytes (s : σ) (bytes : Bytes) (frame : Frame) : Except Fault (ProcCall × σ) := do
  let call := callOf frame (← readPayload bytes frame)
  let s ← proc s call
  return (call, s)

theorem onMessageRound_views :
    Views (Prod.map id Buffer.readable) (fun p => p.2.WellFormed) (onMessageRound c proc)
      (bytesRound c (handleBytes proc)) := by
  apply frameRound_views
  intro s buff frame hbuff
  simp only [handleFrame, handleBytes, Buffer.payload_eq hbuff]

theorem handleBytes_append (s : σ) (bytes : Bytes) (frame : Frame) (result : ProcCall × σ)
    (more : Bytes) (h : handleBytes proc s bytes frame = .ok result) :
    handleBytes proc s (bytes ++ more) frame = .ok result := by
  unfold handleBytes at h ⊢
  obtain ⟨data, hdata, hcall⟩ := bind_eq_ok.mp h
  rw [readPayload_append hdata more]
  exact hcall

theorem onMessageRound_stable :
    Stable (fun (p : σ × Bytes) more => (p.1, p.2 ++ more)) (bytesRound c (handleBytes proc)) :=
  bytesRound_stable (handleBytes_append proc)

end OnMessage

end RpcServer

end ToyBasket
