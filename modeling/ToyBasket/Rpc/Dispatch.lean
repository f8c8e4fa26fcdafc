import ToyBasket.Rpc.Server

/-!
# Dispatch

`RpcServer` does not tell an entry with a null pointer from a missing one. Here the entries that
`operator[]` makes are kept, in `services_` and in the `mdescriptor_` of each service, and so is
what `ProcRpcData` left of them when it used a null pointer: the histories go on after that, as they
would in a process that outlived it.
-/

namespace ToyBasket

open Words

/-- `operator[]`: a missing key gets the default value. -/
def subscript {α β : Type} [DecidableEq α] (default : β) (map : α → Option β) (key : α) :
    β × (α → Option β) :=
  match map key with
  | some value => (value, map)
  | none => (default, Function.update map key (some default))

/-- An entry of `services_`. -/
structure ServiceEntry (S M : Type) where
  service : Option S
  mdescriptor : Bytes → Option (Option M)

abbrev ServiceMap (S M : Type) := Bytes → Option (ServiceEntry S M)

/-- What `RegisterService` reads of the service and its descriptor. -/
structure Registration (S M : Type) where
  service : S
  name : Bytes
  methods : List (Bytes × M)

namespace ServiceMap

variable {S M : Type}

def nullEntry : ServiceEntry S M where
  service := none
  mdescriptor := fun _ => none

def registerService (services : ServiceMap S M) (r : Registration S M) : ServiceMap S M :=
  let serviceInfo : ServiceEntry S M :=
    { service := some r.service
      mdescriptor := r.methods.foldl
        (fun map p => Function.update map p.1 (some (some p.2))) fun _ => none }
  Function.update services r.name (some serviceInfo)

/-- The call made, unless a null pointer is used, and `services_` afterwards. -/
def procRpcData (services : ServiceMap S M) (call : ProcCall) :
    Except Fault (ServiceCall S M) × ServiceMap S M :=
  let (info, services) := subscript nullEntry services call.serviceId
  let (mdescriptor, methods) := subscript none info.mdescriptor call.methodId
  let services :=
    Function.update services call.serviceId (some { info with mdescriptor := methods })
  let called : Except Fault (ServiceCall S M) :=
    match info.service, mdescriptor with
    | some service, some method =>
        .ok { service := service, method := method, request := call.data, id := call.id }
    | _, _ => .error .nullPointer
  (called, services)

inductive Event (S M : Type) where
  | registerService (r : Registration S M)
  | frame (call : ProcCall)

def step (services : ServiceMap S M) : Event S M → ServiceMap S M
  | .registerService r => services.registerService r
  | .frame call => (services.procRpcData call).2

/-- `services_` after a history. -/
def after (events : List (Event S M)) : ServiceMap S M := events.foldl step fun _ => none

/-! ### What was registered -/

def Event.registered (serviceId : Bytes) : Event S M → Option (Registration S M)
  | .registerService r => if r.name = serviceId then some r else none
  | .frame _ => none

/-- The last service registered under the name. -/
def latest (events : List (Event S M)) (serviceId : Bytes) : Option (Registration S M) :=
  events.reverse.findSome? (Event.registered serviceId)

/-- Its method of that name. -/
def methodNamed (r : Registration S M) (methodId : Bytes) : Option M :=
  (r.methods.reverse.find? fun p => p.1 = methodId).map Prod.snd

def Provides (events : List (Event S M)) (call : ProcCall) (service : S) (method : M) : Prop :=
  ∃ r, latest events call.serviceId = some r ∧ r.service = service ∧
    methodNamed r call.methodId = some method

/-- The frame is dispatched to exactly the method it names, or to none if there is none such, no
null pointer is used, and `services_` stays as it was. -/
structure ExactDispatch (events : List (Event S M)) (call : ProcCall) : Prop where
  called : ∀ serviceCall, ((after events).procRpcData call).1 = .ok serviceCall ↔
    Provides events call serviceCall.service serviceCall.method ∧
      serviceCall.request = call.data ∧ serviceCall.id = call.id
  no_null : ((after events).procRpcData call).1 ≠ .error .nullPointer
  kept : ((after events).procRpcData call).2 = after events

/-! ### The entries -/

/-- What an entry, or its absence, says about the last registration. -/
def Records (entry : Option (ServiceEntry S M)) : Option (Registration S M) → Prop
  | none => ∀ info, entry = some info → info.service = none
  | some r => ∃ info, entry = some info ∧ info.service = some r.service ∧
      ∀ methodId method, info.mdescriptor methodId = some (some method) ↔
        methodNamed r methodId = some method

theorem subscript_eq {α β : Type} [DecidableEq α] (default : β) (map : α → Option β) (key : α) :
    subscript default map key =
      ((map key).getD default, Function.update map key (some ((map key).getD default))) := by
  unfold subscript
  split
  · rename_i value hvalue
    rw [hvalue, Option.getD_some, ← hvalue, Function.update_eq_self]
  · rename_i hnone
    rw [hnone, Option.getD_none]

section Entries

variable {services : ServiceMap S M} {events : List (Event S M)} {call : ProcCall}

def foundService (services : ServiceMap S M) (call : ProcCall) : ServiceEntry S M :=
  (services call.serviceId).getD nullEntry

def foundMethod (services : ServiceMap S M) (call : ProcCall) : Option M :=
  ((services.foundService call).mdescriptor call.methodId).getD none

theorem procRpcData_eq : services.procRpcData call =
    (match (services.foundService call).service, services.foundMethod call with
      | some service, some method =>
          .ok { service := service, method := method, request := call.data, id := call.id }
      | _, _ => .error .nullPointer,
    Function.update services call.serviceId (some
      { service := (services.foundService call).service
        mdescriptor := Function.update (services.foundService call).mdescriptor call.methodId
          (some (services.foundMethod call)) })) := by
  simp only [procRpcData, subscript_eq, Function.update_idem]
  rfl

theorem mdescriptor_foldl (methods : List (Bytes × M)) (methodId : Bytes) :
    methods.foldl (fun (map : Bytes → Option (Option M)) p =>
        Function.update map p.1 (some (some p.2))) (fun _ => none) methodId
      = ((methods.reverse.find? fun p => p.1 = methodId).map Prod.snd).map some := by
  induction methods using List.reverseRecOn with
  | nil => rfl
  | append_singleton methods p ih =>
      obtain ⟨methodId', method⟩ := p
      rw [List.foldl_concat, List.reverse_concat, List.find?_cons]
      by_cases hid : methodId' = methodId
      · subst hid
        simp
      · rw [Function.update_of_ne (Ne.symm hid), ih]
        simp [hid]

theorem records_registerService (r : Registration S M) :
    Records ((services.registerService r) r.name) (some r) := by
  refine ⟨_, Function.update_self .., rfl, ?_⟩
  intro methodId method
  simp [mdescriptor_foldl, methodNamed]

/-- A frame enters null pointers at most. -/
theorem Records.frame {serviceId : Bytes} {last : Option (Registration S M)}
    (h : Records (services serviceId) last) :
    Records ((services.procRpcData call).2 serviceId) last := by
  rw [procRpcData_eq]
  by_cases hid : serviceId = call.serviceId
  · subst hid
    simp only [Function.update_self]
    cases last with
    | none =>
        rintro info ⟨⟩
        simp only [foundService]
        cases hinfo : services call.serviceId with
        | none => rfl
        | some info => exact h info hinfo
    | some r =>
        obtain ⟨info, hinfo, hservice, hmethods⟩ := h
        refine ⟨_, rfl, ?_, ?_⟩
        · simp [foundService, hinfo, hservice]
        · intro methodId method
          rw [← hmethods]
          by_cases hmethod : methodId = call.methodId
          · subst hmethod
            simp only [Function.update_self, foundMethod, foundService, hinfo, Option.getD_some]
            cases info.mdescriptor call.methodId with
            | none => simp
            | some found => simp
          · simp [Function.update_of_ne hmethod, foundService, hinfo]
  · simp only [Function.update_of_ne hid]
    exact h

theorem after_records (events : List (Event S M)) (serviceId : Bytes) :
    Records (after events serviceId) (latest events serviceId) := by
  induction events using List.reverseRecOn with
  | nil =>
      rintro info ⟨⟩
  | append_singleton events event ih =>
      rw [after, List.foldl_concat, latest, List.reverse_concat, List.findSome?_cons]
      cases event with
      | registerService r =>
          by_cases hname : r.name = serviceId
          · subst hname
            simp only [Event.registered, if_true]
            exact records_registerService r
          · simp only [Event.registered, if_neg hname, step, registerService,
              Function.update_of_ne (Ne.symm hname)]
            exact ih
      | frame call =>
          simp only [Event.registered]
          exact ih.frame

/-! ### Calling a service -/

/-- The pointers found are those of the registered service and of its method. -/
theorem found_iff_provides {service : S} {method : M} :
    ((after events).foundService call).service = some service ∧
        (after events).foundMethod call = some method ↔ Provides events call service method := by
  have hrecords := after_records events call.serviceId
  unfold Provides foundMethod foundService
  cases hlatest : latest events call.serviceId with
  | none =>
      rw [hlatest] at hrecords
      have hnull : (((after events) call.serviceId).getD nullEntry).service = none := by
        cases hinfo : after events call.serviceId with
        | none => rfl
        | some info => exact hrecords info hinfo
      simp [hnull]
  | some r =>
      rw [hlatest] at hrecords
      obtain ⟨info, hinfo, hservice, hmethods⟩ := hrecords
      have hmethod := hmethods call.methodId method
      simp only [hinfo, Option.getD_some, hservice, Option.some_inj, exists_eq_left', ← hmethod]
      cases info.mdescriptor call.methodId with
      | none => simp
      | some found => simp

theorem error_procRpcData {fault : Fault} (h : (services.procRpcData call).1 = .error fault) :
    fault = .nullPointer := by
  rw [procRpcData_eq] at h
  simp only at h
  split at h
  · cases h
  · cases h
    rfl

theorem Provides.unique {service service' : S} {method method' : M}
    (h : Provides events call service method) (h' : Provides events call service' method') :
    service = service' ∧ method = method' := by
  obtain ⟨r, hlatest, rfl, hmethod⟩ := h
  obtain ⟨r', hlatest', rfl, hmethod'⟩ := h'
  rw [hlatest] at hlatest'
  cases hlatest'
  rw [hmethod] at hmethod'
  cases hmethod'
  exact ⟨rfl, rfl⟩

theorem procRpcData_of_provides {service : S} {method : M}
    (h : Provides events call service method) :
    (after events).procRpcData call =
      (.ok { service := service, method := method, request := call.data, id := call.id },
        after events) := by
  obtain ⟨hservice, hmethod⟩ := found_iff_provides.mpr h
  have hentry : some ((after events).foundService call) = after events call.serviceId := by
    unfold foundService at hservice ⊢
    cases hinfo : after events call.serviceId with
    | none =>
        rw [hinfo] at hservice
        cases hservice
    | some info => rfl
  have hpointer : some ((after events).foundMethod call)
      = ((after events).foundService call).mdescriptor call.methodId := by
    unfold foundMethod at hmethod ⊢
    cases hfound : ((after events).foundService call).mdescriptor call.methodId with
    | none =>
        rw [hfound] at hmethod
        cases hmethod
    | some found => rfl
  rw [procRpcData_eq, hpointer, Function.update_eq_self, hentry, Function.update_eq_self, hservice,
    hmethod]

end Entries

/-- `ProcRpcData` dispatches a frame exactly, and leaves `services_` as it was, if and only if the
frame names a registered service and one of its methods. -/
theorem exactDispatch_iff (events : List (Event S M)) (call : ProcCall) :
    ExactDispatch events call ↔ ∃ service method, Provides events call service method := by
  constructor
  · rintro ⟨hcalled, hnull, -⟩
    cases hresult : ((after events).procRpcData call).1 with
    | error fault =>
        have hfault : fault = .nullPointer := error_procRpcData hresult
        rw [hfault] at hresult
        exact absurd hresult hnull
    | ok serviceCall =>
        have hprovides := ((hcalled serviceCall).mp hresult).1
        exact ⟨serviceCall.service, serviceCall.method, hprovides⟩
  · rintro ⟨service, method, hprovides⟩
    have hrun := procRpcData_of_provides hprovides
    refine ⟨?_, ?_, ?_⟩
    · rintro ⟨service', method', request, id⟩
      rw [hrun]
      simp only [Except.ok.injEq, ServiceCall.mk.injEq]
      constructor
      · rintro ⟨rfl, rfl, rfl, rfl⟩
        exact ⟨hprovides, rfl, rfl⟩
      · rintro ⟨hprovides', rfl, rfl⟩
        obtain ⟨rfl, rfl⟩ := hprovides.unique hprovides'
        exact ⟨rfl, rfl, rfl, rfl⟩
    · rw [hrun]
      nofun
    · rw [hrun]

/-- A frame for a service nobody registered: a null pointer is used, and `services_` has grown. -/
theorem unregistered_not_exactDispatch :
    ¬ ExactDispatch ([] : List (Event Unit Unit))
      { id := 1, serviceId := [69], methodId := [101], data := [] } := by
  intro h
  exact h.no_null rfl

/-! ### The server -/

/-- A null pointer and a missing entry are the same there. -/
def toInfo (info : ServiceEntry S M) : ServiceInfo S M where
  service := info.service
  mdescriptor := fun methodId => (info.mdescriptor methodId).join

def toServer (services : ServiceMap S M) (basicConn : Option Nat) : RpcServer S M where
  services := fun serviceId => (services serviceId).map toInfo
  basicConn := basicConn

section Server

variable (services : ServiceMap S M) (basicConn : Option Nat) (call : ProcCall)

theorem toInfo_nullEntry :
    toInfo (nullEntry : ServiceEntry S M) = { service := none, mdescriptor := fun _ => none } :=
  (rfl)

theorem join_mdescriptor_foldl (methods : List (Bytes × M)) :
    (fun methodId => (methods.foldl (fun (map : Bytes → Option (Option M)) p =>
        Function.update map p.1 (some (some p.2))) (fun _ => none) methodId).join)
      = methods.foldl (fun (map : Bytes → Option M) (methodId, descriptor) methodId' =>
        if methodId' = methodId then some descriptor else map methodId') fun _ => none := by
  induction methods using List.reverseRecOn with
  | nil => rfl
  | append_singleton methods p ih =>
      funext methodId
      rw [List.foldl_concat, List.foldl_concat, ← ih]
      by_cases hid : methodId = p.1
      · subst hid
        simp
      · simp [hid]

theorem toServer_registerService (r : Registration S M) :
    toServer (services.registerService r) basicConn
      = (services.toServer basicConn).registerService r.service r.name r.methods := by
  unfold toServer RpcServer.registerService
  congr 1
  funext serviceId
  by_cases hid : serviceId = r.name
  · subst hid
    simp [registerService, toInfo, join_mdescriptor_foldl]
  · simp [registerService, hid]

theorem toInfo_update (info : ServiceEntry S M) (methodId : Bytes) :
    toInfo
      { service := info.service
        mdescriptor := Function.update info.mdescriptor methodId
          (some ((info.mdescriptor methodId).getD none)) } = toInfo info := by
  unfold toInfo
  congr 1
  funext methodId'
  by_cases hid : methodId' = methodId
  · subst hid
    cases info.mdescriptor methodId' with
    | none => simp
    | some found => simp
  · simp [hid]

/-- `procRpcData` of the server is this one, without the entries it leaves behind. -/
theorem procRpcData_toServer : (services.toServer basicConn).procRpcData call =
    (services.procRpcData call).1.map fun serviceCall =>
      (serviceCall, toServer (services.procRpcData call).2 basicConn) := by
  have hfound : (services.toServer basicConn).serviceInfo call.serviceId
      = toInfo (services.foundService call) := by
    unfold RpcServer.serviceInfo toServer foundService
    simp only [← toInfo_nullEntry]
    exact Option.getD_map toInfo nullEntry _
  have hpointer : (toInfo (services.foundService call)).mdescriptor call.methodId
      = services.foundMethod call := by
    simp only [foundMethod, toInfo]
    cases (services.foundService call).mdescriptor call.methodId with
    | none => rfl
    | some found => rfl
  have hservice : (toInfo (services.foundService call)).service
      = (services.foundService call).service := rfl
  have hservices : toServer (Function.update services call.serviceId (some
        { service := (services.foundService call).service
          mdescriptor := Function.update (services.foundService call).mdescriptor call.methodId
            (some (services.foundMethod call)) })) basicConn =
      { services.toServer basicConn with
        services := fun serviceId =>
          if serviceId = call.serviceId then some (toInfo (services.foundService call))
          else (services.toServer basicConn).services serviceId } := by
    unfold toServer
    congr 1
    funext serviceId
    by_cases hid : serviceId = call.serviceId
    · subst hid
      simp only [Function.update_self, if_true, Option.map_some]
      exact congrArg some (toInfo_update _ _)
    · simp [hid]
  rw [RpcServer.procRpcData, hfound, procRpcData_eq, hservices]
  simp only [hpointer, hservice]
  cases (services.foundService call).service with
  | none => rfl
  | some service =>
      cases services.foundMethod call with
      | none => rfl
      | some method => rfl

end Server

end ServiceMap

end ToyBasket
