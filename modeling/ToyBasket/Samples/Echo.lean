import ToyBasket.Rpc.Synchronous
import ToyBasket.Rpc.MetaMessage

/-!
# The echo sample

`samples/rpc`: the client makes its calls through the stub, from the thread of the timers, and the
server answers each one at once. The two messages have the same generated code.
-/

namespace ToyBasket

open Words Outcome Machine Protobuf

structure EchoMessage where
  message : Bytes
  unknownFields : List UnknownField
deriving DecidableEq, Repr

namespace EchoMessage

def defaultInstance : EchoMessage where
  message := []
  unknownFields := []

def field (rt : Runtime) (tag : Nat) (m : EchoMessage) (bytes : Bytes) : FieldResult EchoMessage :=
  match tag / 8 with
  | 1 =>
      if tag % 256 = 10 then rt.stringField (fun str => { m with message := str }) bytes
      else .unusual
  | _ => .unusual

def generated (rt : Runtime) : Generated EchoMessage where
  field := field rt
  addUnknown := fun m u => { m with unknownFields := m.unknownFields ++ [u] }

def internalSerialize (rt : Runtime) (m : EchoMessage) : Bytes :=
  (if 0 < m.message.length then rt.writeString 1 m.message else []) ++
    rt.writeUnknown m.unknownFields

/-- `set_message` of a new message. -/
def ofText (str : Bytes) : EchoMessage where
  message := str
  unknownFields := []

variable {rt : Runtime}

theorem field_of_ne {tag : Nat} (h : tag ≠ 10) (m : EchoMessage) (bytes : Bytes) :
    field rt tag m bytes = .unusual := by
  unfold field
  split
  · rw [if_neg (by omega)]
  · rfl

theorem lawful_generated (hrt : rt.Lawful) : (generated rt).Lawful := by
  apply lawful_of_readsField
  intro tag
  by_cases htag : tag = 10
  · rw [htag]
    exact readsField_string hrt fun (m : EchoMessage) str => { m with message := str }
  · have hfield : field rt tag = fun _ _ => .unusual := by
      funext m bytes
      exact field_of_ne htag m bytes
    have hunusual : ReadsField (fun (_ : EchoMessage) (_ : Bytes) => .unusual) :=
      readsField_unusual
    rwa [← hfield] at hunusual

/-- The text comes through. -/
theorem parse_ofText (hrt : rt.Lawful) {str : Bytes} (hlength : str.length ≤ maxStringSize)
    (hvalid : rt.verifyUTF8 str) :
    parse rt (generated rt) defaultInstance (internalSerialize rt (ofText str))
      = some (ofText str) := by
  rw [parse_eq_some_iff hrt (lawful_generated hrt), internalSerialize, ofText,
    Runtime.writeUnknown, List.flatMap_nil, List.append_nil]
  split
  · have hfield := stringField_write hrt
      (fun str => ({ defaultInstance with message := str } : EchoMessage)) hlength
    rw [if_pos hvalid] at hfield
    exact parses_of_field hrt (by decide) hfield
  · rename_i hempty
    have hnil : str = [] := List.length_eq_zero_iff.mp (Nat.eq_zero_of_not_pos hempty)
    rw [hnil]
    exact .done _

end EchoMessage

inductive EchoMethod where
  | Echo
  | Print
deriving DecidableEq, Repr

namespace Echo

def text (s : String) : Bytes := s.toUTF8.data.toList

def name : EchoMethod → Bytes
  | .Echo => text "Echo"
  | .Print => text "Print"

def serviceName : Bytes := text "EchoServer"

/-- `RegisterService(echo_service)`. -/
def services : List (Unit × Bytes × List (Bytes × EchoMethod)) :=
  [((), serviceName, [(name .Echo, .Echo), (name .Print, .Print)])]

def greeting : EchoMethod → Bytes
  | .Echo => text "[Echo] server say: received msg: ***"
  | .Print => text "[Print] server say: received msg: ***"

/-- `EchoServerImpl::Echo` and `EchoServerImpl::Print`. -/
def reply (method : EchoMethod) (message : Bytes) : Bytes :=
  greeting method ++ message ++ text "***"

/-- The method as the server calls it, from the bytes of the request to those of the response. Like
`ProcRpcData` it does not ask whether the request could be parsed. -/
def echoServerImpl (rt : Runtime) (left : EchoMessage → Bytes → EchoMessage) (_ : Unit)
    (method : EchoMethod) (request : Bytes) : Bytes :=
  let request := parseInto rt (EchoMessage.generated rt) left EchoMessage.defaultInstance request
  EchoMessage.internalSerialize rt (EchoMessage.ofText (reply method request.message))

variable {R D : Type}

/-- `EchoServer_Stub::Echo` and `EchoServer_Stub::Print`. -/
def stub (rt : Runtime) (method : EchoMethod) (message : Bytes) (response : R) (done : D) :
    MethodCall R D where
  service := serviceName
  method := name method
  request := EchoMessage.internalSerialize rt (EchoMessage.ofText message)
  response := some response
  done := some done

variable {rt : Runtime} {caller : Nat} {wire : RpcWire Unit EchoMethod R D}

theorem echoServerImpl_stub (hrt : rt.Lawful) (left : EchoMessage → Bytes → EchoMessage)
    (method : EchoMethod) {message : Bytes} (hlength : message.length ≤ maxStringSize)
    (hvalid : rt.verifyUTF8 message) : echoServerImpl rt left () method
        (EchoMessage.internalSerialize rt (EchoMessage.ofText message))
      = EchoMessage.internalSerialize rt (EchoMessage.ofText (reply method message)) := by
  rw [echoServerImpl, parseInto_of_parse left (EchoMessage.parse_ofText hrt hlength hvalid)]
  rfl

theorem verifyUTF8_reply (hrt : rt.Lawful) (method : EchoMethod) {message : Bytes}
    (hvalid : rt.verifyUTF8 message) : rt.verifyUTF8 (reply method message) := by
  have hgreeting : rt.verifyUTF8 (greeting method) := by
    apply hrt.verifyUTF8_ascii
    cases method with
    | Echo => decide +kernel
    | Print => decide +kernel
  have hend : rt.verifyUTF8 (text "***") := hrt.verifyUTF8_ascii _ (by decide +kernel)
  exact hrt.verifyUTF8_append _ _ (hrt.verifyUTF8_append _ _ hgreeting hvalid) hend

theorem name_injective : Function.Injective name := by
  intro method method' h
  have hne : name .Echo ≠ name .Print := by decide +kernel
  cases method with
  | Echo =>
      cases method' with
      | Echo => rfl
      | Print => exact absurd h hne
  | Print =>
      cases method' with
      | Echo => exact absurd h hne.symm
      | Print => rfl

theorem eq_of_registered {service : Unit} {serviceId : Bytes} {methods : List (Bytes × EchoMethod)}
    {method method' : EchoMethod} (hservice : (service, serviceId, methods) ∈ services)
    (hmethod : (name method, method') ∈ methods) : method' = method := by
  have hmethods : methods = [(name .Echo, .Echo), (name .Print, .Print)] := by
    rw [services, List.mem_singleton] at hservice
    cases hservice
    rfl
  rw [hmethods] at hmethod
  simp only [List.mem_cons, Prod.mk.injEq, List.not_mem_nil, or_false] at hmethod
  obtain ⟨hname, rfl⟩ | ⟨hname, rfl⟩ := hmethod
  · exact (name_injective hname).symm
  · exact (name_injective hname).symm

/-- A text that the messages can carry. -/
structure Carriable (rt : Runtime) (method : EchoMethod) (message : Bytes) : Prop where
  valid : rt.verifyUTF8 message
  length_le : (reply method message).length ≤ maxStringSize

theorem Carriable.message_le {method : EchoMethod} {message : Bytes}
    (h : Carriable rt method message) : message.length ≤ maxStringSize := by
  have hlength := h.length_le
  rw [reply, List.length_append, List.length_append] at hlength
  omega

/-- The calls are those of the stub. -/
def FromStub (rt : Runtime) (wire : RpcWire Unit EchoMethod R D) : Prop :=
  ∀ p ∈ wire.channel.calls, ∃ method message response done,
    p.2 = stub rt method message response done

/-- The frames are shorter than 2 GiB. -/
def SmallFrames (c : MetaCodec) (wire : RpcWire Unit EchoMethod R D) : Prop :=
  (∀ p ∈ wire.channel.calls, ((requestMessage p.1 p.2).bytes c).length < 2 ^ 31) ∧
    ∀ reply ∈ wire.host.replies,
      ((responseMessage reply.call.id reply.response).bytes c).length < 2 ^ 31

variable {left : RpcMetaMessage → Bytes → RpcMetaMessage}
  {leftMessage : EchoMessage → Bytes → EchoMessage}

/-- A name that the meta can carry. -/
structure Ascii (str : Bytes) : Prop where
  length_le : str.length ≤ maxStringSize
  lt : ∀ byte ∈ str, byte < 128

theorem ascii_serviceName : Ascii serviceName where
  length_le := by decide +kernel
  lt := by decide +kernel

theorem ascii_name (method : EchoMethod) : Ascii (name method) := by
  cases method with
  | Echo => exact ⟨by decide +kernel, by decide +kernel⟩
  | Print => exact ⟨by decide +kernel, by decide +kernel⟩

theorem sendable_requestMessage (hrt : rt.Lawful) {id : Int} {method : EchoMethod}
    {message : Bytes} {response : R} {done : D}
    (hsize : ((requestMessage id (stub rt method message response done)).bytes
      (RpcMetaMessage.codec rt left)).length < 2 ^ 31) :
    (requestMessage id (stub rt method message response done)).Sendable
      (RpcMetaMessage.codec rt left) := by
  refine ⟨hsize, RpcMetaMessage.parse_codec hrt left ⟨?_, ?_, ?_⟩ ⟨?_, ?_⟩⟩
  · exact ascii_serviceName.length_le
  · exact (ascii_name method).length_le
  · rintro u ⟨⟩
  · exact fun _ => hrt.verifyUTF8_ascii _ ascii_serviceName.lt
  · exact fun _ => hrt.verifyUTF8_ascii _ (ascii_name method).lt

theorem sendable_responseMessage (hrt : rt.Lawful) {id : Int64} {response : Bytes}
    (hsize : ((responseMessage id response).bytes (RpcMetaMessage.codec rt left)).length < 2 ^ 31) :
    (responseMessage id response).Sendable (RpcMetaMessage.codec rt left) := by
  refine ⟨hsize, RpcMetaMessage.parse_codec hrt left ⟨?_, ?_, ?_⟩ ⟨?_, ?_⟩⟩
  · exact Nat.zero_le _
  · exact Nat.zero_le _
  · rintro u ⟨⟩
  · exact fun hne => absurd rfl hne
  · exact fun hne => absurd rfl hne

theorem sendable_of_small (hrt : rt.Lawful) (hstub : FromStub rt wire)
    (hsmall : SmallFrames (RpcMetaMessage.codec rt left) wire) :
    wire.Sendable (RpcMetaMessage.codec rt left) := by
  constructor
  · rintro ⟨id, call⟩ hp
    obtain ⟨method, message, response, done, rfl⟩ := hstub _ hp
    exact sendable_requestMessage hrt (hsmall.1 _ hp)
  · intro reply hreply
    exact sendable_responseMessage hrt (hsmall.2 reply hreply)

/-- The `i`-th frame that the client handles answers the `i`-th call that was sent, and for a text
that the messages can carry the response parses as the greeting of the method around the text of the
request. A call that was made before the connection was up is not sent. -/
theorem echoes_inTurn (hrt : rt.Lawful) {highWaterMark : Nat}
    {writeCompleteCallback highWaterMarkCallback : Bool} {events : List (RpcWire.SyncEvent R D)}
    (hevents : ∀ event ∈ events, event.Usual)
    (hrun : run (RpcWire.syncStep (RpcMetaMessage.codec rt left) caller
        (echoServerImpl rt leftMessage))
      (RpcWire.init services highWaterMark writeCompleteCallback highWaterMarkCallback) events
        = .ok wire)
    (hstub : FromStub rt wire) (hsmall : SmallFrames (RpcMetaMessage.codec rt left) wire) :
    ∃ sent : List (Int × MethodCall R D), sent.Sublist wire.channel.calls ∧
      (wire.channel.sent = sent.map fun p =>
        RpcChannel.requestFrame (RpcMetaMessage.codec rt left) p.1 p.2) ∧
      wire.handled.length ≤ sent.length ∧
      ∀ (i : Nat) next id method message response done, wire.handled[i]? = some next →
        sent[i]? = some (id, stub rt method message response done) →
        next.id = id ∧ ∃ bytes, next.answer = some (response, some done, bytes) ∧
          (Carriable rt method message →
            parse rt (EchoMessage.generated rt) EchoMessage.defaultInstance bytes
              = some (EchoMessage.ofText (reply method message))) := by
  obtain ⟨sent, completed, done, hwired, hanswered, h⟩ :=
    RpcWire.inTurn_run hevents hrun (sendable_of_small hrt hstub hsmall)
  refine ⟨sent, hwired.recorded.sent_calls, hwired.recorded.sent_eq, h.handled_le hwired, ?_⟩
  intro i next id method message response done hnext hp
  obtain ⟨hid, service, method', methods, hservice, hmethod, hanswer⟩ :=
    h.answersCall hwired hanswered hnext hp
  obtain rfl := eq_of_registered hservice hmethod
  refine ⟨hid, _, hanswer, ?_⟩
  intro hcarriable
  rw [stub, echoServerImpl_stub hrt leftMessage method' hcarriable.message_le hcarriable.valid]
  exact EchoMessage.parse_ofText hrt hcarriable.length_le
    (verifyUTF8_reply hrt method' hcarriable.valid)

instance (c : MetaCodec) (wire : RpcWire Unit EchoMethod R D) : Decidable (SmallFrames c wire) :=
  inferInstanceAs (Decidable (_ ∧ _))

/-- The timers' thread calls `Print`, and the request is written in two pieces. -/
def printOnce : List (RpcWire.SyncEvent Unit Unit) :=
  [.beside .connect,
    .beside (.call (stub PbRuntime.runtime .Print (text "hello") () ()) (.accepted 0)),
    .beside (.client (.advance 1)), .beside (.client .doPendingFunctors),
    .beside (.client (.functor (.accepted 9))), .beside (.serverReads 100), .serve (.accepted 0),
    .beside (.client (.handleWrite (.accepted 100))), .beside (.serverReads 100),
    .serve (.accepted 200), .serve (.accepted 0), .beside (.channelReads 200),
    .beside (.channelRound []), .beside (.channelRound [])]

theorem echoes_inTurn_printOnce : ∃ wire : RpcWire Unit EchoMethod Unit Unit,
    run (RpcWire.syncStep RpcMetaMessage.pbCodec 1
        (echoServerImpl PbRuntime.runtime fun m _ => m))
      (RpcWire.init services 64 true true) printOnce = .ok wire ∧
      wire.handled.length = 1 ∧ ∃ next ∈ wire.handled, ∃ bytes,
        next.answer = some ((), some (), bytes) ∧
        parse PbRuntime.runtime (EchoMessage.generated PbRuntime.runtime)
            EchoMessage.defaultInstance bytes
          = some (EchoMessage.ofText (text "[Print] server say: received msg: ***hello***")) := by
  obtain ⟨wire, hrun, hcalls, hsmall, hcount⟩ : ∃ wire : RpcWire Unit EchoMethod Unit Unit,
      run (RpcWire.syncStep RpcMetaMessage.pbCodec 1
          (echoServerImpl PbRuntime.runtime fun m _ => m))
        (RpcWire.init services 64 true true) printOnce = .ok wire ∧
        wire.channel.calls = [(1, stub PbRuntime.runtime .Print (text "hello") () ())] ∧
        SmallFrames RpcMetaMessage.pbCodec wire ∧ wire.handled.length = 1 := by
    apply Holds.returns
    decide +kernel
  have husual : ∀ event ∈ printOnce, event.Usual := by
    simp [printOnce, RpcWire.SyncEvent.Usual, RpcWire.Event.Usual, StreamConnection.Event.Usual,
      WriteResult.Fatal]
  generalize printOnce = events at hrun husual
  have hstub : FromStub PbRuntime.runtime wire := by
    intro p hp
    rw [hcalls, List.mem_singleton] at hp
    exact ⟨.Print, text "hello", (), (), congrArg Prod.snd hp⟩
  have hcarriable : Carriable PbRuntime.runtime .Print (text "hello") :=
    ⟨by decide +kernel, by decide +kernel⟩
  obtain ⟨sent, hsent, -, hle, hanswers⟩ :=
    echoes_inTurn PbRuntime.lawful_runtime husual hrun hstub hsmall
  obtain ⟨next, hnext⟩ := List.length_eq_one_iff.mp hcount
  rw [hcalls, List.sublist_singleton] at hsent
  rw [hcount] at hle
  obtain rfl | rfl := hsent
  · cases hle
  obtain ⟨-, bytes, hanswer, hparses⟩ :=
    hanswers 0 next 1 .Print (text "hello") () () (by rw [hnext]; rfl) rfl
  have hparse := hparses hcarriable
  have hreply : reply .Print (text "hello")
      = text "[Print] server say: received msg: ***hello***" := by
    decide +kernel
  rw [hreply] at hparse
  exact ⟨wire, hrun, hcount, next, by rw [hnext]; exact List.mem_cons_self, bytes, hanswer, hparse⟩

end Echo

end ToyBasket
