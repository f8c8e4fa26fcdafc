import ToyBasket.Rpc.Server
import ToyBasket.Rpc.Channel
import ToyBasket.Rpc.MetaMessage
import ToyBasket.Lib.Machine

/-!
# The round trip of frames

What one side builds the other side takes apart again, but for one case: the readiness test wants a
byte behind the meta, so a frame without payload is recognized only when another one follows. At the
end of the stream it stays in the buffer.
-/

namespace ToyBasket

open Words Outcome Drain

/-- What a frame is built from. -/
structure Message where
  id : UInt64
  server : Bytes
  method : Bytes
  payload : Bytes
deriving DecidableEq, Repr

namespace Message

def bytes (c : MetaCodec) (m : Message) : Bytes := buildFrame c m.id m.server m.method m.payload

def rpcMeta (m : Message) : RpcMeta := builtMeta m.id m.server m.method m.payload

def frame (c : MetaCodec) (m : Message) : Frame where
  metaProto := m.rpcMeta
  offset := (c.serialize m.rpcMeta).length + 4
  length := (m.bytes c).length

/-- The frame is shorter than 2 GiB and its meta survives the codec. -/
structure Sendable (c : MetaCodec) (m : Message) : Prop where
  size_lt : (m.bytes c).length < 2 ^ 31
  parse_serialize : c.parse (c.serialize m.rpcMeta) = m.rpcMeta

instance (c : MetaCodec) (m : Message) : Decidable (m.Sendable c) :=
  decidable_of_iff ((m.bytes c).length < 2 ^ 31 ∧ c.parse (c.serialize m.rpcMeta) = m.rpcMeta)
    ⟨fun h => ⟨h.1, h.2⟩, fun h => ⟨h.1, h.2⟩⟩

end Message

def stream (c : MetaCodec) (messages : List Message) : Bytes :=
  (messages.map (Message.bytes c)).flatten

theorem stream_append (c : MetaCodec) (messages messages' : List Message) :
    stream c (messages ++ messages') = stream c messages ++ stream c messages' := by
  rw [stream, List.map_append, List.flatten_append]
  rfl

def EndsWithPayload (messages : List Message) : Prop :=
  ∀ m ∈ messages.getLast?, m.payload ≠ []

theorem endsWithPayload_map {α : Type} {f : α → Message} {payload : α → Bytes}
    (hf : ∀ a, (f a).payload = payload a) (l : List α) :
    EndsWithPayload (l.map f) ↔ ∀ a ∈ l.getLast?, payload a ≠ [] := by
  rw [EndsWithPayload, List.getLast?_map]
  cases l.getLast? with
  | none => simp
  | some a => simp [hf]

/-- The outputs and the final state of a side that handles each message by `step`. -/
def handleAll {σ ω : Type} (step : σ → Message → ω × σ) : σ → List Message → List ω × σ
  | s, [] => ([], s)
  | s, m :: messages =>
      ((step s m).1 :: (handleAll step (step s m).2 messages).1,
        (handleAll step (step s m).2 messages).2)

section Rounds

variable {σ ω : Type} {c : MetaCodec} {handle : σ → Bytes → Frame → Except Fault (ω × σ)}
  {step : σ → Message → ω × σ} {s : σ} {m : Message} {messages : List Message} {rest : Bytes}

theorem bytes_ne_nil (c : MetaCodec) (m : Message) : m.bytes c ≠ [] := by
  apply List.ne_nil_of_length_pos
  rw [Message.bytes, length_buildFrame]
  omega

theorem bytesRound_message (hm : m.Sendable c)
    (hstep : ∀ rest, handle s (m.bytes c ++ rest) (m.frame c) = .ok (step s m))
    (hfollow : m.payload ++ rest ≠ []) :
    bytesRound c handle (s, m.bytes c ++ rest) = .ok (some ((step s m).1, (step s m).2, rest)) := by
  have hframe : readFrame c (m.bytes c ++ rest) = .ok (some (m.frame c)) := by
    rw [Message.bytes, readFrame_buildFrame rest hm.size_lt hm.parse_serialize, if_neg hfollow]
    rfl
  rw [bytesRound_eq_some hframe (hstep rest)]
  simp [Message.frame]

theorem bytesRound_message_alone (hm : m.Sendable c) (hempty : m.payload = []) :
    bytesRound c handle (s, m.bytes c) = .ok none := by
  apply bytesRound_eq_none
  have hread := readFrame_buildFrame [] hm.size_lt hm.parse_serialize
  rwa [hempty, List.append_nil, List.append_nil, if_pos rfl, ← hempty] at hread

theorem rounds_stream (s : σ) (rest : Bytes) (hmessages : ∀ m ∈ messages, m.Sendable c)
    (hstep : ∀ s, ∀ m ∈ messages, ∀ rest,
      handle s (m.bytes c ++ rest) (m.frame c) = .ok (step s m))
    (hend : rest ≠ [] ∨ EndsWithPayload messages) :
    Rounds (bytesRound c handle) (s, stream c messages ++ rest) (handleAll step s messages).1
      ((handleAll step s messages).2, rest) := by
  induction messages generalizing s with
  | nil => exact .refl _
  | cons m messages ih =>
      have hm := hmessages m List.mem_cons_self
      have hstream : stream c (m :: messages) ++ rest
          = m.bytes c ++ (stream c messages ++ rest) := by
        simp [stream]
      have hfollow : m.payload ++ (stream c messages ++ rest) ≠ [] := by
        obtain hrest | hpayload := hend
        · simp [hrest]
        · cases messages with
          | nil =>
              have hne := hpayload m (by simp)
              simp [hne]
          | cons m' messages =>
              have hne := bytes_ne_nil c m'
              simp [stream, hne]
      have hend' : rest ≠ [] ∨ EndsWithPayload messages := by
        apply hend.imp_right
        intro hpayload
        cases messages with
        | nil => simp [EndsWithPayload]
        | cons m' messages =>
            intro last hlast
            apply hpayload last
            rwa [List.getLast?_cons_cons]
      rw [hstream]
      refine .step (bytesRound_message hm (hstep s m List.mem_cons_self) hfollow) ?_
      exact ih _ (fun m' hm' => hmessages m' (List.mem_cons_of_mem _ hm'))
        (fun s m' hm' => hstep s m' (List.mem_cons_of_mem _ hm')) hend'

theorem EndsWithPayload.leaves (hend : EndsWithPayload messages)
    (hmessages : ∀ m ∈ messages, m.Sendable c)
    (hstep : ∀ s, ∀ m ∈ messages, ∀ rest,
      handle s (m.bytes c ++ rest) (m.frame c) = .ok (step s m)) (s : σ) :
    Leaves (bytesRound c handle) (s, stream c messages) (handleAll step s messages).1
      ((handleAll step s messages).2, []) := by
  have hrounds := rounds_stream s [] hmessages hstep (.inr hend)
  rw [List.append_nil] at hrounds
  exact ⟨hrounds, bytesRound_eq_none rfl⟩

/-- A message without payload at the end is left in the stream. -/
theorem endsWithPayload_of_leaves (hmessages : ∀ m ∈ messages, m.Sendable c)
    (hstep : ∀ s, ∀ m ∈ messages, ∀ rest,
      handle s (m.bytes c ++ rest) (m.frame c) = .ok (step s m))
    {outs : List ω} {t : σ}
    (hleaves : Leaves (bytesRound c handle) (s, stream c messages) outs (t, [])) :
    EndsWithPayload messages := by
  intro last hlast hempty
  obtain ⟨init, rfl⟩ := List.getLast?_eq_some_iff.mp hlast
  have hsendable := hmessages last (by simp)
  have hinit := rounds_stream s (last.bytes c)
    (fun m hm => hmessages m (List.mem_append_left _ hm))
    (fun s m hm => hstep s m (List.mem_append_left _ hm)) (.inl (bytes_ne_nil c last))
  have hstream : stream c (init ++ [last]) = stream c init ++ last.bytes c := by
    simp [stream]
  have hstuck : Leaves (bytesRound c handle) (s, stream c (init ++ [last]))
      (handleAll step s init).1 ((handleAll step s init).2, last.bytes c) := by
    rw [hstream]
    exact ⟨hinit, bytesRound_message_alone hsendable hempty⟩
  obtain ⟨-, heq⟩ := hleaves.unique hstuck
  exact bytes_ne_nil c last (congrArg Prod.snd heq).symm

variable {body : Body Fault ω (σ × Buffer)} {buff buff' : Buffer}

theorem endsWithPayload_of_loop
    (hviews : Views (Prod.map id Buffer.readable) (fun p => p.2.WellFormed) body
      (bytesRound c handle))
    (hbuff : buff.WellFormed) (hmessages : ∀ m ∈ messages, m.Sendable c)
    (hstep : ∀ s, ∀ m ∈ messages, ∀ rest,
      handle s (m.bytes c ++ rest) (m.frame c) = .ok (step s m))
    (hstream : buff.readable = stream c messages) {fuel : Nat} {outs : List ω} {s' : σ}
    (hloop : loop body fuel (s, buff) = .ok (some (outs, s', buff')))
    (hempty : buff'.readable = []) :
    EndsWithPayload messages := by
  obtain ⟨hleaves, -⟩ := hviews.leaves hbuff (leaves_of_loop hloop)
  simp only [Prod.map, id, hempty, hstream] at hleaves
  exact endsWithPayload_of_leaves hmessages hstep hleaves

theorem EndsWithPayload.loop (hend : EndsWithPayload messages)
    (hviews : Views (Prod.map id Buffer.readable) (fun p => p.2.WellFormed) body
      (bytesRound c handle))
    (hbuff : buff.WellFormed) (hmessages : ∀ m ∈ messages, m.Sendable c)
    (hstep : ∀ s, ∀ m ∈ messages, ∀ rest,
      handle s (m.bytes c ++ rest) (m.frame c) = .ok (step s m))
    (hstream : buff.readable = stream c messages) (s : σ) :
    ∃ fuel s' buff',
      Drain.loop body fuel (s, buff) = .ok (some ((handleAll step s messages).1, s', buff')) ∧
        buff'.readable = [] := by
  have hend := hend.leaves hmessages hstep s
  rw [← hstream] at hend
  obtain ⟨⟨s', buff'⟩, hleaves, -, hview⟩ := hviews.lift (s := (s, buff)) hbuff hend
  obtain ⟨fuel, hloop⟩ := hleaves.loop
  exact ⟨fuel, s', buff', hloop, congrArg Prod.snd hview⟩

end Rounds

/-! ### The two directions -/

namespace RpcServer

def callOfMessage (m : Message) : ProcCall where
  id := m.id.toInt64
  serviceId := m.server
  methodId := m.method
  data := m.payload

variable {σ : Type} {c : MetaCodec}

theorem handleBytes_message (proc : σ → ProcCall → Except Fault σ) {m : Message}
    (hm : m.Sendable c) (s : σ) (rest : Bytes) :
    handleBytes proc s (m.bytes c ++ rest) (m.frame c)
      = (proc s (callOfMessage m)).map fun s => (callOfMessage m, s) := by
  have hdata : readPayload (m.bytes c ++ rest) (m.frame c) = .ok m.payload :=
    readPayload_buildFrame rest _ hm.size_lt
  have hcall : callOf (m.frame c) m.payload = callOfMessage m := rfl
  simp only [handleBytes, hdata, ok_bind, hcall]
  cases proc s (callOfMessage m) with
  | error fault => rfl
  | ok s' => rfl

theorem eq_callOfMessage {proc : σ → ProcCall → Except Fault σ} {m : Message} (hm : m.Sendable c)
    {s s' : σ} {rest : Bytes} {call : ProcCall}
    (h : handleBytes proc s (m.bytes c ++ rest) (m.frame c) = .ok (call, s')) :
    call = callOfMessage m := by
  rw [handleBytes_message proc hm] at h
  cases hproc : proc s (callOfMessage m) with
  | error fault =>
      rw [hproc] at h
      cases h
  | ok after =>
      rw [hproc] at h
      cases h
      rfl

variable (proc : σ → ProcCall → σ)

def step (s : σ) (m : Message) : ProcCall × σ := (callOfMessage m, proc s (callOfMessage m))

theorem handleAll_step (s : σ) (messages : List Message) :
    (handleAll (step proc) s messages).1 = messages.map callOfMessage := by
  induction messages generalizing s with
  | nil => rfl
  | cons m messages ih => exact congrArg _ (ih _)

end RpcServer

namespace RpcChannel

variable {R D : Type} {c : MetaCodec} (runDone : RpcChannel R D → D → RpcChannel R D)

def handledOf (c : MetaCodec) (channel : RpcChannel R D) (m : Message) : Handled R D where
  id := m.id.toInt64.toInt
  length := (m.bytes c).length
  answer := (channel.take m.id.toInt64.toInt).1.response.map fun response =>
    (response, (channel.take m.id.toInt64.toInt).1.done, m.payload)

def afterwards (channel : RpcChannel R D) (m : Message) : RpcChannel R D :=
  match (channel.take m.id.toInt64.toInt).1.response, (channel.take m.id.toInt64.toInt).1.done with
  | some _, some done => runDone (channel.take m.id.toInt64.toInt).2 done
  | _, _ => (channel.take m.id.toInt64.toInt).2

def step (c : MetaCodec) (channel : RpcChannel R D) (m : Message) : Handled R D × RpcChannel R D :=
  (handledOf c channel m, afterwards runDone channel m)

theorem handleBytes_message {m : Message} (hm : m.Sendable c) (channel : RpcChannel R D)
    (rest : Bytes) :
    handleBytes (fun channel done => .ok (runDone channel done)) channel (m.bytes c ++ rest)
      (m.frame c) = .ok (step runDone c channel m) := by
  have hdata : readPayload (m.bytes c ++ rest) (m.frame c) = .ok m.payload :=
    readPayload_buildFrame rest _ hm.size_lt
  have hid : (m.frame c).metaProto.id = m.id := rfl
  simp only [handleBytes, answerWith, hdata, ok_bind, hid, step, handledOf, afterwards]
  cases (channel.take m.id.toInt64.toInt).1.response with
  | none => rfl
  | some response =>
      cases (channel.take m.id.toInt64.toInt).1.done with
      | none => rfl
      | some done => rfl

/-- All a closure does to the channel is to make calls on it. -/
def OnlyCalls (c : MetaCodec) : Prop :=
  ∀ channel done, ∃ calls, Machine.run (callMethod c) channel calls = .ok (runDone channel done)

variable {runDone}

theorem OnlyCalls.numbered (hdone : OnlyCalls runDone c) {channel : RpcChannel R D}
    (hchannel : channel.Numbered) (done : D) : (runDone channel done).Numbered := by
  obtain ⟨calls, hcalls⟩ := hdone channel done
  exact Machine.invariant (fun _ _ _ h hcall => numbered_callMethod h hcall) hcalls hchannel

theorem OnlyCalls.out (hdone : OnlyCalls runDone c) {channel : RpcChannel R D}
    (hchannel : channel.Numbered) (done : D) {id : Int} {out : OutstandingCall R D}
    (hout : channel.out id = some out) : (runDone channel done).out id = some out := by
  obtain ⟨calls, hcalls⟩ := hdone channel done
  have hkept : ∀ (channel : RpcChannel R D) call channel',
      channel.Numbered ∧ channel.out id = some out → callMethod c channel call = .ok channel' →
        channel'.Numbered ∧ channel'.out id = some out := by
    rintro channel call channel' ⟨h, hout⟩ hcall
    exact ⟨numbered_callMethod h hcall, out_callMethod h hcall hout⟩
  exact (Machine.invariant hkept hcalls ⟨hchannel, hout⟩).2

theorem numbered_afterwards (hdone : OnlyCalls runDone c) {channel : RpcChannel R D} (m : Message)
    (hchannel : channel.Numbered) : (afterwards runDone channel m).Numbered := by
  unfold afterwards
  split
  · exact hdone.numbered (numbered_take hchannel) _
  · exact numbered_take hchannel

theorem out_afterwards (hdone : OnlyCalls runDone c) {channel : RpcChannel R D} {m : Message}
    (hchannel : channel.Numbered) {id : Int} {out : OutstandingCall R D}
    (hne : id ≠ m.id.toInt64.toInt) (h : channel.out id = some out) :
    (afterwards runDone channel m).out id = some out := by
  rw [← out_take_of_ne hne] at h
  unfold afterwards
  split
  · exact hdone.out (numbered_take hchannel) _ h
  · exact h

theorem handleAll_step_getElem? (hdone : OnlyCalls runDone c) {channel : RpcChannel R D}
    (hchannel : channel.Numbered) {before : List Message} (after : List Message) {m : Message}
    {response : R} {done : Option D}
    (hfirst : ∀ m' ∈ before, m'.id.toInt64 ≠ m.id.toInt64)
    (hout : channel.out m.id.toInt64.toInt = some { response := some response, done := done }) :
    (handleAll (step runDone c) channel (before ++ m :: after)).1[before.length]? = some
      { id := m.id.toInt64.toInt, length := (m.bytes c).length
        answer := some (response, done, m.payload) } := by
  induction before generalizing channel with
  | nil => simp [handleAll, step, handledOf, take_of_out_eq_some hout]
  | cons m' before ih =>
      have hne : m.id.toInt64.toInt ≠ m'.id.toInt64.toInt := by
        intro heq
        exact hfirst m' List.mem_cons_self (Int64.toInt_inj.mp heq).symm
      have hout' := out_afterwards hdone hchannel hne hout
      have hrest := ih (numbered_afterwards hdone m' hchannel)
        (fun m'' hm'' => hfirst m'' (List.mem_cons_of_mem _ hm'')) hout'
      simp only [List.cons_append, handleAll, List.length_cons, List.getElem?_cons_succ]
      exact hrest

theorem length_handleAll_step (channel : RpcChannel R D) (messages : List Message) :
    (handleAll (step runDone c) channel messages).1.length = messages.length := by
  induction messages generalizing channel with
  | nil => rfl
  | cons m messages ih => exact congrArg (· + 1) (ih _)

end RpcChannel

def requestMessage {R D : Type} (index : Int) (call : MethodCall R D) : Message where
  id := (Int64.ofInt index).toUInt64
  server := call.service
  method := call.method
  payload := call.request

def responseMessage (id : Int64) (response : Bytes) : Message where
  id := id.toUInt64
  server := []
  method := []
  payload := response

section RoundTrip

variable {σ R D : Type}

/-- The server makes one call of `ProcRpcData` for each frame, in order, and keeps no bytes. -/
def RequestsArrive (c : MetaCodec) (proc : σ → ProcCall → σ) (s : σ)
    (calls : List (Int × MethodCall R D)) (buff : Buffer) : Prop :=
  ∃ fuel s' buff', RpcServer.onMessage c (fun s call => .ok (proc s call)) fuel s buff = .ok (some
      (calls.map fun (index, call) =>
        { id := Int64.ofInt index, serviceId := call.service, methodId := call.method
          data := call.request }, s', buff')) ∧
    buff'.readable = []

/-- The channel handles one frame for each response, each outstanding call gets the bytes of the
first response with its id, and no bytes are kept. -/
def ResponsesArrive (c : MetaCodec) (runDone : RpcChannel R D → D → RpcChannel R D)
    (channel : RpcChannel R D) (responses : List (Int64 × Bytes)) (buff : Buffer) : Prop :=
  ∃ fuel handled channel' buff',
    RpcChannel.onMessage c (fun channel done => .ok (runDone channel done)) fuel channel buff
      = .ok (some (handled, channel', buff')) ∧
    buff'.readable = [] ∧ handled.length = responses.length ∧
    ∀ before id bytes after, responses = before ++ (id, bytes) :: after →
      (∀ p ∈ before, p.1 ≠ id) → ∀ response done,
      channel.out id.toInt = some { response := some response, done := done } →
      handled[before.length]? = some
        { id := id.toInt, length := (RpcServer.responseFrame c id bytes).length
          answer := some (response, done, bytes) }

variable {c : MetaCodec} {buff : Buffer}

theorem requestsArrive_iff (hbuff : buff.WellFormed) {calls : List (Int × MethodCall R D)}
    (hcalls : ∀ p ∈ calls, (requestMessage p.1 p.2).Sendable c)
    (hreadable : buff.readable
      = (calls.map fun (index, call) => RpcChannel.requestFrame c index call).flatten)
    (proc : σ → ProcCall → σ) (s : σ) :
    RequestsArrive c proc s calls buff ↔ ∀ p ∈ calls.getLast?, p.2.request ≠ [] := by
  have hmessages : ∀ m ∈ calls.map fun p => requestMessage p.1 p.2, m.Sendable c := by
    intro m hm
    obtain ⟨p, hp, rfl⟩ := List.mem_map.mp hm
    exact hcalls p hp
  have hstep : ∀ s, ∀ m ∈ calls.map fun p => requestMessage p.1 p.2, ∀ rest,
      RpcServer.handleBytes (fun s call => .ok (proc s call)) s (m.bytes c ++ rest) (m.frame c)
        = .ok (RpcServer.step proc s m) := fun s m hm rest =>
    RpcServer.handleBytes_message _ (hmessages m hm) s rest
  have hstream : buff.readable = stream c (calls.map fun p => requestMessage p.1 p.2) := by
    rw [hreadable, stream, List.map_map]
    rfl
  have hend : EndsWithPayload (calls.map fun p => requestMessage p.1 p.2) ↔
      ∀ p ∈ calls.getLast?, p.2.request ≠ [] := endsWithPayload_map (fun _ => rfl) calls
  have hviews := RpcServer.onMessageRound_views c fun s call => .ok (proc s call)
  rw [← hend]
  constructor
  · rintro ⟨fuel, s', buff', hloop, hempty⟩
    exact endsWithPayload_of_loop hviews hbuff hmessages hstep hstream hloop hempty
  · intro hpayload
    obtain ⟨fuel, s', buff', hloop, hempty⟩ :=
      hpayload.loop hviews hbuff hmessages hstep hstream s
    refine ⟨fuel, s', buff', ?_, hempty⟩
    rw [RpcServer.onMessage, hloop, RpcServer.handleAll_step, List.map_map]
    simp [RpcServer.callOfMessage, requestMessage, Function.comp_def]

theorem responsesArrive_iff (hbuff : buff.WellFormed) {responses : List (Int64 × Bytes)}
    (hresponses : ∀ p ∈ responses, (responseMessage p.1 p.2).Sendable c)
    (hreadable : buff.readable
      = (responses.map fun (id, bytes) => RpcServer.responseFrame c id bytes).flatten)
    {runDone : RpcChannel R D → D → RpcChannel R D}
    (hdone : RpcChannel.OnlyCalls runDone c) {channel : RpcChannel R D}
    (hchannel : channel.Numbered) :
    ResponsesArrive c runDone channel responses buff ↔ ∀ p ∈ responses.getLast?, p.2 ≠ [] := by
  have hmessages : ∀ m ∈ responses.map fun p => responseMessage p.1 p.2, m.Sendable c := by
    intro m hm
    obtain ⟨p, hp, rfl⟩ := List.mem_map.mp hm
    exact hresponses p hp
  have hstep : ∀ channel, ∀ m ∈ responses.map fun p => responseMessage p.1 p.2, ∀ rest,
      RpcChannel.handleBytes (fun channel done => .ok (runDone channel done)) channel
        (m.bytes c ++ rest) (m.frame c) = .ok (RpcChannel.step runDone c channel m) :=
    fun channel m hm rest => RpcChannel.handleBytes_message runDone (hmessages m hm) channel rest
  have hstream : buff.readable = stream c (responses.map fun p => responseMessage p.1 p.2) := by
    rw [hreadable, stream, List.map_map]
    rfl
  have hend : EndsWithPayload (responses.map fun p => responseMessage p.1 p.2) ↔
      ∀ p ∈ responses.getLast?, p.2 ≠ [] := endsWithPayload_map (fun _ => rfl) responses
  have hviews := RpcChannel.onMessageRound_views c fun channel done => .ok (runDone channel done)
  rw [← hend]
  constructor
  · rintro ⟨fuel, handled, channel', buff', hloop, hempty, -⟩
    exact endsWithPayload_of_loop hviews hbuff hmessages hstep hstream hloop hempty
  · intro hpayload
    obtain ⟨fuel, channel', buff', hloop, hempty⟩ :=
      hpayload.loop hviews hbuff hmessages hstep hstream channel
    refine ⟨fuel, _, channel', buff', hloop, hempty, ?_, ?_⟩
    · rw [RpcChannel.length_handleAll_step, List.length_map]
    · rintro before id bytes after rfl hfirst response done hout
      have hid : ∀ p : Int64 × Bytes, (responseMessage p.1 p.2).id.toInt64 = p.1 := fun p =>
        Int64.toInt64_toUInt64 p.1
      have hfirst' : ∀ m' ∈ before.map fun p => responseMessage p.1 p.2,
          m'.id.toInt64 ≠ (responseMessage id bytes).id.toInt64 := by
        intro m' hm'
        obtain ⟨p, hp, rfl⟩ := List.mem_map.mp hm'
        rw [hid, hid (id, bytes)]
        exact hfirst p hp
      have hout' : channel.out (responseMessage id bytes).id.toInt64.toInt
          = some { response := some response, done := done } := by
        rw [hid (id, bytes)]
        exact hout
      have hanswer := RpcChannel.handleAll_step_getElem? (c := c) hdone hchannel
        (after.map fun p => responseMessage p.1 p.2) hfirst' hout'
      rw [hid (id, bytes), List.length_map] at hanswer
      rw [List.map_append, List.map_cons]
      exact hanswer

/-- In both directions the frames arrive if and only if the last of them, if there is one, has a
payload. -/
theorem roundTrip_iff {c : MetaCodec} {buff : Buffer} (hbuff : buff.WellFormed) :
    (∀ (calls : List (Int × MethodCall R D)) (proc : σ → ProcCall → σ) (s : σ),
      (∀ p ∈ calls, (requestMessage p.1 p.2).Sendable c) →
      buff.readable
        = (calls.map fun (index, call) => RpcChannel.requestFrame c index call).flatten →
      (RequestsArrive c proc s calls buff ↔ ∀ p ∈ calls.getLast?, p.2.request ≠ [])) ∧
    (∀ (responses : List (Int64 × Bytes)) (runDone : RpcChannel R D → D → RpcChannel R D)
        (channel : RpcChannel R D),
      (∀ p ∈ responses, (responseMessage p.1 p.2).Sendable c) →
      buff.readable
        = (responses.map fun (id, bytes) => RpcServer.responseFrame c id bytes).flatten →
      RpcChannel.OnlyCalls runDone c → channel.Numbered →
      (ResponsesArrive c runDone channel responses buff ↔ ∀ p ∈ responses.getLast?, p.2 ≠ [])) :=
  ⟨fun _ proc s hcalls hreadable => requestsArrive_iff hbuff hcalls hreadable proc s,
    fun _ _ _ hresponses hreadable hdone hchannel =>
      responsesArrive_iff hbuff hresponses hreadable hdone hchannel⟩

end RoundTrip

/-! ### A call whose request has no bytes -/

def Buffer.holding (bytes : Bytes) : Buffer where
  buffer := List.replicate 8 0 ++ bytes
  readerIndex := 8
  writerIndex := 8 + bytes.length

theorem Buffer.readable_holding (bytes : Bytes) : (holding bytes).readable = bytes := by
  simp [holding, readable]

theorem Buffer.holding_wellFormed {bytes : Bytes} (h : bytes.length < 2 ^ 31) :
    (holding bytes).WellFormed where
  reader_le := Nat.le_add_right 8 _
  writer_le := by
    rw [holding, List.length_append, List.length_replicate]
  cheap_le := by simp [holding, kCheapPrepend]
  size_le := by
    simp only [holding, List.length_append, List.length_replicate, maxSize]
    omega

def callWith (request : Bytes) : MethodCall Unit Unit where
  service := [115]
  method := [109]
  request := request
  response := some ()
  done := none

def requestBytes (index : Int) (request : Bytes) : Bytes :=
  RpcChannel.requestFrame RpcMetaMessage.pbCodec index (callWith request)

theorem not_arrives_emptyRequest :
    (Buffer.holding (requestBytes 1 [])).WellFormed ∧
      (requestMessage 1 (callWith [])).Sendable RpcMetaMessage.pbCodec ∧
      (Buffer.holding (requestBytes 1 [])).readable = requestBytes 1 [] ∧
      ¬ RequestsArrive RpcMetaMessage.pbCodec (fun (_ : Unit) _ => ()) () [(1, callWith [])]
        (Buffer.holding (requestBytes 1 [])) := by
  have hwell : (Buffer.holding (requestBytes 1 [])).WellFormed :=
    Buffer.holding_wellFormed (by decide)
  have hsend : (requestMessage 1 (callWith [])).Sendable RpcMetaMessage.pbCodec := by decide
  have hreadable := Buffer.readable_holding (requestBytes 1 [])
  refine ⟨hwell, hsend, hreadable, ?_⟩
  rw [requestsArrive_iff hwell (by simpa using hsend)
    (by simpa [requestBytes] using hreadable)]
  simp [callWith]

/-- The first frame has no payload. -/
def twoCalls : List (Int × MethodCall Unit Unit) := [(1, callWith []), (2, callWith [7])]

def twoResponses : List (Int64 × Bytes) := [(1, []), (2, [7])]

def responseBytes : Bytes :=
  (twoResponses.map fun (id, bytes) =>
    RpcServer.responseFrame RpcMetaMessage.pbCodec id bytes).flatten

def afterCalls : RpcChannel Unit Unit where
  conn := true
  index := 2
  out := fun id =>
    if id = 2 then some { response := some (), done := none }
    else if id = 1 then some { response := some (), done := none }
    else none
  calls := twoCalls
  sent := [requestBytes 1 [], requestBytes 2 [7]]

theorem roundTrip_iff_twoFrames :
    RequestsArrive RpcMetaMessage.pbCodec (fun (_ : Unit) _ => ()) () twoCalls
        (Buffer.holding (requestBytes 1 [] ++ requestBytes 2 [7])) ∧
      ResponsesArrive RpcMetaMessage.pbCodec (fun channel _ => channel) afterCalls twoResponses
        (Buffer.holding responseBytes) := by
  have hrequests : ∀ p ∈ twoCalls, (requestMessage p.1 p.2).Sendable RpcMetaMessage.pbCodec := by
    decide
  have hresponses : ∀ p ∈ twoResponses,
      (responseMessage p.1 p.2).Sendable RpcMetaMessage.pbCodec := by decide
  have hbytes := Buffer.readable_holding (requestBytes 1 [] ++ requestBytes 2 [7])
  have hbytes' := Buffer.readable_holding responseBytes
  constructor
  · rw [(roundTrip_iff (Buffer.holding_wellFormed (by decide))).1 twoCalls _ _ hrequests
      (by simpa [twoCalls, requestBytes] using hbytes)]
    simp [twoCalls, callWith]
  · have hstart : RpcChannel.Numbered (RpcChannel.init.onConnection true : RpcChannel Unit Unit) :=
      RpcChannel.numbered_init
    have hcalls : Machine.run (RpcChannel.callMethod RpcMetaMessage.pbCodec)
        (RpcChannel.init.onConnection true) [callWith [], callWith [7]] = .ok afterCalls := rfl
    have hnumbered := Machine.invariant (fun _ _ _ => RpcChannel.numbered_callMethod) hcalls hstart
    rw [(@roundTrip_iff Unit Unit Unit _ _ (Buffer.holding_wellFormed (by decide))).2 _ _ _
      hresponses hbytes' (fun _ _ => ⟨[], rfl⟩) hnumbered]
    simp [twoResponses]

end ToyBasket
