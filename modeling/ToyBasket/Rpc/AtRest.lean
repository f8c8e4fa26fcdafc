import ToyBasket.Rpc.Transport

/-!
# When everything has come to rest

Once all that was given to `send` has been executed, written and read, no closure is left to run
and neither side is in `onMessage`, each call that was sent has had its answer, once. `onMessage`
leaves a frame that ends with its meta in the buffer, so no request and no response may be empty.
-/

namespace ToyBasket

open Words Outcome Machine

theorem nextFrame_of_frameRound {σ ω : Type} {c : MetaCodec}
    {handle : σ → Buffer → Frame → Except Fault (ω × σ)} {s : σ} {buff : Buffer}
    (h : frameRound c handle (s, buff) = .ok none) : buff.nextFrame c = .ok none := by
  obtain ⟨next, hnext, hafter⟩ := bind_eq_ok.mp h
  cases next with
  | none => exact hnext
  | some frame =>
      obtain ⟨⟨out, s'⟩, -, hafter⟩ := bind_eq_ok.mp hafter
      obtain ⟨buff', -, hafter⟩ := bind_eq_ok.mp hafter
      cases hafter

/-- A frame whose payload is there is never left in the buffer. -/
theorem readFrame_stream_ne_none {c : MetaCodec} {messages : List Message}
    (hne : messages ≠ []) (hsendable : ∀ m ∈ messages, m.Sendable c)
    (hpayload : ∀ m ∈ messages, m.payload ≠ []) :
    readFrame c (stream c messages) ≠ .ok none := by
  cases messages with
  | nil => exact absurd rfl hne
  | cons m messages =>
      have hm := hsendable m List.mem_cons_self
      have hfirst : m.payload ++ stream c messages ≠ [] :=
        List.append_ne_nil_of_left_ne_nil (hpayload m List.mem_cons_self) _
      have hread : readFrame c (stream c (m :: messages))
          = if m.payload ++ stream c messages = [] then .ok none else .ok (some (m.frame c)) :=
        readFrame_buildFrame _ hm.size_lt hm.parse_serialize
      rw [hread, if_neg hfirst]
      simp

namespace RpcChannel

variable {R D : Type} {c : MetaCodec} {channel channel' : RpcChannel R D}
  {sent : List (Int × MethodCall R D)} {gone : List Int}

/-- A call is outstanding as long as its number has not come back. -/
def Outstanding (channel : RpcChannel R D) (gone : List Int) : Prop :=
  ∀ p ∈ channel.calls, p.1 ∉ gone →
    channel.out p.1 = some { response := p.2.response, done := p.2.done }

theorem Outstanding.callMethod {call : MethodCall R D} (h : channel.Outstanding gone)
    (hrecorded : channel.Recorded c sent)
    (hcall : RpcChannel.callMethod c channel call = .ok channel') : channel'.Outstanding gone := by
  obtain ⟨rfl, -⟩ := callMethod_eq_ok hcall
  intro p hp hgone
  obtain hp | hp := List.mem_append.mp hp
  · have hle := (hrecorded.number_le p hp).2
    simp only
    rw [if_neg (by omega)]
    exact h p hp hgone
  · rw [List.mem_singleton.mp hp]
    simp only [if_true]

theorem Outstanding.foldlM {calls : List (MethodCall R D)} (h : channel.Outstanding gone)
    (hrecorded : channel.Recorded c sent)
    (hcalls : calls.foldlM (RpcChannel.callMethod c) channel = .ok channel') :
    channel'.Outstanding gone := by
  rw [Machine.foldlM_eq_run] at hcalls
  have hkept : ∀ (channel : RpcChannel R D) call channel',
      (channel.Outstanding gone ∧ ∃ sent, channel.Recorded c sent) →
      RpcChannel.callMethod c channel call = .ok channel' →
      channel'.Outstanding gone ∧ ∃ sent, channel'.Recorded c sent := by
    rintro channel call channel' ⟨hout, sent, hbefore⟩ hcall
    obtain ⟨new, hafter⟩ := hbefore.callMethod hcall
    exact ⟨hout.callMethod hbefore hcall, _, hafter⟩
  exact (Machine.invariant hkept hcalls ⟨h, sent, hrecorded⟩).1

theorem Outstanding.take (h : channel.Outstanding gone) (id : Int) :
    (channel.take id).2.Outstanding (gone ++ [id]) := by
  intro p hp hgone
  rw [List.mem_append, List.mem_singleton, not_or] at hgone
  unfold RpcChannel.take at hp ⊢
  split at hp
  · exact h p hp hgone.1
  · simp only
    rw [if_neg hgone.2]
    exact h p hp hgone.1

theorem Outstanding.handle {calls : List (MethodCall R D)} {payload : Except Fault Bytes}
    {frame : Frame} {next : Handled R D} (h : channel.Outstanding gone)
    (hrecorded : channel.Recorded c sent)
    (hhandle : answerWith (RpcSession.runDone c calls) payload channel frame
      = .ok (next, channel')) : channel'.Outstanding (gone ++ [next.id]) := by
  have htake := h.take next.id
  obtain ⟨-, ⟨-, -, rfl⟩ | ⟨response, done, data, -, -, -, ⟨-, rfl⟩ | ⟨closure, -, hcalls⟩⟩⟩ :=
    answerWith_eq_ok hhandle
  · exact htake
  · exact htake
  · exact htake.foldlM (hrecorded.take next.id) hcalls

/-- The response object of an outstanding call is parsed. -/
theorem Outstanding.answered {calls : List (MethodCall R D)} {payload : Except Fault Bytes}
    {frame : Frame} {next : Handled R D} {call : MethodCall R D} (h : channel.Outstanding gone)
    (hhandle : answerWith (RpcSession.runDone c calls) payload channel frame
      = .ok (next, channel')) (hcall : (next.id, call) ∈ channel.calls) (hgone : next.id ∉ gone) :
    next.answer.isSome = call.response.isSome := by
  have hout := h _ hcall hgone
  obtain ⟨-, ⟨hnone, hresponse, -⟩ | ⟨response, done, data, hsome, -, hentry, -⟩⟩ :=
    answerWith_eq_ok hhandle
  · have hcallNone : call.response = none := by
      rw [RpcChannel.take, hout] at hresponse
      exact hresponse
    rw [hnone, hcallNone]
    rfl
  · rw [hentry, Option.some_inj, OutstandingCall.mk.injEq] at hout
    rw [hsome, ← hout.1]
    rfl

end RpcChannel

namespace RpcWire

open RpcSession (Listening responseMessages runDone AnswersItsCall)

variable {S M R D : Type} {c : MetaCodec} {services : List (S × Bytes × List (Bytes × M))}
  {caller : Nat} {sent : List (Int × MethodCall R D)} {completed done : List (Nat × Reply S M)}
  {wire wire' : RpcWire S M R D}

def gone (wire : RpcWire S M R D) : List Int := wire.handled.map fun h => h.id

/-- The first responses have been handled, each of them answered its call if that has a response
object, and a side that is not in `onMessage` has no whole frame in its buffer. -/
structure Answered (c : MetaCodec) (done : List (Nat × Reply S M)) (wire : RpcWire S M R D) :
    Prop where
  ids : wire.gone <+: done.map fun p => p.2.call.id.toInt
  outstanding : wire.channel.Outstanding wire.gone
  answered : ∀ h ∈ wire.handled, ∀ call, (h.id, call) ∈ wire.channel.calls →
    h.answer.isSome = call.response.isSome
  server_reads : wire.host.busy = none → readFrame c (wire.host.input 0).readable = .ok none
  channel_reads : wire.busy = false → readFrame c wire.input.readable = .ok none

theorem readFrame_empty : readFrame c (Buffer.empty Buffer.kInitialSize).readable = .ok none := by
  rw [Buffer.readable_empty, readFrame, if_pos (.inl (by simp))]

theorem answered_init (highWaterMark : Nat) (writeCompleteCallback highWaterMarkCallback : Bool) :
    Answered c [] (init services highWaterMark writeCompleteCallback highWaterMarkCallback :
      RpcWire S M R D) where
  ids := List.prefix_refl _
  outstanding := by
    rintro p ⟨⟩
  answered := by
    rintro h ⟨⟩
  server_reads := fun _ => readFrame_empty
  channel_reads := fun _ => readFrame_empty

/-- The server's side of a wire is that of a session that has not listened yet. -/
theorem Wired.correlated (h : Wired c services caller sent completed done wire) :
    RpcSession.Correlated c services sent
      { channel := wire.channel
        input := Buffer.empty Buffer.kInitialSize
        busy := false
        handled := []
        host := wire.host
        requestsRead := wire.requestsRead
        responsesRead := 0 } where
  recorded := h.recorded
  serving := h.serving
  listening :=
    { carried :=
        { wellFormed := Buffer.empty_wellFormed (by decide)
          read_le := Nat.zero_le _
          bytes := by rw [Buffer.readable_empty]; rfl }
      handled_le := Nat.zero_le _
      settled := by
        rintro h ⟨⟩
      once := List.nodup_nil
      answers := by
        rintro h ⟨⟩ }

theorem Wired.nodup_completed (h : Wired c services caller sent completed done wire) :
    (completed.map fun p => p.2.call.id.toInt).Nodup := by
  have hreplies := h.correlated.nodup_replies
  have hints : (wire.host.replies.map fun reply => reply.call.id.toInt).Nodup := by
    have hmap := hreplies.map (f := Int64.toInt) fun _ _ => Int64.toInt_inj.mp
    rwa [List.map_map] at hmap
  rw [← h.completed_eq, List.map_map] at hints
  exact hints

/-- The numbers on their way back to the channel are different. -/
theorem Wired.nodup_done (h : Wired c services caller sent completed done wire) :
    (done.map fun p => p.2.call.id.toInt).Nodup := by
  have hcompleted := h.nodup_completed
  apply List.Nodup.map_on _ (h.labelled.nodup (List.Nodup.of_map _ hcompleted))
  intro p hp q hq hsame
  exact List.inj_on_of_nodup_map hcompleted (h.labelled.subset hp) (h.labelled.subset hq) hsame

/-- They are those of calls. -/
theorem Wired.called (h : Wired c services caller sent completed done wire) {p : Nat × Reply S M}
    (hp : p ∈ done) : ∃ call, (p.2.call.id.toInt, call) ∈ wire.channel.calls := by
  obtain ⟨q, hq, hserves⟩ :=
    h.serving.replies_serve p.2 (h.done_subset (List.mem_map_of_mem hp))
  have hcall := h.recorded.sent_calls.subset hq
  have hnumber : p.2.call.id.toInt = q.1 := by
    rw [hserves.id]
    exact h.recorded.toInt_ofInt hcall
  rw [hnumber]
  exact ⟨q.2, hcall⟩

/-- The next frame that the channel handles is the next response. -/
theorem Wired.next_done (h : Wired c services caller sent completed done wire)
    (hsendable : wire.Sendable c) {calls : List (MethodCall R D)} {next : RpcChannel.Handled R D}
    {channel : RpcChannel R D} {input : Buffer}
    (hround : RpcChannel.onMessageRound c (runDone c calls) (wire.channel, wire.input) =
      .ok (some (next, channel, input))) :
    ∃ p, done[wire.handled.length]? = some p ∧ next.id = p.2.call.id.toInt := by
  obtain ⟨reply, hget, ⟨rest, hhandle⟩, -⟩ :=
    h.listening.carried.round (fun _ => h.responses_sendable hsendable)
      (RpcChannel.onMessageRound_views c _) (RpcChannel.onMessageRound_stable c _) hround
  rw [List.getElem?_map, Option.map_eq_some_iff] at hget
  obtain ⟨p, hp, rfl⟩ := hget
  refine ⟨p, hp, ?_⟩
  rw [(RpcChannel.answerWith_eq_ok hhandle).1]
  exact congrArg Int64.toInt (Int64.toInt64_toUInt64 _)

/-! ### The steps -/

theorem Answered.append (h : Answered c done wire) (new : List (Nat × Reply S M)) :
    Answered c (done ++ new) wire where
  ids := by
    rw [List.map_append]
    exact h.ids.trans (List.prefix_append _ _)
  outstanding := h.outstanding
  answered := h.answered
  server_reads := h.server_reads
  channel_reads := h.channel_reads

/-- Changes that `Answered` does not see. -/
theorem Answered.of_eq (h : Answered c done wire)
    (hcalls : wire'.channel.calls = wire.channel.calls)
    (hout : wire'.channel.out = wire.channel.out) (hhandled : wire'.handled = wire.handled)
    (hserver : wire'.host.busy = none → readFrame c (wire'.host.input 0).readable = .ok none)
    (hchannel : wire'.busy = false → readFrame c wire'.input.readable = .ok none) :
    Answered c done wire' where
  ids := by
    rw [gone, hhandled]
    exact h.ids
  outstanding := by
    have hold := h.outstanding
    rw [RpcChannel.Outstanding] at hold ⊢
    rw [hcalls, hout, gone, hhandled]
    exact hold
  answered := by
    rw [hhandled, hcalls]
    exact h.answered
  server_reads := hserver
  channel_reads := hchannel

/-- A number that has come back stays that of its call. -/
theorem Answered.mem_calls (h : Answered c done wire)
    (hwired : Wired c services caller sent completed done wire) {channel : RpcChannel R D}
    {sent' : List (Int × MethodCall R D)} (hgrows : wire.channel.Grows channel)
    (hrecorded : channel.Recorded c sent') {id : Int} (hid : id ∈ wire.gone)
    {call : MethodCall R D} (hcall : (id, call) ∈ channel.calls) :
    (id, call) ∈ wire.channel.calls := by
  obtain ⟨p, hp, rfl⟩ := List.mem_map.mp (h.ids.subset hid)
  obtain ⟨call', hcall'⟩ := hwired.called hp
  rwa [hrecorded.call_eq hcall (hgrows.calls.subset hcall')]

theorem Answered.call {call : MethodCall R D} {result : WriteResult} (h : Answered c done wire)
    (hwired : Wired c services caller sent completed done wire)
    (hnext : wire.call c caller call result = .ok wire') : Answered c done wire' := by
  unfold RpcWire.call at hnext
  obtain ⟨channel, hcall, hnext⟩ := bind_eq_ok.mp hnext
  obtain ⟨client, -, rfl⟩ := makeCalls_eq_ok hnext
  obtain ⟨new, hrecorded⟩ := hwired.recorded.callMethod hcall
  refine ⟨h.ids, h.outstanding.callMethod hwired.recorded hcall, ?_, h.server_reads,
    h.channel_reads⟩
  intro next hmem call' hcall'
  exact h.answered next hmem call' (h.mem_calls hwired (RpcChannel.grows_callMethod hcall)
    hrecorded (List.mem_map_of_mem hmem) hcall')

theorem Answered.serverRound {host : RpcHost S M} (h : Answered c done wire)
    (hwired : Wired c services caller sent completed done wire)
    (hnext : wire.host.step c .round = .ok host) (hbusy : host.busy = none) :
    readFrame c (host.input 0).readable = .ok none := by
  simp only [RpcHost.step] at hnext
  split at hnext
  · cases hnext
    exact h.server_reads hbusy
  · rename_i conn hconn
    rw [hwired.serving.busy conn hconn] at hnext hconn
    obtain ⟨rfl, hround⟩ | ⟨call, serviceCall, server, buff, -, -, rfl⟩ :=
      RpcHost.round_eq_ok hnext
    · rw [← Buffer.nextFrame_eq hwired.serving.carried.wellFormed]
      exact nextFrame_of_frameRound hround
    · rw [hconn] at hbusy
      cases hbusy

theorem Answered.channelRound {calls : List (MethodCall R D × WriteResult)}
    (h : Answered c done wire)
    (hwired : Wired c services caller sent completed done wire)
    (hsendable : wire.Sendable c) (hbusy : wire.busy = true)
    (hnext : wire.channelRound c calls = .ok wire') : Answered c done wire' := by
  obtain ⟨rfl, hround⟩ | ⟨next, channel, input, after, hround, hmake, rfl⟩ :=
    channelRound_eq_ok hnext
  · refine ⟨h.ids, h.outstanding, h.answered, h.server_reads, fun _ => ?_⟩
    rw [← Buffer.nextFrame_eq hwired.listening.carried.wellFormed]
    exact nextFrame_of_frameRound hround
  · obtain ⟨p, hp, hid⟩ := hwired.next_done hsendable hround
    obtain ⟨frame, -, hhandle, -⟩ := frameRound_eq_some hround
    obtain ⟨client, -, rfl⟩ := makeCalls_eq_ok hmake
    have hgrows := (RpcChannel.grows_take next.id).trans (RpcSession.grows_of_answerWith hhandle)
    obtain ⟨new, hrecorded⟩ := RpcSession.recorded_of_answerWith hwired.recorded hhandle
    have hgone : ((wire.handled ++ [next]).map fun h => h.id) = wire.gone ++ [next.id] := by
      rw [List.map_append]
      rfl
    have hids : wire.gone ++ [next.id] <+: done.map fun p => p.2.call.id.toInt := by
      obtain ⟨later, hlater⟩ := h.ids
      have hget : (done.map fun p => p.2.call.id.toInt)[wire.gone.length]? = some next.id := by
        rw [gone, List.length_map, List.getElem?_map, hp, hid]
        rfl
      rw [← hlater, List.getElem?_append_right (Nat.le_refl _), Nat.sub_self] at hget
      obtain ⟨later, rfl⟩ : ∃ rest, later = next.id :: rest := by
        cases later with
        | nil => cases hget
        | cons id rest =>
            cases hget
            exact ⟨rest, rfl⟩
      exact ⟨later, by rw [List.append_assoc]; exact hlater⟩
    have hfresh : next.id ∉ wire.gone := by
      intro hmem
      have hnodup := hids.sublist.nodup hwired.nodup_done
      exact (List.nodup_append.mp hnodup).2.2 _ hmem _ List.mem_cons_self rfl
    refine ⟨?_, ?_, ?_, h.server_reads, fun hidle => ?_⟩
    · rw [gone, hgone]
      exact hids
    · rw [gone, hgone]
      exact h.outstanding.handle hwired.recorded hhandle
    · intro earlier hmem call hcall
      obtain hmem | hmem := List.mem_append.mp hmem
      · exact h.answered earlier hmem call
          (h.mem_calls hwired hgrows hrecorded (List.mem_map_of_mem hmem) hcall)
      · rw [List.mem_singleton.mp hmem] at hcall ⊢
        obtain ⟨call', hcall'⟩ := hwired.called (List.mem_of_getElem? hp)
        rw [← hid] at hcall'
        have hsame := hrecorded.call_eq hcall (hgrows.calls.subset hcall')
        rw [hsame]
        exact h.outstanding.answered hhandle hcall' hfresh
    · rw [hbusy] at hidle
      cases hidle

theorem Answered.step (h : Answered c done wire)
    (hwired : Wired c services caller sent completed done wire) (hsendable : wire.Sendable c)
    {event : Event R D} (hnext : wire.step c caller event = .ok wire') : Answered c done wire' := by
  cases event with
  | connect =>
      cases hnext
      exact h.of_eq rfl rfl rfl h.server_reads h.channel_reads
  | call call result =>
      simp only [RpcWire.step] at hnext
      split at hnext
      · exact h.call hwired hnext
      · cases hnext
        exact h
  | client event =>
      simp only [RpcWire.step] at hnext
      split at hnext
      · obtain ⟨client, -, hnext⟩ := bind_eq_ok.mp hnext
        cases hnext
        exact h.of_eq rfl rfl rfl h.server_reads h.channel_reads
      · cases hnext
        exact h
  | serverReads n =>
      simp only [RpcWire.step] at hnext
      split at hnext
      · obtain ⟨host, hhost, rfl⟩ := serverReads_eq_ok hnext
        obtain ⟨buff, -, rfl⟩ := RpcHost.receive_eq_ok hhost
        refine h.of_eq rfl rfl rfl ?_ h.channel_reads
        rintro ⟨⟩
      · cases hnext
        exact h
  | serverRound =>
      obtain ⟨host, hhost, hnext⟩ := bind_eq_ok.mp hnext
      cases hnext
      exact h.of_eq rfl rfl rfl (h.serverRound hwired hhost) h.channel_reads
  | complete thread i response result =>
      simp only [RpcWire.step] at hnext
      split at hnext
      · obtain ⟨server, -, rfl⟩ := complete_eq_ok hnext
        have hsame : (wire.host.complete c i response).busy = wire.host.busy ∧
            (wire.host.complete c i response).input = wire.host.input := by
          unfold RpcHost.complete
          split
          · exact ⟨rfl, rfl⟩
          · exact ⟨rfl, rfl⟩
        refine h.of_eq rfl rfl rfl (fun hbusy => ?_) h.channel_reads
        simp only [hsame.1] at hbusy
        simp only [hsame.2]
        exact h.server_reads hbusy
      · cases hnext
        exact h
  | server event =>
      simp only [RpcWire.step] at hnext
      split at hnext
      · obtain ⟨server, -, hnext⟩ := bind_eq_ok.mp hnext
        cases hnext
        exact h.of_eq rfl rfl rfl h.server_reads h.channel_reads
      · cases hnext
        exact h
  | channelReads n =>
      simp only [RpcWire.step] at hnext
      split at hnext
      · obtain ⟨input, -, rfl⟩ := channelReads_eq_ok hnext
        refine h.of_eq rfl rfl rfl h.server_reads ?_
        rintro ⟨⟩
      · cases hnext
        exact h
  | channelRound calls =>
      simp only [RpcWire.step] at hnext
      split at hnext
      · rename_i hready
        exact h.channelRound hwired hsendable hready.1 hnext
      · cases hnext
        exact h

theorem answered_run {highWaterMark : Nat}
    {writeCompleteCallback highWaterMarkCallback : Bool} {events : List (Event R D)}
    (hevents : ∀ event ∈ events, event.Usual)
    (hrun : run (RpcWire.step c caller)
      (init services highWaterMark writeCompleteCallback highWaterMarkCallback) events = .ok wire)
    (hsendable : wire.Sendable c) :
    ∃ sent completed done, Wired c services caller sent completed done wire ∧
      Answered c done wire := by
  have hstep : ∀ (s : RpcWire S M R D) (event : Event R D) (s' : RpcWire S M R D), event.Usual →
      (s.Sendable c → ∃ sent completed done, Wired c services caller sent completed done s ∧
        Answered c done s) →
      s.step c caller event = .ok s' →
      s'.Sendable c → ∃ sent completed done, Wired c services caller sent completed done s' ∧
        Answered c done s' := by
    intro s event s' hevent ih hnext hsendable'
    have hsendable := hsendable'.of_extends (extends_step hnext)
    obtain ⟨sent, completed, done, hwired, h⟩ := ih hsendable
    obtain ⟨calls, completed', new, hwired'⟩ := hwired.step hevent hnext hsendable'
    have h' := h.step hwired hsendable hnext
    exact ⟨sent ++ calls, completed', done ++ new, hwired', h'.append new⟩
  exact invariant_of_allowed hstep hrun hevents
    (fun _ => ⟨[], [], [], wired_init _ _ _, answered_init _ _ _⟩) hsendable

/-! ### At rest -/

/-- Nothing is on its way any more. -/
structure AtRest (wire : RpcWire S M R D) : Prop where
  client_executed : wire.client.executed.length = wire.client.given.length
  client_written : wire.client.output.outputBuffer.readable = []
  requests_read : wire.requestsRead = wire.client.output.written.length
  server_idle : wire.host.busy = none
  completed : wire.host.pending = []
  server_executed : wire.server.executed.length = wire.server.given.length
  server_written : wire.server.output.outputBuffer.readable = []
  responses_read : wire.responsesRead = wire.server.output.written.length
  channel_idle : wire.busy = false

/-- `onMessage` leaves a frame that ends with its meta in the buffer. -/
structure NoEmptyPayload (wire : RpcWire S M R D) : Prop where
  requests : ∀ p ∈ wire.channel.calls, p.2.request ≠ []
  responses : ∀ reply ∈ wire.host.replies, reply.response ≠ []

theorem written_of_drained {conn : StreamConnection} (h : conn.Up)
    (hdrained : conn.output.outputBuffer.readable = []) :
    conn.output.written = (conn.executed.map Prod.snd).flatten := by
  have hbytes := h.intact.carries.bytes
  rwa [hdrained, List.append_nil] at hbytes

theorem Wired.stream_requests (h : Wired c services caller sent completed done wire)
    (hrest : wire.AtRest) :
    wire.client.output.written = stream c (RpcHost.requestMessages sent) := by
  have hlength : (wire.client.executed.map Prod.snd).length
      = (sent.map fun p => RpcChannel.requestFrame c p.1 p.2).length := by
    rw [List.length_map, hrest.client_executed, h.client_given, List.length_map, List.length_map]
  rw [written_of_drained h.client hrest.client_written, h.executed_prefix.eq_of_length hlength,
    stream, RpcHost.requestMessages, List.map_map]
  rfl

theorem Wired.stream_responses (h : Wired c services caller sent completed done wire)
    (hrest : wire.AtRest) :
    wire.server.output.written = stream c (responseMessages (done.map Prod.snd)) := by
  rw [written_of_drained h.server hrest.server_written, h.labelled.handled_eq, stream,
    responseMessages, List.map_map, List.map_map, List.map_map]
  rfl

/-- A buffer in which nothing is read, and into which the whole stream went, has gone through all
its frames. -/
theorem length_le_of_carried {buff : Buffer} {messages : List Message} {read k : Nat}
    (h : Carried buff (stream c messages) read (stream c (messages.drop k)))
    (hread : read = (stream c messages).length) (hnone : readFrame c buff.readable = .ok none)
    (hsendable : ∀ m ∈ messages, m.Sendable c) (hpayload : ∀ m ∈ messages, m.payload ≠ []) :
    messages.length ≤ k := by
  have hbytes := h.bytes
  rw [hread, List.drop_length, List.append_nil] at hbytes
  rw [hbytes] at hnone
  by_contra hlt
  have hdrop : messages.drop k ≠ [] := by
    intro hnil
    rw [List.drop_eq_nil_iff] at hnil
    exact hlt hnil
  exact readFrame_stream_ne_none hdrop (fun m hm => hsendable m (List.mem_of_mem_drop hm))
    (fun m hm => hpayload m (List.mem_of_mem_drop hm)) hnone

/-- Each request that was sent has been answered by its service. -/
theorem Answered.replies_perm (h : Answered c done wire)
    (hwired : Wired c services caller sent completed done wire)
    (hsendable : wire.Sendable c) (hrest : wire.AtRest) (hpayload : wire.NoEmptyPayload) :
    (wire.host.replies.map fun reply => reply.call.id.toInt).Perm (sent.map Prod.fst) := by
  have hle : (RpcHost.requestMessages sent).length ≤ wire.host.accepted := by
    apply length_le_of_carried hwired.serving.carried
    · rw [hrest.requests_read, hwired.stream_requests hrest]
    · exact h.server_reads hrest.server_idle
    · intro m hm
      obtain ⟨p, hp, rfl⟩ := List.mem_map.mp hm
      exact hwired.requests_sendable hsendable hp
    · intro m hm
      obtain ⟨p, hp, rfl⟩ := List.mem_map.mp hm
      exact hpayload.requests p (hwired.recorded.sent_calls.subset hp)
  have hids := hwired.serving.ids
  rw [RpcHost.requestMessages, List.length_map] at hle
  rw [hrest.completed, List.take_of_length_le hle, List.map_nil, List.nil_append] at hids
  have hints := hids.map Int64.toInt
  rw [List.map_map, List.map_map] at hints
  refine hints.trans (.of_eq (List.map_congr_left fun p hp => ?_))
  exact hwired.recorded.toInt_ofInt (hwired.recorded.sent_calls.subset hp)

/-- All the responses have come back. -/
theorem Answered.gone_eq (h : Answered c done wire)
    (hwired : Wired c services caller sent completed done wire)
    (hsendable : wire.Sendable c) (hrest : wire.AtRest) (hpayload : wire.NoEmptyPayload) :
    wire.gone = done.map fun p => p.2.call.id.toInt := by
  apply h.ids.eq_of_length_le
  have hle : (responseMessages (done.map Prod.snd)).length ≤ wire.handled.length := by
    apply length_le_of_carried hwired.listening.carried
    · rw [hrest.responses_read, hwired.stream_responses hrest]
    · exact h.channel_reads hrest.channel_idle
    · intro m hm
      obtain ⟨reply, hreply, rfl⟩ := List.mem_map.mp hm
      exact hwired.responses_sendable hsendable hreply
    · intro m hm
      obtain ⟨reply, hreply, rfl⟩ := List.mem_map.mp hm
      exact hpayload.responses reply (hwired.done_subset hreply)
  rw [responseMessages, List.length_map, List.length_map] at hle
  rwa [List.length_map, gone, List.length_map]

theorem Wired.done_perm (h : Wired c services caller sent completed done wire)
    (hrest : wire.AtRest) : done.Perm completed := by
  have hlength : done.length = completed.length := by
    have hexecuted := hrest.server_executed
    rwa [h.labelled.given_eq, h.labelled.handled_eq, List.length_map, List.length_map]
      at hexecuted
  have hnodup : done.Nodup := List.Nodup.of_map _ h.nodup_done
  exact (List.subperm_of_subset hnodup h.labelled.subset).perm_of_length_le hlength.ge

/-- Each call whose frame was sent is answered, once, with what its service gave for its request,
and nothing else was handled. -/
theorem sent_answered {highWaterMark : Nat}
    {writeCompleteCallback highWaterMarkCallback : Bool} {events : List (Event R D)}
    (hevents : ∀ event ∈ events, event.Usual)
    (hrun : run (RpcWire.step c caller)
      (init services highWaterMark writeCompleteCallback highWaterMarkCallback) events = .ok wire)
    (hsendable : wire.Sendable c) (hrest : wire.AtRest) (hpayload : wire.NoEmptyPayload) :
    ∃ sent : List (Int × MethodCall R D), sent.Sublist wire.channel.calls ∧
      (wire.channel.sent = sent.map fun p => RpcChannel.requestFrame c p.1 p.2) ∧
      (wire.handled.map fun h => h.id).Perm (sent.map Prod.fst) ∧
      ∀ p ∈ sent, ∃ h ∈ wire.handled, ∃ reply ∈ wire.host.replies, h.id = p.1 ∧
        RpcHost.Serves services p reply.call ∧
        h.answer = p.2.response.map fun response => (response, p.2.done, reply.response) := by
  obtain ⟨sent, completed, done, hwired, h⟩ := answered_run hevents hrun hsendable
  have hreplies := h.replies_perm hwired hsendable hrest hpayload
  have hgone : (wire.handled.map fun h => h.id).Perm (sent.map Prod.fst) := by
    have hcompleted := (hwired.done_perm hrest).map fun p => p.2.call.id.toInt
    have hsame : (completed.map fun p => p.2.call.id.toInt)
        = wire.host.replies.map fun reply => reply.call.id.toInt := by
      rw [← hwired.completed_eq, List.map_map]
      rfl
    rw [hsame, ← h.gone_eq hwired hsendable hrest hpayload] at hcompleted
    exact hcompleted.trans hreplies
  refine ⟨sent, hwired.recorded.sent_calls, hwired.recorded.sent_eq, hgone, ?_⟩
  intro p hp
  have hcall := hwired.recorded.sent_calls.subset hp
  obtain ⟨next, hnext, hid⟩ := List.mem_map.mp (hgone.mem_iff.mpr (List.mem_map_of_mem hp))
  have hanswered := h.answered next hnext p.2 (by rwa [hid])
  cases hanswer : next.answer with
  | none =>
      obtain ⟨reply, hreply, hnumber⟩ :=
        List.mem_map.mp (hreplies.mem_iff.mpr (List.mem_map_of_mem hp))
      obtain ⟨q, hq, hserves⟩ := hwired.serving.replies_serve reply hreply
      have hq' := hwired.recorded.sent_calls.subset hq
      have hsame : q = p := by
        apply List.inj_on_of_nodup_map hwired.recorded.nodup hq' hcall
        calc
          q.1 = (Int64.ofInt q.1).toInt := (hwired.recorded.toInt_ofInt hq').symm
          _ = reply.call.id.toInt := by rw [hserves.id]
          _ = p.1 := hnumber
      rw [hsame] at hserves
      refine ⟨next, hnext, reply, hreply, hid, hserves, ?_⟩
      rw [hanswer] at hanswered ⊢
      cases hresponse : p.2.response with
      | none => rfl
      | some response =>
          rw [hresponse] at hanswered
          cases hanswered
  | some answer =>
      obtain ⟨response, answered, bytes⟩ := answer
      have hanswers := (hwired.listening.answers next hnext).mono (List.Subset.refl _)
        hwired.done_subset
      obtain ⟨call, hmem, hresponse, hdone, reply, hreply, hserves, hbytes⟩ :=
        hanswers response answered bytes hanswer
      rw [hid] at hmem hserves
      have hsame : call = p.2 := hwired.recorded.call_eq hmem hcall
      rw [hsame] at hresponse hdone hserves
      refine ⟨next, hnext, reply, hreply, hid, hserves, ?_⟩
      rw [hanswer, hresponse, hdone, ← hbytes]
      rfl

instance (wire : RpcWire S M R D) : Decidable wire.AtRest :=
  decidable_of_iff
    (wire.client.executed.length = wire.client.given.length ∧
      wire.client.output.outputBuffer.readable = [] ∧
      wire.requestsRead = wire.client.output.written.length ∧ wire.host.busy = none ∧
      wire.host.pending.isEmpty ∧ wire.server.executed.length = wire.server.given.length ∧
      wire.server.output.outputBuffer.readable = [] ∧
      wire.responsesRead = wire.server.output.written.length ∧ wire.busy = false)
    ⟨fun ⟨h1, h2, h3, h4, h5, h6, h7, h8, h9⟩ =>
        ⟨h1, h2, h3, h4, List.isEmpty_iff.mp h5, h6, h7, h8, h9⟩,
      fun ⟨h1, h2, h3, h4, h5, h6, h7, h8, h9⟩ =>
        ⟨h1, h2, h3, h4, List.isEmpty_iff.mpr h5, h6, h7, h8, h9⟩⟩

instance (wire : RpcWire S M R D) : Decidable wire.NoEmptyPayload :=
  decidable_of_iff
    ((∀ p ∈ wire.channel.calls, p.2.request ≠ []) ∧
      ∀ reply ∈ wire.host.replies, reply.response ≠ [])
    ⟨fun ⟨hrequests, hresponses⟩ => ⟨hrequests, hresponses⟩,
      fun ⟨hrequests, hresponses⟩ => ⟨hrequests, hresponses⟩⟩

theorem sent_answered_askFromThread : ∃ wire : RpcWire Unit Unit Unit Unit,
    run (RpcWire.step RpcMetaMessage.pbCodec 1) (init [((), [115], [([109], ())])] 64 true true)
        askFromThread = .ok wire ∧ wire.channel.sent.length = 1 ∧ wire.AtRest ∧
      ∃ sent : List (Int × MethodCall Unit Unit), sent.Sublist wire.channel.calls ∧
        (wire.handled.map fun h => h.id).Perm (sent.map Prod.fst) := by
  obtain ⟨wire, hrun, hsendable, hrest, hpayload, hsent⟩ : ∃ wire : RpcWire Unit Unit Unit Unit,
      run (RpcWire.step RpcMetaMessage.pbCodec 1) (init [((), [115], [([109], ())])] 64 true true)
          askFromThread = .ok wire ∧ wire.Sendable RpcMetaMessage.pbCodec ∧ wire.AtRest ∧
        wire.NoEmptyPayload ∧ wire.channel.sent.length = 1 := by
    apply Holds.returns
    decide +kernel
  have husual : ∀ event ∈ askFromThread, event.Usual := by
    simp [askFromThread, Event.Usual, StreamConnection.Event.Usual, WriteResult.Fatal]
  generalize askFromThread = events at hrun husual
  obtain ⟨sent, hsublist, -, hperm, -⟩ :=
    sent_answered husual hrun hsendable hrest hpayload
  exact ⟨wire, hrun, hsent, hrest, sent, hsublist, hperm⟩

end RpcWire

end ToyBasket
