import Mathlib.Data.List.Infix
import ToyBasket.Rpc.Wire

/-!
# The correlation over the connections

What `RpcSession` says of its two streams holds of what the connections write: each stream is the
messages that were executed, of each thread in the order of its calls, and the reader is somewhere
in the part that has been written. The responses come in the order in which the loop of the server
got to them, not in the order in which the closures ran.
-/

namespace ToyBasket

open Words Outcome Machine

namespace RpcWire

open RpcSession (Listening responseMessages runDone AnswersItsCall)

variable {S M R D : Type} {c : MetaCodec} {services : List (S × Bytes × List (Bytes × M))}
  {caller : Nat} {sent new : List (Int × MethodCall R D)}
  {completed done : List (Nat × Reply S M)} {wire wire' : RpcWire S M R D}
  {channel : RpcChannel R D}

/-- Whatever is read of a stream's beginning is read of the stream. -/
theorem take_drop_of_prefix {written total : Bytes} (h : written <+: total) (read n : Nat)
    (hread : read ≤ written.length) : (written.drop read).take n
      = (total.drop read).take ((written.drop read).take n).length := by
  obtain ⟨more, rfl⟩ := h
  rw [List.drop_append_of_le_length hread,
    List.take_append_of_le_length (List.length_take_le' n _), List.length_take,
    ← List.take_eq_take_min]

def replyFrame (c : MetaCodec) (reply : Reply S M) : Bytes :=
  RpcServer.responseFrame c reply.call.id reply.response

/-- `sent` are the calls whose frames went to the connection, `completed` the closures that ran and
the threads they ran on, and `done` those of them whose frames the loop has executed. -/
structure Wired (c : MetaCodec) (services : List (S × Bytes × List (Bytes × M))) (caller : Nat)
    (sent : List (Int × MethodCall R D)) (completed done : List (Nat × Reply S M))
    (wire : RpcWire S M R D) : Prop where
  recorded : wire.channel.Recorded c sent
  client : wire.client.Up
  client_given : wire.client.given = sent.map fun p => (caller, RpcChannel.requestFrame c p.1 p.2)
  requestsRead_le : wire.requestsRead ≤ wire.client.output.written.length
  serving : RpcHost.Serving c services sent wire.host wire.requestsRead
  server : wire.server.Up
  labelled : Labelled (replyFrame c) wire.server.given wire.server.executed completed done
  completed_eq : completed.map Prod.snd = wire.host.replies
  responsesRead_le : wire.responsesRead ≤ wire.server.output.written.length
  listening : Listening c services wire.channel (done.map Prod.snd) wire.handled wire.input
    wire.responsesRead

theorem wired_init (highWaterMark : Nat) (writeCompleteCallback highWaterMarkCallback : Bool) :
    Wired c services caller [] [] [] (init services highWaterMark writeCompleteCallback
      highWaterMarkCallback : RpcWire S M R D) where
  recorded := RpcChannel.recorded_init
  client := StreamConnection.up_init _ _ _
  client_given := rfl
  requestsRead_le := Nat.zero_le _
  serving := RpcHost.serving_init services
  server := StreamConnection.up_init _ _ _
  labelled := labelled_nil
  completed_eq := rfl
  responsesRead_le := Nat.zero_le _
  listening := RpcSession.correlated_init.listening

/-! ### The streams -/

/-- The client's stream is the requests in the order of their calls. -/
theorem Wired.executed_prefix (h : Wired c services caller sent completed done wire) :
    wire.client.executed.map Prod.snd
      <+: sent.map fun p => RpcChannel.requestFrame c p.1 p.2 := by
  have hown : ∀ p ∈ wire.client.given, p.1 = caller := by
    intro p hp
    rw [h.client_given] at hp
    obtain ⟨q, -, rfl⟩ := List.mem_map.mp hp
    rfl
  have hexecuted : ∀ p ∈ wire.client.executed, p.1 = caller := fun p hp =>
    hown p (h.client.intact.inOrder.handled_given hp)
  have hprefix := h.client.intact.inOrder.handled_prefix caller
  rw [ofThread_eq_map hexecuted, ofThread_eq_map hown, h.client_given, List.map_map] at hprefix
  exact hprefix

theorem Wired.requests_prefix (h : Wired c services caller sent completed done wire) :
    wire.client.output.written <+: stream c (RpcHost.requestMessages sent) := by
  have hstream : stream c (RpcHost.requestMessages sent)
      = (sent.map fun p => RpcChannel.requestFrame c p.1 p.2).flatten := by
    rw [stream, RpcHost.requestMessages, List.map_map]
    rfl
  rw [hstream]
  exact h.client.written_prefix.trans h.executed_prefix.flatten

theorem Wired.responses_prefix (h : Wired c services caller sent completed done wire) :
    wire.server.output.written <+: stream c (responseMessages (done.map Prod.snd)) := by
  have hstream : stream c (responseMessages (done.map Prod.snd))
      = (wire.server.executed.map Prod.snd).flatten := by
    rw [h.labelled.handled_eq, stream, responseMessages, List.map_map, List.map_map, List.map_map]
    rfl
  rw [hstream]
  exact h.server.written_prefix

/-- The responses on their way are answers that the services gave. -/
theorem Wired.done_subset (h : Wired c services caller sent completed done wire) :
    done.map Prod.snd ⊆ wire.host.replies := by
  rw [← h.completed_eq]
  exact List.map_subset _ h.labelled.subset

/-! ### The frames that are sent -/

/-- The frames are shorter than 2 GiB, and their metas survive the codec. -/
def Sendable (c : MetaCodec) (wire : RpcWire S M R D) : Prop :=
  (∀ p ∈ wire.channel.calls, (requestMessage p.1 p.2).Sendable c) ∧
    ∀ reply ∈ wire.host.replies, (responseMessage reply.call.id reply.response).Sendable c

theorem Sendable.frame_lt (h : wire.Sendable c) (hrecorded : wire.channel.Recorded c sent)
    {frame : Bytes} (hframe : frame ∈ wire.channel.sent) : frame.length < 2 ^ 31 := by
  rw [hrecorded.sent_eq] at hframe
  obtain ⟨p, hp, rfl⟩ := List.mem_map.mp hframe
  exact (h.1 p (hrecorded.sent_calls.subset hp)).size_lt

theorem Wired.requests_sendable (h : Wired c services caller sent completed done wire)
    (hsendable : wire.Sendable c) {p : Int × MethodCall R D} (hp : p ∈ sent) :
    (requestMessage p.1 p.2).Sendable c :=
  hsendable.1 p (h.recorded.sent_calls.subset hp)

theorem Wired.responses_sendable (h : Wired c services caller sent completed done wire)
    (hsendable : wire.Sendable c) {reply : Reply S M} (hreply : reply ∈ done.map Prod.snd) :
    (responseMessage reply.call.id reply.response).Sendable c :=
  hsendable.2 reply (h.done_subset hreply)

theorem sendAll_holds {conn conn' : StreamConnection} {thread : Nat}
    {frames : List (Bytes × WriteResult)} (hconn : conn.Up)
    (hidle : conn.threads thread = .idle) (hone : thread = 0 ∨ frames.length ≤ 1)
    (hframes : ∀ p ∈ frames, p.1.length ≤ maxSize ∧ ¬ p.2.Fatal)
    (hnext : sendAll conn thread frames = .ok conn') :
    conn'.Up ∧ conn'.given = conn.given ++ frames.map (fun p => (thread, p.1)) ∧
      conn.executed <+: conn'.executed ∧ conn.output.written <+: conn'.output.written := by
  induction frames generalizing conn with
  | nil =>
      cases hnext
      exact ⟨hconn, (List.append_nil _).symm, List.prefix_refl _, List.prefix_refl _⟩
  | cons p frames ih =>
      obtain ⟨middle, hfirst, hrest⟩ := run_cons_eq_ok.mp hnext
      obtain ⟨hmessage, hresult⟩ := hframes p List.mem_cons_self
      obtain ⟨hmiddle, hgiven, hexecuted⟩ := hconn.send hidle hmessage hresult hfirst
      have hwritten := StreamConnection.written_step hfirst
      obtain rfl | hlast := hone
      · obtain ⟨hup, hgiven', hexecuted', hwritten'⟩ := ih hmiddle hmiddle.idle_loop (.inl rfl)
          (fun q hq => hframes q (List.mem_cons_of_mem _ hq)) hrest
        refine ⟨hup, ?_, hexecuted.trans hexecuted', hwritten.trans hwritten'⟩
        rw [hgiven', hgiven, List.append_assoc]
        rfl
      · obtain rfl : frames = [] := by
          rw [List.length_cons] at hlast
          exact List.length_eq_zero_iff.mp (by omega)
        cases hrest
        exact ⟨hmiddle, hgiven, hexecuted, hwritten⟩

theorem length_sent_callMethod {channel channel' : RpcChannel R D} {call : MethodCall R D}
    (h : RpcChannel.callMethod c channel call = .ok channel') :
    channel'.sent.length ≤ channel.sent.length + 1 := by
  obtain ⟨rfl, -⟩ := RpcChannel.callMethod_eq_ok h
  simp only
  split
  · rw [List.length_append, List.length_singleton]
  · exact Nat.le_succ _

theorem length_sent_foldlM {channel channel' : RpcChannel R D} {calls : List (MethodCall R D)}
    (h : calls.foldlM (RpcChannel.callMethod c) channel = .ok channel') :
    channel'.sent.length ≤ channel.sent.length + calls.length := by
  induction calls generalizing channel with
  | nil =>
      cases h
      exact Nat.le_refl _
  | cons call calls ih =>
      rw [List.foldlM_cons] at h
      obtain ⟨middle, hcall, hrest⟩ := bind_eq_ok.mp h
      have hfirst := length_sent_callMethod hcall
      have hlast := ih hrest
      rw [List.length_cons]
      omega

theorem sent_take (channel : RpcChannel R D) (id : Int) :
    (channel.take id).2.sent = channel.sent := by
  unfold RpcChannel.take
  split
  · rfl
  · rfl

theorem length_sent_answerWith {channel channel' : RpcChannel R D} {calls : List (MethodCall R D)}
    {payload : Except Fault Bytes} {frame : Frame} {next : RpcChannel.Handled R D}
    (h : RpcChannel.answerWith (runDone c calls) payload channel frame = .ok (next, channel')) :
    channel'.sent.length ≤ channel.sent.length + calls.length := by
  have hsame := sent_take channel next.id
  obtain ⟨-, ⟨-, -, rfl⟩ | ⟨response, done, data, -, -, -, ⟨-, rfl⟩ | ⟨closure, -, hcalls⟩⟩⟩ :=
    RpcChannel.answerWith_eq_ok h
  · rw [hsame]
    exact Nat.le_add_right _ _
  · rw [hsame]
    exact Nat.le_add_right _ _
  · have hlength := length_sent_foldlM hcalls
    rwa [hsame] at hlength

/-- The new frames are those of the new calls. -/
theorem sent_drop (h : wire.channel.Recorded c sent) (h' : channel.Recorded c (sent ++ new)) :
    channel.sent.drop wire.channel.sent.length
      = new.map fun p => RpcChannel.requestFrame c p.1 p.2 := by
  rw [h'.sent_eq, h.sent_eq, List.map_append]
  exact List.drop_left' rfl

theorem makeCalls_eq_ok {results : List WriteResult}
    (h : wire.makeCalls caller channel results = .ok wire') :
    ∃ client, sendAll wire.client caller
        ((channel.sent.drop wire.channel.sent.length).zip results) = .ok client ∧
      wire' = { wire with channel := channel, client := client } := by
  unfold makeCalls at h
  obtain ⟨client, hsend, h⟩ := bind_eq_ok.mp h
  cases h
  exact ⟨client, hsend, rfl⟩

/-- The calls are recorded and their frames are with the connection. -/
theorem Wired.makeCalls {thread : Nat} {results : List WriteResult}
    (h : Wired c services caller sent completed done wire)
    (hgrows : wire.channel.Grows channel) (hrecorded : channel.Recorded c (sent ++ new))
    (hcount : channel.sent.length ≤ wire.channel.sent.length + results.length)
    (hthread : thread = caller ∨ results = []) (hidle : wire.client.threads thread = .idle)
    (hone : thread = 0 ∨ results.length ≤ 1) (hresults : ∀ result ∈ results, ¬ result.Fatal)
    (hsmall : ∀ frame ∈ channel.sent, frame.length < 2 ^ 31)
    (hnext : wire.makeCalls thread channel results = .ok wire') :
    Wired c services caller (sent ++ new) completed done wire' := by
  obtain ⟨client, hsend, rfl⟩ := makeCalls_eq_ok hnext
  have hdrop := sent_drop h.recorded hrecorded
  have hnew : new.length ≤ results.length := by
    have hlength := congrArg List.length hdrop
    rw [List.length_drop, List.length_map] at hlength
    omega
  rw [hdrop] at hsend
  generalize hframes : (new.map fun p => RpcChannel.requestFrame c p.1 p.2).zip results = frames
    at hsend
  have hfst : frames.map Prod.fst = new.map fun p => RpcChannel.requestFrame c p.1 p.2 := by
    rw [← hframes]
    exact List.map_fst_zip (by rwa [List.length_map])
  have hgood : ∀ p ∈ frames, p.1.length ≤ maxSize ∧ ¬ p.2.Fatal := by
    rintro ⟨frame, result⟩ hp
    rw [← hframes] at hp
    obtain ⟨hframe, hresult⟩ := List.of_mem_zip hp
    rw [← hdrop] at hframe
    have hlength := hsmall frame (List.mem_of_mem_drop hframe)
    refine ⟨?_, hresults result hresult⟩
    simp only [maxSize]
    omega
  have hfew : thread = 0 ∨ frames.length ≤ 1 := by
    apply hone.imp_right
    intro hresults
    rw [← hframes, List.length_zip]
    exact (Nat.min_le_right _ _).trans hresults
  obtain ⟨hup, hgiven, hexecuted, hwritten⟩ := sendAll_holds h.client hidle hfew hgood hsend
  refine ⟨hrecorded, hup, ?_, h.requestsRead_le.trans hwritten.length_le, h.serving.append new,
    h.server, h.labelled, h.completed_eq, h.responsesRead_le, ?_⟩
  · have hpairs : frames.map (fun p => (thread, p.1))
        = (frames.map Prod.fst).map fun frame => (thread, frame) := by
      rw [List.map_map]
      rfl
    simp only [hgiven, h.client_given, hpairs, hfst, List.map_append, List.map_map,
      List.append_cancel_left_eq]
    obtain rfl | rfl := hthread
    · rfl
    · obtain rfl : new = [] := List.length_eq_zero_iff.mp (Nat.le_zero.mp hnew)
      rfl
  · have hgrow := h.listening.grow hgrows []
    rwa [List.append_nil] at hgrow

/-! ### The steps -/

theorem Wired.connect (h : Wired c services caller sent completed done wire) :
    Wired c services caller sent completed done
      { wire with channel := wire.channel.onConnection true } := by
  have hr := h.recorded
  have hl := h.listening
  exact ⟨⟨hr.index_nonneg, hr.index_lt, hr.number_le, hr.nodup, hr.sent_eq, hr.sent_calls,
    hr.out_eq⟩, h.client, h.client_given, h.requestsRead_le, h.serving, h.server, h.labelled,
    h.completed_eq, h.responsesRead_le, hl.carried, hl.handled_le, hl.settled, hl.once, hl.answers⟩

theorem Wired.call {call : MethodCall R D} {result : WriteResult}
    (h : Wired c services caller sent completed done wire)
    (hidle : wire.client.threads caller = .idle) (hresult : ¬ result.Fatal)
    (hnext : wire.call c caller call result = .ok wire') (hsendable : wire'.Sendable c) :
    ∃ new, Wired c services caller (sent ++ new) completed done wire' := by
  unfold RpcWire.call at hnext
  obtain ⟨channel, hcall, hnext⟩ := bind_eq_ok.mp hnext
  obtain ⟨new, hrecorded⟩ := h.recorded.callMethod hcall
  have hchannel : wire'.channel = channel := by
    obtain ⟨client, -, rfl⟩ := makeCalls_eq_ok hnext
    rfl
  have hframes : ∀ frame ∈ channel.sent, frame.length < 2 ^ 31 := by
    intro frame hframe
    rw [← hchannel] at hframe hrecorded
    exact hsendable.frame_lt hrecorded hframe
  have hcount : channel.sent.length ≤ wire.channel.sent.length + [result].length :=
    length_sent_callMethod hcall
  refine ⟨new, h.makeCalls (RpcChannel.grows_callMethod hcall) hrecorded hcount (.inl rfl) hidle
    (.inr (Nat.le_refl _)) ?_ hframes hnext⟩
  intro other hmem
  rwa [List.mem_singleton.mp hmem]

theorem Wired.client_goesOn {event : StreamConnection.Event} {client : StreamConnection}
    (h : Wired c services caller sent completed done wire) (hevent : event.goesOn)
    (husual : event.Usual) (hnext : wire.client.step event = .ok client) :
    Wired c services caller sent completed done { wire with client := client } := by
  have hgrows := StreamConnection.grows_step (StreamConnection.Event.isSend_of_goesOn hevent) hnext
  exact ⟨h.recorded, h.client.goesOn hevent husual hnext, hgrows.given.trans h.client_given,
    h.requestsRead_le.trans hgrows.written.length_le, h.serving, h.server, h.labelled,
    h.completed_eq, h.responsesRead_le, h.listening⟩

/-- The server has sent what it executes, so what its loop executes next belongs to closures. -/
theorem Wired.server_grows {server : StreamConnection} {host : RpcHost S M}
    {completed' : List (Nat × Reply S M)}
    (h : Wired c services caller sent completed done wire) (hup : server.Up)
    (hexecuted : wire.server.executed <+: server.executed)
    (hwritten : wire.server.output.written <+: server.output.written)
    (hserving : RpcHost.Serving c services sent host wire.requestsRead)
    (hcompleted : completed'.map Prod.snd = host.replies)
    (hlabelled : Labelled (replyFrame c) server.given wire.server.executed completed' done) :
    ∃ new, Wired c services caller sent completed' (done ++ new)
      { wire with host := host, server := server } := by
  obtain ⟨more, hmore⟩ := hexecuted
  have horder : ∀ thread, ofThread thread (wire.server.executed ++ more)
      <+: ofThread thread server.given := by
    intro thread
    rw [hmore]
    exact hup.intact.inOrder.handled_prefix thread
  obtain ⟨new, hnew⟩ := hlabelled.handleAll horder
  rw [hmore] at hnew
  have hgrow := h.listening.grow (.refl _) (new.map Prod.snd)
  rw [← List.map_append] at hgrow
  exact ⟨new, h.recorded, h.client, h.client_given, h.requestsRead_le, hserving, hup, hnew,
    hcompleted, h.responsesRead_le.trans hwritten.length_le, hgrow⟩

theorem Wired.server_goesOn {event : StreamConnection.Event} {server : StreamConnection}
    (h : Wired c services caller sent completed done wire) (hevent : event.goesOn)
    (husual : event.Usual) (hnext : wire.server.step event = .ok server) :
    ∃ new, Wired c services caller sent completed (done ++ new) { wire with server := server } := by
  have hgrows := StreamConnection.grows_step (StreamConnection.Event.isSend_of_goesOn hevent) hnext
  have hlabelled := h.labelled
  rw [← hgrows.given] at hlabelled
  exact h.server_grows (h.server.goesOn hevent husual hnext) hgrows.executed hgrows.written
    h.serving h.completed_eq hlabelled

theorem complete_eq_ok {thread i : Nat} {response : Bytes} {result : WriteResult}
    (h : wire.complete c thread i response result = .ok wire') :
    ∃ server, sendAll wire.server thread
        ((((wire.host.complete c i response).replies.drop wire.host.replies.length).filterMap
          Reply.written).map fun p => (p.2, result)) = .ok server ∧
      wire' = { wire with host := wire.host.complete c i response, server := server } := by
  unfold RpcWire.complete at h
  obtain ⟨server, hsend, h⟩ := bind_eq_ok.mp h
  cases h
  exact ⟨server, hsend, rfl⟩

theorem Wired.complete {thread i : Nat} {response : Bytes} {result : WriteResult}
    (h : Wired c services caller sent completed done wire)
    (hidle : wire.server.threads thread = .idle) (hresult : ¬ result.Fatal)
    (hnext : wire.complete c thread i response result = .ok wire') (hsendable : wire'.Sendable c) :
    ∃ completed' new, (∀ p ∈ completed', p ∈ completed ∨ p.1 = thread) ∧
      Wired c services caller sent completed' (done ++ new) wire' := by
  obtain ⟨server, hsend, rfl⟩ := complete_eq_ok hnext
  have hserving := h.serving.complete i response
  cases hp : wire.host.pending[i]? with
  | none =>
      rw [RpcHost.complete_of_getElem?_eq_none hp] at hsend ⊢
      rw [List.drop_length] at hsend
      cases hsend
      exact ⟨completed, [], fun p hp => .inl hp, by rwa [List.append_nil]⟩
  | some p =>
      obtain ⟨reply, hreplies⟩ : ∃ reply, (wire.host.complete c i response).replies
          = wire.host.replies ++ [reply] := by
        rw [RpcHost.complete_of_getElem? hp]
        exact ⟨_, rfl⟩
      have hmem : reply ∈ (wire.host.complete c i response).replies := by
        rw [hreplies]
        exact List.mem_append_right _ List.mem_cons_self
      have hwritten : reply.written = some (0, replyFrame c reply) := hserving.written reply hmem
      have hframes : (((wire.host.complete c i response).replies.drop
            wire.host.replies.length).filterMap Reply.written).map (fun p => (p.2, result))
          = [(replyFrame c reply, result)] := by
        rw [hreplies, List.drop_left' rfl]
        simp [hwritten]
      rw [hframes] at hsend
      have hlength : (replyFrame c reply).length ≤ maxSize := by
        have hlt : (replyFrame c reply).length < 2 ^ 31 := (hsendable.2 reply hmem).size_lt
        simp only [maxSize]
        omega
      obtain ⟨hup, hgiven, hexecuted, hprefix⟩ := sendAll_holds h.server hidle
        (.inr (Nat.le_refl _))
        (by
          intro q hq
          rw [List.mem_singleton.mp hq]
          exact ⟨hlength, hresult⟩) hsend
      have hlabelled := h.labelled.give thread reply
      have hcompleted : (completed ++ [(thread, reply)]).map Prod.snd
          = (wire.host.complete c i response).replies := by
        rw [List.map_append, h.completed_eq, hreplies]
        rfl
      rw [List.map_cons, List.map_nil] at hgiven
      rw [← hgiven] at hlabelled
      obtain ⟨new, hnew⟩ :=
        h.server_grows hup hexecuted hprefix hserving hcompleted hlabelled
      refine ⟨_, _, fun p hp => ?_, hnew⟩
      apply (List.mem_append.mp hp).imp_right
      intro hlast
      rw [List.mem_singleton.mp hlast]

theorem serverReads_eq_ok {chunk : Bytes} (h : wire.serverReads chunk = .ok wire') :
    ∃ host, wire.host.receive 0 chunk = .ok host ∧ wire' = {
      wire with
      host := host
      requestsRead := wire.requestsRead + chunk.length } := by
  unfold RpcWire.serverReads at h
  obtain ⟨host, hhost, h⟩ := bind_eq_ok.mp h
  cases h
  exact ⟨host, hhost, rfl⟩

theorem length_take_drop_le (bytes : Bytes) {read : Nat} (n : Nat) (hread : read ≤ bytes.length) :
    read + ((bytes.drop read).take n).length ≤ bytes.length := by
  rw [List.length_take, List.length_drop]
  omega

theorem Wired.serverReads {n : Nat} (h : Wired c services caller sent completed done wire)
    (hready : wire.host.CanReceive 0 ((wire.client.output.written.drop wire.requestsRead).take n))
    (hnext : wire.serverReads ((wire.client.output.written.drop wire.requestsRead).take n)
      = .ok wire') : Wired c services caller sent completed done wire' := by
  obtain ⟨host, hhost, rfl⟩ := serverReads_eq_ok hnext
  have hlimit := hready.2.2.2
  have hle := length_take_drop_le wire.client.output.written n h.requestsRead_le
  have hsame := take_drop_of_prefix h.requests_prefix wire.requestsRead n h.requestsRead_le
  have hreplies : host.replies = wire.host.replies := by
    obtain ⟨buff, -, rfl⟩ := RpcHost.receive_eq_ok hhost
    rfl
  generalize (wire.client.output.written.drop wire.requestsRead).take n = chunk
    at hhost hlimit hle hsame ⊢
  have hserving : RpcHost.Serving c services sent host (wire.requestsRead + chunk.length) := by
    rw [hsame] at hlimit hhost ⊢
    exact h.serving.receive hlimit hhost
  exact ⟨h.recorded, h.client, h.client_given, hle, hserving, h.server, h.labelled,
    h.completed_eq.trans hreplies.symm, h.responsesRead_le, h.listening⟩

theorem Wired.serverRound {host : RpcHost S M}
    (h : Wired c services caller sent completed done wire) (hsendable : wire.Sendable c)
    (hnext : wire.host.step c .round = .ok host) :
    Wired c services caller sent completed done { wire with host := host } := by
  have hreplies := RpcHost.replies_step (fun _ _ => by simp) hnext
  have hserving : RpcHost.Serving c services sent host wire.requestsRead := by
    simp only [RpcHost.step] at hnext
    split at hnext
    · cases hnext
      exact h.serving
    · rename_i conn hbusy
      rw [h.serving.busy conn hbusy] at hnext
      apply h.serving.round _ hnext
      exact fun p hp => h.requests_sendable hsendable hp
  exact ⟨h.recorded, h.client, h.client_given, h.requestsRead_le, hserving, h.server, h.labelled,
    h.completed_eq.trans hreplies.symm, h.responsesRead_le, h.listening⟩

theorem channelReads_eq_ok {chunk : Bytes} (h : wire.channelReads chunk = .ok wire') :
    ∃ input, wire.input.readFd (some chunk) = .ok input ∧ wire' = {
      wire with
      input := input
      busy := true
      responsesRead := wire.responsesRead + chunk.length } := by
  unfold RpcWire.channelReads at h
  obtain ⟨input, hread, h⟩ := bind_eq_ok.mp h
  cases h
  exact ⟨input, hread, rfl⟩

theorem Wired.channelReads {n : Nat} (h : Wired c services caller sent completed done wire)
    (hready : wire.CanRead ((wire.server.output.written.drop wire.responsesRead).take n))
    (hnext : wire.channelReads ((wire.server.output.written.drop wire.responsesRead).take n)
      = .ok wire') : Wired c services caller sent completed done wire' := by
  obtain ⟨input, hread, rfl⟩ := channelReads_eq_ok hnext
  have hlimit := hready.2.2.2
  have hle := length_take_drop_le wire.server.output.written n h.responsesRead_le
  have hsame := take_drop_of_prefix h.responses_prefix wire.responsesRead n h.responsesRead_le
  generalize (wire.server.output.written.drop wire.responsesRead).take n = chunk
    at hread hlimit hle hsame ⊢
  have hlistening : Listening c services wire.channel (done.map Prod.snd) wire.handled input
      (wire.responsesRead + chunk.length) := by
    rw [hsame] at hlimit hread ⊢
    exact h.listening.readFd hlimit hread
  exact ⟨h.recorded, h.client, h.client_given, h.requestsRead_le, h.serving, h.server, h.labelled,
    h.completed_eq, hle, hlistening⟩

theorem channelRound_eq_ok {calls : List (MethodCall R D × WriteResult)}
    (h : wire.channelRound c calls = .ok wire') :
    (wire' = { wire with busy := false } ∧
      RpcChannel.onMessageRound c (runDone c (calls.map Prod.fst)) (wire.channel, wire.input)
        = .ok none) ∨
      ∃ next channel input after, RpcChannel.onMessageRound c (runDone c (calls.map Prod.fst))
          (wire.channel, wire.input) = .ok (some (next, channel, input)) ∧
        wire.makeCalls 0 channel (calls.map Prod.snd) = .ok after ∧
        wire' = { after with input := input, handled := wire.handled ++ [next] } := by
  unfold RpcWire.channelRound at h
  obtain ⟨next, hround, h⟩ := bind_eq_ok.mp h
  cases next with
  | none =>
      cases h
      exact .inl ⟨rfl, hround⟩
  | some result =>
      obtain ⟨next, channel, input⟩ := result
      obtain ⟨after, hcalls, h⟩ := bind_eq_ok.mp h
      cases h
      have hhandled : after.handled = wire.handled := by
        obtain ⟨client, -, rfl⟩ := makeCalls_eq_ok hcalls
        rfl
      rw [hhandled]
      exact .inr ⟨next, channel, input, after, hround, hcalls, rfl⟩

theorem Wired.channelRound {calls : List (MethodCall R D × WriteResult)}
    (h : Wired c services caller sent completed done wire) (hcalls : calls = [] ∨ caller = 0)
    (hresults : ∀ p ∈ calls, ¬ p.2.Fatal) (hnext : wire.channelRound c calls = .ok wire')
    (hsendable : wire.Sendable c) (hsendable' : wire'.Sendable c) :
    ∃ new, Wired c services caller (sent ++ new) completed done wire' := by
  obtain ⟨rfl, -⟩ | ⟨next, channel, input, after, hround, hmake, rfl⟩ := channelRound_eq_ok hnext
  · refine ⟨[], ?_⟩
    rw [List.append_nil]
    exact ⟨h.recorded, h.client, h.client_given, h.requestsRead_le, h.serving, h.server,
      h.labelled, h.completed_eq, h.responsesRead_le, h.listening⟩
  · have hserves : ∀ reply ∈ done.map Prod.snd,
        ∃ q ∈ sent, RpcHost.Serves services q reply.call := fun reply hreply =>
      h.serving.replies_serve reply (h.done_subset hreply)
    obtain ⟨⟨new, hrecorded⟩, hlistening⟩ :=
      h.listening.round h.recorded hserves (fun _ => h.responses_sendable hsendable) hround
    obtain ⟨frame, -, hhandle, -⟩ := frameRound_eq_some hround
    have hgrows := (RpcChannel.grows_take next.id).trans (RpcSession.grows_of_answerWith hhandle)
    have hcount := length_sent_answerWith hhandle
    rw [List.length_map, ← List.length_map Prod.snd] at hcount
    have hchannel : after.channel = channel := by
      obtain ⟨client, -, rfl⟩ := makeCalls_eq_ok hmake
      rfl
    have hframes : ∀ frame ∈ channel.sent, frame.length < 2 ^ 31 := by
      intro frame hframe
      rw [← hchannel] at hframe hrecorded
      exact hsendable'.frame_lt hrecorded hframe
    have hthread : 0 = caller ∨ calls.map Prod.snd = [] := by
      obtain rfl | rfl := hcalls
      · exact .inr rfl
      · exact .inl rfl
    have hafter := h.makeCalls hgrows hrecorded hcount hthread h.client.idle_loop (.inl rfl)
      (by
        intro result hresult
        obtain ⟨p, hp, rfl⟩ := List.mem_map.mp hresult
        exact hresults p hp) hframes hmake
    refine ⟨new, ?_⟩
    obtain ⟨client, -, rfl⟩ := makeCalls_eq_ok hmake
    exact ⟨hafter.recorded, hafter.client, hafter.client_given, hafter.requestsRead_le,
      hafter.serving, hafter.server, hafter.labelled, hafter.completed_eq, hafter.responsesRead_le,
      hlistening⟩

/-! ### Whole runs -/

/-- What an event does to the records of both sides. -/
structure Extends (wire wire' : RpcWire S M R D) : Prop where
  calls : wire.channel.calls <+: wire'.channel.calls
  replies : wire.host.replies <+: wire'.host.replies

theorem Extends.refl (wire : RpcWire S M R D) : wire.Extends wire where
  calls := List.prefix_refl _
  replies := List.prefix_refl _

theorem Sendable.of_extends (h : wire'.Sendable c) (hextends : wire.Extends wire') :
    wire.Sendable c :=
  ⟨fun p hp => h.1 p (hextends.calls.subset hp),
    fun reply hreply => h.2 reply (hextends.replies.subset hreply)⟩

theorem extends_step {event : Event R D} (hnext : wire.step c caller event = .ok wire') :
    wire.Extends wire' := by
  cases event with
  | connect =>
      cases hnext
      exact ⟨List.prefix_refl _, List.prefix_refl _⟩
  | call call result =>
      simp only [step] at hnext
      split at hnext
      · unfold RpcWire.call at hnext
        obtain ⟨channel, hcall, hnext⟩ := bind_eq_ok.mp hnext
        obtain ⟨client, -, rfl⟩ := makeCalls_eq_ok hnext
        exact ⟨(RpcChannel.grows_callMethod hcall).calls, List.prefix_refl _⟩
      · cases hnext
        exact .refl _
  | client event =>
      simp only [step] at hnext
      split at hnext
      · obtain ⟨client, -, hnext⟩ := bind_eq_ok.mp hnext
        cases hnext
        exact ⟨List.prefix_refl _, List.prefix_refl _⟩
      · cases hnext
        exact .refl _
  | serverReads n =>
      simp only [step] at hnext
      split at hnext
      · obtain ⟨host, hhost, rfl⟩ := serverReads_eq_ok hnext
        obtain ⟨buff, -, rfl⟩ := RpcHost.receive_eq_ok hhost
        exact ⟨List.prefix_refl _, List.prefix_refl _⟩
      · cases hnext
        exact .refl _
  | serverRound =>
      obtain ⟨host, hhost, hnext⟩ := bind_eq_ok.mp hnext
      cases hnext
      refine ⟨List.prefix_refl _, ?_⟩
      have hsame := RpcHost.replies_step (fun _ _ => by simp) hhost
      simp only [hsame]
      exact List.prefix_refl _
  | complete thread i response result =>
      simp only [step] at hnext
      split at hnext
      · obtain ⟨server, -, rfl⟩ := complete_eq_ok hnext
        obtain ⟨new, hnew⟩ : ∃ new, (wire.host.complete c i response).replies
            = wire.host.replies ++ new := RpcHost.replies_complete i response
        refine ⟨List.prefix_refl _, ?_⟩
        simp only [hnew]
        exact List.prefix_append _ _
      · cases hnext
        exact .refl _
  | server event =>
      simp only [step] at hnext
      split at hnext
      · obtain ⟨server, -, hnext⟩ := bind_eq_ok.mp hnext
        cases hnext
        exact ⟨List.prefix_refl _, List.prefix_refl _⟩
      · cases hnext
        exact .refl _
  | channelReads n =>
      simp only [step] at hnext
      split at hnext
      · obtain ⟨input, -, rfl⟩ := channelReads_eq_ok hnext
        exact ⟨List.prefix_refl _, List.prefix_refl _⟩
      · cases hnext
        exact .refl _
  | channelRound calls =>
      simp only [step] at hnext
      split at hnext
      · obtain ⟨rfl, -⟩ | ⟨next, channel, input, after, hround, hmake, rfl⟩ :=
          channelRound_eq_ok hnext
        · exact ⟨List.prefix_refl _, List.prefix_refl _⟩
        · obtain ⟨frame, -, hhandle, -⟩ := frameRound_eq_some hround
          have hgrows :=
            (RpcChannel.grows_take next.id).trans (RpcSession.grows_of_answerWith hhandle)
          obtain ⟨client, -, rfl⟩ := makeCalls_eq_ok hmake
          exact ⟨hgrows.calls, List.prefix_refl _⟩
      · cases hnext
        exact .refl _

/-- The calls that were sent and the responses on their way back only become more. -/
theorem Wired.step (h : Wired c services caller sent completed done wire) {event : Event R D}
    (hevent : event.Usual) (hnext : wire.step c caller event = .ok wire')
    (hsendable' : wire'.Sendable c) :
    ∃ calls completed' new,
      Wired c services caller (sent ++ calls) completed' (done ++ new) wire' := by
  have hsendable := hsendable'.of_extends (extends_step hnext)
  have hstay : ∀ {wire' : RpcWire S M R D}, Wired c services caller sent completed done wire' →
      ∃ calls completed' new,
        Wired c services caller (sent ++ calls) completed' (done ++ new) wire' :=
    fun h' => ⟨[], _, [], by rwa [List.append_nil, List.append_nil]⟩
  cases event with
  | connect =>
      cases hnext
      exact hstay h.connect
  | call call result =>
      simp only [RpcWire.step] at hnext
      split at hnext
      · rename_i hready
        obtain ⟨calls, h'⟩ := h.call hready.1 hevent hnext hsendable'
        exact ⟨calls, _, [], by rwa [List.append_nil]⟩
      · cases hnext
        exact hstay h
  | client event =>
      simp only [RpcWire.step] at hnext
      split at hnext
      · rename_i hgoesOn
        obtain ⟨client, hclient, hnext⟩ := bind_eq_ok.mp hnext
        cases hnext
        exact hstay (h.client_goesOn hgoesOn hevent hclient)
      · cases hnext
        exact hstay h
  | serverReads n =>
      simp only [RpcWire.step] at hnext
      split at hnext
      · rename_i hready
        exact hstay (h.serverReads hready hnext)
      · cases hnext
        exact hstay h
  | serverRound =>
      obtain ⟨host, hhost, hnext⟩ := bind_eq_ok.mp hnext
      cases hnext
      exact hstay (h.serverRound hsendable hhost)
  | complete thread i response result =>
      simp only [RpcWire.step] at hnext
      split at hnext
      · rename_i hidle
        obtain ⟨completed', new, -, h'⟩ := h.complete hidle hevent hnext hsendable'
        exact ⟨[], _, new, by rwa [List.append_nil]⟩
      · cases hnext
        exact hstay h
  | server event =>
      simp only [RpcWire.step] at hnext
      split at hnext
      · rename_i hgoesOn
        obtain ⟨server, hserver, hnext⟩ := bind_eq_ok.mp hnext
        cases hnext
        obtain ⟨new, h'⟩ := h.server_goesOn hgoesOn hevent hserver
        exact ⟨[], _, new, by rwa [List.append_nil]⟩
      · cases hnext
        exact hstay h
  | channelReads n =>
      simp only [RpcWire.step] at hnext
      split at hnext
      · rename_i hready
        exact hstay (h.channelReads hready hnext)
      · cases hnext
        exact hstay h
  | channelRound calls =>
      simp only [RpcWire.step] at hnext
      split at hnext
      · rename_i hready
        obtain ⟨calls, h'⟩ := h.channelRound hready.2 hevent hnext hsendable hsendable'
        exact ⟨calls, _, [], by rwa [List.append_nil]⟩
      · cases hnext
        exact hstay h

theorem wired_run {highWaterMark : Nat}
    {writeCompleteCallback highWaterMarkCallback : Bool} {events : List (Event R D)}
    (hevents : ∀ event ∈ events, event.Usual)
    (hrun : run (step c caller)
      (init services highWaterMark writeCompleteCallback highWaterMarkCallback) events = .ok wire)
    (hsendable : wire.Sendable c) :
    ∃ sent completed done, Wired c services caller sent completed done wire := by
  have hstep : ∀ (s : RpcWire S M R D) (event : Event R D) (s' : RpcWire S M R D), event.Usual →
      (s.Sendable c → ∃ sent completed done, Wired c services caller sent completed done s) →
      s.step c caller event = .ok s' →
      s'.Sendable c → ∃ sent completed done, Wired c services caller sent completed done s' := by
    intro s event s' hevent ih hnext hsendable'
    obtain ⟨sent, completed, done, h⟩ := ih (hsendable'.of_extends (extends_step hnext))
    obtain ⟨_, _, _, h'⟩ := h.step hevent hnext hsendable'
    exact ⟨_, _, _, h'⟩
  exact invariant_of_allowed hstep hrun hevents (fun _ => ⟨[], [], [], wired_init _ _ _⟩) hsendable

/-- However the frames are cut, kept back and interleaved on their way, and whichever threads run
the closures, each answer belongs to the call with its number, there is one at most, and the
requests arrive in the order of the calls. -/
theorem answers_over_wire {highWaterMark : Nat}
    {writeCompleteCallback highWaterMarkCallback : Bool} {events : List (Event R D)}
    (hevents : ∀ event ∈ events, event.Usual)
    (hrun : run (step c caller)
      (init services highWaterMark writeCompleteCallback highWaterMarkCallback) events = .ok wire)
    (hsendable : wire.Sendable c) :
    (wire.channel.calls.map Prod.fst).Nodup ∧
      ((wire.handled.filter fun h => h.answer.isSome).map fun h => h.id).Nodup ∧
      (∀ h ∈ wire.handled, AnswersItsCall services wire.channel.calls wire.host.replies h) ∧
      (∀ h ∈ wire.handled, wire.channel.out h.id = none) ∧
      wire.client.output.written <+: wire.channel.sent.flatten := by
  obtain ⟨sent, completed, done, h⟩ := wired_run hevents hrun hsendable
  refine ⟨h.recorded.nodup, h.listening.once, ?_, ?_, ?_⟩
  · intro next hmem
    exact (h.listening.answers next hmem).mono (List.Subset.refl _) h.done_subset
  · exact fun next hmem => (h.listening.settled next hmem).2
  · rw [h.recorded.sent_eq]
    exact h.client.written_prefix.trans h.executed_prefix.flatten

instance (c : MetaCodec) (wire : RpcWire S M R D) : Decidable (wire.Sendable c) :=
  inferInstanceAs (Decidable (_ ∧ _))

/-- Thread 1 makes the call, its frame is written in two pieces, and thread 2 runs the closure. -/
def askFromThread : List (Event Unit Unit) :=
  let ask : MethodCall Unit Unit := { callWith [7] with done := some () }
  [.connect, .call ask (.accepted 0), .client (.advance 1), .client .doPendingFunctors,
    .client (.functor (.accepted 9)), .serverReads 100, .serverRound,
    .client (.handleWrite (.accepted 100)), .serverReads 100, .serverRound, .serverRound,
    .complete 2 0 [8] (.accepted 0), .server (.advance 2), .server .doPendingFunctors,
    .server (.functor (.accepted 100)), .channelReads 10, .channelRound [], .channelReads 10,
    .channelRound [], .channelRound []]

theorem answers_over_wire_askFromThread : ∃ wire : RpcWire Unit Unit Unit Unit,
    run (step RpcMetaMessage.pbCodec 1) (init [((), [115], [([109], ())])] 64 true true)
        askFromThread = .ok wire ∧
      (wire.handled.map fun h => h.answer) = [some ((), some (), [8])] ∧
      ∀ h ∈ wire.handled, AnswersItsCall [((), [115], [([109], ())])] wire.channel.calls
        wire.host.replies h := by
  obtain ⟨wire, hrun, hsendable, hanswers⟩ : ∃ wire : RpcWire Unit Unit Unit Unit,
      run (step RpcMetaMessage.pbCodec 1) (init [((), [115], [([109], ())])] 64 true true)
          askFromThread = .ok wire ∧
        wire.Sendable RpcMetaMessage.pbCodec ∧
        (wire.handled.map fun h => h.answer) = [some ((), some (), [8])] := by
    apply Holds.returns
    decide +kernel
  have husual : ∀ event ∈ askFromThread, event.Usual := by
    simp [askFromThread, Event.Usual, StreamConnection.Event.Usual, WriteResult.Fatal]
  generalize askFromThread = events at hrun husual
  obtain ⟨-, -, hcorrelated, -⟩ :=
    answers_over_wire husual hrun hsendable
  exact ⟨wire, hrun, hanswers, hcorrelated⟩

end RpcWire

end ToyBasket
