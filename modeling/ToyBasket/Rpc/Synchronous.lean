import ToyBasket.Rpc.AtRest

/-!
# Services that answer at once

A service may run its closure before `CallMethod` returns, as the one of the echo server does. The
response is then sent from the loop, in the same round, and the answers come back in the order of
the calls.
-/

namespace ToyBasket

open Words Outcome Machine

namespace RpcWire

variable {S M R D : Type} {c : MetaCodec} {services : List (S × Bytes × List (Bytes × M))}
  {caller : Nat} {sent : List (Int × MethodCall R D)} {completed done : List (Nat × Reply S M)}
  {wire wire' : RpcWire S M R D} {impl : S → M → Bytes → Bytes}

/-- A round in which the closure runs as well. What it sends goes out before the frame is taken off
the buffer, which the closure does not look at. -/
def serve (c : MetaCodec) (impl : S → M → Bytes → Bytes) (wire : RpcWire S M R D)
    (result : WriteResult) : Except Fault (RpcWire S M R D) := do
  let host ← wire.host.step c .round
  match host.pending with
  | [] => return { wire with host := host }
  | p :: _ =>
      let response := impl p.call.service p.call.method p.call.request
      RpcWire.complete c { wire with host := host } 0 0 response result

/-- The steps that are not those of the services. -/
def Event.besideServices : Event R D → Bool
  | .serverRound | .complete .. => false
  | .connect | .call .. | .client _ | .serverReads _ | .server _ | .channelReads _
  | .channelRound _ => true

inductive SyncEvent (R D : Type) where
  | beside (event : Event R D)
  | serve (result : WriteResult)

def SyncEvent.Usual : SyncEvent R D → Prop
  | .beside event => event.Usual
  | .serve result => ¬ result.Fatal

def syncStep (c : MetaCodec) (caller : Nat) (impl : S → M → Bytes → Bytes)
    (wire : RpcWire S M R D) : SyncEvent R D → Except Fault (RpcWire S M R D)
  | .beside event => if event.besideServices then wire.step c caller event else .ok wire
  | .serve result => wire.serve c impl result

/-- Every closure has run, on the loop, in the order of the requests. -/
structure InTurn (impl : S → M → Bytes → Bytes) (sent : List (Int × MethodCall R D))
    (wire : RpcWire S M R D) : Prop where
  pending : wire.host.pending = []
  onLoop : ∀ p ∈ wire.server.given, p.1 = 0
  ids : (wire.host.replies.map fun reply => reply.call.id)
    = (sent.take wire.host.replies.length).map fun p => Int64.ofInt p.1
  responses : ∀ reply ∈ wire.host.replies,
    reply.response = impl reply.call.service reply.call.method reply.call.request

theorem inTurn_init (highWaterMark : Nat) (writeCompleteCallback highWaterMarkCallback : Bool) :
    InTurn impl [] (init services highWaterMark writeCompleteCallback highWaterMarkCallback :
      RpcWire S M R D) where
  pending := rfl
  onLoop := by
    rintro p ⟨⟩
  ids := rfl
  responses := by
    rintro reply ⟨⟩

theorem Wired.length_replies_le (h : Wired c services caller sent completed done wire) :
    wire.host.replies.length ≤ sent.length :=
  (Nat.le_add_left _ _).trans h.serving.accepted_le

theorem InTurn.append (h : InTurn impl sent wire)
    (hwired : Wired c services caller sent completed done wire)
    (calls : List (Int × MethodCall R D)) : InTurn impl (sent ++ calls) wire where
  pending := h.pending
  onLoop := h.onLoop
  ids := by
    rw [List.take_append_of_le_length hwired.length_replies_le]
    exact h.ids
  responses := h.responses

theorem InTurn.of_eq (h : InTurn impl sent wire)
    (hpending : wire'.host.pending = wire.host.pending)
    (hreplies : wire'.host.replies = wire.host.replies)
    (hgiven : wire'.server.given = wire.server.given) : InTurn impl sent wire' where
  pending := hpending.trans h.pending
  onLoop := by
    rw [hgiven]
    exact h.onLoop
  ids := by
    rw [hreplies]
    exact h.ids
  responses := by
    rw [hreplies]
    exact h.responses

theorem InTurn.beside {event : Event R D} (h : InTurn impl sent wire)
    (hevent : event.besideServices) (hnext : wire.step c caller event = .ok wire') :
    InTurn impl sent wire' := by
  cases event with
  | connect =>
      cases hnext
      exact h.of_eq rfl rfl rfl
  | call call result =>
      simp only [RpcWire.step] at hnext
      split at hnext
      · unfold RpcWire.call at hnext
        obtain ⟨channel, -, hnext⟩ := bind_eq_ok.mp hnext
        obtain ⟨client, -, rfl⟩ := makeCalls_eq_ok hnext
        exact h.of_eq rfl rfl rfl
      · cases hnext
        exact h
  | client event =>
      simp only [RpcWire.step] at hnext
      split at hnext
      · obtain ⟨client, -, hnext⟩ := bind_eq_ok.mp hnext
        cases hnext
        exact h.of_eq rfl rfl rfl
      · cases hnext
        exact h
  | serverReads n =>
      simp only [RpcWire.step] at hnext
      split at hnext
      · obtain ⟨host, hhost, rfl⟩ := serverReads_eq_ok hnext
        obtain ⟨buff, -, rfl⟩ := RpcHost.receive_eq_ok hhost
        exact h.of_eq rfl rfl rfl
      · cases hnext
        exact h
  | serverRound => cases hevent
  | complete thread i response result => cases hevent
  | server event =>
      simp only [RpcWire.step] at hnext
      split at hnext
      · rename_i hgoesOn
        obtain ⟨server, hserver, hnext⟩ := bind_eq_ok.mp hnext
        cases hnext
        have hgrows :=
          StreamConnection.grows_step (StreamConnection.Event.isSend_of_goesOn hgoesOn) hserver
        exact h.of_eq rfl rfl hgrows.given
      · cases hnext
        exact h
  | channelReads n =>
      simp only [RpcWire.step] at hnext
      split at hnext
      · obtain ⟨input, -, rfl⟩ := channelReads_eq_ok hnext
        exact h.of_eq rfl rfl rfl
      · cases hnext
        exact h
  | channelRound calls =>
      simp only [RpcWire.step] at hnext
      split at hnext
      · obtain ⟨rfl, -⟩ | ⟨next, channel, input, after, -, hmake, rfl⟩ := channelRound_eq_ok hnext
        · exact h.of_eq rfl rfl rfl
        · obtain ⟨client, -, rfl⟩ := makeCalls_eq_ok hmake
          exact h.of_eq rfl rfl rfl
      · cases hnext
        exact h

/-- The closures are those of the loop. -/
theorem InTurn.completed_onLoop (h : InTurn impl sent wire)
    (hwired : Wired c services caller sent completed done wire) {p : Nat × Reply S M}
    (hp : p ∈ completed) : p.1 = 0 := by
  apply h.onLoop (Prod.map id (replyFrame c) p)
  rw [hwired.labelled.given_eq]
  exact List.mem_map_of_mem hp

theorem serve_eq_ok {result : WriteResult} (h : wire.serve c impl result = .ok wire') :
    ∃ host, wire.host.step c .round = .ok host ∧
      ((host.pending = [] ∧ wire' = { wire with host := host }) ∨
        ∃ p pending, host.pending = p :: pending ∧
          RpcWire.complete c { wire with host := host } 0 0
            (impl p.call.service p.call.method p.call.request) result = .ok wire') := by
  unfold serve at h
  obtain ⟨host, hhost, h⟩ := bind_eq_ok.mp h
  refine ⟨host, hhost, ?_⟩
  cases hpending : host.pending with
  | nil =>
      simp only [hpending] at h
      cases h
      exact .inl ⟨rfl, rfl⟩
  | cons p pending =>
      simp only [hpending] at h
      exact .inr ⟨p, pending, rfl, h⟩

/-- A round hands one request over, if any. -/
theorem pending_round {host host' : RpcHost S M} (hpending : host.pending = [])
    (hnext : host.step c .round = .ok host') :
    host'.pending = [] ∨ ∃ p, host'.pending = [p] := by
  simp only [RpcHost.step] at hnext
  split at hnext
  · cases hnext
    exact .inl hpending
  · obtain ⟨rfl, -⟩ | ⟨call, serviceCall, server, buff, -, -, rfl⟩ := RpcHost.round_eq_ok hnext
    · exact .inl hpending
    · right
      simp only [hpending, List.nil_append]
      exact ⟨_, rfl⟩

/-- Of a list whose beginning is in order the next element is, if the elements are the same. -/
theorem append_eq_take {α : Type} {l before : List α} {next : α} {n : Nat}
    (hbefore : before = l.take n) (hperm : (before ++ [next]).Perm (l.take (n + 1))) :
    before ++ [next] = l.take (n + 1) := by
  rw [List.take_add_one, ← hbefore] at hperm ⊢
  rw [List.perm_singleton.mp ((List.perm_append_left_iff _).mp hperm).symm]

/-- The response is the next one. -/
theorem InTurn.complete {result : WriteResult} {host : RpcHost S M} {p : Pending S M}
    {completed' done' : List (Nat × Reply S M)} (h : InTurn impl sent wire)
    (hwired : Wired c services caller sent completed done wire)
    (hreplies : host.replies = wire.host.replies) (hone : host.pending = [p])
    (hcomplete : RpcWire.complete c { wire with host := host } 0 0
      (impl p.call.service p.call.method p.call.request) result = .ok wire')
    (hwired' : Wired c services caller sent completed' done' wire')
    (hthreads : ∀ p ∈ completed', p ∈ completed ∨ p.1 = 0) : InTurn impl sent wire' := by
  obtain ⟨server, -, hwire'⟩ := complete_eq_ok hcomplete
  have hget : host.pending[0]? = some p := by rw [hone]; rfl
  rw [RpcHost.complete_of_getElem? hget, hone] at hwire'
  have hpending : wire'.host.pending = [] := by rw [hwire']; rfl
  obtain ⟨reply, hreply, hresponse⟩ :
      ∃ reply, wire'.host.replies = wire.host.replies ++ [reply] ∧
        reply.response = impl reply.call.service reply.call.method reply.call.request := by
    rw [hwire', ← hreplies]
    exact ⟨_, rfl, rfl⟩
  refine ⟨hpending, ?_, ?_, ?_⟩
  · intro q hq
    rw [hwired'.labelled.given_eq] at hq
    obtain ⟨r, hr, rfl⟩ := List.mem_map.mp hq
    obtain hr | hr := hthreads r hr
    · exact h.completed_onLoop hwired hr
    · exact hr
  · have hids := hwired'.serving.ids
    have hbefore := h.ids
    rw [hpending, List.map_nil, List.nil_append, RpcHost.accepted, hpending, List.length_nil,
      Nat.zero_add, hreply, List.map_append, List.map_take, List.length_append] at hids
    rw [List.map_take] at hbefore
    rw [hreply, List.map_append, List.map_take, List.length_append]
    exact append_eq_take hbefore hids
  · intro q hq
    rw [hreply] at hq
    obtain hq | hq := List.mem_append.mp hq
    · exact h.responses q hq
    · rw [List.mem_singleton.mp hq]
      exact hresponse

theorem Sendable.of_replies_eq {host : RpcHost S M} (h : Sendable c { wire with host := host })
    (hreplies : host.replies = wire.host.replies) : wire.Sendable c := by
  refine ⟨h.1, ?_⟩
  rw [← hreplies]
  exact h.2

theorem InTurn.serve {result : WriteResult} (h : InTurn impl sent wire)
    (hwired : Wired c services caller sent completed done wire)
    (hanswered : Answered c done wire) (hresult : ¬ result.Fatal)
    (hnext : wire.serve c impl result = .ok wire') (hsendable : wire'.Sendable c) :
    ∃ completed' new, Wired c services caller sent completed' (done ++ new) wire' ∧
      Answered c done wire' ∧ InTurn impl sent wire' := by
  obtain ⟨host, hhost, hafter⟩ := serve_eq_ok hnext
  have hreplies := RpcHost.replies_step (fun _ _ => by simp) hhost
  have hround : Answered c done { wire with host := host } :=
    hanswered.of_eq rfl rfl rfl (hanswered.serverRound hwired hhost) hanswered.channel_reads
  obtain ⟨hnone, rfl⟩ | ⟨p, pending, hp, hcomplete⟩ := hafter
  · refine ⟨completed, [], ?_, hround, h.of_eq (hnone.trans h.pending.symm) hreplies rfl⟩
    rw [List.append_nil]
    exact hwired.serverRound (hsendable.of_replies_eq hreplies) hhost
  · have hone : host.pending = [p] := by
      obtain hnone | ⟨q, hq⟩ := pending_round h.pending hhost
      · rw [hnone] at hp
        cases hp
      · rw [hq] at hp ⊢
        rw [(List.cons.inj hp).1]
    have hstep : RpcWire.step c caller { wire with host := host }
        (.complete 0 0 (impl p.call.service p.call.method p.call.request) result) = .ok wire' := by
      rw [RpcWire.step, if_pos hwired.server.idle_loop, hcomplete]
    have hmid : Sendable c { wire with host := host } :=
      hsendable.of_extends (extends_step hstep)
    have hwiredRound := hwired.serverRound (hmid.of_replies_eq hreplies) hhost
    obtain ⟨completed', new, hthreads, hwired'⟩ :=
      hwiredRound.complete hwired.server.idle_loop hresult hcomplete hsendable
    exact ⟨completed', new, hwired', hround.step hwiredRound hmid hstep,
      h.complete hwired hreplies hone hcomplete hwired' hthreads⟩

theorem extends_syncStep {event : SyncEvent R D}
    (hnext : wire.syncStep c caller impl event = .ok wire') : wire.Extends wire' := by
  cases event with
  | beside event =>
      simp only [syncStep] at hnext
      split at hnext
      · exact extends_step hnext
      · cases hnext
        exact .refl _
  | serve result =>
      obtain ⟨host, hhost, hafter⟩ := serve_eq_ok hnext
      have hreplies := RpcHost.replies_step (fun _ _ => by simp) hhost
      have hround : wire.Extends { wire with host := host } :=
        ⟨List.prefix_refl _, hreplies ▸ List.prefix_refl _⟩
      obtain ⟨-, rfl⟩ | ⟨p, pending, -, hcomplete⟩ := hafter
      · exact hround
      · obtain ⟨server, -, rfl⟩ := complete_eq_ok hcomplete
        obtain ⟨new, hnew⟩ : ∃ new, (host.complete c 0
            (impl p.call.service p.call.method p.call.request)).replies = host.replies ++ new :=
          RpcHost.replies_complete _ _
        refine ⟨List.prefix_refl _, hround.replies.trans ?_⟩
        simp only [hnew]
        exact List.prefix_append _ _

theorem inTurn_run {highWaterMark : Nat}
    {writeCompleteCallback highWaterMarkCallback : Bool} {events : List (SyncEvent R D)}
    (hevents : ∀ event ∈ events, event.Usual)
    (hrun : run (syncStep c caller impl)
      (init services highWaterMark writeCompleteCallback highWaterMarkCallback) events = .ok wire)
    (hsendable : wire.Sendable c) :
    ∃ sent completed done, Wired c services caller sent completed done wire ∧
      Answered c done wire ∧ InTurn impl sent wire := by
  have hstep : ∀ (s : RpcWire S M R D) (event : SyncEvent R D) (s' : RpcWire S M R D),
      event.Usual →
      (s.Sendable c → ∃ sent completed done, Wired c services caller sent completed done s ∧
        Answered c done s ∧ InTurn impl sent s) →
      s.syncStep c caller impl event = .ok s' →
      s'.Sendable c → ∃ sent completed done, Wired c services caller sent completed done s' ∧
        Answered c done s' ∧ InTurn impl sent s' := by
    intro s event s' hevent ih hnext hsendable'
    have hsendable := hsendable'.of_extends (extends_syncStep hnext)
    obtain ⟨sent, completed, done, hwired, hanswered, h⟩ := ih hsendable
    cases event with
    | beside event =>
        simp only [syncStep] at hnext
        split at hnext
        · rename_i hbeside
          obtain ⟨calls, completed', new, hwired'⟩ := hwired.step hevent hnext hsendable'
          exact ⟨_, _, _, hwired', (hanswered.step hwired hsendable hnext).append new,
            (h.append hwired calls).beside hbeside hnext⟩
        · cases hnext
          exact ⟨_, _, _, hwired, hanswered, h⟩
    | serve result =>
        obtain ⟨completed', new, hwired', hanswered', h'⟩ :=
          h.serve hwired hanswered hevent hnext hsendable'
        exact ⟨_, _, _, hwired', hanswered'.append new, h'⟩
  exact invariant_of_allowed hstep hrun hevents
    (fun _ => ⟨[], [], [], wired_init _ _ _, answered_init _ _ _, inTurn_init _ _ _⟩) hsendable

/-- The responses that have gone out are the first ones. -/
theorem InTurn.done_prefix (h : InTurn impl sent wire)
    (hwired : Wired c services caller sent completed done wire) :
    done.map Prod.snd <+: wire.host.replies := by
  have hcompleted : ∀ p ∈ completed, p.1 = 0 := fun p hp => h.completed_onLoop hwired hp
  have hdone : ∀ p ∈ done, p.1 = 0 := fun p hp => hcompleted p (hwired.labelled.subset hp)
  have horder := hwired.labelled.order 0
  rwa [ofThread_eq_map hdone, ofThread_eq_map hcompleted, hwired.completed_eq] at horder

theorem getElem?_of_prefix {α : Type} {l l' : List α} {i : Nat} {a : α} (h : l <+: l')
    (hget : l[i]? = some a) : l'[i]? = some a := by
  obtain ⟨rest, rfl⟩ := h
  rwa [List.getElem?_append_left (List.getElem?_eq_some_iff.mp hget).1]

/-- The frame the channel handles `i`-th has the number of the `i`-th call. -/
theorem InTurn.handled_id (h : InTurn impl sent wire)
    (hwired : Wired c services caller sent completed done wire) (hanswered : Answered c done wire)
    {i : Nat} {next : RpcChannel.Handled R D} {p : Int × MethodCall R D}
    (hnext : wire.handled[i]? = some next) (hp : sent[i]? = some p) :
    next.id = p.1 ∧ ∃ reply ∈ wire.host.replies, RpcHost.Serves services p reply.call := by
  have hid : wire.gone[i]? = some next.id := by
    rw [gone, List.getElem?_map, hnext]
    rfl
  have hdone := getElem?_of_prefix hanswered.ids hid
  rw [List.getElem?_map, Option.map_eq_some_iff] at hdone
  obtain ⟨d, hd, hnumber⟩ := hdone
  have hreply : wire.host.replies[i]? = some d.2 := by
    apply getElem?_of_prefix (h.done_prefix hwired)
    rw [List.getElem?_map, hd]
    rfl
  have hcall := hwired.recorded.sent_calls.subset (List.mem_of_getElem? hp)
  have hsame : d.2.call.id = Int64.ofInt p.1 := by
    have hlt : i < wire.host.replies.length := (List.getElem?_eq_some_iff.mp hreply).1
    have hids := congrArg (fun ids => ids[i]?) h.ids
    simp only [List.getElem?_map, hreply, List.getElem?_take_of_lt hlt, hp, Option.map_some,
      Option.some_inj] at hids
    exact hids
  have hmem := List.mem_of_getElem? hreply
  obtain ⟨q, hq, hserves⟩ := hwired.serving.replies_serve d.2 hmem
  have hq' := hwired.recorded.sent_calls.subset hq
  have hqp : q = p := by
    apply List.inj_on_of_nodup_map hwired.recorded.nodup hq' hcall
    calc
      q.1 = (Int64.ofInt q.1).toInt := (hwired.recorded.toInt_ofInt hq').symm
      _ = (Int64.ofInt p.1).toInt := by rw [← hserves.id, hsame]
      _ = p.1 := hwired.recorded.toInt_ofInt hcall
  refine ⟨?_, d.2, hmem, hqp ▸ hserves⟩
  rw [← hnumber, hsame]
  exact hwired.recorded.toInt_ofInt hcall

/-- The frame has the number of the call, and its response object, if it has one, was given what the
service makes of its request. -/
def AnswersCall (services : List (S × Bytes × List (Bytes × M))) (impl : S → M → Bytes → Bytes)
    (p : Int × MethodCall R D) (next : RpcChannel.Handled R D) : Prop :=
  next.id = p.1 ∧ ∃ service method methods, (service, p.2.service, methods) ∈ services ∧
    (p.2.method, method) ∈ methods ∧ next.answer = p.2.response.map fun response =>
      (response, p.2.done, impl service method p.2.request)

theorem InTurn.handled_le (h : InTurn impl sent wire)
    (hwired : Wired c services caller sent completed done wire) :
    wire.handled.length ≤ sent.length :=
  calc
    wire.handled.length ≤ (done.map Prod.snd).length := hwired.listening.handled_le
    _ ≤ wire.host.replies.length := (h.done_prefix hwired).length_le
    _ ≤ sent.length := hwired.length_replies_le

theorem InTurn.answersCall (h : InTurn impl sent wire)
    (hwired : Wired c services caller sent completed done wire) (hanswered : Answered c done wire)
    {i : Nat} {next : RpcChannel.Handled R D} {p : Int × MethodCall R D}
    (hnext : wire.handled[i]? = some next) (hp : sent[i]? = some p) :
    AnswersCall services impl p next := by
  obtain ⟨hid, reply, hreply, hserves⟩ := h.handled_id hwired hanswered hnext hp
  refine ⟨hid, ?_⟩
  have hmem := List.mem_of_getElem? hnext
  have hcall := hwired.recorded.sent_calls.subset (List.mem_of_getElem? hp)
  have hsome := hanswered.answered next hmem p.2 (by rwa [hid])
  cases hanswer : next.answer with
  | none =>
      obtain ⟨methods, hservice, hmethod⟩ := hserves.registered
      refine ⟨_, _, methods, hservice, hmethod, ?_⟩
      rw [hanswer] at hsome
      cases hresponse : p.2.response with
      | none => rfl
      | some response =>
          rw [hresponse] at hsome
          cases hsome
  | some answer =>
      obtain ⟨response, closure, bytes⟩ := answer
      have hanswers := (hwired.listening.answers next hmem).mono (List.Subset.refl _)
        hwired.done_subset
      obtain ⟨call, hcall', hresponse, hdone, reply', hreply', hserves', hbytes⟩ :=
        hanswers response closure bytes hanswer
      rw [hid] at hcall' hserves'
      rw [hwired.recorded.call_eq hcall' hcall] at hresponse hdone hserves'
      obtain ⟨methods, hservice, hmethod⟩ := hserves'.registered
      refine ⟨_, _, methods, hservice, hmethod, ?_⟩
      rw [hresponse, hdone, ← hserves'.request, ← h.responses reply' hreply', hbytes]
      rfl

/-- The answers come back in the order of the calls: the `i`-th frame that is handled answers the
`i`-th call that was sent. -/
theorem answers_inTurn {highWaterMark : Nat}
    {writeCompleteCallback highWaterMarkCallback : Bool} {events : List (SyncEvent R D)}
    (hevents : ∀ event ∈ events, event.Usual)
    (hrun : run (syncStep c caller impl)
      (init services highWaterMark writeCompleteCallback highWaterMarkCallback) events = .ok wire)
    (hsendable : wire.Sendable c) :
    ∃ sent : List (Int × MethodCall R D), sent.Sublist wire.channel.calls ∧
      (wire.channel.sent = sent.map fun p => RpcChannel.requestFrame c p.1 p.2) ∧
      wire.handled.length ≤ sent.length ∧
      ∀ (i : Nat) next p, wire.handled[i]? = some next → sent[i]? = some p →
        AnswersCall services impl p next := by
  obtain ⟨sent, completed, done, hwired, hanswered, h⟩ := inTurn_run hevents hrun hsendable
  exact ⟨sent, hwired.recorded.sent_calls, hwired.recorded.sent_eq, h.handled_le hwired,
    fun _ _ _ hnext hp => h.answersCall hwired hanswered hnext hp⟩

/-- Two calls before the first answer, with the service that returns the request. -/
def askTwiceAtOnce : List (SyncEvent Unit Unit) :=
  let ask (request : Bytes) : MethodCall Unit Unit := { callWith request with done := some () }
  [.beside .connect, .beside (.call (ask [7]) (.accepted 100)),
    .beside (.call (ask [9, 9]) (.accepted 100)), .beside (.serverReads 100),
    .serve (.accepted 100), .serve (.accepted 100), .serve (.accepted 0),
    .beside (.channelReads 100), .beside (.channelRound []), .beside (.channelRound []),
    .beside (.channelRound [])]

theorem answers_inTurn_askTwiceAtOnce : ∃ wire : RpcWire Unit Unit Unit Unit,
    run (syncStep RpcMetaMessage.pbCodec 0 fun _ _ request => request)
        (init [((), [115], [([109], ())])] 64 true true) askTwiceAtOnce = .ok wire ∧
      (wire.handled.map fun h => h.answer)
        = [some ((), some (), [7]), some ((), some (), [9, 9])] ∧
      ∃ sent : List (Int × MethodCall Unit Unit), sent.Sublist wire.channel.calls ∧
        wire.handled.length ≤ sent.length := by
  obtain ⟨wire, hrun, hsendable, hanswers⟩ : ∃ wire : RpcWire Unit Unit Unit Unit,
      run (syncStep RpcMetaMessage.pbCodec 0 fun _ _ request => request)
          (init [((), [115], [([109], ())])] 64 true true) askTwiceAtOnce = .ok wire ∧
        wire.Sendable RpcMetaMessage.pbCodec ∧
        (wire.handled.map fun h => h.answer)
          = [some ((), some (), [7]), some ((), some (), [9, 9])] := by
    apply Holds.returns
    decide +kernel
  have husual : ∀ event ∈ askTwiceAtOnce, event.Usual := by
    simp [askTwiceAtOnce, SyncEvent.Usual, Event.Usual, WriteResult.Fatal]
  generalize askTwiceAtOnce = events at hrun husual
  obtain ⟨sent, hcalls, -, hle, -⟩ := answers_inTurn husual hrun hsendable
  exact ⟨wire, hrun, hanswers, sent, hcalls, hle⟩

end RpcWire

end ToyBasket
