import ToyBasket.Rpc.RoundTrip
import ToyBasket.Rpc.Session
import Mathlib.Data.List.Nodup
import Mathlib.Data.List.Perm.Basic

/-!
# Every answer belongs to its call

The numbers of the calls tie the two sides together. A request is on its way, or handed to its
service, or answered; its number comes back with the answer and finds the entry of that very call,
once.
-/

namespace ToyBasket

open Words Outcome Drain Machine

/-! ### A stream and the buffer at its end -/

/-- What the buffer holds and what has not been read of the stream make up `left`. -/
structure Carried (buff : Buffer) (total : Bytes) (read : Nat) (left : Bytes) : Prop where
  wellFormed : buff.WellFormed
  read_le : read ≤ total.length
  bytes : buff.readable ++ total.drop read = left

section Carried

variable {buff buff' : Buffer} {total left : Bytes} {read : Nat}

theorem Carried.append (h : Carried buff total read left) (more : Bytes) :
    Carried buff (total ++ more) read (left ++ more) where
  wellFormed := h.wellFormed
  read_le := by
    rw [List.length_append]
    exact Nat.le_add_right_of_le h.read_le
  bytes := by
    rw [List.drop_append_of_le_length h.read_le, ← List.append_assoc, h.bytes]

theorem Carried.readFd {n : Nat} (h : Carried buff total read left)
    (hlimit : ((total.drop read).take n).length ≤ buff.readLimit)
    (hread : buff.readFd (some ((total.drop read).take n)) = .ok buff') :
    Carried buff' total (read + ((total.drop read).take n).length) left := by
  obtain ⟨unread, hunread⟩ := List.take_prefix n (total.drop read)
  have hholds : Holds (buff.readFd (some ((total.drop read).take n))) _ _ :=
    Buffer.readFd_holds h.wellFormed (hlimit.trans (readLimit_le h.wellFormed))
  obtain ⟨hwell, hreadable, -⟩ := (hholds.of_ok hread).1
  have hdrop : total.drop (read + ((total.drop read).take n).length) = unread := by
    rw [← List.drop_drop]
    nth_rewrite 2 [← hunread]
    exact List.drop_left' rfl
  have hlength := congrArg List.length hunread
  rw [List.length_append, List.length_drop] at hlength
  have hread_le := h.read_le
  refine ⟨hwell, by omega, ?_⟩
  calc
    buff'.readable ++ total.drop (read + ((total.drop read).take n).length)
        = buff.readable ++ ((total.drop read).take n ++ unread) := by
          rw [hdrop, hreadable, Option.getD_some, List.append_assoc]
    _ = left := by rw [hunread, h.bytes]

variable {α σ ω : Type} {c : MetaCodec} {body : Body Fault ω (σ × Buffer)}
  {handle : σ → Bytes → Frame → Except Fault (ω × σ)} {s s' : σ} {out : ω} {l : List α}
  {message : α → Message} {k : Nat}

theorem Carried.round (h : Carried buff total read (stream c ((l.map message).drop k)))
    (hl : ∀ a ∈ l, (message a).Sendable c)
    (hviews : Views (Prod.map id Buffer.readable) (fun p => p.2.WellFormed) body
      (bytesRound c handle))
    (hstable : Stable (fun (p : σ × Bytes) more => (p.1, p.2 ++ more)) (bytesRound c handle))
    (hround : body (s, buff) = .ok (some (out, s', buff'))) :
    ∃ a, l[k]? = some a ∧
      (∃ rest, handle s ((message a).bytes c ++ rest) ((message a).frame c) = .ok (out, s')) ∧
      Carried buff' total read (stream c ((l.map message).drop (k + 1))) := by
  have hbytes := hviews.commutes (s, buff) h.wellFormed
  rw [hround] at hbytes
  have hmore := hstable _ _ _ (total.drop read) hbytes.symm
  simp only [Prod.map, id, h.bytes] at hmore
  obtain ⟨frame, hframe, hhandle, hrest⟩ := readFrame_of_bytesRound hmore
  cases ha : l[k]? with
  | none =>
      have hlength : (l.map message).length ≤ k := by
        rw [List.length_map]
        exact List.getElem?_eq_none_iff.mp ha
      rw [List.drop_eq_nil_of_le hlength] at hframe
      cases hframe
  | some a =>
      obtain ⟨hlt, hget⟩ := List.getElem?_eq_some_iff.mp ha
      have hm := hl a (List.mem_of_getElem? ha)
      have hstream : stream c ((l.map message).drop k)
          = (message a).bytes c ++ stream c ((l.map message).drop (k + 1)) := by
        rw [← List.map_drop, List.drop_eq_getElem_cons hlt, hget, List.map_cons, List.map_drop]
        rfl
      rw [hstream] at hframe hhandle hrest
      have hread : readFrame c ((message a).bytes c ++ stream c ((l.map message).drop (k + 1)))
          = if (message a).payload ++ stream c ((l.map message).drop (k + 1)) = [] then .ok none
            else .ok (some ((message a).frame c)) :=
        readFrame_buildFrame _ hm.size_lt hm.parse_serialize
      rw [hread] at hframe
      split at hframe
      · cases hframe
      · cases hframe
        refine ⟨a, rfl, ⟨_, hhandle⟩, hviews.keeps _ _ _ h.wellFormed hround, h.read_le, ?_⟩
        rw [hrest]
        exact List.drop_left' rfl

end Carried

/-! ### The channel -/

namespace RpcChannel

variable {R D : Type} {c : MetaCodec} {channel channel' channel'' : RpcChannel R D}
  {sent : List (Int × MethodCall R D)}

/-- The calls are numbered in order, `sent` are those whose frames went out, and what is outstanding
is a call. -/
structure Recorded (c : MetaCodec) (channel : RpcChannel R D) (sent : List (Int × MethodCall R D)) :
    Prop where
  index_nonneg : 0 ≤ channel.index
  index_lt : channel.index < 2 ^ 63
  number_le : ∀ p ∈ channel.calls, 0 < p.1 ∧ p.1 ≤ channel.index
  nodup : (channel.calls.map Prod.fst).Nodup
  sent_eq : channel.sent = sent.map fun p => requestFrame c p.1 p.2
  sent_calls : sent.Sublist channel.calls
  out_eq : ∀ id out, channel.out id = some out → ∃ call, (id, call) ∈ channel.calls ∧
    out = { response := call.response, done := call.done }

/-- What making calls does: it adds to the records, and a number that has been counted and is not
outstanding stays so. -/
structure Grows (channel channel' : RpcChannel R D) : Prop where
  index_le : channel.index ≤ channel'.index
  calls : channel.calls <+: channel'.calls
  sent : channel.sent <+: channel'.sent
  out_none : ∀ id ≤ channel.index, channel.out id = none → channel'.out id = none

theorem Grows.refl (channel : RpcChannel R D) : channel.Grows channel where
  index_le := Int.le_refl _
  calls := List.prefix_refl _
  sent := List.prefix_refl _
  out_none := fun _ _ h => h

theorem Grows.trans (h : channel.Grows channel') (h' : channel'.Grows channel'') :
    channel.Grows channel'' where
  index_le := h.index_le.trans h'.index_le
  calls := h.calls.trans h'.calls
  sent := h.sent.trans h'.sent
  out_none := fun id hid hout => h'.out_none id (hid.trans h.index_le) (h.out_none id hid hout)

theorem grows_callMethod {call : MethodCall R D} (h : callMethod c channel call = .ok channel') :
    channel.Grows channel' := by
  obtain ⟨rfl, -⟩ := callMethod_eq_ok h
  refine ⟨by simp, by simp, ?_, ?_⟩
  · simp only
    split
    · exact List.prefix_append _ _
    · exact List.prefix_refl _
  · intro id hid hout
    simp only
    rw [if_neg (by omega)]
    exact hout

theorem grows_take (id : Int) : channel.Grows (channel.take id).2 := by
  unfold take
  split
  · exact .refl _
  · refine ⟨Int.le_refl _, List.prefix_refl _, List.prefix_refl _, ?_⟩
    intro other _ hout
    simp only
    split
    · rfl
    · exact hout

theorem recorded_init : Recorded c (init : RpcChannel R D) [] where
  index_nonneg := Int.le_refl _
  index_lt := by simp [init]
  number_le := by simp [init]
  nodup := by simp [init]
  sent_eq := rfl
  sent_calls := List.nil_sublist _
  out_eq := by simp [init]

theorem Recorded.callMethod {call : MethodCall R D} (h : channel.Recorded c sent)
    (hcall : RpcChannel.callMethod c channel call = .ok channel') :
    ∃ new, channel'.Recorded c (sent ++ new) := by
  obtain ⟨rfl, hlt⟩ := callMethod_eq_ok hcall
  have hnonneg := h.index_nonneg
  have hnew : ∀ p ∈ channel.calls, p.1 ≠ channel.index + 1 := by
    intro p hp
    have hle := (h.number_le p hp).2
    omega
  have hnumber : ∀ p ∈ channel.calls ++ [(channel.index + 1, call)],
      0 < p.1 ∧ p.1 ≤ channel.index + 1 := by
    intro p hp
    obtain hp | hp := List.mem_append.mp hp
    · have hle := h.number_le p hp
      omega
    · rw [List.mem_singleton.mp hp]
      simp only
      omega
  have hnodup : ((channel.calls ++ [(channel.index + 1, call)]).map Prod.fst).Nodup := by
    rw [List.map_append, List.nodup_append]
    refine ⟨h.nodup, by simp, ?_⟩
    intro a ha b hb
    obtain ⟨p, hp, rfl⟩ := List.mem_map.mp ha
    simp only [List.map_cons, List.map_nil, List.mem_singleton] at hb
    rw [hb]
    exact hnew p hp
  have hout : ∀ id out, (if id = channel.index + 1 then
        some { response := call.response, done := call.done } else channel.out id) = some out →
      ∃ call', (id, call') ∈ channel.calls ++ [(channel.index + 1, call)] ∧
        out = { response := call'.response, done := call'.done } := by
    intro id out hout
    split at hout
    · rename_i hid
      rw [Option.some_inj] at hout
      exact ⟨call, by simp [hid], hout.symm⟩
    · obtain ⟨call', hmem, heq⟩ := h.out_eq id out hout
      exact ⟨call', List.mem_append_left _ hmem, heq⟩
  cases hconn : channel.conn with
  | false =>
      refine ⟨[], by simp only; omega, by simp only; omega, hnumber, hnodup, ?_, ?_, hout⟩
      · simpa using h.sent_eq
      · rw [List.append_nil]
        exact h.sent_calls.trans (List.sublist_append_left _ _)
  | true =>
      refine ⟨[(channel.index + 1, call)], by simp only; omega, by simp only; omega, hnumber,
        hnodup, ?_, ?_, hout⟩
      · simp [h.sent_eq]
      · exact h.sent_calls.append (List.Sublist.refl _)

theorem Recorded.take (h : channel.Recorded c sent) (id : Int) :
    (channel.take id).2.Recorded c sent := by
  unfold RpcChannel.take
  split
  · exact h
  · refine ⟨h.index_nonneg, h.index_lt, h.number_le, h.nodup, h.sent_eq, h.sent_calls, ?_⟩
    intro other out hout
    simp only at hout
    split at hout
    · cases hout
    · exact h.out_eq other out hout

theorem grows_foldlM {calls : List (MethodCall R D)}
    (hcalls : calls.foldlM (RpcChannel.callMethod c) channel = .ok channel') :
    channel.Grows channel' := by
  rw [Machine.foldlM_eq_run] at hcalls
  exact Machine.invariant (fun _ _ _ hgrows hcall => hgrows.trans (grows_callMethod hcall)) hcalls
    (.refl channel)

theorem Recorded.foldlM {calls : List (MethodCall R D)} (h : channel.Recorded c sent)
    (hcalls : calls.foldlM (RpcChannel.callMethod c) channel = .ok channel') :
    ∃ new, channel'.Recorded c (sent ++ new) := by
  rw [Machine.foldlM_eq_run] at hcalls
  have hkept : ∀ (channel : RpcChannel R D) call channel',
      (∃ new, channel.Recorded c (sent ++ new)) →
      RpcChannel.callMethod c channel call = .ok channel' →
      ∃ new, channel'.Recorded c (sent ++ new) := by
    rintro channel call channel' ⟨new, hbefore⟩ hcall
    obtain ⟨new', hafter⟩ := hbefore.callMethod hcall
    exact ⟨new ++ new', by rwa [← List.append_assoc]⟩
  have hafter := Machine.invariant hkept hcalls ⟨[], by rwa [List.append_nil]⟩
  exact hafter

/-- The number survives the 64 bits of the meta. -/
theorem Recorded.toInt_ofInt (h : channel.Recorded c sent) {p : Int × MethodCall R D}
    (hp : p ∈ channel.calls) : (Int64.ofInt p.1).toInt = p.1 := by
  have hrange := h.number_le p hp
  have hindex := h.index_lt
  exact Int64.toInt_ofInt_of_le (by omega) (by omega)

theorem Recorded.call_eq (h : channel.Recorded c sent) {id : Int} {call call' : MethodCall R D}
    (hcall : (id, call) ∈ channel.calls) (hcall' : (id, call') ∈ channel.calls) : call = call' :=
  congrArg Prod.snd (List.inj_on_of_nodup_map h.nodup hcall hcall' rfl)

end RpcChannel

/-! ### The server -/

namespace RpcHost

variable {S M R D : Type} {c : MetaCodec} {services : List (S × Bytes × List (Bytes × M))}
  {sent : List (Int × MethodCall R D)} {host host' : RpcHost S M} {read : Nat}

/-- The request of this call, for the service and the method of its names. -/
structure Serves (services : List (S × Bytes × List (Bytes × M))) (p : Int × MethodCall R D)
    (call : ServiceCall S M) : Prop where
  id : call.id = Int64.ofInt p.1
  request : call.request = p.2.request
  registered : ∃ methods, (call.service, p.2.service, methods) ∈ services ∧
    (p.2.method, call.method) ∈ methods

def requestMessages (sent : List (Int × MethodCall R D)) : List Message :=
  sent.map fun p => requestMessage p.1 p.2

def accepted (host : RpcHost S M) : Nat := host.pending.length + host.replies.length

/-- The server has one connection and has handed the first requests it was sent to their services,
once each; the others are on their way. -/
structure Serving (c : MetaCodec) (services : List (S × Bytes × List (Bytes × M)))
    (sent : List (Int × MethodCall R D)) (host : RpcHost S M) (read : Nat) : Prop where
  connected : host.connected 0 = true
  basicConn : host.server.basicConn = some 0
  busy : ∀ conn, host.busy = some conn → conn = 0
  services_eq : host.server.services = (RpcServer.registered services).services
  carried : Carried (host.input 0) (stream c (requestMessages sent)) read
    (stream c ((requestMessages sent).drop host.accepted))
  pending_serves : ∀ p ∈ host.pending, ∃ q ∈ sent, Serves services q p.call
  replies_serve : ∀ reply ∈ host.replies, ∃ q ∈ sent, Serves services q reply.call
  ids : ((host.pending.map fun p => p.call.id) ++ host.replies.map fun reply => reply.call.id).Perm
    ((sent.take host.accepted).map fun p => Int64.ofInt p.1)
  written : ∀ reply ∈ host.replies,
    reply.written = some (0, RpcServer.responseFrame c reply.call.id reply.response)

theorem serving_init (services : List (S × Bytes × List (Bytes × M))) :
    Serving (R := R) (D := D) c services [] (init services).connect 0 where
  connected := rfl
  basicConn := rfl
  busy := by
    rintro conn ⟨⟩
  services_eq := rfl
  carried :=
    { wellFormed := Buffer.empty_wellFormed (by decide)
      read_le := Nat.le_refl _
      bytes := Buffer.readable_empty Buffer.kInitialSize }
  pending_serves := by
    rintro p ⟨⟩
  replies_serve := by
    rintro reply ⟨⟩
  ids := .nil
  written := by
    rintro reply ⟨⟩

theorem Serving.accepted_le (h : Serving c services sent host read) :
    host.accepted ≤ sent.length := by
  have hlength := h.ids.length_eq
  simp only [List.length_append, List.length_map, List.length_take] at hlength
  unfold accepted at hlength ⊢
  omega

theorem Serving.append (h : Serving c services sent host read)
    (new : List (Int × MethodCall R D)) : Serving c services (sent ++ new) host read := by
  have hle := h.accepted_le
  have hmessages : requestMessages (sent ++ new) = requestMessages sent ++ requestMessages new :=
    List.map_append
  refine ⟨h.connected, h.basicConn, h.busy, h.services_eq, ?_, ?_, ?_, ?_, h.written⟩
  · rw [hmessages, List.drop_append_of_le_length (by rwa [requestMessages, List.length_map]),
      stream_append, stream_append]
    exact h.carried.append _
  · intro p hp
    obtain ⟨q, hq, hserves⟩ := h.pending_serves p hp
    exact ⟨q, List.mem_append_left _ hq, hserves⟩
  · intro reply hreply
    obtain ⟨q, hq, hserves⟩ := h.replies_serve reply hreply
    exact ⟨q, List.mem_append_left _ hq, hserves⟩
  · rw [List.take_append_of_le_length hle]
    exact h.ids

theorem Serving.receive (h : Serving c services sent host read) {n : Nat}
    (hlimit : (((stream c (requestMessages sent)).drop read).take n).length
      ≤ (host.input 0).readLimit)
    (hnext : host.receive 0 (((stream c (requestMessages sent)).drop read).take n) = .ok host') :
    Serving c services sent host'
      (read + (((stream c (requestMessages sent)).drop read).take n).length) := by
  obtain ⟨buff, hread, rfl⟩ := receive_eq_ok hnext
  refine ⟨h.connected, h.basicConn, ?_, h.services_eq, ?_, h.pending_serves, h.replies_serve, h.ids,
    h.written⟩
  · rintro conn ⟨⟩
    rfl
  · simp only [Function.update_self]
    exact h.carried.readFd hlimit hread

theorem serves_of_procRpcData {server server' : RpcServer S M} {p : Int × MethodCall R D}
    {serviceCall : ServiceCall S M}
    (hservices : server.services = (RpcServer.registered services).services)
    (h : server.procRpcData (RpcServer.callOfMessage (requestMessage p.1 p.2))
      = .ok (serviceCall, server')) : Serves services p serviceCall := by
  obtain ⟨-, info, hinfo, hservice, hmethod, hrequest, hid⟩ := RpcServer.procRpcData_eq_ok h
  rw [hservices] at hinfo
  obtain ⟨service, methods, hmem, hsame, hmethods⟩ := RpcServer.mem_of_registered hinfo
  rw [hsame, Option.some_inj] at hservice
  rw [hservice] at hmem
  refine ⟨?_, hrequest, methods, hmem, hmethods _ _ hmethod⟩
  rw [hid]
  exact Int64.toInt64_toUInt64 _

theorem Serving.round (h : Serving c services sent host read)
    (hsendable : ∀ p ∈ sent, (requestMessage p.1 p.2).Sendable c)
    (hnext : host.round c 0 = .ok host') : Serving c services sent host' read := by
  obtain ⟨rfl, -⟩ | ⟨call, serviceCall, server, buff, hround, hproc, rfl⟩ := round_eq_ok hnext
  · refine ⟨h.connected, h.basicConn, ?_, h.services_eq, h.carried, h.pending_serves,
      h.replies_serve, h.ids, h.written⟩
    rintro conn ⟨⟩
  obtain ⟨p, hp, ⟨rest, hhandle⟩, hcarried⟩ := h.carried.round hsendable
    (RpcServer.onMessageRound_views c _) (RpcServer.onMessageRound_stable c _) hround
  have hmem := List.mem_of_getElem? hp
  have hm := hsendable p hmem
  rw [RpcServer.eq_callOfMessage hm hhandle] at hproc
  have hserves : Serves services p serviceCall := serves_of_procRpcData h.services_eq hproc
  obtain ⟨rfl, -⟩ := RpcServer.procRpcData_eq_ok hproc
  have haccepted : RpcHost.accepted {
      host with
      pending := host.pending ++ [{ call := serviceCall, origin := 0 }]
      input := Function.update host.input 0 buff } = host.accepted + 1 := by
    simp only [accepted, List.length_append, List.length_singleton]
    omega
  refine ⟨h.connected, h.basicConn, h.busy, h.services_eq, ?_, ?_, h.replies_serve, ?_, h.written⟩
  · rw [haccepted]
    simp only [Function.update_self]
    exact hcarried
  · intro q hq
    obtain hq | hq := List.mem_append.mp hq
    · exact h.pending_serves q hq
    · rw [List.mem_singleton.mp hq]
      exact ⟨p, hmem, hserves⟩
  · rw [haccepted, List.take_add_one, hp, Option.toList_some]
    simp only [List.map_append, List.map_cons, List.map_nil, List.append_assoc,
      List.singleton_append,
      hserves.id]
    exact List.perm_middle.trans ((h.ids.cons _).trans (List.perm_append_singleton _ _).symm)

theorem Serving.complete (h : Serving c services sent host read) (i : Nat) (response : Bytes) :
    Serving c services sent (host.complete c i response) read := by
  cases hp : host.pending[i]? with
  | none =>
      rw [complete_of_getElem?_eq_none hp]
      exact h
  | some p =>
      have hmem := List.mem_of_getElem? hp
      rw [complete_of_getElem? hp]
      obtain ⟨hlt, hget⟩ := List.getElem?_eq_some_iff.mp hp
      have hperm : (p :: host.pending.eraseIdx i).Perm host.pending := by
        rw [← hget]
        exact List.getElem_cons_eraseIdx_perm hlt
      have haccepted : (host.pending.eraseIdx i).length + (host.replies.length + 1)
          = host.accepted := by
        have hlength := hperm.length_eq
        rw [List.length_cons] at hlength
        unfold accepted
        omega
      refine ⟨h.connected, h.basicConn, h.busy, h.services_eq, ?_, ?_, ?_, ?_, ?_⟩
      · rw [accepted, List.length_append, List.length_singleton, haccepted]
        exact h.carried
      · exact fun q hq => h.pending_serves q (List.mem_of_mem_eraseIdx hq)
      · intro reply hreply
        obtain hreply | hreply := List.mem_append.mp hreply
        · exact h.replies_serve reply hreply
        · rw [List.mem_singleton.mp hreply]
          exact h.pending_serves p hmem
      · rw [accepted, List.length_append, List.length_singleton, haccepted]
        refine .trans ?_ h.ids
        simp only [List.map_append, List.map_cons, List.map_nil]
        rw [← List.append_assoc]
        apply (List.perm_append_singleton _ _).trans
        rw [← List.cons_append]
        exact (hperm.map fun q => q.call.id).append_right _
      · intro reply hreply
        obtain hreply | hreply := List.mem_append.mp hreply
        · exact h.written reply hreply
        · rw [List.mem_singleton.mp hreply]
          simp only [RpcServer.onCallbackDone, h.basicConn, h.connected, if_true]

end RpcHost

/-! ### The session -/

namespace RpcSession

variable {S M R D : Type} {c : MetaCodec} {services : List (S × Bytes × List (Bytes × M))}
  {sent : List (Int × MethodCall R D)} {session session' : RpcSession S M R D}
  {channel channel' : RpcChannel R D} {replies : List (Reply S M)}
  {handled : List (RpcChannel.Handled R D)} {input input' : Buffer} {read : Nat}

/-- If a response object was parsed, it is that of the call with this number, and the bytes are the
ones the service gave for its request. -/
def AnswersItsCall (services : List (S × Bytes × List (Bytes × M)))
    (calls : List (Int × MethodCall R D)) (replies : List (Reply S M))
    (h : RpcChannel.Handled R D) : Prop :=
  ∀ response done bytes, h.answer = some (response, done, bytes) →
    ∃ call, (h.id, call) ∈ calls ∧ call.response = some response ∧ call.done = done ∧
      ∃ reply ∈ replies, RpcHost.Serves services (h.id, call) reply.call ∧ reply.response = bytes

theorem AnswersItsCall.mono {calls calls' : List (Int × MethodCall R D)}
    {replies' : List (Reply S M)} {h : RpcChannel.Handled R D}
    (hanswers : AnswersItsCall services calls replies h) (hcalls : calls ⊆ calls')
    (hreplies : replies ⊆ replies') : AnswersItsCall services calls' replies' h := by
  intro response done bytes hanswer
  obtain ⟨call, hmem, hresponse, hdone, reply, hreply, hserves⟩ :=
    hanswers response done bytes hanswer
  exact ⟨call, hcalls hmem, hresponse, hdone, reply, hreplies hreply, hserves⟩

def responseMessages (replies : List (Reply S M)) : List Message :=
  replies.map fun reply => responseMessage reply.call.id reply.response

/-- The channel has handled the first responses of the server; their numbers are not outstanding
any more, and those with an answer answered their calls. -/
structure Listening (c : MetaCodec) (services : List (S × Bytes × List (Bytes × M)))
    (channel : RpcChannel R D) (replies : List (Reply S M))
    (handled : List (RpcChannel.Handled R D)) (input : Buffer) (read : Nat) : Prop where
  carried : Carried input (stream c (responseMessages replies)) read
    (stream c ((responseMessages replies).drop handled.length))
  handled_le : handled.length ≤ replies.length
  settled : ∀ h ∈ handled, h.id ≤ channel.index ∧ channel.out h.id = none
  once : ((handled.filter fun h => h.answer.isSome).map fun h => h.id).Nodup
  answers : ∀ h ∈ handled, AnswersItsCall services channel.calls replies h

theorem Listening.grow (h : Listening c services channel replies handled input read)
    (hchannel : channel.Grows channel') (new : List (Reply S M)) :
    Listening c services channel' (replies ++ new) handled input read := by
  have hmessages : responseMessages (replies ++ new)
      = responseMessages replies ++ responseMessages new := List.map_append
  refine ⟨?_, ?_, ?_, h.once, ?_⟩
  · rw [hmessages, List.drop_append_of_le_length
      (by rw [responseMessages, List.length_map]; exact h.handled_le), stream_append,
      stream_append]
    exact h.carried.append _
  · rw [List.length_append]
    exact Nat.le_add_right_of_le h.handled_le
  · intro handled hmem
    obtain ⟨hle, hnone⟩ := h.settled handled hmem
    exact ⟨hle.trans hchannel.index_le, hchannel.out_none _ hle hnone⟩
  · intro handled hmem
    exact (h.answers handled hmem).mono hchannel.calls.subset (List.subset_append_left _ _)

theorem Listening.readFd (h : Listening c services channel replies handled input read) {n : Nat}
    (hlimit : (((stream c (responseMessages replies)).drop read).take n).length ≤ input.readLimit)
    (hread : input.readFd (some (((stream c (responseMessages replies)).drop read).take n))
      = .ok input') :
    Listening c services channel replies handled input'
      (read + (((stream c (responseMessages replies)).drop read).take n).length) :=
  ⟨h.carried.readFd hlimit hread, h.handled_le, h.settled, h.once, h.answers⟩

/-- A frame whose number is not outstanding changes no entry. -/
theorem out_of_out_eq_none {runDone : RpcChannel R D → D → Except Fault (RpcChannel R D)}
    {handled : RpcChannel.Handled R D}
    (hround : RpcChannel.onMessageRound c runDone (channel, input)
      = .ok (some (handled, channel', input'))) (hout : channel.out handled.id = none) :
    channel'.out = channel.out := by
  obtain ⟨frame, -, hhandle, -⟩ := frameRound_eq_some hround
  obtain ⟨-, ⟨-, -, rfl⟩ | ⟨response, done, data, -, -, hsome, -⟩⟩ :=
    RpcChannel.answerWith_eq_ok hhandle
  · rw [RpcChannel.take_of_out_eq_none hout]
  · rw [hout] at hsome
    cases hsome

theorem grows_of_answerWith {calls : List (MethodCall R D)} {payload : Except Fault Bytes}
    {frame : Frame} {next : RpcChannel.Handled R D}
    (hhandle : RpcChannel.answerWith (runDone c calls) payload channel frame
      = .ok (next, channel')) : (channel.take next.id).2.Grows channel' := by
  obtain ⟨-, ⟨-, -, rfl⟩ | ⟨response, done, data, -, -, -, ⟨-, rfl⟩ | ⟨closure, -, hcalls⟩⟩⟩ :=
    RpcChannel.answerWith_eq_ok hhandle
  · exact .refl _
  · exact .refl _
  · exact RpcChannel.grows_foldlM hcalls

theorem recorded_of_answerWith (hrecorded : channel.Recorded c sent)
    {calls : List (MethodCall R D)} {payload : Except Fault Bytes} {frame : Frame}
    {next : RpcChannel.Handled R D}
    (hhandle : RpcChannel.answerWith (runDone c calls) payload channel frame
      = .ok (next, channel')) : ∃ new, channel'.Recorded c (sent ++ new) := by
  have htake := hrecorded.take next.id
  have hstay : ∃ new, (channel.take next.id).2.Recorded c (sent ++ new) :=
    ⟨[], by rwa [List.append_nil]⟩
  obtain ⟨-, ⟨-, -, rfl⟩ | ⟨response, done, data, -, -, -, ⟨-, rfl⟩ | ⟨closure, -, hcalls⟩⟩⟩ :=
    RpcChannel.answerWith_eq_ok hhandle
  · exact hstay
  · exact hstay
  · exact htake.foldlM hcalls

theorem id_of_handleBytes (hrecorded : channel.Recorded c sent) {q : Int × MethodCall R D}
    (hq : q ∈ sent) {reply : Reply S M} (hserves : RpcHost.Serves services q reply.call)
    {calls : List (MethodCall R D)} {bytes : Bytes} {next : RpcChannel.Handled R D}
    (hhandle : RpcChannel.handleBytes (runDone c calls) channel bytes
      ((responseMessage reply.call.id reply.response).frame c) = .ok (next, channel')) :
    next.id = q.1 := by
  calc
    next.id = reply.call.id.toUInt64.toInt64.toInt := (RpcChannel.answerWith_eq_ok hhandle).1
    _ = (Int64.ofInt q.1).toInt := by rw [Int64.toInt64_toUInt64, hserves.id]
    _ = q.1 := hrecorded.toInt_ofInt (hrecorded.sent_calls.subset hq)

theorem answersItsCall_of_handleBytes (hrecorded : channel.Recorded c sent)
    {q : Int × MethodCall R D} (hq : q ∈ sent) {reply : Reply S M} (hreply : reply ∈ replies)
    (hserves : RpcHost.Serves services q reply.call)
    (hsendable : (responseMessage reply.call.id reply.response).Sendable c)
    {calls : List (MethodCall R D)} {rest : Bytes} {next : RpcChannel.Handled R D}
    (hhandle : RpcChannel.handleBytes (runDone c calls) channel
      ((responseMessage reply.call.id reply.response).bytes c ++ rest)
      ((responseMessage reply.call.id reply.response).frame c) = .ok (next, channel')) :
    AnswersItsCall services channel.calls replies next := by
  intro response done bytes hanswer
  have hid := id_of_handleBytes hrecorded hq hserves hhandle
  obtain ⟨-, ⟨hnone, -, -⟩ | ⟨response', done', data, hanswer', hpayload, hout, -⟩⟩ :=
    RpcChannel.answerWith_eq_ok hhandle
  · rw [hnone] at hanswer
    cases hanswer
  · rw [hanswer'] at hanswer
    cases hanswer
    obtain ⟨call, hcall, heq⟩ := hrecorded.out_eq _ _ hout
    rw [OutstandingCall.mk.injEq] at heq
    have hsame : q = (next.id, call) := by
      rw [hid] at hcall ⊢
      exact Prod.ext rfl (hrecorded.call_eq (hrecorded.sent_calls.subset hq) hcall)
    have hdata : readPayload ((responseMessage reply.call.id reply.response).bytes c ++ rest)
        ((responseMessage reply.call.id reply.response).frame c) = .ok reply.response :=
      readPayload_buildFrame _ _ hsendable.size_lt
    rw [hdata] at hpayload
    cases hpayload
    rw [hsame] at hserves
    exact ⟨call, hcall, heq.1.symm, heq.2.symm, reply, hreply, hserves, rfl⟩

theorem Listening.once_append (h : Listening c services channel replies handled input read)
    {calls : List (MethodCall R D)} {bytes : Bytes} {frame : Frame}
    {next : RpcChannel.Handled R D}
    (hhandle : RpcChannel.handleBytes (runDone c calls) channel bytes frame
      = .ok (next, channel')) :
    (((handled ++ [next]).filter fun h => h.answer.isSome).map fun h => h.id).Nodup := by
  obtain ⟨-, ⟨hnone, -, -⟩ | ⟨response, done, data, hanswer, -, hout, -⟩⟩ :=
    RpcChannel.answerWith_eq_ok hhandle
  · simpa [List.filter_append, hnone] using h.once
  · have hnew : ∀ earlier ∈ handled, earlier.id ≠ next.id := by
      intro earlier hearlier hsame
      have hnone := (h.settled earlier hearlier).2
      rw [hsame, hout] at hnone
      cases hnone
    have hlast : ([next].filter fun h => h.answer.isSome).map (fun h => h.id) = [next.id] := by
      simp [hanswer]
    rw [List.filter_append, List.map_append, hlast, List.nodup_append]
    refine ⟨h.once, List.nodup_singleton _, ?_⟩
    intro id hid id' hid'
    obtain ⟨earlier, hearlier, rfl⟩ := List.mem_map.mp hid
    rw [List.mem_singleton.mp hid']
    exact hnew earlier (List.mem_of_mem_filter hearlier)

theorem Listening.round (h : Listening c services channel replies handled input read)
    (hrecorded : channel.Recorded c sent)
    (hserve : ∀ reply ∈ replies, ∃ q ∈ sent, RpcHost.Serves services q reply.call)
    (hsendable : ∀ reply ∈ replies, (responseMessage reply.call.id reply.response).Sendable c)
    {calls : List (MethodCall R D)} {next : RpcChannel.Handled R D}
    (hround : RpcChannel.onMessageRound c (runDone c calls) (channel, input)
      = .ok (some (next, channel', input'))) :
    (∃ new, channel'.Recorded c (sent ++ new)) ∧
      Listening c services channel' replies (handled ++ [next]) input' read := by
  obtain ⟨reply, hget, ⟨rest, hhandle⟩, hcarried⟩ := h.carried.round hsendable
    (RpcChannel.onMessageRound_views c _) (RpcChannel.onMessageRound_stable c _) hround
  have hmem := List.mem_of_getElem? hget
  obtain ⟨hlt, -⟩ := List.getElem?_eq_some_iff.mp hget
  obtain ⟨q, hq, hserves⟩ := hserve reply hmem
  have hid := id_of_handleBytes hrecorded hq hserves hhandle
  have hle := (hrecorded.number_le q (hrecorded.sent_calls.subset hq)).2
  rw [← hid] at hle
  have hafter := grows_of_answerWith hhandle
  have hgrows := (RpcChannel.grows_take next.id).trans hafter
  refine ⟨recorded_of_answerWith hrecorded hhandle, ?_, ?_, ?_, h.once_append hhandle, ?_⟩
  · rw [List.length_append, List.length_singleton]
    exact hcarried
  · rw [List.length_append, List.length_singleton]
    exact hlt
  · intro earlier hearlier
    obtain hearlier | hearlier := List.mem_append.mp hearlier
    · obtain ⟨hle', hnone⟩ := h.settled earlier hearlier
      exact ⟨hle'.trans hgrows.index_le, hgrows.out_none _ hle' hnone⟩
    · rw [List.mem_singleton.mp hearlier]
      refine ⟨hle.trans hgrows.index_le, hafter.out_none _ ?_ RpcChannel.out_take_self⟩
      rwa [RpcChannel.index_take]
  · intro handled' hmem'
    obtain hmem' | hmem' := List.mem_append.mp hmem'
    · exact (h.answers handled' hmem').mono hgrows.calls.subset (List.Subset.refl _)
    · rw [List.mem_singleton.mp hmem']
      exact (answersItsCall_of_handleBytes hrecorded hq hmem hserves (hsendable reply hmem)
        hhandle).mono hgrows.calls.subset (List.Subset.refl _)

/-! ### Whole runs -/

structure Correlated (c : MetaCodec) (services : List (S × Bytes × List (Bytes × M)))
    (sent : List (Int × MethodCall R D)) (session : RpcSession S M R D) : Prop where
  recorded : session.channel.Recorded c sent
  serving : RpcHost.Serving c services sent session.host session.requestsRead
  listening : Listening c services session.channel session.host.replies session.handled
    session.input session.responsesRead

/-- The frames that are sent are shorter than 2 GiB, and their metas survive the codec. -/
def Sendable (c : MetaCodec) (session : RpcSession S M R D) : Prop :=
  (∀ p ∈ session.channel.calls, RpcChannel.requestFrame c p.1 p.2 ∈ session.channel.sent →
    (requestMessage p.1 p.2).Sendable c) ∧
    ∀ reply ∈ session.host.replies, (responseMessage reply.call.id reply.response).Sendable c

theorem correlated_init :
    Correlated c services [] (init services : RpcSession S M R D) where
  recorded := RpcChannel.recorded_init
  serving := RpcHost.serving_init services
  listening :=
    { carried :=
        { wellFormed := Buffer.empty_wellFormed (by decide)
          read_le := Nat.le_refl _
          bytes := Buffer.readable_empty Buffer.kInitialSize }
      handled_le := Nat.le_refl _
      settled := by
        rintro h ⟨⟩
      once := List.nodup_nil
      answers := by
        rintro h ⟨⟩ }

theorem Correlated.requests_eq (h : Correlated c services sent session) :
    session.requests = stream c (RpcHost.requestMessages sent) := by
  rw [requests, h.recorded.sent_eq, stream, RpcHost.requestMessages, List.map_map]
  rfl

theorem Correlated.responses_eq (h : Correlated c services sent session) :
    session.responses = stream c (responseMessages session.host.replies) := by
  have hframes : session.host.replies.filterMap (fun reply => reply.written.map Prod.snd)
      = session.host.replies.map fun reply =>
        RpcServer.responseFrame c reply.call.id reply.response := by
    rw [← List.filterMap_eq_map]
    apply List.filterMap_congr
    intro reply hreply
    rw [h.serving.written reply hreply]
    rfl
  rw [responses, hframes, stream, responseMessages, List.map_map]
  rfl

theorem Correlated.grow (h : Correlated c services sent session)
    (hchannel : session.channel.Grows channel) {new : List (Int × MethodCall R D)}
    (hrecorded : channel.Recorded c (sent ++ new)) :
    Correlated c services (sent ++ new) { session with channel := channel } where
  recorded := hrecorded
  serving := h.serving.append new
  listening := by
    have hgrow := h.listening.grow hchannel []
    rwa [List.append_nil] at hgrow

theorem channelRound_eq_ok {calls : List (MethodCall R D)}
    (h : session.channelRound c calls = .ok session') :
    session' = { session with busy := false } ∨
      ∃ next channel input, RpcChannel.onMessageRound c (runDone c calls)
          (session.channel, session.input) = .ok (some (next, channel, input)) ∧
        session' = {
          session with
          channel := channel
          input := input
          handled := session.handled ++ [next] } := by
  unfold channelRound at h
  obtain ⟨next, hround, hafter⟩ := bind_eq_ok.mp h
  cases next with
  | none =>
      cases hafter
      exact .inl rfl
  | some result =>
      obtain ⟨next, channel, input⟩ := result
      cases hafter
      exact .inr ⟨next, channel, input, hround, rfl⟩

theorem serverReads_eq_ok {chunk : Bytes} (h : session.serverReads chunk = .ok session') :
    ∃ host, session.host.receive 0 chunk = .ok host ∧ session' = {
      session with
      host := host
      requestsRead := session.requestsRead + chunk.length } := by
  unfold serverReads at h
  obtain ⟨host, hhost, hafter⟩ := bind_eq_ok.mp h
  cases hafter
  exact ⟨host, hhost, rfl⟩

theorem channelReads_eq_ok {chunk : Bytes} (h : session.channelReads chunk = .ok session') :
    ∃ input, session.input.readFd (some chunk) = .ok input ∧ session' = {
      session with
      input := input
      busy := true
      responsesRead := session.responsesRead + chunk.length } := by
  unfold channelReads at h
  obtain ⟨input, hread, hafter⟩ := bind_eq_ok.mp h
  cases hafter
  exact ⟨input, hread, rfl⟩

theorem call_eq_ok {call : MethodCall R D} (h : session.call c call = .ok session') :
    ∃ channel, RpcChannel.callMethod c session.channel call = .ok channel ∧
      session' = { session with channel := channel } := by
  unfold RpcSession.call at h
  obtain ⟨channel, hcall, hafter⟩ := bind_eq_ok.mp h
  cases hafter
  exact ⟨channel, hcall, rfl⟩

theorem serverRound_eq_ok (h : session.step c .serverRound = .ok session') :
    ∃ host, session.host.step c .round = .ok host ∧ session' = { session with host := host } := by
  obtain ⟨host, hhost, hafter⟩ := bind_eq_ok.mp h
  cases hafter
  exact ⟨host, hhost, rfl⟩

/-- What an event does to the records of both sides. -/
structure Extends (session session' : RpcSession S M R D) : Prop where
  calls : session.channel.calls <+: session'.channel.calls
  sent : session.channel.sent <+: session'.channel.sent
  replies : session.host.replies <+: session'.host.replies

theorem Extends.of_eq (hcalls : session'.channel.calls = session.channel.calls)
    (hsent : session'.channel.sent = session.channel.sent)
    (hreplies : session'.host.replies = session.host.replies) : session.Extends session' where
  calls := by simp [hcalls]
  sent := by simp [hsent]
  replies := by simp [hreplies]

theorem Sendable.of_extends (h : session'.Sendable c) (hextends : session.Extends session') :
    session.Sendable c :=
  ⟨fun p hp hsent => h.1 p (hextends.calls.subset hp) (hextends.sent.subset hsent),
    fun reply hreply => h.2 reply (hextends.replies.subset hreply)⟩

theorem extends_step {event : Event R D} (hnext : session.step c event = .ok session') :
    session.Extends session' := by
  cases event with
  | connect =>
      cases hnext
      exact .of_eq rfl rfl rfl
  | call call =>
      simp only [step] at hnext
      split at hnext
      · obtain ⟨channel, hcall, rfl⟩ := call_eq_ok hnext
        have hgrows := RpcChannel.grows_callMethod hcall
        exact ⟨hgrows.calls, hgrows.sent, List.prefix_refl _⟩
      · cases hnext
        exact .of_eq rfl rfl rfl
  | serverReads n =>
      simp only [step] at hnext
      split at hnext
      · obtain ⟨host, hhost, rfl⟩ := serverReads_eq_ok hnext
        obtain ⟨buff, -, rfl⟩ := RpcHost.receive_eq_ok hhost
        exact .of_eq rfl rfl rfl
      · cases hnext
        exact .of_eq rfl rfl rfl
  | serverRound =>
      obtain ⟨host, hhost, rfl⟩ := serverRound_eq_ok hnext
      refine ⟨List.prefix_refl _, List.prefix_refl _, ?_⟩
      have hsame := RpcHost.replies_step (fun _ _ => by simp) hhost
      simp only [hsame]
      exact List.prefix_refl _
  | complete i response =>
      cases hnext
      refine ⟨List.prefix_refl _, List.prefix_refl _, ?_⟩
      obtain ⟨new, hnew⟩ := session.host.replies_complete (c := c) i response
      simp only [hnew]
      exact List.prefix_append _ _
  | channelReads n =>
      simp only [step] at hnext
      split at hnext
      · obtain ⟨input, -, rfl⟩ := channelReads_eq_ok hnext
        exact .of_eq rfl rfl rfl
      · cases hnext
        exact .of_eq rfl rfl rfl
  | channelRound calls =>
      simp only [step] at hnext
      split at hnext
      · obtain rfl | ⟨next, channel, input, hround, rfl⟩ := channelRound_eq_ok hnext
        · exact .of_eq rfl rfl rfl
        · obtain ⟨frame, -, hhandle, -⟩ := frameRound_eq_some hround
          have hgrows := (RpcChannel.grows_take next.id).trans (grows_of_answerWith hhandle)
          exact ⟨hgrows.calls, hgrows.sent, List.prefix_refl _⟩
      · cases hnext
        exact .of_eq rfl rfl rfl

theorem Correlated.same (h : Correlated c services sent session') :
    ∃ new, Correlated c services (sent ++ new) session' :=
  ⟨[], by rwa [List.append_nil]⟩

theorem Correlated.serverRound (h : Correlated c services sent session)
    (hsendable : session.Sendable c)
    (hnext : session.step c .serverRound = .ok session') :
    Correlated c services sent session' := by
  obtain ⟨host, hhost, rfl⟩ := serverRound_eq_ok hnext
  have hreplies := RpcHost.replies_step (fun _ _ => by simp) hhost
  have hserving : RpcHost.Serving c services sent host session.requestsRead := by
    simp only [RpcHost.step] at hhost
    split at hhost
    · cases hhost
      exact h.serving
    · rename_i conn hbusy
      rw [h.serving.busy conn hbusy] at hhost
      apply h.serving.round _ hhost
      intro p hp
      apply hsendable.1 p (h.recorded.sent_calls.subset hp)
      rw [h.recorded.sent_eq]
      exact List.mem_map_of_mem hp
  refine ⟨h.recorded, hserving, ?_⟩
  simp only [hreplies]
  exact h.listening

theorem Correlated.step (h : Correlated c services sent session)
    (hsendable : session.Sendable c) {event : Event R D}
    (hnext : session.step c event = .ok session') :
    ∃ new, Correlated c services (sent ++ new) session' := by
  cases event with
  | connect =>
      cases hnext
      have hr := h.recorded
      refine Correlated.same ⟨⟨hr.index_nonneg, hr.index_lt, hr.number_le, hr.nodup, hr.sent_eq,
        hr.sent_calls, hr.out_eq⟩, h.serving, ?_⟩
      have hl := h.listening
      exact ⟨hl.carried, hl.handled_le, hl.settled, hl.once, hl.answers⟩
  | call call =>
      simp only [RpcSession.step] at hnext
      split at hnext
      · obtain ⟨channel, hcall, rfl⟩ := call_eq_ok hnext
        obtain ⟨new, hrecorded⟩ := h.recorded.callMethod hcall
        exact ⟨new, h.grow (RpcChannel.grows_callMethod hcall) hrecorded⟩
      · cases hnext
        exact h.same
  | serverReads n =>
      simp only [RpcSession.step, h.requests_eq] at hnext
      split at hnext
      · rename_i hready
        obtain ⟨host, hhost, rfl⟩ := serverReads_eq_ok hnext
        have hserving := h.serving.receive hready.2.2.2 hhost
        have hreplies : host.replies = session.host.replies := by
          obtain ⟨buff, -, rfl⟩ := RpcHost.receive_eq_ok hhost
          rfl
        refine Correlated.same ⟨h.recorded, hserving, ?_⟩
        simp only [hreplies]
        exact h.listening
      · cases hnext
        exact h.same
  | serverRound => exact Correlated.same (h.serverRound hsendable hnext)
  | complete i response =>
      cases hnext
      obtain ⟨new, hnew⟩ := session.host.replies_complete (c := c) i response
      refine Correlated.same ⟨h.recorded, h.serving.complete i response, ?_⟩
      simp only [hnew]
      exact h.listening.grow (.refl _) new
  | channelReads n =>
      simp only [RpcSession.step, h.responses_eq] at hnext
      split at hnext
      · rename_i hready
        obtain ⟨input, hread, rfl⟩ := channelReads_eq_ok hnext
        exact Correlated.same ⟨h.recorded, h.serving, h.listening.readFd hready.2.2.2 hread⟩
      · cases hnext
        exact h.same
  | channelRound calls =>
      simp only [RpcSession.step] at hnext
      split at hnext
      · obtain rfl | ⟨next, channel, input, hround, rfl⟩ := channelRound_eq_ok hnext
        · exact Correlated.same ⟨h.recorded, h.serving, h.listening⟩
        · obtain ⟨⟨new, hrecorded⟩, hlistening⟩ :=
            h.listening.round h.recorded h.serving.replies_serve hsendable.2 hround
          exact ⟨new, hrecorded, h.serving.append new, hlistening⟩
      · cases hnext
        exact h.same

theorem correlated_run {events : List (Event R D)}
    (hrun : run (step c) (init services) events = .ok session) (hsendable : session.Sendable c) :
    ∃ sent, Correlated c services sent session := by
  have hstep : ∀ (s : RpcSession S M R D) (event : Event R D) (s' : RpcSession S M R D),
      (s.Sendable c → ∃ sent, Correlated c services sent s) → step c s event = .ok s' →
      s'.Sendable c → ∃ sent, Correlated c services sent s' := by
    intro s event s' ih hnext hsendable'
    have hsendable := hsendable'.of_extends (extends_step hnext)
    obtain ⟨sent, hs⟩ := ih hsendable
    obtain ⟨new, hs'⟩ := hs.step hsendable hnext
    exact ⟨_, hs'⟩
  exact invariant hstep hrun (fun _ => ⟨[], correlated_init⟩) hsendable

/-- The numbers of the requests and with them those of the responses are different. -/
theorem Correlated.nodup_replies (h : Correlated c services sent session) :
    (session.host.replies.map fun reply => reply.call.id).Nodup := by
  have hr := h.recorded
  have hsub : (sent.take session.host.accepted).Sublist session.channel.calls :=
    (List.take_sublist _ _).trans hr.sent_calls
  have hids : ((sent.take session.host.accepted).map fun p => Int64.ofInt p.1).Nodup := by
    apply List.Nodup.map_on _ (List.Nodup.of_map _ (hr.nodup.sublist (hsub.map _)))
    intro p hp q hq hsame
    have hnumber : p.1 = q.1 := by
      calc
        p.1 = (Int64.ofInt p.1).toInt := (hr.toInt_ofInt (hsub.subset hp)).symm
        _ = (Int64.ofInt q.1).toInt := by rw [hsame]
        _ = q.1 := hr.toInt_ofInt (hsub.subset hq)
    exact List.inj_on_of_nodup_map hr.nodup (hsub.subset hp) (hsub.subset hq) hnumber
  exact (List.nodup_append.mp (h.serving.ids.nodup_iff.mpr hids)).2.1

/-- Each answer the channel gets belongs to the call with its number, and there is one at most; a
frame with another number changes nothing. -/
theorem answers_correlated {events : List (Event R D)}
    (hrun : run (step c) (init services) events = .ok session) (hsendable : session.Sendable c) :
    (session.channel.calls.map Prod.fst).Nodup ∧
      ((session.handled.filter fun h => h.answer.isSome).map fun h => h.id).Nodup ∧
      (session.host.replies.map fun reply => reply.call.id).Nodup ∧
      (∀ h ∈ session.handled,
        AnswersItsCall services session.channel.calls session.host.replies h) ∧
      (∀ h ∈ session.handled, session.channel.out h.id = none) ∧
      ∀ (runDone : RpcChannel R D → D → Except Fault (RpcChannel R D))
        (channel channel' : RpcChannel R D) (input input' : Buffer)
        (next : RpcChannel.Handled R D),
        RpcChannel.onMessageRound c runDone (channel, input) = .ok (some (next, channel', input')) →
        channel.out next.id = none → channel'.out = channel.out := by
  obtain ⟨sent, h⟩ := correlated_run hrun hsendable
  exact ⟨h.recorded.nodup, h.listening.once, h.nodup_replies, h.listening.answers,
    fun handled hmem => (h.listening.settled handled hmem).2,
    fun _ _ _ _ _ _ hround hout => out_of_out_eq_none hround hout⟩

instance (c : MetaCodec) (session : RpcSession S M R D) : Decidable (session.Sendable c) :=
  inferInstanceAs (Decidable (_ ∧ _))

/-- The answer comes in two reads, and the closure makes another call. -/
def askTwice : List (Event Unit Unit) :=
  let ask : MethodCall Unit Unit := { callWith [7] with done := some () }
  [.connect, .call ask, .serverReads 100, .serverRound, .serverRound, .complete 0 [8],
    .channelReads 10, .channelRound [], .channelReads 10, .channelRound [ask], .channelRound []]

theorem answers_correlated_askTwice : ∃ session : RpcSession Unit Unit Unit Unit,
    run (step RpcMetaMessage.pbCodec) (init [((), [115], [([109], ())])]) askTwice = .ok session ∧
      (session.handled.map fun h => h.answer) = [some ((), some (), [8])] ∧
      ∀ h ∈ session.handled, AnswersItsCall [((), [115], [([109], ())])] session.channel.calls
        session.host.replies h := by
  obtain ⟨session, hrun, hsendable, hanswers⟩ : ∃ session : RpcSession Unit Unit Unit Unit,
      run (step RpcMetaMessage.pbCodec) (init [((), [115], [([109], ())])]) askTwice = .ok session ∧
        session.Sendable RpcMetaMessage.pbCodec ∧
        (session.handled.map fun h => h.answer) = [some ((), some (), [8])] := by
    apply Holds.returns
    decide +kernel
  obtain ⟨-, -, -, hcorrelated, -⟩ := answers_correlated hrun hsendable
  exact ⟨session, hrun, hanswers, hcorrelated⟩

end RpcSession

end ToyBasket
