import ToyBasket.Rpc.Host
import ToyBasket.Rpc.MetaMessage

/-!
# Where the responses go

`OnCallbackDone` writes to the connection that connected last, whichever the request came from. So a
response reaches the connection of its request if and only if, when the closure runs, that is still
the last one, or both are gone.
-/

namespace ToyBasket.RpcHost

open Words Outcome Drain Machine

variable {S M : Type}

/-- The response was written to the connection of its request, or nowhere if that was gone. -/
def Reply.Routed (c : MetaCodec) (reply : Reply S M) : Prop :=
  reply.written = if reply.originConnected then
    some (reply.origin, RpcServer.responseFrame c reply.call.id reply.response) else none

def Routed (c : MetaCodec) (host : RpcHost S M) : Prop :=
  ∀ reply ∈ host.replies, Reply.Routed c reply

/-- The connection that connected last. -/
def last (host : RpcHost S M) : Nat := host.count - 1

/-- If the event runs a closure, no other client has connected since the one of the request, or both
it and the last one are gone. -/
def AnswersLast (host : RpcHost S M) : Event → Prop
  | .complete i _ => ∀ p ∈ host.pending[i]?, p.origin = host.last ∨
      (host.connected p.origin = false ∧ host.connected host.last = false)
  | _ => True

/-- Requests come from connections there have been, and the server knows the last one. -/
structure Numbered (host : RpcHost S M) : Prop where
  basicConn : 0 < host.count → host.server.basicConn = some host.last
  connected_lt : ∀ conn, host.connected conn = true → conn < host.count
  busy_lt : ∀ conn, host.busy = some conn → conn < host.count
  origin_lt : ∀ p ∈ host.pending, p.origin < host.count

variable {c : MetaCodec} {host host' : RpcHost S M}

theorem numbered_init (services : List (S × Bytes × List (Bytes × M))) :
    (init services).Numbered where
  basicConn := fun h => absurd h (Nat.lt_irrefl 0)
  connected_lt := by
    rintro conn ⟨⟩
  busy_lt := by
    rintro conn ⟨⟩
  origin_lt := by
    rintro p ⟨⟩

theorem Numbered.connect (h : host.Numbered) (hbusy : host.busy = none) :
    host.connect.Numbered where
  basicConn := fun _ => rfl
  connected_lt := by
    intro conn hconn
    by_cases hnew : conn = host.count
    · exact Nat.lt_succ_of_le (Nat.le_of_eq hnew)
    · simp only [RpcHost.connect, Function.update_of_ne hnew] at hconn
      exact Nat.lt_succ_of_lt (h.connected_lt conn hconn)
  busy_lt := by
    intro conn hconn
    rw [RpcHost.connect, hbusy] at hconn
    cases hconn
  origin_lt := fun p hp => Nat.lt_succ_of_lt (h.origin_lt p hp)

theorem Numbered.disconnect (h : host.Numbered) (conn : Nat) : (host.disconnect conn).Numbered where
  basicConn := h.basicConn
  connected_lt := by
    intro other hother
    by_cases hsame : other = conn
    · simp only [hsame, RpcHost.disconnect, Function.update_self] at hother
      cases hother
    · simp only [RpcHost.disconnect, Function.update_of_ne hsame] at hother
      exact h.connected_lt other hother
  busy_lt := h.busy_lt
  origin_lt := h.origin_lt

theorem Numbered.receive (h : host.Numbered) {conn : Nat} {chunk : Bytes}
    (hconn : host.connected conn = true) (hnext : host.receive conn chunk = .ok host') :
    host'.Numbered := by
  obtain ⟨buff, -, rfl⟩ := receive_eq_ok hnext
  refine ⟨h.basicConn, h.connected_lt, ?_, h.origin_lt⟩
  rintro other ⟨⟩
  exact h.connected_lt conn hconn

theorem Numbered.round (h : host.Numbered) {conn : Nat} (hbusy : host.busy = some conn)
    (hnext : host.round c conn = .ok host') : host'.Numbered := by
  obtain ⟨rfl, -⟩ | ⟨call, serviceCall, server, buff, -, hproc, rfl⟩ := round_eq_ok hnext
  · refine ⟨h.basicConn, h.connected_lt, ?_, h.origin_lt⟩
    rintro other ⟨⟩
  · refine ⟨?_, h.connected_lt, h.busy_lt, ?_⟩
    · intro hcount
      rw [(RpcServer.procRpcData_eq_ok hproc).1]
      exact h.basicConn hcount
    · intro p hp
      obtain hp | hp := List.mem_append.mp hp
      · exact h.origin_lt p hp
      · rw [List.mem_singleton.mp hp]
        exact h.busy_lt conn hbusy

theorem Numbered.complete (h : host.Numbered) (i : Nat) (response : Bytes) :
    (host.complete c i response).Numbered := by
  cases hp : host.pending[i]? with
  | none =>
      rw [complete_of_getElem?_eq_none hp]
      exact h
  | some p =>
      rw [complete_of_getElem? hp]
      exact ⟨h.basicConn, h.connected_lt, h.busy_lt,
        fun q hq => h.origin_lt q (List.mem_of_mem_eraseIdx hq)⟩

theorem Numbered.step (h : host.Numbered) {event : Event}
    (hnext : host.step c event = .ok host') : host'.Numbered := by
  cases event with
  | connect =>
      cases hnext
      split
      · rename_i hbusy
        exact h.connect hbusy
      · exact h
  | disconnect conn =>
      cases hnext
      split
      · exact h.disconnect conn
      · exact h
  | receive conn chunk =>
      simp only [RpcHost.step] at hnext
      split at hnext
      · rename_i hready
        exact h.receive hready.2.1 hnext
      · cases hnext
        exact h
  | round =>
      simp only [RpcHost.step] at hnext
      split at hnext
      · cases hnext
        exact h
      · rename_i conn hbusy
        exact h.round hbusy hnext
  | complete i response =>
      cases hnext
      exact h.complete i response

/-- A closure writes to the connection of its request exactly when that is the last one or neither
is there. -/
theorem onCallbackDone_routed_iff (h : host.Numbered) {p : Pending S M} (hp : p ∈ host.pending)
    (response : Bytes) :
    host.server.onCallbackDone c host.connected p.call.id response
        = (if host.connected p.origin then
            some (p.origin, RpcServer.responseFrame c p.call.id response) else none) ↔
      p.origin = host.last ∨
        (host.connected p.origin = false ∧ host.connected host.last = false) := by
  have hcount : 0 < host.count := Nat.zero_lt_of_lt (h.origin_lt p hp)
  rw [RpcServer.onCallbackDone, h.basicConn hcount]
  by_cases hsame : p.origin = host.last
  · simp [hsame]
  · cases horigin : host.connected p.origin with
    | false =>
        cases hlast : host.connected host.last with
        | false => simp [hlast]
        | true => simp [hsame, hlast]
    | true =>
        cases hlast : host.connected host.last with
        | false => simp [hsame, hlast]
        | true => simp [hsame, hlast, Ne.symm hsame]

theorem routed_complete_iff (h : host.Numbered) (i : Nat) (response : Bytes) :
    Routed c (host.complete c i response) ↔
      Routed c host ∧ host.AnswersLast (.complete i response) := by
  cases hp : host.pending[i]? with
  | none =>
      rw [complete_of_getElem?_eq_none hp]
      simp [AnswersLast, hp]
  | some p =>
      rw [complete_of_getElem? hp]
      have hiff := onCallbackDone_routed_iff (c := c) h (List.mem_of_getElem? hp) response
      simp only [Routed, List.forall_mem_append, List.forall_mem_singleton, Reply.Routed, hiff,
        AnswersLast, hp, Option.mem_some_iff, forall_eq']

theorem routed_step_iff (h : host.Numbered) {event : Event}
    (hnext : host.step c event = .ok host') :
    Routed c host' ↔ Routed c host ∧ host.AnswersLast event := by
  by_cases hevent : ∃ i response, event = .complete i response
  · obtain ⟨i, response, rfl⟩ := hevent
    cases hnext
    exact routed_complete_iff h i response
  · push Not at hevent
    have hsame := replies_step hevent hnext
    have hgood : host.AnswersLast event := by
      cases event with
      | complete i response => exact absurd rfl (hevent i response)
      | _ => trivial
    rw [Routed, hsame, ← Routed]
    exact (and_iff_left hgood).symm

/-- In a run of the server every response goes to the connection of its request if and only if each
closure runs while that connection is the last one to have connected, or after both are gone. -/
theorem routed_iff_answersLast {services : List (S × Bytes × List (Bytes × M))}
    {events : List Event} (hrun : run (step c) (init services) events = .ok host) :
    Routed c host ↔ Always (step c) AnswersLast (init services) events := by
  have hinit : Routed c (init services) := by
    rintro reply ⟨⟩
  have hiff : Routed c host ↔
      Routed c (init services) ∧ Always (step c) AnswersLast (init services) events :=
    iff_always (fun _ _ _ (_ : True) h hnext => Numbered.step h hnext)
      (fun _ _ _ _ h hnext => routed_step_iff h hnext) hrun (fun _ _ => trivial)
      (numbered_init services)
  rw [hiff]
  exact and_iff_right hinit

/-! ### Two clients -/

instance (host : RpcHost S M) : DecidablePred host.AnswersLast
  | .complete i _ => inferInstanceAs (Decidable (∀ p ∈ host.pending[i]?, _))
  | .connect | .disconnect _ | .receive _ _ | .round => .isTrue trivial

instance (c : MetaCodec) (host : RpcHost S M) : Decidable (Routed c host) :=
  inferInstanceAs (Decidable (∀ reply ∈ host.replies, _ = _))

def oneService : List (Unit × Bytes × List (Bytes × Unit)) := [((), [115], [([109], ())])]

/-- A client asks and gets its answer. -/
def asksAndHears (conn : Nat) : List Event :=
  [.receive conn (buildFrame RpcMetaMessage.pbCodec 1 [115] [109] [7]), .round, .round,
    .complete 0 [8]]

/-- The first of two clients asks, and the second one gets the answer. -/
theorem not_routed_twoClients : ∃ host : RpcHost Unit Unit,
    run (step RpcMetaMessage.pbCodec) (init oneService) ([.connect, .connect] ++ asksAndHears 0)
      = .ok host ∧
      ¬ Routed RpcMetaMessage.pbCodec host := by
  apply Holds.returns
  decide +kernel

/-- It is the second client that asks. -/
theorem routed_iff_answersLast_lastClient : ∃ host : RpcHost Unit Unit,
    run (step RpcMetaMessage.pbCodec) (init oneService) ([.connect, .connect] ++ asksAndHears 1)
      = .ok host ∧
      host.replies ≠ [] ∧ Routed RpcMetaMessage.pbCodec host := by
  obtain ⟨host, hrun, hreplies⟩ : ∃ host : RpcHost Unit Unit,
      run (step RpcMetaMessage.pbCodec) (init oneService) ([.connect, .connect] ++ asksAndHears 1)
        = .ok host ∧ host.replies ≠ [] := by
    apply Holds.returns
    decide +kernel
  refine ⟨host, hrun, hreplies, (routed_iff_answersLast hrun).mpr ?_⟩
  decide +kernel

end ToyBasket.RpcHost
