import Mathlib.Data.List.Infix
import Mathlib.Data.List.Nodup
import Mathlib.Logic.Function.Basic
import ToyBasket.Lib.Machine
import ToyBasket.Net.InetAddress

/-!
# The connections of a server

`StreamServer::newConnection` and `removeConnectionInLoop`: the connections that a server holds
under the names it makes for them.
-/

namespace ToyBasket

open Outcome (check Holds check_of_true ok_bind)

/-- `number` is the object, the how many-th that the server has made. -/
structure NamedConnection where
  number : Nat
  name : Text
deriving DecidableEq, Repr

inductive ServerFault where
  | assertion
deriving DecidableEq, Repr

/-- `accepted` counts the connections made, `live` are those not yet removed. -/
structure StreamServer where
  ipPort : Text
  name : Text
  nextConnId : Int
  connections : Text → Option NamedConnection
  accepted : Nat
  live : List NamedConnection

/-- A connection is accepted, or the one with this number goes. -/
inductive ServerEvent where
  | accept
  | close (number : Nat)
deriving DecidableEq, Repr

/-- The name that `newConnection` makes. -/
def connName (ipPort name : Text) (nextConnId : Int) : Text :=
  name ++ snprintf 64 (('-' :: ipPort) ++ ('#' :: decimalInt nextConnId))

namespace StreamServer

def new (ipPort name : Text) : StreamServer where
  ipPort := ipPort
  name := name
  nextConnId := 1
  connections := fun _ => none
  accepted := 0
  live := []

def newConnection (server : StreamServer) : StreamServer :=
  let conn : NamedConnection :=
    { number := server.accepted + 1
      name := connName server.ipPort server.name server.nextConnId }
  { server with
    nextConnId := (server.nextConnId + 1).bmod (2 ^ 32)
    connections := Function.update server.connections conn.name (some conn)
    accepted := server.accepted + 1
    live := server.live ++ [conn] }

def removeConnectionInLoop (server : StreamServer) (conn : NamedConnection) :
    Except ServerFault StreamServer := do
  let n := if server.connections conn.name = none then 0 else 1
  let erased := { server with connections := Function.update server.connections conn.name none }
  check .assertion (n = 1)
  return { erased with live := server.live.filter fun other => other.number ≠ conn.number }

/-- A connection that is not live does not go. -/
def step (server : StreamServer) : ServerEvent → Except ServerFault StreamServer
  | .accept => .ok server.newConnection
  | .close number =>
      match server.live.find? fun conn => conn.number = number with
      | some conn => server.removeConnectionInLoop conn
      | none => .ok server

/-- Each live connection is held under its own name, and nothing else is held. -/
structure Held (server : StreamServer) : Prop where
  own : ∀ conn ∈ server.live, server.connections conn.name = some conn
  only : ∀ name conn, server.connections name = some conn → conn ∈ server.live ∧ conn.name = name

end StreamServer

/-! ### The clients of a server -/

/-- How many have come, and which of them are there. -/
structure Clients where
  accepted : Nat
  live : List Nat
deriving DecidableEq, Repr

namespace Clients

def next (clients : Clients) : ServerEvent → Clients
  | .accept =>
      { accepted := clients.accepted + 1, live := clients.live ++ [clients.accepted + 1] }
  | .close number => { clients with live := clients.live.filter fun other => other ≠ number }

def after (events : List ServerEvent) : Clients := events.foldl next ⟨0, []⟩

@[simp]
theorem after_append (events : List ServerEvent) (event : ServerEvent) :
    after (events ++ [event]) = (after events).next event := by
  simp [after]

/-- The numbers go up. -/
structure Numbered (clients : Clients) : Prop where
  le : ∀ number ∈ clients.live, number ≤ clients.accepted
  nodup : clients.live.Nodup

theorem Numbered.next {clients : Clients} (h : clients.Numbered) (event : ServerEvent) :
    (clients.next event).Numbered := by
  cases event with
  | accept =>
      have hfresh : clients.accepted + 1 ∉ clients.live := fun hmem =>
        Nat.not_succ_le_self _ (h.le _ hmem)
      refine ⟨?_, ?_⟩
      · intro number hmem
        obtain hmem | hmem := List.mem_append.mp hmem
        · exact Nat.le_succ_of_le (h.le number hmem)
        · rw [List.mem_singleton.mp hmem]
          exact Nat.le_refl _
      · exact h.nodup.append (List.nodup_singleton _) (by simpa using hfresh)
  | close number =>
      refine ⟨?_, h.nodup.filter _⟩
      intro other hmem
      exact h.le other (List.mem_of_mem_filter hmem)

theorem numbered_after (events : List ServerEvent) : (after events).Numbered := by
  induction events using List.reverseRecOn with
  | nil => exact ⟨by simp [after], List.nodup_nil⟩
  | append_singleton events event ih =>
      rw [after_append]
      exact ih.next event

theorem accepted_le (clients : Clients) (event : ServerEvent) :
    clients.accepted ≤ (clients.next event).accepted := by
  cases event with
  | accept => exact Nat.le_succ _
  | close number => exact Nat.le_refl _

end Clients

/-! ### Names -/

/-- The digits of a number for which the buffer of `newConnection` has room. -/
def fitting (ipPort : Text) (number : Nat) : Text := (decimal number).take (61 - ipPort.length)

theorem connName_eq_iff (ipPort name : Text) (number number' : Nat) :
    connName ipPort name number = connName ipPort name number' ↔
      fitting ipPort number = fitting ipPort number' := by
  have hbuf : ∀ n : Nat, snprintf 64 (('-' :: ipPort) ++ ('#' :: decimalInt n))
      = ('-' :: ipPort ++ ['#']).take 63 ++ fitting ipPort n := by
    intro n
    have hsplit : ('-' :: ipPort) ++ ('#' :: decimalInt n)
        = ('-' :: ipPort ++ ['#']) ++ decimal n := by
      rw [List.append_assoc]
      rfl
    have hroom : 63 - ('-' :: ipPort ++ ['#']).length = 61 - ipPort.length := by
      simp only [List.length_append, List.length_cons, List.length_nil]
      omega
    rw [hsplit, snprintf, List.take_append, hroom, fitting]
  rw [connName, connName, List.append_cancel_left_eq, hbuf, hbuf, List.append_cancel_left_eq]

theorem fitting_injective {ipPort : Text} (hshort : ipPort.length ≤ 51) {number number' : Nat}
    (h : number < 10 ^ 10) (h' : number' < 10 ^ 10)
    (hsame : fitting ipPort number = fitting ipPort number') : number = number' := by
  have hroom : 10 ≤ 61 - ipPort.length := by omega
  have hwhole : ∀ n, n < 10 ^ 10 → fitting ipPort n = decimal n := fun n hn =>
    List.take_of_length_le ((InetAddress.length_decimal_le (by decide) hn).trans hroom)
  rw [hwhole number h, hwhole number' h'] at hsame
  calc
    number = Nat.ofDigitChars 10 (decimal number) 0 := Nat.ofDigitChars_ten_toDigits.symm
    _ = Nat.ofDigitChars 10 (decimal number') 0 := by rw [hsame]
    _ = number' := Nat.ofDigitChars_ten_toDigits

namespace StreamServer

variable {ipPort name : Text} {clients : Clients} {server : StreamServer}

theorem bmod_eq_self {n : Nat} (h : n < 2 ^ 31) : (n : Int).bmod (2 ^ 32) = n := by
  apply Int.bmod_eq_of_le <;> omega

/-- The server and its live connections are those of these clients. -/
structure Tracks (ipPort name : Text) (clients : Clients) (server : StreamServer) : Prop where
  ipPort_eq : server.ipPort = ipPort
  name_eq : server.name = name
  nextConnId : server.nextConnId = ((clients.accepted + 1 : Nat) : Int).bmod (2 ^ 32)
  accepted : server.accepted = clients.accepted
  live : server.live = clients.live.map fun number => ⟨number, connName ipPort name number⟩

theorem tracks_new (ipPort name : Text) :
    Tracks ipPort name (Clients.after []) (new ipPort name) where
  ipPort_eq := rfl
  name_eq := rfl
  nextConnId := (bmod_eq_self (by decide)).symm
  accepted := rfl
  live := rfl

theorem held_new (ipPort name : Text) : (new ipPort name).Held :=
  ⟨by simp [new], by simp [new]⟩

theorem Tracks.nextConnId_eq (h : Tracks ipPort name clients server)
    (hsmall : clients.accepted + 1 < 2 ^ 31) :
    server.nextConnId = ((clients.accepted + 1 : Nat) : Int) := by
  rw [h.nextConnId, bmod_eq_self hsmall]

theorem Tracks.newConnection (h : Tracks ipPort name clients server)
    (hsmall : clients.accepted + 1 < 2 ^ 31) :
    Tracks ipPort name (clients.next .accept) server.newConnection where
  ipPort_eq := h.ipPort_eq
  name_eq := h.name_eq
  nextConnId := by
    change (server.nextConnId + 1).bmod (2 ^ 32) = _
    rw [h.nextConnId_eq hsmall]
    rfl
  accepted := congrArg (· + 1) h.accepted
  live := by
    simp only [StreamServer.newConnection, Clients.next, h.live, h.nextConnId_eq hsmall,
      h.accepted, h.ipPort_eq, h.name_eq, List.map_append, List.map_cons, List.map_nil]

/-- A new connection is held beside the others if and only if its name is not theirs. -/
theorem held_newConnection_iff (h : Tracks ipPort name clients server) (hheld : server.Held)
    (hnumbered : clients.Numbered) (hsmall : clients.accepted + 1 < 2 ^ 31) :
    server.newConnection.Held ↔ ∀ number ∈ clients.live,
      fitting ipPort (clients.accepted + 1) ≠ fitting ipPort number := by
  have hname : connName server.ipPort server.name server.nextConnId
      = connName ipPort name ((clients.accepted + 1 : Nat) : Int) := by
    rw [h.ipPort_eq, h.name_eq, h.nextConnId_eq hsmall]
  have hlive : ∀ number ∈ clients.live,
      (⟨number, connName ipPort name number⟩ : NamedConnection) ∈ server.live := by
    intro number hmem
    rw [h.live]
    exact List.mem_map_of_mem hmem
  constructor
  · intro hnext number hmem hsame
    have hown := hnext.own _ (List.mem_append_left _ (hlive number hmem))
    have hnames := (connName_eq_iff ipPort name _ _).mpr hsame
    simp only [newConnection, hname, hnames, Function.update_self, Option.some.injEq,
      NamedConnection.mk.injEq, h.accepted] at hown
    have hle := hnumbered.le number hmem
    omega
  · intro hfresh
    have hother : ∀ conn ∈ server.live,
        conn.name ≠ connName ipPort name ((clients.accepted + 1 : Nat) : Int) := by
      intro conn hconn hsame
      rw [h.live] at hconn
      obtain ⟨number, hmem, rfl⟩ := List.mem_map.mp hconn
      exact hfresh number hmem ((connName_eq_iff ipPort name _ _).mp hsame).symm
    refine ⟨?_, ?_⟩
    · intro conn hconn
      simp only [newConnection, hname] at hconn ⊢
      obtain hconn | hconn := List.mem_append.mp hconn
      · rw [Function.update_of_ne (hother conn hconn)]
        exact hheld.own conn hconn
      · rw [List.mem_singleton.mp hconn, Function.update_self]
    · intro key conn hconn
      simp only [newConnection, hname] at hconn ⊢
      by_cases hkey : key = connName ipPort name ((clients.accepted + 1 : Nat) : Int)
      · rw [hkey, Function.update_self, Option.some.injEq] at hconn
        subst hconn
        exact ⟨List.mem_append_right _ (List.mem_singleton_self _), hkey.symm⟩
      · rw [Function.update_of_ne hkey] at hconn
        obtain ⟨hmem, hsame⟩ := hheld.only key conn hconn
        exact ⟨List.mem_append_left _ hmem, hsame⟩

theorem Tracks.eq_of_number (h : Tracks ipPort name clients server) {conn other : NamedConnection}
    (hconn : conn ∈ server.live) (hother : other ∈ server.live)
    (hsame : other.number = conn.number) : other = conn := by
  rw [h.live] at hconn hother
  obtain ⟨number, -, rfl⟩ := List.mem_map.mp hconn
  obtain ⟨number', -, rfl⟩ := List.mem_map.mp hother
  simp only at hsame
  rw [hsame]

/-- Where all are held, the connection that is removed is erased and no other. -/
theorem removeConnectionInLoop_holds (h : Tracks ipPort name clients server) (hheld : server.Held)
    {conn : NamedConnection} (hconn : conn ∈ server.live) :
    Holds (server.removeConnectionInLoop conn)
      (fun next => Tracks ipPort name (clients.next (.close conn.number)) next ∧ next.Held)
      fun _ => False := by
  have hown := hheld.own conn hconn
  simp only [removeConnectionInLoop, hown, reduceCtorEq, if_false, check_of_true, ok_bind]
  refine ⟨⟨h.ipPort_eq, h.name_eq, h.nextConnId, h.accepted, ?_⟩, ?_, ?_⟩
  · simp only [h.live, List.filter_map, Clients.next]
    rfl
  · intro other hother
    obtain ⟨hmem, hnumber⟩ := List.mem_filter.mp hother
    have hkey : other.name ≠ conn.name := by
      intro hsame
      have hboth := hheld.own other hmem
      rw [hsame, hown, Option.some.injEq] at hboth
      simp [hboth] at hnumber
    simp only [Function.update_of_ne hkey]
    exact hheld.own other hmem
  · intro key other hother
    by_cases hkey : key = conn.name
    · simp [hkey] at hother
    · simp only [Function.update_of_ne hkey] at hother
      obtain ⟨hmem, hsame⟩ := hheld.only key other hother
      refine ⟨List.mem_filter.mpr ⟨hmem, ?_⟩, hsame⟩
      apply decide_eq_true
      intro hnumber
      rw [h.eq_of_number hconn hmem hnumber] at hsame
      exact hkey hsame.symm

theorem close_holds (h : Tracks ipPort name clients server) (hheld : server.Held) (number : Nat) :
    Holds (server.step (.close number))
      (fun next => Tracks ipPort name (clients.next (.close number)) next ∧ next.Held)
      fun _ => False := by
  cases hfind : server.live.find? fun conn => conn.number = number with
  | none =>
      have hgone : number ∉ clients.live := by
        intro hmem
        rw [h.live, List.find?_eq_none] at hfind
        exact hfind _ (List.mem_map_of_mem hmem) (by simp)
      have hkept : clients.live.filter (fun other => other ≠ number) = clients.live := by
        rw [List.filter_eq_self]
        intro other hmem
        apply decide_eq_true
        rintro rfl
        exact hgone hmem
      simp only [step, hfind, Clients.next, hkept]
      exact ⟨h, hheld⟩
  | some conn =>
      have hconn := List.mem_of_find?_eq_some hfind
      have hnumber : conn.number = number := by simpa using List.find?_some hfind
      subst hnumber
      simp only [step, hfind]
      exact removeConnectionInLoop_holds h hheld hconn

/-! ### Runs -/

/-- The server after these events, unless an assertion fails. -/
def after (ipPort name : Text) (events : List ServerEvent) : Except ServerFault StreamServer :=
  Machine.run step (new ipPort name) events

theorem after_append (ipPort name : Text) (events : List ServerEvent) (event : ServerEvent) :
    after ipPort name (events ++ [event])
      = (after ipPort name events >>= fun server => server.step event) := by
  simp only [after, Machine.run_append, Machine.run_singleton]

/-- The digits that fit tell the new connection from the live ones. -/
def Distinct (ipPort : Text) (clients : Clients) (event : ServerEvent) : Prop :=
  event = .accept → ∀ number ∈ clients.live,
    fitting ipPort (clients.accepted + 1) ≠ fitting ipPort number

instance (ipPort : Text) (clients : Clients) (event : ServerEvent) :
    Decidable (Distinct ipPort clients event) :=
  inferInstanceAs (Decidable (_ → _))

theorem tracks_step (h : Tracks ipPort name clients server) (hheld : server.Held)
    {event : ServerEvent} (hsmall : (clients.next event).accepted < 2 ^ 31) :
    Holds (server.step event) (Tracks ipPort name (clients.next event)) fun _ => False := by
  cases event with
  | accept => exact h.newConnection hsmall
  | close number => exact (close_holds h hheld number).imp fun _ hboth => hboth.1

theorem held_step_iff (h : Tracks ipPort name clients server) (hheld : server.Held)
    (hnumbered : clients.Numbered) {event : ServerEvent}
    (hsmall : (clients.next event).accepted < 2 ^ 31) :
    Holds (server.step event) Held (fun _ => False) ↔ Distinct ipPort clients event := by
  cases event with
  | accept =>
      have hiff := held_newConnection_iff h hheld hnumbered hsmall
      simp only [step, Outcome.holds_ok, Distinct, hiff, forall_const]
  | close number =>
      have hclose := (close_holds h hheld number).imp fun _ hboth => hboth.2
      simp only [hclose, Distinct, reduceCtorEq, false_implies]

/-- The live connections are those of the clients, their names differ, and each is held under its
own. -/
structure EachUnderOwnKey (clients : Clients) (server : StreamServer) : Prop where
  numbers : server.live.map NamedConnection.number = clients.live
  names : ∀ conn ∈ server.live, ∀ other ∈ server.live, conn.name = other.name → conn = other
  held : server.Held

theorem Tracks.eachUnderOwnKey (h : Tracks ipPort name clients server) (hheld : server.Held) :
    EachUnderOwnKey clients server where
  numbers := by simp [h.live, Function.comp_def]
  names := by
    intro conn hconn other hother hsame
    have hboth := hheld.own conn hconn
    rw [hsame, hheld.own other hother, Option.some.injEq] at hboth
    exact hboth.symm
  held := hheld

variable {events : List ServerEvent}

/-- As long as each step leaves all of them held, the server follows its clients. -/
theorem tracks_after (haccepts : (Clients.after events).accepted < 2 ^ 31)
    (hstep : ∀ before event server, before ++ [event] <+: events →
      after ipPort name before = .ok server → Tracks ipPort name (Clients.after before) server →
      server.Held → Holds (server.step event) Held fun _ => False) :
    ∃ server, after ipPort name events = .ok server ∧
      Tracks ipPort name (Clients.after events) server ∧ server.Held := by
  induction events using List.reverseRecOn with
  | nil => exact ⟨_, rfl, tracks_new ipPort name, held_new ipPort name⟩
  | append_singleton events event ih =>
      rw [Clients.after_append] at haccepts ⊢
      have hsmall := (Clients.accepted_le (Clients.after events) event).trans_lt haccepts
      obtain ⟨server, hserver, htracks, hheld⟩ := ih hsmall fun before event' server hinitial =>
        hstep before event' server (hinitial.trans (List.prefix_append _ _))
      have hlast := hstep events event server (List.prefix_refl _) hserver htracks hheld
      obtain ⟨next, hnext, hnextTracks⟩ := (tracks_step htracks hheld haccepts).returns
      refine ⟨next, ?_, hnextTracks, hlast.of_ok hnext⟩
      rw [after_append, hserver, ok_bind, hnext]

theorem accepted_mono {before : List ServerEvent} (hinitial : before <+: events) :
    (Clients.after before).accepted ≤ (Clients.after events).accepted := by
  obtain ⟨rest, rfl⟩ := hinitial
  induction rest using List.reverseRecOn with
  | nil => rw [List.append_nil]
  | append_singleton rest event ih =>
      rw [← List.append_assoc, Clients.after_append]
      exact ih.trans (Clients.accepted_le _ event)

/-- Each accepted connection that is not yet closed is held under its own name at any time, and the
one that is removed is erased and no other, if and only if a new connection always has another
number than the live ones in the digits that fit. -/
theorem eachUnderOwnKey_iff (inetNtop6 : BitVec 128 → Text) (listenAddr : InetAddress)
    (nameArg : Text) (haccepts : (Clients.after events).accepted < 2 ^ 31) :
    (∀ before, before <+: events →
      Holds (after (listenAddr.toString inetNtop6) nameArg before)
        (EachUnderOwnKey (Clients.after before)) fun _ => False) ↔
      ∀ before event, before ++ [event] <+: events →
        Distinct (listenAddr.toString inetNtop6) (Clients.after before) event := by
  constructor
  · intro heach before event hinitial
    have hsmall := (accepted_mono hinitial).trans_lt haccepts
    rw [Clients.after_append] at hsmall
    have hstep : ∀ before' event' server, before' ++ [event'] <+: before ++ [event] →
        after (listenAddr.toString inetNtop6) nameArg before' = .ok server →
        Holds (server.step event') Held fun _ => False := by
      intro before' event' server hinitial' hserver
      have hlast := heach _ (hinitial'.trans hinitial)
      rw [after_append, hserver, ok_bind] at hlast
      exact hlast.imp fun _ h => h.held
    have hsmaller := (Clients.accepted_le (Clients.after before) event).trans_lt hsmall
    obtain ⟨server, hserver, htracks, hheld⟩ := tracks_after hsmaller
      fun before' event' server hinitial' hserver _ _ =>
        hstep before' event' server (hinitial'.trans (List.prefix_append _ _)) hserver
    exact (held_step_iff htracks hheld (Clients.numbered_after before) hsmall).mp
      (hstep before event server (List.prefix_refl _) hserver)
  · intro hdistinct before hinitial
    have hsmall := (accepted_mono hinitial).trans_lt haccepts
    have hstep : ∀ before' event' server, before' ++ [event'] <+: before →
        after (listenAddr.toString inetNtop6) nameArg before' = .ok server →
        Tracks (listenAddr.toString inetNtop6) nameArg (Clients.after before') server →
        server.Held → Holds (server.step event') Held fun _ => False := by
      intro before' event' server hinitial' _ htracks hheld
      have hsmaller := (accepted_mono hinitial').trans_lt hsmall
      rw [Clients.after_append] at hsmaller
      apply (held_step_iff htracks hheld (Clients.numbered_after before') hsmaller).mpr
      exact hdistinct before' event' (hinitial'.trans hinitial)
    obtain ⟨server, hserver, htracks, hheld⟩ := tracks_after hsmall hstep
    rw [hserver]
    exact htracks.eachUnderOwnKey hheld

/-- Two connections come and the first one goes. -/
theorem eachUnderOwnKey_iff_twoClients :
    (∀ before, before <+: [.accept, .accept, .close 1] →
      Holds (after ((InetAddress.unix ⟨['/', 's'], by decide⟩).toString fun _ => []) ['e'] before)
        (EachUnderOwnKey (Clients.after before)) fun _ => False) ↔
      ∀ before event, before ++ [event] <+: [.accept, .accept, .close 1] →
        Distinct ((InetAddress.unix ⟨['/', 's'], by decide⟩).toString fun _ => [])
          (Clients.after before) event := by
  apply eachUnderOwnKey_iff
  decide

/-- A path of 61 characters leaves no room for the number. -/
theorem not_eachUnderOwnKey_of_longPath :
    ¬ ∀ (listenAddr : InetAddress) (nameArg : Text) (events : List ServerEvent),
      (Clients.after events).accepted < 2 ^ 31 → ∀ before, before <+: events →
        Holds (after (listenAddr.toString fun _ => []) nameArg before)
          (EachUnderOwnKey (Clients.after before)) fun _ => False := by
  intro h
  have heach := h (InetAddress.ofPath (List.replicate 61 'a')) ['e'] [.accept, .accept] (by decide)
    [.accept, .accept] (List.prefix_refl _)
  have hnames := heach.of_ok rfl
  have hsame := hnames.names _ List.mem_cons_self _ (List.mem_cons_of_mem _ List.mem_cons_self)
    (by decide +kernel)
  exact absurd (congrArg NamedConnection.number hsame) (by decide)

/-- An address of at most 51 characters, as all of the internet are, leaves room for all digits. -/
theorem distinct_of_short {event : ServerEvent} (hshort : ipPort.length ≤ 51)
    (hnumbered : clients.Numbered) (hsmall : (clients.next event).accepted < 2 ^ 31) :
    Distinct ipPort clients event := by
  rintro rfl number hmem hsame
  have hle := hnumbered.le number hmem
  simp only [Clients.next] at hsmall
  have hequal := fitting_injective hshort (by omega) (by omega) hsame
  omega

end StreamServer

end ToyBasket
