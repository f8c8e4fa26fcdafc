import ToyBasket.Buffer.Spec
import ToyBasket.Lib.Machine
import Mathlib.Logic.Function.Basic

/-!
# Datagrams

`DgramClient.cpp` and `DgramServer.cpp` over a network that loses, repeats and reorders datagrams.
The client reads through its input buffer, the server into an array on the stack. The sockets of the
clients are connected, as if the call of `connect` that sets `connected_` had succeeded.
-/

namespace ToyBasket

open Words Outcome Machine

/-! ### One `readFd` into an empty buffer -/

namespace Buffer

variable {b : Buffer}

/-- How large the vector becomes. -/
theorem length_readFd_le {data : Bytes} (h : b.WellFormed) (hlen : data.length ≤ 2 ^ 62)
    (hstart : b.writerIndex < 2 ^ 62) :
    Holds (b.readFd (some data))
      (fun after => after.buffer.length ≤ max b.buffer.length (b.writerIndex + data.length))
      (fun _ => False) := by
  have hwriter := h.writer_le
  have hwritable := h.writableBytes_eq
  have hsize := h.size_le
  simp only [maxSize] at hsize
  simp only [readFd]
  split
  · rename_i hfits
    have hlength : (b.write (data.take b.writableBytes)).buffer.length = b.buffer.length := by
      apply length_copyTo
      rw [List.length_take]
      omega
    exact hlength.le.trans (Nat.le_max_left _ _)
  · rename_i hspill
    have htake : (data.take b.writableBytes).length = b.writableBytes :=
      List.length_take_of_le (by omega)
    have hlength : (b.write (data.take b.writableBytes)).buffer.length = b.buffer.length := by
      apply length_copyTo
      omega
    have hfilled := becomes_write_advance (data.take b.writableBytes) h (by omega)
    have hfull : b.writerIndex + (data.take b.writableBytes).length
        = (b.write (data.take b.writableBytes)).buffer.length := by
      omega
    rw [hfull] at hfilled
    have hrest : (data.drop b.writableBytes).length = data.length - b.writableBytes :=
      List.length_drop
    refine (append_holds hfilled.wellFormed (by omega)).mono ?_ ?_
    · rintro after ⟨hafter, -⟩
      have hle := hafter.size_le
      simp only at hle
      omega
    · rintro fault ⟨-, hmax⟩
      simp only [maxSize] at hmax
      omega

theorem readFd_nil (h : b.WellFormed) : b.readFd (some []) = .ok b := by
  have hwriter := h.writer_le
  have hsize := h.size_le
  simp only [maxSize] at hsize
  have hsame : copyTo b.buffer b.writerIndex [] = b.buffer := by
    simp [copyTo]
  simp only [readFd, List.take_nil, write, hsame, List.length_nil, Nat.zero_le, if_true]
  rw [sizeAdd_of_lt (by omega), Nat.add_zero]

theorem extraSize_le_readLimit (b : Buffer) : extraSize ≤ b.readLimit := by
  unfold readLimit
  split <;> omega

end Buffer

/-! ### The two ends -/

/-- `MSG_BUF_SIZE` -/
def kMsgBufSize : Nat := 4096

/-- `messages` are those that `messageCallback_` was given, all with the address `serverAddr_`. -/
structure DgramClient where
  inputBuffer : Buffer
  messages : List Bytes

/-- `messages` with the addresses that came with them. -/
structure DgramServer (α : Type) where
  messages : List (α × Bytes)

namespace DgramClient

def init : DgramClient where
  inputBuffer := Buffer.empty Buffer.kInitialSize
  messages := []

/-- What `readv` stores of a datagram. -/
def readv (c : DgramClient) (payload : Bytes) : Bytes := payload.take c.inputBuffer.readLimit

/-- Without a datagram `readv` fails. -/
def handleRead (c : DgramClient) (payload : Option Bytes) : Except Fault DgramClient := do
  let received := payload.map c.readv
  let inputBuffer ← c.inputBuffer.readFd received
  if 0 < (received.getD []).length then
    return {
      inputBuffer := inputBuffer.retrieveAll
      messages := c.messages ++ [inputBuffer.readable] }
  else
    return { c with inputBuffer := inputBuffer }

end DgramClient

namespace DgramServer

variable {α : Type}

def handleRead (s : DgramServer α) : Option (α × Bytes) → DgramServer α
  | none => s
  | some (peerAddr, payload) =>
      let message := payload.take kMsgBufSize
      if 0 < message.length then { messages := s.messages ++ [(peerAddr, message)] } else s

end DgramServer

/-! ### The network -/

structure Datagram (α : Type) where
  source : α
  dest : α
  payload : Bytes
deriving DecidableEq, Repr

/-- A server, the clients by their addresses and the network between them, which carries datagrams
of at most `limit` bytes. `arrived` are the datagrams that came to a socket, `queue` those of them
that have not been read. -/
structure DgramNet (α : Type) where
  serverAddr : α
  limit : Nat
  server : DgramServer α
  clients : α → DgramClient
  flight : List (Datagram α)
  queue : α → List (Datagram α)
  sent : List (Datagram α)
  arrived : α → List (Datagram α)

namespace DgramNet

variable {α : Type} [DecidableEq α]

inductive Event (α : Type) where
  | clientSend (addr : α) (message : Bytes)
  | serverSend (clientAddr : α) (message : Bytes)
  | foreignSend (source dest : α) (message : Bytes)
  | deliver (i : Nat)
  | lose (i : Nat)
  | clientRead (addr : α)
  | serverRead
deriving DecidableEq, Repr

def init (serverAddr : α) (limit : Nat) : DgramNet α where
  serverAddr := serverAddr
  limit := limit
  server := ⟨[]⟩
  clients := fun _ => DgramClient.init
  flight := []
  queue := fun _ => []
  sent := []
  arrived := fun _ => []

/-- `write` or `sendto`, which refuses a datagram that is too long. -/
def send (net : DgramNet α) (d : Datagram α) : DgramNet α :=
  if d.payload.length ≤ net.limit then
    { net with flight := net.flight ++ [d], sent := net.sent ++ [d] }
  else
    net

/-- A client's socket is connected and takes the datagrams of the server only. -/
def accepts (net : DgramNet α) (d : Datagram α) : Prop :=
  d.dest = net.serverAddr ∨ d.source = net.serverAddr

instance (net : DgramNet α) (d : Datagram α) : Decidable (net.accepts d) :=
  inferInstanceAs (Decidable (_ ∨ _))

def receive (net : DgramNet α) (d : Datagram α) : DgramNet α :=
  if net.accepts d then
    { net with
      queue := Function.update net.queue d.dest (net.queue d.dest ++ [d])
      arrived := Function.update net.arrived d.dest (net.arrived d.dest ++ [d]) }
  else
    net

/-- The next datagram leaves the queue of the socket. -/
def pop (net : DgramNet α) (addr : α) : DgramNet α :=
  { net with queue := Function.update net.queue addr (net.queue addr).tail }

def step (net : DgramNet α) : Event α → Except Fault (DgramNet α)
  | .clientSend addr message =>
      if addr = net.serverAddr then .ok net
      else .ok (net.send ⟨addr, net.serverAddr, message⟩)
  | .serverSend clientAddr message => .ok (net.send ⟨net.serverAddr, clientAddr, message⟩)
  | .foreignSend source dest message =>
      if source = net.serverAddr then .ok net else .ok (net.send ⟨source, dest, message⟩)
  | .deliver i =>
      -- the network may deliver it again
      match net.flight[i]? with
      | none => .ok net
      | some d => .ok (net.receive d)
  | .lose i => .ok { net with flight := net.flight.eraseIdx i }
  | .clientRead addr =>
      if addr = net.serverAddr then .ok net
      else do
        let client ← (net.clients addr).handleRead ((net.queue addr).head?.map Datagram.payload)
        return { net.pop addr with clients := Function.update net.clients addr client }
  | .serverRead =>
      let received := (net.queue net.serverAddr).head?.map fun d => (d.source, d.payload)
      .ok { net.pop net.serverAddr with server := net.server.handleRead received }

/-! ### What arrives -/

/-- The messages of the datagrams: an empty one makes none. -/
def payloads (ds : List (Datagram α)) : List Bytes :=
  (ds.map Datagram.payload).filter fun payload => 0 < payload.length

/-- The server cuts them to its array. -/
def cut (ds : List (Datagram α)) : List (α × Bytes) :=
  (ds.filter fun d => 0 < d.payload.length).map fun d => (d.source, d.payload.take kMsgBufSize)

/-- Between two events the input buffer is empty, and no larger than a datagram has made it. -/
structure Idle (c : DgramClient) (limit : Nat) : Prop where
  wellFormed : c.inputBuffer.WellFormed
  writer : c.inputBuffer.writerIndex = Buffer.kCheapPrepend
  readable : c.inputBuffer.readable = []
  size : c.inputBuffer.buffer.length ≤ Buffer.kCheapPrepend + max Buffer.kInitialSize limit

structure Delivered (net : DgramNet α) : Prop where
  flight : ∀ d ∈ net.flight, d ∈ net.sent
  limit : ∀ d ∈ net.sent, d.payload.length ≤ net.limit
  arrived : ∀ addr, ∀ d ∈ net.arrived addr, d ∈ net.sent ∧ d.dest = addr ∧ net.accepts d
  idle : ∀ addr, Idle (net.clients addr) net.limit
  server : ∃ taken, net.arrived net.serverAddr = taken ++ net.queue net.serverAddr ∧
    net.server.messages = cut taken
  clients : ∀ addr, addr ≠ net.serverAddr → ∃ taken,
    net.arrived addr = taken ++ net.queue addr ∧ (net.clients addr).messages = payloads taken

variable {c : DgramClient} {limit : Nat} {net net' : DgramNet α} {d : Datagram α} {addr : α}

theorem Idle.init : Idle DgramClient.init limit where
  wellFormed := Buffer.empty_wellFormed (by decide)
  writer := rfl
  readable := Buffer.readable_empty _
  size := by
    have hlength : DgramClient.init.inputBuffer.buffer.length
        = Buffer.kCheapPrepend + Buffer.kInitialSize := List.length_replicate
    rw [hlength]
    omega

theorem Idle.handleRead (h : Idle c limit) (hlimit : limit ≤ Buffer.extraSize)
    {payload : Option Bytes} (hpayload : ∀ p ∈ payload, p.length ≤ limit) :
    Holds (c.handleRead payload)
      (fun c' => Idle c' limit ∧
        c'.messages = c.messages ++ payload.toList.filter fun p => 0 < p.length)
      (fun _ => False) := by
  cases payload with
  | none =>
      refine ⟨h, ?_⟩
      simp
  | some data =>
      have hdata : data.length ≤ limit := hpayload data rfl
      have hwhole : c.readv data = data :=
        List.take_of_length_le ((hdata.trans hlimit).trans (Buffer.extraSize_le_readLimit _))
      simp only [Buffer.extraSize] at hlimit
      unfold DgramClient.handleRead
      simp only [Option.map_some, hwhole, Option.getD_some]
      rcases data.eq_nil_or_concat with rfl | hcons
      · rw [Buffer.readFd_nil h.wellFormed]
        refine ⟨h, ?_⟩
        simp
      · have hpos : 0 < data.length := by
          obtain ⟨first, last, rfl⟩ := hcons
          simp
        have hwriter := h.writer
        have hlen : data.length ≤ 2 ^ 62 := by omega
        have hlen' : ((some data).getD []).length ≤ 2 ^ 63 := by
          rw [Option.getD_some]
          omega
        have hgrown := Buffer.length_readFd_le h.wellFormed hlen (by rw [hwriter]; decide)
        obtain ⟨after, hrun, hsize⟩ := hgrown.returns
        have hbecomes := ((Buffer.readFd_holds h.wellFormed hlen').of_ok hrun).1
        have hreset := Buffer.becomes_retrieveAll hbecomes.wellFormed
        rw [hrun]
        simp only [ok_bind, if_pos hpos]
        refine ⟨⟨hreset.wellFormed, rfl, hreset.readable_eq, ?_⟩, ?_⟩
        · have hstart := h.size
          have hsame := hreset.size_le
          rw [hwriter] at hsize
          simp only at hsame ⊢
          omega
        · rw [hbecomes.readable_eq, h.readable]
          simp [hpos]

omit [DecidableEq α] in
theorem Delivered.init (serverAddr : α) : Delivered (init serverAddr limit) where
  flight := by simp [DgramNet.init]
  limit := by simp [DgramNet.init]
  arrived := by simp [DgramNet.init]
  idle := fun _ => Idle.init
  server := ⟨[], rfl, rfl⟩
  clients := fun _ _ => ⟨[], rfl, rfl⟩

omit [DecidableEq α] in
theorem Delivered.send (h : Delivered net) (d : Datagram α) : Delivered (net.send d) := by
  unfold DgramNet.send
  split
  · rename_i hlimit
    refine ⟨?_, ?_, ?_, h.idle, h.server, h.clients⟩
    · intro d' hd'
      rcases List.mem_append.mp hd' with hd' | hd'
      · exact List.mem_append_left _ (h.flight d' hd')
      · exact List.mem_append_right _ hd'
    · intro d' hd'
      rcases List.mem_append.mp hd' with hd' | hd'
      · exact h.limit d' hd'
      · rw [List.mem_singleton.mp hd']
        exact hlimit
    · intro addr d' hd'
      obtain ⟨hsent, hrest⟩ := h.arrived addr d' hd'
      exact ⟨List.mem_append_left _ hsent, hrest⟩
  · exact h

theorem Delivered.receive (h : Delivered net) (hd : d ∈ net.sent) :
    Delivered (net.receive d) := by
  unfold DgramNet.receive
  split
  · rename_i haccepts
    have hboth : ∀ addr taken, net.arrived addr = taken ++ net.queue addr →
        Function.update net.arrived d.dest (net.arrived d.dest ++ [d]) addr =
          taken ++ Function.update net.queue d.dest (net.queue d.dest ++ [d]) addr := by
      intro addr taken hsplit
      by_cases haddr : addr = d.dest
      · subst haddr
        rw [Function.update_self, Function.update_self, hsplit, List.append_assoc]
      · rw [Function.update_of_ne haddr, Function.update_of_ne haddr, hsplit]
    refine ⟨h.flight, h.limit, ?_, h.idle, ?_, ?_⟩
    · intro addr d' hd'
      by_cases haddr : addr = d.dest
      · subst haddr
        simp only [Function.update_self, List.mem_append, List.mem_singleton] at hd'
        rcases hd' with hd' | rfl
        · exact h.arrived _ d' hd'
        · exact ⟨hd, rfl, haccepts⟩
      · simp only [Function.update_of_ne haddr] at hd'
        exact h.arrived addr d' hd'
    · obtain ⟨taken, hsplit, hmessages⟩ := h.server
      exact ⟨taken, hboth _ taken hsplit, hmessages⟩
    · intro addr haddr
      obtain ⟨taken, hsplit, hmessages⟩ := h.clients addr haddr
      exact ⟨taken, hboth _ taken hsplit, hmessages⟩
  · exact h

/-- A socket that is read keeps what came to it. -/
theorem split_pop (addr : α) {other : α} {taken : List (Datagram α)}
    (hsplit : net.arrived other = taken ++ net.queue other) :
    (net.pop addr).arrived other =
      (if other = addr then taken ++ (net.queue addr).head?.toList else taken) ++
        (net.pop addr).queue other := by
  by_cases hother : other = addr
  · subst hother
    simp only [pop, if_true, Function.update_self, hsplit]
    cases net.queue other with
    | nil => simp
    | cons d rest => simp
  · simp only [pop, if_neg hother, Function.update_of_ne hother, hsplit]

omit [DecidableEq α] in
theorem payloads_append (ds es : List (Datagram α)) :
    payloads (ds ++ es) = payloads ds ++ payloads es := by
  simp only [payloads, List.map_append, List.filter_append]

omit [DecidableEq α] in
theorem cut_append (ds es : List (Datagram α)) : cut (ds ++ es) = cut ds ++ cut es := by
  simp only [cut, List.map_append, List.filter_append]

omit [DecidableEq α] in
theorem handleRead_server (s : DgramServer α) (d : Option (Datagram α)) :
    (s.handleRead (d.map fun d => (d.source, d.payload))).messages =
      s.messages ++ cut d.toList := by
  cases d with
  | none => simp [DgramServer.handleRead, cut]
  | some d =>
      simp only [Option.map_some, DgramServer.handleRead, List.length_take, Option.toList_some, cut]
      by_cases hpos : 0 < d.payload.length
      · have htake : 0 < min kMsgBufSize d.payload.length := by
          simp only [kMsgBufSize]
          omega
        simp [htake, hpos]
      · have htake : ¬ 0 < min kMsgBufSize d.payload.length := by omega
        simp [htake, hpos]

theorem Delivered.serverRead (h : Delivered net) :
    Delivered { net.pop net.serverAddr with
      server := net.server.handleRead
        ((net.queue net.serverAddr).head?.map fun d => (d.source, d.payload)) } := by
  refine ⟨h.flight, h.limit, h.arrived, h.idle, ?_, ?_⟩
  · obtain ⟨taken, hsplit, hmessages⟩ := h.server
    refine ⟨taken ++ (net.queue net.serverAddr).head?.toList, ?_, ?_⟩
    · have hpop := split_pop net.serverAddr hsplit
      rw [if_pos rfl] at hpop
      exact hpop
    · rw [cut_append, ← hmessages]
      exact handleRead_server _ _
  · intro addr (haddr : addr ≠ net.serverAddr)
    obtain ⟨taken, hsplit, hmessages⟩ := h.clients addr haddr
    have hpop := split_pop net.serverAddr hsplit
    rw [if_neg haddr] at hpop
    exact ⟨taken, hpop, hmessages⟩

theorem Delivered.clientRead (h : Delivered net) (hlimit : net.limit ≤ Buffer.extraSize)
    (haddr : addr ≠ net.serverAddr) :
    Holds ((net.clients addr).handleRead ((net.queue addr).head?.map Datagram.payload))
      (fun client => Delivered { net.pop addr with
        clients := Function.update net.clients addr client }) (fun _ => False) := by
  obtain ⟨taken, hsplit, hmessages⟩ := h.clients addr haddr
  have hpayload : ∀ p ∈ (net.queue addr).head?.map Datagram.payload, p.length ≤ net.limit := by
    intro p hp
    obtain ⟨d, hd, rfl⟩ := Option.mem_map.mp hp
    have hqueue := List.mem_of_mem_head? hd
    have harrived : d ∈ net.arrived addr := by
      rw [hsplit]
      exact List.mem_append_right _ hqueue
    exact h.limit d (h.arrived addr d harrived).1
  refine ((h.idle addr).handleRead hlimit hpayload).imp ?_
  rintro client ⟨hidle, hread⟩
  refine ⟨h.flight, h.limit, h.arrived, ?_, ?_, ?_⟩
  · intro other
    by_cases hother : other = addr
    · subst hother
      simp only [Function.update_self]
      exact hidle
    · simp only [Function.update_of_ne hother]
      exact h.idle other
  · obtain ⟨taken, hsplit, hserver⟩ := h.server
    have hpop := split_pop addr hsplit
    rw [if_neg haddr.symm] at hpop
    exact ⟨taken, hpop, hserver⟩
  · intro other hother
    by_cases hsame : other = addr
    · subst hsame
      refine ⟨taken ++ (net.queue other).head?.toList, ?_, ?_⟩
      · have hpop := split_pop other hsplit
        rw [if_pos rfl] at hpop
        exact hpop
      · simp only [Function.update_self]
        rw [hread, hmessages, payloads_append]
        congr 1
        cases (net.queue other).head? with
        | none => rfl
        | some d => rfl
    · obtain ⟨taken, hsplit, hclient⟩ := h.clients other hother
      have hpop := split_pop addr hsplit
      rw [if_neg hsame] at hpop
      refine ⟨taken, hpop, ?_⟩
      simp only [Function.update_of_ne hsame]
      exact hclient

theorem Delivered.step (h : Delivered net) (hlimit : net.limit ≤ Buffer.extraSize)
    (event : Event α) :
    Holds (net.step event) (fun net' => Delivered net' ∧ net'.limit = net.limit)
      (fun _ => False) := by
  have hsend : ∀ d, (net.send d).limit = net.limit := by
    intro d
    unfold DgramNet.send
    split <;> rfl
  cases event with
  | clientSend addr message =>
      simp only [DgramNet.step]
      split
      · exact ⟨h, rfl⟩
      · exact ⟨h.send _, hsend _⟩
  | serverSend clientAddr message => exact ⟨h.send _, hsend _⟩
  | foreignSend source dest message =>
      simp only [DgramNet.step]
      split
      · exact ⟨h, rfl⟩
      · exact ⟨h.send _, hsend _⟩
  | deliver i =>
      simp only [DgramNet.step]
      split
      · exact ⟨h, rfl⟩
      · rename_i d hget
        refine ⟨h.receive (h.flight d (List.mem_of_getElem? hget)), ?_⟩
        unfold DgramNet.receive
        split <;> rfl
  | lose i =>
      refine ⟨⟨?_, h.limit, h.arrived, h.idle, h.server, h.clients⟩, rfl⟩
      exact fun d hd => h.flight d (List.mem_of_mem_eraseIdx hd)
  | clientRead addr =>
      simp only [DgramNet.step]
      split
      · exact ⟨h, rfl⟩
      · rename_i haddr
        refine (h.clientRead hlimit haddr).bind ?_
        exact fun client hclient => ⟨hclient, rfl⟩
  | serverRead => exact ⟨h.serverRead, rfl⟩

/-- Each end gets the datagrams that came to it, one at a time and in the order in which they came:
the client whole, the server cut to its array. -/
theorem datagrams_run (serverAddr : α) (hlimit : limit ≤ Buffer.extraSize)
    (events : List (Event α)) :
    Holds (Machine.run DgramNet.step (DgramNet.init serverAddr limit) events) Delivered
      (fun _ => False) := by
  have hstep : ∀ net (event : Event α), True → Delivered net ∧ net.limit ≤ Buffer.extraSize →
      Holds (DgramNet.step net event)
        (fun net' => Delivered net' ∧ net'.limit ≤ Buffer.extraSize) fun _ => False := by
    rintro net event - ⟨h, hlimit⟩
    refine (h.step hlimit event).imp ?_
    rintro net' ⟨h', hsame⟩
    exact ⟨h', by rw [hsame]; exact hlimit⟩
  have hstart : Delivered (DgramNet.init serverAddr limit) ∧ limit ≤ Buffer.extraSize :=
    ⟨Delivered.init serverAddr, hlimit⟩
  exact (holds_run hstep (fun _ _ => trivial) hstart).imp fun net hnet => hnet.1

/-- A request comes twice and its answer after an empty datagram. -/
def askTwice : List (Event Nat) :=
  [.clientSend 7 [1, 2], .deliver 0, .deliver 0, .lose 0, .serverRead, .serverRead,
    .serverSend 7 [], .serverSend 7 [3], .deliver 0, .deliver 1, .clientRead 7, .clientRead 7,
    .clientRead 7]

theorem datagrams_run_askTwice : ∃ net,
    Machine.run step (init 0 65507) askTwice = .ok net ∧
      net.server.messages = [(7, [1, 2]), (7, [1, 2])] ∧ (net.clients 7).messages = [[3]] ∧
        net.Delivered := by
  obtain ⟨net, hrun, hserver, hclient⟩ : ∃ net,
      Machine.run step (init 0 65507) askTwice = .ok net ∧
        net.server.messages = [(7, [1, 2]), (7, [1, 2])] ∧ (net.clients 7).messages = [[3]] := by
    apply Holds.returns
    decide +kernel
  refine ⟨net, hrun, hserver, hclient, ?_⟩
  exact (datagrams_run 0 (by decide) askTwice).of_ok hrun

end DgramNet

/-! ### The listener of a group -/

/-- `UdpMultiCastListener.cpp` and the `Socket::recvfrom` it calls, with the datagrams that have
come to its socket and those of them that have not been read. -/
structure UdpMultiCastListener (α : Type) where
  queue : List (Datagram α)
  messages : List (α × Bytes)
  arrived : List (Datagram α)

namespace UdpMultiCastListener

variable {α : Type} {l l' : UdpMultiCastListener α}

def init : UdpMultiCastListener α := ⟨[], [], []⟩

inductive Event (α : Type) where
  | arrive (d : Datagram α)
  | handleRead
deriving DecidableEq, Repr

/-- What `recvfrom` returns and leaves in `buf`. That it copies the 16 bytes of a `sockaddr` as a
`sockaddr_un` is not modelled. -/
def recvfrom (received : Option (Datagram α)) : Except Fault (Int × Bytes) := do
  let cbuf := (received.elim [] Datagram.payload).take kMsgBufSize
  let bytes : Int := if received.isNone then -1 else cbuf.length
  -- before the sign of `bytes` is looked at
  let _ ← resize [] (toSize bytes)
  return (bytes, cbuf)

def handleRead (l : UdpMultiCastListener α) : Except Fault (UdpMultiCastListener α) := do
  let (n, buf) ← recvfrom l.queue.head?
  let messages := if 0 < n then l.queue.head?.toList.map fun d => (d.source, buf) else []
  return { l with queue := l.queue.tail, messages := l.messages ++ messages }

def step (l : UdpMultiCastListener α) : Event α → Except Fault (UdpMultiCastListener α)
  | .arrive d => .ok { l with queue := l.queue ++ [d], arrived := l.arrived ++ [d] }
  | .handleRead => l.handleRead

/-- There is something to read. -/
def Ready (l : UdpMultiCastListener α) (event : Event α) : Prop :=
  event = .handleRead → l.queue ≠ []

instance [DecidableEq α] (l : UdpMultiCastListener α) (event : Event α) :
    Decidable (l.Ready event) :=
  inferInstanceAs (Decidable (_ → _))

def Heard (l : UdpMultiCastListener α) : Prop :=
  ∃ taken, l.arrived = taken ++ l.queue ∧ l.messages = DgramNet.cut taken

theorem recvfrom_none : recvfrom (none : Option (Datagram α)) = .error .lengthError := by
  rfl

theorem recvfrom_some (d : Datagram α) : recvfrom (some d) =
    .ok ((d.payload.take kMsgBufSize).length, d.payload.take kMsgBufSize) := by
  have hlength : (d.payload.take kMsgBufSize).length ≤ kMsgBufSize := by
    rw [List.length_take]
    exact Nat.min_le_left _ _
  simp only [kMsgBufSize] at hlength
  have hsize : toSize ((d.payload.take 4096).length : Int) ≤ maxSize := by
    rw [toSize_of_nonneg (by omega) (by omega), Int.toNat_natCast, maxSize]
    omega
  simp only [recvfrom, kMsgBufSize, Option.elim_some, Option.isNone_some, Bool.false_eq_true,
    if_false, resize, if_pos hsize, ok_bind]
  rfl

theorem Heard.handleRead (h : Heard l) (hqueue : l.queue ≠ []) :
    Holds l.handleRead Heard (fun _ => False) := by
  obtain ⟨taken, hsplit, hmessages⟩ := h
  obtain ⟨d, rest, hcons⟩ := List.exists_cons_of_ne_nil hqueue
  rw [UdpMultiCastListener.handleRead, hcons, List.head?_cons, recvfrom_some]
  refine ⟨taken ++ [d], ?_, ?_⟩
  · rw [hsplit, hcons, List.append_assoc]
    rfl
  · rw [hmessages, DgramNet.cut_append]
    by_cases hpos : 0 < d.payload.length
    · have htake : 0 < min kMsgBufSize d.payload.length := by
        simp only [kMsgBufSize]
        omega
      rw [← List.length_take] at htake
      simp only [Int.natCast_pos.mpr htake, if_true, DgramNet.cut, Option.toList_some,
        List.map_cons, List.map_nil, List.filter_cons, List.filter_nil, hpos, decide_true]
    · have htake : ¬ 0 < min kMsgBufSize d.payload.length := by omega
      rw [← List.length_take, ← Int.natCast_pos] at htake
      simp only [if_neg htake, DgramNet.cut, List.filter_cons, List.filter_nil, hpos, decide_false,
        Bool.false_eq_true, if_false, List.map_nil]

theorem handleRead_nil (hqueue : l.queue = []) : l.handleRead = .error .lengthError := by
  rw [UdpMultiCastListener.handleRead, hqueue, List.head?_nil, recvfrom_none]
  rfl

theorem Heard.step {event : Event α} (h : Heard l) (hready : l.Ready event) :
    Holds (l.step event) Heard (fun _ => False) := by
  cases event with
  | arrive d =>
      obtain ⟨taken, hsplit, hmessages⟩ := h
      refine ⟨taken, ?_, hmessages⟩
      rw [hsplit, List.append_assoc]
  | handleRead => exact h.handleRead (hready rfl)

/-- As long as there is something to read whenever it is woken, the listener hears what the server
would, and otherwise an exception is thrown. -/
theorem heard_run {events : List (Event α)} :
    Holds (Machine.run step init events) Heard (fun _ => False) ↔
      Always step Ready init events := by
  have hinit : Heard (init : UdpMultiCastListener α) := ⟨[], rfl, rfl⟩
  have hiff : Holds (Machine.run step init events) (fun _ => True) (fun _ => False) ↔
      Always step Ready init events := by
    apply holds_iff_always (fun l (_ : Heard l) => trivial)
    · exact fun _ _ _ _ _ => trivial
    · exact fun l event h hready => h.step hready
    · rintro l event l' - hnext - rfl hqueue
      rw [UdpMultiCastListener.step, handleRead_nil hqueue] at hnext
      cases hnext
    · exact hinit
  constructor
  · exact fun h => hiff.mp (h.imp fun _ _ => trivial)
  · exact holds_of_always (fun l event (_ : True) h hready => h.step hready) (fun _ _ => trivial)
      hinit

end UdpMultiCastListener

end ToyBasket
