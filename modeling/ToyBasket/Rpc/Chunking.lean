import ToyBasket.Rpc.Server
import ToyBasket.Rpc.Channel
import ToyBasket.Rpc.MetaMessage

/-!
# Framing does not depend on the reads

A connection reads what the socket has, appends it to its input buffer and calls `onMessage` once.
However the stream is cut into reads, the same frames are handled and the same bytes are left.
-/

namespace ToyBasket

open Words Outcome Drain

section Received

variable {σ ω : Type}

/-- Successive reads by `readFd`, each followed by one run of the loop, which is left. -/
inductive Received (body : Body Fault ω (σ × Buffer)) :
    σ × Buffer → List Bytes → List ω → σ × Buffer → Prop where
  | nil (p : σ × Buffer) : Received body p [] [] p
  | cons {s : σ} {buff buff' : Buffer} {t u : σ × Buffer} {chunk : Bytes} {chunks : List Bytes}
      {outs outs' : List ω} {fuel : Nat} :
      buff.readFd (some chunk) = .ok buff' → loop body fuel (s, buff') = .ok (some (outs, t)) →
      Received body t chunks outs' u →
      Received body (s, buff) (chunk :: chunks) (outs ++ outs') u

variable {body : Body Fault ω (σ × Buffer)} {body' : Body Fault ω (σ × Bytes)}
  {p t u : σ × Buffer} {chunks chunks' : List Bytes} {outs outs' : List ω}

def Readable (chunks : List Bytes) : Prop := ∀ chunk ∈ chunks, chunk.length < 2 ^ 63

abbrev appendBytes (p : σ × Bytes) (more : Bytes) : σ × Bytes := (p.1, p.2 ++ more)

abbrev viewBytes : σ × Buffer → σ × Bytes := Prod.map id Buffer.readable

theorem Received.fed (hviews : Views viewBytes (fun p => p.2.WellFormed) body body')
    (hp : p.2.WellFormed) (hsizes : Readable chunks) (h : Received body p chunks outs t) :
    Fed appendBytes body' (viewBytes p) chunks outs (viewBytes t) := by
  induction h with
  | nil p => exact .nil _
  | @cons s buff buff' t u chunk chunks outs outs' fuel hread hloop _ ih =>
      have hchunk := hsizes chunk List.mem_cons_self
      have hholds : Holds (buff.readFd (some chunk)) _ _ :=
        Buffer.readFd_holds hp (Nat.le_of_lt hchunk)
      have hbecomes := (hholds.of_ok hread).1
      obtain ⟨hleaves, ht⟩ := hviews.leaves hbecomes.wellFormed (leaves_of_loop hloop)
      have hview : viewBytes (s, buff') = appendBytes (viewBytes (s, buff)) chunk := by
        simp [hbecomes.readable_eq]
      rw [hview] at hleaves
      exact .cons hleaves (ih ht fun chunk' hmem => hsizes chunk' (List.mem_cons_of_mem _ hmem))

theorem Received.unique (hviews : Views viewBytes (fun p => p.2.WellFormed) body body')
    (hstable : Stable appendBytes body') (hp : p.2.WellFormed)
    (hwait : body' (viewBytes p) = .ok none) (hsizes : Readable chunks) (hsizes' : Readable chunks')
    (h : Received body p chunks outs t) (h' : Received body p chunks' outs' u)
    (hflatten : chunks.flatten = chunks'.flatten) :
    outs = outs' ∧ viewBytes t = viewBytes u :=
  (h.fed hviews hp hsizes).unique hstable (by simp) (by simp) hwait (h'.fed hviews hp hsizes')
    hflatten

end Received

/-- However the same stream is cut into reads, `onMessage` of the server makes the same calls, and
that of the channel handles the same frames with the same answers, and the same bytes are left. -/
theorem chunking_irrelevant {σ R D : Type} {c : MetaCodec} {buff : Buffer}
    {chunks chunks' : List Bytes} (hbuff : buff.WellFormed)
    (hwait : readFrame c buff.readable = .ok none)
    (hsizes : Readable chunks) (hsizes' : Readable chunks')
    (hflatten : chunks.flatten = chunks'.flatten) :
    (∀ (proc : σ → ProcCall → Except Fault σ) (s : σ) (calls calls' : List ProcCall)
      (t t' : σ × Buffer),
      Received (RpcServer.onMessageRound c proc) (s, buff) chunks calls t →
      Received (RpcServer.onMessageRound c proc) (s, buff) chunks' calls' t' →
      calls = calls' ∧ t.2.readable = t'.2.readable) ∧
    (∀ (channel : RpcChannel R D) (handled handled' : List (RpcChannel.Handled R D))
      (t t' : RpcChannel R D × Buffer),
      Received (RpcChannel.onMessageRound c fun channel _ => .ok channel) (channel, buff) chunks
        handled t →
      Received (RpcChannel.onMessageRound c fun channel _ => .ok channel) (channel, buff) chunks'
        handled' t' →
      handled = handled' ∧ t.2.readable = t'.2.readable) := by
  refine ⟨?_, ?_⟩
  · intro proc s calls calls' t t' h h'
    obtain ⟨houts, hview⟩ := h.unique (RpcServer.onMessageRound_views c proc)
      (RpcServer.onMessageRound_stable c proc) hbuff (bytesRound_eq_none hwait) hsizes hsizes' h'
      hflatten
    exact ⟨houts, congrArg Prod.snd hview⟩
  · intro channel handled handled' t t' h h'
    obtain ⟨houts, hview⟩ := h.unique (RpcChannel.onMessageRound_views c _)
      (RpcChannel.onMessageRound_stable c _) hbuff (bytesRound_eq_none hwait) hsizes hsizes' h'
      hflatten
    exact ⟨houts, congrArg Prod.snd hview⟩

/-! ### A frame in one read or in two -/

/-- An input buffer with room for 16 bytes that has received a frame without meta and one more byte,
up to `writerIndex`. -/
def inputBuffer (readerIndex writerIndex : Nat) : Buffer where
  buffer := List.replicate 12 0 ++ [1] ++ List.replicate 11 0
  readerIndex := readerIndex
  writerIndex := writerIndex

def emptyCall : ProcCall where
  id := 0
  serviceId := []
  methodId := []
  data := []

def recordCall (calls : List ProcCall) (call : ProcCall) : Except Fault (List ProcCall) :=
  .ok (calls ++ [call])

abbrev recordingRound : Body Fault ProcCall (List ProcCall × Buffer) :=
  RpcServer.onMessageRound RpcMetaMessage.pbCodec recordCall

theorem received_inOneRead : Received recordingRound ([], Buffer.empty 16) [[0, 0, 0, 0, 1]]
    [emptyCall] ([emptyCall], inputBuffer 12 13) := by
  have hread : (Buffer.empty 16).readFd (some [0, 0, 0, 0, 1]) = .ok (inputBuffer 8 13) := rfl
  have hloop : loop recordingRound 2 ([], inputBuffer 8 13)
      = .ok (some ([emptyCall], [emptyCall], inputBuffer 12 13)) := rfl
  exact .cons hread hloop (.nil _)

theorem received_inTwoReads : ∃ buff, Received recordingRound ([], Buffer.empty 16)
    [[0, 0], [0, 0, 1]] [emptyCall] ([emptyCall], buff) := by
  have hread : (Buffer.empty 16).readFd (some [0, 0])
      = .ok { Buffer.empty 16 with writerIndex := 10 } := rfl
  have hloop : loop recordingRound 1 ([], { Buffer.empty 16 with writerIndex := 10 })
      = .ok (some ([], [], { Buffer.empty 16 with writerIndex := 10 })) := rfl
  have hread' : { Buffer.empty 16 with writerIndex := 10 }.readFd (some [0, 0, 1])
      = .ok (inputBuffer 8 13) := rfl
  have hloop' : loop recordingRound 2 ([], inputBuffer 8 13)
      = .ok (some ([emptyCall], [emptyCall], inputBuffer 12 13)) := rfl
  exact ⟨_, .cons hread hloop (.cons hread' hloop' (.nil _))⟩

theorem chunking_irrelevant_oneFrame :
    ∃ buff buff', Received recordingRound ([], Buffer.empty 16) [[0, 0, 0, 0, 1]] [emptyCall]
        ([emptyCall], buff) ∧
      Received recordingRound ([], Buffer.empty 16) [[0, 0], [0, 0, 1]] [emptyCall]
        ([emptyCall], buff') ∧
      buff.readable = buff'.readable := by
  obtain ⟨buff', h'⟩ := received_inTwoReads
  have h := received_inOneRead
  refine ⟨_, buff', h, h', ?_⟩
  have hwait : readFrame RpcMetaMessage.pbCodec (Buffer.empty 16).readable = .ok none := by
    rw [Buffer.readable_empty]
    rfl
  have hflatten : ([[0, 0, 0, 0, 1]] : List Bytes).flatten = [[0, 0], [0, 0, 1]].flatten := rfl
  exact ((@chunking_irrelevant (List ProcCall) Unit Unit _ _ _ _
    (Buffer.empty_wellFormed (by decide)) hwait (by simp [Readable]) (by simp [Readable])
      hflatten).1 recordCall [] _ _ _ _ h h').2

end ToyBasket
