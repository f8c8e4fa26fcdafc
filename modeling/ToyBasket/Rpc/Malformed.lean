import ToyBasket.Rpc.Server
import ToyBasket.Rpc.Channel
import ToyBasket.Rpc.MetaMessage

/-!
# Malformed input

The prefix and the size in the meta are signed and come from the other side. Both `onMessage`
compare them with sizes, which are unsigned: a prefix of -4 to -1 passes the readiness test, and a
size that is negative or makes the sum wrap passes the length test although the payload is not
there.
-/

namespace ToyBasket

open Words Outcome Drain

/-- A head at which `onMessage` makes a string of a negative length or of bytes it does not have.
The size in the meta matters only if the payload is used. -/
structure BadHead (c : MetaCodec) (usesPayload : Prop) (bytes : Bytes) : Prop where
  some_follow : 4 < bytes.length
  bad : (-4 ≤ metaLength bytes ∧ metaLength bytes < 0) ∨
    (0 ≤ metaLength bytes ∧ metaLength bytes + 4 < bytes.length ∧ usesPayload ∧
      (((metaOf c bytes).dataSize.toInt < 0 ∧
          0 ≤ 4 + metaLength bytes + (metaOf c bytes).dataSize.toInt ∧
          4 + metaLength bytes + (metaOf c bytes).dataSize.toInt < 2 ^ 31) ∨
        (2 ^ 32 ≤ 4 + metaLength bytes + (metaOf c bytes).dataSize.toInt ∧
          bytes.length < 4 + metaLength bytes + (metaOf c bytes).dataSize.toInt)))

/-- Going through the bytes frame by frame, with the state of the side that reads them, one comes to
a bad head. -/
inductive MeetsBadHead {σ : Type} (c : MetaCodec) (usesPayload : σ → RpcMeta → Prop)
    (next : σ → RpcMeta → σ) : σ → Bytes → Prop where
  | here {s : σ} {bytes : Bytes} :
      BadHead c (usesPayload s (metaOf c bytes)) bytes → MeetsBadHead c usesPayload next s bytes
  | later {s : σ} {bytes : Bytes} {frame : Frame} :
      readFrame c bytes = .ok (some frame) → ¬ BadHead c (usesPayload s (metaOf c bytes)) bytes →
      MeetsBadHead c usesPayload next (next s frame.metaProto) (bytes.drop frame.length) →
      MeetsBadHead c usesPayload next s bytes

section Head

variable {c : MetaCodec} {bytes : Bytes} {frame : Frame} {fault : Fault} {usesPayload : Prop}

theorem readFrame_error_iff :
    (∃ fault, readFrame c bytes = .error fault) ↔
      4 < bytes.length ∧ -4 ≤ metaLength bytes ∧ metaLength bytes < 0 := by
  unfold readFrame
  constructor
  · rintro ⟨fault, h⟩
    simp only at h
    split at h
    · cases h
    · split at h
      · omega
      · split at h
        · cases h
        · cases h
  · rintro ⟨hlen, hlow, hneg⟩
    refine ⟨.lengthError, ?_⟩
    simp only
    rw [if_neg (by omega), if_pos hneg]

theorem readPayload_error_iff (hframe : readFrame c bytes = .ok (some frame)) :
    (∃ fault, readPayload bytes frame = .error fault) ↔
      frame.metaProto.dataSize.toInt < 0 ∨
        (bytes.length : Int) < 4 + metaLength bytes + frame.metaProto.dataSize.toInt := by
  obtain ⟨-, hnonneg, -, -, -, rfl⟩ := readFrame_eq_some hframe
  unfold readPayload
  simp only
  constructor
  · rintro ⟨fault, h⟩
    split at h
    · exact .inl (by assumption)
    · split at h
      · cases h
      · exact .inr (by omega)
  · intro h
    split
    · exact ⟨_, rfl⟩
    · rw [if_neg (by omega)]
      exact ⟨_, rfl⟩

/-- What the length test lets through although the payload is missing. -/
theorem badHead_iff_of_readFrame (hframe : readFrame c bytes = .ok (some frame)) :
    BadHead c usesPayload bytes ↔
      usesPayload ∧ ∃ fault, readPayload bytes frame = .error fault := by
  rw [readPayload_error_iff hframe]
  obtain ⟨hlen, hnonneg, hready, hlength, hfits, rfl⟩ := readFrame_eq_some hframe
  have hlow := (metaOf c bytes).dataSize.le_toInt
  have hhigh := (metaOf c bytes).dataSize.toInt_lt
  have hprefix : metaLength bytes < 2 ^ 31 := (toInt32_bounds _).2
  simp only
  unfold toInt32 at hlength hfits
  constructor
  · rintro ⟨-, hbad⟩
    obtain hbad | ⟨-, -, huses, hbad⟩ := hbad
    · omega
    · exact ⟨huses, by omega⟩
  · rintro ⟨huses, hbad⟩
    exact ⟨hlen, .inr ⟨hnonneg, hready, huses, by omega⟩⟩

end Head

/-! ### The rounds of the loop -/

/-- How a side handles a frame: it looks at the payload in some states, and goes on in a state that
does not depend on it. -/
structure UsesPayload {σ ω : Type} (handle : σ → Bytes → Frame → Except Fault (ω × σ))
    (usesPayload : σ → RpcMeta → Prop) (next : σ → RpcMeta → σ) : Prop where
  faults : ∀ s bytes frame fault, usesPayload s frame.metaProto →
    readPayload bytes frame = .error fault → handle s bytes frame = .error fault
  reads : ∀ s bytes frame data, usesPayload s frame.metaProto → readPayload bytes frame = .ok data →
    ∃ out, handle s bytes frame = .ok (out, next s frame.metaProto)
  skips : ∀ s bytes frame, ¬ usesPayload s frame.metaProto →
    ∃ out, handle s bytes frame = .ok (out, next s frame.metaProto)

section Rounds

variable {σ ω : Type} {c : MetaCodec} {handle : σ → Bytes → Frame → Except Fault (ω × σ)}
  {usesPayload : σ → RpcMeta → Prop} {next : σ → RpcMeta → σ} {s : σ} {bytes : Bytes}

theorem bytesRound_error_iff (h : UsesPayload handle usesPayload next) :
    (∃ fault, bytesRound c handle (s, bytes) = .error fault) ↔
      BadHead c (usesPayload s (metaOf c bytes)) bytes := by
  cases hframe : readFrame c bytes with
  | error fault =>
      obtain ⟨hlen, hlow, hneg⟩ := readFrame_error_iff.mp ⟨fault, hframe⟩
      constructor
      · intro _
        exact ⟨hlen, .inl ⟨hlow, hneg⟩⟩
      · intro _
        refine ⟨fault, ?_⟩
        simp only [bytesRound, hframe]
        rfl
  | ok read =>
      cases read with
      | none =>
          rw [bytesRound_eq_none hframe]
          constructor
          · rintro ⟨fault, hfault⟩
            cases hfault
          · rintro ⟨hlen, hbad⟩
            unfold readFrame at hframe
            simp only at hframe
            have hlow := (metaOf c bytes).dataSize.le_toInt
            have hhigh := (metaOf c bytes).dataSize.toInt_lt
            have hprefix : metaLength bytes < 2 ^ 31 := (toInt32_bounds _).2
            unfold toInt32 at hframe
            split at hframe
            · omega
            · split at hframe
              · cases hframe
              · split at hframe
                · omega
                · cases hframe
      | some frame =>
          rw [badHead_iff_of_readFrame hframe]
          have hmeta : frame.metaProto = metaOf c bytes := by
            obtain ⟨-, -, -, -, -, rfl⟩ := readFrame_eq_some hframe
            rfl
          rw [← hmeta]
          by_cases huses : usesPayload s frame.metaProto
          · cases hdata : readPayload bytes frame with
            | error fault =>
                have hfault := h.faults s bytes frame fault huses hdata
                refine ⟨fun _ => ⟨huses, fault, rfl⟩, fun _ => ⟨fault, ?_⟩⟩
                simp only [bytesRound, hframe, ok_bind, hfault]
                rfl
            | ok data =>
                obtain ⟨out, hout⟩ := h.reads s bytes frame data huses hdata
                rw [bytesRound_eq_some hframe hout]
                constructor
                · rintro ⟨fault, hfault⟩
                  cases hfault
                · rintro ⟨-, fault, hfault⟩
                  cases hfault
          · obtain ⟨out, hout⟩ := h.skips s bytes frame huses
            rw [bytesRound_eq_some hframe hout]
            constructor
            · rintro ⟨fault, hfault⟩
              cases hfault
            · rintro ⟨hcontra, -⟩
              exact absurd hcontra huses

theorem next_of_bytesRound (h : UsesPayload handle usesPayload next) {out : ω} {s' : σ}
    {rest : Bytes} (hround : bytesRound c handle (s, bytes) = .ok (some (out, s', rest))) :
    ∃ frame, readFrame c bytes = .ok (some frame) ∧ s' = next s frame.metaProto ∧
      rest = bytes.drop frame.length := by
  obtain ⟨frame, hframe, hresult, rfl⟩ := readFrame_of_bytesRound hround
  refine ⟨frame, hframe, ?_, rfl⟩
  by_cases huses : usesPayload s frame.metaProto
  · cases hdata : readPayload bytes frame with
    | error fault =>
        rw [h.faults s bytes frame fault huses hdata] at hresult
        cases hresult
    | ok data =>
        obtain ⟨out', hout⟩ := h.reads s bytes frame data huses hdata
        rw [hout] at hresult
        cases hresult
        rfl
  · obtain ⟨out', hout⟩ := h.skips s bytes frame huses
    rw [hout] at hresult
    cases hresult
    rfl

theorem loop_error_iff_meetsBadHead (h : UsesPayload handle usesPayload next) :
    (∃ fault, ∃ fuel, loop (bytesRound c handle) fuel (s, bytes) = .error fault) ↔
      MeetsBadHead c usesPayload next s bytes := by
  simp only [loop_error_iff]
  constructor
  · rintro ⟨fault, outs, t, hrounds, hfault⟩
    generalize hp : (s, bytes) = p at hrounds
    induction hrounds generalizing s bytes with
    | refl p =>
        subst hp
        exact .here ((bytesRound_error_iff h).mp ⟨fault, hfault⟩)
    | @step p p' t out outs hround _ ih =>
        subst hp
        obtain ⟨s', rest⟩ := p'
        obtain ⟨frame, hframe, rfl, rfl⟩ := next_of_bytesRound h hround
        refine .later hframe ?_ (ih hfault rfl)
        intro hbad
        obtain ⟨fault', hfault'⟩ := (bytesRound_error_iff h).mpr hbad
        rw [hfault'] at hround
        cases hround
  · intro hmeets
    induction hmeets with
    | here hbad =>
        obtain ⟨fault, hfault⟩ := (bytesRound_error_iff h).mpr hbad
        exact ⟨fault, [], _, .refl _, hfault⟩
    | @later s bytes frame hframe hgood _ ih =>
        obtain ⟨fault, outs, t, hrounds, hfault⟩ := ih
        have hmeta : frame.metaProto = metaOf c bytes := by
          obtain ⟨-, -, -, -, -, rfl⟩ := readFrame_eq_some hframe
          rfl
        rw [badHead_iff_of_readFrame hframe, ← hmeta] at hgood
        have hstep : ∃ out, handle s bytes frame = .ok (out, next s frame.metaProto) := by
          by_cases huses : usesPayload s frame.metaProto
          · cases hdata : readPayload bytes frame with
            | error fault' => exact absurd ⟨huses, fault', hdata⟩ hgood
            | ok data => exact h.reads s bytes frame data huses hdata
          · exact h.skips s bytes frame huses
        obtain ⟨out, hout⟩ := hstep
        exact ⟨fault, out :: outs, t, .step (bytesRound_eq_some hframe hout) hrounds, hfault⟩

end Rounds

/-! ### The two sides -/

namespace RpcServer

theorem usesPayload_handleBytes :
    UsesPayload (handleBytes fun (_ : Unit) _ => .ok ()) (fun _ _ => True) (fun s _ => s) where
  faults := by
    intro s bytes frame fault _ hdata
    simp only [handleBytes, hdata]
    rfl
  reads := by
    intro s bytes frame data _ hdata
    refine ⟨callOf frame data, ?_⟩
    simp only [handleBytes, hdata]
    rfl
  skips := fun _ _ _ hnot => absurd trivial hnot

/-- What `ProcRpcData` does to the state of the server has no part in the loop. -/
theorem forget_views {σ : Type} (c : MetaCodec) (proc : σ → ProcCall → σ) :
    Views (fun p : σ × Bytes => ((), p.2)) (fun _ => True)
      (bytesRound c (handleBytes fun s call => .ok (proc s call)))
      (bytesRound c (handleBytes fun _ _ => .ok ())) where
  commutes := by
    rintro ⟨s, bytes⟩ -
    simp only [bytesRound, handleBytes]
    cases readFrame c bytes with
    | error fault => rfl
    | ok read =>
        cases read with
        | none => rfl
        | some frame =>
            simp only [ok_bind]
            cases readPayload bytes frame with
            | error fault => rfl
            | ok data => rfl
  keeps := fun _ _ _ _ _ => trivial

end RpcServer

namespace RpcChannel

variable {R D : Type}

/-- The id is outstanding and its response is not null. -/
def usesPayload (channel : RpcChannel R D) (metaProto : RpcMeta) : Prop :=
  (channel.take metaProto.id.toInt64.toInt).1.response ≠ none

def next (runDone : RpcChannel R D → D → RpcChannel R D) (channel : RpcChannel R D)
    (metaProto : RpcMeta) : RpcChannel R D :=
  let id := metaProto.id.toInt64.toInt
  match (channel.take id).1.response, (channel.take id).1.done with
  | some _, some done => runDone (channel.take id).2 done
  | _, _ => (channel.take id).2

theorem usesPayload_handleBytes (runDone : RpcChannel R D → D → RpcChannel R D) :
    UsesPayload (handleBytes fun channel done => .ok (runDone channel done)) usesPayload
      (next runDone) where
  faults := by
    intro channel bytes frame fault huses hdata
    obtain ⟨response, hresponse⟩ := Option.ne_none_iff_exists'.mp huses
    simp only [handleBytes, answerWith, hresponse, hdata]
    rfl
  reads := by
    intro channel bytes frame data huses hdata
    obtain ⟨response, hresponse⟩ := Option.ne_none_iff_exists'.mp huses
    refine ⟨{
      id := frame.metaProto.id.toInt64.toInt
      length := frame.length
      answer := some (response, (channel.take frame.metaProto.id.toInt64.toInt).1.done, data) }, ?_⟩
    simp only [handleBytes, answerWith, hresponse, hdata, next]
    cases (channel.take frame.metaProto.id.toInt64.toInt).1.done with
    | none => rfl
    | some done => rfl
  skips := by
    intro channel bytes frame hnot
    have hresponse := not_not.mp hnot
    refine ⟨{ id := frame.metaProto.id.toInt64.toInt, length := frame.length, answer := none }, ?_⟩
    simp only [handleBytes, answerWith, hresponse, next]

end RpcChannel

/-- Both `onMessage` stay within the readable bytes if and only if they come to no bad head. -/
theorem inRange_iff_not_meetsBadHead {σ R D : Type} {c : MetaCodec} {buff : Buffer}
    (hbuff : buff.WellFormed) :
    (∀ (proc : σ → ProcCall → σ) (s : σ),
      (∀ fuel fault,
        RpcServer.onMessage c (fun s call => .ok (proc s call)) fuel s buff ≠ .error fault) ↔
      ¬ MeetsBadHead c (fun (_ : Unit) _ => True) (fun s _ => s) () buff.readable) ∧
    (∀ (runDone : RpcChannel R D → D → RpcChannel R D) (channel : RpcChannel R D),
      (∀ fuel fault,
        RpcChannel.onMessage c (fun channel done => .ok (runDone channel done)) fuel channel buff
          ≠ .error fault) ↔
      ¬ MeetsBadHead c RpcChannel.usesPayload (RpcChannel.next runDone) channel buff.readable) := by
  refine ⟨?_, ?_⟩
  · intro proc s
    rw [← loop_error_iff_meetsBadHead RpcServer.usesPayload_handleBytes]
    have hviews := RpcServer.onMessageRound_views c fun s call => .ok (proc s call)
    have hforget := RpcServer.forget_views c proc
    have hfault : ∀ fault, (∃ fuel, RpcServer.onMessage c (fun s call => .ok (proc s call)) fuel s
        buff = .error fault) ↔ ∃ fuel, loop (bytesRound c (RpcServer.handleBytes fun _ _ => .ok ()))
          fuel ((), buff.readable) = .error fault := by
      intro fault
      exact (hviews.loop_error_iff hbuff).trans (hforget.loop_error_iff trivial)
    simp only [← hfault]
    push Not
    constructor
    · exact fun h fault fuel => h fuel fault
    · exact fun h fuel fault => h fault fuel
  · intro runDone channel
    rw [← loop_error_iff_meetsBadHead (RpcChannel.usesPayload_handleBytes runDone)]
    have hviews := RpcChannel.onMessageRound_views c fun channel done => .ok (runDone channel done)
    have hfault : ∀ fault, (∃ fuel, RpcChannel.onMessage c
        (fun channel done => .ok (runDone channel done)) fuel channel buff = .error fault) ↔
        ∃ fuel, loop (bytesRound c (RpcChannel.handleBytes
          fun channel done => .ok (runDone channel done))) fuel (channel, buff.readable)
            = .error fault := by
      intro fault
      exact hviews.loop_error_iff hbuff
    simp only [← hfault]
    push Not
    constructor
    · exact fun h fault fuel => h fuel fault
    · exact fun h fuel fault => h fault fuel

/-! ### A prefix of -1 -/

/-- The prefix -1 and one more byte. -/
def minusOne : Buffer where
  buffer := [0, 0, 0, 0, 0, 0, 0, 0, 255, 255, 255, 255, 0]
  readerIndex := 8
  writerIndex := 13

def emptyMeta : Buffer where
  buffer := [0, 0, 0, 0, 0, 0, 0, 0, 0, 0, 0, 0, 0]
  readerIndex := 8
  writerIndex := 13

theorem minusOne_wellFormed : minusOne.WellFormed where
  reader_le := by decide
  writer_le := by decide
  cheap_le := by decide
  size_le := by decide

theorem emptyMeta_wellFormed : emptyMeta.WellFormed where
  reader_le := by decide
  writer_le := by decide
  cheap_le := by decide
  size_le := by decide

theorem minusOne_lengthError :
    minusOne.WellFormed ∧
      RpcServer.onMessage RpcMetaMessage.pbCodec (fun (_ : Unit) _ => .ok ()) 1 () minusOne
        = .error .lengthError :=
  ⟨minusOne_wellFormed, by rfl⟩

theorem emptyMeta_readFrame : readFrame RpcMetaMessage.pbCodec emptyMeta.readable = .ok (some
    { metaProto := RpcMetaMessage.pbCodec.parse [], offset := 4, length := 4 }) := by
  have hlen : metaLength emptyMeta.readable = 0 := by decide
  have hlength : emptyMeta.readable.length = 5 := by decide
  have hparse : RpcMetaMessage.pbCodec.parse [] = RpcMetaMessage.defaultInstance.toRpcMeta := rfl
  simp [readFrame, hlen, hlength, metaOf, hparse, RpcMetaMessage.defaultInstance, toInt32]

theorem emptyMeta_not_meetsBadHead : ¬ MeetsBadHead RpcMetaMessage.pbCodec
    (fun (_ : Unit) _ => True) (fun s _ => s) () emptyMeta.readable := by
  intro h
  cases h with
  | here hbad =>
      have hnot := hbad.bad
      revert hnot
      decide
  | later hframe _ hrest =>
      rw [emptyMeta_readFrame] at hframe
      cases hframe
      cases hrest with
      | here hbad =>
          have hnot := hbad.some_follow
          revert hnot
          decide
      | later hframe _ _ => cases hframe

theorem inRange_iff_not_meetsBadHead_emptyMeta :
    ¬ ∃ fuel fault, RpcServer.onMessage RpcMetaMessage.pbCodec (fun (_ : Unit) _ => .ok ()) fuel ()
      emptyMeta = .error fault := by
  have hiff := inRange_iff_not_meetsBadHead (σ := Unit) (R := Unit) (D := Unit)
    (c := RpcMetaMessage.pbCodec) emptyMeta_wellFormed
  rintro ⟨fuel, fault, hfault⟩
  exact (hiff.1 (fun _ _ => ()) ()).mpr emptyMeta_not_meetsBadHead fuel fault hfault

end ToyBasket
