import ToyBasket.Rpc.Malformed

/-!
# Progress of the client's loop

A round of `RpcChannel::onMessage` takes `sizeof(int32_t) + len + data_size` bytes off the buffer,
and `data_size` is signed and comes from the other side. The sum can be 0. When the id is
outstanding the payload is made a string first, which refuses a negative length; when it is not,
nothing looks at `data_size`, no byte is taken, and the next round finds the same frame.
-/

namespace ToyBasket

open Words Outcome Drain

/-- A frame that is handled and takes nothing off the buffer. The second sum wraps to 0 as well, in
a buffer of more than 2 GiB. -/
structure StuckHead (c : MetaCodec) (usesPayload : Prop) (bytes : Bytes) : Prop where
  nonneg : 0 ≤ metaLength bytes
  ready : metaLength bytes + 4 < bytes.length
  stuck : (4 + metaLength bytes + (metaOf c bytes).dataSize.toInt = 0 ∧ ¬ usesPayload) ∨
    (4 + metaLength bytes + (metaOf c bytes).dataSize.toInt = 2 ^ 32 ∧
      (usesPayload → 2 ^ 32 ≤ bytes.length))

theorem stuckHead_iff {c : MetaCodec} {usesPayload : Prop} {bytes : Bytes} :
    StuckHead c usesPayload bytes ↔
      ∃ frame, readFrame c bytes = .ok (some frame) ∧ frame.length = 0 ∧
        ¬ BadHead c usesPayload bytes := by
  have hlow := (metaOf c bytes).dataSize.le_toInt
  have hhigh := (metaOf c bytes).dataSize.toInt_lt
  have hprefix : metaLength bytes < 2 ^ 31 := (toInt32_bounds _).2
  constructor
  · rintro ⟨hnonneg, hready, hstuck⟩
    have hlength : toInt32 (4 + metaLength bytes + (metaOf c bytes).dataSize.toInt) = 0 := by
      unfold toInt32
      omega
    refine ⟨{ metaProto := metaOf c bytes, offset := (metaLength bytes).toNat + 4, length := 0 },
      ?_, rfl, ?_⟩
    · simp only [readFrame, hlength]
      rw [if_neg (by omega), if_neg (by omega), if_neg (by omega), Int.toNat_zero]
    · rintro ⟨-, hbad⟩
      obtain hbad | ⟨-, -, huses, hbad⟩ := hbad
      · omega
      · obtain ⟨hsum, hnot⟩ | ⟨hsum, hfits⟩ := hstuck
        · exact hnot huses
        · have hlong := hfits huses
          omega
  · rintro ⟨frame, hframe, hzero, hgood⟩
    obtain ⟨hlen, hnonneg, hready, hlength, hfits, rfl⟩ := readFrame_eq_some hframe
    simp only at hzero
    refine ⟨hnonneg, hready, ?_⟩
    have hsum : 4 + metaLength bytes + (metaOf c bytes).dataSize.toInt = 0 ∨
        4 + metaLength bytes + (metaOf c bytes).dataSize.toInt = 2 ^ 32 := by
      unfold toInt32 at hzero hlength
      omega
    obtain hsum | hsum := hsum
    · refine .inl ⟨hsum, ?_⟩
      intro huses
      exact hgood ⟨hlen, .inr ⟨hnonneg, hready, huses, by omega⟩⟩
    · refine .inr ⟨hsum, ?_⟩
      intro huses
      by_contra hshort
      exact hgood ⟨hlen, .inr ⟨hnonneg, hready, huses, by omega⟩⟩

namespace RpcChannel

variable {R D : Type}

/-- The channel after a frame whose payload is there, with the closure that may fault. -/
def nextChannel (runDone : RpcChannel R D → D → Except Fault (RpcChannel R D))
    (channel : RpcChannel R D) (metaProto : RpcMeta) : Except Fault (RpcChannel R D) :=
  let id := metaProto.id.toInt64.toInt
  match (channel.take id).1.response, (channel.take id).1.done with
  | some _, some done => runDone (channel.take id).2 done
  | _, _ => .ok (channel.take id).2

/-- Going through the bytes frame by frame, with the calls outstanding at each, one comes to a frame
that takes nothing off the buffer. -/
inductive MeetsStuckHead (c : MetaCodec)
    (next : RpcChannel R D → RpcMeta → Except Fault (RpcChannel R D)) :
    RpcChannel R D → Bytes → Prop where
  | here {channel channel' : RpcChannel R D} {bytes : Bytes} :
      StuckHead c (channel.usesPayload (metaOf c bytes)) bytes →
      next channel (metaOf c bytes) = .ok channel' → MeetsStuckHead c next channel bytes
  | later {channel channel' : RpcChannel R D} {bytes : Bytes} {frame : Frame} :
      readFrame c bytes = .ok (some frame) →
      ¬ BadHead c (channel.usesPayload frame.metaProto) bytes →
      next channel frame.metaProto = .ok channel' →
      MeetsStuckHead c next channel' (bytes.drop frame.length) →
      MeetsStuckHead c next channel bytes

section Rounds

variable {c : MetaCodec} {runDone : RpcChannel R D → D → Except Fault (RpcChannel R D)}
  {channel channel' : RpcChannel R D} {bytes rest : Bytes} {frame : Frame}

theorem handleBytes_returns_iff :
    (∃ handled, handleBytes runDone channel bytes frame = .ok (handled, channel')) ↔
      (channel.usesPayload frame.metaProto → ∃ data, readPayload bytes frame = .ok data) ∧
        nextChannel runDone channel frame.metaProto = .ok channel' := by
  unfold handleBytes answerWith nextChannel usesPayload
  simp only
  cases hresponse : (channel.take frame.metaProto.id.toInt64.toInt).1.response with
  | none =>
      constructor
      · rintro ⟨handled, h⟩
        cases h
        exact ⟨fun hnot => absurd rfl hnot, rfl⟩
      · rintro ⟨-, h⟩
        cases h
        exact ⟨_, rfl⟩
  | some response =>
      cases hdata : readPayload bytes frame with
      | error fault =>
          constructor
          · rintro ⟨handled, h⟩
            cases h
          · rintro ⟨h, -⟩
            obtain ⟨data, hcontra⟩ := h nofun
            cases hcontra
      | ok data =>
          cases hdone : (channel.take frame.metaProto.id.toInt64.toInt).1.done with
          | none =>
              constructor
              · rintro ⟨handled, h⟩
                cases h
                exact ⟨fun _ => ⟨data, rfl⟩, rfl⟩
              · rintro ⟨-, h⟩
                cases h
                exact ⟨_, rfl⟩
          | some done =>
              simp only [ok_bind]
              constructor
              · rintro ⟨handled, h⟩
                obtain ⟨after, hrun, hafter⟩ := bind_eq_ok.mp h
                cases hafter
                exact ⟨fun _ => ⟨data, rfl⟩, hrun⟩
              · rintro ⟨-, h⟩
                simp only [h]
                exact ⟨_, rfl⟩

theorem not_badHead_iff_of_readFrame (hframe : readFrame c bytes = .ok (some frame))
    {usesPayload : Prop} : ¬ BadHead c usesPayload bytes ↔
      (usesPayload → ∃ data, readPayload bytes frame = .ok data) := by
  rw [badHead_iff_of_readFrame hframe]
  cases readPayload bytes frame with
  | error fault => simp
  | ok data => simp

/-- What a round that reaches `continue` does. -/
theorem bytesRound_returns_iff :
    (∃ handled, bytesRound c (handleBytes runDone) (channel, bytes)
        = .ok (some (handled, channel', rest))) ↔
      ∃ frame, readFrame c bytes = .ok (some frame) ∧
        ¬ BadHead c (channel.usesPayload frame.metaProto) bytes ∧
        nextChannel runDone channel frame.metaProto = .ok channel' ∧
        rest = bytes.drop frame.length := by
  constructor
  · rintro ⟨handled, h⟩
    obtain ⟨frame, hframe, hhandle, hrest⟩ := readFrame_of_bytesRound h
    obtain ⟨hpayload, hnext⟩ := handleBytes_returns_iff.mp ⟨handled, hhandle⟩
    exact ⟨frame, hframe, (not_badHead_iff_of_readFrame hframe).mpr hpayload, hnext, hrest⟩
  · rintro ⟨frame, hframe, hgood, hnext, rfl⟩
    have hpayload := (not_badHead_iff_of_readFrame hframe).mp hgood
    obtain ⟨handled, hhandle⟩ := handleBytes_returns_iff.mpr ⟨hpayload, hnext⟩
    exact ⟨handled, bytesRound_eq_some hframe hhandle⟩

theorem metaProto_of_readFrame (h : readFrame c bytes = .ok (some frame)) :
    frame.metaProto = metaOf c bytes := by
  obtain ⟨-, -, -, -, -, rfl⟩ := readFrame_eq_some h
  rfl

/-- The bytes left are fewer if and only if the length of the frame is not 0. -/
theorem length_drop_lt_iff (h : readFrame c bytes = .ok (some frame)) :
    (bytes.drop frame.length).length < bytes.length ↔ frame.length ≠ 0 := by
  have hlen := (readFrame_eq_some h).1
  rw [List.length_drop]
  omega

theorem decreases_iff : Decreases (fun p => p.2.length) (bytesRound c (handleBytes runDone))
    (channel, bytes) ↔ ¬ MeetsStuckHead c (nextChannel runDone) channel bytes := by
  constructor
  · intro hdec hmeets
    induction hmeets with
    | @here channel channel' bytes hstuck hnext =>
        obtain ⟨frame, hframe, hzero, hgood⟩ := stuckHead_iff.mp hstuck
        rw [← metaProto_of_readFrame hframe] at hgood hnext
        obtain ⟨handled, hround⟩ :=
          bytesRound_returns_iff.mpr ⟨frame, hframe, hgood, hnext, rfl⟩
        have hless := hdec [] _ _ _ (.refl _) hround
        exact (length_drop_lt_iff hframe).mp hless hzero
    | later hframe hgood hnext _ ih =>
        obtain ⟨handled, hround⟩ := bytesRound_returns_iff.mpr ⟨_, hframe, hgood, hnext, rfl⟩
        exact ih (hdec.next hround)
  · intro hnot outs t handled t' hrounds hround
    generalize hp : (channel, bytes) = p at hrounds
    induction hrounds generalizing channel bytes with
    | refl p =>
        subst hp
        obtain ⟨channel', rest⟩ := t'
        obtain ⟨frame, hframe, hgood, hnext, rfl⟩ := bytesRound_returns_iff.mp ⟨handled, hround⟩
        rw [length_drop_lt_iff hframe]
        intro hzero
        rw [metaProto_of_readFrame hframe] at hgood hnext
        exact hnot (.here (stuckHead_iff.mpr ⟨frame, hframe, hzero, hgood⟩) hnext)
    | @step p p' t out outs hfirst _ ih =>
        subst hp
        obtain ⟨channel', rest⟩ := p'
        obtain ⟨frame, hframe, hgood, hnext, rfl⟩ := bytesRound_returns_iff.mp ⟨out, hfirst⟩
        exact ih (fun hmeets => hnot (.later hframe hgood hnext hmeets)) hround rfl

end Rounds

/-- Each round of the loop that reaches `continue` has consumed a byte, and so the loop ends, if and
only if no frame that it comes to has length 0. -/
theorem onMessage_progress_iff {c : MetaCodec} {buff : Buffer} (hbuff : buff.WellFormed)
    (runDone : RpcChannel R D → D → Except Fault (RpcChannel R D)) (channel : RpcChannel R D) :
    (Decreases (fun p => p.2.readableBytes) (onMessageRound c runDone) (channel, buff) ∧
      ∃ fuel, onMessage c runDone fuel channel buff ≠ .ok none) ↔
      ¬ MeetsStuckHead c (nextChannel runDone) channel buff.readable := by
  have hmeasure : ∀ p : RpcChannel R D × Buffer, p.2.WellFormed →
      p.2.readableBytes = (Prod.map id Buffer.readable p).2.length :=
    fun p hp => hp.length_readable.symm
  have hview : Decreases (fun p => p.2.readableBytes) (onMessageRound c runDone) (channel, buff) ↔
      Decreases (fun p => p.2.length) (bytesRound c (handleBytes runDone))
        (channel, buff.readable) :=
    (onMessageRound_views c runDone).decreases_iff hmeasure hbuff
  rw [← decreases_iff]
  constructor
  · rintro ⟨hdec, -⟩
    exact hview.mp hdec
  · intro hdec
    exact ⟨hview.mpr hdec, (hview.mpr hdec).exists_fuel⟩

theorem emptyMeta_not_meetsStuckHead {runDone : RpcChannel R D → D → Except Fault (RpcChannel R D)}
    {channel : RpcChannel R D} :
    ¬ MeetsStuckHead RpcMetaMessage.pbCodec (nextChannel runDone) channel emptyMeta.readable := by
  intro h
  cases h with
  | here hstuck _ =>
      have hsum := hstuck.stuck
      have hparse : 4 + metaLength emptyMeta.readable +
          (metaOf RpcMetaMessage.pbCodec emptyMeta.readable).dataSize.toInt = 4 := by
        decide
      omega
  | later hframe _ _ hrest =>
      rw [emptyMeta_readFrame] at hframe
      cases hframe
      cases hrest with
      | here hstuck _ =>
          have hready := hstuck.ready
          revert hready
          decide
      | later hframe _ _ _ => cases hframe

theorem onMessage_progress_iff_emptyMeta :
    Decreases (fun p => p.2.readableBytes)
        (onMessageRound RpcMetaMessage.pbCodec fun _ _ => .ok init)
        ((init : RpcChannel Unit Unit), emptyMeta) ∧
      ∃ fuel, onMessage RpcMetaMessage.pbCodec (fun _ _ => .ok init) fuel
        (init : RpcChannel Unit Unit) emptyMeta ≠ .ok none :=
  (onMessage_progress_iff emptyMeta_wellFormed (fun _ _ => .ok init) init).mpr
    emptyMeta_not_meetsStuckHead

/-! ### A size of -15 -/

/-- A meta of 11 bytes, whose size field is -15, and one more byte. -/
def minusFifteen : Buffer where
  buffer := [0, 0, 0, 0, 0, 0, 0, 0, 0, 0, 0, 11, 32, 241, 255, 255, 255, 255, 255, 255, 255, 255,
    1, 0]
  readerIndex := 8
  writerIndex := 24

theorem minusFifteen_wellFormed : minusFifteen.WellFormed where
  reader_le := by decide
  writer_le := by decide
  cheap_le := by decide
  size_le := by decide

theorem minusFifteen_nextFrame : minusFifteen.nextFrame RpcMetaMessage.pbCodec = .ok (some
    { metaProto := { id := 0, server := [], method := [], dataSize := -15 }
      offset := 15
      length := 0 }) := by
  have hlen : metaLength minusFifteen.readable = 11 := by decide
  have hmeta : metaOf RpcMetaMessage.pbCodec minusFifteen.readable
      = { id := 0, server := [], method := [], dataSize := -15 } := by
    rw [metaOf, hlen]
    rfl
  have hsize : (-15 : Int32).toInt = -15 := by decide
  have hlength : minusFifteen.readable.length = 16 := by decide
  rw [Buffer.nextFrame_eq minusFifteen_wellFormed]
  simp [readFrame, hlen, hmeta, hsize, hlength, toInt32]

/-- Nothing was called, and the loop is never left. -/
theorem minusFifteen_loops :
    minusFifteen.WellFormed ∧
      ∀ fuel, onMessage RpcMetaMessage.pbCodec (fun channel _ => .ok channel) fuel
        (init : RpcChannel Unit Unit) minusFifteen = .ok none := by
  refine ⟨minusFifteen_wellFormed, ?_⟩
  have hstep : ∀ p : RpcChannel Unit Unit × Buffer, p = (init, minusFifteen) →
      ∃ handled p', onMessageRound RpcMetaMessage.pbCodec (fun channel _ => .ok channel) p
        = .ok (some (handled, p')) ∧ p' = (init, minusFifteen) := by
    rintro p rfl
    refine ⟨{ id := 0, length := 0, answer := none }, _, ?_, rfl⟩
    simp only [onMessageRound, frameRound, minusFifteen_nextFrame, ok_bind]
    rfl
  exact loop_eq_none hstep rfl

end RpcChannel

end ToyBasket
