import ToyBasket.Buffer

/-!
# What each buffer operation does to the readable bytes

One lemma for each operation of `Buffer`: from a well-formed buffer it ends in a well-formed buffer
whose readable bytes are the stated ones. The modular arithmetic disappears here, because a
well-formed vector is shorter than `2 ^ 63`, so nothing above this module sees an index.
-/

namespace ToyBasket

open Words Outcome

theorem length_copyTo {bytes data : Bytes} {pos : Nat} (h : pos + data.length ≤ bytes.length) :
    (copyTo bytes pos data).length = bytes.length := by
  simp only [copyTo, List.length_append, List.length_take, List.length_drop]
  omega

theorem resize_holds {bytes : Bytes} {n : Nat} (h : bytes.length ≤ n) :
    Holds (resize bytes n) (fun grown => grown = bytes ++ List.replicate (n - bytes.length) 0 ∧
      n ≤ maxSize) (fun fault => fault = .lengthError ∧ maxSize < n) := by
  unfold resize
  split
  · rename_i hn
    exact ⟨by rw [List.take_of_length_le h], hn⟩
  · rename_i hn
    exact ⟨rfl, by omega⟩

namespace Buffer

variable {b : Buffer}

theorem WellFormed.readableBytes_eq (h : b.WellFormed) :
    b.readableBytes = b.writerIndex - b.readerIndex :=
  sizeSub_of_le h.reader_le

theorem WellFormed.writableBytes_eq (h : b.WellFormed) :
    b.writableBytes = b.buffer.length - b.writerIndex :=
  sizeSub_of_le h.writer_le

theorem WellFormed.length_readable (h : b.WellFormed) : b.readable.length = b.readableBytes := by
  have hreader := h.reader_le
  have hwriter := h.writer_le
  rw [h.readableBytes_eq, readable, List.length_take, List.length_drop]
  omega

theorem WellFormed.readableBytes_lt (h : b.WellFormed) : b.readableBytes < 2 ^ 63 := by
  have hwriter := h.writer_le
  have hsize := h.size_le
  rw [h.readableBytes_eq]
  simp only [maxSize] at hsize
  omega

/-- A new buffer of a size the vector accepts. -/
def empty (initialSize : Nat) : Buffer where
  buffer := List.replicate (kCheapPrepend + initialSize) 0
  readerIndex := kCheapPrepend
  writerIndex := kCheapPrepend

theorem empty_wellFormed {initialSize : Nat} (h : kCheapPrepend + initialSize ≤ maxSize) :
    (empty initialSize).WellFormed where
  reader_le := Nat.le_refl _
  writer_le := by simp [empty]
  cheap_le := by simp [empty]
  size_le := by simpa [empty] using h

@[simp]
theorem readable_empty (initialSize : Nat) : (empty initialSize).readable = [] := by
  simp [empty, readable]

theorem new_eq_empty {initialSize : Nat} (h : kCheapPrepend + initialSize ≤ maxSize) :
    new initialSize = .ok (empty initialSize) := by
  have hsize := h
  simp only [maxSize] at hsize
  have hwell := empty_wellFormed h
  have hadd : sizeAdd kCheapPrepend initialSize = kCheapPrepend + initialSize :=
    sizeAdd_of_lt (by omega)
  have hresize : resize [] (kCheapPrepend + initialSize) = .ok (empty initialSize).buffer := by
    simp [resize, h, empty]
  have hreadable : (empty initialSize).readableBytes = 0 := by
    rw [← hwell.length_readable, readable_empty]
    rfl
  have hwritable : (empty initialSize).writableBytes = initialSize := by
    rw [hwell.writableBytes_eq]
    simp [empty]
  have hprependable : (empty initialSize).prependableBytes = kCheapPrepend := rfl
  have hb : (⟨(empty initialSize).buffer, kCheapPrepend, kCheapPrepend⟩ : Buffer)
      = empty initialSize := rfl
  simp only [new, hadd, hresize, ok_bind, hb, assert_bind hreadable, assert_bind hwritable,
    assert_bind hprependable]
  rfl

theorem eq_empty_of_new {initialSize : Nat} (h : new initialSize = .ok b)
    (hsize : kCheapPrepend + initialSize < 2 ^ 64) :
    b = empty initialSize ∧ kCheapPrepend + initialSize ≤ maxSize := by
  by_cases hmax : kCheapPrepend + initialSize ≤ maxSize
  · rw [new_eq_empty hmax] at h
    exact ⟨(Except.ok.inj h).symm, hmax⟩
  · have hadd : sizeAdd kCheapPrepend initialSize = kCheapPrepend + initialSize :=
      sizeAdd_of_lt hsize
    rw [new, hadd, resize, if_neg hmax] at h
    cases h

structure Becomes (before after : Buffer) (content : Bytes) (growth : Nat) : Prop where
  wellFormed : after.WellFormed
  readable_eq : after.readable = content
  size_le : after.buffer.length ≤ before.buffer.length + growth

theorem Becomes.trans {middle after : Buffer} {content content' : Bytes} {growth growth' : Nat}
    (h : Becomes b middle content growth) (h' : Becomes middle after content' growth') :
    Becomes b after content' (growth + growth') := by
  have hsize := h.size_le
  have hsize' := h'.size_le
  exact ⟨h'.wellFormed, h'.readable_eq, by omega⟩

def KeepsReserve (before after : Buffer) : Prop :=
  kCheapPrepend ≤ before.readerIndex → kCheapPrepend ≤ after.readerIndex

/-- The only fault of an operation that asks the vector for `growth` more bytes. -/
def Refused (b : Buffer) (growth : Nat) (fault : Fault) : Prop :=
  fault = .lengthError ∧ maxSize < b.buffer.length + growth

/-! ### Taking bytes away -/

theorem becomes_retrieveAll (h : b.WellFormed) : Becomes b b.retrieveAll [] 0 where
  wellFormed :=
    { reader_le := Nat.le_refl _
      writer_le := h.cheap_le
      cheap_le := h.cheap_le
      size_le := h.size_le }
  readable_eq := by simp [readable, retrieveAll]
  size_le := Nat.le_refl _

theorem keepsReserve_retrieveAll : KeepsReserve b b.retrieveAll :=
  fun _ => Nat.le_refl _

theorem retrieve_holds {len : Nat} (h : b.WellFormed) (hlen : len ≤ b.readableBytes) :
    Holds (b.retrieve len)
      (fun after => Becomes b after (b.readable.drop len) 0 ∧ KeepsReserve b after)
      (fun _ => False) := by
  have hreader := h.reader_le
  have hwriter := h.writer_le
  have hsize := h.size_le
  have hlt := h.readableBytes_lt
  simp only [maxSize] at hsize
  rw [retrieve, assert_bind hlen]
  by_cases hpart : len < b.readableBytes
  · have hmove : sizeAdd b.readerIndex len = b.readerIndex + len :=
      sizeAdd_of_lt (by omega)
    rw [h.readableBytes_eq] at hpart
    simp only [h.readableBytes_eq, hpart, if_true, holds_pure, hmove]
    refine ⟨⟨⟨?_, hwriter, h.cheap_le, h.size_le⟩, ?_, Nat.le_refl _⟩, fun hcheap => ?_⟩
    · change b.readerIndex + len ≤ b.writerIndex
      omega
    · simp only [readable, List.drop_take, List.drop_drop]
      congr 1
      omega
    · change kCheapPrepend ≤ b.readerIndex + len
      omega
  · have hall : b.readable.drop len = [] := by
      rw [List.drop_eq_nil_iff, h.length_readable]
      omega
    simp only [hpart, if_false, holds_pure, hall]
    exact ⟨becomes_retrieveAll h, keepsReserve_retrieveAll⟩

theorem retrieveUntil_holds {endIndex : Nat} (h : b.WellFormed) (hbegin : b.readerIndex ≤ endIndex)
    (hend : endIndex ≤ b.writerIndex) :
    Holds (b.retrieveUntil endIndex)
      (fun after => Becomes b after (b.readable.drop (endIndex - b.readerIndex)) 0 ∧
        KeepsReserve b after) (fun _ => False) := by
  have hwriter := h.writer_le
  have hsize := h.size_le
  simp only [maxSize] at hsize
  have hlen : sizeSub endIndex b.readerIndex = endIndex - b.readerIndex :=
    sizeSub_of_le hbegin
  rw [retrieveUntil, assert_bind hbegin, assert_bind hend, hlen]
  exact retrieve_holds h (by rw [h.readableBytes_eq]; omega)

theorem substr_of_le {offset len : Nat} (h : b.WellFormed) (hlen : offset + len ≤ b.readableBytes) :
    b.substr offset len = .ok ((b.readable.drop offset).take len) := by
  have hlt := h.readableBytes_lt
  rw [substr, if_neg (by simp only [maxSize]; omega), if_pos hlen]

theorem retrieveAsString_holds {len : Nat} (h : b.WellFormed) (hlen : len ≤ b.readableBytes) :
    Holds (b.retrieveAsString len)
      (fun result => result.1 = b.readable.take len ∧
        Becomes b result.2 (b.readable.drop len) 0 ∧ KeepsReserve b result.2)
      (fun _ => False) := by
  rw [retrieveAsString, assert_bind hlen, substr_of_le h (by omega)]
  refine (retrieve_holds h hlen).bind fun after hafter => ?_
  exact ⟨by simp, hafter⟩

theorem unwrite_holds {len : Nat} (h : b.WellFormed) (hlen : len ≤ b.readableBytes) :
    Holds (b.unwrite len)
      (fun after => Becomes b after (b.readable.take (b.readable.length - len)) 0 ∧
        KeepsReserve b after) (fun _ => False) := by
  have hreader := h.reader_le
  have hwriter := h.writer_le
  have hsize := h.size_le
  simp only [maxSize] at hsize
  have hlen' := hlen
  rw [h.readableBytes_eq] at hlen'
  have hback : sizeSub b.writerIndex len = b.writerIndex - len :=
    sizeSub_of_le (by omega)
  rw [unwrite, assert_bind hlen, hback, holds_pure]
  refine ⟨⟨⟨?_, ?_, h.cheap_le, h.size_le⟩, ?_, Nat.le_refl _⟩, id⟩
  · change b.readerIndex ≤ b.writerIndex - len
    omega
  · change b.writerIndex - len ≤ b.buffer.length
    omega
  · rw [h.length_readable, h.readableBytes_eq]
    simp only [readable, List.take_take]
    congr 1
    omega

/-! ### Adding bytes -/

theorem becomes_write_advance (data : Bytes) (h : b.WellFormed)
    (hfits : b.writerIndex + data.length ≤ b.buffer.length) :
    Becomes b { b.write data with writerIndex := b.writerIndex + data.length }
      (b.readable ++ data) 0 := by
  have hreader := h.reader_le
  have hwriter := h.writer_le
  have hlength : (b.write data).buffer.length = b.buffer.length := length_copyTo hfits
  refine ⟨⟨?_, ?_, hlength ▸ h.cheap_le, hlength ▸ h.size_le⟩, ?_, hlength.le⟩
  · change b.readerIndex ≤ b.writerIndex + data.length
    omega
  · change b.writerIndex + data.length ≤ (b.write data).buffer.length
    omega
  · simp only [readable, write, copyTo, List.append_assoc]
    rw [List.drop_append_of_le_length (by rw [List.length_take]; omega), List.drop_take,
      ← List.append_assoc, List.take_append_of_le_length]
    · rw [List.take_of_length_le]
      simp only [List.length_append, List.length_take, List.length_drop]
      omega
    · simp only [List.length_append, List.length_take, List.length_drop]
      omega

theorem write_hasWritten_eq {data : Bytes} (h : b.WellFormed)
    (hlen : data.length ≤ b.writableBytes) : (b.write data).hasWritten data.length
      = .ok { b.write data with writerIndex := b.writerIndex + data.length } := by
  have hwriter := h.writer_le
  have hsize := h.size_le
  simp only [maxSize] at hsize
  have hfits : b.writerIndex + data.length ≤ b.buffer.length := by
    rw [h.writableBytes_eq] at hlen
    omega
  have hroom : data.length ≤ (b.write data).writableBytes := by
    change data.length ≤ sizeSub (copyTo _ _ _).length b.writerIndex
    rwa [length_copyTo hfits]
  have hmove : sizeAdd (b.write data).writerIndex data.length = b.writerIndex + data.length :=
    sizeAdd_of_lt (by change b.writerIndex + data.length < 2 ^ 64; omega)
  rw [hasWritten, assert_bind hroom, hmove]
  rfl

theorem write_hasWritten_holds {data : Bytes} (h : b.WellFormed)
    (hlen : data.length ≤ b.writableBytes) :
    Holds ((b.write data).hasWritten data.length)
      (fun after => Becomes b after (b.readable ++ data) 0 ∧ KeepsReserve b after)
      (fun _ => False) := by
  have hwriter := h.writer_le
  rw [write_hasWritten_eq h hlen, holds_ok]
  rw [h.writableBytes_eq] at hlen
  exact ⟨becomes_write_advance data h (by omega), id⟩

theorem makeSpace_grow_holds {len : Nat} (h : b.WellFormed) (hsmall : b.writableBytes < len) :
    Holds (resize b.buffer (b.writerIndex + len))
      (fun grown => Becomes b { b with buffer := grown } b.readable len ∧
        len ≤ writableBytes { b with buffer := grown })
      (fun fault => fault = .lengthError ∧ maxSize < b.writerIndex + len) := by
  have hreader := h.reader_le
  have hwriter := h.writer_le
  have hcheap := h.cheap_le
  rw [h.writableBytes_eq] at hsmall
  refine (resize_holds (by omega)).mono ?_ ?_
  · rintro grown ⟨rfl, hmax⟩
    have hlength : (b.buffer ++ List.replicate (b.writerIndex + len - b.buffer.length) 0).length
        = b.writerIndex + len := by
      simp only [List.length_append, List.length_replicate]
      omega
    refine ⟨⟨⟨hreader, ?_, ?_, ?_⟩, ?_, ?_⟩, ?_⟩
    · change b.writerIndex ≤ (b.buffer ++ _).length
      omega
    · change kCheapPrepend ≤ (b.buffer ++ _).length
      omega
    · change (b.buffer ++ _).length ≤ maxSize
      omega
    · simp only [readable]
      rw [List.drop_append_of_le_length (by omega), List.take_append_of_le_length]
      rw [List.length_drop]
      omega
    · change (b.buffer ++ _).length ≤ b.buffer.length + len
      omega
    · simp only [maxSize] at hmax
      unfold writableBytes
      change len ≤ sizeSub (b.buffer ++ _).length b.writerIndex
      rw [hlength, sizeSub_of_le (by omega)]
      omega
  · exact fun fault hfault => hfault

def compacted (b : Buffer) : Buffer where
  buffer := copyTo b.buffer kCheapPrepend b.readable
  readerIndex := kCheapPrepend
  writerIndex := kCheapPrepend + b.readable.length

theorem becomes_compacted (h : b.WellFormed) (hreader : kCheapPrepend < b.readerIndex) :
    Becomes b b.compacted b.readable 0 := by
  have hreadable := h.length_readable
  have hle := h.reader_le
  have hwriter := h.writer_le
  rw [h.readableBytes_eq] at hreadable
  have hlength : b.compacted.buffer.length = b.buffer.length :=
    length_copyTo (by omega)
  refine ⟨⟨?_, ?_, ?_, ?_⟩, ?_, hlength.le⟩
  · exact Nat.le_add_right _ _
  · rw [hlength]
    change kCheapPrepend + b.readable.length ≤ b.buffer.length
    omega
  · exact hlength ▸ h.cheap_le
  · exact hlength ▸ h.size_le
  · have htake : (b.buffer.take kCheapPrepend).length = kCheapPrepend := by
      rw [List.length_take]
      have hcheap := h.cheap_le
      omega
    change ((copyTo b.buffer kCheapPrepend b.readable).drop kCheapPrepend).take
      (kCheapPrepend + b.readable.length - kCheapPrepend) = b.readable
    rw [copyTo, List.append_assoc, List.drop_left' htake, Nat.add_sub_cancel_left, List.take_left]

/-- The bytes are moved to the front, and there are as many as before. -/
theorem move_eq_compacted (h : b.WellFormed) (hreader : kCheapPrepend < b.readerIndex) :
    (do assert (kCheapPrepend < b.readerIndex)
        let moved : Buffer :=
          { buffer := copyTo b.buffer kCheapPrepend b.readable
            readerIndex := kCheapPrepend
            writerIndex := sizeAdd kCheapPrepend b.readableBytes }
        assert (b.readableBytes = moved.readableBytes)
        return moved) = Except.ok b.compacted := by
  have hmoved : sizeAdd kCheapPrepend b.readableBytes = kCheapPrepend + b.readable.length := by
    rw [h.length_readable]
    have hlt := h.readableBytes_lt
    exact sizeAdd_of_lt (by simp only [kCheapPrepend]; omega)
  have hbecomes := becomes_compacted h hreader
  have hkept : b.readableBytes = b.compacted.readableBytes := by
    rw [← hbecomes.wellFormed.length_readable, hbecomes.readable_eq, h.length_readable]
  rw [assert_bind hreader, hmoved]
  change (assert (b.readableBytes = b.compacted.readableBytes) >>= fun _ =>
    pure b.compacted) = _
  rw [assert_bind hkept]
  rfl

theorem writableBytes_compacted (h : b.WellFormed) (hreader : kCheapPrepend < b.readerIndex) :
    b.compacted.writableBytes = b.buffer.length - (kCheapPrepend + b.readableBytes) := by
  have hle := h.reader_le
  have hwriter := h.writer_le
  have hlength : b.compacted.buffer.length = b.buffer.length :=
    length_copyTo (by rw [h.length_readable, h.readableBytes_eq]; omega)
  rw [(becomes_compacted h hreader).wellFormed.writableBytes_eq, hlength, ← h.length_readable]
  rfl

/-- As long as the sums of `makeSpace` do not wrap. -/
theorem makeSpace_holds {len : Nat} (h : b.WellFormed) (hsmall : b.writableBytes < len)
    (hneed : len + kCheapPrepend < 2 ^ 64) (hend : b.writerIndex + len < 2 ^ 64) :
    Holds (b.makeSpace len)
      (fun after => (Becomes b after b.readable len ∧ KeepsReserve b after) ∧
        len ≤ after.writableBytes)
      (fun fault => fault = .lengthError ∧ maxSize < b.writerIndex + len) := by
  have hreader := h.reader_le
  have hwriter := h.writer_le
  have hcheap := h.cheap_le
  have hsize := h.size_le
  have hwritable := h.writableBytes_eq
  simp only [maxSize] at hsize
  have hspace : sizeAdd b.writableBytes b.prependableBytes
      = b.buffer.length - b.writerIndex + b.readerIndex := by
    rw [hwritable]
    exact sizeAdd_of_lt (by unfold prependableBytes; omega)
  rw [makeSpace, hspace, sizeAdd_of_lt hneed, sizeAdd_of_lt hend]
  split
  · refine (makeSpace_grow_holds h hsmall).bind fun grown hgrown => ?_
    exact ⟨⟨hgrown.1, id⟩, hgrown.2⟩
  · -- there is room, but not behind the writer: the reader has left the reserved gap
    rename_i hroom
    have hgap : kCheapPrepend < b.readerIndex := by omega
    rw [move_eq_compacted h hgap]
    have hbecomes := becomes_compacted h hgap
    refine ⟨⟨⟨hbecomes.wellFormed, hbecomes.readable_eq, ?_⟩, fun _ => Nat.le_refl _⟩, ?_⟩
    · have := hbecomes.size_le
      omega
    · rw [writableBytes_compacted h hgap, h.readableBytes_eq]
      omega

theorem ensureWritableBytes_holds_of_lt {len : Nat} (h : b.WellFormed)
    (hneed : len + kCheapPrepend < 2 ^ 64) (hend : b.writerIndex + len < 2 ^ 64) :
    Holds (b.ensureWritableBytes len)
      (fun after => (Becomes b after b.readable len ∧ KeepsReserve b after) ∧
        len ≤ after.writableBytes)
      (fun fault => fault = .lengthError ∧ maxSize < b.writerIndex + len) := by
  rw [ensureWritableBytes]
  split
  · rename_i hsmall
    refine (makeSpace_holds h hsmall hneed hend).bind fun after hafter => ?_
    beta_reduce
    rw [assert_bind hafter.2]
    exact hafter
  · rename_i hroom
    have hroom' : len ≤ b.writableBytes := by omega
    rw [pure_bind]
    beta_reduce
    rw [assert_bind hroom']
    exact ⟨⟨⟨h, rfl, Nat.le_add_right _ _⟩, id⟩, hroom'⟩

theorem ensureWritableBytes_holds {len : Nat} (h : b.WellFormed)
    (hlen : len ≤ 2 ^ 63) :
    Holds (b.ensureWritableBytes len)
      (fun after => (Becomes b after b.readable len ∧ KeepsReserve b after) ∧
        len ≤ after.writableBytes) (Refused b len) := by
  have hwriter := h.writer_le
  have hsize := h.size_le
  simp only [maxSize] at hsize
  have hneed : len + kCheapPrepend < 2 ^ 64 := by simp only [kCheapPrepend]; omega
  refine (ensureWritableBytes_holds_of_lt h hneed (by omega)).mono (fun _ => id) ?_
  rintro fault ⟨hfault, hmax⟩
  exact ⟨hfault, by omega⟩

theorem append_holds {data : Bytes} (h : b.WellFormed)
    (hlen : data.length ≤ 2 ^ 63) :
    Holds (b.append data)
      (fun after => Becomes b after (b.readable ++ data) data.length ∧ KeepsReserve b after)
      (Refused b data.length) := by
  refine (ensureWritableBytes_holds h hlen).bind fun roomy hroomy => ?_
  obtain ⟨⟨hbecomes, hkeeps⟩, hroom⟩ := hroomy
  refine (write_hasWritten_holds hbecomes.wellFormed hroom).mono ?_ (fun _ => False.elim)
  rintro after ⟨hafter, hkeeps'⟩
  have hboth := hbecomes.trans hafter
  rw [hbecomes.readable_eq] at hboth
  exact ⟨hboth, fun hcheap => hkeeps' (hkeeps hcheap)⟩

theorem prepend_holds {data : Bytes} (h : b.WellFormed)
    (hlen : data.length ≤ b.prependableBytes) :
    Holds (b.prepend data) (fun after => Becomes b after (data ++ b.readable) 0)
      (fun _ => False) := by
  have hreader := h.reader_le
  have hwriter := h.writer_le
  have hsize := h.size_le
  simp only [maxSize] at hsize
  rw [prepend, assert_bind hlen, holds_pure]
  change data.length ≤ b.readerIndex at hlen
  have hback : sizeSub b.readerIndex data.length = b.readerIndex - data.length :=
    sizeSub_of_le hlen
  have hlength : (copyTo b.buffer (b.readerIndex - data.length) data).length = b.buffer.length :=
    length_copyTo (by omega)
  rw [hback]
  refine ⟨⟨?_, ?_, ?_, ?_⟩, ?_, hlength.le⟩
  · change b.readerIndex - data.length ≤ b.writerIndex
    omega
  · change b.writerIndex ≤ (copyTo _ _ _).length
    omega
  · exact hlength ▸ h.cheap_le
  · exact hlength ▸ h.size_le
  · have htake : (b.buffer.take (b.readerIndex - data.length)).length
        = b.readerIndex - data.length := by
      rw [List.length_take]
      omega
    have hwhole : b.writerIndex - (b.readerIndex - data.length)
        = data.length + (b.writerIndex - b.readerIndex) := by omega
    change ((copyTo b.buffer (b.readerIndex - data.length) data).drop
      (b.readerIndex - data.length)).take (b.writerIndex - (b.readerIndex - data.length)) = _
    rw [copyTo, List.append_assoc, List.drop_left' htake, hwhole, List.take_length_add_append,
      Nat.sub_add_cancel hlen]
    rfl

theorem readFd_holds {result : Option Bytes} (h : b.WellFormed)
    (hlen : (result.getD []).length ≤ 2 ^ 63) :
    Holds (b.readFd result)
      (fun after => Becomes b after (b.readable ++ result.getD []) (result.getD []).length ∧
        KeepsReserve b after) (Refused b (result.getD []).length) := by
  cases result with
  | none => exact ⟨⟨h, (List.append_nil _).symm, Nat.le_add_right _ _⟩, id⟩
  | some data =>
      have hwriter := h.writer_le
      have hsize := h.size_le
      have hwritable := h.writableBytes_eq
      simp only [maxSize] at hsize
      simp only [Option.getD_some, readFd] at hlen ⊢
      split
      · rename_i hfits
        rw [List.take_of_length_le hfits,
          sizeAdd_of_lt (by change b.writerIndex + data.length < 2 ^ 64; omega)]
        obtain ⟨hwell, hreadable, hgrown⟩ := becomes_write_advance data h (by omega)
        exact ⟨⟨hwell, hreadable, hgrown.trans (Nat.le_add_right _ _)⟩, id⟩
      · -- the vector is filled to its end and `extrabuf` holds the rest
        rename_i hspill
        have htake : (data.take b.writableBytes).length = b.writableBytes :=
          List.length_take_of_le (by omega)
        have hfull : b.writerIndex + (data.take b.writableBytes).length
            = (b.write (data.take b.writableBytes)).buffer.length := by
          change _ = (copyTo _ _ _).length
          rw [length_copyTo (by omega)]
          omega
        have hfilled := becomes_write_advance (data.take b.writableBytes) h (by omega)
        rw [hfull] at hfilled
        have hrest : (data.drop b.writableBytes).length = data.length - b.writableBytes :=
          List.length_drop
        have hgrowth := hfilled.size_le
        refine (append_holds hfilled.wellFormed (by omega)).mono ?_ ?_
        · rintro after ⟨hafter, hkeeps⟩
          refine ⟨⟨hafter.wellFormed, ?_, ?_⟩, hkeeps⟩
          · rw [hafter.readable_eq, hfilled.readable_eq, List.append_assoc, List.take_append_drop]
          · have hle := hafter.size_le
            omega
        · rintro fault ⟨hfault, hmax⟩
          exact ⟨hfault, by omega⟩

end Buffer

theorem readLimit_le {buff : Buffer} (h : buff.WellFormed) : buff.readLimit ≤ 2 ^ 63 := by
  have hwritable : buff.writableBytes ≤ maxSize := by
    rw [h.writableBytes_eq]
    exact (Nat.sub_le _ _).trans h.size_le
  unfold Buffer.readLimit
  by_cases hfew : buff.writableBytes < Buffer.extraSize
  · rw [if_pos hfew]
    simp only [Buffer.extraSize] at hfew ⊢
    omega
  · rw [if_neg hfew]
    exact hwritable.trans (by decide)

end ToyBasket
