import ToyBasket.Buffer.Spec
import Mathlib.Logic.Function.Basic

/-!
# The buffer refines a byte string

Any number of buffers, any sequence of calls on them, with the contents they must have on one side
and the code on the other. The sizes the calls ask for are bounded together, as no process has more
than `2 ^ 63` bytes; under that bound the only way a call can fail is that the vector refuses the
very last byte.
-/

namespace ToyBasket

open Words Outcome

namespace Buffer

/-- A call on one buffer. The pointer of `retrieveUntil` is `peek() + offset`, and `hasWritten`
comes after the caller has stored its bytes at `beginWrite()`. -/
inductive Op where
  | append (data : Bytes)
  | readFd (result : Option Bytes)
  | retrieve (len : Nat)
  | retrieveUntil (offset : Nat)
  | retrieveAll
  | retrieveAsString (len : Nat)
  | unwrite (len : Nat)
  | prepend (data : Bytes)
  | ensureWritableBytes (len : Nat)
  | hasWritten (data : Bytes)
deriving DecidableEq, Repr

namespace Op

/-- What the caller has to respect: the asserts about its arguments, and for `readFd` what `readv`
can return. -/
def Pre (b : Buffer) : Op → Prop
  | append _ => True
  | readFd result => (result.getD []).length ≤ b.readLimit
  | retrieve len => len ≤ b.readableBytes
  | retrieveUntil offset => offset ≤ b.readableBytes
  | retrieveAll => True
  | retrieveAsString len => len ≤ b.readableBytes
  | unwrite len => len ≤ b.readableBytes
  | prepend data => data.length ≤ b.prependableBytes
  | ensureWritableBytes _ => True
  | hasWritten data => data.length ≤ b.writableBytes

instance (b : Buffer) : (op : Op) → Decidable (op.Pre b)
  | append _ => inferInstanceAs (Decidable True)
  | readFd result => inferInstanceAs (Decidable ((result.getD []).length ≤ b.readLimit))
  | retrieve len => inferInstanceAs (Decidable (len ≤ b.readableBytes))
  | retrieveUntil offset => inferInstanceAs (Decidable (offset ≤ b.readableBytes))
  | retrieveAll => inferInstanceAs (Decidable True)
  | retrieveAsString len => inferInstanceAs (Decidable (len ≤ b.readableBytes))
  | unwrite len => inferInstanceAs (Decidable (len ≤ b.readableBytes))
  | prepend data => inferInstanceAs (Decidable (data.length ≤ b.prependableBytes))
  | ensureWritableBytes _ => inferInstanceAs (Decidable True)
  | hasWritten data => inferInstanceAs (Decidable (data.length ≤ b.writableBytes))

/-- The call on the code: the string it returns, if any, and the buffer after it. -/
def exec (b : Buffer) : Op → Except Fault (Bytes × Buffer)
  | append data => (b.append data).map ([], ·)
  | readFd result => (b.readFd result).map ([], ·)
  | retrieve len => (b.retrieve len).map ([], ·)
  | retrieveUntil offset => (b.retrieveUntil (b.readerIndex + offset)).map ([], ·)
  | retrieveAll => .ok ([], b.retrieveAll)
  | retrieveAsString len => b.retrieveAsString len
  | unwrite len => (b.unwrite len).map ([], ·)
  | prepend data => (b.prepend data).map ([], ·)
  | ensureWritableBytes len => (b.ensureWritableBytes len).map ([], ·)
  | hasWritten data => ((b.write data).hasWritten data.length).map ([], ·)

def spec (content : Bytes) : Op → Bytes × Bytes
  | append data => ([], content ++ data)
  | readFd result => ([], content ++ result.getD [])
  | retrieve len => ([], content.drop len)
  | retrieveUntil offset => ([], content.drop offset)
  | retrieveAll => ([], [])
  | retrieveAsString len => (content.take len, content.drop len)
  | unwrite len => ([], content.take (content.length - len))
  | prepend data => ([], data ++ content)
  | ensureWritableBytes _ => ([], content)
  | hasWritten data => ([], content ++ data)

def demand : Op → Nat
  | append data => data.length
  | readFd result => (result.getD []).length
  | ensureWritableBytes len => len
  | _ => 0

def isPrepend : Op → Bool
  | prepend _ => true
  | _ => false

theorem holds_map {run : Except Fault Buffer} {post : Bytes × Buffer → Prop} {fails : Fault → Prop}
    (h : Holds run (fun after => post ([], after)) fails) :
    Holds (run.map ([], ·)) post fails := by
  cases run with
  | ok after => exact h
  | error fault => exact h

/-- One call keeps the buffer well formed and does to its readable bytes what the specification says
of a byte string. -/
theorem exec_holds {b : Buffer} (op : Op) (h : b.WellFormed) (hpre : op.Pre b)
    (hdemand : op.demand ≤ 2 ^ 63) :
    Holds (op.exec b)
      (fun result => result.1 = (op.spec b.readable).1 ∧
        Becomes b result.2 (op.spec b.readable).2 op.demand ∧
        (op.isPrepend = false → KeepsReserve b result.2)) (Refused b op.demand) := by
  cases op with
  | append data =>
      exact holds_map ((append_holds h hdemand).imp
        fun after hafter => ⟨rfl, hafter.1, fun _ => hafter.2⟩)
  | readFd result =>
      exact holds_map ((readFd_holds h hdemand).imp
        fun after hafter => ⟨rfl, hafter.1, fun _ => hafter.2⟩)
  | retrieve len =>
      exact holds_map ((retrieve_holds h hpre).mono
        (fun after hafter => ⟨rfl, hafter.1, fun _ => hafter.2⟩) fun _ => False.elim)
  | retrieveUntil offset =>
      have hreader := h.reader_le
      simp only [Pre, h.readableBytes_eq] at hpre
      refine holds_map ((retrieveUntil_holds h (by omega) (by omega)).mono ?_ fun _ => False.elim)
      rintro after ⟨hafter, hkeeps⟩
      rw [Nat.add_sub_cancel_left] at hafter
      exact ⟨rfl, hafter, fun _ => hkeeps⟩
  | retrieveAll => exact ⟨rfl, becomes_retrieveAll h, fun _ => keepsReserve_retrieveAll⟩
  | retrieveAsString len =>
      exact (retrieveAsString_holds h hpre).mono
        (fun result hresult => ⟨hresult.1, hresult.2.1, fun _ => hresult.2.2⟩) fun _ => False.elim
  | unwrite len =>
      exact holds_map ((unwrite_holds h hpre).mono
        (fun after hafter => ⟨rfl, hafter.1, fun _ => hafter.2⟩) fun _ => False.elim)
  | prepend data =>
      exact holds_map ((prepend_holds h hpre).mono
        (fun after hafter => ⟨rfl, hafter, by simp [isPrepend]⟩) fun _ => False.elim)
  | ensureWritableBytes len =>
      exact holds_map ((ensureWritableBytes_holds h hdemand).imp
        fun after hafter => ⟨rfl, hafter.1.1, fun _ => hafter.1.2⟩)
  | hasWritten data =>
      exact holds_map ((write_hasWritten_holds h hpre).mono
        (fun after hafter => ⟨rfl, hafter.1, fun _ => hafter.2⟩) fun _ => False.elim)

end Op

/-! ### Several buffers -/

section Calls

variable {ι : Type} [DecidableEq ι]

inductive Call (ι : Type) where
  | on (i : ι) (op : Op)
  | swap (i j : ι)

namespace Call

def Pre (s : ι → Buffer) : Call ι → Prop
  | on i op => op.Pre (s i)
  | swap _ _ => True

instance (s : ι → Buffer) : (call : Call ι) → Decidable (call.Pre s)
  | on i op => inferInstanceAs (Decidable (op.Pre (s i)))
  | swap _ _ => inferInstanceAs (Decidable True)

def exec (s : ι → Buffer) : Call ι → Except Fault (Bytes × (ι → Buffer))
  | on i op => (op.exec (s i)).map fun result => (result.1, Function.update s i result.2)
  | swap i j => .ok ([], Function.update (Function.update s i (s j)) j (s i))

def spec (contents : ι → Bytes) : Call ι → Bytes × (ι → Bytes)
  | on i op =>
      ((op.spec (contents i)).1, Function.update contents i (op.spec (contents i)).2)
  | swap i j =>
      ([], Function.update (Function.update contents i (contents j)) j (contents i))

def demand : Call ι → Nat
  | on _ op => op.demand
  | swap _ _ => 0

def isPrepend : Call ι → Bool
  | on _ op => op.isPrepend
  | swap _ _ => false

end Call

def execAll (s : ι → Buffer) : List (Call ι) → Except Fault (List Bytes × (ι → Buffer))
  | [] => .ok ([], s)
  | call :: calls => do
      let (out, s) ← call.exec s
      let (outs, s) ← execAll s calls
      return (out :: outs, s)

def specAll (contents : ι → Bytes) : List (Call ι) → List Bytes × (ι → Bytes)
  | [] => ([], contents)
  | call :: calls =>
      let (out, contents) := call.spec contents
      let (outs, contents) := specAll contents calls
      (out :: outs, contents)

/-- Every call respects its preconditions at the moment it is made. -/
def Respects (s : ι → Buffer) : List (Call ι) → Prop
  | [] => True
  | call :: calls => call.Pre s ∧
      match call.exec s with
      | .ok (_, s) => Respects s calls
      | .error _ => True

instance decidableRespects (s : ι → Buffer) : (calls : List (Call ι)) → Decidable (Respects s calls)
  | [] => inferInstanceAs (Decidable True)
  | call :: calls =>
      have : Decidable (match call.exec s with
          | .ok (_, s) => Respects s calls
          | .error _ => True) :=
        match call.exec s with
        | .ok (_, s) => decidableRespects s calls
        | .error _ => inferInstanceAs (Decidable True)
      inferInstanceAs (Decidable (_ ∧ _))

def totalDemand (calls : List (Call ι)) : Nat := (calls.map Call.demand).sum

structure Reads (b : Buffer) (content : Bytes) (bound : Nat) : Prop where
  wellFormed : b.WellFormed
  readable_eq : b.readable = content
  size_le : b.buffer.length ≤ bound

def Refines (s : ι → Buffer) (contents : ι → Bytes) (bound : Nat) : Prop :=
  ∀ i, Reads (s i) (contents i) bound

def Reserved (s : ι → Buffer) : Prop := ∀ i, kCheapPrepend ≤ (s i).readerIndex

variable {s : ι → Buffer} {contents : ι → Bytes} {bound : Nat}

theorem Refines.update {i : ι} {b : Buffer} {content : Bytes} {growth : Nat}
    (h : Refines s contents bound) (hb : Becomes (s i) b content growth) :
    Refines (Function.update s i b) (Function.update contents i content) (bound + growth) := by
  intro k
  simp only [Function.update_apply]
  split
  · have hsize := (h i).size_le
    have hgrown := hb.size_le
    exact ⟨hb.wellFormed, hb.readable_eq, by omega⟩
  · have hsize := (h k).size_le
    exact ⟨(h k).wellFormed, (h k).readable_eq, by omega⟩

theorem Refines.swap (i j : ι) (h : Refines s contents bound) :
    Refines (Function.update (Function.update s i (s j)) j (s i))
      (Function.update (Function.update contents i (contents j)) j (contents i)) bound := by
  intro k
  simp only [Function.update_apply]
  split
  · exact h i
  · split
    · exact h j
    · exact h k

theorem Call.exec_holds (call : Call ι) (h : Refines s contents bound) (hpre : call.Pre s)
    (hdemand : call.demand ≤ 2 ^ 63) :
    Holds (call.exec s)
      (fun result => result.1 = (call.spec contents).1 ∧
        Refines result.2 (call.spec contents).2 (bound + call.demand) ∧
        (call.isPrepend = false → Reserved s → Reserved result.2))
      (fun fault => fault = .lengthError ∧ maxSize < bound + call.demand) := by
  cases call with
  | on i op =>
      have hsize := (h i).size_le
      have hop := op.exec_holds (h i).wellFormed hpre hdemand
      rw [(h i).readable_eq] at hop
      cases hexec : op.exec (s i) with
      | ok result =>
          obtain ⟨hout, hbecomes, hkeeps⟩ := hop.of_ok hexec
          simp only [Call.exec, hexec, Except.map, holds_ok]
          refine ⟨hout, h.update hbecomes, fun hprepend hreserved k => ?_⟩
          by_cases hk : k = i
          · subst hk
            simpa using hkeeps hprepend (hreserved k)
          · simpa [hk] using hreserved k
      | error fault =>
          obtain ⟨hfault, hmax⟩ := hop.of_error hexec
          simp only [Call.exec, hexec, Except.map, holds_error]
          exact ⟨hfault, by change maxSize < bound + op.demand; omega⟩
  | swap i j =>
      refine ⟨rfl, h.swap i j, fun _ hreserved k => ?_⟩
      simp only [Function.update_apply]
      split
      · exact hreserved i
      · split
        · exact hreserved j
        · exact hreserved k

theorem execAll_holds (calls : List (Call ι)) (h : Refines s contents bound)
    (hpre : Respects s calls) (hdemand : totalDemand calls ≤ 2 ^ 63) :
    Holds (execAll s calls)
      (fun result => result.1 = (specAll contents calls).1 ∧
        Refines result.2 (specAll contents calls).2 (bound + totalDemand calls) ∧
        (calls.all (fun call => !call.isPrepend) → Reserved s → Reserved result.2))
      (fun fault => fault = .lengthError ∧ maxSize < bound + totalDemand calls) := by
  induction calls generalizing s contents bound with
  | nil => exact ⟨rfl, h, fun _ => id⟩
  | cons call calls ih =>
      obtain ⟨hfirst, hrest⟩ := hpre
      have htotal : totalDemand (call :: calls) = call.demand + totalDemand calls := by
        simp [totalDemand]
      rw [htotal] at hdemand ⊢
      have hcall := call.exec_holds h hfirst (by omega)
      rw [execAll]
      cases hexec : call.exec s with
      | error fault =>
          obtain ⟨hfault, hmax⟩ := hcall.of_error hexec
          exact ⟨hfault, by omega⟩
      | ok result =>
          obtain ⟨hout, hrefines, hreserve⟩ := hcall.of_ok hexec
          rw [hexec] at hrest
          have hcalls := ih hrefines hrest (by omega)
          cases hexecs : execAll result.2 calls with
          | error fault =>
              obtain ⟨hfault, hmax⟩ := hcalls.of_error hexecs
              simp only [ok_bind, hexecs]
              exact ⟨hfault, by omega⟩
          | ok result' =>
              obtain ⟨houts, hafter, hkeeps⟩ := hcalls.of_ok hexecs
              simp only [ok_bind, hexecs, holds_pure, specAll, hout, houts]
              refine ⟨trivial, by rwa [← Nat.add_assoc], fun hall hreserved => ?_⟩
              simp only [List.all_cons, Bool.and_eq_true, Bool.not_eq_true'] at hall
              exact hkeeps hall.2 (hreserve hall.1 hreserved)

/-- Whatever calls are made on buffers the constructor returned, as long as each respects its
preconditions and the sizes together stay within `2 ^ 63`, the buffers behave as byte strings: the
strings returned and the readable bytes are those of the specification, the indices stay in order,
and no assert fails. Unless something was prepended, the reserved gap is still there. The one thing
that can end such a run is a vector asked for more than `max_size`. -/
theorem execAll_refines_specAll [Inhabited ι] (initialSize : ι → Nat) (s : ι → Buffer)
    (calls : List (Call ι)) (hnew : ∀ i, new (initialSize i) = .ok (s i))
    (hpre : Respects s calls) (hsizes : ∀ i, initialSize i + totalDemand calls ≤ 2 ^ 63) :
    Holds (execAll s calls)
      (fun result =>
        (result.1, fun i => (result.2 i).readable) = specAll (fun _ => []) calls ∧
        (∀ i, (result.2 i).readerIndex ≤ (result.2 i).writerIndex ∧
          (result.2 i).writerIndex ≤ (result.2 i).buffer.length) ∧
        (calls.all (fun call => !call.isPrepend) → ∀ i, 8 ≤ (result.2 i).prependableBytes))
      (fun fault => fault = .lengthError ∧
        ∃ i, maxSize < kCheapPrepend + initialSize i + totalDemand calls) := by
  have hempty : ∀ i, s i = empty (initialSize i) ∧ kCheapPrepend + initialSize i ≤ maxSize := by
    intro i
    have hi := hsizes i
    exact eq_empty_of_new (hnew i) (by simp only [kCheapPrepend]; omega)
  -- when no buffer can reach the limit, the vector cannot refuse either
  obtain ⟨bound, hbound, hrefuse⟩ : ∃ bound,
      (∀ i, kCheapPrepend + initialSize i ≤ bound) ∧
        (maxSize < bound + totalDemand calls →
          ∃ i, maxSize < kCheapPrepend + initialSize i + totalDemand calls) := by
    by_cases hfull : ∃ i, maxSize < kCheapPrepend + initialSize i + totalDemand calls
    · exact ⟨maxSize, fun i => (hempty i).2, fun _ => hfull⟩
    · have hroom : ∀ i, kCheapPrepend + initialSize i + totalDemand calls ≤ maxSize :=
        fun i => not_lt.mp fun hi => hfull ⟨i, hi⟩
      have hdefault := hroom default
      refine ⟨maxSize - totalDemand calls, fun i => ?_, fun hmax => ?_⟩
      · have hi := hroom i
        omega
      · omega
  have hstart : Refines s (fun _ => []) bound ∧ Reserved s := by
    refine ⟨fun i => ?_, fun i => ?_⟩
    · rw [(hempty i).1]
      refine ⟨empty_wellFormed (hempty i).2, readable_empty _, ?_⟩
      simpa [empty] using hbound i
    · rw [(hempty i).1]
      exact Nat.le_refl _
  have hdefault := hsizes default
  refine (execAll_holds calls hstart.1 hpre (by omega)).mono ?_ ?_
  · rintro ⟨outs, after⟩ ⟨houts, hrefines, hreserve⟩
    refine ⟨?_, fun i => ?_, fun hall i => ?_⟩
    · exact Prod.ext houts (funext fun i => (hrefines i).readable_eq)
    · exact ⟨(hrefines i).wellFormed.reader_le, (hrefines i).wellFormed.writer_le⟩
    · exact hreserve hall hstart.2 i
  · rintro fault ⟨hfault, hmax⟩
    exact ⟨hfault, hrefuse hmax⟩

/-- One of two buffers is filled past its end, read in part and swapped with the other. -/
def twoBufferCalls : List (Call Bool) :=
  [.on false (.append [1, 2, 3, 4, 5, 6]), .on false (.retrieve 2),
    .on true (.readFd (some [7, 8])), .swap false true, .on true (.retrieveAsString 3)]

theorem execAll_refines_specAll_twoBufferCalls :
    Holds (execAll (fun _ => empty 4) twoBufferCalls)
      (fun result =>
        (result.1, fun i => (result.2 i).readable) = specAll (fun _ => []) twoBufferCalls ∧
        (∀ i, (result.2 i).readerIndex ≤ (result.2 i).writerIndex ∧
          (result.2 i).writerIndex ≤ (result.2 i).buffer.length) ∧
        (twoBufferCalls.all (fun call => !call.isPrepend) →
          ∀ i, 8 ≤ (result.2 i).prependableBytes))
      (fun fault => fault = .lengthError ∧
        ∃ i, maxSize < kCheapPrepend + (fun _ : Bool => 4) i + totalDemand twoBufferCalls) :=
  execAll_refines_specAll (fun _ => 4) _ twoBufferCalls (fun _ => by decide) (by decide)
    (fun _ => by decide)

end Calls

end Buffer

end ToyBasket
