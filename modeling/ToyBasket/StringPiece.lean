import ToyBasket.Buffer

/-!
# A string of which only the bounds are kept

`StringPiece` of `base/StringPiece.h`: a pointer and a length that is an `int`.
-/

namespace ToyBasket

open Words Outcome

/-- A pointer stands for the bytes from it on. -/
structure StringPiece where
  ptr : Bytes
  length : Int
deriving DecidableEq, Repr

namespace StringPiece

/-- The constructor from a `std::string`. -/
def ofString (str : Bytes) : StringPiece where
  ptr := str
  length := toInt32 str.length

def data (piece : StringPiece) : Bytes := piece.ptr

def size (piece : StringPiece) : Int := piece.length

def asString (piece : StringPiece) : Except Fault Bytes :=
  let len := toSize piece.size
  if maxSize < len then .error .lengthError
  else if len ≤ piece.data.length then .ok (piece.data.take len)
  else .error .outOfRange

end StringPiece

section Lengths

variable {piece : StringPiece} {str : Bytes}

theorem toSize_toInt32_iff {n : Nat} (h : n < 2 ^ 63) : toSize (toInt32 n) = n ↔ n < 2 ^ 31 := by
  unfold toSize toInt32
  omega

theorem StringPiece.size_mk (ptr : Bytes) (length : Int) : (mk ptr length).size = length := rfl

theorem StringPiece.size_ofString (str : Bytes) : (ofString str).size = toInt32 str.length :=
  size_mk _ _

theorem StringPiece.data_ofString (str : Bytes) : (ofString str).data = str := rfl

theorem StringPiece.asString_eq_ok : piece.asString = .ok str ↔
    toSize piece.size ≤ maxSize ∧ toSize piece.size ≤ piece.data.length ∧
      piece.data.take (toSize piece.size) = str := by
  unfold asString
  generalize toSize piece.size = len
  simp only
  split
  · simp only [reduceCtorEq, false_iff]
    omega
  · rename_i hmax
    split
    · rename_i hle
      rw [Except.ok.injEq]
      exact ⟨fun h => ⟨Nat.le_of_not_lt hmax, hle, h⟩, fun h => h.2.2⟩
    · simp only [reduceCtorEq, false_iff]
      omega

end Lengths

end ToyBasket
