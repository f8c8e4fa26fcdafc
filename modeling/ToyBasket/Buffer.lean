import ToyBasket.Lib.Words
import ToyBasket.Lib.Outcome

/-!
# The byte buffer

`Buffer` of `communication/Buffer.h`: one vector of bytes and two indices into it. The sizes are
`size_t`, so their arithmetic wraps; the asserts are observable, since a build without `NDEBUG`
aborts on them; a vector refuses a size above `max_size`.
-/

namespace ToyBasket

open Words Outcome

/-- What stops the code: a failed assert, a `std::length_error`, a read outside the bytes a pointer
stands for, a call through a null pointer, or the overflow of a signed number. -/
inductive Fault where
  | assertion
  | lengthError
  | outOfRange
  | nullPointer
  | overflow
deriving DecidableEq, Repr

def assert (c : Prop) [Decidable c] : Except Fault Unit := check Fault.assertion c

theorem assert_bind {α : Type} {c : Prop} [Decidable c] {next : Unit → Except Fault α} (hc : c) :
    (assert c >>= next) = next () := by
  rw [assert, check_of_true hc, ok_bind]

/-! ### std::vector<char> -/

/-- `vector<char>::max_size()`, the largest distance of two pointers. -/
def maxSize : Nat := 9223372036854775807

/-- `vector::resize`: bytes are cut off or zeroes appended. -/
def resize (bytes : Bytes) (n : Nat) : Except Fault Bytes :=
  if n ≤ maxSize then .ok (bytes.take n ++ List.replicate (n - bytes.length) 0)
  else .error .lengthError

/-- `std::copy` of `data` to the position `pos` of a vector that holds it. -/
def copyTo (bytes : Bytes) (pos : Nat) (data : Bytes) : Bytes :=
  bytes.take pos ++ data ++ bytes.drop (pos + data.length)

structure Buffer where
  buffer : Bytes
  readerIndex : Nat
  writerIndex : Nat
deriving DecidableEq, Repr

namespace Buffer

def kCheapPrepend : Nat := 8

def kInitialSize : Nat := 1024

def readableBytes (b : Buffer) : Nat := sizeSub b.writerIndex b.readerIndex

def writableBytes (b : Buffer) : Nat := sizeSub b.buffer.length b.writerIndex

def prependableBytes (b : Buffer) : Nat := b.readerIndex

/-- The bytes from `peek()` to `beginWrite()`. -/
def readable (b : Buffer) : Bytes :=
  (b.buffer.drop b.readerIndex).take (b.writerIndex - b.readerIndex)

def new (initialSize : Nat) : Except Fault Buffer := do
  let buffer ← resize [] (sizeAdd kCheapPrepend initialSize)
  let b : Buffer := { buffer, readerIndex := kCheapPrepend, writerIndex := kCheapPrepend }
  assert (b.readableBytes = 0)
  assert (b.writableBytes = initialSize)
  assert (b.prependableBytes = kCheapPrepend)
  return b

def retrieveAll (b : Buffer) : Buffer :=
  { b with readerIndex := kCheapPrepend, writerIndex := kCheapPrepend }

def retrieve (b : Buffer) (len : Nat) : Except Fault Buffer := do
  assert (len ≤ b.readableBytes)
  if len < b.readableBytes then
    return { b with readerIndex := sizeAdd b.readerIndex len }
  else
    return b.retrieveAll

/-- The pointer `end` is given by its offset from `begin()`. -/
def retrieveUntil (b : Buffer) (endIndex : Nat) : Except Fault Buffer := do
  assert (b.readerIndex ≤ endIndex)
  assert (endIndex ≤ b.writerIndex)
  b.retrieve (sizeSub endIndex b.readerIndex)

/-- `std::string(peek() + offset, len)`: the constructor refuses a length above its maximum, and the
bytes have to be readable. -/
def substr (b : Buffer) (offset len : Nat) : Except Fault Bytes :=
  if maxSize < len then .error .lengthError
  else if offset + len ≤ b.readableBytes then .ok ((b.readable.drop offset).take len)
  else .error .outOfRange

def retrieveAsString (b : Buffer) (len : Nat) : Except Fault (Bytes × Buffer) := do
  assert (len ≤ b.readableBytes)
  let result ← b.substr 0 len
  let b ← b.retrieve len
  return (result, b)

def retrieveAllAsString (b : Buffer) : Except Fault (Bytes × Buffer) :=
  b.retrieveAsString b.readableBytes

def makeSpace (b : Buffer) (len : Nat) : Except Fault Buffer := do
  if sizeAdd b.writableBytes b.prependableBytes < sizeAdd len kCheapPrepend then
    return { b with buffer := ← resize b.buffer (sizeAdd b.writerIndex len) }
  else
    assert (kCheapPrepend < b.readerIndex)
    let moved : Buffer :=
      { buffer := copyTo b.buffer kCheapPrepend b.readable
        readerIndex := kCheapPrepend
        writerIndex := sizeAdd kCheapPrepend b.readableBytes }
    assert (b.readableBytes = moved.readableBytes)
    return moved

def ensureWritableBytes (b : Buffer) (len : Nat) : Except Fault Buffer := do
  let b ← if b.writableBytes < len then b.makeSpace len else pure b
  assert (len ≤ b.writableBytes)
  return b

def hasWritten (b : Buffer) (len : Nat) : Except Fault Buffer := do
  assert (len ≤ b.writableBytes)
  return { b with writerIndex := sizeAdd b.writerIndex len }

def write (b : Buffer) (data : Bytes) : Buffer :=
  { b with buffer := copyTo b.buffer b.writerIndex data }

def append (b : Buffer) (data : Bytes) : Except Fault Buffer := do
  let b ← b.ensureWritableBytes data.length
  (b.write data).hasWritten data.length

def unwrite (b : Buffer) (len : Nat) : Except Fault Buffer := do
  assert (len ≤ b.readableBytes)
  return { b with writerIndex := sizeSub b.writerIndex len }

def prepend (b : Buffer) (data : Bytes) : Except Fault Buffer := do
  assert (data.length ≤ b.prependableBytes)
  let readerIndex := sizeSub b.readerIndex data.length
  return { b with buffer := copyTo b.buffer readerIndex data, readerIndex := readerIndex }

/-- `sizeof extrabuf`. -/
def extraSize : Nat := 65536

/-- The most `readv` can return: the spare bytes of the vector, and `extrabuf` if these are few. -/
def readLimit (b : Buffer) : Nat :=
  if b.writableBytes < extraSize then b.writableBytes + extraSize else b.writableBytes

/-- `readFd`, given what `readv` returned: the bytes it stored, or -1. -/
def readFd (b : Buffer) (result : Option Bytes) : Except Fault Buffer :=
  match result with
  | none => .ok b
  | some data =>
      let writable := b.writableBytes
      let b := b.write (data.take writable)
      if data.length ≤ writable then
        .ok { b with writerIndex := sizeAdd b.writerIndex data.length }
      else
        { b with writerIndex := b.buffer.length }.append (data.drop writable)

def peekInt32 (b : Buffer) : Except Fault Int := do
  assert (4 ≤ b.readableBytes)
  return toInt32 (ofBigEndian (b.readable.take 4))

/-! ### Well-formed buffers -/

structure WellFormed (b : Buffer) : Prop where
  reader_le : b.readerIndex ≤ b.writerIndex
  writer_le : b.writerIndex ≤ b.buffer.length
  cheap_le : kCheapPrepend ≤ b.buffer.length
  size_le : b.buffer.length ≤ maxSize

end Buffer

end ToyBasket
