import Mathlib.Data.BitVec

/-!
# Addresses in text form

`InetAddress::toString`, the text that the name of a connection is made of. A text is a list of
characters, none of them zero.
-/

namespace ToyBasket

abbrev Text := List Char

/-- What `snprintf` leaves in a buffer of this size: the text without what does not fit beside the
terminating zero. -/
def snprintf (size : Nat) (text : Text) : Text := text.take (size - 1)

/-- `%u` -/
def decimal (n : Nat) : Text := Nat.toDigits 10 n

/-- `%d` -/
def decimalInt : Int → Text
  | .ofNat n => decimal n
  | .negSucc n => '-' :: decimal (n + 1)

inductive InetAddress where
  | inet (addr : BitVec 32) (port : BitVec 16)
  | inet6 (addr : BitVec 128) (port : BitVec 16)
  | unix (path : {path : Text // path.length ≤ 107})

namespace InetAddress

/-- The constructor for paths, `strncpy` into `sun_path`. -/
def ofPath (unDomain : Text) : InetAddress :=
  .unix ⟨unDomain.take 107, List.length_take_le 107 unDomain⟩

/-- `inet_ntop` for `AF_INET`. -/
def inetNtop (addr : BitVec 32) : Text :=
  List.intercalate ['.'] ([24, 16, 8, 0].map fun shift => decimal (addr.toNat >>> shift % 256))

/-- `inetNtop6` is `inet_ntop` for `AF_INET6`. -/
def address (inetNtop6 : BitVec 128 → Text) : InetAddress → Text
  | inet addr _ => inetNtop addr
  | inet6 addr _ => inetNtop6 addr
  | unix path => path.val

def toString (inetNtop6 : BitVec 128 → Text) (addr : InetAddress) : Text :=
  let buf := snprintf 128 (addr.address inetNtop6)
  match addr with
  | inet _ port | inet6 _ port => buf ++ snprintf (128 - buf.length) (':' :: decimal port.toNat)
  | unix _ => buf

variable {inetNtop6 : BitVec 128 → Text}

theorem length_decimal_le {n k : Nat} (hk : 0 < k) (h : n < 10 ^ k) : (decimal n).length ≤ k :=
  (Nat.length_toDigits_le_iff (by decide) hk).mpr h

theorem length_inetNtop_le (addr : BitVec 32) : (inetNtop addr).length ≤ 15 := by
  have hoctet : ∀ n : Nat, (decimal (n % 256)).length ≤ 3 := by
    intro n
    apply length_decimal_le (by decide)
    exact (Nat.mod_lt n (by decide)).trans (by decide)
  have h24 := hoctet (addr.toNat >>> 24)
  have h16 := hoctet (addr.toNat >>> 16)
  have h8 := hoctet (addr.toNat >>> 8)
  have h0 := hoctet (addr.toNat >>> 0)
  simp only [inetNtop, List.map_cons, List.map_nil, List.intercalate, List.intersperse,
    List.flatten_cons, List.flatten_nil, List.length_append, List.length_singleton, List.length_nil]
  omega

/-- The text of an internet address, where that of `AF_INET6` is no longer than its buffer. -/
theorem length_toString_le (hntop6 : ∀ addr, (inetNtop6 addr).length ≤ 45) (addr : InetAddress)
    (hinet : ∀ path, addr ≠ .unix path) : (addr.toString inetNtop6).length ≤ 51 := by
  have hhost : ∀ (host : Text) (port : BitVec 16), host.length ≤ 45 →
      (snprintf 128 host ++ snprintf (128 - (snprintf 128 host).length)
        (':' :: decimal port.toNat)).length ≤ 51 := by
    intro host port hlength
    have hport : (decimal port.toNat).length ≤ 5 :=
      length_decimal_le (by decide) (port.isLt.trans (by decide))
    simp only [snprintf, List.length_append, List.length_take, List.length_cons]
    omega
  cases addr with
  | inet addr port => exact hhost _ port ((length_inetNtop_le addr).trans (by decide))
  | inet6 addr port => exact hhost _ port (hntop6 addr)
  | unix path => exact (hinet path rfl).elim

end InetAddress

end ToyBasket
