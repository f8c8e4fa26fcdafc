import ToyBasket.Net.InetAddress

/-!
# Addresses from their text

The constructor of `InetAddress` from the text of an address, with `inet_pton`, which takes the
texts that `inet_ntop` makes and no others.
-/

namespace ToyBasket

namespace InetAddress

/-- The variables of the loop in `inet_pton`: the octets before the last dot and the one that is
being read. -/
structure Scan where
  done : List Nat
  sawDigit : Bool
  octets : Nat
  tp : Nat
deriving DecidableEq, Repr

def Scan.init : Scan := ⟨[], false, 0, 0⟩

def Scan.next (s : Scan) (ch : Char) : Option Scan :=
  if ch.isDigit then
    let new := s.tp * 10 + (ch.toNat - '0'.toNat)
    if s.sawDigit ∧ s.tp = 0 then none
    else if 255 < new then none
    else if s.sawDigit then some { s with tp := new }
    else if 4 < s.octets + 1 then none
    else some { s with tp := new, octets := s.octets + 1, sawDigit := true }
  else if ch = '.' ∧ s.sawDigit then
    if s.octets = 4 then none
    else some { s with done := s.done ++ [s.tp], tp := 0, sawDigit := false }
  else none

/-- The address with these octets, the first the highest. -/
def ofOctets (octets : List Nat) : BitVec 32 :=
  BitVec.ofNat 32 (octets.foldl (fun addr octet => addr * 256 + octet) 0)

/-- `inet_pton` for `AF_INET`. -/
def inetPton (src : Text) : Option (BitVec 32) :=
  match src.foldlM Scan.next Scan.init with
  | none => none
  | some s => if s.octets < 4 then none else some (ofOctets (s.done ++ [s.tp]))

/-- The constructor from a text and a port. An address that cannot be read stays zero. -/
def ofIp (inetPton6 : Text → Option (BitVec 128)) (ip : Text) (port : BitVec 16) (ipv6 : Bool) :
    InetAddress :=
  if ipv6 then .inet6 ((inetPton6 ip).getD 0) port else .inet ((inetPton ip).getD 0) port

/-! ### What has been read -/

namespace Scan

/-- The text that leads to these values. -/
def shown (s : Scan) : Text :=
  s.done.flatMap (fun octet => decimal octet ++ ['.']) ++ (if s.sawDigit then decimal s.tp else [])

structure Valid (s : Scan) : Prop where
  octets : s.octets = s.done.length + (if s.sawDigit then 1 else 0)
  done : s.done.length ≤ 3
  small : ∀ octet ∈ s.done, octet < 256
  tp : s.tp < 256
  fresh : s.sawDigit = false → s.tp = 0

variable {s s' : Scan} {ch : Char} {n : Nat}

theorem valid_init : Valid init := by
  refine ⟨rfl, by decide, ?_, by decide, fun _ => rfl⟩
  simp [init]

theorem digitChar_of_isDigit (h : ch.isDigit) :
    ch.toNat - '0'.toNat < 10 ∧ Nat.digitChar (ch.toNat - '0'.toNat) = ch := by
  rw [Char.isDigit_iff_toNat] at h
  change 48 ≤ ch.toNat ∧ ch.toNat ≤ 57 at h
  have hlt : ch.toNat - 48 < 10 := by omega
  refine ⟨hlt, ?_⟩
  apply Char.toNat_inj.mp
  change (Nat.digitChar (ch.toNat - 48)).toNat = ch.toNat
  rw [Nat.toNat_digitChar_of_lt_ten hlt]
  omega

/-- One more digit. -/
theorem decimal_append {d : Nat} (hn : 0 < n) (hd : d < 10) :
    decimal n ++ [Nat.digitChar d] = decimal (n * 10 + d) := by
  have happend := Nat.toDigits_append_toDigits (by decide : 1 < 10) hn hd
  rw [Nat.toDigits_of_lt_base hd] at happend
  rw [decimal, decimal, happend, Nat.mul_comm]

theorem decimal_of_lt {d : Nat} (hd : d < 10) : decimal d = [Nat.digitChar d] :=
  Nat.toDigits_of_lt_base hd

theorem Valid.next (h : Valid s) (hnext : s.next ch = some s') :
    Valid s' ∧ s'.shown = s.shown ++ [ch] := by
  have hoctets := h.octets
  have hdone := h.done
  simp only [Scan.next] at hnext
  split at hnext
  · rename_i hdigit
    obtain ⟨hlt, hchar⟩ := digitChar_of_isDigit hdigit
    generalize ch.toNat - '0'.toNat = d at hlt hchar hnext
    subst hchar
    split at hnext
    · cases hnext
    · rename_i hleading
      split at hnext
      · cases hnext
      · rename_i hsmall
        split at hnext
        · rename_i hsaw
          cases hnext
          have hpos : 0 < s.tp := by
            rw [Nat.pos_iff_ne_zero]
            exact fun hzero => hleading ⟨hsaw, hzero⟩
          refine ⟨⟨hoctets, hdone, h.small, by simp only; omega, ?_⟩, ?_⟩
          · intro hfresh
            simp only [hsaw] at hfresh
            cases hfresh
          · simp only [shown, hsaw, if_true, List.append_assoc, decimal_append hpos hlt]
        · rename_i hsaw
          rw [Bool.not_eq_true] at hsaw
          split at hnext
          · cases hnext
          · cases hnext
            have hzero := h.fresh hsaw
            rw [hsaw] at hoctets
            refine ⟨⟨by simp only [if_true, hoctets]; rfl, hdone, h.small, by simp only; omega, ?_⟩,
              ?_⟩
            · exact fun hfresh => (by cases hfresh)
            · simp only [shown, hsaw, if_true, hzero, Nat.zero_mul, Nat.zero_add,
                decimal_of_lt hlt, Bool.false_eq_true, if_false, List.append_nil]
  · split at hnext
    · rename_i hdot
      obtain ⟨rfl, hsaw⟩ := hdot
      split at hnext
      · cases hnext
      · rename_i hfour
        cases hnext
        rw [hsaw, if_pos rfl] at hoctets
        refine ⟨⟨?_, ?_, ?_, by simp, fun _ => rfl⟩, ?_⟩
        · simp [hoctets]
        · simp only [List.length_append, List.length_singleton]
          omega
        · intro octet hmem
          rcases List.mem_append.mp hmem with hmem | hmem
          · exact h.small octet hmem
          · rw [List.mem_singleton.mp hmem]
            exact h.tp
        · simp [shown, hsaw]
    · cases hnext

theorem Valid.foldlM {text : Text} (h : Valid s) (hrun : text.foldlM Scan.next s = some s') :
    Valid s' ∧ s'.shown = s.shown ++ text := by
  induction text generalizing s with
  | nil =>
      cases hrun
      exact ⟨h, (List.append_nil _).symm⟩
  | cons ch text ih =>
      rw [List.foldlM_cons] at hrun
      obtain ⟨mid, hnext, hrest⟩ := Option.bind_eq_some_iff.mp hrun
      obtain ⟨hmid, hshown⟩ := h.next hnext
      obtain ⟨hvalid, hall⟩ := ih hmid hrest
      refine ⟨hvalid, ?_⟩
      rw [hall, hshown, List.append_assoc]
      rfl

/-- A first digit, and one that follows others than a zero. -/
theorem next_digitChar {d : Nat} (hd : d < 10) (hnew : s.tp * 10 + d < 256)
    (hgoes : if s.sawDigit then 0 < s.tp else s.octets < 4) :
    s.next (Nat.digitChar d) = some { s with
      tp := s.tp * 10 + d
      octets := if s.sawDigit then s.octets else s.octets + 1
      sawDigit := true } := by
  have hvalue : (Nat.digitChar d).toNat - '0'.toNat = d := by
    rw [Nat.toNat_digitChar_of_lt_ten hd]
    exact Nat.add_sub_cancel_left 48 d
  have hdigit : (Nat.digitChar d).isDigit = true := by
    rw [Nat.isDigit_digitChar, decide_eq_true hd]
  have hsmall : ¬ 255 < s.tp * 10 + d := by omega
  simp only [Scan.next, hdigit, hvalue, if_true, if_neg hsmall]
  cases hsaw : s.sawDigit with
  | true =>
      rw [hsaw, if_pos rfl] at hgoes
      have hleading : s.tp ≠ 0 := by omega
      simp [hleading]
  | false =>
      rw [hsaw] at hgoes
      have hroom : s.octets < 4 := hgoes
      have hfour : ¬ 4 < s.octets + 1 := by omega
      simp [hfour]

/-- The digits of an octet are read. -/
theorem foldlM_decimal (hfresh : s.sawDigit = false) (hzero : s.tp = 0) (hroom : s.octets < 4)
    (hn : n < 256) : (decimal n).foldlM Scan.next s =
      some { s with sawDigit := true, octets := s.octets + 1, tp := n } := by
  induction n using Nat.strongRecOn with
  | ind n ih =>
    rcases Nat.lt_or_ge n 10 with hlt | hge
    · have hnext := next_digitChar (s := s) hlt (by omega) (by simp [hfresh, hroom])
      rw [hzero, Nat.zero_mul, Nat.zero_add, hfresh] at hnext
      rw [decimal_of_lt hlt, List.foldlM_cons, hnext]
      rfl
    · have hmod : n % 10 < 10 := Nat.mod_lt n (by decide)
      have hdiv : n / 10 < n := Nat.div_lt_self (by omega) (by decide)
      have hsplit : decimal n = decimal (n / 10) ++ [Nat.digitChar (n % 10)] := by
        rw [decimal_append (by omega) hmod]
        congr 1
        omega
      rw [hsplit, List.foldlM_append, ih (n / 10) hdiv (by omega)]
      simp only [Option.bind_eq_bind, Option.bind_some, List.foldlM_cons, List.foldlM_nil]
      rw [next_digitChar hmod (by simp only; omega) (by simp only [if_true]; omega)]
      simp only [if_true, Option.bind_some]
      congr 2
      omega

theorem next_dot (hsaw : s.sawDigit = true) (hroom : s.octets < 4) :
    s.next '.' = some { s with done := s.done ++ [s.tp], tp := 0, sawDigit := false } := by
  have hdigit : ('.' : Char).isDigit = false := rfl
  have hfour : s.octets ≠ 4 := by omega
  simp only [Scan.next, hdigit, hsaw, Bool.false_eq_true, if_false, and_self, if_true, if_neg hfour]

end Scan

/-! ### Reading what was written -/

variable {a b c d : Nat} {addr : BitVec 32} {text : Text}

/-- The text of four octets. -/
def dotted (a b c d : Nat) : Text :=
  decimal a ++ '.' :: (decimal b ++ '.' :: (decimal c ++ '.' :: decimal d))

theorem inetNtop_eq_dotted (addr : BitVec 32) : inetNtop addr = dotted (addr.toNat >>> 24 % 256)
    (addr.toNat >>> 16 % 256) (addr.toNat >>> 8 % 256) (addr.toNat % 256) := by
  simp [inetNtop, dotted, List.intercalate]

theorem toNat_ofOctets (ha : a < 256) (hb : b < 256) (hc : c < 256) (hd : d < 256) :
    (ofOctets [a, b, c, d]).toNat = ((a * 256 + b) * 256 + c) * 256 + d := by
  simp only [ofOctets, List.foldl_cons, List.foldl_nil, BitVec.toNat_ofNat, Nat.zero_mul,
    Nat.zero_add]
  apply Nat.mod_eq_of_lt
  omega

theorem inetNtop_ofOctets (ha : a < 256) (hb : b < 256) (hc : c < 256) (hd : d < 256) :
    inetNtop (ofOctets [a, b, c, d]) = dotted a b c d := by
  rw [inetNtop_eq_dotted, toNat_ofOctets ha hb hc hd]
  simp only [Nat.shiftRight_eq_div_pow]
  congr 1 <;> omega

theorem ofOctets_octets (addr : BitVec 32) : ofOctets [addr.toNat >>> 24 % 256,
    addr.toNat >>> 16 % 256, addr.toNat >>> 8 % 256, addr.toNat % 256] = addr := by
  have hlt := addr.isLt
  apply BitVec.eq_of_toNat_eq
  rw [toNat_ofOctets (by omega) (by omega) (by omega) (by omega)]
  simp only [Nat.shiftRight_eq_div_pow]
  omega

theorem foldlM_dotted (ha : a < 256) (hb : b < 256) (hc : c < 256) (hd : d < 256) :
    (dotted a b c d).foldlM Scan.next Scan.init = some ⟨[a, b, c], true, 4, d⟩ := by
  have hoctet : ∀ (done : List Nat) (n k : Nat) (rest : Text), n < 256 → k < 3 →
      (decimal n ++ '.' :: rest).foldlM Scan.next ⟨done, false, k, 0⟩ =
        rest.foldlM Scan.next ⟨done ++ [n], false, k + 1, 0⟩ := by
    intro done n k rest hn hk
    rw [List.foldlM_append, Scan.foldlM_decimal rfl rfl (by simp only; omega) hn]
    simp only [Option.bind_eq_bind, Option.bind_some, List.foldlM_cons]
    rw [Scan.next_dot rfl (by simp only; omega), Option.bind_some]
  calc (dotted a b c d).foldlM Scan.next Scan.init
      = (decimal b ++ '.' :: (decimal c ++ '.' :: decimal d)).foldlM Scan.next
          ⟨[a], false, 1, 0⟩ := hoctet [] a 0 _ ha (by decide)
    _ = (decimal c ++ '.' :: decimal d).foldlM Scan.next ⟨[a, b], false, 2, 0⟩ :=
        hoctet [a] b 1 _ hb (by decide)
    _ = (decimal d).foldlM Scan.next ⟨[a, b, c], false, 3, 0⟩ :=
        hoctet [a, b] c 2 _ hc (by decide)
    _ = some ⟨[a, b, c], true, 4, d⟩ := Scan.foldlM_decimal rfl rfl (Nat.lt_succ_self 3) hd

theorem inetPton_inetNtop (addr : BitVec 32) : inetPton (inetNtop addr) = some addr := by
  have hoctet : ∀ n : Nat, n % 256 < 256 := fun n => Nat.mod_lt n (by decide)
  rw [inetPton, inetNtop_eq_dotted, foldlM_dotted (hoctet _) (hoctet _) (hoctet _) (hoctet _)]
  exact congrArg some (ofOctets_octets addr)

/-- Nothing else is read as an address. -/
theorem inetNtop_of_inetPton (h : inetPton text = some addr) : inetNtop addr = text := by
  unfold inetPton at h
  split at h
  · cases h
  · rename_i s hrun
    split at h
    · cases h
    · rename_i hfour
      cases h
      obtain ⟨hvalid, hshown⟩ := Scan.valid_init.foldlM hrun
      have hoctets := hvalid.octets
      have hdone := hvalid.done
      have hsaw : s.sawDigit = true := by
        by_contra hsaw
        rw [if_neg hsaw] at hoctets
        omega
      rw [hsaw, if_pos rfl] at hoctets
      obtain ⟨a, b, c, habc⟩ := List.length_eq_three.mp (by omega : s.done.length = 3)
      have hsmall := hvalid.small
      rw [habc] at hsmall ⊢
      simp only [List.mem_cons, forall_eq_or_imp, List.not_mem_nil, false_implies, implies_true,
        and_true] at hsmall
      obtain ⟨ha, hb, hc⟩ := hsmall
      calc inetNtop (ofOctets [a, b, c, s.tp]) = dotted a b c s.tp :=
            inetNtop_ofOctets ha hb hc hvalid.tp
        _ = s.shown := by simp [dotted, Scan.shown, habc, hsaw]
        _ = text := hshown

theorem inetPton_eq_some_iff : inetPton text = some addr ↔ inetNtop addr = text := by
  constructor
  · exact inetNtop_of_inetPton
  · rintro rfl
    exact inetPton_inetNtop addr

theorem inetNtop_injective {other : BitVec 32} (h : inetNtop addr = inetNtop other) :
    addr = other := by
  have hread := inetPton_inetNtop addr
  rw [h, inetPton_inetNtop, Option.some_inj] at hread
  exact hread.symm

/-! ### Addresses and their text -/

variable {inetNtop6 : BitVec 128 → Text} {inetPton6 : Text → Option (BitVec 128)}

/-- The text of the host and of the port, neither of which is cut off. -/
theorem snprintf_hostPort {host : Text} (port : BitVec 16) (hlength : host.length ≤ 45) :
    snprintf 128 host ++ snprintf (128 - (snprintf 128 host).length) (':' :: decimal port.toNat) =
      host ++ ':' :: decimal port.toNat := by
  have hport : (decimal port.toNat).length ≤ 5 :=
    length_decimal_le (by decide) (port.isLt.trans (by decide))
  have hhost : snprintf 128 host = host := List.take_of_length_le (by omega)
  have hrest : snprintf (128 - host.length) (':' :: decimal port.toNat) =
      ':' :: decimal port.toNat := by
    apply List.take_of_length_le
    rw [List.length_cons]
    omega
  rw [hhost, hrest]

theorem toString_inet (addr : BitVec 32) (port : BitVec 16) :
    (inet addr port).toString inetNtop6 = inetNtop addr ++ ':' :: decimal port.toNat :=
  snprintf_hostPort port ((length_inetNtop_le addr).trans (by decide))

/-- The text of an address is read as the address, and any other text as the address zero:
`inet_pton` reads the texts that `inet_ntop` writes and no others. -/
theorem toString_ofIp (ip : Text) (port : BitVec 16) :
    (∀ addr, inetPton ip = some addr ↔ inetNtop addr = ip) ∧
      (∀ addr, ip = inetNtop addr → ofIp inetPton6 ip port false = inet addr port ∧
        (ofIp inetPton6 ip port false).toString inetNtop6 = ip ++ ':' :: decimal port.toNat) ∧
      ((∀ addr, ip ≠ inetNtop addr) → ofIp inetPton6 ip port false = inet 0 port ∧
        (ofIp inetPton6 ip port false).toString inetNtop6 =
          "0.0.0.0:".toList ++ decimal port.toNat) := by
  have hof : ofIp inetPton6 ip port false = inet ((inetPton ip).getD 0) port := rfl
  refine ⟨fun addr => inetPton_eq_some_iff, ?_, ?_⟩
  · rintro addr rfl
    rw [hof, inetPton_inetNtop, Option.getD_some]
    exact ⟨rfl, toString_inet addr port⟩
  · intro hother
    have hnone : inetPton ip = none := by
      rw [Option.eq_none_iff_forall_ne_some]
      exact fun addr hread => hother addr (inetPton_eq_some_iff.mp hread).symm
    have hzero : inetNtop 0 = "0.0.0.0".toList := by decide
    rw [hof, hnone, Option.getD_none]
    refine ⟨rfl, ?_⟩
    calc (inet 0 port).toString inetNtop6
        = inetNtop 0 ++ ':' :: decimal port.toNat := toString_inet 0 port
      _ = "0.0.0.0:".toList ++ decimal port.toNat := by
          rw [hzero]
          rfl

/-- What stands behind the last colon. -/
theorem append_colon_inj {host host' rest rest' : Text} (hrest : ':' ∉ rest) (hrest' : ':' ∉ rest')
    (h : host ++ ':' :: rest = host' ++ ':' :: rest') : host = host' ∧ rest = rest' := by
  rcases List.append_eq_append_iff.mp h with ⟨mid, rfl, hmid⟩ | ⟨mid, rfl, hmid⟩
  · cases mid with
    | nil =>
        rw [List.append_nil]
        exact ⟨rfl, (List.cons_eq_cons.mp hmid).2⟩
    | cons first mid =>
        have htail : rest = mid ++ ':' :: rest' := (List.cons_eq_cons.mp hmid).2
        rw [htail] at hrest
        simp at hrest
  · cases mid with
    | nil =>
        rw [List.append_nil]
        exact ⟨rfl, (List.cons_eq_cons.mp hmid).2.symm⟩
    | cons first mid =>
        have htail : rest' = mid ++ ':' :: rest := (List.cons_eq_cons.mp hmid).2
        rw [htail] at hrest'
        simp at hrest'

theorem colon_not_mem_decimal (n : Nat) : ':' ∉ decimal n := by
  intro hmem
  have hdigit := Nat.isDigit_of_mem_toDigits (by decide : 0 < 10) (by decide) hmem
  cases hdigit

theorem decimal_injective {n n' : Nat} (h : decimal n = decimal n') : n = n' := by
  calc n = Nat.ofDigitChars 10 (decimal n) 0 := Nat.ofDigitChars_ten_toDigits.symm
    _ = Nat.ofDigitChars 10 (decimal n') 0 := by rw [h]
    _ = n' := Nat.ofDigitChars_ten_toDigits

theorem colon_not_mem_inetNtop (addr : BitVec 32) : ':' ∉ inetNtop addr := by
  rw [inetNtop_eq_dotted]
  simp [dotted, colon_not_mem_decimal]

theorem toString_inet6 (hlength : ∀ addr, (inetNtop6 addr).length ≤ 45) (addr : BitVec 128)
    (port : BitVec 16) :
    (inet6 addr port).toString inetNtop6 = inetNtop6 addr ++ ':' :: decimal port.toNat :=
  snprintf_hostPort port (hlength addr)

/-- The port of an internet address. -/
def port : InetAddress → Option (BitVec 16)
  | inet _ port | inet6 _ port => some port
  | unix _ => none

/-- Neither `snprintf` cuts anything off. -/
theorem toString_eq (hlength : ∀ addr, (inetNtop6 addr).length ≤ 45) {addr : InetAddress}
    {port : BitVec 16} (hport : addr.port = some port) :
    addr.toString inetNtop6 = addr.address inetNtop6 ++ ':' :: decimal port.toNat := by
  cases addr with
  | inet a port' =>
      cases hport
      exact toString_inet a _
  | inet6 a port' =>
      cases hport
      exact toString_inet6 hlength a _
  | unix path => cases hport

/-- The text of an internet address is whole, and different ones have different texts, where those
of `AF_INET6` have. -/
theorem toString_injective (hinj : Function.Injective inetNtop6)
    (hcolon : ∀ addr, ':' ∈ inetNtop6 addr) (hlength : ∀ addr, (inetNtop6 addr).length ≤ 45)
    {addr addr' : InetAddress} (hinet : ∀ path, addr ≠ .unix path)
    (hinet' : ∀ path, addr' ≠ .unix path) :
    (∀ port, addr.port = some port →
        addr.toString inetNtop6 = addr.address inetNtop6 ++ ':' :: decimal port.toNat) ∧
      (addr.toString inetNtop6 = addr'.toString inetNtop6 → addr = addr') := by
  refine ⟨fun port => toString_eq hlength, fun h => ?_⟩
  have hsplit : ∀ {host host' : Text} {port port' : BitVec 16},
      host ++ ':' :: decimal port.toNat = host' ++ ':' :: decimal port'.toNat →
        host = host' ∧ port = port' := by
    intro host host' port port' heq
    obtain ⟨hhost, hport⟩ :=
      append_colon_inj (colon_not_mem_decimal _) (colon_not_mem_decimal _) heq
    exact ⟨hhost, BitVec.eq_of_toNat_eq (decimal_injective hport)⟩
  cases addr with
  | inet a port =>
      rw [toString_inet] at h
      cases addr' with
      | inet a' port' =>
          rw [toString_inet] at h
          obtain ⟨hhost, rfl⟩ := hsplit h
          rw [inetNtop_injective hhost]
      | inet6 a' port' =>
          rw [toString_inet6 hlength] at h
          have hmem := hcolon a'
          rw [← (hsplit h).1] at hmem
          exact absurd hmem (colon_not_mem_inetNtop a)
      | unix path => exact absurd rfl (hinet' path)
  | inet6 a port =>
      rw [toString_inet6 hlength] at h
      cases addr' with
      | inet a' port' =>
          rw [toString_inet] at h
          have hmem := hcolon a
          rw [(hsplit h).1] at hmem
          exact absurd hmem (colon_not_mem_inetNtop a')
      | inet6 a' port' =>
          rw [toString_inet6 hlength] at h
          obtain ⟨hhost, rfl⟩ := hsplit h
          rw [hinj hhost]
      | unix path => exact absurd rfl (hinet' path)
  | unix path => exact absurd rfl (hinet path)

/-- `2001:db8:1:2:3:4:5:6` -/
def documentation6 : BitVec 128 := 0x20010db8000100020003000400050006#128

/-- `inet_ntop` where it is used below. -/
def ntop6AtDocumentation (addr : BitVec 128) : Text :=
  if addr = documentation6 then "2001:db8:1:2:3:4:5:6".toList else ':' :: decimal addr.toNat

theorem toString_injective_documentation :
    (inet6 documentation6 80).toString ntop6AtDocumentation
        = "2001:db8:1:2:3:4:5:6:80".toList ∧
      (inet6 documentation6 80).toString ntop6AtDocumentation ≠
        (inet6 documentation6 8080).toString ntop6AtDocumentation := by
  obtain ⟨hwhole, hsame⟩ : (∀ port, (inet6 documentation6 80).port = some port →
      (inet6 documentation6 80).toString ntop6AtDocumentation =
        (inet6 documentation6 80).address ntop6AtDocumentation ++ ':' :: decimal port.toNat) ∧
      ((inet6 documentation6 80).toString ntop6AtDocumentation =
        (inet6 documentation6 8080).toString ntop6AtDocumentation →
          inet6 documentation6 80 = inet6 documentation6 8080) := by
    refine toString_injective ?_ ?_ ?_ (by simp) (by simp)
    · intro addr other htext
      unfold ntop6AtDocumentation at htext
      split at htext
      · rename_i haddr
        split at htext
        · rename_i hother
          rw [haddr, hother]
        · exact absurd (List.cons_eq_cons.mp htext).1 (by decide)
      · split at htext
        · exact absurd (List.cons_eq_cons.mp htext).1 (by decide)
        · exact BitVec.eq_of_toNat_eq (decimal_injective (List.cons_eq_cons.mp htext).2)
    · intro addr
      unfold ntop6AtDocumentation
      split
      · decide
      · exact List.mem_cons_self
    · intro addr
      unfold ntop6AtDocumentation
      split
      · decide
      · have hlength : (decimal addr.toNat).length ≤ 39 :=
          length_decimal_le (by decide) (addr.isLt.trans (by decide))
        rw [List.length_cons]
        omega
  refine ⟨?_, fun h => by simpa using hsame h⟩
  rw [hwhole 80 rfl]
  decide

end InetAddress

end ToyBasket
