import Mathlib.Data.List.Basic
import Mathlib.Data.List.Perm.Basic

/-!
# Binary heaps in a vector

The heap algorithms of the C++ standard library, for any comparison `gt`: `gt x y` says that `x`
leaves the heap after `y`. They are written with swaps where the library moves a hole, which is the
same because the value in hand is compared but never stored on the way. What they do to a range that
is not a heap matters too, so the facts that need no order come first.
-/

namespace StdHeap

variable {α : Type*} {n : Nat} (gt : α → α → Bool)

/-- `__push_heap`: the value at `hole` moves up past parents that leave the heap after it, but not
beyond `top`. -/
def siftUp (top : Nat) : (fuel : Nat) → Vector α n → Fin n → Vector α n
  | 0, v, _ => v
  | fuel + 1, v, ⟨hole, h⟩ =>
      if top < hole ∧ gt v[(hole - 1) / 2] v[hole] then
        siftUp top fuel (v.swap ((hole - 1) / 2) hole) ⟨(hole - 1) / 2, by omega⟩
      else v

/-- The first half of `__adjust_heap`: the hole moves down to a leaf of the first `len` places,
along the children that leave the heap first. -/
def descend (len : Nat) (hlen : len ≤ n) : (fuel : Nat) → Vector α n → Fin n → Vector α n × Fin n
  | 0, v, hole => (v, hole)
  | fuel + 1, v, ⟨hole, h⟩ =>
      if hright : 2 * hole + 2 < len then
        if gt v[2 * hole + 2] v[2 * hole + 1] then
          descend len hlen fuel (v.swap hole (2 * hole + 1)) ⟨2 * hole + 1, by omega⟩
        else
          descend len hlen fuel (v.swap hole (2 * hole + 2)) ⟨2 * hole + 2, by omega⟩
      else if hleft : 2 * hole + 2 = len then
        (v.swap hole (2 * hole + 1), ⟨2 * hole + 1, by omega⟩)
      else (v, ⟨hole, h⟩)

def adjustHeap (len : Nat) (hlen : len ≤ n) (v : Vector α n) (hole : Fin n) : Vector α n :=
  let (w, leaf) := descend gt len hlen len v hole
  siftUp gt hole leaf w leaf

def toVector (l : List α) : Vector α l.length := ⟨l.toArray, by simp⟩

def pushHeap (l : List α) : List α :=
  if h : 0 < l.length then
    (siftUp gt 0 (l.length - 1) (toVector l) ⟨l.length - 1, by omega⟩).toList
  else l

def popHeap (l : List α) : List α :=
  if h : 1 < l.length then
    (adjustHeap gt (l.length - 1) (by omega) ((toVector l).swap 0 (l.length - 1))
      ⟨0, by omega⟩).toList
  else l

/-- The loop of `std::make_heap`, over the parents below `count`, from the last one down. -/
def makeHeapLoop : (count : Nat) → count ≤ n → Vector α n → Vector α n
  | 0, _, v => v
  | count + 1, h, v =>
      makeHeapLoop count (by omega) (adjustHeap gt n (Nat.le_refl n) v ⟨count, by omega⟩)

def makeHeap (l : List α) : List α :=
  if h : 2 ≤ l.length then
    (makeHeapLoop gt ((l.length - 2) / 2 + 1) (by omega) (toVector l)).toList
  else l

@[simp]
theorem toList_toVector (l : List α) : (toVector l).toList = l := by
  simp [toVector, Vector.toList]

@[simp]
theorem getElem_toVector (l : List α) {i : Nat} (h : i < l.length) : (toVector l)[i] = l[i] := by
  simp [toVector]

/-! ### Without any order -/

section Permutation

theorem siftUp_perm (top fuel : Nat) (v : Vector α n) (hole : Fin n) :
    (siftUp gt top fuel v hole).toList.Perm v.toList := by
  induction fuel generalizing v hole with
  | zero => exact .refl _
  | succ fuel ih =>
      rw [siftUp]
      split
      · exact (ih _ _).trans (Vector.swap_perm _ _).toList
      · exact .refl _

theorem descend_perm (len : Nat) (hlen : len ≤ n) (fuel : Nat) (v : Vector α n) (hole : Fin n) :
    (descend gt len hlen fuel v hole).1.toList.Perm v.toList := by
  induction fuel generalizing v hole with
  | zero => exact .refl _
  | succ fuel ih =>
      rw [descend]
      split
      · split
        · exact (ih _ _).trans (Vector.swap_perm _ _).toList
        · exact (ih _ _).trans (Vector.swap_perm _ _).toList
      · split
        · exact (Vector.swap_perm (by omega) (by omega)).toList
        · exact .refl _

theorem adjustHeap_perm (len : Nat) (hlen : len ≤ n) (v : Vector α n) (hole : Fin n) :
    (adjustHeap gt len hlen v hole).toList.Perm v.toList :=
  (siftUp_perm _ _ _ _ _).trans (descend_perm _ _ _ _ _ _)

theorem pushHeap_perm (l : List α) : (pushHeap gt l).Perm l := by
  unfold pushHeap
  split
  · simpa using siftUp_perm gt 0 (l.length - 1) (toVector l) _
  · exact .refl _

theorem makeHeapLoop_perm (count : Nat) (h : count ≤ n) (v : Vector α n) :
    (makeHeapLoop gt count h v).toList.Perm v.toList := by
  induction count generalizing v with
  | zero => exact .refl _
  | succ count ih => exact (ih _ _).trans (adjustHeap_perm _ _ _ _ _)

theorem makeHeap_perm (l : List α) : (makeHeap gt l).Perm l := by
  unfold makeHeap
  split
  · simpa using makeHeapLoop_perm gt _ _ (toVector l)
  · exact .refl _

/-- A place below the hole that does not leave the heap after the value is never passed by it. -/
theorem getElem_siftUp_of_not_gt (top fuel : Nat) (v : Vector α n) (hole : Fin n) {j : Nat}
    (hj : j < n) (hne : j ≠ hole) (hnot : gt v[j] v[hole] = false) :
    (siftUp gt top fuel v hole)[j] = v[j] := by
  induction fuel generalizing v hole with
  | zero => rfl
  | succ fuel ih =>
      obtain ⟨hole, h⟩ := hole
      rw [siftUp]
      split
      · rename_i hmove
        have hparent : j ≠ (hole - 1) / 2 := by
          rintro rfl
          exact absurd hmove.2 (by simpa using hnot)
        have hswap : (v.swap ((hole - 1) / 2) hole)[j] = v[j] :=
          Vector.getElem_swap_of_ne hparent hne
        rw [ih _ _ hparent, hswap]
        simpa [hswap] using hnot
      · rfl

theorem getElem?_pushHeap_of_not_gt {l : List α} {x y : α} {j : Nat} (hy : l[j]? = some y)
    (hnot : gt y x = false) : (pushHeap gt (l ++ [x]))[j]? = some y := by
  obtain ⟨hj, rfl⟩ := List.getElem?_eq_some_iff.mp hy
  have hlen : (l ++ [x]).length = l.length + 1 := by simp
  rw [pushHeap, dif_pos (by omega), List.getElem?_eq_getElem (by simp; omega),
    Vector.getElem_toList, getElem_siftUp_of_not_gt _ _ _ _ _ _ (by simp only; omega)]
  · rw [getElem_toVector, List.getElem_append_left hj]
  · rw [getElem_toVector, List.getElem_append_left hj]
    simpa using hnot

theorem getElem_siftUp_of_gt_hole (top fuel : Nat) (v : Vector α n) (hole : Fin n) {j : Nat}
    (hj : j < n) (hlt : hole < j) : (siftUp gt top fuel v hole)[j] = v[j] := by
  induction fuel generalizing v hole with
  | zero => rfl
  | succ fuel ih =>
      obtain ⟨hole, h⟩ := hole
      simp only at hlt
      rw [siftUp]
      split
      · rw [ih _ _ (by simp only; omega)]
        exact Vector.getElem_swap_of_ne (by omega) (by omega)
      · rfl

theorem descend_lt (len : Nat) (hlen : len ≤ n) (fuel : Nat) (v : Vector α n) (hole : Fin n)
    (h : hole < len) : (descend gt len hlen fuel v hole).2 < len := by
  induction fuel generalizing v hole with
  | zero => exact h
  | succ fuel ih =>
      obtain ⟨hole, hn⟩ := hole
      rw [descend]
      split
      · split
        · exact ih _ _ (by simp only; omega)
        · exact ih _ _ (by simp only; omega)
      · split
        · simp only
          omega
        · exact h

theorem getElem_descend_of_ge (len : Nat) (hlen : len ≤ n) (fuel : Nat) (v : Vector α n)
    (hole : Fin n) (h : hole < len) {j : Nat} (hj : j < n) (hge : len ≤ j) :
    (descend gt len hlen fuel v hole).1[j] = v[j] := by
  induction fuel generalizing v hole with
  | zero => rfl
  | succ fuel ih =>
      obtain ⟨hole, hn⟩ := hole
      simp only at h
      rw [descend]
      split
      · split
        · rw [ih _ _ (by simp only; omega)]
          exact Vector.getElem_swap_of_ne (by omega) (by omega)
        · rw [ih _ _ (by simp only; omega)]
          exact Vector.getElem_swap_of_ne (by omega) (by omega)
      · split
        · simp only
          rw [Vector.getElem_swap_of_ne (by omega) (by omega)]
        · rfl

theorem getElem_adjustHeap_of_ge (len : Nat) (hlen : len ≤ n) (v : Vector α n) (hole : Fin n)
    (h : hole < len) {j : Nat} (hj : j < n) (hge : len ≤ j) :
    (adjustHeap gt len hlen v hole)[j] = v[j] := by
  have hleaf := descend_lt gt len hlen len v hole h
  unfold adjustHeap
  rw [getElem_siftUp_of_gt_hole _ _ _ _ _ hj (by omega)]
  exact getElem_descend_of_ge gt len hlen len v hole h hj hge

theorem popHeap_perm (l : List α) : (popHeap gt l).Perm l := by
  unfold popHeap
  split
  · apply (adjustHeap_perm _ _ _ _ _).trans
    have hswap : ((toVector l).swap 0 (l.length - 1)).Perm (toVector l) :=
      Vector.swap_perm (by omega) (by omega)
    simpa using hswap.toList
  · exact .refl _

theorem concat_perm_cons {x : α} {l rest : List α} (h : rest.Perm l) :
    (rest ++ [x]).Perm (x :: l) :=
  (List.perm_append_singleton x rest).trans (h.cons x)

/-- `pop_heap` moves the root behind everything else, heap or not. -/
theorem popHeap_cons (x : α) (l : List α) :
    ∃ rest, popHeap gt (x :: l) = rest ++ [x] ∧ rest.Perm l := by
  have hperm := popHeap_perm gt (x :: l)
  have hlast : (popHeap gt (x :: l)).getLast? = some x := by
    unfold popHeap
    split
    · rename_i hlen
      rw [List.getLast?_eq_getElem?, Vector.length_toList, List.getElem?_eq_getElem (by simp),
        Vector.getElem_toList,
        getElem_adjustHeap_of_ge _ _ _ _ _ (by simp only; omega) _ (by omega),
        Vector.getElem_swap_right, getElem_toVector]
      rfl
    · rename_i hlen
      obtain rfl : l = [] := by
        rw [← List.length_eq_zero_iff]
        simp only [List.length_cons] at hlen
        omega
      rfl
  obtain ⟨rest, hrest⟩ := List.getLast?_eq_some_iff.mp hlast
  refine ⟨rest, hrest, ?_⟩
  rw [hrest] at hperm
  exact (List.perm_cons x).mp ((List.perm_append_singleton x rest).symm.trans hperm)

end Permutation

/-! ### Heap order -/

/-- The comparisons the algorithms are meant for: strict weak orders. -/
structure StrictWeakOrder : Prop where
  asymm : ∀ {x y}, gt x y = true → gt y x = false
  trans : ∀ {x y z}, gt x y = false → gt y z = false → gt x z = false

/-- No element leaves the heap before its parent. -/
def IsHeap (l : List α) : Prop :=
  ∀ c (h : c < l.length), 0 < c → gt (l[(c - 1) / 2]) l[c] = false

instance (l : List α) : Decidable (IsHeap gt l) :=
  inferInstanceAs (Decidable (∀ c (_ : c < l.length), 0 < c → gt (l[(c - 1) / 2]) l[c] = false))

/-- The order among the first `len` places, for the parents from `top` on. -/
def Ordered (top len : Nat) (v : Vector α n) : Prop :=
  ∀ c (h : c < n), c < len → 0 < c → top ≤ (c - 1) / 2 → gt v[(c - 1) / 2] v[c] = false

/-- Order everywhere but around `hole`, over which its parent and its children are in order. -/
structure OrderedAround (top len : Nat) (v : Vector α n) (hole : Fin n) : Prop where
  except : ∀ c (h : c < n), c < len → 0 < c → top ≤ (c - 1) / 2 → c ≠ hole →
    (c - 1) / 2 ≠ hole → gt v[(c - 1) / 2] v[c] = false
  grand : ∀ c (h : c < n), c < len → 0 < c → top < hole.val → (c - 1) / 2 = hole →
    gt v[(hole.val - 1) / 2] v[c] = false

/-- `p` is `top` or one of the places below it in the tree. -/
inductive Below (top : Nat) : Nat → Prop
  | refl : Below top top
  | child {c : Nat} : 0 < c → Below top ((c - 1) / 2) → Below top c

theorem Below.le {top p : Nat} (h : Below top p) : top ≤ p := by
  induction h with
  | refl => exact Nat.le_refl _
  | child hc _ ih => omega

theorem Below.parent {top p : Nat} (h : Below top p) (hlt : top < p) : Below top ((p - 1) / 2) := by
  cases h with
  | refl => omega
  | child _ h => exact h

theorem below_zero (p : Nat) : Below 0 p := by
  induction p using Nat.strongRecOn with
  | ind p ih =>
      by_cases hp : p = 0
      · subst hp
        exact .refl
      · exact .child (by omega) (ih _ (by omega))

variable {gt}

theorem StrictWeakOrder.refl (ho : StrictWeakOrder gt) (x : α) : gt x x = false := by
  cases hx : gt x x with
  | false => rfl
  | true => exact hx.symm.trans (ho.asymm hx)

theorem OrderedAround.ordered {top len : Nat} {v : Vector α n} {hole : Fin n}
    (hv : OrderedAround gt top len v hole)
    (hvalue : ∀ c (h : c < n), c < len → 0 < c → (c - 1) / 2 = hole → gt v[hole] v[c] = false)
    (hstop : top < hole.val → gt v[(hole.val - 1) / 2] v[hole] = false) :
    Ordered gt top len v := by
  intro c hc hlen hpos htop
  by_cases hhole : c = hole
  · subst hhole
    exact hstop (by omega)
  · by_cases hparent : (c - 1) / 2 = hole
    · simpa only [hparent, Fin.getElem_fin] using hvalue c hc hlen hpos hparent
    · exact hv.except c hc hlen hpos htop hhole hparent

/-- One step up: the parent comes down into the hole. -/
theorem OrderedAround.up (ho : StrictWeakOrder gt) {top len hole : Nat} {v : Vector α n}
    (h : hole < n) (hlen : hole < len) (hbelow : Below top hole) (hlt : top < hole)
    (hv : OrderedAround gt top len v ⟨hole, h⟩) (hmove : gt v[(hole - 1) / 2] v[hole] = true) :
    OrderedAround gt top len (v.swap ((hole - 1) / 2) hole) ⟨(hole - 1) / 2, by omega⟩ ∧
      ∀ c (hc : c < n), c < len → 0 < c → (c - 1) / 2 = (hole - 1) / 2 →
        gt (v.swap ((hole - 1) / 2) hole)[(hole - 1) / 2] (v.swap ((hole - 1) / 2) hole)[c]
          = false := by
  have hparent := hbelow.parent hlt
  have htop := hparent.le
  -- the other child of the parent, if there is one, stays behind it
  have hsibling : ∀ c (hc : c < n), c < len → 0 < c → (c - 1) / 2 = (hole - 1) / 2 → c ≠ hole →
      gt v[(hole - 1) / 2] v[c] = false := by
    intro c hc hclen hpos hpc hne
    have := hv.except c hc hclen hpos (by omega) hne (by simp only; omega)
    simpa only [hpc] using this
  refine ⟨⟨?_, ?_⟩, ?_⟩
  · intro c hc hclen hpos hctop hne hpne
    simp only at hne hpne
    by_cases hpc : (c - 1) / 2 = hole
    · have hgrand := hv.grand c hc hclen hpos hlt hpc
      rw [Vector.getElem_swap_of_ne (k := c) (by omega) (by omega)]
      simpa only [hpc, Vector.getElem_swap_right] using hgrand
    · have hchole : c ≠ hole := by
        rintro rfl
        exact hpne rfl
      rw [Vector.getElem_swap_of_ne (k := c) (by omega) (by omega),
        Vector.getElem_swap_of_ne (by omega) (by omega)]
      exact hv.except c hc hclen hpos hctop hchole hpc
  · intro c hc hclen hpos hplt hpc
    simp only at hplt hpc ⊢
    have hup : gt v[((hole - 1) / 2 - 1) / 2] v[(hole - 1) / 2] = false :=
      hv.except ((hole - 1) / 2) (by omega) (by omega) (by omega) (hparent.parent hplt).le
        (by simp only; omega) (by simp only; omega)
    rw [Vector.getElem_swap_of_ne (by omega) (by omega)]
    by_cases hchole : c = hole
    · subst hchole
      rwa [Vector.getElem_swap_right]
    · rw [Vector.getElem_swap_of_ne (k := c) (by omega) (by omega)]
      exact ho.trans hup (hsibling c hc hclen hpos hpc hchole)
  · intro c hc hclen hpos hpc
    have hback := ho.asymm hmove
    rw [Vector.getElem_swap_left]
    by_cases hchole : c = hole
    · subst hchole
      rwa [Vector.getElem_swap_right]
    · rw [Vector.getElem_swap_of_ne (k := c) (by omega) (by omega)]
      exact ho.trans hback (hsibling c hc hclen hpos hpc hchole)

theorem ordered_siftUp (ho : StrictWeakOrder gt) {top len fuel : Nat} {v : Vector α n}
    {hole : Fin n} (hfuel : hole ≤ fuel) (hlen : hole < len) (hbelow : Below top hole)
    (hv : OrderedAround gt top len v hole)
    (hvalue : ∀ c (h : c < n), c < len → 0 < c → (c - 1) / 2 = hole → gt v[hole] v[c] = false) :
    Ordered gt top len (siftUp gt top fuel v hole) := by
  induction fuel generalizing v hole with
  | zero => exact hv.ordered hvalue (fun hlt => by omega)
  | succ fuel ih =>
      obtain ⟨hole, h⟩ := hole
      rw [siftUp]
      split
      · rename_i hmove
        obtain ⟨haround, hchildren⟩ := hv.up ho h hlen hbelow hmove.1 hmove.2
        exact ih (by simp only at hfuel ⊢; omega) (by simp only at hlen ⊢; omega)
          (hbelow.parent hmove.1) haround hchildren
      · rename_i hstay
        refine hv.ordered hvalue fun hlt => ?_
        exact Bool.eq_false_iff.mpr fun hgt => hstay ⟨hlt, hgt⟩

/-- One step down: the child that leaves the heap first comes up into the hole. -/
theorem OrderedAround.down {top len hole child : Nat} {v : Vector α n}
    (h : hole < n) (hchild : child < n) (hclen : child < len) (hpos : 0 < child)
    (hparent : (child - 1) / 2 = hole) (hbelow : Below top hole)
    (hv : OrderedAround gt top len v ⟨hole, h⟩)
    (hfirst : ∀ c (hc : c < n), c < len → 0 < c → (c - 1) / 2 = hole → gt v[child] v[c] = false) :
    OrderedAround gt top len (v.swap hole child) ⟨child, hchild⟩ := by
  have htop := hbelow.le
  refine ⟨?_, ?_⟩
  · intro c hc hlen hcpos hctop hne hpne
    simp only at hne hpne
    by_cases hpc : (c - 1) / 2 = hole
    · -- a sibling of the child that moved up
      rw [Vector.getElem_swap_of_ne (k := c) (by omega) (by omega)]
      simpa only [hpc, Vector.getElem_swap_left] using hfirst c hc hlen hcpos hpc
    · rw [Vector.getElem_swap_of_ne (k := (c - 1) / 2) (by omega) (by omega)]
      by_cases hchole : c = hole
      · subst hchole
        rw [Vector.getElem_swap_left]
        exact hv.grand child hchild hclen hpos (by simp only; omega) hparent
      · rw [Vector.getElem_swap_of_ne (k := c) (by omega) (by omega)]
        exact hv.except c hc hlen hcpos hctop hchole hpc
  · intro c hc hlen hcpos hlt hpc
    simp only at hpc ⊢
    rw [Vector.getElem_swap_of_ne (k := c) (by omega) (by omega)]
    have hkeep := hv.except c hc hlen hcpos (by omega) (by simp only; omega) (by simp only; omega)
    simpa only [hparent, hpc, Vector.getElem_swap_left] using hkeep

theorem orderedAround_descend (ho : StrictWeakOrder gt) {top len fuel : Nat} (hlen : len ≤ n)
    {v : Vector α n} {hole : Fin n} (hfuel : len ≤ hole + fuel) (hhole : hole < len)
    (hbelow : Below top hole) (hv : OrderedAround gt top len v hole) :
    OrderedAround gt top len (descend gt len hlen fuel v hole).1
        (descend gt len hlen fuel v hole).2 ∧
      Below top (descend gt len hlen fuel v hole).2 ∧
      len ≤ 2 * (descend gt len hlen fuel v hole).2.val + 1 := by
  induction fuel generalizing v hole with
  | zero => omega
  | succ fuel ih =>
      obtain ⟨hole, h⟩ := hole
      simp only at hfuel hhole hbelow
      have hrefl := ho.refl
      rw [descend]
      split
      · rename_i hright
        have hchildren : ∀ c, 0 < c → (c - 1) / 2 = hole → c = 2 * hole + 1 ∨ c = 2 * hole + 2 := by
          omega
        split
        · rename_i hgt
          refine ih (by simp only; omega) (by simp only; omega)
            (.child (Nat.succ_pos _) (by rwa [show (2 * hole + 1 - 1) / 2 = hole by omega])) ?_
          apply hv.down h _ (by omega) (by omega) (by omega) hbelow
          intro c hc hclen hcpos hpc
          obtain rfl | rfl := hchildren c hcpos hpc
          · exact hrefl _
          · exact ho.asymm hgt
        · rename_i hgt
          refine ih (by simp only; omega) (by simp only; omega)
            (.child (Nat.succ_pos _) (by rwa [show (2 * hole + 2 - 1) / 2 = hole by omega])) ?_
          apply hv.down h _ (by omega) (by omega) (by omega) hbelow
          intro c hc hclen hcpos hpc
          obtain rfl | rfl := hchildren c hcpos hpc
          · simpa using hgt
          · exact hrefl _
      · split
        · rename_i hleft
          refine ⟨?_, .child (by simp only; omega) ?_, by simp only; omega⟩
          · apply hv.down h _ (by omega) (by omega) (by omega) hbelow
            intro c hc hclen hcpos hpc
            obtain rfl : c = 2 * hole + 1 := by omega
            exact hrefl _
          · simp only
            rwa [show (2 * hole + 1 - 1) / 2 = hole by omega]
        · exact ⟨hv, hbelow, by simp only; omega⟩

theorem ordered_adjustHeap (ho : StrictWeakOrder gt) {len : Nat} (hlen : len ≤ n) {v : Vector α n}
    {hole : Fin n} (hhole : hole < len) (hv : Ordered gt (hole + 1) len v) :
    Ordered gt hole len (adjustHeap gt len hlen v hole) := by
  have hstart : OrderedAround gt hole.val len v hole := by
    refine ⟨?_, ?_⟩
    · intro c hc hclen hpos htop _ hpne
      exact hv c hc hclen hpos (by omega)
    · intro c hc hclen hpos hlt
      omega
  obtain ⟨haround, hbelow, hleaf⟩ :=
    orderedAround_descend ho hlen (Nat.le_add_left len hole) hhole .refl hstart
  have hlt := descend_lt gt len hlen len v hole hhole
  exact ordered_siftUp ho (Nat.le_refl _) hlt hbelow haround
    (fun c hc hclen hpos hpc => by omega)

theorem ordered_makeHeapLoop (ho : StrictWeakOrder gt) {count : Nat} (h : count ≤ n)
    {v : Vector α n} (hv : Ordered gt count n v) : Ordered gt 0 n (makeHeapLoop gt count h v) := by
  induction count generalizing v with
  | zero => exact hv
  | succ count ih =>
      have hhole : ((⟨count, by omega⟩ : Fin n) : Nat) < n := h
      exact ih (by omega) (ordered_adjustHeap ho (Nat.le_refl n) hhole hv)

/-! ### The order of the four algorithms -/

theorem isHeap_toList {v : Vector α n} (h : Ordered gt 0 n v) : IsHeap gt v.toList := by
  intro c hc hpos
  rw [Vector.length_toList] at hc
  simpa using h c hc hc hpos (Nat.zero_le _)

theorem isHeap_nil : IsHeap gt ([] : List α) := by
  intro c hc
  simp at hc

theorem isHeap_of_append {l l' : List α} (h : IsHeap gt (l ++ l')) : IsHeap gt l := by
  intro c hc hpos
  have hboth := h c (by rw [List.length_append]; omega) hpos
  rwa [List.getElem_append_left (by omega), List.getElem_append_left hc] at hboth

theorem isHeap_makeHeap (ho : StrictWeakOrder gt) (l : List α) : IsHeap gt (makeHeap gt l) := by
  unfold makeHeap
  split
  · rename_i hlen
    refine isHeap_toList (ordered_makeHeapLoop ho _ ?_)
    intro c hc hclen hpos htop
    omega
  · intro c hc hpos
    omega

theorem isHeap_pushHeap (ho : StrictWeakOrder gt) {l : List α} {x : α} (h : IsHeap gt l) :
    IsHeap gt (pushHeap gt (l ++ [x])) := by
  have hlen : (l ++ [x]).length = l.length + 1 := by simp
  rw [pushHeap, dif_pos (by omega)]
  refine isHeap_toList (ordered_siftUp ho (Nat.le_refl _) (by simp only; omega) (below_zero _)
    ⟨?_, ?_⟩ ?_)
  · intro c hc _ hpos _ hne _
    simp only at hne
    have := h c (by omega) hpos
    rwa [getElem_toVector, getElem_toVector, List.getElem_append_left (by omega),
      List.getElem_append_left (by omega)]
  · intro c hc _ hpos _ hpc
    simp only at hpc
    omega
  · intro c hc _ hpos hpc
    simp only at hpc
    omega

theorem isHeap_popHeap (ho : StrictWeakOrder gt) {x : α} {l rest : List α}
    (h : IsHeap gt (x :: l)) (hpop : popHeap gt (x :: l) = rest ++ [x]) : IsHeap gt rest := by
  intro c hc hpos
  by_cases hlen : 1 < (x :: l).length
  · have hlength := congrArg List.length hpop
    rw [popHeap, dif_pos hlen] at hpop hlength
    simp only [Vector.length_toList, List.length_append, List.length_singleton] at hlength
    have hordered : Ordered gt 0 ((x :: l).length - 1)
        (adjustHeap gt ((x :: l).length - 1) (by omega)
          ((toVector (x :: l)).swap 0 ((x :: l).length - 1)) ⟨0, by omega⟩) := by
      have hhole : ((⟨0, by omega⟩ : Fin (x :: l).length) : Nat) < (x :: l).length - 1 :=
        Nat.sub_pos_of_lt hlen
      apply ordered_adjustHeap ho _ hhole
      intro d hd hdlen hdpos hdtop
      simp only [Nat.zero_add] at hdtop
      rw [Vector.getElem_swap_of_ne (by omega) (by omega),
        Vector.getElem_swap_of_ne (by omega) (by omega), getElem_toVector, getElem_toVector]
      exact h d hd hdpos
    have hget : ∀ d (hd : d < rest.length),
        rest[d] = (adjustHeap gt ((x :: l).length - 1) (by omega)
        ((toVector (x :: l)).swap 0 ((x :: l).length - 1)) ⟨0, by omega⟩)[d] := by
      intro d hd
      have := List.getElem_of_eq hpop (i := d) (by rw [Vector.length_toList]; omega)
      rw [Vector.getElem_toList, List.getElem_append_left hd] at this
      exact this.symm
    rw [hget, hget]
    exact hordered c (by omega) (by omega) hpos (Nat.zero_le _)
  · rw [popHeap, dif_neg hlen] at hpop
    have hlength := congrArg List.length hpop
    simp only [List.length_append, List.length_singleton] at hlength
    omega

theorem IsHeap.root (ho : StrictWeakOrder gt) {x : α} {l : List α} (h : IsHeap gt (x :: l)) :
    ∀ y ∈ x :: l, gt x y = false := by
  have hall : ∀ c (hc : c < (x :: l).length), gt x (x :: l)[c] = false := by
    intro c
    induction c using Nat.strongRecOn with
    | ind c ih =>
        intro hc
        by_cases hpos : 0 < c
        · exact ho.trans (ih ((c - 1) / 2) (by omega) (by omega)) (h c hc hpos)
        · obtain rfl : c = 0 := by omega
          exact ho.refl x
  intro y hy
  obtain ⟨c, hc, rfl⟩ := List.getElem_of_mem hy
  exact hall c hc

end StdHeap
