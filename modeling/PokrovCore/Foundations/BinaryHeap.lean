import Mathlib.Data.List.Perm.Basic
import Mathlib.Order.Lattice

/-!
# Foundations/BinaryHeap — a binary heap in a list

The items of a heap stand in a list, the children of position `i` at `2 * i + 1` and `2 * i + 2`, and
no item has a smaller key than its parent.  A new item is appended and rises; for the first item the
last one takes its place and sinks.  Items of one key keep no order among themselves, and which of
them comes first is decided by the positions alone.

* `push_perm`, `pop_perm` — the items are those that were pushed and not popped;
* `Ordered.push`, `Ordered.pop`, `Ordered.pop_le` — the order is kept, and what is popped is least.
-/

namespace PokrovCore.BinaryHeap

variable {α κ : Type*} [LinearOrder κ] (key : α → κ)

/-! ## The operations -/

/-- The items at two positions change places. -/
def swap (l : List α) (i j : ℕ) : List α :=
  match l[i]?, l[j]? with
  | some a, some b => (l.set i b).set j a
  | _, _ => l

/-- Is the key at a position smaller than at another? -/
def less (l : List α) (i j : ℕ) : Bool :=
  match l[i]?, l[j]? with
  | some a, some b => decide (key a < key b)
  | _, _ => false

/-- The item at `j` rises; `j` turns are enough. -/
def up : ℕ → ℕ → List α → List α
  | 0, _, l => l
  | n + 1, j, l =>
    if (j - 1) / 2 = j ∨ less key l j ((j - 1) / 2) = false then l
    else up n ((j - 1) / 2) (swap l ((j - 1) / 2) j)

/-- The child of `i` with the smaller key, the left one if they are equal. -/
def child (l : List α) (i : ℕ) : ℕ :=
  if 2 * i + 2 < l.length ∧ less key l (2 * i + 2) (2 * i + 1) = true then 2 * i + 2 else 2 * i + 1

/-- The item at `i` sinks; as many turns as there are items are enough. -/
def down : ℕ → ℕ → List α → List α
  | 0, _, l => l
  | n + 1, i, l =>
    if l.length ≤ 2 * i + 1 then l
    else if less key l (child key l i) i = false then l
    else down n (child key l i) (swap l i (child key l i))

def push (l : List α) (a : α) : List α := up key l.length l.length (l ++ [a])

/-- The last item takes the first place and sinks. -/
def refill (rest : List α) : List α :=
  match rest.getLast? with
  | none => []
  | some z => down key rest.length 0 (z :: rest.dropLast)

def pop : List α → Option (α × List α)
  | [] => none
  | a :: rest => some (a, refill key rest)

/-! ## The items -/

section items

variable {key} {l : List α} {i j : ℕ} {a b : α}

theorem swap_eq (hi : l[i]? = some a) (hj : l[j]? = some b) :
    swap l i j = (l.set i b).set j a := by
  unfold swap
  rw [hi, hj]

theorem swap_perm (l : List α) (i j : ℕ) : (swap l i j).Perm l := by
  unfold swap
  split
  · rename_i a b hi hj
    obtain ⟨hilt, rfl⟩ := List.getElem?_eq_some_iff.mp hi
    obtain ⟨hjlt, rfl⟩ := List.getElem?_eq_some_iff.mp hj
    have hperm := @Array.swap_perm _ l.toArray i j hilt hjlt
    simpa [Array.swap, Array.perm_iff_toList_perm] using hperm
  · exact .refl l

theorem up_perm : ∀ (n j : ℕ) (l : List α), (up key n j l).Perm l
  | 0, _, l => .refl l
  | n + 1, j, l => by
    unfold up
    split
    · exact .refl l
    · exact (up_perm n _ _).trans (swap_perm l _ _)

theorem down_perm : ∀ (n i : ℕ) (l : List α), (down key n i l).Perm l
  | 0, _, l => .refl l
  | n + 1, i, l => by
    unfold down
    split
    · exact .refl l
    · split
      · exact .refl l
      · exact (down_perm n _ _).trans (swap_perm l _ _)

theorem push_perm (l : List α) (a : α) : (push key l a).Perm (a :: l) :=
  (up_perm _ _ _).trans (List.perm_append_singleton a l)

theorem refill_perm (rest : List α) : (refill key rest).Perm rest := by
  unfold refill
  split
  · rename_i hnone
    rw [List.getLast?_eq_none_iff.mp hnone]
  · rename_i z hlast
    have hrest : rest.dropLast ++ [z] = rest := List.dropLast_append_getLast? z hlast
    have hmove : (z :: rest.dropLast).Perm (rest.dropLast ++ [z]) :=
      (List.perm_append_singleton z _).symm
    rw [hrest] at hmove
    exact (down_perm _ _ _).trans hmove

theorem pop_perm {l l' : List α} (h : pop key l = some (a, l')) : l.Perm (a :: l') := by
  cases l with
  | nil => cases h
  | cons c rest =>
    cases h
    exact List.Perm.cons a (refill_perm rest).symm

end items

/-! ## The order -/

section order

variable {key} {l l' : List α} {K : ℕ → Option κ} {i j : ℕ} {a : α}

/-- The keys of a list, by position. -/
def keys (key : α → κ) (l : List α) (i : ℕ) : Option κ := (l[i]?).map key

/-- Two positions of a function change places. -/
def swapAt (K : ℕ → Option κ) (i j k : ℕ) : Option κ :=
  if k = i then K j else if k = j then K i else K k

/-- **The order of a heap**: no key is smaller than that of its parent. -/
def Ordered (K : ℕ → Option κ) : Prop :=
  ∀ k x y, 0 < k → K ((k - 1) / 2) = some x → K k = some y → x ≤ y

/-- The order but for the key at `j` and its parent; the children of `j` are in order with that
parent. -/
structure Rising (K : ℕ → Option κ) (j : ℕ) : Prop where
  other : ∀ k x y, 0 < k → k ≠ j → K ((k - 1) / 2) = some x → K k = some y → x ≤ y
  around : ∀ k x y, 0 < k → 0 < j → (k - 1) / 2 = j → K ((j - 1) / 2) = some x → K k = some y →
    x ≤ y

/-- The order but for the key at `i` and its children; these are in order with the parent of
`i`. -/
structure Sinking (K : ℕ → Option κ) (i : ℕ) : Prop where
  other : ∀ k x y, 0 < k → (k - 1) / 2 ≠ i → K ((k - 1) / 2) = some x → K k = some y → x ≤ y
  around : ∀ k x y, 0 < k → 0 < i → (k - 1) / 2 = i → K ((i - 1) / 2) = some x → K k = some y →
    x ≤ y

omit [LinearOrder κ] in
theorem swapAt_left (K : ℕ → Option κ) (i j : ℕ) : swapAt K i j i = K j := if_pos rfl

omit [LinearOrder κ] in
theorem swapAt_right (K : ℕ → Option κ) (h : j ≠ i) : swapAt K i j j = K i := by
  rw [swapAt, if_neg h, if_pos rfl]

omit [LinearOrder κ] in
theorem swapAt_of_ne (K : ℕ → Option κ) {k : ℕ} (hi : k ≠ i) (hj : k ≠ j) :
    swapAt K i j k = K k := by
  rw [swapAt, if_neg hi, if_neg hj]

omit [LinearOrder κ] in
theorem keys_swap (key : α → κ) (hi : i < l.length) (hj : j < l.length) :
    keys key (swap l i j) = swapAt (keys key l) i j := by
  have hgi := List.getElem?_eq_getElem hi
  have hgj := List.getElem?_eq_getElem hj
  funext k
  rw [swap_eq hgi hgj]
  unfold keys swapAt
  rw [List.getElem?_set, List.getElem?_set, List.length_set]
  by_cases hkj : j = k
  · subst hkj
    by_cases hki : j = i
    · subst hki
      simp [hj]
    · simp [hj, hki, hgi]
  · by_cases hki : i = k
    · subst hki
      simp [hi, hkj, hgj]
    · simp [hkj, hki, Ne.symm hkj, Ne.symm hki]

theorem less_iff (hi : i < l.length) (hj : j < l.length) :
    less key l i j = true ↔ ∃ x y, keys key l i = some x ∧ keys key l j = some y ∧ x < y := by
  unfold less keys
  rw [List.getElem?_eq_getElem hi, List.getElem?_eq_getElem hj]
  simp

/-- **The key at `j` rises past its parent.** -/
theorem Rising.swap (h : Rising K j) {x y : κ} (hj : 0 < j) (hx : K j = some x)
    (hy : K ((j - 1) / 2) = some y) (hxy : x < y) :
    Rising (swapAt K ((j - 1) / 2) j) ((j - 1) / 2) := by
  have hij : j ≠ (j - 1) / 2 := by omega
  refine ⟨fun k u v hk hne hu hv => ?_, fun k u v hk hpos hpar hu hv => ?_⟩
  · by_cases hkj : k = j
    · subst hkj
      rw [swapAt_left, hx] at hu
      rw [swapAt_right K hij, hy] at hv
      exact Option.some.inj hu ▸ Option.some.inj hv ▸ le_of_lt hxy
    rw [swapAt_of_ne K hne hkj] at hv
    by_cases hparj : (k - 1) / 2 = j
    · rw [hparj, swapAt_right K hij] at hu
      exact h.around k u v hk hj hparj hu hv
    by_cases hpari : (k - 1) / 2 = (j - 1) / 2
    · rw [hpari, swapAt_left, hx] at hu
      have hold := h.other k y v hk hkj (hpari ▸ hy) hv
      exact Option.some.inj hu ▸ le_trans (le_of_lt hxy) hold
    · rw [swapAt_of_ne K hpari hparj] at hu
      exact h.other k u v hk hkj hu hv
  · have hgi : ((j - 1) / 2 - 1) / 2 ≠ (j - 1) / 2 := by omega
    have hgj : ((j - 1) / 2 - 1) / 2 ≠ j := by omega
    rw [swapAt_of_ne K hgi hgj] at hu
    have htop := h.other ((j - 1) / 2) u y hpos (by omega) hu hy
    by_cases hkj : k = j
    · subst hkj
      rw [swapAt_right K hij, hy] at hv
      exact Option.some.inj hv ▸ htop
    · rw [swapAt_of_ne K (by omega) hkj] at hv
      exact le_trans htop (h.other k y v hk hkj (hpar ▸ hy) hv)

/-- **Where the key does not rise, the order holds.** -/
theorem Rising.ordered (h : Rising K j)
    (hstop : ∀ x y, 0 < j → K ((j - 1) / 2) = some x → K j = some y → x ≤ y) : Ordered K := by
  intro k x y hk hx hy
  by_cases hkj : k = j
  · subst hkj
    exact hstop x y hk hx hy
  · exact h.other k x y hk hkj hx hy

theorem swap_length (l : List α) (i j : ℕ) : (BinaryHeap.swap l i j).length = l.length :=
  (swap_perm l i j).length_eq

/-- **Rising restores the order.** -/
theorem ordered_up : ∀ {n j : ℕ} {l : List α}, j ≤ n → j < l.length → Rising (keys key l) j →
    Ordered (keys key (up key n j l))
  | 0, j, l, hn, _, h => h.ordered fun x y hj _ _ => by omega
  | n + 1, j, l, hn, hlt, h => by
    have hpar : (j - 1) / 2 < l.length := by omega
    unfold up
    split
    · rename_i hstop
      refine h.ordered fun x y hj hx hy => ?_
      by_contra hxy
      have hless := (less_iff hlt hpar).mpr ⟨y, x, hy, hx, lt_of_not_ge hxy⟩
      obtain hroot | hfalse := hstop
      · omega
      · rw [hless] at hfalse
        cases hfalse
    · rename_i hgo
      obtain ⟨hne, hless⟩ := not_or.mp hgo
      obtain ⟨x, y, hx, hy, hxy⟩ := (less_iff hlt hpar).mp (Bool.of_not_eq_false hless)
      have hswap := h.swap (by omega) hx hy hxy
      rw [← keys_swap key hpar hlt] at hswap
      exact ordered_up (by omega) (by rw [swap_length]; exact hpar) hswap

/-- **The key at `i` sinks below the smaller of its children.** -/
theorem Sinking.swap (h : Sinking K i) {x y : κ} (hj : 0 < j) (hpar : (j - 1) / 2 = i)
    (hx : K i = some x) (hy : K j = some y) (hyx : y < x)
    (hmin : ∀ k z, 0 < k → (k - 1) / 2 = i → K k = some z → y ≤ z) :
    Sinking (swapAt K i j) j := by
  have hij : j ≠ i := by omega
  refine ⟨fun k u v hk hne hu hv => ?_, fun k u v hk _ hkj hu hv => ?_⟩
  · by_cases hki : k = i
    · subst hki
      rw [swapAt_of_ne K (by omega) hne] at hu
      rw [swapAt_left] at hv
      exact h.around j u v hj hk hpar hu hv
    by_cases hpari : (k - 1) / 2 = i
    · rw [hpari, swapAt_left, hy] at hu
      by_cases hkj : k = j
      · subst hkj
        rw [swapAt_right K hij, hx] at hv
        exact Option.some.inj hu ▸ Option.some.inj hv ▸ le_of_lt hyx
      · rw [swapAt_of_ne K hki hkj] at hv
        exact Option.some.inj hu ▸ hmin k v hk hpari hv
    · have hkj : k ≠ j := fun hkj => hpari (hkj ▸ hpar)
      rw [swapAt_of_ne K hpari hne] at hu
      rw [swapAt_of_ne K hki hkj] at hv
      exact h.other k u v hk hpari hu hv
  · rw [hpar, swapAt_left] at hu
    rw [swapAt_of_ne K (by omega) (by omega)] at hv
    exact h.other k u v hk (by omega) (hkj ▸ hu) hv

/-- **Where the key does not sink, the order holds.** -/
theorem Sinking.ordered (h : Sinking K i)
    (hstop : ∀ k x y, 0 < k → (k - 1) / 2 = i → K i = some x → K k = some y → x ≤ y) :
    Ordered K := by
  intro k x y hk hx hy
  by_cases hpar : (k - 1) / 2 = i
  · exact hstop k x y hk hpar (hpar ▸ hx) hy
  · exact h.other k x y hk hpar hx hy

omit [LinearOrder κ] in
theorem keys_eq_some {k : ℕ} {x : κ} (h : keys key l k = some x) : k < l.length := by
  obtain ⟨a, ha, -⟩ := Option.map_eq_some_iff.mp h
  exact (List.getElem?_eq_some_iff.mp ha).1

omit [LinearOrder κ] in
theorem keys_of_lt {k : ℕ} (key : α → κ) (h : k < l.length) : ∃ x, keys key l k = some x :=
  ⟨key l[k], by rw [keys, List.getElem?_eq_getElem h]; rfl⟩

/-- The chosen child is one, and none has a smaller key. -/
theorem child_spec (hlt : 2 * i + 1 < l.length) :
    child key l i < l.length ∧ 0 < child key l i ∧ (child key l i - 1) / 2 = i ∧
      ∀ k x y, 0 < k → (k - 1) / 2 = i → keys key l (child key l i) = some x →
        keys key l k = some y → x ≤ y := by
  unfold child
  split
  · rename_i hright
    obtain ⟨hlen, hless⟩ := hright
    obtain ⟨u, v, hu, hv, huv⟩ := (less_iff hlen hlt).mp hless
    refine ⟨hlen, by omega, by omega, fun k x y hk hpar hx hy => ?_⟩
    obtain rfl | rfl : k = 2 * i + 1 ∨ k = 2 * i + 2 := by omega
    · rw [hu] at hx
      rw [hv] at hy
      exact Option.some.inj hx ▸ Option.some.inj hy ▸ le_of_lt huv
    · exact le_of_eq (Option.some.inj (hx.symm.trans hy))
  · rename_i hleft
    refine ⟨hlt, by omega, by omega, fun k x y hk hpar hx hy => ?_⟩
    obtain rfl | rfl : k = 2 * i + 1 ∨ k = 2 * i + 2 := by omega
    · exact le_of_eq (Option.some.inj (hx.symm.trans hy))
    · by_contra hxy
      have hlen := keys_eq_some hy
      exact hleft ⟨hlen, (less_iff hlen hlt).mpr ⟨y, x, hy, hx, lt_of_not_ge hxy⟩⟩

/-- **Sinking restores the order.** -/
theorem ordered_down : ∀ {n i : ℕ} {l : List α}, l.length ≤ n + i → i < l.length →
    Sinking (keys key l) i → Ordered (keys key (down key n i l))
  | 0, i, l, hn, hlt, h => by omega
  | n + 1, i, l, hn, hlt, h => by
    unfold down
    split
    · rename_i hleaf
      refine h.ordered fun k x y hk hpar _ hy => ?_
      have := keys_eq_some hy
      omega
    · rename_i hinner
      have hchild : child key l i < l.length ∧ _ := child_spec (Nat.lt_of_not_le hinner)
      obtain ⟨hclt, hcpos, hcpar, hmin⟩ := hchild
      split
      · rename_i hstop
        refine h.ordered fun k x y hk hpar hx hy => ?_
        obtain ⟨z, hz⟩ := keys_of_lt key hclt
        refine le_trans ?_ (hmin k z y hk hpar hz hy)
        by_contra hxz
        rw [(less_iff hclt hlt).mpr ⟨z, x, hz, hx, lt_of_not_ge hxz⟩] at hstop
        cases hstop
      · rename_i hless
        obtain ⟨y, x, hy, hx, hyx⟩ := (less_iff hclt hlt).mp (Bool.of_not_eq_false hless)
        have hswap := h.swap hcpos hcpar hx hy hyx fun k z hk hpar hz => hmin k y z hk hpar hy hz
        rw [← keys_swap key hlt hclt] at hswap
        exact ordered_down (by rw [swap_length]; omega) (by rw [swap_length]; exact hclt) hswap

/-- **An item that is pushed keeps the order.** -/
theorem Ordered.push (h : Ordered (keys key l)) (a : α) : Ordered (keys key (push key l a)) := by
  have hold : ∀ k, k < l.length → keys key (l ++ [a]) k = keys key l k := fun k hk => by
    rw [keys, keys, List.getElem?_append_left hk]
  refine ordered_up (Nat.le_refl _) (by simp)
    ⟨fun k x y hk hne hx hy => ?_, fun k x y hk hpos hpar _ hy => ?_⟩
  · have hlt := keys_eq_some hy
    rw [List.length_append, List.length_singleton] at hlt
    rw [hold _ (by omega)] at hx
    rw [hold _ (by omega)] at hy
    exact h k x y hk hx hy
  · have hlt := keys_eq_some hy
    rw [List.length_append, List.length_singleton] at hlt
    omega

/-- **And what is left after the first item is in order.** -/
theorem Ordered.pop (h : Ordered (keys key l)) (hpop : BinaryHeap.pop key l = some (a, l')) :
    Ordered (keys key l') := by
  cases l with
  | nil => cases hpop
  | cons c rest =>
    cases hpop
    unfold refill
    split
    · intro k x y _ _ hy
      cases hy
    · rename_i z hlast
      have hne : rest ≠ [] := fun hnil => by
        rw [hnil] at hlast
        cases hlast
      have hpos := List.length_pos_iff.mpr hne
      have hold : ∀ k x, 0 < k → keys key (z :: rest.dropLast) k = some x →
          keys key (a :: rest) k = some x := by
        intro k x hk hx
        obtain ⟨k, rfl⟩ : ∃ m, k = m + 1 := ⟨k - 1, by omega⟩
        obtain ⟨b, hb, rfl⟩ := Option.map_eq_some_iff.mp hx
        rw [List.getElem?_cons_succ, List.getElem?_dropLast] at hb
        obtain ⟨-, hb⟩ := Option.ite_none_right_eq_some.mp hb
        rw [keys, List.getElem?_cons_succ, hb]
        rfl
      refine ordered_down (by simp; omega) (by simp) ⟨fun k x y hk hpar hx hy => ?_,
        fun k x y _ hzero => absurd hzero (Nat.lt_irrefl 0)⟩
      exact h k x y hk (hold _ x (Nat.pos_of_ne_zero hpar) hx) (hold k y hk hy)

/-- The first key is least. -/
theorem Ordered.root_le (h : Ordered K) {x : κ} (hx : K 0 = some x)
    (hclosed : ∀ k y, K k = some y → ∃ z, K ((k - 1) / 2) = some z) :
    ∀ k y, K k = some y → x ≤ y := by
  intro k
  induction k using Nat.strongRecOn with
  | ind k ih =>
    intro y hy
    by_cases hk : k = 0
    · subst hk
      exact le_of_eq (Option.some.inj (hx.symm.trans hy))
    · obtain ⟨z, hz⟩ := hclosed k y hy
      exact le_trans (ih _ (by omega) z hz) (h k z y (Nat.pos_of_ne_zero hk) hz hy)

/-- **What is popped has the least key.** -/
theorem Ordered.pop_le (h : Ordered (keys key l)) (hpop : BinaryHeap.pop key l = some (a, l')) :
    ∀ b ∈ l, key a ≤ key b := by
  cases l with
  | nil => cases hpop
  | cons c rest =>
    cases hpop
    intro b hb
    obtain ⟨k, hk, rfl⟩ := List.getElem_of_mem hb
    refine h.root_le rfl (fun k y hy => ?_) k _ (by rw [keys, List.getElem?_eq_getElem hk]; rfl)
    have hlt := keys_eq_some hy
    exact keys_of_lt key (by omega)

theorem ordered_nil : Ordered (keys key ([] : List α)) := by
  intro k x y _ hx
  cases hx

end order

end PokrovCore.BinaryHeap
