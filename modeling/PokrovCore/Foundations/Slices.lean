import PokrovCore.Foundations.Wire

/-!
# Foundations/Slices — reading a byte string at offsets

A program that walks a byte string by offsets reads bytes and slices of it, and each such read is out
of range or not.  Here a read hands what it got to the rest of the program, or ends it with an outcome
of its own; the lemmas say what is read where the string is known from an offset on.
-/

namespace PokrovCore.Slices

open Wire

variable {α ε : Type*} {b p r : List UInt8} {i : ℕ} {x y : UInt8}

/-- `b[i]` -/
def byteAt (outOfRange : ε) (b : List UInt8) (i : ℕ) (k : UInt8 → Except ε α) : Except ε α :=
  match b[i]? with
  | some x => k x
  | none => .error outOfRange

/-- `b[i:j]` -/
def sliceAt (outOfRange : ε) (b : List UInt8) (i j : ℕ) (k : List UInt8 → Except ε α) :
    Except ε α :=
  if i ≤ j ∧ j ≤ b.length then k ((b.drop i).take (j - i)) else .error outOfRange

/-- `binary.BigEndian.Uint16(b[i:i+2])` -/
def uint16At (outOfRange : ε) (b : List UInt8) (i : ℕ) (k : ℕ → Except ε α) : Except ε α :=
  sliceAt outOfRange b i (i + 2) fun
    | x :: y :: _ => k (nat16 x y)
    | _ => .error outOfRange

theorem byteAt_of_drop {out : ε} {k : UInt8 → Except ε α} (h : b.drop i = x :: r) :
    byteAt out b i k = k x := by
  have hx : b[i]? = some x := by
    have := congrArg (·[0]?) h
    simpa using this
  rw [byteAt, hx]

theorem sliceAt_of_drop {out : ε} {k : List UInt8 → Except ε α} {j : ℕ} (hi : i ≤ b.length)
    (h : b.drop i = p ++ r) (hj : j = i + p.length) : sliceAt out b i j k = k p := by
  have hlength := congrArg List.length h
  rw [List.length_drop, List.length_append] at hlength
  rw [sliceAt, if_pos ⟨by omega, by omega⟩, h, hj, Nat.add_sub_cancel_left, List.take_left]

theorem uint16At_of_drop {out : ε} {k : ℕ → Except ε α} (hi : i ≤ b.length)
    (h : b.drop i = x :: y :: r) : uint16At out b i k = k (nat16 x y) := by
  rw [uint16At]
  exact sliceAt_of_drop hi (p := [x, y]) h rfl

/-- What is left after a part is read. -/
theorem drop_of_drop {j : ℕ} (h : b.drop i = p ++ r) (hj : j = i + p.length) : b.drop j = r := by
  rw [hj, ← List.drop_drop, h, List.drop_left]

theorem length_of_drop (hi : i ≤ b.length) (h : b.drop i = r) : b.length = i + r.length := by
  rw [← h, List.length_drop]
  omega

theorem four_of_drop (h : i + 4 ≤ b.length) : ∃ p q x y r, b.drop i = p :: q :: x :: y :: r := by
  have hlength : 4 ≤ (b.drop i).length := by
    rw [List.length_drop]
    omega
  match hd : b.drop i with
  | p :: q :: x :: y :: r => exact ⟨p, q, x, y, r, rfl⟩
  | [] | [_] | [_, _] | [_, _, _] =>
    rw [hd] at hlength
    simp at hlength

/-! ## Prefixed byte strings -/

/-- A byte string after its length in one byte is there, or is cut short. -/
theorem vec8_cases (l : List UInt8) :
    (l = [] ∧ Codec.vec8.read l = none) ∨
      (∃ n r, l = n :: r ∧ r.length < n.toNat ∧ Codec.vec8.read l = none) ∨
      ∃ n v r, ∃ h : v.length = n.toNat, l = n :: (v ++ r) ∧
        Codec.vec8.read l = some (⟨v, h.trans_lt n.toNat_lt⟩, r) := by
  cases l with
  | nil => exact .inl ⟨rfl, rfl⟩
  | cons n l =>
    by_cases hn : n.toNat ≤ l.length
    · refine .inr (.inr ⟨n, l.take n.toNat, l.drop n.toNat, by simp [hn], ?_, ?_⟩)
      · rw [List.take_append_drop]
      · simp [Codec.vec8, Codec.fixed, hn]
    · refine .inr (.inl ⟨n, l, rfl, by omega, ?_⟩)
      simp [Codec.vec8, Codec.fixed, hn]

/-- A byte string after its length in two bytes is there, or is cut short. -/
theorem vec16_cons_cases (x y : UInt8) (l : List UInt8) :
    (l.length < nat16 x y ∧ Codec.vec16.read (x :: y :: l) = none) ∨
      ∃ v r, ∃ h : v.length = nat16 x y, l = v ++ r ∧
        Codec.vec16.read (x :: y :: l) = some (⟨v, h.trans_lt (nat16_lt x y)⟩, r) := by
  by_cases hn : nat16 x y ≤ l.length
  · refine .inr ⟨l.take (nat16 x y), l.drop (nat16 x y), by simp [hn], ?_, ?_⟩
    · rw [List.take_append_drop]
    · simp [Codec.vec16, Codec.fixed, hn]
  · exact .inl ⟨by omega, by simp [Codec.vec16, Codec.fixed, hn]⟩

theorem vec16_cases (l : List UInt8) :
    (l.length < 2 ∧ Codec.vec16.read l = none) ∨
      (∃ x y r, l = x :: y :: r ∧ r.length < nat16 x y ∧ Codec.vec16.read l = none) ∨
      ∃ x y v r, ∃ h : v.length = nat16 x y, l = x :: y :: (v ++ r) ∧
        Codec.vec16.read l = some (⟨v, h.trans_lt (nat16_lt x y)⟩, r) := by
  rcases l with _ | ⟨x, _ | ⟨y, l⟩⟩
  · exact .inl ⟨by simp, rfl⟩
  · exact .inl ⟨by simp, rfl⟩
  · rcases vec16_cons_cases x y l with ⟨hlt, hnone⟩ | ⟨v, r, hv, rfl, hsome⟩
    · exact .inr (.inl ⟨x, y, l, rfl, hlt, hnone⟩)
    · exact .inr (.inr ⟨x, y, v, r, hv, rfl, hsome⟩)

/-- …and if it must not be empty, it may be that. -/
theorem filled16_cases (x y : UInt8) (l : List UInt8) :
    (l.length < nat16 x y ∨ nat16 x y = 0) ∧
        (Codec.vec16.filter fun v => v.1 ≠ []).read (x :: y :: l) = none ∨
      ∃ v r, ∃ h : v.length = nat16 x y, ∃ hne : v ≠ [], l = v ++ r ∧ nat16 x y ≠ 0 ∧
        (Codec.vec16.filter fun v => v.1 ≠ []).read (x :: y :: l) =
          some (⟨⟨v, h.trans_lt (nat16_lt x y)⟩, hne⟩, r) := by
  rcases vec16_cons_cases x y l with ⟨hlt, hnone⟩ | ⟨v, r, hv, rfl, hsome⟩
  · exact .inl ⟨.inl hlt, by simp only [Codec.filter, hnone, Option.bind_none]⟩
  · by_cases hempty : v = []
    · refine .inl ⟨.inr (by rw [← hv, hempty]; rfl), ?_⟩
      simp only [Codec.filter, hsome, Option.bind_some]
      exact dif_neg (not_not.mpr hempty)
    · have hne : nat16 x y ≠ 0 := by
        rw [← hv]
        exact fun h0 => hempty (List.length_eq_zero_iff.mp h0)
      refine .inr ⟨v, r, hv, hempty, rfl, hne, ?_⟩
      simp only [Codec.filter, hsome, Option.bind_some]
      exact dif_pos hempty

theorem vec16_read_short {l : List UInt8} (h : l.length < 2) : Codec.vec16.read l = none := by
  match l with
  | [] | [_] => rfl
  | _ :: _ :: _ =>
    simp only [List.length_cons] at h
    omega

end PokrovCore.Slices
