import Mathlib.Data.Nat.Notation

/-!
# Foundations/ReplayWindow — numbers that pass once

A window remembers the highest number it let pass and, in a bitmap, which of the `w` numbers up to
it have passed.  A higher number passes and moves the window; a lower one passes when it is inside
the window and its bit is clear.  `Seen` is what the bitmap has to know for this: every number that
passed is at most the highest, and its bit is set while it is inside.
-/

namespace PokrovCore

/-- A replay window over `w` numbers. -/
structure ReplayWindow (w : ℕ) where
  highest : ℕ
  bitmap : BitVec w
  deriving DecidableEq

namespace ReplayWindow

variable {w n : ℕ} {passed : List ℕ}

def empty (w : ℕ) : ReplayWindow w := ⟨0, 0#w⟩

/-- **May a number pass?**  If so, the window knows it afterwards; zero never passes. -/
def accept (v : ReplayWindow w) (n : ℕ) : Option (ReplayWindow w) :=
  if n = 0 then none
  else if v.highest < n then some ⟨n, v.bitmap <<< (n - v.highest) ||| 1#w⟩
  else if w ≤ v.highest - n ∨ v.bitmap.getLsbD (v.highest - n) then none
  else some { v with bitmap := v.bitmap ||| 1#w <<< (v.highest - n) }

/-- **The window knows what passed**, as far as it reaches. -/
def Seen (v : ReplayWindow w) (passed : List ℕ) : Prop :=
  ∀ n ∈ passed, n ≤ v.highest ∧ (v.highest - n < w → v.bitmap.getLsbD (v.highest - n) = true)

theorem seen_empty (w : ℕ) : (empty w).Seen [] := fun _ h => absurd h List.not_mem_nil

variable {v v' : ReplayWindow w}

/-- **What passes has not passed before.** -/
theorem Seen.fresh (h : v.Seen passed) (hv : v.accept n = some v') : n ∉ passed := by
  intro hn
  obtain ⟨hle, hbit⟩ := h n hn
  unfold accept at hv
  split at hv
  · cases hv
  · split at hv
    · omega
    · obtain ⟨hout, -⟩ := Option.ite_none_left_eq_some.mp hv
      have hin : v.highest - n < w := by
        rcases Nat.lt_or_ge (v.highest - n) w with h | h
        · exact h
        · exact absurd (.inl h) hout
      exact hout (.inr (hbit hin))

/-- **And is known from then on.** -/
theorem Seen.accept (h : v.Seen passed) (hv : v.accept n = some v') : v'.Seen (n :: passed) := by
  unfold ReplayWindow.accept at hv
  split at hv
  · cases hv
  · split at hv
    · rename_i hlt
      cases hv
      refine List.forall_mem_cons.mpr ⟨⟨Nat.le_refl n, fun hw => ?_⟩, fun m hm => ?_⟩
      · simp at hw ⊢
        omega
      · obtain ⟨hle, hbit⟩ := h m hm
        refine ⟨by simp only; omega, fun hw => ?_⟩
        simp only at hw
        -- the bit of an old number moves up with the window
        have hold := hbit (by omega)
        have hshift : n - m - (n - v.highest) = v.highest - m := by omega
        simp only [BitVec.getLsbD_or, BitVec.getLsbD_shiftLeft, hshift, hold, hw]
        simp
        omega
    · obtain ⟨hout, hv⟩ := Option.ite_none_left_eq_some.mp hv
      cases hv
      refine List.forall_mem_cons.mpr ⟨⟨by simp only; omega, fun hw => ?_⟩, fun m hm => ?_⟩
      · simp only at hw ⊢
        simp [hw]
      · obtain ⟨hle, hbit⟩ := h m hm
        refine ⟨hle, fun hw => ?_⟩
        simp only at hw ⊢
        simp [hbit hw]

/-! ## The window decides what a set of numbers would decide -/

/-- **The window is exact**: its highest number is the greatest that passed, and inside the window a
bit is set for the numbers that passed and for no other. -/
structure Exact (v : ReplayWindow w) (passed : List ℕ) : Prop where
  bounded : ∀ m ∈ passed, m ≤ v.highest
  attained : v.highest ≠ 0 → v.highest ∈ passed
  bit : ∀ d < w, d < v.highest → (v.bitmap.getLsbD d = true ↔ v.highest - d ∈ passed)

theorem exact_empty (w : ℕ) : (empty w).Exact [] where
  bounded := by simp
  attained h := absurd rfl h
  bit d _ hd := absurd hd (Nat.not_lt_zero d)

/-- **A number passes exactly when it is not zero, has not passed, and is less than `w` below every
number that has.** -/
theorem Exact.accept_isSome (h : v.Exact passed) :
    (v.accept n).isSome = true ↔ n ≠ 0 ∧ n ∉ passed ∧ ∀ m ∈ passed, m < n + w := by
  unfold ReplayWindow.accept
  by_cases hzero : n = 0
  · simp [hzero]
  rw [if_neg hzero]
  by_cases hnew : v.highest < n
  · rw [if_pos hnew]
    refine ⟨fun _ => ⟨hzero, fun hn => ?_, fun m hm => ?_⟩, fun _ => rfl⟩
    · have := h.bounded n hn
      omega
    · have := h.bounded m hm
      omega
  rw [if_neg hnew]
  have hin : v.highest ∈ passed := h.attained (by omega)
  by_cases hfar : w ≤ v.highest - n
  · rw [if_pos (.inl hfar)]
    refine ⟨fun hfalse => by simp at hfalse, fun ⟨_, _, hall⟩ => ?_⟩
    have := hall v.highest hin
    omega
  have hbit := h.bit (v.highest - n) (by omega) (by omega)
  rw [Nat.sub_sub_self (by omega)] at hbit
  by_cases hset : v.bitmap.getLsbD (v.highest - n) = true
  · rw [if_pos (.inr hset)]
    exact ⟨fun hfalse => by simp at hfalse, fun ⟨_, hn, _⟩ => absurd (hbit.mp hset) hn⟩
  · rw [if_neg (by simp [hfar, hset])]
    refine ⟨fun _ => ⟨hzero, fun hn => hset (hbit.mpr hn), fun m hm => ?_⟩, fun _ => rfl⟩
    have := h.bounded m hm
    omega

/-- A higher number moves the bits of those that passed, and no bit stands for a number between. -/
theorem Exact.jump (h : v.Exact passed) (hnew : v.highest < n) :
    (⟨n, v.bitmap <<< (n - v.highest) ||| 1#w⟩ : ReplayWindow w).Exact (n :: passed) where
  bounded m hm := by
    obtain rfl | hm := List.mem_cons.mp hm
    · exact Nat.le_refl _
    · exact Nat.le_of_lt (Nat.lt_of_le_of_lt (h.bounded m hm) hnew)
  attained _ := List.mem_cons_self
  bit d hd hdn := by
    dsimp only at hdn ⊢
    rw [BitVec.getLsbD_or, BitVec.getLsbD_shiftLeft, BitVec.getLsbD_one]
    by_cases hzero : d = 0
    · subst hzero
      simp [show 0 < w by omega]
    have hne : n - d ≠ n := by omega
    by_cases hshift : d < n - v.highest
    · have hout : n - d ∉ passed := fun hm => by
        have := h.bounded _ hm
        omega
      simp [hshift, hzero, hout, hne]
    · have hold := h.bit (d - (n - v.highest)) (by omega) (by omega)
      rw [show v.highest - (d - (n - v.highest)) = n - d by omega] at hold
      simp [hshift, hzero, hd, hne, hold]

/-- A number inside the window sets its bit. -/
theorem Exact.fill (h : v.Exact passed) (hzero : n ≠ 0) (hold : n ≤ v.highest)
    (hin : v.highest - n < w) :
    ({ v with bitmap := v.bitmap ||| 1#w <<< (v.highest - n) } : ReplayWindow w).Exact
      (n :: passed) where
  bounded m hm := by
    obtain rfl | hm := List.mem_cons.mp hm
    · exact hold
    · exact h.bounded m hm
  attained hv := List.mem_cons_of_mem n (h.attained hv)
  bit d hd hdn := by
    dsimp only at hdn ⊢
    have hkept := h.bit d hd hdn
    rw [BitVec.getLsbD_or, BitVec.getLsbD_shiftLeft, BitVec.getLsbD_one]
    by_cases hself : d = v.highest - n
    · subst hself
      simp [hin, show 0 < w by omega, Nat.sub_sub_self hold]
    · have hne : v.highest - d ≠ n := by omega
      have hbit : (d - (v.highest - n) = 0) = False ∨ d < v.highest - n := by
        by_cases hlt : d < v.highest - n
        · exact .inr hlt
        · exact .inl (by simp; omega)
      rcases hbit with hbit | hbit
      · simp [hkept, hne, hbit]
      · simp [hkept, hne, hbit]

theorem Exact.accept (h : v.Exact passed) (hv : v.accept n = some v') :
    v'.Exact (n :: passed) := by
  unfold ReplayWindow.accept at hv
  obtain ⟨hzero, hv⟩ := Option.ite_none_left_eq_some.mp hv
  split at hv
  · rename_i hnew
    cases hv
    exact h.jump hnew
  · rename_i hold
    obtain ⟨hin, hv⟩ := Option.ite_none_left_eq_some.mp hv
    cases hv
    exact h.fill hzero (Nat.le_of_not_lt hold) (Nat.lt_of_not_le fun hle => hin (.inl hle))

end ReplayWindow

end PokrovCore
