import Mathlib.Data.Nat.Notation
import Mathlib.Logic.Function.Basic

/-!
# Foundations/Custody — things that are opened, held by one, and closed

Sockets are numbered as they are opened.  `Custody hold closed count` says that the open ones and
their holders are in bijection: whoever holds one holds it alone and it is open, and none is open
that nobody holds.  A step opens one into an empty hand, closes one out of a hand, or hands one over;
these are the three rules.
-/

namespace PokrovCore

variable {ι : Type*} {hold hold' : ι → Option ℕ} {closed : ℕ → Bool} {count s : ℕ} {i j : ι}

/-- **Every open thing has exactly one holder.** -/
structure Custody (hold : ι → Option ℕ) (closed : ℕ → Bool) (count : ℕ) : Prop where
  isOpen : ∀ {i s}, hold i = some s → s < count ∧ closed s = false
  unique : ∀ {i j s}, hold i = some s → hold j = some s → i = j
  held : ∀ {s}, s < count → closed s = false → ∃ i, hold i = some s

namespace Custody

/-- Before anything is opened. -/
theorem empty : Custody (fun _ : ι => none) closed 0 where
  isOpen h := nomatch h
  unique h := nomatch h
  held h := absurd h (Nat.not_lt_zero _)

theorem congr (h : Custody hold closed count) (hh : ∀ i, hold' i = hold i) :
    Custody hold' closed count :=
  (funext hh : hold' = hold) ▸ h

variable [DecidableEq ι]

/-- One more is opened, into a hand that was empty. -/
theorem acquire (h : Custody hold closed count) (hi : hold i = none)
    (hhold : hold' = Function.update hold i (some count)) :
    Custody hold' (Function.update closed count false) (count + 1) := by
  subst hhold
  have hne : ∀ {j s}, Function.update hold i (some count) j = some s → j ≠ i → s < count ∧
      hold j = some s := by
    intro j s hj hji
    rw [Function.update_of_ne hji] at hj
    exact ⟨(h.isOpen hj).1, hj⟩
  refine ⟨?_, ?_, ?_⟩
  · intro j s hj
    by_cases hji : j = i
    · subst hji
      rw [Function.update_self] at hj
      obtain rfl := Option.some.inj hj
      exact ⟨Nat.lt_succ_self _, Function.update_self _ _ _⟩
    · obtain ⟨hs, hj⟩ := hne hj hji
      rw [Function.update_of_ne (Nat.ne_of_lt hs)]
      exact ⟨Nat.lt_succ_of_lt hs, (h.isOpen hj).2⟩
  · intro j k s hj hk
    by_cases hji : j = i <;> by_cases hki : k = i
    · exact hji.trans hki.symm
    · subst hji
      rw [Function.update_self] at hj
      exact absurd (Option.some.inj hj) (Nat.ne_of_gt (hne hk hki).1)
    · subst hki
      rw [Function.update_self] at hk
      exact absurd (Option.some.inj hk) (Nat.ne_of_gt (hne hj hji).1)
    · exact h.unique (hne hj hji).2 (hne hk hki).2
  · intro s hs hopen
    by_cases hsc : s = count
    · exact ⟨i, by rw [Function.update_self, hsc]⟩
    · rw [Function.update_of_ne hsc] at hopen
      obtain ⟨j, hj⟩ := h.held (by omega) hopen
      have hji : j ≠ i := by
        rintro rfl
        exact nomatch hi.symm.trans hj
      exact ⟨j, by rwa [Function.update_of_ne hji]⟩

/-- One is closed, and leaves its holder's hand. -/
theorem release (h : Custody hold closed count) (hi : hold i = some s)
    (hhold : hold' = Function.update hold i none) :
    Custody hold' (Function.update closed s true) count := by
  subst hhold
  have hne : ∀ {j t}, Function.update hold i none j = some t → hold j = some t ∧ t ≠ s := by
    intro j t hj
    by_cases hji : j = i
    · rw [hji, Function.update_self] at hj
      cases hj
    · rw [Function.update_of_ne hji] at hj
      exact ⟨hj, fun hts => hji (h.unique hj (hts ▸ hi))⟩
  refine ⟨?_, fun hj hk => h.unique (hne hj).1 (hne hk).1, ?_⟩
  · intro j t hj
    obtain ⟨hj, hts⟩ := hne hj
    rw [Function.update_of_ne hts]
    exact h.isOpen hj
  · intro t ht hopen
    by_cases hts : t = s
    · rw [hts, Function.update_self] at hopen
      cases hopen
    · rw [Function.update_of_ne hts] at hopen
      obtain ⟨j, hj⟩ := h.held ht hopen
      have hji : j ≠ i := by
        rintro rfl
        exact hts (Option.some.inj (hj.symm.trans hi))
      exact ⟨j, by rwa [Function.update_of_ne hji]⟩

end Custody

end PokrovCore
