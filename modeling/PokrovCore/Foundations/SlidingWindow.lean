import Mathlib.Algebra.Order.Ring.Int
import Mathlib.Data.List.TakeWhile

/-!
# Foundations/SlidingWindow — a queue of recent events limits every window

A limiter keeps its recent events in a queue, forgets from the front those that are a width old, and
lets an event pass while fewer than `n` are left.  What it has to keep is no order of the queue, only
that whatever it forgot is a width old (`Covers`); then every half-open window of that width, not
just the one that ends now, has at most `n` events (`Limited`).
-/

namespace PokrovCore.SlidingWindow

variable {α : Type*} {clock : α → ℤ} {n : ℕ} {width now now' : ℤ} {log recent : List α}

/-- The window of a width that starts at `a`. -/
def inWindow (clock : α → ℤ) (width a : ℤ) (x : α) : Bool := decide (a ≤ clock x ∧ clock x < a + width)

/-- **At most `n` events in every window.** -/
def Limited (clock : α → ℤ) (n : ℕ) (width : ℤ) (log : List α) : Prop :=
  ∀ a, log.countP (inWindow clock width a) ≤ n

/-- The queue has every event that is not a width old. -/
def Covers (clock : α → ℤ) (width now : ℤ) (log recent : List α) : Prop :=
  ∃ old, log = old ++ recent ∧ ∀ x ∈ old, clock x + width ≤ now

theorem limited_nil (clock : α → ℤ) (n : ℕ) (width : ℤ) : Limited clock n width [] :=
  fun _ => Nat.zero_le n

theorem covers_nil (clock : α → ℤ) (width now : ℤ) : Covers clock width now [] [] :=
  ⟨[], rfl, nofun⟩

theorem Covers.later (h : Covers clock width now log recent) (hle : now ≤ now') :
    Covers clock width now' log recent := by
  obtain ⟨old, hlog, hold⟩ := h
  exact ⟨old, hlog, fun x hx => (hold x hx).trans hle⟩

/-- Forgetting from the front what is a width old. -/
theorem Covers.prune (h : Covers clock width now log recent) {p : α → Bool}
    (hp : ∀ x ∈ recent, p x = true → clock x + width ≤ now) :
    Covers clock width now log (recent.dropWhile p) := by
  obtain ⟨old, hlog, hold⟩ := h
  refine ⟨old ++ recent.takeWhile p, ?_, fun x hx => ?_⟩
  · rw [List.append_assoc, List.takeWhile_append_dropWhile, hlog]
  · rcases List.mem_append.mp hx with hx | hx
    · exact hold x hx
    · exact hp x ((List.takeWhile_sublist p).subset hx) (List.mem_takeWhile_imp hx)

/-- Letting an event pass. -/
theorem Covers.push (h : Covers clock width now log recent) (x : α) :
    Covers clock width now (log ++ [x]) (recent ++ [x]) := by
  obtain ⟨old, hlog, hold⟩ := h
  exact ⟨old, by rw [hlog, List.append_assoc], hold⟩

/-- **An event that passes a queue with room breaks no window's limit.** -/
theorem Limited.push (hl : Limited clock n width log) {x : α}
    (hc : Covers clock width (clock x) log recent) (hroom : recent.length < n) :
    Limited clock n width (log ++ [x]) := by
  intro a
  rw [List.countP_append, List.countP_singleton]
  split_ifs with hnow
  · -- a window with `x` in it has nothing that was forgotten
    obtain ⟨old, rfl, hold⟩ := hc
    have hnone : old.countP (inWindow clock width a) = 0 := by
      rw [List.countP_eq_zero]
      intro y hy hin
      obtain ⟨hay, _⟩ := of_decide_eq_true hin
      obtain ⟨_, hxa⟩ := of_decide_eq_true hnow
      have := hold y hy
      omega
    rw [List.countP_append, hnone]
    have := List.countP_le_length (p := inWindow clock width a) (l := recent)
    omega
  · exact hl a

/-- The windows that are open on the left. -/
theorem Limited.left_open (h : Limited clock n width log) (a : ℤ) :
    (log.countP fun x => decide (a < clock x ∧ clock x ≤ a + width)) ≤ n := by
  have heq : (fun x => decide (a < clock x ∧ clock x ≤ a + width)) =
      inWindow clock width (a + 1) := by
    funext x
    exact decide_eq_decide.mpr ⟨fun hx => by omega, fun hx => by omega⟩
  rw [heq]
  exact h (a + 1)

/-- The events that are not a width old yet. -/
def young (clock : α → ℤ) (width now : ℤ) (log : List α) : List α :=
  log.filter fun x => decide (now < clock x + width)

/-- The queue has every young event. -/
theorem Covers.young_eq (h : Covers clock width now log recent) :
    young clock width now log = young clock width now recent := by
  obtain ⟨old, rfl, hold⟩ := h
  have hnone : old.filter (fun x => decide (now < clock x + width)) = [] := by
    rw [List.filter_eq_nil_iff]
    intro x hx
    simpa using hold x hx
  rw [young, List.filter_append, hnone, List.nil_append, young]

/-- **In order, forgetting from the front leaves the young events.** -/
theorem dropWhile_eq_young {p : α → Bool} (h : recent.Pairwise fun x y => clock x ≤ clock y)
    (hp : ∀ x ∈ recent, p x = true ↔ clock x + width ≤ now) :
    recent.dropWhile p = young clock width now recent := by
  induction recent with
  | nil => rfl
  | cons x recent ih =>
    obtain ⟨hx, hrecent⟩ := List.pairwise_cons.mp h
    have hpx := hp x List.mem_cons_self
    by_cases hold : clock x + width ≤ now
    · rw [List.dropWhile_cons_of_pos (hpx.mpr hold),
        ih hrecent fun y hy => hp y (List.mem_cons_of_mem x hy), young, young,
        List.filter_cons_of_neg (by simpa using hold)]
    · -- what comes after a young event is young
      have hall : ∀ y ∈ x :: recent, decide (now < clock y + width) = true := by
        intro y hy
        rw [decide_eq_true_eq]
        rcases List.mem_cons.mp hy with rfl | hy
        · omega
        · have := hx y hy
          omega
      rw [List.dropWhile_cons_of_neg (fun hpos => hold (hpx.mp hpos)), young,
        List.filter_eq_self.mpr hall]

end PokrovCore.SlidingWindow
