import Mathlib.Algebra.Order.Ring.Int

/-!
# Foundations/Time — instants with a wall reading and, sometimes, a monotonic one

A clock sample carries two readings: the wall clock, which may be set to anything, and the
monotonic clock.  A date read from text carries a wall reading only.  Comparison and subtraction
use the monotonic readings when *both* sides have one and fall back to the wall otherwise; adding a
duration moves both.  Readings are nanoseconds; the wall one counts from the start of year 1, so
the zero value of the type is the zero instant.
-/

namespace PokrovCore

/-- An instant: nanoseconds of wall time since the start of year 1, and the monotonic reading it was
sampled with, if any. -/
structure Time where
  wall : ℤ
  mono : Option ℤ
  deriving DecidableEq, Repr, Inhabited

/-- One sample of the clock: both readings are there. -/
structure Sample where
  wall : ℤ
  mono : ℤ
  deriving DecidableEq, Repr, Inhabited

namespace Time

/-- A clock sample as an instant. -/
def ofSample (r : Sample) : Time := ⟨r.wall, some r.mono⟩

/-- The zero instant. -/
def zero : Time := ⟨0, none⟩

/-- Is this the zero instant? -/
def isZero (t : Time) : Bool := t.wall == 0

/-- `t` is strictly earlier than `u`. -/
def before (t u : Time) : Bool :=
  match t.mono, u.mono with
  | some a, some b => decide (a < b)
  | _, _ => decide (t.wall < u.wall)

/-- `t` is strictly later than `u`. -/
def after (t u : Time) : Bool := u.before t

/-- The least and the greatest duration. -/
def minDuration : ℤ := -(2 ^ 63)
@[inherit_doc minDuration] def maxDuration : ℤ := 2 ^ 63 - 1

/-- `t - u`, saturating at the least and the greatest duration. -/
def sub (t u : Time) : ℤ :=
  let d := match t.mono, u.mono with
    | some a, some b => a - b
    | _, _ => t.wall - u.wall
  max minDuration (min maxDuration d)

/-- The same instant on both, where both have one clock. -/
def equal (t u : Time) : Bool :=
  match t.mono, u.mono with
  | some a, some b => decide (a = b)
  | _, _ => decide (t.wall = u.wall)

/-- `t` rounded down to a multiple of a duration, without its monotonic reading. -/
def truncate (t : Time) (d : ℤ) : Time := ⟨t.wall - t.wall % d, none⟩

/-- `t` moved by a duration, on both clocks. -/
def add (t : Time) (d : ℤ) : Time := ⟨t.wall + d, t.mono.map (· + d)⟩

/-- One second, one minute and one hour, in nanoseconds. -/
def second : ℤ := 1000000000
@[inherit_doc second] def minute : ℤ := 60 * second
@[inherit_doc second] def hour : ℤ := 60 * minute

@[simp] theorem ofSample_wall (r : Sample) : (ofSample r).wall = r.wall := rfl
@[simp] theorem ofSample_mono (r : Sample) : (ofSample r).mono = some r.mono := rfl
@[simp] theorem add_wall (t : Time) (d : ℤ) : (t.add d).wall = t.wall + d := rfl
@[simp] theorem add_mono (t : Time) (d : ℤ) : (t.add d).mono = t.mono.map (· + d) := rfl

theorem before_self (t : Time) : t.before t = false := by
  unfold before
  cases t.mono with
  | none => exact decide_eq_false (lt_irrefl _)
  | some a => exact decide_eq_false (lt_irrefl _)

theorem not_before_of_before {t u : Time} (h : t.before u = true) : u.before t = false := by
  unfold before at h ⊢
  cases ht : t.mono <;> cases hu : u.mono <;> simp only [ht, hu, decide_eq_true_eq] at h ⊢ <;>
    exact decide_eq_false (lt_asymm h)

/-- **Against a date, a sample is compared on the wall clock.** -/
theorem before_of_mono_eq_none {t u : Time} (h : u.mono = none) :
    t.before u = decide (t.wall < u.wall) := by
  unfold before
  rw [h]
  cases t.mono <;> rfl

/-- **Against a deadline taken from a sample, a sample is compared on the monotonic clock.** -/
theorem before_of_mono_eq_some {t u : Time} {a b : ℤ} (ht : t.mono = some a)
    (hu : u.mono = some b) : t.before u = decide (a < b) := by
  unfold before
  rw [ht, hu]

end Time

namespace Sample

/-- A sample moved by a duration, on both clocks. -/
def add (r : Sample) (d : ℤ) : Sample := ⟨r.wall + d, r.mono + d⟩

@[simp] theorem add_mono (r : Sample) (d : ℤ) : (r.add d).mono = r.mono + d := rfl

/-- Is a sample earlier than another? -/
def before (r t : Sample) : Bool := (Time.ofSample r).before (Time.ofSample t)

/-- Two samples compare on the monotonic clock. -/
theorem ofSample_before (r t : Sample) :
    (Time.ofSample r).before (Time.ofSample t) = decide (r.mono < t.mono) := rfl

end Sample

end PokrovCore
