import PokrovCore.Foundations.Time

/-!
# SmartAccess/Relay — the connect breaker of one relay

A relay is closed (no `openUntil`) or open until an instant; once that instant has passed a single
half-open attempt may probe it.  The epoch counts the transitions, so that an attempt reserved under
an older one cannot speak for the breaker any more.  Reservation and completion are the two critical
sections of the outbound that reach here; which relay they reach is the outbound's choice.
-/

namespace PokrovCore.SmartAccess

/-- The approved connect budget.  Durations are milliseconds. -/
structure RelayConnectPolicy where
  failureThreshold : ℕ
  failureWindowMS : ℕ
  cooldownMS : ℕ
  connectTimeoutMS : ℕ
  totalTimeoutMS : ℕ
  maxAttempts : ℕ
  threshold_range : 1 ≤ failureThreshold ∧ failureThreshold ≤ 10000
  attempts_range : 1 ≤ maxAttempts ∧ maxAttempts ≤ 8
  durations_range : ∀ value ∈ [failureWindowMS, cooldownMS, connectTimeoutMS, totalTimeoutMS],
    1 ≤ value ∧ value ≤ 600000
  connect_le_total : connectTimeoutMS ≤ totalTimeoutMS

/-- One millisecond, in nanoseconds. -/
def millisecond : ℤ := 1000000

/-- The breaker of one relay. -/
structure RelayConnectState where
  failures : List Sample
  openUntil : Time
  probing : Bool
  epoch : UInt64
  deriving DecidableEq

namespace RelayConnectState

/-- A breaker that has seen nothing. -/
def fresh : RelayConnectState := ⟨[], Time.zero, false, 0⟩

/-- Would an attempt on this relay be a half-open probe? -/
def probe (st : RelayConnectState) : Bool := !st.openUntil.isZero

/-- May an attempt be reserved on this relay? -/
def free (st : RelayConnectState) (now : Sample) : Bool :=
  !(st.probe && (st.probing || (Time.ofSample now).before st.openUntil))

/-- Reserve one attempt. -/
def reserve (st : RelayConnectState) : RelayConnectState :=
  if st.probe then { st with probing := true } else st

/-- Drop the failures that have left the window, and add one. -/
def noteFailure (st : RelayConnectState) (window : ℤ) (now : Sample) : List Sample :=
  (st.failures.dropWhile fun t =>
    decide (window ≤ (Time.ofSample now).sub (Time.ofSample t))) ++ [now]

/-- **An attempt completes**, and whether its connection is accepted.  The clock is read only for a
failure. -/
def complete (policy : RelayConnectPolicy) (st : RelayConnectState) (epoch : UInt64)
    (probe success cancelled : Bool) (now : Sample) : RelayConnectState × Bool :=
  -- A late completion cannot move a breaker opened by a newer failure sequence.
  if st.epoch != epoch then (st, false)
  else
    let st := if probe then { st with probing := false } else st
    if cancelled then (st, false)
    else if success then
      let st := { st with failures := [] }
      (if probe then { st with openUntil := Time.zero, epoch := st.epoch + 1 } else st, true)
    else
      let failures := st.noteFailure (policy.failureWindowMS * millisecond) now
      if probe || decide (policy.failureThreshold ≤ failures.length) then
        ({ st with
            failures := []
            openUntil := (Time.ofSample now).add (policy.cooldownMS * millisecond)
            epoch := st.epoch + 1 }, false)
      else ({ st with failures := failures }, false)

end RelayConnectState

end PokrovCore.SmartAccess
