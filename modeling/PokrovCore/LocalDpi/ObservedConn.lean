import PokrovCore.Foundations.Machine
import PokrovCore.Foundations.Time

/-!
# LocalDpi/ObservedConn — the read deadline of a connection under observation

`observedConn` keeps two deadlines in the one read deadline of the connection it wraps: its caller's,
and one for the first response, armed by the first payload and gone with the first byte that comes
back.  Every call sets the deadline in a critical section under the lock of the outbound; `Read` looks
at a flag first and takes the lock only if no response is recorded yet.

`Intent` is what the deadline is for, told from the calls alone, and `read_deadline_intended` that the
deadline is that after every section, in whatever order the calls get the lock.
-/

namespace PokrovCore.LocalDpi

/-- A reading of the system clock, which stands after the start of year 1. -/
structure Now where
  sample : Sample
  started : 0 ≤ sample.wall

def firstResponseTimeout : ℤ := 5 * Time.second

/-- When a response to a payload sent now is due. -/
def Now.responseDeadline (now : Now) : Time := (Time.ofSample now.sample).add firstResponseTimeout

theorem Now.responseDeadline_isZero (now : Now) : now.responseDeadline.isZero = false := by
  have hwall : now.responseDeadline.wall = now.sample.wall + 5 * 1000000000 := rfl
  have hnow := now.started
  exact beq_eq_false_iff_ne.mpr (by omega)

/-! ## The connection -/

/-- `observedConn`, and the deadlines last set on the connection it wraps.  `entering` counts the
calls of `Read` that have seen no response recorded and are about to take the lock. -/
structure ObservedConn where
  callerReadDeadline : Time
  firstResponseDeadline : Time
  wrote : Bool
  responded : Bool
  entering : ℕ
  readDeadline : Time
  writeDeadline : Time

/-- What the calls do, one critical section at a time.  A section says whether the deadlines it sets
on the wrapped connection are accepted; `available` is whether the admission stands and the flow is
not cancelled. -/
inductive ConnEvent
  | readReturned (n : ℕ)
  | readSection (accepted : Bool)
  | write (length : ℕ) (available : Bool) (now : Now) (accepted : Bool)
  | setReadDeadline (deadline : Time) (accepted : Bool)
  | setDeadline (deadline : Time) (accepted writeAccepted : Bool)

/-- What a section returns to its call. -/
inductive ConnAnswer
  | none
  | errUnavailable
  | deadlineErr
  deriving DecidableEq, Repr

namespace ObservedConn

/-- A connection as it is handed over. -/
def start : ObservedConn := ⟨.zero, .zero, false, false, 0, .zero, .zero⟩

def effectiveReadDeadline (c : ObservedConn) (caller : Time) : Time :=
  if !c.firstResponseDeadline.isZero &&
      (caller.isZero || c.firstResponseDeadline.before caller) then c.firstResponseDeadline
  else caller

/-- `SetReadDeadline` of the wrapped connection. -/
def putReadDeadline (c : ObservedConn) (deadline : Time) (accepted : Bool) : ObservedConn :=
  if accepted then { c with readDeadline := deadline } else c

def setCallerReadDeadline (c : ObservedConn) (deadline : Time) (accepted : Bool) :
    ObservedConn × ConnAnswer :=
  if accepted then
    ({ c.putReadDeadline (c.effectiveReadDeadline deadline) accepted with
        callerReadDeadline := deadline }, .none)
  else (c, .deadlineErr)

/-- The section of `Read` after some bytes. -/
def recordResponse (c : ObservedConn) (accepted : Bool) : ObservedConn :=
  if !c.responded && !c.firstResponseDeadline.isZero then
    { c with responded := true, firstResponseDeadline := .zero }.putReadDeadline
      c.callerReadDeadline accepted
  else { c with responded := true }

/-- The section of `Write` before the payload goes out. -/
def armWrite (c : ObservedConn) (length : ℕ) (available : Bool) (now : Now) (accepted : Bool) :
    ObservedConn × ConnAnswer :=
  if !available then (c, .errUnavailable)
  else if 0 < length ∧ c.wrote = false then
    if c.responded then ({ c with wrote := true }, .none)
    else
      let armed := { c with wrote := true, firstResponseDeadline := now.responseDeadline }
      (armed.putReadDeadline (armed.effectiveReadDeadline c.callerReadDeadline) accepted,
        if accepted then .none else .deadlineErr)
  else (c, .none)

/-- One section, or the look of `Read` at the flag before its own. -/
def step (c : ObservedConn) : ConnEvent → Option (ObservedConn × ConnAnswer)
  | .readReturned n =>
    some (if 0 < n ∧ c.responded = false then { c with entering := c.entering + 1 } else c, .none)
  | .readSection accepted =>
    if 0 < c.entering then
      some ({ c.recordResponse accepted with entering := c.entering - 1 }, .none)
    else none
  | .write length available now accepted => some (c.armWrite length available now accepted)
  | .setReadDeadline deadline accepted => some (c.setCallerReadDeadline deadline accepted)
  | .setDeadline deadline accepted writeAccepted =>
    let r := c.setCallerReadDeadline deadline accepted
    -- the write deadline is set only after the read deadline has been
    if r.2 = .none then
      some (if writeAccepted then ({ r.1 with writeDeadline := deadline }, .none)
        else (r.1, .deadlineErr))
    else some r

/-- **The machine of a connection**: the sections of its calls, in any order. -/
def machine : Machine ObservedConn ConnEvent ConnAnswer where
  step := step

end ObservedConn

/-- Are all deadlines of the section accepted? -/
def ConnEvent.succeeds : ConnEvent → Bool
  | .readReturned _ => true
  | .readSection accepted | .write _ _ _ accepted | .setReadDeadline _ accepted => accepted
  | .setDeadline _ accepted writeAccepted => accepted && writeAccepted

/-! ## What the deadline is for -/

/-- The caller's deadline, when a response to the first payload is due, and whether one came. -/
structure Intent where
  caller : Time
  due : Option Time
  responded : Bool

namespace Intent

def start : Intent := ⟨.zero, none, false⟩

/-- What a section says about it. -/
def after (i : Intent) : ConnEvent → Intent
  | .readReturned _ => i
  | .readSection _ => { i with responded := true }
  | .write length available now _ =>
    if available = true ∧ 0 < length ∧ i.due = none then
      { i with due := some now.responseDeadline } else i
  | .setReadDeadline deadline _ | .setDeadline deadline _ _ => { i with caller := deadline }

/-- **When the first response is due**, while payload has been written and no response is there. -/
def awaits (i : Intent) : Option Time := if i.responded then none else i.due

end Intent

/-- What some sections, the first one first, say about the deadline. -/
def intent (l : List ConnEvent) : Intent := l.foldl Intent.after .start

/-- `t` is the earlier of two instants. -/
structure IsEarlier (t a b : Time) : Prop where
  one : t = a ∨ t = b
  not_later : a.before t = false ∧ b.before t = false

/-- The connection is in the state its calls intend. -/
structure Meets (c : ObservedConn) (i : Intent) : Prop where
  caller : c.callerReadDeadline = i.caller
  wrote : c.wrote = i.due.isSome
  responded : c.responded = i.responded
  first : c.firstResponseDeadline = i.awaits.getD .zero
  armed : ∀ d, i.due = some d → d.isZero = false
  deadline : c.readDeadline = c.effectiveReadDeadline c.callerReadDeadline

namespace Meets

variable {c : ObservedConn} {i : Intent}

theorem start : Meets .start .start :=
  ⟨rfl, rfl, rfl, rfl, fun _ h => (Option.some_ne_none _ h.symm).elim, rfl⟩

/-- No response is waited for exactly when the deadline for it is zero. -/
theorem isZero_iff (h : Meets c i) : c.firstResponseDeadline.isZero = true ↔ i.awaits = none := by
  rw [h.first]
  cases hi : i.awaits with
  | none => exact ⟨fun _ => rfl, fun _ => rfl⟩
  | some d =>
    have hd : d.isZero = false := h.armed d (by
      unfold Intent.awaits at hi
      split_ifs at hi
      exact hi)
    simp [hd]

theorem setCallerReadDeadline (h : Meets c i) (deadline : Time) :
    Meets (c.setCallerReadDeadline deadline true).1 { i with caller := deadline } :=
  ⟨rfl, h.wrote, h.responded, h.first, h.armed, rfl⟩

theorem recordResponse (h : Meets c i) :
    Meets (c.recordResponse true) { i with responded := true } := by
  unfold ObservedConn.recordResponse
  split_ifs with hwait
  · exact ⟨h.caller, h.wrote, rfl, rfl, h.armed, rfl⟩
  · -- nothing was awaited, so that nothing changes but the flag
    have hnone : i.awaits = none := by
      simp only [Bool.and_eq_true, Bool.not_eq_true', not_and, Bool.not_eq_false] at hwait
      cases hr : c.responded with
      | false => exact h.isZero_iff.mp (hwait hr)
      | true =>
        rw [Intent.awaits, ← h.responded, hr]
        rfl
    refine ⟨h.caller, h.wrote, rfl, ?_, h.armed, h.deadline⟩
    rw [Intent.awaits, if_pos rfl]
    exact h.first.trans (by rw [hnone])

theorem armWrite (h : Meets c i) (length : ℕ) (available : Bool) (now : Now) :
    Meets (c.armWrite length available now true).1
      (i.after (.write length available now true)) := by
  have hdue : c.wrote = false ↔ i.due = none := by rw [h.wrote, Option.isSome_eq_false_iff,
    Option.isNone_iff_eq_none]
  unfold ObservedConn.armWrite Intent.after
  cases available with
  | false => simpa using h
  | true =>
    simp only [Bool.not_true, Bool.false_eq_true, if_false, true_and, ← hdue]
    split_ifs with hfirst hresponded
    · have hnone : i.awaits = none := by rw [Intent.awaits, ← h.responded, if_pos hresponded]
      refine ⟨h.caller, rfl, h.responded, ?_, fun d hd => ?_, h.deadline⟩
      · rw [Intent.awaits, if_pos (h.responded.symm.trans hresponded)]
        exact h.first.trans (by rw [hnone])
      · obtain rfl := Option.some.inj hd
        exact now.responseDeadline_isZero
    · refine ⟨h.caller, rfl, h.responded, ?_, fun d hd => ?_, rfl⟩
      · rw [Intent.awaits, if_neg (h.responded ▸ hresponded)]
        rfl
      · obtain rfl := Option.some.inj hd
        exact now.responseDeadline_isZero
    · exact h

/-- **Every section whose deadlines are accepted leaves what it intends.** -/
theorem step {c' : ObservedConn} {e : ConnEvent} {o : ConnAnswer} (he : e.succeeds = true)
    (hs : ObservedConn.machine.step c e = some (c', o)) (h : Meets c i) : Meets c' (i.after e) := by
  cases e with
  | readReturned n =>
    obtain rfl := Machine.state_eq hs
    split_ifs
    · exact ⟨h.caller, h.wrote, h.responded, h.first, h.armed, h.deadline⟩
    · exact h
  | readSection accepted =>
    obtain rfl : accepted = true := he
    obtain ⟨_, rfl⟩ := Machine.guarded hs
    have hr := h.recordResponse
    exact ⟨hr.caller, hr.wrote, hr.responded, hr.first, hr.armed, hr.deadline⟩
  | write length available now accepted =>
    obtain rfl : accepted = true := he
    obtain rfl := Machine.state_eq hs
    exact h.armWrite length available now
  | setReadDeadline deadline accepted =>
    obtain rfl : accepted = true := he
    obtain rfl := Machine.state_eq hs
    exact h.setCallerReadDeadline deadline
  | setDeadline deadline accepted writeAccepted =>
    obtain ⟨rfl, rfl⟩ := Bool.and_eq_true_iff.mp he
    obtain rfl := Machine.state_eq hs
    have hr := h.setCallerReadDeadline deadline
    exact ⟨hr.caller, hr.wrote, hr.responded, hr.first, hr.armed, hr.deadline⟩

end Meets

/-- While a response is waited for, the effective deadline is the earlier one. -/
theorem ObservedConn.effectiveReadDeadline_isEarlier {c : ObservedConn} {caller : Time}
    (hfirst : c.firstResponseDeadline.isZero = false) (hcaller : caller.isZero = false) :
    IsEarlier (c.effectiveReadDeadline caller) caller c.firstResponseDeadline := by
  simp only [effectiveReadDeadline, hfirst, hcaller, Bool.not_false, Bool.true_and, Bool.false_or]
  split_ifs with hbefore
  · exact ⟨.inr rfl, Time.not_before_of_before hbefore, Time.before_self _⟩
  · exact ⟨.inl rfl, Time.before_self _, Bool.not_eq_true _ ▸ hbefore⟩

/-- **The read deadline is the intended one after every section.**  In every order of the sections,
if the deadlines set are accepted: it is the caller's, except exactly while the connection has
written payload and recorded no response, when it is the earlier of the caller's and the one of the
first response, or the latter if the caller has none. -/
theorem read_deadline_intended (l : List ConnEvent) (c : ObservedConn)
    (haccepted : ∀ e ∈ l, e.succeeds = true)
    (hrun : ObservedConn.machine.run .start l = some c) :
    ((intent l).awaits.isSome = true ↔ c.wrote = true ∧ c.responded = false) ∧
      ((intent l).awaits = none → c.readDeadline = (intent l).caller) ∧
      ∀ first, (intent l).awaits = some first →
        ((intent l).caller.isZero = true → c.readDeadline = first) ∧
        ((intent l).caller.isZero = false →
          IsEarlier c.readDeadline (intent l).caller first) := by
  have h : Meets c (intent l) := Machine.run_reference (E := fun e => e.succeeds = true)
    (fun _ _ _ _ _ he hs hm => hm.step he hs) haccepted hrun .start
  have hdeadline : c.readDeadline = c.effectiveReadDeadline (intent l).caller :=
    h.caller ▸ h.deadline
  refine ⟨?_, fun hnone => ?_, fun first hsome => ?_⟩
  · rw [h.wrote, h.responded, Intent.awaits]
    cases (intent l).responded <;> simp
  · rw [hdeadline, ObservedConn.effectiveReadDeadline, h.isZero_iff.mpr hnone]
    rfl
  · have hfirst : c.firstResponseDeadline = first := by rw [h.first, hsome, Option.getD_some]
    have harmed : c.firstResponseDeadline.isZero = false := by
      rw [← Bool.not_eq_true, h.isZero_iff, hsome]
      exact Option.some_ne_none first
    refine ⟨fun hcaller => ?_, fun hcaller => ?_⟩
    · rw [hdeadline, ObservedConn.effectiveReadDeadline, harmed, hcaller]
      exact hfirst
    · rw [hdeadline, ← hfirst]
      exact ObservedConn.effectiveReadDeadline_isEarlier harmed hcaller

theorem sample_started : (0 : ℤ) ≤ 63902908800000000000 := by decide

/-- A clock in 2026, and the deadline of a caller two seconds later. -/
def sampleNow : Now := ⟨⟨63902908800000000000, 7⟩, sample_started⟩
@[inherit_doc sampleNow] def sampleCaller : Time := ⟨63902908802000000000, none⟩

/-- A payload, a deadline of the caller's, and one that clears it while the response is awaited. -/
theorem read_deadline_intended_sample :
    ∃ c, ObservedConn.machine.run .start [.write 3 true sampleNow true,
        .setReadDeadline sampleCaller true, .setDeadline .zero true true] = some c ∧
      c.readDeadline = sampleNow.responseDeadline := by
  have haccepted : ∀ e ∈ [ConnEvent.write 3 true sampleNow true, .setReadDeadline sampleCaller true,
      .setDeadline .zero true true], e.succeeds = true := by decide
  exact ⟨_, rfl, ((read_deadline_intended _ _ haccepted rfl).2.2 _ rfl).1 rfl⟩

end PokrovCore.LocalDpi
