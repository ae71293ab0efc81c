import PokrovCore.Foundations.Machine
import PokrovCore.Foundations.SlidingWindow
import PokrovCore.Foundations.Threads
import PokrovCore.SmartAccess.Outbound

/-!
# SmartAccess/Breaker — what the breakers of the relays do in every run

Flows reserve attempts and complete each of them once, in any order; a reservation that is not
completed is outstanding.  The sections take samples of one monotonic clock, and other sections of the
outbound run in between.  Two facts carry the module: an epoch is of an open breaker or of a closed
one, never of both, and breakers change so slowly that a 64-bit epoch never comes back.
-/

namespace PokrovCore.SmartAccess

/-! ## One breaker -/

namespace RelayConnectState

variable {policy : RelayConnectPolicy} {st st' : RelayConnectState} {epoch : UInt64}
  {probe success cancelled accepted : Bool} {now : Sample}

/-- A breaker after a half-open attempt has been given back. -/
def settled (st : RelayConnectState) (probe : Bool) : RelayConnectState :=
  { st with probing := st.probing && !probe }

/-- **What a completion does**, by the branch it takes. -/
inductive Completes (policy : RelayConnectPolicy) (st : RelayConnectState) (epoch : UInt64)
    (probe success cancelled : Bool) (now : Sample) : RelayConnectState → Bool → Prop
  | stale (hepoch : st.epoch ≠ epoch) : Completes policy st epoch probe success cancelled now st false
  | cancelled (hepoch : st.epoch = epoch) (hcancelled : cancelled = true) :
    Completes policy st epoch probe success cancelled now (st.settled probe) false
  | succeeded (hepoch : st.epoch = epoch) (hcancelled : cancelled = false) (hsuccess : success = true)
    (hprobe : probe = false) :
    Completes policy st epoch probe success cancelled now { st with failures := [] } true
  | closed (hepoch : st.epoch = epoch) (hcancelled : cancelled = false) (hsuccess : success = true)
    (hprobe : probe = true) :
    Completes policy st epoch probe success cancelled now
      ⟨[], Time.zero, false, st.epoch + 1⟩ true
  | opened (hepoch : st.epoch = epoch) (hcancelled : cancelled = false) (hsuccess : success = false)
    (hfull : probe = true ∨ policy.failureThreshold ≤
      (st.noteFailure (policy.failureWindowMS * millisecond) now).length) :
    Completes policy st epoch probe success cancelled now
      ⟨[], (Time.ofSample now).add (policy.cooldownMS * millisecond), (st.settled probe).probing,
        st.epoch + 1⟩ false
  | failed (hepoch : st.epoch = epoch) (hcancelled : cancelled = false) (hsuccess : success = false)
    (hprobe : probe = false) (hroom : (st.noteFailure (policy.failureWindowMS * millisecond)
      now).length < policy.failureThreshold) :
    Completes policy st epoch probe success cancelled now
      { st with failures := st.noteFailure (policy.failureWindowMS * millisecond) now } false

variable (st : RelayConnectState)

theorem settle_eq (probe : Bool) :
    (if probe = true then { st with probing := false } else st) = st.settled probe := by
  cases probe <;> simp [settled]

theorem complete_completes (policy : RelayConnectPolicy) (st : RelayConnectState) (epoch : UInt64)
    (probe success cancelled : Bool) (now : Sample) :
    Completes policy st epoch probe success cancelled now
      (st.complete policy epoch probe success cancelled now).1
      (st.complete policy epoch probe success cancelled now).2 := by
  simp only [complete, settle_eq]
  split
  next hstale => exact .stale (by simpa using hstale)
  next hcurrent =>
    have hepoch : st.epoch = epoch := by simpa using hcurrent
    cases cancelled with
    | true => exact .cancelled hepoch rfl
    | false =>
      cases success with
      | true =>
        cases probe with
        | true => simpa [settled] using Completes.closed hepoch rfl rfl rfl
        | false => simpa [settled] using Completes.succeeded hepoch rfl rfl rfl
      | false =>
        have hnote : (st.settled probe).noteFailure (policy.failureWindowMS * millisecond) now =
            st.noteFailure (policy.failureWindowMS * millisecond) now := rfl
        simp only [Bool.false_eq_true, if_false, hnote]
        split
        next hfull => exact .opened hepoch rfl rfl (by simpa using hfull)
        next hroom =>
          simp only [Bool.or_eq_true, decide_eq_true_eq, not_or, Bool.not_eq_true, Nat.not_le]
            at hroom
          obtain ⟨rfl, hroom⟩ := hroom
          simpa [settled] using Completes.failed hepoch rfl rfl rfl hroom

@[simp] theorem probe_reserve : st.reserve.probe = st.probe := by
  unfold reserve
  split <;> rfl

@[simp] theorem epoch_reserve : st.reserve.epoch = st.epoch := by
  unfold reserve
  split <;> rfl

@[simp] theorem openUntil_reserve :
    st.reserve.openUntil = st.openUntil := by
  unfold reserve
  split <;> rfl

@[simp] theorem failures_reserve :
    st.reserve.failures = st.failures := by
  unfold reserve
  split <;> rfl

end RelayConnectState

namespace Outbound

variable {h : Outbound} {g : ℕ} {visited : List ℕ} {extra : Bool} {now : Sample}

theorem relayOrder_lt {i : ℕ} (hi : i ∈ h.relayOrder) : i < h.options.relays.length := by
  obtain ⟨offset, hoffset, rfl⟩ := List.mem_map.mp hi
  have := List.mem_range.mp hoffset
  exact Nat.mod_lt _ (by omega)

/-- **What a reservation does**: nothing to any breaker, or it takes one that is free. -/
theorem reserveRelay_spec (h : Outbound) (g : ℕ) (visited : List ℕ) (extra : Bool) (now : Sample) :
    (h.reserveRelay g visited extra now).1.options = h.options ∧
    (h.reserveRelay g visited extra now).1.preferredRelay = h.preferredRelay ∧
    ((h.reserveRelay g visited extra now).2 = none ∧
        (h.reserveRelay g visited extra now).1.relayStates = h.relayStates ∨
      ∃ i, i < h.options.relays.length ∧ i ∉ visited ∧ (h.relayStates i).free now = true ∧
        (h.reserveRelay g visited extra now).2 =
          some ⟨i, (h.relayStates i).epoch, (h.relayStates i).probe⟩ ∧
        (h.reserveRelay g visited extra now).1.relayStates =
          Function.update h.relayStates i (h.relayStates i).reserve) := by
  simp only [reserveRelay]
  split
  · exact ⟨rfl, rfl, .inl ⟨rfl, rfl⟩⟩
  split
  · exact ⟨rfl, rfl, .inl ⟨rfl, rfl⟩⟩
  split
  · exact ⟨rfl, rfl, .inl ⟨rfl, rfl⟩⟩
  next i hfind =>
    refine ⟨rfl, rfl, .inr ⟨i, relayOrder_lt (List.mem_of_find?_eq_some hfind), ?_⟩⟩
    have hfree := List.find?_some hfind
    simp only [Bool.and_eq_true, Bool.not_eq_true', List.contains_eq_mem, decide_eq_false_iff_not]
      at hfree
    exact ⟨hfree.1, hfree.2, rfl, rfl⟩

end Outbound

/-! ## Runs of the breakers -/

/-- A reading of the clock of the runtime: its wall clock is past year 1, and its monotonic clock
counts nanoseconds of the process in 63 bits. -/
structure Reading where
  sample : Sample
  wall_pos : 0 < sample.wall
  mono_range : 0 ≤ sample.mono ∧ sample.mono < 2 ^ 63

/-- Any other section of the outbound: it does not touch the breakers. -/
structure OtherSection where
  run : Outbound → Outbound
  relayStates : ∀ h, (run h).relayStates = h.relayStates
  preferredRelay : ∀ h, (run h).preferredRelay = h.preferredRelay
  options : ∀ h, (run h).options = h.options

/-- A completion that was made: whether it carried the epoch of its breaker, and whether it opened
it. -/
structure Completion where
  reserved : Outbound.Reservation
  success : Bool
  cancelled : Bool
  now : Sample
  current : Bool
  opened : Bool

namespace Breaker

/-- The breaker changed, and is open. -/
def opened (st st' : RelayConnectState) : Bool := st.epoch != st'.epoch && st'.probe

/-- **The outbound and its outstanding reservations**, with the completions that were made and the
last reading of the clock. -/
structure World where
  outbound : Outbound
  outstanding : List Outbound.Reservation
  latest : ℤ
  log : List Completion

inductive Event
  | reserve (g : ℕ) (visited : List ℕ) (extra : Bool) (now : Reading)
  | complete (k : ℕ) (success cancelled : Bool) (now : Reading)
  | other (between : OtherSection)

/-- A new outbound. -/
def World.start (options : OutboundOptions) (lease : LeaseAuthorization) : World :=
  ⟨newOutbound options lease, [], 0, []⟩

namespace World

variable (policy : RelayConnectPolicy) (w : World)

/-- The breaker of a relay. -/
def state (i : ℕ) : RelayConnectState := w.outbound.relayStates i

/-- A reservation is completed, and leaves the outstanding ones. -/
def finish (k : ℕ) (r : Outbound.Reservation) (success cancelled : Bool) (now : Sample) : World :=
  let outbound := (w.outbound.completeRelay policy r success cancelled now).1
  { outbound := outbound
    outstanding := w.outstanding.eraseIdx k
    latest := now.mono
    log := w.log ++ [⟨r, success, cancelled, now, (w.state r.index).epoch == r.epoch,
      opened (w.state r.index) (outbound.relayStates r.index)⟩] }

/-- **One section.**  The clock does not go back. -/
def step : Event → Option World
  | .reserve g visited extra now =>
    if now.sample.mono < w.latest then none
    else
      let r := w.outbound.reserveRelay g visited extra now.sample
      some
        { w with
          outbound := r.1
          outstanding := w.outstanding ++ r.2.toList
          latest := now.sample.mono }
  | .complete k success cancelled now =>
    if now.sample.mono < w.latest then none
    else (w.outstanding[k]?).map fun r => w.finish policy k r success cancelled now.sample
  | .other between => some { w with outbound := between.run w.outbound }

def machine : Machine World Event Unit := ⟨fun w e => (w.step policy e).map fun w' => (w', ())⟩

end World

variable {policy : RelayConnectPolicy} {w w' : World} {e : Event}

/-- **What a section does.** -/
inductive Change (policy : RelayConnectPolicy) (w : World) : Event → World → Prop
  | idle {e : Event} {w' : World} (hstate : w'.state = w.state)
    (hpreferred : w'.outbound.preferredRelay = w.outbound.preferredRelay)
    (houtstanding : w'.outstanding = w.outstanding) (hlog : w'.log = w.log)
    (hlatest : w.latest ≤ w'.latest ∧ (w.latest < 2 ^ 63 → w'.latest < 2 ^ 63)) : Change policy w e w'
  | reserved {w' : World} (g : ℕ) (visited : List ℕ) (extra : Bool) (now : Reading) (i : ℕ)
    (hnow : w.latest ≤ now.sample.mono) (hfree : (w.state i).free now.sample = true)
    (hstate : w'.state = Function.update w.state i (w.state i).reserve)
    (hpreferred : w'.outbound.preferredRelay = w.outbound.preferredRelay)
    (houtstanding : w'.outstanding = w.outstanding ++ [⟨i, (w.state i).epoch, (w.state i).probe⟩])
    (hlog : w'.log = w.log) (hlatest : w'.latest = now.sample.mono) :
    Change policy w (.reserve g visited extra now) w'
  | completed (k : ℕ) (success cancelled : Bool) (now : Reading) (r : Outbound.Reservation)
    (hnow : w.latest ≤ now.sample.mono) (hr : w.outstanding[k]? = some r) :
    Change policy w (.complete k success cancelled now)
      (w.finish policy k r success cancelled now.sample)

theorem change_step (hs : w.step policy e = some w') : Change policy w e w' := by
  cases e with
  | reserve g visited extra now =>
    simp only [World.step] at hs
    obtain ⟨hnow, hs⟩ := Option.ite_none_left_eq_some.mp hs
    obtain rfl := Option.some.inj hs
    have hnow : w.latest ≤ now.sample.mono := by omega
    obtain ⟨-, hpreferred, ⟨hnone, hstate⟩ | ⟨i, -, -, hfree, hsome, hstate⟩⟩ :=
      w.outbound.reserveRelay_spec g visited extra now.sample
    · exact .idle hstate hpreferred (by simp [hnone]) rfl ⟨hnow, fun _ => now.mono_range.2⟩
    · exact .reserved g visited extra now i hnow hfree hstate hpreferred (by simp [hsome, World.state])
        rfl rfl
  | complete k success cancelled now =>
    simp only [World.step] at hs
    obtain ⟨hnow, hs⟩ := Option.ite_none_left_eq_some.mp hs
    obtain ⟨r, hr, rfl⟩ := Option.map_eq_some_iff.mp hs
    exact .completed k success cancelled now r (by omega) hr
  | other between =>
    obtain rfl := Option.some.inj hs
    exact .idle (between.relayStates _) (between.preferredRelay _) rfl rfl ⟨Int.le_refl _, id⟩

namespace World

@[simp] theorem state_finish (k : ℕ) (r : Outbound.Reservation) (success cancelled : Bool)
    (now : Sample) : (w.finish policy k r success cancelled now).state =
      Function.update w.state r.index
        ((w.state r.index).complete policy r.epoch r.probe success cancelled now).1 := rfl

@[simp] theorem latest_finish (k : ℕ) (r : Outbound.Reservation) (success cancelled : Bool)
    (now : Sample) : (w.finish policy k r success cancelled now).latest = now.mono := rfl

end World

/-! ## Epochs do not come back -/

/-- **How far the epoch of a breaker can be**, at an instant of the monotonic clock: an open breaker
waits a millisecond at least, and closes after. -/
structure Timed (st : RelayConnectState) (latest : ℤ) : Prop where
  closed : st.probe = false → (st.epoch.toNat : ℤ) * 500000 ≤ latest ∧ st.probing = false
  opened : st.probe = true → ∃ u, st.openUntil.mono = some u ∧
    ((st.epoch.toNat : ℤ) + 1) * 500000 ≤ u ∧ u ≤ latest + 600000 * millisecond ∧
    (st.probing = true → u ≤ latest)

variable {st : RelayConnectState} {latest latest' : ℤ}

theorem timed_fresh (h : 0 ≤ latest) : Timed .fresh latest :=
  ⟨fun _ => ⟨by simpa [RelayConnectState.fresh] using h, rfl⟩, fun h => absurd h (by decide)⟩

theorem Timed.later (h : Timed st latest) (hle : latest ≤ latest') : Timed st latest' where
  closed := fun hp => ⟨(h.closed hp).1.trans hle, (h.closed hp).2⟩
  opened := by
    intro hp
    obtain ⟨u, hu, hepoch, hlimit, hprobing⟩ := h.opened hp
    exact ⟨u, hu, hepoch, by omega, fun hq => (hprobing hq).trans hle⟩

/-- **The next epoch is a new one.** -/
theorem Timed.toNat_succ (h : Timed st latest) (hlatest : latest < 2 ^ 63) :
    (st.epoch + 1).toNat = st.epoch.toNat + 1 := by
  have hlt : st.epoch.toNat + 1 < 2 ^ 64 := by
    cases hp : st.probe with
    | false =>
      have := (h.closed hp).1
      omega
    | true =>
      obtain ⟨u, -, hepoch, hlimit, -⟩ := h.opened hp
      simp only [millisecond] at hlimit
      omega
  rw [UInt64.toNat_add, UInt64.toNat_one, Nat.mod_eq_of_lt hlt]

theorem Timed.reserve {now : Sample} (h : Timed st now.mono) (hfree : st.free now = true) :
    Timed st.reserve now.mono := by
  cases hp : st.probe with
  | false =>
    have hsame : st.reserve = st := by simp [RelayConnectState.reserve, hp]
    rw [hsame]
    exact h
  | true =>
    obtain ⟨u, hu, hepoch, hlimit, -⟩ := h.opened hp
    refine ⟨fun hclosed => absurd ((st.probe_reserve).symm.trans hclosed) (by simp [hp]),
      fun _ => ⟨u, by simpa using hu, by simpa using hepoch, hlimit, fun _ => ?_⟩⟩
    -- the half-open attempt is past the cooldown
    obtain ⟨-, hbefore⟩ : st.probing = false ∧ (Time.ofSample now).before st.openUntil = false := by
      simpa [RelayConnectState.free, hp] using hfree
    rw [Time.before_of_mono_eq_some rfl hu] at hbefore
    simpa using hbefore

theorem probe_opened (policy : RelayConnectPolicy) (now : Reading) (failures : List Sample)
    (probing : Bool) (epoch : UInt64) : RelayConnectState.probe ⟨failures,
      (Time.ofSample now.sample).add (policy.cooldownMS * millisecond), probing, epoch⟩ = true := by
  have hwall := now.wall_pos
  simp only [RelayConnectState.probe, Time.isZero, Time.add_wall, Time.ofSample_wall, millisecond,
    Bool.not_eq_true', beq_eq_false_iff_ne, ne_eq]
  omega

/-- The cooldown is a millisecond at least, and ten minutes at most. -/
theorem cooldown_range (policy : RelayConnectPolicy) :
    1 ≤ policy.cooldownMS ∧ policy.cooldownMS ≤ 600000 :=
  policy.durations_range _ (by simp)

variable {now : Reading} {st' : RelayConnectState}

theorem Timed.complete {epoch : UInt64} {probe success cancelled accepted : Bool}
    (h : Timed st now.sample.mono) (hprobe : epoch = st.epoch → probe = st.probe)
    (hprobing : epoch = st.epoch → probe = true → st.probing = true)
    (hc : st.Completes policy epoch probe success cancelled now.sample st' accepted) :
    Timed st' now.sample.mono := by
  have hsucc := h.toNat_succ now.mono_range.2
  cases hc with
  | stale => exact h
  | cancelled =>
    refine ⟨fun hp => ⟨(h.closed hp).1, by simp [RelayConnectState.settled, (h.closed hp).2]⟩,
      fun hp => ?_⟩
    obtain ⟨u, hu, hepoch, hlimit, hq⟩ := h.opened hp
    exact ⟨u, hu, hepoch, hlimit, fun hs => hq (Bool.and_eq_true _ _ ▸ hs).1⟩
  | succeeded => exact ⟨h.closed, h.opened⟩
  | closed hepoch _ _ hp =>
    obtain ⟨u, -, hlow, -, hq⟩ := h.opened ((hprobe hepoch.symm).symm.trans hp)
    have hpast := hq (hprobing hepoch.symm hp)
    refine ⟨fun _ => ⟨?_, rfl⟩, fun hopen => absurd hopen (by
      simp [RelayConnectState.probe, Time.isZero, Time.zero])⟩
    simp only [hsucc, Nat.cast_add, Nat.cast_one]
    omega
  | opened hepoch _ _ _ =>
    have hcool := cooldown_range policy
    -- a closed breaker has no half-open attempt, and the one of an open breaker is given back
    have hsettled : (st.settled probe).probing = false := by
      cases hp : st.probe with
      | false => simp [RelayConnectState.settled, (h.closed hp).2]
      | true => simp [RelayConnectState.settled, (hprobe hepoch.symm).trans hp]
    have hlow : (st.epoch.toNat : ℤ) * 500000 ≤ now.sample.mono := by
      cases hp : st.probe with
      | false => exact (h.closed hp).1
      | true =>
        obtain ⟨u, -, hlow, -, hq⟩ := h.opened hp
        have hpast := hq (hprobing hepoch.symm ((hprobe hepoch.symm).trans hp))
        omega
    refine ⟨fun hclosed => absurd ((probe_opened policy now _ _ _).symm.trans hclosed) (by simp),
      fun _ => ⟨now.sample.mono + policy.cooldownMS * millisecond, rfl, ?_, ?_, ?_⟩⟩
    · simp only [hsucc, Nat.cast_add, Nat.cast_one, millisecond]
      omega
    · simp only [millisecond]
      omega
    · intro hq
      exact absurd (hsettled.symm.trans hq) (by simp)
  | failed => exact ⟨h.closed, h.opened⟩

/-! ## Half-open attempts -/

/-- The outstanding half-open attempts of a relay. -/
def probes (outstanding : List Outbound.Reservation) (i : ℕ) : ℕ :=
  outstanding.countP fun r => r.index == i && r.probe

/-- **What holds between two sections.** -/
structure Inv (w : World) : Prop where
  range : 0 ≤ w.latest ∧ w.latest < 2 ^ 63
  timed : ∀ i, Timed (w.state i) w.latest
  older : ∀ r ∈ w.outstanding, r.epoch.toNat ≤ (w.state r.index).epoch.toNat
  current : ∀ r ∈ w.outstanding, r.epoch = (w.state r.index).epoch →
    r.probe = (w.state r.index).probe
  half : ∀ r ∈ w.outstanding, r.probe = true → r.epoch = (w.state r.index).epoch
  single : ∀ i, probes w.outstanding i = if (w.state i).probing then 1 else 0

theorem inv_start (options : OutboundOptions) (lease : LeaseAuthorization) :
    Inv (.start options lease) where
  range := by simp [World.start]
  timed := fun _ => timed_fresh (Int.le_refl 0)
  older := by simp [World.start]
  current := by simp [World.start]
  half := by simp [World.start]
  single := fun _ => rfl

variable {r : Outbound.Reservation}

/-- An outstanding half-open attempt is the one the breaker knows of. -/
theorem Inv.probing (h : Inv w) (hr : r ∈ w.outstanding) (hp : r.probe = true) :
    (w.state r.index).probing = true := by
  have hpos : 0 < probes w.outstanding r.index := List.countP_pos_iff.mpr ⟨r, hr, by simp [hp]⟩
  have hsingle := h.single r.index
  by_contra hq
  rw [if_neg hq] at hsingle
  omega

theorem Inv.reserve {i : ℕ} (h : Inv w) (hnow : w.latest ≤ now.sample.mono)
    (hfree : (w.state i).free now.sample = true)
    (hstate : w'.state = Function.update w.state i (w.state i).reserve)
    (houtstanding : w'.outstanding = w.outstanding ++ [⟨i, (w.state i).epoch, (w.state i).probe⟩])
    (hlatest : w'.latest = now.sample.mono) : Inv w' := by
  have hsame : ∀ j, (w'.state j).epoch = (w.state j).epoch ∧
      (w'.state j).probe = (w.state j).probe := by
    intro j
    rw [hstate]
    by_cases hj : j = i
    · subst hj
      simp
    · simp [hj]
  have hheld : ∀ r ∈ w'.outstanding, r ∈ w.outstanding ∨
      r = ⟨i, (w.state i).epoch, (w.state i).probe⟩ := by
    simp [houtstanding]
  refine ⟨hlatest ▸ now.mono_range, fun j => ?_, fun r hr => ?_, fun r hr => ?_, fun r hr => ?_,
    fun j => ?_⟩
  · have htimed := (h.timed j).later hnow
    rw [hstate, hlatest]
    by_cases hj : j = i
    · subst hj
      simpa using htimed.reserve hfree
    · simpa [hj] using htimed
  · rw [(hsame _).1]
    rcases hheld r hr with hr | rfl
    · exact h.older r hr
    · exact Nat.le_refl _
  · rw [(hsame _).1, (hsame _).2]
    rcases hheld r hr with hr | rfl
    · exact h.current r hr
    · exact fun _ => rfl
  · rw [(hsame _).1]
    rcases hheld r hr with hr | rfl
    · exact h.half r hr
    · exact fun _ => rfl
  · have hsingle := h.single j
    rw [houtstanding, probes, List.countP_append, List.countP_singleton, hstate]
    by_cases hj : j = i
    · subst hj
      cases hp : (w.state j).probe with
      | false => simpa [RelayConnectState.reserve, hp, probes] using hsingle
      | true =>
        obtain ⟨hidle, -⟩ : (w.state j).probing = false ∧ _ := by
          simpa [RelayConnectState.free, hp] using hfree
        simp only [hidle, probes] at hsingle
        simp [RelayConnectState.reserve, hp, hsingle]
    · simpa [hj, Ne.symm hj, probes] using hsingle

/-- A completion keeps the epoch and whether the breaker is open, or it goes on to the next epoch;
either way a half-open attempt is given back, unless it is stale. -/
theorem completes_kinds {epoch : UInt64} {probe success cancelled accepted : Bool} {now : Sample}
    (hc : st.Completes policy epoch probe success cancelled now st' accepted) :
    (st'.probing = (st.probing && !probe) ∨ st.epoch ≠ epoch ∧ st'.probing = st.probing) ∧
    (st'.epoch = st.epoch ∧ st'.probe = st.probe ∨ st.epoch = epoch ∧ st'.epoch = st.epoch + 1) := by
  cases hc with
  | stale hepoch => exact ⟨.inr ⟨hepoch, rfl⟩, .inl ⟨rfl, rfl⟩⟩
  | cancelled => exact ⟨.inl rfl, .inl ⟨rfl, rfl⟩⟩
  | succeeded _ _ _ hp => exact ⟨.inl (by simp [hp]), .inl ⟨rfl, rfl⟩⟩
  | closed hepoch _ _ hp => exact ⟨.inl (by simp [hp]), .inr ⟨hepoch, rfl⟩⟩
  | opened hepoch => exact ⟨.inl rfl, .inr ⟨hepoch, rfl⟩⟩
  | failed _ _ _ hp => exact ⟨.inl (by simp [hp]), .inl ⟨rfl, rfl⟩⟩

theorem Inv.finish {k : ℕ} {success cancelled : Bool} (h : Inv w)
    (hnow : w.latest ≤ now.sample.mono) (hr : w.outstanding[k]? = some r) :
    Inv (w.finish policy k r success cancelled now.sample) := by
  have hperm : w.outstanding.Perm (r :: w.outstanding.eraseIdx k) := Threads.perm_others hr
  have hrest : ∀ q ∈ w.outstanding.eraseIdx k, q ∈ w.outstanding :=
    fun q hq => hperm.mem_iff.mpr (List.mem_cons_of_mem _ hq)
  have hmem : r ∈ w.outstanding := List.mem_of_getElem? hr
  have hc := RelayConnectState.complete_completes policy (w.state r.index) r.epoch r.probe success
    cancelled now.sample
  generalize hst' : ((w.state r.index).complete policy r.epoch r.probe success cancelled
    now.sample).1 = st' at hc
  have htimed := (h.timed r.index).later hnow
  have hsucc := htimed.toNat_succ now.mono_range.2
  obtain ⟨hgiven, hkinds⟩ := completes_kinds hc
  -- a half-open attempt is never stale
  have hprobing' : st'.probing = ((w.state r.index).probing && !r.probe) := by
    rcases hgiven with hgiven | ⟨hstale, hgiven⟩
    · exact hgiven
    · cases hp : r.probe with
      | false => simp [hgiven]
      | true => exact absurd (h.half r hmem hp).symm hstale
  have hcount : ∀ i, probes w.outstanding i =
      probes (w.outstanding.eraseIdx k) i + if (r.index == i && r.probe) = true then 1 else 0 := by
    intro i
    rw [probes, hperm.countP_eq, List.countP_cons, probes]
  have hsingle' : ∀ i, probes (w.outstanding.eraseIdx k) i =
      if ((w.finish policy k r success cancelled now.sample).state i).probing then 1 else 0 := by
    intro i
    have hi := h.single i
    rw [hcount] at hi
    rw [World.state_finish, hst']
    by_cases hj : i = r.index
    · subst hj
      rw [Function.update_self, hprobing']
      cases hp : r.probe with
      | false => simpa [hp] using hi
      | true =>
        rw [if_pos (by simp [hp]), if_pos (h.probing hmem hp)] at hi
        simp only [Bool.not_true, Bool.and_false, Bool.false_eq_true, if_false]
        omega
    · rw [Function.update_of_ne hj]
      simpa [Ne.symm hj] using hi
  have hother : ∀ q : Outbound.Reservation, q.index ≠ r.index →
      (w.finish policy k r success cancelled now.sample).state q.index = w.state q.index :=
    fun q hq => by rw [World.state_finish, Function.update_of_ne hq]
  have hself : (w.finish policy k r success cancelled now.sample).state r.index = st' := by
    rw [World.state_finish, hst', Function.update_self]
  refine ⟨now.mono_range, fun i => ?_, fun q hq => ?_, fun q hq => ?_, fun q hq hp => ?_, hsingle'⟩
  · rw [World.latest_finish]
    by_cases hj : i = r.index
    · rw [hj, hself]
      exact htimed.complete (h.current r hmem) (fun _ => h.probing hmem) hc
    · rw [World.state_finish, Function.update_of_ne hj]
      exact (h.timed i).later hnow
  · have hle := h.older q (hrest q hq)
    by_cases hj : q.index = r.index
    · rw [hj] at hle ⊢
      rw [hself]
      rcases hkinds with ⟨hepoch, -⟩ | ⟨-, hepoch⟩ <;> rw [hepoch]
      · exact hle
      · omega
    · rw [hother q hj]
      exact hle
  · have hcurrent := h.current q (hrest q hq)
    have hle := h.older q (hrest q hq)
    by_cases hj : q.index = r.index
    · rw [hj] at hcurrent hle ⊢
      rw [hself]
      rcases hkinds with ⟨hepoch, hprobe⟩ | ⟨-, hepoch⟩
      · rw [hepoch, hprobe]
        exact hcurrent
      · intro heq
        rw [heq, hepoch] at hle
        omega
    · rw [hother q hj]
      exact hcurrent
  · have hhalf := h.half q (hrest q hq) hp
    by_cases hj : q.index = r.index
    · rw [hj] at hhalf ⊢
      rw [hself]
      rcases hkinds with ⟨hepoch, -⟩ | ⟨hepoch, -⟩
      · rw [hepoch]
        exact hhalf
      · -- `q` and `r` would be two attempts of one open breaker
        have hrp : r.probe = true := by
          rw [h.current r hmem hepoch.symm, ← hj, ← h.current q (hrest q hq) (hj ▸ hhalf)]
          exact hp
        have hpos : 0 < probes (w.outstanding.eraseIdx k) r.index :=
          List.countP_pos_iff.mpr ⟨q, hq, by simp [hj, hp]⟩
        have hone := hcount r.index
        rw [h.single, if_pos (h.probing hmem hrp), if_pos (by simp [hrp])] at hone
        omega
    · rw [hother q hj]
      exact hhalf

theorem Inv.step (h : Inv w) (hs : w.step policy e = some w') : Inv w' := by
  cases change_step hs with
  | idle hstate _ houtstanding _ hlatest =>
    exact ⟨⟨h.range.1.trans hlatest.1, hlatest.2 h.range.2⟩,
      fun i => hstate ▸ (h.timed i).later hlatest.1, hstate ▸ houtstanding ▸ h.older,
      hstate ▸ houtstanding ▸ h.current, hstate ▸ houtstanding ▸ h.half,
      hstate ▸ houtstanding ▸ h.single⟩
  | reserved g visited extra now i hnow hfree hstate _ houtstanding _ hlatest =>
    exact h.reserve hnow hfree hstate houtstanding hlatest
  | completed k success cancelled now r hnow hr => exact h.finish hnow hr

theorem inv_run {options : OutboundOptions} {lease : LeaseAuthorization}
    (run : (World.machine policy).Reaches (.start options lease) w) : Inv w := by
  refine run.invariant (P := Inv) (fun w e w' _ _ hs h => ?_) (inv_start options lease)
  obtain ⟨_, hs, hw⟩ := Option.map_eq_some_iff.mp hs
  exact h.step (hs.trans (congrArg some (congrArg Prod.fst hw)))

/-- **Half-open exclusivity.**  A relay has one outstanding half-open attempt at most, its breaker
knows whether there is one, and a breaker that no attempt is outstanding on is free once its cooldown
is over. -/
theorem half_open_exclusive {options : OutboundOptions} {lease : LeaseAuthorization}
    (run : (World.machine policy).Reaches (.start options lease) w) :
    (∀ i, (w.outstanding.countP fun r => r.index == i && r.probe) ≤ 1) ∧
    (∀ i, (w.outbound.relayStates i).probing = true ↔ ∃ r ∈ w.outstanding,
      r.index = i ∧ r.probe = true ∧ r.epoch = (w.outbound.relayStates i).epoch) ∧
    (w.outstanding = [] → ∀ i, (w.outbound.relayStates i).probing = false ∧
      ∀ now, (Time.ofSample now).before (w.outbound.relayStates i).openUntil = false →
        (w.outbound.relayStates i).free now = true) := by
  have h := inv_run run
  have hiff : ∀ i, (w.outbound.relayStates i).probing = true ↔ ∃ r ∈ w.outstanding,
      r.index = i ∧ r.probe = true ∧ r.epoch = (w.outbound.relayStates i).epoch := by
    intro i
    constructor
    · intro hq
      have hsingle := h.single i
      rw [World.state, if_pos hq] at hsingle
      obtain ⟨r, hr, hp⟩ := List.countP_pos_iff.mp (hsingle ▸ Nat.one_pos : 0 < probes _ i)
      simp only [Bool.and_eq_true, beq_iff_eq] at hp
      obtain ⟨rfl, hp⟩ := hp
      exact ⟨r, hr, rfl, hp, h.half r hr hp⟩
    · rintro ⟨r, hr, rfl, hp, -⟩
      exact h.probing hr hp
  refine ⟨fun i => ?_, hiff, fun hnone i => ?_⟩
  · have hsingle := h.single i
    rw [probes] at hsingle
    rw [hsingle]
    split <;> omega
  · have hidle : (w.outbound.relayStates i).probing = false := by
      rw [Bool.eq_false_iff]
      intro hq
      obtain ⟨r, hr, -⟩ := (hiff i).mp hq
      rw [hnone] at hr
      exact absurd hr List.not_mem_nil
    exact ⟨hidle, fun now hnow => by simp [RelayConnectState.free, hidle, hnow]⟩

section Sample

/-- A policy that opens at the first failure, for a millisecond. -/
def samplePolicy : RelayConnectPolicy where
  failureThreshold := 1
  failureWindowMS := 1
  cooldownMS := 1
  connectTimeoutMS := 1
  totalTimeoutMS := 2
  maxAttempts := 1
  threshold_range := ⟨Nat.le_refl 1, by omega⟩
  attempts_range := ⟨Nat.le_refl 1, by omega⟩
  durations_range := by simp
  connect_le_total := Nat.le_succ 1

/-- A reading of the clock, so many nanoseconds into the sample lease. -/
def sampleReading (n : Fin 10000000) : Reading where
  sample := ⟨sampleClock.wall + n, sampleClock.mono + n⟩
  wall_pos := by
    have : 0 < sampleClock.wall := by decide +kernel
    simp only
    omega
  mono_range := by
    have : 0 ≤ sampleClock.mono ∧ sampleClock.mono < 2 ^ 62 := by decide +kernel
    simp only
    omega

/-- A relay is opened by a failure, and probed after its cooldown. -/
theorem half_open_exclusive_sample : ∃ w,
    (World.machine samplePolicy).Reaches (.start sampleOptions sampleLease) w ∧
    w.outstanding = [⟨0, 1, true⟩] ∧ (w.outbound.relayStates 0).probing = true ∧
    (w.outstanding.countP fun r => r.index == 0 && r.probe) ≤ 1 := by
  have hrun : ((World.machine samplePolicy).run (.start sampleOptions sampleLease)
      [.reserve 0 [] false (sampleReading 0), .complete 0 false false (sampleReading 1),
        .reserve 0 [] false (sampleReading 2000000)]).map
      (fun w => (w.outstanding, (w.outbound.relayStates 0).probing)) =
      some ([⟨0, 1, true⟩], true) := by
    decide +kernel
  obtain ⟨w, hw, hfacts⟩ := Option.map_eq_some_iff.mp hrun
  simp only [Prod.mk.injEq] at hfacts
  have run := Machine.reaches_run hw
  exact ⟨w, run, hfacts.1, hfacts.2, (half_open_exclusive run).1 0⟩

end Sample

end Breaker

end PokrovCore.SmartAccess
