import PokrovCore.SmartAccess.Breaker

/-!
# SmartAccess/BreakerPolicy — when a breaker opens, and what closes it

The completions that were made say which failures count: those of the current epoch, not cancelled,
since the last success or opening (`recent`).  A breaker keeps the ones that may still be young, in
order, so that it opens exactly when its policy says.
-/

namespace PokrovCore.SmartAccess.Breaker

open SlidingWindow (Covers young)

/-- The window of a policy. -/
def window (policy : RelayConnectPolicy) : ℤ := policy.failureWindowMS * millisecond

/-- A completion among the failures of a relay that count. -/
def note (i : ℕ) (failures : List Sample) (c : Completion) : List Sample :=
  if c.reserved.index = i ∧ c.current = true ∧ c.cancelled = false then
    if c.success = true ∨ c.opened = true then [] else failures ++ [c.now]
  else failures

/-- **The failures of a relay that count**: of the current epoch, not cancelled, since the last
success or opening. -/
def recent (log : List Completion) (i : ℕ) : List Sample := log.foldl (note i) []

@[simp] theorem recent_append (log : List Completion) (c : Completion) (i : ℕ) :
    recent (log ++ [c]) i = note i (recent log i) c := by
  simp [recent]

variable {policy : RelayConnectPolicy} {w w' : World} {e : Event} {st st' : RelayConnectState}
  {epoch : UInt64} {probe success cancelled accepted : Bool} {now : Reading}

/-- **A completion opens a breaker** in one branch. -/
theorem opened_iff (hc : st.Completes policy epoch probe success cancelled now.sample st' accepted) :
    opened st st' = true ↔ st.epoch = epoch ∧ success = false ∧ cancelled = false ∧
      (probe = true ∨ policy.failureThreshold ≤
        (st.noteFailure (window policy) now.sample).length) := by
  cases hc with
  | stale hepoch => simp [opened, hepoch]
  | cancelled hepoch hcancelled => simp [opened, RelayConnectState.settled, hcancelled]
  | succeeded hepoch hcancelled hsuccess => simp [opened, hsuccess]
  | closed hepoch hcancelled hsuccess =>
    simp [opened, hsuccess, RelayConnectState.probe, Time.isZero, Time.zero]
  | opened hepoch hcancelled hsuccess hfull =>
    have hnew : st.epoch ≠ st.epoch + 1 := by
      intro heq
      have := congrArg UInt64.toNat heq
      rw [UInt64.toNat_add, UInt64.toNat_one] at this
      omega
    have hopen := probe_opened policy now [] (st.settled probe).probing (st.epoch + 1)
    simp only [Breaker.opened, hopen, Bool.and_true, bne_iff_ne, ne_eq, hnew, not_false_eq_true,
      true_iff]
    exact ⟨hepoch, hsuccess, hcancelled, hfull⟩
  | failed hepoch hcancelled hsuccess hprobe hroom =>
    have hroom : ¬policy.failureThreshold ≤ (st.noteFailure (window policy) now.sample).length :=
      Nat.not_le.mpr hroom
    simp [opened, hprobe, hroom]

/-! ## The failures a breaker keeps -/

/-- **A breaker keeps the failures that may still be young**, and they are in order. -/
structure History (policy : RelayConnectPolicy) (latest : ℤ) (failures log : List Sample) : Prop where
  covers : Covers Sample.mono (window policy) latest log failures
  ordered : log.Pairwise fun t t' => t.mono ≤ t'.mono
  range : ∀ t ∈ log, 0 ≤ t.mono ∧ t.mono ≤ latest

variable {latest latest' : ℤ} {failures log : List Sample} {now : Reading}

theorem history_nil (policy : RelayConnectPolicy) (latest : ℤ) : History policy latest [] [] :=
  ⟨SlidingWindow.covers_nil _ _ _, List.Pairwise.nil, by simp⟩

theorem History.later (h : History policy latest failures log) (hle : latest ≤ latest') :
    History policy latest' failures log :=
  ⟨h.covers.later hle, h.ordered, fun t ht => ⟨(h.range t ht).1, (h.range t ht).2.trans hle⟩⟩

/-- A failure is forgotten when it is a window old: no difference of two readings is as long as the
longest duration. -/
theorem History.forgets (h : History policy now.sample.mono st.failures log) :
    ∀ t ∈ st.failures, decide (window policy ≤ (Time.ofSample now.sample).sub (Time.ofSample t)) =
      true ↔ t.mono + window policy ≤ now.sample.mono := by
  intro t ht
  obtain ⟨old, hlog, -⟩ := h.covers
  have ht := h.range t (hlog ▸ List.mem_append_right _ ht)
  have hnow := now.mono_range
  rw [decide_eq_true_eq]
  simp only [Time.sub, Time.ofSample_mono, Time.minDuration, Time.maxDuration]
  omega

/-- **What a breaker counts at a failure is what is young.** -/
theorem History.noteFailure_eq (h : History policy now.sample.mono st.failures log) :
    st.noteFailure (window policy) now.sample =
      young Sample.mono (window policy) now.sample.mono log ++ [now.sample] := by
  obtain ⟨old, hlog, -⟩ := h.covers
  have hordered : st.failures.Pairwise fun t t' => t.mono ≤ t'.mono :=
    h.ordered.sublist (hlog ▸ List.sublist_append_right _ _)
  rw [RelayConnectState.noteFailure, SlidingWindow.dropWhile_eq_young hordered h.forgets,
    h.covers.young_eq]

theorem History.fail (h : History policy now.sample.mono st.failures log) :
    History policy now.sample.mono (st.noteFailure (window policy) now.sample)
      (log ++ [now.sample]) := by
  refine ⟨(h.covers.prune fun t ht hp => (h.forgets t ht).mp hp).push now.sample, ?_, ?_⟩
  · rw [List.pairwise_append]
    refine ⟨h.ordered, List.pairwise_singleton _ _, fun t ht t' ht' => ?_⟩
    rw [List.mem_singleton.mp ht']
    exact (h.range t ht).2
  · intro t ht
    rcases List.mem_append.mp ht with ht | ht
    · exact h.range t ht
    · rw [List.mem_singleton.mp ht]
      exact ⟨now.mono_range.1, Int.le_refl _⟩

variable {r : Outbound.Reservation} {k : ℕ}

/-- The history of the relay of a completion. -/
theorem History.complete
    (h : History policy now.sample.mono (w.state r.index).failures (recent w.log r.index)) :
    History policy now.sample.mono
      ((w.finish policy k r success cancelled now.sample).state r.index).failures
      (recent (w.finish policy k r success cancelled now.sample).log r.index) := by
  have hc := RelayConnectState.complete_completes policy (w.state r.index) r.epoch r.probe success
    cancelled now.sample
  have hopened := opened_iff hc
  have hlog : (w.finish policy k r success cancelled now.sample).log = w.log ++
      [⟨r, success, cancelled, now.sample, (w.state r.index).epoch == r.epoch,
        opened (w.state r.index) ((w.state r.index).complete policy r.epoch r.probe success
          cancelled now.sample).1⟩] := by
    simp [World.finish, Outbound.completeRelay, World.state]
  rw [hlog, recent_append, World.state_finish, Function.update_self]
  generalize ((w.state r.index).complete policy r.epoch r.probe success cancelled now.sample).1 = st'
    at hc hopened ⊢
  generalize ((w.state r.index).complete policy r.epoch r.probe success cancelled now.sample).2 =
    accepted at hc
  cases hc with
  | stale hepoch => simpa [note, hepoch] using h
  | cancelled hepoch hcancelled => simpa [note, hcancelled, RelayConnectState.settled] using h
  | succeeded hepoch hcancelled hsuccess =>
    simpa [note, hepoch, hcancelled, hsuccess] using history_nil policy now.sample.mono
  | closed hepoch hcancelled hsuccess =>
    simpa [note, hepoch, hcancelled, hsuccess] using history_nil policy now.sample.mono
  | opened hepoch hcancelled hsuccess hfull =>
    have hopen := hopened.mpr ⟨hepoch, hsuccess, hcancelled, hfull⟩
    rw [note, if_pos ⟨rfl, by simp [hepoch], hcancelled⟩, if_pos (.inr hopen)]
    exact history_nil policy now.sample.mono
  | failed hepoch hcancelled hsuccess hprobe hroom =>
    have hopen : opened (w.state r.index) { w.state r.index with
        failures := (w.state r.index).noteFailure (policy.failureWindowMS * millisecond)
          now.sample } = false := by
      simp [opened]
    rw [note, if_pos ⟨rfl, by simp [hepoch], hcancelled⟩, if_neg (by simp [hsuccess, hopen])]
    exact h.fail

/-- **What holds of every relay between two sections.** -/
def Recorded (policy : RelayConnectPolicy) (w : World) : Prop :=
  ∀ i, History policy w.latest (w.state i).failures (recent w.log i)

theorem Recorded.step (h : Recorded policy w) (hs : w.step policy e = some w') :
    Recorded policy w' := by
  intro i
  cases change_step hs with
  | idle hstate _ _ hlog hlatest =>
    rw [hstate, hlog]
    exact (h i).later hlatest.1
  | reserved g visited extra now j hnow _ hstate _ _ hlog hlatest =>
    rw [hstate, hlog, hlatest]
    by_cases hj : i = j
    · subst hj
      simpa using (h i).later hnow
    · rw [Function.update_of_ne hj]
      exact (h i).later hnow
  | completed k success cancelled now r hnow hr =>
    rw [World.latest_finish]
    by_cases hj : i = r.index
    · rw [hj]
      exact ((h r.index).later hnow).complete
    · have hlog : recent (w.finish policy k r success cancelled now.sample).log i =
          recent w.log i := by
        simp [World.finish, note, Ne.symm hj]
      rw [hlog, World.state_finish, Function.update_of_ne hj]
      exact (h i).later hnow

theorem recorded_run {options : OutboundOptions} {lease : LeaseAuthorization}
    (run : (World.machine policy).Reaches (.start options lease) w) : Recorded policy w := by
  refine run.invariant (P := Recorded policy) (fun w e w' _ _ hs h => ?_)
    fun _ => history_nil policy 0
  obtain ⟨_, hs, hw⟩ := Option.map_eq_some_iff.mp hs
  exact h.step (hs.trans (congrArg some (congrArg Prod.fst hw)))

/-! ## The policy -/

theorem step_complete (hs : w.step policy (.complete k success cancelled now) = some w') :
    ∃ r, w.latest ≤ now.sample.mono ∧ w.outstanding[k]? = some r ∧
      w' = w.finish policy k r success cancelled now.sample := by
  simp only [World.step] at hs
  obtain ⟨hnow, hs⟩ := Option.ite_none_left_eq_some.mp hs
  obtain ⟨r, hr, rfl⟩ := Option.map_eq_some_iff.mp hs
  exact ⟨r, by omega, hr, rfl⟩

/-- A section that is no completion opens and closes nothing. -/
theorem step_other (hs : w.step policy e = some w')
    (hother : ∀ k success cancelled now, e ≠ .complete k success cancelled now) (i : ℕ) :
    (w'.state i).epoch = (w.state i).epoch ∧ (w'.state i).openUntil = (w.state i).openUntil := by
  cases change_step hs with
  | idle hstate =>
    rw [hstate]
    exact ⟨rfl, rfl⟩
  | reserved g visited extra now j _ _ hstate =>
    rw [hstate]
    by_cases hj : i = j
    · subst hj
      simp
    · simp [hj]
  | completed k success cancelled now => exact absurd rfl (hother k success cancelled now)

theorem opened_self (st : RelayConnectState) : opened st st = false := by
  simp [opened]

theorem opened_finish_iff (h : Recorded policy w) (hnow : w.latest ≤ now.sample.mono) (i : ℕ) :
    opened (w.state i) ((w.finish policy k r success cancelled now.sample).state i) = true ↔
      r.index = i ∧ r.epoch = (w.state i).epoch ∧ success = false ∧ cancelled = false ∧
      (r.probe = true ∨ policy.failureThreshold ≤
        ((recent w.log i).filter fun t => decide
          (now.sample.mono - t.mono < policy.failureWindowMS * millisecond)).length + 1) := by
  by_cases hi : i = r.index
  · subst hi
    have hc := RelayConnectState.complete_completes policy (w.state r.index) r.epoch r.probe success
      cancelled now.sample
    have hcount : ((w.state r.index).noteFailure (window policy) now.sample).length =
        ((recent w.log r.index).filter fun t => decide
          (now.sample.mono - t.mono < policy.failureWindowMS * millisecond)).length + 1 := by
      rw [((h r.index).later hnow).noteFailure_eq, List.length_append, List.length_singleton, young]
      congr 3
      funext t
      rw [decide_eq_decide, window]
      omega
    rw [World.state_finish, Function.update_self, opened_iff hc, hcount, eq_comm (a := r.epoch)]
    simp
  · rw [World.state_finish, Function.update_of_ne hi, opened_self]
    simp [Ne.symm hi]

/-- A completion that is stale or cancelled changes nothing that counts. -/
theorem finish_of_stale {now : Sample} (hr : r.epoch ≠ (w.state r.index).epoch ∨ cancelled = true) :
    (w.finish policy k r success cancelled now).outbound.preferredRelay =
        w.outbound.preferredRelay ∧
      ∀ i, ((w.finish policy k r success cancelled now).state i).failures = (w.state i).failures ∧
        ((w.finish policy k r success cancelled now).state i).openUntil = (w.state i).openUntil ∧
        ((w.finish policy k r success cancelled now).state i).epoch = (w.state i).epoch := by
  have hc := RelayConnectState.complete_completes policy (w.state r.index) r.epoch r.probe success
    cancelled now
  have hfacts : ((w.state r.index).complete policy r.epoch r.probe success cancelled now).2 = false ∧
      ((w.state r.index).complete policy r.epoch r.probe success cancelled now).1.failures =
        (w.state r.index).failures ∧
      ((w.state r.index).complete policy r.epoch r.probe success cancelled now).1.openUntil =
        (w.state r.index).openUntil ∧
      ((w.state r.index).complete policy r.epoch r.probe success cancelled now).1.epoch =
        (w.state r.index).epoch := by
    generalize ((w.state r.index).complete policy r.epoch r.probe success cancelled now) = c at hc
    obtain ⟨st', accepted⟩ := c
    cases hc with
    | stale => exact ⟨rfl, rfl, rfl, rfl⟩
    | cancelled => exact ⟨rfl, rfl, rfl, rfl⟩
    | succeeded hepoch hcancelled | closed hepoch hcancelled | opened hepoch hcancelled
    | failed hepoch hcancelled =>
      rcases hr with hr | hr
      · exact absurd hepoch.symm hr
      · exact absurd (hcancelled.symm.trans hr) (by simp)
  obtain ⟨haccepted, hsame⟩ := hfacts
  refine ⟨?_, fun i => ?_⟩
  · have hstate : w.outbound.relayStates r.index = w.state r.index := rfl
    simp [World.finish, Outbound.completeRelay, hstate, haccepted]
  · rw [World.state_finish]
    by_cases hi : i = r.index
    · subst hi
      simpa using hsame
    · simp [hi]

/-- Only the success of a half-open attempt closes a breaker. -/
theorem closes_finish {i : ℕ} (hopen : (w.state i).openUntil.isZero = false)
    (hclosed : ((w.finish policy k r success cancelled now.sample).state i).openUntil.isZero = true) :
    success = true ∧ cancelled = false ∧ r.index = i ∧ r.probe = true ∧
      r.epoch = (w.state i).epoch := by
  rw [World.state_finish] at hclosed
  by_cases hi : i = r.index
  · subst hi
    rw [Function.update_self] at hclosed
    have hc := RelayConnectState.complete_completes policy (w.state r.index) r.epoch r.probe success
      cancelled now.sample
    generalize ((w.state r.index).complete policy r.epoch r.probe success cancelled now.sample) = c
      at hc hclosed
    obtain ⟨st', accepted⟩ := c
    cases hc with
    | closed hepoch hcancelled hsuccess hprobe =>
      exact ⟨hsuccess, hcancelled, rfl, hprobe, hepoch.symm⟩
    | opened hepoch hcancelled hsuccess hfull =>
      have hprobe := probe_opened policy now [] ((w.state r.index).settled r.probe).probing
        ((w.state r.index).epoch + 1)
      simp only [RelayConnectState.probe, Bool.not_eq_true'] at hprobe
      exact absurd (hprobe.symm.trans hclosed) (by simp)
    | stale | cancelled | succeeded | failed => exact absurd (hopen.symm.trans hclosed) (by simp)
  · rw [Function.update_of_ne hi] at hclosed
    exact absurd (hopen.symm.trans hclosed) (by simp)

/-- **The breaker opens exactly when its policy says**, a completion that is stale or cancelled
changes nothing that counts, and only the success of a half-open attempt closes a breaker. -/
theorem breaker_opens_iff {options : OutboundOptions} {lease : LeaseAuthorization}
    (run : (World.machine policy).Reaches (.start options lease) w)
    (hs : w.step policy e = some w') :
    (∀ i, opened (w.outbound.relayStates i) (w'.outbound.relayStates i) = true ↔
      ∃ k success cancelled now r, e = .complete k success cancelled now ∧
        w.outstanding[k]? = some r ∧ r.index = i ∧ r.epoch = (w.outbound.relayStates i).epoch ∧
        success = false ∧ cancelled = false ∧
        (r.probe = true ∨ policy.failureThreshold ≤
          ((recent w.log i).filter fun t => decide
            (now.sample.mono - t.mono < policy.failureWindowMS * millisecond)).length + 1)) ∧
    (∀ k success cancelled now r, e = .complete k success cancelled now →
      w.outstanding[k]? = some r →
      (r.epoch ≠ (w.outbound.relayStates r.index).epoch ∨ cancelled = true) →
      w'.outbound.preferredRelay = w.outbound.preferredRelay ∧
      ∀ i, (w'.outbound.relayStates i).failures = (w.outbound.relayStates i).failures ∧
        (w'.outbound.relayStates i).openUntil = (w.outbound.relayStates i).openUntil ∧
        (w'.outbound.relayStates i).epoch = (w.outbound.relayStates i).epoch) ∧
    (∀ i, (w.outbound.relayStates i).openUntil.isZero = false →
      (w'.outbound.relayStates i).openUntil.isZero = true →
      ∃ k now r, e = .complete k true false now ∧ w.outstanding[k]? = some r ∧ r.index = i ∧
        r.probe = true ∧ r.epoch = (w.outbound.relayStates i).epoch) := by
  have hrecorded := recorded_run run
  by_cases hcomplete : ∃ k success cancelled now, e = .complete k success cancelled now
  · obtain ⟨k, success, cancelled, now, rfl⟩ := hcomplete
    obtain ⟨r, hnow, hr, rfl⟩ := step_complete hs
    refine ⟨fun i => (opened_finish_iff hrecorded hnow i).trans ⟨fun hi => ?_, ?_⟩, ?_, ?_⟩
    · exact ⟨k, success, cancelled, now, r, rfl, hr, hi⟩
    · rintro ⟨k', success', cancelled', now', r', heq, hr', hi⟩
      obtain ⟨rfl, rfl, rfl, rfl⟩ := Event.complete.inj heq
      obtain rfl := Option.some.inj (hr.symm.trans hr')
      exact hi
    · rintro k' success' cancelled' now' r' heq hr' hstale
      obtain ⟨rfl, rfl, rfl, rfl⟩ := Event.complete.inj heq
      obtain rfl := Option.some.inj (hr.symm.trans hr')
      exact finish_of_stale hstale
    · intro i hopen hclosed
      obtain ⟨rfl, rfl, hi⟩ := closes_finish hopen hclosed
      exact ⟨k, now, r, rfl, hr, hi⟩
  · have hother : ∀ k success cancelled now, e ≠ .complete k success cancelled now :=
      fun k success cancelled now heq => hcomplete ⟨k, success, cancelled, now, heq⟩
    have hsame := step_other hs hother
    refine ⟨fun i => ⟨fun hopen => ?_, ?_⟩, ?_, fun i hopen hclosed => ?_⟩
    · simp only [opened, Bool.and_eq_true, bne_iff_ne] at hopen
      exact absurd (hsame i).1.symm hopen.1
    · rintro ⟨k, success, cancelled, now, r, heq, -⟩
      exact absurd heq (hother k success cancelled now)
    · intro k success cancelled now r heq
      exact absurd heq (hother k success cancelled now)
    · have hkept : (w'.outbound.relayStates i).openUntil = (w.outbound.relayStates i).openUntil :=
        (hsame i).2
      rw [hkept] at hclosed
      exact absurd (hopen.symm.trans hclosed) (by simp)

/-- A failure of the sample policy opens the relay. -/
theorem breaker_opens_iff_sample : ∃ w w',
    (World.machine samplePolicy).Reaches (.start sampleOptions sampleLease) w ∧
    w.step samplePolicy (.complete 0 false false (sampleReading 1)) = some w' ∧
    opened (w.outbound.relayStates 0) (w'.outbound.relayStates 0) = true := by
  have hrun : ((World.machine samplePolicy).run (.start sampleOptions sampleLease)
      [.reserve 0 [] false (sampleReading 0)]).map
      (fun w => (w.outstanding, (w.outbound.relayStates 0).epoch,
        (w.step samplePolicy (.complete 0 false false (sampleReading 1))).isSome)) =
      some ([⟨0, 0, false⟩], 0, true) := by
    decide +kernel
  obtain ⟨w, hw, hfacts⟩ := Option.map_eq_some_iff.mp hrun
  simp only [Prod.mk.injEq] at hfacts
  obtain ⟨houtstanding, hepoch, hsome⟩ := hfacts
  obtain ⟨w', hs⟩ := Option.isSome_iff_exists.mp hsome
  have run := Machine.reaches_run hw
  refine ⟨w, w', run, hs, ((breaker_opens_iff run hs).1 0).mpr ⟨0, false, false, sampleReading 1,
    ⟨0, 0, false⟩, rfl, by simp [houtstanding], rfl, hepoch.symm, rfl, rfl, .inr ?_⟩⟩
  exact Nat.le_add_left 1 _

end PokrovCore.SmartAccess.Breaker
