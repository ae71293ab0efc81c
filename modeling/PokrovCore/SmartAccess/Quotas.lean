import PokrovCore.Foundations.SlidingWindow
import PokrovCore.SmartAccess.Invariants

/-!
# SmartAccess/Quotas — the limits of an outbound, over all its flows and windows

An outbound has two limits: how many flows it has at a time, and how many it opens a minute.  The
second counts admitted flows and every relay dial after a flow's first.  Three sections look at the
queue of attempts and forget the old ones, two of them add to it; `Metered` keeps the whole history
beside the outbound, as its callers see it.

`quotas_hold` — no state has too many flows, and no window of a minute too many of these events, if
the sections that look at the queue read a clock that does not go back.
-/

namespace PokrovCore.SmartAccess

open SlidingWindow (Limited Covers)

/-! ## Flows -/

namespace Outbound

variable {mark : Mark} {h h' : Outbound}

/-- The limit of concurrent flows. -/
def Bounded (h : Outbound) : Prop := h.flows.length ≤ h.options.maxConcurrent

theorem Section.options (hs : Section mark h h') : h'.options = h.options := by
  cases hs with
  | quiet hq => exact hq.options
  | admitted hq => exact hq.options
  | activated | attached | flowClosed | deregistered | pruned | adopted | revoked | leaseRevoked
  | closed => rfl

/-- **No section registers a flow too many.** -/
theorem Section.bounded (hs : Section mark h h') (hb : h.Bounded) : h'.Bounded := by
  cases hs with
  | quiet hq =>
    unfold Bounded
    rwa [hq.flows, hq.options]
  | @admitted h₁ hq now _ hroom =>
    have hlt : h₁.flows.length < h₁.options.maxConcurrent := by
      simp only [full, Bool.or_eq_false_iff, decide_eq_false_iff_not, not_le] at hroom
      exact hroom.1
    show (h₁.flows ++ [h₁.flowCount]).length ≤ h₁.options.maxConcurrent
    rw [List.length_append, List.length_singleton]
    exact hlt
  | deregistered f => exact (List.length_filter_le _ _).trans hb
  | activated | attached | flowClosed | pruned | adopted | revoked | leaseRevoked | closed =>
    exact hb

end Outbound

namespace World

variable {w w' : World} {e : Event} {o : Output}

theorem bounded_of_reaches (h : machine.Reaches w w') (hb : w.outbound.Bounded) :
    w'.outbound.Bounded :=
  h.invariant (P := fun w => w.outbound.Bounded) (fun _ _ _ _ _ hs ha => (step_section hs).bounded ha)
    hb

theorem options_of_reaches (h : machine.Reaches w w') :
    w'.outbound.options = w.outbound.options := by
  refine h.rel (R := fun a b => b.outbound.options = a.outbound.options) (fun _ => rfl)
    (fun a b c hab hbc => ?_) fun _ _ _ _ _ hs => (step_section hs).options
  exact hbc.trans hab

/-! ## Attempts -/

/-- The sample of a section that looks at the attempts. -/
def quotaClock : Event → Option Sample
  | .newConnection _ now | .reserve _ _ now | .query .availableForNewFlows now => some now
  | _ => none

/-- What an event takes from the quota, and when: an admitted flow, or a relay dial after a flow's
first. -/
def charge (w' : World) : Event → Output → Option Sample
  | .newConnection _ now, .admitted (some _) => some now
  | .reserve f _ now, _ =>
    match w'.pc f with
    | .dialing attempt _ _ => if 0 < attempt then some now else none
    | _ => none
  | _, _ => none

/-- The attempts that are not a minute old. -/
def recent (now : Sample) (attempts : List Sample) : List Sample :=
  attempts.dropWhile fun t => decide (Time.minute ≤ (Time.ofSample now).sub (Time.ofSample t))

/-- **What an event does to the attempts**: it leaves them, forgets the old ones, or adds one where
there is room. -/
inductive Spends (w w' : World) (e : Event) : Option Sample → Prop
  | kept (heq : w'.outbound.attempts = w.outbound.attempts) : Spends w w' e none
  | pruned (now : Sample) (hclock : quotaClock e = some now)
    (heq : w'.outbound.attempts = recent now w.outbound.attempts) : Spends w w' e none
  | spent (now : Sample) (hclock : quotaClock e = some now)
    (hroom : (recent now w.outbound.attempts).length < w.outbound.options.maxNew)
    (heq : w'.outbound.attempts = recent now w.outbound.attempts ++ [now]) :
    Spends w w' e (some now)

variable (h : Outbound)

theorem admitFlow_attempts (now : Sample) :
    (h.admitFlow now).2 = none ∧ (h.admitFlow now).1.attempts = recent now h.attempts ∨
      (h.admitFlow now).2.isSome ∧ (recent now h.attempts).length < h.options.maxNew ∧
        (h.admitFlow now).1.attempts = recent now h.attempts ++ [now] := by
  unfold Outbound.admitFlow
  dsimp only
  split_ifs with hno
  · exact .inl ⟨rfl, rfl⟩
  · simp only [Bool.or_eq_true, not_or, Outbound.full, decide_eq_true_eq, not_le] at hno
    exact .inr ⟨rfl, hno.2.2, rfl⟩

theorem reserveRelay_attempts (g : ℕ) (visited : List ℕ) (extra : Bool) (now : Sample) :
    (h.reserveRelay g visited extra now).2 = none ∧
        ((h.reserveRelay g visited extra now).1.attempts = h.attempts ∨
          (h.reserveRelay g visited extra now).1.attempts = recent now h.attempts) ∨
      (h.reserveRelay g visited extra now).2.isSome ∧
        (extra = false ∧ (h.reserveRelay g visited extra now).1.attempts = recent now h.attempts ∨
          extra = true ∧ (recent now h.attempts).length < h.options.maxNew ∧
            (h.reserveRelay g visited extra now).1.attempts = recent now h.attempts ++ [now]) := by
  unfold Outbound.reserveRelay
  dsimp only
  split
  · exact .inl ⟨rfl, .inl rfl⟩
  split
  · exact .inl ⟨rfl, .inr rfl⟩
  rename_i hroom
  split
  · exact .inl ⟨rfl, .inr rfl⟩
  · refine .inr ⟨rfl, ?_⟩
    cases extra with
    | false => exact .inl ⟨rfl, rfl⟩
    | true =>
      refine .inr ⟨rfl, ?_, rfl⟩
      simp only [Bool.true_and, decide_eq_true_eq, not_le] at hroom
      exact hroom

theorem availableForNewFlows_attempts (now : Sample) :
    (h.availableForNewFlows now).1.attempts = h.attempts ∨
      (h.availableForNewFlows now).1.attempts = recent now h.attempts := by
  unfold Outbound.availableForNewFlows
  dsimp only
  split_ifs
  · exact .inl rfl
  all_goals exact .inr rfl

theorem recordProbeFailure_attempts (g : ℕ) (stage : ProbeStage) (now : Sample) :
    (h.recordProbeFailure g stage now).attempts = h.attempts := by
  unfold Outbound.recordProbeFailure
  split_ifs
  · dsimp only
    split_ifs <;> rfl
  · rfl

/-- The queries other than `availableForNewFlows` do not look at the attempts. -/
theorem ask_attempts (now : Sample) {q : Query} (hq : q ≠ .availableForNewFlows) :
    (ask h now q).1.attempts = h.attempts := by
  cases q with
  | admitsNewFlows => rfl
  | acceptsRenewalEnrollment id i n a =>
    show (h.acceptsRenewalEnrollment id i n a now).1.attempts = h.attempts
    unfold Outbound.acceptsRenewalEnrollment
    split_ifs <;> rfl
  | readinessCurrent id =>
    show (h.readinessCurrent id now).1.attempts = h.attempts
    unfold Outbound.readinessCurrent
    split_ifs <;> rfl
  | availableForNewFlows => exact absurd rfl hq

theorem stepAdmit_spends (w : World) (port : ℕ) (now : Sample) :
    Spends w (w.stepAdmit port now).1 (.newConnection port now)
      (charge (w.stepAdmit port now).1 (.newConnection port now) (w.stepAdmit port now).2) := by
  unfold stepAdmit
  split_ifs
  · exact .kept rfl
  dsimp only
  rcases admitFlow_attempts w.outbound now with ⟨hnone, heq⟩ | ⟨hsome, hroom, heq⟩
  · rw [hnone]
    exact .pruned now rfl heq
  · obtain ⟨f, hf⟩ := Option.isSome_iff_exists.mp hsome
    rw [hf]
    exact .spent now rfl hroom heq

theorem stepReserve_spends (w : World) (policy : RelayConnectPolicy) (f attempt : ℕ)
    (visited : List ℕ) (cancelled : Bool) (now : Sample) :
    Spends w (w.stepReserve policy f attempt visited cancelled now) (.reserve f cancelled now)
      (charge (w.stepReserve policy f attempt visited cancelled now) (.reserve f cancelled now)
        .none) := by
  have hpc : ∀ (v : World) (pc : ConnPc), (v.goto f pc).pc f = pc := fun v pc => by
    simp [World.pc, World.goto]
  unfold stepReserve
  split_ifs
  · simp only [charge, hpc]
    exact .kept rfl
  dsimp only
  rcases reserveRelay_attempts w.outbound (w.gen f) visited (decide (0 < attempt)) now with
    ⟨hnone, heq⟩ | ⟨hsome, hcase⟩
  · rw [hnone]
    simp only [charge, hpc]
    rcases heq with heq | heq
    · exact .kept heq
    · exact .pruned now rfl heq
  · obtain ⟨r, hr⟩ := Option.isSome_iff_exists.mp hsome
    rw [hr]
    simp only [charge, hpc]
    rcases hcase with ⟨hfirst, heq⟩ | ⟨hextra, hroom, heq⟩
    · rw [if_neg (of_decide_eq_false hfirst)]
      exact .pruned now rfl heq
    · rw [if_pos (of_decide_eq_true hextra)]
      exact .spent now rfl hroom heq

/-- **Every event spends what it is charged.** -/
theorem step_spends (h : w.step e = some (w', o)) : Spends w w' e (charge w' e o) := by
  cases e with
  | newConnection port now =>
    obtain ⟨rfl, rfl⟩ := Prod.mk.inj (Option.some.inj h)
    exact w.stepAdmit_spends port now
  | reserve f cancelled now =>
    simp only [step] at h
    split at h
    · obtain ⟨rfl, rfl⟩ := Prod.mk.inj (Option.some.inj h)
      exact w.stepReserve_spends _ f _ _ cancelled now
    · cases h
  | query q now =>
    obtain ⟨rfl, rfl⟩ := Prod.mk.inj (Option.some.inj h)
    by_cases hq : q = .availableForNewFlows
    · subst hq
      rcases availableForNewFlows_attempts w.outbound now with heq | heq
      · exact .kept heq
      · exact .pruned now rfl heq
    · exact .kept (ask_attempts w.outbound now hq)
  | hello f result =>
    obtain ⟨_, rfl⟩ := Machine.guarded h
    exact .kept rfl
  | echFailure f now =>
    obtain ⟨_, rfl⟩ := Machine.guarded h
    exact .kept (recordProbeFailure_attempts ..)
  | secondCheck f now =>
    obtain ⟨_, rfl⟩ := Machine.guarded h
    exact .kept rfl
  | dial f result now =>
    simp only [step] at h
    split at h
    · obtain rfl := Machine.state_eq h
      exact .kept rfl
    · obtain rfl := Machine.state_eq h
      exact .kept rfl
    · cases h
  | setRemote f =>
    obtain ⟨_, rfl⟩ := Machine.guarded h
    refine .kept ?_
    show (w.outbound.setRemote f).1.attempts = w.outbound.attempts
    unfold Outbound.setRemote
    split_ifs <;> rfl
  | activate f now =>
    obtain ⟨_, rfl⟩ := Machine.guarded h
    refine .kept ?_
    show (w.outbound.activate f now).1.attempts = w.outbound.attempts
    unfold Outbound.activate
    dsimp only
    split_ifs <;> rfl
  | closeFlow f | deregister f | ioEnter f remote kind now =>
    obtain ⟨_, rfl⟩ := Machine.guarded h
    exact .kept rfl
  | canRenewLease id | revoke t | close =>
    obtain rfl := Machine.state_eq h
    exact .kept rfl
  | dnsFailed now =>
    obtain rfl := Machine.state_eq h
    exact .kept (recordProbeFailure_attempts ..)
  | renewLease expectedID grant clock retained =>
    obtain rfl := Machine.state_eq h
    refine .kept ?_
    have hr := w.outbound.renewLease_step expectedID grant clock
      (fun _ (u : Unit) => (u, retained)) ()
    show (w.outbound.renewLease expectedID grant clock _ ()).1.attempts = w.outbound.attempts
    generalize w.outbound.renewLease expectedID grant clock
      (fun _ (u : Unit) => (u, retained)) () = r at hr ⊢
    obtain ⟨h', st, outcome⟩ := r
    cases hr <;> rfl
  | revokeLease id t =>
    obtain rfl := Machine.state_eq h
    refine .kept ?_
    show (w.outbound.revokeLease id t).1.attempts = w.outbound.attempts
    unfold Outbound.revokeLease
    split <;> rfl
  | ioClose c | ioOwner c | ioFlow c | ioTransfer c result | ioAgain c now =>
    simp only [step] at h
    split at h
    · obtain rfl := Machine.state_eq h
      exact .kept rfl
    · cases h

end World

/-! ## The history of the quota -/

/-- An outbound with the samples at which its quota was spent, and the last monotonic reading of a
section that looked at the attempts. -/
structure Metered where
  world : World
  spent : List Sample
  last : ℤ

namespace Metered

open World (quotaClock charge recent Spends)

/-- One event, with what it is charged. -/
def step (m : Metered) (e : Event) : Option (Metered × Output) :=
  (m.world.step e).map fun r =>
    (⟨r.1, m.spent ++ (charge r.1 e r.2).toList, (quotaClock e).elim m.last Sample.mono⟩, r.2)

/-- The machine of a metered outbound. -/
def machine : Machine Metered Event Output where
  step := step

/-- A fresh outbound. -/
def init (h : Outbound) (latest : ℤ) : Metered := ⟨World.init h latest, [], latest⟩

/-- The clock of the sections that look at the attempts does not go back. -/
def Ordered (m : Metered) (e : Event) : Prop := ∀ now, quotaClock e = some now → m.last ≤ now.mono

/-- **The invariant of the quota**: the attempts are all that is not a minute old, and no window of
a minute has too many. -/
structure Within (options : OutboundOptions) (m : Metered) : Prop where
  same : m.world.outbound.options = options
  covers : Covers Sample.mono Time.minute m.last m.spent m.world.outbound.attempts
  limited : Limited Sample.mono options.maxNew Time.minute m.spent

theorem within_init (options : OutboundOptions) (lease : LeaseAuthorization) (latest : ℤ) :
    Within options (init (newOutbound options lease) latest) :=
  ⟨rfl, SlidingWindow.covers_nil _ _ _, SlidingWindow.limited_nil _ _ _⟩

/-- Two samples a minute apart. -/
theorem minute_le_sub {now t : Sample}
    (h : Time.minute ≤ (Time.ofSample now).sub (Time.ofSample t)) :
    t.mono + Time.minute ≤ now.mono := by
  simp only [Time.sub, Time.ofSample_mono, Time.minDuration, Time.maxDuration, Time.minute,
    Time.second] at h ⊢
  omega

variable {options : OutboundOptions}

theorem Within.spends {m : Metered} (h : Within options m) {w' : World} {e : Event}
    {c : Option Sample} (hs : Spends m.world w' e c) (ho : Ordered m e)
    (hopt : w'.outbound.options = m.world.outbound.options) :
    Within options ⟨w', m.spent ++ c.toList, (quotaClock e).elim m.last Sample.mono⟩ := by
  have hpruned : ∀ now, quotaClock e = some now →
      Covers Sample.mono Time.minute now.mono m.spent (recent now m.world.outbound.attempts) :=
    fun now hclock => (h.covers.later (ho now hclock)).prune fun _ _ ht =>
      minute_le_sub (of_decide_eq_true ht)
  cases hs with
  | kept heq =>
    refine ⟨hopt.trans h.same, ?_, by simpa using h.limited⟩
    rw [heq, Option.toList_none, List.append_nil]
    cases hclock : quotaClock e with
    | none => exact h.covers
    | some now => exact h.covers.later (ho now hclock)
  | pruned now hclock heq =>
    refine ⟨hopt.trans h.same, ?_, by simpa using h.limited⟩
    rw [heq, hclock, Option.toList_none, List.append_nil]
    exact hpruned now hclock
  | spent now hclock hroom heq =>
    rw [h.same] at hroom
    refine ⟨hopt.trans h.same, ?_, h.limited.push (hpruned now hclock) hroom⟩
    rw [heq, hclock]
    exact (hpruned now hclock).push now

theorem within_of_reaches {m m' : Metered} (h : machine.ReachesIf Ordered m m')
    (hm : Within options m) : Within options m' := by
  refine h.invariant (P := Within options) (fun a e b o ho hs ha => ?_) hm
  obtain ⟨⟨w', o'⟩, hw, heq⟩ := Option.map_eq_some_iff.mp hs
  obtain ⟨rfl, _⟩ := Prod.mk.inj heq
  exact ha.spends (World.step_spends hw) ho (World.step_section hw).options

/-- **The quotas hold globally.**  In every run an outbound has at most `maxConcurrent` flows.  In
every run in which the sections that look at the attempts read a clock that does not go back, every
half-open window of a minute has at most `maxNew` admitted flows and extra relay dials together. -/
theorem quotas_hold (options : OutboundOptions) (lease : LeaseAuthorization) (latest : ℤ) :
    (∀ w, World.machine.Reaches (World.init (newOutbound options lease) latest) w →
      w.outbound.flows.length ≤ options.maxConcurrent) ∧
    ∀ m, machine.ReachesIf Ordered (init (newOutbound options lease) latest) m → ∀ a : ℤ,
      (m.spent.countP fun t => decide (a ≤ t.mono ∧ t.mono < a + Time.minute)) ≤ options.maxNew ∧
      (m.spent.countP fun t => decide (a < t.mono ∧ t.mono ≤ a + Time.minute)) ≤ options.maxNew := by
  refine ⟨fun w h => ?_, fun m h a => ?_⟩
  · have hb := World.bounded_of_reaches h (Nat.zero_le _)
    rwa [Outbound.Bounded, World.options_of_reaches h] at hb
  · have hlimited := (within_of_reaches h (within_init options lease latest)).limited
    exact ⟨hlimited a, hlimited.left_open a⟩

theorem quotas_hold_sample : ∃ m, machine.ReachesIf Ordered (init sampleOutbound 0) m ∧
    m.spent = [sampleClock] ∧ m.world.outbound.flows.length ≤ 2 ∧
    (m.spent.countP fun t => decide (sampleClock.mono ≤ t.mono ∧
      t.mono < sampleClock.mono + Time.minute)) ≤ 2 := by
  have hrun : ((init sampleOutbound 0).step (.newConnection 443 sampleClock)).map
      (fun r => r.1.spent) = some [sampleClock] := by decide +kernel
  obtain ⟨⟨m, o⟩, hm, hspent⟩ := Option.map_eq_some_iff.mp hrun
  have hreach : machine.ReachesIf Ordered (init sampleOutbound 0) m :=
    .single (e := .newConnection 443 sampleClock) (fun now hnow => Option.some.inj hnow ▸ by decide)
      hm
  obtain ⟨⟨w, o'⟩, hw, heq⟩ := Option.map_eq_some_iff.mp hm
  obtain ⟨rfl, _⟩ := Prod.mk.inj heq
  have hworld : World.machine.Reaches (World.init sampleOutbound 0) w :=
    .single (e := .newConnection 443 sampleClock) trivial hw
  have hq := quotas_hold sampleOptions sampleLease 0
  exact ⟨_, hreach, hspent, hq.1 w hworld, (hq.2 _ hreach _).1⟩

end Metered

end PokrovCore.SmartAccess
