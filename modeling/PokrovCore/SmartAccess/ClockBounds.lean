import PokrovCore.SmartAccess.DataCalls

/-!
# SmartAccess/ClockBounds — no clock stretches a lease

Nothing is assumed of the clock: every section takes whatever samples it takes.  A flow is activated
on a sample inside the admission window of its generation; a check on a sample outside the window
shuts the generation for good; a data call entered past the active window never reaches the
transport; and a renewal leaves the generations there are exactly as they are.
-/

namespace PokrovCore.SmartAccess

namespace Outbound

variable {h h' : Outbound} {now : Sample} {g : ℕ}

/-- An admission check that passes took its sample inside the window. -/
theorem outside_of_admits (ha : (h.latch g now).admits g = true) :
    (h.gens g).outsideAdmission now = false := by
  rw [Bool.eq_false_iff]
  intro hout
  simp [admits, latch, modifyGen, LeaseAuthorization.open?_expire_of_outside hout] at ha

/-- An admission check outside the window latches. -/
theorem expired_of_latch (hout : (h.gens g).outsideAdmission now = true) :
    ((h.latch g now).gens g).admissionExpired = true := by
  simp [latch, modifyGen, LeaseAuthorization.expire, hout]

/-- A generation past its admission latch admits nothing, on any sample. -/
theorem admitsLeaseLocked_of_expired (hx : (h.gens g).admissionExpired = true) (now : Sample) :
    (h.admitsLeaseLocked g now).2 = false := by
  have hx' := ((h.quiet_latch g now).gens g).admissionExpired hx
  simp [admitsLeaseLocked, admits, LeaseAuthorization.open?, hx']

/-- **A renewal changes no generation that is there.** -/
theorem RenewStep.gens {σ : Type*} {expectedID : String} {grant : Grant} {clock : RenewClock}
    {retainExpiry : Date → σ → σ × Bool} {st st' : σ} {o : RenewOutcome}
    (hs : RenewStep h expectedID grant clock retainExpiry st h' st' o) (hg : g < h.genCount) :
    h'.gens g = h.gens g := by
  cases hs with
  | adopted next => simp [adopt, prune, hg.ne]
  | absent | refused | retried | full | unretained | late => rfl

theorem admitFlow_expired (hout : h.current.outsideAdmission now = true) :
    ((h.admitFlow now).1.gens h.lease).admissionExpired = true := by
  have hx := expired_of_latch (h := h.pruneAttempts now) hout
  unfold admitFlow
  dsimp only
  split_ifs <;> exact hx

theorem activate_expired {f : ℕ}
    (hout : (h.gens (h.flowOf f).authorization).outsideAdmission now = true) :
    ((h.activate f now).1.gens (h.flowOf f).authorization).admissionExpired = true := by
  have hx := expired_of_latch hout
  unfold activate
  dsimp only
  split_ifs <;> exact hx

theorem recordProbeFailure_expired {stage : ProbeStage}
    (hout : h.current.outsideAdmission now = true) :
    ((h.recordProbeFailure h.lease stage now).gens h.lease).admissionExpired = true := by
  have hx := expired_of_latch hout
  unfold recordProbeFailure
  rw [if_pos rfl]
  dsimp only
  split_ifs
  · exact ((quiet_modifyGen _ _ fun a => a.ages_failProbe stage).gens _).admissionExpired hx
  · exact hx

theorem reserveRelay_expired {visited : List ℕ} {extra : Bool}
    (hout : (h.gens g).outsideAdmission now = true) :
    ((h.reserveRelay g visited extra now).1.gens g).admissionExpired = true := by
  have hx := expired_of_latch hout
  unfold reserveRelay
  dsimp only
  split
  · exact hx
  split
  · exact hx
  split <;> exact hx

theorem availableForNewFlows_expired (hout : h.current.outsideAdmission now = true) :
    ((h.availableForNewFlows now).1.gens h.lease).admissionExpired = true := by
  have hx := expired_of_latch hout
  unfold availableForNewFlows
  dsimp only
  split_ifs <;> exact hx

end Outbound

namespace World

open Outbound

variable {w w' : World}

/-! ## Admission -/

/-- The generation an event checks admission of, and the sample it does so on. -/
def checks (w : World) : Event → Option (ℕ × Sample)
  | .newConnection port now => if port = 443 then some (w.outbound.lease, now) else none
  | .echFailure f now =>
    if w.pc f = .echFailed ∧ w.outbound.lease = w.gen f then some (w.gen f, now) else none
  | .secondCheck f now => some (w.gen f, now)
  | .reserve f cancelled now =>
    match w.outbound.options.relayPolicy, w.pc f with
    | some policy, .connectRelay attempt _ =>
      if policy.maxAttempts ≤ attempt || cancelled then none else some (w.gen f, now)
    | _, _ => none
  | .activate f now => some (w.gen f, now)
  | .query .admitsNewFlows now => some (w.outbound.lease, now)
  | .query (.acceptsRenewalEnrollment id issuedAt newFlowsUntil activeFlowsUntil) now =>
    if w.outbound.current.id = id ∧ w.outbound.current.issued.format = issuedAt ∧
        w.outbound.current.newUntil.format = newFlowsUntil ∧
        w.outbound.current.activeUntil.format = activeFlowsUntil then
      some (w.outbound.lease, now) else none
  | .query (.readinessCurrent id) now =>
    if w.outbound.current.id = id then some (w.outbound.lease, now) else none
  | .query .availableForNewFlows now => some (w.outbound.lease, now)
  | .dnsFailed now => some (w.outbound.lease, now)
  | _ => none

variable {e : Event}

theorem checks_lt (hwf : w.outbound.WellFormed) {g : ℕ} {now : Sample}
    (hc : w.checks e = some (g, now)) : g < w.outbound.genCount := by
  cases e with
  | newConnection port t =>
    obtain ⟨_, rfl⟩ := Machine.guarded hc
    exact hwf.lease_lt
  | echFailure f t =>
    obtain ⟨_, rfl⟩ := Machine.guarded hc
    exact hwf.authorization_lt f
  | secondCheck f t | activate f t =>
    obtain rfl := Machine.state_eq hc
    exact hwf.authorization_lt f
  | reserve f cancelled t =>
    simp only [checks] at hc
    split at hc
    · obtain ⟨_, hc⟩ := Option.ite_none_left_eq_some.mp hc
      obtain rfl := Machine.state_eq hc
      exact hwf.authorization_lt f
    · cases hc
  | query q t =>
    cases q with
    | admitsNewFlows | availableForNewFlows =>
      obtain rfl := Machine.state_eq hc
      exact hwf.lease_lt
    | acceptsRenewalEnrollment | readinessCurrent =>
      obtain ⟨_, rfl⟩ := Machine.guarded hc
      exact hwf.lease_lt
  | dnsFailed t =>
    obtain rfl := Machine.state_eq hc
    exact hwf.lease_lt
  | _ => cases hc

variable {o : Output}

/-- **A check outside the window latches**, whichever event makes it. -/
theorem expired_of_checks {g : ℕ} {now : Sample} (hs : w.step e = some (w', o))
    (hc : w.checks e = some (g, now)) (hout : (w.outbound.gens g).outsideAdmission now = true) :
    (w'.outbound.gens g).admissionExpired = true := by
  cases e with
  | newConnection port t =>
    obtain ⟨hport, hc⟩ := Option.ite_none_right_eq_some.mp hc
    obtain ⟨rfl, rfl⟩ := Prod.mk.inj (Option.some.inj hc)
    have hw' : w' = (w.stepAdmit port t).1 := congrArg Prod.fst (Option.some.inj hs).symm
    rw [hw', stepAdmit_outbound, if_pos hport]
    exact admitFlow_expired hout
  | echFailure f t =>
    obtain ⟨⟨hpc, hcur⟩, hc⟩ := Option.ite_none_right_eq_some.mp hc
    obtain ⟨rfl, rfl⟩ := Prod.mk.inj (Option.some.inj hc)
    obtain ⟨_, rfl⟩ := Machine.guarded hs
    rw [← hcur] at hout ⊢
    exact recordProbeFailure_expired hout
  | secondCheck f t =>
    obtain ⟨rfl, rfl⟩ := Prod.mk.inj (Option.some.inj hc)
    obtain ⟨_, rfl⟩ := Machine.guarded hs
    exact expired_of_latch hout
  | reserve f cancelled t =>
    simp only [checks] at hc
    simp only [step] at hs
    split at hc
    · split_ifs at hc with hstop
      obtain ⟨rfl, rfl⟩ := Prod.mk.inj (Option.some.inj hc)
      rename_i policy attempt visited hpolicy hpc
      simp only [hpolicy, hpc] at hs
      obtain rfl := Machine.state_eq hs
      unfold stepReserve
      rw [if_neg hstop]
      exact reserveRelay_expired hout
    · cases hc
  | activate f t =>
    obtain ⟨rfl, rfl⟩ := Prod.mk.inj (Option.some.inj hc)
    obtain ⟨_, rfl⟩ := Machine.guarded hs
    exact activate_expired hout
  | query q t =>
    obtain rfl := Machine.state_eq hs
    cases q with
    | admitsNewFlows =>
      obtain ⟨rfl, rfl⟩ := Prod.mk.inj (Option.some.inj hc)
      exact expired_of_latch hout
    | acceptsRenewalEnrollment id i n a =>
      obtain ⟨hsame, hc⟩ := Option.ite_none_right_eq_some.mp hc
      obtain ⟨rfl, rfl⟩ := Prod.mk.inj (Option.some.inj hc)
      simp only [putAt, ask, acceptsRenewalEnrollment, if_pos hsame]
      exact expired_of_latch hout
    | readinessCurrent id =>
      obtain ⟨hsame, hc⟩ := Option.ite_none_right_eq_some.mp hc
      obtain ⟨rfl, rfl⟩ := Prod.mk.inj (Option.some.inj hc)
      simp only [putAt, ask, readinessCurrent, if_pos hsame]
      exact expired_of_latch hout
    | availableForNewFlows =>
      obtain ⟨rfl, rfl⟩ := Prod.mk.inj (Option.some.inj hc)
      exact availableForNewFlows_expired hout
  | dnsFailed t =>
    obtain ⟨rfl, rfl⟩ := Prod.mk.inj (Option.some.inj hc)
    obtain rfl := Machine.state_eq hs
    exact recordProbeFailure_expired hout
  | _ => cases hc

/-- Only the final admission check of a flow makes it active. -/
theorem activate_of_active {f : ℕ} (hs : w.step e = some (w', o))
    (hold : (w.outbound.flowOf f).active = false) (hnew : (w'.outbound.flowOf f).active = true) :
    ∃ now, e = .activate f now ∧ (w.outbound.gens (w.gen f)).outsideAdmission now = false := by
  obtain ⟨now, hmark, hadm⟩ := ((step_section hs).active hnew).resolve_left (by simp [hold])
  refine ⟨now, ?_, outside_of_admits hadm⟩
  cases e with
  | activate k t =>
    obtain ⟨rfl, rfl⟩ := Mark.activates.inj hmark
    rfl
  | _ => cases hmark

/-! ## Data calls -/

/-- A call entered outside the active window of its flow's generation stays out. -/
def EntryFenced (w : World) : Prop :=
  ∀ c < w.callCount, (w.calls c).flow < w.outbound.flowCount ∧
    ((w.outbound.gens (w.gen (w.calls c).flow)).outsideActive (w.calls c).entry = true →
      (w.calls c).pc = .expired none ∨ (w.calls c).pc = .returned errLease)

theorem CallMove.entryFenced {call : IoCall} {pc : IoPc} (hm : CallMove w call pc)
    (h : call.pc = .expired none ∨ call.pc = .returned errLease) :
    pc = .expired none ∨ pc = .returned errLease := by
  cases hm with
  | closed | terminated | flowClosed => exact .inr rfl
  | owned held hpc | finished result hpc | again result now hpc => simp [hpc] at h
  | passed hpc => simp [hpc] at h
  | transferred result pc hpc => simp [hpc] at h

theorem step_entryFenced (hs : w.step e = some (w', o)) (hwf : w.outbound.WellFormed)
    (hf : EntryFenced w) : EntryFenced w' := by
  have hages := (step_section hs).ages
  -- The generation of an allocated flow and its active window do not move.
  have hwindow : ∀ f < w.outbound.flowCount, ∀ now,
      (w'.outbound.gens (w'.gen f)).outsideActive now =
        (w.outbound.gens (w.gen f)).outsideActive now := fun f hlt now => by
    rw [gen, hages.authorization f hlt]
    exact (hages.gens _ (hwf.authorization_lt f)).outsideActive now
  cases step_calls hs with
  | same hcalls hcount =>
    intro c hc
    obtain ⟨hlt, hfence⟩ := hf c (hcount ▸ hc)
    rw [hcalls, hwindow _ hlt]
    exact ⟨hlt.trans_le hages.flowCount, hfence⟩
  | entered f remote kind now hlt hout hcalls hcount =>
    intro c hc
    rw [hcount] at hc
    rcases eq_or_ne c w.callCount with rfl | hne
    · rw [hcalls, Function.update_self, hwindow _ hlt]
      refine ⟨hlt.trans_le hages.flowCount, fun hpast => .inl ?_⟩
      simp only [clockPc, hpast, if_true]
    · obtain ⟨hlt', hfence⟩ := hf c (lt_of_le_of_ne (Nat.lt_succ_iff.mp hc) hne)
      rw [hcalls, Function.update_of_ne hne, hwindow _ hlt']
      exact ⟨hlt'.trans_le hages.flowCount, hfence⟩
  | moved k pc hmove hcalls hcount =>
    intro c hc
    obtain ⟨hlt, hfence⟩ := hf c (hcount ▸ hc)
    rcases eq_or_ne c k with rfl | hne
    · rw [hcalls, Function.update_self]
      dsimp only
      rw [hwindow _ hlt]
      exact ⟨hlt.trans_le hages.flowCount, fun hpast => hmove.entryFenced (hfence hpast)⟩
    · rw [hcalls, Function.update_of_ne hne, hwindow _ hlt]
      exact ⟨hlt.trans_le hages.flowCount, hfence⟩

/-- **Every run fences the calls entered outside the active window.** -/
theorem entryFenced_of_reaches (hr : machine.Reaches w w') (hwf : w.outbound.WellFormed)
    (hf : EntryFenced w) : EntryFenced w' :=
  (hr.invariant (P := fun v => v.outbound.WellFormed ∧ EntryFenced v)
    (fun _ _ _ _ _ hs ⟨hv, hf⟩ => ⟨(step_section hs).wellFormed hv, step_entryFenced hs hv hf⟩)
    ⟨hwf, hf⟩).2

theorem entryFenced_init (h : Outbound) (latest : ℤ) : EntryFenced (init h latest) :=
  fun c hc => absurd hc (Nat.not_lt_zero c)

/-! ## The bounds -/

/-- **A lease is not stretched by the clock.**  In every state of every run, whatever the samples:
a flow is made active on a sample inside the admission window of its generation; after an admission
check on a sample outside it, that generation passes no admission check any more; a data call entered
past the active deadline of its flow's generation does not transfer; and a renewal changes no
generation there is, an exact retry nothing at all. -/
theorem lease_not_stretched (options : OutboundOptions) (lease : LeaseAuthorization) (latest : ℤ)
    {w : World} (hw : machine.Reaches (init (newOutbound options lease) latest) w) :
    (∀ e w' o f, w.step e = some (w', o) → (w.outbound.flowOf f).active = false →
      (w'.outbound.flowOf f).active = true → ∃ now, e = .activate f now ∧
        (w.outbound.gens (w.gen f)).issued.toTime.wall ≤ now.wall ∧
        now.wall < (w.outbound.gens (w.gen f)).newUntil.toTime.wall ∧
        now.mono < (w.outbound.gens (w.gen f)).newDeadline.mono) ∧
    (∀ e w' o g now, w.step e = some (w', o) → w.checks e = some (g, now) →
      (now.wall < (w.outbound.gens g).issued.toTime.wall ∨
        (w.outbound.gens g).newUntil.toTime.wall ≤ now.wall ∨
        (w.outbound.gens g).newDeadline.mono ≤ now.mono) →
      ∀ w₂, machine.Reaches w' w₂ → ∀ later, (w₂.outbound.admitsLeaseLocked g later).2 = false) ∧
    (∀ c < w.callCount,
      (w.outbound.gens (w.gen (w.calls c).flow)).activeDeadline.mono ≤ (w.calls c).entry.mono →
      ∀ result, w.step (.ioTransfer c result) = none) ∧
    (∀ expectedID grant clock retained w' o,
      w.step (.renewLease expectedID grant clock retained) = some (w', o) →
      (∀ g < w.outbound.genCount, w'.outbound.gens g = w.outbound.gens g) ∧
      ∀ next, newLeaseAuthorization grant.nextID grant.issuedAt grant.newFlowsUntil
          grant.activeFlowsUntil clock.fresh = some next →
        sameGrant w.outbound.current next = true → w'.outbound = w.outbound) := by
  have hwf := wellFormed_of_reaches hw (wellFormed_newOutbound options lease)
  refine ⟨?_, ?_, ?_, ?_⟩
  · intro e w' o f hs hold hnew
    obtain ⟨now, he, hin⟩ := activate_of_active hs hold hnew
    exact ⟨now, he, LeaseAuthorization.outsideAdmission_eq_false.mp hin⟩
  · intro e w' o g now hs hc hout w₂ hr later
    have hout' : (w.outbound.gens g).outsideAdmission now = true := by
      rw [← Bool.not_eq_false, LeaseAuthorization.outsideAdmission_eq_false]
      omega
    have hlt : g < w'.outbound.genCount :=
      (checks_lt hwf hc).trans_le (step_section hs).ages.genCount
    exact admitsLeaseLocked_of_expired (((ages_of_reaches hr).gens g hlt).admissionExpired
      (expired_of_checks hs hc hout')) later
  · intro c hc hpast result
    have hout : (w.outbound.gens (w.gen (w.calls c).flow)).outsideActive (w.calls c).entry
        = true := by
      rw [← Bool.not_eq_false, LeaseAuthorization.outsideActive_eq_false]
      omega
    rcases (entryFenced_of_reaches hw (wellFormed_newOutbound options lease)
      (entryFenced_init _ latest) c hc).2 hout with hpc | hpc <;> simp only [step, hpc]
  · intro expectedID grant clock retained w' o hs
    obtain rfl := Machine.state_eq hs
    refine ⟨fun g hg => (w.outbound.renewLease_step expectedID grant clock _ ()).gens hg, ?_⟩
    exact fun next hbuilt hsame => (renewLease_retry hbuilt hsame _ ()).1

theorem lease_not_stretched_sample : ∃ w₁, sampleWorld.step
      (.query .admitsNewFlows ⟨sampleClock.wall, sampleClock.mono + Time.hour⟩) =
        some (w₁, .answer false) ∧
    ∀ w₂, machine.Reaches w₁ w₂ → ∀ later, (w₂.outbound.admitsLeaseLocked 0 later).2 = false := by
  let late : Sample := ⟨sampleClock.wall, sampleClock.mono + Time.hour⟩
  have hpast : (sampleWorld.outbound.gens 0).newDeadline.mono ≤ late.mono := by decide +kernel
  have hlease : sampleWorld.outbound.lease = 0 := by decide +kernel
  have hanswer : (ask sampleWorld.outbound late .admitsNewFlows).2 = false := by decide +kernel
  refine ⟨sampleWorld.putAt (ask sampleWorld.outbound late .admitsNewFlows).1 late,
    by rw [← hanswer]; rfl, ?_⟩
  exact (lease_not_stretched sampleOptions sampleLease 0 reaches_sampleWorld).2.1
    (.query .admitsNewFlows late) _ _ 0 late rfl (by rw [checks, hlease]) (Or.inr (Or.inr hpast))

end World

end PokrovCore.SmartAccess
