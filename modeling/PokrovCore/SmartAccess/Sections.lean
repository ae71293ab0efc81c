import PokrovCore.SmartAccess.Connection

/-!
# SmartAccess/Sections — what a critical section can do to an outbound

`Section h h'` lists the effects: most sections are `Quiet` — they age generations and move
bookkeeping — and each of the others changes one thing.  Every event of the machine is a section
(`step_section`), so a property of all runs is proved over these cases and never over the events.

* `Ages` — what no section takes back: identities, dates, deadlines, latches, closed flows.
* `WellFormed` — addresses point into the heaps, and the table knows the current generation.
-/

namespace PokrovCore.SmartAccess

namespace Outbound

/-! ## Quiet sections -/

/-- **Only latches of generations and bookkeeping moved.** -/
structure Quiet (h h' : Outbound) : Prop where
  options : h'.options = h.options
  genCount : h'.genCount = h.genCount
  gens : ∀ g, (h.gens g).Ages (h'.gens g)
  lease : h'.lease = h.lease
  leases : h'.leases = h.leases
  flowOf : h'.flowOf = h.flowOf
  flowCount : h'.flowCount = h.flowCount
  flows : h'.flows = h.flows
  closed : h'.closed = h.closed
  revoked : h'.revoked = h.revoked
  terminateActive : h'.terminateActive = h.terminateActive

variable (h : Outbound)

theorem Quiet.refl : Quiet h h :=
  ⟨rfl, rfl, fun _ => .refl _, rfl, rfl, rfl, rfl, rfl, rfl, rfl, rfl⟩

theorem Quiet.trans {a b c : Outbound} (h : Quiet a b) (h' : Quiet b c) : Quiet a c :=
  ⟨h'.options.trans h.options, h'.genCount.trans h.genCount,
    fun g => (h.gens g).trans (h'.gens g), h'.lease.trans h.lease, h'.leases.trans h.leases,
    h'.flowOf.trans h.flowOf, h'.flowCount.trans h.flowCount, h'.flows.trans h.flows,
    h'.closed.trans h.closed, h'.revoked.trans h.revoked,
    h'.terminateActive.trans h.terminateActive⟩

theorem quiet_modifyGen (g : ℕ) {φ : LeaseAuthorization → LeaseAuthorization}
    (hφ : ∀ a : LeaseAuthorization, a.Ages (φ a)) : Quiet h (h.modifyGen g φ) := by
  refine ⟨rfl, rfl, fun k => ?_, rfl, rfl, rfl, rfl, rfl, rfl, rfl, rfl⟩
  rcases eq_or_ne k g with rfl | hk
  · simpa [modifyGen] using hφ (h.gens k)
  · simpa [modifyGen, hk] using LeaseAuthorization.Ages.refl (h.gens k)

theorem quiet_latch (g : ℕ) (now : Sample) : Quiet h (h.latch g now) :=
  h.quiet_modifyGen g fun a => a.ages_expire now

theorem quiet_pruneAttempts (now : Sample) : Quiet h (h.pruneAttempts now) :=
  ⟨rfl, rfl, fun _ => .refl _, rfl, rfl, rfl, rfl, rfl, rfl, rfl, rfl⟩

theorem quiet_recordProbeFailure (g : ℕ) (stage : ProbeStage) (now : Sample) :
    Quiet h (h.recordProbeFailure g stage now) := by
  unfold recordProbeFailure
  split_ifs
  · dsimp only
    split_ifs
    · exact (h.quiet_latch g now).trans (quiet_modifyGen _ g fun a => a.ages_failProbe stage)
    · exact h.quiet_latch g now
  · exact .refl h

theorem quiet_acceptsRenewalEnrollment (id i n a : String) (now : Sample) :
    Quiet h (h.acceptsRenewalEnrollment id i n a now).1 := by
  unfold acceptsRenewalEnrollment
  split_ifs
  · exact h.quiet_latch h.lease now
  · exact .refl h

theorem quiet_readinessCurrent (id : String) (now : Sample) :
    Quiet h (h.readinessCurrent id now).1 := by
  unfold readinessCurrent
  split_ifs
  · exact h.quiet_latch h.lease now
  · exact .refl h

theorem quiet_availableForNewFlows (now : Sample) :
    Quiet h (h.availableForNewFlows now).1 := by
  have hlatch := h.quiet_latch h.lease now
  have hprune := hlatch.trans (quiet_pruneAttempts _ now)
  unfold availableForNewFlows
  dsimp only
  split_ifs
  · exact hlatch
  · exact hprune
  · exact hprune
  · exact hprune

theorem quiet_reserveRelay (g : ℕ) (visited : List ℕ) (extra : Bool) (now : Sample) :
    Quiet h (h.reserveRelay g visited extra now).1 := by
  have hlatch := h.quiet_latch g now
  have hprune := hlatch.trans (quiet_pruneAttempts _ now)
  unfold reserveRelay
  dsimp only
  split
  · exact hlatch
  split
  · exact hprune
  split
  · exact hprune
  · exact hprune.trans ⟨rfl, rfl, fun _ => .refl _, rfl, rfl, rfl, rfl, rfl, rfl, rfl, rfl⟩

theorem quiet_completeRelay (policy : RelayConnectPolicy) (r : Reservation)
    (success cancelled : Bool) (now : Sample) :
    Quiet h (h.completeRelay policy r success cancelled now).1 :=
  ⟨rfl, rfl, fun _ => .refl _, rfl, rfl, rfl, rfl, rfl, rfl, rfl, rfl⟩

theorem quiet_ask (now : Sample) (q : Query) : Quiet h (World.ask h now q).1 := by
  cases q with
  | admitsNewFlows => exact h.quiet_latch h.lease now
  | acceptsRenewalEnrollment id i n a => exact h.quiet_acceptsRenewalEnrollment id i n a now
  | readinessCurrent id => exact h.quiet_readinessCurrent id now
  | availableForNewFlows => exact h.quiet_availableForNewFlows now

/-! ## Sections -/

/-- What a section is there for, as far as its effects depend on it: activating a flow on a sample,
renewing the expected lease on the samples of the call, or neither. -/
inductive Mark
  | activates (f : ℕ) (now : Sample)
  | renews (expectedID : String) (clock : RenewClock)
  | plain

/-- **The effects of one critical section.**  Only a marked section activates or renews. -/
inductive Section (mark : Mark) (h : Outbound) : Outbound → Prop
  | quiet {h' : Outbound} (hq : Quiet h h') : Section mark h h'
  | admitted {h₁ : Outbound} (hq : Quiet h h₁) (now : Sample) (hadm : h₁.admits h₁.lease = true)
    (hroom : h₁.full = false) : Section mark h (h₁.register now)
  | activated (f : ℕ) (now : Sample) (hmark : mark = .activates f now)
    (hadm : (h.latch (h.flowOf f).authorization now).admits (h.flowOf f).authorization = true) :
    Section mark h ((h.latch (h.flowOf f).authorization now).modifyFlow f
      fun flow => { flow with active := true })
  | attached (f : ℕ) : Section mark h (h.modifyFlow f fun flow => { flow with remote := true })
  | flowClosed (f : ℕ) : Section mark h (h.closeFlow f)
  | deregistered (f : ℕ) (hclosed : (h.flowOf f).closed = true) : Section mark h (h.deregister f)
  | pruned (expectedID : String) (clock : RenewClock) (hmark : mark = .renews expectedID clock)
    (hcur : h.current.id = expectedID) : Section mark h (h.prune expectedID clock.prune)
  | adopted (expectedID : String) (grant : Grant) (clock : RenewClock) (next : LeaseAuthorization)
    (hmark : mark = .renews expectedID clock)
    (hc : Candidate h expectedID grant clock next)
    (hroom : (h.prune expectedID clock.prune).leases.size < 256)
    (hin : next.outsideAdmission clock.adopt = false) :
    Section mark h ((h.prune expectedID clock.prune).adopt next)
  | revoked (t : Bool) : Section mark h (h.revoke t).1
  | leaseRevoked (id : String) (g : ℕ) (t : Bool) (hg : h.leases.get? id = some g) :
    Section mark h (h.modifyGen g (LeaseAuthorization.restrict · t))
  | closed : Section mark h h.close.1

variable {mark : Mark}

theorem Section.refl : Section mark h h := .quiet (.refl h)

theorem section_admitFlow (now : Sample) : Section mark h (h.admitFlow now).1 := by
  have hq : Quiet h ((h.pruneAttempts now).latch h.lease now) :=
    (h.quiet_pruneAttempts now).trans (quiet_latch _ _ now)
  unfold admitFlow
  dsimp only
  split_ifs with hno
  · exact .quiet hq
  · simp only [Bool.or_eq_true, Bool.not_eq_true', not_or, Bool.not_eq_true,
      Bool.not_eq_false] at hno
    exact .admitted hq now hno.1 hno.2

theorem section_activate (f : ℕ) (now : Sample) :
    Section (.activates f now) h (h.activate f now).1 := by
  unfold activate
  dsimp only
  split_ifs with hadm
  · exact .activated f now rfl hadm
  · exact .quiet (h.quiet_latch _ now)

theorem section_setRemote (f : ℕ) : Section mark h (h.setRemote f).1 := by
  unfold setRemote
  split_ifs
  · exact .refl h
  · exact .attached f

theorem section_revokeLease (id : String) (t : Bool) :
    Section mark h (h.revokeLease id t).1 := by
  unfold revokeLease
  split
  · exact .refl h
  · rename_i g hg
    exact .leaseRevoked id g t hg

/-- A renewal is a section, whatever its callback does. -/
theorem RenewStep.section {σ : Type*} {h h' : Outbound} {expectedID : String} {grant : Grant}
    {clock : RenewClock} {retainExpiry : Date → σ → σ × Bool} {st st' : σ} {o : RenewOutcome}
    (hs : RenewStep h expectedID grant clock retainExpiry st h' st' o) :
    Section (.renews expectedID clock) h h' := by
  cases hs with
  | absent | refused | retried => exact .refl h
  | full next hc => exact .pruned expectedID clock rfl hc.current
  | unretained next hc => exact .pruned expectedID clock rfl hc.current
  | late next hc => exact .pruned expectedID clock rfl hc.current
  | adopted next hc _ hroom _ hin => exact .adopted expectedID grant clock next rfl hc hroom hin

/-- A section makes a flow active only where its generation admits, on the sample of the section. -/
theorem Section.active {h h' : Outbound} (hs : Section mark h h') {f : ℕ}
    (hnew : (h'.flowOf f).active = true) :
    (h.flowOf f).active = true ∨ ∃ now, mark = .activates f now ∧
      (h.latch (h.flowOf f).authorization now).admits (h.flowOf f).authorization = true := by
  cases hs with
  | quiet hq => exact .inl (by rwa [hq.flowOf] at hnew)
  | admitted hq now =>
    rename_i h₁ _ _
    rcases eq_or_ne f h₁.flowCount with rfl | hf
    · simp [register] at hnew
    · exact .inl (by simpa [register, hf, hq.flowOf] using hnew)
  | activated k now hmark hadm =>
    rcases eq_or_ne f k with rfl | hf
    · exact .inr ⟨now, hmark, hadm⟩
    · refine .inl ?_
      simpa [modifyFlow, hf, (h.quiet_latch (h.flowOf k).authorization now).flowOf] using hnew
  | attached k =>
    rcases eq_or_ne f k with rfl | hf
    · exact .inl (by simpa [modifyFlow] using hnew)
    · exact .inl (by simpa [modifyFlow, hf] using hnew)
  | flowClosed k =>
    rcases eq_or_ne f k with rfl | hf
    · exact .inl (by simpa [closeFlow, modifyFlow] using hnew)
    · exact .inl (by simpa [closeFlow, modifyFlow, hf] using hnew)
  | deregistered | pruned | adopted | revoked | leaseRevoked | closed => exact .inl hnew

end Outbound

/-! ## Events are sections -/

namespace World

open Outbound

variable (w : World)

@[simp] theorem put_outbound (h : Outbound) : (w.put h).outbound = h := rfl
@[simp] theorem putAt_outbound (h : Outbound) (now : Sample) :
    (w.putAt h now).outbound = h := rfl
@[simp] theorem goto_outbound (f : ℕ) (pc : ConnPc) :
    (w.goto f pc).outbound = w.outbound := rfl
@[simp] theorem callGoto_outbound (c : ℕ) (pc : IoPc) :
    (w.callGoto c pc).outbound = w.outbound := rfl

theorem stepAdmit_outbound (port : ℕ) (now : Sample) :
    (w.stepAdmit port now).1.outbound =
      if port = 443 then (w.outbound.admitFlow now).1 else w.outbound := by
  unfold stepAdmit
  rw [ite_not]
  split_ifs
  · dsimp only
    split <;> rfl
  · rfl

variable {mark : Mark}

theorem stepAdmit_section (port : ℕ) (now : Sample) :
    Section mark w.outbound (w.stepAdmit port now).1.outbound := by
  rw [stepAdmit_outbound]
  split_ifs
  · exact w.outbound.section_admitFlow now
  · exact .refl _

theorem stepReserve_section (policy : RelayConnectPolicy) (f attempt : ℕ) (visited : List ℕ)
    (cancelled : Bool) (now : Sample) :
    Section mark w.outbound (w.stepReserve policy f attempt visited cancelled now).outbound := by
  unfold stepReserve
  split_ifs
  · exact .refl _
  · exact .quiet (w.outbound.quiet_reserveRelay _ _ _ now)

/-- What the section of an event is there for. -/
def markOf : Event → Mark
  | .activate f now => .activates f now
  | .renewLease expectedID _ clock _ => .renews expectedID clock
  | _ => .plain

/-- **Every event runs one section.** -/
theorem step_section {w w' : World} {e : Event} {o : Output} (h : w.step e = some (w', o)) :
    Section (markOf e) w.outbound w'.outbound := by
  cases e with
  | newConnection port now =>
    obtain rfl := Machine.state_eq h
    exact w.stepAdmit_section port now
  | hello f result =>
    obtain ⟨_, rfl⟩ := Machine.guarded h
    exact .refl _
  | echFailure f now =>
    obtain ⟨_, rfl⟩ := Machine.guarded h
    exact .quiet (w.outbound.quiet_recordProbeFailure _ _ now)
  | secondCheck f now =>
    obtain ⟨_, rfl⟩ := Machine.guarded h
    exact .quiet (w.outbound.quiet_latch _ now)
  | reserve f cancelled now =>
    simp only [step] at h
    split at h
    · obtain rfl := Machine.state_eq h
      exact w.stepReserve_section _ f _ _ cancelled now
    · cases h
  | dial f result now =>
    simp only [step] at h
    split at h
    · obtain rfl := Machine.state_eq h
      exact .quiet (w.outbound.quiet_completeRelay _ _ _ _ now)
    · obtain rfl := Machine.state_eq h
      exact .refl _
    · cases h
  | setRemote f =>
    obtain ⟨_, rfl⟩ := Machine.guarded h
    exact w.outbound.section_setRemote f
  | activate f now =>
    obtain ⟨_, rfl⟩ := Machine.guarded h
    exact w.outbound.section_activate f now
  | closeFlow f =>
    obtain ⟨_, rfl⟩ := Machine.guarded h
    exact .flowClosed f
  | deregister f =>
    obtain ⟨hf, rfl⟩ := Machine.guarded h
    exact .deregistered f hf.2
  | query q now =>
    obtain rfl := Machine.state_eq h
    exact .quiet (w.outbound.quiet_ask now q)
  | canRenewLease id =>
    obtain rfl := Machine.state_eq h
    exact .refl _
  | dnsFailed now =>
    obtain rfl := Machine.state_eq h
    exact .quiet (w.outbound.quiet_recordProbeFailure _ _ now)
  | renewLease expectedID grant clock retained =>
    obtain rfl := Machine.state_eq h
    exact (w.outbound.renewLease_step expectedID grant clock _ ()).section
  | revoke t =>
    obtain rfl := Machine.state_eq h
    exact .revoked t
  | revokeLease id t =>
    obtain rfl := Machine.state_eq h
    exact w.outbound.section_revokeLease id t
  | close =>
    obtain rfl := Machine.state_eq h
    exact .closed
  | ioEnter f remote kind now =>
    obtain ⟨_, rfl⟩ := Machine.guarded h
    exact .refl _
  | ioClose c =>
    simp only [step] at h
    split at h
    · obtain rfl := Machine.state_eq h
      exact .flowClosed _
    · cases h
  | ioOwner c | ioFlow c | ioTransfer c result | ioAgain c now =>
    simp only [step] at h
    split at h
    · obtain rfl := Machine.state_eq h
      exact .refl _
    · cases h

end World

end PokrovCore.SmartAccess
