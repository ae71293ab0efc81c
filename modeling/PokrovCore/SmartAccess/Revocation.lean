import PokrovCore.SmartAccess.DataCalls

/-!
# SmartAccess/Revocation — a received restriction is never taken back

`Revoke`, `Close` and `RevokeLease` set latches that nothing resets.  What the latches forbid —
admitting, renewing, activating, passing data — is forbidden in every state reached afterwards, at
whatever point of a connection, of a data call or of another renewal the restriction landed.
-/

namespace PokrovCore.SmartAccess

namespace Outbound

variable {h h' : Outbound} {mark : Mark}

/-! ## What a section needs in order to grant -/

/-- What an admission needs of a generation's latches. -/
def Grants (h : Outbound) (g : ℕ) : Prop :=
  h.closed = false ∧ h.revoked = false ∧ (h.gens g).revoked = false

theorem grants_of_admits {g : ℕ} (ha : h.admits g = true) : h.Grants g := by
  simp only [admits, LeaseAuthorization.open?, Bool.and_eq_true, Bool.not_eq_true'] at ha
  exact ⟨ha.1.1, ha.1.2, ha.2.1.1⟩

/-- A quiet section sets latches only, so what grants after it granted before. -/
theorem Quiet.grants {g : ℕ} (hq : Quiet h h') (hg : h'.Grants g) : h.Grants g := by
  obtain ⟨hc, hr, hl⟩ := hg
  refine ⟨hq.closed ▸ hc, hq.revoked ▸ hr, ?_⟩
  cases hrev : (h.gens g).revoked with
  | false => rfl
  | true => rw [(hq.gens g).revoked hrev] at hl; exact hl

/-- A flow becomes active only where its generation grants. -/
theorem Section.grants_of_active (hs : Section mark h h') {f : ℕ}
    (hnew : (h'.flowOf f).active = true) :
    (h.flowOf f).active = true ∨ h.Grants (h.flowOf f).authorization :=
  (hs.active hnew).imp_right fun ⟨now, _, hadm⟩ =>
    (h.quiet_latch _ now).grants (grants_of_admits hadm)

/-- A flow is registered only under a current generation that grants. -/
theorem Section.registered (hs : Section mark h h') {f : ℕ} (hold : h.flowCount ≤ f)
    (hnew : f < h'.flowCount) :
    (h'.flowOf f).authorization = h.lease ∧ h.Grants h.lease := by
  cases hs with
  | quiet hq => exact absurd hnew (by rw [hq.flowCount]; omega)
  | admitted hq now hadm =>
    rename_i h₁ _
    have hf : f = h₁.flowCount := by
      have := hq.flowCount
      simp only [register] at hnew
      omega
    subst hf
    refine ⟨by simpa [register] using hq.lease, ?_⟩
    have hg := hq.grants (grants_of_admits hadm)
    rwa [hq.lease] at hg
  | activated k now _ =>
    exact absurd hnew (not_lt.mpr hold)
  | attached | flowClosed | deregistered | pruned | adopted | revoked | leaseRevoked | closed =>
    exact absurd hnew (not_lt.mpr hold)

/-- The current generation changes only where it may be renewed. -/
theorem Section.lease (hs : Section mark h h') : h'.lease = h.lease ∨ h.Renewable := by
  cases hs with
  | quiet hq => exact .inl hq.lease
  | admitted hq => exact .inl hq.lease
  | adopted _ _ _ _ _ hc => exact .inr hc.renewable
  | activated | attached | flowClosed | deregistered | pruned | revoked | leaseRevoked | closed =>
    exact .inl rfl

/-- A renewal returns true only where the outbound may be renewed — the exact retry included. -/
theorem RenewStep.renewable {σ : Type*} {expectedID : String} {grant : Grant} {clock : RenewClock}
    {retainExpiry : Date → σ → σ × Bool} {st st' : σ}
    (hs : RenewStep h expectedID grant clock retainExpiry st h' st' .renewed) : h.Renewable := by
  cases hs with
  | retried next hr => exact hr
  | adopted next hc => exact hc.renewable

/-- An admission check needs the generation to grant. -/
theorem grants_of_admitsLeaseLocked {g : ℕ} {now : Sample}
    (ha : (h.admitsLeaseLocked g now).2 = true) : h.Grants g :=
  (h.quiet_latch g now).grants (grants_of_admits ha)

/-- **Every flow that is not closed is registered.** -/
def Listed (h : Outbound) : Prop :=
  ∀ f < h.flowCount, (h.flowOf f).closed = false → f ∈ h.flows

theorem Section.listed (hs : Section mark h h') (hl : h.Listed) : h'.Listed := by
  have hold : ∀ f < h.flowCount, (h'.flowOf f).closed = false → f ∈ h.flows := by
    intro f hf hc
    refine hl f hf (Bool.eq_false_iff.mpr fun hclosed => ?_)
    cases hc.symm.trans (hs.ages.flowClosed f hf hclosed)
  cases hs with
  | quiet hq => exact fun f hf hc => hq.flows ▸ hold f (hq.flowCount ▸ hf) hc
  | admitted hq now =>
    intro f hf hc
    rcases Nat.lt_succ_iff_lt_or_eq.mp hf with hf | rfl
    · exact List.mem_append_left _ (hq.flows ▸ hold f (hq.flowCount ▸ hf) hc)
    · exact List.mem_append_right _ List.mem_cons_self
  | deregistered k hclosed =>
    refine fun f hf hc => List.mem_filter.mpr ⟨hl f hf hc, ?_⟩
    rcases eq_or_ne f k with rfl | hne
    · cases hclosed.symm.trans hc
    · simpa using hne
  | activated | attached | flowClosed | pruned | adopted | revoked | leaseRevoked | closed =>
    exact hold

end Outbound

namespace World

open Outbound

/-! ## What the latches forbid, in one state -/

/-- **Nothing is granted any more**: admission queries answer false, renewals do not return true, and
no event makes a flow active. -/
structure Denies (w : World) : Prop where
  admitsNewFlows : ∀ now w' o, w.step (.query .admitsNewFlows now) = some (w', o) → o = .answer false
  renewLease : ∀ expectedID grant clock retained w' o,
    w.step (.renewLease expectedID grant clock retained) = some (w', o) → o ≠ .renewal .renewed
  activate : ∀ e w' o f, w.step e = some (w', o) → (w'.outbound.flowOf f).active = true →
    (w.outbound.flowOf f).active = true

/-- **Nothing is granted to one generation any more**: its admission check fails on every sample, no
event registers a flow of it, and no event makes one active. -/
structure DeniesGen (w : World) (g : ℕ) : Prop where
  admits : ∀ now, (w.outbound.admitsLeaseLocked g now).2 = false
  register : ∀ e w' o f, w.step e = some (w', o) → w.outbound.flowCount ≤ f →
    f < w'.outbound.flowCount → (w'.outbound.flowOf f).authorization ≠ g
  activate : ∀ e w' o f, w.step e = some (w', o) → (w.outbound.flowOf f).authorization = g →
    (w'.outbound.flowOf f).active = true → (w.outbound.flowOf f).active = true

/-- **The current generation is the last one**: it is the one named, it admits nothing, and no
renewal returns true. -/
structure Final (w : World) (g : ℕ) : Prop where
  lease : w.outbound.lease = g
  admitsNewFlows : ∀ now w' o, w.step (.query .admitsNewFlows now) = some (w', o) → o = .answer false
  renewLease : ∀ expectedID grant clock retained w' o,
    w.step (.renewLease expectedID grant clock retained) = some (w', o) → o ≠ .renewal .renewed

/-- **A restriction of one generation touches nothing else**: the other generations, all flows, the
outbound's own latches, connections and data calls stand, and the flows it goes on to close are of
that generation. -/
structure Spares (w w' : World) (g : ℕ) (closing : List ℕ) : Prop where
  gens : ∀ k, k ≠ g → w'.outbound.gens k = w.outbound.gens k
  lease : w'.outbound.lease = w.outbound.lease
  leases : w'.outbound.leases = w.outbound.leases
  flowOf : w'.outbound.flowOf = w.outbound.flowOf
  flows : w'.outbound.flows = w.outbound.flows
  attempts : w'.outbound.attempts = w.outbound.attempts
  closed : w'.outbound.closed = w.outbound.closed
  revoked : w'.outbound.revoked = w.outbound.revoked
  terminateActive : w'.outbound.terminateActive = w.outbound.terminateActive
  conns : w'.conns = w.conns
  calls : w'.calls = w.calls
  admits : ∀ k now, k ≠ g →
    (w'.outbound.admitsLeaseLocked k now).2 = (w.outbound.admitsLeaseLocked k now).2
  closing : ∀ f ∈ closing, (w.outbound.flowOf f).authorization = g

variable {w w' : World}

theorem admitsNewFlows_answer {now : Sample} {o : Output} (hno : ¬ w.outbound.Grants w.outbound.lease)
    (hs : w.step (.query .admitsNewFlows now) = some (w', o)) : o = .answer false := by
  obtain ⟨_, rfl⟩ := Prod.mk.inj (Option.some.inj hs)
  refine congrArg Output.answer (Bool.eq_false_iff.mpr fun ha => hno ?_)
  exact grants_of_admitsLeaseLocked ha

theorem renewal_answer {expectedID : String} {grant : Grant} {clock : RenewClock} {retained : Bool}
    {o : Output} (hno : ¬ w.outbound.Renewable)
    (hs : w.step (.renewLease expectedID grant clock retained) = some (w', o)) :
    o ≠ .renewal .renewed := by
  obtain ⟨_, rfl⟩ := Prod.mk.inj (Option.some.inj hs)
  intro ho
  have hstep := w.outbound.renewLease_step expectedID grant clock
    (fun _ (u : Unit) => (u, retained)) ()
  rw [Output.renewal.inj ho] at hstep
  exact hno hstep.renewable

theorem denies_of_stopped (h : w.outbound.closed = true ∨ w.outbound.revoked = true) :
    Denies w := by
  have hno : ∀ g, ¬ w.outbound.Grants g := fun g ⟨hc, hr, _⟩ => by
    rcases h with h | h
    · simp [hc] at h
    · simp [hr] at h
  refine ⟨fun now w' o hs => admitsNewFlows_answer (hno _) hs, fun _ _ _ _ w' o hs => ?_, ?_⟩
  · exact renewal_answer (fun ⟨hc, hr, hl⟩ => hno _ ⟨hc, hr, hl⟩) hs
  · exact fun e w' o f hs ha => ((step_section hs).grants_of_active ha).resolve_right (hno _)

theorem deniesGen_of_revoked {g : ℕ} (h : (w.outbound.gens g).revoked = true) :
    DeniesGen w g := by
  have hno : ¬ w.outbound.Grants g := fun ⟨_, _, hl⟩ => by simp [hl] at h
  refine ⟨fun now => Bool.eq_false_iff.mpr fun ha => hno (grants_of_admitsLeaseLocked ha), ?_, ?_⟩
  · intro e w' o f hs hold hnew hg
    obtain ⟨hauth, hgrants⟩ := (step_section hs).registered hold hnew
    exact hno (hg ▸ hauth ▸ hgrants)
  · intro e w' o f hs hg ha
    exact ((step_section hs).grants_of_active ha).resolve_right (hg ▸ hno)

theorem final_of_revoked (h : w.outbound.current.revoked = true) : Final w w.outbound.lease := by
  have hno : ¬ w.outbound.Renewable := fun ⟨_, _, hl⟩ => by simp [hl] at h
  exact ⟨rfl, fun now w' o hs => admitsNewFlows_answer hno hs, fun _ _ _ _ w' o hs =>
    renewal_answer hno hs⟩

/-! ## …and in every later one -/

theorem lease_of_revoked {g : ℕ} (hr : machine.Reaches w w') (hwf : w.outbound.WellFormed)
    (hg : w.outbound.lease = g) (hrev : (w.outbound.gens g).revoked = true) :
    w'.outbound.lease = g ∧ (w'.outbound.gens g).revoked = true := by
  have hlt : g < w.outbound.genCount := hg ▸ hwf.lease_lt
  refine (hr.invariant (P := fun v => machine.Reaches w v ∧ v.outbound.lease = g ∧
    (v.outbound.gens g).revoked = true) ?_ ⟨.refl w, hg, hrev⟩).2
  rintro a e b o _ hs ⟨hrun, hlease, hrevoked⟩
  have hrun' := hrun.snoc trivial hs
  refine ⟨hrun', ?_, ((ages_of_reaches hrun').gens g hlt).revoked hrev⟩
  rcases (step_section hs).lease with hsame | ⟨_, _, hl⟩
  · exact hsame.trans hlease
  · simp [current, hlease, hrevoked] at hl

/-- What `RevokeLease` answers and does when it answers true. -/
theorem revokeLease_spares {id : String} {t : Bool} {closing : List ℕ}
    (hs : w.step (.revokeLease id t) = some (w', .closing true closing)) :
    ∃ g, w.outbound.leases.get? id = some g ∧ Spares w w' g closing ∧
      w'.outbound.gens g = (w.outbound.gens g).restrict t ∧
      w'.outbound.genCount = w.outbound.genCount ∧ w'.callCount = w.callCount := by
  obtain ⟨rfl, ho⟩ := Prod.mk.inj (Option.some.inj hs)
  obtain ⟨hfound, hclosing⟩ := Output.closing.inj ho
  cases hget : w.outbound.leases.get? id with
  | none => simp [Outbound.revokeLease, hget] at hfound
  | some g =>
    simp only [Outbound.revokeLease, hget, Option.getD_some] at hclosing ⊢
    have hgen : ∀ k, k ≠ g → (w.outbound.modifyGen g (LeaseAuthorization.restrict · t)).gens k =
        w.outbound.gens k := fun k hk => by simp [modifyGen, hk]
    refine ⟨g, rfl, ⟨hgen, rfl, rfl, rfl, rfl, rfl, rfl, rfl, rfl, rfl, rfl, ?_, ?_⟩, ?_, rfl, rfl⟩
    · intro k now hk
      simp [admitsLeaseLocked, latch, admits, modifyGen, hk]
    · intro f hf
      rw [← hclosing, List.mem_filter] at hf
      simp only [Bool.and_eq_true, beq_iff_eq] at hf
      exact hf.2.1
    · simp [modifyGen]

/-- **A terminating `RevokeLease` fences its generation**: every data call entered later on a flow of
it is refused. -/
theorem refuses_of_revokeLease {g : ℕ} {w₁ w₂ : World} (hlt : g < w₁.outbound.genCount)
    (hgen : w₁.outbound.gens g = (w.outbound.gens g).restrict true) (hr : machine.Reaches w₁ w₂)
    {c : ℕ} (hc : w₁.callCount ≤ c) (hc' : c < w₂.callCount)
    (hcg : w₂.gen (w₂.calls c).flow = g) : Refuses w₂ c := by
  have hterm : w₁.GenTerminated g := Or.inr (by rw [hgen]; simp [LeaseAuthorization.restrict])
  exact refuses_of_terminated (G := (· = g)) hr (fun v hv k hk => hk ▸ hterm.of_reaches hv hlt) hc hc'
    hcg

/-- **Revocation is permanent.**  After `Revoke` or `Close`, every later state denies everything and,
if active flows were terminated, refuses every data call entered later.  After a `RevokeLease` that
answered true, the same holds of the generation it named — the last one, if it was current — and the
call itself touched nothing else. -/
theorem revocation_permanent (options : OutboundOptions) (lease : LeaseAuthorization) (latest : ℤ)
    {w : World} (hw : machine.Reaches (init (newOutbound options lease) latest) w) :
    (∀ (e : Event) (t : Bool), e = .revoke t ∨ (e = .close ∧ t = true) →
      ∀ w₁ o, w.step e = some (w₁, o) → ∀ w₂, machine.Reaches w₁ w₂ →
        Denies w₂ ∧
        (t = true → ∀ c, w₁.callCount ≤ c → c < w₂.callCount → Refuses w₂ c)) ∧
    (∀ (id : String) (t : Bool) (w₁ : World) (closing : List ℕ),
      w.step (.revokeLease id t) = some (w₁, .closing true closing) →
      ∃ g, w.outbound.leases.get? id = some g ∧ Spares w w₁ g closing ∧
        ∀ w₂, machine.Reaches w₁ w₂ →
          DeniesGen w₂ g ∧
          (t = true → ∀ c, w₁.callCount ≤ c → c < w₂.callCount →
            w₂.gen (w₂.calls c).flow = g → Refuses w₂ c) ∧
          (w.outbound.lease = g → Final w₂ g)) := by
  have hwf := wellFormed_of_reaches hw (wellFormed_newOutbound options lease)
  constructor
  · intro e t he w₁ o hs w₂ hr
    have hlatched : (w₁.outbound.closed = true ∨ w₁.outbound.revoked = true) ∧
        (t = true → w₁.outbound.terminateActive = true) := by
      rcases he with rfl | ⟨rfl, rfl⟩ <;> obtain rfl := Machine.state_eq hs
      · exact ⟨Or.inr rfl, fun ht => by simp [Outbound.revoke, ht]⟩
      · exact ⟨Or.inl rfl, fun _ => rfl⟩
    refine ⟨denies_of_stopped (hlatched.1.imp (ages_of_reaches hr).closed
      (ages_of_reaches hr).revoked), fun ht c hc hc' => ?_⟩
    exact refuses_of_terminated (G := fun _ => True) hr
      (fun v hv g _ => Or.inl ((ages_of_reaches hv).terminateActive (hlatched.2 ht))) hc hc' trivial
  · intro id t w₁ closing hs
    obtain ⟨g, hget, hspares, hgen, hcount, _⟩ := revokeLease_spares hs
    have hlt : g < w₁.outbound.genCount := hcount ▸ (hwf.leases_spec id g hget).1
    have hrevoked : (w₁.outbound.gens g).revoked = true := by rw [hgen]; rfl
    have hwf₁ : w₁.outbound.WellFormed := (step_section hs).wellFormed hwf
    refine ⟨g, hget, hspares, fun w₂ hr => ⟨?_, fun ht c hc hc' hcg => ?_, fun hcur => ?_⟩⟩
    · exact deniesGen_of_revoked (((ages_of_reaches hr).gens g hlt).revoked hrevoked)
    · exact refuses_of_revokeLease hlt (ht ▸ hgen) hr hc hc' hcg
    · obtain ⟨hlease, hrev⟩ := lease_of_revoked hr hwf₁ (hspares.lease.trans hcur) hrevoked
      have hfinal := final_of_revoked (w := w₂) (by rw [current, hlease]; exact hrev)
      rwa [hlease] at hfinal

theorem revocation_permanent_sample : ∃ w₁ w₂ o, sampleWorld.step (.revoke true) = some (w₁, o) ∧
    machine.Reaches w₁ w₂ ∧ w₁.callCount = 0 ∧ w₂.callCount = 1 ∧ Denies w₂ ∧ Refuses w₂ 0 := by
  let w₁ := sampleWorld.put (sampleWorld.outbound.revoke true).1
  have hcalls : (machine.run w₁ [.ioEnter 0 false .read sampleClock]).map callCount = some 1 := by
    decide +kernel
  obtain ⟨w₂, hrun, hcount⟩ := Option.map_eq_some_iff.mp hcalls
  have hr := Machine.reaches_run hrun
  obtain ⟨hdeny, hrefuse⟩ := (revocation_permanent sampleOptions sampleLease 0
    reaches_sampleWorld).1 (.revoke true) true (Or.inl rfl) w₁ _ rfl w₂ hr
  have hnone : w₁.callCount = 0 := by decide +kernel
  exact ⟨w₁, w₂, _, rfl, hr, hnone, hcount, hdeny, hrefuse rfl 0 hnone.le (hcount ▸ Nat.one_pos)⟩

/-! ## The flows a restriction closes -/

theorem listed_of_reaches {options : OutboundOptions} {lease : LeaseAuthorization} {latest : ℤ}
    (hw : machine.Reaches (init (newOutbound options lease) latest) w) : w.outbound.Listed :=
  hw.invariant (P := fun a => a.outbound.Listed) (fun _ _ _ _ _ hs => (step_section hs).listed)
    fun f hf => absurd hf (Nat.not_lt_zero f)

end World

end PokrovCore.SmartAccess
