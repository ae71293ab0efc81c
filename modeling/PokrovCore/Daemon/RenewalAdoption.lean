import PokrovCore.Daemon.RecoveryExpiry
import PokrovCore.Foundations.JsonMap

/-!
# Daemon/RenewalAdoption — a background renewal is adopted only into what it was selected for

A worker selects an enrollment, asks the control plane outside the lock, and comes back to apply the
answer.  In between the host may renew, re-enroll, reconfigure, restrict or replace the instance, so
the capture is compared with the present once more: the table of the worker and the enrollment under
the service's lock, the outbound's lease under its own, and the record under the journal's.

`background_renewal_adoption_safe` — an application adopts only what passed all of these; each attempt
is one that was selected; and the identities an enrollment accepts only move forward.
-/

namespace PokrovCore.Daemon

open SmartAccess (World sampleClock)

/-! ## Identities -/

/-- **A later identity of the same grant.** -/
structure LeaseIdentity.Advances (a b : LeaseIdentity) : Prop where
  platform : b.platform = a.platform
  audience : b.audience = a.audience
  serviceID : b.serviceID = a.serviceID
  providerID : b.providerID = a.providerID
  permissionID : b.permissionID = a.permissionID
  capabilityID : b.capabilityID = a.capabilityID
  profileSHA256 : b.profileSHA256 = a.profileSHA256
  routeMode : b.routeMode = a.routeMode
  runtimeScopeSHA256 : b.runtimeScopeSHA256 = a.runtimeScopeSHA256
  origin : b.origin = a.origin
  family : b.family = a.family
  feature : b.feature = a.feature
  providerRevision : a.providerRevision.value ≤ b.providerRevision.value
  permissionRevision : a.permissionRevision.value ≤ b.permissionRevision.value
  providerPolicyRevision : a.providerPolicyRevision.value ≤ b.providerPolicyRevision.value
  providerSecurityRevision : a.providerSecurityRevision.value ≤ b.providerSecurityRevision.value
  catalogRevision : a.catalogRevision.value ≤ b.catalogRevision.value
  catalogSecurityRevision : a.catalogSecurityRevision.value ≤ b.catalogSecurityRevision.value
  newFlowsUntil : a.newFlowsUntil < b.newFlowsUntil

theorem Succeeds.advances {a b : LeaseIdentity} (h : Succeeds a b) : a.Advances b := by
  have hf := h.follows
  simp only [LeaseIdentity.follows, Bool.and_eq_true, decide_eq_true_eq, and_assoc] at hf
  obtain ⟨h₁, h₂, h₃, h₄, h₅, h₆, h₇, h₈, h₉, h₁₀, h₁₁, h₁₂, r₁, r₂, r₃, r₄, r₅, r₆⟩ := hf
  exact ⟨h₁, h₂, h₃, h₄, h₅, h₆, h₇, h₈, h₉, h₁₀, h₁₁, h₁₂, r₁, r₂, r₃, r₄, r₅, r₆, h.newUntil⟩

theorem LeaseIdentity.Advances.trans {a b c : LeaseIdentity} (h : a.Advances b)
    (h' : b.Advances c) : a.Advances c where
  platform := h'.platform.trans h.platform
  audience := h'.audience.trans h.audience
  serviceID := h'.serviceID.trans h.serviceID
  providerID := h'.providerID.trans h.providerID
  permissionID := h'.permissionID.trans h.permissionID
  capabilityID := h'.capabilityID.trans h.capabilityID
  profileSHA256 := h'.profileSHA256.trans h.profileSHA256
  routeMode := h'.routeMode.trans h.routeMode
  runtimeScopeSHA256 := h'.runtimeScopeSHA256.trans h.runtimeScopeSHA256
  origin := h'.origin.trans h.origin
  family := h'.family.trans h.family
  feature := h'.feature.trans h.feature
  providerRevision := h.providerRevision.trans h'.providerRevision
  permissionRevision := h.permissionRevision.trans h'.permissionRevision
  providerPolicyRevision := h.providerPolicyRevision.trans h'.providerPolicyRevision
  providerSecurityRevision := h.providerSecurityRevision.trans h'.providerSecurityRevision
  catalogRevision := h.catalogRevision.trans h'.catalogRevision
  catalogSecurityRevision := h.catalogSecurityRevision.trans h'.catalogSecurityRevision
  newFlowsUntil := h.newFlowsUntil.trans h'.newFlowsUntil

namespace Service

variable {crypto : Crypto} {s s' : Service} {k : ℕ}

/-! ## Selecting -/

/-- **What an attempt was when it was selected**: an enrollment in the table of the worker, with the
identity it had accepted, run by an outbound of the running instance. -/
def Selected (s : Service) (k : ℕ) (a : Attempt) : Prop :=
  ∃ (w : Worker) (inst : Instance) (scope : Digest) (r : Enrollment) (n : ℕ) (v : World),
    s.workers[k]? = some w ∧ s.registered k w = some inst ∧
      w.renewals.get? scope = some a.enrollment ∧ s.enrollments[a.enrollment]? = some r ∧
      r.current = a.previous ∧ inst.leases[n]? = some v ∧
      v.outbound.leaseID = a.previous.leaseID.text

/-- Is a choice an enrollment of the table, and due? -/
def Eligible (s : Service) (inst : Instance) (renewals : SortedMap Digest ℕ) (now : Sample)
    (c : Digest × ℕ × Enrollment) : Prop :=
  renewals.get? c.1 = some c.2.1 ∧ s.enrollments[c.2.1]? = some c.2.2 ∧ due inst now c.2.2 = true

theorem choose_eligible {inst : Instance} {renewals : SortedMap Digest ℕ} {now : Sample}
    {order : List Digest} {c : Digest × ℕ × Enrollment}
    (h : s.choose inst renewals now order = some c) : s.Eligible inst renewals now c := by
  have hstep : ∀ {chosen : Option (Digest × ℕ × Enrollment)} {scope : Digest},
      (∀ c ∈ chosen, s.Eligible inst renewals now c) →
      ∀ c ∈ s.chooseStep inst renewals now chosen scope, s.Eligible inst renewals now c := by
    intro chosen scope hchosen c hc
    unfold chooseStep at hc
    split at hc
    · exact hchosen c hc
    rename_i e r hget
    obtain ⟨e', he', hget⟩ := Option.bind_eq_some_iff.mp hget
    obtain ⟨r', hr', hpair⟩ := Option.map_eq_some_iff.mp hget
    obtain ⟨rfl, rfl⟩ := Prod.mk.inj hpair
    split at hc
    · rename_i hdue
      obtain rfl := Option.some.inj hc
      exact ⟨he', hr', (Bool.and_eq_true_iff.mp hdue).1⟩
    · exact hchosen c hc
  have hfold : ∀ (order : List Digest) (chosen : Option (Digest × ℕ × Enrollment)),
      (∀ c ∈ chosen, s.Eligible inst renewals now c) →
      ∀ c ∈ order.foldl (s.chooseStep inst renewals now) chosen,
        s.Eligible inst renewals now c := by
    intro order
    induction order with
    | nil => exact fun _ h => h
    | cons scope order ih => exact fun chosen h => ih _ (hstep h)
  exact hfold order none (fun _ hc => by cases hc) c h

theorem selected_of_next {w : Worker} {d : Decision} {order : List Digest} {now : Sample}
    {fired : Bool} {a : Attempt} (hk : s.workers[k]? = some w)
    (h : (s.nextSmartAccessRuntimeRenewal k w d order now fired).2 = some a) : s.Selected k a := by
  unfold nextSmartAccessRuntimeRenewal at h
  split at h
  · cases h
  rename_i inst hreg
  split at h
  · cases h
  split at h
  · cases h
  rename_i scope e r hchoose
  obtain ⟨hget, hr, hdue⟩ := choose_eligible hchoose
  obtain rfl := Option.some.inj h
  obtain ⟨v, hv, hrenew⟩ := List.any_eq_true.mp (Bool.and_eq_true_iff.mp hdue).2
  obtain ⟨n, hn⟩ := List.getElem?_of_mem hv
  refine ⟨w, inst, scope, r, n, v, hk, hreg, hget, hr, rfl, hn, ?_⟩
  exact beq_iff_eq.mp (Bool.and_eq_true_iff.mp hrenew).2

/-- **Every attempt was selected**, by the worker that is at it, at an earlier state of the run. -/
theorem selected_of_attempt {disk : Path → Option (List Char)}
    (h : (machine crypto).Reaches (init disk) s) {w : Worker} {a : Attempt}
    (hk : s.workers[k]? = some w) (ha : w.pc.attempt = some a) :
    ∃ s₀ s₁ order now fired o, (machine crypto).Reaches (init disk) s₀ ∧ s₀.Selected k a ∧
      (machine crypto).step s₀ (.nextRenewal k order now fired) = some (s₁, o) ∧
      (machine crypto).Reaches s₁ s := by
  revert k w a
  refine (h.invariant (P := fun s => (machine crypto).Reaches (init disk) s ∧
    ∀ {k : ℕ} {w : Worker} {a : Attempt}, s.workers[k]? = some w → w.pc.attempt = some a →
      ∃ s₀ s₁ order now fired o, (machine crypto).Reaches (init disk) s₀ ∧ s₀.Selected k a ∧
        (machine crypto).step s₀ (.nextRenewal k order now fired) = some (s₁, o) ∧
        (machine crypto).Reaches s₁ s) ?_ ⟨.refl _, fun hk => by cases hk⟩).2
  rintro t e t' o _ hstep ⟨hreach, hold⟩
  refine ⟨hreach.snoc trivial hstep, fun {k w a} hk ha => ?_⟩
  -- an attempt carried from before was selected before
  have hcarry : ∀ {w₀ : Worker}, t.workers[k]? = some w₀ → w₀.pc.attempt = some a →
      ∃ s₀ s₁ order now fired o, (machine crypto).Reaches (init disk) s₀ ∧ s₀.Selected k a ∧
        (machine crypto).step s₀ (.nextRenewal k order now fired) = some (s₁, o) ∧
        (machine crypto).Reaches s₁ t' := fun hk₀ ha₀ => by
    obtain ⟨s₀, s₁, order, now, fired, o', hs₀, hsel, hnext, hrest⟩ := hold hk₀ ha₀
    exact ⟨s₀, s₁, order, now, fired, o', hs₀, hsel, hnext, hrest.snoc trivial hstep⟩
  cases step_attempt hstep hk ha with
  | stands w₀ hk₀ hpc => exact hcarry hk₀ (hpc ▸ ha)
  | selects w₀ d order now fired hk₀ he hpc hnext =>
    subst he
    exact ⟨t, t', order, now, fired, o, hreach, selected_of_next hk₀ hnext, hstep, .refl t'⟩
  | verifies w₀ d hk₀ hw hpc _ => exact hcarry hk₀ (by rw [hw]; rfl)

/-! ## Applying -/

/-- **A background renewal was adopted**: what the application found in each component, and what it
left there. -/
structure Applied (s s' : Service) (k : ℕ) (w : Worker) (a : Attempt) (lease : LeaseIdentity)
    (inst : Instance) (n : ℕ) (v v' : World) : Prop where
  registered : s.registered k w = some inst
  /-- the enrollment is still the one registered for the scope, with the captured identity -/
  enrolled : w.renewals.get? a.previous.runtimeScopeSHA256 = some a.enrollment
  accepted : s.enrollments[a.enrollment]?.map Enrollment.current = some a.previous
  /-- the outbound still runs the captured lease -/
  outbound : inst.leases[n]? = some v
  current : v.outbound.leaseID = a.previous.leaseID.text
  /-- the record has no restriction of the profile, the catalog or the scope -/
  unrestricted : ∃ r, Journal.lookup w.config.profileDigest (s.journals w.journal).records = some r ∧
    r.policyAction = .none ∧ r.catalogWithdrawn = false ∧
    r.scopeActions.get? a.previous.runtimeScopeSHA256 = none
  /-- the file has both identities -/
  retained : ∃ f, (s'.journals w.journal).filed w.config.profileDigest = some f ∧
    a.previous ∈ f.leases ∧ lease ∈ f.leases
  advances : a.previous.Advances lease
  /-- the enrollment and the outbound have moved on to the same lease -/
  moved : s'.enrollments[a.enrollment]?.map Enrollment.current = some lease
  outbound' : ∃ inst', s'.instances[w.box]? = some inst' ∧ inst'.leases[n]? = some v'
  genCount : v'.outbound.genCount = v.outbound.genCount + 1
  id : v'.outbound.leaseID = lease.leaseID.text
  issued : v'.outbound.current.issued = lease.issuedAt
  newUntil : v'.outbound.current.newUntil = lease.newFlowsUntil
  activeUntil : v'.outbound.current.activeUntil = lease.activeFlowsUntil
  /-- and no other outbound has -/
  others : ∀ (i m : ℕ) (inst₀ : Instance) (x : World), s.instances[i]? = some inst₀ →
    inst₀.leases[m]? = some x → i ≠ w.box ∨ m ≠ n →
    ∃ inst₁, s'.instances[i]? = some inst₁ ∧ inst₁.leases[m]? = some x

theorem captured_spec {w : Worker} {a : Attempt} (h : s.captured w a = true) :
    w.renewals.get? a.previous.runtimeScopeSHA256 = some a.enrollment ∧
      s.enrollments[a.enrollment]?.map Enrollment.current = some a.previous := by
  obtain ⟨hget, hcurrent⟩ := Bool.and_eq_true_iff.mp h
  exact ⟨of_decide_eq_true hget, of_decide_eq_true hcurrent⟩

theorem Application.applied {w : Worker} {a : Attempt} {lease : LeaseIdentity} {ids : List String}
    {inst : Instance} {n : ℕ} {out : World} {world : ApplyWorld}
    (happ : Application s w a lease ids n out world s' true) (hs : Sound s)
    (hreg : s.registered k w = some inst) (hcap : s.captured w a = true)
    (htarget : target inst.leases a.previous = some (n, out)) (hsucc : Succeeds a.previous lease) :
    ∃ v', Applied s s' k w a lease inst n out v' := by
  obtain ⟨hget, haccepted⟩ := captured_spec hcap
  obtain ⟨hn, hid⟩ := target_spec htarget
  have hinst := (instance_of_running (instance_of_registered hreg).1).2
  cases happ with
  | adopted out' j next hc hret hout =>
    obtain ⟨_, hlive, hlive', _, hfollows, r, r', hr, hpolicy, hwithdrawn, hscope, hr', hprev, hnext,
      _⟩ := Journal.retainRenewal_ok (hs.wf w.journal) hret
    have hwf : j.Wf := by
      have := (Journal.retainRenewal_changes w.config.profileDigest w.journalGeneration a.previous
        lease (ids.filterMap (Hex.ofString? 32)) world.retain world.write
        (s.journals w.journal)).wf (hs.wf w.journal)
      rwa [hret] at this
    have hcurrent : out'.outbound.current = next := by
      rw [hout]
      exact Function.update_self ..
    obtain ⟨hnid, hissued, hnew, hactive, _⟩ := SmartAccess.newLeaseAuthorization_spec hc.built
    have hi' : (s.adoptedAt w a.enrollment lease n out' j).instances[w.box]? =
        some (raiseBound lease.activeFlowsUntil (putLease n out' inst)) := by
      show ((s.instances.modify w.box _).modify w.box _)[w.box]? = _
      rw [List.modify_modify_eq, List.getElem?_modify_eq, hinst]
      rfl
    have hscope' : lease.runtimeScopeSHA256 = a.previous.runtimeScopeSHA256 :=
      hsucc.advances.runtimeScopeSHA256
    refine ⟨out',
      { registered := hreg, enrolled := hget, accepted := haccepted, outbound := hn, current := hid
        unrestricted := ⟨r, hr, hpolicy, hwithdrawn, hscope' ▸ hscope⟩
        retained := ?_, advances := hsucc.advances, moved := ?_
        outbound' := ⟨_, hi', ?_⟩
        genCount := by rw [hout]; rfl
        id := by rw [SmartAccess.Outbound.leaseID, hcurrent]; exact hnid
        issued := by rw [hcurrent]; exact Date.format_injective hissued
        newUntil := by rw [hcurrent]; exact Date.format_injective hnew
        activeUntil := by rw [hcurrent]; exact Date.format_injective hactive
        others := fun i m inst₀ x hi hm hne => ?_ }⟩
    · have hj : (s.adoptedAt w a.enrollment lease n out' j).journals w.journal = j :=
        Function.update_self ..
      obtain ⟨r'', f, hr'', hf, _, _, hleases⟩ := hwf.pledged (hlive' ▸ hlive)
      obtain rfl := Option.some.inj (hr'.symm.trans hr'')
      rw [hj]
      exact ⟨f, hf, hleases ▸ hprev, hleases ▸ hnext⟩
    · obtain ⟨e, he, _⟩ := Option.map_eq_some_iff.mp haccepted
      show Option.map Enrollment.current ((s.enrollments.modify a.enrollment _)[a.enrollment]?) = _
      rw [List.getElem?_modify_eq, he]
      rfl
    · rw [raiseBound_leases]
      exact List.getElem?_set_self (List.getElem?_eq_some_iff.mp hn).1
    · by_cases hbox : w.box = i
      · subst hbox
        obtain rfl := Option.some.inj (hinst.symm.trans hi)
        refine ⟨_, hi', ?_⟩
        rw [raiseBound_leases]
        exact (List.getElem?_set_ne (Ne.symm (hne.resolve_left fun h => h rfl))).trans hm
      · refine ⟨inst₀, ?_, hm⟩
        show ((s.instances.modify w.box _).modify w.box _)[i]? = _
        rw [List.modify_modify_eq]
        exact Heap.getElem?_modify_eq_some.mpr ⟨inst₀, hi, (if_neg hbox).symm⟩

/-- An application that adopts nothing leaves every outbound its lease and every enrollment its
identity. -/
structure Unapplied (s s' : Service) : Prop where
  instances : List.Forall₂ Instance.Kept s.instances s'.instances
  enrollments : s'.enrollments = s.enrollments

theorem Application.unapplied {w : Worker} {a : Attempt} {lease : LeaseIdentity}
    {ids : List String} {inst : Instance} {n : ℕ} {out : World} {world : ApplyWorld}
    (happ : Application s w a lease ids n out world s' false) (hreg : s.registered k w = some inst)
    (hn : inst.leases[n]? = some out) : Unapplied s s' := by
  have hinst := (instance_of_running (instance_of_registered hreg).1).2
  cases happ with
  | refused out' j hout hj =>
    refine ⟨Heap.forall₂_modify Instance.Kept.refl fun inst' hi => ?_, rfl⟩
    obtain rfl := Option.some.inj (hinst.symm.trans hi)
    exact ⟨rfl, rfl, rfl, Heap.forall₂_set (fun x => .refl x.outbound) fun x hx =>
      Option.some.inj (hn.symm.trans hx) ▸ hout⟩

theorem applyRenewal_cases (hs : Sound s) {w : Worker} {a : Attempt} {d : RenewalDecision}
    (hk : s.workers[k]? = some w) (hpc : w.pc = .adopting a d) (world : ApplyWorld) :
    (s.applySmartAccessRuntimeRenewal k w a d world).2 = false ∧
        Unapplied s (s.applySmartAccessRuntimeRenewal k w a d world).1 ∨
      (s.applySmartAccessRuntimeRenewal k w a d world).2 = true ∧
        ∃ lease inst n v v', Applied s (s.applySmartAccessRuntimeRenewal k w a d world).1 k w a lease
          inst n v v' := by
  have hsame : Unapplied s s := ⟨Heap.forall₂_refl Instance.Kept.refl _, rfl⟩
  unfold applySmartAccessRuntimeRenewal
  split
  · exact .inl ⟨rfl, hsame⟩
  rename_i inst hreg
  split
  · rename_i hguard
    split
    · rename_i ids n out hids htarget
      split
      · exact .inl ⟨rfl, Heap.forall₂_modify Instance.Kept.refl
          fun inst _ => inst.kept_performAll _, rfl⟩
      · rename_i lease hlease
        have hsucc := hs.verified hk hpc lease hlease
        have happ := adoptLease_application hs.wf w d ids world htarget hsucc
        generalize s.adoptLease w a d lease ids n out world = r at happ ⊢
        obtain ⟨s', _ | _⟩ := r
        · exact .inl ⟨rfl, happ.unapplied hreg (target_spec htarget).1⟩
        · obtain ⟨v', h⟩ := happ.applied hs hreg (Bool.and_eq_true_iff.mp hguard).1 htarget hsucc
          exact .inr ⟨rfl, lease, inst, n, out, v', h⟩
    · exact .inl ⟨rfl, hsame⟩
  · exact .inl ⟨rfl, hsame⟩

/-- **What a worker's application does.** -/
theorem apply_cases (hs : Sound s) {world : ApplyWorld} {o : Output}
    (h : s.step crypto (.applyRenewal k world) = some (s', o)) :
    ∃ w a d, s.workers[k]? = some w ∧ w.pc = .adopting a d ∧
      (o = .applied false ∧ Unapplied s s' ∨
        o = .applied true ∧ ∃ lease inst n v v', Applied s s' k w a lease inst n v v') := by
  obtain ⟨w, hk, h⟩ := Option.bind_eq_some_iff.mp h
  dsimp only [stepWorker] at h
  split at h
  · rename_i a d hpc
    obtain ⟨rfl, rfl⟩ := Prod.mk.inj (Option.some.inj h)
    refine ⟨w, a, d, hk, hpc, ?_⟩
    rcases applyRenewal_cases hs hk hpc world with ⟨hb, hu⟩ | ⟨hb, lease, inst, n, v, v', ha⟩
    · exact .inl ⟨congrArg _ hb, hu.instances, hu.enrollments⟩
    · exact .inr ⟨congrArg _ hb, lease, inst, n, v, v', { ha with }⟩
  · cases h

/-! ## Along one enrollment -/

/-- An enrollment has kept its identity, or moved on to a later one. -/
def Onward (r r' : Enrollment) : Prop :=
  r'.current = r.current ∨ r.current.Advances r'.current

theorem Onward.trans {a b c : Enrollment} (h : Onward a b) (h' : Onward b c) : Onward a c := by
  rcases h with h | h <;> rcases h' with h' | h'
  · exact .inl (h'.trans h)
  · exact .inr (h ▸ h')
  · exact .inr (h'.symm ▸ h)
  · exact .inr (h.trans h')

theorem Move.onward {write : Bool} (hm : Move write s s') (hs : Sound s) {e : ℕ} {r : Enrollment}
    (he : s.enrollments[e]? = some r) : ∃ r', s'.enrollments[e]? = some r' ∧ Onward r r' := by
  cases hm with
  | none | built | renewed | restricted | narrowed => exact ⟨r, he, .inl rfl⟩
  | configured i inst =>
    refine ⟨r, ?_, .inl rfl⟩
    unfold register
    cases s.control inst <;> exact he
  | adopted k w inst a d lease ids n out world hwrite hk hpc hlease hreg hcap hids htarget =>
    have hsucc := hs.verified hk hpc lease hlease
    have happ := adoptLease_application hs.wf w d ids world htarget hsucc
    generalize s.adoptLease w a d lease ids n out world = x at happ ⊢
    obtain ⟨s', b⟩ := x
    cases happ with
    | refused => exact ⟨r, he, .inl rfl⟩
    | adopted out' j next hc hret hout =>
      refine ⟨_, Heap.getElem?_modify_eq_some.mpr ⟨r, he, rfl⟩, ?_⟩
      split_ifs with hae
      · subst hae
        have hcurrent := (captured_spec hcap).2
        rw [he] at hcurrent
        obtain hcur : r.current = a.previous := Option.some.inj hcurrent
        exact .inr (hcur ▸ hsucc.advances)
      · exact .inl rfl

theorem onward_of_reaches (hs : Sound s) (h : (machine crypto).Reaches s s') {e : ℕ}
    {r : Enrollment} (he : s.enrollments[e]? = some r) :
    ∃ r', s'.enrollments[e]? = some r' ∧ Onward r r' := by
  refine (h.invariant (P := fun t => Sound t ∧ ∃ r', t.enrollments[e]? = some r' ∧ Onward r r') ?_
    ⟨hs, r, he, .inl rfl⟩).2
  rintro t ev t' o _ hstep ⟨ht, r', hr', hrr⟩
  refine ⟨step_sound ht hstep, ?_⟩
  obtain ⟨t₁, hm, hf, _⟩ := step_steps ht.wf hstep
  obtain ⟨r₁, hr₁, h₁⟩ := hm.onward ht hr'
  obtain ⟨r₂, hr₂, h₂⟩ := hf.enrollments hr₁
  exact ⟨r₂, hr₂, (hrr.trans h₁).trans (.inl h₂)⟩

/-- **A background renewal is adopted only into what it was selected for.**  Along every run: an
application leaves every lease and identity as it is, or the outbound of the captured lease adopts
its verified successor — the enrollment still registered with the captured identity, the record
without restriction, both identities on file — and enrollment and outbound agree afterwards; what a
worker is at, it selected at an earlier state; and the identities an enrollment accepts are of one
grant, and move forward. -/
theorem background_renewal_adoption_safe (crypto : Crypto) (disk : Path → Option (List Char))
    (s : Service) (hreach : (machine crypto).Reaches (init disk) s) :
    (∀ k world s' o, (machine crypto).step s (.applyRenewal k world) = some (s', o) →
      ∃ w a d, s.workers[k]? = some w ∧ w.pc = .adopting a d ∧
        (o = .applied false ∧ Unapplied s s' ∨
          o = .applied true ∧ ∃ lease inst n v v', Applied s s' k w a lease inst n v v')) ∧
    (∀ (k : ℕ) (w : Worker) (a : Attempt), s.workers[k]? = some w → w.pc.attempt = some a →
      ∃ s₀ s₁ order now fired o, (machine crypto).Reaches (init disk) s₀ ∧ s₀.Selected k a ∧
        (machine crypto).step s₀ (.nextRenewal k order now fired) = some (s₁, o) ∧
        (machine crypto).Reaches s₁ s) ∧
    ∀ s', (machine crypto).Reaches s s' → ∀ (e : ℕ) (r : Enrollment),
      s.enrollments[e]? = some r → ∃ r', s'.enrollments[e]? = some r' ∧ Onward r r' := by
  have hs := sound_of_reaches hreach
  exact ⟨fun k world s' o h => apply_cases hs h, fun k w a => selected_of_attempt hreach,
    fun s' h e r => onward_of_reaches hs h⟩

/-! ## A run -/

/-- An identity with these dates. -/
def sampleLease (id : Hex 32) (issued newUntil activeUntil : Date)
    (h : leaseBounds issued newUntil activeUntil = true) : LeaseIdentity where
  leaseID := id
  platform := .android
  audience := .lab
  serviceID := ⟨"service", by decide +kernel⟩
  providerID := ⟨"provider", by decide +kernel⟩
  permissionID := ⟨"permission", by decide +kernel⟩
  capabilityID := ⟨"capability", by decide +kernel⟩
  providerPolicyRevision := ⟨1, by decide, by decide⟩
  providerSecurityRevision := ⟨1, by decide, by decide⟩
  providerPolicySHA256 := sampleDigest
  issuedAt := issued
  newFlowsUntil := newUntil
  activeFlowsUntil := activeUntil
  profileSHA256 := sampleDigest
  routeMode := .selective
  runtimeScopeSHA256 := sampleDigest
  origin := .synthetic
  family := .ipv4
  feature := .webRequest
  providerRevision := ⟨1, by decide, by decide⟩
  permissionRevision := ⟨1, by decide, by decide⟩
  catalogRevision := ⟨1, by decide, by decide⟩
  catalogSecurityRevision := ⟨1, by decide, by decide⟩
  bounds := h

/-- The lease of the sample profile, and a successor three minutes later. -/
def firstLease : LeaseIdentity :=
  sampleLease (sampleHex 32 '0' (by decide +kernel)) (sampleDate "2026-01-01T00:00:00Z")
    (sampleDate "2026-01-01T00:05:00Z") (sampleDate "2026-01-01T00:10:00Z") (by decide +kernel)

@[inherit_doc firstLease] def nextLease : LeaseIdentity :=
  sampleLease (sampleHex 32 '1' (by decide +kernel)) (sampleDate "2026-01-01T00:03:00Z")
    (sampleDate "2026-01-01T00:08:00Z") (sampleDate "2026-01-01T00:13:00Z") (by decide +kernel)

/-- A renewal enrollment for the first hour of 2026. -/
def sampleRenewalConfig : RenewalConfig where
  profileDigest := sampleDigest
  capability := "pkr_src1.a.b"
  issuedAt := sampleDate "2026-01-01T00:00:00Z"
  expiresAt := sampleDate "2026-01-01T01:00:00Z"
  lease := firstLease

/-- Three minutes into 2026. -/
def laterClock : Sample := sampleClock.add (179 * Time.second)

/-- A response with the successor. -/
def sampleAnswer : Response where
  raw := (Json.obj [("schema", .str "smart-access-runtime-renewal-response-v1"),
    ("envelope", .obj [("algorithm", .str "Ed25519"), ("key_id", .str "key"),
      ("payload_sha256", .str sampleDigest.text),
      ("payload", .obj [("schema_version", .str "pokrov-smart-access-runtime-renewal-v1"),
        ("request_nonce", .str sampleNonce.text), ("capability_binding", .str sampleDigest.text),
        ("profile_digest", .str sampleDigest.text), ("platform", .str "android"),
        ("audience", .str "lab"), ("expected_lease_id", .str firstLease.leaseID.text),
        ("lease", nextLease.toJson)]),
      ("signature_b64", .str (String.ofList (List.replicate 86 'A')))])]).render
  nonce := sampleNonce
  started := laterClock
  now := laterClock

/-- The worker of the sample enrolls the lease, finds it due, and has its answer verified… -/
def sampleSelect : List Event :=
  sampleEnroll ++ [.configureRenewal sampleDigest.text sampleRenewalConfig
      ⟨sampleClock, sampleClock, fun _ => sampleClock, false, 1024⟩,
    .loop 0 laterClock laterClock false,
    .poll 0 (some (sampleDecision .current "2026-01-01T00:03:00Z" "2026-01-01T00:03:30Z"
      laterClock)),
    .applyControl 0 ⟨laterClock, laterClock, laterClock, laterClock⟩ false true,
    .nextRenewal 0 [sampleDigest] laterClock false,
    .pollRenewal 0 (some sampleAnswer)]

/-- …and applies it. -/
def sampleApply : Event :=
  .applyRenewal 0 ⟨laterClock, false, laterClock, false, laterClock, laterClock, false,
    ⟨laterClock, laterClock, laterClock⟩, true⟩

/-- The decisions of the two responses, and the attempt between them. -/
def sampleDecided : Decision :=
  ⟨.current, sampleDate "2026-01-01T00:03:30Z",
    laterClock.deadline (sampleDate "2026-01-01T00:03:30Z")⟩

@[inherit_doc sampleDecided] def sampleAttempt : Attempt :=
  ⟨0, firstLease, "pkr_src1.a.b", sampleControl.expiresAt,
    sampleClock.deadline sampleControl.expiresAt, sampleDecided⟩

@[inherit_doc sampleDecided] def sampleGrant : RenewalDecision :=
  ⟨.lease nextLease, nextLease.issuedAt, nextLease.newFlowsUntil,
    laterClock.deadline nextLease.newFlowsUntil⟩

/-- The sample between its two responses. -/
def sampleDue : Option Service :=
  ((machine sampleCrypto).run (init fun _ => none) (sampleSelect.take 5)).bind fun s =>
    (machine sampleCrypto).run (s.goto 0 (.deciding sampleDecided)) ((sampleSelect.drop 6).take 2)

theorem background_renewal_adoption_safe_sample :
    ∃ s s' w a d lease inst n v v', (machine sampleCrypto).Reaches (init fun _ => none) s ∧
      (machine sampleCrypto).step s sampleApply = some (s', .applied true) ∧
      s.workers[0]? = some w ∧ w.pc = .adopting a d ∧ Applied s s' 0 w a lease inst n v v' := by
  -- the responses are read by the round trip, and the run is evaluated around them
  have hpoll : ((machine sampleCrypto).run (init fun _ => none) (sampleSelect.take 5)).bind
      (fun s => s.workers[0]?.map standing) = some (.polling, sampleStanding) := by
    decide +kernel
  have hanswer : sampleDue.bind (fun s => s.workers[0]?.map standing) =
      some (.renewing sampleAttempt, sampleStanding) := by decide +kernel
  have happly : sampleDue.bind (fun s =>
      ((s.goto 0 (.adopting sampleAttempt sampleGrant)).step sampleCrypto sampleApply).map
        Prod.snd) = some (.applied true) := by decide +kernel
  obtain ⟨s₁, hs₁, hpoll⟩ := Option.bind_eq_some_iff.mp hpoll
  have hdecided : verify sampleCrypto sampleStanding.1 sampleStanding.2 (sampleDecision .current
      "2026-01-01T00:03:00Z" "2026-01-01T00:03:30Z" laterClock).raw sampleNonce laterClock
      laterClock = some sampleDecided := by
    unfold verify readEnvelope
    rw [show Json.parse (sampleDecision ..).raw = _ from Json.parse_render (by decide +kernel)]
    decide +kernel
  have hreach := reaches_poll (Machine.reaches_run hs₁) hpoll (by decide +kernel) hdecided
  obtain ⟨s, hs, happly⟩ := Option.bind_eq_some_iff.mp happly
  rw [hs] at hanswer
  rw [sampleDue, hs₁] at hs
  have hgranted : verifyRenewal sampleCrypto sampleStanding.1 sampleStanding.2 sampleAnswer.raw
      sampleNonce sampleAttempt laterClock laterClock = some sampleGrant := by
    unfold verifyRenewal readEnvelope
    rw [show Json.parse sampleAnswer.raw = _ from Json.parse_render (by decide +kernel)]
    decide +kernel
  have hreach := reaches_pollRenewal (hreach.trans (Machine.reaches_run hs)) hanswer
    ((Json.byteLength_render_le _).trans (by decide +kernel)) hgranted
  obtain ⟨⟨s', o⟩, hs', rfl⟩ := Option.map_eq_some_iff.mp happly
  obtain ⟨w, a, d, hk, hpc, ⟨ho, _⟩ | ⟨_, lease, inst, n, v, v', h⟩⟩ :=
    (background_renewal_adoption_safe sampleCrypto _ _ hreach).1 0 _ s' _ hs'
  · cases ho
  · exact ⟨_, s', w, a, d, lease, inst, n, v, v', hreach, hs', hk, hpc, h⟩

end Service

end PokrovCore.Daemon
