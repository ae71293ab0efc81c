import PokrovCore.Daemon.WorkerPrograms

/-!
# Daemon/ServiceInvariants — what every run of the service keeps

* `step_changes` — an event other than an acknowledgement makes changes to the journals and nothing
  else; so every journal of a run is well-formed.
* `sound_of_reaches` — that, and that a worker applies only what was verified for it.
* `invariant_of_steps` — the rule the invariants of the service are proved by.
-/

namespace PokrovCore.Daemon.Service

open Journal (Changes)

variable {crypto : Crypto} {s s' : Service}

/-! ## Journals -/

theorem addEnrollment_journals (s : Service) (k : ℕ) (renewals : SortedMap Digest ℕ)
    (config : RenewalConfig) (deadline : Sample) (size : ℕ) :
    (s.addEnrollment k renewals config deadline size).1.journals = s.journals := by
  unfold addEnrollment
  dsimp only
  split
  · rfl
  · split_ifs <;> rfl

theorem configureRenewal_journals (s : Service) (profileDigest : String) (config : RenewalConfig)
    (world : EnrollWorld) :
    (s.configureSmartAccessRenewal profileDigest config world).1.journals = s.journals := by
  unfold configureSmartAccessRenewal
  split
  · rfl
  split
  · rfl
  split
  · rfl
  split
  · rfl
  split
  · dsimp only
    split
    · exact addEnrollment_journals _ _ _ _ _ _
    · rfl
  · rfl

theorem changes_putJournal {q : Path} {j : Journal} (h : Changes (s.journals q) j) (q' : Path) :
    Changes (s.journals q') (Function.update s.journals q j q') :=
  (Function.forall_update_iff s.journals fun q j => Changes (s.journals q) j).mpr
    ⟨h, fun _ _ => .refl⟩ q'

theorem retainExpiry_changes (control : Option (ℕ × Worker)) (write : Bool) (d : Date)
    (st : Bound) (q : Path) : Changes (st.2 q) ((retainExpiry control write d st).1.2 q) := by
  unfold retainExpiry
  split
  · exact .refl
  split
  · exact .refl
  rename_i k w
  have hc := Journal.extendExpiry_changes w.config.profileDigest w.journalGeneration d write
    (st.2 w.journal)
  have hq : ∀ j, Changes (st.2 w.journal) j →
      Changes (st.2 q) (Function.update st.2 w.journal j q) := fun j hj =>
    (Function.forall_update_iff st.2 fun q j => Changes (st.2 q) j).mpr ⟨hj, fun _ _ => .refl⟩ q
  split <;> rename_i heq <;> rw [heq] at hc <;> exact hq _ hc

theorem renewed_changes {control : Option (ℕ × Worker)} {write : Bool} {expectedID : String}
    {grant : SmartAccess.Grant} {ws ws' : List SmartAccess.World} {st st' : Bound}
    (h : RenewedLeases (retainExpiry control write) expectedID grant ws st ws' st') (q : Path) :
    Changes (st.2 q) (st'.2 q) := by
  cases h with
  | untouched h => exact .refl
  | retained h d b hret =>
    have := retainExpiry_changes control write d st q
    rwa [hret] at this
  | adopted m w w' clock next hw hc hret =>
    have := retainExpiry_changes control write next.activeUntil st q
    rwa [hret] at this

theorem retainBoth_changes (s : Service) (w : Worker) (a : Attempt) (d : RenewalDecision)
    (lease : LeaseIdentity) (ids : List String) (world : ApplyWorld) (date : Date) (j : Journal) :
    Changes j (s.retainBoth w a d lease ids world date j).1 := by
  have hc := Journal.retainRenewal_changes w.config.profileDigest w.journalGeneration a.previous
    lease (ids.filterMap (Hex.ofString? 32)) world.retain world.write j
  unfold retainBoth
  split
  · split <;> rename_i heq <;> rw [heq] at hc <;> exact hc
  · exact .refl

theorem adoptLease_changes (s : Service) (w : Worker) (a : Attempt) (d : RenewalDecision)
    (lease : LeaseIdentity) (ids : List String) (n : ℕ) (out : SmartAccess.World)
    (world : ApplyWorld) (q : Path) :
    Changes (s.journals q) ((s.adoptLease w a d lease ids n out world).1.journals q) := by
  have hstep := (out.outbound.renewLease_step a.previous.leaseID.text (grantOf lease) world.renew
    (s.retainBoth w a d lease ids world) (s.journals w.journal)).callback
  unfold adoptLease
  generalize out.outbound.renewLease a.previous.leaseID.text (grantOf lease) world.renew
    (s.retainBoth w a d lease ids world) (s.journals w.journal) = r at hstep ⊢
  have hr : Changes (s.journals w.journal) r.2.1 := by
    rcases hstep with h | ⟨date, b, h⟩
    · rw [h]
    · have := s.retainBoth_changes w a d lease ids world date (s.journals w.journal)
      rwa [h] at this
  dsimp only
  split_ifs <;> exact changes_putJournal hr q

theorem applyControl_changes (s : Service) (k : ℕ) (w : Worker) (d : Decision)
    (clock : ControlClock) (fired write : Bool) (q : Path) :
    Changes (s.journals q)
      ((s.applySmartAccessRuntimeControl k w d clock fired write).journals q) := by
  unfold applySmartAccessRuntimeControl
  split_ifs
  · exact changes_putJournal (Journal.restrict_changes _ _ _ write _) q
  · exact .refl

theorem applyRenewal_changes (hwf : ∀ q, (s.journals q).Wf) (k : ℕ) (w : Worker) (a : Attempt)
    (d : RenewalDecision) (world : ApplyWorld) (q : Path) :
    Changes (s.journals q)
      ((s.applySmartAccessRuntimeRenewal k w a d world).1.journals q) := by
  unfold applySmartAccessRuntimeRenewal
  split
  · exact .refl
  split
  · split
    · split
      · exact changes_putJournal
          (Journal.restrictScope_changes _ _ _ _ _ _ (hwf w.journal).loadable) q
      · exact s.adoptLease_changes w a d _ _ _ _ world q
    · exact .refl
  · exact .refl

theorem enroll_changes (s : Service) (i : ℕ) (inst : Instance) (config : ControlConfig)
    (deadline : Sample) (world : ConfigureWorld) (q : Path) :
    Changes (s.journals q) ((s.enroll i inst config deadline world).1.journals q) := by
  unfold enroll
  split
  · exact .refl
  split
  · exact .refl
  split
  · exact .refl
  rename_i q₀ _
  have hc := Journal.begin_changes config.profileDigest config.catalogSHA256
    inst.smartAccessRestrictionExpires world.rand world.read world.write (s.journals q₀)
  split <;> rename_i heq <;> rw [heq] at hc
  · exact changes_putJournal hc q
  · unfold register
    dsimp only [modifyInstance, putJournal]
    cases s.control inst <;> exact changes_putJournal hc q

theorem configureControl_changes (s : Service) (profileDigest : String) (config : ControlConfig)
    (world : ConfigureWorld) (q : Path) :
    Changes (s.journals q)
      ((s.configureSmartAccessRuntimeControl profileDigest config world).1.journals q) := by
  unfold configureSmartAccessRuntimeControl
  split
  · exact .refl
  split
  · exact .refl
  split
  · exact .refl
  split
  · exact .refl
  split
  · exact .refl
  · exact s.enroll_changes _ _ _ _ _ q

variable {o : Output} {e : Event}

theorem stepWorker_changes (hwf : ∀ q, (s.journals q).Wf) {k : ℕ} {w : Worker}
    (h : s.stepWorker crypto k w e = some (s', o)) (q : Path) :
    Changes (s.journals q) (s'.journals q) := by
  cases e with
  | loop | poll | wait =>
    obtain ⟨_, rfl⟩ := Machine.guarded h
    exact .refl
  | applyControl _ clock fired write =>
    dsimp only [stepWorker] at h
    split at h
    · obtain rfl := Machine.state_eq h
      exact s.applyControl_changes k w _ clock fired write q
    · cases h
  | nextRenewal _ order now fired =>
    dsimp only [stepWorker] at h
    split at h
    · obtain ⟨_, rfl⟩ := Machine.guarded h
      show Changes (s.journals q)
        ((s.nextSmartAccessRuntimeRenewal k w _ order now fired).1.journals q)
      rw [(nextRenewal_untouched ..).journals]
    · cases h
  | pollRenewal _ response =>
    dsimp only [stepWorker] at h
    split at h
    · obtain rfl := Machine.state_eq h
      exact .refl
    · cases h
  | applyRenewal _ world =>
    dsimp only [stepWorker] at h
    split at h
    · obtain rfl := Machine.state_eq h
      exact applyRenewal_changes hwf k w _ _ world q
    · cases h
  | finish _ write =>
    obtain ⟨_, rfl⟩ := Machine.guarded h
    exact changes_putJournal (Journal.finish_changes _ _ write _ (hwf w.journal)) q
  | reload | reloadClose | reloadBuild | reloadStarted | closeService | close | setError | traffic
  | revokeRoutingCatalog | revokeSmartAccessPolicy | revokeSmartAccessLease
  | renewSmartAccessLease | configureControl | configureRenewal | readRestrictions
  | acknowledge => cases h

/-- **Every event but an acknowledgement makes changes to the journals, and nothing else.** -/
theorem step_changes (hwf : ∀ q, (s.journals q).Wf) (h : s.step crypto e = some (s', o))
    (hne : ∀ q d a b c, e ≠ .acknowledge q d a b c) (q : Path) :
    Changes (s.journals q) (s'.journals q) := by
  -- an event that leaves the journals alone
  have hsame : ∀ {t : Service}, t.journals = s.journals → Changes (s.journals q) (t.journals q) :=
    fun ht => by rw [ht]
  cases e with
  | reload profile built clock =>
    obtain rfl := Machine.state_eq h
    exact hsame (s.reload_untouched profile built clock).journals
  | reloadClose c =>
    dsimp only [step] at h
    split at h
    · obtain rfl := Machine.state_eq h
      exact hsame rfl
    · cases h
  | reloadBuild c built clock =>
    dsimp only [step] at h
    split at h
    · obtain rfl := Machine.state_eq h
      exact hsame (s.reloadBuild_untouched c _ built clock).journals
    · cases h
  | reloadStarted c ok =>
    dsimp only [step] at h
    split at h
    · obtain rfl := Machine.state_eq h
      exact hsame (s.reloadStarted_untouched c ok).journals
    · cases h
  | closeService failure =>
    obtain rfl := Machine.state_eq h
    exact hsame (s.closeService_untouched failure).journals
  | close =>
    obtain rfl := Machine.state_eq h
    exact hsame s.close_untouched.journals
  | setError =>
    obtain rfl := Machine.state_eq h
    exact hsame rfl
  | traffic i n e =>
    obtain ⟨inst, _, h⟩ := Option.bind_eq_some_iff.mp h
    obtain ⟨w, _, h⟩ := Option.bind_eq_some_iff.mp h
    obtain ⟨r, _, h⟩ := Option.bind_eq_some_iff.mp h
    obtain ⟨_, rfl⟩ := Machine.guarded h
    exact hsame rfl
  | revokeRoutingCatalog =>
    obtain rfl := Machine.state_eq h
    exact hsame s.revokeRoutingCatalog_untouched.journals
  | revokeSmartAccessPolicy terminate =>
    obtain rfl := Machine.state_eq h
    exact hsame (s.revokeSmartAccessPolicy_untouched terminate).journals
  | revokeSmartAccessLease leaseID terminate =>
    obtain rfl := Machine.state_eq h
    exact hsame (s.revokeSmartAccessLease_untouched leaseID terminate).journals
  | renewSmartAccessLease expectedID grant clock write =>
    obtain rfl := Machine.state_eq h
    unfold renewSmartAccessLease
    split
    · split
      · exact .refl
      · rename_i i inst _
        exact renewed_changes (renewFirst_renewed (retainExpiry (s.control inst) write) expectedID
          grant clock 0 inst.leases (inst.smartAccessRestrictionExpires, s.journals)) q
    · exact .refl
  | configureControl profileDigest config world =>
    obtain rfl := Machine.state_eq h
    exact s.configureControl_changes profileDigest config world q
  | configureRenewal profileDigest config world =>
    obtain rfl := Machine.state_eq h
    exact hsame (s.configureRenewal_journals profileDigest config world)
  | readRestrictions q' read write =>
    obtain rfl := Machine.state_eq h
    exact changes_putJournal (Journal.snapshotLocked_changes crypto.sha256 read write _) q
  | acknowledge q' d a b c => exact absurd rfl (hne q' d a b c)
  | loop k | poll k | applyControl k | nextRenewal k | pollRenewal k | applyRenewal k | wait k
  | finish k =>
    obtain ⟨w, _, h⟩ := Option.bind_eq_some_iff.mp h
    exact stepWorker_changes hwf h q

/-- An acknowledgement moves its own journal only. -/
theorem step_acknowledge {q : Path} {d : String} {a b c : Bool}
    (h : s.step crypto (.acknowledge q d a b c) = some (s', o)) :
    s'.journals = Function.update s.journals q
        ((s.journals q).acknowledge crypto.sha256 d a b c).1 ∧
      o = .acknowledged ((s.journals q).acknowledge crypto.sha256 d a b c).2 := by
  obtain ⟨rfl, rfl⟩ := Prod.mk.inj (Option.some.inj h)
  exact ⟨rfl, rfl⟩

theorem step_wf (hwf : ∀ q, (s.journals q).Wf) (h : s.step crypto e = some (s', o)) (q : Path) :
    (s'.journals q).Wf := by
  by_cases hack : ∃ q d a b c, e = .acknowledge q d a b c
  · obtain ⟨q', d, a, b, c, rfl⟩ := hack
    rw [(step_acknowledge h).1]
    exact (Function.forall_update_iff s.journals fun _ j => j.Wf).mpr
      ⟨(Ledger.acknowledge_move crypto.sha256 d a b c _).wf (hwf q'), fun q _ => hwf q⟩ q
  · exact (step_changes hwf h (fun q' d a b c he => hack ⟨q', d, a, b, c, he⟩) q).wf (hwf q)

/-! ## The rule -/

/-- **What every state of a run is**: its journals are well-formed, and the decisions its workers
are about to apply are verified. -/
structure Sound (s : Service) : Prop where
  wf : ∀ q, (s.journals q).Wf
  verified : ∀ {k : ℕ} {w : Worker} {a : Attempt} {d : RenewalDecision},
    s.workers[k]? = some w → w.pc = .adopting a d → Verified a d

theorem sound_init (disk : Path → Option (List Char)) : Sound (init disk) where
  wf q := Journal.wf_fresh (disk q)
  verified h := by cases h

theorem step_sound (hs : Sound s) (h : s.step crypto e = some (s', o)) :
    Sound s' where
  wf := step_wf hs.wf h
  verified {k w a d} hk hpc := by
    have ha : w.pc.attempt = some a := by rw [hpc]; rfl
    cases step_attempt h hk ha with
    | stands w₀ hk₀ heq => exact hs.verified hk₀ (heq.symm.trans hpc)
    | selects _ _ _ _ _ _ _ heq => cases hpc.symm.trans heq
    | verifies _ d' _ _ heq hd =>
      obtain ⟨_, rfl⟩ := WorkerPc.adopting.inj (hpc.symm.trans heq)
      exact hd

variable {disk : Path → Option (List Char)}

theorem sound_of_reaches (h : (machine crypto).Reaches (init disk) s) : Sound s :=
  h.invariant (fun _ _ _ _ _ hs h => step_sound h hs) (sound_init disk)

/-- **The rule for invariants of the service**: what moves and frames keep, every run keeps. -/
theorem invariant_of_steps {P : Service → Prop} (hinit : P (init disk))
    (hmove : ∀ write s s', Sound s → P s → Move write s s' → P s')
    (hframe : ∀ s s', P s → Frame s s' → P s') (h : (machine crypto).Reaches (init disk) s) :
    P s := by
  refine (h.invariant (P := fun s => Sound s ∧ P s) (fun a e b o _ hs ha => ⟨step_sound ha.1 hs, ?_⟩)
    ⟨sound_init disk, hinit⟩).2
  obtain ⟨s₁, hm, hf, _⟩ := step_steps ha.1.wf hs
  exact hframe s₁ b (hmove _ a s₁ ha.1 ha.2 hm) hf

end PokrovCore.Daemon.Service
