import PokrovCore.Daemon.ServiceMoves

/-!
# Daemon/WorkerPrograms — where the workers stand after an event

Only a worker's own steps move its program.  `step_attempt` is what matters of them later: a worker
comes to an attempt by selecting it, and carries it to its application by an answer that was
verified for it.
-/

namespace PokrovCore.Daemon

/-- The attempt a worker is at. -/
def WorkerPc.attempt : WorkerPc → Option Attempt
  | .renewing a | .adopting a _ => some a
  | _ => none

/-- A renewal decision that was verified for an attempt. -/
def Verified (a : Attempt) (d : RenewalDecision) : Prop :=
  ∀ lease, d.outcome = .lease lease → Succeeds a.previous lease

namespace Service

variable {crypto : Crypto} {s s' : Service}

/-! ## Calls that leave the workers and the journals alone -/

/-- The same workers and the same journals. -/
structure Untouched (s s' : Service) : Prop where
  workers : s'.workers = s.workers
  journals : s'.journals = s.journals

theorem build_untouched (s : Service) (profile : Profile) (built : Bool) (clock : ℕ → Sample) :
    Untouched s (s.build profile built clock).1 := by
  unfold build
  split <;> exact ⟨rfl, rfl⟩

theorem reload_untouched (s : Service) (profile : Profile) (built : Bool) (clock : ℕ → Sample) :
    Untouched s (s.reload profile built clock).1 := by
  have hbuild := s.build_untouched profile built clock
  unfold reload
  split_ifs
  · exact ⟨rfl, rfl⟩
  · exact ⟨rfl, rfl⟩
  · split
    · exact ⟨rfl, rfl⟩
    · exact ⟨hbuild.workers, hbuild.journals⟩

theorem reloadBuild_untouched (s : Service) (c : ℕ) (profile : Profile) (built : Bool)
    (clock : ℕ → Sample) : Untouched s (s.reloadBuild c profile built clock) := by
  have hbuild := s.build_untouched profile built clock
  unfold reloadBuild
  split_ifs
  · exact ⟨rfl, rfl⟩
  · exact ⟨hbuild.workers, hbuild.journals⟩

theorem reloadStarted_untouched (s : Service) (c : ℕ) (ok : Bool) :
    Untouched s (s.reloadStarted c ok) := by
  unfold reloadStarted
  dsimp only
  split_ifs <;> exact ⟨rfl, rfl⟩

theorem closeService_untouched (s : Service) (failure : Option String) :
    Untouched s (s.closeService failure).1 := by
  unfold closeService
  split
  · split
    · exact ⟨rfl, rfl⟩
    · cases failure <;> exact ⟨rfl, rfl⟩
  · exact ⟨rfl, rfl⟩

theorem close_untouched (s : Service) : Untouched s s.close := by
  unfold close
  split_ifs
  · exact ⟨rfl, rfl⟩
  · cases s.current <;> exact ⟨rfl, rfl⟩

theorem revokeRoutingCatalog_untouched (s : Service) : Untouched s s.revokeRoutingCatalog := by
  unfold revokeRoutingCatalog
  cases s.running <;> exact ⟨rfl, rfl⟩

theorem revokeSmartAccessPolicy_untouched (s : Service) (terminate : Bool) :
    Untouched s (s.revokeSmartAccessPolicy terminate).1 := by
  unfold revokeSmartAccessPolicy
  split <;> exact ⟨rfl, rfl⟩

theorem revokeSmartAccessLease_untouched (s : Service) (leaseID : String) (terminate : Bool) :
    Untouched s (s.revokeSmartAccessLease leaseID terminate).1 := by
  unfold revokeSmartAccessLease
  split
  · split <;> exact ⟨rfl, rfl⟩
  · exact ⟨rfl, rfl⟩

theorem nextRenewal_untouched (s : Service) (k : ℕ) (w : Worker) (d : Decision)
    (order : List Digest) (now : Sample) (fired : Bool) :
    Untouched s (s.nextSmartAccessRuntimeRenewal k w d order now fired).1 := by
  unfold nextSmartAccessRuntimeRenewal
  split
  · exact ⟨rfl, rfl⟩
  split
  · exact ⟨rfl, rfl⟩
  split <;> exact ⟨rfl, rfl⟩

/-! ## Where the workers stand -/

/-- **Every worker stands where it stood**, or is new, at the head of its loop. -/
def StandsStill (s s' : Service) : Prop :=
  ∀ (k : ℕ) (w' : Worker), s'.workers[k]? = some w' →
    (∃ w, s.workers[k]? = some w ∧ w'.pc = w.pc) ∨ w'.pc = .head

theorem standsStill_of_eq (h : s'.workers = s.workers) : StandsStill s s' := fun k w' hk =>
  Or.inl ⟨w', by rwa [← h], rfl⟩

theorem StandsStill.trans {s₁ : Service} (h : StandsStill s s₁) (h' : StandsStill s₁ s') :
    StandsStill s s' := fun k w' hk => by
  rcases h' k w' hk with ⟨w₁, hk₁, hpc⟩ | hhead
  · rcases h k w₁ hk₁ with ⟨w, hkw, hpc₁⟩ | hhead
    · exact .inl ⟨w, hkw, hpc.trans hpc₁⟩
    · exact .inr (hpc.trans hhead)
  · exact .inr hhead

variable {k : ℕ}

theorem standsStill_modifyWorker {f : Worker → Worker} (hf : ∀ w, (f w).pc = w.pc) :
    StandsStill s (s.modifyWorker k f) := fun k' w' hk => by
  obtain ⟨w, hw, rfl⟩ := Heap.getElem?_modify_eq_some.mp hk
  refine .inl ⟨w, hw, ?_⟩
  split_ifs
  · exact hf w
  · rfl

theorem standsStill_register (s : Service) (i : ℕ) (previous : Option (ℕ × Worker)) {w : Worker}
    (j : Journal) (hw : w.pc = .head) : StandsStill s (s.register i previous w j) := by
  have hold : StandsStill s
      (previous.elim s fun p => s.modifyWorker p.1 ({ · with cancelled := true })) := by
    cases previous with
    | none => exact standsStill_of_eq rfl
    | some p => exact standsStill_modifyWorker fun _ => rfl
  intro k w' hk
  rcases Heap.getElem?_concat.mp hk with hk | ⟨_, rfl⟩
  · exact hold k w' hk
  · exact .inr hw

theorem standsStill_configureControl (s : Service) (profileDigest : String)
    (config : ControlConfig) (world : ConfigureWorld) :
    StandsStill s (s.configureSmartAccessRuntimeControl profileDigest config world).1 := by
  have hsame : StandsStill s s := standsStill_of_eq rfl
  unfold configureSmartAccessRuntimeControl
  split
  · exact hsame
  split
  · exact hsame
  split
  · exact hsame
  split
  · exact hsame
  split
  · exact hsame
  unfold enroll
  split
  · exact hsame
  split
  · exact hsame
  split
  · exact hsame
  split
  · exact standsStill_of_eq rfl
  · exact s.standsStill_register _ _ _ rfl

theorem standsStill_configureRenewal (s : Service) (profileDigest : String)
    (config : RenewalConfig) (world : EnrollWorld) :
    StandsStill s (s.configureSmartAccessRenewal profileDigest config world).1 := by
  have hsame : StandsStill s s := standsStill_of_eq rfl
  have hadd : ∀ (t : Service) (k : ℕ) (renewals : SortedMap Digest ℕ) (deadline : Sample),
      StandsStill t (t.addEnrollment k renewals config deadline world.size).1 := by
    intro t k renewals deadline
    unfold addEnrollment
    dsimp only
    split
    · exact standsStill_of_eq rfl
    split
    · exact standsStill_of_eq rfl
    · exact standsStill_modifyWorker fun _ => rfl
  unfold configureSmartAccessRenewal
  split
  · exact hsame
  split
  · exact hsame
  split
  · exact hsame
  split
  · exact hsame
  split
  · dsimp only
    split
    · have hfiltered : ∀ {t : Service} {k : ℕ} {renewals : SortedMap Digest ℕ},
          StandsStill t (t.modifyWorker k ({ · with renewals })) :=
        standsStill_modifyWorker fun _ => rfl
      exact ((standsStill_of_eq rfl).trans hfiltered).trans (hadd _ _ _ _)
    · exact standsStill_of_eq rfl
  · exact hsame

theorem applyControl_standsStill (s : Service) (k : ℕ) (w : Worker) (d : Decision)
    (clock : ControlClock) (fired write : Bool) :
    StandsStill s (s.applySmartAccessRuntimeControl k w d clock fired write) := by
  unfold applySmartAccessRuntimeControl
  split
  · exact standsStill_modifyWorker fun _ => rfl
  · exact standsStill_of_eq rfl

theorem adoptLease_workers (s : Service) (w : Worker) (a : Attempt) (d : RenewalDecision)
    (lease : LeaseIdentity) (ids : List String) (n : ℕ) (out : SmartAccess.World)
    (world : ApplyWorld) : (s.adoptLease w a d lease ids n out world).1.workers = s.workers := by
  unfold adoptLease
  dsimp only
  split_ifs <;> rfl

theorem applyRenewal_standsStill (s : Service) (k : ℕ) (w : Worker) (a : Attempt)
    (d : RenewalDecision) (world : ApplyWorld) :
    StandsStill s (s.applySmartAccessRuntimeRenewal k w a d world).1 := by
  unfold applySmartAccessRuntimeRenewal
  split
  · exact standsStill_of_eq rfl
  split
  · split
    · split
      · exact standsStill_modifyWorker fun _ => rfl
      · exact standsStill_of_eq (adoptLease_workers ..)
    · exact standsStill_of_eq rfl
  · exact standsStill_of_eq rfl

/-! ## How a worker comes to an attempt -/

variable {a : Attempt}

/-- The renewal decision of a response is verified. -/
theorem verified_of_decideRenewal {w : Worker} {r : Response} {d : RenewalDecision}
    (h : decideRenewal? crypto w a r = some d) : Verified a d := fun _ hlease =>
  (verifyRenewal_lease (Option.ite_none_right_eq_some.mp h).2 hlease).1

/-- **The ways to an attempt**: the worker stood there, it has just selected the attempt, or its
answer was just verified. -/
inductive Comes (crypto : Crypto) (s : Service) (e : Event) (k : ℕ) (pc : WorkerPc) (a : Attempt) :
    Prop
  | stands (w : Worker) (hk : s.workers[k]? = some w) (hpc : pc = w.pc)
  | selects (w : Worker) (d : Decision) (order : List Digest) (now : Sample) (fired : Bool)
    (hk : s.workers[k]? = some w) (he : e = .nextRenewal k order now fired) (hpc : pc = .renewing a)
    (hnext : (s.nextSmartAccessRuntimeRenewal k w d order now fired).2 = some a)
  | verifies (w : Worker) (d : RenewalDecision) (hk : s.workers[k]? = some w)
    (hw : w.pc = .renewing a) (hpc : pc = .adopting a d) (hd : Verified a d)

variable {w' : Worker} {e : Event}

theorem StandsStill.comes (h : StandsStill s s') (hk : s'.workers[k]? = some w')
    (ha : w'.pc.attempt = some a) : Comes crypto s e k w'.pc a := by
  rcases h k w' hk with ⟨w, hw, hpc⟩ | hhead
  · exact .stands w hw hpc
  · rw [hhead] at ha
    cases ha

variable {k₀ : ℕ}

/-- A worker moves on; it comes to an attempt only as its new place says. -/
theorem StandsStill.comes_modify (h : StandsStill s s') {pc : WorkerPc} {f : Worker → Worker}
    (hk : (s'.modifyWorker k₀ f).workers[k]? = some w') (hf : ∀ w, (f w).pc = pc)
    (ha : w'.pc.attempt = some a) (hpc : pc.attempt = some a → Comes crypto s e k₀ pc a) :
    Comes crypto s e k w'.pc a := by
  obtain ⟨w₁, hk₁, rfl⟩ := Heap.getElem?_modify_eq_some.mp hk
  split_ifs at ha ⊢ with hkk
  · subst hkk
    rw [hf] at ha ⊢
    exact hpc ha
  · exact h.comes hk₁ ha

theorem StandsStill.comes_goto (h : StandsStill s s') {pc : WorkerPc}
    (hk : (s'.goto k₀ pc).workers[k]? = some w') (ha : w'.pc.attempt = some a)
    (hpc : pc.attempt = some a → Comes crypto s e k₀ pc a) :
    Comes crypto s e k w'.pc a :=
  h.comes_modify hk (fun _ => rfl) ha hpc

theorem stepWorker_attempt {w₀ : Worker} (hk₀ : s.workers[k₀]? = some w₀) {o : Output}
    (h : s.stepWorker crypto k₀ w₀ e = some (s', o))
    (he : ∀ {k : ℕ} {order : List Digest} {now : Sample} {fired : Bool},
      e = .nextRenewal k order now fired → k = k₀) (hk : s'.workers[k]? = some w')
    (ha : w'.pc.attempt = some a) :
    Comes crypto s e k w'.pc a := by
  have hsame : StandsStill s s := standsStill_of_eq rfl
  cases e with
  | loop | wait =>
    obtain ⟨_, rfl⟩ := Machine.guarded h
    refine hsame.comes_goto hk ha fun hpc => ?_
    split_ifs at hpc <;> cases hpc
  | poll _ response =>
    obtain ⟨_, rfl⟩ := Machine.guarded h
    refine hsame.comes_goto hk ha fun hpc => ?_
    cases hd : response.bind (decide? crypto w₀) <;> rw [hd] at hpc <;> cases hpc
  | applyControl _ clock fired write =>
    dsimp only [stepWorker] at h
    split at h
    · obtain rfl := Machine.state_eq h
      exact (s.applyControl_standsStill k₀ w₀ _ clock fired write).comes_goto hk ha
        fun hpc => by cases hpc
    · cases h
  | nextRenewal k₁ order now fired =>
    obtain rfl := he rfl
    dsimp only [stepWorker] at h
    split at h
    · rename_i d _
      obtain ⟨_, rfl⟩ := Machine.guarded h
      refine (standsStill_of_eq (nextRenewal_untouched ..).workers).comes_goto hk ha
        fun hpc => ?_
      cases hnext : (s.nextSmartAccessRuntimeRenewal k₁ w₀ d order now fired).2 with
      | none =>
        rw [hnext] at hpc
        cases hpc
      | some a' =>
        rw [hnext] at hpc
        obtain rfl := Option.some.inj hpc
        exact .selects w₀ d order now fired hk₀ rfl rfl hnext
    · cases h
  | pollRenewal _ response =>
    dsimp only [stepWorker] at h
    split at h
    · rename_i a₀ hrenewing
      obtain rfl := Machine.state_eq h
      refine hsame.comes_goto hk ha fun hpc => ?_
      cases hd : response.bind (decideRenewal? crypto w₀ a₀) with
      | none =>
        rw [hd] at hpc
        cases hpc
      | some d =>
        rw [hd] at hpc
        obtain rfl := Option.some.inj hpc
        obtain ⟨r, _, hr⟩ := Option.bind_eq_some_iff.mp hd
        exact .verifies w₀ d hk₀ hrenewing rfl (verified_of_decideRenewal hr)
    · cases h
  | applyRenewal _ world =>
    dsimp only [stepWorker] at h
    split at h
    · obtain rfl := Machine.state_eq h
      exact (s.applyRenewal_standsStill k₀ w₀ _ _ world).comes_goto hk ha
        fun hpc => by cases hpc
    · cases h
  | finish _ write =>
    obtain ⟨_, rfl⟩ := Machine.guarded h
    exact hsame.comes_modify hk (fun _ => rfl) ha fun hpc => by cases hpc
  | reload | reloadClose | reloadBuild | reloadStarted | closeService | close | setError | traffic
  | revokeRoutingCatalog | revokeSmartAccessPolicy | revokeSmartAccessLease
  | renewSmartAccessLease | configureControl | configureRenewal | readRestrictions
  | acknowledge => cases h

/-- **A worker comes to an attempt in one of these ways.** -/
theorem step_attempt {o : Output} (h : s.step crypto e = some (s', o))
    (hk : s'.workers[k]? = some w') (ha : w'.pc.attempt = some a) :
    Comes crypto s e k w'.pc a := by
  -- an event that leaves every worker where it stands
  have hstill : ∀ {t : Service} {o' : Output}, some (t, o') = some (s', o) → StandsStill s t →
      Comes crypto s e k w'.pc a := fun heq ht => by
    obtain rfl := Machine.state_eq heq
    exact ht.comes hk ha
  have huntouched : ∀ {t : Service} {o' : Output}, some (t, o') = some (s', o) → Untouched s t →
      Comes crypto s e k w'.pc a := fun heq ht => hstill heq (standsStill_of_eq ht.workers)
  cases e with
  | reload => exact huntouched h (s.reload_untouched ..)
  | reloadClose c =>
    dsimp only [step] at h
    split at h
    · exact hstill h (standsStill_of_eq rfl)
    · cases h
  | reloadBuild c built clock =>
    dsimp only [step] at h
    split at h
    · exact huntouched h (s.reloadBuild_untouched ..)
    · cases h
  | reloadStarted c ok =>
    dsimp only [step] at h
    split at h
    · exact huntouched h (s.reloadStarted_untouched ..)
    · cases h
  | closeService => exact huntouched h (s.closeService_untouched _)
  | close => exact huntouched h s.close_untouched
  | setError => exact hstill h (standsStill_of_eq rfl)
  | traffic i n e =>
    obtain ⟨_, _, h⟩ := Option.bind_eq_some_iff.mp h
    obtain ⟨_, _, h⟩ := Option.bind_eq_some_iff.mp h
    obtain ⟨_, _, h⟩ := Option.bind_eq_some_iff.mp h
    obtain ⟨_, h⟩ := Option.ite_none_right_eq_some.mp h
    exact hstill h (standsStill_of_eq rfl)
  | revokeRoutingCatalog => exact huntouched h s.revokeRoutingCatalog_untouched
  | revokeSmartAccessPolicy => exact huntouched h (s.revokeSmartAccessPolicy_untouched _)
  | revokeSmartAccessLease => exact huntouched h (s.revokeSmartAccessLease_untouched _ _)
  | renewSmartAccessLease expectedID grant clock write =>
    refine hstill h (standsStill_of_eq ?_)
    unfold renewSmartAccessLease
    split
    · split <;> rfl
    · rfl
  | configureControl => exact hstill h (s.standsStill_configureControl _ _ _)
  | configureRenewal => exact hstill h (s.standsStill_configureRenewal _ _ _)
  | readRestrictions => exact hstill h (standsStill_of_eq rfl)
  | acknowledge => exact hstill h (standsStill_of_eq rfl)
  | loop k₀ | poll k₀ | applyControl k₀ | pollRenewal k₀ | applyRenewal k₀ | wait k₀ | finish k₀ =>
    obtain ⟨w₀, hk₀, h⟩ := Option.bind_eq_some_iff.mp h
    exact stepWorker_attempt hk₀ h (fun he => by cases he) hk ha
  | nextRenewal k₀ =>
    obtain ⟨w₀, hk₀, h⟩ := Option.bind_eq_some_iff.mp h
    exact stepWorker_attempt hk₀ h (fun he => by cases he; rfl) hk ha

end Service

end PokrovCore.Daemon
