import PokrovCore.Daemon.JournalKept
import PokrovCore.Daemon.ServiceRuns
import PokrovCore.Foundations.Heap
import PokrovCore.SmartAccess.Invariants

/-!
# Daemon/ServiceMoves — everything an event can do to the service

Most events only frame: they age outbounds, move programs on, keep every live worker of every
journal.  The others make one move first — a new instance, a new worker, a renewal by the host, an
application of a decision, of a restriction or of a renewal — and frame afterwards (`step_move`).
A property of all runs is proved over `Move` and `Frame`, and never over the events.
-/

namespace PokrovCore.Daemon

open SmartAccess (World Grant RenewClock RenewOutcome)

/-! ## Framing -/

/-- No outbound adopted a generation. -/
abbrev SteadyLeases : List World → List World → Prop :=
  List.Forall₂ fun w w' => w.outbound.Steady w'.outbound

theorem steadyLeases_refl (ws : List World) : SteadyLeases ws ws :=
  Heap.forall₂_refl (fun w => .refl w.outbound) ws

/-- An instance with its outbounds aged. -/
structure Instance.Kept (i i' : Instance) : Prop where
  profile : i'.profile = i.profile
  control : i'.smartAccessControl = i.smartAccessControl
  expires : i'.smartAccessRestrictionExpires = i.smartAccessRestrictionExpires
  leases : SteadyLeases i.leases i'.leases

variable (i : Instance)

theorem Instance.Kept.refl : i.Kept i := ⟨rfl, rfl, rfl, steadyLeases_refl _⟩

theorem Instance.Kept.trans {a b c : Instance} (h : a.Kept b) (h' : b.Kept c) : a.Kept c :=
  ⟨h'.profile.trans h.profile, h'.control.trans h.control, h'.expires.trans h.expires,
    Heap.forall₂_trans (fun _ _ _ => .trans) h.leases h'.leases⟩

/-- A worker that moved on: what it stands for, and what it has done, is as it was. -/
structure Worker.Kept (w w' : Worker) : Prop where
  config : w'.config = w.config
  box : w'.box = w.box
  journal : w'.journal = w.journal
  generation : w'.journalGeneration = w.journalGeneration
  entered : w'.entered = w.entered
  effects : w'.effects = w.effects

theorem Worker.Kept.refl (w : Worker) : w.Kept w := ⟨rfl, rfl, rfl, rfl, rfl, rfl⟩

theorem Worker.Kept.trans {a b c : Worker} (h : a.Kept b) (h' : b.Kept c) : a.Kept c :=
  ⟨h'.config.trans h.config, h'.box.trans h.box, h'.journal.trans h.journal,
    h'.generation.trans h.generation, h'.entered.trans h.entered, h'.effects.trans h.effects⟩

namespace Service

/-- **The frame of most events.** -/
structure Frame (s s' : Service) : Prop where
  current : s'.current = s.current ∨ s'.current = none
  instances : List.Forall₂ Instance.Kept s.instances s'.instances
  workers : List.Forall₂ Worker.Kept s.workers s'.workers
  enrollments : ∀ {e : ℕ} {r : Enrollment}, s.enrollments[e]? = some r →
    ∃ r' : Enrollment, s'.enrollments[e]? = some r' ∧ r'.current = r.current
  journals : ∀ q, Journal.Kept Carries (s.journals q) (s'.journals q)

/-- A frame in which only the named components are touched. -/
theorem frame_of_eq {s s' : Service} (hc : s'.current = s.current ∨ s'.current = none)
    (hi : List.Forall₂ Instance.Kept s.instances s'.instances)
    (hw : List.Forall₂ Worker.Kept s.workers s'.workers)
    (he : s'.enrollments = s.enrollments) (hj : s'.journals = s.journals) : Frame s s' where
  current := hc
  instances := hi
  workers := hw
  enrollments {e r} h := by
    rw [he]
    exact ⟨r, h, rfl⟩
  journals q := by
    rw [hj]
    exact .refl Carries.refl _

theorem Frame.refl (s : Service) : Frame s s :=
  frame_of_eq (.inl rfl) (Heap.forall₂_refl Instance.Kept.refl _)
    (Heap.forall₂_refl Worker.Kept.refl _) rfl rfl

theorem Frame.trans {a b c : Service} (h : Frame a b) (h' : Frame b c) : Frame a c where
  current := by
    rcases h'.current with hc | hc
    · rw [hc]
      exact h.current
    · exact .inr hc
  instances := Heap.forall₂_trans (fun _ _ _ => .trans) h.instances h'.instances
  workers := Heap.forall₂_trans (fun _ _ _ => .trans) h.workers h'.workers
  enrollments hr := by
    obtain ⟨r₁, hr₁, h₁⟩ := h.enrollments hr
    obtain ⟨r₂, hr₂, h₂⟩ := h'.enrollments hr₁
    exact ⟨r₂, hr₂, h₂.trans h₁⟩
  journals q := (h.journals q).trans (fun _ _ _ => Carries.trans) (h'.journals q)

/-! ### The ways to frame -/

section

variable {s : Service}

theorem frame_modifyInstance {i : ℕ} {f : Instance → Instance}
    (hf : ∀ inst, s.instances[i]? = some inst → inst.Kept (f inst)) :
    Frame s (s.modifyInstance i f) :=
  frame_of_eq (.inl rfl) (Heap.forall₂_modify Instance.Kept.refl hf)
    (Heap.forall₂_refl Worker.Kept.refl _) rfl rfl

theorem frame_modifyWorker {k : ℕ} {f : Worker → Worker}
    (hf : ∀ w, s.workers[k]? = some w → w.Kept (f w)) : Frame s (s.modifyWorker k f) :=
  frame_of_eq (.inl rfl) (Heap.forall₂_refl Instance.Kept.refl _)
    (Heap.forall₂_modify Worker.Kept.refl hf) rfl rfl

theorem frame_goto (k : ℕ) (pc : WorkerPc) : Frame s (s.goto k pc) :=
  frame_modifyWorker fun _ _ => ⟨rfl, rfl, rfl, rfl, rfl, rfl⟩

theorem frame_modifyEnrollment {e : ℕ} {f : Enrollment → Enrollment}
    (hf : ∀ r, (f r).current = r.current) : Frame s (s.modifyEnrollment e f) :=
  { Frame.refl s with
    enrollments := fun {k r} h => by
      refine ⟨_, Heap.getElem?_modify_eq_some.mpr ⟨r, h, rfl⟩, ?_⟩
      split_ifs
      · exact hf r
      · rfl }

theorem frame_putJournal {q : Path} {j : Journal} (hj : Journal.Kept Carries (s.journals q) j) :
    Frame s (s.putJournal q j) :=
  { Frame.refl s with
    journals := (Function.forall_update_iff s.journals fun q j =>
      Journal.Kept Carries (s.journals q) j).mpr ⟨hj, fun _ _ => .refl Carries.refl _⟩ }

end

end Service

namespace Instance

theorem kept_mapLeases {f : World → World} (hf : ∀ w : World, w.outbound.Steady (f w).outbound) :
    i.Kept { i with leases := i.leases.map f } :=
  ⟨rfl, rfl, rfl, Heap.forall₂_map fun w _ => hf w⟩

theorem kept_close : i.Kept i.close :=
  ⟨rfl, rfl, rfl, Heap.forall₂_map fun _ _ => ⟨rfl, rfl, fun _ => .refl _⟩⟩

theorem kept_revoke (terminate : Bool) : i.Kept (i.revoke terminate) :=
  i.kept_mapLeases fun _ => ⟨rfl, rfl, fun _ => .refl _⟩

theorem kept_revokeLease (leaseID : String) (terminate : Bool) :
    i.Kept (i.revokeLease leaseID terminate) :=
  i.kept_mapLeases fun w => by
    have hsection : SmartAccess.Outbound.Section .plain w.outbound _ :=
      w.outbound.section_revokeLease leaseID terminate
    exact hsection.steady nofun

/-- **Every effect of a worker only ages its outbounds.** -/
theorem kept_perform (e : Effect) : i.Kept (i.perform e) := by
  cases e with
  | revokeRoutingCatalog => exact ⟨rfl, rfl, rfl, steadyLeases_refl _⟩
  | revoke terminate => exact i.kept_revoke terminate
  | revokeScope scope target action =>
    exact ⟨rfl, rfl, rfl, Heap.forall₂_modify (fun w => .refl w.outbound)
      fun _ _ => ⟨rfl, rfl, fun _ => .refl _⟩⟩

theorem kept_performAll (effects : List Effect) (i : Instance) :
    i.Kept (effects.foldl Instance.perform i) := by
  induction effects generalizing i with
  | nil => exact .refl i
  | cons e effects ih => exact (i.kept_perform e).trans (ih (i.perform e))

end Instance

/-! ## Moves -/

namespace Service

theorem steady_acceptsEnrollment (lease : LeaseIdentity) (clock : ℕ → Sample) (n : ℕ)
    (ws : List World) : SteadyLeases ws (acceptsEnrollment lease clock n ws).1 := by
  induction ws generalizing n with
  | nil => exact .nil
  | cons w ws ih =>
    have hw := (w.outbound.quiet_acceptsRenewalEnrollment lease.leaseID.text lease.issuedAt.format
      lease.newFlowsUntil.format lease.activeFlowsUntil.format (clock n)).steady
    unfold acceptsEnrollment
    dsimp only
    split_ifs
    · exact .cons hw (steadyLeases_refl ws)
    · exact .cons hw (ih (n + 1))

/-- What renewing the first outbound that knows a lease can do: adopt nothing, or one generation
for which the callback ran and succeeded. -/
inductive RenewedLeases (retain : Date → Bound → Bound × Bool) (expectedID : String)
    (grant : Grant) (ws : List World) (st : Bound) : List World → Bound → Prop
  | untouched {ws' : List World} (h : SteadyLeases ws ws') :
    RenewedLeases retain expectedID grant ws st ws' st
  | retained {ws' : List World} {st' : Bound} (h : SteadyLeases ws ws') (d : Date) (b : Bool)
    (hret : retain d st = (st', b)) : RenewedLeases retain expectedID grant ws st ws' st'
  | adopted {ws' : List World} {st' : Bound} (m : ℕ) (w w' : World) (clock : RenewClock)
    (next : SmartAccess.LeaseAuthorization) (hw : ws[m]? = some w)
    (hc : SmartAccess.Outbound.Candidate w.outbound expectedID grant clock next)
    (hret : retain next.activeUntil st = (st', true))
    (hw' : w'.outbound = (w.outbound.prune expectedID clock.prune).adopt next)
    (h : SteadyLeases (ws.set m w') ws') : RenewedLeases retain expectedID grant ws st ws' st'

theorem renewFirst_renewed (retain : Date → Bound → Bound × Bool) (expectedID : String)
    (grant : Grant) (clock : ℕ → RenewClock) (n : ℕ) (ws : List World) (st : Bound) :
    RenewedLeases retain expectedID grant ws st
      (renewFirst retain expectedID grant clock n ws st).1
      (renewFirst retain expectedID grant clock n ws st).2.1 := by
  induction ws generalizing n with
  | nil => exact .untouched .nil
  | cons w ws ih =>
    have hstep := w.outbound.renewLease_step expectedID grant (clock n) retain st
    unfold renewFirst
    dsimp only
    generalize w.outbound.renewLease expectedID grant (clock n) retain st = r at hstep ⊢
    obtain ⟨h', st', o⟩ := r
    dsimp only at hstep ⊢
    have htail := steadyLeases_refl ws
    have hprune := w.outbound.steady_prune expectedID (clock n).prune
    cases hstep with
    | absent hno =>
      rw [if_pos rfl]
      have hhead : w.outbound.Steady (putRenewed w w.outbound (clock n)).outbound := .refl _
      have hrest := ih (n + 1)
      generalize renewFirst retain expectedID grant clock (n + 1) ws st = rest at hrest ⊢
      obtain ⟨ws', st', o⟩ := rest
      dsimp only at hrest ⊢
      cases hrest with
      | untouched h => exact .untouched (.cons hhead h)
      | retained h d b hret => exact .retained (.cons hhead h) d b hret
      | adopted m v v' c next hv hc hret hv' h =>
        exact .adopted (m + 1) v v' c next hv hc hret hv' (.cons hhead h)
    | refused => exact .untouched (.cons (.refl _) htail)
    | retried next hr hbuilt hsame => exact .untouched (.cons (.refl _) htail)
    | full next hc => exact .untouched (.cons hprune htail)
    | unretained next hc _ hret => exact .retained (.cons hprune htail) _ _ hret
    | late next hc _ hret => exact .retained (.cons hprune htail) _ _ hret
    | adopted next hc _ _ hret _ =>
      exact .adopted 0 w _ (clock n) next rfl hc hret rfl (.cons (.refl _) htail)

/-- **The moves of the service.**  `write` says whether the journal of a renewal or a restriction can
be written. -/
inductive Move (write : Bool) (s : Service) : Service → Prop
  | none : Move write s s
  | built (profile : Profile) (leases : List World) (clock : ℕ → Sample)
    (hleases : buildOutbounds clock 0 profile.outbounds = some leases) :
    Move write s { s with
      status := .starting
      instances := s.instances ++ [newInstance profile leases]
      current := some s.instances.length }
  | configured (i : ℕ) (inst : Instance) (config : ControlConfig) (deadline : Sample)
    (world : ConfigureWorld) (q : Path) (j : Journal) (g : Generation)
    (hrun : s.running = some (i, inst))
    (hzero : (expiryTime inst.smartAccessRestrictionExpires).isZero = false)
    (hbegin : (s.journals q).begin config.profileDigest config.catalogSHA256
      inst.smartAccessRestrictionExpires world.rand world.read world.write = (j, .ok g)) :
    Move write s (s.register i (s.control inst)
      (s.newWorker i (s.control inst) config deadline world q g j) j)
  | renewed (i : ℕ) (inst : Instance) (expectedID : String) (grant : Grant) (ws : List World)
    (st : Bound) (hrun : s.running = some (i, inst))
    (hrenew : RenewedLeases (retainExpiry (s.control inst) write) expectedID grant inst.leases
      (inst.smartAccessRestrictionExpires, s.journals) ws st) :
    Move write s { s.modifyInstance i ({ · with
        leases := ws, smartAccessRestrictionExpires := st.1 }) with journals := st.2 }
  | restricted (k : ℕ) (w : Worker) (reason : Reason) (hk : s.workers[k]? = some w)
    (hreg : (s.registered k w).isSome) (hreason : reason ≠ .current) :
    Move write s ((s.performAll k w.box (controlEffects reason)).putJournal w.journal
      ((s.journals w.journal).restrict w.config.profileDigest w.journalGeneration reason write))
  | narrowed (k : ℕ) (w : Worker) (scope : Digest) (action : ScopeAction) (n : ℕ)
    (hk : s.workers[k]? = some w) (hreg : (s.registered k w).isSome) :
    Move write s (s.restrictTarget k w scope action n write)
  | adopted (k : ℕ) (w : Worker) (inst : Instance) (a : Attempt) (d : RenewalDecision)
    (lease : LeaseIdentity) (ids : List String) (n : ℕ) (out : World) (world : ApplyWorld)
    (hwrite : world.write = write) (hk : s.workers[k]? = some w) (hpc : w.pc = .adopting a d)
    (hlease : d.outcome = .lease lease) (hreg : s.registered k w = some inst)
    (hcap : s.captured w a = true) (hids : currentIDs inst.leases = some ids)
    (htarget : target inst.leases a.previous = some (n, out)) :
    Move write s (s.adoptLease w a d lease ids n out world).1

/-- What a step does: a move, then a frame.  Only one of them touches the journals. -/
def Steps (write : Bool) (s s' : Service) : Prop :=
  ∃ s₁, Move write s s₁ ∧ Frame s₁ s' ∧ (s₁ = s ∨ s'.journals = s₁.journals)

variable {s s' : Service} {write : Bool}

theorem Frame.steps (h : Frame s s') : Steps write s s' := ⟨s, .none, h, .inl rfl⟩

theorem Move.steps (h : Move write s s') : Steps write s s' := ⟨s', h, .refl s', .inr rfl⟩

theorem Steps.frame {s₂ : Service} (h : Steps write s s₂) (h' : Frame s₂ s')
    (hj : s'.journals = s₂.journals) : Steps write s s' := by
  obtain ⟨s₁, hm, hf, hs⟩ := h
  exact ⟨s₁, hm, hf.trans h', hs.imp_right hj.trans⟩

/-! ### Registering -/

theorem register_instances (s : Service) (i : ℕ) (previous : Option (ℕ × Worker)) (w : Worker)
    (j : Journal) : (s.register i previous w j).instances =
      s.instances.modify i ({ · with smartAccessControl := some s.workers.length }) := by
  cases previous <;> rfl

theorem register_journals (s : Service) (i : ℕ) (previous : Option (ℕ × Worker)) (w : Worker)
    (j : Journal) :
    (s.register i previous w j).journals = Function.update s.journals w.journal j := by
  cases previous <;> rfl

/-- The new worker comes last; the one it replaces is cancelled. -/
theorem register_workers (s : Service) (i : ℕ) (previous : Option (ℕ × Worker)) (w : Worker)
    (j : Journal) : ∃ ws, (s.register i previous w j).workers = ws ++ [w] ∧
      List.Forall₂ Worker.Kept s.workers ws := by
  cases previous with
  | none => exact ⟨s.workers, rfl, Heap.forall₂_refl Worker.Kept.refl _⟩
  | some p =>
    refine ⟨_, rfl, Heap.forall₂_modify Worker.Kept.refl fun w _ => ?_⟩
    exact ⟨rfl, rfl, rfl, rfl, rfl, rfl⟩

/-! ### Starting and stopping -/

theorem frame_status (s : Service) (closed : Bool) (status : Status) (reloads : List ReloadPc) :
    Frame s { s with closed := closed, status := status, reloads := reloads } :=
  frame_of_eq (.inl rfl) (Heap.forall₂_refl Instance.Kept.refl _)
    (Heap.forall₂_refl Worker.Kept.refl _) rfl rfl

theorem build_steps (s : Service) (profile : Profile) (built : Bool) (clock : ℕ → Sample) :
    Steps write s (s.build profile built clock).1 := by
  unfold build
  split
  · exact (frame_status s s.closed .fatal s.reloads).steps
  · rename_i leases h
    obtain ⟨_, h⟩ := Option.ite_none_right_eq_some.mp h
    exact (Move.built profile leases clock h).steps

theorem reload_steps (s : Service) (profile : Profile) (built : Bool) (clock : ℕ → Sample) :
    Steps write s (s.reload profile built clock).1 := by
  unfold reload
  split_ifs
  · exact (Frame.refl s).steps
  · exact (Frame.refl s).steps
  · split
    · exact (frame_status s s.closed .stopping _).steps
    · exact (s.build_steps profile built clock).frame (frame_status _ _ _ _) rfl

theorem frame_close (s : Service) (i : ℕ) : Frame s (s.modifyInstance i Instance.close) :=
  frame_modifyInstance fun inst _ => inst.kept_close

theorem reloadBuild_steps (s : Service) (c : ℕ) (profile : Profile) (built : Bool)
    (clock : ℕ → Sample) : Steps write s (s.reloadBuild c profile built clock) := by
  unfold reloadBuild
  split_ifs
  · exact (frame_status s s.closed s.status _).steps
  · exact (s.build_steps profile built clock).frame (frame_status _ _ _ _) rfl

theorem frame_reloadStarted (s : Service) (c : ℕ) (ok : Bool) : Frame s (s.reloadStarted c ok) := by
  unfold reloadStarted
  dsimp only
  split_ifs
  · exact frame_status s s.closed s.status _
  · exact frame_status s s.closed .started _
  · exact frame_status s s.closed .fatal _

theorem frame_stopped (s : Service) (closed : Bool) (status : Status) :
    Frame s { s with closed := closed, status := status, current := none } :=
  frame_of_eq (.inr rfl) (Heap.forall₂_refl Instance.Kept.refl _)
    (Heap.forall₂_refl Worker.Kept.refl _) rfl rfl

theorem frame_closeService (s : Service) (failure : Option String) :
    Frame s (s.closeService failure).1 := by
  unfold closeService
  split_ifs
  · split
    · exact frame_status s s.closed .idle s.reloads
    · dsimp only
      split
      · exact (s.frame_close _).trans (frame_stopped _ _ _)
      · exact (s.frame_close _).trans (frame_status _ _ _ _)
  · exact .refl s

theorem frame_closed (s : Service) : Frame s s.close := by
  unfold close
  split_ifs
  · exact .refl s
  · cases s.current with
    | none => exact frame_stopped s true .idle
    | some i => exact (s.frame_close i).trans (frame_stopped _ _ _)

/-! ### The calls of the host -/

/-- The running instance is the current one of a started service. -/
theorem instance_of_running {i : ℕ} {inst : Instance} (h : s.running = some (i, inst)) :
    s.current = some i ∧ s.instances[i]? = some inst := by
  unfold running at h
  split_ifs at h
  obtain ⟨i', hi', h⟩ := Option.bind_eq_some_iff.mp h
  obtain ⟨inst', hinst, h⟩ := Option.map_eq_some_iff.mp h
  obtain ⟨rfl, rfl⟩ := Prod.mk.inj h
  exact ⟨hi', hinst⟩

variable {o : Output}

theorem frame_traffic {i n : ℕ} {e : SmartAccess.Event} (h : s.stepTraffic i n e = some (s', o)) :
    Frame s s' := by
  obtain ⟨inst, hi, h⟩ := Option.bind_eq_some_iff.mp h
  obtain ⟨w, hw, h⟩ := Option.bind_eq_some_iff.mp h
  obtain ⟨⟨w', o'⟩, hstep, h⟩ := Option.bind_eq_some_iff.mp h
  obtain ⟨htraffic, rfl⟩ := Machine.guarded h
  have hsteady : w.outbound.Steady w'.outbound := by
    refine (World.step_section hstep).steady fun expectedID clock hmark => ?_
    cases e <;> cases hmark
    cases htraffic
  refine frame_modifyInstance fun inst' hi' => ?_
  obtain rfl := Option.some.inj (hi.symm.trans hi')
  refine ⟨rfl, rfl, rfl, Heap.forall₂_set (fun w => .refl w.outbound) fun v hv => ?_⟩
  obtain rfl := Option.some.inj (hw.symm.trans hv)
  exact hsteady

theorem frame_revokeRoutingCatalog (s : Service) : Frame s s.revokeRoutingCatalog := by
  unfold revokeRoutingCatalog
  cases s.running with
  | none => exact .refl s
  | some r =>
    exact frame_modifyInstance fun inst _ =>
      (inst.kept_perform .revokeRoutingCatalog).trans (Instance.kept_revoke _ true)

theorem frame_revokeSmartAccessPolicy (s : Service) (terminate : Bool) :
    Frame s (s.revokeSmartAccessPolicy terminate).1 := by
  unfold revokeSmartAccessPolicy
  split
  · exact .refl s
  · exact frame_modifyInstance fun inst _ => inst.kept_revoke terminate

theorem frame_revokeSmartAccessLease (s : Service) (leaseID : String) (terminate : Bool) :
    Frame s (s.revokeSmartAccessLease leaseID terminate).1 := by
  unfold revokeSmartAccessLease
  split_ifs
  · split
    · exact .refl s
    · exact frame_modifyInstance fun inst _ => inst.kept_revokeLease leaseID terminate
  · exact .refl s

theorem renewSmartAccessLease_steps (s : Service) (expectedID : String) (grant : Grant)
    (clock : ℕ → RenewClock) (write : Bool) :
    Steps write s (s.renewSmartAccessLease expectedID grant clock write).1 := by
  unfold renewSmartAccessLease
  split_ifs
  · split
    · exact (Frame.refl s).steps
    · rename_i i inst hrun
      exact (Move.renewed i inst expectedID grant _ _ hrun
        (renewFirst_renewed _ expectedID grant clock 0 _ _)).steps
  · exact (Frame.refl s).steps

theorem enroll_steps (hwf : ∀ q, (s.journals q).Wf) {i : ℕ} {inst : Instance}
    (hrun : s.running = some (i, inst))
    (hzero : (expiryTime inst.smartAccessRestrictionExpires).isZero = false)
    (config : ControlConfig) (deadline : Sample) (world : ConfigureWorld) :
    Steps write s (s.enroll i inst config deadline world).1 := by
  unfold enroll
  split
  · exact (Frame.refl s).steps
  split_ifs
  · exact (Frame.refl s).steps
  split
  · exact (Frame.refl s).steps
  rename_i q _
  split
  · rename_i j e hbegin
    exact (frame_putJournal (Journal.kept_begin_error Carries.refl (hwf q) hbegin)).steps
  · rename_i j g hbegin
    exact (Move.configured i inst config deadline world q j g hrun hzero hbegin).steps

theorem configureControl_steps (hwf : ∀ q, (s.journals q).Wf) (profileDigest : String)
    (config : ControlConfig) (world : ConfigureWorld) :
    Steps write s (s.configureSmartAccessRuntimeControl profileDigest config world).1 := by
  unfold configureSmartAccessRuntimeControl
  split
  · exact (Frame.refl s).steps
  split
  · exact (Frame.refl s).steps
  split
  · exact (Frame.refl s).steps
  rename_i i inst hrun
  split
  · exact (Frame.refl s).steps
  split
  · exact (Frame.refl s).steps
  rename_i hzero
  simp only [Bool.or_eq_true, not_or, Bool.not_eq_true] at hzero
  exact enroll_steps hwf hrun hzero.1 config _ world

theorem frame_addEnrollment (s : Service) (k : ℕ) (renewals : SortedMap Digest ℕ)
    (config : RenewalConfig) (deadline : Sample) (size : ℕ) :
    Frame s (s.addEnrollment k renewals config deadline size).1 := by
  unfold addEnrollment
  dsimp only
  split
  · exact .refl s
  split_ifs
  · exact .refl s
  · have hw : Frame s (s.modifyWorker k ({ · with
        renewals := renewals.insert config.lease.runtimeScopeSHA256 s.enrollments.length })) :=
      frame_modifyWorker fun w _ => ⟨rfl, rfl, rfl, rfl, rfl, rfl⟩
    exact { hw with
      enrollments := fun {e r} h => ⟨r, Heap.getElem?_concat.mpr (.inl h), rfl⟩ }

theorem frame_configureRenewal (s : Service) (profileDigest : String) (config : RenewalConfig)
    (world : EnrollWorld) :
    Frame s (s.configureSmartAccessRenewal profileDigest config world).1 := by
  unfold configureSmartAccessRenewal
  split
  · exact .refl s
  split
  · exact .refl s
  split
  · exact .refl s
  rename_i i inst hrun
  split
  · exact .refl s
  rename_i k w _
  split
  · dsimp only
    have hfound : Frame s (s.modifyInstance i ({ · with
        leases := (acceptsEnrollment config.lease world.outbounds 0 inst.leases).1 })) := by
      refine frame_modifyInstance fun inst' hi => ?_
      obtain rfl := Option.some.inj ((instance_of_running hrun).2.symm.trans hi)
      exact ⟨rfl, rfl, rfl, steady_acceptsEnrollment _ _ _ _⟩
    split_ifs
    · refine (hfound.trans (frame_modifyWorker fun w _ => ?_)).trans (frame_addEnrollment _ _ _ _ _ _)
      exact ⟨rfl, rfl, rfl, rfl, rfl, rfl⟩
    · exact hfound
  · exact .refl s

/-! ### The steps of a worker -/

variable {crypto : Crypto} {w : Worker} {k : ℕ}

theorem registered_of_mayApply {d : Decision} {clock : ControlClock} {fired : Bool}
    (h : s.mayApply k w d clock fired = true) : (s.registered k w).isSome := by
  simp only [mayApply, Bool.and_eq_true] at h
  exact h.1.1.1.1.2

theorem applyControl_steps (hk : s.workers[k]? = some w) (d : Decision) (clock : ControlClock)
    (fired write : Bool) :
    Steps write s (s.applySmartAccessRuntimeControl k w d clock fired write) := by
  unfold applySmartAccessRuntimeControl
  split_ifs with h
  · obtain ⟨hmay, hreason⟩ := Bool.and_eq_true_iff.mp h
    exact (Move.restricted k w d.reason hk (registered_of_mayApply hmay)
      (of_decide_eq_true hreason)).steps
  · exact (Frame.refl s).steps

theorem frame_nextRenewal (s : Service) (k : ℕ) (w : Worker) (d : Decision) (order : List Digest)
    (now : Sample) (fired : Bool) :
    Frame s (s.nextSmartAccessRuntimeRenewal k w d order now fired).1 := by
  unfold nextSmartAccessRuntimeRenewal
  split
  · exact .refl s
  split_ifs
  · exact .refl s
  split
  · exact .refl s
  · exact frame_modifyEnrollment fun _ => rfl

theorem applyRenewal_steps {a : Attempt} {d : RenewalDecision} (hk : s.workers[k]? = some w)
    (hpc : w.pc = .adopting a d) (world : ApplyWorld) :
    Steps world.write s (s.applySmartAccessRuntimeRenewal k w a d world).1 := by
  unfold applySmartAccessRuntimeRenewal
  split
  · exact (Frame.refl s).steps
  rename_i inst hreg
  split
  · rename_i hguard
    split
    · rename_i ids n out hids htarget
      split
      · exact (Move.narrowed k w _ _ n hk (by rw [hreg]; rfl)).steps
      · rename_i lease hlease
        exact (Move.adopted k w inst a d lease ids n out world rfl hk hpc hlease hreg
          (Bool.and_eq_true_iff.mp hguard).1 hids htarget).steps
    · exact (Frame.refl s).steps
  · exact (Frame.refl s).steps

theorem frame_finish (hwf : ∀ q, (s.journals q).Wf) (write : Bool) :
    Frame s ((s.modifyWorker k ({ · with cancelled := true, pc := .finished })).putJournal w.journal
      ((s.journals w.journal).finish w.config.profileDigest w.journalGeneration write)) := by
  refine Frame.trans (frame_modifyWorker fun w _ => ?_)
    (frame_putJournal (Journal.kept_finish _ _ _ (hwf w.journal)))
  exact ⟨rfl, rfl, rfl, rfl, rfl, rfl⟩

theorem stepWorker_steps (hwf : ∀ q, (s.journals q).Wf) (hk : s.workers[k]? = some w) {e : Event}
    (h : s.stepWorker crypto k w e = some (s', o)) :
    Steps e.write s s' := by
  cases e with
  | loop | poll | wait =>
    obtain ⟨_, rfl⟩ := Machine.guarded h
    exact (frame_goto k _).steps
  | applyControl _ clock fired write =>
    dsimp only [stepWorker] at h
    split at h
    · obtain rfl := Machine.state_eq h
      exact (applyControl_steps hk _ clock fired write).frame (frame_goto k _) rfl
    · cases h
  | nextRenewal _ order now fired =>
    dsimp only [stepWorker] at h
    split at h
    · obtain ⟨_, rfl⟩ := Machine.guarded h
      exact ((s.frame_nextRenewal k w _ order now fired).trans (frame_goto k _)).steps
    · cases h
  | pollRenewal _ response =>
    dsimp only [stepWorker] at h
    split at h
    · obtain rfl := Machine.state_eq h
      exact (frame_goto k _).steps
    · cases h
  | applyRenewal _ world =>
    dsimp only [stepWorker] at h
    split at h
    · rename_i a d hpc
      obtain rfl := Machine.state_eq h
      exact (applyRenewal_steps hk hpc world).frame (frame_goto k _) rfl
    · cases h
  | finish _ write =>
    obtain ⟨_, rfl⟩ := Machine.guarded h
    exact (frame_finish hwf write).steps
  | reload | reloadClose | reloadBuild | reloadStarted | closeService | close | setError | traffic
  | revokeRoutingCatalog | revokeSmartAccessPolicy | revokeSmartAccessLease
  | renewSmartAccessLease | configureControl | configureRenewal | readRestrictions
  | acknowledge => cases h

/-- **Every event is a move and a frame.** -/
theorem step_steps (hwf : ∀ q, (s.journals q).Wf) {e : Event} (h : s.step crypto e = some (s', o)) :
    Steps e.write s s' := by
  cases e with
  | reload profile built clock =>
    obtain rfl := Machine.state_eq h
    exact s.reload_steps profile built clock
  | reloadClose c =>
    dsimp only [step] at h
    split at h
    · obtain rfl := Machine.state_eq h
      exact ((s.frame_close _).trans (frame_status _ _ _ _)).steps
    · cases h
  | reloadBuild c built clock =>
    dsimp only [step] at h
    split at h
    · obtain rfl := Machine.state_eq h
      exact s.reloadBuild_steps c _ built clock
    · cases h
  | reloadStarted c ok =>
    dsimp only [step] at h
    split at h
    · obtain rfl := Machine.state_eq h
      exact (s.frame_reloadStarted c ok).steps
    · cases h
  | closeService failure =>
    obtain rfl := Machine.state_eq h
    exact (s.frame_closeService failure).steps
  | close =>
    obtain rfl := Machine.state_eq h
    exact s.frame_closed.steps
  | setError =>
    obtain rfl := Machine.state_eq h
    exact (frame_status s s.closed .fatal s.reloads).steps
  | traffic i n e => exact (frame_traffic h).steps
  | revokeRoutingCatalog =>
    obtain rfl := Machine.state_eq h
    exact s.frame_revokeRoutingCatalog.steps
  | revokeSmartAccessPolicy terminate =>
    obtain rfl := Machine.state_eq h
    exact (s.frame_revokeSmartAccessPolicy terminate).steps
  | revokeSmartAccessLease leaseID terminate =>
    obtain rfl := Machine.state_eq h
    exact (s.frame_revokeSmartAccessLease leaseID terminate).steps
  | renewSmartAccessLease expectedID grant clock write =>
    obtain rfl := Machine.state_eq h
    exact s.renewSmartAccessLease_steps expectedID grant clock write
  | configureControl profileDigest config world =>
    obtain rfl := Machine.state_eq h
    exact configureControl_steps hwf profileDigest config world
  | configureRenewal profileDigest config world =>
    obtain rfl := Machine.state_eq h
    exact (s.frame_configureRenewal profileDigest config world).steps
  | readRestrictions q read write =>
    obtain rfl := Machine.state_eq h
    exact (frame_putJournal
      (Journal.kept_snapshotLocked crypto.sha256 read write (hwf q))).steps
  | acknowledge q snapshotSHA256 read write again =>
    obtain rfl := Machine.state_eq h
    exact (frame_putJournal
      (Journal.kept_acknowledge crypto.sha256 snapshotSHA256 read write again (hwf q))).steps
  | loop k | poll k | applyControl k | nextRenewal k | pollRenewal k | applyRenewal k | wait k
  | finish k =>
    obtain ⟨w, hk, h⟩ := Option.bind_eq_some_iff.mp h
    exact stepWorker_steps hwf hk h

end Service

end PokrovCore.Daemon
