import PokrovCore.Daemon.Adoptions

/-!
# Daemon/RecoveryBound — the recovery bound of an instance and the record of its worker

An instance keeps one date, and what its worker has recorded may be forgotten after it.  So nothing
the instance was ever granted may outlast the date (`Covered`), and while a worker is live its record
must not expire before it (`Secured`).  Two paths move the date, through different operations of the
journal and inside a callback of the outbound; the host's path skips the journal when the date need
not move, which is sound because of the invariant itself.
-/

namespace PokrovCore.Daemon

open SmartAccess (World)

/-! ## Instances -/

/-- No generation these outbounds ever adopted outlasts a bound. -/
def Within (ws : List World) (e : Option Date) : Prop :=
  ∀ (n : ℕ) (w : World), ws[n]? = some w → ∀ g < w.outbound.genCount,
    (w.outbound.gens g).activeUntil.toTime.wall ≤ (expiryTime e).wall

section

variable {ws ws' : List World} {e e' : Option Date}

theorem Within.mono (h : Within ws e) (hle : (expiryTime e).wall ≤ (expiryTime e').wall) :
    Within ws e' := fun n w hn g hg => (h n w hn g hg).trans hle

theorem Within.steady (h : Within ws e) (hs : SteadyLeases ws ws') : Within ws' e := by
  intro n w' hn g hg
  obtain ⟨w, hw, hww⟩ := Heap.backward hs hn
  rw [(hww.gens g).activeUntil]
  exact h n w hw g (hww.genCount ▸ hg)

theorem Within.adopt (h : Within ws e) {m : ℕ} {w w' : World} {id : String} {now : Sample}
    {next : SmartAccess.LeaseAuthorization} (hw : ws[m]? = some w)
    (hw' : w'.outbound = (w.outbound.prune id now).adopt next)
    (hnext : next.activeUntil.toTime.wall ≤ (expiryTime e).wall) : Within (ws.set m w') e := by
  intro n v hn g hg
  rw [List.getElem?_set] at hn
  split_ifs at hn with hmn
  · obtain rfl := Option.some.inj hn
    rw [hw'] at hg ⊢
    rcases Nat.lt_succ_iff_lt_or_eq.mp hg with hlt | rfl
    · have hold : ((w.outbound.prune id now).adopt next).gens g = w.outbound.gens g :=
        Function.update_of_ne hlt.ne ..
      rw [hold]
      exact h m w hw g hlt
    · have hnew : ((w.outbound.prune id now).adopt next).gens w.outbound.genCount = next :=
        Function.update_self ..
      exact (congrArg (·.activeUntil.toTime.wall) hnew).le.trans hnext
  · exact h n v hn g hg

end

namespace Instance

/-- **Nothing an instance was ever granted outlasts its bound.** -/
structure Covered (inst : Instance) : Prop where
  windows : ∀ v ∈ inst.profile.windows, ∀ d, smartAccessControlTime v = some d →
    d.toTime.wall ≤ (expiryTime inst.smartAccessRestrictionExpires).wall
  leases : Within inst.leases inst.smartAccessRestrictionExpires

variable {inst inst' : Instance}

/-- The bound grows, and covers the outbounds. -/
theorem Covered.grow (h : inst.Covered) (hprofile : inst'.profile = inst.profile)
    (hle : (expiryTime inst.smartAccessRestrictionExpires).wall ≤
      (expiryTime inst'.smartAccessRestrictionExpires).wall)
    (hleases : Within inst'.leases inst'.smartAccessRestrictionExpires) : inst'.Covered where
  windows v hv d hd := (h.windows v (hprofile ▸ hv) d hd).trans hle
  leases := hleases

theorem Covered.kept (h : inst.Covered) (hk : inst.Kept inst') : inst'.Covered :=
  h.grow hk.profile (by rw [hk.expires]) (by
    rw [hk.expires]
    exact h.leases.steady hk.leases)

theorem covered_newInstance {profile : Profile} {leases : List World} {clock : ℕ → Sample}
    (h : buildOutbounds clock 0 profile.outbounds = some leases) :
    (Service.newInstance profile leases).Covered where
  windows _ hv _ hd := windows_le_expiry hv hd
  leases n w hn g hg := by
    obtain ⟨l, hl, lease, now, hlease, hw⟩ := buildOutbounds_spec h w (List.mem_of_getElem? hn)
    rw [hw] at hg ⊢
    obtain rfl := Nat.lt_one_iff.mp hg
    refine grants_le_expiry hl ?_
    rw [← (SmartAccess.newLeaseAuthorization_spec hlease).2.2.2.1]
    exact Date.parse_format lease.activeUntil

end Instance

namespace Service

variable {s s' : Service} {write : Bool}

/-! ## The invariant -/

/-- A worker that is as it was, wherever its program stands. -/
structure SameWorker (w w' : Worker) : Prop where
  config : w'.config = w.config
  journal : w'.journal = w.journal
  generation : w'.journalGeneration = w.journalGeneration

/-- No later worker has begun on the record of this one. -/
def Latest (s : Service) (k : ℕ) (w : Worker) : Prop :=
  ∀ (k' : ℕ) (w' : Worker), k < k' → s.workers[k']? = some w' → w'.journal = w.journal →
    w'.config.profileDigest ≠ w.config.profileDigest

variable {w w' : Worker} {j : Journal}

theorem BackedBy.same {e : Option Date} (h : BackedBy j w e) (hsame : SameWorker w w') :
    BackedBy j w' e := by
  unfold BackedBy at h ⊢
  rwa [hsame.config, hsame.generation]

variable {k : ℕ}

/-- A worker that is the latest among more is the latest. -/
theorem Latest.of_same (h : s'.Latest k w') (hsame : SameWorker w w')
    (hw : ∀ {k₁ : ℕ} {w₁ : Worker}, s.workers[k₁]? = some w₁ →
      ∃ w₂, s'.workers[k₁]? = some w₂ ∧ SameWorker w₁ w₂) : s.Latest k w := by
  intro k₁ w₁ hlt h₁ hjournal
  obtain ⟨w₂, h₂, hsame₂⟩ := hw h₁
  have := h k₁ w₂ hlt h₂ (by rw [hsame₂.journal, hsame.journal, hjournal])
  rwa [hsame₂.config, hsame.config] at this

theorem sameWorker_of_kept (h : w.Kept w') : SameWorker w w' :=
  ⟨h.config, h.journal, h.generation⟩

variable {i : ℕ}

/-- The latest workers once one more is registered: an older one, of another record than the new
one, or the new one. -/
theorem Latest.of_register {previous : Option (ℕ × Worker)} {new : Worker}
    (h : (s.register i previous new j).Latest k w')
    (hk : (s.register i previous new j).workers[k]? = some w') :
    (∃ w, s.workers[k]? = some w ∧ w.Kept w' ∧ s.Latest k w ∧ (new.journal = w'.journal →
      new.config.profileDigest ≠ w'.config.profileDigest)) ∨ k = s.workers.length ∧ w' = new := by
  obtain ⟨ws, hws, hkept⟩ := s.register_workers i previous new j
  rw [hws] at hk
  rcases Heap.getElem?_concat.mp hk with hk | ⟨hlast, rfl⟩
  · obtain ⟨w, hkw, hw⟩ := Heap.backward hkept hk
    refine .inl ⟨w, hkw, hw, h.of_same (sameWorker_of_kept hw) fun h₁ => ?_,
      h ws.length new (List.getElem?_eq_some_iff.mp hk).1 ?_⟩ <;> rw [hws]
    · obtain ⟨w₂, h₂, hk₂⟩ := Heap.forward hkept h₁
      exact ⟨w₂, Heap.getElem?_concat.mpr (.inl h₂), sameWorker_of_kept hk₂⟩
    · exact Heap.getElem?_concat.mpr (.inr ⟨rfl, rfl⟩)
  · exact .inr ⟨hlast.trans hkept.length_eq.symm, rfl⟩

/-- **The recovery bound covers all authority, and the record covers the bound.** -/
structure Secured (s : Service) : Prop where
  covered : ∀ {i : ℕ} {inst : Instance}, s.instances[i]? = some inst → inst.Covered
  known : ∀ {i k : ℕ} {inst : Instance}, s.instances[i]? = some inst →
    inst.smartAccessControl = some k → k < s.workers.length
  /-- the worker of the current instance is the last one -/
  newest : ∀ {i k : ℕ} {inst : Instance}, s.current = some i → s.instances[i]? = some inst →
    inst.smartAccessControl = some k → k + 1 = s.workers.length
  backed : ∀ {i k : ℕ} {inst : Instance} {w : Worker}, s.instances[i]? = some inst →
    inst.smartAccessControl = some k → s.workers[k]? = some w → s.Latest k w →
    BackedBy (s.journals w.journal) w inst.smartAccessRestrictionExpires

theorem secured_init (disk : Path → Option (List Char)) : Secured (init disk) where
  covered h := by cases h
  known h := by cases h
  newest h := by cases h
  backed h := by cases h

variable {inst : Instance}

theorem Secured.latest (h : Secured s) (w : Worker) (hc : s.current = some i)
    (hi : s.instances[i]? = some inst) (hk : inst.smartAccessControl = some k) : s.Latest k w := by
  intro k' w' hlt hw'
  have := h.newest hc hi hk
  have := (List.getElem?_eq_some_iff.mp hw').1
  omega

/-- An instance whose bound and outbounds may have moved, under the same worker. -/
structure Moved (inst inst' : Instance) : Prop where
  profile : inst'.profile = inst.profile
  control : inst'.smartAccessControl = inst.smartAccessControl

/-- **The step lemma**: bounds and records move together. -/
theorem Secured.advance (h : Secured s) (hc : s'.current = s.current ∨ s'.current = none)
    (hw : List.Forall₂ SameWorker s.workers s'.workers)
    (hi : List.Forall₂ Moved s.instances s'.instances)
    (hcovered : ∀ {i : ℕ} {inst inst' : Instance}, s.instances[i]? = some inst →
      s'.instances[i]? = some inst' → inst.Covered → inst'.Covered)
    (hbacked : ∀ {i k : ℕ} {inst inst' : Instance} {w : Worker}, s.instances[i]? = some inst →
      s'.instances[i]? = some inst' → inst.smartAccessControl = some k → s.workers[k]? = some w →
      BackedBy (s.journals w.journal) w inst.smartAccessRestrictionExpires →
      BackedBy (s'.journals w.journal) w inst'.smartAccessRestrictionExpires) : Secured s' where
  covered {i inst'} hi' := by
    obtain ⟨inst, hinst, _⟩ := Heap.backward hi hi'
    exact hcovered hinst hi' (h.covered hinst)
  known {i k inst'} hi' hk := by
    obtain ⟨inst, hinst, hm⟩ := Heap.backward hi hi'
    rw [← hw.length_eq]
    exact h.known hinst (hm.control ▸ hk)
  newest {i k inst'} hcur hi' hk := by
    obtain ⟨inst, hinst, hm⟩ := Heap.backward hi hi'
    rw [← hw.length_eq]
    rcases hc with hc | hc
    · exact h.newest (hc ▸ hcur) hinst (hm.control ▸ hk)
    · rw [hc] at hcur
      cases hcur
  backed {i k inst' w'} hi' hk hw' hlatest := by
    obtain ⟨inst, hinst, hm⟩ := Heap.backward hi hi'
    obtain ⟨w, hkw, hsame⟩ := Heap.backward hw hw'
    have hold : s.Latest k w := hlatest.of_same hsame fun h₁ => Heap.forward hw h₁
    rw [hsame.journal]
    exact (hbacked hinst hi' (hm.control ▸ hk) hkw
      (h.backed hinst (hm.control ▸ hk) hkw hold)).same hsame

/-- Nothing but ages, programs and restrictions changes. -/
structure Mild (s s' : Service) : Prop where
  current : s'.current = s.current ∨ s'.current = none
  instances : List.Forall₂ Instance.Kept s.instances s'.instances
  workers : List.Forall₂ SameWorker s.workers s'.workers
  journals : ∀ q, Journal.Kept Journal.Outlasts (s.journals q) (s'.journals q)

theorem Secured.mild (h : Secured s) (hm : Mild s s') : Secured s' := by
  refine h.advance hm.current hm.workers (hm.instances.imp fun _ _ hk => ⟨hk.profile, hk.control⟩)
    (fun hi hi' hcov => ?_) (fun {i k inst inst' w} hi hi' _ _ hb => ?_)
  all_goals
    obtain ⟨inst₁, h₁, hkept⟩ := Heap.forward hm.instances hi
    obtain rfl := Option.some.inj (h₁.symm.trans hi')
  · exact hcov.kept hkept
  · rw [hkept.expires]
    exact hb.kept (hm.journals w.journal)

theorem Frame.mild (h : Frame s s') : Mild s s' where
  current := h.current
  instances := h.instances
  workers := h.workers.imp fun _ _ hk => ⟨hk.config, hk.journal, hk.generation⟩
  journals q := (h.journals q).mono fun _ _ hc => hc.expiry

variable {q : Path}

/-- A worker restricts its box, and records it. -/
theorem mild_perform (k i : ℕ) (effects : List Effect)
    (hj : Journal.Kept Journal.Outlasts (s.journals q) j) :
    Mild s ((s.performAll k i effects).putJournal q j) where
  current := Or.inl rfl
  instances := Heap.forall₂_modify Instance.Kept.refl fun inst _ => inst.kept_performAll effects
  workers := Heap.forall₂_modify (fun _ => ⟨rfl, rfl, rfl⟩) fun _ _ => ⟨rfl, rfl, rfl⟩
  journals := (Function.forall_update_iff s.journals fun q j =>
    Journal.Kept Journal.Outlasts (s.journals q) j).mpr
      ⟨hj, fun _ _ => .refl Journal.Outlasts.refl _⟩

/-! ## The moves -/

theorem Secured.built (h : Secured s) {profile : Profile} {leases : List World}
    {clock : ℕ → Sample} (hleases : buildOutbounds clock 0 profile.outbounds = some leases) :
    Secured { s with
      status := .starting
      instances := s.instances ++ [newInstance profile leases]
      current := some s.instances.length } where
  covered hi := by
    rcases Heap.getElem?_concat.mp hi with hi | ⟨_, rfl⟩
    · exact h.covered hi
    · exact Instance.covered_newInstance hleases
  known hi hk := by
    rcases Heap.getElem?_concat.mp hi with hi | ⟨_, rfl⟩
    · exact h.known hi hk
    · cases hk
  newest hc hi hk := by
    obtain rfl := Option.some.inj hc
    rcases Heap.getElem?_concat.mp hi with hi | ⟨_, rfl⟩
    · exact absurd (List.getElem?_eq_some_iff.mp hi).1 (lt_irrefl _)
    · cases hk
  backed hi hk := by
    rcases Heap.getElem?_concat.mp hi with hi | ⟨_, rfl⟩
    · exact h.backed hi hk
    · cases hk

variable {config : ControlConfig} {g : Generation} {rand : Option Generation}

/-- The record a worker begins on covers the bound of its instance. -/
theorem backedBy_begin {expires : Option Date} {read write : Bool} (hwf : (s.journals q).Wf)
    (hzero : (expiryTime expires).isZero = false)
    (hbegin : (s.journals q).begin config.profileDigest config.catalogSHA256 expires rand read
      write = (j, .ok g)) (hw : w.config = config) : BackedBy j w expires := fun _ => by
  obtain ⟨j₁, _, _, _, _, _, hlook⟩ := Journal.begin_ok hwf hbegin
  refine ⟨_, ?_, Journal.wall_le_enter hzero config.catalogSHA256 g
    (Journal.before config.profileDigest config.catalogSHA256 g j₁)⟩
  rw [hw, hlook, if_pos rfl]

/-- …and leaves the records of the other profiles alone. -/
theorem BackedBy.begin {expires e : Option Date} {read write : Bool} (hwf : (s.journals q).Wf)
    (hbegin : (s.journals q).begin config.profileDigest config.catalogSHA256 expires rand read
      write = (j, .ok g)) (hne : config.profileDigest ≠ w.config.profileDigest)
    (h : BackedBy (s.journals q) w e) : BackedBy j w e := fun hlive => by
  obtain ⟨j₁, hload, hlive₁, _, _, _, hlook⟩ := Journal.begin_ok hwf hbegin
  rw [hlive₁, Function.update_of_ne hne.symm] at hlive
  rw [hlook, if_neg hne.symm]
  exact (h.kept (Journal.kept_loadLocked Journal.Outlasts.refl hwf hload)) hlive

theorem Secured.configured (h : Secured s) (hs : Sound s) {deadline : Sample}
    {world : ConfigureWorld} (hrun : s.running = some (i, inst))
    (hzero : (expiryTime inst.smartAccessRestrictionExpires).isZero = false)
    (hbegin : (s.journals q).begin config.profileDigest config.catalogSHA256
      inst.smartAccessRestrictionExpires world.rand world.read world.write = (j, .ok g)) :
    Secured (s.register i (s.control inst)
      (s.newWorker i (s.control inst) config deadline world q g j) j) := by
  obtain ⟨hcur, hinst⟩ := instance_of_running hrun
  generalize hnew : s.newWorker i (s.control inst) config deadline world q g j = new
  have hconfig : new.config = config := by rw [← hnew]; rfl
  have hpath : new.journal = q := by rw [← hnew]; rfl
  obtain ⟨ws, hws, hkept⟩ := s.register_workers i (s.control inst) new j
  have hlen : (s.register i (s.control inst) new j).workers.length = s.workers.length + 1 := by
    rw [hws, List.length_append, List.length_singleton, hkept.length_eq]
  have hcurrent : (s.register i (s.control inst) new j).current = s.current := by
    cases s.control inst <;> rfl
  refine ⟨fun {i' inst'} hi => ?_, fun {i' k inst'} hi hk => ?_, fun {i' k inst'} hc hi hk => ?_,
    fun {i' k inst' w'} hi hk hw' hlatest => ?_⟩
  all_goals
    rw [register_instances] at hi
    obtain ⟨inst₀, hi₀, rfl⟩ := Heap.getElem?_modify_eq_some.mp hi
  · have hcov := h.covered hi₀
    split_ifs
    · exact hcov.grow rfl le_rfl hcov.leases
    · exact hcov
  · rw [hlen]
    split_ifs at hk
    · obtain rfl := Option.some.inj hk
      exact Nat.lt_succ_self _
    · exact (h.known hi₀ hk).trans (Nat.lt_succ_self _)
  · rw [hcurrent, hcur] at hc
    obtain rfl := Option.some.inj hc
    rw [if_pos rfl] at hk
    rw [hlen, ← Option.some.inj hk]
  · rw [register_journals, hpath]
    rcases hlatest.of_register hw' with ⟨w₀, hw₀, hkw, hold, hne⟩ | ⟨hk', rfl⟩
    · -- an older worker, with no later one on its record
      rw [hpath, hconfig] at hne
      have hk₀ : inst₀.smartAccessControl = some k := by
        split_ifs at hk
        · exact absurd (Option.some.inj hk) (List.getElem?_eq_some_iff.mp hw₀).1.ne'
        · exact hk
      have hback := (h.backed hi₀ hk₀ hw₀ hold).same (sameWorker_of_kept hkw)
      have hexp : (if i = i' then ({ inst₀ with smartAccessControl := some s.workers.length } :
          Instance) else inst₀).smartAccessRestrictionExpires =
          inst₀.smartAccessRestrictionExpires := by
        split_ifs <;> rfl
      rw [hexp]
      rcases eq_or_ne w'.journal q with hq | hq
      · rw [hq, Function.update_self]
        rw [← hkw.journal, hq] at hback
        exact hback.begin (hs.wf q) hbegin (hne hq.symm)
      · rw [Function.update_of_ne hq, hkw.journal]
        exact hback
    · -- the new one, which is the worker of the running instance only
      rw [hpath, Function.update_self]
      split_ifs at hk ⊢ with hii
      · subst hii
        obtain rfl := Option.some.inj (hinst.symm.trans hi₀)
        exact backedBy_begin (hs.wf q) hzero hbegin hconfig
      · exact absurd (h.known hi₀ hk) (by omega)

/-- One instance changes with the journals: its bound grows, and the record of its worker first. -/
theorem Secured.renew (h : Secured s) {f : Instance → Instance}
    (hinst : s.instances[i]? = some inst) (hmoved : Moved inst (f inst))
    (hcovered : inst.Covered → (f inst).Covered)
    (hbacked : ∀ {k : ℕ} {w : Worker}, inst.smartAccessControl = some k → s.workers[k]? = some w →
      BackedBy (s.journals w.journal) w inst.smartAccessRestrictionExpires →
      BackedBy (s'.journals w.journal) w (f inst).smartAccessRestrictionExpires)
    (hc : s'.current = s.current) (hw : s'.workers = s.workers)
    (hi : s'.instances = s.instances.modify i f)
    (hj : ∀ q, Journal.Kept Journal.Outlasts (s.journals q) (s'.journals q)) : Secured s' := by
  refine h.advance (.inl hc) (hw ▸ Heap.forall₂_refl (fun _ => ⟨rfl, rfl, rfl⟩) _)
    (hi ▸ Heap.forall₂_modify (fun _ => ⟨rfl, rfl⟩) fun x hx => ?_)
    (fun {i' x x'} hx hx' hcov => ?_) (fun {i' k x x' w} hx hx' hk hkw hb => ?_)
  · obtain rfl := Option.some.inj (hinst.symm.trans hx)
    exact hmoved
  all_goals
    rw [hi] at hx'
    obtain ⟨x₀, hx₀, rfl⟩ := Heap.getElem?_modify_eq_some.mp hx'
    obtain rfl := Option.some.inj (hx₀.symm.trans hx)
    split_ifs with hii
  · subst hii
    obtain rfl := Option.some.inj (hinst.symm.trans hx)
    exact hcovered hcov
  · exact hcov
  · subst hii
    obtain rfl := Option.some.inj (hinst.symm.trans hx)
    exact hbacked hk hkw hb
  · exact hb.kept (hj w.journal)

variable {grant : SmartAccess.Grant}

/-- The callback of the host, if it ran, left the outbounds within the bound. -/
theorem RenewedLeases.within {control : Option (ℕ × Worker)} {expectedID : String}
    {ws ws' : List World} {st st' : Bound}
    (h : RenewedLeases (retainExpiry control write) expectedID grant ws st ws' st')
    (hwf : ∀ q, (st.2 q).Wf) :
    ∃ d b, Retained control write d st st' b ∧ (Within ws st.1 → Within ws' st'.1) := by
  cases h with
  | untouched hsteady =>
    exact ⟨Journal.zeroDate, false, .refl _, fun hin => hin.steady hsteady⟩
  | retained hsteady d b hret =>
    have hr := retained_retainExpiry hwf hret
    exact ⟨d, b, hr, fun hin => (hin.steady hsteady).mono hr.grows⟩
  | adopted m w w' clock next hw hc hret hw' hsteady =>
    have hr := retained_retainExpiry hwf hret
    exact ⟨_, true, hr, fun hin =>
      ((hin.mono hr.grows).adopt hw hw' (hr.covers rfl)).steady hsteady⟩

theorem control_of_some (hk : inst.smartAccessControl = some k) (hw : s.workers[k]? = some w) :
    s.control inst = some (k, w) := by
  rw [control, hk, Option.bind_some, hw, Option.map_some]

theorem Secured.renewed (h : Secured s) (hs : Sound s) {expectedID : String} {ws : List World}
    {st : Bound} (hrun : s.running = some (i, inst))
    (hrenew : RenewedLeases (retainExpiry (s.control inst) write) expectedID grant inst.leases
      (inst.smartAccessRestrictionExpires, s.journals) ws st) :
    Secured { s.modifyInstance i ({ · with
        leases := ws, smartAccessRestrictionExpires := st.1 }) with journals := st.2 } := by
  obtain ⟨d, b, hr, hwithin⟩ := hrenew.within hs.wf
  refine h.renew (instance_of_running hrun).2 ⟨rfl, rfl⟩ (fun hcov => ?_)
    (fun {k w} hk hw hb => ?_) rfl rfl rfl fun q => (hr.journals q).mono fun _ _ hc => hc.expiry
  · exact hcov.grow rfl hr.grows (hwithin hcov.leases)
  · exact hr.backed k w (control_of_some hk hw) hb

theorem instance_of_registered (h : s.registered k w = some inst) :
    s.running = some (w.box, inst) ∧ inst.smartAccessControl = some k := by
  obtain ⟨⟨i, inst'⟩, hrun, h⟩ := Option.bind_eq_some_iff.mp h
  obtain ⟨⟨hbox, hk⟩, h⟩ := Option.ite_none_right_eq_some.mp h
  obtain rfl := Option.some.inj h
  dsimp only at hbox
  rw [← hbox]
  exact ⟨hrun, hk⟩

theorem Secured.latest_of_registered (h : Secured s) (hreg : (s.registered k w).isSome) :
    s.Latest k w := by
  obtain ⟨inst, hreg⟩ := Option.isSome_iff_exists.mp hreg
  obtain ⟨hrun, hcontrol⟩ := instance_of_registered hreg
  obtain ⟨hcur, hinst⟩ := instance_of_running hrun
  exact h.latest w hcur hinst hcontrol

section

variable (d : Date) (inst : Instance)

@[simp] theorem raiseBound_profile : (raiseBound d inst).profile = inst.profile := by
  unfold raiseBound
  split_ifs <;> rfl

@[simp] theorem raiseBound_control :
    (raiseBound d inst).smartAccessControl = inst.smartAccessControl := by
  unfold raiseBound
  split_ifs <;> rfl

@[simp] theorem raiseBound_leases : (raiseBound d inst).leases = inst.leases := by
  unfold raiseBound
  split_ifs <;> rfl

end

theorem wall_le_raiseBound (d : Date) (inst : Instance) :
    (expiryTime inst.smartAccessRestrictionExpires).wall ≤
        (expiryTime (raiseBound d inst).smartAccessRestrictionExpires).wall ∧
      d.toTime.wall ≤ (expiryTime (raiseBound d inst).smartAccessRestrictionExpires).wall := by
  unfold raiseBound
  split_ifs with h
  · exact ⟨(ExpiryLe.of_after h).wall, le_rfl⟩
  · rw [after_expiryTime, decide_eq_true_eq, not_lt] at h
    exact ⟨le_rfl, h⟩

theorem activeUntil_of_candidate {h : SmartAccess.Outbound} {id : String} {lease : LeaseIdentity}
    {clock : SmartAccess.RenewClock} {next : SmartAccess.LeaseAuthorization}
    (hc : h.Candidate id (grantOf lease) clock next) :
    next.activeUntil = lease.activeFlowsUntil :=
  Date.format_injective (SmartAccess.newLeaseAuthorization_spec hc.built).2.2.2.1

theorem Secured.applied (h : Secured s) (hs : Sound s) {a : Attempt} {lease : LeaseIdentity}
    {ids : List String} {n : ℕ} {out : World} {world : ApplyWorld} {b : Bool}
    (hreg : s.registered k w = some inst) (hkw : s.workers[k]? = some w)
    (hn : inst.leases[n]? = some out) (happ : Application s w a lease ids n out world s' b) :
    Secured s' := by
  obtain ⟨hrun, hk⟩ := instance_of_registered hreg
  have hinst := (instance_of_running hrun).2
  have hput : ∀ q, Journal.Kept Journal.Outlasts (s.journals q) (s'.journals q) := fun q =>
    (happ.journals (hs.wf w.journal) q).mono fun _ _ hc => hc.expiry
  cases happ with
  | refused out' j hout hj =>
    refine h.renew (f := putLease n out') hinst ⟨rfl, rfl⟩ (fun hcov => ?_)
      (fun {k' w'} _ _ hb => hb.kept (hput w'.journal)) rfl rfl rfl hput
    exact hcov.grow rfl le_rfl (hcov.leases.steady (Heap.forall₂_set (fun v => .refl v.outbound)
      fun v hv => Option.some.inj (hn.symm.trans hv) ▸ hout))
  | adopted out' j next hc hret hout =>
    have hbound := wall_le_raiseBound lease.activeFlowsUntil (putLease n out' inst)
    refine h.renew (f := raiseBound lease.activeFlowsUntil ∘ putLease n out') hinst
      ⟨raiseBound_profile _ _, raiseBound_control _ _⟩ (fun hcov => ?_)
      (fun {k' w'} hk' hw' hb hlive => ?_) rfl rfl (List.modify_modify_eq ..) hput
    · refine hcov.grow (raiseBound_profile _ _) hbound.1 ?_
      rw [Function.comp, raiseBound_leases]
      exact (hcov.leases.mono hbound.1).adopt hn hout (activeUntil_of_candidate hc ▸ hbound.2)
    · -- the record has its old expiry covered, and the successor's end
      obtain rfl := Option.some.inj (hk.symm.trans hk')
      obtain rfl := Option.some.inj (hkw.symm.trans hw')
      obtain ⟨r, hr, hold⟩ := hb.kept (hput w.journal) hlive
      refine ⟨r, hr, ?_⟩
      obtain ⟨_, _, _, _, _, _, r', _, _, _, _, hr', _, _, hnext⟩ :=
        Journal.retainRenewal_ok (hs.wf w.journal) hret
      rw [show (s.adoptedAt w a.enrollment lease n out' j).journals w.journal = j from
        Function.update_self ..] at hr
      obtain rfl := Option.some.inj (hr.symm.trans hr')
      rw [Function.comp]
      unfold raiseBound
      split_ifs
      · exact hnext.wall
      · exact hold

/-- **Every move keeps the bounds secured.** -/
theorem Move.secured (hm : Move write s s') (hs : Sound s) (h : Secured s) : Secured s' := by
  cases hm with
  | none => exact h
  | built profile leases clock hleases => exact h.built hleases
  | configured i inst config deadline world q j g hrun hzero hbegin =>
    exact h.configured hs hrun hzero hbegin
  | renewed i inst expectedID grant ws st hrun hrenew => exact h.renewed hs hrun hrenew
  | restricted k w reason =>
    exact h.mild (mild_perform k w.box _ (Journal.kept_restrict _ _ _ _ (hs.wf w.journal)))
  | narrowed k w scope action n =>
    exact h.mild (mild_perform k w.box _ (Journal.kept_restrictScope _ _ _ _ _ (hs.wf w.journal)))
  | adopted k w inst a d lease ids n out world hwrite hk hpc hlease hreg hcap hids htarget =>
    exact h.applied hs hreg hk (target_spec htarget).1
      (adoptLease_application hs.wf w d ids world htarget (hs.verified hk hpc lease hlease))

theorem secured_of_reaches {crypto : Crypto} {disk : Path → Option (List Char)}
    (h : (machine crypto).Reaches (init disk) s) : Secured s :=
  invariant_of_steps (secured_init disk) (fun _ _ _ hs hsec hm => hm.secured hs hsec)
    (fun _ _ hsec hf => hsec.mild hf.mild) h

end Service

end PokrovCore.Daemon
