import PokrovCore.Daemon.RecoveryExpiry

/-!
# Daemon/AppliedEffects — what a worker did to the box is what its record says

A worker restricts its box first and records it afterwards, through two tables of reasons that are
kept apart.  They agree on the leases and on the scopes: the record has the strongest action the
worker ever applied, on top of what it began with (`Reflects`).  They do not agree on the catalog,
which is withdrawn from the box for two reasons and recorded for one of them
(`withdrawn_but_not_recorded`).  And a record has room for 256 scopes: one more leaves it as it is and
the profile marked.

`applied_effects_recorded` — the record of a worker reflects its effects, and no record ever weakens
before it is acknowledged.
-/

namespace PokrovCore.Daemon

open SmartAccess (sampleClock)

/-! ## The strongest action -/

/-- What an effect asks of all leases. -/
def Effect.policy : Effect → PolicyAction
  | .revoke true => .terminate
  | .revoke false => .drain
  | _ => .none

/-- The strongest action on all leases, starting from one. -/
def strongestPolicy (effects : List Effect) (start : PolicyAction) : PolicyAction :=
  effects.foldl (fun a e => max a e.policy) start

/-- What one more effect asks of a scope. -/
def Effect.onScope (scope : Digest) (a : Option ScopeAction) : Effect → Option ScopeAction
  | .revokeScope scope' _ action =>
    if scope' = scope then some (a.elim action (max · action)) else a
  | _ => a

/-- The strongest action on a scope, starting from one. -/
def strongestScope (scope : Digest) (effects : List Effect) (start : Option ScopeAction) :
    Option ScopeAction :=
  effects.foldl (Effect.onScope scope) start

/-- **A record reflects what was done since a worker entered it.**  `full` says that the record may
have no room for a scope: then it has 256 others. -/
structure Reflects (entered : Record) (effects : List Effect) (full : Bool) (r : Record) : Prop where
  policy : r.policyAction = strongestPolicy effects entered.policyAction
  kept : entered.catalogWithdrawn = true → r.catalogWithdrawn = true
  withdrawn : r.catalogWithdrawn = true →
    entered.catalogWithdrawn = true ∨ .revokeRoutingCatalog ∈ effects
  scopes : ∀ scope, r.scopeActions.get? scope =
      strongestScope scope effects (entered.scopeActions.get? scope) ∨
    full = true ∧ r.scopeActions.get? scope = none ∧ 256 ≤ r.scopeActions.size

section

variable {e r r' : Record} {effects : List Effect} {full full' : Bool}

theorem reflects_nil (e : Record) (full : Bool) : Reflects e [] full e :=
  ⟨rfl, fun h => h, .inl, fun _ => .inl rfl⟩

/-- Carrying the record along keeps what it reflects. -/
theorem Reflects.carries (h : Reflects e effects full r) (hc : Carries r r')
    (hfull : full = true → full' = true) : Reflects e effects full' r' where
  policy := hc.policy.trans h.policy
  kept hw := hc.withdrawn ▸ h.kept hw
  withdrawn hw := h.withdrawn (hc.withdrawn ▸ hw)
  scopes scope := by
    rw [hc.scopes]
    exact (h.scopes scope).imp_right fun ⟨hf, hnone⟩ => ⟨hfull hf, hnone⟩

theorem strongestPolicy_append (effects more : List Effect) (a : PolicyAction) :
    strongestPolicy (effects ++ more) a = strongestPolicy more (strongestPolicy effects a) :=
  List.foldl_append

theorem strongestScope_append (scope : Digest) (effects more : List Effect)
    (a : Option ScopeAction) : strongestScope scope (effects ++ more) a =
      strongestScope scope more (strongestScope scope effects a) :=
  List.foldl_append

/-- The two tables agree on the leases. -/
theorem strongestPolicy_controlEffects {reason : Reason} (hreason : reason ≠ .current)
    (a : PolicyAction) :
    strongestPolicy (Service.controlEffects reason) a = reason.action a := by
  cases reason with
  | current => exact absurd rfl hreason
  | issuanceDisabled | accessDenied | providerPolicyDisabled | catalogDisabled =>
    cases a <;> decide

/-- A restriction of the whole profile, applied and recorded. -/
theorem Reflects.restrict (h : Reflects e effects full r) {reason : Reason}
    (hreason : reason ≠ .current) :
    Reflects e (effects ++ Service.controlEffects reason) full
      (Journal.restrictRecord reason r) where
  policy := by
    rw [strongestPolicy_append, strongestPolicy_controlEffects hreason, ← h.policy]
    rfl
  kept hw := by simp [Journal.restrictRecord, h.kept hw]
  withdrawn hw := by
    rcases Bool.or_eq_true_iff.mp hw with hw | hw
    · exact (h.withdrawn hw).imp_right fun hm => List.mem_append_left _ hm
    · obtain rfl := of_decide_eq_true hw
      exact .inr (List.mem_append_right _ (by decide))
  scopes scope := by
    rw [strongestScope_append]
    have hnone : ∀ a, strongestScope scope (Service.controlEffects reason) a = a := fun a => by
      cases reason <;> rfl
    rw [hnone]
    exact h.scopes scope

theorem size_le_restrictScopeRecord (scope : Digest) (action : ScopeAction) (r : Record) :
    r.scopeActions.size ≤ (Journal.restrictScopeRecord scope action r).scopeActions.size := by
  unfold Journal.restrictScopeRecord
  split_ifs
  · cases hget : r.scopeActions.get? scope with
    | none =>
      rw [SortedMap.size_insert_of_absent _ hget]
      exact Nat.le_succ _
    | some a => rw [SortedMap.size_insert_of_present _ hget]
  · exact le_rfl

/-- In its own scope a restriction leaves the stronger of two actions, in the others nothing. -/
theorem restrictScopeRecord_onScope (scope scope' : Digest) (n : ℕ) (action : ScopeAction)
    (r : Record) : (Journal.restrictScopeRecord scope action r).scopeActions.get? scope' =
      Effect.onScope scope' (r.scopeActions.get? scope') (.revokeScope scope n action) := by
  rw [show Effect.onScope scope' (r.scopeActions.get? scope') (.revokeScope scope n action) =
    if scope = scope' then some ((r.scopeActions.get? scope').elim action (max · action))
    else r.scopeActions.get? scope' from rfl]
  unfold Journal.restrictScopeRecord
  by_cases hscope : scope = scope'
  · subst hscope
    rw [if_pos rfl]
    split_ifs with hterm
    · dsimp only
      rw [SortedMap.get?_insert_self]
      rcases hget : r.scopeActions.get? scope with _ | _ | _
      · rfl
      · cases action <;> rfl
      · exact absurd hget hterm
    · rw [not_not.mp hterm]
      cases action <;> rfl
  · rw [if_neg hscope]
    split_ifs
    · exact SortedMap.get?_insert_of_ne _ _ (Ne.symm hscope)
    · rfl

/-- A restriction of one scope, applied and recorded. -/
theorem Reflects.restrictScope (h : Reflects e effects full r) {scope : Digest}
    {action : ScopeAction} (n : ℕ)
    (hroom : r.scopeActions.get? scope = none → r.scopeActions.size < 256) :
    Reflects e (effects ++ [.revokeScope scope n action]) full
      (Journal.restrictScopeRecord scope action r) where
  policy := by
    rw [strongestPolicy_append, ← h.policy]
    unfold Journal.restrictScopeRecord
    split_ifs <;> exact (max_eq_left (PolicyAction.none_le _)).symm
  kept hw := by
    unfold Journal.restrictScopeRecord
    split_ifs <;> exact h.kept hw
  withdrawn hw := by
    refine (h.withdrawn ?_).imp_right fun hm => List.mem_append_left _ hm
    unfold Journal.restrictScopeRecord at hw
    split_ifs at hw <;> exact hw
  scopes scope' := by
    rw [strongestScope_append, restrictScopeRecord_onScope scope scope' n]
    rcases h.scopes scope' with hs | ⟨hf, hnone, hsize⟩
    · rw [hs]
      exact .inl rfl
    · -- a scope that was left out stays out: the table is full of others
      by_cases hscope : scope = scope'
      · subst hscope
        exact absurd hsize (not_le.mpr (hroom hnone))
      · refine .inr ⟨hf, ?_, hsize.trans (size_le_restrictScopeRecord scope action r)⟩
        rw [hnone]
        exact if_neg hscope

/-- A restriction of one scope, applied and left out. -/
theorem Reflects.leftOut (h : Reflects e effects full r) {scope : Digest} {action : ScopeAction}
    (n : ℕ) (hnone : r.scopeActions.get? scope = none) (hsize : 256 ≤ r.scopeActions.size) :
    Reflects e (effects ++ [.revokeScope scope n action]) true r where
  policy := by
    rw [strongestPolicy_append, ← h.policy]
    exact (max_eq_left (PolicyAction.none_le _)).symm
  kept := h.kept
  withdrawn hw := (h.withdrawn hw).imp_right fun hm => List.mem_append_left _ hm
  scopes scope' := by
    by_cases hscope : scope = scope'
    · subst hscope
      exact .inr ⟨rfl, hnone, hsize⟩
    · rw [strongestScope_append]
      have hother : ∀ a, strongestScope scope' [.revokeScope scope n action] a = a := fun a =>
        if_neg hscope
      rw [hother]
      exact (h.scopes scope').imp_right fun ⟨_, hrest⟩ => ⟨rfl, hrest⟩

end

namespace Service

variable {crypto : Crypto} {s s' : Service} {write : Bool}

/-! ## The invariant -/

/-- **The record of a worker reflects its effects**, for as long as there is one. -/
structure RecordedBy (j : Journal) (w : Worker) : Prop where
  loaded : j.loaded = true
  reflects : ∃ e, w.entered = some e ∧
    ∀ r, Journal.lookup w.config.profileDigest j.records = some r →
      r.generation = w.journalGeneration ∧
        Reflects e w.effects (j.unsettled w.config.profileDigest) r

variable {j : Journal} {w : Worker}

theorem RecordedBy.kept {j' : Journal} (h : RecordedBy j w) (hk : Journal.Kept Carries j j') :
    RecordedBy j' w := by
  obtain ⟨e, he, href⟩ := h.reflects
  refine ⟨hk.loaded h.loaded, e, he, fun r' hr' => ?_⟩
  obtain ⟨r, hr, hg, hc, hu⟩ := hk.origin h.loaded hr'
  obtain ⟨hown, hr⟩ := href r hr
  exact ⟨hg.trans hown, hr.carries hc hu⟩

/-- A journal that agrees on the profile of a worker. -/
theorem RecordedBy.agree {j' : Journal} (h : RecordedBy j w) (hloaded : j'.loaded = j.loaded)
    (hunsettled : j'.unsettled w.config.profileDigest = j.unsettled w.config.profileDigest)
    (hlook : Journal.lookup w.config.profileDigest j'.records =
      Journal.lookup w.config.profileDigest j.records) : RecordedBy j' w := by
  obtain ⟨hl, href⟩ := h
  refine ⟨hloaded.trans hl, ?_⟩
  rw [hunsettled, hlook]
  exact href

theorem RecordedBy.same {w' : Worker} (h : RecordedBy j w) (hk : w.Kept w') :
    RecordedBy j w' := by
  obtain ⟨hl, href⟩ := h
  refine ⟨hl, ?_⟩
  rwa [hk.config, hk.generation, hk.entered, hk.effects]

/-- **The record of every worker that is the last on it reflects its effects.** -/
def Recorded (s : Service) : Prop :=
  ∀ (k : ℕ) (w : Worker), s.workers[k]? = some w → s.Latest k w →
    RecordedBy (s.journals w.journal) w

theorem Recorded.advance (h : Recorded s) (hw : List.Forall₂ Worker.Kept s.workers s'.workers)
    (hj : ∀ q, Journal.Kept Carries (s.journals q) (s'.journals q)) : Recorded s' := by
  intro k w' hk hlatest
  obtain ⟨w, hkw, hkept⟩ := Heap.backward hw hk
  have hold : s.Latest k w := hlatest.of_same (sameWorker_of_kept hkept) fun h₁ => by
    obtain ⟨w₂, h₂, hk₂⟩ := Heap.forward hw h₁
    exact ⟨w₂, h₂, sameWorker_of_kept hk₂⟩
  rw [hkept.journal]
  exact ((h k w hkw hold).kept (hj w.journal)).same hkept

/-! ## The moves -/

theorem Recorded.configured (h : Recorded s) (hs : Sound s) {i : ℕ} {inst : Instance}
    {config : ControlConfig} {deadline : Sample} {world : ConfigureWorld} {q : Path}
    {g : Generation} (hbegin : (s.journals q).begin config.profileDigest config.catalogSHA256
      inst.smartAccessRestrictionExpires world.rand world.read world.write = (j, .ok g)) :
    Recorded (s.register i (s.control inst)
      (s.newWorker i (s.control inst) config deadline world q g j) j) := by
  generalize hnew : s.newWorker i (s.control inst) config deadline world q g j = new
  have hconfig : new.config = config := by rw [← hnew]; rfl
  have hpath : new.journal = q := by rw [← hnew]; rfl
  have hentered : new.entered = Journal.lookup config.profileDigest j.records := by
    rw [← hnew]; rfl
  have heffects : new.effects = [] := by rw [← hnew]; rfl
  have hgen : new.journalGeneration = g := by rw [← hnew]; rfl
  obtain ⟨j₁, hload, _, _, hunsettled, hloaded, hlook⟩ := Journal.begin_ok (hs.wf q) hbegin
  intro k w' hk hlatest
  rw [register_journals, hpath]
  rcases hlatest.of_register hk with ⟨w, hkw, hww, hold, hne⟩ | ⟨_, rfl⟩
  · -- an older worker, with no later one on its record
    rw [hpath, hconfig] at hne
    have hrec := (h k w hkw hold).same hww
    rcases eq_or_ne w'.journal q with hq | hq
    · rw [← hww.journal, hq] at hrec
      rw [hq, Function.update_self]
      have hrec₁ := hrec.kept (Journal.kept_loadLocked Carries.refl (hs.wf q) hload)
      refine hrec₁.agree (hloaded.trans hrec₁.loaded.symm) ?_ ?_
      · rw [hunsettled]
      · rw [hlook, if_neg (hne hq.symm).symm]
    · rw [Function.update_of_ne hq, hww.journal]
      exact hrec
  · -- the new one has done nothing yet
    rw [hpath, Function.update_self]
    have hr := (hlook config.profileDigest).trans (if_pos rfl)
    refine ⟨hloaded, _, hentered.trans hr, fun r hr' => ?_⟩
    rw [hconfig, hr] at hr'
    obtain rfl := Option.some.inj hr'
    rw [heffects, hgen]
    exact ⟨rfl, reflects_nil _ _⟩

/-- The worker of the running instance does something to its box and to its record; no other live
worker has that record. -/
theorem Recorded.perform (h : Recorded s) (hsec : Secured s) {k : ℕ} (hk : s.workers[k]? = some w)
    (hreg : (s.registered k w).isSome) (effects : List Effect)
    (hown : RecordedBy (s.journals w.journal) w →
      RecordedBy j { w with effects := w.effects ++ effects })
    (hother : ∀ p, p ≠ w.config.profileDigest → j.loaded = (s.journals w.journal).loaded ∧
      j.unsettled p = (s.journals w.journal).unsettled p ∧
      Journal.lookup p j.records = Journal.lookup p (s.journals w.journal).records) :
    Recorded ((s.performAll k w.box effects).putJournal w.journal j) := by
  obtain ⟨inst, hreg⟩ := Option.isSome_iff_exists.mp hreg
  obtain ⟨hrun, hcontrol⟩ := instance_of_registered hreg
  obtain ⟨hcur, hinst⟩ := instance_of_running hrun
  have hnewest := hsec.newest hcur hinst hcontrol
  intro k' w' hk' hlatest
  obtain ⟨w₀, hk₀, rfl⟩ := Heap.getElem?_modify_eq_some.mp hk'
  have hsame : SameWorker w₀ (if k = k' then { w₀ with effects := w₀.effects ++ effects } else w₀) := by
    split_ifs <;> exact ⟨rfl, rfl, rfl⟩
  have hold : s.Latest k' w₀ := hlatest.of_same hsame fun {k₁ w₁} h₁ => by
    refine ⟨_, Heap.getElem?_modify_eq_some.mpr ⟨w₁, h₁, rfl⟩, ?_⟩
    split_ifs <;> exact ⟨rfl, rfl, rfl⟩
  have hrec := h k' w₀ hk₀ hold
  show RecordedBy (Function.update s.journals w.journal j _) _
  rw [hsame.journal]
  split_ifs with hkk
  · subst hkk
    obtain rfl := Option.some.inj (hk.symm.trans hk₀)
    rw [Function.update_self]
    exact hown hrec
  · rcases eq_or_ne w₀.journal w.journal with hq | hq
    · have hlt : k' < k := by
        have hlen : k' < s.workers.length := (List.getElem?_eq_some_iff.mp hk₀).1
        omega
      have hp := (hold k w hlt hk hq.symm).symm
      rw [hq] at hrec ⊢
      rw [Function.update_self]
      obtain ⟨hloaded, hunsettled, hlook⟩ := hother _ hp
      exact hrec.agree hloaded hunsettled hlook
    · rw [Function.update_of_ne hq]
      exact hrec

theorem RecordedBy.restrict (h : RecordedBy j w) (hw : j.Wf) {reason : Reason}
    (hreason : reason ≠ .current) (write : Bool) :
    RecordedBy (j.restrict w.config.profileDigest w.journalGeneration reason write)
      { w with effects := w.effects ++ controlEffects reason } := by
  obtain ⟨hl, e, he, href⟩ := h
  cases hr : Journal.lookup w.config.profileDigest j.records with
  | none =>
    rw [Journal.restrict_absent hw hr]
    refine ⟨hl, e, he, fun r hr' => ?_⟩
    cases hr.symm.trans hr'
  | some r =>
    obtain ⟨hg, href⟩ := href r hr
    obtain ⟨j', hj', _, hu, hloaded, hlook⟩ := Journal.restrict_owned hw hr hg reason write
    rw [hj']
    refine ⟨hloaded.trans hl, e, he, fun r' hr' => ?_⟩
    obtain rfl := Option.some.inj (hlook.symm.trans hr')
    rw [hu]
    exact ⟨hg, href.restrict hreason⟩

theorem RecordedBy.restrictScope (h : RecordedBy j w) (hw : j.Wf) (scope : Digest)
    (action : ScopeAction) (n : ℕ) (write : Bool) :
    RecordedBy (j.restrictScope w.config.profileDigest w.journalGeneration scope action write)
      { w with effects := w.effects ++ [.revokeScope scope n action] } := by
  obtain ⟨hl, e, he, href⟩ := h
  cases hr : Journal.lookup w.config.profileDigest j.records with
  | none =>
    rw [Journal.restrictScope_absent hw hr]
    refine ⟨hl, e, he, fun r hr' => ?_⟩
    cases hr.symm.trans hr'
  | some r =>
    obtain ⟨hg, href⟩ := href r hr
    obtain ⟨j', hj', _, hloaded, hcase⟩ := Journal.restrictScope_owned hw hr hg scope action write
    rw [hj']
    refine ⟨hloaded.trans hl, e, he, fun r' hr' => ?_⟩
    rcases hcase with ⟨hnone, hsize, hrs, hu⟩ | ⟨hroom, hu, hlook⟩
    · -- no room: the record stays, the profile is marked
      dsimp only at hr' ⊢
      rw [hrs] at hr'
      obtain rfl := Option.some.inj (hr.symm.trans hr')
      rw [hu, Function.update_self]
      exact ⟨hg, href.leftOut n hnone hsize⟩
    · obtain rfl := Option.some.inj (hlook.symm.trans hr')
      rw [hu]
      obtain ⟨m, hm⟩ := Journal.restrictScopeRecord_eq scope action r
      exact ⟨by rw [hm]; exact hg, href.restrictScope n hroom⟩

theorem Move.recorded (hm : Move write s s') (hs : Sound s) (hsec : Secured s) (h : Recorded s) :
    Recorded s' := by
  have hrefl := Heap.forall₂_refl Worker.Kept.refl s.workers
  cases hm with
  | none => exact h
  | built => exact h.advance hrefl fun _ => .refl Carries.refl _
  | configured i inst config deadline world q j g hrun hzero hbegin => exact h.configured hs hbegin
  | renewed i inst expectedID grant ws st hrun hrenew =>
    obtain ⟨d, b, hret, _⟩ := hrenew.within hs.wf
    exact h.advance hrefl hret.journals
  | restricted k w reason hk hreg hreason =>
    exact h.perform hsec hk hreg _ (fun hw => hw.restrict (hs.wf w.journal) hreason write)
      fun p hp => Journal.restrict_other (hs.wf w.journal) hp _ reason write
  | narrowed k w scope action n hk hreg =>
    exact h.perform hsec hk hreg _ (fun hw => hw.restrictScope (hs.wf w.journal) scope action n write)
      fun p hp => Journal.restrictScope_other (hs.wf w.journal) hp _ scope action write
  | adopted k w inst a d lease ids n out world hwrite hk hpc hlease hreg hcap hids htarget =>
    refine h.advance (by rw [adoptLease_workers]; exact hrefl) ?_
    exact (adoptLease_application hs.wf w d ids world htarget
      (hs.verified hk hpc lease hlease)).journals (hs.wf w.journal)

theorem recorded_of_reaches {disk : Path → Option (List Char)}
    (h : (machine crypto).Reaches (init disk) s) : Secured s ∧ Recorded s :=
  invariant_of_steps (P := fun s => Secured s ∧ Recorded s)
    ⟨secured_init disk, fun k w hk => by cases hk⟩
    (fun _ _ _ hs hp hm => ⟨hm.secured hs hp.1, hm.recorded hs hp.1 hp.2⟩)
    (fun _ _ hp hf => ⟨hp.1.mild hf.mild, hp.2.advance hf.workers hf.journals⟩) h

/-! ## The records along a run -/

/-- A record weakens only as it is handed over: in an acknowledgement that is answered with `true`,
and when its worker is not live. -/
theorem step_stricter (hs : Sound s) {event : Event} {o : Output}
    (hstep : s.step crypto event = some (s', o)) {q : Path} {p : Digest} {r : Record}
    (hr : Journal.lookup p (s.journals q).records = some r) :
    (∃ r', Journal.lookup p (s'.journals q).records = some r' ∧ Stricter r r') ∨
      (∃ d read write again, event = .acknowledge q d read write again) ∧
        o = .acknowledged (.ok true) ∧ (s.journals q).isLive r = false := by
  by_cases hack : ∃ q d a b c, event = .acknowledge q d a b c
  · obtain ⟨q', d, a, b, c, rfl⟩ := hack
    obtain ⟨hj, rfl⟩ := step_acknowledge hstep
    rw [hj]
    rcases eq_or_ne q q' with rfl | hq
    · rw [Function.update_self]
      exact (Journal.acknowledge_stricter (hs.wf q) crypto.sha256 d a b c hr).imp_right
        fun h => ⟨⟨d, a, b, c, rfl⟩, by rw [h.1], h.2⟩
    · rw [Function.update_of_ne hq]
      exact .inl ⟨r, hr, .refl r⟩
  · have hc := step_changes hs.wf hstep (fun q' d a b c he => hack ⟨q', d, a, b, c, he⟩) q
    exact .inl (Journal.Changes.stricter hc (hs.wf q) hr)

/-- **A record only tightens until it is handed over**: along every further run whose
acknowledgements find its worker live, the record of a profile stays, and no restriction in it gets
weaker. -/
theorem record_tightens_until_handed_over {disk : Path → Option (List Char)} {q : Path} {p : Digest}
    {r : Record} (h : (machine crypto).Reaches (init disk) s)
    (hrun : (machine crypto).ReachesIf (fun t event =>
      (∃ d read write again, event = .acknowledge q d read write again) →
        ∀ r, Journal.lookup p (t.journals q).records = some r → (t.journals q).isLive r = true) s s')
    (hr : Journal.lookup p (s.journals q).records = some r) :
    ∃ r', Journal.lookup p (s'.journals q).records = some r' ∧ Stricter r r' := by
  refine (hrun.invariant (P := fun t => Sound t ∧ ∃ r',
    Journal.lookup p (t.journals q).records = some r' ∧ Stricter r r') ?_
    ⟨sound_of_reaches h, r, hr, .refl r⟩).2
  rintro a event b o hlive hs ⟨ha, r₁, hr₁, hst⟩
  refine ⟨step_sound ha hs, ?_⟩
  rcases step_stricter ha hs hr₁ with ⟨r₂, hr₂, hst'⟩ | ⟨hack, -, hdead⟩
  · exact ⟨r₂, hr₂, hst.trans hst'⟩
  · cases (hlive hack r₁ hr₁).symm.trans hdead

/-- A withdrawn catalog is recorded as withdrawn. -/
theorem step_withdrawn (hs : Sound s) (h : Recorded s) (hsec : Secured s) {k : ℕ} {d : Decision}
    {clock : ControlClock} {fired : Bool} {o : Output} (hk : s.workers[k]? = some w)
    (hpc : w.pc = .deciding d) (hmay : s.mayApply k w d clock fired = true)
    (hreason : d.reason = .catalogDisabled)
    (hstep : s.step crypto (.applyControl k clock fired write) = some (s', o)) {r : Record}
    (hr : Journal.lookup w.config.profileDigest (s.journals w.journal).records = some r) :
    ∃ r', Journal.lookup w.config.profileDigest (s'.journals w.journal).records = some r' ∧
      r'.catalogWithdrawn = true := by
  have hlatest := hsec.latest_of_registered (registered_of_mayApply hmay)
  obtain ⟨_, e, _, href⟩ := h k w hk hlatest
  obtain ⟨j', hj', _, _, _, hlook⟩ := Journal.restrict_owned (hs.wf w.journal) hr (href r hr).1
    d.reason write
  have happly : s'.journals = Function.update s.journals w.journal j' := by
    obtain ⟨w', hw', hstep⟩ := Option.bind_eq_some_iff.mp hstep
    obtain rfl := Option.some.inj (hk.symm.trans hw')
    rw [stepWorker, hpc] at hstep
    obtain rfl := Machine.state_eq hstep
    rw [applySmartAccessRuntimeControl, if_pos (by simp [hmay, hreason]), ← hj']
    rfl
  rw [happly, Function.update_self]
  exact ⟨_, hlook, by simp [Journal.restrictRecord, hreason]⟩

/-- Access is denied: what the worker did, and what its record says. -/
theorem denied_run : ∃ s w inst r, (machine sampleCrypto).Reaches (init fun _ => none) s ∧
    s.workers[0]? = some w ∧ s.registered 0 w = some inst ∧
    w.effects = [.revokeRoutingCatalog, .revoke true] ∧
    Journal.lookup w.config.profileDigest (s.journals w.journal).records = some r ∧
    r.policyAction = .terminate ∧ r.catalogWithdrawn = false := by
  have hrun : (((machine sampleCrypto).run (init fun _ => none) (sampleRestart.take 4)).bind
      fun s => (machine sampleCrypto).run (s.goto 0 (.deciding sampleDenied))
        [.applyControl 0 ⟨sampleClock, sampleClock, sampleClock, sampleClock⟩ false true]).bind
      (fun s => s.workers[0]?.bind fun w => (s.registered 0 w).bind fun _ =>
        (Journal.lookup w.config.profileDigest (s.journals w.journal).records).map fun r =>
          (w.effects, r.policyAction, r.catalogWithdrawn)) =
      some ([.revokeRoutingCatalog, .revoke true], .terminate, false) := by decide +kernel
  obtain ⟨s₁, hs₁, hreach₁⟩ := reaches_denied
  rw [hs₁] at hrun
  obtain ⟨s, hs, hval⟩ := Option.bind_eq_some_iff.mp hrun
  obtain ⟨w, hw, hval⟩ := Option.bind_eq_some_iff.mp hval
  obtain ⟨inst, hreg, hval⟩ := Option.bind_eq_some_iff.mp hval
  obtain ⟨r, hr, hval⟩ := Option.map_eq_some_iff.mp hval
  obtain ⟨heffects, hval⟩ := Prod.mk.inj hval
  obtain ⟨hpolicy, hwithdrawn⟩ := Prod.mk.inj hval
  exact ⟨s, w, inst, r, hreach₁.trans (Machine.reaches_run hs), hw, hreg, heffects, hr, hpolicy,
    hwithdrawn⟩

/-- The denial stays on record when the service is closed. -/
theorem record_tightens_until_handed_over_sample : ∃ s q p r,
    (machine sampleCrypto).Reaches (init fun _ => none) s ∧
    Journal.lookup p (s.close.journals q).records = some r ∧ .terminate ≤ r.policyAction := by
  obtain ⟨s, w, _, r, hs, _, _, _, hr, hpolicy, _⟩ := denied_run
  obtain ⟨r', hr', hst⟩ := record_tightens_until_handed_over hs
    (.single (e := .close) (fun ⟨_, _, _, _, he⟩ => by cases he) rfl) hr
  exact ⟨s, _, _, r', hs, hr', hpolicy ▸ hst.policy⟩

end Service

end PokrovCore.Daemon
