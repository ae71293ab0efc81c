import PokrovCore.Daemon.JournalRuns

/-!
# Daemon/JournalCrash — a delivered restriction is never forgotten

A restriction reaches memory first and the file when a write succeeds, which may be never.  What
carries it over a crash is the pending mark a worker's record had on disk before the worker started:
only the write that settles the worker clears it, and that write carries what memory has.  `Owes`
says this of one journal, for its file and for its memory; every change keeps it (`Change.owes`).
-/

namespace PokrovCore.Daemon

/-- **A record at least as strict as a delivery**, in the same scope or for the whole profile. -/
def Record.Covers (r : Record) : Delivery → Prop
  | .policy reason => reason.action .none ≤ r.policyAction ∧
      (reason = .catalogDisabled → r.catalogWithdrawn = true)
  | .scope scope action => ∃ a, r.scopeActions.get? scope = some a ∧ action ≤ a

theorem Stricter.covers {r r' : Record} {d : Delivery} (h : Stricter r r') (hd : r.Covers d) :
    r'.Covers d := by
  cases d with
  | policy reason => exact ⟨hd.1.trans h.policy, fun hr => h.withdrawn (hd.2 hr)⟩
  | scope scope action =>
    obtain ⟨a, ha, hle⟩ := hd
    obtain ⟨b, hb, hab⟩ := h.scopes scope a ha
    exact ⟨b, hb, hle.trans hab⟩

namespace Journal

variable {j j' : Journal} {p : Digest} {g : Generation} {rs : List Record} {r : Record}
  {d : Delivery} {disk : Option (List Char)}

/-- What the file says of a delivery still owed. -/
def FileOwes (d : Delivery) (p : Digest) (j : Journal) : Prop :=
  ∃ f, j.filed p = some f ∧ (f.pending = true ∨ f.Covers d)

/-- What memory says of it: the record covers it, or it stays pending until it is handed over. -/
def MemoryOwes (d : Delivery) (p : Digest) (j : Journal) : Prop :=
  ∃ r, lookup p j.records = some r ∧
    (r.Covers d ∨ r.pending = true ∧ (j.unsettled p = true ∨ j.live p = none))

/-- **A delivery not yet handed over.** -/
def Owes (d : Delivery) (p : Digest) (j : Journal) : Prop :=
  FileOwes d p j ∧ (j.loaded = true → MemoryOwes d p j)

/-- What memory owes is on file once memory is written. -/
theorem MemoryOwes.written (h : MemoryOwes d p j) (hl : Loadable j.records)
    (hd : Written j.records j.disk) : FileOwes d p j := by
  obtain ⟨r, hr, hcase⟩ := h
  refine ⟨r, (filed_of_written hl hd p).trans hr, ?_⟩
  rcases hcase with hcov | ⟨hpend, _⟩
  · exact .inr hcov
  · exact .inl hpend

/-- A worker that may begin finds nothing but covered deliveries. -/
theorem MemoryOwes.free {catalog : Option Digest} (h : MemoryOwes d p j)
    (hfree : j.refusal p catalog = none) : ∃ r, lookup p j.records = some r ∧ r.Covers d := by
  obtain ⟨hun, _, hrec⟩ := refusal_eq_none hfree
  obtain ⟨r, hr, hcase⟩ := h
  refine ⟨r, hr, ?_⟩
  rcases hcase with hcov | ⟨hpend, hmark | hdead⟩
  · exact hcov
  · rw [hun] at hmark
    cases hmark
  · rw [((hrec r hr).1 hdead).1] at hpend
    cases hpend

/-- **Every change keeps what is owed.** -/
theorem Change.owes (hc : Change j j') (hw : j.Wf) (h : Owes d p j) : Owes d p j' := by
  have hw' := hc.wf hw
  obtain ⟨hfile, hmem⟩ := h
  cases hc with
  | load hun hs =>
    refine ⟨hfile, fun _ => ?_⟩
    obtain ⟨f, hf, hcase⟩ := hfile
    refine ⟨f, lookup_of_stored hs hf, ?_⟩
    rcases hcase with hpend | hcov
    · exact .inr ⟨hpend, .inr ((hw.unloaded hun).2 p)⟩
    · exact .inl hcov
  | flush hl hd => exact ⟨MemoryOwes.written (hmem hl) hw'.loadable hd, hmem⟩
  | @enter q catalog expires g disk hl hfree hd =>
    have hmem' : MemoryOwes d p { j with
        records := j.entered q catalog expires g, disk := disk,
        live := Function.update j.live q (some g) } := by
      rcases eq_or_ne p q with rfl | hne
      · obtain ⟨r, hr, hcov⟩ := (hmem hl).free hfree
        refine ⟨_, ?_, .inl ((enter_stricter catalog expires g r).covers hcov)⟩
        rw [lookup_entered hw.loadable, if_pos rfl, before, hr]
        rfl
      · obtain ⟨r, hr, hcase⟩ := hmem hl
        refine ⟨r, ?_, ?_⟩
        · rw [lookup_entered hw.loadable, if_neg hne]
          exact hr
        · dsimp only
          rwa [Function.update_of_ne hne]
    exact ⟨hmem'.written hw'.loadable hd, fun _ => hmem'⟩
  | @tighten l₁ l₂ r₁ r₂ disk hsplit hst hown hpend hd =>
    have hl : Loadable (l₁ ++ r₁ :: l₂) := hsplit ▸ hw.loadable
    have hmem' : MemoryOwes d p { j with records := l₁ ++ r₂ :: l₂, disk := disk } := by
      obtain ⟨r, hr, hcase⟩ := hmem (hw.loaded_of_records hsplit)
      rcases lookup_replace_cases hl hst.profile (hsplit ▸ hr) with ⟨_, rfl, h⟩ | ⟨_, h⟩
      · exact ⟨r₂, h, hcase.imp hst.covers fun hp => ⟨hpend.trans hp.1, hp.2⟩⟩
      · exact ⟨r, h, hcase⟩
    refine ⟨?_, fun _ => hmem'⟩
    rcases hd with hd | ⟨rfl, _⟩
    · exact hmem'.written hw'.loadable hd
    · exact hfile
  | @mark q _ =>
    refine ⟨hfile, fun hl => ?_⟩
    obtain ⟨r, hr, hcase⟩ := hmem hl
    refine ⟨r, hr, hcase.imp_right fun hp => ⟨hp.1, hp.2.imp_left fun hu => ?_⟩⟩
    rcases eq_or_ne p q with rfl | hne
    · exact Function.update_self ..
    · exact (Function.update_of_ne hne ..).trans hu
  | @settle l₁ l₂ r₁ g disk hsplit hlive hd =>
    have hl : Loadable (l₁ ++ r₁ :: l₂) := hsplit ▸ hw.loadable
    have hst := settled_stricter (j.unsettled r₁.profileDigest) r₁
    have hmem' : MemoryOwes d p { j with
        records := l₁ ++ settled (j.unsettled r₁.profileDigest) r₁ :: l₂, disk := disk,
        live := Function.update j.live r₁.profileDigest none } := by
      obtain ⟨r, hr, hcase⟩ := hmem (hw.loaded_of_records hsplit)
      rcases lookup_replace_cases hl hst.profile (hsplit ▸ hr) with ⟨rfl, rfl, h⟩ | ⟨hne, h⟩
      · -- the worker was live, so what it has not covered is marked
        refine ⟨_, h, hcase.imp hst.covers fun hp => ?_⟩
        rcases hp.2 with hmark | hdead
        · exact ⟨hmark, .inl hmark⟩
        · rw [hlive] at hdead
          cases hdead
      · refine ⟨r, h, ?_⟩
        dsimp only
        rwa [Function.update_of_ne hne]
    refine ⟨?_, fun _ => hmem'⟩
    rcases hd with hd | rfl
    · exact hmem'.written hw'.loadable hd
    · exact hfile

theorem Changes.owes (hc : Changes j j') (hw : j.Wf) (h : Owes d p j) : Owes d p j' := by
  induction hc with
  | refl => exact h
  | tail hcs hc ih => exact hc.owes (Changes.wf hcs hw) ih

/-! ## Delivering and handing over -/

/-- What the live worker has in memory is owed: its record is pending on file. -/
theorem owes_of_live (hw : j.Wf) (hlive : j.live p = some g) (hmem : MemoryOwes d p j) :
    Owes d p j := by
  obtain ⟨r, f, _, hf, hpend, _⟩ := hw.pledged hlive
  exact ⟨⟨f, hf, .inl hpend⟩, fun _ => hmem⟩

theorem restrict_owes (hw : j.Wf) (hlive : j.live p = some g) (reason : Reason) (write : Bool) :
    Owes (.policy reason) p (j.restrict p g reason write) := by
  obtain ⟨r, hr, hg, _⟩ := hw.owner hlive
  obtain ⟨j', hj', hl, _, _, hlook⟩ := restrict_owned hw hr hg reason write
  have hw' := Changes.wf (restrict_changes p g reason write j) hw
  rw [hj'] at hw' ⊢
  exact owes_of_live hw' (hl ▸ hlive) ⟨_, hlook, .inl ⟨reason.action_none_le r.policyAction,
    fun h => by simp [restrictRecord, h]⟩⟩

theorem restrictScope_owes (hw : j.Wf) (hlive : j.live p = some g) (scope : Digest)
    (action : ScopeAction) (write : Bool) :
    Owes (.scope scope action) p (j.restrictScope p g scope action write) := by
  obtain ⟨r, hr, hg, _⟩ := hw.owner hlive
  obtain ⟨j', hj', hl, _, hcase⟩ := restrictScope_owned hw hr hg scope action write
  have hw' := Changes.wf (restrictScope_changes p g scope action write j hw.loadable) hw
  rw [hj'] at hw' ⊢
  refine owes_of_live hw' (hl ▸ hlive) ?_
  rcases hcase with ⟨_, _, hrs, hu⟩ | ⟨_, _, hlook⟩
  · obtain ⟨r', hr', _, hpend⟩ := hw'.owner (hl ▸ hlive)
    exact ⟨r', hr', .inr ⟨hpend, .inl (hu ▸ Function.update_self ..)⟩⟩
  · exact ⟨_, hlook, .inl (restrictScopeRecord_get? scope action r)⟩

/-- Handing over keeps what is owed by the profiles it keeps. -/
theorem handOver_owes (hw : j.Wf) (hl : j.loaded = true)
    (hd : Written j.handOver.records disk) (h : Owes d p j)
    (hkept : (lookup p j.handOver.records).isSome) :
    Owes d p { j.handOver with disk := disk } := by
  have hw' := hw.handOver hl hd
  obtain ⟨r, hr, hcase⟩ := h.2 hl
  have hmem : MemoryOwes d p { j.handOver with disk := disk } := by
    have hlook := lookup_handOver hw.loadable p
    rw [hr] at hlook
    have hlive : j.isLive r = true := by
      by_contra hn
      rw [hlook, Option.filter_some, if_neg hn] at hkept
      cases hkept
    rw [Option.filter_some, if_pos hlive] at hlook
    refine ⟨r, hlook, hcase.imp_right fun hp => ⟨hp.1, hp.2.imp_left fun hu => ?_⟩⟩
    -- the mark of a profile is cleared only with a record that is not live
    show (j.unsettled p && !j.records.any fun r => ofProfile p r && !j.isLive r) = true
    rw [hu, Bool.true_and, Bool.not_eq_true', List.any_eq_false]
    intro r' hr' hq
    obtain ⟨hp', hdead⟩ := Bool.and_eq_true_iff.mp hq
    have hr'' := Keyed.lookup_of_mem hw.loadable.nodup hr'
    rw [show r'.profileDigest = p from of_decide_eq_true hp'] at hr''
    obtain rfl := Option.some.inj (hr.symm.trans hr'')
    rw [hlive] at hdead
    cases hdead
  exact ⟨hmem.written hw'.loadable hd, fun _ => hmem⟩

end Journal

/-! ## Runs -/

namespace Ledger

open Journal (Owes)

variable {sha256 : List Char → Digest} {w : Ledger} {p : Digest} {g : Generation} {d : Delivery}

theorem mem_deliver {q : Digest} {d' : Delivery} (h : d' ∈ w.deliver p g d q) :
    d' ∈ w.owed q ∨ q = p ∧ d' = d ∧ w.journal.live p = some g := by
  unfold deliver at h
  split_ifs at h with hlive
  · rcases eq_or_ne q p with rfl | hne
    · rw [Function.update_self] at h
      exact (List.mem_cons.mp h).elim (fun h => .inr ⟨rfl, h, hlive⟩) Or.inl
    · rw [Function.update_of_ne hne] at h
      exact .inl h
  · exact .inl h

/-- An acknowledgement keeps what is owed by the profiles it keeps. -/
theorem acknowledge_owes (hw : w.journal.Wf) (ho : ∀ p, ∀ d ∈ w.owed p, Owes d p w.journal)
    (h : String) (read write again : Bool) (q : Digest) (d : Delivery)
    (hd : d ∈ (step sha256 w (.acknowledge h read write again)).1.owed q) :
    Owes d q (step sha256 w (.acknowledge h read write again)).1.journal := by
  dsimp only [step] at hd ⊢
  rcases Journal.acknowledge_cases sha256 h read write again w.journal with
    ⟨e, heq⟩ | ⟨j₁, hload, ⟨e, heq⟩ | ⟨disk, hwr, ⟨a, ha, heq⟩ | ⟨disk', _, hwr, heq⟩⟩⟩
  · rw [heq] at hd ⊢
    exact ho q d hd
  · rw [heq] at hd ⊢
    exact Journal.Changes.owes (Journal.loadLocked_changes hload).1 hw (ho q d hd)
  · obtain ⟨hc, hl, _⟩ := Journal.loadLocked_changes hload
    have howes : d ∈ w.owed q → Owes d q { j₁ with disk := disk } := fun hd =>
      Journal.Changes.owes (hc.tail (.flush hl hwr)) hw (ho q d hd)
    rw [heq] at hd ⊢
    rcases a with e | _ | _
    · exact howes hd
    · exact howes hd
    · exact absurd rfl ha
  · obtain ⟨hc, hl, _⟩ := Journal.loadLocked_changes hload
    rw [heq] at hd ⊢
    dsimp only at hd ⊢
    unfold remaining at hd
    split_ifs at hd with hkept
    · exact Journal.handOver_owes (Journal.Changes.wf hc hw) hl hwr
        (Journal.Changes.owes hc hw (ho q d hd)) hkept
    · cases hd

/-- One call keeps what is owed, and what it delivers is owed. -/
theorem step_owes (sha256 : List Char → Digest) (hw : w.journal.Wf) (ho : ∀ p, ∀ d ∈ w.owed p, Owes d p w.journal) (e : Event) :
    ∀ p, ∀ d ∈ (step sha256 w e).1.owed p, Owes d p (step sha256 w e).1.journal := by
  intro q d hd
  cases e with
  | begin p catalog expires rand read write =>
    exact Journal.Changes.owes (Journal.begin_changes p catalog expires rand read write w.journal)
      hw (ho q d hd)
  | extendExpiry p g expires write =>
    exact Journal.Changes.owes (Journal.extendExpiry_changes p g expires write w.journal)
      hw (ho q d hd)
  | retainRenewal p g previous next currentIDs now write =>
    exact Journal.Changes.owes
      (Journal.retainRenewal_changes p g previous next currentIDs now write w.journal)
      hw (ho q d hd)
  | restrict p g reason write =>
    rcases mem_deliver hd with hd | ⟨rfl, rfl, hlive⟩
    · exact Journal.Changes.owes (Journal.restrict_changes p g reason write w.journal)
        hw (ho q d hd)
    · exact Journal.restrict_owes hw hlive reason write
  | restrictScope p g scope action write =>
    rcases mem_deliver hd with hd | ⟨rfl, rfl, hlive⟩
    · exact Journal.Changes.owes
        (Journal.restrictScope_changes p g scope action write w.journal hw.loadable) hw (ho q d hd)
    · exact Journal.restrictScope_owes hw hlive scope action write
  | finish p g write =>
    exact Journal.Changes.owes (Journal.finish_changes p g write w.journal hw) hw (ho q d hd)
  | readRestrictions read write =>
    have hc := Journal.snapshotLocked_changes sha256 read write w.journal
    dsimp only [step] at hd ⊢
    rcases hs : w.journal.snapshotLocked sha256 read write with ⟨j', _ | _⟩
    all_goals
      rw [hs] at hc hd
      exact Journal.Changes.owes hc hw (ho q d hd)
  | acknowledge h read write again => exact acknowledge_owes hw ho h read write again q d hd
  | crash => exact ⟨(ho q d hd).1, nofun⟩

/-- **Crash safety of the journal.**  In every run — whatever file it starts on, whichever writes
fail, wherever the process dies — a restriction delivered by the live worker of its profile and not
removed by an acknowledgement is on file, as a pending mark or as an action at least as strict; and a
live worker owns the one record of its profile, pending. -/
theorem delivered_restriction_on_file (sha256 : List Char → Digest) (disk : Option (List Char))
    (w : Ledger) (h : (machine sha256).Reaches (fresh disk) w) :
    (∀ p, ∀ d ∈ w.owed p, ∃ rs, w.journal.onDisk = some rs ∧
      ∃ r ∈ rs, r.profileDigest = p ∧ (r.pending = true ∨ r.Covers d)) ∧
    ∀ p g, w.journal.live p = some g → ∃ r,
      w.journal.records.filter (Journal.ofProfile p) = [r] ∧ r.generation = g ∧
      r.pending = true := by
  have hinv : w.journal.Wf ∧ ∀ p, ∀ d ∈ w.owed p, Owes d p w.journal := by
    refine h.invariant (P := fun w => w.journal.Wf ∧ ∀ p, ∀ d ∈ w.owed p, Owes d p w.journal)
      (fun a e b o _ hs ha => ?_) ⟨Journal.wf_fresh disk, nofun⟩
    have hm := step_move sha256 ha.1 e
    have hod := step_owes sha256 ha.1 ha.2 e
    rw [machine_step hs] at hm hod
    exact ⟨hm.wf ha.1, hod⟩
  refine ⟨fun p d hd => ?_, fun p g hlive => ?_⟩
  · obtain ⟨⟨f, hf, hcase⟩, _⟩ := hinv.2 p d hd
    obtain ⟨rs, hrs, hlook⟩ := Option.bind_eq_some_iff.mp hf
    obtain ⟨hm, hp⟩ := Keyed.mem_of_lookup hlook
    exact ⟨rs, hrs, f, hm, hp, hcase⟩
  · obtain ⟨r, hr, hg, hpend⟩ := hinv.1.owner hlive
    exact ⟨r, Keyed.filter_eq_singleton hinv.1.loadable.nodup hr, hg, hpend⟩

theorem delivered_restriction_on_file_sample :
    ∃ w, (machine fun _ => sampleProfile).Reaches (fresh none) w ∧
      w.owed sampleProfile = [.policy .accessDenied, .scope sampleProfile .drain] ∧
      (∃ rs, w.journal.onDisk = some rs ∧ ∃ r ∈ rs, r.profileDigest = sampleProfile ∧
        (r.pending = true ∨ r.Covers (.policy .accessDenied))) ∧
      ∃ r, w.journal.records.filter (Journal.ofProfile sampleProfile) = [r] ∧
        r.generation = sampleGeneration ∧ r.pending = true := by
  have hrun : (((machine fun _ => sampleProfile).run (fresh none) sampleRun).map fun w =>
      (w.owed sampleProfile, w.journal.live sampleProfile)) =
      some ([.policy .accessDenied, .scope sampleProfile .drain], some sampleGeneration) := by
    decide +kernel
  obtain ⟨w, hw, hval⟩ := Option.map_eq_some_iff.mp hrun
  obtain ⟨howed, hlive⟩ := Prod.mk.inj hval
  have hreach := Machine.reaches_run hw
  obtain ⟨hfile, howner⟩ := delivered_restriction_on_file _ none w hreach
  exact ⟨w, hreach, howed, hfile _ _ (by rw [howed]; simp), howner _ _ hlive⟩

end Ledger

end PokrovCore.Daemon
