import PokrovCore.Daemon.JournalRuns

/-!
# Daemon/JournalKept — what an operation leaves of the workers it is not about

`Kept R j j'` — every worker live in `j'` was live in `j`, still has its record, up to `R`, and is
still marked if it was; and every record of `j'`, live or not, is one of `j` under the same
generation, up to `R`.  Only a `begin` that succeeds brings a worker to life; every other operation
keeps the live workers, and every one but a restriction keeps their restrictions as they are
(`Carries`).
-/

namespace PokrovCore.Daemon

/-- The same restrictions, and an expiry that covers the old one. -/
structure Carries (r r' : Record) : Prop where
  policy : r'.policyAction = r.policyAction
  withdrawn : r'.catalogWithdrawn = r.catalogWithdrawn
  scopes : r'.scopeActions = r.scopeActions
  expiry : ExpiryLe r.expiresAt r'.expiresAt

theorem Carries.refl (r : Record) : Carries r r := ⟨rfl, rfl, rfl, .refl _⟩

theorem Carries.trans {a b c : Record} (h : Carries a b) (h' : Carries b c) : Carries a c :=
  ⟨h'.policy.trans h.policy, h'.withdrawn.trans h.withdrawn, h'.scopes.trans h.scopes,
    h.expiry.trans h'.expiry⟩

namespace Journal

open Keyed (amend)

/-- **The live workers after an operation were there before it, and keep their records.** -/
structure Kept (R : Record → Record → Prop) (j j' : Journal) : Prop where
  live : ∀ {p g}, j'.live p = some g → j.live p = some g
  unsettled : ∀ {p g}, j'.live p = some g → j.unsettled p = true → j'.unsettled p = true
  record : ∀ {p g r}, j'.live p = some g → lookup p j.records = some r →
    ∃ r', lookup p j'.records = some r' ∧ R r r'
  loaded : j.loaded = true → j'.loaded = true
  origin : ∀ {p r'}, j.loaded = true → lookup p j'.records = some r' →
    ∃ r, lookup p j.records = some r ∧ r'.generation = r.generation ∧ R r r' ∧
      (j.unsettled p = true → j'.unsettled p = true)

variable {R R' : Record → Record → Prop} {j j' : Journal} {p : Digest} {g : Generation} {r : Record}
  {read write : Bool}

theorem Kept.mono (hR : ∀ r r', R r r' → R' r r') (h : Kept R j j') : Kept R' j j' where
  live := h.live
  unsettled := h.unsettled
  record hp hr := by
    obtain ⟨r', hr', hrel⟩ := h.record hp hr
    exact ⟨r', hr', hR _ r' hrel⟩
  loaded := h.loaded
  origin hl hr' := by
    obtain ⟨r, hr, hg, hrel, hu⟩ := h.origin hl hr'
    exact ⟨r, hr, hg, hR r _ hrel, hu⟩

theorem Kept.refl (hR : ∀ r, R r r) (j : Journal) : Kept R j j where
  live h := h
  unsettled _ h := h
  record _ hr := ⟨_, hr, hR _⟩
  loaded h := h
  origin _ hr := ⟨_, hr, rfl, hR _, id⟩

theorem Kept.trans (hRR : ∀ a b c, R a b → R b c → R a c) {j₁ : Journal} (h : Kept R j j₁)
    (h' : Kept R j₁ j') : Kept R j j' where
  live hp := h.live (h'.live hp)
  unsettled hp hu := h'.unsettled hp (h.unsettled (h'.live hp) hu)
  record hp hr := by
    obtain ⟨r₁, hr₁, h₁⟩ := h.record (h'.live hp) hr
    obtain ⟨r₂, hr₂, h₂⟩ := h'.record hp hr₁
    exact ⟨r₂, hr₂, hRR _ _ _ h₁ h₂⟩
  loaded hl := h'.loaded (h.loaded hl)
  origin hl hr₂ := by
    obtain ⟨r₁, hr₁, hg₂, h₂, hu₂⟩ := h'.origin (h.loaded hl) hr₂
    obtain ⟨r, hr, hg₁, h₁, hu₁⟩ := h.origin hl hr₁
    exact ⟨r, hr, hg₂.trans hg₁, hRR _ _ _ h₁ h₂, hu₂ ∘ hu₁⟩

/-- An amended record is kept as far as the amendment goes. -/
theorem kept_amend (hR : ∀ r, R r r) (hl : Loadable j.records) {q : Record → Bool}
    {f : Record → Record} (hfind : j.records.find? q = some r)
    (hf : (f r).profileDigest = r.profileDigest) (hg : (f r).generation = r.generation)
    (hrel : R r (f r)) (disk : Option (List Char)) :
    Kept R j { j with records := amend q f j.records, disk := disk } where
  live h := h
  unsettled _ h := h
  record {p g r₀} _ hr₀ := by
    dsimp only
    rw [lookup_amend hl hfind hf]
    split_ifs with hp
    · subst hp
      have hr : lookup r.profileDigest j.records = some r :=
        Keyed.lookup_of_mem hl.nodup (List.mem_of_find?_eq_some hfind)
      obtain rfl := Option.some.inj (hr.symm.trans hr₀)
      exact ⟨_, rfl, hrel⟩
    · exact ⟨r₀, hr₀, hR r₀⟩
  loaded h := h
  origin {p r'} _ hr' := by
    dsimp only at hr'
    rw [lookup_amend hl hfind hf] at hr'
    split_ifs at hr' with hp
    · subst hp
      obtain rfl := Option.some.inj hr'
      exact ⟨r, Keyed.lookup_of_mem hl.nodup (List.mem_of_find?_eq_some hfind), hg, hrel, id⟩
    · exact ⟨r', hr', rfl, hR r', id⟩

/-- A journal that loads its file has no live worker yet, or does nothing. -/
theorem kept_loadLocked (hR : ∀ r, R r r) (hw : j.Wf) (h : j.loadLocked read = some j') :
    Kept R j j' := by
  obtain ⟨_, _, _, hlive, _, hsame⟩ := loadLocked_changes h
  by_cases hl : j.loaded = true
  · rw [hsame hl]
    exact .refl hR j
  · have hdead : ∀ p, j'.live p = none := fun p => by
      rw [hlive]
      exact (hw.unloaded (by simpa using hl)).2 p
    refine ⟨fun hp => ?_, fun hp _ => ?_, fun hp _ => ?_, fun h => absurd h hl,
      fun h _ => absurd h hl⟩ <;>
      · rw [hdead] at hp
        cases hp

/-! ## The operations -/

theorem kept_begin_error {catalog : Option Digest} {expires : Option Date}
    {rand : Option Generation} {e : JournalError} (hR : ∀ r, R r r) (hw : j.Wf)
    (h : j.begin p catalog expires rand read write = (j', .error e)) : Kept R j j' := by
  rcases begin_cases p catalog expires rand read write j with
    ⟨_, h'⟩ | ⟨j₁, hload, ⟨_, h'⟩ | ⟨_, _, _, _, h'⟩⟩
  · obtain ⟨rfl, _⟩ := Prod.mk.inj (h.symm.trans h')
    exact .refl hR j'
  · obtain ⟨rfl, _⟩ := Prod.mk.inj (h.symm.trans h')
    exact kept_loadLocked hR hw hload
  · cases (Prod.mk.inj (h.symm.trans h')).2

variable (p : Digest) (g : Generation)

theorem kept_extendExpiry (expires : Date) (write : Bool) (hw : j.Wf) :
    Kept Carries j (j.extendExpiry p g expires write).1 := by
  rcases extendExpiry_cases p g expires write j with
    ⟨e, h⟩ | ⟨h, _⟩ | ⟨r, j', _, hfind, hafter, hwr, h⟩
  · rw [h]
    exact .refl Carries.refl j
  · rw [h]
    exact .refl Carries.refl j
  · rw [h, (writeLocked_written hwr).1]
    exact kept_amend Carries.refl hw.loadable hfind rfl rfl ⟨rfl, rfl, rfl, .of_after hafter⟩ _

theorem kept_retainRenewal (previous next : LeaseIdentity) (currentIDs : List (Hex 32))
    (now : Sample) (write : Bool) (hw : j.Wf) :
    Kept Carries j (j.retainRenewal p g previous next currentIDs now write).1 := by
  rcases retainRenewal_cases p g previous next currentIDs now write j with
    ⟨e, h⟩ | ⟨r, m, j', _, _, _, hfind, _, _, _, rfl, hsize, hwr, h⟩
  · rw [h]
    exact .refl Carries.refl j
  · rw [h, (writeLocked_written hwr).1]
    have hid := ((byId_keptLeases now currentIDs previous next r).insert previous).insert next
    exact kept_amend Carries.refl hw.loadable hfind rfl rfl
      ⟨rfl, rfl, rfl, (withLeases_stricter hid hsize r).expiry⟩ _

/-- An expiry that covers the old one. -/
def Outlasts (r r' : Record) : Prop := ExpiryLe r.expiresAt r'.expiresAt

theorem Outlasts.refl (r : Record) : Outlasts r r := ExpiryLe.refl _

theorem kept_restrict (reason : Reason) (write : Bool) (hw : j.Wf) :
    Kept Outlasts j (j.restrict p g reason write) := by
  unfold restrict
  cases hfind : j.records.find? (owned p g) with
  | none => exact .refl Outlasts.refl j
  | some r =>
    obtain ⟨disk, heq, _⟩ := store_written write (amend (owned p g) (restrictRecord reason) j.records) j
    dsimp only
    rw [heq]
    exact kept_amend Outlasts.refl hw.loadable hfind rfl rfl (Outlasts.refl r) disk

theorem kept_restrictScope (scope : Digest) (action : ScopeAction) (write : Bool) (hw : j.Wf) :
    Kept Outlasts j (j.restrictScope p g scope action write) := by
  unfold restrictScope
  cases hfind : j.records.find? (owned p g) with
  | none => exact .refl Outlasts.refl j
  | some r =>
    dsimp only
    split_ifs
    · have hmark : ∀ {p'}, j.unsettled p' = true →
          Function.update j.unsettled p true p' = true := fun {p'} hu => by
        rcases eq_or_ne p' p with rfl | hp
        · exact Function.update_self ..
        · rwa [Function.update_of_ne hp]
      exact ⟨fun h => h, fun _ hu => hmark hu, fun _ hr => ⟨_, hr, Outlasts.refl _⟩, fun h => h,
        fun _ hr => ⟨_, hr, rfl, Outlasts.refl _, hmark⟩⟩
    · obtain ⟨disk, heq, _⟩ :=
        store_written write (amend (owned p g) (restrictScopeRecord scope action) j.records) j
      rw [heq]
      obtain ⟨m, hm⟩ := restrictScopeRecord_eq scope action r
      exact kept_amend Outlasts.refl hw.loadable hfind (by rw [hm]) (by rw [hm])
        (by rw [hm]; exact Outlasts.refl r) disk

/-- A worker that ends is no longer live; the others are not touched. -/
theorem kept_finish (write : Bool) (hw : j.Wf) :
    Kept Carries j (j.finish p g write) := by
  unfold finish
  split
  · exact .refl Carries.refl j
  rename_i hlive
  obtain ⟨r, hr, _⟩ := hw.owner (not_not.mp hlive)
  dsimp only
  rw [hr]
  obtain ⟨disk, heq, _⟩ := store_written write (amend (ofProfile p) (settled (j.unsettled p))
    j.records) { j with live := Function.update j.live p none }
  dsimp only at heq ⊢
  rw [heq]
  have hkept := kept_amend (R := Carries) (q := ofProfile p) (f := settled (j.unsettled p))
    Carries.refl hw.loadable hr rfl rfl ⟨rfl, rfl, rfl, .refl _⟩ disk
  -- only who is live is different from an amendment
  have hlive' : ∀ {p' : Digest} {g'}, Function.update j.live p none p' = some g' →
      j.live p' = some g' := by
    intro p' g' h
    rcases eq_or_ne p' p with rfl | hp
    · simp at h
    · exact (Function.update_of_ne hp ..).symm.trans h
  exact ⟨hlive', fun h => hkept.unsettled (hlive' h), fun h => hkept.record (hlive' h),
    hkept.loaded, hkept.origin⟩

theorem kept_written (hR : ∀ r, R r r) (j : Journal) (disk : Option (List Char)) :
    Kept R j { j with disk := disk } :=
  ⟨fun h => h, fun _ h => h, fun _ h => ⟨_, h, hR _⟩, fun h => h, fun _ h => ⟨_, h, rfl, hR _, id⟩⟩

theorem kept_snapshotLocked (sha256 : List Char → Digest) (read write : Bool) (hw : j.Wf) :
    Kept Carries j (j.snapshotLocked sha256 read write).1 := by
  rcases snapshotLocked_cases sha256 read write j with
    ⟨e, h⟩ | ⟨j₁, hload, ⟨e, h⟩ | ⟨disk, _, ⟨e, h⟩ | h⟩⟩
  · rw [h]
    exact .refl Carries.refl j
  · rw [h]
    exact kept_loadLocked Carries.refl hw hload
  all_goals
    rw [h]
    exact (kept_loadLocked Carries.refl hw hload).trans (fun _ _ _ => Carries.trans)
      (kept_written Carries.refl j₁ disk)

/-- Handing over what is not live keeps what is. -/
theorem kept_handOver (hR : ∀ r, R r r) (hw : j.Wf) (disk : Option (List Char)) :
    Kept R j { j.handOver with disk := disk } := by
  have hmine : ∀ {p g r}, j.live p = some g → r ∈ j.records → r.profileDigest = p →
      j.isLive r = true := by
    intro p g r hp hm hprof
    obtain ⟨r', hr', hg, _⟩ := hw.owner hp
    have hr : lookup p j.records = some r := hprof ▸ Keyed.lookup_of_mem hw.loadable.nodup hm
    obtain rfl := Option.some.inj (hr.symm.trans hr')
    rw [isLive, hprof, hg]
    exact decide_eq_true hp
  have hmark : ∀ {p g}, j.live p = some g → j.unsettled p = true →
      j.handOver.unsettled p = true := by
    intro p g h hu
    simp only [handOver, hu, Bool.true_and, Bool.not_eq_true', List.any_eq_false, Bool.and_eq_true,
      Bool.not_eq_true', not_and, Bool.not_eq_false]
    exact fun r hm hprof => hmine h hm (of_decide_eq_true hprof)
  have hlook := lookup_handOver (j := j) hw.loadable
  refine ⟨fun h => h, hmark, fun {p g r} h hr => ⟨r, ?_, hR r⟩, fun h => h, fun {p r'} _ hr' => ?_⟩
  · obtain ⟨hm, hprof⟩ := Keyed.mem_of_lookup hr
    rw [show lookup p _ = _ from hlook p, hr, Option.filter_some, if_pos (hmine h hm hprof)]
  · obtain ⟨hr, hlive⟩ := Option.filter_eq_some_iff.mp ((hlook p).symm.trans hr')
    have hp := (Keyed.mem_of_lookup hr).2
    exact ⟨r', hr, rfl, hR r', hmark (hp ▸ of_decide_eq_true hlive)⟩

theorem kept_acknowledge (sha256 : List Char → Digest) (h : String) (read write again : Bool)
    (hw : j.Wf) : Kept Carries j (j.acknowledge sha256 h read write again).1 := by
  rcases acknowledge_cases sha256 h read write again j with
    ⟨e, h⟩ | ⟨j₁, hload, ⟨e, h⟩ | ⟨disk, _, ⟨a, _, h⟩ | ⟨disk', _, _, h⟩⟩⟩
  · rw [h]
    exact .refl Carries.refl j
  all_goals
    rw [h]
    have hk := kept_loadLocked Carries.refl hw hload
  · exact hk
  · exact hk.trans (fun _ _ _ => Carries.trans) (kept_written Carries.refl j₁ disk)
  · exact hk.trans (fun _ _ _ => Carries.trans)
      (kept_handOver Carries.refl ((loadLocked_changes hload).1.wf hw) disk')

end Journal

end PokrovCore.Daemon
