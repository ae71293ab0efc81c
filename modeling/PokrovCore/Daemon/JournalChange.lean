import PokrovCore.Daemon.Journal

/-!
# Daemon/JournalChange — everything an operation can do to the journal

Between taking and releasing the lock an operation makes a few elementary changes: it loads the
document, writes it back, lets a worker enter, tightens one record, marks a profile, or settles a
worker.  `Change` lists them with all they are guarded by, and each operation is a sequence of them
(`begin_changes`, …, `snapshotLocked_changes`); only an acknowledgement does more, and it does
`handOver`.  `Wf` holds of every journal these make: its document loads, a live worker owns the one
record of its profile, and the file has that record pending with the same expiry and leases.
-/

namespace PokrovCore.Daemon

/-! ## Tightening -/

/-- **One expiry covers another**: as a date, if there is one, and as a time. -/
structure ExpiryLe (a b : Option Date) : Prop where
  date : ∀ d ∈ a, ∃ e ∈ b, d ≤ e
  wall : (expiryTime a).wall ≤ (expiryTime b).wall

theorem ExpiryLe.refl (a : Option Date) : ExpiryLe a a := ⟨fun d hd => ⟨d, hd, le_rfl⟩, le_rfl⟩

theorem ExpiryLe.trans {a b c : Option Date} (hab : ExpiryLe a b) (hbc : ExpiryLe b c) :
    ExpiryLe a c := by
  refine ⟨fun d hd => ?_, hab.wall.trans hbc.wall⟩
  obtain ⟨e, he, hde⟩ := hab.date d hd
  obtain ⟨f, hf, hef⟩ := hbc.date e he
  exact ⟨f, hf, hde.trans hef⟩

theorem after_expiryTime_some (d e : Date) :
    d.toTime.after (expiryTime (some e)) = decide (e < d) :=
  Date.toTime_before e d

/-- A date compares with an expiry on the wall clock. -/
theorem after_expiryTime (d : Date) (e : Option Date) :
    d.toTime.after (expiryTime e) = decide ((expiryTime e).wall < d.toTime.wall) :=
  Time.before_of_mono_eq_none rfl

/-- A later date covers an expiry… -/
theorem ExpiryLe.of_after {d : Date} {e : Option Date}
    (h : d.toTime.after (expiryTime e) = true) : ExpiryLe e (some d) := by
  refine ⟨fun x hx => ⟨d, rfl, ?_⟩, ?_⟩
  · obtain rfl : e = some x := hx
    rw [after_expiryTime_some, decide_eq_true_eq] at h
    exact h.le
  · rw [after_expiryTime, decide_eq_true_eq] at h
    exact h.le

/-- **A record tightened**: nothing it restricts is restricted less, its expiry covers the old one,
and it still loads. -/
structure Stricter (r r' : Record) : Prop where
  profile : r'.profileDigest = r.profileDigest
  policy : r.policyAction ≤ r'.policyAction
  withdrawn : r.catalogWithdrawn = true → r'.catalogWithdrawn = true
  scopes : ∀ s a, r.scopeActions.get? s = some a → ∃ b, r'.scopeActions.get? s = some b ∧ a ≤ b
  expiry : ExpiryLe r.expiresAt r'.expiresAt
  loadable : r.Loadable → r'.Loadable

theorem Stricter.refl (r : Record) : Stricter r r :=
  ⟨rfl, le_rfl, fun h => h, fun _ a h => ⟨a, h, le_rfl⟩, ExpiryLe.refl _, fun h => h⟩

theorem Stricter.trans {r s t : Record} (h : Stricter r s) (h' : Stricter s t) : Stricter r t where
  profile := h'.profile.trans h.profile
  policy := h.policy.trans h'.policy
  withdrawn hw := h'.withdrawn (h.withdrawn hw)
  scopes k a ha := by
    obtain ⟨b, hb, hab⟩ := h.scopes k a ha
    obtain ⟨c, hc, hbc⟩ := h'.scopes k b hb
    exact ⟨c, hc, hab.trans hbc⟩
  expiry := h.expiry.trans h'.expiry
  loadable hl := h'.loadable (h.loadable hl)

/-- A record with only its expiry moved, and not back. -/
theorem Stricter.withExpiry {r : Record} {e : Option Date} (h : ExpiryLe r.expiresAt e) :
    Stricter r { r with expiresAt := e } where
  profile := rfl
  policy := le_rfl
  withdrawn hw := hw
  scopes _ a ha := ⟨a, ha, le_rfl⟩
  expiry := h
  loadable hl :=
    { hl with
      covered := fun l hm => by
        obtain ⟨d, hd, hle⟩ := hl.covered l hm
        obtain ⟨f, hf, hdf⟩ := h.date d hd
        exact ⟨f, hf, hle.trans hdf⟩ }

theorem settled_stricter (b : Bool) (r : Record) : Stricter r (Journal.settled b r) where
  profile := rfl
  policy := le_rfl
  withdrawn h := h
  scopes _ a h := ⟨a, h, le_rfl⟩
  expiry := ExpiryLe.refl _
  loadable h := { h with }

namespace Journal

open Keyed (amend)

/-! ## Elementary changes -/

/-- The document the file stands for; a missing file is an empty one. -/
def Stored (j : Journal) (rs : List Record) : Prop :=
  j.disk = none ∧ rs = [] ∨ ∃ text, j.disk = some text ∧ readDocument text = some rs

/-- The file now holds this document. -/
def Written (rs : List Record) (disk : Option (List Char)) : Prop :=
  fits rs = true ∧ disk = some (documentText rs)

/-- **The elementary changes of a journal.** -/
inductive Change (j : Journal) : Journal → Prop
  | load {rs : List Record} (unloaded : j.loaded = false) (stored : j.Stored rs) :
    Change j { j with records := rs, loaded := true }
  | flush {disk : Option (List Char)} (loaded : j.loaded = true) (written : Written j.records disk) :
    Change j { j with disk := disk }
  | enter {p : Digest} {catalog : Option Digest} {expires : Option Date} {g : Generation}
      {disk : Option (List Char)} (loaded : j.loaded = true) (free : j.refusal p catalog = none)
      (written : Written (j.entered p catalog expires g) disk) :
    Change j { j with records := j.entered p catalog expires g, disk := disk,
                      live := Function.update j.live p (some g) }
  | tighten {l₁ l₂ : List Record} {r r' : Record} {disk : Option (List Char)}
      (split : j.records = l₁ ++ r :: l₂) (stricter : Stricter r r')
      (owner : r'.generation = r.generation) (pending : r'.pending = r.pending)
      (filed : Written (l₁ ++ r' :: l₂) disk ∨
        disk = j.disk ∧ r'.expiresAt = r.expiresAt ∧ r'.leases = r.leases) :
    Change j { j with records := l₁ ++ r' :: l₂, disk := disk }
  | mark {p : Digest} (known : (lookup p j.records).isSome) :
    Change j { j with unsettled := Function.update j.unsettled p true }
  | settle {l₁ l₂ : List Record} {r : Record} {g : Generation} {disk : Option (List Char)}
      (split : j.records = l₁ ++ r :: l₂) (live : j.live r.profileDigest = some g)
      (filed : Written (l₁ ++ settled (j.unsettled r.profileDigest) r :: l₂) disk ∨
        disk = j.disk) :
    Change j { j with records := l₁ ++ settled (j.unsettled r.profileDigest) r :: l₂,
                      disk := disk, live := Function.update j.live r.profileDigest none }

/-- A sequence of changes. -/
abbrev Changes : Journal → Journal → Prop := Relation.ReflTransGen Change

variable {j j' j₁ : Journal} {p : Digest} {g : Generation} {rs : List Record} {r : Record}
  {read write : Bool}

/-! ## What well-formed journals keep -/

/-- The document of the file, if there is one that loads. -/
def onDisk (j : Journal) : Option (List Record) := j.disk.bind readDocument

/-- The record the file has for a profile. -/
def filed (j : Journal) (p : Digest) : Option Record := j.onDisk.bind (lookup p)

/-- **Well-formed journals.** -/
structure Wf (j : Journal) : Prop where
  loadable : Loadable j.records
  unloaded : j.loaded = false → j.records = [] ∧ ∀ p, j.live p = none
  /-- a live worker owns the record of its profile -/
  owner : ∀ {p g}, j.live p = some g →
    ∃ r, lookup p j.records = some r ∧ r.generation = g ∧ r.pending = true
  /-- …and the file knows that the worker is not settled -/
  pledged : ∀ {p g}, j.live p = some g → ∃ r f, lookup p j.records = some r ∧
    j.filed p = some f ∧ f.pending = true ∧ f.expiresAt = r.expiresAt ∧ f.leases = r.leases
  /-- memory has every profile the file has -/
  superset : j.loaded = true → ∀ {p f}, j.filed p = some f → ∃ r, lookup p j.records = some r

theorem loadable_nil : Loadable [] := ⟨by decide, List.nodup_nil, fun r hr => by cases hr⟩

theorem wf_fresh (disk : Option (List Char)) : (fresh disk).Wf where
  loadable := loadable_nil
  unloaded _ := ⟨rfl, fun _ => rfl⟩
  owner h := by cases h
  pledged h := by cases h
  superset h := by cases h

theorem filed_of_written (hl : Loadable rs) (hw : Written rs j.disk) (p : Digest) :
    j.filed p = lookup p rs := by
  rw [filed, onDisk, hw.2, Option.bind_some, readDocument_documentText hl hw.1, Option.bind_some]

theorem stored_loadable (h : j.Stored rs) : Loadable rs := by
  rcases h with ⟨_, rfl⟩ | ⟨text, _, h⟩
  · exact loadable_nil
  · exact loadable_of_readDocument h

theorem lookup_of_stored (h : j.Stored rs) {f : Record} (hf : j.filed p = some f) :
    lookup p rs = some f := by
  rcases h with ⟨hd, _⟩ | ⟨text, hd, h⟩
  · simp [filed, onDisk, hd] at hf
  · rwa [filed, onDisk, hd, Option.bind_some, h, Option.bind_some] at hf

theorem loadable_replace {l₁ l₂ : List Record} {r r' : Record} (h : Loadable (l₁ ++ r :: l₂))
    (hp : r'.profileDigest = r.profileDigest) (hr : r'.Loadable) : Loadable (l₁ ++ r' :: l₂) where
  length_le := by simpa using h.length_le
  nodup := by
    rw [Keyed.map_replace hp]
    exact h.nodup
  record x hx := by
    rcases List.mem_append.mp hx with hx | hx
    · exact h.record x (by simp [hx])
    · rcases List.mem_cons.mp hx with rfl | hx
      · exact hr
      · exact h.record x (by simp [hx])

theorem lookup_replace {l₁ l₂ : List Record} {r r' : Record} (h : Loadable (l₁ ++ r :: l₂))
    (hp : r'.profileDigest = r.profileDigest) (p : Digest) :
    lookup p (l₁ ++ r' :: l₂) =
      if p = r.profileDigest then some r' else lookup p (l₁ ++ r :: l₂) :=
  Keyed.lookup_replace h.nodup hp p

theorem lookup_split {l₁ l₂ : List Record} {r : Record} (h : Loadable (l₁ ++ r :: l₂)) :
    lookup r.profileDigest (l₁ ++ r :: l₂) = some r :=
  Keyed.lookup_of_mem h.nodup (by simp)

/-- Replacing one record changes the map at its profile only. -/
theorem lookup_replace_cases {l₁ l₂ : List Record} {r r' r₀ : Record}
    (h : Loadable (l₁ ++ r :: l₂)) (hp : r'.profileDigest = r.profileDigest)
    (hr₀ : lookup p (l₁ ++ r :: l₂) = some r₀) :
    p = r.profileDigest ∧ r₀ = r ∧ lookup p (l₁ ++ r' :: l₂) = some r' ∨
      p ≠ r.profileDigest ∧ lookup p (l₁ ++ r' :: l₂) = some r₀ := by
  rw [lookup_replace h hp]
  split_ifs with hpr
  · subst hpr
    exact .inl ⟨rfl, Option.some.inj (hr₀.symm.trans (lookup_split h)), rfl⟩
  · exact .inr ⟨hpr, hr₀⟩

/-! ### A worker enters -/

theorem loadable_newRecord (p : Digest) (catalog : Option Digest) (g : Generation) :
    (newRecord p catalog g).Loadable where
  withdrawn h := by cases h
  leases_le := Nat.zero_le _
  leases_nodup := List.nodup_nil
  covered l hl := by cases hl
  scopes_le := Nat.zero_le _

theorem enter_stricter (catalog : Option Digest) (expires : Option Date) (g : Generation)
    (r : Record) : Stricter r (enter catalog expires g r) := by
  have hexp : ExpiryLe r.expiresAt (enter catalog expires g r).expiresAt := by
    unfold enter
    dsimp only
    split_ifs with h
    · obtain ⟨hzero, hafter⟩ := Bool.and_eq_true_iff.mp h
      cases expires with
      | none => cases hzero
      | some e => exact .of_after hafter
    · exact .refl _
  have h := Stricter.withExpiry hexp
  exact ⟨rfl, le_rfl, fun hw => hw, h.scopes, hexp, fun hl => ⟨hl.withdrawn, hl.leases_le,
    hl.leases_nodup, (h.loadable hl).covered, hl.scopes_le⟩⟩

/-- A record taken over covers the bound of its new worker, if that is a date at all. -/
theorem wall_le_enter {expires : Option Date} (hzero : (expiryTime expires).isZero = false)
    (catalog : Option Digest) (g : Generation) (r : Record) :
    (expiryTime expires).wall ≤ (expiryTime (enter catalog expires g r).expiresAt).wall := by
  unfold enter
  dsimp only
  split_ifs with h
  · exact le_rfl
  · cases expires with
    | none => cases hzero
    | some d =>
      rw [hzero, Bool.not_false, Bool.true_and] at h
      exact not_lt.mp fun hlt => h ((after_expiryTime d r.expiresAt).trans (decide_eq_true hlt))

/-- What the record of the profile was, or starts as. -/
def before (p : Digest) (catalog : Option Digest) (g : Generation) (j : Journal) : Record :=
  (lookup p j.records).getD (newRecord p catalog g)

variable {catalog : Option Digest}

theorem refusal_eq_none (h : j.refusal p catalog = none) :
    j.unsettled p = false ∧ (lookup p j.records = none → j.records.length < 3) ∧
      ∀ r, lookup p j.records = some r →
        (j.live p = none → r.pending = false ∧ r.restricted = false) ∧
        (r.catalogSHA256 = none ∨ r.catalogSHA256 = catalog) := by
  unfold refusal at h
  split at h
  · cases h
  · rename_i hu
    refine ⟨by simpa using hu, ?_⟩
    cases hl : lookup p j.records with
    | none =>
      rw [hl] at h
      dsimp only at h
      split at h
      · cases h
      · exact ⟨fun _ => by omega, nofun⟩
    | some r =>
      rw [hl] at h
      dsimp only at h
      refine ⟨nofun, fun r' hr => ?_⟩
      obtain rfl := Option.some.inj hr
      split at h
      · cases h
      split at h
      · cases h
      split at h
      · cases h
      rename_i h₁ h₂ h₃
      refine ⟨fun hlive => ?_, ?_⟩
      · simpa [hlive] using And.intro h₁ h₂
      · by_cases hn : r.catalogSHA256 = none
        · exact .inl hn
        · exact .inr (by simpa [Option.isSome_iff_ne_none, hn] using h₃)

theorem lookup_entered (hl : Loadable j.records) (catalog : Option Digest)
    (expires : Option Date) (g : Generation) (q : Digest) :
    lookup q (j.entered p catalog expires g) =
      if q = p then some (enter catalog expires g (before p catalog g j))
      else lookup q j.records := by
  unfold entered before
  cases h : lookup p j.records with
  | none =>
    exact Keyed.lookup_concat (a := enter catalog expires g (newRecord p catalog g)) h q
  | some r =>
    obtain ⟨l₁, l₂, hs, ha⟩ := Keyed.amend_split (f := enter catalog expires g) h
    have hp : r.profileDigest = p := (Keyed.mem_of_lookup h).2
    have hk : (enter catalog expires g r).profileDigest = r.profileDigest := rfl
    have hrep := lookup_replace (hs ▸ hl) hk q
    rw [hp, ← hs, ← ha] at hrep
    exact hrep

theorem loadable_entered (hl : Loadable j.records) (href : j.refusal p catalog = none)
    (expires : Option Date) (g : Generation) :
    Loadable (j.entered p catalog expires g) := by
  unfold entered
  cases h : lookup p j.records with
  | none =>
    have hnew := (enter_stricter catalog expires g (newRecord p catalog g)).loadable
      (loadable_newRecord p catalog g)
    refine ⟨?_, ?_, fun r hr => ?_⟩
    · have := (refusal_eq_none href).2.1 h
      simp only [List.length_append, List.length_singleton]
      omega
    · rw [List.map_append, List.nodup_append]
      refine ⟨hl.nodup, List.nodup_singleton _, fun a ha b hb => ?_⟩
      obtain ⟨r, hr, rfl⟩ := List.mem_map.mp ha
      obtain rfl := List.mem_singleton.mp hb
      exact Keyed.lookup_eq_none_iff.mp h r hr
    · rcases List.mem_append.mp hr with hr | hr
      · exact hl.record r hr
      · obtain rfl := List.mem_singleton.mp hr
        exact hnew
  | some r =>
    obtain ⟨l₁, l₂, hs, ha⟩ := Keyed.amend_split (f := enter catalog expires g) h
    dsimp only
    rw [show amend (ofProfile p) _ _ = _ from ha]
    rw [hs] at hl
    exact loadable_replace hl rfl
      ((enter_stricter catalog expires g r).loadable (hl.record r (by simp)))

/-! ### Well-formedness is kept -/

theorem Wf.load (hw : j.Wf) (hun : j.loaded = false) (hs : j.Stored rs) :
    Wf { j with records := rs, loaded := true } where
  loadable := stored_loadable hs
  unloaded h := by cases h
  owner {p g} h := by
    rw [(hw.unloaded hun).2 p] at h
    cases h
  pledged {p g} h := by
    rw [(hw.unloaded hun).2 p] at h
    cases h
  superset _ _ f hf := ⟨f, lookup_of_stored hs hf⟩

/-- A journal whose file has just been written is well-formed as soon as its memory is. -/
theorem wf_of_written (hl : Loadable j.records) (hload : j.loaded = true)
    (howner : ∀ {p g}, j.live p = some g →
      ∃ r, lookup p j.records = some r ∧ r.generation = g ∧ r.pending = true)
    (hd : Written j.records j.disk) : j.Wf where
  loadable := hl
  unloaded h := by rw [hload] at h; cases h
  owner := howner
  pledged {p g} h := by
    obtain ⟨r, hr, _, hp⟩ := howner h
    exact ⟨r, r, hr, (filed_of_written hl hd p).trans hr, hp, rfl, rfl⟩
  superset _ p f hf := ⟨f, (filed_of_written hl hd p).symm.trans hf⟩

/-- A journal whose file was not written is well-formed as soon as its live workers have kept what
the file says of them. -/
theorem wf_of_unwritten (hw : j.Wf) (hl : Loadable j'.records) (hload : j'.loaded = j.loaded)
    (hdisk : j'.disk = j.disk) (hnil : j.records = [] → j'.records = [])
    (hlive : ∀ {p g}, j'.live p = some g → j.live p = some g ∧
      ∀ r, lookup p j.records = some r → ∃ r', lookup p j'.records = some r' ∧
        r'.generation = r.generation ∧ r'.pending = r.pending ∧ r'.expiresAt = r.expiresAt ∧
        r'.leases = r.leases)
    (hkeep : ∀ {p r}, lookup p j.records = some r → ∃ r', lookup p j'.records = some r') :
    j'.Wf where
  loadable := hl
  unloaded h := by
    obtain ⟨hrs, hdead⟩ := hw.unloaded (hload ▸ h)
    refine ⟨hnil hrs, fun p => ?_⟩
    cases hp : j'.live p with
    | none => rfl
    | some g => cases (hdead p).symm.trans (hlive hp).1
  owner {p g} h := by
    obtain ⟨hj, hkept⟩ := hlive h
    obtain ⟨r, hr, hg, hp⟩ := hw.owner hj
    obtain ⟨r', hr', hg', hp', _⟩ := hkept r hr
    exact ⟨r', hr', hg'.trans hg, hp'.trans hp⟩
  pledged {p g} h := by
    obtain ⟨hj, hkept⟩ := hlive h
    obtain ⟨r, f, hr, hf, hp, he, hle⟩ := hw.pledged hj
    obtain ⟨r', hr', _, _, he', hle'⟩ := hkept r hr
    refine ⟨r', f, hr', ?_, hp, he.trans he'.symm, hle.trans hle'.symm⟩
    rw [filed, onDisk, hdisk]
    exact hf
  superset h p f hf := by
    rw [filed, onDisk, hdisk] at hf
    obtain ⟨r, hr⟩ := hw.superset (hload ▸ h) hf
    exact hkeep hr

theorem Wf.loaded_of_records {l₁ l₂ : List Record} (hw : j.Wf)
    (h : j.records = l₁ ++ r :: l₂) : j.loaded = true := by
  by_contra hn
  have := (hw.unloaded (by simpa using hn)).1
  simp [h] at this

/-- **Every change keeps a journal well-formed.** -/
theorem Change.wf (hc : Change j j') (hw : j.Wf) : j'.Wf := by
  cases hc with
  | load hun hs => exact hw.load hun hs
  | flush hload hd => exact wf_of_written hw.loadable hload hw.owner hd
  | @enter p catalog expires g disk hload hfree hd =>
    refine wf_of_written (loadable_entered hw.loadable hfree expires g) hload ?_ hd
    intro q g' hq
    rw [lookup_entered hw.loadable]
    rcases eq_or_ne q p with rfl | hne
    · obtain rfl : g = g' := by simpa using hq
      exact ⟨_, if_pos rfl, rfl, rfl⟩
    · rw [if_neg hne]
      exact hw.owner ((Function.update_of_ne hne ..).symm.trans hq)
  | @tighten l₁ l₂ r r' disk hsplit hst hown hpend hd =>
    have hl : Loadable (l₁ ++ r :: l₂) := hsplit ▸ hw.loadable
    have hl' : Loadable (l₁ ++ r' :: l₂) :=
      loadable_replace hl hst.profile (hst.loadable (hl.record r (by simp)))
    rcases hd with hd | ⟨rfl, hexp, hleases⟩
    · refine wf_of_written hl' (hw.loaded_of_records hsplit) ?_ hd
      intro p g hp
      obtain ⟨r₀, hr₀, hg, hpd⟩ := hw.owner hp
      rcases lookup_replace_cases hl hst.profile (hsplit ▸ hr₀) with ⟨_, rfl, hr'⟩ | ⟨_, hr'⟩
      · exact ⟨r', hr', hown.trans hg, hpend.trans hpd⟩
      · exact ⟨r₀, hr', hg, hpd⟩
    · refine wf_of_unwritten hw hl' rfl rfl (fun h => by simp [hsplit] at h) ?_ ?_
      · intro p g hp
        refine ⟨hp, fun r₀ hr₀ => ?_⟩
        rcases lookup_replace_cases hl hst.profile (hsplit ▸ hr₀) with ⟨_, rfl, hr'⟩ | ⟨_, hr'⟩
        · exact ⟨r', hr', hown, hpend, hexp, hleases⟩
        · exact ⟨r₀, hr', rfl, rfl, rfl, rfl⟩
      · intro p r₀ hr₀
        rcases lookup_replace_cases hl hst.profile (hsplit ▸ hr₀) with ⟨_, _, hr'⟩ | ⟨_, hr'⟩
        · exact ⟨r', hr'⟩
        · exact ⟨r₀, hr'⟩
  | mark hk => exact ⟨hw.loadable, hw.unloaded, hw.owner, hw.pledged, hw.superset⟩
  | @settle l₁ l₂ r g disk hsplit hlive hd =>
    have hl : Loadable (l₁ ++ r :: l₂) := hsplit ▸ hw.loadable
    have hst := settled_stricter (j.unsettled r.profileDigest) r
    have hl' := loadable_replace hl hst.profile (hst.loadable (hl.record r (by simp)))
    -- the settled worker is no longer live, so only other profiles matter
    have hother : ∀ {p g}, Function.update j.live r.profileDigest none p = some g →
        j.live p = some g ∧ ∀ r₀, lookup p j.records = some r₀ →
          lookup p (l₁ ++ settled (j.unsettled r.profileDigest) r :: l₂) = some r₀ := by
      intro p g hp
      rcases eq_or_ne p r.profileDigest with rfl | hne
      · simp at hp
      · refine ⟨(Function.update_of_ne hne ..).symm.trans hp, fun r₀ hr₀ => ?_⟩
        rw [lookup_replace hl hst.profile, if_neg hne, ← hsplit]
        exact hr₀
    rcases hd with hd | rfl
    · refine wf_of_written hl' (hw.loaded_of_records hsplit) ?_ hd
      intro p g hp
      obtain ⟨hp, hlook⟩ := hother hp
      obtain ⟨r₀, hr₀, hrest⟩ := hw.owner hp
      exact ⟨r₀, hlook r₀ hr₀, hrest⟩
    · refine wf_of_unwritten hw hl' rfl rfl (fun h => by simp [hsplit] at h) ?_ ?_
      · intro p g hp
        obtain ⟨hp, hlook⟩ := hother hp
        exact ⟨hp, fun r₀ hr₀ => ⟨r₀, hlook r₀ hr₀, rfl, rfl, rfl, rfl⟩⟩
      · intro p r₀ hr₀
        rcases lookup_replace_cases hl hst.profile (hsplit ▸ hr₀) with ⟨_, _, hr'⟩ | ⟨_, hr'⟩
        · exact ⟨_, hr'⟩
        · exact ⟨r₀, hr'⟩

theorem Changes.wf (hc : Changes j j') (hw : j.Wf) : j'.Wf := by
  induction hc with
  | refl => exact hw
  | tail _ hc ih => exact hc.wf ih

end Journal

end PokrovCore.Daemon
