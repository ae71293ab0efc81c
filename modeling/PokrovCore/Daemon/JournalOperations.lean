import PokrovCore.Daemon.JournalChange

/-!
# Daemon/JournalOperations — each operation as a sequence of changes

One specification for each operation of the journal: which changes it makes (`…_changes`), and what
holds afterwards of the record it is about.  Nothing later opens an operation again.
-/

namespace PokrovCore.Daemon

/-! ## The records operations build -/

theorem Reason.le_action (reason : Reason) (a : PolicyAction) : a ≤ reason.action a := by
  cases reason <;> cases a <;> decide

theorem Reason.action_none_le (reason : Reason) (a : PolicyAction) :
    reason.action .none ≤ reason.action a := by
  cases reason <;> cases a <;> decide

/-- The zero time, once it is written as a date, covers what it covered. -/
theorem ExpiryLe.getD {a b : Option Date} (h : ExpiryLe a b) :
    ExpiryLe a (some (b.getD Journal.zeroDate)) := by
  cases b with
  | none => exact ⟨fun d hd => (h.date d hd).imp fun e he => (by cases he.1), h.wall⟩
  | some e => exact h

namespace Journal

open Keyed (amend)

theorem restrictRecord_stricter (reason : Reason) (r : Record) :
    Stricter r (restrictRecord reason r) where
  profile := rfl
  policy := reason.le_action r.policyAction
  withdrawn h := by simp [restrictRecord, h]
  scopes _ a h := ⟨a, h, le_rfl⟩
  expiry := ExpiryLe.refl _
  loadable h :=
    { leases_le := h.leases_le, leases_nodup := h.leases_nodup, covered := h.covered,
      scopes_le := h.scopes_le
      withdrawn := fun hw => by
        show reason.action r.policyAction = .terminate
        rcases Bool.or_eq_true_iff.mp hw with hw | hw
        · rw [h.withdrawn hw]
          cases reason <;> rfl
        · rw [of_decide_eq_true hw]
          rfl }

theorem restrictScopeRecord_stricter {scope : Digest} {action : ScopeAction} {r : Record}
    (hroom : r.scopeActions.get? scope = none → r.scopeActions.size < 256) :
    Stricter r (restrictScopeRecord scope action r) := by
  unfold restrictScopeRecord
  split_ifs with hterm
  · refine ⟨rfl, le_rfl, fun h => h, fun s a ha => ?_, ExpiryLe.refl _, fun h => ?_⟩
    · dsimp only
      rw [SortedMap.get?_insert]
      split_ifs with hs
      · subst hs
        refine ⟨action, rfl, ?_⟩
        cases a with
        | drain => cases action <;> decide
        | terminate => exact absurd ha hterm
      · exact ⟨a, ha, le_rfl⟩
    · refine { h with scopes_le := ?_ }
      dsimp only
      cases hget : r.scopeActions.get? scope with
      | none =>
        rw [SortedMap.size_insert_of_absent _ hget]
        have := hroom hget
        omega
      | some a =>
        rw [SortedMap.size_insert_of_present _ hget]
        exact h.scopes_le
  · exact Stricter.refl r

/-- Restricting a scope touches nothing else of a record. -/
theorem restrictScopeRecord_eq (scope : Digest) (action : ScopeAction) (r : Record) :
    ∃ m, restrictScopeRecord scope action r = { r with scopeActions := m } := by
  unfold restrictScopeRecord
  split_ifs
  · exact ⟨_, rfl⟩
  · exact ⟨r.scopeActions, rfl⟩

theorem restrictScopeRecord_get? (scope : Digest) (action : ScopeAction) (r : Record) :
    ∃ a, (restrictScopeRecord scope action r).scopeActions.get? scope = some a ∧ action ≤ a := by
  unfold restrictScopeRecord
  split_ifs with hterm
  · exact ⟨action, SortedMap.get?_insert_self .., le_rfl⟩
  · exact ⟨.terminate, not_not.mp hterm, action.le_terminate⟩

/-! ### Leases -/

theorem yearOne_lt_activeFlowsUntil (l : LeaseIdentity) : Date.yearOne < l.activeFlowsUntil.sec := by
  obtain ⟨hyear, hlt, hle⟩ := leaseBounds_spec l.bounds
  have := Date.lt_iff_sec.mp hlt
  have := Date.le_iff_sec.mp hle
  omega

/-- The later of an expiry and a date past the zero time covers both. -/
theorem later_covers {e : Option Date} {d : Date} (hd : Date.yearOne < d.sec) :
    ExpiryLe e (if d.toTime.after (expiryTime e) then some d else e) ∧
      ExpiryLe (some d) (if d.toTime.after (expiryTime e) then some d else e) := by
  split_ifs with h
  · exact ⟨.of_after h, .refl _⟩
  · refine ⟨.refl _, ?_⟩
    rw [after_expiryTime, decide_eq_true_eq, not_lt] at h
    refine ⟨fun y hy => ?_, h⟩
    obtain rfl := Option.some.inj hy
    cases e with
    | none =>
      have hpos : (0 : ℤ) < ((d.sec : ℤ) - Date.yearOne) * Time.second :=
        mul_pos (by omega) (by decide)
      exact absurd h (not_le.mpr hpos)
    | some x => exact ⟨x, rfl, not_lt.mp fun hlt => (Date.toTime_wall_lt.mpr hlt).not_ge h⟩

theorem laterExpiry_covers (e : Option Date) (leases : List LeaseIdentity) :
    ExpiryLe e (laterExpiry e leases) ∧
      ∀ l ∈ leases, ExpiryLe (some l.activeFlowsUntil) (laterExpiry e leases) := by
  induction leases generalizing e with
  | nil => exact ⟨ExpiryLe.refl e, fun l hl => by cases hl⟩
  | cons l leases ih =>
    obtain ⟨hold, hnew⟩ := later_covers (e := e) (yearOne_lt_activeFlowsUntil l)
    obtain ⟨hstart, hrest⟩ := ih (if l.activeFlowsUntil.toTime.after (expiryTime e) then
      some l.activeFlowsUntil else e)
    refine ⟨hold.trans hstart, fun x hx => ?_⟩
    rcases List.mem_cons.mp hx with rfl | hx
    · exact hnew.trans hstart
    · exact hrest x hx

/-- Leases filed under their own ids. -/
def ById (m : SortedMap (Hex 32) LeaseIdentity) : Prop := ∀ e ∈ m.entries, e.2.leaseID = e.1

theorem byId_keptLeases (now : Sample) (currentIDs : List (Hex 32)) (previous next : LeaseIdentity)
    (r : Record) : ById (keptLeases now currentIDs previous next r) := fun e he => by
  obtain ⟨l, _, rfl⟩ := List.mem_map.mp (SortedMap.mem_of_mem_ofList he)
  rfl

variable {m : SortedMap (Hex 32) LeaseIdentity}

theorem keepLease_spec {l : LeaseIdentity} {m' : SortedMap (Hex 32) LeaseIdentity}
    (h : keepLease l m = some m') : m' = m.insert l.leaseID l := by
  unfold keepLease at h
  split at h
  · exact (Option.some.inj (Option.ite_none_right_eq_some.mp h).2).symm
  · exact (Option.some.inj h).symm

theorem ById.insert (h : ById m) (l : LeaseIdentity) :
    ById (m.insert l.leaseID l) := fun e he => by
  rcases SortedMap.mem_entries_insert.mp he with rfl | ⟨he, _⟩
  · rfl
  · exact h e he

theorem withLeases_stricter (hid : ById m) (hsize : m.size ≤ 256) (r : Record) :
    Stricter r (withLeases m r) := by
  obtain ⟨hold, hnew⟩ := laterExpiry_covers r.expiresAt (m.entries.map Prod.snd)
  refine ⟨rfl, le_rfl, fun h => h, fun _ a h => ⟨a, h, le_rfl⟩, hold.getD, fun h => ?_⟩
  refine ⟨h.withdrawn, ?_, ?_, fun l hl => ?_, h.scopes_le⟩
  · simpa [withLeases, SortedMap.size] using hsize
  · have hkeys : (m.entries.map Prod.snd).map LeaseIdentity.leaseID = m.entries.map Prod.fst := by
      rw [List.map_map]
      exact List.map_congr_left hid
    show ((m.entries.map Prod.snd).map LeaseIdentity.leaseID).Nodup
    rw [hkeys]
    exact (m.sorted.imp fun hlt => ne_of_lt hlt).map _ fun _ _ h => h
  · exact (hnew l hl).getD.date _ rfl

/-! ## Loading, writing, finding -/

variable {j j' : Journal} {p : Digest} {g : Generation} {rs : List Record} {r : Record}
  {read write : Bool}

theorem loadLocked_changes (h : j.loadLocked read = some j') :
    Changes j j' ∧ j'.loaded = true ∧ j'.disk = j.disk ∧ j'.live = j.live ∧
      j'.unsettled = j.unsettled ∧ (j.loaded = true → j' = j) := by
  unfold loadLocked at h
  split at h
  · rename_i hload
    obtain rfl := Option.some.inj h
    exact ⟨.refl, hload, rfl, rfl, rfl, fun _ => rfl⟩
  rename_i hload
  have hun : j.loaded = false := by simpa using hload
  obtain ⟨_, h⟩ := Option.ite_none_right_eq_some.mp h
  split at h
  · rename_i hdisk
    obtain rfl := Option.some.inj h
    exact ⟨.single (.load hun (.inl ⟨hdisk, rfl⟩)), rfl, rfl, rfl, rfl, fun h => absurd h hload⟩
  · rename_i text hdisk
    obtain ⟨rs, hrs, rfl⟩ := Option.map_eq_some_iff.mp h
    exact ⟨.single (.load hun (.inr ⟨text, hdisk, hrs⟩)), rfl, rfl, rfl, rfl,
      fun h => absurd h hload⟩

theorem loadLocked_fresh {text : List Char} (h : readDocument text = some rs) :
    (fresh (some text)).loadLocked true =
      some { fresh (some text) with records := rs, loaded := true } := by
  simp only [loadLocked, fresh, Bool.false_eq_true, if_false, if_true, h, Option.map_some]

theorem writeLocked_written (h : j.writeLocked write = some j') :
    j' = { j with disk := j'.disk } ∧ Written j.records j'.disk := by
  obtain ⟨hfit, h⟩ := Option.ite_none_right_eq_some.mp h
  obtain rfl := Option.some.inj h
  exact ⟨rfl, (Bool.and_eq_true_iff.mp hfit).2, rfl⟩

theorem write_of_writeLocked (h : j.writeLocked write = some j') : write = true :=
  (Bool.and_eq_true_iff.mp (Option.ite_none_right_eq_some.mp h).1).1

theorem store_written (write : Bool) (rs : List Record) (j : Journal) :
    ∃ disk, j.store write rs = { j with records := rs, disk := disk } ∧
      (Written rs disk ∨ disk = j.disk) := by
  unfold store
  cases h : ({ j with records := rs } : Journal).writeLocked write with
  | none => exact ⟨j.disk, rfl, .inr rfl⟩
  | some j' =>
    obtain ⟨heq, hw⟩ := writeLocked_written h
    exact ⟨j'.disk, heq, .inl hw⟩

/-- The record a worker owns is the record of its profile. -/
theorem find_owned (hl : Loadable rs) :
    rs.find? (owned p g) = some r ↔ lookup p rs = some r ∧ r.generation = g := by
  constructor
  · intro h
    have hq : r.profileDigest = p ∧ r.generation = g := by
      simpa [owned] using List.find?_some h
    exact ⟨hq.1 ▸ Keyed.lookup_of_mem hl.nodup (List.mem_of_find?_eq_some h), hq.2⟩
  · rintro ⟨h, hg⟩
    obtain ⟨hm, hp⟩ := Keyed.mem_of_lookup h
    cases hf : rs.find? (owned p g) with
    | none => simpa [owned, hp, hg] using List.find?_eq_none.mp hf r hm
    | some r' =>
      have hq : r'.profileDigest = p ∧ r'.generation = g := by
        simpa [owned] using List.find?_some hf
      exact congrArg some
        (List.inj_on_of_nodup_map hl.nodup (List.mem_of_find?_eq_some hf) hm (hq.1.trans hp.symm))

variable {f : Record → Record} {q : Record → Bool}

theorem lookup_amend (hl : Loadable j.records) (hfind : j.records.find? q = some r)
    (hf : (f r).profileDigest = r.profileDigest) (p : Digest) :
    lookup p (amend q f j.records) =
      if p = r.profileDigest then some (f r) else lookup p j.records := by
  obtain ⟨l₁, l₂, hs, ha⟩ := Keyed.amend_split (f := f) hfind
  rw [ha, lookup_replace (hs ▸ hl) hf, ← hs]

/-! ## The operations -/

/-- **`begin`** refuses without a change other than loading, or its worker enters. -/
theorem begin_cases (p : Digest) (catalog : Option Digest) (expires : Option Date)
    (rand : Option Generation) (read write : Bool) (j : Journal) :
    (∃ e, j.begin p catalog expires rand read write = (j, .error e)) ∨
      ∃ j₁, j.loadLocked read = some j₁ ∧
        ((∃ e, j.begin p catalog expires rand read write = (j₁, .error e)) ∨
          ∃ g disk, j₁.refusal p catalog = none ∧ Written (j₁.entered p catalog expires g) disk ∧
            j.begin p catalog expires rand read write =
              ({ j₁ with records := j₁.entered p catalog expires g, disk := disk,
                         live := Function.update j₁.live p (some g) }, .ok g)) := by
  unfold begin
  cases hload : j.loadLocked read with
  | none => exact .inl ⟨_, rfl⟩
  | some j₁ =>
    refine .inr ⟨j₁, rfl, ?_⟩
    dsimp only
    cases href : j₁.refusal p catalog with
    | some e => exact .inl ⟨e, rfl⟩
    | none =>
      cases rand with
      | none => exact .inl ⟨_, rfl⟩
      | some g =>
        dsimp only
        cases hw : ({ j₁ with records := j₁.entered p catalog expires g } :
            Journal).writeLocked write with
        | none => exact .inl ⟨_, rfl⟩
        | some j₂ =>
          obtain ⟨heq, hwr⟩ := writeLocked_written hw
          refine .inr ⟨g, j₂.disk, rfl, hwr, ?_⟩
          dsimp only
          rw [heq]

theorem begin_changes (p : Digest) (catalog : Option Digest) (expires : Option Date)
    (rand : Option Generation) (read write : Bool) (j : Journal) :
    Changes j (j.begin p catalog expires rand read write).1 := by
  rcases begin_cases p catalog expires rand read write j with
    ⟨e, h⟩ | ⟨j₁, hload, ⟨e, h⟩ | ⟨g, disk, hfree, hw, h⟩⟩
  · rw [h]
  · rw [h]
    exact (loadLocked_changes hload).1
  · rw [h]
    obtain ⟨hc, hl, _⟩ := loadLocked_changes hload
    exact hc.tail (.enter hl hfree hw)

/-- **A worker that began** is live, and owns the record of its profile. -/
theorem begin_ok {catalog : Option Digest} {expires : Option Date} {rand : Option Generation}
    (hw : j.Wf) (h : j.begin p catalog expires rand read write = (j', .ok g)) :
    ∃ j₁, j.loadLocked read = some j₁ ∧ j'.live = Function.update j₁.live p (some g) ∧
      j₁.refusal p catalog = none ∧ j'.unsettled = j₁.unsettled ∧ j'.loaded = true ∧
      ∀ q, lookup q j'.records =
        if q = p then some (enter catalog expires g (before p catalog g j₁))
        else lookup q j₁.records := by
  rcases begin_cases p catalog expires rand read write j with
    ⟨_, h'⟩ | ⟨j₁, hload, ⟨_, h'⟩ | ⟨g', disk, hfree, _, h'⟩⟩
  · cases (Prod.mk.inj (h.symm.trans h')).2
  · cases (Prod.mk.inj (h.symm.trans h')).2
  · obtain ⟨rfl, hg⟩ := Prod.mk.inj (h.symm.trans h')
    obtain rfl := Except.ok.inj hg
    obtain ⟨hc, hloaded, _⟩ := loadLocked_changes hload
    exact ⟨j₁, hload, rfl, hfree, rfl, hloaded, lookup_entered (hc.wf hw).loadable catalog expires g⟩

/-- Tightening a found record and writing it before anything else. -/
theorem written_change (hfind : j.records.find? q = some r) (hst : Stricter r (f r))
    (hown : (f r).generation = r.generation) (hpend : (f r).pending = r.pending)
    (h : ({ j with records := amend q f j.records } : Journal).writeLocked write = some j') :
    Change j j' := by
  obtain ⟨l₁, l₂, hs, ha⟩ := Keyed.amend_split (f := f) hfind
  obtain ⟨heq, hw⟩ := writeLocked_written h
  rw [heq]
  dsimp only at hw ⊢
  rw [ha] at hw ⊢
  exact .tighten hs hst hown hpend (.inl hw)

/-- Tightening a found record in memory, written or not. -/
theorem store_change (hfind : j.records.find? q = some r) (hst : Stricter r (f r))
    (hown : (f r).generation = r.generation) (hpend : (f r).pending = r.pending)
    (hexp : (f r).expiresAt = r.expiresAt) (hleases : (f r).leases = r.leases) (write : Bool) :
    Change j (j.store write (amend q f j.records)) := by
  obtain ⟨l₁, l₂, hs, ha⟩ := Keyed.amend_split (f := f) hfind
  obtain ⟨disk, heq, hd⟩ := store_written write (amend q f j.records) j
  rw [heq, ha]
  rw [ha] at hd
  exact .tighten hs hst hown hpend (hd.imp_right fun h => ⟨h, hexp, hleases⟩)

/-- **`extendExpiry`** leaves the journal alone, or writes the later expiry. -/
theorem extendExpiry_cases (p : Digest) (g : Generation) (expires : Date) (write : Bool)
    (j : Journal) :
    (∃ e, j.extendExpiry p g expires write = (j, .error e)) ∨
      (j.extendExpiry p g expires write = (j, .ok ()) ∧ (j.live p = some g →
        ∃ r, j.records.find? (owned p g) = some r ∧
          expires.toTime.after (expiryTime r.expiresAt) = false)) ∨
      ∃ r j', j.live p = some g ∧ j.records.find? (owned p g) = some r ∧
        expires.toTime.after (expiryTime r.expiresAt) = true ∧
        ({ j with records := amend (owned p g) (withExpiry expires) j.records } :
          Journal).writeLocked write = some j' ∧
        j.extendExpiry p g expires write = (j', .ok ()) := by
  unfold extendExpiry
  split
  · rename_i hlive
    exact .inr (.inl ⟨rfl, fun h => absurd h hlive⟩)
  rename_i hlive
  cases hfind : j.records.find? (owned p g) with
  | none => exact .inl ⟨_, rfl⟩
  | some r =>
    dsimp only
    split
    · rename_i hafter
      exact .inr (.inl ⟨rfl, fun _ => ⟨r, rfl, by simpa using hafter⟩⟩)
    rename_i hafter
    split
    · exact .inl ⟨_, rfl⟩
    · rename_i j' hw
      exact .inr (.inr ⟨r, j', not_not.mp hlive, rfl, by simpa using hafter, hw, rfl⟩)

theorem expiry_stricter {expires : Date} (h : expires.toTime.after (expiryTime r.expiresAt) = true) :
    Stricter r (withExpiry expires r) :=
  Stricter.withExpiry (.of_after h)

theorem extendExpiry_changes (p : Digest) (g : Generation) (expires : Date) (write : Bool)
    (j : Journal) : Changes j (j.extendExpiry p g expires write).1 := by
  rcases extendExpiry_cases p g expires write j with
    ⟨e, h⟩ | ⟨h, _⟩ | ⟨r, j', _, hfind, hafter, hw, h⟩
  · rw [h]
  · rw [h]
  · rw [h]
    exact .single (written_change hfind (expiry_stricter hafter) rfl rfl hw)

/-- An extension that succeeds leaves a live worker's record covering the date. -/
theorem extendExpiry_ok {expires : Date} (hw : j.Wf)
    (h : j.extendExpiry p g expires write = (j', .ok ())) (hlive : j.live p = some g) :
    ∃ r, lookup p j'.records = some r ∧ expires.toTime.wall ≤ (expiryTime r.expiresAt).wall := by
  rcases extendExpiry_cases p g expires write j with
    ⟨_, h'⟩ | ⟨h', hold⟩ | ⟨r, j₁, _, hfind, _, hwr, h'⟩
  · cases (Prod.mk.inj (h.symm.trans h')).2
  · obtain ⟨rfl, _⟩ := Prod.mk.inj (h.symm.trans h')
    obtain ⟨r, hfind, hafter⟩ := hold hlive
    rw [after_expiryTime, decide_eq_false_iff_not, not_lt] at hafter
    exact ⟨r, ((find_owned hw.loadable).mp hfind).1, hafter⟩
  · obtain ⟨rfl, _⟩ := Prod.mk.inj (h.symm.trans h')
    have hp : r.profileDigest = p :=
      (Keyed.mem_of_lookup ((find_owned hw.loadable).mp hfind).1).2
    rw [(writeLocked_written hwr).1]
    dsimp only
    rw [lookup_amend hw.loadable hfind rfl, hp, if_pos rfl]
    exact ⟨_, rfl, le_rfl⟩

theorem extendExpiry_live (p : Digest) (g : Generation) (expires : Date) (write : Bool)
    (j : Journal) : (j.extendExpiry p g expires write).1.live = j.live := by
  rcases extendExpiry_cases p g expires write j with
    ⟨_, h⟩ | ⟨h, _⟩ | ⟨_, _, _, _, _, hwr, h⟩
  · rw [h]
  · rw [h]
  · rw [h, (writeLocked_written hwr).1]

theorem extendExpiry_unwritten (p : Digest) (g : Generation) (expires : Date) (j : Journal) :
    (j.extendExpiry p g expires false).1 = j := by
  rcases extendExpiry_cases p g expires false j with
    ⟨_, h⟩ | ⟨h, _⟩ | ⟨_, _, _, _, _, hwr, _⟩
  · rw [h]
  · rw [h]
  · cases write_of_writeLocked hwr

/-- **`retainRenewal`** fails without a change, or writes a record that has both leases. -/
theorem retainRenewal_cases (p : Digest) (g : Generation) (previous next : LeaseIdentity)
    (currentIDs : List (Hex 32)) (now : Sample) (write : Bool) (j : Journal) :
    (∃ e, j.retainRenewal p g previous next currentIDs now write = (j, .error e)) ∨
      ∃ r m j', j.live p = some g ∧ previous.leaseID ≠ next.leaseID ∧
        next.follows previous = true ∧ j.records.find? (owned p g) = some r ∧
        r.policyAction = .none ∧ r.catalogWithdrawn = false ∧
        r.scopeActions.get? next.runtimeScopeSHA256 = none ∧
        m = ((keptLeases now currentIDs previous next r).insert previous.leaseID previous).insert
          next.leaseID next ∧ m.size ≤ 256 ∧
        ({ j with records := amend (owned p g) (withLeases m) j.records } :
          Journal).writeLocked write = some j' ∧
        j.retainRenewal p g previous next currentIDs now write = (j', .ok ()) := by
  unfold retainRenewal
  split
  · exact .inl ⟨_, rfl⟩
  rename_i hguard
  simp only [not_or, not_not, Bool.not_eq_false] at hguard
  obtain ⟨hlive, hne, hfollows⟩ := hguard
  cases hfind : j.records.find? (owned p g) with
  | none => exact .inl ⟨_, rfl⟩
  | some r =>
    dsimp only
    split
    · exact .inl ⟨_, rfl⟩
    rename_i hclear
    simp only [Bool.or_eq_true, not_or, Bool.not_eq_true, decide_eq_false_iff_not, not_not,
      Option.isSome_eq_false_iff, Option.isNone_iff_eq_none] at hclear
    obtain ⟨⟨⟨_, hpolicy⟩, hwithdrawn⟩, hscope⟩ := hclear
    cases hm : (keepLease previous (keptLeases now currentIDs previous next r)).bind
        (keepLease next) with
    | none => exact .inl ⟨_, rfl⟩
    | some m =>
      obtain ⟨m₁, h₁, h₂⟩ := Option.bind_eq_some_iff.mp hm
      dsimp only
      split
      · exact .inl ⟨_, rfl⟩
      rename_i hsize
      split
      · exact .inl ⟨_, rfl⟩
      rename_i j' hw
      refine .inr ⟨r, m, j', hlive, hne, hfollows, rfl, hpolicy, hwithdrawn, hscope, ?_,
        not_lt.mp hsize, hw, rfl⟩
      rw [keepLease_spec h₂, keepLease_spec h₁]

/-- **A retention that succeeds** was written, found a record without any restriction of the scope,
and left both leases in it, covered by its expiry. -/
theorem retainRenewal_ok {previous next : LeaseIdentity} {currentIDs : List (Hex 32)} {now : Sample}
    (hw : j.Wf) (h : j.retainRenewal p g previous next currentIDs now write = (j', .ok ())) :
    write = true ∧ j.live p = some g ∧ j'.live = j.live ∧ previous.leaseID ≠ next.leaseID ∧
      next.follows previous = true ∧
      ∃ r r', lookup p j.records = some r ∧ r.policyAction = .none ∧ r.catalogWithdrawn = false ∧
        r.scopeActions.get? next.runtimeScopeSHA256 = none ∧ lookup p j'.records = some r' ∧
        previous ∈ r'.leases ∧ next ∈ r'.leases ∧
        ExpiryLe (some next.activeFlowsUntil) r'.expiresAt := by
  rcases retainRenewal_cases p g previous next currentIDs now write j with
    ⟨_, h'⟩ | ⟨r, m, j₁, hlive, hne, hfollows, hfind, hpolicy, hwithdrawn, hscope, hm, _, hwr, h'⟩
  · cases (Prod.mk.inj (h.symm.trans h')).2
  obtain ⟨rfl, _⟩ := Prod.mk.inj (h.symm.trans h')
  have hr := ((find_owned hw.loadable).mp hfind).1
  have hlook : lookup p j'.records = some (withLeases m r) := by
    rw [(writeLocked_written hwr).1]
    dsimp only
    rw [lookup_amend hw.loadable hfind rfl, (Keyed.mem_of_lookup hr).2, if_pos rfl]
  -- the table is indexed by the ids, so inserting the successor leaves its predecessor in it
  have hmem : ∀ {k : Hex 32} {l : LeaseIdentity}, m.get? k = some l → l ∈ (withLeases m r).leases :=
    fun hk => List.mem_map.mpr ⟨_, SortedMap.get?_eq_some_iff.mp hk, rfl⟩
  have hprev : m.get? previous.leaseID = some previous := by
    rw [hm, SortedMap.get?_insert, if_neg hne, SortedMap.get?_insert_self]
  have hnext : m.get? next.leaseID = some next := by
    rw [hm, SortedMap.get?_insert_self]
  have hcover := (laterExpiry_covers r.expiresAt (m.entries.map Prod.snd)).2 next (hmem hnext)
  refine ⟨write_of_writeLocked hwr, hlive, ?_, hne, hfollows, r, _, hr, hpolicy, hwithdrawn, hscope,
    hlook, hmem hprev, hmem hnext, hcover.getD⟩
  rw [(writeLocked_written hwr).1]

theorem retainRenewal_changes (p : Digest) (g : Generation) (previous next : LeaseIdentity)
    (currentIDs : List (Hex 32)) (now : Sample) (write : Bool) (j : Journal) :
    Changes j (j.retainRenewal p g previous next currentIDs now write).1 := by
  rcases retainRenewal_cases p g previous next currentIDs now write j with
    ⟨e, h⟩ | ⟨r, m, j', _, _, _, hfind, _, _, _, rfl, hsize, hw, h⟩
  · rw [h]
  · rw [h]
    have hid := ((byId_keptLeases now currentIDs previous next r).insert previous).insert next
    exact .single (written_change hfind (withLeases_stricter hid hsize r) rfl rfl hw)

theorem restrict_changes (p : Digest) (g : Generation) (reason : Reason) (write : Bool)
    (j : Journal) : Changes j (j.restrict p g reason write) := by
  unfold restrict
  cases hfind : j.records.find? (owned p g) with
  | none => exact .refl
  | some r =>
    exact .single (store_change hfind (restrictRecord_stricter reason r) rfl rfl rfl rfl write)

theorem restrictScope_changes (p : Digest) (g : Generation) (scope : Digest)
    (action : ScopeAction) (write : Bool) (j : Journal) (hl : Loadable j.records) :
    Changes j (j.restrictScope p g scope action write) := by
  unfold restrictScope
  cases hfind : j.records.find? (owned p g) with
  | none => exact .refl
  | some r =>
    dsimp only
    split
    · refine .single (.mark ?_)
      rw [((find_owned hl).mp hfind).1]
      rfl
    · rename_i hroom
      refine .single (store_change hfind (restrictScopeRecord_stricter fun h => ?_) ?_ ?_ ?_ ?_
        write)
      · simpa [h] using hroom
      all_goals
        obtain ⟨m, hm⟩ := restrictScopeRecord_eq scope action r
        rw [hm]

theorem store_amend (hl : Loadable j.records) (hfind : j.records.find? q = some r)
    (hf : (f r).profileDigest = r.profileDigest) (write : Bool) :
    ∃ j', j.store write (amend q f j.records) = j' ∧ j'.live = j.live ∧
      j'.unsettled = j.unsettled ∧ j'.loaded = j.loaded ∧
      lookup r.profileDigest j'.records = some (f r) := by
  obtain ⟨disk, heq, _⟩ := store_written write (amend q f j.records) j
  refine ⟨_, heq, rfl, rfl, rfl, ?_⟩
  dsimp only
  rw [lookup_amend hl hfind hf, if_pos rfl]

/-- **`restrict` by the owner of a record** tightens it, whether or not the write succeeds. -/
theorem restrict_owned (hw : j.Wf) (hr : lookup p j.records = some r) (hg : r.generation = g)
    (reason : Reason) (write : Bool) :
    ∃ j', j.restrict p g reason write = j' ∧ j'.live = j.live ∧ j'.unsettled = j.unsettled ∧
      j'.loaded = j.loaded ∧ lookup p j'.records = some (restrictRecord reason r) := by
  have hfind := (find_owned hw.loadable).mpr ⟨hr, hg⟩
  obtain ⟨j', hj', hrest⟩ := store_amend (f := restrictRecord reason) hw.loadable hfind rfl write
  rw [(Keyed.mem_of_lookup hr).2] at hrest
  refine ⟨j', ?_, hrest⟩
  rw [restrict, hfind]
  exact hj'

/-- **`restrictScope` by the owner of a record** does so in one scope, unless the record is full of
other scopes: then it marks the profile. -/
theorem restrictScope_owned (hw : j.Wf) (hr : lookup p j.records = some r) (hg : r.generation = g)
    (scope : Digest) (action : ScopeAction) (write : Bool) :
    ∃ j', j.restrictScope p g scope action write = j' ∧ j'.live = j.live ∧ j'.loaded = j.loaded ∧
      (r.scopeActions.get? scope = none ∧ 256 ≤ r.scopeActions.size ∧ j'.records = j.records ∧
          j'.unsettled = Function.update j.unsettled p true ∨
        (r.scopeActions.get? scope = none → r.scopeActions.size < 256) ∧
          j'.unsettled = j.unsettled ∧
          lookup p j'.records = some (restrictScopeRecord scope action r)) := by
  have hfind := (find_owned hw.loadable).mpr ⟨hr, hg⟩
  unfold restrictScope
  rw [hfind]
  dsimp only
  split
  · rename_i hfull
    obtain ⟨hnone, hsize⟩ := Bool.and_eq_true_iff.mp hfull
    exact ⟨_, rfl, rfl, rfl,
      Or.inl ⟨Option.isNone_iff_eq_none.mp hnone, of_decide_eq_true hsize, rfl, rfl⟩⟩
  · rename_i hroom
    obtain ⟨m, hm⟩ := restrictScopeRecord_eq scope action r
    have hprof : (restrictScopeRecord scope action r).profileDigest = r.profileDigest := by rw [hm]
    obtain ⟨j', hj', hl, hu, hload, hlook⟩ := store_amend hw.loadable hfind hprof write
    rw [(Keyed.mem_of_lookup hr).2] at hlook
    exact ⟨j', hj', hl, hload, .inr ⟨fun h => by simpa [h] using hroom, hu, hlook⟩⟩

/-- Without a record for the profile there is nothing to restrict. -/
theorem find_owned_absent (hw : j.Wf) (hr : lookup p j.records = none) (g : Generation) :
    j.records.find? (owned p g) = none := by
  cases hfind : j.records.find? (owned p g) with
  | none => rfl
  | some r => cases hr.symm.trans ((find_owned hw.loadable).mp hfind).1

theorem restrict_absent (hw : j.Wf) (hr : lookup p j.records = none) (g : Generation)
    (reason : Reason) (write : Bool) : j.restrict p g reason write = j := by
  rw [restrict, find_owned_absent hw hr g]

theorem restrictScope_absent (hw : j.Wf) (hr : lookup p j.records = none) (g : Generation)
    (scope : Digest) (action : ScopeAction) (write : Bool) :
    j.restrictScope p g scope action write = j := by
  rw [restrictScope, find_owned_absent hw hr g]

theorem restrict_other (hw : j.Wf) {p' : Digest} (hp : p' ≠ p) (g : Generation) (reason : Reason)
    (write : Bool) :
    (j.restrict p g reason write).loaded = j.loaded ∧
      (j.restrict p g reason write).unsettled p' = j.unsettled p' ∧
      lookup p' (j.restrict p g reason write).records = lookup p' j.records := by
  unfold restrict
  cases hfind : j.records.find? (owned p g) with
  | none => exact ⟨rfl, rfl, rfl⟩
  | some r =>
    obtain ⟨disk, heq, _⟩ := store_written write
      (amend (owned p g) (restrictRecord reason) j.records) j
    dsimp only
    rw [heq]
    refine ⟨rfl, rfl, ?_⟩
    have hr := (Keyed.mem_of_lookup ((find_owned hw.loadable).mp hfind).1).2
    dsimp only
    rw [lookup_amend hw.loadable hfind rfl, hr, if_neg hp]

theorem restrictScope_other (hw : j.Wf) {p' : Digest} (hp : p' ≠ p) (g : Generation)
    (scope : Digest) (action : ScopeAction) (write : Bool) :
    (j.restrictScope p g scope action write).loaded = j.loaded ∧
      (j.restrictScope p g scope action write).unsettled p' = j.unsettled p' ∧
      lookup p' (j.restrictScope p g scope action write).records = lookup p' j.records := by
  unfold restrictScope
  cases hfind : j.records.find? (owned p g) with
  | none => exact ⟨rfl, rfl, rfl⟩
  | some r =>
    dsimp only
    split
    · exact ⟨rfl, Function.update_of_ne hp .., rfl⟩
    · obtain ⟨disk, heq, _⟩ := store_written write
        (amend (owned p g) (restrictScopeRecord scope action) j.records) j
      rw [heq]
      refine ⟨rfl, rfl, ?_⟩
      have hr := (Keyed.mem_of_lookup ((find_owned hw.loadable).mp hfind).1).2
      obtain ⟨m, hm⟩ := restrictScopeRecord_eq scope action r
      have hprof : (restrictScopeRecord scope action r).profileDigest = r.profileDigest := by rw [hm]
      dsimp only
      rw [lookup_amend hw.loadable hfind hprof, hr, if_neg hp]

theorem finish_changes (p : Digest) (g : Generation) (write : Bool) (j : Journal) (hw : j.Wf) :
    Changes j (j.finish p g write) := by
  unfold finish
  split
  · exact .refl
  rename_i hlive
  have hlive := not_not.mp hlive
  obtain ⟨r, hr, _⟩ := hw.owner hlive
  obtain rfl : r.profileDigest = p := (Keyed.mem_of_lookup hr).2
  dsimp only
  rw [hr]
  obtain ⟨l₁, l₂, hs, ha⟩ := Keyed.amend_split (f := settled (j.unsettled r.profileDigest)) hr
  obtain ⟨disk, heq, hd⟩ := store_written write
    (amend (ofProfile r.profileDigest) (settled (j.unsettled r.profileDigest)) j.records)
    { j with live := Function.update j.live r.profileDigest none }
  dsimp only at heq hd ⊢
  rw [heq]
  rw [show amend (ofProfile r.profileDigest) _ _ = _ from ha] at hd ⊢
  exact .single (.settle hs hlive hd)

/-! ## Exports and acknowledgements -/

section Snapshot

variable (sha256 : List Char → Digest)

/-- **`snapshotLocked`** exports what it has just written, or fails. -/
theorem snapshotLocked_cases (read write : Bool) (j : Journal) :
    (∃ e, j.snapshotLocked sha256 read write = (j, .error e)) ∨
      ∃ j₁, j.loadLocked read = some j₁ ∧
        ((∃ e, j.snapshotLocked sha256 read write = (j₁, .error e)) ∨
          ∃ disk, Written j₁.records disk ∧
            ((∃ e, j.snapshotLocked sha256 read write = ({ j₁ with disk := disk }, .error e)) ∨
              j.snapshotLocked sha256 read write = ({ j₁ with disk := disk },
                .ok (exportText (sha256 (canonicalText j₁.content)) j₁.content,
                  sha256 (canonicalText j₁.content))))) := by
  unfold snapshotLocked
  cases hload : j.loadLocked read with
  | none => exact .inl ⟨_, rfl⟩
  | some j₁ =>
    refine .inr ⟨j₁, rfl, ?_⟩
    dsimp only
    cases hw : j₁.writeLocked write with
    | none => exact .inl ⟨_, rfl⟩
    | some j₂ =>
      obtain ⟨heq, hwr⟩ := writeLocked_written hw
      have hcontent : j₂.content = j₁.content := by
        rw [heq]
        rfl
      refine .inr ⟨j₂.disk, hwr, ?_⟩
      dsimp only
      rw [← heq, hcontent]
      split
      · exact .inr rfl
      · exact .inl ⟨_, rfl⟩

theorem snapshotLocked_changes (read write : Bool) (j : Journal) :
    Changes j (j.snapshotLocked sha256 read write).1 := by
  rcases snapshotLocked_cases sha256 read write j with
    ⟨e, h⟩ | ⟨j₁, hload, ⟨e, h⟩ | ⟨disk, hw, ⟨e, h⟩ | h⟩⟩
  · rw [h]
  · rw [h]
    exact (loadLocked_changes hload).1
  all_goals
    rw [h]
    obtain ⟨hc, hl, _⟩ := loadLocked_changes hload
    exact hc.tail (.flush hl hw)

/-- **`acknowledge`** leaves every record where it is, or hands over what is not live. -/
theorem acknowledge_cases (snapshotSHA256 : String) (read write again : Bool) (j : Journal) :
    (∃ e, j.acknowledge sha256 snapshotSHA256 read write again = (j, .error e)) ∨
      ∃ j₁, j.loadLocked read = some j₁ ∧
        ((∃ e, j.acknowledge sha256 snapshotSHA256 read write again = (j₁, .error e)) ∨
          ∃ disk, Written j₁.records disk ∧
            ((∃ a, a ≠ .ok true ∧ j.acknowledge sha256 snapshotSHA256 read write again =
                ({ j₁ with disk := disk }, a)) ∨
              ∃ disk', (sha256 (canonicalText j₁.content)).text = snapshotSHA256 ∧
                Written (j₁.records.filter j₁.isLive) disk' ∧
                j.acknowledge sha256 snapshotSHA256 read write again =
                  ({ j₁.handOver with disk := disk' }, .ok true))) := by
  unfold acknowledge
  cases hh : Hex.ofString? 64 snapshotSHA256 with
  | none => exact .inl ⟨_, rfl⟩
  | some h =>
    rcases snapshotLocked_cases sha256 read write j with
      ⟨e, hs⟩ | ⟨j₁, hload, ⟨e, hs⟩ | ⟨disk, hw, ⟨e, hs⟩ | hs⟩⟩
    · exact .inl ⟨e, by rw [hs]⟩
    · exact .inr ⟨j₁, hload, .inl ⟨e, by rw [hs]⟩⟩
    · exact .inr ⟨j₁, hload, .inr ⟨disk, hw, .inl ⟨.error e, nofun, by rw [hs]⟩⟩⟩
    · refine .inr ⟨j₁, hload, .inr ⟨disk, hw, ?_⟩⟩
      rw [hs]
      dsimp only
      split
      · exact .inl ⟨.ok false, by simp, rfl⟩
      rename_i heq
      split
      · exact .inl ⟨.error _, nofun, rfl⟩
      · rename_i j₂ hw₂
        obtain ⟨_, hwr⟩ := writeLocked_written hw₂
        refine .inr ⟨j₂.disk, ?_, hwr, rfl⟩
        rw [not_not.mp heq]
        exact Hex.text_of_ofString? hh

end Snapshot

/-- What is handed over is gone, the rest is as it was. -/
theorem lookup_handOver (hl : Loadable j.records) (p : Digest) :
    lookup p j.handOver.records = (lookup p j.records).filter j.isLive :=
  Keyed.lookup_filter hl.nodup j.isLive p

theorem loadable_handOver (hl : Loadable j.records) : Loadable j.handOver.records where
  length_le := (List.length_filter_le _ _).trans hl.length_le
  nodup := hl.nodup.sublist (List.filter_sublist.map _)
  record r hr := hl.record r (List.mem_filter.mp hr).1

theorem Wf.handOver {disk : Option (List Char)} (hw : j.Wf) (hload : j.loaded = true)
    (hd : Written j.handOver.records disk) : Wf { j.handOver with disk := disk } := by
  refine wf_of_written (loadable_handOver hw.loadable) hload ?_ hd
  intro p g hp
  obtain ⟨r, hr, hg, hpend⟩ := hw.owner hp
  refine ⟨r, (lookup_handOver hw.loadable p).trans ?_, hg, hpend⟩
  rw [hr, Option.filter_some, if_pos]
  have hprof : r.profileDigest = p := (Keyed.mem_of_lookup hr).2
  rw [isLive, hprof, hg]
  exact decide_eq_true hp

/-- Every operation but an acknowledgement only makes records stricter. -/
theorem Change.stricter (hc : Change j j') (hw : j.Wf) (hr : lookup p j.records = some r) :
    ∃ r', lookup p j'.records = some r' ∧ Stricter r r' := by
  cases hc with
  | load hun hs =>
    rw [(hw.unloaded hun).1] at hr
    cases hr
  | flush _ _ => exact ⟨r, hr, Stricter.refl r⟩
  | @enter p' catalog expires g _ _ _ _ =>
    dsimp only
    rw [lookup_entered hw.loadable]
    split_ifs with hp
    · subst hp
      refine ⟨_, rfl, ?_⟩
      rw [before, hr]
      exact enter_stricter catalog expires g r
    · exact ⟨r, hr, Stricter.refl r⟩
  | @tighten l₁ l₂ r₁ r₂ _ hsplit hst _ _ _ =>
    have hl : Loadable (l₁ ++ r₁ :: l₂) := hsplit ▸ hw.loadable
    rcases lookup_replace_cases hl hst.profile (hsplit ▸ hr) with ⟨_, rfl, h⟩ | ⟨_, h⟩
    · exact ⟨_, h, hst⟩
    · exact ⟨r, h, Stricter.refl r⟩
  | mark _ => exact ⟨r, hr, Stricter.refl r⟩
  | @settle l₁ l₂ r₁ _ _ hsplit _ _ =>
    have hl : Loadable (l₁ ++ r₁ :: l₂) := hsplit ▸ hw.loadable
    have hst := settled_stricter (j.unsettled r₁.profileDigest) r₁
    rcases lookup_replace_cases hl hst.profile (hsplit ▸ hr) with ⟨_, rfl, h⟩ | ⟨_, h⟩
    · exact ⟨_, h, hst⟩
    · exact ⟨r, h, Stricter.refl r⟩

theorem Changes.stricter (hc : Changes j j') (hw : j.Wf) (hr : lookup p j.records = some r) :
    ∃ r', lookup p j'.records = some r' ∧ Stricter r r' := by
  induction hc with
  | refl => exact ⟨r, hr, Stricter.refl r⟩
  | tail hcs hc ih =>
    obtain ⟨r₁, hr₁, h₁⟩ := ih
    obtain ⟨r₂, hr₂, h₂⟩ := hc.stricter (Changes.wf hcs hw) hr₁
    exact ⟨r₂, hr₂, h₁.trans h₂⟩

/-- An acknowledgement hands over whole records, and only such as are not live. -/
theorem acknowledge_stricter (hw : j.Wf) (sha256 : List Char → Digest) (h : String)
    (read write again : Bool) (hr : lookup p j.records = some r) :
    (∃ r', lookup p (j.acknowledge sha256 h read write again).1.records = some r' ∧ Stricter r r') ∨
      (j.acknowledge sha256 h read write again).2 = .ok true ∧ j.isLive r = false := by
  have hloaded : j.loaded = true := by
    by_contra hun
    rw [(hw.unloaded (by simpa using hun)).1] at hr
    cases hr
  rcases acknowledge_cases sha256 h read write again j with
    ⟨e, heq⟩ | ⟨j₁, hload, hcases⟩
  · rw [heq]
    exact .inl ⟨r, hr, .refl r⟩
  obtain ⟨_, _, _, _, _, hsame⟩ := loadLocked_changes hload
  obtain rfl := hsame hloaded
  rcases hcases with ⟨e, heq⟩ | ⟨disk, _, ⟨a, _, heq⟩ | ⟨disk', _, _, heq⟩⟩
  · rw [heq]
    exact .inl ⟨r, hr, .refl r⟩
  · rw [heq]
    exact .inl ⟨r, hr, .refl r⟩
  · rw [heq]
    cases hlive : j₁.isLive r with
    | false => exact .inr ⟨rfl, rfl⟩
    | true =>
      refine .inl ⟨r, (lookup_handOver hw.loadable p).trans ?_, .refl r⟩
      rw [hr, Option.filter_some, if_pos hlive]

end Journal

end PokrovCore.Daemon
