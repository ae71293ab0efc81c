import Mathlib.Algebra.Order.BigOperators.Group.List
import PokrovCore.Daemon.JournalRuns
import PokrovCore.Foundations.JsonSize

/-!
# Daemon/JournalSize — the size limits of the journal are never met

Every field of a record has a bounded text, and the numbers of records, leases and scopes are
bounded, so a document has at most 941 884 bytes (`documentText_le`).  An exported snapshot has the
same records in another order of keys, and at most 123 bytes more (`exportText_le`).  Both stay
within their limits, so no call of a run fails for the size of what it writes or exports
(`journal_fits`).
-/

namespace PokrovCore.Daemon

open Json (size)

/-! ## The fields -/

theorem plain_of_isLowerHex {c : Char} (h : isLowerHex c = true) : Json.plain c = true := by
  refine Json.plain_of_ascii (fun c h => ?_) (by decide) h
  simp only [isLowerHex, Bool.or_eq_true, decide_eq_true_eq, Char.le_def,
    UInt32.le_iff_toNat_le] at h
  have hd : ('9' : Char).val.toNat = 57 := by decide
  have hf : ('f' : Char).val.toNat = 102 := by decide
  have hc : c.val.toNat = c.toNat := rfl
  omega

theorem plain_of_isIdChar {c : Char} (h : isIdChar c = true) : Json.plain c = true := by
  refine Json.plain_of_ascii (fun c h => ?_) (by decide) h
  simp only [isIdChar, Bool.or_eq_true, decide_eq_true_eq, Char.le_def,
    UInt32.le_iff_toNat_le, beq_iff_eq] at h
  have hz : ('z' : Char).val.toNat = 122 := by decide
  have hd : ('9' : Char).val.toNat = 57 := by decide
  have hc : c.val.toNat = c.toNat := rfl
  rcases h with (((h | h) | rfl) | rfl) | rfl
  · omega
  · omega
  all_goals decide

theorem size_hex {n : ℕ} (x : Hex n) : size (.str x.text) = n + 2 := by
  have hok := x.ok
  rw [hexPattern, Bool.and_eq_true, beq_iff_eq, List.all_eq_true] at hok
  rw [Json.size_str fun c hc => plain_of_isLowerHex (hok.2 c hc), hok.1]

theorem size_serviceID_le (x : ServiceID) : size (.str x.text) ≤ 66 := by
  have hok := x.ok
  unfold routingCatalogServiceID at hok
  split at hok
  · cases hok
  rename_i c r hs
  simp only [Bool.and_eq_true, List.all_eq_true, decide_eq_true_eq] at hok
  have hplain : ∀ d ∈ x.text.toList, Json.plain d = true := by
    rw [hs]
    refine List.forall_mem_cons.mpr ⟨plain_of_isIdChar ?_, fun d hd => plain_of_isIdChar
      (hok.1.2 d hd)⟩
    simp only [isIdChar, hok.1.1, Bool.true_or]
  have hlen := hok.2
  rw [Json.size_str hplain, hs, List.length_cons]
  omega

theorem size_revision_le (x : Revision) : size (.int x.value) ≤ 16 :=
  Json.size_int_le (by decide) (lt_of_le_of_lt x.le (by decide))

theorem plain_digit {n : ℕ} (h : n < 10) : Json.plain (Date.digit n) = true := by
  have hall : ∀ k < 10, Json.plain (Date.digit k) = true := by decide
  exact hall n h

theorem size_date (d : Date) : size (.str d.format) = 22 := by
  have htwo : ∀ n < 100, ∀ c ∈ Date.two n, Json.plain c = true := fun n hn c hc => by
    simp only [Date.two, List.mem_cons, List.not_mem_nil, or_false] at hc
    rcases hc with rfl | rfl
    · exact plain_digit (by omega)
    · exact plain_digit (by omega)
  have hy := d.year_lt
  have hmd := d.monthDay_spec
  have hclock : d.clock < 86400 := Nat.mod_lt _ (by decide)
  have hplain : ∀ c ∈ d.format.toList, Json.plain c = true := by
    rw [Date.format, String.toList_ofList]
    simp only [Date.chars, List.forall_mem_append, List.forall_mem_cons]
    refine ⟨⟨⟨⟨⟨⟨⟨htwo _ ?_, htwo _ ?_⟩, ?_, htwo _ ?_⟩, ?_, htwo _ ?_⟩, ?_, htwo _ ?_⟩, ?_,
      htwo _ ?_⟩, ?_, htwo _ ?_⟩, ?_, List.forall_mem_nil _⟩ <;> first | omega | rfl
  rw [Json.size_str hplain, Date.format, String.toList_ofList]
  rfl

theorem size_bool_le (b : Bool) : size (.bool b) ≤ 5 := by cases b <;> decide

/-! ## A lease -/

namespace LeaseIdentity

/-- The words of an identity are bounded by the longest of their vocabularies. -/
theorem size_words (l : LeaseIdentity) :
    size (.str (Vocabulary.text l.platform)) ≤ 9 ∧ size (.str (Vocabulary.text l.audience)) ≤ 12 ∧
      size (.str (Vocabulary.text l.routeMode)) ≤ 12 ∧ size (.str (Vocabulary.text l.origin)) ≤ 16 ∧
      size (.str (Vocabulary.text l.family)) ≤ 6 ∧ size (.str (Vocabulary.text l.feature)) ≤ 14 := by
  refine ⟨?_, ?_, ?_, ?_, ?_, ?_⟩
  · cases l.platform <;> decide
  · cases l.audience <;> decide
  · cases l.routeMode <;> decide
  · cases l.origin <;> decide
  · cases l.family <;> decide
  · cases l.feature <;> decide

theorem size_values_le (l : LeaseIdentity) : (l.values.map size).sum ≤ 727 := by
  have hw := l.size_words
  have hids := And.intro (size_serviceID_le l.serviceID) (And.intro (size_serviceID_le l.providerID)
    (And.intro (size_serviceID_le l.permissionID) (size_serviceID_le l.capabilityID)))
  have hrevs := And.intro (size_revision_le l.providerPolicyRevision)
    (And.intro (size_revision_le l.providerSecurityRevision)
    (And.intro (size_revision_le l.providerRevision) (And.intro (size_revision_le l.permissionRevision)
    (And.intro (size_revision_le l.catalogRevision) (size_revision_le l.catalogSecurityRevision)))))
  simp only [values, List.map_cons, List.map_nil, List.sum_cons, List.sum_nil, size_hex, size_date]
  omega

/-- **A lease takes at most 1145 bytes.** -/
theorem size_toJson_le (l : LeaseIdentity) : size l.toJson ≤ 1145 := by
  have hkeys : Json.keysSize keys = 417 := by decide +kernel
  have hvalues := l.size_values_le
  rw [toJson, Json.size_record rfl, hkeys]
  omega

theorem size_canonicalObject (l : LeaseIdentity) : size l.canonicalObject = size l.toJson := by
  rw [canonicalObject, Json.size_sorted, toJson]

end LeaseIdentity

/-! ## A record and a document -/

/-- The numbers of leases and scopes a record may hold. -/
structure Record.Capped (r : Record) : Prop where
  leases_le : r.leases.length ≤ 256
  scopes_le : r.scopeActions.size ≤ 256

/-- …and of records a document may hold. -/
structure Capped (rs : List Record) : Prop where
  length_le : rs.length ≤ 3
  record : ∀ r ∈ rs, r.Capped

variable {rs : List Record}

theorem Loadable.capped (h : Loadable rs) : Capped rs where
  length_le := h.length_le
  record r hr := ⟨(h.record r hr).leases_le, (h.record r hr).scopes_le⟩

variable {α : Type}

theorem size_optional_le {text : α → String} {n : ℕ} (hn : 2 ≤ n)
    (h : ∀ a, size (.str (text a)) ≤ n) (a : Option α) : size (optionalText text a) ≤ n := by
  cases a with
  | none => exact hn
  | some a => exact h a

theorem sum_map_le {f : α → ℕ} {l : List α} {n b : ℕ} (hlen : l.length ≤ n) (h : ∀ a ∈ l, f a ≤ b) :
    (l.map f).sum ≤ n * b := by
  have hsum := List.sum_le_card_nsmul (l.map f) b (by simpa using h)
  rw [List.length_map, nsmul_eq_mul, Nat.cast_id] at hsum
  exact hsum.trans (Nat.mul_le_mul_right b hlen)

theorem size_scopes_le {m : SortedMap Digest ScopeAction} (h : m.size ≤ 256) :
    size (scopesToJson m) ≤ 20225 := by
  have hsum := sum_map_le (f := fun e : Digest × ScopeAction =>
    Json.memberSize (e.1.text, .str (Vocabulary.text e.2))) (b := 79) h fun e _ => by
      have haction : size (.str (Vocabulary.text e.2)) ≤ 11 := by cases e.2 <;> decide
      simp only [Json.memberSize, size_hex]
      omega
  rw [scopesToJson, Json.size_obj, List.map_map]
  simp only [Function.comp_def]
  omega

theorem size_leases_le {leases : List LeaseIdentity} (h : leases.length ≤ 256) :
    size (.arr (leases.map LeaseIdentity.toJson)) ≤ 293377 := by
  have hsum := sum_map_le (f := fun l : LeaseIdentity => Json.itemSize l.toJson) (b := 1146) h
    fun l _ => Nat.succ_le_succ l.size_toJson_le
  rw [Json.size_arr, List.map_map]
  simp only [Function.comp_def]
  omega

/-- **A record takes at most 313 952 bytes.** -/
theorem Record.size_toJson_le {r : Record} (h : r.Capped) : size r.toJson ≤ 313952 := by
  have hkeys : Json.keysSize keys = 140 := by decide +kernel
  have hcatalog := size_optional_le (by decide) (fun x : Digest => (size_hex x).le) r.catalogSHA256
  have hexpires := size_optional_le (by decide) (fun d : Date => (size_date d).le) r.expiresAt
  have haction : size (.str (Vocabulary.text r.policyAction)) ≤ 11 := by
    cases r.policyAction <;> decide
  have hpending := size_bool_le r.pending
  have hwithdrawn := size_bool_le r.catalogWithdrawn
  have hleases := size_leases_le h.leases_le
  have hscopes := size_scopes_le h.scopes_le
  rw [toJson, Json.size_record rfl, hkeys]
  simp only [values, List.map_cons, List.map_nil, List.sum_cons, List.sum_nil, size_hex]
  omega

/-- A document takes its records and 24 bytes more. -/
theorem size_document (rs : List Record) :
    Json.byteLength (documentText rs) = size (.arr (rs.map Record.toJson)) + 24 := by
  have hkeys : Json.keysSize documentKeys = 22 := by decide +kernel
  have hversion : size (.int 1) = 1 := by decide
  rw [documentText, ← size, documentJson, Json.size_record rfl, hkeys]
  simp only [List.map_cons, List.map_nil, List.sum_cons, List.sum_nil, hversion]
  omega

/-- **A document takes at most 941 884 bytes.** -/
theorem documentText_le (h : Capped rs) :
    Json.byteLength (documentText rs) ≤ 941884 := by
  have hsum := sum_map_le (f := fun r : Record => Json.itemSize r.toJson) (b := 313953) h.length_le
    fun r hr => Nat.succ_le_succ (Record.size_toJson_le (h.record r hr))
  rw [size_document, Json.size_arr, List.map_map]
  simp only [Function.comp_def]
  omega

theorem Capped.documentText_le (h : Capped rs) :
    Json.byteLength (documentText rs) ≤ documentLimit :=
  have hlimit : 941884 ≤ documentLimit := by decide
  (Daemon.documentText_le h).trans hlimit

theorem Loadable.fits (h : Loadable rs) : fits rs = true :=
  decide_eq_true h.capped.documentText_le

/-! ## A snapshot -/

namespace Journal

open Keyed (amend)

/-- An exported entry takes the bytes of its record and its liveness. -/
theorem size_entryJson_le (e : Record × Bool) : size (entryJson e) ≤ size e.1.toJson + 13 := by
  have hkeys : Json.keysSize (Record.keys ++ ["live"]) = Json.keysSize Record.keys + 8 := by
    decide +kernel
  have hlive := size_bool_le e.2
  have hleases : size (.arr (e.1.leases.map LeaseIdentity.canonicalObject)) =
      size (.arr (e.1.leases.map LeaseIdentity.toJson)) := by
    simp only [Json.size_arr, List.map_map, Function.comp_def, Json.itemSize,
      LeaseIdentity.size_canonicalObject]
  rw [entryJson, Json.size_sorted, Json.size_record rfl, Record.toJson, Json.size_record rfl, hkeys]
  simp only [Record.values, List.map_append, List.map_cons, List.map_nil, List.sum_append,
    List.sum_cons, List.sum_nil, hleases]
  omega

/-- The entries of a snapshot take at most 13 bytes a record more than the records. -/
theorem size_entries_le (j : Journal) :
    size (.arr (j.content.map entryJson)) ≤
      size (.arr (j.records.map Record.toJson)) + 13 * j.records.length := by
  have hperm : ((j.records.insertionSort fun a b => a.profileDigest ≤ b.profileDigest).map
      fun r => Json.itemSize (entryJson (r, j.isLive r))).sum =
      (j.records.map fun r => Json.itemSize (entryJson (r, j.isLive r))).sum :=
    ((List.perm_insertionSort _ j.records).map _).sum_eq
  have hsum : ∀ rs : List Record, (rs.map fun r => Json.itemSize (entryJson (r, j.isLive r))).sum ≤
      (rs.map fun r => Json.itemSize r.toJson).sum + 13 * rs.length := by
    intro rs
    induction rs with
    | nil => exact le_rfl
    | cons r rs ih =>
      have hr : size (entryJson (r, j.isLive r)) ≤ size r.toJson + 13 := size_entryJson_le _
      simp only [List.map_cons, List.sum_cons, List.length_cons, Json.itemSize] at ih ⊢
      omega
  have hrecords := hsum j.records
  simp only [Json.size_arr, content, List.map_map, Function.comp_def]
  rw [hperm]
  omega

/-- **A snapshot takes at most 123 bytes more than a document of three records.** -/
theorem exportText_le (digest : Digest) {j : Journal} (h : j.records.length ≤ 3) :
    Json.byteLength (exportText digest j.content) ≤
      Json.byteLength (documentText j.records) + 123 := by
  have hkeys : Json.keysSize ["schema", "snapshot_sha256", "entries"] = 40 := by decide +kernel
  have hschema : size (.int 1) = 1 := by decide
  have hentries := size_entries_le j
  rw [exportText, ← size, Json.size_sorted, Json.size_record rfl, hkeys, size_document]
  simp only [List.map_cons, List.map_nil, List.sum_cons, List.sum_nil, hschema, size_hex]
  omega

/-- The two limits leave that room. -/
theorem exportText_le_of_fits {digest : Digest} {j : Journal} (hlen : j.records.length ≤ 3)
    (hfit : Json.byteLength (documentText j.records) ≤ documentLimit) :
    Json.byteLength (exportText digest j.content) ≤ snapshotLimit := by
  have hsnapshot := exportText_le digest hlen
  have hlimits : documentLimit + 123 ≤ snapshotLimit := by decide
  omega

/-! ## Calls whose accesses all succeed -/

/-- A file written by a journal, if there is one. -/
def OwnFile (disk : Option (List Char)) : Prop :=
  ∀ text, disk = some text → ∃ rs, Loadable rs ∧ text = documentText rs

variable {j j' : Journal} {p : Digest} {g : Generation}

theorem Written.ownFile {disk : Option (List Char)} (h : Written rs disk) (hl : Loadable rs) :
    OwnFile disk := fun _ htext =>
  ⟨rs, hl, Option.some.inj (htext.symm.trans h.2)⟩

theorem Change.ownFile (hc : Change j j') (hw : j.Wf) (ho : OwnFile j.disk) : OwnFile j'.disk := by
  have hl := (hc.wf hw).loadable
  cases hc with
  | load _ _ => exact ho
  | flush _ hd => exact hd.ownFile hl
  | enter _ _ hd => exact hd.ownFile hl
  | tighten _ _ _ _ hd =>
    rcases hd with hd | ⟨hd, _⟩
    · exact hd.ownFile hl
    · exact hd ▸ ho
  | mark _ => exact ho
  | settle _ _ hd =>
    rcases hd with hd | hd
    · exact hd.ownFile hl
    · exact hd ▸ ho

theorem Changes.ownFile (hc : Changes j j') (hw : j.Wf) (ho : OwnFile j.disk) :
    OwnFile j'.disk := by
  induction hc with
  | refl => exact ho
  | tail hcs hc ih => exact hc.ownFile (Changes.wf hcs hw) ih

/-- If a call changed the records, the file has them. -/
def Synced (j j' : Journal) : Prop :=
  j'.records = j.records ∨ j'.disk = some (documentText j'.records)

theorem writeLocked_true (h : Loadable j.records) :
    j.writeLocked true = some { j with disk := some (documentText j.records) } := by
  rw [writeLocked, h.fits]
  rfl

theorem store_true (h : Loadable rs) :
    (j.store true rs).disk = some (documentText (j.store true rs).records) := by
  rw [store, writeLocked_true (j := { j with records := rs }) h]
  rfl

/-- A file of the journal's own is always loaded. -/
theorem loadLocked_own (hw : j.Wf) (ho : OwnFile j.disk) :
    ∃ j₁, j.loadLocked true = some j₁ ∧ j₁.Wf ∧ Synced j j₁ := by
  have hload : ∃ j₁, j.loadLocked true = some j₁ ∧ Synced j j₁ := by
    unfold loadLocked
    split
    · exact ⟨j, rfl, .inl rfl⟩
    rename_i hun
    rw [if_pos rfl]
    split
    · exact ⟨_, rfl, .inl (hw.unloaded (by simpa using hun)).1.symm⟩
    · rename_i text hdisk
      obtain ⟨rs, hl, rfl⟩ := ho text hdisk
      rw [readDocument_documentText hl hl.fits]
      exact ⟨_, rfl, .inr hdisk⟩
  obtain ⟨j₁, h, hs⟩ := hload
  exact ⟨j₁, h, (loadLocked_changes h).1.wf hw, hs⟩

/-- Amending a record to a stricter one keeps a document loadable. -/
theorem loadable_amend {q : Record → Bool} {f : Record → Record} {r : Record} (hl : Loadable rs)
    (hfind : rs.find? q = some r) (hst : Stricter r (f r)) :
    Loadable (amend q f rs) := by
  obtain ⟨l₁, l₂, rfl, ha⟩ := Keyed.amend_split (f := f) hfind
  rw [ha]
  exact loadable_replace hl hst.profile (hst.loadable (hl.record r (by simp)))

/-- An answer that is no error of the storage. -/
def Served {α : Type} (a : Except JournalError α) : Prop :=
  a ≠ .error .storageInvalid ∧ a ≠ .error .storageUnavailable

theorem served_ok (a : α) : Served (.ok a) :=
  ⟨fun h => (by cases h), fun h => (by cases h)⟩

theorem served_error {e : JournalError} (h : e ≠ .storageInvalid) (h' : e ≠ .storageUnavailable) :
    Served (.error e : Except JournalError α) :=
  ⟨fun heq => h (Except.error.inj heq), fun heq => h' (Except.error.inj heq)⟩

theorem refusal_served {catalog : Option Digest} {e : JournalError}
    (h : j.refusal p catalog = some e) : Served (.error e : Except JournalError Generation) := by
  have he : e = .recoveryRequired ∨ e = .bindingInvalid := by
    unfold refusal at h
    split at h
    · exact .inl (Option.some.inj h).symm
    · split at h <;> split_ifs at h <;> simp_all
  rcases he with rfl | rfl <;> exact served_error (by decide) (by decide)

theorem begin_served (hw : j.Wf) (ho : OwnFile j.disk) (p : Digest) (catalog : Option Digest)
    (expires : Option Date) (g : Generation) :
    Served (j.begin p catalog expires (some g) true true).2 ∧
      Synced j (j.begin p catalog expires (some g) true true).1 := by
  obtain ⟨j₁, hload, hw₁, hs⟩ := loadLocked_own hw ho
  rw [begin, hload]
  dsimp only
  cases href : j₁.refusal p catalog with
  | some e => exact ⟨refusal_served href, hs⟩
  | none =>
    dsimp only
    rw [writeLocked_true (j := { j₁ with records := j₁.entered p catalog expires g })
      (loadable_entered hw₁.loadable href expires g)]
    exact ⟨served_ok g, .inr rfl⟩

theorem extendExpiry_served (hw : j.Wf) (p : Digest) (g : Generation) (expires : Date) :
    Served (j.extendExpiry p g expires true).2 ∧ Synced j (j.extendExpiry p g expires true).1 := by
  unfold extendExpiry
  split
  · exact ⟨served_ok _, .inl rfl⟩
  cases hfind : j.records.find? (owned p g) with
  | none => exact ⟨served_error (by decide) (by decide), .inl rfl⟩
  | some r =>
    dsimp only
    split
    · exact ⟨served_ok _, .inl rfl⟩
    rename_i hafter
    rw [writeLocked_true (j := { j with records := amend (owned p g) (withExpiry expires) j.records })
      (loadable_amend hw.loadable hfind (expiry_stricter (by simpa using hafter)))]
    exact ⟨served_ok _, .inr rfl⟩

theorem retainRenewal_served (hw : j.Wf) (p : Digest) (g : Generation)
    (previous next : LeaseIdentity) (currentIDs : List (Hex 32)) (now : Sample) :
    Served (j.retainRenewal p g previous next currentIDs now true).2 ∧
      Synced j (j.retainRenewal p g previous next currentIDs now true).1 := by
  have hrefused : Served (.error .renewalRecoveryRequired : Except JournalError Unit) ∧
      Synced j j := ⟨served_error (by decide) (by decide), .inl rfl⟩
  unfold retainRenewal
  split
  · exact hrefused
  cases hfind : j.records.find? (owned p g) with
  | none => exact hrefused
  | some r =>
    dsimp only
    split
    · exact hrefused
    cases hm : (keepLease previous (keptLeases now currentIDs previous next r)).bind
        (keepLease next) with
    | none => exact hrefused
    | some m =>
      dsimp only
      split
      · exact hrefused
      rename_i hsize
      obtain ⟨m₁, h₁, h₂⟩ := Option.bind_eq_some_iff.mp hm
      have hid := ((byId_keptLeases now currentIDs previous next r).insert previous).insert next
      rw [← keepLease_spec h₁, ← keepLease_spec h₂] at hid
      rw [writeLocked_true (j := { j with records := amend (owned p g) (withLeases m) j.records })
        (loadable_amend hw.loadable hfind (withLeases_stricter hid (not_lt.mp hsize) r))]
      exact ⟨served_ok _, .inr rfl⟩

theorem restrict_synced (hw : j.Wf) (p : Digest) (g : Generation) (reason : Reason) :
    Synced j (j.restrict p g reason true) := by
  unfold restrict
  cases hfind : j.records.find? (owned p g) with
  | none => exact .inl rfl
  | some r =>
    exact .inr (store_true (loadable_amend hw.loadable hfind (restrictRecord_stricter reason r)))

theorem restrictScope_synced (hw : j.Wf) (p : Digest) (g : Generation) (scope : Digest)
    (action : ScopeAction) : Synced j (j.restrictScope p g scope action true) := by
  unfold restrictScope
  cases hfind : j.records.find? (owned p g) with
  | none => exact .inl rfl
  | some r =>
    dsimp only
    split
    · exact .inl rfl
    · rename_i hroom
      exact .inr (store_true (loadable_amend hw.loadable hfind
        (restrictScopeRecord_stricter fun h => by simpa [h] using hroom)))

theorem finish_synced (hw : j.Wf) (p : Digest) (g : Generation) :
    Synced j (j.finish p g true) := by
  unfold finish
  split
  · exact .inl rfl
  dsimp only
  cases hr : lookup p j.records with
  | none => exact .inl rfl
  | some r =>
    exact .inr (store_true (loadable_amend hw.loadable hr (settled_stricter _ r)))

/-- An export whose accesses succeed is answered with a snapshot of what the file now has. -/
theorem snapshotLocked_served (sha256 : List Char → Digest) (hw : j.Wf) (ho : OwnFile j.disk) :
    ∃ j₁, Loadable j₁.records ∧ j₁.disk = some (documentText j₁.records) ∧
      j.snapshotLocked sha256 true true =
        (j₁, .ok (exportText (sha256 (canonicalText j₁.content)) j₁.content,
          sha256 (canonicalText j₁.content))) := by
  obtain ⟨j₁, hload, hw₁, _⟩ := loadLocked_own hw ho
  have hsize : ∀ digest, Json.byteLength (exportText digest j₁.content) ≤ snapshotLimit :=
    fun digest => exportText_le_of_fits hw₁.loadable.length_le hw₁.loadable.capped.documentText_le
  refine ⟨{ j₁ with disk := some (documentText j₁.records) }, hw₁.loadable, rfl, ?_⟩
  rw [snapshotLocked, hload]
  dsimp only
  rw [writeLocked_true hw₁.loadable]
  exact if_pos (hsize _)

theorem acknowledge_served (sha256 : List Char → Digest) (hw : j.Wf) (ho : OwnFile j.disk)
    (snapshotSHA256 : String) :
    Served (j.acknowledge sha256 snapshotSHA256 true true true).2 ∧
      Synced j (j.acknowledge sha256 snapshotSHA256 true true true).1 := by
  unfold acknowledge
  cases Hex.ofString? 64 snapshotSHA256 with
  | none => exact ⟨served_error (by decide) (by decide), .inl rfl⟩
  | some h =>
    obtain ⟨j₁, hl, hdisk, hs⟩ := snapshotLocked_served sha256 hw ho
    rw [hs]
    dsimp only
    split
    · exact ⟨served_ok _, .inr hdisk⟩
    · rw [writeLocked_true (j := { j₁ with records := j₁.records.filter j₁.isLive })
        (loadable_handOver hl)]
      exact ⟨served_ok _, .inr rfl⟩

end Journal

/-! ## Runs -/

namespace Ledger

open Journal (OwnFile Served Synced)

/-- A call none of whose accesses to the file, and to the source of randomness, fails. -/
def Event.served : Event → Bool
  | .begin _ _ _ rand read write => rand.isSome && read && write
  | .extendExpiry _ _ _ write => write
  | .retainRenewal _ _ _ _ _ _ write => write
  | .restrict _ _ _ write => write
  | .restrictScope _ _ _ _ write => write
  | .finish _ _ write => write
  | .readRestrictions read write => read && write
  | .acknowledge _ read write again => read && write && again
  | .crash => false

/-- An answer that is no error of the storage. -/
def Output.Served : Output → Prop
  | .begun a => Journal.Served a
  | .kept a => Journal.Served a
  | .exported a => Journal.Served a
  | .acknowledged a => Journal.Served a
  | .silent => True

variable {sha256 : List Char → Digest} {w : Ledger}

theorem step_served (hw : w.journal.Wf) (ho : OwnFile w.journal.disk) {e : Event}
    (he : e.served = true) :
    (step sha256 w e).2.Served ∧ Synced w.journal (step sha256 w e).1.journal := by
  cases e with
  | begin p catalog expires rand read write =>
    simp only [Event.served, Bool.and_eq_true] at he
    obtain ⟨⟨hrand, rfl⟩, rfl⟩ := he
    obtain ⟨g, rfl⟩ := Option.isSome_iff_exists.mp hrand
    exact Journal.begin_served hw ho p catalog expires g
  | extendExpiry p g expires write =>
    obtain rfl : write = true := he
    exact Journal.extendExpiry_served hw p g expires
  | retainRenewal p g previous next currentIDs now write =>
    obtain rfl : write = true := he
    exact Journal.retainRenewal_served hw p g previous next currentIDs now
  | restrict p g reason write =>
    obtain rfl : write = true := he
    exact ⟨trivial, Journal.restrict_synced hw p g reason⟩
  | restrictScope p g scope action write =>
    obtain rfl : write = true := he
    exact ⟨trivial, Journal.restrictScope_synced hw p g scope action⟩
  | finish p g write =>
    obtain rfl : write = true := he
    exact ⟨trivial, Journal.finish_synced hw p g⟩
  | readRestrictions read write =>
    simp only [Event.served, Bool.and_eq_true] at he
    obtain ⟨rfl, rfl⟩ := he
    obtain ⟨j₁, _, hdisk, hs⟩ := Journal.snapshotLocked_served sha256 hw ho
    simp only [step, hs]
    exact ⟨Journal.served_ok _, .inr hdisk⟩
  | acknowledge snapshotSHA256 read write again =>
    simp only [Event.served, Bool.and_eq_true] at he
    obtain ⟨⟨rfl, rfl⟩, rfl⟩ := he
    have h := Journal.acknowledge_served sha256 hw ho snapshotSHA256
    dsimp only [step]
    split <;> rename_i heq <;> rw [heq] at h <;> exact h
  | crash => cases he

theorem Move.ownFile {j j' : Journal} (h : Move j j') (hw : j.Wf) (ho : OwnFile j.disk) :
    OwnFile j'.disk := by
  cases h with
  | changes hc => exact Journal.Changes.ownFile hc hw ho
  | handOver hc _ hwr =>
    exact hwr.ownFile (Journal.loadable_handOver (Journal.Changes.wf hc hw).loadable)
  | crash => exact ho

theorem ownFile_of_reaches {disk : Option (List Char)} (hd : OwnFile disk)
    (h : (machine sha256).Reaches (fresh disk) w) : OwnFile w.journal.disk := by
  have hboth : w.journal.Wf ∧ OwnFile w.journal.disk := by
    refine h.invariant (P := fun w => w.journal.Wf ∧ OwnFile w.journal.disk)
      (fun a e b o _ hs ha => ?_) ⟨Journal.wf_fresh disk, hd⟩
    have hm := step_move sha256 ha.1 e
    rw [machine_step hs] at hm
    exact ⟨hm.wf ha.1, hm.ownFile ha.1 ha.2⟩
  exact hboth.2

/-- **The journal can always be written and read back.**  A document within its numbers of records,
leases and scopes fits its limit, the snapshot of a document that fits has room for what it adds,
and so, in a run that starts with a file of the journal's own, a call whose accesses succeed is
never answered with an error of the storage and never leaves a change of the records unwritten. -/
theorem journal_fits :
    (∀ rs, Capped rs → Json.byteLength (documentText rs) ≤ documentLimit) ∧
    (∀ (digest : Digest) (j : Journal), j.records.length ≤ 3 →
      Json.byteLength (documentText j.records) ≤ documentLimit →
        Json.byteLength (Journal.exportText digest j.content) ≤ snapshotLimit) ∧
    ∀ (sha256 : List Char → Digest) (disk : Option (List Char)) (w : Ledger),
      OwnFile disk → (machine sha256).Reaches (fresh disk) w →
        (w.journal.writeLocked true).isSome = true ∧
        ∀ e : Event, e.served = true →
          (step sha256 w e).2.Served ∧ Synced w.journal (step sha256 w e).1.journal := by
  refine ⟨fun rs h => h.documentText_le,
    fun digest j hlen hfit => Journal.exportText_le_of_fits hlen hfit,
    fun sha256 disk w hd h => ⟨?_, fun e he => ?_⟩⟩
  · rw [Journal.writeLocked_true (wf_of_reaches h).loadable]
    rfl
  · exact step_served (wf_of_reaches h) (ownFile_of_reaches hd h) he

theorem journal_fits_sample :
    ∃ w, (machine fun _ => sampleProfile).Reaches (fresh none) w ∧ w.journal.records.length = 1 ∧
      Json.byteLength (documentText w.journal.records) ≤ documentLimit ∧
      Json.byteLength (Journal.exportText sampleProfile w.journal.content) ≤ snapshotLimit ∧
      (w.journal.writeLocked true).isSome = true ∧
      (step (fun _ => sampleProfile) w (.readRestrictions true true)).2.Served := by
  have hrun : (((machine fun _ => sampleProfile).run (fresh none) sampleRun).map fun w =>
      w.journal.records.length) = some 1 := by
    decide +kernel
  obtain ⟨w, hw, hlen⟩ := Option.map_eq_some_iff.mp hrun
  have hreach := Machine.reaches_run hw
  have hfit := journal_fits.1 w.journal.records (wf_of_reaches hreach).loadable.capped
  obtain ⟨hwrite, hserved⟩ := journal_fits.2.2 (fun _ => sampleProfile) none w
    (fun _ h => (by cases h)) hreach
  exact ⟨w, hreach, hlen, hfit,
    journal_fits.2.1 sampleProfile w.journal (by rw [hlen]; decide) hfit, hwrite,
    (hserved (.readRestrictions true true) rfl).1⟩

end Ledger

end PokrovCore.Daemon
