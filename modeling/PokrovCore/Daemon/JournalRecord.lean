import PokrovCore.Daemon.LeaseIdentity
import PokrovCore.Foundations.SortedMap

/-!
# Daemon/JournalRecord — the records of the restriction journal and their file

A record says what is known about one profile: whether a worker has been left unsettled (`pending`),
the strictest actions it applied, and until when any of that matters.  `readDocument` is the strict
loader: exact key sets, typed fields, and the cross-field checks gathered in `Record.Loadable` and
`Loadable`.  The main result is `readDocument_documentText`: a document that passes them and fits
its size limit is read back as it was.
-/

namespace PokrovCore.Daemon

abbrev Digest := Hex 64
abbrev Generation := Hex 32

/-! ## Actions -/

/-- What was applied to all leases of a profile, from nothing to the strictest. -/
inductive PolicyAction | none | drain | terminate
  deriving DecidableEq, Repr

/-- What was applied to one runtime scope. -/
inductive ScopeAction | drain | terminate
  deriving DecidableEq, Repr

def PolicyAction.text : PolicyAction → String
  | .none => "none" | .drain => "drain" | .terminate => "terminate"

def ScopeAction.text : ScopeAction → String
  | .drain => "drain" | .terminate => "terminate"

instance : Vocabulary PolicyAction where
  text := PolicyAction.text
  read := readWord PolicyAction.text [.none, .drain, .terminate]
  read_text a := by cases a <;> decide

instance : Vocabulary ScopeAction where
  text := ScopeAction.text
  read := readWord ScopeAction.text [.drain, .terminate]
  read_text a := by cases a <;> decide

def PolicyAction.rank : PolicyAction → ℕ
  | .none => 0 | .drain => 1 | .terminate => 2

def ScopeAction.rank : ScopeAction → ℕ
  | .drain => 1 | .terminate => 2

/-- Actions are ordered by strictness. -/
instance : LinearOrder PolicyAction :=
  LinearOrder.lift' PolicyAction.rank fun a b => by cases a <;> cases b <;> decide

instance : LinearOrder ScopeAction :=
  LinearOrder.lift' ScopeAction.rank fun a b => by cases a <;> cases b <;> decide

theorem PolicyAction.none_le (a : PolicyAction) : PolicyAction.none ≤ a := by
  cases a <;> decide

theorem ScopeAction.le_terminate (a : ScopeAction) : a ≤ ScopeAction.terminate := by
  cases a <;> decide

/-! ## Records -/

/-- **One record.**  An absent catalog digest or expiry is written as the empty text. -/
structure Record where
  profileDigest : Digest
  catalogSHA256 : Option Digest
  generation : Generation
  pending : Bool
  policyAction : PolicyAction
  catalogWithdrawn : Bool
  expiresAt : Option Date
  leases : List LeaseIdentity
  scopeActions : SortedMap Digest ScopeAction
  deriving DecidableEq

/-- The time an expiry stands for; an absent one is the zero time. -/
def expiryTime (e : Option Date) : Time := e.elim Time.zero Date.toTime

/-- Has any restriction been recorded? -/
def Record.restricted (r : Record) : Bool :=
  decide (r.policyAction ≠ .none) || r.catalogWithdrawn || decide (r.scopeActions.size ≠ 0)

/-- **The cross-field checks on a record.** -/
structure Record.Loadable (r : Record) : Prop where
  withdrawn : r.catalogWithdrawn = true → r.policyAction = .terminate
  leases_le : r.leases.length ≤ 256
  leases_nodup : (r.leases.map LeaseIdentity.leaseID).Nodup
  covered : ∀ l ∈ r.leases, ∃ e ∈ r.expiresAt, l.activeFlowsUntil ≤ e
  scopes_le : r.scopeActions.size ≤ 256

/-- …as the loader decides them. -/
def Record.check (r : Record) : Bool :=
  !(r.catalogWithdrawn && decide (r.policyAction ≠ .terminate)) &&
    decide (r.leases.length ≤ 256) && decide (r.leases.map LeaseIdentity.leaseID).Nodup &&
    r.leases.all (fun l => r.expiresAt.any fun e => !l.activeFlowsUntil.toTime.after e.toTime) &&
    decide (r.scopeActions.size ≤ 256)

/-- **The checks on a document**: at most three records, no profile twice. -/
structure Loadable (rs : List Record) : Prop where
  length_le : rs.length ≤ 3
  nodup : (rs.map Record.profileDigest).Nodup
  record : ∀ r ∈ rs, r.Loadable

theorem Record.check_iff (r : Record) : r.check = true ↔ r.Loadable := by
  have hexp : ∀ l : LeaseIdentity,
      (r.expiresAt.any fun e => !l.activeFlowsUntil.toTime.after e.toTime) = true ↔
        ∃ e ∈ r.expiresAt, l.activeFlowsUntil ≤ e := by
    intro l
    cases r.expiresAt <;> simp [Time.after, Date.toTime_before]
  simp only [Record.check, Bool.and_eq_true, Bool.not_eq_true', decide_eq_true_eq, List.all_eq_true,
    hexp, Bool.and_eq_false_iff, decide_eq_false_iff_not, not_not]
  constructor
  · rintro ⟨⟨⟨⟨hw, hl⟩, hn⟩, hc⟩, hs⟩
    exact ⟨fun h => hw.resolve_left (by simp [h]), hl, hn, hc, hs⟩
  · intro h
    refine ⟨⟨⟨⟨?_, h.leases_le⟩, h.leases_nodup⟩, h.covered⟩, h.scopes_le⟩
    by_cases hw : r.catalogWithdrawn = true
    · exact .inr (h.withdrawn hw)
    · exact .inl (by simpa using hw)

/-! ## The fields of a record, read and written -/

/-- A text that may be absent. -/
def optionalText {α : Type} (text : α → String) (a : Option α) : Json := .str (a.elim "" text)

/-- Read a text that may be absent. -/
def readOptional {α : Type} (read : String → Option α) (j : Json) : Option (Option α) :=
  j.str?.bind fun s => if s = "" then some none else (read s).map some

theorem readOptional_text {α : Type} {text : α → String} {read : String → Option α}
    (hread : ∀ a, read (text a) = some a) (hne : read "" = none) (a : Option α) :
    readOptional read (optionalText text a) = some a := by
  cases a with
  | none => rfl
  | some a =>
    have hs : text a ≠ "" := fun h => by
      have hcontra := hread a
      rw [h, hne] at hcontra
      cases hcontra
    simp [readOptional, optionalText, hs, hread]

/-- A map of scopes, its keys in order. -/
def scopesToJson (m : SortedMap Digest ScopeAction) : Json :=
  .obj (m.entries.map fun e => (e.1.text, .str (Vocabulary.text e.2)))

/-- One entry of a map of scopes. -/
def readScope (e : String × Json) : Option (Digest × ScopeAction) := do
  let scope ← Hex.ofString? 64 e.1
  let action ← readVocabulary e.2
  return (scope, action)

/-- Read a map of scopes; a key written twice is refused. -/
def readScopes : Json → Option (SortedMap Digest ScopeAction)
  | .obj members =>
    if (members.map Prod.fst).Nodup then (members.mapM readScope).map SortedMap.ofList else none
  | _ => none

/-- Reading each item of a list that was written item by item. -/
theorem mapM_read {α β : Type} {w : α → β} {read : β → Option α}
    (h : ∀ a, read (w a) = some a) (l : List α) : (l.map w).mapM read = some l := by
  induction l with
  | nil => rfl
  | cons a l ih => simp [h, ih]

theorem mapM_eq_some_iff {α β : Type} {read : α → Option β} : ∀ {l : List α} {l' : List β},
    l.mapM read = some l' ↔ List.Forall₂ (fun a b => read a = some b) l l'
  | [], l' => by
    rw [List.mapM_nil, List.forall₂_nil_left_iff]
    exact ⟨fun h => (Option.some.inj h).symm, fun h => h ▸ rfl⟩
  | a :: l, l' => by
    rw [List.mapM_cons, List.forall₂_cons_left_iff]
    simp only [Option.bind_eq_bind, Option.bind_eq_some_iff, mapM_eq_some_iff]
    refine ⟨?_, ?_⟩
    · rintro ⟨b, hb, r, hr, h⟩
      exact ⟨b, r, hb, hr, (Option.some.inj h).symm⟩
    · rintro ⟨b, r, hb, hr, rfl⟩
      exact ⟨b, hb, r, hr, rfl⟩

/-- What is read from a list was read from one of its items. -/
theorem exists_of_mem_mapM {α β : Type} {read : α → Option β} {l : List α} {l' : List β}
    (h : l.mapM read = some l') : ∀ b ∈ l', ∃ a ∈ l, read a = some b := by
  have hread := mapM_eq_some_iff.mp h
  intro b hb
  obtain ⟨i, hi, rfl⟩ := List.mem_iff_getElem.mp hb
  have hil : i < l.length := hread.length_eq ▸ hi
  exact ⟨l[i], List.getElem_mem hil, hread.get hil hi⟩

theorem readScopes_toJson (m : SortedMap Digest ScopeAction) :
    readScopes (scopesToJson m) = some m := by
  have hnd : ((m.entries.map fun e => (e.1.text, Json.str (Vocabulary.text e.2))).map
      Prod.fst).Nodup := by
    rw [List.map_map]
    exact (m.sorted.imp fun h => (ne_of_lt h)).map _ fun a b hab h =>
      hab (Hex.text_injective h)
  have hread : ∀ e : Digest × ScopeAction,
      readScope (e.1.text, .str (Vocabulary.text e.2)) = some e := by
    rintro ⟨k, a⟩
    simp [readScope]
  rw [scopesToJson, readScopes, if_pos hnd,
    mapM_read (w := fun e : Digest × ScopeAction => (e.1.text, Json.str (Vocabulary.text e.2)))
      hread, Option.map_some, SortedMap.ofList_entries]

namespace Record

/-- The keys of a record, in the order of its declaration. -/
def keys : List String :=
  ["profile_digest", "catalog_sha256", "generation", "pending", "policy_action",
    "catalog_withdrawn", "expires_at", "leases", "scope_actions"]

/-- The values of those keys, under an encoding of the leases. -/
def values (lease : LeaseIdentity → Json) (r : Record) : List Json :=
  [.str r.profileDigest.text, optionalText Hex.text r.catalogSHA256, .str r.generation.text,
    .bool r.pending, .str (Vocabulary.text r.policyAction), .bool r.catalogWithdrawn,
    optionalText Date.format r.expiresAt, .arr (r.leases.map lease), scopesToJson r.scopeActions]

/-- Read the values of those keys, field by field. -/
def ofValues : List Json → Option Record
  | [profileDigest, catalogSHA256, generation, pending, policyAction, catalogWithdrawn, expiresAt,
      leases, scopeActions] => do
    let profileDigest ← readHex 64 profileDigest
    let catalogSHA256 ← readOptional (Hex.ofString? 64) catalogSHA256
    let generation ← readHex 32 generation
    let pending ← pending.bool?
    let policyAction ← readVocabulary policyAction
    let catalogWithdrawn ← catalogWithdrawn.bool?
    let expiresAt ← readOptional smartAccessControlTime expiresAt
    let leases ← leases.arr?.bind (List.mapM LeaseIdentity.parse)
    let scopeActions ← readScopes scopeActions
    return { profileDigest, catalogSHA256, generation, pending, policyAction, catalogWithdrawn,
             expiresAt, leases, scopeActions }
  | _ => none

theorem nodup_keys : keys.Nodup := by decide

variable {lease : LeaseIdentity → Json}

/-- The values read back, whichever encoding the leases have. -/
theorem ofValues_values (hlease : ∀ l, LeaseIdentity.parse (lease l) = some l) (r : Record) :
    ofValues (r.values lease) = some r := by
  have hcat : readOptional (Hex.ofString? 64) (optionalText Hex.text r.catalogSHA256) =
      some r.catalogSHA256 := readOptional_text Hex.ofString?_text (by decide) _
  have hexp : readOptional smartAccessControlTime (optionalText Date.format r.expiresAt) =
      some r.expiresAt := readOptional_text Date.parse_format (by decide +kernel) _
  simp only [values, ofValues, readHex_text, readVocabulary_text, hcat, hexp, Json.bool?_bool,
    Json.arr?_arr, mapM_read hlease, readScopes_toJson, Option.bind_eq_bind, Option.bind_some]
  rfl

theorem wellFormed_values (hlease : ∀ l, Json.wellFormed (lease l) = true) (r : Record) :
    ∀ j ∈ r.values lease, Json.wellFormed j = true := by
  have hleases : Json.wellFormed (.arr (r.leases.map lease)) = true :=
    Json.wellFormed_arr fun j hj => by
      obtain ⟨l, _, rfl⟩ := List.mem_map.mp hj
      exact hlease l
  have hscopes : Json.wellFormed (scopesToJson r.scopeActions) = true :=
    Json.wellFormed_obj fun e he => by
      obtain ⟨x, _, rfl⟩ := List.mem_map.mp he
      rfl
  simp only [values, List.forall_mem_cons, List.not_mem_nil, false_imp_iff, implies_true, and_true,
    hleases, hscopes, optionalText]
  simp [Json.wellFormed]

/-- A record as the journal writes it. -/
def toJson (r : Record) : Json := Json.record keys (r.values LeaseIdentity.toJson)

/-- **Reading a record**: its fields, then its cross-field checks. -/
def parse (j : Json) : Option Record := do
  let r ← (Json.object? keys j).bind ofValues
  if r.check then some r else none

theorem parse_toJson {r : Record} (h : r.Loadable) : parse r.toJson = some r := by
  rw [parse, toJson, Json.object?_record nodup_keys rfl, Option.bind_some,
    ofValues_values LeaseIdentity.parse_toJson]
  exact if_pos ((check_iff r).mpr h)

theorem loadable_of_parse {j : Json} {r : Record} (h : parse j = some r) : r.Loadable := by
  obtain ⟨r', _, hr⟩ := Option.bind_eq_some_iff.mp h
  obtain ⟨hc, hr⟩ := Option.ite_none_right_eq_some.mp hr
  obtain rfl := Option.some.inj hr
  exact (check_iff r').mp hc

theorem wellFormed_toJson (r : Record) : Json.wellFormed r.toJson = true :=
  Json.wellFormed_record (r.wellFormed_values fun l => Json.wellFormed_record l.wellFormed_values)

end Record

/-! ## The document -/

/-- The limit of an exported snapshot, and the smaller one of the document it is made from. -/
def snapshotLimit : ℕ := 1024 * 1024
def documentLimit : ℕ := snapshotLimit - 1024

def documentKeys : List String := ["version", "records"]

/-- The document as a value. -/
def documentJson (rs : List Record) : Json :=
  Json.record documentKeys [.int 1, .arr (rs.map Record.toJson)]

/-- **The text of a document.** -/
def documentText (rs : List Record) : List Char := (documentJson rs).render

/-- Would the writer write this document? -/
def fits (rs : List Record) : Bool := decide (Json.byteLength (documentText rs) ≤ documentLimit)

/-- The records of a parsed document. -/
def ofDocument : List Json → Option (List Record)
  | [version, records] =>
    if version.int? = some 1 then do
      let items ← records.arr?
      let rs ← items.mapM Record.parse
      if rs.length ≤ 3 ∧ (rs.map Record.profileDigest).Nodup then some rs else none
    else none
  | _ => none

/-- **The strict loader.** -/
def readDocument (text : List Char) : Option (List Record) :=
  if Json.byteLength text ≤ documentLimit then
    ((Json.parse text).bind (Json.object? documentKeys)).bind ofDocument
  else none

theorem wellFormed_documentJson (rs : List Record) : Json.wellFormed (documentJson rs) = true := by
  refine Json.wellFormed_record ?_
  have hrecords : Json.wellFormed (.arr (rs.map Record.toJson)) = true :=
    Json.wellFormed_arr fun j hj => by
      obtain ⟨r, _, rfl⟩ := List.mem_map.mp hj
      exact r.wellFormed_toJson
  simp only [List.forall_mem_cons, List.not_mem_nil, false_imp_iff, implies_true, and_true]
  exact ⟨Json.wellFormed_int 1, hrecords⟩

variable {rs : List Record}

theorem mapM_parse_toJson (h : ∀ r ∈ rs, r.Loadable) :
    (rs.map Record.toJson).mapM Record.parse = some rs := by
  induction rs with
  | nil => rfl
  | cons r rs ih =>
    have hr := Record.parse_toJson (h r (by simp))
    have hrs := ih fun x hx => h x (by simp [hx])
    simp [hr, hrs]

/-- **Writer and strict loader agree** on every document that passes the checks and fits. -/
theorem readDocument_documentText (h : Loadable rs) (hfits : fits rs = true) :
    readDocument (documentText rs) = some rs := by
  rw [readDocument, if_pos (of_decide_eq_true hfits), documentText,
    Json.parse_render (wellFormed_documentJson rs), Option.bind_some, documentJson,
    Json.object?_record (by decide) rfl, Option.bind_some]
  have hversion : Json.int? (.int 1) = some 1 := by decide
  simp only [ofDocument, hversion, if_pos, Json.arr?_arr, Option.bind_eq_bind, Option.bind_some,
    mapM_parse_toJson h.record]
  exact if_pos ⟨h.length_le, h.nodup⟩

theorem loadable_of_readDocument {text : List Char} (h : readDocument text = some rs) :
    Loadable rs := by
  obtain ⟨_, h⟩ := Option.ite_none_right_eq_some.mp h
  obtain ⟨vs, _, h⟩ := Option.bind_eq_some_iff.mp h
  unfold ofDocument at h
  split at h
  · obtain ⟨_, h⟩ := Option.ite_none_right_eq_some.mp h
    obtain ⟨items, _, h⟩ := Option.bind_eq_some_iff.mp h
    obtain ⟨rs', hm, h⟩ := Option.bind_eq_some_iff.mp h
    obtain ⟨⟨hlen, hnd⟩, h⟩ := Option.ite_none_right_eq_some.mp h
    obtain rfl := Option.some.inj h
    refine ⟨hlen, hnd, fun r hr => ?_⟩
    obtain ⟨j, _, hj⟩ := exists_of_mem_mapM hm r hr
    exact Record.loadable_of_parse hj
  · cases h

end PokrovCore.Daemon
