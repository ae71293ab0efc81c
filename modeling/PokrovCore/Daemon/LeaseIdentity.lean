import PokrovCore.Foundations.Calendar
import PokrovCore.Foundations.Hex
import PokrovCore.Foundations.JsonObject

/-!
# Daemon/LeaseIdentity — the 23-field projection of a lease grant

Core never keeps a grant, only this non-secret projection of it.  Every field has the type its check
leaves it with — a digest, an identifier, a word of a fixed vocabulary, a revision, a date — and the
bounds of the three dates are a field, so an identity is one that has passed all its checks.
`parse` reads one back from either encoding: the declaration order of the journal (`toJson`) and the
sorted keys of a canonical payload (`canonicalObject`).
-/

namespace PokrovCore.Daemon

/-! ## Vocabularies -/

/-- A type whose values are spelled by fixed words. -/
class Vocabulary (α : Type) where
  text : α → String
  read : String → Option α
  read_text : ∀ a, read (text a) = some a

/-- The value of a word, looked up among the values there are. -/
def readWord {α : Type} (text : α → String) (all : List α) (s : String) : Option α :=
  all.find? fun a => text a == s

inductive Platform | android | windows
  deriving DecidableEq, Repr

inductive Audience | lab | production
  deriving DecidableEq, Repr

inductive RouteMode | selective | smartSafe
  deriving DecidableEq, Repr

inductive Family | ipv4 | ipv6
  deriving DecidableEq, Repr

inductive Origin | current | brain | ru | synthetic
  deriving DecidableEq, Repr

inductive Feature | webRequest | login | streaming | websocket | store | gameplay | cloudGaming
  deriving DecidableEq, Repr

def Platform.text : Platform → String
  | .android => "android" | .windows => "windows"

def Audience.text : Audience → String
  | .lab => "lab" | .production => "production"

def RouteMode.text : RouteMode → String
  | .selective => "selective" | .smartSafe => "smart_safe"

def Family.text : Family → String
  | .ipv4 => "ipv4" | .ipv6 => "ipv6"

def Origin.text : Origin → String
  | .current => "current-origin" | .brain => "brain-origin" | .ru => "RU-origin"
  | .synthetic => "synthetic"

def Feature.text : Feature → String
  | .webRequest => "web_request" | .login => "login" | .streaming => "streaming"
  | .websocket => "websocket" | .store => "store" | .gameplay => "gameplay"
  | .cloudGaming => "cloud_gaming"

instance : Vocabulary Platform where
  text := Platform.text
  read := readWord Platform.text [.android, .windows]
  read_text a := by cases a <;> decide

instance : Vocabulary Audience where
  text := Audience.text
  read := readWord Audience.text [.lab, .production]
  read_text a := by cases a <;> decide

instance : Vocabulary RouteMode where
  text := RouteMode.text
  read := readWord RouteMode.text [.selective, .smartSafe]
  read_text a := by cases a <;> decide

instance : Vocabulary Family where
  text := Family.text
  read := readWord Family.text [.ipv4, .ipv6]
  read_text a := by cases a <;> decide

instance : Vocabulary Origin where
  text := Origin.text
  read := readWord Origin.text [.current, .brain, .ru, .synthetic]
  read_text a := by cases a <;> decide

instance : Vocabulary Feature where
  text := Feature.text
  read := readWord Feature.text
    [.webRequest, .login, .streaming, .websocket, .store, .gameplay, .cloudGaming]
  read_text a := by cases a <;> decide

/-! ## Identifiers, revisions, dates -/

/-- A character of an identifier after its first. -/
def isIdChar (c : Char) : Bool :=
  decide ('a' ≤ c ∧ c ≤ 'z') || decide ('0' ≤ c ∧ c ≤ '9') || c == '.' || c == '_' || c == '-'

/-- `^[a-z0-9][a-z0-9._-]{0,63}$`. -/
def routingCatalogServiceID (text : String) : Bool :=
  match text.toList with
  | [] => false
  | c :: r => (decide ('a' ≤ c ∧ c ≤ 'z') || decide ('0' ≤ c ∧ c ≤ '9')) && r.all isIdChar &&
      decide (r.length ≤ 63)

/-- An identifier of the catalog. -/
structure ServiceID where
  text : String
  ok : routingCatalogServiceID text = true
  deriving DecidableEq, Repr

/-- Check an identifier. -/
def ServiceID.ofString? (text : String) : Option ServiceID :=
  if h : routingCatalogServiceID text = true then some ⟨text, h⟩ else none

@[simp] theorem ServiceID.ofString?_text (x : ServiceID) : ofString? x.text = some x := by
  rw [ofString?, dif_pos x.ok]

/-- A revision number: positive, and exact as a double. -/
structure Revision where
  value : ℕ
  pos : 1 ≤ value
  le : value ≤ 9007199254740991
  deriving DecidableEq, Repr

/-- Check a revision. -/
def Revision.ofInt? (n : ℤ) : Option Revision :=
  if h : 1 ≤ n ∧ n ≤ 9007199254740991 then some ⟨n.toNat, by omega, by omega⟩ else none

@[simp] theorem Revision.ofInt?_value (x : Revision) : ofInt? (x.value : ℤ) = some x := by
  have hpos := x.pos
  have hle := x.le
  rw [ofInt?, dif_pos (by omega)]
  rfl

/-- The checks on the three dates of a lease: from year 1 on, in order, at most ten minutes of
admission and an hour of activity. -/
def leaseBounds (issued newUntil activeUntil : Date) : Bool :=
  decide (Date.yearOne ≤ issued.sec) && issued.toTime.before newUntil.toTime &&
    !activeUntil.toTime.before newUntil.toTime &&
    decide (newUntil.toTime.sub issued.toTime ≤ 10 * Time.minute) &&
    decide (activeUntil.toTime.sub issued.toTime ≤ Time.hour)

theorem leaseBounds_spec {issued newUntil activeUntil : Date}
    (h : leaseBounds issued newUntil activeUntil = true) :
    Date.yearOne ≤ issued.sec ∧ issued < newUntil ∧ newUntil ≤ activeUntil := by
  simp only [leaseBounds, Bool.and_eq_true, Bool.not_eq_true', Date.toTime_before,
    decide_eq_true_eq, decide_eq_false_iff_not] at h
  exact ⟨h.1.1.1.1, h.1.1.1.2, not_lt.mp h.1.1.2⟩

/-! ## Reading and writing one value -/

def readHex (n : ℕ) (j : Json) : Option (Hex n) := j.str?.bind (Hex.ofString? n)
def readVocabulary {α : Type} [Vocabulary α] (j : Json) : Option α := j.str?.bind Vocabulary.read
def readServiceID (j : Json) : Option ServiceID := j.str?.bind ServiceID.ofString?
def readRevision (j : Json) : Option Revision := j.int?.bind Revision.ofInt?

/-- A date, as the control plane spells it. -/
def smartAccessControlTime (value : String) : Option Date := Date.parse value

def readDate (j : Json) : Option Date := j.str?.bind smartAccessControlTime

@[simp] theorem readHex_text {n : ℕ} (x : Hex n) : readHex n (.str x.text) = some x := by
  simp [readHex]

@[simp] theorem readVocabulary_text {α : Type} [Vocabulary α] (a : α) :
    readVocabulary (.str (Vocabulary.text a)) = some a :=
  Vocabulary.read_text a

@[simp] theorem readServiceID_text (x : ServiceID) : readServiceID (.str x.text) = some x := by
  simp [readServiceID]

@[simp] theorem readRevision_value (x : Revision) : readRevision (Json.int x.value) = some x := by
  have hle := x.le
  rw [readRevision, Json.int?_int (by omega)]
  exact x.ofInt?_value

@[simp] theorem readDate_format (d : Date) : readDate (.str d.format) = some d :=
  Date.parse_format d

/-! ## The identity -/

/-- **The identity of a lease.** -/
structure LeaseIdentity where
  leaseID : Hex 32
  platform : Platform
  audience : Audience
  serviceID : ServiceID
  providerID : ServiceID
  permissionID : ServiceID
  capabilityID : ServiceID
  providerPolicyRevision : Revision
  providerSecurityRevision : Revision
  providerPolicySHA256 : Hex 64
  issuedAt : Date
  newFlowsUntil : Date
  activeFlowsUntil : Date
  profileSHA256 : Hex 64
  routeMode : RouteMode
  runtimeScopeSHA256 : Hex 64
  origin : Origin
  family : Family
  feature : Feature
  providerRevision : Revision
  permissionRevision : Revision
  catalogRevision : Revision
  catalogSecurityRevision : Revision
  bounds : leaseBounds issuedAt newFlowsUntil activeFlowsUntil = true
  deriving DecidableEq, Repr

namespace LeaseIdentity

/-- The keys of an identity, in the order of its declaration. -/
def keys : List String :=
  ["lease_id", "platform", "audience", "service_id", "provider_id", "permission_id",
    "capability_id", "provider_policy_revision", "provider_security_revision",
    "provider_policy_sha256", "issued_at", "new_flows_until", "active_flows_until",
    "profile_sha256", "route_mode", "runtime_scope_sha256", "origin", "family", "feature",
    "provider_revision", "permission_revision", "catalog_revision", "catalog_security_revision"]

/-- The values of those keys. -/
def values (l : LeaseIdentity) : List Json :=
  [.str l.leaseID.text, .str (Vocabulary.text l.platform), .str (Vocabulary.text l.audience),
    .str l.serviceID.text, .str l.providerID.text, .str l.permissionID.text,
    .str l.capabilityID.text, .int l.providerPolicyRevision.value,
    .int l.providerSecurityRevision.value, .str l.providerPolicySHA256.text,
    .str l.issuedAt.format, .str l.newFlowsUntil.format, .str l.activeFlowsUntil.format,
    .str l.profileSHA256.text, .str (Vocabulary.text l.routeMode),
    .str l.runtimeScopeSHA256.text, .str (Vocabulary.text l.origin),
    .str (Vocabulary.text l.family), .str (Vocabulary.text l.feature),
    .int l.providerRevision.value, .int l.permissionRevision.value, .int l.catalogRevision.value,
    .int l.catalogSecurityRevision.value]

/-- Check the values of those keys. -/
def ofValues : List Json → Option LeaseIdentity
  | [leaseID, platform, audience, serviceID, providerID, permissionID, capabilityID,
      providerPolicyRevision, providerSecurityRevision, providerPolicySHA256, issuedAt,
      newFlowsUntil, activeFlowsUntil, profileSHA256, routeMode, runtimeScopeSHA256, origin, family,
      feature, providerRevision, permissionRevision, catalogRevision,
      catalogSecurityRevision] => do
    let leaseID ← readHex 32 leaseID
    let platform ← readVocabulary platform
    let audience ← readVocabulary audience
    let serviceID ← readServiceID serviceID
    let providerID ← readServiceID providerID
    let permissionID ← readServiceID permissionID
    let capabilityID ← readServiceID capabilityID
    let providerPolicyRevision ← readRevision providerPolicyRevision
    let providerSecurityRevision ← readRevision providerSecurityRevision
    let providerPolicySHA256 ← readHex 64 providerPolicySHA256
    let issuedAt ← readDate issuedAt
    let newFlowsUntil ← readDate newFlowsUntil
    let activeFlowsUntil ← readDate activeFlowsUntil
    let profileSHA256 ← readHex 64 profileSHA256
    let routeMode ← readVocabulary routeMode
    let runtimeScopeSHA256 ← readHex 64 runtimeScopeSHA256
    let origin ← readVocabulary origin
    let family ← readVocabulary family
    let feature ← readVocabulary feature
    let providerRevision ← readRevision providerRevision
    let permissionRevision ← readRevision permissionRevision
    let catalogRevision ← readRevision catalogRevision
    let catalogSecurityRevision ← readRevision catalogSecurityRevision
    if bounds : leaseBounds issuedAt newFlowsUntil activeFlowsUntil = true then
      some
        { leaseID, platform, audience, serviceID, providerID, permissionID, capabilityID,
          providerPolicyRevision, providerSecurityRevision, providerPolicySHA256, issuedAt,
          newFlowsUntil, activeFlowsUntil, profileSHA256, routeMode, runtimeScopeSHA256, origin,
          family, feature, providerRevision, permissionRevision, catalogRevision,
          catalogSecurityRevision, bounds }
    else none
  | _ => none

/-- **Reading an identity**: exactly its keys, every value within its check. -/
def parse (j : Json) : Option LeaseIdentity := (Json.object? keys j).bind ofValues

/-- The identity as the journal writes it. -/
def toJson (l : LeaseIdentity) : Json := Json.record keys l.values

/-- The identity with its keys sorted, as every canonical encoding has it. -/
def canonicalObject (l : LeaseIdentity) : Json := Json.sorted keys l.values

theorem nodup_keys : keys.Nodup := by decide

variable (l : LeaseIdentity)

theorem ofValues_values : ofValues l.values = some l := by
  simp only [values, ofValues, readHex_text, readVocabulary_text, readServiceID_text,
    readRevision_value, readDate_format, Option.bind_eq_bind, Option.bind_some]
  rw [dif_pos l.bounds]

theorem parse_toJson : parse l.toJson = some l := by
  rw [parse, toJson, Json.object?_record nodup_keys rfl]
  exact l.ofValues_values

theorem parse_canonicalObject : parse l.canonicalObject = some l := by
  rw [parse, canonicalObject, Json.object?_sorted nodup_keys rfl]
  exact l.ofValues_values

theorem wellFormed_values : ∀ j ∈ l.values, Json.wellFormed j = true := by
  simp only [values, List.forall_mem_cons, List.not_mem_nil, false_imp_iff, implies_true, and_true,
    Json.wellFormed_int]
  simp [Json.wellFormed]

/-- **`l` succeeds `previous`**: the same scope, and no revision goes back. -/
def follows (l previous : LeaseIdentity) : Bool :=
  decide (l.platform = previous.platform) && decide (l.audience = previous.audience) &&
    decide (l.serviceID = previous.serviceID) && decide (l.providerID = previous.providerID) &&
    decide (l.permissionID = previous.permissionID) &&
    decide (l.capabilityID = previous.capabilityID) &&
    decide (l.profileSHA256 = previous.profileSHA256) &&
    decide (l.routeMode = previous.routeMode) &&
    decide (l.runtimeScopeSHA256 = previous.runtimeScopeSHA256) &&
    decide (l.origin = previous.origin) && decide (l.family = previous.family) &&
    decide (l.feature = previous.feature) &&
    decide (previous.providerRevision.value ≤ l.providerRevision.value) &&
    decide (previous.permissionRevision.value ≤ l.permissionRevision.value) &&
    decide (previous.providerPolicyRevision.value ≤ l.providerPolicyRevision.value) &&
    decide (previous.providerSecurityRevision.value ≤ l.providerSecurityRevision.value) &&
    decide (previous.catalogRevision.value ≤ l.catalogRevision.value) &&
    decide (previous.catalogSecurityRevision.value ≤ l.catalogSecurityRevision.value)

end LeaseIdentity

end PokrovCore.Daemon
