import PokrovCore.Daemon.JournalRecord
import PokrovCore.Foundations.Keyed

/-!
# Daemon/Journal — the restriction journal and its operations

The journal has three copies of what it knows: the file, the document in memory, and the maps of
live workers and unsettled profiles.  Each operation holds the journal's lock throughout, so it is a
function of the journal; `read` and `write` say whether the file system lets it read or replace the
file.  A replacement is a rename, so a failed one leaves the old file.
-/

namespace PokrovCore.Daemon

/-- The errors of the journal. -/
inductive JournalError
  | storageInvalid | storageUnavailable | recoveryRequired | bindingInvalid | ackInvalid
  | renewalRecoveryRequired
  deriving DecidableEq, Repr

def JournalError.text : JournalError → String
  | .storageInvalid => "smart_access_restriction_storage_invalid"
  | .storageUnavailable => "smart_access_restriction_storage_unavailable"
  | .recoveryRequired => "smart_access_restriction_recovery_required"
  | .bindingInvalid => "smart_access_restriction_binding_invalid"
  | .ackInvalid => "smart_access_restriction_ack_invalid"
  | .renewalRecoveryRequired => "smart_access_renewal_recovery_required"

/-- Why a control decision restricts. -/
inductive Reason | current | issuanceDisabled | accessDenied | providerPolicyDisabled
  | catalogDisabled
  deriving DecidableEq, Repr

def Reason.text : Reason → String
  | .current => "current" | .issuanceDisabled => "issuance_disabled"
  | .accessDenied => "access_denied" | .providerPolicyDisabled => "provider_policy_disabled"
  | .catalogDisabled => "catalog_disabled"

instance : Vocabulary Reason where
  text := Reason.text
  read := readWord Reason.text
    [.current, .issuanceDisabled, .accessDenied, .providerPolicyDisabled, .catalogDisabled]
  read_text a := by cases a <;> decide

/-- The action a reason asks for, over the one already there. -/
def Reason.action (reason : Reason) (a : PolicyAction) : PolicyAction :=
  if reason ≠ .issuanceDisabled then .terminate else if a = .none then .drain else a

/-- The journal: what is in memory, and the text of its file, if there is one. -/
structure Journal where
  loaded : Bool
  records : List Record
  live : Digest → Option Generation
  unsettled : Digest → Bool
  disk : Option (List Char)

namespace Journal

open Keyed (amend)

/-- The journal of a process that has just started. -/
def fresh (disk : Option (List Char)) : Journal :=
  ⟨false, [], fun _ => none, fun _ => false, disk⟩

/-! ## The file -/

/-- Load the document once; a missing file is an empty document. -/
def loadLocked (read : Bool) (j : Journal) : Option Journal :=
  if j.loaded then some j
  else if read then
    match j.disk with
    | none => some { j with records := [], loaded := true }
    | some text => (readDocument text).map fun rs => { j with records := rs, loaded := true }
  else none

/-- Replace the file by the document in memory. -/
def writeLocked (write : Bool) (j : Journal) : Option Journal :=
  if write && fits j.records then some { j with disk := some (documentText j.records) } else none

/-- Put a document in memory and try to write it; what is in memory stays either way. -/
def store (write : Bool) (rs : List Record) (j : Journal) : Journal :=
  (({ j with records := rs }).writeLocked write).getD { j with records := rs }

/-! ## Changing one record -/

/-- Is this the record of a profile? -/
def ofProfile (p : Digest) (r : Record) : Bool := decide (r.profileDigest = p)

/-- The record of a profile. -/
def lookup (p : Digest) (rs : List Record) : Option Record :=
  Keyed.lookup Record.profileDigest p rs

/-- Is this the record a worker owns? -/
def owned (p : Digest) (g : Generation) (r : Record) : Bool :=
  decide (r.profileDigest = p) && decide (r.generation = g)

/-! ## Enrolling a worker -/

/-- The record of a profile not seen before. -/
def newRecord (p : Digest) (catalog : Option Digest) (g : Generation) : Record :=
  { profileDigest := p, catalogSHA256 := catalog, generation := g, pending := false,
    policyAction := .none, catalogWithdrawn := false, expiresAt := none, leases := [],
    scopeActions := SortedMap.empty }

/-- A record taken over by a worker. -/
def enter (catalog : Option Digest) (expires : Option Date) (g : Generation) (r : Record) :
    Record :=
  { r with
    generation := g
    pending := true
    catalogSHA256 := r.catalogSHA256 <|> catalog
    expiresAt :=
      if !(expiryTime expires).isZero && (expiryTime expires).after (expiryTime r.expiresAt) then
        expires
      else r.expiresAt }

/-- Why a worker may not begin. -/
def refusal (p : Digest) (catalog : Option Digest) (j : Journal) : Option JournalError :=
  if j.unsettled p then some .recoveryRequired
  else
    match lookup p j.records with
    | none => if 3 ≤ j.records.length then some .recoveryRequired else none
    | some r =>
      -- state left by an earlier process has to be handed back first
      if r.pending && (j.live p).isNone then some .recoveryRequired
      else if r.restricted && (j.live p).isNone then some .recoveryRequired
      else if r.catalogSHA256.isSome && decide (r.catalogSHA256 ≠ catalog) then some .bindingInvalid
      else none

/-- The document once the worker has its record. -/
def entered (p : Digest) (catalog : Option Digest) (expires : Option Date) (g : Generation)
    (j : Journal) : List Record :=
  match lookup p j.records with
  | none => j.records ++ [enter catalog expires g (newRecord p catalog g)]
  | some _ => amend (ofProfile p) (enter catalog expires g) j.records

/-- **Enroll a worker**: its pending record is on disk before it starts.  `rand` is the random
generation, absent if the source of randomness fails. -/
def begin (p : Digest) (catalog : Option Digest) (expires : Option Date)
    (rand : Option Generation) (read write : Bool) (j : Journal) :
    Journal × Except JournalError Generation :=
  match j.loadLocked read with
  | none => (j, .error .storageInvalid)
  | some j =>
    match j.refusal p catalog with
    | some e => (j, .error e)
    | none =>
      match rand with
      | none => (j, .error .storageUnavailable)
      | some g =>
        match ({ j with records := j.entered p catalog expires g }).writeLocked write with
        | none => (j, .error .storageUnavailable)
        | some j' => ({ j' with live := Function.update j'.live p (some g) }, .ok g)

/-! ## Expiry and leases -/

/-- A record with another expiry. -/
def withExpiry (expires : Date) (r : Record) : Record := { r with expiresAt := some expires }

/-- Extend the expiry of a live worker's record, or leave everything as it is. -/
def extendExpiry (p : Digest) (g : Generation) (expires : Date) (write : Bool) (j : Journal) :
    Journal × Except JournalError Unit :=
  if j.live p ≠ some g then (j, .ok ())
  else
    match j.records.find? (owned p g) with
    | none => (j, .error .recoveryRequired)
    | some r =>
      if !expires.toTime.after (expiryTime r.expiresAt) then (j, .ok ())
      else
        let extended := amend (owned p g) (withExpiry expires) j.records
        match ({ j with records := extended }).writeLocked write with
        | none => (j, .error .storageUnavailable)
        | some j' => (j', .ok ())

/-- The leases of a record still worth keeping: running, current somewhere, or about to be kept. -/
def keptLeases (now : Sample) (currentIDs : List (Hex 32)) (previous next : LeaseIdentity)
    (r : Record) : SortedMap (Hex 32) LeaseIdentity :=
  SortedMap.ofList ((r.leases.filter fun l =>
    (Time.ofSample now).before l.activeFlowsUntil.toTime || currentIDs.contains l.leaseID ||
      decide (l.leaseID = previous.leaseID) || decide (l.leaseID = next.leaseID)).map
    fun l => (l.leaseID, l))

/-- Keep a lease, unless another one goes by its id. -/
def keepLease (l : LeaseIdentity) (m : SortedMap (Hex 32) LeaseIdentity) :
    Option (SortedMap (Hex 32) LeaseIdentity) :=
  match m.get? l.leaseID with
  | some l' => if l' = l then some (m.insert l.leaseID l) else none
  | none => some (m.insert l.leaseID l)

/-- The date the zero time is written as. -/
def zeroDate : Date := ⟨Date.yearOne, by decide⟩

/-- The latest of an expiry and the end of some leases. -/
def laterExpiry (e : Option Date) (leases : List LeaseIdentity) : Option Date :=
  leases.foldl (fun e l => if l.activeFlowsUntil.toTime.after (expiryTime e) then
    some l.activeFlowsUntil else e) e

/-- A record with its leases replaced and its expiry made to cover them. -/
def withLeases (m : SortedMap (Hex 32) LeaseIdentity) (r : Record) : Record :=
  { r with
    leases := m.entries.map Prod.snd
    expiresAt := some ((laterExpiry r.expiresAt (m.entries.map Prod.snd)).getD zeroDate) }

/-- **Retain both generations of a renewal** in one write, before the successor is adopted. -/
def retainRenewal (p : Digest) (g : Generation) (previous next : LeaseIdentity)
    (currentIDs : List (Hex 32)) (now : Sample) (write : Bool) (j : Journal) :
    Journal × Except JournalError Unit :=
  if j.live p ≠ some g ∨ previous.leaseID = next.leaseID ∨ next.follows previous = false then
    (j, .error .renewalRecoveryRequired)
  else
    match j.records.find? (owned p g) with
    | none => (j, .error .renewalRecoveryRequired)
    | some r =>
      if !r.pending || decide (r.policyAction ≠ .none) || r.catalogWithdrawn ||
          (r.scopeActions.get? next.runtimeScopeSHA256).isSome then
        (j, .error .renewalRecoveryRequired)
      else
        match (keepLease previous (keptLeases now currentIDs previous next r)).bind
            (keepLease next) with
        | none => (j, .error .renewalRecoveryRequired)
        | some m =>
          if 256 < m.size then (j, .error .renewalRecoveryRequired)
          else
            let retained := amend (owned p g) (withLeases m) j.records
            match ({ j with records := retained }).writeLocked write with
            | none => (j, .error .storageUnavailable)
            | some j' => (j', .ok ())

/-! ## Restrictions -/

/-- A record restricted for a reason. -/
def restrictRecord (reason : Reason) (r : Record) : Record :=
  { r with
    catalogWithdrawn := r.catalogWithdrawn || decide (reason = .catalogDisabled)
    policyAction := reason.action r.policyAction }

/-- **Record a restriction of the whole profile.**  A failed write keeps the stricter memory. -/
def restrict (p : Digest) (g : Generation) (reason : Reason) (write : Bool) (j : Journal) :
    Journal :=
  match j.records.find? (owned p g) with
  | none => j
  | some _ => j.store write (amend (owned p g) (restrictRecord reason) j.records)

/-- A record restricted in one scope. -/
def restrictScopeRecord (scope : Digest) (action : ScopeAction) (r : Record) : Record :=
  if r.scopeActions.get? scope ≠ some .terminate then
    { r with scopeActions := r.scopeActions.insert scope action }
  else r

/-- **Record a restriction of one scope.**  A record full of other scopes is left as it is, and the
profile stays unsettled. -/
def restrictScope (p : Digest) (g : Generation) (scope : Digest) (action : ScopeAction)
    (write : Bool) (j : Journal) : Journal :=
  match j.records.find? (owned p g) with
  | none => j
  | some r =>
    if (r.scopeActions.get? scope).isNone && decide (256 ≤ r.scopeActions.size) then
      { j with unsettled := Function.update j.unsettled p true }
    else j.store write (amend (owned p g) (restrictScopeRecord scope action) j.records)

/-- A record no longer pending, or still. -/
def settled (pending : Bool) (r : Record) : Record := { r with pending }

/-- **A worker ends**: its record is settled unless the profile is marked. -/
def finish (p : Digest) (g : Generation) (write : Bool) (j : Journal) : Journal :=
  if j.live p ≠ some g then j
  else
    let j := { j with live := Function.update j.live p none }
    match lookup p j.records with
    | none => j
    | some _ => j.store write (amend (ofProfile p) (settled (j.unsettled p)) j.records)

/-! ## Handing records back -/

/-- Is a record's worker live? -/
def isLive (j : Journal) (r : Record) : Bool := decide (j.live r.profileDigest = some r.generation)

/-- **What a snapshot exports**: every record with its liveness, in the order of the profiles. -/
def content (j : Journal) : List (Record × Bool) :=
  (j.records.insertionSort fun a b => a.profileDigest ≤ b.profileDigest).map
    fun r => (r, j.isLive r)

/-- One exported entry. -/
def entryJson (e : Record × Bool) : Json :=
  Json.sorted (Record.keys ++ ["live"]) (e.1.values LeaseIdentity.canonicalObject ++ [.bool e.2])

/-- The canonical text of a content, which the digest is taken of. -/
def canonicalText (c : List (Record × Bool)) : List Char := (Json.arr (c.map entryJson)).render

/-- The exported text. -/
def exportText (digest : Digest) (c : List (Record × Bool)) : List Char :=
  (Json.sorted ["schema", "snapshot_sha256", "entries"]
    [.int 1, .str digest.text, .arr (c.map entryJson)]).render

section Snapshot

variable (sha256 : List Char → Digest)

/-- Export the journal, once its file is known to hold what is exported. -/
def snapshotLocked (read write : Bool) (j : Journal) :
    Journal × Except JournalError (List Char × Digest) :=
  match j.loadLocked read with
  | none => (j, .error .storageInvalid)
  | some j =>
    match j.writeLocked write with
    | none => (j, .error .storageUnavailable)
    | some j =>
      let digest := sha256 (canonicalText j.content)
      let encoded := exportText digest j.content
      if Json.byteLength encoded ≤ snapshotLimit then (j, .ok (encoded, digest))
      else (j, .error .storageInvalid)

/-- The journal without the records whose worker is gone, and without their marks. -/
def handOver (j : Journal) : Journal :=
  { j with
    records := j.records.filter j.isLive
    unsettled := fun p => j.unsettled p &&
      !j.records.any fun r => ofProfile p r && !j.isLive r }

/-- **Acknowledge a snapshot**: if it is still what the journal holds, drop what is not live. -/
def acknowledge (snapshotSHA256 : String) (read write again : Bool) (j : Journal) :
    Journal × Except JournalError Bool :=
  match Hex.ofString? 64 snapshotSHA256 with
  | none => (j, .error .ackInvalid)
  | some h =>
    match j.snapshotLocked sha256 read write with
    | (j, .error e) => (j, .error e)
    | (j, .ok (_, current)) =>
      if current ≠ h then (j, .ok false)
      else
        match ({ j with records := j.records.filter j.isLive }).writeLocked again with
        | none => (j, .error .storageUnavailable)
        | some j' => ({ j.handOver with disk := j'.disk }, .ok true)

end Snapshot

end Journal

end PokrovCore.Daemon
