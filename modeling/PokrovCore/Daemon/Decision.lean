import PokrovCore.Daemon.Journal

/-!
# Daemon/Decision — signed control and renewal decisions

A worker asks the control plane for a decision and trusts only what is signed: the envelope names a
known key, the digest and the signature are those of the canonical payload, and every field of the
payload is bound to this request, worker and clock.  Hashing and signature checking are parameters.
`verifyRenewal_lease` says what an accepted renewal has over the lease it replaces.
-/

namespace PokrovCore.Daemon

/-- The cryptography the checks rest on: the hexadecimal digest of a text, and whether a key, in its
base64 text, verifies a message with a signature in its base64 text. -/
structure Crypto where
  sha256 : List Char → Digest
  verify : String → List Char → String → Bool

/-- The configuration of a control worker, its fields checked. -/
structure ControlConfig where
  profileDigest : Digest
  catalogSHA256 : Option Digest
  platform : Platform
  audience : Audience
  apiBaseURL : String
  dnsResolver : ServiceID
  capability : String
  issuedAt : Date
  expiresAt : Date
  leaseKeysByID : SortedMap String String
  deriving DecidableEq

/-- The limit on a configuration and on a response, in bytes. -/
def runtimeControlLimit : ℕ := 16 * 1024

/-- A control decision and how long it may be acted on. -/
structure Decision where
  reason : Reason
  expires : Date
  deadline : Sample
  deriving DecidableEq

/-- A renewal in progress: the enrollment it starts from, and what that held when it was chosen. -/
structure Attempt where
  enrollment : ℕ
  previous : LeaseIdentity
  capability : String
  expires : Date
  deadline : Sample
  control : Decision
  deriving DecidableEq

/-- What a renewal decision grants or takes away. -/
inductive RenewalOutcome
  | lease (lease : LeaseIdentity)
  | restriction (action : ScopeAction)
  deriving DecidableEq

/-- A renewal decision and how long it may be acted on. -/
structure RenewalDecision where
  outcome : RenewalOutcome
  issued : Date
  newUntil : Date
  deadline : Sample
  deriving DecidableEq

/-! ## Envelopes -/

/-- A signed envelope with a known key. -/
structure Envelope where
  key : String
  payloadSHA256 : Digest
  payload : Json
  signature : String

/-- The envelope of a response. -/
def readEnvelope (schema : String) (keys : SortedMap String String) (raw : List Char) :
    Option Envelope :=
  match (Json.parse raw).bind (Json.object? ["schema", "envelope"]) with
  | some [s, envelope] =>
    match Json.object? ["algorithm", "key_id", "payload_sha256", "payload", "signature_b64"]
        envelope with
    | some [algorithm, keyID, digest, payload, signature] => do
      let key ← keyID.str?.bind keys.get?
      let payloadSHA256 ← readHex 64 digest
      let signature ← signature.str?
      if s.str? = some schema ∧ algorithm.str? = some "Ed25519" ∧ signature.utf8ByteSize = 86 then
        some { key, payloadSHA256, payload, signature }
      else none
    | _ => none
  | _ => none

/-- Is the canonical payload the one the envelope has the digest and the signature of? -/
def Envelope.signs (crypto : Crypto) (domain : String) (e : Envelope) (canonical : Json) : Bool :=
  decide (e.payloadSHA256 = crypto.sha256 canonical.render) &&
    crypto.verify e.key (domain.toList ++ canonical.render) e.signature

/-- The digest that binds a response to the nonce and the capability of its request. -/
def bindingText (crypto : Crypto) (domain : String) (nonce : Hex 32) (capability : String) :
    String :=
  (crypto.sha256 (domain.toList ++ Char.ofNat 0 :: (nonce.text.toList ++
    Char.ofNat 0 :: capability.toList))).text

/-- May a decision of these dates be acted on, given when its request started and the present? -/
def decisionCurrent (issued expires : Date) (started now : Sample) : Bool :=
  issued.toTime.before expires.toTime &&
    decide (expires.toTime.sub issued.toTime ≤ Time.minute) &&
    !issued.toTime.before ((Time.ofSample started).truncate Time.second) &&
    !now.beforeDate issued && now.beforeDate expires

/-! ## Control decisions -/

/-- The action a control decision names with its reason. -/
def Reason.expected : Reason → PolicyAction
  | .current => .none
  | .issuanceDisabled => .drain
  | .accessDenied | .providerPolicyDisabled | .catalogDisabled => .terminate

def controlKeys : List String :=
  ["schema_version", "request_nonce", "device_binding", "profile_digest", "platform", "audience",
    "action", "reason", "issued_at", "expires_at"]

/-- **Check a control response.** -/
def verify (crypto : Crypto) (config : ControlConfig) (deadline : Sample) (raw : List Char)
    (nonce : Hex 32) (started now : Sample) : Option Decision := do
  let e ← readEnvelope "smart-access-runtime-control-response-v1" config.leaseKeysByID raw
  let values ← (Json.object? controlKeys e.payload).bind (List.mapM Json.str?)
  match values with
  | [schemaVersion, requestNonce, deviceBinding, profileDigest, platform, audience, action, reason,
      issuedAt, expiresAt] =>
    let reason ← Vocabulary.read reason
    let issued ← smartAccessControlTime issuedAt
    let expires ← smartAccessControlTime expiresAt
    if schemaVersion = "pokrov-smart-access-runtime-control-v1" ∧ requestNonce = nonce.text ∧
        profileDigest = config.profileDigest.text ∧ platform = Vocabulary.text config.platform ∧
        audience = Vocabulary.text config.audience ∧
        deviceBinding = bindingText crypto "pokrov-smart-access-runtime-binding-v1" nonce
          config.capability ∧
        action = Vocabulary.text reason.expected ∧
        decisionCurrent issued expires started now = true ∧
        expires.toTime.after config.expiresAt.toTime = false ∧
        now.beforeDate config.expiresAt = true ∧ now.before deadline = true ∧
        e.signs crypto "pokrov-smart-access-runtime-control-v1\n"
          (Json.sorted controlKeys (values.map .str)) = true then
      some ⟨reason, expires, now.deadline expires⟩
    else none
  | _ => none

/-! ## Renewal decisions -/

/-- Why a renewal is refused for good: for everyone, or for its scope. -/
inductive RestrictionReason
  | accessDenied | catalogDisabled | providerPolicyDisabled | issuanceDisabled
  | providerScopeWithdrawn | catalogScopeWithdrawn | scopeChanged | capabilityUnavailable
  deriving DecidableEq, Repr

def RestrictionReason.text : RestrictionReason → String
  | .accessDenied => "access_denied" | .catalogDisabled => "catalog_disabled"
  | .providerPolicyDisabled => "provider_policy_disabled"
  | .issuanceDisabled => "issuance_disabled"
  | .providerScopeWithdrawn => "provider_scope_withdrawn"
  | .catalogScopeWithdrawn => "catalog_scope_withdrawn" | .scopeChanged => "scope_changed"
  | .capabilityUnavailable => "capability_unavailable"

instance : Vocabulary RestrictionReason where
  text := RestrictionReason.text
  read := readWord RestrictionReason.text
    [.accessDenied, .catalogDisabled, .providerPolicyDisabled, .issuanceDisabled,
      .providerScopeWithdrawn, .catalogScopeWithdrawn, .scopeChanged, .capabilityUnavailable]
  read_text a := by cases a <;> decide

/-- The action a restriction names with its reason. -/
def RestrictionReason.expected : RestrictionReason → ScopeAction
  | .issuanceDisabled | .scopeChanged | .capabilityUnavailable => .drain
  | _ => .terminate

/-- Does the reason concern every scope?  Then the restriction carries no revision. -/
def RestrictionReason.global : RestrictionReason → Bool
  | .accessDenied | .catalogDisabled | .providerPolicyDisabled | .issuanceDisabled => true
  | _ => false

/-- Are all clocks of an attempt and of its worker still running? -/
def attemptCurrent (config : ControlConfig) (deadline : Sample) (attempt : Attempt)
    (now : Sample) : Bool :=
  now.before attempt.deadline && now.beforeDate attempt.control.expires &&
    now.before attempt.control.deadline && now.beforeDate config.expiresAt && now.before deadline

/-- The fields that bind a renewal response to its request. -/
def renewalBound (crypto : Crypto) (config : ControlConfig) (nonce : Hex 32) (attempt : Attempt)
    (requestNonce capabilityBinding profileDigest platform audience expectedLeaseID : String) :
    Bool :=
  decide (requestNonce = nonce.text) &&
    decide (capabilityBinding = bindingText crypto "pokrov-smart-access-runtime-renewal-binding-v1"
      nonce attempt.capability) &&
    decide (profileDigest = config.profileDigest.text) &&
    decide (platform = Vocabulary.text config.platform) &&
    decide (audience = Vocabulary.text config.audience) &&
    decide (expectedLeaseID = attempt.previous.leaseID.text)

def renewalKeys : List String :=
  ["schema_version", "request_nonce", "capability_binding", "profile_digest", "platform",
    "audience", "expected_lease_id", "lease"]

def restrictionKeys : List String :=
  ["schema_version", "request_nonce", "capability_binding", "profile_digest", "platform",
    "audience", "expected_lease_id", "runtime_scope_sha256", "action", "reason", "issued_at",
    "expires_at", "provider_policy_revision", "provider_security_revision", "catalog_revision",
    "catalog_security_revision"]

/-- A revision number, zero included. -/
def readFloor (j : Json) : Option ℤ :=
  j.int?.filter fun n => decide (0 ≤ n ∧ n ≤ 9007199254740991)

/-- **Check a restriction in place of a renewal.** -/
def verifyRenewalRestriction (crypto : Crypto) (config : ControlConfig) (deadline : Sample)
    (e : Envelope) (nonce : Hex 32) (attempt : Attempt) (started now : Sample) :
    Option RenewalDecision := do
  let fields ← Json.object? restrictionKeys e.payload
  let texts ← (fields.take 12).mapM Json.str?
  let revisions ← (fields.drop 12).mapM readFloor
  match texts with
  | [schemaVersion, requestNonce, capabilityBinding, profileDigest, platform, audience,
      expectedLeaseID, runtimeScope, action, reason, issuedAt, expiresAt] =>
    let reason : RestrictionReason ← Vocabulary.read reason
    let issued ← smartAccessControlTime issuedAt
    let expires ← smartAccessControlTime expiresAt
    let previous := attempt.previous
    let floors : List ℤ := [previous.providerPolicyRevision.value,
      previous.providerSecurityRevision.value, previous.catalogRevision.value,
      previous.catalogSecurityRevision.value]
    if schemaVersion = "pokrov-smart-access-runtime-renewal-restriction-v1" ∧
        renewalBound crypto config nonce attempt requestNonce capabilityBinding profileDigest
          platform audience expectedLeaseID = true ∧
        runtimeScope = previous.runtimeScopeSHA256.text ∧
        action = Vocabulary.text reason.expected ∧
        (revisions.zip floors).all (fun v => if reason.global then v.1 == 0
          else decide (v.2 ≤ v.1)) = true ∧
        decisionCurrent issued expires started now = true ∧
        expires.toTime.after attempt.expires.toTime = false ∧
        attemptCurrent config deadline attempt now = true ∧
        e.signs crypto "pokrov-smart-access-runtime-renewal-v1\n"
          (Json.sorted restrictionKeys (texts.map .str ++ revisions.map .int)) = true then
      some ⟨.restriction reason.expected, issued, expires, now.deadline expires⟩
    else none
  | _ => none

/-- **Check a renewal response**: a successor of the lease it was asked for, or a restriction. -/
def verifyRenewal (crypto : Crypto) (config : ControlConfig) (deadline : Sample)
    (raw : List Char) (nonce : Hex 32) (attempt : Attempt) (started now : Sample) :
    Option RenewalDecision := do
  let e ← readEnvelope "smart-access-runtime-renewal-response-v1" config.leaseKeysByID raw
  match Json.object? renewalKeys e.payload with
  | some values =>
    let texts ← (values.take 7).mapM Json.str?
    let lease ← (values.drop 7).head?.bind LeaseIdentity.parse
    let previous := attempt.previous
    match texts with
    | [schemaVersion, requestNonce, capabilityBinding, profileDigest, platform, audience,
        expectedLeaseID] =>
      if schemaVersion = "pokrov-smart-access-runtime-renewal-v1" ∧
          renewalBound crypto config nonce attempt requestNonce capabilityBinding profileDigest
            platform audience expectedLeaseID = true ∧
          lease.leaseID ≠ previous.leaseID ∧ lease.follows previous = true ∧
          lease.issuedAt.toTime.before ((Time.ofSample started).truncate Time.second) = false ∧
          lease.issuedAt.toTime.before previous.issuedAt.toTime = false ∧
          now.beforeDate lease.issuedAt = false ∧ now.beforeDate lease.newFlowsUntil = true ∧
          lease.newFlowsUntil.toTime.after previous.newFlowsUntil.toTime = true ∧
          lease.activeFlowsUntil.toTime.after attempt.expires.toTime = false ∧
          now.beforeDate attempt.expires = true ∧
          attemptCurrent config deadline attempt now = true ∧
          e.signs crypto "pokrov-smart-access-runtime-renewal-v1\n"
            (Json.sorted renewalKeys (texts.map .str ++ [lease.canonicalObject])) = true then
        some ⟨.lease lease, lease.issuedAt, lease.newFlowsUntil,
          now.deadline lease.newFlowsUntil⟩
      else none
    | _ => none
  | none => verifyRenewalRestriction crypto config deadline e nonce attempt started now

/-- **What an accepted renewal has over the lease it replaces.** -/
structure Succeeds (previous next : LeaseIdentity) : Prop where
  id : next.leaseID ≠ previous.leaseID
  follows : next.follows previous = true
  issued : previous.issuedAt ≤ next.issuedAt
  newUntil : previous.newFlowsUntil < next.newFlowsUntil

theorem verifyRenewalRestriction_outcome {crypto : Crypto} {config : ControlConfig}
    {deadline : Sample} {e : Envelope} {nonce : Hex 32} {attempt : Attempt} {started now : Sample}
    {d : RenewalDecision}
    (h : verifyRenewalRestriction crypto config deadline e nonce attempt started now = some d) :
    ∃ action, d.outcome = .restriction action := by
  unfold verifyRenewalRestriction at h
  obtain ⟨fields, _, h⟩ := Option.bind_eq_some_iff.mp h
  obtain ⟨texts, _, h⟩ := Option.bind_eq_some_iff.mp h
  obtain ⟨revisions, _, h⟩ := Option.bind_eq_some_iff.mp h
  split at h
  · obtain ⟨reason, _, h⟩ := Option.bind_eq_some_iff.mp h
    obtain ⟨issued, _, h⟩ := Option.bind_eq_some_iff.mp h
    obtain ⟨expires, _, h⟩ := Option.bind_eq_some_iff.mp h
    obtain ⟨_, h⟩ := Option.ite_none_right_eq_some.mp h
    obtain rfl := Option.some.inj h
    exact ⟨_, rfl⟩
  · cases h

theorem verifyRenewal_lease {crypto : Crypto} {config : ControlConfig} {deadline : Sample}
    {raw : List Char} {nonce : Hex 32} {attempt : Attempt} {started now : Sample}
    {d : RenewalDecision} {lease : LeaseIdentity}
    (h : verifyRenewal crypto config deadline raw nonce attempt started now = some d)
    (hlease : d.outcome = .lease lease) :
    Succeeds attempt.previous lease ∧ d.issued = lease.issuedAt ∧
      d.newUntil = lease.newFlowsUntil := by
  unfold verifyRenewal at h
  obtain ⟨e, _, h⟩ := Option.bind_eq_some_iff.mp h
  split at h
  · obtain ⟨texts, _, h⟩ := Option.bind_eq_some_iff.mp h
    obtain ⟨l, _, h⟩ := Option.bind_eq_some_iff.mp h
    split at h
    · obtain ⟨⟨_, _, hid, hfollows, _, hissued, _, _, hnew, _⟩, h⟩ :=
        Option.ite_none_right_eq_some.mp h
      obtain rfl := Option.some.inj h
      obtain rfl : l = lease := RenewalOutcome.lease.inj hlease
      rw [Date.toTime_before, decide_eq_false_iff_not, not_lt] at hissued
      rw [Time.after, Date.toTime_before, decide_eq_true_eq] at hnew
      exact ⟨⟨hid, hfollows, hissued, hnew⟩, rfl, rfl⟩
    · cases h
  · obtain ⟨action, hd⟩ := verifyRenewalRestriction_outcome h
    rw [hd] at hlease
    cases hlease

end PokrovCore.Daemon
