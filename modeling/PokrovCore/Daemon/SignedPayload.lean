import Mathlib.Data.Set.List
import PokrovCore.Daemon.RenewalAdoption
import PokrovCore.Foundations.Utf8

/-!
# Daemon/SignedPayload — a decision is what its signature says

The checks read a permissive text and verify a signature over a text they write themselves: the
canonical form of the values they have read.  So what is acted on is a function of the signed text.

* `verify_signed`, `verifyRenewal_signed` — an accepted response has a signature of the canonical
  text of its decision, for this worker and this request.
* `signed_payload_decides` — two responses with one signature lead to one decision, no response is
  taken for two shapes, and what is accepted is bound to one nonce, capability, profile, platform
  and audience.
-/

namespace PokrovCore.Daemon

/-! ## The shapes of a payload -/

/-- One request of a worker, and when its answer is looked at. -/
structure Exchange where
  config : ControlConfig
  deadline : Sample
  nonce : Hex 32
  attempt : Attempt
  started : Sample
  now : Sample

/-- The check of a control response, on its bytes. -/
def Exchange.verify (crypto : Crypto) (q : Exchange) (raw : List UInt8) : Option Decision :=
  Daemon.verify crypto q.config q.deadline (Utf8.decode raw) q.nonce q.started q.now

/-- The check of a renewal response, on its bytes. -/
def Exchange.verifyRenewal (crypto : Crypto) (q : Exchange) (raw : List UInt8) :
    Option RenewalDecision :=
  Daemon.verifyRenewal crypto q.config q.deadline (Utf8.decode raw) q.nonce q.attempt q.started
    q.now

/-- The three payloads: a control decision, a renewed lease, a restriction in its place. -/
inductive Shape | control | lease | restriction
  deriving DecidableEq

/-- The schema of the response a payload comes in. -/
def Shape.response : Shape → String
  | .control => "smart-access-runtime-control-response-v1"
  | .lease | .restriction => "smart-access-runtime-renewal-response-v1"

def Shape.keys : Shape → List String
  | .control => controlKeys
  | .lease => renewalKeys
  | .restriction => restrictionKeys

def Shape.schemaVersion : Shape → String
  | .control => "pokrov-smart-access-runtime-control-v1"
  | .lease => "pokrov-smart-access-runtime-renewal-v1"
  | .restriction => "pokrov-smart-access-runtime-renewal-restriction-v1"

/-- What a key puts before the payload it signs. -/
def Shape.domain : Shape → String
  | .control => "pokrov-smart-access-runtime-control-v1\n"
  | .lease | .restriction => "pokrov-smart-access-runtime-renewal-v1\n"

/-- What a worker puts before the nonce and the capability a payload is bound to. -/
def Shape.bindingDomain : Shape → String
  | .control => "pokrov-smart-access-runtime-binding-v1"
  | .lease | .restriction => "pokrov-smart-access-runtime-renewal-binding-v1"

/-- The capability a payload is bound to: the worker's, or that of the enrollment to renew. -/
def Shape.capability (q : Exchange) : Shape → String
  | .control => q.config.capability
  | .lease | .restriction => q.attempt.capability

/-- What the binding of a payload is the digest of. -/
def Exchange.bindingInput (q : Exchange) (s : Shape) : List Char :=
  s.bindingDomain.toList ++ Char.ofNat 0 :: (q.nonce.text.toList ++
    Char.ofNat 0 :: (s.capability q).toList)

/-- The texts every payload begins with. -/
def Exchange.boundTexts (crypto : Crypto) (q : Exchange) (s : Shape) : List String :=
  [s.schemaVersion, q.nonce.text, bindingText crypto s.bindingDomain q.nonce (s.capability q),
    q.config.profileDigest.text, Vocabulary.text q.config.platform,
    Vocabulary.text q.config.audience]

/-- What a payload says beyond its binding. -/
inductive Content
  | control (reason : Reason) (issued expires : Date)
  | lease (lease : LeaseIdentity)
  | restriction (reason : RestrictionReason) (issued expires : Date) (revisions : List ℕ)
      (four : revisions.length = 4)

def Content.shape : Content → Shape
  | .control .. => .control
  | .lease .. => .lease
  | .restriction .. => .restriction

/-- The values that follow the binding. -/
def Content.told (q : Exchange) : Content → List Json
  | .control reason issued expires =>
    [Vocabulary.text reason.expected, Vocabulary.text reason, issued.format,
      expires.format].map .str
  | .lease l => [.str q.attempt.previous.leaseID.text, l.canonicalObject]
  | .restriction reason issued expires revisions _ =>
    [q.attempt.previous.leaseID.text, q.attempt.previous.runtimeScopeSHA256.text,
      Vocabulary.text reason.expected, Vocabulary.text reason, issued.format,
      expires.format].map .str ++ revisions.map fun n => .int n

/-- The values of a payload, in the order of its keys. -/
def Content.values (crypto : Crypto) (q : Exchange) (c : Content) : List Json :=
  (q.boundTexts crypto c.shape).map .str ++ c.told q

/-- The control decision of a payload, taken at `now`. -/
def Content.decision (now : Sample) : Content → Option Decision
  | .control reason _ expires => some ⟨reason, expires, now.deadline expires⟩
  | _ => none

/-- The renewal decision of a payload, taken at `now`. -/
def Content.renewalDecision (now : Sample) : Content → Option RenewalDecision
  | .control .. => none
  | .lease l => some ⟨.lease l, l.issuedAt, l.newFlowsUntil, now.deadline l.newFlowsUntil⟩
  | .restriction reason issued expires _ _ =>
    some ⟨.restriction reason.expected, issued, expires, now.deadline expires⟩

variable {c : Content}

theorem Content.response_of_decision {now : Sample} {d : Decision} (h : c.decision now = some d) :
    c.shape.response = Shape.control.response := by
  cases c with
  | control => rfl
  | lease | restriction => cases h

theorem Content.response_of_renewalDecision {now : Sample} {d : RenewalDecision}
    (h : c.renewalDecision now = some d) : c.shape.response = Shape.lease.response := by
  cases c with
  | control => cases h
  | lease | restriction => rfl

/-! ## What is signed -/

/-- What a key signs: the domain, and the canonical text of the payload. -/
def Content.message (crypto : Crypto) (q : Exchange) (c : Content) : List Char :=
  c.shape.domain.toList ++ (Json.sorted c.shape.keys (c.values crypto q)).render

theorem Shape.nodup_keys (s : Shape) : s.keys.Nodup := by
  cases s <;> decide +kernel

theorem wellFormed_texts (texts : List String) : ∀ j ∈ texts.map Json.str, j.wellFormed = true := by
  intro j hj
  obtain ⟨s, _, rfl⟩ := List.mem_map.mp hj
  rfl

theorem Content.wellFormed_values (crypto : Crypto) (q : Exchange) (c : Content) :
    ∀ j ∈ c.values crypto q, j.wellFormed = true := by
  intro j hj
  rcases List.mem_append.mp hj with hj | hj
  · exact wellFormed_texts _ j hj
  · cases c with
    | control => exact wellFormed_texts _ j hj
    | lease l =>
      rcases List.mem_pair.mp hj with rfl | rfl
      · rfl
      · exact Json.wellFormed_sorted l.wellFormed_values
    | restriction reason issued expires revisions =>
      rcases List.mem_append.mp hj with hj | hj
      · exact wellFormed_texts _ j hj
      · obtain ⟨n, _, rfl⟩ := List.mem_map.mp hj
        exact Json.wellFormed_int n

theorem Content.length_values (crypto : Crypto) (q : Exchange) (c : Content) :
    (c.values crypto q).length = c.shape.keys.length := by
  cases c with
  | control => rfl
  | lease => rfl
  | restriction _ _ _ revisions four =>
    rw [values, told, List.length_append, List.length_append, List.length_map, List.length_map,
      List.length_map, four]
    rfl

theorem Shape.length_domain (s s' : Shape) : s.domain.toList.length = s'.domain.toList.length := by
  cases s <;> cases s' <;> decide +kernel

variable {crypto : Crypto} {q : Exchange} {c' : Content}

theorem Content.sorted_eq (h : c.message crypto q = c'.message crypto q) :
    Json.sorted c.shape.keys (c.values crypto q) =
      Json.sorted c'.shape.keys (c'.values crypto q) :=
  Json.render_injOn (Json.wellFormed_sorted (c.wellFormed_values crypto q))
    (Json.wellFormed_sorted (c'.wellFormed_values crypto q))
    (List.append_inj_right h (Shape.length_domain _ _))

theorem Shape.eq_of_length_keys {s s' : Shape} (h : s.keys.length = s'.keys.length) : s = s' := by
  cases s <;> cases s' <;> first | rfl | exact absurd h (by decide)

/-- **A message has one shape**: two shapes have another number of members. -/
theorem Content.shape_eq (h : c.message crypto q = c'.message crypto q) :
    c.shape = c'.shape := by
  have hmembers := congrArg List.length (Json.obj.inj (sorted_eq h))
  simp only [List.length_insertionSort, List.length_zip, length_values, min_self] at hmembers
  exact Shape.eq_of_length_keys hmembers

theorem Content.values_eq (h : c.message crypto q = c'.message crypto q) :
    c.values crypto q = c'.values crypto q := by
  have hread := congrArg (Json.object? c.shape.keys) (sorted_eq h)
  rw [Json.object?_sorted c.shape.nodup_keys (c.length_values crypto q), shape_eq h,
    Json.object?_sorted c'.shape.nodup_keys (c'.length_values crypto q)] at hread
  exact Option.some.inj hread

theorem Vocabulary.text_injective {α : Type} [Vocabulary α] :
    Function.Injective (Vocabulary.text (α := α)) := fun a b h =>
  Option.some.inj (by rw [← Vocabulary.read_text a, h, Vocabulary.read_text])

theorem Content.told_inj (hshape : c.shape = c'.shape) (h : c.told q = c'.told q) :
    c = c' := by
  cases c with
  | control reason issued expires =>
    cases c' with
    | control reason' issued' expires' =>
      simp only [told, List.map_cons, List.cons.injEq, Json.str.injEq] at h
      obtain ⟨_, hreason, hissued, hexpires, _⟩ := h
      rw [Vocabulary.text_injective hreason, Date.format_injective hissued,
        Date.format_injective hexpires]
    | lease | restriction => cases hshape
  | lease l =>
    cases c' with
    | lease l' =>
      simp only [told, List.cons.injEq, true_and, and_true] at h
      have hparse := congrArg LeaseIdentity.parse h
      rw [LeaseIdentity.parse_canonicalObject, LeaseIdentity.parse_canonicalObject] at hparse
      exact congrArg Content.lease (Option.some.inj hparse)
    | control | restriction => cases hshape
  | restriction reason issued expires revisions four =>
    cases c' with
    | restriction reason' issued' expires' revisions' four' =>
      simp only [told, List.map_cons, List.map_nil, List.cons_append, List.nil_append,
        List.cons.injEq, Json.str.injEq, true_and] at h
      obtain ⟨_, hreason, hissued, hexpires, hrevisions⟩ := h
      obtain rfl := Vocabulary.text_injective hreason
      obtain rfl := Date.format_injective hissued
      obtain rfl := Date.format_injective hexpires
      obtain rfl := List.map_injective_iff.mpr Json.int_natCast_injective hrevisions
      rfl
    | control | lease => cases hshape

/-- **A message has one content.** -/
theorem Content.message_inj (h : c.message crypto q = c'.message crypto q) :
    c = c' := by
  have hvalues := values_eq h
  rw [values, values, shape_eq h] at hvalues
  exact told_inj (shape_eq h) (List.append_cancel_left hvalues)

/-! ## What is accepted -/

/-- A payload begins with the texts an exchange is bound by. -/
def Exchange.Binds (crypto : Crypto) (q : Exchange) (s : Shape) (payload : Json) : Prop :=
  ∃ fields, Json.object? s.keys payload = some fields ∧
    (fields.take 6).mapM Json.str? = some (q.boundTexts crypto s)

/-- **A response carries a content**: its envelope has a known key, its payload is bound to the
exchange, and the key signs the content in its canonical form. -/
def Exchange.Signed (crypto : Crypto) (q : Exchange) (raw : List UInt8) (c : Content) : Prop :=
  ∃ e, readEnvelope c.shape.response q.config.leaseKeysByID (Utf8.decode raw) = some e ∧
    q.Binds crypto c.shape e.payload ∧
    crypto.verify e.key (c.message crypto q) e.signature = true

theorem text_of_readWord {α : Type} {text : α → String} {all : List α} {s : String} {a : α}
    (h : readWord text all s = some a) : text a = s :=
  eq_of_beq (List.find?_some (p := fun a => text a == s) h)

theorem text_of_reason {s : String} {r : Reason} (h : Vocabulary.read s = some r) :
    s = Vocabulary.text r := (text_of_readWord h).symm

theorem text_of_restrictionReason {s : String} {r : RestrictionReason}
    (h : Vocabulary.read s = some r) : s = Vocabulary.text r := (text_of_readWord h).symm

theorem mapM_take {α β : Type} {f : α → Option β} {l : List α} {v : List β} (n : ℕ)
    (h : l.mapM f = some v) : (l.take n).mapM f = some (v.take n) :=
  mapM_eq_some_iff.mpr (List.forall₂_take n (mapM_eq_some_iff.mp h))

theorem length_object? {keys : List String} {j : Json} {values : List Json}
    (h : Json.object? keys j = some values) : values.length = keys.length := by
  unfold Json.object? at h
  split at h
  · exact (mapM_eq_some_iff.mp (Option.ite_none_right_eq_some.mp h).2).length_eq.symm
  · cases h

variable {raw : List UInt8}

/-- **An accepted control response carries its decision.** -/
theorem Exchange.verify_signed {d : Decision} (h : q.verify crypto raw = some d) :
    ∃ c : Content, q.Signed crypto raw c ∧ c.decision q.now = some d := by
  unfold Exchange.verify Daemon.verify at h
  obtain ⟨e, he, h⟩ := Option.bind_eq_some_iff.mp h
  obtain ⟨values, hvalues, h⟩ := Option.bind_eq_some_iff.mp h
  obtain ⟨fields, hfields, htexts⟩ := Option.bind_eq_some_iff.mp hvalues
  split at h
  · obtain ⟨reason, hreason, h⟩ := Option.bind_eq_some_iff.mp h
    obtain ⟨issued, hissued, h⟩ := Option.bind_eq_some_iff.mp h
    obtain ⟨expires, hexpires, h⟩ := Option.bind_eq_some_iff.mp h
    obtain ⟨⟨rfl, rfl, rfl, rfl, rfl, rfl, rfl, _, _, _, _, hsigns⟩, hd⟩ :=
      Option.ite_none_right_eq_some.mp h
    obtain rfl := text_of_reason hreason
    obtain rfl := Date.format_of_parse hissued
    obtain rfl := Date.format_of_parse hexpires
    exact ⟨.control reason issued expires, ⟨e, he, ⟨fields, hfields, mapM_take 6 htexts⟩,
      (Bool.and_eq_true_iff.mp hsigns).2⟩, hd⟩
  · cases h

/-- The texts a renewal response is bound by. -/
theorem renewalBound_eq {config : ControlConfig} {nonce : Hex 32} {attempt : Attempt}
    {requestNonce capabilityBinding profileDigest platform audience expectedLeaseID : String}
    (h : renewalBound crypto config nonce attempt requestNonce capabilityBinding profileDigest
      platform audience expectedLeaseID = true) :
    requestNonce = nonce.text ∧
      capabilityBinding = bindingText crypto "pokrov-smart-access-runtime-renewal-binding-v1" nonce
        attempt.capability ∧
      profileDigest = config.profileDigest.text ∧ platform = Vocabulary.text config.platform ∧
      audience = Vocabulary.text config.audience ∧
      expectedLeaseID = attempt.previous.leaseID.text := by
  simpa only [renewalBound, Bool.and_eq_true, decide_eq_true_eq, and_assoc] using h

theorem natCast_of_readFloor {fields : List Json} {revisions : List ℤ}
    (h : fields.mapM readFloor = some revisions) : ∃ l : List ℕ, revisions = l.map Nat.cast := by
  have hfloor : ∀ n ∈ revisions, 0 ≤ n := by
    intro n hn
    obtain ⟨j, _, hj⟩ := exists_of_mem_mapM h n hn
    exact (of_decide_eq_true (Option.filter_eq_some_iff.mp hj).2).1
  lift revisions to List ℕ using hfloor
  exact ⟨revisions, rfl⟩

/-- **An accepted restriction carries its decision.** -/
theorem Exchange.verifyRenewalRestriction_signed {e : Envelope} {d : RenewalDecision}
    (he : readEnvelope Shape.restriction.response q.config.leaseKeysByID (Utf8.decode raw) = some e)
    (h : verifyRenewalRestriction crypto q.config q.deadline e q.nonce q.attempt q.started q.now =
      some d) :
    ∃ c : Content, q.Signed crypto raw c ∧ c.renewalDecision q.now = some d := by
  unfold verifyRenewalRestriction at h
  obtain ⟨fields, hfields, h⟩ := Option.bind_eq_some_iff.mp h
  obtain ⟨texts, htexts, h⟩ := Option.bind_eq_some_iff.mp h
  obtain ⟨revisions, hrevisions, h⟩ := Option.bind_eq_some_iff.mp h
  split at h
  · obtain ⟨reason, hreason, h⟩ := Option.bind_eq_some_iff.mp h
    obtain ⟨issued, hissued, h⟩ := Option.bind_eq_some_iff.mp h
    obtain ⟨expires, hexpires, h⟩ := Option.bind_eq_some_iff.mp h
    obtain ⟨⟨rfl, hbound, rfl, rfl, _, _, _, _, hsigns⟩, hd⟩ :=
      Option.ite_none_right_eq_some.mp h
    obtain ⟨rfl, rfl, rfl, rfl, rfl, rfl⟩ := renewalBound_eq hbound
    obtain rfl := text_of_restrictionReason hreason
    obtain rfl := Date.format_of_parse hissued
    obtain rfl := Date.format_of_parse hexpires
    obtain ⟨l, rfl⟩ := natCast_of_readFloor hrevisions
    have four : l.length = 4 := by
      have hlen := (mapM_eq_some_iff.mp hrevisions).length_eq
      rw [List.length_map, List.length_drop, length_object? hfields] at hlen
      exact hlen.symm
    refine ⟨.restriction reason issued expires l four, ⟨e, he, ⟨fields, hfields, ?_⟩, ?_⟩, hd⟩
    · have hsix := mapM_take 6 htexts
      rwa [List.take_take] at hsix
    · have hverify := (Bool.and_eq_true_iff.mp hsigns).2
      rwa [List.map_map] at hverify
  · cases h

/-- **An accepted renewal response carries its decision.** -/
theorem Exchange.verifyRenewal_signed {d : RenewalDecision}
    (h : q.verifyRenewal crypto raw = some d) :
    ∃ c : Content, q.Signed crypto raw c ∧ c.renewalDecision q.now = some d := by
  unfold Exchange.verifyRenewal Daemon.verifyRenewal at h
  obtain ⟨e, he, h⟩ := Option.bind_eq_some_iff.mp h
  split at h
  · rename_i fields hfields
    obtain ⟨texts, htexts, h⟩ := Option.bind_eq_some_iff.mp h
    obtain ⟨l, hl, h⟩ := Option.bind_eq_some_iff.mp h
    split at h
    · obtain ⟨⟨rfl, hbound, _, _, _, _, _, _, _, _, _, _, hsigns⟩, hd⟩ :=
        Option.ite_none_right_eq_some.mp h
      obtain ⟨rfl, rfl, rfl, rfl, rfl, rfl⟩ := renewalBound_eq hbound
      refine ⟨.lease l, ⟨e, he, ⟨fields, hfields, ?_⟩, (Bool.and_eq_true_iff.mp hsigns).2⟩, hd⟩
      have hsix := mapM_take 6 htexts
      rwa [List.take_take] at hsix
    · cases h
  · exact verifyRenewalRestriction_signed he h

/-- Does an exchange accept a response as one of this shape? -/
inductive Exchange.Accepts (crypto : Crypto) (q : Exchange) (raw : List UInt8) : Shape → Prop
  | control {d : Decision} (h : q.verify crypto raw = some d) : Accepts crypto q raw .control
  | lease {d : RenewalDecision} {l : LeaseIdentity} (h : q.verifyRenewal crypto raw = some d)
      (hd : d.outcome = .lease l) : Accepts crypto q raw .lease
  | restriction {d : RenewalDecision} {action : ScopeAction}
      (h : q.verifyRenewal crypto raw = some d) (hd : d.outcome = .restriction action) :
      Accepts crypto q raw .restriction

theorem Exchange.Accepts.signed {s : Shape} (h : q.Accepts crypto raw s) :
    ∃ c : Content, c.shape = s ∧ q.Signed crypto raw c := by
  cases h with
  | control h =>
    obtain ⟨c, hc, hd⟩ := verify_signed h
    cases c with
    | control => exact ⟨_, rfl, hc⟩
    | lease | restriction => cases hd
  | lease h hlease =>
    obtain ⟨c, hc, hd⟩ := verifyRenewal_signed h
    cases c with
    | lease => exact ⟨_, rfl, hc⟩
    | control => cases hd
    | restriction =>
      obtain rfl := Option.some.inj hd
      cases hlease
  | restriction h hrestriction =>
    obtain ⟨c, hc, hd⟩ := verifyRenewal_signed h
    cases c with
    | restriction => exact ⟨_, rfl, hc⟩
    | control => cases hd
    | lease =>
      obtain rfl := Option.some.inj hd
      cases hrestriction

/-- The envelope of a response does not depend on the keys that are known, up to its own. -/
theorem readEnvelope_payload {schema schema' : String} {keys keys' : SortedMap String String}
    {raw : List Char} {e e' : Envelope} (h : readEnvelope schema keys raw = some e)
    (h' : readEnvelope schema' keys' raw = some e') : schema = schema' ∧ e.payload = e'.payload := by
  unfold readEnvelope at h h'
  split at h
  · rename_i s envelope houter
    rw [houter] at h'
    split at h
    · rename_i algorithm keyID digest payload signature hinner
      simp only [hinner] at h'
      obtain ⟨key, _, h⟩ := Option.bind_eq_some_iff.mp h
      obtain ⟨sha, _, h⟩ := Option.bind_eq_some_iff.mp h
      obtain ⟨text, _, h⟩ := Option.bind_eq_some_iff.mp h
      obtain ⟨⟨hschema, _⟩, h⟩ := Option.ite_none_right_eq_some.mp h
      obtain ⟨key', _, h'⟩ := Option.bind_eq_some_iff.mp h'
      obtain ⟨sha', _, h'⟩ := Option.bind_eq_some_iff.mp h'
      obtain ⟨text', _, h'⟩ := Option.bind_eq_some_iff.mp h'
      obtain ⟨⟨hschema', _⟩, h'⟩ := Option.ite_none_right_eq_some.mp h'
      obtain rfl := Option.some.inj h
      obtain rfl := Option.some.inj h'
      exact ⟨Option.some.inj (hschema.symm.trans hschema'), rfl⟩
    · cases h
  · cases h

theorem length_keys_eq {keys keys' : List String} {j : Json} {values values' : List Json}
    (h : Json.object? keys j = some values) (h' : Json.object? keys' j = some values') :
    keys.length = keys'.length := by
  unfold Json.object? at h h'
  split at h
  · have hlen := (Option.ite_none_right_eq_some.mp h).1.2
    exact hlen.symm.trans (Option.ite_none_right_eq_some.mp h').1.2
  · cases h

/-- **A response has one shape**, whoever looks at it. -/
theorem Exchange.Signed.shape_eq {q' : Exchange} (h : q.Signed crypto raw c)
    (h' : q'.Signed crypto raw c') :
    c.shape = c'.shape := by
  obtain ⟨e, he, ⟨fields, hfields, _⟩, _⟩ := h
  obtain ⟨e', he', ⟨fields', hfields', _⟩, _⟩ := h'
  rw [(readEnvelope_payload he he').2] at hfields
  exact Shape.eq_of_length_keys (length_keys_eq hfields hfields')

/-- **A payload binds one nonce, capability, profile, platform and audience**, unless two binding
inputs collide. -/
theorem Exchange.Binds.unique {q' : Exchange} {s : Shape} {payload : Json}
    (h : q.Binds crypto s payload) (h' : q'.Binds crypto s payload)
    (hsha : crypto.sha256 (q.bindingInput s) = crypto.sha256 (q'.bindingInput s) →
      q.bindingInput s = q'.bindingInput s) :
    q.nonce = q'.nonce ∧ s.capability q = s.capability q' ∧
      q.config.profileDigest = q'.config.profileDigest ∧
      q.config.platform = q'.config.platform ∧ q.config.audience = q'.config.audience := by
  obtain ⟨fields, hfields, htexts⟩ := h
  obtain ⟨fields', hfields', htexts'⟩ := h'
  obtain rfl := Option.some.inj (hfields.symm.trans hfields')
  have htexts := Option.some.inj (htexts.symm.trans htexts')
  simp only [boundTexts, List.cons.injEq, true_and, and_true] at htexts
  obtain ⟨hnonce, hbinding, hprofile, hplatform, haudience⟩ := htexts
  have hinput := hsha (Hex.text_injective hbinding)
  rw [bindingInput, bindingInput, hnonce] at hinput
  have hcapability := List.append_cancel_left (List.tail_eq_of_cons_eq
    (List.append_cancel_left hinput))
  exact ⟨Hex.text_injective hnonce, String.ext (List.tail_eq_of_cons_eq hcapability),
    Hex.text_injective hprofile, Vocabulary.text_injective hplatform,
    Vocabulary.text_injective haudience⟩

/-- Two responses are signed alike: the same key, and the same signature. -/
def Exchange.SameSignature (q : Exchange) (schema : String) (r₁ r₂ : List UInt8) : Prop :=
  ∃ e₁ e₂, readEnvelope schema q.config.leaseKeysByID (Utf8.decode r₁) = some e₁ ∧
    readEnvelope schema q.config.leaseKeysByID (Utf8.decode r₂) = some e₂ ∧
    e₁.key = e₂.key ∧ e₁.signature = e₂.signature

/-- **Responses signed alike have one content**, if a signature holds for one message. -/
theorem Exchange.Signed.content_eq {schema : String} {r₁ r₂ : List UInt8} {c₁ c₂ : Content}
    (hsig : ∀ key m m' signature, crypto.verify key m signature = true →
      crypto.verify key m' signature = true → m = m') (hsame : q.SameSignature schema r₁ r₂)
    (h₁ : q.Signed crypto r₁ c₁) (h₂ : q.Signed crypto r₂ c₂) (hs₁ : c₁.shape.response = schema)
    (hs₂ : c₂.shape.response = schema) : c₁ = c₂ := by
  obtain ⟨e₁, e₂, he₁, he₂, hkey, hsignature⟩ := hsame
  obtain ⟨f₁, hf₁, _, hv₁⟩ := h₁
  obtain ⟨f₂, hf₂, _, hv₂⟩ := h₂
  rw [hs₁, he₁, Option.some.injEq] at hf₁
  rw [hs₂, he₂, Option.some.injEq] at hf₂
  subst hf₁ hf₂
  rw [hkey, hsignature] at hv₁
  exact Content.message_inj (hsig _ _ _ _ hv₁ hv₂)

/-- **What is acted on is what is signed.**  Suppose a signature holds for one message of a key.

* Under one exchange, two responses with the same key and signature lead to the same control
  decision, and to the same renewal decision, whatever else differs between their bytes.
* A response that one exchange accepts as one of the three shapes is accepted as another by none.
* An accepted response is bound to its exchange: its payload begins with the nonce, the digest of
  nonce and capability, the profile, the platform and the audience.  So an exchange that accepts
  the same response has the same nonce, capability, profile, platform and audience, provided that
  the digests of the two binding inputs do not collide. -/
theorem signed_payload_decides (crypto : Crypto)
    (hsig : ∀ key m m' signature, crypto.verify key m signature = true →
      crypto.verify key m' signature = true → m = m') :
    (∀ (q : Exchange) (r₁ r₂ : List UInt8) (d₁ d₂ : Decision),
      q.SameSignature Shape.control.response r₁ r₂ → q.verify crypto r₁ = some d₁ →
        q.verify crypto r₂ = some d₂ → d₁ = d₂) ∧
    (∀ (q : Exchange) (r₁ r₂ : List UInt8) (d₁ d₂ : RenewalDecision),
      q.SameSignature Shape.lease.response r₁ r₂ → q.verifyRenewal crypto r₁ = some d₁ →
        q.verifyRenewal crypto r₂ = some d₂ → d₁ = d₂) ∧
    (∀ (q q' : Exchange) (raw : List UInt8) (s s' : Shape), q.Accepts crypto raw s →
      q'.Accepts crypto raw s' → s = s') ∧
    (∀ (q : Exchange) (raw : List UInt8) (s : Shape), q.Accepts crypto raw s →
      ∃ e, readEnvelope s.response q.config.leaseKeysByID (Utf8.decode raw) = some e ∧
        q.Binds crypto s e.payload) ∧
    ∀ (q q' : Exchange) (raw : List UInt8) (s : Shape), q.Accepts crypto raw s →
      q'.Accepts crypto raw s →
      (crypto.sha256 (q.bindingInput s) = crypto.sha256 (q'.bindingInput s) →
        q.bindingInput s = q'.bindingInput s) →
      q.nonce = q'.nonce ∧ s.capability q = s.capability q' ∧
        q.config.profileDigest = q'.config.profileDigest ∧
        q.config.platform = q'.config.platform ∧ q.config.audience = q'.config.audience := by
  refine ⟨fun q r₁ r₂ d₁ d₂ hsame h₁ h₂ => ?_, fun q r₁ r₂ d₁ d₂ hsame h₁ h₂ => ?_,
    fun q q' raw s s' h h' => ?_, fun q raw s h => ?_, fun q q' raw s h h' hsha => ?_⟩
  · obtain ⟨c₁, hc₁, hd₁⟩ := Exchange.verify_signed h₁
    obtain ⟨c₂, hc₂, hd₂⟩ := Exchange.verify_signed h₂
    obtain rfl := hc₁.content_eq hsig hsame hc₂ (Content.response_of_decision hd₁)
      (Content.response_of_decision hd₂)
    exact Option.some.inj (hd₁.symm.trans hd₂)
  · obtain ⟨c₁, hc₁, hd₁⟩ := Exchange.verifyRenewal_signed h₁
    obtain ⟨c₂, hc₂, hd₂⟩ := Exchange.verifyRenewal_signed h₂
    obtain rfl := hc₁.content_eq hsig hsame hc₂ (Content.response_of_renewalDecision hd₁)
      (Content.response_of_renewalDecision hd₂)
    exact Option.some.inj (hd₁.symm.trans hd₂)
  · obtain ⟨c, rfl, hc⟩ := h.signed
    obtain ⟨c', rfl, hc'⟩ := h'.signed
    exact hc.shape_eq hc'
  · obtain ⟨c, rfl, e, he, hbinds, _⟩ := h.signed
    exact ⟨e, he, hbinds⟩
  · obtain ⟨c, rfl, e, he, hbinds, _⟩ := h.signed
    obtain ⟨c', hshape, e', he', hbinds', _⟩ := h'.signed
    rw [hshape, ← (readEnvelope_payload he he').2] at hbinds'
    exact hbinds.unique hbinds' hsha

open Service in
/-- The exchange of a worker one second into 2026. -/
def sampleExchange : Exchange where
  config := sampleControl
  deadline := laterClock
  nonce := sampleNonce
  attempt := ⟨0, firstLease, "pkr_src1.a.b", firstLease.newFlowsUntil, laterClock,
    ⟨.current, firstLease.newFlowsUntil, laterClock⟩⟩
  started := SmartAccess.sampleClock
  now := SmartAccess.sampleClock

/-- What the control plane signs for that exchange. -/
def sampleContent : Content :=
  .control .accessDenied (Service.sampleDate "2026-01-01T00:00:01Z")
    (Service.sampleDate "2026-01-01T00:00:31Z")

/-- A cryptography in which one key has signed this one message. -/
def sampleSigned : Crypto where
  sha256 _ := Service.sampleDigest
  verify key m signature :=
    decide (key = "K" ∧ m = sampleContent.message Service.sampleCrypto sampleExchange ∧
      signature = String.ofList (List.replicate 86 'A'))

theorem sameSignature_of_verify {r₁ r₂ : List UInt8} {d₁ d₂ : Decision}
    (h₁ : sampleExchange.verify sampleSigned r₁ = some d₁)
    (h₂ : sampleExchange.verify sampleSigned r₂ = some d₂) :
    sampleExchange.SameSignature Shape.control.response r₁ r₂ := by
  obtain ⟨c₁, ⟨e₁, he₁, _, hv₁⟩, hd₁⟩ := Exchange.verify_signed h₁
  obtain ⟨c₂, ⟨e₂, he₂, _, hv₂⟩, hd₂⟩ := Exchange.verify_signed h₂
  rw [Content.response_of_decision hd₁] at he₁
  rw [Content.response_of_decision hd₂] at he₂
  obtain ⟨hkey₁, _, hsignature₁⟩ := of_decide_eq_true hv₁
  obtain ⟨hkey₂, _, hsignature₂⟩ := of_decide_eq_true hv₂
  exact ⟨e₁, e₂, he₁, he₂, hkey₁.trans hkey₂.symm, hsignature₁.trans hsignature₂.symm⟩

/-- A response with that content, after `n` blanks. -/
def sampleResponse (n : ℕ) : List UInt8 :=
  (List.replicate n ' ' ++ (Service.sampleDecision .accessDenied "2026-01-01T00:00:01Z"
    "2026-01-01T00:00:31Z" SmartAccess.sampleClock).raw).map fun c => UInt8.ofNat c.toNat

/-- The answer and a copy of it with a blank more lead to one decision. -/
theorem signed_payload_decides_sample :
    ∃ d₁ d₂, sampleExchange.verify sampleSigned (sampleResponse 0) = some d₁ ∧
      sampleExchange.verify sampleSigned (sampleResponse 1) = some d₂ ∧
      sampleResponse 0 ≠ sampleResponse 1 ∧ d₁ = d₂ := by
  have hread : ∀ n < 2, (sampleExchange.verify sampleSigned (sampleResponse n)).isSome := by
    decide +kernel
  obtain ⟨d₁, h₁⟩ := Option.isSome_iff_exists.mp (hread 0 (by decide))
  obtain ⟨d₂, h₂⟩ := Option.isSome_iff_exists.mp (hread 1 (by decide))
  refine ⟨d₁, d₂, h₁, h₂, fun h => absurd (congrArg List.head? h) (by decide +kernel), ?_⟩
  exact (signed_payload_decides sampleSigned fun _ m m' _ hm hm' =>
    (of_decide_eq_true hm).2.1.trans (of_decide_eq_true hm').2.1.symm).1 _ _ _ d₁ d₂
      (sameSignature_of_verify h₁ h₂) h₁ h₂

end PokrovCore.Daemon
