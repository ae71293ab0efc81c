import PokrovCore.Daemon.ServiceInvariants

/-!
# Daemon/Enrollment — when a new instance may get a worker

A worker begins only on a record that is settled and clean — or on one that an earlier worker still
holds.  The second case is meant for a worker that replaces its predecessor on one instance, but
`begin` asks the map of live workers, not the instance: the worker of a stopped instance stays in
that map until it has run its deferred `finish`, and until then a new instance of the profile is
enrolled over whatever that worker has recorded.

`fresh_enrollment_clean_iff_settled` — an instance without a worker is enrolled on a clean record
exactly when no worker of the profile is live.
-/

namespace PokrovCore.Daemon

open SmartAccess (sampleClock sampleOptions)

namespace Service

variable {crypto : Crypto} {s s' : Service}

/-- A first worker of an instance begins on the journal it was given. -/
theorem begin_of_enroll {i : ℕ} {inst : Instance} {config : ControlConfig} {deadline : Sample}
    {world : ConfigureWorld} (hnone : inst.smartAccessControl = none)
    (h : (s.enroll i inst config deadline world).2 = .ok true) :
    ∃ q j g, world.directory = some q ∧
      (s.journals q).begin config.profileDigest config.catalogSHA256
        inst.smartAccessRestrictionExpires world.rand world.read world.write = (j, .ok g) := by
  have hcontrol : s.control inst = none := by
    rw [control, hnone]
    rfl
  rw [enroll, hcontrol] at h
  dsimp only [Option.bind_none] at h
  split at h
  · cases h
  split at h
  · cases h
  rename_i q hq
  split at h
  · cases h
  rename_i j g hbegin
  exact ⟨q, j, g, hq, hbegin⟩

theorem begin_of_configured {i : ℕ} {inst : Instance} {profileDigest : String}
    {config : ControlConfig} {world : ConfigureWorld} (hrun : s.running = some (i, inst))
    (hnone : inst.smartAccessControl = none)
    (h : (s.configureSmartAccessRuntimeControl profileDigest config world).2 = .ok true) :
    ∃ q j g, world.directory = some q ∧
      (s.journals q).begin config.profileDigest config.catalogSHA256
        inst.smartAccessRestrictionExpires world.rand world.read world.write = (j, .ok g) := by
  unfold configureSmartAccessRuntimeControl at h
  split at h
  · cases h
  split at h
  · cases h
  rw [hrun] at h
  dsimp only at h
  split at h
  · cases h
  split at h
  · cases h
  · exact begin_of_enroll hnone h

/-- **An instance without a worker is enrolled on a clean record exactly when no worker of the
profile is live**, that is when every earlier one has run its deferred `finish`. -/
theorem fresh_enrollment_clean_iff_settled (crypto : Crypto) (disk : Path → Option (List Char))
    (s s' : Service) (hreach : (machine crypto).Reaches (init disk) s) (i : ℕ) (inst : Instance)
    (hrun : s.running = some (i, inst)) (hnone : inst.smartAccessControl = none)
    (profileDigest : String) (config : ControlConfig) (world : ConfigureWorld)
    (hstep : (machine crypto).step s (.configureControl profileDigest config world) =
      some (s', .answer (.ok true))) :
    ∃ q j, world.directory = some q ∧ (s.journals q).loadLocked world.read = some j ∧
      ((∀ r, Journal.lookup config.profileDigest j.records = some r →
          r.pending = false ∧ r.restricted = false) ↔
        (s.journals q).live config.profileDigest = none) := by
  have hanswer : (s.configureSmartAccessRuntimeControl profileDigest config world).2 = .ok true :=
    Output.answer.inj (Prod.mk.inj (Option.some.inj hstep)).2
  obtain ⟨q, j', g, hq, hbegin⟩ := begin_of_configured hrun hnone hanswer
  rcases Journal.begin_cases config.profileDigest config.catalogSHA256
    inst.smartAccessRestrictionExpires world.rand world.read world.write (s.journals q) with
    ⟨e, h⟩ | ⟨j, hload, ⟨e, h⟩ | ⟨g', disk', hfree, _, h⟩⟩
  · cases (Prod.mk.inj (hbegin.symm.trans h)).2
  · cases (Prod.mk.inj (hbegin.symm.trans h)).2
  obtain ⟨hchanges, _, _, hlive, _⟩ := Journal.loadLocked_changes hload
  refine ⟨q, j, hq, hload, fun hclean => ?_, fun hsettled r hr => ?_⟩
  · -- a live worker owns a pending record
    by_contra hworker
    obtain ⟨g₀, hg₀⟩ := Option.ne_none_iff_exists'.mp hworker
    rw [← hlive] at hg₀
    obtain ⟨r, hr, _, hpending⟩ := (hchanges.wf ((sound_of_reaches hreach).wf q)).owner hg₀
    rw [(hclean r hr).1] at hpending
    cases hpending
  · rw [← hlive] at hsettled
    exact ((Journal.refusal_eq_none hfree).2.2 r hr).1 hsettled

/-! ## A run -/

/-- A text of one hexadecimal digit. -/
def sampleHex (n : ℕ) (c : Char) (h : hexPattern n (String.ofList (List.replicate n c)) = true) :
    Hex n := ⟨String.ofList (List.replicate n c), h⟩

/-- A profile digest, two workers' generations and a nonce. -/
def sampleDigest : Digest := Ledger.sampleProfile
@[inherit_doc sampleDigest] def firstGeneration : Generation := Ledger.sampleGeneration
@[inherit_doc sampleDigest] def nextGeneration : Generation := sampleHex 32 'c' (by decide +kernel)
@[inherit_doc sampleDigest] def sampleNonce : Hex 32 := sampleHex 32 'd' (by decide +kernel)

/-- A cryptography under which every text has one digest and every signature holds. -/
def sampleCrypto : Crypto := ⟨fun _ => sampleDigest, fun _ _ _ => true⟩

def sampleDate (text : String) : Date := (Date.parse text).getD ⟨0, by decide⟩

/-- A worker for the first hour of 2026. -/
def sampleControl : ControlConfig where
  profileDigest := sampleDigest
  catalogSHA256 := none
  platform := .android
  audience := .lab
  apiBaseURL := "https://qa.pokrov.test"
  dnsResolver := ⟨"dns", by decide +kernel⟩
  capability := "pkr_src1.a.b"
  issuedAt := sampleDate "2026-01-01T00:00:00Z"
  expiresAt := sampleDate "2026-01-01T01:00:00Z"
  leaseKeysByID := SortedMap.empty.insert "key" "K"

/-- A profile with one outbound, of the sample lease. -/
def sampleProfile : Profile where
  routeRules := []
  dnsRules := []
  outbounds := [⟨sampleOptions, "00000000000000000000000000000000", "2026-01-01T00:00:00Z",
    "2026-01-01T00:05:00Z", "2026-01-01T00:10:00Z"⟩]

/-- Everything works, one second into 2026. -/
def sampleWorld (g : Generation) : ConfigureWorld :=
  ⟨sampleClock, sampleClock, sampleClock, sampleClock, false, true, some "journal", some g, true,
    true⟩

/-- A response with a control decision for a reason, of these dates and received then. -/
def sampleDecision (reason : Reason) (issued expires : String) (now : Sample) : Response where
  raw := (Json.obj [("schema", .str "smart-access-runtime-control-response-v1"),
    ("envelope", .obj [("algorithm", .str "Ed25519"), ("key_id", .str "key"),
      ("payload_sha256", .str sampleDigest.text),
      ("payload", .obj [("schema_version", .str "pokrov-smart-access-runtime-control-v1"),
        ("request_nonce", .str sampleNonce.text), ("device_binding", .str sampleDigest.text),
        ("profile_digest", .str sampleDigest.text), ("platform", .str "android"),
        ("audience", .str "lab"), ("action", .str (Vocabulary.text reason.expected)),
        ("reason", .str reason.text), ("issued_at", .str issued),
        ("expires_at", .str expires)]),
      ("signature_b64", .str (String.ofList (List.replicate 86 'A')))])]).render
  nonce := sampleNonce
  started := now
  now := now

/-- An instance starts. -/
def sampleStart : List Event :=
  [.reload sampleProfile true fun _ => sampleClock, .reloadStarted 0 true]

/-- …gets its first worker… -/
def sampleEnroll : List Event :=
  sampleStart ++ [.configureControl sampleDigest.text sampleControl (sampleWorld firstGeneration)]

/-- …which restricts it for a reason… -/
def sampleRestrict (reason : Reason) : List Event :=
  sampleEnroll ++ [.loop 0 sampleClock sampleClock false,
    .poll 0 (some (sampleDecision reason "2026-01-01T00:00:01Z" "2026-01-01T00:00:31Z" sampleClock)),
    .applyControl 0 ⟨sampleClock, sampleClock, sampleClock, sampleClock⟩ false true]

/-- …and ends with it, up to its deferred `finish`, while a new instance starts. -/
def sampleRestart : List Event :=
  sampleRestrict .accessDenied ++ [.closeService none, .nextRenewal 0 [] sampleClock false,
    .wait 0 false, .reload sampleProfile true fun _ => sampleClock, .reloadStarted 1 true]

/-- A worker for the new instance. -/
def sampleAgain : Event :=
  .configureControl sampleDigest.text sampleControl (sampleWorld nextGeneration)

/-- What the call for the new instance meets and answers: the worker of the instance, the record in
the journal, and the answers before and after the old worker's `finish`. -/
def sampleAnswers (s : Service) :
    Option (Option ℕ) × Option (Bool × PolicyAction) × Option Output × Option Output :=
  (s.running.map fun r => r.2.smartAccessControl,
    (Journal.lookup sampleDigest (s.journals "journal").records).map fun r =>
      (r.pending, r.policyAction),
    (s.step sampleCrypto sampleAgain).map Prod.snd,
    (s.step sampleCrypto (.finish 0 true)).bind fun r =>
      (r.1.step sampleCrypto sampleAgain).map Prod.snd)

/-- The decision of the response. -/
def sampleDenied : Decision :=
  ⟨.accessDenied, sampleDate "2026-01-01T00:00:31Z",
    sampleClock.deadline (sampleDate "2026-01-01T00:00:31Z")⟩

/-- Where a worker stands, and what its responses are checked against. -/
def standing (w : Worker) : WorkerPc × ControlConfig × Sample :=
  (w.pc, w.config, w.deadline)

def sampleStanding : ControlConfig × Sample :=
  (sampleControl, sampleClock.deadline sampleControl.expiresAt)

section Responses

variable {s₀ : Service} {k : ℕ} {c : ControlConfig × Sample} {r : Response}

theorem reaches_poll {d : Decision} (hreach : (machine crypto).Reaches s₀ s)
    (hk : s.workers[k]?.map standing = some (.polling, c))
    (hfits : Json.byteLength r.raw ≤ runtimeControlLimit)
    (hd : verify crypto c.1 c.2 r.raw r.nonce r.started r.now = some d) :
    (machine crypto).Reaches s₀ (s.goto k (.deciding d)) := by
  obtain ⟨w, hworker, hw⟩ := Option.map_eq_some_iff.mp hk
  obtain ⟨hpc, rfl⟩ := Prod.mk.inj hw
  refine hreach.snoc (e := .poll k (some r)) (o := .none) trivial ?_
  simp only [machine, step, hworker, Option.bind_some, stepWorker, if_pos hpc, decide?,
    if_pos hfits, hd, Option.elim_some]

theorem reaches_pollRenewal {a : Attempt} {d : RenewalDecision}
    (hreach : (machine crypto).Reaches s₀ s)
    (hk : s.workers[k]?.map standing = some (.renewing a, c))
    (hfits : Json.byteLength r.raw ≤ runtimeControlLimit)
    (hd : verifyRenewal crypto c.1 c.2 r.raw r.nonce a r.started r.now = some d) :
    (machine crypto).Reaches s₀ (s.goto k (.adopting a d)) := by
  obtain ⟨w, hworker, hw⟩ := Option.map_eq_some_iff.mp hk
  obtain ⟨hpc, rfl⟩ := Prod.mk.inj hw
  refine hreach.snoc (e := .pollRenewal k (some r)) (o := .none) trivial ?_
  simp only [machine, step, hworker, Option.bind_some, stepWorker, hpc, decideRenewal?,
    if_pos hfits, hd, Option.elim_some]

end Responses

/-- The run to the denial, evaluated around the response, which the round trip reads. -/
theorem reaches_denied :
    ∃ s, (machine sampleCrypto).run (init fun _ => none) (sampleRestart.take 4) = some s ∧
      (machine sampleCrypto).Reaches (init fun _ => none) (s.goto 0 (.deciding sampleDenied)) := by
  have hpoll : ((machine sampleCrypto).run (init fun _ => none) (sampleRestart.take 4)).bind
      (fun s => s.workers[0]?.map standing) = some (.polling, sampleStanding) := by decide +kernel
  obtain ⟨s, hs, hpoll⟩ := Option.bind_eq_some_iff.mp hpoll
  refine ⟨s, hs, reaches_poll (r := sampleDecision .accessDenied "2026-01-01T00:00:01Z"
    "2026-01-01T00:00:31Z" sampleClock) (Machine.reaches_run hs) hpoll (by decide +kernel) ?_⟩
  unfold verify readEnvelope
  rw [show Json.parse (sampleDecision ..).raw = _ from Json.parse_render (by decide +kernel)]
  decide +kernel

/-- **A restriction is overlooked**: the instance has no worker, the record of the profile is
pending and restricted, and the call succeeds; it fails once the old worker has run its `finish`. -/
theorem enrolled_over_restriction :
    ∃ s, (machine sampleCrypto).Reaches (init fun _ => none) s ∧
      (∃ i inst, s.running = some (i, inst) ∧ inst.smartAccessControl = none) ∧
      (∃ r, Journal.lookup sampleDigest (s.journals "journal").records = some r ∧
        r.pending = true ∧ r.policyAction = .terminate) ∧
      (∃ s', (machine sampleCrypto).step s sampleAgain = some (s', .answer (.ok true))) ∧
      ∃ t t', (machine sampleCrypto).step s (.finish 0 true) = some (t, .none) ∧
        (machine sampleCrypto).step t sampleAgain =
          some (t', .answer (.error (.journal .recoveryRequired))) := by
  have hrun : (((machine sampleCrypto).run (init fun _ => none) (sampleRestart.take 4)).bind
      fun s => (machine sampleCrypto).run (s.goto 0 (.deciding sampleDenied))
        (sampleRestart.drop 5)).map sampleAnswers =
      some (some none, some (true, .terminate), some (.answer (.ok true)),
        some (.answer (.error (.journal .recoveryRequired)))) := by decide +kernel
  obtain ⟨s₁, hs₁, hreach₁⟩ := reaches_denied
  rw [hs₁] at hrun
  obtain ⟨s, hs, hval⟩ := Option.map_eq_some_iff.mp hrun
  have hreach := hreach₁.trans (Machine.reaches_run hs)
  obtain ⟨hcontrol, hval⟩ := Prod.mk.inj hval
  obtain ⟨hrecord, hval⟩ := Prod.mk.inj hval
  obtain ⟨hbefore, hafter⟩ := Prod.mk.inj hval
  obtain ⟨⟨i, inst⟩, hinst, hnone⟩ := Option.map_eq_some_iff.mp hcontrol
  obtain ⟨r, hr, hpair⟩ := Option.map_eq_some_iff.mp hrecord
  obtain ⟨hpending, hpolicy⟩ := Prod.mk.inj hpair
  obtain ⟨⟨s', o⟩, hs', rfl⟩ := Option.map_eq_some_iff.mp hbefore
  obtain ⟨⟨t, o⟩, ht, hafter⟩ := Option.bind_eq_some_iff.mp hafter
  obtain ⟨⟨t', o'⟩, ht', rfl⟩ := Option.map_eq_some_iff.mp hafter
  refine ⟨s, hreach, ⟨i, inst, hinst, hnone⟩, ⟨r, hr, hpending, hpolicy⟩, ⟨s', hs'⟩, t, t', ?_,
    ht'⟩
  have ho : o = .none := by
    obtain ⟨w, _, h⟩ := Option.bind_eq_some_iff.mp ht
    obtain ⟨_, h⟩ := Option.ite_none_right_eq_some.mp h
    exact (Prod.mk.inj (Option.some.inj h)).2.symm
  rw [← ho]
  exact ht

theorem fresh_enrollment_clean_iff_settled_sample :
    ∃ s s' i inst, (machine sampleCrypto).Reaches (init fun _ => none) s ∧
      s.running = some (i, inst) ∧ inst.smartAccessControl = none ∧
      (machine sampleCrypto).step s
        (.configureControl sampleDigest.text sampleControl (sampleWorld firstGeneration)) =
        some (s', .answer (.ok true)) ∧
      ∃ q j, (sampleWorld firstGeneration).directory = some q ∧
        (s.journals q).loadLocked (sampleWorld firstGeneration).read = some j ∧
        ((∀ r, Journal.lookup sampleControl.profileDigest j.records = some r →
            r.pending = false ∧ r.restricted = false) ↔
          (s.journals q).live sampleControl.profileDigest = none) := by
  have hrun : ((machine sampleCrypto).run (init fun _ => none) sampleStart).map (fun s =>
      (s.running.map fun r => r.2.smartAccessControl,
        (s.step sampleCrypto (.configureControl sampleDigest.text sampleControl
          (sampleWorld firstGeneration))).map Prod.snd)) =
      some (some none, some (.answer (.ok true))) := by decide +kernel
  obtain ⟨s, hs, hval⟩ := Option.map_eq_some_iff.mp hrun
  obtain ⟨hcontrol, hanswer⟩ := Prod.mk.inj hval
  obtain ⟨⟨i, inst⟩, hinst, hnone⟩ := Option.map_eq_some_iff.mp hcontrol
  obtain ⟨⟨s', o⟩, hs', rfl⟩ := Option.map_eq_some_iff.mp hanswer
  have hreach := Machine.reaches_run hs
  exact ⟨s, s', i, inst, hreach, hinst, hnone, hs',
    fresh_enrollment_clean_iff_settled sampleCrypto _ s s' hreach i inst hinst hnone _ _ _ hs'⟩

end Service

end PokrovCore.Daemon
