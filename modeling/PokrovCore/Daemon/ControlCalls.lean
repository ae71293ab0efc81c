import PokrovCore.Daemon.Service

/-!
# Daemon/ControlCalls — control workers, and the revocations of the host

`configureSmartAccessRuntimeControl` registers a worker with the running instance once the journal
has its pending record; the worker then applies each verified decision to the box and to the journal
in one critical section.
-/

namespace PokrovCore.Daemon

open SmartAccess (World)

namespace Service

/-! ## Registering a worker -/

/-- The checks on a configuration that depend on the clock, and the deadline it gets. -/
def parseSmartAccessRuntimeControl (config : ControlConfig) (now : Sample) : Option Sample :=
  if now.beforeDate config.issuedAt || !now.beforeDate config.expiresAt ||
      !config.issuedAt.toTime.before config.expiresAt.toTime ||
      decide (config.leaseKeysByID.size = 0) then none
  else some (now.deadline config.expiresAt)

/-- What a configuration call takes from outside: its clock samples, whether the previous worker's
deadline fired, whether a protected transport could be made, the directory of the journal, and what
`begin` is given. -/
structure ConfigureWorld where
  parse : Sample
  now : Sample
  retryDeadline : Sample
  retryExpires : Sample
  fired : Bool
  transport : Bool
  directory : Option Path
  rand : Option Generation
  read : Bool
  write : Bool

/-- The worker registered with an instance. -/
def control (s : Service) (inst : Instance) : Option (ℕ × Worker) :=
  inst.smartAccessControl.bind fun k => s.workers[k]?.map fun w => (k, w)

/-- What the previous worker answers for the new configuration: a conflict, or that the call is an
exact retry; otherwise the new one may replace it. -/
def previousAnswer (s : Service) (previous : Worker) (config : ControlConfig)
    (world : ConfigureWorld) : Option (Except ServiceError Bool) :=
  if previous.config.profileDigest ≠ config.profileDigest ∨
      previous.config.platform ≠ config.platform ∨ previous.config.audience ≠ config.audience ∨
      config.issuedAt.toTime.before previous.config.issuedAt.toTime = true then
    some (.error .controlConflict)
  else if previous.config.capability = config.capability then
    if previous.config ≠ config ∨ s.ctxDone previous world.fired = true ∨
        world.retryDeadline.before previous.deadline = false ∨
        world.retryExpires.beforeDate previous.config.expiresAt = false then
      some (.error .controlConflict)
    else some (.ok true)
  else none

/-- Is an enrollment past its own credential? -/
def lapsed (s : Service) (now : Sample) (e : ℕ) : Bool :=
  s.enrollments[e]?.elim true fun r =>
    !now.beforeDate r.config.expiresAt || !now.before r.deadline

/-- The enrollments the new worker takes over from the previous one: none if that one is done, else
those that are neither lapsed nor outlast the new credential. -/
def inherited (s : Service) (previous : Option (ℕ × Worker)) (config : ControlConfig)
    (world : ConfigureWorld) : SortedMap Digest ℕ :=
  match previous with
  | none => SortedMap.empty
  | some (_, w) =>
    if s.ctxDone w world.fired || !world.now.beforeDate w.config.expiresAt ||
        !world.now.before w.deadline then SortedMap.empty
    else w.renewals.filter fun _ e => !s.lapsed world.now e &&
      s.enrollments[e]?.elim false fun r =>
        !r.config.expiresAt.toTime.after config.expiresAt.toTime

/-- The worker a configuration makes. -/
def newWorker (s : Service) (i : ℕ) (previous : Option (ℕ × Worker)) (config : ControlConfig)
    (deadline : Sample) (world : ConfigureWorld) (q : Path) (g : Generation) (j : Journal) :
    Worker where
  config := config
  deadline := deadline
  box := i
  journal := q
  journalGeneration := g
  renewals := s.inherited previous config world
  cancelled := false
  pc := .head
  entered := Journal.lookup config.profileDigest j.records
  effects := []

/-- The service with a new worker in the place of the previous one. -/
def register (s : Service) (i : ℕ) (previous : Option (ℕ × Worker)) (w : Worker) (j : Journal) :
    Service :=
  let cancelled := previous.elim s fun p => s.modifyWorker p.1 ({ · with cancelled := true })
  { (cancelled.putJournal w.journal j).modifyInstance i
      ({ · with smartAccessControl := some s.workers.length }) with
    workers := cancelled.workers ++ [w] }

/-- The part of `configureSmartAccessRuntimeControl` for an instance that may have a worker. -/
def enroll (s : Service) (i : ℕ) (inst : Instance) (config : ControlConfig) (deadline : Sample)
    (world : ConfigureWorld) : Service × Except ServiceError Bool :=
  match (s.control inst).bind fun p => s.previousAnswer p.2 config world with
  | some answer => (s, answer)
  | none =>
    if !world.transport then (s, .error .controlTransportUnavailable)
    else
      match world.directory with
      | none => (s, .error (.journal .storageUnavailable))
      | some q =>
        match (s.journals q).begin config.profileDigest config.catalogSHA256
            inst.smartAccessRestrictionExpires world.rand world.read world.write with
        | (j, .error e) => (s.putJournal q j, .error (.journal e))
        | (j, .ok g) =>
          (s.register i (s.control inst)
            (s.newWorker i (s.control inst) config deadline world q g j) j, .ok true)

/-- **`ConfigureSmartAccessRuntimeControl`.** -/
def configureSmartAccessRuntimeControl (s : Service) (profileDigest : String)
    (config : ControlConfig) (world : ConfigureWorld) : Service × Except ServiceError Bool :=
  match parseSmartAccessRuntimeControl config world.parse with
  | none => (s, .error .controlInvalid)
  | some deadline =>
    if config.profileDigest.text ≠ profileDigest then (s, .error .controlConflict)
    else
      match s.running with
      | none => (s, .error .runtimeUnavailable)
      | some (i, inst) =>
        if world.now.beforeDate config.issuedAt || !world.now.beforeDate config.expiresAt ||
            !world.now.before deadline then (s, .error .controlExpired)
        -- an ordinary profile has no authority to recover, and gets no pending marker
        else if (expiryTime inst.smartAccessRestrictionExpires).isZero ||
            !(Time.ofSample world.now).before (expiryTime inst.smartAccessRestrictionExpires) then
          (s, .ok false)
        else s.enroll i inst config deadline world

/-! ## Applying a decision -/

/-- The samples one application of a decision takes. -/
structure ControlClock where
  deadline : Sample
  expires : Sample
  decisionExpires : Sample
  decisionDeadline : Sample

/-- What a restriction for a reason does to the box. -/
def controlEffects (reason : Reason) : List Effect :=
  (if reason = .catalogDisabled ∨ reason = .accessDenied then [.revokeRoutingCatalog] else []) ++
    [.revoke (decide (reason ≠ .issuanceDisabled))]

/-- A worker does something to its box. -/
def performAll (s : Service) (k i : ℕ) (effects : List Effect) : Service :=
  (s.modifyInstance i fun inst => effects.foldl Instance.perform inst).modifyWorker k
    fun w => { w with effects := w.effects ++ effects }

/-- May a decision be applied by this worker now? -/
def mayApply (s : Service) (k : ℕ) (w : Worker) (decision : Decision) (clock : ControlClock)
    (fired : Bool) : Bool :=
  !s.ctxDone w fired && (s.registered k w).isSome && clock.deadline.before w.deadline &&
    clock.expires.beforeDate w.config.expiresAt &&
    clock.decisionExpires.beforeDate decision.expires &&
    clock.decisionDeadline.before decision.deadline

/-- **`applySmartAccessRuntimeControl`.** -/
def applySmartAccessRuntimeControl (s : Service) (k : ℕ) (w : Worker) (decision : Decision)
    (clock : ControlClock) (fired write : Bool) : Service :=
  if s.mayApply k w decision clock fired && decide (decision.reason ≠ .current) then
    (s.performAll k w.box (controlEffects decision.reason)).putJournal w.journal
      ((s.journals w.journal).restrict w.config.profileDigest w.journalGeneration decision.reason
        write)
  else s

/-! ## Revocations by the host -/

/-- **`RevokeSmartAccessPolicy`**, and whether there was a lease to revoke. -/
def revokeSmartAccessPolicy (s : Service) (terminate : Bool) : Service × Except ServiceError Bool :=
  match s.running with
  | none => (s, .error .runtimeUnavailable)
  | some (i, inst) => (s.modifyInstance i (Instance.revoke · terminate), .ok !inst.leases.isEmpty)

/-- **`RevokeSmartAccessLease`**, and whether the grant was known. -/
def revokeSmartAccessLease (s : Service) (leaseID : String) (terminate : Bool) :
    Service × Except ServiceError Bool :=
  if SmartAccess.leaseIDPattern leaseID then
    match s.running with
    | none => (s, .error .runtimeUnavailable)
    | some (i, inst) =>
      (s.modifyInstance i (Instance.revokeLease · leaseID terminate),
        .ok (inst.leases.any fun w => (w.outbound.revokeLease leaseID terminate).2.isSome))
  else (s, .error .leaseInvalid)

end Service

end PokrovCore.Daemon
