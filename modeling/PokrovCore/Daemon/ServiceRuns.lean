import PokrovCore.Daemon.RenewalCalls

/-!
# Daemon/ServiceRuns — every interleaving of the service with its workers and its traffic

One event runs one critical section of `serviceAccess` or of a journal, one step of a worker between
two sections, or one section of an outbound.  The outbounds of an instance take part with all their
own events: only renewals and closing are left to the service, since nothing else calls them.  A
revocation of one outbound is among these events, as the rules of a withdrawn service make one.

The runs start from a service that has not been started yet, over any files.
-/

namespace PokrovCore.Daemon

open SmartAccess (World Grant RenewClock RenewOutcome)

/-- An answer of the control plane: what was received for a nonce, and when it was asked for and
received. -/
structure Response where
  raw : List Char
  nonce : Hex 32
  started : Sample
  now : Sample

/-- One critical section, or one step between two of them. -/
inductive Event
  | reload (profile : Profile) (built : Bool) (clock : ℕ → Sample)
  | reloadClose (c : ℕ)
  | reloadBuild (c : ℕ) (built : Bool) (clock : ℕ → Sample)
  | reloadStarted (c : ℕ) (ok : Bool)
  | closeService (failure : Option String)
  | close
  | setError
  | traffic (i n : ℕ) (e : SmartAccess.Event)
  | revokeRoutingCatalog
  | revokeSmartAccessPolicy (terminate : Bool)
  | revokeSmartAccessLease (leaseID : String) (terminate : Bool)
  | renewSmartAccessLease (expectedID : String) (grant : Grant) (clock : ℕ → RenewClock)
    (write : Bool)
  | configureControl (profileDigest : String) (config : ControlConfig)
    (world : Service.ConfigureWorld)
  | configureRenewal (profileDigest : String) (config : RenewalConfig) (world : Service.EnrollWorld)
  | loop (k : ℕ) (expires deadline : Sample) (fired : Bool)
  | poll (k : ℕ) (response : Option Response)
  | applyControl (k : ℕ) (clock : Service.ControlClock) (fired write : Bool)
  | nextRenewal (k : ℕ) (order : List Digest) (now : Sample) (fired : Bool)
  | pollRenewal (k : ℕ) (response : Option Response)
  | applyRenewal (k : ℕ) (world : Service.ApplyWorld)
  | wait (k : ℕ) (fired : Bool)
  | finish (k : ℕ) (write : Bool)
  | readRestrictions (q : Path) (read write : Bool)
  | acknowledge (q : Path) (snapshotSHA256 : String) (read write again : Bool)

/-- Can the journal of a renewal or a restriction be written? -/
def Event.write : Event → Bool
  | .renewSmartAccessLease _ _ _ write | .applyControl _ _ _ write => write
  | .applyRenewal _ world => world.write
  | _ => true

/-- What an event returns to whoever called. -/
inductive Output
  | none
  | started (r : Except ServiceError Unit)
  | answer (r : Except ServiceError Bool)
  | renewal (r : Except ServiceError RenewOutcome)
  | applied (renewed : Bool)
  | snapshot (r : Except JournalError (List Char × Digest))
  | acknowledged (r : Except JournalError Bool)
  deriving DecidableEq

/-- The events of an outbound that do not come from the service. -/
def isTraffic : SmartAccess.Event → Bool
  | .renewLease .. | .close => false
  | _ => true

namespace Service

variable (crypto : Crypto)

/-- An outbound of an instance makes one of its own steps. -/
def stepTraffic (s : Service) (i n : ℕ) (e : SmartAccess.Event) : Option (Service × Output) := do
  let inst ← s.instances[i]?
  let w ← inst.leases[n]?
  let r ← w.step e
  if isTraffic e then some (s.modifyInstance i (putLease n r.1), .none) else none

/-- Withdraw the whole catalog, with every lease.  The answer also depends on outbounds of other
kinds, and is left open. -/
def revokeRoutingCatalog (s : Service) : Service :=
  s.running.elim s fun r =>
    s.modifyInstance r.1 fun inst => (inst.perform .revokeRoutingCatalog).revoke true

/-- The decision in a response, if it has a good one. -/
def decide? (w : Worker) (r : Response) : Option Decision :=
  if Json.byteLength r.raw ≤ runtimeControlLimit then
    verify crypto w.config w.deadline r.raw r.nonce r.started r.now
  else none

/-- The renewal decision in a response, if it has a good one. -/
def decideRenewal? (w : Worker) (a : Attempt) (r : Response) : Option RenewalDecision :=
  if Json.byteLength r.raw ≤ runtimeControlLimit then
    verifyRenewal crypto w.config w.deadline r.raw r.nonce a r.started r.now
  else none

/-- One step of a worker. -/
def stepWorker (s : Service) (k : ℕ) (w : Worker) : Event → Option (Service × Output)
  | .loop _ expires deadline fired =>
    if w.pc = .head then
      some (s.goto k (if !s.ctxDone w fired && expires.beforeDate w.config.expiresAt &&
        deadline.before w.deadline then .polling else .ended), .none)
    else none
  | .poll _ response =>
    if w.pc = .polling then
      some (s.goto k ((response.bind (decide? crypto w)).elim .waiting .deciding), .none)
    else none
  | .applyControl _ clock fired write =>
    match w.pc with
    | .deciding d =>
      some ((s.applySmartAccessRuntimeControl k w d clock fired write).goto k (.selecting d), .none)
    | _ => none
  | .nextRenewal _ order now fired =>
    match w.pc with
    | .selecting d =>
      if order.Perm (w.renewals.entries.map Prod.fst) then
        let r := s.nextSmartAccessRuntimeRenewal k w d order now fired
        some (r.1.goto k (r.2.elim .waiting .renewing), .none)
      else none
    | _ => none
  | .pollRenewal _ response =>
    match w.pc with
    | .renewing a =>
      some (s.goto k ((response.bind (decideRenewal? crypto w a)).elim .waiting (.adopting a)),
        .none)
    | _ => none
  | .applyRenewal _ world =>
    match w.pc with
    | .adopting a d =>
      let r := s.applySmartAccessRuntimeRenewal k w a d world
      some (r.1.goto k .waiting, .applied r.2)
    | _ => none
  | .wait _ fired =>
    if w.pc = .waiting then
      some (s.goto k (if s.ctxDone w fired then .ended else .head), .none)
    else none
  | .finish _ write =>
    if w.pc = .ended then
      some ((s.modifyWorker k ({ · with cancelled := true, pc := .finished })).putJournal w.journal
        ((s.journals w.journal).finish w.config.profileDigest w.journalGeneration write), .none)
    else none
  | _ => none

/-- **One event.**  An event whose program does not stand where it applies is not enabled. -/
def step (s : Service) : Event → Option (Service × Output)
  | .reload profile built clock =>
    let r := s.reload profile built clock
    some (r.1, .started r.2)
  | .reloadClose c =>
    match s.reloads[c]? with
    | some (.closing old profile) => some (s.reloadClose c old profile, .none)
    | _ => none
  | .reloadBuild c built clock =>
    match s.reloads[c]? with
    | some (.building profile) => some (s.reloadBuild c profile built clock, .none)
    | _ => none
  | .reloadStarted c ok =>
    match s.reloads[c]? with
    | some (.starting _) => some (s.reloadStarted c ok, .none)
    | _ => none
  | .closeService failure =>
    let r := s.closeService failure
    some (r.1, .started r.2)
  | .close => some (s.close, .none)
  | .setError => some (s.setError, .none)
  | .traffic i n e => s.stepTraffic i n e
  | .revokeRoutingCatalog => some (s.revokeRoutingCatalog, .none)
  | .revokeSmartAccessPolicy terminate =>
    let r := s.revokeSmartAccessPolicy terminate
    some (r.1, .answer r.2)
  | .revokeSmartAccessLease leaseID terminate =>
    let r := s.revokeSmartAccessLease leaseID terminate
    some (r.1, .answer r.2)
  | .renewSmartAccessLease expectedID grant clock write =>
    let r := s.renewSmartAccessLease expectedID grant clock write
    some (r.1, .renewal r.2)
  | .configureControl profileDigest config world =>
    let r := s.configureSmartAccessRuntimeControl profileDigest config world
    some (r.1, .answer r.2)
  | .configureRenewal profileDigest config world =>
    let r := s.configureSmartAccessRenewal profileDigest config world
    some (r.1, .answer r.2)
  | .readRestrictions q read write =>
    let r := (s.journals q).snapshotLocked crypto.sha256 read write
    some (s.putJournal q r.1, .snapshot r.2)
  | .acknowledge q snapshotSHA256 read write again =>
    let r := (s.journals q).acknowledge crypto.sha256 snapshotSHA256 read write again
    some (s.putJournal q r.1, .acknowledged r.2)
  | e@(.loop k ..) | e@(.poll k _) | e@(.applyControl k ..) | e@(.nextRenewal k ..)
  | e@(.pollRenewal k _) | e@(.applyRenewal k _) | e@(.wait k _) | e@(.finish k _) =>
    s.workers[k]?.bind fun w => s.stepWorker crypto k w e

/-- **The machine of the service.** -/
def machine : Machine Service Event Output where
  step := step crypto

end Service

end PokrovCore.Daemon
