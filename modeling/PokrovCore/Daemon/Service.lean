import PokrovCore.Daemon.Decision
import PokrovCore.Daemon.Profile

/-!
# Daemon/Service — the started service, its instances, workers and enrollments

Instances, control workers and renewal enrollments are objects with identity; each kind lives in a
list and is addressed by its place there, old ones included.  Every function here is one critical
section of `serviceAccess`, with the clock samples it takes and what the outside world answers as
arguments.  A section that holds the lock shared works on the outbounds and on the journal, which no
other holder reads through it, so it too is one function.

A context is done when its owner cancelled it, or its instance was closed, or its deadline fired;
the last is an answer of the outside world, `fired`.
-/

namespace PokrovCore.Daemon

open SmartAccess (World Outbound Grant RenewClock RenewOutcome)

/-! ## State -/

/-- The status of a service. -/
inductive Status
  | idle | starting | started | stopping | fatal
  deriving DecidableEq, Repr

/-- The file of a journal. -/
abbrev Path := String

/-- The errors of the service's calls. -/
inductive ServiceError
  | closed | invalid | runtimeUnavailable | controlInvalid | controlConflict | controlExpired
  | controlTransportUnavailable | renewalInvalid | renewalConflict | renewalFull | leaseInvalid
  | journal (e : JournalError)
  | box (message : String)
  deriving DecidableEq, Repr

def ServiceError.text : ServiceError → String
  | .closed => "file already closed"
  | .invalid => "invalid argument"
  | .runtimeUnavailable => "smart_access_runtime_unavailable"
  | .controlInvalid => "smart_access_runtime_control_invalid"
  | .controlConflict => "smart_access_runtime_control_conflict"
  | .controlExpired => "smart_access_runtime_control_expired"
  | .controlTransportUnavailable => "smart_access_runtime_control_transport_unavailable"
  | .renewalInvalid => "smart_access_runtime_renewal_invalid"
  | .renewalConflict => "smart_access_runtime_renewal_conflict"
  | .renewalFull => "smart_access_runtime_renewal_full"
  | .leaseInvalid => "smart_access_lease_invalid"
  | .journal e => e.text
  | .box message => message

/-- An instance: the profile it runs, its Smart Access outbounds, its registered worker and the
bound of its recovery. -/
structure Instance where
  profile : Profile
  leases : List World
  smartAccessControl : Option ℕ
  smartAccessRestrictionExpires : Option Date
  catalogRevoked : Bool
  cancelled : Bool

/-- What a worker does to the running box. -/
inductive Effect
  | revokeRoutingCatalog
  | revoke (terminate : Bool)
  | revokeScope (scope : Digest) (target : ℕ) (action : ScopeAction)
  deriving DecidableEq, Repr

/-- Where a worker stands. -/
inductive WorkerPc
  | head
  | polling
  | deciding (decision : Decision)
  | selecting (decision : Decision)
  | renewing (attempt : Attempt)
  | adopting (attempt : Attempt) (decision : RenewalDecision)
  | waiting
  | ended
  | finished
  deriving DecidableEq

/-- A control worker.  `entered` is the record it began with, and `effects` what it has done to the
box since, the latest last. -/
structure Worker where
  config : ControlConfig
  deadline : Sample
  box : ℕ
  journal : Path
  journalGeneration : Generation
  renewals : SortedMap Digest ℕ
  cancelled : Bool
  pc : WorkerPc
  entered : Option Record
  effects : List Effect

/-- The configuration of a renewal enrollment, its fields checked. -/
structure RenewalConfig where
  profileDigest : Digest
  capability : String
  issuedAt : Date
  expiresAt : Date
  lease : LeaseIdentity
  deriving DecidableEq

/-- A renewal enrollment and the lease it has got to. -/
structure Enrollment where
  config : RenewalConfig
  current : LeaseIdentity
  lastAttempt : Time
  deadline : Sample
  size : ℕ

/-- Where a start or reload stands between its critical sections. -/
inductive ReloadPc
  | closing (old : ℕ) (profile : Profile)
  | building (profile : Profile)
  | starting (new : ℕ)
  | returned

/-- **The service.**  `current` is its instance. -/
structure Service where
  closed : Bool
  status : Status
  current : Option ℕ
  instances : List Instance
  workers : List Worker
  enrollments : List Enrollment
  reloads : List ReloadPc
  journals : Path → Journal

namespace Instance

/-- Closing an instance cancels its context and closes its outbounds. -/
def close (i : Instance) : Instance :=
  { i with cancelled := true, leases := i.leases.map fun w => w.put w.outbound.close.1 }

/-- Revoke every lease. -/
def revoke (i : Instance) (terminate : Bool) : Instance :=
  { i with leases := i.leases.map fun w => w.put (w.outbound.revoke terminate).1 }

/-- Revoke one grant, wherever it is known. -/
def revokeLease (i : Instance) (leaseID : String) (terminate : Bool) : Instance :=
  { i with leases := i.leases.map fun w => w.put (w.outbound.revokeLease leaseID terminate).1 }

/-- **What an effect does to the box.** -/
def perform (i : Instance) : Effect → Instance
  | .revokeRoutingCatalog => { i with catalogRevoked := true }
  | .revoke terminate => i.revoke terminate
  | .revokeScope _ target action =>
    { i with leases := i.leases.modify target fun w =>
        w.put (w.outbound.revoke (decide (action = .terminate))).1 }

end Instance

namespace Service

/-- A service not yet started, over the files an earlier process left. -/
def init (disk : Path → Option (List Char)) : Service where
  closed := false
  status := .idle
  current := none
  instances := []
  workers := []
  enrollments := []
  reloads := []
  journals q := Journal.fresh (disk q)

/-! ### Changing one object -/

def modifyInstance (s : Service) (i : ℕ) (f : Instance → Instance) : Service :=
  { s with instances := s.instances.modify i f }

def modifyWorker (s : Service) (k : ℕ) (f : Worker → Worker) : Service :=
  { s with workers := s.workers.modify k f }

def modifyEnrollment (s : Service) (e : ℕ) (f : Enrollment → Enrollment) : Service :=
  { s with enrollments := s.enrollments.modify e f }

def putJournal (s : Service) (q : Path) (j : Journal) : Service :=
  { s with journals := Function.update s.journals q j }

/-- A worker moves on. -/
def goto (s : Service) (k : ℕ) (pc : WorkerPc) : Service := s.modifyWorker k ({ · with pc })

/-! ### What the calls check first -/

/-- The instance of a started service. -/
def running (s : Service) : Option (ℕ × Instance) :=
  if s.closed || decide (s.status ≠ .started) then none
  else s.current.bind fun i => s.instances[i]?.map fun inst => (i, inst)

/-- Is the context of a worker done? -/
def ctxDone (s : Service) (w : Worker) (fired : Bool) : Bool :=
  fired || w.cancelled || s.instances[w.box]?.elim true Instance.cancelled

/-- The instance a worker is registered with, if that is the running one. -/
def registered (s : Service) (k : ℕ) (w : Worker) : Option Instance :=
  s.running.bind fun r =>
    if r.1 = w.box ∧ r.2.smartAccessControl = some k then some r.2 else none

/-! ## Starting and stopping -/

/-- The instance of a profile and its outbounds. -/
def newInstance (profile : Profile) (leases : List World) : Instance where
  profile := profile
  leases := leases
  smartAccessControl := none
  smartAccessRestrictionExpires := smartAccessProfileRestrictionExpiry profile
  catalogRevoked := false
  cancelled := false

/-- Build an instance and make it the current one, or fail. -/
def build (s : Service) (profile : Profile) (built : Bool) (clock : ℕ → Sample) :
    Service × ReloadPc :=
  match if built then buildOutbounds clock 0 profile.outbounds else none with
  | none => ({ s with status := .fatal }, .returned)
  | some leases =>
    ({ s with
        status := .starting
        instances := s.instances ++ [newInstance profile leases]
        current := some s.instances.length },
      .starting s.instances.length)

/-- **The first section of a start or reload.**  Without an old instance it goes on to build. -/
def reload (s : Service) (profile : Profile) (built : Bool) (clock : ℕ → Sample) :
    Service × Except ServiceError Unit :=
  if s.closed then (s, .error .closed)
  else if s.status = .stopping ∨ s.status = .fatal then (s, .error .invalid)
  else
    match s.current with
    | some i =>
      ({ s with status := .stopping, reloads := s.reloads ++ [.closing i profile] }, .ok ())
    | none =>
      let r := s.build profile built clock
      ({ r.1 with reloads := s.reloads ++ [r.2] }, .ok ())

/-- …the old instance is closed, outside the lock… -/
def reloadClose (s : Service) (c old : ℕ) (profile : Profile) : Service :=
  { s.modifyInstance old Instance.close with reloads := s.reloads.set c (.building profile) }

/-- …the second section builds the new one… -/
def reloadBuild (s : Service) (c : ℕ) (profile : Profile) (built : Bool) (clock : ℕ → Sample) :
    Service :=
  if s.closed then { s with reloads := s.reloads.set c .returned }
  else
    let r := s.build profile built clock
    { r.1 with reloads := s.reloads.set c r.2 }

/-- …and the third one hears how its start, again outside the lock, ended. -/
def reloadStarted (s : Service) (c : ℕ) (ok : Bool) : Service :=
  let s := { s with reloads := s.reloads.set c .returned }
  if s.closed || decide (s.status ≠ .starting) then s
  else { s with status := if ok then .started else .fatal }

/-- Stop the running instance; the service can be started again unless its box fails to close. -/
def closeService (s : Service) (failure : Option String) : Service × Except ServiceError Unit :=
  if s.status = .starting ∨ s.status = .started then
    match s.current with
    | none => ({ s with status := .idle }, .ok ())
    | some i =>
      let s := s.modifyInstance i Instance.close
      match failure with
      | none => ({ s with status := .idle, current := none }, .ok ())
      | some message => ({ s with status := .fatal }, .error (.box message))
  else (s, .error .invalid)

/-- Close the service for good. -/
def close (s : Service) : Service :=
  if s.closed then s
  else
    let s := s.current.elim s fun i => s.modifyInstance i Instance.close
    { s with closed := true, status := .idle, current := none }

/-- Report an error from outside. -/
def setError (s : Service) : Service := { s with status := .fatal }

end Service

end PokrovCore.Daemon
