import PokrovCore.SmartAccess.Outbound

/-!
# SmartAccess/ServiceGroup — the providers of one service, and the receipt of its readiness

A group executes a given order of providers: it keeps the one it has while that is available, takes
the first available one otherwise, and retires a provider whose resolver failed.  A readiness probe
leaves a receipt, bound to a provider, its lease and its resolver, and to the windows of the
compiled rules; a guard closes for good once a receipt no longer holds.

Every function here is one critical section of the group's mutex.  Members, probes, windows, resolver
transports and their managers are objects with identity, so they are addresses here.  What a section
finds outside of the group — a member as its mutex is taken, a clock, a context, a window — is an
argument.
-/

namespace PokrovCore.SmartAccess

/-- The wall reading of the start of 1970. -/
def unixEpoch : ℤ := 62135596800 * Time.second

/-- Whole milliseconds of wall time since the start of 1970. -/
def unixMilli (r : Sample) : ℤ := (r.wall - unixEpoch) / millisecond

/-! ## Receipts -/

inductive ReadinessStatus
  | pending
  | pass
  | failure
  deriving DecidableEq, Repr

inductive StageName
  | resolver
  | dns
  | tls
  deriving DecidableEq, Repr

inductive StageResult
  | pass
  | failure
  deriving DecidableEq, Repr

/-- One observed stage, its times in milliseconds. -/
structure ServiceReadinessStage where
  stage : StageName
  result : StageResult
  observedAtMS : ℤ
  durationMS : ℤ
  reason : String
  deriving DecidableEq, Repr

/-- The receipt of a probe, as it is read back. -/
structure ServiceReadiness where
  probeID : UInt64
  leaseID : String
  startedAtMS : ℤ
  completedAtMS : Option ℤ
  status : ReadinessStatus
  stages : List ServiceReadinessStage
  fallbackGuardClosed : Bool
  deriving DecidableEq, Repr

/-- A probe: its receipt, and what that is bound to. -/
structure ServiceReadinessProbe where
  receipt : ServiceReadiness
  member : Option ℕ
  transport : Option ℕ
  manager : Option ℕ
  resolverLookupStartedAt : Option Sample
  deriving DecidableEq

/-- A window of a compiled rule: of which provider, for names or for routes, and with which
resolver. -/
structure ServiceProbeWindow where
  member : ℕ
  dns : Bool
  transport : Option ℕ
  deriving DecidableEq

/-- **The group.**  `probes` is a heap, allocated below `probeCount`; a window is listed with its
address, and `windowCount` is the next one. -/
structure ServiceLeaseGroup where
  serviceID : String
  members : List ℕ
  selected : Option ℕ
  evaluated : Bool
  dnsFailed : List ℕ
  probeWindows : List (ℕ × ServiceProbeWindow)
  windowCount : ℕ
  probes : ℕ → ServiceReadinessProbe
  probeCount : ℕ
  probeID : UInt64
  readiness : Option ℕ
  fallbackGuardClosed : Bool

inductive SelectionState
  | pending
  | unavailable
  | gateway
  deriving DecidableEq, Repr

/-- One row of a status. -/
structure ServiceLeaseSelection where
  serviceID : String
  leaseID : String
  selectionIndex : Option ℕ
  state : SelectionState
  available : Bool
  readiness : Option ServiceReadiness
  deriving DecidableEq

/-- A context that is over, and how. -/
inductive ContextError
  | canceled
  | deadlineExceeded
  deriving DecidableEq, Repr

/-- What the check of a probe finds: the probe's contexts, each member at the time its mutex is
taken, what a manager has registered under the tag of a transport, and which windows are active. -/
structure Findings where
  ownerDone : Bool
  ctxErr : Option ContextError
  outbound : ℕ → Outbound
  now : Sample
  registered : ℕ → ℕ → Option ℕ
  active : ℕ → Bool

/-- The group of a service as the first of its windows starts. -/
def newServiceLeaseGroup (serviceID : String) (members : List ℕ) : ServiceLeaseGroup where
  serviceID := serviceID
  members := members
  selected := some 0
  evaluated := false
  dnsFailed := []
  probeWindows := []
  windowCount := 0
  probes := fun _ => ⟨⟨0, "", 0, none, .pending, [], false⟩, none, none, none, none⟩
  probeCount := 0
  probeID := 0
  readiness := none
  fallbackGuardClosed := false

namespace ServiceLeaseGroup

/-- The selected member. -/
def selectedMember (g : ServiceLeaseGroup) : Option ℕ := g.selected.bind fun i => g.members[i]?

/-- The member the receipt is bound to. -/
def boundMember (g : ServiceLeaseGroup) : Option ℕ :=
  g.readiness.bind fun p => (g.probes p).member

/-- Change one probe in place. -/
def modifyProbe (g : ServiceLeaseGroup) (p : ℕ)
    (φ : ServiceReadinessProbe → ServiceReadinessProbe) : ServiceLeaseGroup :=
  { g with probes := Function.update g.probes p (φ (g.probes p)) }

/-! ## Checking a receipt -/

/-- Is there an active window of the member for names, with this resolver? -/
def dnsWindow (g : ServiceLeaseGroup) (active : ℕ → Bool) (member transport : ℕ) : Bool :=
  g.probeWindows.any fun w =>
    w.2.member == member && active w.1 && w.2.dns && w.2.transport == some transport

/-- Is there an active window of the member for routes? -/
def routeWindow (g : ServiceLeaseGroup) (active : ℕ → Bool) (member : ℕ) : Bool :=
  g.probeWindows.any fun w => w.2.member == member && active w.1 && !w.2.dns

/-- **Does a receipt still hold?**  Its member is selected and has the lease, its resolver is the
registered one, and both rules have their windows. -/
def readinessBindingCurrentLocked (g : ServiceLeaseGroup) (probe : ServiceReadinessProbe)
    (c : Findings) : Bool :=
  !c.ownerDone &&
    match probe.member, probe.manager, probe.transport with
    | some member, some manager, some transport =>
      g.selectedMember == some member &&
        ((c.outbound member).readinessCurrent probe.receipt.leaseID c.now).2 &&
        c.registered manager transport == some transport &&
        g.dnsWindow c.active member transport && g.routeWindow c.active member
    | _, _, _ => false

def readinessCurrentLocked (g : ServiceLeaseGroup) (probe : ServiceReadinessProbe)
    (c : Findings) : Bool :=
  !(decide (probe.receipt.status = .pending) && c.ctxErr.isSome) &&
    g.readinessBindingCurrentLocked probe c

/-- What a closed guard makes of a probe; one that failed before keeps its time. -/
def failProbe (probe : ServiceReadinessProbe) (now : Sample) : ServiceReadinessProbe :=
  { probe with
    receipt := { probe.receipt with
      fallbackGuardClosed := true
      completedAtMS := if probe.receipt.status = .failure then probe.receipt.completedAtMS
        else some (unixMilli now)
      status := .failure } }

/-- **Close the guard**, for good, and fail the receipt there is. -/
def closeReadinessLocked (g : ServiceLeaseGroup) (now : Sample) : ServiceLeaseGroup :=
  match g.readiness with
  | none => g
  | some p =>
    { g.modifyProbe p fun probe => failProbe probe now with fallbackGuardClosed := true }

/-- Keep the deadline of a resolver lookup that was entered and has not answered. -/
def retainResolverDeadlineLocked (g : ServiceLeaseGroup) (p : ℕ) (c : Findings)
    (observedAt : Sample) : ServiceLeaseGroup :=
  match (g.probes p).resolverLookupStartedAt with
  | none => g
  | some startedAt =>
    if g.fallbackGuardClosed = false ∧ (g.probes p).receipt.status = .pending ∧
        (g.probes p).receipt.stages = [] ∧ c.ctxErr = some .deadlineExceeded ∧
        g.readinessBindingCurrentLocked (g.probes p) c = true then
      g.modifyProbe p fun probe =>
        { probe with
          receipt := { probe.receipt with
            stages := [⟨.resolver, .failure, unixMilli observedAt,
              ((Time.ofSample observedAt).sub (Time.ofSample startedAt)).tdiv millisecond, ""⟩] } }
    else g

/-- A receipt is given up: the deadline is kept if it is one, and the guard closes. -/
def giveUp (g : ServiceLeaseGroup) (p : ℕ) (c : Findings) (now : Sample) : ServiceLeaseGroup :=
  (g.retainResolverDeadlineLocked p c now).closeReadinessLocked now

/-! ## Probes -/

/-- The receipt of a new probe is bound to what the one before was bound to, until it is bound
itself. -/
def newProbe (previous : Option ServiceReadinessProbe) (probeID : UInt64) (guardClosed : Bool)
    (now : Sample) : ServiceReadinessProbe where
  receipt := ⟨probeID, (previous.map fun p => p.receipt.leaseID).getD "", unixMilli now, none,
    .pending, [], guardClosed⟩
  member := previous.bind ServiceReadinessProbe.member
  transport := previous.bind ServiceReadinessProbe.transport
  manager := previous.bind ServiceReadinessProbe.manager
  resolverLookupStartedAt := none

/-- The receipt there is, given up if it no longer holds. -/
def settlePrevious (g : ServiceLeaseGroup) (c : Findings) (now : Sample) : ServiceLeaseGroup :=
  match g.readiness with
  | none => g
  | some p =>
    if (g.probes p).member.isSome && !g.readinessCurrentLocked (g.probes p) c then
      g.closeReadinessLocked now
    else g

/-- **A new probe** replaces every stage of the one before. -/
def beginReadiness (g : ServiceLeaseGroup) (c : Findings) (now : Sample) : ServiceLeaseGroup :=
  let g := g.settlePrevious c now
  { g with
    probeID := g.probeID + 1
    probes := Function.update g.probes g.probeCount
      (newProbe (g.readiness.map g.probes) (g.probeID + 1) g.fallbackGuardClosed now)
    probeCount := g.probeCount + 1
    readiness := some g.probeCount }

def bindReadiness (g : ServiceLeaseGroup) (p member : ℕ) (leaseID : String)
    (transport manager : Option ℕ) : ServiceLeaseGroup :=
  if g.readiness = some p then
    g.modifyProbe p fun probe =>
      { probe with
        receipt := { probe.receipt with leaseID := leaseID }
        member := some member
        transport := transport
        manager := manager }
  else g

def beginResolverLookup (g : ServiceLeaseGroup) (p : ℕ) (c : Findings) (now : Sample) :
    ServiceLeaseGroup :=
  if g.readiness = some p ∧ (g.probes p).receipt.status = .pending ∧
      g.readinessCurrentLocked (g.probes p) c = true then
    g.modifyProbe p fun probe => { probe with resolverLookupStartedAt := some now }
  else g

def finishResolverLookup (g : ServiceLeaseGroup) (p : ℕ) (ctxErr : Option ContextError) :
    ServiceLeaseGroup :=
  if g.readiness = some p ∧ ctxErr = none then
    g.modifyProbe p fun probe => { probe with resolverLookupStartedAt := none }
  else g

/-- The stage an observation adds; an error comes with the reason it is reported under. -/
def observedStage (stage : StageName) (observedAt : Sample) (duration : ℤ)
    (err : Option String) : ServiceReadinessStage :=
  ⟨stage, if err.isSome then .failure else .pass, unixMilli observedAt, duration.tdiv millisecond,
    err.getD ""⟩

/-- **A stage is observed** for the receipt, if it still holds; a failed one closes the guard.
`ctxErr` is what the context answers first, `again` what a second check finds. -/
def observeReadiness (g : ServiceLeaseGroup) (p : ℕ) (stage : ServiceReadinessStage)
    (ctxErr : Option ContextError) (c again : Findings) (now : Sample) : ServiceLeaseGroup :=
  if g.readiness ≠ some p then g
  else if ctxErr.isSome || !g.readinessCurrentLocked (g.probes p) c then g.giveUp p again now
  else
    let g := g.modifyProbe p fun probe =>
      { probe with receipt := { probe.receipt with stages := probe.receipt.stages ++ [stage] } }
    if stage.result = .failure then g.closeReadinessLocked now else g

/-- The stages of a receipt that passes. -/
def passedStages (stages : List ServiceReadinessStage) : Bool :=
  stages.map (fun s => (s.stage, s.result)) ==
    [(.resolver, .pass), (.dns, .pass), (.tls, .pass)]

/-- **The probe ends**: the receipt passes if everything it says holds. -/
def finishReadiness (g : ServiceLeaseGroup) (p : ℕ) (failed : Bool)
    (ctxErr : Option ContextError) (c again : Findings) (now : Sample) : ServiceLeaseGroup :=
  if g.readiness ≠ some p then g
  else if failed || ctxErr.isSome || g.fallbackGuardClosed ||
      !g.readinessCurrentLocked (g.probes p) c || !passedStages (g.probes p).receipt.stages then
    g.giveUp p again now
  else
    g.modifyProbe p fun probe =>
      { probe with
        receipt := { probe.receipt with completedAtMS := some (unixMilli now), status := .pass } }

/-- A rule walk has skipped the member for a name of the service: `outside` is the member, and the
name comes trimmed and folded. -/
def observeScopedRuleBypass (g : ServiceLeaseGroup) (member : ℕ) (outside : Outbound)
    (name : String) (now : Sample) : ServiceLeaseGroup :=
  if g.boundMember = some member ∧ outside.allows name = true then g.closeReadinessLocked now
  else g

/-! ## Windows -/

def bindProbeWindow (g : ServiceLeaseGroup) (window : ServiceProbeWindow) :
    ServiceLeaseGroup × ℕ :=
  ({ g with
      probeWindows := g.probeWindows ++ [(g.windowCount, window)]
      windowCount := g.windowCount + 1 }, g.windowCount)

/-- A rule takes its window back. -/
def unbindProbeWindow (g : ServiceLeaseGroup) (w : ℕ) (now : Sample) : ServiceLeaseGroup :=
  match g.probeWindows.lookup w with
  | none => g
  | some window =>
    let g := if g.boundMember = some window.member then g.closeReadinessLocked now else g
    { g with probeWindows := g.probeWindows.eraseP fun v => v.1 == w }

/-! ## Selection -/

/-- The first member that is neither retired nor unavailable, by position. -/
def firstAvailable (g : ServiceLeaseGroup) (available : ℕ → Bool) : Option ℕ :=
  g.members.findIdx? fun m => !g.dnsFailed.contains m && available m

/-- **Which member, by position**: the one there is, if it is `still` available, or else the first
that is. -/
def choose (g : ServiceLeaseGroup) (still : Bool) (available : ℕ → Bool) : Option ℕ :=
  if g.selectedMember.any (fun m => !g.dnsFailed.contains m) && still then g.selected
  else g.firstAvailable available

/-- What an availability check answers, of a member as its mutex is taken. -/
def availableNow (check : Outbound × Sample) : Bool := (check.1.availableForNewFlows check.2).2

/-- **`Selected`**, given what the availability checks answer; a receipt bound to another member no
longer holds. -/
def select (g : ServiceLeaseGroup) (still : Bool) (available : ℕ → Bool) (now : Sample) :
    ServiceLeaseGroup × Option ℕ :=
  let g := { g with evaluated := true, selected := g.choose still available }
  (if g.boundMember.isSome && g.boundMember != g.selectedMember then g.closeReadinessLocked now
    else g, g.selectedMember)

/-- **`DNSFailed`**, as far as the group goes. -/
def retire (g : ServiceLeaseGroup) (member : ℕ) (now : Sample) : ServiceLeaseGroup :=
  let g := if g.boundMember = some member then g.closeReadinessLocked now else g
  { g with
    dnsFailed := member :: g.dnsFailed
    selected := if g.selectedMember = some member then none else g.selected }

/-! ## Reading back -/

/-- A receipt that no longer holds is given up before it is read back. -/
def refresh (g : ServiceLeaseGroup) (c again : Findings) (now : Sample) : ServiceLeaseGroup :=
  match g.readiness with
  | none => g
  | some p =>
    if (g.probes p).member.isSome && !g.readinessCurrentLocked (g.probes p) c then
      g.giveUp p again now
    else g

/-- **A readback** never selects.  `member` is the selected member when its lease is read, and
`available` what its availability check answers. -/
def readServiceLeaseSelection (g : ServiceLeaseGroup) (c again : Findings) (now : Sample)
    (member : Outbound) (available : Bool) : ServiceLeaseGroup × ServiceLeaseSelection :=
  let g := g.refresh c again now
  let readiness := g.readiness.map fun p => (g.probes p).receipt
  (g, match g.selected with
    | none => ⟨g.serviceID, "", none, .unavailable, false, readiness⟩
    | some i =>
      ⟨g.serviceID, member.leaseID, some i, if g.evaluated then .gateway else .pending, available,
        readiness⟩)

end ServiceLeaseGroup

end PokrovCore.SmartAccess
