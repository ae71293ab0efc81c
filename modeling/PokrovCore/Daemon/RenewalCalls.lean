import PokrovCore.Daemon.ControlCalls

/-!
# Daemon/RenewalCalls — renewing leases, in the foreground and by the worker

The host renews a lease by naming it; the worker renews the enrollments it holds, one at a time:
`nextSmartAccessRuntimeRenewal` chooses one and captures it, and once the answer is verified
`applySmartAccessRuntimeRenewal` checks the capture against the present and adopts.  Both go through
the outbound's `renewLease`, whose callback commits the recovery bound first.
-/

namespace PokrovCore.Daemon

open SmartAccess (World Grant RenewClock RenewOutcome)

namespace Service

/-! ## Renewals by the host -/

/-- An outbound after a renewal, which took three samples. -/
def putRenewed (w : World) (h : SmartAccess.Outbound) (clock : RenewClock) : World :=
  { w with
    outbound := h
    latest := max w.latest (max clock.fresh.mono (max clock.prune.mono clock.adopt.mono)) }

/-- The recovery bound of an instance, and the journals: what the callback of a renewal works on. -/
abbrev Bound := Option Date × (Path → Journal)

/-- **The callback of a renewal by the host**: if the bound grows, the record of the registered
worker grows first. -/
def retainExpiry (control : Option (ℕ × Worker)) (write : Bool) (expires : Date) (st : Bound) :
    Bound × Bool :=
  if !expires.toTime.after (expiryTime st.1) then (st, true)
  else
    match control with
    | none => ((some expires, st.2), true)
    | some (_, w) =>
      match (st.2 w.journal).extendExpiry w.config.profileDigest w.journalGeneration expires
          write with
      | (j, .error _) => ((st.1, Function.update st.2 w.journal j), false)
      | (j, .ok _) => ((some expires, Function.update st.2 w.journal j), true)

/-- The outbounds in order, up to the first that knows the lease. -/
def renewFirst (retain : Date → Bound → Bound × Bool) (expectedID : String) (grant : Grant)
    (clock : ℕ → RenewClock) : ℕ → List World → Bound → List World × Bound × RenewOutcome
  | _, [], st => ([], st, .absent)
  | n, w :: ws, st =>
    let r := w.outbound.renewLease expectedID grant (clock n) retain st
    if r.2.2 = .absent then
      let rest := renewFirst retain expectedID grant clock (n + 1) ws st
      (putRenewed w r.1 (clock n) :: rest.1, rest.2)
    else (putRenewed w r.1 (clock n) :: ws, r.2)

/-- **`RenewSmartAccessLease`.** -/
def renewSmartAccessLease (s : Service) (expectedID : String) (grant : Grant)
    (clock : ℕ → RenewClock) (write : Bool) : Service × Except ServiceError RenewOutcome :=
  if SmartAccess.leaseIDPattern expectedID then
    match s.running with
    | none => (s, .error .runtimeUnavailable)
    | some (i, inst) =>
      let r := renewFirst (retainExpiry (s.control inst) write) expectedID grant clock 0 inst.leases
        (inst.smartAccessRestrictionExpires, s.journals)
      ({ s.modifyInstance i ({ · with leases := r.1, smartAccessRestrictionExpires := r.2.1.1 })
          with journals := r.2.1.2 }, .ok r.2.2)
  else (s, .error .leaseInvalid)

/-! ## Enrolling a renewal -/

/-- The checks on a renewal configuration that depend on its size and on the clock, and the deadline
it gets. -/
def parseSmartAccessRuntimeRenewal (config : RenewalConfig) (size : ℕ) (now : Sample) :
    Option Sample :=
  if decide (runtimeControlLimit < size) || now.beforeDate config.issuedAt ||
      !config.issuedAt.toTime.before config.expiresAt.toTime ||
      !now.beforeDate config.expiresAt || now.beforeDate config.lease.issuedAt ||
      !now.beforeDate config.lease.newFlowsUntil then none
  else some (now.deadline config.expiresAt)

/-- Does an outbound of the instance run exactly this lease, and admit?  The outbounds are asked in
order, up to the first that does. -/
def acceptsEnrollment (lease : LeaseIdentity) (clock : ℕ → Sample) :
    ℕ → List World → List World × Bool
  | _, [] => ([], false)
  | n, w :: ws =>
    let r := w.outbound.acceptsRenewalEnrollment lease.leaseID.text lease.issuedAt.format
      lease.newFlowsUntil.format lease.activeFlowsUntil.format (clock n)
    if r.2 then (w.putAt r.1 (clock n) :: ws, true)
    else
      let rest := acceptsEnrollment lease clock (n + 1) ws
      (w.putAt r.1 (clock n) :: rest.1, rest.2)

/-- What a renewal configuration takes from outside. -/
structure EnrollWorld where
  parse : Sample
  now : Sample
  outbounds : ℕ → Sample
  fired : Bool
  size : ℕ

/-- Is the worker one this renewal may be enrolled with? -/
def mayEnroll (s : Service) (w : Worker) (profileDigest : String) (config : RenewalConfig)
    (deadline : Sample) (world : EnrollWorld) : Bool :=
  !s.ctxDone w world.fired && decide (w.config.profileDigest.text = profileDigest) &&
    decide (w.config.platform = config.lease.platform) &&
    decide (w.config.audience = config.lease.audience) &&
    world.now.beforeDate w.config.expiresAt && world.now.before w.deadline &&
    world.now.beforeDate config.expiresAt && world.now.before deadline &&
    !world.now.beforeDate config.issuedAt &&
    !config.expiresAt.toTime.after w.config.expiresAt.toTime

/-- What the enrollment of the same scope answers for the new one: a conflict, or that the call is
an exact retry; otherwise the new one may replace it. -/
def enrolledAnswer (previous : Enrollment) (config : RenewalConfig) :
    Option (Except ServiceError Bool) :=
  if config.issuedAt.toTime.before previous.config.issuedAt.toTime then
    some (.error .renewalConflict)
  else if previous.config.capability = config.capability then
    some (if previous.config ≠ config then .error .renewalConflict else .ok true)
  else if config.lease.follows previous.current then none
  else some (.error .renewalConflict)

/-- The sizes of the enrollments of the other scopes. -/
def retainedSize (s : Service) (renewals : SortedMap Digest ℕ) (scope : Digest) : ℕ :=
  (renewals.entries.map fun r =>
    if r.1 = scope then 0 else s.enrollments[r.2]?.elim 0 Enrollment.size).sum

/-- Put an enrollment into the table of a worker. -/
def addEnrollment (s : Service) (k : ℕ) (renewals : SortedMap Digest ℕ) (config : RenewalConfig)
    (deadline : Sample) (size : ℕ) : Service × Except ServiceError Bool :=
  let scope := config.lease.runtimeScopeSHA256
  let previous := (renewals.get? scope).bind fun e => s.enrollments[e]?
  match previous.bind (enrolledAnswer · config) with
  | some answer => (s, answer)
  | none =>
    if (previous.isNone && decide (256 ≤ renewals.size)) ||
        decide (1024 * 1024 < size + s.retainedSize renewals scope) then (s, .error .renewalFull)
    else
      ({ s.modifyWorker k ({ · with renewals := renewals.insert scope s.enrollments.length }) with
          enrollments := s.enrollments ++ [⟨config, config.lease, Time.zero, deadline, size⟩] },
        .ok true)

/-- **`ConfigureSmartAccessRenewal`.** -/
def configureSmartAccessRenewal (s : Service) (profileDigest : String) (config : RenewalConfig)
    (world : EnrollWorld) : Service × Except ServiceError Bool :=
  match parseSmartAccessRuntimeRenewal config world.size world.parse with
  | none => (s, .error .renewalInvalid)
  | some deadline =>
    if config.profileDigest.text ≠ profileDigest then (s, .error .renewalConflict)
    else
      match s.running with
      | none => (s, .error .runtimeUnavailable)
      | some (i, inst) =>
        match s.control inst with
        | none => (s, .error .renewalConflict)
        | some (k, w) =>
          if s.mayEnroll w profileDigest config deadline world then
            let found := acceptsEnrollment config.lease world.outbounds 0 inst.leases
            let s := s.modifyInstance i ({ · with leases := found.1 })
            if found.2 then
              let renewals := w.renewals.filter fun _ e => !s.lapsed world.now e
              (s.modifyWorker k ({ · with renewals })).addEnrollment k renewals config deadline
                world.size
            else (s, .ok false)
          else (s, .error .renewalConflict)

/-! ## Choosing the next renewal -/

/-- The middle of a lease's admission window. -/
def midpoint (l : LeaseIdentity) : Time :=
  l.issuedAt.toTime.add (l.newFlowsUntil.toTime.sub l.issuedAt.toTime / 2)

/-- Is an enrollment due, and does an outbound still run its lease? -/
def due (inst : Instance) (now : Sample) (r : Enrollment) : Bool :=
  !now.beforeDate r.config.issuedAt && now.beforeDate r.config.expiresAt &&
    now.before r.deadline && !now.beforeDate r.current.issuedAt &&
    !(Time.ofSample now).before (midpoint r.current) &&
    r.current.newFlowsUntil.toTime.before r.config.expiresAt.toTime &&
    inst.leases.any fun w => w.outbound.canRenewLease r.current.leaseID.text

/-- Is one enrollment to be tried before another?  The one tried longest ago goes first. -/
def precedes (scope : Digest) (r : Enrollment) (chosenScope : Digest) (chosen : Enrollment) :
    Bool :=
  r.lastAttempt.before chosen.lastAttempt ||
    (r.lastAttempt.equal chosen.lastAttempt && decide (scope < chosenScope))

/-- One step of the walk over the table. -/
def chooseStep (s : Service) (inst : Instance) (renewals : SortedMap Digest ℕ) (now : Sample)
    (chosen : Option (Digest × ℕ × Enrollment)) (scope : Digest) :
    Option (Digest × ℕ × Enrollment) :=
  match (renewals.get? scope).bind fun e => s.enrollments[e]?.map fun r => (e, r) with
  | none => chosen
  | some (e, r) =>
    if due inst now r && chosen.elim true fun c => precedes scope r c.1 c.2.2 then
      some (scope, e, r)
    else chosen

/-- The enrollment to renew next, the table being walked in some order. -/
def choose (s : Service) (inst : Instance) (renewals : SortedMap Digest ℕ) (now : Sample)
    (order : List Digest) : Option (Digest × ℕ × Enrollment) :=
  order.foldl (s.chooseStep inst renewals now) none

/-- **`nextSmartAccessRuntimeRenewal`**: what is captured of the chosen enrollment, before any
request is sent. -/
def nextSmartAccessRuntimeRenewal (s : Service) (k : ℕ) (w : Worker) (control : Decision)
    (order : List Digest) (now : Sample) (fired : Bool) : Service × Option Attempt :=
  match s.registered k w with
  | none => (s, none)
  | some inst =>
    if s.ctxDone w fired || decide (control.reason ≠ .current) ||
        !now.beforeDate control.expires || !now.before control.deadline ||
        !now.beforeDate w.config.expiresAt || !now.before w.deadline then (s, none)
    else
      match s.choose inst w.renewals now order with
      | none => (s, none)
      | some (_, e, r) =>
        (s.modifyEnrollment e ({ · with lastAttempt := Time.ofSample now }),
          some ⟨e, r.current, r.config.capability, r.config.expiresAt, r.deadline, control⟩)

/-! ## Applying a renewal -/

/-- What an application takes from outside: the sample of each freshness check and whether the
context was done at it, the sample `retainRenewal` takes, those of the outbound's own renewal, and
whether the journal could be written. -/
structure ApplyWorld where
  start : Sample
  startFired : Bool
  before : Sample
  beforeFired : Bool
  retain : Sample
  after : Sample
  afterFired : Bool
  renew : RenewClock
  write : Bool

/-- Are the decision, the attempt and the worker all still in time? -/
def stillFresh (s : Service) (w : Worker) (attempt : Attempt) (decision : RenewalDecision)
    (now : Sample) (fired : Bool) : Bool :=
  !s.ctxDone w fired && !now.beforeDate decision.issued && now.beforeDate decision.newUntil &&
    now.before decision.deadline && now.beforeDate attempt.expires &&
    attemptCurrent w.config w.deadline attempt now

/-- The ids of the current leases, if they are distinct and at most 256. -/
def currentIDs (leases : List World) : Option (List String) :=
  let ids := leases.map fun w => w.outbound.leaseID
  if ids.Nodup ∧ ids.length ≤ 256 then some ids else none

/-- The outbound that runs the captured lease. -/
def target (leases : List World) (previous : LeaseIdentity) : Option (ℕ × World) :=
  (leases.findIdx? fun w => decide (w.outbound.leaseID = previous.leaseID.text)).bind fun n =>
    leases[n]?.map fun w => (n, w)

/-- **The callback of a renewal by the worker**: fresh, both generations retained, and fresh
again. -/
def retainBoth (s : Service) (w : Worker) (attempt : Attempt) (decision : RenewalDecision)
    (lease : LeaseIdentity) (ids : List String) (world : ApplyWorld) (_ : Date) (j : Journal) :
    Journal × Bool :=
  if s.stillFresh w attempt decision world.before world.beforeFired then
    match j.retainRenewal w.config.profileDigest w.journalGeneration attempt.previous lease
        (ids.filterMap (Hex.ofString? 32)) world.retain world.write with
    | (j, .error _) => (j, false)
    | (j, .ok _) => (j, s.stillFresh w attempt decision world.after world.afterFired)
  else (j, false)

/-- The texts of a lease identity a renewal is asked for with. -/
def grantOf (lease : LeaseIdentity) : Grant :=
  ⟨lease.leaseID.text, lease.issuedAt.format, lease.newFlowsUntil.format,
    lease.activeFlowsUntil.format⟩

/-- The bound of an instance grows to cover a date. -/
def raiseBound (d : Date) (inst : Instance) : Instance :=
  if d.toTime.after (expiryTime inst.smartAccessRestrictionExpires) then
    { inst with smartAccessRestrictionExpires := some d }
  else inst

/-- One outbound of an instance is replaced. -/
def putLease (n : ℕ) (w : World) (inst : Instance) : Instance :=
  { inst with leases := inst.leases.set n w }

/-- The end of an application that found a lease: the outbound renews it, and if it did, the
enrollment and the bound of the instance move on. -/
def adoptLease (s : Service) (w : Worker) (attempt : Attempt) (decision : RenewalDecision)
    (lease : LeaseIdentity) (ids : List String) (n : ℕ) (out : World) (world : ApplyWorld) :
    Service × Bool :=
  let r := out.outbound.renewLease attempt.previous.leaseID.text (grantOf lease) world.renew
    (s.retainBoth w attempt decision lease ids world) (s.journals w.journal)
  let retained := (s.modifyInstance w.box (putLease n (putRenewed out r.1 world.renew))).putJournal
    w.journal r.2.1
  if r.2.2 = .renewed then
    ((retained.modifyEnrollment attempt.enrollment ({ · with current := lease })).modifyInstance
      w.box (raiseBound lease.activeFlowsUntil), true)
  else (retained, false)

/-- The end of an application that found a restriction: the target is tightened before the
journal is written. -/
def restrictTarget (s : Service) (k : ℕ) (w : Worker) (scope : Digest) (action : ScopeAction)
    (n : ℕ) (write : Bool) : Service :=
  (s.performAll k w.box [.revokeScope scope n action]).putJournal w.journal
    ((s.journals w.journal).restrictScope w.config.profileDigest w.journalGeneration scope action
      write)

/-- Is what the attempt captured still what the worker and the enrollment hold? -/
def captured (s : Service) (w : Worker) (attempt : Attempt) : Bool :=
  decide (w.renewals.get? attempt.previous.runtimeScopeSHA256 = some attempt.enrollment) &&
    decide (s.enrollments[attempt.enrollment]?.map Enrollment.current = some attempt.previous)

/-- **`applySmartAccessRuntimeRenewal`**, and whether a lease was renewed. -/
def applySmartAccessRuntimeRenewal (s : Service) (k : ℕ) (w : Worker) (attempt : Attempt)
    (decision : RenewalDecision) (world : ApplyWorld) : Service × Bool :=
  match s.registered k w with
  | none => (s, false)
  | some inst =>
    if s.captured w attempt &&
        s.stillFresh w attempt decision world.start world.startFired then
      match currentIDs inst.leases, target inst.leases attempt.previous with
      | some ids, some (n, out) =>
        match decision.outcome with
        | .restriction action =>
          (s.restrictTarget k w attempt.previous.runtimeScopeSHA256 action n world.write, false)
        | .lease lease => s.adoptLease w attempt decision lease ids n out world
      | _, _ => (s, false)
    else (s, false)

end Service

end PokrovCore.Daemon
