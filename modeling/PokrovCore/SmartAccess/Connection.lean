import PokrovCore.Foundations.Machine
import PokrovCore.SmartAccess.Renewal

/-!
# SmartAccess/Connection — every interleaving of connections, data calls and control calls

A `newConnection` call and a `Read` or `Write` of an admitted flow are programs that leave the
outbound's mutex between their critical sections; each has a program counter here.  Renewal,
revocation, closing and the queries are single sections.  One event runs one section of one of them,
with the clock samples it takes and whatever the outside world answers — the ClientHello, the dial,
the transferred bytes, the caller's callback — so the runs of `machine` are all the interleavings,
under every clock.

Cancellation is an answer of the outside world too, and a flow may be closed at any moment: its
timer, its context and the connection manager all may.
-/

namespace PokrovCore.SmartAccess

/-! ## Program counters -/

/-- What reading the ClientHello of a flow ends with. -/
inductive Hello
  | name (serverName : String)
  | echUnsupported
  | failed
  deriving DecidableEq, Repr

/-- Where a `newConnection` call stands, once its flow is registered. -/
inductive ConnPc
  | readHello
  | echFailed
  | secondCheck
  | pinnedDial
  | connectRelay (attempt : ℕ) (visited : List ℕ)
  | dialing (attempt : ℕ) (visited : List ℕ) (reserved : Outbound.Reservation)
  | dialed
  | finalCheck
  | running
  | failed
  deriving DecidableEq

/-- A `newConnection` call: its counter, and the budget of everything up to the final check. -/
structure Connection where
  pc : ConnPc
  connectDeadline : Sample
  deriving DecidableEq

/-- The data calls of a flow and of its relay side. -/
inductive IoKind
  | read
  | write
  | closeWrite
  deriving DecidableEq, Repr

/-- The error a data call returns: the lease's own, or the transport's. -/
inductive IoError
  | lease
  | transport
  deriving DecidableEq, Repr

/-- What a data call returns. -/
structure IoResult where
  bytes : ℕ
  error : Option IoError
  deriving DecidableEq, Repr

/-- `0, errLease`. -/
def errLease : IoResult := ⟨0, some .lease⟩

/-- Where a data call stands.  A `Read` runs `current` a second time, with the transferred result
held back until it answers. -/
inductive IoPc
  | expired (held : Option IoResult)
  | clocked (held : Option IoResult)
  | owned (held : Option IoResult)
  | transfer
  | again (result : IoResult)
  | returned (result : IoResult)
  deriving DecidableEq, Repr

/-- A data call: on which flow, on the flow's own or its relay's connection, and the clock sample it
was entered with. -/
structure IoCall where
  flow : ℕ
  remote : Bool
  kind : IoKind
  entry : Sample
  pc : IoPc
  deriving DecidableEq, Repr

/-! ## The world and its events -/

/-- An outbound with its connections, addressed like their flows, and the data calls so far.
`latest` is the latest monotonic reading any event has taken. -/
structure World where
  outbound : Outbound
  conns : ℕ → Connection
  calls : ℕ → IoCall
  callCount : ℕ
  latest : ℤ

/-- What the dialer answers: a connection, whether within the attempt's own timeout, and whether the
call's context was cancelled before and after the breaker heard of it. -/
structure DialResult where
  connected : Bool
  withinAttempt : Bool
  cancelled : Bool
  cancelledAfter : Bool
  deriving DecidableEq, Repr

/-- The queries that check admission. -/
inductive Query
  | admitsNewFlows
  | acceptsRenewalEnrollment (id issuedAt newFlowsUntil activeFlowsUntil : String)
  | readinessCurrent (id : String)
  | availableForNewFlows
  deriving DecidableEq, Repr

/-- One critical section, or one step between two of them. -/
inductive Event
  | newConnection (port : ℕ) (now : Sample)
  | hello (f : ℕ) (result : Hello)
  | echFailure (f : ℕ) (now : Sample)
  | secondCheck (f : ℕ) (now : Sample)
  | reserve (f : ℕ) (cancelled : Bool) (now : Sample)
  | dial (f : ℕ) (result : DialResult) (now : Sample)
  | setRemote (f : ℕ)
  | activate (f : ℕ) (now : Sample)
  | closeFlow (f : ℕ)
  | deregister (f : ℕ)
  | query (q : Query) (now : Sample)
  | canRenewLease (id : String)
  | dnsFailed (now : Sample)
  | renewLease (expectedID : String) (grant : Grant) (clock : RenewClock) (retained : Bool)
  | revoke (terminateActive : Bool)
  | revokeLease (leaseID : String) (terminateActive : Bool)
  | close
  | ioEnter (f : ℕ) (remote : Bool) (kind : IoKind) (now : Sample)
  | ioClose (c : ℕ)
  | ioOwner (c : ℕ)
  | ioFlow (c : ℕ)
  | ioTransfer (c : ℕ) (result : IoResult)
  | ioAgain (c : ℕ) (now : Sample)

/-- What an event returns to whoever called. -/
inductive Output
  | none
  | admitted (f : Option ℕ)
  | answer (b : Bool)
  | renewal (outcome : RenewOutcome)
  | closing (found : Bool) (flows : List ℕ)
  | entered (c : ℕ)
  deriving DecidableEq, Repr

namespace World

/-- A fresh outbound, before any call. -/
def init (h : Outbound) (latest : ℤ) : World where
  outbound := h
  conns := fun _ => ⟨.failed, ⟨0, 0⟩⟩
  calls := fun _ => ⟨0, false, .read, ⟨0, 0⟩, .returned errLease⟩
  callCount := 0
  latest := latest

/-- The outbound after a section that took no sample. -/
def put (w : World) (h : Outbound) : World := { w with outbound := h }

/-- The outbound after a section that took one. -/
def putAt (w : World) (h : Outbound) (now : Sample) : World :=
  { w with outbound := h, latest := max w.latest now.mono }

/-- A connection moves on. -/
def goto (w : World) (f : ℕ) (pc : ConnPc) : World :=
  { w with conns := Function.update w.conns f { w.conns f with pc := pc } }

/-- A data call moves on. -/
def callGoto (w : World) (c : ℕ) (pc : IoPc) : World :=
  { w with calls := Function.update w.calls c { w.calls c with pc := pc } }

/-- The counter of a flow's connection. -/
def pc (w : World) (f : ℕ) : ConnPc := (w.conns f).pc

/-- The generation of a flow. -/
def gen (w : World) (f : ℕ) : ℕ := (w.outbound.flowOf f).authorization

/-- The connect budget covers the ClientHello and all relay attempts, and can only shorten the
admission deadline of the lease. -/
def connectDeadline (h : Outbound) (f : ℕ) (now : Sample) : Sample :=
  let deadline := (h.gens (h.flowOf f).authorization).newDeadline
  match h.options.relayPolicy with
  | none => deadline
  | some policy =>
    let budget := now.add (policy.totalTimeoutMS * millisecond)
    if (Time.ofSample budget).before (Time.ofSample deadline) then budget else deadline

/-- `newConnection`, up to the end of its first critical section. -/
def stepAdmit (w : World) (port : ℕ) (now : Sample) : World × Output :=
  if port ≠ 443 then (w, .admitted none)
  else
    let r := w.outbound.admitFlow now
    match r.2 with
    | none => (w.putAt r.1 now, .admitted none)
    | some f =>
      ({ w.putAt r.1 now with
          conns := Function.update w.conns f ⟨.readHello, connectDeadline r.1 f now⟩ },
        .admitted (some f))

/-- Where a read ClientHello leads. -/
def afterHello (w : World) : Hello → ConnPc
  | .name serverName => if w.outbound.allows serverName then .secondCheck else .failed
  | .echUnsupported => .echFailed
  | .failed => .failed

/-- The second admission check leads into the relay loop, or to the one pinned dial when there is no
approved budget. -/
def stepSecondCheck (w : World) (f : ℕ) (now : Sample) : World :=
  let r := w.outbound.admitsLeaseLocked (w.gen f) now
  (w.putAt r.1 now).goto f <|
    if !r.2 then .failed
    else if w.outbound.options.relayPolicy.isNone then .pinnedDial else .connectRelay 0 []

/-- One turn of the relay loop, up to its dial. -/
def stepReserve (w : World) (policy : RelayConnectPolicy) (f attempt : ℕ) (visited : List ℕ)
    (cancelled : Bool) (now : Sample) : World :=
  if policy.maxAttempts ≤ attempt || cancelled then w.goto f .failed
  else
    let r := w.outbound.reserveRelay (w.gen f) visited (decide (0 < attempt)) now
    (w.putAt r.1 now).goto f <|
      match r.2 with
      | none => .failed
      | some reserved => .dialing attempt (reserved.index :: visited) reserved

/-- …and from its dial to the next turn. -/
def stepDial (w : World) (policy : RelayConnectPolicy) (f attempt : ℕ) (visited : List ℕ)
    (reserved : Outbound.Reservation) (result : DialResult) (now : Sample) : World :=
  let r := w.outbound.completeRelay policy reserved (result.connected && result.withinAttempt)
    result.cancelled now
  (w.putAt r.1 now).goto f <|
    if result.connected && r.2 && !result.cancelledAfter then .dialed
    else if result.cancelled then .failed
    else .connectRelay (attempt + 1) visited

/-- The queries. -/
def ask (h : Outbound) (now : Sample) : Query → Outbound × Bool
  | .admitsNewFlows => h.admitsNewFlows now
  | .acceptsRenewalEnrollment id issuedAt newFlowsUntil activeFlowsUntil =>
    h.acceptsRenewalEnrollment id issuedAt newFlowsUntil activeFlowsUntil now
  | .readinessCurrent id => h.readinessCurrent id now
  | .availableForNewFlows => h.availableForNewFlows now

/-- The clock part of a flow's `current`. -/
def clockPc (w : World) (f : ℕ) (now : Sample) (held : Option IoResult) : IoPc :=
  if (w.outbound.gens (w.gen f)).outsideActive now then .expired held else .clocked held

/-- A renewal whose callback is the outside world's. -/
def stepRenew (w : World) (expectedID : String) (grant : Grant) (clock : RenewClock)
    (retained : Bool) : World × Output :=
  let r := w.outbound.renewLease expectedID grant clock (fun _ (u : Unit) => (u, retained)) ()
  ({ w with
      outbound := r.1
      latest := max w.latest (max clock.fresh.mono (max clock.prune.mono clock.adopt.mono)) },
    .renewal r.2.2)

/-- **One event.**  An event whose program does not stand where it applies is not enabled. -/
def step (w : World) : Event → Option (World × Output)
  | .newConnection port now => some (w.stepAdmit port now)
  | .hello f result =>
    if w.pc f = .readHello then some (w.goto f (w.afterHello result), .none) else none
  | .echFailure f now =>
    if w.pc f = .echFailed then
      some ((w.putAt (w.outbound.recordProbeFailure (w.gen f) .tls now) now).goto f .failed, .none)
    else none
  | .secondCheck f now =>
    if w.pc f = .secondCheck then some (w.stepSecondCheck f now, .none) else none
  | .reserve f cancelled now =>
    match w.outbound.options.relayPolicy, w.pc f with
    | some policy, .connectRelay attempt visited =>
      some (w.stepReserve policy f attempt visited cancelled now, .none)
    | _, _ => none
  | .dial f result now =>
    match w.outbound.options.relayPolicy, w.pc f with
    | some policy, .dialing attempt visited reserved =>
      some (w.stepDial policy f attempt visited reserved result now, .none)
    | none, .pinnedDial =>
      some (w.goto f (if result.connected && !result.cancelled then .dialed else .failed), .none)
    | _, _ => none
  | .setRemote f =>
    if w.pc f = .dialed then
      let r := w.outbound.setRemote f
      some ((w.put r.1).goto f (if r.2 then .finalCheck else .failed), .none)
    else none
  | .activate f now =>
    if w.pc f = .finalCheck then
      let r := w.outbound.activate f now
      some ((w.putAt r.1 now).goto f (if r.2 then .running else .failed), .answer r.2)
    else none
  | .closeFlow f =>
    if f < w.outbound.flowCount then some (w.put (w.outbound.closeFlow f), .none) else none
  | .deregister f =>
    if f < w.outbound.flowCount ∧ (w.outbound.flowOf f).closed then
      some (w.put (w.outbound.deregister f), .none)
    else none
  | .query q now =>
    let r := ask w.outbound now q
    some (w.putAt r.1 now, .answer r.2)
  | .canRenewLease id => some (w, .answer (w.outbound.canRenewLease id))
  | .dnsFailed now => some (w.putAt (w.outbound.dnsFailed now) now, .none)
  | .renewLease expectedID grant clock retained =>
    some (w.stepRenew expectedID grant clock retained)
  | .revoke terminateActive =>
    let r := w.outbound.revoke terminateActive
    some (w.put r.1, .closing true r.2)
  | .revokeLease leaseID terminateActive =>
    let r := w.outbound.revokeLease leaseID terminateActive
    some (w.put r.1, .closing r.2.isSome (r.2.getD []))
  | .close =>
    let r := w.outbound.close
    some (w.put r.1, .closing true r.2)
  | .ioEnter f remote kind now =>
    if f < w.outbound.flowCount then
      some ({ w with
          calls := Function.update w.calls w.callCount
            ⟨f, remote, kind, now, w.clockPc f now none⟩
          callCount := w.callCount + 1
          latest := max w.latest now.mono }, .entered w.callCount)
    else none
  | .ioClose c =>
    match (w.calls c).pc with
    | .expired _ =>
      some ((w.put (w.outbound.closeFlow (w.calls c).flow)).callGoto c (.returned errLease), .none)
    | _ => none
  | .ioOwner c =>
    match (w.calls c).pc with
    | .clocked held =>
      some (w.callGoto c
        (if w.outbound.terminated (w.calls c).flow then .returned errLease else .owned held), .none)
    | _ => none
  | .ioFlow c =>
    match (w.calls c).pc with
    | .owned held =>
      some (w.callGoto c
        (if (w.outbound.flowOf (w.calls c).flow).closed then .returned errLease
          else match held with
            | none => .transfer
            | some result => .returned result), .none)
    | _ => none
  | .ioTransfer c result =>
    match (w.calls c).pc with
    | .transfer =>
      some (w.callGoto c
        (if (w.calls c).kind = .read then .again result else .returned result), .none)
    | _ => none
  | .ioAgain c now =>
    match (w.calls c).pc with
    | .again result =>
      some ({ w.callGoto c (w.clockPc (w.calls c).flow now (some result)) with
          latest := max w.latest now.mono }, .none)
    | _ => none

/-- **The machine of one outbound.** -/
def machine : Machine World Event Output where
  step := step

/-- The sample outbound with one flow admitted. -/
def sampleWorld : World := ((init sampleOutbound 0).stepAdmit 443 sampleClock).1

theorem reaches_sampleWorld : machine.Reaches (init sampleOutbound 0) sampleWorld :=
  Machine.ReachesIf.single (e := .newConnection 443 sampleClock) trivial rfl

end World

end PokrovCore.SmartAccess
