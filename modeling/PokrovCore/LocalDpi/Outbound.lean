import Mathlib.Logic.Function.Basic
import Mathlib.Tactic.Simps.Basic
import PokrovCore.Foundations.Machine

/-!
# LocalDpi/Outbound — the holder of an admission, and the connections that ask for it

A holder offers a local path beside its VPN outbound, while its current admission is ready.  A
connection waits for the admission, dials the local path without a lock, and is attached in a section
that asks for the admission again; whatever fails before goes to the VPN once, or ends.  Every section
of a mutex is a step, and so is every look at a context; what the dialers, the clock and the owners of
the contexts choose stands in the event.  Admissions are withdrawn, renewed and closed by calls of
their own, whose work on the flows is part of the state.
-/

namespace PokrovCore.LocalDpi

/-! ## The holder -/

/-- The state of an admission. -/
inductive Admission
  | unpublished
  | ready
  | failed
  | withdrawn
  deriving DecidableEq, Repr

/-- The order of the states. -/
def Admission.rank : Admission → ℕ
  | .unpublished => 0
  | .ready => 1
  | .failed => 2
  | .withdrawn => 3

/-- Why a ready admission failed. -/
inductive AdmissionFailure
  | connectTimeoutIPv4
  | connectTimeoutIPv6
  | connectErrorIPv4
  | connectErrorIPv6
  | earlyRead
  | earlyWrite
  deriving DecidableEq, Repr

/-- **A holder.**  The zero time of a deadline is `none`. -/
structure Outbound where
  tag : String
  vpnTag : String
  serviceID : String
  preferTCP : Bool
  windowsDirect : Bool
  admissionID : String
  admission : Admission
  admissionDeadline : Option ℤ
  closed : Bool
  retryPrepared : Bool
  flows : List ℕ
  withdrawCompleted : Bool
  localHandoffs : ℕ
  vpnHandoffs : ℕ
  quicRejected : ℕ
  failureReason : Option AdmissionFailure
  deriving DecidableEq

/-- The options of a holder. -/
structure OutboundOptions where
  serviceID : String
  vpnOutbound : String
  detour : String
  preferTCP : Bool
  windowsDirect : Bool
  bindInterface : String
  server : String
  serverPort : ℕ
  deriving DecidableEq

/-- `setupTimeout`, in nanoseconds. -/
def setupTimeout : ℤ := 5 * 1000000000

/-- **A new holder.**  Whether the platform is Windows, a server text is a loopback address, and the
managers and the dialer can be had are facts of the surroundings; the identity is drawn at random. -/
def newOutbound (tag : String) (options : OutboundOptions) (windows : Bool)
    (loopback : String → Bool) (managers dialer : Bool) (identity : String) : Option Outbound :=
  if tag = "" ∨ options.serviceID = "" ∨ options.vpnOutbound = "" ∨ options.vpnOutbound = tag ∨
      options.detour ≠ "" ∨ (options.preferTCP = true ∧ options.serviceID ≠ "youtube") then none
  else if options.windowsDirect = true ∧ (windows = false ∨ options.bindInterface = "" ∨
      options.server ≠ "" ∨ options.serverPort ≠ 0) then none
  else if options.windowsDirect = false ∧ (loopback options.server = false ∨
      options.serverPort = 0) then none
  else if managers = false ∨ dialer = false then none
  else
    some
      { tag
        vpnTag := options.vpnOutbound
        serviceID := options.serviceID
        preferTCP := options.preferTCP
        windowsDirect := options.windowsDirect
        admissionID := identity
        admission := .unpublished
        admissionDeadline := none
        closed := false
        retryPrepared := false
        flows := []
        withdrawCompleted := false
        localHandoffs := 0
        vpnHandoffs := 0
        quicRejected := 0
        failureReason := none }

namespace Outbound

variable (h : Outbound)

def isReady : Bool := h.admission == .ready

/-- The section of `Start`, once the VPN outbound is found and protected. -/
def start (now : ℤ) : Outbound :=
  if h.admissionDeadline.isNone then { h with admissionDeadline := some (now + setupTimeout) }
  else h

/-- A ready admission fails, for the first time. -/
def failAdmission (expectedID : String) (reason : AdmissionFailure) : Outbound :=
  if expectedID = h.admissionID ∧ h.admission = .ready then
    { h with admission := .failed, failureReason := some reason }
  else h

/-- The admission is published; the call goes on to close the channel. -/
def admitAdmission (expectedID : String) : Option Outbound :=
  if h.closed = true ∨ expectedID ≠ h.admissionID ∨ h.admission ≠ .unpublished then none
  else some { h with admission := .ready }

/-- The first section of a withdrawal. -/
def withdrawAdmission (expectedID : String) : Option Outbound :=
  if expectedID ≠ h.admissionID ∨ h.admission = .withdrawn then none
  else some { h with admission := .withdrawn }

/-- The last section of a withdrawal. -/
def withdrawComplete (expectedID : String) : Outbound :=
  if h.admissionID = expectedID then { h with withdrawCompleted := true } else h

/-- The first section of a wait: the admission waited for, and whether its deadline is ahead. -/
def beginWait (now : ℤ) : Option (String × Bool) :=
  if h.closed then none
  else some (h.admissionID, h.admission == .unpublished && h.admissionDeadline.any (now < ·))

/-- The last section of a wait: may the connection go on? -/
def endWait (id : String) (withdrawErr : Bool) : Bool :=
  !(h.closed || (id == h.admissionID && withdrawErr && h.admission != .withdrawn))

/-- Is the admission a connection dialled for gone? -/
def unavailable (id : String) : Bool := h.admissionID != id || h.admission == .withdrawn

/-- May a dialled connection be attached? -/
def attachable (id : String) (ctxErr : Bool) : Bool :=
  !h.closed && h.admissionID == id && h.isReady && !ctxErr

/-- May an attached connection be written to? -/
def writable (id : String) (ctxErr : Bool) : Bool :=
  h.admissionID == id && h.admission != .withdrawn && !ctxErr

/-- What a packet connection is answered. -/
inductive PacketAnswer
  | closed
  | refused
  | vpn
  deriving DecidableEq, Repr

/-- The section of `NewPacketConnection`: QUIC to a ready service is refused. -/
def newPacketConnection (port : ℕ) : Outbound × PacketAnswer :=
  if h.closed then (h, .closed)
  else if h.preferTCP && h.serviceID == "youtube" && port == 443 && h.isReady then
    ({ h with quicRejected := h.quicRejected + 1 }, .refused)
  else (h, .vpn)

/-- May the holder take part in a retry? -/
def retryable (runtimeDone : Bool) (expectedID : String) : Bool :=
  h.windowsDirect && !h.closed && !h.retryPrepared && !runtimeDone && h.admissionID == expectedID &&
    (h.admission == .ready || h.admission == .failed)

/-- Did the admission fail in a way that a retry may mend? -/
def mendable : Bool :=
  h.admission == .failed && (h.failureReason == some .earlyRead ||
    h.failureReason == some .earlyWrite || h.failureReason == some .connectTimeoutIPv4 ||
    h.failureReason == some .connectErrorIPv4)

/-- A holder under its fresh admission. -/
def renew (newID : String) : Outbound :=
  { h with
    admission := .unpublished
    admissionID := newID
    admissionDeadline := none
    withdrawCompleted := false
    failureReason := none
    retryPrepared := true }

end Outbound

/-! ## The connections -/

/-- What the router knows of a connection. -/
structure Metadata where
  tcp : Bool
  port : ℕ
  globalUnicast : Bool
  isPrivate : Bool
  is4In6 : Bool
  is4 : Bool
  deriving DecidableEq, Repr

/-- Only these ask for the local path. -/
def Metadata.eligible (m : Metadata) : Bool :=
  m.tcp && m.port == 443 && m.globalUnicast && !m.isPrivate && !m.is4In6

/-- The errors of a dial that are told apart. -/
inductive DialError
  | canceled
  | timeout
  | other
  deriving DecidableEq, Repr

/-- What a local dial ended with; without an error there is a socket. -/
structure DialOutcome where
  remote : Bool
  err : Option DialError
  setupExceeded : Bool
  deriving DecidableEq, Repr

/-- Why a setup failed. -/
def DialOutcome.reason (o : DialOutcome) (is4 : Bool) : AdmissionFailure :=
  if o.setupExceeded || o.err == some .timeout then
    if is4 then .connectTimeoutIPv4 else .connectTimeoutIPv6
  else if is4 then .connectErrorIPv4 else .connectErrorIPv6

/-- Where the bytes of a client may go. -/
inductive Path
  | offload
  | vpn
  deriving DecidableEq, Repr

/-- **Where `NewConnection` stands**; an admission in it is the captured one. -/
inductive Pc
  | entered
  | eligible
  | waiting (id : String)
  | woken (id : String)
  | joined (id : String)
  | resolved
  | dialing (id : String)
  | dialed (id : String) (remote : Option ℕ) (outcome : DialOutcome)
  | reporting (id : String) (reason : AdmissionFailure)
  | falling (id : String)
  | observed (id : String) (remote : ℕ)
  | unattached (remote : ℕ)
  | vpn
  | vpnReady
  | vpnDialing
  | vpnDialed (remote : ℕ)
  | vpnAttached
  | handed (path : Path) (id : String)
  | ending
  | finishing
  | returned
  deriving DecidableEq

/-- The socket in the hand of the call. -/
def Pc.socket? : Pc → Option ℕ
  | .dialed _ r _ => r
  | .observed _ s | .unattached s | .vpnDialed s => some s
  | _ => none

/-- **A flow**, with the call that serves it.  `shut` is a completed `closeOnce`; `asked` and `retired`
are the lists of a closing holder and of a retry; what the paths were sent is kept. -/
structure Flow where
  owner : ℕ
  metadata : Metadata
  isLocal : Bool
  closed : Bool
  remote : Option ℕ
  shut : Bool
  ctxDone : Bool
  asked : Bool
  retired : Bool
  pc : Pc
  writing : Option Path
  localSent : List UInt8
  vpnSent : List UInt8
  vpnDials : ℕ

/-- A flow as it is registered. -/
def Flow.new (owner : ℕ) (metadata : Metadata) (isLocal : Bool) : Flow where
  owner := owner
  metadata := metadata
  isLocal := isLocal
  closed := false
  remote := none
  shut := false
  ctxDone := false
  asked := false
  retired := false
  pc := .entered
  writing := none
  localSent := []
  vpnSent := []
  vpnDials := 0

/-- What a flow sees of its surroundings: the contexts and channels of its holder's admissions, and
the number of the next socket. -/
structure Surroundings where
  withdrawErr : String → Bool
  resolved : String → Bool
  fresh : ℕ

/-- What a step does to the sockets. -/
inductive Effect
  | none
  | opens
  | closes (socket : ℕ)
  deriving DecidableEq, Repr

/-- Close a socket, if there is one. -/
def Effect.ofSocket? : Option ℕ → Effect
  | some s => .closes s
  | Option.none => .none

/-- What ends a wait. -/
inductive WakeCause
  | resolved
  | withdrawn
  | context
  | timer
  deriving DecidableEq, Repr

/-- The steps of a flow. -/
inductive FlowEvent
  | cancel
  | check
  | wait (now : ℤ)
  | wake (cause : WakeCause)
  | woken
  | rejoin
  | decide
  | dialed (outcome : DialOutcome)
  | judge
  | report
  | fallBack
  | attach
  | discard
  | vpnEnter
  | vpnDial
  | vpnDialed (ok : Bool)
  | vpnAttach
  | vpnCount
  | write
  | wrote (bytes : List UInt8)
  | manager
  | finish
  | close
  | shut
  | leave

/-- **One step of a flow**, in its holder. -/
def flowStep (h : Outbound) (s : Surroundings) (f : ℕ) (x : Flow) :
    FlowEvent → Option (Outbound × Flow × Effect)
  | .cancel => some (h, { x with ctxDone := true }, .none)
  | .check =>
    match x.pc with
    | .entered =>
      if x.ctxDone then some (h, { x with pc := .ending }, .none)
      else if x.metadata.eligible then some (h, { x with pc := .eligible }, .none)
      else some (h, { x with pc := .vpn }, .none)
    | _ => none
  | .wait now =>
    match x.pc with
    | .eligible =>
      match h.beginWait now with
      | none => some (h, { x with pc := .ending }, .none)
      | some (id, true) => some (h, { x with pc := .waiting id }, .none)
      | some (id, false) => some (h, { x with pc := .woken id }, .none)
    | _ => none
  | .wake cause =>
    match x.pc with
    | .waiting id =>
      let may : Bool := match cause with
        | .resolved => s.resolved id
        | .withdrawn => s.withdrawErr id
        | .context => x.ctxDone
        | .timer => true
      if may then some (h, { x with pc := .woken id }, .none) else none
    | _ => none
  | .woken =>
    match x.pc with
    | .woken id => some (h, { x with pc := if x.ctxDone then .ending else .joined id }, .none)
    | _ => none
  | .rejoin =>
    match x.pc with
    | .joined id =>
      some (h, { x with pc := if h.endWait id (s.withdrawErr id) then .resolved else .ending }, .none)
    | _ => none
  | .decide =>
    match x.pc with
    | .resolved =>
      if h.closed then some (h, { x with pc := .ending }, .none)
      else some (h, { x with
        isLocal := h.isReady
        pc := if h.isReady then .dialing h.admissionID else .vpn }, .none)
    | _ => none
  | .dialed o =>
    match x.pc with
    | .dialing id =>
      if o.remote then
        some (h, { x with pc := .dialed id (some s.fresh) o }, .opens)
      else if o.err.isSome then some (h, { x with pc := .dialed id none o }, .none)
      else none
    | _ => none
  | .judge =>
    match x.pc with
    | .dialed id r o =>
      if x.ctxDone || s.withdrawErr id || o.err == some .canceled then
        some (h, { x with pc := .ending }, .ofSocket? r)
      else if o.err.isSome || o.setupExceeded then
        some (h, { x with pc := .reporting id (o.reason x.metadata.is4) }, .ofSocket? r)
      else match r with
        | some r => some (h, { x with pc := .observed id r }, .none)
        | none => none
    | _ => none
  | .report =>
    match x.pc with
    | .reporting id reason => some (h.failAdmission id reason, { x with pc := .falling id }, .none)
    | _ => none
  | .fallBack =>
    match x.pc with
    | .falling id =>
      some (h, { x with pc := if h.unavailable id || s.withdrawErr id then .ending else .vpn }, .none)
    | _ => none
  | .attach =>
    match x.pc with
    | .observed id r =>
      if h.attachable id x.ctxDone && !x.closed then
        some ({ h with localHandoffs := h.localHandoffs + 1 },
          { x with remote := some r, pc := .handed .offload id }, .none)
      else some (h, { x with pc := .unattached r }, .none)
    | _ => none
  | .discard =>
    match x.pc with
    | .unattached r => some (h, { x with pc := .ending }, .closes r)
    | _ => none
  | .vpnEnter =>
    match x.pc with
    | .vpn => some (h, { x with isLocal := false, pc := .vpnReady }, .none)
    | _ => none
  | .vpnDial =>
    match x.pc with
    | .vpnReady =>
      if x.ctxDone then some (h, { x with pc := .ending }, .none)
      else some (h, { x with vpnDials := x.vpnDials + 1, pc := .vpnDialing }, .none)
    | _ => none
  | .vpnDialed ok =>
    match x.pc with
    | .vpnDialing =>
      if ok then some (h, { x with pc := .vpnDialed s.fresh }, .opens)
      else some (h, { x with pc := .ending }, .none)
    | _ => none
  | .vpnAttach =>
    match x.pc with
    | .vpnDialed r =>
      if x.closed then some (h, { x with pc := .ending }, .closes r)
      else some (h, { x with remote := some r, pc := .vpnAttached }, .none)
    | _ => none
  | .vpnCount =>
    match x.pc with
    | .vpnAttached =>
      some ({ h with vpnHandoffs := h.vpnHandoffs + 1 }, { x with pc := .handed .vpn "" }, .none)
    | _ => none
  | .write =>
    match x.pc with
    | .handed .offload id =>
      if h.writable id x.ctxDone then some (h, { x with writing := some .offload }, .none)
      else some (h, x, .none)
    | .handed .vpn _ => some (h, { x with writing := some .vpn }, .none)
    | _ => none
  | .wrote bytes =>
    match x.writing with
    | some .offload =>
      some (h, { x with writing := none, localSent := x.localSent ++ bytes }, .none)
    | some .vpn => some (h, { x with writing := none, vpnSent := x.vpnSent ++ bytes }, .none)
    | none => none
  | .manager =>
    match x.pc with
    | .handed _ _ => some (h, { x with pc := .ending }, .none)
    | _ => none
  | .finish =>
    match x.pc with
    | .ending => some (h, { x with closed := true, pc := .finishing }, .none)
    | _ => none
  | .close =>
    if x.ctxDone || x.asked || (x.retired && x.isLocal) then
      some (h, { x with closed := true }, .none)
    else none
  | .shut =>
    if x.closed && !x.shut then
      some (h, { x with shut := true, ctxDone := true }, .ofSocket? x.remote)
    else none
  | .leave =>
    match x.pc with
    | .finishing =>
      if x.shut then
        some ({ h with flows := h.flows.filter (· != f) }, { x with pc := .returned }, .none)
      else none
    | _ => none

/-! ## The runtime -/

/-- Where the withdrawal of a holder stands; the lists are the flows still to be closed. -/
inductive Withdrawal
  | idle
  | cancelling (id : String) (todo : List ℕ)
  | closing (id : String) (todo : List ℕ)
  | joining (id : String) (flow : ℕ) (todo : List ℕ)
  | complete (id : String)
  deriving DecidableEq

/-- The flows a withdrawal has still to close, the one it waits for included. -/
def Withdrawal.pending : Withdrawal → List ℕ
  | .cancelling _ todo | .closing _ todo => todo
  | .joining _ f todo => f :: todo
  | _ => []

/-- **The runtime.**  Withdrawal contexts and resolution channels are those of a holder's admission;
`closings` counts how often a channel was closed. -/
structure World where
  holders : ℕ → Outbound
  runtimeDone : ℕ → Bool
  cancelled : ℕ → String → Bool
  closings : ℕ → String → ℕ
  withdrawals : ℕ → Withdrawal
  flows : ℕ → Flow
  flowCount : ℕ
  socketClosed : ℕ → Bool
  socketCount : ℕ

/-- What may happen. -/
inductive Event
  | start (i : ℕ) (now : ℤ)
  | accept (i : ℕ) (metadata : Metadata)
  | packet (i port : ℕ)
  | admitAdmission (i : ℕ) (id : String)
  | fail (i : ℕ) (id : String) (reason : AdmissionFailure)
  | withdraw (i : ℕ) (id : String)
  | withdrawCancel (i : ℕ)
  | withdrawNext (i : ℕ)
  | withdrawJoin (i : ℕ)
  | withdrawDone (i : ℕ)
  | retry (holders : List ℕ) (expectedIDs newIDs : List String)
  | close (i : ℕ)
  | runtimeDone (i : ℕ)
  | flow (f : ℕ) (e : FlowEvent)

/-- What a call returns. -/
inductive Output
  | none
  | answer (ok : Bool)
  | packet (answer : Outbound.PacketAnswer)
  deriving DecidableEq, Repr

namespace World

variable (w : World)

/-- Fresh holders, before any call. -/
def start (holders : ℕ → Outbound) : World where
  holders := holders
  runtimeDone := fun _ => false
  cancelled := fun _ _ => false
  closings := fun _ _ => 0
  withdrawals := fun _ => .idle
  flows := fun _ => { Flow.new 0 ⟨false, 0, false, false, false, false⟩ false with pc := .returned }
  flowCount := 0
  socketClosed := fun _ => false
  socketCount := 0

/-- Replace a holder. -/
@[simps -fullyApplied] def setHolder (i : ℕ) (h : Outbound) : World :=
  { w with holders := Function.update w.holders i h }

@[simps -fullyApplied] def setFlow (f : ℕ) (x : Flow) : World :=
  { w with flows := Function.update w.flows f x }

@[simps -fullyApplied] def setWithdrawal (i : ℕ) (pc : Withdrawal) : World :=
  { w with withdrawals := Function.update w.withdrawals i pc }

/-- `close(h.admissionResolved)`, of the channel of an admission. -/
@[simps -fullyApplied] def closeResolved (i : ℕ) (id : String) : World :=
  { w with
    closings := Function.update w.closings i
      (Function.update (w.closings i) id (w.closings i id + 1)) }

/-- Cancel the withdrawal context of an admission. -/
@[simps -fullyApplied] def cancelWithdraw (i : ℕ) (id : String) : World :=
  { w with
    cancelled := Function.update w.cancelled i (Function.update (w.cancelled i) id true) }

/-- Change the flows of a list. -/
@[simps -fullyApplied] def mark (l : List ℕ) (φ : Flow → Flow) : World :=
  { w with flows := fun f => if f ∈ l then φ (w.flows f) else w.flows f }

/-- The sockets after a step. -/
def perform : Effect → World
  | .none => w
  | .opens =>
    { w with
      socketClosed := Function.update w.socketClosed w.socketCount false
      socketCount := w.socketCount + 1 }
  | .closes s => { w with socketClosed := Function.update w.socketClosed s true }

/-- What a flow of a holder sees. -/
def surroundings (i : ℕ) : Surroundings where
  withdrawErr := fun id => w.cancelled i id || w.runtimeDone i
  resolved := fun id => decide (0 < w.closings i id)
  fresh := w.socketCount

/-- The local flows registered with a holder. -/
def localFlows (i : ℕ) : List ℕ := (w.holders i).flows.filter fun f => (w.flows f).isLocal

/-- A holder is renewed: its old admission is withdrawn, and its local flows are listed. -/
def renew (i : ℕ) (newID : String) : World :=
  ((w.cancelWithdraw i (w.holders i).admissionID).mark (w.localFlows i) fun x =>
    { x with retired := true }).setHolder i ((w.holders i).renew newID)

/-- **The section of `PrepareWindowsRetry`**, under the mutexes of all its holders. -/
def prepareWindowsRetry (holders : List ℕ) (expectedIDs newIDs : List String) : Option World :=
  if holders = [] ∨ holders.length ≠ expectedIDs.length ∨ 256 < holders.length ∨
      ¬holders.Nodup ∨ newIDs.length ≠ holders.length ∨
      ¬(holders.zip expectedIDs).all (fun p => (w.holders p.1).retryable (w.runtimeDone p.1) p.2) ∨
      ¬expectedIDs.Nodup ∨ newIDs.any (expectedIDs.contains ·) ∨ ¬newIDs.Nodup ∨
      ¬holders.any (fun i => (w.holders i).mendable) then none
  else some ((holders.zip newIDs).foldl (fun w p => w.renew p.1 p.2) w)

/-- A connection is registered. -/
def accept (i : ℕ) (metadata : Metadata) : World :=
  let h := w.holders i
  { w.setHolder i { h with flows := w.flowCount :: h.flows } with
    flows := Function.update w.flows w.flowCount
      (Flow.new i metadata (metadata.eligible && h.isReady))
    flowCount := w.flowCount + 1 }

/-- **One event.** -/
def step : Event → Option (World × Output)
  | .start i now => some (w.setHolder i ((w.holders i).start now), .none)
  | .accept i metadata =>
    if (w.holders i).closed then some (w, .none) else some (w.accept i metadata, .none)
  | .packet i port =>
    let r := (w.holders i).newPacketConnection port
    some (w.setHolder i r.1, .packet r.2)
  | .admitAdmission i id =>
    match (w.holders i).admitAdmission id with
    | none => some (w, .answer false)
    | some h => some ((w.setHolder i h).closeResolved i id, .answer true)
  | .fail i id reason => some (w.setHolder i ((w.holders i).failAdmission id reason), .none)
  | .withdraw i id =>
    match (w.holders i).withdrawAdmission id with
    | none => some (w, .answer false)
    | some h =>
      let w' := if (w.holders i).admission = .unpublished then w.closeResolved i id else w
      some ((w'.setHolder i h).setWithdrawal i (.cancelling id (w.localFlows i)), .none)
  | .withdrawCancel i =>
    match w.withdrawals i with
    | .cancelling id todo =>
      some ((w.cancelWithdraw i id).setWithdrawal i (.closing id todo), .none)
    | _ => none
  | .withdrawNext i =>
    match w.withdrawals i with
    | .closing id (f :: todo) =>
      if (w.flows f).isLocal then
        some ((w.setFlow f { w.flows f with closed := true }).setWithdrawal i
          (.joining id f todo), .none)
      else some (w.setWithdrawal i (.closing id todo), .none)
    | _ => none
  | .withdrawJoin i =>
    match w.withdrawals i with
    | .joining id f todo =>
      if (w.flows f).shut then some (w.setWithdrawal i (.closing id todo), .none) else none
    | _ => none
  | .withdrawDone i =>
    match w.withdrawals i with
    | .closing id [] =>
      some ((w.setHolder i ((w.holders i).withdrawComplete id)).setWithdrawal i (.complete id),
        .answer true)
    | _ => none
  | .retry holders expectedIDs newIDs =>
    match w.prepareWindowsRetry holders expectedIDs newIDs with
    | none => some (w, .answer false)
    | some w' => some (w', .answer true)
  | .close i =>
    some ((w.mark (w.holders i).flows fun x => { x with asked := true }).setHolder i
      { w.holders i with closed := true }, .none)
  | .runtimeDone i =>
    some ({ w with runtimeDone := Function.update w.runtimeDone i true }, .none)
  | .flow f e =>
    if f < w.flowCount then
      (flowStep (w.holders (w.flows f).owner) (w.surroundings (w.flows f).owner) f (w.flows f) e).map
        fun r => (((w.setHolder (w.flows f).owner r.1).setFlow f r.2.1).perform r.2.2, .none)
    else none

/-- The machine of a runtime. -/
def machine : Machine World Event Output := ⟨fun w e => w.step e⟩

end World

end PokrovCore.LocalDpi
