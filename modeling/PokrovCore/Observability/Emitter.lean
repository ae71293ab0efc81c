import PokrovCore.Foundations.Hex
import PokrovCore.Foundations.Machine

/-!
# Observability/Emitter — operational events, numbered and delivered

An emit takes a number under the lock and sends its event to a bounded channel after it has given the
lock back; one goroutine takes the events out and hands each to the sink there is then.  The calls and
the goroutine interleave, so an event that has its number stands in `numbered` until its own emit
sends it.
-/

namespace PokrovCore.Observability

/-! ## Events -/

def schemaVersion : ℕ := 1
def eventABIVersion : ℕ := 1
def maximumPendingEvents : ℕ := 128

inductive Severity
  | info
  | error
  deriving DecidableEq, Repr

/-- An outcome; the type of the source has every text. -/
inductive Outcome
  | started
  | succeeded
  | failed
  | other (text : String)
  deriving DecidableEq, Repr

structure Definition where
  name : String
  subsystem : String
  stage : String
  phase : String
  deriving DecidableEq, Repr

def runtimeInitialize : Definition :=
  ⟨"core.runtime.initialize", "core", "initialize", "initialization"⟩
def runtimeStart : Definition := ⟨"core.runtime.start", "core", "start", "core_start"⟩
def runtimeStop : Definition := ⟨"core.runtime.stop", "core", "stop", "stop"⟩
def egressProbe : Definition := ⟨"core.egress.probe", "egress", "verify", "egress"⟩
def dnsProbeReceive : Definition := ⟨"core.dns.probe", "dns", "receive", "dns"⟩
def dnsProbeExchange : Definition := ⟨"core.dns.probe", "dns", "exchange", "dns"⟩
def dnsProbeReply : Definition := ⟨"core.dns.probe", "dns", "reply", "dns"⟩

/-- The definitions an event may have. -/
def definitions : List Definition :=
  [runtimeInitialize, runtimeStart, runtimeStop, egressProbe, dnsProbeReceive, dnsProbeExchange,
    dnsProbeReply]

/-- `isKnownErrorCode` -/
def isKnownErrorCode (code : String) : Bool :=
  ["CORE-003", "CORE-005", "CORE-006", "CORE-008", "EGRESS-001", "DNS-002", "TRANSPORT-001",
    "TRANSPORT-002", "TRANSPORT-003", "TRANSPORT-004", "TRANSPORT-005", "TRANSPORT-006",
    "TRANSPORT-007"].contains code

/-- **`validateEvent`**: the severity of an event that is valid. -/
def validateEvent (definition : Definition) (outcome : Outcome) (errorCode : String) :
    Option Severity :=
  if definition ∉ definitions then none
  else if definition = dnsProbeReceive ∧ outcome ≠ .started ∨
      (definition = dnsProbeExchange ∨ definition = dnsProbeReply) ∧
        outcome ≠ .succeeded ∧ outcome ≠ .failed then none
  else if (definition = dnsProbeExchange ∨ definition = dnsProbeReply) ∧ outcome = .failed ∧
      errorCode ≠ "DNS-002" then none
  else if outcome ≠ .started ∧ outcome ≠ .succeeded ∧ outcome ≠ .failed then none
  else if outcome = .failed then
    if isKnownErrorCode errorCode then some .error else none
  else if errorCode ≠ "" then none
  else some .info

/-- **An event.** -/
structure Event where
  schemaVersion : ℕ
  eventABI : ℕ
  occurredAtUTC : ℤ
  runID : String
  attemptID : String
  generation : ℤ
  sequence : ℤ
  name : String
  subsystem : String
  stage : String
  severity : Severity
  outcome : Outcome
  errorCode : String
  phase : String
  deriving DecidableEq, Repr

/-- The definition an event was made from. -/
def Event.definition (event : Event) : Definition :=
  ⟨event.name, event.subsystem, event.stage, event.phase⟩

/-! ## The emitter -/

/-- Who owns the emits of a captured context. -/
structure EventContext where
  runID : String
  attemptID : String
  generation : ℤ
  deriving DecidableEq, Repr

/-- **The emitter**, its channel and its delivery goroutine, which may have taken an event and not
read the sink yet.  `numbered` has the events whose emit has not sent them, `captured` the contexts
that were handed out, `accepted` the events that took a number, with their owner, and `delivered` what
was handed to which sink. -/
structure Emitter where
  capacity : ℕ
  sink : Option ℕ
  runID : String
  attemptID : String
  generation : ℤ
  sequence : ℤ
  firstOwnedDNSReceived : Bool
  numbered : List Event
  pending : List Event
  received : Option Event
  captured : List EventContext
  accepted : List (Option EventContext × Event)
  delivered : List (ℕ × Event)
  deriving DecidableEq, Repr

/-- `^[0-9a-f]{8}-[0-9a-f]{4}-[1-5][0-9a-f]{3}-[89ab][0-9a-f]{3}-[0-9a-f]{12}$` -/
def uuidPattern (text : String) : Bool :=
  hexGroups [8, 4, 4, 4, 12] text.toList &&
    (text.toList[14]?).any (fun c => '1' ≤ c && c ≤ '5') &&
    (text.toList[19]?).any (['8', '9', 'a', 'b'].contains ·)

/-- Why a configuration is refused. -/
inductive ConfigureError
  | invalidRunIdentifier
  | invalidAttemptIdentifier
  | invalidGeneration
  | staleGeneration
  deriving DecidableEq, Repr

namespace Emitter

/-- `NewEmitter` -/
def newEmitter (maximumPending : ℤ) : Emitter where
  capacity := if maximumPending < 1 ∨ (maximumPendingEvents : ℤ) < maximumPending then
    maximumPendingEvents else maximumPending.toNat
  sink := none
  runID := ""
  attemptID := ""
  generation := 0
  sequence := 0
  firstOwnedDNSReceived := false
  numbered := []
  pending := []
  received := none
  captured := []
  accepted := []
  delivered := []

variable (e : Emitter)

/-- The context there is now. -/
def context : EventContext := ⟨e.runID, e.attemptID, e.generation⟩

/-- **`Configure`** -/
def configure (runID attemptID : String) (generation : ℤ) : Except ConfigureError Emitter :=
  if !uuidPattern runID then .error .invalidRunIdentifier
  else if !uuidPattern attemptID then .error .invalidAttemptIdentifier
  else if generation < 1 ∨ 2147483647 < generation then .error .invalidGeneration
  else if generation < e.generation then .error .staleGeneration
  else .ok
    { e with
      sequence := if e.generation < generation then 0 else e.sequence
      firstOwnedDNSReceived := if e.generation < generation then false else e.firstOwnedDNSReceived
      runID := runID
      attemptID := attemptID
      generation := generation }

/-- `CaptureContext`: the context, if there is a sink and a generation. -/
def captureContext : Option EventContext :=
  if e.sink.isSome ∧ 0 < e.generation then some e.context else none

/-- The event that takes the next number. -/
def nextEvent (definition : Definition) (severity : Severity) (outcome : Outcome)
    (errorCode : String) (now : ℤ) : Event :=
  { schemaVersion := Observability.schemaVersion
    eventABI := eventABIVersion
    occurredAtUTC := now
    runID := e.runID
    attemptID := e.attemptID
    generation := e.generation
    sequence := e.sequence + 1
    name := definition.name
    subsystem := definition.subsystem
    stage := definition.stage
    severity := severity
    outcome := outcome
    errorCode := errorCode
    phase := definition.phase }

/-- **`emit`, under the lock**: the event is refused, or takes a number. -/
def emit (definition : Definition) (outcome : Outcome) (errorCode : String)
    (owner : Option EventContext) (now : ℤ) : Option Emitter :=
  match validateEvent definition outcome errorCode with
  | none => none
  | some severity =>
    if e.sink = none ∨ e.generation < 1 then none
    else if owner.any (· ≠ e.context) then none
    else if definition = dnsProbeReceive ∧ e.firstOwnedDNSReceived = true then none
    else
      let event := e.nextEvent definition severity outcome errorCode now
      some
        { e with
          firstOwnedDNSReceived := e.firstOwnedDNSReceived || decide (definition = dnsProbeReceive)
          sequence := e.sequence + 1
          numbered := e.numbered ++ [event]
          accepted := e.accepted ++ [(owner, event)] }

/-- **`emit`, after the lock**: the event goes to the channel, or is dropped where that is full. -/
def send (k : ℕ) : Option (Emitter × Bool) :=
  match e.numbered[k]? with
  | none => none
  | some event =>
    let e := { e with numbered := e.numbered.eraseIdx k }
    some (if e.pending.length < e.capacity then ({ e with pending := e.pending ++ [event] }, true)
      else (e, false))

/-- The goroutine takes an event out of the channel. -/
def receive : Option Emitter :=
  match e.received, e.pending with
  | none, event :: rest => some { e with received := some event, pending := rest }
  | _, _ => none

/-- **The goroutine hands its event to the sink**, if there is one. -/
def deliver : Option Emitter :=
  match e.received with
  | none => none
  | some event =>
    some
      { e with
        received := none
        delivered := e.delivered ++ (e.sink.map fun sink => (sink, event)).toList }

end Emitter

/-- What may happen.  An emit has no owner, or one of the contexts that were captured. -/
inductive Op
  | setSink (sink : Option ℕ)
  | configure (runID attemptID : String) (generation : ℤ)
  | captureContext
  | emit (definition : Definition) (outcome : Outcome) (errorCode : String) (owner : Option ℕ)
    (now : ℤ)
  | send (k : ℕ)
  | receive
  | deliver
  deriving DecidableEq, Repr

namespace Emitter

/-- **One operation**, and whether the call that makes it goes well. -/
def step (e : Emitter) : Op → Option (Emitter × Bool)
  | .setSink sink => some ({ e with sink := sink }, true)
  | .configure runID attemptID generation =>
    match e.configure runID attemptID generation with
    | .ok e' => some (e', true)
    | .error _ => some (e, false)
  | .captureContext =>
    match e.captureContext with
    | some owner => some ({ e with captured := e.captured ++ [owner] }, true)
    | none => some (e, false)
  | .emit definition outcome errorCode owner now =>
    match owner with
    | none => some (((e.emit definition outcome errorCode none now).map (·, true)).getD (e, false))
    | some k =>
      match e.captured[k]? with
      | none => none
      | some context =>
        some (((e.emit definition outcome errorCode (some context) now).map (·, true)).getD
          (e, false))
  | .send k => e.send k
  | .receive => e.receive.map (·, true)
  | .deliver => e.deliver.map (·, true)

def machine : Machine Emitter Op Bool := ⟨step⟩

end Emitter

end PokrovCore.Observability
