import PokrovCore.Foundations.SortedMap
import PokrovCore.SmartAccess.Lease
import PokrovCore.SmartAccess.Relay

/-!
# SmartAccess/Outbound — the outbound's state and its critical sections

Generations and flows are objects with identity: an outbound keeps a heap of each, addressed by
number, and everything else — the current lease, the table of leases by id, the set of registered
flows, a flow's authorization — is an address.  Every function here is one critical section of the
outbound's mutex (or of a flow's), so a run of the outbound is a sequence of them; the clock samples
a section takes are arguments.
-/

namespace PokrovCore.SmartAccess

/-- How a domain of the signed scope matches a name. -/
inductive DomainMatch
  | exact
  | suffix
  deriving DecidableEq, Repr

/-- One domain of the signed scope. -/
structure SmartAccessDomain where
  name : String
  kind : DomainMatch
  deriving DecidableEq, Repr

/-- One admitted flow.  `active` is set once, by the final admission. -/
structure LeaseFlow where
  authorization : ℕ
  remote : Bool
  closed : Bool
  active : Bool
  deriving DecidableEq, Repr

/-- What the constructor takes over from the signed grant, besides the first lease. -/
structure OutboundOptions where
  relays : List String
  relayPolicy : Option RelayConnectPolicy
  domains : List SmartAccessDomain
  maxNew : ℕ
  maxConcurrent : ℕ

/-- **The outbound.**  `gens` and `flowOf` are the heaps, allocated below `genCount` and
`flowCount`. -/
structure Outbound where
  options : OutboundOptions
  relayStates : ℕ → RelayConnectState
  preferredRelay : ℕ
  gens : ℕ → LeaseAuthorization
  genCount : ℕ
  lease : ℕ
  leases : SortedMap String ℕ
  flowOf : ℕ → LeaseFlow
  flowCount : ℕ
  flows : List ℕ
  attempts : List Sample
  closed : Bool
  revoked : Bool
  terminateActive : Bool

/-- The outbound of a first lease. -/
def newOutbound (options : OutboundOptions) (lease : LeaseAuthorization) : Outbound where
  options := options
  relayStates := fun _ => RelayConnectState.fresh
  preferredRelay := 0
  gens := fun _ => lease
  genCount := 1
  lease := 0
  leases := SortedMap.empty.insert lease.id 0
  flowOf := fun _ => ⟨0, false, false, false⟩
  flowCount := 0
  flows := []
  attempts := []
  closed := false
  revoked := false
  terminateActive := false

/-- An outbound of the sample lease with one relay and room for two flows. -/
def sampleOptions : OutboundOptions := ⟨["203.0.113.1"], none, [⟨"example.org", .exact⟩], 2, 2⟩
@[inherit_doc sampleOptions] def sampleOutbound : Outbound := newOutbound sampleOptions sampleLease

namespace Outbound

/-! ## Admission -/

/-- Change one generation in place. -/
def modifyGen (h : Outbound) (g : ℕ) (φ : LeaseAuthorization → LeaseAuthorization) : Outbound :=
  { h with gens := Function.update h.gens g (φ (h.gens g)) }

/-- Change one flow in place. -/
def modifyFlow (h : Outbound) (f : ℕ) (φ : LeaseFlow → LeaseFlow) : Outbound :=
  { h with flowOf := Function.update h.flowOf f (φ (h.flowOf f)) }

/-- The current generation. -/
def current (h : Outbound) : LeaseAuthorization := h.gens h.lease

/-- The latch an admission check may set. -/
def latch (h : Outbound) (g : ℕ) (now : Sample) : Outbound :=
  h.modifyGen g (LeaseAuthorization.expire · now)

/-- The verdict of an admission check, after its latch. -/
def admits (h : Outbound) (g : ℕ) : Bool := !h.closed && !h.revoked && (h.gens g).open?

/-- **The admission check of a generation.** -/
def admitsLeaseLocked (h : Outbound) (g : ℕ) (now : Sample) : Outbound × Bool :=
  (h.latch g now, (h.latch g now).admits g)

/-- The admission check of the current generation. -/
def admitsLocked (h : Outbound) (now : Sample) : Outbound × Bool := h.admitsLeaseLocked h.lease now

/-- Forget the attempts that are a minute old. -/
def pruneAttempts (h : Outbound) (now : Sample) : Outbound :=
  { h with attempts := h.attempts.dropWhile fun t =>
      decide (Time.minute ≤ (Time.ofSample now).sub (Time.ofSample t)) }

/-- Register a new flow of the current generation, and count the attempt. -/
def register (h : Outbound) (now : Sample) : Outbound :=
  { h with
    flowOf := Function.update h.flowOf h.flowCount ⟨h.lease, false, false, false⟩
    flowCount := h.flowCount + 1
    flows := h.flows ++ [h.flowCount]
    attempts := h.attempts ++ [now] }

/-- Has the outbound no room for another flow? -/
def full (h : Outbound) : Bool :=
  decide (h.options.maxConcurrent ≤ h.flows.length) ||
    decide (h.options.maxNew ≤ h.attempts.length)

/-- **The first critical section of `newConnection`**: the flow it registers, if it admits. -/
def admitFlow (h : Outbound) (now : Sample) : Outbound × Option ℕ :=
  let h := (h.pruneAttempts now).latch h.lease now
  if !h.admits h.lease || h.full then (h, none) else (h.register now, some h.flowCount)

/-- **The final critical section of `newConnection`**: the flow becomes active, if it admits. -/
def activate (h : Outbound) (f : ℕ) (now : Sample) : Outbound × Bool :=
  let h := h.latch (h.flowOf f).authorization now
  if h.admits (h.flowOf f).authorization then
    (h.modifyFlow f fun flow => { flow with active := true }, true)
  else (h, false)

/-- A real flow failure belongs to the current, still admitted generation only. -/
def recordProbeFailure (h : Outbound) (g : ℕ) (stage : ProbeStage) (now : Sample) : Outbound :=
  if h.lease = g then
    let h := h.latch g now
    if h.admits g then h.modifyGen g (LeaseAuthorization.failProbe · stage) else h
  else h

/-- What a failed provider resolver does to its outbound. -/
def dnsFailed (h : Outbound) (now : Sample) : Outbound := h.recordProbeFailure h.lease .dns now

/-- The name is one of the signed scope. -/
def allows (h : Outbound) (name : String) : Bool :=
  h.options.domains.any fun domain =>
    name == domain.name ||
      (domain.kind == .suffix && ("." ++ domain.name).toList.isSuffixOf name.toList)

/-! ## Queries -/

/-- Route and DNS rules ask this; it registers nothing. -/
def admitsNewFlows (h : Outbound) (now : Sample) : Outbound × Bool := h.admitsLocked now

/-- The id of the current generation. -/
def leaseID (h : Outbound) : String := h.current.id

/-- Is this grant the current generation, and does that one admit?  The clock is read only when the
identity and the dates are the current ones. -/
def acceptsRenewalEnrollment (h : Outbound)
    (id issuedAt newFlowsUntil activeFlowsUntil : String) (now : Sample) : Outbound × Bool :=
  if h.current.id = id ∧ h.current.issued.format = issuedAt ∧
      h.current.newUntil.format = newFlowsUntil ∧
      h.current.activeUntil.format = activeFlowsUntil then h.admitsLocked now
  else (h, false)

/-- A fresh grant may renew an expired admission window, but not a revoked or replaced lease. -/
def canRenewLease (h : Outbound) (id : String) : Bool :=
  !h.closed && !h.revoked && !h.current.revoked && h.current.id == id

/-- A readiness receipt stays current while the lease it was taken under does. -/
def readinessCurrent (h : Outbound) (id : String) (now : Sample) : Outbound × Bool :=
  if h.current.id = id then h.admitsLocked now else (h, false)

/-- Could a new flow be admitted and dialled now?  A read of local state, no reservation. -/
def availableForNewFlows (h : Outbound) (now : Sample) : Outbound × Bool :=
  let h := h.latch h.lease now
  if !h.admits h.lease || decide (h.options.maxConcurrent ≤ h.flows.length) then (h, false)
  else
    let h := h.pruneAttempts now
    if h.options.maxNew ≤ h.attempts.length then (h, false)
    else if h.options.relayPolicy.isNone then (h, true)
    else (h, (List.range h.options.relays.length).any fun i =>
      (h.relayStates i).free now)

/-! ## Relays -/

/-- What a reservation hands to the dial. -/
structure Reservation where
  index : ℕ
  epoch : UInt64
  probe : Bool
  deriving DecidableEq

/-- The order in which relays are tried: from the preferred one, cyclically. -/
def relayOrder (h : Outbound) : List ℕ :=
  (List.range h.options.relays.length).map fun offset =>
    (h.preferredRelay + offset) % h.options.relays.length

/-- **Reserve one relay attempt.**  The admission consumed the first quota slot; every extra dial
consumes another. -/
def reserveRelay (h : Outbound) (g : ℕ) (visited : List ℕ) (extra : Bool) (now : Sample) :
    Outbound × Option Reservation :=
  let h := h.latch g now
  if !h.admits g then (h, none)
  else
    let h := h.pruneAttempts now
    if extra && decide (h.options.maxNew ≤ h.attempts.length) then (h, none)
    else
      match h.relayOrder.find? fun i => !visited.contains i && (h.relayStates i).free now with
      | none => (h, none)
      | some index =>
        let st := h.relayStates index
        ({ h with
            relayStates := Function.update h.relayStates index st.reserve
            attempts := if extra then h.attempts ++ [now] else h.attempts },
          some ⟨index, st.epoch, st.probe⟩)

/-- **Complete a reserved attempt**, and whether its connection is accepted.  A success also makes
the relay the preferred one. -/
def completeRelay (h : Outbound) (policy : RelayConnectPolicy) (r : Reservation)
    (success cancelled : Bool) (now : Sample) : Outbound × Bool :=
  let c := (h.relayStates r.index).complete policy r.epoch r.probe success cancelled now
  ({ h with
      relayStates := Function.update h.relayStates r.index c.1
      preferredRelay := if c.2 then r.index else h.preferredRelay }, c.2)

/-! ## Flows -/

/-- The dialled connection is attached, unless the flow is closed already. -/
def setRemote (h : Outbound) (f : ℕ) : Outbound × Bool :=
  if (h.flowOf f).closed then (h, false)
  else (h.modifyFlow f fun flow => { flow with remote := true }, true)

/-- The first critical section of a flow's `Close`, under the flow's own mutex. -/
def closeFlow (h : Outbound) (f : ℕ) : Outbound :=
  h.modifyFlow f fun flow => { flow with closed := true }

/-- …and the last one, under the outbound's. -/
def deregister (h : Outbound) (f : ℕ) : Outbound :=
  { h with flows := h.flows.filter (· != f) }

/-- The part of a flow's `current` under the outbound's mutex. -/
def terminated (h : Outbound) (f : ℕ) : Bool :=
  h.terminateActive || (h.gens (h.flowOf f).authorization).terminateActive

/-- **What a flow's `current` answers** when it runs undisturbed on one sample. -/
def flowCurrent (h : Outbound) (f : ℕ) (now : Sample) : Bool :=
  !(h.gens (h.flowOf f).authorization).outsideActive now && !h.terminated f &&
    !(h.flowOf f).closed

/-! ## Restriction -/

/-- The whole outbound is revoked; the result is the flows the call goes on to close. -/
def revoke (h : Outbound) (terminateActive : Bool) : Outbound × List ℕ :=
  ({ h with revoked := true, terminateActive := h.terminateActive || terminateActive },
    h.flows.filter fun f => terminateActive || !(h.flowOf f).active)

/-- One generation is revoked by its id; nothing happens, and the answer is false, if no retained
generation has that id. -/
def revokeLease (h : Outbound) (leaseID : String) (terminateActive : Bool) :
    Outbound × Option (List ℕ) :=
  match h.leases.get? leaseID with
  | none => (h, none)
  | some g =>
    (h.modifyGen g (LeaseAuthorization.restrict · terminateActive),
      some (h.flows.filter fun f =>
        (h.flowOf f).authorization == g && (terminateActive || !(h.flowOf f).active)))

/-- The outbound is closed, and every registered flow with it. -/
def close (h : Outbound) : Outbound × List ℕ :=
  ({ h with closed := true, terminateActive := true }, h.flows)

end Outbound

end PokrovCore.SmartAccess
