import PokrovCore.Route.Conditions
import PokrovCore.SmartAccess.DomainScope
import PokrovCore.SmartAccess.ServiceGroup

/-!
# Route/CatalogWindow — rules with a catalog window, and what they do to providers and groups

A rule compiled from the catalog has a window: it matches only while the catalog is current, the
lease of its provider admits, and the group of the service selects that provider.  Outside of its
dates, at its deadline and when it is withdrawn, a window latches.

What a window is compiled with is part of its rule; what a running core knows of it — the latch, the
provider and the group it was started with, the binding it has there — is in the box, by the place of
the rule.  `Match` is not interrupted here: one call is one step, with the samples it takes.
-/

namespace PokrovCore.Route

open SmartAccess (Outbound ServiceLeaseGroup CaseTable leaseIDPattern parseLeaseDate foldName
  newServiceLeaseGroup sampleClock sampleLease sampleOutbound)

variable {ρ ω : Type}

/-! ## Compiling a window -/

/-- The options of a window. -/
structure PokrovCatalogWindow where
  issuedAt : String
  expiresAt : String
  serviceID : String
  leaseID : String
  leaseGroup : List String
  deriving DecidableEq

/-- `^[a-z0-9][a-z0-9._-]{0,63}$`. -/
def catalogServiceIDPattern (id : String) : Bool :=
  match id.toList with
  | [] => false
  | c :: r =>
    (c.isLower || c.isDigit) && decide (r.length ≤ 63) &&
      r.all fun c => c.isLower || c.isDigit || c == '.' || c == '_' || c == '-'

/-- **A compiled window.** -/
structure CatalogRuleWindow where
  issuedAt : Date
  expiresAt : Date
  deadline : Sample
  leaseID : String
  serviceID : String
  leaseGroupIDs : List String
  bornExpired : Bool
  opens : issuedAt < expiresAt

/-- The checks on the group of a window. -/
def groupAccepted (options : PokrovCatalogWindow) : Bool :=
  options.leaseGroup.isEmpty ||
    decide (options.leaseID ≠ "") && decide (options.serviceID ≠ "") &&
      decide (options.leaseGroup.length ≤ 16) && options.leaseGroup.all leaseIDPattern &&
      decide options.leaseGroup.Nodup && options.leaseGroup.contains options.leaseID

/-- **Compile a window.**  The deadline counts from this call, so that a wall clock that is set back
does not extend it. -/
def newCatalogRuleWindow (options : PokrovCatalogWindow) (invert : Bool) (domains : ℕ)
    (outbounds : Bool) (now : Sample) : Except String CatalogRuleWindow := do
  if invert || domains == 0 then throw "catalog_window_requires_noninverted_domain_rule"
  let some issued := parseLeaseDate options.issuedAt | throw "catalog_window_time_invalid"
  let some expires := parseLeaseDate options.expiresAt | throw "catalog_window_time_invalid"
  if h : issued < expires then
    if now.beforeDate issued then throw "catalog_window_not_current"
    if options.leaseID ≠ "" then
      if !leaseIDPattern options.leaseID then throw "catalog_window_lease_invalid"
      if !outbounds then throw "catalog_window_lease_unavailable"
    if options.serviceID ≠ "" && !catalogServiceIDPattern options.serviceID then
      throw "catalog_window_service_invalid"
    if !groupAccepted options then throw "catalog_window_group_invalid"
    return ⟨issued, expires, now.deadline expires, options.leaseID, options.serviceID,
      options.leaseGroup, !now.beforeDate expires, h⟩
  else throw "catalog_window_time_invalid"

/-- A rule with an inverted condition or without a domain has no window. -/
theorem noninverted_of_newCatalogRuleWindow {options : PokrovCatalogWindow} {invert : Bool}
    {domains : ℕ} {outbounds : Bool} {now : Sample} {w : CatalogRuleWindow}
    (h : newCatalogRuleWindow options invert domains outbounds now = .ok w) : invert = false := by
  cases invert with
  | false => rfl
  | true => cases h

/-! ## Rules -/

/-- What a rule offers to the probes of its service: for names or for routes, and with which
server. -/
structure ProbeBinding where
  dns : Bool
  server : String
  deriving DecidableEq

/-- **A rule with a window.**  It is not inverted, and it has the domains it is for. -/
structure WindowedRule (ρ ω : Type) where
  conditions : Conditions ρ ω
  window : CatalogRuleWindow
  domainMatch : RuleItem ρ ω
  probe : Option ProbeBinding
  not_invert : conditions.invert = false
  domain_mem : domainMatch ∈ conditions.destinationAddressItems

inductive Rule (ρ ω : Type) where
  | plain (r : HeadlessRule ρ ω)
  | windowed (r : WindowedRule ρ ω)

/-- The window of a rule. -/
def Rule.window? : Rule ρ ω → Option CatalogRuleWindow
  | .plain _ => none
  | .windowed r => some r.window

/-- **A default rule with its domains**, and with a window if it has the options of one. -/
def newDefaultRule (conditions : Conditions ρ ω) (domains : ℕ) (domainItem : RuleItem ρ ω)
    (options : Option PokrovCatalogWindow) (probe : Option ProbeBinding) (outbounds : Bool)
    (now : Sample) : Except String (Rule ρ ω) :=
  let conditions' := { conditions with
    destinationAddressItems := domainItem :: conditions.destinationAddressItems }
  match options with
  | none => .ok (.plain (.default (if domains = 0 then conditions else conditions')))
  | some options =>
    match h : newCatalogRuleWindow options conditions.invert domains outbounds now with
    | .error e => .error e
    | .ok window =>
      .ok (.windowed ⟨conditions', window, domainItem, probe,
        noninverted_of_newCatalogRuleWindow h, List.mem_cons_self⟩)

theorem WindowedRule.isEmpty_eq_false (r : WindowedRule ρ ω) : r.conditions.isEmpty = false := by
  have hne : r.conditions.destinationAddressItems ≠ [] := List.ne_nil_of_mem r.domain_mem
  simp [Conditions.isEmpty, hne]

/-! ## The box -/

/-- What a running core knows of a window. -/
structure WindowState where
  expired : Bool
  lease : Option ℕ
  leaseGroup : Option ℕ
  probeUnbind : Option ℕ
  deriving DecidableEq

/-- **The box**: the providers, the groups of their services, and the windows by the place of their
rules.  `serviceGroup` is the group anchored at a provider. -/
structure Box where
  outbounds : ℕ → Outbound
  groups : ℕ → ServiceLeaseGroup
  groupCount : ℕ
  serviceGroup : ℕ → Option ℕ
  windows : ℕ → WindowState

/-- Where a core finds its providers and its resolvers: by their tags. -/
structure Managers where
  outbound : String → Option ℕ
  transport : String → Option ℕ

namespace Box

def setWindow (b : Box) (i : ℕ) (φ : WindowState → WindowState) : Box :=
  { b with windows := Function.update b.windows i (φ (b.windows i)) }

def setOutbound (b : Box) (m : ℕ) (φ : Outbound → Outbound) : Box :=
  { b with outbounds := Function.update b.outbounds m (φ (b.outbounds m)) }

def setGroup (b : Box) (g : ℕ) (φ : ServiceLeaseGroup → ServiceLeaseGroup) : Box :=
  { b with groups := Function.update b.groups g (φ (b.groups g)) }

/-! ### Starting -/

/-- May these providers be a group: not too many, no one twice, and all for the domains of the
first? -/
def groupable (b : Box) (serviceID : String) : List ℕ → Bool
  | [] => false
  | anchor :: rest =>
    let domains := (b.outbounds anchor).options.domains
    decide (serviceID ≠ "") && decide ((anchor :: rest).length ≤ 16) &&
      decide (anchor :: rest).Nodup &&
      (anchor :: rest).all fun m =>
        decide ((b.outbounds m).options.domains.length = domains.dedup.length) &&
          (b.outbounds m).options.domains.all domains.contains

/-- **The group of a service**, anchored at its first provider: the one that is there, if it is the
same, or a new one. -/
def serviceLeaseGroup (b : Box) (serviceID : String) (members : List ℕ) : Option (Box × ℕ) :=
  if b.groupable serviceID members then
    let anchor := members.headD 0
    match b.serviceGroup anchor with
    | some g =>
      if (b.groups g).serviceID = serviceID ∧ (b.groups g).members = members then some (b, g)
      else none
    | none =>
      some ({ b with
        groups := Function.update b.groups b.groupCount (newServiceLeaseGroup serviceID members)
        groupCount := b.groupCount + 1
        serviceGroup := Function.update b.serviceGroup anchor (some b.groupCount) }, b.groupCount)
  else none

/-- The provider of a lease, if it has that lease now. -/
def provider (b : Box) (managers : Managers) (leaseID : String) : Option ℕ :=
  (managers.outbound ("pokrov-smart-access-" ++ leaseID)).filter fun m =>
    (b.outbounds m).leaseID == leaseID

/-- The window of a rule is offered to the probes of its group. -/
def bindProbe (b : Box) (managers : Managers) (i lease g : ℕ) (r : WindowedRule ρ ω) : Box :=
  match r.probe with
  | none => b
  | some probe =>
    let transport :=
      if probe.dns && probe.server == "pokrov-smart-access-dns-" ++ r.window.leaseID then
        managers.transport probe.server
      else none
    let bound := (b.groups g).bindProbeWindow ⟨lease, probe.dns, transport⟩
    (b.setGroup g fun _ => bound.1).setWindow i fun s => { s with probeUnbind := some bound.2 }

/-- **A window starts.** -/
def start (b : Box) (managers : Managers) (i : ℕ) (r : WindowedRule ρ ω) : Except String Box :=
  if r.window.leaseID = "" then .ok b
  else
    match b.provider managers r.window.leaseID with
    | none => .error "catalog_window_lease_unavailable"
    | some lease =>
      let b := b.setWindow i fun s => { s with lease := some lease }
      if r.window.leaseGroupIDs = [] then .ok b
      else
        match r.window.leaseGroupIDs.mapM (b.provider managers) with
        | none => .error "catalog_window_group_unavailable"
        | some members =>
          match b.serviceLeaseGroup r.window.serviceID members with
          | none => .error "smart_access_flow_unsupported"
          | some (b, g) =>
            .ok ((b.setWindow i fun s => { s with leaseGroup := some g }).bindProbe managers i
              lease g r)

/-- The windows of the rules start, in the order of the rules. -/
def startFrom (managers : Managers) : List (Rule ρ ω) → ℕ → Box → Except String Box
  | [], _, b => .ok b
  | .plain _ :: rules, i, b => startFrom managers rules (i + 1) b
  | .windowed r :: rules, i, b =>
    match b.start managers i r with
    | .error e => .error e
    | .ok b => startFrom managers rules (i + 1) b

/-- A core with these providers and rules, before it starts. -/
def initial (outbounds : ℕ → Outbound) (rules : List (Rule ρ ω)) : Box where
  outbounds := outbounds
  groups := fun _ => newServiceLeaseGroup "" []
  groupCount := 0
  serviceGroup := fun _ => none
  windows := fun i =>
    ⟨(rules[i]?.bind Rule.window?).any CatalogRuleWindow.bornExpired, none, none, none⟩

/-! ### One match -/

/-- The samples of a match: for the dates of the window, for the lease, for the provider there is,
for each provider that is tried, and for what is closed. -/
structure MatchClock where
  window : Sample
  lease : Sample
  still : Sample
  walk : ℕ → Sample
  closing : Sample

/-- Outside of the dates of the window, or at its deadline? -/
def outside (w : CatalogRuleWindow) (now : Sample) : Bool :=
  now.beforeDate w.issuedAt || !now.beforeDate w.expiresAt || !now.before w.deadline

/-- The window of a rule latches. -/
def latchWindow (b : Box) (i : ℕ) : Box := b.setWindow i fun s => { s with expired := true }

/-- **Is the catalog current?**  Once it is not, the window latches. -/
def catalogCurrent (b : Box) (i : ℕ) (w : CatalogRuleWindow) (now : Sample) : Box × Bool :=
  if (b.windows i).expired then (b, false)
  else if outside w now then (b.latchWindow i, false)
  else (b, true)

/-- **Is the window active?** -/
def active (b : Box) (i : ℕ) (w : CatalogRuleWindow) (clock : MatchClock) : Box × Bool :=
  let (b, current) := b.catalogCurrent i w clock.window
  if !current then (b, false)
  else if w.leaseID = "" then (b, true)
  else
    match (b.windows i).lease with
    | none => (b, false)
    | some lease =>
      (b.setOutbound lease fun h => (h.admitsNewFlows clock.lease).1,
        ((b.outbounds lease).admitsNewFlows clock.lease).2)

/-- The availability check of a provider. -/
def check (b : Box) (m : ℕ) (now : Sample) : Box :=
  b.setOutbound m fun h => (h.availableForNewFlows now).1

/-- The providers that are tried, in order: up to the first that is available. -/
def upTo (available : ℕ → Bool) : List ℕ → List ℕ
  | [] => []
  | m :: members => if available m then [m] else m :: upTo available members

/-- **`Selected` of a group**: the provider there is is checked first, unless it is retired, and
then the others, up to the first that is available. -/
def selectGroup (b : Box) (g : ℕ) (clock : MatchClock) : Box × Option ℕ :=
  let group := b.groups g
  let kept := group.selectedMember.filter fun m => !group.dnsFailed.contains m
  let still := kept.any fun m => ServiceLeaseGroup.availableNow (b.outbounds m, clock.still)
  let b := kept.elim b fun m => b.check m clock.still
  let available := fun m => ServiceLeaseGroup.availableNow (b.outbounds m, clock.walk m)
  let tried := if still then []
    else upTo available (group.members.filter fun m => !group.dnsFailed.contains m)
  let b := tried.foldl (fun b m => b.check m (clock.walk m)) b
  (b.setGroup g fun group => (group.select still available clock.closing).1,
    (group.select still available clock.closing).2)

/-- What the call of `Selected` in a match returns, if there is one. -/
def selected (b : Box) (i : ℕ) (clock : MatchClock) : Box × Option (Option ℕ) :=
  match (b.windows i).leaseGroup with
  | none => (b, none)
  | some g => ((b.selectGroup g clock).1, some (b.selectGroup g clock).2)

/-- The group of a rule that was skipped is told so, for a name of the rule. -/
def observeScopedBypass (t : CaseTable) (b : Box) (i : ℕ) (r : WindowedRule ρ ω)
    (m : InboundContext ρ ω) (now : Sample) : Box :=
  match (b.windows i).leaseGroup, (b.windows i).lease with
  | some g, some lease =>
    if r.domainMatch m then
      b.setGroup g fun group => group.observeScopedRuleBypass lease (b.outbounds lease)
        (String.ofList (foldName t m.name)) now
    else b
  | _, _ => b

/-- What a match says, and what the call of `Selected` made in it has returned. -/
structure Verdict where
  matched : Bool
  selected : Option (Option ℕ)
  deriving DecidableEq

/-- **`Match` of a rule with a window.** -/
def matchWindowed (t : CaseTable) (b : Box) (i : ℕ) (r : WindowedRule ρ ω)
    (m : InboundContext ρ ω) (clock : MatchClock) : Box × InboundContext ρ ω × Verdict :=
  let (b, ok) := b.active i r.window clock
  if !ok then (b.observeScopedBypass t i r m clock.closing, m, ⟨false, none⟩)
  else if r.conditions.isEmpty then (b, m, ⟨true, none⟩)
  else
    let (m, matched) := r.conditions.matchInner m
    if !matched then
      let (m', verdict) := r.conditions.verdict m false
      (b.observeScopedBypass t i r m clock.closing, m', ⟨verdict, none⟩)
    else
      let (b', answer) := b.selected i clock
      if answer.any (· != (b.windows i).lease) then
        (b'.observeScopedBypass t i r m clock.closing, m, ⟨false, answer⟩)
      else
        let (m, verdict) := r.conditions.verdict m true
        (b', m, ⟨verdict, answer⟩)

/-- How a rule is entered: by a route or a resolver, by a resolver before there is an answer, or
with the answer it limits. -/
inductive Entry (ω : Type) where
  | direct
  | legacyPreMatch
  | matchAddressLimit (response : Option ω)

/-- The metadata a rule is matched with, unless it has nothing to be matched with. -/
def enter (matchResponse : Option MatchResponse) (entry : Entry ω) (m : InboundContext ρ ω) :
    Option (InboundContext ρ ω) :=
  match entry, matchResponse with
  | .direct, none => some m
  | .direct, some r => (m.responseFor r).map fun response => m.withResponse (some response)
  | .legacyPreMatch, none => some { m with ignoreDestinationIPCIDRMatch := true }
  | .legacyPreMatch, some _ => none
  | .matchAddressLimit response, _ => some (m.resetRuleCache.withResponse response)

/-- The metadata a rule leaves: a copy is dropped. -/
def leave (matchResponse : Option MatchResponse) (entry : Entry ω)
    (before after : InboundContext ρ ω) : InboundContext ρ ω :=
  match entry, matchResponse with
  | .direct, none => after
  | .legacyPreMatch, none => { after with ignoreDestinationIPCIDRMatch := false }
  | _, _ => before

/-- **A rule is matched.** -/
def matchRule (t : CaseTable) (b : Box) (i : ℕ) (rule : Rule ρ ω) (entry : Entry ω)
    (m : InboundContext ρ ω) (clock : MatchClock) : Box × InboundContext ρ ω × Verdict :=
  match rule with
  | .plain (.default r) =>
    match enter r.matchResponse entry m with
    | none => (b, m, ⟨entry matches .direct && r.invert, none⟩)
    | some m' =>
      let (after, matched) := r.plainMatch m'
      (b, leave r.matchResponse entry m after, ⟨matched, none⟩)
  | .plain (.logical mode rules invert) =>
    match enter none entry m with
    | none => (b, m, ⟨false, none⟩)
    | some m' =>
      let (after, matched) := (HeadlessRule.logical mode rules invert).matchNested m'
      (b, leave none entry m after, ⟨matched, none⟩)
  | .windowed r =>
    match enter r.conditions.matchResponse entry m with
    | none => (b, m, ⟨entry matches .direct && r.conditions.invert, none⟩)
    | some m' =>
      let (b, after, verdict) := b.matchWindowed t i r m' clock
      (b, leave r.conditions.matchResponse entry m after, verdict)

/-! ### Withdrawing -/

/-- The window of a rule is withdrawn, and its binding taken back. -/
def closeProbe (b : Box) (i : ℕ) (now : Sample) : Box :=
  let b := b.latchWindow i
  match (b.windows i).leaseGroup, (b.windows i).probeUnbind with
  | some g, some w =>
    (b.setGroup g fun group => group.unbindProbeWindow w now).setWindow i fun s =>
      { s with probeUnbind := none }
  | _, _ => b

/-- Does the window of a rule carry this service? -/
def carries (rule : Rule ρ ω) (serviceID : String) : Bool :=
  rule.window?.any fun w => w.serviceID != "" && w.serviceID == serviceID

/-- `RevokeRoutingCatalog` of one rule. -/
def revokeRule (b : Box) (i : ℕ) (rule : Rule ρ ω) (now : Sample) : Box :=
  if rule.window?.isSome then b.closeProbe i now else b

/-- `RevokeRoutingCatalogService` of one rule. -/
def revokeRuleService (b : Box) (i : ℕ) (rule : Rule ρ ω) (serviceID : String) (now : Sample) :
    Box :=
  if carries rule serviceID then
    let b := b.closeProbe i now
    (b.windows i).lease.elim b fun lease => b.setOutbound lease fun h => (h.revoke true).1
  else b

/-- A call for every rule, in order. -/
def forRules (f : Box → ℕ → Rule ρ ω → Box) : List (Rule ρ ω) → ℕ → Box → Box
  | [], _, b => b
  | rule :: rules, i, b => forRules f rules (i + 1) (f b i rule)

/-- **The catalog is withdrawn.** -/
def revokeRoutingCatalog (b : Box) (rules : List (Rule ρ ω)) (now : Sample) : Box :=
  forRules (fun b i rule => b.revokeRule i rule now) rules 0 b

/-- **A service is withdrawn.** -/
def revokeRoutingCatalogService (b : Box) (rules : List (Rule ρ ω)) (serviceID : String)
    (now : Sample) : Box :=
  forRules (fun b i rule => b.revokeRuleService i rule serviceID now) rules 0 b

/-- The resolver of a rule has failed. -/
def smartAccessDNSFailed (b : Box) (i : ℕ) (now : Sample) : Box :=
  match (b.windows i).leaseGroup, (b.windows i).lease with
  | some g, some lease =>
    (b.setGroup g fun group => group.retire lease now).setOutbound lease fun h => h.dnsFailed now
  | _, _ => b

/-! ### Runs -/

/-- A call of a running core.  `outbound` is whatever else happens to a provider. -/
inductive Call (ρ ω : Type) where
  | matchRule (i : ℕ) (entry : Entry ω) (m : InboundContext ρ ω) (clock : MatchClock)
  | revokeRoutingCatalog (now : Sample)
  | revokeRoutingCatalogService (serviceID : String) (now : Sample)
  | closeRule (i : ℕ) (now : Sample)
  | catalogCurrent (i : ℕ) (now : Sample)
  | dnsFailed (i : ℕ) (now : Sample)
  | select (g : ℕ) (clock : MatchClock)
  | outbound (m : ℕ) (φ : Outbound → Outbound)

/-- **One call**, and what a match of it says. -/
def call (t : CaseTable) (rules : List (Rule ρ ω)) (b : Box) : Call ρ ω → Box × Verdict
  | .matchRule i entry m clock =>
    match rules[i]? with
    | none => (b, ⟨false, none⟩)
    | some rule => ((b.matchRule t i rule entry m clock).1, (b.matchRule t i rule entry m clock).2.2)
  | .revokeRoutingCatalog now => (b.revokeRoutingCatalog rules now, ⟨false, none⟩)
  | .revokeRoutingCatalogService serviceID now =>
    (b.revokeRoutingCatalogService rules serviceID now, ⟨false, none⟩)
  | .closeRule i now =>
    match rules[i]? with
    | none => (b, ⟨false, none⟩)
    | some rule => (b.revokeRule i rule now, ⟨false, none⟩)
  | .catalogCurrent i now =>
    match rules[i]?.bind Rule.window? with
    | none => (b, ⟨false, none⟩)
    | some w => ((b.catalogCurrent i w now).1, ⟨false, none⟩)
  | .dnsFailed i now => (b.smartAccessDNSFailed i now, ⟨false, none⟩)
  | .select g clock => ((b.selectGroup g clock).1, ⟨false, none⟩)
  | .outbound m φ => (b.setOutbound m φ, ⟨false, none⟩)

/-- A sequence of calls. -/
def calls (t : CaseTable) (rules : List (Rule ρ ω)) (b : Box) (l : List (Call ρ ω)) : Box :=
  l.foldl (fun b c => (b.call t rules c).1) b

/-! ### A sample -/

/-- A provider alone in its group, and a rule for every name with a window of ten minutes. -/
def sampleWindowedRule : WindowedRule Unit Unit where
  conditions := ⟨[], [], [], [fun _ => true], [], [], none, false, none⟩
  window := (newCatalogRuleWindow ⟨"2026-01-01T00:00:00Z", "2026-01-01T00:10:00Z", "video",
    sampleLease.id, [sampleLease.id]⟩ false 1 true sampleClock).toOption.get (by decide +kernel)
  domainMatch := fun _ => true
  probe := none
  not_invert := rfl
  domain_mem := List.mem_singleton_self _

/-- The samples of a match one second into the window. -/
def sampleMatchClock : MatchClock :=
  ⟨sampleClock, sampleClock, sampleClock, fun _ => sampleClock, sampleClock⟩

/-- A table without other letters. -/
def sampleCase : CaseTable := ⟨id, fun _ h => h⟩

/-- A connection to nothing in particular. -/
def sampleContext : InboundContext Unit Unit :=
  ⟨[], [], false, false, false, 0, none, fun _ => none, false, ()⟩

/-- The core of the sample rule, with one provider. -/
def sampleStart : Except String Box :=
  startFrom ⟨fun _ => some 0, fun _ => none⟩ [.windowed sampleWindowedRule] 0
    (initial (fun _ => sampleOutbound) [Rule.windowed sampleWindowedRule])

end Box

end PokrovCore.Route
