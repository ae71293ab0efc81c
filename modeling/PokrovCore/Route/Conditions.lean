import Mathlib.Data.List.Basic

/-!
# Route/Conditions — the conditions of a rule

A rule looks at the metadata of a connection or of a query.  Its items are in groups: a group is met
when one of its items is, and an address group may be left to the answer of the query
(`deferredIPCIDRMatchGroups`).  Logical rules combine rules, default ones or logical ones again.
Items and rule sets are functions of the metadata; what else they consult is the same for every rule
of a walk and stands in the metadata.
-/

namespace PokrovCore.Route

/-- The metadata of a connection.  `ρ` is what only items read, and `ω` a response of a resolver. -/
structure InboundContext (ρ ω : Type) where
  domain : List UInt8
  fqdn : List UInt8
  ipCIDRMatchSource : Bool
  ipCIDRAcceptEmpty : Bool
  ignoreDestinationIPCIDRMatch : Bool
  deferredIPCIDRMatchGroups : UInt8
  dnsResponse : Option ω
  namedDNSResponses : String → Option ω
  destinationAddressMatchFromResponse : Bool
  rest : ρ

variable {ρ ω : Type}

namespace InboundContext

/-- Forget what a rule before has left. -/
def resetRuleCache (m : InboundContext ρ ω) : InboundContext ρ ω :=
  { m with ipCIDRMatchSource := false, ipCIDRAcceptEmpty := false, deferredIPCIDRMatchGroups := 0 }

/-- What a logical rule puts back. -/
def restoreFrom (m snapshot : InboundContext ρ ω) : InboundContext ρ ω :=
  { m with
    ipCIDRMatchSource := snapshot.ipCIDRMatchSource
    ipCIDRAcceptEmpty := snapshot.ipCIDRAcceptEmpty
    deferredIPCIDRMatchGroups := snapshot.deferredIPCIDRMatchGroups }

/-- The name of the connection: the domain found for it, or else the one it was opened with. -/
def name (m : InboundContext ρ ω) : List UInt8 := if m.domain = [] then m.fqdn else m.domain

end InboundContext

/-! ## Groups -/

/-- The bit of a group of items. -/
def ruleMatchSourceAddress : UInt8 := 1
@[inherit_doc ruleMatchSourceAddress] def ruleMatchSourcePort : UInt8 := 2
@[inherit_doc ruleMatchSourceAddress] def ruleMatchDestinationAddress : UInt8 := 4
@[inherit_doc ruleMatchSourceAddress] def ruleMatchDestinationPort : UInt8 := 8

/-- Which groups a rule has, and which of them are met. -/
structure RuleGroupMatch where
  required : UInt8
  satisfied : UInt8
  deriving DecidableEq

namespace RuleGroupMatch

def done (g : RuleGroupMatch) : Bool := g.required &&& ~~~g.satisfied == 0

/-- A group the rule has, met or not. -/
def add (g : RuleGroupMatch) (group : UInt8) (met : Bool) : RuleGroupMatch :=
  ⟨g.required ||| group, if met then g.satisfied ||| group else g.satisfied⟩

def has (g : RuleGroupMatch) (group : UInt8) : Bool := g.satisfied &&& group != 0

end RuleGroupMatch

/-! ## Default rules -/

abbrev RuleItem (ρ ω : Type) := InboundContext ρ ω → Bool

/-- What a response is matched against: the response of the query, or the one of a tag. -/
structure MatchResponse where
  tag : String
  deriving DecidableEq

/-- **The conditions of a default rule.**  `matchResponse` is there for rules of a resolver only. -/
structure Conditions (ρ ω : Type) where
  items : List (RuleItem ρ ω)
  sourceAddressItems : List (RuleItem ρ ω)
  sourcePortItems : List (RuleItem ρ ω)
  destinationAddressItems : List (RuleItem ρ ω)
  destinationIPCIDRItems : List (RuleItem ρ ω)
  destinationPortItems : List (RuleItem ρ ω)
  ruleSetItem : Option (InboundContext ρ ω → RuleGroupMatch → InboundContext ρ ω × Bool)
  invert : Bool
  matchResponse : Option MatchResponse

namespace Conditions

variable (r : Conditions ρ ω) (m : InboundContext ρ ω)

/-- A rule without any condition. -/
def isEmpty : Bool :=
  r.items.isEmpty && r.sourceAddressItems.isEmpty && r.sourcePortItems.isEmpty &&
    r.destinationAddressItems.isEmpty && r.destinationIPCIDRItems.isEmpty &&
    r.destinationPortItems.isEmpty && r.ruleSetItem.isNone

def matchAnyItem (items : List (RuleItem ρ ω)) : Bool := items.any fun item => item m

def destinationIPCIDRMatchesSource : Bool :=
  m.ipCIDRMatchSource && !r.destinationIPCIDRItems.isEmpty

def destinationIPCIDRMatchesDestination : Bool :=
  !m.ignoreDestinationIPCIDRMatch && !m.ipCIDRMatchSource && !r.destinationIPCIDRItems.isEmpty

/-- A group of items, if the rule has any. -/
def addItems (g : RuleGroupMatch) (group : UInt8) (items : List (RuleItem ρ ω)) : RuleGroupMatch :=
  if items.isEmpty then g else g.add group (matchAnyItem m items)

/-- Which groups the rule has and which are met; an address group that waits for the answer is
noted in the metadata. -/
def evaluateGroups : InboundContext ρ ω × RuleGroupMatch :=
  let g := addItems m ⟨0, 0⟩ ruleMatchSourceAddress r.sourceAddressItems
  let g := if r.destinationIPCIDRMatchesSource m then
      g.add ruleMatchSourceAddress
        (!g.has ruleMatchSourceAddress && matchAnyItem m r.destinationIPCIDRItems)
    else g
  let g := addItems m g ruleMatchSourcePort r.sourcePortItems
  let g := addItems m g ruleMatchDestinationAddress r.destinationAddressItems
  let g := if r.destinationIPCIDRMatchesDestination m then
      g.add ruleMatchDestinationAddress
        (!g.has ruleMatchDestinationAddress && matchAnyItem m r.destinationIPCIDRItems)
    else g
  let g := addItems m g ruleMatchDestinationPort r.destinationPortItems
  (if m.ignoreDestinationIPCIDRMatch && !m.ipCIDRMatchSource && !r.destinationIPCIDRItems.isEmpty &&
      r.destinationAddressItems.isEmpty then
    { m with
      deferredIPCIDRMatchGroups := m.deferredIPCIDRMatchGroups ||| ruleMatchDestinationAddress }
    else m, g)

/-- **Do the conditions hold?** -/
def matchInner : InboundContext ρ ω × Bool :=
  let (m, g) := r.evaluateGroups m
  if !r.items.all fun item => item m then (m, false)
  else
    let (m, matched) := match r.ruleSetItem with
      | some matchWithOuterGroups => matchWithOuterGroups m g
      | none => (m, g.done)
    (if matched then
      { m with deferredIPCIDRMatchGroups := m.deferredIPCIDRMatchGroups &&& ~~~g.satisfied }
      else m, matched)

/-- The verdict of a rule, once it is known whether its conditions hold. -/
def verdict (matched : Bool) : InboundContext ρ ω × Bool :=
  if r.invert then
    if matched then (m, m.deferredIPCIDRMatchGroups != 0)
    else ({ m with deferredIPCIDRMatchGroups := 0 }, true)
  else (m, matched)

/-- `Match` of a default rule without a window. -/
def plainMatch : InboundContext ρ ω × Bool :=
  if r.isEmpty then (m, true)
  else
    let (m, matched) := r.matchInner m
    r.verdict m matched

end Conditions

/-- The response a rule is about. -/
def InboundContext.responseFor (m : InboundContext ρ ω) (r : MatchResponse) : Option ω :=
  if r.tag = "" then m.dnsResponse else m.namedDNSResponses r.tag

/-- The metadata of a query whose answer is looked at. -/
def InboundContext.withResponse (m : InboundContext ρ ω) (response : Option ω) :
    InboundContext ρ ω :=
  { m with dnsResponse := response, destinationAddressMatchFromResponse := true }

/-! ## Logical rules -/

inductive LogicalMode
  | and
  | or
  deriving DecidableEq

/-- **A rule inside of a logical rule.**  It has no window of its own. -/
inductive HeadlessRule (ρ ω : Type) where
  | default (r : Conditions ρ ω)
  | logical (mode : LogicalMode) (rules : List (HeadlessRule ρ ω)) (invert : Bool)

namespace HeadlessRule

/-- What a logical rule knows of the rules it has gone through: whether it is decided, what it has
found, and which groups wait for the answer. -/
structure Progress where
  decided : Bool
  matched : Bool
  deferredGroups : UInt8

/-- One more rule, which says `matched` and leaves `deferred` groups to the answer. -/
def Progress.next (p : Progress) (mode : LogicalMode) (matched : Bool) (deferred : UInt8) :
    Progress :=
  match mode, matched with
  | .and, false => ⟨true, false, 0⟩
  | .and, true => { p with deferredGroups := p.deferredGroups ||| deferred }
  | .or, false => p
  | .or, true =>
    if deferred = 0 then ⟨true, true, 0⟩
    else { p with matched := true, deferredGroups := p.deferredGroups ||| deferred }

/-- Where a logical rule starts. -/
def Progress.start (mode : LogicalMode) : Progress := ⟨false, mode == .and, 0⟩

/-- The end of a logical rule: the metadata is put back, but for what waits for the answer. -/
def conclude (m snapshot : InboundContext ρ ω) (p : Progress) (invert : Bool) :
    InboundContext ρ ω × Bool :=
  let m := m.restoreFrom snapshot
  let m := if p.matched then
      { m with
        deferredIPCIDRMatchGroups := m.deferredIPCIDRMatchGroups ||| p.deferredGroups }
    else m
  (m, if invert then !p.matched || p.deferredGroups != 0 else p.matched)

mutual

/-- `Match` of a nested rule. -/
def matchNested (m : InboundContext ρ ω) : HeadlessRule ρ ω → InboundContext ρ ω × Bool
  | .default r =>
    match r.matchResponse with
    | none => r.plainMatch m
    | some tag =>
      match m.responseFor tag with
      | none => (m, r.invert)
      | some response => (m, (r.plainMatch (m.withResponse (some response))).2)
  | .logical mode rules invert =>
    let (m', p) := matchEach m mode (.start mode) rules
    conclude m' m p invert

/-- The rules of a logical one, in order, until it is decided. -/
def matchEach (m : InboundContext ρ ω) (mode : LogicalMode) (p : Progress) :
    List (HeadlessRule ρ ω) → InboundContext ρ ω × Progress
  | [] => (m, p)
  | r :: rules =>
    if p.decided then (m, p)
    else
      let (m, matched) := r.matchNested m.resetRuleCache
      matchEach m mode (p.next mode matched m.deferredIPCIDRMatchGroups) rules

end

end HeadlessRule

end PokrovCore.Route
