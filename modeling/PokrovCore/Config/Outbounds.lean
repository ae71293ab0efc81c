import Mathlib.Data.List.Infix

/-!
# Config/Outbounds — the outbounds of a configuration, and what they refer to

Of the outbounds and endpoints of a profile some are dropped, by their tags or by their types, and a
selector and two balancers are built over the tags of the rest that are not hidden.  The default of
the selector and the detours are not chosen with what is dropped in mind: a configuration is closed
exactly when there is a tag to select, a single tag does not ask to be the default, and nothing that
is kept detours through what is not.
-/

namespace PokrovCore.Config.Build

variable {ρ : Type*}

/-- `option.Outbound`: its detour, if its options have those of a dialer, its members, if it is a
balancer, and the other options. -/
structure Outbound (ρ : Type*) where
  type : String
  tag : String
  detour : Option String
  outbounds : List String
  rest : ρ

/-- The options of an endpoint that are read here. -/
inductive EndpointOptions
  | warp (uniqueIdentifier detour profileDetour : String)
  | wireGuard (privateKey detour : String)
  | other (detour : Option String)

/-- `option.Endpoint` -/
structure Endpoint (ρ : Type*) where
  type : String
  tag : String
  options : EndpointOptions
  rest : ρ

/-- The part of `PokrovOptions` that is read here. -/
structure PokrovOptions where
  enableWarp : Bool
  warpMode : String
  privateKey : String
  balancerStrategy : String
  fragmentSize : String
  fragmentSleep : String

def outboundDirectTag : String := "direct §hide§"
def outboundBypassTag : String := "bypass §hide§"
def outboundSelectTag : String := "select"
def outboundURLTestTag : String := "lowest"
def outboundRoundRobinTag : String := "balance"
def outboundDNSTag : String := "dns-out §hide§"
def outboundDirectFragmentTag : String := "direct-fragment §hide§"
def warpConfigTag : String := "🔒 WARP"

def predefinedOutboundTags : List String :=
  [outboundDirectTag, outboundBypassTag, outboundSelectTag, outboundURLTestTag, outboundDNSTag,
    outboundDirectFragmentTag, warpConfigTag]

/-- A tag has a mark in it. -/
def marked (mark tag : String) : Bool := decide (mark.toList <:+: tag.toList)

def visible (tag : String) : Bool := !marked "§hide§" tag

/-! ## What is kept -/

/-- Is an outbound kept, if it is not a second one of Psiphon? -/
def outboundAllowed (out : Outbound ρ) : Bool :=
  !predefinedOutboundTags.contains out.tag &&
    !(["block", "dns", "selector", "urltest", "custom"].contains out.type) &&
    !(["direct", "bypass", "block"].contains out.tag)

/-- The loop over the outbounds. -/
def keepOutbounds : Bool → List (Outbound ρ) → List (Outbound ρ)
  | _, [] => []
  | hasPsiphon, out :: rest =>
    if outboundAllowed out && !(out.type == "psiphon" && hasPsiphon) then
      out :: keepOutbounds (hasPsiphon || out.type == "psiphon") rest
    else keepOutbounds hasPsiphon rest

variable (opt : PokrovOptions)

/-- Is an endpoint kept? -/
def endpointAllowed (e : Endpoint ρ) : Bool :=
  !predefinedOutboundTags.contains e.tag &&
    !(opt.enableWarp && match e.options with
      | .warp uniqueIdentifier _ _ => e.type == "warp" && uniqueIdentifier == "p1"
      | .wireGuard privateKey _ => e.type == "wireguard" && privateKey == opt.privateKey
      | .other _ => false)

/-- `patchPokrovWarpFromConfig` -/
def patchPokrovWarpFromConfig (out : Outbound ρ) : Outbound ρ :=
  if out.type = "psiphon" then out
  else if opt.enableWarp ∧ opt.warpMode = "proxy_over_warp" then
    { out with detour := out.detour.map fun _ => warpConfigTag }
  else out

/-- `patchEndpoint`, as far as tags and detours go. -/
def patchEndpoint (e : Endpoint ρ) : Endpoint ρ :=
  match e.options with
  | .warp uniqueIdentifier detour _ =>
    if e.type = "warp" then
      { e with options := .warp uniqueIdentifier detour outboundDirectFragmentTag }
    else e
  | _ => e

/-- `GenerateWarpSingboxNew`, tagged and with its detour. -/
def warpEndpoint (rest : ρ) : Endpoint ρ :=
  patchEndpoint ⟨"warp", warpConfigTag,
    .warp "p1" (if opt.warpMode = "warp_over_proxy" then outboundSelectTag else outboundDirectTag)
      outboundSelectTag, rest⟩

/-! ## What is built -/

/-- An outbound of the configuration. -/
inductive Built (ρ : Type*)
  | selector (outbounds : List String) (default : String)
  | balancer (tag : String) (outbounds : List String) (strategy : String)
  | proxy (out : Outbound ρ)
  | direct
  | directFragment (size sleep : String)

def Built.tag : Built ρ → String
  | .selector _ _ => outboundSelectTag
  | .balancer tag _ _ => tag
  | .proxy out => out.tag
  | .direct => outboundDirectTag
  | .directFragment _ _ => outboundDirectFragmentTag

/-- The members of a group. -/
def Built.members : Built ρ → List String
  | .selector outbounds _ => outbounds
  | .balancer _ outbounds _ => outbounds
  | .proxy out => out.outbounds
  | _ => []

def Built.detours : Built ρ → List String
  | .proxy out => out.detour.toList
  | _ => []

def Endpoint.detours (e : Endpoint ρ) : List String :=
  match e.options with
  | .warp _ detour profileDetour => [detour, profileDetour]
  | .wireGuard _ detour => [detour]
  | .other detour => detour.toList

/-- The tags of what is kept. -/
def keptTags (outbounds : List (Outbound ρ)) (endpoints : List (Endpoint ρ)) :
    List String :=
  (keepOutbounds false outbounds).map (·.tag) ++ (endpoints.filter (endpointAllowed opt)).map (·.tag)

/-- The tags to select from: those that are kept and not hidden. -/
def selectable (outbounds : List (Outbound ρ)) (endpoints : List (Endpoint ρ)) : List String :=
  (keptTags opt outbounds endpoints).filter visible

/-- The balancers, with several tags to balance. -/
def balancers (tags : List String) : List (Built ρ) :=
  if tags.length ≤ 1 then []
  else if opt.enableWarp then [.balancer outboundURLTestTag tags "lowest-delay"]
  else
    [.balancer outboundRoundRobinTag tags opt.balancerStrategy,
      .balancer outboundURLTestTag tags "lowest-delay"]

/-- The selector over the tags, the first of which is the default if there is nothing else. -/
def selector (first : String) (tags : List String) : Built ρ :=
  if tags.length ≤ 1 then
    .selector tags (if tags.any (marked "§default§") then "§default§" else first)
  else if opt.enableWarp then .selector (outboundURLTestTag :: tags) outboundURLTestTag
  else .selector (outboundURLTestTag :: outboundRoundRobinTag :: tags) outboundRoundRobinTag

/-- The outbounds and endpoints over these tags. -/
def emit (rest : ρ) (outbounds : List (Outbound ρ)) (endpoints : List (Endpoint ρ)) (first : String)
    (tags : List String) : List (Built ρ) × List (Endpoint ρ) :=
  (selector opt first tags :: balancers opt tags ++
      ((keepOutbounds false outbounds).map fun out => .proxy (patchPokrovWarpFromConfig opt out)) ++
      [.direct, .directFragment opt.fragmentSize opt.fragmentSleep],
    (if opt.enableWarp then [warpEndpoint opt rest] else []) ++
      (endpoints.filter (endpointAllowed opt)).map patchEndpoint)

/-- **`setOutbounds`**: the outbounds and endpoints; without a tag it panics. -/
def setOutbounds (rest : ρ) (outbounds : List (Outbound ρ)) (endpoints : List (Endpoint ρ)) :
    Option (List (Built ρ) × List (Endpoint ρ)) :=
  match selectable opt outbounds endpoints with
  | [] => none
  | first :: more => some (emit opt rest outbounds endpoints first (first :: more))

/-! ## Closed references -/

variable {opt}

/-- The tags of a configuration. -/
def emittedTags (r : List (Built ρ) × List (Endpoint ρ)) : List String :=
  r.1.map Built.tag ++ r.2.map (·.tag)

/-- **Every reference is to something that is there**: the default of the selector is a member, and
members and detours are tags of the configuration. -/
structure Closed (r : List (Built ρ) × List (Endpoint ρ)) : Prop where
  default : ∀ outbounds default, .selector outbounds default ∈ r.1 → default ∈ outbounds
  members : ∀ b ∈ r.1, ∀ tag ∈ b.members, tag ∈ emittedTags r
  detours : ∀ detour ∈ r.1.flatMap Built.detours ++ r.2.flatMap Endpoint.detours,
    detour ≠ "" → detour ∈ emittedTags r

/-- Do the proxies go through WARP? -/
def proxyOverWarp (opt : PokrovOptions) : Bool :=
  opt.enableWarp && opt.warpMode == "proxy_over_warp"

/-- **What is kept of an input refers to these tags**: its detours, but for those of proxies that go
through WARP and for the profiles of WARP, and the members of its balancers. -/
def keptReferences (opt : PokrovOptions) (outbounds : List (Outbound ρ))
    (endpoints : List (Endpoint ρ)) (tag : String) : Prop :=
  (∃ out ∈ keepOutbounds false outbounds, tag ∈ out.outbounds ∨
    tag ≠ "" ∧ tag ∈ out.detour ∧ (out.type = "psiphon" ∨ proxyOverWarp opt = false)) ∨
  ∃ e ∈ endpoints, endpointAllowed opt e = true ∧ tag ≠ "" ∧ tag ∈ (patchEndpoint e).detours

/-- The tags that a configuration has of its own. -/
def ownTags (opt : PokrovOptions) (count : ℕ) : List String :=
  [outboundSelectTag, outboundDirectTag, outboundDirectFragmentTag] ++
    (if opt.enableWarp then [warpConfigTag] else []) ++
    if count ≤ 1 then [] else if opt.enableWarp then [outboundURLTestTag]
      else [outboundRoundRobinTag, outboundURLTestTag]

section closed

variable {rest : ρ} {outbounds : List (Outbound ρ)} {endpoints : List (Endpoint ρ)} {tag : String}

@[simp] theorem patchPokrovWarpFromConfig_tag (out : Outbound ρ) :
    (patchPokrovWarpFromConfig opt out).tag = out.tag := by
  unfold patchPokrovWarpFromConfig
  split_ifs <;> rfl

@[simp] theorem patchPokrovWarpFromConfig_outbounds (out : Outbound ρ) :
    (patchPokrovWarpFromConfig opt out).outbounds = out.outbounds := by
  unfold patchPokrovWarpFromConfig
  split_ifs <;> rfl

@[simp] theorem patchEndpoint_tag (e : Endpoint ρ) : (patchEndpoint e).tag = e.tag := by
  unfold patchEndpoint
  split
  · split_ifs <;> rfl
  · rfl

variable {first : String} {tags : List String}

/-- **The tags of a configuration**: those that are kept and its own. -/
theorem mem_emittedTags :
    tag ∈ emittedTags (emit opt rest outbounds endpoints first tags) ↔
      tag ∈ keptTags opt outbounds endpoints ∨ tag ∈ ownTags opt tags.length := by
  simp only [emit, emittedTags, keptTags, ownTags, balancers, selector, warpEndpoint]
  split_ifs <;> simp [Built.tag, Function.comp_def] <;> grind

theorem patchPokrovWarpFromConfig_detour (out : Outbound ρ) :
    (patchPokrovWarpFromConfig opt out).detour =
      if out.type = "psiphon" ∨ proxyOverWarp opt = false then out.detour
      else out.detour.map fun _ => warpConfigTag := by
  unfold patchPokrovWarpFromConfig proxyOverWarp
  split_ifs <;> simp_all

/-- The default of a selector is one of its members, but for a single tag that is marked. -/
theorem selector_default_iff {more : List String} :
    (∀ members default, (selector opt first (first :: more) : Built ρ) = .selector members default →
        default ∈ members) ↔
      (more = [] → marked "§default§" first = true → first = "§default§") := by
  unfold selector
  cases more with
  | nil => by_cases h : marked "§default§" first = true <;> simp [h, eq_comm]
  | cons tag more =>
    rw [if_neg (by simp)]
    split_ifs <;> simp

theorem members_of_groups {more : List String} {b : Built ρ}
    (hb : b = selector opt first (first :: more) ∨ b ∈ balancers opt (first :: more))
    (htag : tag ∈ b.members) :
    tag ∈ first :: more ∨ tag ∈ ownTags opt (first :: more).length := by
  rcases hb with rfl | hb
  · unfold selector at htag
    unfold ownTags
    split_ifs at htag <;> simp_all [Built.members] <;> grind
  · unfold balancers at hb
    split_ifs at hb <;> simp at hb
    · subst hb
      exact .inl htag
    · rcases hb with rfl | rfl <;> exact .inl htag

/-- What is kept refers to tags of a closed configuration. -/
theorem Closed.mem_of_keptReferences (h : Closed (emit opt rest outbounds endpoints first tags))
    (hrefers : keptReferences opt outbounds endpoints tag) :
    tag ∈ emittedTags (emit opt rest outbounds endpoints first tags) := by
  rcases hrefers with ⟨out, hout, hrefers⟩ | ⟨e, he, hallowed, hne, htag⟩
  · have hproxy : .proxy (patchPokrovWarpFromConfig opt out) ∈
        (emit opt rest outbounds endpoints first tags).1 := by
      simp only [emit, List.mem_append, List.mem_map]
      exact .inl (.inr ⟨out, hout, rfl⟩)
    rcases hrefers with htag | ⟨hne, htag, hcase⟩
    · refine h.members _ hproxy tag ?_
      rwa [Built.members, patchPokrovWarpFromConfig_outbounds]
    · refine h.detours tag (List.mem_append_left _ (List.mem_flatMap.mpr ⟨_, hproxy, ?_⟩)) hne
      rw [Built.detours, patchPokrovWarpFromConfig_detour, if_pos hcase]
      exact Option.mem_toList.mpr htag
  · refine h.detours tag (List.mem_append_right _ (List.mem_flatMap.mpr ⟨patchEndpoint e, ?_, htag⟩)) hne
    exact List.mem_append_right _ (List.mem_map_of_mem (List.mem_filter.mpr ⟨he, hallowed⟩))

/-- A detour of a configuration is one that is kept, or to an outbound of its own. -/
theorem keptReferences_of_detour
    (h : tag ∈ (emit opt rest outbounds endpoints first tags).1.flatMap Built.detours ++
      (emit opt rest outbounds endpoints first tags).2.flatMap Endpoint.detours) (hne : tag ≠ "") :
    keptReferences opt outbounds endpoints tag ∨ tag ∈ ownTags opt tags.length := by
  rcases List.mem_append.mp h with h | h
  · obtain ⟨b, hb, htag⟩ := List.mem_flatMap.mp h
    obtain ⟨out, hout, rfl⟩ : ∃ out ∈ keepOutbounds false outbounds,
        Built.proxy (patchPokrovWarpFromConfig opt out) = b := by
      simp only [emit, List.cons_append, List.mem_cons, List.mem_append, List.mem_map,
        List.not_mem_nil, or_false] at hb
      rcases hb with rfl | (hb | hout) | rfl | rfl
      · unfold selector at htag
        split_ifs at htag <;> cases htag
      · unfold balancers at hb
        split_ifs at hb <;> simp at hb
        · subst hb
          cases htag
        · rcases hb with rfl | rfl <;> cases htag
      · exact hout
      · cases htag
      · cases htag
    rw [Built.detours, Option.mem_toList, patchPokrovWarpFromConfig_detour] at htag
    split at htag
    next hcase => exact .inl (.inl ⟨out, hout, .inr ⟨hne, htag, hcase⟩⟩)
    next hcase =>
      -- through WARP, which is then there
      obtain ⟨-, -, rfl⟩ := Option.map_eq_some_iff.mp htag
      have hwarp : opt.enableWarp = true := by
        simp only [proxyOverWarp, not_or, Bool.not_eq_false, Bool.and_eq_true] at hcase
        exact hcase.2.1
      exact .inr (by simp [ownTags, hwarp])
  · obtain ⟨e, he, htag⟩ := List.mem_flatMap.mp h
    rcases List.mem_append.mp he with he | he
    · split at he
      · obtain rfl := List.mem_singleton.mp he
        have hown : tag ∈ [if opt.warpMode = "warp_over_proxy" then outboundSelectTag
            else outboundDirectTag, outboundDirectFragmentTag] := htag
        refine .inr ?_
        split_ifs at hown <;> simp [ownTags] at hown ⊢ <;> tauto
      · cases he
    · obtain ⟨input, hinput, rfl⟩ := List.mem_map.mp he
      obtain ⟨hinput, hallowed⟩ := List.mem_filter.mp hinput
      exact .inl (.inr ⟨input, hinput, hallowed, hne, htag⟩)

/-- Options without WARP. -/
def plainOptions : PokrovOptions := ⟨false, "", "", "round-robin", "", ""⟩

end closed

end PokrovCore.Config.Build
