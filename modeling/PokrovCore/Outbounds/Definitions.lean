import Mathlib.Data.Finset.Card

/-!
# Outbounds/Definitions — the outbounds of a profile, as far as a protected fallback asks for them

A profile lists definitions under tags; a definition may go through a detour, and groups and lease
gates name the tags they stand on.  The leaves have policies of their own: which Naive leaf is
protected, and which VLESS leaf may be carried by a tunnel over DNS.
-/

namespace PokrovCore.Outbounds

/-! ## Options -/

/-- The TLS options that are asked for; a part that may be absent is its `enabled`. -/
structure TlsOptions where
  enabled : Bool
  serverName : String
  insecure : Bool
  disableSNI : Bool
  alpn : List String
  fragment : Bool
  recordFragment : Bool
  utls : Bool
  reality : Bool
  ech : Bool
  deriving DecidableEq

structure NaiveOptions where
  server : String
  serverPort : ℕ
  username : String
  password : String
  quic : Bool
  udpOverTCP : Bool
  tls : Option TlsOptions
  deriving DecidableEq

/-- `network` lists the networks; none is the default. -/
structure VlessOptions where
  uuid : String
  server : String
  serverPort : ℕ
  flow : String
  network : List String
  tls : Option TlsOptions
  transport : Bool
  multiplex : Bool
  deriving DecidableEq

/-- A tunnel over DNS; `parses` is the answer of its `parseOptions`. -/
structure TunnelOptions where
  network : List String
  parses : Bool
  deriving DecidableEq

/-- The kinds with options of their own here. -/
def knownKinds : List String :=
  ["naive", "vless", "hysteria2", "wireguard", "awg", "selector", "urltest", "dnstt", "slipstream",
    "pokrov-ats-lease"]

/-- **The options of a definition.**  Another kind is any that the registry knows: it has a name,
and it is none of these. -/
inductive Options
  | naive (o : NaiveOptions)
  | vless (o : VlessOptions)
  | hysteria2
  | legacyWireGuard
  | wireGuard
  | awg
  | selector (outbounds : List String)
  | urltest (outbounds : List String)
  | dnstt (o : TunnelOptions)
  | slipstream (o : TunnelOptions)
  | atsLease (upstreamTag : String)
  | other (kind : String) (h : kind ≠ "" ∧ kind ∉ knownKinds)
  deriving DecidableEq

namespace Options

/-- The kind under which options are registered. -/
def kind : Options → String
  | .naive _ => "naive"
  | .vless _ => "vless"
  | .hysteria2 => "hysteria2"
  | .legacyWireGuard | .wireGuard => "wireguard"
  | .awg => "awg"
  | .selector _ => "selector"
  | .urltest _ => "urltest"
  | .dnstt _ => "dnstt"
  | .slipstream _ => "slipstream"
  | .atsLease _ => "pokrov-ats-lease"
  | .other kind _ => kind

def isVless : Options → Bool
  | .vless _ => true
  | _ => false

/-- A tunnel that carries streams over DNS. -/
def isCarrier : Options → Bool
  | .dnstt _ | .slipstream _ => true
  | _ => false

/-- The members of a group. -/
def members : Options → List String
  | .selector l | .urltest l => l
  | _ => []

end Options

/-- **A definition**: an outbound or an endpoint. -/
structure Definition where
  tag : String
  detour : String
  options : Options
  deriving DecidableEq

namespace Definition

variable (d : Definition)

/-- What a built outbound depends on. -/
def dependencies : List String :=
  match d.options with
  | .naive _ | .vless _ | .hysteria2 | .legacyWireGuard | .wireGuard | .awg =>
    if d.detour = "" then [] else [d.detour]
  | .selector l | .urltest l => l
  | .atsLease upstreamTag => [upstreamTag]
  | .dnstt _ | .slipstream _ | .other _ _ => []

end Definition

/-- The definition under a tag. -/
def lookup (definitions : List Definition) (tag : String) : Option Definition :=
  definitions.find? (·.tag == tag)

variable {definitions : List Definition}

theorem mem_of_lookup {tag : String} {d : Definition} (h : lookup definitions tag = some d) :
    d ∈ definitions ∧ d.tag = tag :=
  ⟨List.mem_of_find?_eq_some h, by simpa using List.find?_some h⟩

/-- The tags that are defined. -/
def tags (definitions : List Definition) : Finset String := (definitions.map (·.tag)).toFinset

theorem card_tags_lt {n : ℕ} (hn : definitions.length < n) : (tags definitions).card < n :=
  Nat.lt_of_le_of_lt ((List.toFinset_card_le _).trans (by simp)) hn

theorem mem_tags {tag : String} {d : Definition} (h : lookup definitions tag = some d) :
    tag ∈ tags definitions :=
  List.mem_toFinset.mpr (List.mem_map.mpr ⟨d, (mem_of_lookup h).1, (mem_of_lookup h).2⟩)

/-! ## Policies of the leaves -/

/-- `naive.ProtectedH2`: only the authenticated leaf over TCP. -/
def protectedH2 (detour : String) (o : NaiveOptions) : Bool :=
  if o.server = "" ∨ o.serverPort = 0 ∨ o.username = "" ∨ o.password = "" ∨ detour ≠ "" ∨
      o.quic = true ∨ o.udpOverTCP = true then false
  else
    match o.tls with
    | some tls =>
      tls.enabled && tls.serverName != "" && !tls.insecure && !tls.disableSNI && tls.alpn.isEmpty &&
        !tls.fragment && !tls.recordFragment && !tls.utls && !tls.reality && !tls.ech
    | none => false

theorem detour_of_protectedH2 {detour : String} {o : NaiveOptions}
    (h : protectedH2 detour o = true) : detour = "" := by
  unfold protectedH2 at h
  split at h
  · cases h
  · rename_i hnot
    exact Decidable.byContradiction fun hne => hnot (.inr (.inr (.inr (.inr (.inl hne)))))

/-- The VLESS leaf that a tunnel may carry, to the fixed backend and in the clear. -/
def protectedDetour (detour : String) (vless : VlessOptions) (tunnel : TunnelOptions) : Bool :=
  if detour = "" ∨ vless.uuid = "" ∨ vless.server ≠ "127.0.0.1" ∨ vless.serverPort ≠ 12543 ∨
      vless.flow ≠ "" ∨ vless.network ≠ ["tcp"] ∨ tunnel.network ≠ ["tcp"] ∨ vless.tls.isSome ∨
      vless.transport ∨ vless.multiplex then false
  else tunnel.parses

/-- `slipstream.ProtectedVLESSDetour` and `dnstt.ProtectedVLESSDetour` -/
def slipstreamProtectedVLESSDetour : String → VlessOptions → TunnelOptions → Bool := protectedDetour

@[inherit_doc slipstreamProtectedVLESSDetour]
def dnsttProtectedVLESSDetour : String → VlessOptions → TunnelOptions → Bool := protectedDetour

/-- The verdict on a VLESS leaf whose detour is a carrier; on others there is none. -/
def carriedLeaf (byTag : String → Option Definition) (leaf : Definition) : Option Bool :=
  match leaf.options, byTag leaf.detour with
  | .vless vless, some ⟨_, _, .slipstream tunnel⟩ =>
    some (slipstreamProtectedVLESSDetour leaf.detour vless tunnel)
  | .vless vless, some ⟨_, _, .dnstt tunnel⟩ =>
    some (dnsttProtectedVLESSDetour leaf.detour vless tunnel)
  | _, _ => none

/-- Is a tag that of a carrier? -/
def carries (byTag : String → Option Definition) (tag : String) : Bool :=
  (byTag tag).any (·.options.isCarrier)

theorem carriedLeaf_isSome (byTag : String → Option Definition) (leaf : Definition) :
    (carriedLeaf byTag leaf).isSome = (leaf.options.isVless && carries byTag leaf.detour) := by
  unfold carriedLeaf carries
  cases hleaf : leaf.options <;> simp only [Options.isVless, Bool.false_and, Option.isSome_none]
  cases hfound : byTag leaf.detour with
  | none => rfl
  | some carrier =>
    obtain ⟨tag, detour, options⟩ := carrier
    cases options <;> rfl

/-- Is a leaf under TLS that it checks? -/
def VlessOptions.secured (o : VlessOptions) : Bool := o.tls.any fun t => t.enabled && !t.insecure

end PokrovCore.Outbounds
