import Mathlib.Algebra.Order.Ring.Rat
import PokrovCore.Foundations.JsonMap
import PokrovCore.SmartAccess.DomainScope

/-!
# LinuxDaemon/Profile — what a profile may contain

`prepare` reads a profile, refuses what would reach beyond the tunnel — files, namespaces, marks,
kinds of outbounds and inbounds that are not on its lists — and takes the interface, the routes and
the log for the daemon.  What is left is the configuration that runs.
-/

namespace PokrovCore.LinuxDaemon

/-- **What the code takes from its libraries**: the numbers that literals read as, with the small
integers exact; which texts are loopback addresses; and lower case. -/
structure Library where
  parseFloat : List Char → Option ℚ
  parseFloat_digits : ∀ n < 2 ^ 53, parseFloat (Nat.toDigits 10 n) = some (n : ℚ)
  isLoopback : String → Bool
  table : SmartAccess.CaseTable

/-- The network values of a plan. -/
structure Plan where
  tunnelInterface : String
  routingMark : ℕ
  dnsServers : List String
  deriving DecidableEq, Repr

def maximumConfigBytes : ℕ := 512 * 1024
def tunnelInterface : String := "pokrov0"
def routingMark : ℕ := 0x504b

/-! ## Values -/

variable (lib : Library)

mutual
/-- Is every number of a value in the range of the numbers? -/
def floats : Json → Bool
  | .num lit => (lib.parseFloat lit).isSome
  | .arr l => floatsItems l
  | .obj l => floatsMembers l
  | _ => true

@[inherit_doc floats]
def floatsItems : List Json → Bool
  | [] => true
  | j :: l => floats j && floatsItems l

@[inherit_doc floats]
def floatsMembers : List (String × Json) → Bool
  | [] => true
  | (_, j) :: l => floats j && floatsMembers l
end

/-- A text, decoded into a map. -/
def unmarshal (input : List Char) : Option (List (String × Json)) :=
  (Json.parse input).bind fun j => if floats lib j then j.maps.obj? else none

/-- An integer between two bounds, as a number may spell it. -/
def integerWithin (lo hi : ℚ) (j : Json) : Bool :=
  match j with
  | .num lit => (lib.parseFloat lit).any fun q => decide (lo ≤ q ∧ q ≤ hi ∧ q.den = 1)
  | _ => false

def onlyKeys (value : List (String × Json)) (allowed : List String) : Bool :=
  value.all fun e => allowed.contains e.1

/-- The keys that reach beyond the tunnel, in lower case; a path is one, but in the options of a
transport and of an HTTP server. -/
def forbidden (uriPath : Bool) (lower : List Char) : Bool :=
  "_path".toList.isSuffixOf lower || "_directory".toList.isSuffixOf lower ||
    ["netns", "system_interface", "interface_name", "routing_mark", "default_mark",
      "bind_interface", "output"].any (·.toList == lower) ||
    (lower == "path".toList && !uriPath)

def forbiddenKey (uriPath : Bool) (key : String) : Bool :=
  forbidden uriPath (key.toList.map lib.table.lower)

/-- A key in lower case, of ASCII characters. -/
def isPlain (key : String) : Bool :=
  key.toList.all fun c => decide (c.toNat < 0x80) && c.toLower == c

theorem forbiddenKey_of_isPlain {key : String} (h : isPlain key = true) (uriPath : Bool) :
    forbiddenKey lib uriPath key = forbidden uriPath key.toList := by
  have hmap : key.toList.map lib.table.lower = key.toList := by
    refine (List.map_congr_left fun c hc => ?_).trans (List.map_id _)
    have hplain := List.all_eq_true.mp h c hc
    simp only [Bool.and_eq_true, decide_eq_true_eq, beq_iff_eq] at hplain
    rw [SmartAccess.CaseTable.lower, if_pos hplain.1, hplain.2, id]
  rw [forbiddenKey, hmap]

/-- The options of a transport: one of the kinds that are allowed. -/
def transportAllowed (child : Json) : Bool :=
  match child with
  | .obj options =>
    (Json.text? options "type").any
      (["http", "ws", "quic", "grpc", "httpupgrade"].contains ·)
  | _ => false

mutual
/-- **Does no key of a value reach beyond the tunnel?** -/
def safeValues (transport : Bool) : Json → Bool
  | .obj item =>
    safeMembers (transport || Json.text? item "type" == some "https" ||
      Json.text? item "type" == some "http") item
  | .arr items => safeItems transport items
  | _ => true

@[inherit_doc safeValues]
def safeItems (transport : Bool) : List Json → Bool
  | [] => true
  | j :: l => safeValues transport j && safeItems transport l

@[inherit_doc safeValues]
def safeMembers (uriPath : Bool) : List (String × Json) → Bool
  | [] => true
  | (key, child) :: l =>
    !forbiddenKey lib uriPath key && (key != "transport" || transportAllowed child) &&
      safeValues (key == "transport") child && safeMembers uriPath l
end

/-! ## The parts of a profile -/

/-- The kinds of outbounds that a profile may contain. -/
def outboundTypes : List String :=
  ["direct", "block", "dns", "selector", "urltest", "vless", "vmess", "trojan", "shadowsocks",
    "hysteria", "hysteria2", "tuic", "socks", "http", "wireguard", "anytls"]

/-- Is an outbound of one of these kinds? -/
def outboundAllowed (types : List String) (value : Json) : Bool :=
  match value with
  | .obj outbound => (Json.text? outbound "type").any (types.contains ·)
  | _ => false

/-- Is an inbound the tunnel? -/
def isTunnel (value : Json) : Bool :=
  match value with
  | .obj inbound => Json.text? inbound "type" == some "tun"
  | _ => false

/-- A tunnel, or a proxy on a loopback address, with no other options. -/
def inboundAllowed (value : Json) : Bool :=
  match value with
  | .obj inbound =>
    if Json.text? inbound "type" = some "tun" then
      onlyKeys inbound ["type", "tag", "mtu", "auto_route", "strict_route", "stack", "address",
        "domain_strategy"]
    else if Json.text? inbound "type" = some "mixed" then
      onlyKeys inbound ["type", "tag", "listen", "listen_port", "domain_strategy"] &&
        (Json.text? inbound "listen").any lib.isLoopback &&
        (inbound.lookup "listen_port").any (integerWithin lib 1024 65535)
    else false
  | _ => false

/-- The name server of a tunnel address. -/
def dnsServer (address : String) : Option String :=
  if address = "172.19.0.1/28" then some "172.19.0.2"
  else if address = "fdfe:dcba:9876::1/126" then some "fdfe:dcba:9876::2"
  else none

/-- **The plan of a tunnel**: one or two of its addresses, none twice. -/
def tunnelPlan (tunnel : List (String × Json)) : Option Plan := do
  let values ← (tunnel.lookup "address").bind Json.arr?
  let addresses ← values.mapM Json.str?
  let dnsServers ← addresses.mapM dnsServer
  if values = [] ∨ 2 < values.length ∨ ¬addresses.Nodup then none
  else if (tunnel.lookup "mtu").any (integerWithin lib 1280 1500) then
    some ⟨tunnelInterface, routingMark, dnsServers⟩
  else none

/-- The tunnel, owned by the daemon. -/
def ownTunnel (value : Json) : Json :=
  match value with
  | .obj tunnel =>
    let tunnel := Json.set tunnel "interface_name" (.str tunnelInterface)
    let tunnel := Json.set tunnel "auto_route" (.bool false)
    let tunnel := Json.set tunnel "strict_route" (.bool true)
    let tunnel := Json.set tunnel "auto_redirect" (.bool false)
    .obj (Json.set tunnel "stack" (.str "system"))
  | j => j

/-- The routes, with the mark of the daemon and its rule for name servers. -/
def ownRoute (route : List (String × Json)) (rules : List Json) : Json :=
  let route := Json.set route "auto_detect_interface" (.bool true)
  let route := Json.set route "default_mark" (Json.int routingMark)
  .obj (Json.set route "rules"
    (.arr (.obj [("port", Json.int 53), ("action", .str "hijack-dns")] :: rules)))

/-- The log of a configuration. -/
def noLog : Json := .obj [("disabled", .bool true)]

/-- **The configuration of a profile and its plan**, with outbounds of these kinds. -/
def prepareWith (types : List String) (input : List Char) : Option (Json × Plan) := do
  if input = [] ∨ maximumConfigBytes < Json.byteLength input then none
  else
    let root ← unmarshal lib input
    if onlyKeys root ["log", "dns", "inbounds", "outbounds", "route"] = false then none
    else
      let root := Json.set root "log" noLog
      if safeValues lib false (.obj root) = false then none
      else
        let dns ← (root.lookup "dns").bind Json.obj?
        let outbounds ← (root.lookup "outbounds").bind Json.arr?
        if dns.isEmpty ∨ outbounds.isEmpty ∨ outbounds.all (outboundAllowed types) = false then none
        else
          let inbounds ← (root.lookup "inbounds").bind Json.arr?
          let route ← (root.lookup "route").bind Json.obj?
          let rules ← (route.lookup "rules").bind Json.arr?
          match inbounds.filter isTunnel with
          | [.obj tunnel] =>
            if inbounds.all (inboundAllowed lib) = false ∨
                onlyKeys route ["rules", "rule_set", "final", "find_process",
                  "auto_detect_interface", "default_domain_resolver"] = false then none
            else
              let plan ← tunnelPlan lib tunnel
              let root := Json.set root "inbounds"
                (.arr (inbounds.map fun i => if isTunnel i then ownTunnel i else i))
              let root := Json.set root "route" (ownRoute route rules)
              some (.obj (Json.set root "log" noLog), plan)
          | _ => none

/-- **The configuration of a profile and its plan.** -/
def prepare (input : List Char) : Option (Json × Plan) := prepareWith lib outboundTypes input

theorem bind_arr? {value : Option Json} {items : List Json} (h : value.bind Json.arr? = some items) :
    value = some (.arr items) := by
  obtain ⟨j, rfl, hj⟩ := Option.bind_eq_some_iff.mp h
  cases j <;> simp_all [Json.arr?]

theorem bind_obj? {value : Option Json} {members : List (String × Json)}
    (h : value.bind Json.obj? = some members) : value = some (.obj members) := by
  obtain ⟨j, rfl, hj⟩ := Option.bind_eq_some_iff.mp h
  cases j <;> simp_all [Json.obj?]

/-- **What is prepared**, and what was asked of it. -/
theorem prepareWith_eq_some {lib : Library} {types : List String} {input : List Char} {config : Json}
    {plan : Plan} (h : prepareWith lib types input = some (config, plan)) :
    ∃ root outbounds inbounds route rules tunnel,
      unmarshal lib input = some root ∧
      onlyKeys root ["log", "dns", "inbounds", "outbounds", "route"] = true ∧
      safeValues lib false (.obj (Json.set root "log" noLog)) = true ∧
      root.lookup "outbounds" = some (.arr outbounds) ∧
      outbounds.all (outboundAllowed types) = true ∧
      root.lookup "inbounds" = some (.arr inbounds) ∧ inbounds.filter isTunnel = [.obj tunnel] ∧
      inbounds.all (inboundAllowed lib) = true ∧
      root.lookup "route" = some (.obj route) ∧ route.lookup "rules" = some (.arr rules) ∧
      onlyKeys route ["rules", "rule_set", "final", "find_process", "auto_detect_interface",
        "default_domain_resolver"] = true ∧
      config = .obj (Json.set (Json.set (Json.set (Json.set root "log" noLog) "inbounds"
        (.arr (inbounds.map fun i => if isTunnel i then ownTunnel i else i))) "route"
        (ownRoute route rules)) "log" noLog) := by
  simp only [prepareWith, Option.bind_eq_bind, Option.ite_none_left_eq_some] at h
  obtain ⟨-, h⟩ := h
  obtain ⟨root, hroot, h⟩ := Option.bind_eq_some_iff.mp h
  obtain ⟨hkeys, h⟩ := Option.ite_none_left_eq_some.mp h
  obtain ⟨hsafe, h⟩ := Option.ite_none_left_eq_some.mp h
  obtain ⟨dns, -, h⟩ := Option.bind_eq_some_iff.mp h
  obtain ⟨outbounds, houtbounds, h⟩ := Option.bind_eq_some_iff.mp h
  obtain ⟨hall, h⟩ := Option.ite_none_left_eq_some.mp h
  obtain ⟨inbounds, hinbounds, h⟩ := Option.bind_eq_some_iff.mp h
  obtain ⟨route, hroute, h⟩ := Option.bind_eq_some_iff.mp h
  obtain ⟨rules, hrules, h⟩ := Option.bind_eq_some_iff.mp h
  split at h
  next tunnel htunnel =>
    obtain ⟨hallowed, h⟩ := Option.ite_none_left_eq_some.mp h
    obtain ⟨plan', -, hconfig⟩ := Option.bind_eq_some_iff.mp h
    simp only [not_or, Bool.not_eq_false] at hkeys hsafe hall hallowed
    have houtbounds := bind_arr? houtbounds
    have hinbounds := bind_arr? hinbounds
    have hroute := bind_obj? hroute
    rw [Json.lookup_set_ne (by decide)] at houtbounds hinbounds hroute
    exact ⟨root, outbounds, inbounds, route, rules, tunnel, hroot, hkeys, hsafe, houtbounds,
      hall.2.2, hinbounds, htunnel, hallowed.1, hroute, bind_arr? hrules, hallowed.2,
      (Prod.mk.inj (Option.some.inj hconfig)).1.symm⟩
  next => cases h

/-- Literals of digits, one loopback address, and no letters beyond ASCII. -/
def sampleLibrary : Library where
  parseFloat := fun lit => if lit.all Char.isDigit then some (Nat.ofDigitChars 10 lit 0 : ℚ) else none
  parseFloat_digits := fun n _ => by
    rw [if_pos (Json.all_isDigit_toDigits n), Nat.ofDigitChars_ten_toDigits]
  isLoopback := fun address => address == "127.0.0.1"
  table := ⟨id, fun _ h => h⟩

end PokrovCore.LinuxDaemon
