import PokrovCore.Config.LegacyDnsOutbound

/-!
# Config/LegacyDns — DNS servers of an old profile become typed ones

A profile is rewritten before it is decoded for good: an extension of the portal is dropped, outbounds
of type dns are migrated, and a DNS server without a type is given one by its address.  What comes out
has nothing left to rewrite, so it is returned as it is the next time, and its servers are those of the
profile, in their order and with their tags.

A text stands here for its value, comments aside; a profile that is returned byte for byte is `none`.
-/

namespace PokrovCore.Config

open Json (Folding map? list? text optional structText ofMap)

/-- `legacyDNSServer`; of the client subnet, only whether there is one. -/
structure LegacyDNSServer where
  type : String
  tag : String
  address : String
  addressResolver : String
  addressStrategy : ℕ
  addressFallbackDelay : ℤ
  strategy : ℕ
  detour : String
  clientSubnet : Bool

/-- The parts of a URL. -/
structure Url where
  scheme : String
  host : String
  hostname : String
  port : String
  path : String
  user : Bool
  rawQuery : String
  fragment : String

/-- **What the code takes from its libraries**: the decoder of structures, of which the strict one
reads the tag as the other does; URLs and addresses; and the texts of strategies and durations. -/
structure DnsLibrary where
  folding : Folding
  decodeLegacy : Json → Option LegacyDNSServer
  decodeLegacy_tag : ∀ j s, decodeLegacy j = some s → structText folding "tag" j = some s.tag
  parseURL : String → Option Url
  parseSocksaddr : String → Option (String × ℕ)
  parseUint16 : String → Option ℕ
  fragmentDelay : String → Option ℤ
  strategyJson : ℕ → Json
  durationJson : ℤ → Json

/-- `strings.Contains` -/
def containsText (s part : String) : Bool := s.toList.tails.any (part.toList.isPrefixOf ·)

/-! ## One server -/

/-- `option.DNSServerOptions` of the kinds that an address can be. -/
structure DnsServer where
  type : String
  tag : String
  server : Option (String × ℕ)
  path : String
  tls : Option (List (String × Json))
  detour : String
  fallbackDelay : ℤ
  resolver : Option (String × ℕ)

section server

variable (lib : DnsLibrary)

/-- A member with a text, unless the text is empty. -/
def textMember (key value : String) : List (String × Json) :=
  if value = "" then [] else [(key, .str value)]

/-- The members of a server but for its type and tag. -/
def DnsServer.rest (s : DnsServer) : List (String × Json) :=
  ("tls_fragment", .obj []) :: textMember "detour" s.detour ++
    (s.resolver.toList.map fun r => ("domain_resolver", if r.2 = 0 then .str r.1
      else .obj [("server", .str r.1), ("strategy", lib.strategyJson r.2)])) ++
    (if s.fallbackDelay = 0 then [] else [("fallback_delay", lib.durationJson s.fallbackDelay)]) ++
    (s.server.toList.flatMap fun a => ("server", .str a.1) ::
      if a.2 = 0 then [] else [("server_port", Json.int a.2)]) ++
    (s.tls.toList.map fun o => ("tls", .obj o)) ++ textMember "path" s.path

/-- `MarshalJSONContext` -/
def DnsServer.marshal (s : DnsServer) : Json :=
  .obj (("type", .str s.type) :: textMember "tag" s.tag ++ s.rest lib)

/-- The address of a server, without the port that is the default. -/
def addressOf (host : String) (defaultPort : ℕ) : Option (String × ℕ) :=
  (lib.parseSocksaddr host).map fun a => (a.1, if a.2 = defaultPort then 0 else a.2)

/-- The TLS options of an address. -/
def tlsOptions (dnsurl : String) : List (String × Json) :=
  ("enabled", .bool true) ::
    if containsText dnsurl "#fragment=" then
      ("fragment", .bool true) ::
        ((lib.fragmentDelay dnsurl).toList.map fun d =>
          ("fragment_fallback_delay", lib.durationJson d)) ++ [("record_fragment", .bool true)]
    else []

/-- The path of an address, unless it is the default. -/
def httpsPath (path : String) : String := if path = "/dns-query" then "" else path

/-- `getDNSServerOptions`, without the options of its dialer, for the kinds that are kept. -/
def getDNSServerOptions (tag dnsurl : String) : Option DnsServer :=
  let url := (lib.parseURL dnsurl).filter (·.scheme != "")
  let build (type : String) (server : Option (String × ℕ)) (path : String)
      (tls : Option (List (String × Json))) : DnsServer := ⟨type, tag, server, path, tls, "", 0, none⟩
  match url with
  | none =>
    if dnsurl = "local" then some (build "local" none "" none)
    else if dnsurl = "fakeip" then none
    else (addressOf lib dnsurl 53).map fun a => build "udp" (some a) "" none
  | some url =>
    if url.scheme = "local" then some (build "local" none "" none)
    else if url.scheme = "udp" ∨ url.scheme = "tcp" then
      (addressOf lib url.host 53).map fun a => build url.scheme (some a) "" none
    else if url.scheme = "tls" ∨ url.scheme = "quic" then
      (addressOf lib url.host 853).map fun a => build url.scheme (some a) "" none
    else if url.scheme = "https" ∨ url.scheme = "h3" then
      (addressOf lib url.host 443).map fun a =>
        build url.scheme (some a) (httpsPath url.path) (some (tlsOptions lib dnsurl))
    else none

/-- The checks on an address that is a URL. -/
def urlAllowed (address : String) : Bool :=
  (lib.parseURL address).any fun url =>
    !url.user && url.rawQuery == "" && url.fragment == "" && url.hostname != "" &&
      (url.port == "" || (lib.parseUint16 url.port).any (· != 0)) &&
      (url.scheme == "https" || url.scheme == "h3" || url.path == "")

/-- The outbound that a server is reached through; a plain direct one is none. -/
def detourOf (legacy : LegacyDNSServer) (defaultOutbound : String) (emptyDirect : List String) :
    String :=
  let detour := if legacy.detour = "" then defaultOutbound else legacy.detour
  if detour ∈ emptyDirect then "" else detour

/-- The resolver of a server's address; a strategy needs one. -/
def resolverOf (legacy : LegacyDNSServer) : Option (Option (String × ℕ)) :=
  if legacy.addressResolver ≠ "" then some (some (legacy.addressResolver, legacy.addressStrategy))
  else if legacy.addressStrategy ≠ 0 then none
  else some none

/-- **`migrateLegacyDNSServer`** -/
def migrateLegacyDNSServer (legacy : LegacyDNSServer) (defaultOutbound : String)
    (emptyDirect : List String) : Option DnsServer :=
  if legacy.address.toList.any fun c => c == ' ' || c == '\t' || c == '\r' || c == '\n' then none
  else if containsText legacy.address "://" ∧ urlAllowed lib legacy.address = false then none
  else (getDNSServerOptions lib legacy.tag legacy.address).bind fun server =>
    (resolverOf legacy).map fun resolver => { server with
      detour := detourOf legacy defaultOutbound emptyDirect
      fallbackDelay := legacy.addressFallbackDelay
      resolver := resolver }

/-- The turn of the loop over the servers: nothing, if the server has a type. -/
def migrateServer (defaultOutbound : String) (emptyDirect : List String) (e : Json × ℕ) :
    Except String (Option Json) := do
  let type ← orError s!"invalid DNS server at index {e.2}" (structText lib.folding "type" e.1)
  if type ≠ "" ∧ type ≠ "legacy" then .ok none
  else
    let legacy ← orError s!"invalid legacy DNS server at index {e.2}"
      ((lib.decodeLegacy e.1).filter (·.address != ""))
    if legacy.strategy ≠ 0 ∨ legacy.clientSubnet = true then
      .error s!"unsupported legacy DNS query overrides at index {e.2}"
    else
      let server ← orError s!"unsupported legacy DNS server at index {e.2}"
        (migrateLegacyDNSServer lib legacy defaultOutbound emptyDirect)
      .ok (some (server.marshal lib))

end server

/-! ## The profile -/

section normalize

variable (lib : DnsLibrary)

/-- The outbound that is the default, if the routes have no final one. -/
def defaultOutbound (final : String) (outbounds : List Fields) : String :=
  if final = "" then (outbounds.head?.map fun m => tagOr (((m.get? "tag").bind text).getD "") 0).getD ""
  else final

/-- The outbounds that are direct and nothing more. -/
def emptyDirect (outbounds : List Fields) : List String :=
  outbounds.zipIdx.filterMap fun e =>
    if ((e.1.get? "type").bind text).getD "" = "direct" ∧
        (e.1.size = 1 ∨ (e.1.size = 2 ∧ (e.1.get? "tag").isSome = true)) then
      some (tagOr (((e.1.get? "tag").bind text).getD "") e.2)
    else none

/-- The servers of a DNS configuration, with the new ones in their places. -/
def replaceServers (servers : List Json) (results : List (Option Json)) : List Json :=
  List.zipWith (fun server result => result.getD server) servers results

/-- A list, written; one that was not there is `null`. -/
def writeList (value : Option Json) (items : List Json) : Json :=
  match value with
  | some (.arr _) => .arr items
  | _ => .null

/-- The servers of a profile, once the rest of it has been migrated. -/
def normalizeServers (changed : Bool) (root : Fields) (dns : Fields) :
    Except String (Option Json) := do
  let servers ← orError "invalid DNS servers" (optional list? [] (dns.get? "servers"))
  let final ← orError "invalid route configuration"
    (optional (structText lib.folding "final") "" (root.get? "route"))
  let outbounds ← orError "invalid outbounds"
    ((optional list? [] (root.get? "outbounds")).bind (·.mapM map?))
  let results ← servers.zipIdx.mapM
    (migrateServer lib (defaultOutbound final outbounds) (emptyDirect outbounds))
  if changed || results.any Option.isSome then
    .ok (some (ofMap (root.insert "dns" (ofMap (dns.insert "servers"
      (writeList (dns.get? "servers") (replaceServers servers results)))))))
  else .ok none

/-- The rest of `NormalizeLegacyDNS`, once the outbounds are migrated. -/
def normalizeDns (changed : Bool) (root : Fields) : Except String (Option Json) :=
  match root.get? "dns" with
  | none | some .null => .ok (if changed then some (ofMap root) else none)
  | some (.obj members) => normalizeServers lib changed root (.ofList members)
  | some _ => .error "invalid DNS configuration"

/-- **`NormalizeLegacyDNS`**: the new value, or nothing if the text is returned as it is. -/
def normalizeLegacyDNS (content : Json) : Except String (Option Json) :=
  match content with
  | .obj members => do
    let root : Fields := .ofList members
    let (outboundsChanged, root') ←
      migrateLegacyDNSOutbound lib.folding (root.filter fun k _ => k != "_meta")
    normalizeDns lib ((root.get? "_meta").isSome || outboundsChanged) root'
  | _ => .error "invalid configuration JSON"

/-- The servers of a profile. -/
def serversOf (root : Fields) : List Json :=
  ((root.get? "dns").bind map?).elim [] fun dns => (optional list? [] (dns.get? "servers")).getD []

/-- The servers of a text. -/
def dnsServers (content : Json) : List Json := (map? content).elim [] serversOf

end normalize

/-! ## Typed servers -/

section typed

variable {lib : DnsLibrary} {f : Folding}

/-- **A server has a type**, and not the one of the old servers. -/
def Typed (lib : DnsLibrary) (j : Json) : Prop :=
  ∃ type, structText lib.folding "type" j = some type ∧ type ≠ "" ∧ type ≠ "legacy"

theorem fieldText_of_plain {name s : String} (hname : Json.plainName name.toList = true)
    {members : List (String × Json)}
    (h : ∀ e ∈ members, Json.plainName e.1.toList = true ∧ e.1 ≠ name) :
    Json.fieldText f name s members = some s := by
  induction members with
  | nil => rfl
  | cons e members ih =>
    obtain ⟨⟨hplain, hne⟩, hrest⟩ := List.forall_mem_cons.mp h
    obtain ⟨k, j⟩ := e
    rw [Json.fieldText, if_neg (mt (Json.Folding.matches_iff hplain hname).mp hne), ih hrest]

/-- The keys of a server but for its type and tag. -/
def restKeys : List String :=
  ["tls_fragment", "detour", "domain_resolver", "fallback_delay", "server", "server_port", "tls",
    "path"]

variable (s : DnsServer)

theorem mem_restKeys : ∀ e ∈ s.rest lib, e.1 ∈ restKeys := by
  intro e he
  simp only [DnsServer.rest, textMember, List.mem_append, List.mem_cons, List.mem_map,
    List.mem_flatMap] at he
  rcases he with (((((rfl | he) | ⟨r, -, rfl⟩) | he) | ⟨a, -, he⟩) | ⟨o, -, rfl⟩) | he
  · simp [restKeys]
  · split at he <;> simp_all [restKeys]
  · simp [restKeys]
  · split at he <;> simp_all [restKeys]
  · split at he <;> grind [restKeys]
  · simp [restKeys]
  · split at he <;> simp_all [restKeys]

theorem fieldText_rest {name t : String} (h : name = "type" ∨ name = "tag") :
    Json.fieldText f name t (s.rest lib) = some t := by
  have hkeys : ∀ k ∈ restKeys, Json.plainName k.toList = true ∧ k ≠ "type" ∧ k ≠ "tag" := by
    decide +kernel
  refine fieldText_of_plain (by rcases h with rfl | rfl <;> decide +kernel) fun e he => ?_
  obtain ⟨hplain, htype, htag⟩ := hkeys _ (mem_restKeys s e he)
  exact ⟨hplain, by rcases h with rfl | rfl <;> assumption⟩

theorem fieldText_tag {t : String} (name : String) (h : name = "type" ∨ name = "tag") :
    Json.fieldText f name t (textMember "tag" s.tag ++ s.rest lib) =
      some (if name = "tag" ∧ s.tag ≠ "" then s.tag else t) := by
  have hself : f.Matches "tag" name.toList ↔ name = "tag" :=
    (Json.Folding.matches_iff (by decide +kernel)
      (by rcases h with rfl | rfl <;> decide +kernel)).trans eq_comm
  unfold textMember
  by_cases htag : s.tag = ""
  · simp [htag, fieldText_rest s h]
  · rw [if_neg htag, List.singleton_append, Json.fieldText]
    by_cases hname : name = "tag"
    · rw [if_pos (hself.mpr hname), if_pos ⟨hname, htag⟩]
      exact fieldText_rest s h
    · rw [if_neg (mt hself.mp hname), if_neg fun hboth => hname hboth.1]
      exact fieldText_rest s h

theorem structText_type : structText f "type" (s.marshal lib) = some s.type := by
  rw [DnsServer.marshal, structText, List.cons_append, Json.fieldText,
    if_pos (show f.Matches "type" "type".toList from rfl)]
  exact fieldText_tag s "type" (.inl rfl)

theorem structText_tag : structText f "tag" (s.marshal lib) = some s.tag := by
  have hno : ¬f.Matches "type" "tag".toList := by
    rw [Json.Folding.matches_iff (by decide +kernel) (by decide +kernel)]
    decide
  rw [DnsServer.marshal, structText, List.cons_append, Json.fieldText, if_neg hno,
    fieldText_tag s "tag" (.inr rfl)]
  by_cases htag : s.tag = "" <;> simp [htag]

/-- The kinds of servers that an address can be. -/
def addressKinds : List String := ["local", "udp", "tcp", "tls", "quic", "https", "h3"]

theorem getDNSServerOptions_spec {tag dnsurl : String} {s : DnsServer}
    (h : getDNSServerOptions lib tag dnsurl = some s) : s.type ∈ addressKinds ∧ s.tag = tag := by
  unfold getDNSServerOptions at h
  dsimp only at h
  split at h
  · split_ifs at h
    · obtain rfl := Option.some.inj h
      exact ⟨by simp [addressKinds], rfl⟩
    · obtain ⟨a, -, rfl⟩ := Option.map_eq_some_iff.mp h
      exact ⟨by simp [addressKinds], rfl⟩
  · split_ifs at h with hlocal hplain htls hhttps
    · obtain rfl := Option.some.inj h
      exact ⟨by simp [addressKinds], rfl⟩
    all_goals
      obtain ⟨a, -, rfl⟩ := Option.map_eq_some_iff.mp h
      refine ⟨?_, rfl⟩
    · rcases hplain with h | h <;> simp [addressKinds, h]
    · rcases htls with h | h <;> simp [addressKinds, h]
    · rcases hhttps with h | h <;> simp [addressKinds, h]

theorem migrateLegacyDNSServer_spec {legacy : LegacyDNSServer} {final : String} {direct : List String}
    {s : DnsServer} (h : migrateLegacyDNSServer lib legacy final direct = some s) :
    s.type ∈ addressKinds ∧ s.tag = legacy.tag := by
  unfold migrateLegacyDNSServer at h
  split_ifs at h
  obtain ⟨server, hserver, h⟩ := Option.bind_eq_some_iff.mp h
  obtain ⟨resolver, -, rfl⟩ := Option.map_eq_some_iff.mp h
  have hspec := getDNSServerOptions_spec hserver
  exact hspec

variable {final : String} {direct : List String}

/-- **A server of a turn has a type, and the tag it had.** -/
theorem migrateServer_spec {e : Json × ℕ} {r : Option Json}
    (h : migrateServer lib final direct e = .ok r) :
    Typed lib (r.getD e.1) ∧
      structText lib.folding "tag" (r.getD e.1) = structText lib.folding "tag" e.1 := by
  obtain ⟨type, htype, h⟩ := orError_bind_eq_ok.mp h
  split at h
  next hne =>
    obtain rfl := Except.ok.inj h
    exact ⟨⟨type, htype, hne⟩, rfl⟩
  next =>
    obtain ⟨legacy, hlegacy, h⟩ := orError_bind_eq_ok.mp h
    obtain ⟨-, h⟩ := ite_error_eq_ok.mp h
    obtain ⟨server, hserver, h⟩ := orError_bind_eq_ok.mp h
    obtain rfl := Except.ok.inj h
    obtain ⟨hkind, htag⟩ := migrateLegacyDNSServer_spec hserver
    refine ⟨⟨server.type, structText_type server, ?_⟩, ?_⟩
    · have hall : ∀ k ∈ addressKinds, k ≠ "" ∧ k ≠ "legacy" := by decide
      exact hall _ hkind
    · rw [Option.getD_some, structText_tag, htag,
        lib.decodeLegacy_tag _ _ (Option.filter_eq_some_iff.mp hlegacy).1]

theorem migrateServer_of_typed {e : Json × ℕ} (h : Typed lib e.1) :
    migrateServer lib final direct e = .ok none := by
  obtain ⟨type, htype, hne⟩ := h
  rw [migrateServer, htype]
  exact if_pos hne

/-- The loop leaves servers with types, and with their tags. -/
theorem replaceServers_spec {servers : List Json} {results : List (Option Json)} {n : ℕ}
    (h : List.Forall₂ (fun e r => migrateServer lib final direct e = .ok r) (servers.zipIdx n)
      results) :
    (∀ j ∈ replaceServers servers results, Typed lib j) ∧
      (replaceServers servers results).map (structText lib.folding "tag") =
        servers.map (structText lib.folding "tag") := by
  induction servers generalizing n results with
  | nil => simp [replaceServers]
  | cons j servers ih =>
    rw [List.zipIdx_cons] at h
    cases h with
    | cons hj hrest =>
      obtain ⟨htyped, htag⟩ := migrateServer_spec hj
      obtain ⟨hall, htags⟩ := ih hrest
      rw [replaceServers, List.zipWith_cons_cons, List.forall_mem_cons, List.map_cons, List.map_cons,
        htag]
      exact ⟨⟨htyped, hall⟩, congrArg _ htags⟩

/-- It leaves servers with types alone. -/
theorem mapM_migrateServer_of_typed {servers : List Json} (h : ∀ j ∈ servers, Typed lib j) (n : ℕ) :
    (servers.zipIdx n).mapM (migrateServer lib final direct) = .ok (servers.map fun _ => none) := by
  induction servers generalizing n with
  | nil => rfl
  | cons j servers ih =>
    obtain ⟨hj, hrest⟩ := List.forall_mem_cons.mp h
    rw [List.zipIdx_cons, List.mapM_cons, @migrateServer_of_typed lib final direct (j, n) hj,
      ih hrest (n + 1)]
    rfl

end typed

/-! ## The second time -/

section again

variable {lib : DnsLibrary} {f : Folding} {root root' : Fields} {changed : Bool}

/-- The loop over outbounds that are not of type dns retains them all. -/
theorem findOutbounds_of_retained {list : List Json}
    (h : ∀ encoded ∈ list, (∃ kind tag, Readable encoded kind tag) ∧ kindOf encoded ≠ some "dns")
    (i : ℕ) (found : Found) :
    findOutbounds i list found = .ok { found with retained := found.retained ++ list } := by
  induction list generalizing i found with
  | nil => simp [findOutbounds]
  | cons encoded rest ih =>
    obtain ⟨⟨⟨kind, tag, hread⟩, hne⟩, hrest⟩ := List.forall_mem_cons.mp h
    rw [hread.kindOf_eq] at hne
    obtain ⟨fields, hmap, hkind, htag⟩ := hread
    rw [findOutbounds, hmap, orError_some_bind, hkind, orError_some_bind, htag, orError_some_bind,
      if_pos (show kind ≠ "dns" from fun h => hne (h ▸ rfl)), ih hrest, List.append_assoc,
      List.singleton_append]

/-- The outbounds of a migrated profile can be read, and none is of type dns. -/
theorem migrate_outbounds (h : migrateLegacyDNSOutbound f root = .ok (changed, root')) :
    ∃ outbounds, optional list? [] (root'.get? "outbounds") = some outbounds ∧
      (∀ encoded ∈ outbounds,
        (∃ kind tag, Readable encoded kind tag) ∧ kindOf encoded ≠ some "dns") ∧
      (changed = false → root' = root) ∧
      ((∀ encoded ∈ outboundsOf root, kindOf encoded ≠ some "dns") → changed = false) ∧
      ∀ k, k ≠ "outbounds" → k ≠ "route" → root'.get? k = root.get? k := by
  obtain ⟨outbounds, houtbounds, h⟩ := orError_bind_eq_ok.mp h
  cases hfound : findOutbounds 0 outbounds ⟨[], false, []⟩ with
  | error e =>
    rw [hfound] at h
    cases h
  | ok found =>
    rw [hfound] at h
    change (if found.tags = [] then _ else _) = _ at h
    obtain ⟨htags, hretained, hread, -⟩ := findOutbounds_ok hfound
    rw [List.nil_append] at htags hretained
    split at h
    next hnone =>
      obtain ⟨rfl, rfl⟩ := Prod.mk.inj (Except.ok.inj h)
      exact ⟨outbounds, houtbounds, fun encoded hin =>
        ⟨hread encoded hin, legacyTags_eq_nil (htags.symm.trans hnone) encoded hin⟩, fun _ => rfl,
        fun _ => rfl, fun _ _ _ => rfl⟩
    next hsome =>
      obtain ⟨root'', hremoved, heq⟩ := map_eq_ok.mp h
      obtain ⟨rfl, rfl⟩ := Prod.mk.inj heq
      obtain ⟨route, root₁, -, -, hrules, rfl, -⟩ := removeFound_ok hremoved
      refine ⟨found.retained, by rw [SortedMap.get?_insert_self]; rfl, fun encoded hin => ?_,
        fun hno => absurd hno (by decide), fun hall => ?_, fun k hk hk' => ?_⟩
      · rw [hretained] at hin
        obtain ⟨hin, hne⟩ := List.mem_filter.mp hin
        exact ⟨hread encoded hin, by simpa using hne⟩
      · rw [outboundsOf, houtbounds, Option.getD_some] at hall
        have hgone := findOutbounds_of_retained (fun encoded hin =>
          ⟨hread encoded hin, hall encoded hin⟩) 0 ⟨[], false, []⟩
        rw [hfound] at hgone
        exact absurd (congrArg Found.tags (Except.ok.inj hgone)) hsome
      · rw [SortedMap.get?_insert_of_ne _ _ hk, withRules_get? hrules hk']

/-- **A migrated profile is not migrated again**, nor is one with its outbounds. -/
theorem migrate_again {root'' : Fields} (h : migrateLegacyDNSOutbound f root = .ok (changed, root'))
    (hsame : root''.get? "outbounds" = root'.get? "outbounds") :
    migrateLegacyDNSOutbound f root'' = .ok (false, root'') := by
  obtain ⟨outbounds, houtbounds, hread, -⟩ := migrate_outbounds h
  rw [migrateLegacyDNSOutbound, hsame, houtbounds, orError_some_bind, findOutbounds_of_retained hread]
  rfl

/-- The profile without the extension of the portal. -/
def withoutMeta (root : Fields) : Fields := root.filter fun k _ => k != "_meta"

theorem get?_withoutMeta (root : Fields) {k : String} (hk : k ≠ "_meta") :
    (withoutMeta root).get? k = root.get? k := by
  rw [withoutMeta, SortedMap.get?_filter]
  cases root.get? k <;> simp [hk]

theorem withoutMeta_eq_self (h : root.get? "_meta" = none) : withoutMeta root = root := by
  refine SortedMap.ext_get? fun k => ?_
  by_cases hk : k = "_meta"
  · rw [hk, h, withoutMeta, SortedMap.get?_filter, h]
    rfl
  · exact get?_withoutMeta root hk

/-- The steps of `NormalizeLegacyDNS`. -/
theorem normalizeLegacyDNS_obj (members : List (String × Json)) :
    normalizeLegacyDNS lib (.obj members) =
      (migrateLegacyDNSOutbound lib.folding (withoutMeta (.ofList members)) >>= fun r =>
        normalizeDns lib (((SortedMap.ofList members).get? "_meta").isSome || r.1) r.2) := rfl

/-- A profile without the extension whose outbounds have been migrated. -/
theorem normalizeLegacyDNS_ofMap {root'' : Fields}
    (h : migrateLegacyDNSOutbound f root = .ok (changed, root'))
    (hlib : lib.folding = f) (hmeta : root''.get? "_meta" = none)
    (hsame : root''.get? "outbounds" = root'.get? "outbounds") :
    normalizeLegacyDNS lib (ofMap root'') = normalizeDns lib false root'' := by
  subst hlib
  rw [ofMap, normalizeLegacyDNS_obj, SortedMap.ofList_entries, withoutMeta_eq_self hmeta,
    migrate_again h hsame, hmeta]
  rfl

theorem list?_writeList {value : Option Json} {servers : List Json} {results : List (Option Json)}
    (h : optional list? [] value = some servers) :
    list? (writeList value (replaceServers servers results)) = some (replaceServers servers results) := by
  cases value with
  | none =>
    obtain rfl := Option.some.inj h
    rfl
  | some j =>
    cases j with
    | null =>
      obtain rfl := Option.some.inj h
      rfl
    | arr items => rfl
    | _ => cases h

/-- **What the servers of a profile come to.** -/
theorem normalizeServers_ok {dns : Fields} {r : Option Json}
    (h : normalizeServers lib changed root dns = .ok r) :
    ∃ servers results, optional list? [] (dns.get? "servers") = some servers ∧
      (∀ j ∈ replaceServers servers results, Typed lib j) ∧
      (replaceServers servers results).map (structText lib.folding "tag") =
        servers.map (structText lib.folding "tag") ∧
      (r = none ∨ r = some (ofMap (root.insert "dns" (ofMap (dns.insert "servers"
        (writeList (dns.get? "servers") (replaceServers servers results))))))) ∧
      ((∀ j ∈ servers, Typed lib j) → changed = false → r = none) ∧
      ∀ (dns' root' : Fields) (servers' : List Json),
        optional list? [] (dns'.get? "servers") = some servers' → (∀ j ∈ servers', Typed lib j) →
        root'.get? "route" = root.get? "route" → root'.get? "outbounds" = root.get? "outbounds" →
        normalizeServers lib false root' dns' = .ok none := by
  obtain ⟨servers, hservers, h⟩ := orError_bind_eq_ok.mp h
  obtain ⟨final, hfinal, h⟩ := orError_bind_eq_ok.mp h
  obtain ⟨outbounds, houtbounds, h⟩ := orError_bind_eq_ok.mp h
  cases hresults : servers.zipIdx.mapM
      (migrateServer lib (defaultOutbound final outbounds) (emptyDirect outbounds)) with
  | error e =>
    rw [hresults] at h
    cases h
  | ok results =>
    rw [hresults] at h
    change (if _ then _ else _) = _ at h
    obtain ⟨htyped, htags⟩ := replaceServers_spec (forall₂_of_mapM_ok hresults)
    refine ⟨servers, results, hservers, htyped, htags, ?_, fun hall hsame => ?_,
      fun dns' root' servers' hservers' hall hroute hout => ?_⟩
    · split at h
      · exact .inr (Except.ok.inj h).symm
      · exact .inl (Except.ok.inj h).symm
    · rw [mapM_migrateServer_of_typed hall] at hresults
      obtain rfl := Except.ok.inj hresults
      rw [hsame] at h
      simpa using h.symm
    · rw [normalizeServers, hservers', orError_some_bind, hroute, hfinal, orError_some_bind, hout,
        houtbounds, orError_some_bind, mapM_migrateServer_of_typed hall]
      exact if_neg (by simp)

theorem normalizeDns_of_absent (h : root.get? "dns" = none ∨ root.get? "dns" = some .null)
    (changed : Bool) :
    normalizeDns lib changed root = .ok (if changed then some (ofMap root) else none) := by
  rcases h with h | h <;> rw [normalizeDns, h]

theorem normalizeDns_of_obj {members : List (String × Json)}
    (h : root.get? "dns" = some (.obj members)) (changed : Bool) :
    normalizeDns lib changed root = normalizeServers lib changed root (.ofList members) := by
  rw [normalizeDns, h]

/-- **The servers that were normalized**: normalized again they are as they are, they have the tags
they had, and nothing is changed where there is nothing to change. -/
theorem normalizeDns_spec {r : Option Json} (h : normalizeDns lib changed root = .ok r) :
    ((∀ j ∈ serversOf root, Typed lib j) → changed = false → r = none) ∧
      ∀ j ∈ r, ∃ root', j = ofMap root' ∧ normalizeDns lib false root' = .ok none ∧
        (∀ k, k ≠ "dns" → root'.get? k = root.get? k) ∧
        (serversOf root').map (structText lib.folding "tag") =
          (serversOf root).map (structText lib.folding "tag") := by
  by_cases habsent : root.get? "dns" = none ∨ root.get? "dns" = some .null
  · rw [normalizeDns_of_absent habsent] at h
    obtain rfl := Except.ok.inj h
    refine ⟨fun _ hno => by rw [hno]; rfl, fun j hj => ⟨root, ?_, ?_, fun _ _ => rfl, rfl⟩⟩
    · exact (Option.some.inj (Option.ite_none_right_eq_some.mp hj).2).symm
    · exact normalizeDns_of_absent habsent false
  obtain ⟨members, hmembers⟩ : ∃ members, root.get? "dns" = some (.obj members) := by
    cases hdns : root.get? "dns" with
    | none => exact absurd (.inl hdns) habsent
    | some value =>
      cases value with
      | null => exact absurd (.inr hdns) habsent
      | obj members => exact ⟨members, rfl⟩
      | _ =>
        rw [normalizeDns, hdns] at h
        cases h
  rw [normalizeDns_of_obj hmembers] at h
  obtain ⟨servers, results, hservers, htyped, htags, hr, hnone, hagain⟩ := normalizeServers_ok h
  have hserversOf : serversOf root = servers := by
    rw [serversOf, hmembers, Option.bind_some]
    exact congrArg (Option.getD · []) hservers
  refine ⟨fun hall hno => hnone (hserversOf ▸ hall) hno, fun j hj => ?_⟩
  rcases hr with rfl | rfl
  · cases hj
  obtain rfl := Option.some.inj hj
  refine ⟨_, rfl, ?_, fun k hk => SortedMap.get?_insert_of_ne _ _ hk, ?_⟩
  · refine (normalizeDns_of_obj (SortedMap.get?_insert_self _ _ _) false).trans ?_
    rw [SortedMap.ofList_entries]
    refine hagain _ _ (replaceServers servers results) ?_ htyped
      (SortedMap.get?_insert_of_ne _ _ (by decide)) (SortedMap.get?_insert_of_ne _ _ (by decide))
    rw [SortedMap.get?_insert_self]
    exact list?_writeList hservers
  · rw [hserversOf, ← htags, serversOf, SortedMap.get?_insert_self, Option.bind_some, Json.map?_ofMap,
      Option.elim_some, SortedMap.get?_insert_self]
    exact congrArg (List.map _ <| Option.getD · []) (list?_writeList hservers)

end again

/-- **A modern profile**: no extension of the portal, no outbound of type dns, and a type for every
server. -/
def Modern (lib : DnsLibrary) (content : Json) : Prop :=
  (∀ root, map? content = some root →
    root.get? "_meta" = none ∧ ∀ encoded ∈ outboundsOf root, kindOf encoded ≠ some "dns") ∧
  ∀ j ∈ dnsServers content, Typed lib j

/-- **A normalized profile is returned as it is, and so is a modern one; the servers of the profile
are those it had, in their order and with their tags.** -/
theorem normalizeLegacyDNS_stable (lib : DnsLibrary) (content : Json) (r : Option Json)
    (h : normalizeLegacyDNS lib content = .ok r) :
    normalizeLegacyDNS lib (r.getD content) = .ok none ∧ (Modern lib content → r = none) ∧
      (dnsServers (r.getD content)).map (structText lib.folding "tag") =
        (dnsServers content).map (structText lib.folding "tag") := by
  cases content with
  | obj members =>
    have hcontent := h
    rw [normalizeLegacyDNS_obj] at h
    cases hmigrate : migrateLegacyDNSOutbound lib.folding (withoutMeta (.ofList members)) with
    | error e =>
      rw [hmigrate] at h
      cases h
    | ok result =>
      obtain ⟨changed, root⟩ := result
      rw [hmigrate] at h
      obtain ⟨hmodern, hresult⟩ := normalizeDns_spec h
      obtain ⟨outbounds, -, -, hunchanged, hnodns, hkept⟩ := migrate_outbounds hmigrate
      have hdns : root.get? "dns" = (SortedMap.ofList members).get? "dns" := by
        rw [hkept _ (by decide) (by decide), get?_withoutMeta _ (by decide)]
      have hservers : serversOf root = dnsServers (.obj members) := by
        rw [serversOf, hdns]
        rfl
      refine ⟨?_, fun hm => ?_, ?_⟩
      · cases r with
        | none => exact hcontent
        | some j =>
          obtain ⟨root', rfl, hagain, hsame, -⟩ := hresult j rfl
          rw [Option.getD_some, normalizeLegacyDNS_ofMap hmigrate rfl _ (hsame _ (by decide)), hagain]
          rw [hsame _ (by decide), hkept _ (by decide) (by decide), withoutMeta, SortedMap.get?_filter]
          cases (SortedMap.ofList members).get? "_meta" <;> rfl
      · obtain ⟨hroot, htyped⟩ := hm
        obtain ⟨hmeta, hall⟩ := hroot _ rfl
        refine hmodern (hservers ▸ htyped) ?_
        rw [hmeta, Option.isSome_none, Bool.false_or]
        exact hnodns (by rwa [withoutMeta_eq_self hmeta])
      · cases r with
        | none => rfl
        | some j =>
          obtain ⟨root', rfl, -, -, htags⟩ := hresult j rfl
          rw [Option.getD_some, ← hservers, ← htags, dnsServers, Json.map?_ofMap, Option.elim_some]
  | _ => cases h

/-- Every server is taken for one with this address. -/
def sampleDecode (j : Json) : Option LegacyDNSServer :=
  (structText Json.asciiFolding "tag" j).map fun tag =>
    ⟨"", tag, "1.1.1.1", "", 0, 0, 0, "", false⟩

theorem sampleDecode_tag (j : Json) (s : LegacyDNSServer) (h : sampleDecode j = some s) :
    structText Json.asciiFolding "tag" j = some s.tag := by
  obtain ⟨tag, htag, rfl⟩ := Option.map_eq_some_iff.mp h
  exact htag

/-- A library that knows no URLs and no ports. -/
def sampleDnsLibrary : DnsLibrary where
  folding := Json.asciiFolding
  decodeLegacy := sampleDecode
  decodeLegacy_tag := sampleDecode_tag
  parseURL _ := none
  parseSocksaddr address := some (address, 0)
  parseUint16 _ := none
  fragmentDelay _ := none
  strategyJson n := Json.int n
  durationJson d := Json.int d

/-- A profile with the extension of the portal, a server without a type and one with. -/
def oldProfile : Json :=
  .obj [("_meta", .null), ("dns", .obj [("servers", .arr [.obj [("tag", .str "a"),
    ("address", .str "1.1.1.1")], .obj [("type", .str "local")]])])]

theorem normalizeLegacyDNS_sample : ∃ j, normalizeLegacyDNS sampleDnsLibrary oldProfile = .ok (some j) ∧
    (dnsServers j).map (structText Json.asciiFolding "tag") = [some "a", some ""] ∧
    normalizeLegacyDNS sampleDnsLibrary j = .ok none := by
  have hsome : (normalizeLegacyDNS sampleDnsLibrary oldProfile).toOption.map Option.isSome =
      some true := by decide +kernel
  cases h : normalizeLegacyDNS sampleDnsLibrary oldProfile with
  | error e => rw [h] at hsome; cases hsome
  | ok r =>
    rw [h] at hsome
    obtain ⟨j, rfl⟩ := Option.isSome_iff_exists.mp (Option.some.inj hsome)
    obtain ⟨hagain, -, htags⟩ := normalizeLegacyDNS_stable sampleDnsLibrary oldProfile (some j) h
    have hold : (dnsServers oldProfile).map (structText Json.asciiFolding "tag") =
        [some "a", some ""] := by decide +kernel
    exact ⟨j, rfl, htags.trans hold, hagain⟩

end PokrovCore.Config
