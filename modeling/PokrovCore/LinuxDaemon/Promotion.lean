import Mathlib.Tactic.NormNum
import PokrovCore.LinuxDaemon.Lease
import PokrovCore.LinuxDaemon.Profile

/-!
# LinuxDaemon/Promotion — which kinds of outbounds a promotion needs

A promotion looks for a gate and an upstream among the outbounds of the configuration that runs, and
that configuration is one that `prepare` let through.  For a list of kinds of outbounds the two go
together exactly when both kinds are on the list (`promotable_iff`); the list of the source has the
upstream's, but not the gate's (`prepared_never_promoted`).
-/

namespace PokrovCore.LinuxDaemon

/-! ## What the walk over the outbounds finds -/

variable {command : LinuxCommand} {clock : LeaseClock}

/-- Where the walk counts more, it has met a gate, or an upstream. -/
theorem exists_of_count : ∀ {rows : List (List (String × Json))} {n n' : ℕ × ℕ},
    rows.foldlM (countRow command) n = some n' →
      (n.1 < n'.1 → ∃ row ∈ rows, read row "type" = "pokrov-ats-lease") ∧
      (n.2 < n'.2 → ∃ row ∈ rows, read row "type" = "vless")
  | [], n, n', h => by
    cases h
    exact ⟨fun h => absurd h (lt_irrefl _), fun h => absurd h (lt_irrefl _)⟩
  | row :: rows, n, n', h => by
    obtain ⟨k, hk, hrest⟩ := Option.bind_eq_some_iff.mp h
    obtain ⟨hgate, hupstream⟩ := exists_of_count hrest
    have hhere : (k.1 = n.1 ∨ read row "type" = "pokrov-ats-lease") ∧
        (k.2 = n.2 ∨ read row "type" = "vless") := by
      unfold countRow at hk
      split_ifs at hk with htag hg htag' hv
      · cases hk
        simp only [isGate, Bool.and_eq_true, beq_iff_eq] at hg
        exact ⟨.inr hg.1.1.1.1.1, .inl rfl⟩
      · cases hk
        exact ⟨.inl rfl, .inr hv⟩
      · cases hk
        exact ⟨.inl rfl, .inl rfl⟩
    refine ⟨fun hlt => ?_, fun hlt => ?_⟩
    · rcases hhere.1 with heq | htype
      · obtain ⟨r, hr, ht⟩ := hgate (heq ▸ hlt)
        exact ⟨r, List.mem_cons_of_mem _ hr, ht⟩
      · exact ⟨row, List.mem_cons_self, htype⟩
    · rcases hhere.2 with heq | htype
      · obtain ⟨r, hr, ht⟩ := hupstream (heq ▸ hlt)
        exact ⟨r, List.mem_cons_of_mem _ hr, ht⟩
      · exact ⟨row, List.mem_cons_self, htype⟩

variable {types : List String}

/-- What was prepared has outbounds of the given kinds only. -/
theorem prepareWith_outbounds {lib : Library} {input : List Char} {config : Json} {plan : Plan}
    (h : prepareWith lib types input = some (config, plan)) :
    ∃ root members outbounds, unmarshal lib input = some root ∧ config = .obj members ∧
      root.lookup "outbounds" = some (.arr outbounds) ∧
      members.lookup "outbounds" = some (.arr outbounds) ∧
      outbounds.all (outboundAllowed types) = true := by
  obtain ⟨root, outbounds, inbounds, route, rules, tunnel, hroot, -, -, houtbounds, hall, -, -, -, -,
    -, -, rfl⟩ := prepareWith_eq_some h
  refine ⟨root, _, outbounds, hroot, rfl, houtbounds, ?_, hall⟩
  rw [Json.lookup_set_ne (by decide), Json.lookup_set_ne (by decide),
    Json.lookup_set_ne (by decide), Json.lookup_set_ne (by decide), houtbounds]

/-- The kind of a row of an allowed outbound. -/
theorem type_mem_of_allowed {outbounds : List Json} {rows : List (List (String × Json))}
    (hall : outbounds.all (outboundAllowed types) = true) (hrows : outbounds.mapM row? = some rows)
    {row : List (String × Json)} (hrow : row ∈ rows) :
    read row "type" ∈ types := by
  induction outbounds generalizing rows with
  | nil =>
    cases hrows
    exact absurd hrow List.not_mem_nil
  | cons value outbounds ih =>
    simp only [List.all_cons, Bool.and_eq_true] at hall
    simp only [List.mapM_cons, Option.bind_eq_bind, Option.bind_eq_some_iff, Option.pure_def,
      Option.some.injEq] at hrows
    obtain ⟨first, hfirst, rest, hrest, rfl⟩ := hrows
    rcases List.mem_cons.mp hrow with rfl | hrow
    · have hvalue := hall.1
      unfold outboundAllowed at hvalue
      split at hvalue
      · cases hfirst
        obtain ⟨t, ht, hmem⟩ := Option.any_eq_true _ _ |>.mp hvalue
        unfold Json.text? at ht
        simpa [read, ht] using hmem
      · cases hvalue
    · exact ih hall.2 hrest hrow

/-- **A promotion of what was prepared** has met both kinds. -/
theorem types_of_promoted {lib : Library} {input : List Char} {config : Json} {plan : Plan}
    {limit : ℤ} (h : prepareWith lib types input = some (config, plan))
    (hlimit : linuxATSLeaseDeadline config command clock = some limit) :
    "pokrov-ats-lease" ∈ types ∧ "vless" ∈ types := by
  obtain ⟨-, members, outbounds, -, rfl, -, hlookup, hall⟩ := prepareWith_outbounds h
  obtain ⟨-, -, -, -, rows, -, -, -, -, -, hrows, hcount, -⟩ :=
    linuxATSLeaseDeadline_eq_some.mp hlimit
  simp only [configOutbounds, hlookup] at hrows
  obtain ⟨hgate, hupstream⟩ := exists_of_count hcount
  obtain ⟨gate, hg, hgt⟩ := hgate Nat.zero_lt_one
  obtain ⟨upstream, hu, hut⟩ := hupstream Nat.zero_lt_one
  exact ⟨hgt ▸ type_mem_of_allowed hall hrows hg, hut ▸ type_mem_of_allowed hall hrows hu⟩

/-! ## A profile that can be promoted -/

section Profile

variable (lib : Library) (command : LinuxCommand)

/-- The gate of a lease, and its upstream. -/
def gateOutbounds : List Json :=
  [.obj [("type", .str "pokrov-ats-lease"), ("tag", .str "pokrov-ats"),
      ("upstream_tag", .str "pokrov-ats-upstream"), ("lease_id", .str command.leaseID),
      ("issued_at", .str command.issuedAt), ("new_flows_until", .str command.newFlowsUntil),
      ("active_flows_until", .str command.activeFlowsUntil)],
    .obj [("type", .str "vless"), ("tag", .str "pokrov-ats-upstream")]]

def gateTunnel : List (String × Json) :=
  [("type", .str "tun"), ("mtu", Json.int 1400), ("address", .arr [.str "172.19.0.1/28"])]

/-- A profile with the gate of a lease. -/
def gateMembers : List (String × Json) :=
  [("dns", .obj [("servers", .arr [])]), ("inbounds", .arr [.obj gateTunnel]),
    ("outbounds", .arr (gateOutbounds command)), ("route", .obj [("rules", .arr [])])]

/-- The text of the profile. -/
def gateInput : List Char := Json.render (.obj (gateMembers command))

theorem maps_gate : (Json.obj (gateMembers command)).maps = .obj (gateMembers command) := by
  simp [gateMembers, gateTunnel, gateOutbounds, Json.maps, Json.mapsItems, Json.mapsMembers,
    Json.int]

theorem wellFormed_gate : Json.wellFormed (.obj (gateMembers command)) = true := by
  have hmtu := Json.wellFormed_int 1400
  simp only [Nat.cast_ofNat] at hmtu
  simp [gateMembers, gateTunnel, gateOutbounds, Json.wellFormed, Json.wellFormedItems,
    Json.wellFormedMembers, hmtu]

theorem floats_gate : floats lib (.obj (gateMembers command)) = true := by
  have hmtu := lib.parseFloat_digits 1400 (by decide)
  simp [gateMembers, gateTunnel, gateOutbounds, floats, floatsItems, floatsMembers, Json.int, hmtu]

theorem unmarshal_gate : unmarshal lib (gateInput command) = some (gateMembers command) := by
  rw [unmarshal, gateInput, Json.parse_render (wellFormed_gate command), Option.bind_some,
    floats_gate, if_pos rfl, maps_gate]
  rfl

/-- The keys of the profile and of its log. -/
def gateKeys : List String :=
  ["log", "disabled", "dns", "servers", "inbounds", "type", "mtu", "address", "outbounds", "tag",
    "upstream_tag", "lease_id", "issued_at", "new_flows_until", "active_flows_until", "route",
    "rules"]

theorem forbiddenKey_gate : ∀ key ∈ gateKeys, forbiddenKey lib false key = false := by
  intro key hkey
  have hall : (gateKeys.all fun key => isPlain key && !forbidden false key.toList) = true := by
    decide +kernel
  have h := List.all_eq_true.mp hall key hkey
  simp only [Bool.and_eq_true, Bool.not_eq_true'] at h
  rw [forbiddenKey_of_isPlain lib h.1, h.2]

theorem safeValues_gate :
    safeValues lib false (.obj (gateMembers command ++ [("log", noLog)])) = true := by
  have hkeys := forbiddenKey_gate lib
  simp only [gateKeys, List.forall_mem_cons] at hkeys
  simp [gateMembers, gateTunnel, gateOutbounds, noLog, safeValues, safeMembers, safeItems,
    Json.text?, Json.int, List.lookup_cons, hkeys]

theorem tunnelPlan_gate :
    tunnelPlan lib gateTunnel = some ⟨tunnelInterface, routingMark, ["172.19.0.2"]⟩ := by
  have hmtu := lib.parseFloat_digits 1400 (by decide)
  have hwithin : integerWithin lib 1280 1500 (Json.int 1400) = true := by
    simp only [integerWithin, Json.int, Int.reduceLT, if_false, Int.reduceAbs, hmtu]
    norm_num
  simp [gateTunnel, tunnelPlan, hwithin, dnsServer, List.lookup_cons]

/-- **The profile is accepted**, where both kinds are on the list. -/
theorem prepareWith_gate (hgate : "pokrov-ats-lease" ∈ types) (hvless : "vless" ∈ types)
    (hsize : Json.byteLength (gateInput command) ≤ maximumConfigBytes) :
    (prepareWith lib types (gateInput command)).isSome = true := by
  have hsome : ¬(gateInput command = [] ∨ maximumConfigBytes < Json.byteLength (gateInput command)) := by
    simp [gateInput, gateMembers, Json.render] at hsize ⊢
    exact hsize
  have hkeys : onlyKeys (gateMembers command) ["log", "dns", "inbounds", "outbounds", "route"] =
      true := by simp [gateMembers, onlyKeys]
  have hroot : Json.set (gateMembers command) "log" noLog = gateMembers command ++ [("log", noLog)] := by
    simp [gateMembers, Json.set]
  have hall : (gateOutbounds command).all (outboundAllowed types) = true := by
    simp [gateOutbounds, outboundAllowed, Json.text?, hgate, hvless]
  have hinbound : inboundAllowed lib (.obj gateTunnel) = true := by
    simp [gateTunnel, inboundAllowed, Json.text?, onlyKeys]
  have htunnel : isTunnel (.obj gateTunnel) = true := by
    simp [gateTunnel, isTunnel, Json.text?]
  have hdns : ((gateMembers command ++ [("log", noLog)]).lookup "dns").bind Json.obj? =
      some [("servers", .arr [])] := by simp [gateMembers, Json.obj?]
  have houtbounds : ((gateMembers command ++ [("log", noLog)]).lookup "outbounds").bind Json.arr? =
      some (gateOutbounds command) := by simp [gateMembers, List.lookup_cons]
  have hinbounds : ((gateMembers command ++ [("log", noLog)]).lookup "inbounds").bind Json.arr? =
      some [.obj gateTunnel] := by simp [gateMembers, List.lookup_cons]
  have hroute : ((gateMembers command ++ [("log", noLog)]).lookup "route").bind Json.obj? =
      some [("rules", .arr [])] := by simp [gateMembers, List.lookup_cons, Json.obj?]
  have hne : (gateOutbounds command).isEmpty = false := rfl
  unfold prepareWith
  rw [if_neg hsome]
  simp only [unmarshal_gate, Option.bind_eq_bind, Option.bind_some, hkeys, hroot, safeValues_gate,
    hdns, houtbounds, hinbounds, hroute, hall, hne, Bool.true_eq_false, if_false]
  simp [htunnel, hinbound, onlyKeys, tunnelPlan_gate]

/-! ### The size of the profile -/

theorem length_of_leaseIDPattern {id : String} (h : AtsLease.leaseIDPattern id = true) :
    id.toList.length = 38 := by
  unfold AtsLease.leaseIDPattern at h
  split at h
  · rename_i digits heq
    simp only [Bool.and_eq_true, beq_iff_eq] at h
    rw [heq]
    simp [h.1]
  · cases h

theorem length_of_parse {text : String} {d : Date} (h : Date.parse text = some d) :
    text.toList.length = 20 := by
  rw [← Date.format_of_parse h, Date.format, String.toList_ofList]
  simp [Date.chars, Date.two]

/-- The texts of a lease are all that is not fixed. -/
theorem weight_gate : Json.weight (.obj (gateMembers command)) =
    Json.weight (.obj (gateMembers ⟨"", none, "", "", none, "", "", "", "", none⟩)) +
      6 * (command.leaseID.toList.length + command.issuedAt.toList.length +
        command.newFlowsUntil.toList.length + command.activeFlowsUntil.toList.length) := by
  simp only [gateMembers, gateOutbounds, Json.weight, Json.weightItems, Json.weightMembers,
    String.toList_empty, List.length_nil]
  omega

end Profile

/-! ## The promotion of a current lease -/

/-- **A lease that may be promoted now**, as far as its own texts go. -/
def Current (command : LinuxCommand) (now : Sample) : Prop :=
  AtsLease.leaseIDPattern command.leaseID = true ∧ ∃ issued newUntil activeUntil,
    Date.parse command.issuedAt = some issued ∧ Date.parse command.newFlowsUntil = some newUntil ∧
    Date.parse command.activeFlowsUntil = some activeUntil ∧
    leaseCurrent now issued newUntil activeUntil = true

/-- The readings after the checks: the clock since boot, and a rest of the lease of whole
milliseconds. -/
def Measured (command : LinuxCommand) (clock : LeaseClock) : Prop :=
  clock.elapsed.isSome = true ∧ ∃ activeUntil, Date.parse command.activeFlowsUntil = some activeUntil ∧
    0 < remaining clock.later activeUntil ∧ remaining clock.later activeUntil ≤ 3600000

theorem byteLength_gateInput (h : Current command clock.now) :
    Json.byteLength (gateInput command) ≤ maximumConfigBytes := by
  obtain ⟨hid, issued, newUntil, activeUntil, hissued, hnew, hactive, -⟩ := h
  have hfixed : Json.weight (.obj (gateMembers ⟨"", none, "", "", none, "", "", "", "", none⟩)) ≤
      4096 := by decide +kernel
  have hbound := Json.byteLength_render_le (.obj (gateMembers command))
  rw [weight_gate, length_of_leaseIDPattern hid, length_of_parse hissued, length_of_parse hnew,
    length_of_parse hactive] at hbound
  change Json.byteLength (Json.render _) ≤ 512 * 1024
  omega

theorem count_gate (command : LinuxCommand) :
    ∃ rows, (gateOutbounds command).mapM row? = some rows ∧
      rows.foldlM (countRow command) (0, 0) = some (1, 1) := by
  refine ⟨_, rfl, ?_⟩
  simp [countRow, isGate, read, List.lookup_cons]

/-- **A current lease can be promoted** — some profile is accepted whose configuration has its
gate — exactly when both kinds of outbounds are on the list, and the clocks can be read. -/
theorem promotable_iff (lib : Library) (types : List String) (hcurrent : Current command clock.now) :
    (∃ input config plan, prepareWith lib types input = some (config, plan) ∧
      (linuxATSLeaseDeadline config command clock).isSome = true) ↔
    ("pokrov-ats-lease" ∈ types ∧ "vless" ∈ types) ∧ Measured command clock := by
  constructor
  · rintro ⟨input, config, plan, hprepare, hsome⟩
    obtain ⟨limit, hlimit⟩ := Option.isSome_iff_exists.mp hsome
    refine ⟨types_of_promoted hprepare hlimit, ?_⟩
    obtain ⟨-, -, -, activeUntil, -, t, -, -, hactive, -, -, -, ht, hpos, hle, -⟩ :=
      linuxATSLeaseDeadline_eq_some.mp hlimit
    exact ⟨by simp [ht], activeUntil, hactive, hpos, hle⟩
  · rintro ⟨⟨hgate, hvless⟩, hclock, activeUntil, hactive, hpos, hle⟩
    have hsome := prepareWith_gate lib command hgate hvless (byteLength_gateInput hcurrent)
    obtain ⟨⟨config, plan⟩, hprepare⟩ := Option.isSome_iff_exists.mp hsome
    obtain ⟨root, members, outbounds, hroot, rfl, hlookup, hmembers, -⟩ :=
      prepareWith_outbounds hprepare
    rw [unmarshal_gate] at hroot
    cases hroot
    have hgates : outbounds = gateOutbounds command := by
      simpa [gateMembers, List.lookup_cons] using hlookup.symm
    obtain ⟨rows, hrows, hcount⟩ := count_gate command
    obtain ⟨hid, issued, newUntil, activeUntil', hissued, hnew, hactive', hnow⟩ := hcurrent
    obtain rfl := Option.some.inj (hactive'.symm.trans hactive)
    obtain ⟨t, ht⟩ := Option.isSome_iff_exists.mp hclock
    have hconfig : configOutbounds (.obj members) = some rows := by
      rw [configOutbounds, hmembers, hgates]
      exact hrows
    have hlimit : linuxATSLeaseDeadline (.obj members) command clock = some _ :=
      linuxATSLeaseDeadline_eq_some.mpr ⟨hid, issued, newUntil, activeUntil', rows, t, hissued,
        hnew, hactive', hnow, hconfig, hcount, ht, hpos, hle, rfl⟩
    exact ⟨gateInput command, .obj members, plan, hprepare, by rw [hlimit, Option.isSome_some]⟩

/-- An hour from the start of a year, and its first second. -/
def yearLease : LinuxCommand :=
  ⟨"", none, "", "", none, "lease_0123456789abcdef0123456789abcdef", "2026-01-01T00:00:00Z",
    "2026-01-01T00:10:00Z", "2026-01-01T01:00:00Z", none⟩

def yearClock : LeaseClock :=
  ⟨⟨63902822401000000000, 0⟩, some ⟨3, 0⟩, ⟨63902822401000000000, 0⟩⟩

theorem current_yearLease : Current yearLease yearClock.now := by
  have h : (Date.parse yearLease.issuedAt).bind (fun issued =>
      (Date.parse yearLease.newFlowsUntil).bind fun newUntil =>
        (Date.parse yearLease.activeFlowsUntil).map fun activeUntil =>
          AtsLease.leaseIDPattern yearLease.leaseID &&
            leaseCurrent yearClock.now issued newUntil activeUntil) = some true := by
    decide +kernel
  obtain ⟨issued, hissued, h⟩ := Option.bind_eq_some_iff.mp h
  obtain ⟨newUntil, hnew, h⟩ := Option.bind_eq_some_iff.mp h
  obtain ⟨activeUntil, hactive, h⟩ := Option.map_eq_some_iff.mp h
  rw [Bool.and_eq_true] at h
  exact ⟨h.1, issued, newUntil, activeUntil, hissued, hnew, hactive, h.2⟩

theorem measured_yearLease : Measured yearLease yearClock := by
  have h : (Date.parse yearLease.activeFlowsUntil).map
      (fun activeUntil => remaining yearClock.later activeUntil) = some 3599000 := by
    decide +kernel
  obtain ⟨activeUntil, hactive, h⟩ := Option.map_eq_some_iff.mp h
  exact ⟨rfl, activeUntil, hactive, by rw [h]; decide, by rw [h]; decide⟩

theorem promotable_iff_sample : ∃ input config plan,
    prepareWith sampleLibrary ("pokrov-ats-lease" :: outboundTypes) input = some (config, plan) ∧
      (linuxATSLeaseDeadline config yearLease yearClock).isSome = true :=
  (promotable_iff sampleLibrary ("pokrov-ats-lease" :: outboundTypes) current_yearLease).mpr
    ⟨by simp [outboundTypes], measured_yearLease⟩

/-- **Nothing that is prepared can be promoted**: the kind of the gate is not on the list. -/
theorem prepared_never_promoted : Current yearLease yearClock.now ∧ Measured yearLease yearClock ∧
    ∀ lib input config plan, prepare lib input = some (config, plan) →
      linuxATSLeaseDeadline config yearLease yearClock = none := by
  refine ⟨current_yearLease, measured_yearLease, fun lib input config plan hprepare => ?_⟩
  refine Option.eq_none_iff_forall_ne_some.mpr fun limit hlimit => ?_
  have habsent : "pokrov-ats-lease" ∉ outboundTypes := by simp [outboundTypes]
  exact habsent (types_of_promoted hprepare hlimit).1

end PokrovCore.LinuxDaemon
