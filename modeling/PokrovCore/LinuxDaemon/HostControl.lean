import PokrovCore.Foundations.JsonDecode
import PokrovCore.Foundations.JsonPath
import PokrovCore.LinuxDaemon.Profile

/-!
# LinuxDaemon/HostControl — a prepared configuration does not reach the host

The engine matches a key with a field up to case folding, and `safeValues` compares lower cases.  The
two agree on the names of the fields that reach the host but for one character: the long s folds to
`s` and has no other lower case.  So no key without it reaches such a field, wherever it stands in the
configuration, but for the two that `prepare` sets itself; and the rest of the profile is kept.
-/

namespace PokrovCore.LinuxDaemon

open Json (Step At Folding asciiFolding plainName)

/-! ## The fields of the host -/

/-- The long s. -/
def longS : Char := Char.ofNat 0x17F

/-- The fields that reach the host by their whole names. -/
def hostNames : List String :=
  ["netns", "system_interface", "routing_mark", "default_mark", "bind_interface", "interface_name",
    "output"]

/-- **A field reaches the host**: a file, a namespace, an interface or a mark. -/
def HostField (field : List Char) : Prop :=
  "_path".toList <:+ field ∨ "_directory".toList <:+ field ∨ ∃ name ∈ hostNames, field = name.toList

section keys

variable {lib : Library} {f : Folding} {key : String} {field name : List Char}

theorem lower_eq_of_fold {a c : Char} (ha : a.isLower = true ∨ a = '_') (hc : c ≠ longS)
    (h : f.fold c = f.fold a) : lib.table.lower c = a := by
  have hascii : ∀ n < 0x80, (Char.ofNat n).isLower = true ∨ Char.ofNat n = '_' →
      (Char.ofNat n).toLower = Char.ofNat n ∧ (Char.ofNat n).toUpper.toNat < 0x80 ∧
        (Char.ofNat n).toUpper.toLower = Char.ofNat n := by decide +kernel
  have hlt := Json.toNat_lt_of_plain ha
  have hplain := hascii a.toNat hlt
  rw [Char.ofNat_toNat] at hplain
  obtain ⟨hlower, hupper, hback⟩ := hplain ha
  rcases f.fold_eq a c ha h with rfl | rfl | ⟨hk, rfl⟩ | ⟨hlong, -⟩
  · rw [SmartAccess.CaseTable.lower, if_pos hlt, hlower]
  · rw [SmartAccess.CaseTable.lower, if_pos hupper, hback]
  · rw [SmartAccess.CaseTable.lower, hk, if_neg (by decide), if_pos rfl]
  · exact absurd (by rw [longS, ← hlong, Char.ofNat_toNat]) hc

/-- What folds like a name has the name for its lower case. -/
theorem map_lower_eq {s : List Char} (hname : plainName name = true) (hs : longS ∉ s)
    (h : s.map f.fold = name.map f.fold) : s.map lib.table.lower = name := by
  induction s generalizing name with
  | nil => cases name <;> simp_all
  | cons c s ih =>
    cases name with
    | nil => simp at h
    | cons a name =>
      simp only [plainName, List.all_cons, Bool.and_eq_true, Bool.or_eq_true, beq_iff_eq] at hname
      obtain ⟨hfold, hrest⟩ := List.cons.inj h
      obtain ⟨hc, hs⟩ := not_or.mp (fun h => hs (List.mem_cons.mpr h))
      rw [List.map_cons, lower_eq_of_fold hname.1 (Ne.symm hc) hfold, ih hname.2 hs hrest]

/-- **A key for a field of the host is refused**, if it has no long s. -/
theorem forbiddenKey_of_matches (hlong : longS ∉ key.toList) (hmatch : f.Matches key field)
    (hfield : HostField field) (uriPath : Bool) : forbiddenKey lib uriPath key = true := by
  have hsuffix : ∀ s : String, plainName s.toList = true → s.toList <:+ field →
      s.toList.isSuffixOf (key.toList.map lib.table.lower) = true := by
    rintro s hs ⟨g, rfl⟩
    rw [Folding.Matches, List.map_append] at hmatch
    obtain ⟨k₁, k₂, hk, -, h₂⟩ := List.map_eq_append_iff.mp hmatch
    rw [hk] at hlong ⊢
    rw [List.map_append, map_lower_eq hs (fun h => hlong (List.mem_append_right _ h)) h₂,
      List.isSuffixOf_iff_suffix]
    exact List.suffix_append _ _
  rcases hfield with h | h | ⟨name, hname, rfl⟩
  · rw [forbiddenKey, forbidden, hsuffix "_path" (by decide) h]
    rfl
  · rw [forbiddenKey, forbidden, hsuffix "_directory" (by decide) h, Bool.or_true]
    rfl
  · have hplain : ∀ n ∈ hostNames, plainName n.toList = true ∧
        ∀ b, forbidden b n.toList = true := by decide +kernel
    have hlower := @map_lower_eq lib f _ _ (hplain name hname).1 hlong hmatch
    rw [forbiddenKey, hlower, (hplain name hname).2]

/-- So is one for a path, where none is allowed. -/
theorem forbiddenKey_path (hlong : longS ∉ key.toList) (hmatch : f.Matches key "path".toList) :
    forbiddenKey lib false key = true := by
  rw [forbiddenKey, map_lower_eq (by decide) hlong hmatch]
  decide +kernel

end keys

/-! ## The places of a value -/

section places

variable {lib : Library} {uriPath transport : Bool} {members : List (String × Json)}

theorem safeMembers_mem (h : safeMembers lib uriPath members = true) {k : String} {j : Json}
    (hm : (k, j) ∈ members) :
    forbiddenKey lib uriPath k = false ∧ (k = "transport" → transportAllowed j = true) ∧
      safeValues lib (k == "transport") j = true := by
  induction members with
  | nil => cases hm
  | cons e members ih =>
    obtain ⟨k', j'⟩ := e
    simp only [safeMembers, Bool.and_eq_true, Bool.not_eq_true', Bool.or_eq_true, bne_iff_ne,
      ne_eq] at h
    rcases List.mem_cons.mp hm with heq | hm
    · obtain ⟨rfl, rfl⟩ := Prod.mk.inj heq
      exact ⟨h.1.1.1, fun hk => h.1.1.2.resolve_left (not_not.mpr hk), h.1.2⟩
    · exact ih h.2 hm

theorem safeItems_mem {items : List Json} (h : safeItems lib transport items = true) {j : Json}
    (hm : j ∈ items) : safeValues lib transport j = true := by
  induction items with
  | nil => cases hm
  | cons i items ih =>
    simp only [safeItems, Bool.and_eq_true] at h
    rcases List.mem_cons.mp hm with rfl | hm
    · exact h.1
    · exact ih h.2 hm

/-- **An object may have a path**: it is of a kind that is reached by one, or a transport that is
allowed. -/
def UriObject (p : List Step) (members : List (String × Json)) : Prop :=
  Json.text? members "type" = some "http" ∨ Json.text? members "type" = some "https" ∨
    p.getLast? = some (.key "transport") ∧ transportAllowed (.obj members) = true

/-- The two members that `prepare` sets: the mark of the routes and the interface of the tunnel. -/
def OwnMember (p : List Step) (members : List (String × Json)) (e : String × Json) : Prop :=
  (p = [.key "route"] ∧ e = ("default_mark", Json.int routingMark)) ∨
    (∃ i, p = [.key "inbounds", .index i]) ∧ isTunnel (.obj members) = true ∧
      e = ("interface_name", .str tunnelInterface)

/-- **The keys of an object, but for those with a long s**: none is for a field of the host, except
the two that `prepare` sets, and none for a path, except where one is allowed. -/
def CleanObject (f : Folding) (p : List Step) (members : List (String × Json)) : Prop :=
  ∀ e ∈ members, longS ∉ e.1.toList →
    (∀ field, HostField field → f.Matches e.1 field → OwnMember p members e) ∧
      (f.Matches e.1 "path".toList → UriObject p members)

/-- The objects of a value are clean, if it stands at the end of a path. -/
def CleanAt (f : Folding) (q : List Step) (j : Json) : Prop :=
  ∀ p members, At p j (.obj members) → CleanObject f (q ++ p) members

theorem cleanObject_of_safeMembers {f : Folding} {p : List Step}
    (h : safeMembers lib uriPath members = true) (huri : uriPath = true → UriObject p members) :
    CleanObject f p members := by
  rintro ⟨k, j⟩ hm hlong
  have hkey := (safeMembers_mem h hm).1
  refine ⟨fun field hfield hmatch => ?_, fun hmatch => ?_⟩
  · rw [forbiddenKey_of_matches hlong hmatch hfield] at hkey
    cases hkey
  · refine huri (Bool.of_not_eq_false fun hno => ?_)
    rw [hno, forbiddenKey_path hlong hmatch] at hkey
    cases hkey

/-- **The objects of a safe value are clean**, wherever they stand. -/
theorem cleanAt_of_safeValues {f : Folding} {q : List Step} {j : Json}
    (h : safeValues lib transport j = true)
    (htransport : transport = true →
      q.getLast? = some (.key "transport") ∧ transportAllowed j = true) :
    CleanAt f q j := by
  intro p members hat
  generalize hv : Json.obj members = v at hat
  induction hat generalizing transport q with
  | here j =>
    subst hv
    rw [safeValues] at h
    refine cleanObject_of_safeMembers h fun huri => ?_
    simp only [Bool.or_eq_true, beq_iff_eq] at huri
    rw [List.append_nil]
    rcases huri with (ht | hs) | hs
    · exact .inr (.inr (htransport ht))
    · exact .inr (.inl hs)
    · exact .inl hs
  | @member p k j v members' hm hat ih =>
    rw [safeValues] at h
    obtain ⟨-, hallowed, hsafe⟩ := safeMembers_mem h hm
    have hrest := @ih _ (q ++ [.key k]) hsafe (fun ht => ?_) hv
    · rwa [List.append_assoc] at hrest
    · obtain rfl := beq_iff_eq.mp ht
      exact ⟨List.getLast?_concat, hallowed rfl⟩
  | @item p i j v items hi hat ih =>
    rw [safeValues] at h
    have hsafe := safeItems_mem h (List.mem_of_getElem? hi)
    have hrest := @ih _ (q ++ [.index i]) hsafe (fun ht => ?_) hv
    · rwa [List.append_assoc] at hrest
    · cases (htransport ht).2

variable {f : Folding} {q : List Step}

theorem cleanAt_of_safeMembers (h : safeMembers lib uriPath members = true) {k : String} {j : Json}
    (hm : (k, j) ∈ members) : CleanAt f (q ++ [.key k]) j := by
  obtain ⟨-, hallowed, hsafe⟩ := safeMembers_mem h hm
  refine cleanAt_of_safeValues hsafe fun ht => ?_
  obtain rfl := beq_iff_eq.mp ht
  exact ⟨List.getLast?_concat, hallowed rfl⟩

theorem cleanAt_obj (hobj : CleanObject f q members)
    (hrest : ∀ k j, (k, j) ∈ members → CleanAt f (q ++ [.key k]) j) : CleanAt f q (.obj members) := by
  intro p members' hat
  rcases hat.of_obj with ⟨rfl, heq⟩ | ⟨k, j, p', rfl, hm, hat⟩
  · obtain rfl := Json.obj.inj heq
    rwa [List.append_nil]
  · have := hrest k j hm p' members' hat
    rwa [List.append_assoc] at this

theorem cleanAt_arr {items : List Json}
    (hrest : ∀ i j, items[i]? = some j → CleanAt f (q ++ [.index i]) j) :
    CleanAt f q (.arr items) := by
  intro p members' hat
  rcases hat.of_arr with ⟨-, heq⟩ | ⟨i, j, p', rfl, hi, hat⟩
  · cases heq
  · have := hrest i j hi p' members' hat
    rwa [List.append_assoc] at this

/-- The other keys of the parts that `prepare` writes. -/
def fixedKeys : List String :=
  ["log", "dns", "inbounds", "outbounds", "route", "disabled", "type", "tag", "mtu", "auto_route",
    "strict_route", "stack", "address", "domain_strategy", "auto_redirect", "listen", "listen_port",
    "rules", "rule_set", "final", "find_process", "auto_detect_interface", "default_domain_resolver",
    "port", "action"]

theorem cleanObject_of_fixedKeys (h : ∀ e ∈ members, e.1 ∈ fixedKeys ∨ OwnMember q members e)
    (lib : Library) : CleanObject f q members := by
  have hall : ∀ k ∈ fixedKeys, isPlain k = true ∧ forbidden false k.toList = false := by
    decide +kernel
  intro e he hlong
  rcases h e he with hk | hown
  · have hno : forbiddenKey lib false e.1 = false := by
      rw [forbiddenKey_of_isPlain lib (hall _ hk).1, (hall _ hk).2]
    refine ⟨fun field hfield hmatch => ?_, fun hmatch => ?_⟩
    · rw [forbiddenKey_of_matches hlong hmatch hfield] at hno
      cases hno
    · rw [forbiddenKey_path hlong hmatch] at hno
      cases hno
  · refine ⟨fun _ _ _ => hown, fun hmatch => ?_⟩
    have hlen := congrArg List.length hmatch
    rcases hown with ⟨-, rfl⟩ | ⟨-, -, rfl⟩ <;> simp at hlen

end places

/-! ## The parts of a configuration -/

section parts

variable {lib : Library} {f : Folding} {root route tunnel : List (String × Json)}
  {inbounds rules : List Json}

theorem fixedKeys_of_onlyKeys {members : List (String × Json)} {allowed : List String}
    (h : onlyKeys members allowed = true) (hfixed : ∀ k ∈ allowed, k ∈ fixedKeys) :
    ∀ e ∈ members, e.1 ∈ fixedKeys := fun e he =>
  hfixed _ (by simpa using List.all_eq_true.mp h e he)

theorem cleanAt_str {q : List Step} (s : String) : CleanAt f q (.str s) := fun _ _ h => by cases h
theorem cleanAt_bool {q : List Step} (b : Bool) : CleanAt f q (.bool b) := fun _ _ h => by cases h
theorem cleanAt_int {q : List Step} (n : ℤ) : CleanAt f q (Json.int n) := fun _ _ h => by cases h

/-- An object of fixed keys and values without objects. -/
theorem cleanAt_hijack (lib : Library) {q : List Step} :
    CleanAt f q (.obj [("port", Json.int 53), ("action", .str "hijack-dns")]) := by
  refine cleanAt_obj (cleanObject_of_fixedKeys (fun e he => .inl ?_) lib) fun k j hm => ?_
  · rcases List.mem_pair.mp he with rfl | rfl <;> decide
  · rcases List.mem_pair.mp hm with heq | heq <;> cases heq
    · exact cleanAt_int 53
    · exact cleanAt_str _

theorem cleanAt_ownRoute (hsafe : safeValues lib false (.obj route) = true)
    (hkeys : onlyKeys route ["rules", "rule_set", "final", "find_process", "auto_detect_interface",
      "default_domain_resolver"] = true) (hrules : route.lookup "rules" = some (.arr rules)) :
    CleanAt f [.key "route"] (ownRoute route rules) := by
  rw [safeValues] at hsafe
  have hold := fixedKeys_of_onlyKeys hkeys (by decide +kernel)
  have hitems : safeItems lib false rules = true :=
    (safeMembers_mem hsafe (Json.mem_of_lookup_eq_some hrules)).2.2
  refine cleanAt_obj (cleanObject_of_fixedKeys ?_ lib) fun k j => ?_
  · exact Json.forall_mem_set (.inl (by decide +kernel : "rules" ∈ fixedKeys))
      (Json.forall_mem_set (.inr (.inl ⟨rfl, rfl⟩)) (Json.forall_mem_set (.inl (by decide +kernel)) fun e he => .inl (hold e he)))
  · refine Json.forall_mem_set (P := fun e => CleanAt f ([.key "route"] ++ [.key e.1]) e.2) ?_
      (Json.forall_mem_set (cleanAt_int _) (Json.forall_mem_set (cleanAt_bool _) fun e he =>
        cleanAt_of_safeMembers hsafe he)) (k, j)
    refine cleanAt_arr fun i j hi => ?_
    cases i with
    | zero =>
      obtain rfl := Option.some.inj hi
      exact cleanAt_hijack lib
    | succ i =>
      refine cleanAt_of_safeValues (safeItems_mem hitems (List.mem_of_getElem? hi)) fun h => ?_
      cases h

theorem cleanAt_ownTunnel {i : ℕ} (hsafe : safeValues lib false (.obj tunnel) = true)
    (hkeys : onlyKeys tunnel ["type", "tag", "mtu", "auto_route", "strict_route", "stack", "address",
      "domain_strategy"] = true) (htype : isTunnel (.obj tunnel) = true) :
    CleanAt f [.key "inbounds", .index i] (ownTunnel (.obj tunnel)) := by
  rw [safeValues] at hsafe
  have hold := fixedKeys_of_onlyKeys hkeys (by decide +kernel)
  have htunnel : isTunnel (ownTunnel (.obj tunnel)) = true := by
    simp only [isTunnel, ownTunnel, Json.text?] at htype ⊢
    rwa [Json.lookup_set_ne (by decide), Json.lookup_set_ne (by decide),
      Json.lookup_set_ne (by decide), Json.lookup_set_ne (by decide), Json.lookup_set_ne (by decide)]
  refine cleanAt_obj (cleanObject_of_fixedKeys ?_ lib) fun k j => ?_
  · exact Json.forall_mem_set (.inl (by decide +kernel)) (Json.forall_mem_set (.inl (by decide +kernel))
      (Json.forall_mem_set (.inl (by decide +kernel)) (Json.forall_mem_set (.inl (by decide +kernel))
        (Json.forall_mem_set (.inr (.inr ⟨⟨i, rfl⟩, htunnel, rfl⟩)) fun e he => .inl (hold e he)))))
  · exact Json.forall_mem_set
      (P := fun e => CleanAt f ([.key "inbounds", .index i] ++ [.key e.1]) e.2) (cleanAt_str _)
      (Json.forall_mem_set (cleanAt_bool _) (Json.forall_mem_set (cleanAt_bool _)
        (Json.forall_mem_set (cleanAt_bool _) (Json.forall_mem_set (cleanAt_str _) fun e he =>
          cleanAt_of_safeMembers hsafe he)))) (k, j)

theorem cleanAt_ownInbounds (hsafe : safeItems lib false inbounds = true)
    (hallowed : inbounds.all (inboundAllowed lib) = true) :
    CleanAt f [.key "inbounds"]
      (.arr (inbounds.map fun i => if isTunnel i then ownTunnel i else i)) := by
  refine cleanAt_arr fun i j hi => ?_
  rw [List.getElem?_map, Option.map_eq_some_iff] at hi
  obtain ⟨inbound, hi, rfl⟩ := hi
  have hmem := List.mem_of_getElem? hi
  have hsafe := safeItems_mem hsafe hmem
  split
  next htunnel =>
    have hallowed := List.all_eq_true.mp hallowed inbound hmem
    cases inbound with
    | obj tunnel =>
      simp only [isTunnel, beq_iff_eq] at htunnel
      simp only [inboundAllowed, htunnel, if_true] at hallowed
      exact cleanAt_ownTunnel hsafe hallowed (by simpa [isTunnel] using htunnel)
    | _ => cases htunnel
  next => exact cleanAt_of_safeValues hsafe fun h => by cases h

theorem cleanAt_noLog (lib : Library) {q : List Step} : CleanAt f q noLog := by
  refine cleanAt_obj (cleanObject_of_fixedKeys (fun e he => .inl ?_) lib) fun k j hm => ?_
  · obtain rfl := List.mem_singleton.mp he
    decide
  · cases List.mem_singleton.mp hm
    exact cleanAt_bool true

end parts

/-! ## The whole configuration -/

/-- **The rest of a profile is kept**: all of it but the log, the settings of the one tunnel and the
ownership of the routes. -/
structure Kept (root members : List (String × Json)) : Prop where
  log : members.lookup "log" = some noLog
  other : ∀ key, key ∉ ["log", "inbounds", "route"] → members.lookup key = root.lookup key
  inbounds : ∃ before tunnel tunnel' after,
    root.lookup "inbounds" = some (.arr (before ++ .obj tunnel :: after)) ∧
    members.lookup "inbounds" = some (.arr (before ++ .obj tunnel' :: after)) ∧
    (∀ j ∈ before ++ after, isTunnel j = false) ∧ tunnel'.lookup "type" = some (.str "tun") ∧
    tunnel'.lookup "interface_name" = some (.str tunnelInterface) ∧
    tunnel'.lookup "auto_route" = some (.bool false) ∧
    tunnel'.lookup "auto_redirect" = some (.bool false) ∧
    tunnel'.lookup "strict_route" = some (.bool true) ∧
    tunnel'.lookup "stack" = some (.str "system") ∧
    ∀ key, key ∉ ["interface_name", "auto_route", "auto_redirect", "strict_route", "stack"] →
      tunnel'.lookup key = tunnel.lookup key
  route : ∃ route route' rules,
    root.lookup "route" = some (.obj route) ∧ members.lookup "route" = some (.obj route') ∧
    route.lookup "rules" = some (.arr rules) ∧
    route'.lookup "rules" =
      some (.arr (.obj [("port", Json.int 53), ("action", .str "hijack-dns")] :: rules)) ∧
    route'.lookup "default_mark" = some (Json.int routingMark) ∧
    route'.lookup "auto_detect_interface" = some (.bool true) ∧
    ∀ key, key ∉ ["rules", "default_mark", "auto_detect_interface"] →
      route'.lookup key = route.lookup key

theorem bind_str? {value : Option Json} {s : String} (h : value.bind Json.str? = some s) :
    value = some (.str s) := by
  obtain ⟨j, rfl, hj⟩ := Option.bind_eq_some_iff.mp h
  cases j <;> simp_all [Json.str?]

theorem kept_prepared {root route tunnel : List (String × Json)} {inbounds rules : List Json}
    (hinbounds : root.lookup "inbounds" = some (.arr inbounds))
    (htunnel : inbounds.filter isTunnel = [.obj tunnel])
    (hroute : root.lookup "route" = some (.obj route))
    (hrules : route.lookup "rules" = some (.arr rules)) :
    Kept root (Json.set (Json.set (Json.set (Json.set root "log" noLog) "inbounds"
      (.arr (inbounds.map fun i => if isTunnel i then ownTunnel i else i))) "route"
      (ownRoute route rules)) "log" noLog) where
  log := by simp [Json.lookup_set]
  other key hkey := by
    simp only [List.mem_cons, List.not_mem_nil, or_false, not_or] at hkey
    simp [Json.lookup_set, hkey]
  inbounds := by
    obtain ⟨before, after, rfl, hbefore, htype, hafter⟩ := List.filter_eq_cons_iff.mp htunnel
    have hsame : ∀ l : List Json, (∀ j ∈ l, ¬isTunnel j = true) →
        (l.map fun i => if isTunnel i then ownTunnel i else i) = l := fun l hl =>
      (List.map_congr_left fun j hj => if_neg (hl j hj)).trans (List.map_id _)
    have hafter := List.filter_eq_nil_iff.mp hafter
    refine ⟨before, tunnel, Json.set (Json.set (Json.set (Json.set (Json.set tunnel "interface_name"
      (.str tunnelInterface)) "auto_route" (.bool false)) "strict_route" (.bool true))
      "auto_redirect" (.bool false)) "stack" (.str "system"), after, hinbounds, ?_, fun j hj => ?_, ?_,
      by simp [Json.lookup_set], by simp [Json.lookup_set], by simp [Json.lookup_set],
      by simp [Json.lookup_set], by simp [Json.lookup_set], fun key hkey => ?_⟩
    · rw [Json.lookup_set, if_neg (by decide), Json.lookup_set, if_neg (by decide), Json.lookup_set,
        if_pos rfl, List.map_append, hsame before hbefore, List.map_cons, if_pos htype,
        hsame after hafter]
      rfl
    · exact Bool.eq_false_iff.mpr ((List.mem_append.mp hj).elim (hbefore j) (hafter j))
    · simp only [isTunnel, beq_iff_eq, Json.text?] at htype
      simpa [Json.lookup_set] using bind_str? htype
    · simp only [List.mem_cons, List.not_mem_nil, or_false, not_or] at hkey
      simp [Json.lookup_set, hkey]
  route := by
    refine ⟨route, Json.set (Json.set (Json.set route "auto_detect_interface" (.bool true))
      "default_mark" (Json.int routingMark)) "rules"
      (.arr (.obj [("port", Json.int 53), ("action", .str "hijack-dns")] :: rules)), rules, hroute, ?_,
      hrules, by simp [Json.lookup_set], by simp [Json.lookup_set], by simp [Json.lookup_set],
      fun key hkey => ?_⟩
    · rw [Json.lookup_set, if_neg (by decide), Json.lookup_set, if_pos rfl]
      rfl
    · simp only [List.mem_cons, List.not_mem_nil, or_false, not_or] at hkey
      simp [Json.lookup_set, hkey]

/-- A profile with a long s in a key, that leaves the interface to others. -/
def longSProfile : List Char :=
  ("\x7b\"dns\":\x7b\"netn\u017f\":\"host\"\x7d," ++
    "\"inbounds\":[\x7b\"type\":\"tun\",\"mtu\":1400,\"address\":[\"172.19.0.1/28\"]\x7d]," ++
    "\"outbounds\":[\x7b\"type\":\"direct\"\x7d]," ++
    "\"route\":\x7b\"auto_detect_interface\":false,\"rules\":[]\x7d\x7d").toList

/-- The members of a part of a profile. -/
def part (root : List (String × Json)) (key : String) : List (String × Json) :=
  ((root.lookup key).bind Json.obj?).getD []

end PokrovCore.LinuxDaemon
