import PokrovCore.Foundations.JsonDecode

/-!
# Config/LegacyDnsOutbound — outbounds of type dns are taken out of a profile

An outbound of type `dns` is no longer an outbound: it is removed, and the route rules to it become
rules that hijack.  Anything else that names it is refused, as far as the scan sees it.  The scan looks
for texts under four keys and for lists under one, in seven parts of the profile; what the engine
resolves as an outbound is more than that.
-/

namespace PokrovCore.Config

open Json (Folding map? list? text optional structText ofMap)

abbrev Fields := SortedMap String Json

/-- An error where there is nothing. -/
def orError {α : Type*} (message : String) : Option α → Except String α
  | none => .error message
  | some a => .ok a

/-! ## The scan -/

/-- The keys whose texts are tags, and those whose lists are lists of tags. -/
structure ReferenceKeys where
  strings : List String
  lists : List String

/-- The tags that a member names. -/
def named (keys : ReferenceKeys) (key : String) : Json → List String
  | .str s => if key ∈ keys.strings then [s] else []
  | .arr items => if key ∈ keys.lists then items.filterMap Json.str? else []
  | _ => []

mutual
/-- The tags that are named under these keys, at any depth of a value. -/
def references (keys : ReferenceKeys) : Json → List String
  | .obj members => memberReferences keys members
  | .arr items => itemReferences keys items
  | _ => []

@[inherit_doc references]
def itemReferences (keys : ReferenceKeys) : List Json → List String
  | [] => []
  | j :: l => references keys j ++ itemReferences keys l

/-- A member counts if no later one has its key. -/
def memberReferences (keys : ReferenceKeys) : List (String × Json) → List String
  | [] => []
  | (k, j) :: l =>
    if l.any (·.1 == k) then memberReferences keys l
    else named keys k j ++ references keys j ++ memberReferences keys l
end

/-- The keys that the scan knows. -/
def scannedKeys : ReferenceKeys :=
  ⟨["outbound", "detour", "download_detour", "default"], ["outbounds"]⟩

mutual
/-- **`referencesLegacyDNSOutbound`** -/
def referencesLegacyDNSOutbound (tags : List String) : Json → Bool
  | .obj members => membersReferenceLegacyDNSOutbound tags members
  | .arr items => itemsReferenceLegacyDNSOutbound tags items
  | _ => false

@[inherit_doc referencesLegacyDNSOutbound]
def itemsReferenceLegacyDNSOutbound (tags : List String) : List Json → Bool
  | [] => false
  | j :: l => referencesLegacyDNSOutbound tags j || itemsReferenceLegacyDNSOutbound tags l

@[inherit_doc referencesLegacyDNSOutbound]
def membersReferenceLegacyDNSOutbound (tags : List String) : List (String × Json) → Bool
  | [] => false
  | (k, child) :: l =>
    if l.any (·.1 == k) then membersReferenceLegacyDNSOutbound tags l
    else
      (named scannedKeys k child).any (tags.contains ·) || referencesLegacyDNSOutbound tags child ||
        membersReferenceLegacyDNSOutbound tags l
end

/-! ## The migration -/

/-- What the loop over the outbounds has found. -/
structure Found where
  tags : List String
  defaultIsDNS : Bool
  retained : List Json

/-- The tag of an outbound, or its number. -/
def tagOr (tag : String) (i : ℕ) : String := if tag = "" then toString i else tag

/-- The loop over the outbounds. -/
def findOutbounds : ℕ → List Json → Found → Except String Found
  | _, [], found => .ok found
  | i, encoded :: rest, found => do
    let fields ← orError s!"invalid outbound at index {i}" (map? encoded)
    let kind ← orError s!"invalid outbound type at index {i}" ((fields.get? "type").bind text)
    let tag ← orError s!"invalid outbound tag at index {i}" (optional text "" (fields.get? "tag"))
    if kind ≠ "dns" then
      findOutbounds (i + 1) rest { found with retained := found.retained ++ [encoded] }
    else if fields.entries.any fun e => e.1 != "type" && e.1 != "tag" then
      .error "unsupported legacy DNS outbound options"
    else if tagOr tag i ∈ found.tags then .error "duplicate legacy DNS outbound"
    else
      findOutbounds (i + 1) rest { found with
        tags := found.tags ++ [tagOr tag i]
        defaultIsDNS := found.defaultIsDNS || i == 0 }

/-- A retained outbound has a tag, and not one of these. -/
def retainable (f : Folding) (tags : List String) (encoded : Json) : Bool :=
  (structText f "tag" encoded).any fun tag => tag != "" && !tags.contains tag

/-- The fields of a route rule, with a hijack for a route to one of these. -/
def migrateFields (tags : List String) (rule : Fields) : Except String Fields :=
  if ((rule.get? "outbound").bind text).getD "" ∉ tags then .ok rule
  else do
    let action ← orError "invalid legacy DNS route action" (optional text "" (rule.get? "action"))
    if action ≠ "" ∧ action ≠ "route" then .error "unsupported legacy DNS route action"
    else .ok ((rule.filter fun k _ => k != "outbound").insert "action" (.str "hijack-dns"))

/-- A route rule, migrated. -/
def migrateRule (tags : List String) (rule : Json) : Except String Json :=
  match rule with
  | .obj members => (migrateFields tags (.ofList members)).map ofMap
  | .null => .ok .null
  | _ => .error "invalid route rules"

/-- The rules of a route, migrated. -/
def migrateRules (tags : List String) (rules : Json) : Except String Json :=
  match rules with
  | .arr items =>
    if items.any fun rule => (map? rule).isNone then .error "invalid route rules"
    else (items.mapM (migrateRule tags)).map .arr
  | .null => .ok .null
  | _ => .error "invalid route rules"

/-- The profile with its rules migrated, if it has any. -/
def withRules (tags : List String) (root route : Fields) : Except String Fields :=
  match route.get? "rules" with
  | none => .ok root
  | some rules =>
    (migrateRules tags rules).map fun rules =>
      root.insert "route" (ofMap (route.insert "rules" rules))

/-- The parts of a profile that are scanned. -/
def scannedParts : List String :=
  ["outbounds", "endpoints", "inbounds", "dns", "route", "services", "http_clients"]

/-- The profile without the outbounds that were found. -/
def removeFound (f : Folding) (root : Fields) (found : Found) : Except String Fields := do
  if found.retained.all (retainable f found.tags) = false then
    .error "ambiguous legacy DNS outbound tags"
  else
    let endpoints ← orError "invalid endpoints"
      ((optional list? [] (root.get? "endpoints")).bind (·.mapM (structText f "tag")))
    if endpoints.zipIdx.any fun e => found.tags.contains (tagOr e.1 e.2) then
      .error "duplicate legacy DNS outbound and endpoint tag"
    else
      let route ← orError "invalid route configuration" (optional map? .empty (root.get? "route"))
      let final := ((route.get? "final").bind text).getD ""
      if final ∈ found.tags ∨ (final = "" ∧ found.defaultIsDNS = true) then
        .error "legacy DNS outbound cannot be route final"
      else
        let root ← withRules found.tags root route
        let root := root.insert "outbounds" (.arr found.retained)
        if scannedParts.any fun key =>
            (root.get? key).any (referencesLegacyDNSOutbound found.tags) then
          .error "unsupported reference to legacy DNS outbound"
        else .ok root

/-- **`migrateLegacyDNSOutbound`**: whether the profile changed, and the profile. -/
def migrateLegacyDNSOutbound (f : Folding) (root : Fields) : Except String (Bool × Fields) := do
  let outbounds ← orError "invalid outbounds" (optional list? [] (root.get? "outbounds"))
  let found ← findOutbounds 0 outbounds ⟨[], false, []⟩
  if found.tags = [] then .ok (false, root)
  else (removeFound f root found).map (true, ·)

/-! ## What the engine resolves -/

/-- The keys of the engine whose texts, or lists of texts, are outbounds. -/
def engineKeys : ReferenceKeys :=
  ⟨["outbound", "detour", "download_detour", "external_ui_download_detour", "default",
    "upstream_tag", "vpn_outbound"], ["outbound", "outbounds", "preferred_outbounds"]⟩

/-- Those of the engine that the scan does not know. -/
def missedKeys : ReferenceKeys :=
  ⟨["external_ui_download_detour", "upstream_tag", "vpn_outbound"],
    ["outbound", "preferred_outbounds"]⟩

/-- The keys of a part of a profile; the outbounds in the statistics are not resolved. -/
def partKeys (part : String) : ReferenceKeys :=
  if part = "experimental" then ⟨["external_ui_download_detour"], []⟩ else engineKeys

/-- The final outbound of the routes. -/
def finalReference (root : Fields) : List String :=
  (((root.get? "route").bind map?).bind fun route => (route.get? "final").bind Json.str?).toList

/-- **The outbounds that the engine resolves in a profile.** -/
def profileReferences (root : Fields) : List String :=
  finalReference root ++ root.entries.flatMap fun e => references (partKeys e.1) e.2

/-- **Those that the scan does not see.** -/
def missedReferences (root : Fields) : List String :=
  root.entries.flatMap fun e =>
    references (if e.1 ∈ scannedParts then missedKeys else partKeys e.1) e.2

/-- The kind of an outbound. -/
def kindOf (encoded : Json) : Option String :=
  ((map? encoded).bind (·.get? "type")).bind text

/-- **The tags of the outbounds of type dns**, from a number on. -/
def legacyTags : ℕ → List Json → List String
  | _, [] => []
  | i, encoded :: rest =>
    if kindOf encoded = some "dns" then
      tagOr (((map? encoded).bind (·.get? "tag")).bind text |>.getD "") i :: legacyTags (i + 1) rest
    else legacyTags (i + 1) rest

/-- The outbounds of a profile. -/
def outboundsOf (root : Fields) : List Json := (optional list? [] (root.get? "outbounds")).getD []

/-! ### References of maps -/

section references

variable {keys : ReferenceKeys} {s : String} {tags : List String}

theorem mem_itemReferences {items : List Json} :
    s ∈ itemReferences keys items ↔ ∃ j ∈ items, s ∈ references keys j := by
  induction items with
  | nil => simp [itemReferences]
  | cons j l ih => simp [itemReferences, ih]

theorem mem_memberReferences {members : List (String × Json)} :
    s ∈ memberReferences keys members ↔
      ∃ k j, (SortedMap.ofList members).get? k = some j ∧
        (s ∈ named keys k j ∨ s ∈ references keys j) := by
  induction members with
  | nil => simp [memberReferences, SortedMap.ofList]
  | cons e l ih =>
    obtain ⟨k, j⟩ := e
    simp only [SortedMap.get?_ofList_cons]
    rw [memberReferences]
    split
    next hlater =>
      -- the member is overwritten
      obtain ⟨d, hd, hdk⟩ := List.any_eq_true.mp hlater
      rw [ih]
      refine exists_congr fun k' => exists_congr fun j' => and_congr_left' ?_
      by_cases hk : k' = k
      · have hsome : (SortedMap.ofList l).get? k' ≠ none := fun hnone =>
          SortedMap.get?_ofList_eq_none.mp hnone d hd ((beq_iff_eq.mp hdk).trans hk.symm)
        obtain ⟨v, hv⟩ := Option.ne_none_iff_exists'.mp hsome
        rw [hv, Option.some_or]
      · rw [if_neg hk, Option.or_none]
    next hlast =>
      have hnone : (SortedMap.ofList l).get? k = none :=
        SortedMap.get?_ofList_eq_none.mpr fun d hd hdk =>
          hlast (List.any_eq_true.mpr ⟨d, hd, beq_iff_eq.mpr hdk⟩)
      rw [List.mem_append, List.mem_append, ih]
      constructor
      · rintro (h | ⟨k', j', hget, h⟩)
        · exact ⟨k, j, by rw [hnone, if_pos rfl, Option.none_or], h⟩
        · exact ⟨k', j', by rw [hget, Option.some_or], h⟩
      · rintro ⟨k', j', hget, h⟩
        by_cases hk : k' = k
        · subst hk
          rw [hnone, if_pos rfl, Option.none_or] at hget
          obtain rfl := Option.some.inj hget
          exact .inl h
        · rw [if_neg hk, Option.or_none] at hget
          exact .inr ⟨k', j', hget, h⟩

theorem mem_references_ofMap {m : Fields} :
    s ∈ references keys (ofMap m) ↔
      ∃ k j, m.get? k = some j ∧ (s ∈ named keys k j ∨ s ∈ references keys j) := by
  rw [ofMap, references, mem_memberReferences, SortedMap.ofList_entries]

/-- What is decoded into a map is decoded again from it. -/
theorem mem_references_of_map? {j : Json} {m : Fields} (h : map? j = some m) :
    s ∈ references keys j ↔ s ∈ references keys (ofMap m) := by
  cases j with
  | null =>
    obtain rfl := Option.some.inj h
    rfl
  | obj members =>
    obtain rfl := Option.some.inj h
    rw [mem_references_ofMap, references, mem_memberReferences]
  | _ => cases h

theorem mem_named_engineKeys (k : String) (j : Json) :
    s ∈ named engineKeys k j ↔ s ∈ named scannedKeys k j ∨ s ∈ named missedKeys k j := by
  cases j <;> simp [named, engineKeys, scannedKeys, missedKeys] <;> grind

mutual
/-- The references of the engine are those of the scan and those it misses. -/
theorem mem_engineKeys : ∀ j : Json, s ∈ references engineKeys j ↔
    s ∈ references scannedKeys j ∨ s ∈ references missedKeys j
  | .obj members => mem_engineMembers members
  | .arr items => mem_engineItems items
  | .null | .bool _ | .num _ | .str _ => by simp [references]

theorem mem_engineItems : ∀ items : List Json, s ∈ itemReferences engineKeys items ↔
    s ∈ itemReferences scannedKeys items ∨ s ∈ itemReferences missedKeys items
  | [] => by simp [itemReferences]
  | j :: l => by
    simp only [itemReferences, List.mem_append, mem_engineKeys j, mem_engineItems l]
    tauto

theorem mem_engineMembers : ∀ members : List (String × Json),
    s ∈ memberReferences engineKeys members ↔
      s ∈ memberReferences scannedKeys members ∨ s ∈ memberReferences missedKeys members
  | [] => by simp [memberReferences]
  | (k, j) :: l => by
    simp only [memberReferences]
    split
    · exact mem_engineMembers l
    · simp only [List.mem_append, mem_named_engineKeys, mem_engineKeys j, mem_engineMembers l]
      tauto
end

mutual
/-- **The scan asks whether one of its references is one of the tags.** -/
theorem referencesLegacyDNSOutbound_eq : ∀ j : Json,
    referencesLegacyDNSOutbound tags j = (references scannedKeys j).any (tags.contains ·)
  | .obj members => membersReferenceLegacyDNSOutbound_eq members
  | .arr items => itemsReferenceLegacyDNSOutbound_eq items
  | .null | .bool _ | .num _ | .str _ => rfl

theorem itemsReferenceLegacyDNSOutbound_eq : ∀ items : List Json,
    itemsReferenceLegacyDNSOutbound tags items =
      (itemReferences scannedKeys items).any (tags.contains ·)
  | [] => rfl
  | j :: l => by
    rw [itemsReferenceLegacyDNSOutbound, itemReferences, List.any_append,
      referencesLegacyDNSOutbound_eq j, itemsReferenceLegacyDNSOutbound_eq l]

theorem membersReferenceLegacyDNSOutbound_eq : ∀ members : List (String × Json),
    membersReferenceLegacyDNSOutbound tags members =
      (memberReferences scannedKeys members).any (tags.contains ·)
  | [] => rfl
  | (k, j) :: l => by
    rw [membersReferenceLegacyDNSOutbound, memberReferences]
    split
    · exact membersReferenceLegacyDNSOutbound_eq l
    · rw [List.any_append, List.any_append, referencesLegacyDNSOutbound_eq j,
        membersReferenceLegacyDNSOutbound_eq l]
end

end references

/-! ### What was found -/

theorem orError_bind_eq_ok {α β : Type} {message : String} {x : Option α} {g : α → Except String β}
    {b : β} : (orError message x >>= g) = .ok b ↔ ∃ a, x = some a ∧ g a = .ok b := by
  cases x <;> simp [orError, bind, Except.bind]

theorem orError_some_bind {α β : Type} (message : String) (a : α) (g : α → Except String β) :
    (orError message (some a) >>= g) = g a := rfl

theorem map_eq_ok {α β : Type*} {x : Except String α} {g : α → β} {b : β} :
    x.map g = .ok b ↔ ∃ a, x = .ok a ∧ g a = b := by
  cases x <;> simp [Except.map]

/-- What a loop made of a list, item by item. -/
theorem forall₂_of_mapM_ok {α β : Type} {g : α → Except String β} {l : List α} {l' : List β}
    (h : l.mapM g = .ok l') : List.Forall₂ (fun a b => g a = .ok b) l l' := by
  induction l generalizing l' with
  | nil =>
    obtain rfl := Except.ok.inj h
    exact .nil
  | cons a l ih =>
    rw [List.mapM_cons] at h
    cases ha : g a with
    | error e => simp [ha, bind, Except.bind] at h
    | ok b =>
      cases hl : l.mapM g with
      | error e => simp [ha, hl, bind, Except.bind] at h
      | ok bs =>
        obtain rfl : b :: bs = l' := by
          simpa [ha, hl, bind, Except.bind, pure, Except.pure] using h
        exact .cons ha (ih hl)

theorem ite_error_eq_ok {α : Type*} {p : Prop} [Decidable p] {message : String} {x : Except String α}
    {a : α} : (if p then .error message else x) = .ok a ↔ ¬p ∧ x = .ok a := by
  split <;> simp_all

/-- An outbound whose kind and tag can be read. -/
def Readable (encoded : Json) (kind tag : String) : Prop :=
  ∃ fields, map? encoded = some fields ∧ (fields.get? "type").bind text = some kind ∧
    optional text "" (fields.get? "tag") = some tag

theorem Readable.kindOf_eq {encoded : Json} {kind tag : String} (h : Readable encoded kind tag) :
    kindOf encoded = some kind := by
  obtain ⟨fields, hmap, hkind, -⟩ := h
  rw [kindOf, hmap, Option.bind_some, hkind]

variable {list : List Json}

/-- **What the loop over the outbounds finds.** -/
theorem findOutbounds_ok {i : ℕ} {found found' : Found}
    (h : findOutbounds i list found = .ok found') :
    found'.tags = found.tags ++ legacyTags i list ∧
      found'.retained = found.retained ++ list.filter (kindOf · ≠ some "dns") ∧
      (∀ encoded ∈ list, ∃ kind tag, Readable encoded kind tag) ∧
      ∀ encoded ∈ list, kindOf encoded = some "dns" →
        ∃ m, map? encoded = some m ∧ ∀ k v, m.get? k = some v → k = "type" ∨ k = "tag" := by
  induction list generalizing i found with
  | nil =>
    obtain rfl := Except.ok.inj h
    simp [legacyTags]
  | cons encoded rest ih =>
    rw [findOutbounds] at h
    obtain ⟨fields, hmap, h⟩ := orError_bind_eq_ok.mp h
    obtain ⟨kind, hkind, h⟩ := orError_bind_eq_ok.mp h
    obtain ⟨tag, htag, h⟩ := orError_bind_eq_ok.mp h
    have hread : Readable encoded kind tag := ⟨fields, hmap, hkind, htag⟩
    by_cases hdns : kind = "dns"
    · subst hdns
      rw [if_neg (not_not.mpr rfl), ite_error_eq_ok, ite_error_eq_ok] at h
      obtain ⟨hkeys, -, h⟩ := h
      obtain ⟨htags, hretained, hall, honly⟩ := ih h
      have htag' : (((map? encoded).bind (·.get? "tag")).bind text).getD "" = tag := by
        rw [hmap, Option.bind_some]
        cases hget : fields.get? "tag" with
        | none =>
          rw [hget] at htag
          exact Option.some.inj htag
        | some j =>
          rw [hget] at htag
          rw [Option.bind_some, show text j = some tag from htag, Option.getD_some]
      refine ⟨?_, ?_, List.forall_mem_cons.mpr ⟨⟨_, _, hread⟩, hall⟩,
        List.forall_mem_cons.mpr ⟨fun _ => ⟨fields, hmap, fun k v hget => ?_⟩, honly⟩⟩
      · rw [htags, legacyTags, if_pos hread.kindOf_eq, htag', List.append_assoc, List.singleton_append]
      · rw [hretained, List.filter_cons_of_neg (by simp [hread.kindOf_eq])]
      · simp only [List.any_eq_true, not_exists, not_and] at hkeys
        have hk := hkeys (k, v) (SortedMap.get?_eq_some_iff.mp hget)
        simp only [Bool.and_eq_true, bne_iff_ne, ne_eq, not_and, not_not] at hk
        exact or_iff_not_imp_left.mpr hk
    · rw [if_pos hdns] at h
      obtain ⟨htags, hretained, hall, honly⟩ := ih h
      have hne : kindOf encoded ≠ some "dns" := by
        rw [hread.kindOf_eq]
        exact fun heq => hdns (Option.some.inj heq)
      refine ⟨?_, ?_, List.forall_mem_cons.mpr ⟨⟨_, _, hread⟩, hall⟩,
        List.forall_mem_cons.mpr ⟨fun heq => absurd heq hne, honly⟩⟩
      · rw [htags, legacyTags, if_neg hne]
      · rw [hretained, List.filter_cons_of_pos (by simpa using hne), List.append_assoc,
          List.singleton_append]

/-! ### What is missed stays missed -/

section migrated

variable {tags : List String} {s k : String} {keys : ReferenceKeys}

theorem named_eq_nil (hstrings : k ∉ keys.strings) (hlists : k ∉ keys.lists) (j : Json) :
    named keys k j = [] := by
  cases j <;> simp [named, hstrings, hlists]

theorem references_of_text {j : Json} {t : String} (h : text j = some t) :
    references keys j = [] := by
  cases j <;> first | rfl | cases h

theorem not_mem_tags_of_kept (htags : "" ∉ tags) {value : Option Json}
    (h : (value.bind text).getD "" ∈ tags) : ∃ j t, value = some j ∧ text j = some t := by
  cases ht : value.bind text with
  | none =>
    rw [ht] at h
    exact absurd h htags
  | some t =>
    obtain ⟨j, hj, ht⟩ := Option.bind_eq_some_iff.mp ht
    exact ⟨j, t, hj, ht⟩

theorem named_of_text (hk : k ∉ keys.strings) {j : Json} {t : String} (h : text j = some t) :
    named keys k j = [] := by
  cases j with
  | str s => simp [named, hk]
  | null => rfl
  | _ => cases h

theorem mem_missed_migrateFields (htags : "" ∉ tags) {rule rule' : Fields}
    (h : migrateFields tags rule = .ok rule') :
    s ∈ references missedKeys (ofMap rule') ↔ s ∈ references missedKeys (ofMap rule) := by
  unfold migrateFields at h
  split at h
  next =>
    obtain rfl := Except.ok.inj h
    rfl
  next htarget =>
    obtain ⟨action, haction, h⟩ := orError_bind_eq_ok.mp h
    obtain rfl := Except.ok.inj (ite_error_eq_ok.mp h).2
    obtain ⟨target, t, houtbound, ht⟩ := not_mem_tags_of_kept htags (not_not.mp htarget)
    -- neither the target nor the action, old or new, is a reference that is missed
    have hnone : ∀ {k j u}, k ∉ missedKeys.strings → text j = some u →
        ¬(s ∈ named missedKeys k j ∨ s ∈ references missedKeys j) := fun hk hj => by
      rw [named_of_text hk hj, references_of_text hj]
      simp
    rw [mem_references_ofMap, mem_references_ofMap]
    simp only [SortedMap.get?_insert, SortedMap.get?_filter]
    constructor
    · rintro ⟨k, j, hget, hs⟩
      split at hget
      next hk =>
        obtain rfl := Option.some.inj hget
        exact absurd hs (hnone (hk ▸ by decide) rfl)
      next =>
        exact ⟨k, j, (Option.filter_eq_some_iff.mp hget).1, hs⟩
    · rintro ⟨k, j, hget, hs⟩
      refine ⟨k, j, ?_, hs⟩
      by_cases hk : k = "action"
      · subst hk
        rw [hget] at haction
        exact absurd hs (hnone (by decide) haction)
      · rw [if_neg hk, hget, Option.filter_eq_some_iff]
        refine ⟨rfl, bne_iff_ne.mpr fun hk => ?_⟩
        subst hk
        obtain rfl := Option.some.inj (houtbound.symm.trans hget)
        exact hnone (by decide) ht hs

theorem mem_missed_migrateRule (htags : "" ∉ tags) {rule rule' : Json}
    (h : migrateRule tags rule = .ok rule') :
    s ∈ references missedKeys rule' ↔ s ∈ references missedKeys rule := by
  unfold migrateRule at h
  split at h
  next members =>
    obtain ⟨fields, hfields, rfl⟩ := map_eq_ok.mp h
    rw [mem_missed_migrateFields htags hfields]
    exact (@mem_references_of_map? missedKeys s (.obj members) _ rfl).symm
  next =>
    obtain rfl := Except.ok.inj h
    rfl
  next => cases h

/-- Neither do the migrated rules miss more, or less. -/
theorem mem_missed_migrateRules (htags : "" ∉ tags) {rules rules' : Json}
    (h : migrateRules tags rules = .ok rules') :
    s ∈ references missedKeys rules' ↔ s ∈ references missedKeys rules := by
  unfold migrateRules at h
  split at h
  next items =>
    obtain ⟨-, h⟩ := ite_error_eq_ok.mp h
    obtain ⟨items', hitems, rfl⟩ := map_eq_ok.mp h
    have heach : ∀ {l l' : List Json}, List.Forall₂ (fun a b => migrateRule tags a = .ok b) l l' →
        (s ∈ itemReferences missedKeys l' ↔ s ∈ itemReferences missedKeys l) := fun hl => by
      induction hl with
      | nil => rfl
      | cons hrule _ ih =>
        simp only [itemReferences, List.mem_append, mem_missed_migrateRule htags hrule, ih]
    exact heach (forall₂_of_mapM_ok hitems)
  next =>
    obtain rfl := Except.ok.inj h
    rfl
  next => cases h

theorem mem_missedReferences {root : Fields} :
    s ∈ missedReferences root ↔ ∃ k v, root.get? k = some v ∧
      s ∈ references (if k ∈ scannedParts then missedKeys else partKeys k) v := by
  simp only [missedReferences, List.mem_flatMap, Prod.exists, SortedMap.get?_eq_some_iff]

theorem not_mem_legacyTags (i : ℕ) (list : List Json) : "" ∉ legacyTags i list := by
  have htag : ∀ tag i, tagOr tag i ≠ "" := fun tag i => by
    unfold tagOr
    split
    · intro h
      have hdigits := congrArg String.toList h
      simp at hdigits
    · assumption
  induction list generalizing i with
  | nil => simp [legacyTags]
  | cons encoded rest ih =>
    rw [legacyTags]
    split
    · rw [List.mem_cons, not_or]
      exact ⟨(htag _ _).symm, ih (i + 1)⟩
    · exact ih (i + 1)

theorem legacyTags_eq_nil {i : ℕ} (h : legacyTags i list = []) :
    ∀ encoded ∈ list, kindOf encoded ≠ some "dns" := by
  induction list generalizing i with
  | nil => simp
  | cons encoded rest ih =>
    rw [legacyTags] at h
    split at h
    next => cases h
    next hne => exact List.forall_mem_cons.mpr ⟨hne, ih h⟩

theorem partKeys_of_scanned (h : k ∈ scannedParts) : partKeys k = engineKeys := by
  refine if_neg ?_
  rintro rfl
  exact absurd h (by decide)

/-- The outbounds that are removed have no references. -/
theorem mem_itemReferences_retained
    (hread : ∀ encoded ∈ list, ∃ kind tag, Readable encoded kind tag)
    (honly : ∀ encoded ∈ list, kindOf encoded = some "dns" →
      ∃ m, map? encoded = some m ∧ ∀ k v, m.get? k = some v → k = "type" ∨ k = "tag") :
    s ∈ itemReferences missedKeys (list.filter (kindOf · ≠ some "dns")) ↔
      s ∈ itemReferences missedKeys list := by
  rw [mem_itemReferences, mem_itemReferences]
  refine exists_congr fun j => ?_
  rw [List.mem_filter, decide_eq_true_eq, and_assoc]
  refine and_congr_right fun hj => ⟨And.right, fun hs => ⟨fun hdns => ?_, hs⟩⟩
  obtain ⟨m, hm, hkeys⟩ := honly j hj hdns
  obtain ⟨kind, tag, fields, hmap, hkind, htag⟩ := hread j hj
  obtain rfl := Option.some.inj (hm.symm.trans hmap)
  rw [mem_references_of_map? hm, mem_references_ofMap] at hs
  obtain ⟨k, v, hget, hs⟩ := hs
  have htext : ∃ t, text v = some t := by
    rcases hkeys k v hget with rfl | rfl
    · rw [hget] at hkind
      exact ⟨kind, hkind⟩
    · rw [hget] at htag
      exact ⟨tag, htag⟩
  obtain ⟨t, ht⟩ := htext
  rw [references_of_text ht, named_of_text _ ht] at hs
  · simp at hs
  · rcases hkeys k v hget with rfl | rfl <;> decide

theorem mem_missed_withRules (htags : "" ∉ tags) {root root' route : Fields} {value : Json}
    (hvalue : root.get? "route" = some value) (hroute : map? value = some route)
    (h : withRules tags root route = .ok root') :
    ∃ value', root'.get? "route" = some value' ∧
      (s ∈ references missedKeys value' ↔ s ∈ references missedKeys value) := by
  unfold withRules at h
  split at h
  next =>
    obtain rfl := Except.ok.inj h
    exact ⟨value, hvalue, Iff.rfl⟩
  next rules hrules =>
    obtain ⟨rules', hmigrated, rfl⟩ := map_eq_ok.mp h
    refine ⟨_, SortedMap.get?_insert_self _ _ _, ?_⟩
    rw [mem_references_of_map? hroute, mem_references_ofMap, mem_references_ofMap]
    have hsame := @mem_missed_migrateRules _ s htags _ _ hmigrated
    have hnamed : ∀ j, named missedKeys "rules" j = [] := named_eq_nil (by decide) (by decide)
    refine exists_congr fun k => ?_
    by_cases hk : k = "rules"
    · subst hk
      simp [hrules, hnamed, hsame]
    · simp [SortedMap.get?_insert_of_ne _ _ hk]

end migrated

/-! ### The whole profile -/

section profile

variable {f : Folding} {root root' route : Fields} {found : Found}

/-- **What the removal of outbounds comes to**, and what it has checked. -/
theorem removeFound_ok (h : removeFound f root found = .ok root') :
    ∃ route root₁, optional map? .empty (root.get? "route") = some route ∧
      ((route.get? "final").bind text).getD "" ∉ found.tags ∧
      withRules found.tags root route = .ok root₁ ∧
      root' = root₁.insert "outbounds" (.arr found.retained) ∧
      ∀ key ∈ scannedParts, ∀ v, root'.get? key = some v →
        ∀ tag ∈ references scannedKeys v, tag ∉ found.tags := by
  rw [removeFound, ite_error_eq_ok] at h
  obtain ⟨endpoints, -, h⟩ := orError_bind_eq_ok.mp h.2
  rw [ite_error_eq_ok] at h
  obtain ⟨route, hroute, h⟩ := orError_bind_eq_ok.mp h.2
  obtain ⟨hfinal, h⟩ := ite_error_eq_ok.mp h
  cases hrules : withRules found.tags root route with
  | error e =>
    rw [hrules] at h
    cases h
  | ok root₁ =>
    rw [hrules] at h
    obtain ⟨hscan, h⟩ := ite_error_eq_ok.mp h
    obtain rfl := Except.ok.inj h
    refine ⟨route, root₁, hroute, fun hf => hfinal (.inl hf), hrules, rfl, fun key hkey v hv tag ht hin => ?_⟩
    refine hscan (List.any_eq_true.mpr ⟨key, hkey, ?_⟩)
    rw [hv, Option.any_some, referencesLegacyDNSOutbound_eq]
    exact List.any_eq_true.mpr ⟨tag, ht, List.contains_iff_mem.mpr hin⟩

theorem withRules_get? {tags : List String} (h : withRules tags root route = .ok root') {k : String}
    (hk : k ≠ "route") : root'.get? k = root.get? k := by
  unfold withRules at h
  split at h
  · obtain rfl := Except.ok.inj h
    rfl
  · obtain ⟨rules', -, rfl⟩ := map_eq_ok.mp h
    exact SortedMap.get?_insert_of_ne _ _ hk

theorem finalReference_withRules {tags : List String}
    (hroute : optional map? .empty (root.get? "route") = some route)
    (h : withRules tags root route = .ok root') (retained : Json) {tag : String}
    (htag : tag ∈ finalReference (root'.insert "outbounds" retained)) :
    ((route.get? "final").bind text).getD "" = tag := by
  have hfinal : (route.get? "final").bind Json.str? = some tag := by
    rw [finalReference, SortedMap.get?_insert_of_ne _ _ (by decide), Option.mem_toList] at htag
    unfold withRules at h
    split at h
    · obtain rfl := Except.ok.inj h
      cases hvalue : root.get? "route" with
      | none =>
        rw [hvalue] at htag
        cases htag
      | some value =>
        rw [hvalue] at hroute htag
        rwa [Option.bind_some, show map? value = some route from hroute, Option.bind_some] at htag
    · obtain ⟨rules', -, rfl⟩ := map_eq_ok.mp h
      rwa [SortedMap.get?_insert_self, Option.bind_some, Json.map?_ofMap, Option.bind_some,
        SortedMap.get?_insert_of_ne _ _ (by decide)] at htag
  obtain ⟨j, hj, hstr⟩ := Option.bind_eq_some_iff.mp hfinal
  rw [hj, Option.bind_some]
  cases j with
  | str s =>
    obtain rfl := Option.some.inj hstr
    rfl
  | _ => cases hstr

/-- **A migrated profile misses what the profile missed.** -/
theorem mem_missedReferences_removeFound {outbounds : List Json} {tag : String}
    (houtbounds : optional list? [] (root.get? "outbounds") = some outbounds)
    (hfound : findOutbounds 0 outbounds ⟨[], false, []⟩ = .ok found) (hne : found.tags ≠ [])
    (h : removeFound f root found = .ok root') :
    tag ∈ missedReferences root' ↔ tag ∈ missedReferences root := by
  obtain ⟨htags, hretained, hread, honly⟩ := findOutbounds_ok hfound
  obtain ⟨route, root₁, hroute, -, hrules, rfl, -⟩ := removeFound_ok h
  have hempty : "" ∉ found.tags := by
    rw [htags]
    exact not_mem_legacyTags 0 outbounds
  rw [mem_missedReferences, mem_missedReferences]
  refine exists_congr fun k => ?_
  by_cases hk : k = "outbounds"
  · subst hk
    have hlist : root.get? "outbounds" = some (.arr outbounds) := by
      -- there was an outbound to find
      have hsome : outbounds ≠ [] := by
        rintro rfl
        exact hne htags
      cases hvalue : root.get? "outbounds" with
      | none =>
        rw [hvalue] at houtbounds
        exact absurd (Option.some.inj houtbounds).symm hsome
      | some j =>
        rw [hvalue] at houtbounds
        cases j with
        | null => exact absurd (Option.some.inj houtbounds).symm hsome
        | arr items => rw [Option.some.inj houtbounds]
        | _ => cases houtbounds
    simp only [SortedMap.get?_insert_self, hlist, Option.some.injEq, exists_eq_left',
      if_pos (show "outbounds" ∈ scannedParts by decide), references, hretained, List.nil_append]
    exact mem_itemReferences_retained hread honly
  · rw [SortedMap.get?_insert_of_ne _ _ hk]
    by_cases hk' : k = "route"
    · subst hk'
      cases hvalue : root.get? "route" with
      | none =>
        rw [hvalue] at hroute
        obtain rfl := Option.some.inj hroute
        obtain rfl := Except.ok.inj hrules
        simp [hvalue]
      | some value =>
        rw [hvalue] at hroute
        obtain ⟨value', hvalue', hsame⟩ := @mem_missed_withRules _ tag hempty _ _ _ _ hvalue hroute hrules
        simp only [hvalue', Option.some.injEq, exists_eq_left',
          if_pos (show "route" ∈ scannedParts by decide), hsame]
    · rw [withRules_get? hrules hk']

/-- A profile with an outbound of type dns and a route to it, and more outbounds and rules. -/
def dnsProfile (outbounds dnsRules : List Json) : Fields :=
  .ofList [
    ("dns", .obj [("rules", .arr dnsRules)]),
    ("outbounds", .arr (.obj [("type", .str "direct"), ("tag", .str "direct")] ::
      .obj [("type", .str "dns"), ("tag", .str "dns-out")] :: outbounds)),
    ("route", .obj [("rules", .arr [.obj [("port", Json.int 53), ("outbound", .str "dns-out")]])])]

end profile

end PokrovCore.Config
