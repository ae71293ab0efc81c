import PokrovCore.Foundations.Walk
import PokrovCore.Outbounds.Definitions

/-!
# TelegramWs/Preflight — the fallback of a preparation, and that of the runtime

Before a box is built, the definitions below a fallback are collected, each once; a carrier is
collected with the VLESS leaf that it carries.  A started outbound walks the built ones.  Where no
group lists a carrier that also carries a leaf, the first accepts exactly what is `Clear` to it, so
no order matters, and the second accepts it too.  Where one does, the order decides: the carrier is
refused when it comes first, and taken for done when it comes behind its leaf.
-/

namespace PokrovCore.TelegramWs

open Outbounds Walk

/-! ## The preparation -/

/-- Why a collection ends early; the fuel is that of the model. -/
inductive Failure
  | scope
  | fuel
  deriving DecidableEq, Repr

/-- What is collected: definitions, by their tags. -/
abbrev Collected := List (String × Definition)

/-- What is collected for a definition itself, and the members that are still to be visited. -/
def collect (byTag : String → Option Definition) (definitions : Collected) (outbound : Definition) :
    Except Failure (Collected × List String) :=
  match outbound.options with
  | .naive o => if protectedH2 outbound.detour o then .ok (definitions, []) else .error .scope
  | .vless o =>
    match byTag outbound.detour with
    | some ⟨tag, detour, .slipstream tunnel⟩ =>
      if slipstreamProtectedVLESSDetour outbound.detour o tunnel then
        .ok ((outbound.detour, ⟨tag, detour, .slipstream tunnel⟩) :: definitions, [])
      else .error .scope
    | some ⟨tag, detour, .dnstt tunnel⟩ =>
      if dnsttProtectedVLESSDetour outbound.detour o tunnel then
        .ok ((outbound.detour, ⟨tag, detour, .dnstt tunnel⟩) :: definitions, [])
      else .error .scope
    | _ => if o.secured && outbound.detour == "" then .ok (definitions, []) else .error .scope
  | .hysteria2 | .legacyWireGuard | .wireGuard | .awg =>
    if outbound.detour = "" then .ok (definitions, []) else .error .scope
  | .selector children | .urltest children =>
    if children = [] then .error .scope else .ok (definitions, children)
  | .dnstt _ | .slipstream _ | .atsLease _ | .other _ _ => .error .scope

/-- **`visit`**, on fuel. -/
def visit (byTag : String → Option Definition) :
    ℕ → List String → Collected → String → Except Failure Collected
  | 0, _, _, _ => .error .fuel
  | n + 1, visiting, definitions, name =>
    if name ∈ visiting then .error .scope
    else if definitions.any (·.1 == name) then .ok definitions
    else
      match byTag name with
      | none => .error .scope
      | some outbound =>
        match collect byTag definitions outbound with
        | .error e => .error e
        | .ok (definitions, children) =>
          match children.foldlM (visit byTag n (name :: visiting)) definitions with
          | .error e => .error e
          | .ok definitions => .ok ((name, outbound) :: definitions)

/-- **`FallbackDefinitions`.**  Every tag has a definition of its own. -/
def fallbackDefinitions (outbounds endpoints : List Definition) (tag : String) :
    Except Failure Collected :=
  let all := outbounds ++ endpoints
  if all.any (·.tag == "") ∨ ¬(all.map (·.tag)).Nodup then .error .scope
  else visit (lookup all) (all.length + 1) [] [] tag

/-- The verdict of the preparation. -/
def preflightAccepts (outbounds endpoints : List Definition) (tag : String) : Bool :=
  (fallbackDefinitions outbounds endpoints tag).isOk

/-! ## The runtime -/

/-- **`protectedFallback`**, on fuel. -/
def protectedFallback (manager : String → Option Definition) :
    ℕ → List String → Definition → Option Bool
  | 0, _, _ => none
  | n + 1, seen, target =>
    if target.tag ∈ seen then some false
    else
      match target.options with
      | .naive o => some (protectedH2 target.detour o)
      | .vless _ | .hysteria2 | .legacyWireGuard | .wireGuard | .awg => some true
      | .selector _ | .urltest _ =>
        if target.dependencies = [] then some false
        else
          every (fun tag =>
            match manager tag with
            | none => some false
            | some child => protectedFallback manager n (target.tag :: seen) child)
            target.dependencies
      | .dnstt _ | .slipstream _ | .atsLease _ | .other _ _ => some false

/-- The outbound of a tag is found and protected: what `Start` asks for. -/
def fallbackFound (manager : String → Option Definition) (n : ℕ) (seen : List String)
    (tag : String) : Option Bool :=
  match manager tag with
  | none => some false
  | some target => protectedFallback manager n seen target

/-! ## What they ask for -/

/-- What the preparation asks for at a tag. -/
def preflightNode (byTag : String → Option Definition) (tag : String) :
    Option (List String × Bool) :=
  (byTag tag).map fun outbound =>
    match outbound.options with
    | .naive o => ([], protectedH2 outbound.detour o)
    | .vless o => ([], (carriedLeaf byTag outbound).getD (o.secured && outbound.detour == ""))
    | .hysteria2 | .legacyWireGuard | .wireGuard | .awg => ([], outbound.detour == "")
    | .selector children | .urltest children => (children, !children.isEmpty)
    | .dnstt _ | .slipstream _ | .atsLease _ | .other _ _ => ([], false)

/-- What the runtime asks for at a tag. -/
def fallbackNode (manager : String → Option Definition) (tag : String) :
    Option (List String × Bool) :=
  (manager tag).map fun target =>
    match target.options with
    | .naive o => ([], protectedH2 target.detour o)
    | .vless _ | .hysteria2 | .legacyWireGuard | .wireGuard | .awg => ([], true)
    | .selector _ | .urltest _ => (target.dependencies, !target.dependencies.isEmpty)
    | .dnstt _ | .slipstream _ | .atsLease _ | .other _ _ => ([], false)

section collect

variable {byTag : String → Option Definition} {definitions definitions' : Collected}
  {outbound : Definition} {children : List String} {name : String}

/-- A carrier that carries a VLESS leaf of the graph. -/
def CarriesLeaf (byTag : String → Option Definition) (tag : String) : Prop :=
  carries byTag tag = true ∧
    ∃ name leaf, byTag name = some leaf ∧ leaf.options.isVless = true ∧ leaf.detour = tag

/-- **What is collected for a definition**: if it is refused, nothing; else what it names is to be
visited, and nothing is collected before, or the carrier of a leaf. -/
theorem collect_spec (hfound : byTag name = some outbound) (definitions : Collected) :
    ∃ l ok, preflightNode byTag name = some (l, ok) ∧
      (ok = false ∧ collect byTag definitions outbound = .error .scope ∨
        ok = true ∧ ∃ definitions', collect byTag definitions outbound = .ok (definitions', l) ∧
          (definitions' = definitions ∨
            ∃ carrier, CarriesLeaf byTag outbound.detour ∧
              definitions' = (outbound.detour, carrier) :: definitions)) := by
  unfold preflightNode
  rw [hfound, Option.map_some]
  refine ⟨_, _, rfl, ?_⟩
  unfold collect
  cases hopt : outbound.options with
  | vless o =>
    have hleaf : carries byTag outbound.detour = true → CarriesLeaf byTag outbound.detour :=
      fun hc => ⟨hc, name, outbound, hfound, by rw [hopt]; rfl, rfl⟩
    unfold carriedLeaf
    simp only [hopt]
    cases hdetour : byTag outbound.detour with
    | none => grind
    | some carrier =>
      obtain ⟨tag, detour, options⟩ := carrier
      cases options <;> simp [carries, hdetour, Options.isCarrier] at hleaf <;> grind
  | _ => grind

end collect

/-! ## The preparation looks for what is clear -/

section visit

variable {byTag : String → Option Definition} {n : ℕ} {visiting : List String}
  {definitions definitions' : Collected} {name : String}

/-- What was collected is clear, or a carrier that came with its leaf. -/
def Collected.Sound (byTag : String → Option Definition) (definitions : Collected) : Prop :=
  ∀ p ∈ definitions, Clear (preflightNode byTag) p.1 ∨ CarriesLeaf byTag p.1

/-- **No group lists a carrier that also carries a leaf.** -/
def Unlisted (byTag : String → Option Definition) : Prop :=
  ∀ name d, byTag name = some d → ∀ m ∈ d.options.members, ¬CarriesLeaf byTag m

/-- What a node names are the members of a group. -/
theorem mem_members {l : List String} {ok : Bool} {d : Definition} (hfound : byTag name = some d)
    (hnode : preflightNode byTag name = some (l, ok)) : l = d.options.members := by
  unfold preflightNode at hnode
  rw [hfound, Option.map_some] at hnode
  cases hopt : d.options <;> simp_all [Options.members]

variable {f : Collected → String → Except Failure Collected}

/-- One after the other, keeping a property. -/
theorem foldlM_ok {P : Collected → Prop} {Q : String → Prop} :
    ∀ {l : List String} {definitions definitions' : Collected},
      (∀ m ∈ l, ∀ d d', f d m = .ok d' → P d → Q m ∧ P d') →
      l.foldlM f definitions = .ok definitions' → P definitions →
        (∀ m ∈ l, Q m) ∧ P definitions'
  | [], _, _, _, h, hp => by
    cases h
    exact ⟨by simp, hp⟩
  | m :: l, definitions, definitions', hf, h, hp => by
    rw [List.foldlM_cons] at h
    cases hm : f definitions m with
    | error e => simp [hm, bind, Except.bind] at h
    | ok d =>
      rw [hm] at h
      obtain ⟨hq, hp⟩ := hf m List.mem_cons_self _ _ hm hp
      obtain ⟨hl, hp⟩ := foldlM_ok (fun m hm => hf m (List.mem_cons_of_mem _ hm)) h hp
      exact ⟨List.forall_mem_cons.mpr ⟨hq, hl⟩, hp⟩

theorem foldlM_ne_error {e : Failure} :
    ∀ {l : List String} {definitions : Collected}, (∀ m ∈ l, ∀ d, f d m ≠ .error e) →
      l.foldlM f definitions ≠ .error e
  | [], _, _ => by simp [pure, Except.pure]
  | m :: l, definitions, hf => by
    rw [List.foldlM_cons]
    cases hm : f definitions m with
    | error e' =>
      simp only [bind, Except.bind]
      exact fun h => hf m List.mem_cons_self definitions (hm.trans h)
    | ok d => exact foldlM_ne_error fun m hm => hf m (List.mem_cons_of_mem _ hm)

/-- **What a visit accepts is clear.** -/
theorem clear_of_visit (hlist : Unlisted byTag) :
    ∀ {n : ℕ} {visiting : List String} {definitions definitions' : Collected} {name : String},
      visit byTag n visiting definitions name = .ok definitions' → definitions.Sound byTag →
      (definitions.any (·.1 == name) = true → ¬CarriesLeaf byTag name) →
        Clear (preflightNode byTag) name ∧ definitions'.Sound byTag
  | n + 1, visiting, definitions, definitions', name, h, hsound, hname => by
    simp only [visit] at h
    split at h
    · cases h
    · split at h
      · rename_i hdone
        cases h
        obtain ⟨p, hp, hpn⟩ := List.any_eq_true.mp hdone
        obtain rfl : p.1 = name := by simpa using hpn
        exact ⟨(hsound p hp).resolve_right (hname hdone), hsound⟩
      · split at h
        · cases h
        · rename_i outbound hfound
          obtain ⟨l, ok, hnode, hcollect⟩ := collect_spec hfound definitions
          rcases hcollect with ⟨-, hcollect⟩ | ⟨rfl, defs, hcollect, hdefs⟩
          · simp [hcollect] at h
          · simp only [hcollect] at h
            split at h
            · cases h
            · rename_i defs' hfold
              cases h
              have hsound' : Collected.Sound byTag defs := by
                rcases hdefs with rfl | ⟨carrier, hcarries, rfl⟩
                · exact hsound
                · exact List.forall_mem_cons.mpr ⟨.inr hcarries, hsound⟩
              -- a member that was collected did not come with a leaf
              have hmember : ∀ m ∈ l, ¬CarriesLeaf byTag m := fun m hm =>
                hlist name outbound hfound m (mem_members hfound hnode ▸ hm)
              obtain ⟨hl, hsound''⟩ := foldlM_ok (P := Collected.Sound byTag)
                (Q := Clear (preflightNode byTag))
                (fun m hm d d' hd hs => clear_of_visit hlist hd hs fun _ => hmember m hm)
                hfold hsound'
              have hclear : Clear (preflightNode byTag) name := .intro hnode hl
              exact ⟨hclear, List.forall_mem_cons.mpr ⟨.inl hclear, hsound''⟩⟩

/-- **What is clear is not refused**, on a path that it does not lead back to. -/
theorem visit_ne_scope (h : Clear (preflightNode byTag) name) :
    ∀ {n : ℕ} {visiting : List String} {definitions : Collected},
      (∀ v ∈ visiting, ¬Relation.ReflTransGen (Edge (preflightNode byTag)) name v) →
      visit byTag n visiting definitions name ≠ .error .scope := by
  induction h with
  | @intro name l hnode hl ih =>
    intro n visiting definitions hpath
    cases n with
    | zero => simp [visit]
    | succ n =>
      have hnot : name ∉ visiting := fun hn => hpath name hn .refl
      have hclear : Clear (preflightNode byTag) name := .intro hnode hl
      simp only [visit, hnot, if_false]
      split
      · simp
      · split
        · rename_i hmissing
          simp [preflightNode, hmissing] at hnode
        · rename_i outbound hfound
          obtain ⟨l', ok, hnode', hcollect⟩ := collect_spec hfound definitions
          obtain ⟨rfl, rfl⟩ := Prod.mk.inj (Option.some.inj (hnode.symm.trans hnode'))
          obtain ⟨-, defs, hcollect, -⟩ := hcollect.resolve_left (by simp)
          have hfold : l.foldlM (visit byTag n (name :: visiting)) defs ≠ .error .scope := by
            refine foldlM_ne_error fun m hm d => ih m hm fun v hv hmv => ?_
            have hedge : Edge (preflightNode byTag) name m := ⟨l, true, hnode, hm⟩
            rcases List.mem_cons.mp hv with rfl | hv
            · exact hclear.acyclic (Relation.TransGen.head' hedge hmv)
            · exact hpath v hv (hmv.head hedge)
          simp only [hcollect]
          split
          · rename_i e he
            exact fun heq => hfold (he.trans (by simpa using heq))
          · simp

/-- **A visit over finitely many definitions ends.** -/
theorem visit_ne_fuel {S : Finset String} (hS : ∀ a, byTag a ≠ none → a ∈ S) :
    ∀ {n : ℕ} {visiting : List String} {definitions : Collected} {name : String},
      (S \ visiting.toFinset).card < n →
        visit byTag n visiting definitions name ≠ .error .fuel
  | n + 1, visiting, definitions, name, hn => by
    simp only [visit]
    split
    · simp
    · rename_i hnot
      split
      · simp
      · split
        · simp
        · rename_i outbound hfound
          have hfewer : (S \ (name :: visiting).toFinset).card < n :=
            Nat.lt_of_lt_of_le (card_sdiff_cons_lt (hS name (by simp [hfound])) hnot)
              (Nat.le_of_lt_succ hn)
          obtain ⟨l, ok, -, hcollect⟩ := collect_spec hfound definitions
          rcases hcollect with ⟨-, hcollect⟩ | ⟨-, defs, hcollect, -⟩
          · simp [hcollect]
          · have hfold : l.foldlM (visit byTag n (name :: visiting)) defs ≠ .error .fuel :=
              foldlM_ne_error fun m _ d => visit_ne_fuel hS hfewer
            simp only [hcollect]
            split
            · rename_i e he
              exact fun heq => hfold (he.trans (by simpa using heq))
            · simp

end visit

/-! ## The runtime is a walk -/

section runtime

variable {byTag : String → Option Definition}

/-- **The runtime follows a walk**, as far as its fuel takes it. -/
theorem fallbackFound_of_walk (htag : ∀ tag d, byTag tag = some d → d.tag = tag) :
    ∀ (n : ℕ) (seen : List String) (tag : String) (r : Bool),
      walk (fallbackNode byTag) n seen tag = some r → fallbackFound byTag n seen tag = some r
  | 0, _, _, _, h => by cases h
  | n + 1, seen, tag, r, h => by
    have ih := fallbackFound_of_walk htag n (tag :: seen)
    simp only [walk, fallbackNode] at h
    unfold fallbackFound
    cases hfound : byTag tag with
    | none => simpa [hfound] using h
    | some target =>
      obtain rfl : target.tag = tag := htag tag target hfound
      simp only [hfound, Option.map_some] at h
      simp only [protectedFallback]
      split at h
      · rename_i hseen
        simpa [hseen] using h
      · rename_i hseen
        rw [if_neg hseen]
        cases hopt : target.options with
        | selector l | urltest l =>
          simp only [hopt] at h
          by_cases hnil : target.dependencies = []
          · simpa [hnil, every] using h
          · rw [if_neg hnil]
            change every (fallbackFound byTag n (target.tag :: seen)) target.dependencies = some r
            refine every_mono (fun a _ r => ih a r) ?_
            simp only [List.isEmpty_eq_false_iff.mpr hnil, Bool.not_false] at h
            split at h
            · cases h
              assumption
            · exact h
        | _ => simpa [hopt, every] using h

end runtime

/-! ## The graph of a profile -/

section graph

variable {all : List Definition} {tag : String} {n : ℕ}

theorem fallbackNode_mem {a : String} (h : fallbackNode (lookup all) a ≠ none) : a ∈ tags all := by
  cases hfound : lookup all a with
  | none => simp [fallbackNode, hfound] at h
  | some d => exact mem_tags hfound

theorem fallbackFound_of_clear (hn : all.length < n) (h : Clear (fallbackNode (lookup all)) tag) :
    fallbackFound (lookup all) n [] tag = some true :=
  fallbackFound_of_walk (fun _ _ hd => (mem_of_lookup hd).2) n [] tag true
    ((walk_eq_true_iff (fun _ => fallbackNode_mem) (card_tags_lt hn)).mpr h)

theorem fallbackFound_of_not_clear (hn : all.length < n)
    (h : ¬Clear (fallbackNode (lookup all)) tag) :
    fallbackFound (lookup all) n [] tag = some false :=
  fallbackFound_of_walk (fun _ _ hd => (mem_of_lookup hd).2) n [] tag false
    ((walk_eq_false_iff (fun _ => fallbackNode_mem) (card_tags_lt hn)).mpr h)

/-- The runtime asks less of the leaves. -/
theorem clear_of_preflight (h : Clear (preflightNode (lookup all)) tag) :
    Clear (fallbackNode (lookup all)) tag := by
  refine h.mono fun a l hnode => ?_
  unfold preflightNode at hnode
  unfold fallbackNode
  obtain ⟨d, hfound, hd⟩ := Option.map_eq_some_iff.mp hnode
  rw [hfound, Option.map_some]
  cases hopt : d.options <;> simp_all [Definition.dependencies]

/-- Every tag has one definition, and none is empty. -/
def Indexed (all : List Definition) : Prop :=
  all.any (·.tag == "") = false ∧ (all.map (·.tag)).Nodup

theorem preflightAccepts_of_not_indexed {outbounds endpoints : List Definition}
    (h : ¬Indexed (outbounds ++ endpoints)) : preflightAccepts outbounds endpoints tag = false := by
  unfold preflightAccepts fallbackDefinitions
  simp only
  split
  · rfl
  · rename_i hgood
    simp only [not_or, Bool.not_eq_true, not_not] at hgood
    exact absurd hgood h

/-- **Where no group lists a carrier with a leaf, the preparation accepts what is clear.** -/
theorem preflightAccepts_iff {outbounds endpoints : List Definition}
    (hlist : Unlisted (lookup (outbounds ++ endpoints))) :
    preflightAccepts outbounds endpoints tag = true ↔
      Indexed (outbounds ++ endpoints) ∧
        Clear (preflightNode (lookup (outbounds ++ endpoints))) tag := by
  by_cases hl : Indexed (outbounds ++ endpoints)
  · rw [preflightAccepts, fallbackDefinitions, if_neg (by simpa [Indexed] using hl)]
    have hfuel : visit (lookup (outbounds ++ endpoints)) ((outbounds ++ endpoints).length + 1) []
        [] tag ≠ .error .fuel :=
      visit_ne_fuel (S := tags (outbounds ++ endpoints)) (fun a ha => by
        obtain ⟨d, hd⟩ := Option.ne_none_iff_exists'.mp ha
        exact mem_tags hd) (by
        rw [List.toFinset_nil, Finset.sdiff_empty]
        exact card_tags_lt (Nat.lt_succ_self _))
    cases hvisit : visit (lookup (outbounds ++ endpoints)) ((outbounds ++ endpoints).length + 1) []
        [] tag with
    | ok definitions =>
      have hclear := (clear_of_visit hlist hvisit (by simp [Collected.Sound]) (by simp)).1
      exact ⟨fun _ => ⟨hl, hclear⟩, fun _ => rfl⟩
    | error e =>
      refine ⟨fun h => by simp [Except.isOk, Except.toBool] at h, fun h => ?_⟩
      cases e with
      | scope => exact absurd hvisit (visit_ne_scope h.2 (by simp))
      | fuel => exact absurd hvisit hfuel
  · rw [preflightAccepts_of_not_indexed hl]
    exact ⟨fun h => by simp at h, fun h => absurd h.1 hl⟩

/-! ## Orders -/

/-- Two definitions that differ at most in the order of their members. -/
def SameUpToOrder (d d' : Definition) : Prop :=
  d'.tag = d.tag ∧ d'.detour = d.detour ∧
    (d'.options = d.options ∨
      (∃ l l', d.options = .selector l ∧ d'.options = .selector l' ∧ l.Perm l') ∨
      ∃ l l', d.options = .urltest l ∧ d'.options = .urltest l' ∧ l.Perm l')

theorem SameUpToOrder.symm {d d' : Definition} (h : SameUpToOrder d d') : SameUpToOrder d' d := by
  obtain ⟨htag, hdetour, hopt⟩ := h
  refine ⟨htag.symm, hdetour.symm, ?_⟩
  rcases hopt with h | ⟨l, l', h, h', hp⟩ | ⟨l, l', h, h', hp⟩
  · exact .inl h.symm
  · exact .inr (.inl ⟨l', l, h', h, hp.symm⟩)
  · exact .inr (.inr ⟨l', l, h', h, hp.symm⟩)

theorem SameUpToOrder.members {d d' : Definition} (h : SameUpToOrder d d') :
    d.options.members.Perm d'.options.members := by
  rcases h.2.2 with h | ⟨l, l', h, h', hp⟩ | ⟨l, l', h, h', hp⟩
  · rw [h]
  · rw [h, h']
    exact hp
  · rw [h, h']
    exact hp

/-- The kinds that are told apart are those of both. -/
theorem SameUpToOrder.kinds {d d' : Definition} (h : SameUpToOrder d d') :
    d'.options.isVless = d.options.isVless ∧ d'.options.isCarrier = d.options.isCarrier := by
  rcases h.2.2 with h | ⟨l, l', h, h', -⟩ | ⟨l, l', h, h', -⟩ <;> rw [h] <;>
    first
      | exact ⟨rfl, rfl⟩
      | rw [h']; exact ⟨rfl, rfl⟩

/-- **Two graphs that are the same up to the order of members.** -/
structure Alike (byTag byTag' : String → Option Definition) : Prop where
  found : ∀ {t d}, byTag t = some d → ∃ d', byTag' t = some d' ∧ SameUpToOrder d d'
  found' : ∀ {t d}, byTag' t = some d → ∃ d', byTag t = some d' ∧ SameUpToOrder d d'

section alike

variable {byTag byTag' : String → Option Definition} {t : String}

theorem Alike.symm (h : Alike byTag byTag') : Alike byTag' byTag := ⟨h.found', h.found⟩

theorem Alike.carries (h : Alike byTag byTag') (hc : carries byTag t = true) :
    Outbounds.carries byTag' t = true := by
  obtain ⟨carrier, hcarrier, hkind⟩ := (Option.any_eq_true _ _).mp hc
  obtain ⟨carrier', hcarrier', hsame⟩ := h.found hcarrier
  exact (Option.any_eq_true _ _).mpr ⟨carrier', hcarrier', hsame.kinds.2.trans hkind⟩

theorem Alike.carriesLeaf (h : Alike byTag byTag') (hc : CarriesLeaf byTag t) :
    CarriesLeaf byTag' t := by
  obtain ⟨hcarries, name, leaf, hleaf, hvless, hdetour⟩ := hc
  obtain ⟨leaf', hleaf', hsame⟩ := h.found hleaf
  exact ⟨h.carries hcarries, name, leaf', hleaf', hsame.kinds.1.trans hvless,
    hsame.2.1.trans hdetour⟩

theorem Alike.unlisted (h : Alike byTag byTag') (hlist : Unlisted byTag) : Unlisted byTag' := by
  intro name d' hd' m hm hc
  obtain ⟨d, hd, hsame⟩ := h.found' hd'
  exact hlist name d hd m (hsame.members.subset hm) (h.symm.carriesLeaf hc)

/-- The verdict on a carried leaf is that of both. -/
theorem Alike.carriedLeaf (h : Alike byTag byTag') {leaf leaf' : Definition} (o : VlessOptions)
    (hdetour : leaf'.detour = leaf.detour) (hopt : leaf.options = .vless o)
    (hopt' : leaf'.options = .vless o) :
    Outbounds.carriedLeaf byTag' leaf' = Outbounds.carriedLeaf byTag leaf := by
  unfold Outbounds.carriedLeaf
  simp only [hopt, hopt', hdetour]
  cases hd : byTag leaf.detour with
  | none =>
    cases hd' : byTag' leaf.detour with
    | none => rfl
    | some d' =>
      obtain ⟨d, hd'', -⟩ := h.found' hd'
      cases hd.symm.trans hd''
  | some d =>
    obtain ⟨d', hd', -, -, hsame⟩ := h.found hd
    rw [hd']
    obtain ⟨tag, detour, options⟩ := d
    obtain ⟨tag', detour', options'⟩ := d'
    rcases hsame with h | ⟨l, l', h, h', -⟩ | ⟨l, l', h, h', -⟩
    · obtain rfl : options' = options := h
      cases options' <;> rfl
    · obtain rfl : options = .selector l := h
      obtain rfl : options' = .selector l' := h'
      rfl
    · obtain rfl : options = .urltest l := h
      obtain rfl : options' = .urltest l' := h'
      rfl

/-- **What is clear in one order is clear in the other.** -/
theorem Alike.clear (h : Alike byTag byTag') (hclear : Clear (preflightNode byTag) t) :
    Clear (preflightNode byTag') t := by
  refine hclear.mono fun a l hnode => ?_
  unfold preflightNode at hnode
  obtain ⟨d, hd, hnode⟩ := Option.map_eq_some_iff.mp hnode
  obtain ⟨d', hd', htag, hdetour, hsame⟩ := h.found hd
  unfold preflightNode
  rw [hd', Option.map_some]
  rcases hsame with hopt | ⟨m, m', hm, hm', hp⟩ | ⟨m, m', hm, hm', hp⟩
  · refine ⟨l, ?_, fun _ => id⟩
    rw [← hnode, hopt, hdetour]
    cases hvless : d.options with
    | vless o => simp only [h.carriedLeaf o hdetour hvless (hopt.trans hvless)]
    | _ => rfl
  · simp only [hm, Prod.mk.injEq] at hnode
    obtain ⟨rfl, hne⟩ := hnode
    exact ⟨m', by simp only [hm', ← hp.isEmpty_eq, hne], fun b hb => hp.symm.subset hb⟩
  · simp only [hm, Prod.mk.injEq] at hnode
    obtain ⟨rfl, hne⟩ := hnode
    exact ⟨m', by simp only [hm', ← hp.isEmpty_eq, hne], fun b hb => hp.symm.subset hb⟩

end alike

/-- **The same definitions, in another order**, and the members of groups as well. -/
def Reordered (l l' : List Definition) : Prop :=
  ∃ m, l.Perm m ∧ List.Forall₂ SameUpToOrder m l'

theorem Reordered.symm {l l' : List Definition} (h : Reordered l l') : Reordered l' l := by
  obtain ⟨m, hperm, hsame⟩ := h
  obtain ⟨m', hsame', hperm'⟩ := List.perm_comp_forall₂ hperm hsame
  exact ⟨m', hperm'.symm, hsame'.flip.imp fun _ _ => SameUpToOrder.symm⟩

theorem Reordered.append {l l' k k' : List Definition} (h : Reordered l l') (h' : Reordered k k') :
    Reordered (l ++ k) (l' ++ k') := by
  obtain ⟨m, hperm, hsame⟩ := h
  obtain ⟨m', hperm', hsame'⟩ := h'
  exact ⟨m ++ m', hperm.append hperm', List.rel_append hsame hsame'⟩

theorem Reordered.tags {l l' : List Definition} (h : Reordered l l') :
    (l.map (·.tag)).Perm (l'.map (·.tag)) := by
  obtain ⟨m, hperm, hsame⟩ := h
  have htags : m.map (·.tag) = l'.map (·.tag) := by
    clear hperm
    induction hsame with
    | nil => rfl
    | cons hd _ ih => simp [hd.1, ih]
  exact htags ▸ hperm.map _

theorem Reordered.indexed {l l' : List Definition} (h : Reordered l l') (hl : Indexed l) :
    Indexed l' := by
  refine ⟨?_, h.tags.nodup_iff.mp hl.2⟩
  have hempty : "" ∉ l.map (·.tag) := by simpa using hl.1
  simpa using fun hmem => hempty (h.tags.symm.subset hmem)

theorem lookup_of_mem {l : List Definition} {d : Definition} (h : (l.map (·.tag)).Nodup)
    (hd : d ∈ l) : lookup l d.tag = some d := by
  induction l with
  | nil => cases hd
  | cons d' l ih =>
    obtain ⟨hnot, hnodup⟩ := List.nodup_cons.mp h
    unfold lookup
    rcases List.mem_cons.mp hd with rfl | hd
    · simp
    · have hne : d'.tag ≠ d.tag := fun heq => hnot (List.mem_map.mpr ⟨d, hd, heq.symm⟩)
      rw [List.find?_cons_of_neg (by simpa using hne)]
      exact ih hnodup hd

theorem Reordered.found {l l' : List Definition} (h : Reordered l l') (hl : Indexed l) {t : String}
    {d : Definition} (hd : lookup l t = some d) :
    ∃ d', lookup l' t = some d' ∧ SameUpToOrder d d' := by
  have hnodup := (h.indexed hl).2
  obtain ⟨m, hperm, hsame⟩ := h
  obtain ⟨hmem, rfl⟩ := mem_of_lookup hd
  obtain ⟨d', hmem', hsame'⟩ : ∃ d' ∈ l', SameUpToOrder d d' := by
    have hm := hperm.subset hmem
    clear hd hperm hmem
    induction hsame with
    | nil => cases hm
    | cons hd hrest ih =>
      rcases List.mem_cons.mp hm with rfl | hm
      · exact ⟨_, List.mem_cons_self, hd⟩
      · obtain ⟨d', hd', hsame⟩ := ih (List.nodup_cons.mp hnodup).2 hm
        exact ⟨d', List.mem_cons_of_mem _ hd', hsame⟩
  exact ⟨d', hsame'.1 ▸ lookup_of_mem hnodup hmem', hsame'⟩

theorem Reordered.alike {l l' : List Definition} (h : Reordered l l') (hl : Indexed l) :
    Alike (lookup l) (lookup l') :=
  ⟨h.found hl, h.symm.found (h.indexed hl)⟩

/-- A VLESS leaf that a tunnel carries. -/
def sampleLeaf : Definition :=
  ⟨"leaf", "tunnel", .vless ⟨"uuid", "127.0.0.1", 12543, "", ["tcp"], none, false, false⟩⟩

def sampleCarrier : Definition := ⟨"tunnel", "", .dnstt ⟨["tcp"], true⟩⟩

/-- A group with these members. -/
def sampleGroup (members : List String) : Definition := ⟨"group", "", .selector members⟩

end graph

end PokrovCore.TelegramWs
