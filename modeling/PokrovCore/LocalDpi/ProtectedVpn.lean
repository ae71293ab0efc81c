import PokrovCore.Foundations.Walk
import PokrovCore.Outbounds.Definitions

/-!
# LocalDpi/ProtectedVpn — the preparation and the runtime ask for the same protected VPN

The Windows preparation walks the definitions of a profile, before anything is built; a started
holder walks the built outbounds.  Both are walks in the sense of `Walk`, over nodes that differ in
what they ask of a leaf and in the order they ask: whatever the first accepts, the second does.
-/

namespace PokrovCore.LocalDpi

open Outbounds Walk

/-! ## The preparation -/

/-- **`windowsDpiProtectedVPN`**, on fuel. -/
def windowsDpiProtectedVPN (byTag : String → Option Definition) :
    ℕ → List String → String → Option Bool
  | 0, _, _ => none
  | n + 1, visiting, tag =>
    match byTag tag with
    | none => some false
    | some outbound =>
      if tag ∈ visiting then some false
      else
        let own : Option Bool :=
          match outbound.options with
          | .naive o => some (protectedH2 outbound.detour o)
          | .vless o => some o.secured
          | .hysteria2 | .legacyWireGuard | .wireGuard | .awg => some true
          | .atsLease upstreamTag => windowsDpiProtectedVPN byTag n (tag :: visiting) upstreamTag
          | .selector children | .urltest children =>
            if children = [] then some false
            else every (windowsDpiProtectedVPN byTag n (tag :: visiting)) children
          | .dnstt _ | .slipstream _ | .other _ _ => some false
        if outbound.detour = "" then own
        else
          match carriedLeaf byTag outbound with
          | some verdict => some verdict
          | none =>
            match windowsDpiProtectedVPN byTag n (tag :: visiting) outbound.detour with
            | some true => own
            | r => r

/-- What the preparation asks for at a tag, below a detour that has passed. -/
def windowsOwn (outbound : Definition) : List String × Bool :=
  match outbound.options with
  | .naive o => ([], protectedH2 outbound.detour o)
  | .vless o => ([], o.secured)
  | .hysteria2 | .legacyWireGuard | .wireGuard | .awg => ([], true)
  | .atsLease upstreamTag => ([upstreamTag], true)
  | .selector children | .urltest children => (children, !children.isEmpty)
  | .dnstt _ | .slipstream _ | .other _ _ => ([], false)

/-- What the preparation asks for at a tag. -/
def windowsNode (byTag : String → Option Definition) (tag : String) :
    Option (List String × Bool) :=
  (byTag tag).map fun outbound =>
    if outbound.detour = "" then windowsOwn outbound
    else
      match carriedLeaf byTag outbound with
      | some verdict => ([], verdict)
      | none => (outbound.detour :: (windowsOwn outbound).1, (windowsOwn outbound).2)

/-! ## The runtime -/

/-- **`protectedFallback`**, on fuel. -/
def protectedFallback (manager : String → Option Definition) :
    ℕ → List String → Definition → Option Bool
  | 0, _, _ => none
  | n + 1, seen, target =>
    if target.tag ∈ seen then some false
    else
      let below := every (fun tag =>
        match manager tag with
        | none => some false
        | some child =>
          -- the preparation has checked the options of a carrier
          if target.options.isVless && child.options.isCarrier then some true
          else protectedFallback manager n (target.tag :: seen) child) target.dependencies
      match target.options with
      | .naive o => some (protectedH2 target.detour o)
      | .vless _ | .hysteria2 | .legacyWireGuard | .wireGuard | .awg => below
      | .selector _ | .urltest _ | .atsLease _ =>
        if target.dependencies = [] then some false else below
      | .dnstt _ | .slipstream _ | .other _ _ => some false

/-- The outbound of a tag is found and protected: what `Start` asks for. -/
def fallbackFound (manager : String → Option Definition) (n : ℕ) (seen : List String)
    (tag : String) : Option Bool :=
  match manager tag with
  | none => some false
  | some target => protectedFallback manager n seen target

/-- What the runtime asks for at a tag. -/
def fallbackNode (manager : String → Option Definition) (tag : String) :
    Option (List String × Bool) :=
  (manager tag).map fun target =>
    match target.options with
    | .naive o => ([], protectedH2 target.detour o)
    | .vless _ => (target.dependencies.filter (!carries manager ·), true)
    | .hysteria2 | .legacyWireGuard | .wireGuard | .awg => (target.dependencies, true)
    | .selector _ | .urltest _ | .atsLease _ => (target.dependencies, !target.dependencies.isEmpty)
    | .dnstt _ | .slipstream _ | .other _ _ => ([], false)

/-! ## Both are walks -/

section walks

variable {byTag : String → Option Definition}

/-- What is asked for below a detour, as a walk asks it. -/
theorem windowsOwn_eq (f : String → Option Bool) (outbound : Definition) :
    (match outbound.options with
      | .naive o => some (protectedH2 outbound.detour o)
      | .vless o => some o.secured
      | .hysteria2 | .legacyWireGuard | .wireGuard | .awg => some true
      | .atsLease upstreamTag => f upstreamTag
      | .selector children | .urltest children =>
        if children = [] then some false else every f children
      | .dnstt _ | .slipstream _ | .other _ _ => some false) =
      match every f (windowsOwn outbound).1 with
      | some true => some (windowsOwn outbound).2
      | r => r := by
  unfold windowsOwn
  cases outbound.options with
  | atsLease upstreamTag =>
    simp only [every]
    cases f upstreamTag with
    | none => rfl
    | some r => cases r <;> rfl
  | selector children | urltest children =>
    cases children with
    | nil => rfl
    | cons child children =>
      simp only [reduceCtorEq, if_false, List.isEmpty_cons, Bool.not_false]
      split
      · assumption
      · rfl
  | _ => rfl

/-- **The preparation is a walk.** -/
theorem windowsDpiProtectedVPN_eq_walk : ∀ (n : ℕ) (visiting : List String) (tag : String),
    windowsDpiProtectedVPN byTag n visiting tag = walk (windowsNode byTag) n visiting tag
  | 0, _, _ => rfl
  | n + 1, visiting, tag => by
    have hrec : windowsDpiProtectedVPN byTag n (tag :: visiting) =
        walk (windowsNode byTag) n (tag :: visiting) :=
      funext (windowsDpiProtectedVPN_eq_walk n (tag :: visiting))
    simp only [windowsDpiProtectedVPN, walk, hrec, windowsOwn_eq]
    cases hfound : byTag tag with
    | none => simp [windowsNode, hfound]
    | some outbound =>
      simp only [windowsNode, hfound, Option.map_some]
      split
      · rfl
      · split
        · rfl
        · cases carriedLeaf byTag outbound with
          | some verdict => rfl
          | none =>
            simp only [every]
            cases walk (windowsNode byTag) n (tag :: visiting) outbound.detour with
            | none => rfl
            | some r => cases r <;> rfl

/-- What the runtime asks of the dependencies: of a VLESS leaf, those that carry nothing. -/
theorem below_eq (n : ℕ) (seen : List String) (vless : Bool) (l : List String) :
    every (fun tag =>
        match byTag tag with
        | none => some false
        | some child =>
          if vless && child.options.isCarrier then some true
          else protectedFallback byTag n seen child) l =
      every (fallbackFound byTag n seen) (if vless then l.filter (!carries byTag ·) else l) := by
  cases vless with
  | false => rfl
  | true =>
    simp only [Bool.true_and, if_true]
    rw [← every_filter]
    congr 1
    funext tag
    unfold carries fallbackFound
    cases byTag tag with
    | none => rfl
    | some child => rfl

/-- **The runtime follows a walk**, as far as its fuel takes it. -/
theorem fallbackFound_of_walk (htag : ∀ tag d, byTag tag = some d → d.tag = tag) :
    ∀ (n : ℕ) (seen : List String) (tag : String) (r : Bool),
      walk (fallbackNode byTag) n seen tag = some r → fallbackFound byTag n seen tag = some r
  | 0, _, _, _, h => by cases h
  | n + 1, seen, tag, r, h => by
    have ih := fallbackFound_of_walk htag n (tag :: seen)
    -- the verdict on what a node names, and then its own
    have hnode : ∀ (l : List String) (ok : Bool),
        (match every (walk (fallbackNode byTag) n (tag :: seen)) l with
          | some true => some ok
          | r => r) = some r →
        (match every (fallbackFound byTag n (tag :: seen)) l with
          | some true => some ok
          | r => r) = some r := by
      intro l ok hl
      cases hevery : every (walk (fallbackNode byTag) n (tag :: seen)) l with
      | none => simp [hevery] at hl
      | some b =>
        rw [hevery] at hl
        rw [every_mono (fun a _ r => ih a r) hevery]
        exact hl
    have hpass : ∀ o : Option Bool, (match o with
        | some true => some true
        | r => r) = o := fun o => by cases o with
      | none => rfl
      | some b => cases b <;> rfl
    simp only [walk, fallbackNode] at h
    unfold fallbackFound
    cases hfound : byTag tag with
    | none => simpa [hfound] using h
    | some target =>
      obtain rfl : target.tag = tag := htag tag target hfound
      simp only [hfound, Option.map_some] at h
      simp only [protectedFallback, below_eq]
      split at h
      · rename_i hseen
        simpa [hseen] using h
      · rename_i hseen
        rw [if_neg hseen]
        cases hopt : target.options with
        | naive o | dnstt o | slipstream o | other kind hk => simpa [hopt, every] using h
        | vless o | hysteria2 | legacyWireGuard | wireGuard | awg =>
          simp only [hopt] at h
          have hgo := hnode _ _ h
          rw [hpass] at hgo
          exact hgo
        | selector l | urltest l | atsLease l =>
          simp only [hopt] at h
          have hgo := hnode _ _ h
          by_cases hnil : target.dependencies = []
          · simpa [hnil, every] using hgo
          · simp only [List.isEmpty_eq_false_iff.mpr hnil, Bool.not_false, hpass] at hgo
            simp only [if_neg hnil]
            exact hgo

end walks

/-! ## The graph of a profile -/

section graph

variable {definitions : List Definition} {tag a b : String} {n : ℕ}

theorem windowsNode_mem (h : windowsNode (lookup definitions) tag ≠ none) :
    tag ∈ tags definitions := by
  cases hfound : lookup definitions tag with
  | none => simp [windowsNode, hfound] at h
  | some d => exact mem_tags hfound

theorem fallbackNode_mem (h : fallbackNode (lookup definitions) tag ≠ none) :
    tag ∈ tags definitions := by
  cases hfound : lookup definitions tag with
  | none => simp [fallbackNode, hfound] at h
  | some d => exact mem_tags hfound

/-- With fuel for every definition, the preparation accepts what is clear to it. -/
theorem windows_eq_true_iff (hn : definitions.length < n) :
    windowsDpiProtectedVPN (lookup definitions) n [] tag = some true ↔
      Clear (windowsNode (lookup definitions)) tag := by
  rw [windowsDpiProtectedVPN_eq_walk]
  exact walk_eq_true_iff (fun _ => windowsNode_mem) (card_tags_lt hn)

theorem windows_eq_false_iff (hn : definitions.length < n) :
    windowsDpiProtectedVPN (lookup definitions) n [] tag = some false ↔
      ¬Clear (windowsNode (lookup definitions)) tag := by
  rw [windowsDpiProtectedVPN_eq_walk]
  exact walk_eq_false_iff (fun _ => windowsNode_mem) (card_tags_lt hn)

theorem fallbackFound_of_clear (hn : definitions.length < n)
    (h : Clear (fallbackNode (lookup definitions)) tag) :
    fallbackFound (lookup definitions) n [] tag = some true :=
  fallbackFound_of_walk (fun _ _ hd => (mem_of_lookup hd).2) n [] tag true
    ((walk_eq_true_iff (fun _ => fallbackNode_mem) (card_tags_lt hn)).mpr h)

theorem fallbackFound_of_not_clear (hn : definitions.length < n)
    (h : ¬Clear (fallbackNode (lookup definitions)) tag) :
    fallbackFound (lookup definitions) n [] tag = some false :=
  fallbackFound_of_walk (fun _ _ hd => (mem_of_lookup hd).2) n [] tag false
    ((walk_eq_false_iff (fun _ => fallbackNode_mem) (card_tags_lt hn)).mpr h)

/-- **What the preparation asks for, the runtime asks for**: the leaves less, and no tag more. -/
theorem clear_of_windows (h : Clear (windowsNode (lookup definitions)) tag) :
    Clear (fallbackNode (lookup definitions)) tag := by
  refine h.mono fun a l hnode => ?_
  unfold windowsNode at hnode
  unfold fallbackNode
  obtain ⟨d, hfound, hd⟩ := Option.map_eq_some_iff.mp hnode
  rw [hfound, Option.map_some]
  have hcarried := carriedLeaf_isSome (lookup definitions) d
  split at hd
  · rename_i hdetour
    cases hopt : d.options <;> simp_all [windowsOwn, Definition.dependencies, Options.isVless]
    grind
  · rename_i hdetour
    cases hleaf : carriedLeaf (lookup definitions) d with
    | some verdict =>
      -- a carrier is the one dependency of its leaf, and is not looked at
      rw [hleaf] at hd hcarried
      obtain ⟨hvless, hcarries⟩ := Bool.and_eq_true_iff.mp hcarried.symm
      cases hopt : d.options <;> simp_all [Definition.dependencies, Options.isVless]
    | none =>
      rw [hleaf] at hd hcarried
      cases hopt : d.options <;>
        simp_all [windowsOwn, Definition.dependencies, Options.isVless] <;> grind

/-- **A built outbound depends on another**; a carrier behind a VLESS leaf is not looked at. -/
def DependsOn (definitions : List Definition) (a b : String) : Prop :=
  ∃ d, lookup definitions a = some d ∧ b ∈ d.dependencies ∧
    ¬(d.options.isVless = true ∧ carries (lookup definitions) b = true)

/-- The kinds a protected VPN may be made of. -/
def protectedKind : Options → Bool
  | .dnstt _ | .slipstream _ | .other _ _ => false
  | _ => true

/-- What no protected VPN leads to: a tag that is missing, a kind that is not protected, or a tag
that depends on itself. -/
def Unprotected (definitions : List Definition) (b : String) : Prop :=
  lookup definitions b = none ∨
    (∃ d, lookup definitions b = some d ∧ protectedKind d.options = false) ∨
    Relation.TransGen (DependsOn definitions) b b

/-- The runtime looks at every dependency of an outbound it accepts. -/
theorem edge_of_dependsOn (h : Clear (fallbackNode (lookup definitions)) a)
    (hab : DependsOn definitions a b) : Edge (fallbackNode (lookup definitions)) a b := by
  obtain ⟨d, hfound, hb, hnot⟩ := hab
  obtain ⟨l, hnode, -⟩ := h.inv
  refine ⟨l, true, hnode, ?_⟩
  unfold fallbackNode at hnode
  rw [hfound, Option.map_some] at hnode
  cases hopt : d.options with
  | naive o =>
    -- a protected Naive leaf depends on nothing
    simp only [hopt, Option.some.injEq, Prod.mk.injEq] at hnode
    have hdetour := detour_of_protectedH2 hnode.2
    simp [Definition.dependencies, hopt, hdetour] at hb
  | vless o =>
    simp only [hopt, Option.some.injEq, Prod.mk.injEq] at hnode
    rw [← hnode.1, List.mem_filter]
    simp only [hopt, Options.isVless, true_and] at hnot
    exact ⟨hb, by simpa using hnot⟩
  | dnstt o | slipstream o | other kind hk => simp [hopt] at hnode
  | _ =>
    simp only [hopt, Option.some.injEq, Prod.mk.injEq] at hnode
    exact hnode.1 ▸ hb

theorem clear_of_dependsOn (h : Clear (fallbackNode (lookup definitions)) a)
    (hab : Relation.ReflTransGen (DependsOn definitions) a b) :
    Clear (fallbackNode (lookup definitions)) b := by
  induction hab with
  | refl => exact h
  | tail _ hbc ih => exact ih.edge (edge_of_dependsOn ih hbc)

/-- A cycle of dependencies below what is clear is a cycle of the walk. -/
theorem transGen_edge (h : Clear (fallbackNode (lookup definitions)) a)
    (hab : Relation.TransGen (DependsOn definitions) a b) :
    Relation.TransGen (Edge (fallbackNode (lookup definitions))) a b := by
  induction hab with
  | single hab => exact .single (edge_of_dependsOn h hab)
  | tail hab hbc ih =>
    exact ih.tail (edge_of_dependsOn (clear_of_dependsOn h hab.to_reflTransGen) hbc)

/-- **Nothing unprotected is clear.** -/
theorem not_clear_of_unprotected (hab : Relation.ReflTransGen (DependsOn definitions) a b)
    (hb : Unprotected definitions b) : ¬Clear (fallbackNode (lookup definitions)) a := by
  intro h
  have hclear := clear_of_dependsOn h hab
  rcases hb with hmissing | ⟨d, hfound, hkind⟩ | hcycle
  · obtain ⟨l, hnode, -⟩ := hclear.inv
    simp [fallbackNode, hmissing] at hnode
  · obtain ⟨l, hnode, -⟩ := hclear.inv
    unfold fallbackNode at hnode
    rw [hfound, Option.map_some] at hnode
    cases hopt : d.options <;> simp_all [protectedKind]
  · exact hclear.acyclic (transGen_edge hclear hcycle)

/-- **The preparation of a protected VPN is sound for the runtime.**  On every graph of definitions
and for every tag: the preparation ends, with a verdict that more fuel does not change, and so does
the runtime; what the preparation accepts, the runtime finds and accepts; and both refuse a tag that
leads, by dependencies other than the carrier of a VLESS leaf, to a tag that is missing, to a kind
that is not protected, or to a cycle. -/
theorem preparation_sound (definitions : List Definition) (tag : String) :
    (∃ r, ∀ n, definitions.length < n →
      windowsDpiProtectedVPN (lookup definitions) n [] tag = some r) ∧
    (∃ r, ∀ n, definitions.length < n → fallbackFound (lookup definitions) n [] tag = some r) ∧
    (∀ n, definitions.length < n →
      windowsDpiProtectedVPN (lookup definitions) n [] tag = some true →
        ∃ target, lookup definitions tag = some target ∧
          protectedFallback (lookup definitions) n [] target = some true) ∧
    ∀ b, Relation.ReflTransGen (DependsOn definitions) tag b → Unprotected definitions b →
      ∀ n, definitions.length < n →
        windowsDpiProtectedVPN (lookup definitions) n [] tag = some false ∧
          fallbackFound (lookup definitions) n [] tag = some false := by
  refine ⟨?_, ?_, fun n hn haccept => ?_, fun b hb hbad n hn => ?_⟩
  · by_cases hclear : Clear (windowsNode (lookup definitions)) tag
    · exact ⟨true, fun n hn => (windows_eq_true_iff hn).mpr hclear⟩
    · exact ⟨false, fun n hn => (windows_eq_false_iff hn).mpr hclear⟩
  · by_cases hclear : Clear (fallbackNode (lookup definitions)) tag
    · exact ⟨true, fun n hn => fallbackFound_of_clear hn hclear⟩
    · exact ⟨false, fun n hn => fallbackFound_of_not_clear hn hclear⟩
  · have hfound := fallbackFound_of_clear hn
      (clear_of_windows ((windows_eq_true_iff hn).mp haccept))
    unfold fallbackFound at hfound
    cases htarget : lookup definitions tag with
    | none => simp [htarget] at hfound
    | some target => exact ⟨target, rfl, by simpa [htarget] using hfound⟩
  · have hnot := not_clear_of_unprotected hb hbad
    exact ⟨(windows_eq_false_iff hn).mpr (mt clear_of_windows hnot),
      fallbackFound_of_not_clear hn hnot⟩

end graph

end PokrovCore.LocalDpi
