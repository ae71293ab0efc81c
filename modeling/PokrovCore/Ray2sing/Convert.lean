import Mathlib.Data.List.Nodup
import Mathlib.Algebra.GroupWithZero.Nat
import Mathlib.Logic.Relation

/-!
# Ray2sing/Convert — links become outbounds and endpoints

An entry of a subscription is a link, or several behind one another: `h1 -> h2 -> ... -> hn`.  The
hops are converted from the last to the first, each detours through the one converted before it, and
its tag is made unique by a counter that runs over all entries.  A hop that does not convert is left
out, and the hop before it detours through the one behind it.
-/

namespace PokrovCore.Ray2sing

abbrev Text := List Char

variable {ω : Type*}

/-- The links that become outbounds, by their beginnings. -/
def configTypes : List String :=
  ["vmess://", "vless://", "trojan://", "svmess://", "svless://", "strojan://", "ss://", "tuic://",
    "hysteria://", "hysteria2://", "hy2://", "ssh://", "naive://", "ssconf://", "direct://",
    "socks://", "phttp://", "phttps://", "http://", "https://", "xvmess://", "xvless://",
    "xtrojan://", "xdirect://", "mieru://", "mierus://", "psiphon://", "dnstt://"]

/-- The links that become endpoints. -/
def endpointParsers : List String :=
  ["wg://", "wireguard://", "warp://", "awg://", "[Interface]"]

/-- The beginnings of what is supported.  No text has two of them. -/
def supported : List Text := (configTypes ++ endpointParsers).map String.toList

/-- An outbound or an endpoint; `settable` if its options have those of a dialer. -/
structure Element (ω : Type*) where
  endpoint : Bool
  type : Text
  tag : Text
  settable : Bool
  detour : Text
  options : ω
  deriving DecidableEq

/-- The parsers, each for its beginning, and the decoder of base 64. -/
structure Library (ω : Type*) where
  parse : Text → Text → Option (Element ω)
  decodeBase64 : Text → Option Text

/-- `decodeBase64IfNeeded` -/
def Library.decodeBase64IfNeeded (lib : Library ω) (s : Text) : Text := (lib.decodeBase64 s).getD s

section convert

variable (lib : Library ω)

/-- `processSingleConfig`: an element without a tag is named by its type. -/
def processSingleConfig (config : Text) : Option (Element ω) :=
  (supported.find? (·.isPrefixOf config)).bind fun k =>
    (lib.parse k config).map fun e => if e.tag = [] then { e with tag := e.type } else e

/-- A hop, as it stands in its entry. -/
def convertHop (hop : Text) : Option (Element ω) :=
  processSingleConfig lib (lib.decodeBase64IfNeeded hop)

/-- The tag with the number of an element. -/
def numberedTag (tag : Text) (counter : ℕ) : Text := tag ++ " § ".toList ++ Nat.toDigits 10 counter

/-- An element is numbered, and detours where it can. -/
def Element.place (e : Element ω) (counter : ℕ) (detourTag : Text) : Element ω :=
  { e with
    tag := numberedTag e.tag counter
    detour := if e.settable then detourTag else e.detour }

/-- What the loop over the hops of an entry has come to. -/
structure Progress (ω : Type*) where
  counter : ℕ
  detourTag : Text
  emitted : List (Element ω)

/-- A turn of that loop. -/
def turn (p : Progress ω) (hop : Text) : Progress ω :=
  match convertHop lib hop with
  | none => p
  | some e =>
    { counter := p.counter + 1
      detourTag := numberedTag e.tag p.counter
      emitted := p.emitted ++ [e.place p.counter p.detourTag] }

/-- `strings.Split`; `skip` characters still belong to a separator. -/
def splitAt (separator : Text) : ℕ → Text → List Text
  | _, [] => [[]]
  | skip + 1, _ :: rest => splitAt separator skip rest
  | 0, c :: rest =>
    if separator.isPrefixOf (c :: rest) then [] :: splitAt separator (separator.length - 1) rest
    else (splitAt separator 0 rest).modifyHead (c :: ·)

/-- The hops of an entry. -/
def hops (config : Text) : List Text := splitAt " -> ".toList 0 config

/-- An entry is passed over: it is short, or a comment. -/
def skipped (config : Text) : Bool :=
  decide ((config.map Char.utf8Size).sum < 5) || config.head? == some '#' || config.head? == some '/'

/-- The loop over the hops, from the last one. -/
def convertEntry (counter : ℕ) (config : Text) : Progress ω :=
  if skipped config then ⟨counter, [], []⟩
  else (hops config).reverse.foldl (turn lib) ⟨counter, [], []⟩

/-- The elements of each entry. -/
def convertEntries : ℕ → List Text → List (List (Element ω))
  | _, [] => []
  | counter, config :: rest =>
    let p := convertEntry lib counter config
    p.emitted :: convertEntries p.counter rest

end convert

/-! ## The route of an entry -/

section route

variable (lib : Library ω) (counter : ℕ)

/-- The tag of the first element. -/
def headTag (els : List (Element ω)) : Text := (els.head?.map (·.tag)).getD []

/-- **The elements of hops**, from the first hop to the last. -/
def route : List Text → List (Element ω)
  | [] => []
  | hop :: rest =>
    match convertHop lib hop with
    | none => route rest
    | some e => e.place (counter + (route rest).length) (headTag (route rest)) :: route rest

variable {lib counter} {hop : Text} {rest chain : List Text} {e : Element ω}

theorem route_cons_none (h : convertHop lib hop = none) :
    route lib counter (hop :: rest) = route lib counter rest := by
  rw [route, h]

theorem route_cons_some (h : convertHop lib hop = some e) :
    route lib counter (hop :: rest) =
      e.place (counter + (route lib counter rest).length) (headTag (route lib counter rest)) ::
        route lib counter rest := by
  rw [route, h]

/-- **The loop emits the route**, in reverse. -/
theorem foldl_turn (chain : List Text) :
    chain.reverse.foldl (turn lib) ⟨counter, [], []⟩ =
      ⟨counter + (route lib counter chain).length, headTag (route lib counter chain),
        (route lib counter chain).reverse⟩ := by
  induction chain with
  | nil => rfl
  | cons hop rest ih =>
    rw [List.reverse_cons, List.foldl_append, ih, List.foldl_cons, List.foldl_nil, turn]
    cases h : convertHop lib hop with
    | none => rw [route_cons_none h]
    | some e =>
      rw [route_cons_some h, List.reverse_cons, List.length_cons]
      rfl

theorem convertEntry_emitted (config : Text) :
    (convertEntry lib counter config).emitted =
      if skipped config then [] else (route lib counter (hops config)).reverse := by
  unfold convertEntry
  split
  · rfl
  · rw [foldl_turn]

theorem convertEntry_counter (config : Text) :
    (convertEntry lib counter config).counter =
      counter + (convertEntry lib counter config).emitted.length := by
  unfold convertEntry
  split
  · rfl
  · rw [foldl_turn, List.length_reverse]

theorem length_route (chain : List Text) :
    (route lib counter chain).length = chain.countP fun hop => (convertHop lib hop).isSome := by
  induction chain with
  | nil => rfl
  | cons hop rest ih =>
    cases h : convertHop lib hop with
    | none => rw [route_cons_none h, List.countP_cons_of_neg (by simp [h]), ih]
    | some e => rw [route_cons_some h, List.countP_cons_of_pos (by simp [h]), List.length_cons, ih]

/-- **All hops of a chain are there**: each is the conversion of its hop but for tag and detour, and
detours through the next one, the last one through nothing. -/
def Whole (lib : Library ω) : List Text → List (Element ω) → Prop
  | [], els => els = []
  | hop :: rest, els => ∃ e els' number, convertHop lib hop = some e ∧
      els = { e with tag := numberedTag e.tag number, detour := headTag els' } :: els' ∧
      Whole lib rest els'

theorem Whole.length_eq {els : List (Element ω)} (h : Whole lib chain els) :
    els.length = chain.length := by
  induction chain generalizing els with
  | nil => rw [h]; rfl
  | cons hop rest ih =>
    obtain ⟨e, els', number, -, rfl, hrest⟩ := h
    rw [List.length_cons, List.length_cons, ih hrest]

theorem whole_route (hall : ∀ hop ∈ chain, ∃ e, convertHop lib hop = some e ∧ e.settable = true) :
    Whole lib chain (route lib counter chain) := by
  induction chain with
  | nil => rfl
  | cons hop rest ih =>
    obtain ⟨⟨e, he, hset⟩, hrest⟩ := List.forall_mem_cons.mp hall
    refine ⟨e, route lib counter rest, counter + (route lib counter rest).length, he, ?_, ih hrest⟩
    rw [route_cons_some he, Element.place, if_pos hset]

/-- A parser that takes what follows the beginning for the tag, and fails if that is empty. -/
def sampleLibrary : Library Unit where
  parse k config :=
    if config.length = k.length then none
    else some ⟨false, "socks".toList, config.drop k.length, true, [], ()⟩
  decodeBase64 _ := none

end route

/-! ## Tags -/

section tags

variable {lib : Library ω} {counter : ℕ}

/-- **The number of a tag can be read off it**, whatever the name before it is. -/
theorem numberedTag_inj {name name' : Text} {n n' : ℕ}
    (h : numberedTag name n = numberedTag name' n') : n = n' := by
  have hdigits : ∀ n, ∀ c ∈ (Nat.toDigits 10 n).reverse, (c != ' ') = true := fun n c hc => by
    have hdigit := Nat.isDigit_of_mem_toDigits (by decide) (by decide) (List.mem_reverse.mp hc)
    rw [bne_iff_ne]
    rintro rfl
    exact absurd hdigit (by decide)
  have hread : ∀ (name : Text) n, (numberedTag name n).reverse.takeWhile (· != ' ') =
      (Nat.toDigits 10 n).reverse := fun name n => by
    have hrest : (" § ".toList.reverse ++ name.reverse).takeWhile (· != ' ') = [] := rfl
    rw [numberedTag, List.reverse_append, List.reverse_append,
      List.takeWhile_append_of_pos (hdigits n), hrest, List.append_nil]
  have heq : (numberedTag name n).reverse.takeWhile (· != ' ') =
      (numberedTag name' n').reverse.takeWhile (· != ' ') := by rw [h]
  rw [hread, hread, List.reverse_inj] at heq
  have hvalue := congrArg (fun l => Nat.ofDigitChars 10 l 0) heq
  simpa only [Nat.ofDigitChars_ten_toDigits] using hvalue

/-- Elements are numbered one after another. -/
def Numbered : ℕ → List (Element ω) → Prop
  | _, [] => True
  | n, e :: els => (∃ name, e.tag = numberedTag name n) ∧ Numbered (n + 1) els

/-- The elements that can detour, do so through an earlier one or not at all. -/
def Detoured (els : List (Element ω)) : Prop :=
  ∀ before (e : Element ω) after, els = before ++ e :: after → e.settable = true →
    e.detour = [] ∨ ∃ e' ∈ before, e'.tag = e.detour

variable {els els' : List (Element ω)}

theorem Numbered.append {n : ℕ} (h : Numbered n els) (h' : Numbered (n + els.length) els') :
    Numbered n (els ++ els') := by
  induction els generalizing n with
  | nil => exact h'
  | cons e els ih =>
    refine ⟨h.1, ih h.2 ?_⟩
    rwa [Nat.add_assoc, Nat.add_comm 1]

theorem Numbered.tags_nodup {n : ℕ} (h : Numbered n els) :
    (els.map (·.tag)).Nodup ∧ ∀ e ∈ els, ∃ name, ∃ k ≥ n, e.tag = numberedTag name k := by
  induction els generalizing n with
  | nil => simp
  | cons e els ih =>
    obtain ⟨⟨name, hname⟩, hels⟩ := h
    obtain ⟨hnodup, hlater⟩ := ih hels
    refine ⟨List.nodup_cons.mpr ⟨fun hmem => ?_, hnodup⟩, List.forall_mem_cons.mpr
      ⟨⟨name, n, Nat.le_refl n, hname⟩, fun e' he' => ?_⟩⟩
    · obtain ⟨e', he', htag⟩ := List.mem_map.mp hmem
      obtain ⟨name', k, hk, htag'⟩ := hlater e' he'
      have := numberedTag_inj (htag'.symm.trans (htag.trans hname))
      omega
    · obtain ⟨name', k, hk, htag'⟩ := hlater e' he'
      exact ⟨name', k, by omega, htag'⟩

theorem Detoured.append (h : Detoured els) (h' : Detoured els') : Detoured (els ++ els') := by
  intro before e after hsplit hset
  rcases List.append_eq_append_iff.mp hsplit with ⟨l, rfl, hl⟩ | ⟨l, hl, hafter⟩
  · refine (h' l e after hl hset).imp_right ?_
    rintro ⟨e', he', htag⟩
    exact ⟨e', List.mem_append_right _ he', htag⟩
  · cases l with
    | nil =>
      rw [List.append_nil] at hl
      refine (h' [] e after hafter.symm hset).imp_right ?_
      rintro ⟨e', he', -⟩
      cases he'
    | cons x l =>
      obtain ⟨rfl, -⟩ := List.cons.inj hafter
      exact h before e l hl hset

theorem Detoured.concat {x : Element ω} (h : Detoured els)
    (hx : x.settable = true → x.detour = [] ∨ ∃ e' ∈ els, e'.tag = x.detour) :
    Detoured (els ++ [x]) := by
  intro before e after hsplit hset
  rcases after.eq_nil_or_concat with rfl | ⟨after, y, rfl⟩
  · obtain ⟨rfl, rfl⟩ := List.append_singleton_inj.mp hsplit
    exact hx hset
  · rw [List.concat_eq_append, ← List.cons_append, ← List.append_assoc] at hsplit
    exact h before e after (List.append_singleton_inj.mp hsplit).1 hset

/-- **The route of an entry is numbered, and detours backwards.** -/
theorem route_spec (chain : List Text) :
    Numbered counter (route lib counter chain).reverse ∧
      Detoured (route lib counter chain).reverse := by
  induction chain with
  | nil => exact ⟨trivial, fun before e after h => by simp [route] at h⟩
  | cons hop rest ih =>
    obtain ⟨hnumbered, hdetoured⟩ := ih
    cases hhop : convertHop lib hop with
    | none =>
      rw [route_cons_none hhop]
      exact ⟨hnumbered, hdetoured⟩
    | some e =>
      rw [route_cons_some hhop, List.reverse_cons]
      refine ⟨hnumbered.append ⟨⟨e.tag, by rw [List.length_reverse]; rfl⟩, trivial⟩,
        hdetoured.concat fun hset => ?_⟩
      -- it detours through the first of the rest, if there is one
      rw [Element.place] at hset ⊢
      dsimp only at hset ⊢
      rw [if_pos hset]
      cases route lib counter rest with
      | nil => exact .inl rfl
      | cons x l => exact .inr ⟨x, by simp, rfl⟩

theorem convertEntry_spec (config : Text) :
    Numbered counter (convertEntry lib counter config).emitted ∧
      Detoured (convertEntry lib counter config).emitted := by
  rw [convertEntry_emitted]
  split
  · exact ⟨trivial, fun before e after h => by simp at h⟩
  · exact route_spec (hops config)

/-- **So are the elements of all entries**; each detours through one of its own entry. -/
theorem convertEntries_spec (entries : List Text) :
    Numbered counter (convertEntries lib counter entries).flatten ∧
      Detoured (convertEntries lib counter entries).flatten ∧
      ∀ els ∈ convertEntries lib counter entries, Detoured els := by
  induction entries generalizing counter with
  | nil =>
    refine ⟨trivial, fun before e after h => ?_, by simp [convertEntries]⟩
    simp [convertEntries] at h
  | cons config rest ih =>
    obtain ⟨hnumbered, hdetoured⟩ := @convertEntry_spec _ lib counter config
    obtain ⟨hrest, hall, heach⟩ := @ih (convertEntry lib counter config).counter
    rw [convertEntry_counter] at hrest
    refine ⟨?_, ?_, ?_⟩
    · rw [convertEntries, List.flatten_cons, convertEntry_counter]
      exact hnumbered.append hrest
    · exact hdetoured.append hall
    · exact List.forall_mem_cons.mpr ⟨hdetoured, heach⟩

/-- An element detours through another, by its own setting. -/
def DetoursThrough (els : List (Element ω)) (e e' : Element ω) : Prop :=
  e ∈ els ∧ e' ∈ els ∧ e.settable = true ∧ e.detour ≠ [] ∧ e.detour = e'.tag

/-- **Detours do not lead back**, if tags are unique. -/
theorem Detoured.acyclic (h : Detoured els) (hnodup : (els.map (·.tag)).Nodup) (e : Element ω) :
    ¬Relation.TransGen (DetoursThrough els) e e := by
  have hlt : ∀ e e', DetoursThrough els e e' →
      (els.map (·.tag)).idxOf e'.tag < (els.map (·.tag)).idxOf e.tag := by
    rintro e e' ⟨he, -, hset, hne, htag⟩
    obtain ⟨before, after, rfl⟩ := List.append_of_mem he
    obtain ⟨d, hd, hdtag⟩ := (h before e after rfl hset).resolve_left hne
    have hmem : e'.tag ∈ before.map (·.tag) :=
      List.mem_map.mpr ⟨d, hd, hdtag.trans htag⟩
    rw [List.map_append, List.map_cons, List.nodup_append] at hnodup
    have hfresh : e.tag ∉ before.map (·.tag) := fun hin =>
      hnodup.2.2 _ hin _ (List.mem_cons_self ..) rfl
    rw [List.map_append, List.map_cons, List.idxOf_append_of_mem hmem,
      List.idxOf_append_of_notMem hfresh]
    exact Nat.lt_of_lt_of_le (List.idxOf_lt_length_of_mem hmem) (Nat.le_add_right _ _)
  intro hcycle
  have hall : ∀ e', Relation.TransGen (DetoursThrough els) e e' →
      (els.map (·.tag)).idxOf e'.tag < (els.map (·.tag)).idxOf e.tag := by
    intro e' hpath
    induction hpath with
    | single hstep => exact hlt _ _ hstep
    | tail _ hstep ih => exact Nat.lt_trans (hlt _ _ hstep) ih
  exact Nat.lt_irrefl _ (hall e hcycle)

end tags

end PokrovCore.Ray2sing
