import PokrovCore.Ray2sing.Convert

/-!
# Ray2sing/Subscription — the lines of a subscription

The lines of a text are decoded one by one, and the decoded text is cut where a line begins with a
known mark: the beginning of a link, or of a comment.  What is cut off there runs to the next mark, so
that a configuration may have several lines; a line without a mark belongs to the link before it.
-/

namespace PokrovCore.Ray2sing

variable {ω : Type*}

/-- `unicode.IsSpace` -/
def isSpace (c : Char) : Bool :=
  let n := c.toNat
  (9 ≤ n && n ≤ 13) || n == 0x20 || n == 0x85 || n == 0xA0 || n == 0x1680 ||
    (0x2000 ≤ n && n ≤ 0x200A) || n == 0x2028 || n == 0x2029 || n == 0x202F || n == 0x205F ||
    n == 0x3000

/-- `strings.TrimSpace` -/
def trimSpace (s : Text) : Text := ((s.dropWhile isSpace).reverse.dropWhile isSpace).reverse

/-- A line begins with one of the prefixes of the pattern. -/
def marked (line : Text) : Bool := ("#".toList :: "//".toList :: supported).any (·.isPrefixOf line)

/-- The lines before the first mark, and for each mark its line with those up to the next. -/
def groups : List Text → List Text × List (Text × List Text)
  | [] => ([], [])
  | line :: rest =>
    if marked line then ([], (line, (groups rest).1) :: (groups rest).2)
    else (line :: (groups rest).1, (groups rest).2)

/-- Lines with a line feed between them. -/
def joined (lines : List Text) : Text := ['\n'].intercalate lines

/-- `splitByPrefix`, of a text that is given by its lines. -/
def splitByPrefix (lines : List Text) : List Text :=
  match (groups lines).2 with
  | [] => [joined lines]
  | gs => gs.map fun g => joined (g.1 :: g.2)

/-- The lines that a line of the input is decoded to. -/
def expandLine (lib : Library ω) (line : Text) : List Text :=
  ((lib.decodeBase64IfNeeded line).map fun c => if c = '\r' then '\n' else c).splitOn '\n'

/-- What is kept of a cut. -/
def kept (config : Text) : Option Text :=
  let tc := trimSpace config
  if tc = [] ∨ tc.head? = some '#' ∨ tc.head? = some '/' then none else some tc

/-- **`expandDecodedConfig`** -/
def expandDecodedConfig (lib : Library ω) (configs : Text) : List Text :=
  (splitByPrefix ((configs.splitOn '\n').flatMap (expandLine lib))).filterMap kept

/-- **`GenerateConfigLite`**: the outbounds and the endpoints. -/
def generateConfigLite (lib : Library ω) (input : Text) :
    Option (List (Element ω) × List (Element ω)) :=
  let all := (convertEntries lib 0 (expandDecodedConfig lib input)).flatten
  if all.isEmpty then none
  else some (all.filter (!·.endpoint), all.filter (·.endpoint))

/-- **Converted lists are well-formed**, whatever the names of the links are: the tags are distinct,
a detour that the conversion sets names an element of the same entry, and detours do not lead back. -/
theorem links_well_formed (lib : Library ω) (input : Text) (outbounds endpoints : List (Element ω))
    (h : generateConfigLite lib input = some (outbounds, endpoints)) :
    ((outbounds ++ endpoints).map (·.tag)).Nodup ∧
      (∀ e ∈ outbounds ++ endpoints, e.settable = true → e.detour ≠ [] →
        ∃ els ∈ convertEntries lib 0 (expandDecodedConfig lib input), e ∈ els ∧
          ∃ e' ∈ els, e' ∈ outbounds ++ endpoints ∧ e'.tag = e.detour) ∧
      ∀ e, ¬Relation.TransGen (DetoursThrough (outbounds ++ endpoints)) e e := by
  obtain ⟨hnumbered, hdetoured, heach⟩ := @convertEntries_spec _ lib 0 (expandDecodedConfig lib input)
  simp only [generateConfigLite] at h
  split at h
  · cases h
  obtain ⟨rfl, rfl⟩ := Prod.mk.inj (Option.some.inj h)
  have hperm := List.filter_append_perm (fun e : Element ω => !e.endpoint)
    (convertEntries lib 0 (expandDecodedConfig lib input)).flatten
  simp only [Bool.not_not] at hperm
  refine ⟨(hperm.map _).nodup_iff.mpr hnumbered.tags_nodup.1, fun e he hset hne => ?_, fun e hcycle => ?_⟩
  · obtain ⟨els, hels, he⟩ := List.mem_flatten.mp (hperm.mem_iff.mp he)
    obtain ⟨before, after, hsplit⟩ := List.append_of_mem he
    obtain ⟨e', he', htag⟩ := (heach els hels before e after hsplit hset).resolve_left hne
    have hmem : e' ∈ els := hsplit ▸ List.mem_append_left _ he'
    exact ⟨els, hels, he, e', hmem, hperm.mem_iff.mpr (List.mem_flatten.mpr ⟨els, hels, hmem⟩), htag⟩
  · refine hdetoured.acyclic hnumbered.tags_nodup.1 e (Relation.TransGen.mono ?_ e e hcycle)
    rintro a b ⟨ha, hb, hrest⟩
    exact ⟨hperm.mem_iff.mp ha, hperm.mem_iff.mp hb, hrest⟩

/-- Links whose names end like tags, one of them a chain. -/
theorem links_well_formed_sample :
    ∃ outbounds, generateConfigLite sampleLibrary
        "ss://a § 1\nss://a\nss://b -> ss://c § 0".toList = some (outbounds, []) ∧
      outbounds.length = 4 ∧ (outbounds.map (·.tag)).Nodup := by
  obtain ⟨outbounds, h, hlen⟩ : ∃ outbounds, generateConfigLite sampleLibrary
      "ss://a § 1\nss://a\nss://b -> ss://c § 0".toList = some (outbounds, []) ∧
      outbounds.length = 4 := ⟨_, by rfl, by rfl⟩
  have hnodup := (links_well_formed sampleLibrary _ outbounds [] h).1
  rw [List.append_nil] at hnodup
  exact ⟨outbounds, h, hlen, hnodup⟩

/-! ## The groups of lines -/

section groups

variable {lines before after attached : List Text} {head : Text}

theorem groups_marked (h : marked head = true) (rest : List Text) :
    groups (head :: rest) = ([], (head, (groups rest).1) :: (groups rest).2) := by
  rw [groups, if_pos h]

theorem groups_unmarked (h : marked head = false) (rest : List Text) :
    groups (head :: rest) = (head :: (groups rest).1, (groups rest).2) := by
  rw [groups, h, if_neg Bool.false_ne_true]

/-- A marked line has the unmarked lines behind it. -/
theorem mem_groups_append (h : marked head = true) (before rest : List Text) :
    (head, (groups rest).1) ∈ (groups (before ++ head :: rest)).2 := by
  induction before with
  | nil =>
    rw [List.nil_append, groups_marked h]
    exact List.mem_cons_self ..
  | cons line before ih =>
    cases hline : marked line with
    | true =>
      rw [List.cons_append, groups_marked hline]
      exact List.mem_cons_of_mem _ ih
    | false =>
      rw [List.cons_append, groups_unmarked hline]
      exact ih

theorem groups_append_unmarked (h : ∀ x ∈ attached, marked x = false) (after : List Text) :
    (groups (attached ++ after)).1 = attached ++ (groups after).1 := by
  induction attached with
  | nil => rfl
  | cons x attached ih =>
    obtain ⟨hx, hattached⟩ := List.forall_mem_cons.mp h
    rw [List.cons_append, groups_unmarked hx, ih hattached, List.cons_append]

/-- The lines before the first mark. -/
theorem groups_fst_spec (lines : List Text) :
    (∀ x ∈ (groups lines).1, marked x = false) ∧ ∃ after, lines = (groups lines).1 ++ after := by
  induction lines with
  | nil => exact ⟨by simp [groups], [], rfl⟩
  | cons line rest ih =>
    obtain ⟨hall, after, hafter⟩ := ih
    cases hline : marked line with
    | true =>
      rw [groups_marked hline]
      exact ⟨by simp, line :: rest, rfl⟩
    | false =>
      rw [groups_unmarked hline]
      refine ⟨List.forall_mem_cons.mpr ⟨hline, hall⟩, after, ?_⟩
      rw [List.cons_append, ← hafter]

theorem exists_of_mem_groups (h : (head, attached) ∈ (groups lines).2) :
    marked head = true ∧ ∃ before rest, lines = before ++ head :: rest ∧
      attached = (groups rest).1 := by
  induction lines with
  | nil => cases h
  | cons line rest ih =>
    cases hline : marked line with
    | true =>
      rw [groups_marked hline] at h
      rcases List.mem_cons.mp h with heq | h
      · obtain ⟨rfl, rfl⟩ := Prod.mk.inj heq
        exact ⟨hline, [], rest, rfl, rfl⟩
      · obtain ⟨hhead, before, rest', rfl, hattached⟩ := ih h
        exact ⟨hhead, line :: before, rest', rfl, hattached⟩
    | false =>
      rw [groups_unmarked hline] at h
      obtain ⟨hhead, before, rest', rfl, hattached⟩ := ih h
      exact ⟨hhead, line :: before, rest', rfl, hattached⟩

/-- The groups are those of the marked lines. -/
theorem map_fst_groups (lines : List Text) :
    (groups lines).2.map (·.1) = lines.filter marked := by
  induction lines with
  | nil => rfl
  | cons line rest ih =>
    cases hline : marked line with
    | true => rw [groups_marked hline, List.map_cons, ih, List.filter_cons_of_pos hline]
    | false => rw [groups_unmarked hline, ih, List.filter_cons_of_neg (by simp [hline])]

end groups

/-! ## White space -/

section trim

theorem mem_dropWhile {p : Char → Bool} {c : Char} {s : Text} (hc : c ∈ s) (hp : p c = false) :
    c ∈ s.dropWhile p := by
  rw [← @List.takeWhile_append_dropWhile _ p s] at hc
  refine (List.mem_append.mp hc).resolve_left fun h => ?_
  rw [List.all_eq_true.mp List.all_takeWhile c h] at hp
  cases hp

theorem mem_trimSpace {c : Char} {s : Text} (hc : c ∈ s) (hp : isSpace c = false) :
    c ∈ trimSpace s :=
  List.mem_reverse.mpr (mem_dropWhile (List.mem_reverse.mpr (mem_dropWhile hc hp)) hp)

/-- What is put behind a text is trimmed off exactly when it is white space. -/
theorem trimSpace_append_iff {c : Char} {s : Text} (hc : isSpace c = false) (rest : Text) :
    trimSpace (c :: s ++ rest) = trimSpace (c :: s) ↔ rest.all isSpace = true := by
  have hhead : ∀ t : Text, (c :: t).dropWhile isSpace = c :: t := fun t =>
    List.dropWhile_cons_of_neg (by simp [hc])
  rw [trimSpace, trimSpace, List.cons_append, hhead, hhead, List.reverse_inj, ← List.cons_append,
    List.reverse_append]
  constructor
  · intro h
    by_contra hrest
    obtain ⟨x, hx, hspace⟩ : ∃ x ∈ rest, isSpace x = false := by simpa using hrest
    -- then all of the text is left, and more
    have hlen := congrArg List.length h
    rw [List.dropWhile_append, if_neg] at hlen
    · have hpos := List.length_pos_of_mem (mem_dropWhile (List.mem_reverse.mpr hx) hspace)
      have hle : ((c :: s).reverse.dropWhile isSpace).length ≤ (c :: s).reverse.length :=
        (List.dropWhile_suffix isSpace).length_le
      rw [List.length_append] at hlen
      omega
    · have hmem := mem_dropWhile (List.mem_reverse.mpr hx) hspace
      intro hempty
      rw [List.isEmpty_iff.mp hempty] at hmem
      cases hmem
  · intro h
    refine List.dropWhile_append_of_pos fun x hx => ?_
    exact List.all_eq_true.mp h x (List.mem_reverse.mp hx)

end trim

/-! ## Links among other lines -/

/-- A line begins like something that is supported. -/
def supportedLine (line : Text) : Bool := supported.any (·.isPrefixOf line)

/-- **A single-line link**: it begins like one, has one line and one hop, and the colon that keeps it
from being base 64. -/
def isLink (line : Text) : Bool :=
  supportedLine line && line.contains ':' && !line.contains '\n' && !line.contains '\r' &&
    decide (hops (trimSpace line) = [trimSpace line])

/-- What an entry is converted to, hop by hop, but for the numbers of the tags. -/
def converted (lib : Library ω) (entry : Text) : List (Option (Element ω)) :=
  (hops entry).map (convertHop lib)

/-- The library with other parsers. -/
def Library.withParse (lib : Library ω) (parse : Text → Text → Option (Element ω)) : Library ω :=
  { lib with parse := parse }

section links

variable {lib : Library ω} {lines : List Text} {line : Text}

theorem marked_of_supportedLine (h : supportedLine line = true) : marked line = true := by
  simp only [marked, List.any_cons, Bool.or_eq_true]
  exact .inr (.inr h)

/-- A supported line begins with a character that is neither white space nor that of a comment. -/
theorem exists_cons_of_supportedLine (h : supportedLine line = true) :
    ∃ c s, line = c :: s ∧ isSpace c = false ∧ c ≠ '#' ∧ c ≠ '/' := by
  have hall : ∀ k ∈ supported,
      k.head?.any (fun c => !isSpace c && (c != '#' && c != '/')) = true := by
    decide +kernel
  obtain ⟨k, hk, hpre⟩ := List.any_eq_true.mp h
  obtain ⟨c, hc, hplain⟩ := Option.any_eq_true _ _ |>.mp (hall k hk)
  simp only [Bool.and_eq_true, Bool.not_eq_true', bne_iff_ne] at hplain
  obtain ⟨rest, rfl⟩ := List.isPrefixOf_iff_prefix.mp hpre
  obtain ⟨t, rfl⟩ := List.head?_eq_some_iff.mp hc
  exact ⟨c, t ++ rest, rfl, hplain⟩

/-- A line with a mark that is not supported is a comment. -/
theorem head_of_marked (h : marked line = true) (hline : supportedLine line = false) :
    line.head? = some '#' ∨ line.head? = some '/' := by
  simp only [marked, List.any_cons, Bool.or_eq_true] at h
  rcases h with h | h | h
  · obtain ⟨rest, rfl⟩ := List.isPrefixOf_iff_prefix.mp h
    exact .inl rfl
  · obtain ⟨rest, rfl⟩ := List.isPrefixOf_iff_prefix.mp h
    exact .inr rfl
  · rw [supportedLine, h] at hline
    cases hline

/-- Trimming keeps the beginning of a text that has no white space at its ends. -/
theorem trimSpace_append {k : Text} {c d : Char} (hhead : k.head? = some c) (hc : isSpace c = false)
    (hlast : k.getLast? = some d) (hd : isSpace d = false) (s : Text) :
    ∃ t, trimSpace (k ++ s) = k ++ t := by
  obtain ⟨k', rfl⟩ := List.head?_eq_some_iff.mp hhead
  have hdrop : (c :: k' ++ s).dropWhile isSpace = c :: k' ++ s :=
    List.dropWhile_cons_of_neg (by simp [hc])
  have hend : (c :: k').reverse.dropWhile isSpace = (c :: k').reverse := by
    obtain ⟨l, hl⟩ := List.getLast?_eq_some_iff.mp hlast
    rw [hl, List.reverse_append]
    exact List.dropWhile_cons_of_neg (by simp [hd])
  rw [trimSpace, hdrop, List.reverse_append, List.dropWhile_append, hend]
  split
  · exact ⟨[], by simp⟩
  · exact ⟨_, by rw [List.reverse_append, List.reverse_reverse]⟩

theorem trimSpace_cons {c : Char} {s : Text} (hc : isSpace c = false) :
    ∃ t, trimSpace (c :: s) = c :: t :=
  @trimSpace_append [c] c c rfl hc rfl hc s

theorem supportedLine_trimSpace (h : supportedLine line = true) (rest : Text) :
    supportedLine (trimSpace (line ++ rest)) = true := by
  have hall : ∀ k ∈ supported, k.head?.any (fun c => !isSpace c) = true ∧
      k.getLast?.any (fun c => !isSpace c) = true := by
    decide +kernel
  obtain ⟨k, hk, hpre⟩ := List.any_eq_true.mp h
  obtain ⟨c, hc, hcs⟩ := Option.any_eq_true _ _ |>.mp (hall k hk).1
  obtain ⟨d, hd, hds⟩ := Option.any_eq_true _ _ |>.mp (hall k hk).2
  rw [Bool.not_eq_true'] at hcs hds
  obtain ⟨s, rfl⟩ := List.isPrefixOf_iff_prefix.mp hpre
  obtain ⟨t, ht⟩ := trimSpace_append hc hcs hd hds (s ++ rest)
  refine List.any_eq_true.mpr ⟨k, hk, ?_⟩
  rw [List.append_assoc, ht]
  exact List.isPrefixOf_iff_prefix.mpr (List.prefix_append k t)

theorem joined_cons (line : Text) (attached : List Text) :
    joined (line :: attached) = line ++ attached.flatMap ('\n' :: ·) := by
  induction attached generalizing line with
  | nil => simp [joined]
  | cons x attached ih =>
    have hrest := ih x
    rw [joined] at hrest ⊢
    rw [List.intercalate_cons_cons, hrest]
    simp

/-- What is kept of a group: the link with the lines behind it, and nothing of a comment. -/
theorem kept_group (h : marked line = true) (attached : List Text) :
    kept (joined (line :: attached)) =
      if supportedLine line then some (trimSpace (joined (line :: attached))) else none := by
  rw [joined_cons]
  cases hline : supportedLine line with
  | true =>
    obtain ⟨c, s, rfl, hspace, hhash, hslash⟩ := exists_cons_of_supportedLine hline
    obtain ⟨t, ht⟩ := @trimSpace_cons c (s ++ attached.flatMap ('\n' :: ·)) hspace
    rw [List.cons_append, kept, ht, if_neg (by simp [hhash, hslash]), if_pos rfl]
  | false =>
    have hspace : ∀ c, c = '#' ∨ c = '/' → isSpace c = false := by
      rintro c (rfl | rfl) <;> decide
    have hhead := head_of_marked h hline
    cases line with
    | nil => simp at hhead
    | cons c s =>
      simp only [List.head?_cons, Option.some.injEq] at hhead
      obtain ⟨t, ht⟩ := @trimSpace_cons c (s ++ attached.flatMap ('\n' :: ·)) (hspace c hhead)
      rw [List.cons_append, kept, ht, if_pos (by simpa using hhead), if_neg Bool.false_ne_true]

/-- The entries of lines, one for each link. -/
theorem entries_eq (hne : (groups lines).2 ≠ []) :
    (splitByPrefix lines).filterMap kept =
      ((groups lines).2.filter (supportedLine ·.1)).map fun g => trimSpace (joined (g.1 :: g.2)) := by
  have hsplit : splitByPrefix lines = (groups lines).2.map fun g => joined (g.1 :: g.2) := by
    unfold splitByPrefix
    split
    next h => exact absurd h hne
    next => rfl
  rw [hsplit, List.filterMap_map, ← List.filterMap_eq_map, List.filterMap_filter]
  refine List.filterMap_congr fun g hg => ?_
  exact kept_group (exists_of_mem_groups hg).1 g.2

theorem isLink_spec (h : isLink line = true) :
    supportedLine line = true ∧ ':' ∈ line ∧ '\n' ∉ line ∧ '\r' ∉ line ∧
      hops (trimSpace line) = [trimSpace line] := by
  simpa [isLink, and_assoc] using h

theorem length_splitAt_pos (separator : Text) (skip : ℕ) (s : Text) :
    splitAt separator skip s ≠ [] := by
  induction s generalizing skip with
  | nil => simp [splitAt]
  | cons c rest ih =>
    cases skip with
    | zero =>
      rw [splitAt]
      split
      · exact List.cons_ne_nil _ _
      · cases h : splitAt separator 0 rest with
        | nil => exact absurd h (ih 0)
        | cons x l => exact List.cons_ne_nil _ _
    | succ skip => exact ih skip

/-- A text with one part is that part. -/
theorem splitAt_eq_singleton {separator s part : Text} (h : splitAt separator 0 s = [part]) :
    part = s := by
  induction s generalizing part with
  | nil => exact (List.singleton_inj.mp h).symm
  | cons c rest ih =>
    rw [splitAt] at h
    split at h
    · exact absurd (List.cons.inj h).2 (length_splitAt_pos _ _ _)
    · cases hrest : splitAt separator 0 rest with
      | nil => exact absurd hrest (length_splitAt_pos _ _ _)
      | cons x l =>
        rw [hrest] at h
        obtain ⟨rfl, rfl⟩ := List.cons.inj h
        rw [ih hrest]

/-- A parser that takes the whole text for the tag. -/
def taggedByText [Inhabited ω] (_ config : Text) : Option (Element ω) :=
  some ⟨false, [], config, true, [], default⟩

theorem convertHop_taggedByText [Inhabited ω] (hdecode : lib.decodeBase64 line = none)
    (h : supportedLine line = true) :
    ∃ e, convertHop (lib.withParse taggedByText) line = some e ∧ e.tag = line := by
  obtain ⟨k, hk⟩ := Option.isSome_iff_exists.mp (List.find?_isSome.mpr (List.any_eq_true.mp h))
  obtain ⟨c, s, rfl, -⟩ := exists_cons_of_supportedLine h
  refine ⟨⟨false, [], c :: s, true, [], default⟩, ?_, rfl⟩
  simp [convertHop, processSingleConfig, Library.decodeBase64IfNeeded, Library.withParse, hdecode, hk,
    taggedByText]

variable (hdecode : ∀ s, ':' ∈ s → lib.decodeBase64 s = none)
include hdecode

theorem expandLine_link (h : isLink line = true) : expandLine lib line = [line] := by
  obtain ⟨-, hcolon, hfeed, hreturn, -⟩ := isLink_spec h
  have hmap : (line.map fun c => if c = '\r' then '\n' else c) = line.map id :=
    List.map_congr_left fun c hc => if_neg fun hr : c = '\r' => hreturn (hr ▸ hc)
  rw [expandLine, Library.decodeBase64IfNeeded, hdecode line hcolon, Option.getD_none, hmap,
    List.map_id]
  have hsplit : (joined [line]).splitOn '\n' = [line] :=
    List.splitOn_intercalate '\n' (by simpa using hfeed) (List.cons_ne_nil _ _)
  simpa [joined] using hsplit

/-- **A link is converted as it stands, by every parser, exactly when the lines behind it are white
space.** -/
theorem converted_attached_iff [Inhabited ω] (h : isLink line = true) (attached : List Text) :
    (∀ parse, converted (lib.withParse parse) (trimSpace (joined (line :: attached))) =
        converted (lib.withParse parse) (trimSpace line)) ↔
      ∀ x ∈ attached, x.all isSpace = true := by
  obtain ⟨hline, hcolon, -, -, hhops⟩ := isLink_spec h
  have htrim : trimSpace (joined (line :: attached)) = trimSpace line ↔
      ∀ x ∈ attached, x.all isSpace = true := by
    obtain ⟨c, s, rfl, hspace, -⟩ := exists_cons_of_supportedLine hline
    rw [joined_cons, trimSpace_append_iff hspace]
    simp [List.all_flatMap, isSpace]
  rw [← htrim]
  constructor
  · intro hall
    have htagged := hall taggedByText
    have hmem : ∀ rest, ':' ∈ trimSpace (line ++ rest) := fun rest =>
      mem_trimSpace (List.mem_append_left _ hcolon) (by decide)
    rw [converted, converted, hhops, List.map_singleton] at htagged
    obtain ⟨part, hpart⟩ : ∃ part, hops (trimSpace (joined (line :: attached))) = [part] := by
      have hlen := congrArg List.length htagged
      rw [List.length_map] at hlen
      exact List.length_eq_one_iff.mp hlen
    have heq := splitAt_eq_singleton hpart
    rw [hpart, List.map_singleton, List.singleton_inj, heq, joined_cons] at htagged
    obtain ⟨e, he, htag⟩ := @convertHop_taggedByText _ lib _ _ (hdecode _ (hmem _))
      (supportedLine_trimSpace hline (attached.flatMap ('\n' :: ·)))
    have hmem' := hmem []
    have hline' := supportedLine_trimSpace hline []
    rw [List.append_nil] at hmem' hline'
    obtain ⟨e', he', htag'⟩ := convertHop_taggedByText (hdecode _ hmem') hline'
    rw [he, he', Option.some.injEq] at htagged
    rw [joined_cons, ← htag, htagged, htag']
  · intro heq parse
    rw [heq]

/-- What the lines of a text come to: links, and decoded lines that are not supported. -/
theorem filter_expanded
    (hlines : ∀ l ∈ lines, isLink l = true ∨ ∀ x ∈ expandLine lib l, supportedLine x = false) :
    (lines.flatMap (expandLine lib)).filter supportedLine = lines.filter isLink := by
  induction lines with
  | nil => rfl
  | cons l lines ih =>
    obtain ⟨hl, hrest⟩ := List.forall_mem_cons.mp hlines
    rw [List.flatMap_cons, List.filter_append, ih hrest]
    by_cases hlink : isLink l = true
    · rw [expandLine_link hdecode hlink, List.filter_cons_of_pos hlink,
        List.filter_cons_of_pos (isLink_spec hlink).1]
      rfl
    · rw [List.filter_cons_of_neg hlink, List.filter_eq_nil_iff.mpr fun x hx => ?_, List.nil_append]
      rw [hl.resolve_left hlink x hx]
      exact Bool.false_ne_true

/-- The entries of a text with a link. -/
theorem expandDecodedConfig_joined (hfeed : ∀ l ∈ lines, '\n' ∉ l)
    (hlink : ∃ l ∈ lines, isLink l = true) :
    expandDecodedConfig lib (joined lines) =
      ((groups (lines.flatMap (expandLine lib))).2.filter (supportedLine ·.1)).map
        fun g => trimSpace (joined (g.1 :: g.2)) := by
  obtain ⟨l, hl, hlink⟩ := hlink
  rw [expandDecodedConfig, joined, List.splitOn_intercalate '\n' hfeed (List.ne_nil_of_mem hl)]
  refine entries_eq fun hempty => ?_
  have hmem : l ∈ lines.flatMap (expandLine lib) :=
    List.mem_flatMap.mpr ⟨l, hl, by rw [expandLine_link hdecode hlink]; exact List.mem_singleton_self l⟩
  have hfirst := map_fst_groups (lines.flatMap (expandLine lib))
  rw [hempty, List.map_nil, eq_comm, List.filter_eq_nil_iff] at hfirst
  exact hfirst l hmem (marked_of_supportedLine (isLink_spec hlink).1)

/-- The entries of links alone. -/
theorem expandDecodedConfig_links (hlink : ∃ l ∈ lines, isLink l = true) :
    expandDecodedConfig lib (joined (lines.filter isLink)) = (lines.filter isLink).map trimSpace := by
  have hall : ∀ l ∈ lines.filter isLink, isLink l = true := fun l hl => (List.mem_filter.mp hl).2
  have hsome : ∃ l ∈ lines.filter isLink, isLink l = true := by
    obtain ⟨l, hl, h⟩ := hlink
    exact ⟨l, List.mem_filter.mpr ⟨hl, h⟩, h⟩
  rw [expandDecodedConfig_joined hdecode (fun l hl => (isLink_spec (hall l hl)).2.2.1) hsome]
  generalize lines.filter isLink = links at hall
  have hgroups : groups (links.flatMap (expandLine lib)) = ([], links.map (·, [])) := by
    induction links with
    | nil => rfl
    | cons l links ih =>
      obtain ⟨hl, hlinks⟩ := List.forall_mem_cons.mp hall
      rw [List.flatMap_cons, expandLine_link hdecode hl, List.singleton_append,
        groups_marked (marked_of_supportedLine (isLink_spec hl).1), ih hlinks, List.map_cons]
  rw [hgroups, List.filter_eq_self.mpr, List.map_map]
  · exact List.map_congr_left fun l hl => by simp [joined]
  · intro g hg
    obtain ⟨l, hl, rfl⟩ := List.mem_map.mp hg
    exact (isLink_spec (hall l hl)).1

end links

/-- **What the links of a subscription are converted to does not depend on the other lines exactly
when no line with text stands behind a link before the next mark**: the lines are links and lines
that come to nothing supported, decoded or not. -/
theorem links_independent_iff [Inhabited ω] (lib : Library ω)
    (hdecode : ∀ s, ':' ∈ s → lib.decodeBase64 s = none) (lines : List Text)
    (hlink : ∃ l ∈ lines, isLink l = true)
    (hlines : ∀ l ∈ lines, '\n' ∉ l ∧
      (isLink l = true ∨ ∀ x ∈ expandLine lib l, supportedLine x = false)) :
    (∀ parse,
        (expandDecodedConfig lib (joined lines)).map (converted (lib.withParse parse)) =
          (expandDecodedConfig lib (joined (lines.filter isLink))).map
            (converted (lib.withParse parse))) ↔
      ∀ before link attached after,
        lines.flatMap (expandLine lib) = before ++ link :: (attached ++ after) →
        supportedLine link = true → (∀ x ∈ attached, marked x = false) →
          ∀ x ∈ attached, x.all isSpace = true := by
  have hfirst : ((groups (lines.flatMap (expandLine lib))).2.filter (supportedLine ·.1)).map (·.1) =
      lines.filter isLink := by
    rw [← filter_expanded hdecode fun l hl => (hlines l hl).2]
    have hmap := congrArg (List.filter supportedLine)
      (map_fst_groups (lines.flatMap (expandLine lib)))
    rw [List.filter_filter, List.filter_map] at hmap
    refine hmap.trans (List.filter_congr fun x _ => ?_)
    cases hx : supportedLine x with
    | true => rw [marked_of_supportedLine hx]; rfl
    | false => rfl
  rw [expandDecodedConfig_joined hdecode (fun l hl => (hlines l hl).1) hlink,
    expandDecodedConfig_links hdecode hlink, ← hfirst]
  simp only [List.map_map, List.map_inj_left, Function.comp_apply]
  constructor
  · intro h before link attached after hsplit hsupported hunmarked
    have hgroup := mem_groups_append (marked_of_supportedLine hsupported) before (attached ++ after)
    rw [groups_append_unmarked hunmarked, ← hsplit] at hgroup
    have hkept : (link, attached ++ (groups after).1) ∈
        (groups (lines.flatMap (expandLine lib))).2.filter (supportedLine ·.1) :=
      List.mem_filter.mpr ⟨hgroup, hsupported⟩
    have hisLink : isLink link = true :=
      (List.mem_filter.mp (hfirst ▸ List.mem_map_of_mem hkept)).2
    have hspace := (converted_attached_iff hdecode hisLink _).mp fun parse => h parse _ hkept
    exact fun x hx => hspace x (List.mem_append_left _ hx)
  · rintro h parse ⟨link, attached⟩ hkept
    have hisLink : isLink link = true :=
      (List.mem_filter.mp (hfirst ▸ List.mem_map_of_mem hkept)).2
    obtain ⟨hgroup, hsupported⟩ := List.mem_filter.mp hkept
    obtain ⟨-, before, rest, hsplit, rfl⟩ := exists_of_mem_groups hgroup
    obtain ⟨hunmarked, after, hafter⟩ := groups_fst_spec rest
    refine (converted_attached_iff hdecode hisLink _).mpr ?_ parse
    exact h before link _ after (by rw [hsplit, ← hafter]) hsupported hunmarked

/-- A comment, and an empty line, between links. -/
theorem links_independent_sample : isLink "ss://a".toList = true ∧
    ∀ before link attached after,
      ["ss://a".toList, [], "# b".toList, "ss://c".toList].flatMap (expandLine sampleLibrary) =
        before ++ link :: (attached ++ after) →
      supportedLine link = true → (∀ x ∈ attached, marked x = false) →
        ∀ x ∈ attached, x.all isSpace = true :=
  ⟨by decide +kernel, (links_independent_iff sampleLibrary (fun _ _ => rfl)
    ["ss://a".toList, [], "# b".toList, "ss://c".toList]
    ⟨_, List.mem_cons_self .., by decide +kernel⟩ (by decide +kernel)).mp fun parse =>
      congrArg (List.map (converted (sampleLibrary.withParse parse))) (by decide +kernel)⟩

/-- **A line that is not supported becomes part of the link before it.** -/
theorem link_takes_line :
    isLink "ss://a".toList = true ∧ supportedLine "news://b".toList = false ∧
      expandDecodedConfig sampleLibrary "ss://a\nnews://b".toList = ["ss://a\nnews://b".toList] ∧
      (expandDecodedConfig sampleLibrary "ss://a\nnews://b".toList).map (converted sampleLibrary) ≠
        (expandDecodedConfig sampleLibrary "ss://a".toList).map (converted sampleLibrary) := by
  decide +kernel

end PokrovCore.Ray2sing
