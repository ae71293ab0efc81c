import PokrovCore.Foundations.Json
import PokrovCore.Foundations.Utf8
import PokrovCore.SmartAccess.Outbound

/-!
# SmartAccess/DomainScope — names, as they are spelled and as they are compared

A name from the wire is trimmed of one dot and folded to lower case before it is checked and compared
with the signed scope.  Folding is Unicode's: it takes the Kelvin sign and the dotted capital I into
ASCII.  `inScope_iff` says what this makes of the bytes on the wire: they spell a name of the scope
up to ASCII case exactly when the bytes compared with it are ASCII, and never a name of
`pokrov.space` (`not_owned`).
-/

namespace PokrovCore.SmartAccess

open Utf8 (decode encode)

/-! ## Normal names -/

/-- The simple lower-case mapping of the characters beyond ASCII.  Of these, two have ASCII lower
cases: U+212A, the Kelvin sign, and U+0130, the dotted capital I. -/
structure CaseTable where
  other : Char → Char
  other_beyond : ∀ c : Char, 0x80 ≤ c.toNat → 0x80 ≤ (other c).toNat

/-- The lower case of a character. -/
def CaseTable.lower (t : CaseTable) (c : Char) : Char :=
  if c.toNat < 0x80 then c.toLower
  else if c.toNat = 0x212A then 'k'
  else if c.toNat = 0x130 then 'i'
  else t.other c

/-- The value without one trailing dot. -/
def trimDot (value : List UInt8) : List UInt8 :=
  if value.getLast? = some 0x2E then value.dropLast else value

/-- A character a label begins and ends with. -/
def isLabelEdge (c : Char) : Bool :=
  decide ('a' ≤ c ∧ c ≤ 'z') || decide ('0' ≤ c ∧ c ≤ '9')

/-- Is this a label: letters, digits and inner hyphens, at most 63 of them? -/
def domainLabelPattern : List Char → Bool
  | [] => false
  | c :: r =>
    isLabelEdge c && (r.isEmpty || decide (r.length ≤ 62) &&
      r.dropLast.all (fun c => isLabelEdge c || c == '-') && r.getLast?.any isLabelEdge)

/-- Is this field of an address a number up to 255 without leading zeros? -/
def isOctet (field : List Char) : Bool :=
  !field.isEmpty && field.all Char.isDigit && decide (Nat.ofDigitChars 10 field 0 ≤ 255) &&
    (decide (field.length = 1) || field.head? != some '0')

/-- Is this an IPv4 address?  An IPv6 address has a colon, which no label has. -/
def isAddress (name : List Char) : Bool :=
  decide ((name.splitOn '.').length = 4) && (name.splitOn '.').all isOctet

def ownDomain : List Char := "pokrov.space".toList

/-- The name, folded. -/
def foldName (t : CaseTable) (value : List UInt8) : List Char :=
  (decode (trimDot value)).map t.lower

/-- **The name to compare**, if it is an acceptable one. -/
def normalizeDomain (t : CaseTable) (value : List UInt8) : Option String :=
  let name := foldName t value
  if name = [] ∨ 253 < Json.byteLength name ∨ name = ownDomain ∨ '.' :: ownDomain <:+ name then none
  else if isAddress name then none
  else if (name.splitOn '.').length < 2 then none
  else if (name.splitOn '.').all domainLabelPattern then some (String.ofList name)
  else none

/-- A name of at least two labels that is not an address. -/
structure HostName (name : List Char) : Prop where
  length : Json.byteLength name ≤ 253
  not_address : isAddress name = false
  labels : 2 ≤ (name.splitOn '.').length
  label : ∀ label ∈ name.splitOn '.', domainLabelPattern label = true

variable {t : CaseTable} {name : String}

theorem normalizeDomain_iff {value : List UInt8} :
    normalizeDomain t value = some name ↔ name.toList = foldName t value ∧
      HostName (foldName t value) ∧
      ¬ (foldName t value = ownDomain ∨ '.' :: ownDomain <:+ foldName t value) := by
  constructor
  · intro h
    unfold normalizeDomain at h
    dsimp only at h
    split_ifs at h with hbad haddress hone hlabels
    obtain rfl := Option.some.inj h
    push Not at hbad
    refine ⟨String.toList_ofList, ⟨hbad.2.1, Bool.not_eq_true _ ▸ haddress, not_lt.mp hone,
      List.all_eq_true.mp hlabels⟩, ?_⟩
    rintro (hown | hown)
    · exact hbad.2.2.1 hown
    · exact hbad.2.2.2 hown
  · rintro ⟨hname, hhost, hown⟩
    have hne : foldName t value ≠ [] := fun h => by
      have htwo := hhost.labels
      rw [h] at htwo
      exact absurd htwo (by decide)
    push Not at hown
    unfold normalizeDomain
    dsimp only
    rw [if_neg, if_neg, if_neg (not_lt.mpr hhost.labels), if_pos (List.all_eq_true.mpr hhost.label),
      ← hname, String.ofList_toList]
    · rw [hhost.not_address]
      exact Bool.false_ne_true
    · rintro (h | h | h | h)
      · exact hne h
      · exact absurd hhost.length (not_le.mpr h)
      · exact hown.1 h
      · exact hown.2 h

/-- The check of the constructor on the domains of a grant. -/
def acceptsScope (t : CaseTable) (externalECHOuterSNI : Bool) (domains : List SmartAccessDomain) :
    Bool :=
  decide (domains.length ≠ 0 ∧ domains.length ≤ 256) && decide domains.Nodup &&
    domains.all fun domain =>
      decide (normalizeDomain t (encode domain.name.toList) = some domain.name) &&
        !(externalECHOuterSNI && domain.kind != .exact)

/-! ## Names on the wire -/

/-- Only ASCII `A` to `Z` lowered. -/
def lowerByte (b : UInt8) : UInt8 := if 65 ≤ b.toNat ∧ b.toNat ≤ 90 then b + 32 else b

/-- The bytes of a name without one trailing dot, lowered. -/
def wireName (wire : List UInt8) : List UInt8 := (trimDot wire).map lowerByte

/-- **The bytes spell a name of the scope**: an entry, or a subdomain of a suffix entry. -/
def InScope (domains : List SmartAccessDomain) (wire : List UInt8) : Prop :=
  ∃ d ∈ domains, wireName wire = encode d.name.toList ∨
    d.kind = .suffix ∧ encode ('.' :: d.name.toList) <:+ wireName wire

/-- The bytes spell `pokrov.space` or a subdomain of it. -/
def Owned (wire : List UInt8) : Prop :=
  wireName wire = encode ownDomain ∨ encode ('.' :: ownDomain) <:+ wireName wire

/-- The bytes that are compared with an entry are ASCII: all of them, or as many of the last as the
suffix has characters. -/
def SpeltInAscii (d : SmartAccessDomain) (name : List Char) (value : List UInt8) : Prop :=
  name = d.name.toList ∧ (∀ b ∈ value, b.toNat < 0x80) ∨
    d.kind = .suffix ∧ '.' :: d.name.toList <:+ name ∧
      ∀ b ∈ value.drop (value.length - (d.name.toList.length + 1)), b.toNat < 0x80

variable {wire : List UInt8}

theorem mem_of_mem_trimDot {b : UInt8} (h : b ∈ trimDot wire) : b ∈ wire := by
  unfold trimDot at h
  split_ifs at h
  · exact (List.dropLast_sublist wire).subset h
  · exact h

/-! ## Folding ASCII -/

theorem toNat_lowerByte_lt_iff (b : UInt8) : (lowerByte b).toNat < 0x80 ↔ b.toNat < 0x80 := by
  unfold lowerByte
  split_ifs with h
  · rw [UInt8.toNat_add]
    have : (32 : UInt8).toNat = 32 := rfl
    omega
  · rfl

theorem lower_ofNat (t : CaseTable) {b : UInt8} (hb : b.toNat < 0x80) :
    t.lower (Char.ofNat b.toNat) = Char.ofNat (lowerByte b).toNat := by
  have hascii : ∀ n < 0x80, (Char.ofNat n).toLower =
      Char.ofNat (lowerByte (UInt8.ofNat n)).toNat := by decide +kernel
  rw [CaseTable.lower, if_pos (by rwa [Utf8.toNat_ofNat (by left; omega)]), hascii _ hb,
    UInt8.ofNat_toNat]

theorem map_lower_decode (t : CaseTable) {l : List UInt8} (h : ∀ b ∈ l, b.toNat < 0x80) :
    (decode l).map t.lower = decode (l.map lowerByte) := by
  rw [Utf8.decode_of_ascii h, Utf8.decode_of_ascii, List.map_map, List.map_map]
  · exact List.map_congr_left fun b hb => lower_ofNat t (h b hb)
  · intro b hb
    obtain ⟨c, hc, rfl⟩ := List.mem_map.mp hb
    exact (toNat_lowerByte_lt_iff c).mpr (h c hc)

/-- **What ends a name on the wire ends the folded name**, where it is ASCII. -/
theorem foldName_of_split (t : CaseTable) {p s : List UInt8} (hwire : trimDot wire = p ++ s)
    (hs : ∀ b ∈ s, b.toNat < 0x80) :
    foldName t wire = (decode p).map t.lower ++ decode (s.map lowerByte) := by
  rw [foldName, hwire, Utf8.decode_append p hs, List.map_append, map_lower_decode t hs]

variable {cs : List Char}

/-- A text that ends the lowered bytes ends the folded name. -/
theorem foldName_of_suffix (t : CaseTable) {q : List UInt8} (hcs : ∀ c ∈ cs, c.toNat < 0x80)
    (h : wireName wire = q ++ encode cs) :
    ∃ p s, trimDot wire = p ++ s ∧ p.map lowerByte = q ∧ s.map lowerByte = encode cs ∧
      (∀ b ∈ s, b.toNat < 0x80) ∧ foldName t wire = (decode p).map t.lower ++ cs := by
  obtain ⟨p, s, hps, hp, hs⟩ := List.map_eq_append_iff.mp h
  have hascii : ∀ b ∈ s, b.toNat < 0x80 := fun b hb =>
    (toNat_lowerByte_lt_iff b).mp (Utf8.encode_ascii hcs _ (hs ▸ List.mem_map_of_mem hb))
  refine ⟨p, s, hps, hp, hs, hascii, ?_⟩
  rw [foldName_of_split t hps hascii, hs, Utf8.decode_encode hcs]

/-! ## Never an own name -/

theorem ownDomain_ascii : ∀ c ∈ ownDomain, c.toNat < 0x80 := by
  have hall : ownDomain.all (fun c => decide (c.toNat < 0x80)) = true := by decide +kernel
  exact fun c hc => of_decide_eq_true (List.all_eq_true.mp hall c hc)

theorem dot_cons_ascii (h : ∀ c ∈ cs, c.toNat < 0x80) :
    ∀ c ∈ '.' :: cs, c.toNat < 0x80 :=
  List.forall_mem_cons.mpr ⟨by decide, h⟩

/-- **No acceptable name is one of `pokrov.space`**, on the wire either. -/
theorem not_owned (h : normalizeDomain t wire = some name) :
    ¬ Owned wire := by
  have hname := (normalizeDomain_iff.mp h).2.2
  rintro (hown | ⟨q, hown⟩)
  · obtain ⟨p, s, _, hp, _, _, hfold⟩ := foldName_of_suffix t (q := []) ownDomain_ascii hown
    obtain rfl := List.map_eq_nil_iff.mp hp
    exact hname (.inl hfold)
  · obtain ⟨p, s, _, _, _, _, hfold⟩ :=
      foldName_of_suffix t (dot_cons_ascii ownDomain_ascii) hown.symm
    exact hname (.inr ⟨_, hfold.symm⟩)

/-! ## Names of the scope -/

theorem mem_splitOn {α : Type} [BEq α] [LawfulBEq α] {c d : α} : ∀ {l : List α}, c ∈ l →
    c = d ∨ ∃ part ∈ l.splitOn d, c ∈ part
  | x :: l, h => by
    rw [List.splitOn, List.splitOnP_cons_eq_if_modifyHead]
    by_cases hx : x = d
    · subst hx
      rw [if_pos (beq_self_eq_true x)]
      rcases List.mem_cons.mp h with rfl | h
      · exact .inl rfl
      · exact (mem_splitOn h).imp_right fun ⟨part, hpart, hc⟩ =>
          ⟨part, List.mem_cons_of_mem _ hpart, hc⟩
    · rw [if_neg (by simpa using hx)]
      obtain ⟨head, rest, hsplit⟩ := List.exists_cons_of_ne_nil (List.splitOnP_ne_nil (· == d) l)
      rw [hsplit, List.modifyHead_cons]
      rcases List.mem_cons.mp h with rfl | h
      · exact .inr ⟨_, List.mem_cons_self, List.mem_cons_self⟩
      · refine (mem_splitOn h).imp_right fun ⟨part, hpart, hc⟩ => ?_
        rw [List.splitOn, hsplit] at hpart
        rcases List.mem_cons.mp hpart with rfl | hpart
        · exact ⟨_, List.mem_cons_self, List.mem_cons_of_mem _ hc⟩
        · exact ⟨part, List.mem_cons_of_mem _ hpart, hc⟩

theorem isLabelEdge_ascii {c : Char} (h : isLabelEdge c = true) : c.toNat < 0x80 := by
  rw [isLabelEdge, Bool.or_eq_true, decide_eq_true_eq, decide_eq_true_eq] at h
  rcases h with ⟨_, h⟩ | ⟨_, h⟩
  · exact Nat.lt_of_le_of_lt h (by decide)
  · exact Nat.lt_of_le_of_lt h (by decide)

/-- **A label**: letters, digits and hyphens, at most 63 of them, no hyphen at either end. -/
theorem domainLabelPattern_iff {label : List Char} : domainLabelPattern label = true ↔
    label ≠ [] ∧ label.length ≤ 63 ∧ label.head? ≠ some '-' ∧ label.getLast? ≠ some '-' ∧
      ∀ c ∈ label, isLabelEdge c = true ∨ c = '-' := by
  have hyphen : ∀ {c : Char}, isLabelEdge c = true → c ≠ '-' := fun h hc => by
    rw [hc] at h
    exact absurd h (by decide)
  cases label with
  | nil => simp [domainLabelPattern]
  | cons c r =>
    rcases List.eq_nil_or_concat r with rfl | ⟨inner, last, rfl⟩
    · simp only [domainLabelPattern, List.isEmpty_nil, Bool.true_or, Bool.and_true, ne_eq,
        reduceCtorEq, not_false_eq_true, List.length_singleton, Nat.reduceLeDiff, List.head?_cons,
        List.getLast?_singleton, Option.some.injEq, List.mem_singleton, forall_eq, true_and]
      exact ⟨fun h => ⟨hyphen h, hyphen h, .inl h⟩, fun h => h.2.2.resolve_right h.1⟩
    · have hempty : (inner ++ [last]).isEmpty = false := by simp
      have hend : (c :: (inner ++ [last])).getLast? = some last :=
        List.getLast?_concat (l := c :: inner)
      simp only [domainLabelPattern, List.concat_eq_append, hempty, hend, Bool.false_or,
        List.dropLast_concat, List.getLast?_concat, Option.any_some, Bool.and_eq_true,
        decide_eq_true_eq, List.all_eq_true, Bool.or_eq_true, beq_iff_eq, List.length_cons,
        List.head?_cons, ne_eq, Option.some.injEq, List.forall_mem_cons, List.forall_mem_append,
        List.not_mem_nil, false_implies, implies_true, and_true]
      constructor
      · rintro ⟨hc, ⟨hlen, hinner⟩, hlast⟩
        exact ⟨List.cons_ne_nil _ _, by omega, hyphen hc, hyphen hlast, .inl hc, hinner, .inl hlast⟩
      · rintro ⟨_, hlen, hc, hlast, hc', hinner, hlast'⟩
        exact ⟨hc'.resolve_right hc, ⟨by omega, hinner⟩, hlast'.resolve_right hlast⟩

theorem domainLabelPattern_ascii {label : List Char} (h : domainLabelPattern label = true) :
    ∀ c ∈ label, c.toNat < 0x80 := fun c hc => by
  rcases (domainLabelPattern_iff.mp h).2.2.2.2 c hc with hedge | rfl
  · exact isLabelEdge_ascii hedge
  · decide

/-- The characters of an acceptable name are ASCII. -/
theorem normalizeDomain_spec {value : List UInt8} (h : normalizeDomain t value = some name) :
    name.toList = foldName t value ∧ ∀ c ∈ name.toList, c.toNat < 0x80 := by
  obtain ⟨hname, hhost, _⟩ := normalizeDomain_iff.mp h
  refine ⟨hname, fun c hc => ?_⟩
  rw [hname] at hc
  rcases mem_splitOn (d := '.') hc with rfl | ⟨label, hlabel, hc⟩
  · decide
  · exact domainLabelPattern_ascii (hhost.label label hlabel) c hc

variable {domains : List SmartAccessDomain}

theorem acceptsScope_ascii {externalECHOuterSNI : Bool}
    (h : acceptsScope t externalECHOuterSNI domains = true) :
    ∀ d ∈ domains, ∀ c ∈ d.name.toList, c.toNat < 0x80 := by
  rw [acceptsScope, Bool.and_eq_true, List.all_eq_true] at h
  intro d hd
  exact (normalizeDomain_spec (of_decide_eq_true (Bool.and_eq_true_iff.mp (h.2 d hd)).1)).2

theorem wireName_ascii_iff (wire : List UInt8) :
    (∀ b ∈ wireName wire, b.toNat < 0x80) ↔ ∀ b ∈ trimDot wire, b.toNat < 0x80 := by
  simp only [wireName, List.forall_mem_map, toNat_lowerByte_lt_iff]

theorem length_encode (h : ∀ c ∈ cs, c.toNat < 0x80) :
    (encode cs).length = cs.length := by
  rw [Utf8.encode_of_ascii h, List.length_map]

/-- An entry the wire spells is spelt in ASCII… -/
theorem speltInAscii_of_spells {d : SmartAccessDomain} (hd : ∀ c ∈ d.name.toList, c.toNat < 0x80)
    (h : wireName wire = encode d.name.toList ∨
      d.kind = .suffix ∧ encode ('.' :: d.name.toList) <:+ wireName wire) :
    SpeltInAscii d (foldName t wire) (trimDot wire) := by
  rcases h with h | ⟨hkind, q, h⟩
  · obtain ⟨p, s, hps, hp, _, hs, hfold⟩ := foldName_of_suffix t (q := []) hd h
    obtain rfl := List.map_eq_nil_iff.mp hp
    exact .inl ⟨hfold, hps ▸ hs⟩
  · obtain ⟨p, s, hps, _, hmap, hs, hfold⟩ := foldName_of_suffix t (dot_cons_ascii hd) h.symm
    refine .inr ⟨hkind, ⟨_, hfold.symm⟩, ?_⟩
    have hlen : s.length = d.name.toList.length + 1 := by
      rw [← List.length_map lowerByte, hmap, length_encode (dot_cons_ascii hd)]
      rfl
    rw [hps, ← hlen, List.length_append, Nat.add_sub_cancel, List.drop_left]
    exact hs

/-- …and conversely. -/
theorem spells_of_speltInAscii {d : SmartAccessDomain}
    (h : SpeltInAscii d (foldName t wire) (trimDot wire)) :
    wireName wire = encode d.name.toList ∨
      d.kind = .suffix ∧ encode ('.' :: d.name.toList) <:+ wireName wire := by
  rcases h with ⟨hfold, hascii⟩ | ⟨hkind, ⟨x, hx⟩, hs⟩
  · left
    rw [foldName, map_lower_decode t hascii] at hfold
    rw [← hfold, ← wireName, Utf8.encode_decode ((wireName_ascii_iff wire).mpr hascii)]
  · right
    obtain ⟨p, s, hps, hp, rfl⟩ : ∃ p s, trimDot wire = p ++ s ∧
        p = (trimDot wire).take ((trimDot wire).length - (d.name.toList.length + 1)) ∧
        s = (trimDot wire).drop ((trimDot wire).length - (d.name.toList.length + 1)) :=
      ⟨_, _, (List.take_append_drop _ _).symm, rfl, rfl⟩
    generalize hs' : (trimDot wire).drop _ = s at hs hps
    have hfold := foldName_of_split t hps hs
    have hlow : ∀ b ∈ s.map lowerByte, b.toNat < 0x80 := by
      simpa only [List.forall_mem_map, toNat_lowerByte_lt_iff] using hs
    have hsize : (decode (s.map lowerByte)).length = s.length := by
      rw [Utf8.decode_of_ascii hlow, List.length_map, List.length_map]
    -- a name shorter than the suffix would be all ASCII, and as short when folded
    have hlen : s.length = d.name.toList.length + 1 := by
      have hx := congrArg List.length (hx.trans hfold)
      have hl := congrArg List.length hps
      have hp := congrArg List.length hp
      have hs' := congrArg List.length hs'
      simp only [List.length_append, List.length_cons, List.length_map, List.length_take,
        List.length_drop, hsize] at hx hl hp hs'
      have hnil : p.length = 0 → (decode p).length = 0 := fun h => by
        rw [List.length_eq_zero_iff.mp h]
        rfl
      omega
    obtain ⟨_, hdecode⟩ := List.append_inj' (hx.trans hfold) (by rw [hsize, hlen]; rfl)
    refine ⟨hkind, p.map lowerByte, ?_⟩
    rw [hdecode, Utf8.encode_decode hlow, wireName, hps, List.map_append]

/-- **The bytes on the wire spell a name of the scope exactly when the bytes compared with it are
ASCII.** -/
theorem inScope_iff (t : CaseTable) (hscope : ∀ d ∈ domains, ∀ c ∈ d.name.toList, c.toNat < 0x80) :
    InScope domains wire ↔ ∃ d ∈ domains, SpeltInAscii d (foldName t wire) (trimDot wire) := by
  constructor
  · rintro ⟨d, hd, h⟩
    exact ⟨d, hd, speltInAscii_of_spells (hscope d hd) h⟩
  · rintro ⟨d, hd, h⟩
    exact ⟨d, hd, spells_of_speltInAscii h⟩

end PokrovCore.SmartAccess
