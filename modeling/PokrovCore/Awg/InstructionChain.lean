import PokrovCore.Foundations.Regex
import Mathlib.Algebra.GroupWithZero.Nat
import Mathlib.Data.List.Forall2

/-!
# Awg/InstructionChain — which instruction chains are accepted

A chain is looked through for tags with a pattern, and accepted if the tags found follow on each other
from its beginning to its end and stand for 1 to 512 bytes together.  `Tag` is the grammar of the tags
a chain may have; a text is accepted exactly when it is a chain of these
(`validateInstructionChain_iff`).
-/

namespace PokrovCore.Awg

/-! ## Tags in a text -/

/-- The bytes of some ASCII characters. -/
def ascii (l : List Char) : List UInt8 := l.map Char.toUInt8

/-- A class of bytes, by its ends. -/
def between (first last : Char) (b : UInt8) : Bool :=
  decide (first.toUInt8 ≤ b) && decide (b ≤ last.toUInt8)

def isDigit (b : UInt8) : Bool := between '0' '9' b

def isHexDigit (b : UInt8) : Bool := between '0' '9' b || between 'A' 'F' b || between 'a' 'f' b

def instructionTokenPattern : Regex UInt8 :=
  .alt (.literal (ascii ['<', 't', '>'])) <|
  .alt (.seq (.literal (ascii ['<', 'b', ' ', '0', 'x'])) <|
    .seq (.plus isHexDigit) (.literal (ascii ['>']))) <|
  .seq (.literal (ascii ['<'])) <|
    .seq (.alt (.literal (ascii ['r'])) <|
      .alt (.literal (ascii ['r', 'd'])) (.literal (ascii ['r', 'c']))) <|
    .seq (.literal (ascii [' '])) <| .seq (.one (between '1' '9')) <|
    .seq (.rep (some 3) isDigit) (.literal (ascii ['>']))

/-- `strings.Trim(token, "<>")` -/
def trim (token : List UInt8) : List UInt8 :=
  let angle (b : UInt8) : Bool := (ascii ['<', '>']).contains b
  ((token.dropWhile angle).reverse.dropWhile angle).reverse

/-- White space. -/
def isSpace (b : UInt8) : Bool := between '\t' '\r' b || b == ' '.toUInt8

/-- `strings.Fields`, on ASCII. -/
def fields (s : List UInt8) : List (List UInt8) := (s.splitOnP isSpace).filter (! ·.isEmpty)

/-- The number some digits spell. -/
def decimal (s : List UInt8) : ℕ := s.foldl (fun n b => n * 10 + (b.toNat - 48)) 0

/-- `strconv.Atoi`, of a text without a sign. -/
def atoi (s : List UInt8) : Option ℕ :=
  if s ≠ [] ∧ s.all isDigit = true ∧ decimal s ≤ 9223372036854775807 then some (decimal s) else none

/-- The bytes a tag stands for. -/
def tagBytes (token : List UInt8) : Except String ℕ :=
  if token = ascii ['<', 't', '>'] then .ok 4
  else if ascii ['<', 'b', ' ', '0', 'x'] <+: token then
    let hexLength := token.length - 5 - 1
    if hexLength = 0 ∨ hexLength % 2 ≠ 0 then
      .error "static byte tag must contain complete bytes"
    else .ok (hexLength / 2)
  else
    match fields (trim token) with
    | [_, number] =>
      match atoi number with
      | none => .error "random tag size is outside the supported bound"
      | some size =>
        if size < 1 ∨ 512 < size then .error "random tag size is outside the supported bound"
        else .ok size
    | _ => .error "random tag must contain one size"

/-- The loop over the tags: the end of the last one, and the bytes so far. -/
def chainLoop (value : List UInt8) : List (ℕ × ℕ) → ℕ → ℕ → Except String (ℕ × ℕ)
  | [], offset, generatedBytes => .ok (offset, generatedBytes)
  | m :: matched, offset, generatedBytes =>
    if m.1 ≠ offset then .error "unsupported instruction text"
    else
      match tagBytes ((value.drop m.1).take (m.2 - m.1)) with
      | .error e => .error e
      | .ok bytes => chainLoop value matched m.2 (generatedBytes + bytes)

/-- **The check of an instruction chain.** -/
def validateInstructionChain (value : List UInt8) : Except String Unit :=
  if 2048 < value.length ∨ value.any (ascii ['\r', '\n', '\x00']).contains = true then
    .error "unsafe instruction encoding"
  else
    let matched := instructionTokenPattern.findFrom 0 0 value
    if matched = [] then .error "no supported instruction tags"
    else
      match chainLoop value matched 0 0 with
      | .error e => .error e
      | .ok (offset, generatedBytes) =>
        if offset ≠ value.length ∨ generatedBytes < 1 ∨ 512 < generatedBytes then
          .error "instruction packet must be between 1 and 512 bytes"
        else .ok ()

/-! ## The grammar -/

/-- The kinds of random tags. -/
inductive RandomKind
  | r | rd | rc
  deriving DecidableEq, Repr

def RandomKind.text : RandomKind → List UInt8
  | .r => ascii ['r']
  | .rd => ascii ['r', 'd']
  | .rc => ascii ['r', 'c']

/-- **A tag**: a time, whole bytes in hexadecimal digits, or a number of random bytes from 1 to 512,
in decimal digits of which the first is not zero. -/
inductive Tag
  | t
  | b (hex : List UInt8) (ne_nil : hex ≠ []) (even : hex.length % 2 = 0)
    (digits : ∀ c ∈ hex, isHexDigit c = true)
  | random (kind : RandomKind) (number : List UInt8) (digits : ∀ c ∈ number, isDigit c = true)
    (leading : number.head? ≠ some '0'.toUInt8) (pos : 1 ≤ decimal number)
    (le : decimal number ≤ 512)

namespace Tag

def text : Tag → List UInt8
  | t => ascii ['<', 't', '>']
  | b hex .. => ascii ['<', 'b', ' ', '0', 'x'] ++ (hex ++ ascii ['>'])
  | random kind number .. =>
    ascii ['<'] ++ (kind.text ++ (ascii [' '] ++ (number ++ ascii ['>'])))

/-- The bytes a tag generates. -/
def size : Tag → ℕ
  | t => 4
  | b hex .. => hex.length / 2
  | random _ number .. => decimal number

end Tag

/-! ## The words of the pattern -/

variable {w : List UInt8}

/-- The words of the pattern: tags up to the number of bytes. -/
theorem matches_iff : instructionTokenPattern.Matches w ↔ w = ascii ['<', 't', '>'] ∨
    (∃ hex, hex ≠ [] ∧ (∀ c ∈ hex, isHexDigit c = true) ∧
      w = ascii ['<', 'b', ' ', '0', 'x'] ++ (hex ++ ascii ['>'])) ∨
    ∃ (kind : RandomKind) (d : UInt8) (number : List UInt8), between '1' '9' d = true ∧
      (∀ c ∈ number, isDigit c = true) ∧ number.length ≤ 3 ∧
      w = ascii ['<'] ++ (kind.text ++ (ascii [' '] ++ ((d :: number) ++ ascii ['>']))) := by
  unfold instructionTokenPattern
  constructor
  · rintro (h | ⟨u, v, rfl, hu, hex, x, rfl, hhex, hx⟩ | ⟨u, v, rfl, hu, kind, v, rfl, hkind, x, v,
      rfl, hx, y, v, rfl, ⟨d, hd, rfl⟩, number, z, rfl, ⟨hdigits, hlen⟩, hz⟩)
    · exact .inl (Regex.matches_literal.mp h)
    · obtain ⟨hne, hall⟩ := Regex.matches_plus.mp hhex
      exact .inr (.inl ⟨hex, hne, hall, by
        rw [Regex.matches_literal.mp hu, Regex.matches_literal.mp hx]⟩)
    · obtain ⟨kind', rfl⟩ : ∃ k : RandomKind, kind = k.text := by
        rcases hkind with h | h | h
        · exact ⟨.r, Regex.matches_literal.mp h⟩
        · exact ⟨.rd, Regex.matches_literal.mp h⟩
        · exact ⟨.rc, Regex.matches_literal.mp h⟩
      refine .inr (.inr ⟨kind', d, number, hd, hdigits, hlen 3 rfl, ?_⟩)
      rw [Regex.matches_literal.mp hu, Regex.matches_literal.mp hx, Regex.matches_literal.mp hz]
      rfl
  · rintro (rfl | ⟨hex, hne, hall, rfl⟩ | ⟨kind, d, number, hd, hdigits, hlen, rfl⟩)
    · exact .inl (Regex.matches_literal.mpr rfl)
    · exact .inr (.inl ⟨_, _, rfl, Regex.matches_literal.mpr rfl, _, _, rfl,
        Regex.matches_plus.mpr ⟨hne, hall⟩, Regex.matches_literal.mpr rfl⟩)
    · refine .inr (.inr ⟨_, _, rfl, Regex.matches_literal.mpr rfl, _, _, rfl, ?_, _, _, rfl,
        Regex.matches_literal.mpr rfl, [d], number ++ ascii ['>'], rfl, ⟨d, hd, rfl⟩, _, _, rfl,
        ⟨hdigits, fun n hn => Option.some.inj hn ▸ hlen⟩, Regex.matches_literal.mpr rfl⟩)
      cases kind with
      | r => exact .inl (Regex.matches_literal.mpr rfl)
      | rd => exact .inr (.inl (Regex.matches_literal.mpr rfl))
      | rc => exact .inr (.inr (Regex.matches_literal.mpr rfl))

variable {b : UInt8}

theorem isDigit_of_between (h : between '1' '9' b = true) : isDigit b = true := by
  simp only [isDigit, between, Bool.and_eq_true, decide_eq_true_eq] at h ⊢
  exact ⟨UInt8.le_trans (by decide) h.1, h.2⟩

theorem isHexDigit_of_isDigit (h : isDigit b = true) : isHexDigit b = true := by
  rw [isDigit] at h
  rw [isHexDigit, h]
  rfl

/-- The bytes a check looks for: the ends of a tag, and what no chain may have. -/
def marks : List UInt8 := ascii ['<', '>', '\r', '\n', '\x00']

/-- No digit is one of these, or white space. -/
theorem isHexDigit_spec (h : isHexDigit b = true) : b ∉ marks ∧ isSpace b = false := by
  have hall : ∀ n < 256, isHexDigit (UInt8.ofNat n) = true →
      UInt8.ofNat n ∉ marks ∧ isSpace (UInt8.ofNat n) = false := by
    decide +kernel
  have hb := hall b.toNat b.toNat_lt
  rw [UInt8.ofNat_toNat] at hb
  exact hb h

variable (kind : RandomKind)

theorem RandomKind.text_spec :
    kind.text ≠ [] ∧ ∀ b ∈ kind.text, b ∉ marks ∧ isSpace b = false := by
  cases kind <;> decide +kernel

variable {number : List UInt8}

/-- What stands in a random tag has neither end in it. -/
theorem not_mem_marks_of_random {kind : RandomKind} (hdigits : ∀ c ∈ number, isDigit c = true) :
    ∀ b ∈ kind.text ++ (ascii [' '] ++ number), b ∉ marks := by
  have hspace : ' '.toUInt8 ∉ marks := by decide
  simp only [List.forall_mem_append]
  exact ⟨fun b hb => (kind.text_spec.2 b hb).1, fun b hb => List.mem_singleton.mp hb ▸ hspace,
    fun b hb => (isHexDigit_spec (isHexDigit_of_isDigit (hdigits b hb))).1⟩

theorem random_eq (number : List UInt8) :
    ascii ['<'] ++ (kind.text ++ (ascii [' '] ++ (number ++ ascii ['>']))) =
      (ascii ['<'] ++ (kind.text ++ (ascii [' '] ++ number))) ++ ascii ['>'] := by
  simp only [List.append_assoc]

/-- **Every word ends with an angle, and has no other.** -/
theorem prefixFree_pattern : instructionTokenPattern.PrefixFree :=
  Regex.PrefixFree.of_end (d := '>'.toUInt8) fun w hw => by
    have hmark : '>'.toUInt8 ∈ marks := by decide
    rcases matches_iff.mp hw with rfl | ⟨hex, _, hall, rfl⟩ | ⟨kind, d, number, hd, hdigits, _, rfl⟩
    · exact ⟨ascii ['<', 't'], rfl, by decide⟩
    · refine ⟨ascii ['<', 'b', ' ', '0', 'x'] ++ hex, (List.append_assoc _ _ _).symm, fun h => ?_⟩
      rcases List.mem_append.mp h with h | h
      · exact absurd h (by decide)
      · exact (isHexDigit_spec (hall _ h)).1 hmark
    · refine ⟨_, random_eq kind (d :: number), fun h => ?_⟩
      rcases List.mem_append.mp h with h | h
      · exact absurd h (by decide)
      · exact not_mem_marks_of_random
          (List.forall_mem_cons.mpr ⟨isDigit_of_between hd, hdigits⟩) _ h hmark

/-! ## The bytes of a tag -/

variable {size : ℕ}

theorem tagBytes_static {hex : List UInt8} :
    tagBytes (ascii ['<', 'b', ' ', '0', 'x'] ++ (hex ++ ascii ['>'])) = .ok size ↔
      hex ≠ [] ∧ hex.length % 2 = 0 ∧ size = hex.length / 2 := by
  have hlen : (ascii ['<', 'b', ' ', '0', 'x'] ++ (hex ++ ascii ['>'])).length - 5 - 1 =
      hex.length := by
    simp only [ascii, List.length_append, List.length_map, List.length_cons, List.length_nil]
    omega
  have hne : ascii ['<', 'b', ' ', '0', 'x'] ++ (hex ++ ascii ['>']) ≠ ascii ['<', 't', '>'] :=
    fun h => absurd (List.cons_eq_cons.mp (List.cons_eq_cons.mp h).2).1 (by decide)
  rw [tagBytes, if_neg hne, if_pos (List.prefix_append _ _)]
  simp only [hlen]
  split_ifs with hbad
  · refine iff_of_false (fun h => by cases h) fun ⟨hhex, heven, _⟩ => ?_
    rcases hbad with hnil | hodd
    · exact hhex (List.length_eq_zero_iff.mp hnil)
    · exact hodd heven
  · push Not at hbad
    refine ⟨fun h => ⟨fun hnil => hbad.1 (List.length_eq_zero_iff.mpr hnil), hbad.2,
      (Except.ok.inj h).symm⟩, fun h => congrArg _ h.2.2.symm⟩

theorem trim_tag {body : List UInt8} (hne : body ≠ []) (hbody : ∀ b ∈ body, b ∉ marks) :
    trim ((ascii ['<'] ++ body) ++ ascii ['>']) = body := by
  have hangle : ∀ b ∈ body, ¬ (ascii ['<', '>']).contains b = true := fun b hb h => by
    refine hbody b hb ?_
    rcases List.mem_pair.mp (List.contains_iff_mem.mp h) with rfl | rfl <;> decide
  have hfront : ((ascii ['<'] ++ body) ++ ascii ['>']).dropWhile (ascii ['<', '>']).contains =
      body ++ ascii ['>'] := by
    obtain ⟨c, rest, rfl⟩ := List.exists_cons_of_ne_nil hne
    exact (List.dropWhile_cons_of_pos (by decide)).trans
      (List.dropWhile_cons_of_neg (hangle c List.mem_cons_self))
  have hback : (body ++ ascii ['>']).reverse.dropWhile (ascii ['<', '>']).contains =
      body.reverse := by
    rw [List.reverse_append]
    refine (List.dropWhile_cons_of_pos (by decide)).trans ?_
    cases hrev : body.reverse with
    | nil => rfl
    | cons c rest =>
      exact List.dropWhile_cons_of_neg (hangle c (List.mem_reverse.mp (hrev ▸ List.mem_cons_self)))
  show (List.dropWhile _ (List.dropWhile _ _).reverse).reverse = body
  rw [hfront, hback, List.reverse_reverse]

theorem fields_random (hne : number ≠ []) (hdigits : ∀ c ∈ number, isDigit c = true) :
    fields (kind.text ++ (ascii [' '] ++ number)) = [kind.text, number] := by
  have hkind : ∀ b ∈ kind.text, isSpace b = false := fun b hb => (kind.text_spec.2 b hb).2
  have hnumber : ∀ b ∈ number, isSpace b = false := fun b hb =>
    (isHexDigit_spec (isHexDigit_of_isDigit (hdigits b hb))).2
  have hsplit : (kind.text ++ ' '.toUInt8 :: number).splitOnP isSpace = [kind.text, number] := by
    rw [List.splitOnP_append_cons_of_forall_mem hkind _ (by decide),
      List.splitOnP_eq_singleton hnumber]
  show ((kind.text ++ ' '.toUInt8 :: number).splitOnP isSpace).filter _ = _
  rw [hsplit]
  simp [kind.text_spec.1, hne]

theorem tagBytes_random (hne : number ≠ []) (hdigits : ∀ c ∈ number, isDigit c = true) :
    tagBytes (ascii ['<'] ++ (kind.text ++ (ascii [' '] ++ (number ++ ascii ['>'])))) = .ok size ↔
      1 ≤ decimal number ∧ decimal number ≤ 512 ∧ size = decimal number := by
  obtain ⟨rest, hrest⟩ : ∃ rest, ascii ['<'] ++ (kind.text ++ (ascii [' '] ++ number)) ++
      ascii ['>'] = '<'.toUInt8 :: 'r'.toUInt8 :: rest := by
    cases kind <;> exact ⟨_, rfl⟩
  have htime : ascii ['<'] ++ (kind.text ++ (ascii [' '] ++ number)) ++ ascii ['>'] ≠
      ascii ['<', 't', '>'] := fun h => by
    rw [hrest] at h
    exact absurd (List.cons_eq_cons.mp (List.cons_eq_cons.mp h).2).1 (by decide)
  have hstatic : ¬ ascii ['<', 'b', ' ', '0', 'x'] <+:
      ascii ['<'] ++ (kind.text ++ (ascii [' '] ++ number)) ++ ascii ['>'] := fun h => by
    rw [hrest] at h
    exact absurd (List.cons_prefix_cons.mp (List.cons_prefix_cons.mp h).2).1 (by decide)
  have hbody : kind.text ++ (ascii [' '] ++ number) ≠ [] := fun h =>
    kind.text_spec.1 (List.append_eq_nil_iff.mp h).1
  rw [random_eq, tagBytes, if_neg htime, if_neg hstatic,
    trim_tag hbody (not_mem_marks_of_random hdigits), fields_random kind hne hdigits]
  simp only [atoi, ne_eq, hne, not_false_eq_true, List.all_eq_true.mpr hdigits, true_and]
  by_cases hmax : decimal number ≤ 9223372036854775807
  · simp only [if_pos hmax]
    split_ifs with hbad
    · exact iff_of_false (fun h => by cases h) fun ⟨hpos, hle, _⟩ => by omega
    · rw [Except.ok.injEq]
      omega
  · simp only [if_neg hmax]
    exact iff_of_false (fun h => by cases h) fun ⟨_, hle, _⟩ => by omega

/-- Digits after some number make it no smaller. -/
theorem le_foldl_decimal (s : List UInt8) (n : ℕ) :
    n ≤ s.foldl (fun n b => n * 10 + (b.toNat - 48)) n := by
  induction s generalizing n with
  | nil => exact Nat.le_refl n
  | cons b s ih => exact Nat.le_trans (by omega) (ih (n * 10 + (b.toNat - 48)))

/-- A number up to 512 with a first digit has at most three of them. -/
theorem length_le_of_decimal {d : UInt8} {s : List UInt8} (hd : between '1' '9' d = true)
    (h : decimal (d :: s) ≤ 512) : s.length ≤ 3 := by
  rcases s with _ | ⟨a, _ | ⟨b, _ | ⟨c, _ | ⟨e, s⟩⟩⟩⟩
  · exact Nat.zero_le 3
  · exact Nat.le_add_left 1 2
  · exact Nat.le_add_left 2 1
  · exact Nat.le_refl 3
  · have hle : ((((0 * 10 + (d.toNat - 48)) * 10 + (a.toNat - 48)) * 10 + (b.toNat - 48)) * 10 +
        (c.toNat - 48)) * 10 + (e.toNat - 48) ≤ 512 := Nat.le_trans (le_foldl_decimal s _) h
    simp only [between, Bool.and_eq_true, decide_eq_true_eq, UInt8.le_iff_toNat_le] at hd
    have hone : '1'.toUInt8.toNat = 49 := rfl
    omega

theorem between_of_isDigit (h : isDigit b = true) (hne : b ≠ '0'.toUInt8) :
    between '1' '9' b = true := by
  simp only [isDigit, between, Bool.and_eq_true, decide_eq_true_eq, UInt8.le_iff_toNat_le] at h ⊢
  have hzero : '0'.toUInt8.toNat = 48 := rfl
  have hone : '1'.toUInt8.toNat = 49 := rfl
  have hcode : b.toNat ≠ 48 := fun h => hne (UInt8.toNat_inj.mp h)
  exact ⟨by omega, h.2⟩

/-- **The words of the pattern that stand for bytes are the tags.** -/
theorem exists_tag_iff : instructionTokenPattern.Matches w ∧ tagBytes w = .ok size ↔
    ∃ tag : Tag, tag.text = w ∧ tag.size = size := by
  constructor
  · rintro ⟨hw, hsize⟩
    rcases matches_iff.mp hw with rfl | ⟨hex, hne, hall, rfl⟩ | ⟨kind, d, number, hd, hdigits, _, rfl⟩
    · exact ⟨.t, rfl, Except.ok.inj hsize⟩
    · obtain ⟨_, heven, rfl⟩ := tagBytes_static.mp hsize
      exact ⟨.b hex hne heven hall, rfl, rfl⟩
    · have hall : ∀ c ∈ d :: number, isDigit c = true :=
        List.forall_mem_cons.mpr ⟨isDigit_of_between hd, hdigits⟩
      obtain ⟨hpos, hle, rfl⟩ := (tagBytes_random kind (List.cons_ne_nil d number) hall).mp hsize
      refine ⟨.random kind (d :: number) hall (fun h => ?_) hpos hle, rfl, rfl⟩
      rw [Option.some.inj h] at hd
      exact absurd hd (by decide)
  · rintro ⟨tag, rfl, rfl⟩
    cases tag with
    | t => exact ⟨matches_iff.mpr (.inl rfl), rfl⟩
    | b hex hne heven hall =>
      exact ⟨matches_iff.mpr (.inr (.inl ⟨hex, hne, hall, rfl⟩)),
        tagBytes_static.mpr ⟨hne, heven, rfl⟩⟩
    | random kind number hdigits hleading hpos hle =>
      have hne : number ≠ [] := fun h => by
        rw [h] at hpos
        exact absurd hpos (by decide)
      refine ⟨matches_iff.mpr (.inr (.inr ?_)),
        (tagBytes_random kind hne hdigits).mpr ⟨hpos, hle, rfl⟩⟩
      obtain ⟨d, rest, rfl⟩ := List.exists_cons_of_ne_nil hne
      obtain ⟨hd, hrest⟩ := List.forall_mem_cons.mp hdigits
      have hfirst := between_of_isDigit hd fun h => hleading (congrArg some h)
      exact ⟨kind, d, rest, hfirst, hrest, length_le_of_decimal hfirst hle, rfl⟩

/-! ## Chains -/

/-- The loop goes on only where a tag begins at the end of the one before. -/
theorem chained_of_chainLoop {value : List UInt8} {matched : List (ℕ × ℕ)} {k n e total : ℕ}
    (h : chainLoop value matched k n = .ok (e, total)) : Regex.Chained k matched e := by
  induction matched generalizing k n with
  | nil => exact (Prod.mk.inj (Except.ok.inj h)).1.symm
  | cons m matched ih =>
    rw [chainLoop] at h
    split_ifs at h with hstart
    split at h
    · cases h
    · exact ⟨not_not.mp hstart, ih h⟩

/-- **The loop over some words** adds up the bytes of each. -/
theorem chainLoop_places {ws : List (List UInt8)} {e total : ℕ} : ∀ {before : List UInt8} {n : ℕ},
    chainLoop (before ++ ws.flatten) (Regex.places before.length ws) before.length n =
        .ok (e, total) ↔
      e = (before ++ ws.flatten).length ∧
        ∃ sizes, List.Forall₂ (fun w size => tagBytes w = .ok size) ws sizes ∧
          total = n + sizes.sum := by
  induction ws with
  | nil =>
    intro before n
    simp only [Regex.places, chainLoop, List.flatten_nil, List.append_nil, Except.ok.injEq,
      Prod.mk.injEq, List.forall₂_nil_left_iff, exists_eq_left, List.sum_nil, Nat.add_zero]
    exact and_congr eq_comm eq_comm
  | cons w ws ih =>
    intro before n
    have htoken : ((before ++ (w :: ws).flatten).drop before.length).take
        (before.length + w.length - before.length) = w := by
      rw [List.drop_left, List.flatten_cons, Nat.add_sub_cancel_left, List.take_left]
    have hlength : before.length + w.length = (before ++ w).length := List.length_append.symm
    have hvalue : before ++ (w :: ws).flatten = (before ++ w) ++ ws.flatten := by
      rw [List.flatten_cons, List.append_assoc]
    rw [Regex.places, chainLoop, if_neg (not_not.mpr rfl)]
    dsimp only
    rw [htoken, hvalue, hlength]
    cases hw : tagBytes w with
    | error message =>
      refine iff_of_false (fun h => by cases h) ?_
      rintro ⟨_, sizes, hsizes, _⟩
      obtain ⟨size, _, hsize, _⟩ := List.forall₂_cons_left_iff.mp hsizes
      rw [hw] at hsize
      cases hsize
    | ok size =>
      refine ih.trans (and_congr_right fun _ => ⟨?_, ?_⟩)
      · rintro ⟨sizes, hsizes, rfl⟩
        exact ⟨size :: sizes, .cons hw hsizes, by rw [List.sum_cons, Nat.add_assoc]⟩
      · rintro ⟨_, hsizes, rfl⟩
        obtain ⟨size', sizes, hsize, hrest, rfl⟩ := List.forall₂_cons_left_iff.mp hsizes
        rw [hw] at hsize
        obtain rfl := Except.ok.inj hsize
        exact ⟨sizes, hrest, by rw [List.sum_cons, Nat.add_assoc]⟩

/-- Words that stand for bytes are the texts of tags. -/
theorem exists_tags_iff {ws : List (List UInt8)} {sizes : List ℕ} :
    (∀ w ∈ ws, instructionTokenPattern.Matches w) ∧
        List.Forall₂ (fun w size => tagBytes w = .ok size) ws sizes ↔
      ∃ tags : List Tag, ws = tags.map Tag.text ∧ sizes = tags.map Tag.size := by
  constructor
  · rintro ⟨hws, hsizes⟩
    induction hsizes with
    | nil => exact ⟨[], rfl, rfl⟩
    | cons hw _ ih =>
      obtain ⟨hmatch, hrest⟩ := List.forall_mem_cons.mp hws
      obtain ⟨tag, rfl, rfl⟩ := exists_tag_iff.mp ⟨hmatch, hw⟩
      obtain ⟨tags, rfl, rfl⟩ := ih hrest
      exact ⟨tag :: tags, rfl, rfl⟩
  · rintro ⟨tags, rfl, rfl⟩
    refine ⟨List.forall_mem_map.mpr fun tag _ => (exists_tag_iff.mpr ⟨tag, rfl, rfl⟩).1, ?_⟩
    rw [List.forall₂_map_left_iff, List.forall₂_map_right_iff]
    exact List.forall₂_same.mpr fun tag _ => (exists_tag_iff.mpr ⟨tag, rfl, rfl⟩).2

/-- A tag has none of the bytes that are not safe. -/
theorem Tag.safe (tag : Tag) : tag.text.any (ascii ['\r', '\n', '\x00']).contains = false := by
  have hplain : ∀ {l : List UInt8}, (∀ b ∈ l, b ∉ marks) →
      l.any (ascii ['\r', '\n', '\x00']).contains = false := fun hl => by
    refine List.any_eq_false.mpr fun b hb h => hl b hb ?_
    exact List.mem_cons_of_mem _ (List.mem_cons_of_mem _ (List.contains_iff_mem.mp h))
  cases tag with
  | t => decide
  | b hex _ _ hall =>
    rw [text, List.any_append, List.any_append, hplain fun b hb => (isHexDigit_spec (hall b hb)).1]
    decide
  | random kind number hdigits =>
    rw [text, random_eq, List.any_append, List.any_append, hplain (not_mem_marks_of_random hdigits)]
    decide

/-- **A chain is accepted exactly when it is one of tags**: at most 2048 bytes, at least one tag and
nothing between them, and 1 to 512 bytes generated together. -/
theorem validateInstructionChain_iff (value : List UInt8) :
    validateInstructionChain value = .ok () ↔ value.length ≤ 2048 ∧
      ∃ tags : List Tag, tags ≠ [] ∧ value = (tags.map Tag.text).flatten ∧
        1 ≤ (tags.map Tag.size).sum ∧ (tags.map Tag.size).sum ≤ 512 := by
  unfold validateInstructionChain
  dsimp only
  constructor
  · intro h
    split_ifs at h with hunsafe hnone
    split at h
    · cases h
    · rename_i offset total hloop
      split_ifs at h with hbad
      push Not at hunsafe hbad
      have hchained := chained_of_chainLoop hloop
      rw [hbad.1, ← Nat.zero_add value.length] at hchained
      obtain ⟨ws, hws, hvalue, hfind⟩ := hchained.flatten prefixFree_pattern
      rw [hfind, hvalue] at hloop
      obtain ⟨_, sizes, hsizes, rfl⟩ := (@chainLoop_places ws offset total [] 0).mp hloop
      obtain ⟨tags, rfl, rfl⟩ := exists_tags_iff.mp ⟨hws, hsizes⟩
      refine ⟨by omega, tags, fun hnil => hnone ?_, hvalue, by omega, by omega⟩
      rw [hfind, hnil]
      rfl
  · rintro ⟨hlen, tags, hne, rfl, hpos, hle⟩
    obtain ⟨hws, hsizes⟩ := exists_tags_iff.mpr ⟨tags, rfl, rfl⟩
    have hfind : instructionTokenPattern.findFrom 0 0 (tags.map Tag.text).flatten =
        Regex.places 0 (tags.map Tag.text) := prefixFree_pattern.findFrom_flatten hws
    have hloop := (@chainLoop_places (tags.map Tag.text) _ _ [] 0).mpr ⟨rfl, _, hsizes, rfl⟩
    rw [List.nil_append, List.length_nil] at hloop
    rw [if_neg, hfind, if_neg, hloop]
    · rw [Nat.zero_add]
      exact if_neg (by omega)
    · obtain ⟨tag, tags, rfl⟩ := List.exists_cons_of_ne_nil hne
      exact List.cons_ne_nil _ _
    · rintro (hlong | hunsafe)
      · omega
      · obtain ⟨b, hb, hcontrol⟩ := List.any_eq_true.mp hunsafe
        obtain ⟨_, htext, hb⟩ := List.mem_flatten.mp hb
        obtain ⟨tag, _, rfl⟩ := List.mem_map.mp htext
        exact List.any_eq_false.mp tag.safe b hb hcontrol

end PokrovCore.Awg
