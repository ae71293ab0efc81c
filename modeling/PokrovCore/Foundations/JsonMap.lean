import Mathlib.Algebra.BigOperators.Group.List.Basic
import PokrovCore.Foundations.JsonObject

/-!
# Foundations/JsonMap — objects as maps, and the size of a text

A decoder into maps keeps the last of the members with one key (`maps`).  A map is then its members,
read with `lookup` and written with `set`.  `byteLength_render_le` bounds the text of a value by a
sum over its parts, so that the size of a text can be bounded without its characters.
-/

namespace PokrovCore.Json

/-! ## Maps -/

mutual
/-- A value with maps for its objects. -/
def maps : Json → Json
  | .arr l => .arr (mapsItems l)
  | .obj l => .obj (mapsMembers l)
  | j => j

@[inherit_doc maps]
def mapsItems : List Json → List Json
  | [] => []
  | j :: l => maps j :: mapsItems l

@[inherit_doc maps]
def mapsMembers : List (String × Json) → List (String × Json)
  | [] => []
  | (k, j) :: l => if l.any (·.1 == k) then mapsMembers l else (k, maps j) :: mapsMembers l
end

/-- The members of an object. -/
def obj? : Json → Option (List (String × Json))
  | .obj members => some members
  | _ => none

/-- The text of a member. -/
def text? (members : List (String × Json)) (key : String) : Option String :=
  (members.lookup key).bind str?

/-- A map with a new value at a key. -/
def set (members : List (String × Json)) (key : String) (value : Json) : List (String × Json) :=
  members.filter (·.1 != key) ++ [(key, value)]

theorem lookup_filter_ne {key key' : String} (h : key' ≠ key) : ∀ members : List (String × Json),
    (members.filter (·.1 != key)).lookup key' = members.lookup key'
  | [] => rfl
  | (k, j) :: l => by
    have ih := lookup_filter_ne h l
    by_cases hk : k = key
    · subst hk
      have hne : (key' == k) = false := by simpa using h
      simpa [List.lookup_cons, hne] using ih
    · by_cases hk' : key' = k
      · subst hk'
        simp [h]
      · have hne : (key' == k) = false := by simpa using hk'
        simpa [List.lookup_cons, hk, hne] using ih

theorem lookup_set_ne {key key' : String} (h : key' ≠ key) (members : List (String × Json))
    (value : Json) : (set members key value).lookup key' = members.lookup key' := by
  have hne : (key' == key) = false := by simpa using h
  rw [set, List.lookup_append, lookup_filter_ne h, List.lookup_cons, hne]
  simp

/-! ## Sizes -/

theorem byteLength_append (l l' : List Char) :
    byteLength (l ++ l') = byteLength l + byteLength l' := by simp [byteLength]

theorem byteLength_cons (c : Char) (l : List Char) :
    byteLength (c :: l) = c.utf8Size + byteLength l := by simp [byteLength]

mutual
/-- A bound for the text of a value. -/
def weight : Json → ℕ
  | .null => 4
  | .bool _ => 5
  | .num lit => byteLength lit
  | .str s => 6 * s.toList.length + 2
  | .arr l => weightItems l + 2
  | .obj l => weightMembers l + 2

@[inherit_doc weight]
def weightItems : List Json → ℕ
  | [] => 0
  | j :: l => weight j + 1 + weightItems l

@[inherit_doc weight]
def weightMembers : List (String × Json) → ℕ
  | [] => 0
  | (k, j) :: l => 6 * k.toList.length + 4 + weight j + weightMembers l
end

theorem utf8Size_hexDigit {n : ℕ} (h : n < 16) : (hexDigit n).utf8Size = 1 := by
  have hall : ∀ k < 16, (hexDigit k).utf8Size = 1 := by decide
  exact hall n h

theorem byteLength_escapeChar_le (c : Char) : byteLength (escapeChar c) ≤ 6 := by
  have hsize := c.utf8Size_le_four
  have hcode : byteLength (escapeCode c.toNat) ≤ 6 := by
    simp only [escapeCode, byteLength_cons, utf8Size_hexDigit (Nat.mod_lt _ (by decide : 0 < 16))]
    decide
  unfold escapeChar
  split_ifs <;> first
    | exact hcode
    | decide
    | (simp [byteLength]; omega)

theorem byteLength_renderString_le (s : String) :
    byteLength (renderString s) ≤ 6 * s.toList.length + 2 := by
  have hflat : ∀ l : List Char, byteLength (l.flatMap escapeChar) ≤ 6 * l.length := by
    intro l
    induction l with
    | nil => simp [byteLength]
    | cons c l ih =>
      have hc := byteLength_escapeChar_le c
      simp only [List.flatMap_cons, byteLength_append, List.length_cons]
      omega
  have h := hflat s.toList
  have hquote : ('"' : Char).utf8Size = 1 := by decide
  simp only [renderString, byteLength_cons, byteLength_append, hquote]
  simp only [byteLength, List.map_nil, List.sum_nil]
  simp only [byteLength] at h
  omega

mutual
/-- **The text of a value is bounded by its weight.** -/
theorem byteLength_render_le : ∀ j : Json, byteLength (render j) ≤ weight j
  | .null => by decide
  | .bool true => by decide
  | .bool false => by decide
  | .num lit => Nat.le_refl _
  | .str s => byteLength_renderString_le s
  | .arr [] => by decide
  | .arr (j :: l) => by
    have hj := byteLength_render_le j
    have hl := byteLength_renderItems_le l
    have hbracket : ('[' : Char).utf8Size = 1 := by decide
    simp only [render, byteLength_cons, byteLength_append, hbracket, weight, weightItems]
    omega
  | .obj [] => by decide
  | .obj ((k, j) :: l) => by
    have hk := byteLength_renderString_le k
    have hj := byteLength_render_le j
    have hl := byteLength_renderMembers_le l
    have hbrace : ('{' : Char).utf8Size = 1 := by decide
    have hcolon : (':' : Char).utf8Size = 1 := by decide
    simp only [render, byteLength_cons, byteLength_append, hbrace, hcolon, weight, weightMembers]
    omega

theorem byteLength_renderItems_le : ∀ l : List Json,
    byteLength (renderItems l) ≤ weightItems l + 1
  | [] => by decide
  | j :: l => by
    have hj := byteLength_render_le j
    have hl := byteLength_renderItems_le l
    have hcomma : (',' : Char).utf8Size = 1 := by decide
    simp only [renderItems, byteLength_cons, byteLength_append, hcomma, weightItems]
    omega

theorem byteLength_renderMembers_le : ∀ l : List (String × Json),
    byteLength (renderMembers l) ≤ weightMembers l + 1
  | [] => by decide
  | (k, j) :: l => by
    have hk := byteLength_renderString_le k
    have hj := byteLength_render_le j
    have hl := byteLength_renderMembers_le l
    have hcomma : (',' : Char).utf8Size = 1 := by decide
    have hcolon : (':' : Char).utf8Size = 1 := by decide
    simp only [renderMembers, byteLength_cons, byteLength_append, hcomma, hcolon, weightMembers]
    omega
end

end PokrovCore.Json
