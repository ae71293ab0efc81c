import Mathlib.Data.List.Basic
import Mathlib.Algebra.Order.Ring.Int

/-!
# Foundations/Json — JSON values, the compact writer and the reader

A value keeps what a reader can tell apart: an object is its members in text order, duplicates
included, and a number is its literal.  `render` is the compact writer that escapes the HTML
characters and the two line separators; `parse` reads a whole text, white space and every escape
allowed.  Characters are Unicode scalars, so a lone surrogate escape reads as U+FFFD.
-/

namespace PokrovCore

/-- A JSON value. -/
inductive Json
  | null
  | bool (b : Bool)
  | num (lit : List Char)
  | str (s : String)
  | arr (items : List Json)
  | obj (members : List (String × Json))
  deriving Inhabited

namespace Json

/-! ## Writing -/

/-- A lower-case hexadecimal digit. -/
def hexDigit (n : ℕ) : Char := if n < 10 then Char.ofNat (48 + n) else Char.ofNat (87 + n)

/-- A character as the escape of its code. -/
def escapeCode (n : ℕ) : List Char :=
  ['\\', 'u', hexDigit (n / 4096 % 16), hexDigit (n / 256 % 16), hexDigit (n / 16 % 16),
    hexDigit (n % 16)]

/-- The characters written as the escape of their code: controls, the HTML characters and the two
line separators. -/
def escapesAsCode (c : Char) : Bool :=
  decide (c.toNat < 32) || c == '<' || c == '>' || c == '&' || c.toNat == 0x2028 ||
    c.toNat == 0x2029

/-- One character inside a string literal. -/
def escapeChar (c : Char) : List Char :=
  if c = '"' then ['\\', '"']
  else if c = '\\' then ['\\', '\\']
  else if c = '\n' then ['\\', 'n']
  else if c = '\r' then ['\\', 'r']
  else if c = '\t' then ['\\', 't']
  else if c.toNat = 8 then ['\\', 'b']
  else if c.toNat = 12 then ['\\', 'f']
  else if escapesAsCode c then escapeCode c.toNat
  else [c]

/-- A string literal. -/
def renderString (s : String) : List Char := '"' :: (s.toList.flatMap escapeChar ++ ['"'])

mutual
/-- **The compact text of a value.** -/
def render : Json → List Char
  | .null => ['n', 'u', 'l', 'l']
  | .bool true => ['t', 'r', 'u', 'e']
  | .bool false => ['f', 'a', 'l', 's', 'e']
  | .num lit => lit
  | .str s => renderString s
  | .arr [] => ['[', ']']
  | .arr (j :: l) => '[' :: (render j ++ renderItems l)
  | .obj [] => ['{', '}']
  | .obj ((k, j) :: l) => '{' :: (renderString k ++ ':' :: (render j ++ renderMembers l))

/-- The items after the first, and the closing bracket. -/
def renderItems : List Json → List Char
  | [] => [']']
  | j :: l => ',' :: (render j ++ renderItems l)

/-- The members after the first, and the closing brace. -/
def renderMembers : List (String × Json) → List Char
  | [] => ['}']
  | (k, j) :: l => ',' :: (renderString k ++ ':' :: (render j ++ renderMembers l))
end

/-- The literal of an integer. -/
def int (n : ℤ) : Json :=
  .num (if n < 0 then '-' :: Nat.toDigits 10 n.natAbs else Nat.toDigits 10 n.natAbs)

/-! ## Reading -/

/-- JSON white space. -/
def isSpace (c : Char) : Bool := c == ' ' || c == '\t' || c == '\r' || c == '\n'

/-- Skip white space. -/
def skip (cs : List Char) : List Char := cs.dropWhile isSpace

/-- The value of a hexadecimal digit, of either case. -/
def hexValue? (c : Char) : Option ℕ :=
  if c.isDigit then some (c.toNat - 48)
  else if 'a' ≤ c ∧ c ≤ 'f' then some (c.toNat - 87)
  else if 'A' ≤ c ∧ c ≤ 'F' then some (c.toNat - 55)
  else none

/-- The code four hexadecimal digits spell. -/
def hex4? (a b c d : Char) : Option ℕ := do
  let a ← hexValue? a
  let b ← hexValue? b
  let c ← hexValue? c
  let d ← hexValue? d
  return ((a * 16 + b) * 16 + c) * 16 + d

/-- Is a code half of a surrogate pair? -/
def isSurrogate (n : ℕ) : Bool := decide (0xd800 ≤ n) && decide (n < 0xe000)

/-- The scalar a high and a low surrogate encode. -/
def decodePair? (hi lo : ℕ) : Option Char :=
  if 0xd800 ≤ hi ∧ hi < 0xdc00 ∧ 0xdc00 ≤ lo ∧ lo < 0xe000 then
    some (Char.ofNat ((hi - 0xd800) * 1024 + (lo - 0xdc00) + 0x10000))
  else none

/-- What a lone surrogate reads as. -/
def replacement : Char := Char.ofNat 0xfffd

/-- The one-letter escapes. -/
def simpleEscape? (c : Char) : Option Char :=
  if c = '"' then some '"'
  else if c = '\\' then some '\\'
  else if c = '/' then some '/'
  else if c = 'b' then some (Char.ofNat 8)
  else if c = 'f' then some (Char.ofNat 12)
  else if c = 'n' then some '\n'
  else if c = 'r' then some '\r'
  else if c = 't' then some '\t'
  else none

/-- Put a character before what the rest of a string literal reads as. -/
def consChar (c : Char) (r : Option (List Char × List Char)) : Option (List Char × List Char) :=
  r.map fun p => (c :: p.1, p.2)

/-- A surrogate still waiting for its partner reads as the replacement character. -/
def flush (pending : Option ℕ) (r : Option (List Char × List Char)) :
    Option (List Char × List Char) :=
  match pending with
  | none => r
  | some _ => consChar replacement r

/-- The characters of a string literal after its opening quote, and what follows it.  `pending` is a
surrogate escape read just before. -/
def readString : Option ℕ → List Char → Option (List Char × List Char)
  | _, [] => none
  | pending, '"' :: r => flush pending (some ([], r))
  | pending, '\\' :: 'u' :: a :: b :: c :: d :: r =>
    match hex4? a b c d with
    | none => none
    | some n =>
      match pending.bind (decodePair? · n) with
      | some ch => consChar ch (readString none r)
      | none =>
        flush pending (if isSurrogate n then readString (some n) r
          else consChar (Char.ofNat n) (readString none r))
  | pending, '\\' :: e :: r =>
    match simpleEscape? e with
    | some ch => flush pending (consChar ch (readString none r))
    | none => none
  | _, '\\' :: [] => none
  | pending, c :: r =>
    if c.toNat < 32 then none else flush pending (consChar c (readString none r))

/-- The characters a number literal is made of. -/
def isNumChar (c : Char) : Bool :=
  c.isDigit || c == '-' || c == '+' || c == '.' || c == 'e' || c == 'E'

/-- The exponent of a number literal, or nothing. -/
def validExponent : List Char → Bool
  | [] => true
  | c :: r =>
    (c == 'e' || c == 'E') &&
      match r with
      | [] => false
      | s :: r' => if s == '+' || s == '-' then !r'.isEmpty && r'.all Char.isDigit
        else (s :: r').all Char.isDigit

/-- The fraction of a number literal, or nothing, then the exponent. -/
def validFraction : List Char → Bool
  | '.' :: c :: r => c.isDigit && validExponent (r.dropWhile Char.isDigit)
  | r => validExponent r

/-- Is this a number literal, up to its sign? -/
def validUnsigned : List Char → Bool
  | [] => false
  | '0' :: r => validFraction r
  | c :: r => c.isDigit && validFraction (r.dropWhile Char.isDigit)

/-- Is this a number literal? -/
def validNumber : List Char → Bool
  | '-' :: r => validUnsigned r
  | r => validUnsigned r

mutual
/-- One value, and what follows it.  The fuel bounds the nesting and the number of items. -/
def readValue : ℕ → List Char → Option (Json × List Char)
  | 0, _ => none
  | fuel + 1, cs =>
    match skip cs with
    | 'n' :: 'u' :: 'l' :: 'l' :: r => some (.null, r)
    | 't' :: 'r' :: 'u' :: 'e' :: r => some (.bool true, r)
    | 'f' :: 'a' :: 'l' :: 's' :: 'e' :: r => some (.bool false, r)
    | '"' :: r => (readString none r).map fun p => (.str (String.ofList p.1), p.2)
    | '[' :: r =>
      match skip r with
      | ']' :: r' => some (.arr [], r')
      | r' => (readItems fuel r').map fun p => (.arr p.1, p.2)
    | '{' :: r =>
      match skip r with
      | '}' :: r' => some (.obj [], r')
      | r' => (readMembers fuel r').map fun p => (.obj p.1, p.2)
    | r =>
      let lit := r.takeWhile isNumChar
      if validNumber lit then some (.num lit, r.dropWhile isNumChar) else none

/-- The items of a non-empty array, up to its closing bracket. -/
def readItems : ℕ → List Char → Option (List Json × List Char)
  | 0, _ => none
  | fuel + 1, cs => do
    let (j, r) ← readValue fuel cs
    match skip r with
    | ',' :: r' => (readItems fuel r').map fun p => (j :: p.1, p.2)
    | ']' :: r' => some ([j], r')
    | _ => none

/-- The members of a non-empty object, up to its closing brace. -/
def readMembers : ℕ → List Char → Option (List (String × Json) × List Char)
  | 0, _ => none
  | fuel + 1, cs =>
    match skip cs with
    | '"' :: r => do
      let (k, r) ← readString none r
      match skip r with
      | ':' :: r => do
        let (j, r) ← readValue fuel r
        match skip r with
        | ',' :: r' => (readMembers fuel r').map fun p => ((String.ofList k, j) :: p.1, p.2)
        | '}' :: r' => some ([(String.ofList k, j)], r')
        | _ => none
      | _ => none
    | _ => none
end

/-- **Reading a whole text**: one value with nothing but white space around it. -/
def parse (cs : List Char) : Option Json := do
  let (j, r) ← readValue (2 * cs.length + 2) cs
  if skip r = [] then some j else none

/-- The integer a value spells, when its literal has neither fraction nor exponent and fits 64
bits. -/
def int? : Json → Option ℤ
  | .num ('-' :: r) =>
    if r.all Char.isDigit ∧ Nat.ofDigitChars 10 r 0 ≤ 2 ^ 63 then
      some (-(Nat.ofDigitChars 10 r 0 : ℤ)) else none
  | .num r =>
    if r.all Char.isDigit ∧ Nat.ofDigitChars 10 r 0 < 2 ^ 63 then
      some (Nat.ofDigitChars 10 r 0 : ℤ) else none
  | _ => none

/-- The length in bytes of a text. -/
def byteLength (cs : List Char) : ℕ := (cs.map Char.utf8Size).sum

end Json

end PokrovCore
