import Mathlib.Data.String.Basic

/-!
# Foundations/Hex — lower-case hexadecimal texts of a fixed length

Digests, generations and lease ids are texts of one alphabet and one length.  `Hex n` carries the
pattern as a field, so what has been checked once is not checked again.
-/

namespace PokrovCore

/-- A lower-case hexadecimal digit. -/
def isLowerHex (c : Char) : Bool := decide ('0' ≤ c ∧ c ≤ '9') || decide ('a' ≤ c ∧ c ≤ 'f')

/-- `^[a-f0-9]{n}$`. -/
def hexPattern (n : ℕ) (text : String) : Bool :=
  text.toList.length == n && text.toList.all isLowerHex

/-- Hexadecimal groups of the given lengths, between hyphens. -/
def hexGroups : List ℕ → List Char → Bool
  | [], cs => cs.isEmpty
  | [n], cs => cs.length == n && cs.all isLowerHex
  | n :: ns, cs =>
    (cs.take n).length == n && (cs.take n).all isLowerHex &&
      match cs.drop n with
      | '-' :: r => hexGroups ns r
      | _ => false

/-- A text of `n` lower-case hexadecimal digits. -/
structure Hex (n : ℕ) where
  text : String
  ok : hexPattern n text = true
  deriving DecidableEq, Repr

namespace Hex

variable {n : ℕ}

theorem text_injective : Function.Injective (text (n := n)) := fun a b h => by
  obtain ⟨s, _⟩ := a
  obtain ⟨t, _⟩ := b
  obtain rfl : s = t := h
  rfl

instance : LinearOrder (Hex n) := LinearOrder.lift' text text_injective

/-- Check a text. -/
def ofString? (n : ℕ) (text : String) : Option (Hex n) :=
  if h : hexPattern n text = true then some ⟨text, h⟩ else none

@[simp] theorem ofString?_text (x : Hex n) : ofString? n x.text = some x := by
  rw [ofString?, dif_pos x.ok]

theorem text_of_ofString? {text : String} {x : Hex n} (h : ofString? n text = some x) :
    x.text = text := by
  unfold ofString? at h
  split_ifs at h
  obtain rfl := Option.some.inj h
  rfl

end Hex

/-! ## Bytes -/

end PokrovCore
