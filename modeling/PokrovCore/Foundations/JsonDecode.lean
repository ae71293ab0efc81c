import PokrovCore.Foundations.JsonObject
import PokrovCore.Foundations.SortedMap

/-!
# Foundations/JsonDecode — values decoded into maps, lists, texts and structures

What a decoder makes of a value depends on what it decodes into.  A map keeps the last of the members
with one key, and is written in the order of its keys; a structure takes every key that folds like the
name of its field, in the order of the text; and `null` leaves what it is decoded into as it is.
-/

namespace PokrovCore.Json

/-! ## Maps, lists and texts -/

/-- Decoding into a map. -/
def map? : Json → Option (SortedMap String Json)
  | .null => some .empty
  | .obj members => some (.ofList members)
  | _ => none

/-- Decoding into a list. -/
def list? : Json → Option (List Json)
  | .null => some []
  | .arr items => some items
  | _ => none

/-- Decoding into a text. -/
def text : Json → Option String
  | .null => some ""
  | .str s => some s
  | _ => none

/-- Decoding what need not be there. -/
def optional {α : Type*} (read : Json → Option α) (default : α) : Option Json → Option α
  | none => some default
  | some j => read j

/-- A map, written. -/
def ofMap (m : SortedMap String Json) : Json := .obj m.entries

@[simp] theorem map?_ofMap (m : SortedMap String Json) : map? (ofMap m) = some m := by
  rw [ofMap, map?, SortedMap.ofList_entries]

/-! ## Structures -/

/-- **Simple case folding**, as far as it takes characters to those of the names. -/
structure Folding where
  fold : Char → Char
  fold_eq : ∀ a c : Char, a.isLower = true ∨ a = '_' → fold c = fold a →
    c = a ∨ c = a.toUpper ∨ (c.toNat = 0x212A ∧ a = 'k') ∨ (c.toNat = 0x17F ∧ a = 's')

/-- The decoder takes a key for a field. -/
def Folding.Matches (f : Folding) (key : String) (field : List Char) : Prop :=
  key.toList.map f.fold = field.map f.fold

instance (f : Folding) (key : String) (field : List Char) : Decidable (f.Matches key field) :=
  inferInstanceAs (Decidable (_ = _))

/-- The characters of the names. -/
def plainName (name : List Char) : Bool := name.all fun c => c.isLower || c == '_'

/-- Decoding over a text. -/
def textOver (s : String) : Json → Option String
  | .null => some s
  | .str t => some t
  | _ => none

/-- The text of one field of a structure, from a member on. -/
def fieldText (f : Folding) (name : String) : String → List (String × Json) → Option String
  | s, [] => some s
  | s, (k, j) :: l =>
    if f.Matches k name.toList then (textOver s j).bind fun t => fieldText f name t l
    else fieldText f name s l

/-- Decoding into a structure, as far as one field with a text goes. -/
def structText (f : Folding) (name : String) : Json → Option String
  | .null => some ""
  | .obj members => fieldText f name "" members
  | _ => none

variable {f : Folding}

theorem toNat_lt_of_plain {a : Char} (ha : a.isLower = true ∨ a = '_') : a.toNat < 0x80 := by
  rcases ha with ha | rfl
  · have hle : a.val ≤ 122 := of_decide_eq_true (Bool.and_eq_true_iff.mp ha).2
    exact Nat.lt_of_le_of_lt (UInt32.le_iff_toNat_le.mp hle) (by decide)
  · decide

/-- **Of names in lower case, each only matches itself.** -/
theorem Folding.matches_iff {key name : String} (hkey : plainName key.toList = true)
    (hname : plainName name.toList = true) : f.Matches key name.toList ↔ key = name := by
  have hall : ∀ k n : List Char, plainName k = true → plainName n = true →
      k.map f.fold = n.map f.fold → k = n := by
    intro k
    induction k with
    | nil => rintro (_ | _) <;> simp
    | cons c k ih =>
      rintro (_ | ⟨a, n⟩) hk hn h
      · simp at h
      simp only [plainName, List.all_cons, Bool.and_eq_true, Bool.or_eq_true, beq_iff_eq] at hk hn
      obtain ⟨hfold, hrest⟩ := List.cons.inj h
      have hlt := toNat_lt_of_plain hk.1
      have hca : c = a := by
        rcases f.fold_eq a c hn.1 hfold with rfl | rfl | ⟨h, -⟩ | ⟨h, -⟩
        · rfl
        · have hupper : ∀ m < 0x80, (Char.ofNat m).isLower = true ∨ Char.ofNat m = '_' →
              (Char.ofNat m).toUpper.isLower = true ∨ (Char.ofNat m).toUpper = '_' →
              (Char.ofNat m).toUpper = Char.ofNat m := by decide +kernel
          have := hupper a.toNat (toNat_lt_of_plain hn.1)
          rw [Char.ofNat_toNat] at this
          exact this hn.1 hk.1
        · omega
        · omega
      rw [hca, ih n hk.2 hn.2 hrest]
  exact ⟨fun h => String.toList_inj.mp (hall _ _ hkey hname h), fun h => h ▸ rfl⟩

/-- ASCII letters fold to lower case, and with them the Kelvin sign and the long s. -/
def asciiFold (c : Char) : Char :=
  if c.toNat = 0x17F then 's' else if c.toNat = 0x212A then 'k' else c.toLower

theorem asciiFold_eq (a c : Char) (ha : a.isLower = true ∨ a = '_')
    (h : asciiFold c = asciiFold a) :
    c = a ∨ c = a.toUpper ∨ (c.toNat = 0x212A ∧ a = 'k') ∨ (c.toNat = 0x17F ∧ a = 's') := by
  have hascii : ∀ n < 0x80, asciiFold (Char.ofNat n) = (Char.ofNat n).toLower ∧
      ((Char.ofNat n).isLower = true ∨ Char.ofNat n = '_' → (Char.ofNat n).toLower = Char.ofNat n) ∧
      ((Char.ofNat n).isUpper = true → (Char.ofNat n).toLower.toUpper = Char.ofNat n) := by
    decide +kernel
  have hplain := hascii a.toNat (toNat_lt_of_plain ha)
  rw [Char.ofNat_toNat] at hplain
  rw [hplain.1, hplain.2.1 ha, asciiFold] at h
  split at h
  next hc => exact .inr (.inr (.inr ⟨hc, h.symm⟩))
  split at h
  next hk => exact .inr (.inr (.inl ⟨hk, h.symm⟩))
  by_cases hupper : c.isUpper = true
  · have hlt : c.toNat < 0x80 := by
      have hle : c.val ≤ 90 := (of_decide_eq_true hupper).2
      exact Nat.lt_of_le_of_lt (UInt32.le_iff_toNat_le.mp hle) (by decide)
    have hback := (hascii c.toNat hlt).2.2
    rw [Char.ofNat_toNat] at hback
    exact .inr (.inl (h ▸ (hback hupper).symm))
  · have hsame : c.toLower = c := dif_neg fun h => hupper (decide_eq_true h)
    exact .inl (hsame.symm.trans h)

def asciiFolding : Folding := ⟨asciiFold, asciiFold_eq⟩

end PokrovCore.Json
