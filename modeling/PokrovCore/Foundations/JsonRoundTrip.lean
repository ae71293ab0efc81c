import Mathlib.Data.List.TakeWhile
import PokrovCore.Foundations.Json

/-!
# Foundations/JsonRoundTrip — what the compact writer writes, the reader reads back

`parse_render : parse (render j) = some j` for every value whose number literals are literals.  The
induction is on the value; the fuel a value needs is its `cost`, which its text always pays for.
Injectivity of the writer is the corollary a canonical encoding is used for.
-/

namespace PokrovCore

namespace Json

/-! ## String literals -/

variable {n : ℕ}

theorem hexValue?_hexDigit (h : n < 16) : hexValue? (hexDigit n) = some n := by
  have : ∀ k < 16, hexValue? (hexDigit k) = some k := by decide
  exact this n h

/-- The escape of a code spells the code. -/
theorem hex4?_escapeCode (h : n < 65536) :
    hex4? (hexDigit (n / 4096 % 16)) (hexDigit (n / 256 % 16)) (hexDigit (n / 16 % 16))
      (hexDigit (n % 16)) = some n := by
  simp only [hex4?, hexValue?_hexDigit (show n / 4096 % 16 < 16 by omega),
    hexValue?_hexDigit (show n / 256 % 16 < 16 by omega),
    hexValue?_hexDigit (show n / 16 % 16 < 16 by omega),
    hexValue?_hexDigit (show n % 16 < 16 by omega), Option.bind_eq_bind, Option.bind_some]
  exact congrArg some (by omega)

variable {c : Char}

theorem readString_escapeCode (h : escapesAsCode c = true) (r : List Char) :
    readString none (escapeCode c.toNat ++ r) = consChar c (readString none r) := by
  have hlt : c.toNat < 65536 ∧ isSurrogate c.toNat = false := by
    simp only [escapesAsCode, Bool.or_eq_true, decide_eq_true_eq, beq_iff_eq] at h
    rcases h with ((((h | rfl) | rfl) | rfl) | h) | h
    · refine ⟨by omega, ?_⟩
      simp only [isSurrogate, Bool.and_eq_false_iff, decide_eq_false_iff_not]
      omega
    · decide
    · decide
    · decide
    · rw [h]; decide
    · rw [h]; decide
  simp only [escapeCode, List.cons_append, List.nil_append, readString, hex4?_escapeCode hlt.1,
    Option.bind_none, hlt.2, Bool.false_eq_true, if_false, flush, Char.ofNat_toNat]

/-- **One escaped character reads as itself.** -/
theorem readString_escapeChar (c : Char) (r : List Char) :
    readString none (escapeChar c ++ r) = consChar c (readString none r) := by
  unfold escapeChar
  split_ifs with h1 h2 h3 h4 h5 h6 h7 h8
  · subst h1; rfl
  · subst h2; rfl
  · subst h3; rfl
  · subst h4; rfl
  · subst h5; rfl
  · obtain rfl : c = Char.ofNat 8 := by rw [← h6, Char.ofNat_toNat]
    rfl
  · obtain rfl : c = Char.ofNat 12 := by rw [← h7, Char.ofNat_toNat]
    rfl
  · exact readString_escapeCode h8 r
  · have hge : ¬ c.toNat < 32 := fun hlt => h8 (by simp [escapesAsCode, hlt])
    rw [List.singleton_append]
    rw [readString.eq_def]
    split <;> simp_all [flush]

theorem readString_flatMap (cs r : List Char) :
    readString none (cs.flatMap escapeChar ++ '"' :: r) = some (cs, r) := by
  induction cs with
  | nil => rfl
  | cons c cs ih =>
    rw [List.flatMap_cons, List.append_assoc, readString_escapeChar, ih]
    rfl

theorem renderString_append (s : String) (r : List Char) :
    renderString s ++ r = '"' :: (s.toList.flatMap escapeChar ++ '"' :: r) := by
  simp [renderString]

/-! ## Number literals -/

/-- Does a text not go on with a character of a number literal? -/
def Stops (r : List Char) : Prop := ∀ c t, r = c :: t → isNumChar c = false

theorem Stops.nil : Stops [] := fun _ _ h => by cases h

theorem Stops.cons {t : List Char} (h : isNumChar c = false) : Stops (c :: t) := by
  rintro _ _ ⟨⟩
  exact h

theorem isNumChar_of_isDigit (h : c.isDigit = true) : isNumChar c = true := by
  simp [isNumChar, h]

variable {r : List Char}

theorem validExponent_all (h : validExponent r = true) :
    r.all isNumChar = true := by
  have digits : ∀ {l : List Char}, l.all Char.isDigit = true → l.all isNumChar = true := fun hl =>
    List.all_eq_true.mpr fun c hc => isNumChar_of_isDigit (List.all_eq_true.mp hl c hc)
  match r, h with
  | [], _ => rfl
  | [_], h => simp [validExponent] at h
  | c :: s :: t, h =>
    simp only [validExponent, Bool.and_eq_true, Bool.or_eq_true, beq_iff_eq] at h
    obtain ⟨hc, hr⟩ := h
    have hc' : isNumChar c = true := by rcases hc with rfl | rfl <;> rfl
    rw [List.all_cons, hc', Bool.true_and]
    split_ifs at hr with hs
    · have hs' : isNumChar s = true := by rcases hs with rfl | rfl <;> rfl
      rw [List.all_cons, hs', Bool.true_and]
      exact digits (Bool.and_eq_true _ _ ▸ hr).2
    · exact digits hr

theorem all_of_dropWhile_isDigit (h : (r.dropWhile Char.isDigit).all isNumChar = true) :
    r.all isNumChar = true := by
  induction r with
  | nil => rfl
  | cons c r ih =>
    by_cases hc : c.isDigit = true
    · rw [List.dropWhile_cons_of_pos hc] at h
      rw [List.all_cons, isNumChar_of_isDigit hc, ih h]
      rfl
    · rwa [List.dropWhile_cons_of_neg hc] at h

theorem validFraction_all (h : validFraction r = true) :
    r.all isNumChar = true := by
  unfold validFraction at h
  split at h
  · rw [Bool.and_eq_true] at h
    have ht := all_of_dropWhile_isDigit (validExponent_all h.2)
    rw [List.all_cons, List.all_cons, isNumChar_of_isDigit h.1, ht]
    rfl
  · exact validExponent_all h

/-- An unsigned literal begins with a digit and is made of number characters. -/
theorem validUnsigned_spec (h : validUnsigned r = true) :
    (∃ c t, r = c :: t ∧ c.isDigit = true) ∧ r.all isNumChar = true := by
  unfold validUnsigned at h
  split at h
  · cases h
  · refine ⟨⟨_, _, rfl, rfl⟩, ?_⟩
    rw [List.all_cons, validFraction_all h]
    rfl
  · rw [Bool.and_eq_true] at h
    refine ⟨⟨_, _, rfl, h.1⟩, ?_⟩
    rw [List.all_cons, isNumChar_of_isDigit h.1, all_of_dropWhile_isDigit (validFraction_all h.2)]
    rfl

/-- **A literal begins with a digit or a minus sign and is made of number characters.** -/
theorem validNumber_spec (h : validNumber r = true) :
    (∃ c t, r = c :: t ∧ (c.isDigit = true ∨ c = '-')) ∧ r.all isNumChar = true := by
  unfold validNumber at h
  split at h
  · refine ⟨⟨_, _, rfl, .inr rfl⟩, ?_⟩
    rw [List.all_cons, (validUnsigned_spec h).2]
    rfl
  · obtain ⟨⟨c, t, rfl, hc⟩, hall⟩ := validUnsigned_spec h
    exact ⟨⟨c, t, rfl, .inl hc⟩, hall⟩

variable {lit : List Char}

theorem takeWhile_append_of_stops (hl : lit.all isNumChar = true) (hr : Stops r) :
    (lit ++ r).takeWhile isNumChar = lit := by
  rw [List.takeWhile_append_of_pos (List.all_eq_true.mp hl)]
  cases r with
  | nil => simp
  | cons c t => simp [hr c t rfl]

theorem dropWhile_append_of_stops (hl : lit.all isNumChar = true) (hr : Stops r) :
    (lit ++ r).dropWhile isNumChar = r := by
  rw [List.dropWhile_append_of_pos (List.all_eq_true.mp hl)]
  cases r with
  | nil => rfl
  | cons c t => simp [hr c t rfl]

theorem skip_cons (h : isSpace c = false) (r : List Char) : skip (c :: r) = c :: r := by
  simp [skip, h]

theorem readValue_number (h : validNumber lit = true) (hr : Stops r) (fuel : ℕ) :
    readValue (fuel + 1) (lit ++ r) = some (.num lit, r) := by
  obtain ⟨⟨c, t, rfl, hc⟩, hall⟩ := validNumber_spec h
  have hspace : isSpace c = false := by
    rcases hc with hc | rfl
    · cases hs : isSpace c with
      | false => rfl
      | true =>
        simp only [isSpace, Bool.or_eq_true, beq_iff_eq] at hs
        rcases hs with ((rfl | rfl) | rfl) | rfl <;> cases hc
    · rfl
  have htake := takeWhile_append_of_stops hall hr
  have hdrop := dropWhile_append_of_stops hall hr
  rw [List.cons_append] at htake hdrop ⊢
  rw [readValue, skip_cons hspace]
  -- a digit or a minus sign opens none of the other values
  split
  all_goals first
    | (rename_i heq; injection heq with h1 _; subst h1; rcases hc with hc | hc <;> cases hc)
    | simp only [htake, hdrop, h, if_true]

/-! ## Values -/

mutual
/-- Is every number of a value a number literal? -/
def wellFormed : Json → Bool
  | .num lit => validNumber lit
  | .arr l => wellFormedItems l
  | .obj l => wellFormedMembers l
  | _ => true

/-- The same over the items of an array. -/
def wellFormedItems : List Json → Bool
  | [] => true
  | j :: l => wellFormed j && wellFormedItems l

/-- The same over the members of an object. -/
def wellFormedMembers : List (String × Json) → Bool
  | [] => true
  | (_, j) :: l => wellFormed j && wellFormedMembers l
end

mutual
/-- The fuel reading a value back takes. -/
def cost : Json → ℕ
  | .arr (j :: l) => 2 + cost j + costItems l
  | .obj ((_, j) :: l) => 2 + cost j + costMembers l
  | _ => 1

/-- The fuel of the items after the first. -/
def costItems : List Json → ℕ
  | [] => 0
  | j :: l => 1 + cost j + costItems l

/-- The fuel of the members after the first. -/
def costMembers : List (String × Json) → ℕ
  | [] => 0
  | (_, j) :: l => 1 + cost j + costMembers l
end

mutual
/-- A text pays for the fuel of its value. -/
theorem cost_le_length : ∀ j : Json, wellFormed j = true → cost j ≤ (render j).length
  | .null, _ => by decide
  | .bool true, _ => by decide
  | .bool false, _ => by decide
  | .num lit, h => by
    obtain ⟨⟨c, t, rfl, _⟩, _⟩ := validNumber_spec h
    simp [cost, render]
  | .str s, _ => by simp [cost, render, renderString]
  | .arr [], _ => by decide
  | .arr (j :: l), h => by
    simp only [wellFormed, wellFormedItems, Bool.and_eq_true] at h
    have hj := cost_le_length j h.1
    have hl := costItems_lt_length l h.2
    simp only [cost, render, List.length_cons, List.length_append]
    omega
  | .obj [], _ => by decide
  | .obj ((k, j) :: l), h => by
    simp only [wellFormed, wellFormedMembers, Bool.and_eq_true] at h
    have hj := cost_le_length j h.1
    have hl := costMembers_lt_length l h.2
    simp only [cost, render, List.length_cons, List.length_append]
    omega

/-- …and so do the items after the first, the closing bracket to spare. -/
theorem costItems_lt_length : ∀ l : List Json, wellFormedItems l = true →
    costItems l < (renderItems l).length
  | [], _ => by decide
  | j :: l, h => by
    simp only [wellFormedItems, Bool.and_eq_true] at h
    have hj := cost_le_length j h.1
    have hl := costItems_lt_length l h.2
    simp only [costItems, renderItems, List.length_cons, List.length_append]
    omega

/-- …and so do the members after the first. -/
theorem costMembers_lt_length : ∀ l : List (String × Json), wellFormedMembers l = true →
    costMembers l < (renderMembers l).length
  | [], _ => by decide
  | (k, j) :: l, h => by
    simp only [wellFormedMembers, Bool.and_eq_true] at h
    have hj := cost_le_length j h.1
    have hl := costMembers_lt_length l h.2
    simp only [costMembers, renderMembers, List.length_cons, List.length_append]
    omega
end

/-- A value's text begins with a character that is neither white space nor a closing bracket. -/
theorem render_head {j : Json} (h : wellFormed j = true) :
    ∃ c t, render j = c :: t ∧ isSpace c = false ∧ c ≠ ']' := by
  match j, h with
  | .null, _ => exact ⟨_, _, rfl, rfl, by decide⟩
  | .bool true, _ => exact ⟨_, _, rfl, rfl, by decide⟩
  | .bool false, _ => exact ⟨_, _, rfl, rfl, by decide⟩
  | .num lit, h =>
    obtain ⟨⟨c, t, rfl, hc⟩, _⟩ := validNumber_spec h
    refine ⟨c, t, rfl, ?_, ?_⟩
    · cases hs : isSpace c with
      | false => rfl
      | true =>
        simp only [isSpace, Bool.or_eq_true, beq_iff_eq] at hs
        rcases hs with ((rfl | rfl) | rfl) | rfl <;> rcases hc with hc | hc <;> cases hc
    · rintro rfl
      rcases hc with hc | hc <;> cases hc
  | .str s, _ => exact ⟨_, _, rfl, rfl, by decide⟩
  | .arr [], _ => exact ⟨_, _, rfl, rfl, by decide⟩
  | .arr (_ :: _), _ => exact ⟨_, _, rfl, rfl, by decide⟩
  | .obj [], _ => exact ⟨_, _, rfl, rfl, by decide⟩
  | .obj (_ :: _), _ => exact ⟨_, _, rfl, rfl, by decide⟩

theorem stops_renderItems (l : List Json) (r : List Char) : Stops (renderItems l ++ r) := by
  cases l <;> exact Stops.cons rfl

theorem stops_renderMembers (l : List (String × Json)) (r : List Char) :
    Stops (renderMembers l ++ r) := by
  match l with
  | [] => exact Stops.cons rfl
  | (_, _) :: _ => exact Stops.cons rfl

/-- Does a value read back, from any fuel that covers it and before any text that stops it? -/
def ReadsBack (j : Json) : Prop :=
  ∀ (fuel : ℕ) (r : List Char), cost j ≤ fuel → Stops r →
    readValue fuel (render j ++ r) = some (j, r)

mutual
/-- **A value reads back.**  The induction is on the value; items and members carry the first of
theirs along as a value already known to read back. -/
theorem readsBack : ∀ j : Json, wellFormed j = true → ReadsBack j
  | .null, _, 0, _, h, _ | .bool true, _, 0, _, h, _ | .bool false, _, 0, _, h, _
  | .num _, _, 0, _, h, _ | .str _, _, 0, _, h, _ | .arr [], _, 0, _, h, _
  | .obj [], _, 0, _, h, _ => by simp [cost] at h
  | .arr (_ :: _), _, 0, _, h, _ => by simp [cost] at h
  | .obj ((_, _) :: _), _, 0, _, h, _ => by simp [cost] at h
  | .null, _, fuel + 1, r, _, _ => rfl
  | .bool true, _, fuel + 1, r, _, _ => rfl
  | .bool false, _, fuel + 1, r, _, _ => rfl
  | .num lit, hw, fuel + 1, r, _, hr => readValue_number hw hr fuel
  | .str s, _, fuel + 1, r, _, _ => by
    rw [render, renderString_append, readValue, skip_cons rfl]
    simp only [readString_flatMap, Option.map_some, String.ofList_toList]
  | .arr [], _, fuel + 1, r, _, _ => rfl
  | .arr (j :: l), hw, fuel + 1, r, h, _ => by
    simp only [wellFormed, wellFormedItems, Bool.and_eq_true] at hw
    simp only [cost] at h
    obtain ⟨c, t, hc, hspace, hne⟩ := render_head hw.1
    have hitems := readItems_render l hw.2 j (readsBack j hw.1) fuel r (by omega)
    rw [render, List.cons_append, List.append_assoc, readValue, skip_cons rfl]
    rw [hc, List.cons_append] at hitems ⊢
    simp only [skip_cons hspace]
    split
    · rename_i heq
      injection heq with h1 _
      exact absurd h1 hne
    · rw [hitems]
      rfl
  | .obj [], _, fuel + 1, r, _, _ => rfl
  | .obj ((k, j) :: l), hw, fuel + 1, r, h, _ => by
    simp only [wellFormed, wellFormedMembers, Bool.and_eq_true] at hw
    simp only [cost] at h
    have hmembers := readMembers_render l hw.2 k j (readsBack j hw.1) fuel r (by omega)
    rw [renderString_append] at hmembers
    rw [render, List.cons_append, List.append_assoc, renderString_append, readValue, skip_cons rfl]
    simp only [skip_cons (show isSpace '"' = false from rfl), List.cons_append, List.append_assoc]
    exact congrArg (Option.map fun p => (Json.obj p.1, p.2)) hmembers

/-- …and so do the items of an array. -/
theorem readItems_render : ∀ l : List Json, wellFormedItems l = true → ∀ j : Json, ReadsBack j →
    ∀ (fuel : ℕ) (r : List Char), 1 + cost j + costItems l ≤ fuel →
      readItems fuel (render j ++ (renderItems l ++ r)) = some (j :: l, r)
  | _, _, _, _, 0, _, h => by omega
  | [], _, j, hj, fuel + 1, r, h => by
    rw [readItems, hj fuel _ (by omega) (stops_renderItems [] r)]
    rfl
  | j' :: l, hw, j, hj, fuel + 1, r, h => by
    simp only [wellFormedItems, Bool.and_eq_true] at hw
    simp only [costItems] at h
    have hl := readItems_render l hw.2 j' (readsBack j' hw.1) fuel r (by omega)
    rw [readItems, hj fuel _ (by omega) (stops_renderItems (j' :: l) r)]
    simp only [renderItems, List.cons_append, List.append_assoc, Option.bind_eq_bind,
      Option.bind_some, skip_cons (show isSpace ',' = false from rfl), hl, Option.map_some]

/-- …and so do the members of an object. -/
theorem readMembers_render : ∀ l : List (String × Json), wellFormedMembers l = true →
    ∀ (k : String) (j : Json), ReadsBack j → ∀ (fuel : ℕ) (r : List Char),
      1 + cost j + costMembers l ≤ fuel →
      readMembers fuel (renderString k ++ (':' :: (render j ++ (renderMembers l ++ r)))) =
        some ((k, j) :: l, r)
  | _, _, _, _, _, 0, _, h => by omega
  | [], _, k, j, hj, fuel + 1, r, h => by
    have hread := hj fuel _ (by omega) (stops_renderMembers [] r)
    rw [renderString_append, readMembers, skip_cons rfl]
    simp only [readString_flatMap, Option.bind_eq_bind, Option.bind_some,
      skip_cons (show isSpace ':' = false from rfl), hread, String.ofList_toList]
    rfl
  | (k', j') :: l, hw, k, j, hj, fuel + 1, r, h => by
    simp only [wellFormedMembers, Bool.and_eq_true] at hw
    simp only [costMembers] at h
    have hl := readMembers_render l hw.2 k' j' (readsBack j' hw.1) fuel r (by omega)
    have hread := hj fuel _ (by omega) (stops_renderMembers ((k', j') :: l) r)
    rw [renderString_append, readMembers, skip_cons rfl]
    simp only [readString_flatMap, Option.bind_eq_bind, Option.bind_some,
      skip_cons (show isSpace ':' = false from rfl), hread, String.ofList_toList]
    simp only [renderMembers, List.cons_append, List.append_assoc,
      skip_cons (show isSpace ',' = false from rfl), hl, Option.map_some]
end

/-- **Round trip**: the reader inverts the writer. -/
theorem parse_render {j : Json} (h : wellFormed j = true) : parse (render j) = some j := by
  have hread := readsBack j h (2 * (render j).length + 2) [] (by have := cost_le_length j h; omega)
    Stops.nil
  rw [List.append_nil] at hread
  rw [parse, hread]
  rfl

/-- **A text determines its value.** -/
theorem render_injOn {j k : Json} (hj : wellFormed j = true) (hk : wellFormed k = true)
    (h : render j = render k) : j = k :=
  Option.some.inj (by rw [← parse_render hj, ← parse_render hk, h])

/-! ## Integers -/

theorem all_isDigit_toDigits (n : ℕ) : (Nat.toDigits 10 n).all Char.isDigit = true :=
  List.all_eq_true.mpr fun _ hc => Nat.isDigit_of_mem_toDigits (by decide) (by decide) hc

/-- The decimal digits of a positive number do not begin with a zero. -/
theorem toDigits_head (h : 0 < n) : ∃ c t, Nat.toDigits 10 n = c :: t ∧ c ≠ '0' := by
  induction n using Nat.strongRecOn with
  | ind n ih =>
    by_cases hn : n < 10
    · have hdigit : ∀ k < 10, 0 < k → Nat.digitChar k ≠ '0' := by decide
      exact ⟨_, [], Nat.toDigits_of_lt_base hn, hdigit n hn h⟩
    · obtain ⟨c, t, ht, hc⟩ := ih (n / 10) (by omega) (by omega)
      exact ⟨c, t ++ [Nat.digitChar (n % 10)],
        by rw [Nat.toDigits_of_base_le (by decide) (by omega), ht, List.cons_append], hc⟩

theorem dropWhile_isDigit {l : List Char} (h : l.all Char.isDigit = true) :
    l.dropWhile Char.isDigit = [] := by
  rw [List.dropWhile_eq_nil_iff]
  exact List.all_eq_true.mp h

theorem validUnsigned_toDigits (n : ℕ) : validUnsigned (Nat.toDigits 10 n) = true := by
  rcases Nat.eq_zero_or_pos n with rfl | h
  · decide
  · obtain ⟨c, t, ht, hc⟩ := toDigits_head h
    have hall := all_isDigit_toDigits n
    rw [ht, List.all_cons, Bool.and_eq_true] at hall
    rw [ht, validUnsigned]
    · rw [hall.1, dropWhile_isDigit hall.2]
      rfl
    · exact hc

/-- The literal of a natural number is a literal… -/
theorem wellFormed_int (n : ℕ) : wellFormed (int n) = true := by
  rw [int, if_neg (by omega), Int.natAbs_natCast, wellFormed, validNumber]
  · exact validUnsigned_toDigits n
  · intro r hr
    have hall := all_isDigit_toDigits n
    rw [hr] at hall
    cases hall

/-- …and spells the number, up to the 64-bit range. -/
theorem int?_int (h : n < 2 ^ 63) : int? (int n) = some (n : ℤ) := by
  have hall := all_isDigit_toDigits n
  rw [int, if_neg (by omega), Int.natAbs_natCast, int?]
  · rw [Nat.ofDigitChars_ten_toDigits, if_pos ⟨hall, h⟩]
  · intro r hr
    rw [hr] at hall
    cases hall

/-- A literal spells one number, whatever its size. -/
theorem int_natCast_injective : Function.Injective fun n : ℕ => int n := fun n m h => by
  simp only [int, Int.natAbs_natCast, if_neg (Int.natCast_nonneg _).not_gt, num.injEq] at h
  have hread := congrArg (fun l => Nat.ofDigitChars 10 l 0) h
  simpa only [Nat.ofDigitChars_ten_toDigits] using hread

end Json
end PokrovCore
