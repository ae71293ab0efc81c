import PokrovCore.Foundations.JsonMap

/-!
# Foundations/JsonSize — the exact size of a text

`size` is the number of bytes of a value's compact text.  An array and an object have a closed form
as a sum over their items or members, so the order of the members does not matter: `record` and
`sorted` write texts of one size (`size_sorted`).  A string whose characters are all `plain` — one
byte, never escaped — has two bytes more than it has characters.
-/

namespace PokrovCore.Json

/-- The number of bytes of a value's compact text. -/
def size (j : Json) : ℕ := byteLength (render j)

@[simp] theorem byteLength_nil : byteLength [] = 0 := rfl

/-! ## Strings and integers -/

/-- A character of one byte that is written as it is. -/
def plain (c : Char) : Bool := decide (escapeChar c = [c]) && decide (c.utf8Size = 1)

theorem byteLength_flatMap_plain {l : List Char} (h : ∀ c ∈ l, plain c = true) :
    byteLength (l.flatMap escapeChar) = l.length := by
  induction l with
  | nil => rfl
  | cons c l ih =>
    obtain ⟨hc, hl⟩ := List.forall_mem_cons.mp h
    simp only [plain, Bool.and_eq_true, decide_eq_true_eq] at hc
    rw [List.flatMap_cons, byteLength_append, ih hl, hc.1, byteLength_cons, hc.2, byteLength_nil,
      List.length_cons]
    omega

/-- **A plain string** takes its characters and two quotes. -/
theorem size_str {s : String} (h : ∀ c ∈ s.toList, plain c = true) :
    size (.str s) = s.toList.length + 2 := by
  have hquote : ('"' : Char).utf8Size = 1 := by decide
  simp only [size, render, renderString, byteLength_cons, byteLength_append, byteLength_nil,
    byteLength_flatMap_plain h, hquote]
  omega

/-- An alphabet within the first 128 codes is plain if its members there are. -/
theorem plain_of_ascii {p : Char → Bool} (hlt : ∀ c, p c = true → c.toNat < 128)
    (hplain : ∀ n < 128, p (Char.ofNat n) = true → plain (Char.ofNat n) = true) {c : Char}
    (h : p c = true) : plain c = true := by
  have hc := hplain c.toNat (hlt c h)
  rw [Char.ofNat_toNat] at hc
  exact hc h

theorem plain_of_isDigit {c : Char} (h : c.isDigit = true) : plain c = true := by
  refine plain_of_ascii (fun c h => ?_) (by decide) h
  simp only [Char.isDigit, ge_iff_le, Bool.and_eq_true, decide_eq_true_eq] at h
  have hle : c.toNat ≤ 57 := UInt32.le_iff_toNat_le.mp h.2
  omega

/-- A natural number below `10 ^ k` takes at most `k` bytes. -/
theorem size_int_le {n k : ℕ} (hk : 0 < k) (h : n < 10 ^ k) : size (.int n) ≤ k := by
  have hbytes : ∀ c ∈ Nat.toDigits 10 n, c.utf8Size = 1 := fun c hc => by
    have hplain := plain_of_isDigit (Nat.isDigit_of_mem_toDigits (by decide) (by decide) hc)
    simp only [plain, Bool.and_eq_true, decide_eq_true_eq] at hplain
    exact hplain.2
  have hlen : byteLength (Nat.toDigits 10 n) = (Nat.toDigits 10 n).length := by
    rw [byteLength, List.map_congr_left hbytes, List.map_const', List.sum_replicate_nat, mul_one]
  have hnonneg : ¬ (n : ℤ) < 0 := by omega
  rw [size, int, render, if_neg hnonneg, Int.natAbs_natCast, hlen]
  exact (Nat.length_toDigits_le_iff (by decide) hk).mpr h

/-! ## Arrays and objects -/

/-- The bytes of an item and its separator. -/
def itemSize (j : Json) : ℕ := size j + 1

/-- The bytes of a member, its colon and its separator. -/
def memberSize (m : String × Json) : ℕ := size (.str m.1) + size m.2 + 2

theorem byteLength_renderItems (l : List Json) :
    byteLength (renderItems l) = (l.map itemSize).sum + 1 := by
  induction l with
  | nil => decide
  | cons j l ih =>
    have hcomma : (',' : Char).utf8Size = 1 := by decide
    simp only [renderItems, byteLength_cons, byteLength_append, ih, hcomma, List.map_cons,
      List.sum_cons, itemSize, size]
    omega

theorem byteLength_renderMembers (l : List (String × Json)) :
    byteLength (renderMembers l) = (l.map memberSize).sum + 1 := by
  induction l with
  | nil => decide
  | cons m l ih =>
    have hcomma : (',' : Char).utf8Size = 1 := by decide
    have hcolon : (':' : Char).utf8Size = 1 := by decide
    simp only [renderMembers, byteLength_cons, byteLength_append, ih, hcomma, hcolon,
      List.map_cons, List.sum_cons, memberSize, size, render]
    omega

/-- **An array** takes its items, each with a separator, and a bracket; two brackets if empty. -/
theorem size_arr (l : List Json) : size (.arr l) = max 1 (l.map itemSize).sum + 1 := by
  cases l with
  | nil => decide
  | cons j l =>
    have hbracket : ('[' : Char).utf8Size = 1 := by decide
    simp only [size, render, byteLength_cons, byteLength_append, byteLength_renderItems, hbracket,
      List.map_cons, List.sum_cons, itemSize]
    omega

/-- **An object** takes its members, each with a separator, and a brace; two braces if empty. -/
theorem size_obj (l : List (String × Json)) :
    size (.obj l) = max 1 (l.map memberSize).sum + 1 := by
  cases l with
  | nil => decide
  | cons e l =>
    obtain ⟨k, j⟩ := e
    have hbrace : ('\x7b' : Char).utf8Size = 1 := by decide
    have hcolon : (':' : Char).utf8Size = 1 := by decide
    simp only [size, render, byteLength_cons, byteLength_append, byteLength_renderMembers, hbrace,
      hcolon, List.map_cons, List.sum_cons, memberSize]
    omega

/-- What the keys of a record take. -/
def keysSize (keys : List String) : ℕ := (keys.map fun k => size (.str k) + 2).sum

/-- **A record** takes its keys and its values. -/
theorem size_record {keys : List String} {values : List Json}
    (h : keys.length = values.length) :
    size (record keys values) = max 1 (keysSize keys + (values.map size).sum) + 1 := by
  have hsum : ((keys.zip values).map memberSize).sum = keysSize keys + (values.map size).sum := by
    induction keys generalizing values with
    | nil =>
      obtain rfl := List.length_eq_zero_iff.mp h.symm
      rfl
    | cons k keys ih =>
      obtain ⟨v, values, rfl⟩ := List.exists_cons_of_length_eq_add_one h.symm
      have htail := ih (Nat.succ.inj h)
      simp only [keysSize, List.zip_cons_cons, List.map_cons, List.sum_cons, memberSize] at htail ⊢
      omega
  rw [record, size_obj, hsum]

/-- The order of the members does not change the size. -/
theorem size_sorted (keys : List String) (values : List Json) :
    size (sorted keys values) = size (record keys values) := by
  rw [sorted, record, size_obj, size_obj,
    ((List.perm_insertionSort _ (keys.zip values)).map memberSize).sum_eq]

end PokrovCore.Json
