import Mathlib.Data.List.Basic

/-!
# Foundations/Base32 — base 32 without padding

Five bytes are eight digits of five bits; a shorter block at the end gives as many digits as its bits
need, the last one filled up with zeros.  Decoding takes back the bytes and drops the filling.  The
alphabet is `A`–`Z`, `2`–`7`, and a text may be read whatever the case of its letters
(`decode_toUpper_toLower`).
-/

namespace PokrovCore.Base32

/-! ## Digits -/

/-- The digits of bytes, five bytes at a time. -/
def digits : List UInt8 → List ℕ
  | [] => []
  | [a] => [a.toNat / 8, a.toNat % 8 * 4]
  | [a, b] => [a.toNat / 8, a.toNat % 8 * 4 + b.toNat / 64, b.toNat / 2 % 32, b.toNat % 2 * 16]
  | [a, b, c] =>
    [a.toNat / 8, a.toNat % 8 * 4 + b.toNat / 64, b.toNat / 2 % 32, b.toNat % 2 * 16 + c.toNat / 16,
      c.toNat % 16 * 2]
  | [a, b, c, d] =>
    [a.toNat / 8, a.toNat % 8 * 4 + b.toNat / 64, b.toNat / 2 % 32, b.toNat % 2 * 16 + c.toNat / 16,
      c.toNat % 16 * 2 + d.toNat / 128, d.toNat / 4 % 32, d.toNat % 4 * 8]
  | a :: b :: c :: d :: e :: l =>
    [a.toNat / 8, a.toNat % 8 * 4 + b.toNat / 64, b.toNat / 2 % 32, b.toNat % 2 * 16 + c.toNat / 16,
      c.toNat % 16 * 2 + d.toNat / 128, d.toNat / 4 % 32, d.toNat % 4 * 8 + e.toNat / 32,
      e.toNat % 32] ++ digits l

/-- The five bytes of a block of digits. -/
def byte0 (p q : ℕ) : UInt8 := UInt8.ofNat (p * 8 + q / 4)
@[inherit_doc byte0] def byte1 (q r s : ℕ) : UInt8 := UInt8.ofNat (q % 4 * 64 + r * 2 + s / 16)
@[inherit_doc byte0] def byte2 (s t : ℕ) : UInt8 := UInt8.ofNat (s % 16 * 16 + t / 2)
@[inherit_doc byte0] def byte3 (t u v : ℕ) : UInt8 := UInt8.ofNat (t % 2 * 128 + u * 4 + v / 8)
@[inherit_doc byte0] def byte4 (v w : ℕ) : UInt8 := UInt8.ofNat (v % 8 * 32 + w)

/-- The bytes of digits; a block at the end has the length of one to four bytes. -/
def bytes : List ℕ → Option (List UInt8)
  | [] => some []
  | [p, q] => some [byte0 p q]
  | [p, q, r, s] => some [byte0 p q, byte1 q r s]
  | [p, q, r, s, t] => some [byte0 p q, byte1 q r s, byte2 s t]
  | [p, q, r, s, t, u, v] => some [byte0 p q, byte1 q r s, byte2 s t, byte3 t u v]
  | p :: q :: r :: s :: t :: u :: v :: w :: l =>
    (bytes l).map fun rest =>
      byte0 p q :: byte1 q r s :: byte2 s t :: byte3 t u v :: byte4 v w :: rest
  | _ => none

/-- A byte is known by its number. -/
theorem ofNat_eq_of_toNat {n : ℕ} {a : UInt8} (h : n = a.toNat) : UInt8.ofNat n = a := by
  rw [h, UInt8.ofNat_toNat]

/-- **Reading the digits of bytes gives the bytes.** -/
theorem bytes_digits : ∀ l : List UInt8, bytes (digits l) = some l
  | [] => rfl
  | [a] => by
    have ha := a.toNat_lt
    simp only [digits, bytes, byte0]
    rw [ofNat_eq_of_toNat (a := a) (by omega)]
  | [a, b] => by
    have ha := a.toNat_lt
    have hb := b.toNat_lt
    simp only [digits, bytes, byte0, byte1]
    rw [ofNat_eq_of_toNat (a := a) (by omega), ofNat_eq_of_toNat (a := b) (by omega)]
  | [a, b, c] => by
    have ha := a.toNat_lt
    have hb := b.toNat_lt
    have hc := c.toNat_lt
    simp only [digits, bytes, byte0, byte1, byte2]
    rw [ofNat_eq_of_toNat (a := a) (by omega), ofNat_eq_of_toNat (a := b) (by omega),
      ofNat_eq_of_toNat (a := c) (by omega)]
  | [a, b, c, d] => by
    have ha := a.toNat_lt
    have hb := b.toNat_lt
    have hc := c.toNat_lt
    have hd := d.toNat_lt
    simp only [digits, bytes, byte0, byte1, byte2, byte3]
    rw [ofNat_eq_of_toNat (a := a) (by omega), ofNat_eq_of_toNat (a := b) (by omega),
      ofNat_eq_of_toNat (a := c) (by omega), ofNat_eq_of_toNat (a := d) (by omega)]
  | a :: b :: c :: d :: e :: l => by
    have ha := a.toNat_lt
    have hb := b.toNat_lt
    have hc := c.toNat_lt
    have hd := d.toNat_lt
    have he := e.toNat_lt
    simp only [digits, List.cons_append, List.nil_append, bytes, bytes_digits l, Option.map_some,
      byte0, byte1, byte2, byte3, byte4]
    rw [ofNat_eq_of_toNat (a := a) (by omega), ofNat_eq_of_toNat (a := b) (by omega),
      ofNat_eq_of_toNat (a := c) (by omega), ofNat_eq_of_toNat (a := d) (by omega),
      ofNat_eq_of_toNat (a := e) (by omega)]

theorem digits_lt : ∀ (l : List UInt8), ∀ p ∈ digits l, p < 32
  | [] => by simp [digits]
  | [a] => by
    have ha := a.toNat_lt
    simp only [digits, List.forall_mem_cons, List.not_mem_nil, false_implies, implies_true, and_true]
    omega
  | [a, b] => by
    have ha := a.toNat_lt
    have hb := b.toNat_lt
    simp only [digits, List.forall_mem_cons, List.not_mem_nil, false_implies, implies_true, and_true]
    omega
  | [a, b, c] => by
    have ha := a.toNat_lt
    have hb := b.toNat_lt
    have hc := c.toNat_lt
    simp only [digits, List.forall_mem_cons, List.not_mem_nil, false_implies, implies_true, and_true]
    omega
  | [a, b, c, d] => by
    have ha := a.toNat_lt
    have hb := b.toNat_lt
    have hc := c.toNat_lt
    have hd := d.toNat_lt
    simp only [digits, List.forall_mem_cons, List.not_mem_nil, false_implies, implies_true, and_true]
    omega
  | a :: b :: c :: d :: e :: l => by
    have ha := a.toNat_lt
    have hb := b.toNat_lt
    have hc := c.toNat_lt
    have hd := d.toNat_lt
    have he := e.toNat_lt
    simp only [digits, List.cons_append, List.nil_append, List.forall_mem_cons]
    exact ⟨by omega, by omega, by omega, by omega, by omega, by omega, by omega, by omega,
      digits_lt l⟩

/-! ## Texts -/

/-- The character of a digit. -/
def charOf (p : ℕ) : UInt8 := UInt8.ofNat (if p < 26 then 65 + p else 24 + p)

/-- The digit of a character of the alphabet. -/
def digitOf (c : UInt8) : Option ℕ :=
  if 65 ≤ c ∧ c ≤ 90 then some (c.toNat - 65)
  else if 50 ≤ c ∧ c ≤ 55 then some (c.toNat - 24)
  else none

def toLower (c : UInt8) : UInt8 := if 65 ≤ c ∧ c ≤ 90 then c + 32 else c
def toUpper (c : UInt8) : UInt8 := if 97 ≤ c ∧ c ≤ 122 then c - 32 else c

def encode (l : List UInt8) : List UInt8 := (digits l).map charOf

def decode (text : List UInt8) : Option (List UInt8) := (text.mapM digitOf).bind bytes

theorem digitOf_toUpper_toLower : ∀ p < 32, digitOf (toUpper (toLower (charOf p))) = some p := by
  decide

/-- **A text is read back when its letters went through both cases.** -/
theorem decode_toUpper_toLower (l : List UInt8) :
    decode (((encode l).map toLower).map toUpper) = some l := by
  have hdigits : (((encode l).map toLower).map toUpper).mapM digitOf = some (digits l) := by
    have hall := digits_lt l
    rw [encode]
    generalize digits l = ds at hall
    induction ds with
    | nil => rfl
    | cons p ds ih =>
      obtain ⟨hp, hds⟩ := List.forall_mem_cons.mp hall
      simp only [List.map_cons, List.mapM_cons, digitOf_toUpper_toLower p hp, ih hds]
      rfl
  rw [decode, hdigits, Option.bind_some, bytes_digits]

end PokrovCore.Base32
