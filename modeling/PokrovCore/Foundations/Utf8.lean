import Mathlib.Data.List.Basic
import Mathlib.Data.Nat.Basic

/-!
# Foundations/Utf8 — the runes of a byte string

A byte string need not be well-formed UTF-8.  Where no rune of the encoding begins, `decode` reads
one replacement character for one byte and goes on with the next, so every byte string has runes.
Of these, exactly the bytes below `0x80` read as ASCII (`decode_ascii_iff`): no longer sequence and
no broken one does, and no such byte is part of one (`decode_append`).
-/

namespace PokrovCore.Utf8

/-- The replacement character. -/
def replacement : Char := Char.ofNat 0xFFFD

/-- What a first byte announces: the number of bytes that follow, and the range of the first. -/
def lead (b : ℕ) : Option (ℕ × ℕ × ℕ) :=
  if 0xC2 ≤ b ∧ b ≤ 0xDF then some (1, 0x80, 0xBF)
  else if b = 0xE0 then some (2, 0xA0, 0xBF)
  else if b = 0xED then some (2, 0x80, 0x9F)
  else if 0xE1 ≤ b ∧ b ≤ 0xEF then some (2, 0x80, 0xBF)
  else if b = 0xF0 then some (3, 0x90, 0xBF)
  else if b = 0xF4 then some (3, 0x80, 0x8F)
  else if 0xF1 ≤ b ∧ b ≤ 0xF3 then some (3, 0x80, 0xBF)
  else none

/-- A byte that follows. -/
def follows (b : UInt8) : Bool := decide (0x80 ≤ b.toNat ∧ b.toNat ≤ 0xBF)

/-- The six bits of a byte that follows. -/
def bits (b : UInt8) : ℕ := b.toNat % 64

/-- The code point that begins with a byte, and how many more bytes it takes. -/
def codePoint (b : UInt8) (l : List UInt8) : Option (ℕ × ℕ) :=
  match lead b.toNat, l with
  | some (1, lo, hi), b₁ :: _ =>
    if lo ≤ b₁.toNat ∧ b₁.toNat ≤ hi then some (b.toNat % 32 * 64 + bits b₁, 1) else none
  | some (2, lo, hi), b₁ :: b₂ :: _ =>
    if lo ≤ b₁.toNat ∧ b₁.toNat ≤ hi ∧ follows b₂ then
      some (b.toNat % 16 * 4096 + bits b₁ * 64 + bits b₂, 2)
    else none
  | some (3, lo, hi), b₁ :: b₂ :: b₃ :: _ =>
    if lo ≤ b₁.toNat ∧ b₁.toNat ≤ hi ∧ follows b₂ ∧ follows b₃ then
      some (b.toNat % 8 * 262144 + bits b₁ * 4096 + bits b₂ * 64 + bits b₃, 3)
    else none
  | _, _ => none

/-- The rune that begins with a byte, and how many more bytes it takes. -/
def rune (b : UInt8) (l : List UInt8) : Char × ℕ :=
  if b.toNat < 0x80 then (Char.ofNat b.toNat, 0)
  else (codePoint b l).elim (replacement, 0) fun r => (Char.ofNat r.1, r.2)

/-- The runes of a byte string, the first `skip` bytes of which belong to an earlier rune. -/
def decodeFrom : ℕ → List UInt8 → List Char
  | _, [] => []
  | skip + 1, _ :: l => decodeFrom skip l
  | 0, b :: l => (rune b l).1 :: decodeFrom (rune b l).2 l

/-- **The runes of a byte string.** -/
def decode (l : List UInt8) : List Char := decodeFrom 0 l

/-! ## ASCII -/

theorem toNat_ofNat {n : ℕ} (h : n.isValidChar) : (Char.ofNat n).toNat = n := by
  rw [Char.ofNat, dif_pos h]
  rfl

/-- The first bytes of the encoding. -/
theorem lead_cases {b n lo hi : ℕ} (h : lead b = some (n, lo, hi)) :
    n = 1 ∧ 0xC2 ≤ b ∧ b ≤ 0xDF ∨
      n = 2 ∧ (b = 0xE0 ∧ lo = 0xA0 ∧ hi = 0xBF ∨ b = 0xED ∧ lo = 0x80 ∧ hi = 0x9F ∨
        0xE1 ≤ b ∧ b ≤ 0xEF ∧ b ≠ 0xED) ∨
      n = 3 ∧ (b = 0xF0 ∧ lo = 0x90 ∧ hi = 0xBF ∨ b = 0xF4 ∧ lo = 0x80 ∧ hi = 0x8F ∨
        0xF1 ≤ b ∧ b ≤ 0xF3) := by
  unfold lead at h
  split_ifs at h <;>
  · simp only [Option.some.injEq, Prod.mk.injEq] at h
    omega

variable {l : List UInt8}

/-- A longer sequence is a character beyond ASCII. -/
theorem codePoint_spec {b : UInt8} {r : ℕ × ℕ} (h : codePoint b l = some r) :
    r.1.isValidChar ∧ 0x80 ≤ r.1 := by
  unfold codePoint at h
  split at h
  · rename_i hlead
    obtain ⟨hrange, h⟩ := Option.ite_none_right_eq_some.mp h
    obtain rfl := Option.some.inj h
    have := lead_cases hlead
    simp only [Nat.isValidChar, bits]
    omega
  · rename_i hlead
    obtain ⟨⟨hlo, hhi, _⟩, h⟩ := Option.ite_none_right_eq_some.mp h
    obtain rfl := Option.some.inj h
    have := lead_cases hlead
    simp only [Nat.isValidChar, bits]
    omega
  · rename_i hlead
    obtain ⟨⟨hlo, hhi, _⟩, h⟩ := Option.ite_none_right_eq_some.mp h
    obtain rfl := Option.some.inj h
    have := lead_cases hlead
    simp only [Nat.isValidChar, bits]
    omega
  · cases h

theorem rune_ascii_iff (b : UInt8) (l : List UInt8) :
    (rune b l).1.toNat < 0x80 ↔ b.toNat < 0x80 := by
  unfold rune
  split_ifs with hb
  · rw [toNat_ofNat (by left; omega)]
  · refine iff_of_false ?_ hb
    cases hc : codePoint b l with
    | none => decide
    | some r =>
      obtain ⟨hvalid, hlong⟩ := codePoint_spec hc
      show ¬ (Char.ofNat r.1).toNat < 0x80
      rw [toNat_ofNat hvalid]
      omega

theorem rune_of_ascii {b : UInt8} (h : b.toNat < 0x80) (l : List UInt8) :
    rune b l = (Char.ofNat b.toNat, 0) := if_pos h

/-- ASCII reads byte by byte. -/
theorem decode_of_ascii (h : ∀ b ∈ l, b.toNat < 0x80) :
    decode l = l.map fun b => Char.ofNat b.toNat := by
  induction l with
  | nil => rfl
  | cons b l ih =>
    have hb := h b List.mem_cons_self
    show (rune b l).1 :: decodeFrom (rune b l).2 l = _
    rw [rune_of_ascii hb]
    exact congrArg _ (ih fun c hc => h c (List.mem_cons_of_mem b hc))

/-- **Only ASCII reads as ASCII.** -/
theorem decode_ascii_iff :
    (∀ c ∈ decode l, c.toNat < 0x80) ↔ ∀ b ∈ l, b.toNat < 0x80 := by
  refine ⟨fun h => ?_, fun h c hc => ?_⟩
  · induction l with
    | nil => exact nofun
    | cons b l ih =>
      have hdecode : decode (b :: l) = (rune b l).1 :: decodeFrom (rune b l).2 l := rfl
      have hb := (rune_ascii_iff b l).mp (h _ (hdecode ▸ List.mem_cons_self))
      rw [hdecode, rune_of_ascii hb] at h
      exact List.forall_mem_cons.mpr ⟨hb, ih fun c hc => h c (List.mem_cons_of_mem _ hc)⟩
  · rw [decode_of_ascii h] at hc
    obtain ⟨b, hb, rfl⟩ := List.mem_map.mp hc
    have := h b hb
    rwa [toNat_ofNat (by left; omega)]

/-! ## Cutting before ASCII -/

theorem le_of_lead {b n lo hi : ℕ} (h : lead b = some (n, lo, hi)) : 0x80 ≤ lo := by
  unfold lead at h
  split_ifs at h <;>
  · simp only [Option.some.injEq, Prod.mk.injEq] at h
    omega

/-- A sequence ends before an ASCII byte. -/
theorem codePoint_append (b : UInt8) (l : List UInt8) {c : UInt8} (hc : c.toNat < 0x80)
    (s : List UInt8) : codePoint b (l ++ c :: s) = codePoint b l := by
  unfold codePoint
  cases hlead : lead b.toNat with
  | none => rfl
  | some p =>
    obtain ⟨n, lo, hi⟩ := p
    have hlo := le_of_lead hlead
    have hfirst : ¬ lo ≤ c.toNat := by omega
    have hfollows : follows c = false := by
      rw [follows, decide_eq_false_iff_not]
      omega
    match n, l with
    | 0, _ => rfl
    | 1, [] => simp [hfirst]
    | 1, _ :: _ => rfl
    | 2, [] => cases s <;> simp [hfirst]
    | 2, [_] => simp [hfollows]
    | 2, _ :: _ :: _ => rfl
    | 3, [] => rcases s with _ | ⟨_, _ | ⟨_, _⟩⟩ <;> simp [hfirst]
    | 3, [_] => cases s <;> simp [hfollows]
    | 3, [_, _] => simp [hfollows]
    | 3, _ :: _ :: _ :: _ => rfl
    | n + 4, _ => rfl

theorem codePoint_length {b : UInt8} {r : ℕ × ℕ} (h : codePoint b l = some r) :
    r.2 ≤ l.length := by
  unfold codePoint at h
  split at h
  · obtain rfl := Option.some.inj (Option.ite_none_right_eq_some.mp h).2
    simp
  · obtain rfl := Option.some.inj (Option.ite_none_right_eq_some.mp h).2
    simp
  · obtain rfl := Option.some.inj (Option.ite_none_right_eq_some.mp h).2
    simp
  · cases h

theorem rune_length (b : UInt8) (l : List UInt8) : (rune b l).2 ≤ l.length := by
  unfold rune
  split_ifs
  · exact Nat.zero_le _
  · cases hc : codePoint b l with
    | none => exact Nat.zero_le _
    | some r => exact codePoint_length hc

theorem decodeFrom_append {c : UInt8} (hc : c.toNat < 0x80) (s : List UInt8) :
    ∀ {skip : ℕ} {l : List UInt8}, skip ≤ l.length →
      decodeFrom skip (l ++ c :: s) = decodeFrom skip l ++ decode (c :: s)
  | 0, [], _ => rfl
  | skip + 1, [], h => by cases h
  | skip + 1, b :: l, h => by
    show decodeFrom skip (l ++ c :: s) = decodeFrom skip l ++ _
    exact decodeFrom_append hc s (Nat.le_of_succ_le_succ h)
  | 0, b :: l, _ => by
    have hrune : rune b (l ++ c :: s) = rune b l := by
      rw [rune, rune, codePoint_append b l hc s]
    rw [List.cons_append, decodeFrom, decodeFrom, hrune, decodeFrom_append hc s (rune_length b l)]
    rfl

/-- **A byte string may be cut before an ASCII byte.** -/
theorem decode_append (l : List UInt8) {s : List UInt8} (hs : ∀ b ∈ s, b.toNat < 0x80) :
    decode (l ++ s) = decode l ++ decode s := by
  cases s with
  | nil => rw [List.append_nil]; exact (List.append_nil _).symm
  | cons c s => exact decodeFrom_append (hs c List.mem_cons_self) s (Nat.zero_le _)

/-! ## Writing -/

/-- The bytes of a text. -/
def encode (cs : List Char) : List UInt8 := cs.flatMap String.utf8EncodeChar

variable {cs : List Char}

theorem encode_of_ascii (h : ∀ c ∈ cs, c.toNat < 0x80) :
    encode cs = cs.map fun c => UInt8.ofNat c.toNat := by
  induction cs with
  | nil => rfl
  | cons c cs ih =>
    have hc : c.val.toNat ≤ 127 := Nat.le_of_lt_succ (h c List.mem_cons_self)
    rw [encode, List.flatMap_cons, String.utf8EncodeChar, if_pos hc]
    exact congrArg _ (ih fun d hd => h d (List.mem_cons_of_mem c hd))

/-- ASCII reads back… -/
theorem decode_encode (h : ∀ c ∈ cs, c.toNat < 0x80) : decode (encode cs) = cs := by
  have hbyte : ∀ c ∈ cs, (UInt8.ofNat c.toNat).toNat = c.toNat := fun c hc =>
    UInt8.toNat_ofNat_of_lt' (Nat.lt_trans (h c hc) (by decide))
  rw [encode_of_ascii h, decode_of_ascii, List.map_map]
  · refine (List.map_congr_left fun c hc => ?_).trans (List.map_id cs)
    rw [Function.comp_apply, hbyte c hc, Char.ofNat_toNat]
    rfl
  · intro b hb
    obtain ⟨c, hc, rfl⟩ := List.mem_map.mp hb
    rw [hbyte c hc]
    exact h c hc

/-- …and writes back. -/
theorem encode_decode (h : ∀ b ∈ l, b.toNat < 0x80) : encode (decode l) = l := by
  rw [encode_of_ascii (decode_ascii_iff.mpr h), decode_of_ascii h, List.map_map]
  refine (List.map_congr_left fun b hb => ?_).trans (List.map_id l)
  rw [Function.comp_apply, toNat_ofNat (by have := h b hb; left; omega), UInt8.ofNat_toNat]
  rfl

theorem encode_ascii (h : ∀ c ∈ cs, c.toNat < 0x80) :
    ∀ b ∈ encode cs, b.toNat < 0x80 :=
  decode_ascii_iff.mp (by rwa [decode_encode h])

end PokrovCore.Utf8
