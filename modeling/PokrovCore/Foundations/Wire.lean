import Mathlib.Data.List.Basic
import Mathlib.Tactic.Ring

/-!
# Foundations/Wire — formats of length-prefixed byte strings

A `Codec` reads a value off the front of a byte string and writes it back, and the two agree in both
directions: it reads exactly what it writes.  So a format built from codecs has one reading, and
whatever a parser accepts is the writing of a value.

* `vec8`, `vec16`, `after`, `prod`, `filter`, `equiv` — length prefixes, literals and composition.
* `Codec.fold` — the loop of a parser over a sequence of items, with an error at the first item that
  does not read; `fold_eq_ok_iff` says what it accepts.
-/

namespace PokrovCore.Wire

/-! ## Numbers -/

/-- A number in two bytes, the high one first. -/
def nat16 (a b : UInt8) : ℕ := a.toNat * 256 + b.toNat

def bytes16 (n : ℕ) : List UInt8 := [UInt8.ofNat (n / 256), UInt8.ofNat n]

theorem nat16_lt (a b : UInt8) : nat16 a b < 65536 := by
  have := a.toNat_lt
  have := b.toNat_lt
  unfold nat16
  omega

theorem bytes16_nat16 (a b : UInt8) : bytes16 (nat16 a b) = [a, b] := by
  have ha := a.toNat_lt
  have hb := b.toNat_lt
  have hhigh : nat16 a b / 256 = a.toNat := by unfold nat16; omega
  have hlow : UInt8.ofNat (nat16 a b) = b := by
    refine UInt8.toNat_inj.mp ?_
    rw [UInt8.toNat_ofNat']
    unfold nat16
    omega
  rw [bytes16, hhigh, hlow, UInt8.ofNat_toNat]

theorem nat16_bytes16 {n : ℕ} (h : n < 65536) :
    nat16 (UInt8.ofNat (n / 256)) (UInt8.ofNat n) = n := by
  unfold nat16
  rw [UInt8.toNat_ofNat', UInt8.toNat_ofNat']
  omega

/-- A number in three bytes. -/
def nat24 (a b c : UInt8) : ℕ := nat16 a b * 256 + c.toNat

def bytes24 (n : ℕ) : List UInt8 := bytes16 (n / 256) ++ [UInt8.ofNat n]

theorem bytes24_nat24 (a b c : UInt8) : bytes24 (nat24 a b c) = [a, b, c] := by
  have hc := c.toNat_lt
  have hhigh : nat24 a b c / 256 = nat16 a b := by unfold nat24; omega
  have hlow : UInt8.ofNat (nat24 a b c) = c := by
    refine UInt8.toNat_inj.mp ?_
    rw [UInt8.toNat_ofNat']
    unfold nat24
    omega
  rw [bytes24, hhigh, hlow, bytes16_nat16]
  rfl

/-- A number in `k` bytes, the high ones first. -/
def bytesBE : ℕ → ℕ → List UInt8
  | 0, _ => []
  | k + 1, n => bytesBE k (n / 256) ++ [UInt8.ofNat n]

def natBE (l : List UInt8) : ℕ := l.foldl (fun n b => n * 256 + b.toNat) 0

theorem bytesBE_length (k n : ℕ) : (bytesBE k n).length = k := by
  induction k generalizing n with
  | zero => rfl
  | succ k ih => rw [bytesBE, List.length_append, ih, List.length_singleton]

theorem natBE_concat (l : List UInt8) (b : UInt8) : natBE (l ++ [b]) = natBE l * 256 + b.toNat := by
  simp [natBE]

/-- **Reading a number gives what was written**, as far as the bytes go. -/
theorem natBE_bytesBE (k n : ℕ) : natBE (bytesBE k n) = n % 256 ^ k := by
  induction k generalizing n with
  | zero => simp [bytesBE, natBE, Nat.mod_one]
  | succ k ih =>
    have hpow : 256 ^ (k + 1) = 256 * 256 ^ k := Nat.pow_succ'
    rw [bytesBE, natBE_concat, ih, UInt8.toNat_ofNat', hpow, Nat.mod_mul]
    omega

variable {l : List UInt8}

/-- **And writing what was read gives the bytes.** -/
theorem bytesBE_natBE {k : ℕ} (h : l.length = k) : bytesBE k (natBE l) = l := by
  induction k generalizing l with
  | zero => rw [List.length_eq_zero_iff.mp h, bytesBE]
  | succ k ih =>
    obtain ⟨l, b, rfl⟩ : ∃ l' b, l = l' ++ [b] :=
      ⟨l.dropLast, l.getLast (List.ne_nil_of_length_pos (by omega)),
        (List.dropLast_append_getLast _).symm⟩
    have hb := b.toNat_lt
    have hhigh : (natBE l * 256 + b.toNat) / 256 = natBE l := by omega
    have hlow : UInt8.ofNat (natBE l * 256 + b.toNat) = b := by
      refine UInt8.toNat_inj.mp ?_
      rw [UInt8.toNat_ofNat']
      omega
    rw [natBE_concat, bytesBE, hhigh, hlow, ih (by simpa using h)]

theorem natBE_lt (l : List UInt8) : natBE l < 256 ^ l.length := by
  rw [← bytesBE_natBE (l := l) rfl, natBE_bytesBE, bytesBE_length]
  exact Nat.mod_lt _ (Nat.pow_pos (by decide))

/-! ## Codecs -/

/-- **A format**: what it reads is what it writes, and it writes something. -/
structure Codec (α : Type*) where
  read : List UInt8 → Option (α × List UInt8)
  write : α → List UInt8
  read_iff : ∀ {l : List UInt8} {a : α} {r : List UInt8},
    read l = some (a, r) ↔ l = write a ++ r

namespace Codec

variable {α β : Type*}

theorem read_write (c : Codec α) (a : α) (r : List UInt8) : c.read (c.write a ++ r) = some (a, r) :=
  c.read_iff.mpr rfl

/-- One byte. -/
def byte : Codec UInt8 where
  read
    | [] => none
    | b :: l => some (b, l)
  write b := [b]
  read_iff {l a r} := by
    cases l with
    | nil => simp
    | cons b l => simp [Prod.ext_iff]

/-- A given number of bytes. -/
def fixed (n : ℕ) : Codec {v : List UInt8 // v.length = n} where
  read l := if h : n ≤ l.length then
      some (⟨l.take n, by rw [List.length_take, min_eq_left h]⟩, l.drop n)
    else none
  write v := v.1
  read_iff {l a r} := by
    obtain ⟨v, rfl⟩ := a
    constructor
    · intro h
      split at h
      · obtain ⟨hv, rfl⟩ := Prod.mk.inj (Option.some.inj h)
        have htake : l.take v.length = v := Subtype.mk.inj hv
        show l = v ++ l.drop v.length
        rw [← htake, List.length_take, min_eq_left ‹_›, List.take_append_drop]
      · cases h
    · rintro rfl
      simp

/-- A byte string after its length in one byte. -/
def vec8 : Codec {v : List UInt8 // v.length < 256} where
  read
    | [] => none
    | n :: l => ((fixed n.toNat).read l).map fun p => (⟨p.1.1, p.1.2.trans_lt n.toNat_lt⟩, p.2)
  write v := UInt8.ofNat v.1.length :: v.1
  read_iff {l a r} := by
    obtain ⟨v, hv⟩ := a
    cases l with
    | nil => simp
    | cons n l =>
      simp only [Option.map_eq_some_iff, List.cons_append, List.cons.injEq]
      constructor
      · rintro ⟨p, hp, h⟩
        obtain ⟨hv', rfl⟩ := Prod.mk.inj h
        obtain rfl := Subtype.mk.inj hv'
        exact ⟨by rw [p.1.2, UInt8.ofNat_toNat], (fixed _).read_iff.mp hp⟩
      · rintro ⟨rfl, rfl⟩
        have hlen : (UInt8.ofNat v.length).toNat = v.length := UInt8.toNat_ofNat_of_lt' hv
        exact ⟨(⟨v, hlen.symm⟩, r), (fixed _).read_write ⟨v, hlen.symm⟩ r, rfl⟩

/-- A byte string after its length in two bytes. -/
def vec16 : Codec {v : List UInt8 // v.length < 65536} where
  read
    | a :: b :: l =>
      ((fixed (nat16 a b)).read l).map fun p => (⟨p.1.1, p.1.2.trans_lt (nat16_lt a b)⟩, p.2)
    | _ => none
  write v := bytes16 v.1.length ++ v.1
  read_iff {l a r} := by
    obtain ⟨v, hv⟩ := a
    match l with
    | [] => simp [bytes16]
    | [a] => simp [bytes16]
    | a :: b :: l =>
      simp only [Option.map_eq_some_iff]
      constructor
      · rintro ⟨p, hp, h⟩
        obtain ⟨hv', rfl⟩ := Prod.mk.inj h
        obtain rfl := Subtype.mk.inj hv'
        rw [p.1.2, bytes16_nat16, (fixed _).read_iff.mp hp]
        rfl
      · intro h
        obtain ⟨rfl, rfl, rfl⟩ : a = UInt8.ofNat (v.length / 256) ∧ b = UInt8.ofNat v.length ∧
            l = v ++ r := by simpa [bytes16] using h
        have hlen := (nat16_bytes16 hv).symm
        exact ⟨(⟨v, hlen⟩, r), (fixed _).read_write ⟨v, hlen⟩ r, rfl⟩

/-- A value after a literal. -/
def after (p : List UInt8) (c : Codec α) : Codec α where
  read l := if p <+: l then c.read (l.drop p.length) else none
  write a := p ++ c.write a
  read_iff {l a r} := by
    rw [Option.ite_none_right_eq_some]
    constructor
    · rintro ⟨⟨l, rfl⟩, h⟩
      rw [List.drop_left] at h
      rw [c.read_iff.mp h, List.append_assoc]
    · rintro rfl
      rw [List.append_assoc, List.drop_left]
      exact ⟨List.prefix_append _ _, c.read_write a r⟩

/-- One value, then another. -/
def prod (c : Codec α) (d : Codec β) : Codec (α × β) where
  read l := (c.read l).bind fun p => (d.read p.2).map fun q => ((p.1, q.1), q.2)
  write a := c.write a.1 ++ d.write a.2
  read_iff {l a r} := by
    obtain ⟨a, b⟩ := a
    rw [Option.bind_eq_some_iff]
    constructor
    · rintro ⟨p, hp, h⟩
      obtain ⟨q, hq, h⟩ := Option.map_eq_some_iff.mp h
      obtain ⟨hab, rfl⟩ := Prod.mk.inj h
      obtain ⟨rfl, rfl⟩ := Prod.mk.inj hab
      rw [c.read_iff.mp hp, d.read_iff.mp hq, List.append_assoc]
    · rintro rfl
      rw [List.append_assoc]
      exact ⟨_, c.read_write a _, by rw [d.read_write]; rfl⟩

variable {c : Codec α}

theorem prod_read_of_none {d : Codec β} (h : c.read l = none) :
    (c.prod d).read l = none := by
  simp only [prod, h, Option.bind_none]

theorem prod_read_of_some {d : Codec β} {r : List UInt8} {a : α} (h : c.read l = some (a, r)) :
    (c.prod d).read l = (d.read r).map fun q => ((a, q.1), q.2) := by
  simp only [prod, h, Option.bind_some]

/-- The values with a property. -/
def filter (c : Codec α) (p : α → Prop) [DecidablePred p] : Codec {a // p a} where
  read l := (c.read l).bind fun q => if h : p q.1 then some (⟨q.1, h⟩, q.2) else none
  write a := c.write a.1
  read_iff {l a r} := by
    obtain ⟨a, ha⟩ := a
    rw [Option.bind_eq_some_iff, ← c.read_iff]
    constructor
    · rintro ⟨q, hq, h⟩
      split at h
      · obtain ⟨hv, rfl⟩ := Prod.mk.inj (Option.some.inj h)
        obtain rfl : q.1 = a := Subtype.mk.inj hv
        exact hq
      · cases h
    · intro h
      exact ⟨(a, r), h, by rw [dif_pos ha]⟩

/-- The same format under another name of its values. -/
def equiv (c : Codec α) (e : α ≃ β) : Codec β where
  read l := (c.read l).map fun p => (e p.1, p.2)
  write b := c.write (e.symm b)
  read_iff {l b r} := by
    rw [Option.map_eq_some_iff, ← c.read_iff]
    constructor
    · rintro ⟨p, hp, h⟩
      obtain ⟨rfl, rfl⟩ := Prod.mk.inj h
      rwa [Equiv.symm_apply_apply]
    · intro h
      exact ⟨_, h, by rw [Equiv.apply_symm_apply]⟩

/-! ## Sequences -/

variable {σ ε : Type*}

/-- **The loop of a parser**: read an item, update the state, until nothing is left. -/
def fold (c : Codec α) (f : σ → α → Except ε σ) (bad : ε) : ℕ → σ → List UInt8 → Except ε σ
  | _, s, [] => .ok s
  | 0, _, _ :: _ => .error bad
  | fuel + 1, s, b :: l =>
    match c.read (b :: l) with
    | none => .error bad
    | some (a, r) => (f s a).bind fun s' => c.fold f bad fuel s' r

/-- **What the loop accepts**: the writing of a sequence the updates accept. -/
theorem fold_eq_ok_iff (hne : ∀ a, c.write a ≠ []) {f : σ → α → Except ε σ} {bad : ε} {s' : σ} :
    ∀ {n : ℕ} {s : σ} {l : List UInt8}, l.length ≤ n →
    (c.fold f bad n s l = .ok s' ↔ ∃ items : List α, l = items.flatMap c.write ∧
      items.foldlM f s = .ok s')
  | n, s, [], _ => by
    rw [fold]
    constructor
    · intro h
      exact ⟨[], rfl, h⟩
    · rintro ⟨items, hnil, h⟩
      cases items with
      | nil => exact h
      | cons a items => exact absurd (List.append_eq_nil_iff.mp hnil.symm).1 (hne a)
  | 0, s, b :: l, hn => by cases hn
  | n + 1, s, b :: l, hn => by
    have hshort : ∀ {a : α} {r : List UInt8}, b :: l = c.write a ++ r → r.length ≤ n := by
      intro a r h
      have hlen := congrArg List.length h
      have hpos := List.length_pos_iff.mpr (hne a)
      rw [List.length_append] at hlen
      omega
    rw [fold]
    constructor
    · intro h
      split at h
      · cases h
      · rename_i a r hread
        have hl := c.read_iff.mp hread
        cases hf : f s a with
        | error e =>
          rw [hf] at h
          cases h
        | ok s₁ =>
          rw [hf] at h
          obtain ⟨items, rfl, hitems⟩ := (fold_eq_ok_iff hne (hshort hl)).mp h
          refine ⟨a :: items, hl, ?_⟩
          rw [List.foldlM_cons, hf]
          exact hitems
    · rintro ⟨items, hl, h⟩
      cases items with
      | nil => cases hl
      | cons a items =>
        rw [List.flatMap_cons] at hl
        rw [List.foldlM_cons] at h
        simp only [c.read_iff.mpr hl]
        cases hf : f s a with
        | error e =>
          rw [hf] at h
          cases h
        | ok s₁ =>
          rw [hf] at h
          exact (fold_eq_ok_iff hne (hshort hl)).mpr ⟨items, rfl, h⟩

/-- The items of a whole byte string. -/
def all (c : Codec α) (l : List UInt8) : Option (List α) :=
  (c.fold (fun s a => .ok (s ++ [a])) () l.length [] l).toOption

theorem all_eq_some_iff (hne : ∀ a, c.write a ≠ []) {items : List α} :
    c.all l = some items ↔ l = items.flatMap c.write := by
  have hcollect : ∀ (l s : List α),
      l.foldlM (fun s a => (.ok (s ++ [a]) : Except Unit (List α))) s = .ok (s ++ l) := by
    intro l
    induction l with
    | nil => intro s; rw [List.append_nil]; rfl
    | cons a l ih =>
      intro s
      rw [List.foldlM_cons]
      exact (ih (s ++ [a])).trans (by rw [List.append_assoc]; rfl)
  rw [all]
  constructor
  · intro h
    cases hfold : c.fold (fun s a => .ok (s ++ [a])) () l.length [] l with
    | error e =>
      rw [hfold] at h
      cases h
    | ok s =>
      obtain ⟨items', hl, hitems⟩ := (fold_eq_ok_iff hne le_rfl).mp hfold
      rw [hcollect] at hitems
      rw [hfold, ← hitems] at h
      obtain rfl := Option.some.inj h
      exact hl
  · intro h
    rw [(fold_eq_ok_iff hne le_rfl).mpr ⟨items, h, hcollect items []⟩]
    rfl

/-- **Items are read as long as they come.** -/
def many (c : Codec α) : ℕ → List UInt8 → List α
  | 0, _ => []
  | n + 1, l =>
    match c.read l with
    | none => []
    | some (a, r) => a :: c.many n r

/-- A part of a writing that is not all of it does not read. -/
theorem read_eq_none_of_prefix {a : α} (hl : l <+: c.write a) (hne : l ≠ c.write a) :
    c.read l = none := by
  cases hread : c.read l with
  | none => rfl
  | some q =>
    obtain ⟨b, r⟩ := q
    obtain ⟨u, hu⟩ := hl
    -- what was read is the writing of `b`, and so `a` is `b` with nothing behind it
    have hsplit : c.write a ++ [] = c.write b ++ (r ++ u) := by
      rw [List.append_nil, ← hu, ← List.append_assoc, ← c.read_iff.mp hread]
    have hsame := (c.read_iff.mpr hsplit).symm.trans (c.read_write a [])
    obtain ⟨-, hnil⟩ := Prod.mk.inj (Option.some.inj hsame)
    rw [(List.append_eq_nil_iff.mp hnil).2, List.append_nil] at hu
    exact absurd hu hne

/-- **From a beginning of a sequence, exactly the items that are complete are read.** -/
theorem many_of_prefix (hne : ∀ a, c.write a ≠ []) : ∀ {items : List α}
    {l : List UInt8} {n : ℕ}, l <+: items.flatMap c.write → l.length ≤ n →
    ∃ k ≤ items.length, c.many n l = items.take k ∧ (items.take k).flatMap c.write <+: l ∧
      (k < items.length → l.length < ((items.take (k + 1)).flatMap c.write).length)
  | [], l, n, hl, _ => by
    obtain rfl : l = [] := List.prefix_nil.mp hl
    refine ⟨0, Nat.le_refl 0, ?_, List.nil_prefix, fun h => absurd h (Nat.lt_irrefl 0)⟩
    cases n with
    | zero => rfl
    | succ n =>
      cases hread : c.read [] with
      | none => simp [many, hread]
      | some q =>
        have hnil := c.read_iff.mp hread
        exact absurd (List.append_eq_nil_iff.mp hnil.symm).1 (hne q.1)
  | a :: items, l, n, hl, hn => by
    rw [List.flatMap_cons] at hl
    by_cases hwhole : c.write a <+: l
    · obtain ⟨l, rfl⟩ := hwhole
      have hrest := (List.prefix_append_right_inj _).mp hl
      have hpos := List.length_pos_iff.mpr (hne a)
      rw [List.length_append] at hn
      obtain ⟨n, rfl⟩ : ∃ m, n = m + 1 := ⟨n - 1, by omega⟩
      obtain ⟨k, hk, hmany, hpre, hnext⟩ := many_of_prefix hne hrest (n := n) (by omega)
      refine ⟨k + 1, Nat.succ_le_succ hk, ?_, ?_, fun hlt => ?_⟩
      · rw [many, c.read_write]
        simp only [hmany, List.take_succ_cons]
      · rw [List.take_succ_cons, List.flatMap_cons]
        exact (List.prefix_append_right_inj _).mpr hpre
      · rw [List.take_succ_cons, List.flatMap_cons, List.length_append, List.length_append]
        have := hnext (Nat.lt_of_succ_lt_succ hlt)
        omega
    · have hpart : l <+: c.write a :=
        (List.prefix_or_prefix_of_prefix hl (List.prefix_append _ _)).resolve_right hwhole
      have hne' : l ≠ c.write a := fun h => hwhole (h ▸ List.prefix_refl _)
      refine ⟨0, Nat.zero_le _, ?_, List.nil_prefix, fun _ => ?_⟩
      · cases n with
        | zero => rfl
        | succ n =>
          rw [many, read_eq_none_of_prefix hpart hne']
          rfl
      · rw [List.take_succ_cons, List.take_zero, List.flatMap_cons, List.flatMap_nil,
          List.append_nil]
        exact Nat.lt_of_le_of_ne hpart.length_le fun h => hne' (hpart.eq_of_length h)

/-- **And from a whole sequence, all of them.** -/
theorem many_flatMap (hne : ∀ a, c.write a ≠ []) {items : List α} {n : ℕ}
    (hn : (items.flatMap c.write).length ≤ n) : c.many n (items.flatMap c.write) = items := by
  obtain ⟨k, hk, hmany, -, hnext⟩ := many_of_prefix hne (List.prefix_refl _) hn
  obtain hlt | rfl := Nat.lt_or_eq_of_le hk
  · have hmore := hnext hlt
    have hsub : ((items.take (k + 1)).flatMap c.write).length ≤ (items.flatMap c.write).length := by
      rw [← List.take_append_drop (k + 1) items, List.flatMap_append, List.length_append,
        List.take_left' (by simp; omega)]
      omega
    omega
  · rw [hmany, List.take_length]

end Codec

end PokrovCore.Wire
