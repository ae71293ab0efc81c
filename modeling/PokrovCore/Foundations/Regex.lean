import Mathlib.Data.List.Basic

/-!
# Foundations/Regex — patterns, and the matches of a text from its left

A pattern is matched with backtracking.  `runs` lists what is left of a text after each way to match a
beginning of it, the preferred way first, and `findFrom` goes over a text, takes the first way where
there is one, and goes on behind it.  `Matches` is the language of a pattern, and the ways are its
words (`mem_runs`).

Where no word begins another, the ways do not matter: the matches of a text follow on each other up to
its end exactly when the text is a concatenation of words (`findFrom_flatten`, `Chained.flatten`).
-/

namespace PokrovCore

/-- A pattern over characters: a class, a class repeated as often as it can be, up to a bound, and
one after the other, or one rather than the other. -/
inductive Regex (α : Type)
  | empty
  | one (p : α → Bool)
  | rep (bound : Option ℕ) (p : α → Bool)
  | seq (a b : Regex α)
  | alt (a b : Regex α)

namespace Regex

variable {α : Type} {r : Regex α} {s w : List α} {k : ℕ}

/-- One or more of a class. -/
def plus (p : α → Bool) : Regex α := .seq (.one p) (.rep none p)

/-- A text, character by character. -/
def literal [BEq α] : List α → Regex α
  | [] => .empty
  | c :: l => .seq (.one (· == c)) (literal l)

/-- **The language of a pattern.** -/
def Matches : Regex α → List α → Prop
  | .empty, w => w = []
  | .one p, w => ∃ c, p c = true ∧ w = [c]
  | .rep bound p, w => (∀ c ∈ w, p c = true) ∧ ∀ n ∈ bound, w.length ≤ n
  | .seq a b, w => ∃ u v, w = u ++ v ∧ Matches a u ∧ Matches b v
  | .alt a b, w => Matches a w ∨ Matches b w

/-- At most `n` of a class, more rather than fewer. -/
def repRuns (p : α → Bool) : ℕ → List α → List (List α)
  | 0, s => [s]
  | _ + 1, [] => [[]]
  | n + 1, c :: s => if p c then repRuns p n s ++ [c :: s] else [c :: s]

/-- What each way to match a beginning leaves, the preferred way first. -/
def runs : Regex α → List α → List (List α)
  | .empty, s => [s]
  | .one _, [] => []
  | .one p, c :: s => if p c then [s] else []
  | .rep bound p, s => repRuns p (bound.getD s.length) s
  | .seq a b, s => (runs a s).flatMap (runs b)
  | .alt a b, s => runs a s ++ runs b s

/-- The length of the match at the beginning of a text. -/
def matchLength (r : Regex α) (s : List α) : Option ℕ :=
  (r.runs s).head?.map fun rest => s.length - rest.length

/-- **The matches of a text, from the left**: where each begins and ends.  The first `skip` characters
belong to a match before, and `k` is where the text stands. -/
def findFrom (r : Regex α) : ℕ → ℕ → List α → List (ℕ × ℕ)
  | _, _, [] => []
  | skip + 1, k, _ :: s => findFrom r skip (k + 1) s
  | 0, k, c :: s =>
    match r.matchLength (c :: s) with
    | none => findFrom r 0 (k + 1) s
    | some n => (k, k + n) :: findFrom r (n - 1) (k + 1) s

/-! ## Words -/

theorem matches_literal [BEq α] [LawfulBEq α] {l : List α} : (literal l).Matches w ↔ w = l := by
  induction l generalizing w with
  | nil => exact Iff.rfl
  | cons c l ih =>
    constructor
    · rintro ⟨u, v, rfl, ⟨d, hd, rfl⟩, hv⟩
      rw [eq_of_beq hd, ih.mp hv]
      rfl
    · rintro rfl
      exact ⟨[c], l, rfl, ⟨c, beq_self_eq_true c, rfl⟩, ih.mpr rfl⟩

theorem matches_plus {p : α → Bool} : (plus p).Matches w ↔ w ≠ [] ∧ ∀ c ∈ w, p c = true := by
  constructor
  · rintro ⟨u, v, rfl, ⟨c, hc, rfl⟩, hv, -⟩
    exact ⟨List.cons_ne_nil c v, List.forall_mem_cons.mpr ⟨hc, hv⟩⟩
  · rintro ⟨hne, hall⟩
    obtain ⟨c, v, rfl⟩ := List.exists_cons_of_ne_nil hne
    obtain ⟨hc, hv⟩ := List.forall_mem_cons.mp hall
    exact ⟨[c], v, rfl, ⟨c, hc, rfl⟩, hv, fun n hn => (Option.not_mem_none n hn).elim⟩

theorem mem_repRuns {p : α → Bool} {n : ℕ} {rest : List α} :
    rest ∈ repRuns p n s ↔ ∃ w, s = w ++ rest ∧ (∀ c ∈ w, p c = true) ∧ w.length ≤ n := by
  induction n generalizing s with
  | zero =>
    rw [repRuns, List.mem_singleton]
    constructor
    · rintro rfl
      exact ⟨[], rfl, List.forall_mem_nil _, Nat.le_refl 0⟩
    · rintro ⟨w, rfl, _, hlen⟩
      rw [List.length_eq_zero_iff.mp (Nat.le_zero.mp hlen), List.nil_append]
  | succ n ih =>
    have hnone : s = [] ++ s ∧ (∀ c ∈ ([] : List α), p c = true) ∧ ([] : List α).length ≤ n + 1 :=
      ⟨rfl, List.forall_mem_nil _, Nat.zero_le _⟩
    cases s with
    | nil =>
      rw [repRuns, List.mem_singleton]
      constructor
      · rintro rfl
        exact ⟨[], hnone⟩
      · rintro ⟨w, hw, _⟩
        exact (List.append_eq_nil_iff.mp hw.symm).2
    | cons c s =>
      rw [repRuns]
      constructor
      · intro h
        split_ifs at h with hc
        · rcases List.mem_append.mp h with h | h
          · obtain ⟨w, rfl, hw, hlen⟩ := ih.mp h
            exact ⟨c :: w, rfl, List.forall_mem_cons.mpr ⟨hc, hw⟩, Nat.succ_le_succ hlen⟩
          · exact ⟨[], (List.mem_singleton.mp h) ▸ hnone⟩
        · exact ⟨[], (List.mem_singleton.mp h) ▸ hnone⟩
      · rintro ⟨w, hw, hall, hlen⟩
        cases w with
        | nil =>
          rw [List.nil_append] at hw
          split_ifs
          · exact List.mem_append_right _ (List.mem_singleton.mpr hw.symm)
          · exact List.mem_singleton.mpr hw.symm
        | cons d w =>
          obtain ⟨rfl, rfl⟩ := List.cons_eq_cons.mp hw
          obtain ⟨hc, hall⟩ := List.forall_mem_cons.mp hall
          rw [if_pos hc]
          exact List.mem_append_left _ (ih.mpr ⟨w, rfl, hall, Nat.le_of_succ_le_succ hlen⟩)

/-- **The ways to match a beginning are the words it begins with.** -/
theorem mem_runs {rest : List α} : rest ∈ r.runs s ↔ ∃ w, s = w ++ rest ∧ r.Matches w := by
  induction r generalizing s rest with
  | empty =>
    constructor
    · intro h
      exact ⟨[], (List.mem_singleton.mp h).symm, rfl⟩
    · rintro ⟨w, rfl, rfl⟩
      exact List.mem_singleton_self rest
  | one p =>
    constructor
    · intro h
      cases s with
      | nil => exact absurd h List.not_mem_nil
      | cons c s =>
        rw [runs] at h
        split_ifs at h with hc
        · exact ⟨[c], by rw [List.mem_singleton.mp h]; rfl, c, hc, rfl⟩
        · exact absurd h List.not_mem_nil
    · rintro ⟨w, rfl, c, hc, rfl⟩
      rw [List.singleton_append, runs, if_pos hc]
      exact List.mem_singleton_self rest
  | rep bound p =>
    rw [runs, mem_repRuns]
    refine exists_congr fun w => and_congr_right fun hs => and_congr_right fun _ => ?_
    cases bound with
    | none =>
      have hlen := congrArg List.length hs
      rw [List.length_append] at hlen
      exact iff_of_true (by rw [Option.getD_none]; omega) fun n hn => (Option.not_mem_none n hn).elim
    | some n => exact ⟨fun h m hm => Option.some.inj hm ▸ h, fun h => h n rfl⟩
  | seq a b iha ihb =>
    rw [runs, List.mem_flatMap]
    constructor
    · rintro ⟨t, ht, hrest⟩
      obtain ⟨u, rfl, hu⟩ := iha.mp ht
      obtain ⟨v, rfl, hv⟩ := ihb.mp hrest
      exact ⟨u ++ v, (List.append_assoc u v rest).symm, u, v, rfl, hu, hv⟩
    · rintro ⟨w, rfl, u, v, rfl, hu, hv⟩
      exact ⟨v ++ rest, iha.mpr ⟨u, List.append_assoc u v rest, hu⟩, ihb.mpr ⟨v, rfl, hv⟩⟩
  | alt a b iha ihb =>
    rw [runs, List.mem_append, iha, ihb, ← exists_or]
    exact exists_congr fun w => and_or_left.symm

/-! ## Words of which none begins another -/

/-- No word is empty, and none begins another. -/
structure PrefixFree (r : Regex α) : Prop where
  ne_nil : ∀ {w}, r.Matches w → w ≠ []
  eq : ∀ {u v x y}, r.Matches u → r.Matches v → u ++ x = v ++ y → u = v

theorem eq_of_append_cons {d : α} {u v x y : List α} (hu : d ∉ u) (hv : d ∉ v)
    (h : u ++ d :: x = v ++ d :: y) : u = v := by
  induction u generalizing v with
  | nil =>
    cases v with
    | nil => rfl
    | cons c v => exact absurd (List.cons_eq_cons.mp h).1 (List.ne_of_not_mem_cons hv)
  | cons c u ih =>
    cases v with
    | nil => exact absurd (List.cons_eq_cons.mp h).1.symm (List.ne_of_not_mem_cons hu)
    | cons b v =>
      obtain ⟨rfl, htail⟩ := List.cons_eq_cons.mp h
      rw [ih (List.not_mem_of_not_mem_cons hu) (List.not_mem_of_not_mem_cons hv) htail]

/-- So it is where every word ends with a character it has nowhere else. -/
theorem PrefixFree.of_end {d : α} (h : ∀ w, r.Matches w → ∃ u, w = u ++ [d] ∧ d ∉ u) :
    PrefixFree r where
  ne_nil hw hnil := by
    obtain ⟨u, rfl, _⟩ := h _ hw
    exact List.append_ne_nil_of_right_ne_nil u (List.cons_ne_nil d []) hnil
  eq hu hv huv := by
    obtain ⟨u, rfl, hdu⟩ := h _ hu
    obtain ⟨v, rfl, hdv⟩ := h _ hv
    rw [List.append_assoc, List.append_assoc] at huv
    rw [eq_of_append_cons hdu hdv huv]

namespace PrefixFree

/-- The match at the beginning of a text is the word there… -/
theorem matchLength_eq_some (h : PrefixFree r) (hw : r.Matches w) (t : List α) :
    r.matchLength (w ++ t) = some w.length := by
  have hmem : t ∈ r.runs (w ++ t) := mem_runs.mpr ⟨w, rfl, hw⟩
  cases hruns : r.runs (w ++ t) with
  | nil => exact absurd hmem (hruns ▸ List.not_mem_nil)
  | cons rest others =>
    obtain ⟨v, hv, hmatch⟩ := mem_runs.mp (hruns ▸ List.mem_cons_self : rest ∈ r.runs (w ++ t))
    rw [matchLength, hruns, List.head?_cons, Option.map_some, hv, List.length_append,
      Nat.add_sub_cancel, h.eq hw hmatch hv]

end PrefixFree

/-- …and a match there is a word. -/
theorem exists_of_matchLength {n : ℕ} (h : r.matchLength s = some n) :
    ∃ w t, s = w ++ t ∧ w.length = n ∧ r.Matches w := by
  obtain ⟨rest, hrest, rfl⟩ := Option.map_eq_some_iff.mp h
  obtain ⟨w, rfl, hw⟩ := mem_runs.mp (List.mem_of_mem_head? hrest)
  exact ⟨w, rest, rfl, by rw [List.length_append, Nat.add_sub_cancel], hw⟩

theorem findFrom_skip (w t : List α) :
    r.findFrom w.length k (w ++ t) = r.findFrom 0 (k + w.length) t := by
  induction w generalizing k with
  | nil => rfl
  | cons c w ih =>
    show r.findFrom w.length (k + 1) (w ++ t) = _
    rw [ih, List.length_cons, Nat.add_right_comm, Nat.add_assoc]

/-- A match is followed by the matches behind it. -/
theorem findFrom_append (hne : w ≠ []) {t : List α}
    (h : r.matchLength (w ++ t) = some w.length) :
    r.findFrom 0 k (w ++ t) = (k, k + w.length) :: r.findFrom 0 (k + w.length) t := by
  obtain ⟨c, v, rfl⟩ := List.exists_cons_of_ne_nil hne
  rw [List.cons_append] at h ⊢
  rw [findFrom, h]
  show (k, k + (c :: v).length) :: r.findFrom v.length (k + 1) (v ++ t) = _
  rw [findFrom_skip, List.length_cons, Nat.add_right_comm k 1, Nat.add_assoc k]

/-- The places of some words, one after the other. -/
def places : ℕ → List (List α) → List (ℕ × ℕ)
  | _, [] => []
  | k, w :: ws => (k, k + w.length) :: places (k + w.length) ws

/-- **The matches of a concatenation of words are the words.** -/
theorem PrefixFree.findFrom_flatten (h : PrefixFree r) {ws : List (List α)}
    (hws : ∀ w ∈ ws, r.Matches w) : r.findFrom 0 k ws.flatten = places k ws := by
  induction ws generalizing k with
  | nil => rfl
  | cons w ws ih =>
    obtain ⟨hw, hws⟩ := List.forall_mem_cons.mp hws
    rw [List.flatten_cons, findFrom_append (h.ne_nil hw) (h.matchLength_eq_some hw _), ih hws, places]

/-- Each match begins where the one before ends, from `k` up to `e`. -/
def Chained : ℕ → List (ℕ × ℕ) → ℕ → Prop
  | k, [], e => e = k
  | k, m :: ms, e => m.1 = k ∧ Chained m.2 ms e

theorem lt_of_findFrom {m : ℕ × ℕ} : ∀ {s : List α} {skip k : ℕ}, m ∈ r.findFrom skip k s → k ≤ m.1
  | [], _, _, h => absurd h List.not_mem_nil
  | _ :: s, skip + 1, k, h => Nat.le_of_succ_le (lt_of_findFrom (s := s) h)
  | c :: s, 0, k, h => by
    rw [findFrom] at h
    split at h
    · exact Nat.le_of_succ_le (lt_of_findFrom h)
    · rcases List.mem_cons.mp h with rfl | h
      · exact Nat.le_refl k
      · exact Nat.le_of_succ_le (lt_of_findFrom h)

/-- **A text whose matches follow on each other up to its end is a concatenation of words**, and the
matches are these. -/
theorem Chained.flatten (hr : PrefixFree r) (h : Chained k (r.findFrom 0 k s) (k + s.length)) :
    ∃ ws, (∀ w ∈ ws, r.Matches w) ∧ s = ws.flatten ∧ r.findFrom 0 k s = places k ws := by
  -- by induction on the length: behind a match the text is shorter
  induction hn : s.length using Nat.strongRecOn generalizing s k with
  | _ n ih =>
    cases s with
    | nil => exact ⟨[], List.forall_mem_nil _, rfl, rfl⟩
    | cons c s =>
      cases hm : r.matchLength (c :: s) with
      | none =>
        rw [findFrom, hm] at h
        cases hrest : r.findFrom 0 (k + 1) s with
        | nil =>
          rw [hrest, List.length_cons] at h
          have hend : k + (s.length + 1) = k := h
          omega
        | cons m ms =>
          have hm : k + 1 ≤ m.1 := lt_of_findFrom (hrest ▸ List.mem_cons_self)
          rw [hrest] at h
          have := h.1
          omega
      | some n =>
        obtain ⟨w, t, hs, rfl, hw⟩ := exists_of_matchLength hm
        have hpos := List.length_pos_iff.mpr (hr.ne_nil hw)
        rw [hs] at h hm hn ⊢
        rw [findFrom_append (hr.ne_nil hw) hm] at h ⊢
        rw [List.length_append] at h hn
        obtain ⟨ws, hws, rfl, hfind⟩ := ih t.length (by omega) (k := k + w.length)
          (by rw [Nat.add_assoc]; exact h.2) rfl
        exact ⟨w :: ws, List.forall_mem_cons.mpr ⟨hw, hws⟩, rfl, by rw [hfind, places]⟩

end Regex

end PokrovCore
