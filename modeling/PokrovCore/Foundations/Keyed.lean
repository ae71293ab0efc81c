import Mathlib.Data.List.Nodup

/-!
# Foundations/Keyed — lists of items that no two share a key

A short table kept as a list: `lookup` finds the item of a key, `amend` changes the first item that
matches.  As long as the keys are distinct the list is a map, and `lookup_replace`, `lookup_concat`
and `lookup_filter` say what each change does to it.
-/

namespace PokrovCore.Keyed

variable {α κ : Type*} [DecidableEq κ]

/-- The item of a key. -/
def lookup (key : α → κ) (k : κ) (l : List α) : Option α := l.find? fun a => decide (key a = k)

/-- Change the first item that matches. -/
def amend (q : α → Bool) (f : α → α) (l : List α) : List α :=
  l.replaceF fun a => if q a then some (f a) else none

variable {key : α → κ} {k : κ} {a b : α} {l l₁ l₂ : List α} {q : α → Bool} {f : α → α}

theorem lookup_eq_none_iff : lookup key k l = none ↔ ∀ a ∈ l, key a ≠ k := by
  simp [lookup]

theorem mem_of_lookup (h : lookup key k l = some a) : a ∈ l ∧ key a = k :=
  ⟨List.mem_of_find?_eq_some h, by simpa using List.find?_some h⟩

theorem lookup_of_mem (hnd : (l.map key).Nodup) (ha : a ∈ l) : lookup key (key a) l = some a := by
  induction l with
  | nil => cases ha
  | cons b l ih =>
    rw [List.map_cons, List.nodup_cons] at hnd
    by_cases hb : key b = key a
    · rcases List.mem_cons.mp ha with rfl | hmem
      · simp [lookup]
      · exact absurd (List.mem_map.mpr ⟨a, hmem, hb.symm⟩) hnd.1
    · have hmem : a ∈ l := (List.mem_cons.mp ha).resolve_left fun h => hb (h ▸ rfl)
      rw [lookup, List.find?_cons_of_neg (by simpa using hb)]
      exact ih hnd.2 hmem

theorem lookup_eq_some_iff (hnd : (l.map key).Nodup) :
    lookup key k l = some a ↔ a ∈ l ∧ key a = k :=
  ⟨mem_of_lookup, fun ⟨hm, hk⟩ => hk ▸ lookup_of_mem hnd hm⟩

/-- **The first match is replaced and nothing else.** -/
theorem amend_split (h : l.find? q = some a) :
    ∃ l₁ l₂, l = l₁ ++ a :: l₂ ∧ amend q f l = l₁ ++ f a :: l₂ := by
  induction l with
  | nil => cases h
  | cons b l ih =>
    by_cases hb : q b = true
    · rw [List.find?_cons_of_pos hb] at h
      obtain rfl := Option.some.inj h
      exact ⟨[], l, rfl, List.replaceF_cons_of_some _ (if_pos hb)⟩
    · rw [List.find?_cons_of_neg hb] at h
      obtain ⟨l₁, l₂, hl, hm⟩ := ih h
      refine ⟨b :: l₁, l₂, by rw [hl]; rfl, ?_⟩
      have hnone : (if q b then some (f b) else none) = none := if_neg hb
      exact (List.replaceF_cons_of_none _ hnone).trans (congrArg (b :: ·) hm)

omit [DecidableEq κ] in
theorem map_replace (hk : key b = key a) :
    (l₁ ++ b :: l₂).map key = (l₁ ++ a :: l₂).map key := by
  simp [hk]

theorem lookup_replace (hnd : ((l₁ ++ a :: l₂).map key).Nodup) (hk : key b = key a) (k : κ) :
    lookup key k (l₁ ++ b :: l₂) = if k = key a then some b else lookup key k (l₁ ++ a :: l₂) := by
  split_ifs with h
  · subst h
    rw [← hk]
    exact lookup_of_mem (by rw [map_replace hk]; exact hnd) (by simp)
  · have ha : ¬key a = k := fun e => h e.symm
    have hb : ¬key b = k := fun e => h (e.symm.trans hk)
    simp [lookup, List.find?_append, ha, hb]

theorem lookup_concat (h : lookup key (key a) l = none) (k : κ) :
    lookup key k (l ++ [a]) = if k = key a then some a else lookup key k l := by
  rw [lookup, List.find?_append]
  split_ifs with hk
  · subst hk
    rw [show l.find? _ = none from h]
    simp
  · have ha : ¬key a = k := fun e => hk e.symm
    simp [lookup, ha]

theorem lookup_filter (hnd : (l.map key).Nodup) (q : α → Bool) (k : κ) :
    lookup key k (l.filter q) = (lookup key k l).filter q := by
  ext a
  have hnd' : ((l.filter q).map key).Nodup := hnd.sublist (List.filter_sublist.map key)
  rw [lookup_eq_some_iff hnd', List.mem_filter, Option.filter_eq_some_iff, lookup_eq_some_iff hnd]
  tauto

/-- An item found by its key is the only one of that key. -/
theorem filter_eq_singleton (hnd : (l.map key).Nodup) (h : lookup key k l = some a) :
    (l.filter fun b => decide (key b = k)) = [a] := by
  obtain ⟨hm, rfl⟩ := mem_of_lookup h
  obtain ⟨l₁, l₂, rfl⟩ := List.append_of_mem hm
  have hnot : ∀ b ∈ l₁ ++ l₂, key b ≠ key a := by
    have hperm : ((l₁ ++ a :: l₂).map key).Perm (key a :: (l₁ ++ l₂).map key) :=
      List.perm_middle.map key
    have ha := (List.nodup_cons.mp (hperm.nodup_iff.mp hnd)).1
    exact fun b hb heq => ha (List.mem_map.mpr ⟨b, hb, heq⟩)
  have h₁ : (l₁.filter fun b => decide (key b = key a)) = [] :=
    List.filter_eq_nil_iff.mpr fun b hb => by simp [hnot b (by simp [hb])]
  have h₂ : (l₂.filter fun b => decide (key b = key a)) = [] :=
    List.filter_eq_nil_iff.mpr fun b hb => by simp [hnot b (by simp [hb])]
  simp [h₁, h₂]

end PokrovCore.Keyed
