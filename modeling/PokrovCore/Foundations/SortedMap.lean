import Mathlib.Data.List.Induction
import Mathlib.Data.List.Sort

/-!
# Foundations/SortedMap — finite maps as key-sorted entry lists

A finite map with one representation: its entries, strictly increasing in the key.  The order is a
field of the structure, so two maps with the same lookups are *equal* (`SortedMap.ext_get?`) and
listing the entries needs no sort — what a canonical encoder of a map writes is `entries` itself.
-/

namespace PokrovCore

/-- A finite map from `κ` to `β`: its entries, strictly increasing in the key. -/
structure SortedMap (κ : Type*) [LinearOrder κ] (β : Type*) where
  entries : List (κ × β)
  sorted : entries.Pairwise fun a b => a.1 < b.1

namespace SortedMap

variable {κ β : Type*} [LinearOrder κ] {m : SortedMap κ β}

theorem ext_entries {n : SortedMap κ β} (h : m.entries = n.entries) : m = n := by
  obtain ⟨e, _⟩ := m
  obtain ⟨e', _⟩ := n
  subst h
  rfl

instance [DecidableEq β] : DecidableEq (SortedMap κ β) := fun m n =>
  decidable_of_iff (m.entries = n.entries) ⟨ext_entries, congrArg entries⟩

/-! ## Lookup

`get?` walks the entries; on a sorted list it finds an entry exactly when the entry is there. -/

/-- The value at a key. -/
def get? (m : SortedMap κ β) (k : κ) : Option β := m.entries.lookup k

/-- The number of keys. -/
def size (m : SortedMap κ β) : ℕ := m.entries.length

/-- The map with no entry. -/
def empty : SortedMap κ β := ⟨[], List.Pairwise.nil⟩

instance : Inhabited (SortedMap κ β) := ⟨empty⟩

@[simp] theorem get?_empty (k : κ) : (empty : SortedMap κ β).get? k = none := rfl

@[simp] theorem size_empty : (empty : SortedMap κ β).size = 0 := rfl

/-- On entries sorted by key, lookup is membership. -/
theorem lookup_eq_some_iff {k : κ} {v : β} : ∀ {l : List (κ × β)},
    l.Pairwise (fun a b => a.1 < b.1) → (l.lookup k = some v ↔ (k, v) ∈ l)
  | [], _ => by simp
  | (k', v') :: l, h => by
    obtain ⟨hhead, htail⟩ := List.pairwise_cons.mp h
    have ih := lookup_eq_some_iff (k := k) (v := v) htail
    by_cases hk : k = k'
    · subst hk
      have hnot : (k, v) ∉ l := fun hm => lt_irrefl k (hhead (k, v) hm)
      simp [hnot, eq_comm]
    · have hb : (k == k') = false := by simpa using hk
      simp [List.lookup_cons, hb, ih, hk]

theorem get?_eq_some_iff {k : κ} {v : β} :
    m.get? k = some v ↔ (k, v) ∈ m.entries :=
  lookup_eq_some_iff m.sorted

theorem get?_eq_none_iff {k : κ} :
    m.get? k = none ↔ ∀ v, (k, v) ∉ m.entries := by
  rw [Option.eq_none_iff_forall_ne_some]
  simp only [ne_eq, get?_eq_some_iff]

/-- **Equal lookups, equal maps** — both entry lists are sorted by the same strict order. -/
theorem ext_get? {n : SortedMap κ β} (h : ∀ k, m.get? k = n.get? k) : m = n := by
  refine ext_entries (List.Perm.eq_of_pairwise
    (fun a b _ _ hab hba => absurd hab (not_lt.mpr hba.le)) m.sorted n.sorted ?_)
  have hnd : ∀ p : SortedMap κ β, p.entries.Nodup := fun p =>
    p.sorted.imp fun hlt heq => absurd (heq ▸ hlt) (lt_irrefl _)
  refine (List.perm_ext_iff_of_nodup (hnd m) (hnd n)).mpr fun e => ?_
  rw [← Prod.mk.eta (p := e), ← get?_eq_some_iff, ← get?_eq_some_iff, h]

/-! ## Insertion -/

/-- Insert into sorted entries, replacing an entry with the same key. -/
def insertEntry (k : κ) (v : β) : List (κ × β) → List (κ × β)
  | [] => [(k, v)]
  | e :: l =>
    if k < e.1 then (k, v) :: e :: l
    else if k = e.1 then (k, v) :: l
    else e :: insertEntry k v l

theorem mem_insertEntry {k : κ} {v : β} {e : κ × β} : ∀ {l : List (κ × β)},
    l.Pairwise (fun a b => a.1 < b.1) →
      (e ∈ insertEntry k v l ↔ e = (k, v) ∨ (e ∈ l ∧ e.1 ≠ k))
  | [], _ => by simp [insertEntry]
  | d :: l, h => by
    obtain ⟨hhead, htail⟩ := List.pairwise_cons.mp h
    have ih := mem_insertEntry (k := k) (v := v) (e := e) htail
    rw [insertEntry]
    split_ifs with hlt heq
    · have hne : ∀ c ∈ d :: l, c.1 ≠ k := fun c hc => by
        rcases List.mem_cons.mp hc with rfl | hc
        · exact ne_of_gt hlt
        · exact ne_of_gt (hlt.trans (hhead c hc))
      rw [List.mem_cons]
      exact or_congr_right ⟨fun hm => ⟨hm, hne e hm⟩, And.left⟩
    · have hne : ∀ c ∈ l, c.1 ≠ k := fun c hc => heq ▸ ne_of_gt (hhead c hc)
      rw [List.mem_cons, List.mem_cons]
      refine or_congr_right ⟨fun hm => ⟨.inr hm, hne e hm⟩, fun ⟨hm, hk⟩ => ?_⟩
      exact hm.resolve_left fun hd => hk (hd ▸ heq.symm)
    · rw [List.mem_cons, ih, List.mem_cons]
      constructor
      · rintro (rfl | rfl | ⟨hm, hk⟩)
        · exact .inr ⟨.inl rfl, Ne.symm heq⟩
        · exact .inl rfl
        · exact .inr ⟨.inr hm, hk⟩
      · rintro (rfl | ⟨rfl | hm, hk⟩)
        · exact .inr (.inl rfl)
        · exact .inl rfl
        · exact .inr (.inr ⟨hm, hk⟩)

theorem pairwise_insertEntry (k : κ) (v : β) : ∀ {l : List (κ × β)},
    l.Pairwise (fun a b => a.1 < b.1) →
      (insertEntry k v l).Pairwise fun a b => a.1 < b.1
  | [], _ => by simp [insertEntry]
  | d :: l, h => by
    obtain ⟨hhead, htail⟩ := List.pairwise_cons.mp h
    rw [insertEntry]
    split_ifs with hlt heq
    · refine List.pairwise_cons.mpr ⟨fun c hc => ?_, h⟩
      rcases List.mem_cons.mp hc with rfl | hc
      · exact hlt
      · exact hlt.trans (hhead c hc)
    · exact List.pairwise_cons.mpr ⟨fun c hc => heq ▸ hhead c hc, htail⟩
    · refine List.pairwise_cons.mpr ⟨fun c hc => ?_, pairwise_insertEntry k v htail⟩
      rcases (mem_insertEntry htail).mp hc with rfl | ⟨hc, _⟩
      · exact lt_of_le_of_ne (not_lt.mp hlt) (Ne.symm heq)
      · exact hhead c hc

/-- The map with `k` sent to `v`. -/
def insert (m : SortedMap κ β) (k : κ) (v : β) : SortedMap κ β :=
  ⟨insertEntry k v m.entries, pairwise_insertEntry k v m.sorted⟩

theorem mem_entries_insert {k : κ} {v : β} {e : κ × β} :
    e ∈ (m.insert k v).entries ↔ e = (k, v) ∨ (e ∈ m.entries ∧ e.1 ≠ k) :=
  mem_insertEntry m.sorted

@[simp] theorem get?_insert_self (m : SortedMap κ β) (k : κ) (v : β) :
    (m.insert k v).get? k = some v :=
  get?_eq_some_iff.mpr (mem_entries_insert.mpr (.inl rfl))

theorem get?_insert_of_ne (m : SortedMap κ β) {k k' : κ} (v : β) (h : k' ≠ k) :
    (m.insert k v).get? k' = m.get? k' := by
  refine Option.ext fun w => ?_
  rw [get?_eq_some_iff, get?_eq_some_iff, mem_entries_insert]
  simp [h]

theorem get?_insert (m : SortedMap κ β) (k k' : κ) (v : β) :
    (m.insert k v).get? k' = if k' = k then some v else m.get? k' := by
  split_ifs with h
  · rw [h, get?_insert_self]
  · exact get?_insert_of_ne m v h

theorem size_insert_of_absent {k : κ} (v : β) (h : m.get? k = none) :
    (m.insert k v).size = m.size + 1 := by
  have hkeys : ∀ e ∈ m.entries, e.1 ≠ k := fun e he hk =>
    get?_eq_none_iff.mp h e.2 (hk ▸ he)
  have aux : ∀ l : List (κ × β), (∀ e ∈ l, e.1 ≠ k) →
      (insertEntry k v l).length = l.length + 1 := by
    intro l
    induction l with
    | nil => intro _; rfl
    | cons e l ih =>
      intro hl
      rw [insertEntry]
      split_ifs with hlt heq
      · rfl
      · exact absurd heq.symm (hl e (by simp))
      · simp [ih fun c hc => hl c (List.mem_cons_of_mem _ hc)]
  exact aux m.entries hkeys

theorem size_insert_of_present {k : κ} {w : β} (v : β) (h : m.get? k = some w) :
    (m.insert k v).size = m.size := by
  have aux : ∀ l : List (κ × β), l.Pairwise (fun a b => a.1 < b.1) → (k, w) ∈ l →
      (insertEntry k v l).length = l.length := by
    intro l
    induction l with
    | nil => intro _ hm; simp at hm
    | cons e l ih =>
      intro hs hm
      obtain ⟨hhead, htail⟩ := List.pairwise_cons.mp hs
      rw [insertEntry]
      split_ifs with hlt heq
      · rcases List.mem_cons.mp hm with rfl | hm
        · exact absurd hlt (lt_irrefl _)
        · exact absurd (hlt.trans (hhead _ hm)) (lt_irrefl _)
      · rfl
      · have hm' : (k, w) ∈ l := (List.mem_cons.mp hm).resolve_left fun hd => heq (hd ▸ rfl)
        simp [ih htail hm']
  exact aux m.entries m.sorted (get?_eq_some_iff.mp h)

/-! ## Filtering and building -/

/-- The entries a predicate keeps. -/
def filter (m : SortedMap κ β) (p : κ → β → Bool) : SortedMap κ β :=
  ⟨m.entries.filter fun e => p e.1 e.2, m.sorted.filter _⟩

theorem get?_filter (m : SortedMap κ β) (p : κ → β → Bool) (k : κ) :
    (m.filter p).get? k = (m.get? k).filter (p k) := by
  refine Option.ext fun v => ?_
  rw [get?_eq_some_iff, Option.filter_eq_some_iff, get?_eq_some_iff]
  simp [filter]

theorem size_filter_le (m : SortedMap κ β) (p : κ → β → Bool) :
    (m.filter p).size ≤ m.size :=
  List.length_filter_le _ _

/-- The map a list of entries builds, later entries overwriting earlier ones. -/
def ofList (l : List (κ × β)) : SortedMap κ β :=
  l.foldl (fun m e => m.insert e.1 e.2) empty

theorem get?_foldl_insert (k : κ) : ∀ (l : List (κ × β)) (m : SortedMap κ β),
    (∀ e ∈ l, e.1 ≠ k) → (l.foldl (fun m e => m.insert e.1 e.2) m).get? k = m.get? k
  | [], _, _ => rfl
  | e :: l, m, h => by
    rw [List.foldl_cons, get?_foldl_insert k l _ fun c hc => h c (List.mem_cons_of_mem _ hc),
      get?_insert_of_ne _ _ (h e (by simp)).symm]

/-- What a list of entries adds to a map. -/
theorem get?_foldl_insert_or (k : κ) (l : List (κ × β)) (m : SortedMap κ β) :
    (l.foldl (fun m e => m.insert e.1 e.2) m).get? k = ((ofList l).get? k).or (m.get? k) := by
  induction l using List.reverseRecOn with
  | nil => rfl
  | append_singleton l e ih =>
    rw [ofList, List.foldl_append, List.foldl_append, List.foldl_cons, List.foldl_cons, List.foldl_nil,
      List.foldl_nil, get?_insert, get?_insert]
    split_ifs
    · rfl
    · exact ih

/-- The first of a list of entries counts where no other has its key. -/
theorem get?_ofList_cons (k k' : κ) (v : β) (l : List (κ × β)) :
    (ofList ((k, v) :: l)).get? k' = ((ofList l).get? k').or (if k' = k then some v else none) := by
  rw [ofList, List.foldl_cons, get?_foldl_insert_or, get?_insert, get?_empty]

theorem get?_ofList_eq_none {k : κ} {l : List (κ × β)} :
    (ofList l).get? k = none ↔ ∀ e ∈ l, e.1 ≠ k := by
  induction l with
  | nil => simp [ofList]
  | cons e l ih =>
    rw [get?_ofList_cons, Option.or_eq_none_iff, ih, List.forall_mem_cons, and_comm]
    refine and_congr_left' ?_
    by_cases h : k = e.1
    · simp [h]
    · simp [h, Ne.symm h]

theorem mem_of_mem_ofList {e : κ × β} {l : List (κ × β)} (h : e ∈ (ofList l).entries) : e ∈ l := by
  have aux : ∀ (l : List (κ × β)) (m : SortedMap κ β),
      e ∈ (l.foldl (fun m e => m.insert e.1 e.2) m).entries → e ∈ m.entries ∨ e ∈ l := by
    intro l
    induction l with
    | nil => exact fun m hm => .inl hm
    | cons a l ih =>
      intro m hm
      rcases ih _ hm with hm | hm
      · rcases mem_entries_insert.mp hm with hm | hm
        · exact .inr (List.mem_cons.mpr (.inl hm))
        · exact .inl hm.1
      · exact .inr (List.mem_cons_of_mem _ hm)
  exact (aux l empty h).resolve_left (by simp [empty])

/-- **Rebuilding a map from its entries** — each key is inserted once. -/
theorem ofList_entries (m : SortedMap κ β) : ofList m.entries = m := by
  have aux : ∀ (l : List (κ × β)) (n : SortedMap κ β), l.Pairwise (fun a b => a.1 < b.1) →
      ∀ k v, (k, v) ∈ l → (l.foldl (fun m e => m.insert e.1 e.2) n).get? k = some v := by
    intro l
    induction l with
    | nil => intro _ _ k v hm; simp at hm
    | cons e l ih =>
      intro n hs k v hm
      obtain ⟨hhead, htail⟩ := List.pairwise_cons.mp hs
      rw [List.foldl_cons]
      rcases List.mem_cons.mp hm with rfl | hm
      · rw [get?_foldl_insert k l _ fun c hc => ne_of_gt (hhead c hc), get?_insert_self]
      · exact ih _ htail k v hm
  refine ext_get? fun k => ?_
  cases hk : m.get? k with
  | some v => exact aux m.entries empty m.sorted k v (get?_eq_some_iff.mp hk)
  | none =>
    exact get?_foldl_insert k m.entries empty fun e he hek =>
      get?_eq_none_iff.mp hk e.2 (hek ▸ he)

end SortedMap

end PokrovCore
