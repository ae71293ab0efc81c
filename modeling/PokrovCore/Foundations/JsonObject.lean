import Mathlib.Data.List.Sort
import Mathlib.Data.String.Basic
import PokrovCore.Foundations.JsonRoundTrip

/-!
# Foundations/JsonObject — objects with an exact set of keys

`object?` accepts an object that has each expected key once and no other, in any order, and hands out
the values in the expected order; duplicates are refused, not resolved.  `record` writes an object in
the order of its keys' declaration and `sorted` in the order of the keys themselves, as a canonical
encoding of a map does.  Both read back (`object?_record`, `object?_sorted`).
-/

namespace PokrovCore.Json

/-! ## Reading single values -/

/-- The string a value is. -/
def str? : Json → Option String
  | .str s => some s
  | _ => none

/-- The truth value a value is. -/
def bool? : Json → Option Bool
  | .bool b => some b
  | _ => none

/-- The items of an array. -/
def arr? : Json → Option (List Json)
  | .arr items => some items
  | _ => none

@[simp] theorem str?_str (s : String) : str? (.str s) = some s := rfl
@[simp] theorem bool?_bool (b : Bool) : bool? (.bool b) = some b := rfl
@[simp] theorem arr?_arr (l : List Json) : arr? (.arr l) = some l := rfl

/-! ## Exact objects -/

/-- The values of the expected keys, if these are the keys of the object and none occurs twice. -/
def object? (keys : List String) : Json → Option (List Json)
  | .obj members =>
    if (members.map Prod.fst).Nodup ∧ members.length = keys.length then
      keys.mapM fun k => members.lookup k
    else none
  | _ => none

/-- An object, its members in the order given. -/
def record (keys : List String) (values : List Json) : Json := .obj (keys.zip values)

/-- An object, its members in the order of the keys. -/
def sorted (keys : List String) (values : List Json) : Json :=
  .obj ((keys.zip values).insertionSort fun a b => a.1 ≤ b.1)

theorem lookup_of_mem {k : String} {v : Json} : ∀ {l : List (String × Json)},
    (l.map Prod.fst).Nodup → (k, v) ∈ l → l.lookup k = some v
  | (k', v') :: l, hnd, hm => by
    rw [List.map_cons, List.nodup_cons] at hnd
    rcases List.mem_cons.mp hm with heq | hm
    · obtain ⟨rfl, rfl⟩ := Prod.mk.inj heq
      simp
    · have hne : k ≠ k' := fun h => hnd.1 (List.mem_map.mpr ⟨(k, v), hm, h⟩)
      have hb : (k == k') = false := by simpa using hne
      rw [List.lookup_cons, hb]
      exact lookup_of_mem hnd.2 hm

variable {l : List (String × Json)}

theorem mapM_lookup (hnd : (l.map Prod.fst).Nodup) :
    ∀ {keys : List String} {values : List Json}, values.length = keys.length →
      (∀ e ∈ keys.zip values, e ∈ l) → keys.mapM (fun k => l.lookup k) = some values
  | [], [], _, _ => rfl
  | k :: keys, v :: values, hlen, hsub => by
    have hk : l.lookup k = some v := lookup_of_mem hnd (hsub (k, v) (by simp))
    have hrest := mapM_lookup hnd (Nat.succ.inj hlen) fun e he => hsub e (by simp [he])
    simp [List.mapM_cons, hk, hrest]

variable {keys : List String} {values : List Json}

/-- **An object with the expected keys reads back**, whatever the order of its members. -/
theorem object?_of_perm {members : List (String × Json)} (hkeys : keys.Nodup)
    (hlen : values.length = keys.length) (hperm : members.Perm (keys.zip values)) :
    object? keys (.obj members) = some values := by
  have hfst : (keys.zip values).map Prod.fst = keys := List.map_fst_zip hlen.ge
  have hnd : (members.map Prod.fst).Nodup := by
    rw [(hperm.map Prod.fst).nodup_iff, hfst]
    exact hkeys
  have hcount : members.length = keys.length := by
    rw [hperm.length_eq, List.length_zip, hlen, min_self]
  rw [object?, if_pos ⟨hnd, hcount⟩]
  exact mapM_lookup hnd hlen fun e he => hperm.mem_iff.mpr he

theorem object?_record (hkeys : keys.Nodup) (hlen : values.length = keys.length) :
    object? keys (record keys values) = some values :=
  object?_of_perm hkeys hlen (List.Perm.refl _)

theorem object?_sorted (hkeys : keys.Nodup) (hlen : values.length = keys.length) :
    object? keys (sorted keys values) = some values :=
  object?_of_perm hkeys hlen (List.perm_insertionSort _ _)

/-! ## Well-formedness of built values -/

theorem wellFormed_arr {l : List Json} (h : ∀ j ∈ l, wellFormed j = true) :
    wellFormed (.arr l) = true := by
  have aux : ∀ l : List Json, (∀ j ∈ l, wellFormed j = true) → wellFormedItems l = true := by
    intro l
    induction l with
    | nil => intro _; rfl
    | cons j l ih =>
      intro h
      rw [wellFormedItems, h j (by simp), ih fun k hk => h k (by simp [hk])]
      rfl
  exact aux l h

theorem wellFormed_obj (h : ∀ e ∈ l, wellFormed e.2 = true) :
    wellFormed (.obj l) = true := by
  have aux : ∀ l : List (String × Json), (∀ e ∈ l, wellFormed e.2 = true) →
      wellFormedMembers l = true := by
    intro l
    induction l with
    | nil => intro _; rfl
    | cons e l ih =>
      intro h
      obtain ⟨k, j⟩ := e
      rw [wellFormedMembers, h (k, j) (by simp), ih fun d hd => h d (by simp [hd])]
      rfl
  exact aux l h

theorem wellFormed_record (h : ∀ j ∈ values, wellFormed j = true) :
    wellFormed (record keys values) = true :=
  wellFormed_obj fun e he => h e.2 (List.of_mem_zip he).2

theorem wellFormed_sorted (h : ∀ j ∈ values, wellFormed j = true) :
    wellFormed (sorted keys values) = true :=
  wellFormed_obj fun e he =>
    h e.2 (List.of_mem_zip ((List.perm_insertionSort _ _).mem_iff.mp he)).2

end PokrovCore.Json
