import Mathlib.Data.List.Forall2

/-!
# Foundations/Heap — objects in a list, addressed by their place

Objects with identity live in a list and keep their place in it; a new one goes to the end.  A step
changes some of them, and `List.Forall₂ R` says how, place by place: these lemmas read the relation
at one address and establish it for the ways a step changes a list.
-/

namespace PokrovCore.Heap

variable {α : Type*} {R : α → α → Prop} {l l' : List α} {k : ℕ} {x x' a : α}

/-- What stood at an address stands there still, up to `R`. -/
theorem forward (h : List.Forall₂ R l l') (hx : l[k]? = some x) : ∃ x', l'[k]? = some x' ∧ R x x' := by
  obtain ⟨hlen, hget⟩ := List.forall₂_iff_get.mp h
  obtain ⟨hk, rfl⟩ := List.getElem?_eq_some_iff.mp hx
  have hk' : k < l'.length := hlen ▸ hk
  exact ⟨l'[k], List.getElem?_eq_getElem hk', hget k hk hk'⟩

/-- What stands at an address stood there before, up to `R`. -/
theorem backward (h : List.Forall₂ R l l') (hx : l'[k]? = some x') :
    ∃ x, l[k]? = some x ∧ R x x' := by
  obtain ⟨hlen, hget⟩ := List.forall₂_iff_get.mp h
  obtain ⟨hk', rfl⟩ := List.getElem?_eq_some_iff.mp hx
  have hk : k < l.length := hlen ▸ hk'
  exact ⟨l[k], List.getElem?_eq_getElem hk, hget k hk hk'⟩

theorem forall₂_refl (hR : ∀ x, R x x) (l : List α) : List.Forall₂ R l l :=
  List.forall₂_same.mpr fun x _ => hR x

variable {f : α → α}

theorem forall₂_map (hf : ∀ x ∈ l, R x (f x)) : List.Forall₂ R l (l.map f) :=
  List.forall₂_map_right_iff.mpr (List.forall₂_same.mpr hf)

theorem forall₂_modify (hR : ∀ x, R x x) (hf : ∀ x, l[k]? = some x → R x (f x)) :
    List.Forall₂ R l (l.modify k f) := by
  induction l generalizing k with
  | nil => simp
  | cons y l ih =>
    cases k with
    | zero => exact .cons (hf y rfl) (forall₂_refl hR l)
    | succ k => exact .cons (hR y) (ih fun x hx => hf x hx)

theorem forall₂_set (hR : ∀ x, R x x) (ha : ∀ x, l[k]? = some x → R x a) :
    List.Forall₂ R l (l.set k a) := by
  rw [List.set_eq_modify]
  exact forall₂_modify hR ha

/-- Two changes in a row, read place by place. -/
theorem forall₂_trans (hRR : ∀ a b c, R a b → R b c → R a c) {l₁ l₂ l₃ : List α}
    (h : List.Forall₂ R l₁ l₂) (h' : List.Forall₂ R l₂ l₃) : List.Forall₂ R l₁ l₃ := by
  obtain ⟨hlen, hget⟩ := List.forall₂_iff_get.mp h
  obtain ⟨hlen', hget'⟩ := List.forall₂_iff_get.mp h'
  refine List.forall₂_iff_get.mpr ⟨hlen.trans hlen', fun k hk hk' => ?_⟩
  have hmid : k < l₂.length := hlen ▸ hk
  exact hRR _ _ _ (hget k hk hmid) (hget' k hmid hk')

/-- Every address of a longer list is an old one or the new one. -/
theorem getElem?_concat : (l ++ [a])[k]? = some x ↔ l[k]? = some x ∨ k = l.length ∧ x = a := by
  rw [List.getElem?_append]
  split_ifs with hk
  · refine (or_iff_left ?_).symm
    rintro ⟨rfl, _⟩
    exact Nat.lt_irrefl _ hk
  · rw [List.getElem?_eq_none (Nat.not_lt.mp hk), List.getElem?_singleton]
    constructor
    · intro h
      split_ifs at h with h0
      exact .inr ⟨by omega, (Option.some.inj h).symm⟩
    · rintro (h | ⟨rfl, rfl⟩)
      · cases h
      · simp

/-- What stands at an address of a list with one object changed. -/
theorem getElem?_modify_eq_some {i : ℕ} :
    (l.modify i f)[k]? = some x ↔ ∃ y, l[k]? = some y ∧ x = if i = k then f y else y := by
  rw [List.getElem?_modify]
  cases h : l[k]? with
  | none => simp
  | some y =>
    by_cases hik : i = k <;> simp [hik, eq_comm]

end PokrovCore.Heap
