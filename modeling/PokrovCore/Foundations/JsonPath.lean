import PokrovCore.Foundations.JsonMap

/-!
# Foundations/JsonPath — where a value stands in another

A path is a list of keys and positions.  `At` follows it through every member of an object, those
behind another of the same key too, so that what holds of all places of a value holds of all that a
reader can come to.
-/

namespace PokrovCore.Json

/-- A step into an object or an array. -/
inductive Step
  | key (k : String)
  | index (i : ℕ)
  deriving DecidableEq, Repr

/-- **A value stands in another, at the end of a path.** -/
inductive At : List Step → Json → Json → Prop
  | here (j : Json) : At [] j j
  | member {p : List Step} {k : String} {j v : Json} {members : List (String × Json)} :
    (k, j) ∈ members → At p j v → At (.key k :: p) (.obj members) v
  | item {p : List Step} {i : ℕ} {j v : Json} {items : List Json} :
    items[i]? = some j → At p j v → At (.index i :: p) (.arr items) v

variable {members : List (String × Json)}

theorem At.of_obj {p : List Step} {v : Json} (h : At p (.obj members) v) :
    (p = [] ∧ v = .obj members) ∨ ∃ k j q, p = .key k :: q ∧ (k, j) ∈ members ∧ At q j v := by
  cases h with
  | here => exact .inl ⟨rfl, rfl⟩
  | member hm h => exact .inr ⟨_, _, _, rfl, hm, h⟩

theorem At.of_arr {p : List Step} {items : List Json} {v : Json} (h : At p (.arr items) v) :
    (p = [] ∧ v = .arr items) ∨ ∃ i j q, p = .index i :: q ∧ items[i]? = some j ∧ At q j v := by
  cases h with
  | here => exact .inl ⟨rfl, rfl⟩
  | item hi h => exact .inr ⟨_, _, _, rfl, hi, h⟩

/-! ## Maps -/

variable {key : String} {value : Json}

theorem mem_of_lookup_eq_some (h : members.lookup key = some value) :
    (key, value) ∈ members := by
  obtain ⟨l, l', rfl, -⟩ := List.lookup_eq_some_iff.mp h
  simp

theorem mem_of_mem_set {e : String × Json} (h : e ∈ set members key value) :
    e = (key, value) ∨ (e ∈ members ∧ e.1 ≠ key) := by
  rcases List.mem_append.mp h with h | h
  · obtain ⟨hm, hk⟩ := List.mem_filter.mp h
    exact .inr ⟨hm, by simpa using hk⟩
  · exact .inl (List.mem_singleton.mp h)

theorem forall_mem_set {P : String × Json → Prop} (hnew : P (key, value))
    (hold : ∀ e ∈ members, P e) :
    ∀ e ∈ set members key value, P e := by
  intro e he
  rcases mem_of_mem_set he with rfl | ⟨he, -⟩
  · exact hnew
  · exact hold e he

theorem lookup_set (members : List (String × Json)) (key key' : String) (value : Json) :
    (set members key value).lookup key' = if key' = key then some value else members.lookup key' := by
  split
  next h =>
    subst h
    have hnone : (members.filter (·.1 != key')).lookup key' = none := by
      rw [List.lookup_eq_none_iff]
      intro e he
      have hne := (List.mem_filter.mp he).2
      simp only [bne_iff_ne, ne_eq] at hne
      simpa using Ne.symm hne
    rw [set, List.lookup_append, hnone]
    simp
  next h => exact lookup_set_ne h members value

end PokrovCore.Json
