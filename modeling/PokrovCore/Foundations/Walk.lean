import Mathlib.Data.Finset.Card

/-!
# Foundations/Walk — depth-first walks that refuse a repetition on their path

A node is refused at once, or it names the nodes to be looked at, in order, and a verdict of its own
that is asked for when they have all passed.  `walk` goes through them with the path it came by, and
refuses a node that is on it; it runs on fuel, and `none` says that the fuel is gone.

* `Clear node a` — everything below `a` is there, has a good verdict, and ends.
* `walk_isSome` — a walk over finitely many nodes ends.
* `walk_eq_true_iff` — and it accepts exactly the clear ones; so the order in which a node names the
  others does not matter, and a walk that asks for less accepts more (`Clear.mono`).
-/

namespace PokrovCore.Walk

variable {α : Type*} {node node' : α → Option (List α × Bool)} {a b : α} {l : List α}

/-! ## What a walk looks for -/

/-- **Everything below a node is there, is good, and ends.** -/
inductive Clear (node : α → Option (List α × Bool)) : α → Prop
  | intro {a : α} {l : List α} (h : node a = some (l, true)) (hl : ∀ b ∈ l, Clear node b) :
      Clear node a

/-- One node names another. -/
def Edge (node : α → Option (List α × Bool)) (a b : α) : Prop :=
  ∃ l ok, node a = some (l, ok) ∧ b ∈ l

theorem Clear.inv (h : Clear node a) :
    ∃ l, node a = some (l, true) ∧ ∀ b ∈ l, Clear node b := by
  obtain ⟨h, hl⟩ := h
  exact ⟨_, h, hl⟩

theorem Clear.edge (h : Clear node a) (he : Edge node a b) : Clear node b := by
  obtain ⟨l, hnode, hl⟩ := h.inv
  obtain ⟨l', ok, hnode', hb⟩ := he
  obtain ⟨rfl, -⟩ := Prod.mk.inj (Option.some.inj (hnode.symm.trans hnode'))
  exact hl b hb

/-- **No cycle passes through a clear node.** -/
theorem Clear.acyclic (h : Clear node a) : ¬Relation.TransGen (Edge node) a a := by
  induction h with
  | @intro a l hnode _ ih =>
    intro hcycle
    obtain ⟨b, hab, hba⟩ := Relation.TransGen.head'_iff.mp hcycle
    obtain ⟨l', ok, hnode', hb⟩ := id hab
    obtain ⟨rfl, -⟩ := Prod.mk.inj (Option.some.inj (hnode.symm.trans hnode'))
    exact ih b hb (Relation.TransGen.tail' hba hab)

/-- **A walk that asks for less finds more clear.** -/
theorem Clear.mono (hmono : ∀ a l, node a = some (l, true) →
    ∃ l', node' a = some (l', true) ∧ ∀ b ∈ l', b ∈ l) (h : Clear node a) : Clear node' a := by
  induction h with
  | @intro a l hnode _ ih =>
    obtain ⟨l', hnode', hsub⟩ := hmono a l hnode
    exact .intro hnode' fun b hb => ih b (hsub b hb)

/-! ## The walk -/

/-- Ask of one after the other, up to the first that does not pass. -/
def every (f : α → Option Bool) : List α → Option Bool
  | [] => some true
  | a :: l =>
    match f a with
    | some true => every f l
    | r => r

/-- **The walk**, on fuel. -/
def walk [DecidableEq α] (node : α → Option (List α × Bool)) : ℕ → List α → α → Option Bool
  | 0, _, _ => none
  | n + 1, path, a =>
    if a ∈ path then some false
    else
      match node a with
      | none => some false
      | some (l, ok) =>
        match every (walk node n (a :: path)) l with
        | some true => some ok
        | r => r

variable {f g : α → Option Bool} {r : Bool}

theorem every_eq_true : every f l = some true ↔ ∀ a ∈ l, f a = some true := by
  induction l with
  | nil => simp [every]
  | cons a l ih =>
    simp only [every, List.mem_cons, forall_eq_or_imp]
    split
    · rename_i h
      simp [h, ih]
    · rename_i h
      exact ⟨fun hr => absurd hr h, fun hr => absurd hr.1 h⟩

theorem every_isSome (h : ∀ a ∈ l, (f a).isSome = true) : (every f l).isSome = true := by
  induction l with
  | nil => rfl
  | cons a l ih =>
    simp only [every]
    split
    · exact ih fun b hb => h b (List.mem_cons_of_mem a hb)
    · exact h a List.mem_cons_self

theorem every_ne_false (h : ∀ a ∈ l, f a ≠ some false) : every f l ≠ some false := by
  induction l with
  | nil => simp [every]
  | cons a l ih =>
    simp only [every]
    split
    · exact ih fun b hb => h b (List.mem_cons_of_mem a hb)
    · exact h a List.mem_cons_self

/-- What is asked for may be better defined. -/
theorem every_mono (h : ∀ a ∈ l, ∀ r, f a = some r → g a = some r) (hr : every f l = some r) :
    every g l = some r := by
  induction l with
  | nil => exact hr
  | cons a l ih =>
    simp only [every] at hr ⊢
    split at hr
    · rename_i hf
      rw [h a List.mem_cons_self true hf]
      exact ih (fun b hb => h b (List.mem_cons_of_mem a hb)) hr
    · rename_i hf
      rw [h a List.mem_cons_self r hr]
      cases r with
      | true => exact absurd hr hf
      | false => rfl

/-- Those that pass by themselves need not be asked. -/
theorem every_filter (p : α → Bool) :
    every (fun a => if p a then some true else f a) l = every f (l.filter (!p ·)) := by
  induction l with
  | nil => rfl
  | cons a l ih =>
    cases hp : p a with
    | true => simp [every, hp, ih]
    | false => simp only [every, hp, ih, List.filter_cons, Bool.not_false, if_true]; rfl

section walk

variable [DecidableEq α] {n : ℕ} {path : List α}

/-- What passes is clear, by induction on the fuel. -/
theorem clear_of_walk : ∀ {n : ℕ} {path : List α} {a : α}, walk node n path a = some true →
    Clear node a
  | n + 1, path, a, h => by
    simp only [walk] at h
    split at h
    · cases h
    · split at h
      · cases h
      · rename_i l ok hnode
        split at h
        · rename_i hl
          cases h
          exact .intro hnode fun b hb => clear_of_walk (every_eq_true.mp hl b hb)
        · rename_i hl
          exact absurd h hl

/-- **What is clear is not refused**, on a path that it does not lead back to. -/
theorem Clear.walk_ne_false (h : Clear node a) :
    ∀ {n : ℕ} {path : List α}, (∀ v ∈ path, ¬Relation.ReflTransGen (Edge node) a v) →
      walk node n path a ≠ some false := by
  induction h with
  | @intro a l hnode hl ih =>
    intro n path hpath
    cases n with
    | zero => simp [walk]
    | succ n =>
      have hnot : a ∉ path := fun ha => hpath a ha .refl
      have hclear : Clear node a := .intro hnode hl
      have hbelow : ∀ b ∈ l, walk node n (a :: path) b ≠ some false := by
        intro b hb
        have hab : Edge node a b := ⟨l, true, hnode, hb⟩
        refine ih b hb fun v hv hbv => ?_
        rcases List.mem_cons.mp hv with rfl | hv
        · exact hclear.acyclic (Relation.TransGen.head' hab hbv)
        · exact hpath v hv (hbv.head hab)
      have hevery := every_ne_false hbelow
      simp only [walk, hnot, if_false, hnode]
      split
      · simp
      · exact hevery

variable {S : Finset α}

/-- A node that comes onto the path leaves fewer to come. -/
theorem card_sdiff_cons_lt (ha : a ∈ S) (hnot : a ∉ path) :
    (S \ (a :: path).toFinset).card < (S \ path.toFinset).card := by
  have hmem : a ∈ S \ path.toFinset := Finset.mem_sdiff.mpr ⟨ha, by simpa using hnot⟩
  refine Finset.card_lt_card (Finset.ssubset_iff_of_subset ?_ |>.mpr ⟨a, hmem, by simp⟩)
  exact Finset.sdiff_subset_sdiff (Finset.Subset.refl S) (by simp)

/-- **A walk over finitely many nodes ends**: every step takes one of them onto the path. -/
theorem walk_isSome (hS : ∀ a, node a ≠ none → a ∈ S) : ∀ {n : ℕ} {path : List α} {a : α},
    (S \ path.toFinset).card < n → (walk node n path a).isSome = true
  | n + 1, path, a, hn => by
    simp only [walk]
    split
    · rfl
    · rename_i hnot
      split
      · rfl
      · rename_i l ok hnode
        have hfewer : (S \ (a :: path).toFinset).card < n :=
          Nat.lt_of_lt_of_le (card_sdiff_cons_lt (hS a (by simp [hnode])) hnot)
            (Nat.le_of_lt_succ hn)
        have hevery := every_isSome fun b (_ : b ∈ l) => walk_isSome hS hfewer (a := b)
        split
        · rfl
        · exact hevery

/-- **A walk with enough fuel accepts exactly the clear nodes.** -/
theorem walk_eq_true_iff (hS : ∀ a, node a ≠ none → a ∈ S) (hn : S.card < n) :
    walk node n [] a = some true ↔ Clear node a := by
  refine ⟨clear_of_walk, fun h => ?_⟩
  have hfuel : (S \ ([] : List α).toFinset).card < n := by simpa using hn
  obtain ⟨r, hr⟩ := Option.isSome_iff_exists.mp (walk_isSome hS hfuel (a := a))
  cases r with
  | true => exact hr
  | false => exact absurd hr (h.walk_ne_false (by simp))

theorem walk_eq_false_iff (hS : ∀ a, node a ≠ none → a ∈ S) (hn : S.card < n) :
    walk node n [] a = some false ↔ ¬Clear node a := by
  rw [← walk_eq_true_iff hS hn]
  have hfuel : (S \ ([] : List α).toFinset).card < n := by simpa using hn
  obtain ⟨r, hr⟩ := Option.isSome_iff_exists.mp (walk_isSome hS hfuel (a := a))
  cases r <;> simp [hr]

end walk

end PokrovCore.Walk
