import Mathlib.Data.Int.Notation
import Mathlib.Data.Nat.Notation
import Mathlib.Logic.Relation

/-!
# Foundations/Machine — event machines, and what every run of one preserves

A machine answers an event with a new state and an output, or not at all: an event that is not
enabled has no successor.  Everything a scheduler, a clock or a disk may choose stands in the event,
so the step is a function and a run is a path of steps.

* `ReachesIf C` — the states reached when every event taken meets the side condition `C`.
* `ReachesIf.invariant`, `ReachesIf.rel` — the two induction rules a development uses: a property
  every step keeps, and a preorder every step goes up.
-/

namespace PokrovCore

/-- A deterministic machine over events: `step` is `none` where the event is not enabled. -/
structure Machine (σ ε ο : Type*) where
  step : σ → ε → Option (σ × ο)

namespace Machine

variable {σ ε ο : Type*} {M : Machine σ ε ο} {C D : σ → ε → Prop} {s t u : σ}

/-- The state a step that is known leads to. -/
theorem state_eq {o p : ο} (h : some (s, o) = some (t, p)) : s = t :=
  congrArg Prod.fst (Option.some.inj h)

/-- The same for a step under a condition. -/
theorem guarded {c : Prop} [Decidable c] {o p : ο}
    (h : (if c then some (s, o) else none) = some (t, p)) : c ∧ s = t := by
  obtain ⟨hc, h⟩ := Option.ite_none_right_eq_some.mp h
  exact ⟨hc, state_eq h⟩

/-- One step, under an event the side condition admits. -/
def Next (M : Machine σ ε ο) (C : σ → ε → Prop) (s t : σ) : Prop :=
  ∃ e o, C s e ∧ M.step s e = some (t, o)

/-- **The runs whose every event meets `C`.** -/
def ReachesIf (M : Machine σ ε ο) (C : σ → ε → Prop) : σ → σ → Prop :=
  Relation.ReflTransGen (M.Next C)

/-- The unrestricted runs. -/
abbrev Reaches (M : Machine σ ε ο) : σ → σ → Prop := M.ReachesIf fun _ _ => True

theorem ReachesIf.refl (s : σ) : M.ReachesIf C s s := Relation.ReflTransGen.refl

theorem ReachesIf.trans (h : M.ReachesIf C s t) (h' : M.ReachesIf C t u) : M.ReachesIf C s u :=
  Relation.ReflTransGen.trans h h'

/-- A single admitted step is a run. -/
theorem ReachesIf.single {e : ε} {o : ο} (hC : C s e) (h : M.step s e = some (t, o)) :
    M.ReachesIf C s t :=
  Relation.ReflTransGen.single ⟨e, o, hC, h⟩

/-- A run, extended by one admitted step. -/
theorem ReachesIf.snoc {e : ε} {o : ο} (r : M.ReachesIf C s t) (hC : C t e)
    (h : M.step t e = some (u, o)) : M.ReachesIf C s u :=
  Relation.ReflTransGen.tail r ⟨e, o, hC, h⟩

/-- Weakening the side condition keeps a run. -/
theorem ReachesIf.mono (hCD : ∀ s e, C s e → D s e) (h : M.ReachesIf C s t) :
    M.ReachesIf D s t :=
  Relation.ReflTransGen.mono (fun _ _ ⟨e, o, hC, hs⟩ => ⟨e, o, hCD _ _ hC, hs⟩) _ _ h

/-- **The preorder rule**: what every step goes up, every run goes up. -/
theorem ReachesIf.rel {R : σ → σ → Prop} (hrefl : ∀ s, R s s)
    (htrans : ∀ a b c, R a b → R b c → R a c)
    (hstep : ∀ a e b o, C a e → M.step a e = some (b, o) → R a b) (h : M.ReachesIf C s t) :
    R s t := by
  induction h with
  | refl => exact hrefl s
  | tail _ hn ih =>
    obtain ⟨e, o, hC, hs⟩ := hn
    exact htrans _ _ _ ih (hstep _ e _ o hC hs)

/-- **The invariant rule**: what every step keeps, every run keeps. -/
theorem ReachesIf.invariant {P : σ → Prop}
    (hstep : ∀ a e b o, C a e → M.step a e = some (b, o) → P a → P b) (h : M.ReachesIf C s t) :
    P s → P t :=
  h.rel (R := fun a b => P a → P b) (fun _ hp => hp) (fun _ _ _ hab hbc hp => hbc (hab hp)) hstep

/-- Run a list of events, if every one is enabled. -/
def run (M : Machine σ ε ο) : σ → List ε → Option σ
  | s, [] => some s
  | s, e :: l => (M.step s e).bind fun p => M.run p.1 l

/-- What a list of events leads to is reached, under whatever they all meet. -/
theorem reachesIf_run : ∀ {l : List ε} {s : σ}, (∀ e ∈ l, ∀ s, C s e) → M.run s l = some t →
    M.ReachesIf C s t
  | [], s, _, h => Option.some.inj h ▸ ReachesIf.refl s
  | e :: l, s, hC, h => by
    obtain ⟨p, hp, hl⟩ := Option.bind_eq_some_iff.mp h
    have hrest := reachesIf_run (fun e' he => hC e' (List.mem_cons_of_mem e he)) hl
    exact (ReachesIf.single (hC e List.mem_cons_self s) hp).trans hrest

theorem reaches_run {l : List ε} (h : M.run s l = some t) : M.Reaches s t :=
  reachesIf_run (fun _ _ _ => trivial) h

/-- Run a list of events, if every one is enabled and passes a check. -/
def runIf (M : Machine σ ε ο) (check : σ → ε → Bool) : σ → List ε → Option σ
  | s, [] => some s
  | s, e :: l => if check s e then (M.step s e).bind fun p => M.runIf check p.1 l else none

/-- What passes a check at every event is reached under what the check decides. -/
theorem reachesIf_runIf {check : σ → ε → Bool} (hcheck : ∀ s e, check s e = true → C s e) :
    ∀ {l : List ε} {s : σ}, M.runIf check s l = some t → M.ReachesIf C s t
  | [], s, h => Option.some.inj h ▸ ReachesIf.refl s
  | e :: l, s, h => by
    obtain ⟨hc, h⟩ := Option.ite_none_right_eq_some.mp h
    obtain ⟨p, hp, hl⟩ := Option.bind_eq_some_iff.mp h
    exact (ReachesIf.single (hcheck s e hc) hp).trans (reachesIf_runIf hcheck hl)

/-- **The reference rule**: what one step keeps between a machine and a reference that looks at the
same events, a whole list of events keeps. -/
theorem run_reference {τ : Type*} {R : σ → τ → Prop} {f : τ → ε → τ} {E : ε → Prop}
    (hstep : ∀ s e s' o r, E e → M.step s e = some (s', o) → R s r → R s' (f r e)) :
    ∀ {l : List ε} {s : σ} {r : τ}, (∀ e ∈ l, E e) → M.run s l = some t → R s r →
      R t (l.foldl f r)
  | [], _, _, _, h, hr => Option.some.inj h ▸ hr
  | e :: _, s, r, hE, h, hr => by
    obtain ⟨p, hp, hl⟩ := Option.bind_eq_some_iff.mp h
    obtain ⟨he, hrest⟩ := List.forall_mem_cons.mp hE
    exact run_reference (r := f r e) hstep hrest hl (hstep s e p.1 p.2 r he hp hr)

end Machine

end PokrovCore
