import PokrovCore.SmartAccess.Readiness

/-!
# SmartAccess/Selection — a group follows the order it was given

`Selector` says what a group is for, in terms of members only: keep the one of the call before while
it is available and not retired, otherwise take the first that is.  A group has positions instead,
and loses the position of a member it retires.  `Follows` relates the two, every event keeps it
(`follows_step`), and so a group answers as the selector does on every run.
-/

namespace PokrovCore.SmartAccess

/-! ## The reference -/

/-- **The reference selector**: the given order, the member the call before has returned (the first
one, before any call), and the members that are retired. -/
structure Selector where
  members : List ℕ
  previous : Option ℕ
  retired : List ℕ

namespace Selector

variable (s : Selector) (still : Bool) (available : ℕ → Bool)

def start (members : List ℕ) : Selector := ⟨members, members.head?, []⟩

/-- The first member in order that is available and not retired. -/
def first : Option ℕ := s.members.find? fun m => decide (m ∉ s.retired) && available m

/-- The member of the call before, while it is `still` available and not retired; otherwise the
first. -/
def selected : Option ℕ :=
  match s.previous with
  | some m => if m ∉ s.retired ∧ still = true then some m else s.first available
  | none => s.first available

/-- What the selector notes of an event. -/
def after (s : Selector) : GroupEvent → Selector
  | .select still walk _ =>
    { s with
      previous := s.selected (ServiceLeaseGroup.availableNow still)
        fun m => ServiceLeaseGroup.availableNow (walk m) }
  | .dnsFailed member _ => { s with retired := member :: s.retired }
  | _ => s

variable {s still available}

/-- **Nothing is selected exactly when nothing is available.** -/
theorem selected_eq_none_iff :
    s.selected still available = none ↔
      (∀ m, s.previous = some m → m ∉ s.retired → still = false) ∧
        ∀ m ∈ s.members, m ∉ s.retired → available m = false := by
  have hfirst : s.first available = none ↔
      ∀ m ∈ s.members, m ∉ s.retired → available m = false := by
    simp [first, List.find?_eq_none]
  unfold selected
  cases hp : s.previous with
  | none => simp [hfirst]
  | some p =>
    by_cases hkeep : p ∉ s.retired ∧ still = true
    · simp only [if_pos hkeep, reduceCtorEq, false_iff, not_and]
      exact fun h => absurd (h p rfl hkeep.1) (by simp [hkeep.2])
    · simp only [if_neg hkeep, hfirst, Option.some.injEq, forall_eq', iff_and_self]
      intro _ hmem
      exact Bool.eq_false_of_not_eq_true fun h => hkeep ⟨hmem, h⟩

/-- **A retired member is not selected.** -/
theorem selected_not_retired {m : ℕ} (h : s.selected still available = some m) : m ∉ s.retired := by
  have hfirst : s.first available = some m → m ∉ s.retired := fun hf => by
    simpa using And.left (by simpa using List.find?_some hf)
  unfold selected at h
  split at h
  · split at h
    case isTrue hkeep => exact Option.some.inj h ▸ hkeep.1
    case isFalse => exact hfirst h
  · exact hfirst h

/-- Retirement is for good. -/
theorem retired_foldl {m : ℕ} {now : Sample} : ∀ {l : List GroupEvent} {s : Selector},
    m ∈ s.retired ∨ .dnsFailed m now ∈ l → m ∈ (l.foldl after s).retired
  | [], s, h => h.resolve_right List.not_mem_nil
  | e :: l, s, h => by
    rw [List.foldl_cons]
    refine retired_foldl (?_ : _ ∨ .dnsFailed m now ∈ l)
    rcases h with hm | hm
    · left
      cases e with
      | dnsFailed m' now' => exact List.mem_cons_of_mem m' hm
      | _ => exact hm
    · obtain rfl | hm := List.mem_cons.mp hm
      · exact .inl List.mem_cons_self
      · exact .inr hm

/-- The order is given for good. -/
theorem members_foldl : ∀ (l : List GroupEvent) (s : Selector),
    (l.foldl after s).members = s.members
  | [], _ => rfl
  | e :: l, s => by
    rw [List.foldl_cons, members_foldl l]
    cases e <;> rfl

end Selector

/-! ## What the sections do to the selection -/

namespace ServiceLeaseGroup

/-- Two groups agree on what selection is about. -/
structure SameSelection (g g' : ServiceLeaseGroup) : Prop where
  members : g'.members = g.members
  selected : g'.selected = g.selected
  dnsFailed : g'.dnsFailed = g.dnsFailed

namespace SameSelection

variable {g g' g'' : ServiceLeaseGroup}

theorem refl (g : ServiceLeaseGroup) : SameSelection g g := ⟨rfl, rfl, rfl⟩

theorem trans (h : SameSelection g g') (h' : SameSelection g' g'') : SameSelection g g'' :=
  ⟨h'.members.trans h.members, h'.selected.trans h.selected, h'.dnsFailed.trans h.dnsFailed⟩

theorem close (g : ServiceLeaseGroup) (now : Sample) :
    SameSelection g (g.closeReadinessLocked now) :=
  ⟨by simp, by simp, by simp⟩

theorem modifyProbe (g : ServiceLeaseGroup) (p : ℕ)
    (φ : ServiceReadinessProbe → ServiceReadinessProbe) : SameSelection g (g.modifyProbe p φ) :=
  ⟨rfl, rfl, rfl⟩

theorem ite (h : SameSelection g g') {P : Prop} [Decidable P] :
    SameSelection g (if P then g' else g) := by
  split
  · exact h
  · exact refl g

theorem giveUp (g : ServiceLeaseGroup) (p : ℕ) (c : Findings) (now : Sample) :
    SameSelection g (g.giveUp p c now) := by
  refine SameSelection.trans ?_ (close _ now)
  unfold retainResolverDeadlineLocked
  split
  · exact refl g
  · exact (modifyProbe g p _).ite

theorem beginReadiness (g : ServiceLeaseGroup) (c : Findings) (now : Sample) :
    SameSelection g (g.beginReadiness c now) := by
  have hsettle : SameSelection g (g.settlePrevious c now) := by
    unfold settlePrevious
    split
    · exact refl g
    · exact (close g now).ite
  exact ⟨hsettle.members, hsettle.selected, hsettle.dnsFailed⟩

theorem observeReadiness (g : ServiceLeaseGroup) (p : ℕ) (stage : ServiceReadinessStage)
    (ctxErr : Option ContextError) (c again : Findings) (now : Sample) :
    SameSelection g (g.observeReadiness p stage ctxErr c again now) := by
  unfold ServiceLeaseGroup.observeReadiness
  split
  · exact refl g
  · split
    · exact giveUp g p again now
    · exact (modifyProbe g p _).trans (close _ now).ite

theorem finishReadiness (g : ServiceLeaseGroup) (p : ℕ) (failed : Bool)
    (ctxErr : Option ContextError) (c again : Findings) (now : Sample) :
    SameSelection g (g.finishReadiness p failed ctxErr c again now) := by
  unfold ServiceLeaseGroup.finishReadiness
  split
  · exact refl g
  · split
    · exact giveUp g p again now
    · exact modifyProbe g p _

theorem refresh (g : ServiceLeaseGroup) (c again : Findings) (now : Sample) :
    SameSelection g (g.refresh c again now) := by
  unfold ServiceLeaseGroup.refresh
  split
  · exact refl g
  · exact (giveUp g _ again now).ite

theorem observeScopedRuleBypass (g : ServiceLeaseGroup) (member : ℕ) (outside : Outbound)
    (name : String) (now : Sample) :
    SameSelection g (g.observeScopedRuleBypass member outside name now) :=
  (close g now).ite

theorem unbindProbeWindow (g : ServiceLeaseGroup) (w : ℕ) (now : Sample) :
    SameSelection g (g.unbindProbeWindow w now) := by
  unfold ServiceLeaseGroup.unbindProbeWindow
  split
  · exact refl g
  case h_2 window _ =>
    have hclose : SameSelection g
        (if g.boundMember = some window.member then g.closeReadinessLocked now else g) :=
      (close g now).ite
    exact ⟨hclose.members, hclose.selected, hclose.dnsFailed⟩

end SameSelection

theorem selectedMember_retire (g : ServiceLeaseGroup) (member : ℕ) (now : Sample) :
    (g.retire member now).selectedMember =
      if g.selectedMember = some member then none else g.selectedMember := by
  have hsame : SameSelection g
      (if g.boundMember = some member then g.closeReadinessLocked now else g) :=
    (SameSelection.close g now).ite
  unfold retire selectedMember
  simp only [hsame.members, hsame.selected]
  split <;> rfl

end ServiceLeaseGroup

/-! ## Following -/

/-- **A group follows a selector**: the same order and the same retired members, and the same member
to keep, as far as there is one to keep. -/
structure Follows (g : ServiceLeaseGroup) (s : Selector) : Prop where
  members : g.members = s.members
  retired : g.dnsFailed = s.retired
  kept : g.selectedMember.filter (fun m => decide (m ∉ s.retired)) =
    s.previous.filter fun m => decide (m ∉ s.retired)

namespace Follows

variable {g g' : ServiceLeaseGroup} {s : Selector}

theorem start (serviceID : String) (members : List ℕ) :
    Follows (newServiceLeaseGroup serviceID members) (.start members) where
  members := rfl
  retired := rfl
  kept := by
    rw [show (newServiceLeaseGroup serviceID members).selectedMember = members.head? from
      List.head?_eq_getElem?.symm]
    rfl

theorem of_same (h : Follows g s) (hg : ServiceLeaseGroup.SameSelection g g') : Follows g' s where
  members := hg.members.trans h.members
  retired := hg.dnsFailed.trans h.retired
  kept := by
    rw [← h.kept, ServiceLeaseGroup.selectedMember, hg.members, hg.selected]
    rfl

/-- **A group answers as the selector does**, and goes on following it. -/
theorem select (h : Follows g s) (still : Bool) (available : ℕ → Bool) (now : Sample) :
    (g.select still available now).2 = s.selected still available ∧
      Follows (g.select still available now).1
        { s with previous := s.selected still available } := by
  have hfirst : (g.firstAvailable available).bind (fun i => g.members[i]?) =
      s.first available := by
    rw [ServiceLeaseGroup.firstAvailable, ← List.find?_eq_bind_findIdx?_getElem?, h.members,
      h.retired, Selector.first]
    simp
  have hkept : g.selectedMember.any (fun m => !g.dnsFailed.contains m) =
      s.previous.any fun m => decide (m ∉ s.retired) := by
    rw [← Option.isSome_filter, ← Option.isSome_filter, ← h.kept, h.retired]
    simp
  have hanswer : (g.choose still available).bind (fun i => g.members[i]?) =
      s.selected still available := by
    unfold ServiceLeaseGroup.choose Selector.selected
    rw [hkept]
    cases hprevious : s.previous with
    | none => simpa using hfirst
    | some p =>
      by_cases hkeep : p ∉ s.retired ∧ still = true
      · dsimp only
        rw [if_pos (by simpa using hkeep), if_pos hkeep]
        have hfilter := h.kept
        rw [hprevious, Option.filter_some_pos (by simpa using hkeep.1)] at hfilter
        exact (Option.filter_eq_some_iff.mp hfilter).1
      · dsimp only
        rw [if_neg (by simpa using hkeep), if_neg hkeep]
        exact hfirst
  refine ⟨hanswer, Follows.of_same (g := { g with evaluated := true, selected := _ })
    ⟨h.members, h.retired, congrArg (Option.filter _) hanswer⟩ ?_⟩
  exact (ServiceLeaseGroup.SameSelection.close _ now).ite

/-- A member that is retired is no longer one to keep. -/
theorem retire (h : Follows g s) (member : ℕ) (now : Sample) :
    Follows (g.retire member now) { s with retired := member :: s.retired } := by
  have h' := h.of_same ((ServiceLeaseGroup.SameSelection.close g now).ite
    (P := g.boundMember = some member))
  refine ⟨h'.members, congrArg (member :: ·) h'.retired, ?_⟩
  have hsplit : ∀ o : Option ℕ, o.filter (fun m => decide (m ∉ member :: s.retired)) =
      (o.filter fun m => decide (m ∉ s.retired)).filter fun m => decide (m ≠ member) := by
    intro o
    rw [Option.filter_filter]
    congr 1
    ext m
    simp [Bool.and_comm]
  rw [hsplit s.previous, ← h.kept, ← hsplit, ServiceLeaseGroup.selectedMember_retire]
  split
  case isTrue hm =>
    rw [hm, Option.filter_some_neg (by simp)]
    rfl
  case isFalse => rfl

end Follows

/-! ## Whole runs -/

namespace GroupRun

variable {w w' : GroupRun} {e : GroupEvent} {o : GroupAnswer} {s : Selector}

/-- **Every event keeps the group in step with the selector.** -/
theorem follows_step (hs : w.step e = some (w', o)) (h : Follows w.group s) :
    Follows w'.group (s.after e) := by
  cases e with
  | begin c now =>
    obtain rfl := Machine.state_eq hs
    exact h.of_same (.beginReadiness _ c now)
  | bind p member leaseID transport manager =>
    obtain ⟨-, rfl⟩ := Machine.guarded hs
    exact h.of_same (ServiceLeaseGroup.SameSelection.modifyProbe _ p _).ite
  | beginLookup p c now =>
    obtain ⟨-, rfl⟩ := Machine.guarded hs
    exact h.of_same (ServiceLeaseGroup.SameSelection.modifyProbe _ p _).ite
  | finishLookup p ctxErr =>
    obtain ⟨-, rfl⟩ := Machine.guarded hs
    exact h.of_same (ServiceLeaseGroup.SameSelection.modifyProbe _ p _).ite
  | observe p stage observedAt duration err ctxErr c again now =>
    obtain ⟨-, rfl⟩ := Machine.guarded hs
    exact h.of_same (.observeReadiness _ p _ ctxErr c again now)
  | finish p failed ctxErr c again now =>
    obtain ⟨-, rfl⟩ := Machine.guarded hs
    exact h.of_same (.finishReadiness _ p failed ctxErr c again now)
  | select still walk now =>
    obtain rfl := Machine.state_eq hs
    exact (h.select _ _ now).2
  | dnsFailed member now =>
    obtain rfl := Machine.state_eq hs
    exact h.retire member now
  | bypass member outside name now =>
    obtain rfl := Machine.state_eq hs
    exact h.of_same (.observeScopedRuleBypass _ member outside name now)
  | bindWindow window =>
    obtain rfl := Machine.state_eq hs
    exact h.of_same ⟨rfl, rfl, rfl⟩
  | unbindWindow i now =>
    obtain rfl := Machine.state_eq hs
    exact h.of_same (.unbindProbeWindow _ i now)
  | readback c again now member available =>
    obtain rfl := Machine.state_eq hs
    exact h.of_same (.refresh _ c again now)

/-- **On every run, a selection answers as the selector does.** -/
theorem answer_of_select {serviceID : String} {members : List ℕ} {l : List GroupEvent}
    (hl : machine.run (start serviceID members) l = some w) {still : Outbound × Sample}
    {walk : ℕ → Outbound × Sample} {now : Sample}
    (hs : w.step (.select still walk now) = some (w', o)) :
    o = .member ((l.foldl Selector.after (.start members)).selected
      (ServiceLeaseGroup.availableNow still) fun m => ServiceLeaseGroup.availableNow (walk m)) := by
  have h : Follows w.group (l.foldl Selector.after (.start members)) :=
    Machine.run_reference (R := fun w s => Follows w.group s) (E := fun _ => True)
      (fun _ _ _ _ _ _ hstep hf => follows_step hstep hf) (fun _ _ => trivial) hl
      (.start serviceID members)
  obtain rfl : GroupAnswer.member _ = o := congrArg Prod.snd (Option.some.inj hs)
  exact congrArg _ (h.select _ _ now).1

end GroupRun

end PokrovCore.SmartAccess
