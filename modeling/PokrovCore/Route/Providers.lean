import PokrovCore.Route.WindowRuns

/-!
# Route/Providers — a rule goes to the provider its group has selected

The group of a service follows the order of its providers (`SmartAccess/Selection`), and a rule with
a group matches only when the selection made in that very match is its own provider.
-/

namespace PokrovCore.Route

open SmartAccess (Outbound ServiceLeaseGroup CaseTable GroupRun GroupEvent Selector sampleOutbound
  sampleClock)

variable {ρ ω : Type}

namespace Box

/-- A window with a group has a provider. -/
def Linked (b : Box) : Prop := ∀ i, (b.windows i).leaseGroup.isSome → (b.windows i).lease.isSome

variable {b : Box}

theorem Linked.of_kept {b' : Box} (h : b.Linked) (hk : Kept b b') : b'.Linked := fun i hi => by
  rw [hk.lease]
  exact h i (hk.leaseGroup i ▸ hi)

variable {i : ℕ}

/-- One window is as `s` says, the others are those of `b`. -/
theorem windows_setWindow {b' : Box} {s : WindowState} (φ : WindowState → WindowState)
    (h : b'.windows = Function.update b.windows i s) :
    (b'.setWindow i φ).windows = Function.update b.windows i (φ s) := by
  simp [setWindow, h]

/-- The group is new or already there; the windows are as they were. -/
theorem windows_serviceLeaseGroup {b' : Box} {serviceID : String} {members : List ℕ} {g : ℕ}
    (h : b.serviceLeaseGroup serviceID members = some (b', g)) : b'.windows = b.windows := by
  unfold serviceLeaseGroup at h
  split at h
  · dsimp only at h
    split at h
    · split at h
      · exact congrArg (·.1.windows) (Option.some.inj h).symm
      · cases h
    · exact congrArg (·.1.windows) (Option.some.inj h).symm
  · cases h

variable {r : WindowedRule ρ ω} {managers : Managers}

theorem windows_bindProbe {b' : Box} {lease g : ℕ} {s : WindowState}
    (h : b'.windows = Function.update b.windows i s) :
    ∃ s', s'.lease = s.lease ∧
      (b'.bindProbe managers i lease g r).windows = Function.update b.windows i s' := by
  unfold bindProbe
  split
  · exact ⟨s, rfl, h⟩
  · dsimp only
    refine ⟨_, ?_, windows_setWindow _ (show (b'.setGroup g _).windows = _ from h)⟩
    rfl

/-- **A window that starts has a provider if its rule names a lease**, before it has a group. -/
theorem windows_start {b' : Box} (hs : b.start managers i r = .ok b') :
    b'.windows = b.windows ∨ r.window.leaseID ≠ "" ∧
      ∃ s, s.lease.isSome = true ∧ b'.windows = Function.update b.windows i s := by
  unfold start at hs
  split at hs
  · exact .inl (congrArg windows (Except.ok.inj hs).symm)
  case isFalse hid =>
    refine .inr ⟨hid, ?_⟩
    split at hs
    · cases hs
    case h_2 lease _ =>
      have hlease : (b.setWindow i fun s => { s with lease := some lease }).windows =
          Function.update b.windows i { b.windows i with lease := some lease } := rfl
      dsimp only at hs
      split at hs
      · exact ⟨_, rfl, congrArg windows (Except.ok.inj hs).symm⟩
      · split at hs
        · cases hs
        · split at hs
          · cases hs
          case h_2 b₁ g hgroup =>
            have hwindows := (windows_serviceLeaseGroup hgroup).trans hlease
            have hstarted := windows_setWindow (fun s => { s with leaseGroup := some g }) hwindows
            obtain ⟨s, hs', hbound⟩ := windows_bindProbe hstarted
            obtain rfl := Except.ok.inj hs
            exact ⟨s, by rw [hs']; rfl, hbound⟩

theorem linked_start {b' : Box} (h : b.Linked) (hs : b.start managers i r = .ok b') :
    b'.Linked := by
  obtain hsame | ⟨-, s, hlease, hw⟩ := windows_start hs
  · rw [Linked, hsame]
    exact h
  · intro j hj
    rw [hw, Function.update_apply] at hj ⊢
    split at hj
    case isTrue hji => rw [if_pos hji, hlease]
    case isFalse hji => rw [if_neg hji]; exact h j hj

theorem linked_startFrom {rules : List (Rule ρ ω)} {b' : Box} (h : b.Linked)
    (hs : startFrom managers rules i b = .ok b') : b'.Linked := by
  induction rules generalizing i b with
  | nil => exact Except.ok.inj hs ▸ h
  | cons rule rules ih =>
    cases rule with
    | plain r => exact ih h hs
    | windowed r =>
      unfold startFrom at hs
      split at hs
      · cases hs
      case h_2 b₁ hb₁ => exact ih (linked_start h hb₁) hs

variable {m : InboundContext ρ ω}

/-- A rule that matches has asked its group, if it has one, and got its own provider. -/
theorem verdict_of_matched {t : CaseTable} {entry : Entry ω} {clock : MatchClock}
    (hm : (b.matchRule t i (.windowed r) entry m clock).2.2.matched = true) :
    (b.matchRule t i (.windowed r) entry m clock).2.2.selected =
        ((b.active i r.window clock).1.selected i clock).2 ∧
      ∀ answer, ((b.active i r.window clock).1.selected i clock).2 = some answer →
        answer = (b.windows i).lease := by
  have hk := kept_active b i r.window clock
  unfold matchRule at hm ⊢
  dsimp only at hm ⊢
  split at hm
  · rw [r.not_invert, Bool.and_false] at hm
    cases hm
  case h_2 m' henter =>
    unfold matchWindowed at hm ⊢
    rw [r.isEmpty_eq_false] at hm ⊢
    dsimp only at hm ⊢
    split at hm
    · cases hm
    case isFalse hactive =>
      rw [if_neg hactive]
      simp only [Bool.false_eq_true, if_false] at hm ⊢
      split at hm
      · rw [Conditions.verdict, r.not_invert] at hm
        cases hm
      case isFalse hinner =>
        rw [if_neg hinner]
        split at hm
        · cases hm
        case isFalse hanswer =>
          rw [if_neg hanswer]
          refine ⟨rfl, fun answer hsome => ?_⟩
          rw [hsome, hk.lease] at hanswer
          simpa using hanswer

/-- **A rule with a group matches only with its own provider selected.** -/
theorem selected_of_matched {t : CaseTable} {g : ℕ} {entry : Entry ω} {clock : MatchClock}
    (hg : (b.windows i).leaseGroup = some g)
    (hm : (b.matchRule t i (.windowed r) entry m clock).2.2.matched = true) :
    (b.matchRule t i (.windowed r) entry m clock).2.2.selected = some (b.windows i).lease := by
  obtain ⟨hverdict, hown⟩ := verdict_of_matched hm
  have hsome : ((b.active i r.window clock).1.selected i clock).2 =
      some ((b.active i r.window clock).1.selectGroup g clock).2 := by
    rw [Box.selected, (kept_active b i r.window clock).leaseGroup, hg]
  rw [hverdict, hsome, hown _ hsome]

/-- **Provider selection follows the given order.**  On every run of a group, `Selected` answers as
the reference selector, nothing exactly when nothing is available, and never a provider whose
resolver has failed before.  And in every run of a core, a rule with a group matches only if the
`Selected` of that match has returned the provider of the rule. -/
theorem selection_follows_order :
    (∀ (serviceID : String) (members : List ℕ) (l : List GroupEvent) (w w' : GroupRun)
        (still : Outbound × Sample) (walk : ℕ → Outbound × Sample) (now : Sample)
        (o : SmartAccess.GroupAnswer) (s : Selector),
      GroupRun.machine.run (.start serviceID members) l = some w →
      w.step (.select still walk now) = some (w', o) →
      s = l.foldl Selector.after (.start members) →
      o = .member (s.selected (ServiceLeaseGroup.availableNow still)
        fun m => ServiceLeaseGroup.availableNow (walk m)) ∧
      (o = .member none ↔
        (∀ m, s.previous = some m → m ∉ s.retired → ServiceLeaseGroup.availableNow still = false) ∧
        ∀ m ∈ members, m ∉ s.retired → ServiceLeaseGroup.availableNow (walk m) = false) ∧
      ∀ m at_, .dnsFailed m at_ ∈ l → o ≠ .member (some m)) ∧
    ∀ (t : CaseTable) (managers : Managers) (outbounds : ℕ → Outbound) (rules : List (Rule ρ ω))
        (b₀ b : Box) (l : List (Call ρ ω)) (i g : ℕ) (r : WindowedRule ρ ω) (entry : Entry ω)
        (m : InboundContext ρ ω) (clock : MatchClock),
      startFrom managers rules 0 (initial outbounds rules) = .ok b₀ → b = b₀.calls t rules l →
      (b.windows i).leaseGroup = some g →
      (b.matchRule t i (.windowed r) entry m clock).2.2.matched = true →
      ∃ lease, (b.windows i).lease = some lease ∧
        (b.matchRule t i (.windowed r) entry m clock).2.2.selected = some (some lease) := by
  refine ⟨fun serviceID members l w w' still walk now o s hl hs heq => ?_,
    fun t managers outbounds rules b₀ b l i g r entry m clock hstart hb hg hm => ?_⟩
  · have ho := GroupRun.answer_of_select hl hs
    rw [← heq] at ho
    refine ⟨ho, ?_, fun m at_ hmem hm => ?_⟩
    · have hmembers : s.members = members := heq ▸ Selector.members_foldl l _
      rw [ho, SmartAccess.GroupAnswer.member.injEq, Selector.selected_eq_none_iff, hmembers]
    · have hsel := SmartAccess.GroupAnswer.member.inj (ho.symm.trans hm)
      exact Selector.selected_not_retired hsel (heq ▸ Selector.retired_foldl (.inr hmem))
  · have hlinked : b.Linked := by
      have h₀ : (initial outbounds rules).Linked := fun _ hi => nomatch hi
      exact hb ▸ (linked_startFrom h₀ hstart).of_kept (kept_calls l b₀)
    obtain ⟨lease, hlease⟩ := Option.isSome_iff_exists.mp (hlinked i (Option.isSome_of_eq_some hg))
    exact ⟨lease, hlease, hlease ▸ selected_of_matched hg hm⟩

/-- Of two providers the resolver of the first fails, and the second is selected from then on; and a
rule that matches goes to the provider that was selected. -/
theorem selection_follows_order_sample :
    (∃ w w' o, GroupRun.machine.run (.start "video" [0, 1])
        [.select (sampleOutbound, sampleClock) (fun _ => (sampleOutbound, sampleClock)) sampleClock,
          .dnsFailed 0 sampleClock] = some w ∧
      w.step (.select (sampleOutbound, sampleClock) (fun _ => (sampleOutbound, sampleClock))
        sampleClock) = some (w', o) ∧ o ≠ .member (some 0) ∧ o = .member (some 1)) ∧
    ∃ b, sampleStart = .ok b ∧ (b.windows 0).leaseGroup = some 0 ∧
      ∃ lease, (b.windows 0).lease = some lease ∧
        (b.matchRule sampleCase 0 (.windowed sampleWindowedRule) .direct sampleContext
          sampleMatchClock).2.2.selected = some (some lease) := by
  constructor
  · obtain ⟨w, hw⟩ : ∃ w, GroupRun.machine.run (.start "video" [0, 1])
        [.select (sampleOutbound, sampleClock) (fun _ => (sampleOutbound, sampleClock)) sampleClock,
          .dnsFailed 0 sampleClock] = some w := ⟨_, rfl⟩
    have hs : w.step (.select (sampleOutbound, sampleClock)
        (fun _ => (sampleOutbound, sampleClock)) sampleClock) = some (_, .member _) := rfl
    obtain ⟨ho, -, hnever⟩ := (selection_follows_order (ρ := Unit) (ω := Unit)).1 "video" [0, 1] _ w
      _ _ _ _ _ _ hw hs rfl
    exact ⟨w, _, _, hw, hs, hnever 0 sampleClock (by simp), ho.trans (congrArg _ (by decide +kernel))⟩
  · have hrun : (sampleStart.toOption.map fun b => ((b.windows 0).leaseGroup,
        (b.matchRule sampleCase 0 (.windowed sampleWindowedRule) .direct sampleContext
          sampleMatchClock).2.2.matched)) = some (some 0, true) := by decide +kernel
    obtain ⟨b, hb, hpair⟩ := Option.map_eq_some_iff.mp hrun
    obtain ⟨hg, hm⟩ := Prod.mk.inj hpair
    have hstart : sampleStart = .ok b := by
      cases hs : sampleStart with
      | error e => rw [hs] at hb; cases hb
      | ok b' => rw [hs] at hb; exact congrArg _ (Option.some.inj hb)
    exact ⟨b, hstart, hg, selection_follows_order.2 sampleCase _ _ _ b b [] 0 0
      sampleWindowedRule .direct sampleContext sampleMatchClock hstart rfl hg hm⟩

end Box

end PokrovCore.Route
