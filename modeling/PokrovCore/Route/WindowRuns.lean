import PokrovCore.Route.CatalogWindow
import PokrovCore.SmartAccess.Selection

/-!
# Route/WindowRuns — what no call of a running core undoes

A window keeps the provider and the group it was started with, and its latch stays set: `Kept` is
the preorder of both.  A provider that is retired stays so in its group: that is `Retains`.  Every
call goes up in both, because it is made of changes that do (`Upward.call`).  A provider that is shut
stays so, too (`KeepsShut`), unless it is renewed.
-/

namespace PokrovCore.Route

open SmartAccess (Outbound ServiceLeaseGroup CaseTable)
open SmartAccess.ServiceLeaseGroup (SameSelection)

variable {ρ ω : Type}

namespace Box

variable {b b' b'' : Box}

/-- **What a call leaves of the windows**: their providers and groups, who is in these, and every
latch. -/
structure Kept (b b' : Box) : Prop where
  lease : ∀ i, (b'.windows i).lease = (b.windows i).lease
  leaseGroup : ∀ i, (b'.windows i).leaseGroup = (b.windows i).leaseGroup
  members : ∀ g, (b'.groups g).members = (b.groups g).members
  expired : ∀ i, (b.windows i).expired = true → (b'.windows i).expired = true

namespace Kept

theorem of_eq (hw : b'.windows = b.windows)
    (hm : ∀ g, (b'.groups g).members = (b.groups g).members) : Kept b b' :=
  ⟨fun i => by rw [hw], fun i => by rw [hw], hm, fun i => by rw [hw]; exact id⟩

theorem refl (b : Box) : Kept b b := of_eq rfl fun _ => rfl

theorem trans (h : Kept b b') (h' : Kept b' b'') : Kept b b'' :=
  ⟨fun i => (h'.lease i).trans (h.lease i), fun i => (h'.leaseGroup i).trans (h.leaseGroup i),
    fun g => (h'.members g).trans (h.members g), fun i hi => h'.expired i (h.expired i hi)⟩

theorem setGroup (b : Box) (g : ℕ) (φ : ServiceLeaseGroup → ServiceLeaseGroup)
    (hφ : (φ (b.groups g)).members = (b.groups g).members) : Kept b (b.setGroup g φ) := by
  refine of_eq rfl fun g' => ?_
  have hg : (b.setGroup g φ).groups g' = if g' = g then φ (b.groups g) else b.groups g' :=
    Function.update_apply ..
  rw [hg]
  split
  case isTrue hgg => rw [hgg, hφ]
  case isFalse => rfl

/-- A window is changed in a way that keeps it. -/
theorem setWindow (b : Box) (i : ℕ) (φ : WindowState → WindowState)
    (hl : ∀ s, (φ s).lease = s.lease) (hg : ∀ s, (φ s).leaseGroup = s.leaseGroup)
    (he : ∀ s, s.expired = true → (φ s).expired = true) : Kept b (b.setWindow i φ) := by
  have hw : ∀ j, (b.setWindow i φ).windows j = if j = i then φ (b.windows i) else b.windows j :=
    fun j => Function.update_apply ..
  refine ⟨fun j => ?_, fun j => ?_, fun _ => rfl, fun j hj => ?_⟩ <;> rw [hw]
  · split
    · next hji => rw [hji, hl]
    · rfl
  · split
    · next hji => rw [hji, hg]
    · rfl
  · split
    · next hji => exact he _ (hji ▸ hj)
    · exact hj

end Kept

/-! ## What calls are made of -/

/-- A change of a group that keeps its members, and whoever is retired there. -/
structure GroupKept (g g' : ServiceLeaseGroup) : Prop where
  members : g'.members = g.members
  retired : g.dnsFailed ⊆ g'.dnsFailed

theorem GroupKept.of_same {g g' : ServiceLeaseGroup} (h : SameSelection g g') : GroupKept g g' :=
  ⟨h.members, fun _ hm => h.dnsFailed ▸ hm⟩

theorem groupKept_select (g : ServiceLeaseGroup) (still : Bool) (available : ℕ → Bool)
    (now : Sample) : GroupKept g (g.select still available now).1 :=
  have hclose := GroupKept.of_same (SameSelection.close
    { g with evaluated := true, selected := g.choose still available } now).ite
  ⟨hclose.members, hclose.retired⟩

theorem groupKept_retire (g : ServiceLeaseGroup) (member : ℕ) (now : Sample) :
    GroupKept g (g.retire member now) :=
  have hclose := GroupKept.of_same (SameSelection.close g now).ite
  ⟨hclose.members, fun _ hm => List.mem_cons_of_mem member (hclose.retired hm)⟩

/-- A change of a window that keeps its provider, its group and its latch. -/
structure WindowKept (φ : WindowState → WindowState) : Prop where
  lease : ∀ s, (φ s).lease = s.lease
  leaseGroup : ∀ s, (φ s).leaseGroup = s.leaseGroup
  expired : ∀ s, s.expired = true → (φ s).expired = true

theorem windowKept_latch : WindowKept fun s => { s with expired := true } :=
  ⟨fun _ => rfl, fun _ => rfl, fun _ _ => rfl⟩

/-- What a match or a call does to a provider, besides what the call is for. -/
structure Touches (K : (Outbound → Outbound) → Prop) : Prop where
  admitsNewFlows : ∀ now, K fun h => (h.admitsNewFlows now).1
  availableForNewFlows : ∀ now, K fun h => (h.availableForNewFlows now).1
  revoke : K fun h => (h.revoke true).1
  dnsFailed : ∀ now, K fun h => h.dnsFailed now

/-- **A preorder that goes up in everything a call is made of**, as long as nothing but `K` happens to
a provider. -/
structure Upward (K : (Outbound → Outbound) → Prop) (R : Box → Box → Prop) : Prop where
  touches : Touches K
  refl : ∀ b, R b b
  trans : ∀ {b b' b''}, R b b' → R b' b'' → R b b''
  setOutbound : ∀ b m {φ}, K φ → R b (b.setOutbound m φ)
  setWindow : ∀ b i {φ}, WindowKept φ → R b (b.setWindow i φ)
  setGroup : ∀ b g {φ}, GroupKept (b.groups g) (φ (b.groups g)) → R b (b.setGroup g φ)

/-- Anything may happen to a provider. -/
theorem touches_true : Touches fun _ => True :=
  ⟨fun _ => trivial, fun _ => trivial, trivial, fun _ => trivial⟩

theorem upward_kept : Upward (fun _ => True) Kept where
  touches := touches_true
  refl := .refl
  trans := .trans
  setOutbound _ _ _ _ := .of_eq rfl fun _ => rfl
  setWindow b i φ hφ := .setWindow b i φ hφ.lease hφ.leaseGroup hφ.expired
  setGroup b g φ hφ := .setGroup b g φ hφ.members

/-- Does a call, if it is for a provider, only do `K` to it? -/
def Call.Within (K : (Outbound → Outbound) → Prop) : Call ρ ω → Prop
  | .outbound _ φ => K φ
  | _ => True

theorem Call.within_true (c : Call ρ ω) : c.Within fun _ => True := by
  cases c <;> trivial

namespace Upward

variable {K : (Outbound → Outbound) → Prop} {R : Box → Box → Prop} (hR : Upward K R) (t : CaseTable) (b : Box) (i : ℕ)
  (clock : MatchClock) (now : Sample)

include hR

theorem latchWindow : R b (b.latchWindow i) := hR.setWindow b i windowKept_latch

theorem catalogCurrent (w : CatalogRuleWindow) : R b (b.catalogCurrent i w now).1 := by
  unfold Box.catalogCurrent
  split
  · exact hR.refl b
  · split
    · exact hR.latchWindow b i
    · exact hR.refl b

theorem active (w : CatalogRuleWindow) : R b (b.active i w clock).1 := by
  have hc := hR.catalogCurrent b i clock.window w
  unfold Box.active
  dsimp only
  split
  · exact hc
  · split
    · exact hc
    · split
      · exact hc
      · exact hR.trans hc (hR.setOutbound _ _ (hR.touches.admitsNewFlows clock.lease))

theorem foldl_check (clock : ℕ → Sample) : ∀ (l : List ℕ) (b : Box),
    R b (l.foldl (fun b m => b.check m (clock m)) b)
  | [], b => hR.refl b
  | m :: l, b => hR.trans (hR.setOutbound b m (hR.touches.availableForNewFlows _)) (foldl_check clock l _)

theorem elim_check (o : Option ℕ) : R b (o.elim b fun m => b.check m now) := by
  cases o
  · exact hR.refl b
  · exact hR.setOutbound b _ (hR.touches.availableForNewFlows now)

theorem selectGroup (g : ℕ) : R b (b.selectGroup g clock).1 := by
  unfold Box.selectGroup
  dsimp only
  exact hR.trans (hR.trans (hR.elim_check b clock.still _) (hR.foldl_check clock.walk _ _))
    (hR.setGroup _ g (groupKept_select ..))

theorem selected : R b (b.selected i clock).1 := by
  unfold Box.selected
  split
  · exact hR.refl b
  · exact hR.selectGroup b clock _

theorem observeScopedBypass (r : WindowedRule ρ ω) (m : InboundContext ρ ω) :
    R b (b.observeScopedBypass t i r m now) := by
  unfold Box.observeScopedBypass
  split
  · split
    · exact hR.setGroup _ _ (.of_same (SameSelection.observeScopedRuleBypass ..))
    · exact hR.refl b
  · exact hR.refl b

theorem matchWindowed (r : WindowedRule ρ ω) (m : InboundContext ρ ω) :
    R b (b.matchWindowed t i r m clock).1 := by
  have ha := hR.active b i clock r.window
  unfold Box.matchWindowed
  dsimp only
  split
  · exact hR.trans ha (hR.observeScopedBypass ..)
  · split
    · exact ha
    · split
      · exact hR.trans ha (hR.observeScopedBypass ..)
      · split
        · exact hR.trans (hR.trans ha (hR.selected ..)) (hR.observeScopedBypass ..)
        · exact hR.trans ha (hR.selected ..)

theorem matchRule (rule : Rule ρ ω) (entry : Entry ω) (m : InboundContext ρ ω) :
    R b (b.matchRule t i rule entry m clock).1 := by
  unfold Box.matchRule
  split
  · split <;> exact hR.refl b
  · split <;> exact hR.refl b
  · split
    · exact hR.refl b
    · exact hR.matchWindowed ..

theorem closeProbe : R b (b.closeProbe i now) := by
  unfold Box.closeProbe
  dsimp only
  split
  · exact hR.trans (hR.trans (hR.latchWindow b i)
      (hR.setGroup _ _ (.of_same (SameSelection.unbindProbeWindow ..))))
      (hR.setWindow _ _ ⟨fun _ => rfl, fun _ => rfl, fun _ => id⟩)
  · exact hR.latchWindow b i

theorem revokeRule (rule : Rule ρ ω) : R b (b.revokeRule i rule now) := by
  unfold Box.revokeRule
  split
  · exact hR.closeProbe b i now
  · exact hR.refl b

theorem revokeRuleService (rule : Rule ρ ω) (serviceID : String) :
    R b (b.revokeRuleService i rule serviceID now) := by
  unfold Box.revokeRuleService
  split
  · dsimp only
    cases ((b.closeProbe i now).windows i).lease
    · exact hR.closeProbe b i now
    · exact hR.trans (hR.closeProbe b i now) (hR.setOutbound _ _ hR.touches.revoke)
  · exact hR.refl b

theorem forRules {f : Box → ℕ → Rule ρ ω → Box} (hf : ∀ b i rule, R b (f b i rule)) :
    ∀ (rules : List (Rule ρ ω)) (i : ℕ) (b : Box), R b (Box.forRules f rules i b)
  | [], _, b => hR.refl b
  | rule :: rules, i, b => hR.trans (hf b i rule) (forRules hf rules (i + 1) _)

theorem smartAccessDNSFailed : R b (b.smartAccessDNSFailed i now) := by
  unfold Box.smartAccessDNSFailed
  split
  · exact hR.trans (hR.setGroup b _ (groupKept_retire ..))
      (hR.setOutbound _ _ (hR.touches.dnsFailed now))
  · exact hR.refl b

/-- **Every call goes up.** -/
theorem call (rules : List (Rule ρ ω)) {c : Call ρ ω} (hc : c.Within K) :
    R b (b.call t rules c).1 := by
  cases c with
  | matchRule i entry m clock =>
    simp only [Box.call]
    split
    · exact hR.refl b
    · exact hR.matchRule ..
  | revokeRoutingCatalog now => exact hR.forRules (fun b i r => hR.revokeRule b i now r) rules 0 b
  | revokeRoutingCatalogService serviceID now =>
    exact hR.forRules (fun b i r => hR.revokeRuleService b i now r serviceID) rules 0 b
  | closeRule i now =>
    simp only [Box.call]
    split
    · exact hR.refl b
    · exact hR.revokeRule ..
  | catalogCurrent i now =>
    simp only [Box.call]
    split
    · exact hR.refl b
    · exact hR.catalogCurrent ..
  | dnsFailed i now => exact hR.smartAccessDNSFailed b i now
  | select g clock => exact hR.selectGroup b clock g
  | outbound m φ => exact hR.setOutbound b m hc

end Upward

/-! ## Windows -/

theorem kept_active (b : Box) (i : ℕ) (w : CatalogRuleWindow) (clock : MatchClock) :
    Kept b (b.active i w clock).1 := upward_kept.active b i clock w

/-! ## Runs -/

variable {t : CaseTable} {rules : List (Rule ρ ω)}

/-- **No call undoes a latch, or gives a window another provider.** -/
theorem kept_call (b : Box) (c : Call ρ ω) : Kept b (b.call t rules c).1 :=
  upward_kept.call t b rules c.within_true

theorem kept_calls : ∀ (l : List (Call ρ ω)) (b : Box), Kept b (b.calls t rules l)
  | [], b => .refl b
  | c :: l, b => (kept_call b c).trans (kept_calls l _)

end Box

end PokrovCore.Route
