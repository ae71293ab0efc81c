import PokrovCore.Foundations.Machine
import PokrovCore.SmartAccess.ServiceGroup

/-!
# SmartAccess/Readiness — a receipt that passes holds when it is read back

A run of a group interleaves the calls of any number of probes with selections, resolver failures,
bypasses, windows that come and go, and readbacks.  What lies outside of the group — the members and
their leases, the registered resolvers, the clock, the contexts — stands in the events, so it may
change arbitrarily between any two of them, and also between two looks of one section.

The invariant is about the receipt there is: its copy of the guard is the group's, it passes only
while the guard is open, and it passes only with the stages that were observed for its own probe.
-/

namespace PokrovCore.SmartAccess

namespace ServiceLeaseGroup

/-! ## What the sections do to the receipt -/

section CloseReadiness

variable (g : ServiceLeaseGroup) (now : Sample)

@[simp] theorem closeReadinessLocked_readiness :
    (g.closeReadinessLocked now).readiness = g.readiness := by
  unfold closeReadinessLocked
  split <;> rfl

@[simp] theorem closeReadinessLocked_probeCount :
    (g.closeReadinessLocked now).probeCount = g.probeCount := by
  unfold closeReadinessLocked
  split <;> rfl

@[simp] theorem closeReadinessLocked_selected :
    (g.closeReadinessLocked now).selected = g.selected := by
  unfold closeReadinessLocked
  split <;> rfl

@[simp] theorem closeReadinessLocked_members :
    (g.closeReadinessLocked now).members = g.members := by
  unfold closeReadinessLocked
  split <;> rfl

@[simp] theorem closeReadinessLocked_dnsFailed :
    (g.closeReadinessLocked now).dnsFailed = g.dnsFailed := by
  unfold closeReadinessLocked
  split <;> rfl

variable {g}

theorem closeReadinessLocked_eq {p : ℕ} (h : g.readiness = some p) :
    g.closeReadinessLocked now =
      { g.modifyProbe p fun probe => failProbe probe now with fallbackGuardClosed := true } := by
  unfold closeReadinessLocked
  rw [h]

theorem closeReadinessLocked_status {p : ℕ} (h : g.readiness = some p) :
    ((g.closeReadinessLocked now).probes p).receipt.status = .failure := by
  rw [closeReadinessLocked_eq now h]
  change (Function.update g.probes p (failProbe (g.probes p) now) p).receipt.status = .failure
  rw [Function.update_self]
  rfl

@[simp] theorem retainResolverDeadlineLocked_readiness (p : ℕ) (c : Findings) :
    (g.retainResolverDeadlineLocked p c now).readiness = g.readiness := by
  unfold retainResolverDeadlineLocked
  split
  · rfl
  · split <;> rfl

end CloseReadiness

/-- **A receipt that passes after a refresh was there before**, and was found to hold. -/
theorem current_of_refresh_pass {g : ServiceLeaseGroup} {c again : Findings} {now : Sample} {p : ℕ}
    (hp : (g.refresh c again now).readiness = some p)
    (hpass : ((g.refresh c again now).probes p).receipt.status = .pass) :
    g.refresh c again now = g ∧
      ((g.probes p).member.isSome → g.readinessCurrentLocked (g.probes p) c = true) := by
  unfold refresh at hp hpass ⊢
  split at hp
  case h_1 hnone => exact absurd (hnone.symm.trans hp) nofun
  case h_2 q hq =>
    rw [hq] at hpass
    dsimp only at hpass ⊢
    split at hp
    case isTrue hc =>
      rw [if_pos hc] at hpass
      obtain rfl : q = p := by simpa [giveUp, hq] using hp
      rw [giveUp, closeReadinessLocked_status now (by simpa using hq)] at hpass
      cases hpass
    case isFalse hc =>
      obtain rfl : q = p := Option.some.inj (hq.symm.trans hp)
      refine ⟨if_neg hc, fun hm => ?_⟩
      simpa [hm] using hc

/-- A readback tells the receipt there is after its refresh. -/
theorem readback_readiness (g : ServiceLeaseGroup) (c again : Findings) (now : Sample)
    (member : Outbound) (available : Bool) :
    (g.readServiceLeaseSelection c again now member available).2.readiness =
      (g.refresh c again now).readiness.map fun p =>
        ((g.refresh c again now).probes p).receipt := by
  unfold readServiceLeaseSelection
  dsimp only
  split <;> rfl

/-- The guard of the second group is closed if that of the first is. -/
def GuardLe (g g' : ServiceLeaseGroup) : Prop :=
  g.fallbackGuardClosed = true → g'.fallbackGuardClosed = true

section Guard

variable (g : ServiceLeaseGroup) (c again : Findings) (p : ℕ) (now : Sample)

theorem guardLe_close : GuardLe g (g.closeReadinessLocked now) := by
  intro h
  unfold closeReadinessLocked
  split
  · exact h
  · rfl

theorem guardLe_giveUp : GuardLe g (g.giveUp p c now) := by
  intro h
  refine guardLe_close _ now ?_
  unfold retainResolverDeadlineLocked
  split
  · exact h
  · split <;> exact h

theorem guardLe_begin : GuardLe g (g.beginReadiness c now) := by
  intro h
  change (g.settlePrevious c now).fallbackGuardClosed = true
  unfold settlePrevious
  split
  · exact h
  · split
    · exact guardLe_close g now h
    · exact h

theorem guardLe_ite_modify {P : Prop} [Decidable P]
    {φ : ServiceReadinessProbe → ServiceReadinessProbe} :
    GuardLe g (if P then g.modifyProbe p φ else g) := by
  intro h
  split <;> exact h

theorem guardLe_observe (stage : ServiceReadinessStage) (ctxErr : Option ContextError) :
    GuardLe g (g.observeReadiness p stage ctxErr c again now) := by
  intro h
  unfold observeReadiness
  split
  · exact h
  · split
    · exact guardLe_giveUp g again p now h
    · dsimp only
      split
      · exact guardLe_close _ now h
      · exact h

theorem guardLe_finish (failed : Bool) (ctxErr : Option ContextError) :
    GuardLe g (g.finishReadiness p failed ctxErr c again now) := by
  intro h
  unfold finishReadiness
  split
  · exact h
  · split
    · exact guardLe_giveUp g again p now h
    · exact h

theorem guardLe_refresh : GuardLe g (g.refresh c again now) := by
  intro h
  unfold refresh
  split
  · exact h
  · split
    · exact guardLe_giveUp g again _ now h
    · exact h

/-- A section that closes the guard under a condition, and then changes something else. -/
theorem guardLe_ite_close {P : Prop} [Decidable P] :
    GuardLe g (if P then g.closeReadinessLocked now else g) := by
  intro h
  split
  · exact guardLe_close g now h
  · exact h

theorem guardLe_unbind : GuardLe g (g.unbindProbeWindow p now) := by
  intro h
  unfold unbindProbeWindow
  split
  · exact h
  · exact guardLe_ite_close g now h

end Guard

end ServiceLeaseGroup

/-! ## Runs -/

/-- Where the calls of a probe stand. -/
inductive ProbePc
  | idle
  | begun
  | bound
  | finished
  deriving DecidableEq, Repr

/-- **A group in use**: `observed` lists the observations made so far, with their probes. -/
structure GroupRun where
  group : ServiceLeaseGroup
  pc : ℕ → ProbePc
  observed : List (ℕ × ServiceReadinessStage)

/-- One critical section of the group, with what it finds.  The calls of a probe name it. -/
inductive GroupEvent
  | begin (c : Findings) (now : Sample)
  | bind (p member : ℕ) (leaseID : String) (transport manager : Option ℕ)
  | beginLookup (p : ℕ) (c : Findings) (now : Sample)
  | finishLookup (p : ℕ) (ctxErr : Option ContextError)
  | observe (p : ℕ) (stage : StageName) (observedAt : Sample) (duration : ℤ)
      (err : Option String) (ctxErr : Option ContextError) (c again : Findings) (now : Sample)
  | finish (p : ℕ) (failed : Bool) (ctxErr : Option ContextError) (c again : Findings)
      (now : Sample)
  | select (still : Outbound × Sample) (walk : ℕ → Outbound × Sample) (now : Sample)
  | dnsFailed (member : ℕ) (now : Sample)
  | bypass (member : ℕ) (outside : Outbound) (name : String) (now : Sample)
  | bindWindow (window : ServiceProbeWindow)
  | unbindWindow (w : ℕ) (now : Sample)
  | readback (c again : Findings) (now : Sample) (member : Outbound) (available : Bool)

/-- What a section returns. -/
inductive GroupAnswer
  | done
  | member (selected : Option ℕ)
  | row (selection : ServiceLeaseSelection)

/-- The probe a call is made for. -/
def GroupEvent.probe? : GroupEvent → Option ℕ
  | .bind p .. | .beginLookup p .. | .finishLookup p .. | .observe p .. | .finish p .. => some p
  | _ => none

namespace GroupRun

/-- A group at the start of its life. -/
def start (serviceID : String) (members : List ℕ) : GroupRun :=
  ⟨newServiceLeaseGroup serviceID members, fun _ => .idle, []⟩

/-- A section that is not a probe's. -/
def put (w : GroupRun) (g : ServiceLeaseGroup) : GroupRun := { w with group := g }

/-- A section of a probe, which is then at `pc`. -/
def putAt (w : GroupRun) (g : ServiceLeaseGroup) (p : ℕ) (pc : ProbePc) : GroupRun :=
  { w with group := g, pc := Function.update w.pc p pc }

/-- **One event.**  A probe begins, is bound at most once, observes while it is bound, and ends. -/
def step (w : GroupRun) : GroupEvent → Option (GroupRun × GroupAnswer)
  | .begin c now =>
    some (w.putAt (w.group.beginReadiness c now) w.group.probeCount .begun, .done)
  | .bind p member leaseID transport manager =>
    if w.pc p = .begun then
      some (w.putAt (w.group.bindReadiness p member leaseID transport manager) p .bound, .done)
    else none
  | .beginLookup p c now =>
    if w.pc p = .bound then some (w.put (w.group.beginResolverLookup p c now), .done) else none
  | .finishLookup p ctxErr =>
    if w.pc p = .bound then some (w.put (w.group.finishResolverLookup p ctxErr), .done) else none
  | .observe p stage observedAt duration err ctxErr c again now =>
    if w.pc p = .bound then
      let stage := ServiceLeaseGroup.observedStage stage observedAt duration err
      some ({ w with
        group := w.group.observeReadiness p stage ctxErr c again now
        observed := (p, stage) :: w.observed }, .done)
    else none
  | .finish p failed ctxErr c again now =>
    if w.pc p = .begun ∨ w.pc p = .bound then
      some (w.putAt (w.group.finishReadiness p failed ctxErr c again now) p .finished, .done)
    else none
  | .select still walk now =>
    let r := w.group.select (ServiceLeaseGroup.availableNow still)
      (fun m => ServiceLeaseGroup.availableNow (walk m)) now
    some (w.put r.1, .member r.2)
  | .dnsFailed member now => some (w.put (w.group.retire member now), .done)
  | .bypass member outside name now =>
    some (w.put (w.group.observeScopedRuleBypass member outside name now), .done)
  | .bindWindow window => some (w.put (w.group.bindProbeWindow window).1, .done)
  | .unbindWindow i now => some (w.put (w.group.unbindProbeWindow i now), .done)
  | .readback c again now member available =>
    let r := w.group.readServiceLeaseSelection c again now member available
    some (w.put r.1, .row r.2)

/-- The machine of one group. -/
def machine : Machine GroupRun GroupEvent GroupAnswer := ⟨step⟩

end GroupRun

/-! ## What a receipt is bound to -/

/-- **A receipt is bound to the present**: the member its probe is bound to is the selected one, has
the receipt's lease and admits under it; the probe's resolver is the registered one; and the member
has an active window for names with that resolver, and one for routes. -/
structure BoundNow (g : ServiceLeaseGroup) (probe : ServiceReadinessProbe) (c : Findings)
    (member transport manager : ℕ) : Prop where
  member_eq : probe.member = some member
  transport_eq : probe.transport = some transport
  manager_eq : probe.manager = some manager
  selected : g.selectedMember = some member
  leaseID : (c.outbound member).leaseID = probe.receipt.leaseID
  admits : ((c.outbound member).admitsNewFlows c.now).2 = true
  registered : c.registered manager transport = some transport
  dnsWindow : ∃ w ∈ g.probeWindows, w.2.member = member ∧ c.active w.1 = true ∧ w.2.dns = true ∧
    w.2.transport = some transport
  routeWindow : ∃ w ∈ g.probeWindows, w.2.member = member ∧ c.active w.1 = true ∧ w.2.dns = false

/-- The check of a receipt asks exactly that. -/
theorem boundNow_of_current {g : ServiceLeaseGroup} {probe : ServiceReadinessProbe} {c : Findings}
    (h : g.readinessCurrentLocked probe c = true) :
    ∃ member transport manager, BoundNow g probe c member transport manager := by
  have hb : g.readinessBindingCurrentLocked probe c = true := (Bool.and_eq_true_iff.mp h).2
  have hm := (Bool.and_eq_true_iff.mp hb).2
  split at hm
  case h_2 => cases hm
  case h_1 member manager transport hmember hmanager htransport =>
    simp only [Bool.and_eq_true, beq_iff_eq, ServiceLeaseGroup.dnsWindow,
      ServiceLeaseGroup.routeWindow, List.any_eq_true, Bool.not_eq_true', and_assoc] at hm
    obtain ⟨hselected, hlease, hregistered, hdns, hroute⟩ := hm
    have hid : (c.outbound member).current.id = probe.receipt.leaseID := by
      by_contra hne
      rw [Outbound.readinessCurrent, if_neg hne] at hlease
      cases hlease
    rw [Outbound.readinessCurrent, if_pos hid] at hlease
    exact ⟨member, transport, manager, hmember, htransport, hmanager, hselected, hid, hlease,
      hregistered, hdns, hroute⟩

/-! ## The receipt there is -/

/-- **What holds of a receipt**, by the guard of its group, where its probe stands and what was
observed for it. -/
structure Backed (probe : ServiceReadinessProbe) (guard : Bool) (pc : ProbePc)
    (seen : ServiceReadinessStage → Prop) : Prop where
  guard_eq : probe.receipt.fallbackGuardClosed = guard
  pass : probe.receipt.status = .pass → guard = false ∧ pc = .finished ∧
    ServiceLeaseGroup.passedStages probe.receipt.stages = true ∧ probe.member.isSome
  seen_of_mem : ∀ stage ∈ probe.receipt.stages, stage.result = .pass → seen stage

namespace Backed

variable {probe : ServiceReadinessProbe} {guard : Bool} {pc : ProbePc}
  {seen seen' : ServiceReadinessStage → Prop}

/-- A failed receipt claims nothing. -/
theorem fail (h : Backed probe guard pc seen) (now : Sample) :
    Backed (ServiceLeaseGroup.failProbe probe now) true pc seen where
  guard_eq := rfl
  pass hpass := nomatch hpass
  seen_of_mem := h.seen_of_mem

theorem mono (h : Backed probe guard pc seen) (hs : ∀ stage, seen stage → seen' stage) :
    Backed probe guard pc seen' :=
  ⟨h.guard_eq, h.pass, fun stage hm hp => hs stage (h.seen_of_mem stage hm hp)⟩

/-- While the probe has not ended, its receipt does not pass. -/
theorem not_pass (h : Backed probe guard pc seen) (hpc : pc ≠ .finished) :
    probe.receipt.status ≠ .pass :=
  fun hpass => hpc (h.pass hpass).2.1

end Backed

/-- **The invariant of a group**: a closed guard has a receipt to tell it, and the receipt there is
is backed. -/
def Sound (g : ServiceLeaseGroup) (pc : ℕ → ProbePc)
    (observed : List (ℕ × ServiceReadinessStage)) : Prop :=
  (g.fallbackGuardClosed = true → g.readiness.isSome) ∧
    ∀ p, g.readiness = some p → p < g.probeCount ∧
      Backed (g.probes p) g.fallbackGuardClosed (pc p) fun stage => (p, stage) ∈ observed

namespace Sound

variable {g : ServiceLeaseGroup} {pc pc' : ℕ → ProbePc}
  {observed observed' : List (ℕ × ServiceReadinessStage)} {p : ℕ}
  {φ : ServiceReadinessProbe → ServiceReadinessProbe}

/-- The receipt of the current probe may be replaced by one that is backed. -/
theorem modifyProbe (h : Sound g pc observed) (hp : g.readiness = some p)
    (hb : Backed (φ (g.probes p)) g.fallbackGuardClosed (pc' p) fun stage =>
      (p, stage) ∈ observed') :
    Sound (g.modifyProbe p φ) pc' observed' := by
  refine ⟨h.1, fun q hq => ?_⟩
  obtain rfl : p = q := Option.some.inj (hp.symm.trans hq)
  refine ⟨(h.2 p hp).1, ?_⟩
  have hprobe : (g.modifyProbe p φ).probes p = φ (g.probes p) := Function.update_self ..
  rw [hprobe]
  exact hb

/-- **Closing the guard keeps the invariant.** -/
theorem close (h : Sound g pc observed) (now : Sample) :
    Sound (g.closeReadinessLocked now) pc observed := by
  cases hp : g.readiness with
  | none =>
    have : g.closeReadinessLocked now = g := by
      unfold ServiceLeaseGroup.closeReadinessLocked
      rw [hp]
    rwa [this]
  | some p =>
    rw [ServiceLeaseGroup.closeReadinessLocked_eq now hp]
    refine ⟨fun _ => Option.isSome_of_eq_some hp, fun q hq => ?_⟩
    obtain rfl : p = q := Option.some.inj (hp.symm.trans hq)
    refine ⟨(h.2 p hp).1, ?_⟩
    have hprobe : (g.modifyProbe p fun probe => ServiceLeaseGroup.failProbe probe now).probes p =
        ServiceLeaseGroup.failProbe (g.probes p) now := Function.update_self ..
    rw [hprobe]
    exact (h.2 p hp).2.fail now

/-- A failed stage that was retained was not observed, and claims nothing. -/
theorem retain (h : Sound g pc observed) (hp : g.readiness = some p) (c : Findings) (now : Sample) :
    Sound (g.retainResolverDeadlineLocked p c now) pc observed := by
  unfold ServiceLeaseGroup.retainResolverDeadlineLocked
  split
  · exact h
  · split
    case isTrue hc =>
      refine h.modifyProbe hp ⟨(h.2 p hp).2.guard_eq, fun hpass => ?_, fun stage hm hr => ?_⟩
      · have : (g.probes p).receipt.status = .pass := hpass
        rw [hc.2.1] at this
        cases this
      · rw [List.mem_singleton.mp hm] at hr
        cases hr
    case isFalse => exact h

theorem giveUp (h : Sound g pc observed) (hp : g.readiness = some p) (c : Findings) (now : Sample) :
    Sound (g.giveUp p c now) pc observed :=
  (h.retain hp c now).close now

/-- A call for a superseded probe is none of the receipt's business. -/
theorem superseded (h : Sound g pc observed) (ho : observed ⊆ observed')
    (hpc : ∀ p, g.readiness = some p → pc' p = pc p) : Sound g pc' observed' := by
  refine ⟨h.1, fun p hp => ⟨(h.2 p hp).1, ?_⟩⟩
  rw [hpc p hp]
  exact (h.2 p hp).2.mono fun stage hs => ho hs

theorem beginReadiness (h : Sound g pc observed) (c : Findings) (now : Sample) :
    Sound (g.beginReadiness c now) (Function.update pc g.probeCount .begun) observed := by
  refine ⟨fun _ => rfl, fun p hp => ?_⟩
  have hcount : (g.settlePrevious c now).probeCount = g.probeCount := by
    unfold ServiceLeaseGroup.settlePrevious
    split
    · rfl
    · split <;> simp
  obtain rfl : (g.settlePrevious c now).probeCount = p := Option.some.inj hp
  refine ⟨Nat.lt_succ_self _, ?_⟩
  have hprobe : (g.beginReadiness c now).probes (g.settlePrevious c now).probeCount = _ :=
    Function.update_self ..
  rw [hprobe]
  exact ⟨rfl, nofun, nofun⟩

/-- A change of the current probe that leaves its receipt as it was, but for the lease. -/
theorem keepReceipt (h : Sound g pc observed) (hp : g.readiness = some p) (hpc : pc p ≠ .finished)
    (hg : ∀ q, (φ q).receipt.fallbackGuardClosed = q.receipt.fallbackGuardClosed)
    (hs : ∀ q, (φ q).receipt.status = q.receipt.status)
    (hst : ∀ q, (φ q).receipt.stages = q.receipt.stages) :
    Sound (g.modifyProbe p φ) pc' observed := by
  have hb := (h.2 p hp).2
  refine h.modifyProbe hp ⟨(hg _).trans hb.guard_eq, fun hpass => ?_, fun stage hm hr => ?_⟩
  · exact absurd ((hs _).symm.trans hpass) (hb.not_pass hpc)
  · exact hb.seen_of_mem stage (hst _ ▸ hm) hr

theorem bindReadiness (h : Sound g pc observed) (hpc : pc p = .begun) (member : ℕ)
    (leaseID : String) (transport manager : Option ℕ) :
    Sound (g.bindReadiness p member leaseID transport manager) (Function.update pc p .bound)
      observed := by
  unfold ServiceLeaseGroup.bindReadiness
  split
  case isTrue hp =>
    exact h.keepReceipt hp (by simp [hpc]) (fun _ => rfl) (fun _ => rfl) fun _ => rfl
  case isFalse hp =>
    exact h.superseded (List.Subset.refl _) fun q hq =>
      Function.update_of_ne (fun hqp : q = p => hp (hqp ▸ hq)) _ _

theorem lookup (h : Sound g pc observed) (hpc : pc p = .bound) {P : Prop} [Decidable P]
    (hP : P → g.readiness = some p) (at? : Option Sample) :
    Sound (if P then g.modifyProbe p fun q => { q with resolverLookupStartedAt := at? } else g) pc
      observed := by
  split
  case isTrue hc =>
    exact h.keepReceipt (hP hc) (by simp [hpc]) (fun _ => rfl) (fun _ => rfl) fun _ => rfl
  case isFalse => exact h

theorem observeReadiness (h : Sound g pc observed) (hpc : pc p = .bound)
    (stage : ServiceReadinessStage) (ctxErr : Option ContextError) (c again : Findings)
    (now : Sample) :
    Sound (g.observeReadiness p stage ctxErr c again now) pc ((p, stage) :: observed) := by
  have h' : Sound g pc ((p, stage) :: observed) :=
    h.superseded (List.subset_cons_self _ _) fun _ _ => rfl
  unfold ServiceLeaseGroup.observeReadiness
  split
  · exact h'
  case isFalse hp =>
    have hp := not_not.mp hp
    split
    · exact h'.giveUp hp again now
    · have hb := (h'.2 p hp).2
      have happend : Sound (g.modifyProbe p fun probe =>
          { probe with receipt := { probe.receipt with
            stages := probe.receipt.stages ++ [stage] } }) pc ((p, stage) :: observed) := by
        refine h'.modifyProbe hp ⟨hb.guard_eq, fun hpass => ?_, fun st hm hr => ?_⟩
        · exact absurd hpass (hb.not_pass (by simp [hpc]))
        · obtain hm | hm := List.mem_append.mp hm
          · exact hb.seen_of_mem st hm hr
          · rw [List.mem_singleton.mp hm]
            exact List.mem_cons_self
      dsimp only
      split
      · exact happend.close now
      · exact happend

theorem finishReadiness (h : Sound g pc observed) (p : ℕ) (failed : Bool)
    (ctxErr : Option ContextError) (c again : Findings) (now : Sample) :
    Sound (g.finishReadiness p failed ctxErr c again now) (Function.update pc p .finished)
      observed := by
  by_cases hp : g.readiness = some p
  case neg =>
    rw [ServiceLeaseGroup.finishReadiness, if_pos hp]
    exact h.superseded (List.Subset.refl _) fun q hq =>
      Function.update_of_ne (fun hqp : q = p => hp (hqp ▸ hq)) _ _
  case pos =>
    have hb := (h.2 p hp).2
    rw [ServiceLeaseGroup.finishReadiness, if_neg (not_not.mpr hp)]
    split
    case isTrue =>
      -- the end of a probe that passes would be the second one
      have h' : Sound g (Function.update pc p .finished) observed := by
        refine ⟨h.1, fun q hq => ⟨(h.2 q hq).1, ?_⟩⟩
        obtain rfl : p = q := Option.some.inj (hp.symm.trans hq)
        rw [Function.update_self]
        exact ⟨hb.guard_eq, fun hpass => ⟨(hb.pass hpass).1, rfl, (hb.pass hpass).2.2⟩,
          hb.seen_of_mem⟩
      exact h'.giveUp hp again now
    case isFalse hc =>
      simp only [Bool.or_eq_true, not_or, Bool.not_eq_true, Bool.not_eq_false'] at hc
      obtain ⟨⟨⟨_, hopen⟩, hcurrent⟩, hstages⟩ := hc
      obtain ⟨member, _, _, hbound⟩ := boundNow_of_current hcurrent
      refine h.modifyProbe hp ⟨hb.guard_eq, fun _ => ⟨hopen, ?_, hstages, ?_⟩, hb.seen_of_mem⟩
      · exact Function.update_self ..
      · exact Option.isSome_of_eq_some hbound.member_eq

theorem refresh (h : Sound g pc observed) (c again : Findings) (now : Sample) :
    Sound (g.refresh c again now) pc observed := by
  unfold ServiceLeaseGroup.refresh
  split
  · exact h
  case h_2 p hp =>
    split
    · exact h.giveUp hp again now
    · exact h

/-- A section that closes the guard under a condition. -/
theorem ite_close (h : Sound g pc observed) {P : Prop} [Decidable P] (now : Sample) :
    Sound (if P then g.closeReadinessLocked now else g) pc observed := by
  split
  · exact h.close now
  · exact h

theorem unbindProbeWindow (h : Sound g pc observed) (w : ℕ) (now : Sample) :
    Sound (g.unbindProbeWindow w now) pc observed := by
  unfold ServiceLeaseGroup.unbindProbeWindow
  split
  · exact h
  · exact h.ite_close now

end Sound

/-! ## Whole runs -/

namespace GroupRun

variable {w w' : GroupRun} {e : GroupEvent} {o : GroupAnswer}

/-- The invariant, of a run. -/
abbrev Sound (w : GroupRun) : Prop := SmartAccess.Sound w.group w.pc w.observed

theorem sound_start (serviceID : String) (members : List ℕ) : (start serviceID members).Sound :=
  ⟨nofun, nofun⟩

/-- **Every event keeps the invariant.** -/
theorem sound_step (h : w.Sound) (hs : w.step e = some (w', o)) : w'.Sound := by
  cases e with
  | begin c now =>
    obtain rfl := Machine.state_eq hs
    exact h.beginReadiness c now
  | bind p member leaseID transport manager =>
    obtain ⟨hpc, rfl⟩ := Machine.guarded hs
    exact h.bindReadiness hpc member leaseID transport manager
  | beginLookup p c now =>
    obtain ⟨hpc, rfl⟩ := Machine.guarded hs
    exact h.lookup hpc (fun hc => hc.1) (some now)
  | finishLookup p ctxErr =>
    obtain ⟨hpc, rfl⟩ := Machine.guarded hs
    exact h.lookup hpc (fun hc => hc.1) none
  | observe p stage observedAt duration err ctxErr c again now =>
    obtain ⟨hpc, rfl⟩ := Machine.guarded hs
    exact h.observeReadiness hpc _ ctxErr c again now
  | finish p failed ctxErr c again now =>
    obtain ⟨_, rfl⟩ := Machine.guarded hs
    exact h.finishReadiness p failed ctxErr c again now
  | select still walk now =>
    obtain rfl := Machine.state_eq hs
    -- the selection itself is not the receipt's business
    exact SmartAccess.Sound.ite_close (g := { w.group with evaluated := true, selected := _ }) h now
  | dnsFailed member now =>
    obtain rfl := Machine.state_eq hs
    exact h.ite_close now
  | bypass member outside name now =>
    obtain rfl := Machine.state_eq hs
    exact h.ite_close now
  | bindWindow window =>
    obtain rfl := Machine.state_eq hs
    exact h
  | unbindWindow i now =>
    obtain rfl := Machine.state_eq hs
    exact h.unbindProbeWindow i now
  | readback c again now member available =>
    obtain rfl := Machine.state_eq hs
    exact h.refresh c again now

/-- **No event opens a closed guard.** -/
theorem guardLe_step (hs : w.step e = some (w', o)) :
    ServiceLeaseGroup.GuardLe w.group w'.group := by
  cases e with
  | begin c now =>
    obtain rfl := Machine.state_eq hs
    exact ServiceLeaseGroup.guardLe_begin _ c now
  | bind p member leaseID transport manager =>
    obtain ⟨-, rfl⟩ := Machine.guarded hs
    exact ServiceLeaseGroup.guardLe_ite_modify _ p
  | beginLookup p c now =>
    obtain ⟨-, rfl⟩ := Machine.guarded hs
    exact ServiceLeaseGroup.guardLe_ite_modify _ p
  | finishLookup p ctxErr =>
    obtain ⟨-, rfl⟩ := Machine.guarded hs
    exact ServiceLeaseGroup.guardLe_ite_modify _ p
  | observe p stage observedAt duration err ctxErr c again now =>
    obtain ⟨-, rfl⟩ := Machine.guarded hs
    exact ServiceLeaseGroup.guardLe_observe _ c again p now _ ctxErr
  | finish p failed ctxErr c again now =>
    obtain ⟨-, rfl⟩ := Machine.guarded hs
    exact ServiceLeaseGroup.guardLe_finish _ c again p now failed ctxErr
  | select still walk now =>
    obtain rfl := Machine.state_eq hs
    exact ServiceLeaseGroup.guardLe_ite_close { w.group with evaluated := true, selected := _ } now
  | dnsFailed member now =>
    obtain rfl := Machine.state_eq hs
    exact ServiceLeaseGroup.guardLe_ite_close _ now
  | bypass member outside name now =>
    obtain rfl := Machine.state_eq hs
    exact ServiceLeaseGroup.guardLe_ite_close _ now
  | bindWindow window =>
    obtain rfl := Machine.state_eq hs
    exact id
  | unbindWindow i now =>
    obtain rfl := Machine.state_eq hs
    exact ServiceLeaseGroup.guardLe_unbind _ i now
  | readback c again now member available =>
    obtain rfl := Machine.state_eq hs
    exact ServiceLeaseGroup.guardLe_refresh _ c again now

/-- **A call for a superseded probe changes nothing of the group.** -/
theorem group_eq_of_superseded {p : ℕ} (hp : e.probe? = some p) (hne : w.group.readiness ≠ some p)
    (hs : w.step e = some (w', o)) : w'.group = w.group := by
  cases e with
  | bind q member leaseID transport manager =>
    obtain ⟨-, rfl⟩ := Machine.guarded hs
    obtain rfl : q = p := Option.some.inj hp
    exact if_neg hne
  | beginLookup q c now =>
    obtain ⟨-, rfl⟩ := Machine.guarded hs
    obtain rfl : q = p := Option.some.inj hp
    exact if_neg fun hc => hne hc.1
  | finishLookup q ctxErr =>
    obtain ⟨-, rfl⟩ := Machine.guarded hs
    obtain rfl : q = p := Option.some.inj hp
    exact if_neg fun hc => hne hc.1
  | observe q stage observedAt duration err ctxErr c again now =>
    obtain ⟨-, rfl⟩ := Machine.guarded hs
    obtain rfl : q = p := Option.some.inj hp
    exact if_pos hne
  | finish q failed ctxErr c again now =>
    obtain ⟨-, rfl⟩ := Machine.guarded hs
    obtain rfl : q = p := Option.some.inj hp
    exact if_pos hne
  | _ => cases hp

theorem sound_of_reaches {v : GroupRun} (r : machine.Reaches w v) (h : w.Sound) : v.Sound :=
  r.invariant (P := Sound) (fun _ _ _ _ _ hs ha => sound_step ha hs) h

theorem guardLe_of_reaches {v : GroupRun} (r : machine.Reaches w v) :
    ServiceLeaseGroup.GuardLe w.group v.group :=
  r.rel (R := fun a b => ServiceLeaseGroup.GuardLe a.group b.group) (fun _ h => h)
    (fun _ _ _ hab hbc h => hbc (hab h)) fun _ _ _ _ _ hs => guardLe_step hs

variable {row : ServiceLeaseSelection} {member : Outbound} {available : Bool} {now : Sample}

/-- A readback, by what it leaves and what it tells. -/
theorem readback_cases {c again : Findings}
    (hs : w.step (.readback c again now member available) = some (w', .row row)) :
    w' = w.put (w.group.refresh c again now) ∧
      row.readiness = w'.group.readiness.map fun p => (w'.group.probes p).receipt := by
  obtain ⟨rfl, hrow⟩ := Prod.mk.inj (Option.some.inj hs)
  obtain rfl := GroupAnswer.row.inj hrow
  exact ⟨rfl, w.group.readback_readiness c again now member available⟩

variable {receipt : ServiceReadiness}

/-- What a readback that passes tells: the guard is open, and the receipt is that of a probe whose
stages were observed for it and that is bound to the present. -/
theorem backed_of_pass (h : w.Sound) {c again : Findings}
    (hs : w.step (.readback c again now member available) = some (w', .row row))
    (hr : row.readiness = some receipt) (hpass : receipt.status = .pass) :
    w'.group.fallbackGuardClosed = false ∧
      ∃ p, w'.group.readiness = some p ∧ (w'.group.probes p).receipt = receipt ∧
        receipt.stages.map (fun s => (s.stage, s.result)) =
          [(.resolver, .pass), (.dns, .pass), (.tls, .pass)] ∧
        (∀ stage ∈ receipt.stages, (p, stage) ∈ w'.observed) ∧
        ∃ m transport manager,
          BoundNow w'.group (w'.group.probes p) c m transport manager := by
  obtain ⟨rfl, hreadiness⟩ := readback_cases hs
  obtain ⟨p, hp, hreceipt⟩ := Option.map_eq_some_iff.mp (hreadiness.symm.trans hr)
  have hb := ((SmartAccess.Sound.refresh h c again now).2 p hp).2
  obtain ⟨heq, hcurrent⟩ :=
    ServiceLeaseGroup.current_of_refresh_pass hp ((congrArg (·.status) hreceipt).trans hpass)
  obtain ⟨hopen, -, hstages, hmember⟩ := hb.pass ((congrArg (·.status) hreceipt).trans hpass)
  have hshape : receipt.stages.map (fun s => (s.stage, s.result)) =
      [(.resolver, .pass), (.dns, .pass), (.tls, .pass)] := by
    rw [← hreceipt]
    exact beq_iff_eq.mp hstages
  refine ⟨hopen, p, hp, hreceipt, hshape, fun stage hm => ?_, ?_⟩
  · refine hb.seen_of_mem stage (hreceipt.symm ▸ hm) ?_
    have hpair := List.mem_map_of_mem (f := fun s => (s.stage, s.result)) hm
    rw [hshape] at hpair
    exact (by decide : ∀ q ∈ [(StageName.resolver, StageResult.pass), (.dns, .pass),
      (.tls, .pass)], q.2 = StageResult.pass) _ hpair
  · rw [heq] at hmember
    rw [show (w.put (w.group.refresh c again now)).group = w.group from heq]
    exact boundNow_of_current (hcurrent hmember)

/-- While the guard is closed, a readback tells so, and does not pass. -/
theorem closed_of_guard (h : w.Sound) (hg : w.group.fallbackGuardClosed = true) {c again : Findings}
    (hs : w.step (.readback c again now member available) = some (w', .row row)) :
    ∃ receipt, row.readiness = some receipt ∧ receipt.fallbackGuardClosed = true ∧
      receipt.status ≠ .pass := by
  have hg' := guardLe_step hs hg
  obtain ⟨hsome, hbacked⟩ := sound_step h hs
  obtain ⟨p, hp⟩ := Option.isSome_iff_exists.mp (hsome hg')
  obtain ⟨-, hreadiness⟩ := readback_cases hs
  have hb := (hbacked p hp).2
  refine ⟨(w'.group.probes p).receipt, by rw [hreadiness, hp]; rfl, hb.guard_eq.trans hg', ?_⟩
  intro hpass
  exact absurd ((hb.pass hpass).1.symm.trans hg') nofun

/-- A readback that tells a closed guard leaves one. -/
theorem guard_of_closed (h : w.Sound) {c again : Findings}
    (hs : w.step (.readback c again now member available) = some (w', .row row))
    (hr : row.readiness = some receipt) (hclosed : receipt.fallbackGuardClosed = true) :
    w'.group.fallbackGuardClosed = true := by
  obtain ⟨-, hreadiness⟩ := readback_cases hs
  obtain ⟨p, hp, rfl⟩ := Option.map_eq_some_iff.mp (hreadiness.symm.trans hr)
  exact ((sound_step h hs).2 p hp).2.guard_eq.symm.trans hclosed

/-- **A readiness pass is backed by the current binding.**  In every run of a group: a readback that
passes comes before the guard was ever closed, with the three stages that were observed for its own
probe, bound to the present; after a readback of a closed guard, every one tells it closed and none
passes; and a call for a superseded probe changes nothing of the group. -/
theorem readiness_pass_backed (serviceID : String) (members : List ℕ) (w : GroupRun)
    (r : machine.Reaches (start serviceID members) w) :
    (∀ c again now member available w' row receipt,
      w.step (.readback c again now member available) = some (w', .row row) →
      row.readiness = some receipt → receipt.status = .pass →
      (∀ v, machine.Reaches (start serviceID members) v → machine.Reaches v w' →
        v.group.fallbackGuardClosed = false) ∧
      ∃ p, w'.group.readiness = some p ∧ (w'.group.probes p).receipt = receipt ∧
        receipt.stages.map (fun s => (s.stage, s.result)) =
          [(.resolver, .pass), (.dns, .pass), (.tls, .pass)] ∧
        (∀ stage ∈ receipt.stages, (p, stage) ∈ w'.observed) ∧
        ∃ m transport manager,
          BoundNow w'.group (w'.group.probes p) c m transport manager) ∧
    (∀ c again now member available w' row receipt,
      w.step (.readback c again now member available) = some (w', .row row) →
      row.readiness = some receipt → receipt.fallbackGuardClosed = true →
      ∀ v, machine.Reaches w' v → ∀ c again now member available v' later,
        v.step (.readback c again now member available) = some (v', .row later) →
        ∃ receipt', later.readiness = some receipt' ∧ receipt'.fallbackGuardClosed = true ∧
          receipt'.status ≠ .pass) ∧
    ∀ p e w' o, e.probe? = some p → w.group.readiness ≠ some p → w.step e = some (w', o) →
      w'.group = w.group := by
  have h : w.Sound := sound_of_reaches r (sound_start serviceID members)
  refine ⟨fun c again now member available w' row receipt hs hr hpass => ?_,
    fun c again now member available w' row receipt hs hr hclosed v rv c₁ again₁ now₁ member₁
      available₁ v' later hs₁ => ?_,
    fun p e w' o hp hne hs => group_eq_of_superseded hp hne hs⟩
  · obtain ⟨hopen, hbacked⟩ := backed_of_pass h hs hr hpass
    refine ⟨fun v _ rv => ?_, hbacked⟩
    exact Bool.eq_false_of_not_eq_true fun hv =>
      absurd (hopen.symm.trans (guardLe_of_reaches rv hv)) nofun
  · have hg := guardLe_of_reaches rv (guard_of_closed h hs hr hclosed)
    exact closed_of_guard (sound_of_reaches rv (sound_step h hs)) hg hs₁

/-- A check that finds everything in place. -/
def sampleFindings : Findings where
  ownerDone := false
  ctxErr := none
  outbound := fun _ => sampleOutbound
  now := sampleClock
  registered := fun _ transport => some transport
  active := fun _ => true

/-- One provider, both of its windows, and a probe that observes its three stages. -/
def sampleProbe : List GroupEvent :=
  [.bindWindow ⟨0, true, some 7⟩, .bindWindow ⟨0, false, none⟩, .begin sampleFindings sampleClock,
    .select (sampleOutbound, sampleClock) (fun _ => (sampleOutbound, sampleClock)) sampleClock,
    .bind 0 0 sampleLease.id (some 7) (some 1)] ++
  [StageName.resolver, .dns, .tls].map (fun stage => .observe 0 stage sampleClock 0 none none
    sampleFindings sampleFindings sampleClock) ++
  [.finish 0 false none sampleFindings sampleFindings sampleClock]

/-- The sample probe passes: its readback is backed, and never was the guard closed. -/
theorem readiness_pass_backed_sample :
    ∃ w w' row receipt, machine.Reaches (start "video" [0]) w ∧
      w.step (.readback sampleFindings sampleFindings sampleClock sampleOutbound true) =
        some (w', .row row) ∧
      row.readiness = some receipt ∧ receipt.status = .pass ∧
      ∃ p m transport manager,
        BoundNow w'.group (w'.group.probes p) sampleFindings m transport manager := by
  have hrun : ((machine.run (start "video" [0]) sampleProbe).map fun w =>
      ((w.group.readServiceLeaseSelection sampleFindings sampleFindings sampleClock sampleOutbound
        true).2.readiness.map (·.status))) = some (some .pass) := by decide +kernel
  obtain ⟨w, hw, hpass⟩ := Option.map_eq_some_iff.mp hrun
  obtain ⟨receipt, hreceipt, hstatus⟩ := Option.map_eq_some_iff.mp hpass
  have r := Machine.reaches_run hw
  have hs : w.step (.readback sampleFindings sampleFindings sampleClock sampleOutbound true) =
      some (_, .row _) := rfl
  obtain ⟨-, p, -, -, -, -, hbound⟩ := (readiness_pass_backed "video" [0] w r).1
    _ _ _ _ _ _ _ receipt hs hreceipt hstatus
  exact ⟨w, _, _, receipt, r, hs, hreceipt, hstatus, p, hbound⟩

end GroupRun

end PokrovCore.SmartAccess
