import Mathlib.Tactic.SplitIfs
import PokrovCore.LocalDpi.Admission

/-!
# LocalDpi/LocalFlows — the flows a withdrawal leaves behind

The flows are `Housed`: none that is open has left its holder, and a withdrawal that is not over
still lists every local one.  So a completed withdrawal leaves no local flow open; and since its admission
is the last state of its holder, none is handed over later.
-/

namespace PokrovCore.LocalDpi.World

variable {w w' : World} {e : Event} {o : Output} {i f : ℕ}

/-! ## The flows of a holder -/

/-- **Where the open local flows are**: registered with their holder, and, once the admission is
withdrawn, on the list of the withdrawal. -/
structure Housed (w : World) : Prop where
  registered : ∀ f, f < w.flowCount → (w.flows f).shut = false →
    f ∈ (w.holders (w.flows f).owner).flows
  listed : ∀ f, f < w.flowCount → (w.holders (w.flows f).owner).admission = .withdrawn →
    (w.flows f).isLocal = true → (w.flows f).shut = true ∨
      f ∈ (w.withdrawals (w.flows f).owner).pending
  idle : ∀ i, (w.holders i).admission ≠ .withdrawn → w.withdrawals i = .idle
  completed : ∀ i, (w.holders i).withdrawCompleted = true →
    (w.holders i).admission = .withdrawn ∧ (w.withdrawals i).pending = []

/-- A holder that is not withdrawn by a step, completes a withdrawal that has nothing left to do,
and loses a flow only when it is shut. -/
structure HolderKeeps (w : World) (i : ℕ) (h : Outbound) : Prop where
  withdrawn : h.admission = .withdrawn ↔ (w.holders i).admission = .withdrawn
  completed : h.withdrawCompleted = true → (w.holders i).withdrawCompleted = true ∨
    w.withdrawals i ≠ .idle ∧ (w.withdrawals i).pending = []
  flows : ∀ f ∈ (w.holders i).flows, f ∈ h.flows ∨ (w.flows f).shut = true

variable {h : Outbound}

theorem Keeps.holderKeeps (hk : Keeps w i h) : HolderKeeps w i h :=
  ⟨by rw [hk.admission], fun hc => .inl (hk.completed ▸ hc), hk.flows⟩

theorem HolderKeeps.refl (w : World) (i : ℕ) : HolderKeeps w i (w.holders i) :=
  (Keeps.refl w i).holderKeeps

/-- A flow that a step leaves where it is. -/
structure FlowKeeps (w : World) (f : ℕ) (x : Flow) : Prop where
  owner : x.owner = (w.flows f).owner
  shut : (w.flows f).shut = true → x.shut = true
  isLocal : x.isLocal = true → (w.flows f).isLocal = true ∨
    (w.holders (w.flows f).owner).admission = .ready

theorem FlowKeeps.refl (w : World) (f : ℕ) : FlowKeeps w f (w.flows f) := ⟨rfl, id, .inl⟩

theorem Flagged.flowKeeps (hflag : Flagged w w') (f : ℕ) : FlowKeeps w f (w'.flows f) := by
  obtain ⟨c, a, b, h⟩ := hflag.flows f
  rw [h]
  exact ⟨rfl, id, .inl⟩

/-- A step without a new flow or a new withdrawal. -/
theorem Housed.keep (hw : Housed w) (hcount : w'.flowCount = w.flowCount)
    (hholder : ∀ i, HolderKeeps w i (w'.holders i))
    (hflow : ∀ f, FlowKeeps w f (w'.flows f))
    (hidle : ∀ i, w.withdrawals i = .idle → w'.withdrawals i = .idle)
    (hnil : ∀ i, (w.withdrawals i).pending = [] → (w'.withdrawals i).pending = [])
    (hpending : ∀ i, ∀ f ∈ (w.withdrawals i).pending, f ∈ (w'.withdrawals i).pending ∨
      (w'.flows f).shut = true ∨ (w'.flows f).isLocal = false) : Housed w' where
  registered f hf hshut := by
    rw [(hflow f).owner]
    have hopen : (w.flows f).shut = false := by
      rw [← Bool.not_eq_true]
      exact fun h => nomatch ((hflow f).shut h).symm.trans hshut
    rcases (hholder _).flows f (hw.registered f (hcount ▸ hf) hopen) with h | h
    · exact h
    · cases h.symm.trans hopen
  listed f hf hadm hlocal := by
    rw [(hflow f).owner] at hadm ⊢
    have hadm' := (hholder _).withdrawn.mp hadm
    have hlocal' : (w.flows f).isLocal = true :=
      ((hflow f).isLocal hlocal).resolve_right fun h => nomatch h.symm.trans hadm'
    rcases hw.listed f (hcount ▸ hf) hadm' hlocal' with h | h
    · exact .inl ((hflow f).shut h)
    · rcases hpending _ f h with h | h | h
      · exact .inr h
      · exact .inl h
      · cases h.symm.trans hlocal
  idle i hadm := hidle i (hw.idle i fun h => hadm ((hholder i).withdrawn.mpr h))
  completed i hdone := by
    have h : (w.holders i).admission = .withdrawn ∧ (w.withdrawals i).pending = [] := by
      rcases (hholder i).completed hdone with h | ⟨hbusy, hnil⟩
      · exact hw.completed i h
      · exact ⟨not_not.mp fun h => hbusy (hw.idle i h), hnil⟩
    exact ⟨(hholder i).withdrawn.mpr h.1, hnil i h.2⟩

/-- …that concerns one holder. -/
theorem Housed.setHolder (hw : Housed w) (hholders : w'.holders = Function.update w.holders i h)
    (hcount : w'.flowCount = w.flowCount) (hwithdrawals : w'.withdrawals = w.withdrawals)
    (hkeep : HolderKeeps w i h) (hflow : ∀ f, FlowKeeps w f (w'.flows f)) : Housed w' := by
  refine hw.keep hcount (fun j => ?_) hflow (fun j => hwithdrawals ▸ id)
    (fun j => hwithdrawals ▸ id)
    fun j f hf => .inl (hwithdrawals ▸ hf)
  by_cases hj : j = i
  · subst hj
    rw [hholders, Function.update_self]
    exact hkeep
  · rw [hholders, Function.update_of_ne hj]
    exact .refl w j

/-- A connection is registered: local if the admission is ready. -/
theorem Housed.accept (hw : Housed w) (i : ℕ) (metadata : Metadata) :
    Housed (w.accept i metadata) := by
  have hholder : ∀ j, ((w.accept i metadata).holders j).admission = (w.holders j).admission ∧
      ((w.accept i metadata).holders j).withdrawCompleted = (w.holders j).withdrawCompleted ∧
      ∀ f ∈ (w.holders j).flows, f ∈ ((w.accept i metadata).holders j).flows := by
    intro j
    by_cases hj : j = i
    · subst hj
      simpa [World.accept] using fun f hf => .inr hf
    · simp [World.accept, hj]
  have hold : ∀ f, f < w.flowCount → (w.accept i metadata).flows f = w.flows f := fun f hf => by
    simp [World.accept, Nat.ne_of_lt hf]
  have hnew : (w.accept i metadata).flows w.flowCount =
      Flow.new i metadata (metadata.eligible && (w.holders i).isReady) := by
    simp [World.accept]
  constructor
  · intro f hf hshut
    rcases Nat.lt_or_eq_of_le (Nat.le_of_lt_succ hf) with hlt | rfl
    · rw [hold f hlt] at hshut ⊢
      exact (hholder _).2.2 f (hw.registered f hlt hshut)
    · simp [World.accept, Flow.new]
  · intro f hf hadm hlocal
    rcases Nat.lt_or_eq_of_le (Nat.le_of_lt_succ hf) with hlt | rfl
    · rw [hold f hlt] at hadm hlocal ⊢
      exact hw.listed f hlt ((hholder _).1 ▸ hadm) hlocal
    · rw [hnew] at hadm hlocal
      have hw' : (w.holders i).admission = .withdrawn := (hholder i).1 ▸ hadm
      simp [Flow.new, Outbound.isReady, hw'] at hlocal
  · exact fun j hadm => hw.idle j ((hholder j).1 ▸ hadm)
  · intro j hdone
    have h := hw.completed j ((hholder j).2.1 ▸ hdone)
    exact ⟨(hholder j).1.trans h.1, h.2⟩

/-- A withdrawal begins: it lists the local flows. -/
theorem Housed.withdraw (hw : Housed w) (hadm : (w.holders i).admission ≠ .withdrawn)
    (hholders : w'.holders = Function.update w.holders i { w.holders i with admission := .withdrawn })
    (hwithdrawals : w'.withdrawals = Function.update w.withdrawals i
      (.cancelling (w.holders i).admissionID (w.localFlows i)))
    (hflag : Flagged w w') : Housed w' := by
  have hother : ∀ j, j ≠ i → w'.holders j = w.holders j ∧ w'.withdrawals j = w.withdrawals j :=
    fun j hj => by simp [hholders, hwithdrawals, hj]
  have hself : w'.holders i = { w.holders i with admission := .withdrawn } := by simp [hholders]
  have hflow : ∀ f, (w'.flows f).owner = (w.flows f).owner ∧ (w'.flows f).shut = (w.flows f).shut ∧
      (w'.flows f).isLocal = (w.flows f).isLocal := by
    intro f
    obtain ⟨c, a, b, h⟩ := hflag.flows f
    rw [h]
    exact ⟨rfl, rfl, rfl⟩
  constructor
  · intro f hf hshut
    rw [(hflow f).2.1] at hshut
    rw [(hflow f).1]
    have h := hw.registered f (hflag.count ▸ hf) hshut
    by_cases hj : (w.flows f).owner = i
    · rw [hj] at h ⊢
      exact hself ▸ h
    · rw [(hother _ hj).1]
      exact h
  · intro f hf hadm' hlocal
    rw [(hflow f).1] at hadm' ⊢
    rw [(hflow f).2.2] at hlocal
    rw [(hflow f).2.1]
    by_cases hj : (w.flows f).owner = i
    · rw [hj, hwithdrawals, Function.update_self]
      cases hshut : (w.flows f).shut with
      | true => exact .inl rfl
      | false =>
        have hreg := hw.registered f (hflag.count ▸ hf) hshut
        exact .inr (List.mem_filter.mpr ⟨hj ▸ hreg, hlocal⟩)
    · rw [(hother _ hj).1] at hadm'
      rw [(hother _ hj).2]
      exact hw.listed f (hflag.count ▸ hf) hadm' hlocal
  · intro j hne
    by_cases hj : j = i
    · subst hj
      exact absurd (by rw [hself]) hne
    · rw [(hother j hj).2]
      exact hw.idle j ((hother j hj).1 ▸ hne)
  · intro j hdone
    by_cases hj : j = i
    · subst hj
      rw [hself] at hdone
      exact absurd (hw.completed j hdone).1 hadm
    · rw [(hother j hj).1] at hdone ⊢
      rw [(hother j hj).2]
      exact hw.completed j hdone

/-- A withdrawal that is under way goes on, and may complete. -/
theorem Housed.goOn (hw : Housed w) {pc : Withdrawal}
    (hholders : w'.holders = Function.update w.holders i h) (hkeep : HolderKeeps w i h)
    (hbusy : w.withdrawals i ≠ .idle) (hsub : pc.pending ⊆ (w.withdrawals i).pending)
    (hpending : ∀ f ∈ (w.withdrawals i).pending, f ∈ pc.pending ∨ (w.flows f).shut = true ∨
      (w.flows f).isLocal = false)
    (hwithdrawals : w'.withdrawals = Function.update w.withdrawals i pc) (hflag : Flagged w w') :
    Housed w' := by
  refine hw.keep hflag.count (fun j => ?_) hflag.flowKeeps (fun j hj => ?_) (fun j hj => ?_)
    fun j f hf => ?_
  all_goals rcases eq_or_ne j i with rfl | hji
  · rwa [hholders, Function.update_self]
  · rw [hholders, Function.update_of_ne hji]
    exact .refl w j
  · exact absurd hj hbusy
  · rwa [hwithdrawals, Function.update_of_ne hji]
  · rw [hwithdrawals, Function.update_self]
    exact List.subset_nil.mp (hj ▸ hsub)
  · rwa [hwithdrawals, Function.update_of_ne hji]
  · rw [hwithdrawals, Function.update_self]
    obtain ⟨c, a, b, h⟩ := hflag.flows f
    rw [h]
    exact hpending f hf
  · rw [hwithdrawals, Function.update_of_ne hji]
    exact .inl hf

/-- **Every event keeps the open local flows on their lists.** -/
theorem Housed.step (hw : Housed w) (hs : machine.step w e = some (w', o)) : Housed w' := by
  have hfails : ∀ {i : ℕ} (reason : AdmissionFailure), (w.holders i).admission = .ready →
      HolderKeeps w i { w.holders i with admission := .failed, failureReason := some reason } :=
    fun reason hadm => ⟨by simp [hadm], .inl, fun _ => .inl⟩
  cases did_step hs with
  | @holder _ _ i _ _ _ hsec hholders _ hwithdrawals hflag =>
    cases hsec with
    | keeps hk =>
      exact hw.setHolder hholders hflag.count (hwithdrawals.trans (Function.update_eq_self ..))
        hk.holderKeeps hflag.flowKeeps
    | fails reason hadm =>
      exact hw.setHolder hholders hflag.count (hwithdrawals.trans (Function.update_eq_self ..))
        (hfails reason hadm) hflag.flowKeeps
    | admits hadm =>
      exact hw.setHolder hholders hflag.count (hwithdrawals.trans (Function.update_eq_self ..))
        ⟨by simp [hadm], .inl, fun _ => .inl⟩ hflag.flowKeeps
    | withdraws hadm => exact hw.withdraw hadm hholders hwithdrawals hflag
    | goesOn hbusy hsub hpending =>
      exact hw.goOn hholders (.refl w i) hbusy hsub hpending hwithdrawals hflag
    | completes hpc =>
      refine hw.goOn hholders ?_ (by simp [hpc]) (by simp [Withdrawal.pending])
        (by simp [hpc, Withdrawal.pending]) hwithdrawals hflag
      unfold Outbound.withdrawComplete
      split
      · exact ⟨Iff.rfl, fun _ => .inr (by simp [hpc, Withdrawal.pending]), fun _ => .inl⟩
      · exact .refl w i
  | accept i metadata => exact hw.accept i metadata
  | retry hretry =>
    obtain ⟨hholders, hflows, -, hwithdrawals, hcount, -⟩ := prepareWindowsRetry_eq_some hretry
    refine hw.keep hcount (fun j => ?_) (fun f => ?_) (fun j => hwithdrawals ▸ id)
      (fun j => hwithdrawals ▸ id) fun j f hf => .inl (hwithdrawals ▸ hf)
    · rcases hholders j with hsame | ⟨id, hrenew, -, -, hadm⟩
      · exact hsame ▸ .refl w j
      · rw [hrenew]
        refine ⟨?_, by simp [Outbound.renew], fun _ => .inl⟩
        rcases hadm with hadm | hadm <;> simp [Outbound.renew, hadm]
    · obtain ⟨b, hb⟩ := hflows f
      rw [hb]
      exact ⟨rfl, id, .inl⟩
  | flow f e h x eff hf hflow =>
    refine hw.setHolder (perform_holders _ _) (perform_flowCount _ _) (perform_withdrawals _ _)
      ?_ fun g => ?_
    · rcases flowStep_cases hflow with hk | ⟨hadm, reason, rfl⟩
      · exact hk.holderKeeps
      · exact hfails reason hadm
    · rw [perform_flows]
      by_cases hg : g = f
      · subst hg
        have hx := flowStep_flow hflow
        simpa using (⟨hx.1, hx.2.1, hx.2.2⟩ : FlowKeeps w g x)
      · simpa [hg] using FlowKeeps.refl w g

/-- A withdrawn admission stays, and so does a withdrawal with nothing left to do. -/
theorem withdrawn_step (hs : machine.step w e = some (w', o))
    (hadm : (w.holders i).admission = .withdrawn) (hnil : (w.withdrawals i).pending = []) :
    (w'.holders i).admission = .withdrawn ∧ (w'.withdrawals i).pending = [] := by
  constructor
  · rcases standing_step hs i with h | h
    · exact (congrArg Standing.admission h).trans hadm
    · exact absurd h (Standing.not_step_of_withdrawn hadm)
  · cases did_step hs with
    | @holder _ _ j _ _ _ hsec _ _ hwithdrawals =>
      rw [hwithdrawals]
      rcases eq_or_ne i j with rfl | hj
      · rw [Function.update_self]
        cases hsec with
        | keeps | fails | admits => exact hnil
        | withdraws hne => exact absurd hadm hne
        | goesOn _ hsub => exact List.subset_nil.mp (hnil ▸ hsub)
        | completes => rfl
      · rwa [Function.update_of_ne hj]
    | accept => exact hnil
    | retry hretry =>
      rw [(prepareWindowsRetry_eq_some hretry).2.2.2.1]
      exact hnil
    | flow =>
      rw [perform_withdrawals]
      exact hnil

/-- A flow is handed to the local path in a step of its own, under its captured admission. -/
theorem handed_step {id : String} (hs : machine.step w e = some (w', o))
    (hpc : (w'.flows f).pc = .handed .offload id) (hne : (w.flows f).pc ≠ .handed .offload id) :
    (w'.flows f).owner = (w.flows f).owner ∧
    (w.holders (w.flows f).owner).admissionID = id ∧
    (w.holders (w.flows f).owner).admission = .ready ∧
    (w'.holders (w.flows f).owner).admissionID = id ∧
    (w'.holders (w.flows f).owner).admission = .ready := by
  rcases moved_step hs with ⟨hflows, -⟩ | ⟨i, metadata, isLocal, hflows, -⟩ |
    ⟨g, e, h, x, eff, -, hflow, rfl⟩
  · obtain ⟨c, a, b, hf⟩ := hflows f
    rw [hf] at hpc
    exact absurd hpc hne
  · rw [hflows] at hpc
    by_cases hf : f = w.flowCount
    · subst hf
      simp [Flow.new] at hpc
    · rw [Function.update_of_ne hf] at hpc
      exact absurd hpc hne
  · simp only [perform_flows, setFlow_flows, setHolder_flows] at hpc
    by_cases hg : f = g
    · subst hg
      rw [Function.update_self] at hpc
      obtain ⟨hattach, rfl⟩ := flowStep_handed hflow hpc hne
      simp only [Outbound.attachable, Outbound.isReady, Bool.and_eq_true, beq_iff_eq] at hattach
      simp only [perform_flows, perform_holders, setFlow_flows, setFlow_holders, setHolder_holders,
        Function.update_self]
      exact ⟨(flowStep_flow hflow).1, hattach.1.1.2, hattach.1.2, hattach.1.1.2, hattach.1.2⟩
    · rw [Function.update_of_ne hg] at hpc
      exact absurd hpc hne

/-! ## Whole runs -/

/-- A holder as it is constructed. -/
def Fresh (h : Outbound) : Prop :=
  ∃ tag options windows loopback managers dialer identity,
    newOutbound tag options windows loopback managers dialer identity = some h

theorem Fresh.spec (hf : Fresh h) : h.admission = .unpublished ∧
    h.withdrawCompleted = false := by
  obtain ⟨tag, options, windows, loopback, managers, dialer, identity, hnew⟩ := hf
  unfold newOutbound at hnew
  split_ifs at hnew
  cases hnew
  exact ⟨rfl, rfl⟩

variable {holders : ℕ → Outbound}

theorem housed_start (hfresh : ∀ i, Fresh (holders i)) :
    Housed (start holders) where
  registered f hf := absurd hf (Nat.not_lt_zero f)
  listed f hf := absurd hf (Nat.not_lt_zero f)
  idle _ _ := rfl
  completed i h := nomatch h.symm.trans (hfresh i).spec.2

theorem counted_start (hfresh : ∀ i, Fresh (holders i)) (i : ℕ) :
    ((start holders).standing i).Counted where
  current := by simp [standing, start, (hfresh i).spec.1]
  other _ _ _ := rfl

theorem Housed.reaches (r : machine.Reaches w w') (hw : Housed w) : Housed w' :=
  r.invariant (fun _ _ _ _ _ hs h => h.step hs) hw

/-- **The admission of a local path.**  In every state of every run: under one identity the state of
an admission only moves forward; its channel is closed once, by the step that leaves the unpublished
state, and stays closed once for an identity that was replaced; a flow is handed to the local path
only while its captured admission is the current one and ready; after a completed withdrawal no local
flow of the holder is open, and none is handed over any more; and a call with another identity than
the current one changes nothing. -/
theorem admission_moves_forward {holders : ℕ → Outbound} (hfresh : ∀ i, Fresh (holders i))
    (r : machine.Reaches (start holders) w) :
    (∀ w' i, machine.Reaches w w' → (w'.holders i).admissionID = (w.holders i).admissionID →
      (w.holders i).admission.rank ≤ (w'.holders i).admission.rank) ∧
    (∀ i, w.closings i (w.holders i).admissionID =
      if (w.holders i).admission = .unpublished then 0 else 1) ∧
    (∀ e w' o, machine.step w e = some (w', o) → ∀ i id, w'.closings i id = w.closings i id +
      if id = (w.holders i).admissionID ∧ (w.holders i).admission = .unpublished ∧
        (w'.holders i).admission ≠ .unpublished then 1 else 0) ∧
    (∀ w' i, machine.Reaches w w' → (w'.holders i).admissionID ≠ (w.holders i).admissionID →
      w'.closings i (w.holders i).admissionID = 1) ∧
    (∀ e w' o f id, machine.step w e = some (w', o) → (w'.flows f).pc = .handed .offload id →
      (w.flows f).pc ≠ .handed .offload id →
      (w.holders (w.flows f).owner).admissionID = id ∧
      (w.holders (w.flows f).owner).admission = .ready ∧
      (w'.holders (w.flows f).owner).admissionID = id ∧
      (w'.holders (w.flows f).owner).admission = .ready) ∧
    (∀ i id, w.withdrawals i = .complete id ∨ (w.holders i).withdrawCompleted = true →
      ∀ w', machine.Reaches w w' →
        (∀ f, f < w'.flowCount → (w'.flows f).owner = i → (w'.flows f).isLocal = true →
          (w'.flows f).shut = true) ∧
        ∀ e w'' o f id', machine.step w' e = some (w'', o) → (w''.flows f).owner = i →
          (w''.flows f).pc = .handed .offload id' → (w'.flows f).pc = .handed .offload id') ∧
    (∀ i id, id ≠ (w.holders i).admissionID →
      (∀ reason, machine.step w (.fail i id reason) = some (w, .none)) ∧
      machine.step w (.admitAdmission i id) = some (w, .answer false) ∧
      machine.step w (.withdraw i id) = some (w, .answer false)) ∧
    ∀ f id reason w' o, (w.flows f).pc = .reporting id reason →
      id ≠ (w.holders (w.flows f).owner).admissionID →
      machine.step w (.flow f .report) = some (w', o) → w'.holders = w.holders := by
  have hcounted : ∀ i, (w.standing i).Counted :=
    fun i => (ahead_of_reaches r (counted_start hfresh i)).1
  have hhoused : Housed w := Housed.reaches r (housed_start hfresh)
  have hset : ∀ i, Function.update w.holders i (w.holders i) = w.holders :=
    fun i => Function.update_eq_self i w.holders
  refine ⟨fun w' i r' hid => ?_, fun i => (hcounted i).current, fun e w' o hs i id => ?_,
    fun w' i r' hid => ?_, fun e w' o f id hs hpc hne => (handed_step hs hpc hne).2,
    fun i id hdone w' r' => ?_, fun i id hid => ⟨fun reason => ?_, ?_, ?_⟩,
    fun f id reason w' o hpc hid hs => ?_⟩
  · rcases (ahead_of_reaches r' (hcounted i)).2 with ⟨-, -, hrank, -⟩ | ⟨-, -, hne, -⟩
    · exact hrank
    · exact absurd hid hne
  · rcases standing_step hs i with h | h
    · have hc : w'.closings i = w.closings i := congrArg Standing.closings h
      have ha : (w'.holders i).admission = (w.holders i).admission := congrArg Standing.admission h
      rw [hc, ha, if_neg fun h => h.2.2 h.2.1, Nat.add_zero]
    · exact h.closings_eq id
  · rcases (ahead_of_reaches r' (hcounted i)).2 with ⟨hsame, -⟩ | ⟨-, -, -, hclose⟩
    · exact absurd hsame hid
    · exact hclose
  · have hnow : (w.holders i).admission = .withdrawn ∧ (w.withdrawals i).pending = [] := by
      rcases hdone with hdone | hdone
      · refine ⟨not_not.mp fun h => ?_, by rw [hdone]; rfl⟩
        cases (hhoused.idle i h).symm.trans hdone
      · exact hhoused.completed i hdone
    have hlater : (w'.holders i).admission = .withdrawn ∧ (w'.withdrawals i).pending = [] :=
      r'.invariant (P := fun v => (v.holders i).admission = .withdrawn ∧
        (v.withdrawals i).pending = []) (fun _ _ _ _ _ hs h => withdrawn_step hs h.1 h.2) hnow
    refine ⟨fun f hf howner hlocal => ?_, fun e w'' o f id' hs howner hpc => ?_⟩
    · subst howner
      rcases (hhoused.reaches r').listed f hf hlater.1 hlocal with h | h
      · exact h
      · rw [hlater.2] at h
        cases h
    · by_contra hne
      obtain ⟨hsame, -, hready, -⟩ := handed_step hs hpc hne
      rw [← hsame, howner, hlater.1] at hready
      cases hready
  · change some (w.setHolder i _, _) = _
    simp [Outbound.failAdmission, hid, setHolder]
  · simp [machine, step, Outbound.admitAdmission, hid]
  · simp [machine, step, Outbound.withdrawAdmission, hid]
  · obtain ⟨-, hs⟩ := Option.ite_none_right_eq_some.mp hs
    simp only [flowStep, hpc, Outbound.failAdmission, hid, false_and, if_false,
      Option.map_some] at hs
    cases hs
    exact hset _

/-- A holder behind a SOCKS child, and a connection that asks for it. -/
def sampleOptions : OutboundOptions where
  serviceID := "video"
  vpnOutbound := "vpn"
  detour := ""
  preferTCP := false
  windowsDirect := false
  bindInterface := ""
  server := "127.0.0.1"
  serverPort := 1080

@[inherit_doc sampleOptions] def sampleMetadata : Metadata := ⟨true, 443, true, false, false, true⟩

/-- The connection is handed to the local path. -/
def sampleHandoff : List Event :=
  [.admitAdmission 0 "a", .accept 0 sampleMetadata, .flow 0 .check, .flow 0 (.wait 0), .flow 0 .woken,
    .flow 0 .rejoin, .flow 0 .decide, .flow 0 (.dialed ⟨true, none, false⟩), .flow 0 .judge,
    .flow 0 .attach]

/-- The sample connection is handed over, and its admission withdrawn: it is not open any more. -/
theorem admission_moves_forward_sample :
    ∃ h w, Fresh h ∧ machine.Reaches (start fun _ => h) w ∧ w.withdrawals 0 = .complete "a" ∧
      0 < w.flowCount ∧ (w.flows 0).owner = 0 ∧ (w.flows 0).isLocal = true ∧
      (w.flows 0).shut = true := by
  have hrun : ((newOutbound "dpi" sampleOptions false (· == "127.0.0.1") true true
      "a").bind fun h =>
      (machine.run (start fun _ => h) (sampleHandoff ++ [.withdraw 0 "a", .withdrawCancel 0,
        .withdrawNext 0, .flow 0 .shut, .withdrawJoin 0, .withdrawDone 0])).map fun w =>
        (w.withdrawals 0, w.flowCount, (w.flows 0).owner, (w.flows 0).isLocal)) =
      some (.complete "a", 1, 0, true) := by decide +kernel
  obtain ⟨h, hnew, hrun⟩ := Option.bind_eq_some_iff.mp hrun
  obtain ⟨w, hw, hrun⟩ := Option.map_eq_some_iff.mp hrun
  simp only [Prod.mk.injEq] at hrun
  obtain ⟨hdone, hcount, howner, hlocal⟩ := hrun
  have hfresh : Fresh h := ⟨_, _, _, _, _, _, _, hnew⟩
  have r := Machine.reaches_run hw
  obtain ⟨-, -, -, -, -, hwithdrawn, -⟩ := admission_moves_forward (fun _ => hfresh) r
  have hshut := (hwithdrawn 0 "a" (.inl hdone) w (.refl w)).1 0 (by omega) howner hlocal
  exact ⟨h, w, hfresh, r, hdone, by omega, howner, hlocal, hshut⟩

end PokrovCore.LocalDpi.World
