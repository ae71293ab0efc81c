import PokrovCore.LocalDpi.Outbound

/-!
# LocalDpi/Admission — the state of an admission

What the calls do to a holder's admission is the small machine `Standing.Step`: a failure, an
admission, a withdrawal, and once a renewal under another identity.  Every event of the runtime is a
step of it or none (`standing_step`), so that the order of the states and the closings of the channels
are read off there.
-/

namespace PokrovCore.LocalDpi

/-! ## The admission alone -/

/-- The admission of a holder, and how often each of its channels was closed. -/
structure Standing where
  admissionID : String
  admission : Admission
  retryPrepared : Bool
  closings : String → ℕ

namespace Standing

variable {s t u : Standing}

/-- One more closing of the current channel. -/
def resolve (s : Standing) : String → ℕ :=
  Function.update s.closings s.admissionID (s.closings s.admissionID + 1)

/-- **What may happen to an admission.** -/
inductive Step (s : Standing) : Standing → Prop
  | fail : s.admission = .ready → Step s { s with admission := .failed }
  | publish : s.admission = .unpublished →
    Step s { s with admission := .ready, closings := s.resolve }
  | withdrawUnpublished : s.admission = .unpublished →
    Step s { s with admission := .withdrawn, closings := s.resolve }
  | withdraw : s.admission = .ready ∨ s.admission = .failed →
    Step s { s with admission := .withdrawn }
  | renew (id : String) : s.retryPrepared = false → s.admission = .ready ∨ s.admission = .failed →
    id ≠ s.admissionID →
    Step s { s with admissionID := id, admission := .unpublished, retryPrepared := true }

/-- A withdrawn admission is the last state of its holder. -/
theorem not_step_of_withdrawn (h : s.admission = .withdrawn) : ¬s.Step t := by
  intro hs
  cases hs with
  | fail hr => cases hr.symm.trans h
  | publish hu | withdrawUnpublished hu => cases hu.symm.trans h
  | withdraw hrf | renew _ _ hrf => rcases hrf with hr | hr <;> cases hr.symm.trans h

/-- The current channel is closed once the admission is published or withdrawn, and before a renewal
there is no other. -/
structure Counted (s : Standing) : Prop where
  current : s.closings s.admissionID = if s.admission = .unpublished then 0 else 1
  other : s.retryPrepared = false → ∀ id, id ≠ s.admissionID → s.closings id = 0

theorem Counted.step (h : s.Counted) (hs : s.Step t) : t.Counted := by
  cases hs with
  | fail hr => exact ⟨by simpa [hr] using h.current, h.other⟩
  | publish hu =>
    refine ⟨by simpa [resolve, hu] using h.current, fun hretry id hid => ?_⟩
    simpa [resolve, hid] using h.other hretry id hid
  | withdrawUnpublished hu =>
    refine ⟨by simpa [resolve, hu] using h.current, fun hretry id hid => ?_⟩
    simpa [resolve, hid] using h.other hretry id hid
  | withdraw hrf => exact ⟨by rcases hrf with hr | hr <;> simpa [hr] using h.current, h.other⟩
  | renew id hretry _ hid => exact ⟨h.other hretry id hid, fun hr => nomatch hr⟩

/-- **A closing is the end of the unpublished state.** -/
theorem Step.closings_eq (hs : s.Step t) (id : String) :
    t.closings id = s.closings id +
      if id = s.admissionID ∧ s.admission = .unpublished ∧ t.admission ≠ .unpublished then 1 else 0 := by
  cases hs with
  | fail hr => simp [hr]
  | publish hu => by_cases hid : id = s.admissionID <;> simp [resolve, hu, hid]
  | withdrawUnpublished hu => by_cases hid : id = s.admissionID <;> simp [resolve, hu, hid]
  | withdraw hrf => rcases hrf with hr | hr <;> simp [hr]
  | renew id' hretry hrf hid => simp

/-- **Later in the life of a holder**: further on under the same admission, or under another one that
stays, the channel of the old one closed once. -/
def Ahead (s t : Standing) : Prop :=
  (t.admissionID = s.admissionID ∧ t.retryPrepared = s.retryPrepared ∧
    s.admission.rank ≤ t.admission.rank ∧
    ∀ id, id ≠ s.admissionID → t.closings id = s.closings id) ∨
  (s.retryPrepared = false ∧ t.retryPrepared = true ∧ t.admissionID ≠ s.admissionID ∧
    t.closings s.admissionID = 1)

theorem Ahead.refl (s : Standing) : s.Ahead s := .inl ⟨rfl, rfl, Nat.le_refl _, fun _ _ => rfl⟩

theorem Ahead.trans (h : s.Ahead t) (h' : t.Ahead u) : s.Ahead u := by
  obtain ⟨hid, hretry, hrank, hclose⟩ | ⟨hno, hyes, hid, hclose⟩ := h
  · obtain ⟨hid', hretry', hrank', hclose'⟩ | ⟨hno', hyes', hid', hclose'⟩ := h'
    · refine .inl
        ⟨hid'.trans hid, hretry'.trans hretry, Nat.le_trans hrank hrank', fun id hne => ?_⟩
      exact (hclose' id (hid ▸ hne)).trans (hclose id hne)
    · exact .inr ⟨hretry ▸ hno', hyes', hid ▸ hid', hid ▸ hclose'⟩
  · obtain ⟨hid', hretry', -, hclose'⟩ | ⟨hno', -⟩ := h'
    · refine .inr ⟨hno, hretry'.trans hyes, hid' ▸ hid, ?_⟩
      exact (hclose' _ (Ne.symm hid)).trans hclose
    · cases hyes.symm.trans hno'

theorem Step.ahead (hs : s.Step t) (hc : s.Counted) : s.Ahead t := by
  cases hs with
  | fail hr => exact .inl ⟨rfl, rfl, by simp [hr, Admission.rank], fun _ _ => rfl⟩
  | publish hu =>
    exact .inl ⟨rfl, rfl, by simp [hu, Admission.rank], fun id hid => by simp [resolve, hid]⟩
  | withdrawUnpublished hu =>
    exact .inl ⟨rfl, rfl, by simp [hu, Admission.rank], fun id hid => by simp [resolve, hid]⟩
  | withdraw hrf =>
    exact .inl ⟨rfl, rfl, by rcases hrf with hr | hr <;> simp [hr, Admission.rank], fun _ _ => rfl⟩
  | renew id hretry hrf hid =>
    refine .inr ⟨hretry, rfl, hid, ?_⟩
    rcases hrf with hr | hr <;> simpa [hr] using hc.current

end Standing

/-! ## What a flow does to its holder -/

section flow

variable {h h' : Outbound} {s : Surroundings} {f : ℕ} {x x' : Flow} {e : FlowEvent} {eff : Effect}

/-- **A flow reports a failed setup, is counted, or leaves.** -/
theorem flowStep_holder (hs : flowStep h s f x e = some (h', x', eff)) :
    h' = h ∨ (∃ id reason, x.pc = .reporting id reason ∧ h' = h.failAdmission id reason) ∨
    (∃ id r, x.pc = .observed id r ∧ h.attachable id x.ctxDone = true ∧
      h' = { h with localHandoffs := h.localHandoffs + 1 }) ∨
    h' = { h with vpnHandoffs := h.vpnHandoffs + 1 } ∨
    (x.shut = true ∧ h' = { h with flows := h.flows.filter (· != f) }) := by
  cases e <;> simp only [flowStep] at hs <;> grind

/-- A flow keeps its owner, stays shut, and becomes local under a ready admission only. -/
theorem flowStep_flow (hs : flowStep h s f x e = some (h', x', eff)) :
    x'.owner = x.owner ∧ (x.shut = true → x'.shut = true) ∧
      (x'.isLocal = true → x.isLocal = true ∨ h.admission = .ready) := by
  cases e <;> simp only [flowStep, Outbound.isReady] at hs <;> grind

/-- A flow is handed to the local path in the section that asks for its admission. -/
theorem flowStep_handed {id : String} (hs : flowStep h s f x e = some (h', x', eff))
    (hpc : x'.pc = .handed .offload id) (hne : x.pc ≠ .handed .offload id) :
    h.attachable id x.ctxDone = true ∧ h' = { h with localHandoffs := h.localHandoffs + 1 } := by
  cases e <;> simp only [flowStep] at hs <;> grind

end flow

namespace World

variable {w w' w₁ w₂ : World} {e : Event} {o : Output} {i f : ℕ}

/-! ## The admission of a holder, in the runtime -/

/-- How the admission of a holder stands. -/
def standing (w : World) (i : ℕ) : Standing where
  admissionID := (w.holders i).admissionID
  admission := (w.holders i).admission
  retryPrepared := (w.holders i).retryPrepared
  closings := w.closings i

/-- What a retry does: every holder of the list is renewed, the others are as they were, and of the
flows only the lists of the retry change. -/
theorem foldl_renew (l : List (ℕ × String)) (hl : (l.map Prod.fst).Nodup) : ∀ w : World,
    let v := l.foldl (fun w p => w.renew p.1 p.2) w
    (∀ j, (j ∉ l.map Prod.fst ∧ v.holders j = w.holders j) ∨
      ∃ id, (j, id) ∈ l ∧ v.holders j = (w.holders j).renew id) ∧
    (∀ f, ∃ b, v.flows f = { w.flows f with retired := b }) ∧ v.closings = w.closings ∧
      v.withdrawals = w.withdrawals ∧ v.flowCount = w.flowCount ∧
      v.socketClosed = w.socketClosed ∧ v.socketCount = w.socketCount := by
  induction l with
  | nil => exact fun w => ⟨fun j => .inl ⟨by simp, rfl⟩, fun f => ⟨_, rfl⟩, rfl, rfl, rfl, rfl, rfl⟩
  | cons p l ih =>
    intro w
    obtain ⟨i, id⟩ := p
    simp only [List.map_cons, List.nodup_cons] at hl
    obtain ⟨hholders, hflows, hclosings, hwithdrawals, hcount, hclosed, hsockets⟩ :=
      ih hl.2 (w.renew i id)
    refine ⟨fun j => ?_, fun f => ?_, hclosings, hwithdrawals, hcount, hclosed, hsockets⟩
    · rcases hholders j with ⟨hj, hsame⟩ | ⟨id', hmem, hrenew⟩
      · by_cases hji : j = i
        · subst hji
          exact .inr ⟨id, List.mem_cons_self, hsame.trans (by simp [renew])⟩
        · refine .inl ⟨by simpa [hji] using hj, hsame.trans (by simp [renew, hji])⟩
      · have hji : j ≠ i := by
          rintro rfl
          exact hl.1 (List.mem_map_of_mem hmem)
        exact .inr ⟨id', List.mem_cons_of_mem _ hmem, hrenew.trans (by simp [renew, hji])⟩
    · obtain ⟨b, hb⟩ := hflows f
      refine ⟨b, hb.trans ?_⟩
      simp only [renew, setHolder_flows, mark_flows]
      split <;> rfl

/-- The section of a retry renews admissions that may be renewed, or is refused. -/
theorem prepareWindowsRetry_eq_some {holders : List ℕ} {expectedIDs newIDs : List String}
    (h : w.prepareWindowsRetry holders expectedIDs newIDs = some w') :
    (∀ j, w'.holders j = w.holders j ∨ ∃ id, w'.holders j = (w.holders j).renew id ∧
      id ≠ (w.holders j).admissionID ∧ (w.holders j).retryPrepared = false ∧
      ((w.holders j).admission = .ready ∨ (w.holders j).admission = .failed)) ∧
    (∀ f, ∃ b, w'.flows f = { w.flows f with retired := b }) ∧ w'.closings = w.closings ∧
      w'.withdrawals = w.withdrawals ∧ w'.flowCount = w.flowCount ∧
      w'.socketClosed = w.socketClosed ∧ w'.socketCount = w.socketCount := by
  unfold prepareWindowsRetry at h
  split at h
  case isTrue => cases h
  case isFalse hcond =>
    simp only [not_or, not_not, ne_eq] at hcond
    obtain ⟨-, hlen, -, hnodup, hlen', hall, -, hfresh, -, -⟩ := hcond
    have hfst : (holders.zip newIDs).map Prod.fst = holders :=
      List.map_fst_zip (Nat.le_of_eq hlen'.symm)
    have hfold := foldl_renew (holders.zip newIDs) (hfst.symm ▸ hnodup) w
    obtain rfl := Option.some.inj h
    refine ⟨fun j => ?_, hfold.2⟩
    rcases hfold.1 j with ⟨-, hsame⟩ | ⟨id, hmem, hrenew⟩
    · exact .inl hsame
    · obtain ⟨hj, hid⟩ := List.of_mem_zip hmem
      -- the identity the call expects of this holder is its current one
      obtain ⟨k, hk, rfl⟩ := List.mem_iff_getElem.mp hj
      have hk' : k < expectedIDs.length := hlen ▸ hk
      have hretry := List.all_eq_true.mp hall (holders[k], expectedIDs[k])
        (List.mem_iff_getElem.mpr ⟨k, by simp only [List.length_zip]; omega, by simp⟩)
      simp only [Outbound.retryable, Bool.and_eq_true, Bool.or_eq_true, Bool.not_eq_true',
        beq_iff_eq] at hretry
      obtain ⟨⟨⟨⟨⟨-, -⟩, hprepared⟩, -⟩, hcurrent⟩, hadm⟩ := hretry
      refine .inr ⟨id, hrenew, fun heq => hfresh ?_, hprepared, hadm⟩
      refine List.any_eq_true.mpr ⟨id, hid, List.contains_iff_mem.mpr ?_⟩
      rw [heq, hcurrent]
      exact List.getElem_mem hk'

/-! ## What an event does -/

/-- A holder after a section that leaves its admission alone. -/
structure Keeps (w : World) (i : ℕ) (h : Outbound) : Prop where
  windowsDirect : h.windowsDirect = (w.holders i).windowsDirect
  admissionID : h.admissionID = (w.holders i).admissionID
  admission : h.admission = (w.holders i).admission
  retryPrepared : h.retryPrepared = (w.holders i).retryPrepared
  completed : h.withdrawCompleted = (w.holders i).withdrawCompleted
  flows : ∀ f ∈ (w.holders i).flows, f ∈ h.flows ∨ (w.flows f).shut = true

theorem Keeps.refl (w : World) (i : ℕ) : Keeps w i (w.holders i) :=
  ⟨rfl, rfl, rfl, rfl, rfl, fun _ => .inl⟩

/-- **What a section does to a holder**, the closings of its channels and its withdrawal. -/
inductive Section (w : World) (i : ℕ) : Outbound → (String → ℕ) → Withdrawal → Prop
  | keeps {h : Outbound} (hk : Keeps w i h) : Section w i h (w.closings i) (w.withdrawals i)
  | fails (reason : AdmissionFailure) (hadm : (w.holders i).admission = .ready) :
    Section w i { w.holders i with admission := .failed, failureReason := some reason }
      (w.closings i) (w.withdrawals i)
  | admits (hadm : (w.holders i).admission = .unpublished) :
    Section w i { w.holders i with admission := .ready } (w.standing i).resolve (w.withdrawals i)
  | withdraws (hadm : (w.holders i).admission ≠ .withdrawn) :
    Section w i { w.holders i with admission := .withdrawn }
      (if (w.holders i).admission = .unpublished then (w.standing i).resolve else w.closings i)
      (.cancelling (w.holders i).admissionID (w.localFlows i))
  | goesOn {pc : Withdrawal} (hbusy : w.withdrawals i ≠ .idle)
    (hsub : pc.pending ⊆ (w.withdrawals i).pending)
    (hpending : ∀ f ∈ (w.withdrawals i).pending, f ∈ pc.pending ∨ (w.flows f).shut = true ∨
      (w.flows f).isLocal = false) : Section w i (w.holders i) (w.closings i) pc
  | completes {id : String} (hpc : w.withdrawals i = .closing id []) :
    Section w i ((w.holders i).withdrawComplete id) (w.closings i) (.complete id)

/-- A failure, reported with whatever identity. -/
theorem failAdmission_cases (w : World) (i : ℕ) (id : String) (reason : AdmissionFailure) :
    Keeps w i ((w.holders i).failAdmission id reason) ∨ (w.holders i).admission = .ready ∧
      (w.holders i).failAdmission id reason =
        { w.holders i with admission := .failed, failureReason := some reason } := by
  unfold Outbound.failAdmission
  split
  case isTrue hif => exact .inr ⟨hif.2, rfl⟩
  case isFalse => exact .inl (.refl w i)

variable {h : Outbound}

/-- The holder of a flow that steps. -/
theorem flowStep_cases {e : FlowEvent} {x : Flow} {eff : Effect} {s : Surroundings}
    (hs : flowStep (w.holders i) s f (w.flows f) e = some (h, x, eff)) :
    Keeps w i h ∨ (w.holders i).admission = .ready ∧ ∃ reason,
      h = { w.holders i with admission := .failed, failureReason := some reason } := by
  rcases flowStep_holder hs with
    rfl | ⟨id, reason, -, rfl⟩ | ⟨id, r, -, -, rfl⟩ | rfl | ⟨hshut, rfl⟩
  · exact .inl (.refl w i)
  · exact (failAdmission_cases w i id reason).imp_right fun h => ⟨h.1, reason, h.2⟩
  · exact .inl ⟨rfl, rfl, rfl, rfl, rfl, fun _ => .inl⟩
  · exact .inl ⟨rfl, rfl, rfl, rfl, rfl, fun _ => .inl⟩
  · refine .inl ⟨rfl, rfl, rfl, rfl, rfl, fun g hg => ?_⟩
    by_cases hgf : g = f
    · exact .inr (hgf ▸ hshut)
    · exact .inl (List.mem_filter.mpr ⟨hg, by simpa using hgf⟩)

variable {pc : Withdrawal}

theorem Section.windowsDirect {c : String → ℕ} (hsec : Section w i h c pc) :
    h.windowsDirect = (w.holders i).windowsDirect := by
  cases hsec with
  | keeps hk => exact hk.windowsDirect
  | fails | admits | withdraws | goesOn => rfl
  | completes =>
    unfold Outbound.withdrawComplete
    split <;> rfl

/-- Some flags of flows are raised, and no socket is touched. -/
structure Flagged (w w' : World) : Prop where
  flows : ∀ f, ∃ c a b, w'.flows f = { w.flows f with
    closed := (w.flows f).closed || c, asked := a, retired := b }
  count : w'.flowCount = w.flowCount
  closed : w'.socketClosed = w.socketClosed
  sockets : w'.socketCount = w.socketCount

theorem flagged_of_eq (hflows : w'.flows = w.flows) (hcount : w'.flowCount = w.flowCount)
    (hclosed : w'.socketClosed = w.socketClosed) (hsockets : w'.socketCount = w.socketCount) :
    Flagged w w' :=
  ⟨fun f => ⟨false, (w.flows f).asked, (w.flows f).retired, by rw [hflows]; simp⟩, hcount, hclosed,
    hsockets⟩

/-- **An event is a section of one holder, registers a flow, renews holders, or is a step of one
flow.** -/
inductive Did (w : World) : Event → World → Prop
  | holder {e : Event} {w' : World} {i : ℕ} {h : Outbound} {c : String → ℕ} {pc : Withdrawal}
    (hsec : Section w i h c pc) (hholders : w'.holders = Function.update w.holders i h)
    (hclosings : w'.closings = Function.update w.closings i c)
    (hwithdrawals : w'.withdrawals = Function.update w.withdrawals i pc) (hflag : Flagged w w') :
    Did w e w'
  | accept (i : ℕ) (metadata : Metadata) : Did w (.accept i metadata) (w.accept i metadata)
  | retry {w' : World} {holders : List ℕ} {expectedIDs newIDs : List String}
    (h : w.prepareWindowsRetry holders expectedIDs newIDs = some w') :
    Did w (.retry holders expectedIDs newIDs) w'
  | flow (f : ℕ) (e : FlowEvent) (h : Outbound) (x : Flow) (eff : Effect) (hf : f < w.flowCount)
    (hstep : flowStep (w.holders (w.flows f).owner) (w.surroundings (w.flows f).owner) f (w.flows f) e
      = some (h, x, eff)) :
    Did w (.flow f e) (((w.setHolder (w.flows f).owner h).setFlow f x).perform eff)

/-- A section of the holder alone. -/
theorem did_of_section (hsec : Section w i h (w.closings i) (w.withdrawals i))
    (hholders : w'.holders = Function.update w.holders i h) (hclosings : w'.closings = w.closings)
    (hwithdrawals : w'.withdrawals = w.withdrawals) (hflag : Flagged w w') : Did w e w' :=
  .holder hsec hholders (by rw [hclosings, Function.update_eq_self])
    (by rw [hwithdrawals, Function.update_eq_self]) hflag

/-- An event that changes none of this. -/
theorem did_of_eq (hholders : w'.holders = w.holders) (hclosings : w'.closings = w.closings)
    (hwithdrawals : w'.withdrawals = w.withdrawals) (hflag : Flagged w w') : Did w e w' :=
  did_of_section (.keeps (.refl w 0)) (by rw [hholders, Function.update_eq_self]) hclosings
    hwithdrawals hflag

/-- A step of a withdrawal alone. -/
theorem did_of_goesOn (hsec : Section w i (w.holders i) (w.closings i) pc)
    (hholders : w'.holders = w.holders) (hclosings : w'.closings = w.closings)
    (hwithdrawals : w'.withdrawals = Function.update w.withdrawals i pc) (hflag : Flagged w w') :
    Did w e w' :=
  .holder hsec (by rw [hholders, Function.update_eq_self]) (by rw [hclosings, Function.update_eq_self])
    hwithdrawals hflag

theorem did_step (hs : machine.step w e = some (w', o)) : Did w e w' := by
  have hsame : Flagged w w := flagged_of_eq rfl rfl rfl rfl
  change w.step e = some (w', o) at hs
  cases e with
  | start i now =>
    cases hs
    refine did_of_section (.keeps ?_) rfl rfl rfl (flagged_of_eq rfl rfl rfl rfl)
    unfold Outbound.start
    split <;> exact ⟨rfl, rfl, rfl, rfl, rfl, fun _ => .inl⟩
  | accept i metadata =>
    simp only [World.step] at hs
    split at hs <;> cases hs
    · exact did_of_eq rfl rfl rfl hsame
    · exact .accept i metadata
  | packet i port =>
    cases hs
    refine did_of_section (.keeps ?_) rfl rfl rfl (flagged_of_eq rfl rfl rfl rfl)
    unfold Outbound.newPacketConnection
    split
    · exact .refl w i
    · split <;> exact ⟨rfl, rfl, rfl, rfl, rfl, fun _ => .inl⟩
  | admitAdmission i id =>
    simp only [World.step, Outbound.admitAdmission] at hs
    split at hs <;> cases hs
    · exact did_of_eq rfl rfl rfl hsame
    · rename_i hh
      obtain ⟨hcond, hsome⟩ := Option.ite_none_left_eq_some.mp hh
      simp only [not_or, not_not, ne_eq] at hcond
      obtain ⟨-, rfl, hadm⟩ := hcond
      obtain rfl := Option.some.inj hsome
      exact .holder (.admits hadm) rfl rfl (Function.update_eq_self ..).symm
        (flagged_of_eq rfl rfl rfl rfl)
  | fail i id reason =>
    cases hs
    refine did_of_section ?_ rfl rfl rfl (flagged_of_eq rfl rfl rfl rfl)
    rcases failAdmission_cases w i id reason with hk | ⟨hadm, heq⟩
    · exact .keeps hk
    · exact heq ▸ .fails reason hadm
  | withdraw i id =>
    simp only [World.step, Outbound.withdrawAdmission] at hs
    split at hs <;> cases hs
    · exact did_of_eq rfl rfl rfl hsame
    · rename_i hh
      obtain ⟨hcond, hsome⟩ := Option.ite_none_left_eq_some.mp hh
      simp only [not_or, not_not, ne_eq] at hcond
      obtain ⟨rfl, hadm⟩ := hcond
      obtain rfl := Option.some.inj hsome
      refine .holder (.withdraws hadm) ?_ ?_ ?_ ?_
      all_goals split
      all_goals first
        | rfl
        | exact (Function.update_eq_self ..).symm
        | exact flagged_of_eq rfl rfl rfl rfl
  | withdrawCancel i =>
    simp only [World.step] at hs
    split at hs <;> cases hs
    rename_i hpc
    exact did_of_goesOn (.goesOn (by simp [hpc]) (by simp [hpc, Withdrawal.pending])
      fun f hf => .inl (by rwa [hpc] at hf)) rfl rfl rfl (flagged_of_eq rfl rfl rfl rfl)
  | withdrawNext i =>
    simp only [World.step] at hs
    split at hs
    case h_2 => cases hs
    rename_i id g todo hpc
    split at hs <;> cases hs
    · refine did_of_goesOn (.goesOn (by simp [hpc]) (by simp [hpc, Withdrawal.pending])
        fun f hf => .inl (by rwa [hpc] at hf)) rfl rfl rfl ⟨fun f => ?_, rfl, rfl, rfl⟩
      refine ⟨decide (f = g), (w.flows f).asked, (w.flows f).retired, ?_⟩
      rcases eq_or_ne f g with rfl | hf
      · simp
      · simp [hf]
    · rename_i hlocal
      refine did_of_goesOn (.goesOn (by simp [hpc]) (by simp [hpc, Withdrawal.pending])
        fun f hf => ?_) rfl rfl rfl (flagged_of_eq rfl rfl rfl rfl)
      rw [hpc] at hf
      rcases List.mem_cons.mp hf with rfl | hf
      · exact .inr (.inr (Bool.eq_false_iff.mpr hlocal))
      · exact .inl hf
  | withdrawJoin i =>
    simp only [World.step] at hs
    split at hs
    case h_2 => cases hs
    rename_i id g todo hpc
    obtain ⟨hshut, hs⟩ := Option.ite_none_right_eq_some.mp hs
    cases hs
    refine did_of_goesOn (.goesOn (by simp [hpc]) (by simp [hpc, Withdrawal.pending])
      fun f hf => ?_) rfl rfl rfl (flagged_of_eq rfl rfl rfl rfl)
    rw [hpc] at hf
    rcases List.mem_cons.mp hf with rfl | hf
    · exact .inr (.inl hshut)
    · exact .inl hf
  | withdrawDone i =>
    simp only [World.step] at hs
    split at hs <;> cases hs
    rename_i hpc
    exact .holder (.completes hpc) rfl (Function.update_eq_self ..).symm rfl
      (flagged_of_eq rfl rfl rfl rfl)
  | retry holders expectedIDs newIDs =>
    simp only [World.step] at hs
    split at hs <;> cases hs
    · exact did_of_eq rfl rfl rfl hsame
    · rename_i hretry
      exact .retry hretry
  | close i =>
    cases hs
    refine did_of_section (h := { w.holders i with closed := true })
      (.keeps ⟨rfl, rfl, rfl, rfl, rfl, fun _ => .inl⟩) rfl rfl rfl ⟨fun f => ?_, rfl, rfl, rfl⟩
    simp only [setHolder_flows, mark_flows]
    split
    · exact ⟨false, true, (w.flows f).retired, by simp⟩
    · exact ⟨false, (w.flows f).asked, (w.flows f).retired, by simp⟩
  | runtimeDone i =>
    cases hs
    exact did_of_eq rfl rfl rfl (flagged_of_eq rfl rfl rfl rfl)
  | flow f e =>
    obtain ⟨hf, hs⟩ := Option.ite_none_right_eq_some.mp hs
    obtain ⟨⟨h, x, eff⟩, hflow, hs⟩ := Option.map_eq_some_iff.mp hs
    cases hs
    exact .flow f e h x eff hf hflow

/-- A section is a step of the admission of its holder, or none. -/
theorem Section.standing {c : String → ℕ} (hs : Section w i h c pc) :
    (⟨h.admissionID, h.admission, h.retryPrepared, c⟩ : Standing) =
      w.standing i ∨ (w.standing i).Step ⟨h.admissionID, h.admission, h.retryPrepared, c⟩ := by
  cases hs with
  | keeps hk =>
    rw [hk.admissionID, hk.admission, hk.retryPrepared]
    exact .inl rfl
  | fails reason hadm => exact .inr (.fail hadm)
  | admits hadm => exact .inr (.publish hadm)
  | withdraws hadm =>
    refine .inr ?_
    split
    case isTrue hu => exact .withdrawUnpublished hu
    case isFalse hu =>
      refine .withdraw ?_
      change (w.holders i).admission = .ready ∨ (w.holders i).admission = .failed
      cases hst : (w.holders i).admission <;> simp_all
  | goesOn => exact .inl rfl
  | completes =>
    unfold Outbound.withdrawComplete
    split <;> exact .inl rfl

/-- **Every event is a step of the admission of a holder, or none.** -/
theorem standing_step (hs : machine.step w e = some (w', o)) (j : ℕ) :
    w'.standing j = w.standing j ∨ (w.standing j).Step (w'.standing j) := by
  have hsection : ∀ {i : ℕ} {h : Outbound} {c : String → ℕ} {pc : Withdrawal},
      Section w i h c pc → w'.holders = Function.update w.holders i h →
      w'.closings = Function.update w.closings i c →
      w'.standing j = w.standing j ∨ (w.standing j).Step (w'.standing j) := by
    intro i h c pc hsec hholders hclosings
    rcases eq_or_ne j i with rfl | hj
    · simpa [standing, hholders, hclosings] using hsec.standing
    · exact .inl (by simp [standing, hholders, hclosings, hj])
  cases did_step hs with
  | holder hsec hholders hclosings => exact hsection hsec hholders hclosings
  | accept i metadata =>
    exact hsection (h := { w.holders i with flows := w.flowCount :: (w.holders i).flows })
      (.keeps ⟨rfl, rfl, rfl, rfl, rfl, fun _ hf => .inl (List.mem_cons_of_mem _ hf)⟩) rfl
      (Function.update_eq_self ..).symm
  | retry hretry =>
    obtain ⟨hholders, -, hclosings, -⟩ := prepareWindowsRetry_eq_some hretry
    rcases hholders j with hsame | ⟨id, hrenew, hid, hprepared, hadm⟩
    · exact .inl (by simp [standing, hsame, hclosings])
    · refine .inr ?_
      have hstep := Standing.Step.renew (s := w.standing j) id hprepared hadm hid
      simpa [standing, hrenew, hclosings, Outbound.renew] using hstep
  | flow f e h x eff hf hflow =>
    have hsec : Section w (w.flows f).owner h (w.closings (w.flows f).owner)
        (w.withdrawals (w.flows f).owner) := by
      rcases flowStep_cases hflow with hk | ⟨hadm, reason, rfl⟩
      · exact .keeps hk
      · exact .fails reason hadm
    exact hsection hsec (by cases eff <;> rfl) (by rw [Function.update_eq_self]; cases eff <;> rfl)

/-- The counts of the channels, kept. -/
theorem counted_step (hs : machine.step w e = some (w', o)) (hc : (w.standing i).Counted) :
    (w'.standing i).Counted := by
  rcases standing_step hs i with h | h
  · exact h ▸ hc
  · exact hc.step h

/-- **Every run goes ahead in the life of every holder.** -/
theorem ahead_of_reaches (r : machine.Reaches w w') (hc : (w.standing i).Counted) :
    (w'.standing i).Counted ∧ (w.standing i).Ahead (w'.standing i) := by
  refine r.rel (R := fun a b => (a.standing i).Counted → (b.standing i).Counted ∧
    (a.standing i).Ahead (b.standing i)) (fun _ h => ⟨h, .refl _⟩) ?_ ?_ hc
  · intro a b c hab hbc ha
    obtain ⟨hb, hab⟩ := hab ha
    obtain ⟨hc, hbc⟩ := hbc hb
    exact ⟨hc, hab.trans hbc⟩
  · intro a e b o _ hs ha
    refine ⟨counted_step hs ha, ?_⟩
    rcases standing_step hs i with h | h
    · exact h ▸ .refl _
    · exact h.ahead ha

/-! ## What an event does to the flows -/

/-- **An event raises the flags of some flows, registers a new one, or is a step of one flow**; only
the last kind touches a socket. -/
inductive Moved (w w' : World) : Prop
  | flags (hflows : ∀ f, ∃ c a b, w'.flows f = { w.flows f with
      closed := (w.flows f).closed || c, asked := a, retired := b })
    (hcount : w'.flowCount = w.flowCount) (hclosed : w'.socketClosed = w.socketClosed)
    (hsockets : w'.socketCount = w.socketCount)
  | accepted (i : ℕ) (metadata : Metadata) (isLocal : Bool)
    (hflows : w'.flows = Function.update w.flows w.flowCount (Flow.new i metadata isLocal))
    (hcount : w'.flowCount = w.flowCount + 1) (hclosed : w'.socketClosed = w.socketClosed)
    (hsockets : w'.socketCount = w.socketCount)
  | flow (f : ℕ) (e : FlowEvent) (h : Outbound) (x : Flow) (eff : Effect) (hf : f < w.flowCount)
    (hstep : flowStep (w.holders (w.flows f).owner) (w.surroundings (w.flows f).owner) f (w.flows f) e
      = some (h, x, eff))
    (hw' : w' = ((w.setHolder (w.flows f).owner h).setFlow f x).perform eff)

theorem moved_step (hs : machine.step w e = some (w', o)) : Moved w w' := by
  cases did_step hs with
  | holder _ _ _ _ hflag => exact .flags hflag.flows hflag.count hflag.closed hflag.sockets
  | accept i metadata => exact .accepted i metadata _ rfl rfl rfl rfl
  | retry hretry =>
    obtain ⟨-, hflows, -, -, hcount, hclosed, hsockets⟩ := prepareWindowsRetry_eq_some hretry
    refine .flags (fun f => ?_) hcount hclosed hsockets
    obtain ⟨b, hb⟩ := hflows f
    exact ⟨false, (w.flows f).asked, b, by rw [hb]; simp⟩
  | flow f e h x eff hf hflow => exact .flow f e h x eff hf hflow rfl

@[simp] theorem perform_flows (w : World) (eff : Effect) : (w.perform eff).flows = w.flows := by
  cases eff <;> rfl

@[simp] theorem perform_holders (w : World) (eff : Effect) :
    (w.perform eff).holders = w.holders := by
  cases eff <;> rfl

@[simp] theorem perform_flowCount (w : World) (eff : Effect) :
    (w.perform eff).flowCount = w.flowCount := by
  cases eff <;> rfl

@[simp] theorem perform_withdrawals (w : World) (eff : Effect) :
    (w.perform eff).withdrawals = w.withdrawals := by
  cases eff <;> rfl

end World

end PokrovCore.LocalDpi
