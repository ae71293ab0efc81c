import PokrovCore.SmartAccess.Sections

/-!
# SmartAccess/Invariants — what every run of an outbound keeps

`Ages` is the preorder every section goes up: generations age, flows keep their generation and stay
closed, the latches of the outbound stay set.  `WellFormed` is the invariant of the addresses; with
it the table and the heap name the same generations.
-/

namespace PokrovCore.SmartAccess

namespace Outbound

variable {mark : Mark}

/-! ## Ageing -/

/-- **`h'` is `h` some sections later.** -/
structure Ages (h h' : Outbound) : Prop where
  genCount : h.genCount ≤ h'.genCount
  gens : ∀ g < h.genCount, (h.gens g).Ages (h'.gens g)
  flowCount : h.flowCount ≤ h'.flowCount
  authorization : ∀ f < h.flowCount, (h'.flowOf f).authorization = (h.flowOf f).authorization
  flowClosed : ∀ f < h.flowCount, (h.flowOf f).closed = true → (h'.flowOf f).closed = true
  closed : h.closed = true → h'.closed = true
  revoked : h.revoked = true → h'.revoked = true
  terminateActive : h.terminateActive = true → h'.terminateActive = true

theorem Ages.refl (h : Outbound) : Ages h h :=
  ⟨le_rfl, fun _ _ => .refl _, le_rfl, fun _ _ => rfl, fun _ _ hc => hc, fun hc => hc,
    fun hc => hc, fun hc => hc⟩

theorem Ages.trans {a b c : Outbound} (h : Ages a b) (h' : Ages b c) : Ages a c where
  genCount := h.genCount.trans h'.genCount
  gens := fun g hg => (h.gens g hg).trans (h'.gens g (hg.trans_le h.genCount))
  flowCount := h.flowCount.trans h'.flowCount
  authorization := fun f hf =>
    (h'.authorization f (hf.trans_le h.flowCount)).trans (h.authorization f hf)
  flowClosed := fun f hf hc => h'.flowClosed f (hf.trans_le h.flowCount) (h.flowClosed f hf hc)
  closed := h'.closed ∘ h.closed
  revoked := h'.revoked ∘ h.revoked
  terminateActive := h'.terminateActive ∘ h.terminateActive

variable {h h' : Outbound}

theorem Quiet.ages (hq : Quiet h h') : Ages h h' where
  genCount := hq.genCount.ge
  gens := fun g _ => hq.gens g
  flowCount := hq.flowCount.ge
  authorization := fun f _ => by rw [hq.flowOf]
  flowClosed := fun f _ hc => by rwa [hq.flowOf]
  closed := fun hc => by rwa [hq.closed]
  revoked := fun hc => by rwa [hq.revoked]
  terminateActive := fun hc => by rwa [hq.terminateActive]

variable {φ : LeaseFlow → LeaseFlow}

theorem authorization_modifyFlow (h : Outbound) (f k : ℕ)
    (hauth : ∀ flow, (φ flow).authorization = flow.authorization) :
    ((h.modifyFlow f φ).flowOf k).authorization = (h.flowOf k).authorization := by
  rcases eq_or_ne k f with rfl | hkf
  · simpa [modifyFlow] using hauth (h.flowOf k)
  · simp [modifyFlow, hkf]

/-- A flow may change in place as long as it keeps its generation and stays closed. -/
theorem ages_modifyFlow (h : Outbound) (f : ℕ)
    (hauth : ∀ flow, (φ flow).authorization = flow.authorization)
    (hclosed : ∀ flow, flow.closed = true → (φ flow).closed = true) :
    Ages h (h.modifyFlow f φ) := by
  refine { Ages.refl h with
    authorization := fun k _ => h.authorization_modifyFlow f k hauth
    flowClosed := fun k _ hk => ?_ }
  rcases eq_or_ne k f with rfl | hkf
  · simpa [modifyFlow] using hclosed (h.flowOf k) hk
  · simpa [modifyFlow, hkf] using hk

theorem ages_register (h : Outbound) (now : Sample) : Ages h (h.register now) :=
  { Ages.refl h with
    flowCount := Nat.le_succ _
    authorization := fun f hf => by simp [register, hf.ne]
    flowClosed := fun f hf hc => by simpa [register, hf.ne] using hc }

theorem ages_adopt (h : Outbound) (next : LeaseAuthorization) : Ages h (h.adopt next) :=
  { Ages.refl h with
    genCount := Nat.le_succ _
    gens := fun g hg => by simpa [adopt, hg.ne] using LeaseAuthorization.Ages.refl (h.gens g) }

theorem ages_prune (h : Outbound) (expectedID : String) (now : Sample) :
    Ages h (h.prune expectedID now) := { Ages.refl h with }

/-- **Every section ages the outbound.** -/
theorem Section.ages (hs : Section mark h h') : Ages h h' := by
  cases hs with
  | quiet hq => exact hq.ages
  | admitted hq now => exact hq.ages.trans (ages_register _ now)
  | activated f now _ =>
    exact (h.quiet_latch _ now).ages.trans (ages_modifyFlow _ f (fun _ => rfl) fun _ hc => hc)
  | attached f => exact ages_modifyFlow _ f (fun _ => rfl) fun _ hc => hc
  | flowClosed f => exact ages_modifyFlow _ f (fun _ => rfl) fun _ _ => rfl
  | deregistered f => exact { Ages.refl h with }
  | pruned expectedID clock => exact h.ages_prune expectedID clock.prune
  | adopted expectedID _ clock next => exact (h.ages_prune expectedID _).trans (ages_adopt _ next)
  | revoked t =>
    exact { Ages.refl h with
      revoked := fun _ => rfl
      terminateActive := fun ht => by simp [revoke, ht] }
  | leaseRevoked id g t => exact (h.quiet_modifyGen g fun a => a.ages_restrict t).ages
  | closed => exact { Ages.refl h with closed := fun _ => rfl, terminateActive := fun _ => rfl }

/-! ## Generations -/

/-- **No generation was adopted**: the current one and the heap are the same, up to age. -/
structure Steady (h h' : Outbound) : Prop where
  genCount : h'.genCount = h.genCount
  lease : h'.lease = h.lease
  gens : ∀ g, (h.gens g).Ages (h'.gens g)

theorem Steady.refl (h : Outbound) : Steady h h := ⟨rfl, rfl, fun _ => .refl _⟩

theorem Steady.trans {a b c : Outbound} (h : Steady a b) (h' : Steady b c) : Steady a c :=
  ⟨h'.genCount.trans h.genCount, h'.lease.trans h.lease, fun g => (h.gens g).trans (h'.gens g)⟩

theorem Quiet.steady (hq : Quiet h h') : Steady h h' :=
  ⟨hq.genCount, hq.lease, hq.gens⟩

/-- **A section that renews nothing adopts nothing.** -/
theorem Section.steady (hs : Section mark h h')
    (hmark : ∀ expectedID clock, mark ≠ .renews expectedID clock) : Steady h h' := by
  cases hs with
  | quiet hq => exact hq.steady
  | admitted hq now => exact ⟨hq.genCount, hq.lease, hq.gens⟩
  | activated f now =>
    have hq := h.quiet_latch (h.flowOf f).authorization now
    exact ⟨hq.genCount, hq.lease, hq.gens⟩
  | attached | flowClosed | deregistered | revoked | closed => exact ⟨rfl, rfl, fun _ => .refl _⟩
  | pruned expectedID clock hm => exact absurd hm (hmark expectedID clock)
  | adopted expectedID _ clock _ hm => exact absurd hm (hmark expectedID clock)
  | leaseRevoked id g t => exact (h.quiet_modifyGen g fun a => a.ages_restrict t).steady

theorem steady_prune (h : Outbound) (expectedID : String) (now : Sample) :
    Steady h (h.prune expectedID now) := ⟨rfl, rfl, fun _ => .refl _⟩

/-! ## Well-formedness -/

/-- **Addresses point into the heaps, and the table names what the heap holds.** -/
structure WellFormed (h : Outbound) : Prop where
  lease_lt : h.lease < h.genCount
  lease_mem : h.leases.get? h.current.id = some h.lease
  leases_spec : ∀ id g, h.leases.get? id = some g → g < h.genCount ∧ (h.gens g).id = id
  size_le : h.leases.size ≤ 256
  authorization_lt : ∀ f, (h.flowOf f).authorization < h.genCount
  flows_lt : ∀ f ∈ h.flows, f < h.flowCount

theorem wellFormed_newOutbound (options : OutboundOptions) (lease : LeaseAuthorization) :
    (newOutbound options lease).WellFormed where
  lease_lt := Nat.one_pos
  lease_mem := SortedMap.get?_insert_self _ _ _
  leases_spec := fun id g hg => by
    simp only [newOutbound, SortedMap.get?_insert, SortedMap.get?_empty] at hg
    split_ifs at hg with hid
    obtain rfl := Option.some.inj hg
    exact ⟨Nat.one_pos, hid.symm⟩
  size_le := by
    rw [newOutbound, SortedMap.size_insert_of_absent 0 (SortedMap.get?_empty _)]
    simp
  authorization_lt := fun _ => Nat.one_pos
  flows_lt := fun f hf => by simp [newOutbound] at hf

theorem Quiet.wellFormed (hq : Quiet h h') (hw : h.WellFormed) :
    h'.WellFormed where
  lease_lt := by rw [hq.lease, hq.genCount]; exact hw.lease_lt
  lease_mem := by
    rw [current, hq.lease, (hq.gens h.lease).id, hq.leases]
    exact hw.lease_mem
  leases_spec := fun id g hg => by
    rw [hq.leases] at hg
    obtain ⟨hlt, hid⟩ := hw.leases_spec id g hg
    exact ⟨hq.genCount ▸ hlt, (hq.gens g).id.trans hid⟩
  size_le := by rw [hq.leases]; exact hw.size_le
  authorization_lt := fun f => by
    rw [hq.flowOf, hq.genCount]
    exact hw.authorization_lt f
  flows_lt := fun f hf => by
    rw [hq.flows] at hf
    rw [hq.flowCount]
    exact hw.flows_lt f hf

theorem WellFormed.modifyFlow (hw : h.WellFormed) (f : ℕ)
    (hauth : ∀ flow, (φ flow).authorization = flow.authorization) :
    (h.modifyFlow f φ).WellFormed :=
  { hw with
    authorization_lt := fun k => by
      rw [h.authorization_modifyFlow f k hauth]
      exact hw.authorization_lt k }

theorem WellFormed.register (hw : h.WellFormed) (now : Sample) :
    (h.register now).WellFormed :=
  { hw with
    authorization_lt := fun k => by
      rcases eq_or_ne k h.flowCount with rfl | hkf
      · simpa [Outbound.register] using hw.lease_lt
      · simpa [Outbound.register, hkf] using hw.authorization_lt k
    flows_lt := fun k hk => by
      rcases List.mem_append.mp hk with hk | hk
      · exact Nat.lt_succ_of_lt (hw.flows_lt k hk)
      · rw [List.mem_singleton.mp hk]
        exact Nat.lt_succ_self _ }

theorem get?_prune {expectedID id : String} {now : Sample} {g : ℕ} :
    (h.prune expectedID now).leases.get? id = some g ↔
      h.leases.get? id = some g ∧ (id = expectedID ∨ pastActive (h.gens g) now = false) := by
  rw [prune, SortedMap.get?_filter, Option.filter_eq_some_iff]
  simp [Bool.or_eq_true, or_iff_not_imp_left]

theorem WellFormed.prune (hw : h.WellFormed) {expectedID : String}
    (hcur : h.current.id = expectedID) (now : Sample) : (h.prune expectedID now).WellFormed :=
  { hw with
    lease_mem := get?_prune.mpr ⟨hw.lease_mem, .inl hcur⟩
    leases_spec := fun id g hg => hw.leases_spec id g (get?_prune.mp hg).1
    size_le := (SortedMap.size_filter_le _ _).trans hw.size_le }

theorem WellFormed.adopt (hw : h.WellFormed) {next : LeaseAuthorization}
    (hroom : h.leases.size < 256) : (h.adopt next).WellFormed where
  lease_lt := Nat.lt_succ_self _
  lease_mem := by simp [Outbound.adopt, current]
  leases_spec := fun id g hg => by
    simp only [Outbound.adopt, SortedMap.get?_insert] at hg
    split_ifs at hg with hid
    · obtain rfl := Option.some.inj hg
      exact ⟨Nat.lt_succ_self _, by simp [Outbound.adopt, hid]⟩
    · obtain ⟨hlt, hgid⟩ := hw.leases_spec id g hg
      exact ⟨Nat.lt_succ_of_lt hlt, by simpa [Outbound.adopt, hlt.ne] using hgid⟩
  size_le := by
    cases hget : h.leases.get? next.id with
    | none =>
      simp only [Outbound.adopt, SortedMap.size_insert_of_absent _ hget]
      omega
    | some g =>
      simp only [Outbound.adopt, SortedMap.size_insert_of_present _ hget]
      omega
  authorization_lt := fun f => Nat.lt_succ_of_lt (hw.authorization_lt f)
  flows_lt := hw.flows_lt

/-- **Every section keeps an outbound well formed.** -/
theorem Section.wellFormed (hs : Section mark h h') (hw : h.WellFormed) :
    h'.WellFormed := by
  cases hs with
  | quiet hq => exact hq.wellFormed hw
  | admitted hq now => exact (hq.wellFormed hw).register now
  | activated f now _ => exact ((h.quiet_latch _ now).wellFormed hw).modifyFlow f fun _ => rfl
  | attached f => exact hw.modifyFlow f fun _ => rfl
  | flowClosed f => exact hw.modifyFlow f fun _ => rfl
  | deregistered f =>
    exact { hw with flows_lt := fun k hk => hw.flows_lt k (List.mem_filter.mp hk).1 }
  | pruned expectedID clock _ hcur => exact hw.prune hcur clock.prune
  | adopted expectedID _ clock next _ hc hroom => exact (hw.prune hc.current clock.prune).adopt hroom
  | revoked t => exact { hw with }
  | leaseRevoked id g t => exact (h.quiet_modifyGen g fun a => a.ages_restrict t).wellFormed hw
  | closed => exact { hw with }

end Outbound

namespace World

variable {w w' : World}

/-- **Every run ages the outbound.** -/
theorem ages_of_reaches (h : machine.Reaches w w') : w.outbound.Ages w'.outbound :=
  h.rel (R := fun a b => a.outbound.Ages b.outbound) (fun _ => .refl _)
    (fun _ _ _ hab hbc => hab.trans hbc) fun _ _ _ _ _ hs => (step_section hs).ages

/-- **Every run keeps the outbound well formed.** -/
theorem wellFormed_of_reaches (h : machine.Reaches w w') (hw : w.outbound.WellFormed) :
    w'.outbound.WellFormed :=
  h.invariant (P := fun a => a.outbound.WellFormed)
    (fun _ _ _ _ _ hs => (step_section hs).wellFormed) hw

end World

end PokrovCore.SmartAccess
