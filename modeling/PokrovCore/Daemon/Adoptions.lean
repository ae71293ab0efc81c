import PokrovCore.Daemon.ServiceInvariants

/-!
# Daemon/Adoptions — the two ways to adopt a generation

The host and the worker renew through the same method of the outbound, each with a callback that
commits the recovery bound before the successor is adopted.

* `retained_retainExpiry` — the host's callback: the bound grows to cover the successor, and the
  record of a live worker grows first.
* `adoptLease_application` — the worker's: nothing is adopted, or both generations were retained
  just before.
-/

namespace PokrovCore.Daemon

open SmartAccess (World)

namespace Service

/-! ## By the host -/

/-- A record that covers a bound, for as long as its worker is live. -/
def BackedBy (j : Journal) (w : Worker) (e : Option Date) : Prop :=
  j.live w.config.profileDigest = some w.journalGeneration →
    ∃ r, Journal.lookup w.config.profileDigest j.records = some r ∧
      (expiryTime e).wall ≤ (expiryTime r.expiresAt).wall

variable {w : Worker}

theorem BackedBy.kept {j j' : Journal} {e : Option Date} (h : BackedBy j w e)
    (hk : Journal.Kept Journal.Outlasts j j') : BackedBy j' w e := fun hlive => by
  obtain ⟨r, hr, hle⟩ := h (hk.live hlive)
  obtain ⟨r', hr', hrr⟩ := hk.record hlive hr
  exact ⟨r', hr', hle.trans hrr.wall⟩

/-- **What the host's callback does for a date**, `b` being whether it succeeded. -/
structure Retained (control : Option (ℕ × Worker)) (write : Bool) (d : Date) (st st' : Bound)
    (b : Bool) : Prop where
  grows : (expiryTime st.1).wall ≤ (expiryTime st'.1).wall
  covers : b = true → d.toTime.wall ≤ (expiryTime st'.1).wall
  journals : ∀ q, Journal.Kept Carries (st.2 q) (st'.2 q)
  live : ∀ q, (st'.2 q).live = (st.2 q).live
  backed : ∀ k w, control = some (k, w) → BackedBy (st.2 w.journal) w st.1 →
    BackedBy (st'.2 w.journal) w st'.1
  unwritten : write = false → st'.2 = st.2

variable {control : Option (ℕ × Worker)}

theorem Retained.refl {write : Bool} {d : Date} (st : Bound) :
    Retained control write d st st false :=
  ⟨le_rfl, fun hb => (by cases hb), fun _ => .refl Carries.refl _, fun _ => rfl,
    fun _ _ _ hb => hb, fun _ => rfl⟩

theorem retained_retainExpiry {write : Bool} {d : Date} {st st' : Bound} {b : Bool}
    (hwf : ∀ q, (st.2 q).Wf) (h : retainExpiry control write d st = (st', b)) :
    Retained control write d st st' b := by
  have hrefl : ∀ q, Journal.Kept Carries (st.2 q) (st.2 q) := fun _ => .refl Carries.refl _
  unfold retainExpiry at h
  split at h
  · -- the shortcut: the bound covers the date already
    rename_i hafter
    obtain ⟨rfl, rfl⟩ := Prod.mk.inj h
    rw [after_expiryTime, Bool.not_eq_true', decide_eq_false_iff_not, not_lt] at hafter
    exact ⟨le_rfl, fun _ => hafter, hrefl, fun _ => rfl, fun _ _ _ hb => hb, fun _ => rfl⟩
  rename_i hafter
  rw [Bool.not_eq_true, Bool.not_eq_false'] at hafter
  have hgrows : (expiryTime st.1).wall ≤ (expiryTime (some d)).wall :=
    (ExpiryLe.of_after hafter).wall
  split at h
  · obtain ⟨rfl, rfl⟩ := Prod.mk.inj h
    exact ⟨hgrows, fun _ => le_rfl, hrefl, fun _ => rfl, fun _ _ hc => (by cases hc), fun _ => rfl⟩
  rename_i k w
  have hkept := Journal.kept_extendExpiry w.config.profileDigest w.journalGeneration d write
    (hwf w.journal)
  have hlive := Journal.extendExpiry_live w.config.profileDigest w.journalGeneration d write
    (st.2 w.journal)
  have hsame := Journal.extendExpiry_unwritten w.config.profileDigest w.journalGeneration d
    (st.2 w.journal)
  have hjournals : ∀ {j : Journal}, Journal.Kept Carries (st.2 w.journal) j →
      ∀ q, Journal.Kept Carries (st.2 q) (Function.update st.2 w.journal j q) := fun hj =>
    (Function.forall_update_iff st.2 fun q j => Journal.Kept Carries (st.2 q) j).mpr
      ⟨hj, fun q _ => hrefl q⟩
  have hlives : ∀ {j : Journal}, j.live = (st.2 w.journal).live →
      ∀ q, (Function.update st.2 w.journal j q).live = (st.2 q).live := fun hj =>
    (Function.forall_update_iff st.2 fun q j => j.live = (st.2 q).live).mpr ⟨hj, fun _ _ => rfl⟩
  split at h <;> rename_i j _ heq <;> obtain ⟨rfl, rfl⟩ := Prod.mk.inj h <;>
    rw [heq] at hkept hlive
  · refine ⟨le_rfl, fun hb => (by cases hb), hjournals hkept, hlives hlive, fun k' w' hw hb => ?_, ?_⟩
    · obtain ⟨_, rfl⟩ := Prod.mk.inj (Option.some.inj hw)
      dsimp only
      rw [Function.update_self]
      exact hb.kept (hkept.mono fun _ _ h => h.expiry)
    · rintro rfl
      rw [heq] at hsame
      dsimp only at hsame ⊢
      rw [hsame, Function.update_eq_self]
  · refine ⟨hgrows, fun _ => le_rfl, hjournals hkept, hlives hlive, fun k' w' hw _ => ?_, ?_⟩
    · obtain ⟨_, rfl⟩ := Prod.mk.inj (Option.some.inj hw)
      dsimp only
      rw [Function.update_self]
      exact fun hlive => Journal.extendExpiry_ok (hwf w.journal) heq (hkept.live hlive)
    · rintro rfl
      rw [heq] at hsame
      dsimp only at hsame ⊢
      rw [hsame, Function.update_eq_self]

/-! ## By the worker -/

variable {lease : LeaseIdentity} {s : Service} {a : Attempt}

theorem retainBoth_ok {d : RenewalDecision} {ids : List String} {world : ApplyWorld} {date : Date}
    {j j' : Journal} (h : s.retainBoth w a d lease ids world date j = (j', true)) :
    j.retainRenewal w.config.profileDigest w.journalGeneration a.previous lease
      (ids.filterMap (Hex.ofString? 32)) world.retain world.write = (j', .ok ()) := by
  unfold retainBoth at h
  split at h
  · split at h
    · cases (Prod.mk.inj h).2
    · rename_i heq
      rw [heq, (Prod.mk.inj h).1]
  · cases (Prod.mk.inj h).2

variable {out : World}

/-- The outbound an application is about runs the captured lease. -/
theorem target_spec {leases : List World} {previous : LeaseIdentity} {n : ℕ}
    (h : target leases previous = some (n, out)) :
    leases[n]? = some out ∧ out.outbound.leaseID = previous.leaseID.text := by
  obtain ⟨m, hm, h⟩ := Option.bind_eq_some_iff.mp h
  obtain ⟨w, hw, h⟩ := Option.map_eq_some_iff.mp h
  obtain ⟨rfl, rfl⟩ := Prod.mk.inj h
  obtain ⟨hlt, hid, _⟩ := List.findIdx?_eq_some_iff_getElem.mp hm
  obtain ⟨_, rfl⟩ := List.getElem?_eq_some_iff.mp hw
  exact ⟨hw, of_decide_eq_true hid⟩

/-- The service with one outbound and the journal of a worker replaced. -/
def retainedAt (s : Service) (w : Worker) (n : ℕ) (out : World) (j : Journal) : Service :=
  (s.modifyInstance w.box (putLease n out)).putJournal w.journal j

/-- …and with the enrollment and the bound moved on to a lease. -/
def adoptedAt (s : Service) (w : Worker) (e : ℕ) (lease : LeaseIdentity) (n : ℕ) (out : World)
    (j : Journal) : Service :=
  ((s.retainedAt w n out j).modifyEnrollment e ({ · with current := lease })).modifyInstance w.box
    (raiseBound lease.activeFlowsUntil)

/-- **What applying a renewal can do.** -/
inductive Application (s : Service) (w : Worker) (a : Attempt) (lease : LeaseIdentity)
    (ids : List String) (n : ℕ) (out : World) (world : ApplyWorld) : Service → Bool → Prop
  | refused (out' : World) (j : Journal) (hout : out.outbound.Steady out'.outbound)
    (hj : Journal.Kept Carries (s.journals w.journal) j) :
    Application s w a lease ids n out world (s.retainedAt w n out' j) false
  | adopted (out' : World) (j : Journal) (next : SmartAccess.LeaseAuthorization)
    (hc : SmartAccess.Outbound.Candidate out.outbound a.previous.leaseID.text (grantOf lease)
      world.renew next)
    (hret : (s.journals w.journal).retainRenewal w.config.profileDigest w.journalGeneration
      a.previous lease (ids.filterMap (Hex.ofString? 32)) world.retain world.write = (j, .ok ()))
    (hout : out'.outbound =
      (out.outbound.prune a.previous.leaseID.text world.renew.prune).adopt next) :
    Application s w a lease ids n out world (s.adoptedAt w a.enrollment lease n out' j) true

/-- Either way the journals keep their workers. -/
theorem Application.journals {s' : Service} {ids : List String} {n : ℕ} {world : ApplyWorld}
    {b : Bool} (h : Application s w a lease ids n out world s' b) (hwf : (s.journals w.journal).Wf)
    (q : Path) :
    Journal.Kept Carries (s.journals q) (s'.journals q) := by
  have hput : ∀ {j : Journal}, Journal.Kept Carries (s.journals w.journal) j →
      Journal.Kept Carries (s.journals q) (Function.update s.journals w.journal j q) := fun hj =>
    (Function.forall_update_iff s.journals fun q j => Journal.Kept Carries (s.journals q) j).mpr
      ⟨hj, fun _ _ => .refl Carries.refl _⟩ q
  cases h with
  | refused out' j hout hj => exact hput hj
  | adopted out' j next hc hret hout =>
    have hkept := Journal.kept_retainRenewal w.config.profileDigest w.journalGeneration a.previous
      lease (ids.filterMap (Hex.ofString? 32)) world.retain world.write hwf
    rw [hret] at hkept
    exact hput hkept

/-- **A worker adopts only what it has just retained.**  The outbound's answer to an exact retry
does not come up: a verified successor has another id than the lease the outbound runs. -/
theorem adoptLease_application (hwf : ∀ q, (s.journals q).Wf) (w : Worker) (d : RenewalDecision)
    (ids : List String) {leases : List World} {n : ℕ} (world : ApplyWorld)
    (htarget : target leases a.previous = some (n, out)) (hsucc : Succeeds a.previous lease) :
    Application s w a lease ids n out world (s.adoptLease w a d lease ids n out world).1
      (s.adoptLease w a d lease ids n out world).2 := by
  have hid := (target_spec htarget).2
  have hkept : ∀ {date : Date} {j : Journal} {b : Bool},
      s.retainBoth w a d lease ids world date (s.journals w.journal) = (j, b) →
      Journal.Kept Carries (s.journals w.journal) j := by
    intro date j b h
    have hk := Journal.kept_retainRenewal w.config.profileDigest w.journalGeneration a.previous
      lease (ids.filterMap (Hex.ofString? 32)) world.retain world.write (hwf w.journal)
    unfold retainBoth at h
    split at h
    · split at h <;> rename_i heq <;> rw [heq] at hk <;> obtain ⟨rfl, _⟩ := Prod.mk.inj h <;>
        exact hk
    · obtain ⟨rfl, _⟩ := Prod.mk.inj h
      exact .refl Carries.refl _
  have hsame : Journal.Kept Carries (s.journals w.journal) (s.journals w.journal) :=
    .refl Carries.refl _
  have hprune := out.outbound.steady_prune a.previous.leaseID.text world.renew.prune
  have hstep := out.outbound.renewLease_step a.previous.leaseID.text (grantOf lease) world.renew
    (s.retainBoth w a d lease ids world) (s.journals w.journal)
  unfold adoptLease
  generalize out.outbound.renewLease a.previous.leaseID.text (grantOf lease) world.renew
    (s.retainBoth w a d lease ids world) (s.journals w.journal) = r at hstep ⊢
  obtain ⟨h', j', o⟩ := r
  dsimp only at hstep ⊢
  cases hstep with
  | absent => exact .refused (putRenewed out _ world.renew) _ (.refl _) hsame
  | refused => exact .refused (putRenewed out _ world.renew) _ (.refl _) hsame
  | retried next hr hbuilt hs =>
    exfalso
    simp only [SmartAccess.Outbound.sameGrant, Bool.and_eq_true, beq_iff_eq] at hs
    have hnext := (SmartAccess.newLeaseAuthorization_spec hbuilt).1
    exact hsucc.id (Hex.text_injective (hnext.symm.trans (hs.1.1.1.symm.trans hid)))
  | full next hc => exact .refused (putRenewed out _ world.renew) _ hprune hsame
  | unretained next hc _ hret =>
    exact .refused (putRenewed out _ world.renew) _ hprune (hkept hret)
  | late next hc _ hret => exact .refused (putRenewed out _ world.renew) _ hprune (hkept hret)
  | adopted next hc _ _ hret _ =>
    exact .adopted (putRenewed out _ world.renew) _ next hc (retainBoth_ok hret) rfl

end Service

end PokrovCore.Daemon
