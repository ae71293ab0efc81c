import PokrovCore.Daemon.Enrollment
import PokrovCore.Daemon.RecoveryBound

/-!
# Daemon/RecoveryExpiry — the recovery bound covers all authority

Over the invariant, what a step does to one outbound: it keeps its current lease, or it adopts one
the file covers already (`step_outcome`).  `recovery_expiry_covers_authority` puts both together.
-/

namespace PokrovCore.Daemon

open SmartAccess (World sampleClock)

namespace Service

variable {s s' : Service} {write : Bool}

/-! ## Adopting -/

/-- **One generation is adopted**, by an outbound of the current instance: if its worker is live, the
file covers the successor, and without a write only because it did before. -/
structure Adopts (write : Bool) (s s' : Service) (i : ℕ) (inst : Instance) (v v' : World) :
    Prop where
  current : s.current = some i
  genCount : v'.outbound.genCount = v.outbound.genCount + 1
  lease : v'.outbound.lease = v.outbound.genCount
  unwritten : write = false → s'.journals = s.journals
  filed : ∀ {k : ℕ} {w : Worker}, inst.smartAccessControl = some k → s.workers[k]? = some w →
    (s.journals w.journal).live w.config.profileDigest = some w.journalGeneration →
    ∃ f, (s'.journals w.journal).filed w.config.profileDigest = some f ∧
      v'.outbound.current.activeUntil.toTime.wall ≤ (expiryTime f.expiresAt).wall

theorem Adopts.steady {i : ℕ} {inst : Instance} {v v₁ v' : World} {s₁ : Service}
    (h : Adopts write s s₁ i inst v v₁) (hs : v₁.outbound.Steady v'.outbound)
    (hj : s'.journals = s₁.journals) : Adopts write s s' i inst v v' where
  current := h.current
  genCount := hs.genCount.trans h.genCount
  lease := hs.lease.trans h.lease
  unwritten hw := hj.trans (h.unwritten hw)
  filed hk hkw hlive := by
    obtain ⟨f, hf, hle⟩ := h.filed hk hkw hlive
    refine ⟨f, by rw [hj, hf], ?_⟩
    rw [SmartAccess.Outbound.current, hs.lease, (hs.gens _).activeUntil]
    exact hle

/-- The file has the expiry of a live worker's record. -/
theorem filed_of_live {j : Journal} {p : Digest} {g : Generation} {r : Record} (hw : j.Wf)
    (hlive : j.live p = some g) (hr : Journal.lookup p j.records = some r) :
    ∃ f, j.filed p = some f ∧ f.expiresAt = r.expiresAt := by
  obtain ⟨r', f, hr', hf, _, hexp, _⟩ := hw.pledged hlive
  obtain rfl := Option.some.inj (hr.symm.trans hr')
  exact ⟨f, hf, hexp⟩

/-- What becomes of one outbound in a step. -/
def Outcome (write : Bool) (s s' : Service) (i : ℕ) (inst : Instance) (n : ℕ) (v : World) : Prop :=
  ∃ inst' v', s'.instances[i]? = some inst' ∧ inst'.leases[n]? = some v' ∧
    (v.outbound.Steady v'.outbound ∨ Adopts write s s' i inst v v')

section

variable {i n : ℕ} {inst : Instance} {v : World}

theorem outcome_kept {x : Instance} (hn : inst.leases[n]? = some v)
    (hi' : s'.instances[i]? = some x) (hk : SteadyLeases inst.leases x.leases) :
    Outcome write s s' i inst n v := by
  obtain ⟨v', hv', hvv⟩ := Heap.forward hk hn
  exact ⟨x, v', hi', hv', .inl hvv⟩

theorem outcome_adopt {x : Instance} {m : ℕ} {w w' : World} {id : String} {now : Sample}
    {next : SmartAccess.LeaseAuthorization} (hn : inst.leases[n]? = some v)
    (hi' : s'.instances[i]? = some x) (hw : inst.leases[m]? = some w)
    (hw' : w'.outbound = (w.outbound.prune id now).adopt next)
    (hs : SteadyLeases (inst.leases.set m w') x.leases) (hcurrent : s.current = some i)
    (hunwritten : write = false → s'.journals = s.journals)
    (hfiled : ∀ {k : ℕ} {w : Worker}, inst.smartAccessControl = some k → s.workers[k]? = some w →
      (s.journals w.journal).live w.config.profileDigest = some w.journalGeneration →
      ∃ f, (s'.journals w.journal).filed w.config.profileDigest = some f ∧
        next.activeUntil.toTime.wall ≤ (expiryTime f.expiresAt).wall) :
    Outcome write s s' i inst n v := by
  by_cases hmn : m = n
  · subst hmn
    obtain rfl := Option.some.inj (hw.symm.trans hn)
    have hset : (inst.leases.set m w')[m]? = some w' := by
      rw [List.getElem?_set_self (List.getElem?_eq_some_iff.mp hw).1]
    obtain ⟨v', hv', hvv⟩ := Heap.forward hs hset
    have hadopt : Adopts write s s' i inst w w' := by
      refine ⟨hcurrent, by rw [hw']; rfl, by rw [hw']; rfl, hunwritten, fun hk hkw hlive => ?_⟩
      have hnew : ((w.outbound.prune id now).adopt next).current = next := Function.update_self ..
      rw [hw', hnew]
      exact hfiled hk hkw hlive
    exact ⟨x, v', hi', hv', .inr (hadopt.steady hvv rfl)⟩
  · have hset : (inst.leases.set m w')[n]? = some v := by rw [List.getElem?_set_ne hmn, hn]
    obtain ⟨v', hv', hvv⟩ := Heap.forward hs hset
    exact ⟨x, v', hi', hv', .inl hvv⟩

theorem outcome_other {i₀ : ℕ} {f : Instance → Instance} (hi : s.instances[i]? = some inst)
    (hn : inst.leases[n]? = some v) (hne : i₀ ≠ i)
    (hs' : s'.instances = s.instances.modify i₀ f) : Outcome write s s' i inst n v := by
  refine outcome_kept hn (x := inst) ?_ (steadyLeases_refl _)
  rw [hs']
  exact Heap.getElem?_modify_eq_some.mpr ⟨inst, hi, (if_neg hne).symm⟩

theorem Mild.outcome (h : Mild s s') (hi : s.instances[i]? = some inst)
    (hn : inst.leases[n]? = some v) : Outcome write s s' i inst n v := by
  obtain ⟨inst', hi', hk⟩ := Heap.forward h.instances hi
  exact outcome_kept hn hi' hk.leases

theorem Secured.outcome_renewed (h : Secured s) (hs : Sound s) {i₀ : ℕ} {inst₀ : Instance}
    {expectedID : String} {grant : SmartAccess.Grant} {ws : List World} {st : Bound}
    (hrun : s.running = some (i₀, inst₀))
    (hrenew : RenewedLeases (retainExpiry (s.control inst₀) write) expectedID grant inst₀.leases
      (inst₀.smartAccessRestrictionExpires, s.journals) ws st)
    (hwf : ∀ q, (st.2 q).Wf) (hi : s.instances[i]? = some inst) (hn : inst.leases[n]? = some v) :
    Outcome write s { s.modifyInstance i₀ ({ · with
        leases := ws, smartAccessRestrictionExpires := st.1 }) with journals := st.2 } i inst n v := by
  by_cases hii : i₀ = i
  swap
  · exact outcome_other hi hn hii rfl
  subst hii
  obtain ⟨hcur, hinst⟩ := instance_of_running hrun
  obtain rfl := Option.some.inj (hinst.symm.trans hi)
  have hi' : (s.instances.modify i₀ ({ · with
      leases := ws, smartAccessRestrictionExpires := st.1 }))[i₀]? =
      some { inst₀ with leases := ws, smartAccessRestrictionExpires := st.1 } := by
    rw [List.getElem?_modify_eq, hi]
    rfl
  cases hrenew with
  | untouched hsteady => exact outcome_kept hn hi' hsteady
  | retained hsteady => exact outcome_kept hn hi' hsteady
  | adopted m w w' clock next hw hc hret hw' hsteady =>
    have hr := retained_retainExpiry hs.wf hret
    refine outcome_adopt hn hi' hw hw' hsteady hcur hr.unwritten fun {k u} hk hku hlive => ?_
    have hback := hr.backed k u (control_of_some hk hku)
      (h.backed hinst hk hku (h.latest u hcur hinst hk))
    have hlive' : (st.2 u.journal).live u.config.profileDigest = some u.journalGeneration := by
      rw [hr.live]
      exact hlive
    obtain ⟨r, hlook, hle⟩ := hback hlive'
    obtain ⟨f, hf, hexp⟩ := filed_of_live (hwf u.journal) hlive' hlook
    exact ⟨f, hf, hexp ▸ (hr.covers rfl).trans hle⟩

theorem Application.outcome {k : ℕ} {w : Worker} {inst₀ : Instance} {a : Attempt}
    {lease : LeaseIdentity} {ids : List String} {m : ℕ} {out : World} {world : ApplyWorld} {b : Bool}
    (happ : Application s w a lease ids m out world s' b) (hs : Sound s)
    (hreg : s.registered k w = some inst₀) (hkw : s.workers[k]? = some w)
    (hm : inst₀.leases[m]? = some out) (hwf : ∀ q, (s'.journals q).Wf)
    (hi : s.instances[i]? = some inst) (hn : inst.leases[n]? = some v) :
    Outcome world.write s s' i inst n v := by
  obtain ⟨hrun, hcontrol⟩ := instance_of_registered hreg
  obtain ⟨hcur, hinst⟩ := instance_of_running hrun
  by_cases hii : w.box = i
  swap
  · cases happ with
    | refused => exact outcome_other hi hn hii rfl
    | adopted => exact outcome_other hi hn hii (List.modify_modify_eq ..)
  rw [hii] at hcur hinst
  obtain rfl := Option.some.inj (hinst.symm.trans hi)
  cases happ with
  | refused out' j hout hj =>
    refine outcome_kept hn (x := putLease m out' inst₀) ?_ ?_
    · show (s.instances.modify w.box _)[i]? = _
      rw [hii, List.getElem?_modify_eq, hi]
      rfl
    · exact Heap.forall₂_set (fun x => .refl x.outbound) fun x hx =>
        Option.some.inj (hm.symm.trans hx) ▸ hout
  | adopted out' j next hc hret hout =>
    obtain ⟨hwrite, hlive, hlive', _, _, _, r, _, _, _, _, hr, _, _, hnext⟩ :=
      Journal.retainRenewal_ok (hs.wf w.journal) hret
    have hj : (s.adoptedAt w a.enrollment lease m out' j).journals w.journal = j :=
      Function.update_self ..
    refine outcome_adopt hn (x := raiseBound lease.activeFlowsUntil (putLease m out' inst₀)) ?_
      hm hout ?_ hcur (fun hf => absurd (hwrite.symm.trans hf) (by decide))
      fun {k' u} hk' hku _ => ?_
    · show ((s.instances.modify w.box _).modify w.box _)[i]? = _
      rw [List.modify_modify_eq, hii, List.getElem?_modify_eq, hi]
      rfl
    · rw [raiseBound_leases]
      exact steadyLeases_refl _
    · obtain rfl := Option.some.inj (hcontrol.symm.trans hk')
      obtain rfl := Option.some.inj (hkw.symm.trans hku)
      have hwfj := hwf w.journal
      rw [hj] at hwfj ⊢
      obtain ⟨f, hf, hexp⟩ := filed_of_live hwfj (g := w.journalGeneration)
        (by rw [hlive', hlive]) hr
      refine ⟨f, hf, ?_⟩
      rw [activeUntil_of_candidate hc, hexp]
      exact hnext.wall

theorem Move.outcome (hm : Move write s s') (hs : Sound s) (h : Secured s)
    (hwf : ∀ q, (s'.journals q).Wf) (hi : s.instances[i]? = some inst)
    (hn : inst.leases[n]? = some v) : Outcome write s s' i inst n v := by
  cases hm with
  | none => exact outcome_kept hn hi (steadyLeases_refl _)
  | built => exact outcome_kept hn (Heap.getElem?_concat.mpr (.inl hi)) (steadyLeases_refl _)
  | configured i₀ inst₀ config deadline world q j g =>
    refine outcome_kept hn ((congrArg (·[i]?) (register_instances ..)).trans
      (Heap.getElem?_modify_eq_some.mpr ⟨inst, hi, rfl⟩)) ?_
    split_ifs <;> exact steadyLeases_refl _
  | renewed i₀ inst₀ expectedID grant ws st hrun hrenew =>
    exact h.outcome_renewed hs hrun hrenew hwf hi hn
  | restricted k w reason =>
    exact (mild_perform k w.box _ (Journal.kept_restrict _ _ _ _ (hs.wf w.journal))).outcome hi hn
  | narrowed k w scope action m =>
    exact (mild_perform k w.box _
      (Journal.kept_restrictScope _ _ _ _ _ (hs.wf w.journal))).outcome hi hn
  | adopted k w inst₀ a d lease ids m out world hwrite hk hpc hlease hreg hcap hids htarget =>
    subst hwrite
    exact (adoptLease_application hs.wf w d ids world htarget
      (hs.verified hk hpc lease hlease)).outcome hs hreg hk (target_spec htarget).1 hwf hi hn

theorem step_outcome {crypto : Crypto} {e : Event} {o : Output} (hs : Sound s) (h : Secured s)
    (hstep : s.step crypto e = some (s', o)) (hi : s.instances[i]? = some inst)
    (hn : inst.leases[n]? = some v) : Outcome e.write s s' i inst n v := by
  obtain ⟨s₁, hm, hf, hj⟩ := step_steps hs.wf hstep
  rcases hj with rfl | hj
  · exact hf.mild.outcome hi hn
  · have hwf : ∀ q, (s₁.journals q).Wf := fun q => hj ▸ (step_sound hs hstep).wf q
    obtain ⟨inst₁, v₁, hi₁, hv₁, hout⟩ := hm.outcome hs h hwf hi hn
    obtain ⟨inst', hi', hk⟩ := Heap.forward hf.instances hi₁
    obtain ⟨v', hv', hvv⟩ := Heap.forward hk.leases hv₁
    exact ⟨inst', v', hi', hv', hout.imp (·.trans hvv) (·.steady hvv hj)⟩

end

/-- **The recovery bound covers all authority.**  In every state of every run, no window and no
generation of an instance outlasts its bound, and the record of its live worker, in memory and on
disk, does not expire before it.  In every step an outbound keeps its current lease, or it belongs to
the current instance and adopts one that the file of a live worker covers — without a write, only if
it did before. -/
theorem recovery_expiry_covers_authority (crypto : Crypto) (disk : Path → Option (List Char))
    (s : Service) (hreach : (machine crypto).Reaches (init disk) s) :
    (∀ (i : ℕ) (inst : Instance), s.instances[i]? = some inst → inst.Covered) ∧
    (∀ (i k : ℕ) (inst : Instance) (w : Worker), s.instances[i]? = some inst → inst.smartAccessControl = some k →
      s.workers[k]? = some w → s.current = some i ∨ s.Latest k w →
      (s.journals w.journal).live w.config.profileDigest = some w.journalGeneration →
      ∃ r f, Journal.lookup w.config.profileDigest (s.journals w.journal).records = some r ∧
        (expiryTime inst.smartAccessRestrictionExpires).wall ≤ (expiryTime r.expiresAt).wall ∧
        (s.journals w.journal).filed w.config.profileDigest = some f ∧
        f.expiresAt = r.expiresAt) ∧
    ∀ e s' o, (machine crypto).step s e = some (s', o) →
      ∀ (i n : ℕ) (inst : Instance) (v : World), s.instances[i]? = some inst →
        inst.leases[n]? = some v → Outcome e.write s s' i inst n v := by
  have hs := sound_of_reaches hreach
  have h := secured_of_reaches hreach
  refine ⟨fun _ _ => h.covered, fun i k inst w hi hk hkw hor hlive => ?_,
    fun e s' o hstep i n inst v => step_outcome hs h hstep⟩
  have hlatest : s.Latest k w := hor.elim (fun hc => h.latest w hc hi hk) id
  obtain ⟨r, hr, hle⟩ := h.backed hi hk hkw hlatest hlive
  obtain ⟨f, hf, hexp⟩ := filed_of_live (hs.wf w.journal) hlive hr
  exact ⟨r, f, hr, hle, hf, hexp⟩

/-- The host renews the lease of the sample profile. -/
def sampleRenewal (write : Bool) : Event :=
  .renewSmartAccessLease "00000000000000000000000000000000"
    ⟨"11111111111111111111111111111111", "2026-01-01T00:00:00Z", "2026-01-01T00:06:00Z",
      "2026-01-01T00:12:00Z"⟩ (fun _ => ⟨sampleClock, sampleClock, sampleClock⟩) write

theorem recovery_expiry_covers_authority_sample :
    ∃ s s' t, (machine sampleCrypto).Reaches (init fun _ => none) s ∧
      (machine sampleCrypto).step s (sampleRenewal true) = some (s', .renewal (.ok .renewed)) ∧
      (machine sampleCrypto).step s (sampleRenewal false) =
        some (t, .renewal (.ok .unretained)) ∧
      (∀ (i : ℕ) (inst : Instance), s.instances[i]? = some inst → inst.Covered) ∧
      ∀ (i n : ℕ) (inst : Instance) (v : World), s.instances[i]? = some inst →
        inst.leases[n]? = some v → Outcome true s s' i inst n v ∧ Outcome false s t i inst n v := by
  have hrun : ((machine sampleCrypto).run (init fun _ => none) sampleEnroll).map (fun s =>
      ((s.step sampleCrypto (sampleRenewal true)).map Prod.snd,
        (s.step sampleCrypto (sampleRenewal false)).map Prod.snd)) =
      some (some (.renewal (.ok .renewed)), some (.renewal (.ok .unretained))) := by
    decide +kernel
  obtain ⟨s, hs, hval⟩ := Option.map_eq_some_iff.mp hrun
  obtain ⟨htrue, hfalse⟩ := Prod.mk.inj hval
  obtain ⟨⟨s', o⟩, hs', rfl⟩ := Option.map_eq_some_iff.mp htrue
  obtain ⟨⟨t, o⟩, ht, rfl⟩ := Option.map_eq_some_iff.mp hfalse
  have hreach := Machine.reaches_run hs
  obtain ⟨hcovered, _, hsteps⟩ := recovery_expiry_covers_authority sampleCrypto _ s hreach
  exact ⟨s, s', t, hreach, hs', ht, hcovered, fun i n inst v hi hn =>
    ⟨hsteps (sampleRenewal true) s' _ hs' i n inst v hi hn,
      hsteps (sampleRenewal false) t _ ht i n inst v hi hn⟩⟩

end Service

end PokrovCore.Daemon
