import PokrovCore.SmartAccess.Invariants

/-!
# SmartAccess/DataCalls — the fence in front of every read and write

A data call runs `current` before it touches the transport, and a `Read` runs it again afterwards.
`CallMove` is the program of one call, and `step_calls` says that an event leaves the calls alone,
enters one, or moves one along its program.

`Fenced` are the counters from which a call can only return `0, errLease`.  A call stays fenced while
the generation of its flow is terminated (`fenced_of_terminated`), and a call that was entered past
the active deadline is fenced from the start.
-/

namespace PokrovCore.SmartAccess.World

variable {w w' : World}

/-- **One step of the program of a data call.** -/
inductive CallMove (w : World) (call : IoCall) : IoPc → Prop
  | closed (held : Option IoResult) (hpc : call.pc = .expired held) :
    CallMove w call (.returned errLease)
  | terminated (held : Option IoResult) (hpc : call.pc = .clocked held)
    (ht : w.outbound.terminated call.flow = true) : CallMove w call (.returned errLease)
  | owned (held : Option IoResult) (hpc : call.pc = .clocked held)
    (ht : w.outbound.terminated call.flow = false) : CallMove w call (.owned held)
  | flowClosed (held : Option IoResult) (hpc : call.pc = .owned held) :
    CallMove w call (.returned errLease)
  | passed (hpc : call.pc = .owned none) : CallMove w call .transfer
  | finished (result : IoResult) (hpc : call.pc = .owned (some result)) :
    CallMove w call (.returned result)
  | transferred (result : IoResult) (pc : IoPc) (hpc : call.pc = .transfer)
    (hto : pc = .again result ∨ pc = .returned result) : CallMove w call pc
  | again (result : IoResult) (now : Sample) (hpc : call.pc = .again result) :
    CallMove w call (w.clockPc call.flow now (some result))

/-- **What an event does to the data calls.** -/
inductive CallStep (w : World) : World → Prop
  | same {w' : World} (hcalls : w'.calls = w.calls) (hcount : w'.callCount = w.callCount) :
    CallStep w w'
  | entered {w' : World} (f : ℕ) (remote : Bool) (kind : IoKind) (now : Sample)
    (hf : f < w.outbound.flowCount) (hout : w'.outbound = w.outbound)
    (hcalls : w'.calls = Function.update w.calls w.callCount
      ⟨f, remote, kind, now, w.clockPc f now none⟩)
    (hcount : w'.callCount = w.callCount + 1) : CallStep w w'
  | moved {w' : World} (c : ℕ) (pc : IoPc) (hmove : CallMove w (w.calls c) pc)
    (hcalls : w'.calls = Function.update w.calls c { w.calls c with pc := pc })
    (hcount : w'.callCount = w.callCount) : CallStep w w'

theorem stepAdmit_calls (w : World) (port : ℕ) (now : Sample) :
    CallStep w (w.stepAdmit port now).1 := by
  unfold stepAdmit
  split_ifs
  · exact .same rfl rfl
  · dsimp only
    split <;> exact .same rfl rfl

theorem stepReserve_calls (w : World) (policy : RelayConnectPolicy) (f attempt : ℕ)
    (visited : List ℕ) (cancelled : Bool) (now : Sample) :
    CallStep w (w.stepReserve policy f attempt visited cancelled now) := by
  unfold stepReserve
  split_ifs <;> exact .same rfl rfl

theorem step_calls {e : Event} {o : Output} (h : w.step e = some (w', o)) : CallStep w w' := by
  cases e with
  | newConnection port now =>
    obtain rfl := Machine.state_eq h
    exact w.stepAdmit_calls port now
  | hello | echFailure | secondCheck | setRemote | activate | closeFlow | deregister =>
    obtain ⟨_, rfl⟩ := Machine.guarded h
    exact .same rfl rfl
  | query | canRenewLease | dnsFailed | renewLease | revoke | revokeLease | close =>
    obtain rfl := Machine.state_eq h
    exact .same rfl rfl
  | reserve f cancelled now =>
    simp only [step] at h
    split at h
    · obtain rfl := Machine.state_eq h
      exact w.stepReserve_calls _ f _ _ cancelled now
    · cases h
  | dial f result now =>
    simp only [step] at h
    split at h
    · obtain rfl := Machine.state_eq h
      exact .same rfl rfl
    · obtain rfl := Machine.state_eq h
      exact .same rfl rfl
    · cases h
  | ioEnter f remote kind now =>
    obtain ⟨hf, rfl⟩ := Machine.guarded h
    exact .entered f remote kind now hf rfl rfl rfl
  | ioClose c =>
    simp only [step] at h
    split at h
    · rename_i held hpc
      obtain rfl := Machine.state_eq h
      exact .moved c _ (.closed held hpc) rfl rfl
    · cases h
  | ioOwner c =>
    simp only [step] at h
    split at h
    · rename_i held hpc
      obtain rfl := Machine.state_eq h
      refine .moved c _ ?_ rfl rfl
      split_ifs with ht
      · exact .terminated held hpc ht
      · exact .owned held hpc (by simpa using ht)
    · cases h
  | ioFlow c =>
    simp only [step] at h
    split at h
    · rename_i held hpc
      obtain rfl := Machine.state_eq h
      refine .moved c _ ?_ rfl rfl
      split_ifs
      · exact .flowClosed held hpc
      · cases held with
        | none => exact .passed hpc
        | some result => exact .finished result hpc
    · cases h
  | ioTransfer c result =>
    simp only [step] at h
    split at h
    · rename_i hpc
      obtain rfl := Machine.state_eq h
      refine .moved c _ (.transferred result _ hpc ?_) rfl rfl
      split_ifs
      · exact .inl rfl
      · exact .inr rfl
    · cases h
  | ioAgain c now =>
    simp only [step] at h
    split at h
    · rename_i result hpc
      obtain rfl := Machine.state_eq h
      exact .moved c _ (.again result now hpc) rfl rfl
    · cases h

/-! ## The fence -/

/-- The counters from which a call can only return `0, errLease`, as long as its flow is past its
lease or terminated. -/
def Fenced (pc : IoPc) : Prop :=
  pc = .expired none ∨ pc = .clocked none ∨ pc = .returned errLease

/-- **A call refused**: it transfers nothing, returns nothing but `0, errLease`, and one step of its
own makes it return that. -/
structure Refuses (w : World) (c : ℕ) : Prop where
  transfer : ∀ result, w.step (.ioTransfer c result) = none
  returns : ∀ result, (w.calls c).pc = .returned result → result = errLease
  progress : (w.calls c).pc = .returned errLease ∨
    ∃ e w' o, w.step e = some (w', o) ∧ (w'.calls c).pc = .returned errLease

@[simp] theorem callGoto_pc (w : World) (c : ℕ) (pc : IoPc) :
    ((w.callGoto c pc).calls c).pc = pc := by
  simp [callGoto]

/-- A fenced call of a terminated flow is refused. -/
theorem Fenced.refuses {c : ℕ} (h : Fenced (w.calls c).pc)
    (ht : w.outbound.terminated (w.calls c).flow = true) : Refuses w c := by
  rcases h with h | h | h
  · refine ⟨fun r => by simp only [step, h], fun r hr => by simp [h] at hr, .inr ?_⟩
    exact ⟨.ioClose c, (w.put (w.outbound.closeFlow (w.calls c).flow)).callGoto c
      (.returned errLease), .none, by simp only [step, h], callGoto_pc _ c _⟩
  · refine ⟨fun r => by simp only [step, h], fun r hr => by simp [h] at hr, .inr ?_⟩
    exact ⟨.ioOwner c, w.callGoto c (.returned errLease), .none,
      by simp only [step, h, ht, if_true], callGoto_pc _ c _⟩
  · exact ⟨fun r => by simp only [step, h], fun r hr => by simpa [h] using hr.symm, .inl h⟩

/-- A step of the program keeps a call of a terminated flow fenced. -/
theorem CallMove.fenced {call : IoCall} {pc : IoPc} (hm : CallMove w call pc)
    (ht : w.outbound.terminated call.flow = true) (h : Fenced call.pc) : Fenced pc := by
  cases hm with
  | closed | terminated | flowClosed => exact .inr (.inr rfl)
  | owned held hpc hnot => simp [ht] at hnot
  | passed hpc | finished result hpc => simp [Fenced, hpc] at h
  | transferred result pc hpc => simp [Fenced, hpc] at h
  | again result now hpc => simp [Fenced, hpc] at h

/-- Is a generation terminated, alone or with the whole outbound? -/
def GenTerminated (w : World) (g : ℕ) : Prop :=
  w.outbound.terminateActive = true ∨ (w.outbound.gens g).terminateActive = true

theorem terminated_iff {f : ℕ} : w.outbound.terminated f = true ↔ w.GenTerminated (w.gen f) := by
  simp [Outbound.terminated, GenTerminated, gen]

/-- The data calls numbered from `n` on are of allocated flows and, on a generation of `G`,
fenced. -/
def FencedFrom (n : ℕ) (G : ℕ → Prop) (w : World) : Prop :=
  ∀ c, n ≤ c → c < w.callCount → (w.calls c).flow < w.outbound.flowCount ∧
    (G (w.gen (w.calls c).flow) → Fenced (w.calls c).pc)

theorem step_fencedFrom {n : ℕ} {G : ℕ → Prop} {e : Event} {o : Output}
    (h : w.step e = some (w', o)) (hG : ∀ g, G g → w.GenTerminated g) (hf : FencedFrom n G w) :
    FencedFrom n G w' := by
  have hages := (step_section h).ages
  have hgen : ∀ f < w.outbound.flowCount, w'.gen f = w.gen f := hages.authorization
  cases step_calls h with
  | same hcalls hcount =>
    intro c hn hc
    obtain ⟨hlt, hfence⟩ := hf c hn (hcount ▸ hc)
    rw [hcalls, hgen _ hlt]
    exact ⟨hlt.trans_le hages.flowCount, hfence⟩
  | entered f remote kind now hlt hout hcalls hcount =>
    intro c hn hc
    rw [hcount] at hc
    rcases eq_or_ne c w.callCount with rfl | hne
    · rw [hcalls, Function.update_self]
      refine ⟨hlt.trans_le hages.flowCount, fun _ => ?_⟩
      -- A call entered now has answered only the clock part of `current`.
      dsimp only [clockPc]
      split_ifs
      · exact .inl rfl
      · exact .inr (.inl rfl)
    · obtain ⟨hlt', hfence⟩ := hf c hn (lt_of_le_of_ne (Nat.lt_succ_iff.mp hc) hne)
      rw [hcalls, Function.update_of_ne hne, hgen _ hlt']
      exact ⟨hlt'.trans_le hages.flowCount, hfence⟩
  | moved k pc hmove hcalls hcount =>
    intro c hn hc
    obtain ⟨hlt, hfence⟩ := hf c hn (hcount ▸ hc)
    rcases eq_or_ne c k with rfl | hne
    · rw [hcalls, Function.update_self]
      dsimp only
      rw [hgen _ hlt]
      exact ⟨hlt.trans_le hages.flowCount, fun hg =>
        hmove.fenced (terminated_iff.mpr (hG _ hg)) (hfence hg)⟩
    · rw [hcalls, Function.update_of_ne hne, hgen _ hlt]
      exact ⟨hlt.trans_le hages.flowCount, hfence⟩

theorem GenTerminated.of_reaches {g : ℕ} (hr : machine.Reaches w w')
    (hg : g < w.outbound.genCount) (h : w.GenTerminated g) : w'.GenTerminated g :=
  h.imp (ages_of_reaches hr).terminateActive ((ages_of_reaches hr).gens g hg).terminateActive

/-- **The fence of a terminated generation**: every call entered from now on, on a flow of one of
the generations `G`, is refused. -/
theorem refuses_of_terminated {G : ℕ → Prop} (hr : machine.Reaches w w')
    (hG : ∀ v, machine.Reaches w v → ∀ g, G g → v.GenTerminated g) {c : ℕ}
    (hc : w.callCount ≤ c) (hc' : c < w'.callCount) (hg : G (w'.gen (w'.calls c).flow)) :
    Refuses w' c := by
  have hfrom : machine.Reaches w w' ∧ FencedFrom w.callCount G w' :=
    hr.invariant (P := fun v => machine.Reaches w v ∧ FencedFrom w.callCount G v)
      (fun a _ _ _ _ hs ⟨hrun, hf⟩ => ⟨hrun.snoc trivial hs, step_fencedFrom hs (hG a hrun) hf⟩)
      ⟨.refl w, fun _ hn hlt => absurd hlt (not_lt.mpr hn)⟩
  exact ((hfrom.2 c hc hc').2 hg).refuses (terminated_iff.mpr (hG w' hr _ hg))

end PokrovCore.SmartAccess.World
