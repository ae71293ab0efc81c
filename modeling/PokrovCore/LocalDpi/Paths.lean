import PokrovCore.Foundations.Custody
import PokrovCore.LocalDpi.LocalFlows

/-!
# LocalDpi/Paths — one connection, one path

A call of `NewConnection` goes through phases: nothing was sent and nothing dialled, then one of the
two paths, then the end.  `OnePath` says per phase what the connection may have done, and `Custody`
that every open socket is in the hand of one call or attached to one flow.
-/

namespace PokrovCore.LocalDpi

/-! ## The phases of a call -/

/-- The phases of a call; at the end either path may lie behind it. -/
inductive Phase
  | undecided
  | offload
  | vpn
  | ended
  deriving DecidableEq, Repr

def Pc.phase : Pc → Phase
  | .handed .offload _ => .offload
  | .vpnDialing | .vpnDialed _ | .vpnAttached | .handed .vpn _ => .vpn
  | .ending | .finishing | .returned => .ended
  | _ => .undecided

/-- The places behind the end of a flow. -/
def Pc.final : Pc → Bool
  | .finishing | .returned => true
  | _ => false

namespace Flow

/-- At most the VPN was used: it was dialled once at most, and no byte went to the local path. -/
structure ViaVpn (x : Flow) : Prop where
  dials : x.vpnDials ≤ 1
  sent : x.localSent = []
  writing : x.writing ≠ some .offload

/-- At most the local path was used. -/
structure ViaLocal (x : Flow) : Prop where
  dials : x.vpnDials = 0
  sent : x.vpnSent = []
  writing : x.writing ≠ some .vpn

/-- What may lie behind a call in a phase. -/
def Behind (x : Flow) : Phase → Prop
  | .undecided => x.ViaVpn ∧ x.ViaLocal ∧ x.remote = none
  | .offload => x.ViaLocal
  | .vpn => x.ViaVpn
  | .ended => x.ViaVpn ∨ x.ViaLocal

/-- **What a call did, by its phase.** -/
structure OnePath (x : Flow) : Prop where
  behind : x.Behind x.pc.phase
  unattached : x.pc = .vpnDialing ∨ (∃ r, x.pc = .vpnDialed r) → x.remote = none
  shut : x.shut = true → x.closed = true
  returned : x.pc = .returned → x.shut = true
  finishing : x.pc = .finishing → x.closed = true

variable {x y : Flow}

theorem onePath_new (i : ℕ) (metadata : Metadata) (isLocal : Bool) :
    (Flow.new i metadata isLocal).OnePath :=
  ⟨⟨⟨Nat.zero_le 1, rfl, nofun⟩, ⟨rfl, rfl, nofun⟩, rfl⟩, by simp [Flow.new], nofun, nofun, nofun⟩

/-- Whatever the phase, at most one path was used. -/
theorem OnePath.path (h : x.OnePath) : x.ViaVpn ∨ x.ViaLocal := by
  have hb := h.behind
  cases hp : x.pc.phase <;> rw [hp] at hb
  · exact .inl hb.1
  · exact .inr hb
  · exact .inl hb
  · exact hb

/-- Two flows that have sent, dialled and attached the same. -/
structure SameUse (x y : Flow) : Prop where
  dials : y.vpnDials = x.vpnDials
  localSent : y.localSent = x.localSent
  vpnSent : y.vpnSent = x.vpnSent
  writing : y.writing = x.writing
  remote : y.remote = x.remote

theorem SameUse.viaVpn (h : SameUse x y) (hx : x.ViaVpn) : y.ViaVpn :=
  ⟨h.dials ▸ hx.dials, h.localSent ▸ hx.sent, h.writing ▸ hx.writing⟩

theorem SameUse.viaLocal (h : SameUse x y) (hx : x.ViaLocal) : y.ViaLocal :=
  ⟨h.dials.trans hx.dials, h.vpnSent ▸ hx.sent, h.writing ▸ hx.writing⟩

theorem SameUse.behind (h : SameUse x y) {p : Phase} (hx : x.Behind p) : y.Behind p := by
  cases p with
  | undecided => exact ⟨h.viaVpn hx.1, h.viaLocal hx.2.1, h.remote.trans hx.2.2⟩
  | offload => exact h.viaLocal hx
  | vpn => exact h.viaVpn hx
  | ended => exact hx.imp h.viaVpn h.viaLocal

/-- A step that stays in its place. -/
theorem OnePath.stay (hx : x.OnePath) (h : SameUse x y) (hpc : y.pc = x.pc)
    (hshut : y.shut = true → y.closed = true) (hmono : x.shut = true → y.shut = true)
    (hclosed : x.closed = true → y.closed = true) : y.OnePath :=
  ⟨hpc ▸ h.behind hx.behind, fun hy => h.remote.trans (hx.unattached (hpc ▸ hy)), hshut,
    fun hy => hmono (hx.returned (hpc ▸ hy)), fun hy => hclosed (hx.finishing (hpc ▸ hy))⟩

/-- A step inside a phase, or to the end. -/
theorem OnePath.move (hx : x.OnePath) (h : SameUse x y)
    (hphase : y.pc.phase = x.pc.phase ∧ x.pc.phase = .undecided ∨ y.pc.phase = .ended)
    (hshut : y.shut = true → y.closed = true) (hover : y.pc = .returned → y.shut = true)
    (hfinishing : y.pc = .finishing → y.closed = true) : y.OnePath := by
  refine ⟨?_, ?_, hshut, hover, hfinishing⟩
  · rcases hphase with ⟨hsame, -⟩ | hended
    · exact hsame ▸ h.behind hx.behind
    · exact hended ▸ hx.path.imp h.viaVpn h.viaLocal
  · intro hy
    have hvpn : y.pc.phase = .vpn := by
      rcases hy with hy | ⟨r, hy⟩ <;> rw [hy] <;> rfl
    rcases hphase with ⟨hsame, hund⟩ | hended
    · cases hvpn.symm.trans (hsame.trans hund)
    · cases hvpn.symm.trans hended

/-- A call that is not behind the end of its flow. -/
theorem OnePath.of_running (hb : x.Behind x.pc.phase)
    (hremote : x.pc = .vpnDialing ∨ (∃ r, x.pc = .vpnDialed r) → x.remote = none)
    (hshut : x.shut = true → x.closed = true) (hpc : x.pc.final = false) : x.OnePath :=
  ⟨hb, hremote, hshut, fun h => by simp [h, Pc.final] at hpc,
    fun h => by simp [h, Pc.final] at hpc⟩

/-- A step inside a phase, or to the last section. -/
theorem OnePath.moveOn (hx : x.OnePath) (h : SameUse x y)
    (hphase : y.pc.phase = x.pc.phase ∧ x.pc.phase = .undecided ∨ y.pc.phase = .ended)
    (hshut : y.shut = true → y.closed = true) (hpc : y.pc.final = false) : y.OnePath :=
  hx.move h hphase hshut (fun h => by simp [h, Pc.final] at hpc)
    fun h => by simp [h, Pc.final] at hpc

/-- Bytes that a write under way brings to the local path. -/
theorem OnePath.wroteLocal (hx : x.OnePath) (hw : x.writing = some .offload) (bytes : List UInt8) :
    OnePath { x with writing := none, localSent := x.localSent ++ bytes } := by
  have hlocal : x.ViaLocal := hx.path.resolve_left fun h => h.writing hw
  have hlocal' : ViaLocal { x with writing := none, localSent := x.localSent ++ bytes } :=
    ⟨hlocal.dials, hlocal.sent, nofun⟩
  refine ⟨?_, hx.unattached, hx.shut, hx.returned, hx.finishing⟩
  have hb := hx.behind
  change Behind _ x.pc.phase
  cases hp : x.pc.phase <;> rw [hp] at hb
  · exact absurd hw hb.1.writing
  · exact hlocal'
  · exact absurd hw hb.writing
  · exact .inr hlocal'

/-- Bytes that a write under way brings to the VPN. -/
theorem OnePath.wroteVpn (hx : x.OnePath) (hw : x.writing = some .vpn) (bytes : List UInt8) :
    OnePath { x with writing := none, vpnSent := x.vpnSent ++ bytes } := by
  have hvpn : x.ViaVpn := hx.path.resolve_right fun h => h.writing hw
  have hvpn' : ViaVpn { x with writing := none, vpnSent := x.vpnSent ++ bytes } :=
    ⟨hvpn.dials, hvpn.sent, nofun⟩
  refine ⟨?_, hx.unattached, hx.shut, hx.returned, hx.finishing⟩
  have hb := hx.behind
  change Behind _ x.pc.phase
  cases hp : x.pc.phase <;> rw [hp] at hb
  · exact absurd hw hb.2.1.writing
  · exact absurd hw hb.writing
  · exact hvpn'
  · exact .inl hvpn'

theorem OnePath.flags (hx : x.OnePath) (c a b : Bool) :
    OnePath { x with closed := x.closed || c, asked := a, retired := b } :=
  hx.stay ⟨rfl, rfl, rfl, rfl, rfl⟩ rfl (fun hs => Bool.or_eq_true_iff.mpr (.inl (hx.shut hs))) id
    fun hc => Bool.or_eq_true_iff.mpr (.inl hc)

/-- The socket a flow is in charge of. -/
def hold (x : Flow) : Option ℕ := x.pc.socket? <|> if x.shut then none else x.remote

end Flow

/-- How an effect moves the socket in charge: not, a new one into an empty hand, or out of it. -/
def Effect.Moves (fresh : ℕ) (before after : Option ℕ) : Effect → Prop
  | .none => after = before
  | .opens => before = Option.none ∧ after = some fresh
  | .closes s => before = some s ∧ after = Option.none

section flow

variable {h h' : Outbound} {s : Surroundings} {f : ℕ} {x x' : Flow} {e : FlowEvent} {eff : Effect}

/-- **A step of a call keeps it on one path.** -/
theorem Flow.OnePath.step (hx : x.OnePath) (hs : flowStep h s f x e = some (h', x', eff)) :
    x'.OnePath := by
  have hb := hx.behind
  cases e with
  | cancel =>
    cases hs
    exact hx.stay ⟨rfl, rfl, rfl, rfl, rfl⟩ rfl hx.shut id id
  | close =>
    obtain ⟨-, hs⟩ := Option.ite_none_right_eq_some.mp hs
    cases hs
    exact hx.stay ⟨rfl, rfl, rfl, rfl, rfl⟩ rfl (fun _ => rfl) id fun _ => rfl
  | shut =>
    obtain ⟨hclosed, hs⟩ := Option.ite_none_right_eq_some.mp hs
    cases hs
    exact hx.stay ⟨rfl, rfl, rfl, rfl, rfl⟩ rfl (fun _ => (Bool.and_eq_true_iff.mp hclosed).1)
      (fun _ => rfl) id
  | finish =>
    simp only [flowStep] at hs
    split at hs <;> cases hs
    exact hx.move ⟨rfl, rfl, rfl, rfl, rfl⟩ (.inr rfl) (fun _ => rfl)
      (fun h => Pc.noConfusion h) fun _ => rfl
  | attach =>
    simp only [flowStep] at hs
    split at hs
    · rename_i hpc
      rw [hpc] at hb
      split at hs <;> cases hs
      · exact .of_running ⟨hb.2.1.dials, hb.2.1.sent, hb.2.1.writing⟩ (by simp) hx.shut rfl
      · exact hx.moveOn ⟨rfl, rfl, rfl, rfl, rfl⟩ (.inl ⟨by rw [hpc]; rfl, by rw [hpc]; rfl⟩)
          hx.shut rfl
    · cases hs
  | vpnDial =>
    simp only [flowStep] at hs
    split at hs
    · rename_i hpc
      rw [hpc] at hb
      split at hs <;> cases hs
      · exact hx.moveOn ⟨rfl, rfl, rfl, rfl, rfl⟩ (.inr rfl) hx.shut rfl
      · refine .of_running ⟨?_, hb.1.sent, hb.1.writing⟩ (fun _ => hb.2.2) hx.shut rfl
        simp [hb.2.1.dials]
    · cases hs
  | vpnDialed ok =>
    simp only [flowStep] at hs
    split at hs
    · rename_i hpc
      rw [hpc] at hb
      split at hs <;> cases hs
      · exact .of_running ⟨hb.dials, hb.sent, hb.writing⟩ (fun _ => hx.unattached (.inl hpc)) hx.shut rfl
      · exact hx.moveOn ⟨rfl, rfl, rfl, rfl, rfl⟩ (.inr rfl) hx.shut rfl
    · cases hs
  | vpnAttach =>
    simp only [flowStep] at hs
    split at hs
    · rename_i hpc
      rw [hpc] at hb
      split at hs <;> cases hs
      · exact hx.moveOn ⟨rfl, rfl, rfl, rfl, rfl⟩ (.inr rfl) hx.shut rfl
      · exact .of_running ⟨hb.dials, hb.sent, hb.writing⟩ (by simp) hx.shut rfl
    · cases hs
  | vpnCount =>
    simp only [flowStep] at hs
    split at hs
    · rename_i hpc
      rw [hpc] at hb
      cases hs
      exact .of_running ⟨hb.dials, hb.sent, hb.writing⟩ (by simp) hx.shut rfl
    · cases hs
  | write =>
    simp only [flowStep] at hs
    split at hs
    · rename_i hpc
      rw [hpc] at hb
      split at hs <;> cases hs
      · refine ⟨?_, by simp [hpc], hx.shut, by simp [hpc], by simp [hpc]⟩
        rw [show Pc.phase _ = .offload by rw [hpc]; rfl]
        exact ⟨hb.dials, hb.sent, by simp⟩
      · exact hx
    · rename_i hpc
      rw [hpc] at hb
      cases hs
      refine ⟨?_, by simp [hpc], hx.shut, by simp [hpc], by simp [hpc]⟩
      rw [show Pc.phase _ = .vpn by rw [hpc]; rfl]
      exact ⟨hb.dials, hb.sent, by simp⟩
    · cases hs
  | wrote bytes =>
    simp only [flowStep] at hs
    split at hs
    · rename_i hw
      cases hs
      exact hx.wroteLocal hw bytes
    · rename_i hw
      cases hs
      exact hx.wroteVpn hw bytes
    · cases hs
  | leave =>
    simp only [flowStep] at hs
    split at hs
    · obtain ⟨hshut, hs⟩ := Option.ite_none_right_eq_some.mp hs
      cases hs
      exact hx.move ⟨rfl, rfl, rfl, rfl, rfl⟩ (.inr rfl) hx.shut (fun _ => hshut)
        (fun h => Pc.noConfusion h)
    · cases hs
  | _ =>
    -- every other step is inside the undecided phase, or to the end
    simp only [flowStep] at hs
    split at hs
    · rename_i hpc
      repeat' split at hs
      all_goals try cases hs
      all_goals
        refine hx.moveOn ⟨rfl, rfl, rfl, rfl, rfl⟩ ?_ hx.shut rfl
        first
          | exact .inr rfl
          | exact .inl ⟨by rw [hpc]; rfl, by rw [hpc]; rfl⟩
    · cases hs

theorem flowStep_localSent (hs : flowStep h s f x e = some (h', x', eff))
    (hsent : x.localSent ≠ []) : x'.localSent ≠ [] := by
  cases e <;> simp only [flowStep] at hs <;> grind [List.append_eq_nil_iff]

theorem Flow.OnePath.remote_eq_none (hx : x.OnePath) (hp : x.pc.phase = .undecided) :
    x.remote = none := by
  have hb := hx.behind
  rw [hp] at hb
  exact hb.2.2

/-- **What a step does to the socket in charge, and to the sockets.** -/
theorem flowStep_hold (hx : x.OnePath) (hs : flowStep h s f x e = some (h', x', eff)) :
    eff.Moves s.fresh x.hold x'.hold := by
  have hremote : x.pc.phase = .undecided → x.remote = none := hx.remote_eq_none
  have hdialing := hx.unattached
  have hshut := hx.shut
  cases e with
  | judge =>
    simp only [flowStep] at hs
    split at hs
    · rename_i id r o hpc
      have hnone : x.remote = none := hremote (by rw [hpc]; rfl)
      have hhold : x.hold = r := by simp [Flow.hold, hpc, Pc.socket?, hnone]
      rw [hhold]
      repeat' split at hs
      all_goals cases hs
      · cases r <;> simp [Effect.ofSocket?, Effect.Moves, Flow.hold, Pc.socket?, hnone]
      · cases r <;> simp [Effect.ofSocket?, Effect.Moves, Flow.hold, Pc.socket?, hnone]
      · simp [Effect.Moves, Flow.hold, Pc.socket?]
    · cases hs
  | shut =>
    obtain ⟨hopen, hs⟩ := Option.ite_none_right_eq_some.mp hs
    cases hs
    have hnot : x.shut = false := by simpa using (Bool.and_eq_true_iff.mp hopen).2
    cases hr : x.remote with
    | none => simp [Effect.ofSocket?, Effect.Moves, Flow.hold, hr]
    | some t =>
      -- whatever has a socket in hand has attached none
      have hhand : x.pc.socket? = none := by
        cases hpc : x.pc <;> simp_all [Pc.phase, Pc.socket?]
      simp [Effect.ofSocket?, Effect.Moves, Flow.hold, hr, hhand, hnot]
  | _ =>
    simp only [flowStep] at hs
    grind [Flow.hold, Pc.socket?, Pc.phase, Effect.Moves]

end flow

namespace World

variable {w w' : World} {e : Event} {o : Output} {f s : ℕ}

/-! ## The sockets of a runtime -/

/-- The socket a flow is in charge of. -/
def hold (w : World) (f : ℕ) : Option ℕ := if f < w.flowCount then (w.flows f).hold else none

/-- **What holds between two events**: every connection is on one path, and every open socket is in
the charge of one flow. -/
structure Routed (w : World) : Prop where
  onePath : ∀ f, f < w.flowCount → (w.flows f).OnePath
  custody : Custody w.hold w.socketClosed w.socketCount

theorem routed_start (holders : ℕ → Outbound) : Routed (start holders) where
  onePath f hf := absurd hf (Nat.not_lt_zero f)
  custody := Custody.empty.congr fun _ => rfl

theorem Routed.step (hw : Routed w) (hs : machine.step w e = some (w', o)) : Routed w' := by
  rcases moved_step hs with ⟨hflows, hcount, hclosed, hsockets⟩ |
    ⟨i, metadata, isLocal, hflows, hcount, hclosed, hsockets⟩ | ⟨g, e, h, x, eff, hg, hflow, rfl⟩
  · refine ⟨fun f hf => ?_, ?_⟩
    · obtain ⟨c, a, b, hf'⟩ := hflows f
      rw [hf']
      exact (hw.onePath f (hcount ▸ hf)).flags c a b
    · rw [hclosed, hsockets]
      refine hw.custody.congr fun f => ?_
      obtain ⟨c, a, b, hf'⟩ := hflows f
      simp [hold, hf', hcount, Flow.hold]
  · refine ⟨fun f hf => ?_, ?_⟩
    · by_cases hnew : f = w.flowCount
      · rw [hflows, hnew, Function.update_self]
        exact Flow.onePath_new i metadata isLocal
      · rw [hflows, Function.update_of_ne hnew]
        exact hw.onePath f (by omega)
    · rw [hclosed, hsockets]
      refine hw.custody.congr fun f => ?_
      by_cases hnew : f = w.flowCount
      · simp [hold, hflows, hcount, hnew, Flow.hold, Flow.new, Pc.socket?]
      · have hlt : f < w.flowCount + 1 ↔ f < w.flowCount := by omega
        simp [hold, hflows, hcount, hnew, hlt]
  · have hx := hw.onePath g hg
    refine ⟨fun f hf => ?_, ?_⟩
    · by_cases hfg : f = g
      · subst hfg
        simpa using hx.step hflow
      · simpa [hfg] using hw.onePath f (by simpa using hf)
    · have hmoves := flowStep_hold hx hflow
      have hgh : w.hold g = (w.flows g).hold := if_pos hg
      have hupdate : (((w.setHolder (w.flows g).owner h).setFlow g x).perform eff).hold =
          Function.update w.hold g x.hold := by
        funext f
        by_cases hfg : f = g
        · simp [hold, hfg, hg]
        · simp [hold, hfg]
      cases eff with
      | none =>
        refine hw.custody.congr fun f => ?_
        rw [hupdate, show x.hold = w.hold g from hmoves.trans hgh.symm, Function.update_eq_self]
      | opens =>
        exact hw.custody.acquire (hgh.trans hmoves.1) (hupdate.trans (by rw [hmoves.2]; rfl))
      | closes t => exact hw.custody.release (hgh.trans hmoves.1) (hupdate.trans (by rw [hmoves.2]))

theorem Routed.reaches (r : machine.Reaches w w') (hw : Routed w) : Routed w' :=
  r.invariant (fun _ _ _ _ _ hs h => h.step hs) hw

/-- A socket handed to the connection manager. -/
def Handed (w : World) (s : ℕ) : Prop :=
  ∃ f path id, f < w.flowCount ∧ (w.flows f).pc = .handed path id ∧ (w.flows f).remote = some s

/-- A socket that the call of a flow has still to deal with: in its hand, attached and about to be
handed over, or attached at the end of the flow. -/
structure UnderWay (w : World) (f s : ℕ) : Prop where
  known : f < w.flowCount
  held : (w.flows f).pc.socket? = some s ∨ (w.flows f).remote = some s ∧ (w.flows f).shut = false ∧
    ((w.flows f).pc = .vpnAttached ∨ (w.flows f).pc = .ending ∨ (w.flows f).pc = .finishing)

/-- No socket is lost. -/
theorem Routed.accounted (hw : Routed w) (hs : s < w.socketCount) :
    w.socketClosed s = true ∨ w.Handed s ∨ ∃ f, w.UnderWay f s := by
  cases hclosed : w.socketClosed s with
  | true => exact .inl rfl
  | false =>
    refine .inr ?_
    obtain ⟨f, hf⟩ := hw.custody.held hs hclosed
    obtain ⟨hlt, hf⟩ := Option.ite_none_right_eq_some.mp hf
    have hx := hw.onePath f hlt
    simp only [Flow.hold, Option.orElse_eq_orElse, Option.orElse_eq_or, Option.or_eq_some_iff] at hf
    obtain hhand | ⟨-, hf⟩ := hf
    · exact .inr ⟨f, hlt, .inl hhand⟩
    · obtain ⟨hshut, hremote⟩ := Option.ite_none_left_eq_some.mp hf
      have hshut' : (w.flows f).shut = false := by simpa using hshut
      have hund : (w.flows f).pc.phase ≠ .undecided := fun hp =>
        nomatch (hx.remote_eq_none hp).symm.trans hremote
      cases hpc : (w.flows f).pc with
      | vpnDialing => cases (hx.unattached (.inl hpc)).symm.trans hremote
      | vpnDialed r => cases (hx.unattached (.inr ⟨r, hpc⟩)).symm.trans hremote
      | vpnAttached => exact .inr ⟨f, hlt, .inr ⟨hremote, hshut', .inl hpc⟩⟩
      | handed path id => exact .inl ⟨f, path, id, hlt, hpc, hremote⟩
      | ending => exact .inr ⟨f, hlt, .inr ⟨hremote, hshut', .inr (.inl hpc)⟩⟩
      | finishing => exact .inr ⟨f, hlt, .inr ⟨hremote, hshut', .inr (.inr hpc)⟩⟩
      | returned => exact absurd (hx.returned hpc) hshut
      | _ => exact absurd (by rw [hpc]; rfl) hund

/-- The steps of the call itself that settle a socket. -/
def Settles (w : World) (f s : ℕ) : Prop :=
  ∃ (l : List FlowEvent) (w' : World), machine.run w (l.map (.flow f)) = some w' ∧
    (w'.socketClosed s = true ∨ w'.Handed s)

theorem Settles.of_settled (h : w.socketClosed s = true ∨ w.Handed s) : w.Settles f s :=
  ⟨[], w, rfl, h⟩

/-- One step of the call, and what it leads to. -/
theorem Settles.cons {e : FlowEvent} {h : Outbound} {x : Flow} {eff : Effect} (hf : f < w.flowCount)
    (hstep : flowStep (w.holders (w.flows f).owner) (w.surroundings (w.flows f).owner) f (w.flows f) e
      = some (h, x, eff))
    (hrest : (((w.setHolder (w.flows f).owner h).setFlow f x).perform eff).Settles f s) :
    w.Settles f s := by
  obtain ⟨l, w', hrun, hdone⟩ := hrest
  refine ⟨e :: l, w', ?_, hdone⟩
  have hs : machine.step w (.flow f e) =
      some (((w.setHolder (w.flows f).owner h).setFlow f x).perform eff, .none) := by
    change (if f < w.flowCount then _ else none) = _
    rw [if_pos hf, hstep]
    rfl
  rw [List.map_cons, Machine.run, hs]
  exact hrun

theorem settles_unattached (hf : f < w.flowCount) (hpc : (w.flows f).pc = .unattached s) :
    w.Settles f s :=
  .cons (e := .discard) hf (by simp only [flowStep, hpc]; rfl)
    (.of_settled (.inl (by simp [perform])))

theorem settles_observed {id : String} (hf : f < w.flowCount)
    (hpc : (w.flows f).pc = .observed id s) : w.Settles f s := by
  by_cases hattach : (w.holders (w.flows f).owner).attachable id (w.flows f).ctxDone &&
      !(w.flows f).closed
  · refine .cons (e := .attach) hf (by simp only [flowStep, hpc, if_pos hattach]; rfl) ?_
    exact .of_settled (.inr ⟨f, .offload, id, hf, by simp [perform], by simp [perform]⟩)
  · refine .cons (e := .attach) hf (by simp only [flowStep, hpc, if_neg hattach]; rfl) ?_
    exact settles_unattached hf (by simp [perform])

/-- The verdict on a local dial closes its socket, or goes on to attach it. -/
theorem settles_dialed {id : String} {outcome : DialOutcome} (hf : f < w.flowCount)
    (hpc : (w.flows f).pc = .dialed id (some s) outcome) : w.Settles f s := by
  by_cases hgone : (w.flows f).ctxDone || (w.surroundings (w.flows f).owner).withdrawErr id ||
      outcome.err == some .canceled
  · refine .cons (e := .judge) hf (by simp only [flowStep, hpc, if_pos hgone]; rfl) ?_
    exact .of_settled (.inl (by simp [perform, Effect.ofSocket?]))
  · by_cases hfailed : outcome.err.isSome || outcome.setupExceeded
    · refine .cons (e := .judge) hf
        (by simp only [flowStep, hpc, if_neg hgone, if_pos hfailed]; rfl) ?_
      exact .of_settled (.inl (by simp [perform, Effect.ofSocket?]))
    · refine .cons (e := .judge) hf
        (by simp only [flowStep, hpc, if_neg hgone, if_neg hfailed]; rfl) ?_
      exact settles_observed hf (show _ = Pc.observed id s by simp [perform])

theorem settles_vpnAttached (hf : f < w.flowCount) (hpc : (w.flows f).pc = .vpnAttached)
    (hremote : (w.flows f).remote = some s) : w.Settles f s := by
  refine .cons (e := .vpnCount) hf (by simp only [flowStep, hpc]; rfl) ?_
  exact .of_settled (.inr ⟨f, .vpn, "", hf, by simp [perform], by simpa [perform] using hremote⟩)

theorem settles_vpnDialed (hf : f < w.flowCount) (hpc : (w.flows f).pc = .vpnDialed s) :
    w.Settles f s := by
  cases hclosed : (w.flows f).closed with
  | true =>
    refine .cons (e := .vpnAttach) hf (by simp only [flowStep, hpc, hclosed, if_true]; rfl) ?_
    exact .of_settled (.inl (by simp [perform]))
  | false =>
    refine .cons (e := .vpnAttach) hf
      (by simp only [flowStep, hpc, hclosed, Bool.false_eq_true, if_false]; rfl) ?_
    exact settles_vpnAttached hf (by simp [perform]) (by simp [perform])

/-- A closed flow that is not shut yet is shut, and its socket closed. -/
theorem settles_closed (hf : f < w.flowCount) (hclosed : (w.flows f).closed = true)
    (hshut : (w.flows f).shut = false) (hremote : (w.flows f).remote = some s) : w.Settles f s := by
  refine .cons (e := .shut) hf (by simp only [flowStep, hclosed, hshut]; rfl) ?_
  exact .of_settled (.inl (by simp [perform, hremote, Effect.ofSocket?]))

theorem settles_ending (hf : f < w.flowCount) (hpc : (w.flows f).pc = .ending)
    (hshut : (w.flows f).shut = false) (hremote : (w.flows f).remote = some s) : w.Settles f s := by
  refine .cons (e := .finish) hf (by simp only [flowStep, hpc]; rfl) ?_
  exact settles_closed hf (by simp [perform]) (by simpa [perform] using hshut)
    (by simpa [perform] using hremote)

/-- **What is under way, the call settles by itself.** -/
theorem UnderWay.settles (hu : w.UnderWay f s) (hw : Routed w) : w.Settles f s := by
  obtain ⟨hf, hhand | ⟨hremote, hshut, hpc | hpc | hpc⟩⟩ := hu
  · cases hpc : (w.flows f).pc <;> rw [hpc] at hhand <;> cases hhand
    case dialed.refl => exact settles_dialed hf hpc
    case observed.refl => exact settles_observed hf hpc
    case unattached.refl => exact settles_unattached hf hpc
    case vpnDialed.refl => exact settles_vpnDialed hf hpc
  · exact settles_vpnAttached hf hpc hremote
  · exact settles_ending hf hpc hshut hremote
  · exact settles_closed hf ((hw.onePath f hf).finishing hpc) hshut hremote

/-- What was sent to the local path stays sent, and a flow stays. -/
theorem sent_of_reaches (r : machine.Reaches w w') (hf : f < w.flowCount)
    (hsent : (w.flows f).localSent ≠ []) : f < w'.flowCount ∧ (w'.flows f).localSent ≠ [] := by
  refine r.invariant (P := fun v => f < v.flowCount ∧ (v.flows f).localSent ≠ []) ?_ ⟨hf, hsent⟩
  rintro a e b o - hs ⟨hf, hsent⟩
  rcases moved_step hs with ⟨hflows, hcount, -⟩ | ⟨i, metadata, isLocal, hflows, hcount, -⟩ |
    ⟨g, e, h, x, eff, hg, hflow, rfl⟩
  · obtain ⟨c, a', b', hf'⟩ := hflows f
    rw [hf', hcount]
    exact ⟨hf, hsent⟩
  · rw [hflows, hcount, Function.update_of_ne (Nat.ne_of_lt hf)]
    exact ⟨Nat.lt_succ_of_lt hf, hsent⟩
  · refine ⟨by simpa using hf, ?_⟩
    by_cases hfg : f = g
    · subst hfg
      simpa using flowStep_localSent hflow hsent
    · simpa [hfg] using hsent

/-- **One connection, one path.**  In every state of every run, for every connection: its bytes went
to one of the two paths at most; the VPN outbound was dialled once at most, and not at all once a byte
went to the local path, now or later; and every socket that was opened is closed, or handed to the
connection manager, or in the hand of a call whose own next steps do one of the two. -/
theorem one_path (holders : ℕ → Outbound) (r : machine.Reaches (start holders) w) :
    (∀ f, f < w.flowCount →
      ((w.flows f).localSent = [] ∨ (w.flows f).vpnSent = []) ∧ (w.flows f).vpnDials ≤ 1 ∧
      ((w.flows f).localSent ≠ [] → ∀ w', machine.Reaches w w' → (w'.flows f).vpnDials = 0)) ∧
    (∀ s, s < w.socketCount → w.socketClosed s = true ∨ w.Handed s ∨ ∃ f, w.UnderWay f s) ∧
    ∀ f s, w.UnderWay f s → ∃ (l : List FlowEvent) (w' : World),
      machine.run w (l.map (.flow f)) = some w' ∧ (w'.socketClosed s = true ∨ w'.Handed s) := by
  have hw : Routed w := Routed.reaches r (routed_start holders)
  refine ⟨fun f hf => ⟨?_, ?_, fun hsent w' r' => ?_⟩, fun s hs => hw.accounted hs,
    fun f s hu => hu.settles hw⟩
  · exact (hw.onePath f hf).path.imp (fun h => h.sent) fun h => h.sent
  · rcases (hw.onePath f hf).path with h | h
    · exact h.dials
    · exact h.dials ▸ Nat.zero_le 1
  · obtain ⟨hf', hsent'⟩ := sent_of_reaches r' hf hsent
    rcases ((Routed.reaches r' hw).onePath f hf').path with h | h
    · exact absurd h.sent hsent'
    · exact h.dials

/-- The sample connection, handed to the local path and written to. -/
theorem one_path_sample :
    ∃ h w, machine.Reaches (start fun _ => h) w ∧ (w.flows 0).localSent = [1, 2] ∧
      (w.flows 0).vpnDials = 0 ∧
      (w.socketClosed 0 = true ∨ w.Handed 0 ∨ ∃ f, w.UnderWay f 0) := by
  have hrun : ((newOutbound "dpi" sampleOptions false (· == "127.0.0.1") true true
      "a").bind fun h => (machine.run (start fun _ => h)
        (sampleHandoff ++ [.flow 0 .write, .flow 0 (.wrote [1, 2])])).map
        fun w => (h.tag, w.flowCount, w.socketCount, (w.flows 0).localSent)) =
      some ("dpi", 1, 1, [1, 2]) := by decide +kernel
  obtain ⟨h, -, hrun⟩ := Option.bind_eq_some_iff.mp hrun
  obtain ⟨w, hw, hrun⟩ := Option.map_eq_some_iff.mp hrun
  simp only [Prod.mk.injEq] at hrun
  obtain ⟨-, hcount, hsockets, hsent⟩ := hrun
  have r := Machine.reaches_run hw
  obtain ⟨hpath, hsocket, -⟩ := one_path (fun _ => h) r
  have hdials := (hpath 0 (by omega)).2.2 (by simp [hsent]) w (.refl w)
  exact ⟨h, w, r, hsent, hdials, hsocket 0 (by omega)⟩

end World

end PokrovCore.LocalDpi
