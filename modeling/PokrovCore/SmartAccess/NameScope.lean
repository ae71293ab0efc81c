import PokrovCore.SmartAccess.ClientHello
import PokrovCore.SmartAccess.Quotas

/-!
# SmartAccess/NameScope — no relay is dialled for a name outside the signed scope

A connection passes its ClientHello before it dials, so whatever is replayed to a relay carries one
host name, and its folded form is a name of the scope.  The bytes themselves spell such a name
exactly when the ones compared with the scope are ASCII (`name_in_scope_iff_ascii`): the scope is
compared after Unicode folding, and a name with a Kelvin sign passes for one with a `k`
(`kelvin_out_of_scope`).
-/

namespace PokrovCore.SmartAccess

/-! ## Connections past their ClientHello -/

/-- What reading the ClientHello of a stream answers a connection. -/
def helloOf (t : CaseTable) (externalECHOuterSNI : Bool) (stream : List UInt8) : Hello :=
  match readClientHello t externalECHOuterSNI stream with
  | .ok (_, name) => .name name
  | .error .echUnsupported => .echUnsupported
  | .error .invalid => .failed

/-- Has the connection passed its ClientHello? -/
def ConnPc.named : ConnPc → Bool
  | .readHello | .echFailed | .failed => false
  | _ => true

namespace World

variable {t : CaseTable} {external : Bool} {streams : ℕ → List UInt8} {w w' : World} {e : Event}
  {o : Output}

/-- **Every ClientHello is read from the stream of its flow.** -/
def Answered (t : CaseTable) (external : Bool) (streams : ℕ → List UInt8) (_ : World) : Event → Prop
  | .hello f result => result = helloOf t external (streams f)
  | _ => True

theorem stepAdmit_conns (w : World) (port : ℕ) (now : Sample) :
    (w.stepAdmit port now).1.conns = w.conns ∨
      ∃ f c, (w.stepAdmit port now).1.conns = Function.update w.conns f c ∧ c.pc = .readHello := by
  unfold stepAdmit
  split_ifs
  · exact .inl rfl
  · dsimp only
    split
    · exact .inl rfl
    · exact .inr ⟨_, _, rfl, rfl⟩

/-- **What an event does to the connections**: nothing, or it moves one on, which is past its
ClientHello only if it was, or has just read a name the scope allows. -/
theorem conns_of_step (h : w.step e = some (w', o)) :
    w'.conns = w.conns ∨ ∃ f c, w'.conns = Function.update w.conns f c ∧ (c.pc.named = true →
      (w.pc f).named = true ∨ ∃ name, e = .hello f (.name name) ∧ w.outbound.allows name = true) := by
  cases e with
  | newConnection port now =>
    obtain rfl : (w.stepAdmit port now).1 = w' := congrArg Prod.fst (Option.some.inj h)
    refine (w.stepAdmit_conns port now).imp_right fun ⟨f, c, hmove, hpc⟩ => ⟨f, c, hmove, ?_⟩
    rw [hpc]
    exact nofun
  | hello f result =>
    obtain ⟨_, rfl⟩ := Machine.guarded h
    refine .inr ⟨f, _, rfl, fun hn => .inr ?_⟩
    cases result with
    | name serverName =>
      refine ⟨serverName, rfl, ?_⟩
      by_contra hout
      simp only [afterHello, hout] at hn
      cases hn
    | echUnsupported | failed => cases hn
  | echFailure f now =>
    obtain ⟨_, rfl⟩ := Machine.guarded h
    exact .inr ⟨f, _, rfl, nofun⟩
  | secondCheck f now =>
    obtain ⟨hpc, rfl⟩ := Machine.guarded h
    exact .inr ⟨f, _, rfl, fun _ => .inl (by rw [hpc]; rfl)⟩
  | reserve f cancelled now =>
    simp only [step] at h
    split at h
    · rename_i hpc
      obtain rfl := Machine.state_eq h
      unfold stepReserve
      split_ifs <;> exact .inr ⟨f, _, rfl, fun _ => .inl (by rw [hpc]; rfl)⟩
    · cases h
  | dial f result now =>
    simp only [step] at h
    split at h
    · rename_i hpc
      obtain rfl := Machine.state_eq h
      exact .inr ⟨f, _, rfl, fun _ => .inl (by rw [hpc]; rfl)⟩
    · rename_i hpc
      obtain rfl := Machine.state_eq h
      exact .inr ⟨f, _, rfl, fun _ => .inl (by rw [hpc]; rfl)⟩
    · cases h
  | setRemote f =>
    obtain ⟨hpc, rfl⟩ := Machine.guarded h
    exact .inr ⟨f, _, rfl, fun _ => .inl (by rw [hpc]; rfl)⟩
  | activate f now =>
    obtain ⟨hpc, rfl⟩ := Machine.guarded h
    exact .inr ⟨f, _, rfl, fun _ => .inl (by rw [hpc]; rfl)⟩
  | closeFlow | deregister | ioEnter =>
    obtain ⟨_, rfl⟩ := Machine.guarded h
    exact .inl rfl
  | query | canRenewLease | dnsFailed | renewLease | revoke | revokeLease | close =>
    obtain rfl := Machine.state_eq h
    exact .inl rfl
  | ioClose | ioOwner | ioFlow | ioTransfer | ioAgain =>
    simp only [step] at h
    split at h
    · obtain rfl := Machine.state_eq h
      exact .inl rfl
    · cases h

/-- **The name of a connection past its ClientHello** is one the stream of its flow has and the scope
allows. -/
def NameKnown (t : CaseTable) (external : Bool) (streams : ℕ → List UInt8) (w : World) : Prop :=
  ∀ f, (w.pc f).named = true → ∃ raw name,
    readClientHello t external (streams f) = .ok (raw, name) ∧ w.outbound.allows name = true

theorem readClientHello_of_helloOf {stream : List UInt8} {name : String}
    (h : Hello.name name = helloOf t external stream) :
    ∃ raw, readClientHello t external stream = .ok (raw, name) := by
  unfold helloOf at h
  split at h
  · rename_i raw name' hread
    obtain rfl := Hello.name.inj h
    exact ⟨raw, hread⟩
  · cases h
  · cases h

theorem nameKnown_step (hk : NameKnown t external streams w) (hC : Answered t external streams w e)
    (h : w.step e = some (w', o)) : NameKnown t external streams w' := by
  have hallows : w'.outbound.allows = w.outbound.allows := by
    funext name
    rw [Outbound.allows, Outbound.allows, (step_section h).options]
  intro f hn
  rw [hallows]
  rcases conns_of_step h with hsame | ⟨k, c, hmove, hnamed⟩
  · rw [pc, hsame] at hn
    exact hk f hn
  · rw [pc, hmove] at hn
    rcases eq_or_ne f k with rfl | hfk
    · rw [Function.update_self] at hn
      rcases hnamed hn with hbefore | ⟨name, rfl, hscope⟩
      · exact hk f hbefore
      · obtain ⟨raw, hread⟩ := readClientHello_of_helloOf hC
        exact ⟨raw, name, hread, hscope⟩
    · rw [Function.update_of_ne hfk] at hn
      exact hk f hn

theorem nameKnown_of_reaches {h : Outbound} {latest : ℤ}
    (hreach : machine.ReachesIf (Answered t external streams) (init h latest) w) :
    NameKnown t external streams w :=
  hreach.invariant (fun _ _ _ _ hC hs hk => nameKnown_step hk hC hs) fun _ hn => by cases hn

theorem named_of_dial {f : ℕ} {result : DialResult} {now : Sample}
    (h : w.step (.dial f result now) = some (w', o)) : (w.pc f).named = true := by
  simp only [step] at h
  split at h
  · rename_i hpc
    rw [hpc]
    rfl
  · rename_i hpc
    rw [hpc]
    rfl
  · cases h

/-! ## What is dialled -/

theorem exists_of_allows {h : Outbound} {name : String} (hname : h.allows name = true) :
    ∃ d ∈ h.options.domains, name.toList = d.name.toList ∨
      d.kind = .suffix ∧ '.' :: d.name.toList <:+ name.toList := by
  obtain ⟨d, hd, h⟩ := List.any_eq_true.mp hname
  refine ⟨d, hd, ?_⟩
  rcases Bool.or_eq_true_iff.mp h with h | h
  · exact .inl (congrArg _ (eq_of_beq h))
  · obtain ⟨hkind, hsuffix⟩ := Bool.and_eq_true_iff.mp h
    rw [List.isSuffixOf_iff_suffix, String.toList_append] at hsuffix
    exact .inr ⟨eq_of_beq hkind, hsuffix⟩

/-- **A relay is dialled only for a flow whose records carry one host name**, never one of
`pokrov.space`.  Its bytes spell a name of the scope, up to ASCII case and a trailing dot, exactly
when the bytes that are compared with the scope are ASCII — so always when all of them are. -/
theorem name_in_scope_iff_ascii (t : CaseTable) (external : Bool) (streams : ℕ → List UInt8)
    (options : OutboundOptions) (lease : LeaseAuthorization) (latest : ℤ)
    (hscope : acceptsScope t external options.domains = true) (w : World)
    (hreach : machine.ReachesIf (Answered t external streams)
      (init (newOutbound options lease) latest) w)
    (f : ℕ) (result : DialResult) (now : Sample) (w' : World) (o : Output)
    (hdial : machine.step w (.dial f result now) = some (w', o)) :
    ∃ raw name wire, readClientHello t external (streams f) = .ok (raw, name) ∧
      raw <+: streams f ∧ Replays raw wire ∧ ¬ Owned wire ∧
      (InScope options.domains wire ↔
        ∃ d ∈ options.domains, SpeltInAscii d (foldName t wire) (trimDot wire)) ∧
      ((∀ b ∈ wire, b.toNat < 0x80) → InScope options.domains wire) := by
  obtain ⟨raw, name, hread, hallows⟩ := nameKnown_of_reaches hreach f (named_of_dial hdial)
  obtain ⟨hfirst, wire, hwire, hname⟩ := readClientHello_spec hread
  have hiff : InScope options.domains wire ↔ _ := inScope_iff t (acceptsScope_ascii hscope)
  have hoptions : w.outbound.options = options :=
    options_of_reaches (hreach.mono fun _ _ _ => trivial)
  refine ⟨raw, name, wire, hread, hfirst, hwire, not_owned hname, hiff, fun hascii => ?_⟩
  obtain ⟨d, hd, hmatch⟩ := exists_of_allows hallows
  rw [hoptions] at hd
  rw [(normalizeDomain_spec hname).1] at hmatch
  have htrim : ∀ b ∈ trimDot wire, b.toNat < 0x80 := fun b hb => hascii b (mem_of_mem_trimDot hb)
  exact hiff.mpr ⟨d, hd, hmatch.imp (fun h => ⟨h, htrim⟩) fun ⟨hkind, hsuffix⟩ =>
    ⟨hkind, hsuffix, fun b hb => htrim b (List.mem_of_mem_drop hb)⟩⟩

/-! ## Two streams -/

/-- A scope with one name. -/
def sampleScope : OutboundOptions := { sampleOptions with domains := [⟨"ok.example", .exact⟩] }

/-- A dial that connects. -/
def sampleDial : DialResult := ⟨true, true, false, false⟩

/-- A stream that has that name is dialled for. -/
theorem dialed_of_helloOf {t : CaseTable} {stream : List UInt8}
    (h : helloOf t false stream = .name "ok.example") :
    ∃ w w' o, machine.ReachesIf (Answered t false fun _ => stream)
        (init (newOutbound sampleScope sampleLease) 0) w ∧
      machine.step w (.dial 0 sampleDial sampleClock) = some (w', o) ∧ w'.pc 0 = .dialed := by
  have hrun : ((machine.run (init (newOutbound sampleScope sampleLease) 0)
      [.newConnection 443 sampleClock, .hello 0 (.name "ok.example"),
        .secondCheck 0 sampleClock]).bind fun w =>
          (machine.step w (.dial 0 sampleDial sampleClock)).map fun r => r.1.pc 0) =
      some .dialed := by decide +kernel
  obtain ⟨w, hw, hstep⟩ := Option.bind_eq_some_iff.mp hrun
  obtain ⟨⟨w', o⟩, hw', hpc⟩ := Option.map_eq_some_iff.mp hstep
  refine ⟨w, w', o, Machine.reachesIf_run ?_ hw, hw', hpc⟩
  intro e he s
  simp only [List.mem_cons, List.not_mem_nil, or_false] at he
  rcases he with rfl | rfl | rfl
  · trivial
  · exact h.symm
  · trivial

/-- A byte string after its length. -/
def counted (v : List UInt8) : List UInt8 := Wire.bytes16 v.length ++ v

/-- The extensions of a ClientHello with one host name. -/
def sampleExtensions (wire : List UInt8) : List UInt8 :=
  [0, 0] ++ counted (counted (0 :: counted wire))

/-- A ClientHello with one host name, in one record. -/
def sampleStream (wire : List UInt8) : List UInt8 :=
  let body := List.replicate 35 0 ++ counted [0x13, 0x01] ++ [1, 0] ++ counted (sampleExtensions wire)
  [22, 3, 1] ++ counted (1 :: (Wire.bytes24 body.length ++ body))

/-- `oK.example.`, in ASCII. -/
def asciiName : List UInt8 :=
  [0x6F, 0x4B, 0x2E, 0x65, 0x78, 0x61, 0x6D, 0x70, 0x6C, 0x65, 0x2E]

theorem name_in_scope_iff_ascii_sample : ∃ (t : CaseTable) (w w' : World) (o : Output),
    machine.step w (.dial 0 sampleDial sampleClock) = some (w', o) ∧ w'.pc 0 = .dialed ∧
      ∃ raw name wire, readClientHello t false (sampleStream asciiName) = .ok (raw, name) ∧
        Replays raw wire ∧ ((∀ b ∈ wire, b.toNat < 0x80) → InScope sampleScope.domains wire) := by
  let t : CaseTable := ⟨id, fun _ h => h⟩
  have hhello : helloOf t false (sampleStream asciiName) = .name "ok.example" := by decide +kernel
  obtain ⟨w, w', o, hreach, hdial, hpc⟩ := dialed_of_helloOf hhello
  obtain ⟨raw, name, wire, hread, _, hwire, _, _, hascii⟩ :=
    name_in_scope_iff_ascii t false (fun _ => sampleStream asciiName) sampleScope sampleLease 0
      (by decide +kernel) w hreach 0 sampleDial sampleClock w' o hdial
  exact ⟨t, w, w', o, hdial, hpc, raw, name, wire, hread, hwire, hascii⟩

/-- `oK.example` with a Kelvin sign for the `K`. -/
def kelvinName : List UInt8 :=
  [0x6F, 0xE2, 0x84, 0xAA, 0x2E, 0x65, 0x78, 0x61, 0x6D, 0x70, 0x6C, 0x65]

/-- The ClientHello of that stream. -/
def kelvinHello : ClientHello where
  random := ⟨List.replicate 34 0, rfl⟩
  session := ⟨[], by decide⟩
  ciphers := ⟨[0x13, 0x01], by decide⟩
  compressions := ⟨[0], by decide⟩
  extensions := ⟨sampleExtensions kelvinName, by decide +kernel⟩

theorem replays_kelvinName : Replays (sampleStream kelvinName) kelvinName := by
  refine ⟨[⟨1, kelvinHello.message, by decide +kernel, List.cons_ne_nil _ _⟩], kelvinHello, [], ?_,
    ?_, ?_⟩
  · decide +kernel
  · rw [List.flatMap_singleton, List.append_nil]
  · decide +kernel

set_option maxRecDepth 8000 in
theorem readClientHello_kelvinName (t : CaseTable) :
    readClientHello t false (sampleStream kelvinName) =
      .ok (sampleStream kelvinName, "ok.example") := by
  rfl

/-- **A Kelvin sign passes for a `k`.**  Whatever else Unicode folds, a relay is dialled for a name
whose bytes the accepted scope does not have. -/
theorem kelvin_out_of_scope : ∃ stream wire : List UInt8, Replays stream wire ∧
    ¬ InScope sampleScope.domains wire ∧ ∀ t : CaseTable,
      acceptsScope t false sampleScope.domains = true ∧
      readClientHello t false stream = .ok (stream, "ok.example") ∧
      ∃ (w w' : World) (o : Output), machine.ReachesIf (Answered t false fun _ => stream)
          (init (newOutbound sampleScope sampleLease) 0) w ∧
        machine.step w (.dial 0 sampleDial sampleClock) = some (w', o) ∧ w'.pc 0 = .dialed := by
  refine ⟨sampleStream kelvinName, kelvinName, replays_kelvinName, ?_, fun t => ?_⟩
  · rintro ⟨d, hd, h⟩
    obtain rfl := List.mem_singleton.mp hd
    rcases h with h | ⟨h, _⟩
    · exact absurd h (by decide +kernel)
    · cases h
  · have hread := readClientHello_kelvinName t
    have hhello : helloOf t false (sampleStream kelvinName) = .name "ok.example" := by
      rw [helloOf, hread]
    exact ⟨rfl, hread, dialed_of_helloOf hhello⟩

end World

end PokrovCore.SmartAccess
