import Mathlib.Data.List.Perm.Subperm
import PokrovCore.Observability.Emitter

/-!
# Observability/Order — in which order a sink sees the events

Numbers are given in order, so the accepted events are strictly increasing.  What was delivered, what
is on its way to the sink and what has a number only is one list; as long as no emit takes a number
before the last one has sent its event, that list is in the order of the numbers.
-/

namespace PokrovCore.Observability

/-- **An event comes before another**: the order of generation and sequence. -/
def Event.Before (event event' : Event) : Prop :=
  event.generation < event'.generation ∨
    event.generation = event'.generation ∧ event.sequence < event'.sequence

instance : DecidableRel Event.Before := fun _ _ => inferInstanceAs (Decidable (_ ∨ _ ∧ _))

/-- The context an event was made in. -/
def Event.context (event : Event) : EventContext :=
  ⟨event.runID, event.attemptID, event.generation⟩

/-- **A host that rejects what is stale**: it keeps an event that comes after the last it kept. -/
def host : Option Event → List Event → List Event
  | _, [] => []
  | last, event :: events =>
    if last.all (·.Before event) then event :: host (some event) events else host last events

/-- In order, nothing is stale. -/
theorem host_eq_self {events : List Event} : ∀ {last : Option Event},
    (∀ event ∈ events, last.all (·.Before event)) → events.Pairwise Event.Before →
    host last events = events := by
  induction events with
  | nil => intros; rfl
  | cons event events ih =>
    intro last hlast hevents
    obtain ⟨hevent, hevents⟩ := List.pairwise_cons.mp hevents
    rw [host, if_pos (hlast event List.mem_cons_self),
      ih (fun e he => by simpa using hevent e he) hevents]

/-! ## What an operation does -/

namespace Emitter

variable {e e' : Emitter} {op : Op} {answer : Bool}

/-- The events that have a number, from the sink back to the emits. -/
def flow (e : Emitter) : List Event :=
  e.delivered.map Prod.snd ++ e.received.toList ++ e.pending ++ e.numbered

/-- **What an operation does to the events**: it leaves them, with a context that is not older; it
gives a number; or it moves one of them on, or drops it. -/
inductive Change (e : Emitter) : Emitter → Prop
  | idle {e' : Emitter} (hgeneration : e'.generation = e.generation)
    (hsequence : e'.sequence = e.sequence)
    (hflag : e'.firstOwnedDNSReceived = e.firstOwnedDNSReceived) (haccepted : e'.accepted = e.accepted)
    (hflow : e'.flow = e.flow) (hnumbered : e'.numbered = e.numbered)
    (hcaptured : e.captured ⊆ e'.captured) : Change e e'
  | configured {e' : Emitter} (hgeneration : e.generation < e'.generation)
    (haccepted : e'.accepted = e.accepted) (hflow : e'.flow = e.flow)
    (hnumbered : e'.numbered = e.numbered) (hcaptured : e'.captured = e.captured) : Change e e'
  | emitted (definition : Definition) (severity : Severity) (outcome : Outcome) (errorCode : String)
    (owner : Option EventContext) (now : ℤ)
    (howner : ∀ context, owner = some context → context = e.context ∧ context ∈ e.captured)
    (hdns : definition = dnsProbeReceive → e.firstOwnedDNSReceived = false) :
    Change e { e with
      firstOwnedDNSReceived := e.firstOwnedDNSReceived || decide (definition = dnsProbeReceive)
      sequence := e.sequence + 1
      numbered := e.numbered ++ [e.nextEvent definition severity outcome errorCode now]
      accepted := e.accepted ++ [(owner, e.nextEvent definition severity outcome errorCode now)] }
  | sent (k : ℕ) (event : Event) (hevent : e.numbered[k]? = some event) (pending : List Event)
    (hpending : pending = e.pending ∨ pending = e.pending ++ [event]) :
    Change e { e with numbered := e.numbered.eraseIdx k, pending := pending }
  | moved {e' : Emitter} (hgeneration : e'.generation = e.generation)
    (hsequence : e'.sequence = e.sequence)
    (hflag : e'.firstOwnedDNSReceived = e.firstOwnedDNSReceived)
    (haccepted : e'.accepted = e.accepted) (hflow : e'.flow.Sublist e.flow)
    (hnumbered : e'.numbered = e.numbered) (hcaptured : e'.captured = e.captured) : Change e e'

theorem Change.refl (e : Emitter) : Change e e :=
  .idle rfl rfl rfl rfl rfl rfl (List.Subset.refl _)

theorem change_configure {runID attemptID : String} {generation : ℤ}
    (h : e.configure runID attemptID generation = .ok e') : Change e e' := by
  simp only [configure] at h
  split at h
  · cases h
  split at h
  · cases h
  split at h
  · cases h
  split at h
  · cases h
  next hstale =>
    obtain rfl := Except.ok.inj h
    by_cases hlt : e.generation < generation
    · exact .configured hlt rfl rfl rfl rfl
    · have heq : generation = e.generation := by omega
      subst heq
      exact .idle rfl (by simp) (by simp) rfl rfl rfl (List.Subset.refl _)

variable {owner : Option EventContext} {definition : Definition}

/-- What an emit needs to take a number. -/
theorem emit_eq_some {outcome : Outcome} {errorCode : String} {now : ℤ}
    (h : e.emit definition outcome errorCode owner now = some e') :
    (∀ context, owner = some context → context = e.context) ∧
      (definition = dnsProbeReceive → e.firstOwnedDNSReceived = false) ∧
      ∃ severity, e' = { e with
        firstOwnedDNSReceived := e.firstOwnedDNSReceived || decide (definition = dnsProbeReceive)
        sequence := e.sequence + 1
        numbered := e.numbered ++ [e.nextEvent definition severity outcome errorCode now]
        accepted := e.accepted ++
          [(owner, e.nextEvent definition severity outcome errorCode now)] } := by
  simp only [emit] at h
  split at h
  · cases h
  next severity _ =>
    obtain ⟨-, h⟩ := Option.ite_none_left_eq_some.mp h
    obtain ⟨howner, h⟩ := Option.ite_none_left_eq_some.mp h
    obtain ⟨hdns, h⟩ := Option.ite_none_left_eq_some.mp h
    refine ⟨?_, ?_, severity, (Option.some.inj h).symm⟩
    · rintro context rfl
      simpa using howner
    · intro hdefinition
      simpa [hdefinition] using hdns

/-- An emit takes a number, or nothing happens. -/
theorem change_emit {outcome : Outcome} {errorCode : String} {now : ℤ}
    (hcaptured : ∀ context, owner = some context → context ∈ e.captured)
    (h : ((e.emit definition outcome errorCode owner now).map (·, true)).getD (e, false) =
      (e', answer)) : Change e e' := by
  cases hemit : e.emit definition outcome errorCode owner now with
  | none =>
    rw [hemit] at h
    obtain rfl := congrArg Prod.fst h
    exact .refl e
  | some e'' =>
    rw [hemit] at h
    obtain rfl : e'' = e' := congrArg Prod.fst h
    obtain ⟨howner, hdns, severity, rfl⟩ := emit_eq_some hemit
    exact .emitted definition severity outcome errorCode owner now
      (fun context hc => ⟨howner context hc, hcaptured context hc⟩) hdns

theorem change_step (h : e.step op = some (e', answer)) : Change e e' := by
  cases op with
  | setSink sink =>
    simp only [step, Option.some.injEq, Prod.mk.injEq] at h
    obtain ⟨rfl, -⟩ := h
    exact .idle rfl rfl rfl rfl rfl rfl (List.Subset.refl _)
  | configure runID attemptID generation =>
    simp only [step] at h
    split at h <;> simp only [Option.some.injEq, Prod.mk.injEq] at h <;> obtain ⟨rfl, -⟩ := h
    next hconfigure => exact change_configure hconfigure
    next => exact .refl e
  | captureContext =>
    simp only [step] at h
    split at h <;> simp only [Option.some.injEq, Prod.mk.injEq] at h <;> obtain ⟨rfl, -⟩ := h
    next => exact .idle rfl rfl rfl rfl rfl rfl (List.subset_append_left _ _)
    next => exact .refl e
  | emit definition outcome errorCode owner now =>
    simp only [step] at h
    split at h
    next => exact change_emit (by simp) (Option.some.inj h)
    next k =>
      split at h
      next => cases h
      next context hk =>
        refine change_emit (fun context' hc => ?_) (Option.some.inj h)
        exact Option.some.inj hc ▸ List.mem_of_getElem? hk
  | send k =>
    simp only [step, send] at h
    split at h
    next => cases h
    next event hevent =>
      have h := Option.some.inj h
      split at h <;> obtain rfl := congrArg Prod.fst h
      · exact .sent k event hevent _ (.inr rfl)
      · exact .sent k event hevent _ (.inl rfl)
  | receive =>
    obtain ⟨e'', hreceive, h⟩ := Option.map_eq_some_iff.mp h
    obtain rfl := congrArg Prod.fst h
    simp only [receive] at hreceive
    split at hreceive
    next event rest hreceived hpending =>
      obtain rfl := Option.some.inj hreceive
      exact .moved rfl rfl rfl rfl (by simp [flow, hreceived, hpending]) rfl rfl
    next => cases hreceive
  | deliver =>
    obtain ⟨e'', hdeliver, h⟩ := Option.map_eq_some_iff.mp h
    obtain rfl := congrArg Prod.fst h
    simp only [deliver] at hdeliver
    split at hdeliver
    next => cases hdeliver
    next event hreceived =>
      obtain rfl := Option.some.inj hdeliver
      refine .moved rfl rfl rfl rfl ?_ rfl rfl
      cases hsink : e.sink with
      | none => simp [flow, hreceived]
      | some sink => simp [flow, hreceived]

/-! ## What every run keeps -/

/-- **The accepted events**: they are in order and not later than the counters, owners are captured
contexts and made their events, and the flag remembers a receive of this generation. -/
structure Accounted (e : Emitter) : Prop where
  ordered : (e.accepted.map Prod.snd).Pairwise Event.Before
  bounded : ∀ p ∈ e.accepted, p.2.generation < e.generation ∨
    p.2.generation = e.generation ∧ p.2.sequence ≤ e.sequence
  owned : ∀ p ∈ e.accepted, ∀ context, p.1 = some context →
    p.2.context = context ∧ context ∈ e.captured
  flagged : ∀ p ∈ e.accepted, p.2.definition = dnsProbeReceive → p.2.generation = e.generation →
    e.firstOwnedDNSReceived = true
  once : (e.accepted.map Prod.snd).Pairwise fun event event' => event.definition = dnsProbeReceive →
    event'.definition = dnsProbeReceive → event.generation ≠ event'.generation

theorem Accounted.of_accepted (h : Accounted e) (haccepted : e'.accepted = e.accepted)
    (hbounded : ∀ p ∈ e.accepted, p.2.generation < e'.generation ∨
      p.2.generation = e'.generation ∧ p.2.sequence ≤ e'.sequence)
    (hcaptured : e.captured ⊆ e'.captured)
    (hflagged : ∀ p ∈ e.accepted, p.2.definition = dnsProbeReceive →
      p.2.generation = e'.generation → e'.firstOwnedDNSReceived = true) : Accounted e' where
  ordered := haccepted ▸ h.ordered
  bounded := haccepted ▸ hbounded
  owned := by
    rw [haccepted]
    exact fun p hp context hc => ⟨(h.owned p hp context hc).1, hcaptured (h.owned p hp context hc).2⟩
  flagged := haccepted ▸ hflagged
  once := haccepted ▸ h.once

theorem Accounted.change (h : Accounted e) (hc : Change e e') : Accounted e' := by
  cases hc with
  | idle hgeneration hsequence hflag haccepted hflow hnumbered hcaptured =>
    refine h.of_accepted haccepted ?_ hcaptured ?_
    · rw [hgeneration, hsequence]
      exact h.bounded
    · rw [hgeneration, hflag]
      exact h.flagged
  | configured hgeneration haccepted hflow hnumbered hcaptured =>
    -- every accepted event is of an older generation
    have hold : ∀ p ∈ e.accepted, p.2.generation < e'.generation := by
      intro p hp
      have := h.bounded p hp
      omega
    refine h.of_accepted haccepted (fun p hp => .inl (hold p hp)) (hcaptured ▸ List.Subset.refl _) ?_
    intro p hp _ heq
    exact absurd (hold p hp) (by omega)
  | emitted definition severity outcome errorCode owner now howner hdns =>
    have hlast : ∀ p ∈ e.accepted,
        p.2.Before (e.nextEvent definition severity outcome errorCode now) := by
      intro p hp
      have := h.bounded p hp
      simp only [Event.Before, nextEvent]
      omega
    have hmem : ∀ {event}, event ∈ e.accepted.map Prod.snd → ∃ p ∈ e.accepted, p.2 = event :=
      fun hevent => List.mem_map.mp hevent
    refine ⟨?_, ?_, ?_, ?_, ?_⟩
    · rw [List.map_append, List.pairwise_append]
      refine ⟨h.ordered, List.pairwise_singleton _ _, fun event hevent event' hevent' => ?_⟩
      obtain ⟨p, hp, rfl⟩ := hmem hevent
      rw [List.mem_singleton.mp hevent']
      exact hlast p hp
    · intro p hp
      rcases List.mem_append.mp hp with hp | hp
      · have := h.bounded p hp
        simp only
        omega
      · rw [List.mem_singleton.mp hp]
        exact .inr ⟨rfl, Int.le_refl _⟩
    · intro p hp context hcontext
      rcases List.mem_append.mp hp with hp | hp
      · exact h.owned p hp context hcontext
      · rw [List.mem_singleton.mp hp] at hcontext ⊢
        obtain ⟨rfl, hmemc⟩ := howner context hcontext
        exact ⟨rfl, hmemc⟩
    · intro p hp hdefinition hgeneration
      rcases List.mem_append.mp hp with hp | hp
      · simp [h.flagged p hp hdefinition hgeneration]
      · rw [List.mem_singleton.mp hp] at hdefinition
        have hdefinition : definition = dnsProbeReceive := hdefinition
        simp [hdefinition]
    · rw [List.map_append, List.pairwise_append]
      refine ⟨h.once, List.pairwise_singleton _ _, fun event hevent event' hevent' => ?_⟩
      obtain ⟨p, hp, rfl⟩ := hmem hevent
      rw [List.mem_singleton.mp hevent']
      intro hdefinition hdefinition' hgeneration
      have hflag := h.flagged p hp hdefinition hgeneration
      exact absurd ((hdns hdefinition').symm.trans hflag) (by simp)
  | sent k event hevent pending hpending =>
    exact h.of_accepted rfl h.bounded (List.Subset.refl _) h.flagged
  | moved hgeneration hsequence hflag haccepted hflow hnumbered hcaptured =>
    refine h.of_accepted haccepted ?_ (hcaptured ▸ List.Subset.refl _) ?_
    · rw [hgeneration, hsequence]
      exact h.bounded
    · rw [hgeneration, hflag]
      exact h.flagged

theorem accounted_newEmitter (maximumPending : ℤ) : Accounted (newEmitter maximumPending) :=
  ⟨List.Pairwise.nil, by simp [newEmitter], by simp [newEmitter], by simp [newEmitter],
    List.Pairwise.nil⟩

theorem accounted_run {maximumPending : ℤ} (run : machine.Reaches (newEmitter maximumPending) e) :
    Accounted e :=
  run.invariant (P := Accounted) (fun _ _ _ _ _ hs h => h.change (change_step hs))
    (accounted_newEmitter maximumPending)

/-! ## Calm runs -/

/-- **No emit takes a number while another has not sent its event.** -/
def Calm (e : Emitter) (op : Op) : Prop :=
  ∀ e' answer, e.step op = some (e', answer) → e'.accepted ≠ e.accepted → e.numbered = []

/-- A check that an operation is calm. -/
def calmCheck (e : Emitter) (op : Op) : Bool :=
  (e.step op).all fun p => decide (p.1.accepted = e.accepted) || e.numbered.isEmpty

theorem calm_of_check (h : calmCheck e op = true) : Calm e op := by
  intro e' answer hs haccepted
  simpa [calmCheck, hs, haccepted] using h

/-- What is under way is in the order of the numbers, and one event at most has not been sent. -/
structure Flowing (e : Emitter) : Prop where
  flow : e.flow.Sublist (e.accepted.map Prod.snd)
  single : e.numbered.length ≤ 1

theorem Flowing.change (h : Flowing e) (hc : Change e e')
    (hcalm : e'.accepted ≠ e.accepted → e.numbered = []) :
    Flowing e' := by
  cases hc with
  | idle hgeneration hsequence hflag haccepted hflow hnumbered hcaptured =>
    exact ⟨hflow ▸ haccepted ▸ h.flow, hnumbered ▸ h.single⟩
  | configured hgeneration haccepted hflow hnumbered hcaptured =>
    exact ⟨hflow ▸ haccepted ▸ h.flow, hnumbered ▸ h.single⟩
  | emitted definition severity outcome errorCode owner now howner hdns =>
    have hnone : e.numbered = [] := hcalm (by simp)
    refine ⟨?_, by simp [hnone]⟩
    have hflow := h.flow.append
      (List.Sublist.refl [e.nextEvent definition severity outcome errorCode now])
    simpa [Emitter.flow, hnone] using hflow
  | sent k event hevent pending hpending =>
    obtain ⟨hlt, -⟩ := List.getElem?_eq_some_iff.mp hevent
    obtain ⟨event', hone⟩ : ∃ event', e.numbered = [event'] :=
      List.length_eq_one_iff.mp (by have := h.single; omega)
    obtain rfl : k = 0 := by
      rw [hone, List.length_singleton] at hlt
      omega
    obtain rfl : event' = event := by simpa [hone] using hevent
    have hflow := h.flow
    simp only [Emitter.flow, hone] at hflow
    refine ⟨?_, by simp [hone]⟩
    rcases hpending with rfl | rfl
    · refine List.Sublist.trans ?_ hflow
      simp [Emitter.flow, hone]
    · simpa [Emitter.flow, hone] using hflow
  | moved hgeneration hsequence hflag haccepted hflow hnumbered hcaptured =>
    exact ⟨haccepted ▸ hflow.trans h.flow, hnumbered ▸ h.single⟩

theorem flowing_run {maximumPending : ℤ}
    (run : machine.ReachesIf Calm (newEmitter maximumPending) e) : Flowing e :=
  run.invariant (P := Flowing)
    (fun _ _ e' answer hcalm hs h => h.change (change_step hs) (hcalm e' answer hs))
    ⟨List.Sublist.refl _, by simp [newEmitter]⟩

/-- The events one sink was handed. -/
def eventsOf (e : Emitter) (sink : ℕ) : List Event :=
  (e.delivered.filter (·.1 == sink)).map Prod.snd

theorem Flowing.pairwise (h : Flowing e) (hordered : Accounted e) (sink : ℕ) :
    (e.eventsOf sink).Pairwise Event.Before := by
  have hdelivered : (e.delivered.map Prod.snd).Sublist e.flow := by
    simp only [Emitter.flow, List.append_assoc]
    exact List.sublist_append_left _ _
  have hsink : (e.eventsOf sink).Sublist (e.delivered.map Prod.snd) :=
    (List.filter_sublist).map Prod.snd
  exact hordered.ordered.sublist (hsink.trans (hdelivered.trans h.flow))

/-- **Operational events are accepted in their context, a receive once in a generation, and delivered
in order**: the last where no emit takes a number while another has not sent its event. -/
theorem delivery_order {maximumPending : ℤ} {e : Emitter}
    (run : machine.Reaches (newEmitter maximumPending) e) :
    (∀ definition outcome errorCode k now e',
      e.step (.emit definition outcome errorCode (some k) now) = some (e', true) →
        e.captured[k]? = some e.context) ∧
    (∀ p ∈ e.accepted, ∀ context, p.1 = some context →
      p.2.context = context ∧ context ∈ e.captured) ∧
    ((e.accepted.map Prod.snd).Pairwise fun event event' => event.definition = dnsProbeReceive →
      event'.definition = dnsProbeReceive → event.generation ≠ event'.generation) ∧
    (machine.ReachesIf Calm (newEmitter maximumPending) e → ∀ sink,
      (e.eventsOf sink).Pairwise Event.Before ∧ host none (e.eventsOf sink) = e.eventsOf sink) := by
  have haccounted := accounted_run run
  refine ⟨?_, haccounted.owned, haccounted.once, fun calm sink => ?_⟩
  · intro definition outcome errorCode k now e' hs
    simp only [step] at hs
    split at hs
    next => cases hs
    next context hk =>
      cases hemit : e.emit definition outcome errorCode (some context) now with
      | none => simp [hemit] at hs
      | some e'' => rw [hk, (emit_eq_some hemit).1 context rfl]
  · have hpairwise := (flowing_run calm).pairwise haccounted sink
    exact ⟨hpairwise, host_eq_self (fun _ _ => rfl) hpairwise⟩

/-! ## Once -/

/-- What has a number was accepted, each time it occurs. -/
theorem Change.subperm (hc : Change e e') (h : e.flow.Subperm (e.accepted.map Prod.snd)) :
    e'.flow.Subperm (e'.accepted.map Prod.snd) := by
  cases hc with
  | idle _ _ _ haccepted hflow => rwa [hflow, haccepted]
  | configured _ haccepted hflow => rwa [hflow, haccepted]
  | emitted =>
    simp only [flow, List.map_append, ← List.append_assoc]
    exact h.append (List.Subperm.refl _)
  | sent k event hevent pending hpending =>
    refine List.Subperm.trans ?_ h
    obtain ⟨hlt, rfl⟩ := List.getElem?_eq_some_iff.mp hevent
    rcases hpending with rfl | rfl
    · exact (List.Sublist.append_left (List.eraseIdx_sublist _ k) _).subperm
    · have hperm := List.getElem_cons_eraseIdx_perm hlt
      simp only [flow, List.append_assoc]
      exact ((((hperm.append_left _).append_left _).append_left _)).subperm
  | moved _ _ _ haccepted hflow => exact haccepted ▸ hflow.subperm.trans h

/-- **An event is handed over at most once**, whatever sinks there are, and only if it was
accepted. -/
theorem delivered_once {maximumPending : ℤ} {e : Emitter}
    (run : machine.Reaches (newEmitter maximumPending) e) :
    (e.delivered.map Prod.snd).Nodup ∧ e.delivered.map Prod.snd ⊆ e.accepted.map Prod.snd := by
  have hflow : e.flow.Subperm (e.accepted.map Prod.snd) :=
    run.invariant (P := fun e => e.flow.Subperm (e.accepted.map Prod.snd))
      (fun _ _ _ _ _ hs => (change_step hs).subperm) (List.Subperm.refl _)
  have hdelivered : (e.delivered.map Prod.snd).Subperm (e.accepted.map Prod.snd) := by
    refine List.Subperm.trans ?_ hflow
    simp only [flow, List.append_assoc]
    exact (List.sublist_append_left _ _).subperm
  have hnodup : (e.accepted.map Prod.snd).Nodup := (accounted_run run).ordered.imp fun h heq => by
    subst heq
    simp [Event.Before] at h
  refine ⟨?_, hdelivered.subset⟩
  obtain ⟨l, hperm, hsub⟩ := hdelivered
  exact hperm.nodup_iff.mp (hnodup.sublist hsub)

section Sample

def sampleID : String := "00000000-0000-4000-8000-000000000000"

/-- A sink, a configuration, a captured context, and two events that take their numbers. -/
def sampleEmits : List Op :=
  [.setSink (some 0), .configure sampleID sampleID 1, .captureContext,
    .emit runtimeStart .started "" none 0]

theorem delivery_order_sample : ∃ e,
    machine.ReachesIf Calm (newEmitter 2) e ∧
    (e.eventsOf 0).map (fun event => (event.generation, event.sequence)) = [(1, 1), (1, 2)] ∧
    host none (e.eventsOf 0) = e.eventsOf 0 := by
  have hrun : (machine.runIf calmCheck (newEmitter 2) (sampleEmits ++
      [.send 0, .receive, .emit dnsProbeReceive .started "" (some 0) 1, .send 0, .deliver, .receive,
        .deliver])).map
      (fun e => (e.eventsOf 0).map fun event => (event.generation, event.sequence)) =
      some [(1, 1), (1, 2)] := by
    decide +kernel
  obtain ⟨e, he, hevents⟩ := Option.map_eq_some_iff.mp hrun
  have calm : machine.ReachesIf Calm (newEmitter 2) e :=
    Machine.reachesIf_runIf (fun _ _ => calm_of_check) he
  exact ⟨e, calm, hevents,
    ((delivery_order (calm.mono fun _ _ _ => trivial)).2.2.2 calm 0).2⟩

/-- **Two emits overtake each other**: the second to take a number is the first to send its event, and
the host rejects the other one. -/
theorem delivered_out_of_order : ∃ e, machine.Reaches (newEmitter 2) e ∧
    (e.eventsOf 0).map (fun event => (event.generation, event.sequence)) = [(1, 2), (1, 1)] ∧
    (host none (e.eventsOf 0)).map (fun event => (event.generation, event.sequence)) =
      [(1, 2)] := by
  have hrun : (machine.run (newEmitter 2) (sampleEmits ++
      [.emit runtimeStop .started "" none 1, .send 1, .send 0, .receive, .deliver, .receive,
        .deliver])).map
      (fun e => ((e.eventsOf 0).map fun event => (event.generation, event.sequence),
        (host none (e.eventsOf 0)).map fun event => (event.generation, event.sequence))) =
      some ([(1, 2), (1, 1)], [(1, 2)]) := by
    decide +kernel
  obtain ⟨e, he, hevents⟩ := Option.map_eq_some_iff.mp hrun
  simp only [Prod.mk.injEq] at hevents
  exact ⟨e, Machine.reaches_run he, hevents⟩

theorem delivered_once_sample : ∃ e, machine.Reaches (newEmitter 2) e ∧ e.delivered ≠ [] ∧
    (e.delivered.map Prod.snd).Nodup := by
  have hrun : ((machine.run (newEmitter 2) (sampleEmits ++ [.send 0, .receive, .deliver])).map
      fun e => e.delivered.isEmpty) = some false := by decide +kernel
  obtain ⟨e, he, hdelivered⟩ := Option.map_eq_some_iff.mp hrun
  exact ⟨e, Machine.reaches_run he, by simpa using hdelivered,
    (delivered_once (Machine.reaches_run he)).1⟩

end Sample

end Emitter

end PokrovCore.Observability
