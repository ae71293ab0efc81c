import Mathlib.Data.List.ReduceOption
import PokrovCore.Foundations.Hex
import PokrovCore.LocalDpi.LocalFlows

/-!
# LocalDpi/WindowsRetry — one retry for all Windows holders of a runtime

`PrepareWindowsLocalDpiRetry` matches captured identities with the Windows holders of the running
instance, and `PrepareWindowsRetry` renews them in one section under all their mutexes; then it closes
their old local flows one after the other, each under the mutex of its holder.  The call holds the
lock of the service, so there is one at a time, and only it renews an identity; everything else the
holders and flows do goes on beside it.

`windows_retry_once` — the section renews every holder of the call or none, a second call of an
instance renews nothing, and no flow on the VPN path is touched.
-/

namespace PokrovCore.LocalDpi

/-! ## Which mutex a step takes -/

/-- Does a step of a flow take the mutex of its holder? -/
def FlowEvent.locks : FlowEvent → Bool
  | .wait _ | .rejoin | .decide | .report | .fallBack | .attach | .vpnEnter | .vpnCount | .write
  | .leave => true
  | _ => false

/-- The holder whose mutex an event takes. -/
def World.mutex (w : World) : Event → Option ℕ
  | .start i _ | .accept i _ | .packet i _ | .admitAdmission i _ | .fail i _ _ | .withdraw i _
  | .withdrawNext i | .withdrawDone i | .close i => some i
  | .flow f e => if e.locks then some (w.flows f).owner else none
  | _ => none

/-- Has `connectVPN` taken the flow over? -/
def Pc.onVpn : Pc → Bool
  | .vpnReady | .vpnDialing | .vpnDialed _ | .vpnAttached | .handed .vpn _ => true
  | _ => false

/-! ## The call -/

/-- The captured identities of a call: at most 256, well formed and distinct. -/
def parseIDs (csv : String) : Option (List String) :=
  let ids := (csv.toList.splitOn ',').map String.ofList
  if 256 < ids.length ∨ ids.all (hexPattern 32) = false ∨ ¬ids.Nodup then none else some ids

/-- One outbound of the runtime, in the walk that matches the identities. -/
def World.matchHolder (w : World) (ids : List String) (m : List (Option ℕ) × ℕ) (i : ℕ) :
    Option (List (Option ℕ) × ℕ) :=
  if (w.holders i).windowsDirect then
    match ids.idxOf? (w.holders i).admissionID with
    | none => none
    | some k =>
      if m.1[k]?.join.isSome then none else some (m.1.set k (some i), m.2 + 1)
  else some m

/-- The Windows holders of the runtime in the order of the identities. -/
def World.matchHolders (w : World) (outbounds : List ℕ) (ids : List String) :
    Option (List (Option ℕ)) := do
  let (holders, count) ← outbounds.foldlM (w.matchHolder ids) (List.replicate ids.length none, 0)
  if count ≠ ids.length then none else some holders

/-- `PrepareWindowsRetry` on pointers, of which none may be nil. -/
def World.prepareHolders (w : World) (holders : List (Option ℕ)) (expectedIDs newIDs : List String) :
    Option World :=
  if holders.any Option.isNone then none
  else w.prepareWindowsRetry holders.reduceOption expectedIDs newIDs

/-- Where a call stands. -/
inductive Call
  | idle
  | matched (holders : List (Option ℕ)) (ids : List String)
  | closing (newIDs : List String) (todo : List ℕ)
  | joining (newIDs : List String) (flow : ℕ) (todo : List ℕ)
  deriving DecidableEq

/-- **A running instance**: its outbounds in the order of the manager, and the one call that may be
under way. -/
structure Runtime where
  outbounds : List ℕ
  nodup : outbounds.Nodup
  started : Bool
  world : World
  call : Call

/-- What may happen.  `prepareWindowsRetry` is a call of that function with any arguments, beside
those `prepareWindowsLocalDpiRetry` makes. -/
inductive RuntimeEvent
  | world (e : Event)
  | stop
  | prepareWindowsLocalDpiRetry (csv : String)
  | prepare (newIDs : List String)
  | prepareWindowsRetry (holders : List (Option ℕ)) (expectedIDs newIDs : List String)
  | closeNext
  | closeJoin
  | closed

inductive RuntimeOutput
  | world (o : Output)
  | none
  | unavailable
  | rejected
  | accepted
  | returned (ids : String)
  deriving DecidableEq

/-- Is an event a step of a call? -/
def RuntimeEvent.ofCall : RuntimeEvent → Bool
  | .world _ | .stop => false
  | _ => true

namespace Runtime

variable (r : Runtime)

def start (outbounds : List ℕ) (nodup : outbounds.Nodup) (holders : ℕ → Outbound) : Runtime where
  outbounds := outbounds
  nodup := nodup
  started := true
  world := World.start holders
  call := .idle

/-- The Windows holders of the instance. -/
def windowsHolders : List ℕ := r.outbounds.filter fun i => (r.world.holders i).windowsDirect

/-- May something else happen now?  Renewals and their closings are left to the call, which holds the
mutex of the flow it closes. -/
def mayStep (e : Event) : Bool :=
  (match e with
    | .retry .. => false
    | .flow f .close => (r.world.flows f).ctxDone || (r.world.flows f).asked
    | _ => true) &&
  match r.call with
  | .joining _ f _ => decide (r.world.mutex e ≠ some (r.world.flows f).owner)
  | _ => true

/-- The section of `PrepareWindowsRetry`, and the local flows it lists. -/
def prepare (holders : List (Option ℕ)) (expectedIDs newIDs : List String) :
    Runtime × RuntimeOutput :=
  match r.world.prepareHolders holders expectedIDs newIDs with
  | none => ({ r with call := .idle }, .rejected)
  | some w =>
    ({ r with world := w, call := .closing newIDs (holders.reduceOption.flatMap r.world.localFlows) },
      .accepted)

/-- **One event.** -/
def step : RuntimeEvent → Option (Runtime × RuntimeOutput)
  | .world e =>
    if r.mayStep e then
      (r.world.step e).map fun p => ({ r with world := p.1 }, .world p.2)
    else none
  | .stop => if r.call = .idle then some ({ r with started := false }, .none) else none
  | .prepareWindowsLocalDpiRetry csv =>
    if r.call = .idle then
      match parseIDs csv with
      | none => some (r, .rejected)
      | some ids =>
        if r.started then
          match r.world.matchHolders r.outbounds ids with
          | none => some (r, .rejected)
          | some holders => some ({ r with call := .matched holders ids }, .none)
        else some (r, .unavailable)
    else none
  | .prepare newIDs =>
    match r.call with
    | .matched holders ids => some (r.prepare holders ids newIDs)
    | _ => none
  | .prepareWindowsRetry holders expectedIDs newIDs =>
    if r.call = .idle then some (r.prepare holders expectedIDs newIDs) else none
  | .closeNext =>
    match r.call with
    | .closing newIDs (f :: todo) =>
      if (r.world.flows f).isLocal then
        some ({ r with
          world := r.world.setFlow f { r.world.flows f with closed := true }
          call := .joining newIDs f todo }, .none)
      else some ({ r with call := .closing newIDs todo }, .none)
    | _ => none
  | .closeJoin =>
    match r.call with
    | .joining newIDs f todo =>
      if (r.world.flows f).shut then some ({ r with call := .closing newIDs todo }, .none) else none
    | _ => none
  | .closed =>
    match r.call with
    | .closing newIDs [] => some ({ r with call := .idle }, .returned (",".intercalate newIDs))
    | _ => none

/-- The machine of a running instance. -/
def machine : Machine Runtime RuntimeEvent RuntimeOutput := ⟨fun r e => r.step e⟩

end Runtime

/-! ## Matching -/

section matching

variable {w : World} {ids : List String}

theorem reduceOption_set {α : Type*} {l : List (Option α)} {k : ℕ} (a : α) (hk : k < l.length)
    (hnone : l[k]?.join.isSome = false) : (l.set k (some a)).reduceOption.Perm (a :: l.reduceOption) := by
  induction l generalizing k with
  | nil => cases hk
  | cons x l ih =>
    cases k with
    | zero =>
      cases x with
      | none => simp
      | some x => cases hnone
    | succ k =>
      have ih := ih (k := k) (Nat.lt_of_succ_lt_succ hk) hnone
      cases x with
      | none => simpa using ih
      | some x =>
        simp only [List.set_cons_succ, List.reduceOption_cons_of_some]
        exact (ih.cons x).trans (.swap a x _)

theorem map_some_reduceOption {α : Type*} {l : List (Option α)} (h : ∀ x ∈ l, x.isSome = true) :
    l.reduceOption.map some = l := by
  induction l with
  | nil => rfl
  | cons x l ih =>
    obtain ⟨a, rfl⟩ := Option.isSome_iff_exists.mp (h x List.mem_cons_self)
    rw [List.reduceOption_cons_of_some, List.map_cons, ih fun y hy => h y (List.mem_cons_of_mem _ hy)]

/-- **What the walk has done**: each holder it passed is in the slot of its identity. -/
structure Matching (w : World) (ids : List String) (passed : List ℕ) (m : List (Option ℕ) × ℕ) :
    Prop where
  length : m.1.length = ids.length
  count : m.2 = m.1.reduceOption.length
  perm : m.1.reduceOption.Perm (passed.filter fun i => (w.holders i).windowsDirect)
  slots : ∀ k i : ℕ, m.1[k]? = some (some i) → ids[k]? = some (w.holders i).admissionID

theorem matching_start : Matching w ids [] (List.replicate ids.length none, 0) where
  length := List.length_replicate
  count := by simp
  perm := by simp
  slots k i h := by
    rw [List.getElem?_replicate] at h
    split at h <;> cases h

theorem Matching.step {passed : List ℕ} {m m' : List (Option ℕ) × ℕ} {i : ℕ}
    (hm : Matching w ids passed m) (h : w.matchHolder ids m i = some m') :
    Matching w ids (passed ++ [i]) m' := by
  unfold World.matchHolder at h
  split at h
  case isFalse hwin =>
    obtain rfl := Option.some.inj h
    refine ⟨hm.length, hm.count, ?_, hm.slots⟩
    rw [List.filter_append, List.filter_singleton, Bool.eq_false_iff.mpr hwin, cond_false,
      List.append_nil]
    exact hm.perm
  case isTrue hwin =>
    split at h
    · cases h
    rename_i k hk
    obtain ⟨hnone, h⟩ := Option.ite_none_left_eq_some.mp h
    obtain rfl := Option.some.inj h
    obtain ⟨hlt, hid, -⟩ := List.idxOf?_eq_some_iff.mp hk
    have hperm := reduceOption_set i (hm.length ▸ hlt) (Bool.eq_false_iff.mpr hnone)
    refine ⟨by rw [List.length_set]; exact hm.length, ?_, ?_, fun k' j hj => ?_⟩
    · rw [hperm.length_eq, List.length_cons, ← hm.count]
    · rw [List.filter_append, List.filter_singleton, hwin, cond_true]
      exact hperm.trans ((hm.perm.cons i).trans (List.perm_append_singleton i _).symm)
    · rw [List.getElem?_set] at hj
      split at hj
      · rename_i heq
        split at hj
        · obtain rfl := Option.some.inj (Option.some.inj hj)
          rw [← heq, List.getElem?_eq_getElem hlt, hid]
        · cases hj
      · exact hm.slots k' j hj

theorem matching_foldlM : ∀ {rest passed : List ℕ} {m m' : List (Option ℕ) × ℕ},
    Matching w ids passed m → rest.foldlM (w.matchHolder ids) m = some m' →
      Matching w ids (passed ++ rest) m'
  | [], passed, m, m', hm, h => by
    obtain rfl := Option.some.inj h
    rwa [List.append_nil]
  | i :: rest, passed, m, m', hm, h => by
    rw [List.foldlM_cons] at h
    obtain ⟨m₁, hstep, h⟩ := Option.bind_eq_some_iff.mp h
    have := matching_foldlM (hm.step hstep) h
    rwa [List.append_assoc, List.singleton_append] at this

/-- **What is matched**: all Windows holders, each with its current identity. -/
theorem matchHolders_spec {outbounds : List ℕ} {slots : List (Option ℕ)}
    (h : w.matchHolders outbounds ids = some slots) :
    slots.any Option.isNone = false ∧
      slots.reduceOption.Perm (outbounds.filter fun i => (w.holders i).windowsDirect) ∧
      slots.reduceOption.map (fun i => (w.holders i).admissionID) = ids := by
  obtain ⟨⟨slots', count⟩, hfold, h⟩ := Option.bind_eq_some_iff.mp h
  obtain ⟨hcount, h⟩ := Option.ite_none_left_eq_some.mp h
  obtain rfl := Option.some.inj h
  have hm := matching_foldlM matching_start hfold
  have hfull : ∀ x ∈ slots', x.isSome = true :=
    List.reduceOption_length_eq_iff.mp (hm.count.symm.trans ((not_not.mp hcount).trans hm.length.symm))
  have hslots := map_some_reduceOption hfull
  refine ⟨?_, hm.perm, List.ext_getElem? fun k => ?_⟩
  · refine List.any_eq_false.mpr fun x hx => ?_
    rw [Option.isNone_iff_eq_none, ← Option.not_isSome_iff_eq_none]
    exact not_not.mpr (hfull x hx)
  · rw [List.getElem?_map]
    cases hk : slots'.reduceOption[k]? with
    | some i =>
      refine (hm.slots k i ?_).symm
      rw [← hslots, List.getElem?_map, hk]
      rfl
    | none =>
      refine (List.getElem?_eq_none ?_).symm
      have := List.getElem?_eq_none_iff.mp hk
      rwa [← hm.count, not_not.mp hcount] at this

end matching

/-! ## The section -/

section renewal

variable {w w' : World} {holders : List ℕ} {ids newIDs : List String}

/-- A retry leaves the flows alone that are not local. -/
theorem foldl_renew_flow {f : ℕ} (l : List (ℕ × String)) (hf : (w.flows f).isLocal = false) :
    (l.foldl (fun w p => w.renew p.1 p.2) w).flows f = w.flows f := by
  induction l generalizing w with
  | nil => rfl
  | cons p l ih =>
    have hrenew : (w.renew p.1 p.2).flows f = w.flows f := by
      have hmem : f ∉ w.localFlows p.1 := fun h => by
        rw [(List.mem_filter.mp h).2] at hf
        cases hf
      simp [World.renew, hmem]
    rw [List.foldl_cons, ih (hrenew ▸ hf), hrenew]

/-- **The section renewed its holders**: each is under its new identity, whose channel nobody closed,
and nothing else is different. -/
structure Renewed (w w' : World) (holders : List ℕ) (ids newIDs : List String) : Prop where
  length : holders.length = ids.length ∧ newIDs.length = holders.length
  distinct : holders.Nodup ∧ ids.Nodup ∧ newIDs.Nodup
  fresh : ∀ id ∈ newIDs, id ∉ ids
  installed : ∀ {k i : ℕ} {old new : String}, holders[k]? = some i → ids[k]? = some old →
    newIDs[k]? = some new → (w.holders i).admissionID = old ∧
      w'.holders i = (w.holders i).renew new ∧ w'.closings i new = 0
  others : ∀ i, i ∉ holders → w'.holders i = w.holders i
  closings : w'.closings = w.closings
  flows : ∀ f, (w.flows f).isLocal = false → w'.flows f = w.flows f
  sockets : w'.socketClosed = w.socketClosed

/-- What a holder in a call answers for. -/
theorem retryable_spec {h : Outbound} {done : Bool} {id : String} (hr : h.retryable done id = true) :
    h.windowsDirect = true ∧ h.retryPrepared = false ∧ h.admissionID = id := by
  simp only [Outbound.retryable, Bool.and_eq_true, Bool.not_eq_true', beq_iff_eq] at hr
  exact ⟨hr.1.1.1.1.1, hr.1.1.1.2, hr.1.2⟩

theorem prepareWindowsRetry_renewed (hcounted : ∀ i, (w.standing i).Counted)
    (h : w.prepareWindowsRetry holders ids newIDs = some w') :
    Renewed w w' holders ids newIDs ∧ holders ≠ [] ∧
      (∀ i ∈ holders, (w.holders i).windowsDirect = true ∧ (w.holders i).retryPrepared = false) ∧
      ∃ i ∈ holders, (w.holders i).mendable = true := by
  have hkept := (World.prepareWindowsRetry_eq_some h).2
  unfold World.prepareWindowsRetry at h
  obtain ⟨hcond, h⟩ := Option.ite_none_left_eq_some.mp h
  simp only [not_or, not_not, ne_eq] at hcond
  obtain ⟨hne, hlen, -, hnodup, hlen', hall, hids, hfresh, hnew, hmend⟩ := hcond
  obtain rfl := Option.some.inj h
  have hfst : (holders.zip newIDs).map Prod.fst = holders :=
    List.map_fst_zip (Nat.le_of_eq hlen'.symm)
  have hfold := (World.foldl_renew (holders.zip newIDs) (hfst.symm ▸ hnodup) w).1
  have hretry : ∀ {k i : ℕ} {old : String}, holders[k]? = some i → ids[k]? = some old →
      (w.holders i).retryable (w.runtimeDone i) old = true := by
    intro k i old hi hold
    exact List.all_eq_true.mp hall (i, old) (List.mem_of_getElem? (List.getElem?_zip_eq_some.mpr
      ⟨hi, hold⟩))
  have hfresh' : ∀ id ∈ newIDs, id ∉ ids := fun id hid hmem =>
    hfresh (List.any_eq_true.mpr ⟨id, hid, List.contains_iff_mem.mpr hmem⟩)
  refine ⟨⟨⟨hlen, hlen'⟩, ⟨hnodup, hids, hnew⟩, hfresh', ?_, fun i hi => ?_, hkept.2.1,
    fun f hf => foldl_renew_flow _ hf, hkept.2.2.2.2.1⟩, hne, fun i hi => ?_,
    List.any_eq_true.mp hmend⟩
  · intro k i old new hi hold hnewk
    obtain ⟨_, hprepared, hcurrent⟩ := retryable_spec (hretry hi hold)
    refine ⟨hcurrent, ?_, ?_⟩
    · rcases hfold i with ⟨hnot, _⟩ | ⟨id, hmem, hrenew⟩
      · rw [hfst] at hnot
        exact absurd (List.mem_of_getElem? hi) hnot
      · -- a holder is in the call once, so the identity is its own
        obtain ⟨k', hk'⟩ := List.getElem?_of_mem hmem
        obtain ⟨hi', hid⟩ := List.getElem?_zip_eq_some.mp hk'
        have hlt : k < holders.length := (List.getElem?_eq_some_iff.mp hi).1
        obtain rfl := (List.getElem?_inj hlt hnodup).mp (hi.trans hi'.symm)
        rw [hrenew, show id = new from Option.some.inj (hid.symm.trans hnewk)]
    · rw [hkept.2.1]
      refine (hcounted i).other hprepared new fun heq => ?_
      refine hfresh' new (List.mem_of_getElem? hnewk) ?_
      rw [show new = old from heq.trans hcurrent]
      exact List.mem_of_getElem? hold
  · rcases hfold i with ⟨_, hsame⟩ | ⟨id, hmem, _⟩
    · exact hsame
    · exact absurd (hfst ▸ List.mem_map_of_mem hmem : i ∈ holders) hi
  · obtain ⟨k, hk⟩ := List.getElem?_of_mem hi
    have hlt : k < ids.length := hlen ▸ (List.getElem?_eq_some_iff.mp hk).1
    obtain ⟨hwin, hprepared, _⟩ := retryable_spec (hretry hk (List.getElem?_eq_getElem hlt))
    exact ⟨hwin, hprepared⟩

end renewal

/-! ## What goes on beside a call -/

section world

variable {w w' : World} {e : Event} {o : Output} {f : ℕ}

theorem windowsDirect_step (hs : World.machine.step w e = some (w', o)) (i : ℕ) :
    (w'.holders i).windowsDirect = (w.holders i).windowsDirect := by
  have hset : ∀ {j : ℕ} {h : Outbound}, h.windowsDirect = (w.holders j).windowsDirect →
      (Function.update w.holders j h i).windowsDirect = (w.holders i).windowsDirect := by
    intro j h hh
    rcases eq_or_ne i j with rfl | hij
    · rw [Function.update_self, hh]
    · rw [Function.update_of_ne hij]
  cases World.did_step hs with
  | holder hsec hholders =>
    rw [hholders]
    exact hset hsec.windowsDirect
  | accept j metadata => exact hset rfl
  | retry hretry =>
    rcases (World.prepareWindowsRetry_eq_some hretry).1 i with hsame | ⟨id, hrenew, _⟩
    · rw [hsame]
    · rw [hrenew]
      rfl
  | flow f e h x eff hf hflow =>
    rw [World.perform_holders]
    refine hset ?_
    rcases World.flowStep_cases hflow with hk | ⟨-, reason, rfl⟩
    · exact hk.windowsDirect
    · rfl

theorem retryPrepared_step (hs : World.machine.step w e = some (w', o)) {i : ℕ}
    (h : (w.holders i).retryPrepared = true) : (w'.holders i).retryPrepared = true := by
  rcases World.standing_step hs i with hsame | hstep
  · exact (congrArg Standing.retryPrepared hsame).trans h
  · have hmono : ∀ {s t : Standing}, s.Step t → s.retryPrepared = true → t.retryPrepared = true := by
      intro s t hst h
      cases hst with
      | renew => rfl
      | _ => exact h
    exact hmono hstep h

theorem flowStep_onVpn {h h' : Outbound} {s : Surroundings} {x x' : Flow} {e : FlowEvent}
    {eff : Effect} (hs : flowStep h s f x e = some (h', x', eff))
    (hx : x.pc.onVpn = true → x.isLocal = false) : x'.pc.onVpn = true → x'.isLocal = false := by
  cases e <;> simp only [flowStep] at hs <;> grind [Pc.onVpn]

theorem flowStep_isLocal {h h' : Outbound} {s : Surroundings} {x x' : Flow} {e : FlowEvent}
    {eff : Effect} (hs : flowStep h s f x e = some (h', x', eff)) (he : e.locks = false) :
    x'.isLocal = x.isLocal := by
  cases e <;> simp only [flowStep] at hs <;> grind [FlowEvent.locks]

theorem isLocal_step (hs : World.machine.step w e = some (w', o)) (hf : f < w.flowCount)
    (he : ∀ e', e = .flow f e' → e'.locks = false) :
    (w'.flows f).isLocal = (w.flows f).isLocal := by
  cases World.did_step hs with
  | holder _ _ _ _ hflag =>
    obtain ⟨c, a, b, h⟩ := hflag.flows f
    rw [h]
  | accept i metadata => exact congrArg Flow.isLocal (Function.update_of_ne (Nat.ne_of_lt hf) _ _)
  | retry hretry =>
    obtain ⟨b, hb⟩ := (World.prepareWindowsRetry_eq_some hretry).2.1 f
    rw [hb]
  | flow g e h x eff hg hflow =>
    rw [World.perform_flows]
    rcases eq_or_ne f g with rfl | hfg
    · exact (congrArg Flow.isLocal (Function.update_self ..)).trans
        (flowStep_isLocal hflow (he e rfl))
    · exact congrArg Flow.isLocal (Function.update_of_ne hfg ..)

/-- What the proofs follow of the holders and flows. -/
structure Tracked (w : World) : Prop where
  counted : ∀ i, (w.standing i).Counted
  vpn : ∀ f, (w.flows f).pc.onVpn = true → (w.flows f).isLocal = false
  registered : ∀ f, (w.flows f).isLocal = true → f < w.flowCount

theorem tracked_start {holders : ℕ → Outbound} (hfresh : ∀ i, World.Fresh (holders i)) :
    Tracked (World.start holders) where
  counted := World.counted_start hfresh
  vpn _ _ := rfl
  registered _ h := by cases h

theorem Tracked.step (ht : Tracked w) (hs : World.machine.step w e = some (w', o)) : Tracked w' := by
  suffices hflow : ∀ g, ((w'.flows g).pc.onVpn = true → (w'.flows g).isLocal = false) ∧
      ((w'.flows g).isLocal = true → g < w'.flowCount) from
    ⟨fun i => World.counted_step hs (ht.counted i), fun g => (hflow g).1, fun g => (hflow g).2⟩
  intro g
  rcases World.moved_step hs with ⟨hflows, hcount, _, _⟩ | ⟨i, metadata, isLocal, hflows, hcount, _, _⟩ |
    ⟨f, e', h, x, eff, hf, hstep, rfl⟩
  · obtain ⟨c, a, b, hg⟩ := hflows g
    rw [hg, hcount]
    exact ⟨ht.vpn g, ht.registered g⟩
  · rw [hflows, hcount]
    rcases eq_or_ne g w.flowCount with rfl | hne
    · rw [Function.update_self]
      exact ⟨fun h => (by cases h), fun _ => Nat.lt_succ_self _⟩
    · rw [Function.update_of_ne hne]
      exact ⟨ht.vpn g, fun h => Nat.lt_succ_of_lt (ht.registered g h)⟩
  · rw [World.perform_flows, World.setFlow_flows, World.perform_flowCount]
    rcases eq_or_ne g f with rfl | hne
    · rw [Function.update_self]
      exact ⟨flowStep_onVpn hstep (ht.vpn g), fun _ => hf⟩
    · rw [Function.update_of_ne hne]
      exact ⟨ht.vpn g, ht.registered g⟩

theorem Tracked.setClosed (ht : Tracked w) (f : ℕ) :
    Tracked (w.setFlow f { w.flows f with closed := true }) := by
  have hflow : ∀ g, (Function.update w.flows f { w.flows f with closed := true } g).pc =
      (w.flows g).pc ∧ (Function.update w.flows f { w.flows f with closed := true } g).isLocal =
      (w.flows g).isLocal := by
    intro g
    rcases eq_or_ne g f with rfl | hne
    · rw [Function.update_self]
      exact ⟨rfl, rfl⟩
    · rw [Function.update_of_ne hne]
      exact ⟨rfl, rfl⟩
  refine ⟨ht.counted, fun g => ?_, fun g => ?_⟩
  · rw [World.setFlow_flows, (hflow g).1, (hflow g).2]
    exact ht.vpn g
  · rw [World.setFlow_flows, (hflow g).2]
    exact ht.registered g

end world

/-! ## Whole runs -/

namespace Runtime

variable {r r' : Runtime} {e : RuntimeEvent} {o : RuntimeOutput}

/-- Where a step of a call that renews nothing may take it. -/
def Call.Next (r : Runtime) (c : Call) : Prop :=
  c = r.call ∨ c = .idle ∨ (∃ newIDs todo, c = .closing newIDs todo) ∨
    ∃ slots ids, c = .matched slots ids ∧ r.world.matchHolders r.outbounds ids = some slots

/-- **What a step does**: something happens beside the call, the call moves on, renews, or closes a
local flow. -/
inductive Moves (r : Runtime) : RuntimeEvent → Runtime → RuntimeOutput → Prop
  | world (e : Event) (w : World) (o : Output) (may : r.mayStep e = true)
    (hw : World.machine.step r.world e = some (w, o)) :
    Moves r (.world e) { r with world := w } (.world o)
  | stop : Moves r .stop { r with started := false } .none
  | moved (e : RuntimeEvent) (c : Call) (o : RuntimeOutput) (he : e.ofCall = true)
    (hc : Call.Next r c) (ho : o ≠ .accepted) : Moves r e { r with call := c } o
  | renewed (e : RuntimeEvent) (slots : List (Option ℕ)) (ids newIDs : List String) (w : World)
    (he : e = .prepareWindowsRetry slots ids newIDs ∨
      e = .prepare newIDs ∧ r.call = .matched slots ids)
    (hw : r.world.prepareHolders slots ids newIDs = some w) :
    Moves r e { r with
      world := w
      call := .closing newIDs (slots.reduceOption.flatMap r.world.localFlows) } .accepted
  | closes (newIDs : List String) (f : ℕ) (todo : List ℕ) (hf : (r.world.flows f).isLocal = true) :
    Moves r .closeNext { r with
      world := r.world.setFlow f { r.world.flows f with closed := true }
      call := .joining newIDs f todo } .none

variable {newIDs : List String} {slots : List (Option ℕ)}

theorem prepare_moves {ids : List String} (he : e = .prepareWindowsRetry slots ids newIDs ∨
      e = .prepare newIDs ∧ r.call = .matched slots ids) (h : r.prepare slots ids newIDs = (r', o)) : Moves r e r' o := by
  unfold prepare at h
  split at h
  · obtain ⟨rfl, rfl⟩ := Prod.mk.inj h
    have hcall : e.ofCall = true := by
      rcases he with rfl | ⟨rfl, _⟩ <;> rfl
    exact .moved e .idle _ hcall (.inr (.inl rfl)) RuntimeOutput.noConfusion
  · rename_i w hw
    obtain ⟨rfl, rfl⟩ := Prod.mk.inj h
    exact .renewed e slots ids newIDs w he hw

theorem step_moves (h : machine.step r e = some (r', o)) : Moves r e r' o := by
  change r.step e = some (r', o) at h
  cases e with
  | world e =>
    obtain ⟨may, h⟩ := Option.ite_none_right_eq_some.mp h
    obtain ⟨⟨w, o'⟩, hw, h⟩ := Option.map_eq_some_iff.mp h
    obtain ⟨rfl, rfl⟩ := Prod.mk.inj h
    exact .world e w o' may hw
  | stop =>
    obtain ⟨_, h⟩ := Option.ite_none_right_eq_some.mp h
    obtain ⟨rfl, rfl⟩ := Prod.mk.inj (Option.some.inj h)
    exact .stop
  | prepareWindowsLocalDpiRetry csv =>
    obtain ⟨_, h⟩ := Option.ite_none_right_eq_some.mp h
    split at h
    · obtain ⟨rfl, rfl⟩ := Prod.mk.inj (Option.some.inj h)
      exact .moved _ r.call _ rfl (.inl rfl) RuntimeOutput.noConfusion
    split at h
    · split at h
      · obtain ⟨rfl, rfl⟩ := Prod.mk.inj (Option.some.inj h)
        exact .moved _ r.call _ rfl (.inl rfl) RuntimeOutput.noConfusion
      · rename_i slots hmatch
        obtain ⟨rfl, rfl⟩ := Prod.mk.inj (Option.some.inj h)
        exact .moved _ _ _ rfl (.inr (.inr (.inr ⟨slots, _, rfl, hmatch⟩))) RuntimeOutput.noConfusion
    · obtain ⟨rfl, rfl⟩ := Prod.mk.inj (Option.some.inj h)
      exact .moved _ r.call _ rfl (.inl rfl) RuntimeOutput.noConfusion
  | prepare newIDs =>
    dsimp only [step] at h
    split at h
    · rename_i slots ids hcall
      exact prepare_moves (.inr ⟨rfl, hcall⟩) (Option.some.inj h)
    · cases h
  | prepareWindowsRetry holders expectedIDs newIDs =>
    obtain ⟨_, h⟩ := Option.ite_none_right_eq_some.mp h
    exact prepare_moves (.inl rfl) (Option.some.inj h)
  | closeNext =>
    dsimp only [step] at h
    split at h
    · rename_i newIDs f todo _
      split at h
      · rename_i hlocal
        obtain ⟨rfl, rfl⟩ := Prod.mk.inj (Option.some.inj h)
        exact .closes newIDs f todo hlocal
      · obtain ⟨rfl, rfl⟩ := Prod.mk.inj (Option.some.inj h)
        exact .moved _ _ _ rfl (.inr (.inr (.inl ⟨_, _, rfl⟩))) RuntimeOutput.noConfusion
    · cases h
  | closeJoin =>
    dsimp only [step] at h
    split at h
    · obtain ⟨_, h⟩ := Option.ite_none_right_eq_some.mp h
      obtain ⟨rfl, rfl⟩ := Prod.mk.inj (Option.some.inj h)
      exact .moved _ _ _ rfl (.inr (.inr (.inl ⟨_, _, rfl⟩))) RuntimeOutput.noConfusion
    · cases h
  | closed =>
    dsimp only [step] at h
    split at h
    · obtain ⟨rfl, rfl⟩ := Prod.mk.inj (Option.some.inj h)
      exact .moved _ _ _ rfl (.inr (.inl rfl)) RuntimeOutput.noConfusion
    · cases h

/-- **The invariant of a call.** -/
structure Sound (r : Runtime) : Prop where
  tracked : Tracked r.world
  matched : ∀ {slots : List (Option ℕ)} {ids : List String}, r.call = .matched slots ids →
    slots.reduceOption.Perm r.windowsHolders
  joining : ∀ {newIDs : List String} {f : ℕ} {todo : List ℕ}, r.call = .joining newIDs f todo →
    (r.world.flows f).isLocal = true

/-- The section, as a retry of the holders. -/
theorem step_of_prepareHolders {w w' : World} {ids : List String}
    (h : w.prepareHolders slots ids newIDs = some w') :
    World.machine.step w (.retry slots.reduceOption ids newIDs) = some (w', .answer true) := by
  obtain ⟨_, h⟩ := Option.ite_none_left_eq_some.mp h
  simp only [World.machine, World.step, h]

/-- Holders stay Windows holders, and stay renewed. -/
theorem Moves.holders (h : Moves r e r' o) (i : ℕ) :
    (r'.world.holders i).windowsDirect = (r.world.holders i).windowsDirect ∧
      ((r.world.holders i).retryPrepared = true → (r'.world.holders i).retryPrepared = true) := by
  cases h with
  | world e w o may hw => exact ⟨windowsDirect_step hw i, retryPrepared_step hw⟩
  | renewed e slots ids newIDs w he hw =>
    have hstep := step_of_prepareHolders hw
    exact ⟨windowsDirect_step hstep i, retryPrepared_step hstep⟩
  | stop | moved | closes => exact ⟨rfl, id⟩

theorem windowsHolders_moves (h : Moves r e r' o) : r'.windowsHolders = r.windowsHolders := by
  have ho : r'.outbounds = r.outbounds := by
    cases h <;> rfl
  unfold windowsHolders
  rw [ho]
  simp only [(h.holders _).1]

theorem Sound.step (hr : Sound r) (h : machine.step r e = some (r', o)) : Sound r' := by
  have hmoves := step_moves h
  have hwin := windowsHolders_moves hmoves
  cases hmoves with
  | world e w o may hw =>
    refine ⟨hr.tracked.step hw, fun hm => hwin ▸ hr.matched hm, fun {newIDs f todo} hj => ?_⟩
    -- the call holds the mutex of the flow's holder, so the flow stays where it is
    have hlocal := hr.joining hj
    rw [isLocal_step hw (hr.tracked.registered f hlocal) fun e' he => ?_]
    · exact hlocal
    · subst he
      have hj' : r.call = .joining newIDs f todo := hj
      simp only [mayStep, hj', World.mutex, Bool.and_eq_true] at may
      cases hlocks : e'.locks with
      | false => rfl
      | true => simp [hlocks] at may
  | stop => exact ⟨hr.tracked, hr.matched, hr.joining⟩
  | moved e c o he hc ho =>
    refine ⟨hr.tracked, fun hm => hwin ▸ ?_, fun hj => ?_⟩
    · rcases hc with rfl | rfl | ⟨_, _, rfl⟩ | ⟨slots, ids, rfl, hmatch⟩
      · exact hr.matched hm
      · cases hm
      · cases hm
      · cases hm
        exact (matchHolders_spec hmatch).2.1
    · rcases hc with rfl | rfl | ⟨_, _, rfl⟩ | ⟨slots, ids, rfl, _⟩
      · exact hr.joining hj
      all_goals cases hj
  | renewed e slots ids newIDs w he hw =>
    exact ⟨hr.tracked.step (step_of_prepareHolders hw), fun hm => (by cases hm),
      fun hj => (by cases hj)⟩
  | closes newIDs f todo hf =>
    refine ⟨hr.tracked.setClosed f, fun hm => (by cases hm), fun hj => ?_⟩
    cases hj
    rw [World.setFlow_flows, Function.update_self]
    exact hf

theorem sound_of_reaches {outbounds : List ℕ} {nodup : outbounds.Nodup} {holders : ℕ → Outbound}
    (hfresh : ∀ i, World.Fresh (holders i))
    (h : machine.Reaches (start outbounds nodup holders) r) : Sound r :=
  h.invariant (P := Sound) (fun _ _ _ _ _ hs hr => hr.step hs)
    ⟨tracked_start hfresh, fun hm => (by cases hm), fun hj => (by cases hj)⟩

/-- **An accepted call**: it was given holders, each with its identity, and renewed them. -/
structure Accepted (r r' : Runtime) (holders : List ℕ) (ids newIDs : List String) : Prop where
  renewed : Renewed r.world r'.world holders ids newIDs
  nonempty : holders ≠ []
  windows : ∀ i ∈ holders, (r.world.holders i).windowsDirect = true ∧
    (r.world.holders i).retryPrepared = false
  mendable : ∃ i ∈ holders, (r.world.holders i).mendable = true

theorem accepted_of_step (hr : Sound r) (h : machine.step r e = some (r', .accepted)) :
    ∃ holders ids newIDs, (e = .prepareWindowsRetry (holders.map some) ids newIDs ∨
      e = .prepare newIDs ∧ r.call = .matched (holders.map some) ids) ∧
      Accepted r r' holders ids newIDs := by
  have hmoves := step_moves h
  generalize ho : RuntimeOutput.accepted = o at hmoves
  cases hmoves with
  | world | stop | closes => cases ho
  | moved e c o he hc hne => exact absurd ho.symm hne
  | renewed e slots ids newIDs w he hw =>
    obtain ⟨hsome, hw⟩ := Option.ite_none_left_eq_some.mp hw
    have hslots : slots.reduceOption.map some = slots := by
      refine map_some_reduceOption fun x hx => ?_
      have hx' := List.any_eq_false.mp (Bool.eq_false_iff.mpr hsome) x hx
      cases x with
      | none => exact absurd rfl hx'
      | some => rfl
    obtain ⟨hrenewed, hne, hall, hmend⟩ := prepareWindowsRetry_renewed hr.tracked.counted hw
    exact ⟨slots.reduceOption, ids, newIDs, hslots.symm ▸ he, hrenewed, hne, hall, hmend⟩

/-- An instance whose Windows holders have all been renewed. -/
def Spent (r : Runtime) : Prop :=
  ∀ i ∈ r.windowsHolders, (r.world.holders i).retryPrepared = true

theorem Spent.step (hs : Spent r) (h : machine.step r e = some (r', o)) : Spent r' := by
  intro i hi
  have hmoves := step_moves h
  rw [windowsHolders_moves hmoves] at hi
  exact (hmoves.holders i).2 (hs i hi)

/-- A call through the service is given all Windows holders. -/
theorem accepted_of_prepare (hr : Sound r)
    (h : machine.step r (.prepare newIDs) = some (r', .accepted)) :
    ∃ holders ids, r.call = .matched (holders.map some) ids ∧ holders.Perm r.windowsHolders ∧
      Accepted r r' holders ids newIDs := by
  obtain ⟨holders, ids, newIDs', he, haccepted⟩ := accepted_of_step hr h
  rcases he with he | ⟨he, hcall⟩
  · cases he
  · cases he
    have hperm := hr.matched hcall
    rw [List.reduceOption, List.filterMap_map, Function.id_comp, List.filterMap_some] at hperm
    exact ⟨holders, ids, hcall, hperm, haccepted⟩

/-- A call through the service that succeeds is the last one of its instance. -/
theorem spent_of_accepted (hr : Sound r)
    (h : machine.step r (.prepare newIDs) = some (r', .accepted)) : Spent r' := by
  obtain ⟨holders, ids, _, hperm, haccepted⟩ := accepted_of_prepare hr h
  have hrenewed := haccepted.renewed
  intro i hi
  rw [windowsHolders_moves (step_moves h), ← hperm.mem_iff] at hi
  obtain ⟨k, hk⟩ := List.getElem?_of_mem hi
  have hlt := (List.getElem?_eq_some_iff.mp hk).1
  have hold := List.getElem?_eq_getElem (hrenewed.length.1 ▸ hlt)
  have hnew := List.getElem?_eq_getElem (hrenewed.length.2.symm ▸ hlt)
  rw [(hrenewed.installed hk hold hnew).2.1]
  rfl

theorem not_accepted_of_spent (hr : Sound r) (hs : Spent r) :
    machine.step r (.prepare newIDs) ≠ some (r', .accepted) := by
  intro h
  obtain ⟨holders, ids, _, hperm, haccepted⟩ := accepted_of_prepare hr h
  obtain ⟨i, hi⟩ := List.exists_mem_of_ne_nil _ haccepted.nonempty
  cases (hs i (hperm.mem_iff.mp hi)).symm.trans (haccepted.windows i hi).2

/-- **A retry is atomic, happens once, and leaves the VPN alone.**  Whatever else goes on: a call
that is not accepted changes no holder, channel or flow, and an accepted one renews all its holders
under fresh identities with open channels; through the service these are all Windows holders of the
instance, one of which failed in a way a retry may mend, and no later call of the instance is
accepted; and no step of a call touches a flow on the VPN path, nor is the flow a call waits for on
it. -/
theorem windows_retry_once {outbounds : List ℕ} {nodup : outbounds.Nodup} {holders : ℕ → Outbound}
    (hfresh : ∀ i, World.Fresh (holders i))
    (hreach : machine.Reaches (start outbounds nodup holders) r) :
    (∀ e r' o, machine.step r e = some (r', o) → o = .rejected ∨ o = .unavailable →
      r'.world = r.world) ∧
    (∀ e r', machine.step r e = some (r', .accepted) →
      ∃ holders ids newIDs, (e = .prepareWindowsRetry (holders.map some) ids newIDs ∨
        e = .prepare newIDs ∧ r.call = .matched (holders.map some) ids) ∧
        Accepted r r' holders ids newIDs) ∧
    (∀ newIDs r', machine.step r (.prepare newIDs) = some (r', .accepted) →
      (∃ holders ids, r.call = .matched (holders.map some) ids ∧ holders.Perm r.windowsHolders ∧
        Accepted r r' holders ids newIDs) ∧
      ∀ later newIDs' last, machine.Reaches r' later →
        machine.step later (.prepare newIDs') ≠ some (last, .accepted)) ∧
    (∀ e r' o, machine.step r e = some (r', o) → e.ofCall = true →
      r'.world.socketClosed = r.world.socketClosed ∧
      ∀ f, (r.world.flows f).pc.onVpn = true → r'.world.flows f = r.world.flows f) ∧
    ∀ newIDs f todo, r.call = .joining newIDs f todo → (r.world.flows f).pc.onVpn = false := by
  have hr := sound_of_reaches hfresh hreach
  refine ⟨fun e r' o h ho => ?_, fun e r' h => accepted_of_step hr h,
    fun newIDs r' h => ⟨accepted_of_prepare hr h, fun later newIDs' last hlater => ?_⟩,
    fun e r' o h he => ?_, fun newIDs f todo hj => ?_⟩
  · have hmoves := step_moves h
    cases hmoves with
    | moved => rfl
    | world | stop | renewed | closes => rcases ho with ho | ho <;> cases ho
  · obtain ⟨hsound, hs⟩ := hlater.invariant (P := fun r => Sound r ∧ Spent r)
      (fun _ _ _ _ _ hstep h => ⟨h.1.step hstep, h.2.step hstep⟩)
      ⟨hr.step h, spent_of_accepted hr h⟩
    exact not_accepted_of_spent hsound hs
  · have hvpn := hr.tracked.vpn
    have hmoves := step_moves h
    cases hmoves with
    | world | stop => cases he
    | moved => exact ⟨rfl, fun _ _ => rfl⟩
    | renewed e slots ids newIDs w he hw =>
      obtain ⟨_, hw⟩ := Option.ite_none_left_eq_some.mp hw
      have hrenewed := (prepareWindowsRetry_renewed hr.tracked.counted hw).1
      exact ⟨hrenewed.sockets, fun f hf => hrenewed.flows f (hvpn f hf)⟩
    | closes newIDs f todo hf =>
      refine ⟨rfl, fun g hg => Function.update_of_ne ?_ _ _⟩
      rintro rfl
      cases hf.symm.trans (hvpn g hg)
  · refine Bool.eq_false_iff.mpr fun hvpn => ?_
    cases (hr.joining hj).symm.trans (hr.tracked.vpn f hvpn)

/-! ## A run -/

/-- Two Windows holders of a runtime. -/
def windowsOptions : OutboundOptions :=
  { World.sampleOptions with windowsDirect := true, bindInterface := "eth0", server := "", serverPort := 0 }

/-- An identity of one character. -/
def sampleID (c : Char) : String := String.ofList (List.replicate 32 c)

/-- Both are published; one serves a connection over the VPN and then fails. -/
def sampleFailure : List RuntimeEvent :=
  [.world (.admitAdmission 0 (sampleID 'a')), .world (.admitAdmission 1 (sampleID 'b')),
    .world (.accept 0 { World.sampleMetadata with port := 80 }), .world (.flow 0 .check),
    .world (.flow 0 .vpnEnter), .world (.fail 0 (sampleID 'a') .earlyRead),
    .prepareWindowsLocalDpiRetry (sampleID 'b' ++ "," ++ sampleID 'a')]

theorem windows_retry_once_sample :
    ∃ h₀ h₁ r r' holders ids, World.Fresh h₀ ∧ World.Fresh h₁ ∧
      machine.Reaches (start [0, 1] (by decide) fun i => if i = 0 then h₀ else h₁) r ∧
      machine.step r (.prepare [sampleID 'c', sampleID 'd']) = some (r', .accepted) ∧
      (r.world.flows 0).pc.onVpn = true ∧ r'.world.flows 0 = r.world.flows 0 ∧
      holders.Perm r.windowsHolders ∧
      Accepted r r' holders ids [sampleID 'c', sampleID 'd'] := by
  have hrun : ((newOutbound "a" windowsOptions true (· == "") true true (sampleID 'a')).bind fun h₀ =>
      (newOutbound "b" windowsOptions true (· == "") true true (sampleID 'b')).bind fun h₁ =>
      (machine.run (start [0, 1] (by decide) fun i => if i = 0 then h₀ else h₁) sampleFailure).bind
        fun r => (machine.step r (.prepare [sampleID 'c', sampleID 'd'])).map fun p =>
          (p.2, (r.world.flows 0).pc.onVpn)) = some (.accepted, true) := by decide +kernel
  obtain ⟨h₀, hnew₀, hrun⟩ := Option.bind_eq_some_iff.mp hrun
  obtain ⟨h₁, hnew₁, hrun⟩ := Option.bind_eq_some_iff.mp hrun
  obtain ⟨r, hr, hrun⟩ := Option.bind_eq_some_iff.mp hrun
  obtain ⟨⟨r', o⟩, hstep, hrun⟩ := Option.map_eq_some_iff.mp hrun
  obtain ⟨rfl, hvpn⟩ := Prod.mk.inj hrun
  have hfresh₀ : World.Fresh h₀ := ⟨_, _, _, _, _, _, _, hnew₀⟩
  have hfresh₁ : World.Fresh h₁ := ⟨_, _, _, _, _, _, _, hnew₁⟩
  have hfresh : ∀ i, World.Fresh (if i = 0 then h₀ else h₁) := by
    intro i
    split
    · exact hfresh₀
    · exact hfresh₁
  have hreach := Machine.reaches_run hr
  obtain ⟨-, -, hservice, hcalls, -⟩ := windows_retry_once hfresh hreach
  obtain ⟨⟨holders, ids, _, hperm, haccepted⟩, -⟩ := hservice _ r' hstep
  exact ⟨h₀, h₁, r, r', holders, ids, hfresh₀, hfresh₁, hreach, hstep, hvpn,
    (hcalls _ r' _ hstep rfl).2 0 hvpn, hperm, haccepted⟩

end Runtime

end PokrovCore.LocalDpi
