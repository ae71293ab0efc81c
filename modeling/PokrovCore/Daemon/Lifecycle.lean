import PokrovCore.Daemon.Service
import PokrovCore.Foundations.Heap

/-!
# Daemon/Lifecycle — when a started service has started

A start or reload holds `serviceAccess` three times: before it closes the old instance, while it
builds the new one, and after the new one's `Start` has returned.  In between other calls take their
own sections.  The last section looks at the status alone, so it may take the instance of another
call for its own.

* `Coherent` — a started service has an instance that was not closed and whose own `Start` returned
  without an error.
* `Stale` — a call reaches its last section and finds the service starting the instance of another
  call.
* `Alone` — no call installs an instance before every other one has heard how its own started.
* `reload_overtaken` — two overlapping calls leave a started service whose instance failed to start.
* `coherent_unless_stale` — without a stale section every started service is coherent, and calls that
  install alone have none; what holds with or without one is that the instance is there and open.
* `only_current_instance_live` — with or without one, every instance but the current one is closed.
-/

namespace PokrovCore.Daemon.Lifecycle

/-! ## The runs -/

/-- The service, and what `Start` of an instance has returned. -/
structure Startup where
  service : Service
  outcome : ℕ → Option Bool

/-- One critical section of a call, or one of the two things a reload does outside the lock. -/
inductive Event
  | reload (profile : Profile) (built : Bool) (clock : ℕ → Sample)
  | oldClosed (c : ℕ)
  | reloadBuild (c : ℕ) (built : Bool) (clock : ℕ → Sample)
  | startReturned (c : ℕ) (ok : Bool)
  | reloadStarted (c : ℕ)
  | closeService (failure : Option String)
  | close
  | setError

/-- The service after an event that runs no `Start`. -/
def sectionStep (s : Service) : Event → Option Service
  | .reload profile built clock => some (s.reload profile built clock).1
  | .oldClosed c =>
    match s.reloads[c]? with
    | some (.closing old profile) => some (s.reloadClose c old profile)
    | _ => none
  | .reloadBuild c built clock =>
    match s.reloads[c]? with
    | some (.building profile) => some (s.reloadBuild c profile built clock)
    | _ => none
  | .closeService failure => some (s.closeService failure).1
  | .close => some s.close
  | .setError => some s.setError
  | .startReturned .. | .reloadStarted _ => none

/-- **One event.**  `Start` returns once, and its call goes on with what it returned. -/
def step (w : Startup) : Event → Option (Startup × Unit)
  | .startReturned c ok =>
    match w.service.reloads[c]? with
    | some (.starting new) =>
      if w.outcome new = none then
        some ({ w with outcome := Function.update w.outcome new (some ok) }, ())
      else none
    | _ => none
  | .reloadStarted c =>
    match w.service.reloads[c]? with
    | some (.starting new) =>
      (w.outcome new).map fun ok => ({ w with service := w.service.reloadStarted c ok }, ())
    | _ => none
  | e => (sectionStep w.service e).map fun s => ({ w with service := s }, ())

/-- The machine of the calls. -/
def machine : Machine Startup Event Unit where
  step := step

/-- No call yet. -/
def init (disk : Path → Option (List Char)) : Startup := ⟨Service.init disk, fun _ => none⟩

/-! ## Coherence -/

/-- The current instance of a service is there and was not closed. -/
def Open (s : Service) : Prop :=
  ∃ i inst, s.current = some i ∧ s.instances[i]? = some inst ∧ inst.cancelled = false

/-- **A started service has started.** -/
def Coherent (w : Startup) : Prop :=
  w.service.status = .started → ∃ i inst, w.service.current = some i ∧
    w.service.instances[i]? = some inst ∧ inst.cancelled = false ∧ w.outcome i = some true

/-- A call that reaches its last section while the service starts an instance of another call. -/
def Stale (w : Startup) (e : Event) : Prop :=
  ∃ c new, e = .reloadStarted c ∧ w.service.reloads[c]? = some (.starting new) ∧
    w.service.closed = false ∧ w.service.status = .starting ∧ w.service.current ≠ some new

/-- A section that installs an instance does so while no other call waits for its own to start. -/
def Alone (w : Startup) (e : Event) : Prop :=
  ((∃ profile built clock, e = .reload profile built clock) ∧ w.service.current = none ∨
    ∃ c built clock, e = .reloadBuild c built clock) →
  ∀ (c new : ℕ), w.service.reloads[c]? ≠ some (.starting new)

/-- Is a call between its first section and the one that builds? -/
def replacing : ReloadPc → Bool
  | .closing .. | .building _ => true
  | .starting _ | .returned => false

/-- **What holds in every run**: a service that is starting or started is not closed and has an open
instance; while a call replaces the instance it is neither, and no other call does. -/
structure Orderly (s : Service) : Prop where
  up : s.status = .starting ∨ s.status = .started → s.closed = false ∧ Open s
  down : s.closed = false → ∀ (c : ℕ) (pc : ReloadPc), s.reloads[c]? = some pc →
    replacing pc = true → s.status = .stopping ∨ s.status = .fatal
  one : s.closed = false → ∀ (c c' : ℕ) (pc pc' : ReloadPc), s.reloads[c]? = some pc →
    s.reloads[c']? = some pc' → replacing pc = true → replacing pc' = true → c = c'

section

variable {s s' : Service} {e : Event} {profile : Profile} {built : Bool} {clock : ℕ → Sample}

theorem orderly_init (disk : Path → Option (List Char)) : Orderly (Service.init disk) where
  up h := by rcases h with h | h <;> cases h
  down _ _ _ h := by cases h
  one _ _ _ _ _ h := by cases h

/-- No call replaces the instance. -/
theorem orderly_of_settled
    (hup : s.status = .starting ∨ s.status = .started → s.closed = false ∧ Open s)
    (hnone : ∀ (c : ℕ) (pc : ReloadPc), s.reloads[c]? = some pc → replacing pc = false) :
    Orderly s where
  up := hup
  down _ c pc hc hpc := by rw [hnone c pc hc] at hpc; cases hpc
  one _ c _ pc _ hc _ hpc := by rw [hnone c pc hc] at hpc; cases hpc

theorem orderly_of_closed (hclosed : s.closed = true)
    (hdown : ¬ (s.status = .starting ∨ s.status = .started)) : Orderly s where
  up h := absurd h hdown
  down h := by rw [hclosed] at h; cases h
  one h := by rw [hclosed] at h; cases h

/-- The service goes down, and no further call replaces the instance. -/
theorem Orderly.stops (h : Orderly s) {t : Service} (hclosed : t.closed = s.closed)
    (hreloads : ∀ (c : ℕ) (pc : ReloadPc), t.reloads[c]? = some pc → replacing pc = true →
      ∃ pc', s.reloads[c]? = some pc' ∧ replacing pc' = true)
    (hstatus : t.status = .stopping ∨ t.status = .fatal) : Orderly t where
  up hup := by rcases hstatus with hs | hs <;> rw [hs] at hup <;> rcases hup with h | h <;> cases h
  down _ _ _ _ _ := hstatus
  one hc c c' pc pc' hpc hpc' hr hr' := by
    obtain ⟨q, hq, hqr⟩ := hreloads c pc hpc hr
    obtain ⟨q', hq', hqr'⟩ := hreloads c' pc' hpc' hr'
    exact h.one (hclosed ▸ hc) c c' q q' hq hq' hqr hqr'

theorem Orderly.settled (h : Orderly s) (hclosed : s.closed = false)
    (hstatus : ¬ (s.status = .stopping ∨ s.status = .fatal)) (c : ℕ) (pc : ReloadPc)
    (hc : s.reloads[c]? = some pc) : replacing pc = false := by
  by_contra hpc
  exact hstatus (h.down hclosed c pc hc (by simpa using hpc))

/-- A started or starting service was not going down. -/
theorem not_down_of_up (h : s.status = .starting ∨ s.status = .started) :
    ¬ (s.status = .stopping ∨ s.status = .fatal) := by
  rcases h with h | h <;> simp [h]

/-! ## The sections -/

/-- What building leaves: a failed service, or one that starts a fresh instance. -/
theorem build_cases :
    s.build profile built clock = ({ s with status := .fatal }, .returned) ∨
      ∃ inst : Instance, inst.cancelled = false ∧ s.build profile built clock =
        ({ s with status := .starting, instances := s.instances ++ [inst],
                  current := some s.instances.length }, .starting s.instances.length) := by
  unfold Service.build
  split
  · exact .inl rfl
  · rename_i leases _
    exact .inr ⟨Service.newInstance profile leases, rfl, rfl⟩

/-- Building makes an orderly service of one in which no other call replaces the instance. -/
theorem orderly_build (hclosed : s.closed = false) (f : ReloadPc → List ReloadPc)
    (hnone : ∀ (c : ℕ) (pc new : ReloadPc), (f new)[c]? = some pc → pc = new ∨ replacing pc = false) :
    Orderly { (s.build profile built clock).1 with
      reloads := f (s.build profile built clock).2 } := by
  rcases build_cases with h | ⟨inst, hinst, h⟩
  · rw [h]
    refine orderly_of_settled (fun hup => ?_) fun c pc hc => ?_
    · rcases hup with h | h <;> cases h
    · rcases hnone c pc _ hc with rfl | hpc
      · rfl
      · exact hpc
  · rw [h]
    refine orderly_of_settled (fun _ => ⟨hclosed, s.instances.length, inst, rfl, ?_, hinst⟩)
      fun c pc hc => ?_
    · exact Heap.getElem?_concat.mpr (.inr ⟨rfl, rfl⟩)
    · rcases hnone c pc _ hc with rfl | hpc
      · rfl
      · exact hpc

theorem orderly_reload (h : Orderly s) : Orderly (s.reload profile built clock).1 := by
  unfold Service.reload
  split_ifs with hclosed hstatus
  · exact h
  · exact h
  have hopen : s.closed = false := by simpa using hclosed
  have hnone := h.settled hopen hstatus
  split
  · rename_i i _
    refine ⟨fun hup => ?_, fun _ _ _ _ _ => .inl rfl, fun _ c c' pc pc' hc hc' hpc hpc' => ?_⟩
    · rcases hup with h | h <;> cases h
    · -- only the new call replaces the instance
      have hlast : ∀ (c : ℕ) (pc : ReloadPc), (s.reloads ++ [.closing i profile])[c]? = some pc →
          replacing pc = true → c = s.reloads.length := by
        intro c pc hc hpc
        rcases Heap.getElem?_concat.mp hc with hc | ⟨hc, _⟩
        · rw [hnone c pc hc] at hpc
          cases hpc
        · exact hc
      rw [hlast c pc hc hpc, hlast c' pc' hc' hpc']
  · refine orderly_build hopen (fun pc => s.reloads ++ [pc]) fun c pc new hc => ?_
    rcases Heap.getElem?_concat.mp hc with hc | ⟨_, rfl⟩
    · exact .inr (hnone c pc hc)
    · exact .inl rfl

/-- Where the calls stand after one has moved. -/
theorem getElem?_moved {l : List ReloadPc} {c c' : ℕ} {new pc : ReloadPc}
    (h : (l.set c new)[c']? = some pc) : c' = c ∧ pc = new ∨ c' ≠ c ∧ l[c']? = some pc := by
  rw [List.getElem?_set] at h
  split_ifs at h with hc hlt
  · exact .inl ⟨hc.symm, (Option.some.inj h).symm⟩
  · exact .inr ⟨fun he => hc he.symm, h⟩

theorem Orderly.down_of_closed (h : Orderly s) (hclosed : s.closed = true) :
    ¬ (s.status = .starting ∨ s.status = .started) := fun hup => by
  have hopen := (h.up hup).1
  rw [hclosed] at hopen
  cases hopen

theorem orderly_reloadClose (h : Orderly s) {c old : ℕ}
    (hc : s.reloads[c]? = some (.closing old profile)) : Orderly (s.reloadClose c old profile) := by
  by_cases hclosed : s.closed = true
  · exact orderly_of_closed hclosed (h.down_of_closed hclosed)
  · refine h.stops rfl (fun c' pc hc' hpc => ?_) (h.down (by simpa using hclosed) c _ hc rfl)
    rcases getElem?_moved hc' with ⟨rfl, _⟩ | ⟨_, hc'⟩
    · exact ⟨_, hc, rfl⟩
    · exact ⟨pc, hc', hpc⟩

theorem orderly_reloadBuild (h : Orderly s) {c : ℕ} (hc : s.reloads[c]? = some (.building profile)) :
    Orderly (s.reloadBuild c profile built clock) := by
  unfold Service.reloadBuild
  split_ifs with hclosed
  · exact orderly_of_closed hclosed (h.down_of_closed hclosed)
  · have hopen : s.closed = false := by simpa using hclosed
    refine orderly_build hopen (fun pc => s.reloads.set c pc) fun c' pc new hc' => ?_
    rcases getElem?_moved hc' with ⟨_, rfl⟩ | ⟨hne, hc'⟩
    · exact .inl rfl
    · refine .inr (by_contra fun hpc => hne ?_)
      exact h.one hopen c' c pc _ hc' hc (by simpa using hpc) rfl

/-- The last section of a call moves the status of a starting service only. -/
theorem reloadStarted_cases (s : Service) (c : ℕ) (ok : Bool) :
    (s.closed = true ∨ s.status ≠ .starting) ∧
        s.reloadStarted c ok = { s with reloads := s.reloads.set c .returned } ∨
      (s.closed = false ∧ s.status = .starting) ∧ s.reloadStarted c ok =
        { s with reloads := s.reloads.set c .returned, status := if ok then .started else .fatal } := by
  unfold Service.reloadStarted
  dsimp only
  split_ifs with h
  all_goals simp_all

theorem orderly_reloadStarted (h : Orderly s) (c : ℕ) (ok : Bool) :
    Orderly (s.reloadStarted c ok) := by
  have hmoved : ∀ (c' : ℕ) (pc : ReloadPc), (s.reloads.set c .returned)[c']? = some pc →
      replacing pc = true → s.reloads[c']? = some pc := by
    intro c' pc hc' hpc
    rcases getElem?_moved hc' with ⟨_, rfl⟩ | ⟨_, hc'⟩
    · cases hpc
    · exact hc'
  rcases reloadStarted_cases s c ok with ⟨_, heq⟩ | ⟨⟨hopen, hstarting⟩, heq⟩
  · rw [heq]
    exact ⟨h.up, fun hopen c' pc hc' hpc => h.down hopen c' pc (hmoved c' pc hc' hpc) hpc,
      fun hopen c₁ c₂ pc₁ pc₂ h₁ h₂ hp₁ hp₂ =>
        h.one hopen c₁ c₂ pc₁ pc₂ (hmoved c₁ pc₁ h₁ hp₁) (hmoved c₂ pc₂ h₂ hp₂) hp₁ hp₂⟩
  · rw [heq]
    have hup := h.up (.inl hstarting)
    refine orderly_of_settled (fun _ => hup) fun c' pc hc' => by_contra fun hpc => ?_
    have hnone := h.settled hopen (not_down_of_up (.inl hstarting)) c' pc
      (hmoved c' pc hc' (by simpa using hpc))
    exact hpc hnone

theorem orderly_closeService (h : Orderly s) (failure : Option String) :
    Orderly (s.closeService failure).1 := by
  unfold Service.closeService
  split_ifs with hup
  · obtain ⟨hopen, i, inst, hcur, _⟩ := h.up hup
    have hnone := h.settled hopen (not_down_of_up hup)
    rw [hcur]
    cases failure with
    | none => exact orderly_of_settled (fun hup => by rcases hup with h | h <;> cases h) hnone
    | some message =>
      exact orderly_of_settled (fun hup => by rcases hup with h | h <;> cases h) hnone
  · exact h

theorem orderly_close (h : Orderly s) : Orderly s.close := by
  unfold Service.close
  split_ifs
  · exact h
  · exact orderly_of_closed rfl fun hup => by rcases hup with h | h <;> cases h

theorem orderly_setError (h : Orderly s) : Orderly s.setError :=
  h.stops rfl (fun _ pc hc hpc => ⟨pc, hc, hpc⟩) (.inr rfl)

theorem build_not_started : (s.build profile built clock).1.status ≠ .started := by
  rcases build_cases with h | ⟨inst, _, h⟩ <;> rw [h] <;> nofun

/-- **A section**, with what its call has found. -/
inductive Section (s : Service) : Event → Service → Prop
  | reload (profile : Profile) (built : Bool) (clock : ℕ → Sample) :
    Section s (.reload profile built clock) (s.reload profile built clock).1
  | oldClosed {c old : ℕ} {profile : Profile} (hc : s.reloads[c]? = some (.closing old profile)) :
    Section s (.oldClosed c) (s.reloadClose c old profile)
  | reloadBuild {c : ℕ} {profile : Profile} (hc : s.reloads[c]? = some (.building profile))
    (built : Bool) (clock : ℕ → Sample) :
    Section s (.reloadBuild c built clock) (s.reloadBuild c profile built clock)
  | closeService (failure : Option String) :
    Section s (.closeService failure) (s.closeService failure).1
  | close : Section s .close s.close
  | setError : Section s .setError s.setError

theorem section_of_step (h : sectionStep s e = some s') : Section s e s' := by
  cases e with
  | startReturned | reloadStarted => cases h
  | oldClosed | reloadBuild =>
    dsimp only [sectionStep] at h
    split at h <;> cases h
    constructor
    assumption
  | _ =>
    cases h
    constructor

/-- **Only the last section of a call makes a service started**: any other leaves a started service
as it is, or not started. -/
theorem started_of_section (h : Orderly s) (hstep : Section s e s') (hs' : s'.status = .started) :
    s' = s := by
  cases hstep with
  | reload =>
    unfold Service.reload at hs' ⊢
    split_ifs at hs' ⊢ with hclosed hstatus
    · rfl
    · rfl
    split at hs'
    · cases hs'
    · exact absurd hs' build_not_started
  | @oldClosed c _ _ hc =>
    have hup : s.status = .starting ∨ s.status = .started := Or.inr hs'
    exact absurd (h.down (h.up hup).1 c _ hc rfl) (not_down_of_up hup)
  | reloadBuild hc =>
    unfold Service.reloadBuild at hs'
    split_ifs at hs' with hclosed
    · exact absurd (.inr hs') (h.down_of_closed hclosed)
    · exact absurd hs' build_not_started
  | closeService failure =>
    unfold Service.closeService at hs' ⊢
    split_ifs at hs' ⊢ with hup
    · obtain ⟨_, i, inst, hcur, _⟩ := h.up hup
      rw [hcur] at hs'
      cases failure <;> cases hs'
    · rfl
  | close =>
    unfold Service.close at hs' ⊢
    split_ifs at hs' ⊢
    rfl
  | setError => cases hs'

theorem section_orderly (h : Orderly s) (hstep : Section s e s') : Orderly s' := by
  cases hstep with
  | reload => exact orderly_reload h
  | oldClosed hc => exact orderly_reloadClose h hc
  | reloadBuild hc => exact orderly_reloadBuild h hc
  | closeService failure => exact orderly_closeService h failure
  | close => exact orderly_close h
  | setError => exact orderly_setError h

end

/-! ## Steps and runs -/

variable {w w' : Startup} {e : Event} {u : Unit}

/-- **What an event does**: a section that ends no start, a `Start` that returns, or a call that
hears of it. -/
theorem step_cases (h : step w e = some (w', u)) :
    (∃ s, Section w.service e s ∧ w' = { w with service := s }) ∨
      (∃ c new ok, e = .startReturned c ok ∧ w.service.reloads[c]? = some (.starting new) ∧
        w.outcome new = none ∧
        w' = { w with outcome := Function.update w.outcome new (some ok) }) ∨
      ∃ c new ok, e = .reloadStarted c ∧ w.service.reloads[c]? = some (.starting new) ∧
        w.outcome new = some ok ∧ w' = { w with service := w.service.reloadStarted c ok } := by
  cases e with
  | startReturned c ok =>
    dsimp only [step] at h
    split at h
    · rename_i new hc
      obtain ⟨hnone, h⟩ := Option.ite_none_right_eq_some.mp h
      exact .inr (.inl ⟨c, new, ok, rfl, hc, hnone,
        (Prod.mk.inj (Option.some.inj h)).1.symm⟩)
    · cases h
  | reloadStarted c =>
    dsimp only [step] at h
    split at h
    · rename_i new hc
      obtain ⟨ok, hok, h⟩ := Option.map_eq_some_iff.mp h
      exact .inr (.inr ⟨c, new, ok, rfl, hc, hok, (Prod.mk.inj h).1.symm⟩)
    · cases h
  | _ =>
    rw [step] at h
    · obtain ⟨s, hs, h⟩ := Option.map_eq_some_iff.mp h
      exact .inl ⟨s, section_of_step hs, (Prod.mk.inj h).1.symm⟩
    all_goals nofun

theorem step_orderly (h : Orderly w.service) (hstep : step w e = some (w', u)) :
    Orderly w'.service := by
  rcases step_cases hstep with ⟨s, hs, rfl⟩ | ⟨c, new, ok, _, _, _, rfl⟩ | ⟨c, new, ok, _, _, _, rfl⟩
  · exact section_orderly h hs
  · exact h
  · exact orderly_reloadStarted h c ok

variable {disk : Path → Option (List Char)}

theorem orderly_of_reaches (h : machine.Reaches (init disk) w) :
    Orderly w.service :=
  h.invariant (P := fun w => Orderly w.service) (fun _ _ _ _ _ hs ha => step_orderly ha hs)
    (orderly_init disk)

/-- A call that is not overtaken keeps the service coherent. -/
theorem step_coherent (ho : Orderly w.service) (h : Coherent w) (hfresh : ¬ Stale w e)
    (hstep : step w e = some (w', u)) : Coherent w' := by
  intro hs'
  rcases step_cases hstep with ⟨s, hs, rfl⟩ | ⟨c, new, ok, _, _, hnone, rfl⟩ |
    ⟨c, new, ok, rfl, hc, hok, rfl⟩
  · obtain rfl := started_of_section ho hs hs'
    exact h hs'
  · obtain ⟨i, inst, hcur, hinst, hopen, hout⟩ := h hs'
    have hne : i ≠ new := by
      rintro rfl
      rw [hnone] at hout
      cases hout
    exact ⟨i, inst, hcur, hinst, hopen, (Function.update_of_ne hne ..).trans hout⟩
  · rcases reloadStarted_cases w.service c ok with ⟨_, heq⟩ | ⟨⟨hopen, hstarting⟩, heq⟩
    · rw [heq] at hs' ⊢
      exact h hs'
    · rw [heq] at hs' ⊢
      have hown : w.service.current = some new := by
        by_contra hne
        exact hfresh ⟨c, new, rfl, hc, hopen, hstarting, hne⟩
      obtain ⟨i, inst, hcur, hinst, hcancel⟩ := (ho.up (.inl hstarting)).2
      obtain rfl := Option.some.inj (hcur.symm.trans hown)
      cases ok with
      | true => exact ⟨i, inst, hcur, hinst, hcancel, hok⟩
      | false => cases hs'

/-- The last section of a call changes the status exactly when the service is open and starting. -/
theorem status_changes {c : ℕ}
    (hstep : step w (.reloadStarted c) = some (w', u)) :
    w'.service.status ≠ w.service.status ↔
      w.service.closed = false ∧ w.service.status = .starting := by
  rcases step_cases hstep with ⟨s, hs, _⟩ | ⟨_, _, _, he, _⟩ | ⟨c', new', ok, he, hc', hok, rfl⟩
  · cases hs
  · cases he
  · obtain rfl := Event.reloadStarted.inj he
    rcases reloadStarted_cases w.service c ok with ⟨hno, heq⟩ | ⟨hyes, heq⟩
    · rw [heq]
      refine ⟨fun h => absurd rfl h, fun ⟨hopen, hstarting⟩ => ?_⟩
      rcases hno with hclosed | hstatus
      · rw [hclosed] at hopen
        cases hopen
      · exact absurd hstarting hstatus
    · rw [heq]
      refine ⟨fun _ => hyes, fun _ => ?_⟩
      rw [hyes.2]
      cases ok <;> nofun

/-! ## Calls that install alone -/

/-- At most one call waits for its instance to start, and a starting service is starting that one. -/
structure Solo (s : Service) : Prop where
  one : ∀ {c c' new new' : ℕ}, s.reloads[c]? = some (.starting new) →
    s.reloads[c']? = some (.starting new') → c = c'
  own : ∀ {c new : ℕ}, s.reloads[c]? = some (.starting new) → s.status = .starting →
    s.current = some new

variable {s : Service} {profile : Profile} {built : Bool} {clock : ℕ → Sample}

/-- No further call waits, and the service is not starting unless it was. -/
theorem Solo.advance {t : Service} (h : Solo s)
    (hreloads : ∀ {c new : ℕ}, t.reloads[c]? = some (.starting new) →
      s.reloads[c]? = some (.starting new))
    (hstatus : t.status = .starting → s.status = .starting ∧ t.current = s.current) : Solo t where
  one hc hc' := h.one (hreloads hc) (hreloads hc')
  own hc hstarting := by
    obtain ⟨hs, hcur⟩ := hstatus hstarting
    rw [hcur]
    exact h.own (hreloads hc) hs

/-- An instance is installed by a call that waits for it alone. -/
theorem solo_build (f : ReloadPc → List ReloadPc) (k : ℕ)
    (hnone : ∀ {c new : ℕ} {pc : ReloadPc}, (f pc)[c]? = some (.starting new) →
      c = k ∧ pc = .starting new) :
    Solo { (s.build profile built clock).1 with
      reloads := f (s.build profile built clock).2 } where
  one hc hc' := (hnone hc).1.trans (hnone hc').1.symm
  own {c new} hc hstarting := by
    obtain ⟨_, hpc⟩ := hnone hc
    dsimp only at hpc hstarting ⊢
    rcases build_cases with h | ⟨inst, _, h⟩
    · rw [h] at hpc
      cases hpc
    · rw [h] at hpc ⊢
      exact congrArg some (ReloadPc.starting.inj hpc)

theorem solo_reload (h : Solo s)
    (halone : s.current = none → ∀ (c new : ℕ), s.reloads[c]? ≠ some (.starting new)) :
    Solo (s.reload profile built clock).1 := by
  unfold Service.reload
  split_ifs
  · exact h
  · exact h
  split
  · refine h.advance (fun {c new} hc => ?_) nofun
    rcases Heap.getElem?_concat.mp hc with hc | ⟨_, hpc⟩
    · exact hc
    · cases hpc
  · rename_i hcur
    refine solo_build (fun pc => s.reloads ++ [pc]) s.reloads.length fun {c new pc} hc => ?_
    rcases Heap.getElem?_concat.mp hc with hc | ⟨hc, hpc⟩
    · exact absurd hc (halone hcur c new)
    · exact ⟨hc, hpc.symm⟩

theorem solo_reloadBuild (h : Solo s) (c : ℕ)
    (halone : ∀ (c new : ℕ), s.reloads[c]? ≠ some (.starting new)) :
    Solo (s.reloadBuild c profile built clock) := by
  unfold Service.reloadBuild
  split_ifs with hclosed
  · refine h.advance (fun {c' new} hc => ?_) fun hs => ⟨hs, rfl⟩
    rcases getElem?_moved hc with ⟨_, hpc⟩ | ⟨_, hc⟩
    · cases hpc
    · exact hc
  · refine solo_build (fun pc => s.reloads.set c pc) c fun {c' new pc} hc => ?_
    rcases getElem?_moved hc with ⟨hc, hpc⟩ | ⟨_, hc⟩
    · exact ⟨hc, hpc.symm⟩
    · exact absurd hc (halone c' new)

theorem step_solo (h : Solo w.service) (halone : Alone w e) (hstep : step w e = some (w', u)) :
    Solo w'.service := by
  rcases step_cases hstep with ⟨s, hs, rfl⟩ | ⟨c, new, ok, _, _, _, rfl⟩ | ⟨c, new, ok, _, _, _, rfl⟩
  · cases hs with
    | reload profile built clock =>
      exact solo_reload h fun hcur => halone (.inl ⟨⟨profile, built, clock, rfl⟩, hcur⟩)
    | oldClosed =>
      refine h.advance (fun {c' new} hc => ?_) fun hs => ⟨hs, rfl⟩
      rcases getElem?_moved hc with ⟨_, hpc⟩ | ⟨_, hc⟩
      · cases hpc
      · exact hc
    | @reloadBuild c _ _ built clock =>
      exact solo_reloadBuild h c (halone (.inr ⟨c, built, clock, rfl⟩))
    | closeService failure =>
      unfold Service.closeService
      split_ifs
      · split
        · exact h.advance id nofun
        · cases failure <;> exact h.advance id nofun
      · exact h
    | close =>
      unfold Service.close
      split_ifs
      · exact h
      · refine h.advance (fun {c new} hc => ?_) nofun
        dsimp only at hc
        cases hcur : w.service.current <;> rw [hcur] at hc <;> exact hc
    | setError => exact h.advance id nofun
  · exact h
  · refine h.advance (fun {c' new'} hc => ?_) fun hs => ?_
    · have hreloads : (w.service.reloadStarted c ok).reloads = w.service.reloads.set c .returned := by
        rcases reloadStarted_cases w.service c ok with ⟨_, heq⟩ | ⟨_, heq⟩ <;> rw [heq]
      dsimp only at hc
      rw [hreloads] at hc
      rcases getElem?_moved hc with ⟨_, hpc⟩ | ⟨_, hc⟩
      · cases hpc
      · exact hc
    · rcases reloadStarted_cases w.service c ok with ⟨_, heq⟩ | ⟨_, heq⟩
      · dsimp only at hs ⊢
        rw [heq] at hs ⊢
        exact ⟨hs, rfl⟩
      · dsimp only at hs
        rw [heq] at hs
        cases ok <;> cases hs

/-- Calls that install alone have no stale last section. -/
theorem not_stale_of_alone (h : machine.ReachesIf Alone (init disk) w) (e : Event) :
    ¬ Stale w e := by
  have hsolo : Solo w.service := h.invariant (P := fun w => Solo w.service)
    (fun _ _ _ _ halone hs ha => step_solo ha halone hs) ⟨nofun, nofun⟩
  rintro ⟨c, new, _, hc, _, hstarting, hne⟩
  exact hne (hsolo.own hc hstarting)

/-! ## Calls that overtake each other -/

/-- A start, overtaken by a reload whose instance fails to start. -/
def overtaken : List Event :=
  [.reload ⟨[], [], []⟩ true fun _ => ⟨0, 0⟩, .reload ⟨[], [], []⟩ true fun _ => ⟨0, 0⟩,
    .oldClosed 1, .reloadBuild 1 true fun _ => ⟨0, 0⟩, .startReturned 0 true, .reloadStarted 0,
    .startReturned 1 false, .reloadStarted 1]

/-- **A service that is started on an instance that failed to start.**  The first call's `Start` was
good, but of an instance that was closed since; the second call's was not. -/
theorem reload_overtaken : ∃ w, machine.Reaches (init fun _ => none) w ∧
    w.service.status = .started ∧ w.service.current = some 1 ∧ w.outcome 1 = some false := by
  have hrun : (machine.run (init fun _ => none) overtaken).map (fun w =>
      (w.service.status, w.service.current, w.outcome 1)) =
      some (.started, some 1, some false) := by decide +kernel
  obtain ⟨w, hw, hval⟩ := Option.map_eq_some_iff.mp hrun
  obtain ⟨hstatus, hval⟩ := Prod.mk.inj hval
  obtain ⟨hcur, hout⟩ := Prod.mk.inj hval
  exact ⟨w, Machine.reaches_run hw, hstatus, hcur, hout⟩

/-- **A started service is coherent in every run without a stale last section.**  The last section of
a call changes the status for another instance than its own exactly when it is stale.  No section is
stale if calls install alone; and in every run at all, a starting or started service has an instance
that was not closed. -/
theorem coherent_unless_stale (disk : Path → Option (List Char)) :
    (∀ w, machine.ReachesIf (fun w e => ¬ Stale w e) (init disk) w → Coherent w) ∧
    (∀ w c new w', w.service.reloads[c]? = some (.starting new) →
      machine.step w (.reloadStarted c) = some (w', ()) →
      (w'.service.status ≠ w.service.status ∧ w.service.current ≠ some new ↔
        Stale w (.reloadStarted c))) ∧
    (∀ w, machine.ReachesIf Alone (init disk) w → ∀ e, ¬ Stale w e) ∧
    ∀ w, machine.Reaches (init disk) w →
      w.service.status = .starting ∨ w.service.status = .started → Open w.service := by
  refine ⟨fun w h => ?_, fun w c new w' hc hstep => ?_, fun w h => not_stale_of_alone h,
    fun w h hup => ((orderly_of_reaches h).up hup).2⟩
  · refine (h.invariant (P := fun w => Orderly w.service ∧ Coherent w)
      (fun a e b o hfresh hs ha => ?_) ⟨orderly_init disk, nofun⟩).2
    exact ⟨step_orderly ha.1 hs, step_coherent ha.1 ha.2 hfresh hs⟩
  · rw [status_changes hstep]
    constructor
    · rintro ⟨⟨hopen, hstarting⟩, hother⟩
      exact ⟨c, new, rfl, hc, hopen, hstarting, hother⟩
    · rintro ⟨c', new', he, hc', hopen, hstarting, hother⟩
      obtain rfl := Event.reloadStarted.inj he
      obtain rfl := ReloadPc.starting.inj (Option.some.inj (hc.symm.trans hc'))
      exact ⟨⟨hopen, hstarting⟩, hother⟩

theorem coherent_unless_stale_sample : ∃ w,
    machine.ReachesIf (fun w e => ¬ Stale w e) (init fun _ => none) w ∧
      w.service.status = .started ∧ Coherent w := by
  have hrun : (machine.run (init fun _ => none) [.reload ⟨[], [], []⟩ true fun _ => ⟨0, 0⟩,
      .startReturned 0 true, .reloadStarted 0]).map (fun w => w.service.status) =
      some .started := by decide +kernel
  obtain ⟨w, hw, hstatus⟩ := Option.map_eq_some_iff.mp hrun
  obtain ⟨⟨w₁, _⟩, h₁, hw⟩ := Option.bind_eq_some_iff.mp hw
  obtain ⟨⟨w₂, _⟩, h₂, hw⟩ := Option.bind_eq_some_iff.mp hw
  obtain ⟨⟨w₃, _⟩, h₃, hw⟩ := Option.bind_eq_some_iff.mp hw
  obtain rfl := Option.some.inj hw
  -- one call alone
  have r₀ : machine.ReachesIf Alone (init fun _ => none) (init fun _ => none) := .refl _
  have r₁ := r₀.snoc (fun _ _ _ h => by cases h) h₁
  have r₂ := r₁.snoc (by rintro (⟨⟨_, _, _, h⟩, _⟩ | ⟨_, _, _, h⟩) <;> cases h) h₂
  have hreach : machine.ReachesIf (fun w e => ¬ Stale w e) (init fun _ => none) w₃ :=
    (((Machine.ReachesIf.refl _).snoc (not_stale_of_alone r₀ _) h₁).snoc
      (not_stale_of_alone r₁ _) h₂).snoc (not_stale_of_alone r₂ _) h₃
  exact ⟨_, hreach, hstatus, (coherent_unless_stale _).1 _ hreach⟩

/-! ## No instance is lost -/

/-- An instance that was built and not closed. -/
def Live (s : Service) (i : ℕ) : Prop :=
  ∃ inst, s.instances[i]? = some inst ∧ inst.cancelled = false

/-- What a call that replaces the instance relies on. -/
def Relies (s : Service) : ReloadPc → Prop
  | .closing old _ => s.current = some old
  | .building _ => ∀ i, ¬ Live s i
  | .starting _ | .returned => True

/-- **Only the current instance is live.** -/
structure Tidy (s : Service) : Prop where
  only : ∀ i, Live s i → s.current = some i
  calls : s.closed = false → ∀ (c : ℕ) pc, s.reloads[c]? = some pc → Relies s pc

theorem relies_of_settled {pc : ReloadPc} (h : replacing pc = false) : Relies s pc := by
  cases pc with
  | closing | building => cases h
  | starting | returned => trivial

theorem live_close {i j : ℕ} (h : Live (s.modifyInstance i Instance.close) j) : j ≠ i ∧ Live s j := by
  obtain ⟨inst, hj, hopen⟩ := h
  obtain ⟨inst₀, h₀, rfl⟩ := Heap.getElem?_modify_eq_some.mp hj
  split_ifs at hopen with hij
  · cases hopen
  · exact ⟨Ne.symm hij, inst₀, h₀, hopen⟩

theorem Tidy.not_live_close (h : Tidy s) {i : ℕ} (hcur : s.current = some i) (j : ℕ) :
    ¬ Live (s.modifyInstance i Instance.close) j := fun hj =>
  (live_close hj).1 (Option.some.inj ((h.only j (live_close hj).2).symm.trans hcur))

theorem tidy_build (hnone : ∀ i, ¬ Live s i) (f : ReloadPc → List ReloadPc)
    (hf : ∀ (c : ℕ) pc new, (f new)[c]? = some pc → pc = new ∨ replacing pc = false) :
    Tidy { (s.build profile built clock).1 with reloads := f (s.build profile built clock).2 } := by
  rcases build_cases with h | ⟨inst, -, h⟩ <;> rw [h]
  all_goals
    refine ⟨fun i hi => ?_, fun _ c pc hc => relies_of_settled ((hf c pc _ hc).elim ?_ id)⟩
    swap
    · rintro rfl
      rfl
  · exact absurd hi (hnone i)
  · obtain ⟨inst', hi, hopen⟩ := hi
    rcases Heap.getElem?_concat.mp hi with hi | ⟨rfl, -⟩
    · exact absurd ⟨inst', hi, hopen⟩ (hnone i)
    · rfl

theorem tidy_section (ho : Orderly s) (h : Tidy s) {s' : Service} (hstep : Section s e s') :
    Tidy s' := by
  cases hstep with
  | reload =>
    unfold Service.reload
    split_ifs with hclosed hstatus
    · exact h
    · exact h
    have hsettled := ho.settled (by simpa using hclosed) hstatus
    split
    · rename_i i hcur
      refine ⟨h.only, fun _ c pc hc => ?_⟩
      rcases Heap.getElem?_concat.mp hc with hc | ⟨-, rfl⟩
      · exact relies_of_settled (hsettled c pc hc)
      · exact hcur
    · rename_i hcur
      refine tidy_build (fun i hi => ?_) (s.reloads ++ [·]) fun c pc new hc => ?_
      · cases hcur.symm.trans (h.only i hi)
      · exact (Heap.getElem?_concat.mp hc).symm.imp And.right (hsettled c pc)
  | @oldClosed c _ _ hc =>
    refine ⟨fun i hi => h.only i (live_close hi).2, fun hopen c' pc hc' => ?_⟩
    rcases getElem?_moved hc' with ⟨-, rfl⟩ | ⟨hne, hc'⟩
    · exact h.not_live_close (h.calls hopen c _ hc)
    · refine relies_of_settled (by_contra fun hpc => hne ?_)
      exact ho.one hopen c' c pc _ hc' hc (by simpa using hpc) rfl
  | @reloadBuild c _ hc =>
    unfold Service.reloadBuild
    split_ifs with hclosed
    · exact ⟨h.only, fun hopen => by cases hclosed.symm.trans hopen⟩
    · have hopen : s.closed = false := by simpa using hclosed
      refine tidy_build (h.calls hopen c _ hc) (s.reloads.set c ·) fun c' pc new hc' => ?_
      refine (getElem?_moved hc').imp And.right fun ⟨hne, hc'⟩ => by_contra fun hpc => hne ?_
      exact ho.one hopen c' c pc _ hc' hc (by simpa using hpc) rfl
  | closeService failure =>
    unfold Service.closeService
    split_ifs with hup
    · obtain ⟨hopen, i, inst, hcur, -⟩ := ho.up hup
      have hcalls : ∀ t : Service, ∀ (c : ℕ) pc, s.reloads[c]? = some pc → Relies t pc :=
        fun _ c pc hc => relies_of_settled (ho.settled hopen (not_down_of_up hup) c pc hc)
      rw [hcur]
      cases failure <;>
        exact ⟨fun j hj => absurd hj (h.not_live_close hcur j), fun _ => hcalls _⟩
    · exact h
  | close =>
    unfold Service.close
    split_ifs
    · exact h
    · refine ⟨fun j hj => ?_, nofun⟩
      cases hcur : s.current <;> rw [hcur] at hj
      · cases hcur.symm.trans (h.only j hj)
      · exact absurd hj (h.not_live_close hcur j)
  | setError => exact ⟨h.only, h.calls⟩

theorem tidy_reloadStarted (h : Tidy s) (c : ℕ) (ok : Bool) : Tidy (s.reloadStarted c ok) := by
  rcases reloadStarted_cases s c ok with ⟨-, heq⟩ | ⟨-, heq⟩ <;> rw [heq]
  all_goals
    refine ⟨h.only, fun hopen c' pc hc' => ?_⟩
    rcases getElem?_moved hc' with ⟨-, rfl⟩ | ⟨-, hc'⟩
    · trivial
    · exact h.calls hopen c' pc hc'

/-- **No instance is lost**: in every run, the current instance is the only one that may not have been
closed. -/
theorem only_current_instance_live (disk : Path → Option (List Char))
    (h : machine.Reaches (init disk) w) (i : ℕ) (inst : Instance)
    (hi : w.service.instances[i]? = some inst) (hopen : inst.cancelled = false) :
    w.service.current = some i := by
  refine (h.invariant (P := fun w => Orderly w.service ∧ Tidy w.service)
    (fun a e b o _ hs ha => ⟨step_orderly ha.1 hs, ?_⟩) ⟨orderly_init disk, ?_⟩).2.only i
    ⟨inst, hi, hopen⟩
  · rcases step_cases hs with ⟨s, hsec, rfl⟩ | ⟨_, _, _, _, _, _, rfl⟩ | ⟨c, _, ok, _, _, _, rfl⟩
    · exact tidy_section ha.1 ha.2 hsec
    · exact ha.2
    · exact tidy_reloadStarted ha.2 c ok
  · exact ⟨fun _ ⟨_, h, _⟩ => (by cases h), fun _ _ _ h => (by cases h)⟩

theorem only_current_instance_live_sample : ∃ w inst, machine.Reaches (init fun _ => none) w ∧
    w.service.instances[1]? = some inst ∧ inst.cancelled = false ∧ w.service.current = some 1 := by
  have hrun : ((machine.run (init fun _ => none) overtaken).bind fun w =>
      w.service.instances[1]?.map (·.cancelled)) = some false := by decide +kernel
  obtain ⟨w, hw, hval⟩ := Option.bind_eq_some_iff.mp hrun
  obtain ⟨inst, hinst, hopen⟩ := Option.map_eq_some_iff.mp hval
  have hr := Machine.reaches_run hw
  exact ⟨w, inst, hr, hinst, hopen, only_current_instance_live _ hr 1 inst hinst hopen⟩

end PokrovCore.Daemon.Lifecycle
