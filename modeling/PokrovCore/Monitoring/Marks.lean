import PokrovCore.Monitoring.Monitor
import Mathlib.Data.Prod.Basic

/-!
# Monitoring/Marks — a mark of an outbound stands for a task

A mark keeps other tasks out, so there has to be one that will clear it: in its queue, with a worker
who has not decided about it, or asleep (`Held`).  For the mark of a cycle it is the task with the
number of the mark, which is why a task that is dismissed clears no other's.

Two kinds of steps break this.  A task is marked before its queue turns out to be full.  And a task
with priority that sleeps finds its own mark when it wakes up, and is dropped for it; the mark stays.
-/

namespace PokrovCore.Monitoring

/-- Is it still open what becomes of the marks of the task? -/
def Phase.live : Phase → Bool
  | .taken | .testing | .probing | .delayed => true
  | .dismissed | .applied _ | .leaving => false

namespace Monitor

variable {s s' : Monitor} {j : Job} {js : List Job} {task t : TestTask}

/-- **A task is held**: in its queue, with a worker, or asleep. -/
def Held (s : Monitor) (task : TestTask) : Prop :=
  task ∈ (if task.priority then s.priorityQueue else s.normalQueue) ∨
    ∃ phase : Phase, phase.live = true ∧ ⟨task, phase⟩ ∈ s.work

/-- The mark of the tasks with priority, or of the others. -/
def flag (st : OutboundState) (priority : Bool) : Bool :=
  if priority then st.priorityQueued else st.queued

/-- Is the mark, of whichever kind, that of the task? -/
def Stands (st : OutboundState) (task : TestTask) : Prop :=
  task.priority = false → task.cycleID = st.enqueuedCycle

/-! ## Holding tasks -/

theorem Held.push (h : Held s t) (task : TestTask) : Held (s.push task) t := by
  obtain h | h := h
  · left
    unfold Monitor.push
    cases task.priority <;> cases hp : t.priority <;> simp_all
  · right
    rw [push_work]
    exact h

theorem held_push (s : Monitor) (task : TestTask) : Held (s.push task) task := by
  left
  unfold Monitor.push
  cases task.priority <;> simp

/-- A job that goes on keeps its task held if it is still open what becomes of it. -/
theorem Held.advance (h : Held s t)
    (hj : j.phase.live = true → t = j.task → ∃ phase : Phase, phase.live = true ∧ ⟨t, phase⟩ ∈ js) :
    Held (s.advance j js) t := by
  obtain h | ⟨phase, hlive, hmem⟩ := h
  · exact .inl h
  · right
    by_cases heq : (⟨t, phase⟩ : Job) = j
    · subst heq
      obtain ⟨phase', hlive', hmem'⟩ := hj hlive rfl
      exact ⟨phase', hlive', List.mem_append_right _ hmem'⟩
    · exact ⟨phase, hlive, List.mem_append_left _ ((List.mem_erase_of_ne heq).mpr hmem)⟩

/-- Another task than that of the job. -/
theorem Held.advance_of_ne (h : Held s t) (hne : t ≠ j.task) : Held (s.advance j js) t :=
  h.advance fun _ heq => absurd heq hne

/-! ## The invariant -/

/-- **Every mark stands for a task that is held**, and no task with priority sleeps. -/
structure Backed (s : Monitor) : Prop where
  backed : ∀ tag st priority, s.outbounds tag = some st → flag st priority = true →
    ∃ task, Held s task ∧ task.outboundTag = tag ∧ task.priority = priority ∧ Stands st task
  cycle : ∀ tag st, s.outbounds tag = some st → st.enqueuedCycle ≠ 0 → st.queued = true
  awake : ∀ j ∈ s.work, j.phase = .delayed → j.task.priority = false

/-- The marks of an outbound. -/
def marks (st : OutboundState) : Bool × Bool × ℕ := (st.queued, st.priorityQueued, st.enqueuedCycle)

variable {st' st : OutboundState}

theorem flag_eq_of_marks (h : marks st' = marks st) (priority : Bool) :
    flag st' priority = flag st priority := by
  simp only [marks, Prod.mk.injEq] at h
  simp [flag, h]

/-- Marks stay and tasks stay held. -/
theorem Backed.mono (h : Backed s)
    (hmarks : ∀ tag st', s'.outbounds tag = some st' →
      ∃ st, s.outbounds tag = some st ∧ marks st' = marks st)
    (hheld : ∀ task, Held s task → Held s' task)
    (hawake : ∀ j ∈ s'.work, j.phase = .delayed → j.task.priority = false) : Backed s' where
  backed tag st' priority hst hflag := by
    obtain ⟨st, hst, heq⟩ := hmarks tag st' hst
    rw [flag_eq_of_marks heq] at hflag
    obtain ⟨task, htask, htag, hpriority, hstands⟩ := h.backed tag st priority hst hflag
    refine ⟨task, hheld task htask, htag, hpriority, fun hp => ?_⟩
    rw [hstands hp, (Prod.mk.inj (Prod.mk.inj heq).2).2]
  cycle tag st' hst := by
    obtain ⟨st, hst, heq⟩ := hmarks tag st' hst
    rw [(Prod.mk.inj (Prod.mk.inj heq).2).2, (Prod.mk.inj heq).1]
    exact h.cycle tag st hst
  awake := hawake

variable {φ : OutboundState → OutboundState} {tag : String}

theorem outbounds_modify {tag' : String} (h : (s.modifyOutbound tag φ).outbounds tag' = some st') :
    tag' = tag ∧ (∃ st, s.outbounds tag = some st ∧ st' = φ st) ∨
      tag' ≠ tag ∧ s.outbounds tag' = some st' := by
  by_cases htag : tag' = tag
  · subst htag
    left
    simp only [modifyOutbound, Function.update_self] at h
    obtain ⟨st, hst, rfl⟩ := Option.map_eq_some_iff.mp h
    exact ⟨rfl, st, hst, rfl⟩
  · right
    simp only [modifyOutbound, Function.update_of_ne htag] at h
    exact ⟨htag, h⟩

theorem marks_modify (hφ : ∀ st, marks (φ st) = marks st) {tag' : String}
    (h : (s.modifyOutbound tag φ).outbounds tag' = some st') :
    ∃ st, s.outbounds tag' = some st ∧ marks st' = marks st := by
  obtain ⟨rfl, st, hst, rfl⟩ | ⟨-, hst⟩ := outbounds_modify h
  · exact ⟨st, hst, hφ st⟩
  · exact ⟨st', hst, rfl⟩

/-- Setting a mark leaves the other kind. -/
theorem flag_mark {priority : Bool} (h : priority ≠ task.priority) :
    flag (mark st task) priority = flag st priority ∧
      (priority = false → (mark st task).enqueuedCycle = st.enqueuedCycle) := by
  unfold mark flag
  cases priority <;> cases hp : task.priority <;> simp_all

/-- So does clearing one. -/
theorem flag_dismiss {priority : Bool} (h : priority ≠ task.priority) :
    flag (dismiss st task) priority = flag st priority ∧
      (priority = false → (dismiss st task).enqueuedCycle = st.enqueuedCycle) := by
  unfold dismiss flag
  cases priority <;> cases hp : task.priority <;> simp_all
  split <;> rfl

/-! ## Submitting -/

/-- **A submission into a queue with room**, of a task in whose place another one may have gone: a
mark with another number has nothing behind it then. -/
theorem backed_enqueueTask (hdone : s.done = false) (hroom : s.room task.priority = true)
    (hbacked : ∀ tag st priority, s.outbounds tag = some st → flag st priority = true →
      (∃ t, Held s t ∧ t.outboundTag = tag ∧ t.priority = priority ∧ Stands st t) ∨
        tag = task.outboundTag ∧ priority = false ∧ task.priority = false ∧
          st.enqueuedCycle ≠ task.cycleID)
    (hcycle : ∀ tag st, s.outbounds tag = some st → st.enqueuedCycle ≠ 0 → st.queued = true)
    (hawake : ∀ j ∈ s.work, j.phase = .delayed → j.task.priority = false) :
    Backed (s.enqueueTask task).1 := by
  have hsubmitted := s.submitted task
  generalize s.enqueueTask task = result at hsubmitted ⊢
  cases hsubmitted with
  | closed hclosed => exact absurd (hdone.symm.trans hclosed) (by simp)
  | unknown hnone =>
    refine ⟨fun tag st priority hst hflag => ?_, hcycle, hawake⟩
    obtain h | ⟨rfl, -⟩ := hbacked tag st priority hst hflag
    · exact h
    · exact absurd (hnone.symm.trans hst) (by simp)
  | @kept st₀ hst₀ hmarked =>
    refine ⟨fun tag st priority hst hflag => ?_, hcycle, hawake⟩
    obtain h | ⟨rfl, -, hnormal, hne⟩ := hbacked tag st priority hst hflag
    · exact h
    · obtain rfl := Option.some.inj (hst₀.symm.trans hst)
      simp only [marked, hnormal, Bool.false_eq_true, if_false, decide_eq_true_eq] at hmarked
      exact absurd hmarked hne
  | full hfull => exact absurd (hroom.symm.trans hfull) (by simp)
  | queued =>
    have hheld : ∀ t, Held s t →
        Held ((s.modifyOutbound task.outboundTag fun st => mark st task).push task) t :=
      fun t h => Held.push (show Held (s.modifyOutbound task.outboundTag _) t from h) task
    refine ⟨fun tag st priority hst' hflag => ?_, fun tag st hst' => ?_, ?_⟩
    · rw [push_outbounds] at hst'
      obtain ⟨rfl, st, hst, rfl⟩ | ⟨htag, hst⟩ := outbounds_modify hst'
      · by_cases hkind : priority = task.priority
        · refine ⟨task, held_push _ task, rfl, hkind.symm, fun hnormal => ?_⟩
          simp [mark, hnormal]
        · have hmark := @flag_mark task st priority hkind
          rw [hmark.1] at hflag
          obtain ⟨t, ht, htag, hp, hstands⟩ | ⟨-, hp, hp', -⟩ := hbacked _ st priority hst hflag
          · refine ⟨t, hheld t ht, htag, hp, fun hnormal => ?_⟩
            rw [hmark.2 (hp ▸ hnormal)]
            exact hstands hnormal
          · exact absurd (hp.trans hp'.symm) hkind
      · obtain ⟨t, ht, hrest⟩ | ⟨rfl, -⟩ := hbacked tag st priority hst hflag
        · exact ⟨t, hheld t ht, hrest⟩
        · exact absurd rfl htag
    · rw [push_outbounds] at hst'
      obtain ⟨rfl, st, hst, rfl⟩ | ⟨-, hst⟩ := outbounds_modify hst'
      · unfold mark
        split
        · exact hcycle _ st hst
        · exact fun _ => rfl
      · exact hcycle tag st hst
    · rw [push_work]
      exact hawake

theorem Backed.enqueueTask (h : Backed s) (hdone : s.done = false)
    (hroom : s.room task.priority = true) : Backed (s.enqueueTask task).1 :=
  backed_enqueueTask hdone hroom (fun tag st priority hst hflag => .inl (h.backed tag st priority hst hflag))
    h.cycle h.awake

/-- A task that sleeps is submitted again, with the next number. -/
theorem Backed.requeue (h : Backed s) (hdone : s.done = false) (hmem : j ∈ s.work)
    (hphase : j.phase = .delayed) (hroom : s.room j.task.priority = true) : Backed (s.requeue j) := by
  have hnormal := h.awake j hmem hphase
  rw [Monitor.requeue, hdone]
  simp only [Bool.false_eq_true, if_false]
  refine backed_enqueueTask hdone hroom ?_ h.cycle ?_
  · intro tag st priority hst hflag
    obtain ⟨t, ht, htag, hp, hstands⟩ := h.backed tag st priority hst hflag
    by_cases heq : t = j.task
    · subst heq
      right
      exact ⟨htag.symm, hp.symm.trans hnormal, hnormal, by rw [← hstands hnormal]; simp⟩
    · exact .inl ⟨t, ht.advance_of_ne heq, htag, hp, hstands⟩
  · intro k hk
    rw [Monitor.advance, List.append_nil] at hk
    exact h.awake k (List.mem_of_mem_erase hk)

/-! ## Workers -/

/-- Jobs that go on without going to sleep. -/
theorem awake_advance (h : ∀ j ∈ s.work, j.phase = .delayed → j.task.priority = false)
    (hjs : ∀ j ∈ js, j.phase = .delayed → j.task.priority = false) :
    ∀ k ∈ (s.advance j js).work, k.phase = .delayed → k.task.priority = false := by
  intro k hk
  obtain hk | hk := List.mem_append.mp hk
  · exact h k (List.mem_of_mem_erase hk)
  · exact hjs k hk

/-- **A task is dismissed**: it clears its own mark, and only that. -/
theorem Backed.dismissed (h : Backed s) :
    Backed ((s.modifyOutbound j.task.outboundTag fun st => dismiss st j.task).advance j
      [⟨j.task, .dismissed⟩]) := by
  refine ⟨fun tag st priority hst' hflag => ?_, fun tag st hst' => ?_,
    awake_advance (s := s.modifyOutbound _ _) h.awake (by simp)⟩
  · have hother : ∀ st, s.outbounds tag = some st → flag st priority = true →
        (∀ t, t.outboundTag = tag → t.priority = priority → Stands st t → t ≠ j.task) →
        ∃ t, Held ((s.modifyOutbound j.task.outboundTag fun st => dismiss st j.task).advance j
          [⟨j.task, .dismissed⟩]) t ∧ t.outboundTag = tag ∧ t.priority = priority ∧ Stands st t := by
      intro st hst hflag hne
      obtain ⟨t, ht, htag, hp, hstands⟩ := h.backed tag st priority hst hflag
      have ht' : Held (s.modifyOutbound j.task.outboundTag fun st => dismiss st j.task) t := ht
      exact ⟨t, ht'.advance_of_ne (hne t htag hp hstands), htag, hp, hstands⟩
    obtain ⟨rfl, st, hst, rfl⟩ | ⟨htag, hst⟩ := outbounds_modify hst'
    · by_cases hkind : priority = j.task.priority
      · subst hkind
        -- a mark of its own kind is left only if it has another number
        have hleft : j.task.priority = false ∧ st.enqueuedCycle ≠ j.task.cycleID := by
          unfold dismiss flag at hflag
          split_ifs at hflag
          simp_all
        have hsame : dismiss st j.task = st := by
          simp [dismiss, hleft]
        rw [hsame] at hflag ⊢
        refine hother st hst hflag fun t _ _ hstands heq => hleft.2 ?_
        rw [← hstands (heq ▸ hleft.1), heq]
      · have hmark := @flag_dismiss j.task st priority hkind
        rw [hmark.1] at hflag
        obtain ⟨t, ht, htag, hp, hstands⟩ := hother st hst hflag
          fun t _ hp _ heq => hkind (hp.symm.trans (congrArg TestTask.priority heq))
        refine ⟨t, ht, htag, hp, fun hnormal => ?_⟩
        rw [hmark.2 (hp ▸ hnormal)]
        exact hstands hnormal
    · exact hother st hst hflag fun t ht _ _ heq => htag (ht ▸ congrArg TestTask.outboundTag heq)
  · obtain ⟨rfl, st, hst, rfl⟩ | ⟨-, hst⟩ := outbounds_modify hst'
    · unfold dismiss
      split_ifs
      · exact h.cycle _ st hst
      · exact fun hne => absurd rfl hne
      · exact h.cycle _ st hst
    · exact h.cycle tag st hst

/-- **An outcome is applied**: no mark of the outbound is left. -/
theorem Backed.tested (h : Backed s) (hdone : s.done = false) (failed : Bool) :
    Backed ((s.applyResult j.task.outboundTag failed).advance j [⟨j.task, .applied failed⟩]) := by
  rw [applyResult, hdone]
  simp only [Bool.false_eq_true, if_false]
  refine ⟨fun tag st priority hst' hflag => ?_, fun tag st hst' => ?_,
    awake_advance (s := s.modifyOutbound _ _) h.awake (by simp)⟩
  · obtain ⟨rfl, st, hst, rfl⟩ | ⟨htag, hst⟩ := outbounds_modify hst'
    · cases priority <;> cases hflag
    · obtain ⟨t, ht, htag', hrest⟩ := h.backed tag st priority hst hflag
      have ht' : Held (s.modifyOutbound j.task.outboundTag fun st =>
        { st with queued := false, priorityQueued := false, enqueuedCycle := 0, invalid := failed }) t :=
        ht
      refine ⟨t, ht'.advance_of_ne fun heq => htag ?_, htag', hrest⟩
      rw [← htag', heq]
  · obtain ⟨rfl, st, hst, rfl⟩ | ⟨-, hst⟩ := outbounds_modify hst'
    · exact fun hne => absurd rfl hne
    · exact h.cycle tag st hst

/-- Other jobs go on: their task is held still, or was not any more. -/
theorem Backed.advance (h : Backed s)
    (hjs : j.phase.live = true → ∃ phase : Phase, phase.live = true ∧ ⟨j.task, phase⟩ ∈ js)
    (hawake : ∀ k ∈ js, k.phase = .delayed → k.task.priority = false) : Backed (s.advance j js) :=
  h.mono (fun _ st hst => ⟨st, hst, rfl⟩)
    (fun _ ht => ht.advance fun hlive heq => heq ▸ hjs hlive) (awake_advance h.awake hawake)

/-- A change of an outbound that leaves its marks. -/
theorem Backed.modify (h : Backed s) (hφ : ∀ st, marks (φ st) = marks st) :
    Backed (s.modifyOutbound tag φ) :=
  h.mono (fun _ _ hst => marks_modify hφ hst) (fun _ => id) h.awake

/-- A change of anything but outbounds, queues and jobs. -/
theorem Backed.of_eq (h : Backed s) (houtbounds : s'.outbounds = s.outbounds)
    (hpriority : s'.priorityQueue = s.priorityQueue) (hnormal : s'.normalQueue = s.normalQueue)
    (hwork : s'.work = s.work) : Backed s' := by
  refine h.mono (fun tag st hst => ⟨st, houtbounds ▸ hst, rfl⟩) (fun t ht => ?_)
    (hwork ▸ h.awake)
  rw [Held, hpriority, hnormal, hwork]
  exact ht

theorem Backed.execute (h : Backed s) (hdone : s.done = false) (selected : String) :
    Backed (s.execute j selected) := by
  unfold Monitor.execute
  rw [hdone]
  simp only [Bool.false_eq_true, if_false]
  split
  case isTrue hnone =>
    -- the task of an outbound that is not registered stands for no mark
    refine ⟨fun tag st priority hst hflag => ?_, h.cycle, awake_advance h.awake (by simp)⟩
    obtain ⟨t, ht, rfl, hrest⟩ := h.backed tag st priority hst hflag
    refine ⟨t, ht.advance_of_ne fun heq => ?_, rfl, hrest⟩
    have hregistered : s.outbounds t.outboundTag = some st := hst
    rw [← heq, hregistered] at hnone
    cases hnone
  case isFalse =>
    split
    · exact h.dismissed
    · have hmodify : Backed (s.modifyOutbound j.task.outboundTag fun st =>
          { st with testing := true }) := h.modify fun _ => rfl
      exact hmodify.advance (fun _ => ⟨.testing, rfl, by simp⟩) (by simp)

theorem Backed.look (h : Backed s) {ready : Bool}
    (hcalm : (j.task.priority && decide (j.task.cycleID < 10) && !ready) = false) :
    Backed (s.look j ready) := by
  unfold Monitor.look
  split
  case isTrue hsleeps =>
    have hnormal : j.task.priority = false := by
      rw [Bool.and_assoc, hsleeps, Bool.and_true] at hcalm
      exact hcalm
    exact h.advance (fun _ => ⟨.delayed, rfl, by simp⟩) (by simp [hnormal])
  case isFalse => exact h.advance (fun _ => ⟨.probing, rfl, by simp⟩) (by simp)

theorem Backed.report (h : Backed s) (hr : s.report j = some s') : Backed s' := by
  unfold Monitor.report at hr
  have hsend : ∀ ch failed, Backed (s.send ch failed) := fun ch failed => h.of_eq rfl rfl rfl rfl
  split at hr
  case h_1 hphase =>
    have hdead : j.phase.live = true → ∃ phase : Phase, phase.live = true ∧
        (⟨j.task, phase⟩ : Job) ∈ [] := by simp [hphase, Phase.live]
    split at hr
    · exact Option.some.inj hr ▸ h.advance hdead (by simp)
    · split_ifs at hr
      · exact Option.some.inj hr ▸ (hsend ..).advance hdead (by simp)
      · exact Option.some.inj hr ▸ h.advance hdead (by simp)
  case h_2 failed hphase =>
    have hdead : j.phase.live = true → ∃ phase : Phase, phase.live = true ∧
        (⟨j.task, phase⟩ : Job) ∈ [⟨j.task, .leaving⟩] := by simp [hphase, Phase.live]
    split at hr
    · exact Option.some.inj hr ▸ h.advance hdead (by simp)
    · split_ifs at hr
      · exact Option.some.inj hr ▸ (hsend ..).advance hdead (by simp)
      · exact Option.some.inj hr ▸ h.advance hdead (by simp)
  case h_3 => cases hr

/-! ## Steps -/

/-- **Is this not a step that breaks a mark?**  No submission finds its queue full, and no task with
priority finds its outbound not ready, in an early cycle. -/
def harmless (s : Monitor) : Event → Bool
  | .proceed (.made task) => s.room task.priority
  | .submit => s.room false
  | .requeue j => s.room j.task.priority
  | .look j ready => !(j.task.priority && decide (j.task.cycleID < 10) && !ready)
  | _ => true

variable {cfg : Config}

theorem Backed.proceed (h : Backed s) (hdone : s.done = false) {r : Request}
    (hcalm : s.harmless (.proceed r) = true) : Backed (s.proceed cfg r) := by
  unfold Monitor.proceed
  split
  · split
    · exact h.of_eq rfl rfl rfl rfl
    · split <;> exact h.of_eq rfl rfl rfl rfl
  · exact h.of_eq rfl rfl rfl rfl
  · exact Backed.enqueueTask (h.of_eq rfl rfl rfl rfl) hdone hcalm

theorem Backed.submit (h : Backed s) (hdone : s.done = false) {cycleID idx ch : ℕ}
    (hroom : s.room false = true) : Backed (s.submit cycleID tag idx ch) := by
  unfold Monitor.submit
  split
  · exact h.of_eq rfl rfl rfl rfl
  · have hq : Backed (s.enqueueTask ⟨tag, cycleID, false, some ch⟩).1 := h.enqueueTask hdone hroom
    exact hq.of_eq rfl rfl rfl rfl

/-- A worker takes a task from its queue. -/
theorem Backed.take (h : Backed s) (houtbounds : s'.outbounds = s.outbounds)
    (hwork : s'.work = s.work ++ [⟨task, .taken⟩])
    (hqueue : ∀ t, t ∈ (if t.priority then s.priorityQueue else s.normalQueue) →
      t = task ∨ t ∈ (if t.priority then s'.priorityQueue else s'.normalQueue)) : Backed s' := by
  refine h.mono (fun tag st hst => ⟨st, houtbounds ▸ hst, rfl⟩) (fun t ht => ?_) ?_
  · obtain hmem | ⟨phase, hlive, hmem⟩ := ht
    · obtain rfl | hmem := hqueue t hmem
      · exact .inr ⟨.taken, rfl, by simp [hwork]⟩
      · exact .inl hmem
    · exact .inr ⟨phase, hlive, by simp [hwork, hmem]⟩
  · intro j hj hphase
    rw [hwork] at hj
    obtain hj | hj := List.mem_append.mp hj
    · exact h.awake j hj hphase
    · rw [List.mem_singleton.mp hj] at hphase
      cases hphase

/-- **One step of a monitor that is not closed keeps every mark backed**, unless it is one of those
that break it. -/
theorem Backed.step (h : Backed s) (hdone : s.done = false) {e : Event}
    (hcalm : s.harmless e = true) (hs : s.step cfg e = some s') : Backed s' := by
  cases e with
  | testNow outboundTag selected =>
    obtain rfl := Option.some.inj hs
    unfold Monitor.testNow
    split
    · exact h.of_eq rfl rfl rfl rfl
    · exact h
  | invalidateTest outboundTag selected =>
    obtain rfl := Option.some.inj hs
    unfold Monitor.invalidateTest
    split
    · have hmodify : Backed (s.modifyOutbound outboundTag fun st => { st with invalid := true }) :=
        h.modify fun _ => rfl
      exact hmodify.of_eq rfl rfl rfl rfl
    · exact h
  | proceed r =>
    obtain ⟨-, hs⟩ := Option.ite_none_right_eq_some.mp hs
    exact Option.some.inj hs ▸ h.proceed hdone hcalm
  | startCycle =>
    simp only [Monitor.step] at hs
    split at hs
    · exact Option.some.inj hs ▸ h.of_eq rfl rfl rfl rfl
    · exact Option.some.inj hs ▸ h
  | countCycle =>
    simp only [Monitor.step] at hs
    split at hs
    · exact Option.some.inj hs ▸ h.of_eq rfl rfl rfl rfl
    · cases hs
  | collect selected due =>
    simp only [Monitor.step] at hs
    split at hs
    · split at hs <;> exact Option.some.inj hs ▸ h.of_eq rfl rfl rfl rfl
    · cases hs
  | choose selected =>
    simp only [Monitor.step] at hs
    split at hs
    · obtain rfl := Option.some.inj hs
      unfold Monitor.choose
      split <;> exact h.of_eq rfl rfl rfl rfl
    · cases hs
  | submit =>
    simp only [Monitor.step] at hs
    split at hs
    · exact Option.some.inj hs ▸ h.submit hdone hcalm
    · cases hs
  | receive =>
    simp only [Monitor.step] at hs
    split at hs
    · split at hs
      · cases hs
      · exact Option.some.inj hs ▸ h.of_eq rfl rfl rfl rfl
    · cases hs
  | endStage =>
    simp only [Monitor.step] at hs
    split at hs
    · obtain ⟨-, hs⟩ := Option.ite_none_right_eq_some.mp hs
      obtain rfl := Option.some.inj hs
      unfold Monitor.endStage
      split <;> exact h.of_eq rfl rfl rfl rfl
    · cases hs
  | takePriority =>
    simp only [Monitor.step] at hs
    split at hs
    · cases hs
    case h_2 task rest hq =>
      obtain rfl := Option.some.inj hs
      refine h.take rfl rfl fun t ht => ?_
      cases hp : t.priority <;> simp_all
  | takeNormal =>
    simp only [Monitor.step] at hs
    split at hs
    · cases hs
    case h_2 task rest hq =>
      obtain rfl := Option.some.inj hs
      refine h.take rfl rfl fun t ht => ?_
      cases hp : t.priority <;> simp_all
  | execute j selected =>
    obtain ⟨-, hs⟩ := Option.ite_none_right_eq_some.mp hs
    exact Option.some.inj hs ▸ h.execute hdone selected
  | look j ready =>
    obtain ⟨-, hs⟩ := Option.ite_none_right_eq_some.mp hs
    rw [harmless, Bool.not_eq_true'] at hcalm
    exact Option.some.inj hs ▸ h.look hcalm
  | tested j failed =>
    obtain ⟨-, hs⟩ := Option.ite_none_right_eq_some.mp hs
    exact Option.some.inj hs ▸ h.tested hdone failed
  | report j =>
    obtain ⟨-, hs⟩ := Option.ite_none_right_eq_some.mp hs
    exact h.report hs
  | leave j =>
    obtain ⟨⟨-, hphase⟩, hs⟩ := Option.ite_none_right_eq_some.mp hs
    obtain rfl := Option.some.inj hs
    have hmodify : Backed (s.modifyOutbound j.task.outboundTag fun st =>
        { st with testing := false }) := h.modify fun _ => rfl
    exact hmodify.advance (by simp [hphase, Phase.live]) (by simp)
  | requeue j =>
    obtain ⟨⟨hmem, hphase⟩, hs⟩ := Option.ite_none_right_eq_some.mp hs
    exact Option.some.inj hs ▸ h.requeue hdone hmem hphase hcalm
  | cancel => exact Option.some.inj hs ▸ h.of_eq rfl rfl rfl rfl

/-! ## Runs -/

/-- A step of a monitor that is not closed, and that breaks no mark. -/
def calm (s : Monitor) (e : Event) : Bool := !s.done && s.harmless e

theorem backed_initial (tags : List String) : Backed (initial tags) where
  backed tag st priority hst hflag := by
    simp only [initial] at hst
    split at hst
    · obtain rfl := Option.some.inj hst
      cases priority <;> cases hflag
    · cases hst
  cycle tag st hst hne := by
    simp only [initial] at hst
    split at hst
    · obtain rfl := Option.some.inj hst
      exact absurd rfl hne
    · cases hst
  awake _ hj := by cases hj

theorem backed_of_reaches {tags : List String}
    (h : (machine cfg).ReachesIf (fun s e => s.calm e = true) (initial tags) s) : Backed s := by
  refine h.invariant (fun s e s' _ hcalm hs hb => ?_) (backed_initial tags)
  obtain ⟨hdone, hharmless⟩ := Bool.and_eq_true_iff.mp hcalm
  exact hb.step (by simpa using hdone) hharmless (step_of_machine hs)

/-- **No tag is lost.**  Where no submission finds its queue full and no task with priority meets an
outbound that is not ready in an early cycle, every mark stands for a task of its kind: in its queue,
with a worker who has yet to decide about it, or asleep.  So a request that is not queued, of a cycle
that has begun, finds one. -/
theorem no_tag_lost (cfg : Config) (tags : List String) (s : Monitor)
    (h : (machine cfg).ReachesIf (fun s e => s.calm e = true) (initial tags) s) :
    (∀ tag st priority, s.outbounds tag = some st → flag st priority = true →
      ∃ task, Held s task ∧ task.outboundTag = tag ∧ task.priority = priority) ∧
    ∀ task, s.done = false → (s.outbounds task.outboundTag).isSome = true →
      s.room task.priority = true → (task.priority = false → task.cycleID ≠ 0) →
      (s.enqueueTask task).2 = false →
      ∃ t, Held s t ∧ t.outboundTag = task.outboundTag ∧ t.priority = task.priority := by
  have hb := backed_of_reaches h
  refine ⟨fun tag st priority hst hflag => ?_, fun task hdone hsome hroom hcycle hfalse => ?_⟩
  · obtain ⟨t, ht, htag, hp, -⟩ := hb.backed tag st priority hst hflag
    exact ⟨t, ht, htag, hp⟩
  · have hsubmitted := s.submitted task
    generalize s.enqueueTask task = result at hsubmitted hfalse
    cases hsubmitted with
    | closed hclosed => exact absurd (hdone.symm.trans hclosed) (by simp)
    | unknown hnone => rw [hnone] at hsome; cases hsome
    | @kept st hst hmarked =>
      have hflag : flag st task.priority = true := by
        cases hp : task.priority with
        | true => simpa [marked, flag, hp] using hmarked
        | false =>
          have heq : st.enqueuedCycle = task.cycleID := by simpa [marked, hp] using hmarked
          exact hb.cycle _ st hst (heq ▸ hcycle hp)
      obtain ⟨t, ht, htag, hp, -⟩ := hb.backed _ st _ hst hflag
      exact ⟨t, ht, htag, hp⟩
    | full hfull => exact absurd (hroom.symm.trans hfull) (by simp)
    | queued => cases hfalse

/-! ## A request for an outbound that is not ready -/

/-- One outbound, and the group of all. -/
def sampleConfig : Config := ⟨fun tag => if tag = "" then some ["a"] else none, 1⟩

/-- A task with priority, before the first cycle. -/
def sampleTask : TestTask := ⟨"a", 0, true, none⟩

/-- The selected outbound is to be tested now; a worker finds it not ready.  Three seconds later the
task is submitted again. -/
def lostRequest : List Event :=
  [.testNow "a" "a", .proceed (.asked "a" true), .proceed (.found "a" true),
    .proceed (.made sampleTask), .takePriority, .execute ⟨sampleTask, .taken⟩ "a",
    .look ⟨sampleTask, .testing⟩ false, .leave ⟨sampleTask, .leaving⟩,
    .requeue ⟨sampleTask, .delayed⟩]

/-- **A tag is lost.**  Nothing is left of the task but its mark; from then on no request for the
outbound is queued, and no cycle takes it up. -/
theorem mark_without_task : ∃ s, (machine sampleConfig).Reaches (initial ["a"]) s ∧
    s.done = false ∧ (∃ st, s.outbounds "a" = some st ∧ st.priorityQueued = true) ∧
    s.priorityQueue = [] ∧ s.normalQueue = [] ∧ s.work = [] ∧ s.requests = [] ∧ s.cycle = .idle ∧
    (∀ cycleID, (s.enqueueTask ⟨"a", cycleID, true, none⟩).2 = false) ∧
    ∀ due, s.collectCycleTargets "a" due = none := by
  have hrun : (((machine sampleConfig).run (initial ["a"]) lostRequest).map fun s =>
      (s.outbounds "a", s.done || s.cycleRunning,
        s.priorityQueue ++ s.normalQueue ++ s.work.map Job.task, s.requests)) =
      some (some ⟨true, false, true, false, 0⟩, false, [], []) := by decide +kernel
  obtain ⟨s, hs, hpair⟩ := Option.map_eq_some_iff.mp hrun
  simp only [Prod.mk.injEq, Bool.or_eq_false_iff, List.append_eq_nil_iff, List.map_eq_nil_iff]
    at hpair
  obtain ⟨hst, ⟨hdone, hcycle⟩, ⟨⟨hpriority, hnormal⟩, hwork⟩, hrequests⟩ := hpair
  refine ⟨s, Machine.reaches_run hs, hdone, ⟨_, hst, rfl⟩, hpriority, hnormal, hwork, hrequests,
    by simpa [cycleRunning] using hcycle, fun cycleID => ?_, fun due => ?_⟩
  · simp [enqueueTask, hdone, hst, marked]
  · simp [collectCycleTargets, hst]

/-- The same request, once the outbound is ready: its mark stands for the task a worker has. -/
def keptRequest : List Event := lostRequest.take 6 ++ [.look ⟨sampleTask, .testing⟩ true]

theorem no_tag_lost_sample : ∃ s,
    (machine sampleConfig).ReachesIf (fun s e => s.calm e = true) (initial ["a"]) s ∧
    (∃ st, s.outbounds "a" = some st ∧ flag st true = true) ∧
    ∃ task, Held s task ∧ task.outboundTag = "a" ∧ task.priority = true := by
  have hrun : (((machine sampleConfig).runIf calm (initial ["a"]) keptRequest).map fun s =>
      s.outbounds "a") = some (some ⟨true, false, true, true, 0⟩) := by decide +kernel
  obtain ⟨s, hs, hst⟩ := Option.map_eq_some_iff.mp hrun
  have hreach := Machine.reachesIf_runIf (C := fun s e => calm s e = true) (fun _ _ h => h) hs
  exact ⟨s, hreach, ⟨_, hst, rfl⟩,
    (no_tag_lost sampleConfig ["a"] s hreach).1 "a" _ true hst rfl⟩

end Monitor

end PokrovCore.Monitoring
