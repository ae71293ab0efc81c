import PokrovCore.Monitoring.Marks

/-!
# Monitoring/Stages — who owes a stage its outcome

A stage counts the tasks it has submitted and waits for as many outcomes.  A task owes its outcome
from its submission until it has sent it, whatever happens in between (`owed`); a channel has room for
what is owed, so nothing is dropped when it is sent.

The only step that loses an outcome is the second submission of a task that was asleep: nobody asks
whether it is queued.  It is refused if the queue is full, and if another task of the outbound has
got the number of the mark first.
-/

namespace PokrovCore.Monitoring

/-- Has the task not sent its outcome yet? -/
def Phase.unsent : Phase → Bool
  | .leaving => false
  | _ => true

namespace Monitor

variable {s s' : Monitor} {j : Job} {js : List Job} {task : TestTask} {ch : ℕ}

/-- Does the task carry this channel? -/
def carries (ch : ℕ) (task : TestTask) : Bool := task.resultCh = some ch

/-- …and has it not sent its outcome? -/
def owes (ch : ℕ) (j : Job) : Bool := j.phase.unsent && carries ch j.task

/-- **How many outcomes are owed** to a channel: by tasks in a queue, with a worker, or asleep. -/
def owed (s : Monitor) (ch : ℕ) : ℕ :=
  s.priorityQueue.countP (carries ch) + s.normalQueue.countP (carries ch) + s.work.countP (owes ch)

/-! ## Counting -/

theorem owed_push (s : Monitor) (task : TestTask) (ch : ℕ) :
    (s.push task).owed ch = s.owed ch + if carries ch task then 1 else 0 := by
  unfold push owed
  split <;> simp only [List.countP_append, List.countP_singleton] <;> omega

/-- A job goes on: what it owed before, and what it owes then. -/
theorem owed_advance (hmem : j ∈ s.work) (ch : ℕ) :
    (s.advance j js).owed ch + (if owes ch j then 1 else 0) = s.owed ch + js.countP (owes ch) := by
  have herase : s.work.countP (owes ch) =
      (s.work.erase j).countP (owes ch) + if owes ch j then 1 else 0 := by
    rw [(List.perm_cons_erase hmem).countP_eq, List.countP_cons]
  simp only [owed, advance, List.countP_append]
  omega

/-! ## The invariant -/

/-- How many outcomes the stage waits for on a channel. -/
def promised (s : Monitor) (ch : ℕ) : ℕ :=
  match s.cycle with
  | .waiting _ _ _ resultCh expected _ => if resultCh = ch then expected else 0
  | _ => 0

/-- The tasks there are, wherever they are. -/
def tasks (s : Monitor) : List TestTask := s.priorityQueue ++ s.normalQueue ++ s.work.map Job.task

/-- **What a stage waits for is owed or has been sent**, and no channel gets more than it has room
for.  Tasks are of outbounds there are, and those of requests carry no channel. -/
structure Accounted (s : Monitor) : Prop where
  promised : ∀ ch, s.promised ch ≤ s.owed ch + (s.results ch).length
  once : ∀ ch, s.owed ch + (s.results ch).length ≤ resultCapacity
  unused : ∀ ch, s.channels ≤ ch → s.owed ch = 0
  submitting : ∀ cycleID tag idx ch, s.cycle = .submitting cycleID tag idx ch →
    ch < s.channels ∧ s.owed ch = 0 ∧ s.results ch = []
  requests : ∀ task, .made task ∈ s.requests → task.resultCh = none
  known : ∀ task ∈ s.tasks, (s.outbounds task.outboundTag).isSome = true

theorem accounted_initial (tags : List String) : Accounted (initial tags) where
  promised _ := Nat.le_refl _
  once _ := Nat.zero_le _
  unused _ _ := rfl
  submitting _ _ _ _ h := by cases h
  requests _ h := by cases h
  known _ h := by cases h

theorem isSome_modify (s : Monitor) (tag tag' : String) (φ : OutboundState → OutboundState) :
    ((s.modifyOutbound tag φ).outbounds tag').isSome = (s.outbounds tag').isSome := by
  unfold modifyOutbound
  by_cases htag : tag' = tag
  · subst htag
    simp
  · simp [Function.update_of_ne htag]

namespace Accounted

/-- What is owed and sent stays as it is. -/
theorem congr (h : Accounted s) (howed : ∀ ch, s'.owed ch = s.owed ch)
    (hresults : s'.results = s.results) (hchannels : s'.channels = s.channels)
    (hcycle : s'.cycle = s.cycle)
    (hrequests : ∀ task, .made task ∈ s'.requests → .made task ∈ s.requests ∨ task.resultCh = none)
    (hknown : ∀ task ∈ s'.tasks, (s'.outbounds task.outboundTag).isSome = true) : Accounted s' where
  promised ch := by
    rw [Monitor.promised, hcycle, howed, hresults]
    exact h.promised ch
  once ch := by
    rw [howed, hresults]
    exact h.once ch
  unused ch := by
    rw [howed, hchannels]
    exact h.unused ch
  submitting cycleID tag idx ch := by
    rw [hcycle, howed, hresults, hchannels]
    exact h.submitting cycleID tag idx ch
  requests task ht := (hrequests task ht).elim (h.requests task) id
  known := hknown

/-- Only outbounds change, and they stay registered. -/
theorem modify (h : Accounted s) (tag : String) (φ : OutboundState → OutboundState) :
    Accounted (s.modifyOutbound tag φ) := by
  refine h.congr (fun _ => rfl) rfl rfl rfl (fun _ => .inl) fun task ht => ?_
  rw [isSome_modify]
  exact h.known task ht

theorem known_advance (h : Accounted s) (hmem : j ∈ s.work) (hjs : ∀ k ∈ js, k.task = j.task) :
    ∀ task ∈ (s.advance j js).tasks, (s.outbounds task.outboundTag).isSome = true := by
  intro task ht
  refine h.known task ?_
  simp only [tasks, Monitor.advance, List.map_append, List.mem_append, List.mem_map] at ht ⊢
  obtain ht | ⟨k, hk, rfl⟩ | ⟨k, hk, rfl⟩ := ht
  · exact .inl ht
  · exact .inr ⟨k, List.mem_of_mem_erase hk, rfl⟩
  · exact .inr ⟨j, hmem, (hjs k hk).symm⟩

/-- A job goes on, and owes what it owed. -/
theorem advance (h : Accounted s) (hmem : j ∈ s.work)
    (howes : ∀ ch, js.countP (owes ch) = if owes ch j then 1 else 0)
    (hjs : ∀ k ∈ js, k.task = j.task) : Accounted (s.advance j js) := by
  refine h.congr (fun ch => ?_) rfl rfl rfl (fun _ => .inl) (h.known_advance hmem hjs)
  have hadvance := @owed_advance s j js hmem ch
  rw [howes] at hadvance
  exact Nat.add_right_cancel hadvance

/-- A task of an outbound there is goes to its queue. -/
theorem known_push (hknown : ∀ task ∈ s.tasks, (s.outbounds task.outboundTag).isSome = true)
    (hsome : (s.outbounds task.outboundTag).isSome = true) :
    ∀ t ∈ (s.push task).tasks, (s.outbounds t.outboundTag).isSome = true := by
  intro t ht
  have hcases : t = task ∨ t ∈ s.tasks := by
    unfold tasks Monitor.push at ht
    split at ht <;> simp only [List.mem_append, List.mem_singleton, tasks] at ht ⊢ <;> tauto
  obtain rfl | ht := hcases
  · exact hsome
  · exact hknown t ht

/-- **A task that owes nothing is submitted.** -/
theorem enqueueTask (h : Accounted s) (hch : task.resultCh = none) :
    Accounted (s.enqueueTask task).1 := by
  have hsubmitted := s.submitted task
  generalize s.enqueueTask task = result at hsubmitted
  cases hsubmitted with
  | closed | unknown | kept => exact h
  | full => exact h.modify _ _
  | queued hsome =>
    have hmodify := h.modify task.outboundTag fun st => mark st task
    refine hmodify.congr (fun ch => ?_) (push_results ..) (push_channels ..) (push_cycle ..)
      (fun t ht => .inl (push_requests _ task ▸ ht)) ?_
    · rw [owed_push]
      simp [carries, hch]
    · rw [push_outbounds]
      exact known_push hmodify.known (by rw [isSome_modify]; exact hsome)

/-- A task without a channel may be dropped. -/
theorem drop (h : Accounted s) (hmem : j ∈ s.work) (hch : j.task.resultCh = none) :
    Accounted (s.advance j []) := by
  refine h.advance hmem (fun ch => ?_) (by simp)
  simp [owes, carries, hch]

/-- A task that was asleep is submitted again: it owes what it owed if it is queued. -/
theorem requeue (h : Accounted s) (hdone : s.done = false) (hmem : j ∈ s.work)
    (hphase : j.phase = .delayed)
    (hkept : j.task.resultCh.isSome = true →
      ((s.advance j []).enqueueTask { j.task with cycleID := j.task.cycleID + 1 }).2 = true) :
    Accounted (s.requeue j) := by
  have hnone : ∀ b, (j.task.resultCh.isSome = true → b = true) → b = false →
      j.task.resultCh = none := by
    intro b himp hb
    by_contra hsome
    exact absurd (himp (Option.isSome_iff_ne_none.mpr hsome)) (by simp [hb])
  have hknown : (s.outbounds j.task.outboundTag).isSome = true :=
    h.known j.task (List.mem_append_right _ (List.mem_map_of_mem hmem))
  rw [Monitor.requeue, hdone]
  simp only [Bool.false_eq_true, if_false]
  have hsubmitted := (s.advance j []).submitted { j.task with cycleID := j.task.cycleID + 1 }
  generalize (s.advance j []).enqueueTask _ = result at hsubmitted hkept
  cases hsubmitted with
  | closed hclosed => exact absurd (hdone.symm.trans hclosed) (by simp)
  | unknown hunknown =>
    have hunknown : s.outbounds j.task.outboundTag = none := hunknown
    rw [hunknown] at hknown
    cases hknown
  | kept => exact h.drop hmem (hnone _ hkept rfl)
  | full => exact (h.drop hmem (hnone _ hkept rfl)).modify _ _
  | queued =>
    refine h.congr (fun ch => ?_) (push_results ..) (push_channels ..) (push_cycle ..)
      (fun t ht => .inl (by rw [push_requests] at ht; exact ht)) ?_
    · have hadvance := @owed_advance s j [] hmem ch
      have howes : owes ch j = carries ch { j.task with cycleID := j.task.cycleID + 1 } := by
        rw [owes, hphase]
        rfl
      rw [howes] at hadvance
      exact (owed_push ..).trans hadvance
    · rw [push_outbounds]
      refine known_push (fun t ht => ?_) ?_
      · rw [isSome_modify]
        have hdrop : ∀ k ∈ ([] : List Job), k.task = j.task := by simp
        exact h.known_advance hmem hdrop t ht
      · rw [isSome_modify]
        exact hknown

/-- **An outcome is sent**: there is room for it, because it was owed. -/
theorem room_of_owes (h : Accounted s) (hmem : j ∈ s.work) (howes : owes ch j = true) :
    s.owed ch = 1 ∧ s.results ch = [] := by
  have hpos : 0 < s.work.countP (owes ch) := List.countP_pos_iff.mpr ⟨j, hmem, howes⟩
  have honce := h.once ch
  have howed : 0 < s.owed ch := Nat.lt_of_lt_of_le hpos (Nat.le_add_left ..)
  rw [resultCapacity] at honce
  exact ⟨by omega, List.eq_nil_of_length_eq_zero (by omega)⟩

@[inherit_doc room_of_owes] theorem send (h : Accounted s) (hmem : j ∈ s.work) {failed : Bool}
    (howes : owes ch j = true) (hjs : ∀ k ∈ js, k.task = j.task ∧ k.phase.unsent = false) :
    Accounted ((s.send ch failed).advance j js) := by
  obtain ⟨hone, hempty⟩ := h.room_of_owes hmem howes
  have hcarries : j.task.resultCh = some ch := by
    simpa [carries] using (Bool.and_eq_true_iff.mp howes).2
  have hsent : ∀ c, js.countP (owes c) = 0 := by
    intro c
    refine List.countP_eq_zero.mpr fun k hk => ?_
    simp [owes, (hjs k hk).2]
  have howed : ∀ c, ((s.send ch failed).advance j js).owed c + (if c = ch then 1 else 0) =
      s.owed c := by
    intro c
    have hadvance := @owed_advance (s.send ch failed) j js hmem c
    have hunsent := (Bool.and_eq_true_iff.mp howes).1
    have heq : owes c j = decide (c = ch) := by
      simp [owes, carries, hunsent, hcarries, eq_comm]
    have hsame : (s.send ch failed).owed c = s.owed c := rfl
    rw [hsent, heq, hsame] at hadvance
    simpa using hadvance
  have hlength : ∀ c, (((s.send ch failed).advance j js).results c).length =
      (s.results c).length + if c = ch then 1 else 0 := by
    intro c
    by_cases hc : c = ch
    · subst hc
      simp [Monitor.advance, Monitor.send]
    · simp [Monitor.advance, Monitor.send, hc]
  have hsum : ∀ c, ((s.send ch failed).advance j js).owed c +
      (((s.send ch failed).advance j js).results c).length =
        s.owed c + (s.results c).length := by
    intro c
    rw [hlength, ← howed c]
    omega
  constructor
  case promised =>
    intro c
    rw [hsum]
    exact h.promised c
  case once =>
    intro c
    rw [hsum]
    exact h.once c
  case unused =>
    intro c hc
    have hzero := h.unused c hc
    have hle := howed c
    omega
  case submitting =>
    intro cycleID tag idx c hcycle
    obtain ⟨hlt, hzero, hnil⟩ := h.submitting cycleID tag idx c hcycle
    have hne : c ≠ ch := fun heq => by rw [heq, hone] at hzero; cases hzero
    have hle := howed c
    refine ⟨hlt, by omega, List.eq_nil_of_length_eq_zero ?_⟩
    rw [hlength, hnil, if_neg hne]
    rfl
  case requests => exact h.requests
  case known =>
    exact known_advance (s := s) h hmem fun k hk => (hjs k hk).1

/-- A stage goes on to wait for nothing, -/
theorem waits (h : Accounted s) (cycleID : ℕ) (tag : String) (idx ch : ℕ) :
    Accounted { s with cycle := .waiting cycleID tag idx ch 0 [] } where
  promised c := by simp [Monitor.promised]
  once := h.once
  unused := h.unused
  submitting _ _ _ _ hcycle := by cases hcycle
  requests := h.requests
  known := h.known

variable {tag : String}

/-- …or for the task it has submitted, on a channel of its own. -/
theorem expects (h : Accounted s) {cycleID idx : ℕ}
    (hcycle : s.cycle = .submitting cycleID tag idx ch)
    (howed : ∀ c, s'.owed c = s.owed c + if c = ch then 1 else 0)
    (hresults : s'.results = s.results) (hchannels : s'.channels = s.channels)
    (hrequests : s'.requests = s.requests)
    (hknown : ∀ task ∈ s'.tasks, (s'.outbounds task.outboundTag).isSome = true) :
    Accounted { s' with cycle := .waiting cycleID tag idx ch 1 [] } := by
  obtain ⟨hlt, hzero, hnil⟩ := h.submitting cycleID tag idx ch hcycle
  have howed' : ∀ c, ({ s' with cycle := .waiting cycleID tag idx ch 1 [] } : Monitor).owed c =
      s.owed c + if c = ch then 1 else 0 := howed
  constructor
  case promised =>
    intro c
    rw [howed']
    by_cases hc : c = ch
    · subst hc
      simp only [Monitor.promised, if_true]
      omega
    · have hc' : ¬ ch = c := fun heq => hc heq.symm
      simp [Monitor.promised, hc']
  case once =>
    intro c
    rw [howed', hresults]
    by_cases hc : c = ch
    · subst hc
      simp [hzero, hnil, resultCapacity]
    · simpa [hc] using h.once c
  case unused =>
    intro c hc
    rw [hchannels] at hc
    rw [howed', if_neg (by omega)]
    exact h.unused c hc
  case submitting => exact fun _ _ _ _ hc => by cases hc
  case requests =>
    rw [hrequests]
    exact h.requests
  case known => exact hknown

/-- **A stage submits its task.** -/
theorem submit (h : Accounted s) {cycleID idx : ℕ}
    (hcycle : s.cycle = .submitting cycleID tag idx ch) :
    Accounted (s.submit cycleID tag idx ch) := by
  unfold Monitor.submit
  split
  · exact h.waits ..
  · have hsubmitted := s.submitted ⟨tag, cycleID, false, some ch⟩
    generalize s.enqueueTask ⟨tag, cycleID, false, some ch⟩ = result at hsubmitted
    cases hsubmitted with
    | closed | unknown | kept => exact h.waits ..
    | full => exact (h.modify _ _).waits ..
    | queued hsome =>
      have hmodify := h.modify tag fun st => mark st ⟨tag, cycleID, false, some ch⟩
      refine h.expects hcycle (fun c => ?_) (push_results ..) (push_channels ..) (push_requests ..) ?_
      · have hcarries : carries c ⟨tag, cycleID, false, some ch⟩ = decide (c = ch) := by
          simp [carries, eq_comm]
        have hsame : (s.modifyOutbound tag fun st => mark st ⟨tag, cycleID, false, some ch⟩).owed c =
            s.owed c := rfl
        rw [owed_push, hcarries, hsame]
        simp
      · rw [push_outbounds]
        exact known_push hmodify.known (by rw [isSome_modify]; exact hsome)

/-- A stage makes its channel. -/
theorem choose (h : Accounted s) (cycleID : ℕ) (tag : String) (idx : ℕ) (selected : String) :
    Accounted (s.choose cycleID tag idx selected) := by
  unfold Monitor.choose
  split
  · exact ⟨fun c => by simp [Monitor.promised], h.once, h.unused, fun _ _ _ _ hc => (by cases hc),
      h.requests, h.known⟩
  · have hfresh : s.owed s.channels = 0 := h.unused _ (Nat.le_refl _)
    constructor
    case promised => exact fun c => by simp [Monitor.promised]
    case once =>
      intro c
      by_cases hc : c = s.channels
      · subst hc
        show s.owed s.channels + (Function.update s.results s.channels [] s.channels).length ≤ _
        simp [hfresh]
      · show s.owed c + (Function.update s.results s.channels [] c).length ≤ _
        rw [Function.update_of_ne hc]
        exact h.once c
    case unused => exact fun c hc => h.unused c (Nat.le_of_succ_le hc)
    case submitting =>
      intro _ _ _ c hc
      cases hc
      exact ⟨Nat.lt_succ_self _, hfresh, Function.update_self ..⟩
    case requests => exact h.requests
    case known => exact h.known

/-- The stage receives an outcome. -/
theorem receive (h : Accounted s) {cycleID idx expected : ℕ} {results rest : List Bool}
    {failed : Bool} (hcycle : s.cycle = .waiting cycleID tag idx ch (expected + 1) results)
    (hresults : s.results ch = failed :: rest) :
    Accounted { s with
      cycle := .waiting cycleID tag idx ch expected (results ++ [failed])
      results := Function.update s.results ch rest } := by
  have hpromised : expected + 1 ≤ s.owed ch + (rest.length + 1) := by
    have hch := h.promised ch
    rw [Monitor.promised, hcycle, hresults] at hch
    simpa using hch
  constructor
  case promised =>
    intro c
    by_cases hc : c = ch
    · subst hc
      show (if c = c then expected else 0) ≤ s.owed c + (Function.update s.results c rest c).length
      rw [if_pos rfl, Function.update_self]
      omega
    · have hc' : ¬ ch = c := fun heq => hc heq.symm
      simp [Monitor.promised, hc']
  case once =>
    intro c
    show s.owed c + (Function.update s.results ch rest c).length ≤ _
    have honce := h.once c
    by_cases hc : c = ch
    · subst hc
      rw [hresults] at honce
      rw [Function.update_self]
      exact Nat.le_trans (Nat.add_le_add_left (Nat.le_succ _) _) honce
    · rw [Function.update_of_ne hc]
      exact honce
  case unused => exact h.unused
  case submitting => exact fun _ _ _ _ hc => by cases hc
  case requests => exact h.requests
  case known => exact h.known

/-- The cycle is somewhere it neither submits nor waits. -/
theorem elsewhere (h : Accounted s) {cycle : Cycle} (cycleSeq : ℕ)
    (hsubmitting : ∀ cycleID tag idx ch, cycle ≠ .submitting cycleID tag idx ch)
    (hwaiting : ∀ cycleID tag idx ch expected results,
      cycle ≠ .waiting cycleID tag idx ch expected results) :
    Accounted { s with cycle := cycle, cycleSeq := cycleSeq } where
  promised c := by
    unfold Monitor.promised
    split
    · exact absurd (by assumption) (hwaiting _ _ _ _ _ _)
    · exact Nat.zero_le _
  once := h.once
  unused := h.unused
  submitting _ _ _ _ hcycle := absurd hcycle (hsubmitting _ _ _ _)
  requests := h.requests
  known := h.known

/-- A worker takes a task from a queue. -/
theorem take (h : Accounted s) {priorityQueue normalQueue : List TestTask}
    (hperm : (task :: (priorityQueue ++ normalQueue)).Perm (s.priorityQueue ++ s.normalQueue)) :
    Accounted { s with
      priorityQueue := priorityQueue
      normalQueue := normalQueue
      work := s.work ++ [⟨task, .taken⟩] } := by
  refine h.congr (fun ch => ?_) rfl rfl rfl (fun _ => .inl) fun t ht => h.known t ?_
  · have hcount := hperm.countP_eq (carries ch)
    have howes : owes ch ⟨task, .taken⟩ = carries ch task := rfl
    simp only [List.countP_cons, List.countP_append] at hcount
    simp only [owed, List.countP_append, List.countP_singleton, howes]
    omega
  · have hmem : t ∈ task :: (priorityQueue ++ normalQueue) ∨ t ∈ s.work.map Job.task := by
      simp only [tasks, List.map_append, List.mem_append, List.map_singleton,
        List.mem_singleton] at ht
      simp only [List.mem_cons, List.mem_append]
      tauto
    rw [tasks, List.mem_append]
    exact hmem.imp_left fun ht => hperm.subset ht

/-! ### Steps -/

theorem proceed (h : Accounted s) (cfg : Config) {r : Request} (hr : r ∈ s.requests) :
    Accounted (s.proceed cfg r) := by
  have hdrop : Accounted { s with requests := s.requests.erase r } :=
    h.congr (fun _ => rfl) rfl rfl rfl (fun _ ht => .inl (List.mem_of_mem_erase ht)) h.known
  have hadd : ∀ l : List Request, (∀ task, .made task ∈ l → task.resultCh = none) →
      Accounted { s with requests := s.requests.erase r ++ l } := by
    intro l hl
    refine h.congr (fun _ => rfl) rfl rfl rfl (fun task ht => ?_) h.known
    exact (List.mem_append.mp ht).imp List.mem_of_mem_erase (hl task)
  unfold Monitor.proceed
  split
  · split
    · exact hadd _ (by simp)
    · split
      · exact hadd _ (by simp)
      · exact hdrop
  · refine hadd _ fun task ht => ?_
    cases List.mem_singleton.mp ht
    rfl
  · exact hdrop.enqueueTask (h.requests _ hr)

theorem execute (h : Accounted s) (hdone : s.done = false) (hmem : j ∈ s.work)
    (hphase : j.phase = .taken) (selected : String) : Accounted (s.execute j selected) := by
  have hknown : (s.outbounds j.task.outboundTag).isNone = false := by
    have hsome := h.known j.task (List.mem_append_right _ (List.mem_map_of_mem hmem))
    simpa using hsome
  unfold Monitor.execute
  rw [hdone, hknown]
  simp only [Bool.false_eq_true, if_false]
  split
  · exact (h.modify ..).advance hmem
      (fun ch => by simp [owes, hphase, Phase.unsent, List.countP_singleton]) (by simp)
  · exact (h.modify ..).advance hmem
      (fun ch => by simp [owes, hphase, Phase.unsent, List.countP_singleton]) (by simp)

theorem look (h : Accounted s) (hmem : j ∈ s.work) (hphase : j.phase = .testing) (ready : Bool) :
    Accounted (s.look j ready) := by
  unfold Monitor.look
  split
  · exact h.advance hmem (fun ch => by simp [owes, hphase, Phase.unsent, List.countP_cons])
      (by simp)
  · exact h.advance hmem (fun ch => by simp [owes, hphase, Phase.unsent, List.countP_singleton])
      (by simp)

theorem tested (h : Accounted s) (hmem : j ∈ s.work) (hphase : j.phase = .probing) (failed : Bool) :
    Accounted ((s.applyResult j.task.outboundTag failed).advance j [⟨j.task, .applied failed⟩]) := by
  unfold Monitor.applyResult
  split
  · exact h.advance hmem (fun ch => by simp [owes, hphase, Phase.unsent, List.countP_singleton])
      (by simp)
  · exact (h.modify ..).advance hmem
      (fun ch => by simp [owes, hphase, Phase.unsent, List.countP_singleton]) (by simp)

/-- **The stage is told**: the channel has room. -/
theorem report (h : Accounted s) (hmem : j ∈ s.work) (hr : s.report j = some s') : Accounted s' := by
  unfold Monitor.report at hr
  split at hr
  case h_1 hphase =>
    split at hr
    case h_1 hch => exact Option.some.inj hr ▸ h.drop hmem hch
    case h_2 ch hch =>
      have howes : owes ch j = true := by simp [owes, carries, hphase, hch, Phase.unsent]
      rw [(h.room_of_owes hmem howes).2] at hr
      exact Option.some.inj hr ▸ h.send hmem howes (by simp)
  case h_2 failed hphase =>
    split at hr
    case h_1 hch =>
      refine Option.some.inj hr ▸ h.advance hmem (fun ch => ?_) (by simp)
      simp [owes, carries, hch]
    case h_2 ch hch =>
      have howes : owes ch j = true := by simp [owes, carries, hphase, hch, Phase.unsent]
      rw [(h.room_of_owes hmem howes).2] at hr
      exact Option.some.inj hr ▸ h.send hmem howes (by simp [Phase.unsent])
  case h_3 => cases hr

end Accounted

/-- **Is this not a step that loses an outcome?**  The monitor is not closed, and a task with a
channel that was asleep finds room in its queue, and not the mark of its new number. -/
def faithful (s : Monitor) (e : Event) : Bool :=
  !s.done &&
    match e with
    | .requeue j =>
      j.task.resultCh.isNone || s.room j.task.priority &&
        !(s.outbounds j.task.outboundTag).any fun st =>
          marked st { j.task with cycleID := j.task.cycleID + 1 }
    | _ => true

/-- A submission that finds room and no mark is queued. -/
theorem queued_of_room (hdone : s.done = false) (hroom : s.room task.priority = true)
    (hsome : (s.outbounds task.outboundTag).isSome = true)
    (hmark : (s.outbounds task.outboundTag).any (fun st => marked st task) = false) :
    (s.enqueueTask task).2 = true := by
  have hsubmitted := s.submitted task
  generalize s.enqueueTask task = result at hsubmitted
  cases hsubmitted with
  | closed hclosed => exact absurd (hdone.symm.trans hclosed) (by simp)
  | unknown hnone => rw [hnone] at hsome; cases hsome
  | kept hst hmarked => rw [hst, Option.any_some, hmarked] at hmark; cases hmark
  | full hfull => exact absurd (hroom.symm.trans hfull) (by simp)
  | queued => rfl

/-- **One step loses no outcome**, unless it is one of those. -/
theorem Accounted.step (h : Accounted s) {cfg : Config} {e : Event} (hf : s.faithful e = true)
    (hs : s.step cfg e = some s') : Accounted s' := by
  obtain ⟨hopen, hf⟩ := Bool.and_eq_true_iff.mp hf
  have hdone : s.done = false := by simpa using hopen
  have hidle : ∀ seq, Accounted { s with cycle := .idle, cycleSeq := seq } :=
    fun seq => h.elsewhere seq (by simp) (by simp)
  cases e with
  | testNow outboundTag selected =>
    obtain rfl := Option.some.inj hs
    unfold Monitor.testNow
    split
    · exact h.congr (fun _ => rfl) rfl rfl rfl (fun task ht => .inl (by simpa using ht)) h.known
    · exact h
  | invalidateTest outboundTag selected =>
    obtain rfl := Option.some.inj hs
    unfold Monitor.invalidateTest
    split
    · have hmodify := h.modify outboundTag fun st => { st with invalid := true }
      exact h.congr (fun _ => rfl) rfl rfl rfl (fun task ht => .inl (by simpa using ht)) hmodify.known
    · exact h
  | proceed r =>
    obtain ⟨hr, hs⟩ := Option.ite_none_right_eq_some.mp hs
    exact Option.some.inj hs ▸ h.proceed cfg hr
  | startCycle =>
    simp only [Monitor.step] at hs
    split at hs
    · exact Option.some.inj hs ▸ h.elsewhere s.cycleSeq (by simp) (by simp)
    · exact Option.some.inj hs ▸ h
  | countCycle =>
    simp only [Monitor.step] at hs
    split at hs
    · exact Option.some.inj hs ▸ h.elsewhere (s.cycleSeq + 1) (by simp) (by simp)
    · cases hs
  | collect selected due =>
    simp only [Monitor.step] at hs
    split at hs
    · split at hs
      · exact Option.some.inj hs ▸ hidle s.cycleSeq
      · exact Option.some.inj hs ▸ h.elsewhere s.cycleSeq (by simp) (by simp)
    · cases hs
  | choose selected =>
    simp only [Monitor.step] at hs
    split at hs
    · exact Option.some.inj hs ▸ h.choose ..
    · cases hs
  | submit =>
    simp only [Monitor.step] at hs
    split at hs
    case h_1 hcycle => exact Option.some.inj hs ▸ h.submit hcycle
    case h_2 => cases hs
  | receive =>
    simp only [Monitor.step] at hs
    split at hs
    case h_1 hcycle =>
      split at hs
      · cases hs
      case h_2 hresults => exact Option.some.inj hs ▸ h.receive hcycle hresults
    case h_2 => cases hs
  | endStage =>
    simp only [Monitor.step] at hs
    split at hs
    · obtain ⟨-, hs⟩ := Option.ite_none_right_eq_some.mp hs
      obtain rfl := Option.some.inj hs
      unfold Monitor.endStage
      split
      · exact hidle s.cycleSeq
      · exact h.elsewhere s.cycleSeq (by simp) (by simp)
    · cases hs
  | takePriority =>
    simp only [Monitor.step] at hs
    split at hs
    · cases hs
    case h_2 task rest hq =>
      exact Option.some.inj hs ▸ h.take (by rw [hq, List.cons_append])
  | takeNormal =>
    simp only [Monitor.step] at hs
    split at hs
    · cases hs
    case h_2 task rest hq =>
      refine Option.some.inj hs ▸ h.take ?_
      rw [hq]
      exact List.perm_middle.symm
  | execute j selected =>
    obtain ⟨⟨hmem, hphase⟩, hs⟩ := Option.ite_none_right_eq_some.mp hs
    exact Option.some.inj hs ▸ h.execute hdone hmem hphase selected
  | look j ready =>
    obtain ⟨⟨hmem, hphase⟩, hs⟩ := Option.ite_none_right_eq_some.mp hs
    exact Option.some.inj hs ▸ h.look hmem hphase ready
  | tested j failed =>
    obtain ⟨⟨hmem, hphase⟩, hs⟩ := Option.ite_none_right_eq_some.mp hs
    exact Option.some.inj hs ▸ h.tested hmem hphase failed
  | report j =>
    obtain ⟨hmem, hs⟩ := Option.ite_none_right_eq_some.mp hs
    exact h.report hmem hs
  | leave j =>
    obtain ⟨⟨hmem, hphase⟩, hs⟩ := Option.ite_none_right_eq_some.mp hs
    refine Option.some.inj hs ▸ (h.modify ..).advance hmem (fun ch => ?_) (by simp)
    simp [owes, hphase, Phase.unsent]
  | requeue j =>
    obtain ⟨⟨hmem, hphase⟩, hs⟩ := Option.ite_none_right_eq_some.mp hs
    refine Option.some.inj hs ▸ h.requeue hdone hmem hphase fun hsome => ?_
    have hknown : (s.outbounds j.task.outboundTag).isSome = true :=
      h.known j.task (List.mem_append_right _ (List.mem_map_of_mem hmem))
    obtain hnone | hf := Bool.or_eq_true_iff.mp hf
    · rw [Option.isNone_iff_eq_none.mp hnone] at hsome
      cases hsome
    · obtain ⟨hroom, hmark⟩ := Bool.and_eq_true_iff.mp hf
      have hunmarked : (s.outbounds j.task.outboundTag).any (fun st =>
          marked st { j.task with cycleID := j.task.cycleID + 1 }) = false := by simpa using hmark
      exact queued_of_room hdone hroom hknown hunmarked
  | cancel =>
    exact Option.some.inj hs ▸ h.congr (fun _ => rfl) rfl rfl rfl (fun _ => .inl) h.known

/-! ## Runs -/

/-- A worker takes the first task, and finds the outbound not ready. -/
def sleeps (task : TestTask) : List Event :=
  [.takeNormal, .execute ⟨task, .taken⟩ "a", .look ⟨task, .testing⟩ false, .leave ⟨task, .leaving⟩]

/-- A task of a request without priority, in this cycle by its own count; one with priority; and one
of a stage. -/
def requested (cycleID : ℕ) : TestTask := ⟨"a", cycleID, false, none⟩
@[inherit_doc requested] def urgent : TestTask := ⟨"a", 1, true, none⟩
@[inherit_doc requested] def staged : TestTask := ⟨"a", 2, false, some 0⟩

/-- A cycle that finds nothing selected.  With nothing selected, all outbounds are to be tested: one
task, which finds its outbound not ready, twice.  The outbound is selected, its test is invalidated
and fails, which clears the marks while that task sleeps. -/
def ahead : List Event :=
  [.startCycle, .countCycle, .collect "" false, .testNow "" "", .proceed (.asked "" true),
    .proceed (.asked "a" false), .proceed (.found "a" false), .proceed (.made (requested 1))] ++
  sleeps (requested 1) ++ [.requeue ⟨requested 1, .delayed⟩] ++ sleeps (requested 2) ++
  [.invalidateTest "a" "a", .proceed (.found "a" true), .proceed (.made urgent), .takePriority,
    .execute ⟨urgent, .taken⟩ "a", .look ⟨urgent, .testing⟩ true, .tested ⟨urgent, .probing⟩ true,
    .report ⟨urgent, .applied true⟩, .leave ⟨urgent, .leaving⟩]

/-- The next cycle submits its task, which finds the outbound not ready. -/
def stageSleeps : List Event :=
  ahead ++ [.startCycle, .countCycle, .collect "a" false, .choose "a", .submit] ++ sleeps staged

/-- The other task wakes up first. -/
def stageLost : List Event :=
  stageSleeps ++ [.requeue ⟨requested 2, .delayed⟩, .requeue ⟨staged, .delayed⟩]

end Monitor

end PokrovCore.Monitoring
