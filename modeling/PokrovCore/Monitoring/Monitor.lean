import PokrovCore.Foundations.Machine
import Mathlib.Data.List.Count

/-!
# Monitoring/Monitor — testing outbounds, by cycles and on request

A cycle tests the selected outbound, once for every link until a test succeeds: a stage submits a
task and waits for its outcome on a channel of its own.  Requests submit tasks of their own, with
priority or without.  Workers take tasks from two queues; a task of an outbound that is not ready
goes to sleep, and is submitted again.

What keeps an outbound from being tested twice are marks: `priorityQueued`, and `queued` with the
cycle of the task.  A submission that finds its mark is dropped.  Marks are set as a task is
submitted, and cleared as its outcome is applied or as it is dismissed, because another outbound is
selected.

One step is one critical section of an outbound's mutex, or one operation on a channel.  What a step
finds outside of the monitor — the selection, whether an outbound is ready, how its test went — is
part of the event.
-/

namespace PokrovCore.Monitoring

/-- A test to be made; `resultCh` is the channel of the stage that waits for it. -/
structure TestTask where
  outboundTag : String
  cycleID : ℕ
  priority : Bool
  resultCh : Option ℕ
  deriving DecidableEq, Repr

structure OutboundState where
  invalid : Bool
  queued : Bool
  priorityQueued : Bool
  testing : Bool
  enqueuedCycle : ℕ
  deriving DecidableEq, Repr

/-- Where a task is that was taken from a queue: with a worker, before and after it has found the
outbound selected or not, has looked whether it is ready, and has its outcome applied; asleep, because
the outbound is not ready; or done with, but for the mark of the test. -/
inductive Phase
  | taken
  | dismissed
  | testing
  | probing
  | applied (failed : Bool)
  | leaving
  | delayed
  deriving DecidableEq, Repr

structure Job where
  task : TestTask
  phase : Phase
  deriving DecidableEq, Repr

/-- A request on its way: a call of `testNow`, for a group or an outbound; one whose outbound is
registered; one whose task is made. -/
inductive Request
  | asked (tag : String) (priority : Bool)
  | found (tag : String) (priority : Bool)
  | made (task : TestTask)
  deriving DecidableEq, Repr

/-- Where the goroutine of a cycle is, if there is one. -/
inductive Cycle
  | idle
  | started
  | collecting (cycleID : ℕ)
  | choosing (cycleID : ℕ) (tag : String) (idx : ℕ)
  | submitting (cycleID : ℕ) (tag : String) (idx resultCh : ℕ)
  | waiting (cycleID : ℕ) (tag : String) (idx resultCh expected : ℕ) (results : List Bool)
  deriving DecidableEq, Repr

/-- **The monitor.**  `results` are the channels of stages, allocated below `channels`: the outcomes
that were sent and not received, of which only the failure matters here. -/
structure Monitor where
  outbounds : String → Option OutboundState
  priorityQueue : List TestTask
  normalQueue : List TestTask
  work : List Job
  requests : List Request
  cycleSeq : ℕ
  cycle : Cycle
  results : ℕ → List Bool
  channels : ℕ
  done : Bool

/-- The groups there are, and how many links. -/
structure Config where
  groups : String → Option (List String)
  urls : ℕ

/-- The capacities of the two queues, and of the channel of a stage: it has one outbound. -/
def priorityCapacity : ℕ := 1000
@[inherit_doc priorityCapacity] def normalCapacity : ℕ := 10000
@[inherit_doc priorityCapacity] def resultCapacity : ℕ := 1

inductive Event
  | testNow (outboundTag selected : String)
  | invalidateTest (outboundTag selected : String)
  | proceed (r : Request)
  | startCycle
  | countCycle
  | collect (selected : String) (due : Bool)
  | choose (selected : String)
  | submit
  | receive
  | endStage
  | takePriority
  | takeNormal
  | execute (j : Job) (selected : String)
  | look (j : Job) (ready : Bool)
  | tested (j : Job) (failed : Bool)
  | report (j : Job)
  | leave (j : Job)
  | requeue (j : Job)
  | cancel
  deriving DecidableEq, Repr

namespace Monitor

/-- The monitor of some outbounds, all to be tested. -/
def initial (tags : List String) : Monitor where
  outbounds := fun tag =>
    if tag ∈ tags then some ⟨true, false, false, false, 0⟩ else none
  priorityQueue := []
  normalQueue := []
  work := []
  requests := []
  cycleSeq := 0
  cycle := .idle
  results := fun _ => []
  channels := 0
  done := false

def cycleRunning (s : Monitor) : Bool := s.cycle ≠ .idle

def modifyOutbound (s : Monitor) (tag : String) (φ : OutboundState → OutboundState) : Monitor :=
  { s with outbounds := Function.update s.outbounds tag ((s.outbounds tag).map φ) }

/-- A job becomes other ones. -/
def advance (s : Monitor) (j : Job) (js : List Job) : Monitor := { s with work := s.work.erase j ++ js }

/-- An outcome is sent. -/
def send (s : Monitor) (resultCh : ℕ) (failed : Bool) : Monitor :=
  { s with results := Function.update s.results resultCh (s.results resultCh ++ [failed]) }

/-! ## Submitting -/

/-- Has the queue of a task room? -/
def room (s : Monitor) (priority : Bool) : Bool :=
  if priority then s.priorityQueue.length < priorityCapacity
  else s.normalQueue.length < normalCapacity

/-- Is the mark of a task there already? -/
def marked (st : OutboundState) (task : TestTask) : Bool :=
  if task.priority then st.priorityQueued else st.enqueuedCycle = task.cycleID

/-- The mark of a task is set. -/
def mark (st : OutboundState) (task : TestTask) : OutboundState :=
  if task.priority then { st with priorityQueued := true }
  else { st with enqueuedCycle := task.cycleID, queued := true }

def push (s : Monitor) (task : TestTask) : Monitor :=
  if task.priority then { s with priorityQueue := s.priorityQueue ++ [task] }
  else { s with normalQueue := s.normalQueue ++ [task] }

section

variable (s : Monitor) (task : TestTask)

@[simp] theorem push_outbounds : (s.push task).outbounds = s.outbounds := by
  unfold push
  split <;> rfl

@[simp] theorem push_work : (s.push task).work = s.work := by
  unfold push
  split <;> rfl

@[simp] theorem push_requests : (s.push task).requests = s.requests := by
  unfold push
  split <;> rfl

@[simp] theorem push_cycle : (s.push task).cycle = s.cycle := by
  unfold push
  split <;> rfl

@[simp] theorem push_results : (s.push task).results = s.results := by
  unfold push
  split <;> rfl

@[simp] theorem push_channels : (s.push task).channels = s.channels := by
  unfold push
  split <;> rfl

end

/-- **A task is submitted**, and whether it is queued.  The mark is set before the queue turns out to
be full. -/
def enqueueTask (s : Monitor) (task : TestTask) : Monitor × Bool :=
  if s.done then (s, false)
  else
    match s.outbounds task.outboundTag with
    | none => (s, false)
    | some st =>
      if marked st task then (s, false)
      else
        let s := s.modifyOutbound task.outboundTag fun st => mark st task
        if s.room task.priority then (s.push task, true) else (s, false)

/-- **What becomes of a submission.** -/
inductive Submitted (s : Monitor) (task : TestTask) : Monitor × Bool → Prop
  | closed (hdone : s.done = true) : Submitted s task (s, false)
  | unknown (hnone : s.outbounds task.outboundTag = none) : Submitted s task (s, false)
  | kept {st : OutboundState} (hst : s.outbounds task.outboundTag = some st)
      (hmarked : marked st task = true) : Submitted s task (s, false)
  | full (hfull : s.room task.priority = false) :
      Submitted s task (s.modifyOutbound task.outboundTag fun st => mark st task, false)
  | queued (hsome : (s.outbounds task.outboundTag).isSome = true) :
      Submitted s task ((s.modifyOutbound task.outboundTag fun st => mark st task).push task, true)

theorem submitted (s : Monitor) (task : TestTask) : Submitted s task (s.enqueueTask task) := by
  unfold enqueueTask
  split
  case isTrue hdone => exact .closed hdone
  case isFalse hdone =>
    split
    case h_1 hnone => exact .unknown hnone
    case h_2 st hst =>
      split
      case isTrue hmarked => exact .kept hst hmarked
      case isFalse =>
        dsimp only
        split
        case isTrue => exact .queued (Option.isSome_of_eq_some hst)
        case isFalse hfull => exact .full (Bool.eq_false_iff.mpr hfull)

/-! ## Requests -/

/-- **A request goes on**: through the groups to their outbounds, and to a task of the cycle there
is. -/
def proceed (cfg : Config) (s : Monitor) (r : Request) : Monitor :=
  let rest := { s with requests := s.requests.erase r }
  match r with
  | .asked tag priority =>
    match cfg.groups tag with
    | some members =>
      { rest with requests := rest.requests ++ members.map fun tag => .asked tag false }
    | none =>
      if (s.outbounds tag).isSome then { rest with requests := rest.requests ++ [.found tag priority] }
      else rest
  | .found tag priority =>
    { rest with requests := rest.requests ++ [.made ⟨tag, s.cycleSeq, priority, none⟩] }
  | .made task => (rest.enqueueTask task).1

def testNow (s : Monitor) (outboundTag selected : String) : Monitor :=
  if outboundTag = selected then { s with requests := s.requests ++ [.asked outboundTag true] } else s

def invalidateTest (s : Monitor) (outboundTag selected : String) : Monitor :=
  if outboundTag = selected ∧ (s.outbounds outboundTag).isSome = true then
    { s.modifyOutbound outboundTag fun st => { st with invalid := true } with
      requests := s.requests ++ [.found outboundTag true] }
  else s

/-! ## Cycles -/

/-- The outbound of a cycle: the selected one, if nobody tests it, and if its test is `due`. -/
def collectCycleTargets (s : Monitor) (selected : String) (due : Bool) : Option String :=
  match s.outbounds selected with
  | none => none
  | some st =>
    if st.testing || st.queued || st.priorityQueued then none
    else if st.invalid || due then some selected
    else none

/-- A stage makes its channel, unless another outbound is selected by now. -/
def choose (s : Monitor) (cycleID : ℕ) (tag : String) (idx : ℕ) (selected : String) : Monitor :=
  if selected ≠ tag then { s with cycle := .idle }
  else
    { s with
      cycle := .submitting cycleID tag idx s.channels
      results := Function.update s.results s.channels []
      channels := s.channels + 1 }

/-- **A stage submits its task.** -/
def submit (s : Monitor) (cycleID : ℕ) (tag : String) (idx resultCh : ℕ) : Monitor :=
  match s.outbounds tag with
  | none => { s with cycle := .waiting cycleID tag idx resultCh 0 [] }
  | some _ =>
    let (s, queued) := s.enqueueTask ⟨tag, cycleID, false, some resultCh⟩
    { s with cycle := .waiting cycleID tag idx resultCh (if queued then 1 else 0) [] }

/-- A stage is over: another one for the next link, if there is one and no test has succeeded. -/
def endStage (cfg : Config) (s : Monitor) (cycleID : ℕ) (tag : String) (idx : ℕ)
    (results : List Bool) : Monitor :=
  if results.any (!·) || idx + 1 = cfg.urls then { s with cycle := .idle }
  else { s with cycle := .choosing cycleID tag (idx + 1) }

/-! ## Workers -/

/-- The marks a task clears as it is dismissed. -/
def dismiss (st : OutboundState) (task : TestTask) : OutboundState :=
  if task.priority then { st with priorityQueued := false }
  else if st.enqueuedCycle = task.cycleID then { st with queued := false, enqueuedCycle := 0 }
  else st

/-- **A worker begins with a task.** -/
def execute (s : Monitor) (j : Job) (selected : String) : Monitor :=
  if s.done then s.advance j []
  else if (s.outbounds j.task.outboundTag).isNone then s.advance j []
  else if j.task.outboundTag ≠ selected then
    (s.modifyOutbound j.task.outboundTag fun st => dismiss st j.task).advance j
      [⟨j.task, .dismissed⟩]
  else
    (s.modifyOutbound j.task.outboundTag fun st => { st with testing := true }).advance j
      [⟨j.task, .testing⟩]

/-- Is the outbound ready?  If it is not, the worker leaves and the task goes to sleep; in late cycles
this is not asked. -/
def look (s : Monitor) (j : Job) (ready : Bool) : Monitor :=
  if j.task.cycleID < 10 && !ready then s.advance j [⟨j.task, .delayed⟩, ⟨j.task, .leaving⟩]
  else s.advance j [⟨j.task, .probing⟩]

/-- **The outcome of a test is applied**: all marks of the outbound are cleared. -/
def applyResult (s : Monitor) (tag : String) (failed : Bool) : Monitor :=
  if s.done then s
  else
    s.modifyOutbound tag fun st =>
      { st with queued := false, priorityQueued := false, enqueuedCycle := 0, invalid := failed }

/-- The stage is told.  A dismissed task waits for room in the channel; an outcome is dropped if there
is none. -/
def report (s : Monitor) (j : Job) : Option Monitor :=
  match j.phase with
  | .dismissed =>
    match j.task.resultCh with
    | none => some (s.advance j [])
    | some ch =>
      if (s.results ch).length < resultCapacity then some ((s.send ch true).advance j [])
      else if s.done then some (s.advance j [])
      else none
  | .applied failed =>
    match j.task.resultCh with
    | none => some (s.advance j [⟨j.task, .leaving⟩])
    | some ch =>
      if (s.results ch).length < resultCapacity then
        some ((s.send ch failed).advance j [⟨j.task, .leaving⟩])
      else some (s.advance j [⟨j.task, .leaving⟩])
  | _ => none

/-- **A task wakes up**, in the next cycle by its own count, and is submitted again; nobody asks
whether it is queued. -/
def requeue (s : Monitor) (j : Job) : Monitor :=
  if s.done then s.advance j []
  else ((s.advance j []).enqueueTask { j.task with cycleID := j.task.cycleID + 1 }).1

/-! ## Runs -/

/-- One step of a job that is there, in that phase. -/
def working (s : Monitor) (j : Job) (phase : Phase) (next : Monitor) : Option Monitor :=
  if j ∈ s.work ∧ j.phase = phase then some next else none

def step (cfg : Config) (s : Monitor) : Event → Option Monitor
  | .testNow outboundTag selected => some (s.testNow outboundTag selected)
  | .invalidateTest outboundTag selected => some (s.invalidateTest outboundTag selected)
  | .proceed r => if r ∈ s.requests then some (s.proceed cfg r) else none
  | .startCycle =>
    match s.cycle with
    | .idle => some { s with cycle := .started }
    | _ => some s
  | .countCycle =>
    match s.cycle with
    | .started => some { s with cycleSeq := s.cycleSeq + 1, cycle := .collecting (s.cycleSeq + 1) }
    | _ => none
  | .collect selected due =>
    match s.cycle with
    | .collecting cycleID =>
      match s.collectCycleTargets selected due with
      | none => some { s with cycle := .idle }
      | some tag => some { s with cycle := .choosing cycleID tag 0 }
    | _ => none
  | .choose selected =>
    match s.cycle with
    | .choosing cycleID tag idx => some (s.choose cycleID tag idx selected)
    | _ => none
  | .submit =>
    match s.cycle with
    | .submitting cycleID tag idx resultCh => some (s.submit cycleID tag idx resultCh)
    | _ => none
  | .receive =>
    match s.cycle with
    | .waiting cycleID tag idx resultCh (expected + 1) results =>
      match s.results resultCh with
      | [] => none
      | failed :: rest =>
        some { s with
          cycle := .waiting cycleID tag idx resultCh expected (results ++ [failed])
          results := Function.update s.results resultCh rest }
    | _ => none
  | .endStage =>
    match s.cycle with
    | .waiting cycleID tag idx _ expected results =>
      if expected = 0 || s.done then some (s.endStage cfg cycleID tag idx results) else none
    | _ => none
  | .takePriority =>
    match s.priorityQueue with
    | [] => none
    | task :: rest => some { s with priorityQueue := rest, work := s.work ++ [⟨task, .taken⟩] }
  | .takeNormal =>
    match s.normalQueue with
    | [] => none
    | task :: rest => some { s with normalQueue := rest, work := s.work ++ [⟨task, .taken⟩] }
  | .execute j selected => s.working j .taken (s.execute j selected)
  | .look j ready => s.working j .testing (s.look j ready)
  | .tested j failed =>
    s.working j .probing
      ((s.applyResult j.task.outboundTag failed).advance j [⟨j.task, .applied failed⟩])
  | .report j => if j ∈ s.work then s.report j else none
  | .leave j =>
    s.working j .leaving
      ((s.modifyOutbound j.task.outboundTag fun st => { st with testing := false }).advance j [])
  | .requeue j => s.working j .delayed (s.requeue j)
  | .cancel => some { s with done := true }

end Monitor

/-- **The machine of a monitor.** -/
def machine (cfg : Config) : Machine Monitor Event Unit where
  step s e := (s.step cfg e).map fun s' => (s', ())

theorem step_of_machine {cfg : Config} {s s' : Monitor} {e : Event} {o : Unit}
    (hs : (machine cfg).step s e = some (s', o)) : s.step cfg e = some s' := by
  obtain ⟨_, hstep, hpair⟩ := Option.map_eq_some_iff.mp hs
  cases hpair
  exact hstep

end PokrovCore.Monitoring
