import PokrovCore.Daemon.JournalOperations
import PokrovCore.Foundations.Machine

/-!
# Daemon/JournalRuns — runs of the journal, with failing writes and crashes

Any workers, for any profiles, call the operations in any order; every access to the file may fail,
and the process may die between two calls, which loses everything but the file.  A `Ledger` is a
journal with two records of its history that no operation reads: the restrictions its live workers
have delivered and no acknowledgement has removed, and the contents it has exported.

`document_reloads` — whatever document a run leads to, a fresh process reads back what would be
written of it.
-/

namespace PokrovCore.Daemon

/-- A restriction as it is delivered to the journal. -/
inductive Delivery
  | policy (reason : Reason)
  | scope (scope : Digest) (action : ScopeAction)
  deriving DecidableEq

/-- A journal and its history. -/
structure Ledger where
  journal : Journal
  owed : Digest → List Delivery
  exported : List (List (Record × Bool))

namespace Ledger

/-- A process starts on a file. -/
def fresh (disk : Option (List Char)) : Ledger := ⟨Journal.fresh disk, fun _ => [], []⟩

/-- The calls on a journal, and the death of its process. -/
inductive Event
  | begin (p : Digest) (catalog : Option Digest) (expires : Option Date)
      (rand : Option Generation) (read write : Bool)
  | extendExpiry (p : Digest) (g : Generation) (expires : Date) (write : Bool)
  | retainRenewal (p : Digest) (g : Generation) (previous next : LeaseIdentity)
      (currentIDs : List (Hex 32)) (now : Sample) (write : Bool)
  | restrict (p : Digest) (g : Generation) (reason : Reason) (write : Bool)
  | restrictScope (p : Digest) (g : Generation) (scope : Digest) (action : ScopeAction)
      (write : Bool)
  | finish (p : Digest) (g : Generation) (write : Bool)
  | readRestrictions (read write : Bool)
  | acknowledge (snapshotSHA256 : String) (read write again : Bool)
  | crash

/-- What a call answers. -/
inductive Output
  | begun (answer : Except JournalError Generation)
  | kept (answer : Except JournalError Unit)
  | exported (answer : Except JournalError (List Char))
  | acknowledged (answer : Except JournalError Bool)
  | silent
  deriving DecidableEq

/-- A delivery counts if it comes from the live worker of the profile. -/
def deliver (p : Digest) (g : Generation) (d : Delivery) (w : Ledger) : Digest → List Delivery :=
  if w.journal.live p = some g then Function.update w.owed p (d :: w.owed p) else w.owed

/-- What stays owed once a snapshot is acknowledged. -/
def remaining (j : Journal) (owed : Digest → List Delivery) (p : Digest) : List Delivery :=
  if (Journal.lookup p j.records).isSome then owed p else []

/-- **One call.** -/
def step (sha256 : List Char → Digest) (w : Ledger) : Event → Ledger × Output
  | .begin p catalog expires rand read write =>
    let (j, a) := w.journal.begin p catalog expires rand read write
    ({ w with journal := j }, .begun a)
  | .extendExpiry p g expires write =>
    let (j, a) := w.journal.extendExpiry p g expires write
    ({ w with journal := j }, .kept a)
  | .retainRenewal p g previous next currentIDs now write =>
    let (j, a) := w.journal.retainRenewal p g previous next currentIDs now write
    ({ w with journal := j }, .kept a)
  | .restrict p g reason write =>
    ({ w with journal := w.journal.restrict p g reason write,
              owed := w.deliver p g (.policy reason) }, .silent)
  | .restrictScope p g scope action write =>
    ({ w with journal := w.journal.restrictScope p g scope action write,
              owed := w.deliver p g (.scope scope action) }, .silent)
  | .finish p g write => ({ w with journal := w.journal.finish p g write }, .silent)
  | .readRestrictions read write =>
    match w.journal.snapshotLocked sha256 read write with
    | (j, .ok (encoded, _)) =>
      ({ w with journal := j, exported := j.content :: w.exported }, .exported (.ok encoded))
    | (j, .error e) => ({ w with journal := j }, .exported (.error e))
  | .acknowledge snapshotSHA256 read write again =>
    match w.journal.acknowledge sha256 snapshotSHA256 read write again with
    | (j, .ok true) =>
      ({ w with journal := j, owed := remaining j w.owed }, .acknowledged (.ok true))
    | (j, a) => ({ w with journal := j }, .acknowledged a)
  | .crash => ({ w with journal := Journal.fresh w.journal.disk }, .silent)

/-- The runs of a journal. -/
def machine (sha256 : List Char → Digest) : Machine Ledger Event Output where
  step w e := some (step sha256 w e)

theorem machine_step {sha256 : List Char → Digest} {w w' : Ledger} {e : Event} {o : Output}
    (h : (machine sha256).step w e = some (w', o)) : step sha256 w e = (w', o) :=
  Option.some.inj h

/-- A profile, a worker's generation and a date to run the journal on. -/
def sampleProfile : Digest := ⟨String.ofList (List.replicate 64 'a'), by decide +kernel⟩
def sampleGeneration : Generation := ⟨String.ofList (List.replicate 32 'b'), by decide +kernel⟩
def sampleExpiry : Date := ⟨64000000000, by decide⟩

/-- A worker begins and restricts one scope and then the profile, the last without a write. -/
def sampleRun : List Event :=
  [.begin sampleProfile none (some sampleExpiry) (some sampleGeneration) true true,
    .restrictScope sampleProfile sampleGeneration sampleProfile .drain true,
    .restrict sampleProfile sampleGeneration .accessDenied false]

/-! ## What a step does to the journal -/

open Journal (Changes Wf Written)

variable {sha256 : List Char → Digest} {w w' : Ledger} {e : Event} {o : Output}

/-- The ways a journal gets from one call to the next. -/
inductive Move (j : Journal) : Journal → Prop
  | changes {j' : Journal} (h : Changes j j') : Move j j'
  | handOver {j' : Journal} {disk : Option (List Char)} (h : Changes j j')
      (loaded : j'.loaded = true) (written : Written j'.handOver.records disk) :
    Move j { j'.handOver with disk := disk }
  | crash : Move j (Journal.fresh j.disk)

theorem acknowledge_move (sha256 : List Char → Digest) (h : String) (read write again : Bool) (j : Journal) :
    Move j (j.acknowledge sha256 h read write again).1 := by
  rcases Journal.acknowledge_cases sha256 h read write again j with
    ⟨e, h⟩ | ⟨j₁, hload, ⟨e, h⟩ | ⟨disk, hw, ⟨a, _, h⟩ | ⟨disk', _, hw', h⟩⟩⟩
  · rw [h]
    exact .changes .refl
  · rw [h]
    exact .changes (Journal.loadLocked_changes hload).1
  · rw [h]
    obtain ⟨hc, hl, _⟩ := Journal.loadLocked_changes hload
    exact .changes (hc.tail (.flush hl hw))
  · rw [h]
    obtain ⟨hc, hl, _⟩ := Journal.loadLocked_changes hload
    exact .handOver hc hl hw'

theorem step_move (sha256 : List Char → Digest) (hw : w.journal.Wf) (e : Event) :
    Move w.journal (step sha256 w e).1.journal := by
  cases e with
  | begin p catalog expires rand read write =>
    exact .changes (Journal.begin_changes p catalog expires rand read write w.journal)
  | extendExpiry p g expires write =>
    exact .changes (Journal.extendExpiry_changes p g expires write w.journal)
  | retainRenewal p g previous next currentIDs now write =>
    exact .changes
      (Journal.retainRenewal_changes p g previous next currentIDs now write w.journal)
  | restrict p g reason write =>
    exact .changes (Journal.restrict_changes p g reason write w.journal)
  | restrictScope p g scope action write =>
    exact .changes (Journal.restrictScope_changes p g scope action write w.journal hw.loadable)
  | finish p g write => exact .changes (Journal.finish_changes p g write w.journal hw)
  | readRestrictions read write =>
    have hc := Journal.snapshotLocked_changes sha256 read write w.journal
    dsimp only [step]
    split <;> rename_i heq <;> rw [heq] at hc <;> exact .changes hc
  | acknowledge h read write again =>
    have hm := acknowledge_move sha256 h read write again w.journal
    dsimp only [step]
    split <;> rename_i heq <;> rw [heq] at hm <;> exact hm
  | crash => exact .crash

theorem Move.wf {j j' : Journal} (h : Move j j') (hw : j.Wf) : j'.Wf := by
  cases h with
  | changes hc => exact Journal.Changes.wf hc hw
  | handOver hc hl hwr => exact (Journal.Changes.wf hc hw).handOver hl hwr
  | crash => exact Journal.wf_fresh j.disk

/-- **Every journal a run leads to is well-formed**, whatever file the first process found. -/
theorem wf_of_reaches {disk : Option (List Char)} (h : (machine sha256).Reaches (fresh disk) w) :
    w.journal.Wf := by
  refine h.invariant (P := fun w => w.journal.Wf) (fun a e b o _ hs ha => ?_) (Journal.wf_fresh disk)
  have hm := step_move sha256 ha e
  rw [machine_step hs] at hm
  exact hm.wf ha

/-! ## Writing and reloading -/

/-- **Writer and strict loader agree on every document a run leads to**: if it fits, a fresh process
loads the very same document from what is written. -/
theorem document_reloads (sha256 : List Char → Digest) (disk : Option (List Char)) (w : Ledger)
    (h : (machine sha256).Reaches (fresh disk) w) (write : Bool) (j : Journal)
    (hwrite : w.journal.writeLocked write = some j) :
    ∃ j', (Journal.fresh j.disk).loadLocked true = some j' ∧ j'.records = w.journal.records ∧
      j'.loaded = true := by
  obtain ⟨_, hfit, hdisk⟩ := Journal.writeLocked_written hwrite
  have hread := readDocument_documentText (wf_of_reaches h).loadable hfit
  rw [hdisk]
  exact ⟨_, Journal.loadLocked_fresh hread, rfl, rfl⟩

theorem document_reloads_sample :
    ∃ w j, (machine fun _ => sampleProfile).Reaches (fresh none) w ∧
      w.journal.writeLocked true = some j ∧ w.journal.records.length = 1 ∧
      ∃ j', (Journal.fresh j.disk).loadLocked true = some j' ∧ j'.records = w.journal.records ∧
        j'.loaded = true := by
  have hrun : (((machine fun _ => sampleProfile).run (fresh none) sampleRun).map fun w =>
      ((w.journal.writeLocked true).isSome, w.journal.records.length)) = some (true, 1) := by
    decide +kernel
  obtain ⟨w, hw, hval⟩ := Option.map_eq_some_iff.mp hrun
  obtain ⟨hsome, hlen⟩ := Prod.mk.inj hval
  obtain ⟨j, hj⟩ := Option.isSome_iff_exists.mp hsome
  have hreach := Machine.reaches_run hw
  exact ⟨w, j, hreach, hj, hlen, document_reloads _ none w hreach true j hj⟩

end Ledger

end PokrovCore.Daemon
