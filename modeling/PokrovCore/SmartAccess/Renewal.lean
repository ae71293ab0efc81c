import PokrovCore.SmartAccess.Outbound

/-!
# SmartAccess/Renewal — adopting a fresh generation

`renewLease` runs under the outbound's mutex from its first line to its last, callback included, so
it is one critical section with three clock samples.  The callback commits a recovery bound with its
caller before any authority is granted; its state is the caller's.  `RenewStep` lists what one call
can do, and `renewLease_step` says that it does one of these things.
-/

namespace PokrovCore.SmartAccess

/-- The identity and the dates of a grant, as texts. -/
structure Grant where
  nextID : String
  issuedAt : String
  newFlowsUntil : String
  activeFlowsUntil : String
  deriving DecidableEq, Repr

/-- The samples one renewal takes: building the candidate, pruning the table, adopting. -/
structure RenewClock where
  fresh : Sample
  prune : Sample
  adopt : Sample
  deriving DecidableEq, Repr

/-- What a renewal returns: `(false, nil)`, `(false, errLease)`, `(false, err)` with the error of the
callback, and `(true, nil)`. -/
inductive RenewOutcome
  | absent
  | refused
  | unretained
  | renewed
  deriving DecidableEq, Repr

namespace Outbound

/-- Does a generation equal a candidate in identity and dates? -/
def sameGrant (lease next : LeaseAuthorization) : Bool :=
  lease.id == next.id && lease.issued == next.issued && lease.newUntil == next.newUntil &&
    lease.activeUntil == next.activeUntil

/-- Is a candidate not a successor of the expected current generation? -/
def notSuccessor (lease next : LeaseAuthorization) (expectedID : String) : Bool :=
  lease.id != expectedID || next.id == expectedID || decide (next.issued < lease.issued) ||
    !decide (lease.newUntil < next.newUntil)

/-- Is a retained generation past its active window, on either clock? -/
def pastActive (lease : LeaseAuthorization) (now : Sample) : Bool :=
  !(Time.ofSample now).before lease.activeUntil.toTime ||
    !(Time.ofSample now).before (Time.ofSample lease.activeDeadline)

/-- Drop the retained generations past their active window, the expected one apart. -/
def prune (h : Outbound) (expectedID : String) (now : Sample) : Outbound :=
  { h with leases := h.leases.filter fun id g => !(id != expectedID && pastActive (h.gens g) now) }

/-- A fresh generation becomes the current one. -/
def adopt (h : Outbound) (next : LeaseAuthorization) : Outbound :=
  { h with
    gens := Function.update h.gens h.genCount next
    genCount := h.genCount + 1
    leases := h.leases.insert next.id h.genCount
    lease := h.genCount }

/-- The end of a renewal, on the pruned table: room, the caller's recovery bound, and the window
once more, since a late persistence completion cannot revive an expired candidate. -/
def commitRenewal {σ : Type*} (h : Outbound) (next : LeaseAuthorization) (now : Sample)
    (retainExpiry : Date → σ → σ × Bool) (st : σ) : Outbound × σ × RenewOutcome :=
  if 256 ≤ h.leases.size then (h, st, .refused)
  else
    match retainExpiry next.activeUntil st with
    | (st, false) => (h, st, .unretained)
    | (st, true) =>
      if next.outsideAdmission now then (h, st, .refused) else (h.adopt next, st, .renewed)

/-- **`RenewLease`.**  `retainExpiry` runs on the state `st` of the caller and says whether it
succeeded. -/
def renewLease {σ : Type*} (h : Outbound) (expectedID : String) (grant : Grant) (clock : RenewClock)
    (retainExpiry : Date → σ → σ × Bool) (st : σ) : Outbound × σ × RenewOutcome :=
  if (h.leases.get? expectedID).isNone then (h, st, .absent)
  else if h.closed || h.revoked || h.current.revoked then (h, st, .refused)
  else
    match newLeaseAuthorization grant.nextID grant.issuedAt grant.newFlowsUntil
      grant.activeFlowsUntil clock.fresh with
    | none => (h, st, .refused)
    | some next =>
      if next.admissionExpired then (h, st, .refused)
      -- An idempotent retry must never reset a monotonic deadline: the candidate is dropped.
      else if sameGrant h.current next then (h, st, .renewed)
      else if notSuccessor h.current next expectedID then (h, st, .refused)
      else if (h.leases.get? next.id).isSome then (h, st, .refused)
      else (h.prune expectedID clock.prune).commitRenewal next clock.adopt retainExpiry st

/-- May the outbound renew at all?  Its latches and the current generation's revocation decide. -/
def Renewable (h : Outbound) : Prop :=
  h.closed = false ∧ h.revoked = false ∧ h.current.revoked = false

/-- The conditions under which a candidate gets as far as the table. -/
structure Candidate (h : Outbound) (expectedID : String) (grant : Grant) (clock : RenewClock)
    (next : LeaseAuthorization) : Prop where
  renewable : h.Renewable
  built : newLeaseAuthorization grant.nextID grant.issuedAt grant.newFlowsUntil
    grant.activeFlowsUntil clock.fresh = some next
  admits : next.admissionExpired = false
  current : h.current.id = expectedID
  fresh_id : next.id ≠ expectedID
  issued : h.current.issued ≤ next.issued
  newUntil : h.current.newUntil < next.newUntil
  unused : h.leases.get? next.id = none

/-- **What one renewal can do.** -/
inductive RenewStep {σ : Type*} (h : Outbound) (expectedID : String) (grant : Grant)
    (clock : RenewClock) (retainExpiry : Date → σ → σ × Bool) (st : σ) :
    Outbound → σ → RenewOutcome → Prop
  | absent (hno : h.leases.get? expectedID = none) :
    RenewStep h expectedID grant clock retainExpiry st h st .absent
  | refused : RenewStep h expectedID grant clock retainExpiry st h st .refused
  | retried (next : LeaseAuthorization) (hr : h.Renewable)
    (hbuilt : newLeaseAuthorization grant.nextID grant.issuedAt grant.newFlowsUntil
      grant.activeFlowsUntil clock.fresh = some next)
    (hsame : sameGrant h.current next = true) :
    RenewStep h expectedID grant clock retainExpiry st h st .renewed
  | full (next : LeaseAuthorization) (hc : Candidate h expectedID grant clock next) :
    RenewStep h expectedID grant clock retainExpiry st (h.prune expectedID clock.prune) st .refused
  | unretained (next : LeaseAuthorization) (hc : Candidate h expectedID grant clock next) (st' : σ)
    (hret : retainExpiry next.activeUntil st = (st', false)) :
    RenewStep h expectedID grant clock retainExpiry st (h.prune expectedID clock.prune) st'
      .unretained
  | late (next : LeaseAuthorization) (hc : Candidate h expectedID grant clock next) (st' : σ)
    (hret : retainExpiry next.activeUntil st = (st', true)) :
    RenewStep h expectedID grant clock retainExpiry st (h.prune expectedID clock.prune) st' .refused
  | adopted (next : LeaseAuthorization) (hc : Candidate h expectedID grant clock next) (st' : σ)
    (hroom : (h.prune expectedID clock.prune).leases.size < 256)
    (hret : retainExpiry next.activeUntil st = (st', true))
    (hin : next.outsideAdmission clock.adopt = false) :
    RenewStep h expectedID grant clock retainExpiry st
      ((h.prune expectedID clock.prune).adopt next) st' .renewed

variable {σ : Type*}

/-- **A renewal does one of these things.** -/
theorem renewLease_step (h : Outbound) (expectedID : String) (grant : Grant) (clock : RenewClock)
    (retainExpiry : Date → σ → σ × Bool) (st : σ) :
    RenewStep h expectedID grant clock retainExpiry st
      (h.renewLease expectedID grant clock retainExpiry st).1
      (h.renewLease expectedID grant clock retainExpiry st).2.1
      (h.renewLease expectedID grant clock retainExpiry st).2.2 := by
  unfold renewLease
  split_ifs with habsent hstopped
  · exact .absent (Option.isNone_iff_eq_none.mp habsent)
  · exact .refused
  have hrenewable : h.Renewable := by
    simpa [Renewable, and_assoc] using hstopped
  split
  · exact .refused
  rename_i next hbuilt
  split_ifs with hexpired hsame hnot hused
  · exact .refused
  · exact .retried next hrenewable hbuilt hsame
  · exact .refused
  · exact .refused
  simp only [notSuccessor, Bool.or_eq_true, bne_iff_ne, beq_iff_eq, decide_eq_true_eq,
    Bool.not_eq_true', decide_eq_false_iff_not, not_or, not_not] at hnot
  obtain ⟨⟨⟨hcur, hfresh⟩, hissued⟩, hnew⟩ := hnot
  have hc : Candidate h expectedID grant clock next :=
    ⟨hrenewable, hbuilt, by simpa using hexpired, hcur, hfresh, not_lt.mp hissued, hnew,
      by simpa using hused⟩
  unfold commitRenewal
  rcases hret : retainExpiry next.activeUntil st with ⟨st', _ | _⟩ <;> dsimp only
  · split_ifs
    · exact .full next hc
    · exact .unretained next hc st' hret
  · split_ifs with hfull hlate
    · exact .full next hc
    · exact .late next hc st' hret
    · exact .adopted next hc st' (not_le.mp hfull) hret (by simpa using hlate)

/-- The state of the caller is what its callback left, if that ran at all. -/
theorem RenewStep.callback {h h' : Outbound} {expectedID : String} {grant : Grant}
    {clock : RenewClock} {retainExpiry : Date → σ → σ × Bool} {st st' : σ} {o : RenewOutcome}
    (hs : RenewStep h expectedID grant clock retainExpiry st h' st' o) :
    st' = st ∨ ∃ d b, retainExpiry d st = (st', b) := by
  cases hs with
  | absent | refused | retried | full => exact .inl rfl
  | unretained _ _ _ hret => exact .inr ⟨_, _, hret⟩
  | late _ _ _ hret => exact .inr ⟨_, _, hret⟩
  | adopted _ _ _ _ hret _ => exact .inr ⟨_, _, hret⟩

/-- **An exact retry leaves the outbound and its caller as they were.** -/
theorem renewLease_retry {h : Outbound} {expectedID : String} {grant : Grant} {clock : RenewClock}
    {next : LeaseAuthorization}
    (hbuilt : newLeaseAuthorization grant.nextID grant.issuedAt grant.newFlowsUntil
      grant.activeFlowsUntil clock.fresh = some next) (hsame : sameGrant h.current next = true)
    (retainExpiry : Date → σ → σ × Bool) (st : σ) :
    (h.renewLease expectedID grant clock retainExpiry st).1 = h ∧
      (h.renewLease expectedID grant clock retainExpiry st).2.1 = st := by
  unfold renewLease
  rw [hbuilt]
  simp only [hsame, if_true]
  split_ifs <;> exact ⟨rfl, rfl⟩

end Outbound

end PokrovCore.SmartAccess
