import PokrovCore.Foundations.JsonObject
import PokrovCore.SmartAccess.Lease

/-!
# LinuxDaemon/Lease — the deadlines of a start and of a promotion

A start may be bound to a deadline on the clock that counts from the boot of the machine, and a
promotion replaces that deadline by the end of a lease.  The lease is matched against the outbounds
of the configuration that runs: one gate with exactly the identity that the command names, and one
upstream.
-/

namespace PokrovCore

/-- `^lease_[a-f0-9]{32}$`. -/
def AtsLease.leaseIDPattern (id : String) : Bool :=
  match id.toList with
  | 'l' :: 'e' :: 'a' :: 's' :: 'e' :: '_' :: digits =>
    digits.length == 32 && digits.all isLowerHex
  | _ => false

namespace LinuxDaemon

/-! ## The clock since boot -/

/-- What the clock since boot returns. -/
structure Timespec where
  sec : ℤ
  nsec : ℤ
  deriving DecidableEq, Repr

/-- A number in 64 bits. -/
def int64 (n : ℤ) : ℤ := n.bmod (2 ^ 64)

/-- The milliseconds of a reading, in 64 bits. -/
def Timespec.milliseconds (t : Timespec) : ℤ :=
  int64 (int64 (t.sec * 1000) + t.nsec.tdiv 1000000)

/-- The deadline of a start. -/
structure LinuxConnectDeadline where
  bootRef : String
  startedElapsedMS : ℤ
  deadlineElapsedMS : ℤ
  deriving DecidableEq, Repr

/-! ## Commands -/

/-- The actions of the commands. -/
inductive Action
  | start
  | startWithIdentity
  | stop
  | health
  | promoteAtsLease
  | revokeAtsLease
  deriving DecidableEq, Repr

/-- A command; its action is `none` for a text that names no action. -/
structure LinuxCommand where
  protocol : String
  action : Option Action
  expectedCoreModuleSHA256 : String
  expectedProfileSHA256 : String
  deadline : Option LinuxConnectDeadline
  leaseID : String
  issuedAt : String
  newFlowsUntil : String
  activeFlowsUntil : String
  terminateActive : Option Bool
  deriving DecidableEq, Repr

/-! ## The promotion -/

/-- The readings of one check of a lease: the time, the clock since boot, and the time again. -/
structure LeaseClock where
  now : Sample
  elapsed : Option Timespec
  later : Sample
  deriving DecidableEq, Repr

/-- A field of an outbound: empty where it is not a text. -/
def read (row : List (String × Json)) (field : String) : String :=
  ((row.lookup field).bind Json.str?).getD ""

/-- The fields of an outbound; a null has none. -/
def row? : Json → Option (List (String × Json))
  | .obj members => some members
  | .null => some []
  | _ => none

/-- The outbounds of a configuration, if it can be decoded. -/
def configOutbounds : Json → Option (List (List (String × Json)))
  | .obj members =>
    match members.lookup "outbounds" with
    | none | some .null => some []
    | some (.arr rows) => rows.mapM row?
    | some _ => none
  | _ => none

/-- Is this outbound the gate of the lease? -/
def isGate (command : LinuxCommand) (row : List (String × Json)) : Bool :=
  read row "type" == "pokrov-ats-lease" && read row "upstream_tag" == "pokrov-ats-upstream" &&
    read row "lease_id" == command.leaseID && read row "issued_at" == command.issuedAt &&
    read row "new_flows_until" == command.newFlowsUntil &&
    read row "active_flows_until" == command.activeFlowsUntil

/-- **One outbound of the walk**: how many gates and upstreams there are, or a refusal. -/
def countRow (command : LinuxCommand) (n : ℕ × ℕ) (row : List (String × Json)) : Option (ℕ × ℕ) :=
  if read row "tag" = "pokrov-ats" then
    if isGate command row then some (n.1 + 1, n.2) else none
  else if read row "tag" = "pokrov-ats-upstream" then
    if read row "type" = "vless" then some (n.1, n.2 + 1) else none
  else some n

/-- **May the lease start new flows now?**  Its dates are canonical, in order and within ten minutes
and an hour. -/
def leaseCurrent (now : Sample) (issued newUntil activeUntil : Date) : Bool :=
  !(now.beforeDate issued || !now.beforeDate newUntil || !newUntil.toTime.after issued.toTime ||
    activeUntil.toTime.before newUntil.toTime ||
    decide (10 * Time.minute < newUntil.toTime.sub issued.toTime) ||
    decide (Time.hour < activeUntil.toTime.sub issued.toTime))

/-- The milliseconds that remain to a date. -/
def remaining (later : Sample) (activeUntil : Date) : ℤ :=
  (activeUntil.toTime.sub (Time.ofSample later)).tdiv 1000000

/-- **The end of a lease on the clock since boot**, if the configuration has its gate. -/
def linuxATSLeaseDeadline (config : Json) (command : LinuxCommand) (clock : LeaseClock) :
    Option ℤ :=
  if AtsLease.leaseIDPattern command.leaseID = false then none
  else do
    let issued ← Date.parse command.issuedAt
    let newUntil ← Date.parse command.newFlowsUntil
    let activeUntil ← Date.parse command.activeFlowsUntil
    if leaseCurrent clock.now issued newUntil activeUntil = false then none
    else
      let rows ← configOutbounds config
      let n ← rows.foldlM (countRow command) (0, 0)
      if n.1 ≠ 1 ∨ n.2 ≠ 1 then none
      else
        let elapsed ← clock.elapsed
        let rest := remaining clock.later activeUntil
        if rest ≤ 0 ∨ 3600000 < rest then none else some (int64 (elapsed.milliseconds + rest))

/-- **When a lease has an end.** -/
theorem linuxATSLeaseDeadline_eq_some {config : Json} {command : LinuxCommand} {clock : LeaseClock}
    {limit : ℤ} : linuxATSLeaseDeadline config command clock = some limit ↔
      AtsLease.leaseIDPattern command.leaseID = true ∧ ∃ issued newUntil activeUntil rows t,
        Date.parse command.issuedAt = some issued ∧
        Date.parse command.newFlowsUntil = some newUntil ∧
        Date.parse command.activeFlowsUntil = some activeUntil ∧
        leaseCurrent clock.now issued newUntil activeUntil = true ∧
        configOutbounds config = some rows ∧
        rows.foldlM (countRow command) (0, 0) = some (1, 1) ∧ clock.elapsed = some t ∧
        0 < remaining clock.later activeUntil ∧ remaining clock.later activeUntil ≤ 3600000 ∧
        int64 (t.milliseconds + remaining clock.later activeUntil) = limit := by
  unfold linuxATSLeaseDeadline
  simp only [Option.bind_eq_bind, Option.ite_none_left_eq_some, Option.bind_eq_some_iff,
    Bool.not_eq_false, not_or, not_not, not_le, not_lt, Option.some.injEq]
  constructor
  · rintro ⟨hid, issued, hissued, newUntil, hnew, activeUntil, hactive, hcurrent, rows, hrows,
      ⟨gates, upstreams⟩, hcount, ⟨rfl, rfl⟩, t, ht, ⟨hpos, hle⟩, hlimit⟩
    exact ⟨hid, issued, newUntil, activeUntil, rows, t, hissued, hnew, hactive, hcurrent, hrows,
      hcount, ht, hpos, hle, hlimit⟩
  · rintro ⟨hid, issued, newUntil, activeUntil, rows, t, hissued, hnew, hactive, hcurrent, hrows,
      hcount, ht, hpos, hle, hlimit⟩
    exact ⟨hid, issued, hissued, newUntil, hnew, activeUntil, hactive, hcurrent, rows, hrows,
      (1, 1), hcount, ⟨rfl, rfl⟩, t, ht, ⟨hpos, hle⟩, hlimit⟩

end LinuxDaemon

end PokrovCore
