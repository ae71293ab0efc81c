import PokrovCore.Foundations.Calendar
import PokrovCore.Foundations.Hex

/-!
# SmartAccess/Lease — one lease generation: fixed dates, fixed deadlines, one-way latches

A generation is built once, from a signed grant and one clock sample.  Its dates are compared on the
wall clock, its deadlines — the same dates counted from that sample — on the monotonic clock.  What
changes afterwards are four latches, and `Ages` says which way: `a.Ages b` when `b` is `a` some time
later.
-/

namespace PokrovCore.SmartAccess

/-- The stage a failed probe of a lease is attributed to. -/
inductive ProbeStage
  | dns
  | connect
  | tls
  | leaseExpired
  deriving DecidableEq, Repr

/-- `^[a-f0-9]{32}$`. -/
def leaseIDPattern (id : String) : Bool := hexPattern 32 id

/-- One lease generation. -/
structure LeaseAuthorization where
  id : String
  issued : Date
  newUntil : Date
  activeUntil : Date
  newDeadline : Sample
  activeDeadline : Sample
  admissionExpired : Bool
  probeFailure : Option ProbeStage
  revoked : Bool
  terminateActive : Bool
  id_hex : leaseIDPattern id = true
  opens : issued < newUntil
  closes : newUntil ≤ activeUntil
  deriving DecidableEq

/-! ## Construction -/

/-- A lease date is a canonical text from year 1 on. -/
def parseLeaseDate (value : String) : Option Date :=
  (Date.parse value).filter fun d => decide (Date.yearOne ≤ d.sec)

/-- The checks on a grant whose three dates have been read. -/
def grantAccepted (id : String) (issued newUntil activeUntil : Date) (now : Sample) : Bool :=
  leaseIDPattern id && newUntil.toTime.after issued.toTime &&
    !activeUntil.toTime.before newUntil.toTime &&
    decide (newUntil.toTime.sub issued.toTime ≤ 10 * Time.minute) &&
    decide (activeUntil.toTime.sub issued.toTime ≤ Time.hour) &&
    !(Time.ofSample now).before issued.toTime

variable {now : Sample}

theorem grantAccepted_spec {id : String} {issued newUntil activeUntil : Date}
    (h : grantAccepted id issued newUntil activeUntil now = true) :
    leaseIDPattern id = true ∧ issued < newUntil ∧ newUntil ≤ activeUntil := by
  simp only [grantAccepted, Bool.and_eq_true, Bool.not_eq_true', Time.after, Date.toTime_before,
    decide_eq_true_eq, decide_eq_false_iff_not] at h
  obtain ⟨⟨⟨⟨⟨hid, hopen⟩, hclose⟩, _⟩, _⟩, _⟩ := h
  exact ⟨hid, hopen, not_lt.mp hclose⟩

/-- **The generation a grant makes**, with the deadlines counted from the sample of this call. -/
def newLeaseAuthorization (id issuedAt newFlowsUntil activeFlowsUntil : String) (now : Sample) :
    Option LeaseAuthorization := do
  let issued ← parseLeaseDate issuedAt
  let newUntil ← parseLeaseDate newFlowsUntil
  let activeUntil ← parseLeaseDate activeFlowsUntil
  if h : grantAccepted id issued newUntil activeUntil now = true then
    some
      { id, issued, newUntil, activeUntil
        newDeadline := now.add (newUntil.toTime.sub (Time.ofSample now))
        activeDeadline := now.add (activeUntil.toTime.sub (Time.ofSample now))
        admissionExpired := !(Time.ofSample now).before newUntil.toTime
        probeFailure := none
        revoked := false
        terminateActive := false
        id_hex := (grantAccepted_spec h).1
        opens := (grantAccepted_spec h).2.1
        closes := (grantAccepted_spec h).2.2 }
  else none

variable {lease : LeaseAuthorization}

/-- What a generation owes to the grant it was made from. -/
theorem newLeaseAuthorization_spec {id issuedAt newFlowsUntil activeFlowsUntil : String}
    (h : newLeaseAuthorization id issuedAt newFlowsUntil activeFlowsUntil now = some lease) :
    lease.id = id ∧ lease.issued.format = issuedAt ∧ lease.newUntil.format = newFlowsUntil ∧
      lease.activeUntil.format = activeFlowsUntil ∧ lease.revoked = false ∧
      lease.terminateActive = false ∧ lease.probeFailure = none := by
  have hdate : ∀ {v : String} {d : Date}, parseLeaseDate v = some d → d.format = v := fun hv =>
    Date.format_of_parse (Option.filter_eq_some_iff.mp hv).1
  simp only [newLeaseAuthorization, Option.bind_eq_bind, Option.bind_eq_some_iff] at h
  obtain ⟨issued, hi, newUntil, hn, activeUntil, ha, h⟩ := h
  split_ifs at h
  obtain rfl := Option.some.inj h
  exact ⟨rfl, hdate hi, hdate hn, hdate ha, rfl, rfl, rfl⟩

/-- A sample one second into 2026, and a grant from the start of that year: five minutes of
admission, ten of activity. -/
def sampleClock : Sample := ⟨63902822401 * Time.second, 5000⟩
@[inherit_doc sampleClock] def sampleLease : LeaseAuthorization :=
  (newLeaseAuthorization "00000000000000000000000000000000" "2026-01-01T00:00:00Z"
    "2026-01-01T00:05:00Z" "2026-01-01T00:10:00Z" sampleClock).get (by decide +kernel)

namespace LeaseAuthorization

/-! ## The two windows of a generation -/

/-- Is a sample outside the window in which the generation may admit flows? -/
def outsideAdmission (lease : LeaseAuthorization) (now : Sample) : Bool :=
  (Time.ofSample now).before lease.issued.toTime ||
    !(Time.ofSample now).before lease.newUntil.toTime ||
    !(Time.ofSample now).before (Time.ofSample lease.newDeadline)

/-- Is a sample outside the window in which admitted flows may pass data? -/
def outsideActive (lease : LeaseAuthorization) (now : Sample) : Bool :=
  (Time.ofSample now).before lease.issued.toTime ||
    !(Time.ofSample now).before lease.activeUntil.toTime ||
    !(Time.ofSample now).before (Time.ofSample lease.activeDeadline)

theorem outsideAdmission_eq_false :
    lease.outsideAdmission now = false ↔
      lease.issued.toTime.wall ≤ now.wall ∧ now.wall < lease.newUntil.toTime.wall ∧
        now.mono < lease.newDeadline.mono := by
  simp [outsideAdmission, Date.ofSample_before, Sample.ofSample_before, and_assoc]

theorem outsideActive_eq_false :
    lease.outsideActive now = false ↔
      lease.issued.toTime.wall ≤ now.wall ∧ now.wall < lease.activeUntil.toTime.wall ∧
        now.mono < lease.activeDeadline.mono := by
  simp [outsideActive, Date.ofSample_before, Sample.ofSample_before, and_assoc]

/-- An admission check latches a sample outside the admission window. -/
def expire (lease : LeaseAuthorization) (now : Sample) : LeaseAuthorization :=
  if lease.outsideAdmission now then { lease with admissionExpired := true } else lease

/-- Do the latches of a generation let it admit? -/
def open? (lease : LeaseAuthorization) : Bool :=
  !lease.revoked && !lease.admissionExpired && lease.probeFailure.isNone

/-- A restriction of the generation, with or without its active flows. -/
def restrict (lease : LeaseAuthorization) (terminate : Bool) : LeaseAuthorization :=
  { lease with revoked := true, terminateActive := lease.terminateActive || terminate }

/-- A probe failure of the generation. -/
def failProbe (lease : LeaseAuthorization) (stage : ProbeStage) : LeaseAuthorization :=
  { lease with probeFailure := some stage }

/-! ## Ageing -/

/-- **`b` is `a` some time later**: identity, dates and deadlines stand, latches stay set. -/
structure Ages (a b : LeaseAuthorization) : Prop where
  id : b.id = a.id
  issued : b.issued = a.issued
  newUntil : b.newUntil = a.newUntil
  activeUntil : b.activeUntil = a.activeUntil
  newDeadline : b.newDeadline = a.newDeadline
  activeDeadline : b.activeDeadline = a.activeDeadline
  admissionExpired : a.admissionExpired = true → b.admissionExpired = true
  probeFailure : a.probeFailure.isSome = true → b.probeFailure.isSome = true
  revoked : a.revoked = true → b.revoked = true
  terminateActive : a.terminateActive = true → b.terminateActive = true

variable (a : LeaseAuthorization)

theorem Ages.refl : a.Ages a :=
  ⟨rfl, rfl, rfl, rfl, rfl, rfl, fun h => h, fun h => h, fun h => h, fun h => h⟩

theorem Ages.trans {a b c : LeaseAuthorization} (h : a.Ages b) (h' : b.Ages c) : a.Ages c :=
  ⟨h'.id.trans h.id, h'.issued.trans h.issued, h'.newUntil.trans h.newUntil,
    h'.activeUntil.trans h.activeUntil, h'.newDeadline.trans h.newDeadline,
    h'.activeDeadline.trans h.activeDeadline, h'.admissionExpired ∘ h.admissionExpired,
    h'.probeFailure ∘ h.probeFailure, h'.revoked ∘ h.revoked,
    h'.terminateActive ∘ h.terminateActive⟩

theorem ages_expire (now : Sample) : a.Ages (a.expire now) := by
  unfold expire
  split_ifs
  · exact { Ages.refl a with admissionExpired := fun _ => rfl }
  · exact Ages.refl a

theorem ages_restrict (terminate : Bool) : a.Ages (a.restrict terminate) :=
  { Ages.refl a with
    revoked := fun _ => rfl
    terminateActive := fun h => by simp [restrict, h] }

theorem ages_failProbe (stage : ProbeStage) :
    a.Ages (a.failProbe stage) :=
  { Ages.refl a with probeFailure := fun _ => rfl }

/-- A check outside the admission window leaves the generation shut. -/
theorem open?_expire_of_outside {a : LeaseAuthorization} (h : a.outsideAdmission now = true) :
    (a.expire now).open? = false := by
  simp [expire, h, open?]

/-- The window a sample is tested against does not move with age. -/
theorem Ages.outsideActive {a b : LeaseAuthorization} (h : a.Ages b) (now : Sample) :
    b.outsideActive now = a.outsideActive now := by
  rw [LeaseAuthorization.outsideActive, LeaseAuthorization.outsideActive, h.issued, h.activeUntil,
    h.activeDeadline]

end LeaseAuthorization

end PokrovCore.SmartAccess
