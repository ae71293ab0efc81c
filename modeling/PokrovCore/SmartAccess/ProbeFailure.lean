import PokrovCore.SmartAccess.ServiceGroup
import Mathlib.Data.List.Rotate

/-!
# SmartAccess/ProbeFailure — what a probe reports when no provider is available

`probeUnavailableError` keeps the failure of the grants there are, or their expiry, but only while
every provider has its authority: an active window for routes, and one for names whose resolver is
still the registered one.  The windows are in the order in which the rules were bound.

The loop over the windows overwrites what it knows of the names, instead of collecting it: the last
window for names decides.  So the order matters as soon as the resolvers of a provider do not agree
(`Agreed`), and only then.
-/

namespace PokrovCore.SmartAccess

/-- `errScope` or `errLease`. -/
inductive LeaseError
  | scope
  | lease
  deriving DecidableEq, Repr

structure ProbeError where
  stage : ProbeStage
  err : LeaseError
  deriving DecidableEq, Repr

namespace ServiceLeaseGroup

/-! ## The function -/

section

variable (registered : ℕ → Option ℕ) (active : ℕ → Bool)

/-- **One round of the loop over the windows**, for a member.  `registered` is what the manager has
under the tag of a transport. -/
def noteWindow (member : ℕ) (found : Bool × Bool) (w : ℕ × ServiceProbeWindow) : Bool × Bool :=
  if w.2.member ≠ member || !active w.1 then found
  else if !w.2.dns then (found.1, true)
  else
    match w.2.transport with
    | none => found
    | some transport => (registered transport == some transport, found.2)

/-- The authority of a member: for names, and for routes. -/
def authority (windows : List (ℕ × ServiceProbeWindow)) (member : ℕ) : Bool × Bool :=
  windows.foldl (noteWindow registered active member) (false, false)

variable (outbound : ℕ → Outbound) (now : Sample)

/-- What a member makes of the failure so far.  Nothing is reported if its grant is withdrawn or not
valid yet, or if it has neither expired nor failed. -/
def memberFailure (g : ServiceLeaseGroup) (member : ℕ) (failure : Option ProbeError) :
    Option (Option ProbeError) :=
  let h := outbound member
  let lease := h.current
  if h.closed || h.revoked || lease.revoked || now.beforeDate lease.issued then none
  else if !now.beforeDate lease.newUntil || !now.before lease.newDeadline then
    if g.dnsFailed.contains member then none else some failure
  else if lease.admissionExpired || (lease.probeFailure.isNone && !g.dnsFailed.contains member) then
    none
  else
    some (failure <|>
      if g.dnsFailed.contains member then some ⟨.dns, .scope⟩
      else lease.probeFailure.map fun stage => ⟨stage, .scope⟩)

/-- **The loop over the members.** -/
def failureOf (g : ServiceLeaseGroup) : List ℕ → Option ProbeError → Option ProbeError
  | [], failure => failure <|> some ⟨.leaseExpired, .lease⟩
  | member :: members, failure =>
    match g.memberFailure outbound now member failure with
    | none => none
    | some failure =>
      if !(authority registered active g.probeWindows member).1 ||
          !(authority registered active g.probeWindows member).2 then none
      else g.failureOf members failure

end

/-- **What a probe reports**, with each member under its mutex. -/
def probeUnavailableError (g : ServiceLeaseGroup) (manager : Option (ℕ → Option ℕ))
    (active : ℕ → Bool) (outbound : ℕ → Outbound) (now : Sample) : Option ProbeError :=
  manager.bind fun registered => g.failureOf registered active outbound now g.members none

/-! ## Authority -/

variable {g : ServiceLeaseGroup} {registered : ℕ → Option ℕ} {active : ℕ → Bool}
  {outbound : ℕ → Outbound} {now : Sample} {member : ℕ}
  {windows windows' : List (ℕ × ServiceProbeWindow)}

/-- The resolver an active window has for the names of a member. -/
def resolver (active : ℕ → Bool) (member : ℕ) (w : ℕ × ServiceProbeWindow) : Option ℕ :=
  if w.2.member = member ∧ active w.1 = true ∧ w.2.dns = true then w.2.transport else none

/-- **The last resolver decides about the names**, any window about the routes. -/
theorem authority_eq (registered : ℕ → Option ℕ) (active : ℕ → Bool) (member : ℕ)
    (windows : List (ℕ × ServiceProbeWindow)) :
    authority registered active windows member =
      (((windows.filterMap (resolver active member)).getLast?).any
          fun transport => registered transport == some transport,
        windows.any fun w => w.2.member == member && active w.1 && !w.2.dns) := by
  induction windows using List.reverseRecOn with
  | nil => rfl
  | append_singleton windows w ih =>
    rw [authority, List.foldl_append, ← authority, ih]
    simp only [List.foldl_cons, List.foldl_nil, noteWindow, List.filterMap_append, List.any_append,
      List.filterMap_cons, List.filterMap_nil, List.any_cons, List.any_nil, Bool.or_false, resolver]
    by_cases hw : w.2.member = member ∧ active w.1 = true
    · cases w.2.dns
      · simp [hw]
      · cases w.2.transport <;> simp [hw]
    · rw [not_and_or] at hw
      rcases hw with hw | hw <;> simp [hw]

/-- The check of a receipt looks for its resolver among the same ones. -/
theorem dnsWindow_iff {transport : ℕ} :
    g.dnsWindow active member transport = true ↔
      transport ∈ g.probeWindows.filterMap (resolver active member) := by
  simp only [dnsWindow, List.any_eq_true, List.mem_filterMap, resolver]
  refine exists_congr fun w => and_congr_right fun _ => ?_
  simp [and_assoc]

/-- **The resolvers of every member agree**: all of them are still registered, or none is. -/
def Agreed (g : ServiceLeaseGroup) (registered : ℕ → Option ℕ) (active : ℕ → Bool) : Prop :=
  ∀ member ∈ g.members, ∀ t u, g.dnsWindow active member t = true →
    g.dnsWindow active member u = true → registered t = some t → registered u = some u

/-- If all agree, the last one speaks for any. -/
theorem getLast?_any_eq {α : Type} {l : List α} {p : α → Bool}
    (h : ∀ a ∈ l, ∀ b ∈ l, p a = true → p b = true) : l.getLast?.any p = l.any p := by
  rcases List.eq_nil_or_concat l with rfl | ⟨l, a, rfl⟩
  · rfl
  · rw [List.concat_eq_append] at h ⊢
    rw [List.getLast?_append, List.any_append, Bool.eq_iff_iff]
    simp only [List.getLast?_singleton, Option.some_or, Option.any_some, List.any_cons,
      List.any_nil, Bool.or_false, Bool.or_eq_true, List.any_eq_true]
    refine ⟨.inr, ?_⟩
    rintro (⟨b, hb, hp⟩ | hp)
    · exact h b (List.mem_append_left _ hb) a (by simp) hp
    · exact hp

/-- **Where the resolvers agree, the order does not matter**, and any of them gives the authority. -/
theorem authority_of_agreed (hagreed : g.Agreed registered active) (hmember : member ∈ g.members)
    (hperm : windows.Perm g.probeWindows) :
    authority registered active windows member =
      ((g.probeWindows.filterMap (resolver active member)).any
          fun transport => registered transport == some transport,
        g.routeWindow active member) := by
  have hresolvers := hperm.filterMap (resolver active member)
  rw [authority_eq, getLast?_any_eq, hresolvers.any_eq, hperm.any_eq]
  · rfl
  · intro t ht u hu hp
    have ht := dnsWindow_iff.mpr (hresolvers.subset ht)
    have hu := dnsWindow_iff.mpr (hresolvers.subset hu)
    exact beq_iff_eq.mpr (hagreed member hmember t u ht hu (beq_iff_eq.mp hp))

/-- The loop over the members reads the windows for their authority only. -/
theorem failureOf_congr {members : List ℕ} (failure : Option ProbeError)
    (h : ∀ member ∈ members, authority registered active windows member =
      authority registered active g.probeWindows member) :
    ({ g with probeWindows := windows } : ServiceLeaseGroup).failureOf registered active outbound now
      members failure = g.failureOf registered active outbound now members failure := by
  induction members generalizing failure with
  | nil => rfl
  | cons member members ih =>
    have hsame : ({ g with probeWindows := windows } : ServiceLeaseGroup).memberFailure outbound now
        member failure = g.memberFailure outbound now member failure := rfl
    simp only [failureOf, hsame, h member List.mem_cons_self]
    split
    · rfl
    · rw [ih _ fun m hm => h m (List.mem_cons_of_mem member hm)]

/-- A window that is put last decides. -/
theorem authority_last {w : ℕ × ServiceProbeWindow} {transport : ℕ}
    (hw : resolver active member w = some transport) :
    (authority registered active (windows ++ [w]) member).1 =
      (registered transport == some transport) := by
  simp [authority_eq, List.filterMap_append, hw]

/-- **The retained failure does not depend on the order of the windows exactly where resolvers
agree.**  Then every order gives the same answer, and a member has its authority for names exactly
when one of its resolvers, among the active windows, is still the registered one: if a receipt for
the member holds, it has. -/
theorem probe_failure_order_iff (g : ServiceLeaseGroup) (registered : ℕ → Option ℕ)
    (active : ℕ → Bool) :
    g.Agreed registered active ↔
      ∀ windows, windows.Perm g.probeWindows →
        (∀ outbound now, ({ g with probeWindows := windows } : ServiceLeaseGroup).probeUnavailableError
            (some registered) active outbound now =
          g.probeUnavailableError (some registered) active outbound now) ∧
        ∀ member ∈ g.members,
          ((authority registered active windows member).1 = true ↔
            ∃ transport, g.dnsWindow active member transport = true ∧
              registered transport = some transport) ∧
          ∀ (probe : ServiceReadinessProbe) (manager : ℕ) (c : Findings),
            probe.member = some member → probe.manager = some manager →
            c.registered manager = registered → c.active = active →
            g.readinessBindingCurrentLocked probe c = true →
            (authority registered active windows member).1 = true := by
  constructor
  · intro hagreed windows hperm
    have hauthority : ∀ member ∈ g.members,
        ((authority registered active windows member).1 = true ↔
          ∃ transport, g.dnsWindow active member transport = true ∧
            registered transport = some transport) := by
      intro member hmember
      rw [authority_of_agreed hagreed hmember hperm]
      simp only [List.any_eq_true, beq_iff_eq, dnsWindow_iff]
    refine ⟨fun outbound now => ?_, fun member hmember => ⟨hauthority member hmember, ?_⟩⟩
    · refine failureOf_congr none fun member hmember => ?_
      rw [authority_of_agreed hagreed hmember hperm, authority_of_agreed hagreed hmember (.refl _)]
    · intro probe manager c hprobe hmanager hregistered hactive hcurrent
      rw [hauthority member hmember]
      rw [readinessBindingCurrentLocked, hprobe, hmanager] at hcurrent
      cases htransport : probe.transport with
      | none => simp [htransport] at hcurrent
      | some transport =>
        simp only [htransport, hregistered, hactive, Bool.and_eq_true, beq_iff_eq] at hcurrent
        exact ⟨transport, hcurrent.2.1.2, hcurrent.2.1.1.2⟩
  · intro horder member hmember t u ht hu hregistered
    -- put a window with the second resolver last
    obtain ⟨w, hw, hresolver⟩ := List.mem_filterMap.mp (dnsWindow_iff.mp hu)
    obtain ⟨before, after, hsplit⟩ := List.append_of_mem hw
    have hperm : (before ++ after ++ [w]).Perm g.probeWindows := by
      rw [hsplit, List.append_assoc]
      exact (List.perm_append_singleton w after).append_left before
    have hlast := (((horder _ hperm).2 member hmember).1).mpr ⟨t, ht, hregistered⟩
    rw [authority_last hresolver] at hlast
    exact beq_iff_eq.mp hlast

/-! ## Two resolvers -/

/-- A provider with two windows for names and one for routes. -/
def sampleBound : ServiceLeaseGroup :=
  ((newServiceLeaseGroup "video" [0]).bindProbeWindow ⟨0, true, some 7⟩).1.bindProbeWindow
    ⟨0, true, some 8⟩ |>.1.bindProbeWindow ⟨0, false, none⟩ |>.1

/-- Only the first resolver is still registered. -/
def sampleManager (transport : ℕ) : Option ℕ := if transport = 7 then some 7 else none

/-- **The order in which rules are bound decides what is reported**: the lease has expired, all
windows are active, and the member has a resolver that is still registered. -/
theorem order_decides_probe_failure : ∃ now,
    sampleBound.dnsWindow (fun _ => true) 0 7 = true ∧ sampleManager 7 = some 7 ∧
    sampleBound.probeUnavailableError (some sampleManager) (fun _ => true) (fun _ => sampleOutbound)
      now = none ∧
    (sampleBound.probeWindows.rotate 1).Perm sampleBound.probeWindows ∧
    ({ sampleBound with probeWindows := sampleBound.probeWindows.rotate 1 } :
      ServiceLeaseGroup).probeUnavailableError (some sampleManager) (fun _ => true)
      (fun _ => sampleOutbound) now = some ⟨.leaseExpired, .lease⟩ := by
  refine ⟨⟨sampleClock.wall + 600 * Time.second, 5000⟩, by decide +kernel, by decide +kernel,
    by decide +kernel, List.rotate_perm .., by decide +kernel⟩

end ServiceLeaseGroup

end PokrovCore.SmartAccess
