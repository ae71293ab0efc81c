import PokrovCore.Daemon.JournalChange
import PokrovCore.SmartAccess.Connection

/-!
# Daemon/Profile — what a profile grants, and until when

A profile matters here by the catalog windows of its rules and by the grants of its Smart Access
outbounds.  `smartAccessProfileRestrictionExpiry` walks both and keeps the latest date;
`windows_le_expiry` and `grants_le_expiry` say that nothing the profile grants outlasts it.
-/

namespace PokrovCore.Daemon

open SmartAccess (OutboundOptions Outbound World newOutbound newLeaseAuthorization)

/-- A route or DNS rule: the expiry of its catalog window, if it has one, and the rules a logical
rule is made of. -/
inductive Rule
  | mk (window : Option String) (rules : List Rule)

/-- The options of one Smart Access outbound. -/
structure LeaseOptions where
  options : OutboundOptions
  leaseID : String
  issuedAt : String
  newFlowsUntil : String
  activeFlowsUntil : String

/-- A profile. -/
structure Profile where
  routeRules : List Rule
  dnsRules : List Rule
  outbounds : List LeaseOptions

mutual
/-- The window expiries of a rule, in the order of the walk. -/
def Rule.windows : Rule → List String
  | .mk window rules => window.toList ++ rulesWindows rules

/-- The window expiries of some rules. -/
def rulesWindows : List Rule → List String
  | [] => []
  | r :: rs => r.windows ++ rulesWindows rs
end

/-- The window expiries of a profile. -/
def Profile.windows (p : Profile) : List String :=
  rulesWindows p.routeRules ++ rulesWindows p.dnsRules

/-- Keep the later of an expiry and a text, if that is a date. -/
def retain (expires : Option Date) (value : String) : Option Date :=
  match smartAccessControlTime value with
  | some d => if d.toTime.after (expiryTime expires) then some d else expires
  | none => expires

/-- **The latest date of a profile**: of its windows and of its grants. -/
def smartAccessProfileRestrictionExpiry (p : Profile) : Option Date :=
  (p.windows ++ p.outbounds.map LeaseOptions.activeFlowsUntil).foldl retain none

/-! ## Nothing outlasts it -/

theorem wall_le_retain (e : Option Date) (v : String) :
    (expiryTime e).wall ≤ (expiryTime (retain e v)).wall := by
  unfold retain
  split
  · split_ifs with h
    · exact (ExpiryLe.of_after h).wall
    · exact le_rfl
  · exact le_rfl

theorem date_le_retain {e : Option Date} {v : String} {d : Date}
    (h : smartAccessControlTime v = some d) : d.toTime.wall ≤ (expiryTime (retain e v)).wall := by
  unfold retain
  rw [h]
  dsimp only
  split_ifs with ha
  · exact le_rfl
  · simpa [after_expiryTime] using ha

/-- The fold keeps the latest date it has seen. -/
theorem foldl_retain_covers (vs : List String) (e : Option Date) :
    (expiryTime e).wall ≤ (expiryTime (vs.foldl retain e)).wall ∧
      ∀ v ∈ vs, ∀ d, smartAccessControlTime v = some d →
        d.toTime.wall ≤ (expiryTime (vs.foldl retain e)).wall := by
  induction vs generalizing e with
  | nil => exact ⟨le_rfl, nofun⟩
  | cons v vs ih =>
    obtain ⟨hstart, hrest⟩ := ih (retain e v)
    refine ⟨(wall_le_retain e v).trans hstart, fun x hx d hd => ?_⟩
    rcases List.mem_cons.mp hx with rfl | hx
    · exact (date_le_retain hd).trans hstart
    · exact hrest x hx d hd

/-- **No window of a profile outlasts its expiry.** -/
theorem windows_le_expiry {p : Profile} {v : String} {d : Date} (hv : v ∈ p.windows)
    (hd : smartAccessControlTime v = some d) :
    d.toTime.wall ≤ (expiryTime (smartAccessProfileRestrictionExpiry p)).wall :=
  (foldl_retain_covers _ none).2 v (List.mem_append_left _ hv) d hd

/-- **No grant of a profile outlasts its expiry.** -/
theorem grants_le_expiry {p : Profile} {l : LeaseOptions} {d : Date} (hl : l ∈ p.outbounds)
    (hd : smartAccessControlTime l.activeFlowsUntil = some d) :
    d.toTime.wall ≤ (expiryTime (smartAccessProfileRestrictionExpiry p)).wall :=
  (foldl_retain_covers _ none).2 _ (List.mem_append_right _ (List.mem_map_of_mem hl)) d hd

/-! ## The outbounds of a profile -/

/-- The outbound of some options, if the grant is accepted on the sample of its construction. -/
def LeaseOptions.build (l : LeaseOptions) (now : Sample) : Option World :=
  (newLeaseAuthorization l.leaseID l.issuedAt l.newFlowsUntil l.activeFlowsUntil now).map
    fun lease => World.init (newOutbound l.options lease) now.mono

/-- The outbounds of a profile, each built on its own sample. -/
def buildOutbounds (clock : ℕ → Sample) : ℕ → List LeaseOptions → Option (List World)
  | _, [] => some []
  | n, l :: ls => do
    let w ← l.build (clock n)
    let ws ← buildOutbounds clock (n + 1) ls
    return w :: ws

/-- Every outbound built is a fresh one, of a grant of the profile. -/
theorem buildOutbounds_spec {clock : ℕ → Sample} {n : ℕ} {ls : List LeaseOptions} {ws : List World}
    (h : buildOutbounds clock n ls = some ws) : ∀ w ∈ ws, ∃ l ∈ ls, ∃ lease now,
      newLeaseAuthorization l.leaseID l.issuedAt l.newFlowsUntil l.activeFlowsUntil now =
        some lease ∧ w.outbound = newOutbound l.options lease := by
  induction ls generalizing n ws with
  | nil =>
    obtain rfl := Option.some.inj h
    exact nofun
  | cons l ls ih =>
    obtain ⟨w₀, hw₀, h⟩ := Option.bind_eq_some_iff.mp h
    obtain ⟨ws₀, hws, h⟩ := Option.bind_eq_some_iff.mp h
    obtain rfl := Option.some.inj h
    intro w hw
    rcases List.mem_cons.mp hw with rfl | hw
    · obtain ⟨lease, hlease, rfl⟩ := Option.map_eq_some_iff.mp hw₀
      exact ⟨l, by simp, lease, _, hlease, rfl⟩
    · obtain ⟨l', hl', hrest⟩ := ih hws w hw
      exact ⟨l', List.mem_cons_of_mem _ hl', hrest⟩

end PokrovCore.Daemon
