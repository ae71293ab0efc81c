import PokrovCore.SmartAccess.Breaker

/-!
# SmartAccess/RelayConnect — one call of `connectRelay`

A call dials one relay after the other, each under a reservation of its own, until one connection is
accepted.  What it finds is not its own: other flows move the breakers between its sections, the
dialer answers what it likes, and the context may be cancelled at any moment.  A `Turn` has all that
for one attempt, so the results are over every world around the call.
-/

namespace PokrovCore.SmartAccess.RelayConnect

/-- **What one attempt finds**: the outbound at the reservation and at the completion, with the
samples they take, the connection that the dialer returns, if it returns one, whether the dial ended
within its own time, and whether the context is cancelled before the attempt, after the dial and after
the completion. -/
structure Turn where
  cancelledBefore : Bool
  reserving : Outbound
  reservedAt : Sample
  conn : Option ℕ
  withinAttempt : Bool
  cancelled : Bool
  completing : Outbound
  completedAt : Sample
  cancelledAfter : Bool

/-- What a call does to the outside: it dials a relay, and closes a connection. -/
inductive Action
  | dial (relay : ℕ) (conn : Option ℕ)
  | close (conn : ℕ)
  deriving DecidableEq, Repr

/-- What a call returns, if no error, and what it did. -/
structure Call where
  conn : Option ℕ
  actions : List Action
  deriving DecidableEq, Repr

/-- A call that goes on after some actions. -/
def Call.after (actions : List Action) (call : Call) : Call :=
  { call with actions := actions ++ call.actions }

variable (options : OutboundOptions) (policy : RelayConnectPolicy) (g : ℕ) (turn : ℕ → Turn)

/-- The reservation of an attempt. -/
def Turn.reserved (t : Turn) (visited : List ℕ) (attempt : ℕ) : Option Outbound.Reservation :=
  ({ t.reserving with options := options }.reserveRelay g visited (decide (0 < attempt))
    t.reservedAt).2

/-- Does `completeRelay` accept the connection of an attempt? -/
def Turn.accepted (t : Turn) (r : Outbound.Reservation) : Bool :=
  ({ t.completing with options := options }.completeRelay policy r
    (t.conn.isSome && t.withinAttempt) t.cancelled t.completedAt).2

/-- **The loop of the attempts**, with as many of them left. -/
def attempts : ℕ → ℕ → List ℕ → Call
  | 0, _, _ => ⟨none, []⟩
  | left + 1, attempt, visited =>
    let t := turn attempt
    if t.cancelledBefore then ⟨none, []⟩
    else
      match t.reserved options g visited attempt with
      | none => ⟨none, []⟩
      | some r =>
        match t.conn with
        | some c =>
          if t.accepted options policy r && !t.cancelledAfter then ⟨some c, [.dial r.index (some c)]⟩
          else if t.cancelled then ⟨none, [.dial r.index (some c), .close c]⟩
          else (attempts left (attempt + 1) (r.index :: visited)).after
            [.dial r.index (some c), .close c]
        | none =>
          if t.cancelled then ⟨none, [.dial r.index none]⟩
          else (attempts left (attempt + 1) (r.index :: visited)).after [.dial r.index none]

/-- **`connectRelay`**: without an approved budget, one pinned dial. -/
def connectRelay : Call :=
  match options.relayPolicy with
  | none =>
    match (turn 0).conn with
    | some c =>
      if (turn 0).cancelled then ⟨none, [.dial 0 (some c), .close c]⟩
      else ⟨some c, [.dial 0 (some c)]⟩
    | none => ⟨none, [.dial 0 none]⟩
  | some policy => attempts options policy g turn policy.maxAttempts 0 []

/-! ## What a call does -/

/-- The relays that were dialled. -/
def Call.dials (call : Call) : List ℕ :=
  call.actions.filterMap fun
    | .dial relay _ => some relay
    | .close _ => none

/-- The connections that the dialer returned. -/
def Call.returned (call : Call) : List ℕ :=
  call.actions.filterMap fun
    | .dial _ conn => conn
    | .close _ => none

/-- The connections that were closed. -/
def Call.closed (call : Call) : List ℕ :=
  call.actions.filterMap fun
    | .dial _ _ => none
    | .close conn => some conn

variable {options policy g turn}

/-- **What a call of the loop keeps**, given the relays that were visited before. -/
structure Safe (options : OutboundOptions) (policy : RelayConnectPolicy) (g : ℕ) (turn : ℕ → Turn)
    (left : ℕ) (visited : List ℕ) (call : Call) : Prop where
  bounded : call.dials.length ≤ left
  fresh : ∀ i ∈ call.dials, i ∉ visited
  distinct : call.dials.Nodup
  allowed : ∀ i ∈ call.dials, i < options.relays.length ∧
    ∃ k, ((turn k).reserving.relayStates i).free (turn k).reservedAt = true
  accepted : ∀ c, call.conn = some c → ∃ k r visited, (turn k).conn = some c ∧
    r.index ∈ call.dials ∧ (turn k).reserved options g visited k = some r ∧
    (turn k).accepted options policy r = true
  accounted : call.returned = call.closed ++ call.conn.toList

/-- A call that ends without a dial. -/
theorem safe_error (left : ℕ) (visited : List ℕ) :
    Safe options policy g turn left visited ⟨none, []⟩ :=
  ⟨Nat.zero_le _, by simp [Call.dials], List.nodup_nil, by simp [Call.dials], by simp, rfl⟩

variable {r : Outbound.Reservation} {visited : List ℕ}

theorem reserved_spec {t : Turn} {attempt : ℕ} (hr : t.reserved options g visited attempt = some r) : r.index < options.relays.length ∧
      r.index ∉ visited ∧ (t.reserving.relayStates r.index).free t.reservedAt = true := by
  obtain ⟨-, -, ⟨hnone, -⟩ | ⟨i, hi, hvisited, hfree, hsome, -⟩⟩ :=
    { t.reserving with options := options }.reserveRelay_spec g visited (decide (0 < attempt))
      t.reservedAt
  · rw [Turn.reserved, hnone] at hr
    cases hr
  · rw [Turn.reserved, hsome] at hr
    obtain rfl := Option.some.inj hr
    exact ⟨hi, hvisited, hfree⟩

/-- A call that dials once, and ends. -/
theorem safe_single {left k : ℕ} {call : Call} (hr : (turn k).reserved options g visited k = some r)
    (hdials : call.dials = [r.index]) (haccepted : ∀ c, call.conn = some c →
      (turn k).conn = some c ∧ (turn k).accepted options policy r = true)
    (haccounted : call.returned = call.closed ++ call.conn.toList) :
    Safe options policy g turn (left + 1) visited call := by
  obtain ⟨hlt, hvisited, hfree⟩ := reserved_spec hr
  refine ⟨by simp [hdials], ?_, by simp [hdials], ?_, fun c hc => ?_, haccounted⟩
  · intro i hi
    rw [hdials, List.mem_singleton] at hi
    exact hi ▸ hvisited
  · intro i hi
    rw [hdials, List.mem_singleton] at hi
    exact hi ▸ ⟨hlt, k, hfree⟩
  · obtain ⟨hconn, ha⟩ := haccepted c hc
    exact ⟨k, r, visited, hconn, by simp [hdials], hr, ha⟩

/-- A call that dials, closes what it got, and goes on. -/
theorem Safe.after {left k : ℕ} {attempt : ℕ} {call : Call}
    (h : Safe options policy g turn left (r.index :: visited) call)
    (hr : (turn k).reserved options g visited attempt = some r) {actions : List Action}
    (hactions : actions = [.dial r.index none] ∨ ∃ c, actions = [.dial r.index (some c), .close c]) :
    Safe options policy g turn (left + 1) visited (call.after actions) := by
  obtain ⟨hlt, hvisited, hfree⟩ := reserved_spec hr
  have hdials : (call.after actions).dials = r.index :: call.dials := by
    rcases hactions with rfl | ⟨c, rfl⟩ <;> rfl
  have haccounted : (call.after actions).returned =
      (call.after actions).closed ++ (call.after actions).conn.toList := by
    have hcall := h.accounted
    rcases hactions with rfl | ⟨c, rfl⟩
    · exact hcall
    · exact congrArg (c :: ·) hcall
  refine ⟨?_, ?_, ?_, ?_, fun c hc => ?_, haccounted⟩
  · rw [hdials, List.length_cons]
    exact Nat.succ_le_succ h.bounded
  · intro i hi
    rcases List.mem_cons.mp (hdials ▸ hi) with rfl | hi
    · exact hvisited
    · exact fun hv => h.fresh i hi (List.mem_cons_of_mem _ hv)
  · rw [hdials, List.nodup_cons]
    exact ⟨fun hi => h.fresh _ hi List.mem_cons_self, h.distinct⟩
  · intro i hi
    rcases List.mem_cons.mp (hdials ▸ hi) with rfl | hi
    · exact ⟨hlt, k, hfree⟩
    · exact h.allowed i hi
  · obtain ⟨k', r', visited', hconn, hi, hr', ha⟩ := h.accepted c hc
    exact ⟨k', r', visited', hconn, hdials ▸ List.mem_cons_of_mem _ hi, hr', ha⟩

theorem safe_attempts (left attempt : ℕ) (visited : List ℕ) :
    Safe options policy g turn left visited (attempts options policy g turn left attempt visited) := by
  induction left generalizing attempt visited with
  | zero => exact safe_error 0 visited
  | succ left ih =>
    simp only [attempts]
    split
    · exact safe_error _ _
    split
    · exact safe_error _ _
    next r hr =>
      split
      next c hconn =>
        split
        next haccepted =>
          rw [Bool.and_eq_true] at haccepted
          refine safe_single hr rfl (fun c' hc => ?_) rfl
          exact ⟨hconn.trans hc, haccepted.1⟩
        next =>
          split
          · exact safe_single hr rfl (by simp) rfl
          · exact (ih (attempt + 1) (r.index :: visited)).after hr (.inr ⟨c, rfl⟩)
      next =>
        split
        · exact safe_single hr rfl (by simp) rfl
        · exact (ih (attempt + 1) (r.index :: visited)).after hr (.inl rfl)

/-- **Relay dialling is bounded and leaks nothing.**  Without a policy there is one dial, to the first
relay; with one there are at most so many as it allows and as there are relays, never twice to the
same, and a connection that is returned was accepted.  Whatever else the dialer returned has been
closed. -/
theorem connectRelay_safe (options : OutboundOptions) (g : ℕ) (turn : ℕ → Turn) :
    (options.relayPolicy = none → (connectRelay options g turn).dials = [0]) ∧
    (∀ policy, options.relayPolicy = some policy →
      (connectRelay options g turn).dials.length ≤
        min policy.maxAttempts options.relays.length ∧
      (connectRelay options g turn).dials.Nodup ∧
      (∀ i ∈ (connectRelay options g turn).dials, i < options.relays.length ∧
        ∃ k, ((turn k).reserving.relayStates i).free (turn k).reservedAt = true) ∧
      ∀ c, (connectRelay options g turn).conn = some c → ∃ k r visited, (turn k).conn = some c ∧
        r.index ∈ (connectRelay options g turn).dials ∧
        (turn k).reserved options g visited k = some r ∧
        (turn k).accepted options policy r = true) ∧
    (connectRelay options g turn).returned =
      (connectRelay options g turn).closed ++ (connectRelay options g turn).conn.toList := by
  cases hpolicy : options.relayPolicy with
  | none =>
    have hcall : connectRelay options g turn =
        match (turn 0).conn with
        | some c => if (turn 0).cancelled then ⟨none, [.dial 0 (some c), .close c]⟩
          else ⟨some c, [.dial 0 (some c)]⟩
        | none => ⟨none, [.dial 0 none]⟩ := by
      simp only [connectRelay, hpolicy]
    rw [hcall]
    refine ⟨fun _ => ?_, by simp, ?_⟩
    · split
      · split <;> rfl
      · rfl
    · split
      · split <;> rfl
      · rfl
  | some policy =>
    have hcall : connectRelay options g turn =
        attempts options policy g turn policy.maxAttempts 0 [] := by
      simp only [connectRelay, hpolicy]
    rw [hcall]
    have h : Safe options policy g turn policy.maxAttempts []
        (attempts options policy g turn policy.maxAttempts 0 []) :=
      safe_attempts policy.maxAttempts 0 []
    refine ⟨by simp, fun policy' heq => ?_, h.accounted⟩
    obtain rfl := Option.some.inj heq
    refine ⟨le_min h.bounded ?_, h.distinct, h.allowed, h.accepted⟩
    have hsubset : (attempts options policy g turn policy.maxAttempts 0 []).dials ⊆
        List.range options.relays.length :=
      fun i hi => List.mem_range.mpr (h.allowed i hi).1
    have hle := (List.subperm_of_subset h.distinct hsubset).length_le
    rwa [List.length_range] at hle

end PokrovCore.SmartAccess.RelayConnect
