import PokrovCore.Group.Balancer

/-!
# Group/UrlTest — the choice of a group by delay

`Select` starts from the current choice and goes through the members of the better tier: a member
takes over when its delay is lower by more than the tolerance.  The least delay so far is zero while
there is none, and a recorded delay of zero reads the same.
-/

namespace PokrovCore.Group

/-- **The group**, with the tag that stands for each member in the histories.  Its tolerance is an
argument of what follows. -/
structure URLTestGroup where
  outbounds : List Outbound
  preferredTags : List String
  realTag : Outbound → String
  selectedOutbound : Network → Option Outbound

namespace URLTestGroup

variable (g : URLTestGroup) (tolerance : ℕ) (history : Histories) (net : Network)

/-- The recorded delay of an outbound, if it has a history and is not timed out. -/
def liveDelay (o : Outbound) : Option ℕ :=
  (history (g.realTag o)).bind fun his => if his.delay.val = 65535 then none else some his.delay.val

def preferredAvailable : Bool :=
  g.outbounds.any fun o => decide (o.tag ∈ g.preferredTags) && decide (net ∈ o.network) &&
    (g.liveDelay history o).isSome

/-- A member is looked at: it supports the network, and it is preferred if a preferred one is
available. -/
def eligible (o : Outbound) : Bool :=
  decide (net ∈ o.network) &&
    (!g.preferredAvailable history net || decide (o.tag ∈ g.preferredTags))

/-- The current choice with its delay, if it is live, and not passed over for a preferred one. -/
def current : Option (Outbound × ℕ) :=
  (g.selectedOutbound net).bind fun c =>
    (g.liveDelay history c).bind fun delay =>
      if g.preferredAvailable history net = true ∧ c.tag ∉ g.preferredTags then none
      else some (c, delay)

/-- The choice and its delay, the delay being zero while there is none. -/
abbrev Choice := Option Outbound × ℕ

/-- Where the loop starts. -/
def start : Choice :=
  ((g.current history net).map (·.1), ((g.current history net).map (·.2)).getD 0)

/-- A live member is compared. -/
def compare (best : Choice) (o : Outbound × ℕ) : Choice :=
  if best.2 = 0 ∨ best.2 > o.2 + tolerance then (some o.1, o.2) else best

/-- The loop over the members. -/
def loop (best : Choice) : Choice :=
  g.outbounds.foldl (fun best o =>
    if g.eligible history net o = true then
      match g.liveDelay history o with
      | some delay => compare tolerance best (o, delay)
      | none => best
    else best) best

/-- **`Select`** -/
def select : Option Outbound × Bool :=
  match (g.loop tolerance history net (g.start history net)).1 with
  | some o => (some o, true)
  | none => (g.outbounds.find? (net ∈ ·.network), false)

/-- `performUpdateCheck`, for one network. -/
def updateSelected : URLTestGroup :=
  match g.select tolerance history net with
  | (some o, found) =>
    if g.selectedOutbound net = none ∨ (found = true ∧ some o ≠ g.selectedOutbound net) then
      { g with selectedOutbound := Function.update g.selectedOutbound net (some o) }
    else g
  | (none, _) => g

/-- `performUpdateCheck` -/
def performUpdateCheck : URLTestGroup :=
  (g.updateSelected tolerance history .tcp).updateSelected tolerance history .udp

/-! ## What is asked of a choice -/

/-- The live members of the tier, with their delays. -/
def candidates : List (Outbound × ℕ) :=
  g.outbounds.filterMap fun o =>
    if g.eligible history net o = true then (g.liveDelay history o).map (o, ·) else none

/-- The choice of a network is a member that supports it. -/
def Chosen : Prop :=
  ∀ net c, g.selectedOutbound net = some c → c ∈ g.outbounds ∧ net ∈ c.network

/-- **A selection honours the tiers and the tolerance.** -/
structure Honours : Prop where
  preferred : (∃ o ∈ g.outbounds, o.tag ∈ g.preferredTags ∧ net ∈ o.network ∧
      (g.liveDelay history o).isSome = true) →
    ∃ o ∈ g.outbounds, g.select tolerance history net = (some o, true) ∧ o.tag ∈ g.preferredTags ∧
      net ∈ o.network ∧ (g.liveDelay history o).isSome = true
  optimal : g.candidates history net ≠ [] →
    ∃ c ∈ g.candidates history net, g.select tolerance history net = (some c.1, true) ∧
      ∀ x ∈ g.candidates history net, c.2 ≤ x.2 + tolerance
  steady : ∀ c ∈ g.candidates history net, g.selectedOutbound net = some c.1 →
    (∀ x ∈ g.candidates history net, c.2 ≤ x.2 + tolerance) →
    g.select tolerance history net = (some c.1, true)

end URLTestGroup

/-! ## The loop -/

namespace URLTestGroup

section loop

variable {t : ℕ} {l : List (Outbound × ℕ)} {best : Choice}

theorem compare_snd (t : ℕ) (best : Choice) (o : Outbound × ℕ) :
    (compare t best o).2 = if best.2 = 0 ∨ best.2 > o.2 + t then o.2 else best.2 := by
  unfold compare
  split <;> rfl

/-- The outcome is what it started from, or one of those compared. -/
theorem foldl_compare_mem (t : ℕ) (l : List (Outbound × ℕ)) (best : Choice) :
    l.foldl (compare t) best = best ∨ ∃ c ∈ l, l.foldl (compare t) best = (some c.1, c.2) := by
  induction l generalizing best with
  | nil => exact .inl rfl
  | cons a l ih =>
    rw [List.foldl_cons]
    rcases ih (compare t best a) with h | ⟨c, hc, h⟩
    · rw [h, compare]
      split
      · exact .inr ⟨a, List.mem_cons_self .., rfl⟩
      · exact .inl rfl
    · exact .inr ⟨c, List.mem_cons_of_mem _ hc, h⟩

/-- A choice that is within the tolerance of all stays, unless its delay is zero. -/
theorem foldl_compare_steady (hbest : best.2 ≠ 0) (h : ∀ x ∈ l, best.2 ≤ x.2 + t) :
    l.foldl (compare t) best = best := by
  induction l with
  | nil => rfl
  | cons a l ih =>
    obtain ⟨ha, hl⟩ := List.forall_mem_cons.mp h
    rw [List.foldl_cons, compare, if_neg (by omega)]
    exact ih hl

/-- Without delays of zero the outcome is within the tolerance of all that were compared. -/
theorem foldl_compare_optimal (hl : ∀ x ∈ l, x.2 ≠ 0) :
    ∀ x ∈ l, (l.foldl (compare t) best).2 ≠ 0 ∧ (l.foldl (compare t) best).2 ≤ x.2 + t := by
  induction l using List.reverseRecOn with
  | nil => simp
  | append_singleton l a ih =>
    have hinit := ih fun x hx => hl x (List.mem_append_left _ hx)
    have ha := hl a (List.mem_append_right _ (List.mem_singleton_self a))
    intro x hx
    rw [List.foldl_append, List.foldl_cons, List.foldl_nil, compare_snd]
    rcases List.mem_append.mp hx with hx | hx
    · have := hinit x hx
      split_ifs <;> omega
    · rw [List.mem_singleton.mp hx]
      split_ifs <;> omega

/-- Among delays of zero the last one is the outcome. -/
theorem foldl_compare_zero (hl : ∀ x ∈ l, x.2 = 0) (hbest : best.2 = 0) :
    (l.foldl (compare t) best).2 = 0 ∧
      ∀ z, l.getLast? = some z → l.foldl (compare t) best = (some z.1, z.2) := by
  induction l using List.reverseRecOn with
  | nil => exact ⟨hbest, by simp⟩
  | append_singleton l a ih =>
    obtain ⟨hzero, -⟩ := ih fun x hx => hl x (List.mem_append_left _ hx)
    have ha := hl a (List.mem_append_right _ (List.mem_singleton_self a))
    rw [List.foldl_append, List.foldl_cons, List.foldl_nil, compare, if_pos (.inl hzero)]
    refine ⟨ha, fun z hz => ?_⟩
    rw [← Option.some.inj (List.getLast?_concat.symm.trans hz)]

end loop

variable {g : URLTestGroup} {history : Histories} {net : Network} {c : Outbound × ℕ}

theorem mem_candidates_iff :
    c ∈ g.candidates history net ↔ c.1 ∈ g.outbounds ∧ g.eligible history net c.1 = true ∧
      g.liveDelay history c.1 = some c.2 := by
  obtain ⟨o, delay⟩ := c
  simp only [candidates, List.mem_filterMap, Option.ite_none_right_eq_some, Option.map_eq_some_iff,
    Prod.mk.injEq]
  grind

theorem liveDelay_le {o : Outbound} {delay : ℕ} (h : g.liveDelay history o = some delay) :
    delay ≤ 65535 := by
  obtain ⟨his, -, h⟩ := Option.bind_eq_some_iff.mp h
  obtain ⟨-, h⟩ := Option.ite_none_left_eq_some.mp h
  have hlt := his.delay.isLt
  rw [← Option.some.inj h]
  omega

theorem loop_eq (t : ℕ) (best : Choice) :
    g.loop t history net best = (g.candidates history net).foldl (compare t) best := by
  rw [loop, candidates, List.foldl_filterMap]
  congr 1
  funext best o
  split
  · cases g.liveDelay history o <;> rfl
  · rfl

theorem current_mem (hg : g.Chosen) (hc : g.current history net = some c) :
    c ∈ g.candidates history net ∧ g.selectedOutbound net = some c.1 := by
  obtain ⟨o, ho, hc⟩ := Option.bind_eq_some_iff.mp hc
  obtain ⟨delay, hdelay, hc⟩ := Option.bind_eq_some_iff.mp hc
  obtain ⟨htier, hc⟩ := Option.ite_none_left_eq_some.mp hc
  obtain rfl := Option.some.inj hc
  obtain ⟨hmem, hnet⟩ := hg net o ho
  refine ⟨mem_candidates_iff.mpr ⟨hmem, ?_, hdelay⟩, ho⟩
  simp only [eligible, hnet, decide_true, Bool.true_and, Bool.or_eq_true, Bool.not_eq_true',
    decide_eq_true_eq]
  grind

theorem current_of_mem (hc : c ∈ g.candidates history net)
    (hsel : g.selectedOutbound net = some c.1) : g.current history net = some c := by
  obtain ⟨-, heligible, hdelay⟩ := mem_candidates_iff.mp hc
  simp only [eligible, Bool.and_eq_true, Bool.or_eq_true, Bool.not_eq_true', decide_eq_true_eq]
    at heligible
  rw [current, hsel, Option.bind_some, hdelay, Option.bind_some, if_neg]
  grind

/-- The outcome of the loop is a candidate, if there is one. -/
theorem foldl_candidates (hg : g.Chosen) (t : ℕ) (h : g.candidates history net ≠ []) :
    ∃ c ∈ g.candidates history net,
      (g.candidates history net).foldl (compare t) (g.start history net) = (some c.1, c.2) := by
  cases hcurrent : g.current history net with
  | some c =>
    have hstart : g.start history net = (some c.1, c.2) := by rw [start, hcurrent]; rfl
    rcases foldl_compare_mem t (g.candidates history net) (g.start history net) with h | h
    · exact ⟨c, (current_mem hg hcurrent).1, h.trans hstart⟩
    · exact h
  | none =>
    have hstart : g.start history net = (none, 0) := by rw [start, hcurrent]; rfl
    obtain ⟨a, l, hcons⟩ := List.exists_cons_of_ne_nil h
    rw [hcons, List.foldl_cons, hstart, compare, if_pos (.inl rfl)]
    rcases foldl_compare_mem t l (some a.1, a.2) with h | ⟨c, hc, h⟩
    · exact ⟨a, List.mem_cons_self .., h⟩
    · exact ⟨c, List.mem_cons_of_mem _ hc, h⟩

theorem select_of_foldl {t delay : ℕ} {o : Outbound}
    (h : (g.candidates history net).foldl (compare t) (g.start history net) = (some o, delay)) :
    g.select t history net = (some o, true) := by
  rw [select, loop_eq, h]

theorem start_of_selected (hc : c ∈ g.candidates history net)
    (hsel : g.selectedOutbound net = some c.1) : g.start history net = (some c.1, c.2) := by
  rw [start, current_of_mem hc hsel]
  rfl

/-- A candidate has the delay that is recorded for it. -/
theorem candidate_unique {x : Outbound × ℕ} (hc : c ∈ g.candidates history net)
    (hx : x ∈ g.candidates history net) (h : c.1 = x.1) : c = x := by
  have hdelay := (mem_candidates_iff.mp hc).2.2
  rw [h, (mem_candidates_iff.mp hx).2.2] at hdelay
  exact Prod.ext h (Option.some.inj hdelay).symm

/-- Where a selection is optimal and steady, the tiers are honoured: candidates are preferred if a
preferred member is live. -/
theorem honours_of {t : ℕ}
    (hoptimal : g.candidates history net ≠ [] → ∃ c ∈ g.candidates history net,
      (g.candidates history net).foldl (compare t) (g.start history net) = (some c.1, c.2) ∧
        ∀ x ∈ g.candidates history net, c.2 ≤ x.2 + t)
    (hsteady : ∀ c ∈ g.candidates history net, g.selectedOutbound net = some c.1 →
      (∀ x ∈ g.candidates history net, c.2 ≤ x.2 + t) →
      (g.candidates history net).foldl (compare t) (some c.1, c.2) = (some c.1, c.2)) :
    g.Honours t history net := by
  have hselect := fun h => (hoptimal h).imp fun c hc =>
    And.imp_right (And.imp_left select_of_foldl) hc
  refine ⟨?_, hselect, fun c hc hsel hwithin => ?_⟩
  · rintro ⟨o, ho, htag, hnet, hlive⟩
    obtain ⟨delay, hdelay⟩ := Option.isSome_iff_exists.mp hlive
    have havailable : g.preferredAvailable history net = true :=
      List.any_eq_true.mpr ⟨o, ho, by simp [htag, hnet, hlive]⟩
    have hmem : (o, delay) ∈ g.candidates history net :=
      mem_candidates_iff.mpr ⟨ho, by simp [eligible, hnet, htag], hdelay⟩
    obtain ⟨c, hc, hsel, -⟩ := hselect (List.ne_nil_of_mem hmem)
    obtain ⟨hout, heligible, hdelay⟩ := mem_candidates_iff.mp hc
    simp only [eligible, havailable, Bool.not_true, Bool.false_or, Bool.and_eq_true,
      decide_eq_true_eq] at heligible
    exact ⟨c.1, hout, hsel, heligible.2, heligible.1, by rw [hdelay]; rfl⟩
  · have hfold := hsteady c hc hsel hwithin
    rw [← start_of_selected hc hsel] at hfold
    exact select_of_foldl (hfold.trans (start_of_selected hc hsel))

/-- Without delays of zero. -/
theorem honours_of_nonzero (hg : g.Chosen) (hl : ∀ c ∈ g.candidates history net, c.2 ≠ 0) (t : ℕ) :
    g.Honours t history net := by
  refine honours_of (fun hne => ?_) fun c hc _ hwithin => ?_
  · obtain ⟨c, hc, hfold⟩ := foldl_candidates hg t hne
    refine ⟨c, hc, hfold, fun x hx => ?_⟩
    have hle := (@foldl_compare_optimal t _ (g.start history net) hl x hx).2
    rwa [hfold] at hle
  · exact foldl_compare_steady (hl c hc) hwithin

/-- With a delay of zero at the end. -/
theorem honours_of_last (hg : g.Chosen) {z : Outbound × ℕ}
    (hlast : (g.candidates history net).getLast? = some z) (hz : z.2 = 0)
    (hcurrent : ∀ c ∈ g.candidates history net, g.selectedOutbound net = some c.1 → c.2 = 0 →
      c = z ∧ ∀ x ∈ g.candidates history net, x.2 = 0) (t : ℕ) :
    g.Honours t history net := by
  refine honours_of (fun hne => ?_) fun c hc hsel hwithin => ?_
  · obtain ⟨c, hc, hfold⟩ := foldl_candidates hg t hne
    refine ⟨c, hc, hfold, fun x _ => ?_⟩
    -- the last candidate takes over from everything above the tolerance
    obtain ⟨l, hl⟩ := List.getLast?_eq_some_iff.mp hlast
    have hsnd := congrArg Prod.snd hfold
    rw [hl, List.foldl_append, List.foldl_cons, List.foldl_nil, compare_snd, hz] at hsnd
    split_ifs at hsnd <;> simp only at hsnd <;> omega
  · by_cases hzero : c.2 = 0
    · obtain ⟨rfl, hall⟩ := hcurrent c hc hsel hzero
      exact (foldl_compare_zero hall hzero).2 c hlast
    · exact foldl_compare_steady hzero hwithin

/-- Without tolerance the last candidate has a delay of zero, if any has. -/
theorem last_of_honours (hg : g.Chosen) (h : g.Honours 0 history net) (hc : c ∈ g.candidates history net)
    (hzero : c.2 = 0) :
    ∃ z, (g.candidates history net).getLast? = some z ∧ z.2 = 0 ∧
      g.select 0 history net = (some z.1, true) := by
  have hne := List.ne_nil_of_mem hc
  obtain ⟨b, hb, hselect, hbest⟩ := h.optimal hne
  obtain ⟨d, hd, hfold⟩ := foldl_candidates hg 0 hne
  obtain rfl : b = d := candidate_unique hb hd
    (Option.some.inj (Prod.mk.inj (hselect.symm.trans (select_of_foldl hfold))).1)
  obtain ⟨l, z, hl⟩ := (List.eq_nil_or_concat _).resolve_left hne
  rw [List.concat_eq_append] at hl
  have hbzero : b.2 = 0 := by simpa [hzero] using hbest c hc
  have hfoldz := hfold
  rw [hl, List.foldl_append, List.foldl_cons, List.foldl_nil] at hfoldz
  have hsnd := congrArg Prod.snd hfoldz
  rw [compare_snd, hbzero] at hsnd
  have hz : z.2 = 0 := by
    split_ifs at hsnd <;> omega
  rw [compare, if_pos (by omega)] at hfoldz
  exact ⟨z, by rw [hl]; exact List.getLast?_concat, hz, select_of_foldl (hfold.trans hfoldz.symm)⟩

/-- With the greatest tolerance a current choice of delay zero gives way to another delay. -/
theorem zero_of_honours (h : g.Honours 65535 history net) (hc : c ∈ g.candidates history net)
    (hsel : g.selectedOutbound net = some c.1) (hzero : c.2 = 0) :
    ∀ x ∈ g.candidates history net, x.2 = 0 := by
  by_contra hx
  push Not at hx
  have hselect := h.steady c hc hsel fun x _ => by omega
  -- the first candidate with another delay takes over, and stays
  obtain ⟨y, hy⟩ : ∃ y, (g.candidates history net).find? (·.2 ≠ 0) = some y := by
    rw [← Option.isSome_iff_exists, List.find?_isSome]
    simpa using hx
  obtain ⟨hynz, before, after, hsplit, hbefore⟩ := List.find?_eq_some_iff_append.mp hy
  simp only [decide_not, Bool.not_eq_true', decide_eq_false_iff_not, Bool.not_not,
    decide_eq_true_eq] at hynz hbefore
  have hymem : y ∈ g.candidates history net := List.mem_of_find?_eq_some hy
  have hfold : (g.candidates history net).foldl (compare 65535) (g.start history net) =
      (some y.1, y.2) := by
    have hstart : (g.start history net).2 = 0 := by rw [start_of_selected hc hsel, hzero]
    rw [hsplit, List.foldl_append, List.foldl_cons, compare,
      if_pos (.inl (foldl_compare_zero hbefore hstart).1)]
    refine foldl_compare_steady hynz fun x _ => ?_
    have hlive := (mem_candidates_iff.mp hymem).2.2
    have hle : y.2 ≤ 65535 := liveDelay_le hlive
    omega
  have heq := candidate_unique hymem hc
    (Option.some.inj (Prod.mk.inj ((select_of_foldl hfold).symm.trans hselect)).1)
  exact hynz (heq ▸ hzero)

/-- An update keeps the choices among the members. -/
theorem Chosen.updateSelected (hg : g.Chosen) (t : ℕ) (history : Histories) (net : Network) :
    (g.updateSelected t history net).Chosen := by
  have hselect : ∀ o b, g.select t history net = (some o, b) → o ∈ g.outbounds ∧ net ∈ o.network := by
    intro o b ho
    by_cases hne : g.candidates history net = []
    · have hloop : (g.candidates history net).foldl (compare t) (g.start history net) = (none, 0) := by
        have hcurrent : g.current history net = none := Option.eq_none_iff_forall_ne_some.mpr
          fun c hc => List.not_mem_nil (hne ▸ (current_mem hg hc).1)
        rw [hne, List.foldl_nil, start, hcurrent]
        rfl
      rw [select, loop_eq, hloop] at ho
      have hfind := (Prod.mk.inj ho).1
      exact ⟨List.mem_of_find?_eq_some hfind, by simpa using List.find?_some hfind⟩
    · obtain ⟨c, hc, hfold⟩ := foldl_candidates hg t hne
      obtain rfl := Option.some.inj (Prod.mk.inj ((select_of_foldl hfold).symm.trans ho)).1
      obtain ⟨hmem, heligible, -⟩ := mem_candidates_iff.mp hc
      simp only [eligible, Bool.and_eq_true, decide_eq_true_eq] at heligible
      exact ⟨hmem, heligible.1⟩
  unfold URLTestGroup.updateSelected
  split
  next o found ho =>
    split
    · intro net' c hc
      dsimp only at hc
      by_cases hnet : net' = net
      · subst hnet
        rw [Function.update_self] at hc
        exact hselect c _ (hc ▸ ho)
      · rw [Function.update_of_ne hnet] at hc
        exact hg net' c hc
    · exact hg
  next => exact hg

/-- Two members without a current choice. -/
def sampleGroup : URLTestGroup where
  outbounds := RoundRobin.sampleMembers
  preferredTags := []
  realTag := Outbound.tag
  selectedOutbound _ := none

/-- The recorded delays of the two members. -/
def recorded (first second : Fin 65536) : Histories := fun tag =>
  if tag = "a" then some ⟨first, false⟩ else if tag = "b" then some ⟨second, false⟩ else none

end URLTestGroup

end PokrovCore.Group
