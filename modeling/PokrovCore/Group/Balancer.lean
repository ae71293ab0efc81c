import Mathlib.Data.List.Induction
import Mathlib.Data.List.Sort
import Mathlib.Tactic.Ring

/-!
# Group/Balancer — the outbounds a round robin goes through

The outbounds of a network are sorted by their delays, and an index into the sorted list says how far
the round goes: to the last outbound whose delay is acceptable.  The greatest acceptable delay is a
product of floating-point numbers, and it is converted to 16 bits before it is compared.
-/

namespace PokrovCore.Group

/-- The networks of a group. -/
inductive Network
  | tcp
  | udp
  deriving DecidableEq, Repr

/-- A member of a group: its tag, and the networks it supports. -/
structure Outbound where
  tag : String
  network : List Network
  deriving DecidableEq, Repr

/-- `adapter.URLTestHistory`; the delay has 16 bits. -/
structure URLTestHistory where
  delay : Fin 65536
  isFromCache : Bool

/-- The histories, by tag. -/
abbrev Histories := String → Option URLTestHistory

def timeoutDelay : ℕ := 65535

/-- `getModifiedDelay` -/
def getModifiedDelay (his : URLTestHistory) : ℕ :=
  let delay := if his.delay.val = 0 then timeoutDelay else his.delay.val
  if his.isFromCache = true ∧ delay < 20000 then delay + 20000 else delay

/-- `getTagDelay` -/
def getTagDelay (history : Histories) (tag : String) : ℕ :=
  match history tag with
  | some his => getModifiedDelay his
  | none => timeoutDelay

section round

variable (round : ℕ → ℕ) (history : Histories)

/-- `sortOutboundsByDelay`, for one network; the sort is stable. -/
def sortOutboundsByDelay (outs : List Outbound) : List Outbound :=
  outs.insertionSort fun a b => getTagDelay history a.tag ≤ getTagDelay history b.tag

/-- The greatest acceptable delay: the product is rounded to a floating-point number, and of that the
lowest 16 bits are taken. -/
def maxAcceptableDelay (ratio minDelay : ℕ) : ℕ := round (max 100 minDelay * ratio) % 65536

/-- The last position with a delay up to a bound, and otherwise the first position. -/
def lastWithin (bound : ℕ) (sorted : List Outbound) : ℕ :=
  sorted.zipIdx.foldl
    (fun index o => if getTagDelay history o.1.tag ≤ bound then o.2 else index) 0

/-- `getAcceptableIndex`, for one network; without an outbound it panics. -/
def getAcceptableIndex (ratio : ℕ) (sorted : List Outbound) : Option ℕ :=
  sorted.head?.map fun first =>
    lastWithin history (maxAcceptableDelay round ratio (getTagDelay history first.tag)) sorted

end round

/-- **The round robin.** -/
structure RoundRobin where
  outbounds : Network → List Outbound
  sortedOutbounds : Network → List Outbound
  maxAcceptableIndex : Network → ℕ
  idx : Network → ℕ
  delayAcceptableRatio : ℕ

/-- `filterOutbounds`: those that support a network, or all if none does. -/
def filterOutbounds (outbounds : List Outbound) (net : Network) : List Outbound :=
  let res := outbounds.filter (net ∈ ·.network)
  if res = [] then outbounds else res

namespace RoundRobin

/-- `NewRoundRobin` -/
def newRoundRobin (outbounds : List Outbound) (ratio : ℕ) : RoundRobin where
  outbounds := filterOutbounds outbounds
  sortedOutbounds := filterOutbounds outbounds
  maxAcceptableIndex net := (filterOutbounds outbounds net).length - 1
  idx _ := 0
  delayAcceptableRatio := ratio

variable (round : ℕ → ℕ) (s : RoundRobin)

/-- `UpdateOutboundsInfo` -/
def updateOutboundsInfo (history : Histories) : Option RoundRobin :=
  let sorted net := sortOutboundsByDelay history (s.outbounds net)
  let index net := getAcceptableIndex round history s.delayAcceptableRatio (sorted net)
  (index .tcp).bind fun tcp =>
    (index .udp).map fun udp =>
      { s with
        sortedOutbounds := sorted
        maxAcceptableIndex := fun net => if net = .tcp then tcp else udp }

/-- The position `Select` takes next. -/
def next (net : Network) : ℕ := (s.idx net + 1) % (s.maxAcceptableIndex net + 1)

/-- `Select`; with `touch` the position is kept. -/
def select (net : Network) (touch : Bool) : Option Outbound × RoundRobin :=
  ((s.sortedOutbounds net)[s.next net]?,
    if touch then { s with idx := Function.update s.idx net (s.next net) } else s)

/-- The state after some calls of `Select`. -/
def afterSelects (net : Network) (touches : List Bool) : RoundRobin :=
  touches.foldl (fun s touch => (s.select net touch).2) s

/-- **An outbound that `Select` can return**, after some calls for its network. -/
def CanReturn (net : Network) (o : Outbound) : Prop :=
  ∃ touches touch, ((s.afterSelects net touches).select net touch).1 = some o

end RoundRobin

/-! ## The index -/

section index

variable {history : Histories} {bound : ℕ} {sorted : List Outbound} {o : Outbound}

theorem getTagDelay_le (history : Histories) (tag : String) : getTagDelay history tag ≤ 65535 := by
  unfold getTagDelay
  split
  next his _ =>
    have hlt := his.delay.isLt
    simp only [getModifiedDelay, timeoutDelay]
    split_ifs <;> omega
  next => exact Nat.le_refl _

theorem lastWithin_concat (sorted : List Outbound) (o : Outbound) :
    lastWithin history bound (sorted ++ [o]) =
      if getTagDelay history o.tag ≤ bound then sorted.length
      else lastWithin history bound sorted := by
  simp [lastWithin, List.zipIdx_append, List.foldl_append]

theorem lastWithin_lt (h : sorted ≠ []) : lastWithin history bound sorted < sorted.length := by
  induction sorted using List.reverseRecOn with
  | nil => exact absurd rfl h
  | append_singleton l o ih =>
    rw [lastWithin_concat, List.length_append, List.length_singleton]
    split
    · omega
    · cases l with
      | nil => exact Nat.zero_lt_one
      | cons a l => exact Nat.lt_succ_of_lt (ih (by simp))

/-- **The index is as far as the delays are within the bound**; the first position is always within
it. -/
theorem le_lastWithin_iff
    (hsorted : sorted.Pairwise fun a b => getTagDelay history a.tag ≤ getTagDelay history b.tag)
    {j : ℕ} (hj : sorted[j]? = some o) :
    j ≤ lastWithin history bound sorted ↔ getTagDelay history o.tag ≤ bound ∨ j = 0 := by
  induction sorted using List.reverseRecOn generalizing j with
  | nil => simp at hj
  | append_singleton l x ih =>
    obtain ⟨hl, -, hlast⟩ := List.pairwise_append.mp hsorted
    obtain ⟨hlen, hget⟩ := List.getElem?_eq_some_iff.mp hj
    rw [List.length_append, List.length_singleton] at hlen
    have hle : getTagDelay history o.tag ≤ getTagDelay history x.tag := by
      rcases List.mem_append.mp (List.mem_of_getElem? hj) with ho | ho
      · exact hlast o ho x (List.mem_singleton_self x)
      · rw [List.mem_singleton.mp ho]
    rw [lastWithin_concat]
    by_cases hx : getTagDelay history x.tag ≤ bound
    · rw [if_pos hx]
      exact iff_of_true (by omega) (.inl (hle.trans hx))
    · rw [if_neg hx]
      rcases Nat.lt_succ_iff_lt_or_eq.mp hlen with hlt | rfl
      · rw [List.getElem?_append_left hlt] at hj
        exact ih hl hj
      · -- the last one is out of bounds, and the index is before it unless it is alone
        obtain rfl : x = o := by simpa using hget
        cases l with
        | nil => simp [lastWithin]
        | cons a l =>
          have hlt := @lastWithin_lt history bound (a :: l) (by simp)
          simp only [List.length_cons] at hlt ⊢
          exact iff_of_false (by omega) (by omega)

end index

/-! ## The round -/

namespace RoundRobin

variable {round : ℕ → ℕ} {s s' : RoundRobin} {history : Histories} {net : Network} {o : Outbound}

theorem afterSelects_fields (touches : List Bool) :
    (s.afterSelects net touches).sortedOutbounds = s.sortedOutbounds ∧
      (s.afterSelects net touches).maxAcceptableIndex = s.maxAcceptableIndex := by
  induction touches generalizing s with
  | nil => exact ⟨rfl, rfl⟩
  | cons touch touches ih =>
    obtain ⟨hsorted, hindex⟩ := @ih (s.select net touch).2
    cases touch with
    | true => exact ⟨hsorted, hindex⟩
    | false => exact ⟨hsorted, hindex⟩

/-- The positions of calls that touch follow one another. -/
theorem next_afterSelects (n : ℕ) :
    (s.afterSelects net (List.replicate n true)).next net =
      (s.idx net + 1 + n) % (s.maxAcceptableIndex net + 1) := by
  induction n generalizing s with
  | zero => rfl
  | succ n ih =>
    have hnext := @ih (s.select net true).2
    have hidx : (s.select net true).2.idx net = s.next net := by simp [select]
    rw [hidx] at hnext
    refine hnext.trans ?_
    change ((s.idx net + 1) % (s.maxAcceptableIndex net + 1) + 1 + n) %
      (s.maxAcceptableIndex net + 1) = _
    rw [Nat.add_assoc, Nat.mod_add_mod]
    congr 1
    omega

/-- **The round goes through all positions up to the index.** -/
theorem canReturn_iff :
    s.CanReturn net o ↔
      ∃ j ≤ s.maxAcceptableIndex net, (s.sortedOutbounds net)[j]? = some o := by
  constructor
  · rintro ⟨touches, touch, ho⟩
    obtain ⟨hsorted, hindex⟩ := @afterSelects_fields s net touches
    refine ⟨(s.afterSelects net touches).next net, ?_, ?_⟩
    · have hlt := Nat.mod_lt ((s.afterSelects net touches).idx net + 1)
        (Nat.succ_pos ((s.afterSelects net touches).maxAcceptableIndex net))
      rw [hindex] at hlt
      rw [next, hindex]
      exact Nat.le_of_lt_succ hlt
    · rw [← hsorted]
      exact ho
  · rintro ⟨j, hj, ho⟩
    -- so many calls that the positions have come around to `j`
    have hnext := @next_afterSelects s net (s.maxAcceptableIndex net * (s.idx net + 1) + j)
    have hmod : (s.idx net + 1 + (s.maxAcceptableIndex net * (s.idx net + 1) + j)) %
        (s.maxAcceptableIndex net + 1) = j := by
      have hsum : s.idx net + 1 + (s.maxAcceptableIndex net * (s.idx net + 1) + j) =
          j + (s.maxAcceptableIndex net + 1) * (s.idx net + 1) := by ring
      rw [hsum, Nat.add_mul_mod_self_left, Nat.mod_eq_of_lt (Nat.lt_succ_of_le hj)]
    refine ⟨List.replicate (s.maxAcceptableIndex net * (s.idx net + 1) + j) true, true, ?_⟩
    rw [select, (afterSelects_fields _).1, hnext, hmod]
    exact ho

/-- An update sorts the outbounds, and sets the index of each network. -/
theorem updateOutboundsInfo_spec (hs : s.updateOutboundsInfo round history = some s')
    (net : Network) :
    ∃ first, (sortOutboundsByDelay history (s.outbounds net)).head? = some first ∧
      s'.sortedOutbounds net = sortOutboundsByDelay history (s.outbounds net) ∧
      s'.maxAcceptableIndex net = lastWithin history
        (maxAcceptableDelay round s.delayAcceptableRatio (getTagDelay history first.tag))
        (sortOutboundsByDelay history (s.outbounds net)) := by
  obtain ⟨tcp, htcp, hs⟩ := Option.bind_eq_some_iff.mp hs
  obtain ⟨udp, hudp, rfl⟩ := Option.map_eq_some_iff.mp hs
  cases net with
  | tcp =>
    obtain ⟨first, hfirst, rfl⟩ := Option.map_eq_some_iff.mp htcp
    exact ⟨first, hfirst, rfl, rfl⟩
  | udp =>
    obtain ⟨first, hfirst, rfl⟩ := Option.map_eq_some_iff.mp hudp
    exact ⟨first, hfirst, rfl, rfl⟩

/-- What can be returned: the outbounds within the converted bound, and the first. -/
theorem canReturn_update_iff (hs : s.updateOutboundsInfo round history = some s') {m : ℕ}
    (hm : IsLeast {d | ∃ o ∈ s.outbounds net, getTagDelay history o.tag = d} m) :
    ∃ first ∈ s.outbounds net, getTagDelay history first.tag = m ∧
      ∀ o, s'.CanReturn net o ↔ o ∈ s.outbounds net ∧
        (getTagDelay history o.tag ≤ maxAcceptableDelay round s.delayAcceptableRatio m ∨
          o = first) := by
  obtain ⟨first, hfirst, hsorted, hindex⟩ := updateOutboundsInfo_spec hs net
  have hperm : (sortOutboundsByDelay history (s.outbounds net)).Perm (s.outbounds net) :=
    List.perm_insertionSort ..
  have hpair : (sortOutboundsByDelay history (s.outbounds net)).Pairwise fun a b =>
      getTagDelay history a.tag ≤ getTagDelay history b.tag := by
    refine @List.pairwise_insertionSort _ _ _ ⟨fun a b => ?_⟩ ⟨fun a b c => ?_⟩ _
    · exact Nat.le_total _ _
    · exact Nat.le_trans
  have hzero : (sortOutboundsByDelay history (s.outbounds net))[0]? = some first := by
    rw [← List.head?_eq_getElem?, hfirst]
  have hleast : getTagDelay history first.tag = m := by
    obtain ⟨⟨o, ho, hdelay⟩, hle⟩ := hm
    refine Nat.le_antisymm ?_ (hle ⟨first, hperm.mem_iff.mp (List.mem_of_getElem? hzero), rfl⟩)
    obtain ⟨rest, hcons⟩ := List.head?_eq_some_iff.mp hfirst
    rw [hcons] at hperm hpair
    rcases List.mem_cons.mp (hperm.mem_iff.mpr ho) with rfl | ho
    · exact hdelay.le
    · exact hdelay ▸ (List.pairwise_cons.mp hpair).1 o ho
  refine ⟨first, hperm.mem_iff.mp (List.mem_of_getElem? hzero), hleast, fun o => ?_⟩
  rw [canReturn_iff, hsorted, hindex, hleast, ← hperm.mem_iff, List.mem_iff_getElem?]
  constructor
  · rintro ⟨j, hj, ho⟩
    refine ⟨⟨j, ho⟩, ((le_lastWithin_iff hpair ho).mp hj).imp_right ?_⟩
    rintro rfl
    exact Option.some.inj (ho.symm.trans hzero)
  · rintro ⟨⟨j, ho⟩, hwithin | rfl⟩
    · exact ⟨j, (le_lastWithin_iff hpair ho).mpr (.inl hwithin), ho⟩
    · exact ⟨0, Nat.zero_le _, hzero⟩

/-- **The outbounds that can be returned are those whose delay the ratio accepts, exactly when the
greatest acceptable delay has 16 bits**, or loses none of the outbounds by being cut, or there is only
one outbound.  `round` is the rounding of a product to a floating-point number. -/
theorem balancer_acceptable_iff (round : ℕ → ℕ) (hround : ∀ n ≤ 2 ^ 53, round n = n)
    (s s' : RoundRobin) (history : Histories) (hratio : 1 ≤ s.delayAcceptableRatio)
    (hs : s.updateOutboundsInfo round history = some s') (net : Network) (m : ℕ)
    (hm : IsLeast {d | ∃ o ∈ s.outbounds net, getTagDelay history o.tag = d} m) :
    (∀ o, s'.CanReturn net o ↔
      o ∈ s.outbounds net ∧ getTagDelay history o.tag ≤ s.delayAcceptableRatio * max 100 m) ↔
      s.delayAcceptableRatio * max 100 m < 65536 ∨
        (∀ o ∈ s.outbounds net, getTagDelay history o.tag ≤
          round (max 100 m * s.delayAcceptableRatio) % 65536) ∨
        ∀ o ∈ s.outbounds net, ∀ o' ∈ s.outbounds net, o = o' := by
  obtain ⟨first, hfirst, hdelay, hreturn⟩ := canReturn_update_iff hs hm
  have hleast : ∀ o ∈ s.outbounds net, m ≤ getTagDelay history o.tag := fun o ho => hm.2 ⟨o, ho, rfl⟩
  simp only [hreturn, maxAcceptableDelay]
  rw [Nat.mul_comm (max 100 m)]
  by_cases hfits : s.delayAcceptableRatio * max 100 m < 65536
  · rw [hround _ (by omega), Nat.mod_eq_of_lt hfits]
    refine iff_of_true (fun o => and_congr_right fun _ => or_iff_left_of_imp ?_) (.inl hfits)
    rintro rfl
    rw [hdelay]
    exact (Nat.le_max_right 100 m).trans (Nat.le_mul_of_pos_left _ hratio)
  · -- every delay is below the product, so that all outbounds are acceptable
    have hall : ∀ o : Outbound, getTagDelay history o.tag ≤ s.delayAcceptableRatio * max 100 m :=
      fun o => (getTagDelay_le history o.tag).trans (by omega)
    constructor
    · intro h
      have hcut := fun o ho => (((h o).mpr ⟨ho, hall o⟩).2)
      by_cases hm' : m ≤ round (s.delayAcceptableRatio * max 100 m) % 65536
      · refine .inr (.inl fun o ho => (hcut o ho).elim id ?_)
        rintro rfl
        rwa [hdelay]
      · have hone : ∀ o ∈ s.outbounds net, o = first := fun o ho =>
          (hcut o ho).resolve_left fun hle => hm' ((hleast o ho).trans hle)
        exact .inr (.inr fun o ho o' ho' => (hone o ho).trans (hone o' ho').symm)
    · rintro (h | h | h) o
      · exact absurd h hfits
      · exact and_congr_right fun ho => iff_of_true (.inl (h o ho)) (hall o)
      · exact and_congr_right fun ho => iff_of_true (.inr (h o ho first hfirst)) (hall o)

/-- Two members, behind the builder's ratio. -/
def sampleMembers : List Outbound := [⟨"a", [.tcp, .udp]⟩, ⟨"b", [.tcp, .udp]⟩]
@[inherit_doc sampleMembers] def sampleRobin : RoundRobin := newRoundRobin sampleMembers 2

/-- One member was tested, the other one was not. -/
def oneTested : Histories := fun tag => if tag = "b" then some ⟨80, false⟩ else none

theorem balancer_acceptable_tested :
    ∃ s', sampleRobin.updateOutboundsInfo id oneTested = some s' ∧
      ∀ o, s'.CanReturn .tcp o ↔ o ∈ sampleMembers ∧ getTagDelay oneTested o.tag ≤ 2 * max 100 80 := by
  have hleast : IsLeast {d | ∃ o ∈ sampleMembers, getTagDelay oneTested o.tag = d} 80 := by
    refine ⟨⟨⟨"b", [.tcp, .udp]⟩, by decide, by decide⟩, ?_⟩
    rintro _ ⟨o, ho, rfl⟩
    simp only [sampleMembers, List.mem_cons, List.not_mem_nil, or_false] at ho
    rcases ho with rfl | rfl <;> decide
  refine ⟨_, rfl, ?_⟩
  exact (balancer_acceptable_iff id (fun _ _ => rfl) sampleRobin _ oneTested (by decide) rfl .tcp 80
    hleast).mpr (.inl (by decide))

/-- **When no member was tested, all of them have the least delay, and only one is returned.** -/
theorem balancer_drops_untested :
    ∃ s', sampleRobin.updateOutboundsInfo id (fun _ => none) = some s' ∧
      (∀ o ∈ sampleMembers, getTagDelay (fun _ => none) o.tag = 65535) ∧
      ¬s'.CanReturn .tcp ⟨"b", [.tcp, .udp]⟩ := by
  refine ⟨_, rfl, by decide, fun h => ?_⟩
  obtain ⟨j, hj, ho⟩ := canReturn_iff.mp h
  obtain rfl : j = 0 := Nat.le_zero.mp hj
  revert ho
  decide

end RoundRobin

end PokrovCore.Group
