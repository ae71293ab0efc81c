import Mathlib.Algebra.BigOperators.Group.List.Basic
import PokrovCore.Foundations.Time

/-!
# Foundations/Calendar — whole-second UTC dates and their one canonical text

A `Date` is a second of the proleptic Gregorian years `0000 … 9999`.  Its text is
`YYYY-MM-DDThh:mm:ssZ`, twenty characters; `Date.parse` accepts a text only if formatting the date
it names gives the text back, so every date has exactly one accepted spelling (`parse_format`,
`format_of_parse`).
-/

namespace PokrovCore

/-! ## Days and years -/

namespace Calendar

/-- The days before January 1st of year `y`: one leap day for every fourth year, none for the
hundredths, one again for the four-hundredths.  Year 0 is a leap year. -/
def daysBeforeYear (y : ℕ) : ℕ := 365 * y + (y + 3) / 4 - (y + 99) / 100 + (y + 399) / 400

/-- Is `y` a leap year? -/
def isLeap (y : ℕ) : Bool := y % 4 == 0 && (y % 100 != 0 || y % 400 == 0)

/-- The year a day falls in: the mean-year estimate, corrected by at most one. -/
def yearOfDay (d : ℕ) : ℕ :=
  let y := d * 400 / 146097
  if d < daysBeforeYear y then y - 1
  else if daysBeforeYear (y + 1) ≤ d then y + 1
  else y

/-- The lengths of the months of a year. -/
def monthLengths (leap : Bool) : List ℕ :=
  [31, if leap then 29 else 28, 31, 30, 31, 30, 31, 31, 30, 31, 30, 31]

/-- The zero-based month and day of a day of the year. -/
def splitMonth : List ℕ → ℕ → ℕ × ℕ
  | [], d => (0, d)
  | n :: ns, d => if d < n then (0, d) else ((splitMonth ns (d - n)).1 + 1, (splitMonth ns (d - n)).2)

theorem daysBeforeYear_succ (y : ℕ) :
    daysBeforeYear (y + 1) = daysBeforeYear y + (monthLengths (isLeap y)).sum := by
  have h4 : (y + 1 + 3) / 4 = (y + 3) / 4 + if y % 4 = 0 then 1 else 0 := by split_ifs <;> omega
  have h100 : (y + 1 + 99) / 100 = (y + 99) / 100 + if y % 100 = 0 then 1 else 0 := by
    split_ifs <;> omega
  have h400 : (y + 1 + 399) / 400 = (y + 399) / 400 + if y % 400 = 0 then 1 else 0 := by
    split_ifs <;> omega
  have hle : (y + 99) / 100 ≤ 365 * y + (y + 3) / 4 := by omega
  have hm : y % 400 = 0 → y % 100 = 0 := fun h => by omega
  have hm' : y % 100 = 0 → y % 4 = 0 := fun h => by omega
  unfold daysBeforeYear
  rw [h4, h100, h400]
  generalize (y + 3) / 4 = a at *
  generalize (y + 99) / 100 = b at *
  generalize (y + 399) / 400 = c at *
  by_cases c4 : y % 4 = 0 <;> by_cases c100 : y % 100 = 0 <;> by_cases c400 : y % 400 = 0 <;>
    simp_all [isLeap, monthLengths] <;> omega

/-- Four hundred years have 146097 days, so a year is within two days of its mean start. -/
theorem daysBeforeYear_bounds (y : ℕ) :
    146097 * y ≤ 400 * daysBeforeYear y + 396 ∧ 400 * daysBeforeYear y ≤ 146097 * y + 699 := by
  unfold daysBeforeYear
  omega

theorem monthLengths_sum (leap : Bool) :
    (monthLengths leap).sum = if leap then 366 else 365 := by cases leap <;> rfl

theorem daysBeforeYear_le_succ (y : ℕ) :
    daysBeforeYear y + 365 ≤ daysBeforeYear (y + 1) := by
  rw [daysBeforeYear_succ, monthLengths_sum]
  split_ifs <;> omega

/-- **The year a day falls in brackets it.** -/
theorem yearOfDay_spec (d : ℕ) :
    daysBeforeYear (yearOfDay d) ≤ d ∧ d < daysBeforeYear (yearOfDay d + 1) := by
  have hlo : d * 400 / 146097 * 146097 ≤ d * 400 := Nat.div_mul_le_self _ _
  have hhi : d * 400 < d * 400 / 146097 * 146097 + 146097 :=
    Nat.lt_div_mul_add (by decide)
  unfold yearOfDay
  generalize d * 400 / 146097 = y at hlo hhi
  dsimp only
  split_ifs with h1 h2
  · obtain ⟨k, rfl⟩ : ∃ k, y = k + 1 := Nat.exists_eq_succ_of_ne_zero fun h0 => by
      subst h0
      exact absurd h1 (by simp [daysBeforeYear])
    have hb := daysBeforeYear_bounds (k + 1)
    have hs := daysBeforeYear_le_succ k
    rw [Nat.add_sub_cancel]
    omega
  · have hb := daysBeforeYear_bounds (y + 1)
    have hs := daysBeforeYear_le_succ (y + 1)
    omega
  · exact ⟨not_lt.mp h1, not_le.mp h2⟩

/-- **Splitting a day of the year into month and day.** -/
theorem splitMonth_spec : ∀ (ns : List ℕ) (d : ℕ), d < ns.sum →
    (splitMonth ns d).2 < ns.getD (splitMonth ns d).1 0 ∧ (splitMonth ns d).1 < ns.length ∧
      (ns.take (splitMonth ns d).1).sum + (splitMonth ns d).2 = d
  | [], d, h => by simp at h
  | n :: ns, d, h => by
    rw [splitMonth]
    split_ifs with hlt
    · simpa using hlt
    · rw [List.sum_cons] at h
      obtain ⟨h1, h2, h3⟩ := splitMonth_spec ns (d - n) (by omega)
      refine ⟨by simpa using h1, by simpa using h2, ?_⟩
      simp only [List.take_succ_cons, List.sum_cons]
      omega

end Calendar

/-! ## Dates -/

/-- A whole second of the years `0000 … 9999`, counted from the start of year 0. -/
structure Date where
  sec : ℕ
  sec_lt : sec < 315569520000
  deriving DecidableEq, Repr

namespace Date

open Calendar

theorem ext_sec {d e : Date} (h : d.sec = e.sec) : d = e := by
  obtain ⟨s, _⟩ := d
  obtain ⟨s', _⟩ := e
  subst h
  rfl

instance : LinearOrder Date := LinearOrder.lift' sec fun _ _ => ext_sec

theorem lt_iff_sec {d e : Date} : d < e ↔ d.sec < e.sec := Iff.rfl

theorem le_iff_sec {d e : Date} : d ≤ e ↔ d.sec ≤ e.sec := Iff.rfl

/-- The start of year 1, where instants count from. -/
def yearOne : ℕ := 31622400

/-- A date as an instant: it has no monotonic reading. -/
def toTime (d : Date) : Time := ⟨((d.sec : ℤ) - yearOne) * Time.second, none⟩

variable (d : Date)

@[simp] theorem toTime_mono : d.toTime.mono = none := rfl

theorem toTime_wall_lt {d e : Date} : d.toTime.wall < e.toTime.wall ↔ d < e := by
  simp only [toTime, Time.second, lt_iff_sec]
  omega

theorem toTime_before (e : Date) : d.toTime.before e.toTime = decide (d < e) := by
  rw [Time.before_of_mono_eq_none (toTime_mono e)]
  exact decide_eq_decide.mpr toTime_wall_lt

/-- A sample compares with a date on the wall clock. -/
theorem ofSample_before (r : Sample) (d : Date) :
    (Time.ofSample r).before d.toTime = decide (r.wall < d.toTime.wall) :=
  Time.before_of_mono_eq_none (toTime_mono d)

/-! ## The canonical text -/

/-- A decimal digit. -/
def digit (n : ℕ) : Char := Char.ofNat (48 + n)

/-- The value of a decimal digit. -/
def digit? (c : Char) : Option ℕ := if c.isDigit then some (c.toNat - 48) else none

/-- Two digits. -/
def two (n : ℕ) : List Char := [digit (n / 10), digit (n % 10)]

/-- The number a run of digits spells. -/
def number? (cs : List Char) : Option ℕ :=
  cs.foldl (fun acc c => acc.bind fun n => (digit? c).map (10 * n + ·)) (some 0)

/-- The day a date falls on, the second of that day, the year, and the zero-based month and day. -/
def day (d : Date) : ℕ := d.sec / 86400
@[inherit_doc day] def clock (d : Date) : ℕ := d.sec % 86400
@[inherit_doc day] def year (d : Date) : ℕ := yearOfDay d.day
@[inherit_doc day] def monthDay (d : Date) : ℕ × ℕ :=
  splitMonth (monthLengths (isLeap d.year)) (d.day - daysBeforeYear d.year)

/-- The characters of a date's text. -/
def chars (d : Date) : List Char :=
  two (d.year / 100) ++ two (d.year % 100)
    ++ '-' :: two (d.monthDay.1 + 1) ++ '-' :: two (d.monthDay.2 + 1)
    ++ 'T' :: two (d.clock / 3600) ++ ':' :: two (d.clock / 60 % 60) ++ ':' :: two (d.clock % 60)
    ++ ['Z']

/-- **The canonical text of a date**, `YYYY-MM-DDThh:mm:ssZ`. -/
def format (d : Date) : String := String.ofList d.chars

/-- The second the six fields of a text name. -/
def secOfFields (y mo dy h mi s : ℕ) : ℕ :=
  (daysBeforeYear y + ((monthLengths (isLeap y)).take (mo - 1)).sum + (dy - 1)) * 86400
    + h * 3600 + mi * 60 + s

/-- The second named by twenty characters of the right shape. -/
def readChars : List Char → Option ℕ
  | [y₁, y₂, y₃, y₄, '-', m₁, m₂, '-', d₁, d₂, 'T', h₁, h₂, ':', i₁, i₂, ':', s₁, s₂, 'Z'] => do
    let y ← number? [y₁, y₂, y₃, y₄]
    let mo ← number? [m₁, m₂]
    let dy ← number? [d₁, d₂]
    let h ← number? [h₁, h₂]
    let mi ← number? [i₁, i₂]
    let s ← number? [s₁, s₂]
    return secOfFields y mo dy h mi s
  | _ => none

/-- **Reading a date**: a text is accepted only if it is the canonical text of the date it
names, so a field out of range or a non-canonical spelling is refused. -/
def parse (text : String) : Option Date := do
  let n ← readChars text.toList
  if h : n < 315569520000 then
    if (Date.mk n h).format = text then some ⟨n, h⟩ else none
  else none

theorem format_of_parse {text : String} {d : Date} (h : parse text = some d) :
    d.format = text := by
  simp only [parse, Option.bind_eq_bind, Option.bind_eq_some_iff] at h
  obtain ⟨n, _, hn⟩ := h
  split_ifs at hn with hlt hf
  obtain rfl := Option.some.inj hn
  exact hf

theorem digit?_digit {n : ℕ} (h : n < 10) : digit? (digit n) = some n := by
  have : ∀ k < 10, digit? (digit k) = some k := by decide
  exact this n h

theorem number?_two {n : ℕ} (h : n < 100) : number? [digit (n / 10), digit (n % 10)] = some n := by
  simp only [number?, List.foldl_cons, List.foldl_nil, Option.bind_some,
    digit?_digit (show n / 10 < 10 by omega), digit?_digit (show n % 10 < 10 by omega),
    Option.map_some]
  exact congrArg some (by omega)

theorem number?_four {n : ℕ} (h : n < 10000) :
    number? [digit (n / 100 / 10), digit (n / 100 % 10), digit (n % 100 / 10),
      digit (n % 100 % 10)] = some n := by
  simp only [number?, List.foldl_cons, List.foldl_nil, Option.bind_some,
    digit?_digit (show n / 100 / 10 < 10 by omega), digit?_digit (show n / 100 % 10 < 10 by omega),
    digit?_digit (show n % 100 / 10 < 10 by omega), digit?_digit (show n % 100 % 10 < 10 by omega),
    Option.map_some]
  exact congrArg some (by omega)

theorem year_lt : d.year < 10000 := by
  obtain ⟨hlo, _⟩ := yearOfDay_spec d.day
  have hb := daysBeforeYear_bounds d.year
  have hday : d.day < 3652425 := Nat.div_lt_of_lt_mul d.sec_lt
  change daysBeforeYear d.year ≤ d.day at hlo
  omega

theorem monthLengths_getD_le (leap : Bool) (m : ℕ) : (monthLengths leap).getD m 0 ≤ 31 := by
  have hall : ∀ n ∈ monthLengths leap, n ≤ 31 := by cases leap <;> decide
  rw [List.getD_eq_getElem?_getD]
  cases hm : (monthLengths leap)[m]? with
  | none => simp
  | some n => exact hall n (List.mem_of_getElem? hm)

/-- Month and day are in range and recover the day. -/
theorem monthDay_spec : d.monthDay.1 < 12 ∧ d.monthDay.2 < 31 ∧
    daysBeforeYear d.year + ((monthLengths (isLeap d.year)).take d.monthDay.1).sum + d.monthDay.2
      = d.day := by
  obtain ⟨hlo, hhi⟩ := yearOfDay_spec d.day
  rw [daysBeforeYear_succ] at hhi
  change daysBeforeYear d.year ≤ d.day at hlo
  change d.day < daysBeforeYear d.year + (monthLengths (isLeap d.year)).sum at hhi
  obtain ⟨h1, h2, h3⟩ := splitMonth_spec (monthLengths (isLeap d.year))
    (d.day - daysBeforeYear d.year) (by omega)
  change d.monthDay.2 < (monthLengths (isLeap d.year)).getD d.monthDay.1 0 at h1
  change ((monthLengths (isLeap d.year)).take d.monthDay.1).sum + d.monthDay.2 = _ at h3
  exact ⟨h2, lt_of_lt_of_le h1 (monthLengths_getD_le _ _), by omega⟩

theorem clock_fields (c : ℕ) : c / 3600 * 3600 + c / 60 % 60 * 60 + c % 60 = c := by omega

/-- The calendar fields of a date name its second. -/
theorem secOfFields_eq :
    secOfFields d.year (d.monthDay.1 + 1) (d.monthDay.2 + 1) (d.clock / 3600) (d.clock / 60 % 60)
      (d.clock % 60) = d.sec := by
  have hd := (monthDay_spec d).2.2
  have hs : d.day * 86400 + d.clock = d.sec := by simp only [day, clock]; omega
  rw [secOfFields, Nat.add_sub_cancel, Nat.add_sub_cancel, hd, ← hs, Nat.add_assoc, Nat.add_assoc,
    ← Nat.add_assoc (d.clock / 3600 * 3600), clock_fields]

/-- **A formatted date reads back** — the text is canonical by construction. -/
theorem parse_format : parse d.format = some d := by
  have hmd := monthDay_spec d
  have hclock : d.clock < 86400 := Nat.mod_lt _ (by decide)
  have hread : readChars d.format.toList = some d.sec := by
    rw [format, String.toList_ofList]
    simp only [chars, two, List.cons_append, List.nil_append, readChars]
    rw [number?_four (year_lt d), number?_two (by omega), number?_two (by omega),
      number?_two (by omega), number?_two (by omega), number?_two (by omega)]
    exact congrArg some (secOfFields_eq d)
  simp only [parse, hread, Option.bind_eq_bind, Option.bind_some, d.sec_lt, dif_pos, if_pos]

theorem format_injective : Function.Injective format := fun d e h =>
  Option.some.inj ((parse_format d).symm.trans ((congrArg parse h).trans (parse_format e)))

end Date

/-- Is a sample earlier than a date? -/
def Sample.beforeDate (r : Sample) (d : Date) : Bool := (Time.ofSample r).before d.toTime

/-- The instant of a date counted from a sample, so that it has the sample's clocks. -/
def Sample.deadline (r : Sample) (d : Date) : Sample := r.add (d.toTime.sub (Time.ofSample r))

end PokrovCore
