import Mathlib.Tactic.Linarith
import Mathlib.Data.Int.Order.Basic
import Mathlib.Tactic.IntervalCases

/-!
The proleptic Gregorian calendar: a day by its number from 0000-01-01 and by year, month and
day.

Proved here:

* `yearOf_spec`: the year a day lies in;
* `dayNumber_dateOf`: a day is the number of its date;
* `Date.Valid.number_lt`, `Date.Valid.lt_of_number_lt`: days are ordered by year, month and day.
-/

namespace Calendar

def isLeap (year : Int) : Bool := year % 4 = 0 && (year % 100 ≠ 0 || year % 400 = 0)

/-- The days from 0000-01-01 to the first of January. -/
def daysBeforeYear (year : Int) : Int :=
  365 * year + (year + 3) / 4 - (year + 99) / 100 + (year + 399) / 400

def yearLength (year : Int) : Int := if isLeap year then 366 else 365

/-- The days of the year before a month; before the thirteenth, all of them. -/
def daysBeforeMonth (year : Int) (month : Nat) : Int :=
  [0, 0, 31, 59, 90, 120, 151, 181, 212, 243, 273, 304, 334, 365].getD month 365 +
    if isLeap year && 2 < month then 1 else 0

def daysInMonth (year : Int) (month : Nat) : Int :=
  daysBeforeMonth year (month + 1) - daysBeforeMonth year month

/-- A day beyond its month counts on from it. -/
def dayNumber (year : Int) (month : Nat) (day : Int) : Int :=
  daysBeforeYear year + daysBeforeMonth year month + (day - 1)

structure Date where
  year : Int
  month : Nat
  day : Int
  deriving DecidableEq

structure Date.Valid (date : Date) : Prop where
  month_pos : 1 ≤ date.month
  month_le : date.month ≤ 12
  day_pos : 1 ≤ date.day
  day_le : date.day ≤ daysInMonth date.year date.month

instance (date : Date) : Decidable date.Valid :=
  decidable_of_iff (1 ≤ date.month ∧ date.month ≤ 12 ∧ 1 ≤ date.day ∧
      date.day ≤ daysInMonth date.year date.month)
    ⟨fun ⟨a, b, c, d⟩ => ⟨a, b, c, d⟩, fun h => ⟨h.1, h.2, h.3, h.4⟩⟩

def Date.number (date : Date) : Int := dayNumber date.year date.month date.day

/-! ## Years -/

theorem daysBeforeYear_succ (year : Int) :
    daysBeforeYear (year + 1) = daysBeforeYear year + yearLength year := by
  unfold daysBeforeYear yearLength isLeap
  by_cases hfour : year % 4 = 0
  · by_cases hhundred : year % 100 = 0
    · by_cases hcentury : year % 400 = 0
      · simp only [hfour, hhundred, hcentury, decide_true, ne_eq, not_true_eq_false, decide_false,
          Bool.or_true, Bool.and_true, if_true]
        omega
      · simp only [hfour, hhundred, hcentury, decide_true, ne_eq, not_true_eq_false, decide_false,
          Bool.or_false, Bool.and_false, Bool.false_eq_true, if_false]
        omega
    · simp only [hfour, hhundred, decide_true, ne_eq, not_false_eq_true, Bool.true_or,
        Bool.and_true, if_true]
      omega
  · simp only [hfour, decide_false, Bool.false_and, Bool.false_eq_true, if_false]
    omega

theorem yearLength_le (year : Int) : 365 ≤ yearLength year ∧ yearLength year ≤ 366 := by
  unfold yearLength
  split <;> omega

/-- Each year has its days. -/
theorem daysBeforeYear_le {year later : Int} (h : year ≤ later) :
    daysBeforeYear year + 365 * (later - year) ≤ daysBeforeYear later := by
  induction later, h using Int.leInduction with
  | base => omega
  | succ later _ ih =>
    rw [daysBeforeYear_succ]
    have hlength := yearLength_le later
    omega

/-- A guess by the mean length of a year is off by one at most. -/
def yearOf (day : Int) : Int :=
  let guess := 400 * day / 146097
  if day < daysBeforeYear guess then guess - 1
  else if daysBeforeYear (guess + 1) ≤ day then guess + 1
  else guess

theorem yearOf_spec (day : Int) :
    daysBeforeYear (yearOf day) ≤ day ∧ day < daysBeforeYear (yearOf day + 1) := by
  unfold yearOf
  generalize hguess : 400 * day / 146097 = guess
  have hbefore : daysBeforeYear (guess - 1) ≤ day := by
    unfold daysBeforeYear
    omega
  have hafter : day < daysBeforeYear (guess + 2) := by
    unfold daysBeforeYear
    omega
  dsimp only
  split
  · next hearly => exact ⟨hbefore, by rwa [Int.sub_add_cancel]⟩
  · next hnot =>
    split
    · next hlate => exact ⟨hlate, by rwa [Int.add_assoc]⟩
    · next hnotLate => exact ⟨Int.not_lt.1 hnot, Int.not_le.1 hnotLate⟩

/-- The year is early exactly where the day is. -/
theorem yearOf_lt_iff {day year : Int} : yearOf day < year ↔ day < daysBeforeYear year := by
  obtain ⟨hfrom, hto⟩ := yearOf_spec day
  constructor
  · intro hlt
    have hle := daysBeforeYear_le (show yearOf day + 1 ≤ year by omega)
    omega
  · intro hlt
    by_contra hnot
    have hle := daysBeforeYear_le (show year ≤ yearOf day by omega)
    omega

/-! ## Months -/

/-- The last of the first `month` months that has begun. -/
def monthUpTo (year dayOfYear : Int) : Nat → Nat
  | 0 => 0
  | month + 1 =>
    if daysBeforeMonth year (month + 1) ≤ dayOfYear then month + 1
    else monthUpTo year dayOfYear month

def dateOf (day : Int) : Date :=
  let year := yearOf day
  let dayOfYear := day - daysBeforeYear year
  let month := monthUpTo year dayOfYear 12
  ⟨year, month, dayOfYear - daysBeforeMonth year month + 1⟩

theorem daysBeforeMonth_one (year : Int) : daysBeforeMonth year 1 = 0 := by
  simp [daysBeforeMonth]

theorem daysBeforeMonth_thirteen (year : Int) : daysBeforeMonth year 13 = yearLength year := by
  unfold daysBeforeMonth yearLength
  cases isLeap year <;> rfl

theorem daysBeforeMonth_mono (year : Int) {month later : Nat} (h : month ≤ later)
    (hlater : later ≤ 13) : daysBeforeMonth year month ≤ daysBeforeMonth year later := by
  have hstep : ∀ m : Nat, m < 13 → daysBeforeMonth year m ≤ daysBeforeMonth year (m + 1) := by
    intro m hm
    unfold daysBeforeMonth
    cases isLeap year <;> revert m <;> decide
  induction later, h using Nat.le_induction with
  | base => exact Int.le_refl _
  | succ later _ ih => exact (ih (by omega)).trans (hstep later (by omega))

theorem monthUpTo_spec (year : Int) {dayOfYear : Int} (hpos : 0 ≤ dayOfYear) {bound : Nat}
    (hbound : 1 ≤ bound) (hless : dayOfYear < daysBeforeMonth year (bound + 1)) :
    1 ≤ monthUpTo year dayOfYear bound ∧ monthUpTo year dayOfYear bound ≤ bound ∧
      daysBeforeMonth year (monthUpTo year dayOfYear bound) ≤ dayOfYear ∧
      dayOfYear < daysBeforeMonth year (monthUpTo year dayOfYear bound + 1) := by
  induction bound with
  | zero => omega
  | succ month ih =>
    unfold monthUpTo
    split
    · next hbegun => exact ⟨hbound, Nat.le_refl _, hbegun, hless⟩
    · next hnot =>
      rcases Nat.eq_zero_or_pos month with rfl | hmonth
      · rw [daysBeforeMonth_one] at hnot
        exact absurd hpos hnot
      · obtain ⟨hone, hle, hfrom, hto⟩ := ih hmonth (Int.not_le.1 hnot)
        exact ⟨hone, hle.trans (Nat.le_succ _), hfrom, hto⟩

/-! ## Days -/

theorem dayNumber_dateOf (day : Int) : (dateOf day).number = day := by
  show daysBeforeYear _ + daysBeforeMonth _ _ + (_ + 1 - 1) = day
  simp only [dateOf]
  omega

theorem dateOf_valid (day : Int) : (dateOf day).Valid := by
  obtain ⟨hfrom, hto⟩ := yearOf_spec day
  rw [daysBeforeYear_succ, ← daysBeforeMonth_thirteen] at hto
  obtain ⟨hone, htwelve, hbegun, hbefore⟩ :=
    monthUpTo_spec (yearOf day) (show 0 ≤ day - daysBeforeYear (yearOf day) by omega)
      (show 1 ≤ 12 by omega) (Int.sub_left_lt_of_lt_add hto)
  refine ⟨hone, htwelve, ?_, ?_⟩
  · simp only [dateOf]
    omega
  · simp only [dateOf, daysInMonth]
    omega

/-- A valid date lies in its year. -/
theorem Date.Valid.number_mem {date : Date} (h : date.Valid) :
    daysBeforeYear date.year ≤ date.number ∧ date.number < daysBeforeYear (date.year + 1) ∧
      daysBeforeMonth date.year date.month ≤ date.number - daysBeforeYear date.year ∧
      date.number - daysBeforeYear date.year < daysBeforeMonth date.year (date.month + 1) := by
  obtain ⟨hone, htwelve, hday, hlast⟩ := h
  have hfirst := daysBeforeMonth_mono date.year hone (by omega)
  rw [daysBeforeMonth_one] at hfirst
  have hend := daysBeforeMonth_mono date.year (show date.month + 1 ≤ 13 by omega) (Nat.le_refl _)
  rw [daysBeforeYear_succ, ← daysBeforeMonth_thirteen]
  unfold Date.number dayNumber
  unfold daysInMonth at hlast
  omega

/-! ## The order of days -/

section Order

variable {date date' : Date}

/-- Days are ordered by year, then month, then day. -/
theorem Date.Valid.number_lt (h : date.Valid) (h' : date'.Valid)
    (hlt : date.year < date'.year ∨ date.year = date'.year ∧
      (date.month < date'.month ∨ date.month = date'.month ∧ date.day < date'.day)) :
    date.number < date'.number := by
  obtain ⟨hfrom, hto, hbegun, hbefore⟩ := h.number_mem
  obtain ⟨hfrom', hto', hbegun', hbefore'⟩ := h'.number_mem
  rcases hlt with hyear | ⟨hyear, hmonth | ⟨hmonth, hday⟩⟩
  · have hle := daysBeforeYear_le (show date.year + 1 ≤ date'.year by omega)
    omega
  · have hmono := daysBeforeMonth_mono date.year (show date.month + 1 ≤ date'.month by omega)
      (h'.month_le.trans (by omega))
    rw [hyear] at hbefore hmono
    omega
  · unfold Date.number dayNumber
    rw [hyear, hmonth]
    omega

theorem Date.Valid.lt_of_number_lt (h : date.Valid) (h' : date'.Valid)
    (hlt : date.number < date'.number) :
    date.year < date'.year ∨ date.year = date'.year ∧
      (date.month < date'.month ∨ date.month = date'.month ∧ date.day < date'.day) := by
  by_contra hnot
  rcases lt_trichotomy date.year date'.year with hyear | hyear | hyear
  · exact hnot (.inl hyear)
  · rcases lt_trichotomy date.month date'.month with hmonth | hmonth | hmonth
    · exact hnot (.inr ⟨hyear, .inl hmonth⟩)
    · unfold Date.number dayNumber at hlt
      rw [hyear, hmonth] at hlt
      exact hnot (.inr ⟨hyear, .inr ⟨hmonth, by omega⟩⟩)
    · have := h'.number_lt h (.inr ⟨hyear.symm, .inl hmonth⟩)
      omega
  · have := h'.number_lt h (.inl hyear)
    omega

theorem Date.Valid.day_le_31 (h : date.Valid) : date.day ≤ 31 := by
  have hlast := h.day_le
  have hone := h.month_pos
  have htwelve := h.month_le
  have hlength : daysInMonth date.year date.month ≤ 31 := by
    unfold daysInMonth daysBeforeMonth
    generalize date.month = month at hone htwelve
    cases isLeap date.year <;> interval_cases month <;> decide
  omega

end Order

example : dateOf (Date.number ⟨2024, 2, 29⟩ + 1) = ⟨2024, 3, 1⟩ := by decide +kernel

end Calendar
