import FoundingSales.Rules.LocalDates
import FoundingSales.Library.Workdays
import Mathlib.Data.Rat.Floor

/-!
Business days: no weekend, and no holiday of the workspace's calendar. The search for one looks at
400 days.

Proved here:

* `reads_searchFrom`, `reads_addBusinessDays`, `businessDaysAfter_eq`: the loops over dates are those
  over numbered days, as long as the dates last;
* `addBusinessDays_add`: adding twice is adding the sum, also where it is refused;
* `businessDays_counted`: what is added is counted back, and the addition is refused only where the
  dates end.
-/

namespace FoundingSales.Rules.BusinessDays

open Calendar Contracts.LocalClock LocalDates

structure WorkspaceHolidayCalendar where
  version : JsString
  dates : List JsString
  deriving DecidableEq

def emptyHolidayCalendar : WorkspaceHolidayCalendar := ⟨js "none.1", []⟩

def isWeekend (date : JsString) : Except LocalClockError Bool := do
  let weekday ← weekdayOfDate date
  return weekday = 0 || weekday = 6

def isBusinessDay (date : JsString) (calendar : WorkspaceHolidayCalendar) :
    Except LocalClockError Bool := do
  let weekend ← isWeekend date
  return !weekend && date ∉ calendar.dates

def noBusinessDay : LocalClockError :=
  ⟨.dateInvalid, js "the holiday calendar leaves no business day within a year"⟩

/-- The loop of `nextBusinessDayOnOrAfter`, with `steps` steps left. -/
def searchFrom (calendar : WorkspaceHolidayCalendar) : Nat → JsString → Except LocalClockError JsString
  | 0, _ => .error noBusinessDay
  | steps + 1, candidate => do
    if ← isBusinessDay candidate calendar then
      return candidate
    else
      let next ← addCalendarDays candidate 1
      searchFrom calendar steps next

def nextBusinessDayOnOrAfter (date : JsString) (calendar : WorkspaceHolidayCalendar) :
    Except LocalClockError JsString :=
  searchFrom calendar 400 date

/-- The loop of `addBusinessDays`, with `remaining` days left. -/
def addRemaining (calendar : WorkspaceHolidayCalendar) :
    Nat → JsString → Except LocalClockError JsString
  | 0, candidate => .ok candidate
  | remaining + 1, candidate => do
    let next ← addCalendarDays candidate 1
    let found ← nextBusinessDayOnOrAfter next calendar
    addRemaining calendar remaining found

def negativeDelay : LocalClockError :=
  ⟨.dateInvalid, js "a business-day delay is a non-negative whole number of days"⟩

def addBusinessDays (date : JsString) (days : Int) (calendar : WorkspaceHolidayCalendar) :
    Except LocalClockError JsString :=
  if days < 0 then .error negativeDelay
  else do
    let candidate ← nextBusinessDayOnOrAfter date calendar
    addRemaining calendar days.toNat candidate

/-- The loop of `businessDaysAfter`, with `steps` steps left. -/
def countTo (calendar : WorkspaceHolidayCalendar) (last : JsString) :
    Nat → JsString → Nat → Except LocalClockError Nat
  | 0, _, count => .ok count
  | steps + 1, day, count =>
    if textLt day last then do
      let next ← addCalendarDays day 1
      let business ← isBusinessDay next calendar
      countTo calendar last steps next (if business then count + 1 else count)
    else .ok count

/-- How many business days come after one date and up to another. -/
def businessDaysAfter (first last : JsString) (calendar : WorkspaceHolidayCalendar) :
    Except LocalClockError Nat :=
  countTo calendar last 800 first 0

/-! ## Delays -/

inductive SequenceDelay
  | elapsed (hours : ℚ)
  | businessDays (days : Int)
  deriving DecidableEq

structure ResolvedDueInstant where
  dueAt : Int
  ruleVersion : JsString
  localDate : JsString
  deriving DecidableEq

def localDate (instant : Int) (zone : Zone) : JsString := (localParts instant zone).date

/-- `new Date(milliseconds)` drops what is less than a millisecond. -/
def timeClip (milliseconds : ℚ) : Int :=
  if 0 ≤ milliseconds then ⌊milliseconds⌋ else ⌈milliseconds⌉

def startOfWindow : LocalTimeOfDay := ⟨8, 0, none, none⟩

def resolveDelay (start : Int) (delay : SequenceDelay) (zone : Zone)
    (calendar : WorkspaceHolidayCalendar) : Except LocalClockError ResolvedDueInstant :=
  match delay with
  | .elapsed hours =>
    let dueAt := timeClip (start + hours * 3600000)
    .ok ⟨dueAt, js "elapsed.1", localDate dueAt zone⟩
  | .businessDays days => do
    let targetDate ← addBusinessDays (localDate start zone) days calendar
    let dueAt ← localInstant targetDate startOfWindow zone
    return ⟨dueAt, js "business-day.1+" ++ calendar.version, targetDate⟩

/-! ## Numbered days -/

/-- A day, up to 9999-12-31, that is no weekend and no holiday. -/
def businessDay (calendar : WorkspaceHolidayCalendar) (day : Int) : Bool :=
  day < endDay && !(weekdayOf day = 0 || weekdayOf day = 6) && isoDate day ∉ calendar.dates

/-- No 400 days in a row of the years 100 to 9999 are without a business day. -/
def RunsShort (calendar : WorkspaceHolidayCalendar) : Prop :=
  Workdays.Dense (businessDay calendar) 400 firstDay endDay

def Refused {α : Type} (result : Except LocalClockError α) : Prop :=
  ∃ message, result = .error ⟨.dateInvalid, message⟩

/-- The date of a day found, or a refusal. -/
def Reads (found : Option Int) (result : Except LocalClockError JsString) : Prop :=
  match found with
  | some day => result = .ok (isoDate day)
  | none => Refused result

section Days

variable {calendar : WorkspaceHolidayCalendar} {day day' found last : Int}

theorem isBusinessDay_isoDate (h : Dated day) :
    isBusinessDay (isoDate day) calendar = .ok (businessDay calendar day) := by
  unfold isBusinessDay isWeekend businessDay
  rw [weekdayOfDate_isoDate h, decide_eq_true h.lt_end, Bool.true_and]
  rfl

theorem lt_end_of_businessDay (h : businessDay calendar day = true) : day < endDay := by
  unfold businessDay at h
  simp only [Bool.and_eq_true, decide_eq_true_eq] at h
  exact h.1.1

theorem reads_searchFrom (steps : Nat) (hfirst : firstDay ≤ day) (hend : day ≤ endDay) :
    Reads (Workdays.nextWithin (businessDay calendar) steps day)
      (searchFrom calendar steps (isoDate day)) := by
  induction steps generalizing day with
  | zero => exact ⟨_, rfl⟩
  | succ steps ih =>
    rcases Int.lt_or_eq_of_le hend with hlt | rfl
    · have hdated : Dated day := ⟨hfirst, hlt⟩
      unfold Workdays.nextWithin searchFrom
      rw [isBusinessDay_isoDate hdated]
      cases businessDay calendar day
      · rw [addCalendarDays_isoDate hdated]
        exact ih (by omega) (by omega)
      · rfl
    · have hnone : Workdays.nextWithin (businessDay calendar) (steps + 1) endDay = none := by
        rw [Workdays.nextWithin_eq_none_iff]
        intro other hle _
        rw [← Bool.not_eq_true]
        exact fun hother => absurd (lt_end_of_businessDay hother) (Int.not_lt.2 hle)
      rw [hnone]
      unfold searchFrom isBusinessDay isWeekend
      rw [weekdayOfDate_after]
      exact ⟨_, rfl⟩

/-- What the search over days finds, the search over dates does. -/
theorem searchFrom_of_nextWithin {steps : Nat} (hday : Dated day)
    (h : Workdays.nextWithin (businessDay calendar) steps day = some found) :
    searchFrom calendar steps (isoDate day) = .ok (isoDate found) ∧ Dated found := by
  have hreads : Reads (Workdays.nextWithin (businessDay calendar) steps day)
      (searchFrom calendar steps (isoDate day)) :=
    reads_searchFrom steps hday.first_le (Int.le_of_lt hday.lt_end)
  rw [h] at hreads
  have hfound := (Workdays.nextWithin_eq_some_iff.1 h).1
  exact ⟨hreads, hday.first_le.trans hfound.le, lt_end_of_businessDay hfound.worked⟩

/-- The first business day from a date on. -/
theorem nextBusinessDayOnOrAfter_eq_ok {date : JsString} (hday : Dated day)
    (h : nextBusinessDayOnOrAfter (isoDate day) calendar = .ok date) :
    ∃ first, Workdays.IsNth (businessDay calendar) day 0 first ∧ Dated first ∧
      date = isoDate first := by
  have hreads : Reads (Workdays.nextWithin (businessDay calendar) 400 day)
      (searchFrom calendar 400 (isoDate day)) :=
    reads_searchFrom 400 hday.first_le (Int.le_of_lt hday.lt_end)
  unfold nextBusinessDayOnOrAfter at h
  cases hsearch : Workdays.nextWithin (businessDay calendar) 400 day with
  | none =>
    rw [hsearch] at hreads
    obtain ⟨message, hmessage⟩ := hreads
    rw [hmessage] at h
    cases h
  | some first =>
    obtain ⟨hok, hdated⟩ := searchFrom_of_nextWithin hday hsearch
    rw [hok] at h
    exact ⟨first, (Workdays.nextWithin_eq_some_iff.1 hsearch).1, hdated, (Except.ok.inj h).symm⟩

/-- Going on from a business day. -/
theorem reads_addRemaining {n m : Nat} (hfound : Dated found)
    (h : Workdays.advance (businessDay calendar) 400 n day = some found) :
    Reads (Workdays.advance (businessDay calendar) 400 (n + m) day)
      (addRemaining calendar m (isoDate found)) := by
  induction m generalizing n found with
  | zero =>
    rw [Nat.add_zero, h]
    rfl
  | succ m ih =>
    have hnext : Reads (Workdays.nextWithin (businessDay calendar) 400 (found + 1))
        (searchFrom calendar 400 (isoDate (found + 1))) :=
      reads_searchFrom 400 (by have := hfound.first_le; omega) (by have := hfound.lt_end; omega)
    unfold addRemaining nextBusinessDayOnOrAfter
    rw [addCalendarDays_isoDate hfound]
    have hadvance : Workdays.advance (businessDay calendar) 400 (n + 1) day =
        Workdays.nextWithin (businessDay calendar) 400 (found + 1) := by
      unfold Workdays.advance
      rw [h, Option.bind_some]
    cases hsearch : Workdays.nextWithin (businessDay calendar) 400 (found + 1) with
    | none =>
      rw [hsearch] at hnext hadvance
      have hnone : Workdays.advance (businessDay calendar) 400 (n + (m + 1)) day = none := by
        rw [show n + (m + 1) = n + 1 + m by omega]
        exact Workdays.advance_eq_none hadvance
      rw [hnone]
      obtain ⟨message, hmessage⟩ := hnext
      show Refused (searchFrom calendar 400 (isoDate (found + 1)) >>= _)
      rw [hmessage]
      exact ⟨message, rfl⟩
    | some next =>
      rw [hsearch] at hnext hadvance
      have hdated : Dated next := by
        have hisNth := (Workdays.nextWithin_eq_some_iff.1 hsearch).1
        exact ⟨by have := hisNth.le; have := hfound.first_le; omega,
          lt_end_of_businessDay hisNth.worked⟩
      show Reads _ (searchFrom calendar 400 (isoDate (found + 1)) >>= _)
      rw [show searchFrom calendar 400 (isoDate (found + 1)) = _ from hnext,
        show n + (m + 1) = n + 1 + m by omega]
      exact ih hdated hadvance

/-- Adding to a date is advancing from the day. -/
theorem reads_addBusinessDays (hday : Dated day) (n : Nat) :
    Reads (Workdays.advance (businessDay calendar) 400 n day)
      (addBusinessDays (isoDate day) n calendar) := by
  have hfirst : Reads (Workdays.nextWithin (businessDay calendar) 400 day)
      (searchFrom calendar 400 (isoDate day)) :=
    reads_searchFrom 400 hday.first_le (Int.le_of_lt hday.lt_end)
  unfold addBusinessDays nextBusinessDayOnOrAfter
  rw [if_neg (by omega), Int.toNat_natCast]
  cases hsearch : Workdays.nextWithin (businessDay calendar) 400 day with
  | none =>
    rw [hsearch] at hfirst
    have hnone : Workdays.advance (businessDay calendar) 400 (0 + n) day = none :=
      Workdays.advance_eq_none (show Workdays.advance (businessDay calendar) 400 0 day = none
        from hsearch)
    rw [Nat.zero_add] at hnone
    rw [hnone]
    obtain ⟨message, hmessage⟩ := hfirst
    rw [hmessage]
    exact ⟨message, rfl⟩
  | some first =>
    obtain ⟨hok, hdated⟩ := searchFrom_of_nextWithin hday hsearch
    rw [hok]
    have hreads := reads_addRemaining (m := n) hdated
      (show Workdays.advance (businessDay calendar) 400 0 day = some first from hsearch)
    rwa [Nat.zero_add] at hreads

/-- The loop counts the business days up to the last, or to its bound. -/
theorem countTo_eq (hday : Dated day) (hlast : Dated last) (steps count : Nat) :
    countTo calendar (isoDate last) steps (isoDate day) count =
      .ok (count + Workdays.count (businessDay calendar) day (min last (day + steps))) := by
  induction steps generalizing day count with
  | zero =>
    rw [Workdays.count_of_le (by omega)]
    rfl
  | succ steps ih =>
    unfold countTo
    rw [textLt_isoDate hday hlast]
    by_cases hlt : day < last
    · have hnext : Dated (day + 1) := ⟨by have := hday.first_le; omega,
        by have := hlast.lt_end; omega⟩
      rw [decide_eq_true hlt, if_pos rfl, addCalendarDays_isoDate hday]
      show (isBusinessDay (isoDate (day + 1)) calendar >>= _) = _
      rw [isBusinessDay_isoDate hnext]
      show countTo calendar (isoDate last) steps (isoDate (day + 1)) _ = _
      rw [ih hnext, show min last (day + ((steps + 1 : Nat) : Int))
          = min last (day + 1 + steps) by omega,
        Workdays.count_add (show day ≤ day + 1 by omega)
          (show day + 1 ≤ min last (day + 1 + steps) by omega),
        Workdays.count_succ (Int.le_refl day), Workdays.count_of_le (Int.le_refl day)]
      cases businessDay calendar (day + 1)
      · simp
      · simp [Nat.add_assoc]
    · rw [decide_eq_false hlt, if_neg (by simp), Workdays.count_of_le (by omega)]
      rfl

theorem businessDaysAfter_eq (hday : Dated day) (hlast : Dated last) :
    businessDaysAfter (isoDate day) (isoDate last) calendar =
      .ok (Workdays.count (businessDay calendar) day (min last (day + 800))) := by
  unfold businessDaysAfter
  rw [countTo_eq hday hlast, Nat.zero_add]
  rfl

/-! ## Adding -/

/-- What a loop ends at is a business day. -/
theorem isBusinessDay_of_searchFrom {steps : Nat} {date candidate : JsString}
    (h : searchFrom calendar steps date = .ok candidate) :
    isBusinessDay candidate calendar = .ok true := by
  induction steps generalizing date with
  | zero => cases h
  | succ steps ih =>
    unfold searchFrom at h
    cases hbusiness : isBusinessDay date calendar with
    | error e =>
      rw [hbusiness] at h
      cases h
    | ok business =>
      rw [hbusiness] at h
      cases business with
      | true => rwa [Except.ok.inj h] at hbusiness
      | false =>
        change addCalendarDays date 1 >>= searchFrom calendar steps = _ at h
        cases hnext : addCalendarDays date 1 with
        | error e =>
          rw [hnext] at h
          cases h
        | ok next =>
          rw [hnext] at h
          exact ih h

theorem nextBusinessDayOnOrAfter_self {date : JsString}
    (h : isBusinessDay date calendar = .ok true) :
    nextBusinessDayOnOrAfter date calendar = .ok date := by
  show searchFrom calendar (399 + 1) date = _
  unfold searchFrom
  rw [h]
  rfl

theorem addRemaining_add (n m : Nat) (date : JsString) :
    addRemaining calendar (n + m) date =
      addRemaining calendar n date >>= addRemaining calendar m := by
  induction n generalizing date with
  | zero =>
    rw [Nat.zero_add]
    rfl
  | succ n ih =>
    rw [Nat.succ_add]
    unfold addRemaining
    cases addCalendarDays date 1 with
    | error e => rfl
    | ok next =>
      show (nextBusinessDayOnOrAfter next calendar >>= _) =
        (nextBusinessDayOnOrAfter next calendar >>= _) >>= _
      cases nextBusinessDayOnOrAfter next calendar with
      | error e => rfl
      | ok found => exact ih found

theorem isBusinessDay_of_addRemaining {n : Nat} {date candidate : JsString}
    (hdate : isBusinessDay date calendar = .ok true)
    (h : addRemaining calendar n date = .ok candidate) :
    isBusinessDay candidate calendar = .ok true := by
  induction n generalizing date with
  | zero => rwa [← Except.ok.inj h]
  | succ n ih =>
    unfold addRemaining at h
    cases hnext : addCalendarDays date 1 with
    | error e =>
      rw [hnext] at h
      cases h
    | ok next =>
      rw [hnext] at h
      change nextBusinessDayOnOrAfter next calendar >>= _ = _ at h
      cases hfound : nextBusinessDayOnOrAfter next calendar with
      | error e =>
        rw [hfound] at h
        cases h
      | ok found =>
        rw [hfound] at h
        exact ih (isBusinessDay_of_searchFrom hfound) h

/-- Adding twice is adding the sum. -/
theorem addBusinessDays_add (date : JsString) (n m : Nat) :
    addBusinessDays date (n + m) calendar =
      addBusinessDays date n calendar >>= fun found => addBusinessDays found m calendar := by
  have hadd : ∀ k : Nat, addBusinessDays date k calendar =
      nextBusinessDayOnOrAfter date calendar >>= addRemaining calendar k := fun k => by
    unfold addBusinessDays
    rw [if_neg (by omega), Int.toNat_natCast]
  rw [← Int.natCast_add, hadd, hadd]
  cases hfirst : nextBusinessDayOnOrAfter date calendar with
  | error e => rfl
  | ok first =>
    show addRemaining calendar (n + m) first = addRemaining calendar n first >>= _
    rw [addRemaining_add]
    have hbusiness := isBusinessDay_of_searchFrom hfirst
    cases hfound : addRemaining calendar n first with
    | error e => rfl
    | ok found =>
      have hself := nextBusinessDayOnOrAfter_self (isBusinessDay_of_addRemaining hbusiness hfound)
      show addRemaining calendar m found = addBusinessDays found m calendar
      unfold addBusinessDays
      rw [if_neg (by omega), hself]
      rfl

/-- A date is added to as its day is advanced from. -/
theorem addBusinessDays_eq_ok_iff (hday : Dated day) (n : Nat) (date : JsString) :
    addBusinessDays (isoDate day) n calendar = .ok date ↔
      ∃ found, Workdays.advance (businessDay calendar) 400 n day = some found ∧
        Dated found ∧ date = isoDate found := by
  have hreads : Reads (Workdays.advance (businessDay calendar) 400 n day)
      (addBusinessDays (isoDate day) n calendar) := reads_addBusinessDays hday n
  cases hadvance : Workdays.advance (businessDay calendar) 400 n day with
  | none =>
    rw [hadvance] at hreads
    obtain ⟨message, hmessage⟩ := hreads
    rw [hmessage]
    constructor
    · intro h
      cases h
    · rintro ⟨found, hfound, -⟩
      cases hfound
  | some found =>
    rw [hadvance] at hreads
    have hisNth := Workdays.isNth_of_advance hadvance
    rw [show addBusinessDays (isoDate day) n calendar = .ok (isoDate found) from hreads,
      Except.ok.injEq]
    constructor
    · rintro rfl
      exact ⟨found, rfl, ⟨hday.first_le.trans hisNth.le, lt_end_of_businessDay hisNth.worked⟩, rfl⟩
    · rintro ⟨found', hfound, -, rfl⟩
      rw [Option.some.inj hfound]

/-! ## What is added -/

/-- The date that `n` business days after `day` come to. -/
structure Added (calendar : WorkspaceHolidayCalendar) (day : Int) (n : Nat) (first found : Int) :
    Prop where
  dated : Dated found
  /-- `first` is the first business day from `day` on. -/
  starts : nextBusinessDayOnOrAfter (isoDate day) calendar = .ok (isoDate first)
  starts_first : businessDay calendar first = true ∧ day ≤ first ∧
    ∀ other, day ≤ other → other < first → businessDay calendar other = false
  added : addBusinessDays (isoDate day) n calendar = .ok (isoDate found)
  business : businessDay calendar found = true
  counted : Workdays.count (businessDay calendar) first found = n
  counted_back : found - first ≤ 800 →
    businessDaysAfter (isoDate first) (isoDate found) calendar = .ok n

theorem added_of_isNth (hruns : RunsShort calendar) (hday : Dated day) {n : Nat}
    (h : Workdays.IsNth (businessDay calendar) day n found) :
    ∃ first, Added calendar day n first found := by
  have hend := lt_end_of_businessDay h.worked
  have hdense := hruns.from hday.first_le
  obtain ⟨first, hfirst, hle⟩ := h.exists_le (Nat.zero_le n)
  have hsearch := Workdays.nextWithin_of_dense hdense hfirst (hle.trans (Int.le_of_lt hend))
  obtain ⟨hok, hdated⟩ := searchFrom_of_nextWithin hday hsearch
  have hfound : Dated found := ⟨hday.first_le.trans h.le, hend⟩
  have hcounted := hfirst.count_first h
  refine ⟨first, hfound, hok, ⟨hfirst.worked, hfirst.le, fun _ => hfirst.none_before⟩, ?_,
    h.worked, hcounted, fun hspan => ?_⟩
  · rw [addBusinessDays_eq_ok_iff hday]
    exact ⟨found, Workdays.advance_of_dense hdense h (Int.le_of_lt hend), hfound, rfl⟩
  · rw [businessDaysAfter_eq hdated hfound, show min found (first + 800) = found by omega, hcounted]

/-- Where fewer business days are left, the addition is refused. -/
theorem refused_of_count (hday : Dated day) {n : Nat}
    (h : Workdays.count (businessDay calendar) (day - 1) (endDay - 1) ≤ n) :
    Refused (addBusinessDays (isoDate day) n calendar) := by
  have hreads : Reads (Workdays.advance (businessDay calendar) 400 n day)
      (addBusinessDays (isoDate day) n calendar) := reads_addBusinessDays hday n
  cases hadvance : Workdays.advance (businessDay calendar) 400 n day with
  | none => rwa [hadvance] at hreads
  | some found =>
    have hisNth := Workdays.isNth_of_advance hadvance
    have hend := lt_end_of_businessDay hisNth.worked
    have hmono := Workdays.count_mono (w := businessDay calendar) (a := day - 1)
      (show found ≤ endDay - 1 by omega)
    rw [hisNth.counted] at hmono
    omega

theorem textLt_of_added (hday : Dated day) (hday' : Dated day') {n m : Nat}
    {date date' : JsString} (h : addBusinessDays (isoDate day) n calendar = .ok date)
    (h' : addBusinessDays (isoDate day') m calendar = .ok date') :
    ∃ found found', Workdays.IsNth (businessDay calendar) day n found ∧
      Workdays.IsNth (businessDay calendar) day' m found' ∧
      textLt date date' = decide (found < found') := by
  obtain ⟨found, hadvance, hfound, rfl⟩ := (addBusinessDays_eq_ok_iff hday n date).1 h
  obtain ⟨found', hadvance', hfound', rfl⟩ := (addBusinessDays_eq_ok_iff hday' m date').1 h'
  exact ⟨found, found', Workdays.isNth_of_advance hadvance, Workdays.isNth_of_advance hadvance',
    textLt_isoDate hfound hfound'⟩

end Days

/-- Adding business days, for dates of the years 100 to 9999: what is added is counted back, sums are
added in steps, later dates and more days give later ones; and where the dates end before, the
addition is refused. -/
theorem businessDays_counted (calendar : WorkspaceHolidayCalendar) (hruns : RunsShort calendar) :
    (∀ day, Dated day → ∀ n : Nat,
      (n < Workdays.count (businessDay calendar) (day - 1) (endDay - 1) →
        ∃ first found, Added calendar day n first found) ∧
      (Workdays.count (businessDay calendar) (day - 1) (endDay - 1) ≤ n →
        Refused (addBusinessDays (isoDate day) n calendar))) ∧
    (∀ date, ∀ n m : Nat, addBusinessDays date (n + m) calendar =
      addBusinessDays date n calendar >>= fun found => addBusinessDays found m calendar) ∧
    (∀ day day', Dated day → Dated day' → day ≤ day' → ∀ (n : Nat) date date',
      addBusinessDays (isoDate day) n calendar = .ok date →
      addBusinessDays (isoDate day') n calendar = .ok date' → textLt date' date = false) ∧
    (∀ day, Dated day → ∀ (n m : Nat) date date', n < m →
      addBusinessDays (isoDate day) n calendar = .ok date →
      addBusinessDays (isoDate day) m calendar = .ok date' → textLt date date' = true) := by
  refine ⟨fun day hday n => ⟨fun hcount => ?_, refused_of_count hday⟩,
    fun date n m => addBusinessDays_add date n m, ?_, ?_⟩
  · obtain ⟨found, hfound, -⟩ := Workdays.IsNth.of_count hcount
    obtain ⟨first, hadded⟩ := added_of_isNth hruns hday hfound
    exact ⟨first, found, hadded⟩
  · intro day day' hday hday' hle n date date' h h'
    obtain ⟨found', found, hfound', hfound, hlt⟩ := textLt_of_added hday' hday h' h
    rw [hlt]
    have hmono := hfound.mono hle hfound'
    exact decide_eq_false (by omega)
  · intro day hday n m date date' hnm h h'
    obtain ⟨found, found', hfound, hfound', hlt⟩ := textLt_of_added hday hday h h'
    rw [hlt]
    exact decide_eq_true (hfound.lt hnm hfound')

/-- Of the 57 Mondays in 400 days, fewer than 57 holidays leave one. -/
theorem runsShort_of_few {calendar : WorkspaceHolidayCalendar} (hfew : calendar.dates.length < 57) :
    RunsShort calendar := by
  intro start hfrom hto
  by_contra hnone
  obtain ⟨monday, hfirst, hwithin, hweekday⟩ :
      ∃ monday, start ≤ monday ∧ monday < start + 7 ∧ weekdayOf monday = 1 := by
    refine ⟨start + (8 - weekdayOf start) % 7, by omega, by omega, ?_⟩
    unfold weekdayOf epochDay
    omega
  have hdated : ∀ week ∈ List.range 57, Dated (monday + 7 * week) := by
    intro week hweek
    have hlt := List.mem_range.1 hweek
    exact ⟨by omega, by omega⟩
  have hholiday : ∀ week ∈ List.range 57, isoDate (monday + 7 * week) ∈ calendar.dates := by
    intro week hweek
    have hlt := List.mem_range.1 hweek
    by_contra hworked
    refine hnone ⟨monday + 7 * week, by omega, by omega, ?_⟩
    have hmonday : weekdayOf (monday + 7 * week) = 1 := by
      unfold weekdayOf at hweekday ⊢
      omega
    simp [businessDay, (hdated week hweek).lt_end, hmonday, hworked]
  have hnodup : ((List.range 57).map fun week : Nat => isoDate (monday + 7 * week)).Nodup := by
    apply List.Nodup.map_on _ List.nodup_range
    intro week hweek week' hweek' heq
    have hsame := isoDate_inj (hdated week hweek) (hdated week' hweek') heq
    omega
  have hsubset : (List.range 57).map (fun week : Nat => isoDate (monday + 7 * week))
      ⊆ calendar.dates := by
    intro date hdate
    obtain ⟨week, hweek, rfl⟩ := List.mem_map.1 hdate
    exact hholiday week hweek
  have hlength := (List.subperm_of_subset hnodup hsubset).length_le
  rw [List.length_map, List.length_range] at hlength
  omega

theorem runsShort_empty : RunsShort emptyHolidayCalendar := runsShort_of_few (by decide)

/-- Christmas and New Year's Day, both a Friday. -/
def winterHolidays : WorkspaceHolidayCalendar :=
  ⟨js "winter.1", [js "2026-12-25", js "2027-01-01"]⟩

/-- A week of business days is added from Christmas on, at once or in two parts; from the last date
no day can be added. -/
theorem businessDays_counted_winter :
    (∃ first found, Added winterHolidays (dayNumber 2026 12 25) 5 first found) ∧
    addBusinessDays (js "2026-12-25") (2 + 3) winterHolidays
      = addBusinessDays (js "2026-12-30") 3 winterHolidays ∧
    Refused (addBusinessDays (isoDate (endDay - 1)) 1 winterHolidays) := by
  obtain ⟨hcounted, hsum, -, -⟩ :=
    businessDays_counted winterHolidays (runsShort_of_few (by decide))
  refine ⟨(hcounted _ ⟨by decide, by decide⟩ 5).1 ?_, ?_,
    (hcounted (endDay - 1) ⟨by decide, by decide⟩ 1).2 ?_⟩
  · refine Nat.lt_of_lt_of_le ?_ (Workdays.count_mono (b := dayNumber 2027 1 8) (by decide))
    decide +kernel
  · have hfirst : addBusinessDays (js "2026-12-25") (2 : Nat) winterHolidays
        = .ok (js "2026-12-30") := by decide +kernel
    have hboth := hsum (js "2026-12-25") 2 3
    rw [hfirst] at hboth
    simpa only [bind, Except.bind, Nat.cast_ofNat] using hboth
  · decide +kernel

/-- A Friday with no business day after it: the dates end. -/
theorem last_date_refused : RunsShort emptyHolidayCalendar ∧
    isBusinessDay (js "9999-12-31") emptyHolidayCalendar = .ok true ∧
    addBusinessDays (js "9999-12-31") 1 emptyHolidayCalendar = .error dateMalformed :=
  ⟨runsShort_empty, by decide +kernel, by decide +kernel⟩

end FoundingSales.Rules.BusinessDays
