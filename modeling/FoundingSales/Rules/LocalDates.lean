import FoundingSales.Contracts.LocalClock

/-!
Local calendar dates: the text `YYYY-MM-DD` of a day, moved by days and compared as text.

Proved here:

* `addCalendarDays_isoDate`, `weekdayOfDate_isoDate`: what is computed of a day's text, for days of
  the years 100 to 9999;
* `weekdayOfDate_after`: the text of the day after them is refused;
* `textLt_isoDate`: the texts are ordered as the days.
-/

namespace FoundingSales.Rules.LocalDates

open Calendar Contracts.LocalClock Decimals

/-! ## Digits -/

private theorem value_cons (c : UInt16) (text : List UInt16) :
    Nat.ofDigits 10 ((c :: text).reverse.map valueOf) =
      Nat.ofDigits 10 (text.reverse.map valueOf) + 10 ^ text.length * valueOf c := by
  rw [List.reverse_cons, List.map_append, Nat.ofDigits_append, List.length_map, List.length_reverse]
  simp

private theorem valueOf_lt {c : UInt16} (h : isDigit c = true) : valueOf c < 10 := by
  unfold isDigit at h
  simp only [Bool.and_eq_true, decide_eq_true_eq, UInt16.le_iff_toNat_le] at h
  have hhigh : c.toNat ≤ 57 := h.2
  unfold valueOf
  omega

private theorem value_lt {text : List UInt16} (h : text.all isDigit = true) :
    Nat.ofDigits 10 (text.reverse.map valueOf) < 10 ^ text.length := by
  have hlt := Nat.ofDigits_lt_base_pow_length (b := 10) (l := text.reverse.map valueOf)
    (by omega) fun d hd => by
      obtain ⟨c, hc, rfl⟩ := List.mem_map.1 hd
      exact valueOf_lt (List.all_eq_true.1 h c (List.mem_reverse.1 hc))
  rwa [List.length_map, List.length_reverse] at hlt

/-- Digits of one length are ordered as their numbers. -/
theorem textLt_of_value_lt {left right : List UInt16} (hlength : left.length = right.length)
    (hleft : left.all isDigit = true) (hright : right.all isDigit = true)
    (h : Nat.ofDigits 10 (left.reverse.map valueOf) < Nat.ofDigits 10 (right.reverse.map valueOf)) :
    textLt left right = true := by
  induction left generalizing right with
  | nil =>
    cases right with
    | nil => exact absurd h (Nat.lt_irrefl _)
    | cons b right => cases hlength
  | cons a left ih =>
    cases right with
    | nil => cases hlength
    | cons b right =>
      have hlength' : left.length = right.length := by simpa using hlength
      rw [List.all_cons, Bool.and_eq_true] at hleft hright
      rw [value_cons, value_cons, hlength'] at h
      by_cases hab : a = b
      · subst hab
        rw [textLt_cons]
        exact ih hlength' hleft.2 hright.2 (by omega)
      · have hdigits : valueOf a ≤ valueOf b := by
          by_contra hnot
          have hlt := value_lt hright.2
          have hmul : 10 ^ right.length * (valueOf b + 1) ≤ 10 ^ right.length * valueOf a :=
            Nat.mul_le_mul_left _ (by omega)
          rw [Nat.mul_add, Nat.mul_one] at hmul
          omega
        have hcodes : a < b := by
          have ha := hleft.1
          have hb := hright.1
          unfold isDigit at ha hb
          simp only [Bool.and_eq_true, decide_eq_true_eq, UInt16.le_iff_toNat_le] at ha hb
          have ha' : 48 ≤ a.toNat := ha.1
          have hb' : 48 ≤ b.toNat := hb.1
          unfold valueOf at hdigits
          rw [← UInt16.toNat_inj] at hab
          rw [UInt16.lt_iff_toNat_lt]
          omega
        have hnot : ¬ b < a := by
          rw [UInt16.lt_iff_toNat_lt] at hcodes ⊢
          omega
        have hne : b ≠ a := fun heq => hab heq.symm
        simp [textLt, textLe, hnot, hne]

private theorem all_isDigit_printPadded (width n : Nat) :
    (printPadded width n).all isDigit = true := by
  unfold printPadded
  rw [List.all_append, all_isDigit_print, Bool.and_true, List.all_replicate]
  split <;> rfl

theorem textLt_printPadded {width a b : Nat} (hwidth : 1 ≤ width) (hab : a < b)
    (hb : b < 10 ^ width) : textLt (printPadded width a) (printPadded width b) = true := by
  have hvalue : ∀ n, Nat.ofDigits 10 ((printPadded width n).reverse.map valueOf) = n := by
    intro n
    have hread := read_printPadded width n
    unfold Decimals.read at hread
    split at hread
    · exact Option.some.inj hread
    · cases hread
  apply textLt_of_value_lt
  · rw [length_printPadded hwidth (hab.trans hb), length_printPadded hwidth hb]
  · exact all_isDigit_printPadded width a
  · exact all_isDigit_printPadded width b
  · rwa [hvalue, hvalue]

/-! ## Dates -/

/-- `toISOString().slice(0, 10)` of a day's midnight at UTC. -/
def isoDate (number : Int) : JsString :=
  let date := dateOf number
  if 0 ≤ date.year ∧ date.year ≤ 9999 then dateText date.year date.month date.day
  else
    let sign := if date.year < 0 then js "-" else js "+"
    (sign ++ Decimals.printPadded 6 date.year.natAbs ++ js "-" ++
      Decimals.printPadded 2 date.month ++ js "-" ++ Decimals.printPadded 2 date.day.toNat).take 10

def dateMalformed : LocalClockError := ⟨.dateInvalid, js "a local date is YYYY-MM-DD"⟩

/-- The day `Date.UTC` makes of a text's fields. -/
def utcDay (fields : Nat × Nat × Nat) : Int := dayNumber (fullYear fields.1) fields.2.1 fields.2.2

def addCalendarDays (date : JsString) (days : Int) : Except LocalClockError JsString :=
  match dateFields date with
  | none => .error dateMalformed
  | some fields => .ok (isoDate (utcDay fields + days))

/-- 0 is Sunday. -/
def weekdayOf (day : Int) : Int := (day - epochDay + 4) % 7

def weekdayOfDate (date : JsString) : Except LocalClockError Int :=
  match dateFields date with
  | none => .error dateMalformed
  | some fields => .ok (weekdayOf (utcDay fields))

/-! ## The days that have such a text -/

/-- 0100-01-01 -/
def firstDay : Int := daysBeforeYear 100

/-- The day after 9999-12-31. -/
def endDay : Int := daysBeforeYear 10000

/-- A day of the years 100 to 9999. -/
structure Dated (day : Int) : Prop where
  first_le : firstDay ≤ day
  lt_end : day < endDay

section Dated

variable {day day' : Int}

theorem Dated.year (h : Dated day) : 100 ≤ yearOf day ∧ yearOf day ≤ 9999 := by
  have hfirst : ¬ yearOf day < 100 := yearOf_lt_iff.not.2 (Int.not_lt.2 h.first_le)
  have hlast : yearOf day < 10000 := yearOf_lt_iff.2 h.lt_end
  omega

/-- A day of those years, as a date at midnight. -/
def Dated.input (h : Dated day) : ClockInput where
  date := dateOf day
  valid := dateOf_valid day
  from100 := h.year.1
  to9999 := h.year.2
  hour := 0
  hour_lt := by omega
  minute := 0
  minute_lt := by omega

theorem Dated.isoDate_eq (h : Dated day) :
    isoDate day = dateText (dateOf day).year (dateOf day).month (dateOf day).day := by
  have hyear : 100 ≤ (dateOf day).year ∧ (dateOf day).year ≤ 9999 := h.year
  unfold isoDate
  dsimp only
  rw [if_pos ⟨by omega, hyear.2⟩]

theorem Dated.dateFields (h : Dated day) : dateFields (isoDate day)
    = some ((dateOf day).year.toNat, (dateOf day).month, (dateOf day).day.toNat) := by
  rw [h.isoDate_eq]
  exact h.input.dateFields_text

theorem Dated.utcDay (h : Dated day) :
    utcDay ((dateOf day).year.toNat, (dateOf day).month, (dateOf day).day.toNat) = day := by
  have hyear : 100 ≤ (dateOf day).year ∧ (dateOf day).year ≤ 9999 := h.year
  have hday := (dateOf_valid day).day_pos
  have hfull : fullYear (dateOf day).year = (dateOf day).year := by
    apply if_neg
    simp only [Bool.and_eq_true, decide_eq_true_eq]
    omega
  unfold LocalDates.utcDay
  dsimp only
  rw [Int.toNat_of_nonneg (by omega), Int.toNat_of_nonneg (by omega), hfull]
  exact dayNumber_dateOf day

theorem addCalendarDays_isoDate (h : Dated day) (days : Int) :
    addCalendarDays (isoDate day) days = .ok (isoDate (day + days)) := by
  unfold addCalendarDays
  rw [h.dateFields]
  dsimp only
  rw [h.utcDay]

theorem weekdayOfDate_isoDate (h : Dated day) : weekdayOfDate (isoDate day) = .ok (weekdayOf day) := by
  unfold weekdayOfDate
  rw [h.dateFields]
  dsimp only
  rw [h.utcDay]

/-- The day after the last has a text, but not of a date. -/
theorem weekdayOfDate_after : weekdayOfDate (isoDate endDay) = .error dateMalformed := by
  decide +kernel

/-- The texts are ordered as the days. -/
theorem textLt_isoDate (h : Dated day) (h' : Dated day') :
    textLt (isoDate day) (isoDate day') = decide (day < day') := by
  have hstrict : ∀ {a b : Int}, Dated a → Dated b → a < b → textLt (isoDate a) (isoDate b) = true := by
    intro a b ha hb hab
    have hyear : 100 ≤ (dateOf a).year ∧ (dateOf a).year ≤ 9999 := ha.year
    have hyear' : 100 ≤ (dateOf b).year ∧ (dateOf b).year ≤ 9999 := hb.year
    have hvalid := dateOf_valid a
    have hvalid' := dateOf_valid b
    have hmonth := hvalid.month_le
    have hmonth' := hvalid'.month_le
    have hday := hvalid.day_pos
    have hday' := hvalid'.day_pos
    have hmonthEnd := hvalid'.day_le_31
    have hlengths : ∀ {m n : Nat}, m < 10 ^ 2 → n < 10 ^ 2 →
        (Decimals.printPadded 2 m).length = (Decimals.printPadded 2 n).length := fun hm hn => by
      rw [Decimals.length_printPadded (by omega) hm, Decimals.length_printPadded (by omega) hn]
    rw [ha.isoDate_eq, hb.isoDate_eq]
    unfold dateText
    simp only [List.append_assoc]
    rcases hvalid.lt_of_number_lt hvalid' (by rwa [dayNumber_dateOf, dayNumber_dateOf])
      with hlt | ⟨heq, hlt | ⟨heqMonth, hlt⟩⟩
    · apply textLt_append
      · rw [Decimals.length_printPadded (by omega) (by omega),
          Decimals.length_printPadded (by omega) (by omega)]
      · exact textLt_printPadded (by omega) (by omega) (by omega)
    · rw [heq, textLt_append_left, textLt_append_left]
      apply textLt_append
      · exact hlengths (by omega) (by omega)
      · exact textLt_printPadded (by omega) hlt (by omega)
    · rw [heq, heqMonth, textLt_append_left, textLt_append_left, textLt_append_left,
        textLt_append_left]
      exact textLt_printPadded (by omega) (by omega) (by omega)
  rcases lt_trichotomy day day' with hlt | rfl | hgt
  · rw [hstrict h h' hlt, decide_eq_true hlt]
  · rw [textLt_irrefl, decide_eq_false (Int.lt_irrefl day)]
  · rw [textLt_asymm (hstrict h' h hgt), decide_eq_false (by omega)]

theorem isoDate_inj (h : Dated day) (h' : Dated day') (heq : isoDate day = isoDate day') :
    day = day' := by
  have hlt := textLt_isoDate h h'
  have hgt := textLt_isoDate h' h
  rw [heq, textLt_irrefl] at hlt hgt
  have hnot := of_decide_eq_false hlt.symm
  have hnot' := of_decide_eq_false hgt.symm
  omega

end Dated

/-! ## Clocks shown once -/

/-- The wall clock of a day at an hour. -/
def clockAt (day : Int) (hour : Nat) : Int := (day - epochDay) * dayMs + hour * 3600000

/-- The zone's clock shows `wall` at one instant. -/
def ShownOnce (zone : Zone) (wall : Int) : Prop :=
  ∃ t, zone.wallClock t = wall ∧ ∀ t', zone.wallClock t' = wall → t' = t

/-- The hour, on every day, is neither skipped nor repeated. -/
def HourShown (zone : Zone) (hour : Nat) : Prop := ∀ day, ShownOnce zone (clockAt day hour)

/-- The day the zone's clock shows. -/
def localDay (zone : Zone) (t : Int) : Int := zone.wallClock t / dayMs + epochDay

section Clocks

variable {zone : Zone} {wall s t day : Int}

/-- A clock shown once divides the instants. -/
theorem ShownOnce.lt_iff (h : ShownOnce zone wall) (ht : zone.wallClock t = wall) :
    s < t ↔ zone.wallClock s < wall := by
  obtain ⟨change, before, after, haround⟩ := zone.exists_around wall
  have hshows := haround.wallClock_iff
  have honly : ∀ t', zone.wallClock t' = wall → t' = t := by
    obtain ⟨t'', -, hunique⟩ := h
    intro t' ht'
    rw [hunique t' ht', hunique t ht]
  have hbefore := haround.offset_before s
  have hafter := haround.offset_after s
  have hzone := zone.underADay s
  have hzone' := zone.underADay t
  have hb := haround.before_lt
  have ha := haround.after_lt
  have hnear : wall - dayMs < t ∧ t < wall + dayMs := by
    unfold ZoneOffsets.wallClock minuteMs at ht
    unfold dayMs
    omega
  have hfirst : wall - before * minuteMs < change → wall - before * minuteMs = t :=
    fun hlt => honly _ ((hshows _).2 (.inl ⟨rfl, hlt⟩))
  have hlast : change ≤ wall - after * minuteMs → wall - after * minuteMs = t :=
    fun hle => honly _ ((hshows _).2 (.inr ⟨rfl, hle⟩))
  have hwhen := (hshows t).1 ht
  by_cases hfar : wall - dayMs < s ∧ s < wall + dayMs
  · unfold ZoneOffsets.wallClock
    by_cases hchange : s < change
    · rw [hbefore hfar.1 hfar.2 hchange]
      omega
    · rw [hafter hfar.1 hfar.2 (Int.not_lt.1 hchange)]
      omega
  · unfold ZoneOffsets.wallClock minuteMs
    unfold dayMs at hfar hnear
    omega

variable (zone) in
/-- Where a clock has three digits of a year, the offsets that correct it are read back. -/
theorem offsets_read (hlate : (firstDay - epochDay) * dayMs + dayMs ≤ wall) :
    zoneOffsetMinutes wall zone = zone.offset wall ∧
      zoneOffsetMinutes (wall - zone.offset wall * minuteMs) zone
        = zone.offset (wall - zone.offset wall * minuteMs) := by
  obtain ⟨change, before, after, haround⟩ := zone.exists_around wall
  have hlimit : ∀ r, (firstDay - epochDay) * dayMs ≤ zone.wallClock r → 100 ≤ zone.yearAt r :=
    fun r hr => Int.not_lt.1 fun hlt => absurd (yearAt_lt_iff.1 hlt) (Int.not_lt.2 hr)
  have hzone := zone.underADay wall
  have hb := haround.before_lt
  have ha := haround.after_lt
  have hjump := haround.jump
  have hoffset : ∀ r, wall - dayMs < r → r < wall + dayMs →
      zone.offset r = before ∨ zone.offset r = after := fun r hfrom hto => by
    by_cases hchange : r < change
    · exact .inl (haround.offset_before r hfrom hto hchange)
    · exact .inr (haround.offset_after r hfrom hto (Int.not_lt.1 hchange))
  have hguess := hoffset wall (by unfold dayMs; omega) (by unfold dayMs; omega)
  have hcorrected := hoffset (wall - zone.offset wall * minuteMs)
    (by unfold minuteMs dayMs; omega) (by unfold minuteMs dayMs; omega)
  constructor
  · apply zoneOffsetMinutes_eq
    apply hlimit
    unfold ZoneOffsets.wallClock minuteMs
    unfold dayMs at hlate ⊢
    omega
  · apply zoneOffsetMinutes_eq
    apply hlimit
    unfold ZoneOffsets.wallClock minuteMs at *
    unfold dayMs at *
    omega

/-- A clock shown once is found by the correction. -/
theorem wallClock_correct {time : LocalTimeOfDay} (htime : OfWall time wall)
    (hlate : (firstDay - epochDay) * dayMs + dayMs ≤ wall) (h : ShownOnce zone wall) :
    zone.wallClock (correct wall time zone) = wall := by
  obtain ⟨change, before, after, haround⟩ := zone.exists_around wall
  have hshows := haround.wallClock_iff
  obtain ⟨t, ht, honly⟩ := h
  obtain ⟨hread, hread'⟩ := offsets_read zone hlate
  have hcorrect := (haround.correct_iff_of_read htime hread hread').2 ⟨?_, ?_⟩
  · exact (((haround.resolves_iff _).2 hcorrect).once ⟨t, ht, honly⟩).1
  · intro hone hafter
    have := honly _ ((hshows _).2 (.inl ⟨rfl, hone⟩))
    have := honly _ ((hshows _).2 (.inr ⟨rfl, hafter⟩))
    omega
  · intro hone hafter
    have := (hshows t).1 ht
    omega

/-- Of a day's date, `localInstant` corrects the clock. -/
theorem localInstant_isoDate (hday : Dated day) {hour minute : Nat} (hhour : hour < 24)
    (hminute : minute < 60) :
    localInstant (isoDate day) ⟨hour, minute, none, none⟩ zone =
      .ok (correct (clockAt day hour + minute * minuteMs) ⟨hour, minute, none, none⟩ zone) := by
  let input : ClockInput := { hday.input with
    hour := hour
    hour_lt := hhour
    minute := minute
    minute_lt := hminute }
  have hwall : input.wall = clockAt day hour + minute * minuteMs := by
    show ((dateOf day).number - epochDay) * dayMs + hour * 3600000 + minute * minuteMs = _
    rw [dayNumber_dateOf]
    rfl
  have hfields := hday.dateFields
  have hguess := input.guessOf_eq
  rw [hwall] at hguess
  unfold localInstant
  rw [hfields]
  exact congrArg (fun guess => Except.ok (correct guess input.time zone)) hguess

/-- A clock shown once is found. -/
theorem localInstant_of_shownOnce {hour : Nat} (hday : Dated day) (hfirst : firstDay < day)
    (hhour : hour < 24) (h : ShownOnce zone (clockAt day hour)) :
    ∃ t, localInstant (isoDate day) ⟨hour, 0, none, none⟩ zone = .ok t ∧
      zone.wallClock t = clockAt day hour := by
  have hwall : clockAt day hour + (0 : Nat) * minuteMs = clockAt day hour := by omega
  have hcode : localInstant (isoDate day) ⟨hour, (0 : Nat), none, none⟩ zone = .ok (correct
      (clockAt day hour + (0 : Nat) * minuteMs) ⟨hour, (0 : Nat), none, none⟩ zone) :=
    localInstant_isoDate hday hhour (by omega)
  rw [hwall] at hcode
  refine ⟨_, hcode, wallClock_correct ⟨?_, ?_, ?_⟩ ?_ h⟩
  · show (hour : Int) = _
    unfold clockAt dayMs
    omega
  · show (0 : Int) = _
    unfold clockAt dayMs minuteMs
    omega
  · unfold clockAt dayMs minuteMs
    omega
  · unfold clockAt dayMs
    omega

theorem localParts_weekday (zone : Zone) (t : Int) :
    (localParts t zone).weekday = weekdayOf (localDay zone t) := by
  show (zone.wallClock t / dayMs + 4) % 7 = (zone.wallClock t / dayMs + epochDay - epochDay + 4) % 7
  rw [Int.add_sub_cancel]

theorem localParts_minuteOfDay (zone : Zone) (t : Int) :
    (localParts t zone).minuteOfDay = zone.wallClock t % dayMs / minuteMs := by
  show zone.wallClock t % dayMs / 3600000 * 60 + zone.wallClock t % 3600000 / minuteMs = _
  generalize zone.wallClock t = wall
  unfold dayMs minuteMs
  omega

theorem localParts_date (h : Dated (localDay zone t)) :
    (localParts t zone).date = isoDate (localDay zone t) := by
  rw [h.isoDate_eq]
  have hyear : 100 ≤ (dateOf (localDay zone t)).year := h.year.1
  have hera : yearOfEra (dateOf (localDay zone t)).year = (dateOf (localDay zone t)).year :=
    if_pos (by omega)
  show dateText (yearOfEra (dateOf (localDay zone t)).year) _ _ = _
  rw [hera]
  rfl

theorem localDay_of_wallClock {hour : Nat} (hhour : hour < 24)
    (h : zone.wallClock t = clockAt day hour) : localDay zone t = day := by
  unfold localDay
  rw [h]
  unfold clockAt dayMs
  omega

end Clocks

end FoundingSales.Rules.LocalDates
