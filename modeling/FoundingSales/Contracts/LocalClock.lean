import FoundingSales.Library.Calendar
import FoundingSales.Library.Decimals
import FoundingSales.Text

/-!
Local clock arithmetic: the wall clock of a zone, and the instant at which a zone reads a date at
a time. The zone's offsets are the runtime's.

Proved here:

* `zoneOffsetMinutes_eq`, `zoneOffsetMinutes_early`: the offset is read back, unless the local
  year has no three digits;
* `Zone.exists_around`: near a wall clock a zone changes once at most;
* `localInstant_resolves`: exactly which wall clocks are resolved by the rule;
* `repeated_clock_taken_late`: three that are not.
-/

namespace FoundingSales.Contracts.LocalClock

open Calendar

def minuteMs : Int := 60000
def dayMs : Int := 86400000

/-- 1970-01-01 -/
def epochDay : Int := 719528

/-! ## Zones -/

/-- The offsets of a zone, in whole minutes east of UTC. -/
structure ZoneOffsets where
  offset : Int → Int

/-- A zone whose offsets change days apart. -/
structure Zone extends ZoneOffsets where
  /-- An offset from UTC is less than a day. -/
  underADay : ∀ t, -1440 < offset t ∧ offset t < 1440
  jump : ∀ t, -1440 ≤ offset t - offset (t - 1) ∧ offset t - offset (t - 1) ≤ 1440
  isolated : ∀ s t, s < t → offset (s - 1) ≠ offset s → offset (t - 1) ≠ offset t →
    s + 2 * dayMs ≤ t

instance : Coe Zone ZoneOffsets := ⟨Zone.toZoneOffsets⟩

/-- What the zone's clock shows, as a clock at UTC would. -/
def ZoneOffsets.wallClock (zone : ZoneOffsets) (t : Int) : Int := t + zone.offset t * minuteMs

/-! ## The wall clock -/

structure LocalParts where
  date : JsString
  year : Int
  month : Nat
  day : Int
  hour : Int
  minute : Int
  second : Int
  /-- 0 is Sunday. -/
  weekday : Int
  minuteOfDay : Int
  deriving DecidableEq

/-- `YYYY-MM-DD` -/
def dateText (year : Int) (month : Nat) (day : Int) : JsString :=
  Decimals.printPadded 4 year.toNat ++ js "-" ++ Decimals.printPadded 2 month ++ js "-" ++
    Decimals.printPadded 2 day.toNat

/-- The year as `Intl` shows it: of its era. -/
def yearOfEra (year : Int) : Int := if 1 ≤ year then year else 1 - year

/-- The parts of a clock that shows `wall`. -/
def partsOf (wall : Int) : LocalParts :=
  let date := dateOf (wall / dayMs + epochDay)
  let year := yearOfEra date.year
  let hour := wall % dayMs / 3600000
  let minute := wall % 3600000 / minuteMs
  { date := dateText year date.month date.day
    year := year
    month := date.month
    day := date.day
    hour := hour
    minute := minute
    second := wall % minuteMs / 1000
    weekday := (wall / dayMs + 4) % 7
    minuteOfDay := hour * 60 + minute }

/-- The wall clock in `zone` at `instant`. -/
def localParts (instant : Int) (zone : ZoneOffsets) : LocalParts := partsOf (zone.wallClock instant)

/-- A year of one or two digits is of the twentieth century. -/
def fullYear (year : Int) : Int := if 0 ≤ year && year ≤ 99 then 1900 + year else year

/-- `Date.UTC`, its months from one. -/
def dateUtc (year : Int) (month : Nat) (day hour minute second millisecond : Int) : Int :=
  (dayNumber (fullYear year) month day - epochDay) * dayMs + hour * 3600000 + minute * minuteMs +
    second * 1000 + millisecond

/-- The zone's offset from UTC, in minutes. -/
def zoneOffsetMinutes (milliseconds : Int) (zone : ZoneOffsets) : Int :=
  let parts := localParts milliseconds zone
  let remainder := milliseconds.tmod 1000
  let asUtc := dateUtc parts.year parts.month parts.day parts.hour parts.minute parts.second
    (if remainder < 0 then 1000 + remainder else remainder)
  -- `Math.round`
  (asUtc - milliseconds + 30000) / minuteMs

structure LocalTimeOfDay where
  hour : Int
  minute : Int
  second : Option Int
  millisecond : Option Int
  deriving DecidableEq

inductive LocalClockErrorCode
  | instantInvalid | zoneUnknown | dateInvalid
  deriving DecidableEq

structure LocalClockError where
  code : LocalClockErrorCode
  message : JsString
  deriving DecidableEq

/-- `/^(\d{4})-(\d{2})-(\d{2})$/`, its groups as numbers. -/
def dateFields (date : JsString) : Option (Nat × Nat × Nat) :=
  if date.length = 10 ∧ date[4]? = some 45 ∧ date[7]? = some 45 then do
    let year ← Decimals.read (date.take 4)
    let month ← Decimals.read ((date.drop 5).take 2)
    let day ← Decimals.read (date.drop 8)
    some (year, month, day)
  else none

/-- What the clock is to show, were the zone at UTC. -/
def guessOf (year month day : Nat) (time : LocalTimeOfDay) : Int :=
  dateUtc year month day time.hour time.minute (time.second.getD 0) (time.millisecond.getD 0)

/-- The instant of a guess, corrected twice. -/
def correct (guess : Int) (time : LocalTimeOfDay) (zone : ZoneOffsets) : Int :=
  let first := guess - zoneOffsetMinutes guess zone * minuteMs
  let second := guess - zoneOffsetMinutes first zone * minuteMs
  let result := if second ≠ first then second else first
  let readsBack := localParts result zone
  if readsBack.hour ≠ time.hour || readsBack.minute ≠ time.minute then max first second else result

/-- The instant at which `zone` reads `date` at `time`. -/
def localInstant (date : JsString) (time : LocalTimeOfDay) (zone : ZoneOffsets) :
    Except LocalClockError Int :=
  match dateFields date with
  | none => .error ⟨.dateInvalid, js "a local date is YYYY-MM-DD"⟩
  | some (year, month, day) => .ok (correct (guessOf year month day time) time zone)

/-! ## Reading an offset back -/

section Offsets

variable {zone : Zone}

/-- The parts of a clock put together again. -/
theorem dateUtc_partsOf {t : Int} (year : Int) :
    let parts := localParts t zone
    dateUtc year parts.month parts.day parts.hour parts.minute parts.second
        (if t.tmod 1000 < 0 then 1000 + t.tmod 1000 else t.tmod 1000)
      = (dayNumber (fullYear year) parts.month parts.day - epochDay) * dayMs
        + zone.wallClock t % dayMs := by
  intro parts
  have hremainder : (if t.tmod 1000 < 0 then 1000 + t.tmod 1000 else t.tmod 1000) = t % 1000 := by
    rw [Int.tmod_eq_emod, show Int.natAbs 1000 = 1000 from rfl]
    split_ifs <;> omega
  rw [hremainder]
  show (dayNumber (fullYear year) parts.month parts.day - epochDay) * dayMs
    + zone.wallClock t % dayMs / 3600000 * 3600000
    + zone.wallClock t % 3600000 / minuteMs * minuteMs
    + zone.wallClock t % minuteMs / 1000 * 1000 + t % 1000 = _
  have hmillis : t % 1000 = zone.wallClock t % 1000 := by
    unfold ZoneOffsets.wallClock minuteMs
    omega
  rw [hmillis]
  generalize zone.wallClock t = wall
  unfold minuteMs dayMs
  omega

/-- The year the zone's clock shows. -/
def Zone.yearAt (zone : Zone) (t : Int) : Int := yearOf (zone.wallClock t / dayMs + epochDay)

theorem zoneOffsetMinutes_eq {t : Int} (h : 100 ≤ zone.yearAt t) :
    zoneOffsetMinutes t zone = zone.offset t := by
  have hyear : fullYear (localParts t zone).year = zone.yearAt t := by
    have hera : yearOfEra (zone.yearAt t) = zone.yearAt t := if_pos (by omega)
    show fullYear (yearOfEra (zone.yearAt t)) = zone.yearAt t
    rw [hera]
    apply if_neg
    simp only [Bool.and_eq_true, decide_eq_true_eq]
    omega
  have hnumber : dayNumber (zone.yearAt t) (localParts t zone).month (localParts t zone).day
      = zone.wallClock t / dayMs + epochDay := dayNumber_dateOf _
  show (dateUtc _ _ _ _ _ _ _ - t + 30000) / minuteMs = zone.offset t
  rw [dateUtc_partsOf, hyear, hnumber]
  unfold ZoneOffsets.wallClock dayMs minuteMs
  omega

/-- Where the year has no three digits, the offset read is far too large. -/
theorem zoneOffsetMinutes_early {t : Int} (h : zone.yearAt t < 100) :
    100000000 ≤ zoneOffsetMinutes t zone := by
  have hvalid := dateOf_valid (zone.wallClock t / dayMs + epochDay)
  obtain ⟨-, hbefore⟩ := yearOf_spec (zone.wallClock t / dayMs + epochDay)
  have hlater : zone.yearAt t + 199 ≤ fullYear (localParts t zone).year := by
    show zone.yearAt t + 199 ≤ fullYear (yearOfEra (zone.yearAt t))
    unfold yearOfEra fullYear
    split <;> split <;> simp_all <;> omega
  have hyears := daysBeforeYear_le (show zone.yearAt t + 1 ≤ fullYear (localParts t zone).year by omega)
  have hmonths := daysBeforeMonth_mono (fullYear (localParts t zone).year) hvalid.month_pos
    (show _ ≤ 13 from hvalid.month_le.trans (by omega))
  rw [daysBeforeMonth_one] at hmonths
  have hday := hvalid.day_pos
  have hnumber : zone.wallClock t / dayMs + epochDay + 365 * 198 ≤
      dayNumber (fullYear (localParts t zone).year) (localParts t zone).month
        (localParts t zone).day := by
    change zone.wallClock t / dayMs + epochDay < daysBeforeYear (zone.yearAt t + 1) at hbefore
    change 0 ≤ daysBeforeMonth _ (localParts t zone).month at hmonths
    change 1 ≤ (localParts t zone).day at hday
    unfold dayNumber
    omega
  obtain ⟨hoffset, -⟩ := zone.underADay t
  show 100000000 ≤ (dateUtc _ _ _ _ _ _ _ - t + 30000) / minuteMs
  rw [dateUtc_partsOf]
  generalize dayNumber (fullYear (localParts t zone).year) (localParts t zone).month
    (localParts t zone).day = number at hnumber ⊢
  unfold ZoneOffsets.wallClock dayMs minuteMs epochDay at *
  omega

end Offsets

/-! ## Transitions -/

section Transitions

variable {zone : Zone}

/-- The zone's offset changes at an instant. -/
def Zone.Transition (zone : Zone) (t : Int) : Prop := zone.offset (t - 1) ≠ zone.offset t

/-- Without a transition in between the offset stays. -/
theorem Zone.offset_const {s t : Int} (hle : s ≤ t)
    (hnone : ∀ u, s < u → u ≤ t → ¬ zone.Transition u) : zone.offset t = zone.offset s := by
  induction t, hle using Int.leInduction with
  | base => rfl
  | succ t hst ih =>
    have hstep : zone.offset (t + 1 - 1) = zone.offset (t + 1) :=
      not_not.1 (hnone (t + 1) (by omega) (Int.le_refl _))
    rw [Int.add_sub_cancel] at hstep
    rw [← hstep]
    exact ih fun u hu hut => hnone u hu (by omega)

/-- Around a wall clock: one offset before an instant, another from it on. -/
structure Zone.Around (zone : Zone) (g change before after : Int) : Prop where
  offset_before : ∀ t, g - dayMs < t → t < g + dayMs → t < change → zone.offset t = before
  offset_after : ∀ t, g - dayMs < t → t < g + dayMs → change ≤ t → zone.offset t = after
  before_lt : -1440 < before ∧ before < 1440
  after_lt : -1440 < after ∧ after < 1440
  jump : -1440 ≤ after - before ∧ after - before ≤ 1440

theorem Zone.exists_around (zone : Zone) (g : Int) :
    ∃ change before after, zone.Around g change before after := by
  have hzone := zone.underADay
  by_cases hchange : ∃ u, g - dayMs + 1 < u ∧ u < g + dayMs ∧ zone.Transition u
  · obtain ⟨u, hfrom, hto, hu⟩ := hchange
    have honly : ∀ v, g - dayMs + 1 < v → v < g + dayMs → zone.Transition v → v = u := by
      intro v hv hv' hvt
      rcases lt_trichotomy v u with hlt | heq | hgt
      · have := zone.isolated v u hlt hvt hu
        omega
      · exact heq
      · have := zone.isolated u v hgt hu hvt
        omega
    refine ⟨u, zone.offset (u - 1), zone.offset u, ?_, ?_, hzone _, hzone _, zone.jump u⟩
    · intro t ht _ htu
      refine (zone.offset_const (show t ≤ u - 1 by omega) fun v hv hvu hvt => ?_).symm
      have := honly v (by omega) (by omega) hvt
      omega
    · intro t _ ht htu
      refine zone.offset_const htu fun v hv hvt hv' => ?_
      have := honly v (by omega) (by omega) hv'
      omega
  · have hday : (0 : Int) < dayMs := by decide
    have hconst : ∀ t, g - dayMs < t → t < g + dayMs → zone.offset t = zone.offset (g - dayMs + 1) :=
      fun t hfrom hto => zone.offset_const (by omega) fun v hv hvt hv' =>
        hchange ⟨v, hv, by omega, hv'⟩
    refine ⟨g, _, _, fun t hfrom hto _ => hconst t hfrom hto,
      fun t hfrom hto _ => hconst t hfrom hto, hzone _, hzone _, ?_⟩
    omega

end Transitions

/-! ## The rule -/

/-- The clock skips `wall` where it changes. -/
def Zone.Skips (zone : Zone) (wall change : Int) : Prop :=
  change + zone.offset (change - 1) * minuteMs ≤ wall ∧
    wall < change + zone.offset change * minuteMs

/-- The clock shows `wall` before it changes, and again after. -/
def Zone.Repeats (zone : Zone) (wall change : Int) : Prop :=
  change + zone.offset change * minuteMs ≤ wall ∧
    wall < change + zone.offset (change - 1) * minuteMs

/-- The documented rule for the instant of a wall clock. -/
structure Resolves (zone : Zone) (wall result : Int) : Prop where
  once : (∃ t, zone.wallClock t = wall ∧ ∀ t', zone.wallClock t' = wall → t' = t) →
    zone.wallClock result = wall ∧ localParts result zone = partsOf wall
  twice : ∀ t t', t < t' → zone.wallClock t = wall → zone.wallClock t' = wall → result = t
  skipped : (∀ t, zone.wallClock t ≠ wall) → ∃ change, zone.Skips wall change ∧
    result = wall - zone.offset (change - 1) * minuteMs ∧ change ≤ result

/-- When the rule is followed. A wall clock that repeats is read, as a time at UTC, before the
change; one that a whole day's skip leaves out is read from the change on; and the zone shows three
digits of a year at that reading and at the first guess. -/
structure Followed (zone : Zone) (wall : Int) : Prop where
  repeated : ∀ change, zone.Repeats wall change → wall < change
  day_skipped : ∀ change, zone.Skips wall change →
    zone.offset change = zone.offset (change - 1) + 1440 → change ≤ wall
  years : 100 ≤ zone.yearAt wall ∧ 100 ≤ zone.yearAt (wall - zone.offset wall * minuteMs)

section Rule

variable {zone : Zone} {wall change before after : Int}

/-- The instant the rule names: before the change, unless the wall clock is only shown after it. -/
def target (wall change before after : Int) : Int :=
  if change ≤ wall - before * minuteMs ∧ change ≤ wall - after * minuteMs then
    wall - after * minuteMs
  else wall - before * minuteMs

/-- A change near a wall clock is the one around it. -/
theorem Zone.Around.change_eq (h : zone.Around wall change before after) {u : Int}
    (hu : zone.Transition u) (hfrom : wall - dayMs + 1 < u) (hto : u < wall + dayMs) :
    u = change ∧ zone.offset (u - 1) = before ∧ zone.offset u = after := by
  have hbefore := h.offset_before
  have hafter := h.offset_after
  have hlast : ¬ change ≤ u - 1 := fun hle => hu <| by
    rw [hafter (u - 1) (by omega) (by omega) hle, hafter u (by omega) hto (by omega)]
  have hfirst : ¬ u < change := fun hlt => hu <| by
    rw [hbefore (u - 1) (by omega) (by omega) (by omega), hbefore u (by omega) hto hlt]
  have heq : u = change := by omega
  refine ⟨heq, ?_, ?_⟩
  · exact hbefore (u - 1) (by omega) (by omega) (by omega)
  · exact hafter u (by omega) hto (by omega)

theorem Zone.Skips.around (h : zone.Around wall change before after) {u : Int}
    (hu : zone.Skips wall u) :
    u = change ∧ zone.offset (u - 1) = before ∧ zone.offset u = after := by
  obtain ⟨hfrom, hto⟩ := hu
  have hfirst := zone.underADay (u - 1)
  have hlast := zone.underADay u
  apply h.change_eq
  · intro heq
    unfold minuteMs at hfrom hto
    omega
  · unfold minuteMs dayMs at *
    omega
  · unfold minuteMs dayMs at *
    omega

theorem Zone.Repeats.around (h : zone.Around wall change before after) {u : Int}
    (hu : zone.Repeats wall u) :
    u = change ∧ zone.offset (u - 1) = before ∧ zone.offset u = after := by
  obtain ⟨hfrom, hto⟩ := hu
  have hfirst := zone.underADay (u - 1)
  have hlast := zone.underADay u
  apply h.change_eq
  · intro heq
    unfold minuteMs at hfrom hto
    omega
  · unfold minuteMs dayMs at *
    omega
  · unfold minuteMs dayMs at *
    omega

/-- Which instants show a wall clock. -/
theorem Zone.Around.wallClock_iff (h : zone.Around wall change before after) (t : Int) :
    zone.wallClock t = wall ↔
      t = wall - before * minuteMs ∧ t < change ∨ t = wall - after * minuteMs ∧ change ≤ t := by
  have hbefore := h.offset_before t
  have hafter := h.offset_after t
  have hzone := zone.underADay t
  have hb := h.before_lt
  have ha := h.after_lt
  unfold ZoneOffsets.wallClock
  unfold minuteMs dayMs at *
  constructor
  · intro heq
    by_cases hlt : t < change
    · rw [hbefore (by omega) (by omega) hlt] at heq
      omega
    · rw [hafter (by omega) (by omega) (by omega)] at heq
      omega
  · rintro (⟨heq, hlt⟩ | ⟨heq, hle⟩)
    · rw [hbefore (by omega) (by omega) hlt]
      omega
    · rw [hafter (by omega) (by omega) hle]
      omega

/-- The rule names one instant. -/
theorem Zone.Around.resolves_iff (h : zone.Around wall change before after) (result : Int) :
    Resolves zone wall result ↔ result = target wall change before after := by
  have hshows := h.wallClock_iff
  constructor
  · intro hresolves
    unfold target
    by_cases hfirst : change ≤ wall - before * minuteMs
    · by_cases hlast : change ≤ wall - after * minuteMs
      · rw [if_pos ⟨hfirst, hlast⟩]
        have hwall := (hresolves.once ⟨wall - after * minuteMs, (hshows _).2 (.inr ⟨rfl, hlast⟩),
          fun t ht => ?_⟩).1
        · rcases (hshows _).1 hwall with ⟨heq, hlt⟩ | ⟨heq, -⟩
          · omega
          · exact heq
        · rcases (hshows _).1 ht with ⟨heq, hlt⟩ | ⟨heq, -⟩
          · omega
          · exact heq
      · rw [if_neg fun hboth => hlast hboth.2]
        obtain ⟨u, hskips, hresult, -⟩ := hresolves.skipped fun t ht => by
          rcases (hshows _).1 ht with ⟨heq, hlt⟩ | ⟨heq, hle⟩
          · omega
          · omega
        rw [hresult, (hskips.around h).2.1]
    · rw [if_neg fun hboth => hfirst hboth.1]
      have hshown : zone.wallClock (wall - before * minuteMs) = wall :=
        (hshows _).2 (.inl ⟨rfl, Int.not_le.1 hfirst⟩)
      by_cases hlast : change ≤ wall - after * minuteMs
      · exact hresolves.twice _ (wall - after * minuteMs) (by omega) hshown
          ((hshows _).2 (.inr ⟨rfl, hlast⟩))
      · have hwall := (hresolves.once ⟨wall - before * minuteMs, hshown, fun t ht => ?_⟩).1
        · rcases (hshows _).1 hwall with ⟨heq, -⟩ | ⟨heq, hle⟩
          · exact heq
          · omega
        · rcases (hshows _).1 ht with ⟨heq, -⟩ | ⟨heq, hle⟩
          · exact heq
          · omega
  · rintro rfl
    constructor
    · rintro ⟨t, ht, -⟩
      have hwall : zone.wallClock (target wall change before after) = wall := by
        rw [hshows] at ht ⊢
        unfold target
        split
        · next hboth => exact .inr ⟨rfl, hboth.2⟩
        · next hnot =>
          left
          refine ⟨rfl, Int.not_le.1 fun hle => ?_⟩
          rcases ht with ⟨heq, hlt⟩ | ⟨heq, hle'⟩
          · omega
          · exact hnot ⟨hle, heq ▸ hle'⟩
      refine ⟨hwall, ?_⟩
      show partsOf (zone.wallClock _) = partsOf wall
      rw [hwall]
    · intro t t' hlt ht ht'
      rw [hshows] at ht ht'
      unfold target
      rw [if_neg fun hboth => by omega]
      omega
    · intro hnone
      have hfirst : change ≤ wall - before * minuteMs :=
        Int.not_lt.1 fun hlt => hnone _ ((hshows _).2 (.inl ⟨rfl, hlt⟩))
      have hlast : wall - after * minuteMs < change :=
        Int.not_le.1 fun hle => hnone _ ((hshows _).2 (.inr ⟨rfl, hle⟩))
      have hb := h.before_lt
      have ha := h.after_lt
      have hoffsets : zone.offset (change - 1) = before ∧ zone.offset change = after := by
        unfold minuteMs at hfirst hlast
        refine ⟨h.offset_before _ ?_ ?_ (by omega), h.offset_after _ ?_ ?_ (by omega)⟩ <;>
          unfold dayMs <;> omega
      have htarget : target wall change before after = wall - before * minuteMs :=
        if_neg fun hboth => by omega
      refine ⟨change, ⟨?_, ?_⟩, ?_, ?_⟩
      · rw [hoffsets.1]
        omega
      · rw [hoffsets.2]
        omega
      · rw [hoffsets.1, htarget]
      · rw [htarget]
        exact hfirst

/-- The condition, around a wall clock. -/
theorem Zone.Around.followed_iff (h : zone.Around wall change before after) :
    Followed zone wall ↔
      (wall - before * minuteMs < change → change ≤ wall - after * minuteMs → wall < change) ∧
      (change ≤ wall - before * minuteMs → wall - after * minuteMs < change →
        after = before + 1440 → change ≤ wall) ∧
      100 ≤ zone.yearAt wall ∧ 100 ≤ zone.yearAt (wall - zone.offset wall * minuteMs) := by
  have hb := h.before_lt
  have ha := h.after_lt
  have hoffsets : wall - dayMs + 1 < change → change < wall + dayMs →
      zone.offset (change - 1) = before ∧ zone.offset change = after := fun hfrom hto =>
    ⟨h.offset_before _ (by omega) (by omega) (by omega),
      h.offset_after _ (by omega) (by omega) (by omega)⟩
  constructor
  · intro hfollowed
    refine ⟨fun hfirst hlast => ?_, fun hfirst hlast hday => ?_, hfollowed.years⟩
    · obtain ⟨hone, htwo⟩ := hoffsets (by unfold dayMs minuteMs at *; omega)
        (by unfold dayMs minuteMs at *; omega)
      apply hfollowed.repeated change
      unfold Zone.Repeats
      rw [hone, htwo]
      omega
    · obtain ⟨hone, htwo⟩ := hoffsets (by unfold dayMs minuteMs at *; omega)
        (by unfold dayMs minuteMs at *; omega)
      apply hfollowed.day_skipped change _ (by rw [hone, htwo, hday])
      unfold Zone.Skips
      rw [hone, htwo]
      omega
  · rintro ⟨hrepeated, hskipped, hyears⟩
    refine ⟨fun u hu => ?_, fun u hu hday => ?_, hyears⟩
    · obtain ⟨rfl, hone, htwo⟩ := hu.around h
      unfold Zone.Repeats at hu
      rw [hone, htwo] at hu
      exact hrepeated (by omega) (by omega)
    · obtain ⟨rfl, hone, htwo⟩ := hu.around h
      unfold Zone.Skips at hu
      rw [hone, htwo] at hu
      exact hskipped (by omega) (by omega) (by omega)

/-! ## The code -/

/-- A time to the minute, as part of a wall clock. -/
structure OfWall (time : LocalTimeOfDay) (wall : Int) : Prop where
  hour : time.hour = wall % dayMs / 3600000
  minute : time.minute = wall % 3600000 / minuteMs
  whole : wall % minuteMs = 0

variable (zone) in
/-- An instant that is whole minutes away reads back at the time exactly when it is whole days
away. -/
theorem readsBack_iff {time : LocalTimeOfDay} {r : Int} (hhour : time.hour = wall % dayMs / 3600000)
    (hminute : time.minute = wall % 3600000 / minuteMs) (hminutes : (r - wall) % minuteMs = 0) :
    ((localParts r zone).hour = time.hour ∧ (localParts r zone).minute = time.minute) ↔
      (zone.wallClock r - wall) % dayMs = 0 := by
  rw [hhour, hminute]
  show zone.wallClock r % dayMs / 3600000 = _ ∧ zone.wallClock r % 3600000 / minuteMs = _ ↔ _
  have hwall : (zone.wallClock r - wall) % minuteMs = 0 := by
    unfold ZoneOffsets.wallClock minuteMs at *
    omega
  generalize zone.wallClock r = shown at hwall ⊢
  unfold minuteMs dayMs at *
  omega

variable (zone) in
/-- The correction, by the offsets it reads. -/
theorem correct_eq {time : LocalTimeOfDay} (hhour : time.hour = wall % dayMs / 3600000)
    (hminute : time.minute = wall % 3600000 / minuteMs) :
    let first := wall - zoneOffsetMinutes wall zone * minuteMs
    let second := wall - zoneOffsetMinutes first zone * minuteMs
    correct wall time zone =
      if (zone.wallClock second - wall) % dayMs = 0 then second else max first second := by
  intro first second
  have hresult : (if second ≠ first then second else first) = second := by
    split
    · rfl
    · next heq => exact (not_not.1 heq).symm
  have hreads := readsBack_iff zone (r := second) hhour hminute (by
    show (wall - zoneOffsetMinutes first zone * minuteMs - wall) % minuteMs = 0
    unfold minuteMs
    omega)
  show (if _ then max first second else (if second ≠ first then second else first)) = _
  rw [hresult]
  by_cases hback : (zone.wallClock second - wall) % dayMs = 0
  · obtain ⟨hsame, hsameMinute⟩ := hreads.2 hback
    rw [if_pos hback, if_neg]
    simp [hsame, hsameMinute]
  · rw [if_neg hback, if_pos]
    rw [← hreads, not_and_or] at hback
    simpa using hback

/-- Both offsets read right: the code and the rule agree under the condition. -/
theorem Zone.Around.correct_iff_of_read (h : zone.Around wall change before after)
    {time : LocalTimeOfDay} (htime : OfWall time wall)
    (hguess : zoneOffsetMinutes wall zone = zone.offset wall)
    (hfirst : zoneOffsetMinutes (wall - zone.offset wall * minuteMs) zone
      = zone.offset (wall - zone.offset wall * minuteMs)) :
    correct wall time zone = target wall change before after ↔
      (wall - before * minuteMs < change → change ≤ wall - after * minuteMs → wall < change) ∧
      (change ≤ wall - before * minuteMs → wall - after * minuteMs < change →
        after = before + 1440 → change ≤ wall) := by
  have hcorrect := correct_eq zone htime.hour htime.minute
  dsimp only at hcorrect
  rw [hguess, hfirst] at hcorrect
  rw [hcorrect]
  obtain ⟨hbefore, hafter, hb, ha, hjump⟩ := h
  unfold ZoneOffsets.wallClock target minuteMs dayMs at *
  by_cases hearly : wall < change
  · rw [hbefore wall (by omega) (by omega) hearly]
    by_cases hone : wall - before * 60000 < change
    · -- shown before the change, and the guess is right
      rw [hbefore _ (by omega) (by omega) hone, hbefore _ (by omega) (by omega) hone]
      split_ifs <;> omega
    · rw [hafter (wall - before * 60000) (by omega) (by omega) (by omega)]
      by_cases htwo : wall - after * 60000 < change
      · -- skipped
        rw [hbefore (wall - after * 60000) (by omega) (by omega) htwo]
        split_ifs <;> omega
      · rw [hafter (wall - after * 60000) (by omega) (by omega) (by omega)]
        split_ifs <;> omega
  · rw [hafter wall (by omega) (by omega) (by omega)]
    by_cases htwo : wall - after * 60000 < change
    · rw [hbefore (wall - after * 60000) (by omega) (by omega) htwo]
      by_cases hone : wall - before * 60000 < change
      · rw [hbefore (wall - before * 60000) (by omega) (by omega) hone]
        split_ifs <;> omega
      · rw [hafter (wall - before * 60000) (by omega) (by omega) (by omega)]
        split_ifs <;> omega
    · -- shown after the change, and before it too where it repeats
      rw [hafter (wall - after * 60000) (by omega) (by omega) (by omega),
        hafter (wall - after * 60000) (by omega) (by omega) (by omega)]
      split_ifs <;> omega

/-- The year the zone's clock shows is early exactly where the clock is. -/
theorem yearAt_lt_iff {t : Int} {year : Int} :
    zone.yearAt t < year ↔ zone.wallClock t < (daysBeforeYear year - epochDay) * dayMs := by
  unfold Zone.yearAt
  rw [yearOf_lt_iff]
  unfold dayMs
  omega

/-- An offset read far too large leaves the rule's instant out of reach. -/
theorem Zone.Around.correct_ne_of_early (h : zone.Around wall change before after)
    {time : LocalTimeOfDay} (htime : OfWall time wall)
    (hwall : (daysBeforeYear 100 - epochDay) * dayMs ≤ wall)
    (hearly : zone.yearAt wall < 100 ∨
      zone.yearAt (wall - zone.offset wall * minuteMs) < 100) :
    correct wall time zone ≠ target wall change before after := by
  have hcorrect := correct_eq zone htime.hour htime.minute
  dsimp only at hcorrect
  have hresult : ∀ first second : Int, (if (zone.wallClock second - wall) % dayMs = 0 then second
      else max first second) = second ∨ (if (zone.wallClock second - wall) % dayMs = 0 then second
      else max first second) = first ∧ second ≤ first := by
    intro first second
    split_ifs
    · exact .inl rfl
    · omega
  have htarget : target wall change before after = wall - before * minuteMs ∨
      target wall change before after = wall - after * minuteMs := by
    unfold target
    split_ifs
    · exact .inr rfl
    · exact .inl rfl
  obtain ⟨hbefore, hafter, hb, ha, hjump⟩ := h
  have hlimit : (daysBeforeYear 100 - epochDay) * dayMs = -59011459200000 := by decide
  rw [hlimit] at hwall
  by_cases hguess : zone.yearAt wall < 100
  · have hlarge := zoneOffsetMinutes_early hguess
    have hagain : zone.yearAt (wall - zoneOffsetMinutes wall zone * minuteMs) < 100 := by
      rw [yearAt_lt_iff, hlimit] at hguess ⊢
      have hzone := zone.underADay wall
      have hzone' := zone.underADay (wall - zoneOffsetMinutes wall zone * minuteMs)
      unfold ZoneOffsets.wallClock minuteMs at *
      omega
    have hlarge' := zoneOffsetMinutes_early hagain
    have heither := hresult (wall - zoneOffsetMinutes wall zone * minuteMs)
      (wall - zoneOffsetMinutes (wall - zoneOffsetMinutes wall zone * minuteMs) zone * minuteMs)
    rw [← hcorrect] at heither
    unfold minuteMs at *
    omega
  · have hread := zoneOffsetMinutes_eq (Int.not_lt.1 hguess)
    rw [hread] at hcorrect
    have hfirst := hearly.resolve_left hguess
    have hlarge := zoneOffsetMinutes_early hfirst
    have heither := hresult (wall - zone.offset wall * minuteMs)
      (wall - zoneOffsetMinutes (wall - zone.offset wall * minuteMs) zone * minuteMs)
    rw [← hcorrect] at heither
    rw [yearAt_lt_iff, hlimit] at hfirst
    -- the rule's instant shows the wall clock or later, the first guess an earlier year
    have hlate : wall ≤ zone.wallClock (target wall change before after) := by
      unfold target ZoneOffsets.wallClock minuteMs dayMs at *
      split_ifs with hboth
      · rw [hafter _ (by omega) (by omega) hboth.2]
        omega
      · by_cases hone : wall - before * 60000 < change
        · rw [hbefore _ (by omega) (by omega) hone]
          omega
        · rw [hafter _ (by omega) (by omega) (by omega)]
          omega
    intro heq
    rcases heither with hsecond | ⟨hsame, -⟩
    · rw [hsecond] at heq
      unfold minuteMs at *
      omega
    · rw [← heq, hsame] at hlate
      omega

end Rule

/-- A date and a time of day, to the minute. -/
structure ClockInput where
  date : Date
  valid : date.Valid
  from100 : 100 ≤ date.year
  to9999 : date.year ≤ 9999
  hour : Nat
  hour_lt : hour < 24
  minute : Nat
  minute_lt : minute < 60

namespace ClockInput

variable (input : ClockInput)

def text : JsString := dateText input.date.year input.date.month input.date.day

def time : LocalTimeOfDay := ⟨input.hour, input.minute, none, none⟩

/-- What the clock is to show. -/
def wall : Int :=
  (input.date.number - epochDay) * dayMs + input.hour * 3600000 + input.minute * minuteMs

theorem ofWall : OfWall input.time input.wall := by
  have hhour := input.hour_lt
  have hminute := input.minute_lt
  constructor
  · show (input.hour : Int) = _
    unfold wall dayMs minuteMs
    omega
  · show (input.minute : Int) = _
    unfold wall dayMs minuteMs
    omega
  · unfold wall dayMs minuteMs
    omega

theorem dateFields_text : dateFields input.text
    = some (input.date.year.toNat, input.date.month, input.date.day.toNat) := by
  have hyears := input.to9999
  have hmonths := input.valid.month_le
  have hdays : input.date.day.toNat < 10 ^ 2 := by
    have hlast := input.valid.day_le
    have hfrom := daysBeforeMonth_mono input.date.year input.valid.month_pos (by omega)
    rw [daysBeforeMonth_one] at hfrom
    have hlength : daysInMonth input.date.year input.date.month ≤ 31 := by
      have hone := input.valid.month_pos
      unfold daysInMonth daysBeforeMonth
      generalize input.date.month = month at hone hmonths
      cases isLeap input.date.year <;> interval_cases month <;> decide
    omega
  have hyear : (Decimals.printPadded 4 input.date.year.toNat).length = 4 :=
    Decimals.length_printPadded (by omega) (by omega)
  have hmonth : (Decimals.printPadded 2 input.date.month).length = 2 :=
    Decimals.length_printPadded (by omega) (by omega)
  have hday : (Decimals.printPadded 2 input.date.day.toNat).length = 2 :=
    Decimals.length_printPadded (by omega) hdays
  have hreadYear := Decimals.read_printPadded 4 input.date.year.toNat
  have hreadMonth := Decimals.read_printPadded 2 input.date.month
  have hreadDay := Decimals.read_printPadded 2 input.date.day.toNat
  unfold text dateText
  generalize Decimals.printPadded 4 input.date.year.toNat = a at hyear hreadYear ⊢
  generalize Decimals.printPadded 2 input.date.month = b at hmonth hreadMonth ⊢
  generalize Decimals.printPadded 2 input.date.day.toNat = c at hday hreadDay ⊢
  obtain ⟨a1, a2, a3, a4, rfl⟩ := List.length_eq_four.1 hyear
  obtain ⟨b1, b2, rfl⟩ := List.length_eq_two.1 hmonth
  obtain ⟨c1, c2, rfl⟩ := List.length_eq_two.1 hday
  have hdash : js "-" = [45] := by decide
  simp only [hdash, dateFields, List.cons_append, List.nil_append, List.length_cons, List.length_nil,
    List.take_succ_cons, List.take_zero, List.drop_succ_cons, List.drop_zero, hreadYear, hreadMonth,
    hreadDay, Option.bind_eq_bind, Option.bind_some]
  rfl

theorem guessOf_eq : guessOf input.date.year.toNat input.date.month input.date.day.toNat input.time
    = input.wall := by
  have hyear := input.from100
  have hday := input.valid.day_pos
  have hfull : fullYear input.date.year = input.date.year := by
    apply if_neg
    simp only [Bool.and_eq_true, decide_eq_true_eq]
    omega
  unfold guessOf dateUtc wall
  rw [Int.toNat_of_nonneg (by omega), Int.toNat_of_nonneg (by omega), hfull]
  show _ + _ + (0 : Int) * 1000 + 0 = _
  rw [Int.zero_mul, Int.add_zero, Int.add_zero]
  rfl

theorem wall_ge : (daysBeforeYear 100 - epochDay) * dayMs ≤ input.wall := by
  have hyears := daysBeforeYear_le input.from100
  obtain ⟨hfrom, -⟩ := input.valid.number_mem
  have hyear := input.from100
  unfold wall dayMs minuteMs
  omega

/-- The instant is found, and is the one the rule names. -/
def Resolved (zone : Zone) : Prop :=
  ∃ result, localInstant input.text input.time zone = .ok result ∧ Resolves zone input.wall result

theorem resolved_iff (zone : Zone) :
    input.Resolved zone ↔ Resolves zone input.wall (correct input.wall input.time zone) := by
  have hcode : localInstant input.text input.time zone
      = .ok (correct input.wall input.time zone) := by
    unfold localInstant
    rw [input.dateFields_text]
    dsimp only
    rw [input.guessOf_eq]
  unfold Resolved
  rw [hcode]
  constructor
  · rintro ⟨result, heq, hresult⟩
    rwa [Except.ok.inj heq]
  · exact fun hresult => ⟨_, rfl, hresult⟩

end ClockInput

/-- The rule is followed for exactly the wall clocks of the condition. -/
theorem localInstant_resolves (zone : Zone) (input : ClockInput) :
    input.Resolved zone ↔ Followed zone input.wall := by
  obtain ⟨change, before, after, h⟩ := zone.exists_around input.wall
  rw [input.resolved_iff, h.resolves_iff, h.followed_iff]
  by_cases hyears : 100 ≤ zone.yearAt input.wall ∧
      100 ≤ zone.yearAt (input.wall - zone.offset input.wall * minuteMs)
  · rw [h.correct_iff_of_read input.ofWall (zoneOffsetMinutes_eq hyears.1)
      (zoneOffsetMinutes_eq hyears.2)]
    exact ⟨fun ⟨hrepeated, hskipped⟩ => ⟨hrepeated, hskipped, hyears⟩,
      fun ⟨hrepeated, hskipped, _⟩ => ⟨hrepeated, hskipped⟩⟩
  · constructor
    · intro hcorrect
      refine absurd hcorrect (h.correct_ne_of_early input.ofWall input.wall_ge ?_)
      rw [not_and_or, Int.not_le, Int.not_le] at hyears
      exact hyears
    · exact fun hfollowed => absurd hfollowed.2.2 hyears

/-- A zone with one transition. -/
def Zone.changing (change before after : Int) (hbefore : -1440 < before ∧ before < 1440)
    (hafter : -1440 < after ∧ after < 1440)
    (hjump : -1440 ≤ after - before ∧ after - before ≤ 1440) : Zone where
  offset t := if t < change then before else after
  underADay t := by
    split
    · exact hbefore
    · exact hafter
  jump t := by
    split_ifs <;> omega
  isolated s t hst hs ht := by
    split_ifs at hs ht <;> omega

/-- Two hours to one, on 2026-10-25 at 01:00 UTC. -/
def berlin : Zone := .changing 1792890000000 120 60 (by decide) (by decide) (by decide)

/-- From ten hours behind to fourteen ahead, on 2011-12-30 at 10:00 UTC. -/
def apia : Zone := .changing 1325239200000 (-600) 840 (by decide) (by decide) (by decide)

def fiveBehind : Zone := .changing 0 (-300) (-300) (by decide) (by decide) (by decide)

/-- A clock that repeats east of Greenwich, a skipped day, and the first hours of the year 100. -/
theorem repeated_clock_taken_late :
    ¬ ClockInput.Resolved ⟨⟨2026, 10, 25⟩, by decide, by decide, by decide, 2, by decide, 30,
        by decide⟩ berlin ∧
      ¬ ClockInput.Resolved ⟨⟨2011, 12, 30⟩, by decide, by decide, by decide, 9, by decide, 0,
        by decide⟩ apia ∧
      ¬ ClockInput.Resolved ⟨⟨100, 1, 1⟩, by decide, by decide, by decide, 2, by decide, 0,
        by decide⟩ fiveBehind := by
  refine ⟨fun h => ?_, fun h => ?_, fun h => ?_⟩
  · rw [ClockInput.resolved_iff] at h
    have hlate := h.twice 1792888200000 1792891800000 (by decide) (by decide +kernel)
      (by decide +kernel)
    revert hlate
    decide +kernel
  · rw [ClockInput.resolved_iff] at h
    obtain ⟨change, hskips, -, hlater⟩ := h.skipped fun t => by
      show t + (if t < 1325239200000 then (-600 : Int) else 840) * minuteMs ≠ 1325235600000
      unfold minuteMs
      split <;> omega
    change change + (if change - 1 < 1325239200000 then (-600 : Int) else 840) * minuteMs
        ≤ 1325235600000 ∧
      1325235600000 < change + (if change < 1325239200000 then (-600 : Int) else 840) * minuteMs
      at hskips
    have hresult : correct 1325235600000 ⟨9, 0, none, none⟩ apia = 1325185200000 := by
      decide +kernel
    change change ≤ correct 1325235600000 ⟨9, 0, none, none⟩ apia at hlater
    rw [hresult] at hlater
    unfold minuteMs at hskips
    split_ifs at hskips <;> omega
  · rw [ClockInput.resolved_iff] at h
    have hwall := (h.once ⟨-59011434000000, by decide +kernel, fun t ht => ?_⟩).1
    · revert hwall
      decide +kernel
    · change t + (if t < 0 then (-300 : Int) else -300) * minuteMs = -59011452000000 at ht
      unfold minuteMs at ht
      split at ht <;> omega

end FoundingSales.Contracts.LocalClock
