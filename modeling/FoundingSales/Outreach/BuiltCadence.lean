import FoundingSales.Outreach.Timing
import FoundingSales.Rules.SendingWindow

/-!
The cadence that is built when a plan is started, and that the steps of every such plan are timed
by the touch that is due.

Proved here:

* `le_wallClock_correct`: a clock is not read as an earlier one, unless a day is skipped;
* `touchesFrom_planned`, `touchesFrom_ordered`: what one touch after another is planned for;
* `buildOutreachCadence_wellBuilt`: every built cadence is well built;
* `timing_agrees_iff`: exactly when the answer to an execution agrees with the touch that is due;
* `passed_over_held`: a missed touch that is held instead of skipped.
-/

namespace FoundingSales.Outreach.Timing

open Contracts.LocalClock Rules.LocalDates

inductive OutreachLane
  | emailFirst | callFirst
  deriving DecidableEq

/-- The days after the start, and the channel used on each. -/
def slots : OutreachLane → List (Nat × TouchChannel)
  | .emailFirst => [0, 3, 7, 13, 20].map fun offset => (offset, .email)
  | .callFirst =>
    ([0, 4, 9, 14].map (fun offset => (offset, TouchChannel.phone)) ++
      [2, 7, 12, 20].map fun offset => (offset, TouchChannel.email)).insertionSort
      fun a b => a.1 ≤ b.1

/-- The last millisecond of the day the zone's clock shows. -/
def endOfLocalDay (instant : Instant) (zone : Zone) : Instant :=
  correct (zone.wallClock instant / dayMs * dayMs + 86399999) ⟨23, 59, some 59, some 999⟩ zone

/-- What the cadence is built from: the parts of the first instant, the first day and the calls' hour. -/
structure Start where
  zone : Zone
  parts : LocalParts
  date : BusinessDate
  hour : Nat

/-- When a touch is due on its day. -/
def Start.dueAt (start : Start) (index : Nat) (channel : TouchChannel) (date : BusinessDate) :
    Instant :=
  match channel with
  | .email =>
    (zoneClock start.zone).localInstant date prospectingEmailWindow.defaultHour
      (if index = 0 && start.parts.hour = prospectingEmailWindow.defaultHour then start.parts.minute
        else 0) []
  | .phone =>
    (zoneClock start.zone).localInstant date start.hour
      (if 10 ≤ start.parts.hour && start.parts.hour < 17 then start.parts.minute else 0) []

/-- A touch's day: that of its offset, or the next working day after the previous one. -/
def Start.touchDate (start : Start) (offset : Nat) (previous : Option BusinessDate) : BusinessDate :=
  let date := weekday (start.date + offset)
  match previous with
  | some previous => if date ≤ previous then weekday (previous + 1) else date
  | none => date

/-- The loop over the slots. -/
def Start.touchesFrom (start : Start) : Nat → Option BusinessDate → (TouchChannel → Nat) →
    List (Nat × TouchChannel) → List PlannedTouch
  | _, _, _, [] => []
  | index, previous, counts, (offset, channel) :: slots =>
    let date := start.touchDate offset previous
    let count := counts channel + 1
    { ordinal := index + 1
      channel := channel
      localDate := date
      dueAt := start.dueAt index channel date
      channelOrdinal := count
      voicemail := channel = .phone && [1, 4].contains count } ::
      start.touchesFrom (index + 1) (some date) (Function.update counts channel count) slots

def startOf (lane : OutreachLane) (startsAt : Instant) (zone : Zone) : Start :=
  let anchor := match lane with
    | .emailFirst => placeEmailSend (zoneClock zone) startsAt [] prospectingEmailWindow
    | .callFirst => startsAt
  let parts := (zoneClock zone).localParts anchor []
  { zone := zone
    parts := parts
    date := weekday (if 17 ≤ parts.hour then parts.date + 1 else parts.date)
    hour := max 10 (min parts.hour 16) }

def builtTouches (lane : OutreachLane) (startsAt : Instant) (zone : Zone) : List PlannedTouch :=
  (startOf lane startsAt zone).touchesFrom 0 none (fun _ => 0) (slots lane)

/-- The last touch, in a list that has one. -/
def buildOutreachCadence (lane : OutreachLane) (startsAt : Instant) (zone : Zone) : PlannedCadence :=
  let touches := builtTouches lane startsAt zone
  { zone := zone
    expiresAt := endOfLocalDay ((touches.getLast?.map fun touch => touch.dueAt).getD startsAt) zone
    touches := touches }

/-! ## The end of a day -/

section Days

variable {zone : Zone} {wall change before after t : Int}

/-- A corrected clock shows no earlier one, unless a whole day is skipped. -/
theorem le_wallClock_correct (h : zone.Around wall change before after) {time : LocalTimeOfDay}
    (hhour : time.hour = wall % dayMs / 3600000)
    (hminute : time.minute = wall % 3600000 / minuteMs) (hlate : (firstDay - epochDay) * dayMs + dayMs ≤ wall)
    (hday : ∀ u, zone.Skips wall u → zone.offset u ≠ zone.offset (u - 1) + 1440) :
    wall ≤ zone.wallClock (correct wall time zone) := by
  obtain ⟨hguess, hfirst⟩ := offsets_read zone hlate
  have hcorrect := correct_eq zone hhour hminute
  dsimp only at hcorrect
  rw [hguess, hfirst] at hcorrect
  rw [hcorrect]
  have hb := h.before_lt
  have ha := h.after_lt
  have hjump := h.jump
  -- What the clock shows where each of the two offsets is taken off.
  have hfirst : zone.wallClock (wall - before * minuteMs) =
      if wall - before * minuteMs < change then wall else wall + (after - before) * minuteMs := by
    unfold ZoneOffsets.wallClock
    split
    · next hlt =>
      rw [h.offset_before _ (by unfold minuteMs dayMs; omega) (by unfold minuteMs dayMs; omega) hlt]
      omega
    · next hnot =>
      rw [h.offset_after _ (by unfold minuteMs dayMs; omega) (by unfold minuteMs dayMs; omega)
        (Int.not_lt.1 hnot)]
      unfold minuteMs
      omega
  have hlast : zone.wallClock (wall - after * minuteMs) =
      if wall - after * minuteMs < change then wall + (before - after) * minuteMs else wall := by
    unfold ZoneOffsets.wallClock
    split
    · next hlt =>
      rw [h.offset_before _ (by unfold minuteMs dayMs; omega) (by unfold minuteMs dayMs; omega) hlt]
      unfold minuteMs
      omega
    · next hnot =>
      rw [h.offset_after _ (by unfold minuteMs dayMs; omega) (by unfold minuteMs dayMs; omega)
        (Int.not_lt.1 hnot)]
      omega
  have hread := h.offset_before
  have hread' := h.offset_after
  by_cases hearly : wall < change
  · rw [hread wall (by unfold dayMs; omega) (by unfold dayMs; omega) hearly]
    by_cases hone : wall - before * minuteMs < change
    · rw [hread (wall - before * minuteMs) (by unfold minuteMs dayMs; omega)
        (by unfold minuteMs dayMs; omega) hone, max_self, ite_self, hfirst, if_pos hone]
    · rw [hread' (wall - before * minuteMs) (by unfold minuteMs dayMs; omega)
        (by unfold minuteMs dayMs; omega) (Int.not_lt.1 hone)]
      rw [if_neg hone] at hfirst
      split
      · next hback =>
        rw [hlast] at hback ⊢
        split_ifs at hback ⊢ with htwo
        · -- Taken to the day before only by a skipped day.
          have hskips := hday change
          unfold Zone.Skips at hskips
          rw [hread (change - 1) (by unfold minuteMs dayMs at *; omega)
            (by unfold minuteMs dayMs at *; omega) (by omega), hread' change
            (by unfold minuteMs dayMs at *; omega) (by unfold minuteMs dayMs at *; omega)
            (Int.le_refl _)] at hskips
          unfold minuteMs dayMs at *
          omega
        · exact Int.le_refl _
      · rcases le_total (wall - before * minuteMs) (wall - after * minuteMs) with hle | hle
        · rw [max_eq_right hle, hlast]
          unfold minuteMs at *
          split_ifs <;> omega
        · rw [max_eq_left hle, hfirst]
          unfold minuteMs at *
          omega
  · rw [hread' wall (by unfold dayMs; omega) (by unfold dayMs; omega) (Int.not_lt.1 hearly)]
    by_cases htwo : wall - after * minuteMs < change
    · rw [hread (wall - after * minuteMs) (by unfold minuteMs dayMs; omega)
        (by unfold minuteMs dayMs; omega) htwo]
      rw [if_pos htwo] at hlast
      split
      · rw [hfirst]
        unfold minuteMs at *
        split_ifs <;> omega
      · rcases le_total (wall - after * minuteMs) (wall - before * minuteMs) with hle | hle
        · rw [max_eq_right hle, hfirst]
          unfold minuteMs at *
          split_ifs <;> omega
        · rw [max_eq_left hle, hlast]
          unfold minuteMs at *
          omega
    · rw [hread' (wall - after * minuteMs) (by unfold minuteMs dayMs; omega)
        (by unfold minuteMs dayMs; omega) (Int.not_lt.1 htwo), max_self, ite_self, hlast,
        if_neg htwo]

/-- A skipped clock is shown nowhere. -/
theorem not_shown_of_skips {u : Int} (h : zone.Skips wall u) : zone.wallClock t ≠ wall := by
  obtain ⟨change, before, after, haround⟩ := zone.exists_around wall
  obtain ⟨rfl, hbefore, hafter⟩ := Zone.Skips.around haround h
  obtain ⟨hfrom, hto⟩ := h
  intro ht
  rw [hbefore] at hfrom
  rw [hafter] at hto
  rcases (haround.wallClock_iff t).1 ht with ⟨heq, hlt⟩ | ⟨heq, hle⟩ <;> omega

/-- Where every day's clock is shown, no day is skipped. -/
theorem DayShown.no_day_skipped (h : DayShown zone) {u : Int} :
    zone.offset u ≠ zone.offset (u - 1) + 1440 := by
  intro hday
  have hten : ∃ date, u + zone.offset (u - 1) * minuteMs ≤ date * dayMs + (600 : Nat) * minuteMs ∧
      date * dayMs + (600 : Nat) * minuteMs < u + zone.offset u * minuteMs := by
    refine ⟨(u + zone.offset (u - 1) * minuteMs - 36000000 + 86399999) / dayMs, ?_⟩
    rw [hday]
    unfold minuteMs dayMs
    omega
  obtain ⟨date, hten⟩ := hten
  obtain ⟨t, ht, -⟩ := h date 600 (by omega) (by omega)
  exact not_shown_of_skips hten ht

/-- The day of an instant ends after its clock of the day. -/
theorem le_endOfLocalDay (h : DayShown zone) {date : Int} {minute : Nat} (hfrom : 480 ≤ minute)
    (hto : minute ≤ 1080) (ht : zone.wallClock t = date * dayMs + minute * minuteMs)
    {last : Int} (hdate : date ≤ zone.wallClock last / dayMs)
    (hfirst : firstDate ≤ zone.wallClock last / dayMs) : t ≤ endOfLocalDay last zone := by
  apply Int.not_lt.1
  rw [lt_iff_wallClock h hfrom hto ht, Int.not_lt]
  obtain ⟨change, before, after, haround⟩ :=
    zone.exists_around (zone.wallClock last / dayMs * dayMs + 86399999)
  have hend : zone.wallClock last / dayMs * dayMs + 86399999 ≤
      zone.wallClock (endOfLocalDay last zone) := by
    apply le_wallClock_correct haround
    · show (23 : Int) = _
      unfold dayMs
      omega
    · show (59 : Int) = _
      unfold minuteMs dayMs
      omega
    · unfold firstDate at hfirst
      unfold dayMs at *
      omega
    · exact fun u _ => h.no_day_skipped
  refine le_trans ?_ hend
  generalize zone.wallClock last / dayMs = lastDate at hdate ⊢
  unfold minuteMs dayMs
  omega

end Days

/-! ## One touch after another -/

section Touches

variable {start : Start} {index offset : Nat} {channel : TouchChannel} {date : BusinessDate}
  {previous : Option BusinessDate} {counts : TouchChannel → Nat} {touch : PlannedTouch}

/-- A start whose clocks are the zone's, on a date that is read back. -/
structure Start.Sound (start : Start) : Prop where
  shown : DayShown start.zone
  minute : start.parts.minute < 60
  date : firstDate ≤ start.date
  hour : 10 ≤ start.hour ∧ start.hour ≤ 16

/-- The minute of its day at which a touch is due. -/
theorem Start.dueAt_clock (h : start.Sound) (hdate : firstDate ≤ date) (index : Nat)
    (channel : TouchChannel) :
    ∃ minute : Nat, 600 ≤ minute ∧ minute < 1020 ∧ (channel = .email → minute < 660) ∧
      start.zone.wallClock (start.dueAt index channel date) = date * dayMs + minute * minuteMs := by
  have hclock : ∀ hour minute, 10 ≤ hour → hour ≤ 16 → minute < 60 →
      start.zone.wallClock ((zoneClock start.zone).localInstant date hour minute []) =
        date * dayMs + (hour * 60 + minute : Nat) * minuteMs := by
    intro hour minute hfrom hto hminute
    have hread := wallClock_localInstant h.shown hdate
      (show 480 ≤ hour * 60 + minute by omega) (by omega) []
    have hdiv : (hour * 60 + minute) / 60 = hour := by omega
    have hmod : (hour * 60 + minute) % 60 = minute := by omega
    rwa [hdiv, hmod] at hread
  have hminute := h.minute
  obtain ⟨hfrom, hto⟩ := h.hour
  cases channel with
  | email =>
    have hpart : (if index = 0 && start.parts.hour = prospectingEmailWindow.defaultHour then
        start.parts.minute else 0) < 60 := by
      split <;> omega
    refine ⟨_, ?_, ?_, ?_, hclock 10 _ (by omega) (by omega) hpart⟩ <;> omega
  | phone =>
    have hpart : (if 10 ≤ start.parts.hour && start.parts.hour < 17 then start.parts.minute else 0)
        < 60 := by
      split <;> omega
    refine ⟨_, ?_, ?_, fun hne => ?_, hclock start.hour _ hfrom hto hpart⟩
    · omega
    · omega
    · cases hne

/-- A touch's day is a working day after the previous one, not before the start. -/
theorem Start.touchDate_spec (start : Start) (offset : Nat) (previous : Option BusinessDate) :
    Outreach.weekdayOfDate (start.touchDate offset previous) ∉ [0, 6] ∧
      start.date ≤ start.touchDate offset previous ∧
      ∀ date ∈ previous, date < start.touchDate offset previous := by
  have hstart : start.date ≤ weekday (start.date + offset) :=
    (Int.le_add_of_nonneg_right (Int.natCast_nonneg offset)).trans (le_weekday _)
  unfold Start.touchDate
  dsimp only
  cases previous with
  | none => exact ⟨weekday_not_weekend _, hstart, fun date hdate => by cases hdate⟩
  | some previous =>
    have hnext : previous < weekday (previous + 1) :=
      (Int.lt_add_one_of_le (Int.le_refl previous)).trans_le (le_weekday _)
    dsimp only
    split
    · next hle =>
      refine ⟨weekday_not_weekend _, (hstart.trans hle).trans (Int.le_of_lt hnext),
        fun date hdate => ?_⟩
      rwa [← Option.mem_some_iff.1 hdate]
    · next hlt =>
      refine ⟨weekday_not_weekend _, hstart, fun date hdate => ?_⟩
      rw [← Option.mem_some_iff.1 hdate]
      exact Int.not_le.1 hlt

/-- Every touch is planned at a clock of a working day. -/
theorem Start.touchesFrom_planned (h : start.Sound) (plan : PlannedCadence)
    (hzone : plan.zone = start.zone) (slots : List (Nat × TouchChannel)) :
    ∀ {index previous counts}, touch ∈ start.touchesFrom index previous counts slots →
      ∃ minute, Planned plan touch minute := by
  induction slots with
  | nil => exact fun htouch => absurd htouch List.not_mem_nil
  | cons slot slots ih =>
    intro index previous counts htouch
    rcases List.mem_cons.1 htouch with rfl | hrest
    · obtain ⟨hworking, hdate, -⟩ := start.touchDate_spec slot.1 previous
      obtain ⟨minute, hfrom, hto, hemail, hclock⟩ :=
        start.dueAt_clock h (h.date.trans hdate) index slot.2
      refine ⟨minute, ⟨hfrom, hto⟩, hemail, hworking, h.date.trans hdate, ?_⟩
      rw [hzone]
      exact hclock
    · exact ih hrest

/-- What is counted and dated before the loop's touches. -/
structure After (index : Nat) (previous : Option BusinessDate) (counts : TouchChannel → Nat)
    (touch : PlannedTouch) : Prop where
  ordinal : index < touch.ordinal
  date : ∀ date ∈ previous, date < touch.localDate
  counted : counts touch.channel < touch.channelOrdinal

/-- Each touch is after what was planned before it, and after each touch before it. -/
theorem Start.touchesFrom_ordered (start : Start) (slots : List (Nat × TouchChannel)) :
    ∀ (index : Nat) (previous : Option BusinessDate) (counts : TouchChannel → Nat),
      (∀ touch ∈ start.touchesFrom index previous counts slots, After index previous counts touch) ∧
      (start.touchesFrom index previous counts slots).Pairwise fun a b =>
        a.ordinal < b.ordinal ∧ a.localDate < b.localDate ∧
          ¬ (a.channel = b.channel ∧ a.channelOrdinal = b.channelOrdinal) := by
  induction slots with
  | nil => exact fun _ _ _ => ⟨fun _ htouch => absurd htouch List.not_mem_nil, List.Pairwise.nil⟩
  | cons slot slots ih =>
    intro index previous counts
    obtain ⟨hafter, hpairs⟩ := ih (index + 1) (some (start.touchDate slot.1 previous))
      (Function.update counts slot.2 (counts slot.2 + 1))
    obtain ⟨-, -, hlater⟩ := start.touchDate_spec slot.1 previous
    constructor
    · intro touch htouch
      rcases List.mem_cons.1 htouch with rfl | hrest
      · exact ⟨Nat.lt_succ_self index, hlater, Nat.lt_succ_self _⟩
      · have hrest := hafter touch hrest
        refine ⟨(Nat.lt_succ_self index).trans hrest.ordinal, fun date hdate => ?_, ?_⟩
        · exact (hlater date hdate).trans (hrest.date _ rfl)
        · have hcounted := hrest.counted
          by_cases hchannel : touch.channel = slot.2
          · rw [hchannel, Function.update_self] at hcounted
            rw [hchannel]
            omega
          · rwa [Function.update_of_ne hchannel] at hcounted
    · refine List.pairwise_cons.2 ⟨fun touch htouch => ?_, hpairs⟩
      have hrest := hafter touch htouch
      refine ⟨hrest.ordinal, hrest.date _ rfl, fun ⟨hchannel, hordinal⟩ => ?_⟩
      have hcounted := hrest.counted
      change slot.2 = touch.channel at hchannel
      change counts slot.2 + 1 = touch.channelOrdinal at hordinal
      rw [← hchannel, Function.update_self] at hcounted
      omega

end Touches

/-! ## Every built cadence -/

section Built

variable {zone : Zone} {startsAt : Instant}

theorem le_sendingDayFrom (clock : ZoneClock) (timeZone : JsString) (steps : Nat) :
    ∀ date, date ≤ sendingDayFrom clock timeZone steps date := by
  induction steps with
  | zero => exact fun date => Int.le_refl date
  | succ steps ih =>
    intro date
    unfold sendingDayFrom
    split
    · exact Int.le_refl date
    · exact (Int.le_add_one (Int.le_refl date)).trans (ih (date + 1))

/-- An e-mail is not placed on an earlier day. -/
theorem le_placeEmailSend (hshown : DayShown zone)
    (hdate : firstDate ≤ zone.wallClock startsAt / dayMs) :
    firstDate ≤ zone.wallClock
      (placeEmailSend (zoneClock zone) startsAt [] prospectingEmailWindow) / dayMs := by
  have hplaced : ∀ day, firstDate ≤ day → firstDate ≤ zone.wallClock ((zoneClock zone).localInstant
      (sendingDayFrom (zoneClock zone) [] 400 day) 10 0 []) / dayMs := by
    intro day hday
    have hlater := hday.trans (le_sendingDayFrom (zoneClock zone) [] 400 day)
    have hclock := wallClock_localInstant hshown hlater (show 480 ≤ 600 by omega) (by omega) []
    change zone.wallClock ((zoneClock zone).localInstant _ 10 0 []) = _ at hclock
    rw [hclock, Int.le_ediv_iff_mul_le (by decide)]
    refine (Int.mul_le_mul_of_nonneg_right hlater (by decide)).trans ?_
    exact Int.le_add_of_nonneg_right (by decide)
  unfold placeEmailSend
  dsimp only
  split
  · exact hdate
  · apply hplaced
    split
    · exact hdate
    · exact hdate.trans (Int.le_add_one (Int.le_refl _))

theorem startOf_sound (lane : OutreachLane) (hshown : DayShown zone)
    (hdate : firstDate ≤ zone.wallClock startsAt / dayMs) : (startOf lane startsAt zone).Sound := by
  have hparts : ∀ anchor, firstDate ≤ zone.wallClock anchor / dayMs →
      ((zoneClock zone).localParts anchor []).minute < 60 ∧
        firstDate ≤ weekday (if 17 ≤ ((zoneClock zone).localParts anchor []).hour then
          ((zoneClock zone).localParts anchor []).date + 1
          else ((zoneClock zone).localParts anchor []).date) := by
    intro anchor hanchor
    constructor
    · show (zone.wallClock anchor % 3600000 / minuteMs).toNat < 60
      unfold minuteMs
      omega
    · refine le_trans ?_ (le_weekday _)
      split
      · exact hanchor.trans (Int.le_add_one (Int.le_refl _))
      · exact hanchor
  have hhour : ∀ hour : Nat, 10 ≤ max 10 (min hour 16) ∧ max 10 (min hour 16) ≤ 16 := by
    intro hour
    omega
  cases lane with
  | emailFirst =>
    obtain ⟨hminute, hfirst⟩ := hparts _ (le_placeEmailSend hshown hdate)
    exact ⟨hshown, hminute, hfirst, hhour _⟩
  | callFirst =>
    obtain ⟨hminute, hfirst⟩ := hparts _ hdate
    exact ⟨hshown, hminute, hfirst, hhour _⟩

/-- Every built cadence is well built. -/
theorem buildOutreachCadence_wellBuilt (lane : OutreachLane) (hshown : DayShown zone)
    (hdate : firstDate ≤ zone.wallClock startsAt / dayMs) :
    WellBuilt (buildOutreachCadence lane startsAt zone) := by
  have hsound := startOf_sound lane hshown hdate
  have hzone : (buildOutreachCadence lane startsAt zone).zone = (startOf lane startsAt zone).zone := by
    cases lane <;> rfl
  obtain ⟨hafter, hpairs⟩ :=
    (startOf lane startsAt zone).touchesFrom_ordered (slots lane) 0 none (fun _ => 0)
  have hplanned : ∀ touch ∈ (buildOutreachCadence lane startsAt zone).touches,
      ∃ minute, Planned (buildOutreachCadence lane startsAt zone) touch minute :=
    fun touch htouch => Start.touchesFrom_planned hsound _ hzone (slots lane) htouch
  refine ⟨hshown, hpairs.imp fun h => h.1, fun touch htouch => (hafter touch htouch).ordinal,
    hpairs.imp fun h => h.2.2, hplanned, fun touch htouch => ?_⟩
  rcases List.eq_nil_or_concat (builtTouches lane startsAt zone) with hnil | ⟨front, last, hconcat⟩
  · change touch ∈ builtTouches lane startsAt zone at htouch
    rw [hnil] at htouch
    cases htouch
  · rw [List.concat_eq_append] at hconcat
    have hexpires : (buildOutreachCadence lane startsAt zone).expiresAt
        = endOfLocalDay last.dueAt zone := by
      show endOfLocalDay (((builtTouches lane startsAt zone).getLast?.map fun touch =>
        touch.dueAt).getD startsAt) zone = _
      rw [hconcat, List.getLast?_append, List.getLast?_singleton]
      rfl
    have hlastMem : last ∈ (buildOutreachCadence lane startsAt zone).touches := by
      show last ∈ builtTouches lane startsAt zone
      rw [hconcat]
      simp
    obtain ⟨minute, hminute⟩ := hplanned touch htouch
    obtain ⟨lastMinute, hlastMinute⟩ := hplanned last hlastMem
    have hrange := hminute.range
    have hlastRange := hlastMinute.range
    have hday : zone.wallClock last.dueAt / dayMs = last.localDate := by
      have hclock : zone.wallClock last.dueAt = _ := hlastMinute.clock
      rw [hclock]
      unfold minuteMs dayMs
      omega
    have hle : touch.localDate ≤ last.localDate := by
      change touch ∈ builtTouches lane startsAt zone at htouch
      change (builtTouches lane startsAt zone).Pairwise _ at hpairs
      rw [hconcat] at htouch hpairs
      rcases List.mem_append.1 htouch with hfront | hend
      · exact Int.le_of_lt ((List.pairwise_append.1 hpairs).2.2 touch hfront last (by simp)).2.1
      · rw [List.mem_singleton.1 hend]
    rw [hexpires]
    apply le_endOfLocalDay hshown (by omega) (by omega) hminute.clock
    · rwa [hday]
    · rw [hday]
      exact hlastMinute.date

/-- For every start: the answer to an execution agrees with the due touch exactly when its touch was
not passed over. -/
theorem timing_agrees_iff (lane : OutreachLane) (hshown : DayShown zone)
    (hdate : firstDate ≤ zone.wallClock startsAt / dayMs) {rows : List TouchRow}
    (hrows : Accepted (buildOutreachCadence lane startsAt zone) rows) {touch : PlannedTouch}
    (htouch : touch ∈ (buildOutreachCadence lane startsAt zone).touches)
    {channel : Sequences.StepChannel} (hchannel : touchChannel channel = touch.channel)
    {at_ : Instant} (hat : at_ ≤ (buildOutreachCadence lane startsAt zone).expiresAt)
    {executionId : Uuid}
    (hown : ∀ row ∈ rows, row.actionId = executionId → row.ordinal = touch.ordinal) :
    Agrees (buildOutreachCadence lane startsAt zone) rows channel touch executionId at_ ↔
      NotPassedOver (buildOutreachCadence lane startsAt zone) rows touch executionId at_ :=
  agrees_iff (buildOutreachCadence_wellBuilt lane hshown hdate) hrows htouch hchannel hat hown

end Built

/-! ## A touch passed over -/

theorem dayShown_greenwich : DayShown Rules.SendingWindow.greenwich := fun _ _ _ _ =>
  Rules.SendingWindow.shownOnce_changing _ _ _ (by omega)

/-- Calls first, from Monday 2026-10-05 at 14:00 on. -/
def mondayCadence : PlannedCadence :=
  buildOutreachCadence .callFirst 1791208800000 Rules.SendingWindow.greenwich

/-- The first call was made at once, and on Friday at 14:00 the second. -/
def callsMade : List TouchRow :=
  [⟨1, js "first-call", .accepted, 1791208800000⟩, ⟨3, js "second-call", .accepted, 1791554400000⟩]

/-- Wednesday's e-mail, which has not been sent. -/
def missedEmail : PlannedTouch where
  ordinal := 2
  channel := .email
  localDate := 20733
  dueAt := 1791367200000
  channelOrdinal := 1
  voicemail := false

theorem callsMade_accepted : Accepted mondayCadence callsMade := by
  have hfirst : Accepted mondayCadence [⟨1, js "first-call", .accepted, 1791208800000⟩] := by
    apply @Accepted.next mondayCadence [] _ ⟨1, .phone, 20731, 1791208800000⟩ .none rfl
    · exact fun earlier hearlier => absurd hearlier List.not_mem_nil
    · decide +kernel
    · rfl
  apply @Accepted.next mondayCadence _ _ ⟨3, .phone, 20735, 1791554400000⟩ hfirst rfl
  · intro earlier hearlier
    rw [List.mem_singleton.1 hearlier]
    decide
  · decide +kernel
  · rfl

theorem timing_agrees_iff_monday :
    Agrees mondayCadence callsMade .email missedEmail (js "email") 1791558000000 ↔
      NotPassedOver mondayCadence callsMade missedEmail (js "email") 1791558000000 :=
  timing_agrees_iff .callFirst dayShown_greenwich (by decide +kernel) callsMade_accepted
    (by decide +kernel) rfl (by decide +kernel) (by decide +kernel)

/-- An hour after the second call the missed e-mail is held, and not skipped. -/
theorem passed_over_held : Accepted mondayCadence callsMade ∧ missedEmail ∈ mondayCadence.touches ∧
    1791558000000 ≤ mondayCadence.expiresAt ∧
    outreachExecutionTiming (some mondayCadence) callsMade .email 1 (js "email") 1791558000000
      = .hold ∧
    ¬ Agrees mondayCadence callsMade .email missedEmail (js "email") 1791558000000 := by
  have hheld : outreachExecutionTiming (some mondayCadence) callsMade .email 1 (js "email")
      1791558000000 = .hold := by
    decide +kernel
  refine ⟨callsMade_accepted, by decide +kernel, by decide +kernel, hheld, fun hagrees => ?_⟩
  have hskipped := hagrees.skip.2 ⟨by decide +kernel, Or.inl
    ⟨⟨3, js "second-call", .accepted, 1791554400000⟩, by decide +kernel, by decide⟩⟩
  rw [show missedEmail.channelOrdinal = 1 from rfl, hheld] at hskipped
  cases hskipped

end FoundingSales.Outreach.Timing
