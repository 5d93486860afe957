import FoundingSales.Rules.SendingWindow
import FoundingSales.Sequences.Enrollments

/-!
When a completed step's successor is due: by the plan, counted from the start, or by the gap the
plan leaves, counted from the completion; whichever is later.

Proved here:

* `resolveDelay_business`: a business-day delay ends at eight on the nth business day;
* `spacingFloor_business`, `spacingFloor_elapsed`: what the floor is counted from;
* `successor_spaced`: the successor is never before the plan, is the plan when on time, comes no
  earlier for a later completion, and keeps the spacing;
* `later_completion_earlier_successor`: not where the local date goes back.
-/

namespace FoundingSales.Successor

open Calendar Contracts.LocalClock Rules.LocalDates Rules.BusinessDays Rules.SendingWindow

structure SequenceStep where
  ordinal : Nat
  channel : Sequences.StepChannel
  delay : SequenceDelay
  deriving DecidableEq

inductive Anchor
  | plan | completion
  deriving DecidableEq

structure SuccessorDue extends ResolvedDueInstant where
  anchor : Anchor
  deriving DecidableEq

/-- When a step is due, counted from the enrollment's start. -/
def resolveStepDue (step : SequenceStep) (startedAt : Int) (zone : Zone)
    (calendar : WorkspaceHolidayCalendar) : Except LocalClockError ResolvedDueInstant :=
  resolveDelay startedAt step.delay zone calendar

structure SuccessorDueInput where
  previous : Option SequenceStep
  next : SequenceStep
  startedAt : Int
  zone : Zone
  calendar : WorkspaceHolidayCalendar
  completedAt : Int

/-- The planned gap, counted again from the completion. -/
def spacingFloor (previous : SequenceStep) (input : SuccessorDueInput) :
    Except LocalClockError ResolvedDueInstant := do
  let previousPlan ← resolveStepDue previous input.startedAt input.zone input.calendar
  let nextPlan ← resolveStepDue input.next input.startedAt input.zone input.calendar
  match input.next.delay with
  | .businessDays _ => do
    let first ← nextBusinessDayOnOrAfter previousPlan.localDate input.calendar
    let days ← businessDaysAfter first nextPlan.localDate input.calendar
    resolveDelay input.completedAt (.businessDays days) input.zone input.calendar
  | .elapsed _ =>
    let gapMilliseconds : Int := max 0 (nextPlan.dueAt - previousPlan.dueAt)
    resolveDelay input.completedAt (.elapsed (gapMilliseconds / 3600000)) input.zone input.calendar

def successorDue (input : SuccessorDueInput) : Except LocalClockError SuccessorDue := do
  let plan ← resolveStepDue input.next input.startedAt input.zone input.calendar
  match input.previous with
  | none => .ok ⟨plan, .plan⟩
  | some previous => do
    let floor ← spacingFloor previous input
    if floor.dueAt ≤ plan.dueAt then return ⟨plan, .plan⟩
    else
      return ⟨{ floor with ruleVersion := floor.ruleVersion ++ js "+after-completion" }, .completion⟩

/-! ## Delays -/

section Delays

variable {zone : Zone} {calendar : WorkspaceHolidayCalendar} {start : Int} {due : ResolvedDueInstant}

/-- A business-day delay from an instant: the nth business day, at eight. -/
structure DueOn (zone : Zone) (calendar : WorkspaceHolidayCalendar) (start : Int) (n : Nat)
    (due : ResolvedDueInstant) (day : Int) : Prop where
  nth : Workdays.IsNth (businessDay calendar) (localDay zone start) n day
  dated : Dated day
  localDate : due.localDate = isoDate day
  clock : zone.wallClock due.dueAt = clockAt day 8

theorem DueOn.localDay {n : Nat} {day : Int} (h : DueOn zone calendar start n due day) :
    localDay zone due.dueAt = day :=
  localDay_of_wallClock (by omega) h.clock

/-- What is resolved lies on the nth business day. -/
theorem resolveDelay_business (height : HourShown zone 8) (hstart : Readable zone start)
    {days : Int} (h : resolveDelay start (.businessDays days) zone calendar = .ok due) :
    ∃ (n : Nat) (day : Int), days = n ∧ DueOn zone calendar start n due day := by
  unfold resolveDelay at h
  rw [show localDate start zone = (localParts start zone).date from rfl,
    localParts_date hstart.1] at h
  change addBusinessDays (isoDate (Rules.LocalDates.localDay zone start)) days calendar >>= _ = _ at h
  have hdays : ∃ n : Nat, days = n := by
    refine ⟨days.toNat, (Int.toNat_of_nonneg (Int.not_lt.1 fun hneg => ?_)).symm⟩
    unfold addBusinessDays at h
    rw [if_pos hneg] at h
    cases h
  obtain ⟨n, rfl⟩ := hdays
  refine ⟨n, ?_⟩
  cases htarget : addBusinessDays (isoDate (Rules.LocalDates.localDay zone start)) n calendar with
  | error e =>
    rw [htarget] at h
    cases h
  | ok date =>
    obtain ⟨day, hadvance, hdated, rfl⟩ := (addBusinessDays_eq_ok_iff hstart.1 n date).1 htarget
    have hnth := Workdays.isNth_of_advance hadvance
    have hle := hnth.le
    obtain ⟨dueAt, hdueAt, hclock⟩ := localInstant_of_shownOnce hdated (by
      have := hstart.2
      omega) (by omega) (height day)
    rw [htarget] at h
    change localInstant (isoDate day) ⟨(8 : Nat), 0, none, none⟩ zone >>= _ = _ at h
    rw [hdueAt] at h
    obtain rfl := Except.ok.inj h
    exact ⟨day, rfl, hnth, hdated, rfl, hclock⟩

/-- The nth business day, where it is there, is resolved. -/
theorem exists_resolveDelay_business (height : HourShown zone 8) (hruns : RunsShort calendar)
    (hstart : Readable zone start) {n : Nat} {day : Int}
    (h : Workdays.IsNth (businessDay calendar) (localDay zone start) n day) :
    ∃ due, resolveDelay start (.businessDays n) zone calendar = .ok due ∧
      DueOn zone calendar start n due day := by
  obtain ⟨first, hadded⟩ := added_of_isNth hruns hstart.1 h
  have hle := h.le
  obtain ⟨dueAt, hdueAt, hclock⟩ := localInstant_of_shownOnce hadded.dated (by
    have := hstart.2
    omega) (by omega) (height day)
  refine ⟨⟨dueAt, js "business-day.1+" ++ calendar.version, isoDate day⟩, ?_,
    h, hadded.dated, rfl, hclock⟩
  unfold resolveDelay
  rw [show localDate start zone = (localParts start zone).date from rfl, localParts_date hstart.1]
  show addBusinessDays _ _ _ >>= _ = _
  rw [hadded.added]
  show localInstant (isoDate day) ⟨(8 : Nat), 0, none, none⟩ zone >>= _ = _
  rw [hdueAt]
  rfl

/-- Of the days' eights, the later is on the later day. -/
theorem DueOn.dueAt_le (height : HourShown zone 8) {start' : Int} {due' : ResolvedDueInstant}
    {n m : Nat} {day day' : Int} (h : DueOn zone calendar start n due day)
    (h' : DueOn zone calendar start' m due' day') : due.dueAt ≤ due'.dueAt ↔ day ≤ day' := by
  rw [← not_iff_not, Int.not_le, Int.not_le, (height day).lt_iff h.clock, h'.clock]
  unfold clockAt dayMs
  omega

theorem timeClip_intCast (t : Int) : timeClip t = t := by
  unfold timeClip
  split
  · exact Int.floor_intCast t
  · exact Int.ceil_intCast t

/-- A gap in whole milliseconds is counted exactly. -/
theorem resolveDelay_gap (gap : Int) :
    resolveDelay start (.elapsed ((gap : ℚ) / 3600000)) zone calendar =
      .ok ⟨start + gap, js "elapsed.1", localDate (start + gap) zone⟩ := by
  have hclip : timeClip ((start : ℚ) + (gap : ℚ) / 3600000 * 3600000) = start + gap := by
    rw [div_mul_cancel₀ (gap : ℚ) (by norm_num), ← Int.cast_add, timeClip_intCast]
  unfold resolveDelay
  dsimp only
  rw [hclip]

end Delays

/-! ## The floor -/

/-- Two consecutive steps with their plans. -/
structure Planned (zone : Zone) (calendar : WorkspaceHolidayCalendar) (startedAt : Int)
    (previous next : SequenceStep) (previousPlan nextPlan : ResolvedDueInstant) : Prop where
  eight : HourShown zone 8
  started : Readable zone startedAt
  previous_plan : resolveStepDue previous startedAt zone calendar = .ok previousPlan
  next_plan : resolveStepDue next startedAt zone calendar = .ok nextPlan
  previous_readable : Readable zone previousPlan.dueAt

section Floor

variable {zone : Zone} {calendar : WorkspaceHolidayCalendar} {startedAt completedAt : Int}
  {previous next : SequenceStep} {previousPlan nextPlan floor : ResolvedDueInstant} {days : Int}

/-- A resolved instant is given with its local date. -/
theorem resolveDelay_localDate (height : HourShown zone 8) {start : Int} {delay : SequenceDelay}
    {due : ResolvedDueInstant} (hstart : Readable zone start)
    (hdated : Dated (localDay zone due.dueAt)) (h : resolveDelay start delay zone calendar = .ok due) :
    due.localDate = isoDate (localDay zone due.dueAt) := by
  cases delay with
  | elapsed hours =>
    unfold resolveDelay at h
    obtain rfl := Except.ok.inj h
    exact localParts_date hdated
  | businessDays days =>
    obtain ⟨n, day, -, hdue⟩ := resolveDelay_business height hstart h
    rw [hdue.localDay, hdue.localDate]

theorem Planned.previous_date
    (h : Planned zone calendar startedAt previous next previousPlan nextPlan) :
    previousPlan.localDate = isoDate (localDay zone previousPlan.dueAt) :=
  resolveDelay_localDate h.eight h.started h.previous_readable.1 h.previous_plan

theorem Planned.next_due (h : Planned zone calendar startedAt previous next previousPlan nextPlan)
    (hdelay : next.delay = .businessDays days) :
    ∃ (n : Nat) (day : Int), DueOn zone calendar startedAt n nextPlan day := by
  have hplan := h.next_plan
  unfold resolveStepDue at hplan
  rw [hdelay] at hplan
  obtain ⟨n, day, -, hdue⟩ := resolveDelay_business h.eight h.started hplan
  exact ⟨n, day, hdue⟩

/-- The business days the plans leave between the steps. -/
noncomputable def plannedDays (zone : Zone) (calendar : WorkspaceHolidayCalendar) (first : Int)
    (nextPlan : ResolvedDueInstant) : Nat :=
  Workdays.count (businessDay calendar) first (min (localDay zone nextPlan.dueAt) (first + 800))

/-- The floor of a business-day delay, up to the days it counts. -/
theorem Planned.spacingFloor_eq
    (h : Planned zone calendar startedAt previous next previousPlan nextPlan)
    (hdelay : next.delay = .businessDays days) {first : Int} (hfirst : Dated first)
    (hstarts : nextBusinessDayOnOrAfter previousPlan.localDate calendar = .ok (isoDate first)) :
    spacingFloor previous ⟨some previous, next, startedAt, zone, calendar, completedAt⟩ =
      resolveDelay completedAt (.businessDays (plannedDays zone calendar first nextPlan)) zone
        calendar := by
  obtain ⟨n, day, hdue⟩ := h.next_due hdelay
  unfold spacingFloor
  rw [h.previous_plan, h.next_plan]
  show (match next.delay with | .businessDays _ => _ | .elapsed _ => _) = _
  rw [hdelay]
  show nextBusinessDayOnOrAfter previousPlan.localDate calendar >>= _ = _
  rw [hstarts]
  show businessDaysAfter (isoDate first) nextPlan.localDate calendar >>= _ = _
  rw [hdue.localDate, businessDaysAfter_eq hfirst hdue.dated]
  unfold plannedDays
  rw [hdue.localDay]
  rfl

/-- What the floor of a business-day delay is counted from. -/
theorem Planned.spacingFloor_business
    (h : Planned zone calendar startedAt previous next previousPlan nextPlan)
    (hdelay : next.delay = .businessDays days) (hcompleted : Readable zone completedAt)
    (hfloor : spacingFloor previous ⟨some previous, next, startedAt, zone, calendar, completedAt⟩
      = .ok floor) :
    ∃ first day, Workdays.IsNth (businessDay calendar) (localDay zone previousPlan.dueAt) 0 first ∧
      Dated first ∧
      nextBusinessDayOnOrAfter previousPlan.localDate calendar = .ok (isoDate first) ∧
      DueOn zone calendar completedAt (plannedDays zone calendar first nextPlan) floor day := by
  have hdate := h.previous_date
  cases hstarts : nextBusinessDayOnOrAfter previousPlan.localDate calendar with
  | error e =>
    unfold spacingFloor at hfloor
    rw [h.previous_plan, h.next_plan] at hfloor
    change (match next.delay with | .businessDays _ => _ | .elapsed _ => _) = _ at hfloor
    rw [hdelay] at hfloor
    change nextBusinessDayOnOrAfter previousPlan.localDate calendar >>= _ = _ at hfloor
    rw [hstarts] at hfloor
    cases hfloor
  | ok date =>
    have hsearch := hstarts
    rw [hdate] at hsearch
    obtain ⟨first, hnth, hfirst, rfl⟩ := nextBusinessDayOnOrAfter_eq_ok h.previous_readable.1 hsearch
    rw [h.spacingFloor_eq hdelay hfirst hstarts] at hfloor
    obtain ⟨n, day, hn, hdue⟩ := resolveDelay_business h.eight hcompleted hfloor
    rw [Int.natCast_inj] at hn
    exact ⟨first, day, hnth, hfirst, rfl, hn ▸ hdue⟩

/-- The floor of an elapsed delay: the gap between the plans. -/
theorem Planned.spacingFloor_elapsed {hours : ℚ}
    (h : Planned zone calendar startedAt previous next previousPlan nextPlan)
    (hdelay : next.delay = .elapsed hours) :
    spacingFloor previous ⟨some previous, next, startedAt, zone, calendar, completedAt⟩ =
      .ok ⟨completedAt + max 0 (nextPlan.dueAt - previousPlan.dueAt), js "elapsed.1",
        localDate (completedAt + max 0 (nextPlan.dueAt - previousPlan.dueAt)) zone⟩ := by
  unfold spacingFloor
  rw [h.previous_plan, h.next_plan]
  show (match next.delay with | .businessDays _ => _ | .elapsed _ => _) = _
  rw [hdelay]
  exact resolveDelay_gap _

/-- The later of the plan and the floor. -/
theorem Planned.successorDue_eq
    (h : Planned zone calendar startedAt previous next previousPlan nextPlan)
    (hfloor : spacingFloor previous ⟨some previous, next, startedAt, zone, calendar, completedAt⟩
      = .ok floor) :
    successorDue ⟨some previous, next, startedAt, zone, calendar, completedAt⟩ =
      .ok (if floor.dueAt ≤ nextPlan.dueAt then ⟨nextPlan, .plan⟩
        else ⟨{ floor with ruleVersion := floor.ruleVersion ++ js "+after-completion" },
          .completion⟩) := by
  unfold successorDue
  rw [h.next_plan]
  show spacingFloor previous _ >>= _ = _
  rw [hfloor]
  show (if floor.dueAt ≤ nextPlan.dueAt then _ else _) = _
  split <;> rfl

theorem Planned.successorDue_ok
    (h : Planned zone calendar startedAt previous next previousPlan nextPlan) {due : SuccessorDue}
    (hdue : successorDue ⟨some previous, next, startedAt, zone, calendar, completedAt⟩ = .ok due) :
    ∃ floor, spacingFloor previous ⟨some previous, next, startedAt, zone, calendar, completedAt⟩
        = .ok floor ∧ due.dueAt = max nextPlan.dueAt floor.dueAt := by
  cases hfloor : spacingFloor previous ⟨some previous, next, startedAt, zone, calendar, completedAt⟩
  with
  | error e =>
    unfold successorDue at hdue
    rw [h.next_plan] at hdue
    change spacingFloor previous _ >>= _ = _ at hdue
    rw [hfloor] at hdue
    cases hdue
  | ok floor =>
    refine ⟨floor, rfl, ?_⟩
    rw [h.successorDue_eq hfloor] at hdue
    obtain rfl := Except.ok.inj hdue
    split
    · next hle => exact (max_eq_left hle).symm
    · next hnot => exact (max_eq_right (Int.le_of_lt (Int.not_le.1 hnot))).symm

/-! ## The successor -/

/-- A plan on a business day, or at eight on the next. -/
def movedToBusinessDay (plan : ResolvedDueInstant) (zone : Zone)
    (calendar : WorkspaceHolidayCalendar) : Except LocalClockError Int := do
  if ← isBusinessDay plan.localDate calendar then
    return plan.dueAt
  else
    let date ← nextBusinessDayOnOrAfter plan.localDate calendar
    localInstant date startOfWindow zone

/-- The gap between the plans is left after the completion: in business days, from the previous
plan's business day on, or in time. -/
def GapKept (zone : Zone) (calendar : WorkspaceHolidayCalendar) (delay : SequenceDelay)
    (previousPlan nextPlan : ResolvedDueInstant) (completedAt dueAt : Int) : Prop :=
  match delay with
  | .businessDays _ => ∀ first, Dated first →
      nextBusinessDayOnOrAfter previousPlan.localDate calendar = .ok (isoDate first) →
      localDay zone nextPlan.dueAt - first ≤ 800 →
      Workdays.count (businessDay calendar) first (localDay zone nextPlan.dueAt) ≤
        Workdays.count (businessDay calendar) (localDay zone completedAt) (localDay zone dueAt)
  | .elapsed _ => nextPlan.dueAt - previousPlan.dueAt ≤ dueAt - completedAt

/-- What is moved to a business day is at eight there, or was there. -/
theorem Planned.moved_le
    (h : Planned zone calendar startedAt previous next previousPlan nextPlan) {moved : Int}
    (hmoved : movedToBusinessDay previousPlan zone calendar = .ok moved) :
    previousPlan.dueAt ≤ moved ∧
      ∃ first, Workdays.IsNth (businessDay calendar) (localDay zone previousPlan.dueAt) 0 first ∧
        Dated first ∧
        nextBusinessDayOnOrAfter previousPlan.localDate calendar = .ok (isoDate first) ∧
        clockAt first 0 ≤ zone.wallClock moved := by
  have hday := h.previous_readable.1
  have hbusiness : isBusinessDay (isoDate (localDay zone previousPlan.dueAt)) calendar
      = .ok (businessDay calendar (localDay zone previousPlan.dueAt)) := isBusinessDay_isoDate hday
  unfold movedToBusinessDay at hmoved
  rw [h.previous_date] at hmoved ⊢
  rw [hbusiness] at hmoved
  cases hworked : businessDay calendar (localDay zone previousPlan.dueAt) with
  | true =>
    rw [hworked] at hmoved hbusiness
    obtain rfl := Except.ok.inj hmoved
    refine ⟨Int.le_refl _, _, .self hworked, hday, nextBusinessDayOnOrAfter_self hbusiness, ?_⟩
    unfold clockAt localDay dayMs
    omega
  | false =>
    rw [hworked] at hmoved
    change nextBusinessDayOnOrAfter _ calendar >>= _ = _ at hmoved
    cases hstarts : nextBusinessDayOnOrAfter (isoDate (localDay zone previousPlan.dueAt)) calendar
    with
    | error e =>
      rw [hstarts] at hmoved
      cases hmoved
    | ok date =>
      obtain ⟨first, hnth, hfirst, rfl⟩ := nextBusinessDayOnOrAfter_eq_ok hday hstarts
      have hlt : localDay zone previousPlan.dueAt < first := by
        have hle := hnth.le
        rcases Int.lt_or_eq_of_le hle with hlt | heq
        · exact hlt
        · rw [heq, hnth.worked] at hworked
          cases hworked
      obtain ⟨t, ht, hclock⟩ := localInstant_of_shownOnce hfirst (by
        have := hday.first_le
        omega) (by omega) (h.eight first)
      rw [hstarts] at hmoved
      change localInstant (isoDate first) ⟨(8 : Nat), 0, none, none⟩ zone = _ at hmoved
      rw [ht] at hmoved
      obtain rfl := Except.ok.inj hmoved
      refine ⟨Int.le_of_lt (((h.eight first).lt_iff hclock).2 ?_), first, hnth, hfirst, rfl, ?_⟩
      · unfold localDay at hlt
        unfold clockAt
        unfold dayMs at *
        omega
      · rw [hclock]
        unfold clockAt
        omega

/-- On time, the successor is the plan. -/
theorem Planned.on_time
    (h : Planned zone calendar startedAt previous next previousPlan nextPlan)
    (hruns : RunsShort calendar) {moved : Int}
    (hmoved : movedToBusinessDay previousPlan zone calendar = .ok moved)
    (hle : moved ≤ nextPlan.dueAt) :
    successorDue ⟨some previous, next, startedAt, zone, calendar, previousPlan.dueAt⟩ =
      .ok ⟨nextPlan, .plan⟩ := by
  obtain ⟨hprevious, first, hnth, hfirst, hstarts, hclock⟩ := h.moved_le hmoved
  cases hdelay : next.delay with
  | elapsed hours =>
    rw [h.successorDue_eq (h.spacingFloor_elapsed hdelay), if_pos]
    show previousPlan.dueAt + max 0 (nextPlan.dueAt - previousPlan.dueAt) ≤ nextPlan.dueAt
    omega
  | businessDays days =>
    obtain ⟨n, day, hdue⟩ := h.next_due hdelay
    have hfrom : first ≤ day := by
      have hwall : zone.wallClock moved ≤ clockAt day 8 := by
        rcases Int.lt_or_eq_of_le hle with hlt | rfl
        · exact Int.le_of_lt (((h.eight day).lt_iff hdue.clock).1 hlt)
        · exact Int.le_of_eq hdue.clock
      have hclocks := hclock.trans hwall
      unfold clockAt dayMs at hclocks
      omega
    have hcount : plannedDays zone calendar first nextPlan <
        Workdays.count (businessDay calendar) (localDay zone previousPlan.dueAt - 1) day := by
      have hmono := Workdays.count_mono (w := businessDay calendar) (a := first)
        (show min (localDay zone nextPlan.dueAt) (first + 800) ≤ day by
          rw [hdue.localDay]
          exact min_le_left _ _)
      rw [Workdays.count_add (by have := hnth.le; omega) hfrom, hnth.counted]
      unfold plannedDays
      omega
    obtain ⟨found, hfound, hto⟩ := Workdays.IsNth.of_count hcount
    obtain ⟨floor, hfloor, hdueOn⟩ :=
      exists_resolveDelay_business h.eight hruns h.previous_readable hfound
    rw [← h.spacingFloor_eq hdelay hfirst hstarts] at hfloor
    rw [h.successorDue_eq hfloor, if_pos ((hdueOn.dueAt_le h.eight hdue).2 hto)]

/-- A later completion has a later floor. -/
theorem Planned.floor_mono
    (h : Planned zone calendar startedAt previous next previousPlan nextPlan)
    {completedAt' : Int} {floor' : ResolvedDueInstant} (hle : completedAt ≤ completedAt')
    (hlocal : ∀ days, next.delay = .businessDays days → Readable zone completedAt ∧
      Readable zone completedAt' ∧ localDay zone completedAt ≤ localDay zone completedAt')
    (hfloor : spacingFloor previous ⟨some previous, next, startedAt, zone, calendar, completedAt⟩
      = .ok floor)
    (hfloor' : spacingFloor previous ⟨some previous, next, startedAt, zone, calendar, completedAt'⟩
      = .ok floor') : floor.dueAt ≤ floor'.dueAt := by
  cases hdelay : next.delay with
  | elapsed hours =>
    rw [h.spacingFloor_elapsed hdelay] at hfloor hfloor'
    obtain rfl := Except.ok.inj hfloor
    obtain rfl := Except.ok.inj hfloor'
    exact Int.add_le_add_right hle _
  | businessDays days =>
    obtain ⟨hcompleted, hcompleted', hday⟩ := hlocal days hdelay
    obtain ⟨first, day, hnth, -, -, hdue⟩ := h.spacingFloor_business hdelay hcompleted hfloor
    obtain ⟨first', day', hnth', -, -, hdue'⟩ := h.spacingFloor_business hdelay hcompleted' hfloor'
    obtain rfl := hnth.unique hnth'
    rw [hdue.dueAt_le h.eight hdue']
    exact hdue.nth.mono hday hdue'.nth

/-- The successor keeps the gap. -/
theorem Planned.gap_kept
    (h : Planned zone calendar startedAt previous next previousPlan nextPlan)
    (hcompleted : Readable zone completedAt) {due : SuccessorDue}
    (hdue : successorDue ⟨some previous, next, startedAt, zone, calendar, completedAt⟩ = .ok due) :
    GapKept zone calendar next.delay previousPlan nextPlan completedAt due.dueAt := by
  obtain ⟨floor, hfloor, hmax⟩ := h.successorDue_ok hdue
  unfold GapKept
  cases hdelay : next.delay with
  | elapsed hours =>
    rw [h.spacingFloor_elapsed hdelay] at hfloor
    obtain rfl := Except.ok.inj hfloor
    show nextPlan.dueAt - previousPlan.dueAt ≤ due.dueAt - completedAt
    dsimp only at hmax
    omega
  | businessDays days =>
    intro first hfirst hstarts hspan
    obtain ⟨first', day, -, hfirst', hstarts', hfloorDue⟩ :=
      h.spacingFloor_business hdelay hcompleted hfloor
    obtain rfl : first = first' := by
      rw [hstarts, Except.ok.injEq] at hstarts'
      exact isoDate_inj hfirst hfirst' hstarts'
    obtain ⟨n, planDay, hplan⟩ := h.next_due hdelay
    have hdays : plannedDays zone calendar first nextPlan =
        Workdays.count (businessDay calendar) first (localDay zone nextPlan.dueAt) := by
      unfold plannedDays
      rw [min_eq_left (by omega)]
    have hlater : ∃ last, localDay zone due.dueAt = last ∧ day ≤ last := by
      rw [hmax]
      rcases Int.le_total nextPlan.dueAt floor.dueAt with hle | hle
      · rw [max_eq_right hle]
        exact ⟨day, hfloorDue.localDay, Int.le_refl _⟩
      · rw [max_eq_left hle]
        exact ⟨planDay, hplan.localDay, (hfloorDue.dueAt_le h.eight hplan).1 hle⟩
    obtain ⟨last, hlast, hle⟩ := hlater
    have hcounted := hfloorDue.nth.counted
    have hfrom := hfloorDue.nth.le
    have hone := Workdays.count_succ (w := businessDay calendar)
      (Int.le_refl (localDay zone completedAt - 1))
    rw [Int.sub_add_cancel, Workdays.count_of_le (Int.le_refl _)] at hone
    rw [Workdays.count_add (show localDay zone completedAt - 1 ≤ localDay zone completedAt by omega)
      hfrom, hone] at hcounted
    have hmono := Workdays.count_mono (w := businessDay calendar) (a := localDay zone completedAt) hle
    rw [← hdays, hlast]
    split at hcounted <;> omega

/-- Where the dates last, a successor is due. -/
theorem Planned.returns
    (h : Planned zone calendar startedAt previous next previousPlan nextPlan)
    (hruns : RunsShort calendar) (hcompleted : Readable zone completedAt)
    (hleft : 0 < Workdays.count (businessDay calendar) (localDay zone previousPlan.dueAt - 1)
      (endDay - 1))
    (hroom : Workdays.count (businessDay calendar) (localDay zone previousPlan.dueAt)
        (localDay zone nextPlan.dueAt) <
      Workdays.count (businessDay calendar) (localDay zone completedAt - 1) (endDay - 1)) :
    ∃ due, successorDue ⟨some previous, next, startedAt, zone, calendar, completedAt⟩ = .ok due := by
  cases hdelay : next.delay with
  | elapsed hours => exact ⟨_, h.successorDue_eq (h.spacingFloor_elapsed hdelay)⟩
  | businessDays days =>
    obtain ⟨first, hnth, hle⟩ := Workdays.IsNth.of_count hleft
    have hday := h.previous_readable.1
    have hsearch := Workdays.nextWithin_of_dense (hruns.from hday.first_le) hnth (by omega)
    obtain ⟨hok, hfirst⟩ := searchFrom_of_nextWithin hday hsearch
    have hstarts : nextBusinessDayOnOrAfter previousPlan.localDate calendar = .ok (isoDate first) := by
      rw [h.previous_date]
      exact hok
    have hfewer : plannedDays zone calendar first nextPlan ≤
        Workdays.count (businessDay calendar) (localDay zone previousPlan.dueAt)
          (localDay zone nextPlan.dueAt) :=
      (Workdays.count_mono (min_le_left _ _)).trans (Workdays.count_anti hnth.le)
    obtain ⟨day, hfound, -⟩ := Workdays.IsNth.of_count (Nat.lt_of_le_of_lt hfewer hroom)
    obtain ⟨floor, hfloor, -⟩ := exists_resolveDelay_business h.eight hruns hcompleted hfound
    rw [← h.spacingFloor_eq hdelay hfirst hstarts] at hfloor
    exact ⟨_, h.successorDue_eq hfloor⟩

end Floor

/-- The successor is due no earlier than its plan; at its plan where the previous step was on time;
no earlier for a later completion, on a later local date; and with the gap kept. -/
theorem successor_spaced {zone : Zone} {calendar : WorkspaceHolidayCalendar} {startedAt : Int}
    {previous next : SequenceStep} {previousPlan nextPlan : ResolvedDueInstant}
    (h : Planned zone calendar startedAt previous next previousPlan nextPlan) :
    (∀ completedAt due,
      successorDue ⟨some previous, next, startedAt, zone, calendar, completedAt⟩ = .ok due →
      nextPlan.dueAt ≤ due.dueAt) ∧
    (RunsShort calendar → ∀ moved, movedToBusinessDay previousPlan zone calendar = .ok moved →
      moved ≤ nextPlan.dueAt →
      successorDue ⟨some previous, next, startedAt, zone, calendar, previousPlan.dueAt⟩ =
        .ok ⟨nextPlan, .plan⟩) ∧
    (∀ completedAt completedAt' due due', completedAt ≤ completedAt' →
      (∀ days, next.delay = .businessDays days → Readable zone completedAt ∧
        Readable zone completedAt' ∧ localDay zone completedAt ≤ localDay zone completedAt') →
      successorDue ⟨some previous, next, startedAt, zone, calendar, completedAt⟩ = .ok due →
      successorDue ⟨some previous, next, startedAt, zone, calendar, completedAt'⟩ = .ok due' →
      due.dueAt ≤ due'.dueAt) ∧
    (∀ completedAt due, Readable zone completedAt →
      successorDue ⟨some previous, next, startedAt, zone, calendar, completedAt⟩ = .ok due →
      GapKept zone calendar next.delay previousPlan nextPlan completedAt due.dueAt) ∧
    (RunsShort calendar → ∀ completedAt, Readable zone completedAt →
      0 < Workdays.count (businessDay calendar) (localDay zone previousPlan.dueAt - 1)
        (endDay - 1) →
      Workdays.count (businessDay calendar) (localDay zone previousPlan.dueAt)
          (localDay zone nextPlan.dueAt) <
        Workdays.count (businessDay calendar) (localDay zone completedAt - 1) (endDay - 1) →
      ∃ due, successorDue ⟨some previous, next, startedAt, zone, calendar, completedAt⟩
        = .ok due) := by
  refine ⟨?_, fun hruns moved => h.on_time hruns, ?_,
    fun completedAt due hcompleted hdue => h.gap_kept hcompleted hdue,
    fun hruns completedAt => h.returns hruns⟩
  · intro completedAt due hdue
    obtain ⟨floor, -, hmax⟩ := h.successorDue_ok hdue
    omega
  · intro completedAt completedAt' due due' hle hlocal hdue hdue'
    obtain ⟨floor, hfloor, hmax⟩ := h.successorDue_ok hdue
    obtain ⟨floor', hfloor', hmax'⟩ := h.successorDue_ok hdue'
    have hmono := h.floor_mono hle hlocal hfloor hfloor'
    omega

/-- From a Monday on: an e-mail at once and a call a business day later. -/
theorem successor_spaced_monday :
    successorDue ⟨some ⟨1, .email, .businessDays 0⟩, ⟨2, .callTask, .businessDays 1⟩, 1789977600000,
      greenwich, emptyHolidayCalendar, 1789977600000⟩ =
      .ok ⟨⟨1790064000000, js "business-day.1+none.1", js "2026-09-22"⟩, .plan⟩ := by
  have h : Planned greenwich emptyHolidayCalendar 1789977600000 ⟨1, .email, .businessDays 0⟩
      ⟨2, .callTask, .businessDays 1⟩
      ⟨1789977600000, js "business-day.1+none.1", js "2026-09-21"⟩
      ⟨1790064000000, js "business-day.1+none.1", js "2026-09-22"⟩ := by
    refine ⟨hourShown_greenwich 8, ⟨⟨?_, ?_⟩, ?_⟩, ?_, ?_, ⟨⟨?_, ?_⟩, ?_⟩⟩ <;> decide +kernel
  exact (successor_spaced h).2.1 runsShort_empty 1789977600000 (by decide +kernel) (by decide)

private theorem greenwich_offset : (-1440 : Int) < 0 ∧ (0 : Int) < 1440 := by decide

private theorem hourWest_offset : (-1440 : Int) < -60 ∧ (-60 : Int) < 1440 := by decide

private theorem hourBack_jump : (-1440 : Int) ≤ -60 - 0 ∧ (-60 - 0 : Int) ≤ 1440 := by decide

/-- On 2026-09-30 at 00:30 the clock goes back an hour, to the day before. -/
def midnightTwice : Zone :=
  .changing 1790728200000 0 (-60) greenwich_offset hourWest_offset hourBack_jump

/-- Every eight o'clock is shown once, and a completion that is later, but on the day before by the
clock, has an earlier successor. -/
theorem later_completion_earlier_successor : HourShown midnightTwice 8 ∧
    ∃ due due', successorDue ⟨some ⟨1, .email, .businessDays 0⟩, ⟨2, .callTask, .businessDays 1⟩,
        1789977600000, midnightTwice, emptyHolidayCalendar, 1790727000000⟩ = .ok due ∧
      successorDue ⟨some ⟨1, .email, .businessDays 0⟩, ⟨2, .callTask, .businessDays 1⟩,
        1789977600000, midnightTwice, emptyHolidayCalendar, 1790729400000⟩ = .ok due' ∧
      due'.dueAt < due.dueAt := by
  refine ⟨fun day => ?_, ⟨⟨1790845200000, js "business-day.1+none.1+after-completion",
    js "2026-10-01"⟩, .completion⟩, ⟨⟨1790758800000,
    js "business-day.1+none.1+after-completion", js "2026-09-30"⟩, .completion⟩,
    by decide +kernel, by decide +kernel, by decide⟩
  apply shownOnce_changing
  unfold clockAt dayMs minuteMs epochDay
  omega

end FoundingSales.Successor
