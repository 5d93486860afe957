import FoundingSales.Outreach.Cadence
import FoundingSales.Rules.LocalDates
import FoundingSales.Sequences.Enrollments

/-!
When a step of a prospecting plan may run: the frozen cadence, and the touches claimed of it.

Proved here:

* `zoneClock_localInstant`: the clock of the cadence reads dates as the local clock does;
* `Planned.dueAt`, `floor_clock`: a touch's due instant, and the one that spaces it from the last touch;
* `Facts.mem_dueTouches_iff`: the two rules compute one due instant;
* `agrees_iff`: exactly when the answer to an execution agrees with the touch that is due.
-/

namespace FoundingSales.Outreach.Timing

open Contracts.LocalClock Rules.LocalDates

/-- The local clock of one zone; days are since the epoch. A date outside years 1 to 9999,
which `localInstant` refuses, is read here by the same rule: inside them the two are one
function (`zoneClock_localInstant`). -/
def zoneClock (zone : Zone) : ZoneClock where
  localParts t _ :=
    let wall := zone.wallClock t
    { date := wall / dayMs
      weekday := ((wall / dayMs + 4) % 7).toNat
      hour := (wall % dayMs / 3600000).toNat
      minute := (wall % 3600000 / minuteMs).toNat }
  localInstant date hour minute _ :=
    correct (date * dayMs + hour * 3600000 + minute * minuteMs) ⟨hour, minute, none, none⟩ zone

structure PlannedTouch extends ProspectingTouch where
  channelOrdinal : Nat
  voicemail : Bool
  deriving DecidableEq

structure PlannedCadence where
  zone : Zone
  expiresAt : Instant
  touches : List PlannedTouch

/-- What `nextProspectingTouch` reads of the cadence. -/
def PlannedCadence.cadence (plan : PlannedCadence) : OutreachCadence :=
  ⟨[], plan.expiresAt, plan.touches.map PlannedTouch.toProspectingTouch⟩

inductive TouchState
  | reserved | unknown | accepted
  deriving DecidableEq

/-- A row of `outreach_touch_reservations` that is not released. -/
structure TouchRow where
  ordinal : Nat
  actionId : Uuid
  state : TouchState
  claimedAt : Instant
  deriving DecidableEq

inductive ExecutionTiming
  | proceed | skip | hold
  | wait (dueAt : Instant)
  deriving DecidableEq

def touchChannel : Sequences.StepChannel → TouchChannel
  | .callTask => .phone
  | .email => .email

section Timing

variable (plan : PlannedCadence)

/-- The touch of a step. -/
def touchOf (channel : Sequences.StepChannel) (channelOrdinal : Nat) : Option PlannedTouch :=
  plan.touches.find? fun touch =>
    touch.channel = touchChannel channel && touch.channelOrdinal = channelOrdinal

def dueAtOf (touch : PlannedTouch) : Instant :=
  prospectingTouchDueAt (zoneClock plan.zone) touch.toProspectingTouch []

/-- The instant that spaces a touch from an earlier one. -/
def spacingFloor (touch prior : PlannedTouch) (lastTouchAt : Instant) : Instant :=
  let gap := max 1 (touch.localDate - prior.localDate)
  let date := weekday (((zoneClock plan.zone).localParts lastTouchAt []).date + gap)
  let parts := (zoneClock plan.zone).localParts (dueAtOf plan touch) []
  (zoneClock plan.zone).localInstant date parts.hour parts.minute []

/-- The floor from the last touch, if that was an earlier one. -/
def stepFloor (touch : PlannedTouch) (lastTouch : Option TouchRow) : Option Instant := do
  let last ← lastTouch
  let prior ← plan.touches.find? fun prior => prior.ordinal = last.ordinal
  if prior.ordinal < touch.ordinal then some (spacingFloor plan touch prior last.claimedAt) else none

def outreachStepDue (channel : Sequences.StepChannel) (channelOrdinal : Nat)
    (lastTouch : Option TouchRow) : Option Instant := do
  let touch ← touchOf plan channel channelOrdinal
  let dueAt := match stepFloor plan touch lastTouch with
    | some floor => if dueAtOf plan touch < floor then floor else dueAtOf plan touch
    | none => dueAtOf plan touch
  if plan.expiresAt < dueAt then none else some dueAt

/-- The touch that is due, of a plan whose reservations are `rows`, in the order they were claimed. -/
def returned (at_ : Instant) (rows : List TouchRow) : Option ProspectingTouch :=
  (nextProspectingTouch (zoneClock plan.zone) plan.cadence at_ (rows.map TouchRow.ordinal)
    (rows.getLast?.map TouchRow.claimedAt)).map Prod.fst

/-- What an execution is to do at an instant. Abandoned reservations have been released. -/
def outreachExecutionTiming (plan : Option PlannedCadence) (rows : List TouchRow)
    (channel : Sequences.StepChannel) (channelOrdinal : Nat) (executionId : Uuid) (at_ : Instant) :
    ExecutionTiming :=
  match plan with
  | none => .hold
  | some plan =>
    if plan.expiresAt < at_ then .hold
    else
      match touchOf plan channel channelOrdinal with
      | none => .hold
      | some touch =>
        if rows.any fun row =>
            (row.state = .reserved || row.state = .unknown) && row.actionId ≠ executionId then .hold
        else if rows.any fun row => row.actionId = executionId then .proceed
        else if rows.any fun row => row.ordinal = touch.ordinal && row.state = .accepted then .skip
        else if (returned plan at_ rows).any fun next => touch.ordinal < next.ordinal then .skip
        else
          match outreachStepDue plan channel channelOrdinal rows.getLast? with
          | none => .hold
          | some dueAt =>
            if at_ < dueAt then .wait dueAt
            else if (returned plan at_ rows).any fun next => next.ordinal = touch.ordinal then .proceed
            else .hold

/-- The touches that are due, none on the day of the last touch. -/
def dueTouches (at_ : Instant) (rows : List TouchRow) : List ProspectingTouch :=
  let clock := zoneClock plan.zone
  let latestDone := (rows.map TouchRow.ordinal).foldl max 0
  let prior := plan.cadence.touches.find? fun touch => touch.ordinal = latestDone
  if plan.expiresAt < at_ then []
  else if (rows.getLast?.map TouchRow.claimedAt).any fun lastTouchAt =>
      (clock.localParts at_ plan.cadence.timeZone).date ≤
        (clock.localParts lastTouchAt plan.cadence.timeZone).date then []
  else
    (plan.cadence.touches.filter fun touch =>
      touch.ordinal ∉ rows.map TouchRow.ordinal && latestDone < touch.ordinal).filter
      (touchDue clock plan.cadence at_ prior (rows.getLast?.map TouchRow.claimedAt))

/-- The last of the due touches is returned. -/
theorem returned_eq (at_ : Instant) (rows : List TouchRow) :
    returned plan at_ rows = (dueTouches plan at_ rows).getLast? := by
  unfold returned nextProspectingTouch dueTouches
  show Option.map Prod.fst (if plan.expiresAt < at_ then none else _) = _
  by_cases hexpired : plan.expiresAt < at_
  · rw [if_pos hexpired, if_pos hexpired]
    rfl
  · rw [if_neg hexpired, if_neg hexpired]
    split
    · rfl
    · show Option.map Prod.fst (Option.map _ _) = _
      rw [Option.map_map]
      exact Option.map_id'

end Timing

/-! ## Clocks of the day -/

/-- No clock from eight to six is skipped or repeated. -/
def DayShown (zone : Zone) : Prop :=
  ∀ (date : Int) (minute : Nat), 480 ≤ minute → minute ≤ 1080 →
    ShownOnce zone (date * dayMs + minute * minuteMs)

/-- The first date, since the epoch, that is read back. -/
def firstDate : Int := firstDay + 1 - epochDay

theorem zoneClock_localInstant (zone : Zone) {day : Int} (hday : Dated day) {hour minute : Nat}
    (hhour : hour < 24) (hminute : minute < 60) (timeZone : JsString) :
    localInstant (isoDate day) ⟨hour, minute, none, none⟩ zone =
      .ok ((zoneClock zone).localInstant (day - epochDay) hour minute timeZone) :=
  localInstant_isoDate hday hhour hminute

section Clocks

variable {zone : Zone} {date : Int} {minute : Nat} {s t : Int}

theorem wallClock_localInstant (hshown : DayShown zone) (hdate : firstDate ≤ date)
    (hfrom : 480 ≤ minute) (hto : minute ≤ 1080) (timeZone : JsString) :
    zone.wallClock ((zoneClock zone).localInstant date (minute / 60) (minute % 60) timeZone) =
      date * dayMs + minute * minuteMs := by
  have hwall : date * dayMs + (minute / 60 : Nat) * 3600000 + (minute % 60 : Nat) * minuteMs =
      date * dayMs + minute * minuteMs := by
    unfold minuteMs
    omega
  show zone.wallClock (correct (date * dayMs + (minute / 60 : Nat) * 3600000 +
    (minute % 60 : Nat) * minuteMs) _ zone) = _
  rw [hwall]
  apply wallClock_correct
  · constructor
    · show ((minute / 60 : Nat) : Int) = _
      unfold dayMs minuteMs
      omega
    · show ((minute % 60 : Nat) : Int) = _
      unfold dayMs minuteMs
      omega
    · unfold dayMs minuteMs
      omega
  · unfold firstDate at hdate
    unfold dayMs minuteMs
    omega
  · exact hshown date minute hfrom hto

/-- The parts of an instant that shows a clock. -/
theorem localParts_of_wallClock (hto : minute ≤ 1080)
    (h : zone.wallClock t = date * dayMs + minute * minuteMs) (timeZone : JsString) :
    (zoneClock zone).localParts t timeZone = ⟨date, weekdayOfDate date, minute / 60, minute % 60⟩ := by
  show LocalParts.mk (zone.wallClock t / dayMs) ((zone.wallClock t / dayMs + 4) % 7).toNat
    (zone.wallClock t % dayMs / 3600000).toNat (zone.wallClock t % 3600000 / minuteMs).toNat = _
  have hday : zone.wallClock t / dayMs = date := by
    rw [h]
    unfold dayMs minuteMs
    omega
  have hhour : (zone.wallClock t % dayMs / 3600000).toNat = minute / 60 := by
    rw [h]
    unfold dayMs minuteMs
    omega
  have hminute : (zone.wallClock t % 3600000 / minuteMs).toNat = minute % 60 := by
    rw [h]
    unfold dayMs minuteMs
    omega
  rw [hday, hhour, hminute]
  rfl

/-- A clock of the day divides the instants. -/
theorem lt_iff_wallClock (hshown : DayShown zone) (hfrom : 480 ≤ minute) (hto : minute ≤ 1080)
    (h : zone.wallClock t = date * dayMs + minute * minuteMs) :
    s < t ↔ zone.wallClock s < date * dayMs + minute * minuteMs :=
  (hshown date minute hfrom hto).lt_iff h

theorem le_weekday (date : Int) : date ≤ weekday date := by
  have hwithin : ∀ (days : Nat) (date : Int), date ≤ weekdayWithin days date := by
    intro days
    induction days with
    | zero => exact fun date => Int.le_refl date
    | succ days ih =>
      intro date
      unfold weekdayWithin
      split
      · exact (Int.le_add_one (Int.le_refl date)).trans (ih (date + 1))
      · exact Int.le_refl date
  exact hwithin 2 date

theorem weekday_not_weekend (date : Int) : weekdayOfDate (weekday date) ∉ [0, 6] := by
  unfold weekday weekdayWithin
  split
  · next hweekend =>
    unfold weekdayWithin
    split
    · next hweekend' =>
      unfold weekdayWithin
      simp only [List.mem_cons, List.not_mem_nil, or_false, weekdayOfDate] at hweekend hweekend' ⊢
      omega
    · next hnot => exact hnot
  · next hnot => exact hnot

end Clocks

/-! ## Planned touches -/

/-- A touch planned at a minute of a working day. -/
structure Planned (plan : PlannedCadence) (touch : PlannedTouch) (minute : Nat) : Prop where
  range : 600 ≤ minute ∧ minute < 1020
  email : touch.channel = .email → minute < 660
  working : weekdayOfDate touch.localDate ∉ [0, 6]
  date : firstDate ≤ touch.localDate
  clock : plan.zone.wallClock touch.dueAt = touch.localDate * dayMs + minute * minuteMs

/-- A cadence whose touches are planned one after another. -/
structure WellBuilt (plan : PlannedCadence) : Prop where
  shown : DayShown plan.zone
  increasing : plan.touches.Pairwise fun a b => a.ordinal < b.ordinal
  positive : ∀ touch ∈ plan.touches, 0 < touch.ordinal
  keyed : plan.touches.Pairwise fun a b =>
    ¬ (a.channel = b.channel ∧ a.channelOrdinal = b.channelOrdinal)
  planned : ∀ touch ∈ plan.touches, ∃ minute, Planned plan touch minute
  expiry : ∀ touch ∈ plan.touches, touch.dueAt ≤ plan.expiresAt

section Planned

variable {plan : PlannedCadence} {touch : PlannedTouch} {minute : Nat} {lastTouchAt : Instant}

/-- A planned e-mail is due inside the window, and so where it is planned. -/
theorem Planned.dueAt (h : Planned plan touch minute) : dueAtOf plan touch = touch.dueAt := by
  have hrange := h.range
  have hparts := localParts_of_wallClock (by omega) h.clock []
  unfold dueAtOf prospectingTouchDueAt
  cases hchannel : touch.channel with
  | phone => rfl
  | email =>
    have hearly := h.email hchannel
    have hworking := h.working
    show placeEmailSend (zoneClock plan.zone) touch.dueAt [] prospectingEmailWindow = touch.dueAt
    unfold placeEmailSend
    rw [hparts]
    apply if_pos
    have hsending : isSendingDay (weekdayOfDate touch.localDate) = true := by
      unfold isSendingDay
      simp only [List.mem_cons, List.not_mem_nil, or_false, weekdayOfDate, decide_eq_true_eq]
        at hworking ⊢
      omega
    have hopen : (9 * 60 : Nat) ≤ minute / 60 * 60 + minute % 60 := by omega
    have hclose : minute / 60 * 60 + minute % 60 < (11 * 60 : Nat) := by omega
    rw [hsending, Bool.true_and]
    simp only [LocalParts.minuteOfDay, prospectingEmailWindow, hopen, hclose, decide_true,
      Bool.and_self]

/-- The floor is on a later day than the last touch, at the touch's own clock. -/
theorem floor_clock (prior : PlannedTouch) (hshown : DayShown plan.zone)
    (h : Planned plan touch minute)
    (hdate : firstDate ≤ plan.zone.wallClock lastTouchAt / dayMs) :
    ∃ date, plan.zone.wallClock lastTouchAt / dayMs < date ∧
      plan.zone.wallClock (spacingFloor plan touch prior lastTouchAt) =
        date * dayMs + minute * minuteMs := by
  have hrange := h.range
  have hparts := localParts_of_wallClock (by omega) h.clock []
  have hgap : (1 : Int) ≤ max 1 (touch.localDate - prior.localDate) := le_max_left _ _
  have hlater : plan.zone.wallClock lastTouchAt / dayMs <
      plan.zone.wallClock lastTouchAt / dayMs + max 1 (touch.localDate - prior.localDate) :=
    Int.lt_add_of_pos_right _ hgap
  refine ⟨weekday (plan.zone.wallClock lastTouchAt / dayMs +
    max 1 (touch.localDate - prior.localDate)), hlater.trans_le (le_weekday _), ?_⟩
  · unfold spacingFloor
    rw [h.dueAt, hparts]
    apply wallClock_localInstant hshown
    · exact (hdate.trans (Int.le_of_lt hlater)).trans (le_weekday _)
    · omega
    · omega

end Planned

/-! ## Touches accepted -/

/-- The reservations of a plan whose touches have been claimed one after another as they were due,
and accepted. -/
inductive Accepted (plan : PlannedCadence) : List TouchRow → Prop
  | none : Accepted plan []
  | next {rows : List TouchRow} {row : TouchRow} {touch : ProspectingTouch} :
    Accepted plan rows → row.state = .accepted →
    (∀ earlier ∈ rows, earlier.claimedAt ≤ row.claimedAt) →
    returned plan row.claimedAt rows = some touch → row.ordinal = touch.ordinal →
    Accepted plan (rows ++ [row])

/-- The latest ordinal done. -/
def latestDone (rows : List TouchRow) : Nat := (rows.map TouchRow.ordinal).foldl max 0

section History

variable {plan : PlannedCadence} {rows : List TouchRow} {at_ : Instant} {touch : PlannedTouch}
  {due : ProspectingTouch}

theorem latestDone_append (rows : List TouchRow) (row : TouchRow) :
    latestDone (rows ++ [row]) = max (latestDone rows) row.ordinal := by
  unfold latestDone
  rw [List.map_append, List.foldl_append]
  rfl

theorem le_latestDone {row : TouchRow} (h : row ∈ rows) : row.ordinal ≤ latestDone rows := by
  induction rows using List.reverseRecOn with
  | nil => cases h
  | append_singleton rows last ih =>
    rw [latestDone_append]
    rcases List.mem_append.1 h with hrow | hrow
    · exact (ih hrow).trans (le_max_left _ _)
    · rw [List.mem_singleton.1 hrow]
      exact le_max_right _ _

/-- What a due touch is. -/
theorem mem_dueTouches : due ∈ dueTouches plan at_ rows ↔
    at_ ≤ plan.expiresAt ∧
    (∀ last, rows.getLast? = some last →
      plan.zone.wallClock last.claimedAt / dayMs < plan.zone.wallClock at_ / dayMs) ∧
    (∃ touch ∈ plan.touches, touch.toProspectingTouch = due) ∧
    (∀ row ∈ rows, row.ordinal ≠ due.ordinal) ∧ latestDone rows < due.ordinal ∧
    touchDue (zoneClock plan.zone) plan.cadence at_
      (plan.cadence.touches.find? fun touch => touch.ordinal = latestDone rows)
      (rows.getLast?.map TouchRow.claimedAt) due = true := by
  unfold dueTouches
  dsimp only
  by_cases hexpired : plan.expiresAt < at_
  · rw [if_pos hexpired]
    constructor
    · intro h
      cases h
    · rintro ⟨hle, -⟩
      exact absurd hexpired (Int.not_lt.2 hle)
  · rw [if_neg hexpired]
    have hday : ((rows.getLast?.map TouchRow.claimedAt).any fun lastTouchAt =>
        decide (((zoneClock plan.zone).localParts at_ plan.cadence.timeZone).date ≤
          ((zoneClock plan.zone).localParts lastTouchAt plan.cadence.timeZone).date)) = true ↔
        ¬ ∀ last, rows.getLast? = some last →
          plan.zone.wallClock last.claimedAt / dayMs < plan.zone.wallClock at_ / dayMs := by
      cases rows.getLast? with
      | none => simp
      | some last =>
        show decide (plan.zone.wallClock at_ / dayMs ≤ plan.zone.wallClock last.claimedAt / dayMs)
          = true ↔ _
        rw [decide_eq_true_iff]
        simp
    split
    · next hsame =>
      rw [hday] at hsame
      constructor
      · intro h
        cases h
      · rintro ⟨-, hlater, -⟩
        exact absurd hlater hsame
    · next hsame =>
      rw [hday, not_not] at hsame
      rw [List.mem_filter, List.mem_filter]
      simp only [PlannedCadence.cadence, List.mem_map, Bool.and_eq_true, decide_eq_true_eq,
        latestDone, not_exists, not_and, ne_eq, true_and, Int.not_lt.1 hexpired]
      tauto

/-- Rows accepted in order. -/
structure Facts (plan : PlannedCadence) (rows : List TouchRow) : Prop where
  accepted : ∀ row ∈ rows, row.state = .accepted
  latest : ∀ last, rows.getLast? = some last → last.ordinal = latestDone rows
  claimed : ∀ row ∈ rows, ∃ touch ∈ plan.touches, touch.ordinal = row.ordinal ∧
    dueAtOf plan touch ≤ row.claimedAt

theorem Accepted.facts (h : Accepted plan rows) : Facts plan rows := by
  induction h with
  | none =>
    refine ⟨fun row hrow => ?_, fun last hlast => ?_, fun row hrow => ?_⟩
    · cases hrow
    · cases hlast
    · cases hrow
  | @next rows row touch _ hstate _ hreturned hordinal ih =>
    rw [returned_eq] at hreturned
    obtain ⟨-, -, ⟨planned, hplanned, rfl⟩, -, hlatest, hdue⟩ :=
      mem_dueTouches.1 (List.mem_of_getLast? hreturned)
    refine ⟨fun other hother => ?_, fun last hlast => ?_, fun other hother => ?_⟩
    · rcases List.mem_append.1 hother with hmem | hmem
      · exact ih.accepted other hmem
      · rwa [List.mem_singleton.1 hmem]
    · rw [List.getLast?_append, List.getLast?_singleton, Option.some_or, Option.some.injEq] at hlast
      rw [latestDone_append, ← hlast, hordinal]
      exact (max_eq_right (Nat.le_of_lt hlatest)).symm
    · rcases List.mem_append.1 hother with hmem | hmem
      · exact ih.claimed other hmem
      · rw [List.mem_singleton.1 hmem]
        refine ⟨planned, hplanned, hordinal.symm, ?_⟩
        unfold touchDue at hdue
        rw [Bool.and_eq_true, decide_eq_true_eq] at hdue
        exact hdue.1

/-! ## The two rules -/

/-- Where an accepted plan stands: its last touch, if there is one. -/
theorem Facts.last_touch (h : Facts plan rows) (hplan : WellBuilt plan) {last : TouchRow}
    (hlast : rows.getLast? = some last) :
    ∃ prior, plan.touches.find? (fun prior => prior.ordinal = last.ordinal) = some prior ∧
      plan.cadence.touches.find? (fun prior => prior.ordinal = latestDone rows)
        = some prior.toProspectingTouch ∧
      prior.ordinal = last.ordinal ∧ firstDate ≤ plan.zone.wallClock last.claimedAt / dayMs := by
  have hmem := List.mem_of_getLast? hlast
  obtain ⟨claimed, hclaimed, hordinal, hdue⟩ := h.claimed last hmem
  have hfind : ∃ prior, plan.touches.find? (fun prior => prior.ordinal = last.ordinal)
      = some prior := by
    rw [← Option.isSome_iff_exists, List.find?_isSome]
    exact ⟨claimed, hclaimed, by simpa using hordinal⟩
  obtain ⟨prior, hprior⟩ := hfind
  refine ⟨prior, hprior, ?_, by simpa using List.find?_some hprior, ?_⟩
  · show (plan.touches.map _).find? _ = _
    rw [List.find?_map, ← h.latest last hlast]
    exact congrArg (Option.map _) hprior
  · obtain ⟨minute, hminute⟩ := hplan.planned claimed hclaimed
    rw [hminute.dueAt] at hdue
    have hdate := hminute.date
    have hrange := hminute.range
    have hle := (not_congr (lt_iff_wallClock (s := last.claimedAt) hplan.shown (by omega) (by omega)
      hminute.clock)).1 (Int.not_lt.2 hdue)
    have hday : (claimed.localDate : Int) ≤ plan.zone.wallClock last.claimedAt / dayMs := by
      have hclock := Int.not_lt.1 hle
      rw [Int.le_ediv_iff_mul_le (by decide)]
      refine le_trans ?_ hclock
      unfold minuteMs
      omega
    exact hdate.trans hday

/-- The instant from which an open touch is due. -/
def dueFrom (plan : PlannedCadence) (touch : PlannedTouch) (last : Option TouchRow) : Int :=
  match stepFloor plan touch last with
  | some floor => max (dueAtOf plan touch) floor
  | none => dueAtOf plan touch

/-- A touch after the latest done is due from its own instant and its floor on, on another day. -/
theorem Facts.touchDue_iff (h : Facts plan rows) (hplan : WellBuilt plan)
    (hopen : latestDone rows < touch.ordinal) :
    touchDue (zoneClock plan.zone) plan.cadence at_
      (plan.cadence.touches.find? fun touch => touch.ordinal = latestDone rows)
      (rows.getLast?.map TouchRow.claimedAt) touch.toProspectingTouch = true ↔
    dueFrom plan touch rows.getLast? ≤ at_ := by
  unfold dueFrom stepFloor touchDue
  cases hlast : rows.getLast? with
  | none =>
    rw [Option.map_none, Bool.and_true, decide_eq_true_iff]
    rfl
  | some last =>
    obtain ⟨prior, hprior, hfind, hordinal, -⟩ := h.last_touch hplan hlast
    have hearlier : prior.ordinal < touch.ordinal := by
      rw [hordinal, h.latest last hlast]
      exact hopen
    have hfloor : (do
        let last ← some last
        let prior ← plan.touches.find? fun prior => prior.ordinal = last.ordinal
        if prior.ordinal < touch.ordinal then some (spacingFloor plan touch prior last.claimedAt)
        else none) = some (spacingFloor plan touch prior last.claimedAt) := by
      show (plan.touches.find? (fun prior => prior.ordinal = last.ordinal) >>= _) = _
      rw [hprior]
      exact if_pos hearlier
    rw [hfloor, hfind, Bool.and_eq_true, decide_eq_true_iff]
    show _ ∧ decide _ = true ↔ max (dueAtOf plan touch) _ ≤ at_
    rw [decide_eq_true_iff, max_le_iff]
    rfl

/-- An instant from which a touch is due is on a later day than the last touch. -/
theorem Facts.later_day (h : Facts plan rows) (hplan : WellBuilt plan) (htouch : touch ∈ plan.touches)
    (hopen : latestDone rows < touch.ordinal) {last : TouchRow} (hlast : rows.getLast? = some last)
    (hat : dueFrom plan touch rows.getLast? ≤ at_) :
    plan.zone.wallClock last.claimedAt / dayMs < plan.zone.wallClock at_ / dayMs := by
  obtain ⟨prior, hprior, -, hordinal, hdate⟩ := h.last_touch hplan hlast
  obtain ⟨minute, hminute⟩ := hplan.planned touch htouch
  have hrange := hminute.range
  obtain ⟨date, hlater, hclock⟩ := floor_clock prior hplan.shown hminute hdate
  have hearlier : prior.ordinal < touch.ordinal := by
    rw [hordinal, h.latest last hlast]
    exact hopen
  have hfloor : stepFloor plan touch (some last) = some (spacingFloor plan touch prior last.claimedAt) := by
    show (plan.touches.find? (fun prior => prior.ordinal = last.ordinal) >>= _) = _
    rw [hprior]
    exact if_pos hearlier
  rw [hlast] at hat
  unfold dueFrom at hat
  rw [hfloor] at hat
  have hle := (not_congr (lt_iff_wallClock (s := at_) hplan.shown (by omega) (by omega) hclock)).1
    (Int.not_lt.2 ((le_max_right _ _).trans hat))
  apply hlater.trans_le
  rw [Int.le_ediv_iff_mul_le (by decide)]
  refine le_trans ?_ (Int.not_lt.1 hle)
  unfold minuteMs
  omega

/-- An open touch is among the due ones from that instant on. -/
theorem Facts.mem_dueTouches_iff (h : Facts plan rows) (hplan : WellBuilt plan)
    (htouch : touch ∈ plan.touches) (hopen : latestDone rows < touch.ordinal) :
    touch.toProspectingTouch ∈ dueTouches plan at_ rows ↔
      at_ ≤ plan.expiresAt ∧ dueFrom plan touch rows.getLast? ≤ at_ := by
  rw [mem_dueTouches, h.touchDue_iff hplan hopen]
  constructor
  · rintro ⟨hexpiry, -, -, -, -, hdue⟩
    exact ⟨hexpiry, hdue⟩
  · rintro ⟨hexpiry, hdue⟩
    refine ⟨hexpiry, fun last hlast => h.later_day hplan htouch hopen hlast hdue,
      ⟨touch, htouch, rfl⟩, fun row hrow heq => ?_, hopen, hdue⟩
    have hle := le_latestDone hrow
    change row.ordinal = touch.ordinal at heq
    omega

/-! ## The answer -/

theorem dueTouches_increasing (hplan : WellBuilt plan) (at_ : Instant) (rows : List TouchRow) :
    (dueTouches plan at_ rows).Pairwise fun a b => a.ordinal < b.ordinal := by
  have hcadence : plan.cadence.touches.Pairwise fun a b => a.ordinal < b.ordinal :=
    List.pairwise_map.2 hplan.increasing
  unfold dueTouches
  dsimp only
  split
  · exact List.Pairwise.nil
  · split
    · exact List.Pairwise.nil
    · exact (hcadence.filter _).filter _

/-- The returned touch is the last of the due ones. -/
theorem returned_eq_some_iff (hplan : WellBuilt plan) :
    returned plan at_ rows = some due ↔
      due ∈ dueTouches plan at_ rows ∧
        ∀ other ∈ dueTouches plan at_ rows, other.ordinal ≤ due.ordinal := by
  rw [returned_eq]
  have hincreasing := dueTouches_increasing hplan at_ rows
  generalize dueTouches plan at_ rows = touches at hincreasing
  rcases List.eq_nil_or_concat touches with rfl | ⟨front, last, rfl⟩
  · simp
  · rw [List.concat_eq_append] at hincreasing ⊢
    rw [List.getLast?_append, List.getLast?_singleton, Option.some_or, Option.some.injEq]
    have hlast := (List.pairwise_append.1 hincreasing).2.2
    constructor
    · rintro rfl
      refine ⟨by simp, fun other hother => ?_⟩
      rcases List.mem_append.1 hother with hfront | hend
      · exact Nat.le_of_lt (hlast other hfront last (by simp))
      · rw [List.mem_singleton.1 hend]
    · rintro ⟨hmem, hle⟩
      rcases List.mem_append.1 hmem with hfront | hend
      · have hlt := hlast due hfront last (by simp)
        have := hle last (by simp)
        omega
      · exact (List.mem_singleton.1 hend).symm

theorem returned_eq_none_iff : returned plan at_ rows = none ↔ dueTouches plan at_ rows = [] := by
  rw [returned_eq, List.getLast?_eq_none_iff]

/-- Touches of one ordinal are one. -/
theorem WellBuilt.eq_of_ordinal (hplan : WellBuilt plan) {other : PlannedTouch}
    (htouch : touch ∈ plan.touches) (hother : other ∈ plan.touches)
    (heq : touch.ordinal = other.ordinal) : touch = other := by
  by_contra hne
  rcases List.pairwise_iff_getElem.1 hplan.increasing with hincreasing
  obtain ⟨i, hi, rfl⟩ := List.getElem_of_mem htouch
  obtain ⟨j, hj, rfl⟩ := List.getElem_of_mem hother
  rcases Nat.lt_trichotomy i j with hij | rfl | hij
  · have := hincreasing i j hi hj hij
    omega
  · exact hne rfl
  · have := hincreasing j i hj hi hij
    omega

/-- A touch is that of its step. -/
theorem WellBuilt.touchOf_eq (hplan : WellBuilt plan) (htouch : touch ∈ plan.touches)
    {channel : Sequences.StepChannel} (hchannel : touchChannel channel = touch.channel) :
    touchOf plan channel touch.channelOrdinal = some touch := by
  have hkeyed := hplan.keyed
  unfold touchOf
  rw [hchannel]
  generalize plan.touches = touches at hkeyed htouch
  induction touches with
  | nil => cases htouch
  | cons first touches ih =>
    obtain ⟨hfirst, hrest⟩ := List.pairwise_cons.1 hkeyed
    rcases List.mem_cons.1 htouch with rfl | hmem
    · simp
    · rw [List.find?_cons_of_neg, ih hrest hmem]
      simpa using hfirst touch hmem

theorem outreachStepDue_eq {channel : Sequences.StepChannel} {channelOrdinal : Nat}
    (h : touchOf plan channel channelOrdinal = some touch) (last : Option TouchRow) :
    outreachStepDue plan channel channelOrdinal last =
      if plan.expiresAt < dueFrom plan touch last then none else some (dueFrom plan touch last) := by
  unfold outreachStepDue dueFrom
  rw [h]
  show (if plan.expiresAt < _ then none else some _) = _
  cases stepFloor plan touch last with
  | none => rfl
  | some floor =>
    have hmax : (if dueAtOf plan touch < floor then floor else dueAtOf plan touch)
        = max (dueAtOf plan touch) floor := by
      split
      · next hlt => exact (max_eq_right (Int.le_of_lt hlt)).symm
      · next hnot => exact (max_eq_left (Int.not_lt.1 hnot)).symm
    simp only [hmax]

/-- The answer agrees with the touch that is due. -/
structure Agrees (plan : PlannedCadence) (rows : List TouchRow) (channel : Sequences.StepChannel)
    (touch : PlannedTouch) (executionId : Uuid) (at_ : Instant) : Prop where
  proceed : outreachExecutionTiming (some plan) rows channel touch.channelOrdinal executionId at_
      = .proceed ↔ returned plan at_ rows = some touch.toProspectingTouch
  skip : outreachExecutionTiming (some plan) rows channel touch.channelOrdinal executionId at_
      = .skip ↔ returned plan at_ rows ≠ some touch.toProspectingTouch ∧
        ((∃ row ∈ rows, touch.ordinal ≤ row.ordinal) ∨
          ∃ due ∈ dueTouches plan at_ rows, touch.ordinal ≤ due.ordinal)
  wait : returned plan at_ rows ≠ some touch.toProspectingTouch →
    ¬ ((∃ row ∈ rows, touch.ordinal ≤ row.ordinal) ∨
      ∃ due ∈ dueTouches plan at_ rows, touch.ordinal ≤ due.ordinal) →
    outreachExecutionTiming (some plan) rows channel touch.channelOrdinal executionId at_ = .hold ∨
    ∃ dueAt, outreachExecutionTiming (some plan) rows channel touch.channelOrdinal executionId at_
        = .wait dueAt ∧ at_ < dueAt ∧
      ∀ later, dueAt ≤ later → later ≤ plan.expiresAt →
        (∀ due ∈ dueTouches plan later rows, due.ordinal ≤ touch.ordinal) →
        outreachExecutionTiming (some plan) rows channel touch.channelOrdinal executionId later
          = .proceed
  hold : outreachExecutionTiming (some plan) rows channel touch.channelOrdinal executionId at_
      = .hold → ∃ floor, stepFloor plan touch rows.getLast? = some floor ∧ plan.expiresAt < floor

/-- The execution has claimed nothing itself, and its touch has not been passed over, or the time of a
touch after all of the accepted ones has come. -/
def NotPassedOver (plan : PlannedCadence) (rows : List TouchRow) (touch : PlannedTouch)
    (executionId : Uuid) (at_ : Instant) : Prop :=
  (∀ row ∈ rows, row.actionId ≠ executionId) ∧
    ((∃ row ∈ rows, touch.ordinal < row.ordinal) → (∀ row ∈ rows, row.ordinal ≠ touch.ordinal) →
      ∃ due ∈ plan.touches, latestDone rows < due.ordinal ∧ dueFrom plan due rows.getLast? ≤ at_)

section Answer

variable {channel : Sequences.StepChannel} {executionId : Uuid}

private theorem Facts.none_pending (h : Facts plan rows) (executionId : Uuid) :
    (rows.any fun row => (row.state = .reserved || row.state = .unknown) &&
      row.actionId ≠ executionId) = false := by
  rw [List.any_eq_false]
  intro row hrow
  simp [h.accepted row hrow]

private theorem none_own (hown : ∀ row ∈ rows, row.actionId ≠ executionId) :
    (rows.any fun row => row.actionId = executionId) = false := by
  rw [List.any_eq_false]
  intro row hrow
  simpa using hown row hrow

/-- The answer, of a plan with nothing reserved. -/
theorem timing_eq (hplan : WellBuilt plan) (h : Facts plan rows) (htouch : touch ∈ plan.touches)
    (hchannel : touchChannel channel = touch.channel) (hat : at_ ≤ plan.expiresAt)
    (hown : ∀ row ∈ rows, row.actionId ≠ executionId)
    (hopen : ∀ row ∈ rows, row.ordinal ≠ touch.ordinal) :
    outreachExecutionTiming (some plan) rows channel touch.channelOrdinal executionId at_ =
      if (returned plan at_ rows).any fun next => touch.ordinal < next.ordinal then .skip
      else if plan.expiresAt < dueFrom plan touch rows.getLast? then .hold
      else if at_ < dueFrom plan touch rows.getLast? then .wait (dueFrom plan touch rows.getLast?)
      else if (returned plan at_ rows).any fun next => next.ordinal = touch.ordinal then .proceed
      else .hold := by
  have htouchOf := hplan.touchOf_eq htouch hchannel
  have hpending := h.none_pending executionId
  have hnone := none_own hown
  have hdone : (rows.any fun row => row.ordinal = touch.ordinal && row.state = .accepted) = false := by
    rw [List.any_eq_false]
    intro row hrow
    simp [hopen row hrow]
  unfold outreachExecutionTiming
  simp only [if_neg (Int.not_lt.2 hat), htouchOf, hpending, hnone, hdone,
    outreachStepDue_eq htouchOf, Bool.false_eq_true, if_false]
  split
  · rfl
  · by_cases hlate : plan.expiresAt < dueFrom plan touch rows.getLast?
    · rw [if_pos hlate, if_pos hlate]
    · rw [if_neg hlate, if_neg hlate]

/-- An execution with a reservation of its own goes on. -/
theorem timing_own (hplan : WellBuilt plan) (h : Facts plan rows) (htouch : touch ∈ plan.touches)
    (hchannel : touchChannel channel = touch.channel) (hat : at_ ≤ plan.expiresAt) {row : TouchRow}
    (hrow : row ∈ rows) (hown : row.actionId = executionId) :
    outreachExecutionTiming (some plan) rows channel touch.channelOrdinal executionId at_
      = .proceed := by
  have hpending := h.none_pending executionId
  have hsome : (rows.any fun row => row.actionId = executionId) = true := by
    rw [List.any_eq_true]
    exact ⟨row, hrow, by simpa using hown⟩
  unfold outreachExecutionTiming
  simp only [if_neg (Int.not_lt.2 hat), hplan.touchOf_eq htouch hchannel, hpending, hsome,
    Bool.false_eq_true, if_false, if_true]

/-- A touch that is accepted is skipped. -/
theorem timing_accepted (hplan : WellBuilt plan) (h : Facts plan rows)
    (htouch : touch ∈ plan.touches) (hchannel : touchChannel channel = touch.channel)
    (hat : at_ ≤ plan.expiresAt) (hown : ∀ row ∈ rows, row.actionId ≠ executionId) {row : TouchRow}
    (hrow : row ∈ rows) (hordinal : row.ordinal = touch.ordinal) :
    outreachExecutionTiming (some plan) rows channel touch.channelOrdinal executionId at_
      = .skip := by
  have hpending := h.none_pending executionId
  have hnone := none_own hown
  have hdone : (rows.any fun row => row.ordinal = touch.ordinal && row.state = .accepted) = true := by
    rw [List.any_eq_true]
    exact ⟨row, hrow, by simp [hordinal, h.accepted row hrow]⟩
  unfold outreachExecutionTiming
  simp only [if_neg (Int.not_lt.2 hat), hplan.touchOf_eq htouch hchannel, hpending, hnone, hdone,
    Bool.false_eq_true, if_false, if_true]

/-- A due touch is returned if nothing later is. -/
theorem returned_of_due (hplan : WellBuilt plan)
    (hdue : touch.toProspectingTouch ∈ dueTouches plan at_ rows)
    (hlast : ∀ due ∈ dueTouches plan at_ rows, due.ordinal ≤ touch.ordinal) :
    returned plan at_ rows = some touch.toProspectingTouch :=
  (returned_eq_some_iff hplan).2 ⟨hdue, hlast⟩

/-- A returned touch is due. -/
theorem mem_of_returned (hplan : WellBuilt plan) (h : returned plan at_ rows = some due) :
    due ∈ dueTouches plan at_ rows :=
  ((returned_eq_some_iff hplan).1 h).1

/-- An open touch is proceeded with while it is the last that is due. -/
theorem timing_due (hplan : WellBuilt plan) (h : Facts plan rows) (htouch : touch ∈ plan.touches)
    (hchannel : touchChannel channel = touch.channel) (hat : at_ ≤ plan.expiresAt)
    (hown : ∀ row ∈ rows, row.actionId ≠ executionId) (hopen : latestDone rows < touch.ordinal)
    (hdue : dueFrom plan touch rows.getLast? ≤ at_)
    (hlast : ∀ due ∈ dueTouches plan at_ rows, due.ordinal ≤ touch.ordinal) :
    returned plan at_ rows = some touch.toProspectingTouch ∧
      outreachExecutionTiming (some plan) rows channel touch.channelOrdinal executionId at_
        = .proceed := by
  have hmem := (h.mem_dueTouches_iff hplan htouch hopen).2 ⟨hat, hdue⟩
  have hreturned := returned_of_due hplan hmem hlast
  have hrows : ∀ row ∈ rows, row.ordinal ≠ touch.ordinal := fun row hrow heq => by
    have := le_latestDone hrow
    omega
  refine ⟨hreturned, ?_⟩
  rw [timing_eq hplan h htouch hchannel hat hown hrows, hreturned]
  rw [if_neg (by simp), if_neg (Int.not_lt.2 (hdue.trans hat)), if_neg (Int.not_lt.2 hdue),
    if_pos (by simp)]

theorem latestDone_lt (hpositive : 0 < touch.ordinal)
    (h : ∀ row ∈ rows, row.ordinal < touch.ordinal) : latestDone rows < touch.ordinal := by
  induction rows using List.reverseRecOn with
  | nil => exact hpositive
  | append_singleton rows last ih =>
    rw [latestDone_append]
    apply max_lt
    · exact ih fun row hrow => h row (List.mem_append_left _ hrow)
    · exact h last (by simp)

/-- An accepted touch is skipped. -/
theorem agrees_accepted (hplan : WellBuilt plan) (h : Facts plan rows)
    (htouch : touch ∈ plan.touches) (hchannel : touchChannel channel = touch.channel)
    (hat : at_ ≤ plan.expiresAt) (hown : ∀ row ∈ rows, row.actionId ≠ executionId) {row : TouchRow}
    (hrow : row ∈ rows) (hordinal : row.ordinal = touch.ordinal) :
    Agrees plan rows channel touch executionId at_ := by
  have heq := timing_accepted hplan h htouch hchannel hat hown hrow hordinal
  have hreturned : returned plan at_ rows ≠ some touch.toProspectingTouch := fun hsome =>
    (mem_dueTouches.1 (mem_of_returned hplan hsome)).2.2.2.1 row hrow hordinal
  have habove : ∃ row ∈ rows, touch.ordinal ≤ row.ordinal := ⟨row, hrow, hordinal.ge⟩
  constructor
  · simp [heq, hreturned]
  · simp [heq, hreturned, habove]
  · exact fun _ hnone => absurd (Or.inl habove) hnone
  · simp [heq]

/-- A touch after which another is due is skipped. -/
theorem agrees_overtaken (hplan : WellBuilt plan) (h : Facts plan rows)
    (htouch : touch ∈ plan.touches) (hchannel : touchChannel channel = touch.channel)
    (hat : at_ ≤ plan.expiresAt) (hown : ∀ row ∈ rows, row.actionId ≠ executionId)
    (hopen : ∀ row ∈ rows, row.ordinal ≠ touch.ordinal)
    (hdue : due ∈ dueTouches plan at_ rows) (hlater : touch.ordinal < due.ordinal) :
    Agrees plan rows channel touch executionId at_ := by
  have heq := timing_eq hplan h htouch hchannel hat hown hopen
  have hsome : ∃ next, returned plan at_ rows = some next := by
    apply Option.ne_none_iff_exists'.1
    intro hnone
    rw [returned_eq_none_iff.1 hnone] at hdue
    cases hdue
  obtain ⟨next, hnext⟩ := hsome
  have hle := ((returned_eq_some_iff hplan).1 hnext).2 due hdue
  have hreturned : returned plan at_ rows ≠ some touch.toProspectingTouch := fun hsome => by
    have hlast := ((returned_eq_some_iff hplan).1 hsome).2 due hdue
    change due.ordinal ≤ touch.ordinal at hlast
    omega
  have habove : ∃ due ∈ dueTouches plan at_ rows, touch.ordinal ≤ due.ordinal :=
    ⟨due, hdue, Nat.le_of_lt hlater⟩
  rw [hnext, if_pos (by simp; omega)] at heq
  constructor
  · simp [heq, hreturned]
  · simp [heq, hreturned, habove]
  · exact fun _ hnone => absurd (Or.inr habove) hnone
  · simp [heq]

theorem Facts.dueTouches_ne_nil_iff (h : Facts plan rows) (hplan : WellBuilt plan)
    (hat : at_ ≤ plan.expiresAt) : dueTouches plan at_ rows ≠ [] ↔
      ∃ due ∈ plan.touches, latestDone rows < due.ordinal ∧ dueFrom plan due rows.getLast? ≤ at_ := by
  constructor
  · intro hdues
    obtain ⟨due, hdue⟩ := List.exists_mem_of_ne_nil _ hdues
    obtain ⟨-, -, ⟨touch, htouch, rfl⟩, -, hopen, -⟩ := mem_dueTouches.1 hdue
    exact ⟨touch, htouch, hopen, ((h.mem_dueTouches_iff hplan htouch hopen).1 hdue).2⟩
  · rintro ⟨touch, htouch, hopen, hdue⟩
    exact List.ne_nil_of_mem ((h.mem_dueTouches_iff hplan htouch hopen).2 ⟨hat, hdue⟩)

/-- A touch that is passed over is skipped only while another is due. -/
theorem agrees_passed_iff (hplan : WellBuilt plan) (h : Facts plan rows)
    (htouch : touch ∈ plan.touches) (hchannel : touchChannel channel = touch.channel)
    (hat : at_ ≤ plan.expiresAt) (hown : ∀ row ∈ rows, row.actionId ≠ executionId)
    (hopen : ∀ row ∈ rows, row.ordinal ≠ touch.ordinal) {row : TouchRow} (hrow : row ∈ rows)
    (hlater : touch.ordinal < row.ordinal) :
    Agrees plan rows channel touch executionId at_ ↔ dueTouches plan at_ rows ≠ [] := by
  have hle := le_latestDone hrow
  constructor
  · intro hagrees hempty
    have hnext := returned_eq_none_iff.2 hempty
    have hskip := hagrees.skip.2 ⟨by simp [hnext], Or.inl ⟨row, hrow, Nat.le_of_lt hlater⟩⟩
    rw [timing_eq hplan h htouch hchannel hat hown hopen, hnext] at hskip
    simp only [Option.any_none, Bool.false_eq_true, if_false] at hskip
    split at hskip
    · cases hskip
    · split at hskip <;> cases hskip
  · intro hdues
    obtain ⟨due, hdue⟩ := List.exists_mem_of_ne_nil _ hdues
    have hlatest := (mem_dueTouches.1 hdue).2.2.2.2.1
    exact agrees_overtaken hplan h htouch hchannel hat hown hopen hdue (by omega)

/-- Before it is due, an open touch waits, or is held if it will not be due in time. -/
theorem agrees_early (hplan : WellBuilt plan) (h : Facts plan rows) (htouch : touch ∈ plan.touches)
    (hchannel : touchChannel channel = touch.channel) (hat : at_ ≤ plan.expiresAt)
    (hown : ∀ row ∈ rows, row.actionId ≠ executionId)
    (hbefore : ∀ row ∈ rows, row.ordinal < touch.ordinal)
    (hearly : at_ < dueFrom plan touch rows.getLast?)
    (hlast : ∀ due ∈ dueTouches plan at_ rows, due.ordinal < touch.ordinal) :
    Agrees plan rows channel touch executionId at_ := by
  have hopen := latestDone_lt (hplan.positive touch htouch) hbefore
  have hskip : ((returned plan at_ rows).any fun next => touch.ordinal < next.ordinal) = false := by
    rw [Option.any_eq_false]
    intro next hnext
    have := hlast next (mem_of_returned hplan hnext)
    simpa using Nat.le_of_lt this
  have hreturned : returned plan at_ rows ≠ some touch.toProspectingTouch := fun heq =>
    Nat.lt_irrefl _ (hlast _ (mem_of_returned hplan heq))
  have hnone : ¬ ((∃ row ∈ rows, touch.ordinal ≤ row.ordinal) ∨
      ∃ due ∈ dueTouches plan at_ rows, touch.ordinal ≤ due.ordinal) := by
    rintro (⟨row, hrow, hle⟩ | ⟨due, hdue, hle⟩)
    · have := hbefore row hrow
      omega
    · have := hlast due hdue
      omega
  have heq := timing_eq hplan h htouch hchannel hat hown fun row hrow => (hbefore row hrow).ne
  rw [hskip, if_neg Bool.false_ne_true] at heq
  by_cases hexpired : plan.expiresAt < dueFrom plan touch rows.getLast?
  · rw [if_pos hexpired] at heq
    refine ⟨by simp [heq, hreturned], by simp [heq, hnone], fun _ _ => Or.inl heq, fun _ => ?_⟩
    unfold dueFrom at hexpired
    have hdueAt : dueAtOf plan touch ≤ plan.expiresAt := by
      obtain ⟨minute, hminute⟩ := hplan.planned touch htouch
      rw [hminute.dueAt]
      exact hplan.expiry touch htouch
    cases hfloor : stepFloor plan touch rows.getLast? with
    | none =>
      rw [hfloor] at hexpired
      exact absurd hexpired (Int.not_lt.2 hdueAt)
    | some floor =>
      rw [hfloor] at hexpired
      rcases lt_max_iff.1 hexpired with hdue | hlate
      · exact absurd hdue (Int.not_lt.2 hdueAt)
      · exact ⟨floor, rfl, hlate⟩
  · rw [if_neg hexpired, if_pos hearly] at heq
    refine ⟨by simp [heq, hreturned], by simp [heq, hnone], fun _ _ => Or.inr ?_, by simp [heq]⟩
    refine ⟨_, heq, hearly, fun later hfrom hlater hlatest => ?_⟩
    exact (timing_due hplan h htouch hchannel hlater hown hopen hfrom hlatest).2

/-- A touch after every accepted one is answered as it is due. -/
theorem agrees_open (hplan : WellBuilt plan) (h : Facts plan rows)
    (htouch : touch ∈ plan.touches) (hchannel : touchChannel channel = touch.channel)
    (hat : at_ ≤ plan.expiresAt) (hown : ∀ row ∈ rows, row.actionId ≠ executionId)
    (hbefore : ∀ row ∈ rows, row.ordinal < touch.ordinal) :
    Agrees plan rows channel touch executionId at_ := by
  have hopen := latestDone_lt (hplan.positive touch htouch) hbefore
  by_cases hovertaken : ∃ due ∈ dueTouches plan at_ rows, touch.ordinal < due.ordinal
  · obtain ⟨due, hdue, hlater⟩ := hovertaken
    exact agrees_overtaken hplan h htouch hchannel hat hown (fun row hrow => (hbefore row hrow).ne)
      hdue hlater
  · have hlast : ∀ due ∈ dueTouches plan at_ rows, due.ordinal ≤ touch.ordinal := fun due hdue =>
      Nat.not_lt.1 fun hlt => hovertaken ⟨due, hdue, hlt⟩
    rcases Int.lt_or_le at_ (dueFrom plan touch rows.getLast?) with hearly | hdue
    · apply agrees_early hplan h htouch hchannel hat hown hbefore hearly
      intro due hdue
      apply lt_of_le_of_ne (hlast due hdue)
      intro heq
      obtain ⟨other, hother, rfl⟩ := (mem_dueTouches.1 hdue).2.2.1
      obtain rfl := hplan.eq_of_ordinal hother htouch heq
      exact absurd ((h.mem_dueTouches_iff hplan htouch hopen).1 hdue).2 (Int.not_le.2 hearly)
    · obtain ⟨hreturned, heq⟩ := timing_due hplan h htouch hchannel hat hown hopen hdue hlast
      exact ⟨by simp [heq, hreturned], by simp [heq, hreturned],
        fun hnot => absurd hreturned hnot, by simp [heq]⟩

/-- The answer agrees with the due touch exactly when the touch was not passed over. -/
theorem agrees_iff (hplan : WellBuilt plan) (hrows : Accepted plan rows)
    (htouch : touch ∈ plan.touches) (hchannel : touchChannel channel = touch.channel)
    (hat : at_ ≤ plan.expiresAt)
    (hown : ∀ row ∈ rows, row.actionId = executionId → row.ordinal = touch.ordinal) :
    Agrees plan rows channel touch executionId at_ ↔
      NotPassedOver plan rows touch executionId at_ := by
  have h := hrows.facts
  by_cases hmine : ∀ row ∈ rows, row.actionId ≠ executionId
  · by_cases hdone : ∀ row ∈ rows, row.ordinal ≠ touch.ordinal
    · by_cases hpassed : ∃ row ∈ rows, touch.ordinal < row.ordinal
      · obtain ⟨row, hrow, hlater⟩ := hpassed
        rw [agrees_passed_iff hplan h htouch hchannel hat hmine hdone hrow hlater,
          h.dueTouches_ne_nil_iff hplan hat]
        exact ⟨fun hdues => ⟨hmine, fun _ _ => hdues⟩, fun hnot => hnot.2 ⟨row, hrow, hlater⟩ hdone⟩
      · refine iff_of_true (agrees_open hplan h htouch hchannel hat hmine fun row hrow => ?_)
          ⟨hmine, fun hlater => absurd hlater hpassed⟩
        exact lt_of_le_of_ne (Nat.not_lt.1 fun hlt => hpassed ⟨row, hrow, hlt⟩) (hdone row hrow)
    · obtain ⟨row, hrow, hordinal⟩ := not_forall₂.1 hdone
      have heq := not_not.1 hordinal
      exact iff_of_true (agrees_accepted hplan h htouch hchannel hat hmine hrow heq)
        ⟨hmine, fun _ hnone => absurd heq (hnone row hrow)⟩
  · obtain ⟨row, hrow, hid⟩ := not_forall₂.1 hmine
    have hid := not_not.1 hid
    refine iff_of_false (fun hagrees => ?_) fun hnot => hmine hnot.1
    -- It is answered to go on, and its touch is not open any more.
    have hreturned := hagrees.proceed.1 (timing_own hplan h htouch hchannel hat hrow hid)
    exact (mem_dueTouches.1 (mem_of_returned hplan hreturned)).2.2.2.1 row hrow (hown row hrow hid)

end Answer

end History

end FoundingSales.Outreach.Timing
