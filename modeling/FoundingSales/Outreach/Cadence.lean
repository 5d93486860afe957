import FoundingSales.Text

/-!
The prospecting cadence: which of a plan's touches is due at an instant. The clock of a time
zone is the platform's.
-/

namespace FoundingSales.Outreach

structure LocalParts where
  date : BusinessDate
  /-- 0 is Sunday. -/
  weekday : Nat
  hour : Nat
  minute : Nat
  deriving DecidableEq

def LocalParts.minuteOfDay (parts : LocalParts) : Nat := parts.hour * 60 + parts.minute

/-- The local clock of each zone. -/
structure ZoneClock where
  localParts : Instant → JsString → LocalParts
  localInstant : BusinessDate → Nat → Nat → JsString → Instant

/-- 1970-01-01 was a Thursday. -/
def weekdayOfDate (date : BusinessDate) : Nat := ((date + 4) % 7).toNat

/-- The first of the next `days` days from `date` on that is no weekend. -/
def weekdayWithin : Nat → BusinessDate → BusinessDate
  | 0, date => date
  | days + 1, date =>
    if weekdayOfDate date ∈ [0, 6] then weekdayWithin days (date + 1) else date

/-- Two days at most are passed over. -/
def weekday (date : BusinessDate) : BusinessDate := weekdayWithin 2 date

/-! ## The sending window -/

structure SendingWindow where
  openMinute : Nat
  closeMinute : Nat
  defaultHour : Nat
  deriving DecidableEq

def prospectingEmailWindow : SendingWindow := ⟨9 * 60, 11 * 60, 10⟩

def isSendingDay (weekday : Nat) : Bool := weekday ∈ [1, 2, 3, 4, 5]

section Clock

variable (clock : ZoneClock)

/-- The first sending day from `date` on, in at most `steps` steps. -/
def sendingDayFrom (zone : JsString) : Nat → BusinessDate → BusinessDate
  | 0, date => date
  | steps + 1, date =>
    if isSendingDay (clock.localParts (clock.localInstant date 12 0 zone) zone).weekday then date
    else sendingDayFrom zone steps (date + 1)

/-- Where a due email goes out, with no holidays. -/
def placeEmailSend (dueAt : Instant) (zone : JsString) (window : SendingWindow) : Instant :=
  let parts := clock.localParts dueAt zone
  if isSendingDay parts.weekday && window.openMinute ≤ parts.minuteOfDay &&
      parts.minuteOfDay < window.closeMinute then dueAt
  else
    let openToday := isSendingDay parts.weekday && parts.minuteOfDay < window.openMinute
    let date := sendingDayFrom clock zone 400 (if openToday then parts.date else parts.date + 1)
    clock.localInstant date window.defaultHour 0 zone

/-! ## The cadence -/

inductive TouchChannel
  | phone | email
  deriving DecidableEq

structure ProspectingTouch where
  ordinal : Nat
  channel : TouchChannel
  localDate : BusinessDate
  dueAt : Instant
  deriving DecidableEq

structure OutreachCadence where
  timeZone : JsString
  expiresAt : Instant
  touches : List ProspectingTouch
  deriving DecidableEq

def prospectingTouchDueAt (touch : ProspectingTouch) (timeZone : JsString) : Instant :=
  match touch.channel with
  | .email => placeEmailSend clock touch.dueAt timeZone prospectingEmailWindow
  | .phone => touch.dueAt

/-- Whether a touch that is left is due, on its own day or on that of the touch before it. -/
def touchDue (plan : OutreachCadence) (at_ : Instant) (prior : Option ProspectingTouch)
    (lastTouchAt : Option Instant) (touch : ProspectingTouch) : Bool :=
  prospectingTouchDueAt clock touch plan.timeZone ≤ at_ &&
    match lastTouchAt, prior with
    | some lastTouchAt, some prior =>
      let gap := touch.localDate - prior.localDate
      let date := weekday ((clock.localParts lastTouchAt plan.timeZone).date + max 1 gap)
      let parts := clock.localParts (prospectingTouchDueAt clock touch plan.timeZone) plan.timeZone
      clock.localInstant date parts.hour parts.minute plan.timeZone ≤ at_
    | _, _ => true

/-- The latest due touch, and the ordinals it skips. -/
def nextProspectingTouch (plan : OutreachCadence) (at_ : Instant) (completedOrdinals : List Nat)
    (lastTouchAt : Option Instant) : Option (ProspectingTouch × List Nat) :=
  if plan.expiresAt < at_ then none
  else if lastTouchAt.any fun lastTouchAt => (clock.localParts at_ plan.timeZone).date
      ≤ (clock.localParts lastTouchAt plan.timeZone).date then none
  else
    let latestDone := completedOrdinals.foldl max 0
    let prior := plan.touches.find? fun touch => touch.ordinal = latestDone
    let remaining := plan.touches.filter fun touch =>
      touch.ordinal ∉ completedOrdinals && latestDone < touch.ordinal
    ((remaining.filter (touchDue clock plan at_ prior lastTouchAt)).getLast?).map fun touch =>
      (touch, (remaining.filter fun skipped => skipped.ordinal < touch.ordinal).map
        ProspectingTouch.ordinal)

end Clock

end FoundingSales.Outreach
