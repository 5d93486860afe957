import FoundingSales.Rules.BusinessDays

/-!
The e-mail sending window: where a due e-mail goes out.

Proved here:

* `placeEmailSend_inside`, `placeEmailSend_moved`: a due instant stays, or goes to the hour the
  window opens at, on the first sending day of those looked at;
* `placeEmailSend_exhausted`: with none among them it goes to the last one looked at;
* `placed_correctly`: the placement is a sending day's, in the window, and stays; of an ordinary
  e-mail it is the earliest;
* `repeated_afternoon_passed_over`: not the earliest where the afternoon comes twice.
-/

namespace FoundingSales.Rules.SendingWindow

open Calendar Contracts.LocalClock LocalDates BusinessDays

structure EmailWindow where
  /-- Minutes from local midnight. -/
  openMinute : Int
  preferredEndMinute : Int
  closeMinute : Int
  deriving DecidableEq

def emailWindow : EmailWindow := ⟨8 * 60, 12 * 60, 17 * 60⟩

def prospectingEmailWindow : EmailWindow := ⟨9 * 60, 11 * 60, 11 * 60⟩

def prospectingDefaultHour : Nat := 10

def emailWindowWeekdays : List Int := [1, 2, 3, 4, 5]

inductive EmailWindowBand
  | morning | overflow
  deriving DecidableEq

structure EmailSendPlacement where
  sendAt : Int
  band : EmailWindowBand
  inPlace : Bool
  localDate : JsString
  deriving DecidableEq

def isSendingDay (date : JsString) (weekday : Int) (calendar : WorkspaceHolidayCalendar) : Bool :=
  weekday ∈ emailWindowWeekdays && date ∉ calendar.dates

def noon : LocalTimeOfDay := ⟨12, 0, none, none⟩

/-- The day search, with `steps` steps left; the day after the last is not looked at. -/
def sendingDayFrom (zone : Zone) (calendar : WorkspaceHolidayCalendar) :
    Nat → JsString → Except LocalClockError JsString
  | 0, date => .ok date
  | steps + 1, date => do
    let midday ← localInstant date noon zone
    if isSendingDay date (localParts midday zone).weekday calendar then
      return date
    else
      let next ← addCalendarDays date 1
      sendingDayFrom zone calendar steps next

def windowOf (prospecting : Bool) : EmailWindow :=
  if prospecting then prospectingEmailWindow else emailWindow

def nextHour (prospecting : Bool) : Nat := if prospecting then prospectingDefaultHour else 8

def bandOf (window : EmailWindow) (minuteOfDay : Int) : EmailWindowBand :=
  if minuteOfDay < window.preferredEndMinute then .morning else .overflow

/-- The opening of the first sending day from a date on. -/
def openingFrom (date : JsString) (zone : Zone) (calendar : WorkspaceHolidayCalendar)
    (prospecting : Bool) : Except LocalClockError EmailSendPlacement := do
  let found ← sendingDayFrom zone calendar 400 date
  let sendAt ← localInstant found ⟨nextHour prospecting, 0, none, none⟩ zone
  return ⟨sendAt, .morning, false, found⟩

/-- Where a due email actually goes out. -/
def placeEmailSend (dueAt : Int) (zone : Zone) (calendar : WorkspaceHolidayCalendar)
    (prospecting : Bool) : Except LocalClockError EmailSendPlacement :=
  let parts := localParts dueAt zone
  let window := windowOf prospecting
  if isSendingDay parts.date parts.weekday calendar && window.openMinute ≤ parts.minuteOfDay &&
      parts.minuteOfDay < window.closeMinute then
    .ok ⟨dueAt, bandOf window parts.minuteOfDay, true, parts.date⟩
  else if isSendingDay parts.date parts.weekday calendar &&
      parts.minuteOfDay < window.openMinute then
    openingFrom parts.date zone calendar prospecting
  else do
    let next ← addCalendarDays parts.date 1
    openingFrom next zone calendar prospecting

/-! ## The day search -/

section Search

variable {zone : Zone} {calendar : WorkspaceHolidayCalendar} {day : Int}

/-- A sending day is a business day. -/
theorem isSendingDay_eq (h : Dated day) :
    isSendingDay (isoDate day) (weekdayOf day) calendar = businessDay calendar day := by
  unfold isSendingDay businessDay
  rw [decide_eq_true h.lt_end, Bool.true_and]
  have hweek : 0 ≤ weekdayOf day ∧ weekdayOf day < 7 := by
    unfold weekdayOf
    omega
  generalize weekdayOf day = weekday at hweek
  obtain ⟨hfrom, hto⟩ := hweek
  congr 1
  interval_cases weekday <;> rfl

/-- The search ends at the first sending day, or at the day after those it looked at. -/
theorem sendingDayFrom_eq (hnoon : HourShown zone 12) {found : Int} {steps : Nat}
    (hday : Dated day) (hfirst : firstDay < day) (hdated : Dated found) (hle : day ≤ found)
    (hto : found ≤ day + steps)
    (hnone : ∀ other, day ≤ other → other < found → businessDay calendar other = false)
    (hfound : found < day + steps → businessDay calendar found = true) :
    sendingDayFrom zone calendar steps (isoDate day) = .ok (isoDate found) := by
  induction steps generalizing day with
  | zero => rw [show found = day by omega]; rfl
  | succ steps ih =>
    obtain ⟨midday, hmidday, hclock⟩ :=
      localInstant_of_shownOnce hday hfirst (by omega) (hnoon day)
    have hlocal := localDay_of_wallClock (by omega) hclock
    have hsending : isSendingDay (isoDate day) (localParts midday zone).weekday calendar
        = businessDay calendar day := by
      rw [localParts_weekday, hlocal, isSendingDay_eq hday]
    unfold sendingDayFrom
    rw [show localInstant (isoDate day) noon zone = .ok midday from hmidday]
    show (if isSendingDay (isoDate day) (localParts midday zone).weekday calendar = true then _
      else _) = _
    rw [hsending]
    rcases Int.lt_or_eq_of_le hle with hlt | rfl
    · have hnext : Dated (day + 1) := ⟨by omega, by have := hdated.lt_end; omega⟩
      rw [hnone day (Int.le_refl _) hlt, addCalendarDays_isoDate hday]
      exact ih hnext (by omega) (by omega) (by omega)
        (fun other hfrom hother => hnone other (by omega) hother) fun hlast => hfound (by omega)
    · rw [hfound (by omega)]
      rfl

end Search

/-! ## The placement -/

/-- The code's test that an instant is inside a window. -/
def insideWindow (window : EmailWindow) (zone : Zone) (calendar : WorkspaceHolidayCalendar)
    (t : Int) : Bool :=
  isSendingDay (localParts t zone).date (localParts t zone).weekday calendar &&
    window.openMinute ≤ (localParts t zone).minuteOfDay &&
    (localParts t zone).minuteOfDay < window.closeMinute

/-- A sending day's window is still to open. -/
def openToday (prospecting : Bool) (zone : Zone) (calendar : WorkspaceHolidayCalendar) (t : Int) :
    Bool :=
  isSendingDay (localParts t zone).date (localParts t zone).weekday calendar &&
    (localParts t zone).minuteOfDay < (windowOf prospecting).openMinute

/-- The search gets to a sending day: it looks at 400 days and takes the next. -/
def Reachable (prospecting : Bool) (zone : Zone) (calendar : WorkspaceHolidayCalendar) (t : Int) :
    Prop :=
  insideWindow (windowOf prospecting) zone calendar t = true ∨
  openToday prospecting zone calendar t = true ∨
  ∃ day, localDay zone t < day ∧ day ≤ localDay zone t + 401 ∧ businessDay calendar day = true

/-- A local date that the code reads back, with the day before it. -/
def Readable (zone : Zone) (t : Int) : Prop :=
  Dated (localDay zone t) ∧ firstDay < localDay zone t

/-- The hours the placement is about. -/
structure HoursShown (zone : Zone) : Prop where
  eight : HourShown zone 8
  ten : HourShown zone 10
  twelve : HourShown zone 12

section Placement

variable {zone : Zone} {calendar : WorkspaceHolidayCalendar} {prospecting : Bool} {due t : Int}
  {found : Int}

theorem HoursShown.next (h : HoursShown zone) (prospecting : Bool) :
    HourShown zone (nextHour prospecting) := by
  cases prospecting
  · exact h.eight
  · exact h.ten

theorem nextHour_lt (prospecting : Bool) : nextHour prospecting < 24 := by
  cases prospecting <;> decide

/-- Where an instant that does not stay goes. -/
structure Opens (prospecting : Bool) (zone : Zone) (calendar : WorkspaceHolidayCalendar)
    (due day : Int) : Prop where
  dated : Dated day
  business : businessDay calendar day = true
  when : openToday prospecting zone calendar due = true ∧ day = localDay zone due ∨
    openToday prospecting zone calendar due = false ∧
      Workdays.IsNth (businessDay calendar) (localDay zone due + 1) 0 day ∧
      day ≤ localDay zone due + 401

theorem Opens.le (h : Opens prospecting zone calendar due found) : localDay zone due ≤ found := by
  rcases h.when with ⟨-, rfl⟩ | ⟨-, hnth, -⟩
  · exact Int.le_refl _
  · have := hnth.le
    omega

theorem businessDay_of_localParts (h : Dated (localDay zone t)) :
    isSendingDay (localParts t zone).date (localParts t zone).weekday calendar
      = businessDay calendar (localDay zone t) := by
  rw [localParts_date h, localParts_weekday, isSendingDay_eq h]

theorem exists_opens (hdue : Readable zone due)
    (hreach : Reachable prospecting zone calendar due)
    (hout : insideWindow (windowOf prospecting) zone calendar due = false) :
    ∃ day, Opens prospecting zone calendar due day := by
  by_cases htoday : openToday prospecting zone calendar due = true
  · have hbusiness := htoday
    unfold openToday at hbusiness
    rw [businessDay_of_localParts hdue.1, Bool.and_eq_true] at hbusiness
    exact ⟨_, hdue.1, hbusiness.1, .inl ⟨htoday, rfl⟩⟩
  · obtain ⟨day, hfrom, hto, hday⟩ := (hreach.resolve_left (by simp [hout])).resolve_left htoday
    have hcount := Workdays.count_lt (w := businessDay calendar)
      (Int.le_refl (localDay zone due + 1 - 1)) (show localDay zone due + 1 - 1 < day by omega) hday
    obtain ⟨first, hfirst, hle⟩ := Workdays.IsNth.of_count (Nat.zero_lt_of_lt hcount)
    have hlocal := hdue.1.first_le
    have hfrom' := hfirst.le
    refine ⟨first, ⟨by omega, lt_end_of_businessDay hfirst.worked⟩, hfirst.worked,
      .inr ⟨Bool.not_eq_true _ ▸ htoday, hfirst, by omega⟩⟩

/-- An instant inside the window stays. -/
theorem placeEmailSend_inside
    (h : insideWindow (windowOf prospecting) zone calendar due = true) :
    placeEmailSend due zone calendar prospecting = .ok
      ⟨due, bandOf (windowOf prospecting) (localParts due zone).minuteOfDay, true,
        (localParts due zone).date⟩ := by
  unfold insideWindow at h
  unfold placeEmailSend
  dsimp only
  rw [if_pos h]

/-- Any other goes to the hour of the day it opens at. -/
theorem placeEmailSend_moved (hshown : HoursShown zone) (hdue : Readable zone due)
    (hout : insideWindow (windowOf prospecting) zone calendar due = false)
    (hopens : Opens prospecting zone calendar due found) :
    ∃ sendAt, placeEmailSend due zone calendar prospecting =
        .ok ⟨sendAt, .morning, false, isoDate found⟩ ∧
      zone.wallClock sendAt = clockAt found (nextHour prospecting) := by
  have hle := hopens.le
  obtain ⟨sendAt, hsendAt, hclock⟩ := localInstant_of_shownOnce hopens.dated (by
    have := hdue.2
    omega) (nextHour_lt prospecting) (hshown.next prospecting found)
  refine ⟨sendAt, ?_, hclock⟩
  have hopening : ∀ start, sendingDayFrom zone calendar 400 (isoDate start) = .ok (isoDate found) →
      openingFrom (isoDate start) zone calendar prospecting =
        .ok ⟨sendAt, .morning, false, isoDate found⟩ := by
    intro start hsearch
    unfold openingFrom
    rw [hsearch]
    show localInstant (isoDate found) ⟨nextHour prospecting, 0, none, none⟩ zone >>= _ = _
    rw [hsendAt]
    rfl
  have hlocal := localParts_date hdue.1
  unfold insideWindow at hout
  unfold placeEmailSend
  dsimp only
  rw [if_neg (by rw [hout]; exact Bool.false_ne_true)]
  rcases hopens.when with ⟨htoday, rfl⟩ | ⟨hnot, hnth, hto⟩
  · unfold openToday at htoday
    rw [if_pos htoday, hlocal]
    apply hopening
    exact sendingDayFrom_eq hshown.twelve hdue.1 hdue.2 hdue.1 (Int.le_refl _) (by omega)
      (fun other hfrom hlt => by omega) fun _ => hopens.business
  · unfold openToday at hnot
    rw [if_neg (by rw [hnot]; exact Bool.false_ne_true), hlocal, addCalendarDays_isoDate hdue.1]
    apply hopening
    have hlt := hopens.dated.lt_end
    have hfrom := hdue.2
    have hnext := hnth.le
    exact sendingDayFrom_eq hshown.twelve ⟨by omega, by omega⟩ (by omega) hopens.dated hnext
      (by omega) (fun _ => hnth.none_before) fun _ => hopens.business

theorem insideWindow_iff (h : Dated (localDay zone t)) (window : EmailWindow) :
    insideWindow window zone calendar t = true ↔
      businessDay calendar (localDay zone t) = true ∧
        window.openMinute ≤ zone.wallClock t % dayMs / minuteMs ∧
        zone.wallClock t % dayMs / minuteMs < window.closeMinute := by
  unfold insideWindow
  rw [businessDay_of_localParts h, localParts_minuteOfDay]
  simp only [Bool.and_eq_true, decide_eq_true_eq, and_assoc]

/-- The hour the window opens at is inside it. -/
theorem insideWindow_next (hdated : Dated found) (hbusiness : businessDay calendar found = true)
    (h : zone.wallClock t = clockAt found (nextHour prospecting)) :
    insideWindow (windowOf prospecting) zone calendar t = true := by
  have hday := localDay_of_wallClock (nextHour_lt prospecting) h
  rw [insideWindow_iff (by rwa [hday]), hday, h]
  refine ⟨hbusiness, ?_⟩
  cases prospecting
  · show (8 * 60 : Int) ≤ clockAt found 8 % dayMs / minuteMs ∧
      clockAt found 8 % dayMs / minuteMs < 17 * 60
    unfold clockAt dayMs minuteMs
    omega
  · show (9 * 60 : Int) ≤ clockAt found 10 % dayMs / minuteMs ∧
      clockAt found 10 % dayMs / minuteMs < 11 * 60
    unfold clockAt dayMs minuteMs
    omega

/-- What is open today, or opens later, is not before the due instant. -/
theorem Opens.le_sendAt (hshown : HoursShown zone)
    (hopens : Opens prospecting zone calendar due found)
    (h : zone.wallClock t = clockAt found (nextHour prospecting)) : due < t := by
  have honce := hshown.next prospecting found
  rw [honce.lt_iff h]
  rcases hopens.when with ⟨htoday, rfl⟩ | ⟨-, hnth, -⟩
  · unfold openToday at htoday
    rw [localParts_minuteOfDay] at htoday
    simp only [Bool.and_eq_true, decide_eq_true_eq] at htoday
    have hminute := htoday.2
    cases prospecting
    · change zone.wallClock due % dayMs / minuteMs < 8 * 60 at hminute
      show zone.wallClock due < clockAt (localDay zone due) 8
      unfold clockAt localDay
      unfold dayMs minuteMs at *
      omega
    · change zone.wallClock due % dayMs / minuteMs < 9 * 60 at hminute
      show zone.wallClock due < clockAt (localDay zone due) 10
      unfold clockAt localDay
      unfold dayMs minuteMs at *
      omega
  · have hnext := hnth.le
    unfold localDay at hnext
    unfold clockAt
    unfold dayMs at *
    omega

/-- A placement of an e-mail due at an instant. -/
structure Placed (prospecting : Bool) (zone : Zone) (calendar : WorkspaceHolidayCalendar)
    (due : Int) (placement : EmailSendPlacement) : Prop where
  not_before : due ≤ placement.sendAt
  weekday : 1 ≤ (localParts placement.sendAt zone).weekday ∧
    (localParts placement.sendAt zone).weekday ≤ 5
  no_holiday : (localParts placement.sendAt zone).date ∉ calendar.dates
  in_window : (windowOf prospecting).openMinute ≤ (localParts placement.sendAt zone).minuteOfDay ∧
    (localParts placement.sendAt zone).minuteOfDay < (windowOf prospecting).closeMinute
  dated : placement.localDate = (localParts placement.sendAt zone).date
  again : placeEmailSend placement.sendAt zone calendar prospecting =
    .ok { placement with inPlace := true }

theorem placed_of_inside {placement : EmailSendPlacement}
    (hinside : insideWindow (windowOf prospecting) zone calendar placement.sendAt = true)
    (hle : due ≤ placement.sendAt)
    (hdate : placement.localDate = (localParts placement.sendAt zone).date)
    (hband : placement.band =
      bandOf (windowOf prospecting) (localParts placement.sendAt zone).minuteOfDay) :
    Placed prospecting zone calendar due placement := by
  have hparts := hinside
  unfold insideWindow isSendingDay at hparts
  simp only [Bool.and_eq_true, decide_eq_true_eq] at hparts
  obtain ⟨⟨⟨hweekday, hholiday⟩, hopen⟩, hclose⟩ := hparts
  refine ⟨hle, ?_, hholiday, ⟨hopen, hclose⟩, hdate, ?_⟩
  · unfold emailWindowWeekdays at hweekday
    simp only [List.mem_cons, List.not_mem_nil, or_false] at hweekday
    omega
  · rw [placeEmailSend_inside hinside]
    cases placement
    simp_all

/-- An e-mail is placed. -/
theorem exists_placed (hshown : HoursShown zone) (hdue : Readable zone due)
    (hreach : Reachable prospecting zone calendar due) :
    ∃ placement, placeEmailSend due zone calendar prospecting = .ok placement ∧
      Placed prospecting zone calendar due placement := by
  cases hin : insideWindow (windowOf prospecting) zone calendar due with
  | true =>
    exact ⟨_, placeEmailSend_inside hin, placed_of_inside hin (Int.le_refl _) rfl rfl⟩
  | false =>
    obtain ⟨found, hopens⟩ := exists_opens hdue hreach hin
    obtain ⟨sendAt, hplace, hclock⟩ := placeEmailSend_moved hshown hdue hin hopens
    have hday := localDay_of_wallClock (nextHour_lt prospecting) hclock
    have hdated : Dated (localDay zone sendAt) := by
      rw [hday]
      exact hopens.dated
    refine ⟨_, hplace, placed_of_inside (insideWindow_next hopens.dated hopens.business hclock)
      (Int.le_of_lt (hopens.le_sendAt hshown hclock)) ?_ ?_⟩
    · show isoDate found = (localParts sendAt zone).date
      rw [localParts_date hdated, hday]
    · show EmailWindowBand.morning = bandOf _ (localParts sendAt zone).minuteOfDay
      rw [localParts_minuteOfDay, hclock]
      symm
      apply if_pos
      cases prospecting
      · show clockAt found 8 % dayMs / minuteMs < 12 * 60
        unfold clockAt dayMs minuteMs
        omega
      · show clockAt found 10 % dayMs / minuteMs < 11 * 60
        unfold clockAt dayMs minuteMs
        omega

/-! ## The earliest -/

/-- An ordinary e-mail passes no window over. -/
theorem placeEmailSend_earliest (hshown : HoursShown zone) (hclosing : HourShown zone 17)
    (hdue : Readable zone due) (hreach : Reachable false zone calendar due)
    {placement : EmailSendPlacement}
    (hplace : placeEmailSend due zone calendar false = .ok placement)
    (hfrom : due ≤ t) (hto : t < placement.sendAt) :
    insideWindow emailWindow zone calendar t = false := by
  cases hin : insideWindow (windowOf false) zone calendar due with
  | true =>
    rw [placeEmailSend_inside hin, Except.ok.injEq] at hplace
    subst hplace
    change t < due at hto
    omega
  | false =>
    obtain ⟨found, hopens⟩ := exists_opens hdue hreach hin
    obtain ⟨sendAt, hplace', hclock⟩ := placeEmailSend_moved hshown hdue hin hopens
    rw [hplace', Except.ok.injEq] at hplace
    subst hplace
    change t < sendAt at hto
    change zone.wallClock sendAt = clockAt found 8 at hclock
    rw [(hshown.eight found).lt_iff hclock] at hto
    rw [← Bool.not_eq_true]
    intro hinside
    have hminutes := hinside
    unfold insideWindow at hminutes
    rw [localParts_minuteOfDay] at hminutes
    simp only [Bool.and_eq_true, decide_eq_true_eq] at hminutes
    obtain ⟨⟨-, hopen⟩, hclose⟩ := hminutes
    change (8 * 60 : Int) ≤ zone.wallClock t % dayMs / minuteMs at hopen
    change zone.wallClock t % dayMs / minuteMs < 17 * 60 at hclose
    -- it is before the day's window closes, and so is what comes earlier
    obtain ⟨closing, hclosingClock, honce⟩ := hclosing (localDay zone t)
    have hbefore : ∀ s, s < closing ↔ zone.wallClock s < clockAt (localDay zone t) 17 := fun s =>
      ShownOnce.lt_iff ⟨closing, hclosingClock, honce⟩ hclosingClock
    have hearly : zone.wallClock due < clockAt (localDay zone t) 17 := by
      rw [← hbefore]
      apply Int.lt_of_le_of_lt hfrom
      rw [hbefore]
      unfold clockAt localDay
      unfold dayMs minuteMs at *
      omega
    have hday : localDay zone due ≤ localDay zone t := by
      unfold clockAt localDay at *
      unfold dayMs at *
      omega
    have hday' : localDay zone t < found := by
      unfold clockAt localDay at *
      unfold dayMs minuteMs at *
      omega
    have hdated : Dated (localDay zone t) := ⟨hdue.1.first_le.trans hday,
      hday'.trans hopens.dated.lt_end⟩
    have hbusiness := ((insideWindow_iff hdated emailWindow).1 hinside).1
    rcases hopens.when with ⟨-, rfl⟩ | ⟨hnot, hnth, -⟩
    · omega
    · rcases Int.lt_or_eq_of_le hday with hlt | heq
      · rw [hnth.none_before (by omega) hday'] at hbusiness
        cases hbusiness
      · -- on the due day itself the window had closed
        rw [← heq] at hearly hbusiness
        have hclosed : ¬ (zone.wallClock due % dayMs / minuteMs < 17 * 60) := by
          intro hlt
          by_cases hopened : (8 * 60 : Int) ≤ zone.wallClock due % dayMs / minuteMs
          · have htrue := (insideWindow_iff hdue.1 (windowOf false)).2 ⟨hbusiness, hopened, hlt⟩
            rw [hin] at htrue
            cases htrue
          · unfold openToday at hnot
            rw [businessDay_of_localParts hdue.1, hbusiness, localParts_minuteOfDay,
              Bool.true_and] at hnot
            exact hopened (Int.not_lt.1 (of_decide_eq_false hnot))
        apply hclosed
        unfold clockAt localDay at hearly
        unfold dayMs minuteMs at *
        omega

/-- The placements of ordinary e-mails are in the order they are due. -/
theorem placeEmailSend_mono (hshown : HoursShown zone) (hclosing : HourShown zone 17) {due' : Int}
    (hdue : Readable zone due) (hreach : Reachable false zone calendar due)
    (hdue' : Readable zone due') (hreach' : Reachable false zone calendar due')
    {placement placement' : EmailSendPlacement} (hle : due ≤ due')
    (h : placeEmailSend due zone calendar false = .ok placement)
    (h' : placeEmailSend due' zone calendar false = .ok placement') :
    placement.sendAt ≤ placement'.sendAt := by
  obtain ⟨other, hother, hplaced⟩ := exists_placed hshown hdue' hreach'
  rw [hother, Except.ok.injEq] at h'
  subst h'
  by_contra hnot
  have hout := placeEmailSend_earliest hshown hclosing hdue hreach h
    (hle.trans hplaced.not_before) (Int.not_le.1 hnot)
  have hin : insideWindow emailWindow zone calendar other.sendAt = true := by
    have hweekday : (localParts other.sendAt zone).weekday ∈ emailWindowWeekdays := by
      have hbounds := hplaced.weekday
      unfold emailWindowWeekdays
      simp only [List.mem_cons, List.not_mem_nil, or_false]
      omega
    have hwindow : emailWindow.openMinute ≤ (localParts other.sendAt zone).minuteOfDay ∧
        (localParts other.sendAt zone).minuteOfDay < emailWindow.closeMinute := hplaced.in_window
    unfold insideWindow isSendingDay
    simp only [hweekday, hplaced.no_holiday, hwindow.1, hwindow.2, not_false_eq_true, decide_true,
      Bool.and_self]
  rw [hout] at hin
  cases hin

/-- Past 400 days without a sending day the next is taken as it is. -/
theorem placeEmailSend_exhausted (hshown : HoursShown zone) (hdue : Readable zone due)
    (hlast : Dated (localDay zone due + 401))
    (hnone : ∀ day, localDay zone due ≤ day → day ≤ localDay zone due + 401 →
      businessDay calendar day = false) :
    ∃ placement, placeEmailSend due zone calendar prospecting = .ok placement ∧
      placement.localDate = isoDate (localDay zone due + 401) := by
  have hnot : isSendingDay (localParts due zone).date (localParts due zone).weekday calendar
      = false := by
    rw [businessDay_of_localParts hdue.1]
    exact hnone _ (Int.le_refl _) (by omega)
  obtain ⟨sendAt, hsendAt, -⟩ := localInstant_of_shownOnce hlast (by
    have := hdue.2
    omega) (nextHour_lt prospecting) (hshown.next prospecting _)
  refine ⟨⟨sendAt, .morning, false, isoDate (localDay zone due + 401)⟩, ?_, rfl⟩
  have hsearch : sendingDayFrom zone calendar 400 (isoDate (localDay zone due + 1)) =
      .ok (isoDate (localDay zone due + 401)) := by
    have hlt := hlast.lt_end
    have hfrom := hdue.2
    exact sendingDayFrom_eq hshown.twelve ⟨by omega, by omega⟩ (by omega) hlast (by omega) (by omega)
      (fun day hday hto => hnone day (by omega) (by omega)) fun hto => by omega
  unfold placeEmailSend
  dsimp only
  simp only [hnot, Bool.false_and, Bool.false_eq_true, if_false]
  rw [localParts_date hdue.1, addCalendarDays_isoDate hdue.1]
  show openingFrom (isoDate (localDay zone due + 1)) zone calendar prospecting = _
  unfold openingFrom
  rw [hsearch]
  show localInstant _ ⟨nextHour prospecting, 0, none, none⟩ zone >>= _ = _
  rw [hsendAt]
  rfl

end Placement

/-- An e-mail is placed at or after it is due, on a sending day and inside the window, and stays
there; an ordinary one at the earliest such instant, where the window's end does not come twice. -/
theorem placed_correctly (zone : Zone) (hshown : HoursShown zone)
    (calendar : WorkspaceHolidayCalendar) (prospecting : Bool) (due : Int)
    (hdue : Readable zone due) (hreach : Reachable prospecting zone calendar due) :
    ∃ placement, placeEmailSend due zone calendar prospecting = .ok placement ∧
      Placed prospecting zone calendar due placement ∧
      (prospecting = false → HourShown zone 17 →
        (∀ t, due ≤ t → t < placement.sendAt →
          insideWindow emailWindow zone calendar t = false) ∧
        ∀ due' placement', due ≤ due' → Readable zone due' → Reachable false zone calendar due' →
          placeEmailSend due' zone calendar false = .ok placement' →
          placement.sendAt ≤ placement'.sendAt) := by
  obtain ⟨placement, hplace, hplaced⟩ := exists_placed hshown hdue hreach
  refine ⟨placement, hplace, hplaced, ?_⟩
  rintro rfl hclosing
  refine ⟨fun t => placeEmailSend_earliest hshown hclosing hdue hreach hplace, ?_⟩
  intro due' placement' hle hdue' hreach' hplace'
  exact placeEmailSend_mono hshown hclosing hdue hreach hdue' hreach' hle hplace hplace'

/-! ## Clocks that change once -/

/-- Around one change a clock is shown once: before it, or after. -/
theorem shownOnce_changing {change before after : Int} (hbefore : -1440 < before ∧ before < 1440)
    (hafter : -1440 < after ∧ after < 1440) (hjump : -1440 ≤ after - before ∧ after - before ≤ 1440)
    {wall : Int} (h : wall - before * minuteMs < change ↔ wall - after * minuteMs < change) :
    ShownOnce (.changing change before after hbefore hafter hjump) wall := by
  have hclock : ∀ t, (Zone.changing change before after hbefore hafter hjump).wallClock t
      = t + (if t < change then before else after) * minuteMs := fun t => rfl
  by_cases hfirst : wall - before * minuteMs < change
  · refine ⟨wall - before * minuteMs, ?_, fun t ht => ?_⟩
    · rw [hclock, if_pos hfirst]
      omega
    · rw [hclock] at ht
      split at ht <;> omega
  · refine ⟨wall - after * minuteMs, ?_, fun t ht => ?_⟩
    · rw [hclock, if_neg (h.not.1 hfirst)]
      omega
    · rw [hclock] at ht
      split at ht <;> omega

def greenwich : Zone := .changing 0 0 0 (by decide) (by decide) (by decide)

theorem hourShown_greenwich (hour : Nat) : HourShown greenwich hour := fun day =>
  shownOnce_changing _ _ _ (by omega)

/-- A Friday evening's e-mail goes out on Monday at eight. -/
theorem placed_correctly_friday :
    ∃ placement, placeEmailSend 1790964000000 greenwich emptyHolidayCalendar false = .ok placement ∧
      Placed false greenwich emptyHolidayCalendar 1790964000000 placement := by
  obtain ⟨placement, hplace, hplaced, -⟩ := placed_correctly greenwich
    ⟨hourShown_greenwich 8, hourShown_greenwich 10, hourShown_greenwich 12⟩ emptyHolidayCalendar
    false 1790964000000 ⟨⟨by decide +kernel, by decide +kernel⟩, by decide +kernel⟩
    (.inr (.inr ⟨localDay greenwich 1790964000000 + 3, by omega, by omega, by decide +kernel⟩))
  exact ⟨placement, hplace, hplaced⟩

/-- On 2026-09-30 at 17:30 the clock goes back an hour. -/
def afternoonTwice : Zone := .changing 1790789400000 0 (-60) (by decide) (by decide) (by decide)

/-- No eight, ten or twelve o'clock is skipped or repeated, and an e-mail due at 17:10, for the first
time, goes out on the next morning though the clock shows 16:30 again. -/
theorem repeated_afternoon_passed_over : HoursShown afternoonTwice ∧
    ∃ placement, placeEmailSend 1790788200000 afternoonTwice emptyHolidayCalendar false
        = .ok placement ∧
      ∃ t, 1790788200000 ≤ t ∧ t < placement.sendAt ∧
        insideWindow emailWindow afternoonTwice emptyHolidayCalendar t = true := by
  have hshown : ∀ hour : Nat, hour ≤ 12 → HourShown afternoonTwice hour := by
    intro hour hle day
    apply shownOnce_changing
    unfold clockAt dayMs minuteMs epochDay
    omega
  refine ⟨⟨hshown 8 (by omega), hshown 10 (by omega), hshown 12 (by omega)⟩,
    ⟨1790845200000, .morning, false, js "2026-10-01"⟩, by decide +kernel, 1790789400000,
    by decide, by decide, by decide +kernel⟩

end FoundingSales.Rules.SendingWindow
