import Mathlib.Data.List.Sort
import FoundingSales.Library.Tables
import FoundingSales.Library.Runs
import FoundingSales.Text

/-!
Cal.com deliveries and what they make of the meetings of one workspace. The tables are
those of the meetings, of the booking uids each has had, and of the deliveries received.
Every function is a transaction under the send gate, or raises with `none`: a condition of
a table fails, or the code throws. What a delivery does besides (the deal, the review items,
the booking's details, recordings, facts) is left out.
-/

namespace FoundingSales.Meetings

open Tables

/-! ## Rows -/

inductive MeetingState
  | booked | rescheduled | cancelled | ended | held | noShow
  deriving DecidableEq

inductive AttendanceSource
  | manual | calcomNoShow | recording
  deriving DecidableEq

structure MeetingRow where
  id : Uuid
  firmId : Option Uuid
  state : MeetingState
  stateBeforeNoShow : Option MeetingState
  attendanceSource : Option AttendanceSource
  attendanceConfirmedAt : Option Instant
  attendanceConfirmedBy : Option Uuid
  calcomAbsentPending : Bool
  bookingUid : JsString
  currentBookingUid : JsString
  startsAt : Instant
  endsAt : Instant
  lastEventAt : Instant
  attendeeEmail : Option JsString
  deriving DecidableEq

/-- A booking uid a meeting has been (`meeting_booking_uids`). -/
structure AliasRow where
  bookingUid : JsString
  meetingId : Uuid
  deriving DecidableEq

abbrev MeetingTable := Table MeetingRow.id
abbrev AliasTable := Table AliasRow.bookingUid

structure MeetingsDb where
  meetings : MeetingTable
  aliases : AliasTable
  /-- The `event_id` of every delivery received. -/
  events : List JsString

def MeetingsDb.empty : MeetingsDb := ⟨Table.empty, Table.empty, []⟩

/-- `state IN ('held', 'no_show')` -/
def MeetingState.confirmed : MeetingState → Bool
  | held | noShow => true
  | _ => false

/-- `state IN ('booked', 'rescheduled', 'ended')` -/
def MeetingState.awaiting : MeetingState → Bool
  | booked | rescheduled | ended => true
  | _ => false

def isConfirmed (row : MeetingRow) : Bool := row.state.confirmed

/-- `meetings_attendance_confirmed` and `meetings_attendance_confirmer`. -/
def attendanceChecks (row : MeetingRow) : Bool :=
  row.state.confirmed == row.attendanceSource.isSome &&
    row.attendanceSource.isNone == row.attendanceConfirmedAt.isNone &&
    (row.state ≠ .held || row.attendanceSource = some .manual ||
      row.attendanceSource = some .recording) &&
    (row.state ≠ .noShow || row.attendanceSource = some .manual ||
      row.attendanceSource = some .calcomNoShow) &&
    (row.attendanceSource = some .manual) == row.attendanceConfirmedBy.isSome

/-- The conditions of the table on one row. -/
def meetingChecks (row : MeetingRow) : Bool :=
  (row.state = .noShow) == row.stateBeforeNoShow.isSome &&
    row.stateBeforeNoShow.all MeetingState.awaiting &&
    attendanceChecks row &&
    (!row.calcomAbsentPending || row.state.awaiting) &&
    row.startsAt ≤ row.endsAt

/-- `meetings_booking_uid_unique` and `meetings_current_uid_unique`. -/
def uidsFree (meetings : MeetingTable) (row : MeetingRow) : Bool :=
  meetings.rows.all fun other => other.id = row.id ||
    other.bookingUid ≠ row.bookingUid && other.currentBookingUid ≠ row.currentBookingUid

namespace MeetingsDb

def insertMeeting (row : MeetingRow) (db : MeetingsDb) : Option MeetingsDb :=
  if meetingChecks row && uidsFree db.meetings row then
    (db.meetings.insert? row).map fun meetings => { db with meetings }
  else none

/-- `UPDATE meetings SET … WHERE id = $2 AND guard RETURNING …` -/
def updateMeeting (id : Uuid) (guard : MeetingRow → Bool) (set : MeetingRow → MeetingRow)
    (db : MeetingsDb) : Option (Option MeetingRow × MeetingsDb) :=
  (db.meetings.updateRow (fun row => meetingChecks row && uidsFree db.meetings row) id guard
    set).map fun (written, meetings) => (written, { db with meetings })

/-- The meeting goes, and its aliases with it. -/
def deleteMeeting (id : Uuid) (db : MeetingsDb) : MeetingsDb :=
  ⟨db.meetings.delete id, db.aliases.filter fun row => row.meetingId ≠ id, db.events⟩

/-- `UPDATE meeting_booking_uids SET meeting_id = $3 WHERE meeting_id = $2` -/
def moveAliases (source target : Uuid) (db : MeetingsDb) : MeetingsDb :=
  let aliases := db.aliases.update (fun row => row.meetingId = source)
    (fun row => { row with meetingId := target }) fun _ => rfl
  { db with aliases }

/-- Record uids as the meeting's. A uid that is already some meeting's is left where it is. -/
def aliasMeeting (meetingId : Uuid) (uids : List (Option JsString)) (db : MeetingsDb) :
    MeetingsDb :=
  let aliases := (uids.filterMap id).foldl
    (fun aliases uid => (aliases.insert? ⟨uid, meetingId⟩).getD aliases) db.aliases
  { db with aliases }

/-- The meeting a booking uid belongs to; the two uid columns are the fallback. -/
def meetingByUid (db : MeetingsDb) (uid : JsString) : Option MeetingRow :=
  ((db.aliases.find? uid).bind fun row => db.meetings.find? row.meetingId) <|>
    (db.meetings.rows.find? fun row => row.bookingUid = uid) <|>
    db.meetings.rows.find? fun row => row.currentBookingUid = uid

end MeetingsDb

/-! ## States and confirmations -/

structure Attendance where
  source : Option AttendanceSource
  at_ : Option Instant
  by_ : Option Uuid
  deriving DecidableEq

def unconfirmed : Attendance := ⟨none, none, none⟩

def attendanceOf (row : MeetingRow) : Attendance :=
  ⟨row.attendanceSource, row.attendanceConfirmedAt, row.attendanceConfirmedBy⟩

/-- A state a write leaves, with what it remembers before a no-show and its attendance. -/
structure MeetingStateWrite where
  state : MeetingState
  before : Option MeetingState
  attendance : Attendance
  deriving DecidableEq

/-- A row's own state as a write, its attendance kept only when it is a confirmation. -/
def stateOf (row : MeetingRow) : MeetingStateWrite :=
  ⟨row.state, row.stateBeforeNoShow, if isConfirmed row then attendanceOf row else unconfirmed⟩

def byPerson (row : MeetingRow) : Bool := row.attendanceSource = some .manual

/-- A person's confirmation first; of the same kind the newest. -/
def ConfirmedBefore (left right : MeetingRow) : Prop :=
  (byPerson left = true ∧ byPerson right = false) ∨
    byPerson left = byPerson right ∧
      right.attendanceConfirmedAt.getD 0 ≤ left.attendanceConfirmedAt.getD 0

instance : DecidableRel ConfirmedBefore := fun _ _ => inferInstanceAs (Decidable (_ ∨ _))

/-- The state rows that are one meeting end with: a confirmation among them, when any is
confirmed. -/
def keepConfirmation (base : MeetingStateWrite) (rows : List MeetingRow) : MeetingStateWrite :=
  match ((rows.filter isConfirmed).insertionSort ConfirmedBefore).head? with
  | none => base
  | some confirmed => ⟨confirmed.state, confirmed.stateBeforeNoShow, attendanceOf confirmed⟩

inductive FoldConflict
  | attendeeConflict | firmConflict
  deriving DecidableEq

section Conflicts

-- the spelling attendees are compared in
variable (attendeeKey : JsString → JsString)

/-- Whether rows that look like one meeting are booked by different people. -/
def attendeesConflict (rows : List MeetingRow) : Bool :=
  (rows.filterMap fun row => row.attendeeEmail.map attendeeKey).dedup.length > 1

/-- Whether rows that look like one meeting must not be folded. -/
def foldConflict (rows : List MeetingRow) : Option FoldConflict :=
  if attendeesConflict attendeeKey rows then some .attendeeConflict
  else if (rows.filterMap MeetingRow.firmId).dedup.length > 1 then some .firmConflict
  else none

end Conflicts

/-! ## Deliveries -/

inductive CalcomAppliedTrigger
  | bookingCreated | bookingRescheduled | bookingCancelled | meetingEnded | bookingNoShowUpdated
  deriving DecidableEq

def calcomAppliedTriggers : List (JsString × CalcomAppliedTrigger) :=
  [(js "BOOKING_CREATED", .bookingCreated), (js "BOOKING_RESCHEDULED", .bookingRescheduled),
    (js "BOOKING_CANCELLED", .bookingCancelled), (js "MEETING_ENDED", .meetingEnded),
    (js "BOOKING_NO_SHOW_UPDATED", .bookingNoShowUpdated)]

structure ParsedEvent where
  trigger : JsString
  createdAt : Option Instant
  uid : Option JsString
  rescheduleUid : Option JsString
  startsAt : Option Instant
  endsAt : Option Instant
  attendeeEmail : Option JsString
  noShow : Option Bool
  deriving DecidableEq

inductive AttendeeMatch
  | matched (firmId : Uuid)
  | unmatched
  | ambiguous
  deriving DecidableEq

def AttendeeMatch.firmId : AttendeeMatch → Option Uuid
  | matched firmId => some firmId
  | unmatched | ambiguous => none

/-- A delivery with what its transaction reads of the clock and of the other tables. -/
structure Delivery where
  eventId : JsString
  event : ParsedEvent
  now : Instant
  newId : Uuid
  matching : AttendeeMatch
  deriving DecidableEq

inductive CalcomEventOutcome
  | applied | stale | ignored | unmatched | malformed
  deriving DecidableEq

structure Applied where
  outcome : CalcomEventOutcome
  meetingId : Option Uuid
  meetingState : Option MeetingState
  deriving DecidableEq

/-- `none(outcome, meeting)` -/
def noChange (outcome : CalcomEventOutcome) (meeting : Option MeetingRow) : Applied :=
  ⟨outcome, meeting.map MeetingRow.id, meeting.map MeetingRow.state⟩

def ParsedEvent.lookupUid (kind : CalcomAppliedTrigger) (event : ParsedEvent) : Option JsString :=
  if kind = .bookingRescheduled then event.rescheduleUid <|> event.uid else event.uid

/-! ## A deferred absence -/

def pendingAbsenceSet (now : Instant) (row : MeetingRow) : MeetingRow :=
  { row with
    state := .noShow
    stateBeforeNoShow := some row.state
    attendanceSource := some .calcomNoShow
    attendanceConfirmedAt := some now
    attendanceConfirmedBy := none
    calcomAbsentPending := false }

/-- Apply a deferred Cal.com absence to a meeting whose start has passed. -/
def applyPendingAbsence (now : Instant) (meeting : MeetingRow) (db : MeetingsDb) :
    Option (Option MeetingRow × MeetingsDb) :=
  if meeting.calcomAbsentPending then
    db.updateMeeting meeting.id
      (fun row => row.calcomAbsentPending && row.state.awaiting && row.startsAt ≤ now)
      (pendingAbsenceSet now)
  else some (none, db)

/-! ## Which meeting -/

/-- The meeting an event is about, and whether it takes the original's uid as its own. -/
def MeetingsDb.locate (kind : CalcomAppliedTrigger) (event : ParsedEvent) (lookupUid : JsString)
    (db : MeetingsDb) : Option (MeetingRow × Bool) :=
  match db.meetingByUid lookupUid with
  | some existing => some (existing, false)
  | none =>
    if kind = .bookingRescheduled ∧ event.uid ≠ some lookupUid then
      (event.uid.bind db.meetingByUid).map fun replacement =>
        (replacement, some replacement.bookingUid = event.uid)
    else none

/-- The identity write, and the uids a reschedule names. -/
def identify (kind : CalcomAppliedTrigger) (event : ParsedEvent) (lookupUid : JsString)
    (adoptOriginal : Bool) (existing : MeetingRow) (db : MeetingsDb) :
    Option (MeetingRow × MeetingsDb) := do
  let (existing, db) ←
    if adoptOriginal then do
      let (adopted, db) ← db.updateMeeting existing.id (fun row => some row.bookingUid = event.uid)
        fun row => { row with bookingUid := lookupUid }
      some (adopted.getD existing, db)
    else some (existing, db)
  if kind = .bookingRescheduled then
    some (existing, db.aliasMeeting existing.id [some lookupUid, event.uid])
  else some (existing, db)

/-! ## A new meeting -/

def newMeetingState (kind : CalcomAppliedTrigger) : MeetingState :=
  match kind with
  | .bookingCancelled => .cancelled
  | .bookingRescheduled => .rescheduled
  | _ => .booked

def newMeeting (delivery : Delivery) (kind : CalcomAppliedTrigger) (createdAt : Instant)
    (lookupUid : JsString) (startsAt endsAt : Instant) : MeetingRow where
  id := delivery.newId
  firmId := delivery.matching.firmId
  state := newMeetingState kind
  stateBeforeNoShow := none
  attendanceSource := none
  attendanceConfirmedAt := none
  attendanceConfirmedBy := none
  calcomAbsentPending := false
  bookingUid := lookupUid
  currentBookingUid := delivery.event.uid.getD lookupUid
  startsAt := startsAt
  endsAt := max endsAt startsAt
  lastEventAt := createdAt
  attendeeEmail := delivery.event.attendeeEmail

def openMeeting (delivery : Delivery) (kind : CalcomAppliedTrigger) (createdAt : Instant)
    (lookupUid : JsString) (db : MeetingsDb) : Option (Applied × MeetingsDb) :=
  if kind = .meetingEnded ∨ kind = .bookingNoShowUpdated then
    some (noChange .unmatched none, db)
  else
    match delivery.event.startsAt, delivery.event.endsAt with
    | some startsAt, some endsAt => do
      let meeting := newMeeting delivery kind createdAt lookupUid startsAt endsAt
      let db ← db.insertMeeting meeting
      some (noChange (if meeting.firmId.isNone then .unmatched else .applied) (some meeting),
        db.aliasMeeting meeting.id [some lookupUid, delivery.event.uid])
    | _, _ => some (noChange .malformed none, db)

/-! ## An existing meeting -/

/-- What an event makes of a meeting: nothing but a later event, or a write. -/
structure MeetingChange where
  next : Option MeetingStateWrite
  pending : Bool
  deferred : Bool
  deriving DecidableEq

/-- `started` judges the start this same write leaves. -/
def decideChange (kind : CalcomAppliedTrigger) (event : ParsedEvent) (createdAt : Instant)
    (started : Bool) (existing : MeetingRow) : MeetingChange :=
  let kept := stateOf existing
  let pending := existing.calcomAbsentPending
  match kind with
  | .bookingCreated => ⟨some kept, pending, false⟩
  | .bookingRescheduled =>
    ⟨some (if isConfirmed existing then kept else ⟨.rescheduled, none, unconfirmed⟩), false, false⟩
  | .bookingCancelled =>
    ⟨if isConfirmed existing then none else some ⟨.cancelled, none, unconfirmed⟩, false, false⟩
  | .meetingEnded =>
    ⟨if existing.state = .booked ∨ existing.state = .rescheduled then
        some ⟨.ended, none, unconfirmed⟩
      else none, pending, false⟩
  | .bookingNoShowUpdated =>
    if event.noShow = some true ∧ ¬ isConfirmed existing ∧ ¬ started then ⟨some kept, true, true⟩
    else if event.noShow = some true ∧ ¬ isConfirmed existing then
      ⟨some ⟨.noShow, some existing.state, some .calcomNoShow, some createdAt, none⟩, false, false⟩
    else if event.noShow = some false then
      if existing.state = .noShow ∧ existing.attendanceSource = some .calcomNoShow then
        ⟨some ⟨existing.stateBeforeNoShow.getD .booked, none, unconfirmed⟩, false, false⟩
      else if pending then ⟨some kept, false, false⟩
      else ⟨none, false, false⟩
    else ⟨none, pending, false⟩

/-- The parameters of the one `UPDATE` of a meeting by an event. -/
structure MeetingWrite where
  next : MeetingStateWrite
  timesChange : Bool
  startsAt : Option Instant
  endsAt : Option Instant
  currentUid : Option JsString
  lastEventAt : Instant
  pending : Bool
  deriving DecidableEq

def MeetingWrite.set (w : MeetingWrite) (row : MeetingRow) : MeetingRow :=
  { row with
    state := w.next.state
    stateBeforeNoShow := w.next.before
    attendanceSource := w.next.attendance.source
    attendanceConfirmedAt := w.next.attendance.at_
    attendanceConfirmedBy := w.next.attendance.by_
    startsAt := if w.timesChange then w.startsAt.getD row.startsAt else row.startsAt
    endsAt :=
      if w.timesChange then
        w.endsAt.elim row.endsAt fun endsAt => max endsAt (w.startsAt.getD row.startsAt)
      else row.endsAt
    currentBookingUid :=
      if w.timesChange then w.currentUid.getD row.currentBookingUid else row.currentBookingUid
    lastEventAt := max row.lastEventAt w.lastEventAt
    calcomAbsentPending := w.pending && w.next.state.awaiting }

/-- The row of the booking that a reschedule names, when it is another one. -/
def replacementOf (kind : CalcomAppliedTrigger) (event : ParsedEvent) (lookupUid : JsString)
    (existing : MeetingRow) (db : MeetingsDb) : Option MeetingRow :=
  if kind = .bookingRescheduled ∧ event.uid ≠ some lookupUid then
    (event.uid.bind db.meetingByUid).filter fun replacement => replacement.id ≠ existing.id
  else none

/-- Fold a replacement booking's early row into the meeting it replaces. -/
def foldReplacement (survivor replacement : MeetingRow) (db : MeetingsDb) : Option MeetingsDb := do
  let (_, db) ← (db.moveAliases replacement.id survivor.id).updateMeeting survivor.id
    (fun _ => true) fun row => { row with
      attendeeEmail := row.attendeeEmail <|> replacement.attendeeEmail
      firmId := row.firmId <|> replacement.firmId }
  some (db.deleteMeeting replacement.id)

/-- What the write becomes when a replacement's row is folded in: the newer row's state, and
whichever row is confirmed. -/
def afterFold (existing replacement : MeetingRow) (createdAt : Instant) (w : MeetingWrite) :
    MeetingWrite :=
  let w := if replacement.lastEventAt > createdAt then
      { w with
        next := stateOf replacement
        lastEventAt := replacement.lastEventAt
        startsAt := some replacement.startsAt
        endsAt := some replacement.endsAt
        currentUid := some replacement.currentBookingUid
        pending := replacement.calcomAbsentPending }
    else w
  { w with next := keepConfirmation w.next [existing, replacement] }

/-- The write, a deferred absence, and the aliases. -/
def writeMeeting (delivery : Delivery) (deferred : Bool) (existing : MeetingRow)
    (w : MeetingWrite) (db : MeetingsDb) : Option (Applied × MeetingsDb) := do
  let (written, db) ← db.updateMeeting existing.id (fun _ => true) w.set
  let written := written.getD existing
  let (absent, db) ← applyPendingAbsence delivery.now written db
  let updated := absent.getD written
  some (noChange (if deferred then .ignored else .applied) (some updated),
    db.aliasMeeting updated.id
      [some updated.bookingUid, some updated.currentBookingUid, delivery.event.uid])

section Events

variable (attendeeKey : JsString → JsString)

def changeMeeting (delivery : Delivery) (kind : CalcomAppliedTrigger) (createdAt : Instant)
    (lookupUid : JsString) (existing : MeetingRow) (db : MeetingsDb) :
    Option (Applied × MeetingsDb) :=
  let event := delivery.event
  let aboutCurrent := event.uid = some existing.currentBookingUid ∧ event.startsAt.isSome ∧
    event.endsAt.isSome
  let timesChange := kind = .bookingRescheduled ∨ kind = .bookingCreated ∨ aboutCurrent
  let effectiveStart := if timesChange then event.startsAt.getD existing.startsAt
    else existing.startsAt
  let change := decideChange kind event createdAt (effectiveStart ≤ delivery.now) existing
  match change.next with
  | none => do
    let (_, db) ← db.updateMeeting existing.id (fun _ => true) fun row =>
      { row with lastEventAt := max row.lastEventAt createdAt }
    let (absent, db) ← applyPendingAbsence delivery.now existing db
    some (noChange .applied (some (absent.getD existing)), db)
  | some next =>
    let w : MeetingWrite :=
      { next, timesChange, startsAt := event.startsAt, endsAt := event.endsAt
        currentUid := if kind = .bookingRescheduled then event.uid else none
        lastEventAt := if change.deferred then existing.lastEventAt else createdAt
        pending := change.pending }
    match replacementOf kind event lookupUid existing db with
    | none => writeMeeting delivery change.deferred existing w db
    | some replacement =>
      if (foldConflict attendeeKey [existing, replacement]).isSome then
        some (noChange .unmatched (some existing), db)
      else do
        let db ← foldReplacement existing replacement db
        writeMeeting delivery change.deferred existing (afterFold existing replacement createdAt w) db

def applyEvent (delivery : Delivery) (db : MeetingsDb) : Option (Applied × MeetingsDb) :=
  match calcomAppliedTriggers.lookup delivery.event.trigger with
  | none => some (noChange .ignored none, db)
  | some kind =>
    match delivery.event.createdAt, delivery.event.lookupUid kind with
    | some createdAt, some lookupUid =>
      match db.locate kind delivery.event lookupUid with
      | none => openMeeting delivery kind createdAt lookupUid db
      | some (existing, adoptOriginal) => do
        let stale := createdAt < existing.lastEventAt ∨ existing.state = .cancelled
        let (existing, db) ← identify kind delivery.event lookupUid adoptOriginal existing db
        if stale then do
          let (absent, db) ← applyPendingAbsence delivery.now existing db
          some (noChange .stale (some (absent.getD existing)), db)
        else changeMeeting attendeeKey delivery kind createdAt lookupUid existing db
    | _, _ => some (noChange .malformed none, db)

/-- Dedupe on the delivery id, and apply: `receiveCalcomEvent` and
`receiveSynthesizedCalcomEvent`. -/
def receiveCalcomEvent (delivery : Delivery) (db : MeetingsDb) :
    Option (Option Applied × MeetingsDb) :=
  if delivery.eventId ∈ db.events then some (none, db)
  else do
    let (applied, db) ← applyEvent attendeeKey delivery
      { db with events := delivery.eventId :: db.events }
    some (some applied, db)

/-! ## Rows that are one meeting -/

/-- `right.last_event_at - left.last_event_at` -/
def NewerFirst (left right : MeetingRow) : Prop := right.lastEventAt ≤ left.lastEventAt

instance : DecidableRel NewerFirst := fun _ _ => inferInstanceAs (Decidable (_ ≤ _))

def foldOthers (survivorId : Uuid) : List MeetingRow → MeetingsDb → MeetingsDb
  | [], db => db
  | other :: others, db =>
    foldOthers survivorId others ((db.moveAliases other.id survivorId).deleteMeeting other.id)

def foldSet (newest : MeetingRow) (write : MeetingStateWrite) (firmId : Option Uuid)
    (attendee : Option JsString) (pending : Bool) (row : MeetingRow) : MeetingRow :=
  { row with
    state := write.state
    stateBeforeNoShow := write.before
    attendanceSource := write.attendance.source
    attendanceConfirmedAt := write.attendance.at_
    attendanceConfirmedBy := write.attendance.by_
    startsAt := newest.startsAt
    endsAt := newest.endsAt
    currentBookingUid := newest.currentBookingUid
    lastEventAt := max row.lastEventAt newest.lastEventAt
    firmId := row.firmId <|> firmId
    attendeeEmail := row.attendeeEmail <|> attendee
    calcomAbsentPending := pending && write.state.awaiting }

/-- Join several rows that turned out to be one meeting. -/
def foldMeetings (rows : List MeetingRow) (survivorId : Uuid) (db : MeetingsDb) :
    Option MeetingsDb := do
  let survivor ← rows.find? fun row => row.id = survivorId
  let others := rows.filter fun row => row.id ≠ survivorId
  if others = [] then some db
  else if (foldConflict attendeeKey rows).isSome then none
  else
    let attendee := survivor.attendeeEmail <|> others.findSome? MeetingRow.attendeeEmail
    let newest := ((rows.insertionSort NewerFirst).head?).getD survivor
    let linked := if survivor.firmId.isNone then others.findSome? MeetingRow.firmId else none
    let write := keepConfirmation (stateOf newest) rows
    let (_, db) ← db.updateMeeting survivorId (fun _ => linked.isSome) fun row =>
      { row with firmId := linked }
    let (_, db) ← (foldOthers survivorId others db).updateMeeting survivorId (fun _ => true)
      (foldSet newest write linked attendee (rows.any MeetingRow.calcomAbsentPending))
    some (db.aliasMeeting survivorId
      (others.flatMap fun other => [some other.bookingUid, some other.currentBookingUid]))

end Events

/-! ## A person's word -/

inductive MeetingAttendanceChoice
  | attended | noShow | unconfirmed
  deriving DecidableEq

inductive AttendanceRefusal
  | meetingUnknown | meetingUnmatched | notPermitted | meetingCancelled | meetingNotStarted
  | attendanceFromCalcom | attendanceFromRecording
  deriving DecidableEq

structure AttendanceInput where
  meetingId : Uuid
  attendance : MeetingAttendanceChoice
  userId : Uuid
  /-- `decideFirmMutation` -/
  permitted : Bool
  now : Instant
  deriving DecidableEq

def attendanceSet (input : AttendanceInput) (toState : MeetingState) (before : Option MeetingState)
    (row : MeetingRow) : MeetingRow :=
  let manual := input.attendance ≠ .unconfirmed
  { row with
    state := toState
    stateBeforeNoShow := before
    attendanceSource := if manual then some .manual else none
    attendanceConfirmedAt := if manual then some input.now else none
    attendanceConfirmedBy := if manual then some input.userId else none
    calcomAbsentPending := false }

/-- What a choice makes of a meeting; `ok none` is what it already says. -/
def decideAttendance (choice : MeetingAttendanceChoice) (meeting : MeetingRow) :
    Except AttendanceRefusal (Option (MeetingState × Option MeetingState)) :=
  match choice with
  | .attended => if meeting.state = .held then .ok none else .ok (some (.held, none))
  | .noShow =>
    if meeting.state = .noShow then .ok none
    else .ok (some (.noShow, some (if meeting.state = .held then .ended else meeting.state)))
  | .unconfirmed =>
    if ¬ isConfirmed meeting then .ok none
    else if meeting.attendanceSource = some .calcomNoShow then .error .attendanceFromCalcom
    else if meeting.attendanceSource = some .recording then .error .attendanceFromRecording
    else .ok (some (.ended, none))

def setMeetingAttendance (input : AttendanceInput) (db : MeetingsDb) :
    Option (Except AttendanceRefusal MeetingRow × MeetingsDb) :=
  match db.meetings.find? input.meetingId with
  | none => some (.error .meetingUnknown, db)
  | some meeting =>
    if meeting.firmId.isNone then some (.error .meetingUnmatched, db)
    else if !input.permitted then some (.error .notPermitted, db)
    else if meeting.state = .cancelled then some (.error .meetingCancelled, db)
    else if input.now < meeting.startsAt then some (.error .meetingNotStarted, db)
    else
      match decideAttendance input.attendance meeting with
      | .error refusal => some (.error refusal, db)
      | .ok none => some (.ok meeting, db)
      | .ok (some (toState, before)) => do
        let (written, db) ← db.updateMeeting meeting.id (fun _ => true)
          (attendanceSet input toState before)
        some (.ok (written.getD meeting), db)

/-! ## Histories -/

inductive MeetingAction
  | receive (delivery : Delivery)
  | applyPendingAbsence (meetingId : Uuid) (now : Instant)
  | foldMeetings (meetingIds : List Uuid) (survivorId : Uuid)
  /-- A person confirms attendance, or absence. -/
  | confirm (attended : Bool) (meetingId userId : Uuid) (permitted : Bool) (now : Instant)
  deriving DecidableEq

def confirmInput (attended : Bool) (meetingId userId : Uuid) (permitted : Bool) (now : Instant) :
    AttendanceInput :=
  ⟨meetingId, if attended then .attended else .noShow, userId, permitted, now⟩

variable (attendeeKey : JsString → JsString) in
/-- What an action commits; a caller of a fold or of a deferred absence has read the rows
under their locks. -/
def MeetingAction.commits (db : MeetingsDb) : MeetingAction → Option MeetingsDb
  | receive delivery => (receiveCalcomEvent attendeeKey delivery db).map Prod.snd
  | applyPendingAbsence meetingId now =>
    match db.meetings.find? meetingId with
    | none => some db
    | some meeting => (Meetings.applyPendingAbsence now meeting db).map Prod.snd
  | foldMeetings meetingIds survivorId =>
    Meetings.foldMeetings attendeeKey (meetingIds.filterMap db.meetings.find?) survivorId db
  | confirm attended meetingId userId permitted now =>
    (setMeetingAttendance (confirmInput attended meetingId userId permitted now) db).map Prod.snd

variable (attendeeKey : JsString → JsString) in
/-- One transaction; one that raises changes nothing. -/
def meetingStep (db : MeetingsDb) (action : MeetingAction) : MeetingsDb :=
  (action.commits attendeeKey db).getD db

variable (attendeeKey : JsString → JsString) in
def meetingRun (actions : List MeetingAction) : MeetingsDb :=
  Runs.run (meetingStep attendeeKey) MeetingsDb.empty actions

end FoundingSales.Meetings
