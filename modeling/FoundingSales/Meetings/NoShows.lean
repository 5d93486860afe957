import FoundingSales.Meetings.Convergence

/-!
A no-show mark that Cal.com takes back. The unmark gives the meeting the state it had before
the mark; what arrived in between is kept only as far as that state and the booking's times
say it.

Proved here:
* `Holding.applyEvent`: a delivery about a meeting changes its row and no other meeting.
* `kept_run`, `cancelled_run`, `awaiting_run`: what the deliveries in between leave of a meeting
  that is confirmed, cancelled, or neither.
* `unmark_restores`: the state after the unmark, and when the mark has left no trace.
-/

namespace FoundingSales.Meetings

open Tables

/-! ## A meeting and the uid it is found by -/

/-- The meeting's row, found by `home`, whose uids no other row has. -/
structure Holding (meetingId : Uuid) (row : MeetingRow) (home : JsString) (db : MeetingsDb) :
    Prop where
  found : db.meetings.find? meetingId = some row
  checks : meetingChecks row = true
  home : db.aliases.find? home = some ⟨home, meetingId⟩
  apart : ∀ other ∈ db.meetings.rows, other.id ≠ meetingId →
    other.bookingUid ≠ row.bookingUid ∧ other.currentBookingUid ≠ row.currentBookingUid

/-- No other meeting has had the uid. -/
structure Unclaimed (meetingId : Uuid) (db : MeetingsDb) (uid : JsString) : Prop where
  rows : ∀ other ∈ db.meetings.rows, other.id ≠ meetingId →
    other.bookingUid ≠ uid ∧ other.currentBookingUid ≠ uid
  aliases : ∀ named, db.aliases.find? uid = some named → named.meetingId = meetingId

/-- Other meetings are as they were, and only this one has new uids. -/
structure Touches (meetingId : Uuid) (db db' : MeetingsDb) : Prop where
  rows : ∀ other ∈ db'.meetings.rows, other.id ≠ meetingId → other ∈ db.meetings.rows
  aliases : ∀ uid named, db'.aliases.find? uid = some named →
    db.aliases.find? uid = some named ∨ named.meetingId = meetingId
  kept : ∀ uid named, db.aliases.find? uid = some named → db'.aliases.find? uid = some named
  events : db'.events = db.events

section Holding

variable {meetingId : Uuid} {row row' : MeetingRow} {home : JsString} {db db' : MeetingsDb}

theorem Touches.refl (db : MeetingsDb) : Touches meetingId db db :=
  ⟨fun _ h _ => h, fun _ _ h => .inl h, fun _ _ h => h, rfl⟩

theorem Touches.trans {db'' : MeetingsDb} (h : Touches meetingId db db')
    (h' : Touches meetingId db' db'') : Touches meetingId db db'' where
  rows other hmem hne := h.rows other (h'.rows other hmem hne) hne
  aliases uid named hnamed := by
    rcases h'.aliases uid named hnamed with hold | hown
    · exact h.aliases uid named hold
    · exact .inr hown
  kept uid named hnamed := h'.kept uid named (h.kept uid named hnamed)
  events := h'.events.trans h.events

theorem Unclaimed.touched {uid : JsString} (h : Unclaimed meetingId db uid)
    (ht : Touches meetingId db db') : Unclaimed meetingId db' uid where
  rows other hmem hne := h.rows other (ht.rows other hmem hne) hne
  aliases named hnamed := by
    rcases ht.aliases uid named hnamed with hold | hown
    · exact h.aliases named hold
    · exact hown

theorem Holding.id (h : Holding meetingId row home db) : row.id = meetingId :=
  Table.find?_key h.found

theorem Holding.meetingByUid (h : Holding meetingId row home db) :
    db.meetingByUid home = some row := by
  simp [MeetingsDb.meetingByUid, h.home, h.found]

/-- A uid no other meeting has had finds this meeting or none. -/
theorem Unclaimed.meetingByUid {uid : JsString} (h : Unclaimed meetingId db uid)
    {found : MeetingRow} (hfound : db.meetingByUid uid = some found) : found.id = meetingId := by
  simp only [MeetingsDb.meetingByUid, Option.orElse_eq_orElse, Option.orElse_eq_or,
    Option.or_eq_some_iff] at hfound
  by_contra hne
  rcases hfound with hfound | ⟨-, hfound | ⟨-, hfound⟩⟩
  · obtain ⟨named, hnamed, hrow⟩ := Option.bind_eq_some_iff.1 hfound
    have hkey : found.id = named.meetingId := Table.find?_key hrow
    exact hne (hkey.trans (h.aliases named hnamed))
  · have huid : found.bookingUid = uid := by simpa using List.find?_some hfound
    exact (h.rows found (List.mem_of_find?_eq_some hfound) hne).1 huid
  · have huid : found.currentBookingUid = uid := by simpa using List.find?_some hfound
    exact (h.rows found (List.mem_of_find?_eq_some hfound) hne).2 huid

/-- New aliases of the meeting leave it where it is. -/
theorem Holding.alias (h : Holding meetingId row home db) (uids : List (Option JsString)) :
    Holding meetingId row home (db.aliasMeeting meetingId uids) ∧
      Touches meetingId db (db.aliasMeeting meetingId uids) := by
  refine ⟨⟨h.found, h.checks, ?_, h.apart⟩, fun _ hmem _ => hmem, ?_, ?_, rfl⟩
  · rw [find?_aliasMeeting, h.home]
    rfl
  · intro uid named hnamed
    rw [find?_aliasMeeting] at hnamed
    cases hold : db.aliases.find? uid with
    | some old =>
      rw [hold] at hnamed
      exact .inl hnamed
    | none =>
      rw [hold] at hnamed
      right
      simp only [Option.orElse_eq_orElse, Option.orElse_eq_or, Option.none_or] at hnamed
      split at hnamed
      · rw [← Option.some.inj hnamed]
      · cases hnamed
  · intro uid named hnamed
    rw [find?_aliasMeeting, hnamed]
    rfl

/-- The meeting is found by a uid that has become its own. -/
theorem Holding.rehome (h : Holding meetingId row home db) {uid : JsString}
    (huid : Unclaimed meetingId db uid) {uids : List (Option JsString)} (hmem : some uid ∈ uids) :
    Holding meetingId row uid (db.aliasMeeting meetingId uids) := by
  refine ⟨h.found, h.checks, ?_, h.apart⟩
  rw [find?_aliasMeeting]
  cases hold : db.aliases.find? uid with
  | some old =>
    have hown := huid.aliases old hold
    rw [alias_eq hold, hown]
    rfl
  | none =>
    show (if _ then _ else _) = _
    rw [if_pos hmem]

/-- A write of the row that the table's conditions admit. -/
theorem Holding.update (h : Holding meetingId row home db) (guard : MeetingRow → Bool)
    (set : MeetingRow → MeetingRow) (hset : set row = row') (hguard : guard row = true)
    (hid : row'.id = row.id) (hchecks : meetingChecks row' = true)
    (hbooking : row'.bookingUid = row.bookingUid)
    (hcurrent : row'.currentBookingUid = row.currentBookingUid ∨
      Unclaimed meetingId db row'.currentBookingUid) :
    db.updateMeeting meetingId guard set
        = some (some row', { db with meetings := db.meetings.upsert row' }) ∧
      Holding meetingId row' home { db with meetings := db.meetings.upsert row' } ∧
      Touches meetingId db { db with meetings := db.meetings.upsert row' } := by
  have hid' : row'.id = meetingId := hid.trans h.id
  have hapart : ∀ other ∈ db.meetings.rows, other.id ≠ meetingId →
      other.bookingUid ≠ row'.bookingUid ∧ other.currentBookingUid ≠ row'.currentBookingUid := by
    intro other hmem hne
    refine ⟨hbooking ▸ (h.apart other hmem hne).1, ?_⟩
    rcases hcurrent with hsame | hfree
    · exact hsame ▸ (h.apart other hmem hne).2
    · exact (hfree.rows other hmem hne).2
  have hfree : uidsFree db.meetings row' = true := by
    apply List.all_eq_true.2
    intro other hmem
    by_cases hi : other.id = meetingId
    · simp [hi, hid']
    · obtain ⟨hne, hne'⟩ := hapart other hmem hi
      simp [hne, hne']
  have hold : ∀ other ∈ (db.meetings.upsert row').rows, other.id ≠ meetingId →
      other ∈ db.meetings.rows := by
    intro other hmem hne
    rcases Table.mem_upsert.1 hmem with rfl | ⟨hmem, -⟩
    · exact absurd hid' hne
    · exact hmem
  refine ⟨updateMeeting_ok h.found hguard hset hchecks hfree,
    ⟨Table.find?_upsert_of_key hid', hchecks, h.home, ?_⟩, hold, fun _ _ hnamed => .inl hnamed,
    fun _ _ hnamed => hnamed, rfl⟩
  intro other hmem hne
  exact hapart other (hold other hmem hne) hne

/-! ## A deferred absence -/

/-- The row after a deferred absence has been looked at. -/
def afterAbsence (now : Instant) (row : MeetingRow) : MeetingRow :=
  if row.calcomAbsentPending && row.state.awaiting && row.startsAt ≤ now then
    pendingAbsenceSet now row
  else row

theorem pendingAbsenceSet_checks {now : Instant} (h : meetingChecks row = true)
    (hawaiting : row.state.awaiting = true) : meetingChecks (pendingAbsenceSet now row) = true := by
  simp only [meetingChecks, Bool.and_eq_true] at h
  simp only [meetingChecks, attendanceChecks, pendingAbsenceSet, MeetingState.confirmed]
  have hordered : row.startsAt ≤ row.endsAt := by simpa using h.2
  simp [hawaiting, hordered]

theorem Holding.absence (h : Holding meetingId row home db) (now : Instant) (seen : MeetingRow)
    (hid : seen.id = row.id) (hpending : seen.calcomAbsentPending = row.calcomAbsentPending) :
    ∃ absent db', applyPendingAbsence now seen db = some (absent, db') ∧
      (absent.getD seen).id = meetingId ∧
      Holding meetingId (afterAbsence now row) home db' ∧ Touches meetingId db db' := by
  have hid' : seen.id = meetingId := hid.trans h.id
  unfold applyPendingAbsence afterAbsence
  rw [hpending, hid']
  cases hp : row.calcomAbsentPending with
  | false => exact ⟨none, db, rfl, hid', h, .refl db⟩
  | true =>
    cases hguard : (row.state.awaiting && decide (row.startsAt ≤ now)) with
    | false =>
      refine ⟨none, db, ?_, hid', by simpa [hguard] using h, .refl db⟩
      simp [MeetingsDb.updateMeeting, Table.updateRow, h.found, hp, hguard]
    | true =>
      have hawaiting : row.state.awaiting = true := (Bool.and_eq_true_iff.1 hguard).1
      have hopen :
          (row.calcomAbsentPending && row.state.awaiting && row.startsAt ≤ now) = true := by
        simp [hp, Bool.and_eq_true_iff.1 hguard]
      obtain ⟨hupdate, hholding, htouches⟩ := h.update
        (fun row => row.calcomAbsentPending && row.state.awaiting && row.startsAt ≤ now)
        (pendingAbsenceSet now) rfl hopen rfl
        (pendingAbsenceSet_checks h.checks hawaiting) rfl (.inl rfl)
      exact ⟨_, _, hupdate, h.id, by simpa [hguard] using hholding, htouches⟩

/-! ## One delivery -/

/-- What an event writes to its meeting, a deferred absence apart. -/
def written (kind : CalcomAppliedTrigger) (delivery : Delivery) (createdAt : Instant)
    (row : MeetingRow) : MeetingRow :=
  let event := delivery.event
  let aboutCurrent := event.uid = some row.currentBookingUid ∧ event.startsAt.isSome ∧
    event.endsAt.isSome
  let timesChange := kind = .bookingRescheduled ∨ kind = .bookingCreated ∨ aboutCurrent
  let effectiveStart := if timesChange then event.startsAt.getD row.startsAt else row.startsAt
  let change := decideChange kind event createdAt (effectiveStart ≤ delivery.now) row
  match change.next with
  | none => { row with lastEventAt := max row.lastEventAt createdAt }
  | some next =>
    MeetingWrite.set
      { next, timesChange, startsAt := event.startsAt, endsAt := event.endsAt
        currentUid := if kind = .bookingRescheduled then event.uid else none
        lastEventAt := if change.deferred then row.lastEventAt else createdAt
        pending := change.pending } row

/-- What an event leaves of its meeting. -/
def rowAfter (kind : CalcomAppliedTrigger) (delivery : Delivery) (createdAt : Instant)
    (row : MeetingRow) : MeetingRow :=
  if createdAt < row.lastEventAt ∨ row.state = .cancelled then afterAbsence delivery.now row
  else afterAbsence delivery.now (written kind delivery createdAt row)

/-- The uid the booking has after an event. -/
def uidAfter (kind : CalcomAppliedTrigger) (event : ParsedEvent) (uid : JsString) : JsString :=
  if kind = .bookingRescheduled then event.uid.getD uid else uid

theorem Holding.identify (h : Holding meetingId row home db) (kind : CalcomAppliedTrigger)
    (event : ParsedEvent)
    (huid : kind = .bookingRescheduled → ∀ uid, event.uid = some uid → Unclaimed meetingId db uid) :
    ∃ db', Meetings.identify kind event home false row db = some (row, db') ∧
      Holding meetingId row (uidAfter kind event home) db' ∧ Touches meetingId db db' := by
  unfold Meetings.identify uidAfter
  by_cases hkind : kind = .bookingRescheduled
  · obtain ⟨halias, htouches⟩ := h.alias [some home, event.uid]
    refine ⟨db.aliasMeeting meetingId [some home, event.uid], ?_, ?_, htouches⟩
    · simp [hkind, h.id]
    · rw [if_pos hkind]
      cases hnew : event.uid with
      | none =>
        rw [hnew] at halias
        exact halias
      | some uid => exact h.rehome (huid hkind uid hnew) (by simp)
  · refine ⟨db, ?_, ?_, .refl db⟩
    · simp [hkind]
    · simpa [hkind] using h

/-- A write leaves the current uid, or sets the one it brings. -/
theorem MeetingWrite.set_current (w : MeetingWrite) (row : MeetingRow) :
    (w.set row).currentBookingUid = row.currentBookingUid ∨
      ∃ uid, w.currentUid = some uid ∧ (w.set row).currentBookingUid = uid := by
  simp only [MeetingWrite.set]
  cases w.timesChange with
  | false => exact .inl rfl
  | true =>
    cases hcurrent : w.currentUid with
    | none => exact .inl rfl
    | some uid => exact .inr ⟨uid, rfl, rfl⟩

theorem Holding.writeMeeting (h : Holding meetingId row home db) {delivery : Delivery}
    {deferred : Bool} {w : MeetingWrite} (hchecks : meetingChecks (w.set row) = true)
    (huid : ∀ uid, w.currentUid = some uid → Unclaimed meetingId db uid) :
    ∃ applied db', Meetings.writeMeeting delivery deferred row w db = some (applied, db') ∧
      Holding meetingId (afterAbsence delivery.now (w.set row)) home db' ∧
      Touches meetingId db db' := by
  have hcurrent : (w.set row).currentBookingUid = row.currentBookingUid ∨
      Unclaimed meetingId db (w.set row).currentBookingUid := by
    rcases w.set_current row with hsame | ⟨uid, hset, hnew⟩
    · exact .inl hsame
    · exact .inr (hnew ▸ huid uid hset)
  obtain ⟨hupdate, hholding, htouches⟩ :=
    h.update (fun _ => true) w.set rfl rfl rfl hchecks rfl hcurrent
  obtain ⟨absent, db', habsence, hid, hholding', htouches'⟩ :=
    hholding.absence delivery.now (w.set row) rfl rfl
  obtain ⟨halias, htouches''⟩ := hholding'.alias
    [some (absent.getD (w.set row)).bookingUid, some (absent.getD (w.set row)).currentBookingUid,
      delivery.event.uid]
  rw [← h.id] at hupdate
  refine ⟨noChange (if deferred then .ignored else .applied) (some (absent.getD (w.set row))), _,
    ?_, halias, htouches.trans (htouches'.trans htouches'')⟩
  simp only [Meetings.writeMeeting, hupdate, Option.bind_eq_bind, Option.bind_some,
    Option.getD_some, habsence, hid]

theorem Holding.change (attendeeKey : JsString → JsString) (h : Holding meetingId row home db)
    {kind : CalcomAppliedTrigger} {delivery : Delivery} {createdAt : Instant} {lookupUid : JsString}
    (huid : kind = .bookingRescheduled → ∀ uid, delivery.event.uid = some uid →
      Unclaimed meetingId db uid)
    (hchecks : meetingChecks (written kind delivery createdAt row) = true) :
    ∃ applied db', changeMeeting attendeeKey delivery kind createdAt lookupUid row db
        = some (applied, db') ∧
      Holding meetingId (afterAbsence delivery.now (written kind delivery createdAt row)) home
        db' ∧ Touches meetingId db db' := by
  have hreplacement : replacementOf kind delivery.event lookupUid row db = none := by
    unfold replacementOf
    split
    next hother =>
      rw [Option.filter_eq_none_iff]
      intro replacement hmem
      obtain ⟨uid, hnew, hfound⟩ := Option.bind_eq_some_iff.1 hmem
      have hsame := (huid hother.1 uid hnew).meetingByUid hfound
      simp [hsame, h.id]
    next => rfl
  unfold changeMeeting
  simp only [hreplacement]
  split
  next hnext =>
    simp only [written, hnext] at hchecks ⊢
    obtain ⟨hupdate, hholding, htouches⟩ := h.update (fun _ => true)
      (fun row => { row with lastEventAt := max row.lastEventAt createdAt }) rfl rfl rfl hchecks rfl
      (.inl rfl)
    obtain ⟨absent, db', habsence, -, hholding', htouches'⟩ := hholding.absence delivery.now
      row rfl rfl
    rw [← h.id] at hupdate
    refine ⟨noChange .applied (some (absent.getD row)), db', ?_, hholding',
      htouches.trans htouches'⟩
    rw [hupdate]
    simp [habsence]
  next next hnext =>
    simp only [written, hnext] at hchecks ⊢
    apply h.writeMeeting hchecks
    intro uid hset
    obtain ⟨hkind, hevent⟩ := Option.ite_none_right_eq_some.1 hset
    exact huid hkind uid hevent

theorem Holding.applyEvent (attendeeKey : JsString → JsString)
    (h : Holding meetingId row home db) {kind : CalcomAppliedTrigger} {delivery : Delivery}
    {createdAt : Instant}
    (hkind : calcomAppliedTriggers.lookup delivery.event.trigger = some kind)
    (hcreated : delivery.event.createdAt = some createdAt)
    (hlookup : delivery.event.lookupUid kind = some home)
    (huid : kind = .bookingRescheduled → ∀ uid, delivery.event.uid = some uid →
      Unclaimed meetingId db uid)
    (hchecks : createdAt < row.lastEventAt ∨ row.state = .cancelled ∨
      meetingChecks (written kind delivery createdAt row) = true) :
    ∃ applied db', Meetings.applyEvent attendeeKey delivery db = some (applied, db') ∧
      Holding meetingId (rowAfter kind delivery createdAt row) (uidAfter kind delivery.event home)
        db' ∧ Touches meetingId db db' := by
  obtain ⟨named, hidentify, hholding, htouches⟩ := h.identify kind delivery.event huid
  simp only [Meetings.applyEvent, hkind, hcreated, hlookup, MeetingsDb.locate, h.meetingByUid,
    hidentify, Option.bind_eq_bind, Option.bind_some]
  unfold rowAfter
  by_cases hstale : createdAt < row.lastEventAt ∨ row.state = .cancelled
  · obtain ⟨absent, db', habsence, -, hholding', htouches'⟩ :=
      hholding.absence delivery.now row rfl rfl
    simp only [if_pos hstale, habsence, Option.bind_some]
    exact ⟨_, db', rfl, hholding', htouches.trans htouches'⟩
  · have hwritten : meetingChecks (written kind delivery createdAt row) = true := by
      rw [← or_assoc] at hchecks
      exact hchecks.resolve_left hstale
    have huid' : kind = .bookingRescheduled → ∀ uid, delivery.event.uid = some uid →
        Unclaimed meetingId named uid :=
      fun hkind uid hnew => (huid hkind uid hnew).touched htouches
    obtain ⟨applied, db', hchange, hholding', htouches'⟩ :=
      hholding.change attendeeKey huid' hwritten
    simp only [if_neg hstale]
    exact ⟨applied, db', hchange, hholding', htouches.trans htouches'⟩

end Holding

/-! ## A booking's deliveries -/

/-- What the deliveries of a booking know of it: its uid, its times and its last event. -/
structure Booking where
  uid : JsString
  startsAt : Instant
  endsAt : Instant
  lastEventAt : Instant
  deriving DecidableEq

/-- The booking after an event; a reschedule is a new uid with times of its own. -/
def Booking.after (booking : Booking) (kind : CalcomAppliedTrigger) (event : ParsedEvent) :
    Booking :=
  let lastEventAt := event.createdAt.getD booking.lastEventAt
  if kind = .bookingRescheduled then
    let startsAt := event.startsAt.getD booking.startsAt
    ⟨event.uid.getD booking.uid, startsAt,
      event.endsAt.elim booking.endsAt fun endsAt => max endsAt startsAt, lastEventAt⟩
  else { booking with lastEventAt }

/-- The next event of the booking: about its uid, and with no other times than its own. -/
structure Tells (kind : CalcomAppliedTrigger) (booking : Booking) (event : ParsedEvent) :
    Prop where
  trigger : calcomAppliedTriggers.lookup event.trigger = some kind
  created : ∃ createdAt, event.createdAt = some createdAt ∧ booking.lastEventAt ≤ createdAt
  about : event.lookupUid kind = some booking.uid
  times : kind ≠ .bookingRescheduled → ∀ startsAt endsAt, event.startsAt = some startsAt →
    event.endsAt = some endsAt → startsAt = booking.startsAt ∧ max endsAt startsAt = booking.endsAt
  ordered : (booking.after kind event).startsAt ≤ (booking.after kind event).endsAt

/-- The meeting's row has the booking's uid and times. -/
structure Current (booking : Booking) (row : MeetingRow) : Prop where
  uid : row.currentBookingUid = booking.uid
  startsAt : row.startsAt = booking.startsAt
  endsAt : row.endsAt = booking.endsAt
  lastEventAt : row.lastEventAt ≤ booking.lastEventAt

/-- The row with the booking's uid and times and a state. -/
def toldRow (booking : Booking) (next : MeetingStateWrite) (pending : Bool) (row : MeetingRow) :
    MeetingRow :=
  { row with
    state := next.state
    stateBeforeNoShow := next.before
    attendanceSource := next.attendance.source
    attendanceConfirmedAt := next.attendance.at_
    attendanceConfirmedBy := next.attendance.by_
    startsAt := booking.startsAt
    endsAt := booking.endsAt
    currentBookingUid := booking.uid
    lastEventAt := booking.lastEventAt
    calcomAbsentPending := pending && next.state.awaiting }

/-- The state a row has, as a write of it. -/
def ownState (row : MeetingRow) : MeetingStateWrite :=
  ⟨row.state, row.stateBeforeNoShow, attendanceOf row⟩

section Told

variable {booking : Booking} {kind : CalcomAppliedTrigger} {delivery : Delivery}
  {createdAt : Instant} {row : MeetingRow} {next : MeetingStateWrite}

theorem toldRow_current (pending : Bool) : Current booking (toldRow booking next pending row) :=
  ⟨rfl, rfl, rfl, le_refl _⟩

theorem after_lastEventAt (hcreated : delivery.event.createdAt = some createdAt) :
    (booking.after kind delivery.event).lastEventAt = createdAt := by
  unfold Booking.after
  rw [hcreated]
  split <;> rfl

theorem Tells.newest (hcurrent : Current booking row) (htells : Tells kind booking delivery.event)
    (hcreated : delivery.event.createdAt = some createdAt) : row.lastEventAt ≤ createdAt := by
  obtain ⟨at_, hat, hle⟩ := htells.created
  have hsame : at_ = createdAt := Option.some.inj (hat.symm.trans hcreated)
  exact hcurrent.lastEventAt.trans (hsame ▸ hle)

/-- The start, the end and the uid that a write leaves are the booking's after the event. -/
theorem Tells.columns (hcurrent : Current booking row) (htells : Tells kind booking delivery.event)
    (hkind : kind ≠ .bookingCreated) {timesChange : Prop} [Decidable timesChange]
    (htimes : timesChange ↔ (kind = .bookingRescheduled ∨ kind = .bookingCreated ∨
      (delivery.event.uid = some row.currentBookingUid ∧ delivery.event.startsAt.isSome ∧
        delivery.event.endsAt.isSome))) :
    (if timesChange then delivery.event.startsAt.getD row.startsAt else row.startsAt)
        = (booking.after kind delivery.event).startsAt ∧
      (if timesChange then delivery.event.endsAt.elim row.endsAt fun endsAt =>
          max endsAt (delivery.event.startsAt.getD row.startsAt) else row.endsAt)
        = (booking.after kind delivery.event).endsAt ∧
      (if timesChange then
          (if kind = .bookingRescheduled then delivery.event.uid else none).getD
            row.currentBookingUid else row.currentBookingUid)
        = (booking.after kind delivery.event).uid := by
  by_cases hreschedule : kind = .bookingRescheduled
  · have hchange : timesChange := htimes.2 (.inl hreschedule)
    simp only [hchange, hreschedule, Booking.after, if_true, hcurrent.startsAt, hcurrent.endsAt,
      hcurrent.uid, true_and]
  · have hafter : (booking.after kind delivery.event).startsAt = booking.startsAt ∧
        (booking.after kind delivery.event).endsAt = booking.endsAt ∧
        (booking.after kind delivery.event).uid = booking.uid := by
      simp [Booking.after, hreschedule]
    obtain ⟨hstart, hend, huid⟩ := hafter
    rw [hstart, hend, huid]
    by_cases hchange : timesChange
    · obtain ⟨-, hs, he⟩ := ((htimes.1 hchange).resolve_left hreschedule).resolve_left hkind
      obtain ⟨startsAt, hs⟩ := Option.isSome_iff_exists.1 hs
      obtain ⟨endsAt, he⟩ := Option.isSome_iff_exists.1 he
      obtain ⟨hsame, hsame'⟩ := htells.times hreschedule startsAt endsAt hs he
      simp [hchange, hs, he, hsame, ← hsame', hreschedule, hcurrent.uid]
    · simp [hchange, hcurrent.startsAt, hcurrent.endsAt, hcurrent.uid]

/-- A change that is no deferred one, in the booking's own columns. -/
theorem written_some (hcurrent : Current booking row) (htells : Tells kind booking delivery.event)
    (hcreated : delivery.event.createdAt = some createdAt) (hkind : kind ≠ .bookingCreated)
    {pending : Bool}
    (hchange : decideChange kind delivery.event createdAt
      ((booking.after kind delivery.event).startsAt ≤ delivery.now) row
        = ⟨some next, pending, false⟩) :
    written kind delivery createdAt row
      = toldRow (booking.after kind delivery.event) next pending row := by
  obtain ⟨hstart, hend, huid⟩ := htells.columns hcurrent hkind Iff.rfl
  have hlast : max row.lastEventAt createdAt = createdAt :=
    max_eq_right (htells.newest hcurrent hcreated)
  unfold written
  simp only [hstart, hchange]
  unfold MeetingWrite.set toldRow
  simp only [decide_eq_true_eq, Bool.false_eq_true, if_false, hstart, hend, huid, hlast,
    after_lastEventAt hcreated]

theorem ownState_row (hcurrent : Current booking row) (hchecks : meetingChecks row = true) :
    toldRow booking (ownState row) row.calcomAbsentPending row
      = { row with lastEventAt := booking.lastEventAt } := by
  have hpending : (row.calcomAbsentPending && row.state.awaiting) = row.calcomAbsentPending := by
    cases hp : row.calcomAbsentPending with
    | false => rfl
    | true => rw [(checks_columns hchecks).1 hp]; rfl
  simp only [toldRow, ownState, attendanceOf, hpending, ← hcurrent.uid, ← hcurrent.startsAt,
    ← hcurrent.endsAt]

theorem written_none (hcurrent : Current booking row) (htells : Tells kind booking delivery.event)
    (hcreated : delivery.event.createdAt = some createdAt)
    (hreschedule : kind ≠ .bookingRescheduled) (hkind : kind ≠ .bookingCreated)
    (hchecks : meetingChecks row = true)
    (hchange : (decideChange kind delivery.event createdAt
      ((booking.after kind delivery.event).startsAt ≤ delivery.now) row).next = none) :
    written kind delivery createdAt row
      = toldRow (booking.after kind delivery.event) (ownState row) row.calcomAbsentPending row := by
  have hlast := htells.newest hcurrent hcreated
  have hafter : Current (booking.after kind delivery.event) row := by
    refine ⟨?_, ?_, ?_, (after_lastEventAt hcreated).symm ▸ hlast⟩ <;>
      simp [Booking.after, hreschedule, hcurrent.uid, hcurrent.startsAt, hcurrent.endsAt]
  have hstart := (htells.columns hcurrent hkind Iff.rfl).1
  unfold written
  simp only [hstart, hchange]
  rw [ownState_row hafter hchecks, after_lastEventAt hcreated, max_eq_right hlast]

/-! ### What passes the conditions of the table -/

theorem toldRow_own_checks (hchecks : meetingChecks row = true)
    (hordered : booking.startsAt ≤ booking.endsAt) :
    meetingChecks (toldRow booking (ownState row) row.calcomAbsentPending row) = true := by
  simp only [meetingChecks, Bool.and_eq_true] at hchecks ⊢
  obtain ⟨⟨⟨hbefore, hattendance⟩, -⟩, -⟩ := hchecks
  refine ⟨⟨⟨hbefore, hattendance⟩, ?_⟩, decide_eq_true hordered⟩
  show (!(row.calcomAbsentPending && row.state.awaiting) || row.state.awaiting) = true
  cases row.calcomAbsentPending <;> cases row.state.awaiting <;> rfl

theorem toldRow_unconfirmed_checks {state : MeetingState} (hstate : state.confirmed = false)
    (pending : Bool) (hordered : booking.startsAt ≤ booking.endsAt) :
    meetingChecks (toldRow booking ⟨state, none, unconfirmed⟩ pending row) = true := by
  have hheld : state ≠ .held := by rintro rfl; cases hstate
  have hnoShow : state ≠ .noShow := by rintro rfl; cases hstate
  simp [meetingChecks, attendanceChecks, toldRow, unconfirmed, hstate, hheld, hnoShow, hordered]
  cases state.awaiting with
  | false => exact .inl (.inr rfl)
  | true => exact .inr rfl

theorem toldRow_noShow_checks {state : MeetingState} (hstate : state.awaiting = true)
    (at_ : Instant) (hordered : booking.startsAt ≤ booking.endsAt) :
    meetingChecks (toldRow booking ⟨.noShow, some state, some .calcomNoShow, some at_, none⟩ false
      row) = true := by
  simp [meetingChecks, attendanceChecks, toldRow, hstate, hordered, MeetingState.confirmed]

theorem afterAbsence_idle {now : Instant} (h : row.calcomAbsentPending = false) :
    afterAbsence now row = row := by
  simp [afterAbsence, h]

theorem afterAbsence_toldRow {now : Instant} :
    afterAbsence now (toldRow booking next false row) = toldRow booking next false row :=
  afterAbsence_idle rfl

end Told

/-! ## Receiving them -/

/-- Deliveries not seen before, whose uids no other meeting has had. -/
structure Fresh (meetingId : Uuid) (db : MeetingsDb) (deliveries : List Delivery) : Prop where
  distinct : (deliveries.map Delivery.eventId).Nodup
  unseen : ∀ delivery ∈ deliveries, delivery.eventId ∉ db.events
  uids : ∀ delivery ∈ deliveries, ∀ uid, delivery.event.uid = some uid →
    Unclaimed meetingId db uid

/-- The meetings after deliveries. -/
def received (attendeeKey : JsString → JsString) (deliveries : List Delivery) (db : MeetingsDb) :
    MeetingsDb :=
  Runs.run (meetingStep attendeeKey) db (deliveries.map MeetingAction.receive)

section Receiving

variable (attendeeKey : JsString → JsString) {meetingId : Uuid} {row : MeetingRow}
  {booking booking' : Booking} {kind : CalcomAppliedTrigger} {delivery : Delivery}
  {deliveries : List Delivery} {createdAt : Instant} {db : MeetingsDb}

theorem uidAfter_eq (event : ParsedEvent) :
    uidAfter kind event booking.uid = (booking.after kind event).uid := by
  unfold uidAfter Booking.after
  split <;> rfl

theorem Holding.received (h : Holding meetingId row booking.uid db)
    (htells : Tells kind booking delivery.event)
    (hcreated : delivery.event.createdAt = some createdAt)
    (hfresh : Fresh meetingId db (delivery :: deliveries))
    (hchecks : createdAt < row.lastEventAt ∨ row.state = .cancelled ∨
      meetingChecks (written kind delivery createdAt row) = true) :
    Holding meetingId (rowAfter kind delivery createdAt row)
        (booking.after kind delivery.event).uid (meetingStep attendeeKey db (.receive delivery)) ∧
      Fresh meetingId (meetingStep attendeeKey db (.receive delivery)) deliveries := by
  have hunseen := hfresh.unseen delivery List.mem_cons_self
  have hseen :
      Holding meetingId row booking.uid { db with events := delivery.eventId :: db.events } :=
    ⟨h.found, h.checks, h.home, h.apart⟩
  have huid : kind = .bookingRescheduled → ∀ uid, delivery.event.uid = some uid →
      Unclaimed meetingId { db with events := delivery.eventId :: db.events } uid := by
    intro _ uid hnew
    have hfree := hfresh.uids delivery List.mem_cons_self uid hnew
    exact ⟨hfree.rows, hfree.aliases⟩
  obtain ⟨applied, db', happly, hholding, htouches⟩ :=
    hseen.applyEvent attendeeKey htells.trigger hcreated htells.about huid hchecks
  have hstep : meetingStep attendeeKey db (.receive delivery) = db' := by
    simp [meetingStep, MeetingAction.commits, receiveCalcomEvent, hunseen, happly]
  rw [hstep, ← uidAfter_eq]
  refine ⟨hholding, ?_, ?_, ?_⟩
  · exact (List.nodup_cons.1 hfresh.distinct).2
  · intro other hmem
    rw [htouches.events, List.mem_cons, not_or]
    constructor
    · intro hsame
      exact (List.nodup_cons.1 hfresh.distinct).1 (hsame ▸ List.mem_map_of_mem hmem)
    · exact hfresh.unseen other (List.mem_cons_of_mem _ hmem)
  · intro other hmem uid hnew
    have hfree := hfresh.uids other (List.mem_cons_of_mem _ hmem) uid hnew
    have hfree' : Unclaimed meetingId { db with events := delivery.eventId :: db.events } uid :=
      ⟨hfree.rows, hfree.aliases⟩
    exact hfree'.touched htouches

/-- A delivery about a meeting that is not cancelled. -/
theorem Holding.told (h : Holding meetingId row booking.uid db)
    (hcurrent : Current booking row) (htells : Tells kind booking delivery.event)
    (hcreated : delivery.event.createdAt = some createdAt)
    (hfresh : Fresh meetingId db (delivery :: deliveries)) (hstate : row.state ≠ .cancelled)
    {row' : MeetingRow} (hwritten : written kind delivery createdAt row = row')
    (hchecks : meetingChecks row' = true) :
    Holding meetingId (afterAbsence delivery.now row') (booking.after kind delivery.event).uid
        (meetingStep attendeeKey db (.receive delivery)) ∧
      Fresh meetingId (meetingStep attendeeKey db (.receive delivery)) deliveries := by
  have hnewest := htells.newest hcurrent hcreated
  have hstale : ¬ (createdAt < row.lastEventAt ∨ row.state = .cancelled) := by
    rintro (hold | hcancelled)
    · exact absurd hold (not_lt.2 hnewest)
    · exact hstate hcancelled
  have hreceived := h.received attendeeKey htells hcreated hfresh
    (.inr (.inr (hwritten ▸ hchecks)))
  unfold rowAfter at hreceived
  rw [if_neg hstale, hwritten] at hreceived
  exact hreceived

/-! ## The deliveries between a mark and its unmark -/

/-- The events that may come while a mark stands. -/
def Interim (kind : CalcomAppliedTrigger) : Prop :=
  kind = .meetingEnded ∨ kind = .bookingRescheduled ∨ kind = .bookingCancelled

/-- Deliveries of the booking in the order its events were made, and the booking after them. -/
inductive Follows : Booking → List Delivery → Booking → Prop
  | nil (booking : Booking) : Follows booking [] booking
  | cons {booking booking' : Booking} {delivery : Delivery} {deliveries : List Delivery}
      (kind : CalcomAppliedTrigger) (interim : Interim kind)
      (tells : Tells kind booking delivery.event)
      (follows : Follows (booking.after kind delivery.event) deliveries booking') :
      Follows booking (delivery :: deliveries) booking'

theorem received_cons (delivery : Delivery) (deliveries : List Delivery) (db : MeetingsDb) :
    received attendeeKey (delivery :: deliveries) db
      = received attendeeKey deliveries (meetingStep attendeeKey db (.receive delivery)) := rfl

theorem decideChange_kept {started : Bool} (hconfirmed : row.state.confirmed = true)
    (hinterim : Interim kind) :
    (kind = .bookingRescheduled ∧ decideChange kind delivery.event createdAt started row
        = ⟨some (ownState row), false, false⟩) ∨
      kind ≠ .bookingRescheduled ∧ kind ≠ .bookingCreated ∧
        (decideChange kind delivery.event createdAt started row).next = none := by
  have hrow : isConfirmed row = true := hconfirmed
  have hbooked : ¬ (row.state = .booked ∨ row.state = .rescheduled) := by
    rintro (hstate | hstate) <;> rw [hstate] at hconfirmed <;> cases hconfirmed
  rcases hinterim with rfl | rfl | rfl
  · exact .inr (by simp [decideChange, hbooked])
  · exact .inl (by simp [decideChange, hrow, stateOf, ownState])
  · exact .inr (by simp [decideChange, hrow])

/-- A confirmed meeting takes nothing but the booking's times. -/
theorem Holding.kept (h : Holding meetingId row booking.uid db) (hcurrent : Current booking row)
    (hconfirmed : row.state.confirmed = true)
    (hkept : ∀ createdAt started,
      (kind = .bookingRescheduled ∧ decideChange kind delivery.event createdAt started row
          = ⟨some (ownState row), false, false⟩) ∨
        kind ≠ .bookingRescheduled ∧ kind ≠ .bookingCreated ∧
          (decideChange kind delivery.event createdAt started row).next = none)
    (htells : Tells kind booking delivery.event)
    (hfresh : Fresh meetingId db (delivery :: deliveries)) :
    Holding meetingId (toldRow (booking.after kind delivery.event) (ownState row) false row)
        (booking.after kind delivery.event).uid (meetingStep attendeeKey db (.receive delivery)) ∧
      Fresh meetingId (meetingStep attendeeKey db (.receive delivery)) deliveries := by
  obtain ⟨createdAt, hcreated, -⟩ := htells.created
  have hstate : row.state ≠ .cancelled := by
    intro hcancelled
    rw [hcancelled] at hconfirmed
    cases hconfirmed
  have hpending : row.calcomAbsentPending = false := by
    cases hp : row.calcomAbsentPending with
    | false => rfl
    | true =>
      have hawaiting := (checks_columns h.checks).1 hp
      rw [confirmed_of_awaiting hawaiting] at hconfirmed
      cases hconfirmed
  have hwritten : written kind delivery createdAt row
      = toldRow (booking.after kind delivery.event) (ownState row) false row := by
    rcases hkept createdAt _ with ⟨hkind, hchange⟩ | ⟨hkind, hkind', hchange⟩
    · exact written_some hcurrent htells hcreated (by simp [hkind]) hchange
    · rw [written_none hcurrent htells hcreated hkind hkind' h.checks hchange, hpending]
  have hchecks := toldRow_own_checks h.checks htells.ordered
  rw [hpending] at hchecks
  have htold := h.told attendeeKey hcurrent htells hcreated hfresh hstate hwritten hchecks
  rw [afterAbsence_toldRow] at htold
  exact htold

theorem kept_run {rest : List Delivery} (hfollows : Follows booking deliveries booking')
    (h : Holding meetingId row booking.uid db) (hcurrent : Current booking row)
    (hconfirmed : row.state.confirmed = true) (hfresh : Fresh meetingId db (deliveries ++ rest)) :
    ∃ row', Holding meetingId row' booking'.uid (received attendeeKey deliveries db) ∧
      ownState row' = ownState row ∧ Current booking' row' ∧
      Fresh meetingId (received attendeeKey deliveries db) rest := by
  induction hfollows generalizing row db with
  | nil booking => exact ⟨row, h, rfl, hcurrent, hfresh⟩
  | cons kind hinterim htells hfollows ih =>
    obtain ⟨hholding, hfresh'⟩ := h.kept attendeeKey hcurrent hconfirmed
      (fun _ _ => decideChange_kept hconfirmed hinterim) htells hfresh
    have hrun := ih hholding (toldRow_current false) hconfirmed hfresh'
    exact hrun

/-- A cancelled meeting takes nothing. -/
theorem Holding.cancelled (h : Holding meetingId row booking.uid db)
    (hstate : row.state = .cancelled) (htells : Tells kind booking delivery.event)
    (hfresh : Fresh meetingId db (delivery :: deliveries)) :
    Holding meetingId row (booking.after kind delivery.event).uid
        (meetingStep attendeeKey db (.receive delivery)) ∧
      Fresh meetingId (meetingStep attendeeKey db (.receive delivery)) deliveries := by
  obtain ⟨createdAt, hcreated, -⟩ := htells.created
  have hpending : row.calcomAbsentPending = false := by
    cases hp : row.calcomAbsentPending with
    | false => rfl
    | true =>
      have hawaiting := (checks_columns h.checks).1 hp
      rw [hstate] at hawaiting
      cases hawaiting
  have hreceived := h.received attendeeKey htells hcreated hfresh (.inr (.inl hstate))
  unfold rowAfter at hreceived
  rw [if_pos (.inr hstate), afterAbsence_idle hpending] at hreceived
  exact hreceived

theorem cancelled_run {rest : List Delivery} (hfollows : Follows booking deliveries booking')
    (h : Holding meetingId row booking.uid db) (hstate : row.state = .cancelled)
    (hfresh : Fresh meetingId db (deliveries ++ rest)) :
    Holding meetingId row booking'.uid (received attendeeKey deliveries db) ∧
      Fresh meetingId (received attendeeKey deliveries db) rest := by
  induction hfollows generalizing db with
  | nil booking => exact ⟨h, hfresh⟩
  | cons kind hinterim htells hfollows ih =>
    obtain ⟨hholding, hfresh'⟩ := h.cancelled attendeeKey hstate htells hfresh
    exact ih hholding hfresh'

/-! ### A meeting that nothing confirms -/

/-- The state an event tells of, the meeting's own where it tells of none. -/
def toldState (kind : Option CalcomAppliedTrigger) (state : MeetingState) : MeetingState :=
  match kind with
  | some .meetingEnded => .ended
  | some .bookingRescheduled => .rescheduled
  | some .bookingCancelled => .cancelled
  | _ => state

/-- The state the last of the deliveries tells of. -/
def lastState (state : MeetingState) (deliveries : List Delivery) : MeetingState :=
  deliveries.foldl
    (fun state delivery => toldState (calcomAppliedTriggers.lookup delivery.event.trigger) state)
    state

/-- No delivery cancels the booking; and where an absence waits for the start, the first of
them moves the booking. -/
def StaysOpen (pending : Bool) (deliveries : List Delivery) : Prop :=
  (∀ delivery ∈ deliveries,
      calcomAppliedTriggers.lookup delivery.event.trigger ≠ some .bookingCancelled) ∧
    (pending = true → ∀ delivery ∈ deliveries.head?,
      calcomAppliedTriggers.lookup delivery.event.trigger = some .bookingRescheduled)

theorem ownState_awaiting (hchecks : meetingChecks row = true)
    (hawaiting : row.state.awaiting = true) : ownState row = ⟨row.state, none, unconfirmed⟩ := by
  have hconfirmed := confirmed_of_awaiting hawaiting
  obtain ⟨-, hsource, hat, hby⟩ := checks_columns hchecks
  rw [hconfirmed] at hsource hat
  have hsource' : row.attendanceSource = none := by simpa using hsource
  have hat' : row.attendanceConfirmedAt = none := by simpa using hat
  have hby' : row.attendanceConfirmedBy = none := by simpa [byPerson, hsource'] using hby
  have hbefore : row.stateBeforeNoShow = none := by
    have hnoShow : row.state ≠ .noShow := by
      intro hstate
      rw [hstate] at hawaiting
      cases hawaiting
    simp only [meetingChecks, Bool.and_eq_true, beq_iff_eq] at hchecks
    have hsome := hchecks.1.1.1.1
    simpa [hnoShow] using hsome.symm
  simp only [ownState, attendanceOf, unconfirmed, hsource', hat', hby', hbefore]

/-- A delivery that gives the meeting a state, with no absence left to wait. -/
theorem Holding.settled (h : Holding meetingId row booking.uid db) (hcurrent : Current booking row)
    (hawaiting : row.state ≠ .cancelled) (htells : Tells kind booking delivery.event)
    (hcreated : delivery.event.createdAt = some createdAt)
    (hfresh : Fresh meetingId db (delivery :: deliveries)) (hkind : kind ≠ .bookingCreated)
    (next : MeetingStateWrite)
    (hchange : decideChange kind delivery.event createdAt
      ((booking.after kind delivery.event).startsAt ≤ delivery.now) row
        = ⟨some next, false, false⟩)
    (hchecks : meetingChecks (toldRow (booking.after kind delivery.event) next false row) = true) :
    Holding meetingId (toldRow (booking.after kind delivery.event) next false row)
        (booking.after kind delivery.event).uid (meetingStep attendeeKey db (.receive delivery)) ∧
      Fresh meetingId (meetingStep attendeeKey db (.receive delivery)) deliveries := by
  have hwritten := written_some hcurrent htells hcreated hkind hchange
  have htold := h.told attendeeKey hcurrent htells hcreated hfresh hawaiting hwritten hchecks
  rw [afterAbsence_toldRow] at htold
  exact htold

/-- The end of a meeting that nothing confirms: an absence that was waiting is applied. -/
theorem Holding.ended (h : Holding meetingId row booking.uid db) (hcurrent : Current booking row)
    (hawaiting : row.state.awaiting = true) (htells : Tells .meetingEnded booking delivery.event)
    (hfresh : Fresh meetingId db (delivery :: deliveries)) :
    Holding meetingId
        (afterAbsence delivery.now (toldRow (booking.after .meetingEnded delivery.event)
          ⟨.ended, none, unconfirmed⟩ row.calcomAbsentPending row))
        (booking.after .meetingEnded delivery.event).uid
        (meetingStep attendeeKey db (.receive delivery)) ∧
      Fresh meetingId (meetingStep attendeeKey db (.receive delivery)) deliveries := by
  obtain ⟨createdAt, hcreated, -⟩ := htells.created
  have hstate : row.state ≠ .cancelled := by
    intro hcancelled
    rw [hcancelled] at hawaiting
    cases hawaiting
  apply h.told attendeeKey hcurrent htells hcreated hfresh hstate
  · by_cases hbooked : row.state = .booked ∨ row.state = .rescheduled
    · apply written_some hcurrent htells hcreated (by simp)
      simp [decideChange, hbooked]
    · have hended : row.state = .ended := by
        cases hrow : row.state <;> simp_all [MeetingState.awaiting]
      rw [written_none hcurrent htells hcreated (by simp) (by simp) h.checks
        (by simp [decideChange, hbooked]), ownState_awaiting h.checks hawaiting, hended]
  · exact toldRow_unconfirmed_checks rfl _ htells.ordered

theorem lastState_cons (state : MeetingState) (delivery : Delivery) (deliveries : List Delivery) :
    lastState state (delivery :: deliveries)
      = lastState (toldState (calcomAppliedTriggers.lookup delivery.event.trigger) state)
          deliveries := rfl

theorem staysOpen_cons (hkind : calcomAppliedTriggers.lookup delivery.event.trigger = some kind)
    (pending : Bool) :
    StaysOpen pending (delivery :: deliveries) ↔
      kind ≠ .bookingCancelled ∧ (pending = true → kind = .bookingRescheduled) ∧
        StaysOpen false deliveries := by
  simp only [StaysOpen, List.forall_mem_cons, hkind, ne_eq, Option.some.injEq, List.head?_cons,
    Option.mem_def, forall_eq', Bool.false_eq_true, false_implies, and_true]
  constructor
  · rintro ⟨⟨hne, hrest⟩, hpending⟩
    exact ⟨hne, hpending, hrest⟩
  · rintro ⟨hne, hpending, hrest⟩
    exact ⟨⟨hne, hrest⟩, hpending⟩

/-- What deliveries leave of a meeting that nothing confirms: it stays so unless they cancel it
or an absence that was waiting comes true. -/
theorem awaiting_run (hfollows : Follows booking deliveries booking')
    (h : Holding meetingId row booking.uid db) (hcurrent : Current booking row)
    (hawaiting : row.state.awaiting = true) (hfresh : Fresh meetingId db deliveries)
    (hlater : row.calcomAbsentPending = true → ∀ delivery ∈ deliveries,
      booking.startsAt ≤ delivery.now) :
    ∃ row', Holding meetingId row' booking'.uid (received attendeeKey deliveries db) ∧
      (row'.state.awaiting = true ↔ StaysOpen row.calcomAbsentPending deliveries) ∧
      (row'.state.awaiting = true → row'.state = lastState row.state deliveries ∧
        Current booking' row') := by
  induction hfollows generalizing row db with
  | nil booking =>
    refine ⟨row, h, ?_, fun _ => ⟨rfl, hcurrent⟩⟩
    simp [hawaiting, StaysOpen]
  | @cons booking booking' delivery deliveries kind hinterim htells hfollows ih =>
    obtain ⟨createdAt, hcreated, -⟩ := htells.created
    have hstate : row.state ≠ .cancelled := by
      intro hcancelled
      rw [hcancelled] at hawaiting
      cases hawaiting
    have hunconfirmed : isConfirmed row = false := confirmed_of_awaiting hawaiting
    rw [lastState_cons, htells.trigger, staysOpen_cons htells.trigger, received_cons]
    rcases hinterim with rfl | rfl | rfl
    · obtain ⟨hholding, hfresh'⟩ := h.ended attendeeKey hcurrent hawaiting htells hfresh
      cases hpending : row.calcomAbsentPending with
      | false =>
        rw [hpending, afterAbsence_toldRow] at hholding
        have hrun := ih hholding (toldRow_current false) rfl hfresh' (by simp [toldRow])
        simpa [toldRow, toldState] using hrun
      | true =>
        have hstarted : booking.startsAt ≤ delivery.now :=
          hlater hpending delivery List.mem_cons_self
        rw [hpending] at hholding
        have habsent : afterAbsence delivery.now (toldRow (booking.after .meetingEnded
              delivery.event) ⟨.ended, none, unconfirmed⟩ true row)
            = pendingAbsenceSet delivery.now (toldRow (booking.after .meetingEnded
              delivery.event) ⟨.ended, none, unconfirmed⟩ true row) := by
          apply if_pos
          simpa [toldRow, MeetingState.awaiting, Booking.after] using hstarted
        rw [habsent] at hholding
        obtain ⟨row', hrow', hown, -⟩ := kept_run attendeeKey hfollows hholding
          ⟨rfl, rfl, rfl, le_refl _⟩ rfl ((List.append_nil deliveries).symm ▸ hfresh')
        have hnoShow : row'.state = .noShow := congrArg MeetingStateWrite.state hown
        refine ⟨row', hrow', ?_, ?_⟩
        · simp [hnoShow, MeetingState.awaiting]
        · intro hopen
          rw [hnoShow] at hopen
          cases hopen
    · obtain ⟨hholding, hfresh'⟩ := h.settled attendeeKey hcurrent hstate htells hcreated hfresh
        (by simp) ⟨.rescheduled, none, unconfirmed⟩
        (by simp [decideChange, hunconfirmed])
        (toldRow_unconfirmed_checks rfl _ htells.ordered)
      have hrun := ih hholding (toldRow_current false) rfl hfresh' (by simp [toldRow])
      simpa [toldRow, toldState] using hrun
    · obtain ⟨hholding, hfresh'⟩ := h.settled attendeeKey hcurrent hstate htells hcreated hfresh
        (by simp) ⟨.cancelled, none, unconfirmed⟩
        (by simp [decideChange, hunconfirmed])
        (toldRow_unconfirmed_checks rfl _ htells.ordered)
      have hrun := cancelled_run attendeeKey hfollows hholding rfl
        ((List.append_nil deliveries).symm ▸ hfresh')
      refine ⟨_, hrun.1, ?_, ?_⟩
      · simp [toldRow, MeetingState.awaiting]
      · intro hopen
        cases hopen

/-! ## A mark and its unmark -/

/-- A mark after the start, its unmark, and what the booking's deliveries bring in between. -/
structure Retraction (meetingId : Uuid) (row : MeetingRow) (booking booking' : Booking)
    (mark : Delivery) (between : List Delivery) (unmark : Delivery) (db : MeetingsDb) : Prop where
  holding : Holding meetingId row booking.uid db
  person : byPerson row = false
  current : row.state ≠ .cancelled → Current booking row
  markTold : Tells .bookingNoShowUpdated booking mark.event
  marks : mark.event.noShow = some true
  started : booking.startsAt ≤ mark.now
  follows : Follows (booking.after .bookingNoShowUpdated mark.event) between booking'
  later : ∀ delivery ∈ between, mark.now ≤ delivery.now
  unmarkTold : Tells .bookingNoShowUpdated booking' unmark.event
  unmarks : unmark.event.noShow = some false
  fresh : Fresh meetingId db (mark :: (between ++ [unmark]))

/-- The same state, attendance and times. -/
def SameShown (row row' : MeetingRow) : Prop :=
  sameDecision row row' ∧ row.startsAt = row'.startsAt ∧ row.endsAt = row'.endsAt

/-- Nothing in between but what leaves the state the meeting had; a meeting that is cancelled,
or that a recording has held, has no mark to take back. -/
def NoTrace (row : MeetingRow) (between : List Delivery) : Prop :=
  row.state = .cancelled ∨ row.state = .held ∨
    row.state.awaiting = true ∧ StaysOpen row.calcomAbsentPending between ∧
      lastState row.state between = row.state

theorem Retraction.booking_eq {mark unmark : Delivery} {between : List Delivery}
    (h : Retraction meetingId row booking booking' mark between unmark db) :
    (booking.after .bookingNoShowUpdated mark.event).uid = booking.uid ∧
      (booking.after .bookingNoShowUpdated mark.event).startsAt = booking.startsAt ∧
      (row.state ≠ .cancelled →
        Current (booking.after .bookingNoShowUpdated mark.event) row) := by
  refine ⟨rfl, rfl, fun hstate => ?_⟩
  obtain ⟨createdAt, hcreated, -⟩ := h.markTold.created
  have hcurrent := h.current hstate
  refine ⟨hcurrent.uid, hcurrent.startsAt, hcurrent.endsAt, ?_⟩
  rw [after_lastEventAt hcreated]
  exact h.markTold.newest hcurrent hcreated

theorem received_retraction (mark unmark : Delivery) (between : List Delivery) :
    received attendeeKey (mark :: (between ++ [unmark])) db
      = meetingStep attendeeKey
          (received attendeeKey between (meetingStep attendeeKey db (.receive mark)))
          (.receive unmark) := by
  simp [received, Runs.run_append]

theorem Fresh.between {mark unmark : Delivery} {between : List Delivery}
    (h : Fresh meetingId db (mark :: (between ++ [unmark]))) :
    Fresh meetingId db (between ++ []) := by
  have hsub : List.Sublist between (mark :: (between ++ [unmark])) :=
    (List.sublist_append_left between [unmark]).trans (List.sublist_cons_self _ _)
  rw [List.append_nil]
  exact ⟨h.distinct.sublist (hsub.map _), fun d hd => h.unseen d (hsub.subset hd),
    fun d hd => h.uids d (hsub.subset hd)⟩

section Retracting

variable {mark unmark : Delivery} {between : List Delivery}

/-- A cancelled meeting, with the mark and without it. -/
theorem retraction_cancelled (h : Retraction meetingId row booking booking' mark between unmark db)
    (hstate : row.state = .cancelled) :
    (received attendeeKey (mark :: (between ++ [unmark])) db).meetings.find? meetingId = some row ∧
      (received attendeeKey between db).meetings.find? meetingId = some row := by
  obtain ⟨hholding, hfresh⟩ := h.holding.cancelled attendeeKey hstate h.markTold h.fresh
  obtain ⟨hholding', hfresh'⟩ := cancelled_run attendeeKey h.follows hholding hstate hfresh
  obtain ⟨hmarked, -⟩ := hholding'.cancelled attendeeKey hstate h.unmarkTold hfresh'
  obtain ⟨hunmarked, -⟩ := cancelled_run attendeeKey h.follows h.holding hstate h.fresh.between
  rw [received_retraction]
  exact ⟨hmarked.found, hunmarked.found⟩

theorem decideChange_marked {started : Bool} (hconfirmed : row.state.confirmed = true)
    (hmarks : delivery.event.noShow = some true) :
    (decideChange .bookingNoShowUpdated delivery.event createdAt started row).next = none := by
  have hrow : isConfirmed row = true := hconfirmed
  simp [decideChange, hrow, hmarks]

/-- A confirmed meeting up to the unmark, with the mark and without it. -/
theorem retraction_kept (h : Retraction meetingId row booking booking' mark between unmark db)
    (hconfirmed : row.state.confirmed = true) :
    ∃ row' unmarked, Holding meetingId row' booking'.uid
        (received attendeeKey between (meetingStep attendeeKey db (.receive mark))) ∧
      Fresh meetingId (received attendeeKey between (meetingStep attendeeKey db (.receive mark)))
        [unmark] ∧
      ownState row' = ownState row ∧ Current booking' row' ∧
      (received attendeeKey between db).meetings.find? meetingId = some unmarked ∧
      ownState unmarked = ownState row ∧ Current booking' unmarked := by
  have hstate : row.state ≠ .cancelled := by
    intro hcancelled
    rw [hcancelled] at hconfirmed
    cases hconfirmed
  obtain ⟨hholding, hfresh⟩ := h.holding.kept attendeeKey (h.current hstate) hconfirmed
    (fun _ _ => .inr ⟨by simp, by simp, decideChange_marked hconfirmed h.marks⟩) h.markTold h.fresh
  obtain ⟨row', hrow', hown, hcurrent, hfresh'⟩ :=
    kept_run attendeeKey h.follows hholding (toldRow_current false) hconfirmed hfresh
  obtain ⟨unmarked, hunmarked, hown', hcurrent', -⟩ := kept_run attendeeKey h.follows h.holding
    (h.booking_eq.2.2 hstate) hconfirmed h.fresh.between
  exact ⟨row', unmarked, hrow', hfresh', hown, hcurrent, hunmarked.found, hown', hcurrent'⟩

/-- The unmark of a mark of Cal.com's. -/
theorem Holding.retracted (h : Holding meetingId row booking.uid db)
    (hcurrent : Current booking row) (hstate : row.state = .noShow)
    (hsource : row.attendanceSource = some .calcomNoShow)
    (htells : Tells .bookingNoShowUpdated booking delivery.event)
    (hunmarks : delivery.event.noShow = some false)
    (hfresh : Fresh meetingId db (delivery :: deliveries)) :
    Holding meetingId
      (toldRow (booking.after .bookingNoShowUpdated delivery.event)
        ⟨row.stateBeforeNoShow.getD .booked, none, unconfirmed⟩ false row)
      booking.uid (meetingStep attendeeKey db (.receive delivery)) := by
  obtain ⟨createdAt, hcreated, -⟩ := htells.created
  have hbefore : (row.stateBeforeNoShow.getD .booked).confirmed = false := by
    have hchecks := h.checks
    simp only [meetingChecks, Bool.and_eq_true] at hchecks
    have hall := hchecks.1.1.1.2
    cases hb : row.stateBeforeNoShow with
    | none => rfl
    | some state =>
      rw [hb] at hall
      exact confirmed_of_awaiting hall
  refine (h.settled attendeeKey hcurrent (by simp [hstate]) htells hcreated hfresh (by simp) _ ?_
    (toldRow_unconfirmed_checks hbefore false htells.ordered)).1
  simp [decideChange, hunmarks, hstate, hsource]

/-- A mark after the start of a meeting that nothing confirms. -/
theorem retraction_awaiting (h : Retraction meetingId row booking booking' mark between unmark db)
    (hawaiting : row.state.awaiting = true) :
    ∃ marked, (received attendeeKey (mark :: (between ++ [unmark])) db).meetings.find? meetingId
        = some marked ∧ ownState marked = ⟨row.state, none, unconfirmed⟩ ∧
      marked.startsAt = booking'.startsAt ∧ marked.endsAt = booking'.endsAt := by
  have hstate : row.state ≠ .cancelled := by
    intro hcancelled
    rw [hcancelled] at hawaiting
    cases hawaiting
  have hunconfirmed : isConfirmed row = false := confirmed_of_awaiting hawaiting
  obtain ⟨createdAt, hcreated, -⟩ := h.markTold.created
  have hstarted : (booking.after .bookingNoShowUpdated mark.event).startsAt ≤ mark.now := h.started
  obtain ⟨hholding, hfresh⟩ := h.holding.settled attendeeKey (h.current hstate) hstate h.markTold
    hcreated h.fresh (by simp)
    ⟨.noShow, some row.state, some .calcomNoShow, some createdAt, none⟩
    (by simp [decideChange, h.marks, hunconfirmed, hstarted])
    (toldRow_noShow_checks hawaiting createdAt h.markTold.ordered)
  obtain ⟨row', hrow', hown, hcurrent, hfresh'⟩ :=
    kept_run attendeeKey h.follows hholding (toldRow_current false) rfl hfresh
  have hnoShow : row'.state = .noShow := congrArg MeetingStateWrite.state hown
  have hbefore : row'.stateBeforeNoShow = some row.state := congrArg MeetingStateWrite.before hown
  have hsource : row'.attendanceSource = some .calcomNoShow :=
    congrArg (fun next : MeetingStateWrite => next.attendance.source) hown
  have hmarked := hrow'.retracted attendeeKey hcurrent hnoShow hsource h.unmarkTold h.unmarks
    hfresh'
  rw [received_retraction]
  refine ⟨_, hmarked.found, ?_, rfl, rfl⟩
  simp [ownState, toldRow, attendanceOf, unconfirmed, hbefore]

/-- Without the mark, a meeting that nothing confirms. -/
theorem unretracted_awaiting (h : Retraction meetingId row booking booking' mark between unmark db)
    (hawaiting : row.state.awaiting = true) :
    ∃ unmarked, (received attendeeKey between db).meetings.find? meetingId = some unmarked ∧
      meetingChecks unmarked = true ∧
      (unmarked.state.awaiting = true ↔ StaysOpen row.calcomAbsentPending between) ∧
      (unmarked.state.awaiting = true → unmarked.state = lastState row.state between ∧
        Current booking' unmarked) := by
  have hstate : row.state ≠ .cancelled := by
    intro hcancelled
    rw [hcancelled] at hawaiting
    cases hawaiting
  have hfresh := h.fresh.between
  rw [List.append_nil] at hfresh
  obtain ⟨unmarked, hunmarked, hopen, hlast⟩ := awaiting_run attendeeKey h.follows h.holding
    (h.booking_eq.2.2 hstate) hawaiting hfresh
    fun _ delivery hmem => h.started.trans (h.later delivery hmem)
  exact ⟨unmarked, hunmarked.found, hunmarked.checks, hopen, hlast⟩

end Retracting

end Receiving

/-- A no-show no person has marked is Cal.com's. -/
theorem noShow_source {row : MeetingRow} (hchecks : meetingChecks row = true)
    (hstate : row.state = .noShow) (hperson : byPerson row = false) :
    row.attendanceSource = some .calcomNoShow := by
  simp only [meetingChecks, attendanceChecks, Bool.and_eq_true] at hchecks
  have hsource := hchecks.1.1.2.1.2
  have hmanual : row.attendanceSource ≠ some .manual := by simpa [byPerson] using hperson
  simpa [hstate, hmanual] using hsource

theorem MeetingState.kinds (state : MeetingState) :
    state = .cancelled ∨ state = .held ∨ state = .noShow ∨ state.awaiting = true := by
  cases state <;> decide

/-- After the unmark the meeting is the one it was before the mark, at the booking's times. It is
the one it would be without the mark when nothing in between made it another. -/
theorem unmark_restores (attendeeKey : JsString → JsString) (meetingId : Uuid) (row : MeetingRow)
    (booking booking' : Booking) (mark unmark : Delivery) (between : List Delivery)
    (db : MeetingsDb) (h : Retraction meetingId row booking booking' mark between unmark db) :
    ∃ marked unmarked,
      (received attendeeKey (mark :: (between ++ [unmark])) db).meetings.find? meetingId
        = some marked ∧
      (received attendeeKey between db).meetings.find? meetingId = some unmarked ∧
      (row.state.awaiting = true → marked.state = row.state ∧ attendanceOf marked = unconfirmed ∧
        marked.startsAt = booking'.startsAt ∧ marked.endsAt = booking'.endsAt) ∧
      (SameShown marked unmarked ↔ NoTrace row between) := by
  rcases row.state.kinds with hstate | hstate | hstate | hawaiting
  · obtain ⟨hmarked, hunmarked⟩ := retraction_cancelled attendeeKey h hstate
    refine ⟨row, row, hmarked, hunmarked, ?_, ?_⟩
    · intro hawaiting
      rw [hstate] at hawaiting
      cases hawaiting
    · exact ⟨fun _ => .inl hstate, fun _ => ⟨⟨rfl, rfl⟩, rfl, rfl⟩⟩
  · obtain ⟨row', unmarked, hrow', hfresh, hown, hcurrent, hunmarked, hown', hcurrent'⟩ :=
      retraction_kept attendeeKey h (by rw [hstate]; rfl)
    have hheld : row'.state = .held := (congrArg MeetingStateWrite.state hown).trans hstate
    have hpending : row'.calcomAbsentPending = false := by
      cases hp : row'.calcomAbsentPending with
      | false => rfl
      | true =>
        have hawaiting := (checks_columns hrow'.checks).1 hp
        rw [hheld] at hawaiting
        cases hawaiting
    obtain ⟨hmarked, -⟩ := hrow'.kept attendeeKey hcurrent (by rw [hheld]; rfl)
      (fun _ _ => .inr ⟨by simp, by simp, by simp [decideChange, h.unmarks, hheld, hpending]⟩)
      h.unmarkTold hfresh
    rw [received_retraction]
    refine ⟨_, unmarked, hmarked.found, hunmarked, ?_, ?_⟩
    · intro hawaiting
      rw [hstate] at hawaiting
      cases hawaiting
    · have hsame : ownState row' = ownState unmarked := hown.trans hown'.symm
      constructor
      · exact fun _ => .inr (.inl hstate)
      · exact fun _ => ⟨⟨congrArg MeetingStateWrite.state hsame,
          congrArg MeetingStateWrite.attendance hsame⟩, hcurrent'.startsAt.symm,
          hcurrent'.endsAt.symm⟩
  · obtain ⟨row', unmarked, hrow', hfresh, hown, hcurrent, hunmarked, hown', -⟩ :=
      retraction_kept attendeeKey h (by rw [hstate]; rfl)
    have hnoShow : row'.state = .noShow := (congrArg MeetingStateWrite.state hown).trans hstate
    have hnoShow' : unmarked.state = .noShow :=
      (congrArg MeetingStateWrite.state hown').trans hstate
    have hsource : row'.attendanceSource = some .calcomNoShow := by
      have hsame : row'.attendanceSource = row.attendanceSource :=
        congrArg (fun next : MeetingStateWrite => next.attendance.source) hown
      rw [hsame]
      exact noShow_source h.holding.checks hstate h.person
    have hmarked := hrow'.retracted attendeeKey hcurrent hnoShow hsource h.unmarkTold h.unmarks
      hfresh
    rw [received_retraction]
    refine ⟨_, unmarked, hmarked.found, hunmarked, ?_, ?_⟩
    · intro hawaiting
      rw [hstate] at hawaiting
      cases hawaiting
    · constructor
      · rintro ⟨⟨hsame, -⟩, -⟩
        have hchecks := hmarked.checks
        rw [hnoShow'] at hsame
        simp only [meetingChecks, Bool.and_eq_true, beq_iff_eq, hsame] at hchecks
        exact absurd hchecks.1.1.1.1 (by simp [toldRow])
      · rintro (hcancelled | hheld | ⟨hawaiting, -⟩)
        · rw [hstate] at hcancelled
          cases hcancelled
        · rw [hstate] at hheld
          cases hheld
        · rw [hstate] at hawaiting
          cases hawaiting
  · obtain ⟨marked, hmarked, hown, hstart, hend⟩ := retraction_awaiting attendeeKey h hawaiting
    obtain ⟨unmarked, hunmarked, hchecks, hopen, hlast⟩ :=
      unretracted_awaiting attendeeKey h hawaiting
    have hstate : marked.state = row.state := congrArg MeetingStateWrite.state hown
    have hattendance : attendanceOf marked = unconfirmed :=
      congrArg MeetingStateWrite.attendance hown
    refine ⟨marked, unmarked, hmarked, hunmarked, fun _ => ⟨hstate, hattendance, hstart, hend⟩, ?_⟩
    constructor
    · rintro ⟨⟨hsame, -⟩, -⟩
      have hsame' : unmarked.state = row.state := hsame.symm.trans hstate
      have hawaiting' : unmarked.state.awaiting = true := by rw [hsame', hawaiting]
      exact .inr (.inr ⟨hawaiting, hopen.1 hawaiting', (hlast hawaiting').1.symm.trans hsame'⟩)
    · rintro (hcancelled | hheld | ⟨-, hstays, hsame⟩)
      · rw [hcancelled] at hawaiting
        cases hawaiting
      · rw [hheld] at hawaiting
        cases hawaiting
      · have hawaiting' := hopen.2 hstays
        obtain ⟨hstate', hcurrent⟩ := hlast hawaiting'
        have hown' := ownState_awaiting hchecks hawaiting'
        exact ⟨⟨hstate.trans (hstate'.trans hsame).symm, hattendance.trans
          (congrArg MeetingStateWrite.attendance hown').symm⟩,
          hstart.trans hcurrent.startsAt.symm, hend.trans hcurrent.endsAt.symm⟩

/-! ### A booking cancelled while it is marked -/

/-- A delivery about one booking, made and received at `createdAt`. -/
def bookingTold (eventId trigger : JsString) (createdAt : Instant) (noShow : Option Bool) :
    Delivery where
  eventId := eventId
  event :=
    { trigger, createdAt := some createdAt, uid := some (js "booked"), rescheduleUid := none
      startsAt := some 100, endsAt := some 200, attendeeEmail := none, noShow }
  now := createdAt
  newId := js "m1"
  matching := .unmatched

def bookedOnce : MeetingsDb :=
  received id [bookingTold (js "a") (js "BOOKING_CREATED") 10 none] MeetingsDb.empty

def bookedRow : MeetingRow :=
  newMeeting (bookingTold (js "a") (js "BOOKING_CREATED") 10 none) .bookingCreated 10 (js "booked")
    100 200

def markTold : Delivery := bookingTold (js "b") (js "BOOKING_NO_SHOW_UPDATED") 120 (some true)
def cancelTold : Delivery := bookingTold (js "c") (js "BOOKING_CANCELLED") 130 none
def unmarkTold : Delivery := bookingTold (js "d") (js "BOOKING_NO_SHOW_UPDATED") 140 (some false)

theorem cancelled_while_marked :
    Retraction (js "m1") bookedRow ⟨js "booked", 100, 200, 10⟩ ⟨js "booked", 100, 200, 130⟩ markTold
      [cancelTold] unmarkTold bookedOnce where
  holding := ⟨by decide +kernel, by decide +kernel, by decide +kernel, by decide +kernel⟩
  person := rfl
  current _ := ⟨rfl, rfl, rfl, le_refl _⟩
  markTold := ⟨by decide +kernel, ⟨120, rfl, by decide⟩, rfl,
    fun _ _ _ hstart hend => by cases hstart; cases hend; decide, by decide⟩
  marks := rfl
  started := by decide
  follows := by
    apply Follows.cons .bookingCancelled (.inr (.inr rfl))
    · exact ⟨by decide +kernel, ⟨130, rfl, by decide⟩, rfl,
    fun _ _ _ hstart hend => by cases hstart; cases hend; decide, by decide⟩
    · exact .nil _
  later := by decide
  unmarkTold := ⟨by decide +kernel, ⟨140, rfl, by decide⟩, rfl,
    fun _ _ _ hstart hend => by cases hstart; cases hend; decide, by decide⟩
  unmarks := rfl
  fresh := by
    have hrows : ∀ other ∈ bookedOnce.meetings.rows, other.id = js "m1" := by decide +kernel
    have haliases : ∀ named ∈ bookedOnce.aliases.rows, named.meetingId = js "m1" := by
      decide +kernel
    refine ⟨by decide +kernel, by decide +kernel, fun _ _ uid _ => ⟨?_, ?_⟩⟩
    · intro other hmem hne
      exact absurd (hrows other hmem) hne
    · intro named hnamed
      exact haliases named (Table.find?_eq_some.1 hnamed).1

theorem unmark_restores_cancelled :
    ∃ marked unmarked,
      (received id (markTold :: ([cancelTold] ++ [unmarkTold])) bookedOnce).meetings.find? (js "m1")
        = some marked ∧
      (received id [cancelTold] bookedOnce).meetings.find? (js "m1") = some unmarked ∧
      (bookedRow.state.awaiting = true → marked.state = bookedRow.state ∧
        attendanceOf marked = unconfirmed ∧ marked.startsAt = 100 ∧ marked.endsAt = 200) ∧
      (SameShown marked unmarked ↔ NoTrace bookedRow [cancelTold]) :=
  unmark_restores id (js "m1") bookedRow _ _ markTold unmarkTold [cancelTold] bookedOnce
    cancelled_while_marked

/-- The booking is cancelled, and after the unmark it is shown as booked. -/
theorem unmark_restores_violates :
    Retraction (js "m1") bookedRow ⟨js "booked", 100, 200, 10⟩ ⟨js "booked", 100, 200, 130⟩ markTold
        [cancelTold] unmarkTold bookedOnce ∧
      ((received id (markTold :: ([cancelTold] ++ [unmarkTold])) bookedOnce).meetings.find?
        (js "m1")).map MeetingRow.state = some .booked ∧
      ((received id [cancelTold] bookedOnce).meetings.find? (js "m1")).map MeetingRow.state
        = some .cancelled :=
  ⟨cancelled_while_marked, by decide +kernel, by decide +kernel⟩

end FoundingSales.Meetings
