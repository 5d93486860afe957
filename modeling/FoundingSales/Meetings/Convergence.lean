import Mathlib.Data.List.Dedup
import FoundingSales.Meetings.Confirmations

/-!
The deliveries of one booking end as one meeting, whatever their order.

Proved here:
* `Covers`: a meeting is a stretch of the booking's uids;
* `Converging.write`: a write that joins stretches keeps every meeting a stretch;
* `applyEvent_converges`: one lemma for each kind of event;
* `deliveries_converge`: over every order of the deliveries, each any number of times.
-/

namespace FoundingSales.Meetings

open Tables Runs

/-! ## A booking -/

/-- A booking that is moved `last` times and possibly cancelled at the end. -/
structure BookingChain where
  last : Nat
  cancelled : Bool
  uid : Nat → JsString
  startsAt : Nat → Instant
  endsAt : Nat → Instant
  createdAt : Nat → Instant
  attendee : Option JsString
  distinct : ∀ i ≤ last, ∀ j ≤ last, uid i = uid j → i = j
  increasing : ∀ i j, i < j → j < last + 1 + cancelled.toNat → createdAt i < createdAt j

namespace BookingChain

variable (chain : BookingChain)

/-- How many events there are. -/
def length : Nat := chain.last + 1 + chain.cancelled.toNat

def kind (k : Nat) : CalcomAppliedTrigger :=
  if k = 0 then .bookingCreated else if k ≤ chain.last then .bookingRescheduled
  else .bookingCancelled

def trigger (k : Nat) : JsString :=
  if k = 0 then js "BOOKING_CREATED" else if k ≤ chain.last then js "BOOKING_RESCHEDULED"
  else js "BOOKING_CANCELLED"

/-- The events in the order they were made: the booking, its moves, its cancellation. -/
def event (k : Nat) : ParsedEvent where
  trigger := chain.trigger k
  createdAt := some (chain.createdAt k)
  uid := some (chain.uid (min k chain.last))
  rescheduleUid := if 0 < k ∧ k ≤ chain.last then some (chain.uid (k - 1)) else none
  startsAt := some (chain.startsAt (min k chain.last))
  endsAt := some (chain.endsAt (min k chain.last))
  attendeeEmail := chain.attendee
  noShow := none

theorem lookup_trigger (k : Nat) :
    calcomAppliedTriggers.lookup (chain.trigger k) = some (chain.kind k) := by
  unfold trigger kind
  split
  · decide +kernel
  · split <;> decide +kernel

/-- Whether the cancellation is among the events. -/
def closed (done : List Nat) : Bool := decide (chain.last + 1 ∈ done)

/-- The last event about the uid at `b`. -/
def latest (closed : Bool) (b : Nat) : Nat :=
  if closed = true ∧ b = chain.last then chain.last + 1 else b

/-- The meeting that the uids from `a` to `b` are. -/
def meeting (firmId : Option Uuid) (closed : Bool) (meetingId : Uuid) (a b : Nat) : MeetingRow where
  id := meetingId
  firmId := firmId
  state := if closed = true ∧ b = chain.last then .cancelled
    else if b = 0 then .booked else .rescheduled
  stateBeforeNoShow := none
  attendanceSource := none
  attendanceConfirmedAt := none
  attendanceConfirmedBy := none
  calcomAbsentPending := false
  bookingUid := chain.uid a
  currentBookingUid := chain.uid b
  startsAt := chain.startsAt b
  endsAt := max (chain.endsAt b) (chain.startsAt b)
  lastEventAt := chain.createdAt (chain.latest closed b)
  attendeeEmail := chain.attendee

/-- The meeting that a uid is recorded as. -/
def home (db : MeetingsDb) (j : Nat) : Option Uuid :=
  (db.aliases.find? (chain.uid j)).map AliasRow.meetingId

/-- The uid an event is looked up by. -/
def start (k : Nat) : Nat := if 0 < k ∧ k ≤ chain.last then k - 1 else min k chain.last

theorem start_spec (k : Nat) :
    chain.start k ≤ min k chain.last ∧ (0 < k → k ≤ chain.last → chain.start k = k - 1) ∧
      (k ≤ chain.last + 1 → chain.start k = min k chain.last → k = 0 ∨ k = chain.last + 1) := by
  unfold start
  split <;> omega

theorem kind_ne (k : Nat) :
    ¬ (chain.kind k = .meetingEnded ∨ chain.kind k = .bookingNoShowUpdated) := by
  unfold kind
  split
  · simp
  · split <;> simp

theorem event_lookupUid (k : Nat) :
    (chain.event k).lookupUid (chain.kind k) = some (chain.uid (chain.start k)) := by
  unfold ParsedEvent.lookupUid kind event start
  rcases Nat.eq_zero_or_pos k with rfl | hpos
  · simp
  · by_cases hle : k ≤ chain.last
    · simp [hpos, hle, Nat.ne_of_gt hpos]
    · simp [hle, Nat.ne_of_gt hpos]

/-- A uid is one of a list's where its place is. -/
theorem uid_mem (places : List Nat) (hplaces : ∀ i ∈ places, i ≤ chain.last) {j : Nat}
    (hj : j ≤ chain.last) :
    some (chain.uid j) ∈ places.map (fun place => some (chain.uid place)) ↔ j ∈ places := by
  constructor
  · intro hmem
    obtain ⟨i, hi, hsame⟩ := List.mem_map.1 hmem
    rw [← chain.distinct i (hplaces i hi) j hj (Option.some.inj hsame)]
    exact hi
  · intro hmem
    exact List.mem_map_of_mem hmem

/-- Which uids an event names. -/
theorem uid_pair {a b j : Nat} (hab : a ≤ b) (hclose : b ≤ a + 1) (hb : b ≤ chain.last)
    (hj : j ≤ chain.last) :
    (some (chain.uid j) ∈ [some (chain.uid a), some (chain.uid b)]) = (a ≤ j ∧ j ≤ b) := by
  have hmem := chain.uid_mem [a, b] (by simp; omega) hj
  rw [show [some (chain.uid a), some (chain.uid b)]
    = [a, b].map fun place => some (chain.uid place) from rfl, hmem, eq_iff_iff]
  simp only [List.mem_cons, List.not_mem_nil, or_false]
  omega

variable {chain} in
theorem closed_cons {k : Nat} (hk : k ≤ chain.last) (done : List Nat) :
    chain.closed (k :: done) = chain.closed done := by
  have hne : chain.last + 1 ≠ k := by omega
  simp [closed, hne]

theorem closed_self (done : List Nat) : chain.closed ((chain.last + 1) :: done) = true := by
  simp [closed]

end BookingChain

/-! ## Stretches -/

/-- A meeting is the uids from `a` to `b`; alone only the first uid, or the cancelled one. -/
structure Covers (chain : BookingChain) (firmId : Option Uuid) (closed : Bool) (db : MeetingsDb)
    (meetingId : Uuid) (a b : Nat) : Prop where
  ordered : a ≤ b
  within : b ≤ chain.last
  single : a = b → a = 0 ∨ b = chain.last ∧ closed = true
  row : db.meetings.find? meetingId = some (chain.meeting firmId closed meetingId a b)
  homes : ∀ j ≤ chain.last, chain.home db j = some meetingId ↔ a ≤ j ∧ j ≤ b

/-- The tables once the events in `done` are applied. -/
structure Converging (chain : BookingChain) (firmId : Option Uuid) (done : List Nat)
    (db : MeetingsDb) : Prop where
  known : ∀ k ∈ done, k < chain.length
  covered : ∀ i m, db.meetings.find? i = some m →
    ∃ a b, Covers chain firmId (chain.closed done) db i a b
  live : ∀ j ≤ chain.last, ∀ i, chain.home db j = some i → ∃ m, db.meetings.find? i = some m
  linked : ∀ k ∈ done, 0 < k → k ≤ chain.last → chain.home db (k - 1) = chain.home db k
  seen : ∀ k ∈ done, ∃ i, chain.home db (min k chain.last) = some i

section Stretches

variable {chain : BookingChain} {firmId : Option Uuid} {done : List Nat} {db db' : MeetingsDb}
  {meetingId : Uuid} {a b k : Nat}

theorem Converging.stretch (h : Converging chain firmId done db) {j : Nat} (hj : j ≤ chain.last)
    (hhome : chain.home db j = some meetingId) :
    ∃ a b, Covers chain firmId (chain.closed done) db meetingId a b ∧ a ≤ j ∧ j ≤ b := by
  obtain ⟨m, hm⟩ := h.live j hj meetingId hhome
  obtain ⟨a, b, hcovers⟩ := h.covered meetingId m hm
  exact ⟨a, b, hcovers, (hcovers.homes j hj).1 hhome⟩

/-- Away from the last uid a meeting does not tell whether the booking is cancelled. -/
theorem meeting_of_ne_last (hb : b ≠ chain.last) (closed closed' : Bool) :
    chain.meeting firmId closed meetingId a b = chain.meeting firmId closed' meetingId a b := by
  simp [BookingChain.meeting, BookingChain.latest, hb]

/-- A meeting whose row and uids a write leaves alone, unless it tells that the booking was
cancelled meanwhile. -/
theorem Covers.kept {closed closed' : Bool} (h : Covers chain firmId closed db meetingId a b)
    (hclosed : closed' = closed ∨ b ≠ chain.last)
    (hrow : db'.meetings.find? meetingId = db.meetings.find? meetingId)
    (hhomes : ∀ j ≤ chain.last,
      chain.home db' j = some meetingId ↔ chain.home db j = some meetingId) :
    Covers chain firmId closed' db' meetingId a b where
  ordered := h.ordered
  within := h.within
  single hsame := by
    rcases h.single hsame with hzero | ⟨hlast, hwas⟩
    · exact .inl hzero
    · rcases hclosed with heq | hne
      · exact .inr ⟨hlast, heq.trans hwas⟩
      · exact absurd hlast hne
  row := by
    rw [hrow, h.row]
    rcases hclosed with heq | hne
    · rw [heq]
    · rw [meeting_of_ne_last hne]
  homes j hj := (hhomes j hj).trans (h.homes j hj)

/-- One event's write: the uids from `a` to `b` become one meeting, and those of `gone`, which
were among them, are no meetings of their own. -/
theorem Converging.write (h : Converging chain firmId done db) (meetingId : Uuid)
    (gone : List Uuid) (hk : k < chain.length) (hstart : a ≤ chain.start k)
    (hend : min k chain.last ≤ b) (hb : b ≤ chain.last)
    (hsingle : a = b → a = 0 ∨ b = chain.last ∧ chain.closed (k :: done) = true)
    (hrows : ∀ i, db'.meetings.find? i
      = if i = meetingId then some (chain.meeting firmId (chain.closed (k :: done)) meetingId a b)
        else if i ∈ gone then none else db.meetings.find? i)
    (hhomes : ∀ j ≤ chain.last,
      chain.home db' j = if a ≤ j ∧ j ≤ b then some meetingId else chain.home db j)
    (hinside : ∀ j ≤ chain.last, ∀ i, chain.home db j = some i →
      (i = meetingId ∨ i ∈ gone ↔ a ≤ j ∧ j ≤ b)) :
    Converging chain firmId (k :: done) db' := by
  obtain ⟨hbefore, hmoved, -⟩ := chain.start_spec k
  have hab : a ≤ b := by omega
  have hseen : a ≤ min k chain.last ∧ min k chain.last ≤ b := ⟨le_trans hstart hbefore, hend⟩
  have hlink : 0 < k → k ≤ chain.last → a ≤ k - 1 ∧ k ≤ b := by
    intro hpos hk
    rw [hmoved hpos hk] at hstart
    rw [Nat.min_eq_left hk] at hend
    exact ⟨hstart, hend⟩
  have hclosed : chain.closed (k :: done) = chain.closed done ∨ b = chain.last := by
    by_cases hk : k ≤ chain.last
    · exact .inl (BookingChain.closed_cons hk done)
    · right
      omega
  constructor
  case known =>
    intro x hx
    rcases List.mem_cons.1 hx with rfl | hx
    · exact hk
    · exact h.known x hx
  case covered =>
    intro i m hm
    rw [hrows] at hm
    split at hm
    next hi =>
      subst hi
      refine ⟨a, b, hab, hb, hsingle, by rw [hrows, if_pos rfl], fun j hj => ?_⟩
      rw [hhomes j hj]
      constructor
      · intro hhome
        split at hhome
        next hin => exact hin
        next => exact (hinside j hj i hhome).1 (.inl rfl)
      · intro hin
        rw [if_pos hin]
    next hi =>
      split at hm
      · cases hm
      next hgone =>
        have hother : ¬ (i = meetingId ∨ i ∈ gone) := by simp [hi, hgone]
        obtain ⟨a', b', hcovers⟩ := h.covered i m hm
        have hfree : chain.closed (k :: done) = chain.closed done ∨ b' ≠ chain.last := by
          rcases hclosed with hsame | rfl
          · exact .inl hsame
          · right
            rintro rfl
            have hhome := (hcovers.homes chain.last (le_refl _)).2 ⟨hcovers.ordered, le_refl _⟩
            exact hother ((hinside _ (le_refl _) i hhome).2 ⟨hab, le_refl _⟩)
        refine ⟨a', b', hcovers.kept hfree ?_ fun j hj => ?_⟩
        · rw [hrows, if_neg hi, if_neg hgone]
        · rw [hhomes j hj]
          split
          next hin =>
            constructor
            · intro heq
              exact absurd (Option.some.inj heq).symm hi
            · intro hhome
              exact absurd ((hinside j hj i hhome).2 hin) hother
          next => exact Iff.rfl
  case live =>
    intro j hj i hhome
    rw [hhomes j hj] at hhome
    split at hhome
    next =>
      cases hhome
      exact ⟨_, by rw [hrows, if_pos rfl]⟩
    next hout =>
      have hother : ¬ (i = meetingId ∨ i ∈ gone) := fun hin => hout ((hinside j hj i hhome).1 hin)
      obtain ⟨hi, hgone⟩ := not_or.1 hother
      rw [hrows, if_neg hi, if_neg hgone]
      exact h.live j hj i hhome
  case linked =>
    intro x hx hpos hle
    have hx' : x - 1 ≤ chain.last := by omega
    rw [hhomes x hle, hhomes (x - 1) hx']
    rcases List.mem_cons.1 hx with rfl | hx
    · obtain ⟨hfirst, hsecond⟩ := hlink hpos hle
      rw [if_pos ⟨hfirst, by omega⟩, if_pos ⟨by omega, hsecond⟩]
    · have hsame := h.linked x hx hpos hle
      obtain ⟨i, hi⟩ := h.seen x hx
      rw [Nat.min_eq_left hle] at hi
      have hboth := hinside x hle i hi
      have hboth' := hinside (x - 1) hx' i (hsame.trans hi)
      by_cases hin : a ≤ x ∧ x ≤ b
      · rw [if_pos hin, if_pos (hboth'.1 (hboth.2 hin))]
      · rw [if_neg hin, if_neg fun hin' => hin (hboth.1 (hboth'.2 hin')), hsame]
  case seen =>
    intro x hx
    rw [hhomes _ (Nat.min_le_right _ _)]
    rcases List.mem_cons.1 hx with rfl | hx
    · exact ⟨meetingId, if_pos hseen⟩
    · split
      · exact ⟨meetingId, rfl⟩
      · exact h.seen x hx

/-! ### Looking a uid up -/

theorem home_eq_some {j : Nat} : chain.home db j = some meetingId ↔
    db.aliases.find? (chain.uid j) = some ⟨chain.uid j, meetingId⟩ := by
  unfold BookingChain.home
  constructor
  · intro h
    obtain ⟨row, hrow, rfl⟩ := Option.map_eq_some_iff.1 h
    rw [hrow, ← alias_eq hrow]
  · intro h
    rw [h, Option.map_some]

theorem Covers.meetingByUid {closed : Bool} (h : Covers chain firmId closed db meetingId a b)
    {j : Nat} (hj : j ≤ chain.last) (hin : a ≤ j ∧ j ≤ b) :
    db.meetingByUid (chain.uid j) = some (chain.meeting firmId closed meetingId a b) := by
  apply meetingByUid_of_resolve
  rw [resolve_some]
  exact ⟨home_eq_some.1 ((h.homes j hj).2 hin), h.row⟩

/-- The uids of a row are recorded as the row's. -/
theorem Converging.own (h : Converging chain firmId done db) {m : MeetingRow}
    (hm : m ∈ db.meetings.rows) {j : Nat} (hj : j ≤ chain.last)
    (huid : m.bookingUid = chain.uid j ∨ m.currentBookingUid = chain.uid j) :
    chain.home db j = some m.id := by
  obtain ⟨a, b, hcovers⟩ := h.covered m.id m (Table.find?_eq_some.2 ⟨hm, rfl⟩)
  have hrow := Option.some.inj ((Table.find?_eq_some.2 ⟨hm, rfl⟩).symm.trans hcovers.row)
  have ha : a ≤ chain.last := le_trans hcovers.ordered hcovers.within
  rw [hrow] at huid
  rcases huid with huid | huid
  · have hsame : a = j := chain.distinct a ha j hj huid
    exact (hcovers.homes j hj).2 ⟨hsame.le, hsame ▸ hcovers.ordered⟩
  · have hsame : b = j := chain.distinct b hcovers.within j hj huid
    exact (hcovers.homes j hj).2 ⟨hsame ▸ hcovers.ordered, hsame.ge⟩

theorem Converging.meetingByUid_none (h : Converging chain firmId done db) {j : Nat}
    (hj : j ≤ chain.last) (hhome : chain.home db j = none) :
    db.meetingByUid (chain.uid j) = none := by
  have halias : db.aliases.find? (chain.uid j) = none := Option.map_eq_none_iff.1 hhome
  have hrows : ∀ p : MeetingRow → Bool, (∀ m, p m = true →
      m.bookingUid = chain.uid j ∨ m.currentBookingUid = chain.uid j) →
      db.meetings.rows.find? p = none := by
    intro p hp
    apply List.find?_eq_none.2
    intro m hm hpm
    rw [h.own hm hj (hp m hpm)] at hhome
    cases hhome
  rw [MeetingsDb.meetingByUid, halias, hrows _ fun m hm => .inl (by simpa using hm),
    hrows _ fun m hm => .inr (by simpa using hm)]
  rfl

/-- A row's uids are free when no other meeting has them. -/
theorem Converging.uidsFree (h : Converging chain firmId done db) {meetings : MeetingTable}
    (hsub : ∀ m ∈ meetings.rows, m.id ≠ meetingId → m ∈ db.meetings.rows) {m : MeetingRow}
    (hid : m.id = meetingId) (ha : a ≤ chain.last) (hb : b ≤ chain.last)
    (huid : m.bookingUid = chain.uid a) (hcurrent : m.currentBookingUid = chain.uid b)
    (hfirst : ∀ x ∈ meetings.rows, x.id ≠ meetingId → chain.home db a ≠ some x.id)
    (hlast : ∀ x ∈ meetings.rows, x.id ≠ meetingId → chain.home db b ≠ some x.id) :
    uidsFree meetings m = true := by
  apply List.all_eq_true.2
  intro x hx
  by_cases hi : x.id = meetingId
  · simp [hi, hid]
  · have hold := hsub x hx hi
    have hne : x.bookingUid ≠ m.bookingUid := by
      rw [huid]
      intro hsame
      exact hfirst x hx hi (h.own hold ha (.inl hsame))
    have hne' : x.currentBookingUid ≠ m.currentBookingUid := by
      rw [hcurrent]
      intro hsame
      exact hlast x hx hi (h.own hold hb (.inr hsame))
    simp [hne, hne']

end Stretches

/-! ## Writes that go through -/

section Forward

variable {chain : BookingChain} {firmId : Option Uuid} {closed : Bool} {db : MeetingsDb}
  {meetingId : Uuid} {a b : Nat}

theorem meeting_checks : meetingChecks (chain.meeting firmId closed meetingId a b) = true := by
  have hstate : (chain.meeting firmId closed meetingId a b).state = .cancelled ∨
      (chain.meeting firmId closed meetingId a b).state = .booked ∨
      (chain.meeting firmId closed meetingId a b).state = .rescheduled := by
    simp only [BookingChain.meeting]
    split_ifs <;> simp
  have htimes : (chain.meeting firmId closed meetingId a b).startsAt
      ≤ (chain.meeting firmId closed meetingId a b).endsAt := le_max_right _ _
  rcases hstate with hstate | hstate | hstate <;>
    simp [meetingChecks, attendanceChecks, hstate, MeetingState.confirmed, htimes] <;>
    simp [BookingChain.meeting]

theorem updateMeeting_ok {guard : MeetingRow → Bool} {set : MeetingRow → MeetingRow}
    {m m' : MeetingRow} (hm : db.meetings.find? meetingId = some m) (hguard : guard m = true)
    (hset : set m = m') (hchecks : meetingChecks m' = true)
    (hfree : uidsFree db.meetings m' = true) :
    db.updateMeeting meetingId guard set
      = some (some m', { db with meetings := db.meetings.upsert m' }) := by
  subst hset
  simp [MeetingsDb.updateMeeting, Table.updateRow, hm, hguard, hchecks, hfree]

theorem insertMeeting_ok (m : MeetingRow) (hm : db.meetings.find? m.id = none)
    (hchecks : meetingChecks m = true) (hfree : uidsFree db.meetings m = true) :
    ∃ meetings, db.insertMeeting m = some { db with meetings } ∧
      ∀ i, meetings.find? i = if i = m.id then some m else db.meetings.find? i := by
  cases hinsert : db.meetings.insert? m with
  | none =>
    obtain ⟨x, hx, hkey⟩ := Table.insert?_eq_none hinsert
    rw [Table.find?_eq_some.2 ⟨hx, hkey⟩] at hm
    cases hm
  | some meetings =>
    refine ⟨meetings, by simp [MeetingsDb.insertMeeting, hchecks, hfree, hinsert], fun i => ?_⟩
    by_cases hi : i = m.id
    · rw [hi, if_pos rfl, Table.find?_insert?_self hinsert]
    · rw [if_neg hi, Table.find?_insert?_ne hinsert hi]

theorem applyPendingAbsence_none {now : Instant} {m : MeetingRow}
    (h : m.calcomAbsentPending = false) : applyPendingAbsence now m db = some (none, db) := by
  simp [applyPendingAbsence, h]

theorem writeMeeting_ok (delivery : Delivery) (deferred : Bool) {existing m m' : MeetingRow}
    {w : MeetingWrite} (hm : db.meetings.find? existing.id = some m) (hset : w.set m = m')
    (hchecks : meetingChecks m' = true) (hfree : uidsFree db.meetings m' = true)
    (hpending : m'.calcomAbsentPending = false) :
    ∃ applied, writeMeeting delivery deferred existing w db = some (applied,
      MeetingsDb.aliasMeeting m'.id
        [some m'.bookingUid, some m'.currentBookingUid, delivery.event.uid]
        { db with meetings := db.meetings.upsert m' }) := by
  subst hset
  have hupdate : db.updateMeeting existing.id (fun _ => true) w.set = _ :=
    updateMeeting_ok hm rfl rfl hchecks hfree
  refine ⟨noChange (if deferred then .ignored else .applied) (some (w.set m)), ?_⟩
  simp only [writeMeeting, hupdate, Option.bind_eq_bind, Option.bind_some, Option.getD_some,
    applyPendingAbsence_none hpending, Option.getD_none]

theorem home_alias (uids : List (Option JsString)) (j : Nat) :
    chain.home (db.aliasMeeting meetingId uids) j
      = (chain.home db j <|> if some (chain.uid j) ∈ uids then some meetingId else none) := by
  unfold BookingChain.home
  rw [find?_aliasMeeting]
  cases db.aliases.find? (chain.uid j) with
  | some row => rfl
  | none =>
    show Option.map _ (if _ then _ else _) = if _ then _ else _
    split <;> rfl

/-- Naming uids that the meeting already has moves none of them. -/
theorem home_alias_within (db : MeetingsDb) (places : List Nat)
    (hplaces : ∀ i ∈ places, a ≤ i ∧ i ≤ b) (hb : b ≤ chain.last)
    (hheld : ∀ j ≤ chain.last, a ≤ j ∧ j ≤ b → chain.home db j = some meetingId) {j : Nat}
    (hj : j ≤ chain.last) :
    chain.home (db.aliasMeeting meetingId (places.map fun place => some (chain.uid place))) j
      = chain.home db j := by
  have hlast : ∀ place ∈ places, place ≤ chain.last := fun place hplace =>
    le_trans (hplaces place hplace).2 hb
  rw [home_alias]
  split
  next hnamed =>
    rw [hheld j hj (hplaces j ((chain.uid_mem places hlast hj).1 hnamed))]
    rfl
  next => cases chain.home db j <;> rfl

end Forward

/-! ## One event -/

/-- The event `k` has been applied, on top of those in `done`. -/
def Advances (chain : BookingChain) (firmId : Option Uuid) (done : List Nat) (k : Nat)
    (newId : Uuid) (db : MeetingsDb) (result : Option (Applied × MeetingsDb)) : Prop :=
  ∃ applied db', result = some (applied, db') ∧ Converging chain firmId (k :: done) db' ∧
    db'.events = db.events ∧
    ∀ i m, db'.meetings.find? i = some m → i = newId ∨ ∃ x, db.meetings.find? i = some x

section Events

variable {chain : BookingChain} {firmId : Option Uuid} {done : List Nat} {db : MeetingsDb}
  {meetingId : Uuid} {a b k : Nat} {delivery : Delivery}

/-- Without a row of the last uid the booking is not cancelled. -/
theorem Converging.open_of_home (h : Converging chain firmId done db)
    (hhome : chain.home db chain.last = none) : chain.closed done = false := by
  apply decide_eq_false
  intro hmem
  obtain ⟨i, hi⟩ := h.seen _ hmem
  rw [Nat.min_eq_right (Nat.le_succ _), hhome] at hi
  cases hi

/-- The row that an event opens is the meeting of the uids it names. -/
theorem newMeeting_chain (h : Converging chain firmId done db) (hk : k ≤ chain.last + 1)
    (hevent : delivery.event = chain.event k) (hfirm : delivery.matching.firmId = firmId)
    (hsecond : chain.home db (min k chain.last) = none) :
    newMeeting delivery (chain.kind k) (chain.createdAt k) (chain.uid (chain.start k))
        (chain.startsAt (min k chain.last)) (chain.endsAt (min k chain.last))
      = chain.meeting firmId (chain.closed (k :: done)) delivery.newId (chain.start k)
          (min k chain.last) := by
  have hlatest : (if chain.closed (k :: done) = true ∧ min k chain.last = chain.last then
      k = chain.last + 1 else k ≤ chain.last) := by
    split
    next hclosed =>
      by_contra hne
      have hle : k ≤ chain.last := by omega
      rw [BookingChain.closed_cons hle] at hclosed
      rw [hclosed.2] at hsecond
      rw [h.open_of_home hsecond] at hclosed
      cases hclosed.1
    next hopen =>
      by_contra hne
      have hend : k = chain.last + 1 := by omega
      subst hend
      exact hopen ⟨chain.closed_self done, Nat.min_eq_right (Nat.le_succ _)⟩
  unfold newMeeting BookingChain.meeting BookingChain.latest
  rw [hevent, hfirm]
  split at hlatest
  next hclosed =>
    subst hlatest
    have hlate : ¬ chain.last + 1 ≤ chain.last := by omega
    simp [BookingChain.event, BookingChain.kind, newMeetingState, hclosed, hlate]
  next hopen =>
    rw [Nat.min_eq_left hlatest] at hopen ⊢
    simp only [BookingChain.event, BookingChain.kind, hopen, if_false, hlatest, if_true,
      Nat.min_eq_left, Option.getD_some]
    by_cases hzero : k = 0
    · simp [hzero, newMeetingState]
    · simp [hzero, newMeetingState]

/-- An event about uids that no meeting has opens one. -/
theorem open_converges (h : Converging chain firmId done db) (hk : k < chain.length)
    (hevent : delivery.event = chain.event k) (hfirm : delivery.matching.firmId = firmId)
    (hfresh : db.meetings.find? delivery.newId = none)
    (hfirst : chain.home db (chain.start k) = none)
    (hsecond : chain.home db (min k chain.last) = none) :
    Advances chain firmId done k delivery.newId db
      (openMeeting delivery (chain.kind k) (chain.createdAt k) (chain.uid (chain.start k)) db) := by
  obtain ⟨hstart, hmoved, hsame⟩ := chain.start_spec k
  have hlength : k ≤ chain.last + 1 := by
    have hbool := Bool.toNat_le chain.cancelled
    simp only [BookingChain.length] at hk
    omega
  have hlast : min k chain.last ≤ chain.last := Nat.min_le_right _ _
  have hrow := newMeeting_chain h hlength hevent hfirm hsecond
  have hclose : min k chain.last ≤ chain.start k + 1 := by
    unfold BookingChain.start
    split <;> omega
  have hempty : ∀ j, chain.start k ≤ j ∧ j ≤ min k chain.last → chain.home db j = none := by
    intro j hin
    have hj : j = chain.start k ∨ j = min k chain.last := by omega
    rcases hj with rfl | rfl
    · exact hfirst
    · exact hsecond
  have hothers : ∀ j, chain.home db j = none → ∀ x ∈ db.meetings.rows, x.id ≠ delivery.newId →
      chain.home db j ≠ some x.id := by
    intro j hj x _ _ hx
    rw [hj] at hx
    cases hx
  have hid : (chain.meeting firmId (chain.closed (k :: done)) delivery.newId (chain.start k)
    (min k chain.last)).id = delivery.newId := rfl
  obtain ⟨meetings, hinsert, hrows⟩ := insertMeeting_ok (chain.meeting firmId
    (chain.closed (k :: done)) delivery.newId (chain.start k) (min k chain.last)) hfresh
    meeting_checks (h.uidsFree (fun _ hm _ => hm) hid (le_trans hstart hlast) hlast rfl rfl
      (hothers _ hfirst) (hothers _ hsecond))
  have hopened : openMeeting delivery (chain.kind k) (chain.createdAt k)
      (chain.uid (chain.start k)) db = some (noChange (if firmId.isNone then .unmatched else .applied)
        (some (chain.meeting firmId (chain.closed (k :: done)) delivery.newId (chain.start k)
          (min k chain.last))),
        MeetingsDb.aliasMeeting delivery.newId
          [some (chain.uid (chain.start k)), some (chain.uid (min k chain.last))]
          { db with meetings }) := by
    have hstarts : delivery.event.startsAt = some (chain.startsAt (min k chain.last)) := by
      rw [hevent]
      rfl
    have hends : delivery.event.endsAt = some (chain.endsAt (min k chain.last)) := by
      rw [hevent]
      rfl
    have huid : delivery.event.uid = some (chain.uid (min k chain.last)) := by
      rw [hevent]
      rfl
    unfold openMeeting
    rw [if_neg (chain.kind_ne k), hstarts, hends, huid]
    simp only [hrow, hinsert, Option.bind_eq_bind, Option.bind_some]
    rfl
  refine ⟨_, _, hopened, ?_, rfl, fun i m hm => ?_⟩
  · refine h.write delivery.newId [] hk (le_refl _) (le_refl _) hlast (fun heq => ?_)
      (fun i => ?_) (fun j hj => ?_) (fun j hj i hi => ?_)
    · rcases hsame hlength heq with rfl | rfl
      · exact .inl (by rw [heq, Nat.zero_min])
      · exact .inr ⟨Nat.min_eq_right (Nat.le_succ _), chain.closed_self done⟩
    · simp only [List.not_mem_nil, if_false]
      exact hrows i
    · rw [home_alias]
      show (chain.home db j <|> _) = _
      simp only [chain.uid_pair hstart hclose hlast hj]
      split
      next hin =>
        rw [hempty j hin]
        rfl
      next =>
        cases chain.home db j <;> rfl
    · constructor
      · rintro (rfl | hgone)
        · obtain ⟨m, hm⟩ := h.live j hj _ hi
          rw [hfresh] at hm
          cases hm
        · cases hgone
      · intro hin
        rw [hempty j hin] at hi
        cases hi
  · rw [show MeetingsDb.meetings _ = meetings from rfl, hrows] at hm
    split at hm
    next hi => exact .inl hi
    next => exact .inr ⟨m, hm⟩

/-! ### A meeting that is there -/

/-- What an event makes of the tables where it joins no other meeting. -/
theorem Converging.extend (h : Converging chain firmId done db) {db' : MeetingsDb}
    (meetingId : Uuid) (hk : k < chain.length) (hstart : a ≤ chain.start k)
    (hend : min k chain.last ≤ b) (hb : b ≤ chain.last)
    (hsingle : a = b → a = 0 ∨ b = chain.last ∧ chain.closed (k :: done) = true)
    (hrows : ∀ i, db'.meetings.find? i
      = if i = meetingId then some (chain.meeting firmId (chain.closed (k :: done)) meetingId a b)
        else db.meetings.find? i)
    (hhomes : ∀ j ≤ chain.last,
      chain.home db' j = if a ≤ j ∧ j ≤ b then some meetingId else chain.home db j)
    (hown : ∀ j ≤ chain.last, chain.home db j = some meetingId → a ≤ j ∧ j ≤ b)
    (hfree : ∀ j, a ≤ j ∧ j ≤ b → ∀ i, chain.home db j = some i → i = meetingId) :
    Converging chain firmId (k :: done) db' := by
  apply h.write meetingId [] hk hstart hend hb hsingle _ hhomes
  · intro j hj i hi
    constructor
    · rintro (rfl | hgone)
      · exact hown j hj hi
      · cases hgone
    · intro hin
      exact .inl (hfree j hin i hi)
  · simpa using hrows

/-- An event older than the meeting, or about a cancelled one, changes nothing. -/
theorem Covers.stale_iff {newer : List Nat}
    (h : Covers chain firmId (chain.closed newer) db meetingId a b) (hk : k < chain.length) :
    (chain.createdAt k < (chain.meeting firmId (chain.closed newer) meetingId a b).lastEventAt ∨
      (chain.meeting firmId (chain.closed newer) meetingId a b).state = .cancelled) ↔
    k < b ∨ chain.closed newer = true ∧ b = chain.last := by
  have hb : b < chain.length := by
    have hwithin := h.within
    unfold BookingChain.length
    omega
  by_cases hclosed : chain.closed newer = true ∧ b = chain.last
  · simp [BookingChain.meeting, hclosed]
  · have hstate : (chain.meeting firmId (chain.closed newer) meetingId a b).state ≠ .cancelled := by
      simp only [BookingChain.meeting, hclosed, if_false]
      split <;> simp
    have hlast : (chain.meeting firmId (chain.closed newer) meetingId a b).lastEventAt
        = chain.createdAt b := by
      simp [BookingChain.meeting, BookingChain.latest, hclosed]
    rw [hlast, or_iff_left hstate, or_iff_left hclosed]
    constructor
    · intro hlt
      by_contra hle
      rcases Nat.eq_or_lt_of_le (not_lt.1 hle) with rfl | hgt
      · exact lt_irrefl _ hlt
      · exact lt_asymm hlt (chain.increasing b k hgt hk)
    · intro hlt
      exact chain.increasing k b hlt hb

/-- What the event `k` makes of a meeting that ends before it. -/
theorem decideChange_chain {closed closed' started : Bool} (hopen : ¬ (closed = true ∧ b = chain.last))
    (hzero : k = 0 → b = 0) (hk : k ≤ chain.last + 1)
    (hclosed : closed' = true ∧ min k chain.last = chain.last ↔ k = chain.last + 1) :
    decideChange (chain.kind k) (chain.event k) (chain.createdAt k) started
        (chain.meeting firmId closed meetingId a b)
      = ⟨some ⟨(chain.meeting firmId closed' meetingId a (min k chain.last)).state, none,
          unconfirmed⟩, false, false⟩ := by
  have hconfirmed : isConfirmed (chain.meeting firmId closed meetingId a b) = false := by
    simp only [isConfirmed, BookingChain.meeting, hopen, if_false]
    split <;> rfl
  have hkept : stateOf (chain.meeting firmId closed meetingId a b)
      = ⟨if b = 0 then .booked else .rescheduled, none, unconfirmed⟩ := by
    rw [stateOf, hconfirmed]
    simp [BookingChain.meeting, hopen]
  have hpending : (chain.meeting firmId closed meetingId a b).calcomAbsentPending = false := rfl
  have hnext : (chain.meeting firmId closed' meetingId a (min k chain.last)).state
      = if k = chain.last + 1 then .cancelled else if k = 0 then .booked else .rescheduled := by
    simp only [BookingChain.meeting, hclosed]
    split
    · rfl
    next hne =>
      have hmin : min k chain.last = k := Nat.min_eq_left (by omega)
      rw [hmin]
  rw [hnext]
  unfold BookingChain.kind
  split
  next hkzero =>
    rw [hzero hkzero] at hkept hpending ⊢
    simp [decideChange, hkept, hpending, hkzero]
  next hpos =>
    split
    next hle =>
      have hne : k ≠ chain.last + 1 := by omega
      simp [decideChange, hconfirmed, hne]
    next hgt =>
      have heq : k = chain.last + 1 := by omega
      simp [decideChange, hconfirmed, heq]

/-- The event's write: it makes the meeting one that ends with the event's uid. -/
theorem changeMeeting_chain (attendeeKey : JsString → JsString) (firmId : Option Uuid)
    (meetingId : Uuid) (a : Nat) (db : MeetingsDb) {closed : Bool} (closed' : Bool)
    (hevent : delivery.event = chain.event k) (hopen : ¬ (closed = true ∧ b = chain.last))
    (hzero : k = 0 → b = 0) (hlast : k = chain.last + 1 → b = chain.last) (hb : b ≤ k)
    (hk : k < chain.length)
    (hclosed : closed' = true ∧ min k chain.last = chain.last ↔ k = chain.last + 1) :
    ∃ w : MeetingWrite, w.lastEventAt = chain.createdAt k ∧
      w.next = ⟨(chain.meeting firmId closed' meetingId a (min k chain.last)).state, none,
        unconfirmed⟩ ∧ w.pending = false ∧ w.timesChange = true ∧
      w.set (chain.meeting firmId closed meetingId a b)
        = chain.meeting firmId closed' meetingId a (min k chain.last) ∧
      changeMeeting attendeeKey delivery (chain.kind k) (chain.createdAt k)
          (chain.uid (chain.start k)) (chain.meeting firmId closed meetingId a b) db
        = match replacementOf (chain.kind k) delivery.event (chain.uid (chain.start k))
            (chain.meeting firmId closed meetingId a b) db with
          | none => writeMeeting delivery false (chain.meeting firmId closed meetingId a b) w db
          | some replacement =>
            if (foldConflict attendeeKey
                [chain.meeting firmId closed meetingId a b, replacement]).isSome then
              some (noChange .unmatched (some (chain.meeting firmId closed meetingId a b)), db)
            else
              (foldReplacement (chain.meeting firmId closed meetingId a b) replacement db).bind
                (writeMeeting delivery false (chain.meeting firmId closed meetingId a b)
                  (afterFold (chain.meeting firmId closed meetingId a b) replacement
                    (chain.createdAt k) w)) := by
  have hlength : k ≤ chain.last + 1 := by
    have hbool := Bool.toNat_le chain.cancelled
    simp only [BookingChain.length] at hk
    omega
  have hlatest : chain.latest closed' (min k chain.last) = k := by
    simp only [BookingChain.latest, hclosed]
    split
    next heq => exact heq.symm
    next hne => exact Nat.min_eq_left (by omega)
  have hmax : max (chain.createdAt b) (chain.createdAt k) = chain.createdAt k := by
    rcases Nat.eq_or_lt_of_le hb with rfl | hlt
    · exact max_self _
    · exact max_eq_right (chain.increasing b k hlt hk).le
  have hcurrent : (if chain.kind k = .bookingRescheduled then some (chain.uid (min k chain.last))
      else none).getD (chain.uid b) = chain.uid (min k chain.last) := by
    unfold BookingChain.kind
    rcases Nat.eq_zero_or_pos k with rfl | hpos
    · simp [hzero rfl]
    · by_cases hle : k ≤ chain.last
      · simp [Nat.ne_of_gt hpos, hle]
      · have heq : k = chain.last + 1 := by omega
        simp [heq, hlast heq]
  have htimes : chain.kind k = .bookingRescheduled ∨ chain.kind k = .bookingCreated ∨
      (chain.event k).uid = some (chain.meeting firmId closed meetingId a b).currentBookingUid ∧
        (chain.event k).startsAt.isSome = true ∧ (chain.event k).endsAt.isSome = true := by
    unfold BookingChain.kind
    rcases Nat.eq_zero_or_pos k with rfl | hpos
    · simp
    · by_cases hle : k ≤ chain.last
      · simp [Nat.ne_of_gt hpos, hle]
      · have heq : k = chain.last + 1 := by omega
        simp [heq, BookingChain.event, BookingChain.meeting, hlast heq]
  refine ⟨⟨⟨(chain.meeting firmId closed' meetingId a (min k chain.last)).state, none,
    unconfirmed⟩, true, some (chain.startsAt (min k chain.last)),
    some (chain.endsAt (min k chain.last)),
    if chain.kind k = .bookingRescheduled then some (chain.uid (min k chain.last)) else none,
    chain.createdAt k, false⟩, rfl, rfl, rfl, rfl, ?_, ?_⟩
  · unfold MeetingWrite.set
    have hold : chain.latest closed b = b := if_neg hopen
    simp only [if_true, Option.getD_some, Option.elim_some, Bool.false_and]
    unfold BookingChain.meeting
    simp only [hold, hlatest, hmax, hcurrent]
    rfl
  · simp only [changeMeeting, hevent, decideChange_chain hopen hzero hlength hclosed, htimes]
    rfl

/-- An event that joins no other meeting makes its meeting end with the event's uid. -/
theorem write_converges {attendeeKey : JsString → JsString} {db' : MeetingsDb}
    (h : Converging chain firmId done db)
    (hc : Covers chain firmId (chain.closed done) db meetingId a b)
    (hevent : delivery.event = chain.event k) (hk : k < chain.length)
    (hopen : ¬ (chain.closed done = true ∧ b = chain.last))
    (hzero : k = 0 → b = 0) (hlast : k = chain.last + 1 → b = chain.last)
    (hb : b ≤ min k chain.last) (hstart : a ≤ chain.start k)
    (hsingle : a = min k chain.last → a = 0 ∨ k = chain.last + 1)
    (hmeetings : db'.meetings = db.meetings) (hevents : db'.events = db.events)
    (hhomes : ∀ j ≤ chain.last, chain.home db' j
      = if a ≤ j ∧ j ≤ min k chain.last then some meetingId else chain.home db j)
    (hfree : ∀ j, a ≤ j ∧ j ≤ min k chain.last → ∀ i, chain.home db j = some i → i = meetingId)
    (hreplacement : replacementOf (chain.kind k) delivery.event (chain.uid (chain.start k))
      (chain.meeting firmId (chain.closed done) meetingId a b) db' = none) :
    Advances chain firmId done k delivery.newId db
      (changeMeeting attendeeKey delivery (chain.kind k) (chain.createdAt k)
        (chain.uid (chain.start k)) (chain.meeting firmId (chain.closed done) meetingId a b) db') := by
  have hle : min k chain.last ≤ chain.last := Nat.min_le_right _ _
  have hab : a ≤ min k chain.last := le_trans hc.ordered hb
  have hclosed : chain.closed (k :: done) = true ∧ min k chain.last = chain.last
      ↔ k = chain.last + 1 := by
    constructor
    · rintro ⟨hclosed, hmin⟩
      by_contra hne
      have hlength : k ≤ chain.last + 1 := by
        have hbool := Bool.toNat_le chain.cancelled
        simp only [BookingChain.length] at hk
        omega
      rw [BookingChain.closed_cons (by omega)] at hclosed
      obtain ⟨i, hi⟩ := h.seen _ (of_decide_eq_true hclosed)
      rw [Nat.min_eq_right (Nat.le_succ _)] at hi
      have hsame := hfree chain.last ⟨by omega, by omega⟩ i hi
      subst hsame
      have hin := (hc.homes chain.last (le_refl _)).1 hi
      exact hopen ⟨hclosed, le_antisymm hc.within hin.2⟩
    · rintro rfl
      exact ⟨chain.closed_self done, Nat.min_eq_right (Nat.le_succ _)⟩
  obtain ⟨w, -, -, -, -, hset, hchange⟩ := changeMeeting_chain attendeeKey firmId
    meetingId a db' (chain.closed (k :: done)) hevent hopen hzero hlast (by omega) hk hclosed
  rw [hreplacement] at hchange
  have hthere : db'.meetings.find?
      (chain.meeting firmId (chain.closed done) meetingId a b).id
        = some (chain.meeting firmId (chain.closed done) meetingId a b) := by
    rw [hmeetings]
    exact hc.row
  have hown : chain.home db a = some meetingId := (hc.homes a (by omega)).2 ⟨le_refl _, hc.ordered⟩
  have hothers : ∀ j, a ≤ j ∧ j ≤ min k chain.last → ∀ x ∈ db'.meetings.rows, x.id ≠ meetingId →
      chain.home db j ≠ some x.id := by
    intro j hj x _ hne hx
    exact hne (hfree j hj x.id hx)
  have hfreeUids : uidsFree db'.meetings
      (chain.meeting firmId (chain.closed (k :: done)) meetingId a (min k chain.last)) = true :=
    h.uidsFree (fun m hm _ => hmeetings ▸ hm) rfl (by omega) hle rfl rfl
      (hothers a ⟨le_refl _, hab⟩) (hothers _ ⟨hab, le_refl _⟩)
  obtain ⟨applied, hwrite⟩ := writeMeeting_ok delivery false hthere hset meeting_checks hfreeUids rfl
  rw [hwrite] at hchange
  refine ⟨applied, _, hchange, ?_, hevents, fun i m hm => ?_⟩
  · refine h.extend meetingId hk hstart (le_refl _) hle (fun heq => ?_) (fun i => ?_)
      (fun j hj => ?_) (fun j hj hi => ?_) hfree
    · rcases hsingle heq with hzero | hend
      · exact .inl hzero
      · exact .inr (hclosed.2 hend).symm
    · show (db'.meetings.upsert _).find? i = _
      rw [find?_upsert_row, hmeetings]
      rfl
    · rw [hevent]
      refine Eq.trans ?_ (hhomes j hj)
      refine home_alias_within (a := a) { db' with meetings := db'.meetings.upsert _ }
        [a, min k chain.last, min k chain.last] ?_ hle (fun i hi hin => ?_) hj
      · simp only [List.mem_cons, List.not_mem_nil, or_false]
        omega
      · exact (hhomes i hi).trans (if_pos hin)
    · have hin := (hc.homes j hj).1 hi
      omega
  · rw [show MeetingsDb.meetings _ = db'.meetings.upsert _ from rfl, find?_upsert_row,
      hmeetings] at hm
    split at hm
    next hi =>
      right
      exact ⟨_, by rw [hi]; exact hc.row⟩
    next => exact .inr ⟨m, hm⟩

/-! ### Which way an event goes -/

theorem applyEvent_open {attendeeKey : JsString → JsString} (hevent : delivery.event = chain.event k)
    (hlocate : db.locate (chain.kind k) delivery.event (chain.uid (chain.start k)) = none) :
    applyEvent attendeeKey delivery db
      = openMeeting delivery (chain.kind k) (chain.createdAt k) (chain.uid (chain.start k)) db := by
  rw [hevent] at hlocate
  simp only [applyEvent, hevent, chain.event_lookupUid,
    show (chain.event k).trigger = chain.trigger k from rfl, chain.lookup_trigger,
    show (chain.event k).createdAt = some (chain.createdAt k) from rfl, hlocate]

theorem applyEvent_found {attendeeKey : JsString → JsString} {existing existing' : MeetingRow}
    {adopt : Bool} {db' : MeetingsDb} (hevent : delivery.event = chain.event k)
    (hlocate : db.locate (chain.kind k) delivery.event (chain.uid (chain.start k))
      = some (existing, adopt))
    (hidentify : identify (chain.kind k) delivery.event (chain.uid (chain.start k)) adopt existing db
      = some (existing', db')) (hpending : existing'.calcomAbsentPending = false) :
    applyEvent attendeeKey delivery db
      = if chain.createdAt k < existing.lastEventAt ∨ existing.state = .cancelled then
          some (noChange .stale (some existing'), db')
        else changeMeeting attendeeKey delivery (chain.kind k) (chain.createdAt k)
          (chain.uid (chain.start k)) existing' db' := by
  rw [hevent] at hlocate hidentify
  simp only [applyEvent, hevent, chain.event_lookupUid,
    show (chain.event k).trigger = chain.trigger k from rfl, chain.lookup_trigger,
    show (chain.event k).createdAt = some (chain.createdAt k) from rfl, hlocate,
    Option.bind_eq_bind, hidentify, Option.bind_some, applyPendingAbsence_none hpending,
    Option.getD_none]

/-- An event that changes no row, of a meeting that has all its uids. -/
theorem Converging.idle (h : Converging chain firmId done db) {db' : MeetingsDb}
    (hc : Covers chain firmId (chain.closed done) db meetingId a b) (hk : k < chain.length)
    (hstart : a ≤ chain.start k) (hend : min k chain.last ≤ b)
    (hclosed : chain.closed (k :: done) = chain.closed done)
    (hmeetings : db'.meetings = db.meetings)
    (hhomes : ∀ j ≤ chain.last, chain.home db' j = chain.home db j) :
    Converging chain firmId (k :: done) db' := by
  apply h.extend meetingId hk hstart hend hc.within
  · intro heq
    rw [hclosed]
    exact hc.single heq
  · intro i
    rw [hmeetings, hclosed]
    split
    next hi => rw [hi, hc.row]
    next => rfl
  · intro j hj
    rw [hhomes j hj]
    split
    next hin => exact (hc.homes j hj).2 hin
    next => rfl
  · intro j hj hi
    exact (hc.homes j hj).1 hi
  · intro j hin i hi
    have hj : j ≤ chain.last := le_trans hin.2 hc.within
    exact Option.some.inj (hi.symm.trans ((hc.homes j hj).2 hin))

/-- An event about one uid only: the booking's first, or its cancellation. -/
theorem single_converges {attendeeKey : JsString → JsString} (h : Converging chain firmId done db)
    (hk : k < chain.length) (hkind : chain.kind k ≠ .bookingRescheduled)
    (hevent : delivery.event = chain.event k) (hfirm : delivery.matching.firmId = firmId)
    (hfresh : db.meetings.find? delivery.newId = none) :
    Advances chain firmId done k delivery.newId db (applyEvent attendeeKey delivery db) := by
  have hends : k = 0 ∨ k = chain.last + 1 := by
    have hbool := Bool.toNat_le chain.cancelled
    simp only [BookingChain.length] at hk
    unfold BookingChain.kind at hkind
    by_contra hne
    rw [if_neg (by omega), if_pos (by omega)] at hkind
    exact hkind rfl
  have hstart : chain.start k = min k chain.last := by
    unfold BookingChain.start
    rw [if_neg (by omega)]
  have hle : min k chain.last ≤ chain.last := Nat.min_le_right _ _
  cases hhome : chain.home db (min k chain.last) with
  | none =>
    have hlocate : db.locate (chain.kind k) delivery.event (chain.uid (chain.start k)) = none := by
      rw [MeetingsDb.locate, hstart, h.meetingByUid_none hle hhome]
      simp [hkind]
    rw [applyEvent_open hevent hlocate]
    exact open_converges h hk hevent hfirm hfresh (by rw [hstart, hhome]) hhome
  | some meetingId =>
    obtain ⟨a, b, hc, hin⟩ := h.stretch hle hhome
    have hlocate : db.locate (chain.kind k) delivery.event (chain.uid (chain.start k))
        = some (chain.meeting firmId (chain.closed done) meetingId a b, false) := by
      rw [MeetingsDb.locate, hstart, hc.meetingByUid hle hin]
    have hidentify : identify (chain.kind k) delivery.event (chain.uid (chain.start k)) false
        (chain.meeting firmId (chain.closed done) meetingId a b) db
        = some (chain.meeting firmId (chain.closed done) meetingId a b, db) := by
      simp [identify, hkind]
    rw [applyEvent_found hevent hlocate hidentify rfl]
    have hbound := hc.within
    split
    next hstale =>
      rw [hc.stale_iff hk] at hstale
      have hclosed : chain.closed (k :: done) = chain.closed done := by
        rcases hends with rfl | rfl
        · exact BookingChain.closed_cons (Nat.zero_le _) done
        · rcases hstale with hlt | hclosed
          · omega
          · rw [chain.closed_self, hclosed.1]
      exact ⟨_, db, rfl, h.idle hc hk (by omega) hin.2 hclosed rfl fun _ _ => rfl, rfl,
        fun i m hm => .inr ⟨m, hm⟩⟩
    next hnew =>
      rw [hc.stale_iff hk, not_or] at hnew
      have hb : b = min k chain.last := by omega
      apply write_converges h hc hevent hk hnew.2 (by omega) (by omega) (by omega) (by omega)
        (by omega) rfl rfl
      · intro j hj
        split
        next hin' => exact (hc.homes j hj).2 (by omega)
        next => rfl
      · intro j hin' i hi
        exact Option.some.inj (hi.symm.trans ((hc.homes j (by omega)).2 (by omega)))
      · simp [replacementOf, hkind]

end Events

/-! ### A fold -/

section Moves

variable {chain : BookingChain} {firmId : Option Uuid} {done : List Nat} {db : MeetingsDb}
  {meetingId source : Uuid} {a b b' k : Nat} {delivery : Delivery} {attendeeKey : JsString → JsString}

/-- One row's uids become another's. -/
theorem home_folded {target : Uuid} (hne : target ≠ source) (j : Nat) :
    chain.home ((db.moveAliases source target).deleteMeeting source) j
      = (chain.home db j).map fun i => if i = source then target else i := by
  unfold BookingChain.home
  rw [alias_folded hne]
  cases db.aliases.find? (chain.uid j) with
  | none => rfl
  | some row => simp [foldedInto]

/-- A fold of two rows that agree on attendee and firm leaves the survivor as it is. -/
theorem foldReplacement_ok (chain : BookingChain) {survivor : MeetingRow}
    (replacement : MeetingRow) (hne : survivor.id ≠ replacement.id)
    (hm : db.meetings.find? survivor.id = some survivor)
    (hattendee : (survivor.attendeeEmail <|> replacement.attendeeEmail) = survivor.attendeeEmail)
    (hfirm : (survivor.firmId <|> replacement.firmId) = survivor.firmId)
    (hchecks : meetingChecks survivor = true) (hfree : uidsFree db.meetings survivor = true) :
    ∃ dbf, foldReplacement survivor replacement db = some dbf ∧
      (∀ i, dbf.meetings.find? i = if i = replacement.id then none else db.meetings.find? i) ∧
      (∀ j, chain.home dbf j
        = (chain.home db j).map fun i => if i = replacement.id then survivor.id else i) ∧
      dbf.events = db.events := by
  have hupdate : (db.moveAliases replacement.id survivor.id).updateMeeting survivor.id
      (fun _ => true) (fun row => { row with
        attendeeEmail := row.attendeeEmail <|> replacement.attendeeEmail
        firmId := row.firmId <|> replacement.firmId })
      = some (some survivor, { db.moveAliases replacement.id survivor.id with
          meetings := db.meetings.upsert survivor }) := by
    have hm' : (db.moveAliases replacement.id survivor.id).meetings.find? survivor.id
        = some survivor := hm
    refine updateMeeting_ok hm' rfl ?_ hchecks hfree
    simp only [hattendee, hfirm]
  refine ⟨MeetingsDb.deleteMeeting replacement.id { db.moveAliases replacement.id survivor.id with
    meetings := db.meetings.upsert survivor }, ?_, fun i => ?_, fun j => ?_, rfl⟩
  · simp only [foldReplacement, hupdate, Option.bind_eq_bind, Option.bind_some]
  · show ((db.meetings.upsert survivor).delete replacement.id).find? i = _
    rw [Table.find?_delete, find?_upsert_row]
    split
    · rfl
    · split
      next hi => rw [hi, hm]
      next => rfl
  · exact home_folded hne j

theorem afterFold_chain {existing replacement : MeetingRow} {createdAt : Instant} {w : MeetingWrite}
    (hnewer : replacement.lastEventAt > createdAt) (hexisting : isConfirmed existing = false)
    (hreplacement : isConfirmed replacement = false) :
    afterFold existing replacement createdAt w
      = { w with
          next := stateOf replacement
          lastEventAt := replacement.lastEventAt
          startsAt := some replacement.startsAt
          endsAt := some replacement.endsAt
          currentUid := some replacement.currentBookingUid
          pending := replacement.calcomAbsentPending } := by
  simp [afterFold, hnewer, keepConfirmation, hexisting, hreplacement]

theorem foldConflict_chain {closed : Bool} :
    foldConflict attendeeKey [chain.meeting firmId closed meetingId a b,
      chain.meeting firmId closed source k b'] = none := by
  have hattendees : attendeesConflict attendeeKey [chain.meeting firmId closed meetingId a b,
      chain.meeting firmId closed source k b'] = false := by
    unfold attendeesConflict BookingChain.meeting
    cases chain.attendee <;> simp
  rw [foldConflict, hattendees]
  unfold BookingChain.meeting
  cases firmId <;> simp

theorem meeting_unconfirmed {closed : Bool} :
    isConfirmed (chain.meeting firmId closed meetingId a b) = false := by
  simp only [isConfirmed, BookingChain.meeting]
  split_ifs <;> rfl

/-- The row of a replacement is newer than the move that names it. -/
theorem Converging.replacement_newer (h : Converging chain firmId done db)
    (hc : Covers chain firmId (chain.closed done) db source k b') (hpos : 0 < k) :
    chain.createdAt k
      < (chain.meeting firmId (chain.closed done) source k b').lastEventAt := by
  have hordered := hc.ordered
  have hwithin := hc.within
  have hlatest : k < chain.latest (chain.closed done) b' ∧
      chain.latest (chain.closed done) b' < chain.length := by
    unfold BookingChain.latest
    split
    next hcancelled =>
      exact ⟨by omega, h.known _ (of_decide_eq_true hcancelled.1)⟩
    next hnot =>
      have hne : k ≠ b' := by
        intro heq
        rcases hc.single heq with hzero | hboth
        · omega
        · exact hnot ⟨hboth.2, hboth.1⟩
      exact ⟨by omega, by unfold BookingChain.length; omega⟩
  exact chain.increasing _ _ hlatest.1 hlatest.2

/-- What a move writes after a fold makes the survivor the meeting of both. -/
theorem afterFold_set (meetingId : Uuid) (a : Nat) {closed : Bool} {w : MeetingWrite}
    (hopen : ¬ (closed = true ∧ b = chain.last)) (hbefore : chain.createdAt b < chain.createdAt k)
    (hnewer : chain.createdAt k < (chain.meeting firmId closed source k b').lastEventAt)
    (htimes : w.timesChange = true) :
    (afterFold (chain.meeting firmId closed meetingId a b) (chain.meeting firmId closed source k b')
        (chain.createdAt k) w).set (chain.meeting firmId closed meetingId a b)
      = chain.meeting firmId closed meetingId a b' := by
  have hstate : stateOf (chain.meeting firmId closed source k b')
      = ⟨(chain.meeting firmId closed meetingId a b').state, none, unconfirmed⟩ := by
    rw [stateOf, meeting_unconfirmed]
    rfl
  have hmax : max (chain.meeting firmId closed meetingId a b).lastEventAt
      (chain.meeting firmId closed source k b').lastEventAt
      = (chain.meeting firmId closed meetingId a b').lastEventAt := by
    apply max_eq_right
    have hold : (chain.meeting firmId closed meetingId a b).lastEventAt = chain.createdAt b := by
      simp [BookingChain.meeting, BookingChain.latest, hopen]
    rw [hold]
    exact (lt_trans hbefore hnewer).le
  have hends : max (max (chain.endsAt b') (chain.startsAt b')) (chain.startsAt b')
      = max (chain.endsAt b') (chain.startsAt b') := max_eq_left (le_max_right _ _)
  rw [afterFold_chain hnewer meeting_unconfirmed meeting_unconfirmed, hstate]
  unfold MeetingWrite.set
  simp only [htimes, if_true, Option.getD_some, Option.elim_some, hmax]
  unfold BookingChain.meeting
  simp only [hends]
  rfl

/-- Two meetings, the second from the uid after the first's last. -/
structure Adjoin (chain : BookingChain) (firmId : Option Uuid) (closed : Bool) (db : MeetingsDb)
    (meetingId source : Uuid) (a k b' : Nat) : Prop where
  first : Covers chain firmId closed db meetingId a (k - 1)
  second : Covers chain firmId closed db source k b'
  apart : meetingId ≠ source
  pos : 0 < k

/-- Together they have the uids from the first's first to the second's last. -/
theorem Adjoin.owned {closed : Bool} (h : Adjoin chain firmId closed db meetingId source a k b')
    {j : Nat} (hj : j ≤ chain.last) {i : Uuid} (hi : chain.home db j = some i) :
    i = meetingId ∨ i = source ↔ a ≤ j ∧ j ≤ b' := by
  have hfirst := h.first.homes j hj
  have hsecond := h.second.homes j hj
  have hpos := h.pos
  have hordered := h.first.ordered
  have hordered' := h.second.ordered
  rw [hi, Option.some.injEq] at hfirst hsecond
  rw [hfirst, hsecond]
  omega

theorem Adjoin.homes {closed : Bool} (h : Adjoin chain firmId closed db meetingId source a k b')
    {j : Nat} (hj : j ≤ chain.last) :
    (chain.home db j).map (fun i => if i = source then meetingId else i)
      = if a ≤ j ∧ j ≤ b' then some meetingId else chain.home db j := by
  have hfirst := h.first.homes j hj
  have hsecond := h.second.homes j hj
  cases hhome : chain.home db j with
  | none =>
    rw [hhome] at hfirst hsecond
    have hout : ¬ (a ≤ j ∧ j ≤ b') := by
      have hpos := h.pos
      simp only [reduceCtorEq, false_iff] at hfirst hsecond
      omega
    rw [if_neg hout]
    rfl
  | some i =>
    rw [Option.map_some]
    by_cases hi : i = meetingId ∨ i = source
    · rw [if_pos ((h.owned hj hhome).1 hi)]
      rcases hi with rfl | rfl
      · exact congrArg some (if_neg h.apart)
      · exact congrArg some (if_pos rfl)
    · rw [if_neg fun hin => hi ((h.owned hj hhome).2 hin)]
      exact congrArg some (if_neg fun hsource => hi (.inr hsource))

/-- The fold of the second into the first goes through. -/
theorem Adjoin.fold (h : Converging chain firmId done db) {db' : MeetingsDb}
    (hadjoin : Adjoin chain firmId (chain.closed done) db meetingId source a k b')
    (hmeetings : db'.meetings = db.meetings)
    (hhomes : ∀ j ≤ chain.last, chain.home db' j = chain.home db j) :
    ∃ dbf, foldReplacement (chain.meeting firmId (chain.closed done) meetingId a (k - 1))
        (chain.meeting firmId (chain.closed done) source k b') db' = some dbf ∧
      (∀ i, dbf.meetings.find? i = if i = source then none else db.meetings.find? i) ∧
      (∀ j ≤ chain.last, chain.home dbf j
        = if a ≤ j ∧ j ≤ b' then some meetingId else chain.home db j) ∧
      dbf.events = db'.events ∧
      uidsFree dbf.meetings (chain.meeting firmId (chain.closed done) meetingId a b') = true := by
  have ⟨hc, hc', hne, _⟩ := hadjoin
  have ha : a ≤ chain.last := le_trans hc.ordered hc.within
  have hbegins : chain.home db a = some meetingId := (hc.homes a ha).2 ⟨le_refl _, hc.ordered⟩
  have hends : chain.home db (k - 1) = some meetingId :=
    (hc.homes _ hc.within).2 ⟨hc.ordered, le_refl _⟩
  have hlast : chain.home db b' = some source :=
    (hc'.homes b' hc'.within).2 ⟨hc'.ordered, le_refl _⟩
  have hfree : uidsFree db'.meetings
      (chain.meeting firmId (chain.closed done) meetingId a (k - 1)) = true := by
    rw [hmeetings]
    apply h.uidsFree (fun _ hm _ => hm) rfl ha hc.within rfl rfl
    · intro x _ hx hhome
      exact hx (Option.some.inj (hbegins.symm.trans hhome)).symm
    · intro x _ hx hhome
      exact hx (Option.some.inj (hends.symm.trans hhome)).symm
  obtain ⟨dbf, hfold, hrows, hfolded, hevents⟩ := foldReplacement_ok chain
    (chain.meeting firmId (chain.closed done) source k b') hne (hmeetings ▸ hc.row)
    (by unfold BookingChain.meeting; cases chain.attendee <;> rfl)
    (by unfold BookingChain.meeting; cases firmId <;> rfl) meeting_checks hfree
  have hold : ∀ x ∈ dbf.meetings.rows, x.id ≠ source ∧ x ∈ db.meetings.rows := by
    intro x hx
    have hfind := hrows x.id
    rw [Table.find?_eq_some.2 ⟨hx, rfl⟩, hmeetings] at hfind
    split at hfind
    · cases hfind
    next hi => exact ⟨hi, (Table.find?_eq_some.1 hfind.symm).1⟩
  refine ⟨dbf, hfold, fun i => ?_, fun j hj => ?_, hevents, ?_⟩
  · rw [hrows, hmeetings]
    rfl
  · rw [hfolded, hhomes j hj]
    exact hadjoin.homes hj
  · apply h.uidsFree (fun x hx _ => (hold x hx).2) rfl ha hc'.within rfl rfl
    · intro x _ hx hhome
      exact hx (Option.some.inj (hbegins.symm.trans hhome)).symm
    · intro x hx _ hhome
      exact (hold x hx).1 (Option.some.inj (hlast.symm.trans hhome)).symm

/-- A move that finds both rows joins them. -/
theorem fold_converges (h : Converging chain firmId done db) {db' : MeetingsDb}
    (hadjoin : Adjoin chain firmId (chain.closed done) db meetingId source a k b')
    (hevent : delivery.event = chain.event k) (hk : k < chain.length)
    (hmeetings : db'.meetings = db.meetings) (hevents : db'.events = db.events)
    (hhomes : ∀ j ≤ chain.last, chain.home db' j = chain.home db j)
    (hreplacement : replacementOf (chain.kind k) delivery.event (chain.uid (chain.start k))
      (chain.meeting firmId (chain.closed done) meetingId a (k - 1)) db'
        = some (chain.meeting firmId (chain.closed done) source k b')) :
    Advances chain firmId done k delivery.newId db
      (changeMeeting attendeeKey delivery (chain.kind k) (chain.createdAt k)
        (chain.uid (chain.start k)) (chain.meeting firmId (chain.closed done) meetingId a (k - 1))
        db') := by
  have ⟨hc, hc', hne, hpos⟩ := hadjoin
  have hordered := hc.ordered
  have hordered' := hc'.ordered
  have hwithin' := hc'.within
  have hle : k ≤ chain.last := le_trans hordered' hwithin'
  have hmin : min k chain.last = k := Nat.min_eq_left hle
  have hopen : ¬ (chain.closed done = true ∧ k - 1 = chain.last) := by omega
  have hclosed : chain.closed (k :: done) = chain.closed done := BookingChain.closed_cons hle done
  obtain ⟨w, -, -, -, htimes, -, hchange⟩ := changeMeeting_chain attendeeKey firmId
    meetingId a db' false hevent hopen (by omega) (by omega) (by omega) hk (by simp; omega)
  obtain ⟨dbf, hfold, hrows, hjoined, hfoldEvents, hfree⟩ := hadjoin.fold h hmeetings hhomes
  simp only [hreplacement, foldConflict_chain, hfold, Option.isSome_none, Bool.false_eq_true,
    if_false, Option.bind_some] at hchange
  have hset := afterFold_set meetingId a hopen
    (chain.increasing (k - 1) k (by omega) hk) (h.replacement_newer hc' hpos) htimes
  have hthere : dbf.meetings.find?
      (chain.meeting firmId (chain.closed done) meetingId a (k - 1)).id
      = some (chain.meeting firmId (chain.closed done) meetingId a (k - 1)) := by
    rw [hrows]
    exact (if_neg hne).trans hc.row
  obtain ⟨applied, hwrite⟩ := writeMeeting_ok delivery false hthere hset meeting_checks hfree rfl
  rw [hwrite] at hchange
  have hafter : ∀ i, (dbf.meetings.upsert
      (chain.meeting firmId (chain.closed done) meetingId a b')).find? i
      = if i = meetingId then some (chain.meeting firmId (chain.closed done) meetingId a b')
        else if i = source then none else db.meetings.find? i := by
    intro i
    rw [find?_upsert_row, hrows]
    rfl
  refine ⟨applied, _, hchange, ?_, hfoldEvents.trans hevents, fun i m hm => ?_⟩
  · have hstart : a ≤ chain.start k := by
      rw [(chain.start_spec k).2.1 hpos hle]
      exact hordered
    refine h.write meetingId [source] hk hstart (by omega) hwithin' (fun heq => ?_)
      (fun i => ?_) (fun j hj => ?_) (fun j hj i hi => ?_)
    · omega
    · simp only [hclosed, List.mem_singleton]
      exact hafter i
    · rw [hevent]
      refine Eq.trans ?_ (hjoined j hj)
      refine home_alias_within (a := a) { dbf with meetings := dbf.meetings.upsert _ }
        [a, b', min k chain.last] ?_ hwithin' (fun i hi hin => ?_) hj
      · simp only [List.mem_cons, List.not_mem_nil, or_false]
        omega
      · exact (hjoined i hi).trans (if_pos hin)
    · rw [List.mem_singleton]
      exact hadjoin.owned hj hi
  · right
    replace hm : (dbf.meetings.upsert
      (chain.meeting firmId (chain.closed done) meetingId a b')).find? i = some m := hm
    rw [hafter] at hm
    split at hm
    next hi => exact ⟨_, hi ▸ hc.row⟩
    next =>
      split at hm
      · cases hm
      · exact ⟨m, hm⟩

/-! ### A move -/

theorem kind_moved (hpos : 0 < k) (hle : k ≤ chain.last) :
    chain.kind k = .bookingRescheduled := by
  simp [BookingChain.kind, Nat.ne_of_gt hpos, hle]

/-- The uid a move gives is not the one it takes the booking from. -/
theorem moved_uid (hevent : delivery.event = chain.event k) (hpos : 0 < k) (hle : k ≤ chain.last) :
    delivery.event.uid = some (chain.uid k) ∧ delivery.event.uid ≠ some (chain.uid (k - 1)) := by
  have huid : delivery.event.uid = some (chain.uid k) := by
    rw [hevent]
    simp [BookingChain.event, Nat.min_eq_left hle]
  refine ⟨huid, ?_⟩
  rw [huid]
  intro hsame
  have := chain.distinct k hle (k - 1) (by omega) (Option.some.inj hsame)
  omega

/-- The uids a move names become the meeting's where they have none. -/
theorem home_pair (db : MeetingsDb) (i : Uuid) (hle : k ≤ chain.last) {j : Nat}
    (hj : j ≤ chain.last) :
    chain.home (db.aliasMeeting i [some (chain.uid (k - 1)), some (chain.uid k)]) j
      = (chain.home db j <|> if k - 1 ≤ j ∧ j ≤ k then some i else none) := by
  rw [home_alias]
  simp only [chain.uid_pair (Nat.sub_le k 1) (by omega) hle hj]

/-- A move of a meeting that has its first uid names both. -/
theorem identify_moved {m : MeetingRow} (hevent : delivery.event = chain.event k) (hpos : 0 < k)
    (hle : k ≤ chain.last) :
    identify (chain.kind k) delivery.event (chain.uid (chain.start k)) false m db
      = some (m, db.aliasMeeting m.id [some (chain.uid (k - 1)), some (chain.uid k)]) := by
  rw [(chain.start_spec k).2.1 hpos hle, kind_moved hpos hle]
  simp only [identify, Bool.false_eq_true, if_false, if_true, Option.bind_eq_bind,
    Option.bind_some, (moved_uid hevent hpos hle).1]

/-- The row a move joins is that of its second uid, where it is another's. -/
theorem replacementOf_moved (m m' : MeetingRow) (hevent : delivery.event = chain.event k)
    (hpos : 0 < k) (hle : k ≤ chain.last) (hhome : chain.home db k = some m'.id)
    (hrow : db.meetings.find? m'.id = some m') :
    replacementOf (chain.kind k) delivery.event (chain.uid (chain.start k)) m db
      = if m'.id = m.id then none else some m' := by
  obtain ⟨huid, hother⟩ := moved_uid hevent hpos hle
  have hfound : db.meetingByUid (chain.uid k) = some m' := by
    apply meetingByUid_of_resolve
    rw [resolve_some]
    exact ⟨home_eq_some.1 hhome, hrow⟩
  rw [replacementOf, (chain.start_spec k).2.1 hpos hle, if_pos ⟨kind_moved hpos hle, hother⟩,
    huid, Option.bind_some, hfound]
  by_cases hsame : m'.id = m.id
  · simp [hsame]
  · simp [hsame]

/-- Only the replacement's row is there: it takes the original's uid. -/
theorem moved_adopts (h : Converging chain firmId done db) (hk : k < chain.length)
    (hpos : 0 < k) (hevent : delivery.event = chain.event k)
    (hfirst : chain.home db (k - 1) = none)
    (hc : Covers chain firmId (chain.closed done) db meetingId k b) :
    Advances chain firmId done k delivery.newId db (applyEvent attendeeKey delivery db) := by
  have hordered := hc.ordered
  have hle : k ≤ chain.last := le_trans hordered hc.within
  have hbefore : k - 1 ≤ chain.last := by omega
  have hstart : chain.start k = k - 1 := (chain.start_spec k).2.1 hpos hle
  have hclosed : chain.closed (k :: done) = chain.closed done := BookingChain.closed_cons hle done
  obtain ⟨huid, hother⟩ := moved_uid hevent hpos hle
  have hlocate : db.locate (chain.kind k) delivery.event (chain.uid (chain.start k))
      = some (chain.meeting firmId (chain.closed done) meetingId k b, true) := by
    rw [MeetingsDb.locate, hstart, h.meetingByUid_none hbefore hfirst]
    simp only [kind_moved hpos hle, true_and, if_pos hother]
    rw [huid, Option.bind_some, hc.meetingByUid hle ⟨le_refl _, hordered⟩]
    simp [BookingChain.meeting]
  have hlast : chain.home db b = some meetingId :=
    (hc.homes b hc.within).2 ⟨hordered, le_refl _⟩
  have hfree : uidsFree db.meetings
      (chain.meeting firmId (chain.closed done) meetingId (k - 1) b) = true := by
    apply h.uidsFree (fun _ hm _ => hm) rfl hbefore hc.within rfl rfl
    · intro x _ _
      rw [hfirst]
      exact nofun
    · intro x _ hx hhome
      exact hx (Option.some.inj (hlast.symm.trans hhome)).symm
  have hadopt : db.updateMeeting meetingId (fun row => some row.bookingUid = delivery.event.uid)
      (fun row => { row with bookingUid := chain.uid (k - 1) }) = _ :=
    updateMeeting_ok hc.row (by simp [huid, BookingChain.meeting]) rfl meeting_checks hfree
  have hidentify : identify (chain.kind k) delivery.event (chain.uid (chain.start k)) true
      (chain.meeting firmId (chain.closed done) meetingId k b) db
      = some (chain.meeting firmId (chain.closed done) meetingId (k - 1) b,
        MeetingsDb.aliasMeeting meetingId [some (chain.uid (k - 1)), some (chain.uid k)]
          ⟨db.meetings.upsert (chain.meeting firmId (chain.closed done) meetingId (k - 1) b),
            db.aliases, db.events⟩) := by
    rw [hstart, kind_moved hpos hle]
    simp only [identify, if_true, Option.bind_eq_bind]
    rw [show (chain.meeting firmId (chain.closed done) meetingId k b).id = meetingId from rfl,
      hadopt, huid]
    rfl
  have hstale : k < b ∨ chain.closed done = true ∧ b = chain.last := by
    rcases Nat.eq_or_lt_of_le hordered with heq | hlt
    · rcases hc.single heq with hzero | hboth
      · omega
      · exact .inr ⟨hboth.2, hboth.1⟩
    · exact .inl hlt
  rw [applyEvent_found hevent hlocate hidentify rfl, if_pos ((hc.stale_iff hk).2 hstale)]
  refine ⟨_, _, rfl, ?_, rfl, fun i m hm => ?_⟩
  · apply h.extend meetingId hk hstart.ge (by omega) hc.within
    · omega
    · intro i
      rw [hclosed]
      exact find?_upsert_row
    · intro j hj
      rw [home_pair _ _ hle hj]
      show (chain.home db j <|> _) = _
      by_cases hinside : k - 1 ≤ j ∧ j ≤ b
      · rw [if_pos hinside]
        by_cases hnamed : j = k - 1
        · rw [hnamed, hfirst, if_pos (by omega)]
          rfl
        · rw [(hc.homes j hj).2 (by omega)]
          rfl
      · have hout : ¬ (k - 1 ≤ j ∧ j ≤ k) := by omega
        rw [if_neg hinside, if_neg hout]
        cases chain.home db j <;> rfl
    · intro j hj hi
      have hinside := (hc.homes j hj).1 hi
      omega
    · intro j hinside i hi
      by_cases hnamed : j = k - 1
      · rw [hnamed, hfirst] at hi
        cases hi
      · have hj : j ≤ chain.last := le_trans hinside.2 hc.within
        exact Option.some.inj (hi.symm.trans ((hc.homes j hj).2 (by omega)))
  · right
    replace hm : (db.meetings.upsert
      (chain.meeting firmId (chain.closed done) meetingId (k - 1) b)).find? i = some m := hm
    rw [find?_upsert_row] at hm
    split at hm
    next hi => exact ⟨_, (show i = meetingId from hi) ▸ hc.row⟩
    next => exact ⟨m, hm⟩

/-- Both rows are there. -/
theorem moved_joins (h : Converging chain firmId done db) (hk : k < chain.length)
    (hevent : delivery.event = chain.event k)
    (hadjoin : Adjoin chain firmId (chain.closed done) db meetingId source a k b') :
    Advances chain firmId done k delivery.newId db
      (changeMeeting attendeeKey delivery (chain.kind k) (chain.createdAt k)
        (chain.uid (chain.start k)) (chain.meeting firmId (chain.closed done) meetingId a (k - 1))
        (db.aliasMeeting meetingId [some (chain.uid (k - 1)), some (chain.uid k)])) := by
  have ⟨hc, hc', hne, hpos⟩ := hadjoin
  have hle : k ≤ chain.last := le_trans hc'.ordered hc'.within
  have hhomes : ∀ j ≤ chain.last, chain.home
      (db.aliasMeeting meetingId [some (chain.uid (k - 1)), some (chain.uid k)]) j
        = chain.home db j := by
    intro j hj
    rw [home_pair _ _ hle hj]
    by_cases hnamed : k - 1 ≤ j ∧ j ≤ k
    · have hends : j = k - 1 ∨ j = k := by omega
      rcases hends with rfl | rfl
      · rw [(hc.homes _ hj).2 ⟨hc.ordered, le_refl _⟩]
        rfl
      · rw [(hc'.homes _ hj).2 ⟨le_refl _, hc'.ordered⟩]
        rfl
    · rw [if_neg hnamed]
      cases chain.home db j <;> rfl
  have hsource : chain.home db k = some source := (hc'.homes k hle).2 ⟨le_refl _, hc'.ordered⟩
  refine fold_converges h hadjoin hevent hk rfl rfl hhomes ?_
  rw [replacementOf_moved _ (chain.meeting firmId (chain.closed done) source k b') hevent hpos
    hle ((hhomes k hle).trans hsource) hc'.row]
  exact if_neg hne.symm

/-- Only the original's row is there: it takes the replacement's uid. -/
theorem moved_extends (h : Converging chain firmId done db) (hk : k < chain.length)
    (hpos : 0 < k) (hle : k ≤ chain.last) (hevent : delivery.event = chain.event k)
    (hc : Covers chain firmId (chain.closed done) db meetingId a b) (hin : a ≤ k - 1 ∧ k - 1 ≤ b)
    (hb : b ≤ k) (hopen : ¬ (chain.closed done = true ∧ b = chain.last))
    (hfree : ∀ i, chain.home db k = some i → i = meetingId) :
    Advances chain firmId done k delivery.newId db
      (changeMeeting attendeeKey delivery (chain.kind k) (chain.createdAt k)
        (chain.uid (chain.start k)) (chain.meeting firmId (chain.closed done) meetingId a b)
        (db.aliasMeeting meetingId [some (chain.uid (k - 1)), some (chain.uid k)])) := by
  have hmin : min k chain.last = k := Nat.min_eq_left hle
  have hstart : chain.start k = k - 1 := (chain.start_spec k).2.1 hpos hle
  have hbefore : k - 1 ≤ chain.last := by omega
  have hhomes : ∀ j ≤ chain.last, chain.home
      (db.aliasMeeting meetingId [some (chain.uid (k - 1)), some (chain.uid k)]) j
        = if a ≤ j ∧ j ≤ min k chain.last then some meetingId else chain.home db j := by
    intro j hj
    rw [home_pair _ _ hle hj, hmin]
    by_cases hnamed : k - 1 ≤ j ∧ j ≤ k
    · rw [if_pos hnamed, if_pos (by omega)]
      have hends : j = k - 1 ∨ j = k := by omega
      rcases hends with rfl | rfl
      · rw [(hc.homes _ hj).2 hin]
        rfl
      · cases hhome : chain.home db j with
        | none => rfl
        | some i =>
          rw [hfree i hhome]
          rfl
    · rw [if_neg hnamed]
      split
      next hwithin =>
        rw [(hc.homes j hj).2 (by omega)]
        rfl
      next => cases chain.home db j <;> rfl
  refine write_converges h hc hevent hk hopen (by omega) (by omega) (by omega) (by omega)
    (by omega) rfl rfl hhomes (fun j hj i hi => ?_) ?_
  · by_cases hlast : j = k
    · exact hfree i (hlast ▸ hi)
    · exact Option.some.inj (hi.symm.trans ((hc.homes j (by omega)).2 (by omega)))
  · have hhome := (hhomes k hle).trans (if_pos (by omega))
    rw [replacementOf_moved _ (chain.meeting firmId (chain.closed done) meetingId a b) hevent
      hpos hle hhome hc.row]
    exact if_pos rfl

/-- The original's row is there: the event is stale, joins another row or only extends it. -/
theorem moved_found (h : Converging chain firmId done db) (hk : k < chain.length)
    (hpos : 0 < k) (hle : k ≤ chain.last) (hevent : delivery.event = chain.event k)
    (hc : Covers chain firmId (chain.closed done) db meetingId a b)
    (hin : a ≤ k - 1 ∧ k - 1 ≤ b) :
    Advances chain firmId done k delivery.newId db (applyEvent attendeeKey delivery db) := by
  have hstart : chain.start k = k - 1 := (chain.start_spec k).2.1 hpos hle
  have hbefore : k - 1 ≤ chain.last := by omega
  have hfirst : chain.home db (k - 1) = some meetingId := (hc.homes _ hbefore).2 hin
  have hlocate : db.locate (chain.kind k) delivery.event (chain.uid (chain.start k))
      = some (chain.meeting firmId (chain.closed done) meetingId a b, false) := by
    rw [MeetingsDb.locate, hstart, hc.meetingByUid hbefore hin]
  rw [applyEvent_found hevent hlocate (identify_moved hevent hpos hle) rfl]
  split
  next hstale =>
    rw [hc.stale_iff hk] at hstale
    have hkb : k ≤ b := by omega
    refine ⟨_, _, rfl, h.idle hc hk (by omega) (by omega) (BookingChain.closed_cons hle done) rfl
      (fun j hj => ?_), rfl, fun i m hm => .inr ⟨m, hm⟩⟩
    exact home_alias_within (a := a) db [k - 1, k] (by simp; omega) hc.within
      (fun i hi => (hc.homes i hi).2) hj
  next hnew =>
    rw [hc.stale_iff hk, not_or, not_lt] at hnew
    by_cases hjoin : ∃ source, chain.home db k = some source ∧ source ≠ meetingId
    · obtain ⟨source, hsource, hne⟩ := hjoin
      obtain ⟨a', b', hc', hin'⟩ := h.stretch hle hsource
      have hends : b = k - 1 := by
        by_contra hlong
        rw [(hc.homes k hle).2 (by omega)] at hsource
        exact hne (Option.some.inj hsource).symm
      have hbegins : a' = k := by
        by_contra hlong
        rw [(hc'.homes (k - 1) hbefore).2 (by omega)] at hfirst
        exact hne (Option.some.inj hfirst)
      subst hends hbegins
      exact moved_joins h hk hevent ⟨hc, hc', hne.symm, hpos⟩
    · apply moved_extends h hk hpos hle hevent hc hin hnew.1 hnew.2
      intro i hi
      by_contra hne
      exact hjoin ⟨i, hi, hne⟩

/-- A move: the rows of both its uids, of one, or of none. -/
theorem moved_converges (h : Converging chain firmId done db) (hk : k < chain.length)
    (hpos : 0 < k) (hle : k ≤ chain.last) (hevent : delivery.event = chain.event k)
    (hfirm : delivery.matching.firmId = firmId)
    (hfresh : db.meetings.find? delivery.newId = none) :
    Advances chain firmId done k delivery.newId db (applyEvent attendeeKey delivery db) := by
  have hmin : min k chain.last = k := Nat.min_eq_left hle
  have hstart : chain.start k = k - 1 := (chain.start_spec k).2.1 hpos hle
  have hbefore : k - 1 ≤ chain.last := by omega
  cases hfirst : chain.home db (k - 1) with
  | some meetingId =>
    obtain ⟨a, b, hc, hin⟩ := h.stretch hbefore hfirst
    exact moved_found h hk hpos hle hevent hc hin
  | none =>
    cases hsecond : chain.home db k with
    | some meetingId =>
      obtain ⟨a, b, hc, hin⟩ := h.stretch hle hsecond
      have ha : a = k := by
        by_contra hne
        rw [(hc.homes (k - 1) hbefore).2 (by omega)] at hfirst
        cases hfirst
      subst ha
      exact moved_adopts h hk hpos hevent hfirst hc
    | none =>
      have hlocate : db.locate (chain.kind k) delivery.event (chain.uid (chain.start k))
          = none := by
        rw [MeetingsDb.locate, hstart, h.meetingByUid_none hbefore hfirst,
          (moved_uid hevent hpos hle).1]
        simp [h.meetingByUid_none hle hsecond]
      rw [applyEvent_open hevent hlocate]
      exact open_converges h hk hevent hfirm hfresh (hstart ▸ hfirst) (hmin.symm ▸ hsecond)

variable (attendeeKey) in
theorem applyEvent_converges (h : Converging chain firmId done db) (hk : k < chain.length)
    (hevent : delivery.event = chain.event k) (hfirm : delivery.matching.firmId = firmId)
    (hfresh : db.meetings.find? delivery.newId = none) :
    Advances chain firmId done k delivery.newId db (applyEvent attendeeKey delivery db) := by
  by_cases hkind : chain.kind k = .bookingRescheduled
  · have hmoved : 0 < k ∧ k ≤ chain.last := by
      unfold BookingChain.kind at hkind
      split_ifs at hkind
      omega
    exact moved_converges h hk hmoved.1 hmoved.2 hevent hfirm hfresh
  · exact single_converges h hk hkind hevent hfirm hfresh

end Moves

/-! ## Every order -/

section Orders

variable {attendeeKey : JsString → JsString} {chain : BookingChain} {firmId : Option Uuid}
  {done : List Nat} {db : MeetingsDb}

/-- Which deliveries the tables are the outcome of. -/
structure Received (chain : BookingChain) (firmId : Option Uuid) (deliveries : List Delivery)
    (done : List Nat) (db : MeetingsDb) : Prop where
  converging : Converging chain firmId done db
  applied : ∀ d ∈ deliveries, ∃ k ∈ done, d.event = chain.event k
  logged : ∀ e ∈ db.events, ∃ d ∈ deliveries, d.eventId = e
  opened : ∀ i m, db.meetings.find? i = some m → ∃ d ∈ deliveries, d.newId = i

/-- The deliveries are those of the booking, each under its own id, for one firm. -/
structure Deliveries (chain : BookingChain) (firmId : Option Uuid) (deliveries : List Delivery) :
    Prop where
  matched : ∀ d ∈ deliveries, d.matching.firmId = firmId
  events : ∀ d ∈ deliveries, ∃ k < chain.length, d.event = chain.event k
  ids : ∀ d ∈ deliveries, ∀ d' ∈ deliveries, d.eventId = d'.eventId → d.event = d'.event
  fresh : (deliveries.map Delivery.newId).Nodup

theorem Deliveries.front {deliveries : List Delivery} {delivery : Delivery}
    (h : Deliveries chain firmId (deliveries ++ [delivery])) :
    Deliveries chain firmId deliveries := by
  have hsub : ∀ d ∈ deliveries, d ∈ deliveries ++ [delivery] :=
    fun d hd => List.mem_append_left _ hd
  refine ⟨fun d hd => h.matched d (hsub d hd), fun d hd => h.events d (hsub d hd),
    fun d hd d' hd' => h.ids d (hsub d hd) d' (hsub d' hd'), ?_⟩
  have hfresh := h.fresh
  rw [List.map_append] at hfresh
  exact (List.nodup_append.1 hfresh).1

theorem converging_empty : Converging chain firmId [] MeetingsDb.empty where
  known k hk := by cases hk
  covered i m hm := by simp [MeetingsDb.empty] at hm
  live j _ i hi := by simp [BookingChain.home, MeetingsDb.empty] at hi
  linked k hk := by cases hk
  seen k hk := by cases hk

theorem Converging.withEvents (h : Converging chain firmId done db) (events : List JsString) :
    Converging chain firmId done { db with events } where
  known := h.known
  covered i m hm := by
    obtain ⟨a, b, hc⟩ := h.covered i m hm
    exact ⟨a, b, hc.ordered, hc.within, hc.single, hc.row, hc.homes⟩
  live := h.live
  linked := h.linked
  seen := h.seen

/-- One more delivery of the booking. -/
theorem received_step {deliveries : List Delivery} {delivery : Delivery}
    (h : Received chain firmId deliveries done db)
    (hall : Deliveries chain firmId (deliveries ++ [delivery])) :
    ∃ done, Received chain firmId (deliveries ++ [delivery]) done
      (meetingStep attendeeKey db (.receive delivery)) := by
  have hmem : delivery ∈ deliveries ++ [delivery] := by simp
  have hsub : ∀ d ∈ deliveries, d ∈ deliveries ++ [delivery] :=
    fun d hd => List.mem_append_left _ hd
  by_cases hduplicate : delivery.eventId ∈ db.events
  · have hstep : meetingStep attendeeKey db (.receive delivery) = db := by
      simp [meetingStep, MeetingAction.commits, receiveCalcomEvent, hduplicate]
    rw [hstep]
    obtain ⟨d', hd', hid⟩ := h.logged _ hduplicate
    refine ⟨done, h.converging, fun d hd => ?_, fun e he => ?_, fun i m hm => ?_⟩
    · rcases List.mem_append.1 hd with hd | hd
      · exact h.applied d hd
      · obtain ⟨k, hk, hevent⟩ := h.applied d' hd'
        rw [List.mem_singleton] at hd
        subst hd
        exact ⟨k, hk, (hall.ids d' (hsub d' hd') d hmem hid).symm.trans hevent⟩
    · obtain ⟨d, hd, hsame⟩ := h.logged e he
      exact ⟨d, hsub d hd, hsame⟩
    · obtain ⟨d, hd, hsame⟩ := h.opened i m hm
      exact ⟨d, hsub d hd, hsame⟩
  · obtain ⟨k, hk, hevent⟩ := hall.events delivery hmem
    have hfresh : db.meetings.find? delivery.newId = none := by
      cases hfind : db.meetings.find? delivery.newId with
      | none => rfl
      | some m =>
        obtain ⟨d, hd, hsame⟩ := h.opened _ m hfind
        have hnodup := hall.fresh
        rw [List.map_append, List.nodup_append] at hnodup
        exact absurd hsame (hnodup.2.2 d.newId (List.mem_map_of_mem hd) delivery.newId (by simp))
    obtain ⟨applied, db', happly, hconverging, hevents, hrows⟩ := applyEvent_converges
      attendeeKey (h.converging.withEvents (delivery.eventId :: db.events)) hk
      hevent (hall.matched delivery hmem) hfresh
    have hstep : meetingStep attendeeKey db (.receive delivery) = db' := by
      simp [meetingStep, MeetingAction.commits, receiveCalcomEvent, hduplicate, happly]
    rw [hstep]
    refine ⟨k :: done, hconverging, fun d hd => ?_, fun e he => ?_, fun i m hm => ?_⟩
    · rcases List.mem_append.1 hd with hd | hd
      · obtain ⟨k', hk', hsame⟩ := h.applied d hd
        exact ⟨k', List.mem_cons_of_mem _ hk', hsame⟩
      · rw [List.mem_singleton] at hd
        exact ⟨k, List.mem_cons_self, hd ▸ hevent⟩
    · rw [hevents] at he
      rcases List.mem_cons.1 he with rfl | he
      · exact ⟨delivery, hmem, rfl⟩
      · obtain ⟨d, hd, hsame⟩ := h.logged e he
        exact ⟨d, hsub d hd, hsame⟩
    · rcases hrows i m hm with rfl | ⟨x, hx⟩
      · exact ⟨delivery, hmem, rfl⟩
      · obtain ⟨d, hd, hsame⟩ := h.opened i x hx
        exact ⟨d, hsub d hd, hsame⟩

variable (attendeeKey) in
theorem received_run (deliveries : List Delivery) (h : Deliveries chain firmId deliveries) :
    ∃ done, Received chain firmId deliveries done
      (meetingRun attendeeKey (deliveries.map MeetingAction.receive)) := by
  induction deliveries using List.reverseRecOn with
  | nil =>
    refine ⟨[], converging_empty, fun d hd => ?_, fun e he => ?_, fun i m hm => ?_⟩
    · cases hd
    · cases he
    · simp [meetingRun, MeetingsDb.empty] at hm
  | append_singleton deliveries delivery ih =>
    obtain ⟨done, hreceived⟩ := ih h.front
    rw [List.map_append, List.map_singleton, meetingRun_snoc]
    exact received_step hreceived h

theorem event_injective {k k' : Nat} (hk : k < chain.length) (hk' : k' < chain.length)
    (h : chain.event k = chain.event k') : k = k' := by
  have hcreated : chain.createdAt k = chain.createdAt k' :=
    Option.some.inj (congrArg ParsedEvent.createdAt h)
  rcases lt_trichotomy k k' with hlt | heq | hgt
  · exact absurd hcreated (chain.increasing k k' hlt hk').ne
  · exact heq
  · exact absurd hcreated (chain.increasing k' k hgt hk).ne'

/-- Once every event is applied all uids are one meeting, and there is no other. -/
theorem Converging.one (h : Converging chain firmId done db)
    (hall : ∀ k < chain.length, k ∈ done) :
    ∃ meetingId, Covers chain firmId chain.cancelled db meetingId 0 chain.last ∧
      db.meetings.rows = [chain.meeting firmId chain.cancelled meetingId 0 chain.last] := by
  have hclosed : chain.closed done = chain.cancelled := by
    cases hcancelled : chain.cancelled with
    | true =>
      exact decide_eq_true (hall _ (by simp [BookingChain.length, hcancelled]))
    | false =>
      apply decide_eq_false
      intro hmem
      have hlt := h.known _ hmem
      simp [BookingChain.length, hcancelled] at hlt
  have hin : ∀ k ≤ chain.last, k ∈ done := fun k hk => hall k (by unfold BookingChain.length; omega)
  obtain ⟨meetingId, hfirst⟩ := h.seen 0 (hin 0 (Nat.zero_le _))
  rw [Nat.zero_min] at hfirst
  have hhomes : ∀ j ≤ chain.last, chain.home db j = some meetingId := by
    intro j
    induction j with
    | zero => exact fun _ => hfirst
    | succ j ih =>
      intro hj
      rw [← h.linked (j + 1) (hin _ hj) (Nat.succ_pos _) hj]
      exact ih (by omega)
  obtain ⟨a, b, hc, ha, -⟩ := h.stretch (Nat.zero_le _) hfirst
  have hb := ((hc.homes chain.last (le_refl _)).1 (hhomes _ (le_refl _))).2
  obtain rfl : a = 0 := Nat.le_zero.1 ha
  obtain rfl : b = chain.last := le_antisymm hc.within hb
  rw [hclosed] at hc
  refine ⟨meetingId, hc, ?_⟩
  have honly : ∀ m ∈ db.meetings.rows,
      m = chain.meeting firmId chain.cancelled meetingId 0 chain.last := by
    intro m hm
    have hfind := Table.find?_eq_some.2 ⟨hm, rfl⟩
    obtain ⟨a', b', hc'⟩ := h.covered m.id m hfind
    have ha' : a' ≤ chain.last := le_trans hc'.ordered hc'.within
    have hid : m.id = meetingId := Option.some.inj
      (((hc'.homes a' ha').2 ⟨le_refl _, hc'.ordered⟩).symm.trans (hhomes a' ha'))
    rw [hid, hc.row] at hfind
    exact (Option.some.inj hfind).symm
  have hthere := (Table.find?_eq_some.1 hc.row).1
  have hnodup := List.Nodup.of_map _ db.meetings.nodup
  cases hrows : db.meetings.rows with
  | nil =>
    rw [← Table.mem_rows, hrows] at hthere
    cases hthere
  | cons m rest =>
    rw [hrows] at honly hnodup
    have hhead := honly m List.mem_cons_self
    cases rest with
    | nil => rw [hhead]
    | cons m' rest =>
      have hnext := honly m' (by simp)
      simp [hhead, hnext] at hnodup

end Orders

/-- In whatever order the deliveries of a booking come, and however often, they leave one
meeting: that of the booking's end, which every uid is. -/
theorem deliveries_converge (attendeeKey : JsString → JsString) (chain : BookingChain)
    (matching : AttendeeMatch) (deliveries : List Delivery)
    (hmatching : ∀ d ∈ deliveries, d.matching = matching)
    (hevents : ∀ d ∈ deliveries, ∃ k < chain.length, d.event = chain.event k)
    (hdelivered : ∀ k < chain.length, ∃ d ∈ deliveries, d.event = chain.event k)
    (hids : ∀ d ∈ deliveries, ∀ d' ∈ deliveries, d.eventId = d'.eventId → d.event = d'.event)
    (hfresh : (deliveries.map Delivery.newId).Nodup) :
    ∃ m, (meetingRun attendeeKey (deliveries.map MeetingAction.receive)).meetings.rows = [m] ∧
      (∀ i ≤ chain.last,
        (meetingRun attendeeKey (deliveries.map MeetingAction.receive)).resolve (chain.uid i)
          = some m ∧
        (meetingRun attendeeKey (deliveries.map MeetingAction.receive)).meetingByUid (chain.uid i)
          = some m) ∧
      m.bookingUid = chain.uid 0 ∧ m.currentBookingUid = chain.uid chain.last ∧
      m.startsAt = chain.startsAt chain.last ∧
      m.endsAt = max (chain.endsAt chain.last) (chain.startsAt chain.last) ∧
      m.state = (if chain.cancelled then .cancelled
        else if chain.last = 0 then .booked else .rescheduled) ∧
      m.lastEventAt = chain.createdAt (chain.length - 1) := by
  obtain ⟨done, hreceived⟩ := received_run attendeeKey deliveries
    ⟨fun d hd => congrArg AttendeeMatch.firmId (hmatching d hd), hevents, hids, hfresh⟩
  have hall : ∀ k < chain.length, k ∈ done := by
    intro k hk
    obtain ⟨d, hd, hevent⟩ := hdelivered k hk
    obtain ⟨k', hk', hsame⟩ := hreceived.applied d hd
    rw [event_injective hk (hreceived.converging.known k' hk') (hevent.symm.trans hsame)]
    exact hk'
  obtain ⟨meetingId, hc, hrows⟩ := hreceived.converging.one hall
  refine ⟨_, hrows, fun i hi => ?_, rfl, rfl, rfl, rfl, ?_, ?_⟩
  · have hresolve : (meetingRun attendeeKey (deliveries.map MeetingAction.receive)).resolve
        (chain.uid i)
          = some (chain.meeting matching.firmId chain.cancelled meetingId 0 chain.last) :=
      resolve_some.2 ⟨home_eq_some.1 ((hc.homes i hi).2 ⟨Nat.zero_le _, hi⟩), hc.row⟩
    exact ⟨hresolve, meetingByUid_of_resolve hresolve⟩
  · simp [BookingChain.meeting]
  · have hlatest : chain.latest chain.cancelled chain.last = chain.length - 1 := by
      unfold BookingChain.latest BookingChain.length
      cases chain.cancelled <;> simp
    rw [← hlatest]
    rfl

/-! ### A booking told backwards -/

/-- Moved once and then cancelled. -/
def movedBooking : BookingChain where
  last := 1
  cancelled := true
  uid k := if k = 0 then js "booked" else js "moved"
  startsAt k := 1000 + k
  endsAt k := 1030 + k
  createdAt k := k
  attendee := some (js "ada@example.com")
  distinct := by decide
  increasing i j hij _ := by simpa using hij

/-- Its events, last first, and the move once more. -/
def movedBackwards : List Delivery :=
  [⟨js "c", movedBooking.event 2, 10, js "m1", .unmatched⟩,
    ⟨js "b", movedBooking.event 1, 11, js "m2", .unmatched⟩,
    ⟨js "a", movedBooking.event 0, 12, js "m3", .unmatched⟩,
    ⟨js "b'", movedBooking.event 1, 13, js "m4", .unmatched⟩]

theorem deliveries_converge_movedBackwards :
    ∃ m, (meetingRun id (movedBackwards.map MeetingAction.receive)).meetings.rows = [m] ∧
      (∀ i ≤ movedBooking.last,
        (meetingRun id (movedBackwards.map MeetingAction.receive)).resolve (movedBooking.uid i)
          = some m ∧
        (meetingRun id (movedBackwards.map MeetingAction.receive)).meetingByUid
          (movedBooking.uid i) = some m) ∧
      m.bookingUid = movedBooking.uid 0 ∧
      m.currentBookingUid = movedBooking.uid movedBooking.last ∧
      m.startsAt = movedBooking.startsAt movedBooking.last ∧
      m.endsAt = max (movedBooking.endsAt movedBooking.last)
        (movedBooking.startsAt movedBooking.last) ∧
      m.state = (if movedBooking.cancelled then .cancelled
        else if movedBooking.last = 0 then .booked else .rescheduled) ∧
      m.lastEventAt = movedBooking.createdAt (movedBooking.length - 1) := by
  apply deliveries_converge id movedBooking .unmatched movedBackwards <;> decide +kernel

end FoundingSales.Meetings
