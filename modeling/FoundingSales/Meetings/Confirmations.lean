import FoundingSales.Meetings.Calcom

/-!
No delivery and no fold takes a person's word about attendance from a meeting.

Proved here:
* `Carries`: what an operation carries from the rows before it to the rows after it, and
  that it composes;
* one `…_carries` lemma for each operation;
* `confirmations_kept`: over every history.
-/

namespace FoundingSales.Meetings

open Tables Runs

/-! ## What is carried -/

/-- The meeting a uid is recorded as. -/
def MeetingsDb.resolve (db : MeetingsDb) (uid : JsString) : Option MeetingRow :=
  (db.aliases.find? uid).bind fun row => db.meetings.find? row.meetingId

/-- Aliases are those of meetings that exist, and every meeting has its own uid for one. -/
structure Sound (db : MeetingsDb) : Prop where
  live : ∀ uid row, db.aliases.find? uid = some row → ∃ m, db.meetings.find? row.meetingId = some m
  named : ∀ id m, db.meetings.find? id = some m → db.aliases.find? m.bookingUid = some ⟨m.bookingUid, id⟩
  checked : ∀ id m, db.meetings.find? id = some m → meetingChecks m = true

/-- What a person decided. -/
def sameDecision (m m' : MeetingRow) : Prop := m.state = m'.state ∧ attendanceOf m = attendanceOf m'

/-- Of two confirmations by a person, the later one stands. -/
def Survives (m m' : MeetingRow) : Prop :=
  m.lastEventAt ≤ m'.lastEventAt ∧
    (byPerson m = true → byPerson m' = true ∧
      m.attendanceConfirmedAt.getD 0 ≤ m'.attendanceConfirmedAt.getD 0)

theorem survives_refl (m : MeetingRow) : Survives m m := ⟨le_refl _, fun h => ⟨h, le_refl _⟩⟩

theorem survives_trans {a b c : MeetingRow} (hab : Survives a b) (hbc : Survives b c) :
    Survives a c := by
  refine ⟨le_trans hab.1 hbc.1, fun ha => ?_⟩
  obtain ⟨hb, hle⟩ := hab.2 ha
  obtain ⟨hc, hle'⟩ := hbc.2 hb
  exact ⟨hc, le_trans hle hle'⟩

/-- `heir` says which meeting a meeting has become. -/
structure Carries (heir : Uuid → Uuid) (db db' : MeetingsDb) : Prop where
  aliases : ∀ uid row, db.aliases.find? uid = some row →
    db'.aliases.find? uid = some ⟨uid, heir row.meetingId⟩
  meetings : ∀ id m, db.meetings.find? id = some m →
    ∃ m', db'.meetings.find? (heir id) = some m' ∧ Survives m m'
  decided : ∀ id m', db'.meetings.find? id = some m' → byPerson m' = true →
    ∃ old m, db.meetings.find? old = some m ∧ heir old = id ∧ byPerson m = true ∧ sameDecision m m'

theorem alias_eq {aliases : AliasTable} {uid : JsString} {row : AliasRow}
    (h : aliases.find? uid = some row) : row = ⟨uid, row.meetingId⟩ := by
  have hkey : row.bookingUid = uid := Table.find?_key h
  rw [← hkey]

theorem carries_refl (db : MeetingsDb) : Carries id db db where
  aliases uid row h := by rw [h, alias_eq h]; rfl
  meetings i m h := ⟨m, h, survives_refl m⟩
  decided i m' h hperson := ⟨i, m', h, rfl, hperson, rfl, rfl⟩

theorem Carries.trans {heir heir' : Uuid → Uuid} {db db' db'' : MeetingsDb}
    (h : Carries heir db db') (h' : Carries heir' db' db'') :
    Carries (heir' ∘ heir) db db'' where
  aliases uid row hrow := h'.aliases uid _ (h.aliases uid row hrow)
  meetings i m hm := by
    obtain ⟨m', hm', hsurvives⟩ := h.meetings i m hm
    obtain ⟨m'', hm'', hsurvives'⟩ := h'.meetings _ m' hm'
    exact ⟨m'', hm'', survives_trans hsurvives hsurvives'⟩
  decided i m'' hm'' hperson := by
    obtain ⟨mid, m', hm', hheir', hperson', hsame'⟩ := h'.decided i m'' hm'' hperson
    obtain ⟨old, m, hm, hheir, hperson'', hsame⟩ := h.decided mid m' hm' hperson'
    refine ⟨old, m, hm, ?_, hperson'', hsame.1.trans hsame'.1, hsame.2.trans hsame'.2⟩
    rw [Function.comp_apply, hheir, hheir']

/-! ## Writes of one row -/

section Writes

variable {db db' : MeetingsDb} {meetingId : Uuid} {guard : MeetingRow → Bool} {set : MeetingRow → MeetingRow}
  {written : Option MeetingRow}

/-- A row's update, or none. -/
theorem updateMeeting_some (h : db.updateMeeting meetingId guard set = some (written, db')) :
    (written = none ∧ db' = db ∧ ∀ m, db.meetings.find? meetingId = some m → guard m = false) ∨
    ∃ m, db.meetings.find? meetingId = some m ∧ guard m = true ∧ meetingChecks (set m) = true ∧
      uidsFree db.meetings (set m) = true ∧ written = some (set m) ∧
      db' = { db with meetings := db.meetings.upsert (set m) } := by
  obtain ⟨⟨returned, meetings⟩, hupdate, hsame⟩ := Option.map_eq_some_iff.1 h
  cases hsame
  rcases Table.updateRow_eq_some hupdate with ⟨hnone, hsame, hguard⟩ | ⟨m, hm, hguard, hchecks, hw, hsame⟩
  · left
    subst hsame
    exact ⟨hnone, rfl, hguard⟩
  · right
    obtain ⟨hrow, hfree⟩ := Bool.and_eq_true_iff.1 hchecks
    exact ⟨m, hm, hguard, hrow, hfree, hw, by rw [hsame]⟩

/-- What a write leaves of the table. -/
theorem find?_upsert_row {meetings : MeetingTable} {m : MeetingRow} {i : Uuid} :
    (meetings.upsert m).find? i = if i = m.id then some m else meetings.find? i := by
  by_cases hi : i = m.id
  · rw [if_pos hi, Table.find?_upsert_of_key hi.symm]
  · rw [if_neg hi, Table.find?_upsert_ne hi]

/-- A write that keeps the decision carries everything. -/
theorem carries_of_write {m : MeetingRow} (m' : MeetingRow) (hm : db.meetings.find? meetingId = some m) (hid : m'.id = meetingId)
    (hlast : m.lastEventAt ≤ m'.lastEventAt) (hperson : byPerson m' = byPerson m)
    (hdecision : byPerson m = true → sameDecision m m') :
    Carries id db { db with meetings := db.meetings.upsert m' } where
  aliases uid row h := by rw [h, alias_eq h]; rfl
  meetings i x hx := by
    rw [find?_upsert_row, hid]
    by_cases hi : i = meetingId
    · subst hi
      rw [hm] at hx
      cases hx
      refine ⟨m', if_pos rfl, hlast, fun h => ⟨hperson.trans h, ?_⟩⟩
      have hat : m.attendanceConfirmedAt = m'.attendanceConfirmedAt :=
        congrArg Attendance.at_ (hdecision h).2
      rw [hat]
    · exact ⟨x, by rw [id, if_neg hi, hx], survives_refl x⟩
  decided i x hx hx' := by
    rw [find?_upsert_row, hid] at hx
    by_cases hi : i = meetingId
    · subst hi
      rw [if_pos rfl] at hx
      cases hx
      exact ⟨i, m, hm, rfl, hperson ▸ hx', hdecision (hperson ▸ hx')⟩
    · rw [if_neg hi] at hx
      exact ⟨i, x, hx, rfl, hx', rfl, rfl⟩

/-- A write that keeps the meeting's own uid keeps the tables sound. -/
theorem sound_of_write {m : MeetingRow} (m' : MeetingRow) (h : Sound db) (hm : db.meetings.find? meetingId = some m)
    (hid : m'.id = meetingId) (huid : m'.bookingUid = m.bookingUid) (hchecks : meetingChecks m' = true) :
    Sound { db with meetings := db.meetings.upsert m' } where
  live uid row hrow := by
    obtain ⟨x, hx⟩ := h.live uid row hrow
    rw [find?_upsert_row]
    split
    · exact ⟨m', rfl⟩
    · exact ⟨x, hx⟩
  named i x hx := by
    rw [find?_upsert_row, hid] at hx
    split at hx
    next hi =>
      cases hx
      show db.aliases.find? m'.bookingUid = _
      rw [huid, h.named meetingId m hm, hi]
    next => exact h.named i x hx
  checked i x hx := by
    rw [find?_upsert_row] at hx
    split at hx
    · cases hx
      exact hchecks
    · exact h.checked i x hx

end Writes

/-! ## Aliases -/

section Aliases

variable {db : MeetingsDb} {meetingId : Uuid}

private theorem find?_insertAliases (uids : List JsString) (aliases : AliasTable) (uid : JsString) :
    (uids.foldl (fun aliases uid => (aliases.insert? ⟨uid, meetingId⟩).getD aliases) aliases).find?
        uid = (aliases.find? uid <|> if uid ∈ uids then some ⟨uid, meetingId⟩ else none) := by
  induction uids generalizing aliases with
  | nil => simp
  | cons first rest ih =>
    rw [List.foldl_cons, ih]
    cases hinsert : aliases.insert? ⟨first, meetingId⟩ with
    | none =>
      obtain ⟨row, hrow, hkey⟩ := Table.insert?_eq_none hinsert
      have htaken : aliases.find? first = some row := Table.find?_eq_some.2 ⟨hrow, hkey⟩
      rw [Option.getD_none]
      by_cases huid : uid = first
      · subst huid
        simp [htaken]
      · simp [huid]
    | some after =>
      rw [Option.getD_some]
      by_cases huid : uid = first
      · subst huid
        have hnone : aliases.find? uid = none := (Table.insert?_eq_some hinsert).1
        have hsome : after.find? uid = some ⟨uid, meetingId⟩ := Table.find?_insert?_self hinsert
        simp [hnone, hsome]
      · have hother : after.find? uid = aliases.find? uid := Table.find?_insert?_ne hinsert huid
        simp [hother, huid]

/-- An alias that is there stays, and a fresh uid becomes the meeting's. -/
theorem find?_aliasMeeting (uids : List (Option JsString)) (uid : JsString) :
    (db.aliasMeeting meetingId uids).aliases.find? uid
      = (db.aliases.find? uid <|> if some uid ∈ uids then some ⟨uid, meetingId⟩ else none) := by
  have hmem : uid ∈ uids.filterMap id ↔ some uid ∈ uids := by simp
  simp only [MeetingsDb.aliasMeeting, find?_insertAliases, hmem]

theorem carries_alias (uids : List (Option JsString)) :
    Carries id db (db.aliasMeeting meetingId uids) where
  aliases uid row h := by
    rw [find?_aliasMeeting, h, alias_eq h]
    rfl
  meetings i m hm := ⟨m, hm, survives_refl m⟩
  decided i m hm hperson := ⟨i, m, hm, rfl, hperson, rfl, rfl⟩

theorem sound_alias {uids : List (Option JsString)} {m : MeetingRow} (h : Sound db)
    (hm : db.meetings.find? meetingId = some m) : Sound (db.aliasMeeting meetingId uids) where
  live uid row hrow := by
    rw [find?_aliasMeeting] at hrow
    cases hfind : db.aliases.find? uid with
    | some old =>
      rw [hfind] at hrow
      cases hrow
      exact h.live uid _ hfind
    | none =>
      simp [hfind] at hrow
      rw [← hrow.2]
      exact ⟨m, hm⟩
  named i x hx := by
    rw [find?_aliasMeeting, h.named i x hx]
    rfl
  checked i x hx := h.checked i x hx

end Aliases

/-! ## What the conditions of the table say -/

section Checks

variable {m : MeetingRow}

theorem checks_confirmed (h : meetingChecks m = true) :
    m.state.confirmed = m.attendanceSource.isSome := by
  simp only [meetingChecks, attendanceChecks, Bool.and_eq_true, beq_iff_eq] at h
  exact h.1.1.2.1.1.1.1

theorem checks_person (h : meetingChecks m = true) (hperson : byPerson m = true) :
    isConfirmed m = true := by
  have hsource : m.attendanceSource = some .manual := by simpa [byPerson] using hperson
  rw [isConfirmed, checks_confirmed h, hsource]
  rfl

theorem checks_columns (h : meetingChecks m = true) :
    (m.calcomAbsentPending = true → m.state.awaiting = true) ∧
      m.attendanceSource.isSome = m.state.confirmed ∧
      m.attendanceConfirmedAt.isSome = m.state.confirmed ∧
      m.attendanceConfirmedBy.isSome = byPerson m := by
  have hconfirmed := checks_confirmed h
  simp only [meetingChecks, attendanceChecks, Bool.and_eq_true, beq_iff_eq, Bool.or_eq_true,
    Bool.not_eq_true'] at h
  obtain ⟨⟨⟨-, ⟨⟨⟨-, hat⟩, -⟩, -⟩, hby⟩, hpending⟩, -⟩ := h
  refine ⟨fun hp => ?_, hconfirmed.symm, ?_, hby.symm⟩
  · rcases hpending with hpending | hpending
    · rw [hp] at hpending
      cases hpending
    · exact hpending
  · rw [hconfirmed, ← Option.not_isNone, ← Option.not_isNone, hat]

theorem confirmed_of_awaiting {state : MeetingState} (h : state.awaiting = true) :
    state.confirmed = false := by
  cases state <;> first | rfl | cases h

end Checks

/-! ## A deferred absence -/

section Absence

variable {db db' : MeetingsDb} {now : Instant} {meeting : MeetingRow} {absent : Option MeetingRow}

theorem applyPendingAbsence_carries (hs : Sound db)
    (h : applyPendingAbsence now meeting db = some (absent, db')) :
    Carries id db db' ∧ Sound db' ∧
      ∀ m, db.meetings.find? meeting.id = some m →
        ∃ m', db'.meetings.find? meeting.id = some m' ∧ m'.bookingUid = m.bookingUid ∧
          m'.currentBookingUid = m.currentBookingUid ∧ absent.all (· = m') = true := by
  unfold applyPendingAbsence at h
  split at h
  · rcases updateMeeting_some h with ⟨rfl, rfl, -⟩ | ⟨m, hm, hguard, hchecks, -, rfl, rfl⟩
    · exact ⟨carries_refl db', hs, fun m hm => ⟨m, hm, rfl, rfl, rfl⟩⟩
    · simp only [Bool.and_eq_true] at hguard
      have hperson : byPerson m = false := by
        cases hby : byPerson m with
        | false => rfl
        | true =>
          have hconfirmed := checks_person (hs.checked _ m hm) hby
          rw [isConfirmed, confirmed_of_awaiting hguard.1.2] at hconfirmed
          cases hconfirmed
      have hid : (pendingAbsenceSet now m).id = meeting.id := Table.find?_key (r := m) hm
      refine ⟨carries_of_write _ hm hid (le_refl _) (by rw [hperson]; rfl) ?_,
        sound_of_write _ hs hm hid rfl hchecks, ?_⟩
      · intro h
        rw [hperson] at h
        cases h
      · intro x hx
        cases hm.symm.trans hx
        exact ⟨pendingAbsenceSet now m, Table.find?_upsert_of_key hid, rfl, rfl, by simp⟩
  · cases h
    exact ⟨carries_refl db, hs, fun m hm => ⟨m, hm, rfl, rfl, rfl⟩⟩

end Absence

/-! ## Which meeting an event is about -/

section Identity

variable {db db' : MeetingsDb} {kind : CalcomAppliedTrigger} {event : ParsedEvent}
  {lookupUid : JsString}

theorem meetingByUid_mem {uid : JsString} {m : MeetingRow} (h : db.meetingByUid uid = some m) :
    db.meetings.find? m.id = some m := by
  have hrows : ∀ p, db.meetings.rows.find? p = some m → db.meetings.find? m.id = some m :=
    fun p hp => Table.find?_eq_some.2 ⟨List.mem_of_find?_eq_some hp, rfl⟩
  simp only [MeetingsDb.meetingByUid, Option.orElse_eq_orElse, Option.orElse_eq_or,
    Option.or_eq_some_iff] at h
  rcases h with h | ⟨-, h | ⟨-, h⟩⟩
  · obtain ⟨row, -, hm⟩ := Option.bind_eq_some_iff.1 h
    rw [Table.find?_key hm]
    exact hm
  · exact hrows _ h
  · exact hrows _ h

/-- A uid that is no meeting's is no alias. -/
theorem alias_none (hs : Sound db) {uid : JsString} (h : db.meetingByUid uid = none) :
    db.aliases.find? uid = none := by
  cases hfind : db.aliases.find? uid with
  | none => rfl
  | some row =>
    obtain ⟨m, hm⟩ := hs.live uid row hfind
    simp [MeetingsDb.meetingByUid, hfind, hm] at h

/-- The meeting an event is about is there; its identity is written only for a uid that is no
meeting's yet. -/
theorem locate_spec (hs : Sound db) {existing : MeetingRow} {adopt : Bool}
    (h : db.locate kind event lookupUid = some (existing, adopt)) :
    db.meetings.find? existing.id = some existing ∧
      (adopt = true → kind = .bookingRescheduled ∧ db.aliases.find? lookupUid = none) := by
  unfold MeetingsDb.locate at h
  split at h
  next hfound =>
    cases h
    exact ⟨meetingByUid_mem hfound, fun hadopt => by cases hadopt⟩
  next hnone =>
    split at h
    next hkind =>
      obtain ⟨replacement, hreplacement, hsame⟩ := Option.map_eq_some_iff.1 h
      cases hsame
      obtain ⟨uid, -, hfound⟩ := Option.bind_eq_some_iff.1 hreplacement
      exact ⟨meetingByUid_mem hfound, fun _ => ⟨hkind.1, alias_none hs hnone⟩⟩
    next => cases h

/-- After the identity write and the aliases the meeting is there as it is returned. -/
theorem identify_carries (hs : Sound db) {existing existing' : MeetingRow} {adopt : Bool}
    (hexisting : db.meetings.find? existing.id = some existing)
    (hadopt : adopt = true → kind = .bookingRescheduled ∧ db.aliases.find? lookupUid = none)
    (h : identify kind event lookupUid adopt existing db = some (existing', db')) :
    Carries id db db' ∧ Sound db' ∧ db'.meetings.find? existing'.id = some existing' := by
  cases adopt with
  | false =>
    simp only [identify, Bool.false_eq_true, ↓reduceIte, Option.bind_eq_bind, Option.bind_some] at h
    split at h
    · cases h
      exact ⟨carries_alias _, sound_alias hs hexisting, hexisting⟩
    · cases h
      exact ⟨carries_refl _, hs, hexisting⟩
  | true =>
    obtain ⟨rfl, hfresh⟩ := hadopt rfl
    simp only [identify, ↓reduceIte, Option.bind_eq_bind, Option.bind_eq_some_iff] at h
    obtain ⟨⟨adopted, updated⟩, hupdate, ⟨first, after⟩, hfirst, h⟩ := h
    cases hfirst
    cases h
    rcases updateMeeting_some hupdate with ⟨rfl, rfl, -⟩ | ⟨m, hm, -, hchecks, -, rfl, rfl⟩
    · exact ⟨carries_alias _, sound_alias hs hexisting, hexisting⟩
    · cases hm.symm.trans hexisting
      have hwrite := carries_of_write { existing with bookingUid := lookupUid } hm rfl (le_refl _)
        rfl fun _ => ⟨rfl, rfl⟩
      refine ⟨hwrite.trans (carries_alias _), ?_, Table.find?_upsert_self⟩
      constructor
      · intro uid row hrow
        rw [find?_aliasMeeting] at hrow
        have hlive : ∀ i x, db.meetings.find? i = some x → ∃ y, (db.meetings.upsert
            { existing with bookingUid := lookupUid }).find? i = some y := by
          intro i x hx
          rw [find?_upsert_row]
          split
          · exact ⟨_, rfl⟩
          · exact ⟨x, hx⟩
        cases hfind : db.aliases.find? uid with
        | some old =>
          simp only [hfind] at hrow
          cases hrow
          obtain ⟨x, hx⟩ := hs.live uid _ hfind
          exact hlive _ x hx
        | none =>
          simp [hfind] at hrow
          rw [← hrow.2]
          exact hlive _ existing hexisting
      · intro i x hx
        rw [find?_aliasMeeting]
        have hx' := hx
        simp only [MeetingsDb.aliasMeeting] at hx'
        rw [find?_upsert_row] at hx'
        split at hx'
        next hi =>
          cases hx'
          simp [hfresh, hi]
        next =>
          have hnamed := hs.named i x hx'
          simp [hnamed]
      · intro i x hx
        simp only [MeetingsDb.aliasMeeting] at hx
        rw [find?_upsert_row] at hx
        split at hx
        · cases hx
          exact hchecks
        · exact hs.checked i x hx

end Identity

/-! ## Confirmations -/

instance : Std.Total ConfirmedBefore where
  total left right := by
    unfold ConfirmedBefore
    cases byPerson left <;> cases byPerson right <;> simp [le_total]

instance : IsTrans MeetingRow ConfirmedBefore where
  trans a b c hab hbc := by
    unfold ConfirmedBefore at hab hbc ⊢
    cases ha : byPerson a <;> cases hb : byPerson b <;> cases hc : byPerson c <;>
      simp only [ha, hb, hc, Bool.false_eq_true, Bool.true_eq_false, and_true, and_false,
        false_and, true_and, false_or, or_false] at hab hbc ⊢
    · exact le_trans hbc hab
    · exact le_trans hbc hab

/-- The first of the sorted rows comes before every one. -/
theorem head_insertionSort {r : MeetingRow → MeetingRow → Prop} [DecidableRel r] [Std.Total r]
    [IsTrans MeetingRow r] {rows : List MeetingRow} {first : MeetingRow}
    (h : (rows.insertionSort r).head? = some first) :
    first ∈ rows ∧ ∀ m ∈ rows, m = first ∨ r first m := by
  have hsorted := List.pairwise_insertionSort r rows
  cases hrows : rows.insertionSort r with
  | nil =>
    rw [hrows] at h
    cases h
  | cons x rest =>
    rw [hrows] at h hsorted
    cases h
    constructor
    · rw [← List.mem_insertionSort r, hrows]
      exact List.mem_cons_self
    · intro m hm
      rw [← List.mem_insertionSort r, hrows] at hm
      rcases List.mem_cons.1 hm with rfl | hm
      · exact .inl rfl
      · exact .inr (List.rel_of_pairwise_cons hsorted hm)

/-- Among rows that are one meeting the newest confirmation by a person stands. -/
theorem keepConfirmation_spec (base : MeetingStateWrite) {rows : List MeetingRow}
    (hconfirmed : ∀ m ∈ rows, byPerson m = true → isConfirmed m = true) :
    (∃ c ∈ rows, byPerson c = true ∧
      keepConfirmation base rows = ⟨c.state, c.stateBeforeNoShow, attendanceOf c⟩ ∧
      ∀ m ∈ rows, byPerson m = true →
        m.attendanceConfirmedAt.getD 0 ≤ c.attendanceConfirmedAt.getD 0) ∨
    ((∀ m ∈ rows, byPerson m = false) ∧
      (keepConfirmation base rows = base ∨
        (keepConfirmation base rows).attendance.source ≠ some .manual)) := by
  unfold keepConfirmation
  cases hhead : ((rows.filter isConfirmed).insertionSort ConfirmedBefore).head? with
  | none =>
    right
    refine ⟨fun m hm => ?_, .inl rfl⟩
    cases hperson : byPerson m with
    | false => rfl
    | true =>
      have hmem : m ∈ (rows.filter isConfirmed).insertionSort ConfirmedBefore :=
        (List.mem_insertionSort _).2 (List.mem_filter.2 ⟨hm, hconfirmed m hm hperson⟩)
      rw [List.head?_eq_none_iff.1 hhead] at hmem
      cases hmem
  | some c =>
    obtain ⟨hmem, hbefore⟩ := head_insertionSort hhead
    have hc := (List.mem_filter.1 hmem).1
    have hfirst : ∀ m ∈ rows, byPerson m = true → m = c ∨ ConfirmedBefore c m :=
      fun m hm hperson => hbefore m (List.mem_filter.2 ⟨hm, hconfirmed m hm hperson⟩)
    cases hperson : byPerson c with
    | true =>
      left
      refine ⟨c, hc, hperson, rfl, fun m hm hm' => ?_⟩
      rcases hfirst m hm hm' with rfl | hle
      · exact le_refl _
      · simpa [ConfirmedBefore, hperson, hm'] using hle
    | false =>
      right
      constructor
      · intro m hm
        cases hm' : byPerson m with
        | false => rfl
        | true =>
          rcases hfirst m hm hm' with rfl | hle
          · rw [hperson] at hm'
            cases hm'
          · simp [ConfirmedBefore, hperson, hm'] at hle
      · right
        simpa [byPerson, attendanceOf] using hperson

/-! ## A new meeting -/

section Open

variable {db db' : MeetingsDb}

theorem insertMeeting_carries {m : MeetingRow} {uids : List (Option JsString)} (hs : Sound db)
    (hperson : byPerson m = false) (hfresh : db.aliases.find? m.bookingUid = none)
    (huid : some m.bookingUid ∈ uids) (h : db.insertMeeting m = some db') :
    Carries id db (db'.aliasMeeting m.id uids) ∧ Sound (db'.aliasMeeting m.id uids) := by
  unfold MeetingsDb.insertMeeting at h
  split at h
  · next hok =>
    obtain ⟨meetings, hinsert, rfl⟩ := Option.map_eq_some_iff.1 h
    have hfind : ∀ i, meetings.find? i = if i = m.id then some m else db.meetings.find? i := by
      intro i
      by_cases hi : i = m.id
      · rw [hi, if_pos rfl, Table.find?_insert?_self hinsert]
      · rw [if_neg hi, Table.find?_insert?_ne hinsert hi]
    have hold : ∀ i x, db.meetings.find? i = some x → meetings.find? i = some x := by
      intro i x hx
      have hi : i ≠ m.id := by
        rintro rfl
        rw [(Table.insert?_eq_some hinsert).1] at hx
        cases hx
      rw [hfind, if_neg hi, hx]
    constructor
    · refine ⟨fun uid row hrow => ?_, fun i x hx => ⟨x, hold i x hx, survives_refl x⟩,
        fun i x hx hx' => ?_⟩
      · rw [find?_aliasMeeting, hrow, alias_eq hrow]
        rfl
      · rw [show (MeetingsDb.aliasMeeting m.id uids { db with meetings }).meetings.find? i
          = meetings.find? i from rfl, hfind] at hx
        split at hx
        · cases hx
          rw [hperson] at hx'
          cases hx'
        · exact ⟨i, x, hx, rfl, hx', rfl, rfl⟩
    · refine ⟨fun uid row hrow => ?_, fun i x hx => ?_, fun i x hx => ?_⟩
      · rw [find?_aliasMeeting] at hrow
        cases hfound : db.aliases.find? uid with
        | some old =>
          simp only [hfound] at hrow
          cases hrow
          obtain ⟨x, hx⟩ := hs.live uid _ hfound
          exact ⟨x, hold _ x hx⟩
        | none =>
          simp [hfound] at hrow
          rw [← hrow.2]
          exact ⟨m, (hfind m.id).trans (if_pos rfl)⟩
      · replace hx : meetings.find? i = some x := hx
        rw [find?_aliasMeeting]
        rw [hfind] at hx
        split at hx
        next hi =>
          cases hx
          simp [hfresh, huid, hi]
        next => simp [hs.named i x hx]
      · replace hx : meetings.find? i = some x := hx
        rw [hfind] at hx
        split at hx
        · cases hx
          exact (Bool.and_eq_true_iff.1 hok).1
        · exact hs.checked i x hx
  · cases h

theorem openMeeting_carries {delivery : Delivery} {kind : CalcomAppliedTrigger}
    {createdAt : Instant} {lookupUid : JsString} {applied : Applied} (hs : Sound db)
    (hfresh : db.aliases.find? lookupUid = none)
    (h : openMeeting delivery kind createdAt lookupUid db = some (applied, db')) :
    Carries id db db' ∧ Sound db' := by
  unfold openMeeting at h
  split at h
  · cases h
    exact ⟨carries_refl db, hs⟩
  split at h
  · obtain ⟨after, hinsert, h⟩ := Option.bind_eq_some_iff.1 h
    cases h
    exact insertMeeting_carries hs rfl hfresh List.mem_cons_self hinsert
  · cases h
    exact ⟨carries_refl db, hs⟩

end Open

/-! ## A meeting that is there -/

section Change

variable {db db' : MeetingsDb} {delivery : Delivery} {kind : CalcomAppliedTrigger}
  {createdAt : Instant} {lookupUid : JsString} {existing : MeetingRow} {applied : Applied}

/-- No event changes what a person decided, and none decides in a person's place. -/
theorem decideChange_keeps {event : ParsedEvent} {started : Bool} {next : MeetingStateWrite}
    (hchecks : meetingChecks existing = true)
    (h : (decideChange kind event createdAt started existing).next = some next) :
    (byPerson existing = true →
      next.state = existing.state ∧ next.attendance = attendanceOf existing) ∧
    (byPerson existing = false → next.attendance.source ≠ some .manual) := by
  have hkept : next = stateOf existing → (byPerson existing = true →
      next.state = existing.state ∧ next.attendance = attendanceOf existing) ∧
      (byPerson existing = false → next.attendance.source ≠ some .manual) := by
    rintro rfl
    refine ⟨fun hperson => ?_, fun hperson => ?_⟩
    · simp [stateOf, checks_person hchecks hperson]
    · simp only [stateOf]
      split
      · simpa [byPerson, attendanceOf] using hperson
      · simp [unconfirmed]
  have hunconfirmed : isConfirmed existing = false → next.attendance.source ≠ some .manual →
      (byPerson existing = true →
        next.state = existing.state ∧ next.attendance = attendanceOf existing) ∧
      (byPerson existing = false → next.attendance.source ≠ some .manual) := by
    intro hnot hother
    refine ⟨fun hperson => ?_, fun _ => hother⟩
    rw [checks_person hchecks hperson] at hnot
    cases hnot
  cases kind with
  | bookingCreated =>
    cases h
    exact hkept rfl
  | bookingRescheduled =>
    simp only [decideChange, Option.some.injEq] at h
    split at h
    · exact hkept h.symm
    next hnot =>
      subst h
      exact hunconfirmed (by simpa using hnot) (by simp [unconfirmed])
  | bookingCancelled =>
    simp only [decideChange] at h
    split at h
    · cases h
    next hnot =>
      cases h
      exact hunconfirmed (by simpa using hnot) (by simp [unconfirmed])
  | meetingEnded =>
    simp only [decideChange] at h
    split at h
    next hstate =>
      cases h
      apply hunconfirmed _ (by simp [unconfirmed])
      rcases hstate with hstate | hstate <;> simp [isConfirmed, hstate, MeetingState.confirmed]
    next => cases h
  | bookingNoShowUpdated =>
    simp only [decideChange] at h
    split at h
    · cases h
      exact hkept rfl
    split at h
    next hnot =>
      cases h
      exact hunconfirmed (by simpa using hnot.2) (by simp)
    split at h
    · split at h
      next hcalcom =>
        cases h
        refine ⟨fun hperson => ?_, fun _ => by simp [unconfirmed]⟩
        simp [byPerson, hcalcom.2] at hperson
      split at h
      · cases h
        exact hkept rfl
      · cases h
    · cases h

/-- After the update of a row, the deferred absence and the aliases carry the rest. -/
theorem writeMeeting_some {deferred : Bool} {w : MeetingWrite} {m : MeetingRow}
    (hm : db.meetings.find? existing.id = some m)
    (h : writeMeeting delivery deferred existing w db = some (applied, db')) :
    meetingChecks (w.set m) = true ∧
      (Sound { db with meetings := db.meetings.upsert (w.set m) } →
        Carries id { db with meetings := db.meetings.upsert (w.set m) } db' ∧ Sound db') := by
  simp only [writeMeeting, Option.bind_eq_bind, Option.bind_eq_some_iff] at h
  obtain ⟨⟨written, after⟩, hupdate, ⟨absent, last⟩, habsent, h⟩ := h
  cases h
  rcases updateMeeting_some hupdate with ⟨-, -, hguard⟩ | ⟨x, hx, -, hchecks, -, rfl, rfl⟩
  · cases hguard m hm
  · cases hm.symm.trans hx
    refine ⟨hchecks, fun hs => ?_⟩
    have hid : (w.set m).id = existing.id := Table.find?_key (r := m) hm
    obtain ⟨hcarries, hsound, hrow⟩ := applyPendingAbsence_carries hs habsent
    obtain ⟨m', hm', -, -, hreturned⟩ := hrow (w.set m) (Table.find?_upsert_of_key rfl)
    refine ⟨hcarries.trans (carries_alias _), ?_⟩
    have hupdated : last.meetings.find? (absent.getD (w.set m)).id = some m' := by
      cases absent with
      | none => exact hm'
      | some y =>
        have hy : y = m' := by simpa using hreturned
        rw [Option.getD_some, hy]
        exact Table.find?_eq_some.2 ⟨(Table.find?_eq_some.1 hm').1, rfl⟩
    exact sound_alias hsound hupdated

theorem writeMeeting_carries {deferred : Bool} {w : MeetingWrite} (hs : Sound db)
    (hexisting : db.meetings.find? existing.id = some existing)
    (hkeeps : byPerson existing = true →
      w.next.state = existing.state ∧ w.next.attendance = attendanceOf existing)
    (hothers : byPerson existing = false → w.next.attendance.source ≠ some .manual)
    (h : writeMeeting delivery deferred existing w db = some (applied, db')) :
    Carries id db db' ∧ Sound db' := by
  obtain ⟨hchecks, hrest⟩ := writeMeeting_some hexisting h
  have hperson : byPerson (w.set existing) = byPerson existing := by
    cases hby : byPerson existing with
    | true =>
      have hattendance : (w.set existing).attendanceSource = existing.attendanceSource :=
        congrArg Attendance.source (hkeeps hby).2
      simp only [byPerson, hattendance] at hby ⊢
      exact hby
    | false => exact decide_eq_false (hothers hby)
  have hcarries := carries_of_write (w.set existing) hexisting rfl (le_max_left _ _) hperson
    fun hby => ⟨(hkeeps hby).1.symm, (hkeeps hby).2.symm⟩
  obtain ⟨hcarries', hsound⟩ := hrest (sound_of_write _ hs hexisting rfl rfl hchecks)
  exact ⟨hcarries.trans hcarries', hsound⟩

end Change

/-! ## Rows that become one -/

/-- Who becomes whom when rows are folded into one. -/
def foldedInto (target : Uuid) (sources : List Uuid) (i : Uuid) : Uuid :=
  if i ∈ sources then target else i

section Folds

variable {db db' : MeetingsDb} {survivor s : MeetingRow} {rows : List MeetingRow}
  {sources : List Uuid} {base : MeetingStateWrite}

/-- What the tables are once the rows of `sources` are folded into the survivor, as `s`. -/
structure Folded (db db' : MeetingsDb) (survivor s : MeetingRow) (rows : List MeetingRow)
    (sources : List Uuid) : Prop where
  survives : survivor ∈ rows ∧ survivor.id ∉ sources
  there : ∀ m ∈ rows, db.meetings.find? m.id = some m ∧ (m.id = survivor.id ∨ m.id ∈ sources)
  exhausted : ∀ i ∈ sources, ∃ m ∈ rows, m.id = i
  meetings : ∀ i, db'.meetings.find? i
    = if i ∈ sources then none else if i = survivor.id then some s else db.meetings.find? i
  aliases : ∀ uid, db'.aliases.find? uid = (db.aliases.find? uid).map fun row =>
    ⟨row.bookingUid, foldedInto survivor.id sources row.meetingId⟩
  id : s.id = survivor.id
  uid : s.bookingUid = survivor.bookingUid

theorem Folded.sound (h : Folded db db' survivor s rows sources) (hs : Sound db)
    (hchecks : meetingChecks s = true) : Sound db' where
  live uid row hrow := by
    rw [h.aliases] at hrow
    obtain ⟨old, hold, rfl⟩ := Option.map_eq_some_iff.1 hrow
    obtain ⟨m, hm⟩ := hs.live uid old hold
    rw [h.meetings]
    unfold foldedInto
    split
    next hin => exact ⟨s, by rw [if_neg h.survives.2, if_pos rfl]⟩
    next hin =>
      split
      · exact ⟨s, rfl⟩
      · exact ⟨m, hm⟩
  named i m hm := by
    rw [h.meetings] at hm
    split at hm
    · cases hm
    next hin =>
      split at hm
      next hi =>
        cases hm
        have hsurvivor := (h.there survivor h.survives.1).1
        rw [h.aliases, h.uid, hs.named survivor.id survivor hsurvivor]
        simp [foldedInto, h.survives.2, hi]
      next =>
        rw [h.aliases, hs.named i m hm]
        simp [foldedInto, hin]
  checked i m hm := by
    rw [h.meetings] at hm
    split at hm
    · cases hm
    · split at hm
      · cases hm
        exact hchecks
      · exact hs.checked i m hm

variable (base) in
/-- The fold's confirmation is the newest by a person among the rows, if there is one. -/
theorem Folded.carries (h : Folded db db' survivor s rows sources) (hs : Sound db)
    (hlast : ∀ m ∈ rows, m.lastEventAt ≤ s.lastEventAt)
    (hdecision : s.state = (keepConfirmation base rows).state ∧
      attendanceOf s = (keepConfirmation base rows).attendance)
    (hbase : (∀ m ∈ rows, byPerson m = false) → base.attendance.source ≠ some .manual) :
    Carries (foldedInto survivor.id sources) db db' := by
  have hconfirmed : ∀ m ∈ rows, byPerson m = true → isConfirmed m = true :=
    fun m hm => checks_person (hs.checked _ m (h.there m hm).1)
  have hsource : s.attendanceSource = (keepConfirmation base rows).attendance.source :=
    congrArg Attendance.source hdecision.2
  have hat : s.attendanceConfirmedAt = (keepConfirmation base rows).attendance.at_ :=
    congrArg Attendance.at_ hdecision.2
  have hnewest := keepConfirmation_spec base hconfirmed
  have hsurvives : ∀ m ∈ rows, Survives m s := by
    intro m hm
    refine ⟨hlast m hm, fun hperson => ?_⟩
    rcases hnewest with ⟨c, -, hc, hkeep, hle⟩ | ⟨hnone, -⟩
    · rw [hkeep] at hsource hat
      refine ⟨by simp only [byPerson, hsource]; exact hc, ?_⟩
      rw [hat]
      exact hle m hm hperson
    · rw [hnone m hm] at hperson
      cases hperson
  have hfolded : ∀ i, i = survivor.id ∨ i ∈ sources → foldedInto survivor.id sources i = survivor.id := by
    rintro i (rfl | hi)
    · simp [foldedInto]
    · simp [foldedInto, hi]
  have hhere : db'.meetings.find? survivor.id = some s := by
    rw [h.meetings, if_neg h.survives.2, if_pos rfl]
  refine ⟨fun uid row hrow => ?_, fun i m hm => ?_, fun i m hm hperson => ?_⟩
  · rw [h.aliases, hrow, alias_eq hrow]
    rfl
  · by_cases hin : i = survivor.id ∨ i ∈ sources
    · have hrow : m ∈ rows := by
        have hexists : ∃ x ∈ rows, x.id = i := by
          rcases hin with rfl | hin
          · exact ⟨survivor, h.survives.1, rfl⟩
          · exact h.exhausted i hin
        obtain ⟨x, hx, rfl⟩ := hexists
        cases (h.there x hx).1.symm.trans hm
        exact hx
      exact ⟨s, by rw [hfolded i hin, hhere], hsurvives m hrow⟩
    · obtain ⟨hi, hout⟩ := not_or.1 hin
      refine ⟨m, ?_, survives_refl m⟩
      rw [foldedInto, if_neg hout, h.meetings, if_neg hout, if_neg hi, hm]
  · rw [h.meetings] at hm
    split at hm
    · cases hm
    next hout =>
      split at hm
      next hi =>
        cases hm
        rcases hnewest with ⟨c, hrow, hc, hkeep, -⟩ | ⟨hnone, hkeep⟩
        · refine ⟨c.id, c, (h.there c hrow).1, ?_, hc, ?_, ?_⟩
          · rw [hfolded _ (h.there c hrow).2, hi]
          · rw [hdecision.1, hkeep]
          · rw [hdecision.2, hkeep]
        · exfalso
          simp only [byPerson, decide_eq_true_eq, hsource] at hperson
          rcases hkeep with hkeep | hkeep
          · rw [hkeep] at hperson
            exact hbase hnone hperson
          · exact hkeep hperson
      next => exact ⟨i, m, hm, by simp [foldedInto, hout], hperson, rfl, rfl⟩

end Folds

/-! ## A fold of two rows -/

section Fold

variable {db db' : MeetingsDb} {delivery : Delivery} {createdAt : Instant}
  {survivor replacement : MeetingRow} {applied : Applied}

/-- The aliases once one meeting has taken another's. -/
theorem alias_folded {target source : Uuid} (hne : target ≠ source) (uid : JsString) :
    ((db.moveAliases source target).deleteMeeting source).aliases.find? uid
      = (db.aliases.find? uid).map fun row =>
          ⟨row.bookingUid, foldedInto target [source] row.meetingId⟩ := by
  have hkey : ∀ row : AliasRow, ({ row with meetingId := target } : AliasRow).bookingUid
      = row.bookingUid := fun _ => rfl
  show ((db.aliases.update _ _ hkey).filter _).find? uid = _
  rw [Table.find?_filter, Table.find?_update]
  cases db.aliases.find? uid with
  | none => rfl
  | some row =>
    by_cases hrow : row.meetingId = source
    · simp [foldedInto, hrow, Option.filter, hne]
    · simp [foldedInto, hrow, Option.filter]

theorem foldReplacement_some (hs : survivor.id ≠ replacement.id)
    (hsurvivor : db.meetings.find? survivor.id = some survivor)
    (h : foldReplacement survivor replacement db = some db') :
    ∃ s : MeetingRow, s.id = survivor.id ∧ s.bookingUid = survivor.bookingUid ∧
      s.lastEventAt = survivor.lastEventAt ∧
      (∀ i, db'.meetings.find? i = if i = replacement.id then none
        else if i = survivor.id then some s else db.meetings.find? i) ∧
      ∀ uid, db'.aliases.find? uid = (db.aliases.find? uid).map fun row =>
        ⟨row.bookingUid, foldedInto survivor.id [replacement.id] row.meetingId⟩ := by
  simp only [foldReplacement, Option.bind_eq_bind, Option.bind_eq_some_iff] at h
  obtain ⟨⟨written, after⟩, hupdate, h⟩ := h
  cases h
  rcases updateMeeting_some hupdate with ⟨-, -, hguard⟩ | ⟨m, hm, -, -, -, -, rfl⟩
  · cases hguard survivor hsurvivor
  · cases hm.symm.trans hsurvivor
    refine ⟨{ survivor with
      attendeeEmail := survivor.attendeeEmail <|> replacement.attendeeEmail
      firmId := survivor.firmId <|> replacement.firmId }, rfl, rfl, rfl, fun i => ?_,
      fun uid => alias_folded hs uid⟩
    show ((db.meetings.upsert _).delete replacement.id).find? i = _
    rw [Table.find?_delete, find?_upsert_row]

theorem afterFold_next (existing replacement : MeetingRow) (createdAt : Instant)
    (w : MeetingWrite) :
    (afterFold existing replacement createdAt w).next
      = keepConfirmation (if replacement.lastEventAt > createdAt then stateOf replacement else w.next)
          [existing, replacement] := by
  unfold afterFold
  split <;> rfl

theorem afterFold_last (existing replacement : MeetingRow) (w : MeetingWrite)
    (hlast : w.lastEventAt = createdAt) :
    replacement.lastEventAt ≤ (afterFold existing replacement createdAt w).lastEventAt := by
  unfold afterFold
  split
  · exact le_refl _
  next hle =>
    rw [← hlast] at hle
    exact not_lt.1 hle

theorem stateOf_person {m : MeetingRow} (h : byPerson m = false) :
    (stateOf m).attendance.source ≠ some .manual := by
  simp only [stateOf]
  split
  · simpa [byPerson, attendanceOf] using h
  · simp [unconfirmed]

/-- A reschedule that joins two rows keeps what a person decided of either. -/
theorem foldReplacement_carries {deferred : Bool} {w : MeetingWrite} {dbf : MeetingsDb}
    (hs : Sound db) (hne : replacement.id ≠ survivor.id)
    (hsurvivor : db.meetings.find? survivor.id = some survivor)
    (hreplacement : db.meetings.find? replacement.id = some replacement)
    (hlast : w.lastEventAt = createdAt)
    (hnext : byPerson survivor = false → w.next.attendance.source ≠ some .manual)
    (hfold : foldReplacement survivor replacement db = some dbf)
    (h : writeMeeting delivery deferred survivor (afterFold survivor replacement createdAt w) dbf
      = some (applied, db')) :
    ∃ heir, Carries heir db db' ∧ Sound db' := by
  obtain ⟨s, hid, huid, hslast, hrows, haliases⟩ := foldReplacement_some (Ne.symm hne) hsurvivor hfold
  have hs' : dbf.meetings.find? survivor.id = some s := by
    rw [hrows, if_neg (Ne.symm hne), if_pos rfl]
  obtain ⟨hchecks, hrest⟩ := writeMeeting_some hs' h
  generalize hwrite : (afterFold survivor replacement createdAt w).set s = s' at hchecks hrest
  have hs'id : s'.id = survivor.id := by rw [← hwrite, ← hid]; rfl
  have hfolded : Folded db { dbf with meetings := dbf.meetings.upsert s' } survivor s'
      [survivor, replacement] [replacement.id] := by
    refine ⟨by simp [Ne.symm hne], by simp [hsurvivor, hreplacement], by simp, fun i => ?_,
      haliases, hs'id, by rw [← hwrite, ← huid]; rfl⟩
    rw [find?_upsert_row, hrows, hs'id]
    simp only [List.mem_singleton]
    by_cases hi : i = survivor.id
    · simp [hi, Ne.symm hne]
    · simp [hi]
  have hcarries := hfolded.carries
    (if replacement.lastEventAt > createdAt then stateOf replacement else w.next) hs
    (by
      have hreplaced := afterFold_last survivor replacement w hlast
      intro m hm
      rw [← hwrite]
      show m.lastEventAt ≤ max s.lastEventAt _
      rcases List.mem_pair.1 hm with rfl | rfl
      · exact hslast ▸ le_max_left _ _
      · exact le_trans hreplaced (le_max_right _ _))
    (by
      rw [← afterFold_next, ← hwrite]
      exact ⟨rfl, rfl⟩)
    (by
      intro hnone
      split
      · exact stateOf_person (hnone replacement (by simp))
      · exact hnext (hnone survivor (by simp)))
  obtain ⟨hcarries', hsound⟩ := hrest (hfolded.sound hs hchecks)
  exact ⟨_, hcarries.trans hcarries', hsound⟩

end Fold

/-! ## Deliveries -/

section Deliveries

variable {attendeeKey : JsString → JsString} {db db' : MeetingsDb} {delivery : Delivery}
  {kind : CalcomAppliedTrigger} {createdAt : Instant} {lookupUid : JsString}
  {existing : MeetingRow} {applied : Applied}

theorem changeMeeting_carries (hs : Sound db)
    (hexisting : db.meetings.find? existing.id = some existing)
    (h : changeMeeting attendeeKey delivery kind createdAt lookupUid existing db
      = some (applied, db')) : ∃ heir, Carries heir db db' ∧ Sound db' := by
  have hchecks := hs.checked _ existing hexisting
  simp only [changeMeeting] at h
  split at h
  next hnone =>
    obtain ⟨⟨written, after⟩, htouch, h⟩ := Option.bind_eq_some_iff.1 h
    obtain ⟨⟨absent, last⟩, habsent, h⟩ := Option.bind_eq_some_iff.1 h
    cases h
    rcases updateMeeting_some htouch with ⟨-, -, hguard⟩ | ⟨m, hm, -, hok, -, -, rfl⟩
    · cases hguard existing hexisting
    · cases hm.symm.trans hexisting
      have hcarries := carries_of_write
        { existing with lastEventAt := max existing.lastEventAt createdAt } hexisting rfl
        (le_max_left _ _) rfl fun _ => ⟨rfl, rfl⟩
      obtain ⟨hcarries', hsound, -⟩ :=
        applyPendingAbsence_carries (sound_of_write
          { existing with lastEventAt := max existing.lastEventAt createdAt } hs hexisting rfl rfl
          hok) habsent
      exact ⟨_, hcarries.trans hcarries', hsound⟩
  next next hnext =>
    obtain ⟨hkeeps, hothers⟩ := decideChange_keeps hchecks hnext
    split at h
    next hreplacement => exact ⟨id, writeMeeting_carries hs hexisting hkeeps hothers h⟩
    next replacement hreplacement =>
      split at h
      · cases h
        exact ⟨id, carries_refl _, hs⟩
      · obtain ⟨dbf, hfold, h⟩ := Option.bind_eq_some_iff.1 h
        unfold replacementOf at hreplacement
        split at hreplacement
        next hkind =>
          obtain ⟨hfound, hne⟩ := Option.filter_eq_some_iff.1 hreplacement
          obtain ⟨uid, -, hfound⟩ := Option.bind_eq_some_iff.1 hfound
          have hdeferred : ∀ started, (decideChange kind delivery.event createdAt started
              existing).deferred = false := by
            intro started
            rw [hkind.1]
            rfl
          refine foldReplacement_carries hs (by simpa using hne) hexisting
            (meetingByUid_mem hfound) ?_ hothers hfold h
          simp [hdeferred]
        next => cases hreplacement

theorem applyEvent_carries (hs : Sound db)
    (h : applyEvent attendeeKey delivery db = some (applied, db')) :
    ∃ heir, Carries heir db db' ∧ Sound db' := by
  unfold applyEvent at h
  split at h
  · cases h
    exact ⟨id, carries_refl _, hs⟩
  split at h
  · split at h
    next hnone =>
      refine ⟨id, openMeeting_carries hs (alias_none hs ?_) h⟩
      unfold MeetingsDb.locate at hnone
      split at hnone
      · cases hnone
      · assumption
    next existing adopt hlocated =>
      obtain ⟨hexisting, hadopt⟩ := locate_spec hs hlocated
      obtain ⟨⟨existing', after⟩, hidentify, h⟩ := Option.bind_eq_some_iff.1 h
      obtain ⟨hcarries, hsound, hthere⟩ := identify_carries hs hexisting hadopt hidentify
      simp only at h
      split at h
      · obtain ⟨⟨absent, last⟩, habsent, h⟩ := Option.bind_eq_some_iff.1 h
        cases h
        obtain ⟨hcarries', hsound', -⟩ := applyPendingAbsence_carries hsound habsent
        exact ⟨_, hcarries.trans hcarries', hsound'⟩
      · obtain ⟨heir, hcarries', hsound'⟩ := changeMeeting_carries hsound hthere h
        exact ⟨_, hcarries.trans hcarries', hsound'⟩
  · cases h
    exact ⟨id, carries_refl _, hs⟩

end Deliveries

/-! ## A fold of several rows -/

instance : Std.Total NewerFirst where
  total left right := le_total right.lastEventAt left.lastEventAt

instance : IsTrans MeetingRow NewerFirst where
  trans _ _ _ hab hbc := le_trans hbc hab

section FoldMeetings

variable {attendeeKey : JsString → JsString} {db db' : MeetingsDb} {rows : List MeetingRow}
  {target : Uuid}

variable (db) in
/-- The others are gone, and their aliases are the survivor's. -/
theorem foldOthers_find? (others : List MeetingRow) (htarget : target ∉ others.map MeetingRow.id) :
    (∀ i, (foldOthers target others db).meetings.find? i
      = if i ∈ others.map MeetingRow.id then none else db.meetings.find? i) ∧
    ∀ uid, (foldOthers target others db).aliases.find? uid
      = (db.aliases.find? uid).map fun row =>
          ⟨row.bookingUid, foldedInto target (others.map MeetingRow.id) row.meetingId⟩ := by
  induction others generalizing db with
  | nil =>
    refine ⟨fun i => by simp [foldOthers], fun uid => ?_⟩
    cases hrow : db.aliases.find? uid <;> simp [foldOthers, foldedInto, hrow]
  | cons other others ih =>
    simp only [List.map_cons, List.mem_cons, not_or] at htarget
    obtain ⟨hrows, haliases⟩ := ih ((db.moveAliases other.id target).deleteMeeting other.id)
      htarget.2
    constructor
    · intro i
      rw [foldOthers, hrows]
      show (if i ∈ others.map MeetingRow.id then none
        else (db.meetings.delete other.id).find? i) = _
      rw [Table.find?_delete]
      by_cases hi : i = other.id <;> simp [hi]
    · intro uid
      rw [foldOthers, haliases, alias_folded htarget.1]
      cases hrow : db.aliases.find? uid with
      | none => rfl
      | some row =>
        by_cases hi : row.meetingId = other.id
        · simp [foldedInto, hi]
        · simp [foldedInto, hi]

theorem newest_mem {survivor : MeetingRow} (h : survivor ∈ rows) :
    ((rows.insertionSort NewerFirst).head?).getD survivor ∈ rows ∧
      ∀ m ∈ rows, m.lastEventAt
        ≤ (((rows.insertionSort NewerFirst).head?).getD survivor).lastEventAt := by
  cases hhead : (rows.insertionSort NewerFirst).head? with
  | none =>
    rw [← List.mem_insertionSort NewerFirst, List.head?_eq_none_iff.1 hhead] at h
    cases h
  | some newest =>
    obtain ⟨hmem, hfirst⟩ := head_insertionSort hhead
    refine ⟨hmem, fun m hm => ?_⟩
    rcases hfirst m hm with rfl | hle
    · exact le_refl _
    · exact hle

/-- The link of a matched row changes no row's identity. -/
theorem linkedUpdate_some {linked : Bool} {firmId : Option Uuid} {written : Option MeetingRow}
    {survivor : MeetingRow} (hsurvivor : db.meetings.find? target = some survivor)
    (h : db.updateMeeting target (fun _ => linked) (fun row => { row with firmId })
      = some (written, db')) :
    ∃ s : MeetingRow, s.id = survivor.id ∧ s.bookingUid = survivor.bookingUid ∧
      (∀ i, db'.meetings.find? i = if i = target then some s else db.meetings.find? i) ∧
      db'.aliases = db.aliases := by
  rcases updateMeeting_some h with ⟨-, rfl, -⟩ | ⟨m, hm, -, -, -, -, rfl⟩
  · refine ⟨survivor, rfl, rfl, fun i => ?_, rfl⟩
    split
    next hi => rw [hi, hsurvivor]
    next => rfl
  · cases hm.symm.trans hsurvivor
    refine ⟨{ survivor with firmId }, rfl, rfl, fun i => ?_, rfl⟩
    have hid : survivor.id = target := Table.find?_key hsurvivor
    rw [find?_upsert_row, ← hid]

theorem foldMeetings_carries (hs : Sound db) (hrows : ∀ m ∈ rows, db.meetings.find? m.id = some m)
    (h : foldMeetings attendeeKey rows target db = some db') :
    ∃ heir, Carries heir db db' ∧ Sound db' := by
  obtain ⟨survivor, hfound, h⟩ := Option.bind_eq_some_iff.1 h
  have hmem := List.mem_of_find?_eq_some hfound
  have hid : survivor.id = target := by simpa using List.find?_some hfound
  subst hid
  simp only at h
  split at h
  · cases h
    exact ⟨id, carries_refl _, hs⟩
  split at h
  · cases h
  obtain ⟨⟨linked, dbl⟩, hlink, h⟩ := Option.bind_eq_some_iff.1 h
  obtain ⟨⟨written, dbw⟩, hwrite, h⟩ := Option.bind_eq_some_iff.1 h
  cases h
  obtain ⟨s, hsid, hsuid, hlinked, haliases⟩ := linkedUpdate_some (hrows survivor hmem) hlink
  have hout : survivor.id ∉ (rows.filter fun row => row.id ≠ survivor.id).map MeetingRow.id := by
    simp
  obtain ⟨hfolded, hmoved⟩ := foldOthers_find? dbl _ hout
  generalize foldOthers survivor.id (rows.filter fun row => row.id ≠ survivor.id) dbl = dbo
    at hfolded hmoved hwrite
  rcases updateMeeting_some hwrite with ⟨-, -, hguard⟩ | ⟨m, hm, -, hchecks, -, -, rfl⟩
  · have hthere := hfolded survivor.id
    rw [if_neg hout, hlinked, if_pos rfl] at hthere
    cases hguard s hthere
  rw [hfolded, if_neg hout, hlinked, if_pos rfl] at hm
  cases hm
  obtain ⟨hnewest, hlatest⟩ := newest_mem hmem
  generalize hset : foldSet _ _ _ _ _ s = s' at hchecks
  have hs'id : s'.id = survivor.id := by rw [← hset, ← hsid]; rfl
  have hall : Folded db { dbo with meetings := dbo.meetings.upsert s' } survivor s' rows
      ((rows.filter fun row => row.id ≠ survivor.id).map MeetingRow.id) := by
    refine ⟨⟨hmem, hout⟩, fun m hm => ⟨hrows m hm, ?_⟩, fun i hi => ?_, fun i => ?_,
      fun uid => ?_, hs'id, ?_⟩
    · by_cases hi : m.id = survivor.id
      · exact .inl hi
      · exact .inr (List.mem_map.2 ⟨m, List.mem_filter.2 ⟨hm, by simpa using hi⟩, rfl⟩)
    · obtain ⟨m, hm, hi⟩ := List.mem_map.1 hi
      exact ⟨m, (List.mem_filter.1 hm).1, hi⟩
    · rw [find?_upsert_row, hs'id, hfolded, hlinked]
      by_cases hi : i = survivor.id
      · rw [hi, if_pos rfl, if_neg hout, if_pos rfl]
      · rw [if_neg hi, if_neg hi, if_neg hi]
    · rw [← haliases]
      exact hmoved uid
    · rw [← hset, ← hsuid]
      rfl
  have hcarries := hall.carries _ hs
    (by
      intro m hm
      rw [← hset]
      exact le_trans (hlatest m hm) (le_max_right _ _))
    (by
      rw [← hset]
      exact ⟨rfl, rfl⟩)
    fun hnone => stateOf_person (hnone _ hnewest)
  have hsound := hall.sound hs hchecks
  have hthere : _ = some s' := (hall.meetings survivor.id).trans (by rw [if_neg hout, if_pos rfl])
  exact ⟨_, hcarries.trans (carries_alias _), sound_alias hsound hthere⟩

end FoldMeetings

/-! ## A person's word -/

/-- The meeting says what the action's person decided. -/
def SaysOf (m : MeetingRow) : MeetingAction → Prop
  | .confirm attended _ userId _ now =>
    m.state = (if attended then .held else .noShow) ∧
      attendanceOf m = ⟨some .manual, some now, some userId⟩
  | _ => False

/-- The action has written a person's decision on one meeting, now `m`, and nothing else. -/
structure Confirmed (action : MeetingAction) (db db' : MeetingsDb) (m : MeetingRow) : Prop where
  decision : SaysOf m action
  writes : ∃ old, db.meetings.find? m.id = some old ∧ old.lastEventAt = m.lastEventAt ∧
    old.bookingUid = m.bookingUid
  only : db' = { db with meetings := db.meetings.upsert m }

section Decisions

variable {db db' : MeetingsDb} {attended permitted : Bool} {meetingId userId : Uuid}
  {now : Instant} {answer : Except AttendanceRefusal MeetingRow}

theorem decideAttendance_confirm {m : MeetingRow} {toState : MeetingState}
    {before : Option MeetingState}
    (h : decideAttendance (if attended then .attended else .noShow) m
      = .ok (some (toState, before))) :
    toState = if attended then .held else .noShow := by
  cases attended <;>
  · simp only [decideAttendance, Bool.false_eq_true, ↓reduceIte] at h
    split at h <;> cases h
    rfl

theorem setMeetingAttendance_confirms (hs : Sound db)
    (h : setMeetingAttendance (confirmInput attended meetingId userId permitted now) db
      = some (answer, db')) :
    Sound db' ∧
      (db' = db ∨ ∃ m, Confirmed (.confirm attended meetingId userId permitted now) db db' m) := by
  unfold setMeetingAttendance at h
  split at h
  · cases h
    exact ⟨hs, .inl rfl⟩
  next m hm =>
    split_ifs at h
    all_goals try (cases h; exact ⟨hs, .inl rfl⟩)
    split at h
    · cases h
      exact ⟨hs, .inl rfl⟩
    · cases h
      exact ⟨hs, .inl rfl⟩
    next toState before hdecided =>
      obtain ⟨⟨written, after⟩, hupdate, h⟩ := Option.bind_eq_some_iff.1 h
      cases h
      have hid : m.id = meetingId := Table.find?_key hm
      rw [hid] at hupdate
      rcases updateMeeting_some hupdate with ⟨-, -, hguard⟩ | ⟨x, hx, -, hchecks, -, -, rfl⟩
      · cases hguard m hm
      · cases hm.symm.trans hx
        refine ⟨sound_of_write _ hs hm hid rfl hchecks, .inr ⟨attendanceSet _ toState before m,
          ⟨?_, ?_⟩, ⟨m, ?_, rfl, rfl⟩, rfl⟩⟩
        · exact decideAttendance_confirm hdecided
        · cases attended <;> rfl
        · exact hid.symm ▸ hm

end Decisions

/-! ## Histories -/

section Histories

variable {attendeeKey : JsString → JsString} {db db' : MeetingsDb} {action : MeetingAction}

theorem commits_kept (hs : Sound db) (h : action.commits attendeeKey db = some db') :
    Sound db' ∧ ((∃ heir, Carries heir db db') ∨ ∃ m, Confirmed action db db' m) := by
  cases action with
  | receive delivery =>
    obtain ⟨⟨applied, after⟩, hreceive, rfl⟩ := Option.map_eq_some_iff.1 h
    unfold receiveCalcomEvent at hreceive
    split at hreceive
    · cases hreceive
      exact ⟨hs, .inl ⟨id, carries_refl _⟩⟩
    · obtain ⟨⟨answer, last⟩, happly, hreceive⟩ := Option.bind_eq_some_iff.1 hreceive
      cases hreceive
      have hs' : Sound { db with events := delivery.eventId :: db.events } :=
        ⟨hs.live, hs.named, hs.checked⟩
      obtain ⟨heir, hcarries, hsound⟩ := applyEvent_carries hs' happly
      exact ⟨hsound, .inl ⟨heir, hcarries.aliases, hcarries.meetings, hcarries.decided⟩⟩
  | applyPendingAbsence meetingId now =>
    simp only [MeetingAction.commits] at h
    split at h
    · cases h
      exact ⟨hs, .inl ⟨id, carries_refl _⟩⟩
    · obtain ⟨⟨absent, after⟩, habsent, rfl⟩ := Option.map_eq_some_iff.1 h
      obtain ⟨hcarries, hsound, -⟩ := applyPendingAbsence_carries hs habsent
      exact ⟨hsound, .inl ⟨id, hcarries⟩⟩
  | foldMeetings meetingIds survivorId =>
    have hrows : ∀ m ∈ meetingIds.filterMap db.meetings.find?,
        db.meetings.find? m.id = some m := by
      intro m hm
      obtain ⟨i, -, hi⟩ := List.mem_filterMap.1 hm
      rw [Table.find?_key hi, hi]
    obtain ⟨heir, hcarries, hsound⟩ := foldMeetings_carries hs hrows h
    exact ⟨hsound, .inl ⟨heir, hcarries⟩⟩
  | confirm attended meetingId userId permitted now =>
    obtain ⟨⟨answer, after⟩, hconfirm, rfl⟩ := Option.map_eq_some_iff.1 h
    obtain ⟨hsound, hsame | hconfirmed⟩ := setMeetingAttendance_confirms hs hconfirm
    · exact ⟨hsound, .inl ⟨id, hsame ▸ carries_refl db⟩⟩
    · exact ⟨hsound, .inr hconfirmed⟩

variable (attendeeKey) in
/-- What one transaction does to the confirmations. -/
theorem meetingStep_kept (hs : Sound db) (action : MeetingAction) :
    Sound (meetingStep attendeeKey db action) ∧
      ((∃ heir, Carries heir db (meetingStep attendeeKey db action)) ∨
        ∃ m, Confirmed action db (meetingStep attendeeKey db action) m) := by
  cases hcommits : action.commits attendeeKey db with
  | none =>
    rw [meetingStep, hcommits]
    exact ⟨hs, .inl ⟨id, carries_refl db⟩⟩
  | some after =>
    rw [meetingStep, hcommits]
    exact commits_kept hs hcommits

theorem sound_empty : Sound MeetingsDb.empty where
  live _ _ h := by simp [MeetingsDb.empty] at h
  named _ _ h := by simp [MeetingsDb.empty] at h
  checked _ _ h := by simp [MeetingsDb.empty] at h

variable (attendeeKey) in
theorem meetingRun_sound (actions : List MeetingAction) :
    Sound (meetingRun attendeeKey actions) :=
  run_invariant (I := Sound) (fun _ action hs => (meetingStep_kept attendeeKey hs action).1) sound_empty actions

/-! ### What any history keeps -/

theorem resolve_some {uid : JsString} {m : MeetingRow} :
    db.resolve uid = some m ↔
      db.aliases.find? uid = some ⟨uid, m.id⟩ ∧ db.meetings.find? m.id = some m := by
  constructor
  · intro h
    obtain ⟨row, hrow, hm⟩ := Option.bind_eq_some_iff.1 h
    have hid : m.id = row.meetingId := Table.find?_key hm
    rw [hid, ← alias_eq hrow]
    exact ⟨hrow, hm⟩
  · rintro ⟨hrow, hm⟩
    rw [MeetingsDb.resolve, hrow, Option.bind_some, hm]

theorem Sound.resolves (hs : Sound db) {uid : JsString} {row : AliasRow}
    (h : db.aliases.find? uid = some row) : ∃ m, db.resolve uid = some m := by
  obtain ⟨m, hm⟩ := hs.live uid row h
  exact ⟨m, by rw [MeetingsDb.resolve, h, Option.bind_some, hm]⟩

theorem meetingByUid_of_resolve {uid : JsString} {m : MeetingRow} (h : db.resolve uid = some m) :
    db.meetingByUid uid = some m := by
  rw [MeetingsDb.resolve] at h
  simp [MeetingsDb.meetingByUid, h]

/-- A uid's meeting stays one, its events' time does not go back, and a person's word on it
stays a person's word. -/
def Keeps (db db' : MeetingsDb) : Prop :=
  ∀ uid m, db.resolve uid = some m → ∃ m', db'.resolve uid = some m' ∧
    m.lastEventAt ≤ m'.lastEventAt ∧ (byPerson m = true → byPerson m' = true)

theorem keeps_refl (db : MeetingsDb) : Keeps db db :=
  fun _ m hm => ⟨m, hm, le_refl _, id⟩

theorem keeps_trans {a b c : MeetingsDb} (hab : Keeps a b) (hbc : Keeps b c) : Keeps a c := by
  intro uid m hm
  obtain ⟨m', hm', hle, hperson⟩ := hab uid m hm
  obtain ⟨m'', hm'', hle', hperson'⟩ := hbc uid m' hm'
  exact ⟨m'', hm'', le_trans hle hle', hperson' ∘ hperson⟩

theorem Carries.resolve {heir : Uuid → Uuid} (h : Carries heir db db') {uid : JsString}
    {m : MeetingRow} (hm : db.resolve uid = some m) :
    ∃ m', db'.resolve uid = some m' ∧ m'.id = heir m.id ∧ Survives m m' := by
  obtain ⟨hrow, hthere⟩ := resolve_some.1 hm
  obtain ⟨m', hm', hsurvives⟩ := h.meetings _ m hthere
  have hid : m'.id = heir m.id := Table.find?_key hm'
  refine ⟨m', resolve_some.2 ⟨?_, hid ▸ hm'⟩, hid, hsurvives⟩
  rw [h.aliases uid _ hrow, hid]

theorem Carries.keeps {heir : Uuid → Uuid} (h : Carries heir db db') : Keeps db db' := by
  intro uid m hm
  obtain ⟨m', hm', -, hlast, hperson⟩ := h.resolve hm
  exact ⟨m', hm', hlast, fun h => (hperson h).1⟩

theorem Confirmed.person {m : MeetingRow} (h : Confirmed action db db' m) : byPerson m = true := by
  have hsays := h.decision
  cases action with
  | confirm attended meetingId userId permitted now =>
    have hsource : m.attendanceSource = some .manual := congrArg Attendance.source hsays.2
    simp [byPerson, hsource]
  | receive | applyPendingAbsence | foldMeetings => cases hsays

theorem Confirmed.resolve {m x : MeetingRow} (h : Confirmed action db db' m) {uid : JsString}
    (hx : db.resolve uid = some x) :
    db'.resolve uid = some (if x.id = m.id then m else x) := by
  obtain ⟨hrow, hthere⟩ := resolve_some.1 hx
  rw [h.only, resolve_some]
  show db.aliases.find? uid = _ ∧ (db.meetings.upsert m).find? _ = _
  split
  next hi => exact ⟨hi ▸ hrow, Table.find?_upsert_self⟩
  next hi => exact ⟨hrow, by rw [find?_upsert_row, if_neg hi, hthere]⟩

theorem Confirmed.keeps {m : MeetingRow} (h : Confirmed action db db' m) : Keeps db db' := by
  intro uid x hx
  refine ⟨_, h.resolve hx, ?_⟩
  split
  next hi =>
    obtain ⟨old, hold, hlast, -⟩ := h.writes
    cases (hi ▸ (resolve_some.1 hx).2 : db.meetings.find? m.id = some x).symm.trans hold
    exact ⟨hlast.le, fun _ => h.person⟩
  next => exact ⟨le_refl _, id⟩

theorem meetingStep_keeps (hs : Sound db) (action : MeetingAction) :
    Keeps db (meetingStep attendeeKey db action) := by
  obtain ⟨-, ⟨heir, hcarries⟩ | ⟨m, hconfirmed⟩⟩ := meetingStep_kept attendeeKey
    hs action
  · exact hcarries.keeps
  · exact hconfirmed.keeps

/-! ### Whose word it is -/

/-- The meeting's attendance is what a person decided, by an action of the history, of a booking
that is this meeting now. -/
def DecidedIn (attendeeKey : JsString → JsString) (actions : List MeetingAction)
    (m : MeetingRow) : Prop :=
  ∃ past action rest booking, actions = past ++ action :: rest ∧
    Confirmed action (meetingRun attendeeKey past) (meetingRun attendeeKey (past ++ [action]))
      booking ∧
    (meetingRun attendeeKey actions).resolve booking.bookingUid = some m ∧ SaysOf m action

theorem says_of_same {m m' : MeetingRow} (hsame : sameDecision m m') (h : SaysOf m action) :
    SaysOf m' action := by
  cases action with
  | confirm attended meetingId userId permitted now =>
    exact ⟨hsame.1.symm.trans h.1, hsame.2.symm.trans h.2⟩
  | receive | applyPendingAbsence | foldMeetings => exact h

variable (attendeeKey) in
theorem meetingRun_snoc (actions : List MeetingAction) (action : MeetingAction) :
    meetingRun attendeeKey (actions ++ [action])
      = meetingStep attendeeKey (meetingRun attendeeKey actions) action :=
  run_append _ _ _ _

/-- Every confirmation by a person is one that a person made. -/
theorem decidedIn (actions : List MeetingAction) :
    ∀ m, (meetingRun attendeeKey actions).meetings.find? m.id = some m → byPerson m = true →
      DecidedIn attendeeKey actions m := by
  induction actions using List.reverseRecOn with
  | nil =>
    intro m hm
    simp [meetingRun, MeetingsDb.empty] at hm
  | append_singleton actions action ih =>
    intro m hm hperson
    have hs := meetingRun_sound attendeeKey actions
    obtain ⟨hsound, hstep⟩ := meetingStep_kept attendeeKey hs action
    have hrun := meetingRun_snoc attendeeKey actions action
    rw [hrun] at hm
    -- a decision older than the action is still there
    have hkept : ∀ old, (meetingRun attendeeKey actions).meetings.find? old.id = some old →
        byPerson old = true → sameDecision old m →
        (∀ uid, (meetingRun attendeeKey actions).resolve uid = some old →
          (meetingRun attendeeKey (actions ++ [action])).resolve uid = some m) →
        DecidedIn attendeeKey (actions ++ [action]) m := by
      intro old hold hperson hsame hresolve
      obtain ⟨past, decided, rest, booking, hactions, hconfirmed, hbooking, hsays⟩ :=
        ih old hold hperson
      refine ⟨past, decided, rest ++ [action], booking, by simp [hactions], hconfirmed,
        hresolve _ hbooking, says_of_same hsame hsays⟩
    rcases hstep with ⟨heir, hcarries⟩ | ⟨written, hconfirmed⟩
    · obtain ⟨i, old, hold, hheir, hold', hsame⟩ := hcarries.decided m.id m hm hperson
      have hid : old.id = i := Table.find?_key hold
      refine hkept old (hid.symm ▸ hold) hold' hsame fun uid huid => ?_
      obtain ⟨m', hm', hid', -⟩ := hcarries.resolve huid
      rw [hid, hheir] at hid'
      have hthere := (resolve_some.1 hm').2
      rw [hid', hm] at hthere
      cases hthere
      rw [hrun, hm']
    · by_cases hi : m.id = written.id
      · have hwritten : m = written := by
          rw [hconfirmed.only, find?_upsert_row, if_pos hi] at hm
          exact (Option.some.inj hm).symm
        subst hwritten
        refine ⟨actions, action, [], m, rfl, hrun.symm ▸ hconfirmed, ?_, hconfirmed.decision⟩
        rw [hrun, resolve_some]
        exact ⟨hsound.named _ m hm, hm⟩
      · have hold : (meetingRun attendeeKey actions).meetings.find? m.id = some m := by
          rw [hconfirmed.only, find?_upsert_row, if_neg hi] at hm
          exact hm
        refine hkept m hold hperson ⟨rfl, rfl⟩ fun uid huid => ?_
        rw [hrun, hconfirmed.resolve huid, if_neg hi]

/-! ### The whole history -/

def MeetingAction.confirms : MeetingAction → Bool
  | confirm .. => true
  | _ => false

/-- Deliveries, deferred absences and folds carry every decision, the latest of the rows that
become one. -/
theorem carries_run (hs : Sound db) (actions : List MeetingAction)
    (hquiet : ∀ action ∈ actions, action.confirms = false) :
    ∃ heir, Carries heir db (run (meetingStep attendeeKey) db actions) := by
  induction actions generalizing db with
  | nil => exact ⟨id, carries_refl db⟩
  | cons action actions ih =>
    obtain ⟨hsound, ⟨heir, hcarries⟩ | ⟨m, hconfirmed⟩⟩ :=
      meetingStep_kept attendeeKey hs action
    · obtain ⟨heir', hcarries'⟩ := ih hsound fun a ha => hquiet a (List.mem_cons_of_mem _ ha)
      exact ⟨heir' ∘ heir, hcarries.trans hcarries'⟩
    · have hsays := hconfirmed.decision
      have hfalse := hquiet action List.mem_cons_self
      cases action with
      | confirm => cases hfalse
      | receive | applyPendingAbsence | foldMeetings => cases hsays

end Histories

/-- In every history a meeting that a person has confirmed stays confirmed by a person, as one
of the decisions made of its bookings: that of the last of the rows that became it. -/
theorem confirmations_kept (attendeeKey : JsString → JsString) (front back : List MeetingAction) :
    (∀ m ∈ (meetingRun attendeeKey front).meetings,
      (m.calcomAbsentPending = true → m.state.awaiting = true) ∧
        m.attendanceSource.isSome = m.state.confirmed ∧
        m.attendanceConfirmedAt.isSome = m.state.confirmed ∧
        m.attendanceConfirmedBy.isSome = byPerson m) ∧
    (∀ uid row, (meetingRun attendeeKey front).aliases.find? uid = some row →
      ∃! m, m ∈ (meetingRun attendeeKey (front ++ back)).meetings ∧
        ⟨uid, m.id⟩ ∈ (meetingRun attendeeKey (front ++ back)).aliases) ∧
    (∀ uid m, (meetingRun attendeeKey front).resolve uid = some m →
      ∃ m', (meetingRun attendeeKey (front ++ back)).resolve uid = some m' ∧
        (meetingRun attendeeKey (front ++ back)).meetingByUid uid = some m' ∧
        m.lastEventAt ≤ m'.lastEventAt ∧
        (byPerson m = true → byPerson m' = true ∧ m'.state.confirmed = true ∧
          DecidedIn attendeeKey (front ++ back) m')) ∧
    ((∀ action ∈ back, action.confirms = false) →
      ∃ heir, Carries heir (meetingRun attendeeKey front)
        (meetingRun attendeeKey (front ++ back))) ∧
    ∀ action, (∃ heir, Carries heir (meetingRun attendeeKey front)
        (meetingRun attendeeKey (front ++ [action]))) ∨
      ∃ m, Confirmed action (meetingRun attendeeKey front)
        (meetingRun attendeeKey (front ++ [action])) m := by
  have hs := meetingRun_sound attendeeKey front
  have hs' := meetingRun_sound attendeeKey (front ++ back)
  have hrun : meetingRun attendeeKey (front ++ back)
      = run (meetingStep attendeeKey) (meetingRun attendeeKey front) back := run_append _ _ _ _
  have hkeeps : Keeps (meetingRun attendeeKey front) (meetingRun attendeeKey (front ++ back)) := by
    rw [hrun]
    exact run_related (I := Sound) keeps_refl (fun _ _ _ => keeps_trans)
      (fun _ action h => (meetingStep_kept attendeeKey h action).1)
      (fun _ action h => meetingStep_keeps h action) hs back
  refine ⟨fun m hm => ?_, fun uid row hrow => ?_, fun uid m hm => ?_, fun hquiet => ?_,
    fun action => ?_⟩
  · exact checks_columns (hs.checked m.id m (Table.find?_eq_some.2 ⟨hm, rfl⟩))
  · obtain ⟨m, hm⟩ := hs.resolves hrow
    obtain ⟨m', hm', -⟩ := hkeeps uid m hm
    obtain ⟨halias, hthere⟩ := resolve_some.1 hm'
    refine ⟨m', ⟨(Table.find?_eq_some.1 hthere).1, (Table.find?_eq_some.1 halias).1⟩, ?_⟩
    rintro x ⟨hx, hxalias⟩
    have hsame := (Table.find?_eq_some.2 ⟨hxalias, rfl⟩).symm.trans halias
    have hid : x.id = m'.id := congrArg AliasRow.meetingId (Option.some.inj hsame)
    have hx' := Table.find?_eq_some.2 ⟨hx, hid⟩
    exact Option.some.inj (hx'.symm.trans hthere)
  · obtain ⟨m', hm', hlast, hperson⟩ := hkeeps uid m hm
    have hthere := (resolve_some.1 hm').2
    refine ⟨m', hm', meetingByUid_of_resolve hm', hlast, fun h => ⟨hperson h, ?_, ?_⟩⟩
    · exact checks_person (hs'.checked _ m' hthere) (hperson h)
    · exact decidedIn _ m' hthere (hperson h)
  · rw [hrun]
    exact carries_run hs back hquiet
  · rw [meetingRun_snoc]
    exact (meetingStep_kept attendeeKey hs action).2

end FoundingSales.Meetings
