import FoundingSales.Suppression.Lineage
import FoundingSales.Library.Links

/-!
What the tables of a workspace satisfy: supersessions link backwards, once, on the same key
and channel; a copy is the image of its original on the firm that one was merged into; and
what is lifted is lifted on every copy.

Proved here:
* `insertEvent_inserted` and `insertEvent_succeeds`: what one `INSERT` asks for and leaves;
* `Sound.insert`: an `INSERT` of a stop, a lift or a copy keeps the log sound;
* `effectiveOn_iff`: the view shows a key for a channel when a stop of it stands.
-/

namespace FoundingSales.Suppression

open Tables Crm Relation

/-- `copy` is what a merge of the firm of `original` wrote, or a lift carried onto it. -/
structure IsCopy (firms : Firms) (original copy : SuppressionEvent) : Prop where
  merged : ∃ firm ∈ firms, ∃ survivor, firm.id.text = original.canonicalKey ∧
    firm.mergedInto = some survivor ∧ copy.canonicalKey = survivor.text
  eventId : copy.eventId = mergeCopyId original.eventId copy.canonicalKey
  originalScope : original.scope = .firm
  scope : copy.scope = .firm
  source : copy.source = original.source
  actor : copy.actorUserId = original.actorUserId
  supersedes : copy.supersedesEventId
    = original.supersedesEventId.map (mergeCopyId · copy.canonicalKey)
  reason : copy.supersessionReason = original.supersessionReason
  channel : copy.channel = original.channel

theorem IsCopy.copyOf {firms : Firms} {original copy : SuppressionEvent}
    (h : IsCopy firms original copy) : CopyOf original.eventId copy.eventId := by
  obtain ⟨_, _, survivor, -, -, hkey⟩ := h.merged
  rw [h.eventId, hkey]
  exact .merge survivor

/-- A supersession and what it supersedes are about the same key and channel. -/
structure SameSubject (original row : SuppressionEvent) : Prop where
  scope : original.scope = row.scope
  key : original.canonicalKey = row.canonicalKey
  channel : original.channel = row.channel

structure Sound (db : Database) : Prop where
  backward : Links.Backward SuppressionEvent.eventId SuppressionEvent.supersedesEventId
    db.events.rows
  same : ∀ row ∈ db.events, ∀ original ∈ db.events,
    row.supersedesEventId = some original.eventId → SameSubject original row
  once : ∀ row ∈ db.events, ∀ other ∈ db.events, ∀ id, row.supersedesEventId = some id →
    other.supersedesEventId = some id → row = other
  checks : ∀ row ∈ db.events, suppressionChecks row = true
  copies : ∀ row ∈ db.events, isMergeCopyId row.eventId = true →
    ∃ original ∈ db.events, IsCopy db.firms original row
  keys : ∀ row ∈ db.events, row.scope = .firm → ∃ firm ∈ db.firms, firm.id.text = row.canonicalKey

/-- What is lifted is lifted on its copies, the copies of `hole` aside. -/
def Carried (db : Database) (hole : Option JsString) : Prop :=
  ∀ original ∈ db.events, ∀ copy ∈ db.events, CopyOf original.eventId copy.eventId →
    hole ≠ some original.eventId → db.superseded original.eventId = true →
    db.superseded copy.eventId = true

theorem superseded_iff {db : Database} {id : JsString} :
    db.superseded id = true ↔ ∃ row ∈ db.events, row.supersedesEventId = some id := by
  simp only [Database.superseded, List.any_eq_true, decide_eq_true_eq]
  exact Iff.rfl

/-! ## The view -/

theorem effective_iff {db : Database} {row : SuppressionEvent} : db.effective row = true ↔
    row.supersedesEventId = none ∧ db.superseded row.eventId = false := by
  simp only [Database.effective, Bool.and_eq_true, Option.isNone_iff_eq_none, Bool.not_eq_true']

/-- The view shows a key for a channel when a stop of it stands. -/
theorem effectiveOn_iff {db : Database} {scope : SuppressionScope} {key : JsString}
    {channel : SuppressionChannel} : db.effectiveOn scope key channel = true ↔
      ∃ row ∈ db.events, db.effective row = true ∧ row.scope = scope ∧ row.canonicalKey = key ∧
        row.channel = channel := by
  simp only [Database.effectiveOn, Database.effectiveSuppressions, List.any_eq_true,
    List.mem_filter, Bool.and_eq_true, decide_eq_true_eq]
  constructor
  · rintro ⟨row, ⟨hrow, heffective, -⟩, ⟨hscope, hkey⟩, hchannel⟩
    exact ⟨row, hrow, heffective, hscope, hkey, hchannel⟩
  · rintro ⟨row, hrow, heffective, hscope, hkey, hchannel⟩
    have hmem : row ∈ db.events.rows.filter fun other => db.effective other &&
        other.scope = scope && other.canonicalKey = key && other.channel = channel := by
      simp only [List.mem_filter, Bool.and_eq_true, decide_eq_true_eq]
      exact ⟨hrow, ⟨⟨heffective, hscope⟩, hkey⟩, hchannel⟩
    obtain ⟨first, hfirst, hleast⟩ := exists_earliest (List.ne_nil_of_mem hmem)
    simp only [List.mem_filter, Bool.and_eq_true, decide_eq_true_eq] at hfirst hleast
    obtain ⟨hin, ⟨⟨hstands, rfl⟩, rfl⟩, rfl⟩ := hfirst
    refine ⟨first, ⟨hin, hstands, ?_⟩, ⟨rfl, rfl⟩, rfl⟩
    simp only [List.all_eq_true, Bool.or_eq_true, Bool.not_eq_true', Bool.and_eq_false_iff,
      decide_eq_false_iff_not]
    intro other hother
    by_cases hsame : db.effective other = true ∧ other.scope = first.scope ∧
        other.canonicalKey = first.canonicalKey ∧ other.channel = first.channel
    · exact .inr (hleast other ⟨hother, ⟨⟨hsame.1, hsame.2.1⟩, hsame.2.2.1⟩, hsame.2.2.2⟩)
    · left
      cases heff : db.effective other
      · exact .inl (.inl (.inl rfl))
      · simp only [heff, true_and, not_and] at hsame
        by_cases hs : other.scope = first.scope
        · by_cases hk : other.canonicalKey = first.canonicalKey
          · exact .inr (hsame hs hk)
          · exact .inl (.inr hk)
        · exact .inl (.inl (.inr hs))

/-! ## One INSERT -/

/-- What an `INSERT INTO suppression_events` that succeeds leaves. -/
structure Inserted (db db' : Database) (row : SuppressionEvent) : Prop where
  rest : db' = { db with events := db'.events }
  insert : db.events.insert? row = some db'.events
  checks : suppressionChecks row = true
  unsuperseded : ∀ id, row.supersedesEventId = some id → db.superseded id = false
  original : ∀ id, row.supersedesEventId = some id → id = row.eventId ∨
    ∃ original ∈ db.events, original.eventId = id ∧ SameSubject original row

namespace Inserted

variable {db db' : Database} {row : SuppressionEvent}

theorem rows (h : Inserted db db' row) : db'.events.rows = db.events.rows ++ [row] :=
  (Table.insert?_eq_some h.insert).2

theorem mem (h : Inserted db db' row) {r : SuppressionEvent} :
    r ∈ db'.events ↔ r ∈ db.events ∨ r = row := Table.mem_insert? h.insert

theorem fresh (h : Inserted db db' row) {r : SuppressionEvent} (hr : r ∈ db.events) :
    r.eventId ≠ row.eventId :=
  Table.find?_eq_none.1 (Table.insert?_eq_some h.insert).1 r hr

theorem firms (h : Inserted db db' row) : db'.firms = db.firms := by rw [h.rest]

theorem superseded (h : Inserted db db' row) {id : JsString} :
    db'.superseded id = true ↔ db.superseded id = true ∨ row.supersedesEventId = some id := by
  simp only [superseded_iff, h.mem]
  constructor
  · rintro ⟨r, hr | rfl, hid⟩
    · exact .inl ⟨r, hr, hid⟩
    · exact .inr hid
  · rintro (⟨r, hr, hid⟩ | hid)
    · exact ⟨r, .inl hr, hid⟩
    · exact ⟨row, .inr rfl, hid⟩

end Inserted

theorem assertSupersessionSameKey_iff {db : Database} {row : SuppressionEvent} :
    db.assertSupersessionSameKey row = true ↔ ∀ original ∈ db.events,
      row.supersedesEventId = some original.eventId → SameSubject original row := by
  unfold Database.assertSupersessionSameKey
  constructor
  · intro h original horiginal hid
    rw [hid, Option.bind_some, Table.find?_eq_some.2 ⟨horiginal, rfl⟩] at h
    simp only [Bool.and_eq_true, decide_eq_true_eq] at h
    exact ⟨h.1.1, h.1.2, h.2⟩
  · intro h
    cases hfind : row.supersedesEventId.bind db.events.find? with
    | none => rfl
    | some original =>
      obtain ⟨id, hid, hrow⟩ := Option.bind_eq_some_iff.1 hfind
      obtain ⟨hmem, rfl⟩ := Table.find?_eq_some.1 hrow
      obtain ⟨hscope, hkey, hchannel⟩ := h original hmem hid
      simp only [hscope, hkey, hchannel, decide_true, Bool.and_self]

theorem insertEvent_inserted {db db' : Database} {row : SuppressionEvent}
    (h : db.insertEvent row = .ok db') : Inserted db db' row := by
  unfold Database.insertEvent at h
  split at h
  · cases h
  next hguard =>
  simp only [Bool.or_eq_true, Bool.not_eq_true', not_or, Bool.not_eq_false] at hguard
  obtain ⟨hsame, hchecks⟩ := hguard
  split at h
  · cases h
  next hfree =>
  split at h
  · cases h
  next events hinsert =>
  split at h
  next hforeign =>
    cases h
    refine ⟨rfl, hinsert, hchecks, fun id hid => ?_, fun id hid => ?_⟩
    · simpa [hid] using hfree
    · simp only [hid, Option.all_some] at hforeign
      obtain ⟨original, hfind⟩ := Option.isSome_iff_exists.1 hforeign
      obtain ⟨hmem, rfl⟩ := Table.find?_eq_some.1 hfind
      rcases (Table.mem_insert? hinsert).1 hmem with hold | rfl
      · exact .inr ⟨original, hold, rfl, assertSupersessionSameKey_iff.1 hsame original hold hid⟩
      · exact .inl rfl
  · cases h

theorem insertEvent_succeeds {db : Database} {row : SuppressionEvent}
    (hfresh : ∀ r ∈ db.events, r.eventId ≠ row.eventId) (hchecks : suppressionChecks row = true)
    (hfree : ∀ id, row.supersedesEventId = some id → db.superseded id = false)
    (hsame : ∀ id, row.supersedesEventId = some id →
      ∃ original ∈ db.events, original.eventId = id ∧ SameSubject original row) :
    ∃ db', db.insertEvent row = .ok db' := by
  have htrigger : db.assertSupersessionSameKey row = true := by
    refine assertSupersessionSameKey_iff.2 fun original horiginal hid => ?_
    obtain ⟨original', hmem, heq, hsubject⟩ := hsame _ hid
    rwa [← Table.eq_of_key_eq hmem horiginal heq]
  unfold Database.insertEvent
  rw [if_neg (by simp [htrigger, hchecks])]
  rw [if_neg (by cases hid : row.supersedesEventId with
    | none => simp
    | some id => simp [hfree id hid])]
  cases hinsert : db.events.insert? row with
  | none =>
    obtain ⟨r, hr, hid⟩ := Table.insert?_eq_none hinsert
    exact absurd hid (hfresh r hr)
  | some events =>
    have hforeign : (row.supersedesEventId.all fun id => (events.find? id).isSome) = true := by
      cases hid : row.supersedesEventId with
      | none => rfl
      | some id =>
        obtain ⟨original, hmem, rfl, -⟩ := hsame id hid
        rw [Option.all_some, Option.isSome_iff_exists]
        exact ⟨original, Table.find?_eq_some.2 ⟨(Table.mem_insert? hinsert).2 (.inl hmem), rfl⟩⟩
    simp only [hforeign, if_true]
    exact ⟨_, rfl⟩

theorem IsCopy.mono {firms firms' : Firms} {original copy : SuppressionEvent}
    (h : IsCopy firms original copy)
    (hfirms : ∀ firm ∈ firms, firm.mergedInto.isSome → ∃ firm' ∈ firms', firm'.id = firm.id ∧
      firm'.mergedInto = firm.mergedInto) : IsCopy firms' original copy := by
  obtain ⟨firm, hfirm, survivor, hkey, hmerged, hsurvivor⟩ := h.merged
  obtain ⟨firm', hfirm', hid, hinto⟩ := hfirms firm hfirm (by rw [hmerged]; rfl)
  exact { h with merged := ⟨firm', hfirm', survivor, by rw [hid, hkey], by rw [hinto, hmerged],
    hsurvivor⟩ }

namespace Sound

variable {db db' : Database} {row : SuppressionEvent}

theorem original (h : Sound db) (hrow : row ∈ db.events) {id : JsString}
    (hid : row.supersedesEventId = some id) :
    ∃ original ∈ db.events, original.eventId = id ∧ SameSubject original row := by
  obtain ⟨original, hmem, rfl⟩ := h.backward.original hrow hid
  exact ⟨original, hmem, rfl, h.same row hrow original hmem hid⟩

/-- What a merge copy was copied from is in the log. -/
theorem copied (h : Sound db) (hrow : row ∈ db.events) {id : JsString}
    (hcopy : CopyOf id row.eventId) :
    ∃ original ∈ db.events, original.eventId = id ∧ IsCopy db.firms original row := by
  obtain ⟨original, hmem, his⟩ := h.copies row hrow hcopy.isMergeCopyId
  exact ⟨original, hmem, his.copyOf.original_unique hcopy, his⟩

/-- Events of a firm not merged have no copies. -/
theorem not_copied (h : Sound db) {firm : FirmRow} (hfirm : firm ∈ db.firms)
    (hlive : firm.mergedInto = none) (hkey : row.canonicalKey = firm.id.text) (hrow : row ∈ db.events)
    {copy : SuppressionEvent} (hcopy : copy ∈ db.events) : ¬ CopyOf row.eventId copy.eventId := by
  intro hof
  obtain ⟨original, hmem, hid, his⟩ := h.copied hcopy hof
  obtain rfl : original = row := Table.eq_of_key_eq hmem hrow hid
  obtain ⟨firm', hfirm', survivor, hkey', hmerged, -⟩ := his.merged
  have hids : firm'.id = firm.id := by
    have htext := hkey'.trans hkey
    cases hf : firm'.id
    cases hg : firm.id
    simp only [hf, hg] at htext
    subst htext
    rfl
  rw [Table.eq_of_key_eq hfirm' hfirm hids, hlive] at hmerged
  cases hmerged

/-- An `INSERT` keeps the log sound when it is no copy, or the copy of an event in it. -/
theorem insert (h : Sound db) (hi : Inserted db db' row)
    (hself : row.supersedesEventId ≠ some row.eventId)
    (hcopy : isMergeCopyId row.eventId = true → ∃ original ∈ db.events,
      IsCopy db.firms original row)
    (hkey : row.scope = .firm → ∃ firm ∈ db.firms, firm.id.text = row.canonicalKey) :
    Sound db' := by
  have horiginal : ∀ id, row.supersedesEventId = some id →
      ∃ original ∈ db.events, original.eventId = id ∧ SameSubject original row := by
    intro id hid
    rcases hi.original id hid with rfl | hfound
    · exact absurd hid hself
    · exact hfound
  refine ⟨?_, ?_, ?_, ?_, ?_, ?_⟩
  · rw [hi.rows]
    refine (Links.backward_append _ _).2 ⟨h.backward, fun id hid => ?_⟩
    obtain ⟨original, hmem, heq, -⟩ := horiginal id hid
    exact ⟨original, hmem, heq⟩
  · intro r hr original hmem hid
    rcases hi.mem.1 hr with hr | rfl
    · obtain ⟨original', hmem', heq, hsubject⟩ := h.original hr hid
      have hin : original' ∈ db'.events := hi.mem.2 (.inl hmem')
      rwa [← Table.eq_of_key_eq hin hmem heq]
    · obtain ⟨original', hmem', heq, hsubject⟩ := horiginal _ hid
      have hin : original' ∈ db'.events := hi.mem.2 (.inl hmem')
      rwa [← Table.eq_of_key_eq hin hmem heq]
  · intro r hr other hother id hid hid'
    have hfree : ∀ r ∈ db.events, r.supersedesEventId = some id →
        row.supersedesEventId = some id → False := by
      intro r hr hid hrow
      have hlifted := superseded_iff.2 ⟨r, hr, hid⟩
      rw [hi.unsuperseded id hrow] at hlifted
      cases hlifted
    rcases hi.mem.1 hr with hr | rfl <;> rcases hi.mem.1 hother with hother | rfl
    · exact h.once r hr other hother id hid hid'
    · exact (hfree r hr hid hid').elim
    · exact (hfree other hother hid' hid).elim
    · rfl
  · intro r hr
    rcases hi.mem.1 hr with hr | rfl
    · exact h.checks r hr
    · exact hi.checks
  · intro r hr his
    rw [hi.firms]
    rcases hi.mem.1 hr with hr | rfl
    · obtain ⟨original, hmem, hcopied⟩ := h.copies r hr his
      exact ⟨original, hi.mem.2 (.inl hmem), hcopied⟩
    · obtain ⟨original, hmem, hcopied⟩ := hcopy his
      exact ⟨original, hi.mem.2 (.inl hmem), hcopied⟩
  · intro r hr hscope
    rw [hi.firms]
    rcases hi.mem.1 hr with hr | rfl
    · exact h.keys r hr hscope
    · exact hkey hscope

end Sound

/-- The row a stop writes. -/
theorem writeStop_inserts {c : Context} {firmId : Option FirmId} {row : SuppressionEvent}
    {db db' : Database} {recorded : RecordedSuppression}
    (h : writeStop c firmId row db = .ok (recorded, db')) :
    db.events.insert? row = some db'.events := by
  unfold writeStop at h
  cases hinsert : db.insertEvent row with
  | error e => simp only [hinsert, bind, Except.bind, reduceCtorEq] at h
  | ok mid =>
    have hi := insertEvent_inserted hinsert
    simp only [hinsert, bind, Except.bind] at h
    split at h
    · cases hclaim : mid.claimFinalization ⟨row.eventId, .finalized, c.now, none, none⟩ with
      | error e => simp only [hclaim, reduceCtorEq] at h
      | ok claimed =>
        simp only [hclaim, pure, Except.pure] at h
        cases h
        have hevents : claimed.2.events = mid.events := by
          unfold Database.claimFinalization at hclaim
          split at hclaim
          · cases hclaim
            rfl
          · split at hclaim
            · cases hclaim
              rfl
            · cases hclaim
        rw [hevents]
        exact hi.insert
    · simp only [pure, Except.pure] at h
      cases h
      cases firmId with
      | none => exact hi.insert
      | some firm => exact hi.insert

/-- Recording a stop leaves the events as they are, or adds the stop's row under its key. -/
theorem recordSuppression_events {c : Context} {input : RecordSuppressionInput} {db db' : Database}
    {result : SuppressionResult RecordedSuppression}
    (h : (recordSuppression c input db).result = .ok (result, db')) :
    ((∃ reason, result = .refused reason) ∧ db' = db) ∨
      ∃ key, suppressionKey c input db = .ok key ∧
        (∃ recorded, result = .accepted recorded) ∧
        (db' = db ∨ db.events.insert? (stopRow c input key) = some db'.events) := by
  unfold recordSuppression at h
  split at h
  · cases h
    exact .inl ⟨⟨_, rfl⟩, rfl⟩
  cases hkey : suppressionKey c input db with
  | error refusal =>
    rw [hkey] at h
    cases h
    exact .inl ⟨⟨_, rfl⟩, rfl⟩
  | ok key =>
    rw [hkey] at h
    dsimp only at h
    split at h
    · cases h
      exact .inl ⟨⟨_, rfl⟩, rfl⟩
    split at h
    · cases h
      exact .inr ⟨key, rfl, ⟨_, rfl⟩, .inl rfl⟩
    · cases hwrite : writeStop c input.firmId (stopRow c input key) db with
      | error e =>
        rw [hwrite] at h
        cases h
      | ok written =>
        obtain ⟨recorded, db''⟩ := written
        rw [hwrite] at h
        cases h
        exact .inr ⟨key, rfl, ⟨_, rfl⟩, .inr (writeStop_inserts hwrite)⟩

/-- A stop that is refused: before any event is read. -/
def stopRefused (c : Context) (input : RecordSuppressionInput) (db : Database) : Bool :=
  (input.source = .salespersonManual && c.actor.userId.isNone) ||
    match suppressionKey c input db with
    | .error _ => true
    | .ok key => !channelFitsKey input.scope key input.channel

theorem recordSuppression_of_refused {c : Context} {input : RecordSuppressionInput} {db : Database}
    (h : stopRefused c input db = true) :
    ∃ reason, (recordSuppression c input db).result = .ok (.refused reason, db) := by
  unfold recordSuppression
  split
  · exact ⟨_, rfl⟩
  next hmanual =>
  simp only [stopRefused, hmanual, Bool.false_or] at h
  cases hkey : suppressionKey c input db with
  | error refusal => exact ⟨refusal, rfl⟩
  | ok key =>
    rw [hkey] at h
    dsimp only at h ⊢
    rw [if_pos h]
    exact ⟨_, rfl⟩

theorem stopRefused_of_recordSuppression {c : Context} {input : RecordSuppressionInput}
    {db db' : Database} {reason : SuppressionRefusalCode}
    (h : (recordSuppression c input db).result = .ok (.refused reason, db')) :
    stopRefused c input db = true := by
  unfold recordSuppression at h
  split at h
  · next hmanual => simp only [stopRefused, hmanual, Bool.true_or]
  cases hkey : suppressionKey c input db with
  | error refusal => simp only [stopRefused, hkey, Bool.or_true]
  | ok key =>
    rw [hkey] at h
    dsimp only at h
    split at h
    · next hfits => simp only [stopRefused, hkey, hfits, Bool.or_true]
    split at h
    · cases h
    · dsimp only at h
      cases hwrite : writeStop c input.firmId (stopRow c input key) db with
      | error e =>
        rw [hwrite] at h
        cases h
      | ok written =>
        rw [hwrite] at h
        cases h

end FoundingSales.Suppression
