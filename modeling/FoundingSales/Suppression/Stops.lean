import FoundingSales.Suppression.Lifting

/-!
What recording a stop and running the finalizer leave.

Proved here:
* `recordSuppression_spec`: nothing changes, or one stop is written and, when its source is
  terminal, decided;
* `finalizeManualSuppression_spec`: nothing changes, or a due manual stop is decided.
-/

namespace FoundingSales.Suppression

open Tables Crm

variable {db db' : Database} {c : Context}

theorem suppressionKey_firm {input : RecordSuppressionInput} {key : JsString}
    (h : suppressionKey c input db = .ok key) (hscope : input.scope = .firm) :
    ∃ firm ∈ db.firms, firm.id.text = key ∧ firm.mergedInto = none := by
  unfold suppressionKey at h
  rw [hscope] at h
  dsimp only at h
  split at h
  · cases h
  next firmId hfirmId =>
  split at h
  · cases h
  next hallowed =>
  cases h
  unfold firmRefusal at hallowed
  split at hallowed
  · cases hallowed
  next firm hfind =>
  obtain ⟨hfirm, rfl⟩ := Table.find?_eq_some.1 hfind
  refine ⟨firm, hfirm, rfl, ?_⟩
  cases hinto : firm.mergedInto with
  | none => rfl
  | some survivor => simp [decideFirmMutation, hinto] at hallowed

/-- What recording a stop leaves. -/
structure Recorded (c : Context) (db db' : Database) (row : SuppressionEvent) : Prop where
  inserted : Inserted db { db with events := db'.events } row
  firms : db'.firms = db.firms
  supersedes : row.supersedesEventId = none
  plain : isMergeCopyId row.eventId = false
  actor : row.actorUserId = c.actor.userId
  recordedAt : row.recordedAt = c.now
  source : row.source.supersession = false
  key : row.scope = .firm → ∃ firm ∈ db.firms, firm.id.text = row.canonicalKey ∧
    firm.mergedInto = none
  finalizations : db'.finalizations = if row.source.terminal
    then db.finalizations.upsert ⟨row.eventId, .finalized, c.now, none, none⟩
    else db.finalizations
  finalizeJobs : db'.finalizeJobs = if row.source.terminal then db.finalizeJobs
    else (db.finalizeJobs.insert? ⟨row.eventId, correctionDeadline row⟩).getD db.finalizeJobs

theorem enqueueFinalizer_events (job : FinalizeJob) :
    (db.enqueueFinalizer job).events = db.events := rfl

private theorem writeStop_spec {firmId : Option FirmId} {row : SuppressionEvent}
    {recorded : RecordedSuppression} (hclaim : db.finalizations.find? row.eventId = none)
    (h : writeStop c firmId row db = .ok (recorded, db')) :
    Inserted db { db with events := db'.events } row ∧ db'.firms = db.firms ∧
      (db'.finalizations = if row.source.terminal
        then db.finalizations.upsert ⟨row.eventId, .finalized, c.now, none, none⟩
        else db.finalizations) ∧
      db'.finalizeJobs = if row.source.terminal then db.finalizeJobs
        else (db.finalizeJobs.insert? ⟨row.eventId, correctionDeadline row⟩).getD
          db.finalizeJobs := by
  unfold writeStop at h
  cases hinsert : db.insertEvent row with
  | error e => simp only [hinsert, bind, Except.bind, reduceCtorEq] at h
  | ok mid =>
    have hi := insertEvent_inserted hinsert
    have hrest := hi.rest
    have hfinalizations : mid.finalizations = db.finalizations := by rw [hrest]
    simp only [hinsert, bind, Except.bind] at h
    by_cases hterminal : row.source.terminal = true
    · have hfind : mid.events.find? row.eventId = some row :=
        Table.find?_eq_some.2 ⟨hi.mem.2 (.inr rfl), rfl⟩
      simp only [if_pos hterminal, Database.claimFinalization, hfinalizations, hclaim, hfind,
        Option.isSome_some, if_true, pure, Except.pure] at h ⊢
      cases h
      refine ⟨by rw [← hrest]; exact hi, by rw [hrest], rfl, by rw [hrest]⟩
    · simp only [if_neg hterminal, pure, Except.pure] at h ⊢
      cases h
      cases firmId with
      | none => exact ⟨by rw [enqueueFinalizer_events, ← hrest]; exact hi, by
          simp only [Database.enqueueFinalizer]; rw [hrest], hfinalizations, by
          simp only [Database.enqueueFinalizer]; rw [hrest]⟩
      | some firm => exact ⟨by rw [enqueueFinalizer_events]; exact hrest ▸ hi, by
          simp only [Database.enqueueFinalizer, Database.openHold]; rw [hrest], hfinalizations, by
          simp only [Database.enqueueFinalizer, Database.openHold]; rw [hrest]⟩

/-- Every decision is about an event of the log. -/
def Decided (db : Database) : Prop :=
  ∀ claim ∈ db.finalizations, ∃ event ∈ db.events, event.eventId = claim.eventId

theorem Decided.unclaimed (h : Decided db) {id : JsString}
    (hfresh : ∀ event ∈ db.events, event.eventId ≠ id) : db.finalizations.find? id = none := by
  refine Table.find?_eq_none.2 fun claim hclaim heq => ?_
  obtain ⟨event, hevent, hid⟩ := h claim hclaim
  exact hfresh event hevent (hid.trans heq)

/-- Recording a stop changes nothing, or journals and writes one row. -/
theorem recordSuppression_spec {input : RecordSuppressionInput}
    {result : SuppressionResult RecordedSuppression} (hdecided : Decided db)
    (h : (recordSuppression c input db).result = .ok (result, db')) :
    ((recordSuppression c input db).journalled = [] ∧ db' = db) ∨
    ∃ row, (recordSuppression c input db).journalled = [stopRecord c input.firmId row] ∧
      Recorded c db db' row := by
  unfold recordSuppression at h ⊢
  split at h
  next hmanual =>
    rw [if_pos hmanual]
    cases h
    exact .inl ⟨rfl, rfl⟩
  next hmanual =>
  rw [if_neg hmanual]
  cases hkey : suppressionKey c input db with
  | error refusal =>
    rw [hkey] at h
    cases h
    exact .inl ⟨rfl, rfl⟩
  | ok key =>
    rw [hkey] at h
    dsimp only at h ⊢
    split at h
    next hfits =>
      rw [if_pos hfits]
      cases h
      exact .inl ⟨rfl, rfl⟩
    next hfits =>
    rw [if_neg hfits]
    cases hfound : db.events.find? (stopRow c input key).eventId <|> db.sameCommandEvent input key with
    | some existing =>
      rw [hfound] at h
      cases h
      exact .inl ⟨rfl, rfl⟩
    | none =>
      rw [hfound] at h
      dsimp only at h ⊢
      cases hwrite : writeStop c input.firmId (stopRow c input key) db with
      | error e =>
        rw [hwrite] at h
        cases h
      | ok written =>
        obtain ⟨recorded, db''⟩ := written
        rw [hwrite] at h
        cases h
        have hfresh : ∀ event ∈ db.events, event.eventId ≠ (stopRow c input key).eventId := by
          apply Table.find?_eq_none.1
          cases hfind : db.events.find? (stopRow c input key).eventId with
          | none => rfl
          | some event => simp [hfind] at hfound
        obtain ⟨hi, hfirms, hfinalizations, hjobs⟩ :=
          writeStop_spec (hdecided.unclaimed hfresh) hwrite
        exact .inr ⟨stopRow c input key, rfl, hi, hfirms, rfl, deterministicEventId_not_copy, rfl,
          rfl, input.notSupersession, suppressionKey_firm hkey, hfinalizations, hjobs⟩

theorem Recorded.sound {row : SuppressionEvent} (h : Recorded c db db' row) (hs : Sound db) :
    Sound db' := by
  have hmid : Sound { db with events := db'.events } := by
    refine hs.insert h.inserted ?_ (fun hcopy => ?_) fun hscope => ?_
    · rw [h.supersedes]
      simp
    · rw [h.plain] at hcopy
      cases hcopy
    · obtain ⟨firm, hfirm, hkey, -⟩ := h.key hscope
      exact ⟨firm, hfirm, hkey⟩
  exact hmid.of_eq rfl h.firms

theorem Recorded.superseded {row : SuppressionEvent} (h : Recorded c db db' row) (id : JsString) :
    db'.superseded id = db.superseded id := by
  have hi := @Inserted.superseded _ _ _ h.inserted id
  rw [h.supersedes] at hi
  have hsame : db'.superseded id = ({ db with events := db'.events } : Database).superseded id :=
    superseded_of_eq rfl id
  rw [hsame, Bool.eq_iff_iff, hi]
  simp

theorem Recorded.mem {row event : SuppressionEvent} (h : Recorded c db db' row) :
    event ∈ db'.events ↔ event ∈ db.events ∨ event = row := h.inserted.mem

theorem Recorded.carried {row : SuppressionEvent} (h : Recorded c db db' row) (hs : Sound db)
    (hc : Carried db none) : Carried db' none := by
  intro original horiginal copy hcopy hof _ hup
  rw [h.superseded] at hup ⊢
  rcases h.mem.1 hcopy with hcopy | rfl
  · obtain ⟨parent, hparent, hid, -⟩ := hs.copied hcopy hof
    rw [← hid] at hof hup
    exact hc parent hparent copy hcopy hof (by simp) hup
  · have hplain := h.plain
    rw [hof.isMergeCopyId] at hplain
    cases hplain

/-! ## The finalizer -/

/-- What deciding a manual stop leaves. -/
structure Finalized (c : Context) (db db' : Database) (event : SuppressionEvent) : Prop where
  logged : event ∈ db.events
  source : event.source = .salespersonManual
  due : correctionDeadline event ≤ c.now
  unclaimed : db.finalizations.find? event.eventId = none
  events : db'.events = db.events
  firms : db'.firms = db.firms
  finalizeJobs : db'.finalizeJobs = db.finalizeJobs
  finalizations : db'.finalizations
    = db.finalizations.upsert ⟨event.eventId, .finalized, c.now, none, none⟩

theorem finalizeManualSuppression_spec {eventId : JsString} {result : FinalizeResult}
    (h : finalizeManualSuppression c eventId db = .ok (result, db')) :
    db' = db ∨ ∃ event, event.eventId = eventId ∧ Finalized c db db' event := by
  unfold finalizeManualSuppression at h
  split at h
  · cases h
    exact .inl rfl
  next event hfind =>
  obtain ⟨hevent, rfl⟩ := Table.find?_eq_some.1 hfind
  split at h
  · cases h
    exact .inl rfl
  next hmanual =>
  split at h
  · cases h
    exact .inl rfl
  next hdue =>
  cases hclaim : db.finalizations.find? event.eventId with
  | some existing =>
    simp only [Database.claimFinalization, hclaim, bind, Except.bind, pure, Except.pure,
      Bool.not_false, if_true] at h
    cases h
    exact .inl rfl
  | none =>
    simp only [Database.claimFinalization, hclaim, hfind, Option.isSome_some, if_true, bind,
      Except.bind, pure, Except.pure, Bool.not_true, Bool.false_eq_true, if_false] at h
    cases h
    exact .inr ⟨event, rfl, hevent, not_not.1 hmanual, not_lt.1 hdue, hclaim, rfl, rfl, rfl, rfl⟩

end FoundingSales.Suppression
