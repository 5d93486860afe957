import FoundingSales.Suppression.Events

/-!
Firm merges, as far as firms and suppressions go: who may be merged, and how the source's
suppressions are re-asserted against the target.
-/

namespace FoundingSales.Crm

open Tables Suppression

structure MergeFirmsInput where
  sourceFirmId : FirmId
  targetFirmId : FirmId
  /-- Fields the person decided to take from the source. -/
  resolutions : FirmConflictField → Option JsString
  commandId : Option JsString

/-- What a merge reads of the calling and the acquisition tables. -/
structure MergeReads where
  preparedCallingFirm : FirmId → Bool
  retainedFirmOnly : FirmId → Bool

inductive CrmResult (α : Type)
  | accepted (value : α)
  | refused (reason : CrmRefusalCode)

/-- Two different values of one field conflict; a value only one record has does not. -/
def conflictsBetween (source target : FirmRow) : List FirmConflictField :=
  firmConflictFields.filter fun field =>
    match source.field field, target.field field with
    | some old, some new => old ≠ new
    | _, _ => false

/-! ## Suppressions -/

/-- The copy of an event on the target, with its lineage. -/
def copyRow (c : Context) (target : FirmId) (commandId : Option JsString)
    (original : SuppressionEvent) : SuppressionEvent where
  eventId := mergeCopyId original.eventId target.text
  scope := .firm
  canonicalKey := target.text
  canonicalizerVersion := original.canonicalizerVersion
  source := original.source
  actorUserId := original.actorUserId
  commandId := commandId
  recordedAt := c.now
  supersedesEventId := original.supersedesEventId.map (mergeCopyId · target.text)
  supersessionReason := original.supersessionReason
  channel := original.channel

structure Copying where
  /-- the tables so far, or the error that ended the transaction -/
  db : Except SqlError Database
  done : List JsString
  journalled : List SuppressionJournalRecord
  releases : List SuppressionJournalRecord

/-- Write one copy, unless the target has it: a stop is journalled before its row, a lift
after the commit. -/
def Copying.insertCopy (c : Context) (target : FirmId) (commandId : Option JsString)
    (st : Copying) (eventId : JsString) : Copying :=
  match st.db with
  | .error _ => st
  | .ok db =>
    if (db.events.find? (mergeCopyId eventId target.text)).isSome then st
    else match db.events.find? eventId with
      | none => st
      | some original =>
        let row := copyRow c target commandId original
        let record := journalRecordOf c row
        if original.supersedesEventId.isNone then
          { st with db := db.insertEvent row, journalled := st.journalled ++ [record] }
        else { st with db := db.insertEvent row, releases := st.releases ++ [record] }

/-- Copy an event after the event it supersedes. The events done are never more than those
on the source, so `fuel` past their number is enough. -/
def Copying.copy (c : Context) (target : FirmId) (commandId : Option JsString)
    (onSource : List SuppressionEvent) : Nat → Copying → JsString → Copying
  | 0, st, _ => st
  | fuel + 1, st, eventId =>
    if eventId ∈ st.done then st
    else
      let st := { st with done := eventId :: st.done }
      match (onSource.find? fun row => row.eventId = eventId).bind
          SuppressionEvent.supersedesEventId with
      | none => st.insertCopy c target commandId eventId
      | some superseded =>
        -- a lift of an event that is not this firm's stop has nothing on the target to lift
        if onSource.any fun row => row.eventId = superseded then
          (Copying.copy c target commandId onSource fuel st superseded).insertCopy c target
            commandId eventId
        else st

/-- The firm-scoped events of a firm, earliest first. -/
def eventsOnFirm (db : Database) (firm : FirmId) : List SuppressionEvent :=
  (db.events.rows.filter fun row => row.scope = .firm && row.canonicalKey = firm.text
    ).insertionSort fun left right => recordedBefore left right

/-- Re-assert the source firm's suppressions against the target. -/
def preserveFirmSuppressions (c : Context) (source target : FirmId)
    (commandId : Option JsString) (db : Database) : Copying :=
  let onSource := eventsOnFirm db source
  onSource.foldl (fun st row => st.copy c target commandId onSource (onSource.length + 1)
    row.eventId) ⟨.ok db, [], [], []⟩

/-! ## The merge -/

/-- The target with its blanks filled from the source, then what the person decided. -/
def applyFirmResolutions (source target : FirmRow)
    (resolutions : FirmConflictField → Option JsString) : FirmRow :=
  { target with
    field := fun field =>
      (resolutions field <|> if (target.field field).isNone then source.field field else none)
        <|> target.field field }

/-- The target as resolved, and the source marked as merged into it. -/
def mergedRows (firms : Firms) (source target : FirmRow) : Firms :=
  (firms.put target).put { source with mergedInto := some target.id }

structure MergeOutcome where
  sourceId : FirmId
  targetId : FirmId
  /-- The copied lifts, for the caller to journal once the merge has committed. -/
  journalAfterCommit : List SuppressionJournalRecord

/-- Why the two firms may not be merged. -/
def mergeRefusal (actor : Actor) (reads : MergeReads) (input : MergeFirmsInput)
    (source target : FirmRow) : Option CrmRefusalCode :=
  if reads.retainedFirmOnly source.id || reads.retainedFirmOnly target.id then some .invalidInput
  else if source.mergedInto.isSome then some .mergeAlreadyPerformed
  else if target.mergedInto.isSome then some .firmMerged
  else match decideFirmMutation actor source <|> decideFirmMutation actor target with
    | some refusal => some refusal
    | none =>
      if (conflictsBetween source target).any fun field => (input.resolutions field).isNone then
        some .mergeConflict
      else none

def mergeFirms (c : Context) (reads : MergeReads) (input : MergeFirmsInput) (db : Database) :
    Outcome (CrmResult MergeOutcome) :=
  if reads.preparedCallingFirm input.sourceFirmId || reads.preparedCallingFirm input.targetFirmId
  then ⟨[], .ok (.refused .invalidInput, db)⟩
  else if input.sourceFirmId = input.targetFirmId then ⟨[], .ok (.refused .mergeSameRecord, db)⟩
  else match db.firms.find? input.sourceFirmId, db.firms.find? input.targetFirmId with
    | some source, some target =>
      match mergeRefusal c.actor reads input source target with
      | some refusal => ⟨[], .ok (.refused refusal, db)⟩
      | none =>
        let preserved := preserveFirmSuppressions c source.id target.id input.commandId db
        let resolved := applyFirmResolutions source target input.resolutions
        ⟨preserved.journalled, preserved.db.map fun db =>
          (.accepted ⟨source.id, target.id, preserved.releases⟩,
            { db with firms := mergedRows db.firms source resolved })⟩
    | _, _ => ⟨[], .ok (.refused .firmUnknown, db)⟩

end FoundingSales.Crm
