import FoundingSales.Suppression.Events
import Mathlib.Data.List.Sort

/-!
Replaying the suppression journal after a restore: the parser of a journal object, the selection
of the records the workspace is missing, the placing of originals before what supersedes them, and
the rows the replay writes.

A record holds what the parser accepts, so its source, its instants and the event it supersedes are
any texts; the columns refuse what they cannot hold.
-/

namespace FoundingSales.Suppression

open Tables Rules Crm

/-! ## Journal objects -/

/-- The value of one field; `other` carries what `String(value)` prints. -/
inductive JsonValue
  | absent | null
  | text (value : JsString)
  | boolean (value : Bool)
  | other (printed : JsString)
  deriving DecidableEq

/-- What `JSON.parse` makes of a body. -/
inductive ParsedBody
  | notJson | notObject
  | object (field : JsString → JsonValue)

/-- A record as a journal object holds it. -/
structure JournalRecord where
  eventId : JsString
  workspaceId : JsString
  scope : SuppressionScope
  canonicalKey : JsString
  canonicalizerVersion : JsString
  source : JsString
  actorUserId : Option JsString
  commandId : Option JsString
  supersedesEventId : Option JsString
  supersessionReason : Option JsString
  recordedAt : JsString
  channel : SuppressionChannel
  firmId : Option (Option JsString)
  committed : Bool
  deriving DecidableEq

def suppressionJournalSchema : JsString := js "fss.suppression.v1"

inductive JournalParseRefusal
  | notJson | notObject | schemaUnknown | fieldMissing
  deriving DecidableEq

namespace JsonValue

def text? : JsonValue → Option JsString
  | text value => some value
  | absent | null | boolean _ | other _ => none

@[simp] theorem text?_text (value : JsString) : (text value).text? = some value := rfl

/-- `String(value ?? '')` -/
def printed : JsonValue → JsString
  | absent | null => []
  | text value => value
  | boolean value => if value then js "true" else js "false"
  | other value => value

end JsonValue

def requiredFields : List JsString :=
  [js "eventId", js "workspaceId", js "scope", js "canonicalKey", js "canonicalizerVersion",
   js "source", js "recordedAt"]

def scopeOf? : JsonValue → Option SuppressionScope
  | .text value =>
    if value = js "firm" then some .firm else if value = js "handle" then some .handle else none
  | _ => none

/-- A channel that is absent reads `all`. -/
def channelOf? : JsonValue → Option SuppressionChannel
  | .absent => some .all
  | .text value =>
    if value = js "phone" then some .phone
    else if value = js "email" then some .email
    else if value = js "all" then some .all
    else none
  | _ => none

/-- A string, or null when the write named no firm; an object written before the field says
nothing. -/
def firmIdOf? : JsonValue → Option (Option (Option JsString))
  | .absent => some none
  | .null => some (some none)
  | .text value => some (some (some value))
  | .boolean _ | .other _ => none

def parseFields (field : JsString → JsonValue) :
    Except (JournalParseRefusal × JsString) JournalRecord :=
  let text (name : JsString) : JsString := (field name).text?.getD []
  match requiredFields.find? fun name => (field name).text?.isNone with
  | some name => .error (.fieldMissing, name)
  | none =>
    match scopeOf? (field (js "scope")) with
    | none => .error (.fieldMissing, js "scope")
    | some scope =>
      match channelOf? (field (js "channel")) with
      | none => .error (.fieldMissing, js "channel")
      | some channel =>
        match firmIdOf? (field (js "firmId")) with
        | none => .error (.fieldMissing, js "firmId")
        | some firmId =>
          .ok { eventId := text (js "eventId"), workspaceId := text (js "workspaceId")
                scope := scope, canonicalKey := text (js "canonicalKey")
                canonicalizerVersion := text (js "canonicalizerVersion")
                source := text (js "source"), actorUserId := (field (js "actorUserId")).text?
                commandId := (field (js "commandId")).text?
                supersedesEventId := (field (js "supersedesEventId")).text?
                supersessionReason := (field (js "supersessionReason")).text?
                recordedAt := text (js "recordedAt"), channel := channel, firmId := firmId
                committed := field (js "committed") = .boolean true }

def parseSuppressionJournalRecord :
    ParsedBody → Except (JournalParseRefusal × JsString) JournalRecord
  | .notJson => .error (.notJson, js "the journal object does not hold JSON")
  | .notObject => .error (.notObject, js "the journal object does not hold a JSON object")
  | .object field =>
    if field (js "schema") = .text suppressionJournalSchema then parseFields field
    else .error (.schemaUnknown, (field (js "schema")).printed)

/-- `journalObjectBody`: the fields a writer writes, those it leaves out as `absent`. -/
def journalObjectBody (record : JournalRecord) : List (JsString × JsonValue) :=
  let nullable (value : Option JsString) : JsonValue := value.elim .null .text
  [(js "schema", .text suppressionJournalSchema), (js "eventId", .text record.eventId),
   (js "workspaceId", .text record.workspaceId), (js "scope", .text record.scope.text),
   (js "canonicalKey", .text record.canonicalKey),
   (js "canonicalizerVersion", .text record.canonicalizerVersion),
   (js "source", .text record.source), (js "actorUserId", nullable record.actorUserId),
   (js "commandId", nullable record.commandId),
   (js "supersedesEventId", nullable record.supersedesEventId),
   (js "supersessionReason", nullable record.supersessionReason),
   (js "recordedAt", .text record.recordedAt), (js "channel", .text record.channel.text),
   (js "firmId", record.firmId.elim .absent nullable),
   (js "committed", if record.committed then .boolean true else .absent)]

/-- The object a body's fields make. -/
def fieldsOf (body : List (JsString × JsonValue)) (name : JsString) : JsonValue :=
  ((body.find? fun entry => entry.1 = name).map Prod.snd).getD .absent

theorem fieldsOf_of_mem {body : List (JsString × JsonValue)} {name : JsString} {value : JsonValue}
    (hkeys : (body.map Prod.fst).Nodup) (h : (name, value) ∈ body) :
    fieldsOf body name = value := by
  cases hfind : body.find? fun entry => entry.1 = name with
  | none =>
    have hne := List.find?_eq_none.1 hfind _ h
    simp only [decide_true, not_true_eq_false] at hne
  | some entry =>
    have hkey : entry.1 = name := by simpa using List.find?_some hfind
    have heq := List.inj_on_of_nodup_map hkeys (List.mem_of_find?_eq_some hfind) h hkey
    rw [fieldsOf, hfind, heq]
    rfl

def journalFields : List JsString :=
  [js "schema", js "eventId", js "workspaceId", js "scope", js "canonicalKey",
   js "canonicalizerVersion", js "source", js "actorUserId", js "commandId",
   js "supersedesEventId", js "supersessionReason", js "recordedAt", js "channel",
   js "firmId", js "committed"]

theorem journalFields_nodup : journalFields.Nodup := by decide +kernel

theorem fieldsOf_journalObjectBody {record : JournalRecord} {name : JsString} {value : JsonValue}
    (h : (name, value) ∈ journalObjectBody record) :
    fieldsOf (journalObjectBody record) name = value :=
  fieldsOf_of_mem journalFields_nodup h

/-- Every record is accepted: it is what the parser makes of the body it is written as. -/
theorem parse_journalObjectBody (record : JournalRecord) :
    parseSuppressionJournalRecord (.object (fieldsOf (journalObjectBody record))) = .ok record := by
  have hfield : ∀ entry ∈ journalObjectBody record,
      fieldsOf (journalObjectBody record) entry.1 = entry.2 :=
    fun _ h => fieldsOf_journalObjectBody h
  generalize fieldsOf (journalObjectBody record) = field at hfield ⊢
  simp only [journalObjectBody, List.forall_mem_cons] at hfield
  obtain ⟨hschema, heventId, hworkspaceId, hscope, hcanonicalKey, hversion, hsource, hactor,
    hcommand, hsupersedes, hreason, hrecordedAt, hchannel, hfirmId, hcommitted, -⟩ := hfield
  have hrequired : (requiredFields.find? fun name => (field name).text?.isNone) = none := by
    apply List.find?_eq_none.2
    simp only [requiredFields, List.forall_mem_cons, heventId, hworkspaceId, hscope, hcanonicalKey,
      hversion, hsource, hrecordedAt, JsonValue.text?_text, Option.isNone_some, Bool.false_eq_true,
      not_false_eq_true, true_and]
    exact List.forall_mem_nil _
  have hnullable : ∀ value : Option JsString,
      JsonValue.text? (value.elim .null .text) = value := by
    intro value
    cases value <;> rfl
  have hscope? : scopeOf? (field (js "scope")) = some record.scope := by
    rw [hscope]
    cases record.scope <;> decide
  have hchannel? : channelOf? (field (js "channel")) = some record.channel := by
    rw [hchannel]
    cases record.channel <;> decide
  have hfirmId? : firmIdOf? (field (js "firmId")) = some record.firmId := by
    rw [hfirmId]
    rcases record.firmId with _ | _ | firmId <;> rfl
  have hcommitted? : decide (field (js "committed") = .boolean true) = record.committed := by
    rw [hcommitted]
    cases record.committed <;> rfl
  simp only [parseSuppressionJournalRecord, hschema, ↓reduceIte, parseFields, hrequired, hscope?,
    hchannel?, hfirmId?, hcommitted?, heventId, hworkspaceId, hcanonicalKey, hversion, hsource,
    hrecordedAt, hactor, hcommand, hsupersedes, hreason, hnullable, JsonValue.text?_text,
    Option.getD_some]

/-! ## The replay's reading of a record -/

namespace JournalRecord

/-- A merge's copy, in either form. -/
def isMergeCopy (record : JournalRecord) : Bool := isMergeCopyId record.eventId

/-- `TERMINAL_SOURCES.has(record.source)` -/
def terminal (record : JournalRecord) : Bool :=
  record.source ∈ [SuppressionSource.prospectOptOut, .prospectDoNotCall, .imported,
    .deletionTombstone].map SuppressionSource.text

/-- `SUPERSESSION_SOURCES.has(record.source)` -/
def supersession (record : JournalRecord) : Bool :=
  record.source ∈ [SuppressionSource.mistakenEntryCorrection, .adminSupersession].map
    SuppressionSource.text

/-- The event a correction that is no merge copy takes back. -/
def takesBack (record : JournalRecord) : Option JsString :=
  if record.source = SuppressionSource.mistakenEntryCorrection.text && !record.isMergeCopy then
    record.supersedesEventId
  else none

end JournalRecord

/-- How the runtime and the database read the text of an instant; `none` where they cannot. -/
structure InstantTexts where
  /-- `Date.parse(text)` -/
  dateParse : JsString → Option Instant
  /-- `text::timestamptz` -/
  timestamptz : JsString → Option Instant

/-- `left.eventId < right.eventId ? -1 : left.eventId > right.eventId ? 1 : 0` -/
def compareTexts (left right : JsString) : Int :=
  if left = right then 0 else if textLe left right then -1 else 1

/-- Earliest first, by the journalled instant and then the id; `none` for `NaN`. -/
def byRecordedTime (texts : InstantTexts) (left right : JournalRecord) : Option Int :=
  match texts.dateParse left.recordedAt, texts.dateParse right.recordedAt with
  | some leftAt, some rightAt =>
    let difference : Int := leftAt - rightAt
    some (if difference ≠ 0 then difference else compareTexts left.eventId right.eventId)
  | _, _ => none

/-- Whether `left` may stand before `right`. -/
def notAfter (texts : InstantTexts) (left right : JournalRecord) : Prop :=
  ∃ sign, byRecordedTime texts left right = some sign ∧ sign ≤ 0

/-- `records.sort(byRecordedTime)`: a permutation, in order where every instant parses. Where one
does not the comparator is inconsistent, and the order is the runtime's. -/
structure RecordSort (texts : InstantTexts) where
  sort : List JournalRecord → List JournalRecord
  perm : ∀ records, (sort records).Perm records
  sorted : ∀ records, (∀ record ∈ records, (texts.dateParse record.recordedAt).isSome = true) →
    (sort records).Pairwise (notAfter texts)

/-- What a replay reads beside its records and the tables. -/
structure ReplayContext where
  workspaceId : Uuid
  now : Instant
  texts : InstantTexts
  order : RecordSort texts
  /-- The id of the hold a replayed event opens. -/
  holdId : JsString → Uuid

/-! ## Selecting -/

/-- `missing.get(eventId)` -/
def getRecord (missing : List JournalRecord) (eventId : JsString) : Option JournalRecord :=
  missing.find? fun record => record.eventId = eventId

/-- `missing.delete(eventId)` -/
def deleteRecord (missing : List JournalRecord) (eventId : JsString) : List JournalRecord :=
  missing.filter fun record => record.eventId ≠ eventId

structure Reading where
  missing : List JournalRecord
  alreadyPresent : Nat
  foreign : Nat

/-- The records this workspace is missing, once each. -/
def readRecord (c : ReplayContext) (db : Database) (s : Reading) (record : JournalRecord) :
    Reading :=
  if record.workspaceId ≠ c.workspaceId then { s with foreign := s.foreign + 1 }
  else if (getRecord s.missing record.eventId).isSome then s
  else if (db.events.find? record.eventId).isSome then
    { s with alreadyPresent := s.alreadyPresent + 1 }
  else { s with missing := s.missing ++ [record] }

structure Validity where
  missing : List JournalRecord
  unverifiedLegacyReleases : List JsString
  staleCorrections : List JsString

/-- Whether the correction of `original` lost its claim. -/
def claimLost (db : Database) (missing : List JournalRecord) (original : JsString) : Bool :=
  match db.finalizations.find? original with
  | some decided => decided.outcome = .finalized
  | none => (getRecord missing original).any JournalRecord.terminal

/-- A release applies only with its marker, and a correction only where its claim is not lost. -/
def checkRelease (db : Database) (s : Validity) (record : JournalRecord) : Validity :=
  if record.supersedesEventId.isNone then s
  else if !record.committed then
    { s with missing := deleteRecord s.missing record.eventId
             unverifiedLegacyReleases := s.unverifiedLegacyReleases ++ [record.eventId] }
  else if record.takesBack.any (claimLost db s.missing) then
    { s with missing := deleteRecord s.missing record.eventId
             staleCorrections := s.staleCorrections ++ [record.eventId] }
  else s

structure Competition where
  missing : List JournalRecord
  competingSupersessions : List JsString

/-- The keys of the Map `bySuperseded`. -/
def supersededIds (missing : List JournalRecord) : List JsString :=
  (missing.filterMap JournalRecord.supersedesEventId).eraseDups

def rivalsOf (missing : List JournalRecord) (supersededId : JsString) : List JournalRecord :=
  missing.filter fun record => record.supersedesEventId = some supersededId

/-- One supersession lifts an event: one in the database, or the earliest. -/
def losersOf (c : ReplayContext) (db : Database) (missing : List JournalRecord)
    (supersededId : JsString) : List JournalRecord :=
  let ordered := c.order.sort (rivalsOf missing supersededId)
  if db.superseded supersededId then ordered else ordered.drop 1

def dropLoser (s : Competition) (loser : JournalRecord) : Competition where
  missing := deleteRecord s.missing loser.eventId
  competingSupersessions := s.competingSupersessions ++ [loser.eventId]

/-- The records that stay after the three filters, and what the filters report. -/
structure Selection where
  missing : List JournalRecord
  alreadyPresent : Nat
  foreign : Nat
  unverifiedLegacyReleases : List JsString
  staleCorrections : List JsString
  competingSupersessions : List JsString

def selectRecords (c : ReplayContext) (db : Database) (records : List JournalRecord) :
    Selection :=
  let read := records.foldl (readRecord c db) ⟨[], 0, 0⟩
  let valid := read.missing.foldl (checkRelease db) ⟨read.missing, [], []⟩
  let losers := (supersededIds valid.missing).flatMap (losersOf c db valid.missing)
  let chosen := losers.foldl dropLoser ⟨valid.missing, []⟩
  { missing := chosen.missing, alreadyPresent := read.alreadyPresent, foreign := read.foreign
    unverifiedLegacyReleases := valid.unverifiedLegacyReleases
    staleCorrections := valid.staleCorrections
    competingSupersessions := chosen.competingSupersessions }

/-! ## Placing -/

structure Placing where
  placed : List JsString
  ordered : List JournalRecord
  orphanSupersessions : List JsString

def Placing.put (s : Placing) (record : JournalRecord) : Placing :=
  { s with placed := s.placed ++ [record.eventId], ordered := s.ordered ++ [record] }

def Placing.orphan (s : Placing) (record : JournalRecord) : Placing :=
  { s with orphanSupersessions := s.orphanSupersessions ++ [record.eventId] }

/-- Place a record behind the one it supersedes; `none` when the calls nest deeper than `depth`. -/
def place (db : Database) (missing : List JournalRecord) :
    Nat → JournalRecord → Placing → Option (Bool × Placing)
  | 0, _, _ => none
  | depth + 1, record, s =>
    if record.eventId ∈ s.placed then some (true, s)
    else match record.supersedesEventId with
      | none => some (true, s.put record)
      | some supersedes =>
        match getRecord missing supersedes with
        | some original =>
          match place db missing depth original s with
          | none => none
          | some (true, s) => some (true, s.put record)
          | some (false, s) => some (false, s.orphan record)
        | none =>
          if (db.events.find? supersedes).isSome then some (true, s.put record)
          else some (false, s.orphan record)

/-- The loop over the sorted records. -/
def placeRecords (db : Database) (missing : List JournalRecord) (depth : Nat) :
    List JournalRecord → Placing → Option Placing
  | [], s => some s
  | record :: rest, s =>
    if record.eventId ∈ s.placed ∨ record.eventId ∈ s.orphanSupersessions then
      placeRecords db missing depth rest s
    else match place db missing depth record s with
      | none => none
      | some (_, s) => placeRecords db missing depth rest s

/-! ## Writing -/

inductive ReplayError
  | sql (error : SqlError)
  /-- a text no column of the type holds -/
  | invalidText
  /-- `new Date(NaN).toISOString()` -/
  | range
  deriving DecidableEq

def sourceOf? (text : JsString) : Option SuppressionSource :=
  [SuppressionSource.prospectOptOut, .prospectDoNotCall, .salespersonManual, .imported,
    .deletionTombstone, .mistakenEntryCorrection, .adminSupersession].find? fun source =>
      source.text = text

def reasonOf? (text : JsString) : Option SupersessionReason :=
  if text = js "mistaken_entry" then some .mistakenEntry
  else if text = js "correction" then some .correction
  else if text = js "documented_reconsent" then some .documentedReconsent
  else none

/-- The row of a record, or what the columns' CHECKs and types refuse. -/
def rowOf (texts : InstantTexts) (record : JournalRecord) : Except ReplayError SuppressionEvent :=
  match texts.timestamptz record.recordedAt with
  | none => .error .invalidText
  | some recordedAt =>
    match sourceOf? record.source with
    | none => .error (.sql .integrityViolation)
    | some source =>
      if record.supersessionReason.any fun reason => (reasonOf? reason).isNone then
        .error (.sql .integrityViolation)
      else
        .ok { eventId := record.eventId, scope := record.scope, canonicalKey := record.canonicalKey
              canonicalizerVersion := record.canonicalizerVersion, source := source
              actorUserId := record.actorUserId, commandId := record.commandId
              recordedAt := recordedAt, supersedesEventId := record.supersedesEventId
              supersessionReason := record.supersessionReason.bind reasonOf?
              channel := record.channel }

structure Written where
  db : Database
  inserted : Nat
  finalized : Nat
  windowsReopened : Nat
  released : Nat
  staleCorrections : List JsString
  unreconstructedHolds : List JsString

def sql {α : Type} (result : Except SqlError α) : Except ReplayError α := result.mapError .sql

/-- The firm the live write opened its review hold on. -/
def holdFirm (record : JournalRecord) : Option JsString :=
  if record.scope = .firm then some record.canonicalKey else record.firmId.getD none

def replayedHold (c : ReplayContext) (record : JournalRecord) (firmKey : JsString) : ReviewHold where
  id := c.holdId record.eventId
  firmKey := firmKey
  blockedActionKinds := reviewHoldBlocks record.channel
  sourceEventId := record.eventId
  ownerUserId := record.actorUserId
  startedAt := c.now
  releasedAt := none

/-- A stop whose window is open again: its hold and its finalizer. -/
def reopenWindow (c : ReplayContext) (record : JournalRecord) (deadline : Option Instant)
    (s : Written) : Except ReplayError Written :=
  let unreconstructedHolds :=
    if record.scope = .handle && record.firmId.isNone then
      s.unreconstructedHolds ++ [record.eventId]
    else s.unreconstructedHolds
  let db := (holdFirm record).elim s.db fun firmKey => s.db.openHold (replayedHold c record firmKey)
  match deadline with
  | none => .error .range
  | some deadline =>
    .ok { s with db := db.enqueueFinalizer ⟨record.eventId, deadline⟩
                 windowsReopened := s.windowsReopened + 1
                 unreconstructedHolds := unreconstructedHolds }

/-- What follows from a row that is no merge copy. -/
def followUp (c : ReplayContext) (correctedBy : List JsString) (record : JournalRecord)
    (s : Written) : Except ReplayError Written :=
  let lifts := if record.supersession then record.supersedesEventId else none
  match lifts with
  | some original =>
    .ok { s with db := (s.db.releaseHoldsOfEvent original c.now).2, released := s.released + 1 }
  | none =>
    let deadline := (c.texts.dateParse record.recordedAt).map fun recordedAt =>
      recordedAt + manualSuppressionCorrectionMilliseconds
    if record.terminal || deadline.any (· ≤ c.now) then
      if record.eventId ∈ correctedBy then .ok s
      else do
        let (_, db) ← sql (s.db.claimFinalization ⟨record.eventId, .finalized, c.now, none, none⟩)
        return { s with db := db, finalized := s.finalized + 1 }
    else reopenWindow c record deadline s

def insertRecord (c : ReplayContext) (correctedBy : List JsString) (record : JournalRecord)
    (s : Written) : Except ReplayError Written := do
  let row ← rowOf c.texts record
  let db ← sql (s.db.insertEvent row)
  let s := { s with db := db, inserted := s.inserted + 1 }
  if record.isMergeCopy then return s
  else followUp c correctedBy record s

/-- A correction is a claim before it is a row; a lost claim inserts nothing. -/
def applyRecord (c : ReplayContext) (correctedBy : List JsString) (s : Written)
    (record : JournalRecord) : Except ReplayError Written :=
  match record.takesBack with
  | none => insertRecord c correctedBy record s
  | some original => do
    let (claim, db) ← sql (s.db.claimFinalization
      ⟨original, .corrected, c.now, record.actorUserId, some record.eventId⟩)
    let s := { s with db := db }
    if !claim.won && claim.outcome ≠ .corrected then
      return { s with staleCorrections := s.staleCorrections ++ [record.eventId] }
    else insertRecord c correctedBy record s

structure JournalReplayReport where
  inserted : Nat
  alreadyPresent : Nat
  foreign : Nat
  finalized : Nat
  windowsReopened : Nat
  released : Nat
  competingSupersessions : List JsString
  orphanSupersessions : List JsString
  staleCorrections : List JsString
  unreconstructedHolds : List JsString
  unverifiedLegacyReleases : List JsString
  deriving DecidableEq

/-- The rows of the records placed, in their order. -/
def writeRecords (c : ReplayContext) (db : Database) (selection : Selection)
    (ordered : List JournalRecord) : Except ReplayError Written :=
  ordered.foldlM (applyRecord c (ordered.filterMap JournalRecord.takesBack))
    ⟨db, 0, 0, 0, 0, selection.staleCorrections, []⟩

def replayReport (selection : Selection) (placing : Placing) (written : Written) :
    JournalReplayReport where
  inserted := written.inserted
  alreadyPresent := selection.alreadyPresent
  foreign := selection.foreign
  finalized := written.finalized
  windowsReopened := written.windowsReopened
  released := written.released
  competingSupersessions := selection.competingSupersessions
  orphanSupersessions := placing.orphanSupersessions
  staleCorrections := written.staleCorrections
  unreconstructedHolds := written.unreconstructedHolds
  unverifiedLegacyReleases := selection.unverifiedLegacyReleases

/-- Placing what was selected; `none` when it does not return within `depth`. -/
def placeSelected (c : ReplayContext) (db : Database) (depth : Nat) (missing : List JournalRecord) :
    Option Placing :=
  placeRecords db missing depth (c.order.sort missing) ⟨[], [], []⟩

/-- The replay: one transaction, of which an error leaves nothing. -/
def replaySuppressionJournal (c : ReplayContext) (depth : Nat) (records : List JournalRecord)
    (db : Database) : Option (Except ReplayError (JournalReplayReport × Database)) :=
  let selection := selectRecords c db records
  (placeSelected c db depth selection.missing).map fun placing =>
    (writeRecords c db selection placing.ordered).map fun written =>
      (replayReport selection placing written, written.db)

end FoundingSales.Suppression
