import FoundingSales.Suppression.Journal
import FoundingSales.Rules.Holds
import FoundingSales.Crm.Firms

/-!
The insert-only suppression protocol over the tables of one workspace: recording a stop,
taking a mistaken entry back, the admin's supersession, the finalizer, and the carrying of
a lift onto the copies merges made. A command is one transaction; a raised SQL error rolls
it back.
-/

namespace FoundingSales.Suppression

open Tables Rules Crm

inductive FinalizationOutcome
  | finalized | corrected
  deriving DecidableEq

/-- A row of `suppression_finalizations`. -/
structure Finalization where
  eventId : JsString
  outcome : FinalizationOutcome
  decidedAt : Instant
  decidedByUserId : Option Uuid
  correctionEventId : Option JsString
  deriving DecidableEq

/-- A `manual_suppression_review` hold on a firm. -/
structure ReviewHold where
  id : Uuid
  firmKey : JsString
  blockedActionKinds : List BlockedActionKind
  sourceEventId : JsString
  ownerUserId : Option Uuid
  startedAt : Instant
  releasedAt : Option Instant
  deriving DecidableEq

/-- A `suppression.finalize` job: the event of its key and payload, and when it may run. -/
structure FinalizeJob where
  eventId : JsString
  runAt : Instant
  deriving DecidableEq

structure Database where
  events : Table SuppressionEvent.eventId
  finalizations : Table Finalization.eventId
  firms : Firms
  holds : List ReviewHold
  finalizeJobs : Table FinalizeJob.eventId

def Database.withFirms (firms : Firms) : Database := ⟨.empty, .empty, firms, [], .empty⟩

/-- What a command reads beside its tables: who asks, when, and the id of a hold it opens. -/
structure Context where
  platform : Platform
  workspaceId : Uuid
  actor : Actor
  now : Instant
  newId : Uuid

inductive SqlError
  /-- SQLSTATE 23505 -/
  | uniqueViolation
  /-- a CHECK, a foreign key or the supersession trigger -/
  | integrityViolation
  deriving DecidableEq

inductive SuppressionResult (α : Type)
  | accepted (value : α)
  | refused (reason : SuppressionRefusalCode)

/-! ## Statements -/

/-- The CHECK constraints that read the source, the supersession and the channel. -/
def suppressionChecks (row : SuppressionEvent) : Bool :=
  row.source.supersession == row.supersedesEventId.isSome &&
  row.supersedesEventId.isNone == row.supersessionReason.isNone &&
  channelFitsKey row.scope row.canonicalKey row.channel

/-- Whether some event already supersedes `eventId`. -/
def Database.superseded (db : Database) (eventId : JsString) : Bool :=
  db.events.rows.any fun row => row.supersedesEventId = some eventId

/-- The trigger `assert_supersession_same_key`. -/
def Database.assertSupersessionSameKey (db : Database) (row : SuppressionEvent) : Bool :=
  match row.supersedesEventId.bind db.events.find? with
  | some original => original.scope = row.scope && original.canonicalKey = row.canonicalKey &&
      original.channel = row.channel
  | none => true

/-- `INSERT INTO suppression_events` -/
def Database.insertEvent (db : Database) (row : SuppressionEvent) : Except SqlError Database :=
  if !db.assertSupersessionSameKey row || !suppressionChecks row then .error .integrityViolation
  else if row.supersedesEventId.any db.superseded then .error .uniqueViolation
  else match db.events.insert? row with
    | none => .error .uniqueViolation
    | some events =>
      if row.supersedesEventId.all fun original => (events.find? original).isSome then
        .ok { db with events := events }
      else .error .integrityViolation

structure FinalizationClaim where
  won : Bool
  /-- Who holds the decision now. -/
  outcome : FinalizationOutcome
  deriving DecidableEq

/-- Claim the decision for one suppression event: the first claim is the lock. -/
def Database.claimFinalization (db : Database) (claim : Finalization) :
    Except SqlError (FinalizationClaim × Database) :=
  match db.finalizations.find? claim.eventId with
  | some existing => .ok (⟨false, existing.outcome⟩, db)
  | none =>
    if (db.events.find? claim.eventId).isSome then
      .ok (⟨true, claim.outcome⟩, { db with finalizations := db.finalizations.upsert claim })
    else .error .integrityViolation

/-- Open a `manual_suppression_review` hold on a firm. -/
def Database.openHold (db : Database) (hold : ReviewHold) : Database :=
  { db with holds := db.holds ++ [hold] }

def ReviewHold.openFor (eventId : JsString) (hold : ReviewHold) : Bool :=
  hold.sourceEventId = eventId && hold.releasedAt.isNone

/-- Release the review holds one source event opened, and only those. -/
def Database.releaseHoldsOfEvent (db : Database) (eventId : JsString) (now : Instant) :
    List ReviewHold × Database :=
  let release (hold : ReviewHold) : ReviewHold :=
    if hold.openFor eventId then { hold with releasedAt := some now } else hold
  ((db.holds.filter (·.openFor eventId)).map release, { db with holds := db.holds.map release })

/-- Enqueue a finalizer, once for each event. -/
def Database.enqueueFinalizer (db : Database) (job : FinalizeJob) : Database :=
  { db with finalizeJobs := (db.finalizeJobs.insert? job).getD db.finalizeJobs }

/-- The action kinds a manual suppression's review hold blocks, by the stop's channel. -/
def reviewHoldBlocks : SuppressionChannel → List BlockedActionKind
  | .email => [.emailSend]
  | .phone => [.callTask, .dialAuthorization]
  | .all => [.emailSend, .callTask, .dialAuthorization, .enrollmentAdvance]

/-! ## What is in force -/

/-- Neither a supersession nor superseded. -/
def Database.effective (db : Database) (row : SuppressionEvent) : Bool :=
  row.supersedesEventId.isNone && !db.superseded row.eventId

/-- The view `effective_suppressions`: the earliest effective event of each key and
channel. -/
def Database.effectiveSuppressions (db : Database) : List SuppressionEvent :=
  db.events.rows.filter fun row => db.effective row && db.events.rows.all fun other =>
    !(db.effective other && other.scope = row.scope && other.canonicalKey = row.canonicalKey &&
      other.channel = row.channel) || recordedBefore row other

/-- Whether the view shows the key for the channel. -/
def Database.effectiveOn (db : Database) (scope : SuppressionScope) (key : JsString)
    (channel : SuppressionChannel) : Bool :=
  db.effectiveSuppressions.any fun row =>
    row.scope = scope && row.canonicalKey = key && row.channel = channel

/-! ## Recording a stop -/

structure RecordSuppressionInput where
  scope : SuppressionScope
  firmId : Option FirmId
  value : Option JsString
  source : SuppressionSource
  notSupersession : source.supersession = false
  channel : SuppressionChannel
  commandId : Option JsString
  fallbackKey : Option JsString

structure RecordedSuppression where
  eventId : JsString
  scope : SuppressionScope
  channel : SuppressionChannel
  canonicalKey : JsString
  canonicalizerVersion : JsString
  recordedAt : Instant
  terminal : Bool
  reviewHoldIds : List Uuid
  correctionDeadline : Option Instant
  replayed : Bool
  deriving DecidableEq

/-- Why the firm a stop names may not be stopped by this actor. -/
def firmRefusal (c : Context) (db : Database) (firmId : FirmId) : Option SuppressionRefusalCode :=
  match db.firms.find? firmId with
  | none => some .firmUnknown
  | some firm =>
    match decideFirmMutation c.actor firm with
    | none => none
    | some .notAssigned => some .notAssigned
    | some _ => some .firmUnknown

/-- The canonical key of a stop, or why it has none. -/
def suppressionKey (c : Context) (input : RecordSuppressionInput) (db : Database) :
    Except SuppressionRefusalCode JsString :=
  match input.scope, input.fallbackKey with
  | .firm, _ =>
    match input.firmId with
    | none => .error .invalidInput
    | some firmId =>
      match firmRefusal c db firmId with
      | some refusal => .error refusal
      | none => .ok firmId.text
  | .handle, some key =>
    if input.source ≠ .deletionTombstone then .error .invalidInput
    else if (trim key).length = 0 || key ≠ c.platform.toLowerCase key || 320 < key.length then
      .error .handleUncanonical
    else .ok key
  | .handle, none =>
    match input.value with
    | none => .error .invalidInput
    | some value =>
      match canonicalizeHandle c.platform value with
      | .error _ => .error .handleUncanonical
      | .ok handle =>
        match input.firmId.bind (firmRefusal c db) with
        | some refusal => .error refusal
        | none => .ok handle.value

/-- A stop this command already recorded on this key, under a channel that covers it. -/
def Database.sameCommandEvent (db : Database) (input : RecordSuppressionInput) (key : JsString) :
    Option SuppressionEvent :=
  input.commandId.bind fun commandId =>
    ((db.events.rows.filter fun row => row.scope = input.scope && row.canonicalKey = key &&
        row.source = input.source && row.commandId = some commandId &&
        row.supersedesEventId.isNone && (row.channel = input.channel || row.channel = .all)
      ).insertionSort fun left right => recordedBefore left right).head?

/-- What a transaction journalled before it ended, and what it came to. -/
structure Outcome (α : Type) where
  journalled : List SuppressionJournalRecord
  result : Except SqlError (α × Database)

/-- The stop as it is written. -/
def stopRow (c : Context) (input : RecordSuppressionInput) (key : JsString) : SuppressionEvent where
  eventId := deterministicEventId c.platform
    ⟨c.workspaceId, input.scope, key, input.source, input.commandId, none, input.channel⟩
  scope := input.scope
  canonicalKey := key
  canonicalizerVersion := canonicalizerVersion
  source := input.source
  actorUserId := c.actor.userId
  commandId := input.commandId
  recordedAt := c.now
  supersedesEventId := none
  supersessionReason := none
  channel := input.channel

def recordedSuppression (event : SuppressionEvent) (reviewHoldIds : List Uuid)
    (correctionDeadline : Option Instant) (replayed : Bool) : RecordedSuppression where
  eventId := event.eventId
  scope := event.scope
  channel := event.channel
  canonicalKey := event.canonicalKey
  canonicalizerVersion := event.canonicalizerVersion
  recordedAt := event.recordedAt
  terminal := event.source.terminal
  reviewHoldIds := reviewHoldIds
  correctionDeadline := correctionDeadline
  replayed := replayed

def correctionDeadline (event : SuppressionEvent) : Instant :=
  event.recordedAt + manualSuppressionCorrectionMilliseconds

/-- The hold a manual stop on a firm opens. -/
def reviewHold (c : Context) (event : SuppressionEvent) (firmKey : JsString) : ReviewHold where
  id := c.newId
  firmKey := firmKey
  blockedActionKinds := reviewHoldBlocks event.channel
  sourceEventId := event.eventId
  ownerUserId := event.actorUserId
  startedAt := c.now
  releasedAt := none

/-- The stop as it is journalled, with the firm its review hold goes on. -/
def stopRecord (c : Context) (firmId : Option FirmId) (row : SuppressionEvent) :
    SuppressionJournalRecord where
  toSuppressionEvent := row
  workspaceId := c.workspaceId
  firmId := some (firmId.map FirmId.text)
  committed := false

/-- The row, and what follows from it: the terminal claim, or the hold and the finalizer. -/
def writeStop (c : Context) (firmId : Option FirmId) (row : SuppressionEvent) (db : Database) :
    Except SqlError (RecordedSuppression × Database) := do
  let db ← db.insertEvent row
  if row.source.terminal then
    let (_, db) ← db.claimFinalization ⟨row.eventId, .finalized, c.now, none, none⟩
    return (recordedSuppression row [] none false, db)
  else
    let held := match firmId with
      | some firmId => db.openHold (reviewHold c row firmId.text)
      | none => db
    let deadline := correctionDeadline row
    return (recordedSuppression row (firmId.toList.map fun _ => c.newId) (some deadline) false,
      held.enqueueFinalizer ⟨row.eventId, deadline⟩)

def recordSuppression (c : Context) (input : RecordSuppressionInput) (db : Database) :
    Outcome (SuppressionResult RecordedSuppression) :=
  if input.source = .salespersonManual && c.actor.userId.isNone then
    ⟨[], .ok (.refused .invalidInput, db)⟩
  else match suppressionKey c input db with
    | .error refusal => ⟨[], .ok (.refused refusal, db)⟩
    | .ok key =>
      if !channelFitsKey input.scope key input.channel then
        ⟨[], .ok (.refused .invalidInput, db)⟩
      else
        let row := stopRow c input key
        match db.events.find? row.eventId <|> db.sameCommandEvent input key with
        | some existing => ⟨[], .ok (.accepted (recordedSuppression existing [] none true), db)⟩
        | none =>
          -- journalled before the row, inside the transaction about to write it
          ⟨[stopRecord c input.firmId row], (writeStop c input.firmId row db).map
            fun (recorded, db) => (.accepted recorded, db)⟩

/-! ## Lifts -/

/-- An event as the journal holds it. -/
def journalRecordOf (c : Context) (event : SuppressionEvent) : SuppressionJournalRecord where
  toSuppressionEvent := event
  workspaceId := c.workspaceId
  firmId := none
  committed := false

/-- The merge copies of an event that nothing lifts yet. -/
def Database.mergeCopies (db : Database) (originalEventId : JsString) : List SuppressionEvent :=
  db.events.rows.filter fun copy => copy.scope = .firm &&
    (copy.eventId = legacyMergeCopyId originalEventId ||
      copy.eventId = mergeCopyId originalEventId copy.canonicalKey) &&
    !db.superseded copy.eventId

/-- A lift in the form of the copy it is carried onto. -/
def copiedLiftId (originalEventId supersessionEventId : JsString) (copy : SuppressionEvent) :
    JsString :=
  if copy.eventId = legacyMergeCopyId originalEventId then legacyMergeCopyId supersessionEventId
  else mergeCopyId supersessionEventId copy.canonicalKey

/-- The row that lifts a copy as `lift` lifted its original. -/
def copiedLift (originalEventId : JsString) (lift copy : SuppressionEvent) : SuppressionEvent where
  eventId := copiedLiftId originalEventId lift.eventId copy
  scope := copy.scope
  canonicalKey := copy.canonicalKey
  canonicalizerVersion := copy.canonicalizerVersion
  source := lift.source
  actorUserId := lift.actorUserId
  commandId := lift.commandId
  recordedAt := lift.recordedAt
  supersedesEventId := some copy.eventId
  supersessionReason := lift.supersessionReason
  channel := copy.channel

/-- Carry a supersession onto every merge copy of the event it lifted, copies of copies
included. A copy's id is longer than its original's, so `fuel` past the longest id is
enough. -/
def liftMergeCopies (c : Context) : Nat → JsString → JsString → Database →
    Except SqlError (List SuppressionJournalRecord × Database)
  | 0, _, _, db => .ok ([], db)
  | fuel + 1, originalEventId, supersessionEventId, db =>
    (db.mergeCopies originalEventId).foldlM (fun (records, db) copy => do
      let (inserted, db) ← match db.events.find? supersessionEventId with
        | some lift => do
          let row := copiedLift originalEventId lift copy
          let db ← db.insertEvent row
          pure ([journalRecordOf c row], db)
        | none => pure ([], db)
      let (deeper, db) ← liftMergeCopies c fuel copy.eventId
        (copiedLiftId originalEventId supersessionEventId copy) db
      return (records ++ inserted ++ deeper, db)) ([], db)

def Database.liftFuel (db : Database) : Nat :=
  (db.events.rows.map fun row => row.eventId.length).foldr max 0 + 1

/-- Run `work` under a savepoint: a unique violation takes it back and is the lost race. -/
def underSupersessionSavepoint (db : Database)
    (work : Except SqlError (Option SuppressionRefusalCode × Database)) :
    Except SqlError (Option SuppressionRefusalCode × Database) :=
  match work with
  | .ok (lost, written) => .ok (lost, written)
  | .error .uniqueViolation => .ok (some .alreadySuperseded, db)
  | .error .integrityViolation => .error .integrityViolation

/-- A supersession of `original` as it is written. -/
def supersessionRow (c : Context) (original : SuppressionEvent) (source : SuppressionSource)
    (reason : SupersessionReason) (commandId : Option JsString) : SuppressionEvent where
  eventId := deterministicEventId c.platform ⟨c.workspaceId, original.scope,
    original.canonicalKey, source, commandId, some original.eventId, original.channel⟩
  scope := original.scope
  canonicalKey := original.canonicalKey
  canonicalizerVersion := original.canonicalizerVersion
  source := source
  actorUserId := c.actor.userId
  commandId := commandId
  recordedAt := c.now
  supersedesEventId := some original.eventId
  supersessionReason := some reason
  channel := original.channel

structure CorrectionOutcome where
  journalRecords : List SuppressionJournalRecord
  correctionEventId : JsString
  originalEventId : JsString
  releasedHoldIds : List Uuid
  blockedMilliseconds : Int
  deriving DecidableEq

/-- The claim, before the row. -/
def claimAndCorrect (c : Context) (row : SuppressionEvent) (originalEventId : JsString)
    (db : Database) : Except SqlError (Option SuppressionRefusalCode × Database) := do
  let (claim, db) ← db.claimFinalization
    ⟨originalEventId, .corrected, c.now, c.actor.userId, some row.eventId⟩
  if !claim.won then
    return (some (if claim.outcome = .finalized then .alreadyFinalized else .alreadySuperseded), db)
  else
    let db ← db.insertEvent row
    return (none, db)

def ReviewHold.interval (hold : ReviewHold) : Interval :=
  ⟨hold.startedAt, hold.releasedAt.getD hold.startedAt⟩

/-- The ten-minute `mistaken_entry` correction. -/
def recordCorrection (c : Context) (eventId : JsString) (commandId : Option JsString)
    (db : Database) : Except SqlError (SuppressionResult CorrectionOutcome × Database) :=
  match c.actor.userId, db.events.find? eventId with
  | none, _ => .ok (.refused .notYourEvent, db)
  | some _, none => .ok (.refused .suppressionUnknown, db)
  | some userId, some original =>
    if !isSupportedCanonicalizerVersion original.canonicalizerVersion then
      .ok (.refused .canonicalizerUnsupported, db)
    else match mayCorrectSuppression original userId c.now with
      | some refusal => .ok (.refused refusal, db)
      | none =>
        let row := supersessionRow c original .mistakenEntryCorrection .mistakenEntry commandId
        if db.superseded original.eventId then .ok (.refused .alreadySuperseded, db)
        else do
          let (lost, db) ← underSupersessionSavepoint db (claimAndCorrect c row original.eventId db)
          match lost with
          | some refusal => return (.refused refusal, db)
          | none =>
            let (copiedLifts, db) ←
              liftMergeCopies c db.liftFuel original.eventId row.eventId db
            let (released, db) := db.releaseHoldsOfEvent original.eventId c.now
            return (.accepted {
              journalRecords := journalRecordOf c row :: copiedLifts
              correctionEventId := row.eventId
              originalEventId := original.eventId
              releasedHoldIds := released.map ReviewHold.id
              blockedMilliseconds := unionDuration (released.map ReviewHold.interval) }, db)

inductive AdminSupersessionReason
  | correction | documentedReconsent
  deriving DecidableEq

def AdminSupersessionReason.reason : AdminSupersessionReason → SupersessionReason
  | correction => .correction
  | documentedReconsent => .documentedReconsent

structure AdminSupersession where
  supersessionEventId : JsString
  originalEventId : JsString
  journalRecords : List SuppressionJournalRecord
  deriving DecidableEq

/-- The admin supersession. There is deliberately no claim here. -/
def recordAdminSupersession (c : Context) (eventId : JsString) (reason : AdminSupersessionReason)
    (commandId : Option JsString) (db : Database) :
    Except SqlError (SuppressionResult AdminSupersession × Database) :=
  if !c.actor.isAdmin then .ok (.refused .adminOnly, db)
  else match db.events.find? eventId with
    | none => .ok (.refused .suppressionUnknown, db)
    | some original =>
      if !isSupportedCanonicalizerVersion original.canonicalizerVersion then
        .ok (.refused .canonicalizerUnsupported, db)
      else
        let row := supersessionRow c original .adminSupersession reason.reason commandId
        if db.superseded original.eventId then .ok (.refused .alreadySuperseded, db)
        else do
          let (lost, db) ← underSupersessionSavepoint db
            ((db.insertEvent row).map fun db => (none, db))
          match lost with
          | some refusal => return (.refused refusal, db)
          | none =>
            let (copiedLifts, db) ←
              liftMergeCopies c db.liftFuel original.eventId row.eventId db
            let (_, db) := db.releaseHoldsOfEvent original.eventId c.now
            return (.accepted ⟨row.eventId, original.eventId, journalRecordOf c row :: copiedLifts⟩,
              db)

/-! ## The finalizer -/

inductive FinalizeResult
  | finalized | lostToCorrection | alreadyFinalized | notDue | notApplicable | unknown
  deriving DecidableEq

/-- Run the finalizer for one event. -/
def finalizeManualSuppression (c : Context) (eventId : JsString) (db : Database) :
    Except SqlError (FinalizeResult × Database) :=
  match db.events.find? eventId with
  | none => .ok (.unknown, db)
  | some event =>
    if event.source ≠ .salespersonManual then .ok (.notApplicable, db)
    else if c.now < correctionDeadline event then .ok (.notDue, db)
    else do
      let (claim, db) ← db.claimFinalization ⟨eventId, .finalized, c.now, none, none⟩
      if !claim.won then
        return (if claim.outcome = .corrected then .lostToCorrection else .alreadyFinalized, db)
      else return (.finalized, (db.releaseHoldsOfEvent eventId c.now).2)

end FoundingSales.Suppression
