import Mathlib.Data.List.Dedup
import Mathlib.Data.List.Sort
import FoundingSales.Mail.Mailboxes

/-!
`mail.sync`: read history from the cursor in whole records, process the messages, and move
the cursor and the watermark by compare-and-set.

A run's writes commit in its last statement or not at all. A row a run has locked is the row
it commits against: had it changed since, the lock would have held the change back.
-/

namespace FoundingSales.Mail

open Tables Processes Outbound

def defaultSyncMessageLimit : Nat := 50
def defaultSyncPageLimit : Nat := 20

structure MailSyncDeps where
  maxMessages : Option Nat
  maxPages : Option Nat
  deriving DecidableEq

/-! ## Whole records -/

/-- What one run takes from the history it read: whole records, oldest first. -/
structure HistoryTake where
  messageIds : List JsString
  recordsTaken : Nat
  recordsLeft : Nat
  through : HistoryId
  deriving DecidableEq

def oldestFirst (records : List HistoryRecord) : List HistoryRecord :=
  records.insertionSort fun left right => left.number ≤ right.number

/-- The ids held with the new ones of a record, first appearance kept. -/
def holdMessages (held : List JsString) (record : HistoryRecord) : List JsString :=
  record.changes.foldl (fun held change =>
    if change.kind = .messageDeleted ∨ change.messageId ∈ held then held
    else held ++ [change.messageId]) held

def takeRecords (maxMessages : Nat) : List HistoryRecord → HistoryTake → HistoryTake
  | [], taken => taken
  | record :: records, taken =>
    if 0 < taken.recordsTaken ∧ maxMessages ≤ taken.messageIds.length then taken
    else takeRecords maxMessages records
      { taken with
        messageIds := holdMessages taken.messageIds record
        recordsTaken := taken.recordsTaken + 1
        through := laterHistoryId taken.through record.id }

/-- Take whole history records, oldest first, until `maxMessages` distinct messages are
held. -/
def takeWholeRecords (startHistoryId : HistoryId) (records : List HistoryRecord)
    (maxMessages : Nat) : HistoryTake :=
  let ordered := oldestFirst records
  let taken := takeRecords maxMessages ordered ⟨[], 0, 0, startHistoryId⟩
  { taken with recordsLeft := ordered.length - taken.recordsTaken }

def HistoryRecord.finished (record : HistoryRecord) (processedMessageIds : List JsString) : Bool :=
  record.changes.all fun change =>
    change.kind = .messageDeleted || change.messageId ∈ processedMessageIds

def throughFinished (processedMessageIds : List JsString) :
    List HistoryRecord → HistoryId → HistoryId
  | [], through => through
  | record :: records, through =>
    if record.finished processedMessageIds then
      throughFinished processedMessageIds records (laterHistoryId through record.id)
    else through

/-- The cursor a run may write when the pipeline stopped at a failed read. -/
def throughProcessedRecords (startHistoryId : HistoryId) (records : List HistoryRecord)
    (processedMessageIds : List JsString) : HistoryId :=
  throughFinished processedMessageIds (oldestFirst records) startHistoryId

/-! ## The store -/

/-- What a run that commits its messages has done. -/
structure CommittedRun where
  cursorFrom : HistoryId
  cursorTo : Option HistoryId
  coverageWatermarkAt : Option Instant
  /-- The run released the coverage hold. -/
  released : Bool
  historyExhausted : Bool
  recordsLeft : Nat
  pipeline : PipelineReport
  deriving DecidableEq

/-- The account, the tables, the cursor the generation started from, and the committed runs,
newest first; no statement reads the last two. -/
structure Store where
  gmail : Gmail
  db : Database
  startedFrom : Option HistoryId
  runs : List CommittedRun

namespace Store

def messages (s : Store) : MessageTable := s.db.messages

/-- A write that moves no cursor. -/
def write (f : Env → Database → Option Database) (e : Env) (s : Store) : Option (Unit × Store) :=
  (f e s.db).map fun db => ((), { s with db := db })

/-- A write that starts the recovery of its generation, which then starts from the cursor
the write leaves; a generation that has one already has started. -/
def handOff (f : Env → Database → Option Database) (e : Env) (s : Store) :
    Option (Unit × Store) :=
  (f e s.db).map fun db =>
    let started := (db.generation.bind s.db.recoveries.find?).isSome
    ((), { s with
      db := db
      startedFrom := if started then s.startedFrom else db.cursor })

end Store

abbrev SyncProg (α : Type) := MailProg Store α

def write (f : Env → Database → Option Database) : SyncProg Unit :=
  .stmt (fun _ => Store.write f) .ret

def handOff (f : Env → Database → Option Database) : SyncProg Unit :=
  .stmt (fun _ => Store.handOff f) .ret

/-- `lockForFencedStopFact`: the row, held to the commit. -/
def lockForFencedStopFact (fence : MailboxFence) : SyncProg Mailbox :=
  .stmt (fun _ _ s => (s.db.lockMailboxAtFence fence).map fun mailbox => (mailbox, s)) .ret

/-- A write against the row as it was locked. -/
def against (locked : Mailbox) (f : Env → Database → Option Database) (e : Env) (db : Database) :
    Option Database :=
  if db.mailbox = some locked then f e db else none

/-- `gmail.getProfile` -/
def getProfile : SyncProg HistoryId := query fun s => s.gmail.historyId

def listHistory (start : HistoryId) (listed : List HistoryRecord) : SyncProg HistoryOutcome :=
  .ask fun e s => (e.history s.gmail start listed).1

/-! ## The run -/

inductive MailSyncOutcome
  | synced | mailboxUnknown | mailboxInactive | grantRevoked | baselineStarted
  | recoveryUnderway | recoveryStarted | cursorMoved | rateLimited | readStopped
  deriving DecidableEq

structure MailSyncReport where
  outcome : MailSyncOutcome
  cursorFrom : Option HistoryId
  cursorTo : Option HistoryId
  coverageWatermarkAt : Option Instant
  moreToDo : Bool
  pipeline : PipelineReport
  deriving DecidableEq

def syncReport (outcome : MailSyncOutcome) (cursorFrom : Option HistoryId) : MailSyncReport :=
  ⟨outcome, cursorFrom, none, none, false, emptyPipelineReport []⟩

/-- How the listing of the history ended. -/
inductive HistoryRead
  | read (records : List HistoryRecord) (latestHistoryId : HistoryId) (historyExhausted : Bool)
  | historyExpired
  | refused (refusal : Refusal)
  | threw
  deriving DecidableEq

/-- The distinct messages of the records read, deletions apart. -/
def messagesRead (records : List HistoryRecord) : List JsString :=
  (records.flatMap HistoryRecord.messageIds).dedup

/-- The pages of history from `start`, until the last one, the cap, or `pages` of them. -/
def readHistory (start : HistoryId) (maxMessages : Nat) :
    Nat → List HistoryRecord → HistoryId → SyncProg HistoryRead
  | 0, records, latest => return .read records latest false
  | pages + 1, records, _ => do
    match ← listHistory start records with
    | .threw => return .threw
    | .historyExpired => return .historyExpired
    | .refused refusal => return .refused refusal
    | .page page =>
      let records := records ++ page.records
      if !page.more then return .read records page.historyId true
      else if maxMessages ≤ (messagesRead records).length then
        return .read records page.historyId false
      else readHistory start maxMessages pages records page.historyId

def rateLimitedText : JsString := js "the Gmail history read was rate limited"

def FailedRead.text : FailedRead → JsString
  | .metadata => js "metadata"
  | .body => js "body"

def readFailureText (failure : PipelineReadFailure) : JsString :=
  js "the Gmail " ++ failure.read.text ++ js " read failed (" ++ failure.detail ++
    js "); the sync stopped before that message"

/-- What the run makes of the history it read. -/
structure SyncPlan where
  mailbox : Mailbox
  cursor : HistoryId
  records : List HistoryRecord
  latestHistoryId : HistoryId
  historyExhausted : Bool
  take : HistoryTake
  pipeline : PipelineReport

namespace SyncPlan

def stopped (plan : SyncPlan) : Bool := plan.pipeline.readFailure.isSome

def moreToDo (plan : SyncPlan) : Bool :=
  plan.stopped || !plan.historyExhausted || 0 < plan.take.recordsLeft

def cursorTo (plan : SyncPlan) : HistoryId :=
  if plan.stopped then
    throughProcessedRecords plan.cursor
      ((oldestFirst plan.records).take plan.take.recordsTaken)
      (plan.take.messageIds.take plan.pipeline.processedMessages)
  else if plan.moreToDo then plan.take.through
  else plan.latestHistoryId

/-- Only a run that finished the history it asked for raises the watermark. -/
def watermark (plan : SyncPlan) (now : Instant) : Option Instant :=
  if plan.moreToDo then none else some (plan.pipeline.newestInternalDate.getD now)

/-- The compare-and-set, the release of a coverage hold, and the commit of the run. -/
def finish (plan : SyncPlan) (e : Env) (s : Store) : Option (MailSyncReport × Store) := do
  let messages ← insertRows s.db.messages plan.pipeline.rows
  let (outcome, db) ← { s.db with messages := messages }.advanceCursor
    ⟨fenceOf plan.mailbox, some plan.cursor, plan.cursorTo, plan.watermark e.now,
      plan.pipeline.readFailure.map readFailureText⟩ e.now
  match outcome with
  | .cursorMoved =>
    some (⟨.cursorMoved, some plan.cursor, none, none, false, plan.pipeline⟩,
      { s with
        db := db
        runs := ⟨plan.cursor, none, none, false, plan.historyExhausted, plan.take.recordsLeft,
          plan.pipeline⟩ :: s.runs })
  | .advanced historyId watermark =>
    let db := if plan.moreToDo then db else db.releaseMailboxHold .coverageIncomplete
    some (⟨if plan.stopped then .readStopped else .synced, some plan.cursor, some historyId,
        watermark, plan.moreToDo, plan.pipeline⟩,
      { s with
        db := db
        runs := ⟨plan.cursor, some historyId, plan.watermark e.now,
          decide (.coverageIncomplete ∈ s.db.holds ∧ .coverageIncomplete ∉ db.holds),
          plan.historyExhausted, plan.take.recordsLeft, plan.pipeline⟩ :: s.runs })

end SyncPlan

/-- A mailbox that is not `ready` reads no history; without a recovery it starts one. -/
def beginBaseline (mailbox : Mailbox) : SyncProg MailSyncReport := do
  let locked ← lockForFencedStopFact (fenceOf mailbox)
  if ← query fun s => (s.db.recoveries.find? mailbox.generation).isSome then
    write (against locked fun _ db => some (db.openMailboxHold .coverageIncomplete))
    return syncReport .recoveryUnderway mailbox.historyId
  else
    let startHistoryId ← getProfile
    handOff (against locked fun e db =>
      (db.openMailboxHold .coverageIncomplete).startRecovery
        ⟨fenceOf mailbox, if mailbox.syncState = .recovering then .historyExpired else .baseline,
          none, startHistoryId, e.recoveryFloor⟩ e.now)
    return syncReport .baselineStarted mailbox.historyId

/-- The writes of an expired cursor: the next generation, in recovery. -/
def expireCursor (mailbox : Mailbox) (startHistoryId : HistoryId) (e : Env) (db : Database) :
    Option Database := do
  let (generation, db) ← db.advanceGeneration (fenceOf mailbox)
  let watermark := (mailbox.coverageWatermarkAt.or mailbox.baselineFromAt).getD e.now
  ((db.setSyncState .recovering).openMailboxHold .coverageIncomplete).startRecovery
    ⟨⟨generation, mailbox.emailAddress⟩, .historyExpired,
      some (watermark - Database.recoveryOverlapSeconds * 1000), startHistoryId, e.recoveryFloor⟩ e.now

def beginRecoveryForExpiredCursor (mailbox : Mailbox) : SyncProg MailSyncReport := do
  let startHistoryId ← getProfile
  handOff (expireCursor mailbox startHistoryId)
  return syncReport .recoveryStarted mailbox.historyId

/-- The history from the cursor, the pipeline, and the cursor. -/
def syncFrom (deps : MailSyncDeps) (mailbox : Mailbox) (cursor : HistoryId) :
    SyncProg MailSyncReport := do
  let maxMessages := deps.maxMessages.getD defaultSyncMessageLimit
  match ← readHistory cursor maxMessages (deps.maxPages.getD defaultSyncPageLimit) [] cursor with
  | .threw => return syncReport .readStopped mailbox.historyId
  | .historyExpired => beginRecoveryForExpiredCursor mailbox
  | .refused refusal =>
    if refusal.reason = .grantRevoked ∧ refusal.class = .authentication then
      write fun _ db => db.holdForRevokedGrant (fenceOf mailbox)
      return syncReport .grantRevoked mailbox.historyId
    else
      write fun _ db => db.recordSyncError rateLimitedText (fenceOf mailbox)
      return syncReport (if refusal.class = .transient then .rateLimited else .readStopped)
        mailbox.historyId
  | .read records latest exhausted =>
    let take := takeWholeRecords cursor records maxMessages
    let pipeline ← processMessageIds Store.messages take.messageIds (emptyPipelineReport [])
    .stmt (fun _ => SyncPlan.finish ⟨mailbox, cursor, records, latest, exhausted, take, pipeline⟩)
      .ret

def runMailSync (deps : MailSyncDeps) : SyncProg MailSyncReport := do
  match ← query fun s => s.db.mailbox with
  | none => return syncReport .mailboxUnknown none
  | some mailbox =>
    if mailbox.status ≠ .connected then
      write fun _ db => db.holdDisconnected (fenceOf mailbox)
      return syncReport .mailboxInactive mailbox.historyId
    else
      match ← gmail Env.access with
      | .providerIncident => return syncReport .readStopped mailbox.historyId
      | .grantRevoked =>
        write fun _ db => db.holdForRevokedGrant (fenceOf mailbox)
        return syncReport .grantRevoked mailbox.historyId
      | .granted =>
        match mailbox.historyId with
        | none => beginBaseline mailbox
        | some cursor =>
          if mailbox.syncState ≠ .ready then beginBaseline mailbox
          else syncFrom deps mailbox cursor

/-! ## The system -/

/-- A run of the job, or a change of the account. -/
inductive SyncCall
  | mailSync (deps : MailSyncDeps)
  | account (event : GmailEvent)

def syncCode : SyncCall → MailProg Store Unit
  | .mailSync deps => do
    let _ ← runMailSync deps
    return
  | .account event => .effect fun _ _ s => ((), { s with gmail := s.gmail.after event })

abbrev SyncInput := Input ProcessId Env SyncCall

end FoundingSales.Mail
