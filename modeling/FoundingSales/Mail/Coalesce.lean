import FoundingSales.Library.Decimals
import FoundingSales.Outbound.Types
import FoundingSales.Jobs.JobStore

/-!
The single-flight mail jobs: the coalescing enqueue of `mail.sync`, the re-arming of
`mail.recover`, and what the handlers accept of a payload. The rows are those of the queue;
an entry of a payload is held as its JSON text.
-/

namespace FoundingSales.Mail

open Tables Jobs Outbound

/-! ## Payloads -/

/-- `^[0-9]{1,20}$`, as every caller checks a history id. -/
abbrev HistoryId :=
  { text : JsString // 1 ≤ text.length ∧ text.length ≤ 20 ∧ text.all Decimals.isDigit = true }

/-- A mailbox's `id`, a `uuid`. -/
abbrev MailboxId := { id : Uuid // canonicalUuid id = true }

/-- `mailboxes_generation_positive` -/
abbrev Generation := { generation : Nat // 1 ≤ generation }

abbrev Entries := List (JsString × JsString)

def quote : UInt16 := 34

/-- A string, as JSON. -/
def jsonText (text : JsString) : JsString := quote :: (text ++ [quote])

def jsonNull : JsString := js "null"

/-- `payload ->> key`: no text for a missing entry and for `null`. -/
def entryText (entries : Entries) (key : JsString) : Option JsString :=
  match entries.lookup key with
  | none => none
  | some json =>
    if json = jsonNull then none
    else if json.head? = some quote then some json.tail.dropLast
    else some json

/-- `jsonb_set(payload, '{key}', json, true)` -/
def setEntry (key json : JsString) : Entries → Entries
  | [] => [(key, json)]
  | entry :: rest => if entry.1 = key then (key, json) :: rest else entry :: setEntry key json rest

/-- `typeof value === 'string'` -/
def stringEntry (entries : Entries) (key : JsString) : Option JsString :=
  (entries.lookup key).bind fun json =>
    if json.head? = some quote then some json.tail.dropLast else none

/-- A number that is a whole one. -/
def integerEntry (entries : Entries) (key : JsString) : Option Nat :=
  (entries.lookup key).bind Decimals.read

/-- The mailbox a claimed payload names; without one the handler throws. -/
def payloadMailboxId (entries : Entries) : Option JsString :=
  (stringEntry entries (js "mailboxId")).filter fun value => !value.isEmpty

/-- The generation a `mail.recover` payload names. -/
def payloadGeneration (entries : Entries) : Option Nat :=
  (integerEntry entries (js "generation")).filter fun generation => 1 ≤ generation

def mailSyncKind : JsString := js "mail.sync"
def mailRecoverKind : JsString := js "mail.recover"

/-- Whether the handler of a kind gets past its payload. -/
def handlerAccepts (kind : JsString) (entries : Entries) : Bool :=
  if kind = mailSyncKind then (payloadMailboxId entries).isSome
  else if kind = mailRecoverKind then
    (payloadMailboxId entries).isSome && (payloadGeneration entries).isSome
  else true

/-! ## Keys -/

def mailSyncKey (mailboxId : MailboxId) (generation : Generation) : JsString :=
  js "mail-sync:" ++ mailboxId.1 ++ js ":" ++ Decimals.print generation.1

def mailRecoverKey (mailboxId : MailboxId) (generation : Generation) : JsString :=
  js "mail-recover:" ++ mailboxId.1 ++ js ":" ++ Decimals.print generation.1

/-! ## The coalescing enqueue -/

inductive CoalesceOutcome
  | enqueued | merged | rearmed | dead
  deriving DecidableEq

structure CoalesceResult where
  jobId : Uuid
  outcome : CoalesceOutcome
  historyId : Option JsString
  deriving DecidableEq

/-- The generation is the caller's or the mailbox's own. -/
structure CoalesceMailSyncInput where
  workspaceId : Uuid
  mailboxId : MailboxId
  generation : Generation
  historyId : Option HistoryId
  maxAttempts : Option Int
  deriving DecidableEq

def mailboxEntries (mailboxId : MailboxId) (generation : Generation) : Entries :=
  [(js "mailboxId", jsonText mailboxId.1), (js "generation", Decimals.print generation.1)]

/-- `to_jsonb` of a hint, or `null`. -/
def hintJson (historyId : Option HistoryId) : JsString :=
  (historyId.map fun id => jsonText id.1).getD jsonNull

def mailSyncSpecification (input : CoalesceMailSyncInput) : JobSpecification where
  workspaceId := input.workspaceId
  kind := mailSyncKind
  idempotencyKey := mailSyncKey input.mailboxId input.generation
  payload := ⟨mailboxEntries input.mailboxId input.generation ++
    [(js "historyId", hintJson input.historyId)], none, none⟩
  runAt := none
  notBefore := none
  maxAttempts := input.maxAttempts

/-- The `CASE` that merges the hints: `none` is a SQL `NULL`, which makes the payload one,
or a cast to `numeric` that raises. -/
def mergedHint (entries : Entries) (historyId : Option HistoryId) : Option JsString :=
  match historyId with
  | none => entries.lookup (js "historyId")
  | some hint =>
    match entryText entries (js "historyId") with
    | none => some (jsonText hint.1)
    | some stored => do
      let stored ← Decimals.read stored
      let given ← Decimals.read hint.1
      if given ≤ stored then entries.lookup (js "historyId") else some (jsonText hint.1)

/-- The update of the row that is there; only a finished job is re-armed. -/
def coalesceSet (now : Instant) (hint : JsString) (row : Job) : Job :=
  { row with
    payload := { row.payload with entries := setEntry (js "historyId") hint row.payload.entries }
    state := if row.state = .done then .queued else row.state
    attemptCount := if row.state = .done then 0 else row.attemptCount
    runAt := if row.state = .done then now else row.runAt
    notBefore := if row.state = .done then now else row.notBefore
    completedAt := if row.state = .done then none else row.completedAt
    errorCode := if row.state = .done then none else row.errorCode
    errorDetail := if row.state = .done then none else row.errorDetail
    payloadArchivedAt := if row.state = .done then none else row.payloadArchivedAt }

def coalesceOutcome (previous : JobState) : CoalesceOutcome :=
  match previous with
  | .dead => .dead
  | .done => .rearmed
  | _ => .merged

/-- The row of a single-flight key. -/
def singleFlight (workspaceId : Uuid) (kind idempotencyKey : JsString) (jobs : JobTable) :
    Option Job :=
  jobs.rows.find? fun row => row.workspaceId = workspaceId && row.kind = kind &&
    row.idempotencyKey = idempotencyKey

/-- The coalescing enqueue; `none` is a statement the database refuses. -/
def coalesceMailSync (now : Instant) (newId : Uuid) (input : CoalesceMailSyncInput)
    (jobs : JobTable) : Option (CoalesceResult × JobTable) :=
  match singleFlight input.workspaceId mailSyncKind
      (mailSyncKey input.mailboxId input.generation) jobs with
  | none =>
    let job := newJob now newId (mailSyncSpecification input)
    if job.maxAttempts ≥ 1 then
      (jobs.insert? job).map fun jobs =>
        (⟨newId, .enqueued, input.historyId.map Subtype.val⟩, jobs)
    else none
  | some row =>
    (mergedHint row.payload.entries input.historyId).map fun hint =>
      (⟨row.id, coalesceOutcome row.state,
          entryText (coalesceSet now hint row).payload.entries (js "historyId")⟩,
        jobs.upsert (coalesceSet now hint row))

/-! ## Recovery jobs -/

def mailRecoverSpecification (workspaceId : Uuid) (mailboxId : MailboxId)
    (generation : Generation) (maxAttempts : Option Int) : JobSpecification where
  workspaceId := workspaceId
  kind := mailRecoverKind
  idempotencyKey := mailRecoverKey mailboxId generation
  payload := ⟨mailboxEntries mailboxId generation, none, none⟩
  runAt := none
  notBefore := none
  maxAttempts := maxAttempts

def rearmSet (now : Instant) (row : Job) : Job :=
  { row with
    state := .queued
    attemptCount := 0
    runAt := now
    notBefore := now
    completedAt := none
    errorCode := none
    errorDetail := none }

/-- Put a finished recovery job back on the queue. A row whose payload is archived may not
leave `done` (`jobs_payload_archived_only_when_done`): the statement raises. -/
def rearmRecoveryJob (now : Instant) (workspaceId : Uuid) (mailboxId : MailboxId)
    (generation : Generation) (jobs : JobTable) : Option (Bool × JobTable) :=
  match singleFlight workspaceId mailRecoverKind (mailRecoverKey mailboxId generation) jobs with
  | none => some (false, jobs)
  | some row =>
    if row.state ≠ .done then some (false, jobs)
    else if row.payloadArchivedAt.isSome then none
    else some (true, jobs.upsert (rearmSet now row))

/-! ## The queue of mail jobs -/

inductive MailJobAction
  | coalesceMailSync (now : Instant) (newId : Uuid) (input : CoalesceMailSyncInput)
  | enqueueRecovery (now : Instant) (newId workspaceId : Uuid) (mailboxId : MailboxId)
      (generation : Generation) (maxAttempts : Option Int)
  | rearmRecoveryJob (now : Instant) (workspaceId : Uuid) (mailboxId : MailboxId)
      (generation : Generation)
  | claimJobs (now : Instant) (locked : List JobKey) (options : ClaimOptions)
  | write (now : Instant) (claim : ClaimedJob) (w : Write)
  | reclaimExpiredLeases (now : Instant) (locked : List JobKey) (limit : Nat)
  | archiveCompletedPayloads (now : Instant) (olderThanMillis : Int) (limit : Nat)
  | requeueDeadJob (now : Instant) (scope : AdminScope) (jobId : Uuid)
  deriving DecidableEq

/-- The statement of `jobStore.ts` an action is, when it is one. -/
def MailJobAction.statement : MailJobAction → Option Action
  | coalesceMailSync _ _ _ | rearmRecoveryJob _ _ _ _ => none
  | enqueueRecovery now newId workspaceId mailboxId generation maxAttempts =>
    some (.enqueueJob now newId
      (mailRecoverSpecification workspaceId mailboxId generation maxAttempts))
  | claimJobs now locked options => some (.claimJobs now locked options)
  | write now claim w => some (.write now claim w)
  | reclaimExpiredLeases now locked limit => some (.reclaimExpiredLeases now locked limit)
  | archiveCompletedPayloads now olderThanMillis limit =>
    some (.archiveCompletedPayloads now olderThanMillis limit)
  | requeueDeadJob now scope jobId => some (.requeueDeadJob now scope jobId)

/-- One action; a statement that raises changes nothing. -/
def mailStep (q : Queue) (a : MailJobAction) : Queue :=
  match a with
  | .coalesceMailSync now newId input =>
    ⟨((Mail.coalesceMailSync now newId input q.jobs).map Prod.snd).getD q.jobs, q.issued⟩
  | .rearmRecoveryJob now workspaceId mailboxId generation =>
    ⟨((Mail.rearmRecoveryJob now workspaceId mailboxId generation q.jobs).map Prod.snd).getD q.jobs,
      q.issued⟩
  | a => (a.statement).elim q q.step

def mailRun (actions : List MailJobAction) : Queue := Runs.run mailStep Queue.empty actions

end FoundingSales.Mail
