import Mathlib.Algebra.Order.Floor.Defs
import Mathlib.Data.Rat.Floor
import Mathlib.Data.List.Sort
import FoundingSales.Library.Tables
import FoundingSales.Library.Runs
import FoundingSales.Text

/-!
The job queue. Each function of `jobStore.ts` is one statement on the `jobs` table, and the
database's clock is an argument of it. A statement the database refuses changes nothing, so
the checks on the shape of text columns need no model; the others are proved never to fire.
-/

namespace FoundingSales.Jobs

open Tables

inductive JobState
  | queued | running | retryable | done | dead
  deriving DecidableEq

/-- The runner's bookkeeping for a chunked job, beside the handler's cursor. -/
structure ChunkBookkeeping where
  chunks : Int
  firstChunkMs : Int
  lastChunkMs : Int
  deriving DecidableEq

/-- A `payload`: the handler's own entries, its cursor and the runner's bookkeeping. -/
structure Payload where
  entries : List (JsString × JsString)
  progress : Option JsString
  chunking : Option ChunkBookkeeping
  deriving DecidableEq

/-- `'{}'::jsonb` -/
def emptyPayload : Payload := ⟨[], none, none⟩

structure Job where
  workspaceId : Uuid
  id : Uuid
  kind : JsString
  payload : Payload
  idempotencyKey : JsString
  state : JobState
  runAt : Instant
  notBefore : Instant
  attemptCount : Int
  maxAttempts : Int
  fencingToken : Int
  leaseOwner : Option JsString
  leaseExpiresAt : Option Instant
  claimedAt : Option Instant
  firstClaimedAt : Option Instant
  completedAt : Option Instant
  deadAt : Option Instant
  errorCode : Option JsString
  errorDetail : Option JsString
  payloadArchivedAt : Option Instant
  requeuedCount : Int
  deriving DecidableEq

abbrev JobKey := Uuid × Uuid

def Job.key (job : Job) : JobKey := (job.workspaceId, job.id)

abbrev JobTable := Table Job.key

/-- `UPDATE jobs SET … WHERE … RETURNING *` -/
def updateJobs (guard : Job → Bool) (set : Job → Job) (hkey : ∀ job, (set job).key = job.key)
    (jobs : JobTable) : List Job × JobTable :=
  ((jobs.rows.filter guard).map set, jobs.update guard set hkey)

/-! ## Backoff -/

/-- The policy's numbers, and the jitter's, are rationals here. -/
structure BackoffPolicy where
  baseSeconds : ℚ
  factor : ℚ
  maximumSeconds : ℚ
  jitterFraction : ℚ
  deriving DecidableEq

def defaultBackoff : BackoffPolicy := ⟨30, 2, 15 * 60, 1 / 5⟩

/-- `none` is the `RangeError`. -/
def backoffSeconds (attempt : Int) (policy : BackoffPolicy) (random : ℚ) : Option Int :=
  if attempt < 1 then none
  else
    let exponent := (min (attempt - 1) 32).toNat
    let raw := policy.baseSeconds * policy.factor ^ exponent
    let capped := min raw policy.maximumSeconds
    let jitter := capped * policy.jitterFraction * random
    some ⌊capped + jitter + 1 / 2⌋

def isExhausted (attempt maxAttempts : Int) : Bool := attempt ≥ maxAttempts

/-! ## Enqueue -/

structure JobSpecification where
  workspaceId : Uuid
  kind : JsString
  idempotencyKey : JsString
  payload : Payload
  runAt : Option Instant
  notBefore : Option Instant
  maxAttempts : Option Int
  deriving DecidableEq

structure EnqueueOutcome where
  inserted : Bool
  jobId : Uuid
  deriving DecidableEq

def newJob (now : Instant) (id : Uuid) (specification : JobSpecification) : Job where
  workspaceId := specification.workspaceId
  id := id
  kind := specification.kind
  payload := specification.payload
  idempotencyKey := specification.idempotencyKey
  state := .queued
  runAt := specification.runAt.getD now
  notBefore := specification.notBefore.getD now
  attemptCount := 0
  maxAttempts := specification.maxAttempts.getD 4
  fencingToken := 0
  leaseOwner := none
  leaseExpiresAt := none
  claimedAt := none
  firstClaimedAt := none
  completedAt := none
  deadAt := none
  errorCode := none
  errorDetail := none
  payloadArchivedAt := none
  requeuedCount := 0

def sameIdempotencyKey (specification : JobSpecification) (row : Job) : Bool :=
  row.workspaceId = specification.workspaceId && row.kind = specification.kind &&
    row.idempotencyKey = specification.idempotencyKey

/-- `none` is a statement the database refuses: `jobs_attempts_sane`, or a taken `id`. -/
def enqueueJob (now : Instant) (id : Uuid) (specification : JobSpecification) (jobs : JobTable) :
    Option (EnqueueOutcome × JobTable) :=
  match jobs.rows.find? (sameIdempotencyKey specification) with
  | some existing => some (⟨false, existing.id⟩, jobs)
  | none =>
    if (newJob now id specification).maxAttempts ≥ 1 then
      (jobs.insert? (newJob now id specification)).map fun jobs => (⟨true, id⟩, jobs)
    else none

/-! ## The claim -/

structure ClaimedJob where
  id : Uuid
  workspaceId : Uuid
  kind : JsString
  idempotencyKey : JsString
  payload : Payload
  attempt : Int
  maxAttempts : Int
  fencingToken : Int
  leaseOwner : JsString
  leaseExpiresAt : Instant
  deriving DecidableEq

def ClaimedJob.key (claim : ClaimedJob) : JobKey := (claim.workspaceId, claim.id)

def toClaim (row : Job) : ClaimedJob where
  id := row.id
  workspaceId := row.workspaceId
  kind := row.kind
  idempotencyKey := row.idempotencyKey
  payload := row.payload
  attempt := row.attemptCount
  maxAttempts := row.maxAttempts
  fencingToken := row.fencingToken
  leaseOwner := row.leaseOwner.getD []
  leaseExpiresAt := row.leaseExpiresAt.getD 0

structure ClaimOptions where
  owner : JsString
  kinds : List JsString
  limit : Nat
  /-- `leaseSeconds`, in milliseconds -/
  leaseMillis : Int
  deriving DecidableEq

def claimable (now : Instant) (options : ClaimOptions) (row : Job) : Bool :=
  (row.state == .queued || row.state == .retryable) && row.kind ∈ options.kinds &&
    row.runAt ≤ now && row.notBefore ≤ now && row.attemptCount < row.maxAttempts

/-- `ORDER BY run_at, id` -/
def RunsBefore (left right : Job) : Prop :=
  left.runAt < right.runAt ∨ left.runAt = right.runAt ∧ ¬ right.id < left.id

instance : DecidableRel RunsBefore := fun _ _ => inferInstanceAs (Decidable (_ ∨ _))

/-- The rows the CTE takes: rows `locked` by another statement are skipped. -/
def claimCandidates (now : Instant) (locked : List JobKey) (options : ClaimOptions)
    (jobs : JobTable) : List JobKey :=
  (((jobs.rows.filter fun row => claimable now options row && row.key ∉ locked).insertionSort
    RunsBefore).take options.limit).map Job.key

def claimSet (now : Instant) (options : ClaimOptions) (row : Job) : Job :=
  { row with
    state := .running
    leaseOwner := some options.owner
    leaseExpiresAt := some (now + options.leaseMillis)
    claimedAt := some now
    firstClaimedAt := some (row.firstClaimedAt.getD now)
    attemptCount := row.attemptCount + 1
    fencingToken := row.fencingToken + 1 }

/-- `none` is `LEASE_SECONDS_INVALID`. -/
def claimJobs (now : Instant) (locked : List JobKey) (options : ClaimOptions) (jobs : JobTable) :
    Option (List ClaimedJob × JobTable) :=
  if options.leaseMillis ≤ 0 then none
  else if options.kinds = [] then some ([], jobs)
  else
    let candidate := claimCandidates now locked options jobs
    let (rows, jobs) := updateJobs (fun row => row.key ∈ candidate) (claimSet now options)
      (fun _ => rfl) jobs
    some (rows.map toClaim, jobs)

/-! ## A worker's writes -/

inductive WriteOutcome
  | completed | retryable | dead | written (chunking : Option ChunkBookkeeping) | requeued
  | renewed | leaseLost
  deriving DecidableEq

/-- `WHERE workspace_id = $1 AND id = $2 AND state = 'running' AND fencing_token = …` -/
def holdsToken (claim : ClaimedJob) (row : Job) : Bool :=
  row.workspaceId = claim.workspaceId && row.id = claim.id && row.state == .running &&
    row.fencingToken = claim.fencingToken

/-- … `AND lease_owner = $3` -/
def holdsLease (claim : ClaimedJob) (row : Job) : Bool :=
  holdsToken claim row && row.leaseOwner = some claim.leaseOwner

def completeSet (now : Instant) (row : Job) : Job :=
  { row with
    state := .done
    completedAt := some now
    leaseOwner := none
    leaseExpiresAt := none
    errorCode := none
    errorDetail := none }

def completeJob (now : Instant) (claim : ClaimedJob) (jobs : JobTable) :
    WriteOutcome × JobTable :=
  let (rows, jobs) := updateJobs (holdsLease claim) (completeSet now) (fun _ => rfl) jobs
  (if rows.length = 1 then .completed else .leaseLost, jobs)

structure JobFailure where
  code : JsString
  detail : Option JsString
  backoff : Option BackoffPolicy
  /-- what `random()` answers -/
  random : Option ℚ
  deriving DecidableEq

def failSet (now : Instant) (exhausted : Bool) (delay : Int) (failure : JobFailure) (row : Job) :
    Job :=
  { row with
    state := if exhausted then .dead else .retryable
    deadAt := if exhausted then some now else none
    runAt := if exhausted then row.runAt else now + delay * 1000
    leaseOwner := none
    leaseExpiresAt := none
    errorCode := some failure.code
    errorDetail := failure.detail }

/-- How long a failed attempt waits. -/
def failDelay (claim : ClaimedJob) (failure : JobFailure) : Option Int :=
  if isExhausted claim.attempt claim.maxAttempts then some 0
  else backoffSeconds claim.attempt (failure.backoff.getD defaultBackoff) (failure.random.getD 0)

def failJob (now : Instant) (claim : ClaimedJob) (failure : JobFailure) (jobs : JobTable) :
    Option (WriteOutcome × JobTable) :=
  let exhausted := isExhausted claim.attempt claim.maxAttempts
  (failDelay claim failure).map fun delay =>
    let (rows, jobs) := updateJobs (holdsLease claim) (failSet now exhausted delay failure)
      (fun _ => rfl) jobs
    match rows.head?.map Job.state with
    | some .dead => (.dead, jobs)
    | some .retryable => (.retryable, jobs)
    | _ => (.leaseLost, jobs)

/-- `clock` is `clock_timestamp()`, in epoch milliseconds. -/
def progressSet (clock : Instant) (progress : JsString) (row : Job) : Job :=
  { row with
    payload := { row.payload with
      progress := some progress
      chunking := some {
        chunks := (row.payload.chunking.map ChunkBookkeeping.chunks).getD 0 + 1
        firstChunkMs := (row.payload.chunking.map ChunkBookkeeping.firstChunkMs).getD clock
        lastChunkMs := clock } } }

def writeProgress (clock : Instant) (claim : ClaimedJob) (progress : JsString) (jobs : JobTable) :
    WriteOutcome × JobTable :=
  let (rows, jobs) := updateJobs (holdsToken claim) (progressSet clock progress) (fun _ => rfl) jobs
  match rows.head? with
  | none => (.leaseLost, jobs)
  | some row => (.written row.payload.chunking, jobs)

def requeueSet (now : Instant) (row : Job) : Job :=
  { row with
    state := .queued
    runAt := now
    notBefore := now
    attemptCount := max (row.attemptCount - 1) 0
    leaseOwner := none
    leaseExpiresAt := none }

def requeueForNextChunk (now : Instant) (claim : ClaimedJob) (jobs : JobTable) :
    WriteOutcome × JobTable :=
  let (rows, jobs) := updateJobs (holdsLease claim) (requeueSet now) (fun _ => rfl) jobs
  (if rows.length = 1 then .requeued else .leaseLost, jobs)

def killSet (now : Instant) (code : JsString) (detail : Option JsString) (row : Job) : Job :=
  { row with
    state := .dead
    deadAt := some now
    leaseOwner := none
    leaseExpiresAt := none
    errorCode := some code
    errorDetail := detail }

def killJob (now : Instant) (claim : ClaimedJob) (code : JsString) (detail : Option JsString)
    (jobs : JobTable) : WriteOutcome × JobTable :=
  let (rows, jobs) := updateJobs (holdsLease claim) (killSet now code detail) (fun _ => rfl) jobs
  (if rows.length = 1 then .dead else .leaseLost, jobs)

def renewSet (now : Instant) (leaseMillis : Int) (row : Job) : Job :=
  { row with leaseExpiresAt := some (now + leaseMillis) }

def renewLease (now : Instant) (claim : ClaimedJob) (leaseMillis : Int) (jobs : JobTable) :
    WriteOutcome × JobTable :=
  let (rows, jobs) := updateJobs (holdsLease claim) (renewSet now leaseMillis) (fun _ => rfl) jobs
  (if rows.length = 1 then .renewed else .leaseLost, jobs)

/-! ## Sweeps and the admin's command -/

def expired (now : Instant) (row : Job) : Bool :=
  row.state == .running && row.leaseExpiresAt.any fun expiresAt => expiresAt < now

/-- `ORDER BY lease_expires_at` -/
def ExpiresBefore (left right : Job) : Prop :=
  left.leaseExpiresAt.getD 0 ≤ right.leaseExpiresAt.getD 0

instance : DecidableRel ExpiresBefore := fun _ _ => inferInstanceAs (Decidable (_ ≤ _))

def expiredCandidates (now : Instant) (locked : List JobKey) (limit : Nat) (jobs : JobTable) :
    List JobKey :=
  (((jobs.rows.filter fun row => expired now row && row.key ∉ locked).insertionSort
    ExpiresBefore).take limit).map Job.key

def reclaimSet (now : Instant) (row : Job) : Job :=
  { row with
    state := if row.attemptCount ≥ row.maxAttempts then .dead else .retryable
    deadAt := if row.attemptCount ≥ row.maxAttempts then some now else none
    leaseOwner := none
    leaseExpiresAt := none
    errorCode := some (js "lease_expired")
    errorDetail := some (js "The lease expired before the worker reported an outcome.") }

def reclaimExpiredLeases (now : Instant) (locked : List JobKey) (limit : Nat) (jobs : JobTable) :
    Nat × JobTable :=
  let candidate := expiredCandidates now locked limit jobs
  let (rows, jobs) := updateJobs (fun row => row.key ∈ candidate) (reclaimSet now)
    (fun _ => rfl) jobs
  (rows.length, jobs)

def archivable (now : Instant) (olderThanMillis : Int) (row : Job) : Bool :=
  row.state == .done && row.payloadArchivedAt.isNone &&
    row.completedAt.any fun completedAt => completedAt < now - olderThanMillis

/-- `ORDER BY completed_at` -/
def CompletedBefore (left right : Job) : Prop :=
  left.completedAt.getD 0 ≤ right.completedAt.getD 0

instance : DecidableRel CompletedBefore := fun _ _ => inferInstanceAs (Decidable (_ ≤ _))

def archivableCandidates (now : Instant) (olderThanMillis : Int) (limit : Nat) (jobs : JobTable) :
    List JobKey :=
  (((jobs.rows.filter (archivable now olderThanMillis)).insertionSort CompletedBefore).take
    limit).map Job.key

def archiveSet (now : Instant) (row : Job) : Job :=
  { row with payload := emptyPayload, errorDetail := none, payloadArchivedAt := some now }

def archiveCompletedPayloads (now : Instant) (olderThanMillis : Int) (limit : Nat)
    (jobs : JobTable) : Nat × JobTable :=
  let candidate := archivableCandidates now olderThanMillis limit jobs
  let (rows, jobs) := updateJobs (fun row => row.key ∈ candidate) (archiveSet now)
    (fun _ => rfl) jobs
  (rows.length, jobs)

inductive RequeueOutcome
  | requeued (jobId : Uuid) (kind : JsString)
  | notAdmin
  | notDead
  deriving DecidableEq

structure AdminScope where
  workspaceId : Uuid
  isAdmin : Bool
  deriving DecidableEq

def isDead (workspaceId jobId : Uuid) (row : Job) : Bool :=
  row.workspaceId = workspaceId && row.id = jobId && row.state == .dead

/-- The attempts and the runner's chunk budget start again; the handler's cursor is kept. -/
def requeueDeadSet (now : Instant) (row : Job) : Job :=
  { row with
    state := .queued
    deadAt := none
    attemptCount := 0
    payload := { row.payload with chunking := none }
    requeuedCount := row.requeuedCount + 1
    runAt := now
    notBefore := now
    leaseOwner := none
    leaseExpiresAt := none
    errorCode := none
    errorDetail := none }

def requeueDeadJob (now : Instant) (scope : AdminScope) (jobId : Uuid) (jobs : JobTable) :
    RequeueOutcome × JobTable :=
  if !scope.isAdmin then (.notAdmin, jobs)
  else
    let (rows, jobs) := updateJobs (isDead scope.workspaceId jobId) (requeueDeadSet now)
      (fun _ => rfl) jobs
    match rows.head?.map Job.kind with
    | none => (.notDead, jobs)
    | some kind => (.requeued jobId kind, jobs)

/-! ## Any number of workers -/

inductive Write
  | renewLease (leaseMillis : Int)
  | writeProgress (progress : JsString)
  | completeJob
  | failJob (failure : JobFailure)
  | killJob (code : JsString) (detail : Option JsString)
  | requeueForNextChunk
  deriving DecidableEq

/-- The writes that end a claim. -/
def Write.terminal : Write → Bool
  | .renewLease _ | .writeProgress _ => false
  | .completeJob | .failJob _ | .killJob _ _ | .requeueForNextChunk => true

def Write.perform (now : Instant) (claim : ClaimedJob) (jobs : JobTable) :
    Write → Option (WriteOutcome × JobTable)
  | .renewLease leaseMillis => some (Jobs.renewLease now claim leaseMillis jobs)
  | .writeProgress progress => some (Jobs.writeProgress now claim progress jobs)
  | .completeJob => some (Jobs.completeJob now claim jobs)
  | .failJob failure => Jobs.failJob now claim failure jobs
  | .killJob code detail => some (Jobs.killJob now claim code detail jobs)
  | .requeueForNextChunk => some (Jobs.requeueForNextChunk now claim jobs)

/-- The table, and the claims handed to workers, which outlive the leases. -/
structure Queue where
  jobs : JobTable
  issued : List ClaimedJob

def Queue.empty : Queue := ⟨.empty, []⟩

inductive Action
  | enqueueJob (now : Instant) (id : Uuid) (specification : JobSpecification)
  | claimJobs (now : Instant) (locked : List JobKey) (options : ClaimOptions)
  | write (now : Instant) (claim : ClaimedJob) (w : Write)
  | reclaimExpiredLeases (now : Instant) (locked : List JobKey) (limit : Nat)
  | archiveCompletedPayloads (now : Instant) (olderThanMillis : Int) (limit : Nat)
  | requeueDeadJob (now : Instant) (scope : AdminScope) (jobId : Uuid)
  deriving DecidableEq

/-- The claims an action hands out. -/
def Queue.issues (q : Queue) : Action → List ClaimedJob
  | .claimJobs now locked options =>
    ((Jobs.claimJobs now locked options q.jobs).map Prod.fst).getD []
  | _ => []

def Queue.afterAction (q : Queue) : Action → JobTable
  | .enqueueJob now id specification =>
    ((Jobs.enqueueJob now id specification q.jobs).map Prod.snd).getD q.jobs
  | .claimJobs now locked options =>
    ((Jobs.claimJobs now locked options q.jobs).map Prod.snd).getD q.jobs
  -- a worker writes with a claim it was handed, however long ago
  | .write now claim w =>
    if claim ∈ q.issued then ((w.perform now claim q.jobs).map Prod.snd).getD q.jobs else q.jobs
  | .reclaimExpiredLeases now locked limit =>
    (Jobs.reclaimExpiredLeases now locked limit q.jobs).2
  | .archiveCompletedPayloads now olderThanMillis limit =>
    (Jobs.archiveCompletedPayloads now olderThanMillis limit q.jobs).2
  | .requeueDeadJob now scope jobId => (Jobs.requeueDeadJob now scope jobId q.jobs).2

def Queue.step (q : Queue) (a : Action) : Queue := ⟨q.afterAction a, q.issues a ++ q.issued⟩

def queueRun (actions : List Action) : Queue := Runs.run Queue.step Queue.empty actions

/-- Whether a worker's write, made now, finds its row. -/
def Queue.takesEffect (q : Queue) (now : Instant) (claim : ClaimedJob) (w : Write) : Bool :=
  claim ∈ q.issued && ((w.perform now claim q.jobs).map Prod.fst).any (· ≠ .leaseLost)

end FoundingSales.Jobs
