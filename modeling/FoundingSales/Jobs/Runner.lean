import Mathlib.Logic.Function.Basic
import FoundingSales.Jobs.JobStore

/-!
The job runner: what `runClaimedJob` does with one claim, one database statement at a time.
A handler answers whatever it likes; it is invoked with the cursor, and the runner keeps
the chunk budget. A runner that is never stepped again has died.

A handler of a transactional protection commits with the write that ends its attempt, so
the invocation and that write are one step here.
-/

namespace FoundingSales.Jobs

open Tables

/-! ## The budget -/

/-- `CHUNK_COUNT_LIMIT` -/
def chunkCountLimit : Int := 500

/-- `CHUNK_SECONDS_LIMIT` -/
def chunkSecondsLimit : Int := 6 * 60 * 60

/-- `CHUNK_MARGIN_MILLISECONDS` -/
def chunkMarginMilliseconds : Int := 2000

/-- `String(n)` of an integer. -/
def decimal (n : Int) : JsString := js (toString n)

/-- Which budget a chunked job has spent, or `none` while it is inside both. -/
def budgetOverrun (chunking : ChunkBookkeeping) (nowMs : Int) : Option JsString :=
  let elapsed := nowMs - chunking.firstChunkMs
  if chunking.chunks ≥ chunkCountLimit then
    some (js "a chunked job committed " ++ decimal chunking.chunks ++
      js " chunks without finishing (limit " ++ decimal chunkCountLimit ++ js ")")
  else if elapsed ≥ chunkSecondsLimit * 1000 then
    some (js "a chunked job has been chunking for " ++ decimal ((2 * elapsed + 1000) / 2000) ++
      js " seconds without finishing (limit " ++ decimal chunkSecondsLimit ++ js ")")
  else none

/-! ## One runner -/

inductive Protection
  | fencingToken | businessUniqueness | outboundFence
  deriving DecidableEq

/-- The protection of each registered kind. -/
abbrev HandlerRegistry := JsString → Option Protection

inductive HandlerResult
  | chunk (progress : JsString)
  | finished
  /-- An error, as `failureCode` and `failureDetail` put it. -/
  | throws (code detail : JsString)
  /-- A `ModelBudgetRefusal`. -/
  | refuses (code : JsString)
  deriving DecidableEq

inductive RunnerPhase
  /-- At the top of the loop. -/
  | looking
  /-- The handler has been called. -/
  | invoked (startedAt : Int)
  /-- A chunk has been committed, at `lastChunkMs`. -/
  | yielded (startedAt lastChunkMs : Int)
  | returned
  deriving DecidableEq

/-- The runner's variables; the claim it was given stays as it is. -/
structure Runner where
  payload : Payload
  clock : Option Int
  longestChunk : Int
  phase : RunnerPhase
  deriving DecidableEq

def startRunner (claim : ClaimedJob) : Runner := ⟨claim.payload, none, 0, .looking⟩

def Runner.stop (r : Runner) : Runner := { r with phase := .returned }

inductive RunnerEvent
  /-- The budget is looked at; `nowMs` is the clock where it is read. -/
  | look (nowMs : Int) (random : Option ℚ)
  /-- The handler returns or throws. -/
  | handled (result : HandlerResult) (random : Option ℚ)
  /-- Another chunk, or back to the queue; `hostMs` is the host's time since the write. -/
  | decide (hostMs : Int)
  deriving DecidableEq

/-- What a runner does next: move on, or write to its row and go on from the outcome. -/
inductive Plan
  | go (r : Runner)
  | write (w : Write) (next : WriteOutcome → Runner)

def Plan.write? : Plan → Option Write
  | go _ => none
  | write w _ => some w

namespace Runner

def budgetFailure (detail : JsString) (random : Option ℚ) : JobFailure :=
  ⟨js "chunk_budget_exhausted", some detail, some defaultBackoff, random⟩

/-- The top of the loop: the budget is checked before the work, from the runner's own copy
of the row's bookkeeping. -/
def look (protection : Option Protection) (claim : ClaimedJob) (nowMs : Int) (random : Option ℚ)
    (r : Runner) : Plan :=
  match protection with
  | none =>
    .write (.failJob ⟨js "handler_unregistered", some (js "no handler for " ++ claim.kind), none,
      none⟩) fun _ => r.stop
  | some _ =>
    match r.payload.chunking with
    | none => .go { r with phase := .invoked (r.clock.getD nowMs) }
    | some carried =>
      let clock := r.clock.getD nowMs
      match budgetOverrun carried clock with
      | some detail => .write (.failJob (budgetFailure detail random)) fun _ => r.stop
      | none => .go { r with clock := some clock, phase := .invoked clock }

def thrown (r : Runner) (code detail : JsString) (random : Option ℚ) : Plan :=
  .write (.failJob ⟨code, some detail, some defaultBackoff, random⟩) fun _ => r.stop

def refused (r : Runner) (code : JsString) : Plan :=
  .write (.killJob code none) fun _ => r.stop

/-- What a chunk's write answered. -/
def afterChunk (startedAt : Int) (progress : JsString) (r : Runner) : WriteOutcome → Runner
  | .written chunking =>
    { r with
      payload := { r.payload with
        progress := some progress, chunking := chunking <|> r.payload.chunking }
      phase := match chunking with
        | some chunking => .yielded startedAt chunking.lastChunkMs
        | none => .looking }
  | _ => r.stop

/-- One call of the handler, with the transaction shape its protection asks for. -/
def handled (protection : Option Protection) (claim : ClaimedJob) (holds : Bool) (startedAt : Int)
    (result : HandlerResult) (random : Option ℚ) (r : Runner) : Plan :=
  match protection with
  | none => .go r.stop
  | some .outboundFence =>
    match result with
    | .throws code detail => r.thrown code detail random
    | .refuses code => r.refused code
    | .chunk _ =>
      -- an irreversible effect cannot be re-entered
      .write (.killJob (js "chunking_unsupported") (some (claim.kind ++
        js " is protected by the outbound fence, which cannot be chunked"))) fun _ => r.stop
    | .finished => .write .completeJob fun _ => r.stop
  | some protection =>
    if protection = .fencingToken && !holds then .go r.stop
    else match result with
      | .throws code detail => r.thrown code detail random
      | .refuses code => r.refused code
      | .chunk progress => .write (.writeProgress progress) (r.afterChunk startedAt progress)
      | .finished => .write .completeJob fun _ => r.stop

/-- After a committed chunk: again while the lease has time left, back to the queue when it
does not. -/
def decide (claim : ClaimedJob) (startedAt lastChunkMs hostMs : Int) (r : Runner) : Plan :=
  let clock := lastChunkMs + max 0 hostMs
  let longestChunk := max r.longestChunk (clock - startedAt)
  let r := { r with clock := some clock, longestChunk }
  if clock + longestChunk + chunkMarginMilliseconds ≥ claim.leaseExpiresAt then
    .write .requeueForNextChunk fun _ => r.stop
  else .go { r with phase := .looking }

def plan (registry : HandlerRegistry) (claim : ClaimedJob) (holds : Bool) (r : Runner) :
    RunnerEvent → Plan
  | .look nowMs random =>
    match r.phase with
    | .looking => r.look (registry claim.kind) claim nowMs random
    | _ => .go r
  | .handled result random =>
    match r.phase with
    | .invoked startedAt => r.handled (registry claim.kind) claim holds startedAt result random
    | _ => .go r
  | .decide hostMs =>
    match r.phase with
    | .yielded startedAt lastChunkMs => r.decide claim startedAt lastChunkMs hostMs
    | _ => .go r

end Runner

/-! ## Any number of workers -/

/-- The queue, and the runner of each claim handed out. -/
structure RunnerWorld where
  queue : Queue
  runners : ClaimedJob → Runner

def RunnerWorld.empty : RunnerWorld := ⟨.empty, startRunner⟩

inductive WorkerAction
  /-- What is enqueued is the handler's own entries: the cursor and the bookkeeping beside
  them are the runner's. -/
  | enqueueJob (now : Instant) (id : Uuid) (specification : JobSpecification)
      (entries : List (JsString × JsString))
  | claimJobs (now : Instant) (locked : List JobKey) (options : ClaimOptions)
  | renewLease (now : Instant) (claim : ClaimedJob) (leaseMillis : Int)
  | runner (now : Instant) (claim : ClaimedJob) (event : RunnerEvent)
  | reclaimExpiredLeases (now : Instant) (locked : List JobKey) (limit : Nat)
  | archiveCompletedPayloads (now : Instant) (olderThanMillis : Int) (limit : Nat)
  | requeueDeadJob (now : Instant) (scope : AdminScope) (jobId : Uuid)
  deriving DecidableEq

section World

variable (registry : HandlerRegistry)

/-- The runner of a claim plans with what it finds of its row. -/
def RunnerWorld.plan (w : RunnerWorld) (claim : ClaimedJob) (event : RunnerEvent) : Plan :=
  (w.runners claim).plan registry claim ((w.queue.jobs.find? claim.key).any (holdsLease claim))
    event

/-- The statement on the queue an action performs. -/
def RunnerWorld.statement (w : RunnerWorld) : WorkerAction → Option Action
  | .enqueueJob now id specification entries =>
    some (.enqueueJob now id { specification with payload := ⟨entries, none, none⟩ })
  | .claimJobs now locked options => some (.claimJobs now locked options)
  | .renewLease now claim leaseMillis => some (.write now claim (.renewLease leaseMillis))
  | .runner now claim event => ((w.plan registry claim event).write?).map (.write now claim)
  | .reclaimExpiredLeases now locked limit => some (.reclaimExpiredLeases now locked limit)
  | .archiveCompletedPayloads now olderThanMillis limit =>
    some (.archiveCompletedPayloads now olderThanMillis limit)
  | .requeueDeadJob now scope jobId => some (.requeueDeadJob now scope jobId)

/-- Where an event leaves the runner of a claim; a statement that raises ends it. -/
def RunnerWorld.advanced (w : RunnerWorld) (now : Instant) (claim : ClaimedJob)
    (event : RunnerEvent) : Runner :=
  match w.plan registry claim event with
  | .go r => r
  | .write statement next =>
    (((statement.perform now claim w.queue.jobs).map Prod.fst).map next).getD
      (w.runners claim).stop

def RunnerWorld.step (w : RunnerWorld) (a : WorkerAction) : RunnerWorld where
  queue := (w.statement registry a).elim w.queue w.queue.step
  runners := match a with
    | .runner now claim event =>
      if claim ∈ w.queue.issued then
        Function.update w.runners claim (w.advanced registry now claim event)
      else w.runners
    | _ => w.runners

end World

end FoundingSales.Jobs
