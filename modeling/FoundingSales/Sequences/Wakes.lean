import FoundingSales.Jobs.JobStore
import FoundingSales.Library.Decimals
import FoundingSales.Outreach.Cadence
import FoundingSales.Sequences.Holds

/-!
Which step executions are owed another look, over every workspace, and the scheduler pass
that gives each of them a job: `listStepWakes`, `sequenceActionSource` and the enqueue of
`runSchedulerPass`. Instants of the tables are microseconds.
-/

namespace FoundingSales.Sequences

open Tables Jobs Outreach

/-! ## Tables -/

/-- A row with the workspace it is in. -/
structure Scoped (ρ : Type) where
  workspaceId : Uuid
  row : ρ
  deriving DecidableEq

abbrev ScopedTable {ρ : Type} (id : ρ → Uuid) :=
  Table fun entry : Scoped ρ => (entry.workspaceId, id entry.row)

/-- The fence of a step, as far as its holds are told from others. -/
structure StepFence where
  id : Uuid
  stepExecutionId : Option Uuid
  deriving DecidableEq

structure OwnedMailbox where
  id : Uuid
  ownerUserId : Uuid
  deriving DecidableEq

structure OutreachPlanRow where
  id : Uuid
  cadence : Option OutreachCadence
  deriving DecidableEq

inductive TouchState
  | reserved | accepted | unknown | released
  deriving DecidableEq

/-- A row of `outreach_touch_reservations`. -/
structure TouchRow where
  id : Uuid
  planId : Uuid
  ordinal : Nat
  state : TouchState
  claimedAt : Micros
  deriving DecidableEq

structure WakeTables where
  executions : ScopedTable StepExecutionRow.id
  enrollments : ScopedTable EnrollmentRow.id
  holds : HoldTable
  fences : ScopedTable StepFence.id
  mailboxes : ScopedTable OwnedMailbox.id
  plans : ScopedTable OutreachPlanRow.id
  touches : ScopedTable TouchRow.id
  jobs : JobTable

/-! ## What is woken -/

/-- How long a `dispatched` execution may sit before the scheduler wakes it. -/
def dispatchRecoveryGraceSeconds : Int := 10 * 60

/-- How many wakes one pass materializes. -/
def stepWakeLimit : Nat := 500

/-- An execution with its enrollment. -/
structure StepRow where
  workspaceId : Uuid
  execution : StepExecutionRow
  enrollment : EnrollmentRow
  deriving DecidableEq

def sequenceActionKind : JsString := js "sequence.action"

def stepExecutionField : JsString := js "stepExecutionId"

def outboundMessageEvent : JsString := js "outbound_message"

namespace WakeTables

variable (t : WakeTables)

/-- `step_executions e JOIN sequence_enrollments n` -/
def stepRows : List StepRow :=
  t.executions.rows.filterMap fun e =>
    (t.enrollments.find? (e.workspaceId, e.row.enrollmentId)).map fun n =>
      ⟨e.workspaceId, e.row, n.row⟩

/-- The mailbox of the enrollment's owner. -/
def ownerMailbox (step : StepRow) : Option Uuid :=
  (t.mailboxes.rows.find? fun m => m.workspaceId = step.workspaceId &&
    m.row.ownerUserId = step.enrollment.assignedUserId).map fun m => m.row.id

/-- The hold is one that the step's own fence opened. -/
def ownFenceHold (step : StepRow) (hold : ActiveHold) : Bool :=
  hold.sourceEventKind = outboundMessageEvent &&
    t.fences.rows.any fun f => f.workspaceId = step.workspaceId &&
      f.row.stepExecutionId = some step.execution.id && hold.sourceEventId = some f.row.id

/-- `BLOCKING_HOLD_SQL` -/
def blockingHold (step : StepRow) : Bool :=
  t.holds.rows.any fun hold => hold.releasedAt.isNone &&
    holdApplies hold (executionSubject step.workspaceId (t.ownerMailbox step) step.enrollment
      step.execution) && !t.ownFenceHold step hold

/-- A job of the step's is still to run. -/
def liveJob (step : StepRow) : Bool :=
  t.jobs.rows.any fun job => job.workspaceId = step.workspaceId &&
    job.kind = sequenceActionKind &&
    (job.state = .queued || job.state = .running || job.state = .retryable) &&
    job.payload.entries.lookup stepExecutionField = some step.execution.id

/-- The row of the step is due, or its dispatch has sat for the grace. -/
def owedLook (now : Micros) (graceSeconds : Int) (step : StepRow) : Bool :=
  match step.execution.state with
  | .pending => step.execution.dueAt ≤ now && step.execution.notBefore ≤ now
  | .held => step.execution.dueAt ≤ now && step.execution.notBefore ≤ now && !t.blockingHold step
  | .dispatched => step.execution.updatedAt ≤ now - graceSeconds * 1000000
  | .completed | .cancelled => false

/-- The `WHERE` clause of `listStepWakes`. -/
def selects (now : Micros) (graceSeconds : Int) (step : StepRow) : Bool :=
  step.enrollment.endedAt.isNone && step.enrollment.state = .active &&
    step.enrollment.originKind ≠ .coldLegacy && t.owedLook now graceSeconds step &&
    !t.liveJob step

end WakeTables

/-- `CASE WHEN n.origin_kind='follow_up' THEN 0 ELSE 1 END` -/
def StepRow.originRank (step : StepRow) : Nat :=
  if step.enrollment.originKind = .followUp then 0 else 1

/-- The `ORDER BY` of `listStepWakes`. -/
def WakesBefore (left right : StepRow) : Prop :=
  left.originRank < right.originRank ∨ left.originRank = right.originRank ∧
    (left.execution.dueAt < right.execution.dueAt ∨
      left.execution.dueAt = right.execution.dueAt ∧
        textLe left.execution.id right.execution.id = true)

instance : DecidableRel WakesBefore := fun _ _ => inferInstanceAs (Decidable (_ ∨ _))

/-- Every execution that is owed a look, in the order of the query. -/
def WakeTables.owed (t : WakeTables) (now : Micros) (graceSeconds : Int) : List StepRow :=
  (t.stepRows.filter (t.selects now graceSeconds)).insertionSort WakesBefore

/-! ## The key of a look -/

structure StepWake where
  workspaceId : Uuid
  stepExecutionId : Uuid
  wake : JsString
  deriving DecidableEq

/-- The text of an integer. -/
def integerText (n : Int) : JsString :=
  if n < 0 then js "-" ++ Decimals.print n.natAbs else Decimals.print n.natAbs

/-- `WAKE_SQL` -/
def StepExecutionRow.wakeText (execution : StepExecutionRow) : JsString :=
  integerText execution.updatedAt

/-- `ORDER BY r.claimed_at, r.id` -/
def ClaimedBefore (left right : TouchRow) : Prop :=
  left.claimedAt < right.claimedAt ∨
    left.claimedAt = right.claimedAt ∧ textLe left.id right.id = true

instance : DecidableRel ClaimedBefore := fun _ _ => inferInstanceAs (Decidable (_ ∨ _))

/-- The plan's accepted or unknown touches. -/
def WakeTables.planTouches (t : WakeTables) (step : StepRow) : List TouchRow :=
  ((t.touches.rows.filter fun r => r.workspaceId = step.workspaceId &&
    step.enrollment.outreachPlanId = some r.row.planId &&
    (r.row.state = .accepted || r.row.state = .unknown)).map Scoped.row).insertionSort
      ClaimedBefore

/-- The cadence of a prospecting call. -/
def WakeTables.callCadence (t : WakeTables) (step : StepRow) : Option OutreachCadence :=
  if step.enrollment.originKind = .prospecting ∧ step.execution.channel = .callTask then do
    let planId ← step.enrollment.outreachPlanId
    let plan ← t.plans.find? (step.workspaceId, planId)
    plan.row.cadence
  else none

section Passes

variable (clock : ZoneClock)

/-- The slot a call's look is for: a new slot is a new look. -/
def cadenceSlot (now : Micros) (cadence : OutreachCadence) (touches : List TouchRow) : JsString :=
  if cadence.expiresAt < now / 1000 then js "expired"
  else
    match nextProspectingTouch clock cadence (now / 1000) (touches.map TouchRow.ordinal)
      (touches.getLast?.map fun touch => touch.claimedAt / 1000) with
    | some (touch, _) => Decimals.print touch.ordinal
    | none => js "waiting"

def WakeTables.wakeOf (t : WakeTables) (now : Micros) (step : StepRow) : StepWake :=
  ⟨step.workspaceId, step.execution.id,
    match t.callCadence step with
    | none => step.execution.wakeText
    | some cadence =>
      step.execution.wakeText ++ js ":" ++ cadenceSlot clock now cadence (t.planTouches step)⟩

/-- `none` for `limit` and `recoveryGraceSeconds` are the defaults. -/
def listStepWakes (now : Micros) (limit : Option Nat) (recoveryGraceSeconds : Option Int)
    (t : WakeTables) : List StepWake :=
  ((t.owed now (recoveryGraceSeconds.getD dispatchRecoveryGraceSeconds)).take
    (limit.getD stepWakeLimit)).map (t.wakeOf clock now)

/-! ## The pass -/

/-- `jobIdempotencyKey.sequenceAction` -/
def sequenceActionKey (stepExecutionId wake : JsString) : JsString :=
  js "step-execution:" ++ stepExecutionId ++ js ":" ++ wake

def wakeSpecification (wake : StepWake) : JobSpecification where
  workspaceId := wake.workspaceId
  kind := sequenceActionKind
  idempotencyKey := sequenceActionKey wake.stepExecutionId wake.wake
  payload := { emptyPayload with entries := [(stepExecutionField, wake.stepExecutionId)] }
  runAt := none
  notBefore := none
  maxAttempts := some 4

/-- `sequenceActionSource().find` -/
def sequenceActionSource (now : Micros) (t : WakeTables) : List JobSpecification :=
  (listStepWakes clock now none none t).map wakeSpecification

/-- The database's clock, and the uuid it generates for a job that is inserted. -/
structure Database where
  clock : Instant
  newId : JobSpecification → Uuid

/-- The enqueues of one source: how many jobs it inserts, or the statement that raises. -/
def enqueueAll (database : Database) : List JobSpecification → JobTable → Option (Nat × JobTable)
  | [], jobs => some (0, jobs)
  | specification :: specifications, jobs => do
    let (outcome, jobs) ← enqueueJob database.clock (database.newId specification) specification jobs
    let (inserted, jobs) ← enqueueAll database specifications jobs
    some (inserted + if outcome.inserted then 1 else 0, jobs)

/-- One scheduler pass of this source; a pass that raises is rolled back. -/
def schedulerPass (database : Database) (now : Micros) (t : WakeTables) : Nat × WakeTables :=
  match enqueueAll database (sequenceActionSource clock now t) t.jobs with
  | some (inserted, jobs) => (inserted, { t with jobs })
  | none => (0, t)

end Passes

end FoundingSales.Sequences
