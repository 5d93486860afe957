import FoundingSales.Text
import FoundingSales.Library.Tables

/-!
Enrollments and their step executions, and the terminal stop. A stop first locks the live
enrollments it names and the unfinished executions it cancels, then writes both; the two
halves are kept apart because a transaction writes what it locked.

Proved here:
* `TerminalStop.ends`: a stop ends what it locked;
* `Continues`: enrollments stay, and an ended one stays ended, through every stop.
-/

namespace FoundingSales.Sequences

open Tables

/-- Microseconds since the epoch, as `timestamptz` keeps them. -/
abbrev Micros := Int

inductive StepChannel
  | email | callTask
  deriving DecidableEq

inductive EnrollmentOriginKind
  | prospecting | followUp | coldLegacy
  deriving DecidableEq

inductive EnrollmentState
  | active | completed | stopped
  deriving DecidableEq

inductive EnrollmentEndReason
  | humanReply | engagedCall | optOut | firmSuppressed | stageWon | stageLost | directSend
  | sendSkipped | reassignment | sequenceComplete | adminStop | supersededByFollowUp
  | migrationSuperseded
  deriving DecidableEq

def EnrollmentEndReason.text : EnrollmentEndReason → JsString
  | humanReply => js "human_reply"
  | engagedCall => js "engaged_call"
  | optOut => js "opt_out"
  | firmSuppressed => js "firm_suppressed"
  | stageWon => js "stage_won"
  | stageLost => js "stage_lost"
  | directSend => js "direct_send"
  | sendSkipped => js "send_skipped"
  | reassignment => js "reassignment"
  | sequenceComplete => js "sequence_complete"
  | adminStop => js "admin_stop"
  | supersededByFollowUp => js "superseded_by_follow_up"
  | migrationSuperseded => js "migration_superseded"

/-- A row of `sequence_enrollments`. -/
structure EnrollmentRow where
  id : Uuid
  sequenceVersionId : Uuid
  opportunityId : Option Uuid
  firmId : Uuid
  contactId : Uuid
  assignedUserId : Uuid
  originKind : EnrollmentOriginKind
  outreachPlanId : Option Uuid
  state : EnrollmentState
  startedAt : Micros
  endedAt : Option Micros
  endReason : Option EnrollmentEndReason
  deriving DecidableEq

inductive ExecutionState
  | pending | held | dispatched | completed | cancelled
  deriving DecidableEq

inductive StepCompletionSource
  | callLog | send | admin | system
  deriving DecidableEq

inductive StepResult
  | sent | skipped | noEmail | voicemailLeft | noAnswer | busy | connected | notApplicable
  deriving DecidableEq

/-- A row of `step_executions`. -/
structure StepExecutionRow where
  id : Uuid
  enrollmentId : Uuid
  stepId : Uuid
  firmId : Uuid
  contactId : Uuid
  channel : StepChannel
  ordinal : Nat
  state : ExecutionState
  dueAt : Micros
  notBefore : Micros
  originalDueAt : Micros
  holdReasonCode : Option JsString
  completionSource : Option StepCompletionSource
  result : Option StepResult
  completedAt : Option Micros
  cancelledAt : Option Micros
  cancelReason : Option JsString
  createdAt : Micros
  updatedAt : Micros
  deriving DecidableEq

/-- `state IN ('pending', 'held')` -/
def StepExecutionRow.unclaimed (row : StepExecutionRow) : Bool :=
  row.state = .pending || row.state = .held

structure SequenceTables where
  enrollments : Table EnrollmentRow.id
  executions : Table StepExecutionRow.id

/-- Which enrollments a stop names, and what it records. -/
structure StopEnrollmentsInput where
  firmId : Option Uuid
  opportunityId : Option Uuid
  enrollmentId : Option Uuid
  enrollmentIds : Option (List Uuid)
  reason : EnrollmentEndReason
  cancelReason : Option JsString

/-- Without a name the code throws a `TypeError`. -/
def StopEnrollmentsInput.names (input : StopEnrollmentsInput) : Bool :=
  input.firmId.isSome || input.opportunityId.isSome || input.enrollmentId.isSome
    || input.enrollmentIds.isSome

def StopEnrollmentsInput.covers (input : StopEnrollmentsInput) (row : EnrollmentRow) : Bool :=
  row.endedAt.isNone &&
  input.firmId.all (· = row.firmId) &&
  input.opportunityId.all (some · = row.opportunityId) &&
  input.enrollmentId.all (· = row.id) &&
  input.enrollmentIds.all (row.id ∈ ·)

/-- A stop: the rows it holds locked, and what it writes into them. -/
structure TerminalStop where
  enrollmentIds : List Uuid
  executionIds : List Uuid
  reason : EnrollmentEndReason
  cancelReason : JsString
  now : Micros

/-- The `SELECT … FOR UPDATE` of the live enrollments, and the executions it leads to. -/
def lockStop (t : SequenceTables) (input : StopEnrollmentsInput) (now : Micros) : TerminalStop :=
  let enrollmentIds := (t.enrollments.rows.filter input.covers).map EnrollmentRow.id
  { enrollmentIds
    executionIds := (t.executions.rows.filter fun row =>
      row.enrollmentId ∈ enrollmentIds && row.unclaimed).map StepExecutionRow.id
    reason := input.reason
    cancelReason := input.cancelReason.getD input.reason.text
    now }

def TerminalStop.cancelRow (stop : TerminalStop) (row : StepExecutionRow) : StepExecutionRow :=
  { row with
    state := .cancelled, cancelledAt := some stop.now, cancelReason := some stop.cancelReason
    holdReasonCode := none, updatedAt := stop.now }

/-- The row with its end written. -/
def EnrollmentRow.finish (row : EnrollmentRow) (state : EnrollmentState)
    (reason : EnrollmentEndReason) (now : Micros) : EnrollmentRow :=
  { row with state, endedAt := some now, endReason := some reason }

def TerminalStop.endRow (stop : TerminalStop) (row : EnrollmentRow) : EnrollmentRow :=
  row.finish .stopped stop.reason stop.now

/-- The two UPDATEs of a stop. -/
def TerminalStop.write (stop : TerminalStop) (t : SequenceTables) : SequenceTables where
  executions := t.executions.update (fun row => row.id ∈ stop.executionIds && row.unclaimed)
    stop.cancelRow fun _ => rfl
  enrollments := t.enrollments.update
    (fun row => row.id ∈ stop.enrollmentIds && row.endedAt.isNone) stop.endRow fun _ => rfl

/-- `stopEnrollments`, when it can lock its rows at once: the tables and the ids it stopped. -/
def stopEnrollments (t : SequenceTables) (input : StopEnrollmentsInput) (now : Micros) :
    Option (SequenceTables × List Uuid) :=
  if input.names then
    let stop := lockStop t input now
    some (stop.write t, stop.enrollmentIds)
  else none

/-! ## Ended enrollments -/

/-- The enrollment is there and has ended. -/
def Ended (t : SequenceTables) (id : Uuid) : Prop :=
  ∃ row, t.enrollments.find? id = some row ∧ row.endedAt.isSome

/-- Enrollments are never removed, and none that has ended lives again. -/
structure Continues (t t' : SequenceTables) : Prop where
  present : ∀ id, (t.enrollments.find? id).isSome → (t'.enrollments.find? id).isSome
  ended : ∀ id, Ended t id → Ended t' id

theorem Continues.refl (t : SequenceTables) : Continues t t := ⟨fun _ h => h, fun _ h => h⟩

theorem Continues.trans {a b c : SequenceTables} (hab : Continues a b) (hbc : Continues b c) :
    Continues a c :=
  ⟨fun id h => hbc.present id (hab.present id h), fun id h => hbc.ended id (hab.ended id h)⟩

theorem TerminalStop.find?_write (stop : TerminalStop) (t : SequenceTables) (id : Uuid) :
    (stop.write t).enrollments.find? id
      = (t.enrollments.find? id).map fun row =>
          if row.id ∈ stop.enrollmentIds && row.endedAt.isNone then stop.endRow row else row := by
  have hkey : ∀ row, (stop.endRow row).id = row.id := fun _ => rfl
  show (t.enrollments.update _ stop.endRow hkey).find? id = _
  exact Table.find?_update

/-- An update that takes no end away. -/
theorem continues_of_find? {t t' : SequenceTables} (set : EnrollmentRow → EnrollmentRow)
    (hfind : ∀ id, t'.enrollments.find? id = (t.enrollments.find? id).map set)
    (hended : ∀ row, row.endedAt.isSome → (set row).endedAt.isSome) : Continues t t' := by
  constructor
  · intro id h
    rw [hfind, Option.isSome_map]
    exact h
  · rintro id ⟨row, hrow, hrowEnded⟩
    exact ⟨set row, by rw [hfind, hrow, Option.map_some], hended row hrowEnded⟩

theorem TerminalStop.continues (stop : TerminalStop) (t : SequenceTables) :
    Continues t (stop.write t) := by
  apply continues_of_find? _ fun id => stop.find?_write t id
  intro row hrow
  split
  · rfl
  · exact hrow

/-- What a stop locked is ended. -/
theorem TerminalStop.ends {stop : TerminalStop} {t : SequenceTables} {id : Uuid}
    (hlocked : id ∈ stop.enrollmentIds) (hpresent : (t.enrollments.find? id).isSome) :
    Ended (stop.write t) id := by
  obtain ⟨row, hrow⟩ := Option.isSome_iff_exists.1 hpresent
  have hid : row.id = id := Table.find?_key hrow
  by_cases hlive : row.endedAt.isNone
  · refine ⟨stop.endRow row, ?_, rfl⟩
    rw [stop.find?_write, hrow, Option.map_some, if_pos (by simp [hid, hlocked, hlive])]
  · apply (stop.continues t).ended
    refine ⟨row, hrow, ?_⟩
    cases hat : row.endedAt with
    | none => simp [hat] at hlive
    | some at' => rfl

/-- A stop that names a list of enrollments ends every one of them that is there. -/
theorem lockStop_ends {t : SequenceTables} {ids : List Uuid} {reason : EnrollmentEndReason}
    {cancelReason : Option JsString} {now : Micros} {id : Uuid} (hid : id ∈ ids)
    (hpresent : (t.enrollments.find? id).isSome) :
    Ended ((lockStop t ⟨none, none, none, some ids, reason, cancelReason⟩ now).write t) id := by
  obtain ⟨row, hrow⟩ := Option.isSome_iff_exists.1 hpresent
  have hkey : row.id = id := Table.find?_key hrow
  by_cases hlive : row.endedAt.isNone
  · apply TerminalStop.ends _ hpresent
    simp only [lockStop, List.mem_map, List.mem_filter]
    refine ⟨row, ⟨(Table.find?_eq_some.1 hrow).1, ?_⟩, hkey⟩
    simp [StopEnrollmentsInput.covers, hlive, hkey, hid]
  · apply (TerminalStop.continues _ t).ended
    refine ⟨row, hrow, ?_⟩
    cases hat : row.endedAt with
    | none => simp [hat] at hlive
    | some at' => rfl

end FoundingSales.Sequences
