import FoundingSales.Library.Tables
import FoundingSales.Rules.Holds
import FoundingSales.Sequences.Enrollments

/-!
The holds of `active_holds`, and which of them apply to a step.
-/

namespace FoundingSales.Sequences

open Tables Rules

inductive HoldScopeKind
  | workspace | owner | mailbox | firm | opportunity | enrollment | channel
  deriving DecidableEq

structure ActiveHold where
  workspaceId : Uuid
  id : Uuid
  scopeKind : HoldScopeKind
  scopeKey : Option JsString
  reasonCode : JsString
  blockedActionKinds : List BlockedActionKind
  sourceEventKind : JsString
  sourceEventId : Option JsString
  startedAt : Micros
  releasedAt : Option Micros
  deriving DecidableEq

def ActiveHold.key (hold : ActiveHold) : Uuid × Uuid := (hold.workspaceId, hold.id)

abbrev HoldTable := Table ActiveHold.key

/-- What a hold is matched against; a column that is `NULL` matches no hold. -/
structure HoldSubject where
  workspaceId : Uuid
  firmId : JsString
  opportunityId : Option JsString
  ownerUserId : JsString
  mailboxId : Option JsString
  enrollmentId : JsString
  channelKey : JsString
  actionKinds : List BlockedActionKind
  deriving DecidableEq

/-- The key a scope is matched on. -/
def HoldSubject.scopeKey (subject : HoldSubject) : HoldScopeKind → Option JsString
  | .workspace => none
  | .firm => some subject.firmId
  | .opportunity => subject.opportunityId
  | .owner => some subject.ownerUserId
  | .mailbox => subject.mailboxId
  | .enrollment => some subject.enrollmentId
  | .channel => some subject.channelKey

/-- `holdAppliesSql` -/
def holdApplies (hold : ActiveHold) (subject : HoldSubject) : Bool :=
  hold.workspaceId = subject.workspaceId &&
    hold.blockedActionKinds.any (· ∈ subject.actionKinds) &&
    (hold.scopeKind = .workspace ||
      (subject.scopeKey hold.scopeKind).any fun key => hold.scopeKey = some key)

/-- `CHANNEL_ACTION_KINDS` -/
def StepChannel.actionKind : StepChannel → BlockedActionKind
  | email => .emailSend
  | callTask => .callTask

/-- `CHANNEL_PAUSE_KEYS` -/
def StepChannel.pauseKey : StepChannel → JsString
  | email => js "email"
  | callTask => js "call"

/-- The step of an enrollment, as a hold subject: `mailboxId` is the owner's. -/
def executionSubject (workspaceId : Uuid) (mailboxId : Option Uuid) (enrollment : EnrollmentRow)
    (execution : StepExecutionRow) : HoldSubject where
  workspaceId := workspaceId
  firmId := enrollment.firmId
  opportunityId := enrollment.opportunityId
  ownerUserId := enrollment.assignedUserId
  mailboxId := mailboxId
  enrollmentId := enrollment.id
  channelKey := execution.channel.pauseKey
  actionKinds := [execution.channel.actionKind, .enrollmentAdvance]

end FoundingSales.Sequences
