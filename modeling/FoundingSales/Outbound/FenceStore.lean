import FoundingSales.Library.Processes
import FoundingSales.Library.Tables
import FoundingSales.Outbound.FenceRow

/-!
The tables the fence functions write, and their statements. Beside the rows the store
keeps a history: which process moved which fence, wrote which ledger row, and called
Gmail for which fence. No statement reads it.

A statement the database or the network fails ends the program with nothing written, as a
death before it does; so the checks on the shape of text columns need no model.
-/

namespace FoundingSales.Outbound

open Processes Tables Rules

abbrev ProcessId := Nat

inductive DetailValue
  | text (value : JsString)
  | instant (value : Instant)
  deriving DecidableEq

abbrev Detail := List (String × DetailValue)

/-- One row of `outbound_message_events`. -/
structure FenceEvent where
  outboundMessageId : Uuid
  sequenceNumber : Nat
  fromState : Option OutboundState
  toState : OutboundState
  attemptToken : Option Uuid
  actor : JsString
  detail : Detail
  deriving DecidableEq

inductive Note
  | moved (p : ProcessId) (id : Uuid) (source : Option OutboundState) (target : OutboundState)
  | logged (p : ProcessId) (id : Uuid)
  | called (p : ProcessId) (id : Uuid)
  deriving DecidableEq

abbrev FenceTable := Table Fence.id

structure Store where
  messages : FenceTable
  events : List FenceEvent
  /-- Newest first. -/
  history : List Note

def Store.empty : Store := ⟨.empty, [], []⟩

/-! ## What the outside answers -/

structure TemplateVersion where
  contentHash : JsString
  approved : Bool
  deriving DecidableEq, Inhabited

structure PlannedMailbox where
  id : Uuid
  generation : Nat
  providerAccountId : JsString
  ownerUserId : Uuid
  address : JsString
  deriving DecidableEq, Inhabited

/-- What `decideSend` accepts with. -/
structure SendPlan where
  mailbox : PlannedMailbox
  cap : Nat
  businessDate : BusinessDate
  release : JsString
  deriving DecidableEq, Inhabited

inductive AccessAnswer
  | granted
  | providerIncident
  | refused (reason : JsString)
  deriving DecidableEq, Inhabited

inductive SendAnswer
  | sent (messageId threadId : JsString)
  | refused (reason : JsString)
  | indeterminate (detail : JsString)
  deriving DecidableEq, Inhabited

inductive SearchAnswer
  | found (messageId threadId : JsString)
  | absent
  | failed (reason : JsString)
  | threw
  deriving DecidableEq, Inhabited

inductive PermissionScope
  | singleEmail | contextualReply | bookingCommunications | agreedSequence | routineReply
  deriving DecidableEq

/-- The scopes that buy one message. -/
def PermissionScope.oneMessage : PermissionScope → Bool
  | singleEmail | contextualReply | routineReply => true
  | bookingCommunications | agreedSequence => false

/-- Everything a statement may learn from elsewhere: clocks, the other tables, Gmail. -/
structure Env where
  /-- `now()` -/
  now : Instant
  /-- `clock_timestamp()` -/
  clock : Instant
  /-- the process's own clock -/
  processNow : Instant
  /-- `gen_random_uuid()` -/
  uuid : Uuid
  primarySendingDomain : Option JsString
  template : Option TemplateVersion
  mailbox : Option MailboxRow
  routeVersion : Option Nat
  /-- the refusal of `reserveOutreachEmail` -/
  touchRefusal : Option JsString
  /-- `decideSend` -/
  gate : SendResult SendPlan
  /-- `accessForMailbox` -/
  access : AccessAnswer
  humanReplyApprovalIsLive : Bool
  permission : Option PermissionScope
  directSendWithinQuietWindow : Bool
  notYetDue : Bool
  campaignOpeningVerified : Bool
  /-- `footerSourceFor`: the sign-off and the addresses -/
  footerSource : Option SendFooterConfiguration
  /-- the refusal of `verifyMeetingFence` -/
  meetingRefusal : Option JsString
  /-- `prospectingRetryAt`, asked for prospecting steps only -/
  pacingRetryAt : Option Instant
  /-- the refusal of the threading lookups -/
  threadingRefusal : Option JsString
  /-- `countAutomatedSend` -/
  reserved : Bool
  consumeFollowUpPermission : Bool
  permissionStillLive : Bool
  markMeetingDraftSubmitted : Bool
  consumeHumanReplyApproval : Bool
  /-- the retry instant a provider incident names -/
  retryAt : Option Instant
  sendAnswer : SendAnswer
  actionRequired : Bool
  /-- the latest retry instant of the incidents that wait -/
  waitUntil : Option Instant
  searchAnswer : SearchAnswer
  deriving DecidableEq, Inhabited

abbrev FenceProg := Prog ProcessId Env Store

/-- Statements on other tables: nothing here changes, but the process may die at them. -/
def elsewhere : FenceProg Unit := Prog.ask fun _ _ => ()

/-- What a read of other tables answers. -/
def answer {α : Type} (read : Env → α) : FenceProg α := Prog.ask fun e _ => read e

/-! ## Statements on the fences -/

def readFence (id : Uuid) : FenceProg (Option Fence) := Prog.ask fun _ s => s.messages.find? id

def readFenceByStepExecution (stepExecutionId : Uuid) : FenceProg (Option Fence) :=
  Prog.ask fun _ s => s.messages.rows.find? fun row => row.stepExecutionId = some stepExecutionId

def readFenceByDraftId (draftId : Uuid) : FenceProg (Option Fence) :=
  Prog.ask fun _ s => s.messages.rows.find? fun row => row.draftId = some draftId

/-- `UPDATE outbound_messages SET … WHERE id = $2 AND … RETURNING …`. `note` says what the
history records of the row before and after. -/
def updateFence (id : Uuid) (guard : Env → Fence → Bool) (set : Env → Fence → Fence)
    (note : ProcessId → Fence → Fence → List Note) : FenceProg (Option Fence) :=
  .stmt (fun p e s =>
    match s.messages.find? id with
    | none => some (none, s)
    | some row =>
      if guard e row then
        if assertOutboundTransition row (set e row) && rowChecks (set e row) then
          some (some (set e row), { s with
            messages := s.messages.put (set e row)
            history := note p row (set e row) ++ s.history })
        else none
      else some (none, s)) .ret

/-- An update that is a transition, and owes a ledger row. -/
def transition (id : Uuid) (guard : Env → Fence → Bool) (set : Env → Fence → Fence) :
    FenceProg (Option Fence) :=
  updateFence id guard set fun p old new => [.moved p id (some old.state) new.state]

/-- What an INSERT does when another row has one of its unique keys. -/
inductive OnConflict
  | raise | stepExecutionDoNothing | doNothing
  deriving DecidableEq

def insertFence (P : Platform) (conflict : OnConflict) (values : Env → Fence) :
    FenceProg (Option Fence) :=
  .stmt (fun p e s =>
    let row := values e
    if headerShape P row.providerMessageIdHeader && rowChecks row then
      if conflict = .stepExecutionDoNothing &&
          s.messages.rows.any fun other =>
            row.stepExecutionId.isSome && row.stepExecutionId = other.stepExecutionId then
        some (none, s)
      else if s.messages.rows.any (sharesUniqueKey row) then
        if conflict = .doNothing then some (none, s) else none
      else
        match s.messages.insert? row with
        | none => if conflict = .doNothing then some (none, s) else none
        | some messages =>
          some (some row, { s with
            messages := messages
            history := .moved p row.id none row.state :: s.history })
    else none) .ret

/-- The ledger rows of one fence, oldest first. -/
def Store.eventsOf (s : Store) (id : Uuid) : List FenceEvent :=
  s.events.filter fun event => event.outboundMessageId = id

/-- `coalesce(max(sequence_number), 0) + 1` -/
def Store.nextSequenceNumber (s : Store) (id : Uuid) : Nat :=
  ((s.eventsOf id).map FenceEvent.sequenceNumber).foldr max 0 + 1

structure AppendEvent where
  outboundMessageId : Uuid
  fromState : Option OutboundState
  toState : OutboundState
  attemptToken : Option Uuid
  actor : JsString
  detail : Detail
  deriving DecidableEq

def Store.withEvent (s : Store) (input : AppendEvent) : Store :=
  { s with events := s.events ++ [{
      outboundMessageId := input.outboundMessageId
      sequenceNumber := s.nextSequenceNumber input.outboundMessageId
      fromState := input.fromState
      toState := input.toState
      attemptToken := input.attemptToken
      actor := input.actor
      detail := input.detail }] }

/-- The ledger write every transition makes. -/
def appendEvent (input : AppendEvent) : FenceProg Unit :=
  Prog.effect fun p _ s =>
    ((), { s.withEvent input with history := .logged p input.outboundMessageId :: s.history })

end FoundingSales.Outbound
