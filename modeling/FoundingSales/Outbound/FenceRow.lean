import FoundingSales.Outbound.Types
import FoundingSales.Rules.TemplateFooter

/-!
One row of `outbound_messages`, the conditions the table states on it, and the rows the
INSERT statements of `fence.ts` write. Columns nothing reads back (`created_at`,
`updated_at`) are left out, and so is the workspace: every statement is scoped to one.
-/

namespace FoundingSales.Outbound

open Contracts Rules

inductive OriginKind
  | stepExecution | draft | standingBooking
  deriving DecidableEq

inductive AdminResolution
  | delivered | skipped
  deriving DecidableEq

structure Fence where
  id : Uuid
  mailboxId : Uuid
  state : OutboundState
  originKind : OriginKind
  enrollmentId : Option Uuid
  stepExecutionId : Option Uuid
  draftId : Option Uuid
  firmId : Uuid
  contactId : Option Uuid
  opportunityId : Option Uuid
  recipientAddress : JsString
  recipientRouteId : Option Uuid
  recipientRouteVersion : Option Nat
  subject : JsString
  body : JsString
  templateVersionId : Option Uuid
  renderedHash : JsString
  providerMessageIdHeader : JsString
  sendAt : Instant
  sourceZone : JsString
  placementRuleVersion : JsString
  attemptToken : Option Uuid
  dispatchStartedAt : Option Instant
  sentAt : Option Instant
  providerMessageId : Option JsString
  providerThreadId : Option JsString
  reconcileStartedAt : Option Instant
  reconcileDeadlineAt : Option Instant
  reconcileAttempts : Nat
  reconcileLastAttemptAt : Option Instant
  heldReason : Option JsString
  heldAt : Option Instant
  unknownTerminalAt : Option Instant
  adminResolution : Option AdminResolution
  adminResolvedAt : Option Instant
  adminResolvedByUserId : Option Uuid
  businessDate : Option BusinessDate
  deriving DecidableEq

/-- `createHash('sha256').update(subject + '\n\n' + body)` -/
def renderedHash (P : Platform) (subject body : JsString) : JsString :=
  P.sha256 (subject ++ [newline, newline] ++ body)

/-! ## What the table checks -/

/-- `length(text)`: characters, so a surrogate pair counts once. -/
def charLength (text : JsString) : Nat := text.countP fun c => ¬ (0xDC00 ≤ c ∧ c ≤ 0xDFFF)

/-- `outbound_messages_header_shape`: `^<[^<>[:space:]@]+@[^<>[:space:]@]+>$` within 200
characters. -/
def headerShape (P : Platform) (header : JsString) : Bool :=
  let inner := fun c => c ≠ 60 && c ≠ 62 && c ≠ atSign && !P.isSqlSpace c
  let localPart := (header.drop 1).takeWhile (· != atSign)
  let domain := ((header.drop 1).drop (localPart.length + 1)).dropLast
  header = 60 :: localPart ++ atSign :: domain ++ [62] && localPart ≠ [] && domain ≠ [] &&
    localPart.all inner && domain.all inner && charLength header ≤ 200

/-- The CHECK constraints between columns. The shapes of the text columns are left to the
statement's right to fail. -/
def rowChecks (row : Fence) : Bool :=
  (row.stepExecutionId.isSome != row.draftId.isSome) &&
  ((row.originKind == .stepExecution) == row.stepExecutionId.isSome) &&
  (row.enrollmentId.isNone || row.stepExecutionId.isSome) &&
  (row.recipientRouteId.isNone == row.recipientRouteVersion.isNone) &&
  (row.attemptToken.isNone == row.dispatchStartedAt.isNone) &&
  (row.state.started == row.attemptToken.isSome) &&
  ((row.state == .sent) == row.sentAt.isSome) &&
  (row.state != .sent || row.providerMessageId.isSome) &&
  ((row.state == .held) == row.heldAt.isSome) &&
  (row.heldAt.isNone == row.heldReason.isNone) &&
  (row.reconcileStartedAt.isNone == row.reconcileDeadlineAt.isNone) &&
  (match row.reconcileStartedAt, row.reconcileDeadlineAt with
    | some startedAt, some deadline => decide (startedAt < deadline)
    | _, _ => true) &&
  ((row.state == .unknownTerminal) == row.unknownTerminalAt.isSome) &&
  (row.adminResolution.isNone || row.state == .unknownTerminal) &&
  (row.adminResolution.isSome == row.adminResolvedAt.isSome) &&
  (row.adminResolution.isSome == row.adminResolvedByUserId.isSome)

/-- The edges of the state machine. -/
def allowedEdge : OutboundState → OutboundState → Bool
  | .prepared, .dispatching | .prepared, .held | .held, .prepared
  | .dispatching, .reconciling | .dispatching, .sent
  | .reconciling, .sent | .reconciling, .unknownTerminal => true
  | _, _ => false

/-- The columns the trigger freezes once a token exists. -/
def sameEnvelope (old new : Fence) : Bool :=
  new.mailboxId = old.mailboxId && new.originKind = old.originKind &&
  new.enrollmentId = old.enrollmentId && new.stepExecutionId = old.stepExecutionId &&
  new.draftId = old.draftId && new.firmId = old.firmId && new.contactId = old.contactId &&
  new.opportunityId = old.opportunityId && new.recipientAddress = old.recipientAddress &&
  new.recipientRouteId = old.recipientRouteId &&
  new.recipientRouteVersion = old.recipientRouteVersion && new.subject = old.subject &&
  new.body = old.body && new.templateVersionId = old.templateVersionId &&
  new.renderedHash = old.renderedHash &&
  new.providerMessageIdHeader = old.providerMessageIdHeader && new.sendAt = old.sendAt &&
  new.sourceZone = old.sourceZone

/-- The trigger `assert_outbound_transition`: whether it lets the update through. -/
def assertOutboundTransition (old new : Fence) : Bool :=
  (new.state = old.state || allowedEdge old.state new.state) &&
  (old.attemptToken.isNone || new.attemptToken = old.attemptToken) &&
  (old.dispatchStartedAt.isNone || new.dispatchStartedAt = old.dispatchStartedAt) &&
  (old.attemptToken.isNone || sameEnvelope old new)

/-- Two rows no table may hold together: one fence per step execution, one per draft, one
header per mailbox. -/
def sharesUniqueKey (row other : Fence) : Bool :=
  (row.stepExecutionId.isSome && row.stepExecutionId = other.stepExecutionId) ||
  (row.draftId.isSome && row.draftId = other.draftId) ||
  (row.mailboxId = other.mailboxId
    && row.providerMessageIdHeader = other.providerMessageIdHeader)

/-! ## The rows the INSERT statements write -/

/-- A `prepared` row: the columns an INSERT leaves to their defaults are null. -/
def newFence (id mailboxId firmId recipientAddress subject body header sourceZone
    placementRuleVersion hash : JsString) (originKind : OriginKind) (sendAt : Instant) : Fence where
  id := id
  mailboxId := mailboxId
  state := .prepared
  originKind := originKind
  enrollmentId := none
  stepExecutionId := none
  draftId := none
  firmId := firmId
  contactId := none
  opportunityId := none
  recipientAddress := recipientAddress
  recipientRouteId := none
  recipientRouteVersion := none
  subject := subject
  body := body
  templateVersionId := none
  renderedHash := hash
  providerMessageIdHeader := header
  sendAt := sendAt
  sourceZone := sourceZone
  placementRuleVersion := placementRuleVersion
  attemptToken := none
  dispatchStartedAt := none
  sentAt := none
  providerMessageId := none
  providerThreadId := none
  reconcileStartedAt := none
  reconcileDeadlineAt := none
  reconcileAttempts := 0
  reconcileLastAttemptAt := none
  heldReason := none
  heldAt := none
  unknownTerminalAt := none
  adminResolution := none
  adminResolvedAt := none
  adminResolvedByUserId := none
  businessDate := none

structure HumanReplyInput where
  draftId : Uuid
  mailboxId : Uuid
  firmId : Uuid
  contactId : Uuid
  opportunityId : Option Uuid
  address : JsString
  routeId : Uuid
  routeVersion : Nat
  subject : JsString
  body : JsString
  sourceZone : JsString
  deriving DecidableEq, Inhabited

/-- The row of `prepareHumanReplyFence`. `domain` is the workspace's primary domain. -/
def humanReplyFence (P : Platform) (input : HumanReplyInput) (id domain : JsString)
    (now : Instant) : Fence :=
  { newFence id input.mailboxId input.firmId input.address input.subject input.body
      (deterministicHumanReplyMessageId input.draftId id domain) input.sourceZone
      (js "human-reply.1") (renderedHash P input.subject input.body) .draft now with
    draftId := some input.draftId
    contactId := some input.contactId
    opportunityId := input.opportunityId
    recipientRouteId := some input.routeId
    recipientRouteVersion := some input.routeVersion }

structure OutboundEmailRequest where
  enrollmentId : Option Uuid
  stepExecutionId : Uuid
  opportunityId : Option Uuid
  firmId : Uuid
  contactId : Option Uuid
  ownerUserId : Uuid
  templateVersionId : Uuid
  templateContentHash : JsString
  emailAddressId : Option Uuid
  toAddress : JsString
  subject : JsString
  body : JsString
  sendAt : Instant
  sourceZone : JsString
  ruleVersion : Option JsString
  businessDate : BusinessDate
  deriving DecidableEq

structure MailboxRow where
  id : Uuid
  connected : Bool
  emailAddress : JsString
  deriving DecidableEq, Inhabited

/-- The row of `prepareOutboundMessage`: the header's domain is the mailbox's own. -/
def stepFence (P : Platform) (request : OutboundEmailRequest) (mailbox : MailboxRow)
    (routeVersion : Option Nat) (id : Uuid) : Fence :=
  { newFence id mailbox.id request.firmId (P.toLowerCase request.toAddress) request.subject
      request.body (deterministicMessageId id (afterLastAt mailbox.emailAddress))
      request.sourceZone (request.ruleVersion.getD placementRuleVersion)
      (renderedHash P request.subject request.body) .stepExecution request.sendAt with
    enrollmentId := request.enrollmentId
    stepExecutionId := some request.stepExecutionId
    opportunityId := request.opportunityId
    contactId := request.contactId
    recipientRouteId := request.emailAddressId
    recipientRouteVersion := routeVersion
    templateVersionId := some request.templateVersionId
    businessDate := some request.businessDate }

/-! ## Tombstones -/

def sentTombstoneProvenance : JsString := js "sent_folder_missing_fence"

def sentFolderPreDispatchProvenance : JsString := js "sent_folder_pre_dispatch_fence"

def sentTombstoneRuleVersion : JsString := js "restore-tombstone.1"

def sentTombstoneBody : JsString :=
  js "Recovered from the mailbox Sent folder after a database restore (Appendix E step 3). The body was not copied."

def sentTombstoneFallbackSubject : JsString := js "(recovered from the Sent folder)"

/-- `text.replace(/\s+/gu, ' ')`, within a run of white space or not. -/
def collapseSpaces : Bool → JsString → JsString
  | _, [] => []
  | inRun, c :: rest =>
    if isSpace c then
      if inRun then collapseSpaces true rest else 0x20 :: collapseSpaces true rest
    else c :: collapseSpaces false rest

def tombstoneSubject (P : Platform) (subject : Option JsString) : JsString :=
  let flattened := trim ((trim (collapseSpaces false (subject.getD []))).take 160)
  if flattened = [] || hasOptOutLink P flattened then sentTombstoneFallbackSubject else flattened

/-- What a tombstone is the send of. -/
inductive TombstoneOrigin
  | step (enrollmentId stepExecutionId opportunityId : Uuid)
  | humanReply (draftId : Uuid) (opportunityId : Option Uuid)
  deriving DecidableEq

structure SentTombstoneInput where
  fenceId : Uuid
  mailboxId : Uuid
  origin : TombstoneOrigin
  firmId : Uuid
  contactId : Uuid
  recipientAddress : JsString
  recipientRouteId : Option Uuid
  recipientRouteVersion : Option Nat
  subject : Option JsString
  rfcMessageId : JsString
  providerMessageId : JsString
  providerThreadId : JsString
  sentAt : Instant
  businessDate : BusinessDate
  actor : Option JsString
  deriving DecidableEq

/-- The row of `insertSentTombstone`: already `sent`, with a token nobody will present. -/
def tombstoneFence (P : Platform) (input : SentTombstoneInput) (token : Uuid) : Fence :=
  let subject := tombstoneSubject P input.subject
  let row := newFence input.fenceId input.mailboxId input.firmId
    (P.toLowerCase input.recipientAddress) subject sentTombstoneBody input.rfcMessageId
    (js "UTC") sentTombstoneRuleVersion (renderedHash P subject sentTombstoneBody)
    .stepExecution input.sentAt
  let sentRow := { row with
    state := .sent
    contactId := some input.contactId
    recipientRouteId := input.recipientRouteId
    recipientRouteVersion := input.recipientRouteVersion
    attemptToken := some token
    dispatchStartedAt := some input.sentAt
    sentAt := some input.sentAt
    providerMessageId := some input.providerMessageId
    providerThreadId := some input.providerThreadId
    businessDate := some input.businessDate }
  match input.origin with
  | .step enrollmentId stepExecutionId opportunityId =>
    { sentRow with
      enrollmentId := some enrollmentId
      stepExecutionId := some stepExecutionId
      opportunityId := some opportunityId }
  | .humanReply draftId opportunityId =>
    { sentRow with originKind := .draft, draftId := some draftId, opportunityId := opportunityId }

theorem tombstoneFence_state {P : Platform} {input : SentTombstoneInput} {token : Uuid} :
    (tombstoneFence P input token).state = .sent := by
  unfold tombstoneFence
  cases input.origin <;> rfl

theorem tombstoneFence_token {P : Platform} {input : SentTombstoneInput} {token : Uuid} :
    (tombstoneFence P input token).attemptToken = some token := by
  unfold tombstoneFence
  cases input.origin <;> rfl

end FoundingSales.Outbound
