import FoundingSales.Library.Transactions
import FoundingSales.Outbound.Ramp
import FoundingSales.Outbound.Send
import FoundingSales.Sequences.FollowUpPermissions

/-!
The day's capacity and the permission to write under concurrency: the transactions that
decide, reserve, claim and spend a send, the admin's cap changes, the restore, and the
writers of a follow-up permission, each a program of statements that any number of
processes run in any order. The rows are those of `mailbox_send_ramp`,
`mailbox_send_days`, `outbound_messages` and `follow_up_permissions`; what a statement
reads elsewhere the outside world answers.
-/

namespace FoundingSales.Outbound.Capacity

open Transactions Tables Sequences

/-! ## Rows -/

inductive Row
  | ramp (row : RampDbRow)
  | day (row : SendDay)
  | fence (row : Fence)
  | permission (row : FollowUpPermission)
  deriving DecidableEq

inductive RowKey
  | ramp (mailboxId : Uuid)
  | day (key : Uuid × BusinessDate)
  | fence (id : Uuid)
  | permission (id : Uuid)
  deriving DecidableEq

def Row.key : Row → RowKey
  | ramp row => .ramp row.mailboxId
  | day row => .day row.key
  | fence row => .fence row.id
  | permission row => .permission row.id

/-- The conditions of the four tables. -/
def Row.checks : Row → Bool
  | ramp row => rampChecks row
  | day row => sendDayChecks row
  | fence row => rowChecks row
  | permission row => permissionChecks row

/-- The same, less `mailbox_send_days_within_cap`. -/
def Row.checksButBackstop : Row → Bool
  | ramp row => rampChecks row
  | day row => sendDayBounds row
  | fence row => rowChecks row
  | permission row => permissionChecks row

def Row.ramp? : Row → Option RampDbRow
  | ramp row => some row
  | _ => none

def Row.day? : Row → Option SendDay
  | day row => some row
  | _ => none

def Row.fence? : Row → Option Fence
  | fence row => some row
  | _ => none

def Row.permission? : Row → Option FollowUpPermission
  | permission row => some row
  | _ => none

abbrev CapacityTable := Table Row.key

/-- `automated_sent`, zero when the day has no row. -/
def automatedSent (t : CapacityTable) (mailboxId : Uuid) (businessDate : BusinessDate) : Int :=
  (((t.find? (.day (mailboxId, businessDate))).bind Row.day?).map SendDay.automatedSent).getD 0

def Row.claimedOn (mailboxId : Uuid) (businessDate : BusinessDate) (row : Row) : Bool :=
  row.fence?.any fun fence => fence.mailboxId = mailboxId &&
    fence.businessDate = some businessDate && fence.attemptToken.isSome

/-- The fences whose dispatch began with that business date. -/
def claimedAutomatedSends (t : CapacityTable) (mailboxId : Uuid) (businessDate : BusinessDate) :
    Nat :=
  t.count (Row.claimedOn mailboxId businessDate)

/-! ## Programs -/

/-- What `decideSend` accepts with, as the claim reads it. -/
structure CapacityPlan where
  mailbox : PlannedMailbox
  ramp : RampRow
  cap : Int
  businessDate : BusinessDate
  deriving DecidableEq

inductive FooterAnswer
  | kept
  | rewritten (input : RewriteInput) (subject : JsString)
  | refused (reason : SendRefusalCode)
  deriving DecidableEq

/-- What the restore knows of a message without a fence, from the other tables. -/
structure TombstoneFacts where
  origin : TombstoneOrigin
  firmId : Uuid
  contactId : Uuid
  recipientAddress : JsString
  recipientRouteId : Option Uuid
  recipientRouteVersion : Option Nat
  businessDate : BusinessDate
  deriving DecidableEq

structure CapacityEnv where
  env : Env
  /-- the row of `mailboxes` -/
  mailbox : Option PlannedMailbox
  /-- what `decideSend` refuses for before it reads the ramp -/
  gateRefusal : Option (SendRefusalCode × Option JsString)
  /-- the epoch `assessInactivity` binds, if it binds one -/
  epochBound : Option Uuid
  /-- `readRecovery` -/
  recovery : Option SenderRecovery
  /-- the reasons of `readSenderReadiness` -/
  unready : Option JsString
  incident : Option (SendRefusalCode × Option JsString)
  /-- `businessDateOf` the decision instant -/
  businessDate : BusinessDate
  /-- the due follow-ups a prospecting send leaves room for -/
  waiting : Option Int
  footer : FooterAnswer
  /-- the permission of the fence's enrollment -/
  permissionId : Option Uuid
  /-- what the caller of a permission's writer decides from other tables -/
  permitted : Bool
  mailboxExists : Bool
  healthyStreak : Int
  /-- a human reply the restore cannot attach -/
  humanReplyUnresolved : Bool
  verifiedBytes : Option (JsString × JsString)
  tombstone : Option TombstoneFacts

/-- What a commit was for. No statement reads it. -/
inductive CapacityNote
  | quiet
  | claimed (plan : CapacityPlan) (permission : Option FollowUpPermission)
  | restored (mailboxId : Uuid) (businessDate : Option BusinessDate)
  deriving DecidableEq

abbrev CapacityTx := Tx Row.key CapacityEnv CapacityNote

def answer {α : Type} (read : CapacityEnv → α) : CapacityTx α := Tx.answer read

/-- Write a row under the key the statement names. -/
def writes {β : Type} {k : RowKey} (row : Row) (b : β) : Option (β × Effect Row.key k) :=
  if h : row.key = k then some (b, .write row h) else none

/-! ## Statements -/

def upsertRamp (mailboxId : Uuid) : CapacityTx RampDbRow :=
  .stmt (.ramp mailboxId) (fun _ _ found =>
    let row := (found.bind fun r => r.1.ramp?).getD (newRamp mailboxId)
    writes (.ramp row) row) .ret

/-- The ramp row is locked, and bound to the epoch in force. -/
def assessInactivity (mailboxId : Uuid) : CapacityTx Unit :=
  .stmt (.ramp mailboxId) (fun e _ found =>
    match found.bind (fun r => r.1.ramp?), e.epochBound with
    | none, _ => some ((), .pass)
    | some _, none => some ((), .lock)
    | some row, some epochId => writes (.ramp { row with recoveryEpochId := some epochId }) ())
    .ret

/-- Outside a transaction each statement commits. -/
def settle (inTransaction : Bool) : CapacityTx Unit :=
  if inTransaction then pure () else Tx.commits .quiet

def ensureRamp (inTransaction : Bool) (mailboxId : Uuid) : CapacityTx RampRow := do
  let row ← upsertRamp mailboxId
  settle inTransaction
  assessInactivity mailboxId
  settle inTransaction
  let recovery ← answer CapacityEnv.recovery
  return { row with recovery := recovery }

def openSendDay (inTransaction : Bool) (mailboxId : Uuid) (businessDate : BusinessDate)
    (cap : Int) : CapacityTx SendDay := do
  let recovery ← answer CapacityEnv.recovery
  let day ← .stmt (.day (mailboxId, businessDate)) (fun _ _ found =>
    let row := newSendDay mailboxId businessDate cap recovery
    let day := grantCap (found.bind fun r => r.1.day?) row
    if sendDayChecks row then writes (.day day) day else none) .ret
  settle inTransaction
  return day

def countAutomatedSend (mailboxId : Uuid) (businessDate : BusinessDate) (cap : Int) :
    CapacityTx Bool :=
  .stmt (.day (mailboxId, businessDate)) (fun _ _ found =>
    match found.bind fun r => r.1.day? with
    | some day =>
      if day.automatedSent < cap then writes (.day (countOne day)) true else some (false, .pass)
    | none => some (false, .pass)) .ret

/-- `SELECT … FOR UPDATE` -/
def lockFenceForClaim (id : Uuid) : CapacityTx (Option Fence) :=
  .stmt (.fence id) (fun _ _ found => some (found.bind fun r => r.1.fence?, .lock)) .ret

/-- `UPDATE outbound_messages SET … WHERE id = $2 AND … RETURNING …` -/
def updateFence (id : Uuid) (guard : Fence → Bool) (set : Env → Fence → Fence) :
    CapacityTx (Option Fence) :=
  .stmt (.fence id) (fun e _ found =>
    match found.bind fun r => r.1.fence? with
    | none => some (none, .pass)
    | some row =>
      if guard row then
        if assertOutboundTransition row (set e.env row) then
          writes (.fence (set e.env row)) (some (set e.env row))
        else none
      else some (none, .pass)) .ret

def insertFence (P : Platform) (conflict : OnConflict) (row : Fence) : CapacityTx (Option Fence) :=
  .stmt (.fence row.id) (fun _ t found =>
    let others := t.rows.filterMap Row.fence?
    if !headerShape P row.providerMessageIdHeader then none
    else if conflict = .stepExecutionDoNothing && others.any fun other =>
        row.stepExecutionId.isSome && row.stepExecutionId = other.stepExecutionId then
      some (none, .pass)
    else if found.isSome || others.any (sharesUniqueKey row) then
      if conflict = .doNothing then some (none, .pass) else none
    else writes (.fence row) (some row)) .ret

def readFence (id : Uuid) : CapacityTx (Option Fence) :=
  .read (fun _ t => (t.find? (.fence id)).bind Row.fence?) .ret

def holdFence (id : Uuid) (reason : JsString) : CapacityTx (Option Fence) :=
  updateFence id (fun row => row.state == .prepared) (holdSet reason)

def releaseFence (id : Uuid) : CapacityTx (Option Fence) :=
  updateFence id (fun row => row.state == .held) releaseSet

def claimForDispatch (id : Uuid) (businessDate : BusinessDate) : CapacityTx (Option Fence) :=
  updateFence id (fun row => row.state == .prepared) (claimSet (some businessDate))

/-- `UPDATE follow_up_permissions SET … WHERE id = $2 AND …`, with the one index a new
binding can meet. -/
def updatePermission (id : Uuid) (guard : Env → FollowUpPermission → Bool)
    (set : Env → FollowUpPermission → FollowUpPermission) :
    CapacityTx (Option FollowUpPermission) :=
  .stmt (.permission id) (fun e t found =>
    match found.bind fun r => r.1.permission? with
    | none => some (none, .pass)
    | some row =>
      if guard e.env row then
        let next := set e.env row
        if t.rows.any fun r => r.permission?.any fun other => other.id ≠ next.id &&
            next.enrollmentId.isSome && other.enrollmentId = next.enrollmentId then none
        else writes (.permission next) (some next)
      else some (none, .pass)) .ret

/-- `SELECT … FOR UPDATE OF p` -/
def lockPermissionForClaim : CapacityTx (Option FollowUpPermission) := do
  match ← answer CapacityEnv.permissionId with
  | none => return none
  | some id =>
    .stmt (.permission id) (fun _ _ found => some (found.bind fun r => r.1.permission?, .lock)) .ret

def consumeFollowUpPermission (permissionId : Uuid) : CapacityTx (Option FollowUpPermission) :=
  updatePermission permissionId (fun e row => row.spendable e) fun e row => row.spend .sent e

def permissionStillLive (permissionId : Uuid) : CapacityTx Bool :=
  .read (fun e t => ((t.find? (.permission permissionId)).bind Row.permission?).any fun row =>
    row.live e.env) .ret

/-! ## The decision -/

/-- From the ramp on: `decideSend` for a mailbox nothing else refuses. -/
def decideCapacity (inTransaction : Bool) (mailbox : PlannedMailbox) :
    CapacityTx (SendResult CapacityPlan) := do
  let ramp ← ensureRamp inTransaction mailbox.id
  match ← answer fun e => if ramp.recovery.any SenderRecovery.active then e.unready else none with
  | some reasons => return .refused .stepIneligible (some (js "sender_recovery_unready:" ++ reasons))
  | none =>
    match ← answer CapacityEnv.incident with
    | some (reason, detail) => return .refused reason detail
    | none =>
      let cap := effectiveDailyCap ramp
      let businessDate ← answer CapacityEnv.businessDate
      let day ← openSendDay inTransaction mailbox.id businessDate cap
      if cap ≤ day.automatedSent then return .refused .dailyCap none
      else
        match ← answer CapacityEnv.waiting with
        | some waiting =>
          if cap ≤ day.automatedSent + waiting then
            return .refused .dailyCap (some (js "capacity_reserved_for_due_follow_ups"))
          else return .ok ⟨mailbox, ramp, cap, businessDate⟩
        | none => return .ok ⟨mailbox, ramp, cap, businessDate⟩

def decideSend (inTransaction : Bool) (fence : Fence) :
    CapacityTx (SendResult CapacityPlan) := do
  if fence.originKind = .standingBooking then
    return .refused .stepIneligible (some (js "booking_automation_removed"))
  else
    match ← answer fun e => e.mailbox.map fun row => { row with id := fence.mailboxId } with
    | none => return .refused .mailboxUnknown none
    | some mailbox =>
      match ← answer CapacityEnv.gateRefusal with
      | some (reason, detail) => return .refused reason detail
      | none => decideCapacity inTransaction mailbox

/-! ## Recheck and claim -/

inductive ClaimOutcome
  | claimed (plan : CapacityPlan) (fence : Fence)
  | held (reason : SendRefusalCode)
  | notReady (refusal : SendRefusalCode) (detail : Option JsString)
  deriving DecidableEq

/-- `ROLLBACK`, and leave the fence for later. -/
def notReady (refusal : SendRefusalCode) (detail : Option JsString) : CapacityTx ClaimOutcome := do
  Tx.rollsBack
  return .notReady refusal detail

/-- Hold the fence, and `COMMIT` the hold. -/
def holds (id : Uuid) (reason : SendRefusalCode) : CapacityTx ClaimOutcome := do
  let _ ← holdFence id (refusalText reason)
  Tx.commits .quiet
  return .held reason

/-- The spends after the permission's, and the COMMIT. -/
def commitClaim (fence : Fence) (permission : Option FollowUpPermission) (plan : CapacityPlan)
    (claim : Fence) : CapacityTx ClaimOutcome := do
  if !(← answer fun e => e.env.markMeetingDraftSubmitted) then
    notReady .stepIneligible (some (js "follow_up_not_permitted:draft_changed"))
  else if fence.originKind = .draft && !(← answer fun e => e.env.consumeHumanReplyApproval) then
    notReady .stepIneligible (some (js "human_reply:fresh_approval_required"))
  else
    Tx.commits (.claimed plan permission)
    return .claimed plan claim

/-- After `consumeFollowUpPermission`: zero affected rows abort the claim. -/
def afterConsumption (fence : Fence) (permission : FollowUpPermission) (plan : CapacityPlan)
    (claim : Fence) : Option FollowUpPermission → CapacityTx ClaimOutcome
  | none => notReady .stepIneligible (some (js "follow_up_scope_exhausted"))
  | some _ => commitClaim fence (some permission) plan claim

/-- The spends that follow a claim. -/
def spendAuthority (fence : Fence) (permission : Option FollowUpPermission) (plan : CapacityPlan)
    (claim : Fence) : CapacityTx ClaimOutcome :=
  match permission with
  | none => commitClaim fence none plan claim
  | some permission =>
    if permission.scope.oneMessage then do
      let consumed ← consumeFollowUpPermission permission.id
      afterConsumption fence permission plan claim consumed
    else do
      if ← permissionStillLive permission.id then commitClaim fence (some permission) plan claim
      else notReady .stepIneligible (some (js "follow_up_expired"))

/-- The reservation of the day's capacity and the claim. -/
def reserveAndClaim (fence : Fence) (permission : Option FollowUpPermission)
    (plan : CapacityPlan) :
    CapacityTx ClaimOutcome := do
  if ← countAutomatedSend plan.mailbox.id plan.businessDate plan.cap then
    match ← claimForDispatch fence.id plan.businessDate with
    | none => notReady .fenceNotReady none
    | some claim => spendAuthority fence permission plan claim
  else holds fence.id .dailyCap

/-- From the accepted recheck to the reservation. -/
def prepareClaim (P : Platform) (fence : Fence) (permission : Option FollowUpPermission)
    (precheck plan : CapacityPlan) : CapacityTx ClaimOutcome := do
  if permission.any (fun row => row.scope = .agreedSequence) &&
      (← answer fun e => e.env.directSendWithinQuietWindow) then
    notReady .stepIneligible (some (js "direct_send_quiet_window"))
  else if fence.stepExecutionId.isSome && (← answer fun e => e.env.notYetDue) then
    notReady .stepIneligible (some (js "not_yet_due"))
  else if plan.mailbox ≠ precheck.mailbox then
    notReady .fenceNotReady (some (js "mailbox_changed"))
  else
    match ← answer fun e => if fence.stepExecutionId.isSome then e.env.touchRefusal else none with
    | some reason => notReady .stepIneligible (some reason)
    | none =>
      match ← answer CapacityEnv.footer with
      | .refused reason => holds fence.id reason
      | footer =>
        match footer with
        | .rewritten input subject =>
          let _ ← updateFence fence.id
            (fun row => row.attemptToken.isNone && (row.state == .prepared || row.state == .held))
            (rewriteSet P input subject)
        | _ => pure ()
        if (← answer fun e => e.env.meetingRefusal).isSome then
          let _ ← holdFence fence.id (js "follow_up_not_permitted")
          Tx.commits .quiet
          return .held .stepIneligible
        else if (← answer fun e => e.env.pacingRetryAt).isSome then
          notReady .stepIneligible (some (js "mailbox_pacing"))
        else
          match ← answer fun e => e.env.threadingRefusal with
          | some reason => notReady .stepIneligible (some reason)
          | none => reserveAndClaim fence permission plan

def recheckAndClaim (P : Platform) (outboundMessageId : Uuid) (precheck : CapacityPlan) :
    CapacityTx ClaimOutcome := do
  match ← lockFenceForClaim outboundMessageId with
  | none => notReady .fenceUnknown none
  | some fence =>
    if fence.state ≠ .prepared then notReady .fenceNotReady (some fence.state.text)
    else if fence.originKind = .draft &&
        !(← answer fun e => e.env.humanReplyApprovalIsLive) then
      notReady .stepIneligible (some (js "human_reply:fresh_approval_required"))
    else
      let permission ← lockPermissionForClaim
      match ← decideSend true fence with
      | .refused reason _ => holds fence.id reason
      | .ok plan => prepareClaim P fence permission precheck plan

/-! ## The admin's caps -/

inductive AdminCapRefusal
  | raiseAboveLimit | capOutOfRange | mailboxUnknown | rampNotSettled | healthNotSustained
  deriving DecidableEq

def rampSettledDay : Int := 30
def rampRaiseHealthyStreak : Int := 10

def raiseRefusal (healthySendingDays healthyStreak : Int) : Option AdminCapRefusal :=
  if healthySendingDays < rampSettledDay then some .rampNotSettled
  else if healthyStreak < rampRaiseHealthyStreak then some .healthNotSustained
  else none

/-- `UPDATE mailbox_send_ramp SET …` of a row the transaction has locked. -/
def updateRampRow (mailboxId : Uuid) (set : RampDbRow → RampDbRow) : CapacityTx (Option RampDbRow) :=
  .stmt (.ramp mailboxId) (fun _ _ found =>
    match found.bind fun r => r.1.ramp? with
    | none => some (none, .pass)
    | some row => writes (.ramp (set row)) (some (set row))) .ret

def lockRamp (mailboxId : Uuid) : CapacityTx (Option RampDbRow) :=
  .stmt (.ramp mailboxId) (fun _ _ found => some (found.bind fun r => r.1.ramp?, .lock)) .ret

/-- The command commits its answer whatever it is. An absent number is `none`, a null one
`some none`. -/
def setAdminCap (mailboxId : Uuid) (lowerTo raiseTo : Option (Option Int)) :
    CapacityTx (Option AdminCapRefusal) := do
  let refuse (reason : AdminCapRefusal) : CapacityTx (Option AdminCapRefusal) := do
    Tx.commits .quiet
    return some reason
  if raiseTo.join.any (rampAdminRaiseLimit < ·) then refuse .raiseAboveLimit
  else if raiseTo.join.any (· < 1) then refuse .capOutOfRange
  else if lowerTo.join.any (fun cap => cap < 0 || rampHardCeiling < cap) then refuse .capOutOfRange
  else
    let known ← Tx.read (fun e t => (t.find? (.ramp mailboxId)).isSome || e.mailboxExists) .ret
    if !known then refuse .mailboxUnknown
    else
      let _ ← ensureRamp true mailboxId
      match ← lockRamp mailboxId with
      | none => refuse .mailboxUnknown
      | some current =>
        let streak ← answer CapacityEnv.healthyStreak
        match if raiseTo.join.isSome then raiseRefusal current.healthySendingDays streak else none with
        | some reason => refuse reason
        | none =>
          let _ ← updateRampRow mailboxId fun row => { row with
            adminDailyCap := lowerTo.getD current.adminDailyCap
            raisedDailyCap := raiseTo.getD current.raisedDailyCap }
          Tx.commits .quiet
          return none

def overrideRaise (mailboxId : Uuid) (raiseTo : Option Int) :
    CapacityTx (Option AdminCapRefusal) := do
  if raiseTo.any (fun cap => cap < 1 || rampHardCeiling < cap) then
    Tx.commits .quiet
    return some .capOutOfRange
  else if !(← answer CapacityEnv.mailboxExists) then
    Tx.commits .quiet
    return some .mailboxUnknown
  else
    let _ ← ensureRamp true mailboxId
    let _ ← updateRampRow mailboxId fun row => { row with raisedDailyCap := raiseTo }
    Tx.commits .quiet
    return none

/-! ## The restore -/

structure SentFolderMessage where
  fenceId : Uuid
  mailboxId : Uuid
  rfcMessageId : JsString
  providerMessageId : JsString
  providerThreadId : JsString
  subject : Option JsString
  sentAt : Instant
  deriving DecidableEq

/-- By its id, or else by the mailbox's header. -/
def readFenceForSentMessage (message : SentFolderMessage) : CapacityTx (Option Fence) :=
  .read (fun _ t =>
    ((t.find? (.fence message.fenceId)).bind Row.fence?) <|>
      (t.rows.findSome? fun r => r.fence?.filter fun fence =>
        fence.mailboxId = message.mailboxId &&
          fence.providerMessageIdHeader = message.rfcMessageId)) .ret

def markPreDispatchFenceSent (P : Platform) (input : PreDispatchSentInput) :
    CapacityTx (Option Fence) := do
  let current ← readFence input.outboundMessageId
  if current.any fun row => row.state == .held then
    let _ ← releaseFence input.outboundMessageId
  match ← updateFence input.outboundMessageId (fun row => row.state == .prepared)
      (preDispatchClaimSet P input) with
  | none => return none
  | some claimed =>
    updateFence input.outboundMessageId
      (fun row => row.attemptToken == claimed.attemptToken && row.state == .dispatching)
      (preDispatchSentSet input)

def insertSentTombstone (P : Platform) (input : SentTombstoneInput) : CapacityTx (Option Fence) := do
  let token ← answer fun e => e.env.uuid
  insertFence P .doNothing (tombstoneFence P input token)

def tombstoneInput (message : SentFolderMessage) (facts : TombstoneFacts) : SentTombstoneInput where
  fenceId := message.fenceId
  mailboxId := message.mailboxId
  origin := facts.origin
  firmId := facts.firmId
  contactId := facts.contactId
  recipientAddress := facts.recipientAddress
  recipientRouteId := facts.recipientRouteId
  recipientRouteVersion := facts.recipientRouteVersion
  subject := message.subject
  rfcMessageId := message.rfcMessageId
  providerMessageId := message.providerMessageId
  providerThreadId := message.providerThreadId
  sentAt := message.sentAt
  businessDate := facts.businessDate
  actor := none

/-- What a restore's commit is for: the fence it gave a token, if it gave one. -/
def restoredNote : Option Fence → CapacityNote
  | some row => .restored row.mailboxId row.businessDate
  | none => .quiet

/-- The caller runs it in one transaction. -/
def recoverSentFolderMessage (P : Platform) (message : SentFolderMessage) : CapacityTx Unit := do
  match ← readFenceForSentMessage message with
  | some fence =>
    if ← answer CapacityEnv.humanReplyUnresolved then Tx.commits .quiet
    else if fence.state ≠ .prepared ∧ fence.state ≠ .held then Tx.commits .quiet
    else
      let verifiedBytes ← answer CapacityEnv.verifiedBytes
      let marked ← markPreDispatchFenceSent P ⟨fence.id, message.providerMessageId,
        message.providerThreadId, message.sentAt, none, verifiedBytes⟩
      Tx.commits (restoredNote marked)
  | none =>
    match ← answer CapacityEnv.tombstone with
    | none => Tx.commits .quiet
    | some facts =>
      let inserted ← insertSentTombstone P (tombstoneInput message facts)
      Tx.commits (restoredNote inserted)

/-! ## The permission's writers -/

/-- `INSERT INTO follow_up_permissions`, and the check of the stored row. -/
def grantFollowUpPermission (input : GrantInput) : CapacityTx Unit := do
  let row ← answer fun e => grantedPermission input e.env
  let _ ← .stmt (.permission row.id) (fun _ _ found =>
    if found.isSome then none else writes (.permission row) ()) .ret
  if ← answer CapacityEnv.permitted then Tx.commits .quiet else Tx.rollsBack

def bindFollowUpPermission (permissionId enrollmentId : Uuid) (expiresAt : Option Instant) :
    CapacityTx Bool := do
  let bound ← updatePermission permissionId
    (fun e row => row.enrollmentId.isNone && row.live e) fun _ row => row.bind enrollmentId expiresAt
  return bound.isSome

/-- The transaction of `enrollContact` that binds: no row bound, and the enrollment goes. -/
def enrollOnPermission (permissionId enrollmentId : Uuid) (expiresAt : Option Instant) :
    CapacityTx Unit := do
  if ← bindFollowUpPermission permissionId enrollmentId expiresAt then Tx.commits .quiet
  else Tx.rollsBack

def revokeFollowUpPermission (permissionId : Uuid) : CapacityTx Unit := do
  if ← answer CapacityEnv.permitted then
    let _ ← updatePermission permissionId (fun _ _ => true) fun e row => row.revoke e
    Tx.commits .quiet
  else Tx.commits .quiet

/-- The rows the UPDATE's snapshot finds, each taken and checked again in turn. -/
def consumeEachFulfilled (firmId : Uuid) (contactIds : List Uuid) (sentAt : Instant) :
    List Uuid → CapacityTx (List (Uuid × Option Uuid))
  | [] => return []
  | id :: ids => do
    let spent ← updatePermission id
      (fun e row => row.spendable e && row.fulfilledBy firmId contactIds sentAt)
      fun e row => row.spend .fulfilledByDirectSend e
    let rest ← consumeEachFulfilled firmId contactIds sentAt ids
    return spent.toList.map (fun row => (row.id, row.enrollmentId)) ++ rest

def consumeFulfilledByDirectSend (firmId : Uuid) (contactIds : List Uuid) (sentAt : Instant) :
    CapacityTx (List (Uuid × Option Uuid)) := do
  let ids ← Tx.read (fun e t => t.rows.filterMap fun r => (r.permission?.filter fun row =>
    row.spendable e.env && row.fulfilledBy firmId contactIds sentAt).map fun row => row.id) .ret
  consumeEachFulfilled firmId contactIds sentAt ids

/-! ## The system -/

inductive PreparedSend
  | humanReply (input : HumanReplyInput) (domain : JsString)
  | step (request : OutboundEmailRequest) (mailbox : MailboxRow) (routeVersion : Option Nat)
  deriving DecidableEq

def PreparedSend.fence (P : Platform) (send : PreparedSend) (e : Env) : Fence :=
  match send with
  | humanReply input domain => humanReplyFence P input e.uuid domain e.clock
  | step request mailbox routeVersion => stepFence P request mailbox routeVersion e.uuid

def PreparedSend.onConflict : PreparedSend → OnConflict
  | humanReply _ _ => .raise
  | step _ _ _ => .stepExecutionDoNothing

inductive CapacityJob
  | prepare (send : PreparedSend)
  | hold (outboundMessageId : Uuid) (reason : JsString)
  | release (outboundMessageId : Uuid)
  | precheck (outboundMessageId : Uuid)
  | recheckAndClaim (outboundMessageId : Uuid) (precheck : CapacityPlan)
  | setAdminCap (mailboxId : Uuid) (lowerTo raiseTo : Option (Option Int))
  | overrideRaise (mailboxId : Uuid) (raiseTo : Option Int)
  | recoverSentFolderMessage (message : SentFolderMessage)
  | grantFollowUpPermission (input : GrantInput)
  | enrollOnPermission (permissionId enrollmentId : Uuid) (expiresAt : Option Instant)
  | revokeFollowUpPermission (permissionId : Uuid)
  | consumeFulfilledByDirectSend (firmId : Uuid) (contactIds : List Uuid) (sentAt : Instant)

def program (P : Platform) : CapacityJob → CapacityTx Unit
  | .prepare send => do
    let row ← answer fun e => send.fence P e.env
    let _ ← insertFence P send.onConflict row
    Tx.commits .quiet
  | .hold id reason => do
    let _ ← holdFence id reason
    Tx.commits .quiet
  | .release id => do
    let _ ← releaseFence id
    Tx.commits .quiet
  | .precheck id => do
    match ← readFence id with
    | none => return ()
    | some fence =>
      let _ ← decideSend false fence
      return ()
  | .recheckAndClaim id precheck => do
    let _ ← recheckAndClaim P id precheck
    return ()
  | .setAdminCap mailboxId lowerTo raiseTo => do
    let _ ← setAdminCap mailboxId lowerTo raiseTo
    return ()
  | .overrideRaise mailboxId raiseTo => do
    let _ ← overrideRaise mailboxId raiseTo
    return ()
  | .recoverSentFolderMessage message => recoverSentFolderMessage P message
  | .grantFollowUpPermission input => grantFollowUpPermission input
  | .enrollOnPermission permissionId enrollmentId expiresAt =>
    enrollOnPermission permissionId enrollmentId expiresAt
  | .revokeFollowUpPermission permissionId => revokeFollowUpPermission permissionId
  | .consumeFulfilledByDirectSend firmId contactIds sentAt => do
    let _ ← consumeFulfilledByDirectSend firmId contactIds sentAt
    Tx.commits .quiet

abbrev CapacityWorld := World Row.key ProcessId CapacityEnv CapacityNote

abbrev CapacityInput := Input ProcessId CapacityEnv CapacityJob

/-- One step of one process. -/
def step (P : Platform) : CapacityWorld → CapacityInput → CapacityWorld :=
  World.step Row.checks (program P)

/-- The same, on tables without the backstop. -/
def stepWithoutBackstop (P : Platform) : CapacityWorld → CapacityInput → CapacityWorld :=
  World.step Row.checksButBackstop (program P)

end FoundingSales.Outbound.Capacity
