import FoundingSales.Outbound.Fence

/-!
The dispatch path: read, release a hold, precheck, OAuth, then the recheck and the claim
in one transaction, one Gmail call, and the record of its outcome.
-/

namespace FoundingSales.Outbound

open Processes Tables Rules Contracts

structure OutboundSendDeps where
  actor : Option JsString
  reconcileWindowHours : Option Nat
  footerPolicy : Option SendFooterPolicy
  deriving DecidableEq

inductive SendOutcome
  | sent | held | reconciling | alreadyTerminal | fenceUnknown | notReady
  deriving DecidableEq

structure SendReport where
  outcome : SendOutcome
  outboundMessageId : Uuid
  refusal : Option SendRefusalCode
  detail : Option JsString
  providerMessageId : Option JsString
  retryAt : Option Instant
  deriving DecidableEq

def report (outcome : SendOutcome) (id : Uuid) : SendReport := ⟨outcome, id, none, none, none, none⟩

/-! ## The footer, under the claim lock -/

inductive FenceFooterReconciliation
  | reconciled (fence : Fence) (rewritten : Bool)
  | refused (reason : SendRefusalCode) (detail : Option JsString)
  deriving DecidableEq

def composeRefusalText : ComposeSendBodyRefusal → JsString
  | .postalAddressRequired => js "postal_address_required"
  | .footerAmbiguous => js "footer_ambiguous"
  | .composedBodyTooLong => js "composed_body_too_long"
  | .optoutLink => js "optout_link"

/-- `String(n)` -/
def natText (n : Nat) : JsString := (Nat.toDigits 10 n).flatMap codeUnits

def reconcileFenceFooter (P : Platform) (context : RepositoryContext) (deps : OutboundSendDeps)
    (fence : Fence) : FenceProg FenceFooterReconciliation := do
  if !(← answer Env.campaignOpeningVerified) then
    return .refused .footerNotComposed (some (js "opening_frozen_bytes_changed"))
  else
    match ← answer fun e => fence.templateVersionId.bind fun _ => e.footerSource with
    | none =>
      if sendBodyIssue fence.body then
        return .refused .footerNotComposed (some (js "template_version_unknown:body_too_long"))
      else return .reconciled fence false
    | some source =>
      match composeSendBody P fence.body source (deps.footerPolicy.getD sendFooterPolicy) with
      | .refused reason detail =>
        return .refused
          (if reason = .postalAddressRequired then .postalAddressRequired else .footerNotComposed)
          (some ((detail.map natText).getD (composeRefusalText reason)))
      | .composed body changed _ =>
        if !changed then
          if sendBodyIssue fence.body then
            return .refused .footerNotComposed (some (js "body_too_long"))
          else return .reconciled fence false
        else
          match ← rewritePreparedBody P context
              ⟨fence.id, body, none, none, js "footer_composed_at_send", deps.actor⟩ with
          | .refused _ detail => return .refused .footerNotComposed detail
          | .ok rewritten => return .reconciled rewritten true

/-! ## Recheck and claim -/

inductive ClaimOutcome
  | claimed (plan : SendPlan) (claim : DispatchClaim)
  | held (fence : Fence) (reason : SendRefusalCode) (detail : Option JsString)
      (retryAt : Option Instant)
  | notReady (refusal : SendRefusalCode) (detail : Option JsString) (retryAt : Option Instant)
  deriving DecidableEq

def heldFence (fence : Fence) : SendResult Fence → Fence
  | .ok held => held
  | .refused _ _ => fence

def refusalText : SendRefusalCode → JsString
  | .fenceUnknown => js "fence_unknown"
  | .fenceNotReady => js "fence_not_ready"
  | .mailboxUnknown => js "mailbox_unknown"
  | .mailboxInactive => js "mailbox_inactive"
  | .grantRevoked => js "grant_revoked"
  | .coverageIncomplete => js "coverage_incomplete"
  | .automatedSendingDisabled => js "automated_sending_disabled"
  | .workspaceSendingNotAttested => js "workspace_sending_not_attested"
  | .sendingDomainUnknown => js "sending_domain_unknown"
  | .templateUnapproved => js "template_unapproved"
  | .templateMismatch => js "template_mismatch"
  | .footerNotComposed => js "footer_not_composed"
  | .postalAddressRequired => js "postal_address_required"
  | .routeInvalid => js "route_invalid"
  | .firmSuppressed => js "firm_suppressed"
  | .handleSuppressed => js "handle_suppressed"
  | .outsideEmailWindow => js "outside_email_window"
  | .dailyCap => js "daily_cap"
  | .rateLimited => js "rate_limited"
  | .recipientRejected => js "recipient_rejected"
  | .providerRefusal => js "provider_refusal"
  | .stepIneligible => js "step_ineligible"

def notReady (detail : JsString) : Prog.End ClaimOutcome :=
  .rollback (.notReady .stepIneligible (some detail) none)

/-- The spends that follow a claim: the permission, the meeting draft, the approval. -/
def spendAuthority (fence : Fence) (permission : Option PermissionScope) (plan : SendPlan)
    (claim : DispatchClaim) : FenceProg (Prog.End ClaimOutcome) := do
  let spent ← answer fun e =>
    match permission with
    | none => true
    | some scope => if scope.oneMessage then e.consumeFollowUpPermission else e.permissionStillLive
  if !spent then
    return notReady (if permission.any PermissionScope.oneMessage then
      js "follow_up_scope_exhausted" else js "follow_up_expired")
  else if !(← answer Env.markMeetingDraftSubmitted) then
    return notReady (js "follow_up_not_permitted:draft_changed")
  else if fence.originKind = .draft && !(← answer Env.consumeHumanReplyApproval) then
    return notReady (js "human_reply:fresh_approval_required")
  else return .commit (.claimed plan claim)

/-- The reservation of the day's capacity and the claim. -/
def reserveAndClaim (context : RepositoryContext) (deps : OutboundSendDeps) (fence : Fence)
    (permission : Option PermissionScope) (plan : SendPlan) :
    FenceProg (Prog.End ClaimOutcome) := do
  if !(← answer Env.reserved) then
    let held ← holdFence context fence.id (js "daily_cap") deps.actor
    return .commit (.held (heldFence fence held) .dailyCap (some (natText plan.cap)) none)
  else
    match ← claimForDispatch context fence.id deps.actor (some plan.businessDate)
        [("releaseAdmission", .text plan.release)] with
    | .refused reason detail => return .rollback (.notReady reason detail none)
    | .ok claim => spendAuthority fence permission plan claim

/-- From the accepted recheck to the reservation. -/
def prepareClaim (P : Platform) (context : RepositoryContext) (deps : OutboundSendDeps)
    (fence : Fence) (permission : Option PermissionScope) (precheck plan : SendPlan) :
    FenceProg (Prog.End ClaimOutcome) := do
  if permission = some .agreedSequence && (← answer Env.directSendWithinQuietWindow) then
    return notReady (js "direct_send_quiet_window")
  else if fence.stepExecutionId.isSome && (← answer Env.notYetDue) then
    return notReady (js "not_yet_due")
  else if plan.mailbox ≠ precheck.mailbox then
    return .rollback (.notReady .fenceNotReady (some (js "mailbox_changed")) none)
  else
    match ← answer fun e => if fence.stepExecutionId.isSome then e.touchRefusal else none with
    | some reason => return notReady reason
    | none =>
      match ← reconcileFenceFooter P context deps fence with
      | .refused reason detail =>
        let held ← holdFence context fence.id (refusalText reason) deps.actor
        return .commit (.held (heldFence fence held) reason detail none)
      | .reconciled _ _ =>
        match ← answer Env.meetingRefusal with
        | some reason =>
          let _ ← holdFence context fence.id (js "follow_up_not_permitted") none
          return .commit (.held fence .stepIneligible
            (some (js "follow_up_not_permitted:" ++ reason)) none)
        | none =>
          match ← answer Env.pacingRetryAt with
          | some retryAt =>
            return .rollback
              (.notReady .stepIneligible (some (js "mailbox_pacing")) (some retryAt))
          | none =>
            match ← answer Env.threadingRefusal with
            | some reason => return notReady reason
            | none => reserveAndClaim context deps fence permission plan

/-- The statements of the claiming transaction. -/
def recheckAndClaimBody (P : Platform) (context : RepositoryContext) (deps : OutboundSendDeps)
    (outboundMessageId : Uuid) (precheck : SendPlan) : FenceProg (Prog.End ClaimOutcome) := do
  match ← readFence outboundMessageId with
  | none => return .rollback (.notReady .fenceUnknown none none)
  | some fence =>
    if fence.state ≠ .prepared then
      return .rollback (.notReady .fenceNotReady (some fence.state.text) none)
    else if fence.originKind = .draft && !(← answer Env.humanReplyApprovalIsLive) then
      return notReady (js "human_reply:fresh_approval_required")
    else
      let permission ← answer Env.permission
      match ← answer Env.gate with
      | .refused reason detail =>
        let held ← holdFence context fence.id (refusalText reason) deps.actor
        let retryAt ← answer fun e => if reason = .rateLimited then e.retryAt else none
        return .commit (.held (heldFence fence held) reason detail retryAt)
      | .ok plan => prepareClaim P context deps fence permission precheck plan

/-- The fence row is locked `FOR UPDATE` before anything is read of it, so the
transaction is one step of the fence. -/
def recheckAndClaim (P : Platform) (context : RepositoryContext) (deps : OutboundSendDeps)
    (outboundMessageId : Uuid) (precheck : SendPlan) : FenceProg ClaimOutcome :=
  Prog.atomically (recheckAndClaimBody P context deps outboundMessageId precheck)

/-! ## The dispatch -/

/-- Hold the fence, and open the hold of its step. -/
def hold (context : RepositoryContext) (deps : OutboundSendDeps) (fence : Fence)
    (reason : SendRefusalCode) (detail : Option JsString) : FenceProg SendReport := do
  let _ ← holdFence context fence.id (refusalText reason) deps.actor
  elsewhere
  let retryAt ← answer fun e => if reason = .rateLimited then e.retryAt else none
  return ⟨.held, fence.id, some reason, detail, none, retryAt⟩

/-- `gmail.sendMessage`, with the fence whose bytes it carries. -/
def sendMessage (outboundMessageId : Uuid) : FenceProg SendAnswer :=
  Prog.effect fun p e s =>
    (e.sendAnswer, { s with history := .called p outboundMessageId :: s.history })

def refusalOf (reason : JsString) : SendRefusalCode :=
  if reason = js "grant_revoked" then .grantRevoked
  else if reason = js "rate_limited" then .rateLimited
  else if reason = js "recipient_rejected" then .recipientRejected
  else .providerRefusal

/-- What follows an answer that is not `ok`. -/
def enterReconciling (context : RepositoryContext) (deps : OutboundSendDeps) (id : Uuid)
    (refusal : Option SendRefusalCode) (detail : JsString) : FenceProg SendReport := do
  -- the provider incident and the day's signal
  elsewhere
  elsewhere
  let _ ← beginReconciling context id detail
    (deps.reconcileWindowHours.getD reconcileWindowHours) deps.actor
  elsewhere
  return ⟨.reconciling, id, refusal, some detail, none, none⟩

/-- The one call, between a committed claim and the record of its outcome. -/
def sendClaimed (context : RepositoryContext) (deps : OutboundSendDeps) (claim : DispatchClaim) :
    FenceProg SendReport := do
  let id := claim.fence.id
  elsewhere
  match ← sendMessage id with
  | .sent messageId threadId =>
    match ← recordSent context id claim.attemptToken messageId threadId deps.actor with
    | .refused reason _ => return ⟨.notReady, id, some reason, none, none, none⟩
    | .ok _ =>
      elsewhere
      return ⟨.sent, id, none, none, some messageId, none⟩
  | .refused reason =>
    enterReconciling context deps id (some (refusalOf reason)) (js "refused:" ++ reason)
  | .indeterminate detail => enterReconciling context deps id none detail

/-- Precheck, OAuth, claim and send, for a fence read or released as `prepared`. -/
def dispatchPrepared (P : Platform) (context : RepositoryContext) (deps : OutboundSendDeps)
    (fence : Fence) : FenceProg SendReport := do
  match ← answer Env.gate with
  | .refused reason detail => hold context deps fence reason detail
  | .ok precheck =>
    match ← answer Env.access with
    | .providerIncident =>
      let retryAt ← answer Env.retryAt
      return ⟨.held, fence.id, some .providerRefusal, none, none, retryAt⟩
    | .refused reason => hold context deps fence .grantRevoked (some reason)
    | .granted =>
      match ← recheckAndClaim P context deps fence.id precheck with
      | .notReady refusal detail retryAt =>
        return ⟨.notReady, fence.id, some refusal, detail, none, retryAt⟩
      | .held _ reason detail retryAt =>
        elsewhere
        return ⟨.held, fence.id, some reason, detail, none, retryAt⟩
      | .claimed _ claim => sendClaimed context deps claim

def dispatchOutboundMessage (P : Platform) (context : RepositoryContext)
    (deps : OutboundSendDeps) (outboundMessageId : Uuid) : FenceProg SendReport := do
  match ← readFence outboundMessageId with
  | none => return report .fenceUnknown outboundMessageId
  | some initial =>
    match initial.state with
    | .sent | .unknownTerminal =>
      elsewhere
      return report .alreadyTerminal initial.id
    | .dispatching | .reconciling =>
      return { report .notReady initial.id with detail := some initial.state.text }
    | .prepared =>
      if initial.originKind = .draft && !(← answer Env.humanReplyApprovalIsLive) then
        return { report .notReady initial.id with
          detail := some (js "human_reply:fresh_approval_required") }
      else dispatchPrepared P context deps initial
    | .held =>
      if initial.originKind = .draft && !(← answer Env.humanReplyApprovalIsLive) then
        return { report .notReady initial.id with
          detail := some (js "human_reply:fresh_approval_required") }
      else
        -- the holds this fence opened last time
        elsewhere
        match ← releaseFence context initial.id deps.actor with
        | .refused _ _ => return report .notReady initial.id
        | .ok released => dispatchPrepared P context deps released

end FoundingSales.Outbound
