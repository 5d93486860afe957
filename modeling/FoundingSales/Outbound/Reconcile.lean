import FoundingSales.Outbound.Send

/-!
The reconciliation of a fence in doubt: adopt it once its process went quiet, search the
Sent folder, and let the observation window decide. Then every call a process may run.
-/

namespace FoundingSales.Outbound

open Processes

/-- Seconds; longer than any send takes. -/
def defaultAdoptAfterSeconds : Nat := 300

structure ReconcileDeps where
  actor : Option JsString
  windowHours : Option Nat
  adoptAfterSeconds : Option Nat
  deriving DecidableEq

inductive ReconcileOutcome
  | sent | stillUnknown | unknownTerminal | adopted | notReconciling | fenceUnknown
  | grantRevoked | cooldown | incidentHeld | rateLimited
  deriving DecidableEq

structure ReconcileReport where
  outcome : ReconcileOutcome
  outboundMessageId : Uuid
  attempts : Nat
  nextAttemptInSeconds : Option Nat
  retryAt : Option Instant
  deriving DecidableEq

/-- `age < adoptAfterSeconds`, in milliseconds. -/
def tooYoungToAdopt (deps : ReconcileDeps) (now : Instant) (fence : Fence) : Bool :=
  now - fence.dispatchStartedAt.getD 0 <
    (deps.adoptAfterSeconds.getD defaultAdoptAfterSeconds : Nat) * 1000

/-- The end of an observation that found nothing. -/
def observeMiss (context : RepositoryContext) (deps : ReconcileDeps) (now : Instant)
    (fence : Fence) : FenceProg ReconcileReport := do
  let attempts ← recordReconcileMiss fence.id
  if now < fence.reconcileDeadlineAt.getD 0 then
    return ⟨.stillUnknown, fence.id, attempts, some (reconcileBackoffSeconds attempts), none⟩
  else
    match ← markUnknownTerminal context fence.id deps.actor with
    | .refused _ _ => return ⟨.stillUnknown, fence.id, attempts, none, none⟩
    | .ok _ =>
      -- the reconciling hold becomes a terminal one
      elsewhere
      elsewhere
      return ⟨.unknownTerminal, fence.id, attempts, none, none⟩

def searchSentFolder (context : RepositoryContext) (deps : ReconcileDeps) (now : Instant)
    (fence : Fence) : FenceProg ReconcileReport := do
  match ← answer Env.searchAnswer with
  | .threw =>
    elsewhere
    return ⟨.incidentHeld, fence.id, fence.reconcileAttempts, none, none⟩
  | .failed reason =>
    elsewhere
    let attempts ← recordReconcileMiss fence.id
    let retryAt ← answer Env.retryAt
    return ⟨if reason = js "grant_revoked" then .grantRevoked else .rateLimited, fence.id,
      attempts, some (reconcileBackoffSeconds attempts), retryAt⟩
  | .found messageId threadId =>
    elsewhere
    match ← recordReconciledSent context fence.id messageId threadId deps.actor with
    | .refused _ _ => return ⟨.sent, fence.id, fence.reconcileAttempts + 1, none, none⟩
    | .ok _ =>
      elsewhere
      return ⟨.sent, fence.id, fence.reconcileAttempts + 1, none, none⟩
  | .absent =>
    elsewhere
    observeMiss context deps now fence

def reconcileOutboundMessage (context : RepositoryContext) (deps : ReconcileDeps)
    (outboundMessageId : Uuid) : FenceProg ReconcileReport := do
  let now ← answer Env.processNow
  match ← readFence outboundMessageId with
  | none => return ⟨.fenceUnknown, outboundMessageId, 0, none, none⟩
  | some fence =>
    if fence.state = .dispatching then
      if tooYoungToAdopt deps now fence then
        return ⟨.notReconciling, fence.id, fence.reconcileAttempts, none, none⟩
      else
        match ← beginReconciling context fence.id
            (js "adopted from dispatching after the owning process went quiet")
            (deps.windowHours.getD reconcileWindowHours) deps.actor with
        | .refused _ _ => return ⟨.notReconciling, fence.id, fence.reconcileAttempts, none, none⟩
        | .ok adopted => return ⟨.adopted, fence.id, adopted.reconcileAttempts, none, none⟩
    else if fence.state ≠ .reconciling then
      return ⟨.notReconciling, fence.id, fence.reconcileAttempts, none, none⟩
    else if ← answer Env.actionRequired then
      return ⟨.incidentHeld, fence.id, fence.reconcileAttempts, none, none⟩
    else
      match ← answer Env.waitUntil with
      | some wait => return ⟨.cooldown, fence.id, fence.reconcileAttempts, none, some wait⟩
      | none =>
        match ← answer Env.access with
        | .providerIncident =>
          return ⟨.incidentHeld, fence.id, fence.reconcileAttempts, none, none⟩
        | .refused _ => return ⟨.grantRevoked, fence.id, fence.reconcileAttempts, none, none⟩
        | .granted => searchSentFolder context deps now fence

/-! ## Processes -/

/-- What a process may be asked to do with the fences. -/
inductive Call
  | prepareOutboundMessage (context : RepositoryContext) (request : OutboundEmailRequest)
  | prepareHumanReplyFence (context : RepositoryContext) (input : HumanReplyInput)
  | claimForDispatch (context : RepositoryContext) (id : Uuid) (actor : Option JsString)
      (businessDate : Option BusinessDate) (detail : Detail)
  | recordSent (context : RepositoryContext) (id attemptToken : Uuid)
      (providerMessageId providerThreadId : JsString) (actor : Option JsString)
  | beginReconciling (context : RepositoryContext) (id : Uuid) (detail : JsString)
      (windowHours : Nat) (actor : Option JsString)
  | recordReconciledSent (context : RepositoryContext) (id : Uuid)
      (providerMessageId providerThreadId : JsString) (actor : Option JsString)
  | recordReconcileMiss (id : Uuid)
  | markUnknownTerminal (context : RepositoryContext) (id : Uuid) (actor : Option JsString)
  | holdFence (context : RepositoryContext) (id : Uuid) (reason : JsString)
      (actor : Option JsString)
  | releaseFence (context : RepositoryContext) (id : Uuid) (actor : Option JsString)
  | rewritePreparedBody (context : RepositoryContext) (input : RewriteInput)
  | resolveUnknownTerminal (id : Uuid) (resolution : AdminResolution) (adminUserId : Uuid)
  | markPreDispatchFenceSent (context : RepositoryContext) (input : PreDispatchSentInput)
  | insertSentTombstone (context : RepositoryContext) (input : SentTombstoneInput)
  | dispatchOutboundMessage (context : RepositoryContext) (deps : OutboundSendDeps) (id : Uuid)
  | reconcileOutboundMessage (context : RepositoryContext) (deps : ReconcileDeps) (id : Uuid)

def discard {α : Type} (prog : FenceProg α) : FenceProg Unit := do
  let _ ← prog
  return ()

def Call.code (P : Platform) : Call → FenceProg Unit
  | .prepareOutboundMessage context request =>
    discard (Outbound.prepareOutboundMessage P context request)
  | .prepareHumanReplyFence context input =>
    discard (Outbound.prepareHumanReplyFence P context input)
  | .claimForDispatch context id actor businessDate detail =>
    discard (Outbound.claimForDispatch context id actor businessDate detail)
  | .recordSent context id token messageId threadId actor =>
    discard (Outbound.recordSent context id token messageId threadId actor)
  | .beginReconciling context id detail windowHours actor =>
    discard (Outbound.beginReconciling context id detail windowHours actor)
  | .recordReconciledSent context id messageId threadId actor =>
    discard (Outbound.recordReconciledSent context id messageId threadId actor)
  | .recordReconcileMiss id => discard (Outbound.recordReconcileMiss id)
  | .markUnknownTerminal context id actor =>
    discard (Outbound.markUnknownTerminal context id actor)
  | .holdFence context id reason actor => discard (Outbound.holdFence context id reason actor)
  | .releaseFence context id actor => discard (Outbound.releaseFence context id actor)
  | .rewritePreparedBody context input => discard (Outbound.rewritePreparedBody P context input)
  | .resolveUnknownTerminal id resolution adminUserId =>
    discard (Outbound.resolveUnknownTerminal id resolution adminUserId)
  | .markPreDispatchFenceSent context input =>
    discard (Outbound.markPreDispatchFenceSent P context input)
  | .insertSentTombstone context input => discard (Outbound.insertSentTombstone P context input)
  | .dispatchOutboundMessage context deps id =>
    discard (Outbound.dispatchOutboundMessage P context deps id)
  | .reconcileOutboundMessage context deps id =>
    discard (Outbound.reconcileOutboundMessage context deps id)

abbrev FenceWorld := World ProcessId Env Store

abbrev FenceInput := Input ProcessId Env Call

/-- One step of the scheduler over the processes and the fences. -/
def fenceStep (P : Platform) : FenceWorld → FenceInput → FenceWorld := World.step (Call.code P)

/-- Any number of processes over tables that start empty. -/
def fenceRun (P : Platform) (inputs : List FenceInput) : FenceWorld :=
  Runs.run (fenceStep P) (World.idle Store.empty) inputs

end FoundingSales.Outbound
