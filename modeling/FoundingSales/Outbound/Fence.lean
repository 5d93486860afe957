import FoundingSales.Outbound.FenceStore

/-!
The outbound fence: the only functions that move a fence. Each is one guarded UPDATE or
INSERT followed by the ledger row of the transition; run outside a transaction, the
statements commit one by one.
-/

namespace FoundingSales.Outbound

open Processes Tables Rules Contracts

structure RepositoryContext where
  /-- `describeActor(context)` -/
  describeActor : JsString
  deriving DecidableEq

structure PreparedFence where
  outboundMessageId : Uuid
  created : Bool
  deriving DecidableEq

/-! ## Preparing -/

def prepareHumanReplyFence (P : Platform) (context : RepositoryContext)
    (input : HumanReplyInput) : FenceProg (SendResult PreparedFence) := do
  match ← readFenceByDraftId input.draftId with
  | some existing => return .ok ⟨existing.id, false⟩
  | none =>
    if sendBodyIssue input.body then
      return .refused .footerNotComposed (some (js "body_too_long"))
    else if hasOptOutLink P input.subject then
      return .refused .footerNotComposed (some (js "optout_link"))
    else
      let id ← answer Env.uuid
      match ← answer Env.primarySendingDomain with
      | none => return .refused .sendingDomainUnknown none
      | some domain =>
        if domain = [] then return .refused .sendingDomainUnknown none
        else
          match ← insertFence P .raise fun e => humanReplyFence P input id domain e.clock with
          -- not reached: this INSERT returns its row or raises
          | none => return .refused .fenceNotReady none
          | some row =>
            appendEvent ⟨row.id, none, .prepared, none, context.describeActor,
              [("origin", .text (js "human_reply"))]⟩
            return .ok ⟨row.id, true⟩

def prepareOutboundMessage (P : Platform) (context : RepositoryContext)
    (request : OutboundEmailRequest) : FenceProg (SendResult PreparedFence) := do
  match ← readFenceByStepExecution request.stepExecutionId with
  | some existing => return .ok ⟨existing.id, false⟩
  | none =>
    if sendBodyIssue request.body then
      return .refused .footerNotComposed (some (js "body_too_long"))
    else if hasOptOutLink P request.body || hasOptOutLink P request.subject then
      return .refused .footerNotComposed (some (js "optout_link"))
    else
      match ← answer Env.template with
      | none => return .refused .templateUnapproved none
      | some template =>
        if !template.approved then return .refused .templateUnapproved none
        else if template.contentHash ≠ request.templateContentHash then
          return .refused .templateMismatch none
        else
          match ← answer Env.mailbox with
          | none => return .refused .mailboxUnknown none
          | some mailbox =>
            if !mailbox.connected then return .refused .mailboxInactive none
            else
              let routeVersion ← answer fun e =>
                if request.emailAddressId.isSome then e.routeVersion else none
              let id ← answer Env.uuid
              match ← answer Env.touchRefusal with
              | some reason => return .refused .stepIneligible (some reason)
              | none =>
                match ← insertFence P .stepExecutionDoNothing fun _ =>
                    stepFence P request mailbox routeVersion id with
                | none =>
                  match ← readFenceByStepExecution request.stepExecutionId with
                  | some raced => return .ok ⟨raced.id, false⟩
                  -- `throw`: the program ends here either way
                  | none => return .refused .fenceUnknown none
                | some inserted =>
                  elsewhere
                  appendEvent ⟨inserted.id, none, .prepared, none, context.describeActor, []⟩
                  return .ok ⟨inserted.id, true⟩

/-! ## Dispatching -/

structure DispatchClaim where
  fence : Fence
  attemptToken : Uuid
  deriving DecidableEq

def claimSet (businessDate : Option BusinessDate) (e : Env) (row : Fence) : Fence :=
  { row with
    state := .dispatching
    attemptToken := some e.uuid
    dispatchStartedAt := some e.now
    businessDate := businessDate <|> row.businessDate }

def claimForDispatch (context : RepositoryContext) (outboundMessageId : Uuid)
    (actor : Option JsString) (businessDate : Option BusinessDate) (detail : Detail) :
    FenceProg (SendResult DispatchClaim) := do
  match ← transition outboundMessageId (fun _ row => row.state == .prepared)
      (claimSet businessDate) with
  | none =>
    match ← readFence outboundMessageId with
    | none => return .refused .fenceUnknown none
    | some current => return .refused .fenceNotReady (some current.state.text)
  | some row =>
    elsewhere
    match row.attemptToken with
    -- not reached: the UPDATE sets the token
    | none => return .refused .fenceNotReady none
    | some token =>
      appendEvent ⟨row.id, some .prepared, .dispatching, some token,
        actor.getD context.describeActor, detail⟩
      return .ok ⟨row, token⟩

def sentSet (providerMessageId providerThreadId : JsString) (e : Env) (row : Fence) : Fence :=
  { row with
    state := .sent
    sentAt := some e.now
    providerMessageId := some providerMessageId
    providerThreadId := some providerThreadId }

def recordSent (context : RepositoryContext) (outboundMessageId attemptToken : Uuid)
    (providerMessageId providerThreadId : JsString) (actor : Option JsString) :
    FenceProg (SendResult Fence) := do
  match ← transition outboundMessageId
      (fun _ row => row.attemptToken == some attemptToken && row.state == .dispatching)
      (sentSet providerMessageId providerThreadId) with
  | none => return .refused .fenceNotReady none
  | some row =>
    elsewhere
    appendEvent ⟨outboundMessageId, some .dispatching, .sent, some attemptToken,
      actor.getD context.describeActor, [("providerMessageId", .text providerMessageId)]⟩
    return .ok row

/-- `make_interval(hours => n)` in milliseconds. -/
def hoursInMs (hours : Nat) : Int := hours * 3600000

def reconcilingSet (windowHours : Nat) (e : Env) (row : Fence) : Fence :=
  { row with
    state := .reconciling
    reconcileStartedAt := some e.now
    reconcileDeadlineAt := some (e.now + hoursInMs windowHours) }

def beginReconciling (context : RepositoryContext) (outboundMessageId : Uuid)
    (detail : JsString) (windowHours : Nat) (actor : Option JsString) :
    FenceProg (SendResult Fence) := do
  match ← transition outboundMessageId (fun _ row => row.state == .dispatching)
      (reconcilingSet windowHours) with
  | none => return .refused .fenceNotReady none
  | some row =>
    appendEvent ⟨outboundMessageId, some .dispatching, .reconciling, none,
      actor.getD context.describeActor, [("why", .text detail)]⟩
    return .ok row

def reconciledSentSet (providerMessageId providerThreadId : JsString) (e : Env)
    (row : Fence) : Fence :=
  { row with
    state := .sent
    -- the send happened when dispatch began
    sentAt := some (row.dispatchStartedAt.getD e.now)
    providerMessageId := some providerMessageId
    providerThreadId := some providerThreadId
    reconcileAttempts := row.reconcileAttempts + 1
    reconcileLastAttemptAt := some e.now }

def recordReconciledSent (context : RepositoryContext) (outboundMessageId : Uuid)
    (providerMessageId providerThreadId : JsString) (actor : Option JsString) :
    FenceProg (SendResult Fence) := do
  match ← transition outboundMessageId (fun _ row => row.state == .reconciling)
      (reconciledSentSet providerMessageId providerThreadId) with
  | none => return .refused .fenceNotReady none
  | some row =>
    elsewhere
    appendEvent ⟨outboundMessageId, some .reconciling, .sent, none,
      actor.getD context.describeActor,
      [("via", .text (js "sent_folder_search")), ("providerMessageId", .text providerMessageId)]⟩
    return .ok row

def reconcileMissSet (e : Env) (row : Fence) : Fence :=
  { row with
    reconcileAttempts := row.reconcileAttempts + 1
    reconcileLastAttemptAt := some e.now }

/-- One observation that found nothing: no transition, and no ledger row. -/
def recordReconcileMiss (outboundMessageId : Uuid) : FenceProg Nat := do
  match ← updateFence outboundMessageId (fun _ row => row.state == .reconciling)
      reconcileMissSet fun _ _ _ => [] with
  | none => return 0
  | some row => return row.reconcileAttempts

def unknownTerminalSet (e : Env) (row : Fence) : Fence :=
  { row with state := .unknownTerminal, unknownTerminalAt := some e.now }

def markUnknownTerminal (context : RepositoryContext) (outboundMessageId : Uuid)
    (actor : Option JsString) : FenceProg (SendResult Fence) := do
  match ← transition outboundMessageId
      (fun e row => row.state == .reconciling && row.reconcileDeadlineAt.any (· ≤ e.now))
      unknownTerminalSet with
  | none => return .refused .fenceNotReady none
  | some row =>
    appendEvent ⟨outboundMessageId, some .reconciling, .unknownTerminal, none,
      actor.getD context.describeActor, []⟩
    return .ok row

/-! ## Holding -/

def holdSet (reason : JsString) (e : Env) (row : Fence) : Fence :=
  { row with state := .held, heldAt := some e.now, heldReason := some reason }

def holdFence (context : RepositoryContext) (outboundMessageId : Uuid) (reason : JsString)
    (actor : Option JsString) : FenceProg (SendResult Fence) := do
  match ← transition outboundMessageId (fun _ row => row.state == .prepared) (holdSet reason) with
  | none => return .refused .fenceNotReady none
  | some row =>
    elsewhere
    appendEvent ⟨outboundMessageId, some .prepared, .held, none,
      actor.getD context.describeActor, [("reason", .text reason)]⟩
    return .ok row

def releaseSet (_ : Env) (row : Fence) : Fence :=
  { row with state := .prepared, heldAt := none, heldReason := none }

def releaseFence (context : RepositoryContext) (outboundMessageId : Uuid)
    (actor : Option JsString) : FenceProg (SendResult Fence) := do
  match ← transition outboundMessageId (fun _ row => row.state == .held) releaseSet with
  | none => return .refused .fenceNotReady none
  | some row =>
    appendEvent ⟨outboundMessageId, some .held, .prepared, none,
      actor.getD context.describeActor, []⟩
    return .ok row

/-! ## Rewriting -/

structure RewriteInput where
  outboundMessageId : Uuid
  body : JsString
  subject : Option JsString
  sourceZone : Option JsString
  reason : JsString
  actor : Option JsString
  deriving DecidableEq

/-- `subject.trim() === '' || subject.length > 998 || /[\r\n]/u.test(subject)` -/
def subjectInvalid (subject : JsString) : Bool :=
  trim subject = [] || subject.length > 998 || subject.any fun c => c = 10 || c = 13

def rewriteSet (P : Platform) (input : RewriteInput) (subject : JsString) (_ : Env)
    (row : Fence) : Fence :=
  { row with
    body := input.body
    renderedHash := renderedHash P subject input.body
    subject := subject
    sourceZone := input.sourceZone.getD row.sourceZone }

def rewritePreparedBody (P : Platform) (context : RepositoryContext) (input : RewriteInput) :
    FenceProg (SendResult Fence) := do
  if input.subject.any subjectInvalid then
    return .refused .footerNotComposed (some (js "subject_invalid"))
  else if sendBodyIssue input.body then
    return .refused .footerNotComposed (some (js "body_too_long"))
  else
    match ← readFence input.outboundMessageId with
    | none => return .refused .fenceUnknown none
    | some current =>
      let subject := input.subject.getD current.subject
      if hasOptOutLink P input.body || hasOptOutLink P subject then
        return .refused .footerNotComposed (some (js "optout_link"))
      else
        match ← transition input.outboundMessageId
            (fun _ row => row.attemptToken.isNone && (row.state == .prepared || row.state == .held))
            (rewriteSet P input subject) with
        | none => return .refused .fenceNotReady (some current.state.text)
        | some row =>
          appendEvent ⟨row.id, some row.state, row.state, none,
            input.actor.getD context.describeActor, [("reason", .text input.reason)]⟩
          return .ok row

def resolveSet (resolution : AdminResolution) (adminUserId : Uuid) (e : Env) (row : Fence) :
    Fence :=
  { row with
    adminResolution := some resolution
    adminResolvedAt := some e.now
    adminResolvedByUserId := some adminUserId }

def resolutionText : AdminResolution → JsString
  | .delivered => js "delivered"
  | .skipped => js "skipped"

def resolveUnknownTerminal (outboundMessageId : Uuid) (resolution : AdminResolution)
    (adminUserId : Uuid) : FenceProg (SendResult Fence) := do
  match ← transition outboundMessageId
      (fun _ row => row.state == .unknownTerminal && row.adminResolution.isNone)
      (resolveSet resolution adminUserId) with
  | none => return .refused .fenceNotReady none
  | some row =>
    appendEvent ⟨outboundMessageId, some .unknownTerminal, .unknownTerminal, none,
      js "user:" ++ adminUserId, [("resolution", .text (resolutionText resolution))]⟩
    return .ok row

/-! ## Restoring -/

def insertSentTombstone (P : Platform) (context : RepositoryContext)
    (input : SentTombstoneInput) : FenceProg (SendResult Fence) := do
  match ← insertFence P .doNothing fun e => tombstoneFence P input e.uuid with
  | none =>
    return .refused .fenceNotReady
      (some (js "a fence with this id, header or step already exists"))
  | some row =>
    appendEvent ⟨row.id, none, .sent, row.attemptToken, input.actor.getD context.describeActor,
      [("reconciled_from", .text sentTombstoneProvenance),
       ("providerMessageId", .text input.providerMessageId),
       ("sentAt", .instant input.sentAt)]⟩
    return .ok row

structure PreDispatchSentInput where
  outboundMessageId : Uuid
  providerMessageId : JsString
  providerThreadId : JsString
  sentAt : Instant
  actor : Option JsString
  /-- the verified subject and body -/
  verifiedBytes : Option (JsString × JsString)
  deriving DecidableEq

/-- The bytes the restored envelope is replaced by: those offered, unless they carry an
opt-out link. -/
def PreDispatchSentInput.verified (P : Platform) (input : PreDispatchSentInput) :
    Option (JsString × JsString) :=
  input.verifiedBytes.filter fun (subject, body) =>
    !(hasOptOutLink P subject || hasOptOutLink P body)

def preDispatchDetail (P : Platform) (input : PreDispatchSentInput) : Detail :=
  [("reconciled_from", .text sentFolderPreDispatchProvenance),
   ("providerMessageId", .text input.providerMessageId),
   ("sentBytes", .text (if (input.verified P).isSome then js "verified" else js "unverified"))]
  ++ (if input.verifiedBytes.isSome && (input.verified P).isNone then
        [("unverifiedReason", .text (js "optout_link"))] else [])

def preDispatchClaimSet (P : Platform) (input : PreDispatchSentInput) (e : Env) (row : Fence) :
    Fence :=
  let verified := input.verified P
  { row with
    state := .dispatching
    attemptToken := some e.uuid
    dispatchStartedAt := some input.sentAt
    providerMessageId := some input.providerMessageId
    providerThreadId := some input.providerThreadId
    subject := (verified.map Prod.fst).getD row.subject
    body := (verified.map Prod.snd).getD row.body
    renderedHash := (verified.map fun (subject, body) => renderedHash P subject body).getD
      row.renderedHash }

def preDispatchSentSet (input : PreDispatchSentInput) (_ : Env) (row : Fence) : Fence :=
  { row with
    state := .sent
    sentAt := some input.sentAt
    providerMessageId := some input.providerMessageId
    providerThreadId := some input.providerThreadId }

def releaseIfHeld (context : RepositoryContext) (outboundMessageId : Uuid)
    (current : Option Fence) (actor : JsString) : FenceProg Unit := do
  if current.any fun row => row.state == .held then
    let _ ← releaseFence context outboundMessageId (some actor)
    return ()
  else return ()

/-- The statements of `recordPreDispatchFenceSent` after its first read. -/
def recordPreDispatchFenceSent (P : Platform) (context : RepositoryContext)
    (input : PreDispatchSentInput) (current : Option Fence) : FenceProg (SendResult Fence) := do
  let actor := input.actor.getD context.describeActor
  let detail := preDispatchDetail P input
  releaseIfHeld context input.outboundMessageId current actor
  match ← transition input.outboundMessageId (fun _ row => row.state == .prepared)
      (preDispatchClaimSet P input) with
  | none => return .refused .fenceNotReady none
  | some claimed =>
    appendEvent ⟨input.outboundMessageId, some .prepared, .dispatching, claimed.attemptToken,
      actor, detail⟩
    match ← transition input.outboundMessageId
        (fun _ row => row.attemptToken == claimed.attemptToken && row.state == .dispatching)
        (preDispatchSentSet input) with
    | none => return .refused .fenceNotReady none
    | some row =>
      elsewhere
      appendEvent ⟨input.outboundMessageId, some .dispatching, .sent, claimed.attemptToken,
        actor, detail⟩
      return .ok row

/-- The read takes no lock, so it is a statement of its own; from the first write on, the
row lock makes the rest of the transaction one. -/
def markPreDispatchFenceSent (P : Platform) (context : RepositoryContext)
    (input : PreDispatchSentInput) : FenceProg (SendResult Fence) := do
  let current ← readFence input.outboundMessageId
  Prog.atomically do
    let result ← recordPreDispatchFenceSent P context input current
    return .commit result

end FoundingSales.Outbound
