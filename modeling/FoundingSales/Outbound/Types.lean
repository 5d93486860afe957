import FoundingSales.Contracts.Templates

/-!
The vocabulary of at-most-once sending: fence states, refusals as values, and the
deterministic Message-IDs with their decoders.
-/

namespace FoundingSales.Outbound

inductive OutboundState
  | prepared | held | dispatching | reconciling | sent | unknownTerminal
  deriving DecidableEq

namespace OutboundState

/-- The request may have left: dispatching, reconciling, sent or unknown_terminal. -/
def started : OutboundState → Bool
  | prepared | held => false
  | dispatching | reconciling | sent | unknownTerminal => true

def text : OutboundState → JsString
  | prepared => js "prepared"
  | held => js "held"
  | dispatching => js "dispatching"
  | reconciling => js "reconciling"
  | sent => js "sent"
  | unknownTerminal => js "unknown_terminal"

end OutboundState

inductive SendRefusalCode
  | fenceUnknown | fenceNotReady | mailboxUnknown | mailboxInactive | grantRevoked
  | coverageIncomplete | automatedSendingDisabled | workspaceSendingNotAttested
  | sendingDomainUnknown | templateUnapproved | templateMismatch | footerNotComposed
  | postalAddressRequired | routeInvalid | firmSuppressed | handleSuppressed
  | outsideEmailWindow | dailyCap | rateLimited | recipientRejected | providerRefusal
  | stepIneligible
  deriving DecidableEq, Inhabited

inductive SendResult (α : Type)
  | ok (value : α)
  | refused (reason : SendRefusalCode) (detail : Option JsString)
  deriving DecidableEq, Inhabited

def placementRuleVersion : JsString := js "email-window.1"

def reconcileWindowHours : Nat := 24

def reconcileBackoffSchedule : List Nat := [30, 60, 300, 900, 1800, 3600]

def reconcileBackoffSeconds (attempt : Nat) : Nat :=
  reconcileBackoffSchedule.getD (min (max attempt 1) reconcileBackoffSchedule.length - 1) 3600

/-! ## Deterministic Message-IDs -/

def deterministicMessageId (outboundMessageId sendingDomain : JsString) : JsString :=
  js "<fss." ++ (outboundMessageId ++ js "@" ++ sendingDomain ++ js ">")

def deterministicHumanReplyMessageId
    (sourceMessageId outboundMessageId sendingDomain : JsString) : JsString :=
  js "<fss.reply." ++ (sourceMessageId ++ js "." ++
    (outboundMessageId ++ js "@" ++ sendingDomain ++ js ">"))

def isHexDigit (c : UInt16) : Bool := (48 ≤ c && c ≤ 57) || (97 ≤ c && c ≤ 102)

/-- `[0-9a-f-]` -/
def isHexOrDash (c : UInt16) : Bool := isHexDigit c || c = 45

/-- `/^[0-9a-f]{8}-[0-9a-f]{4}-[0-9a-f]{4}-[0-9a-f]{4}-[0-9a-f]{12}$/u` -/
def canonicalUuid (text : JsString) : Bool :=
  text.length = 36 && text.zipIdx.all fun (c, i) =>
    if i ∈ [8, 13, 18, 23] then c = 45 else isHexDigit c

/-- The text after a literal start. -/
def afterPrefix (start text : JsString) : Option JsString :=
  if start.isPrefixOf text then some (text.drop start.length) else none

/-- `([0-9a-f-]{36})` and the text after it. -/
def uuidGroup (text : JsString) : Option (JsString × JsString) :=
  if (text.take 36).length = 36 && (text.take 36).all isHexOrDash then
    some (text.take 36, text.drop 36)
  else none

/-- `/^[^<>@]+>$/` -/
def isDomainTail (text : JsString) : Bool :=
  text.getLast? = some 62 && text.length > 1 &&
    text.dropLast.all fun c => c ≠ 60 && c ≠ 62 && c ≠ atSign

/-- `/^([0-9a-f-]{36})@[^<>@]+>$/` -/
def fenceGroup (text : JsString) : Option JsString := do
  let (fenceId, rest) ← uuidGroup text
  let domain ← afterPrefix (js "@") rest
  if isDomainTail domain then some fenceId else none

/-- `/^<fss\.reply\.([0-9a-f-]{36})\.([0-9a-f-]{36})@[^<>@]+>$/u` -/
def humanReplyGroups (text : JsString) : Option (JsString × JsString) := do
  let rest ← afterPrefix (js "<fss.reply.") text
  let (sourceId, rest) ← uuidGroup rest
  let rest ← afterPrefix (js ".") rest
  let fenceId ← fenceGroup rest
  some (sourceId, fenceId)

def humanReplySourceIdOfMessageId (header : JsString) : Option JsString :=
  match humanReplyGroups (trim header) with
  | some (sourceId, fenceId) =>
    if canonicalUuid sourceId && canonicalUuid fenceId then some sourceId else none
  | none => none

def fenceIdOfMessageId (header : JsString) : Option JsString :=
  if (humanReplySourceIdOfMessageId header).isSome then
    (humanReplyGroups (trim header)).map Prod.snd
  else (afterPrefix (js "<fss.") (trim header)).bind fenceGroup

/-- The domain a mailbox sends from, as the decoder reads it. -/
def mailboxDomain (P : Platform) (mailboxAddress : JsString) : JsString :=
  P.toLowerCase (trim (afterLastAt mailboxAddress))

def fssFenceIdOfSentMessage (P : Platform) (header mailboxAddress : JsString) :
    Option JsString :=
  let trimmed := trim header
  match fenceIdOfMessageId trimmed with
  | none => none
  | some fenceId =>
    if canonicalUuid fenceId then
      let domain := P.toLowerCase (afterLastAt trimmed).dropLast
      if domain = mailboxDomain P mailboxAddress then some fenceId else none
    else none

end FoundingSales.Outbound
