import FoundingSales.Crm.Pipeline
import FoundingSales.Rules.Holds

/-!
The stored matches of one message, the holds an ambiguity opens, and its resolution.

A call is one transaction. A refusal after a write keeps the write; where a table's condition
rejects a row the call is rolled back.
-/

namespace FoundingSales.Mail.Matches

open Tables Crm Rules

/-! ## Rows -/

inductive MailMatchRule
  | thread | messageIdReference | participant
  deriving DecidableEq

/-- `mail_match_one_authority` -/
inductive MatchAuthority
  | opportunity (id : Uuid)
  | outreachPlan (id : Uuid)
  deriving DecidableEq

def MatchAuthority.id : MatchAuthority → Uuid
  | .opportunity id | .outreachPlan id => id

structure MatchCandidate where
  firmId : FirmId
  authority : MatchAuthority
  contactId : Option Uuid
  rule : MailMatchRule
  viaClosedOpportunity : Bool
  deriving DecidableEq

def matchAuthorityKey (candidate : MatchCandidate) : Uuid := candidate.authority.id

/-- A hold by its place in the table: rows are never deleted. -/
abbrev HoldId := Nat

inductive HoldScope
  | firm (id : FirmId)
  | opportunity (id : Uuid)
  | other (kind key : JsString)
  deriving DecidableEq

inductive HoldReasonCode
  | ambiguousMatch | uncertainReply | routeInvalid
  | other (code : JsString)
  deriving DecidableEq

def HoldReasonCode.text : HoldReasonCode → JsString
  | .ambiguousMatch => js "ambiguous_match"
  | .uncertainReply => js "uncertain_reply"
  | .routeInvalid => js "route_invalid"
  | .other code => code

structure Hold where
  scope : HoldScope
  reasonCode : HoldReasonCode
  blockedActionKinds : List BlockedActionKind
  sourceEventKind : JsString
  sourceEventId : Option Uuid
  recoveryAction : Option JsString
  releasedAt : Option Instant
  deriving DecidableEq

/-- A row of `mail_message_matches`. -/
structure Match where
  firmId : FirmId
  authority : MatchAuthority
  contactId : Option Uuid
  rule : MailMatchRule
  ambiguous : Bool
  holdId : Option HoldId
  selected : Option Bool
  resolvedAt : Option Instant
  resolvedByUserId : Option Uuid
  deriving DecidableEq

def Match.key (row : Match) : Uuid := row.authority.id

abbrev MatchTable := Table Match.key

/-- What stops for a firm, or for one opportunity of it. -/
def scopeOf (firmId : FirmId) : MatchAuthority → HoldScope
  | .opportunity id => .opportunity id
  | .outreachPlan _ => .firm firmId

def Match.scope (row : Match) : HoldScope := scopeOf row.firmId row.authority

/-- The matches of the message, and the holds of the workspace. -/
structure MatchStore where
  matches_ : MatchTable
  holds : List Hold

/-! ## Holds -/

/-- Everything an automated step could do. -/
def replyHoldBlocks : List BlockedActionKind := [.emailSend, .callTask, .enrollmentAdvance]

def openHold (hold : Hold) (holds : List Hold) : HoldId × List Hold :=
  (holds.length, holds ++ [hold])

/-- `WHERE source_event_id = … AND reason_code = … AND released_at IS NULL` -/
def Hold.isOpenFor (sourceEventId : Uuid) (reasonCode : HoldReasonCode) (hold : Hold) : Bool :=
  hold.sourceEventId = some sourceEventId && hold.reasonCode = reasonCode && hold.releasedAt = none

def releaseHoldsOfEvent (sourceEventId : Uuid) (reasonCode : HoldReasonCode) (now : Instant)
    (holds : List Hold) : List Hold :=
  holds.map fun hold =>
    if hold.isOpenFor sourceEventId reasonCode then { hold with releasedAt := some now } else hold

/-! ## Recording -/

/-- Why a message whose match is ambiguous holds a candidate. -/
def ambiguityHold (messageId : Uuid) (candidate : MatchCandidate) : Hold where
  scope := scopeOf candidate.firmId candidate.authority
  reasonCode := .ambiguousMatch
  blockedActionKinds := replyHoldBlocks
  sourceEventKind := js "mail_message"
  sourceEventId := some messageId
  recoveryAction := some (js "resolve_ambiguity")
  releasedAt := none

def matchRow (candidate : MatchCandidate) (ambiguous : Bool) (holdId : Option HoldId) : Match where
  firmId := candidate.firmId
  authority := candidate.authority
  contactId := candidate.contactId
  rule := candidate.rule
  ambiguous := ambiguous
  holdId := holdId
  selected := none
  resolvedAt := none
  resolvedByUserId := none

/-- One candidate: found, or inserted, held when the match is ambiguous. `known` answers the
foreign keys of the row. -/
def recordCandidate (known : MatchCandidate → Bool) (messageId : Uuid) (ambiguous : Bool)
    (candidate : MatchCandidate) (s : MatchStore) : Option (Option HoldId × MatchStore) :=
  match s.matches_.find? (matchAuthorityKey candidate) with
  | some found => some (found.holdId, s)
  | none =>
    if known candidate then
      if ambiguous then
        let (holdId, holds) := openHold (ambiguityHold messageId candidate) s.holds
        (s.matches_.insert? (matchRow candidate true (some holdId))).map fun rows =>
          (some holdId, ⟨rows, holds⟩)
      else
        (s.matches_.insert? (matchRow candidate false none)).map fun rows => (none, ⟨rows, s.holds⟩)
    else none

def recordCandidates (known : MatchCandidate → Bool) (messageId : Uuid) (ambiguous : Bool) :
    List MatchCandidate → MatchStore → Option (List HoldId × MatchStore)
  | [], s => some ([], s)
  | candidate :: candidates, s => do
    let (holdId, s) ← recordCandidate known messageId ambiguous candidate s
    let (holdIds, s) ← recordCandidates known messageId ambiguous candidates s
    some (holdId.toList ++ holdIds, s)

structure RecordedMatches where
  candidates : List MatchCandidate
  ambiguous : Bool
  holdIds : List HoldId
  deriving DecidableEq

def unresolved (rows : MatchTable) : List Match := rows.rows.filter fun row => row.selected = none

def resolvedAlready (rows : MatchTable) : Bool := rows.rows.any fun row => row.selected.isSome

/-- Stored and found together: more than one, and nobody has chosen. -/
def isAmbiguous (rows : MatchTable) (candidates : List MatchCandidate) : Bool :=
  !resolvedAlready rows &&
    1 < ((unresolved rows).map Match.key ++ candidates.map matchAuthorityKey).dedup.length

def recordMatches (known : MatchCandidate → Bool) (messageId : Uuid)
    (candidates : List MatchCandidate) (s : MatchStore) : Option (RecordedMatches × MatchStore) :=
  (recordCandidates known messageId (isAmbiguous s.matches_ candidates) candidates s).map
    fun (holdIds, s') => (⟨candidates, isAmbiguous s.matches_ candidates, holdIds⟩, s')

/-- One candidate a key, the first. -/
def distinct (candidates : List MatchCandidate) : List MatchCandidate :=
  candidates.foldl (fun kept candidate =>
    if kept.any fun other => matchAuthorityKey other = matchAuthorityKey candidate then kept
    else kept ++ [candidate]) []

/-- `named`: what the To and Cc recipients match. -/
def withOutgoingRecipientConflicts (candidates named : List MatchCandidate) :
    List MatchCandidate :=
  if candidates = [] || candidates.all (fun candidate => candidate.rule = .participant) then
    candidates
  else distinct (candidates ++ named)

/-! ## The message -/

inductive MailDirection
  | incoming | outgoing
  deriving DecidableEq

structure Message where
  id : Uuid
  direction : MailDirection
  /-- The owner of its mailbox. -/
  ownerUserId : Option Uuid
  deriving DecidableEq

inductive PlanState
  | active | replyPending | manual | booked | completed | stopped
  deriving DecidableEq

structure OutreachPlan where
  id : Uuid
  firmId : FirmId
  state : PlanState
  deriving DecidableEq

structure Store where
  message : Message
  stored : MatchStore
  crm : Pipeline.Store
  plans : Table OutreachPlan.id
  /-- The firms of the message's direct-send markers. -/
  directSendApplied : List FirmId

/-- The row of an authority at the firm: `opportunities`, or `outreach_plans`. -/
def Store.known (s : Store) (candidate : MatchCandidate) : Bool :=
  match candidate.authority with
  | .opportunity id =>
    (s.crm.opportunities.find? id).any fun opportunity => opportunity.firmId = candidate.firmId
  | .outreachPlan id => (s.plans.find? id).any fun plan => plan.firmId = candidate.firmId

/-- What a call leaves behind. -/
inductive Outcome (α : Type)
  | accept (value : α) (s : Store)
  | raise

/-- The candidates of an import, once recipients at other firms are added. -/
def importedCandidates (directSend : Bool) (candidates named : List MatchCandidate) :
    List MatchCandidate :=
  if directSend then withOutgoingRecipientConflicts candidates named else candidates

/-- `none` for a frozen candidate set. -/
def recordMatchesForImport (candidates named : List MatchCandidate) (directSend : Bool)
    (s : Store) : Outcome (Option RecordedMatches) :=
  if directSend && s.directSendApplied ≠ [] then .accept none s
  else
    match recordMatches s.known s.message.id (importedCandidates directSend candidates named)
        s.stored with
    | none => .raise
    | some (recorded, stored) => .accept (some recorded) { s with stored := stored }

/-- The one match a direct send's effect may be applied to. -/
def directSendTargetOf (rows : MatchTable) : Option Match :=
  match rows.rows.find? fun row => row.selected = some true with
  | some chosen => some chosen
  | none =>
    if resolvedAlready rows then none
    else
      match rows.rows with
      | [only] => if only.ambiguous then none else some only
      | _ => none

/-- The marker, once per message, and never for a message from before the mailbox's account. -/
def applyDirectSendEffects (firmId : FirmId) (beforeAccount : Bool) (s : Store) : Store :=
  if s.directSendApplied ≠ [] || beforeAccount then s
  else { s with directSendApplied := [firmId] }

/-- What an import does with a direct send. -/
def importDirectSend (beforeAccount : Bool) (s : Store) : Store :=
  match directSendTargetOf s.stored.matches_ with
  | none => s
  | some only => applyDirectSendEffects only.firmId beforeAccount s

/-! ## Resolution -/

inductive MailRefusal
  | invalidInput | matchUnknown | alreadyResolved | notAssigned | alreadyApplied
  deriving DecidableEq

structure ResolveInput where
  selectedOpportunityId : Option Uuid
  selectedOutreachPlanId : Option Uuid
  human : Bool
  deriving DecidableEq

structure AmbiguityResolution where
  selected : MatchAuthority
  releasedHoldIds : List HoldId
  manualOpportunityId : Option Uuid
  deriving DecidableEq

/-- What a resolution runs in. -/
structure ResolveContext where
  actor : Actor
  now : Instant
  newId : Uuid
  /-- A fence names the message. -/
  fenced : Bool
  /-- The message is from before the mailbox's account. -/
  beforeAccount : Bool

/-- How a resolution ends. `releasing`: the states of the transaction, from the one its release
starts in. -/
inductive Resolved
  | accept (resolution : AmbiguityResolution) (releasing : List Store) (s : Store)
  | refuse (reason : MailRefusal) (s : Store)
  | raise

/-- `selected = (id = $3), …  WHERE selected IS NULL` -/
def selectMatch (key : Uuid) (c : ResolveContext) (rows : MatchTable) : MatchTable :=
  rows.update (fun row => row.selected = none)
    (fun row => { row with
      selected := some (row.key = key)
      resolvedAt := some c.now
      resolvedByUserId := c.actor.userId }) fun _ => rfl

def Store.withHolds (s : Store) (holds : List Hold) : Store :=
  { s with stored := { s.stored with holds := holds } }

def Store.withMatches (s : Store) (rows : MatchTable) : Store :=
  { s with stored := { s.stored with matches_ := rows } }

def Store.release (s : Store) (now : Instant) : Store :=
  s.withHolds (releaseHoldsOfEvent s.message.id .ambiguousMatch now s.stored.holds)

/-- The ids a release returns. -/
def Store.releasable (s : Store) : List HoldId :=
  s.stored.holds.findIdxs (Hold.isOpenFor s.message.id .ambiguousMatch)

/-- The hold that keeps the selected conversation until its reply is confirmed. -/
def keeperHold (messageId : Uuid) (selected : Match) : Hold where
  scope := selected.scope
  reasonCode := .uncertainReply
  blockedActionKinds := replyHoldBlocks
  sourceEventKind := js "mail_message_resolution"
  sourceEventId := some messageId
  recoveryAction := some (js "confirm_reply")
  releasedAt := none

/-- `UPDATE outreach_plans SET state='manual'` -/
def takeOverPlan (planId : Uuid) (s : Store) : Store :=
  let plans := s.plans.update (fun plan => plan.id = planId)
    (fun plan => { plan with state := .manual }) fun _ => rfl
  { s with plans := plans }

/-- The keeper is opened before the release, so that the conversation is never unheld. -/
def keepSelected (selected : Match) (s : Store) : Store :=
  s.withHolds (openHold (keeperHold s.message.id selected) s.stored.holds).2

/-- `UPDATE mail_message_matches SET hold_id = …` -/
def pointAt (selected : Match) (keeper : HoldId) (s : Store) : Store :=
  s.withMatches (s.stored.matches_.update (fun row => row.key = selected.key)
    (fun row => { row with holdId := some keeper }) fun _ => rfl)

/-- The rest of a resolution of a reply, its selection written. -/
def resolveIncoming (c : ResolveContext) (input : ResolveInput) (selected : Match) (s : Store) :
    Resolved :=
  let held := keepSelected selected s
  let released := held.release c.now
  let pointed :=
    pointAt selected (openHold (keeperHold s.message.id selected) s.stored.holds).1 released
  let releasedIds := held.releasable.filter fun id => some id ≠ selected.holdId
  match selected.authority with
  | .opportunity id =>
    if input.human then
      match Pipeline.setManualControlMode ⟨c.actor, c.now, c.newId⟩
          ⟨id, js "confirmed human reply", .humanReply, none⟩ pointed.crm with
      | .accept _ crm =>
        .accept ⟨selected.authority, releasedIds, some id⟩
          [held, released, pointed, { pointed with crm := crm }] { pointed with crm := crm }
      | .refuse (.firm .notAssigned) => .refuse .notAssigned pointed
      | .refuse _ => .refuse .invalidInput pointed
      | .raise => .raise
    else .accept ⟨selected.authority, releasedIds, none⟩ [held, released, pointed] pointed
  | .outreachPlan id =>
    if input.human then
      .accept ⟨selected.authority, releasedIds, none⟩
        [held, released, pointed, takeOverPlan id pointed] (takeOverPlan id pointed)
    else .accept ⟨selected.authority, releasedIds, none⟩ [held, released, pointed] pointed

/-- The rest of a resolution of a sent message. -/
def resolveOutgoing (c : ResolveContext) (selected : Match) (s : Store) : Resolved :=
  let released := s.release c.now
  let applied := if c.fenced then released
    else applyDirectSendEffects selected.firmId c.beforeAccount released
  .accept ⟨selected.authority, s.releasable, none⟩ [s, released, applied] applied

/-- The candidate a request names. -/
def ResolveInput.names (input : ResolveInput) (row : Match) : Bool :=
  match row.authority with
  | .opportunity id => input.selectedOpportunityId = some id
  | .outreachPlan id => input.selectedOpportunityId = none && input.selectedOutreachPlanId = some id

/-- Whose mailbox: the owner's, or an administrator's to resolve. -/
def mayResolve (actor : Actor) (message : Message) : Bool :=
  match actor with
  | .user userId role => role = .admin || message.ownerUserId.all (· = userId)
  | .system => true

def resolveAmbiguity (c : ResolveContext) (input : ResolveInput) (s : Store) : Resolved :=
  if input.selectedOpportunityId.isNone = input.selectedOutreachPlanId.isNone then
    .refuse .invalidInput s
  else if s.stored.matches_.rows = [] then .refuse .matchUnknown s
  else if resolvedAlready s.stored.matches_ then .refuse .alreadyResolved s
  else
    match s.stored.matches_.rows.find? input.names with
    | none => .refuse .matchUnknown s
    | some selected =>
      if !mayResolve c.actor s.message then .refuse .notAssigned s
      else
        match s.crm.firms.find? selected.firmId with
        | none => .refuse .matchUnknown s
        | some firm =>
          match decideFirmMutation c.actor firm with
          | some .notAssigned => .refuse .notAssigned s
          | some _ => .refuse .invalidInput s
          | none =>
            if s.message.direction = .outgoing && s.directSendApplied ≠ [] &&
                selected.firmId ∉ s.directSendApplied then
              .refuse .alreadyApplied s
            else
              let chosen := s.withMatches (selectMatch selected.key c s.stored.matches_)
              if (unresolved s.stored.matches_).length ≠ s.stored.matches_.rows.length then
                .refuse .alreadyResolved chosen
              else
                match s.message.direction with
                | .outgoing => resolveOutgoing c selected chosen
                | .incoming => resolveIncoming c input selected chosen

/-! ## The system -/

inductive Input
  /-- A message whose `fenced` is unset and that is outgoing is a direct send. -/
  | importMatches (candidates named : List MatchCandidate) (fenced : Bool)
  /-- What an import does next with a direct send. -/
  | importDirectSend (beforeAccount : Bool)
  | resolve (c : ResolveContext) (input : ResolveInput)
  | openHold (hold : Hold)
  | releaseHold (id : HoldId) (now : Instant)
  | writeFirm (row : FirmRow)

def isDirectSend (message : Message) (fenced : Bool) : Bool :=
  message.direction = .outgoing && !fenced

/-- A hold of another cause than the message's ambiguity. -/
def Hold.isOther (messageId : Uuid) (hold : Hold) : Bool :=
  hold.reasonCode ≠ .ambiguousMatch || hold.sourceEventId ≠ some messageId

def Outcome.committed {α : Type} (outcome : Outcome α) (s : Store) : Store :=
  match outcome with
  | .accept _ s' => s'
  | .raise => s

def Resolved.committed (resolved : Resolved) (s : Store) : Store :=
  match resolved with
  | .accept _ _ s' | .refuse _ s' => s'
  | .raise => s

/-- The row of a hold by id, released. -/
def releaseOther (messageId : Uuid) (id : HoldId) (now : Instant) (holds : List Hold) : List Hold :=
  holds.modify id fun hold =>
    if hold.isOther messageId then { hold with releasedAt := some (hold.releasedAt.getD now) }
    else hold

def step (s : Store) : Input → Store
  | .importMatches candidates named fenced =>
    (recordMatchesForImport candidates named (isDirectSend s.message fenced) s).committed s
  | .importDirectSend beforeAccount =>
    if s.message.direction = .outgoing then Matches.importDirectSend beforeAccount s else s
  | .resolve c input => (resolveAmbiguity c input s).committed s
  | .openHold hold =>
    if hold.isOther s.message.id then s.withHolds (Matches.openHold hold s.stored.holds).2 else s
  | .releaseHold id now => s.withHolds (releaseOther s.message.id id now s.stored.holds)
  | .writeFirm row => { s with crm := { s.crm with firms := s.crm.firms.upsert row } }

end FoundingSales.Mail.Matches
