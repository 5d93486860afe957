import FoundingSales.Mail.Matches
import FoundingSales.Outbound.Ramp
import FoundingSales.Sequences.Enrollments
import FoundingSales.Suppression.Events

/-!
One processing of an incoming message: its matches are recorded, then every deterministic
consequence of its classification is applied, each behind an effect row of the message.

A processing is one transaction: an error rolls it back. The world outside the message changes
freely in between.
-/

namespace FoundingSales.Mail.Effects

open Tables Crm Rules Matches Sequences

/-! ## Rows -/

inductive ReplyClass
  | human | uncertain | automated | bounce | optOut
  deriving DecidableEq

structure ReplyClassification where
  class_ : ReplyClass
  /-- The rules that fired. -/
  signals : List JsString
  deriving DecidableEq

inductive MailEffectKind
  | holdOpened | routeInvalidated | handleSuppressed | firmSuppressed | replyLaneEntry | noEffect
  deriving DecidableEq

inductive EffectDetail
  | none
  | candidate (firmId : FirmId) (rule : MailMatchRule)
  | route (firmId : FirmId) (addresses : List JsString)
  | automated (signals : List JsString)
  | reply (firmId : FirmId) (class_ : ReplyClass)
  deriving DecidableEq

/-- A row of `mail_message_effects`. -/
structure MailEffect where
  kind : MailEffectKind
  targetKey : JsString
  holdId : Option HoldId
  suppressionEventId : Option JsString
  detail : EffectDetail
  deriving DecidableEq

/-- `mail_message_effects_one_per_target` -/
def MailEffect.key (effect : MailEffect) : MailEffectKind × JsString :=
  (effect.kind, effect.targetKey)

/-- `mail_message_effects_target_bounded` -/
def MailEffect.checks (effect : MailEffect) : Bool :=
  Pipeline.presentWithin 200 effect.targetKey

inductive RouteEligibility
  | candidate | usable | invalid | retired
  deriving DecidableEq

/-- A row of `email_addresses`. -/
structure EmailRoute where
  firmId : FirmId
  contactId : Option Uuid
  address : JsString
  eligibility : RouteEligibility
  version : Nat
  deriving DecidableEq

inductive MeetingPlanStatus
  | draft | held | scheduled | awaitingReply | completed | cancelled | needsReview
  deriving DecidableEq

/-- A row of `meeting_follow_through`; one of a meeting is current. -/
structure MeetingPlan where
  id : Uuid
  firmId : FirmId
  createdAt : Instant
  status : MeetingPlanStatus
  blockers : List JsString
  version : Nat
  /-- The fence of its current draft. -/
  outboundMessageId : Option Uuid
  deriving DecidableEq

inductive DraftFenceState
  | prepared | held | claimed
  deriving DecidableEq

structure DraftFence where
  id : Uuid
  state : DraftFenceState
  deriving DecidableEq

structure ReplyPromotion where
  firmId : FirmId
  contactId : Option Uuid
  messageId : Uuid
  receivedAt : Instant
  deriving DecidableEq

/-- What never changes about the message. -/
structure Reply where
  platform : Platform
  workspaceId : Uuid
  mailboxId : Uuid
  providerMessageId : JsString
  headerFrom : Option JsString
  internalDate : Instant
  classification : ReplyClassification

structure Store where
  matching : Matches.Store
  /-- `mail_messages.matched` -/
  matched : Bool
  effects : Table MailEffect.key
  routes : List EmailRoute
  sequences : SequenceTables
  meetingPlans : List MeetingPlan
  fences : Table DraftFence.id
  ramp : Outbound.RampTables
  suppression : Suppression.Database
  promotions : List ReplyPromotion
  body : Option JsString
  metadataOnly : Bool

def Store.holds (s : Store) : List Hold := s.matching.stored.holds

def Store.messageId (s : Store) : Uuid := s.matching.message.id

def Store.withHolds (s : Store) (holds : List Hold) : Store :=
  { s with matching := s.matching.withHolds holds }

/-- The suppression tables read the same firms. -/
def Store.database (s : Store) : Suppression.Database :=
  { s.suppression with firms := s.matching.crm.firms }

/-! ## Effects -/

structure AppliedEffect where
  kind : MailEffectKind
  targetKey : JsString
  holdId : Option HoldId
  suppressionEventId : Option JsString
  /-- False for a replay. -/
  applied : Bool
  deriving DecidableEq

/-- `ON CONFLICT … DO NOTHING`, the row's condition checked first. -/
def recordEffect (effect : MailEffect) (s : Store) : Option (Bool × Store) :=
  if effect.checks then
    match s.effects.insert? effect with
    | some effects => some (true, { s with effects := effects })
    | none => some (false, s)
  else none

def effectRecorded (kind : MailEffectKind) (targetKey : JsString) (s : Store) : Bool :=
  (s.effects.find? (kind, targetKey)).isSome

/-- What a processing has come to. -/
structure Session where
  store : Store
  effects : List AppliedEffect
  holdIds : List HoldId
  suppressionEventIds : List JsString
  /-- The bounce has been counted by this processing. -/
  counted : Bool

def Session.begin (s : Store) : Session := ⟨s, [], [], [], false⟩

/-! ## Holds -/

def holdTarget (reasonCode : HoldReasonCode) (candidate : MatchCandidate) : JsString :=
  reasonCode.text ++ js ":" ++ matchAuthorityKey candidate

structure HoldInput where
  reasonCode : HoldReasonCode
  recoveryAction : JsString
  blocks : List BlockedActionKind

def candidateHold (messageId : Uuid) (input : HoldInput) (candidate : MatchCandidate) : Hold where
  scope := scopeOf candidate.firmId candidate.authority
  reasonCode := input.reasonCode
  blockedActionKinds := input.blocks
  sourceEventKind := js "mail_message"
  sourceEventId := some messageId
  recoveryAction := some input.recoveryAction
  releasedAt := none

def holdEffect (input : HoldInput) (candidate : MatchCandidate) (holdId : HoldId) : MailEffect where
  kind := .holdOpened
  targetKey := holdTarget input.reasonCode candidate
  holdId := some holdId
  suppressionEventId := none
  detail := .candidate candidate.firmId candidate.rule

/-- A hold once for each reason and candidate. -/
def holdCandidate (input : HoldInput) (candidate : MatchCandidate) (x : Session) : Option Session :=
  let targetKey := holdTarget input.reasonCode candidate
  if effectRecorded .holdOpened targetKey x.store then
    some { x with effects := x.effects ++ [⟨.holdOpened, targetKey, none, none, false⟩] }
  else
    let (holdId, holds) := openHold (candidateHold x.store.messageId input candidate) x.store.holds
    (recordEffect (holdEffect input candidate holdId) (x.store.withHolds holds)).map fun (_, store) =>
      { x with
        store := store
        effects := x.effects ++ [⟨.holdOpened, targetKey, some holdId, none, true⟩]
        holdIds := x.holdIds ++ [holdId] }

/-! ## A reply -/

/-- `UPDATE outreach_plans SET state='reply_pending' … AND state='active'` -/
def pendActive (planId : Uuid) (plans : Table OutreachPlan.id) : Table OutreachPlan.id :=
  plans.update (fun plan => plan.id = planId && plan.state = .active)
    (fun plan => { plan with state := .replyPending }) fun _ => rfl

def pendPlan (planId : Uuid) (s : Store) : Store :=
  { s with matching := { s.matching with plans := pendActive planId s.matching.plans } }

/-- The live cold outreach to a firm. -/
def coldEnrollments (firmId : FirmId) (t : SequenceTables) : List Uuid :=
  (t.enrollments.rows.filter fun row => row.firmId = firmId.text &&
    (row.originKind = .prospecting || row.originKind = .coldLegacy) && row.endedAt.isNone).map
      EnrollmentRow.id

def stopColdEnrollments (firmId : FirmId) (now : Micros) (s : Store) : Option Store :=
  match coldEnrollments firmId s.sequences with
  | [] => some s
  | ids => (stopEnrollments s.sequences ⟨none, none, none, some ids, .humanReply, none⟩ now).map
      fun (sequences, _) => { s with sequences := sequences }

def MeetingPlan.live (plan : MeetingPlan) : Bool :=
  plan.status ≠ .cancelled && plan.status ≠ .completed

/-- The row after an interruption, unless it already waits for a review of this reason. -/
def MeetingPlan.interrupt (reason : JsString) (plan : MeetingPlan) : MeetingPlan :=
  if reason ∈ plan.blockers && plan.status = .needsReview then plan
  else { plan with
    status := .needsReview
    blockers := (plan.blockers ++ [reason]).eraseDups
    version := plan.version + 1 }

/-- The plans an interruption of a firm at an instant reaches. -/
def MeetingPlan.reached (firmId : FirmId) (time : Instant) (plan : MeetingPlan) : Bool :=
  plan.firmId = firmId && plan.createdAt ≤ time && plan.live

/-- The prepared fences of the plans' drafts are held. -/
def holdPreparedMeetingFence (plans : List MeetingPlan) (fences : Table DraftFence.id) :
    Table DraftFence.id :=
  fences.update
    (fun fence => fence.state = .prepared && plans.any fun plan => plan.outboundMessageId = some fence.id)
    (fun fence => { fence with state := .held }) fun _ => rfl

/-- A firm the worker may change. -/
def stoppable (firmId : FirmId) (s : Store) : Bool :=
  (s.matching.crm.firms.find? firmId).any fun firm => decideFirmMutation .system firm = none

/-- The fence of each plan's draft is held, and the plan waits for a review. -/
def interruptMeetingPlansForFirm (firmId : FirmId) (reason : JsString) (time : Instant) (s : Store) :
    Store :=
  if stoppable firmId s then
    let fences := holdPreparedMeetingFence
      (s.meetingPlans.filter (MeetingPlan.reached firmId time)) s.fences
    let meetingPlans := s.meetingPlans.map fun plan =>
      if plan.reached firmId time then plan.interrupt reason else plan
    { s with fences := fences, meetingPlans := meetingPlans }
  else s

def replyHold : HoldInput := ⟨.uncertainReply, js "confirm_reply", replyHoldBlocks⟩

/-- A plan's reply is pending, and the cold outreach to its firm stops. -/
def pendCandidate (now : Micros) (candidate : MatchCandidate) (s : Store) : Option Store :=
  match candidate.authority with
  | .outreachPlan id => stopColdEnrollments candidate.firmId now (pendPlan id s)
  | .opportunity _ => some s

/-- A human or uncertain message, for one candidate. -/
def replyCandidate (r : Reply) (now : Micros) (x : Session) (candidate : MatchCandidate) :
    Option Session :=
  match pendCandidate now candidate x.store with
  | none => none
  | some stopped =>
    holdCandidate replyHold candidate { x with
      store := interruptMeetingPlansForFirm candidate.firmId (js "reply_received") r.internalDate
        stopped }

/-! ## A bounce -/

/-- Never the reporting daemon's address. -/
def EmailRoute.bounced (firmId : FirmId) (contactId : Option Uuid)
    (reportingAddress : Option JsString) (route : EmailRoute) : Bool :=
  route.firmId = firmId && (contactId = none || route.contactId = contactId) &&
    (route.eligibility = .candidate || route.eligibility = .usable) &&
    reportingAddress ≠ some route.address

/-- The routes after a bounce, and the addresses it invalidated. -/
def invalidateBouncedRoute (firmId : FirmId) (contactId : Option Uuid)
    (reportingAddress : Option JsString) (routes : List EmailRoute) :
    List JsString × List EmailRoute :=
  ((routes.filter (EmailRoute.bounced firmId contactId reportingAddress)).map EmailRoute.address,
    routes.map fun route =>
      if route.bounced firmId contactId reportingAddress then
        { route with eligibility := .invalid, version := route.version + 1 }
      else route)

/-- What a processing reads of the ramp's world. -/
structure RampReads where
  env : Outbound.RampEnv
  /-- The day of the send the message answers. -/
  originatingSend : Option (Uuid × BusinessDate)
  /-- The business date of the message. -/
  businessDate : BusinessDate

/-- A bounce is counted against the day of the send it answers. -/
def countBounce (r : Reply) (reads : RampReads) (s : Store) : Option Store :=
  let (mailboxId, businessDate) := reads.originatingSend.getD (r.mailboxId, reads.businessDate)
  (Outbound.recordBounceAgainstDay Outbound.greatest reads.env s.ramp mailboxId businessDate).map
    fun (_, ramp) => { s with ramp := ramp }

def countOptOut (r : Reply) (reads : RampReads) (s : Store) : Option Store :=
  (Outbound.recordDaySignal Outbound.greatest s.ramp r.mailboxId reads.businessDate .optOut).map
    fun ramp => { s with ramp := ramp }

def routeTarget (candidate : MatchCandidate) : JsString :=
  js "route:" ++ matchAuthorityKey candidate

def routeEffect (candidate : MatchCandidate) (addresses : List JsString) : MailEffect where
  kind := .routeInvalidated
  targetKey := routeTarget candidate
  holdId := none
  suppressionEventId := none
  detail := .route candidate.firmId addresses

/-- The route of a candidate, the bounce counted with the first this processing invalidates. -/
def invalidateCandidate (r : Reply) (reads : RampReads) (candidate : MatchCandidate)
    (x : Session) : Option Session :=
  if effectRecorded .routeInvalidated (routeTarget candidate) x.store then some x
  else
    match (if x.counted then some x.store else countBounce r reads x.store) with
    | none => none
    | some counted =>
      let (addresses, routes) :=
        invalidateBouncedRoute candidate.firmId candidate.contactId r.headerFrom counted.routes
      (recordEffect (routeEffect candidate addresses) { counted with routes := routes }).map
        fun (_, store) =>
          { x with
            store := store
            effects := x.effects ++
              [⟨.routeInvalidated, routeTarget candidate, none, none, true⟩]
            counted := true }

def routeHold : HoldInput := ⟨.routeInvalid, js "resume_after_review", [.emailSend]⟩

def bounceCandidate (r : Reply) (reads : RampReads) (x : Session) (candidate : MatchCandidate) :
    Option Session :=
  (invalidateCandidate r reads candidate x).bind (holdCandidate routeHold candidate)

/-! ## An opt-out -/

/-- The message as Gmail knows it. -/
def Reply.optOutCommand (r : Reply) : JsString :=
  js "mail-message:" ++ r.mailboxId ++ js ":" ++ r.providerMessageId

def handleStop (r : Reply) (address : JsString) : Suppression.RecordSuppressionInput where
  scope := .handle
  firmId := none
  value := some address
  source := .prospectOptOut
  notSupersession := rfl
  channel := .email
  commandId := some r.optOutCommand
  fallbackKey := none

def firmStop (r : Reply) (firmId : FirmId) : Suppression.RecordSuppressionInput where
  scope := .firm
  firmId := some firmId
  value := none
  source := .prospectOptOut
  notSupersession := rfl
  channel := .email
  commandId := some (r.optOutCommand ++ js ":firm")
  fallbackKey := none

def suppressionContext (r : Reply) (now : Instant) : Suppression.Context where
  platform := r.platform
  workspaceId := r.workspaceId
  actor := .system
  now := now
  newId := []

/-- A stop: the event it is recorded as, if it is not refused. -/
def suppress (r : Reply) (now : Instant) (input : Suppression.RecordSuppressionInput) (s : Store) :
    Option (Option JsString × Store) :=
  match (Suppression.recordSuppression (suppressionContext r now) input s.database).result with
  | .error _ => none
  | .ok (.refused _, _) => some (none, s)
  | .ok (.accepted recorded, suppression) =>
    some (some recorded.eventId, { s with suppression := suppression })

def suppressionEffect (kind : MailEffectKind) (targetKey eventId : JsString) : MailEffect where
  kind := kind
  targetKey := targetKey
  holdId := none
  suppressionEventId := some eventId
  detail := .none

/-- A stop behind its effect row, `after` done with the stop and before the row. -/
def suppressOnce (r : Reply) (now : Instant) (input : Suppression.RecordSuppressionInput)
    (kind : MailEffectKind) (targetKey : JsString) (after : Store → Option Store) (x : Session) :
    Option Session :=
  if effectRecorded kind targetKey x.store then some x
  else
    match suppress r now input x.store with
    | none => none
    | some (none, store) => some { x with store := store }
    | some (some eventId, stopped) =>
      (after stopped).bind fun counted =>
        (recordEffect (suppressionEffect kind targetKey eventId) counted).map fun (_, store) =>
          { x with
            store := store
            effects := x.effects ++ [⟨kind, targetKey, none, some eventId, true⟩]
            suppressionEventIds := x.suppressionEventIds ++ [eventId] }

def handleTarget (address : JsString) : JsString := js "handle:" ++ address

def firmTarget (firmId : FirmId) : JsString := js "firm:" ++ firmId.text

def suppressSender (r : Reply) (now : Instant) (reads : RampReads) (x : Session) :
    Option Session :=
  match r.headerFrom with
  | none => some x
  | some address => suppressOnce r now (handleStop r address) .handleSuppressed
      (handleTarget address) (countOptOut r reads) x

def suppressOnlyFirm (r : Reply) (now : Instant) (candidates : List MatchCandidate) (x : Session) :
    Option Session :=
  match candidates with
  | [only] => suppressOnce r now (firmStop r only.firmId) .firmSuppressed (firmTarget only.firmId)
      some x
  | _ => some x

/-- The handle always; the firm when one candidate was found. -/
def optOut (r : Reply) (now : Instant) (reads : RampReads) (candidates : List MatchCandidate)
    (x : Session) : Option Session :=
  (suppressSender r now reads x).bind (suppressOnlyFirm r now candidates)

/-! ## The rest -/

def automatedEffect (r : Reply) (messageId : Uuid) : MailEffect where
  kind := .noEffect
  targetKey := js "message:" ++ messageId
  holdId := none
  suppressionEventId := none
  detail := .automated r.classification.signals

def recordAutomated (r : Reply) (x : Session) : Option Session :=
  let effect := automatedEffect r x.store.messageId
  (recordEffect effect x.store).map fun (applied, store) =>
    { x with
      store := store
      effects := x.effects ++ [⟨.noEffect, effect.targetKey, none, none, applied⟩] }

def discardMessageBody (s : Store) : Store := { s with body := none, metadataOnly := true }

def replyItemKey (messageId : Uuid) : JsString := js "reply-message:" ++ messageId

def promotionEffect (r : Reply) (messageId : Uuid) (candidate : MatchCandidate) : MailEffect where
  kind := .replyLaneEntry
  targetKey := replyItemKey messageId
  holdId := none
  suppressionEventId := none
  detail := .reply candidate.firmId r.classification.class_

def promoteCandidate (r : Reply) (x : Session) (candidate : MatchCandidate) : Option Session :=
  let messageId := x.store.messageId
  if effectRecorded .replyLaneEntry (replyItemKey messageId) x.store then some x
  else
    (recordEffect (promotionEffect r messageId candidate)
      { x.store with promotions := x.store.promotions ++
          [⟨candidate.firmId, candidate.contactId, messageId, r.internalDate⟩] }).map
      fun (_, store) =>
        { x with
          store := store
          effects := x.effects ++ [⟨.replyLaneEntry, replyItemKey messageId, none, none, true⟩] }

structure ClassificationEffects where
  effects : List AppliedEffect
  holdIds : List HoldId
  suppressionEventIds : List JsString
  bodyDiscarded : Bool
  deriving DecidableEq

/-- What a processing reads beside its tables. -/
structure Reads where
  now : Instant
  /-- `now()`, as the enrollments keep it. -/
  nowMicros : Micros
  ramp : RampReads

/-- The consequences of the class. -/
def applyClass (r : Reply) (reads : Reads) (candidates : List MatchCandidate) (x : Session) :
    Option Session :=
  match r.classification.class_ with
  | .human | .uncertain => candidates.foldlM (replyCandidate r reads.nowMicros) x
  | .bounce => candidates.foldlM (bounceCandidate r reads.ramp) x
  | .optOut => optOut r reads.now reads.ramp candidates x
  | .automated => recordAutomated r x

/-- An out-of-office body is not retained. -/
def Reply.vacation (r : Reply) : Bool := js "vacation_pattern" ∈ r.classification.signals

def applyVacation (r : Reply) (x : Session) : Session :=
  if r.vacation then { x with store := discardMessageBody x.store } else x

def applyPromotion (r : Reply) (candidates : List MatchCandidate) (x : Session) : Option Session :=
  match r.classification.class_ with
  | .automated => some x
  | _ => candidates.foldlM (promoteCandidate r) x

def applyClassificationEffects (r : Reply) (reads : Reads) (candidates : List MatchCandidate)
    (s : Store) : Option (ClassificationEffects × Store) :=
  (applyClass r reads candidates (.begin s)).bind fun x =>
    (applyPromotion r candidates (applyVacation r x)).map fun x =>
      (⟨x.effects, x.holdIds, x.suppressionEventIds, r.vacation⟩, x.store)

/-! ## A processing -/

/-- The import's matches, then the effects. `found`: what the first rule that finds anything
resolves to. -/
def processMessage (r : Reply) (reads : Reads) (found : List MatchCandidate) (s : Store) :
    Option (Option ClassificationEffects × Store) :=
  match distinct found with
  | [] => some (none, s)
  | candidates =>
    match recordMatchesForImport candidates [] false s.matching with
    | .raise => none
    | .accept _ matching =>
      (applyClassificationEffects r reads candidates
        { s with matching := matching, matched := true }).map fun (effects, s') =>
          (some effects, s')

/-! ## The system -/

inductive Input
  | process (reads : Reads) (found : List MatchCandidate)
  /-- Whatever else the workspace holds may have changed. -/
  | world (crm : Pipeline.Store) (plans : Table OutreachPlan.id) (routes : List EmailRoute)
      (sequences : SequenceTables) (meetingPlans : List MeetingPlan)
      (fences : Table DraftFence.id) (ramp : Outbound.RampTables)
  /-- A resolution's writes on the matches. -/
  | selectMatch (key : Uuid) (c : ResolveContext)
  | openHold (hold : Hold)
  | releaseHold (id : HoldId) (now : Instant)
  /-- The body is read again. -/
  | storeBody (text : JsString)
  /-- A stop of another command. -/
  | suppress (c : Suppression.Context) (input : Suppression.RecordSuppressionInput)

/-- A hold that only a processing of the message opens. -/
def isReplyHold (messageId : Uuid) (hold : Hold) : Bool :=
  hold.reasonCode = .uncertainReply && hold.sourceEventKind = js "mail_message" &&
    hold.sourceEventId = some messageId

def Reply.owns (r : Reply) (commandId : Option JsString) : Bool :=
  commandId = some r.optOutCommand || commandId = some (r.optOutCommand ++ js ":firm")

def step (r : Reply) (s : Store) : Input → Store
  | .process reads found => ((processMessage r reads found s).map Prod.snd).getD s
  | .world crm plans routes sequences meetingPlans fences ramp =>
    { s with
      matching := { s.matching with crm := crm, plans := plans }
      routes := routes
      sequences := sequences
      meetingPlans := meetingPlans
      fences := fences
      ramp := ramp }
  | .selectMatch key c =>
    { s with matching := s.matching.withMatches (Matches.selectMatch key c s.matching.stored.matches_) }
  | .openHold hold =>
    if isReplyHold s.messageId hold then s
    else s.withHolds (Matches.openHold hold s.holds).2
  | .releaseHold id now =>
    s.withHolds (s.holds.modify id fun hold => { hold with releasedAt := some now })
  | .storeBody text => { s with body := some text, metadataOnly := false }
  | .suppress c input =>
    if r.owns input.commandId then s
    else
      match (Suppression.recordSuppression c input s.database).result with
      | .error _ => s
      | .ok (_, suppression) => { s with suppression := suppression }

end FoundingSales.Mail.Effects
