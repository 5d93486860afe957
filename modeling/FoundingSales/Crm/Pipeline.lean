import FoundingSales.Crm.Firms
import FoundingSales.Library.Runs

/-!
The pipeline: stages, opportunities, their stage events, pins and domain events, and the
seven commands that write them.

A command is one transaction under the firm's lock: a refusal writes nothing, and where a
table's condition rejects a row the whole command is rolled back. `now()` does not go back.
-/

namespace FoundingSales.Crm.Pipeline

open Tables

/-! ## Rows -/

inductive TerminalKind
  | won | lost
  deriving DecidableEq

structure PipelineStage where
  id : Uuid
  key : JsString
  position : Nat
  terminalKind : Option TerminalKind
  retired : Bool
  deriving DecidableEq

/-- `pipeline_stages_position_positive` and `pipeline_stages_terminal_not_retired` -/
def PipelineStage.checks (stage : PipelineStage) : Bool :=
  1 ≤ stage.position && (stage.terminalKind = none || !stage.retired)

abbrev PipelineStages := Table PipelineStage.id

inductive OpportunityStatus
  | open_ | won | lost
  deriving DecidableEq

def TerminalKind.status : TerminalKind → OpportunityStatus
  | .won => .won
  | .lost => .lost

inductive ControlMode
  | automated | manual
  deriving DecidableEq

/-- `MANUAL_MODE_ORIGINS` -/
inductive ManualModeOrigin
  | humanReply | engagedCall | directSend | salespersonCommand | directSendKeepAutomation
  deriving DecidableEq

/-- `WRITABLE_MANUAL_MODE_ORIGINS` -/
def isWritableManualModeOrigin : ManualModeOrigin → Bool
  | .humanReply | .engagedCall | .salespersonCommand => true
  | .directSend | .directSendKeepAutomation => false

inductive StageControlMode
  | legacyRules | human
  deriving DecidableEq

structure Opportunity where
  id : Uuid
  firmId : FirmId
  stageId : Uuid
  status : OpportunityStatus
  controlMode : ControlMode
  controlModeReason : Option JsString
  controlModeChangedAt : Instant
  controlModeOrigin : Option ManualModeOrigin
  openedAt : Instant
  closedAt : Option Instant
  closeReason : Option JsString
  reopenedFrom : Option Uuid
  displayName : Option JsString
  stageControlMode : StageControlMode
  deriving DecidableEq

/-- `length` counts code points: a low surrogate ends one. -/
def sqlLength (text : JsString) : Nat := text.countP fun c => !(0xDC00 ≤ c && c ≤ 0xDFFF)

/-- `btrim(text) <> '' AND length(text) <= bound` -/
def presentWithin (bound : Nat) (text : JsString) : Bool :=
  text.any (· ≠ 32) && sqlLength text ≤ bound

/-- The conditions of the table that a command's row can miss. -/
def Opportunity.checks (o : Opportunity) : Bool :=
  (o.controlMode = .automated || o.controlModeReason.any (presentWithin 300)) &&
    decide (o.status = .open_) = o.closedAt.isNone &&
    (o.status ≠ .lost || o.closeReason.any (presentWithin 500)) &&
    o.closeReason.all (presentWithin 500) &&
    o.closedAt.all (o.openedAt ≤ ·) &&
    o.displayName.all (presentWithin 160)

abbrev Opportunities := Table Opportunity.id

structure StageEvent where
  opportunityId : Uuid
  firmId : FirmId
  fromStageId : Option Uuid
  toStageId : Uuid
  actor : Actor
  reason : Option JsString
  occurredAt : Instant
  deriving DecidableEq

/-- `opportunity_stage_events_reason_bounded` and `opportunity_stage_events_moves` -/
def StageEvent.checks (event : StageEvent) : Bool :=
  event.reason.all (presentWithin 500) && event.fromStageId ≠ some event.toStageId

structure StagePin where
  opportunityId : Uuid
  firmId : FirmId
  stageId : Uuid
  pinnedByUserId : Uuid
  pinnedAt : Instant
  deriving DecidableEq

inductive DomainEventKind
  | terminalStop | manualMode | reopened
  deriving DecidableEq

/-- `${id}:${stage.key}`, `${id}:${instant}` and `${id}`. -/
inductive DedupeKey
  | stage (opportunityId : Uuid) (key : JsString)
  | instant (opportunityId : Uuid) (changedAt : Instant)
  | opportunity (opportunityId : Uuid)
  deriving DecidableEq

structure DomainEvent where
  kind : DomainEventKind
  firmId : FirmId
  opportunityId : Uuid
  dedupeKey : DedupeKey
  actor : Actor
  origin : Option ManualModeOrigin
  occurredAt : Instant
  /-- The live enrollments a stop is owed to. -/
  owedEnrollmentIds : Option (List Uuid)
  deriving DecidableEq

def DomainEvent.dedupe (event : DomainEvent) : DomainEventKind × DedupeKey :=
  (event.kind, event.dedupeKey)

/-- `sequence_enrollments`, with whether a step of it is pending or held. -/
structure Enrollment where
  id : Uuid
  firmId : FirmId
  opportunityId : Option Uuid
  originKind : JsString
  ended : Bool
  unfinished : Bool
  deriving DecidableEq

structure Store where
  firms : Firms
  stages : PipelineStages
  opportunities : Opportunities
  /-- Newest first. -/
  stageEvents : List StageEvent
  pins : Table StagePin.opportunityId
  domainEvents : Table DomainEvent.dedupe
  enrollments : List Enrollment

/-! ## Reads -/

def readStageByKey (stages : PipelineStages) (key : JsString) : Option PipelineStage :=
  stages.rows.find? fun stage => stage.key = key

/-- `ORDER BY position` -/
def listPipelineStages (stages : PipelineStages) : List PipelineStage :=
  stages.rows.insertionSort fun a b => a.position ≤ b.position

def openOpportunities (opportunities : Opportunities) (firmId : FirmId) : List Opportunity :=
  opportunities.rows.filter fun o => o.firmId = firmId && o.status = .open_

def closedOpportunities (opportunities : Opportunities) (firmId : FirmId)
    (opportunityId : Option Uuid) : List Opportunity :=
  opportunities.rows.filter fun o =>
    o.firmId = firmId && o.status ≠ .open_ && opportunityId.all (· = o.id)

/-- The enrollments a release to automated waits for. -/
def liveWork (enrollments : List Enrollment) (opportunityId : Uuid) : List Enrollment :=
  enrollments.filter fun n => n.opportunityId = some opportunityId && (!n.ended || n.unfinished)

/-! ## Commands -/

inductive PipelineRefusal
  | firm (reason : CrmRefusalCode)
  | invalidInput | opportunityOpenExists | stageUnknown | stageRetired | opportunityUnknown
  | opportunityClosed | stageChangedElsewhere | lostReasonRequired | adminOnly
  | liveWorkPresent (enrollmentIds : List Uuid)
  | opportunityAmbiguous | opportunityNotClosed
  deriving DecidableEq

/-- A raised command is rolled back. -/
inductive Outcome (α : Type)
  | accept (value : α) (s : Store)
  | refuse (reason : PipelineRefusal)
  | raise

/-- What a command runs in. -/
structure Context where
  actor : Actor
  /-- `now()` -/
  now : Instant
  /-- `gen_random_uuid()` -/
  newId : Uuid

def decideAdminOnly (actor : Actor) : Option PipelineRefusal :=
  match actor with
  | .system => none
  | .user _ role => if role = .admin then none else some .adminOnly

def writeStageEvent (c : Context) (o : Opportunity) (fromStageId : Option Uuid) (toStageId : Uuid)
    (reason : Option JsString) (s : Store) : Option Store :=
  let event : StageEvent := ⟨o.id, o.firmId, fromStageId, toStageId, c.actor, reason, c.now⟩
  if event.checks then some { s with stageEvents := event :: s.stageEvents } else none

/-- `ON CONFLICT ON CONSTRAINT crm_domain_events_dedupe DO NOTHING` -/
def emitCrmDomainEvent (event : DomainEvent) (s : Store) : Store :=
  { s with domainEvents := (s.domainEvents.insert? event).getD s.domainEvents }

structure OpenInput where
  firmId : FirmId
  stageKey : Option JsString
  name : Option JsString
  deriving DecidableEq

/-- The `INSERT` of an opportunity, with its opening event. -/
def insertOpportunity (c : Context) (o : Opportunity) (reason : Option JsString) (s : Store) :
    Option Store :=
  if o.checks then do
    let opportunities ← s.opportunities.insert? o
    writeStageEvent c o none o.stageId reason { s with opportunities := opportunities }
  else none

def openedRow (c : Context) (input : OpenInput) (explicit : Bool) (stage : PipelineStage) :
    Opportunity where
  id := c.newId
  firmId := input.firmId
  stageId := stage.id
  status := .open_
  controlMode := if explicit then .manual else .automated
  controlModeReason := if explicit then some (js "explicit opportunity creation") else none
  controlModeChangedAt := c.now
  controlModeOrigin := if explicit then some .salespersonCommand else none
  openedAt := c.now
  closedAt := none
  closeReason := none
  reopenedFrom := none
  displayName := if explicit then input.name.map trim else none
  stageControlMode := if explicit then .human else .legacyRules

def createOpportunity (c : Context) (input : OpenInput) (explicit : Bool) (s : Store) :
    Outcome Opportunity :=
  match s.firms.find? input.firmId with
  | none => .refuse (.firm .firmUnknown)
  | some firm =>
    match decideFirmMutation c.actor firm with
    | some reason => .refuse (.firm reason)
    | none =>
      if input.name.any fun name => (trim name).length < 1 || (trim name).length > 160 then
        .refuse .invalidInput
      else if !explicit && openOpportunities s.opportunities input.firmId ≠ [] then
        .refuse .opportunityOpenExists
      else
        match readStageByKey s.stages (input.stageKey.getD (js "new")) with
        | none => .refuse .stageUnknown
        | some stage =>
          if stage.retired then .refuse .stageRetired
          else
            match insertOpportunity c (openedRow c input explicit stage) none s with
            | none => .raise
            | some s' => .accept (openedRow c input explicit stage) s'

def openOpportunity (c : Context) (input : OpenInput) (s : Store) : Outcome Opportunity :=
  createOpportunity c { input with name := none } false s

def openExplicitOpportunity (c : Context) (input : OpenInput) (s : Store) : Outcome Opportunity :=
  createOpportunity c input true s

def Opportunity.movedTo (o : Opportunity) (c : Context) (stage : PipelineStage)
    (reason : Option JsString) : Opportunity :=
  { o with
    stageId := stage.id
    status := (stage.terminalKind.map TerminalKind.status).getD o.status
    closedAt := if stage.terminalKind.isSome then some c.now else o.closedAt
    closeReason := reason.or o.closeReason }

/-- The update, its event, and for Won and Lost the terminal-stop signal. -/
def moveOpportunityStage (c : Context) (o : Opportunity) (stage : PipelineStage)
    (reason : Option JsString) (s : Store) : Option (Opportunity × Store) :=
  let updated := o.movedTo c stage reason
  if updated.checks then do
    let s' ← writeStageEvent c updated (some o.stageId) stage.id reason
      { s with opportunities := s.opportunities.put updated }
    if stage.terminalKind.isSome then
      let owed := s.enrollments.filter fun n => n.opportunityId = some o.id && !n.ended
      some (updated, emitCrmDomainEvent
        { kind := .terminalStop
          firmId := updated.firmId
          opportunityId := updated.id
          dedupeKey := .stage updated.id stage.key
          actor := c.actor
          origin := none
          occurredAt := c.now
          owedEnrollmentIds := some (owed.map Enrollment.id) } s')
    else some (updated, s')
  else none

/-- A person's move is a pin; a close clears it. -/
def pinStage (c : Context) (o : Opportunity) (stage : PipelineStage) (s : Store) : Store :=
  match stage.terminalKind, c.actor with
  | none, .user userId _ =>
    { s with pins := s.pins.upsert ⟨o.id, o.firmId, stage.id, userId, c.now⟩ }
  | none, .system => s
  | some _, _ => { s with pins := s.pins.delete o.id }

structure ChangeStageInput where
  opportunityId : Uuid
  toStageKey : JsString
  reason : Option JsString
  expectedStageKey : Option JsString
  deriving DecidableEq

def changeStage (c : Context) (input : ChangeStageInput) (s : Store) : Outcome Opportunity :=
  match s.opportunities.find? input.opportunityId with
  | none => .refuse .opportunityUnknown
  | some o =>
    match s.firms.find? o.firmId with
    | none => .refuse (.firm .firmUnknown)
    | some firm =>
      match decideFirmMutation c.actor firm with
      | some reason => .refuse (.firm reason)
      | none =>
        if o.status ≠ .open_ then .refuse .opportunityClosed
        else
          match readStageByKey s.stages input.toStageKey with
          | none => .refuse .stageUnknown
          | some stage =>
            if stage.retired then .refuse .stageRetired
            else if stage.id = o.stageId then .accept o s
            else if input.expectedStageKey.any fun expected =>
                (s.stages.find? o.stageId).map PipelineStage.key ≠ some expected then
              .refuse .stageChangedElsewhere
            else if stage.terminalKind = some .lost && (input.reason.map trim).all (· = []) then
              .refuse .lostReasonRequired
            else
              match moveOpportunityStage c o stage (input.reason.map trim) s with
              | none => .raise
              | some (moved, s') => .accept moved (pinStage c moved stage s')

structure ManualInput where
  opportunityId : Uuid
  reason : JsString
  origin : ManualModeOrigin
  /-- The origin kinds the stop is owed to, where it is narrowed. -/
  owedOriginKinds : Option (List JsString)
  deriving DecidableEq

def Opportunity.withOrigin (o : Opportunity) (origin : ManualModeOrigin) : Opportunity :=
  { o with controlModeOrigin := some origin }

def Opportunity.toManual (o : Opportunity) (c : Context) (input : ManualInput) : Opportunity :=
  { o with
    controlMode := .manual
    controlModeReason := some (trim input.reason)
    controlModeOrigin := some input.origin
    controlModeChangedAt := c.now }

/-- An `UPDATE` of one row that its conditions let through. -/
def writeOpportunity (o : Opportunity) (s : Store) : Option Store :=
  if o.checks then some { s with opportunities := s.opportunities.put o } else none

theorem writeOpportunity_spec {o : Opportunity} {s s' : Store} (h : writeOpportunity o s = some s') :
    s' = { s with opportunities := s.opportunities.put o } := by
  simp only [writeOpportunity, Option.ite_none_right_eq_some, Option.some.injEq] at h
  exact h.2.symm

def setManualControlMode (c : Context) (input : ManualInput) (s : Store) : Outcome Opportunity :=
  if !isWritableManualModeOrigin input.origin then .refuse .invalidInput
  else
    match s.opportunities.find? input.opportunityId with
    | none => .refuse .opportunityUnknown
    | some o =>
      match s.firms.find? o.firmId with
      | none => .refuse (.firm .firmUnknown)
      | some firm =>
        match decideFirmMutation c.actor firm with
        | some reason => .refuse (.firm reason)
        | none =>
          if trim input.reason = [] then .refuse .invalidInput
          else if o.controlMode = .manual then
            -- Escalation only: a signal never overwrites a recorded takeover.
            if input.origin = .salespersonCommand && o.controlModeOrigin ≠ some .salespersonCommand then
              match writeOpportunity (o.withOrigin .salespersonCommand) s with
              | none => .raise
              | some s' => .accept (o.withOrigin .salespersonCommand) s'
            else .accept o s
          else
            match writeOpportunity (o.toManual c input) s with
            | none => .raise
            | some s' =>
              let owed := s.enrollments.filter fun n =>
                n.firmId = o.firmId && !n.ended && input.owedOriginKinds.all (n.originKind ∈ ·)
              .accept (o.toManual c input) (emitCrmDomainEvent
                { kind := .manualMode
                  firmId := o.firmId
                  opportunityId := o.id
                  dedupeKey := .instant o.id c.now
                  actor := c.actor
                  origin := some input.origin
                  occurredAt := c.now
                  owedEnrollmentIds := some (owed.map Enrollment.id) } s')

structure ClassifyInput where
  opportunityId : Uuid
  origin : ManualModeOrigin
  reason : JsString
  deriving DecidableEq

def directSendReleaseReason : JsString :=
  js "released to automated: classified as a direct Gmail send, which is not a takeover since 30 September 2026"

def Opportunity.toAutomated (o : Opportunity) (c : Context) : Opportunity :=
  { o with
    controlMode := .automated
    controlModeOrigin := none
    controlModeReason := some directSendReleaseReason
    controlModeChangedAt := c.now }

def classifyControlModeOrigin (c : Context) (input : ClassifyInput) (s : Store) :
    Outcome Opportunity :=
  match decideAdminOnly c.actor with
  | some reason => .refuse reason
  | none =>
    if input.origin ≠ .directSend && !isWritableManualModeOrigin input.origin then
      .refuse .invalidInput
    else
      match s.opportunities.find? input.opportunityId with
      | none => .refuse .opportunityUnknown
      | some o =>
        if (s.firms.find? o.firmId).isNone then .refuse (.firm .firmUnknown)
        else if trim input.reason = [] then .refuse .invalidInput
        else
          -- The `WHERE` of both updates.
          let unrecorded := o.controlMode = .manual && o.controlModeOrigin = none
          if input.origin = .directSend then
            if o.reopenedFrom.isSome then .refuse .invalidInput
            else if liveWork s.enrollments o.id ≠ [] then
              .refuse (.liveWorkPresent ((liveWork s.enrollments o.id).map Enrollment.id))
            else if unrecorded then
              match writeOpportunity (o.toAutomated c) s with
              | none => .raise
              | some s' => .accept (o.toAutomated c) s'
            else .refuse .invalidInput
          else if unrecorded then
            match writeOpportunity (o.withOrigin input.origin) s with
            | none => .raise
            | some s' => .accept (o.withOrigin input.origin) s'
          else .refuse .invalidInput

structure ReopenOutcome where
  opportunityId : Uuid
  firmId : FirmId
  reopenedFrom : Uuid
  deriving DecidableEq

structure ReopenInput where
  firmId : FirmId
  opportunityId : Option Uuid
  reason : JsString
  deriving DecidableEq

def reopenedRow (c : Context) (input : ReopenInput) (closed : Opportunity)
    (first : PipelineStage) : Opportunity where
  id := c.newId
  firmId := input.firmId
  stageId := first.id
  status := .open_
  controlMode := .manual
  controlModeReason := some (js "reopened: " ++ trim input.reason)
  controlModeChangedAt := c.now
  controlModeOrigin := none
  openedAt := c.now
  closedAt := none
  closeReason := none
  reopenedFrom := some closed.id
  displayName := closed.displayName
  stageControlMode := if input.opportunityId = none then closed.stageControlMode else .human

def reopenSelectedOpportunity (c : Context) (input : ReopenInput) (s : Store) :
    Outcome ReopenOutcome :=
  match s.firms.find? input.firmId with
  | none => .refuse (.firm .firmUnknown)
  | some firm =>
    match decideFirmMutation c.actor firm with
    | some reason => .refuse (.firm reason)
    | none =>
      if trim input.reason = [] then .refuse .invalidInput
      else if input.opportunityId = none && openOpportunities s.opportunities input.firmId ≠ [] then
        .refuse .opportunityOpenExists
      else
        match closedOpportunities s.opportunities input.firmId input.opportunityId with
        | _ :: _ :: _ => .refuse .opportunityAmbiguous
        | [] => .refuse .opportunityNotClosed
        | [closed] =>
          match (listPipelineStages s.stages).find? fun stage =>
              stage.terminalKind = none && !stage.retired with
          | none => .refuse .stageUnknown
          | some first =>
            let reopened := reopenedRow c input closed first
            match insertOpportunity c reopened (some (trim input.reason)) s with
            | none => .raise
            | some s' =>
              .accept ⟨reopened.id, input.firmId, closed.id⟩ (emitCrmDomainEvent
                { kind := .reopened
                  firmId := input.firmId
                  opportunityId := reopened.id
                  dedupeKey := .opportunity reopened.id
                  actor := c.actor
                  origin := none
                  occurredAt := c.now
                  owedEnrollmentIds := none } s')

def reopenOpportunity (c : Context) (firmId : FirmId) (reason : JsString) (s : Store) :
    Outcome ReopenOutcome :=
  reopenSelectedOpportunity c ⟨firmId, none, reason⟩ s

def reopenExplicitOpportunity (c : Context) (firmId : FirmId) (opportunityId : Uuid)
    (reason : JsString) (s : Store) : Outcome ReopenOutcome :=
  reopenSelectedOpportunity c ⟨firmId, some opportunityId, reason⟩ s

/-! ## The system -/

inductive Command
  | openOpportunity (input : OpenInput)
  | openExplicitOpportunity (input : OpenInput)
  | changeStage (input : ChangeStageInput)
  | setManualControlMode (input : ManualInput)
  | classifyControlModeOrigin (input : ClassifyInput)
  | reopenOpportunity (firmId : FirmId) (reason : JsString)
  | reopenExplicitOpportunity (firmId : FirmId) (opportunityId : Uuid) (reason : JsString)

/-- What a command leaves behind. -/
def Outcome.committed {α : Type} (outcome : Outcome α) (s : Store) : Store :=
  match outcome with
  | .accept _ s' => s'
  | .refuse _ | .raise => s

def Command.run (command : Command) (c : Context) (s : Store) : Store :=
  match command with
  | .openOpportunity input => (Pipeline.openOpportunity c input s).committed s
  | .openExplicitOpportunity input => (Pipeline.openExplicitOpportunity c input s).committed s
  | .changeStage input => (Pipeline.changeStage c input s).committed s
  | .setManualControlMode input => (Pipeline.setManualControlMode c input s).committed s
  | .classifyControlModeOrigin input => (Pipeline.classifyControlModeOrigin c input s).committed s
  | .reopenOpportunity firmId reason => (Pipeline.reopenOpportunity c firmId reason s).committed s
  | .reopenExplicitOpportunity firmId opportunityId reason =>
    (Pipeline.reopenExplicitOpportunity c firmId opportunityId reason s).committed s

/-- A stage is added, or changed without a change of its terminal kind. -/
def editStage (row : PipelineStage) (stages : PipelineStages) : PipelineStages :=
  if row.checks && (stages.find? row.id).all (fun stage => stage.terminalKind = row.terminalKind) &&
      stages.rows.all (fun stage => stage.id = row.id || stage.key ≠ row.key) then
    stages.upsert row
  else stages

inductive Input
  | command (actor : Actor) (elapsed : Nat) (newId : Uuid) (command : Command)
  | editStage (row : PipelineStage)
  | writeFirm (row : FirmRow)
  | writeEnrollments (rows : List Enrollment)

structure World where
  store : Store
  clock : Instant

def step (w : World) : Input → World
  | .command actor elapsed newId command =>
    ⟨command.run ⟨actor, w.clock + elapsed, newId⟩ w.store, w.clock + elapsed⟩
  | .editStage row => { w with store := { w.store with stages := editStage row w.store.stages } }
  | .writeFirm row => { w with store := { w.store with firms := w.store.firms.upsert row } }
  | .writeEnrollments rows => { w with store := { w.store with enrollments := rows } }

end FoundingSales.Crm.Pipeline
