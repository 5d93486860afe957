import Mathlib.Data.List.Sort
import FoundingSales.Crm.Firms
import FoundingSales.Library.Locking
import FoundingSales.Sequences.Enrollments

/-!
Sequence definition and publication: the versions of one sequence and their steps, the
commands that write them, and the constraints and triggers of the tables. Templates and
generated ids belong to the outside; they may change between any two statements.
-/

namespace FoundingSales.Sequences

open Locking Crm

/-! ## Rows -/

inductive SequenceVersionState
  | draft | published | retired
  deriving DecidableEq

inductive NoAnswerAction
  | advance | retryCall
  deriving DecidableEq

inductive SequenceDelay
  | elapsed (hours : Int)
  | businessDays (days : Int)
  deriving DecidableEq

def SequenceDelay.amount : SequenceDelay → Int
  | elapsed hours => hours
  | businessDays days => days

/-- A row of `sequence_versions`. -/
structure SequenceVersion where
  id : Uuid
  version : Nat
  state : SequenceVersionState
  publishedAt : Option Micros
  retiredAt : Option Micros
  createdAt : Micros
  updatedAt : Micros
  deriving DecidableEq

/-- A row of `sequence_steps`. -/
structure SequenceStepRow where
  id : Uuid
  sequenceVersionId : Uuid
  ordinal : Int
  channel : StepChannel
  delay : SequenceDelay
  onNoAnswer : Option NoAnswerAction
  templateVersionId : Option Uuid
  deriving DecidableEq

/-- One sequence, with its versions and their steps. -/
structure Plan where
  sequenceId : Uuid
  versions : List SequenceVersion
  steps : List SequenceStepRow
  deriving DecidableEq

/-- What `createSequence` leaves. -/
def Plan.created (sequenceId : Uuid) : Plan := ⟨sequenceId, [], []⟩

def Plan.version? (plan : Plan) (id : Uuid) : Option SequenceVersion :=
  plan.versions.find? (·.id = id)

def Plan.stepsOf (plan : Plan) (id : Uuid) : List SequenceStepRow :=
  plan.steps.filter (·.sequenceVersionId = id)

/-- `readSequenceSteps`: by ordinal. -/
def Plan.readSteps (plan : Plan) (id : Uuid) : List SequenceStepRow :=
  (plan.stepsOf id).insertionSort (·.ordinal ≤ ·.ordinal)

structure TemplateVersion where
  approvedAt : Option Micros
  retiredAt : Option Micros
  deriving DecidableEq

/-- What a statement finds outside the sequence: `gen_random_uuid()` and the templates. -/
structure Outside where
  newId : Uuid
  templates : Uuid → Option TemplateVersion

/-! ## Constraints and triggers -/

inductive DbError
  | stepsImmutable | versionImmutable | check | unique | foreignKey
  deriving DecidableEq

/-- `isImmutabilityRefusal`: 0026's two messages. -/
def isImmutabilityRefusal (err : DbError) : Bool := err = .stepsImmutable

def versionChecks (row : SequenceVersion) : Bool :=
  1 ≤ row.version &&
  (row.state = .draft) == row.publishedAt.isNone &&
  (row.state ≠ .retired || row.retiredAt.isSome) &&
  (row.state = .retired || row.retiredAt.isNone) &&
  (row.retiredAt.all fun retired => row.publishedAt.all fun published => published ≤ retired) &&
  row.createdAt ≤ row.updatedAt

def stepChecks (row : SequenceStepRow) : Bool :=
  1 ≤ row.ordinal &&
  0 ≤ row.delay.amount && row.delay.amount ≤ 8760 &&
  (match row.delay with | .elapsed _ => true | .businessDays days => days ≤ 365) &&
  (row.channel = .callTask) == row.onNoAnswer.isSome &&
  (row.channel = .email) == row.templateVersionId.isSome

/-- `assert_sequence_version_mutable` -/
def assertSequenceVersionMutable (old new : SequenceVersion) : Bool :=
  old.state = .draft ||
    (old.state = .published && new.state = .retired && new.version = old.version &&
      new.publishedAt = old.publishedAt)

/-- `assert_sequence_step_not_published`, on a step of version `id`. -/
def assertSequenceStepNotPublished (plan : Plan) (id : Uuid) : Bool :=
  (plan.version? id).all (·.state = .draft)

/-! ## Statements -/

inductive Lock
  | sequence (id : Uuid)
  | version (id : Uuid)
  deriving DecidableEq

/-- A template version a publication read. -/
structure TemplateRead where
  templateVersionId : Uuid
  template : Option TemplateVersion
  deriving DecidableEq

abbrev DefinitionTx := Tx Lock Outside Plan DbError TemplateRead

/-- `INSERT INTO sequence_versions … RETURNING id` -/
def insertVersion (now : Micros) (version : Nat) (e : Outside) (plan : Plan) :
    Except DbError (Uuid × (Plan → Plan)) :=
  let row : SequenceVersion := ⟨e.newId, version, .draft, none, none, now, now⟩
  if !versionChecks row then .error .check
  else if plan.versions.any fun v => v.id = row.id || v.version = row.version || v.state = .draft
    then .error .unique
  else .ok (row.id, fun plan => { plan with versions := plan.versions ++ [row] })

/-- `UPDATE sequence_versions SET … WHERE …` -/
def updateVersions (which : SequenceVersion → Bool) (set : SequenceVersion → SequenceVersion)
    (plan : Plan) : Except DbError (Unit × (Plan → Plan)) :=
  let rows := plan.versions.filter which
  if !rows.all fun row => assertSequenceVersionMutable row (set row) then .error .versionImmutable
  else if !rows.all fun row => versionChecks (set row) then .error .check
  else .ok ((), fun plan =>
    { plan with versions := plan.versions.map fun row => if which row then set row else row })

/-- The rows an update of versions locks. -/
def versionLocks (which : SequenceVersion → Bool) (plan : Plan) : List Lock :=
  (plan.versions.filter which).map (.version ·.id)

/-- `DELETE FROM sequence_steps WHERE sequence_version_id = …` -/
def deleteSteps (id : Uuid) (plan : Plan) : Except DbError (Unit × (Plan → Plan)) :=
  if plan.stepsOf id ≠ [] ∧ !assertSequenceStepNotPublished plan id then .error .stepsImmutable
  else .ok ((), fun plan =>
    { plan with steps := plan.steps.filter (·.sequenceVersionId ≠ id) })

/-- `INSERT INTO sequence_steps …` -/
def insertStep (row : SequenceStepRow) (e : Outside) (plan : Plan) :
    Except DbError (Unit × (Plan → Plan)) :=
  if !assertSequenceStepNotPublished plan row.sequenceVersionId then .error .stepsImmutable
  else if !stepChecks row then .error .check
  else if plan.steps.any fun step => step.id = row.id ||
      (step.sequenceVersionId = row.sequenceVersionId && step.ordinal = row.ordinal)
    then .error .unique
  else if (plan.version? row.sequenceVersionId).isNone ||
      row.templateVersionId.any fun id => (e.templates id).isNone
    then .error .foreignKey
  else .ok ((), fun plan => { plan with steps := plan.steps ++ [row] })

/-! ## Commands -/

inductive SequenceRefusalCode
  | adminOnly | invalidInput | sequenceUnknown | versionUnknown | versionNotDraft
  | versionNotPublished | versionRetired | versionHasNoSteps | templateUnknown
  | templateUnapproved | templateRetired | draftExists
  deriving DecidableEq

structure CreatedDraft where
  sequenceVersionId : Uuid
  version : Nat
  deriving DecidableEq

/-- A refusal; `draft_exists` on a save names the draft. -/
structure SequenceRefusal where
  reason : SequenceRefusalCode
  draft : Option CreatedDraft
  deriving DecidableEq

abbrev SequenceResult (α : Type) := Except SequenceRefusal α

def refuseSequence {α : Type} (reason : SequenceRefusalCode) : SequenceResult α :=
  .error ⟨reason, none⟩

def acceptSequence {α : Type} (value : α) : SequenceResult α := .ok value

structure DraftStepInput where
  ordinal : Int
  channel : StepChannel
  delay : SequenceDelay
  onNoAnswer : Option NoAnswerAction
  templateVersionId : Option Uuid
  deriving DecidableEq

/-- What a save answers: where the steps went. -/
structure SavedSteps where
  steps : Nat
  sequenceVersionId : Uuid
  version : Nat
  newVersion : Bool
  deriving DecidableEq

/-- A version with its steps in ordinal order. -/
structure SequenceVersionRow where
  row : SequenceVersion
  steps : List SequenceStepRow
  deriving DecidableEq

def Plan.readVersion (plan : Plan) (id : Uuid) : Option SequenceVersionRow :=
  (plan.version? id).map fun row => ⟨row, plan.readSteps id⟩

/-- `isStepChannel`: `STEP_CHANNELS` is the whole vocabulary. -/
def isStepChannel (channel : StepChannel) : Bool := channel ∈ [.email, .callTask]

/-- `ordinals.every((ordinal, index) => ordinal === index + 1)` -/
def contiguous (ordinals : List Int) : Bool :=
  ordinals.zipIdx.all fun (ordinal, index) => ordinal = index + 1

def misshapen (step : DraftStepInput) : Bool :=
  !isStepChannel step.channel ||
  (step.channel = .email) != step.templateVersionId.isSome ||
  (step.channel = .callTask) != step.onNoAnswer.isSome ||
  step.delay.amount < 0

def validateSteps (steps : List DraftStepInput) : Option SequenceRefusalCode :=
  let ordinals := (steps.map (·.ordinal)).insertionSort (· ≤ ·)
  if !contiguous ordinals then some .invalidInput
  else if steps.any misshapen then some .invalidInput
  else none

/-- The steps a new draft copies from a published version, numbered 1..n by place. -/
def stepsCopiedFrom (steps : List SequenceStepRow) : List DraftStepInput :=
  steps.zipIdx.map fun (step, index) =>
    ⟨index + 1, step.channel, step.delay, step.onNoAnswer, step.templateVersionId⟩

def readSequenceSteps (id : Uuid) : DefinitionTx (List SequenceStepRow) :=
  .select fun _ plan => plan.readSteps id

def readSequenceVersion (id : Uuid) : DefinitionTx (Option SequenceVersionRow) := do
  match ← Tx.select fun _ plan => plan.version? id with
  | none => pure none
  | some row =>
    let steps ← readSequenceSteps id
    pure (some ⟨row, steps⟩)

def insertSteps (id : Uuid) : List DraftStepInput → DefinitionTx Unit
  | [] => pure ()
  | step :: steps => do
    Tx.change (fun _ _ => [.version id]) fun e plan =>
      insertStep ⟨e.newId, id, step.ordinal, step.channel, step.delay, step.onNoAnswer,
        step.templateVersionId⟩ e plan
    insertSteps id steps

/-- Replace a draft's steps wholesale. -/
def replaceDraftSteps (id : Uuid) (steps : List DraftStepInput) :
    DefinitionTx (SequenceResult Nat) :=
  match validateSteps steps with
  | some shape => pure (refuseSequence shape)
  | none => do
    Tx.change (fun _ _ => []) fun _ plan => deleteSteps id plan
    insertSteps id (steps.insertionSort (·.ordinal ≤ ·.ordinal))
    pure (acceptSequence steps.length)

/-- `coalesce(max(version), 0) + 1` -/
def Plan.nextVersion (plan : Plan) : Nat := (plan.versions.map (·.version)).foldr max 0 + 1

/-- `WHERE state = 'published' ORDER BY version DESC LIMIT 1` -/
def Plan.newestPublished (plan : Plan) : Option Uuid :=
  (((plan.versions.filter (·.state = .published)).insertionSort
    fun a b => b.version ≤ a.version).head?).map (·.id)

def Plan.draft? (plan : Plan) : Option CreatedDraft :=
  (plan.versions.find? (·.state = .draft)).map fun row => ⟨row.id, row.version⟩

/-- Write the new version under the locks `createDraftVersion` holds. -/
def writeDraft (now : Micros) (version : Nat) (steps : List DraftStepInput) :
    DefinitionTx (SequenceResult CreatedDraft) :=
  match validateSteps steps with
  | some shape => pure (refuseSequence shape)
  | none => do
    let id ← Tx.change (fun e plan => [.sequence plan.sequenceId, .version e.newId])
      (insertVersion now version)
    match ← replaceDraftSteps id steps with
    | .error refusal => pure (.error refusal)
    | .ok _ => pure (acceptSequence ⟨id, version⟩)

/-- What `createDraftVersion` does once it holds the sequence row. -/
def createLocked (now : Micros) (steps : Option (List DraftStepInput)) :
    DefinitionTx (SequenceResult CreatedDraft) := do
  match ← Tx.select fun _ plan => plan.draft? with
  | some draft =>
    if steps.isSome then pure (refuseSequence .draftExists)
    else pure (acceptSequence draft)
  | none =>
    let (version, copyFrom) ← Tx.select fun _ plan => (plan.nextVersion, plan.newestPublished)
    match steps, copyFrom with
    | some steps, _ => writeDraft now version steps
    | none, none => writeDraft now version []
    | none, some copyFrom => do
      let copied ← readSequenceSteps copyFrom
      writeDraft now version (stepsCopiedFrom copied)

def createDraftVersion (now : Micros) (actor : Actor) (sequenceId : Uuid)
    (steps : Option (List DraftStepInput)) : DefinitionTx (SequenceResult CreatedDraft) := do
  if !actor.isAdmin then pure (refuseSequence .adminOnly)
  else
    let known ← Tx.selectForUpdate (.sequence sequenceId) fun _ plan =>
      decide (plan.sequenceId = sequenceId)
    if !known then pure (refuseSequence .sequenceUnknown)
    else createLocked now steps

/-- Lock a version for a decision about it: its sequence row, then the version row. -/
def lockVersion (id : Uuid) : DefinitionTx (Option (Uuid × SequenceVersion)) := do
  match ← Tx.select fun _ plan => (plan.version? id).map fun _ => plan.sequenceId with
  | none => pure none
  | some sequenceId =>
    Tx.selectForUpdate (.sequence sequenceId) fun _ _ => ()
    Tx.selectForUpdate (.version id) fun _ plan =>
      (plan.version? id).map fun row => (plan.sequenceId, row)

/-- The save of a version whose state was read under its locks. -/
def saveLocked (now : Micros) (actor : Actor) (id : Uuid) (steps : List DraftStepInput) :
    DefinitionTx (SequenceResult SavedSteps) := do
  match ← lockVersion id with
  | none => pure (refuseSequence .versionUnknown)
  | some (sequenceId, version) =>
    match version.state with
    | .retired => pure (refuseSequence .versionRetired)
    | .draft =>
      match ← replaceDraftSteps id steps with
      | .error refusal => pure (.error refusal)
      | .ok written => pure (acceptSequence ⟨written, version.id, version.version, false⟩)
    | .published =>
      match ← Tx.select fun _ plan => plan.draft? with
      | some existing => pure (.error ⟨.draftExists, some existing⟩)
      | none =>
        match ← createDraftVersion now actor sequenceId (some steps) with
        | .error refusal => pure (.error refusal)
        | .ok draft =>
          pure (acceptSequence ⟨steps.length, draft.sequenceVersionId, draft.version, true⟩)

/-- The refusal a caught trigger error comes out as. -/
def immutabilityRefusal (err : DbError) : Option (SequenceResult SavedSteps) :=
  if isImmutabilityRefusal err then some (refuseSequence .versionNotDraft) else none

def saveSteps (now : Micros) (actor : Actor) (id : Uuid) (steps : List DraftStepInput) :
    DefinitionTx (SequenceResult SavedSteps) :=
  if !actor.isAdmin then pure (refuseSequence .adminOnly)
  else
    match validateSteps steps with
    | some shape => pure (refuseSequence shape)
    | none => (saveLocked now actor id steps).guarded immutabilityRefusal

def templateRefusal : Option TemplateVersion → Option SequenceRefusalCode
  | none => some .templateUnknown
  | some template =>
    if template.retiredAt.isSome then some .templateRetired
    else if template.approvedAt.isNone then some .templateUnapproved
    else none

/-- 12.2 at publication: every email step names an approved, unretired template. -/
def refuseUnpublishableTemplates :
    List SequenceStepRow → DefinitionTx (Option SequenceRefusalCode)
  | [] => pure none
  | step :: steps =>
    match step.templateVersionId with
    | none => refuseUnpublishableTemplates steps
    | some id => do
      let template ← Tx.select fun e _ => e.templates id
      Tx.noted ⟨id, template⟩
      match templateRefusal template with
      | some refusal => pure (some refusal)
      | none => refuseUnpublishableTemplates steps

def retire (now : Micros) (row : SequenceVersion) : SequenceVersion :=
  { row with state := .retired, retiredAt := some now, updatedAt := now }

def publish (now : Micros) (row : SequenceVersion) : SequenceVersion :=
  { row with state := .published, publishedAt := some now, updatedAt := now }

def supersedes (id : Uuid) (row : SequenceVersion) : Bool :=
  row.state = .published && row.id ≠ id

def modifyVersions (which : SequenceVersion → Bool) (set : SequenceVersion → SequenceVersion) :
    DefinitionTx Unit :=
  .change (fun _ plan => versionLocks which plan) fun _ plan => updateVersions which set plan

/-- The three checks of a publication, the last one outside this sequence. -/
def unpublishable (version : SequenceVersionRow) : Option SequenceRefusalCode :=
  if version.row.state ≠ .draft then some .versionNotDraft
  else if version.steps = [] then some .versionHasNoSteps
  else if !contiguous (version.steps.map (·.ordinal)) then some .invalidInput
  else if !version.steps.all (isStepChannel ·.channel) then some .invalidInput
  else none

def answerVersion (id : Uuid) : DefinitionTx (SequenceResult SequenceVersionRow) := do
  match ← readSequenceVersion id with
  | none => pure (refuseSequence .versionUnknown)
  | some version => pure (acceptSequence version)

/-- An administrator is a user, so the command's second check is its first again. -/
def publishVersion (now : Micros) (actor : Actor) (id : Uuid) :
    DefinitionTx (SequenceResult SequenceVersionRow) := do
  if !actor.isAdmin then pure (refuseSequence .adminOnly)
  else
    match ← lockVersion id with
    | none => pure (refuseSequence .versionUnknown)
    | some _ =>
      match ← readSequenceVersion id with
      | none => pure (refuseSequence .versionUnknown)
      | some version =>
        match unpublishable version with
        | some refusal => pure (refuseSequence refusal)
        | none =>
          match ← refuseUnpublishableTemplates version.steps with
          | some refusal => pure (refuseSequence refusal)
          | none =>
            modifyVersions (supersedes id) (retire now)
            modifyVersions (·.id = id) (publish now)
            answerVersion id

def retireVersion (now : Micros) (actor : Actor) (id : Uuid) :
    DefinitionTx (SequenceResult SequenceVersionRow) := do
  if !actor.isAdmin then pure (refuseSequence .adminOnly)
  else
    match ← lockVersion id with
    | none => pure (refuseSequence .versionUnknown)
    | some _ =>
      match ← readSequenceVersion id with
      | none => pure (refuseSequence .versionUnknown)
      | some version =>
        match version.row.state with
        | .retired => pure (refuseSequence .versionRetired)
        | .draft => pure (refuseSequence .versionNotPublished)
        | .published =>
          modifyVersions (·.id = id) (retire now)
          answerVersion id

/-! ## The machine -/

inductive Request
  | createDraftVersion (sequenceId : Uuid) (steps : Option (List DraftStepInput))
  | saveSteps (sequenceVersionId : Uuid) (steps : List DraftStepInput)
  | publishVersion (sequenceVersionId : Uuid)
  | retireVersion (sequenceVersionId : Uuid)
  deriving DecidableEq

/-- A command: who asks, and the instant `now()` answers all through its transaction. -/
structure Command where
  now : Micros
  actor : Actor
  request : Request
  deriving DecidableEq

inductive Answer
  | draft (result : SequenceResult CreatedDraft)
  | saved (result : SequenceResult SavedSteps)
  | version (result : SequenceResult SequenceVersionRow)

def Answer.refused : Answer → Bool
  | draft result => !result.isOk
  | saved result => !result.isOk
  | version result => !result.isOk

def Command.program (command : Command) : DefinitionTx Answer :=
  match command.request with
  | .createDraftVersion sequenceId steps =>
    .draft <$> createDraftVersion command.now command.actor sequenceId steps
  | .saveSteps id steps => .saved <$> saveSteps command.now command.actor id steps
  | .publishVersion id => .version <$> publishVersion command.now command.actor id
  | .retireVersion id => .version <$> retireVersion command.now command.actor id

abbrev Definitions (π : Type) := World π Lock Outside Plan DbError TemplateRead Command Answer

end FoundingSales.Sequences
