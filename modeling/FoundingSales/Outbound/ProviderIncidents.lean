import FoundingSales.Mail.Mailboxes
import FoundingSales.Sequences.Holds

/-!
Provider incidents of one mailbox: the table, the binding a report is made under, and the
commands that record, resolve and revalidate incidents. Each takes the send gate and the
mailbox row first, so a command is one step; a step that raises leaves everything as it was.
-/

namespace FoundingSales.Outbound.Incidents

open Tables Mail Sequences Rules

/-! ## Rows -/

inductive ProviderIncidentClass
  | transient | authentication | reputation | unknown
  deriving DecidableEq

inductive ProviderIncidentSource
  | sentSearch | tokenRefresh | mailRead | providerSend | adminReport
  deriving DecidableEq

inductive Resolution
  | verifiedRead | humanRevalidated
  deriving DecidableEq

/-- A row of `mailbox_provider_incidents`. -/
structure IncidentRow where
  id : Uuid
  sourceKind : ProviderIncidentSource
  sourceId : JsString
  classification : ProviderIncidentClass
  reason : JsString
  bindingSha256 : Option JsString
  observedAt : Instant
  retryAt : Option Instant
  holdId : Option Uuid
  resolvedAt : Option Instant
  resolution : Option Resolution
  deriving DecidableEq

def IncidentRow.unresolved (row : IncidentRow) : Bool := row.resolvedAt.isNone

structure TokenRow where
  createdAt : Instant
  rotatedAt : Option Instant
  deriving DecidableEq

/-- The primary sending domain. -/
structure DomainRow where
  id : Uuid
  spfPass : Bool
  dkimPass : Bool
  dmarcPass : Bool
  authenticationCheckedAt : Option Instant
  postmasterReviewedAt : Option Instant
  automatedSendingEnabled : Bool
  automatedSendingEnabledAt : Option Instant
  deriving DecidableEq

structure AuthorizationRow where
  revision : Nat
  enabled : Bool
  ownerUserId : Uuid
  providerAccountId : JsString
  emailAddress : JsString
  deriving DecidableEq

/-- The mailbox and what its binding is read from. -/
structure Configuration where
  workspaceId : Uuid
  mailboxId : Uuid
  generation : Nat
  emailAddress : JsString
  ownerUserId : Uuid
  providerAccountId : Option JsString
  status : MailboxStatus
  connectedAt : Instant
  ownerActive : Bool
  token : Option TokenRow
  domain : Option DomainRow
  authorization : Option AuthorizationRow
  deriving DecidableEq

def Configuration.fence (config : Configuration) : MailboxFence :=
  ⟨config.generation, config.emailAddress⟩

/-- What the hash is taken of. -/
structure BindingMetadata where
  generation : Nat
  ownerUserId : Uuid
  providerAccountId : Option JsString
  emailAddress : JsString
  token : Option TokenRow
  domainId : Option Uuid
  authenticationCheckedAt : Option Instant
  postmasterReviewedAt : Option Instant
  automatedSendingEnabledAt : Option Instant
  revision : Option Nat
  enabled : Option Bool
  deriving DecidableEq

structure ProviderBinding where
  hash : Option JsString
  fence : MailboxFence
  deriving DecidableEq

structure World where
  config : Configuration
  incidents : Table IncidentRow.id
  holds : HoldTable

/-- A mailbox before its first incident. -/
def World.fresh (config : Configuration) : World := ⟨config, .empty, .empty⟩

inductive Failure
  | staleMailboxGeneration | check | unique
  deriving DecidableEq

/-! ## The binding -/

/-- Safe to send under, as far as the configuration goes. -/
def Configuration.safe (config : Configuration) : Bool :=
  config.status = .connected && config.ownerActive && config.providerAccountId.isSome &&
  config.token.isSome &&
  (config.domain.any fun domain => domain.spfPass && domain.dkimPass && domain.dmarcPass &&
    domain.postmasterReviewedAt.isSome && domain.automatedSendingEnabled) &&
  (config.authorization.all fun grant => grant.enabled &&
    config.providerAccountId = some grant.providerAccountId &&
    grant.emailAddress = config.emailAddress && grant.ownerUserId = config.ownerUserId)

def Configuration.metadata (config : Configuration) : BindingMetadata where
  generation := config.generation
  ownerUserId := config.ownerUserId
  providerAccountId := config.providerAccountId
  emailAddress := config.emailAddress
  token := config.token
  domainId := config.domain.map (·.id)
  authenticationCheckedAt := config.domain.bind (·.authenticationCheckedAt)
  postmasterReviewedAt := config.domain.bind (·.postmasterReviewedAt)
  automatedSendingEnabledAt := config.domain.bind (·.automatedSendingEnabledAt)
  revision := config.authorization.map (·.revision)
  enabled := config.authorization.map (·.enabled)

/-- `digest` is SHA-256 of the metadata's JSON, in hex. -/
def readProviderBinding (digest : BindingMetadata → JsString) (config : Configuration) :
    ProviderBinding :=
  ⟨if config.safe then some (digest config.metadata) else none, config.fence⟩

/-! ## Constraints -/

def isIdCharacter (c : UInt16) : Bool :=
  (97 ≤ c && c ≤ 122) || (65 ≤ c && c ≤ 90) || (48 ≤ c && c ≤ 57) || c ∈ js ":_-"

/-- `^[a-zA-Z0-9:_-]{1,160}$` -/
def sourcePresent (sourceId : JsString) : Bool :=
  sourceId.all isIdCharacter && 1 ≤ sourceId.length && sourceId.length ≤ 160

/-- `^[a-z][a-z0-9_]{0,79}$` -/
def reasonCoded (reason : JsString) : Bool :=
  (reason.head?.any fun c => 97 ≤ c && c ≤ 122) && reason.length ≤ 80 &&
  reason.all fun c => (97 ≤ c && c ≤ 122) || (48 ≤ c && c ≤ 57) || c = 95

/-- `^[a-f0-9]{64}$` -/
def bindingShape (hash : JsString) : Bool :=
  hash.length = 64 && hash.all fun c => (97 ≤ c && c ≤ 102) || (48 ≤ c && c ≤ 57)

def incidentChecks (row : IncidentRow) : Bool :=
  sourcePresent row.sourceId && reasonCoded row.reason && row.bindingSha256.all bindingShape &&
  (row.retryAt.all fun retry => row.observedAt ≤ retry) &&
  row.resolvedAt.isNone == row.resolution.isNone &&
  (row.resolvedAt.all fun resolved => row.observedAt ≤ resolved)

/-- `active_holds_release_not_before_start` -/
def holdChecks (hold : ActiveHold) : Bool :=
  hold.releasedAt.all fun released => hold.startedAt ≤ released

/-! ## Holds -/

def providerRefusal : JsString := js "provider_refusal"

/-- An open `provider_refusal` hold of the incident. -/
def refusalOf (workspaceId id : Uuid) (hold : ActiveHold) : Bool :=
  hold.workspaceId = workspaceId && hold.sourceEventId = some id &&
    hold.reasonCode = providerRefusal && hold.releasedAt.isNone

def openHold (clock : Instant) (holdId id : Uuid) (world : World) : Except Failure World :=
  let hold : ActiveHold :=
    ⟨world.config.workspaceId, holdId, .mailbox, some world.config.mailboxId, providerRefusal,
      [.emailSend], js "provider_incident", some id, clock, none⟩
  match world.holds.insert? hold with
  | none => .error .unique
  | some holds => .ok { world with holds }

def released (clock : Instant) (hold : ActiveHold) : ActiveHold :=
  { hold with releasedAt := some clock }

def releaseRefusals (clock : Instant) (id : Uuid) (world : World) : HoldTable :=
  world.holds.update (refusalOf world.config.workspaceId id) (released clock) fun _ => rfl

def releaseHoldsOfEvent (clock : Instant) (id : Uuid) (world : World) : Except Failure World :=
  let rows := world.holds.rows.filter (refusalOf world.config.workspaceId id)
  if rows.all fun hold => holdChecks (released clock hold) then
    .ok { world with holds := releaseRefusals clock id world }
  else .error .check

def releaseAll (clock : Instant) : List Uuid → World → Except Failure World
  | [], world => .ok world
  | id :: ids, world => do
    let world ← releaseHoldsOfEvent clock id world
    releaseAll clock ids world

/-! ## Recording -/

structure RecordInput where
  sourceKind : ProviderIncidentSource
  sourceId : JsString
  classification : ProviderIncidentClass
  reason : JsString
  retryAt : Option Instant
  binding : ProviderBinding
  now : Instant
  deriving DecidableEq

def lockMailboxAtFence (fence : MailboxFence) (world : World) : Except Failure Unit :=
  if world.config.fence = fence then .ok () else .error .staleMailboxGeneration

/-- A deadline counts if it is still ahead. -/
def RecordInput.retry (input : RecordInput) : Option Instant :=
  input.retryAt.filter (input.now < ·)

def RecordInput.row (input : RecordInput) (id : Uuid) : IncidentRow where
  id := id
  sourceKind := input.sourceKind
  sourceId := input.sourceId
  classification := input.classification
  reason := input.reason
  bindingSha256 := input.binding.hash
  observedAt := input.now
  retryAt := input.retry
  holdId := none
  resolvedAt := none
  resolution := none

/-- The unresolved incident of a source. -/
def ofSource (kind : ProviderIncidentSource) (sourceId : JsString) (row : IncidentRow) : Bool :=
  row.unresolved && row.sourceKind = kind && row.sourceId = sourceId

def laterRetry : Option Instant → Option Instant → Option Instant
  | some a, some b => some (max a b)
  | _, _ => none

/-- `ON CONFLICT … DO UPDATE SET`: the instant and the binding stay the first report's. -/
def merged (excluded : IncidentRow) (row : IncidentRow) : IncidentRow :=
  { row with
    retryAt := if row.classification = .transient ∧ excluded.classification = .transient then
      laterRetry row.retryAt excluded.retryAt else none
    classification := if row.classification = .transient then excluded.classification
      else row.classification
    reason := if row.classification = .transient ∧ excluded.classification ≠ .transient then
      excluded.reason else row.reason }

def mergeInto (excluded : IncidentRow) (incidents : Table IncidentRow.id) :
    Table IncidentRow.id :=
  incidents.update (ofSource excluded.sourceKind excluded.sourceId) (merged excluded) fun _ => rfl

def World.openOf (world : World) (kind : ProviderIncidentSource) (sourceId : JsString) :
    Option IncidentRow :=
  world.incidents.rows.find? (ofSource kind sourceId)

/-- `INSERT … ON CONFLICT … DO UPDATE … RETURNING id, hold_id` -/
def upsertIncident (excluded : IncidentRow) (world : World) :
    Except Failure (IncidentRow × World) :=
  if !incidentChecks excluded then .error .check
  else
    match world.openOf excluded.sourceKind excluded.sourceId with
    | some row =>
      if !incidentChecks (merged excluded row) then .error .check
      else .ok (merged excluded row,
        { world with incidents := mergeInto excluded world.incidents })
    | none =>
      match world.incidents.insert? excluded with
      | none => .error .unique
      | some incidents => .ok (excluded, { world with incidents })

def setHold (id holdId : Uuid) (incidents : Table IncidentRow.id) : Table IncidentRow.id :=
  incidents.update (·.id = id) (fun row => { row with holdId := some holdId }) fun _ => rfl

/-- `incidentId` and `holdId` are the ids the database would give. -/
def recordProviderIncident (input : RecordInput) (clock : Instant) (incidentId holdId : Uuid)
    (world : World) : Except Failure World := do
  lockMailboxAtFence input.binding.fence world
  let (row, world) ← upsertIncident (input.row incidentId) world
  if row.holdId.isSome then pure world
  else
    let world ← openHold clock holdId row.id world
    pure { world with incidents := setHold row.id holdId world.incidents }

/-! ## Resolving -/

def resolved (instant : Instant) (resolution : Resolution) (row : IncidentRow) : IncidentRow :=
  { row with resolvedAt := some instant, resolution := some resolution }

def resolveRows (which : IncidentRow → Bool) (instant : Instant) (resolution : Resolution)
    (incidents : Table IncidentRow.id) : Table IncidentRow.id :=
  incidents.update which (resolved instant resolution) fun _ => rfl

/-- `UPDATE … SET resolved_at … RETURNING id`, then the release of each incident's holds. -/
def resolveIncidents (which : IncidentRow → Bool) (instant : Instant) (resolution : Resolution)
    (clock : Instant) (world : World) : Except Failure World :=
  let rows := world.incidents.rows.filter which
  if rows.all fun row => incidentChecks (resolved instant resolution row) then
    releaseAll clock (rows.map (·.id))
      { world with incidents := resolveRows which instant resolution world.incidents }
  else .error .check

/-- What a successful read under `hash` resolves. -/
def clearedByRead (hash : JsString) (now : Instant) (sources : List ProviderIncidentSource)
    (row : IncidentRow) : Bool :=
  row.bindingSha256 = some hash && row.classification = .transient && row.sourceKind ∈ sources &&
    row.retryAt.any (· ≤ now) && row.unresolved

/-- A fresh successful read clears only safe, unchanged incidents whose wait expired. -/
def resolveProviderIncidentsAfterRead (digest : BindingMetadata → JsString)
    (before : ProviderBinding) (now : Instant) (sources : List ProviderIncidentSource)
    (clock : Instant) (world : World) : Except Failure World :=
  match before.hash with
  | none => .ok world
  | some hash =>
    if !world.incidents.rows.any fun row =>
        row.unresolved && row.classification = .transient && row.sourceKind ∈ sources then
      .ok world
    else do
      lockMailboxAtFence before.fence world
      if (readProviderBinding digest world.config).hash ≠ some hash then pure world
      else resolveIncidents (clearedByRead hash now sources) now .verifiedRead clock world

/-- The grant there is now can be used. -/
def Configuration.granted (config : Configuration) : Bool :=
  config.status = .connected && config.token.isSome && config.ownerActive

def superseded (config : Configuration) (row : IncidentRow) : Bool :=
  row.sourceKind = .tokenRefresh && row.unresolved && row.observedAt < config.connectedAt &&
    config.granted

def resolveSupersededTokenRefreshIncidents (now clock : Instant) (world : World) :
    Except Failure World :=
  resolveIncidents (superseded world.config) (max now world.config.connectedAt) .humanRevalidated
    clock world

/-- The lazy form; its own fence is the mailbox's. -/
def supersedeStaleTokenRefreshIncidents (now clock : Instant) (world : World) :
    Except Failure World :=
  if !world.incidents.rows.any fun row =>
      row.sourceKind = .tokenRefresh && row.unresolved && row.observedAt < world.config.connectedAt
  then .ok world
  else resolveSupersededTokenRefreshIncidents now clock world

inductive Basis
  | oauthReconnected | permissionRevalidated | domainAuthenticationChecked
  deriving DecidableEq

inductive Actor
  | admin | salesperson | system
  deriving DecidableEq

def rebound (hash : JsString) (row : IncidentRow) : IncidentRow :=
  { row with bindingSha256 := some hash }

def waiting (row : IncidentRow) : Bool := row.classification = .transient && row.unresolved

def rebind (hash : JsString) (incidents : Table IncidentRow.id) : Table IncidentRow.id :=
  incidents.update waiting (rebound hash) fun _ => rfl

def reconnectedRow (config : Configuration) (row : IncidentRow) : Bool :=
  row.classification = .authentication && row.unresolved && row.observedAt ≤ config.connectedAt &&
    config.granted

/-- Whether the actor may revalidate on this basis. -/
def mayRevalidate (actor : Actor) (basis : Basis) : Bool :=
  actor ≠ .system && (basis = .oauthReconnected || actor = .admin)

def refreshBinding (digest : BindingMetadata → JsString) (world : World) :
    Except Failure World :=
  match (readProviderBinding digest world.config).hash with
  | none => .ok world
  | some hash =>
    if (world.incidents.rows.filter waiting).all fun row => incidentChecks (rebound hash row) then
      .ok { world with incidents := rebind hash world.incidents }
    else .error .check

def revalidateProviderIncidentConfiguration (digest : BindingMetadata → JsString) (actor : Actor)
    (basis : Basis) (now clock : Instant) (world : World) : Except Failure World :=
  if !mayRevalidate actor basis then .ok world
  else do
    let world ← refreshBinding digest world
    if basis ≠ .oauthReconnected then pure world
    else
      let world ← resolveIncidents (reconnectedRow world.config) now .humanRevalidated clock world
      resolveSupersededTokenRefreshIncidents now clock world

/-! ## Steps -/

/-- `configure` is any other change of the mailbox's configuration. A reconnection revives the
mailbox, with a new `connected_at`, and revalidates in the same transaction. -/
inductive Input
  | configure (config : Configuration)
  | record (input : RecordInput) (clock : Instant) (incidentId holdId : Uuid)
  | read (before : ProviderBinding) (now : Instant) (sources : List ProviderIncidentSource)
      (clock : Instant)
  | supersede (now clock : Instant)
  | revalidate (actor : Actor) (basis : Basis) (now clock : Instant)
  | reconnect (config : Configuration) (actor : Actor) (now clock : Instant)

/-- The mailbox and its workspace stay the same ones. -/
def World.configured (world : World) (config : Configuration) : World :=
  { world with config := { config with
    workspaceId := world.config.workspaceId, mailboxId := world.config.mailboxId } }

def apply (digest : BindingMetadata → JsString) (world : World) : Input → Except Failure World
  | .configure config => .ok (world.configured config)
  | .record input clock incidentId holdId => recordProviderIncident input clock incidentId holdId world
  | .read before now sources clock =>
    resolveProviderIncidentsAfterRead digest before now sources clock world
  | .supersede now clock => supersedeStaleTokenRefreshIncidents now clock world
  | .revalidate actor basis now clock =>
    revalidateProviderIncidentConfiguration digest actor basis now clock world
  | .reconnect config actor now clock =>
    revalidateProviderIncidentConfiguration digest actor .oauthReconnected now clock
      (world.configured config)

def step (digest : BindingMetadata → JsString) (world : World) (input : Input) : World :=
  match apply digest world input with
  | .ok world => world
  | .error _ => world

end FoundingSales.Outbound.Incidents
