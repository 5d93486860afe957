import FoundingSales.Library.Processes
import FoundingSales.Library.Tables
import FoundingSales.Outbound.Types

/-!
One device, its sessions, and the credential its Mac presents.

A transaction's writes commit in its last statement. `FOR UPDATE` of the device row is its
version: a commit against a version that has been superseded raises, for the lock would have
held that change back until the commit.
-/

namespace FoundingSales.Auth

open Tables Processes Outbound

abbrev ProcessId := Nat

/-! ## Tokens -/

def accessTokenPrefix : JsString := js "fssa1"

def formatAccessToken (workspaceId secret : JsString) : JsString :=
  accessTokenPrefix ++ js "." ++ workspaceId ++ js "." ++ secret

/-- `/^[0-9a-f]{8}-[0-9a-f]{4}-[1-8][0-9a-f]{3}-[89ab][0-9a-f]{3}-[0-9a-f]{12}$/` -/
def isUuid (text : JsString) : Bool :=
  canonicalUuid text && (text.getD 14 0) ∈ js "12345678" && (text.getD 19 0) ∈ js "89ab"

/-- `/^[A-Za-z0-9_-]{43}$/` -/
def isSecret (text : JsString) : Bool :=
  text.length = 43 && text.all fun c =>
    (48 ≤ c && c ≤ 57) || (65 ≤ c && c ≤ 90) || (97 ≤ c && c ≤ 122) || c = 95 || c = 45

/-- The workspace a token names. -/
def parseAccessToken (value : JsString) : Option JsString :=
  match value.splitOn 46 with
  | [start, workspaceId, secret] =>
    if start = accessTokenPrefix && isUuid workspaceId && isSecret secret then some workspaceId
    else none
  | _ => none

def lowerAscii (text : JsString) : JsString :=
  text.map fun c => if 65 ≤ c && c ≤ 90 then c + 32 else c

/-- The bearer value of an `Authorization` header: `/^Bearer[ ]+([^\s]+)$/i`. -/
def bearerOf (header : Option JsString) : Option JsString := do
  let text := trim (← header)
  if lowerAscii (text.take 6) ≠ js "bearer" then none
  else
    let rest := text.drop 6
    let value := rest.dropWhile (· = 32)
    if value.length < rest.length && value ≠ [] && !value.any isSpace then some value else none

/-! ## The rows -/

inductive DeviceStatus
  | active | revoked
  deriving DecidableEq

structure Device where
  userId : Uuid
  secretHash : JsString
  status : DeviceStatus
  revokedAt : Option Instant
  lastSeenAt : Instant
  clientVersion : JsString
  /-- The version of the row, new with every update. -/
  version : Nat
  deriving DecidableEq

inductive SessionStatus
  | active | ended
  deriving DecidableEq

inductive EndReason
  | signedOut | renewed | deviceRevoked | membershipRevoked | credentialReuse
  | reauthenticationRequired
  deriving DecidableEq

structure Session where
  accessTokenHash : JsString
  userId : Uuid
  clientVersion : JsString
  issuedAt : Instant
  expiresAt : Instant
  reauthenticateAfter : Instant
  status : SessionStatus
  endedAt : Option Instant
  endReason : Option EndReason
  deriving DecidableEq

/-- `sessions_expiry_after_issue` and `sessions_reauthentication_not_before_expiry` -/
def Session.checks (session : Session) : Bool :=
  session.issuedAt < session.expiresAt && session.expiresAt ≤ session.reauthenticateAfter

/-- `sessions_token_unique` is the key. -/
abbrev SessionTable := Table Session.accessTokenHash

def Session.endNow (now : Instant) (reason : EndReason) (session : Session) : Session :=
  { session with status := .ended, endedAt := some now, endReason := some reason }

/-- What a call was answered, and what a revocation has committed. -/
inductive Note
  | authenticated (accessTokenHash : JsString)
  | opened (accessTokenHash : JsString)
  /-- The first statement of a revocation. -/
  | revoked
  /-- The second. -/
  | sessionsEnded
  deriving DecidableEq

/-- The device, its sessions, the boundary its claim set, and the notes, newest first; no
statement reads the last two. -/
structure Store where
  device : Option Device
  sessions : SessionTable
  claimed : Option Instant
  notes : List Note

def Store.unclaimed : Store := ⟨none, .empty, none, []⟩

/-! ## Dependencies -/

inductive Role
  | admin | salesperson
  deriving DecidableEq

inductive MembershipStatus
  | active | inactive
  deriving DecidableEq

structure Membership where
  status : MembershipStatus
  role : Role
  deriving DecidableEq

structure AuthDeps where
  /-- `sha256Hex` -/
  sha256Hex : JsString → JsString
  /-- `clientCompatibility(…).kind === 'supported'` -/
  supports : JsString → Bool
  accessSessionSeconds : Nat
  fullSignInSeconds : Nat
  workspaceId : Uuid

/-- What a statement learns from elsewhere. -/
structure Env where
  /-- `deps.now()` -/
  now : Instant
  /-- `deps.randomSecret()` -/
  randomSecret : JsString
  membership : Membership
  deriving DecidableEq

inductive AuthRefusalCode
  | unauthenticated | malformedCredential | deviceRevoked | membershipInactive
  | reauthenticationRequired | sessionEnded | sessionExpired | clientUpgradeRequired
  | credentialUnknown
  deriving DecidableEq

abbrev AuthProg (α : Type) := Prog ProcessId Env Store α

/-- A statement, `none` where it raises. -/
def statement {α : Type} (act : Env → Store → Option (α × Store)) : AuthProg α :=
  .stmt (fun _ => act) .ret

def query {α : Type} (read : Env → Store → α) : AuthProg α := .ask read

/-! ## Issuing -/

structure OpenedSession where
  accessToken : JsString
  accessTokenExpiresAt : Instant
  reauthenticateAfter : Instant
  deriving DecidableEq

structure IssueSessionInput where
  userId : Uuid
  clientVersion : JsString
  reauthenticateAfter : Instant
  deriving DecidableEq

/-- A session never outlives the boundary: near it, the hour is clipped. -/
def issueSession (deps : AuthDeps) (e : Env) (input : IssueSessionInput)
    (sessions : SessionTable) : Option (OpenedSession × SessionTable) :=
  let accessToken := formatAccessToken deps.workspaceId e.randomSecret
  let nominalExpiry := e.now + deps.accessSessionSeconds * 1000
  let expiresAt :=
    if input.reauthenticateAfter < nominalExpiry then input.reauthenticateAfter else nominalExpiry
  let session : Session := ⟨deps.sha256Hex accessToken, input.userId, input.clientVersion, e.now,
    expiresAt, input.reauthenticateAfter, .active, none, none⟩
  if session.checks then
    (sessions.insert? session).map fun sessions =>
      (⟨accessToken, expiresAt, input.reauthenticateAfter⟩, sessions)
  else none

/-- The transaction of a claim: the device and its first session. -/
def claimSignIn (deps : AuthDeps) (userId : Uuid) (clientVersion : JsString) : AuthProg Unit := do
  if !deps.supports clientVersion then return
  else
    let now ← query fun e _ => e.now
    let deviceSecret ← query fun e _ => e.randomSecret
    let boundary := now + deps.fullSignInSeconds * 1000
    statement fun e s =>
      match s.device with
      | some _ => none
      | none =>
        (issueSession deps e ⟨userId, clientVersion, boundary⟩ s.sessions).map
          fun (_, sessions) =>
            ((), { s with
              device := some ⟨userId, deps.sha256Hex deviceSecret, .active, none, e.now,
                clientVersion, 0⟩
              sessions := sessions
              claimed := some boundary })

/-! ## Authentication -/

inductive AuthenticateOutcome
  | authenticated (session : Session) (membership : Membership)
  | refused (refusal : AuthRefusalCode)
  deriving DecidableEq

/-- The order of the refusals. -/
def authenticateSession (session : Session) (device : Device) (membership : Membership)
    (now : Instant) : AuthenticateOutcome :=
  if device.status ≠ .active then .refused .deviceRevoked
  else if membership.status ≠ .active then .refused .membershipInactive
  else if session.reauthenticateAfter ≤ now then .refused .reauthenticationRequired
  else if session.status ≠ .active then .refused .sessionEnded
  else if session.expiresAt ≤ now then .refused .sessionExpired
  else .authenticated session membership

def noteOf : AuthenticateOutcome → List Note
  | .authenticated session _ => [.authenticated session.accessTokenHash]
  | .refused _ => []

def authenticate (deps : AuthDeps) (authorizationHeader : Option JsString) :
    AuthProg AuthenticateOutcome :=
  match bearerOf authorizationHeader with
  | none => return .refused .unauthenticated
  | some bearer =>
    match parseAccessToken bearer with
    | none => return .refused .malformedCredential
    | some workspaceId =>
      if workspaceId ≠ deps.workspaceId then return .refused .unauthenticated
      else statement fun e s =>
        match s.sessions.find? (deps.sha256Hex bearer), s.device with
        | some session, some device =>
          let outcome := authenticateSession session device e.membership e.now
          some (outcome, { s with notes := noteOf outcome ++ s.notes })
        | _, _ => some (.refused .unauthenticated, s)

/-! ## Revocation -/

/-- `UPDATE devices SET status = 'revoked'` -/
def revokeRow (now : Instant) (s : Store) : Store :=
  match s.device with
  | none => s
  | some device =>
    let revoked := { device with
      status := .revoked
      revokedAt := some (device.revokedAt.getD now)
      version := device.version + 1 }
    { s with device := some revoked, notes := .revoked :: s.notes }

/-- `UPDATE sessions SET status = 'ended' … WHERE status = 'active'` -/
def endSessions (now : Instant) (reason : EndReason) (s : Store) : Store :=
  { s with
    sessions := s.sessions.update (fun session => session.status = .active) (Session.endNow now reason)
      fun _ => rfl
    notes := .sessionsEnded :: s.notes }

def revokeDevice (reason : EndReason) : AuthProg Unit := do
  let now ← query fun e _ => e.now
  statement fun _ s => some ((), revokeRow now s)
  statement fun _ s => some ((), endSessions now reason s)

/-! ## Opening -/

inductive OpenOutcome
  | opened (session : OpenedSession)
  | refused (refusal : AuthRefusalCode)
  deriving DecidableEq

structure OpenSessionInput where
  deviceSecret : JsString
  clientVersion : JsString
  deriving DecidableEq

/-- `ORDER BY issued_at DESC LIMIT 1` -/
def newestSession (sessions : SessionTable) : Option Session :=
  (sessions.rows.insertionSort fun a b => b.issuedAt ≤ a.issuedAt).head?

/-- Has this device ever signed out? -/
def signedOutBefore (sessions : SessionTable) : Bool :=
  sessions.rows.any fun session => session.endReason = some .signedOut

/-- The rows `UPDATE sessions … WHERE status = 'active'` selects. -/
def activeHashes (sessions : SessionTable) : List JsString :=
  (sessions.rows.filter fun session => session.status = .active).map Session.accessTokenHash

/-- A write under the lock taken when the row had this version. -/
def underLock {α : Type} (version : Nat) (act : Device → Env → Store → Option (α × Store)) :
    AuthProg α :=
  statement fun e s => do
    let device ← s.device
    if device.version = version then act device e s else none

/-- The renewal: the sessions found active end, and a new one is issued. -/
def renew (deps : AuthDeps) (input : OpenSessionInput) (reauthenticateAfter now : Instant)
    (active : List JsString) (device : Device) (e : Env) (s : Store) :
    Option (OpenOutcome × Store) := do
  let renewed := s.sessions.update (fun session => session.accessTokenHash ∈ active)
    (Session.endNow now .renewed) fun _ => rfl
  let (opened, sessions) ← issueSession deps e
    ⟨device.userId, input.clientVersion, reauthenticateAfter⟩ renewed
  let seen := { device with
    lastSeenAt := now
    clientVersion := input.clientVersion
    version := device.version + 1 }
  some (.opened opened, { s with
    device := some seen
    sessions := sessions
    notes := .opened (deps.sha256Hex opened.accessToken) :: s.notes })

/-- The rest of an opening, with a row no refusal of its own turns away. -/
def openLocked (deps : AuthDeps) (input : OpenSessionInput) (now : Instant) (device : Device) :
    AuthProg OpenOutcome := do
  match ← query fun _ s => newestSession s.sessions with
  | none => return .refused .credentialUnknown
  | some latest =>
    if ← query fun _ s => signedOutBefore s.sessions then
      -- `revokeDevice` reads the clock for itself.
      let revokedAt ← query fun e _ => e.now
      underLock device.version fun _ _ s =>
        some (.refused .deviceRevoked,
          endSessions revokedAt .signedOut (revokeRow revokedAt s))
    else if latest.reauthenticateAfter ≤ now then return .refused .reauthenticationRequired
    else
      let active ← query fun _ s => activeHashes s.sessions
      underLock device.version (renew deps input latest.reauthenticateAfter now active)

def openSession (deps : AuthDeps) (input : OpenSessionInput) : AuthProg OpenOutcome := do
  if !deps.supports input.clientVersion then return .refused .clientUpgradeRequired
  else
    let now ← query fun e _ => e.now
    match ← query fun _ s => s.device with
    | none => return .refused .credentialUnknown
    | some device =>
      let membership ← query fun e _ => e.membership
      if deps.sha256Hex input.deviceSecret ≠ device.secretHash then
        return .refused .credentialUnknown
      else if device.status ≠ .active then return .refused .deviceRevoked
      else if membership.status ≠ .active then return .refused .membershipInactive
      else
        openLocked deps input now device

/-! ## The system -/

inductive AuthCall
  | claim (userId : Uuid) (clientVersion : JsString)
  | authenticate (authorizationHeader : Option JsString)
  | openSession (input : OpenSessionInput)
  | revokeDevice (reason : EndReason)

def authCode (deps : AuthDeps) : AuthCall → AuthProg Unit
  | .claim userId clientVersion => claimSignIn deps userId clientVersion
  | .authenticate header => do
    let _ ← authenticate deps header
    return
  | .openSession input => do
    let _ ← openSession deps input
    return
  | .revokeDevice reason => Auth.revokeDevice reason

abbrev AuthInput := Input ProcessId Env AuthCall

abbrev AuthWorld := World ProcessId Env Store

def authStep (deps : AuthDeps) (w : AuthWorld) (i : AuthInput) : AuthWorld :=
  w.step (authCode deps) i

/-- From before the claim, nothing running. -/
def authRun (deps : AuthDeps) (inputs : List AuthInput) : AuthWorld :=
  Runs.run (authStep deps) (World.idle Store.unclaimed) inputs

end FoundingSales.Auth
