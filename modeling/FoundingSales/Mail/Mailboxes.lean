import FoundingSales.Mail.Pipeline

/-!
The mailbox row, its cursor, its coverage, its recoveries and its holds. A write raises with
`none`, and the run that made it rolls back.
-/

namespace FoundingSales.Mail

open Tables Outbound

inductive MailboxStatus
  | connected | disconnected | revoked
  deriving DecidableEq

inductive MailboxSyncState
  | baselinePending | ready | recovering
  deriving DecidableEq

structure Mailbox where
  emailAddress : JsString
  status : MailboxStatus
  generation : Nat
  syncState : MailboxSyncState
  historyId : Option HistoryId
  historyIdUpdatedAt : Option Instant
  coverageWatermarkAt : Option Instant
  baselineFromAt : Option Instant
  baselineCompletedAt : Option Instant
  lastSyncError : Option JsString
  deriving DecidableEq

/-- What a job read at its start and every write it makes is predicated on. -/
structure MailboxFence where
  generation : Nat
  emailAddress : JsString
  deriving DecidableEq

def fenceOf (mailbox : Mailbox) : MailboxFence := ⟨mailbox.generation, mailbox.emailAddress⟩

inductive RecoveryReason
  | baseline | historyExpired | restore
  deriving DecidableEq

/-- A row of `mailbox_recoveries`, one a generation. -/
structure Recovery where
  generation : Nat
  reason : RecoveryReason
  fromAt : Instant
  toAt : Instant
  startedAt : Instant
  pagesCompleted : Nat
  messagesSeen : Nat
  completedAt : Option Instant
  deriving DecidableEq

inductive MailboxHold
  | mailboxDisconnected | coverageIncomplete
  deriving DecidableEq

/-- The tables of one mailbox: its row, its open holds, its messages, its recoveries. -/
structure Database where
  mailbox : Option Mailbox
  holds : List MailboxHold
  messages : MessageTable
  recoveries : Table Recovery.generation

namespace Database

def cursor (db : Database) : Option HistoryId := db.mailbox.bind Mailbox.historyId

def watermark (db : Database) : Option Instant := db.mailbox.bind Mailbox.coverageWatermarkAt

def generation (db : Database) : Option Nat := db.mailbox.map Mailbox.generation

/-! ## The fence -/

/-- `StaleMailboxGeneration` unless the row is at the fence. -/
def lockMailboxAtFence (db : Database) (fence : MailboxFence) : Option Mailbox :=
  db.mailbox.filter fun mailbox => fenceOf mailbox = fence

def setMailbox (db : Database) (set : Mailbox → Mailbox) : Database :=
  { db with mailbox := db.mailbox.map set }

/-! ## Holds -/

def openMailboxHold (db : Database) (reason : MailboxHold) : Database :=
  if reason ∈ db.holds then db else { db with holds := reason :: db.holds }

/-- A coverage hold of a mailbox that is not ready stays. -/
def releaseMailboxHold (db : Database) (reason : MailboxHold) : Database :=
  match db.mailbox with
  | none => db
  | some mailbox =>
    if mailbox.status ≠ .connected then db
    else if reason = .coverageIncomplete ∧ mailbox.syncState ≠ .ready then db
    else { db with holds := db.holds.filter fun hold => hold ≠ reason }

def markMailboxDisconnected (db : Database) (status : MailboxStatus) : Database :=
  db.setMailbox fun mailbox =>
    if mailbox.status = .connected then
      { mailbox with
        status := status
        syncState := .baselinePending
        baselineCompletedAt := none }
    else mailbox

def setSyncState (db : Database) (syncState : MailboxSyncState) : Database :=
  db.setMailbox fun mailbox => { mailbox with syncState := syncState }

def recordSyncError (db : Database) (error : JsString) (fence : MailboxFence) :
    Option Database := do
  let _ ← db.lockMailboxAtFence fence
  some (db.setMailbox fun mailbox => { mailbox with lastSyncError := some (error.take 500) })

/-- The stop fact of a mailbox that is not connected. -/
def holdDisconnected (db : Database) (fence : MailboxFence) : Option Database := do
  let _ ← db.lockMailboxAtFence fence
  some (db.openMailboxHold .mailboxDisconnected)

/-- The grant is gone, so everything automated for that owner holds. -/
def holdForRevokedGrant (db : Database) (fence : MailboxFence) : Option Database := do
  let _ ← db.lockMailboxAtFence fence
  some ((db.markMailboxDisconnected .revoked).openMailboxHold .mailboxDisconnected)

/-! ## The cursor -/

inductive CursorOutcome
  | advanced (historyId : HistoryId) (coverageWatermarkAt : Option Instant)
  | cursorMoved
  deriving DecidableEq

structure AdvanceCursorInput where
  fence : MailboxFence
  expectedHistoryId : Option HistoryId
  historyId : HistoryId
  coverageWatermarkAt : Option Instant
  syncError : Option JsString
  deriving DecidableEq

/-- Move the cursor, and the watermark with it, if the cursor is still where the caller left
it. -/
def advanceCursor (db : Database) (input : AdvanceCursorInput) (now : Instant) :
    Option (CursorOutcome × Database) := do
  let mailbox ← db.lockMailboxAtFence input.fence
  if mailbox.historyId = input.expectedHistoryId then
    let watermark := input.coverageWatermarkAt.or mailbox.coverageWatermarkAt
    let moved := { mailbox with
      historyId := some input.historyId
      historyIdUpdatedAt := some now
      coverageWatermarkAt := watermark
      lastSyncError := input.syncError }
    some (.advanced input.historyId watermark, { db with mailbox := some moved })
  else some (.cursorMoved, db)

def advanceGeneration (db : Database) (fence : MailboxFence) : Option (Nat × Database) := do
  let mailbox ← db.lockMailboxAtFence fence
  some (mailbox.generation + 1,
    db.setMailbox fun mailbox => { mailbox with generation := mailbox.generation + 1 })

/-! ## Starting a recovery -/

def defaultBaselineDays : Nat := 30

def recoveryOverlapSeconds : Nat := 3600

structure StartRecoveryInput where
  fence : MailboxFence
  reason : RecoveryReason
  fromAt : Option Instant
  startHistoryId : HistoryId
  /-- `floor.oldestUnresolvedAt` -/
  outstanding : Option Instant
  deriving DecidableEq

/-- The interval's start: the earliest bound, or an hour before an end it is not before. -/
def recoveryStart (fromAt outstanding : Option Instant) (toAt : Instant) : Instant :=
  let defaultFloor := toAt - defaultBaselineDays * 24 * 3600 * 1000
  let earliest := (outstanding.toList.foldl min (fromAt.getD defaultFloor))
  if earliest < toAt then earliest else toAt - recoveryOverlapSeconds * 1000

/-- Create the recovery of a generation with its handoff cursor; a generation that has one
already keeps it. -/
def startRecovery (db : Database) (input : StartRecoveryInput) (now : Instant) :
    Option Database :=
  match db.recoveries.find? input.fence.generation with
  | some _ => some db
  | none => do
    let recoveries ← db.recoveries.insert?
      ⟨input.fence.generation, input.reason, recoveryStart input.fromAt input.outstanding now, now,
        now, 0, 0, none⟩
    let mailbox ← db.lockMailboxAtFence input.fence
    let handed := { mailbox with
      historyId := some input.startHistoryId
      historyIdUpdatedAt := some now }
    some { db with mailbox := some handed, recoveries := recoveries }

end Database

/-- A transaction's rows, as its commit adds them; a row that conflicts with one committed
meanwhile has waited for it and raises. -/
def insertRows (table : MessageTable) : List MailMessage → Option MessageTable
  | [] => some table
  | row :: rows =>
    if table.rows.any row.conflicts then none
    else (table.insert? row).bind fun table => insertRows table rows

/-- Committed rows stay, and the transaction's rows join them. -/
theorem insertRows_spec {table table' : MessageTable} {rows : List MailMessage}
    (h : insertRows table rows = some table') (row : MailMessage) :
    row ∈ table' ↔ row ∈ table ∨ row ∈ rows := by
  induction rows generalizing table with
  | nil =>
    obtain rfl := Option.some.inj h
    simp
  | cons first rows ih =>
    simp only [insertRows] at h
    split at h
    · cases h
    · obtain ⟨next, hnext, hrest⟩ := Option.bind_eq_some_iff.1 h
      rw [ih hrest, Table.mem_insert? hnext, List.mem_cons, or_assoc]

end FoundingSales.Mail
