import FoundingSales.Library.Tables
import FoundingSales.Text

/-!
The tables of the reputation ramp, and the inactivity recovery that bounds it for a while.
Numbers are the program's own: integers, so that a count taken below zero would show.
-/

namespace FoundingSales.Outbound

open Tables

inductive RampHealthFailure
  | authenticationFailing | coverageUnhealthy | providerWarning | bounceRate | optOutRate
  | noSends | insufficientVolume | unsettledSends | outOfOrderDay
  deriving DecidableEq

/-! ## The tables -/

/-- One row of `mailbox_send_ramp`. -/
structure RampDbRow where
  mailboxId : Uuid
  healthySendingDays : Int
  lastAdvancedOn : Option BusinessDate
  adminDailyCap : Option Int
  raisedDailyCap : Option Int
  lastHealthFailure : Option RampHealthFailure
  recoveryEpochId : Option Uuid
  deriving DecidableEq

def rampChecks (row : RampDbRow) : Bool :=
  0 ≤ row.healthySendingDays &&
  row.adminDailyCap.all (fun cap => 0 ≤ cap && cap ≤ 100) &&
  row.raisedDailyCap.all (fun cap => 1 ≤ cap && cap ≤ 100)

/-- A row as an INSERT leaves it to its defaults. -/
def newRamp (mailboxId : Uuid) : RampDbRow := ⟨mailboxId, 0, none, none, none, none, none⟩

/-- One row of `mailbox_recovery_epochs`. -/
structure RecoveryEpoch where
  id : Uuid
  mailboxId : Uuid
  activityAt : Instant
  startedOn : BusinessDate
  earnedCap : Int
  qualifyingDays : Int
  lastQualifiedOn : Option BusinessDate
  stageStartedOn : BusinessDate
  deriving DecidableEq

def epochChecks (row : RecoveryEpoch) : Bool :=
  0 ≤ row.earnedCap && row.earnedCap ≤ 100 && 0 ≤ row.qualifyingDays

/-- One row of `mailbox_send_days`. -/
structure SendDay where
  mailboxId : Uuid
  businessDate : BusinessDate
  automatedSent : Int
  bounces : Int
  optOuts : Int
  providerErrors : Int
  capGranted : Int
  healthy : Option Bool
  closedAt : Option Instant
  recoveryCredited : Bool
  recoveryEpochId : Option Uuid
  recoveryStage : Option Nat
  recoveryCap : Option Int
  deriving DecidableEq

def SendDay.key (day : SendDay) : Uuid × BusinessDate := (day.mailboxId, day.businessDate)

/-- `mailbox_send_days_within_cap`, the backstop. -/
def withinCap (day : SendDay) : Bool := day.automatedSent ≤ day.capGranted

/-- The other CHECK constraints. -/
def sendDayBounds (day : SendDay) : Bool :=
  0 ≤ day.automatedSent && 0 ≤ day.bounces && 0 ≤ day.optOuts && 0 ≤ day.providerErrors &&
  0 ≤ day.capGranted && day.capGranted ≤ 100 &&
  day.healthy.isNone == day.closedAt.isNone &&
  day.recoveryStage.all (· ≤ 5) &&
  day.recoveryCap.all (fun cap => 0 ≤ cap && cap ≤ 100) &&
  day.recoveryEpochId.isNone == day.recoveryCap.isNone &&
  day.recoveryEpochId.isNone == day.recoveryStage.isNone

def sendDayChecks (day : SendDay) : Bool := sendDayBounds day && withinCap day

structure RampTables where
  ramps : Table RampDbRow.mailboxId
  epochs : Table RecoveryEpoch.id
  days : Table SendDay.key

def RampTables.empty : RampTables := ⟨.empty, .empty, .empty⟩

/-! ## Recovery -/

structure SenderRecovery where
  epochId : Uuid
  active : Bool
  startedOn : BusinessDate
  stageCap : Int
  earnedCap : Int
  qualifyingDays : Int
  nextStageAfterDays : Int
  lastQualifiedOn : Option BusinessDate
  stageStartedOn : BusinessDate
  deriving DecidableEq

def stages : List Int := [5, 10, 15, 25, 35, 50]

def recoveryStageIndex (qualifyingDays : Int) : Nat :=
  min (max qualifyingDays 0 / 5).toNat (stages.length - 1)

def recoveryStageCap (qualifyingDays : Int) : Int :=
  stages.getD (recoveryStageIndex qualifyingDays) 5

/-- What `assessInactivity` reads of the mailbox and the clock. -/
structure SenderActivity where
  /-- the latest activity, or the mailbox's creation -/
  activityAt : Instant
  /-- its date in the workspace's zone -/
  date : BusinessDate
  today : BusinessDate
  deriving DecidableEq, Inhabited

/-- Start an epoch for a sender two weeks inactive, once for one activity. `none` is a
statement that raised. -/
def assessInactivity (t : RampTables) (mailboxId : Uuid) (earnedCap : Int)
    (activity : Option SenderActivity) (uuid : Uuid) : Option RampTables :=
  match t.ramps.find? mailboxId, activity with
  | some locked, some a =>
    if a.today - a.date < 14 then some t
    else if (locked.recoveryEpochId.bind t.epochs.find?).any fun e => a.activityAt ≤ e.activityAt then some t
    else
      match t.epochs.rows.find? fun e => e.mailboxId = mailboxId && e.activityAt = a.activityAt with
      | some e =>
        some { t with ramps := t.ramps.upsert { locked with recoveryEpochId := some e.id } }
      | none =>
        let row : RecoveryEpoch := ⟨uuid, mailboxId, a.activityAt, a.today, earnedCap, 0, none, a.today⟩
        if epochChecks row then do
          let epochs ← t.epochs.insert? row
          some { t with
            epochs := epochs
            ramps := t.ramps.upsert { locked with recoveryEpochId := some uuid } }
        else none
  | _, _ => some t

def readRecovery (t : RampTables) (mailboxId : Uuid) : Option SenderRecovery := do
  let ramp ← t.ramps.find? mailboxId
  let epochId ← ramp.recoveryEpochId
  let row ← t.epochs.find? epochId
  let stageCap := min (recoveryStageCap row.qualifyingDays) row.earnedCap
  let requiredDays := max 5
    (match stages.findIdx? fun cap => row.earnedCap ≤ cap with
      | some index => (index : Int) * 5
      | none => -5)
  let active := decide (row.qualifyingDays < requiredDays)
  some {
    epochId := row.id
    active := active
    startedOn := row.startedOn
    stageCap := stageCap
    earnedCap := row.earnedCap
    qualifyingDays := row.qualifyingDays
    nextStageAfterDays := if active then 5 - row.qualifyingDays.tmod 5 else 0
    lastQualifiedOn := row.lastQualifiedOn
    stageStartedOn := row.stageStartedOn }

end FoundingSales.Outbound
