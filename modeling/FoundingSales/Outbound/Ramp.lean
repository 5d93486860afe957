import FoundingSales.Outbound.Recovery

/-!
The reputation ramp. The cap is computed, never stored: what is stored is the number of
healthy sending days a mailbox has behind it, and the admin's two adjustments.

Each function is a transaction on the tables, or raises with `none`. Where a statement
says `greatest(…, 0)`, the function takes it as `greatest`, so that a run without the clamp
can be compared with the run of the program.
-/

namespace FoundingSales.Outbound

open Tables

structure RampRow extends RampDbRow where
  recovery : Option SenderRecovery
  deriving DecidableEq

/-- `greatest(n, 0)` -/
def greatest (n : Int) : Int := max n 0

/-- The same place in the statement, with no clamp. -/
def unclamped (n : Int) : Int := n

structure RampBand where
  throughDay : Int
  cap : Int
  deriving DecidableEq

def rampSchedule : List RampBand := [⟨5, 5⟩, ⟨10, 10⟩, ⟨15, 15⟩, ⟨20, 25⟩, ⟨30, 35⟩]

def rampSettledCap : Int := 50
def rampHardCeiling : Int := 100
def rampAdminRaiseLimit : Int := 75

def scheduledCap (healthySendingDays : Int) : Int :=
  ((rampSchedule.find? fun band => max healthySendingDays 0 < band.throughDay).map
    RampBand.cap).getD rampSettledCap

/-- The schedule, or the admin's raise in its place, then the lowering, the hard ceiling
and the recovery stage. -/
def effectiveDailyCap (ramp : RampRow) : Int :=
  let base := ramp.raisedDailyCap.getD (scheduledCap ramp.healthySendingDays)
  let lowered := match ramp.adminDailyCap with
    | none => base
    | some cap => min base cap
  let recovering := ramp.recovery.filter SenderRecovery.active
  max (min (min lowered rampHardCeiling)
    (min ((recovering.map SenderRecovery.stageCap).getD rampHardCeiling)
      ((recovering.map fun _ => scheduledCap ramp.healthySendingDays).getD rampHardCeiling))) 0

/-! ## Health -/

structure DayConditions where
  authenticationPasses : Bool
  coverageHealthy : Bool
  providerWarning : Bool
  deriving DecidableEq

structure RampHealthSignals extends DayConditions where
  automatedSent : Int
  bounces : Int
  optOuts : Int
  providerErrors : Int
  deriving DecidableEq

def rampRateFloor : Int := 20
def rampSmallDayTolerance : Int := 1

/-- The rates 0.05 and 0.1 are compared as the fractions they are: no quotient of two
counts within 32 bits rounds across them. -/
def rampHealthFailure (signals : RampHealthSignals) : Option RampHealthFailure :=
  if !signals.authenticationPasses then some .authenticationFailing
  else if !signals.coverageHealthy then some .coverageUnhealthy
  else if signals.providerWarning || signals.providerErrors > 0 then some .providerWarning
  else if signals.automatedSent = 0 then some .noSends
  else if signals.automatedSent < rampRateFloor then
    if signals.bounces > rampSmallDayTolerance then some .bounceRate
    else if signals.optOuts > rampSmallDayTolerance then some .optOutRate
    else none
  else if 20 * signals.bounces > signals.automatedSent then some .bounceRate
  else if 10 * signals.optOuts > signals.automatedSent then some .optOutRate
  else none

/-- `Math.ceil(stageCap * 0.8)`, for the caps there are: 0 to 100. -/
def requiredVolume (stageCap : Int) : Int := (4 * stageCap + 4) / 5

def rampAdvancementFailure (signals : RampHealthSignals) (stageCap : Int) :
    Option RampHealthFailure :=
  rampHealthFailure signals <|>
    if signals.bounces > 0 then some .bounceRate
    else if signals.optOuts > 0 then some .optOutRate
    else if signals.automatedSent < requiredVolume stageCap then some .insufficientVolume
    else none

def SendDay.signals (day : SendDay) (conditions : DayConditions) : RampHealthSignals where
  toDayConditions := conditions
  automatedSent := day.automatedSent
  bounces := day.bounces
  optOuts := day.optOuts
  providerErrors := day.providerErrors

/-! ## The ramp row -/

/-- What a transaction learns from the clock and from other tables. -/
structure RampEnv where
  now : Instant
  /-- `gen_random_uuid()` -/
  uuid : Uuid
  activity : Option SenderActivity
  /-- whether the date has a dispatched message that is not `sent` -/
  unsettled : Bool
  deriving DecidableEq, Inhabited

/-- The mailbox's ramp, created at zero if it has none. -/
def ensureRamp (e : RampEnv) (t : RampTables) (mailboxId : Uuid) : Option (RampRow × RampTables) := do
  let row := (t.ramps.find? mailboxId).getD (newRamp mailboxId)
  let t ← assessInactivity { t with ramps := t.ramps.upsert row } mailboxId
    (scheduledCap row.healthySendingDays) e.activity e.uuid
  some ({ row with recovery := readRecovery t mailboxId }, t)

def RampTables.updateRamp (t : RampTables) (mailboxId : Uuid) (guard : RampDbRow → Bool)
    (set : RampDbRow → RampDbRow) : Option (Option RampDbRow × RampTables) := do
  let (returned, ramps) ← t.ramps.updateRow rampChecks mailboxId guard set
  some (returned, { t with ramps := ramps })

def RampTables.updateEpoch (t : RampTables) (id : Option Uuid) (set : RecoveryEpoch → RecoveryEpoch) :
    Option RampTables :=
  match id with
  | none => some t
  | some id => do
    let (_, epochs) ← t.epochs.updateRow epochChecks id (fun _ => true) set
    some { t with epochs := epochs }

def RampTables.updateDay (t : RampTables) (mailboxId : Uuid) (businessDate : BusinessDate)
    (guard : SendDay → Bool) (set : SendDay → SendDay) : Option (Option SendDay × RampTables) := do
  let (returned, days) ← t.days.updateRow sendDayChecks (mailboxId, businessDate) guard set
  some (returned, { t with days := days })

/-! ## The send day -/

/-- The row `openSendDay` inserts. -/
def newSendDay (mailboxId : Uuid) (businessDate : BusinessDate) (cap : Int)
    (recovery : Option SenderRecovery) : SendDay where
  mailboxId := mailboxId
  businessDate := businessDate
  automatedSent := 0
  bounces := 0
  optOuts := 0
  providerErrors := 0
  capGranted := cap
  healthy := none
  closedAt := none
  recoveryCredited := false
  recoveryEpochId := recovery.map SenderRecovery.epochId
  recoveryStage := recovery.map fun r => recoveryStageIndex r.qualifyingDays
  recoveryCap := recovery.map fun _ => cap

/-- The row as the upsert leaves it: an existing day keeps the highest cap granted. -/
def grantCap (existing : Option SendDay) (row : SendDay) : SendDay :=
  match existing with
  | none => row
  | some day => { day with capGranted := max day.capGranted row.capGranted }

/-- The row to insert is checked before the conflict is looked for. -/
def openSendDay (t : RampTables) (mailboxId : Uuid) (businessDate : BusinessDate) (cap : Int) :
    Option (SendDay × RampTables) :=
  let row := newSendDay mailboxId businessDate cap (readRecovery t mailboxId)
  let day := grantCap (t.days.find? row.key) row
  if sendDayChecks row && sendDayChecks day then
    some (day, { t with days := t.days.upsert day })
  else none

def countOne (day : SendDay) : SendDay := { day with automatedSent := day.automatedSent + 1 }

/-- `automated_sent < cap` is in the statement that increments. -/
def countAutomatedSend (t : RampTables) (mailboxId : Uuid) (businessDate : BusinessDate)
    (cap : Int) : Option (Bool × RampTables) := do
  let (returned, t) ← t.updateDay mailboxId businessDate (fun day => day.automatedSent < cap) countOne
  some (returned.isSome, t)

/-! ## Closing a day -/

structure CloseDayOutcome where
  healthy : Bool
  failure : Option RampHealthFailure
  healthySendingDays : Int
  advanced : Bool
  deriving DecidableEq

/-- A day that does not carry the stage in force counts for no stage. -/
def recoveryOrderFailure (recovery : Option SenderRecovery) (day : SendDay) :
    Option RampHealthFailure :=
  match recovery with
  | none => none
  | some r =>
    if day.recoveryEpochId ≠ some r.epochId
        ∨ day.recoveryStage ≠ some (recoveryStageIndex r.qualifyingDays)
        ∨ day.businessDate < r.startedOn ∨ day.businessDate < r.stageStartedOn
        ∨ r.lastQualifiedOn.any (day.businessDate ≤ ·) then some .outOfOrderDay
    else none

/-- Why a day does not advance the ramp, or that it does. -/
def closeFailure (e : RampEnv) (ramp : RampRow) (day : SendDay) (conditions : DayConditions) :
    Option RampHealthFailure :=
  let recovering := ramp.recovery.any SenderRecovery.active
  recoveryOrderFailure ramp.recovery day <|>
  rampAdvancementFailure (day.signals conditions)
    (if recovering then day.recoveryCap.getD (effectiveDailyCap ramp)
      else scheduledCap ramp.healthySendingDays) <|>
  (if e.unsettled then some .unsettledSends else none) <|>
  if !recovering && ramp.lastAdvancedOn.any (day.businessDate ≤ ·) then some .outOfOrderDay
  else none

def closeSet (e : RampEnv) (healthy : Bool) (day : SendDay) : SendDay :=
  { day with healthy := some healthy, closedAt := some e.now }

def qualifySet (businessDate : BusinessDate) (epoch : RecoveryEpoch) : RecoveryEpoch :=
  { epoch with
    qualifyingDays := epoch.qualifyingDays + 1
    lastQualifiedOn := some businessDate
    stageStartedOn :=
      if (epoch.qualifyingDays + 1).tmod 5 = 0 then businessDate else epoch.stageStartedOn }

def creditSet (day : SendDay) : SendDay := { day with recoveryCredited := true }

def advanceSet (businessDate : BusinessDate) (ramp : RampDbRow) : RampDbRow :=
  { ramp with
    healthySendingDays := ramp.healthySendingDays + 1
    lastAdvancedOn := some businessDate
    lastHealthFailure := none }

def failureSet (failure : RampHealthFailure) (ramp : RampDbRow) : RampDbRow :=
  { ramp with lastHealthFailure := some failure }

def closeSendDay (e : RampEnv) (t : RampTables) (mailboxId : Uuid) (businessDate : BusinessDate)
    (conditions : DayConditions) : Option (Option CloseDayOutcome × RampTables) := do
  let (ramp, t) ← ensureRamp e t mailboxId
  match t.days.find? (mailboxId, businessDate) with
  | none => some (none, t)
  | some day =>
    -- a closed verdict is final, except for late adverse signals
    if day.closedAt.isSome then
      some (some ⟨day.healthy == some true, none, ramp.healthySendingDays, false⟩, t)
    else
      match closeFailure e ramp day conditions with
      | some failure =>
        let (_, t) ← t.updateDay mailboxId businessDate (fun _ => true) (closeSet e false)
        let (_, t) ← t.updateRamp mailboxId (fun _ => true) (failureSet failure)
        some (some ⟨false, some failure, ramp.healthySendingDays, false⟩, t)
      | none =>
        let (_, t) ← t.updateDay mailboxId businessDate (fun _ => true) (closeSet e true)
        match ramp.recovery.filter SenderRecovery.active with
        | some recovery =>
          let t ← t.updateEpoch (some recovery.epochId) (qualifySet businessDate)
          let (_, t) ← t.updateDay mailboxId businessDate (fun _ => true) creditSet
          some (some ⟨true, none, ramp.healthySendingDays, true⟩, t)
        | none =>
          let (updated, t) ← t.updateRamp mailboxId
            (fun row => row.lastAdvancedOn.all (· < businessDate)) (advanceSet businessDate)
          some (some ⟨true, none, (updated.map RampDbRow.healthySendingDays).getD
            ramp.healthySendingDays, updated.isSome⟩, t)

/-! ## Late signals -/

inductive DaySignal
  | bounce | optOut | providerError
  deriving DecidableEq

def DaySignal.failure : DaySignal → RampHealthFailure
  | bounce => .bounceRate
  | optOut => .optOutRate
  | providerError => .providerWarning

def DaySignal.count (signal : DaySignal) (day : SendDay) : SendDay :=
  match signal with
  | bounce => { day with bounces := day.bounces + 1 }
  | optOut => { day with optOuts := day.optOuts + 1 }
  | providerError => { day with providerErrors := day.providerErrors + 1 }

def signalSet (signal : DaySignal) (day : SendDay) : SendDay :=
  { signal.count day with
    healthy := if day.closedAt.isSome && day.healthy == some true then some false else day.healthy }

def disqualifySet (greatest : Int → Int) (epoch : RecoveryEpoch) : RecoveryEpoch :=
  { epoch with qualifyingDays := greatest (epoch.qualifyingDays - 1) }

def takeBackSet (greatest : Int → Int) (days : Int) (failure : RampHealthFailure)
    (ramp : RampDbRow) : RampDbRow :=
  { ramp with
    healthySendingDays := greatest (ramp.healthySendingDays - days)
    lastHealthFailure := some failure }

/-- The epoch's correction, made for a credited day only. -/
def RampTables.disqualifyEpoch (greatest : Int → Int) (t : RampTables) (credited : Bool)
    (epochId : Option Uuid) : Option RampTables :=
  if credited then t.updateEpoch epochId (disqualifySet greatest) else some t

/-- One statement: its parts all read the tables as it found them. -/
def recordDaySignal (greatest : Int → Int) (t : RampTables) (mailboxId : Uuid)
    (businessDate : BusinessDate) (signal : DaySignal) : Option RampTables :=
  match t.days.find? (mailboxId, businessDate) with
  | none => some t
  | some before => do
    let (_, t) ← t.updateDay mailboxId businessDate (fun _ => true) (signalSet signal)
    let wasHealthy := before.healthy == some true && before.closedAt.isSome
    let t ← t.disqualifyEpoch greatest (wasHealthy && before.recoveryCredited)
      before.recoveryEpochId
    let (_, t) ← t.updateRamp mailboxId (fun _ => wasHealthy)
      (takeBackSet greatest (if before.recoveryCredited then 0 else 1) signal.failure)
    some t

/-- The healthy flag is the once-only graduation marker. -/
def revokeDayAdvancement (greatest : Int → Int) (t : RampTables) (mailboxId : Uuid)
    (businessDate : BusinessDate) (failure : RampHealthFailure) : Option (Bool × RampTables) := do
  let (returned, t) ← t.updateDay mailboxId businessDate (fun day => day.healthy == some true)
    fun day => { day with healthy := some false }
  match returned with
  | none => some (false, t)
  | some day =>
    let t ← t.disqualifyEpoch greatest day.recoveryCredited day.recoveryEpochId
    let (_, t) ← t.updateRamp mailboxId (fun _ => true)
      (takeBackSet greatest (if day.recoveryCredited then 0 else 1) failure)
    some (true, t)

inductive RampCorrection
  | unchanged | reversed
  deriving DecidableEq

structure BounceAgainstDay where
  businessDate : BusinessDate
  late : Bool
  ramp : RampCorrection
  failure : Option RampHealthFailure
  deriving DecidableEq

/-- A healthy verdict is the record that the three conditions passed. -/
def passedConditions : DayConditions := ⟨true, true, false⟩

def recordBounceAgainstDay (greatest : Int → Int) (e : RampEnv) (t : RampTables)
    (mailboxId : Uuid) (businessDate : BusinessDate) : Option (Option BounceAgainstDay × RampTables) := do
  let (_, t) ← ensureRamp e t mailboxId
  let (returned, t) ← t.updateDay mailboxId businessDate (fun _ => true) DaySignal.bounce.count
  match returned with
  | none => some (none, t)
  | some day =>
    if day.closedAt.isNone then some (some ⟨businessDate, false, .unchanged, none⟩, t)
    else if day.healthy ≠ some true then some (some ⟨businessDate, true, .unchanged, none⟩, t)
    else
      let failure := (rampHealthFailure (day.signals passedConditions)).getD .bounceRate
      let (revoked, t) ← revokeDayAdvancement greatest t mailboxId businessDate failure
      some (some ⟨businessDate, true, if revoked then .reversed else .unchanged, some failure⟩, t)

end FoundingSales.Outbound
