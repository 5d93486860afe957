import FoundingSales.Research.Reservations

/-!
Clearing a reservation against its own daily budget and against the month's cash ceiling,
and inserting it in the same transaction. A transaction reads the database's clock when it
begins and takes its locks later: the instant it read dates its reservation. The statements
under one lock are one step; a telephony clearance is two, since only the second is under
the monthly lock.
-/

namespace FoundingSales.Research

open Tables

/-! ## Prices -/

inductive ModelTransportKind
  | anthropic | bedrock
  deriving DecidableEq

/-- Cents per million tokens. -/
structure ModelPrice where
  input : Nat
  output : Nat
  deriving DecidableEq

def priceCentsPerMillion : List (JsString × ModelPrice) := [(js "claude-haiku-4-5", ⟨100, 500⟩)]

def bedrockModelTable : List (JsString × ModelPrice) :=
  [(js "claude-haiku-4-5", ⟨110, 550⟩), (js "claude-haiku-4-5-20251001", ⟨110, 550⟩)]

/-- `providerKey.startsWith('aws_bedrock.')` -/
def transportOfProviderKey (providerKey : JsString) : ModelTransportKind :=
  if (js "aws_bedrock.").isPrefixOf providerKey then .bedrock else .anthropic

/-- The price of a model that is priced; a model without a row cannot run. -/
def modelPrice (modelName : JsString) (transport : ModelTransportKind) : Option ModelPrice := do
  let firstParty ← priceCentsPerMillion.lookup modelName
  match transport with
  | .anthropic => some firstParty
  | .bedrock => bedrockModelTable.lookup modelName

/-- `Math.ceil` of a quotient. -/
def ceilDiv (numerator denominator : Nat) : Nat := (numerator + denominator - 1) / denominator

/-- What a call cost, rounded up to whole cents; no worst case has cached tokens. -/
def centsOf (price : ModelPrice) (inputTokens outputTokens : Nat) : Nat :=
  ceilDiv (inputTokens * price.input + outputTokens * price.output) 1000000

def maxExtractionOutputTokens : Nat := 600
def maxBlocks : Nat := 100
def maxTextCharacters : Nat := 12000

/-- `Math.ceil(characters / 2.5)` -/
def tokensFor (characters : Nat) : Nat := ceilDiv (2 * characters) 5

structure ResearchSettings where
  enabled : Bool
  dailyFirmCeiling : Int
  dailyCostCeilingCents : Int
  monthlyCostCeilingCents : Int
  maxPagesPerFirm : Int
  maxPageBytes : Int
  modelName : JsString
  deriving DecidableEq

/-- `fixedPromptTokens` is what the prompt's own texts measure. -/
def worstCaseInputTokens (fixedPromptTokens : Nat) (settings : ResearchSettings) : Nat :=
  let pages := (max 1 settings.maxPagesPerFirm).toNat
  let charactersPerPage := (min (max 1024 settings.maxPageBytes) maxTextCharacters).toNat
  let perPage := tokensFor charactersPerPage + maxBlocks * 8 + 300
  fixedPromptTokens + pages * perPage

def worstCaseRunCents (fixedPromptTokens : Nat) (settings : ResearchSettings)
    (transport : ModelTransportKind) : Option Nat :=
  (modelPrice settings.modelName transport).map fun price =>
    centsOf price (worstCaseInputTokens fixedPromptTokens settings) maxExtractionOutputTokens

/-! ## What the transactions read and never write -/

structure Workspaces where
  localDate : LocalClock
  /-- `business_time_zone` -/
  zone : Uuid → Option JsString
  /-- `monthly_cash_ceiling_cents` -/
  monthlyCashCeiling : Uuid → Nat
  /-- The firm of a research run. -/
  firmOf : Uuid → Uuid → Option Uuid
  fixedPromptTokens : Nat

def Workspaces.businessDate (env : Workspaces) (workspaceId : Uuid) (at_ : Instant) :
    Option LocalDate :=
  env.localDate at_ (businessZone (env.zone workspaceId))

/-! ## The monthly cash ceiling -/

/-- Whether one more reservation of `cents` fits this month's ceiling. -/
def clearMonthlyCash (env : Workspaces) (workspaceId : Uuid) (businessDate : LocalDate)
    (cents : Int) (t : MoneyTables) : Bool :=
  (readSpend workspaceId businessDate t).monthToDateCents + max 0 cents
    ≤ env.monthlyCashCeiling workspaceId

/-! ## Research -/

/-- The counter `research_firm_runs` of a workspace and day. -/
structure FirmRunRow where
  workspaceId : Uuid
  businessDate : LocalDate
  count : Int
  deriving DecidableEq

def FirmRunRow.key (row : FirmRunRow) : Uuid × LocalDate := (row.workspaceId, row.businessDate)

abbrev FirmRunTable := Table FirmRunRow.key

/-- Increment by one if the result stays at or under the ceiling; `none` is refused. -/
def incrementDailyCounter (workspaceId : Uuid) (businessDate : LocalDate) (ceiling : Int)
    (counters : FirmRunTable) : Option FirmRunTable :=
  if ceiling < 1 then none
  else
    match counters.find? (workspaceId, businessDate) with
    | none => some (counters.upsert ⟨workspaceId, businessDate, 1⟩)
    | some row =>
      if row.count < ceiling then
        some (counters.upsert ⟨workspaceId, businessDate, row.count + 1⟩)
      else none

inductive ClearanceRefusal
  | researchDisabled | modelUnpriced | dailyFirmCeiling | overBudget | dailyCostCeiling
  | monthlyCostCeiling | telephonyBudgetDisabled | telephonyBudgetExhausted | monthlyCashCeiling
  deriving DecidableEq

inductive AttemptKind
  | first | retry
  deriving DecidableEq

/-- `RESEARCH_FIRM_MAX_RESERVATIONS` -/
def researchFirmMaxReservations : Nat := 3

/-- How many reservation rows this firm holds for one business date, across all its runs. -/
def firmReservationsOnDate (env : Workspaces) (workspaceId firmId : Uuid)
    (businessDate : LocalDate) (t : MoneyTables) : Nat :=
  t.reservations.count fun row => row.workspaceId = workspaceId &&
    row.subjectKind = .researchRun && row.businessDate = businessDate &&
    env.firmOf workspaceId row.subjectId = some firmId

structure ResearchClearance where
  businessTimeZone : JsString
  worstCaseCents : Nat
  modelName : JsString
  maxInputTokens : Nat
  maxOutputTokens : Nat
  deriving DecidableEq

structure ResearchCall where
  workspaceId : Uuid
  firmId : Uuid
  runId : Uuid
  attempt : Int
  attemptKind : AttemptKind
  providerKey : Option JsString
  settings : ResearchSettings
  newId : Uuid
  deriving DecidableEq

def ResearchCall.provider (call : ResearchCall) : JsString :=
  call.providerKey.getD (js "anthropic_extraction")

/-- What is refused before a unit of the day's count, or by it. -/
def takeFirmRun (call : ResearchCall) (businessDate : LocalDate) (counters : FirmRunTable) :
    Option FirmRunTable :=
  match call.attemptKind with
  | .first =>
    incrementDailyCounter call.workspaceId businessDate call.settings.dailyFirmCeiling counters
  | .retry => some counters

/-- Price and clear exactly one reservation, or say why not; a unit of the count that is
taken stays taken. -/
def claimResearchClearance (env : Workspaces) (at_ : Instant) (call : ResearchCall)
    (counters : FirmRunTable) (t : MoneyTables) :
    Option (Except ClearanceRefusal ResearchClearance × FirmRunTable) :=
  if !call.settings.enabled then some (.error .researchDisabled, counters)
  else
    match worstCaseRunCents env.fixedPromptTokens call.settings
        (transportOfProviderKey call.provider) with
    | none => some (.error .modelUnpriced, counters)
    | some worstCaseCents => do
      let businessDate ← env.businessDate call.workspaceId at_
      match takeFirmRun call businessDate counters with
      | none => some (.error .dailyFirmCeiling, counters)
      | some counters =>
        let spend := readResearchSpend call.workspaceId businessDate t
        if firmReservationsOnDate env call.workspaceId call.firmId businessDate t
            ≥ researchFirmMaxReservations then
          some (.error .overBudget, counters)
        else if spend.todayCents + worstCaseCents > call.settings.dailyCostCeilingCents then
          some (.error .dailyCostCeiling, counters)
        else if spend.monthToDateCents + worstCaseCents > call.settings.monthlyCostCeilingCents then
          some (.error .monthlyCostCeiling, counters)
        else if isCash call.provider &&
            !clearMonthlyCash env call.workspaceId businessDate worstCaseCents t then
          some (.error .monthlyCashCeiling, counters)
        else
          some (.ok ⟨businessZone (env.zone call.workspaceId), worstCaseCents,
            call.settings.modelName, worstCaseInputTokens env.fixedPromptTokens call.settings,
            maxExtractionOutputTokens⟩, counters)

/-- The reservation a research clearance is for. -/
def researchReserveInput (at_ : Instant) (call : ResearchCall) (clearance : ResearchClearance) :
    ReserveInput where
  providerKey := call.provider
  subjectKind := .researchRun
  subjectId := call.runId
  attempt := .finite call.attempt
  at_ := at_
  businessTimeZone := clearance.businessTimeZone
  cents := .finite (clearance.worstCaseCents : Int)
  modelName := clearance.modelName
  maxInputTokens := .finite (clearance.maxInputTokens : Int)
  maxOutputTokens := .finite (clearance.maxOutputTokens : Int)

/-- The clearance, and with it the reservation. -/
def reserveResearch (env : Workspaces) (at_ : Instant) (call : ResearchCall)
    (counters : FirmRunTable) (t : MoneyTables) : Option (FirmRunTable × MoneyTables) := do
  let (cleared, counters) ← claimResearchClearance env at_ call counters t
  match cleared with
  | .error _ => some (counters, t)
  | .ok clearance =>
    let (_, t) ← reserveAttempt env.localDate call.workspaceId
      (researchReserveInput at_ call clearance) call.newId t
    some (counters, t)

/-! ## Telephony -/

def telephonyProviderKey : JsString := js "twilio.voice"

structure TelephonyBudgetSetting where
  dailyCeilingCents : Nat
  maxMinutesPerCall : Nat
  unitPriceMicros : Nat
  deriving DecidableEq

/-- Cents for the worst case; the bill is by started minute. -/
def telephonyReservationCents (minutes unitPriceMicros : Nat) : Nat :=
  ceilDiv (minutes * unitPriceMicros) 10000

structure TelephonyReservationClearance where
  cents : Nat
  maxMinutes : Nat
  unitPriceMicros : Nat
  businessDate : LocalDate
  zone : JsString
  deriving DecidableEq

/-- Cents of Twilio minutes spent on one business date. -/
def telephonySpentCents (workspaceId : Uuid) (businessDate : LocalDate) (t : MoneyTables) : Int :=
  t.spent fun key => key.workspaceId = workspaceId && key.providerKey = telephonyProviderKey &&
    key.businessDate = businessDate

/-- `clearTelephonyReservation` up to the monthly lock: the day's own budget. -/
def clearTelephonyDay (env : Workspaces) (workspaceId : Uuid) (at_ : Instant)
    (budget : TelephonyBudgetSetting) (maxMinutes : Option Nat) (t : MoneyTables) :
    Option (Except ClearanceRefusal TelephonyReservationClearance) :=
  if budget.dailyCeilingCents ≤ 0 then some (.error .telephonyBudgetDisabled)
  else do
    let businessDate ← env.businessDate workspaceId at_
    let minutes := maxMinutes.getD budget.maxMinutesPerCall
    let cents := telephonyReservationCents minutes budget.unitPriceMicros
    if telephonySpentCents workspaceId businessDate t + cents > budget.dailyCeilingCents then
      some (.error .telephonyBudgetExhausted)
    else
      some (.ok ⟨cents, minutes, budget.unitPriceMicros, businessDate,
        businessZone (env.zone workspaceId)⟩)

/-- `clearTelephonyReservation` from the monthly lock on. -/
def clearTelephonyMonth (env : Workspaces) (workspaceId : Uuid)
    (clearance : TelephonyReservationClearance) (t : MoneyTables) :
    Except ClearanceRefusal TelephonyReservationClearance :=
  if clearMonthlyCash env workspaceId clearance.businessDate clearance.cents t then .ok clearance
  else .error .monthlyCashCeiling

def telephonyReservation (workspaceId sessionId newId : Uuid)
    (clearance : TelephonyReservationClearance) : ReservationRow where
  id := newId
  workspaceId := workspaceId
  providerKey := telephonyProviderKey
  subjectKind := .callSession
  subjectId := sessionId
  attempt := 1
  businessDate := clearance.businessDate
  businessTimeZone := clearance.zone
  cents := clearance.cents
  modelName := none
  maxInputTokens := none
  maxOutputTokens := none
  state := .reserved
  settledCents := 0
  settledAt := none

def reserveTelephonyCall (workspaceId sessionId newId : Uuid)
    (clearance : TelephonyReservationClearance) (t : MoneyTables) : Option MoneyTables :=
  insertReservation (telephonyReservation workspaceId sessionId newId clearance) t

/-- The month's check, and with it the reservation. -/
def reserveTelephony (env : Workspaces) (workspaceId sessionId newId : Uuid)
    (clearance : TelephonyReservationClearance) (t : MoneyTables) : Option MoneyTables :=
  match clearTelephonyMonth env workspaceId clearance t with
  | .error _ => some t
  | .ok clearance => reserveTelephonyCall workspaceId sessionId newId clearance t

/-! ## Transactions -/

inductive CashTransaction
  /-- It has read the clock, and waits for its locks. -/
  | dated (at_ : Instant)
  /-- It is past the day's telephony budget, and holds the workspace's lock on it. -/
  | dayCleared (workspaceId : Uuid) (clearance : TelephonyReservationClearance)
  deriving DecidableEq

def CashTransaction.holdsTelephonyBudget (workspaceId : Uuid) : CashTransaction → Bool
  | dated _ => false
  | dayCleared holder _ => holder = workspaceId

structure CashWorld where
  clock : Instant
  transactions : List CashTransaction
  counters : FirmRunTable
  tables : MoneyTables

def CashWorld.start (clock : Instant) : CashWorld := ⟨clock, [], Table.empty, MoneyTables.empty⟩

inductive CashAction
  | tick (millis : Nat)
  | begin
  | reserveResearch (at_ : Instant) (call : ResearchCall)
  | clearTelephonyDay (at_ : Instant) (workspaceId : Uuid) (budget : TelephonyBudgetSetting)
      (maxMinutes : Option Nat)
  | reserveTelephony (workspaceId : Uuid) (clearance : TelephonyReservationClearance)
      (sessionId newId : Uuid)
  | rollback (transaction : CashTransaction)
  | markCalling (workspaceId reservationId : Uuid) (current : Instant)
  | settleAttempt (workspaceId reservationId : Uuid) (at_ : Instant) (outcome : SettleOutcome)
  | finaliseSubjectReservations (workspaceId : Uuid) (subjectKind : SubjectKind)
      (subjectId : Uuid) (at_ : Instant)
  deriving DecidableEq

/-- The operation on the money tables an action is, when it clears nothing. -/
def CashAction.moneyOp (env : Workspaces) : CashAction → Option MoneyOp
  | markCalling workspaceId reservationId current =>
    some (.markCalling workspaceId reservationId current (env.zone workspaceId))
  | settleAttempt workspaceId reservationId at_ outcome =>
    some (.settleAttempt workspaceId reservationId at_ outcome)
  | finaliseSubjectReservations workspaceId subjectKind subjectId at_ =>
    some (.finaliseSubjectReservations workspaceId subjectKind subjectId at_)
  | _ => none

/-- One step of the transactions of every workspace; one that raises is rolled back. -/
def cashStep (env : Workspaces) (world : CashWorld) (action : CashAction) : CashWorld :=
  match action with
  | .tick millis => { world with clock := world.clock + millis }
  | .begin => { world with transactions := .dated world.clock :: world.transactions }
  | .reserveResearch at_ call =>
    if .dated at_ ∈ world.transactions then
      let world := { world with transactions := world.transactions.erase (.dated at_) }
      match Research.reserveResearch env at_ call world.counters world.tables with
      | none => world
      | some (counters, tables) => { world with counters, tables }
    else world
  | .clearTelephonyDay at_ workspaceId budget maxMinutes =>
    if .dated at_ ∈ world.transactions ∧
        ¬ world.transactions.any (CashTransaction.holdsTelephonyBudget workspaceId) then
      let rest := world.transactions.erase (.dated at_)
      match Research.clearTelephonyDay env workspaceId at_ budget maxMinutes world.tables with
      | some (.ok clearance) => { world with transactions := .dayCleared workspaceId clearance :: rest }
      | _ => { world with transactions := rest }
    else world
  | .reserveTelephony workspaceId clearance sessionId newId =>
    if .dayCleared workspaceId clearance ∈ world.transactions then
      let world := { world with
        transactions := world.transactions.erase (.dayCleared workspaceId clearance) }
      match Research.reserveTelephony env workspaceId sessionId newId clearance world.tables with
      | none => world
      | some tables => { world with tables }
    else world
  | .rollback transaction =>
    { world with transactions := world.transactions.erase transaction }
  | action =>
    match action.moneyOp env with
    | none => world
    | some op => { world with tables := moneyStep env.localDate world.tables op }

end FoundingSales.Research
