import Mathlib.Data.Rat.Defs
import Mathlib.Algebra.Order.Ring.Unbundled.Rat
import FoundingSales.Text
import FoundingSales.Library.Tables

/-!
What a paid provider cost, per workspace and business date (`provider_ledger`), and what
has been authorized and not yet invoiced (`provider_reservations`). A statement that the
database refuses raises, which is `none`, and ends its transaction. The calendar
(`localDate`, through `Intl`) is the platform's.
-/

namespace FoundingSales.Research

open Tables

/-! ## Numbers and dates -/

/-- A number of the program. -/
inductive JsNumber
  | finite (value : ℚ)
  | infinity (negative : Bool)
  | nan
  deriving DecidableEq

namespace JsNumber

/-- `Math.trunc` -/
def trunc : JsNumber → JsNumber
  | finite q => finite (q.num.tdiv q.den)
  | x => x

/-- `Math.max(0, x)` -/
def max0 : JsNumber → JsNumber
  | finite q => if q < 0 then finite 0 else finite q
  | infinity true => finite 0
  | x => x

/-- `Number.isSafeInteger` -/
def isSafeInteger : JsNumber → Bool
  | finite q => q.den = 1 && q.num.natAbs ≤ 2 ^ 53 - 1
  | _ => false

end JsNumber

/-- The range of a column of type `integer`. -/
def inInteger (n : Int) : Bool := -2147483648 ≤ n && n ≤ 2147483647

/-- `$n::integer`, which raises on anything else. -/
def JsNumber.integer? : JsNumber → Option Int
  | finite q => if q.den = 1 ∧ inInteger q.num then some q.num else none
  | _ => none

/-- `Math.max(0, Math.trunc(x))` as an integer parameter. -/
def wholeCents (x : JsNumber) : Option Int := x.trunc.max0.integer?

theorem wholeCents_nonneg {x : JsNumber} {c : Int} (h : wholeCents x = some c) : 0 ≤ c := by
  have hclamped : ∀ y : JsNumber, y.max0.integer? = some c → 0 ≤ c := by
    intro y hy
    cases y with
    | nan => cases hy
    | infinity negative => cases negative <;> simp [JsNumber.max0, JsNumber.integer?] at hy; omega
    | finite q =>
      simp only [JsNumber.max0] at hy
      split at hy
      · simp [JsNumber.integer?] at hy
        omega
      · next hq =>
        simp only [JsNumber.integer?, Option.ite_none_right_eq_some, Option.some.injEq] at hy
        rw [← hy.2]
        exact Rat.num_nonneg.2 (not_lt.1 hq)
  exact hclamped x.trunc h

structure LocalDate where
  year : Nat
  month : Nat
  day : Nat
  deriving DecidableEq

/-- The order of `date`. -/
def LocalDate.le (a b : LocalDate) : Bool :=
  a.year < b.year || a.year = b.year && (a.month < b.month || a.month = b.month && a.day ≤ b.day)

/-- `${businessDate.slice(0, 7)}-01` -/
def monthStart (businessDate : LocalDate) : LocalDate := { businessDate with day := 1 }

/-- The local calendar date containing an instant in a zone; an unknown zone raises. -/
abbrev LocalClock := Instant → JsString → Option LocalDate

/-- `?? 'America/New_York'` -/
def businessZone (stored : Option JsString) : JsString := stored.getD (js "America/New_York")

/-! ## Who pays -/

inductive ProviderFunding
  | cash | credits
  deriving DecidableEq

/-- Everything before the first dot. -/
def providerKind (providerKey : JsString) : JsString := providerKey.takeWhile (· ≠ 46)

def providerKindFunding : List (JsString × ProviderFunding) :=
  [(js "aws_transcribe", .credits), (js "twilio", .cash), (js "deepgram", .cash),
    (js "anthropic_extraction", .cash), (js "anthropic_classifier", .cash),
    (js "anthropic_call_summary", .cash), (js "anthropic_call_analysis", .cash),
    (js "aws_bedrock", .credits)]

def providerFunding (providerKey : JsString) : ProviderFunding :=
  (providerKindFunding.lookup (providerKind providerKey)).getD .cash

/-- Transcribe shares credit funding but has limits of its own. -/
def isCreditModelProvider (providerKey : JsString) : Bool :=
  providerFunding providerKey = .credits && providerKind providerKey ≠ js "aws_transcribe"

/-! ## Rows -/

inductive SubjectKind
  | researchRun | callSession | callTranscription | replyClassification | callSummary
  | callAnalysis | meetingTranscription | meetingAnalysis | sourcingQualification
  | outreachReply | socialDraft | crmExtraction | crmAskAnswer | crmAskEmbedding
  | crmAskSupport | bookingInterpretation | campaignOpening
  deriving DecidableEq

/-- Priced by minutes, and not by a model and tokens. -/
def SubjectKind.byMinute : SubjectKind → Bool
  | callSession | callTranscription | meetingTranscription => true
  | _ => false

/-- `provider_reservations_one_open_reply`, `…_summary` and `…_analysis`. -/
def SubjectKind.oneOpen : SubjectKind → Bool
  | replyClassification | callSummary | callAnalysis => true
  | _ => false

inductive ReservationState
  | reserved | calling | settled | estimated | released
  deriving DecidableEq

/-- `OPEN_RESERVATION_STATES` -/
def ReservationState.open : ReservationState → Bool
  | reserved | calling => true
  | settled | estimated | released => false

structure ReservationRow where
  id : Uuid
  workspaceId : Uuid
  providerKey : JsString
  subjectKind : SubjectKind
  subjectId : Uuid
  attempt : Int
  businessDate : LocalDate
  businessTimeZone : JsString
  cents : Int
  modelName : Option JsString
  maxInputTokens : Option Int
  maxOutputTokens : Option Int
  state : ReservationState
  settledCents : Int
  settledAt : Option Instant
  deriving DecidableEq

def ReservationRow.key (row : ReservationRow) : Uuid × Uuid := (row.workspaceId, row.id)

structure LedgerRow where
  workspaceId : Uuid
  providerKey : JsString
  businessDate : LocalDate
  businessTimeZone : JsString
  calls : Int
  failures : Int
  costCents : Int
  lastFailureCode : Option JsString
  lastFailureAt : Option Instant
  deriving DecidableEq

structure LedgerKey where
  workspaceId : Uuid
  providerKey : JsString
  businessDate : LocalDate
  deriving DecidableEq

def LedgerRow.key (row : LedgerRow) : LedgerKey :=
  ⟨row.workspaceId, row.providerKey, row.businessDate⟩

/-- The ledger row a reservation is invoiced to. -/
def ReservationRow.ledgerKey (row : ReservationRow) : LedgerKey :=
  ⟨row.workspaceId, row.providerKey, row.businessDate⟩

/-! ## Conditions of the tables -/

def isLower (c : UInt16) : Bool := 97 ≤ c && c ≤ 122
def isUpper (c : UInt16) : Bool := 65 ≤ c && c ≤ 90
def isDecimal (c : UInt16) : Bool := 48 ≤ c && c ≤ 57

/-- A first character of one kind, and then between `least` and `most` of another. -/
def shaped (first rest : UInt16 → Bool) (least most : Nat) : JsString → Bool
  | [] => false
  | c :: cs => first c && least ≤ cs.length && cs.length ≤ most && cs.all rest

/-- `^[a-z][a-z0-9_.-]{1,63}$` -/
def providerKeyShape : JsString → Bool :=
  shaped isLower (fun c => isLower c || isDecimal c || c ∈ js "_.-") 1 63

/-- `^[a-z][a-z0-9_]{2,63}$` -/
def failureCodeShape : JsString → Bool :=
  shaped isLower (fun c => isLower c || isDecimal c || c ∈ js "_") 2 63

/-- `^[a-z][a-z0-9.-]{1,63}(:[0-9]{1,8})?$` -/
def modelNameShape (name : JsString) : Bool :=
  let base := name.takeWhile (· ≠ 58)
  let version := name.drop base.length
  shaped isLower (fun c => isLower c || isDecimal c || c ∈ js ".-") 1 63 base &&
    (version.isEmpty || shaped (· = 58) isDecimal 1 8 version)

/-- `^[A-Za-z][A-Za-z0-9_+-]*(/[A-Za-z0-9_+-]+){1,2}$` -/
def timeZoneShape (zone : JsString) : Bool :=
  let inPart := fun c => isLower c || isUpper c || isDecimal c || c ∈ js "_+-"
  match zone.splitOn 47 with
  | [] => false
  | area :: places =>
    shaped (fun c => isLower c || isUpper c) inPart 0 area.length area &&
      1 ≤ places.length && places.length ≤ 2 && places.all fun place =>
        shaped inPart inPart 0 place.length place

def ledgerChecks (row : LedgerRow) : Bool :=
  providerKeyShape row.providerKey && timeZoneShape row.businessTimeZone &&
    0 ≤ row.calls && inInteger row.calls && 0 ≤ row.failures && row.failures ≤ row.calls &&
    0 ≤ row.costCents && inInteger row.costCents &&
    row.lastFailureCode.all failureCodeShape &&
    row.lastFailureCode.isNone == row.lastFailureAt.isNone

/-- `provider_reservations_priced_shape`: of the two, only the model's half is in the row. -/
def pricedShape (row : ReservationRow) : Bool :=
  if row.subjectKind.byMinute then
    row.modelName.isNone && row.maxInputTokens.isNone && row.maxOutputTokens.isNone
  else row.modelName.isSome && row.maxInputTokens.isSome && row.maxOutputTokens.isSome

/-- `campaign_opening_model_reservation_shape` -/
def campaignOpeningShape (row : ReservationRow) : Bool :=
  row.subjectKind ≠ .campaignOpening ||
    row.providerKey = js "aws_bedrock.campaign_opening" &&
      row.modelName = some (js "claude-haiku-4-5") &&
      row.maxInputTokens.any (fun tokens => 1 ≤ tokens && tokens ≤ 10000) &&
      row.maxOutputTokens = some 256

def reservationChecks (row : ReservationRow) : Bool :=
  providerKeyShape row.providerKey && timeZoneShape row.businessTimeZone &&
    1 ≤ row.attempt && inInteger row.attempt && 0 ≤ row.cents && inInteger row.cents &&
    row.modelName.all modelNameShape && row.maxInputTokens.all (fun n => 0 < n && inInteger n) &&
    row.maxOutputTokens.all (fun n => 0 < n && inInteger n) &&
    pricedShape row && campaignOpeningShape row &&
    0 ≤ row.settledCents && inInteger row.settledCents &&
    row.state.open == row.settledAt.isNone &&
    (!row.state.open || row.settledCents = 0) &&
    (row.state ≠ .released || row.settledCents = 0)

abbrev ReservationTable := Table ReservationRow.key
abbrev LedgerTable := Table LedgerRow.key

structure MoneyTables where
  reservations : ReservationTable
  ledger : LedgerTable

namespace MoneyTables

def empty : MoneyTables := ⟨Table.empty, Table.empty⟩

/-- What the ledger says of a key; without a row, nothing. -/
def costCents (t : MoneyTables) (key : LedgerKey) : Int :=
  ((t.ledger.find? key).map LedgerRow.costCents).getD 0

end MoneyTables

/-! ## Writes to the ledger -/

/-- `INSERT … ON CONFLICT (workspace_id, provider_key, business_date) DO UPDATE`. The row
proposed has to satisfy the table's conditions also where it is not the one written. -/
def upsertLedger (proposed : LedgerRow) (set : LedgerRow → LedgerRow) (t : MoneyTables) :
    Option MoneyTables :=
  if ledgerChecks proposed then
    match t.ledger.find? proposed.key with
    | none => some { t with ledger := t.ledger.upsert proposed }
    | some row =>
      if ledgerChecks (set row) then some { t with ledger := t.ledger.upsert (set row) } else none
  else none

/-- Add invoiced cents to one ledger row, by an explicit date. -/
def addLedgerCost (key : LedgerKey) (businessTimeZone : JsString) (cents : Int)
    (t : MoneyTables) : Option MoneyTables :=
  upsertLedger ⟨key.workspaceId, key.providerKey, key.businessDate, businessTimeZone, 0, 0, cents,
      none, none⟩
    (fun row => { row with costCents := row.costCents + cents }) t

structure RecordProviderCallInput where
  providerKey : JsString
  at_ : Instant
  businessTimeZone : JsString
  costCents : JsNumber
  failureCode : Option JsString
  deriving DecidableEq

/-- Record one call. -/
def recordProviderCall (localDate : LocalClock) (workspaceId : Uuid)
    (input : RecordProviderCallInput) (t : MoneyTables) : Option MoneyTables := do
  let businessDate ← localDate input.at_ input.businessTimeZone
  let failed : Int := if input.failureCode.isSome then 1 else 0
  let failedAt := input.failureCode.map fun _ => input.at_
  let cents ← wholeCents input.costCents
  upsertLedger ⟨workspaceId, input.providerKey, businessDate, input.businessTimeZone, 1, failed,
      cents, input.failureCode, failedAt⟩
    (fun row => { row with
      calls := row.calls + 1
      failures := row.failures + failed
      costCents := row.costCents + cents
      lastFailureCode := input.failureCode <|> row.lastFailureCode
      lastFailureAt := failedAt <|> row.lastFailureAt }) t

/-! ## What has been spent -/

/-- The ledger's cents and the open reservations' cents that a filter selects. -/
def MoneyTables.spent (t : MoneyTables) (selects : LedgerKey → Bool) : Int :=
  t.ledger.total (fun row => if selects row.key then row.costCents else 0) +
    t.reservations.total fun row =>
      if row.state.open && selects row.ledgerKey then row.cents else 0

structure Spend where
  todayCents : Int
  monthToDateCents : Int
  deriving DecidableEq

/-- Invoiced plus authorized, today and in the month up to today, for the providers
`funded` selects. -/
def readFundedSpend (workspaceId : Uuid) (businessDate : LocalDate) (funded : JsString → Bool)
    (t : MoneyTables) : Spend where
  todayCents := t.spent fun key =>
    key.workspaceId = workspaceId && funded key.providerKey && key.businessDate = businessDate
  monthToDateCents := t.spent fun key =>
    key.workspaceId = workspaceId && funded key.providerKey &&
      (monthStart businessDate).le key.businessDate && key.businessDate.le businessDate

def isCash (providerKey : JsString) : Bool := providerFunding providerKey = .cash

/-- Cash only. -/
def readSpend (workspaceId : Uuid) (businessDate : LocalDate) (t : MoneyTables) : Spend :=
  readFundedSpend workspaceId businessDate isCash t

/-- Cash and credits. -/
def readResearchSpend (workspaceId : Uuid) (businessDate : LocalDate) (t : MoneyTables) : Spend :=
  readFundedSpend workspaceId businessDate (fun _ => true) t

/-- `DAILY_CREDIT_MODEL_CAP_CENTS` -/
def dailyCreditModelCapCents : Int := 5000

/-- Whether more cents fit the day's model credits; a cash-funded provider is not asked. -/
def clearCreditModelBudget (workspaceId : Uuid) (businessDate : LocalDate) (providerKey : JsString)
    (additionalCents : Int) (t : MoneyTables) : Bool :=
  !isCreditModelProvider providerKey ||
    (readFundedSpend workspaceId businessDate isCreditModelProvider t).todayCents
      + additionalCents ≤ dailyCreditModelCapCents

end FoundingSales.Research
