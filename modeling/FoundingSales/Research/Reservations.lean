import Mathlib.Data.List.Sort
import FoundingSales.Research.Ledger

/-!
One row per paid attempt, from authorized to settled. Each function is a transaction on
the money tables, or raises with `none`; every one of them takes the workspace's monthly
spend lock before it looks at a row, so a transaction's statements are not interleaved
with another's.
-/

namespace FoundingSales.Research

open Tables

/-! ## Authorizing -/

structure ReserveInput where
  providerKey : JsString
  subjectKind : SubjectKind
  subjectId : Uuid
  attempt : JsNumber
  at_ : Instant
  businessTimeZone : JsString
  cents : JsNumber
  modelName : JsString
  maxInputTokens : JsNumber
  maxOutputTokens : JsNumber
  deriving DecidableEq

/-- The numbers of a reservation, once the four checks are past. -/
structure ReserveNumbers where
  attempt : Int
  cents : Int
  maxInputTokens : Int
  maxOutputTokens : Int
  deriving DecidableEq

/-- `model_reservation_mismatch` for a number that is not a safe integer or out of bounds;
a number beyond the column's range raises at the statement. -/
def ReserveInput.numbers (input : ReserveInput) : Option ReserveNumbers := do
  if [input.cents, input.maxInputTokens, input.maxOutputTokens, input.attempt].all
      JsNumber.isSafeInteger then
    let attempt ← input.attempt.integer?
    let cents ← input.cents.integer?
    let maxInputTokens ← input.maxInputTokens.integer?
    let maxOutputTokens ← input.maxOutputTokens.integer?
    if cents < 0 ∨ maxInputTokens < 1 ∨ maxOutputTokens < 1 ∨ attempt < 1 then none
    else some ⟨attempt, cents, maxInputTokens, maxOutputTokens⟩
  else none

/-- One attempt's reservation. -/
def readAttempt (workspaceId : Uuid) (subjectKind : SubjectKind) (subjectId : Uuid)
    (attempt : Int) (t : MoneyTables) : Option ReservationRow :=
  t.reservations.rows.find? fun row => row.workspaceId = workspaceId &&
    row.subjectKind = subjectKind && row.subjectId = subjectId && row.attempt = attempt

/-- An open reservation of the subject, where a subject may have only one. -/
def takenOpen (row : ReservationRow) (t : MoneyTables) : Bool :=
  row.subjectKind.oneOpen && t.reservations.rows.any fun other =>
    other.workspaceId = row.workspaceId && other.subjectKind = row.subjectKind &&
      other.subjectId = row.subjectId && other.state.open

/-- `INSERT INTO provider_reservations`. -/
def insertReservation (row : ReservationRow) (t : MoneyTables) : Option MoneyTables :=
  if reservationChecks row && !takenOpen row t then
    (t.reservations.insert? row).map fun reservations => { t with reservations }
  else none

/-- Authorize one attempt's cents, or hand back the row that already exists. -/
def reserveAttempt (localDate : LocalClock) (workspaceId : Uuid) (input : ReserveInput)
    (newId : Uuid) (t : MoneyTables) : Option (ReservationRow × MoneyTables) := do
  let n ← input.numbers
  let businessDate ← localDate input.at_ input.businessTimeZone
  match readAttempt workspaceId input.subjectKind input.subjectId n.attempt t with
  | some existing =>
    -- `Number(null)` of a row priced by the minute is 0, which no accepted input equals
    if existing.providerKey ≠ input.providerKey ∨ existing.modelName ≠ some input.modelName ∨
        existing.cents ≠ n.cents ∨ existing.maxInputTokens.getD 0 ≠ n.maxInputTokens ∨
        existing.maxOutputTokens.getD 0 ≠ n.maxOutputTokens then none
    else some (existing, t)
  | none =>
    if clearCreditModelBudget workspaceId businessDate input.providerKey n.cents t then
      let row : ReservationRow :=
        { id := newId, workspaceId, providerKey := input.providerKey
          subjectKind := input.subjectKind, subjectId := input.subjectId, attempt := n.attempt
          businessDate, businessTimeZone := input.businessTimeZone, cents := n.cents
          modelName := some input.modelName, maxInputTokens := some n.maxInputTokens
          maxOutputTokens := some n.maxOutputTokens, state := .reserved, settledCents := 0
          settledAt := none }
      (insertReservation row t).map fun t => (row, t)
    else none

/-- Every reservation of one subject, newest attempt first. -/
def listAttempts (workspaceId : Uuid) (subjectKind : SubjectKind) (subjectId : Uuid)
    (t : MoneyTables) : List ReservationRow :=
  (t.reservations.rows.filter fun row => row.workspaceId = workspaceId &&
    row.subjectKind = subjectKind && row.subjectId = subjectId).insertionSort
      fun a b => b.attempt ≤ a.attempt

/-! ## Marking -/

/-- Commit "a call may now have happened" for one reservation. `current` is the database's
clock, `zone` what the workspace row says. -/
def markCalling (localDate : LocalClock) (workspaceId reservationId : Uuid) (current : Instant)
    (zone : Option JsString) (t : MoneyTables) : Option (Bool × MoneyTables) := do
  let mark := do
    let (written, reservations) ← t.reservations.updateRow reservationChecks
      (workspaceId, reservationId) (fun row => row.state = .reserved)
      fun row => { row with state := .calling }
    some (written.isSome, { t with reservations })
  match t.reservations.find? (workspaceId, reservationId) with
  | none => some (false, t)
  | some row =>
    if row.state ≠ .reserved then some (false, t)
    else if isCreditModelProvider row.providerKey then
      let today ← localDate current (businessZone zone)
      if row.businessDate ≠ today ∨ row.businessTimeZone ≠ businessZone zone then none
      else if clearCreditModelBudget workspaceId today row.providerKey 0 t then mark
      else none
    else mark

/-! ## Closing -/

inductive SettleOutcome
  /-- The provider reported a figure. -/
  | settled (cents : JsNumber)
  /-- Nobody reported one; the caller may have a better estimate than the reservation. -/
  | estimated (cents : Option JsNumber)
  /-- No call happened and none can have. -/
  | released
  /-- No call happened, says the caller that would have made it. -/
  | releasedNotCalled
  deriving DecidableEq

namespace SettleOutcome

def state : SettleOutcome → ReservationState
  | settled _ => .settled
  | estimated _ => .estimated
  | released | releasedNotCalled => .released

/-- Whether a row still marked `calling` may be closed this way. -/
def fromCalling : SettleOutcome → Bool
  | released => false
  | settled _ | estimated _ | releasedNotCalled => true

/-- The cents a row is closed with, given the reservation's own; the parameters raise for a
number that is no integer. -/
def cents : SettleOutcome → Option (Int → Int)
  | settled cents => (wholeCents cents).map fun cents _ => cents
  | estimated (some cents) => (wholeCents cents).map fun cents _ => cents
  | estimated none => some id
  | released | releasedNotCalled => some fun _ => 0

end SettleOutcome

/-- Close one reservation, exactly once, by id. -/
def settleAttempt (workspaceId reservationId : Uuid) (at_ : Instant) (outcome : SettleOutcome)
    (t : MoneyTables) : Option (Option (Int × ReservationState) × MoneyTables) := do
  let cents ← outcome.cents
  let (returned, reservations) ← t.reservations.updateRow reservationChecks
    (workspaceId, reservationId)
    (fun row => row.state = .reserved || row.state = .calling && outcome.fromCalling)
    fun row => { row with
      state := outcome.state, settledCents := cents row.cents, settledAt := some at_ }
  match returned with
  | none => some (none, t)
  | some row =>
    let t := { t with reservations }
    if 0 < row.settledCents then
      let t ← addLedgerCost row.ledgerKey row.businessTimeZone row.settledCents t
      some (some (row.settledCents, outcome.state), t)
    else some (some (row.settledCents, outcome.state), t)

structure Correction where
  previous : Int
  recorded : Int
  deriving DecidableEq

/-- Replace a closed reservation's recorded cost with the provider's own figure, and move
the ledger by the difference. -/
def correctSettledCents (workspaceId reservationId : Uuid) (given : JsNumber) (t : MoneyTables) :
    Option (Option Correction × MoneyTables) := do
  let cents ← wholeCents given
  match t.reservations.find? (workspaceId, reservationId) with
  | none => some (none, t)
  | some old =>
    let (returned, reservations) ← t.reservations.updateRow reservationChecks
      (workspaceId, reservationId)
      (fun row => (row.state = .settled || row.state = .estimated) &&
        (row.settledCents ≠ cents || row.state ≠ .settled))
      fun row => { row with state := .settled, settledCents := cents }
    match returned with
    | none => some (none, t)
    | some row =>
      let t := { t with reservations }
      let delta := cents - old.settledCents
      if delta ≠ 0 then
        let t ← upsertLedger ⟨row.workspaceId, row.providerKey, row.businessDate,
            row.businessTimeZone, 0, 0, max 0 delta, none, none⟩
          (fun ledger => { ledger with costCents := max 0 (ledger.costCents + delta) }) t
        some (some ⟨old.settledCents, cents⟩, t)
      else some (some ⟨old.settledCents, cents⟩, t)

structure SubjectCost where
  cents : Int
  estimated : Bool
  deriving DecidableEq

/-- What the sweep does with one reservation of the subject it read. -/
def finaliseReservation (workspaceId : Uuid) (at_ : Instant) (row : ReservationRow)
    (cost : SubjectCost) (t : MoneyTables) : Option (SubjectCost × MoneyTables) :=
  if !row.state.open then
    some (⟨cost.cents + row.settledCents, cost.estimated || row.state = .estimated⟩, t)
  else do
    let outcome := if row.state = .calling then SettleOutcome.estimated none else .released
    let (settled, t) ← settleAttempt workspaceId row.id at_ outcome t
    some (⟨cost.cents + (settled.map Prod.fst).getD 0,
      cost.estimated || row.state = .calling⟩, t)

def finaliseReservations (workspaceId : Uuid) (at_ : Instant) :
    List ReservationRow → SubjectCost → MoneyTables → Option (SubjectCost × MoneyTables)
  | [], cost, t => some (cost, t)
  | row :: rows, cost, t => do
    let (cost, t) ← finaliseReservation workspaceId at_ row cost t
    finaliseReservations workspaceId at_ rows cost t

/-- Close every open reservation of one subject, and say what the subject cost. -/
def finaliseSubjectReservations (workspaceId : Uuid) (subjectKind : SubjectKind)
    (subjectId : Uuid) (at_ : Instant) (t : MoneyTables) : Option (SubjectCost × MoneyTables) :=
  finaliseReservations workspaceId at_ (listAttempts workspaceId subjectKind subjectId t)
    ⟨0, false⟩ t

/-! ## The operations together -/

inductive MoneyOp
  | reserveAttempt (workspaceId : Uuid) (input : ReserveInput) (newId : Uuid)
  | markCalling (workspaceId reservationId : Uuid) (current : Instant) (zone : Option JsString)
  | settleAttempt (workspaceId reservationId : Uuid) (at_ : Instant) (outcome : SettleOutcome)
  | correctSettledCents (workspaceId reservationId : Uuid) (cents : JsNumber)
  | finaliseSubjectReservations (workspaceId : Uuid) (subjectKind : SubjectKind)
      (subjectId : Uuid) (at_ : Instant)
  | recordProviderCall (workspaceId : Uuid) (input : RecordProviderCallInput)
  deriving DecidableEq

namespace MoneyOp

/-- The tables a transaction commits. -/
def commits (localDate : LocalClock) (op : MoneyOp) (t : MoneyTables) : Option MoneyTables :=
  match op with
  | reserveAttempt workspaceId input newId =>
    (Research.reserveAttempt localDate workspaceId input newId t).map Prod.snd
  | markCalling workspaceId reservationId current zone =>
    (Research.markCalling localDate workspaceId reservationId current zone t).map Prod.snd
  | settleAttempt workspaceId reservationId at_ outcome =>
    (Research.settleAttempt workspaceId reservationId at_ outcome t).map Prod.snd
  | correctSettledCents workspaceId reservationId cents =>
    (Research.correctSettledCents workspaceId reservationId cents t).map Prod.snd
  | finaliseSubjectReservations workspaceId subjectKind subjectId at_ =>
    (Research.finaliseSubjectReservations workspaceId subjectKind subjectId at_ t).map Prod.snd
  | recordProviderCall workspaceId input =>
    Research.recordProviderCall localDate workspaceId input t

end MoneyOp

/-- One transaction; one that raises changes nothing. -/
def moneyStep (localDate : LocalClock) (t : MoneyTables) (op : MoneyOp) : MoneyTables :=
  (op.commits localDate t).getD t

end FoundingSales.Research
