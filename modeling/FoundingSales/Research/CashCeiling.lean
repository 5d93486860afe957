import FoundingSales.Research.Clearances
import FoundingSales.Research.Balance

/-!
The month's cash stays within the ceiling as long as no clearance sums a month that already
holds cash dated after its own day: a sum reaches up to the day of the instant its
transaction read, and the lock may have been another's since.

Proved here:
* `spent` of every operation: what is settled within its reservation only lowers it, a
  reservation raises it by its own cents;
* `cashStep_within`: what one step keeps;
* `cashCeiling_run`: over every run, in every state reached;
* `cashCeiling_fails`: two calls at midnight.
-/

namespace FoundingSales.Research

open Tables Runs

/-! ## Sums -/

section Sums

variable {t t' : MoneyTables} {selects : LedgerKey → Bool}

theorem spent_add (p q : LedgerKey → Bool) (h : ∀ key, p key = true → q key = false) :
    t.spent (fun key => p key || q key) = t.spent p + t.spent q := by
  have hledger : t.ledger.total (fun row => if p row.key || q row.key then row.costCents else 0)
      = t.ledger.total (fun row => if p row.key then row.costCents else 0)
        + t.ledger.total fun row => if q row.key then row.costCents else 0 := by
    rw [← Table.total_add]
    apply Table.total_congr
    intro row _
    cases hp : p row.key with
    | true => simp [h row.key hp]
    | false => simp
  have hreservations : t.reservations.total
        (fun row => if row.state.open && (p row.ledgerKey || q row.ledgerKey) then row.cents else 0)
      = t.reservations.total
          (fun row => if row.state.open && p row.ledgerKey then row.cents else 0)
        + t.reservations.total
            fun row => if row.state.open && q row.ledgerKey then row.cents else 0 := by
    rw [← Table.total_add]
    apply Table.total_congr
    intro row _
    cases hp : p row.ledgerKey with
    | true => simp [h row.ledgerKey hp]
    | false => simp
  show t.ledger.total _ + t.reservations.total _ = _
  simp only [MoneyTables.spent]
  omega

/-- What a reservation counts for in a sum. -/
def ReservationRow.counted (selects : LedgerKey → Bool) (row : ReservationRow) : Int :=
  if row.state.open && selects row.ledgerKey then row.cents else 0

/-- How rewriting one reservation changes a sum. -/
theorem spent_upsertReservation (selects : LedgerKey → Bool) {row : ReservationRow}
    (row' : ReservationRow) {id : Uuid × Uuid}
    (hfind : t.reservations.find? id = some row) (hkey : row'.key = row.key) :
    MoneyTables.spent { t with reservations := t.reservations.upsert row' } selects
      + row.counted selects = t.spent selects + row'.counted selects := by
  have htotal := Table.total_upsert (t := t.reservations) (r := row')
    (ReservationRow.counted selects)
  rw [hkey, Table.find?_key hfind, hfind] at htotal
  simp only [Option.map_some, Option.getD_some] at htotal
  have hafter : MoneyTables.spent { t with reservations := t.reservations.upsert row' } selects
      = t.ledger.total (fun row => if selects row.key then row.costCents else 0)
        + (t.reservations.upsert row').total (ReservationRow.counted selects) := rfl
  have hbefore : t.spent selects
      = t.ledger.total (fun row => if selects row.key then row.costCents else 0)
        + t.reservations.total (ReservationRow.counted selects) := rfl
  omega

/-- How adding to one ledger row changes a sum. -/
theorem spent_upsertLedger {row : LedgerRow} {key : LedgerKey} {cents : Int} (hkey : row.key = key)
    (hcost : row.costCents = t.costCents key + cents) :
    MoneyTables.spent { t with ledger := t.ledger.upsert row } selects
      = t.spent selects + if selects key then cents else 0 := by
  have htotal := Table.total_upsert (t := t.ledger) (r := row)
    fun row => if selects row.key then row.costCents else 0
  have hold : ((t.ledger.find? row.key).map
        fun row => if selects row.key then row.costCents else 0).getD 0
      = if selects key then t.costCents key else 0 := by
    rw [hkey]
    unfold MoneyTables.costCents
    cases hfind : t.ledger.find? key with
    | none => simp
    | some old => simp [Table.find?_key hfind]
  rw [hold, hkey] at htotal
  simp only [MoneyTables.spent]
  cases hselects : selects key with
  | true =>
    simp only [hselects, ↓reduceIte] at htotal ⊢
    omega
  | false =>
    simp only [hselects, Bool.false_eq_true, ↓reduceIte] at htotal ⊢
    omega

theorem addLedgerCost_spent (selects : LedgerKey → Bool) {key : LedgerKey} {zone : JsString} {cents : Int}
    (h : addLedgerCost key zone cents t = some t') :
    t'.spent selects = t.spent selects + if selects key then cents else 0 := by
  unfold addLedgerCost upsertLedger at h
  split at h
  · cases hfind : t.ledger.find? key with
    | none =>
      simp only [LedgerRow.key, hfind, Option.some.injEq] at h
      subst h
      apply spent_upsertLedger (show _ = key from rfl)
      simp [MoneyTables.costCents, hfind]
    | some row =>
      simp only [LedgerRow.key, hfind] at h
      split at h
      · cases h
        have hkey : LedgerRow.key { row with costCents := row.costCents + cents } = key :=
          Table.find?_key (r := row) hfind
        apply spent_upsertLedger hkey
        simp [MoneyTables.costCents, hfind]
      · cases h
  · cases h

end Sums

/-! ## The operations -/

section Operations

variable {t t' : MoneyTables} {selects : LedgerKey → Bool}

/-- Closed with no more than it was reserved for. -/
def closesWithin (workspaceId reservationId : Uuid) (outcome : SettleOutcome) (t : MoneyTables) :
    Bool :=
  (t.reservations.find? (workspaceId, reservationId)).all fun row =>
    outcome.cents.all fun cents => cents row.cents ≤ row.cents

/-- A reservation closed within its cents takes no sum higher. -/
theorem settleAttempt_spent {workspaceId reservationId : Uuid} {at_ : Instant}
    {outcome : SettleOutcome} {answer : Option (Int × ReservationState)}
    (hwithin : closesWithin workspaceId reservationId outcome t = true)
    (h : settleAttempt workspaceId reservationId at_ outcome t = some (answer, t')) :
    t'.spent selects ≤ t.spent selects := by
  simp only [settleAttempt, Option.bind_eq_bind, Option.bind_eq_some_iff] at h
  obtain ⟨cents, hcents, ⟨returned, reservations⟩, hupdate, h⟩ := h
  rcases Table.updateRow_eq_some hupdate with
    ⟨rfl, rfl, -⟩ | ⟨row, hfind, hguard, hchecks, rfl, rfl⟩
  · cases h
    exact le_refl _
  have hopen : row.state.open = true := by
    cases hstate : row.state <;> simp_all [ReservationState.open]
  have hclosed : outcome.state.open = false := by cases outcome <;> rfl
  have hle : cents row.cents ≤ row.cents := by
    simpa [closesWithin, hfind, hcents] using hwithin
  have hspent := spent_upsertReservation selects { row with
    state := outcome.state, settledCents := cents row.cents, settledAt := some at_ } hfind rfl
  simp only [ReservationRow.counted, hopen, hclosed, Bool.true_and, Bool.false_and,
    Bool.false_eq_true, ↓reduceIte] at hspent
  have hnonneg : 0 ≤ cents row.cents := settledCents_nonneg hchecks
  simp only at h
  split at h
  · obtain ⟨after, hadd, hsame⟩ := Option.bind_eq_some_iff.1 h
    cases hsame
    have hledger := addLedgerCost_spent selects hadd
    have hkey : ReservationRow.ledgerKey { row with
        state := outcome.state, settledCents := cents row.cents, settledAt := some at_ }
      = row.ledgerKey := rfl
    simp only [hkey] at hledger
    cases hselects : selects row.ledgerKey with
    | true =>
      simp only [hselects, ↓reduceIte] at hspent hledger
      omega
    | false =>
      simp only [hselects, Bool.false_eq_true, ↓reduceIte] at hspent hledger
      omega
  · cases h
    split at hspent <;> omega

theorem cents_nonneg {row : ReservationRow} (h : reservationChecks row = true) : 0 ≤ row.cents := by
  simp only [reservationChecks, Bool.and_eq_true, decide_eq_true_eq] at h
  omega

/-- The sweep charges what was reserved, or nothing. -/
theorem finaliseReservations_spent {workspaceId : Uuid} {at_ : Instant}
    {rows : List ReservationRow} {cost : SubjectCost} {answer : SubjectCost × MoneyTables}
    (ht : t.Valid) (h : finaliseReservations workspaceId at_ rows cost t = some answer) :
    answer.2.spent selects ≤ t.spent selects := by
  induction rows generalizing cost t with
  | nil =>
    cases h
    exact le_refl _
  | cons row rows ih =>
    simp only [finaliseReservations, Option.bind_eq_bind, Option.bind_eq_some_iff] at h
    obtain ⟨⟨cost', after⟩, hfirst, hrest⟩ := h
    have hone : after.Valid ∧ after.spent selects ≤ t.spent selects := by
      unfold finaliseReservation at hfirst
      split at hfirst
      · cases hfirst
        exact ⟨ht, le_refl _⟩
      · simp only [Option.bind_eq_bind, Option.bind_eq_some_iff] at hfirst
        obtain ⟨⟨settled, after'⟩, hsettle, hsame⟩ := hfirst
        cases hsame
        constructor
        · have haccounted : Accounted (fun _ => false) (fun _ => 0) t after' := by
            apply settleAttempt_accounted _ hsettle
            intro houtcome
            split at houtcome <;> cases houtcome
          exact haccounted.valid ht
        · refine settleAttempt_spent ?_ hsettle
          apply (Option.all_eq_true _ _).2
          intro old hold
          have hcents := cents_nonneg (ht old (Table.find?_eq_some.1 hold).1)
          split <;> simp [SettleOutcome.cents, hcents]
    have hle := ih hone.1 hrest
    omega

theorem markCalling_spent {localDate : LocalClock} {workspaceId reservationId : Uuid}
    {current : Instant} {zone : Option JsString} {marked : Bool}
    (h : markCalling localDate workspaceId reservationId current zone t = some (marked, t')) :
    t'.spent selects = t.spent selects := by
  have hmark : ∀ {written : Option ReservationRow} {reservations : ReservationTable},
      t.reservations.updateRow reservationChecks (workspaceId, reservationId)
        (fun row => row.state = .reserved) (fun row => { row with state := .calling })
        = some (written, reservations) →
      MoneyTables.spent { t with reservations } selects = t.spent selects := by
    intro written reservations hupdate
    rcases Table.updateRow_eq_some hupdate with ⟨-, rfl, -⟩ | ⟨row, hfind, hguard, hchecks, -, rfl⟩
    · rfl
    · have hstate : row.state = .reserved := by simpa using hguard
      have hspent := spent_upsertReservation selects { row with state := .calling } hfind rfl
      have hkey : ReservationRow.ledgerKey { row with state := .calling } = row.ledgerKey := rfl
      simp only [ReservationRow.counted, hkey, hstate, ReservationState.open] at hspent
      omega
  simp only [markCalling, Option.bind_eq_bind] at h
  split at h
  · cases h
    rfl
  · split at h
    · cases h
      rfl
    · split at h
      · obtain ⟨today, -, h⟩ := Option.bind_eq_some_iff.1 h
        split at h
        · cases h
        · split at h
          · obtain ⟨⟨written, reservations⟩, hupdate, hsame⟩ := Option.bind_eq_some_iff.1 h
            cases hsame
            exact hmark hupdate
          · cases h
      · obtain ⟨⟨written, reservations⟩, hupdate, hsame⟩ := Option.bind_eq_some_iff.1 h
        cases hsame
        exact hmark hupdate

theorem insertReservation_spent {row : ReservationRow} (h : insertReservation row t = some t') :
    t'.spent selects = t.spent selects + row.counted selects := by
  unfold insertReservation at h
  split at h
  · obtain ⟨reservations, hinsert, rfl⟩ := Option.map_eq_some_iff.1 h
    have htotal : reservations.total (ReservationRow.counted selects)
        = t.reservations.total (ReservationRow.counted selects) + row.counted selects := by
      simp [Table.total, (Table.insert?_eq_some hinsert).2]
    have hafter : MoneyTables.spent { t with reservations } selects
        = t.ledger.total (fun row => if selects row.key then row.costCents else 0)
          + reservations.total (ReservationRow.counted selects) := rfl
    have hbefore : t.spent selects
        = t.ledger.total (fun row => if selects row.key then row.costCents else 0)
          + t.reservations.total (ReservationRow.counted selects) := rfl
    omega
  · cases h

/-- What a reservation adds, when it is a new one. -/
theorem reserveAttempt_spent {localDate : LocalClock} {workspaceId newId : Uuid}
    {input : ReserveInput} {row : ReservationRow} {cents : Int}
    (hcents : input.cents = .finite cents)
    (h : reserveAttempt localDate workspaceId input newId t = some (row, t')) :
    t' = t ∨
      ∃ businessDate, localDate input.at_ input.businessTimeZone = some businessDate ∧
        ∀ selects, t'.spent selects = t.spent selects +
          if selects ⟨workspaceId, input.providerKey, businessDate⟩ then cents else 0 := by
  simp only [reserveAttempt, Option.bind_eq_bind, Option.bind_eq_some_iff] at h
  obtain ⟨n, hnumbers, businessDate, hdate, h⟩ := h
  have hn : n.cents = cents := by
    simp only [ReserveInput.numbers, Option.bind_eq_bind] at hnumbers
    split at hnumbers
    · simp only [Option.bind_eq_some_iff] at hnumbers
      obtain ⟨_, -, c, hc, _, -, _, -, hnumbers⟩ := hnumbers
      split at hnumbers
      · cases hnumbers
      · cases hnumbers
        rw [hcents] at hc
        simp [JsNumber.integer?] at hc
        exact hc.2.symm
    · cases hnumbers
  split at h
  · split at h
    · cases h
    · cases h
      exact .inl rfl
  · split at h
    · obtain ⟨after, hinsert, hsame⟩ := Option.map_eq_some_iff.1 h
      cases hsame
      refine .inr ⟨businessDate, hdate, fun selects => ?_⟩
      rw [insertReservation_spent hinsert, ← hn]
      rfl
    · cases h

end Operations

/-! ## The month -/

def inMonth (year month : Nat) (date : LocalDate) : Bool :=
  date.year = year && date.month = month && 1 ≤ date.day

/-- A month's cash: what it cost, and what is reserved. -/
def MoneyTables.monthCash (t : MoneyTables) (workspaceId : Uuid) (year month : Nat) : Int :=
  t.spent fun key => key.workspaceId = workspaceId && isCash key.providerKey &&
    inMonth year month key.businessDate

/-- The month's cash that is dated after a day of it. -/
def MoneyTables.laterCash (t : MoneyTables) (workspaceId : Uuid) (businessDate : LocalDate) : Int :=
  t.spent fun key => key.workspaceId = workspaceId && isCash key.providerKey &&
    inMonth businessDate.year businessDate.month key.businessDate &&
    !key.businessDate.le businessDate

def WithinCeiling (env : Workspaces) (t : MoneyTables) : Prop :=
  ∀ workspaceId year month, t.monthCash workspaceId year month ≤ env.monthlyCashCeiling workspaceId

theorem LocalDate.le_iff (a b : LocalDate) : a.le b = true ↔
    a.year < b.year ∨ a.year = b.year ∧ (a.month < b.month ∨ a.month = b.month ∧ a.day ≤ b.day) := by
  simp [LocalDate.le]

theorem inMonth_iff (businessDate date : LocalDate) :
    inMonth businessDate.year businessDate.month date
      = ((monthStart businessDate).le date && date.le businessDate ||
          inMonth businessDate.year businessDate.month date && !date.le businessDate) := by
  have hstart : (monthStart businessDate).year = businessDate.year ∧
      (monthStart businessDate).month = businessDate.month ∧ (monthStart businessDate).day = 1 :=
    ⟨rfl, rfl, rfl⟩
  apply Bool.eq_iff_iff.2
  simp only [inMonth, Bool.or_eq_true, Bool.and_eq_true, decide_eq_true_eq, Bool.not_eq_true',
    ← Bool.not_eq_true, LocalDate.le_iff, hstart]
  omega

theorem monthCash_eq (t : MoneyTables) (workspaceId : Uuid) (businessDate : LocalDate) :
    t.monthCash workspaceId businessDate.year businessDate.month
      = (readSpend workspaceId businessDate t).monthToDateCents
        + t.laterCash workspaceId businessDate := by
  simp only [readSpend, readFundedSpend, MoneyTables.laterCash]
  rw [← spent_add, MoneyTables.monthCash]
  · congr 1
    funext key
    conv_lhs => rw [inMonth_iff businessDate key.businessDate]
    cases decide (key.workspaceId = workspaceId) <;> cases isCash key.providerKey <;> simp
  · intro key hkey
    simp only [Bool.and_eq_true] at hkey
    simp [hkey.2]

/-- A reservation that was cleared by the whole month's sum fits. -/
theorem within_of_cleared {env : Workspaces} {t t' : MoneyTables} {workspaceId : Uuid}
    {businessDate : LocalDate} {providerKey : JsString} {cents : Nat}
    (hbefore : WithinCeiling env t)
    (hcleared : isCash providerKey = true →
      clearMonthlyCash env workspaceId businessDate cents t = true ∧
        t.laterCash workspaceId businessDate = 0)
    (hspent : ∀ selects : LedgerKey → Bool, t'.spent selects = t.spent selects +
      if selects ⟨workspaceId, providerKey, businessDate⟩ then (cents : Int) else 0) :
    WithinCeiling env t' := by
  intro other year month
  have hmonth := hbefore other year month
  have hafter := hspent fun key => key.workspaceId = other && isCash key.providerKey &&
    inMonth year month key.businessDate
  simp only [MoneyTables.monthCash] at hmonth ⊢
  split at hafter
  next hselected =>
    simp only [inMonth, Bool.and_eq_true, decide_eq_true_eq] at hselected
    obtain ⟨⟨rfl, hcash⟩, ⟨rfl, rfl⟩, -⟩ := hselected
    obtain ⟨hclear, hlater⟩ := hcleared hcash
    have hwhole := monthCash_eq t workspaceId businessDate
    simp only [clearMonthlyCash, decide_eq_true_eq] at hclear
    simp only [MoneyTables.monthCash] at hwhole
    omega
  next => omega

/-! ## Clearances -/

section Clearances

variable {env : Workspaces} {t t' : MoneyTables}

theorem claimResearchClearance_ok {at_ : Instant} {call : ResearchCall}
    {counters counters' : FirmRunTable} {clearance : ResearchClearance}
    (h : claimResearchClearance env at_ call counters t = some (.ok clearance, counters')) :
    ∃ businessDate, env.businessDate call.workspaceId at_ = some businessDate ∧
      clearance.businessTimeZone = businessZone (env.zone call.workspaceId) ∧
      (isCash call.provider = true →
        clearMonthlyCash env call.workspaceId businessDate clearance.worstCaseCents t = true) := by
  unfold claimResearchClearance at h
  split at h
  · cases h
  split at h
  · cases h
  next worstCaseCents hprice =>
    obtain ⟨businessDate, hdate, h⟩ := Option.bind_eq_some_iff.1 h
    refine ⟨businessDate, hdate, ?_⟩
    split at h
    · cases h
    next =>
      simp only at h
      split at h
      · cases h
      split at h
      · cases h
      split at h
      · cases h
      split at h
      · cases h
      next hcash =>
        cases h
        refine ⟨rfl, fun hpaid => ?_⟩
        simpa [hpaid] using hcash

/-- A research transaction that is summed to the end of its month's cash stays within it. -/
theorem reserveResearch_within {at_ : Instant} {call : ResearchCall}
    {counters counters' : FirmRunTable}
    (hsums : isCash call.provider = true → ∀ businessDate,
      env.businessDate call.workspaceId at_ = some businessDate →
        t.laterCash call.workspaceId businessDate = 0)
    (hcovered : t.Covered) (hwithin : WithinCeiling env t)
    (h : reserveResearch env at_ call counters t = some (counters', t')) :
    t'.Covered ∧ WithinCeiling env t' := by
  simp only [reserveResearch, Option.bind_eq_bind, Option.bind_eq_some_iff] at h
  obtain ⟨⟨cleared, after⟩, hclaim, h⟩ := h
  cases cleared with
  | error refusal =>
    cases h
    exact ⟨hcovered, hwithin⟩
  | ok clearance =>
    obtain ⟨⟨row, tables⟩, hreserve, hsame⟩ := Option.bind_eq_some_iff.1 h
    cases hsame
    obtain ⟨businessDate, hdate, hzone, hclear⟩ := claimResearchClearance_ok hclaim
    constructor
    · have haccounted : Accounted (fun _ => false) (fun _ => 0) t tables :=
        reserveAttempt_accounted hreserve
      exact haccounted.covered (fun _ => le_refl _) hcovered
    · rcases reserveAttempt_spent rfl hreserve with rfl | ⟨date, hsame, hspent⟩
      · exact hwithin
      · have hdates : date = businessDate := by
          simp only [researchReserveInput, hzone] at hsame
          exact Option.some.inj (hsame.symm.trans hdate)
        subst hdates
        exact within_of_cleared hwithin
          (fun hcash => ⟨hclear hcash, hsums hcash date hdate⟩) hspent

theorem reserveTelephony_within {workspaceId sessionId newId : Uuid}
    {clearance : TelephonyReservationClearance}
    (hsums : t.laterCash workspaceId clearance.businessDate = 0)
    (hcovered : t.Covered) (hwithin : WithinCeiling env t)
    (h : reserveTelephony env workspaceId sessionId newId clearance t = some t') :
    t'.Covered ∧ WithinCeiling env t' := by
  simp only [reserveTelephony, clearTelephonyMonth] at h
  split at h
  next hrefused =>
    cases h
    exact ⟨hcovered, hwithin⟩
  next granted hgranted =>
    split at hgranted
    next hclear =>
      cases hgranted
      constructor
      · have haccounted : Accounted (fun _ => false) (fun _ => 0) t t' :=
          insertReservation_accounted rfl h
        exact haccounted.covered (fun _ => le_refl _) hcovered
      · exact within_of_cleared hwithin (fun _ => ⟨hclear, hsums⟩)
          fun selects => insertReservation_spent h
    next => cases hgranted

end Clearances

/-! ## Steps -/

/-- A settlement records no more than the reserved cents. -/
def recordsWithin (world : CashWorld) : CashAction → Bool
  | .settleAttempt workspaceId reservationId _ outcome =>
    closesWithin workspaceId reservationId outcome world.tables
  | _ => true

/-- No cash of the month is dated after the day a clearance is summed up to. -/
def sumsWholeMonth (env : Workspaces) (world : CashWorld) : CashAction → Bool
  | .reserveResearch at_ call =>
    .dated at_ ∉ world.transactions || !isCash call.provider ||
      (env.businessDate call.workspaceId at_).all fun businessDate =>
        world.tables.laterCash call.workspaceId businessDate = 0
  | .reserveTelephony workspaceId clearance _ _ =>
    .dayCleared workspaceId clearance ∉ world.transactions ||
      world.tables.laterCash workspaceId clearance.businessDate = 0
  | _ => true

structure CashSafe (env : Workspaces) (world : CashWorld) : Prop where
  covered : world.tables.Covered
  within : WithinCeiling env world.tables

/-- What only lowers sums keeps every month within its ceiling. -/
theorem within_of_le {env : Workspaces} {t t' : MoneyTables} (h : WithinCeiling env t)
    (hle : ∀ selects, t'.spent selects ≤ t.spent selects) : WithinCeiling env t' :=
  fun workspaceId year month => le_trans (hle _) (h workspaceId year month)

theorem cashStep_moneyOp {env : Workspaces} {world : CashWorld} {action : CashAction} {op : MoneyOp}
    (hop : action.moneyOp env = some op) (hrecords : recordsWithin world action = true)
    (h : CashSafe env world) :
    WithinCeiling env (moneyStep env.localDate world.tables op) := by
  apply within_of_le h.within
  intro selects
  unfold moneyStep
  cases hcommits : op.commits env.localDate world.tables with
  | none => exact le_refl _
  | some t' =>
    rw [Option.getD_some]
    cases action with
    | markCalling workspaceId reservationId current =>
      cases hop
      obtain ⟨⟨marked, after⟩, hmark, rfl⟩ := Option.map_eq_some_iff.1 hcommits
      exact le_of_eq (markCalling_spent hmark)
    | settleAttempt workspaceId reservationId at_ outcome =>
      cases hop
      obtain ⟨⟨answer, after⟩, hsettle, rfl⟩ := Option.map_eq_some_iff.1 hcommits
      exact settleAttempt_spent hrecords hsettle
    | finaliseSubjectReservations workspaceId subjectKind subjectId at_ =>
      cases hop
      obtain ⟨answer, hfinalise, rfl⟩ := Option.map_eq_some_iff.1 hcommits
      exact finaliseReservations_spent h.covered.valid hfinalise
    | _ => cases hop

theorem cashStep_within {env : Workspaces} {world : CashWorld} {action : CashAction}
    (hrecords : recordsWithin world action = true)
    (hsums : sumsWholeMonth env world action = true) (h : CashSafe env world) :
    CashSafe env (cashStep env world action) := by
  cases action with
  | tick | begin | rollback => exact ⟨h.covered, h.within⟩
  | reserveResearch at_ call =>
    simp only [cashStep]
    split
    next hdated =>
      split
      · exact ⟨h.covered, h.within⟩
      next counters tables hreserve =>
        simp only [sumsWholeMonth, hdated, not_true_eq_false, decide_false, Bool.false_or,
          Bool.or_eq_true, Bool.not_eq_true', Option.all_eq_true, decide_eq_true_eq] at hsums
        have hwhole : isCash call.provider = true → ∀ businessDate,
            env.businessDate call.workspaceId at_ = some businessDate →
              world.tables.laterCash call.workspaceId businessDate = 0 := by
          intro hcash businessDate hdate
          rcases hsums with hcredits | hlater
          · rw [hcredits] at hcash
            cases hcash
          · exact hlater businessDate hdate
        obtain ⟨hcovered, hwithin⟩ := reserveResearch_within hwhole h.covered h.within hreserve
        exact ⟨hcovered, hwithin⟩
    next => exact h
  | clearTelephonyDay at_ workspaceId budget maxMinutes =>
    simp only [cashStep]
    split
    · split <;> exact ⟨h.covered, h.within⟩
    · exact h
  | reserveTelephony workspaceId clearance sessionId newId =>
    simp only [cashStep]
    split
    next hcleared =>
      split
      · exact ⟨h.covered, h.within⟩
      next tables hreserve =>
        have hlater : world.tables.laterCash workspaceId clearance.businessDate = 0 := by
          simpa [sumsWholeMonth, hcleared] using hsums
        obtain ⟨hcovered, hwithin⟩ := reserveTelephony_within hlater h.covered h.within hreserve
        exact ⟨hcovered, hwithin⟩
    next => exact h
  | markCalling | settleAttempt | finaliseSubjectReservations =>
    exact ⟨moneyStep_covered env.localDate _ _ h.covered, cashStep_moneyOp rfl hrecords h⟩

/-- Over every run whose settlements record no more than was reserved and whose clearances
sum the whole of their month, every month stays within the ceiling. -/
theorem cashCeiling_run (env : Workspaces) (clock : Instant) (actions : List CashAction)
    (hmeets : Meets (cashStep env)
      (fun world action => recordsWithin world action = true ∧
        sumsWholeMonth env world action = true) (CashWorld.start clock) actions) :
    ∀ front back, actions = front ++ back →
      WithinCeiling env (run (cashStep env) (CashWorld.start clock) front).tables := by
  rintro front back rfl
  have hstart : CashSafe env (CashWorld.start clock) :=
    ⟨MoneyTables.covered_empty, fun workspaceId year month => Int.natCast_nonneg _⟩
  exact (Meets.invariant (fun world action hstep => cashStep_within hstep.1 hstep.2)
    hmeets.append.1 hstart).within

/-! ## Two calls at midnight -/

section Midnight

/-- The first of October, and from the tenth second on the second. -/
private def octoberClock : LocalClock := fun instant _ =>
  some ⟨2026, 10, if instant < 10000 then 1 else 2⟩

/-- One cent a month. -/
private def oneCent : Workspaces := ⟨octoberClock, fun _ => none, fun _ => 1, fun _ _ => none, 0⟩

private def minuteBudget : TelephonyBudgetSetting := ⟨5, 1, 10000⟩

private def firstOfOctober : TelephonyReservationClearance :=
  ⟨1, 1, 10000, ⟨2026, 10, 1⟩, js "America/New_York"⟩

private def secondOfOctober : TelephonyReservationClearance :=
  { firstOfOctober with businessDate := ⟨2026, 10, 2⟩ }

/-- The call that read its clock before midnight is cleared after the one that read it
after midnight. -/
private def midnight : List CashAction :=
  [.begin, .tick 10000, .begin, .clearTelephonyDay 10000 (js "w") minuteBudget none,
    .reserveTelephony (js "w") secondOfOctober (js "s2") (js "r2"),
    .clearTelephonyDay 0 (js "w") minuteBudget none,
    .reserveTelephony (js "w") firstOfOctober (js "s1") (js "r1")]

theorem cashCeiling_fails :
    ¬ ∀ (env : Workspaces) (clock : Instant) (actions : List CashAction),
      Meets (cashStep env) (fun world action => recordsWithin world action = true)
        (CashWorld.start clock) actions →
      WithinCeiling env (run (cashStep env) (CashWorld.start clock) actions).tables := by
  intro h
  have hrecords : Meets (cashStep oneCent)
      (fun world action => recordsWithin world action = true) (CashWorld.start 0) midnight := by
    decide +kernel
  have hover := h oneCent 0 midnight hrecords (js "w") 2026 10
  revert hover
  decide +kernel

/-- Two cents a month. -/
private def twoCents : Workspaces := { oneCent with monthlyCashCeiling := fun _ => 2 }

/-- A page read by the model, for a cent. -/
private def pageRead : ResearchCall :=
  ⟨js "w", js "f", js "run", 1, .first, none,
    ⟨true, 1, 100, 100, 1, 2048, js "claude-haiku-4-5"⟩, js "r0"⟩

/-- A page is read between a call's two locks, and a call that began after midnight waits for
both. -/
private def crossedNight : List CashAction :=
  [.begin, .begin, .clearTelephonyDay 0 (js "w") minuteBudget none, .tick 10000, .begin,
    .clearTelephonyDay 10000 (js "w") minuteBudget none, .reserveResearch 0 pageRead,
    .reserveTelephony (js "w") firstOfOctober (js "s1") (js "r1"),
    .clearTelephonyDay 10000 (js "w") minuteBudget none,
    .reserveTelephony (js "w") secondOfOctober (js "s2") (js "r2"),
    .settleAttempt (js "w") (js "r1") 10000 (.settled (.finite 1))]

/-- The page and the first call take the two cents, and the second call is refused. -/
theorem cashCeiling_run_crossedNight :
    WithinCeiling twoCents (run (cashStep twoCents) (CashWorld.start 0) crossedNight).tables ∧
      (run (cashStep twoCents) (CashWorld.start 0) crossedNight).tables.monthCash (js "w") 2026 10
        = 2 := by
  constructor
  · exact cashCeiling_run twoCents 0 crossedNight (by decide +kernel) crossedNight []
      (List.append_nil _).symm
  · decide +kernel

end Midnight

end FoundingSales.Research
