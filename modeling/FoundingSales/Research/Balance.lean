import Mathlib.Algebra.Order.BigOperators.Group.List
import Mathlib.Algebra.Order.Group.Int
import FoundingSales.Library.Runs
import FoundingSales.Research.Reservations

/-!
The money ledger balances: over any order of the operations on reservations, what the
ledger says of a provider and a day is what its calls and its closed reservations cost.

Proved here:
* `ReservationState.follows`: what may become of a reservation, a `calling` row's release
  by the caller apart;
* one `…_accounted` lemma for each operation: which rows it moves, and that the ledger moves
  by the same cents as the closed reservations;
* `ledger_balances`: over every run, from the empty tables.
-/

namespace FoundingSales.Research

open Tables Runs

/-! ## What becomes of a reservation -/

/-- `notCalled`: whether the release of a `calling` row is allowed. -/
def ReservationState.follows (notCalled : Bool) : ReservationState → ReservationState → Bool
  | .reserved, _ => true
  | .calling, .reserved => false
  | .calling, .released => notCalled
  | .calling, _ => true
  | .settled, b => b = .settled
  | .estimated, b => b = .estimated || b = .settled
  | .released, b => b = .released

namespace ReservationState

theorem follows_refl (notCalled : Bool) (a : ReservationState) : follows notCalled a a = true := by
  cases a <;> rfl

theorem follows_trans {notCalled : Bool} {a b c : ReservationState}
    (hab : follows notCalled a b = true) (hbc : follows notCalled b c = true) :
    follows notCalled a c = true := by
  cases a <;> cases b <;> cases c <;> simp_all [follows]

theorem follows_closed {notCalled : Bool} {a b : ReservationState} (ha : a.open = false)
    (h : follows notCalled a b = true) : b.open = false := by
  cases a <;> cases b <;> simp_all [follows, ReservationState.open]

/-- What is settled or estimated is not released any more. -/
theorem follows_charged {notCalled : Bool} {a b : ReservationState}
    (ha : a = .settled ∨ a = .estimated) (h : follows notCalled a b = true) :
    b = .settled ∨ b = .estimated := by
  rcases ha with rfl | rfl <;> cases b <;> simp_all [follows]

end ReservationState

open ReservationState

/-! ## What the tables hold -/

/-- What a reservation has been closed with. -/
def ReservationRow.closedCents (row : ReservationRow) : Int :=
  if row.state.open then 0 else row.settledCents

namespace MoneyTables

/-- The sum of `settled_cents` over the closed reservations of a provider and date. -/
def closedCents (t : MoneyTables) (key : LedgerKey) : Int :=
  t.reservations.total fun row => if row.ledgerKey = key then row.closedCents else 0

/-- The rows satisfy the conditions of their table. -/
def Valid (t : MoneyTables) : Prop := ∀ row ∈ t.reservations, reservationChecks row = true

/-- The ledger says at least what the closed reservations cost. -/
structure Covered (t : MoneyTables) : Prop where
  valid : t.Valid
  covers : ∀ key, t.closedCents key ≤ t.costCents key

theorem covered_empty : empty.Covered where
  valid _ hrow := absurd hrow Table.not_mem_empty
  covers _ := le_refl _

end MoneyTables

theorem settledCents_nonneg {row : ReservationRow} (h : reservationChecks row = true) :
    0 ≤ row.settledCents := by
  simp only [reservationChecks, Bool.and_eq_true, decide_eq_true_eq] at h
  omega

theorem closedCents_nonneg {row : ReservationRow} (h : reservationChecks row = true) :
    0 ≤ row.closedCents := by
  have hsettled := settledCents_nonneg h
  unfold ReservationRow.closedCents
  split <;> omega

theorem released_is_free {row : ReservationRow} (h : reservationChecks row = true)
    (hreleased : row.state = .released) : row.settledCents = 0 := by
  simpa [reservationChecks, hreleased] using (Bool.and_eq_true_iff.1 h).2

/-- A closed reservation is one of those the ledger covers. -/
theorem closedCents_le_cost {t : MoneyTables} (ht : t.Covered) {row : ReservationRow}
    (hrow : row ∈ t.reservations) : row.closedCents ≤ t.costCents row.ledgerKey := by
  let share : ReservationRow → Int := fun r =>
    if r.ledgerKey = row.ledgerKey then r.closedCents else 0
  have hnonneg : ∀ x ∈ t.reservations.rows.map share, 0 ≤ x := by
    intro x hx
    obtain ⟨r, hr, rfl⟩ := List.mem_map.1 hx
    show 0 ≤ if r.ledgerKey = row.ledgerKey then r.closedCents else 0
    have := closedCents_nonneg (ht.valid r hr)
    split <;> omega
  have hmem : row.closedCents ∈ t.reservations.rows.map share :=
    List.mem_map.2 ⟨row, hrow, if_pos rfl⟩
  exact le_trans (List.single_le_sum hnonneg _ hmem) (ht.covers row.ledgerKey)

/-! ## What an operation does -/

/-- An operation moves reservations forward, keeps the conditions, and moves the ledger as it
moves the closed reservations, plus what it charges. -/
structure Accounted (notCalled : Uuid × Uuid → Bool) (charge : LedgerKey → Int)
    (t t' : MoneyTables) : Prop where
  rows : ∀ id row, t.reservations.find? id = some row →
    ∃ row', t'.reservations.find? id = some row' ∧
      follows (notCalled id) row.state row'.state = true
  valid : t.Valid → t'.Valid
  balance : ∀ key, t'.costCents key + t.closedCents key
    = t.costCents key + t'.closedCents key + charge key

variable {notCalled : Uuid × Uuid → Bool} {charge charge' : LedgerKey → Int}
  {t t' t'' : MoneyTables}

theorem Accounted.refl : Accounted notCalled (fun _ => 0) t t where
  rows _ row h := ⟨row, h, follows_refl _ _⟩
  valid h := h
  balance key := by omega

theorem Accounted.trans (h : Accounted notCalled charge t t')
    (h' : Accounted notCalled charge' t' t'') :
    Accounted notCalled (fun key => charge key + charge' key) t t'' where
  rows id row hrow := by
    obtain ⟨row', hrow', hfollows⟩ := h.rows id row hrow
    obtain ⟨row'', hrow'', hfollows'⟩ := h'.rows id row' hrow'
    exact ⟨row'', hrow'', follows_trans hfollows hfollows'⟩
  valid ht := h'.valid (h.valid ht)
  balance key := by
    have hfirst := h.balance key
    have hsecond := h'.balance key
    omega

theorem Accounted.covered (h : Accounted notCalled charge t t') (hcharge : ∀ key, 0 ≤ charge key)
    (ht : t.Covered) : t'.Covered where
  valid := h.valid ht.valid
  covers key := by
    have hbalance := h.balance key
    have hcovers := ht.covers key
    have hnonneg := hcharge key
    omega

/-- What is allowed for no row is allowed. -/
theorem Accounted.mono (h : Accounted (fun _ => false) charge t t') :
    Accounted notCalled charge t t' where
  rows id row hrow := by
    obtain ⟨row', hrow', hfollows⟩ := h.rows id row hrow
    refine ⟨row', hrow', ?_⟩
    revert hfollows
    cases row.state <;> cases row'.state <;> simp [follows]
  valid := h.valid
  balance := h.balance

/-- The ledger of `t` with `cents` added under one key. -/
structure Adds (key : LedgerKey) (cents : Int) (t t' : MoneyTables) : Prop where
  reservations : t'.reservations = t.reservations
  cost : ∀ k, t'.costCents k = t.costCents k + if k = key then cents else 0

theorem upsertLedger_adds {proposed : LedgerRow} {set : LedgerRow → LedgerRow} {cents : Int}
    (h : upsertLedger proposed set t = some t') (hkey : ∀ row, (set row).key = row.key)
    (hfresh : t.ledger.find? proposed.key = none → proposed.costCents = cents)
    (hset : ∀ row, t.ledger.find? proposed.key = some row →
      (set row).costCents = row.costCents + cents) : Adds proposed.key cents t t' := by
  unfold upsertLedger at h
  split at h
  · have hwritten : ∀ row : LedgerRow, row.key = proposed.key →
        row.costCents = t.costCents proposed.key + cents →
        Adds proposed.key cents t { t with ledger := t.ledger.upsert row } := by
      intro row hrow hcost
      refine ⟨rfl, fun k => ?_⟩
      by_cases hk : k = proposed.key
      · subst hk
        simp only [MoneyTables.costCents, Table.find?_upsert_of_key hrow, Option.map_some,
          Option.getD_some, ↓reduceIte]
        exact hcost
      · have hne : k ≠ row.key := by rw [hrow]; exact hk
        simp only [MoneyTables.costCents, Table.find?_upsert_ne hne, hk, ↓reduceIte]
        omega
    cases hfind : t.ledger.find? proposed.key with
    | none =>
      simp only [hfind] at h
      cases h
      apply hwritten proposed rfl
      simp [MoneyTables.costCents, hfind, hfresh hfind]
    | some row =>
      simp only [hfind] at h
      split at h
      · cases h
        apply hwritten (set row) ((hkey row).trans (Table.find?_key hfind))
        simp [MoneyTables.costCents, hfind, hset row hfind]
      · cases h
  · cases h

theorem addLedgerCost_adds {key : LedgerKey} {zone : JsString} {cents : Int}
    (h : addLedgerCost key zone cents t = some t') : Adds key cents t t' :=
  upsertLedger_adds h (fun _ => rfl) (fun _ => rfl) (fun _ _ => rfl)

/-- The ledger moved, and no reservation with it. -/
theorem Adds.accounted {key : LedgerKey} {cents : Int} (h : Adds key cents t t') :
    Accounted notCalled (fun k => if k = key then cents else 0) t t' where
  rows id row hrow := ⟨row, by rw [h.reservations]; exact hrow, follows_refl _ _⟩
  valid ht := by
    intro row hrow
    rw [h.reservations] at hrow
    exact ht row hrow
  balance k := by
    have hcost := h.cost k
    have hclosed : t'.closedCents k = t.closedCents k := by
      simp only [MoneyTables.closedCents, h.reservations]
    omega

/-- One reservation is rewritten and the ledger moves by the difference. -/
theorem Accounted.of_update {row : ReservationRow} (row' : ReservationRow) {id : Uuid × Uuid}
    (hfind : t.reservations.find? id = some row) (hkey : row'.key = row.key)
    (hledger : row'.ledgerKey = row.ledgerKey) (hchecks : reservationChecks row' = true)
    (hfollows : follows (notCalled id) row.state row'.state = true)
    (hadds : Adds row.ledgerKey (row'.closedCents - row.closedCents)
      { t with reservations := t.reservations.upsert row' } t') :
    Accounted notCalled (fun _ => 0) t t' where
  rows other r hr := by
    have hid : row.key = id := Table.find?_key hfind
    rw [hadds.reservations]
    by_cases hother : other = id
    · subst hother
      rw [hfind] at hr
      cases hr
      exact ⟨row', Table.find?_upsert_of_key (hkey.trans hid), hfollows⟩
    · have hne : other ≠ row'.key := by rw [hkey, hid]; exact hother
      exact ⟨r, by rw [Table.find?_upsert_ne hne]; exact hr, follows_refl _ _⟩
  valid ht r hr := by
    rw [hadds.reservations] at hr
    rcases Table.mem_upsert.1 hr with rfl | ⟨hold, -⟩
    · exact hchecks
    · exact ht r hold
  balance k := by
    have hcost := hadds.cost k
    have htotal := Table.total_upsert (t := t.reservations) (r := row')
      fun r => if r.ledgerKey = k then r.closedCents else 0
    rw [hkey, Table.find?_key hfind, hfind] at htotal
    simp only [Option.map_some, Option.getD_some, hledger] at htotal
    have hclosed : t'.closedCents k = (t.reservations.upsert row').total
        fun r => if r.ledgerKey = k then r.closedCents else 0 := by
      simp only [MoneyTables.closedCents, hadds.reservations]
    have hbefore : t.closedCents k = t.reservations.total
        fun r => if r.ledgerKey = k then r.closedCents else 0 := rfl
    have hsame : MoneyTables.costCents { t with reservations := t.reservations.upsert row' } k
        = t.costCents k := rfl
    by_cases hk : row.ledgerKey = k
    · simp only [hk, ↓reduceIte] at htotal hcost
      omega
    · simp only [hk, Ne.symm hk, ↓reduceIte] at htotal hcost
      omega

/-! ## The operations -/

theorem insertReservation_accounted {row : ReservationRow} (hopen : row.state.open = true)
    (h : insertReservation row t = some t') : Accounted notCalled (fun _ => 0) t t' := by
  unfold insertReservation at h
  split at h
  · next hok =>
    obtain ⟨reservations, hinsert, rfl⟩ := Option.map_eq_some_iff.1 h
    obtain ⟨hfresh, hrows⟩ := Table.insert?_eq_some hinsert
    refine ⟨fun id r hr => ⟨r, ?_, follows_refl _ _⟩, fun ht r hr => ?_, fun key => ?_⟩
    · have hne : id ≠ row.key := by
        rintro rfl
        rw [hfresh] at hr
        cases hr
      show reservations.find? id = some r
      rw [Table.find?_insert?_ne hinsert hne]
      exact hr
    · rcases (Table.mem_insert? hinsert).1 hr with hold | rfl
      · exact ht r hold
      · exact (Bool.and_eq_true_iff.1 hok).1
    · have hclosed : MoneyTables.closedCents { t with reservations } key = t.closedCents key := by
        simp [MoneyTables.closedCents, Table.total, hrows, ReservationRow.closedCents, hopen]
      have hcost : MoneyTables.costCents { t with reservations } key = t.costCents key := rfl
      omega
  · cases h

theorem reserveAttempt_accounted {localDate : LocalClock} {workspaceId newId : Uuid}
    {input : ReserveInput} {row : ReservationRow}
    (h : reserveAttempt localDate workspaceId input newId t = some (row, t')) :
    Accounted notCalled (fun _ => 0) t t' := by
  simp only [reserveAttempt, Option.bind_eq_bind, Option.bind_eq_some_iff] at h
  obtain ⟨n, -, businessDate, -, h⟩ := h
  split at h
  · split at h
    · cases h
    · cases h
      exact Accounted.refl
  · split at h
    · obtain ⟨after, hinsert, hsame⟩ := Option.map_eq_some_iff.1 h
      cases hsame
      exact insertReservation_accounted rfl hinsert
    · cases h

theorem markCalling_accounted {localDate : LocalClock} {workspaceId reservationId : Uuid}
    {current : Instant} {zone : Option JsString} {marked : Bool}
    (h : markCalling localDate workspaceId reservationId current zone t = some (marked, t')) :
    Accounted notCalled (fun _ => 0) t t' := by
  have hmark : ∀ {written : Option ReservationRow} {reservations : ReservationTable},
      t.reservations.updateRow reservationChecks (workspaceId, reservationId)
        (fun row => row.state = .reserved) (fun row => { row with state := .calling })
        = some (written, reservations) →
      Accounted notCalled (fun _ => 0) t { t with reservations } := by
    intro written reservations hupdate
    rcases Table.updateRow_eq_some hupdate with ⟨-, rfl, -⟩ | ⟨row, hfind, hguard, hchecks, -, rfl⟩
    · exact Accounted.refl
    · have hstate : row.state = .reserved := by simpa using hguard
      apply Accounted.of_update { row with state := .calling } hfind rfl rfl hchecks
      · simp [hstate, follows]
      · refine ⟨rfl, fun k => ?_⟩
        simp [ReservationRow.closedCents, hstate, ReservationState.open]
  simp only [markCalling, Option.bind_eq_bind] at h
  split at h
  · cases h
    exact Accounted.refl
  · split at h
    · cases h
      exact Accounted.refl
    · split at h
      · obtain ⟨today, -, h⟩ := Option.bind_eq_some_iff.1 h
        split at h
        · cases h
        · split at h
          · obtain ⟨⟨written, reservations⟩, hupdate, hsame⟩ := Option.bind_eq_some_iff.1 h
            cases hsame
            exact hmark hupdate
          · cases h
      · obtain ⟨⟨written, reservations⟩, hupdate, hsame⟩ := Option.bind_eq_some_iff.1 h
        cases hsame
        exact hmark hupdate

theorem settleAttempt_accounted {workspaceId reservationId : Uuid} {at_ : Instant}
    {outcome : SettleOutcome} {answer : Option (Int × ReservationState)}
    (hallowed : outcome = .releasedNotCalled → notCalled (workspaceId, reservationId) = true)
    (h : settleAttempt workspaceId reservationId at_ outcome t = some (answer, t')) :
    Accounted notCalled (fun _ => 0) t t' := by
  simp only [settleAttempt, Option.bind_eq_bind, Option.bind_eq_some_iff] at h
  obtain ⟨cents, hcents, ⟨returned, reservations⟩, hupdate, h⟩ := h
  rcases Table.updateRow_eq_some hupdate with
    ⟨rfl, rfl, -⟩ | ⟨row, hfind, hguard, hchecks, rfl, rfl⟩
  · cases h
    exact Accounted.refl
  have hopen : row.state.open = true := by
    cases hstate : row.state <;> simp_all [ReservationState.open]
  have hclosed : outcome.state.open = false := by cases outcome <;> rfl
  have hfollows : follows (notCalled (workspaceId, reservationId)) row.state outcome.state
      = true := by
    cases hstate : row.state with
    | reserved => rfl
    | calling =>
      cases outcome with
      | settled | estimated => rfl
      | released => simp [hstate, SettleOutcome.fromCalling] at hguard
      | releasedNotCalled => simpa [SettleOutcome.state, follows] using hallowed rfl
    | settled | estimated | released => simp [hstate, ReservationState.open] at hopen
  apply Accounted.of_update { row with
    state := outcome.state, settledCents := cents row.cents, settledAt := some at_ }
    hfind rfl rfl hchecks hfollows
  simp only [ReservationRow.closedCents, hopen, hclosed, ↓reduceIte, Bool.false_eq_true,
    Int.sub_zero]
  simp only at h
  split at h
  · obtain ⟨after, hadd, hsame⟩ := Option.bind_eq_some_iff.1 h
    cases hsame
    exact addLedgerCost_adds hadd
  · next hzero =>
    cases h
    have hnonneg : 0 ≤ cents row.cents := settledCents_nonneg hchecks
    have hnothing : cents row.cents = 0 := by omega
    exact ⟨rfl, fun k => by simp [hnothing]⟩

/-- What a correction adds to the ledger, before its two clamps, is never negative. -/
theorem corrected_cost_nonneg {row : ReservationRow} {id : Uuid × Uuid} {cents : Int}
    (ht : t.Covered) (hfind : t.reservations.find? id = some row)
    (hclosed : row.state = .settled ∨ row.state = .estimated) (hcents : 0 ≤ cents) :
    0 ≤ t.costCents row.ledgerKey + (cents - row.settledCents) := by
  have hcover := closedCents_le_cost ht (Table.find?_eq_some.1 hfind).1
  have hsettled : row.closedCents = row.settledCents := by
    rcases hclosed with hstate | hstate <;>
      simp [ReservationRow.closedCents, hstate, ReservationState.open]
  omega

theorem correctSettledCents_accounted {workspaceId reservationId : Uuid} {given : JsNumber}
    {answer : Option Correction} (ht : t.Covered)
    (h : correctSettledCents workspaceId reservationId given t = some (answer, t')) :
    Accounted notCalled (fun _ => 0) t t' := by
  simp only [correctSettledCents, Option.bind_eq_bind, Option.bind_eq_some_iff] at h
  obtain ⟨cents, hcents, h⟩ := h
  cases hfind : t.reservations.find? (workspaceId, reservationId) with
  | none =>
    simp only [hfind] at h
    cases h
    exact Accounted.refl
  | some old =>
    simp only [hfind, Option.bind_eq_some_iff] at h
    obtain ⟨⟨returned, reservations⟩, hupdate, h⟩ := h
    rcases Table.updateRow_eq_some hupdate with
      ⟨rfl, rfl, -⟩ | ⟨row, hrow, hguard, hchecks, rfl, rfl⟩
    · cases h
      exact Accounted.refl
    rw [hfind] at hrow
    cases hrow
    have hclosed : old.state = .settled ∨ old.state = .estimated := by
      simpa using (Bool.and_eq_true_iff.1 hguard).1
    have hnonneg := corrected_cost_nonneg ht hfind hclosed (wholeCents_nonneg hcents)
    apply Accounted.of_update { old with state := .settled, settledCents := cents }
      hfind rfl rfl hchecks
    · rcases hclosed with hstate | hstate <;> simp [hstate, follows]
    have hold : old.closedCents = old.settledCents := by
      rcases hclosed with hstate | hstate <;>
        simp [ReservationRow.closedCents, hstate, ReservationState.open]
    rw [hold]
    simp only at h
    split at h
    · obtain ⟨after, hadd, hsame⟩ := Option.bind_eq_some_iff.1 h
      cases hsame
      -- the clamps are on what `hnonneg` says is no loss
      refine upsertLedger_adds hadd (fun _ => rfl) (fun hfresh => ?_) (fun ledger hledger => ?_)
      · have hcost : t.costCents old.ledgerKey = 0 := by
          simp only [MoneyTables.costCents]
          rw [show t.ledger.find? old.ledgerKey = none from hfresh]
          rfl
        rw [hcost] at hnonneg
        show max 0 (cents - old.settledCents) = cents - old.settledCents
        omega
      · have hcost : t.costCents old.ledgerKey = ledger.costCents := by
          simp only [MoneyTables.costCents]
          rw [show t.ledger.find? old.ledgerKey = some ledger from hledger]
          rfl
        rw [hcost] at hnonneg
        show max 0 (ledger.costCents + (cents - old.settledCents))
          = ledger.costCents + (cents - old.settledCents)
        omega
    · next hzero =>
      cases h
      have hnothing : cents - old.settledCents = 0 := by omega
      refine ⟨rfl, fun k => ?_⟩
      show _ = _ + if k = old.ledgerKey then cents - old.settledCents else 0
      simp [hnothing]

theorem finaliseReservations_accounted {workspaceId : Uuid} {at_ : Instant}
    {rows : List ReservationRow} {cost : SubjectCost} {answer : SubjectCost × MoneyTables}
    (h : finaliseReservations workspaceId at_ rows cost t = some answer) :
    Accounted (fun _ => false) (fun _ => 0) t answer.2 := by
  induction rows generalizing cost t with
  | nil =>
    cases h
    exact Accounted.refl
  | cons row rows ih =>
    simp only [finaliseReservations, Option.bind_eq_bind, Option.bind_eq_some_iff] at h
    obtain ⟨⟨cost', after⟩, hfirst, hrest⟩ := h
    have hone : Accounted (fun _ => false) (fun _ => 0) t after := by
      unfold finaliseReservation at hfirst
      split at hfirst
      · cases hfirst
        exact Accounted.refl
      · simp only [Option.bind_eq_bind, Option.bind_eq_some_iff] at hfirst
        obtain ⟨⟨settled, after'⟩, hsettle, hsame⟩ := hfirst
        cases hsame
        refine settleAttempt_accounted (fun houtcome => ?_) hsettle
        split at houtcome <;> cases houtcome
    exact hone.trans (ih hrest)

theorem recordProviderCall_adds {localDate : LocalClock} {workspaceId : Uuid}
    {input : RecordProviderCallInput}
    (h : recordProviderCall localDate workspaceId input t = some t') :
    ∃ businessDate cents, localDate input.at_ input.businessTimeZone = some businessDate ∧
      wholeCents input.costCents = some cents ∧
      Adds ⟨workspaceId, input.providerKey, businessDate⟩ cents t t' := by
  simp only [recordProviderCall, Option.bind_eq_bind, Option.bind_eq_some_iff] at h
  obtain ⟨businessDate, hdate, cents, hcents, h⟩ := h
  exact ⟨businessDate, cents, hdate, hcents,
    upsertLedger_adds h (fun _ => rfl) (fun _ => rfl) (fun _ _ => rfl)⟩

namespace MoneyOp

/-- The release of one reservation by the caller that would have made the call. -/
def releasesNotCalled (id : Uuid × Uuid) : MoneyOp → Bool
  | settleAttempt workspaceId reservationId _ .releasedNotCalled =>
    (workspaceId, reservationId) = id
  | _ => false

/-- The cents a call that was recorded charges to a provider and date. -/
def charges (localDate : LocalClock) (key : LedgerKey) (t : MoneyTables) (op : MoneyOp) : Nat :=
  match op with
  | recordProviderCall workspaceId input =>
    if (op.commits localDate t).isSome && workspaceId = key.workspaceId &&
        input.providerKey = key.providerKey &&
        localDate input.at_ input.businessTimeZone = some key.businessDate then
      ((wholeCents input.costCents).getD 0).toNat
    else 0
  | _ => 0

end MoneyOp

/-- Every operation is accounted for. -/
theorem moneyStep_accounted (localDate : LocalClock) (ht : t.Covered) (op : MoneyOp) :
    Accounted (fun id => op.releasesNotCalled id) (fun key => op.charges localDate key t) t
      (moneyStep localDate t op) := by
  unfold moneyStep
  cases hcommits : op.commits localDate t with
  | none =>
    have hnone : ∀ key, op.charges localDate key t = 0 := by
      intro key
      cases op <;> simp [MoneyOp.charges, hcommits]
    simp only [hnone, Option.getD_none]
    exact Accounted.refl
  | some t' =>
    rw [Option.getD_some]
    cases op with
    | reserveAttempt workspaceId input newId =>
      obtain ⟨⟨row, after⟩, h, rfl⟩ := Option.map_eq_some_iff.1 hcommits
      exact reserveAttempt_accounted h
    | markCalling workspaceId reservationId current zone =>
      obtain ⟨⟨marked, after⟩, h, rfl⟩ := Option.map_eq_some_iff.1 hcommits
      exact markCalling_accounted h
    | settleAttempt workspaceId reservationId at_ outcome =>
      obtain ⟨⟨answer, after⟩, h, rfl⟩ := Option.map_eq_some_iff.1 hcommits
      refine settleAttempt_accounted (fun houtcome => ?_) h
      subst houtcome
      simp [MoneyOp.releasesNotCalled]
    | correctSettledCents workspaceId reservationId cents =>
      obtain ⟨⟨answer, after⟩, h, rfl⟩ := Option.map_eq_some_iff.1 hcommits
      exact correctSettledCents_accounted ht h
    | finaliseSubjectReservations workspaceId subjectKind subjectId at_ =>
      obtain ⟨answer, h, rfl⟩ := Option.map_eq_some_iff.1 hcommits
      exact (finaliseReservations_accounted h).mono
    | recordProviderCall workspaceId input =>
      obtain ⟨businessDate, cents, hdate, hcents, hadds⟩ := recordProviderCall_adds hcommits
      have hnonneg := wholeCents_nonneg hcents
      have hcharge : ∀ key, ((MoneyOp.recordProviderCall workspaceId input).charges localDate key t
          : Int) = if key = ⟨workspaceId, input.providerKey, businessDate⟩ then cents else 0 := by
        intro key
        obtain ⟨w, p, d⟩ := key
        simp only [MoneyOp.charges, hcommits, hdate, hcents, Option.isSome_some, Bool.true_and,
          Option.getD_some, Option.some.injEq, Bool.and_eq_true, decide_eq_true_eq,
          LedgerKey.mk.injEq]
        by_cases hkey : w = workspaceId ∧ p = input.providerKey ∧ d = businessDate
        · obtain ⟨rfl, rfl, rfl⟩ := hkey
          simp [hnonneg]
        · rw [if_neg fun h => hkey ⟨h.1.1.symm, h.1.2.symm, h.2.symm⟩, if_neg hkey]
          rfl
      simp only [hcharge]
      exact hadds.accounted

/-! ## Runs -/

section Runs

variable (localDate : LocalClock)

theorem moneyStep_covered (t : MoneyTables) (op : MoneyOp) (ht : t.Covered) :
    (moneyStep localDate t op).Covered :=
  (moneyStep_accounted localDate ht op).covered (fun _ => Int.natCast_nonneg _) ht

theorem covered_run (ops : List MoneyOp) :
    (run (moneyStep localDate) MoneyTables.empty ops).Covered :=
  run_invariant (moneyStep_covered localDate) MoneyTables.covered_empty ops

/-- The reservation is there, and closed. -/
def isClosed (id : Uuid × Uuid) (t : MoneyTables) : Bool :=
  (t.reservations.find? id).any fun row => !row.state.open

/-- Whether a transaction closes the reservation. -/
def closings (id : Uuid × Uuid) (t : MoneyTables) (op : MoneyOp) : Nat :=
  if isClosed id t = false ∧ isClosed id (moneyStep localDate t op) = true then 1 else 0

theorem isClosed_moneyStep {id : Uuid × Uuid} (ht : t.Covered) (op : MoneyOp)
    (h : isClosed id t = true) : isClosed id (moneyStep localDate t op) = true := by
  obtain ⟨row, hrow, hclosed⟩ := (Option.any_eq_true _ _).1 h
  obtain ⟨row', hrow', hfollows⟩ := (moneyStep_accounted localDate ht op).rows id row hrow
  refine (Option.any_eq_true _ _).2 ⟨row', hrow', ?_⟩
  simpa using follows_closed (by simpa using hclosed) hfollows

theorem closings_le_one (id : Uuid × Uuid) (ops : List MoneyOp) :
    total (moneyStep localDate) (closings localDate id) MoneyTables.empty ops ≤ 1 := by
  let closed : MoneyTables → Nat := fun t => if isClosed id t then 1 else 0
  have hpays : ∀ t op, True → t.Covered →
      closed t + closings localDate id t op ≤ closed (moneyStep localDate t op) := by
    intro t op _ ht
    have hkeeps : isClosed id t = true → isClosed id (moneyStep localDate t op) = true :=
      isClosed_moneyStep localDate ht op
    by_cases hbefore : isClosed id t = true
    · simp [closed, closings, hbefore, hkeeps hbefore]
    · by_cases hafter : isClosed id (moneyStep localDate t op) = true <;>
        simp [closed, closings, hbefore, hafter]
  have hbound : ∀ t : MoneyTables, t.Covered → closed t ≤ 1 := by
    intro t _
    show (if isClosed id t then 1 else 0) ≤ 1
    split <;> omega
  exact Nat.le_of_add_left_le (total_le_of_potential
    (fun t op _ => moneyStep_covered localDate t op) hpays hbound
    (meets_of_forall (moneyStep localDate) (fun _ _ => trivial) _ ops) MoneyTables.covered_empty)

/-- A `calling` reservation that a run releases was released in it by the caller that would
have made the call. -/
theorem released_by_caller {id : Uuid × Uuid} (ops : List MoneyOp) {t : MoneyTables}
    (ht : t.Covered) {row row' : ReservationRow} (hrow : t.reservations.find? id = some row)
    (hcalling : row.state = .calling)
    (hrow' : (run (moneyStep localDate) t ops).reservations.find? id = some row')
    (hreleased : row'.state = .released) :
    ∃ front op back, ops = front ++ op :: back ∧ op.releasesNotCalled id = true := by
  induction ops generalizing t row with
  | nil =>
    rw [run_nil, hrow] at hrow'
    cases hrow'
    rw [hcalling] at hreleased
    cases hreleased
  | cons op ops ih =>
    cases hop : op.releasesNotCalled id with
    | true => exact ⟨[], op, ops, rfl, hop⟩
    | false =>
      have hnext := moneyStep_covered localDate t op ht
      obtain ⟨next, hfind, hfollows⟩ := (moneyStep_accounted localDate ht op).rows id row hrow
      rw [hop, hcalling] at hfollows
      cases hstate : next.state with
      | reserved | released => simp [hstate, follows] at hfollows
      | calling =>
        obtain ⟨front, op', back, rfl, hop'⟩ := ih hnext hfind hstate hrow'
        exact ⟨op :: front, op', back, rfl, hop'⟩
      | settled | estimated =>
        -- from here the row stays charged
        let charged : MoneyTables → Prop := fun t => ∃ r, t.reservations.find? id = some r ∧
          (r.state = .settled ∨ r.state = .estimated)
        have hkeeps : ∀ t op, t.Covered ∧ charged t →
            (moneyStep localDate t op).Covered ∧ charged (moneyStep localDate t op) := by
          rintro t op ⟨hc, r, hr, hpaid⟩
          obtain ⟨r', hr', hfollows'⟩ := (moneyStep_accounted localDate hc op).rows id r hr
          exact ⟨moneyStep_covered localDate t op hc, r', hr', follows_charged hpaid hfollows'⟩
        obtain ⟨-, r, hr, hpaid⟩ :=
          run_invariant hkeeps ⟨hnext, next, hfind, by simp [hstate]⟩ ops
        rw [run_cons] at hrow'
        rw [hr] at hrow'
        cases hrow'
        simp [hreleased] at hpaid

theorem cost_run (key : LedgerKey) (ops : List MoneyOp) :
    (run (moneyStep localDate) MoneyTables.empty ops).costCents key
      = total (moneyStep localDate) (fun t op => op.charges localDate key t) MoneyTables.empty ops
        + (run (moneyStep localDate) MoneyTables.empty ops).closedCents key := by
  have hadds := run_adds (fun t op => op.charges localDate key t)
    (fun t => t.costCents key - t.closedCents key) (moneyStep_covered localDate)
    (fun t op ht => by
      have := (moneyStep_accounted localDate ht op).balance key
      omega) MoneyTables.covered_empty ops
  have hstart : MoneyTables.empty.costCents key - MoneyTables.empty.closedCents key = 0 := rfl
  simp only [hstart] at hadds
  omega

end Runs

/-! ## The ledger over every run -/

/-- What holds after the operations `ops`, from empty tables. -/
structure Balances (localDate : LocalClock) (ops : List MoneyOp) : Prop where
  /-- Every reservation is closed at most once. -/
  closedOnce : ∀ id, total (moneyStep localDate) (closings localDate id) MoneyTables.empty ops ≤ 1
  /-- A closed reservation stays closed. -/
  neverReopened : ∀ id front back, ops = front ++ back →
    isClosed id (run (moneyStep localDate) MoneyTables.empty front) = true →
    isClosed id (run (moneyStep localDate) MoneyTables.empty ops) = true
  /-- What reached `calling` is released only by the caller that would have made the call. -/
  releasedByCaller : ∀ id front back row row', ops = front ++ back →
    (run (moneyStep localDate) MoneyTables.empty front).reservations.find? id = some row →
    row.state = .calling →
    (run (moneyStep localDate) MoneyTables.empty ops).reservations.find? id = some row' →
    row'.state = .released → ∃ op ∈ back, op.releasesNotCalled id = true
  releasedIsFree : ∀ row ∈ (run (moneyStep localDate) MoneyTables.empty ops).reservations,
    row.state = .released → row.settledCents = 0
  /-- The ledger is the calls' costs, in whole cents, and the closed reservations' cents. -/
  ledger : ∀ key, (run (moneyStep localDate) MoneyTables.empty ops).costCents key
    = total (moneyStep localDate) (fun t op => op.charges localDate key t) MoneyTables.empty ops
      + (run (moneyStep localDate) MoneyTables.empty ops).closedCents key
  /-- The two clamps of a correction are on numbers that are not negative: the one on a new
  ledger row and the one on a row that is there. -/
  clamps : ∀ id row given cents,
    (run (moneyStep localDate) MoneyTables.empty ops).reservations.find? id = some row →
    row.state = .settled ∨ row.state = .estimated → wholeCents given = some cents →
    ((run (moneyStep localDate) MoneyTables.empty ops).ledger.find? row.ledgerKey = none →
      max 0 (cents - row.settledCents) = cents - row.settledCents) ∧
    ∀ ledger, (run (moneyStep localDate) MoneyTables.empty ops).ledger.find? row.ledgerKey
        = some ledger →
      max 0 (ledger.costCents + (cents - row.settledCents))
        = ledger.costCents + (cents - row.settledCents)

theorem ledger_balances (localDate : LocalClock) (ops : List MoneyOp) :
    Balances localDate ops where
  closedOnce id := closings_le_one localDate id ops
  neverReopened id front back hops hclosed := by
    subst hops
    rw [run_append]
    have hkeeps : ∀ t op, t.Covered ∧ isClosed id t = true →
        (moneyStep localDate t op).Covered ∧ isClosed id (moneyStep localDate t op) = true :=
      fun t op h => ⟨moneyStep_covered localDate t op h.1, isClosed_moneyStep localDate h.1 op h.2⟩
    exact (run_invariant hkeeps ⟨covered_run localDate front, hclosed⟩ back).2
  releasedByCaller id front back row row' hops hrow hcalling hrow' hreleased := by
    subst hops
    rw [run_append] at hrow'
    obtain ⟨before, op, after, rfl, hop⟩ :=
      released_by_caller localDate back (covered_run localDate front) hrow hcalling hrow' hreleased
    exact ⟨op, by simp, hop⟩
  releasedIsFree row hrow hreleased :=
    released_is_free ((covered_run localDate ops).valid row hrow) hreleased
  ledger key := cost_run localDate key ops
  clamps id row given cents hrow hclosed hcents := by
    have hnonneg := corrected_cost_nonneg (covered_run localDate ops) hrow hclosed
      (wholeCents_nonneg hcents)
    constructor
    · intro hfresh
      simp only [MoneyTables.costCents, hfresh, Option.map_none, Option.getD_none] at hnonneg
      omega
    · intro ledger hledger
      simp only [MoneyTables.costCents, hledger, Option.map_some, Option.getD_some] at hnonneg
      omega

/-- A call given a negative cost is recorded at no cost: the ledger is not the sum of the
costs as they were given. -/
theorem ledger_balances_fails :
    let localDate : LocalClock := fun _ _ => some ⟨2026, 10, 1⟩
    let op := MoneyOp.recordProviderCall (js "w")
      ⟨js "deepgram", 0, js "America/New_York", .finite (-5), none⟩
    let t := moneyStep localDate MoneyTables.empty op
    let key : LedgerKey := ⟨js "w", js "deepgram", ⟨2026, 10, 1⟩⟩
    (op.commits localDate MoneyTables.empty).isSome = true ∧ t.closedCents key = 0 ∧
      (t.costCents key : ℚ) ≠ -5 + t.closedCents key := by
  have hrun : let localDate : LocalClock := fun _ _ => some ⟨2026, 10, 1⟩
      let op := MoneyOp.recordProviderCall (js "w")
        ⟨js "deepgram", 0, js "America/New_York", .finite (-5), none⟩
      let t := moneyStep localDate MoneyTables.empty op
      let key : LedgerKey := ⟨js "w", js "deepgram", ⟨2026, 10, 1⟩⟩
      (op.commits localDate MoneyTables.empty).isSome = true ∧ t.closedCents key = 0 ∧
        t.costCents key = 0 := by
    decide +kernel
  obtain ⟨hcommits, hclosed, hcost⟩ := hrun
  refine ⟨hcommits, hclosed, ?_⟩
  rw [hcost, hclosed]
  decide +kernel

end FoundingSales.Research
