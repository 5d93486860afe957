import Mathlib.Data.Finset.Card
import FoundingSales.Sequences.Enrollments
import FoundingSales.Suppression.Corrections

/-!
What the finalization markers owe: the sweep that ends the enrollments a finalized
suppression covers. It has no cursor; it is run until it finds nothing more.

Proved here:
* `Swept.ended_iff`: running it until it finds nothing ends the live enrollments covered by
  a marked event the view shows, and no others;
* `sweepEnds_iff`: so it ends everything a marked event covers when the view hides no such
  event behind an unmarked one;
* `sweepEnds_fails`: a manual stop still in its window hides the prospect's own request.
-/

namespace FoundingSales.Sequences

open Tables Suppression Crm

/-- The addresses and numbers on file, each with its contact. -/
structure ContactRoutes where
  emailAddresses : List (Uuid × JsString)
  phoneRoutes : List (Uuid × JsString)

/-- The end reason a finalized suppression gives the enrollments it covers. -/
def suppressionEndReason (scope : SuppressionScope) (source : SuppressionSource) :
    EnrollmentEndReason :=
  if scope = .firm then .firmSuppressed
  else if source = .prospectOptOut || source = .prospectDoNotCall then .optOut
  else .adminStop

/-- The event's key is the enrollment's firm, or an address or number of its contact. -/
def SuppressionEvent.covers (routes : ContactRoutes) (event : SuppressionEvent)
    (row : EnrollmentRow) : Bool :=
  match event.scope with
  | .firm => event.canonicalKey = row.firmId
  | .handle => (row.contactId, event.canonicalKey) ∈ routes.emailAddresses ||
      (row.contactId, event.canonicalKey) ∈ routes.phoneRoutes

def SuppressionEvent.stopsEmail (event : SuppressionEvent) : Bool :=
  event.channel = .email || event.channel = .all

/-- A row of the query `OUTSTANDING_SUPPRESSION_STOPS`. -/
structure OwedStop where
  eventId : JsString
  decidedAt : Instant
  scope : SuppressionScope
  source : SuppressionSource
  enrollmentId : Uuid

/-- `ORDER BY decided_at, event_id, enrollment_id` -/
def OwedStop.before (a b : OwedStop) : Bool :=
  a.decidedAt < b.decidedAt || (a.decidedAt = b.decidedAt &&
    ((a.eventId ≠ b.eventId && textLe a.eventId b.eventId) ||
      (a.eventId = b.eventId && textLe a.enrollmentId b.enrollmentId)))

def outstandingSuppressionStops (db : Suppression.Database) (routes : ContactRoutes) (t : SequenceTables) :
    List OwedStop :=
  (db.finalizations.rows.filter (·.outcome = .finalized)).flatMap fun marker =>
    (db.effectiveSuppressions.filter fun event =>
      event.eventId = marker.eventId && SuppressionEvent.stopsEmail event).flatMap fun event =>
        (t.enrollments.rows.filter fun row =>
          row.endedAt.isNone && SuppressionEvent.covers routes event row).map fun row =>
            ⟨event.eventId, marker.decidedAt, event.scope, event.source, row.id⟩

structure SuppressionStopReport where
  markersConsumed : Nat
  enrollmentsStopped : Nat
  executionsCancelled : Nat

/-- The stop one row of the query owes. -/
def OwedStop.stop (owed : OwedStop) (now : Instant) (t : SequenceTables) : TerminalStop :=
  lockStop t ⟨none, none, some owed.enrollmentId, none,
    suppressionEndReason owed.scope owed.source, some (js "suppression_finalized")⟩ now

/-- One enrollment at a time: the tables, and how many enrollments and executions it ended. -/
def stopOwed (now : Instant) : List OwedStop → SequenceTables → SequenceTables × Nat × Nat
  | [], t => (t, 0, 0)
  | owed :: rest, t =>
    let stop := owed.stop now t
    let (t', stopped, cancelled) := stopOwed now rest (stop.write t)
    (t', stop.enrollmentIds.length + stopped, stop.executionIds.length + cancelled)

/-- `none` when PostgreSQL refuses the LIMIT. -/
def consumeSuppressionStops (db : Suppression.Database) (routes : ContactRoutes) (limit : Int) (now : Instant)
    (t : SequenceTables) : Option (SuppressionStopReport × SequenceTables) :=
  if limit < 0 then none
  else
    let rows := ((outstandingSuppressionStops db routes t).insertionSort
      fun a b => a.before b).take limit.toNat
    let (t', stopped, cancelled) := stopOwed now rows t
    some (⟨(rows.map OwedStop.eventId).eraseDups.length, stopped, cancelled⟩, t')

/-- Run until a call reports no marker. -/
inductive Swept (db : Suppression.Database) (routes : ContactRoutes) (limit : Int) :
    SequenceTables → SequenceTables → Prop
  | done {t t' : SequenceTables} {now : Instant} {report : SuppressionStopReport}
      (h : consumeSuppressionStops db routes limit now t = some (report, t'))
      (hnothing : report.markersConsumed = 0) : Swept db routes limit t t'
  | again {t t' t'' : SequenceTables} {now : Instant} {report : SuppressionStopReport}
      (h : consumeSuppressionStops db routes limit now t = some (report, t'))
      (hsome : report.markersConsumed ≠ 0) (hrest : Swept db routes limit t' t'') :
      Swept db routes limit t t''

/-! ## What a stop leaves alone -/

/-- Some live enrollments with an id in `ids` were ended, and nothing else happened. -/
def StopsOnly (ids : Uuid → Prop) (t t' : SequenceTables) : Prop :=
  ∀ id, t'.enrollments.find? id = t.enrollments.find? id ∨
    ∃ row reason now, t.enrollments.find? id = some row ∧ row.endedAt = none ∧ ids id ∧
      t'.enrollments.find? id = some (row.finish .stopped reason now)

theorem StopsOnly.refl (ids : Uuid → Prop) (t : SequenceTables) : StopsOnly ids t t :=
  fun _ => .inl rfl

theorem StopsOnly.trans {ids : Uuid → Prop} {a b c : SequenceTables} (hab : StopsOnly ids a b)
    (hbc : StopsOnly ids b c) : StopsOnly ids a c := by
  intro id
  rcases hab id with hab | ⟨row, reason, now, hrow, hlive, hid, hab⟩
  · rcases hbc id with hbc | ⟨row, reason, now, hrow, hlive, hid, hbc⟩
    · exact .inl (hbc.trans hab)
    · exact .inr ⟨row, reason, now, hab ▸ hrow, hlive, hid, hbc⟩
  · rcases hbc id with hbc | ⟨row', reason', now', hrow', hlive', -, -⟩
    · exact .inr ⟨row, reason, now, hrow, hlive, hid, hbc.trans hab⟩
    · rw [hab] at hrow'
      cases hrow'
      cases hlive'

theorem StopsOnly.mono {ids ids' : Uuid → Prop} {t t' : SequenceTables} (h : StopsOnly ids t t')
    (hids : ∀ id, ids id → ids' id) : StopsOnly ids' t t' := by
  intro id
  rcases h id with hsame | ⟨row, reason, now, hrow, hlive, hid, hended⟩
  · exact .inl hsame
  · exact .inr ⟨row, reason, now, hrow, hlive, hids id hid, hended⟩

theorem StopsOnly.continues {ids : Uuid → Prop} {t t' : SequenceTables} (h : StopsOnly ids t t') :
    Continues t t' := by
  constructor
  · intro id hid
    rcases h id with hsame | ⟨row, reason, now, -, -, -, hended⟩
    · rw [hsame]
      exact hid
    · rw [hended]
      rfl
  · rintro id ⟨row, hrow, hended⟩
    rcases h id with hsame | ⟨row', reason, now, hrow', hlive, -, -⟩
    · exact ⟨row, hsame.trans hrow, hended⟩
    · rw [hrow] at hrow'
      cases hrow'
      rw [hlive] at hended
      cases hended

/-- A row that lives on is the one there was. -/
theorem StopsOnly.live {ids : Uuid → Prop} {t t' : SequenceTables} (h : StopsOnly ids t t')
    {row : EnrollmentRow} (hrow : row ∈ t'.enrollments) (hlive : row.endedAt = none) :
    row ∈ t.enrollments := by
  have hfind : t'.enrollments.find? row.id = some row := Table.find?_eq_some.2 ⟨hrow, rfl⟩
  rcases h row.id with hsame | ⟨old, reason, now, -, -, -, hended⟩
  · exact (Table.find?_eq_some.1 (hsame.symm.trans hfind)).1
  · rw [hfind] at hended
    cases hended
    cases hlive

theorem OwedStop.mem_stop {owed : OwedStop} {now : Instant} {t : SequenceTables} {id : Uuid} :
    id ∈ (owed.stop now t).enrollmentIds ↔
      id = owed.enrollmentId ∧ ∃ row ∈ t.enrollments, row.id = id ∧ row.endedAt = none := by
  simp only [OwedStop.stop, lockStop, List.mem_map, List.mem_filter, StopEnrollmentsInput.covers,
    Option.all_none, Option.all_some, Bool.and_true, Bool.and_eq_true, Option.isNone_iff_eq_none,
    decide_eq_true_eq]
  constructor
  · rintro ⟨row, ⟨hrow, hlive, hid⟩, rfl⟩
    exact ⟨hid.symm, row, hrow, rfl, hlive⟩
  · rintro ⟨rfl, row, hrow, hid, hlive⟩
    exact ⟨row, ⟨hrow, hlive, hid.symm⟩, hid⟩

theorem OwedStop.stopsOnly (owed : OwedStop) (now : Instant) (t : SequenceTables) :
    StopsOnly (· = owed.enrollmentId) t ((owed.stop now t).write t) := by
  intro id
  rw [TerminalStop.find?_write]
  cases hrow : t.enrollments.find? id with
  | none => exact .inl rfl
  | some row =>
    have hkey : row.id = id := Table.find?_key hrow
    rw [Option.map_some]
    split
    · next hstopped =>
      rw [Bool.and_eq_true, decide_eq_true_eq, Option.isNone_iff_eq_none] at hstopped
      have hid := (OwedStop.mem_stop.1 hstopped.1).1
      exact .inr ⟨row, _, _, rfl, hstopped.2, hkey ▸ hid, rfl⟩
    · exact .inl rfl

theorem stopOwed_stopsOnly (now : Instant) (rows : List OwedStop) (t : SequenceTables) :
    StopsOnly (fun id => ∃ owed ∈ rows, id = owed.enrollmentId) t (stopOwed now rows t).1 := by
  induction rows generalizing t with
  | nil => exact StopsOnly.refl _ t
  | cons owed rest ih =>
    apply StopsOnly.trans
    · apply (owed.stopsOnly now t).mono
      exact fun id hid => ⟨owed, List.mem_cons_self, hid⟩
    · apply (ih _).mono
      rintro id ⟨other, hother, hid⟩
      exact ⟨other, List.mem_cons_of_mem _ hother, hid⟩

/-- Every enrollment named by a row is ended, if it is there. -/
theorem stopOwed_ends (now : Instant) {rows : List OwedStop} {t : SequenceTables} {owed : OwedStop}
    (howed : owed ∈ rows) (hpresent : (t.enrollments.find? owed.enrollmentId).isSome) :
    Ended (stopOwed now rows t).1 owed.enrollmentId := by
  induction rows generalizing t with
  | nil => cases howed
  | cons first rest ih =>
    have hfirst := (first.stopsOnly now t).continues
    have hrest := (stopOwed_stopsOnly now rest ((first.stop now t).write t)).continues
    rcases List.mem_cons.1 howed with rfl | howed
    · apply hrest.ended
      obtain ⟨row, hrow⟩ := Option.isSome_iff_exists.1 hpresent
      obtain ⟨hmem, hkey⟩ := Table.find?_eq_some.1 hrow
      cases hlive : row.endedAt with
      | none =>
        apply TerminalStop.ends _ hpresent
        exact OwedStop.mem_stop.2 ⟨rfl, row, hmem, hkey, hlive⟩
      | some at' =>
        apply hfirst.ended
        exact ⟨row, hrow, by rw [hlive]; rfl⟩
    · exact ih howed (hfirst.present _ hpresent)

/-! ## The sweep -/

/-- A marked event the view shows stops this enrollment. -/
def StoppedByView (db : Suppression.Database) (routes : ContactRoutes) (row : EnrollmentRow) : Prop :=
  ∃ marker ∈ db.finalizations, marker.outcome = .finalized ∧
    ∃ event ∈ db.effectiveSuppressions, event.eventId = marker.eventId ∧
      SuppressionEvent.stopsEmail event = true ∧ SuppressionEvent.covers routes event row = true

/-- A marked event that nothing supersedes covers this enrollment. -/
def StoppedByEvent (db : Suppression.Database) (routes : ContactRoutes) (row : EnrollmentRow) : Prop :=
  ∃ marker ∈ db.finalizations, marker.outcome = .finalized ∧
    ∃ event ∈ db.events, event.eventId = marker.eventId ∧ db.effective event = true ∧
      SuppressionEvent.stopsEmail event = true ∧ SuppressionEvent.covers routes event row = true

instance (db : Suppression.Database) (routes : ContactRoutes) (row : EnrollmentRow) :
    Decidable (StoppedByView db routes row) :=
  inferInstanceAs (Decidable (∃ marker ∈ db.finalizations.rows, marker.outcome = .finalized ∧
    ∃ event ∈ db.effectiveSuppressions, event.eventId = marker.eventId ∧
      SuppressionEvent.stopsEmail event = true ∧ SuppressionEvent.covers routes event row = true))

instance (db : Suppression.Database) (routes : ContactRoutes) (row : EnrollmentRow) :
    Decidable (StoppedByEvent db routes row) :=
  inferInstanceAs (Decidable (∃ marker ∈ db.finalizations.rows, marker.outcome = .finalized ∧
    ∃ event ∈ db.events.rows, event.eventId = marker.eventId ∧ db.effective event = true ∧
      SuppressionEvent.stopsEmail event = true ∧ SuppressionEvent.covers routes event row = true))

theorem mem_effectiveSuppressions {db : Suppression.Database} {event : SuppressionEvent}
    (h : event ∈ db.effectiveSuppressions) : event ∈ db.events ∧ db.effective event = true := by
  obtain ⟨hmem, hkeep⟩ := List.mem_filter.1 h
  rw [Bool.and_eq_true] at hkeep
  exact ⟨hmem, hkeep.1⟩

theorem StoppedByView.byEvent {db : Suppression.Database} {routes : ContactRoutes} {row : EnrollmentRow}
    (h : StoppedByView db routes row) : StoppedByEvent db routes row := by
  obtain ⟨marker, hmarker, hfinalized, event, hevent, hid, hemail, hcovers⟩ := h
  obtain ⟨hmem, heffective⟩ := mem_effectiveSuppressions hevent
  exact ⟨marker, hmarker, hfinalized, event, hmem, hid, heffective, hemail, hcovers⟩

variable {db : Suppression.Database} {routes : ContactRoutes} {t t' : SequenceTables} {limit : Int}

/-- The query names the live enrollments a shown and marked event stops. -/
theorem mem_outstanding {id : Uuid} :
    (∃ owed ∈ outstandingSuppressionStops db routes t, owed.enrollmentId = id) ↔
      ∃ row ∈ t.enrollments, row.id = id ∧ row.endedAt = none ∧ StoppedByView db routes row := by
  simp only [outstandingSuppressionStops, List.mem_flatMap, List.mem_map, List.mem_filter,
    Bool.and_eq_true, decide_eq_true_eq, Option.isNone_iff_eq_none]
  constructor
  · rintro ⟨owed, ⟨marker, ⟨hmarker, hfinalized⟩, event, ⟨hevent, hid, hemail⟩, row,
      ⟨hrow, hlive, hcovers⟩, rfl⟩, rfl⟩
    exact ⟨row, hrow, rfl, hlive, marker, hmarker, hfinalized, event, hevent, hid, hemail, hcovers⟩
  · rintro ⟨row, hrow, rfl, hlive, marker, hmarker, hfinalized, event, hevent, hid, hemail, hcovers⟩
    exact ⟨_, ⟨marker, ⟨hmarker, hfinalized⟩, event, ⟨hevent, hid, hemail⟩, row,
      ⟨hrow, hlive, hcovers⟩, rfl⟩, rfl⟩

/-- What one call does: it ends enrollments a shown event stops, one at least if there are any. -/
structure Call (db : Suppression.Database) (routes : ContactRoutes) (t t' : SequenceTables)
    (report : SuppressionStopReport) : Prop where
  stopsOnly : StopsOnly (fun id => ∃ row ∈ t.enrollments, row.id = id ∧
    StoppedByView db routes row) t t'
  progress : report.markersConsumed ≠ 0 →
    ∃ row ∈ t.enrollments, row.endedAt = none ∧ Ended t' row.id
  finished : report.markersConsumed = 0 →
    t' = t ∧ ∀ row ∈ t.enrollments, row.endedAt = none → ¬ StoppedByView db routes row

theorem consumeSuppressionStops_call (hlimit : 0 < limit) {now : Instant}
    {report : SuppressionStopReport}
    (h : consumeSuppressionStops db routes limit now t = some (report, t')) :
    Call db routes t t' report := by
  have hnonneg : ¬ limit < 0 := by omega
  rw [consumeSuppressionStops, if_neg hnonneg] at h
  generalize hrows : ((outstandingSuppressionStops db routes t).insertionSort
    fun a b => a.before b).take limit.toNat = rows at h
  have hmem : ∀ owed ∈ rows, owed ∈ outstandingSuppressionStops db routes t := by
    intro owed howed
    rw [← hrows] at howed
    exact (List.mem_insertionSort _).1 (List.mem_of_mem_take howed)
  have hreport : report.markersConsumed = (rows.map OwedStop.eventId).eraseDups.length ∧
      t' = (stopOwed now rows t).1 := by
    cases h
    exact ⟨rfl, rfl⟩
  obtain ⟨hcount, rfl⟩ := hreport
  have hnone : report.markersConsumed = 0 ↔ rows = [] := by
    rw [hcount, List.length_eq_zero_iff]
    cases rows with
    | nil => simp
    | cons owed rest => simp [List.eraseDups_cons]
  refine ⟨?_, ?_, ?_⟩
  · apply (stopOwed_stopsOnly now rows t).mono
    rintro id ⟨owed, howed, rfl⟩
    obtain ⟨row, hrow, hid, -, hstopped⟩ := mem_outstanding.1 ⟨owed, hmem owed howed, rfl⟩
    exact ⟨row, hrow, hid, hstopped⟩
  · intro hsome
    obtain ⟨owed, howed⟩ := List.exists_mem_of_ne_nil rows fun hnil => hsome (hnone.2 hnil)
    obtain ⟨row, hrow, hid, hlive, -⟩ := mem_outstanding.1 ⟨owed, hmem owed howed, rfl⟩
    refine ⟨row, hrow, hlive, ?_⟩
    rw [hid]
    apply stopOwed_ends now howed
    rw [Table.find?_eq_some.2 ⟨hrow, hid⟩]
    rfl
  · intro hzero
    have hempty := hnone.1 hzero
    refine ⟨by rw [hempty]; rfl, ?_⟩
    intro row hrow hlive hstopped
    obtain ⟨owed, howed, -⟩ := mem_outstanding.2 ⟨row, hrow, rfl, hlive, hstopped⟩
    have hsorted : owed ∈ (outstandingSuppressionStops db routes t).insertionSort
        fun a b => a.before b := (List.mem_insertionSort _).2 howed
    rw [hempty, List.take_eq_nil_iff] at hrows
    rcases hrows with hzero' | hnil
    · omega
    · rw [hnil] at hsorted
      cases hsorted

theorem Swept.stopsOnly (hlimit : 0 < limit) (h : Swept db routes limit t t') :
    StopsOnly (fun _ => True) t t' := by
  induction h with
  | done h hnothing =>
    exact (consumeSuppressionStops_call hlimit h).stopsOnly.mono fun _ _ => trivial
  | again h hsome hrest ih =>
    exact ((consumeSuppressionStops_call hlimit h).stopsOnly.mono fun _ _ => trivial).trans ih

/-- Run until it finds nothing, the sweep ends the live enrollments a shown and marked event
stops, and no others. -/
theorem Swept.ended_iff (hlimit : 0 < limit) (h : Swept db routes limit t t')
    {row : EnrollmentRow} (hrow : row ∈ t.enrollments) (hlive : row.endedAt = none) :
    Ended t' row.id ↔ StoppedByView db routes row := by
  induction h with
  | @done t t' now report h hnothing =>
    obtain ⟨rfl, hfinished⟩ := (consumeSuppressionStops_call hlimit h).finished hnothing
    constructor
    · rintro ⟨found, hfound, hended⟩
      rw [Table.find?_eq_some.2 ⟨hrow, rfl⟩] at hfound
      cases hfound
      rw [hlive] at hended
      cases hended
    · exact fun hstopped => absurd hstopped (hfinished row hrow hlive)
  | @again t t' t'' now report h hsome hrest ih =>
    have hcall := consumeSuppressionStops_call hlimit h
    rcases hcall.stopsOnly row.id with hsame | ⟨old, reason, now', hold, -, hstopped, hended⟩
    · apply ih
      rw [Table.find?_eq_some.2 ⟨hrow, rfl⟩, Table.find?_eq_some] at hsame
      exact hsame.1
    · obtain ⟨found, hfound, hid, hstopped⟩ := hstopped
      have heq : found = row := Table.eq_of_key_eq hfound hrow hid
      constructor
      · exact fun _ => heq ▸ hstopped
      · intro _
        have hcontinues : Continues t' t'' := (hrest.stopsOnly hlimit).continues
        exact hcontinues.ended row.id ⟨_, hended, rfl⟩

/-- The live enrollments, the measure the sweep uses up. -/
def liveEnrollments (t : SequenceTables) : Finset EnrollmentRow :=
  (t.enrollments.rows.filter fun row => row.endedAt.isNone).toFinset

theorem mem_liveEnrollments {row : EnrollmentRow} :
    row ∈ liveEnrollments t ↔ row ∈ t.enrollments ∧ row.endedAt = none := by
  simp only [liveEnrollments, List.mem_toFinset, List.mem_filter, Option.isNone_iff_eq_none]
  exact Iff.rfl

theorem Call.fewer {report : SuppressionStopReport} (h : Call db routes t t' report)
    (hsome : report.markersConsumed ≠ 0) :
    (liveEnrollments t').card < (liveEnrollments t).card := by
  obtain ⟨row, hrow, hlive, ended, hended, hat⟩ := h.progress hsome
  apply Finset.card_lt_card
  rw [Finset.ssubset_iff_of_subset]
  · refine ⟨row, mem_liveEnrollments.2 ⟨hrow, hlive⟩, fun hstill => ?_⟩
    obtain ⟨hmem, -⟩ := mem_liveEnrollments.1 hstill
    rw [Table.find?_eq_some.2 ⟨hmem, rfl⟩] at hended
    cases hended
    rw [hlive] at hat
    cases hat
  · intro other hother
    obtain ⟨hmem, hnone⟩ := mem_liveEnrollments.1 hother
    exact mem_liveEnrollments.2 ⟨h.stopsOnly.live hmem hnone, hnone⟩

/-- The sweep comes to an end. -/
theorem exists_swept (hlimit : 0 < limit) (db : Suppression.Database) (routes : ContactRoutes)
    (t : SequenceTables) : ∃ t', Swept db routes limit t t' := by
  induction hn : (liveEnrollments t).card using Nat.strong_induction_on generalizing t with
  | _ n ih =>
    have hnonneg : ¬ limit < 0 := by omega
    obtain ⟨report, t₁, hcall⟩ : ∃ report t₁,
        consumeSuppressionStops db routes limit 0 t = some (report, t₁) :=
      ⟨_, _, by rw [consumeSuppressionStops, if_neg hnonneg]⟩
    by_cases hsome : report.markersConsumed = 0
    · exact ⟨t₁, .done hcall hsome⟩
    · have hfewer := (consumeSuppressionStops_call hlimit hcall).fewer hsome
      obtain ⟨t', hswept⟩ := ih _ (hn ▸ hfewer) t₁ rfl
      exact ⟨t', .again hcall hsome hswept⟩

/-! ## What is ended -/

/-- No enrollment a marked event covers lives on, and none else was ended. -/
def SweepEnds (db : Suppression.Database) (routes : ContactRoutes) (t t' : SequenceTables) : Prop :=
  (∀ row ∈ t'.enrollments, row.endedAt = none → ¬ StoppedByEvent db routes row) ∧
  ∀ row ∈ t.enrollments, row.endedAt = none → Ended t' row.id → StoppedByEvent db routes row

/-- The sweep comes to an end, and wherever it does it has ended what every marked event
covers, and nothing else, exactly when each live enrollment that a marked event covers is
covered by a marked event the view shows. -/
theorem sweepEnds_iff (db : Suppression.Database) (routes : ContactRoutes) (t : SequenceTables) (limit : Int)
    (hlimit : 0 < limit) :
    (∃ t', Swept db routes limit t t') ∧
    ∀ t', Swept db routes limit t t' → (SweepEnds db routes t t' ↔
      ∀ row ∈ t.enrollments, row.endedAt = none → StoppedByEvent db routes row →
        StoppedByView db routes row) := by
  refine ⟨exists_swept hlimit db routes t, fun t' hswept => ?_⟩
  have honly := hswept.stopsOnly hlimit
  constructor
  · rintro ⟨hall, -⟩ row hrow hlive hstopped
    rw [← hswept.ended_iff hlimit hrow hlive]
    rcases honly row.id with hsame | ⟨old, reason, now, -, -, -, hended⟩
    · rw [Table.find?_eq_some.2 ⟨hrow, rfl⟩, Table.find?_eq_some] at hsame
      exact absurd hstopped (hall row hsame.1 hlive)
    · exact ⟨_, hended, rfl⟩
  · intro hshown
    constructor
    · intro row hrow hlive hstopped
      have hold := honly.live hrow hlive
      obtain ⟨ended, hended, hat⟩ := (hswept.ended_iff hlimit hold hlive).2
        (hshown row hold hlive hstopped)
      rw [Table.find?_eq_some.2 ⟨hrow, rfl⟩] at hended
      cases hended
      rw [hlive] at hat
      cases hat
    · intro row hrow hlive hended
      exact ((hswept.ended_iff hlimit hrow hlive).1 hended).byEvent

/-! ## A prospect's request behind a manual stop -/

/-- The workspace of a manual stop and of the same prospect's own request. -/
def askedWorkspace : Workspace where
  id := hashedWorkspace.id
  platform := asciiPlatform
    [(List.intercalate [0] [hashedWorkspace.id, js "firm", mergedFirm.text,
        js "salesperson_manual", js "record-1", []],
      js "17915b024b7a15143786cd7df56af1fc8aaa2b2159726ed97de612cc194e38c1"),
     (List.intercalate [0] [hashedWorkspace.id, js "firm", mergedFirm.text,
        js "prospect_opt_out", js "record-2", []],
      js "003d3b99486e79d76f5e6bcfe9a85219e68a0e213c180b36eb72abb86ecae312")]

private theorem prospectOptOut_notSupersession :
    SuppressionSource.supersession .prospectOptOut = false := rfl

def prospectRequest : RecordSuppressionInput :=
  { manualStop with
    source := .prospectOptOut, notSupersession := prospectOptOut_notSupersession, commandId := some (js "record-2") }

/-- A salesperson stops a firm by hand; a millisecond later the prospect asks for it. -/
def askedAfterStop : List Transaction :=
  [committed 0 (.recordSuppression manualStop), committed 1 (.recordSuppression prospectRequest)]

def enrolledThere : SequenceTables :=
  ⟨⟨[{ id := js "e1", sequenceVersionId := js "v", opportunityId := none
       firmId := mergedFirm.text, contactId := js "c1", assignedUserId := owningUserId
       originKind := .prospecting, outreachPlanId := none, state := .active, startedAt := 0
       endedAt := none, endReason := none }], by decide +kernel⟩, .empty⟩

def noRoutes : ContactRoutes := ⟨[], []⟩

/-- The prospect's request alone ends the enrollment at the firm. -/
theorem sweepEnds_iff_asked :
    ∃ t', Swept (World.after askedWorkspace twoFirms (askedAfterStop.drop 1)).db noRoutes 200
        enrolledThere t' ∧
      SweepEnds (World.after askedWorkspace twoFirms (askedAfterStop.drop 1)).db noRoutes
        enrolledThere t' := by
  obtain ⟨⟨t', hswept⟩, hiff⟩ := sweepEnds_iff
    (World.after askedWorkspace twoFirms (askedAfterStop.drop 1)).db noRoutes enrolledThere 200
    (by decide)
  refine ⟨t', hswept, (hiff t' hswept).2 ?_⟩
  have hshown : ∀ row ∈ enrolledThere.enrollments.rows, StoppedByView
      (World.after askedWorkspace twoFirms (askedAfterStop.drop 1)).db noRoutes row := by
    decide +kernel
  exact fun row hrow _ _ => hshown row hrow

/-- Behind the manual stop, which no marker makes final yet, the request ends nothing. -/
theorem sweepEnds_fails :
    ¬ ∀ (w : Workspace) (firms : Firms) (history : List Transaction) (routes : ContactRoutes)
        (t t' : SequenceTables), Swept (World.after w firms history).db routes 200 t t' →
      SweepEnds (World.after w firms history).db routes t t' := by
  intro hall
  have hlimit : (0 : Int) < 200 := by decide
  obtain ⟨t', hswept⟩ := exists_swept hlimit
    (World.after askedWorkspace twoFirms askedAfterStop).db noRoutes enrolledThere
  obtain ⟨hkept, -⟩ := hall _ _ _ _ _ _ hswept
  have hhidden : ∃ row ∈ enrolledThere.enrollments.rows, row.endedAt = none ∧
      StoppedByEvent (World.after askedWorkspace twoFirms askedAfterStop).db noRoutes row ∧
      ¬ StoppedByView (World.after askedWorkspace twoFirms askedAfterStop).db noRoutes row := by
    decide +kernel
  obtain ⟨row, hrow, hlive, hmarked, hunseen⟩ := hhidden
  rcases hswept.stopsOnly hlimit row.id with hsame | ⟨old, reason, now, -, -, -, hended⟩
  · rw [Table.find?_eq_some.2 ⟨hrow, rfl⟩, Table.find?_eq_some] at hsame
    exact hkept row hsame.1 hlive hmarked
  · exact hunseen ((hswept.ended_iff hlimit hrow hlive).1 ⟨_, hended, rfl⟩)

end FoundingSales.Sequences
