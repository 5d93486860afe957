import FoundingSales.Library.Keysets
import FoundingSales.Library.Runs
import FoundingSales.Sequences.Enrollments

/-!
The outbox of terminal stops and its drain, a statement at a time. A transaction that emits
a stop event, and every drain, takes the exclusive send gate first and holds it to its end;
what it writes the others see when it commits. Other kinds of events, ends of enrollments
and writes of executions happen at any time, on rows no transaction has locked.
-/

namespace FoundingSales.Sequences

open Tables Keysets

/-- A `timestamptz` read into a JavaScript `Date`, which keeps milliseconds. -/
def throughDate (at' : Micros) : Micros := at' / 1000 * 1000

/-- `(occurred_at, id)` as PostgreSQL compares the pair; a uuid compares as its text. -/
structure StreamKey where
  occurredAt : Micros
  id : Uuid
  deriving DecidableEq

def StreamKey.le (a b : StreamKey) : Prop :=
  a.occurredAt < b.occurredAt ∨ a.occurredAt = b.occurredAt ∧ textLe a.id b.id = true

instance : LinearOrder StreamKey where
  le := StreamKey.le
  le_refl a := .inr ⟨rfl, by simpa using textLe_total a.id a.id⟩
  le_trans a b c := by
    rintro (hab | ⟨hab, htext⟩) (hbc | ⟨hbc, htext'⟩)
    · exact .inl (hab.trans hbc)
    · exact .inl (hbc ▸ hab)
    · exact .inl (hab ▸ hbc)
    · exact .inr ⟨hab.trans hbc, textLe_trans htext htext'⟩
  le_antisymm a b := by
    rintro (hab | ⟨hab, htext⟩) (hba | ⟨hba, htext'⟩)
    · exact absurd hba (lt_asymm hab)
    · exact absurd hab (by rw [hba]; exact lt_irrefl _)
    · exact absurd hba (by rw [hab]; exact lt_irrefl _)
    · cases a
      cases b
      cases hab
      cases textLe_antisymm htext htext'
      rfl
  le_total a b := by
    rcases lt_trichotomy a.occurredAt b.occurredAt with h | h | h
    · exact .inl (.inl h)
    · rcases Bool.or_eq_true_iff.1 (textLe_total a.id b.id) with htext | htext
      · exact .inl (.inr ⟨h, htext⟩)
      · exact .inr (.inr ⟨h.symm, htext⟩)
    · exact .inr (.inl h)
  toDecidableLE a b := by
    unfold LE.le StreamKey.le
    infer_instance

theorem StreamKey.lt_of_occurredAt {a b : StreamKey} (h : a.occurredAt < b.occurredAt) : a < b := by
  refine lt_of_le_of_ne (.inl h) ?_
  rintro rfl
  exact lt_irrefl _ h

/-! ## The tables -/

inductive CrmDomainEventKind
  | terminalStop | manualMode | reopened | firmReassigned | firmMerged | contactMerged
  | routeRetired
  deriving DecidableEq

def terminalStopEventKinds : List CrmDomainEventKind := [.terminalStop, .manualMode]

/-- A row of `crm_domain_events`; `origin` is the one in its detail. -/
structure DomainEvent where
  id : Uuid
  eventKind : CrmDomainEventKind
  firmId : Uuid
  opportunityId : Option Uuid
  dedupeKey : JsString
  origin : Option JsString
  occurredAt : Micros
  owedEnrollmentIds : Option (List Uuid)
  deriving DecidableEq

def DomainEvent.key (event : DomainEvent) : StreamKey := ⟨event.occurredAt, event.id⟩

def DomainEvent.stops (event : DomainEvent) : Bool := event.eventKind ∈ terminalStopEventKinds

/-- The events, the drain's cursor row once there is one, and the enrollments. -/
structure OutboxTables where
  events : Table DomainEvent.id
  cursor : Option (Option StreamKey)
  sequences : SequenceTables

/-- The event the cursor stands at. -/
def OutboxTables.position (t : OutboxTables) : Option StreamKey := t.cursor.join

/-- The instant of a stored position: its event's own, or else the stored one. -/
def exactPosition (t : OutboxTables) (position : StreamKey) : StreamKey :=
  ⟨((t.events.find? position.id).map DomainEvent.occurredAt).getD position.occurredAt, position.id⟩

def stopEvents (t : OutboxTables) : List DomainEvent := t.events.rows.filter DomainEvent.stops

/-- The SELECT of a drain, before its LIMIT. -/
def selectEvents (t : OutboxTables) (position : Option StreamKey) : List DomainEvent :=
  ordered DomainEvent.key <|
    (stopEvents t).filter fun event => position.all fun p => exactPosition t p < event.key

/-- The drain's UPDATE of the cursor, from the last event of its batch. -/
def advanceCursor (t : OutboxTables) (last : DomainEvent) : Option (Option StreamKey) :=
  match t.events.find? last.id with
  | none => t.cursor
  | some event =>
    t.cursor.map fun position =>
      if position.all fun p => exactPosition t p < event.key then some event.key else position

/-! ## Emitting -/

structure CrmDomainEventInput where
  kind : CrmDomainEventKind
  firmId : Uuid
  opportunityId : Option Uuid
  dedupeKey : JsString
  origin : Option JsString
  owedOriginKinds : Option (List EnrollmentOriginKind)

/-- `owed_enrollment_ids` as the INSERT computes it. -/
def owedEnrollmentIds (t : SequenceTables) (event : CrmDomainEventInput) : Option (List Uuid) :=
  match event.kind with
  | .manualMode =>
    some (((t.enrollments.rows.filter fun row =>
      row.firmId = event.firmId && row.endedAt.isNone
        && event.owedOriginKinds.all (row.originKind ∈ ·)).map EnrollmentRow.id).insertionSort
          fun a b => textLe a b)
  | .terminalStop =>
    some (((t.enrollments.rows.filter fun row =>
      row.opportunityId.isSome && row.opportunityId = event.opportunityId
        && row.endedAt.isNone).map EnrollmentRow.id).insertionSort fun a b => textLe a b)
  | _ => none

/-- The row the INSERT adds, unless one with the same kind and dedupe key is there. -/
def emitCrmDomainEvent (t : OutboxTables) (event : CrmDomainEventInput) (id : Uuid)
    (clock : Micros) : Option DomainEvent :=
  if t.events.rows.any fun row => row.eventKind = event.kind && row.dedupeKey = event.dedupeKey then
    none
  else some
    { id, eventKind := event.kind, firmId := event.firmId, opportunityId := event.opportunityId
      dedupeKey := event.dedupeKey, origin := event.origin, occurredAt := clock
      owedEnrollmentIds := owedEnrollmentIds t.sequences event }

/-! ## End reasons -/

inductive OpportunityStatus
  | open' | won | lost
  deriving DecidableEq

def manualModeEndReasons : List (JsString × EnrollmentEndReason) :=
  [(js "human_reply", .humanReply), (js "engaged_call", .engagedCall),
   (js "direct_send", .directSend), (js "salesperson_command", .adminStop),
   (js "direct_send_keep_automation", .directSend)]

/-- An absent or unknown origin reads as a reply. -/
def manualModeEndReason (origin : Option JsString) : EnrollmentEndReason :=
  ((manualModeEndReasons.find? fun entry => origin = some entry.1).map Prod.snd).getD .humanReply

def endReasonFor (statuses : Uuid → Option OpportunityStatus) (opportunityId : Option Uuid) :
    EnrollmentEndReason :=
  match opportunityId.bind statuses with
  | some .won => .stageWon
  | some .lost => .stageLost
  | _ => .adminStop

def stopReason (statuses : Uuid → Option OpportunityStatus) (event : DomainEvent) :
    EnrollmentEndReason :=
  if event.eventKind = .manualMode then manualModeEndReason event.origin
  else endReasonFor statuses event.opportunityId

/-! ## Transactions -/

inductive SequenceWrite
  | enroll (row : EnrollmentRow) (execution : StepExecutionRow)
  | stop (stop : TerminalStop)

/-- An enrollment is inserted live, with its first execution. -/
def SequenceWrite.write : SequenceWrite → SequenceTables → SequenceTables
  | .enroll row execution, t =>
    { enrollments := (t.enrollments.insert?
        { row with state := .active, endedAt := none, endReason := none }).getD t.enrollments
      executions := (t.executions.insert? execution).getD t.executions }
  | .stop ended, t => ended.write t

/-- Where a drain stands. A batch is kept with what is left of it. -/
inductive DrainPhase
  | opened
  | reading (position : Option StreamKey)
  | stopping (batch rest : List DomainEvent)
  | returned (batch : List DomainEvent)

inductive SessionTask
  | emitter
  | drain (limit : Int) (phase : DrainPhase)

/-- A transaction in progress, with what it has written so far. -/
structure StopSession where
  emitted : List DomainEvent
  cursor : Option (Option StreamKey)
  writes : List SequenceWrite
  task : SessionTask

/-- The tables as the transaction sees them. -/
def StopSession.view (s : StopSession) (t : OutboxTables) : OutboxTables where
  events := s.emitted.foldl (fun events event => events.upsert event) t.events
  cursor := s.cursor.or t.cursor
  sequences := s.writes.foldl (fun sequences w => w.write sequences) t.sequences

/-- The rows the transaction has locked. -/
def StopSession.locks (s : StopSession) (id : Uuid) : Bool :=
  s.writes.any fun
    | .enroll row execution => row.id = id || execution.id = id
    | .stop ended => id ∈ ended.enrollmentIds || id ∈ ended.executionIds

/-- The committed tables, the transactions in progress, who holds the send gate, and the
batches of the committed drains, in order. -/
structure OutboxWorld where
  tables : OutboxTables
  sessions : Nat → Option StopSession
  gate : Option Nat
  consumed : List (List DomainEvent)

/-- What other transactions commit, none of it under the gate. -/
inductive OtherChange
  | event (event : DomainEvent)
  | endEnrollment (id : Uuid) (state : EnrollmentState) (reason : EnrollmentEndReason) (now : Instant)
  | execution (row : StepExecutionRow)

inductive OutboxInput
  | begin (p : Nat) (drainLimit : Option Int)
  | lockSendGate (p : Nat)
  | emit (p : Nat) (event : CrmDomainEventInput) (id : Uuid) (clock : Micros)
  | stop (p : Nat) (input : StopEnrollmentsInput) (now : Instant)
  | enroll (p : Nat) (row : EnrollmentRow) (execution : StepExecutionRow)
  | drain (p : Nat) (statuses : Uuid → Option OpportunityStatus) (now : Instant)
  | commit (p : Nat)
  | rollback (p : Nat)
  | elsewhere (change : OtherChange)

namespace OutboxWorld

def idle (sequences : SequenceTables) : OutboxWorld :=
  ⟨⟨.empty, none, sequences⟩, fun _ => none, none, []⟩

def setSession (w : OutboxWorld) (p : Nat) (s : Option StopSession) : OutboxWorld :=
  { w with sessions := Function.update w.sessions p s }

/-- The session of `p`, if it is past the gate. -/
def holding (w : OutboxWorld) (p : Nat) : Option StopSession :=
  if w.gate = some p then w.sessions p else none

/-- The transaction of `p` ends, and with it its lock on the gate. -/
def close (w : OutboxWorld) (p : Nat) : OutboxWorld :=
  { w.setSession p none with gate := if w.gate = some p then none else w.gate }

def locked (w : OutboxWorld) (id : Uuid) : Bool :=
  ((w.gate.bind w.sessions).map fun s => s.locks id).getD false

/-- The ids of events no other transaction may insert. -/
def emitting (w : OutboxWorld) (id : Uuid) : Bool :=
  ((w.gate.bind w.sessions).map fun s => s.emitted.any fun event => event.id = id).getD false

end OutboxWorld

/-- The stop a drain owes for one event; one with no recorded set is only flagged. -/
def owedStop (t : SequenceTables) (statuses : Uuid → Option OpportunityStatus) (now : Instant)
    (event : DomainEvent) : List SequenceWrite :=
  match event.owedEnrollmentIds with
  | none => []
  | some ids =>
    [.stop (lockStop t
      ⟨none, none, none, some ids, stopReason statuses event, some (js "terminal_stop")⟩ now)]

/-- The next statement of `consumeTerminalStops`; `none` when it raises. -/
def drainStep (t : OutboxTables) (s : StopSession) (limit : Int)
    (statuses : Uuid → Option OpportunityStatus) (now : Instant) :
    DrainPhase → Option StopSession
  -- the cursor row is there and locked, and read through a `Date`
  | .opened =>
    some { s with
      cursor := some (s.view t).position
      task := .drain limit (.reading ((s.view t).position.map fun p =>
        ⟨throughDate p.occurredAt, p.id⟩)) }
  -- PostgreSQL refuses a negative LIMIT
  | .reading position =>
    if limit < 0 then none
    else
      let batch := (selectEvents (s.view t) position).take limit.toNat
      some { s with
        task := .drain limit (if batch.isEmpty then .returned [] else .stopping batch batch) }
  | .stopping batch (event :: rest) =>
    some { s with
      writes := s.writes ++ owedStop (s.view t).sequences statuses now event
      task := .drain limit (.stopping batch rest) }
  | .stopping batch [] =>
    some { s with
      cursor := (batch.getLast?.map (advanceCursor (s.view t))).getD s.cursor
      task := .drain limit (.returned batch) }
  | .returned _ => some s

/-- Statements that only a transaction past the gate, and not in the middle of a drain, runs. -/
def StopSession.free (s : StopSession) : Bool :=
  match s.task with
  | .emitter => true
  | .drain _ (.returned _) => true
  | .drain _ _ => false

def StopSession.emits (s : StopSession) : Bool :=
  match s.task with
  | .emitter => true
  | .drain _ _ => false

def StopSession.batch (s : StopSession) : List (List DomainEvent) :=
  match s.task with
  | .drain _ (.returned batch) => [batch]
  | _ => []

/-- What another transaction's commit makes of the tables. -/
def OtherChange.apply (w : OutboxWorld) : OtherChange → OutboxTables
  | .event row =>
    if row.stops || w.emitting row.id then w.tables
    else { w.tables with events := (w.tables.events.insert? row).getD w.tables.events }
  | .endEnrollment id state reason now =>
    if w.locked id then w.tables
    else { w.tables with
      sequences.enrollments := w.tables.sequences.enrollments.update
        (fun row => row.id = id && row.endedAt.isNone) (fun row => row.finish state reason now)
        fun _ => rfl }
  | .execution row =>
    if w.locked row.id then w.tables
    else { w.tables with sequences.executions := w.tables.sequences.executions.upsert row }

/-- What one input makes of the world. A statement that has to wait changes nothing. -/
def OutboxWorld.step (w : OutboxWorld) : OutboxInput → OutboxWorld
  | .begin p drainLimit =>
    match w.sessions p with
    | some _ => w
    | none => w.setSession p (some
        ⟨[], none, [], (drainLimit.map fun limit => .drain limit .opened).getD .emitter⟩)
  | .lockSendGate p =>
    if w.gate = none ∧ (w.sessions p).isSome then { w with gate := some p } else w
  | .emit p event id clock =>
    match w.holding p with
    | some s =>
      if s.emits then
        match emitCrmDomainEvent (s.view w.tables) event id clock with
        | none => w
        | some row =>
          -- a taken id raises, which rolls the transaction back
          if ((s.view w.tables).events.find? id).isSome then w.close p
          else w.setSession p (some { s with emitted := s.emitted ++ [row] })
      else w
    | none => w
  | .stop p input now =>
    match w.holding p with
    | some s =>
      if s.free && input.names then
        w.setSession p (some { s with
          writes := s.writes ++ [.stop (lockStop (s.view w.tables).sequences input now)] })
      else w
    | none => w
  | .enroll p row execution =>
    match w.holding p with
    | some s =>
      if s.emits && ((s.view w.tables).sequences.enrollments.find? row.id).isNone
          && ((s.view w.tables).sequences.executions.find? execution.id).isNone then
        w.setSession p (some { s with writes := s.writes ++ [.enroll row execution] })
      else w
    | none => w
  | .drain p statuses now =>
    match w.holding p with
    | some s =>
      match s.task with
      | .drain limit phase =>
        match drainStep w.tables s limit statuses now phase with
        | some s' => w.setSession p (some s')
        | none => w.close p
      | .emitter => w
    | none => w
  | .commit p =>
    match w.holding p with
    | some s =>
      if s.free then
        { w.close p with tables := s.view w.tables, consumed := w.consumed ++ s.batch }
      else w
    | none => w.close p
  | .rollback p => w.close p
  | .elsewhere change => { w with tables := change.apply w }

/-- A stop event is stamped later than every committed one, since its transaction holds the
gate; instants of one transaction may be equal. -/
def OutboxWorld.Stamped (w : OutboxWorld) : OutboxInput → Prop
  | .emit p event _ clock =>
    w.gate = some p → event.kind ∈ terminalStopEventKinds →
      ∀ row ∈ w.tables.events.rows, row.stops = true → row.occurredAt < clock
  | _ => True

instance (w : OutboxWorld) (i : OutboxInput) : Decidable (w.Stamped i) := by
  unfold OutboxWorld.Stamped
  split
  · infer_instance
  · infer_instance

end FoundingSales.Sequences
