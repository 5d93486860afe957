import FoundingSales.Sequences.TerminalStops

/-!
What the drains have consumed is what the cursor has passed. The transaction past the gate
is the only one that moves the cursor or adds a stop event, so what it has read is still
the whole stream when it commits, and what it adds is past everything committed.

Proved here:
* `selectEvents_eq`: the cursor's own event gives its exact instant back, and the drain
  reads the first of the unread events;
* `Drained.step`: the invariant, one input at a time;
* `consumedOnce`: over every run, each stop event is consumed once, in order, or still to
  come, and what it owed is ended.
-/

namespace FoundingSales.Sequences

open Tables Keysets Runs

/-! ## What a transaction writes -/

theorem find?_insert_getD {ρ κ : Type} {key : ρ → κ} [DecidableEq κ] (t : Table key) (r : ρ)
    (k : κ) :
    ((t.insert? r).getD t).find? k = (t.find? k).or (if k = key r then some r else none) := by
  cases hinsert : t.insert? r with
  | none =>
    obtain ⟨y, hy, hyk⟩ := Table.insert?_eq_none hinsert
    by_cases hk : k = key r
    · have hfound : t.find? k = some y := Table.find?_eq_some.2 ⟨hy, hyk.trans hk.symm⟩
      simp [hfound]
    · simp [hk]
  | some t' =>
    by_cases hk : k = key r
    · have hnone := (Table.insert?_eq_some hinsert).1
      subst hk
      simp [hnone, Table.find?_insert?_self hinsert]
    · simp [hk, Table.find?_insert?_ne hinsert hk]

theorem SequenceWrite.find?_enroll (row : EnrollmentRow) (execution : StepExecutionRow)
    (t : SequenceTables) (id : Uuid) :
    ((SequenceWrite.enroll row execution).write t).enrollments.find? id
      = (t.enrollments.find? id).or (if id = row.id then
          some { row with state := .active, endedAt := none, endReason := none } else none) :=
  find?_insert_getD _ _ _

theorem SequenceWrite.continues (w : SequenceWrite) (t : SequenceTables) :
    Continues t (w.write t) := by
  cases w with
  | stop ended => exact ended.continues t
  | enroll row execution =>
    constructor
    · intro id h
      obtain ⟨found, hfound⟩ := Option.isSome_iff_exists.1 h
      rw [find?_enroll, hfound]
      rfl
    · rintro id ⟨found, hfound, hended⟩
      exact ⟨found, by rw [find?_enroll, hfound]; rfl, hended⟩

/-- The same write, over tables that have gone on, leaves tables that have gone on. -/
theorem SequenceWrite.mono (w : SequenceWrite) {a b : SequenceTables} (h : Continues a b) :
    Continues (w.write a) (w.write b) := by
  cases w with
  | stop ended =>
    constructor
    · intro id hid
      have hsame := ended.find?_write a id
      show ((ended.write b).enrollments.find? id).isSome
      rw [ended.find?_write, Option.isSome_map]
      apply h.present
      have hid' : ((ended.write a).enrollments.find? id).isSome := hid
      rwa [hsame, Option.isSome_map] at hid'
    · rintro id ⟨row, hrow, hended⟩
      have hsame : (ended.write a).enrollments.find? id = some row := hrow
      rw [ended.find?_write, Option.map_eq_some_iff] at hsame
      obtain ⟨old, hold, hset⟩ := hsame
      have hpresent := h.present id (by rw [hold]; rfl)
      by_cases hlocked : id ∈ ended.enrollmentIds
      · exact TerminalStop.ends hlocked hpresent
      · have hid : old.id = id := Table.find?_key hold
        rw [if_neg (by simp [hid, hlocked])] at hset
        exact (ended.continues b).ended id (h.ended id ⟨old, hold, hset ▸ hended⟩)
  | enroll row execution =>
    constructor
    · intro id hid
      rw [find?_enroll, Option.isSome_or, Bool.or_eq_true] at hid ⊢
      exact hid.imp_left (h.present id)
    · rintro id ⟨found, hfound, hended⟩
      rw [find?_enroll, Option.or_eq_some_iff] at hfound
      rcases hfound with hfound | ⟨-, hfound⟩
      · exact (continues (.enroll row execution) b).ended id (h.ended id ⟨found, hfound, hended⟩)
      · split at hfound
        · cases hfound
          cases hended
        · cases hfound

theorem continues_writes (writes : List SequenceWrite) (t : SequenceTables) :
    Continues t (writes.foldl (fun t w => w.write t) t) := by
  induction writes generalizing t with
  | nil => exact Continues.refl t
  | cons w writes ih => exact (w.continues t).trans (ih (w.write t))

theorem mono_writes (writes : List SequenceWrite) {a b : SequenceTables} (h : Continues a b) :
    Continues (writes.foldl (fun t w => w.write t) a) (writes.foldl (fun t w => w.write t) b) := by
  induction writes generalizing a b with
  | nil => exact h
  | cons w writes ih => exact ih (w.mono h)

theorem StopSession.view_append (s : StopSession) (t : OutboxTables) (writes : List SequenceWrite)
    (cursor : Option (Option StreamKey)) (task : SessionTask) :
    (StopSession.view ⟨s.emitted, cursor, s.writes ++ writes, task⟩ t).sequences
      = writes.foldl (fun t w => w.write t) (s.view t).sequences :=
  List.foldl_append

/-- The events a transaction sees are the committed ones and its own. -/
private theorem mem_upserts {emitted : List DomainEvent} (t : Table DomainEvent.id)
    (hnodup : (emitted.map DomainEvent.id).Nodup)
    (hfresh : ∀ e ∈ emitted, t.find? e.id = none) (event : DomainEvent) :
    event ∈ emitted.foldl (fun events e => events.upsert e) t ↔ event ∈ t ∨ event ∈ emitted := by
  induction emitted generalizing t with
  | nil => simp
  | cons e emitted ih =>
    rw [List.map_cons, List.nodup_cons] at hnodup
    have hne : ∀ e' ∈ emitted, e'.id ≠ e.id := fun e' he' h =>
      hnodup.1 (h ▸ List.mem_map_of_mem he')
    rw [List.foldl_cons, ih _ hnodup.2, Table.mem_upsert, List.mem_cons]
    · have hkey : event ∈ t → event.id ≠ e.id := fun hevent h =>
        Table.find?_eq_none.1 (hfresh e List.mem_cons_self) event hevent h
      constructor
      · rintro ((rfl | ⟨hevent, -⟩) | hevent)
        · exact .inr (.inl rfl)
        · exact .inl hevent
        · exact .inr (.inr hevent)
      · rintro (hevent | rfl | hevent)
        · exact .inl (.inr ⟨hevent, hkey hevent⟩)
        · exact .inl (.inl rfl)
        · exact .inr hevent
    · intro e' he'
      rw [Table.find?_upsert_ne (hne e' he')]
      exact hfresh e' (List.mem_cons_of_mem _ he')

/-! ## The stream -/

variable {t : OutboxTables} {w : OutboxWorld} {s : StopSession} {p : Nat}

theorem mem_stopEvents {event : DomainEvent} :
    event ∈ stopEvents t ↔ event ∈ t.events ∧ event.stops = true := by
  rw [stopEvents, List.mem_filter, Table.mem_rows]

theorem stopEvents_nodup (t : OutboxTables) : ((stopEvents t).map DomainEvent.key).Nodup := by
  have hids : ((stopEvents t).map DomainEvent.id).Nodup :=
    (List.filter_sublist.map _).nodup t.events.nodup
  apply List.Nodup.of_map StreamKey.id
  rw [List.map_map]
  exact hids

/-- What no committed drain has consumed yet. -/
def outstanding (t : OutboxTables) : List DomainEvent :=
  unread DomainEvent.key t.position (stopEvents t)

/-- The cursor stands at a stop event. -/
def Placed (t : OutboxTables) : Prop :=
  ∀ k ∈ t.position, ∃ event ∈ stopEvents t, event.key = k

theorem exactPosition_eq {k : StreamKey} (h : ∃ event ∈ stopEvents t, event.key = k)
    (stored : Micros) : exactPosition t ⟨stored, k.id⟩ = k := by
  obtain ⟨event, hevent, rfl⟩ := h
  have hfind : t.events.find? event.id = some event :=
    Table.find?_eq_some.2 ⟨(mem_stopEvents.1 hevent).1, rfl⟩
  show (⟨((t.events.find? event.id).map _).getD stored, event.id⟩ : StreamKey) = _
  rw [hfind]
  rfl

/-- A drain's SELECT reads the outstanding events, whatever a `Date` did to the instant. -/
theorem selectEvents_eq (h : Placed t) (stored : StreamKey → Micros) :
    selectEvents t (t.position.map fun k => ⟨stored k, k.id⟩) = outstanding t := by
  have hfilter : (((stopEvents t).filter fun event =>
      (t.position.map fun k => (⟨stored k, k.id⟩ : StreamKey)).all fun k =>
        exactPosition t k < event.key).map DomainEvent.key).Nodup :=
    (List.filter_sublist.map _).nodup (stopEvents_nodup t)
  apply eq_of_ordered (ordered_lt hfilter) ((ordered_lt (stopEvents_nodup t)).filter _)
  intro event
  have hexact : ((t.position.map fun k => (⟨stored k, k.id⟩ : StreamKey)).all fun k =>
      exactPosition t k < event.key) = true ↔ Past t.position event.key := by
    cases hposition : t.position with
    | none => simp
    | some k => simp [exactPosition_eq (h k hposition)]
  rw [mem_ordered, List.mem_filter, hexact]
  exact mem_unread.symm

/-! ## The invariant -/

/-- The event recorded whom it owes a stop, and they are there. -/
def OwedPresent (t : SequenceTables) (event : DomainEvent) : Prop :=
  ∃ ids, event.owedEnrollmentIds = some ids ∧ ∀ id ∈ ids, (t.enrollments.find? id).isSome

/-- The event recorded whom it owes a stop, and they have ended. -/
def OwedEnded (t : SequenceTables) (event : DomainEvent) : Prop :=
  ∃ ids, event.owedEnrollmentIds = some ids ∧ ∀ id ∈ ids, Ended t id

theorem OwedPresent.mono {a b : SequenceTables} {event : DomainEvent} (h : OwedPresent a event)
    (hab : Continues a b) : OwedPresent b event := by
  obtain ⟨ids, hids, hpresent⟩ := h
  exact ⟨ids, hids, fun id hid => hab.present id (hpresent id hid)⟩

theorem OwedEnded.mono {a b : SequenceTables} {event : DomainEvent} (h : OwedEnded a event)
    (hab : Continues a b) : OwedEnded b event := by
  obtain ⟨ids, hids, hended⟩ := h
  exact ⟨ids, hids, fun id hid => hab.ended id (hended id hid)⟩

/-- The page a drain with that LIMIT reads. -/
def page (t : OutboxTables) (limit : Int) : List DomainEvent := (outstanding t).take limit.toNat

/-- How far a drain past the gate has come. -/
def PhaseSound (t : OutboxTables) (s : StopSession) (limit : Int) : DrainPhase → Prop
  | .opened => s.cursor = none
  | .reading position =>
    s.cursor = some t.position ∧
      position = t.position.map fun k => ⟨throughDate k.occurredAt, k.id⟩
  | .stopping batch rest =>
    s.cursor = some t.position ∧ batch = page t limit ∧ batch ≠ [] ∧
      ∃ done, batch = done ++ rest ∧ ∀ event ∈ done, OwedEnded (s.view t).sequences event
  | .returned batch =>
    s.cursor = some (advance DomainEvent.key t.position batch) ∧ batch = page t limit ∧
      ∀ event ∈ batch, OwedEnded (s.view t).sequences event

def TaskSound (t : OutboxTables) (s : StopSession) : SessionTask → Prop
  | .emitter => s.cursor = none
  | .drain limit phase => s.emitted = [] ∧ PhaseSound t s limit phase

/-- A transaction past the gate. -/
structure StopSession.Sound (t : OutboxTables) (s : StopSession) : Prop where
  nodup : (s.emitted.map DomainEvent.id).Nodup
  fresh : ∀ event ∈ s.emitted, t.events.find? event.id = none
  later : ∀ event ∈ s.emitted, event.stops = true →
    ∀ row ∈ stopEvents t, row.occurredAt < event.occurredAt
  owed : ∀ event ∈ s.emitted, event.stops = true → OwedPresent (s.view t).sequences event
  task : TaskSound t s s.task

/-- A transaction that still waits for the gate. -/
structure StopSession.Waits (s : StopSession) : Prop where
  emitted : s.emitted = []
  cursor : s.cursor = none
  writes : s.writes = []
  task : s.task = .emitter ∨ ∃ limit, s.task = .drain limit .opened

/-- What the committed drains consumed is what the cursor has passed, and is ended. -/
structure Drained (w : OutboxWorld) : Prop where
  consumed : w.consumed.flatten = read DomainEvent.key w.tables.position (stopEvents w.tables)
  placed : Placed w.tables
  owed : ∀ event ∈ stopEvents w.tables, OwedPresent w.tables.sequences event
  ended : ∀ event ∈ w.consumed.flatten, OwedEnded w.tables.sequences event
  waits : ∀ p s, w.sessions p = some s → w.gate ≠ some p → s.Waits
  holder : ∀ p, w.gate = some p → ∃ s, w.sessions p = some s ∧ s.Sound w.tables

theorem StopSession.Waits.sound (h : s.Waits) (t : OutboxTables) : s.Sound t where
  nodup := by rw [h.emitted]; exact List.nodup_nil
  fresh := by simp [h.emitted]
  later := by simp [h.emitted]
  owed := by simp [h.emitted]
  task := by
    rcases h.task with htask | ⟨limit, htask⟩
    · rw [htask]
      exact h.cursor
    · rw [htask]
      exact ⟨h.emitted, h.cursor⟩

theorem StopSession.Sound.mem_view (h : s.Sound t) (event : DomainEvent) :
    event ∈ (s.view t).events ↔ event ∈ t.events ∨ event ∈ s.emitted :=
  mem_upserts t.events h.nodup h.fresh event

theorem drained_idle (sequences : SequenceTables) : Drained (.idle sequences) where
  consumed := (read_none _).symm
  placed := by rintro k ⟨⟩
  owed := by rintro event ⟨⟩
  ended := by rintro event ⟨⟩
  waits := by rintro p s ⟨⟩
  holder := by rintro p ⟨⟩

theorem OutboxWorld.holding_eq_some (h : w.holding p = some s) :
    w.gate = some p ∧ w.sessions p = some s := by
  unfold holding at h
  split at h
  · next hgate => exact ⟨hgate, h⟩
  · cases h

theorem Drained.sound (h : Drained w) (hold : w.holding p = some s) : s.Sound w.tables := by
  obtain ⟨hgate, hs⟩ := w.holding_eq_some hold
  obtain ⟨s', hs', hsound⟩ := h.holder p hgate
  rw [hs] at hs'
  cases hs'
  exact hsound

theorem OutboxWorld.setSession_ne {q : Nat} (hq : q ≠ p) (s : Option StopSession) :
    (w.setSession p s).sessions q = w.sessions q := Function.update_of_ne hq _ _

theorem OutboxWorld.setSession_self (s : Option StopSession) :
    (w.setSession p s).sessions p = s := Function.update_self _ _ _

/-- The transaction past the gate goes on. -/
theorem Drained.setSession (h : Drained w) (hgate : w.gate = some p) (hs : s.Sound w.tables) :
    Drained (w.setSession p (some s)) where
  consumed := h.consumed
  placed := h.placed
  owed := h.owed
  ended := h.ended
  waits := by
    intro q s' hs' hq
    have hne : q ≠ p := by
      rintro rfl
      exact hq hgate
    apply h.waits q s' _ hq
    rwa [OutboxWorld.setSession_ne hne] at hs'
  holder := by
    intro q hq
    obtain rfl : q = p := Option.some.inj (hq.symm.trans hgate)
    exact ⟨s, Function.update_self _ _ _, hs⟩

/-- A transaction that ends leaves the others alone. -/
private theorem close_sessions (w : OutboxWorld) (p : Nat) :
    (∀ q s, (w.close p).sessions q = some s → q ≠ p ∧ w.sessions q = some s) ∧
    (∀ q, q ≠ p → (w.close p).sessions q = w.sessions q) ∧
    (∀ q, (w.close p).gate = some q → q ≠ p ∧ w.gate = some q) ∧
    (∀ q, q ≠ p → w.gate = some q → (w.close p).gate = some q) := by
  refine ⟨?_, ?_, ?_, ?_⟩
  · intro q s hs
    have hne : q ≠ p := by
      rintro rfl
      simp [OutboxWorld.close, OutboxWorld.setSession_self] at hs
    have hs' : (w.setSession p none).sessions q = some s := hs
    exact ⟨hne, by rwa [OutboxWorld.setSession_ne hne] at hs'⟩
  · intro q hq
    exact Function.update_of_ne hq _ _
  · intro q hq
    simp only [OutboxWorld.close] at hq
    split at hq
    · cases hq
    · next hgate =>
      have hq' : w.gate = some q := hq
      refine ⟨?_, hq'⟩
      rintro rfl
      exact hgate hq'
  · intro q hq hgate
    simp only [OutboxWorld.close]
    rw [if_neg]
    · exact hgate
    · intro hp
      exact hq (Option.some.inj (hgate.symm.trans hp))

theorem Drained.close (h : Drained w) (p : Nat) : Drained (w.close p) where
  consumed := h.consumed
  placed := h.placed
  owed := h.owed
  ended := h.ended
  waits := by
    intro q s hs hq
    obtain ⟨hsessions, -, -, hgate⟩ := close_sessions w p
    obtain ⟨hne, hs'⟩ := hsessions q s hs
    exact h.waits q s hs' fun hw => hq (hgate q hne hw)
  holder := by
    intro q hq
    obtain ⟨-, hsame, hgate, -⟩ := close_sessions w p
    obtain ⟨hne, hw⟩ := hgate q hq
    obtain ⟨s, hs, hsound⟩ := h.holder q hw
    exact ⟨s, (hsame q hne).trans hs, hsound⟩

/-! ## One input -/

/-- Writes that only end or add enrollments keep what is owed and what is ended. -/
theorem StopSession.Sound.write (h : s.Sound t) (writes : List SequenceWrite)
    (hfree : s.free = true) : StopSession.Sound t { s with writes := s.writes ++ writes } := by
  have hgrown : Continues (s.view t).sequences
      (StopSession.view { s with writes := s.writes ++ writes } t).sequences := by
    rw [s.view_append]
    exact continues_writes writes _
  refine ⟨h.nodup, h.fresh, h.later, fun event he hevent => (h.owed event he hevent).mono hgrown, ?_⟩
  have htask := h.task
  cases hs : s.task with
  | emitter =>
    rw [hs] at htask
    exact htask
  | drain limit phase =>
    cases phase with
    | returned batch =>
      rw [hs] at htask
      obtain ⟨hemitted, hcursor, hbatch, hended⟩ := htask
      exact ⟨hemitted, hcursor, hbatch, fun event he => (hended event he).mono hgrown⟩
    | opened => simp [StopSession.free, hs] at hfree
    | reading position => simp [StopSession.free, hs] at hfree
    | stopping batch rest => simp [StopSession.free, hs] at hfree

theorem emitCrmDomainEvent_spec {event : CrmDomainEventInput} {id : Uuid} {clock : Micros}
    {row : DomainEvent} (h : emitCrmDomainEvent t event id clock = some row) :
    row.id = id ∧ row.eventKind = event.kind ∧ row.occurredAt = clock ∧
      row.owedEnrollmentIds = owedEnrollmentIds t.sequences event := by
  unfold emitCrmDomainEvent at h
  split at h
  · cases h
  · cases h
    exact ⟨rfl, rfl, rfl, rfl⟩

/-- What an event owes at its emission is there. -/
theorem owedEnrollmentIds_present {t : SequenceTables} {event : CrmDomainEventInput}
    {ids : List Uuid} (h : owedEnrollmentIds t event = some ids) :
    ∀ id ∈ ids, (t.enrollments.find? id).isSome := by
  have hmem : ∀ (keep : EnrollmentRow → Bool) (id : Uuid),
      id ∈ (t.enrollments.rows.filter keep).map EnrollmentRow.id →
        (t.enrollments.find? id).isSome := by
    intro keep id hid
    obtain ⟨row, hrow, rfl⟩ := List.mem_map.1 hid
    rw [Table.find?_eq_some.2 ⟨(List.mem_filter.1 hrow).1, rfl⟩]
    rfl
  unfold owedEnrollmentIds at h
  split at h
  · cases h
    exact fun id hid => hmem _ id ((List.mem_insertionSort _).1 hid)
  · cases h
    exact fun id hid => hmem _ id ((List.mem_insertionSort _).1 hid)
  · cases h

theorem owedEnrollmentIds_of_stops {t : SequenceTables} {event : CrmDomainEventInput}
    (h : event.kind ∈ terminalStopEventKinds) : ∃ ids, owedEnrollmentIds t event = some ids := by
  simp only [terminalStopEventKinds, List.mem_cons, List.not_mem_nil, or_false] at h
  unfold owedEnrollmentIds
  rcases h with h | h
  · rw [h]
    exact ⟨_, rfl⟩
  · rw [h]
    exact ⟨_, rfl⟩

theorem StopSession.Sound.emit (h : s.Sound t) {event : CrmDomainEventInput} {id : Uuid}
    {clock : Micros} {row : DomainEvent} (hemits : s.emits = true)
    (hrow : emitCrmDomainEvent (s.view t) event id clock = some row)
    (hfree : (s.view t).events.find? id = none)
    (hstamped : event.kind ∈ terminalStopEventKinds →
      ∀ old ∈ t.events.rows, old.stops = true → old.occurredAt < clock) :
    StopSession.Sound t { s with emitted := s.emitted ++ [row] } := by
  obtain ⟨hid, hkind, hclock, howed⟩ := emitCrmDomainEvent_spec hrow
  have hother : ∀ old, old ∈ t.events ∨ old ∈ s.emitted → old.id ≠ id := fun old hold =>
    Table.find?_eq_none.1 hfree old ((h.mem_view old).2 hold)
  constructor
  · rw [List.map_append, List.nodup_append]
    refine ⟨h.nodup, List.nodup_singleton _, ?_⟩
    rintro a ha b hb rfl
    obtain ⟨old, hold, rfl⟩ := List.mem_map.1 ha
    exact hother old (.inr hold) ((List.mem_singleton.1 hb).trans hid)
  · intro e he
    rcases List.mem_append.1 he with he | he
    · exact h.fresh e he
    · rw [List.mem_singleton.1 he, hid]
      exact Table.find?_eq_none.2 fun old hold => hother old (.inl hold)
  · intro e he hstops old hold
    rcases List.mem_append.1 he with he | he
    · exact h.later e he hstops old hold
    · rw [List.mem_singleton.1 he] at hstops ⊢
      rw [hclock]
      obtain ⟨hmem, holdstops⟩ := mem_stopEvents.1 hold
      apply hstamped _ old hmem holdstops
      rw [← hkind]
      exact of_decide_eq_true hstops
  · intro e he hstops
    rcases List.mem_append.1 he with he | he
    · exact h.owed e he hstops
    · rw [List.mem_singleton.1 he] at hstops ⊢
      have hkind' : event.kind ∈ terminalStopEventKinds := hkind ▸ of_decide_eq_true hstops
      obtain ⟨ids, hids⟩ := owedEnrollmentIds_of_stops (t := (s.view t).sequences) hkind'
      exact ⟨ids, howed.trans hids, owedEnrollmentIds_present hids⟩
  · have htask := h.task
    cases hs : s.task with
    | emitter =>
      rw [hs] at htask
      exact htask
    | drain limit phase => simp [StopSession.emits, hs] at hemits

/-- One statement of a drain. -/
theorem StopSession.Sound.drain (h : s.Sound t) (hplaced : Placed t)
    (hpresent : ∀ event ∈ stopEvents t, OwedPresent t.sequences event) {limit : Int}
    {phase : DrainPhase} (htask : s.task = .drain limit phase)
    {statuses : Uuid → Option OpportunityStatus} {now : Instant} {s' : StopSession}
    (hstep : drainStep t s limit statuses now phase = some s') : s'.Sound t := by
  have hsound := h.task
  rw [htask] at hsound
  obtain ⟨hemitted, hphase⟩ := hsound
  have hevents : ∀ s'' : StopSession, s''.emitted = [] → (s''.view t).events = t.events := by
    intro s'' hs''
    simp [StopSession.view, hs'']
  -- a drain emits nothing, so only its phase is to be shown
  have hdone : ∀ cursor writes task, TaskSound t ⟨s.emitted, cursor, writes, task⟩ task →
      StopSession.Sound t ⟨s.emitted, cursor, writes, task⟩ := by
    intro cursor writes task htask'
    refine ⟨h.nodup, h.fresh, h.later, ?_, htask'⟩
    intro event he
    rw [hemitted] at he
    cases he
  cases phase with
  | opened =>
    cases hstep
    have hposition : (s.view t).position = t.position := by
      simp [OutboxTables.position, StopSession.view, show s.cursor = none from hphase]
    apply hdone
    refine ⟨hemitted, ?_, ?_⟩
    · rw [hposition]
    · rw [hposition]
  | reading position =>
    obtain ⟨hcursor, hposition⟩ := hphase
    simp only [drainStep] at hstep
    split at hstep
    · cases hstep
    · cases hstep
      have hview : ∀ k, exactPosition (s.view t) k = exactPosition t k := by
        intro k
        rw [exactPosition, exactPosition, hevents s hemitted]
      have hselect : selectEvents (s.view t) position = outstanding t := by
        rw [← selectEvents_eq hplaced fun k => throughDate k.occurredAt, hposition, selectEvents,
          selectEvents, stopEvents, stopEvents, hevents s hemitted]
        simp only [hview]
      rw [hselect]
      apply hdone
      refine ⟨hemitted, ?_⟩
      split
      · next hempty =>
        rw [List.isEmpty_iff] at hempty
        exact ⟨hcursor, hempty.symm, by simp⟩
      · next hfull =>
        refine ⟨hcursor, rfl, ?_, [], rfl, by simp⟩
        rintro hnil
        exact hfull (by rw [hnil]; rfl)
  | stopping batch rest =>
    obtain ⟨hcursor, hbatch, hne, done, hsplit, hended⟩ := hphase
    cases rest with
    | cons event rest =>
      cases hstep
      have hgrown : Continues (s.view t).sequences (StopSession.view
          ⟨s.emitted, s.cursor, s.writes ++ owedStop (s.view t).sequences statuses now event,
            .drain limit (.stopping batch rest)⟩ t).sequences := by
        rw [s.view_append]
        exact continues_writes _ _
      apply hdone
      refine ⟨hemitted, hcursor, hbatch, hne, done ++ [event], by simp [hsplit], ?_⟩
      intro e he
      rcases List.mem_append.1 he with he | he
      · exact (hended e he).mono hgrown
      · rw [List.mem_singleton.1 he]
        have hevent : event ∈ stopEvents t := by
          have hpage : event ∈ page t limit := by rw [← hbatch, hsplit]; simp
          exact (mem_unread.1 (List.mem_of_mem_take hpage)).1
        obtain ⟨ids, hids, hthere⟩ :=
          (hpresent event hevent).mono (continues_writes s.writes t.sequences)
        refine ⟨ids, hids, fun id hid => ?_⟩
        rw [s.view_append, owedStop, hids]
        exact lockStop_ends hid (hthere id hid)
    | nil =>
      cases hstep
      rw [List.append_nil] at hsplit
      obtain ⟨last, hlast⟩ := Option.isSome_iff_exists.1 (List.getLast?_isSome.2 hne)
      have hpage : last ∈ page t limit := by
        rw [← hbatch]
        exact List.mem_of_getLast? hlast
      obtain ⟨hevent, hpast⟩ := mem_unread.1 (List.mem_of_mem_take hpage)
      have hfind : (s.view t).events.find? last.id = some last := by
        rw [hevents s hemitted]
        exact Table.find?_eq_some.2 ⟨(mem_stopEvents.1 hevent).1, rfl⟩
      have hahead : (t.position.all fun k => exactPosition (s.view t) k < last.key) = true := by
        cases hposition : t.position with
        | none => rfl
        | some k =>
          have hexact : exactPosition (s.view t) k = k := by
            rw [exactPosition, hevents s hemitted]
            exact exactPosition_eq (hplaced k hposition) k.occurredAt
          rw [Option.all_some, hexact]
          exact decide_eq_true (hpast k hposition)
      have hadvance : advanceCursor (s.view t) last
          = some (advance DomainEvent.key t.position batch) := by
        have hview : (s.view t).cursor = some t.position := by
          simp [StopSession.view, hcursor]
        rw [advanceCursor, hfind, hview]
        simp only [Option.map_some]
        rw [if_pos hahead, advance, hlast]
        rfl
      apply hdone
      refine ⟨hemitted, ?_, hbatch, ?_⟩
      · rw [hlast, Option.map_some, Option.getD_some, hadvance]
      · rw [hsplit]
        exact hended
  | returned batch =>
    cases hstep
    exact h

/-- Tables that gained no stop event, and whose enrollments went on, serve as well. -/
theorem Drained.elsewhere (h : Drained w) {t : OutboxTables}
    (hstops : stopEvents t = stopEvents w.tables) (hcursor : t.cursor = w.tables.cursor)
    (hgrown : Continues w.tables.sequences t.sequences)
    (hfresh : ∀ s, (w.gate.bind w.sessions) = some s → ∀ event ∈ s.emitted,
      t.events.find? event.id = w.tables.events.find? event.id) :
    Drained { w with tables := t } := by
  have hposition : t.position = w.tables.position := by
    rw [OutboxTables.position, OutboxTables.position, hcursor]
  have hpage : ∀ limit, page t limit = page w.tables limit := by
    intro limit
    rw [page, page, outstanding, outstanding, hposition, hstops]
  refine ⟨?_, ?_, ?_, ?_, h.waits, ?_⟩
  · show w.consumed.flatten = read DomainEvent.key t.position (stopEvents t)
    rw [hposition, hstops]
    exact h.consumed
  · intro k hk
    have hk' : k ∈ w.tables.position := hposition ▸ hk
    obtain ⟨event, hevent, hkey⟩ := h.placed k hk'
    exact ⟨event, hstops.symm ▸ hevent, hkey⟩
  · intro event hevent
    have hevent' : event ∈ stopEvents w.tables := hstops ▸ hevent
    exact (h.owed event hevent').mono hgrown
  · exact fun event hevent => (h.ended event hevent).mono hgrown
  · intro q hq
    obtain ⟨s, hs, hsound⟩ := h.holder q hq
    have hview : Continues (s.view w.tables).sequences (s.view t).sequences :=
      mono_writes s.writes hgrown
    refine ⟨s, hs, hsound.nodup, ?_, ?_, ?_, ?_⟩
    · intro event he
      have hgate : w.gate = some q := hq
      exact (hfresh s (by rw [hgate]; exact hs) event he).trans (hsound.fresh event he)
    · intro event he hevent row hrow
      have hrow' : row ∈ stopEvents w.tables := hstops ▸ hrow
      exact hsound.later event he hevent row hrow'
    · exact fun event he hevent => (hsound.owed event he hevent).mono hview
    · have htask := hsound.task
      cases hs : s.task with
      | emitter =>
        rw [hs] at htask
        exact htask
      | drain limit phase =>
        rw [hs] at htask
        obtain ⟨hemitted, hphase⟩ := htask
        refine ⟨hemitted, ?_⟩
        show PhaseSound t s limit phase
        cases phase with
        | opened => exact hphase
        | reading position =>
          rw [PhaseSound, hposition]
          exact hphase
        | stopping batch rest =>
          obtain ⟨hc, hbatch, hne, done, hsplit, hended⟩ := hphase
          refine ⟨by rw [hposition]; exact hc, by rw [hpage]; exact hbatch, hne, done, hsplit, ?_⟩
          exact fun event he => (hended event he).mono hview
        | returned batch =>
          obtain ⟨hc, hbatch, hended⟩ := hphase
          refine ⟨by rw [hposition]; exact hc, by rw [hpage]; exact hbatch, ?_⟩
          exact fun event he => (hended event he).mono hview

theorem Drained.change (h : Drained w) (change : OtherChange) :
    Drained { w with tables := change.apply w } := by
  cases change with
  | event row =>
    simp only [OtherChange.apply]
    split
    · exact h
    · next hother =>
      rw [Bool.or_eq_true, not_or] at hother
      cases hinsert : w.tables.events.insert? row with
      | none => exact h
      | some events =>
        apply Drained.elsewhere h
        · show events.rows.filter _ = _
          rw [(Table.insert?_eq_some hinsert).2, List.filter_append,
            List.filter_cons_of_neg hother.1, List.filter_nil, List.append_nil]
          rfl
        · rfl
        · exact Continues.refl _
        · intro s hs event he
          apply Table.find?_insert?_ne hinsert
          intro hid
          apply hother.2
          rw [OutboxWorld.emitting, hs]
          simp only [Option.map_some, Option.getD_some, List.any_eq_true, decide_eq_true_eq]
          exact ⟨event, he, hid⟩
  | endEnrollment id state reason now =>
    simp only [OtherChange.apply]
    split
    · exact h
    · apply Drained.elsewhere h
      · rfl
      · rfl
      · have hkey : ∀ row : EnrollmentRow, (row.finish state reason now).id = row.id := fun _ => rfl
        apply continues_of_find? fun row =>
          if row.id = id && row.endedAt.isNone then row.finish state reason now else row
        · intro id'
          show (Table.update _ _ _ hkey).find? id' = _
          exact Table.find?_update
        · intro row hrow
          split
          · rfl
          · exact hrow
      · exact fun _ _ _ _ => rfl
  | execution row =>
    simp only [OtherChange.apply]
    split
    · exact h
    · exact h.elsewhere rfl rfl ⟨fun _ h' => h', fun _ h' => h'⟩ (fun _ _ _ _ => rfl)

/-- A transaction past the gate commits. -/
theorem Drained.commit (h : Drained w) (hold : w.holding p = some s) (hfree : s.free = true) :
    Drained { w.close p with tables := s.view w.tables, consumed := w.consumed ++ s.batch } := by
  have hsound := h.sound hold
  have hclosed := h.close p
  have hgrown : Continues w.tables.sequences (s.view w.tables).sequences :=
    continues_writes s.writes _
  obtain ⟨hgate, -⟩ := w.holding_eq_some hold
  have hopen : (w.close p).gate = none := by simp [OutboxWorld.close, hgate]
  have hholder : ∀ q, (w.close p).gate = some q →
      ∃ s', (w.close p).sessions q = some s' ∧ s'.Sound (s.view w.tables) := by
    intro q hq
    rw [hopen] at hq
    cases hq
  have howed : ∀ event ∈ stopEvents (s.view w.tables),
      OwedPresent (s.view w.tables).sequences event := by
    intro event hevent
    obtain ⟨hmem, hstops⟩ := mem_stopEvents.1 hevent
    rcases (hsound.mem_view event).1 hmem with hold' | hnew
    · exact (h.owed event (mem_stopEvents.2 ⟨hold', hstops⟩)).mono hgrown
    · exact hsound.owed event hnew hstops
  have htask := hsound.task
  cases hs : s.task with
  | emitter =>
    rw [hs] at htask
    have hcursor : (s.view w.tables).position = w.tables.position := by
      simp [OutboxTables.position, StopSession.view, show s.cursor = none from htask]
    have hkept : ∀ event ∈ stopEvents w.tables, event ∈ stopEvents (s.view w.tables) := by
      intro event hevent
      obtain ⟨hmem, hstops⟩ := mem_stopEvents.1 hevent
      exact mem_stopEvents.2 ⟨(hsound.mem_view event).2 (.inl hmem), hstops⟩
    have hbatch : w.consumed ++ s.batch = w.consumed := by
      rw [StopSession.batch, hs, List.append_nil]
    rw [hbatch]
    refine ⟨?_, ?_, howed, fun event he => (h.ended event he).mono hgrown, hclosed.waits, hholder⟩
    · show w.consumed.flatten
        = read DomainEvent.key (s.view w.tables).position (stopEvents (s.view w.tables))
      rw [hcursor, h.consumed]
      symm
      apply read_grown (stopEvents_nodup _) (stopEvents_nodup _) hkept
      intro event hevent
      obtain ⟨hmem, hstops⟩ := mem_stopEvents.1 hevent
      rcases (hsound.mem_view event).1 hmem with hold' | hnew
      · exact .inl (mem_stopEvents.2 ⟨hold', hstops⟩)
      · refine .inr fun k hk => ?_
        obtain ⟨last, hlast, rfl⟩ := h.placed k hk
        exact StreamKey.lt_of_occurredAt (hsound.later event hnew hstops last hlast)
    · intro k hk
      obtain ⟨event, hevent, hkey⟩ := h.placed k (hcursor ▸ hk)
      exact ⟨event, hkept event hevent, hkey⟩
  | drain limit phase =>
    rw [hs] at htask
    cases phase with
    | returned batch =>
      obtain ⟨hemitted, hcursor, hpage, hended⟩ := htask
      have hevents : stopEvents (s.view w.tables) = stopEvents w.tables := by
        simp [stopEvents, StopSession.view, hemitted]
      have hposition : (s.view w.tables).position
          = advance DomainEvent.key w.tables.position batch := by
        simp [OutboxTables.position, StopSession.view, hcursor]
      have hflat : (w.consumed ++ s.batch).flatten = w.consumed.flatten ++ batch := by
        simp [StopSession.batch, hs]
      refine ⟨?_, ?_, howed, ?_, hclosed.waits, hholder⟩
      · show (w.consumed ++ s.batch).flatten
          = read DomainEvent.key (s.view w.tables).position (stopEvents (s.view w.tables))
        rw [hflat, hposition, hevents, hpage, page, outstanding,
          read_advance (stopEvents_nodup _), h.consumed]
      · intro k hk
        have hk' : k ∈ advance DomainEvent.key w.tables.position batch := hposition ▸ hk
        show ∃ event ∈ stopEvents (s.view w.tables), event.key = k
        rw [hevents]
        cases hlast : batch.getLast? with
        | none =>
          rw [advance, hlast, Option.map_none, Option.none_or] at hk'
          exact h.placed k hk'
        | some last =>
          rw [advance, hlast, Option.map_some, Option.some_or, Option.mem_def,
            Option.some_inj] at hk'
          have hmem : last ∈ page w.tables limit := hpage ▸ List.mem_of_getLast? hlast
          exact ⟨last, (mem_unread.1 (List.mem_of_mem_take hmem)).1, hk'⟩
      · intro event he
        have he' : event ∈ w.consumed.flatten ++ batch := hflat ▸ he
        rcases List.mem_append.1 he' with he | he
        · exact (h.ended event he).mono hgrown
        · exact hended event he
    | opened => simp [StopSession.free, hs] at hfree
    | reading position => simp [StopSession.free, hs] at hfree
    | stopping batch rest => simp [StopSession.free, hs] at hfree

/-- Every input that stamps its event under the gate keeps the invariant. -/
theorem Drained.step (h : Drained w) {i : OutboxInput} (hstamped : w.Stamped i) :
    Drained (w.step i) := by
  cases i with
  | begin p drainLimit =>
    simp only [OutboxWorld.step]
    split
    · exact h
    · next hnone =>
      have hgate : ∀ q, w.gate = some q → q ≠ p := by
        rintro q hq rfl
        obtain ⟨s, hs, -⟩ := h.holder q hq
        simp [hnone] at hs
      refine ⟨h.consumed, h.placed, h.owed, h.ended, ?_, ?_⟩
      · intro q s hs hq
        by_cases hne : q = p
        · subst hne
          rw [OutboxWorld.setSession_self] at hs
          cases hs
          refine ⟨rfl, rfl, rfl, ?_⟩
          cases drainLimit with
          | none => exact .inl rfl
          | some limit => exact .inr ⟨limit, rfl⟩
        · rw [OutboxWorld.setSession_ne hne] at hs
          exact h.waits q s hs hq
      · intro q hq
        obtain ⟨s, hs, hsound⟩ := h.holder q hq
        exact ⟨s, (OutboxWorld.setSession_ne (hgate q hq) _).trans hs, hsound⟩
  | lockSendGate p =>
    simp only [OutboxWorld.step]
    split
    · next hfree =>
      obtain ⟨hgate, hsome⟩ := hfree
      obtain ⟨s, hs⟩ := Option.isSome_iff_exists.1 hsome
      have hwaits := h.waits p s hs (by simp [hgate])
      refine ⟨h.consumed, h.placed, h.owed, h.ended, ?_, ?_⟩
      · intro q s' hs' _
        exact h.waits q s' hs' (by simp [hgate])
      · intro q hq
        obtain rfl : p = q := Option.some.inj hq
        exact ⟨s, hs, hwaits.sound _⟩
    · exact h
  | emit p event id clock =>
    simp only [OutboxWorld.step]
    split
    · next s hold =>
      obtain ⟨hgate, -⟩ := w.holding_eq_some hold
      split
      · next hemits =>
        split
        · exact h
        · next row hrow =>
          split
          · exact h.close p
          · next hfree =>
            apply h.setSession hgate
            apply (h.sound hold).emit hemits hrow
            · simpa using hfree
            · exact hstamped hgate
      · exact h
    · exact h
  | stop p input now =>
    simp only [OutboxWorld.step]
    split
    · next s hold =>
      obtain ⟨hgate, -⟩ := w.holding_eq_some hold
      split
      · next hfree =>
        rw [Bool.and_eq_true] at hfree
        exact h.setSession hgate ((h.sound hold).write _ hfree.1)
      · exact h
    · exact h
  | enroll p row execution =>
    simp only [OutboxWorld.step]
    split
    · next s hold =>
      obtain ⟨hgate, -⟩ := w.holding_eq_some hold
      split
      · next hguard =>
        apply h.setSession hgate
        apply (h.sound hold).write
        simp only [Bool.and_eq_true] at hguard
        have hemits := hguard.1.1
        unfold StopSession.emits at hemits
        unfold StopSession.free
        split at hemits
        · next htask => rw [htask]
        · cases hemits
      · exact h
    · exact h
  | drain p statuses now =>
    simp only [OutboxWorld.step]
    split
    · next s hold =>
      obtain ⟨hgate, -⟩ := w.holding_eq_some hold
      split
      · next limit phase htask =>
        split
        · next s' hs' =>
          exact h.setSession hgate ((h.sound hold).drain h.placed h.owed htask hs')
        · exact h.close p
      · exact h
    · exact h
  | commit p =>
    simp only [OutboxWorld.step]
    split
    · next s hold =>
      split
      · next hfree => exact h.commit hold hfree
      · exact h
    · exact h.close p
  | rollback p => exact h.close p
  | elsewhere change => exact h.change change

/-- The cursor moves forward, and what was consumed stays so. -/
structure Onward (w w' : OutboxWorld) : Prop where
  cursor : NotAfter w.tables.position w'.tables.position
  consumed : w.consumed <+: w'.consumed

theorem Onward.of_same {w' : OutboxWorld} (hcursor : w'.tables.cursor = w.tables.cursor)
    (hconsumed : w'.consumed = w.consumed) : Onward w w' := by
  constructor
  · rw [OutboxTables.position, OutboxTables.position, hcursor]
    exact NotAfter.refl _
  · rw [hconsumed]

theorem Drained.onward (h : Drained w) (i : OutboxInput) : Onward w (w.step i) := by
  cases i with
  | commit p =>
    simp only [OutboxWorld.step]
    split
    · next s hold =>
      split
      · next hfree =>
        have htask := (h.sound hold).task
        refine ⟨?_, List.prefix_append _ _⟩
        show NotAfter w.tables.position (s.view w.tables).position
        cases hs : s.task with
        | emitter =>
          rw [hs] at htask
          simp only [OutboxTables.position, StopSession.view, show s.cursor = none from htask,
            Option.none_or]
          exact NotAfter.refl _
        | drain limit phase =>
          rw [hs] at htask
          cases phase with
          | returned batch =>
            obtain ⟨-, hcursor, hpage, -⟩ := htask
            have hposition : (s.view w.tables).position
                = advance DomainEvent.key w.tables.position batch := by
              simp [OutboxTables.position, StopSession.view, hcursor]
            rw [hposition]
            cases hlast : batch.getLast? with
            | none =>
              rw [advance, hlast, Option.map_none, Option.none_or]
              exact NotAfter.refl _
            | some last =>
              rw [advance, hlast, Option.map_some, Option.some_or]
              have hmem : last ∈ page w.tables limit := hpage ▸ List.mem_of_getLast? hlast
              exact (mem_unread.1 (List.mem_of_mem_take hmem)).2.notAfter
          | opened => simp [StopSession.free, hs] at hfree
          | reading position => simp [StopSession.free, hs] at hfree
          | stopping batch rest => simp [StopSession.free, hs] at hfree
      · exact Onward.of_same rfl rfl
    · exact Onward.of_same rfl rfl
  | elsewhere change =>
    have hsame : (change.apply w).cursor = w.tables.cursor := by
      cases change with
      | event row => simp only [OtherChange.apply]; split <;> rfl
      | endEnrollment id state reason now => simp only [OtherChange.apply]; split <;> rfl
      | execution row => simp only [OtherChange.apply]; split <;> rfl
    exact Onward.of_same hsame rfl
  | begin p drainLimit =>
    simp only [OutboxWorld.step]
    split <;> exact Onward.of_same rfl rfl
  | lockSendGate p =>
    simp only [OutboxWorld.step]
    split <;> exact Onward.of_same rfl rfl
  | emit p event id clock =>
    simp only [OutboxWorld.step]
    repeat' split
    all_goals exact Onward.of_same rfl rfl
  | stop p input now =>
    simp only [OutboxWorld.step]
    repeat' split
    all_goals exact Onward.of_same rfl rfl
  | enroll p row execution =>
    simp only [OutboxWorld.step]
    repeat' split
    all_goals exact Onward.of_same rfl rfl
  | drain p statuses now =>
    simp only [OutboxWorld.step]
    repeat' split
    all_goals exact Onward.of_same rfl rfl
  | rollback p => exact Onward.of_same rfl rfl

/-! ## A whole drain -/

/-- The statements a drain has left. -/
def DrainPhase.left (t : OutboxTables) (limit : Int) : DrainPhase → Nat
  | .opened => (page t limit).length + 3
  | .reading _ => (page t limit).length + 2
  | .stopping _ rest => rest.length + 1
  | .returned _ => 0

theorem StopSession.Sound.drain_left (h : s.Sound t) (hplaced : Placed t)
    (hpresent : ∀ event ∈ stopEvents t, OwedPresent t.sequences event) {limit : Int}
    {phase : DrainPhase} (htask : s.task = .drain limit phase) (hlimit : 0 ≤ limit)
    (statuses : Uuid → Option OpportunityStatus) (now : Instant) :
    ∃ s' phase', drainStep t s limit statuses now phase = some s' ∧
      s'.task = .drain limit phase' ∧ phase'.left t limit ≤ phase.left t limit - 1 := by
  cases phase with
  | opened => exact ⟨_, _, rfl, rfl, le_refl _⟩
  | reading position =>
    have hnonneg : ¬ limit < 0 := by omega
    have hstep : ∃ s' phase', drainStep t s limit statuses now (.reading position) = some s' ∧
        s'.task = .drain limit phase' ∧
        (phase' = .returned [] ∨ ∃ batch, phase' = .stopping batch batch) := by
      simp only [drainStep, if_neg hnonneg]
      refine ⟨_, _, rfl, rfl, ?_⟩
      split
      · exact .inl rfl
      · exact .inr ⟨_, rfl⟩
    obtain ⟨s', phase', hs', htask', hphase'⟩ := hstep
    refine ⟨s', phase', hs', htask', ?_⟩
    have hsound := (h.drain hplaced hpresent htask hs').task
    rw [htask'] at hsound
    rcases hphase' with rfl | ⟨batch, rfl⟩
    · exact Nat.zero_le _
    · obtain ⟨-, -, hbatch, -⟩ := hsound
      simp only [DrainPhase.left]
      rw [hbatch]
      omega
  | stopping batch rest =>
    cases rest with
    | nil => exact ⟨_, _, rfl, rfl, le_refl _⟩
    | cons event rest => exact ⟨_, _, rfl, rfl, le_refl _⟩
  | returned batch => exact ⟨s, _, rfl, htask, le_refl _⟩

/-- A drain past the gate returns after as many statements as it has left. -/
theorem Drained.drain_returns (statuses : Uuid → Option OpportunityStatus) (now : Instant)
    {limit : Int} (hlimit : 0 ≤ limit) {n : Nat} (h : Drained w) {phase : DrainPhase}
    (hold : w.holding p = some s) (htask : s.task = .drain limit phase)
    (hn : phase.left w.tables limit ≤ n) :
    ∃ w', run OutboxWorld.step w (List.replicate n (.drain p statuses now)) = w' ∧ Drained w' ∧
      w'.tables = w.tables ∧ w'.consumed = w.consumed ∧
      ∃ s' batch, w'.holding p = some s' ∧ s'.task = .drain limit (.returned batch) := by
  induction n generalizing w s phase with
  | zero =>
    cases phase with
    | returned batch => exact ⟨w, rfl, h, rfl, rfl, s, batch, hold, htask⟩
    | opened => simp [DrainPhase.left] at hn
    | reading position => simp [DrainPhase.left] at hn
    | stopping batch rest => simp [DrainPhase.left] at hn
  | succ n ih =>
    obtain ⟨hgate, -⟩ := w.holding_eq_some hold
    obtain ⟨s', phase', hs', htask', hleft⟩ :=
      (h.sound hold).drain_left h.placed h.owed htask hlimit statuses now
    have hstep : w.step (.drain p statuses now) = w.setSession p (some s') := by
      simp only [OutboxWorld.step, hold, htask, hs']
    have hnext : Drained (w.setSession p (some s')) :=
      h.setSession hgate ((h.sound hold).drain h.placed h.owed htask hs')
    have hold' : (w.setSession p (some s')).holding p = some s' := by
      have hgate' : (w.setSession p (some s')).gate = some p := hgate
      rw [OutboxWorld.holding, if_pos hgate', OutboxWorld.setSession_self]
    obtain ⟨w', hw', hdrained, htables, hconsumed, hdone⟩ := ih hnext hold' htask' (by
      show phase'.left w.tables limit ≤ n
      omega)
    refine ⟨w', ?_, hdrained, htables, hconsumed, hdone⟩
    rw [List.replicate_succ, run_cons, hstep]
    exact hw'

/-- A drain from its BEGIN to its COMMIT, with nothing in between. -/
def wholeDrain (p : Nat) (limit : Int) (statuses : Uuid → Option OpportunityStatus) (now : Instant)
    (statements : Nat) : List OutboxInput :=
  [.begin p (some limit), .lockSendGate p] ++
    (List.replicate statements (.drain p statuses now) ++ [.commit p])

/-- It consumes the first of the outstanding events, as many as its LIMIT lets it. -/
theorem Drained.wholeDrain (h : Drained w) (hgate : w.gate = none) (hp : w.sessions p = none)
    {limit : Int} (hlimit : 0 ≤ limit) {statements : Nat} (hn : limit.toNat + 3 ≤ statements)
    (statuses : Uuid → Option OpportunityStatus) (now : Instant) :
    (run OutboxWorld.step w (wholeDrain p limit statuses now statements)).consumed
      = w.consumed ++ [page w.tables limit] := by
  have hbegin := h.step (i := .begin p (some limit)) trivial
  have hlock := hbegin.step (i := .lockSendGate p) trivial
  generalize hw₂ : (w.step (.begin p (some limit))).step (.lockSendGate p) = w₂ at hlock
  have hw₂' : w₂.tables = w.tables ∧ w₂.consumed = w.consumed ∧
      w₂.holding p = some ⟨[], none, [], .drain limit .opened⟩ := by
    subst hw₂
    simp [OutboxWorld.step, hp, hgate, OutboxWorld.setSession, OutboxWorld.holding]
  obtain ⟨htables, hconsumed, hold⟩ := hw₂'
  have hleft : (DrainPhase.opened).left w₂.tables limit ≤ statements := by
    have hlength : (page w₂.tables limit).length ≤ limit.toNat := List.length_take_le _ _
    simp only [DrainPhase.left]
    omega
  obtain ⟨w', hw', hdrained, htables', hconsumed', s', batch, hold', htask'⟩ :=
    hlock.drain_returns statuses now hlimit hold rfl hleft
  have hbatch := (hdrained.sound hold').task
  rw [htask'] at hbatch
  obtain ⟨-, -, hpage, -⟩ := hbatch
  have hopen : run OutboxWorld.step w [.begin p (some limit), .lockSendGate p] = w₂ := hw₂
  rw [Sequences.wholeDrain, run_append, hopen, run_append, hw', run_cons, run_nil]
  have hcommit : (w'.step (.commit p)).consumed = w'.consumed ++ [batch] := by
    simp [OutboxWorld.step, hold', StopSession.free, StopSession.batch, htask']
  rw [hcommit, hpage, hconsumed', hconsumed, htables', htables]

/-! ## Every run -/

/-- Over every run in which stop events are stamped under the gate: the events consumed and
those outstanding are the committed stop events, each once and in order; what a consumed
event owed is ended; later steps keep both; and a drain takes the next ones. -/
theorem consumedOnce (sequences : SequenceTables) (inputs : List OutboxInput)
    (h : Meets OutboxWorld.step OutboxWorld.Stamped (.idle sequences) inputs) :
    ∃ w, w = run OutboxWorld.step (.idle sequences) inputs ∧
      w.consumed.flatten ++ outstanding w.tables = ordered DomainEvent.key (stopEvents w.tables) ∧
      (ordered DomainEvent.key (stopEvents w.tables)).Pairwise (fun a b => a.key < b.key) ∧
      (∀ event ∈ w.consumed.flatten, OwedEnded w.tables.sequences event) ∧
      (∀ more, Meets OutboxWorld.step OutboxWorld.Stamped w more →
        Onward w (run OutboxWorld.step w more)) ∧
      ∀ p limit statuses now statements, w.gate = none → w.sessions p = none → 0 ≤ limit →
        limit.toNat + 3 ≤ statements →
        (run OutboxWorld.step w (wholeDrain p limit statuses now statements)).consumed
          = w.consumed ++ [page w.tables limit] := by
  have hdrained : Drained (run OutboxWorld.step (.idle sequences) inputs) :=
    Meets.invariant (fun w i hi hw => hw.step hi) h (drained_idle sequences)
  refine ⟨_, rfl, ?_, ordered_lt (stopEvents_nodup _), hdrained.ended, ?_, ?_⟩
  · rw [hdrained.consumed]
    exact read_append_unread _ _
  · intro more hmore
    apply Meets.related (I := Drained) _ _ (fun w i hi hw => hw.step hi)
      (fun w i _ hw => hw.onward i) hmore hdrained
    · exact fun w => Onward.of_same rfl rfl
    · exact fun a b c hab hbc =>
        ⟨hab.cursor.trans hbc.cursor, hab.consumed.trans hbc.consumed⟩
  · intro p limit statuses now statements hgate hp hlimit hn
    exact hdrained.wholeDrain hgate hp hlimit hn statuses now

/-! ## A run -/

def liveAt (id firmId contactId : String) : EnrollmentRow :=
  { id := js id, sequenceVersionId := js "v", opportunityId := some (js "o"), firmId := js firmId
    contactId := js contactId, assignedUserId := js "u", originKind := .prospecting
    outreachPlanId := none, state := .active, startedAt := 0, endedAt := none, endReason := none }

def twoLive : SequenceTables :=
  ⟨⟨[liveAt "e1" "f1" "c1", liveAt "e2" "f2" "c2"], by decide +kernel⟩, .empty⟩

def manualMode (firmId dedupeKey : String) : CrmDomainEventInput :=
  ⟨.manualMode, js firmId, none, js dedupeKey, some (js "engaged_call"), none⟩

/-- Two events of one transaction share their instant, and the later one has the smaller
uuid; a drain of one event cuts between them, and another one rolls back. -/
def drainedInputs : List OutboxInput :=
  [.begin 0 none, .lockSendGate 0, .emit 0 (manualMode "f1" "k1") (js "b") 1500,
    .emit 0 (manualMode "f2" "k2") (js "a") 1500, .begin 1 (some 1), .lockSendGate 1, .commit 0] ++
  wholeDrain 2 1 (fun _ => none) 7 4 ++
  [.lockSendGate 1, .drain 1 (fun _ => none) 8, .drain 1 (fun _ => none) 8, .rollback 1] ++
  wholeDrain 1 5 (fun _ => none) 9 8

theorem consumedOnce_twoEvents :
    (run OutboxWorld.step (.idle twoLive) drainedInputs).consumed.map (List.map DomainEvent.id)
        = [[js "a"], [js "b"]] ∧
      ∀ event ∈ (run OutboxWorld.step (.idle twoLive) drainedInputs).consumed.flatten,
        OwedEnded (run OutboxWorld.step (.idle twoLive) drainedInputs).tables.sequences event := by
  obtain ⟨w, hw, -, -, hended, -⟩ := consumedOnce twoLive drainedInputs (by decide +kernel)
  refine ⟨by decide +kernel, ?_⟩
  rw [← hw]
  exact hended

end FoundingSales.Sequences
