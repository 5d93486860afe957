import FoundingSales.Library.Placement
import FoundingSales.Suppression.EventLog
import FoundingSales.Suppression.ReplaySelection

/-!
Whether a replay returns, and whether it accounts for each missing event once.

The placing is `Placement.placeAll` over the records kept, each linked to the one it supersedes
(`placeSelected_state`). A cycle of links is followed for ever, and a chain that ends at an unknown
event is reported again by every visit that starts above a reported record.

Proved here:

* `writeRecords_spec`: every record placed is inserted or reported stale;
* `replay_accounts_iff`: when a replay accounts for each record once;
* `replay_accounts_fails`: two replays that do not.
-/

namespace FoundingSales.Suppression

open Tables

/-! ## Placing along links -/

/-- What has to be placed before a record. -/
def recordLink (db : Database) (missing : List JournalRecord) (record : JournalRecord) :
    Placement.Link JournalRecord :=
  match record.supersedesEventId with
  | none => .free
  | some supersedes =>
    match getRecord missing supersedes with
    | some original => .on original
    | none => if (db.events.find? supersedes).isSome then .free else .absent

def Placing.state (s : Placing) : Placement.State JournalRecord JsString :=
  ⟨s.placed, s.ordered, s.orphanSupersessions⟩

section Refines

variable (db : Database) (missing : List JournalRecord)

theorem place_state (depth : Nat) (record : JournalRecord) (s : Placing) :
    (place db missing depth record s).map (fun result => (result.1, result.2.state))
      = Placement.place JournalRecord.eventId (recordLink db missing) depth record s.state := by
  induction depth generalizing record s with
  | zero => rfl
  | succ depth ih =>
    rw [place, Placement.place]
    have hplaced : s.state.placed = s.placed := rfl
    rw [hplaced]
    by_cases hin : record.eventId ∈ s.placed
    · rw [if_pos hin, if_pos hin]
      rfl
    · rw [if_neg hin, if_neg hin, recordLink]
      cases record.supersedesEventId with
      | none => rfl
      | some supersedes =>
        simp only
        cases getRecord missing supersedes with
        | some original =>
          simp only [← ih original s]
          rcases place db missing depth original s with _ | ⟨_ | _, s'⟩ <;> rfl
        | none =>
          simp only
          split <;> rfl

theorem placeRecords_state (depth : Nat) (visits : List JournalRecord) (s : Placing) :
    (placeRecords db missing depth visits s).map Placing.state
      = Placement.placeAll JournalRecord.eventId (recordLink db missing) depth visits s.state := by
  induction visits generalizing s with
  | nil => rfl
  | cons record rest ih =>
    have hskip : (record.eventId ∈ s.placed ∨ record.eventId ∈ s.orphanSupersessions) ↔
        (record.eventId ∈ s.state.placed ∨ record.eventId ∈ s.state.refused) := Iff.rfl
    rw [placeRecords, Placement.placeAll, ← place_state]
    by_cases hin : record.eventId ∈ s.placed ∨ record.eventId ∈ s.orphanSupersessions
    · rw [if_pos hin, if_pos (hskip.1 hin), ih]
    · rw [if_neg hin, if_neg (fun h => hin (hskip.2 h))]
      cases place db missing depth record s with
      | none => rfl
      | some result =>
        simp only [Option.map_some, Option.bind_some]
        exact ih result.2

end Refines

section Kept

variable (c : ReplayContext) (db : Database) (records : List JournalRecord)

/-- What a kept record is linked to. -/
def keptLink : JournalRecord → Placement.Link JournalRecord :=
  recordLink db (keptRecords c db records)

theorem keptLink_on {record original : JournalRecord}
    (h : keptLink c db records record = .on original) :
    original ∈ keptRecords c db records ∧ record.supersedesEventId = some original.eventId := by
  unfold keptLink recordLink at h
  split at h
  · cases h
  · next supersedes hsuper =>
    split at h
    · next found hget =>
      obtain rfl := Placement.Link.on.inj h
      obtain ⟨hmem, rfl⟩ := (getRecord_eq_some (keptRecords_distinct c db records)).1 hget
      exact ⟨hmem, hsuper⟩
    · split at h <;> cases h

theorem keptLink_of_supersedes {record original : JournalRecord}
    (horiginal : original ∈ keptRecords c db records)
    (hsuper : record.supersedesEventId = some original.eventId) :
    keptLink c db records record = .on original := by
  have hget := (getRecord_eq_some (keptRecords_distinct c db records)).2 ⟨horiginal, rfl⟩
  unfold keptLink recordLink
  simp only [hsuper, hget]

theorem kept_closed : Placement.Closed JournalRecord.eventId (keptLink c db records)
    (keptRecords c db records) where
  keys := keptRecords_distinct c db records
  below := fun _ _ _ hlink => (keptLink_on c db records hlink).1
  rivals := fun _ ha _ hb _ hla hlb => keptRecords_rivals c db records ha hb
    (keptLink_on c db records hla).2 (keptLink_on c db records hlb).2

theorem placeSelected_state (depth : Nat) :
    (placeSelected c db depth (keptRecords c db records)).map Placing.state
      = Placement.placeAll JournalRecord.eventId (keptLink c db records) depth
        (c.order.sort (keptRecords c db records)) Placement.State.empty :=
  placeRecords_state db _ depth _ _

end Kept

/-! ## Writing -/

section Writing

variable {c : ReplayContext} {correctedBy : List JsString} {record : JournalRecord}
variable {s s' : Written}

theorem sql_ok {α : Type} {result : Except SqlError α} {value : α}
    (h : sql result = .ok value) : result = .ok value := by
  cases result with
  | error e => cases h
  | ok v => exact congrArg Except.ok (Except.ok.inj h)

theorem claimFinalization_events {db db' : Database} {claim : Finalization}
    {answer : FinalizationClaim} (h : db.claimFinalization claim = .ok (answer, db')) :
    db'.events = db.events := by
  unfold Database.claimFinalization at h
  split at h
  · obtain ⟨-, rfl⟩ := Prod.mk.inj (Except.ok.inj h)
    rfl
  · split at h
    · obtain ⟨-, rfl⟩ := Prod.mk.inj (Except.ok.inj h)
      rfl
    · cases h

/-- What one step writes: a row with the record's id, or a report that it is stale. -/
structure WroteOne (record : JournalRecord) (s s' : Written) : Prop where
  step : (∃ row : SuppressionEvent, row.eventId = record.eventId ∧
      s'.db.events.rows = s.db.events.rows ++ [row] ∧ s'.inserted = s.inserted + 1 ∧
      s'.staleCorrections = s.staleCorrections) ∨
    (s'.db.events = s.db.events ∧ s'.inserted = s.inserted ∧
      s'.staleCorrections = s.staleCorrections ++ [record.eventId])

theorem reopenWindow_keeps {deadline : Option Instant}
    (h : reopenWindow c record deadline s = .ok s') :
    s'.db.events = s.db.events ∧ s'.inserted = s.inserted ∧
      s'.staleCorrections = s.staleCorrections := by
  unfold reopenWindow at h
  cases deadline with
  | none => cases h
  | some deadline =>
    obtain rfl := Except.ok.inj h
    refine ⟨?_, rfl, rfl⟩
    cases holdFirm record <;> rfl

theorem followUp_keeps (h : followUp c correctedBy record s = .ok s') :
    s'.db.events = s.db.events ∧ s'.inserted = s.inserted ∧
      s'.staleCorrections = s.staleCorrections := by
  unfold followUp at h
  simp only at h
  split at h
  · obtain rfl := Except.ok.inj h
    exact ⟨rfl, rfl, rfl⟩
  · split at h
    · split at h
      · obtain rfl := Except.ok.inj h
        exact ⟨rfl, rfl, rfl⟩
      · cases hclaim : sql (s.db.claimFinalization
            ⟨record.eventId, .finalized, c.now, none, none⟩) with
        | error e =>
          rw [hclaim] at h
          cases h
        | ok claimed =>
          rw [hclaim] at h
          obtain rfl := Except.ok.inj h
          exact ⟨claimFinalization_events (sql_ok hclaim), rfl, rfl⟩
    · exact reopenWindow_keeps h

theorem rowOf_eventId {texts : InstantTexts} {row : SuppressionEvent}
    (h : rowOf texts record = .ok row) : row.eventId = record.eventId := by
  unfold rowOf at h
  split at h
  · cases h
  · split at h
    · cases h
    · split at h
      · cases h
      · obtain rfl := Except.ok.inj h
        rfl

theorem insertRecord_wrote (h : insertRecord c correctedBy record s = .ok s') :
    ∃ row : SuppressionEvent, row.eventId = record.eventId ∧
      s'.db.events.rows = s.db.events.rows ++ [row] ∧ s'.inserted = s.inserted + 1 ∧
      s'.staleCorrections = s.staleCorrections := by
  unfold insertRecord at h
  cases hrow : rowOf c.texts record with
  | error e =>
    rw [hrow] at h
    cases h
  | ok row =>
    rw [hrow] at h
    cases hinsert : sql (s.db.insertEvent row) with
    | error e =>
      simp only [bind, Except.bind, hinsert] at h
      cases h
    | ok db =>
      simp only [bind, Except.bind, hinsert] at h
      have hrows := (insertEvent_inserted (sql_ok hinsert)).rows
      refine ⟨row, rowOf_eventId hrow, ?_⟩
      split at h
      · obtain rfl := Except.ok.inj h
        exact ⟨hrows, rfl, rfl⟩
      · obtain ⟨hevents, hinserted, hstale⟩ := followUp_keeps h
        rw [hevents, hinserted, hstale]
        exact ⟨hrows, rfl, rfl⟩

theorem applyRecord_wrote (h : applyRecord c correctedBy s record = .ok s') :
    WroteOne record s s' := by
  constructor
  unfold applyRecord at h
  split at h
  · exact .inl (insertRecord_wrote h)
  · next original htakes =>
    cases hclaim : sql (s.db.claimFinalization
        ⟨original, .corrected, c.now, record.actorUserId, some record.eventId⟩) with
    | error e =>
      rw [hclaim] at h
      cases h
    | ok claimed =>
      simp only [hclaim, bind, Except.bind] at h
      have hevents := claimFinalization_events (sql_ok hclaim)
      split at h
      · obtain rfl := Except.ok.inj h
        exact .inr ⟨hevents, rfl, rfl⟩
      · left
        obtain ⟨row, hid, hrows, hinserted, hstale⟩ := insertRecord_wrote h
        rw [hevents] at hrows
        exact ⟨row, hid, hrows, hinserted, hstale⟩

/-- Every record placed is inserted or reported stale, once. -/
theorem writeRecords_spec {ordered : List JournalRecord}
    (h : ordered.foldlM (applyRecord c correctedBy) s = .ok s') :
    ∃ (rows : List SuppressionEvent) (stale : List JsString),
      s'.db.events.rows = s.db.events.rows ++ rows ∧ s'.inserted = s.inserted + rows.length ∧
      s'.staleCorrections = s.staleCorrections ++ stale ∧
      (rows.map SuppressionEvent.eventId ++ stale).Perm (ordered.map JournalRecord.eventId) := by
  induction ordered generalizing s with
  | nil =>
    obtain rfl := Except.ok.inj h
    exact ⟨[], [], (List.append_nil _).symm, rfl, (List.append_nil _).symm, List.Perm.refl _⟩
  | cons record rest ih =>
    rw [List.foldlM_cons] at h
    cases hone : applyRecord c correctedBy s record with
    | error e =>
      rw [hone] at h
      cases h
    | ok mid =>
      rw [hone] at h
      obtain ⟨rows, stale, hrows, hinserted, hstale, hperm⟩ := ih h
      rcases (applyRecord_wrote hone).step with
        ⟨row, hid, hrow, hcount, hkept⟩ | ⟨hevents, hcount, hadded⟩
      · refine ⟨row :: rows, stale, ?_, ?_, ?_, ?_⟩
        · rw [hrows, hrow, List.append_assoc, List.singleton_append]
        · rw [hinserted, hcount, List.length_cons]
          omega
        · rw [hstale, hkept]
        · rw [List.map_cons, List.map_cons, List.cons_append, hid]
          exact hperm.cons _
      · refine ⟨rows, record.eventId :: stale, ?_, ?_, ?_, ?_⟩
        · rw [hrows, hevents]
        · rw [hinserted, hcount]
        · rw [hstale, hadded, List.append_assoc, List.singleton_append]
        · rw [List.map_cons]
          exact List.perm_middle.trans (hperm.cons _)

end Writing

/-! ## Accounting -/

section Accounting

variable (c : ReplayContext) (db : Database) (records : List JournalRecord)

/-- An event the workspace is missing: in some record of it, and not in the database. -/
def MissingEvent (eventId : JsString) : Prop :=
  db.events.find? eventId = none ∧
    ∃ record ∈ records, record.workspaceId = c.workspaceId ∧ record.eventId = eventId

/-- Each missing event is in exactly one of the lists, once. -/
def ListedOnce (lists : List (List JsString)) : Prop :=
  lists.flatten.Nodup ∧ ∀ eventId, eventId ∈ lists.flatten ↔ MissingEvent c db records eventId

/-- What the placing answers for. -/
structure PlacedOnce (placing : Placing) : Prop where
  once : (placing.ordered.map JournalRecord.eventId).Nodup
  originals_first : ∀ front record back, placing.ordered = front ++ record :: back →
    ∀ original ∈ (selectRecords c db records).missing,
      record.supersedesEventId = some original.eventId → original ∈ front
  accounted : ListedOnce c db records
    [placing.ordered.map JournalRecord.eventId, placing.orphanSupersessions,
      (selectRecords c db records).competingSupersessions,
      (selectRecords c db records).unverifiedLegacyReleases,
      (selectRecords c db records).staleCorrections]

/-- What a report answers for, with the rows inserted. -/
structure ReportedOnce (report : JournalReplayReport) (db' : Database)
    (rows : List SuppressionEvent) : Prop where
  written : db'.events.rows = db.events.rows ++ rows
  counted : report.inserted = rows.length
  accounted : ListedOnce c db records
    [rows.map SuppressionEvent.eventId, report.orphanSupersessions,
      report.competingSupersessions, report.unverifiedLegacyReleases, report.staleCorrections]

/-- The placing returns, and the replay accounts for each record once. -/
def ReplayAccounts : Prop :=
  ∃ depth placing, placeSelected c db depth (selectRecords c db records).missing = some placing ∧
    PlacedOnce c db records placing ∧
    ∀ report db', replaySuppressionJournal c depth records db = some (.ok (report, db')) →
      ∃ rows, ReportedOnce c db records report db' rows

/-- The records kept, as the loop visits them. -/
def visited : List JournalRecord := c.order.sort (keptRecords c db records)

/-- Lists that together are the missing events list each once. -/
theorem listedOnce_of_perm {lists : List (List JsString)}
    (h : lists.flatten.Perm ((missingRecords c db records).map JournalRecord.eventId)) :
    ListedOnce c db records lists := by
  refine ⟨h.nodup_iff.2 (missingRecords_distinct c db records), ?_⟩
  intro eventId
  rw [h.mem_iff]
  exact mem_missingIds c db records eventId

variable {c db records} {placing : Placing} {depth : Nat}

theorem visited_perm : (visited c db records).Perm (keptRecords c db records) := c.order.perm _

theorem placeSelected_run
    (h : placeSelected c db depth (selectRecords c db records).missing = some placing) :
    Placement.placeAll JournalRecord.eventId (keptLink c db records) depth (visited c db records)
      Placement.State.empty = some placing.state := by
  rw [selectRecords_missing] at h
  rw [visited, ← placeSelected_state, h, Option.map_some]

/-- What is placed and what is reported as an orphan are the records kept, once each. -/
theorem placed_perm (hgood : Placement.Good JournalRecord.eventId (keptLink c db records)
      (keptRecords c db records) placing.state)
    (hall : ∀ record ∈ visited c db records, record ∈ placing.ordered ∨
      record.eventId ∈ placing.orphanSupersessions)
    (horphans : placing.orphanSupersessions.Nodup) :
    (placing.ordered.map JournalRecord.eventId ++ placing.orphanSupersessions).Perm
      ((keptRecords c db records).map JournalRecord.eventId) := by
  have hdistinct := keptRecords_distinct c db records
  have hclosed := kept_closed c db records
  have hordered : (placing.ordered.map JournalRecord.eventId).Nodup := by
    apply List.Nodup.map_on _ hgood.once
    intro x hx y hy hid
    exact hdistinct.eq_of_id (hgood.within hx) (hgood.within hy) hid
  have hnodup : (placing.ordered.map JournalRecord.eventId
      ++ placing.orphanSupersessions).Nodup := by
    apply List.nodup_append'.2
    refine ⟨hordered, horphans, ?_⟩
    intro eventId hin horphan
    obtain ⟨record, hrecord, rfl⟩ := List.mem_map.1 hin
    obtain ⟨chain, hd⟩ := hgood.free record hrecord
    exact hgood.not_refused hclosed (hgood.within hrecord) hd horphan
  apply (List.perm_ext_iff_of_nodup hnodup hdistinct).2
  intro eventId
  rw [List.mem_append, List.mem_map, List.mem_map]
  constructor
  · rintro (⟨record, hrecord, hid⟩ | horphan)
    · exact ⟨record, hgood.within hrecord, hid⟩
    · obtain ⟨record, hrecord, hid, -⟩ := hgood.refused eventId horphan
      exact ⟨record, hrecord, hid⟩
  · rintro ⟨record, hrecord, rfl⟩
    rcases hall record (visited_perm.symm.subset hrecord) with hin | horphan
    · exact .inl ⟨record, hin, rfl⟩
    · exact .inr horphan

/-- A placing that reports no orphan twice answers for every record. -/
theorem placedOnce_of_nodup (hgood : Placement.Good JournalRecord.eventId (keptLink c db records)
      (keptRecords c db records) placing.state)
    (hall : ∀ record ∈ visited c db records, record ∈ placing.ordered ∨
      record.eventId ∈ placing.orphanSupersessions)
    (horphans : placing.orphanSupersessions.Nodup) : PlacedOnce c db records placing where
  once := by
    have hkept := (placed_perm hgood hall horphans).nodup_iff.2 (keptRecords_distinct c db records)
    exact (List.nodup_append'.1 hkept).1
  originals_first := by
    intro front record back hsplit original horiginal hsuper
    rw [selectRecords_missing] at horiginal
    exact hgood.behind front record back hsplit original
      (keptLink_of_supersedes c db records horiginal hsuper)
  accounted := by
    apply listedOnce_of_perm
    have haccounts := selectRecords_accounts c db records
    simp only [selectRecords_missing] at haccounts
    simp only [List.flatten_cons, List.flatten_nil, List.append_nil]
    rw [← List.append_assoc]
    exact ((placed_perm hgood hall horphans).append_right _).trans haccounts

/-- A report answers for what the placing answered for. -/
theorem reportedOnce (hplaced : PlacedOnce c db records placing) {report : JournalReplayReport}
    {db' : Database}
    (hplace : placeSelected c db depth (selectRecords c db records).missing = some placing)
    (h : replaySuppressionJournal c depth records db = some (.ok (report, db'))) :
    ∃ rows, ReportedOnce c db records report db' rows := by
  simp only [replaySuppressionJournal, hplace, Option.map_some, Option.some.injEq] at h
  cases hwrite : writeRecords c db (selectRecords c db records) placing.ordered with
  | error e =>
    rw [hwrite] at h
    cases h
  | ok written =>
    rw [hwrite] at h
    obtain ⟨rfl, rfl⟩ := Prod.mk.inj (Except.ok.inj h)
    obtain ⟨rows, stale, hrows, hinserted, hstale, hperm⟩ := writeRecords_spec hwrite
    refine ⟨rows, hrows, ?_, ?_⟩
    · show written.inserted = rows.length
      rw [hinserted, Nat.zero_add]
    · obtain ⟨hnodup, hmem⟩ := hplaced.accounted
      have hflat : ([rows.map SuppressionEvent.eventId, placing.orphanSupersessions,
          (selectRecords c db records).competingSupersessions,
          (selectRecords c db records).unverifiedLegacyReleases,
          written.staleCorrections].flatten).Perm
          ([placing.ordered.map JournalRecord.eventId, placing.orphanSupersessions,
            (selectRecords c db records).competingSupersessions,
            (selectRecords c db records).unverifiedLegacyReleases,
            (selectRecords c db records).staleCorrections].flatten) := by
        rw [hstale]
        simp only [List.flatten_cons, List.flatten_nil, List.append_nil]
        apply List.Perm.trans _ (hperm.append_right _)
        rw [List.perm_iff_count]
        intro eventId
        simp only [List.count_append]
        omega
      refine ⟨hflat.nodup_iff.2 hnodup, ?_⟩
      intro eventId
      exact hflat.mem_iff.trans (hmem eventId)

end Accounting

/-- A replay returns and accounts for every record once exactly when no record kept leads back to
itself, and no record whose chain ends at an unknown event is visited before everything above it,
unless nothing is. -/
theorem replay_accounts_iff (c : ReplayContext) (db : Database) (records : List JournalRecord) :
    ReplayAccounts c db records ↔
      Placement.Acyclic (keptLink c db records) (keptRecords c db records) ∧
        Placement.TopFirst (keptLink c db records) (keptRecords c db records)
          (visited c db records) := by
  have hclosed := kept_closed c db records
  have hvisits : (visited c db records).Perm (keptRecords c db records) := visited_perm
  constructor
  · rintro ⟨depth, placing, hplace, hplaced, -⟩
    have hrun := placeSelected_run hplace
    have hacyclic := (Placement.placeAll_returns hclosed hvisits).1 ⟨depth, _, hrun⟩
    have hending : Placement.Ending (keptLink c db records) (keptRecords c db records) :=
      fun record hrecord => hacyclic.descent hclosed.below hrecord
    have hdeep := Placement.placeAll_mono
      (Nat.le_max_left depth (keptRecords c db records).length) hrun
    refine ⟨hacyclic, (Placement.refused_once hclosed hending (Nat.le_max_right _ _) hvisits
      hdeep).1 ?_⟩
    have hnodup := hplaced.accounted.1
    simp only [List.flatten_cons] at hnodup
    exact (List.nodup_append'.1 (List.nodup_append'.1 hnodup).2.1).1
  · rintro ⟨hacyclic, htop⟩
    have hending : Placement.Ending (keptLink c db records) (keptRecords c db records) :=
      fun record hrecord => hacyclic.descent hclosed.below hrecord
    obtain ⟨s', hrun, hgood, -, -, hall⟩ := Placement.placeAll_ending hclosed hending
      (Nat.le_refl _) hvisits.subset Placement.Good.empty
    have honce := (Placement.refused_once hclosed hending (Nat.le_refl _) hvisits hrun).2 htop
    rw [visited, ← placeSelected_state] at hrun
    obtain ⟨placing, hplace, rfl⟩ := Option.map_eq_some_iff.1 hrun
    rw [← selectRecords_missing] at hplace
    have hplaced := placedOnce_of_nodup hgood hall honce
    exact ⟨_, placing, hplace, hplaced, fun _ _ h => reportedOnce hplaced hplace h⟩

/-! ## Two replays that do not account -/

/-- The runtime and the database on the instants at hand. -/
def instantTexts (instants : List (JsString × Instant)) : InstantTexts where
  dateParse text := (instants.find? fun instant => instant.1 = text).map Prod.snd
  timestamptz text := (instants.find? fun instant => instant.1 = text).map Prod.snd

section Order

variable (texts : InstantTexts)

/-- By the instant, where it parses, and then by the id. -/
def earlier (left right : JournalRecord) : Bool :=
  let leftAt : Int := (texts.dateParse left.recordedAt).getD 0
  let rightAt : Int := (texts.dateParse right.recordedAt).getD 0
  leftAt < rightAt || (leftAt = rightAt && textLe left.eventId right.eventId)

theorem earlier_iff {left right : JournalRecord} : earlier texts left right = true ↔
    ((texts.dateParse left.recordedAt).getD 0 : Int) < (texts.dateParse right.recordedAt).getD 0 ∨
      ((texts.dateParse left.recordedAt).getD 0 : Int) = (texts.dateParse right.recordedAt).getD 0 ∧
        textLe left.eventId right.eventId = true := by
  simp only [earlier, Bool.or_eq_true, Bool.and_eq_true, decide_eq_true_eq]

theorem earlier_notAfter {left right : JournalRecord}
    (hleft : (texts.dateParse left.recordedAt).isSome = true)
    (hright : (texts.dateParse right.recordedAt).isSome = true)
    (h : earlier texts left right = true) : notAfter texts left right := by
  obtain ⟨leftAt, hl⟩ := Option.isSome_iff_exists.1 hleft
  obtain ⟨rightAt, hr⟩ := Option.isSome_iff_exists.1 hright
  rw [earlier_iff, hl, hr, Option.getD_some, Option.getD_some] at h
  simp only [notAfter, byRecordedTime, hl, hr]
  refine ⟨_, rfl, ?_⟩
  rcases h with hlt | ⟨heq, htext⟩
  · have hne : leftAt - rightAt ≠ 0 := by
      intro hzero
      rw [Int.sub_eq_zero.1 hzero] at hlt
      exact Int.lt_irrefl _ hlt
    rw [if_pos hne]
    exact Int.le_of_lt (Int.sub_neg_of_lt hlt)
  · have hzero : ¬ (leftAt - rightAt ≠ 0) := by
      rw [heq, Int.sub_self]
      exact fun h => h rfl
    rw [if_neg hzero, compareTexts]
    split
    · exact Int.le_refl 0
    · decide

instance earlier_total : Std.Total fun left right => earlier texts left right = true :=
  ⟨fun left right => by
    rw [earlier_iff, earlier_iff]
    have htext := textLe_total left.eventId right.eventId
    rw [Bool.or_eq_true] at htext
    rcases Int.lt_trichotomy ((texts.dateParse left.recordedAt).getD 0)
      ((texts.dateParse right.recordedAt).getD 0) with h | h | h
    · exact .inl (.inl h)
    · exact htext.imp (fun ht => .inr ⟨h, ht⟩) fun ht => .inr ⟨h.symm, ht⟩
    · exact .inr (.inl h)⟩

instance earlier_trans : IsTrans JournalRecord fun left right => earlier texts left right = true :=
  ⟨fun first second third h h' => by
    rw [earlier_iff] at *
    rcases h with hlt | ⟨heq, htext⟩ <;> rcases h' with hlt' | ⟨heq', htext'⟩
    · exact .inl (Int.lt_trans hlt hlt')
    · exact .inl (heq' ▸ hlt)
    · exact .inl (heq ▸ hlt')
    · exact .inr ⟨heq.trans heq', textLe_trans htext htext'⟩⟩

def insertionOrder : RecordSort texts where
  sort records := records.insertionSort fun left right => earlier texts left right = true
  perm records := List.perm_insertionSort _ records
  sorted records h := by
    have hsorted := List.pairwise_insertionSort
      (fun left right => earlier texts left right = true) records
    apply hsorted.imp_of_mem
    intro left right hleft hright hearlier
    rw [List.mem_insertionSort] at hleft hright
    exact earlier_notAfter texts (h left hleft) (h right hright) hearlier

end Order

def morning : ReplayContext where
  workspaceId := js "W"
  now := 1791192600000
  texts := instantTexts [(js "2026-10-05T09:00:00.000Z", 1791190800000),
    (js "2026-10-05T09:01:00.000Z", 1791190860000)]
  order := insertionOrder _
  holdId eventId := js "hold-" ++ eventId

/-- A marked release of `supersedes`. -/
def markedRelease (eventId supersedes recordedAt : JsString) : JournalRecord where
  eventId := eventId
  workspaceId := js "W"
  scope := .firm
  canonicalKey := js "F"
  canonicalizerVersion := js "v1"
  source := js "admin_supersession"
  actorUserId := none
  commandId := none
  supersedesEventId := some supersedes
  supersessionReason := some (js "correction")
  recordedAt := recordedAt
  channel := .all
  firmId := none
  committed := true

def selfSuperseding : JournalRecord :=
  markedRelease (js "A") (js "A") (js "2026-10-05T09:00:00.000Z")

/-- A release of an unknown event, and a later release of that release. -/
def hangingPair : List JournalRecord :=
  [markedRelease (js "A") (js "X") (js "2026-10-05T09:00:00.000Z"),
   markedRelease (js "B") (js "A") (js "2026-10-05T09:01:00.000Z")]

def restored : Database := Database.withFirms .empty

/-- A record that supersedes itself is never placed; an orphan below a later record is reported
twice. -/
theorem replay_accounts_fails :
    ¬ ReplayAccounts morning restored [selfSuperseding] ∧
      ¬ ReplayAccounts morning restored hangingPair := by
  constructor
  · rintro ⟨depth, placing, hplace, -⟩
    have hmissing : (selectRecords morning restored [selfSuperseding]).missing
        = [selfSuperseding] := by decide +kernel
    have hsort : morning.order.sort [selfSuperseding] = [selfSuperseding] := by decide +kernel
    have hget : getRecord [selfSuperseding] (js "A") = some selfSuperseding := by decide +kernel
    have hloop : ∀ depth, place restored [selfSuperseding] depth selfSuperseding ⟨[], [], []⟩
        = none := by
      intro depth
      induction depth with
      | zero => rfl
      | succ depth ih =>
        have hsuper : selfSuperseding.supersedesEventId = some (js "A") := rfl
        rw [place, if_neg List.not_mem_nil]
        simp only [hsuper, hget, ih]
    have hskip : ¬ (selfSuperseding.eventId ∈ ([] : List JsString) ∨
        selfSuperseding.eventId ∈ ([] : List JsString)) := by decide
    rw [hmissing, placeSelected, hsort, placeRecords, if_neg hskip] at hplace
    simp only [hloop] at hplace
    cases hplace
  · rintro ⟨depth, placing, hplace, hplaced, -⟩
    have hmissing : (selectRecords morning restored hangingPair).missing = hangingPair := by
      decide +kernel
    have hsort : morning.order.sort hangingPair = hangingPair := by decide +kernel
    have htwo : (placeRecords restored hangingPair 2 hangingPair ⟨[], [], []⟩).map
        Placing.orphanSupersessions = some [js "A", js "A", js "B"] := by decide +kernel
    obtain ⟨twice, htwo, horphans⟩ := Option.map_eq_some_iff.1 htwo
    rw [hmissing, placeSelected, hsort] at hplace
    have hrun : Placement.placeAll JournalRecord.eventId (recordLink restored hangingPair)
        (max depth 2) hangingPair (Placing.state ⟨[], [], []⟩) = some placing.state := by
      apply Placement.placeAll_mono (Nat.le_max_left depth 2)
      rw [← placeRecords_state, hplace, Option.map_some]
    have hrun' : Placement.placeAll JournalRecord.eventId (recordLink restored hangingPair)
        (max depth 2) hangingPair (Placing.state ⟨[], [], []⟩) = some twice.state := by
      apply Placement.placeAll_mono (Nat.le_max_right depth 2)
      rw [← placeRecords_state, htwo, Option.map_some]
    rw [hrun] at hrun'
    have hsame : placing.orphanSupersessions = twice.orphanSupersessions :=
      congrArg Placement.State.refused (Option.some.inj hrun')
    have honce := hplaced.accounted.1
    simp only [List.flatten_cons] at honce
    have hnodup := (List.nodup_append'.1 (List.nodup_append'.1 honce).2.1).1
    rw [hsame, horphans] at hnodup
    exact absurd hnodup (by decide)

end FoundingSales.Suppression
