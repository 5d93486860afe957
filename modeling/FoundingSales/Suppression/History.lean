import FoundingSales.Suppression.Stops
import FoundingSales.Crm.MergeCopies
import FoundingSales.Library.Runs

/-!
Histories of one workspace: transactions one after another, each under the lock on the
suppression history, and what they append to the journal. A stop is appended inside its
transaction, before its row; a release after the commit, marked, unless the append is lost.

Proved here:
* `Operation.perform_change`: what an operation that commits can have done;
* `World.consistent`: the log is sound after every history.
-/

namespace FoundingSales.Suppression

open Tables Crm

/-- A command that writes suppressions, or the merge of two firms. -/
inductive Operation
  | recordSuppression (input : RecordSuppressionInput)
  | recordCorrection (eventId : JsString) (commandId : Option JsString)
  | recordAdminSupersession (eventId : JsString) (reason : AdminSupersessionReason)
      (commandId : Option JsString)
  | finalizeManualSuppression (eventId : JsString)
  | mergeFirms (reads : MergeReads) (input : MergeFirmsInput)

inductive Ending
  /-- The releases of these event ids are not appended after the commit. -/
  | commits (lost : JsString → Bool)
  /-- After so many appends inside the transaction. -/
  | rollsBack (appended : Nat)

structure Transaction where
  actor : Actor
  now : Instant
  newId : Uuid
  operation : Operation
  ending : Ending

structure Workspace where
  platform : Platform
  id : Uuid

def Workspace.context (w : Workspace) (t : Transaction) : Context :=
  ⟨w.platform, w.id, t.actor, t.now, t.newId⟩

/-- What a transaction appends before and after its commit, and the tables it leaves. -/
structure Effect where
  journalled : List SuppressionJournalRecord
  releases : List SuppressionJournalRecord
  result : Except SqlError Database

def Operation.perform (c : Context) (db : Database) : Operation → Effect
  | .recordSuppression input =>
    let outcome := Suppression.recordSuppression c input db
    ⟨outcome.journalled, [], outcome.result.map Prod.snd⟩
  | .recordCorrection eventId commandId =>
    match Suppression.recordCorrection c eventId commandId db with
    | .ok (.accepted outcome, db) => ⟨[], outcome.journalRecords, .ok db⟩
    | .ok (.refused _, db) => ⟨[], [], .ok db⟩
    | .error e => ⟨[], [], .error e⟩
  | .recordAdminSupersession eventId reason commandId =>
    match Suppression.recordAdminSupersession c eventId reason commandId db with
    | .ok (.accepted outcome, db) => ⟨[], outcome.journalRecords, .ok db⟩
    | .ok (.refused _, db) => ⟨[], [], .ok db⟩
    | .error e => ⟨[], [], .error e⟩
  | .finalizeManualSuppression eventId =>
    ⟨[], [], (Suppression.finalizeManualSuppression c eventId db).map Prod.snd⟩
  | .mergeFirms reads input =>
    let outcome := Crm.mergeFirms c reads input db
    match outcome.result with
    | .ok (.accepted merged, db) => ⟨outcome.journalled, merged.journalAfterCommit, .ok db⟩
    | .ok (.refused _, db) => ⟨outcome.journalled, [], .ok db⟩
    | .error e => ⟨outcome.journalled, [], .error e⟩

/-- The tables, and the journal in the order of its appends. -/
structure World where
  db : Database
  journal : List SuppressionJournalRecord

def World.start (firms : Firms) : World := ⟨.withFirms firms, []⟩

def SuppressionJournalRecord.marked (record : SuppressionJournalRecord) :
    SuppressionJournalRecord := { record with committed := true }

/-- One transaction. -/
def World.step (w : Workspace) (world : World) (t : Transaction) : World :=
  let effect := t.operation.perform (w.context t) world.db
  match effect.result, t.ending with
  | .ok db, .commits lost =>
    ⟨db, world.journal ++ (effect.journalled ++
      (effect.releases.filter fun record => !lost record.eventId).map
        SuppressionJournalRecord.marked)⟩
  | .ok _, .rollsBack appended => ⟨world.db, world.journal ++ effect.journalled.take appended⟩
  | .error _, _ => ⟨world.db, world.journal ++ effect.journalled⟩

def World.after (w : Workspace) (firms : Firms) (history : List Transaction) : World :=
  Runs.run (World.step w) (World.start firms) history

/-- Database time never goes back. -/
def Chronological (history : List Transaction) : Prop :=
  history.Pairwise fun earlier later => earlier.now ≤ later.now

/-! ## What a transaction can do -/

/-- What every history leaves. -/
structure Consistent (db : Database) : Prop where
  sound : Sound db
  carried : Carried db none
  decided : Decided db

/-- What an operation that commits can have done, with what it appends. -/
inductive Change (c : Context) (db : Database) :
    Operation → List SuppressionJournalRecord → List SuppressionJournalRecord → Database → Prop
  | none (operation : Operation) : Change c db operation [] [] db
  | recorded {input : RecordSuppressionInput} {row : SuppressionEvent} {db' : Database}
      (h : Recorded c db db' row) :
      Change c db (.recordSuppression input) [stopRecord c input.firmId row] [] db'
  | corrected {commandId : Option JsString} {original : SuppressionEvent}
      {written : List SuppressionEvent} {db' : Database}
      (h : Corrected c commandId db db' original written) :
      Change c db (.recordCorrection original.eventId commandId) []
        ((supersessionRow c original .mistakenEntryCorrection .mistakenEntry
          commandId :: written).map (journalRecordOf c)) db'
  | superseded {reason : AdminSupersessionReason} {commandId : Option JsString}
      {original : SuppressionEvent} {written : List SuppressionEvent} {db' : Database}
      (h : AdminSuperseded c reason commandId db db' original written) :
      Change c db (.recordAdminSupersession original.eventId reason commandId) []
        ((supersessionRow c original .adminSupersession reason.reason
          commandId :: written).map (journalRecordOf c)) db'
  | finalized {event : SuppressionEvent} {db' : Database} (h : Finalized c db db' event) :
      Change c db (.finalizeManualSuppression event.eventId) [] [] db'
  | merged {reads : MergeReads} {input : MergeFirmsInput} {copied : List SuppressionEvent}
      {db' : Database}
      (h : Merged c input.sourceFirmId input.targetFirmId input.commandId db db' copied) :
      Change c db (.mergeFirms reads input)
        ((copied.filter fun event => event.supersedesEventId.isNone).map
          fun event => journalRecordOf c (copyRow c input.targetFirmId input.commandId event))
        ((copied.filter fun event => event.supersedesEventId.isSome).map
          fun event => journalRecordOf c (copyRow c input.targetFirmId input.commandId event)) db'

theorem Operation.perform_change {c : Context} {db db' : Database} (hc : Consistent db)
    (operation : Operation) (h : (operation.perform c db).result = .ok db') :
    Change c db operation (operation.perform c db).journalled (operation.perform c db).releases
      db' := by
  cases operation with
  | recordSuppression input =>
    simp only [perform] at h ⊢
    cases hrun : (Suppression.recordSuppression c input db).result with
    | error e =>
      rw [hrun] at h
      cases h
    | ok outcome =>
      obtain ⟨result, db''⟩ := outcome
      rw [hrun] at h
      cases h
      rcases recordSuppression_spec hc.decided hrun with ⟨hnone, rfl⟩ | ⟨row, hone, hrecorded⟩
      · rw [hnone]
        exact .none _
      · rw [hone]
        exact .recorded hrecorded
  | recordCorrection eventId commandId =>
    simp only [perform] at h ⊢
    cases hrun : Suppression.recordCorrection c eventId commandId db with
    | error e =>
      rw [hrun] at h
      cases h
    | ok outcome =>
      obtain ⟨result, db''⟩ := outcome
      rcases recordCorrection_spec hc.sound hc.carried hrun with
        ⟨reason, rfl, rfl⟩ | ⟨original, written, outcome, rfl, rfl, hrecords, hcorrected⟩
      · rw [hrun] at h
        cases h
        exact .none _
      · rw [hrun] at h
        cases h
        show Change c db _ [] outcome.journalRecords db'
        rw [hrecords]
        exact .corrected hcorrected
  | recordAdminSupersession eventId reason commandId =>
    simp only [perform] at h ⊢
    cases hrun : Suppression.recordAdminSupersession c eventId reason commandId db with
    | error e =>
      rw [hrun] at h
      cases h
    | ok outcome =>
      obtain ⟨result, db''⟩ := outcome
      rcases recordAdminSupersession_spec hc.sound hc.carried hrun with
        ⟨refusal, rfl, rfl⟩ | ⟨original, written, outcome, rfl, rfl, hrecords, hsuperseded⟩
      · rw [hrun] at h
        cases h
        exact .none _
      · rw [hrun] at h
        cases h
        show Change c db _ [] outcome.journalRecords db'
        rw [hrecords]
        exact .superseded hsuperseded
  | finalizeManualSuppression eventId =>
    simp only [perform] at h ⊢
    cases hrun : Suppression.finalizeManualSuppression c eventId db with
    | error e =>
      rw [hrun] at h
      cases h
    | ok outcome =>
      obtain ⟨result, db''⟩ := outcome
      rw [hrun] at h
      cases h
      rcases finalizeManualSuppression_spec hrun with rfl | ⟨event, rfl, hfinalized⟩
      · exact .none _
      · exact .finalized hfinalized
  | mergeFirms reads input =>
    simp only [perform] at h ⊢
    rcases mergeFirms_cases c reads input db with ⟨reason, hrun⟩ | ⟨sourceRow, targetRow, hallowed⟩
    · rw [hrun] at h ⊢
      cases h
      exact .none _
    · obtain ⟨copied, db'', hrun, hmerged, -⟩ := mergeFirms_of_allowed hc.sound hallowed
      rw [hrun] at h ⊢
      cases h
      exact .merged hmerged

/-! ## What every history leaves -/

theorem Superseding.mem {db db' : Database} {original row event : SuppressionEvent}
    {written : List SuppressionEvent} (h : Superseding db db' original row written) :
    event ∈ db'.events ↔ event ∈ db.events ∨ event = row ∨ event ∈ written := by
  rw [← Table.mem_rows, h.rows, List.mem_append, List.mem_cons]
  exact Iff.rfl

theorem Merged.consistent {c : Context} {db db' : Database} {source target : FirmId}
    {commandId : Option JsString} {copied : List SuppressionEvent}
    (h : Merged c source target commandId db db' copied) (hc : Consistent db) :
    Consistent db' := by
  refine ⟨h.sound hc.sound, h.carried hc.sound hc.carried, fun claim hclaim => ?_⟩
  rw [h.finalizations] at hclaim
  obtain ⟨event, hevent, hid⟩ := hc.decided claim hclaim
  exact ⟨event, h.mem.2 (.inl hevent), hid⟩

theorem Change.consistent {c : Context} {db db' : Database} {operation : Operation}
    {journalled releases : List SuppressionJournalRecord}
    (h : Change c db operation journalled releases db') (hc : Consistent db) :
    Consistent db' := by
  cases h with
  | none => exact hc
  | recorded h =>
    refine ⟨h.sound hc.sound, h.carried hc.sound hc.carried, fun claim hclaim => ?_⟩
    have hkept : claim ∈ db.finalizations → ∃ event ∈ db'.events, event.eventId = claim.eventId := by
      intro hold
      obtain ⟨event, hevent, hid⟩ := hc.decided claim hold
      exact ⟨event, h.mem.2 (.inl hevent), hid⟩
    rw [h.finalizations] at hclaim
    split at hclaim
    · rcases Table.mem_upsert.1 hclaim with rfl | ⟨hold, -⟩
      · exact ⟨_, h.mem.2 (.inr rfl), rfl⟩
      · exact hkept hold
    · exact hkept hclaim
  | corrected h =>
    refine ⟨h.superseding.sound, h.superseding.carried, fun claim hclaim => ?_⟩
    rw [h.finalizations] at hclaim
    rcases Table.mem_upsert.1 hclaim with rfl | ⟨hold, -⟩
    · exact ⟨_, h.superseding.mem.2 (.inl h.superseding.logged), rfl⟩
    · obtain ⟨event, hevent, hid⟩ := hc.decided claim hold
      exact ⟨event, h.superseding.mem.2 (.inl hevent), hid⟩
  | superseded h =>
    refine ⟨h.superseding.sound, h.superseding.carried, fun claim hclaim => ?_⟩
    rw [h.finalizations] at hclaim
    obtain ⟨event, hevent, hid⟩ := hc.decided claim hclaim
    exact ⟨event, h.superseding.mem.2 (.inl hevent), hid⟩
  | finalized h =>
    refine ⟨hc.sound.of_eq h.events h.firms, hc.carried.of_eq h.events, fun claim hclaim => ?_⟩
    rw [h.events]
    rw [h.finalizations] at hclaim
    rcases Table.mem_upsert.1 hclaim with rfl | ⟨hold, -⟩
    · exact ⟨_, h.logged, rfl⟩
    · exact hc.decided claim hold
  | merged h => exact Merged.consistent h hc

/-- A transaction leaves the tables as they were, or commits a change of its operation's. -/
theorem World.step_cases {w : Workspace} {world : World} (hc : Consistent world.db)
    (t : Transaction) :
    (world.step w t).db = world.db ∨ ∃ journalled releases lost, t.ending = .commits lost ∧
      Change (w.context t) world.db t.operation journalled releases (world.step w t).db := by
  cases hrun : (t.operation.perform (w.context t) world.db).result with
  | error e =>
    left
    simp only [World.step, hrun]
  | ok db =>
    have hchange := Operation.perform_change hc t.operation hrun
    cases hending : t.ending with
    | commits lost =>
      have hdb : (world.step w t).db = db := by simp only [World.step, hrun, hending]
      rw [hdb]
      exact .inr ⟨_, _, lost, rfl, hchange⟩
    | rollsBack appended =>
      left
      simp only [World.step, hrun, hending]

theorem Consistent.start (firms : Firms) : Consistent (World.start firms).db where
  sound :=
    { backward := Links.backward_nil _ _
      same := fun _ h => (nomatch h)
      once := fun _ h => (nomatch h)
      checks := fun _ h => (nomatch h)
      copies := fun _ h => (nomatch h)
      keys := fun _ h => (nomatch h) }
  carried _ h := (nomatch h)
  decided _ h := (nomatch h)

theorem World.step_consistent {w : Workspace} {world : World} (hc : Consistent world.db)
    (t : Transaction) : Consistent (world.step w t).db := by
  rcases World.step_cases (w := w) hc t with hsame | ⟨_, _, _, -, hchange⟩
  · rw [hsame]
    exact hc
  · exact hchange.consistent hc

theorem World.consistent (w : Workspace) (firms : Firms) (history : List Transaction) :
    Consistent (World.after w firms history).db := by
  apply Runs.run_invariant (I := fun world : World => Consistent world.db)
  · exact fun _ t h => World.step_consistent h t
  · exact Consistent.start firms

end FoundingSales.Suppression
