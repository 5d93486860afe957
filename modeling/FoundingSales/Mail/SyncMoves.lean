import FoundingSales.Mail.WholeRecords

/-!
The moves of a run of `mail.sync`: what one statement may do to what the run has listed and
to the tables.

Proved here:

* `Database.startRecovery_spec` and its two callers: when a cursor is handed off;
* `SyncPlan.Made.commits`: what the last statement of a run writes;
* `syncCode_obeys`: every statement of a run, and every change of the account, is a move.
-/

namespace FoundingSales.Mail

open Tables Processes Outbound

/-! ## What a run is doing -/

inductive Work
  | idle
  /-- What is listed of the history beyond `start`, and where the listing ended. -/
  | listing (start : HistoryId) (records : List HistoryRecord) (ended : Option HistoryId)
  /-- The row is locked, with this cursor. -/
  | locked (cursor : Option HistoryId)
  /-- The id a recovery hands off, read after that cursor. -/
  | handing (cursor : Option HistoryId) (startHistoryId : HistoryId)

/-- A run that has listed nothing has listed nothing of any cursor. -/
def Work.Lists (work : Work) (start : HistoryId) (records : List HistoryRecord)
    (ended : Option HistoryId) : Prop :=
  work = .listing start records ended ∨ (records = [] ∧ ended = none)

abbrev SyncMode := Mode Work

def restMode : SyncMode := ⟨[], .idle⟩

/-- A write that leaves the cursor, its generation and the coverage claims alone. -/
structure Database.Still (db db' : Database) : Prop where
  cursor : db'.cursor = db.cursor
  watermark : db'.watermark = db.watermark
  generation : db'.generation = db.generation
  messages : db'.messages = db.messages
  hold : .coverageIncomplete ∈ db.holds → .coverageIncomplete ∈ db'.holds

/-- A write that may hand a cursor off to a recovery. -/
structure Database.HandsOff (startHistoryId : HistoryId) (db db' : Database) : Prop where
  cursor : db'.cursor = if (db'.generation.bind db.recoveries.find?).isSome then db.cursor
    else some startHistoryId
  watermark : db'.watermark = db.watermark
  messages : db'.messages = db.messages
  hold : .coverageIncomplete ∈ db.holds → .coverageIncomplete ∈ db'.holds

/-- The run claims coverage: it read to the end of the history, took every record, and
finished every message of it. -/
structure CommittedRun.ReadToEnd (run : CommittedRun) (ended : Option HistoryId) : Prop where
  exhausted : run.historyExhausted = true
  taken : run.recordsLeft = 0
  finished : run.pipeline.readFailure = none
  cursor : run.cursorTo.isSome = true ∧ run.cursorTo = ended

/-- What a committing run writes, its listing as given. -/
structure Commits (m : SyncMode) (start : HistoryId) (records : List HistoryRecord)
    (ended : Option HistoryId) (run : CommittedRun) (db db' : Database) : Prop where
  lists : m.work.Lists start records ended
  cursorFrom : run.cursorFrom = start
  generation : db'.generation = db.generation
  messages : ∀ row, row ∈ db'.messages ↔ row ∈ db.messages ∨ row ∈ run.pipeline.rows
  shown : ∀ id how, (id, how) ∈ run.pipeline.finished →
    how.Shown (Has run.pipeline.rows m.known) id
  lost : run.cursorTo = none → db'.cursor = db.cursor
  won : ∀ cursor, run.cursorTo = some cursor → db.cursor = some start ∧ db'.cursor = some cursor ∧
    Stands start records ended (run.pipeline.finished.map Prod.fst) cursor
  watermark : db'.watermark = run.coverageWatermarkAt.or db.watermark
  hold : .coverageIncomplete ∈ db.holds → .coverageIncomplete ∉ db'.holds → run.released = true
  claims : run.coverageWatermarkAt.isSome = true ∨ run.released = true → run.ReadToEnd ended

inductive Move (p : ProcessId) : SyncMode × Store → SyncMode × Store → Prop
  | learn {m : SyncMode} {s : Store} {known : List MailMessage}
      (h : ∀ row ∈ known, row ∈ m.known ∨ row ∈ s.messages) :
      Move p (m, s) (⟨known, m.work⟩, s)
  | account {m : SyncMode} {s : Store} (event : GmailEvent) :
      Move p (m, s) (m, { s with gmail := s.gmail.after event })
  | page {m : SyncMode} {s : Store} {start : HistoryId} {records : List HistoryRecord}
      {page : HistoryPage} (hwork : m.work.Lists start records none)
      (h : page.Follows s.gmail start records) :
      Move p (m, s) (⟨m.known, .listing start (records ++ page.records)
        (if page.more then none else some page.historyId)⟩, s)
  | lock {m : SyncMode} {s : Store} : Move p (m, s) (⟨m.known, .locked s.db.cursor⟩, s)
  | profile {m : SyncMode} {s : Store} {cursor : Option HistoryId}
      (hwork : m.work = .locked cursor ∨ cursor = none) :
      Move p (m, s) (⟨m.known, .handing cursor s.gmail.historyId⟩, s)
  | write {m : SyncMode} {s : Store} {db : Database} (h : s.db.Still db) :
      Move p (m, s) (m, { s with db := db })
  /-- The recovery is of the generation of the locked row, or of the next one. -/
  | handOff {m : SyncMode} {s : Store} {db : Database} {cursor : Option HistoryId}
      {startHistoryId : HistoryId} (hwork : m.work = .handing cursor startHistoryId)
      (hgeneration : (db.generation = s.db.generation ∧ s.db.cursor = cursor) ∨
        ∃ g, s.db.generation = some g ∧ db.generation = some (g + 1))
      (h : s.db.HandsOff startHistoryId db) :
      Move p (m, s) (m, { s with
        db := db
        startedFrom := if (db.generation.bind s.db.recoveries.find?).isSome then s.startedFrom
          else db.cursor })
  | commit {m : SyncMode} {s : Store} {db : Database} {run : CommittedRun} {start : HistoryId}
      {records : List HistoryRecord} {ended : Option HistoryId}
      (h : Commits m start records ended run s.db db) :
      Move p (m, s) (m, { s with db := db, runs := run :: s.runs })

theorem reads_move (p : ProcessId) : Reads Store.messages Move p :=
  fun _ _ _ h => .learn h

/-! ## The writes -/

namespace Database

variable {db db' : Database}

theorem still_openMailboxHold (reason : MailboxHold) : db.Still (db.openMailboxHold reason) := by
  unfold openMailboxHold
  split
  · exact ⟨rfl, rfl, rfl, rfl, id⟩
  · exact ⟨rfl, rfl, rfl, rfl, List.mem_cons_of_mem _⟩

theorem still_markMailboxDisconnected (status : MailboxStatus) :
    db.Still (db.markMailboxDisconnected status) := by
  cases hmailbox : db.mailbox with
  | none =>
    constructor <;>
      simp [markMailboxDisconnected, setMailbox, cursor, watermark, generation, hmailbox]
  | some mailbox =>
    by_cases hstatus : mailbox.status = .connected <;> constructor <;>
      simp [markMailboxDisconnected, setMailbox, cursor, watermark, generation, hmailbox, hstatus]

theorem Still.trans {a b c : Database} (hab : a.Still b) (hbc : b.Still c) : a.Still c :=
  ⟨hbc.cursor.trans hab.cursor, hbc.watermark.trans hab.watermark,
    hbc.generation.trans hab.generation, hbc.messages.trans hab.messages,
    fun h => hbc.hold (hab.hold h)⟩

theorem still_holdDisconnected {fence : MailboxFence} (h : db.holdDisconnected fence = some db') :
    db.Still db' := by
  obtain ⟨_, -, hdb⟩ := Option.bind_eq_some_iff.1 h
  obtain rfl := Option.some.inj hdb
  exact still_openMailboxHold _

theorem still_holdForRevokedGrant {fence : MailboxFence}
    (h : db.holdForRevokedGrant fence = some db') : db.Still db' := by
  obtain ⟨_, -, hdb⟩ := Option.bind_eq_some_iff.1 h
  obtain rfl := Option.some.inj hdb
  exact (still_markMailboxDisconnected _).trans (still_openMailboxHold _)

theorem still_recordSyncError {error : JsString} {fence : MailboxFence}
    (h : db.recordSyncError error fence = some db') : db.Still db' := by
  obtain ⟨_, -, hdb⟩ := Option.bind_eq_some_iff.1 h
  obtain rfl := Option.some.inj hdb
  cases hmailbox : db.mailbox with
  | none => constructor <;> simp [setMailbox, cursor, watermark, generation, hmailbox]
  | some mailbox => constructor <;> simp [setMailbox, cursor, watermark, generation, hmailbox]

theorem lockMailboxAtFence_eq_some {fence : MailboxFence} {mailbox : Mailbox} :
    db.lockMailboxAtFence fence = some mailbox ↔ db.mailbox = some mailbox ∧
      fenceOf mailbox = fence := by
  simp [lockMailboxAtFence, Option.filter_eq_some_iff]

/-- A recovery that is there leaves the cursor; a new one takes the one it is given. -/
theorem startRecovery_spec {input : StartRecoveryInput} {now : Instant}
    (h : db.startRecovery input now = some db') :
    ((db.recoveries.find? input.fence.generation).isSome = true ∧ db' = db) ∨
      (db.recoveries.find? input.fence.generation = none ∧
        ∃ mailbox recoveries, db.mailbox = some mailbox ∧ fenceOf mailbox = input.fence ∧
          db' = { db with
            mailbox := some { mailbox with
              historyId := some input.startHistoryId
              historyIdUpdatedAt := some now }
            recoveries := recoveries }) := by
  unfold startRecovery at h
  split at h
  · next hfound => exact .inl ⟨by rw [hfound]; rfl, (Option.some.inj h).symm⟩
  · next hfound =>
    right
    obtain ⟨recoveries, -, h⟩ := Option.bind_eq_some_iff.1 h
    obtain ⟨mailbox, hlock, h⟩ := Option.bind_eq_some_iff.1 h
    obtain ⟨hmailbox, hfence⟩ := lockMailboxAtFence_eq_some.1 hlock
    exact ⟨hfound, mailbox, recoveries, hmailbox, hfence, (Option.some.inj h).symm⟩

/-- A release takes holds away and nothing else. -/
theorem releaseMailboxHold_frame (db : Database) (reason : MailboxHold) :
    (db.releaseMailboxHold reason).mailbox = db.mailbox ∧
      (db.releaseMailboxHold reason).messages = db.messages := by
  unfold releaseMailboxHold
  split
  · exact ⟨rfl, rfl⟩
  · split
    · exact ⟨rfl, rfl⟩
    · split <;> exact ⟨rfl, rfl⟩

/-- The handoff of a recovery for the generation of the row. -/
theorem handsOff_baseline {locked : Mailbox} {input : StartRecoveryInput} {now : Instant}
    (hlocked : db.mailbox = some locked) (hfence : fenceOf locked = input.fence)
    (h : (db.openMailboxHold .coverageIncomplete).startRecovery input now = some db') :
    db'.generation = db.generation ∧ db.HandsOff input.startHistoryId db' := by
  have hstill := db.still_openMailboxHold .coverageIncomplete
  have hrecoveries : (db.openMailboxHold .coverageIncomplete).recoveries = db.recoveries := by
    unfold openMailboxHold
    split <;> rfl
  have hgen : db.generation = some input.fence.generation := by
    rw [← hfence, generation, hlocked]
    rfl
  rcases startRecovery_spec h with ⟨hfound, rfl⟩ | ⟨hfound, mailbox, recoveries, hmailbox, hat, rfl⟩
  · rw [hrecoveries] at hfound
    refine ⟨hstill.generation, ?_, hstill.watermark, hstill.messages, hstill.hold⟩
    rw [hstill.generation, hgen, Option.bind_some, if_pos hfound, hstill.cursor]
  · rw [hrecoveries] at hfound
    have hsame : mailbox = locked := by
      have hkept : (db.openMailboxHold .coverageIncomplete).mailbox = db.mailbox := by
        unfold openMailboxHold
        split <;> rfl
      rw [hkept, hlocked] at hmailbox
      exact (Option.some.inj hmailbox).symm
    subst hsame
    refine ⟨?_, ?_, ?_, hstill.messages, hstill.hold⟩
    · simp [generation, hlocked]
    · show some input.startHistoryId = _
      rw [if_neg]
      show ¬ ((some mailbox.generation).bind db.recoveries.find?).isSome = true
      have : mailbox.generation = input.fence.generation := by rw [← hfence]; rfl
      rw [this, Option.bind_some, hfound]
      simp
    · simp [watermark, hlocked]

/-- The handoff of an expired cursor, to the next generation. -/
theorem handsOff_expired {mailbox : Mailbox} {startHistoryId : HistoryId} {e : Env}
    (h : expireCursor mailbox startHistoryId e db = some db') :
    (∃ g, db.generation = some g ∧ db'.generation = some (g + 1)) ∧
      db.HandsOff startHistoryId db' := by
  obtain ⟨⟨g, raised⟩, hraise, h⟩ := Option.bind_eq_some_iff.1 h
  obtain ⟨stored, hlock, hraise⟩ := Option.bind_eq_some_iff.1 hraise
  obtain ⟨hstored, hfence⟩ := lockMailboxAtFence_eq_some.1 hlock
  obtain ⟨rfl, rfl⟩ := Prod.mk.inj (Option.some.inj hraise)
  have hnow : ((db.setMailbox fun mailbox => { mailbox with
        generation := mailbox.generation + 1 }).setSyncState .recovering).mailbox
      = some { stored with generation := stored.generation + 1, syncState := .recovering } := by
    simp [setMailbox, setSyncState, hstored]
  have haddress : stored.emailAddress = mailbox.emailAddress :=
    congrArg MailboxFence.emailAddress hfence
  obtain ⟨hgen, hoff⟩ := handsOff_baseline hnow (by simp [fenceOf, haddress]) h
  refine ⟨⟨stored.generation, by simp [generation, hstored], ?_⟩, ?_⟩
  · rw [hgen, generation, hnow]
    rfl
  · constructor
    · rw [hoff.cursor]
      congr 1
      simp [cursor, setMailbox, setSyncState, hstored]
    · rw [hoff.watermark]
      simp [watermark, setMailbox, setSyncState, hstored]
    · exact hoff.messages
    · exact hoff.hold

end Database

/-- The last statement of a run over its plan. -/
theorem SyncPlan.Made.commits {plan : SyncPlan} {maxMessages : Nat} {m : SyncMode} {e : Env}
    {s s' : Store} {report : MailSyncReport} (h : plan.Made maxMessages m.known)
    (hlists : m.work.Lists plan.cursor plan.records plan.ended)
    (hfinish : plan.finish e s = some (report, s')) :
    ∃ run db, Commits m plan.cursor plan.records plan.ended run s.db db ∧
      s' = { s with db := db, runs := run :: s.runs } := by
  obtain ⟨messages, hinsert, hfinish⟩ := Option.bind_eq_some_iff.1 hfinish
  obtain ⟨⟨outcome, db⟩, hadvance, hfinish⟩ := Option.bind_eq_some_iff.1 hfinish
  obtain ⟨mailbox, hlock, hadvance⟩ := Option.bind_eq_some_iff.1 hadvance
  obtain ⟨hmailbox, -⟩ := Database.lockMailboxAtFence_eq_some.1 hlock
  have hmailbox : s.db.mailbox = some mailbox := hmailbox
  have hshown : ∀ id how, (id, how) ∈ plan.pipeline.finished →
      how.Shown (Has plan.pipeline.rows m.known) id := by
    obtain ⟨ends, hends, -, -, -, hshows⟩ := h.pipeline.finished
    intro id how hid
    rw [hends] at hid
    exact hshows id how (by simpa [emptyPipelineReport] using hid)
  split at hadvance
  · next hcursor =>
    obtain ⟨rfl, rfl⟩ := Prod.mk.inj (Option.some.inj hadvance)
    obtain ⟨-, hs'⟩ := Prod.mk.inj (Option.some.inj hfinish)
    set moved : Database := { s.db with
      messages := messages
      mailbox := some { mailbox with
        historyId := some plan.cursorTo
        historyIdUpdatedAt := some e.now
        coverageWatermarkAt := (plan.watermark e.now).or mailbox.coverageWatermarkAt
        lastSyncError := plan.pipeline.readFailure.map readFailureText } } with hmoved
    set db : Database := if plan.moreToDo = true then moved
      else moved.releaseMailboxHold .coverageIncomplete with hdb
    have hframe : db.mailbox = moved.mailbox ∧ db.messages = moved.messages := by
      rw [hdb]
      split
      · exact ⟨rfl, rfl⟩
      · exact moved.releaseMailboxHold_frame .coverageIncomplete
    have hcovers : plan.moreToDo = false →
        plan.historyExhausted = true ∧ plan.take.recordsLeft = 0 ∧
          plan.pipeline.readFailure = none ∧ some plan.cursorTo = plan.ended := by
      intro hmore
      obtain ⟨hexhausted, hleft, hnone, hto⟩ := plan.complete_of_not_moreToDo hmore
      exact ⟨hexhausted, hleft, hnone, by simp [SyncPlan.ended, hexhausted, hto]⟩
    refine ⟨_, db, ⟨hlists, rfl, ?_, ?_, hshown, ?_, ?_, ?_, ?_, ?_⟩, hs'.symm⟩
    · simp [Database.generation, hframe.1, hmoved, hmailbox]
    · rw [hframe.2]
      exact insertRows_spec hinsert
    · intro hnone
      cases hnone
    · intro cursor hto
      obtain rfl := Option.some.inj hto
      refine ⟨?_, ?_, h.stands⟩
      · simpa [Database.cursor, hmailbox] using hcursor
      · simp [Database.cursor, hframe.1, hmoved]
    · simp [Database.watermark, hframe.1, hmoved, hmailbox]
    · intro hopen hclosed
      exact decide_eq_true ⟨hopen, hclosed⟩
    · intro hclaim
      have hmore : plan.moreToDo = false := by
        by_contra hne
        rw [Bool.not_eq_false] at hne
        rcases hclaim with hwatermark | hreleased
        · simp [SyncPlan.watermark, hne] at hwatermark
        · obtain ⟨hopen, hclosed⟩ := of_decide_eq_true hreleased
          rw [hdb, if_pos hne] at hclosed
          exact hclosed hopen
      obtain ⟨hexhausted, hleft, hnone, hended⟩ := hcovers hmore
      exact ⟨hexhausted, hleft, hnone, rfl, hended⟩
  · obtain ⟨rfl, rfl⟩ := Prod.mk.inj (Option.some.inj hadvance)
    obtain ⟨-, hs'⟩ := Prod.mk.inj (Option.some.inj hfinish)
    refine ⟨_, _, ⟨hlists, rfl, ?_, ?_, hshown, ?_, ?_, ?_, ?_, ?_⟩, hs'.symm⟩
    · rfl
    · exact insertRows_spec hinsert
    · exact fun _ => rfl
    · intro cursor hto
      cases hto
    · rfl
    · intro hopen hclosed
      exact absurd hopen hclosed
    · rintro (hclaim | hclaim) <;> cases hclaim

/-! ## Every statement is a move -/

section Programs

variable {p : ProcessId} {m : SyncMode}

private def Any {α : Type} (_ : SyncMode) (_ : α) : Prop := True

theorem obeys_write {f : Env → Database → Option Database}
    (h : ∀ e db db', f e db = some db' → db.Still db') :
    Prog.Obeys Move p (fun m' _ => m' = m) (write f) m := by
  intro e s b s' hact
  obtain ⟨db, hdb, heq⟩ := Option.map_eq_some_iff.1 hact
  obtain ⟨-, rfl⟩ := Prod.mk.inj heq
  exact ⟨m, .write (h e s.db db hdb), rfl⟩

/-- A write, and then a report. -/
theorem obeys_write_report {f : Env → Database → Option Database} {report : MailSyncReport}
    (h : ∀ e db db', f e db = some db' → db.Still db') :
    Prog.Obeys Move p Any (do write f; return report) m := by
  apply Prog.obeys_bind (obeys_write h)
  intro _ _ _
  exact Prog.obeys_pure trivial

theorem obeys_handOff {f : Env → Database → Option Database} {cursor : Option HistoryId}
    {startHistoryId : HistoryId} {report : MailSyncReport}
    (hwork : m.work = .handing cursor startHistoryId)
    (h : ∀ e db db', f e db = some db' →
      ((db'.generation = db.generation ∧ db.cursor = cursor) ∨
        ∃ g, db.generation = some g ∧ db'.generation = some (g + 1)) ∧
      db.HandsOff startHistoryId db') :
    Prog.Obeys Move p Any (do handOff f; return report) m := by
  apply Prog.obeys_bind (Q := Any)
  · intro e s b s' hact
    obtain ⟨db, hdb, heq⟩ := Option.map_eq_some_iff.1 hact
    obtain ⟨-, rfl⟩ := Prod.mk.inj heq
    obtain ⟨hgeneration, hoff⟩ := h e s.db db hdb
    exact ⟨m, .handOff hwork hgeneration hoff, trivial⟩
  · intro _ _ _
    exact Prog.obeys_pure trivial

/-- The listing ends with what it listed, in order and beyond the cursor. -/
theorem readHistory_obeys (start : HistoryId) (maxMessages pages : Nat)
    (records : List HistoryRecord) (latest : HistoryId) (hwork : m.work.Lists start records none)
    (hlisted : Listed start records) :
    Prog.Obeys Move p (fun m' result => ∀ records' latest' exhausted,
        result = .read records' latest' exhausted →
        Listed start records' ∧
          m'.work.Lists start records' (if exhausted then some latest' else none))
      (readHistory start maxMessages pages records latest) m := by
  induction pages generalizing m records latest with
  | zero =>
    apply Prog.obeys_pure
    intro records' latest' exhausted heq
    cases heq
    exact ⟨hlisted, hwork⟩
  | succ pages ih =>
    unfold readHistory
    apply Prog.obeys_bind (Q := fun m' outcome => ∀ page, outcome = .page page →
      Listed start (records ++ page.records) ∧
        m'.work.Lists start (records ++ page.records)
          (if page.more then none else some page.historyId))
    · intro e s outcome s' hact
      cases hact
      cases houtcome : (e.history s.gmail start records).1 with
      | page page =>
        have hfollows : page.Follows s.gmail start records := by
          have := (e.history s.gmail start records).2
          rwa [houtcome] at this
        refine ⟨_, .page hwork hfollows, ?_⟩
        intro page' heq
        obtain rfl := HistoryOutcome.page.inj (houtcome.symm.trans heq)
        exact ⟨hfollows.listed, .inl rfl⟩
      | historyExpired =>
        refine ⟨m, (reads_move p).still m s, fun page heq => ?_⟩
        exact nomatch houtcome.symm.trans heq
      | refused refusal =>
        refine ⟨m, (reads_move p).still m s, fun page heq => ?_⟩
        exact nomatch houtcome.symm.trans heq
      | threw =>
        refine ⟨m, (reads_move p).still m s, fun page heq => ?_⟩
        exact nomatch houtcome.symm.trans heq
    · intro m₁ outcome hpage
      cases outcome with
      | historyExpired => exact Prog.obeys_pure nofun
      | refused refusal => exact Prog.obeys_pure nofun
      | threw => exact Prog.obeys_pure nofun
      | page page =>
        obtain ⟨hlisted', hwork'⟩ := hpage page rfl
        dsimp only
        split
        · next hlast =>
          apply Prog.obeys_pure
          intro records' latest' exhausted heq
          cases heq
          have : page.more = false := by simpa using hlast
          rw [this] at hwork'
          exact ⟨hlisted', hwork'⟩
        · next hmore =>
          have : page.more = true := by simpa using hmore
          rw [this] at hwork'
          split
          · apply Prog.obeys_pure
            intro records' latest' exhausted heq
            cases heq
            exact ⟨hlisted', hwork'⟩
          · exact ih _ _ hwork' hlisted'

theorem beginBaseline_obeys (mailbox : Mailbox) :
    Prog.Obeys Move p Any (beginBaseline mailbox) m := by
  unfold beginBaseline
  apply Prog.obeys_bind (Q := fun m' locked => fenceOf locked = fenceOf mailbox ∧
    m'.work = .locked locked.historyId)
  · intro e s locked s' hact
    obtain ⟨row, hrow, heq⟩ := Option.map_eq_some_iff.1 hact
    obtain ⟨rfl, rfl⟩ := Prod.mk.inj heq
    obtain ⟨hmailbox, hfence⟩ := Database.lockMailboxAtFence_eq_some.1 hrow
    refine ⟨_, .lock, hfence, ?_⟩
    simp [Database.cursor, hmailbox]
  rintro m₁ locked ⟨hfence, hwork⟩
  apply Prog.obeys_bind (obeys_query (reads_move p) (Q := fun m' _ => m' = m₁) fun _ => rfl)
  rintro m₂ underway rfl
  split
  · apply obeys_write_report
    intro e db db' hwrite
    simp only [against] at hwrite
    split at hwrite
    · obtain rfl := Option.some.inj hwrite
      exact db.still_openMailboxHold _
    · cases hwrite
  · apply Prog.obeys_bind
      (Q := fun m' startHistoryId => m'.work = .handing locked.historyId startHistoryId)
    · intro e s startHistoryId s' hact
      cases hact
      exact ⟨_, .profile (.inl hwork), rfl⟩
    intro m₃ startHistoryId hwork₃
    apply obeys_handOff hwork₃
    intro e db db' hwrite
    simp only [against] at hwrite
    split at hwrite
    · next hlocked =>
      obtain ⟨hgeneration, hoff⟩ := Database.handsOff_baseline hlocked hfence hwrite
      exact ⟨.inl ⟨hgeneration, by simp [Database.cursor, hlocked]⟩, hoff⟩
    · cases hwrite

theorem beginRecoveryForExpiredCursor_obeys (mailbox : Mailbox) :
    Prog.Obeys Move p Any (beginRecoveryForExpiredCursor mailbox) m := by
  unfold beginRecoveryForExpiredCursor
  apply Prog.obeys_bind (Q := fun m' startHistoryId => m'.work = .handing none startHistoryId)
  · intro e s startHistoryId s' hact
    cases hact
    exact ⟨_, .profile (.inr rfl), rfl⟩
  intro m₁ startHistoryId hwork
  apply obeys_handOff hwork
  intro e db db' hwrite
  obtain ⟨hgeneration, hoff⟩ := Database.handsOff_expired hwrite
  exact ⟨.inr hgeneration, hoff⟩

theorem syncFrom_obeys (deps : MailSyncDeps) (mailbox : Mailbox) (cursor : HistoryId) :
    Prog.Obeys Move p Any (syncFrom deps mailbox cursor) m := by
  unfold syncFrom
  apply Prog.obeys_bind (readHistory_obeys cursor _ _ [] cursor (.inr ⟨rfl, rfl⟩) listed_nil)
  intro m₁ result hread
  cases result with
  | threw => exact Prog.obeys_pure trivial
  | historyExpired => exact beginRecoveryForExpiredCursor_obeys mailbox
  | refused refusal =>
    dsimp only
    split
    · exact obeys_write_report fun _ _ _ h => Database.still_holdForRevokedGrant h
    · exact obeys_write_report fun _ _ _ h => Database.still_recordSyncError h
  | read records latest exhausted =>
    obtain ⟨hlisted, hlists⟩ := hread records latest exhausted rfl
    apply Prog.obeys_bind (processMessageIds_obeys (reads_move p) _ _)
    rintro m₂ pipeline ⟨hkept, hthrough⟩
    intro e s report s' hfinish
    have hmade : SyncPlan.Made ⟨mailbox, cursor, records, latest, exhausted,
        takeWholeRecords cursor records (deps.maxMessages.getD defaultSyncMessageLimit), pipeline⟩
        (deps.maxMessages.getD defaultSyncMessageLimit) m₂.known := ⟨hlisted, rfl, hthrough⟩
    have hlists₂ : m₂.work.Lists cursor records (if exhausted then some latest else none) := by
      rw [hkept.1]
      exact hlists
    obtain ⟨run, db, hcommits, rfl⟩ := hmade.commits hlists₂ hfinish
    exact ⟨m₂, .commit hcommits, trivial⟩

theorem runMailSync_obeys (deps : MailSyncDeps) : Prog.Obeys Move p Any (runMailSync deps) m := by
  unfold runMailSync
  apply Prog.obeys_bind (obeys_query (reads_move p) (Q := fun m' _ => m' = m) fun _ => rfl)
  rintro m₁ mailbox rfl
  cases mailbox with
  | none => exact Prog.obeys_pure trivial
  | some mailbox =>
    dsimp only
    split
    · exact obeys_write_report fun _ _ _ h => Database.still_holdDisconnected h
    apply Prog.obeys_bind (obeys_gmail (reads_move p) (Q := fun m' _ => m' = m₁) fun _ => rfl)
    rintro m₂ access rfl
    cases access with
    | providerIncident => exact Prog.obeys_pure trivial
    | grantRevoked => exact obeys_write_report fun _ _ _ h => Database.still_holdForRevokedGrant h
    | granted =>
      dsimp only
      split
      · exact beginBaseline_obeys mailbox
      · split
        · exact beginBaseline_obeys mailbox
        · exact syncFrom_obeys deps mailbox _

theorem syncCode_obeys (call : SyncCall) (p : ProcessId) :
    Prog.Obeys Move p (fun _ _ => True) (syncCode call) restMode := by
  cases call with
  | mailSync deps =>
    apply Prog.obeys_bind (runMailSync_obeys deps)
    intro _ _ _
    exact Prog.obeys_pure trivial
  | account event =>
    apply Prog.obeys_effect
    intro e s
    exact ⟨restMode, .account event, trivial⟩

end Programs

end FoundingSales.Mail
