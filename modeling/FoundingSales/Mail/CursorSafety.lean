import FoundingSales.Mail.SyncMoves

/-!
The sync cursor never passes an unprocessed message.

The invariant ties what a run has listed to the history as it grows: a prefix of what lies
beyond its cursor, and, once the listing ended, everything up to the id it ended at. The
compare-and-set then moves the cursor over records whose messages the same run has finished.

Proved here:

* `CursorSafe.move`: every move keeps the invariant;
* `Since.move`: what a move may change of the cursor, the watermark and the coverage hold;
* `cursor_never_passes`: both, for every interleaving of runs with the account and with each
  other.
-/

namespace FoundingSales.Mail

open Tables Processes Outbound

/-! ## What is finished -/

/-- A committed run finished every message of the record, each in a way that what Gmail
answered the run and the stored rows show. -/
def Store.Finished (s : Store) (record : HistoryRecord) : Prop :=
  ∀ id ∈ record.messageIds, ∃ run ∈ s.runs, ∃ how, (id, how) ∈ run.pipeline.finished ∧
    how.Shown (· ∈ s.db.messages) id

/-- The run read the history beyond its cursor to the end, and finished all of it. -/
structure CommittedRun.ProvesCoverage (gmail : Gmail) (run : CommittedRun) : Prop where
  exhausted : run.historyExhausted = true
  taken : run.recordsLeft = 0
  finished : run.pipeline.readFailure = none
  covers : ∃ cursor, run.cursorTo = some cursor ∧ cursor.value ≤ gmail.historyId.value ∧
    Feeds.Covered HistoryRecord.number gmail.history
      (fun record => ∀ id ∈ record.messageIds, id ∈ run.pipeline.finished.map Prod.fst)
      run.cursorFrom.value cursor.value

def Work.Holds (gmail : Gmail) : Work → Prop
  | .idle => True
  | .listing start records ended =>
    records <+: Feeds.after HistoryRecord.number gmail.history start.value ∧
      ∀ stop ∈ ended, start.value ≤ stop.value ∧ stop.value ≤ gmail.historyId.value ∧
        Feeds.Covered HistoryRecord.number gmail.history (· ∈ records) start.value stop.value
  | .locked cursor => ∀ c ∈ cursor, c.value ≤ gmail.historyId.value
  | .handing cursor startHistoryId =>
    (∀ c ∈ cursor, c.value ≤ startHistoryId.value) ∧
      startHistoryId.value ≤ gmail.historyId.value

structure CursorSafe (modes : ProcessId → SyncMode) (s : Store) : Prop where
  cursor : ∀ c, s.db.cursor = some c → c.value ≤ s.gmail.historyId.value ∧
    ∃ start, s.startedFrom = some start ∧ start.value ≤ c.value ∧
      Feeds.Covered HistoryRecord.number s.gmail.history s.Finished start.value c.value
  works : ∀ p, (modes p).work.Holds s.gmail
  known : ∀ p, ∀ row ∈ (modes p).known, row ∈ s.db.messages
  claims : ∀ run ∈ s.runs, run.coverageWatermarkAt.isSome = true ∨ run.released = true →
    run.ProvesCoverage s.gmail

/-! ## The account grows -/

/-- A change appends what lies beyond every id the mailbox has had. -/
theorem Gmail.after_grows (gmail : Gmail) (event : GmailEvent) :
    gmail.historyId.value ≤ (gmail.after event).historyId.value ∧
      ∃ more, (gmail.after event).history = gmail.history ++ more ∧
        ∀ record ∈ more, gmail.historyId.value < record.number := by
  have same : gmail.historyId.value ≤ gmail.historyId.value ∧
      ∃ more, gmail.history = gmail.history ++ more ∧
        ∀ record ∈ more, gmail.historyId.value < record.number :=
    ⟨le_rfl, [], (List.append_nil _).symm, nofun⟩
  cases event with
  | changed record historyId =>
    simp only [after]
    split
    · next h =>
      refine ⟨(Nat.le_of_lt h.1).trans h.2, [record], rfl, ?_⟩
      intro other hother
      rw [List.mem_singleton.1 hother]
      exact h.1
    · exact same
  | advanced historyId =>
    simp only [after]
    split
    · next h => exact ⟨h, [], (List.append_nil _).symm, nofun⟩
    · exact same

theorem Gmail.covered_after {gmail : Gmail} {done : HistoryRecord → Prop} {start stop : Nat}
    (h : Feeds.Covered HistoryRecord.number gmail.history done start stop)
    (hstop : stop ≤ gmail.historyId.value) (event : GmailEvent) :
    Feeds.Covered HistoryRecord.number (gmail.after event).history done start stop := by
  obtain ⟨-, more, hmore, hbeyond⟩ := gmail.after_grows event
  rw [hmore]
  exact h.append fun record hrecord => hstop.trans_lt (hbeyond record hrecord)

theorem Work.Holds.after {gmail : Gmail} {work : Work} (h : work.Holds gmail)
    (event : GmailEvent) : work.Holds (gmail.after event) := by
  obtain ⟨hid, more, hmore, -⟩ := gmail.after_grows event
  cases work with
  | idle => trivial
  | listing start records ended =>
    obtain ⟨hbegins, hended⟩ := h
    constructor
    · rw [hmore, Feeds.after_append]
      exact hbegins.trans (List.prefix_append _ _)
    · intro stop hstop
      obtain ⟨hstart, hreached, hcovered⟩ := hended stop hstop
      exact ⟨hstart, hreached.trans hid, Gmail.covered_after hcovered hreached event⟩
  | locked cursor => exact fun c hc => (h c hc).trans hid
  | handing cursor startHistoryId => exact ⟨h.1, h.2.trans hid⟩

theorem CommittedRun.ProvesCoverage.after {gmail : Gmail} {run : CommittedRun}
    (h : run.ProvesCoverage gmail) (event : GmailEvent) : run.ProvesCoverage (gmail.after event) := by
  obtain ⟨cursor, hto, hreached, hcovered⟩ := h.covers
  exact ⟨h.exhausted, h.taken, h.finished, cursor, hto,
    hreached.trans (gmail.after_grows event).1, Gmail.covered_after hcovered hreached event⟩

/-! ## Standing on what is finished -/

/-- A listing's prefix and end, for a run that may not have begun one. -/
theorem Work.Lists.holds {gmail : Gmail} {work : Work} {start : HistoryId}
    {records : List HistoryRecord} {ended : Option HistoryId}
    (h : work.Lists start records ended) (hholds : work.Holds gmail) :
    records <+: Feeds.after HistoryRecord.number gmail.history start.value ∧
      ∀ stop ∈ ended, start.value ≤ stop.value ∧ stop.value ≤ gmail.historyId.value ∧
        Feeds.Covered HistoryRecord.number gmail.history (· ∈ records) start.value stop.value := by
  rcases h with rfl | ⟨rfl, rfl⟩
  · exact hholds
  · exact ⟨List.nil_prefix, nofun⟩

/-- Where a run's cursor stands, everything from its start is finished. -/
theorem Stands.covered {gmail : Gmail} {start cursor : HistoryId} {records : List HistoryRecord}
    {ended : Option HistoryId} {finished : List JsString}
    (h : Stands start records ended finished cursor)
    (hbegins : records <+: Feeds.after HistoryRecord.number gmail.history start.value)
    (hended : ∀ stop ∈ ended, start.value ≤ stop.value ∧ stop.value ≤ gmail.historyId.value ∧
      Feeds.Covered HistoryRecord.number gmail.history (· ∈ records) start.value stop.value)
    (hstart : start.value ≤ gmail.historyId.value) :
    start.value ≤ cursor.value ∧ cursor.value ≤ gmail.historyId.value ∧
      Feeds.Covered HistoryRecord.number gmail.history
        (fun record => ∀ id ∈ record.messageIds, id ∈ finished) start.value cursor.value := by
  have hreach : Feeds.reach HistoryRecord.number start.value records
      ≤ gmail.historyId.value := by
    have hlt : Feeds.reach HistoryRecord.number start.value records
        < gmail.historyId.value + 1 := by
      apply Feeds.reach_lt
      · omega
      · intro record hrecord
        have := gmail.current record (Feeds.mem_after.1 (hbegins.subset hrecord)).1
        omega
    omega
  by_cases hend : ended = some cursor
  · obtain ⟨hforward, hreached, hcovered⟩ := hended cursor hend
    refine ⟨hforward, hreached, fun record hrecord hbeyond hle => ?_⟩
    exact h.passed record (hcovered record hrecord hbeyond hle) hle
  · have hforward := h.forward.resolve_left hend
    have hwithin := h.within.resolve_left hend
    exact ⟨hforward, hwithin.trans hreach,
      Feeds.covered_of_prefix gmail.ascending hbegins hwithin h.passed⟩

/-! ## Every move keeps the invariant -/

section Step

variable {modes : ProcessId → SyncMode} {s : Store} {p : ProcessId}

theorem works_update {gmail : Gmail} (h : ∀ p, (modes p).work.Holds gmail) {m : SyncMode}
    (hm : m.work.Holds gmail) : ∀ q, (Function.update modes p m q).work.Holds gmail := by
  intro q
  by_cases hq : q = p
  · subst hq
    rwa [Function.update_self]
  · rw [Function.update_of_ne hq]
    exact h q

theorem known_update {P : MailMessage → Prop} (h : ∀ p, ∀ row ∈ (modes p).known, P row)
    {m : SyncMode} (hm : ∀ row ∈ m.known, P row) :
    ∀ q, ∀ row ∈ (Function.update modes p m q).known, P row := by
  intro q
  by_cases hq : q = p
  · subst hq
    rwa [Function.update_self]
  · rw [Function.update_of_ne hq]
    exact h q

/-- Only what a run is doing changes. -/
theorem CursorSafe.turn (h : CursorSafe modes s) {m : SyncMode} (hwork : m.work.Holds s.gmail)
    (hknown : ∀ row ∈ m.known, row ∈ s.db.messages) :
    CursorSafe (Function.update modes p m) s :=
  ⟨h.cursor, works_update h.works hwork, known_update h.known hknown, h.claims⟩

/-- More rows and more runs finish no less. -/
theorem Store.Finished.mono {s s' : Store} {record : HistoryRecord} (h : s.Finished record)
    (hruns : ∀ run ∈ s.runs, run ∈ s'.runs) (hrows : ∀ row ∈ s.db.messages, row ∈ s'.db.messages) :
    s'.Finished record := by
  intro id hid
  obtain ⟨run, hrun, how, hfinished, hshown⟩ := h id hid
  exact ⟨run, hruns run hrun, how, hfinished, hshown.mono hrows⟩

/-- A write that leaves the messages leaves what is known of them. -/
theorem CursorSafe.of_messages (h : CursorSafe modes s) {db : Database}
    {startedFrom : Option HistoryId} (hmessages : db.messages = s.db.messages)
    (hcursor : ∀ c, db.cursor = some c → c.value ≤ s.gmail.historyId.value ∧
      ∃ start, startedFrom = some start ∧ start.value ≤ c.value ∧
        Feeds.Covered HistoryRecord.number s.gmail.history s.Finished start.value c.value) :
    CursorSafe modes { s with db := db, startedFrom := startedFrom } := by
  refine ⟨?_, h.works, ?_, h.claims⟩
  · intro c hc
    obtain ⟨hreached, start, hstart, hle, hcovered⟩ := hcursor c hc
    refine ⟨hreached, start, hstart, hle, hcovered.mono fun record hfinished => ?_⟩
    refine hfinished.mono (fun run hrun => hrun) fun row hrow => ?_
    show row ∈ db.messages
    rwa [hmessages]
  · show ∀ p, ∀ row ∈ (modes p).known, row ∈ db.messages
    rw [hmessages]
    exact h.known

theorem CursorSafe.commit {m : SyncMode} {db : Database} {run : CommittedRun} {start : HistoryId}
    {records : List HistoryRecord} {ended : Option HistoryId} (h : CursorSafe modes s)
    (hwork : m.work.Holds s.gmail)
    (hknown : ∀ row ∈ m.known, row ∈ s.db.messages)
    (hcommits : Commits m start records ended run s.db db) :
    CursorSafe modes { s with db := db, runs := run :: s.runs } := by
  obtain ⟨hbegins, hended⟩ := hcommits.lists.holds hwork
  have hrows : ∀ row ∈ s.db.messages, row ∈ db.messages :=
    fun row hrow => (hcommits.messages row).2 (.inl hrow)
  have hhas : ∀ row, Has run.pipeline.rows m.known row → row ∈ db.messages := by
    rintro row (hown | hseen)
    · exact (hcommits.messages row).2 (.inr hown)
    · exact hrows row (hknown row hseen)
  have hmono : ∀ record, s.Finished record →
      Store.Finished { s with db := db, runs := run :: s.runs } record :=
    fun record hfinished => hfinished.mono (fun _ hrun => List.mem_cons_of_mem _ hrun) hrows
  have hdone : ∀ record : HistoryRecord,
      (∀ id ∈ record.messageIds, id ∈ run.pipeline.finished.map Prod.fst) →
      Store.Finished { s with db := db, runs := run :: s.runs } record := by
    intro record hall id hid
    obtain ⟨⟨id', how⟩, hmem, rfl⟩ := List.mem_map.1 (hall id hid)
    exact ⟨run, List.mem_cons_self, how, hmem, (hcommits.shown id' how hmem).mono hhas⟩
  have hstands : ∀ cursor, run.cursorTo = some cursor → db.cursor = some cursor ∧
      s.db.cursor = some start ∧ start.value ≤ cursor.value ∧
      cursor.value ≤ s.gmail.historyId.value ∧
      Feeds.Covered HistoryRecord.number s.gmail.history
        (fun record => ∀ id ∈ record.messageIds, id ∈ run.pipeline.finished.map Prod.fst)
        start.value cursor.value := by
    intro cursor hto
    obtain ⟨hstored, hmoved, hstands⟩ := hcommits.won cursor hto
    exact ⟨hmoved, hstored,
      hstands.covered hbegins hended (h.cursor start hstored).1⟩
  refine ⟨?_, h.works, fun p row hrow => hrows row (h.known p row hrow), ?_⟩
  · intro c hc
    cases hto : run.cursorTo with
    | none =>
      rw [hcommits.lost hto] at hc
      obtain ⟨hreached, from_, hfrom, hle, hcovered⟩ := h.cursor c hc
      exact ⟨hreached, from_, hfrom, hle, hcovered.mono hmono⟩
    | some cursor =>
      obtain ⟨hmoved, hstored, hforward, hreached, hcovered⟩ := hstands cursor hto
      obtain rfl : cursor = c := Option.some.inj (hmoved.symm.trans hc)
      obtain ⟨-, from_, hfrom, hle, hold⟩ := h.cursor start hstored
      exact ⟨hreached, from_, hfrom, hle.trans hforward,
        (hold.mono hmono).trans (hcovered.mono hdone)⟩
  · intro other hother hclaim
    rcases List.mem_cons.1 hother with rfl | hother
    · have hread := hcommits.claims hclaim
      obtain ⟨cursor, hto⟩ := Option.isSome_iff_exists.1 hread.cursor.1
      obtain ⟨-, -, -, hreached, hcovered⟩ := hstands cursor hto
      rw [← hcommits.cursorFrom] at hcovered
      exact ⟨hread.exhausted, hread.taken, hread.finished, cursor, hto, hreached, hcovered⟩
    · exact h.claims other hother hclaim

/-- Every statement keeps the invariant. -/
theorem CursorSafe.move {m' : SyncMode} {s' : Store} (h : CursorSafe modes s)
    (hmove : Move p (modes p, s) (m', s')) : CursorSafe (Function.update modes p m') s' := by
  have hwork := h.works p
  have hknown := h.known p
  generalize hm : modes p = m at hmove hwork hknown
  cases hmove with
  | learn hlearn =>
    refine h.turn (by exact hwork) ?_
    intro row hrow
    exact (hlearn row hrow).elim (hknown row) id
  | account event =>
    rw [← hm, Function.update_eq_self]
    refine ⟨?_, fun p => (h.works p).after event, h.known,
      fun run hrun hclaim => (h.claims run hrun hclaim).after event⟩
    intro c hc
    obtain ⟨hreached, start, hstart, hle, hcovered⟩ := h.cursor c hc
    exact ⟨hreached.trans (s.gmail.after_grows event).1, start, hstart, hle,
      Gmail.covered_after hcovered hreached event⟩
  | page hlists hfollows =>
    refine h.turn (m := ⟨m.known, _⟩) ⟨hfollows.inOrder, ?_⟩ hknown
    intro stop hstop
    split at hstop
    · cases hstop
    · next hlast =>
      obtain rfl := Option.some.inj hstop
      have hmore := Bool.eq_false_iff.2 hlast
      obtain ⟨hforward, hreached⟩ := hfollows.reached hmore
      exact ⟨hforward, hreached, hfollows.complete hmore⟩
  | lock => exact h.turn (fun c hc => (h.cursor c hc).1) hknown
  | profile hlocked =>
    refine h.turn (m := ⟨m.known, _⟩) ?_ hknown
    rcases hlocked with hlocked | rfl
    · rw [hlocked] at hwork
      exact ⟨hwork, le_rfl⟩
    · exact ⟨nofun, le_rfl⟩
  | write hstill =>
    rw [← hm, Function.update_eq_self]
    apply h.of_messages hstill.messages
    rw [hstill.cursor]
    exact h.cursor
  | handOff hhanding hgeneration hoff =>
    rw [← hm, Function.update_eq_self]
    apply h.of_messages hoff.messages
    intro c hc
    rw [hhanding] at hwork
    have hcursor := hoff.cursor
    split at hcursor
    · next hstarted =>
      rw [if_pos hstarted]
      exact h.cursor c (hcursor.symm.trans hc)
    · next hstarted =>
      rw [if_neg hstarted]
      obtain rfl := Option.some.inj (hcursor.symm.trans hc)
      exact ⟨hwork.2, _, hcursor, le_rfl, Feeds.covered_self⟩
  | commit hcommits =>
    rw [← hm, Function.update_eq_self]
    exact h.commit hwork hknown hcommits

theorem CursorSafe.rest (h : CursorSafe modes s) (p : ProcessId) :
    CursorSafe (Function.update modes p restMode) s :=
  h.turn trivial nofun

end Step

/-! ## What a stretch of a run may change -/

/-- From one store to a later one: within a generation the cursor does not go back, and the
watermark and the coverage hold change only by runs committed in between. -/
structure Since (s s' : Store) : Prop where
  generation : ∀ g, s.db.generation = some g → ∃ g', s'.db.generation = some g' ∧ g ≤ g'
  cursor : s'.db.generation = s.db.generation → ∀ c, s.db.cursor = some c →
    ∃ c', s'.db.cursor = some c' ∧ c.value ≤ c'.value
  runs : ∃ newer, s'.runs = newer ++ s.runs ∧
    (s'.db.watermark = s.db.watermark ∨ ∃ run ∈ newer, run.coverageWatermarkAt.isSome = true ∧
      run.coverageWatermarkAt = s'.db.watermark) ∧
    (.coverageIncomplete ∈ s.db.holds → .coverageIncomplete ∉ s'.db.holds →
      ∃ run ∈ newer, run.released = true)

theorem Since.refl (s : Store) : Since s s :=
  ⟨fun g hg => ⟨g, hg, le_rfl⟩, fun _ c hc => ⟨c, hc, le_rfl⟩,
    [], rfl, .inl rfl, fun hopen hclosed => absurd hopen hclosed⟩

theorem Since.trans {a b c : Store} (hab : Since a b) (hbc : Since b c) : Since a c := by
  obtain ⟨older, holder, hwatermark, hhold⟩ := hab.runs
  obtain ⟨newer, hnewer, hwatermark', hhold'⟩ := hbc.runs
  refine ⟨?_, ?_, newer ++ older, ?_, ?_, ?_⟩
  · intro g hg
    obtain ⟨g₁, hg₁, hle⟩ := hab.generation g hg
    obtain ⟨g₂, hg₂, hle'⟩ := hbc.generation g₁ hg₁
    exact ⟨g₂, hg₂, hle.trans hle'⟩
  · intro hsame start hstart
    have hmiddle : b.db.generation = a.db.generation := by
      cases hg : a.db.generation with
      | none =>
        have : a.db.mailbox = none := by simpa [Database.generation] using hg
        simp [Database.cursor, this] at hstart
      | some g =>
        obtain ⟨g₁, hg₁, hle⟩ := hab.generation g hg
        obtain ⟨g₂, hg₂, hle'⟩ := hbc.generation g₁ hg₁
        rw [hsame, hg] at hg₂
        obtain rfl := Option.some.inj hg₂
        rw [hg₁, Nat.le_antisymm hle' hle]
    obtain ⟨c₁, hc₁, hle⟩ := hab.cursor hmiddle start hstart
    obtain ⟨c₂, hc₂, hle'⟩ := hbc.cursor (hsame.trans hmiddle.symm) c₁ hc₁
    exact ⟨c₂, hc₂, hle.trans hle'⟩
  · rw [hnewer, holder, List.append_assoc]
  · rcases hwatermark' with hsame | ⟨run, hrun, hwritten⟩
    · rw [hsame]
      rcases hwatermark with hsame' | ⟨run, hrun, hwritten⟩
      · exact .inl hsame'
      · exact .inr ⟨run, List.mem_append_right _ hrun, hwritten⟩
    · exact .inr ⟨run, List.mem_append_left _ hrun, hwritten⟩
  · intro hopen hclosed
    by_cases hmiddle : .coverageIncomplete ∈ b.db.holds
    · obtain ⟨run, hrun, hreleased⟩ := hhold' hmiddle hclosed
      exact ⟨run, List.mem_append_left _ hrun, hreleased⟩
    · obtain ⟨run, hrun, hreleased⟩ := hhold hopen hmiddle
      exact ⟨run, List.mem_append_right _ hrun, hreleased⟩

/-- A move that commits no run. -/
private theorem Since.of_writes {s : Store} {db : Database} {startedFrom : Option HistoryId}
    (hgeneration : ∀ g, s.db.generation = some g → ∃ g', db.generation = some g' ∧ g ≤ g')
    (hcursor : db.generation = s.db.generation → ∀ c, s.db.cursor = some c →
      ∃ c', db.cursor = some c' ∧ c.value ≤ c'.value)
    (hwatermark : db.watermark = s.db.watermark)
    (hhold : .coverageIncomplete ∈ s.db.holds → .coverageIncomplete ∈ db.holds) :
    Since s { s with db := db, startedFrom := startedFrom } :=
  ⟨hgeneration, hcursor, [], rfl, .inl hwatermark,
    fun hopen hclosed => absurd (hhold hopen) hclosed⟩

/-- What one statement may change. -/
theorem Since.move {modes : ProcessId → SyncMode} {s s' : Store} {p : ProcessId} {m' : SyncMode}
    (h : CursorSafe modes s) (hmove : Move p (modes p, s) (m', s')) : Since s s' := by
  have hwork := h.works p
  generalize hm : modes p = m at hmove hwork
  cases hmove with
  | learn _ => exact .refl s
  | account event =>
    exact ⟨fun g hg => ⟨g, hg, le_rfl⟩, fun _ c hc => ⟨c, hc, le_rfl⟩,
      [], rfl, .inl rfl, fun hopen hclosed => absurd hopen hclosed⟩
  | page _ _ => exact .refl s
  | lock => exact .refl s
  | profile _ => exact .refl s
  | write hstill =>
    refine Since.of_writes ?_ ?_ hstill.watermark hstill.hold
    · intro g hg
      exact ⟨g, by rw [hstill.generation, hg], le_rfl⟩
    · intro _ c hc
      exact ⟨c, by rw [hstill.cursor, hc], le_rfl⟩
  | handOff hhanding hgeneration hoff =>
    rw [hhanding] at hwork
    refine Since.of_writes ?_ ?_ hoff.watermark hoff.hold
    · intro g hg
      rcases hgeneration with ⟨hsame, -⟩ | ⟨g', hold, hnew⟩
      · exact ⟨g, hsame.trans hg, le_rfl⟩
      · obtain rfl := Option.some.inj (hold.symm.trans hg)
        exact ⟨g' + 1, hnew, Nat.le_succ _⟩
    · intro hsame c hc
      rcases hgeneration with ⟨-, hlocked⟩ | ⟨g', hold, hnew⟩
      · have hcursor := hoff.cursor
        split at hcursor
        · exact ⟨c, hcursor.trans hc, le_rfl⟩
        · exact ⟨_, hcursor, hwork.1 c (by rw [← hlocked]; exact hc)⟩
      · rw [hnew, hold] at hsame
        have := Option.some.inj hsame
        omega
  | commit hcommits =>
    rename_i run start records ended
    refine ⟨?_, ?_, [run], rfl, ?_, ?_⟩
    · intro g hg
      exact ⟨g, by rw [hcommits.generation, hg], le_rfl⟩
    · intro _ c hc
      cases hto : run.cursorTo with
      | none => exact ⟨c, by rw [hcommits.lost hto, hc], le_rfl⟩
      | some cursor =>
        obtain ⟨hstored, hmoved, hstands⟩ := hcommits.won cursor hto
        obtain ⟨hbegins, hended⟩ := hcommits.lists.holds hwork
        obtain ⟨hforward, -, -⟩ := hstands.covered hbegins hended (h.cursor start hstored).1
        obtain rfl := Option.some.inj (hstored.symm.trans hc)
        exact ⟨cursor, hmoved, hforward⟩
    · have hwatermark := hcommits.watermark
      cases hrun : run.coverageWatermarkAt with
      | none =>
        left
        rw [hrun] at hwatermark
        exact hwatermark
      | some instant =>
        right
        rw [hrun] at hwatermark
        exact ⟨run, List.mem_singleton.2 rfl, by rw [hrun]; rfl, by rw [hrun]; exact hwatermark.symm⟩
    · intro hopen hclosed
      exact ⟨run, List.mem_singleton.2 rfl, hcommits.hold hopen hclosed⟩

/-! ## Every interleaving -/

/-- An account, and the tables of its mailbox, whose cursor is an id the account has had. -/
structure SyncStart where
  gmail : Gmail
  db : Database
  reached : ∀ c, db.cursor = some c → c.value ≤ gmail.historyId.value

def SyncStart.store (start : SyncStart) : Store := ⟨start.gmail, start.db, start.db.cursor, []⟩

abbrev SyncWorld := World ProcessId Env Store

def syncStep (w : SyncWorld) (i : SyncInput) : SyncWorld := w.step syncCode i

/-- Nothing is running at the start. -/
def syncRun (start : SyncStart) (inputs : List SyncInput) : SyncWorld :=
  Runs.run syncStep (World.idle start.store) inputs

theorem cursorSafe_start (start : SyncStart) :
    CursorSafe (fun _ => restMode) start.store := by
  refine ⟨?_, fun _ => trivial, nofun, nofun⟩
  intro c hc
  exact ⟨start.reached c hc, c, hc, le_rfl, Feeds.covered_self⟩

/-- A run keeps the invariant, and changes only what its statements may. -/
theorem run_cursorSafe {w : SyncWorld} {modes : ProcessId → SyncMode}
    (hfollows : World.Follows Move restMode (fun _ => True) w modes)
    (h : CursorSafe modes w.store) (inputs : List SyncInput) :
    ∃ modes', World.Follows Move restMode (fun _ => True) (Runs.run syncStep w inputs) modes' ∧
      CursorSafe modes' (Runs.run syncStep w inputs).store ∧
      Since w.store (Runs.run syncStep w inputs).store := by
  obtain ⟨modes', hfollows', hsafe, hsince⟩ := World.run_invariant (T := Move)
    (J := fun modes s => CursorSafe modes s ∧ Since w.store s)
    (fun _ _ => True) (fun _ _ _ => True) syncCode_obeys
    (fun modes s p m' s' hJ hmove _ => ⟨hJ.1.move hmove, hJ.2.trans (Since.move hJ.1 hmove)⟩)
    (fun modes s p hJ _ => ⟨hJ.1.rest p, hJ.2⟩)
    (fun modes s p hJ _ => ⟨hJ.1.rest p, hJ.2⟩)
    hfollows ⟨h, Since.refl _⟩
    (Runs.meets_of_forall _ World.orderly_of_true w inputs)
  exact ⟨modes', hfollows', hsafe, hsince⟩

/-- For every account, every interleaving of runs that may stop anywhere, and every state
reached: a record up to the stored cursor and beyond the one the generation started from has
every message finished by a committed run; from there on the cursor does not go back within
the generation; and a watermark is written, and the coverage hold released, only by a run
that read the history to its end and finished it. -/
theorem cursor_never_passes (start : SyncStart) (inputs later : List SyncInput) :
    (∀ c, (syncRun start inputs).store.db.cursor = some c →
      ∃ from_, (syncRun start inputs).store.startedFrom = some from_ ∧ from_.value ≤ c.value ∧
        ∀ record ∈ (syncRun start inputs).store.gmail.history,
          from_.value < record.number → record.number ≤ c.value →
          (syncRun start inputs).store.Finished record) ∧
    ((syncRun start (inputs ++ later)).store.db.generation
        = (syncRun start inputs).store.db.generation →
      ∀ c, (syncRun start inputs).store.db.cursor = some c →
        ∃ c', (syncRun start (inputs ++ later)).store.db.cursor = some c' ∧ c.value ≤ c'.value) ∧
    (∃ newer, (syncRun start (inputs ++ later)).store.runs
        = newer ++ (syncRun start inputs).store.runs ∧
      ((syncRun start (inputs ++ later)).store.db.watermark
          ≠ (syncRun start inputs).store.db.watermark →
        ∃ run ∈ newer, run.coverageWatermarkAt
            = (syncRun start (inputs ++ later)).store.db.watermark ∧
          run.ProvesCoverage (syncRun start (inputs ++ later)).store.gmail) ∧
      (.coverageIncomplete ∈ (syncRun start inputs).store.db.holds →
        .coverageIncomplete ∉ (syncRun start (inputs ++ later)).store.db.holds →
        ∃ run ∈ newer, run.released = true ∧
          run.ProvesCoverage (syncRun start (inputs ++ later)).store.gmail)) ∧
    (∀ run ∈ (syncRun start inputs).store.runs,
      run.coverageWatermarkAt.isSome = true ∨ run.released = true →
      run.ProvesCoverage (syncRun start inputs).store.gmail) := by
  obtain ⟨modes, hfollows, hsafe, -⟩ :=
    run_cursorSafe (World.follows_idle start.store) (cursorSafe_start start) inputs
  obtain ⟨modes', -, hsafe', hsince⟩ := run_cursorSafe hfollows hsafe later
  have hrun : Runs.run syncStep (Runs.run syncStep (World.idle start.store) inputs) later
      = syncRun start (inputs ++ later) := (Runs.run_append _ _ _ _).symm
  rw [hrun] at hsafe' hsince
  obtain ⟨newer, hnewer, hwatermark, hhold⟩ := hsince.runs
  have hclaims : ∀ run ∈ newer, run.coverageWatermarkAt.isSome = true ∨ run.released = true →
      run.ProvesCoverage (syncRun start (inputs ++ later)).store.gmail := by
    intro run hmem hclaim
    apply hsafe'.claims run _ hclaim
    rw [hnewer]
    exact List.mem_append_left _ hmem
  refine ⟨?_, hsince.cursor, ⟨newer, hnewer, ?_, ?_⟩, hsafe.claims⟩
  · intro c hc
    obtain ⟨-, from_, hfrom, hle, hcovered⟩ := hsafe.cursor c hc
    exact ⟨from_, hfrom, hle, hcovered⟩
  · intro hchanged
    obtain ⟨run, hmem, hsome, heq⟩ := hwatermark.resolve_left hchanged
    exact ⟨run, hmem, heq, hclaims run hmem (.inl hsome)⟩
  · intro hopen hclosed
    obtain ⟨run, hmem, hreleased⟩ := hhold hopen hclosed
    exact ⟨run, hmem, hreleased, hclaims run hmem (.inr hreleased)⟩

/-- A connected mailbox whose account is at id 1, with nothing stored. -/
def quietStart : SyncStart :=
  ⟨⟨[], ⟨js "1", by decide⟩, .nil, nofun⟩,
    ⟨some ⟨js "a@b.co", .connected, 1, .ready, some ⟨js "1", by decide⟩, some 0, none, some 0,
      some 0, none⟩, [], .empty, .empty⟩, by decide +kernel⟩

def arrivalRecord : HistoryRecord := ⟨⟨js "2", by decide⟩, [⟨js "m", .messageAdded⟩]⟩

/-- The message arrives, and a run reads it to its end. -/
def arrivalInputs : List SyncInput :=
  let env : Env :=
    ⟨7, .granted, restOfHistory, fun id => .ok (some ⟨⟨id, 5, [], none, none, none, none⟩, rfl⟩),
      .ok true, ⟨false, false, false, false, false, false⟩, none⟩
  [.start 1 (.account (.changed arrivalRecord ⟨js "2", by decide⟩)), .advance 1 env,
    .start 0 (.mailSync ⟨none, none⟩)] ++ List.replicate 9 (.advance 0 env)

/-- The run stands on the record of the message, and has finished it. -/
theorem cursor_never_passes_arrival :
    (syncRun quietStart arrivalInputs).store.db.cursor = some ⟨js "2", by decide⟩ ∧
      (syncRun quietStart arrivalInputs).store.db.watermark = some 5 ∧
      (syncRun quietStart arrivalInputs).store.db.messages.rows.map MailMessage.providerMessageId
        = [js "m"] ∧
      (syncRun quietStart arrivalInputs).store.Finished arrivalRecord := by
  have hcursor : (syncRun quietStart arrivalInputs).store.db.cursor
      = some ⟨js "2", by decide⟩ := by decide +kernel
  have hfrom : (syncRun quietStart arrivalInputs).store.startedFrom
      = some ⟨js "1", by decide⟩ := by decide +kernel
  obtain ⟨from_, hstarted, -, hfinished⟩ :=
    (cursor_never_passes quietStart arrivalInputs []).1 _ hcursor
  obtain rfl := Option.some.inj (hfrom.symm.trans hstarted)
  refine ⟨hcursor, by decide +kernel, by decide +kernel, hfinished arrivalRecord ?_ ?_ ?_⟩
  · decide +kernel
  · decide +kernel
  · decide +kernel

end FoundingSales.Mail
