import FoundingSales.Mail.Coalesce
import FoundingSales.Jobs.JobMoves

/-!
Re-armed mail jobs keep their payload exactly as long as retention leaves it to them: a
`mail.sync` row is not re-armed once its payload is archived, and no hint is archived.

Proved here:
* `MailRow`: what a row of a mail job holds while retention spares it;
* `mergedHint_spec`, `Names.setEntry`: what the two re-arming updates leave;
* `payloadsKept_iff`: over every run, the payloads are kept exactly when each step spares
  them.
-/

namespace FoundingSales.Mail

open Tables Jobs Runs

/-! ## Entries -/

theorem lookup_setEntry_self (key json : JsString) (entries : Entries) :
    (setEntry key json entries).lookup key = some json := by
  induction entries with
  | nil => simp [setEntry]
  | cons entry rest ih =>
    obtain ⟨first, value⟩ := entry
    by_cases h : first = key
    · simp [setEntry, h]
    · have hne : (key == first) = false := by simpa using Ne.symm h
      simp only [setEntry, h, ↓reduceIte, List.lookup_cons, hne, ih]

theorem lookup_setEntry_ne {key other : JsString} (hne : other ≠ key) (json : JsString)
    (entries : Entries) : (setEntry key json entries).lookup other = entries.lookup other := by
  induction entries with
  | nil =>
    have hother : (other == key) = false := by simpa using hne
    simp only [setEntry, List.lookup_cons, List.lookup_nil, hother]
  | cons entry rest ih =>
    obtain ⟨first, value⟩ := entry
    by_cases h : first = key
    · subst h
      have hother : (other == first) = false := by simpa using hne
      simp only [setEntry, ↓reduceIte, List.lookup_cons, hother]
    · simp only [setEntry, h, ↓reduceIte, List.lookup_cons, ih]

theorem jsonText_tail (text : JsString) : (jsonText text).tail.dropLast = text := by
  simp [jsonText]

theorem jsonText_ne_null (text : JsString) : jsonText text ≠ jsonNull := by
  intro h
  have hhead := congrArg List.head? h
  simp [jsonText, quote, jsonNull, js] at hhead
  revert hhead
  decide

theorem entryText_of_text {entries : Entries} {key text : JsString}
    (h : entries.lookup key = some (jsonText text)) : entryText entries key = some text := by
  have hhead : (jsonText text).head? = some quote := rfl
  simp only [entryText, h, jsonText_ne_null, ↓reduceIte, hhead, jsonText_tail]

theorem entryText_of_null {entries : Entries} {key : JsString}
    (h : entries.lookup key = some jsonNull) : entryText entries key = none := by
  simp [entryText, h]

theorem stringEntry_of_text {entries : Entries} {key text : JsString}
    (h : entries.lookup key = some (jsonText text)) : stringEntry entries key = some text := by
  have hhead : (jsonText text).head? = some quote := rfl
  simp only [stringEntry, h, Option.bind_some, hhead, ↓reduceIte, jsonText_tail]

/-! ## Hints -/

/-- The number of a row's history id. -/
def hintOf (entries : Entries) : Option Nat :=
  (entryText entries (js "historyId")).bind Decimals.read

/-- No hint is below every hint. -/
def hintLe (before after : Option Nat) : Prop :=
  ∀ n, before = some n → ∃ m, after = some m ∧ n ≤ m

theorem hintLe_refl (hint : Option Nat) : hintLe hint hint := fun n h => ⟨n, h, le_refl n⟩

theorem hintLe_of_none (hint : Option Nat) : hintLe none hint := by
  intro n h
  cases h

theorem HistoryId.read (id : HistoryId) : ∃ n, Decimals.read id.1 = some n := by
  obtain ⟨text, hlong, -, hdigits⟩ := id
  have hne : text ≠ [] := List.ne_nil_of_length_pos hlong
  exact ⟨_, if_pos ⟨hne, hdigits⟩⟩

/-- The entry holds a history id, or `null`. -/
def HintShape (entries : Entries) : Prop :=
  ∃ historyId : Option HistoryId, entries.lookup (js "historyId") = some (hintJson historyId)

theorem hintOf_of_lookup {entries : Entries} {historyId : Option HistoryId}
    (h : entries.lookup (js "historyId") = some (hintJson historyId)) :
    hintOf entries = historyId.bind fun id => Decimals.read id.1 := by
  cases historyId with
  | none => rw [hintOf, entryText_of_null h]; rfl
  | some id => rw [hintOf, entryText_of_text h]; rfl

/-- Of two hints the update keeps one that is no less than the one that is there. -/
theorem mergedHint_spec {entries : Entries} (h : HintShape entries)
    (historyId : Option HistoryId) :
    ∃ merged : Option HistoryId, mergedHint entries historyId = some (hintJson merged) ∧
      hintLe (hintOf entries) (merged.bind fun id => Decimals.read id.1) := by
  obtain ⟨stored, hstored⟩ := h
  rw [hintOf_of_lookup hstored]
  cases historyId with
  | none => exact ⟨stored, hstored, hintLe_refl _⟩
  | some given =>
    cases stored with
    | none =>
      refine ⟨some given, ?_, hintLe_of_none _⟩
      rw [mergedHint, entryText_of_null hstored]
      rfl
    | some old =>
      obtain ⟨n, hn⟩ := HistoryId.read old
      obtain ⟨m, hm⟩ := HistoryId.read given
      have hmerged : mergedHint entries (some given)
          = if m ≤ n then some (hintJson (some old)) else some (hintJson (some given)) := by
        rw [mergedHint, entryText_of_text hstored]
        simp only [Option.bind_eq_bind, hn, hm, Option.bind_some, hstored]
        rfl
      by_cases hle : m ≤ n
      · exact ⟨some old, by rw [hmerged, if_pos hle], hintLe_refl _⟩
      · refine ⟨some given, by rw [hmerged, if_neg hle], ?_⟩
        intro p hp
        simp only [Option.bind_some, hn, Option.some.injEq] at hp
        exact ⟨m, hm, by omega⟩

/-! ## What a mail job's row holds -/

def ownKey (kind : JsString) (mailboxId : MailboxId) (generation : Generation) : JsString :=
  if kind = mailSyncKind then mailSyncKey mailboxId generation
  else mailRecoverKey mailboxId generation

/-- The payload names the mailbox and the generation. -/
structure Names (mailboxId : MailboxId) (generation : Generation) (entries : Entries) : Prop where
  mailbox : entries.lookup (js "mailboxId") = some (jsonText mailboxId.1)
  generation : entries.lookup (js "generation") = some (Decimals.print generation.1)

/-- The payload is that of the row's key, and its handler accepts it. -/
def OwnPayload (job : Job) : Prop :=
  ∃ mailboxId generation, job.idempotencyKey = ownKey job.kind mailboxId generation ∧
    payloadMailboxId job.payload.entries = some mailboxId.1 ∧
    integerEntry job.payload.entries (js "generation") = some generation.1 ∧
    handlerAccepts job.kind job.payload.entries = true

theorem Names.accepted {mailboxId : MailboxId} {generation : Generation} {entries : Entries}
    (h : Names mailboxId generation entries) :
    payloadMailboxId entries = some mailboxId.1 ∧
      integerEntry entries (js "generation") = some generation.1 ∧
      ∀ kind, handlerAccepts kind entries = true := by
  have hlength : mailboxId.1.length = 36 := by
    have hshape := mailboxId.2
    simp only [Outbound.canonicalUuid, Bool.and_eq_true, decide_eq_true_eq] at hshape
    exact hshape.1
  have hmailbox : payloadMailboxId entries = some mailboxId.1 := by
    rw [payloadMailboxId, stringEntry_of_text h.mailbox]
    cases hid : mailboxId.1 with
    | nil => simp [hid] at hlength
    | cons c cs => rfl
  have hgeneration : integerEntry entries (js "generation") = some generation.1 := by
    rw [integerEntry, h.generation, Option.bind_some, Decimals.read_print]
  have hpositive : payloadGeneration entries = some generation.1 := by
    simp [payloadGeneration, hgeneration, Option.filter, generation.2]
  refine ⟨hmailbox, hgeneration, fun kind => ?_⟩
  unfold handlerAccepts
  rw [hmailbox, hpositive]
  split
  · rfl
  · split <;> rfl

theorem Names.setEntry {mailboxId : MailboxId} {generation : Generation} {entries : Entries}
    (h : Names mailboxId generation entries) (json : JsString) :
    Names mailboxId generation (setEntry (js "historyId") json entries) where
  mailbox := by rw [lookup_setEntry_ne (by decide)]; exact h.mailbox
  generation := by rw [lookup_setEntry_ne (by decide)]; exact h.generation

def isMailKind (kind : JsString) : Prop := kind = mailSyncKind ∨ kind = mailRecoverKind

/-- Retention has emptied the row's payload. -/
def archived (job : Job) : Prop := job.payloadArchivedAt ≠ none

/-- What is archived is finished, and empty. -/
def ArchivedDone (job : Job) : Prop :=
  archived job → job.state = .done ∧ job.payload.entries = []

/-- A mail job's row is archived, or its payload is that of its key. -/
def MailRow (job : Job) : Prop :=
  isMailKind job.kind → archived job ∨
    ∃ mailboxId generation, job.idempotencyKey = ownKey job.kind mailboxId generation ∧
      Names mailboxId generation job.payload.entries ∧
      (job.kind = mailSyncKind → HintShape job.payload.entries)

/-- Every mail job that may be claimed or is running has its own payload. -/
def RunnablePayloads (q : Queue) : Prop :=
  ∀ job ∈ q.jobs, isMailKind job.kind →
    job.state = .queued ∨ job.state = .retryable ∨ job.state = .running → OwnPayload job

/-- What a step keeps: a call on a row that is there does not fail, and no hint decreases. -/
structure StepKeeps (q : Queue) (a : MailJobAction) : Prop where
  coalesces : ∀ now newId input, a = .coalesceMailSync now newId input →
    (singleFlight input.workspaceId mailSyncKind (mailSyncKey input.mailboxId input.generation)
      q.jobs).isSome = true →
    (coalesceMailSync now newId input q.jobs).isSome = true
  hints : ∀ k job job', q.jobs.find? k = some job → job.kind = mailSyncKind →
    (mailStep q a).jobs.find? k = some job' →
    hintLe (hintOf job.payload.entries) (hintOf job'.payload.entries)

/-- The step re-arms no row whose payload is archived, and archives no hint. -/
def sparesPayloads (q : Queue) (a : MailJobAction) : Bool :=
  match a with
  | .coalesceMailSync _ _ input =>
    (singleFlight input.workspaceId mailSyncKind (mailSyncKey input.mailboxId input.generation)
      q.jobs).all fun row => row.payloadArchivedAt.isNone
  | .archiveCompletedPayloads now olderThanMillis limit =>
    (archivableCandidates now olderThanMillis limit q.jobs).all fun k =>
      (q.jobs.find? k).all fun row =>
        row.kind ≠ mailSyncKind || (hintOf row.payload.entries).isNone
  | _ => true

/-! ## What one action does to one row -/

inductive MailMove (q : Queue) (job : Job) : MailJobAction → Job → Prop
  | kept (a : MailJobAction) : MailMove q job a job
  | moved {a : MailJobAction} {b : Action} {job' : Job} (hstatement : a.statement = some b)
      (hmove : JobMove q job b job') : MailMove q job a job'
  | coalesced {now : Instant} {newId : Uuid} {input : CoalesceMailSyncInput} {hint : JsString}
      (hrow : singleFlight input.workspaceId mailSyncKind
        (mailSyncKey input.mailboxId input.generation) q.jobs = some job)
      (hmerged : mergedHint job.payload.entries input.historyId = some hint) :
      MailMove q job (.coalesceMailSync now newId input) (coalesceSet now hint job)
  | rearmed {now : Instant} {workspaceId : Uuid} {mailboxId : MailboxId} {generation : Generation}
      (hlive : ¬ archived job) :
      MailMove q job (.rearmRecoveryJob now workspaceId mailboxId generation) (rearmSet now job)

section Step

variable {q : Queue} {a : MailJobAction} {k : JobKey} {job job' : Job}

theorem mailStep_statement {b : Action} (h : a.statement = some b) : mailStep q a = q.step b := by
  cases a with
  | coalesceMailSync | rearmRecoveryJob => cases h
  | _ =>
    cases h
    rfl

theorem singleFlight_some {workspaceId : Uuid} {kind key : JsString} {jobs : JobTable}
    (h : singleFlight workspaceId kind key jobs = some job) :
    jobs.find? job.key = some job ∧ job.workspaceId = workspaceId ∧ job.kind = kind ∧
      job.idempotencyKey = key := by
  have hmem : job ∈ jobs := List.mem_of_find?_eq_some h
  have hguard := List.find?_some h
  simp only [Bool.and_eq_true, decide_eq_true_eq] at hguard
  exact ⟨Table.find?_eq_some.2 ⟨hmem, rfl⟩, hguard.1.1, hguard.1.2, hguard.2⟩

/-- Every action leaves a row where it was or makes one of its moves. -/
theorem mailStep_job (h : q.jobs.find? k = some job) :
    ∃ job', (mailStep q a).jobs.find? k = some job' ∧ MailMove q job a job' := by
  cases hstatement : a.statement with
  | some b =>
    obtain ⟨job', hfind, hmove⟩ := step_job (a := b) h
    rw [mailStep_statement hstatement]
    exact ⟨job', hfind, .moved hstatement hmove⟩
  | none =>
    cases a with
    | coalesceMailSync now newId input =>
      simp only [mailStep, Mail.coalesceMailSync]
      split
      next hnone =>
        refine ⟨job, ?_, .kept _⟩
        split
        · cases hinsert : q.jobs.insert? (newJob now newId (mailSyncSpecification input)) with
          | none => exact h
          | some jobs =>
            have hne : k ≠ (newJob now newId (mailSyncSpecification input)).key := by
              rintro rfl
              rw [(Table.insert?_eq_some hinsert).1] at h
              cases h
            exact (Table.find?_insert?_ne hinsert hne).trans h
        · exact h
      next row hrow =>
        cases hmerged : mergedHint row.payload.entries input.historyId with
        | none => exact ⟨job, h, .kept _⟩
        | some hint =>
          have hfind := (singleFlight_some hrow).1
          by_cases hk : k = row.key
          · have hsame : row = job := Option.some.inj (hfind.symm.trans (hk ▸ h))
            subst hsame
            refine ⟨coalesceSet now hint row, ?_, .coalesced hrow hmerged⟩
            exact Table.find?_upsert_of_key hk.symm
          · refine ⟨job, ?_, .kept _⟩
            exact (Table.find?_upsert_ne (r := coalesceSet now hint row) hk).trans h
    | rearmRecoveryJob now workspaceId mailboxId generation =>
      simp only [mailStep, Mail.rearmRecoveryJob]
      split
      · exact ⟨job, h, .kept _⟩
      next row hrow =>
        split
        · exact ⟨job, h, .kept _⟩
        split
        · exact ⟨job, h, .kept _⟩
        next hdone hlive =>
          have hfind := (singleFlight_some hrow).1
          by_cases hk : k = row.key
          · have hsame : row = job := Option.some.inj (hfind.symm.trans (hk ▸ h))
            subst hsame
            refine ⟨rearmSet now row, Table.find?_upsert_of_key hk.symm, .rearmed ?_⟩
            simpa [archived] using hlive
          · refine ⟨job, ?_, .kept _⟩
            exact (Table.find?_upsert_ne (r := rearmSet now row) hk).trans h
    | _ => cases hstatement

/-- The row an enqueue adds. -/
inductive Enqueued : MailJobAction → Job → Prop
  | sync (now : Instant) (newId : Uuid) (input : CoalesceMailSyncInput) :
      Enqueued (.coalesceMailSync now newId input) (newJob now newId (mailSyncSpecification input))
  | recovery (now : Instant) (newId workspaceId : Uuid) (mailboxId : MailboxId)
      (generation : Generation) (maxAttempts : Option Int) :
      Enqueued (.enqueueRecovery now newId workspaceId mailboxId generation maxAttempts)
        (newJob now newId (mailRecoverSpecification workspaceId mailboxId generation maxAttempts))

/-- A row appears only by being enqueued. -/
theorem mailStep_absent (h : q.jobs.find? k = none) :
    (mailStep q a).jobs.find? k = none ∨
      ∃ job', (mailStep q a).jobs.find? k = some job' ∧ Enqueued a job' := by
  have hothers : ∀ row row' : Job, row'.key = row.key → q.jobs.find? row.key = some row →
      (q.jobs.upsert row').find? k = none := by
    intro row row' hkey hfind
    have hne : k ≠ row'.key := by
      rintro rfl
      rw [hkey, hfind] at h
      cases h
    rw [Table.find?_upsert_ne hne, h]
  cases hstatement : a.statement with
  | some b =>
    rw [mailStep_statement hstatement]
    rcases step_absent (a := b) h with hnone | ⟨now, id, specification, rfl, -, hsome⟩
    · exact .inl hnone
    · cases a with
      | enqueueRecovery =>
        cases hstatement
        exact .inr ⟨_, hsome, .recovery _ _ _ _ _ _⟩
      | _ => cases hstatement
  | none =>
    cases a with
    | coalesceMailSync now newId input =>
      simp only [mailStep, Mail.coalesceMailSync]
      split
      next hnone =>
        split
        · cases hinsert : q.jobs.insert? (newJob now newId (mailSyncSpecification input)) with
          | none => exact .inl h
          | some jobs =>
            by_cases hk : k = (newJob now newId (mailSyncSpecification input)).key
            · refine .inr ⟨_, ?_, .sync now newId input⟩
              rw [hk]
              exact Table.find?_insert?_self hinsert
            · exact .inl ((Table.find?_insert?_ne hinsert hk).trans h)
        · exact .inl h
      next row hrow =>
        cases hmerged : mergedHint row.payload.entries input.historyId with
        | none => exact .inl h
        | some hint =>
          exact .inl (hothers row (coalesceSet now hint row) rfl (singleFlight_some hrow).1)
    | rearmRecoveryJob now workspaceId mailboxId generation =>
      simp only [mailStep, Mail.rearmRecoveryJob]
      split
      · exact .inl h
      next row hrow =>
        split
        · exact .inl h
        split
        · exact .inl h
        · exact .inl (hothers row (rearmSet now row) rfl (singleFlight_some hrow).1)
    | _ => cases hstatement

/-- What the enqueued rows and every move keep holds of every row after a step. -/
theorem mailStep_rows {P : Job → Prop} (hnew : ∀ job', Enqueued a job' → P job')
    (hmove : ∀ job job', MailMove q job a job' → job ∈ q.jobs → P job → P job')
    (h : ∀ job ∈ q.jobs, P job) : ∀ job ∈ (mailStep q a).jobs, P job := by
  intro job' hjob'
  have hfind' : (mailStep q a).jobs.find? job'.key = some job' :=
    Table.find?_eq_some.2 ⟨hjob', rfl⟩
  cases hfind : q.jobs.find? job'.key with
  | none =>
    rcases mailStep_absent (a := a) hfind with hnone | ⟨fresh, hfresh, henqueued⟩
    · rw [hnone] at hfind'
      cases hfind'
    · cases hfresh.symm.trans hfind'
      exact hnew _ henqueued
  | some job =>
    obtain ⟨next, hnext, hmoved⟩ := mailStep_job (a := a) hfind
    cases hnext.symm.trans hfind'
    have hjob := (Table.find?_eq_some.1 hfind).1
    exact hmove job _ hmoved hjob (h job hjob)

end Step

/-! ## Retention aside, a move keeps the payload's entries -/

theorem jobMove_entries {q : Queue} {job job' : Job} {b : Action} (h : JobMove q job b job') :
    (∃ now olderThanMillis limit, b = .archiveCompletedPayloads now olderThanMillis limit ∧
      archivable now olderThanMillis job = true ∧ job' = archiveSet now job) ∨
    (job'.kind = job.kind ∧ job'.idempotencyKey = job.idempotencyKey ∧
      job'.payload.entries = job.payload.entries ∧
      job'.payloadArchivedAt = job.payloadArchivedAt ∧ (job.state = .done → job'.state = .done)) := by
  cases h with
  | kept => exact .inr ⟨rfl, rfl, rfl, rfl, id⟩
  | claimed hclaimable =>
    refine .inr ⟨rfl, rfl, rfl, rfl, fun hdone => ?_⟩
    simp [claimable, hdone] at hclaimable
  | @wrote now claim w hissued hraises hguard =>
    have hrunning := (holdsToken_iff.1 (Write.guard_holdsToken hguard)).2.1
    refine .inr ⟨?_, ?_, ?_, ?_, fun hdone => ?_⟩
    · cases w <;> rfl
    · cases w <;> rfl
    · cases w <;> rfl
    · cases w <;> rfl
    · rw [hrunning] at hdone
      cases hdone
  | expired hexpired =>
    refine .inr ⟨rfl, rfl, rfl, rfl, fun hdone => ?_⟩
    simp [expired, hdone] at hexpired
  | archived harchivable => exact .inl ⟨_, _, _, rfl, harchivable, rfl⟩
  | requeued hadmin hdead =>
    refine .inr ⟨rfl, rfl, rfl, rfl, fun hdone => ?_⟩
    simp [isDead, hdone] at hdead

theorem mailSyncKind_ne : mailSyncKind ≠ mailRecoverKind := by decide

section Rows

variable {q : Queue} {a : MailJobAction} {job job' : Job}

theorem mailMove_archivedDone (hmove : MailMove q job a job') (h : ArchivedDone job) :
    ArchivedDone job' := by
  cases hmove with
  | kept => exact h
  | moved hstatement hmove =>
    rcases jobMove_entries hmove with ⟨now, _, _, _, harchivable, rfl⟩ |
      ⟨-, -, hentries, harchivedAt, hdone⟩
    · intro _
      simp only [archivable, Bool.and_eq_true, beq_iff_eq] at harchivable
      exact ⟨harchivable.1.1, rfl⟩
    · intro harchived
      have hold := h (by rw [archived, ← harchivedAt]; exact harchived)
      exact ⟨hdone hold.1, hentries.trans hold.2⟩
  | @coalesced now newId input hint hrow hmerged =>
    intro harchived
    by_cases hdone : job.state = .done
    · simp [archived, coalesceSet, hdone] at harchived
    · have hold : archived job := by simpa [archived, coalesceSet, hdone] using harchived
      exact absurd (h hold).1 hdone
  | rearmed hlive => exact fun harchived => absurd harchived hlive

theorem enqueued_archivedDone (h : Enqueued a job) : ArchivedDone job := by
  intro harchived
  cases h <;> exact absurd rfl harchived

/-- Over every run, what is archived is finished and empty. -/
theorem archivedDone_run (actions : List MailJobAction) :
    ∀ job ∈ (mailRun actions).jobs, ArchivedDone job := by
  refine run_invariant (I := fun q : Queue => ∀ job ∈ q.jobs, ArchivedDone job) ?_ ?_ actions
  · intro q a h
    apply mailStep_rows (fun job' => enqueued_archivedDone) _ h
    intro job job' hmove _
    exact mailMove_archivedDone hmove
  · intro job hjob
    exact absurd hjob Table.not_mem_empty

theorem enqueued_mailRow (h : Enqueued a job) : MailRow job := by
  intro _
  right
  cases h with
  | sync now newId input =>
    refine ⟨input.mailboxId, input.generation, ?_, ⟨rfl, rfl⟩, fun _ => ⟨input.historyId, rfl⟩⟩
    exact (if_pos rfl).symm
  | recovery now newId workspaceId mailboxId generation maxAttempts =>
    refine ⟨mailboxId, generation, ?_, ⟨rfl, rfl⟩, fun hsync => absurd hsync.symm mailSyncKind_ne⟩
    exact (if_neg (Ne.symm mailSyncKind_ne)).symm

/-- A row that is not archived, as its key says. -/
theorem mailMove_mailRow (hmove : MailMove q job a job') (hspares : sparesPayloads q a = true)
    (h : MailRow job) : MailRow job' := by
  cases hmove with
  | kept => exact h
  | moved hstatement hmove =>
    rcases jobMove_entries hmove with ⟨now, _, _, _, -, rfl⟩ | ⟨hkind, hkey, hentries, harchivedAt, -⟩
    · intro _
      exact .inl (Option.some_ne_none now)
    · intro hmail
      rcases h (hkind ▸ hmail) with harchived | hown
      · exact .inl (by rw [archived, harchivedAt]; exact harchived)
      · right
        rw [hkind, hkey, hentries]
        exact hown
  | @coalesced now newId input hint hrow hmerged =>
    simp only [sparesPayloads, hrow, Option.all_some, Option.isNone_iff_eq_none] at hspares
    intro hmail
    have hsync := (singleFlight_some hrow).2.2.1
    rcases h hmail with harchived | ⟨mailboxId, generation, hkey, hnames, hshape⟩
    · exact absurd hspares harchived
    · right
      obtain ⟨merged, hmerge, -⟩ := mergedHint_spec (hshape hsync) input.historyId
      have hhint : hint = hintJson merged := Option.some.inj (hmerged.symm.trans hmerge)
      refine ⟨mailboxId, generation, hkey, hnames.setEntry hint, fun _ => ⟨merged, ?_⟩⟩
      rw [← hhint]
      exact lookup_setEntry_self _ _ _
  | rearmed hlive => exact h

theorem mailStep_mailRow (hspares : sparesPayloads q a = true)
    (h : ∀ job ∈ q.jobs, MailRow job) : ∀ job ∈ (mailStep q a).jobs, MailRow job := by
  apply mailStep_rows (fun job' => enqueued_mailRow) _ h
  intro job job' hmove _
  exact mailMove_mailRow hmove hspares

end Rows

/-! ## Steps that spare the payloads keep them -/

section Spared

variable {q : Queue} {a : MailJobAction}

/-- A single-flight row of `mail.sync` that is not archived has a hint to merge with. -/
theorem coalesceMailSync_succeeds {input : CoalesceMailSyncInput} {row : Job}
    (hrow : singleFlight input.workspaceId mailSyncKind
      (mailSyncKey input.mailboxId input.generation) q.jobs = some row)
    (hlive : ¬ archived row) (h : MailRow row) (now : Instant) (newId : Uuid) :
    (coalesceMailSync now newId input q.jobs).isSome = true := by
  have hsync := (singleFlight_some hrow).2.2.1
  obtain ⟨_, _, _, _, hshape⟩ := (h (.inl hsync)).resolve_left hlive
  obtain ⟨merged, hmerge, -⟩ := mergedHint_spec (hshape hsync) input.historyId
  simp [coalesceMailSync, hrow, hmerge]

/-- Retention empties the rows it takes and leaves the others. -/
theorem archive_job (q : Queue) (now : Instant) (olderThanMillis : Int) (limit : Nat) {k : JobKey}
    {job : Job} (h : q.jobs.find? k = some job) :
    (mailStep q (.archiveCompletedPayloads now olderThanMillis limit)).jobs.find? k
      = some (if k ∈ archivableCandidates now olderThanMillis limit q.jobs then archiveSet now job
          else job) := by
  have hkey : ∀ row, (archiveSet now row).key = row.key := fun _ => rfl
  show (q.jobs.update _ _ hkey).find? k = _
  rw [Table.find?_update, h, Option.map_some, Table.find?_key h]
  simp only [decide_eq_true_eq]

/-- A spared row's hint only grows. -/
theorem mailStep_hint {k : JobKey} {job job' : Job} (hspares : sparesPayloads q a = true)
    (hfind : q.jobs.find? k = some job) (hsync : job.kind = mailSyncKind) (hrow : MailRow job)
    (hafter : (mailStep q a).jobs.find? k = some job') :
    hintLe (hintOf job.payload.entries) (hintOf job'.payload.entries) := by
  obtain ⟨next, hnext, hmove⟩ := mailStep_job (a := a) hfind
  cases hnext.symm.trans hafter
  cases hmove with
  | kept => exact hintLe_refl _
  | rearmed => exact hintLe_refl _
  | moved hstatement hmove =>
    rcases jobMove_entries hmove with ⟨now, olderThanMillis, limit, rfl, -⟩ | ⟨-, -, hentries, -⟩
    · cases a with
      | archiveCompletedPayloads now olderThanMillis limit =>
        rw [archive_job q now olderThanMillis limit hfind] at hafter
        split at hafter
        next hcandidate =>
          have hnone := List.all_eq_true.1 hspares k hcandidate
          simp only [hfind, Option.all_some, hsync, ne_eq, not_true_eq_false, decide_false,
            Bool.false_or, Option.isNone_iff_eq_none] at hnone
          rw [hnone]
          exact hintLe_of_none _
        next =>
          cases hafter
          exact hintLe_refl _
      | _ => cases hstatement
    · rw [hentries]
      exact hintLe_refl _
  | @coalesced now newId input hint hflight hmerged =>
    simp only [sparesPayloads, hflight, Option.all_some, Option.isNone_iff_eq_none] at hspares
    have hlive : ¬ archived job := fun harchived => harchived hspares
    obtain ⟨_, _, _, _, hshape⟩ := (hrow (.inl hsync)).resolve_left hlive
    obtain ⟨merged, hmerge, hle⟩ := mergedHint_spec (hshape hsync) input.historyId
    have hhint : hint = hintJson merged := Option.some.inj (hmerged.symm.trans hmerge)
    have hlookup : (coalesceSet now hint job).payload.entries.lookup (js "historyId")
        = some (hintJson merged) := by
      rw [← hhint]
      exact lookup_setEntry_self _ _ _
    rw [hintOf_of_lookup hlookup]
    exact hle

/-- A step that spares the payloads, from rows that hold them, keeps them. -/
theorem stepKeeps_of_spares (hspares : sparesPayloads q a = true)
    (h : ∀ job ∈ q.jobs, MailRow job) : StepKeeps q a where
  coalesces := by
    rintro now newId input rfl hpresent
    obtain ⟨row, hrow⟩ := Option.isSome_iff_exists.1 hpresent
    simp only [sparesPayloads, hrow, Option.all_some, Option.isNone_iff_eq_none] at hspares
    have hlive : ¬ archived row := fun harchived => harchived hspares
    have hmem := (Table.find?_eq_some.1 (singleFlight_some hrow).1).1
    exact coalesceMailSync_succeeds hrow hlive (h row hmem) now newId
  hints := by
    intro k job job' hfind hsync hafter
    exact mailStep_hint hspares hfind hsync (h job (Table.find?_eq_some.1 hfind).1) hafter

theorem runnable_of_rows (hrows : ∀ job ∈ q.jobs, MailRow job)
    (hdone : ∀ job ∈ q.jobs, ArchivedDone job) : RunnablePayloads q := by
  intro job hjob hmail hstate
  have hlive : ¬ archived job := by
    intro harchived
    rw [(hdone job hjob harchived).1] at hstate
    simp at hstate
  obtain ⟨mailboxId, generation, hkey, hnames, -⟩ := (hrows job hjob hmail).resolve_left hlive
  obtain ⟨hmailbox, hgeneration, haccepts⟩ := hnames.accepted
  exact ⟨mailboxId, generation, hkey, hmailbox, hgeneration, haccepts job.kind⟩

/-! ## Steps that keep the payloads spare them -/

theorem handlerAccepts_mailbox {kind : JsString} {entries : Entries} (hmail : isMailKind kind)
    (h : handlerAccepts kind entries = true) : (payloadMailboxId entries).isSome = true := by
  unfold handlerAccepts at h
  rcases hmail with rfl | rfl
  · simpa using h
  · rw [if_neg (Ne.symm mailSyncKind_ne), if_pos rfl] at h
    exact (Bool.and_eq_true_iff.1 h).1

/-- A hint put into an empty payload names no mailbox. -/
theorem unnamed_of_empty {entries : Entries} (h : entries = []) (json : JsString) :
    payloadMailboxId (setEntry (js "historyId") json entries) = none := by
  have hne : js "mailboxId" ≠ js "historyId" := by decide
  simp [payloadMailboxId, stringEntry, lookup_setEntry_ne hne, h]

theorem spares_of_keeps (hkeeps : StepKeeps q a) (hnext : RunnablePayloads (mailStep q a))
    (hdone : ∀ job ∈ q.jobs, ArchivedDone job) : sparesPayloads q a = true := by
  cases a with
  | coalesceMailSync now newId input =>
    cases hrow : singleFlight input.workspaceId mailSyncKind
        (mailSyncKey input.mailboxId input.generation) q.jobs with
    | none => simp [sparesPayloads, hrow]
    | some row =>
      by_cases hlive : row.payloadArchivedAt = none
      · simp [sparesPayloads, hrow, hlive]
      -- an archived row: without a hint the statement fails, with one it re-arms an empty payload
      exfalso
      obtain ⟨hfind, -, hsync, -⟩ := singleFlight_some hrow
      obtain ⟨hstate, hempty⟩ := hdone row (Table.find?_eq_some.1 hfind).1 hlive
      have hsome := hkeeps.coalesces now newId input rfl (by rw [hrow]; rfl)
      obtain ⟨hint, hmerged⟩ : ∃ hint, mergedHint row.payload.entries input.historyId = some hint := by
        cases hmerged : mergedHint row.payload.entries input.historyId with
        | none => simp [coalesceMailSync, hrow, hmerged] at hsome
        | some hint => exact ⟨hint, rfl⟩
      have hmem : coalesceSet now hint row
          ∈ (mailStep q (.coalesceMailSync now newId input)).jobs := by
        simp only [mailStep, coalesceMailSync, hrow, hmerged, Option.map_some, Option.getD_some]
        exact Table.mem_upsert.2 (.inl rfl)
      have hqueued : (coalesceSet now hint row).state = .queued := by simp [coalesceSet, hstate]
      obtain ⟨_, _, _, -, -, haccepts⟩ := hnext _ hmem (.inl hsync) (.inl hqueued)
      have hnamed := handlerAccepts_mailbox (.inl hsync) haccepts
      rw [coalesceSet, unnamed_of_empty hempty hint] at hnamed
      cases hnamed
  | archiveCompletedPayloads now olderThanMillis limit =>
    apply List.all_eq_true.2
    intro k hcandidate
    cases hfind : q.jobs.find? k with
    | none => rfl
    | some row =>
      by_cases hsync : row.kind = mailSyncKind
      · cases hhint : hintOf row.payload.entries with
        | none => simp [hhint]
        | some n =>
          have hafter := archive_job q now olderThanMillis limit hfind
          rw [if_pos hcandidate] at hafter
          obtain ⟨m, hm, -⟩ := hkeeps.hints k row _ hfind hsync hafter n hhint
          cases hm
      · simp [hsync]
  | _ => rfl

end Spared

/-- Over every run, every call on a row that is there succeeds, no hint decreases and every
mail job that may run has its own payload, exactly when no call finds a row whose payload
is archived and retention archives no hint. -/
theorem payloadsKept_iff (actions : List MailJobAction) :
    ((∀ front a back, actions = front ++ a :: back → StepKeeps (mailRun front) a) ∧
      ∀ front back, actions = front ++ back → RunnablePayloads (mailRun front)) ↔
    Meets mailStep (fun q a => sparesPayloads q a = true) Queue.empty actions := by
  have hempty : ∀ job ∈ Queue.empty.jobs, MailRow job :=
    fun job hjob => absurd hjob Table.not_mem_empty
  constructor
  · rintro ⟨hkeeps, hrunnable⟩
    apply meets_of_prefixes
    intro front a back hactions
    apply spares_of_keeps (hkeeps front a back hactions) _ (archivedDone_run front)
    have hnext := hrunnable (front ++ [a]) back (by rw [hactions]; simp)
    rw [mailRun, run_append] at hnext
    exact hnext
  · intro hspares
    have hrows : ∀ front back, actions = front ++ back →
        ∀ job ∈ (mailRun front).jobs, MailRow job := by
      rintro front back rfl
      exact Meets.invariant (I := fun q : Queue => ∀ job ∈ q.jobs, MailRow job)
        (fun q a hstep => mailStep_mailRow hstep) hspares.append.1 hempty
    constructor
    · rintro front a back rfl
      exact stepKeeps_of_spares hspares.append.2.1 (hrows front (a :: back) rfl)
    · rintro front back rfl
      exact runnable_of_rows (hrows front back rfl) (archivedDone_run front)

/-! ## A mailbox whose row retention reached -/

section Archived

private def zeroUuid : Uuid := js "00000000-0000-0000-0000-000000000000"

private def quietMailbox : CoalesceMailSyncInput :=
  ⟨zeroUuid, ⟨zeroUuid, by decide +kernel⟩, ⟨1, by decide⟩, none, none⟩

private def workerOptions : ClaimOptions := ⟨js "worker-1", [mailSyncKind], 1, 60_000⟩

private def quietClaim : ClaimedJob where
  id := zeroUuid
  workspaceId := zeroUuid
  kind := mailSyncKind
  idempotencyKey := mailSyncKey quietMailbox.mailboxId quietMailbox.generation
  payload := (mailSyncSpecification quietMailbox).payload
  attempt := 1
  maxAttempts := 4
  fencingToken := 1
  leaseOwner := js "worker-1"
  leaseExpiresAt := 60_000

/-- A synchronisation that runs, ends, and is archived after a week. -/
private def quietWeek : List MailJobAction :=
  [.coalesceMailSync 0 zeroUuid quietMailbox, .claimJobs 0 [] workerOptions,
    .write 1 quietClaim .completeJob, .archiveCompletedPayloads 604_800_002 604_800_000 500]

/-- The next call for the mailbox fails on its row. -/
theorem coalesceMailSync_fails :
    ¬ ∀ actions : List MailJobAction,
      (∀ front a back, actions = front ++ a :: back → StepKeeps (mailRun front) a) ∧
        ∀ front back, actions = front ++ back → RunnablePayloads (mailRun front) := by
  intro h
  have hkeeps := (h (quietWeek ++ [.coalesceMailSync 604_800_003 zeroUuid quietMailbox])).1
    quietWeek _ [] rfl
  have hpresent : (singleFlight zeroUuid mailSyncKind
      (mailSyncKey quietMailbox.mailboxId quietMailbox.generation)
      (mailRun quietWeek).jobs).isSome = true := by decide +kernel
  have hfails : (coalesceMailSync 604_800_003 zeroUuid quietMailbox
      (mailRun quietWeek).jobs).isSome = false := by decide +kernel
  rw [hkeeps.coalesces _ _ _ rfl hpresent] at hfails
  cases hfails

end Archived

end FoundingSales.Mail
