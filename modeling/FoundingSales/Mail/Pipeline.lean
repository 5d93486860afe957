import FoundingSales.Library.Tables
import FoundingSales.Mail.Gmail

/-!
What happens to one batch of Gmail message ids, whichever job found them. A failed read
stops the batch before that message; what the messages before it wrote stands.

A run's rows stay its own until it commits: `own` is what the transaction has inserted so
far, and an insert conflicts with those rows and with the committed ones.
-/

namespace FoundingSales.Mail

open Tables Processes Outbound

abbrev ProcessId := Nat

/-! ## The rows of `mail_messages` -/

inductive MailDirection
  | incoming | outgoing
  deriving DecidableEq

/-- A row; `mail_messages_one_per_provider_id` is its key. -/
structure MailMessage where
  providerMessageId : JsString
  rfcMessageId : Option JsString
  direction : MailDirection
  internalDate : Instant
  headerFrom : Option JsString
  subject : Option JsString
  labelIds : List JsString
  deriving DecidableEq

abbrev MessageTable := Table MailMessage.providerMessageId

def draftLabel : JsString := js "DRAFT"

def directionOfLabels (labelIds : List JsString) : MailDirection :=
  if js "SENT" ∈ labelIds then .outgoing else .incoming

def mailListLimit : Nat := 100

def normalizeMetadata (metadata : MessageMetadata) : MailMessage where
  providerMessageId := metadata.id
  rfcMessageId := metadata.rfcMessageId
  direction := directionOfLabels metadata.labelIds
  internalDate := metadata.internalDate
  headerFrom := metadata.headerFrom
  subject := metadata.subject.map (List.take 998)
  labelIds := metadata.labelIds.take mailListLimit

/-- `ON CONFLICT`: one row a Gmail id, one row an RFC Message-ID. -/
def MailMessage.conflicts (m row : MailMessage) : Bool :=
  row.providerMessageId = m.providerMessageId ||
    (m.rfcMessageId.isSome && row.rfcMessageId = m.rfcMessageId)

def messageByProviderId (rows : List MailMessage) (id : JsString) : Option MailMessage :=
  rows.find? fun row => row.providerMessageId = id

def messageByRfcId (rows : List MailMessage) (id : JsString) : Option MailMessage :=
  rows.find? fun row => row.rfcMessageId = some id

def hasRecordedDraft (rows : List MailMessage) (id : JsString) : Bool :=
  rows.any fun row => row.providerMessageId = id && draftLabel ∈ row.labelIds

/-! ## Programs -/

section Programs

variable {σ : Type} (messages : σ → MessageTable)

/-- The rows a statement of the transaction sees. -/
def visible (own : List MailMessage) (s : σ) : List MailMessage := (messages s).rows ++ own

abbrev MailProg (σ α : Type) := Prog ProcessId Env σ α

/-- An exception, which ends the run. -/
def raise {α : Type} : MailProg σ α := .stmt (fun _ _ _ => (none : Option (Empty × σ))) nofun

def gmail {α : Type} (read : Env → α) : MailProg σ α := .ask fun e _ => read e

def query {α : Type} (read : σ → α) : MailProg σ α := .ask fun _ s => read s

/-- A read that is only made on a condition. -/
def gmailWhen {α : Type} (condition : Bool) (otherwise : α) (read : Env → α) : MailProg σ α :=
  if condition then gmail read else pure otherwise

def queryWhen (condition : Bool) (read : σ → Bool) : MailProg σ Bool :=
  if condition then query read else pure false

/-! ## Recording a message -/

inductive RecordOutcome
  | inserted | replayed | duplicateRfcId | rfcIdConflict
  deriving DecidableEq

structure RecordedMessage where
  message : MailMessage
  inserted : Bool
  outcome : RecordOutcome
  deriving DecidableEq

/-- `ProofReadFailed` is a value here. -/
inductive RecordResult
  | recorded (message : RecordedMessage)
  | proofReadFailed (detail : JsString)
  deriving DecidableEq

/-- Whether the other message's metadata, read again, carries this `Date`. -/
def sameDate (date : Option JsString) : Option MessageMetadata → Bool
  | none => false
  | some other =>
    if draftLabel ∈ other.labelIds then false
    else date.isSome && date ≠ some [] && date = other.date

/-- Write one message, or find the one already written. -/
def recordMessage (own : List MailMessage) (m : MailMessage) (date : Option JsString) :
    MailProg σ RecordResult := do
  let taken ← query fun s => (visible messages own s).any m.conflicts
  if !taken then return .recorded ⟨m, true, .inserted⟩
  else
    match ← query fun s => messageByProviderId (visible messages own s) m.providerMessageId with
    | some replayed => return .recorded ⟨replayed, false, .replayed⟩
    | none =>
      match ← query fun s => m.rfcMessageId.bind (messageByRfcId (visible messages own s)) with
      | none => raise
      | some existing =>
        let draft ← query fun s =>
          hasRecordedDraft (visible messages own s) existing.providerMessageId
        let alike := !draft && existing.direction = m.direction &&
          existing.headerFrom = m.headerFrom && existing.subject = m.subject
        let other ← gmailWhen alike (.ok none) fun e => e.metadata existing.providerMessageId
        match other with
        | .failed detail => return .proofReadFailed detail
        | .ok other =>
          if alike && sameDate date (other.map Subtype.val) then
            return .recorded ⟨existing, false, .duplicateRfcId⟩
          else
            let own' : MailMessage := { m with rfcMessageId := none }
            let taken ← query fun s => (visible messages own s).any own'.conflicts
            if !taken then return .recorded ⟨own', true, .rfcIdConflict⟩
            else
              match ← query fun s =>
                messageByProviderId (visible messages own s) m.providerMessageId with
              | some replayed => return .recorded ⟨replayed, false, .replayed⟩
              | none => raise

/-! ## The batch -/

inductive FailedRead
  | metadata | body
  deriving DecidableEq

structure PipelineReadFailure where
  providerMessageId : JsString
  read : FailedRead
  detail : JsString
  deriving DecidableEq

inductive Ending
  | recorded | vanished | draft | duplicate
  deriving DecidableEq

/-- How a message was finished: what the metadata read of it answered, and what became of it. -/
structure Finish where
  answer : Option MessageMetadata
  ending : Ending
  deriving DecidableEq

/-- The report of a batch, the rows of the transaction, and how each message ended. -/
structure PipelineReport where
  messagesSeen : Nat
  messagesRecorded : Nat
  bodiesFetched : Nat
  matched : Nat
  ambiguous : Nat
  automatedSendsRecognised : Nat
  duplicateRfcId : Nat
  rfcIdConflicts : Nat
  vanishedMessages : Nat
  newestInternalDate : Option Instant
  processedMessages : Nat
  readFailure : Option PipelineReadFailure
  rows : List MailMessage
  finished : List (JsString × Finish)
  deriving DecidableEq

def emptyPipelineReport (own : List MailMessage) : PipelineReport :=
  ⟨0, 0, 0, 0, 0, 0, 0, 0, 0, none, 0, none, own, []⟩

namespace PipelineReport

def newest (report : PipelineReport) (at_ : Instant) : Option Instant :=
  match report.newestInternalDate with
  | none => some at_
  | some newest => some (max newest at_)

/-- The message is finished; `processedMessages = index + 1`. -/
def finish (report : PipelineReport) (id : JsString) (how : Finish) : PipelineReport :=
  { report with
    processedMessages := report.processedMessages + 1
    finished := report.finished ++ [(id, how)] }

def vanish (report : PipelineReport) (id : JsString) : PipelineReport :=
  { report with vanishedMessages := report.vanishedMessages + 1 }.finish id ⟨none, .vanished⟩

def observeDraft (report : PipelineReport) (metadata : MessageMetadata) (id : JsString) :
    PipelineReport :=
  { report with
    messagesSeen := report.messagesSeen + 1
    newestInternalDate := report.newest metadata.internalDate }.finish id ⟨some metadata, .draft⟩

/-- The counters and rows once the message is recorded. -/
def record (report : PipelineReport) (m : MailMessage) (stored : RecordedMessage) :
    PipelineReport :=
  { report with
    messagesSeen := report.messagesSeen + 1
    messagesRecorded := report.messagesRecorded + if stored.inserted then 1 else 0
    newestInternalDate := report.newest m.internalDate
    duplicateRfcId := report.duplicateRfcId + if stored.outcome = .duplicateRfcId then 1 else 0
    rfcIdConflicts := report.rfcIdConflicts + if stored.outcome = .rfcIdConflict then 1 else 0
    rows := if stored.inserted then report.rows ++ [stored.message] else report.rows }

def fetch (report : PipelineReport) (body : Bool) : PipelineReport :=
  { report with bodiesFetched := report.bodiesFetched + if body then 1 else 0 }

end PipelineReport

inductive Step
  | done (report : PipelineReport)
  | failed (read : FailedRead) (detail : JsString)
  deriving DecidableEq

/-- Everything after the message is stored: match, then a body only for what matched, then
the effects. -/
def matchStored (report : PipelineReport) (stored : RecordedMessage) : MailProg σ Step := do
  if !(← gmail fun e => e.matching.candidates) then return .done report
  else
    let outgoing := decide (stored.message.direction = .outgoing)
    let fence ← gmailWhen outgoing false fun e => e.matching.fence
    let report := { report with matched := report.matched + 1 }
    if ← gmail fun e => e.matching.frozen then return .done report
    else
      let ambiguous ← gmail fun e => e.matching.ambiguous
      let report := { report with ambiguous := report.ambiguous + if ambiguous then 1 else 0 }
      if outgoing then
        if fence then
          return .done
            { report with automatedSendsRecognised := report.automatedSendsRecognised + 1 }
        else if !(← gmail fun e => e.matching.target) then return .done report
        else if !(← gmail fun e => e.matching.meetingDraft) then return .done report
        else
          match ← gmail Env.body with
          | .failed detail => return .failed .body detail
          | .ok body => return .done (report.fetch body)
      else
        match ← gmail Env.body with
        | .failed detail => return .failed .body detail
        | .ok body => return .done (report.fetch body)

/-- The step inside the savepoint. -/
def importMessage (report : PipelineReport) (id : JsString) (metadata : MessageMetadata) :
    MailProg σ Step := do
  let normalized := normalizeMetadata metadata
  match ← recordMessage messages report.rows normalized metadata.date with
  | .proofReadFailed detail => return .failed .metadata detail
  | .recorded stored =>
    let report := report.record normalized stored
    if stored.outcome = .duplicateRfcId then
      return .done (report.finish id ⟨some metadata, .duplicate⟩)
    else matchStored (report.finish id ⟨some metadata, .recorded⟩) stored

/-- One message; a failed step leaves the report, and the rows, as they were. -/
def processMessage (report : PipelineReport) (id : JsString) : MailProg σ Step := do
  match ← gmail fun e => e.metadata id with
  | .failed detail => return .failed .metadata detail
  | .ok none => return .done (report.vanish id)
  | .ok (some metadata) =>
    let draft := decide (draftLabel ∈ metadata.1.labelIds)
    let legacyDraft ← queryWhen (!draft) fun s =>
      hasRecordedDraft (visible messages report.rows s) id
    if draft || legacyDraft then return .done (report.observeDraft metadata.1 id)
    else importMessage messages report id metadata.1

/-- The ids of a batch in order, until a read fails. -/
def processMessageIds : List JsString → PipelineReport → MailProg σ PipelineReport
  | [], report => return report
  | id :: ids, report => do
    match ← processMessage messages report id with
    | .failed read detail => return { report with readFailure := some ⟨id, read, detail⟩ }
    | .done report' => processMessageIds ids report'

end Programs

/-! ## What a batch proves -/

/-- What a running job is known to know: rows it has seen committed, and its own work. -/
structure Mode (ω : Type) where
  known : List MailMessage
  work : ω

namespace Mode

variable {ω : Type}

/-- The same work, and nothing forgotten. -/
def Kept (m m' : Mode ω) : Prop := m'.work = m.work ∧ m.known ⊆ m'.known

theorem Kept.refl (m : Mode ω) : Kept m m := ⟨rfl, fun _ h => h⟩

theorem Kept.trans {a b c : Mode ω} (hab : Kept a b) (hbc : Kept b c) : Kept a c :=
  ⟨hbc.1.trans hab.1, fun _ h => hbc.2 (hab.2 h)⟩

end Mode

/-- The header that makes a message a second copy of a stored one. -/
structure MailMessage.Repeats (existing m : MailMessage) : Prop where
  named : m.rfcMessageId.isSome
  rfcMessageId : existing.rfcMessageId = m.rfcMessageId
  direction : existing.direction = m.direction
  headerFrom : existing.headerFrom = m.headerFrom
  subject : existing.subject = m.subject

/-- What stands behind the way a message was finished. A vanished one: Gmail answered that it
has none. A draft: its label, as read or on its row. A duplicate: a row with its header. A
recorded one: its row. -/
def Finish.Shown (row : MailMessage → Prop) (id : JsString) : Finish → Prop
  | ⟨none, ending⟩ => ending = .vanished
  | ⟨some metadata, ending⟩ => metadata.id = id ∧
    match ending with
    | .vanished => False
    | .draft => draftLabel ∈ metadata.labelIds ∨
      ∃ r, row r ∧ r.providerMessageId = id ∧ draftLabel ∈ r.labelIds
    | .duplicate => ∃ r, row r ∧ r.Repeats (normalizeMetadata metadata)
    | .recorded => ∃ r, row r ∧ r.providerMessageId = id

theorem Finish.Shown.mono {row row' : MailMessage → Prop} {id : JsString} {how : Finish}
    (h : how.Shown row id) (hrow : ∀ r, row r → row' r) : how.Shown row' id := by
  obtain ⟨answer, ending⟩ := how
  cases answer with
  | none => exact h
  | some metadata =>
    refine ⟨h.1, ?_⟩
    have hshown := h.2
    cases ending with
    | vanished => exact hshown
    | draft => exact hshown.imp_right fun ⟨r, hr, hrest⟩ => ⟨r, hrow r hr, hrest⟩
    | duplicate =>
      obtain ⟨r, hr, hrest⟩ := hshown
      exact ⟨r, hrow r hr, hrest⟩
    | recorded =>
      obtain ⟨r, hr, hrest⟩ := hshown
      exact ⟨r, hrow r hr, hrest⟩

/-- A row of the transaction, or one it has seen committed. -/
def Has (own known : List MailMessage) (r : MailMessage) : Prop := r ∈ own ∨ r ∈ known

theorem Has.mono {own own' known known' : List MailMessage} {r : MailMessage}
    (h : Has own known r) (hown : own ⊆ own') (hknown : known ⊆ known') : Has own' known' r :=
  h.imp (hown ·) (hknown ·)

namespace PipelineReport

/-- Only counters differ. -/
structure SameEnds (before after : PipelineReport) : Prop where
  processed : after.processedMessages = before.processedMessages
  failure : after.readFailure = before.readFailure
  finished : after.finished = before.finished
  rows : after.rows = before.rows

/-- One message more is finished, in a way that is shown. -/
structure Next (known : List MailMessage) (id : JsString) (before after : PipelineReport) :
    Prop where
  processed : after.processedMessages = before.processedMessages + 1
  failure : after.readFailure = before.readFailure
  finished : ∃ how, after.finished = before.finished ++ [(id, how)] ∧
    how.Shown (Has after.rows known) id
  rows : before.rows ⊆ after.rows

/-- A prefix of the ids is finished, all of them where no read failed. -/
structure Through (known : List MailMessage) (ids : List JsString)
    (before after : PipelineReport) : Prop where
  finished : ∃ ends : List (JsString × Finish), after.finished = before.finished ++ ends ∧
    ends.map Prod.fst <+: ids ∧
    after.processedMessages = before.processedMessages + ends.length ∧
    (after.readFailure = none → ends.length = ids.length) ∧
    ∀ id how, (id, how) ∈ ends → how.Shown (Has after.rows known) id
  rows : before.rows ⊆ after.rows

variable {known known' : List MailMessage} {id : JsString} {ids : List JsString}
  {a b c : PipelineReport}

theorem Next.sameEnds (h : Next known id a b) (hsame : SameEnds b c) : Next known id a c := by
  obtain ⟨how, hfinished, hshown⟩ := h.finished
  refine ⟨hsame.processed.trans h.processed, hsame.failure.trans h.failure, ⟨how, ?_, ?_⟩, ?_⟩
  · rw [hsame.finished, hfinished]
  · rw [hsame.rows]
    exact hshown
  · rw [hsame.rows]
    exact h.rows

theorem through_nil : Through known [] a a :=
  ⟨⟨[], by simp⟩, fun _ h => h⟩

theorem Next.through (h : Next known id a b) (hk : known ⊆ known') (hrest : Through known' ids b c) :
    Through known' (id :: ids) a c := by
  obtain ⟨how, hfinished, hshown⟩ := h.finished
  obtain ⟨ends, hends, hbegins, hprocessed, hall, hshows⟩ := hrest.finished
  refine ⟨⟨(id, how) :: ends, ?_, ?_, ?_, ?_, ?_⟩, fun _ hr => hrest.rows (h.rows hr)⟩
  · rw [hends, hfinished, List.append_assoc]
    rfl
  · exact List.cons_prefix_cons.2 ⟨rfl, hbegins⟩
  · rw [hprocessed, h.processed, List.length_cons]
    omega
  · intro hnone
    simp [hall hnone]
  · intro other how' hother
    rcases List.mem_cons.1 hother with heq | hmem
    · obtain ⟨rfl, rfl⟩ := Prod.mk.inj heq
      exact hshown.mono fun _ hr => hr.mono hrest.rows hk
    · exact hshows other how' hmem

end PipelineReport

section Discipline

variable {σ ω : Type} {messages : σ → MessageTable}
  {T : ProcessId → Mode ω × σ → Mode ω × σ → Prop} {p : ProcessId} {m : Mode ω}

/-- A job may read whatever it likes, and come to know committed rows. -/
def Reads (messages : σ → MessageTable) (T : ProcessId → Mode ω × σ → Mode ω × σ → Prop)
    (p : ProcessId) : Prop :=
  ∀ (m : Mode ω) (s : σ) (known : List MailMessage),
    (∀ row ∈ known, row ∈ m.known ∨ row ∈ messages s) → T p (m, s) (⟨known, m.work⟩, s)

theorem Reads.still (h : Reads messages T p) (m : Mode ω) (s : σ) : T p (m, s) (m, s) :=
  h m s m.known fun _ hrow => .inl hrow

theorem obeys_raise {α : Type} {Q : Mode ω → α → Prop} :
    Prog.Obeys T p Q (raise : MailProg σ α) m := by
  intro e s b s' h
  cases h

theorem obeys_gmail {α : Type} {Q : Mode ω → α → Prop} {read : Env → α}
    (hreads : Reads messages T p) (hQ : ∀ e, Q m (read e)) :
    Prog.Obeys T p Q (gmail read : MailProg σ α) m :=
  Prog.obeys_ask (hreads.still m) fun e _ => hQ e

theorem obeys_query {α : Type} {Q : Mode ω → α → Prop} {read : σ → α}
    (hreads : Reads messages T p) (hQ : ∀ s, Q m (read s)) :
    Prog.Obeys T p Q (query read : MailProg σ α) m :=
  Prog.obeys_ask (hreads.still m) fun _ s => hQ s

theorem obeys_gmailWhen {α : Type} (hreads : Reads messages T p) (condition : Bool)
    (otherwise : α) (read : Env → α) :
    Prog.Obeys T p (fun m' _ => m' = m) (gmailWhen condition otherwise read : MailProg σ α) m := by
  unfold gmailWhen
  split
  · exact obeys_gmail hreads fun _ => rfl
  · exact Prog.obeys_pure rfl

/-- A row that a query goes by is the transaction's own, or known to be committed. -/
theorem obeys_seen {α : Type} (hreads : Reads messages T p) (own : List MailMessage)
    {read : σ → α} {found : α → Prop} {R : α → MailMessage → Prop}
    (hread : ∀ s, found (read s) → ∃ row ∈ visible messages own s, R (read s) row) :
    Prog.Obeys T p (fun m' a => m.Kept m' ∧ (found a → ∃ row, Has own m'.known row ∧ R a row))
      (query read : MailProg σ α) m := by
  intro e s a s' hact
  cases hact
  by_cases hfound : found (read s)
  · obtain ⟨row, hrow, hR⟩ := hread s hfound
    rcases List.mem_append.1 hrow with hrow | hrow
    · refine ⟨⟨row :: m.known, m.work⟩, hreads m s _ ?_, ⟨rfl, List.subset_cons_self _ _⟩,
        fun _ => ⟨row, .inr List.mem_cons_self, hR⟩⟩
      intro other hother
      rcases List.mem_cons.1 hother with rfl | h
      · exact .inr hrow
      · exact .inl h
    · exact ⟨m, hreads.still m s, Mode.Kept.refl m, fun _ => ⟨row, .inl hrow, hR⟩⟩
  · exact ⟨m, hreads.still m s, Mode.Kept.refl m, fun h => absurd h hfound⟩

theorem obeys_messageByProviderId (hreads : Reads messages T p) (own : List MailMessage)
    (id : JsString) :
    Prog.Obeys T p (fun m' found => m.Kept m' ∧ (found.isSome = true →
        ∃ row, Has own m'.known row ∧ row.providerMessageId = id))
      (query fun s => messageByProviderId (visible messages own s) id : MailProg σ _) m := by
  refine obeys_seen hreads own fun s hfound => ?_
  obtain ⟨row, hrow⟩ := Option.isSome_iff_exists.1 hfound
  exact ⟨row, List.mem_of_find?_eq_some hrow, by simpa using List.find?_some hrow⟩

theorem obeys_messageByRfcId (hreads : Reads messages T p) (own : List MailMessage)
    (rfcMessageId : Option JsString) :
    Prog.Obeys T p (fun m' found => m.Kept m' ∧ (found.isSome = true →
        ∃ row, Has own m'.known row ∧
          found = some row ∧ rfcMessageId.isSome ∧ row.rfcMessageId = rfcMessageId))
      (query fun s => rfcMessageId.bind (messageByRfcId (visible messages own s)) : MailProg σ _)
      m := by
  refine obeys_seen hreads own fun s hfound => ?_
  obtain ⟨row, hrow⟩ := Option.isSome_iff_exists.1 hfound
  obtain ⟨id, hid, hfind⟩ := Option.bind_eq_some_iff.1 hrow
  refine ⟨row, List.mem_of_find?_eq_some hfind, hrow, by rw [hid]; rfl, ?_⟩
  rw [hid]
  simpa using List.find?_some hfind

theorem obeys_hasRecordedDraft (hreads : Reads messages T p) (own : List MailMessage)
    (id : JsString) (condition : Bool) :
    Prog.Obeys T p (fun m' found => m.Kept m' ∧ (found = true →
        ∃ row, Has own m'.known row ∧ row.providerMessageId = id ∧ draftLabel ∈ row.labelIds))
      (queryWhen condition fun s => hasRecordedDraft (visible messages own s) id :
        MailProg σ Bool) m := by
  unfold queryWhen
  split
  · refine obeys_seen hreads own fun s hfound => ?_
    obtain ⟨row, hrow, hdraft⟩ := List.any_eq_true.1 hfound
    simp only [Bool.and_eq_true, decide_eq_true_eq] at hdraft
    exact ⟨row, hrow, hdraft⟩
  · exact Prog.obeys_pure ⟨Mode.Kept.refl _, nofun⟩

/-- What is known of a message that was recorded: a duplicate has a row with its header, and
any other has a row of its own. -/
def RecordResult.Stored (own : List MailMessage) (m : MailMessage) (known : List MailMessage) :
    RecordResult → Prop
  | .proofReadFailed _ => True
  | .recorded stored =>
    if stored.outcome = .duplicateRfcId then ∃ row, Has own known row ∧ row.Repeats m
    else (stored.inserted = true ∧ stored.message.providerMessageId = m.providerMessageId) ∨
      ∃ row, Has own known row ∧ row.providerMessageId = m.providerMessageId

theorem recordMessage_obeys (hreads : Reads messages T p) (own : List MailMessage)
    (row : MailMessage) (date : Option JsString) :
    Prog.Obeys T p (fun m' result => m.Kept m' ∧ result.Stored own row m'.known)
      (recordMessage messages own row date) m := by
  unfold recordMessage
  apply Prog.obeys_bind (obeys_query hreads (Q := fun m' _ => m' = m) fun _ => rfl)
  rintro m₁ taken rfl
  split
  · exact Prog.obeys_pure ⟨Mode.Kept.refl _, .inl ⟨rfl, rfl⟩⟩
  apply Prog.obeys_bind (obeys_messageByProviderId hreads own row.providerMessageId)
  rintro m₂ found ⟨hkept, hfound⟩
  cases found with
  | some replayed => exact Prog.obeys_pure ⟨hkept, .inr (hfound rfl)⟩
  | none =>
    apply Prog.obeys_bind (obeys_messageByRfcId hreads own row.rfcMessageId)
    rintro m₃ existing ⟨hkept₃, hexisting⟩
    cases existing with
    | none => exact obeys_raise
    | some existing =>
      obtain ⟨stored, hhas, hstored, hnamed, hrfc⟩ := hexisting rfl
      obtain rfl : existing = stored := Option.some.inj hstored
      apply Prog.obeys_bind (obeys_query hreads (Q := fun m' _ => m' = m₃) fun _ => rfl)
      rintro m₄ draft rfl
      apply Prog.obeys_bind (obeys_gmailWhen hreads _ _ _)
      rintro m₅ other rfl
      cases other with
      | failed detail => exact Prog.obeys_pure ⟨hkept.trans hkept₃, trivial⟩
      | ok other =>
        dsimp only
        split
        · next hproven =>
          simp only [Bool.and_eq_true, decide_eq_true_eq] at hproven
          obtain ⟨⟨⟨⟨-, hdirection⟩, hfrom⟩, hsubject⟩, -⟩ := hproven
          exact Prog.obeys_pure ⟨hkept.trans hkept₃,
            existing, hhas, hnamed, hrfc, hdirection, hfrom, hsubject⟩
        apply Prog.obeys_bind (obeys_query hreads (Q := fun m' _ => m' = m₅) fun _ => rfl)
        rintro m₆ taken' rfl
        split
        · exact Prog.obeys_pure ⟨hkept.trans hkept₃, .inl ⟨rfl, rfl⟩⟩
        apply Prog.obeys_bind (obeys_messageByProviderId hreads own row.providerMessageId)
        rintro m₇ again ⟨hkept', hagain⟩
        cases again with
        | some replayed =>
          exact Prog.obeys_pure ⟨(hkept.trans hkept₃).trans hkept', .inr (hagain rfl)⟩
        | none => exact obeys_raise

/-- Matching changes counters and may stop on the body. -/
theorem matchStored_obeys (hreads : Reads messages T p) (report : PipelineReport)
    (stored : RecordedMessage) :
    Prog.Obeys T p (fun m' step => m' = m ∧ ∀ after, step = .done after → report.SameEnds after)
      (matchStored report stored : MailProg σ Step) m := by
  have same : ∀ report' : PipelineReport, report.SameEnds report' → 
      Prog.Obeys T p (fun m' step => m' = m ∧ ∀ after, step = .done after → report.SameEnds after)
        (pure (.done report') : MailProg σ Step) m := by
    intro report' hsame
    refine Prog.obeys_pure ⟨rfl, ?_⟩
    rintro after ⟨⟩
    exact hsame
  have body : ∀ report' : PipelineReport, report.SameEnds report' →
      Prog.Obeys T p (fun m' step => m' = m ∧ ∀ after, step = .done after → report.SameEnds after)
        (do match ← gmail Env.body with
          | .failed detail => return .failed .body detail
          | .ok body => return .done (report'.fetch body) : MailProg σ Step) m := by
    intro report' hsame
    apply Prog.obeys_bind (obeys_gmail hreads (Q := fun m' _ => m' = m) fun _ => rfl)
    rintro m₁ read rfl
    cases read with
    | failed detail => exact Prog.obeys_pure ⟨rfl, nofun⟩
    | ok body => exact same _ ⟨hsame.processed, hsame.failure, hsame.finished, hsame.rows⟩
  unfold matchStored
  apply Prog.obeys_bind (obeys_gmail hreads (Q := fun m' _ => m' = m) fun _ => rfl)
  rintro m₁ candidates rfl
  split
  · exact same _ ⟨rfl, rfl, rfl, rfl⟩
  apply Prog.obeys_bind (obeys_gmailWhen hreads _ _ _)
  rintro m₂ fence rfl
  apply Prog.obeys_bind (obeys_gmail hreads (Q := fun m' _ => m' = m₂) fun _ => rfl)
  rintro m₃ frozen rfl
  split
  · exact same _ ⟨rfl, rfl, rfl, rfl⟩
  apply Prog.obeys_bind (obeys_gmail hreads (Q := fun m' _ => m' = m₃) fun _ => rfl)
  rintro m₄ ambiguous rfl
  dsimp only
  split
  · split
    · exact same _ ⟨rfl, rfl, rfl, rfl⟩
    · apply Prog.obeys_bind (obeys_gmail hreads (Q := fun m' _ => m' = m₄) fun _ => rfl)
      rintro m₅ target rfl
      split
      · exact same _ ⟨rfl, rfl, rfl, rfl⟩
      apply Prog.obeys_bind (obeys_gmail hreads (Q := fun m' _ => m' = m₅) fun _ => rfl)
      rintro m₆ meetingDraft rfl
      split
      · exact same _ ⟨rfl, rfl, rfl, rfl⟩
      · exact body _ ⟨rfl, rfl, rfl, rfl⟩
  · exact body _ ⟨rfl, rfl, rfl, rfl⟩

theorem record_rows_subset (report : PipelineReport) (m : MailMessage)
    (stored : RecordedMessage) : report.rows ⊆ (report.record m stored).rows := by
  intro row hrow
  simp only [PipelineReport.record]
  split
  · exact List.mem_append_left _ hrow
  · exact hrow

theorem processMessage_obeys (hreads : Reads messages T p) (report : PipelineReport)
    (id : JsString) :
    Prog.Obeys T p (fun m' step => m.Kept m' ∧
        ∀ after, step = .done after → report.Next m'.known id after)
      (processMessage messages report id) m := by
  have done : ∀ (m' : Mode ω) (after : PipelineReport), m.Kept m' → report.Next m'.known id after →
      Prog.Obeys T p (fun m' step => m.Kept m' ∧
          ∀ after, step = .done after → report.Next m'.known id after)
        (pure (.done after) : MailProg σ Step) m' := by
    intro m' after hkept hnext
    refine Prog.obeys_pure ⟨hkept, ?_⟩
    rintro after' ⟨⟩
    exact hnext
  unfold processMessage
  apply Prog.obeys_bind (obeys_gmail hreads (Q := fun m' _ => m' = m) fun _ => rfl)
  rintro m₁ read rfl
  cases read with
  | failed detail => exact Prog.obeys_pure ⟨Mode.Kept.refl _, nofun⟩
  | ok found =>
    cases found with
    | none =>
      exact done _ _ (Mode.Kept.refl _)
        ⟨rfl, rfl, ⟨⟨none, .vanished⟩, rfl, rfl⟩, fun _ h => h⟩
    | some metadata =>
      obtain ⟨metadata, rfl⟩ := metadata
      apply Prog.obeys_bind (obeys_hasRecordedDraft hreads report.rows metadata.id _)
      rintro m₂ legacyDraft ⟨hkept₂, hlegacy⟩
      dsimp only
      split
      · next hdraft =>
        refine done _ _ hkept₂
          ⟨rfl, rfl, ⟨⟨some metadata, .draft⟩, rfl, rfl, ?_⟩, fun _ h => h⟩
        rcases Bool.or_eq_true_iff.1 hdraft with hlabel | hrow
        · exact .inl (of_decide_eq_true hlabel)
        · exact .inr (hlegacy hrow)
      unfold importMessage
      apply Prog.obeys_bind (recordMessage_obeys hreads report.rows (normalizeMetadata metadata)
        metadata.date)
      rintro m₃ result ⟨hkept₃, hstored⟩
      have hkept := hkept₂.trans hkept₃
      cases result with
      | proofReadFailed detail => exact Prog.obeys_pure ⟨hkept, nofun⟩
      | recorded stored =>
        have hrows := record_rows_subset report (normalizeMetadata metadata) stored
        dsimp only
        split
        · next hduplicate =>
          obtain ⟨row, hhas, hrepeats⟩ := (if_pos hduplicate).mp hstored
          exact done _ _ hkept ⟨rfl, rfl, ⟨⟨some metadata, .duplicate⟩, rfl, rfl,
            row, hhas.mono hrows (List.Subset.refl _), hrepeats⟩, hrows⟩
        · next hne =>
          have hnext : report.Next m₃.known metadata.id
              ((report.record (normalizeMetadata metadata) stored).finish metadata.id
                ⟨some metadata, .recorded⟩) := by
            refine ⟨rfl, rfl, ⟨⟨some metadata, .recorded⟩, rfl, rfl, ?_⟩, hrows⟩
            rcases (if_neg hne).mp hstored with ⟨hinserted, hid⟩ | ⟨row, hhas, hid⟩
            · refine ⟨stored.message, .inl ?_, hid⟩
              simp only [PipelineReport.finish, PipelineReport.record, hinserted, if_true]
              exact List.mem_append_right _ (List.mem_singleton.2 rfl)
            · exact ⟨row, hhas.mono hrows (List.Subset.refl _), hid⟩
          refine Prog.obeys_mono ?_ (matchStored_obeys hreads _ stored)
          rintro m' step ⟨rfl, hsame⟩
          exact ⟨hkept, fun after hafter => hnext.sameEnds (hsame after hafter)⟩

/-- A batch finishes a prefix of its ids, and all of them where no read fails. -/
theorem processMessageIds_obeys (hreads : Reads messages T p) (ids : List JsString)
    (report : PipelineReport) :
    Prog.Obeys T p (fun m' after => m.Kept m' ∧ report.Through m'.known ids after)
      (processMessageIds messages ids report) m := by
  induction ids generalizing report m with
  | nil => exact Prog.obeys_pure ⟨Mode.Kept.refl _, PipelineReport.through_nil⟩
  | cons id ids ih =>
    unfold processMessageIds
    apply Prog.obeys_bind (processMessage_obeys hreads report id)
    rintro m₁ step ⟨hkept, hnext⟩
    cases step with
    | failed read detail =>
      refine Prog.obeys_pure ⟨hkept, ⟨⟨[], ?_⟩, fun _ h => h⟩⟩
      simp
    | done after =>
      refine Prog.obeys_mono ?_ (ih after)
      rintro m₂ last ⟨hkept', hthrough⟩
      exact ⟨hkept.trans hkept', (hnext after rfl).through hkept'.2 hthrough⟩

end Discipline

end FoundingSales.Mail
