import FoundingSales.Library.Feeds
import FoundingSales.Library.Processes
import FoundingSales.Mail.Coalesce

/-!
Gmail as the mail jobs meet it: history ids, the history and the messages of one account as
they change, and what each call may answer.
-/

namespace FoundingSales.Mail

open Tables Jobs Outbound

/-! ## History ids -/

/-- `BigInt(id)` -/
def HistoryId.value (id : HistoryId) : Nat := (Decimals.read id.1).getD 0

/-- Earlier, the same or later. -/
def compareHistoryIds (left right : HistoryId) : Ordering := compare left.value right.value

/-- `left` when they are the same id. -/
def laterHistoryId (left right : HistoryId) : HistoryId :=
  if compareHistoryIds right left = .gt then right else left

@[simp] theorem value_laterHistoryId (left right : HistoryId) :
    (laterHistoryId left right).value = max left.value right.value := by
  unfold laterHistoryId compareHistoryIds
  split
  · next h =>
    have := Nat.compare_eq_gt.1 h
    omega
  · next h =>
    have : ¬ left.value < right.value := fun hlt => h (Nat.compare_eq_gt.2 hlt)
    omega

/-! ## The account -/

inductive ChangeKind
  | messageAdded | labelAdded | labelRemoved | messageDeleted
  deriving DecidableEq

structure HistoryChange where
  messageId : JsString
  kind : ChangeKind
  deriving DecidableEq

structure HistoryRecord where
  id : HistoryId
  changes : List HistoryChange
  deriving DecidableEq

/-- The messages of a record other than deletions. -/
def HistoryRecord.messageIds (record : HistoryRecord) : List JsString :=
  (record.changes.filter fun change => change.kind ≠ .messageDeleted).map HistoryChange.messageId

abbrev HistoryRecord.number (record : HistoryRecord) : Nat := record.id.value

/-- The history of a mailbox, oldest first, and its current history id. -/
structure Gmail where
  history : List HistoryRecord
  historyId : HistoryId
  ascending : history.Pairwise fun a b => a.number < b.number
  current : ∀ record ∈ history, record.number ≤ historyId.value

inductive GmailEvent
  | changed (record : HistoryRecord) (historyId : HistoryId)
  | advanced (historyId : HistoryId)

/-- A change takes an id later than the current one. -/
def Gmail.changed (gmail : Gmail) (record : HistoryRecord) (historyId : HistoryId)
    (hlater : gmail.historyId.value < record.number) (hid : record.number ≤ historyId.value) :
    Gmail where
  history := gmail.history ++ [record]
  historyId := historyId
  ascending := by
    rw [List.pairwise_append]
    refine ⟨gmail.ascending, List.pairwise_singleton _ _, ?_⟩
    intro a ha b hb
    obtain rfl := List.mem_singleton.1 hb
    exact (gmail.current a ha).trans_lt hlater
  current := by
    intro other hother
    rcases List.mem_append.1 hother with h | h
    · have := gmail.current other h
      omega
    · rw [List.mem_singleton.1 h]
      exact hid

def Gmail.advanced (gmail : Gmail) (historyId : HistoryId)
    (hid : gmail.historyId.value ≤ historyId.value) : Gmail where
  history := gmail.history
  historyId := historyId
  ascending := gmail.ascending
  current := fun record hrecord => (gmail.current record hrecord).trans hid

/-- What cannot happen to an account does not. -/
def Gmail.after (gmail : Gmail) : GmailEvent → Gmail
  | .changed record historyId =>
    if h : gmail.historyId.value < record.number ∧ record.number ≤ historyId.value then
      gmail.changed record historyId h.1 h.2
    else gmail
  | .advanced historyId =>
    if h : gmail.historyId.value ≤ historyId.value then gmail.advanced historyId h else gmail

/-! ## Answers -/

inductive Classification
  | transient | authentication | reputation | unknown
  deriving DecidableEq

inductive RefusalReason
  | grantRevoked | rateLimited
  deriving DecidableEq

structure Refusal where
  reason : RefusalReason
  classification : Option Classification
  deriving DecidableEq

/-- `outcome.classification ?? …` -/
def Refusal.class (refusal : Refusal) : Classification :=
  refusal.classification.getD
    (if refusal.reason = .grantRevoked then .authentication else .transient)

structure HistoryPage where
  records : List HistoryRecord
  /-- `nextPageToken !== null` -/
  more : Bool
  historyId : HistoryId
  deriving DecidableEq

inductive HistoryOutcome
  | page (page : HistoryPage)
  | historyExpired
  | refused (refusal : Refusal)
  | threw
  deriving DecidableEq

/-- A page of the listing from `start`, of which `listed` came on earlier pages: the records
in order, and on the last page a history id the mailbox has reached, up to which nothing is
missing. That the last page's id is not before `start` is assumed of Gmail: its history ids do
not go back, and a cursor is an id it gave out before. -/
structure HistoryPage.Follows (gmail : Gmail) (start : HistoryId) (listed : List HistoryRecord)
    (page : HistoryPage) : Prop where
  inOrder : listed ++ page.records
    <+: Feeds.after HistoryRecord.number gmail.history start.value
  reached : page.more = false →
    start.value ≤ page.historyId.value ∧ page.historyId.value ≤ gmail.historyId.value
  complete : page.more = false →
    Feeds.Covered HistoryRecord.number gmail.history (· ∈ listed ++ page.records)
      start.value page.historyId.value

def HistoryOutcome.Follows (gmail : Gmail) (start : HistoryId) (listed : List HistoryRecord) :
    HistoryOutcome → Prop
  | .page answer => answer.Follows gmail start listed
  | _ => True

/-- The rest of the history in one page. -/
def restOfHistory (gmail : Gmail) (start : HistoryId) (listed : List HistoryRecord) :
    { outcome : HistoryOutcome // outcome.Follows gmail start listed } :=
  if h : start.value ≤ gmail.historyId.value ∧
      listed <+: Feeds.after HistoryRecord.number gmail.history start.value then
    let rest := (Feeds.after HistoryRecord.number gmail.history start.value).drop listed.length
    have hall : listed ++ rest = Feeds.after HistoryRecord.number gmail.history start.value := by
      obtain ⟨more, hmore⟩ := h.2
      show listed ++ List.drop _ _ = _
      rw [← hmore, List.drop_left]
    ⟨.page ⟨rest, false, gmail.historyId⟩, by
      refine ⟨?_, fun _ => ⟨h.1, le_rfl⟩, fun _ record hrecord hbeyond _ => ?_⟩
      · rw [hall]
      · show record ∈ listed ++ rest
        rw [hall]
        exact Feeds.mem_after.2 ⟨hrecord, hbeyond⟩⟩
  else ⟨.threw, trivial⟩

/-- One message as a metadata read returns it, the headers normalized. -/
structure MessageMetadata where
  id : JsString
  internalDate : Instant
  labelIds : List JsString
  rfcMessageId : Option JsString
  headerFrom : Option JsString
  subject : Option JsString
  /-- The `Date` header, trimmed. -/
  date : Option JsString
  deriving DecidableEq

inductive GmailRead (α : Type)
  | ok (value : α)
  | failed (detail : JsString)
  deriving DecidableEq

inductive AccessOutcome
  | granted | grantRevoked | providerIncident
  deriving DecidableEq

/-- What the match of a recorded message finds in the other tables. -/
structure Matching where
  candidates : Bool
  fence : Bool
  frozen : Bool
  ambiguous : Bool
  target : Bool
  meetingDraft : Bool
  deriving DecidableEq

/-- What a statement learns from elsewhere: Gmail, the clock, the tables of other parts. -/
structure Env where
  /-- `now()` -/
  now : Instant
  access : AccessOutcome
  history : ∀ (gmail : Gmail) (start : HistoryId) (listed : List HistoryRecord),
    { outcome : HistoryOutcome // outcome.Follows gmail start listed }
  metadata : ∀ id : JsString, GmailRead (Option { metadata : MessageMetadata // metadata.id = id })
  /-- Whether the message still has a body to read. -/
  body : GmailRead Bool
  matching : Matching
  /-- `oldestUnresolvedAt` -/
  recoveryFloor : Option Instant

end FoundingSales.Mail
