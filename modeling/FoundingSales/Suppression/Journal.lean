import FoundingSales.Text
import FoundingSales.Rules.SuppressionCanonicalization

/-!
The vocabulary of suppressions: events, the journal's records, and the ids both are known
by.
-/

namespace FoundingSales.Suppression

open Rules

inductive SuppressionScope
  | firm | handle
  deriving DecidableEq

def SuppressionScope.text : SuppressionScope → JsString
  | firm => js "firm"
  | handle => js "handle"

/-- Which channel an event stops. -/
inductive SuppressionChannel
  | phone | email | all
  deriving DecidableEq

def SuppressionChannel.text : SuppressionChannel → JsString
  | phone => js "phone"
  | email => js "email"
  | all => js "all"

inductive SuppressionSource
  | prospectOptOut | prospectDoNotCall | salespersonManual | imported | deletionTombstone
  | mistakenEntryCorrection | adminSupersession
  deriving DecidableEq

namespace SuppressionSource

def text : SuppressionSource → JsString
  | prospectOptOut => js "prospect_opt_out"
  | prospectDoNotCall => js "prospect_do_not_call"
  | salespersonManual => js "salesperson_manual"
  | imported => js "import"
  | deletionTombstone => js "deletion_tombstone"
  | mistakenEntryCorrection => js "mistaken_entry_correction"
  | adminSupersession => js "admin_supersession"

/-- The sources that are terminal the instant they commit. -/
def terminal : SuppressionSource → Bool
  | prospectOptOut | prospectDoNotCall | imported | deletionTombstone => true
  | salespersonManual | mistakenEntryCorrection | adminSupersession => false

/-- The sources that lift another event. -/
def supersession : SuppressionSource → Bool
  | mistakenEntryCorrection | adminSupersession => true
  | prospectOptOut | prospectDoNotCall | salespersonManual | imported | deletionTombstone => false

end SuppressionSource

inductive SupersessionReason
  | mistakenEntry | correction | documentedReconsent
  deriving DecidableEq

/-- A row of `suppression_events`. -/
structure SuppressionEvent where
  eventId : JsString
  scope : SuppressionScope
  canonicalKey : JsString
  canonicalizerVersion : JsString
  source : SuppressionSource
  actorUserId : Option Uuid
  commandId : Option JsString
  recordedAt : Instant
  supersedesEventId : Option JsString
  supersessionReason : Option SupersessionReason
  channel : SuppressionChannel
  deriving DecidableEq

/-- Earliest first, by the recorded instant and then the id. -/
def recordedBefore (left right : SuppressionEvent) : Bool :=
  left.recordedAt < right.recordedAt ||
    (left.recordedAt = right.recordedAt && textLe left.eventId right.eventId)

theorem recordedBefore_iff {left right : SuppressionEvent} :
    recordedBefore left right = true ↔ left.recordedAt < right.recordedAt ∨
      left.recordedAt = right.recordedAt ∧ textLe left.eventId right.eventId = true := by
  simp only [recordedBefore, Bool.or_eq_true, Bool.and_eq_true, decide_eq_true_eq]

theorem recordedBefore_total (left right : SuppressionEvent) :
    recordedBefore left right = true ∨ recordedBefore right left = true := by
  rw [recordedBefore_iff, recordedBefore_iff]
  have htext := textLe_total left.eventId right.eventId
  rw [Bool.or_eq_true] at htext
  rcases lt_trichotomy left.recordedAt right.recordedAt with h | h | h
  · exact .inl (.inl h)
  · rcases htext with ht | ht
    · exact .inl (.inr ⟨h, ht⟩)
    · exact .inr (.inr ⟨h.symm, ht⟩)
  · exact .inr (.inl h)

theorem recordedBefore_trans {a b c : SuppressionEvent} (hab : recordedBefore a b = true)
    (hbc : recordedBefore b c = true) : recordedBefore a c = true := by
  rw [recordedBefore_iff] at *
  rcases hab with hab | ⟨hab, htext⟩ <;> rcases hbc with hbc | ⟨hbc, htext'⟩
  · exact .inl (lt_trans hab hbc)
  · exact .inl (hbc ▸ hab)
  · exact .inl (hab ▸ hbc)
  · exact .inr ⟨hab.trans hbc, textLe_trans htext htext'⟩

/-- Of finitely many events one was recorded first. -/
theorem exists_earliest {events : List SuppressionEvent} (h : events ≠ []) :
    ∃ first ∈ events, ∀ event ∈ events, recordedBefore first event = true := by
  induction events with
  | nil => exact absurd rfl h
  | cons head tail ih =>
    by_cases htail : tail = []
    · subst htail
      refine ⟨head, List.mem_cons_self .., fun event hevent => ?_⟩
      rw [List.mem_singleton.1 hevent]
      exact (or_self_iff).1 (recordedBefore_total head head)
    · obtain ⟨first, hfirst, hleast⟩ := ih htail
      rcases recordedBefore_total head first with hhead | hhead
      · refine ⟨head, List.mem_cons_self .., fun event hevent => ?_⟩
        rcases List.mem_cons.1 hevent with rfl | hin
        · exact (or_self_iff).1 (recordedBefore_total event event)
        · exact recordedBefore_trans hhead (hleast event hin)
      · refine ⟨first, List.mem_cons_of_mem _ hfirst, fun event hevent => ?_⟩
        rcases List.mem_cons.1 hevent with rfl | hin
        · exact hhead
        · exact hleast event hin

/-- An event as the journal holds it. -/
structure SuppressionJournalRecord extends SuppressionEvent where
  workspaceId : Uuid
  /-- The firm of the review hold. An object written before the field says nothing. -/
  firmId : Option (Option Uuid)
  /-- The release marker. -/
  committed : Bool
  deriving DecidableEq

/-- Whether a channel can sit on a key. -/
def channelFitsKey (scope : SuppressionScope) (canonicalKey : JsString)
    (channel : SuppressionChannel) : Bool :=
  scope = .firm || channel = .all || (channel = .email) == (atSign ∈ canonicalKey : Bool)

/-! ## Ids -/

structure DeterministicEventIdInput where
  workspaceId : Uuid
  scope : SuppressionScope
  canonicalKey : JsString
  source : SuppressionSource
  commandId : Option JsString
  supersedesEventId : Option JsString
  channel : SuppressionChannel

/-- What the digest covers. A channel is hashed only when it is not `all`. -/
def DeterministicEventIdInput.parts (input : DeterministicEventIdInput) : List JsString :=
  [input.workspaceId, input.scope.text, input.canonicalKey, input.source.text,
    input.commandId.getD [], input.supersedesEventId.getD []] ++
    if input.channel = .all then [] else [input.channel.text]

/-- The deterministic event id; the parts are joined by a zero code unit. -/
def deterministicEventId (P : Platform) (input : DeterministicEventIdInput) : JsString :=
  js "sup_" ++ P.sha256 (List.intercalate [0] input.parts)

/-- The id of a merge's copy of an event on a survivor. -/
def mergeCopyId (eventId survivorFirmId : JsString) : JsString :=
  js "mergecopy:" ++ (eventId ++ atSign :: survivorFirmId)

/-- A merge copy's id before the last repair: any survivor. -/
def legacyMergeCopyId (eventId : JsString) : JsString := js "merge:" ++ eventId

/-- Whether an event id is a merge's copy, in either form. -/
def isMergeCopyId (eventId : JsString) : Bool :=
  (js "mergecopy:").isPrefixOf eventId || (js "merge:").isPrefixOf eventId

/-! ## Who may take an entry back -/

inductive SuppressionRefusalCode
  | invalidInput | firmUnknown | notAssigned | handleUncanonical | suppressionUnknown
  | canonicalizerUnsupported | notYourEvent | notSalespersonOriginated | windowExpired
  | alreadyFinalized | alreadySuperseded | adminOnly
  deriving DecidableEq

/-- Why this user may not correct the event now. The deadline is exclusive. -/
def mayCorrectSuppression (event : SuppressionEvent) (actorUserId : Uuid) (now : Instant) :
    Option SuppressionRefusalCode :=
  if event.source ≠ .salespersonManual then some .notSalespersonOriginated
  else if event.actorUserId ≠ some actorUserId then some .notYourEvent
  else if now - event.recordedAt < manualSuppressionCorrectionMilliseconds then none
  else some .windowExpired

theorem mayCorrect_eq_none {event : SuppressionEvent} {actorUserId : Uuid} {now : Instant} :
    mayCorrectSuppression event actorUserId now = none ↔
      event.source = .salespersonManual ∧ event.actorUserId = some actorUserId ∧
        now - event.recordedAt < manualSuppressionCorrectionMilliseconds := by
  unfold mayCorrectSuppression
  split_ifs with hsource hactor hwindow <;> simp_all

end FoundingSales.Suppression
