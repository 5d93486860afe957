import FoundingSales.Text
import FoundingSales.Library.Runs
import FoundingSales.Library.Tables

/-!
Snoozes of the tasks on a day's list. A snooze is matched by the task's key and outlives the
day's row; it is in force until its return instant, and the index of the table lets one
stand until it is cancelled.

Proved here:
* `upsert_listed`, `buildFrom_listed`: what a build or a refresh makes of a task.
* `snooze_accepted_iff`: a snooze the rules let through is accepted unless one stands.
* `snoozed_again_iff`: a run is sound exactly when no such snooze meets one that stands.
-/

namespace FoundingSales.Today

open Tables

/-! ## Rows -/

inductive TodayItemKind
  | reply | callback | emailDue | callDue | newFirm | task
  deriving DecidableEq

inductive TodaySourceKind
  | callback | firm | replyMessage | stepExecution | callTask | meetingTask | meetingReview
  deriving DecidableEq

inductive TodayItemStatus
  | open_ | snoozed | completed | cancelled
  deriving DecidableEq

inductive BlockedActionKind
  | emailSend | callTask
  deriving DecidableEq

/-- The unique key of a row of `today_items`, which stands for its id. -/
structure ItemId where
  snapshotDate : BusinessDate
  firmId : Uuid
  itemKey : JsString
  deriving DecidableEq

structure TodayItem where
  id : ItemId
  contactId : Option Uuid
  kind : TodayItemKind
  dueAt : Instant
  status : TodayItemStatus
  automated : Bool
  sourceKind : TodaySourceKind
  sourceId : Option Uuid
  snoozeUntil : Option Instant
  deriving DecidableEq

/-- A row of `today_snoozes`; its id is its place in the table. -/
structure TodaySnooze where
  firmId : Uuid
  contactId : Option Uuid
  itemKey : JsString
  reason : JsString
  returnAt : Instant
  createdByUserId : Uuid
  createdAt : Instant
  cancelledAt : Option Instant
  deriving DecidableEq

inductive PauseScope
  | enrollment (id : Uuid)
  | firm (id : Uuid)
  deriving DecidableEq

/-- A hold that a pause opened; its id is its place in the table. -/
structure PauseHold where
  scope : PauseScope
  blockedActionKind : BlockedActionKind
  released : Bool
  deriving DecidableEq

structure State where
  now : Instant
  items : Table TodayItem.id
  snoozes : List TodaySnooze
  holds : List PauseHold

def emptyState (now : Instant) : State := ⟨now, Table.empty, [], []⟩

/-! ## Who may change a firm -/

inductive Actor
  | system
  | user (userId : Uuid) (admin : Bool)
  deriving DecidableEq

structure FirmRow where
  merged : Bool
  assignedUserId : Option Uuid
  deriving DecidableEq

inductive FirmRefusal
  | firmMerged | notAssigned
  deriving DecidableEq

def decideFirmMutation (actor : Actor) (firm : FirmRow) : Option FirmRefusal :=
  if firm.merged then some .firmMerged
  else
    match actor with
    | .system => none
    | .user userId admin =>
      if admin then none
      else if firm.assignedUserId ≠ some userId then some .notAssigned
      else none

/-- What the command reads of other tables. -/
structure World where
  firm : Uuid → Option FirmRow
  enrollmentOf : Uuid → Option Uuid

/-! ## Snoozing -/

inductive TodayRefusalCode
  | invalidInput | itemUnknown | notAssigned | itemNotOpen | snoozeReturnRequired
  | snoozeReturnNotFuture | snoozeUnknown | snoozeAlreadyCancelled
  deriving DecidableEq

inductive SnoozeOutcome
  | refused (reason : TodayRefusalCode)
  | snoozed (snooze : TodaySnooze)
  | held (holdId : Nat) (blockedActionKind : BlockedActionKind) (scope : PauseScope)
  /-- `today_snoozes_one_active` is violated: the statement raises, the transaction ends. -/
  | uniqueViolation
  deriving DecidableEq

/-- `returnAt` may be absent, and its text may be no instant. -/
structure SnoozeTodayItemInput where
  itemId : ItemId
  reason : Option JsString
  returnAt : Option (Option Instant)
  deriving DecidableEq

def defaultSnoozeReason : JsString := js "snoozed"
def snoozeReasonMax : Nat := 300

def blockedKindOfItem : TodayItemKind → Option BlockedActionKind
  | .reply => none
  | .callback => none
  | .emailDue => some .emailSend
  | .callDue => some .callTask
  | .newFirm => none
  | .task => none

def reasonOf (input : SnoozeTodayItemInput) : JsString :=
  let trimmed := trim (input.reason.getD [])
  if trimmed = [] then defaultSnoozeReason else trimmed

def pauseScopeOf (world : World) (item : TodayItem) : PauseScope :=
  match item.sourceKind, item.sourceId with
  | .stepExecution, some sourceId =>
    match world.enrollmentOf sourceId with
    | some enrollmentId => .enrollment enrollmentId
    | none => .firm item.id.firmId
  | _, _ => .firm item.id.firmId

/-- A snooze of the task that nobody cancelled. -/
def TodaySnooze.stands (firmId : Uuid) (itemKey : JsString) (snooze : TodaySnooze) : Bool :=
  snooze.firmId = firmId && snooze.itemKey = itemKey && snooze.cancelledAt.isNone

/-- The insert: the index admits one row of a task that is not cancelled. -/
def insertSnooze (snoozes : List TodaySnooze) (row : TodaySnooze) : Option (List TodaySnooze) :=
  if row.cancelledAt.isNone && snoozes.any (TodaySnooze.stands row.firmId row.itemKey) then none
  else some (snoozes ++ [row])

def pauseTodayItem (s : State) (world : World) (item : TodayItem) : SnoozeOutcome × State :=
  match blockedKindOfItem item.kind with
  | none => (.refused .invalidInput, s)
  | some blocked =>
    let scope := pauseScopeOf world item
    let paused (hold : PauseHold) : Bool :=
      !hold.released && hold.scope = scope && hold.blockedActionKind = blocked
    match s.holds.findIdx? paused with
    | some holdId => (.held holdId blocked scope, s)
    | none =>
      (.held s.holds.length blocked scope, { s with holds := s.holds ++ [⟨scope, blocked, false⟩] })

/-- `UPDATE today_items … WHERE … status = 'open'` of the snoozed row. -/
def sleepItem (items : Table TodayItem.id) (itemId : ItemId) (returnAt : Instant) :
    Table TodayItem.id :=
  items.update (fun item => item.id = itemId && item.status = .open_)
    (fun item => { item with status := .snoozed, snoozeUntil := some returnAt }) fun _ => rfl

def snoozeTodayItem (s : State) (actor : Actor) (world : World) (input : SnoozeTodayItemInput) :
    SnoozeOutcome × State :=
  match actor with
  | .system => (.refused .invalidInput, s)
  | .user userId _ =>
    let reason := reasonOf input
    if reason.length > snoozeReasonMax then (.refused .invalidInput, s)
    else if input.returnAt = some none then (.refused .invalidInput, s)
    else
      match s.items.find? input.itemId with
      | none => (.refused .itemUnknown, s)
      | some item =>
        match world.firm item.id.firmId with
        | none => (.refused .itemUnknown, s)
        | some firm =>
          match decideFirmMutation actor firm with
          | some .notAssigned => (.refused .notAssigned, s)
          | some .firmMerged => (.refused .itemUnknown, s)
          | none =>
            if item.status ≠ .open_ then (.refused .itemNotOpen, s)
            else if item.automated then pauseTodayItem s world item
            else
              match input.returnAt.join with
              | none => (.refused .snoozeReturnRequired, s)
              | some returnAt =>
                if returnAt ≤ s.now then (.refused .snoozeReturnNotFuture, s)
                else
                  let row : TodaySnooze := ⟨item.id.firmId, item.contactId, item.id.itemKey, reason,
                    returnAt, userId, s.now, none⟩
                  match insertSnooze s.snoozes row with
                  | none => (.uniqueViolation, s)
                  | some snoozes =>
                    (.snoozed row,
                      { s with snoozes := snoozes, items := sleepItem s.items item.id returnAt })

inductive CancelOutcome
  | refused (reason : TodayRefusalCode)
  | cancelled (snooze : TodaySnooze)
  deriving DecidableEq

/-- The rows of every date that the cancelled snooze put to sleep are open again. -/
def wakeItems (items : Table TodayItem.id) (firmId : Uuid) (itemKey : JsString) :
    Table TodayItem.id :=
  items.update
    (fun item => item.id.firmId = firmId && item.id.itemKey = itemKey && item.status = .snoozed)
    (fun item => { item with status := .open_, snoozeUntil := none }) fun _ => rfl

def cancelTodaySnooze (s : State) (actor : Actor) (snoozeId : Nat) : CancelOutcome × State :=
  match actor with
  | .system => (.refused .invalidInput, s)
  | .user _ _ =>
    match s.snoozes[snoozeId]? with
    | none => (.refused .snoozeUnknown, s)
    | some snooze =>
      if snooze.cancelledAt.isSome then (.refused .snoozeAlreadyCancelled, s)
      else
        let row := { snooze with cancelledAt := some s.now }
        (.cancelled row,
          { s with
            snoozes := s.snoozes.set snoozeId row
            items := wakeItems s.items snooze.firmId snooze.itemKey })

/-! ## Builds and refreshes -/

structure TodayContribution where
  firmId : Uuid
  contactId : Option Uuid
  itemKey : JsString
  kind : TodayItemKind
  dueAt : Instant
  sourceKind : TodaySourceKind
  sourceId : Option Uuid
  automated : Bool
  deriving DecidableEq

/-- `return_at` of the snooze in force, the one the index lets stand. -/
def returnOf (s : State) (firmId : Uuid) (itemKey : JsString) : Option Instant :=
  (s.snoozes.find? fun snooze =>
    TodaySnooze.stands firmId itemKey snooze && s.now < snooze.returnAt).map (·.returnAt)

def isFinished (item : TodayItem) : Bool := item.status = .completed || item.status = .cancelled

/-- `today_upsert_item` -/
def todayUpsertItem (s : State) (date : BusinessDate) (contribution : TodayContribution) : State :=
  let id : ItemId := ⟨date, contribution.firmId, contribution.itemKey⟩
  if (s.items.find? id).any isFinished then s
  else
    let returnAt := returnOf s contribution.firmId contribution.itemKey
    { s with
      items := s.items.upsert ⟨id, contribution.contactId, contribution.kind, contribution.dueAt,
        if returnAt.isNone then .open_ else .snoozed, contribution.automated,
        contribution.sourceKind, contribution.sourceId, returnAt⟩ }

/-- The tasks of the date and of the sources read that were not produced. -/
def cancelUnproducedItems (s : State) (date : BusinessDate) (sourceKinds : List TodaySourceKind)
    (keptItemKeys : List JsString) (firmId : Option Uuid) : State :=
  { s with
    items := s.items.update
      (fun item => item.id.snapshotDate = date && item.sourceKind ∈ sourceKinds &&
        !isFinished item && item.id.itemKey ∉ keptItemKeys && firmId.all (· = item.id.firmId))
      (fun item => { item with status := .cancelled, snoozeUntil := none }) fun _ => rfl }

def contributionLe (left right : TodayContribution) : Bool :=
  if left.firmId = right.firmId then textLe left.itemKey right.itemKey
  else textLe left.firmId right.firmId

/-- What the sources answered: the kinds they read and the tasks they found. -/
structure SourceAnswer where
  sourceKinds : List TodaySourceKind
  contributions : List TodayContribution
  deriving DecidableEq

/-- A build of the day, or with a firm its refresh. -/
def buildFrom (s : State) (date : BusinessDate) (answer : SourceAnswer) (firmId : Option Uuid) :
    State :=
  let contributions := answer.contributions.mergeSort contributionLe
  cancelUnproducedItems (contributions.foldl (todayUpsertItem · date) s) date answer.sourceKinds
    (contributions.map (·.itemKey)) firmId

def completeTodayItem (s : State) (itemId : ItemId) : State :=
  { s with
    items := s.items.update (fun item => item.id = itemId && !isFinished item)
      (fun item => { item with status := .completed, snoozeUntil := none }) fun _ => rfl }

/-! ## Histories -/

inductive Command
  | tick (milliseconds : Nat)
  | snooze (actor : Actor) (world : World) (input : SnoozeTodayItemInput)
  | cancel (actor : Actor) (snoozeId : Nat)
  | build (date : BusinessDate) (answer : SourceAnswer) (firmId : Option Uuid)
  | complete (itemId : ItemId)

def step (s : State) : Command → State
  | .tick milliseconds => { s with now := s.now + milliseconds }
  | .snooze actor world input => (snoozeTodayItem s actor world input).2
  | .cancel actor snoozeId => (cancelTodaySnooze s actor snoozeId).2
  | .build date answer firmId => buildFrom s date answer firmId
  | .complete itemId => completeTodayItem s itemId

/-! ## One snooze stands -/

def OneStands (s : State) : Prop :=
  ∀ firmId itemKey, (s.snoozes.filter (TodaySnooze.stands firmId itemKey)).length ≤ 1

theorem stands_iff {firmId : Uuid} {itemKey : JsString} {snooze : TodaySnooze} :
    snooze.stands firmId itemKey = true
      ↔ snooze.firmId = firmId ∧ snooze.itemKey = itemKey ∧ snooze.cancelledAt = none := by
  simp [TodaySnooze.stands, and_assoc]

theorem insertSnooze_eq_some {snoozes snoozes' : List TodaySnooze} {row : TodaySnooze}
    (hrow : row.cancelledAt = none) (h : insertSnooze snoozes row = some snoozes') :
    snoozes' = snoozes ++ [row] ∧
      ∀ snooze ∈ snoozes, snooze.stands row.firmId row.itemKey = false := by
  unfold insertSnooze at h
  split at h
  · cases h
  · rename_i hnone
    refine ⟨(Option.some.inj h).symm, fun snooze hsnooze => ?_⟩
    rw [hrow] at hnone
    simp only [Option.isNone_none, Bool.true_and, List.any_eq_true, not_exists, not_and,
      Bool.not_eq_true] at hnone
    exact hnone snooze hsnooze

theorem insertSnooze_eq_none {snoozes : List TodaySnooze} {row : TodaySnooze}
    (h : insertSnooze snoozes row = none) :
    ∃ snooze ∈ snoozes, snooze.stands row.firmId row.itemKey = true := by
  unfold insertSnooze at h
  split at h
  · rename_i hany
    rw [Bool.and_eq_true, List.any_eq_true] at hany
    exact hany.2
  · cases h

/-- What a snooze does: it changes nothing, opens a hold, or records a snooze of a task
none of which stands. -/
theorem snooze_cases (s : State) (actor : Actor) (world : World) (input : SnoozeTodayItemInput) :
    (snoozeTodayItem s actor world input).2 = s ∨
    (∃ hold, (snoozeTodayItem s actor world input).2 = { s with holds := s.holds ++ [hold] } ∧
      ∃ blocked, (snoozeTodayItem s actor world input).1
        = .held s.holds.length blocked hold.scope) ∨
    ∃ row, (snoozeTodayItem s actor world input).1 = .snoozed row ∧ row.cancelledAt = none ∧
      (∀ snooze ∈ s.snoozes, snooze.stands row.firmId row.itemKey = false) ∧
      (snoozeTodayItem s actor world input).2
        = { s with
            snoozes := s.snoozes ++ [row]
            items := sleepItem s.items ⟨input.itemId.snapshotDate, row.firmId, row.itemKey⟩
              row.returnAt } := by
  unfold snoozeTodayItem
  cases actor with
  | system => exact .inl rfl
  | user userId admin =>
    simp only
    split
    · exact .inl rfl
    split
    · exact .inl rfl
    cases hitem : s.items.find? input.itemId with
    | none => exact .inl rfl
    | some item =>
      have hid : item.id = input.itemId := (Table.find?_eq_some.1 hitem).2
      simp only
      split
      · exact .inl rfl
      split
      · exact .inl rfl
      · exact .inl rfl
      split
      · exact .inl rfl
      split
      · unfold pauseTodayItem
        split
        · exact .inl rfl
        · rename_i blocked hblocked
          simp only
          split
          · exact .inl rfl
          · exact .inr (.inl ⟨_, rfl, blocked, rfl⟩)
      split
      · exact .inl rfl
      split
      · exact .inl rfl
      · rename_i returnAt hreturn hfuture
        split
        · exact .inl rfl
        · rename_i snoozes hinsert
          obtain ⟨rfl, hnone⟩ := insertSnooze_eq_some rfl hinsert
          refine .inr (.inr ⟨_, rfl, rfl, hnone, ?_⟩)
          rw [hid]

theorem todayUpsertItem_snoozes (s : State) (date : BusinessDate)
    (contribution : TodayContribution) :
    (todayUpsertItem s date contribution).snoozes = s.snoozes ∧
      (todayUpsertItem s date contribution).now = s.now := by
  simp only [todayUpsertItem]
  split
  · exact ⟨rfl, rfl⟩
  · exact ⟨rfl, rfl⟩

theorem foldl_upsert_snoozes (contributions : List TodayContribution) (date : BusinessDate)
    (s : State) :
    (contributions.foldl (todayUpsertItem · date) s).snoozes = s.snoozes ∧
      (contributions.foldl (todayUpsertItem · date) s).now = s.now := by
  induction contributions generalizing s with
  | nil => exact ⟨rfl, rfl⟩
  | cons contribution contributions ih =>
    obtain ⟨hsnoozes, hnow⟩ := ih (todayUpsertItem s date contribution)
    obtain ⟨hsnoozes', hnow'⟩ := todayUpsertItem_snoozes s date contribution
    exact ⟨hsnoozes.trans hsnoozes', hnow.trans hnow'⟩

theorem OneStands.step {s : State} (h : OneStands s) (command : Command) :
    OneStands (step s command) := by
  intro firmId itemKey
  cases command with
  | tick milliseconds => exact h firmId itemKey
  | complete itemId => exact h firmId itemKey
  | build date answer firm =>
    have hsame : (Today.step s (.build date answer firm)).snoozes = s.snoozes :=
      (foldl_upsert_snoozes _ date s).1
    rw [hsame]
    exact h firmId itemKey
  | snooze actor world input =>
    change ((snoozeTodayItem s actor world input).2.snoozes.filter _).length ≤ 1
    rcases snooze_cases s actor world input with
      hsame | ⟨hold, hsame, -⟩ | ⟨row, -, -, hnone, hsame⟩
    · rw [hsame]
      exact h firmId itemKey
    · rw [hsame]
      exact h firmId itemKey
    · rw [hsame]
      show ((s.snoozes ++ [row]).filter _).length ≤ 1
      rw [List.filter_append, List.length_append]
      by_cases hrow : row.stands firmId itemKey = true
      · obtain ⟨rfl, rfl, -⟩ := stands_iff.1 hrow
        have hempty : s.snoozes.filter (TodaySnooze.stands row.firmId row.itemKey) = [] :=
          List.filter_eq_nil_iff.2 fun snooze hsnooze => by simp [hnone snooze hsnooze]
        rw [hempty, List.filter_cons_of_pos hrow]
        simp
      · rw [List.filter_cons_of_neg hrow]
        simpa using h firmId itemKey
  | cancel actor snoozeId =>
    change ((cancelTodaySnooze s actor snoozeId).2.snoozes.filter _).length ≤ 1
    unfold cancelTodaySnooze
    cases actor with
    | system => exact h firmId itemKey
    | user userId admin =>
      simp only
      split
      · exact h firmId itemKey
      · split
        · exact h firmId itemKey
        · rename_i snooze hsnooze hcancelled
          refine le_trans ?_ (h firmId itemKey)
          rw [← List.countP_eq_length_filter, ← List.countP_eq_length_filter]
          obtain ⟨hlt, hget⟩ := List.getElem?_eq_some_iff.1 hsnooze
          rw [List.countP_set hlt]
          simp [TodaySnooze.stands]

/-! ## What a build makes of a task -/

/-- A snooze of the task is in force. -/
def InForce (s : State) (firmId : Uuid) (itemKey : JsString) (snooze : TodaySnooze) : Prop :=
  snooze ∈ s.snoozes ∧ snooze.stands firmId itemKey = true ∧ s.now < snooze.returnAt

theorem returnOf_eq_some {s : State} (hone : OneStands s) {firmId : Uuid} {itemKey : JsString}
    {snooze : TodaySnooze} (h : InForce s firmId itemKey snooze) :
    returnOf s firmId itemKey = some snooze.returnAt := by
  obtain ⟨hmem, hstands, hlater⟩ := h
  unfold returnOf
  cases hfind : s.snoozes.find? fun snooze =>
      TodaySnooze.stands firmId itemKey snooze && s.now < snooze.returnAt with
  | none =>
    have hno := List.find?_eq_none.1 hfind snooze hmem
    simp [hstands, hlater] at hno
  | some found =>
    have hfound := List.find?_some hfind
    rw [Bool.and_eq_true] at hfound
    have hin : found ∈ s.snoozes.filter (TodaySnooze.stands firmId itemKey) :=
      List.mem_filter.2 ⟨List.mem_of_find?_eq_some hfind, hfound.1⟩
    have hin' : snooze ∈ s.snoozes.filter (TodaySnooze.stands firmId itemKey) :=
      List.mem_filter.2 ⟨hmem, hstands⟩
    obtain ⟨only, honly⟩ : ∃ only, s.snoozes.filter (TodaySnooze.stands firmId itemKey) = [only] :=
      List.length_eq_one_iff.1
        (le_antisymm (hone firmId itemKey) (List.length_pos_of_mem hin))
    rw [honly, List.mem_singleton] at hin hin'
    rw [hin, hin']
    rfl

theorem returnOf_eq_none {s : State} {firmId : Uuid} {itemKey : JsString}
    (h : ∀ snooze, ¬ InForce s firmId itemKey snooze) : returnOf s firmId itemKey = none := by
  unfold returnOf
  rw [Option.map_eq_none_iff, List.find?_eq_none]
  intro snooze hsnooze hin
  rw [Bool.and_eq_true, decide_eq_true_eq] at hin
  exact h snooze ⟨hsnooze, hin.1, hin.2⟩

/-- A task that is not finished becomes open, or asleep until `returnAt`; a finished one
is left as it is. -/
def Listed (returnAt : Option Instant) (before after : Option TodayItem) : Prop :=
  (before.any isFinished = true → after = before) ∧
    (before.any isFinished = false → ∃ item, after = some item ∧ item.snoozeUntil = returnAt ∧
      item.status = if returnAt.isNone then .open_ else .snoozed)

theorem Listed.trans {returnAt : Option Instant} {a b c : Option TodayItem}
    (hab : Listed returnAt a b) (hbc : Listed returnAt b c) : Listed returnAt a c := by
  refine ⟨fun ha => ?_, fun ha => ?_⟩
  · have hb := hab.1 ha
    exact (hbc.1 (hb ▸ ha)).trans hb
  · obtain ⟨item, rfl, -, hstatus⟩ := hab.2 ha
    apply hbc.2
    unfold isFinished
    rw [Option.any_some, hstatus]
    cases returnAt with
    | none => rfl
    | some instant => rfl

theorem upsert_listed (s : State) (date : BusinessDate) (contribution : TodayContribution) :
    Listed (returnOf s contribution.firmId contribution.itemKey)
      (s.items.find? ⟨date, contribution.firmId, contribution.itemKey⟩)
      ((todayUpsertItem s date contribution).items.find?
        ⟨date, contribution.firmId, contribution.itemKey⟩) := by
  simp only [todayUpsertItem]
  split
  · rename_i hfinished
    refine ⟨fun _ => rfl, fun hopen => ?_⟩
    rw [hopen] at hfinished
    cases hfinished
  · rename_i hopen
    refine ⟨fun hfinished => absurd hfinished hopen, fun _ => ?_⟩
    exact ⟨_, Table.find?_upsert_of_key rfl, rfl, rfl⟩

theorem upsert_other {s : State} {date : BusinessDate} {contribution : TodayContribution}
    {id : ItemId} (h : id ≠ ⟨date, contribution.firmId, contribution.itemKey⟩) :
    (todayUpsertItem s date contribution).items.find? id = s.items.find? id := by
  simp only [todayUpsertItem]
  split
  · rfl
  · exact Table.find?_upsert_ne h

/-- A task of the contributions. -/
def Produced (contributions : List TodayContribution) (firmId : Uuid) (itemKey : JsString) :
    Prop :=
  ∃ contribution ∈ contributions, contribution.firmId = firmId ∧ contribution.itemKey = itemKey

theorem foldl_upsert_listed (contributions : List TodayContribution) (date : BusinessDate)
    (s : State) (firmId : Uuid) (itemKey : JsString) :
    let after := (contributions.foldl (todayUpsertItem · date) s).items.find?
      ⟨date, firmId, itemKey⟩
    (Produced contributions firmId itemKey →
      Listed (returnOf s firmId itemKey) (s.items.find? ⟨date, firmId, itemKey⟩) after) ∧
    (¬ Produced contributions firmId itemKey → after = s.items.find? ⟨date, firmId, itemKey⟩) := by
  induction contributions generalizing s with
  | nil =>
    refine ⟨?_, fun _ => rfl⟩
    rintro ⟨contribution, hmem, -⟩
    cases hmem
  | cons contribution contributions ih =>
    obtain ⟨hlisted, hother⟩ := ih (todayUpsertItem s date contribution)
    have hreturn : returnOf (todayUpsertItem s date contribution) firmId itemKey
        = returnOf s firmId itemKey := by
      unfold returnOf
      rw [(todayUpsertItem_snoozes s date contribution).1,
        (todayUpsertItem_snoozes s date contribution).2]
    rw [hreturn] at hlisted
    by_cases hhere : contribution.firmId = firmId ∧ contribution.itemKey = itemKey
    · obtain ⟨rfl, rfl⟩ := hhere
      have hfirst := upsert_listed s date contribution
      refine ⟨fun _ => ?_, fun hno => absurd ⟨contribution, List.mem_cons_self, rfl, rfl⟩ hno⟩
      by_cases hlater : Produced contributions contribution.firmId contribution.itemKey
      · exact hfirst.trans (hlisted hlater)
      · rw [← hother hlater] at hfirst
        exact hfirst
    · have hne : (⟨date, firmId, itemKey⟩ : ItemId)
          ≠ ⟨date, contribution.firmId, contribution.itemKey⟩ := by
        intro heq
        injection heq with _ hfirm hkey
        exact hhere ⟨hfirm.symm, hkey.symm⟩
      have hiff : Produced (contribution :: contributions) firmId itemKey
          ↔ Produced contributions firmId itemKey := by
        constructor
        · rintro ⟨found, hfound, hkeys⟩
          rcases List.mem_cons.1 hfound with rfl | hfound
          · exact absurd hkeys hhere
          · exact ⟨found, hfound, hkeys⟩
        · rintro ⟨found, hfound, hkeys⟩
          exact ⟨found, List.mem_cons_of_mem _ hfound, hkeys⟩
      rw [upsert_other hne] at hlisted hother
      rw [hiff]
      exact ⟨hlisted, hother⟩

/-- What the reconciliation makes of one row. -/
theorem cancelUnproducedItems_find (s : State) (date : BusinessDate)
    (sourceKinds : List TodaySourceKind) (kept : List JsString) (refreshed : Option Uuid)
    (id : ItemId) :
    let after := (cancelUnproducedItems s date sourceKinds kept refreshed).items.find? id
    after = s.items.find? id ∨
      ∃ item, s.items.find? id = some item ∧ isFinished item = false ∧ id.itemKey ∉ kept ∧
        id.snapshotDate = date ∧
        after = some { item with status := .cancelled, snoozeUntil := none } := by
  simp only [cancelUnproducedItems, Table.find?_update]
  cases hfind : s.items.find? id with
  | none => exact .inl rfl
  | some item =>
    obtain rfl : item.id = id := (Table.find?_eq_some.1 hfind).2
    rw [Option.map_some]
    split
    · rename_i hguard
      simp only [Bool.and_eq_true, Bool.not_eq_true', decide_eq_true_eq] at hguard
      exact .inr ⟨item, rfl, hguard.1.1.2, hguard.1.2, hguard.1.1.1.1, rfl⟩
    · exact .inl rfl

/-- A task the build produces is listed; one it does not produce is left as it is, or
cancelled when it was not finished. -/
theorem buildFrom_listed (s : State) (date : BusinessDate) (answer : SourceAnswer)
    (refreshed : Option Uuid) (firmId : Uuid) (itemKey : JsString) :
    let before := s.items.find? ⟨date, firmId, itemKey⟩
    let after := (buildFrom s date answer refreshed).items.find? ⟨date, firmId, itemKey⟩
    (Produced answer.contributions firmId itemKey →
      Listed (returnOf s firmId itemKey) before after) ∧
    (¬ Produced answer.contributions firmId itemKey → after = before ∨
      ∃ item, before = some item ∧ isFinished item = false ∧
        after = some { item with status := .cancelled, snoozeUntil := none }) := by
  have hperm : ∀ c, c ∈ answer.contributions.mergeSort contributionLe ↔ c ∈ answer.contributions :=
    fun c => (List.mergeSort_perm _ _).mem_iff
  obtain ⟨hlisted, hother⟩ :=
    foldl_upsert_listed (answer.contributions.mergeSort contributionLe) date s firmId itemKey
  simp only [Produced, hperm] at hlisted hother
  have hcancel := cancelUnproducedItems_find
    ((answer.contributions.mergeSort contributionLe).foldl (todayUpsertItem · date) s) date
    answer.sourceKinds ((answer.contributions.mergeSort contributionLe).map (·.itemKey)) refreshed
    ⟨date, firmId, itemKey⟩
  constructor
  · intro hin
    obtain ⟨contribution, hmem, -, hkey⟩ := id hin
    rcases hcancel with hsame | ⟨item, -, -, hunkept, -⟩
    · exact hsame ▸ hlisted hin
    · exact absurd (List.mem_map.2 ⟨contribution, (hperm _).2 hmem, hkey⟩) hunkept
  · intro hout
    rw [hother hout] at hcancel
    rcases hcancel with hsame | ⟨item, hitem, hopen, -, -, hafter⟩
    · exact .inl hsame
    · exact .inr ⟨item, hitem, hopen, hafter⟩

/-- A build touches the rows of its date only. -/
theorem buildFrom_otherDates (s : State) (date : BusinessDate) (answer : SourceAnswer)
    (refreshed : Option Uuid) {id : ItemId} (h : id.snapshotDate ≠ date) :
    (buildFrom s date answer refreshed).items.find? id = s.items.find? id := by
  have hfold : ∀ (contributions : List TodayContribution) (t : State),
      (contributions.foldl (todayUpsertItem · date) t).items.find? id = t.items.find? id := by
    intro contributions
    induction contributions with
    | nil => exact fun t => rfl
    | cons contribution contributions ih =>
      intro t
      rw [List.foldl_cons, ih]
      exact upsert_other fun heq => h (by rw [heq])
  rcases cancelUnproducedItems_find
    ((answer.contributions.mergeSort contributionLe).foldl (todayUpsertItem · date) s) date
    answer.sourceKinds ((answer.contributions.mergeSort contributionLe).map (·.itemKey)) refreshed
    id with hsame | ⟨item, -, -, -, hdate, -⟩
  · exact hsame.trans (hfold _ s)
  · exact absurd hdate h

/-! ## Snoozed again -/

/-- The rules of the command let this snooze through: an open manual task of a permitted
firm and a return instant in the future. -/
structure Eligible (s : State) (actor : Actor) (world : World) (input : SnoozeTodayItemInput)
    (item : TodayItem) (returnAt : Instant) : Prop where
  user : ∃ userId admin, actor = .user userId admin
  reason : (reasonOf input).length ≤ snoozeReasonMax
  found : s.items.find? input.itemId = some item
  permitted : ∃ firm, world.firm item.id.firmId = some firm ∧ decideFirmMutation actor firm = none
  isOpen : item.status = .open_
  manual : item.automated = false
  explicit : input.returnAt = some (some returnAt)
  future : s.now < returnAt

theorem Eligible.outcome {s : State} {actor : Actor} {world : World}
    {input : SnoozeTodayItemInput} {item : TodayItem} {returnAt : Instant}
    (h : Eligible s actor world input item returnAt) :
    ∃ row : TodaySnooze, row.firmId = item.id.firmId ∧ row.itemKey = item.id.itemKey ∧
      row.returnAt = returnAt ∧ row.cancelledAt = none ∧
      snoozeTodayItem s actor world input
        = match insertSnooze s.snoozes row with
          | none => (.uniqueViolation, s)
          | some snoozes =>
            (.snoozed row,
              { s with snoozes := snoozes, items := sleepItem s.items item.id returnAt }) := by
  obtain ⟨userId, admin, rfl⟩ := h.user
  obtain ⟨firm, hfirm, hpermitted⟩ := h.permitted
  have hreason : ¬ (reasonOf input).length > snoozeReasonMax := Nat.not_lt.2 h.reason
  have hparsed : ¬ input.returnAt = some none := by
    rw [h.explicit]
    exact fun heq => Option.some_ne_none returnAt (Option.some.inj heq)
  have hjoin : input.returnAt.join = some returnAt := by rw [h.explicit]; rfl
  have hstatus : ¬ item.status ≠ .open_ := not_not.2 h.isOpen
  have hlater : ¬ returnAt ≤ s.now := Int.not_le.2 h.future
  refine ⟨⟨item.id.firmId, item.contactId, item.id.itemKey, reasonOf input, returnAt, userId,
    s.now, none⟩, rfl, rfl, rfl, rfl, ?_⟩
  simp only [snoozeTodayItem, hreason, hparsed, h.found, hfirm, hpermitted, hstatus, h.manual,
    hjoin, hlater, if_false, Bool.false_eq_true]

/-- A snooze the rules let through is accepted unless one of its task stands. -/
theorem snooze_accepted_iff {s : State} {actor : Actor} {world : World}
    {input : SnoozeTodayItemInput} {item : TodayItem} {returnAt : Instant}
    (h : Eligible s actor world input item returnAt) :
    (∃ row, (snoozeTodayItem s actor world input).1 = .snoozed row)
      ↔ ∀ snooze ∈ s.snoozes, snooze.stands item.id.firmId item.id.itemKey = false := by
  obtain ⟨row, hfirm, hkey, -, hnone, houtcome⟩ := h.outcome
  rw [houtcome, ← hfirm, ← hkey]
  cases hinsert : insertSnooze s.snoozes row with
  | none =>
    obtain ⟨snooze, hmem, hstands⟩ := insertSnooze_eq_none hinsert
    constructor
    · rintro ⟨row', hrow'⟩
      cases hrow'
    · intro hall
      rw [hall snooze hmem] at hstands
      cases hstands
  | some snoozes =>
    exact ⟨fun _ => (insertSnooze_eq_some hnone hinsert).2, fun _ => ⟨row, rfl⟩⟩

/-- What is promised of a state and of the next command in it. -/
structure Sound (s : State) (command : Command) : Prop where
  /-- At most one snooze of a task is in force. -/
  oneInForce : ∀ firmId itemKey snooze snooze', InForce s firmId itemKey snooze →
    InForce s firmId itemKey snooze' → snooze = snooze'
  /-- A snooze the rules let through is accepted, and puts the task to sleep. -/
  accepted : ∀ actor world input item returnAt, command = .snooze actor world input →
    Eligible s actor world input item returnAt →
    ∃ row, (snoozeTodayItem s actor world input).1 = .snoozed row ∧ row.returnAt = returnAt ∧
      InForce (step s command) item.id.firmId item.id.itemKey row ∧
      (step s command).items.find? item.id
        = some { item with status := .snoozed, snoozeUntil := some returnAt }
  /-- A build or a refresh that produces a task leaves it asleep until the return instant
  in force, else open, unless it was finished. -/
  asleep : ∀ date answer refreshed firmId itemKey snooze,
    command = .build date answer refreshed → Produced answer.contributions firmId itemKey →
    InForce s firmId itemKey snooze →
    Listed (some snooze.returnAt) (s.items.find? ⟨date, firmId, itemKey⟩)
      ((step s command).items.find? ⟨date, firmId, itemKey⟩)
  awake : ∀ date answer refreshed firmId itemKey,
    command = .build date answer refreshed → Produced answer.contributions firmId itemKey →
    (∀ snooze, ¬ InForce s firmId itemKey snooze) →
    Listed none (s.items.find? ⟨date, firmId, itemKey⟩)
      ((step s command).items.find? ⟨date, firmId, itemKey⟩)
  /-- A refused command changes nothing. -/
  refusedSnooze : ∀ actor world input reason, command = .snooze actor world input →
    (snoozeTodayItem s actor world input).1 = .refused reason → step s command = s
  refusedCancel : ∀ actor snoozeId reason, command = .cancel actor snoozeId →
    (cancelTodaySnooze s actor snoozeId).1 = .refused reason → step s command = s

/-- No snooze the rules let through meets one of its task that stands. -/
def MeetsNone (s : State) (command : Command) : Prop :=
  ∀ actor world input item returnAt, command = .snooze actor world input →
    Eligible s actor world input item returnAt →
    ∀ snooze ∈ s.snoozes, snooze.stands item.id.firmId item.id.itemKey = false

theorem OneStands.inForce {s : State} (h : OneStands s) {firmId : Uuid} {itemKey : JsString}
    {snooze snooze' : TodaySnooze} (hin : InForce s firmId itemKey snooze)
    (hin' : InForce s firmId itemKey snooze') : snooze = snooze' := by
  have hmem := List.mem_filter.2 ⟨hin.1, hin.2.1⟩
  have hmem' := List.mem_filter.2 ⟨hin'.1, hin'.2.1⟩
  obtain ⟨only, honly⟩ : ∃ only, s.snoozes.filter (TodaySnooze.stands firmId itemKey) = [only] :=
    List.length_eq_one_iff.1 (le_antisymm (h firmId itemKey) (List.length_pos_of_mem hmem))
  rw [honly, List.mem_singleton] at hmem hmem'
  rw [hmem, hmem']

theorem Sound.of_meetsNone {s : State} (hone : OneStands s) {command : Command}
    (h : MeetsNone s command) : Sound s command where
  oneInForce firmId itemKey snooze snooze' hin hin' := hone.inForce hin hin'
  accepted := by
    rintro actor world input item returnAt rfl heligible
    obtain ⟨row, hfirm, hkey, hreturn, hnone, houtcome⟩ := heligible.outcome
    have hclear := h actor world input item returnAt rfl heligible
    cases hinsert : insertSnooze s.snoozes row with
    | none =>
      obtain ⟨snooze, hmem, hstands⟩ := insertSnooze_eq_none hinsert
      rw [hfirm, hkey, hclear snooze hmem] at hstands
      cases hstands
    | some snoozes =>
      rw [hinsert] at houtcome
      obtain rfl := (insertSnooze_eq_some hnone hinsert).1
      refine ⟨row, by rw [houtcome], hreturn, ?_, ?_⟩
      · refine ⟨?_, stands_iff.2 ⟨hfirm, hkey, hnone⟩, ?_⟩
        · simp [step, houtcome]
        · simpa [step, houtcome, hreturn] using heligible.future
      · have hid : item.id = input.itemId := (Table.find?_eq_some.1 heligible.found).2
        simp only [step, houtcome, sleepItem, Table.find?_update]
        rw [hid, heligible.found, Option.map_some]
        simp only [hid, heligible.isOpen, decide_true, Bool.and_self, if_true]
  asleep := by
    rintro date answer refreshed firmId itemKey snooze rfl hproduced hin
    rw [← returnOf_eq_some hone hin]
    exact (buildFrom_listed s date answer refreshed firmId itemKey).1 hproduced
  awake := by
    rintro date answer refreshed firmId itemKey rfl hproduced hout
    rw [← returnOf_eq_none hout]
    exact (buildFrom_listed s date answer refreshed firmId itemKey).1 hproduced
  refusedSnooze := by
    rintro actor world input reason rfl hrefused
    rcases snooze_cases s actor world input with hsame | ⟨hold, -, blocked, hheld⟩ | ⟨row, hrow, -⟩
    · exact hsame
    · rw [hheld] at hrefused
      cases hrefused
    · rw [hrow] at hrefused
      cases hrefused
  refusedCancel := by
    rintro actor snoozeId reason rfl hrefused
    simp only [step]
    unfold cancelTodaySnooze at hrefused ⊢
    cases actor with
    | system => rfl
    | user userId admin =>
      simp only at hrefused ⊢
      cases hsnooze : s.snoozes[snoozeId]? with
      | none => rfl
      | some snooze =>
        rw [hsnooze] at hrefused
        simp only at hrefused ⊢
        split at hrefused
        · rename_i hcancelled
          rw [if_pos hcancelled]
        · cases hrefused

/-- A history keeps every promise exactly when no snooze the rules let through meets one
of its task that stands, returned or not. In every history the table holds at most one
that stands. -/
theorem snoozed_again_iff (now : Instant) (commands : List Command) :
    (Runs.Meets step Sound (emptyState now) commands
      ↔ Runs.Meets step MeetsNone (emptyState now) commands) ∧
      OneStands (Runs.run step (emptyState now) commands) := by
  have hempty : OneStands (emptyState now) := fun firmId itemKey => Nat.zero_le _
  have hkeep : ∀ s command, OneStands s → OneStands (step s command) :=
    fun s command h => h.step command
  refine ⟨⟨fun h => ?_, fun h => ?_⟩, Runs.run_invariant hkeep hempty commands⟩
  · refine h.imp hkeep ?_ hempty
    intro s command _ hsound actor world input item returnAt hcommand heligible
    obtain ⟨row, hrow, -⟩ := hsound.accepted actor world input item returnAt hcommand heligible
    exact (snooze_accepted_iff heligible).1 ⟨row, hrow⟩
  · exact h.imp hkeep (fun s command hone hclear => Sound.of_meetsNone hone hclear) hempty

/-! ## A second snooze after the first has returned -/

def callbackOf : SourceAnswer :=
  ⟨[.callback], [⟨js "firm", none, js "callback:1", .callback, 0, .callback, none, false⟩]⟩

def ownFirm : World := ⟨fun _ => some ⟨false, some (js "ann")⟩, fun _ => none⟩

def snoozeUntil (date : BusinessDate) (returnAt : Instant) : Command :=
  .snooze (.user (js "ann") false) ownFirm
    ⟨⟨date, js "firm", js "callback:1"⟩, none, some (some returnAt)⟩

/-- Snoozed on the first day until 10, back on the second day's list at 20. -/
def firstDays : List Command :=
  [.build 1 callbackOf none, snoozeUntil 1 10, .tick 20, .build 2 callbackOf none]

/-- The second snooze is let through by every rule and fails on the index. -/
theorem snoozed_again_violates :
    ¬ ∀ now commands, Runs.Meets step Sound (emptyState now) commands := by
  intro h
  have hrun := h 0 (firstDays ++ [snoozeUntil 2 30])
  obtain ⟨-, hlast⟩ := hrun.append
  have hfound : ∃ item, (Runs.run step (emptyState 0) firstDays).items.find?
        ⟨2, js "firm", js "callback:1"⟩ = some item ∧
      item.id = ⟨2, js "firm", js "callback:1"⟩ ∧ item.status = .open_ ∧
      item.automated = false :=
    ⟨⟨⟨2, js "firm", js "callback:1"⟩, none, .callback, 0, .open_, false, .callback, none, none⟩,
      by decide +kernel⟩
  obtain ⟨item, hitem, hid, hopen, hmanual⟩ := hfound
  have heligible : Eligible (Runs.run step (emptyState 0) firstDays) (.user (js "ann") false)
      ownFirm ⟨⟨2, js "firm", js "callback:1"⟩, none, some (some 30)⟩ item 30 :=
    { user := ⟨_, _, rfl⟩
      reason := by decide +kernel
      found := hitem
      permitted := ⟨⟨false, some (js "ann")⟩, rfl, by decide⟩
      isOpen := hopen
      manual := hmanual
      explicit := rfl
      future := by decide +kernel }
  obtain ⟨row, hrow, -⟩ := hlast.1.accepted _ _ _ item 30 rfl heligible
  have hviolated : (snoozeTodayItem (Runs.run step (emptyState 0) firstDays)
      (.user (js "ann") false) ownFirm
      ⟨⟨2, js "firm", js "callback:1"⟩, none, some (some 30)⟩).1 = .uniqueViolation := by
    decide +kernel
  rw [hviolated] at hrow
  cases hrow

end FoundingSales.Today
