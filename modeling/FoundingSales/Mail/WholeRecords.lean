import FoundingSales.Mail.Sync

/-!
What a run takes of the history it read, and how far the cursor it writes may stand: never
past a record with a message the run did not finish.
-/

namespace FoundingSales.Mail

open Processes Outbound

/-! ## Ascending records -/

/-- Records a listing from a cursor returned: in order, and beyond it. -/
structure Listed (start : HistoryId) (records : List HistoryRecord) : Prop where
  ascending : records.Pairwise fun a b => a.number < b.number
  beyond : ∀ record ∈ records, start.value < record.number

variable {start : HistoryId} {records : List HistoryRecord}

theorem listed_nil : Listed start [] := ⟨List.Pairwise.nil, nofun⟩

theorem HistoryPage.Follows.listed {gmail : Gmail} {page : HistoryPage}
    (h : page.Follows gmail start records) : Listed start (records ++ page.records) := by
  constructor
  · exact (Feeds.after_ascending gmail.ascending).sublist h.inOrder.sublist
  · intro record hrecord
    exact (Feeds.mem_after.1 (h.inOrder.subset hrecord)).2

theorem Listed.take (h : Listed start records) (n : Nat) : Listed start (records.take n) :=
  ⟨h.ascending.sublist (List.take_sublist n records),
    fun record hrecord => h.beyond record (List.mem_of_mem_take hrecord)⟩

theorem Listed.oldestFirst (h : Listed start records) : oldestFirst records = records :=
  List.Pairwise.insertionSort_eq (h.ascending.imp fun hlt => Nat.le_of_lt hlt)

theorem Listed.after_eq (h : Listed start records) :
    Feeds.after HistoryRecord.number records start.value = records :=
  List.filter_eq_self.2 fun record hrecord => by simpa using h.beyond record hrecord

/-- What a prefix reaches is in the prefix. -/
theorem Listed.mem_take {n : Nat} {record : HistoryRecord} (h : Listed start records)
    (hrecord : record ∈ records)
    (hle : record.number ≤ Feeds.reach HistoryRecord.number start.value (records.take n)) :
    record ∈ records.take n := by
  refine Feeds.mem_of_le_reach h.ascending ?_ hrecord (h.beyond record hrecord) hle
  rw [h.after_eq]
  exact List.take_prefix n records

/-! ## Taking -/

theorem mem_messageIds {record : HistoryRecord} {id : JsString} :
    id ∈ record.messageIds ↔
      ∃ change ∈ record.changes, change.kind ≠ .messageDeleted ∧ change.messageId = id := by
  simp [HistoryRecord.messageIds, and_assoc]

private theorem mem_holdChanges (changes : List HistoryChange) (held : List JsString)
    (id : JsString) :
    id ∈ changes.foldl (fun held change =>
        if change.kind = .messageDeleted ∨ change.messageId ∈ held then held
        else held ++ [change.messageId]) held ↔
      id ∈ held ∨ ∃ change ∈ changes, change.kind ≠ .messageDeleted ∧ change.messageId = id := by
  induction changes generalizing held with
  | nil => simp
  | cons change changes ih =>
    rw [List.foldl_cons, ih]
    simp only [List.mem_cons, exists_eq_or_imp]
    split
    · next hskip =>
      constructor
      · rintro (h | h)
        · exact .inl h
        · exact .inr (.inr h)
      · rintro (h | ⟨hkind, rfl⟩ | h)
        · exact .inl h
        · rcases hskip with hdeleted | hheld
          · exact absurd hdeleted hkind
          · exact .inl hheld
        · exact .inr h
    · next hnew =>
      rw [not_or] at hnew
      simp only [List.mem_append, List.mem_singleton]
      constructor
      · rintro ((h | rfl) | h)
        · exact .inl h
        · exact .inr (.inl ⟨hnew.1, rfl⟩)
        · exact .inr (.inr h)
      · rintro (h | ⟨_, rfl⟩ | h)
        · exact .inl (.inl h)
        · exact .inl (.inr rfl)
        · exact .inr h

theorem mem_holdMessages {held : List JsString} {record : HistoryRecord} {id : JsString} :
    id ∈ holdMessages held record ↔ id ∈ held ∨ id ∈ record.messageIds := by
  rw [mem_messageIds]
  exact mem_holdChanges record.changes held id

/-- Taking whole records: a prefix, every message of it, and the cursor at its reach. -/
theorem takeRecords_spec (maxMessages : Nat) (records : List HistoryRecord) (taken : HistoryTake) :
    ∃ n ≤ records.length,
      (takeRecords maxMessages records taken).recordsTaken = taken.recordsTaken + n ∧
      (takeRecords maxMessages records taken).through.value
        = Feeds.reach HistoryRecord.number taken.through.value (records.take n) ∧
      ∀ id, id ∈ (takeRecords maxMessages records taken).messageIds ↔
        id ∈ taken.messageIds ∨ ∃ record ∈ records.take n, id ∈ record.messageIds := by
  induction records generalizing taken with
  | nil => exact ⟨0, le_rfl, by simp [takeRecords]⟩
  | cons record records ih =>
    unfold takeRecords
    split
    · exact ⟨0, Nat.zero_le _, by simp⟩
    · obtain ⟨n, hn, htaken, hthrough, hids⟩ := ih { taken with
        messageIds := holdMessages taken.messageIds record
        recordsTaken := taken.recordsTaken + 1
        through := laterHistoryId taken.through record.id }
      refine ⟨n + 1, Nat.succ_le_succ hn, ?_, ?_, ?_⟩
      · rw [htaken]
        show taken.recordsTaken + 1 + n = _
        omega
      · rw [hthrough, List.take_succ_cons, Feeds.reach_cons, value_laterHistoryId]
      · intro id
        rw [hids id, mem_holdMessages, List.take_succ_cons]
        simp [or_assoc]

theorem takeWholeRecords_spec (h : Listed start records) (maxMessages : Nat) :
    ∃ n ≤ records.length,
      (takeWholeRecords start records maxMessages).recordsTaken = n ∧
      (takeWholeRecords start records maxMessages).recordsLeft = records.length - n ∧
      (takeWholeRecords start records maxMessages).through.value
        = Feeds.reach HistoryRecord.number start.value (records.take n) ∧
      ∀ id, id ∈ (takeWholeRecords start records maxMessages).messageIds ↔
        ∃ record ∈ records.take n, id ∈ record.messageIds := by
  obtain ⟨n, hn, htaken, hthrough, hids⟩ :=
    takeRecords_spec maxMessages records ⟨[], 0, 0, start⟩
  rw [Nat.zero_add] at htaken
  refine ⟨n, hn, ?_, ?_, ?_, ?_⟩
  · simp only [takeWholeRecords, h.oldestFirst]
    exact htaken
  · simp only [takeWholeRecords, h.oldestFirst, htaken]
  · simp only [takeWholeRecords, h.oldestFirst]
    exact hthrough
  · intro id
    simp only [takeWholeRecords, h.oldestFirst]
    rw [hids id]
    simp

/-! ## Standing -/

theorem mem_of_finished {record : HistoryRecord} {processed : List JsString}
    (h : record.finished processed = true) : ∀ id ∈ record.messageIds, id ∈ processed := by
  intro id hid
  obtain ⟨change, hchange, hkind, rfl⟩ := mem_messageIds.1 hid
  have := List.all_eq_true.1 h change hchange
  simpa [hkind] using this

theorem throughFinished_spec (processed : List JsString) (records : List HistoryRecord)
    (through : HistoryId) :
    ∃ n ≤ records.length,
      (throughFinished processed records through).value
        = Feeds.reach HistoryRecord.number through.value (records.take n) ∧
      ∀ record ∈ records.take n, record.finished processed = true := by
  induction records generalizing through with
  | nil => exact ⟨0, le_rfl, by simp [throughFinished]⟩
  | cons record records ih =>
    unfold throughFinished
    split
    · next hfinished =>
      obtain ⟨n, hn, hvalue, hall⟩ := ih (laterHistoryId through record.id)
      refine ⟨n + 1, Nat.succ_le_succ hn, ?_, ?_⟩
      · rw [hvalue, List.take_succ_cons, Feeds.reach_cons, value_laterHistoryId]
      · intro other hother
        rw [List.take_succ_cons, List.mem_cons] at hother
        rcases hother with rfl | hother
        · exact hfinished
        · exact hall other hother
    · exact ⟨0, Nat.zero_le _, by simp⟩

/-- How far a cursor stands: within what was listed or at the end of the history, and every
message of a record it passes is among the finished ones. -/
structure Stands (start : HistoryId) (records : List HistoryRecord) (ended : Option HistoryId)
    (finished : List JsString) (cursor : HistoryId) : Prop where
  forward : ended = some cursor ∨ start.value ≤ cursor.value
  within : ended = some cursor ∨
    cursor.value ≤ Feeds.reach HistoryRecord.number start.value records
  passed : ∀ record ∈ records, record.number ≤ cursor.value →
    ∀ id ∈ record.messageIds, id ∈ finished

/-- A cursor at the reach of a prefix whose messages are finished. -/
theorem Listed.stands {ended : Option HistoryId} {finished : List JsString} {cursor : HistoryId}
    {n : Nat} (h : Listed start records)
    (hvalue : cursor.value = Feeds.reach HistoryRecord.number start.value (records.take n))
    (hfinished : ∀ record ∈ records.take n, ∀ id ∈ record.messageIds, id ∈ finished) :
    Stands start records ended finished cursor := by
  refine ⟨.inr ?_, .inr ?_, ?_⟩
  · rw [hvalue]
    exact Feeds.le_reach
  · rw [hvalue]
    exact Feeds.reach_mono (List.take_prefix n records)
  · intro record hrecord hle
    rw [hvalue] at hle
    exact hfinished record (h.mem_take hrecord hle)

namespace SyncPlan

/-- The plan a run makes of a listing: what it takes of it, and a batch over what it took. -/
structure Made (plan : SyncPlan) (maxMessages : Nat) (known : List MailMessage) :
    Prop where
  listed : Listed plan.cursor plan.records
  take : plan.take = takeWholeRecords plan.cursor plan.records maxMessages
  pipeline : (emptyPipelineReport []).Through known plan.take.messageIds plan.pipeline

/-- Where the listing ended, if it did. -/
def ended (plan : SyncPlan) : Option HistoryId :=
  if plan.historyExhausted then some plan.latestHistoryId else none

variable {plan : SyncPlan} {maxMessages : Nat} {known : List MailMessage}

/-- The finished messages are the first `processedMessages` of those taken. -/
theorem Made.finished_eq (h : plan.Made maxMessages known) :
    plan.pipeline.finished.map Prod.fst
      = plan.take.messageIds.take plan.pipeline.processedMessages := by
  obtain ⟨ends, hends, hbegins, hprocessed, -, -⟩ := h.pipeline.finished
  rw [hends, hprocessed]
  show ends.map Prod.fst = plan.take.messageIds.take (0 + ends.length)
  rw [Nat.zero_add, ← List.length_map (f := Prod.fst)]
  exact List.prefix_iff_eq_take.1 hbegins

theorem Made.finished_all (h : plan.Made maxMessages known)
    (hnone : plan.pipeline.readFailure = none) :
    plan.pipeline.finished.map Prod.fst = plan.take.messageIds := by
  obtain ⟨ends, hends, hbegins, -, hall, -⟩ := h.pipeline.finished
  rw [hends]
  exact hbegins.eq_of_length (by simpa using hall hnone)

/-- The cursor a run writes stands before every message it did not finish. -/
theorem Made.stands (h : plan.Made maxMessages known) :
    Stands plan.cursor plan.records plan.ended (plan.pipeline.finished.map Prod.fst)
      plan.cursorTo := by
  obtain ⟨n, hn, htaken, hleft, hthrough, hids⟩ := takeWholeRecords_spec h.listed maxMessages
  rw [← h.take] at htaken hleft hthrough hids
  unfold cursorTo
  split
  · have hlisted : Listed plan.cursor (plan.records.take n) := h.listed.take n
    obtain ⟨k, hk, hvalue, hall⟩ := throughFinished_spec
      (plan.take.messageIds.take plan.pipeline.processedMessages) (plan.records.take n) plan.cursor
    have hsame : throughProcessedRecords plan.cursor
        ((oldestFirst plan.records).take plan.take.recordsTaken)
        (plan.take.messageIds.take plan.pipeline.processedMessages)
        = throughFinished (plan.take.messageIds.take plan.pipeline.processedMessages)
            (plan.records.take n) plan.cursor := by
      rw [throughProcessedRecords, h.listed.oldestFirst, htaken, hlisted.oldestFirst]
    rw [hsame]
    rw [List.take_take] at hvalue hall
    apply h.listed.stands hvalue
    intro record hrecord id hid
    rw [h.finished_eq]
    exact mem_of_finished (hall record hrecord) id hid
  · next hstopped =>
    have hnone : plan.pipeline.readFailure = none := by simpa [stopped] using hstopped
    rw [h.finished_all hnone]
    have hpassed : ∀ record ∈ plan.records.take n, ∀ id ∈ record.messageIds,
        id ∈ plan.take.messageIds := fun record hrecord id hid => (hids id).2 ⟨record, hrecord, hid⟩
    split
    · exact h.listed.stands hthrough hpassed
    · next hmore =>
      simp only [moreToDo, Bool.or_eq_true, Bool.not_eq_true', decide_eq_true_eq, not_or] at hmore
      have hexhausted : plan.historyExhausted = true := by simpa using hmore.1.2
      have hended : plan.ended = some plan.latestHistoryId := by simp [ended, hexhausted]
      have hall : plan.records.take n = plan.records := by
        apply List.take_of_length_le
        omega
      refine ⟨.inl hended, .inl hended, ?_⟩
      intro record hrecord _ id hid
      apply hpassed record _ id hid
      rw [hall]
      exact hrecord

/-- A run that claims coverage read to the end, took every record and finished them all. -/
theorem complete_of_not_moreToDo (h : plan.moreToDo = false) :
    plan.historyExhausted = true ∧ plan.take.recordsLeft = 0 ∧
      plan.pipeline.readFailure = none ∧ plan.cursorTo = plan.latestHistoryId := by
  have hmore := h
  simp only [moreToDo, Bool.or_eq_false_iff, Bool.not_eq_false', decide_eq_false_iff_not] at hmore
  obtain ⟨⟨hstopped, hexhausted⟩, hleft⟩ := hmore
  refine ⟨hexhausted, by omega, by simpa [stopped] using hstopped, ?_⟩
  simp [cursorTo, h, hstopped]

end SyncPlan

end FoundingSales.Mail
