import FoundingSales.Suppression.Replay

/-!
What a replay's three filters keep: the first record of each event the workspace is missing, its
marked releases whose claim is not lost, and of those that lift one event the earliest.

Proved here:

* `selectRecords_missing`: the records that stay are `keptRecords`, a filter of the records given;
* `selectRecords_accounts`: every missing event is kept or reported, once;
* `keptRecords_rivals`: no two records kept supersede one event.
-/

namespace FoundingSales.Suppression

open Tables

/-! ## The filters as predicates -/

/-- The first record of each event id. -/
def firstOfEach : List JournalRecord → List JournalRecord
  | [] => []
  | record :: rest =>
    record :: (firstOfEach rest).filter fun other => other.eventId ≠ record.eventId

/-- A record of this workspace whose event is not in the database. -/
def missingHere (c : ReplayContext) (db : Database) (record : JournalRecord) : Bool :=
  record.workspaceId = c.workspaceId && (db.events.find? record.eventId).isNone

/-- The records this workspace is missing, once each. -/
def missingRecords (c : ReplayContext) (db : Database) (records : List JournalRecord) :
    List JournalRecord :=
  firstOfEach (records.filter (missingHere c db))

/-- A release without its marker. -/
def JournalRecord.unmarked (record : JournalRecord) : Bool :=
  record.supersedesEventId.isSome && !record.committed

/-- Whether a correction's claim is lost: its original is decided, or is a terminal record among
the missing ones, an unmarked release read earlier not counted. -/
def lostClaim (db : Database) (missing : List JournalRecord) (record : JournalRecord) : Bool :=
  record.takesBack.any fun original =>
    match db.finalizations.find? original with
    | some decided => decided.outcome = .finalized
    | none => missing.any fun other => other.eventId = original && other.terminal &&
        !(other.unmarked && other ∈ missing.takeWhile fun earlier =>
          earlier.eventId ≠ record.eventId)

/-- A stop, or a marked release whose claim is not lost. -/
def validRecord (db : Database) (missing : List JournalRecord) (record : JournalRecord) : Bool :=
  record.supersedesEventId.isNone || (record.committed && !lostClaim db missing record)

/-- A stop, or the first of those that lift an event which nothing lifts yet. -/
def winsRace (c : ReplayContext) (db : Database) (valid : List JournalRecord)
    (record : JournalRecord) : Bool :=
  record.supersedesEventId.all fun original => !db.superseded original &&
    (c.order.sort (rivalsOf valid original)).head? = some record

def validRecords (c : ReplayContext) (db : Database) (records : List JournalRecord) :
    List JournalRecord :=
  (missingRecords c db records).filter (validRecord db (missingRecords c db records))

def keptRecords (c : ReplayContext) (db : Database) (records : List JournalRecord) :
    List JournalRecord :=
  (validRecords c db records).filter (winsRace c db (validRecords c db records))

/-! ## Records known by their ids -/

section Ids

variable {missing rest front : List JournalRecord} {record other : JournalRecord}
variable {eventId : JsString}

def DistinctIds (missing : List JournalRecord) : Prop :=
  (missing.map JournalRecord.eventId).Nodup

theorem DistinctIds.eq_of_id (h : DistinctIds missing) (hr : record ∈ missing)
    (ho : other ∈ missing) (hid : record.eventId = other.eventId) : record = other :=
  List.inj_on_of_nodup_map h hr ho hid

theorem DistinctIds.filter (h : DistinctIds missing) (p : JournalRecord → Bool) :
    DistinctIds (missing.filter p) :=
  (List.filter_sublist.map _).nodup h

theorem getRecord_eq_some (h : DistinctIds missing) :
    getRecord missing eventId = some record ↔ record ∈ missing ∧ record.eventId = eventId := by
  constructor
  · intro hget
    exact ⟨List.mem_of_find?_eq_some hget, by simpa using List.find?_some hget⟩
  · rintro ⟨hmem, rfl⟩
    cases hget : getRecord missing record.eventId with
    | none =>
      have hne := List.find?_eq_none.1 hget record hmem
      simp only [decide_true, not_true_eq_false] at hne
    | some found =>
      have hid : found.eventId = record.eventId := by simpa using List.find?_some hget
      rw [h.eq_of_id (List.mem_of_find?_eq_some hget) hmem hid]

theorem getRecord_isNone : (getRecord missing eventId).isNone = true ↔
    ∀ record ∈ missing, record.eventId ≠ eventId := by
  rw [Option.isNone_iff_eq_none, getRecord, List.find?_eq_none]
  simp only [decide_eq_true_eq]

/-- Deleting the record between two parts that do not carry its id. -/
theorem deleteRecord_middle (h : DistinctIds (front ++ record :: rest)) :
    deleteRecord (front ++ record :: rest) record.eventId = front ++ rest := by
  rw [DistinctIds, List.map_append, List.map_cons] at h
  obtain ⟨-, hrest, hdisjoint⟩ := List.nodup_append'.1 h
  have hfront : ∀ x ∈ front, x.eventId ≠ record.eventId := by
    intro x hx heq
    exact hdisjoint (List.mem_map_of_mem hx) (heq ▸ List.mem_cons_self)
  have hback : ∀ x ∈ rest, x.eventId ≠ record.eventId := by
    intro x hx heq
    exact (List.nodup_cons.1 hrest).1 (heq ▸ List.mem_map_of_mem hx)
  have hself : (decide (record.eventId ≠ record.eventId)) = false := by simp
  rw [deleteRecord, List.filter_append, List.filter_cons_of_neg (by simp),
    List.filter_eq_self.2 fun x hx => decide_eq_true (hfront x hx),
    List.filter_eq_self.2 fun x hx => decide_eq_true (hback x hx)]

theorem mem_firstOfEach {records : List JournalRecord} (h : record ∈ firstOfEach records) :
    record ∈ records := by
  induction records with
  | nil => exact absurd h List.not_mem_nil
  | cons first rest ih =>
    rcases List.mem_cons.1 h with rfl | h
    · exact List.mem_cons_self
    · exact List.mem_cons_of_mem _ (ih (List.mem_filter.1 h).1)

theorem firstOfEach_distinct (records : List JournalRecord) :
    DistinctIds (firstOfEach records) := by
  induction records with
  | nil => exact List.nodup_nil
  | cons first rest ih =>
    apply List.nodup_cons.2
    refine ⟨?_, DistinctIds.filter ih _⟩
    intro hin
    obtain ⟨other, hother, hid⟩ := List.mem_map.1 hin
    exact of_decide_eq_true (List.mem_filter.1 hother).2 hid

theorem firstOfEach_ids {records : List JournalRecord} (h : record ∈ records) :
    ∃ first ∈ firstOfEach records, first.eventId = record.eventId := by
  induction records with
  | nil => exact absurd h List.not_mem_nil
  | cons first rest ih =>
    by_cases hid : record.eventId = first.eventId
    · exact ⟨first, List.mem_cons_self, hid.symm⟩
    · rcases List.mem_cons.1 h with rfl | h
      · exact absurd rfl hid
      · obtain ⟨other, hother, hsame⟩ := ih h
        refine ⟨other, List.mem_cons_of_mem _ (List.mem_filter.2 ⟨hother, ?_⟩), hsame⟩
        rw [hsame]
        exact decide_eq_true hid

end Ids

/-! ## Reading -/

theorem missingRecords_cons (c : ReplayContext) (db : Database) (record : JournalRecord)
    (rest : List JournalRecord) :
    missingRecords c db (record :: rest) =
      if record.workspaceId = c.workspaceId ∧ db.events.find? record.eventId = none then
        record :: (missingRecords c db rest).filter fun other => other.eventId ≠ record.eventId
      else missingRecords c db rest := by
  by_cases h : record.workspaceId = c.workspaceId ∧ db.events.find? record.eventId = none
  · have hhere : missingHere c db record = true := by simp [missingHere, h]
    rw [if_pos h, missingRecords, List.filter_cons_of_pos hhere]
    rfl
  · have hhere : ¬ missingHere c db record = true := by simpa [missingHere] using h
    rw [if_neg h, missingRecords, List.filter_cons_of_neg hhere]
    rfl

theorem getRecord_append (missing : List JournalRecord) (record : JournalRecord)
    (eventId : JsString) :
    (getRecord (missing ++ [record]) eventId).isNone
      = ((getRecord missing eventId).isNone && decide (record.eventId ≠ eventId)) := by
  rw [Bool.eq_iff_iff, Bool.and_eq_true, getRecord_isNone, getRecord_isNone]
  simp [or_imp, forall_and]

theorem readRecord_fold (c : ReplayContext) (db : Database) (records : List JournalRecord)
    (s : Reading) :
    (records.foldl (readRecord c db) s).missing = s.missing ++
      (missingRecords c db records).filter fun record =>
        (getRecord s.missing record.eventId).isNone := by
  induction records generalizing s with
  | nil => simp only [List.foldl_nil, missingRecords, List.filter_nil, firstOfEach, List.append_nil]
  | cons record rest ih =>
    rw [List.foldl_cons, ih, missingRecords_cons]
    unfold readRecord
    by_cases hforeign : record.workspaceId ≠ c.workspaceId
    · rw [if_pos hforeign, if_neg fun h => hforeign h.1]
    · rw [if_neg hforeign]
      by_cases hknown : (getRecord s.missing record.eventId).isSome = true
      · rw [if_pos hknown]
        split
        · have hdrop : (getRecord s.missing record.eventId).isNone = false := by
            simpa using hknown
          rw [List.filter_cons_of_neg (by simp [hdrop]), List.filter_filter]
          congr 1
          apply List.filter_congr
          intro other _
          by_cases hid : other.eventId = record.eventId
          · rw [hid, hdrop, Bool.false_and]
          · rw [decide_eq_true hid, Bool.and_true]
        · rfl
      · rw [if_neg hknown]
        have hnone : (getRecord s.missing record.eventId).isNone = true := by simpa using hknown
        by_cases hpresent : (db.events.find? record.eventId).isSome = true
        · rw [if_pos hpresent, if_neg]
          rintro ⟨-, habsent⟩
          rw [habsent] at hpresent
          cases hpresent
        · have habsent : db.events.find? record.eventId = none := by simpa using hpresent
          rw [if_neg hpresent, if_pos ⟨not_not.1 hforeign, habsent⟩,
            List.filter_cons_of_pos (by simpa using hnone), List.filter_filter,
            List.append_assoc, List.singleton_append]
          congr 2
          apply List.filter_congr
          intro other _
          rw [getRecord_append]
          congr 1
          exact decide_eq_decide.2 ne_comm

theorem readRecords_missing (c : ReplayContext) (db : Database) (records : List JournalRecord) :
    (records.foldl (readRecord c db) ⟨[], 0, 0⟩).missing = missingRecords c db records := by
  rw [readRecord_fold]
  simp [getRecord]

/-! ## Checking releases -/

theorem terminal_takesBack {record : JournalRecord} (h : record.terminal = true) :
    record.takesBack = none := by
  unfold JournalRecord.takesBack
  split
  · next hcorrection =>
    rw [Bool.and_eq_true, decide_eq_true_eq] at hcorrection
    rw [JournalRecord.terminal, hcorrection.1] at h
    exact absurd h (by decide)
  · rfl

/-- A terminal record stays through the check unless it is an unmarked release. -/
theorem terminal_valid {db : Database} {missing : List JournalRecord} {record : JournalRecord}
    (h : record.terminal = true) : validRecord db missing record = !record.unmarked := by
  have hlost : lostClaim db missing record = false := by
    rw [lostClaim, terminal_takesBack h]
    rfl
  rw [validRecord, hlost, JournalRecord.unmarked]
  cases record.supersedesEventId <;> cases record.committed <;> rfl

theorem getRecord_any {missing : List JournalRecord} (h : DistinctIds missing)
    (eventId : JsString) (p : JournalRecord → Bool) :
    (getRecord missing eventId).any p = missing.any fun other => other.eventId = eventId && p other := by
  rw [Bool.eq_iff_iff, Option.any_eq_true, List.any_eq_true]
  constructor
  · rintro ⟨record, hget, hp⟩
    obtain ⟨hmem, hid⟩ := (getRecord_eq_some h).1 hget
    exact ⟨record, hmem, by rw [hid, hp]; simp⟩
  · rintro ⟨record, hmem, hp⟩
    rw [Bool.and_eq_true, decide_eq_true_eq] at hp
    exact ⟨record, (getRecord_eq_some h).2 ⟨hmem, hp.1⟩, hp.2⟩

section Front

variable {front rest : List JournalRecord} {record : JournalRecord}

/-- What was read before a record. -/
theorem takeWhile_front (h : DistinctIds (front ++ record :: rest)) :
    ((front ++ record :: rest).takeWhile fun earlier => earlier.eventId ≠ record.eventId)
      = front := by
  rw [DistinctIds, List.map_append, List.map_cons] at h
  have hfront : ∀ x ∈ front, decide (x.eventId ≠ record.eventId) = true := by
    intro x hx
    apply decide_eq_true
    intro heq
    exact (List.nodup_append'.1 h).2.2 (List.mem_map_of_mem hx) (heq ▸ List.mem_cons_self)
  rw [List.takeWhile_append_of_pos hfront, List.takeWhile_cons_of_neg (by simp), List.append_nil]

theorem DistinctIds.not_front (h : DistinctIds (front ++ record :: rest)) {other : JournalRecord}
    (ho : other ∈ record :: rest) : other ∉ front := by
  intro hfront
  rw [DistinctIds, List.map_append] at h
  exact (List.nodup_append'.1 h).2.2 (List.mem_map_of_mem hfront) (List.mem_map_of_mem ho)

/-- The check of a record sees what of the earlier ones is left, and all later ones. -/
theorem claimLost_eq {db : Database} (h : DistinctIds (front ++ record :: rest)) :
    record.takesBack.any (claimLost db
        (front.filter (validRecord db (front ++ record :: rest)) ++ record :: rest))
      = lostClaim db (front ++ record :: rest) record := by
  have hleft : DistinctIds
      (front.filter (validRecord db (front ++ record :: rest)) ++ record :: rest) :=
    ((List.filter_sublist.append_right _).map _).nodup h
  unfold lostClaim
  congr 1
  funext original
  unfold claimLost
  cases db.finalizations.find? original with
  | some decided => rfl
  | none =>
    simp only [getRecord_any hleft, takeWhile_front h]
    rw [Bool.eq_iff_iff, List.any_eq_true, List.any_eq_true]
    simp only [Bool.and_eq_true, decide_eq_true_eq, Bool.not_eq_true', Bool.and_eq_false_imp,
      decide_eq_false_iff_not]
    constructor
    · rintro ⟨other, hmem, hid, hterminal⟩
      rcases List.mem_append.1 hmem with hin | hin
      · obtain ⟨hfront, hvalid⟩ := List.mem_filter.1 hin
        rw [terminal_valid hterminal, Bool.not_eq_true'] at hvalid
        refine ⟨other, List.mem_append_left _ hfront, ⟨hid, hterminal⟩, ?_⟩
        intro hunmarked
        rw [hvalid] at hunmarked
        cases hunmarked
      · exact ⟨other, List.mem_append_right _ hin, ⟨hid, hterminal⟩, fun _ => h.not_front hin⟩
    · rintro ⟨other, hmem, ⟨hid, hterminal⟩, hread⟩
      refine ⟨other, ?_, hid, hterminal⟩
      rcases List.mem_append.1 hmem with hfront | hin
      · apply List.mem_append_left
        apply List.mem_filter.2
        refine ⟨hfront, ?_⟩
        rw [terminal_valid hterminal, Bool.not_eq_true', Bool.eq_false_iff]
        exact fun hunmarked => hread hunmarked hfront
      · exact List.mem_append_right _ hin

end Front

section Check

variable {db : Database} {missing : List JournalRecord} {record : JournalRecord} {s : Validity}

theorem checkRelease_valid (hlost : record.takesBack.any (claimLost db s.missing)
      = lostClaim db missing record) (h : validRecord db missing record = true) :
    checkRelease db s record = s := by
  unfold checkRelease
  split
  · rfl
  · next hsome =>
    rw [validRecord, Bool.or_eq_true] at h
    have hmarked := h.resolve_left hsome
    rw [Bool.and_eq_true, Bool.not_eq_true'] at hmarked
    rw [if_neg (by rw [hmarked.1]; exact Bool.false_ne_true), if_neg]
    rw [hlost, hmarked.2]
    exact Bool.false_ne_true

theorem checkRelease_invalid (hlost : record.takesBack.any (claimLost db s.missing)
      = lostClaim db missing record) (h : validRecord db missing record = false) :
    (checkRelease db s record).missing = deleteRecord s.missing record.eventId ∧
      ((checkRelease db s record).unverifiedLegacyReleases
        ++ (checkRelease db s record).staleCorrections).Perm
        ((s.unverifiedLegacyReleases ++ s.staleCorrections) ++ [record.eventId]) := by
  rw [validRecord, Bool.or_eq_false_iff] at h
  unfold checkRelease
  rw [if_neg (by rw [h.1]; exact Bool.false_ne_true)]
  split
  · refine ⟨rfl, ?_⟩
    show ((s.unverifiedLegacyReleases ++ [record.eventId]) ++ s.staleCorrections).Perm _
    rw [List.append_assoc, List.append_assoc]
    exact List.Perm.append_left _ List.perm_append_comm
  · next hmarked =>
    rw [Bool.not_eq_true, Bool.not_eq_false'] at hmarked
    have hstale : lostClaim db missing record = true := by
      have hand := h.2
      rw [hmarked, Bool.true_and, Bool.not_eq_false'] at hand
      exact hand
    rw [if_pos (hlost.trans hstale)]
    refine ⟨rfl, ?_⟩
    show (s.unverifiedLegacyReleases ++ (s.staleCorrections ++ [record.eventId])).Perm _
    rw [List.append_assoc]

/-- After the check of `front`: what of it is valid, and the rest as it was. -/
theorem checkRelease_fold {front rest : List JournalRecord} (h : DistinctIds missing)
    (hsplit : missing = front ++ rest)
    (hs : s.missing = front.filter (validRecord db missing) ++ rest)
    (hreported : (s.unverifiedLegacyReleases ++ s.staleCorrections).Perm
      ((front.filter fun record => !validRecord db missing record).map JournalRecord.eventId)) :
    (rest.foldl (checkRelease db) s).missing = missing.filter (validRecord db missing) ∧
      ((rest.foldl (checkRelease db) s).unverifiedLegacyReleases
        ++ (rest.foldl (checkRelease db) s).staleCorrections).Perm
        ((missing.filter fun record => !validRecord db missing record).map
          JournalRecord.eventId) := by
  induction rest generalizing front s with
  | nil =>
    rw [List.append_nil] at hs hsplit
    rw [← hsplit] at hs hreported
    exact ⟨hs, hreported⟩
  | cons record rest ih =>
    have hlost : record.takesBack.any (claimLost db s.missing) = lostClaim db missing record := by
      rw [hs]
      rw [hsplit] at h ⊢
      exact claimLost_eq h
    have hsplit' : missing = (front ++ [record]) ++ rest := by
      rw [hsplit, List.append_assoc, List.singleton_append]
    rw [List.foldl_cons]
    cases hvalid : validRecord db missing record with
    | true =>
      rw [checkRelease_valid hlost hvalid]
      apply ih hsplit'
      · rw [hs, List.filter_append, List.filter_cons_of_pos hvalid, List.filter_nil,
          List.append_assoc, List.singleton_append]
      · rw [List.filter_append, List.filter_cons_of_neg (by simp [hvalid]), List.filter_nil,
          List.append_nil]
        exact hreported
    | false =>
      obtain ⟨hdeleted, hperm⟩ := checkRelease_invalid hlost hvalid
      apply ih hsplit'
      · have hleft : DistinctIds (front.filter (validRecord db missing) ++ record :: rest) := by
          rw [hsplit] at h
          exact ((List.filter_sublist.append_right _).map _).nodup h
        rw [hdeleted, hs, deleteRecord_middle hleft, List.filter_append,
          List.filter_cons_of_neg (by simp [hvalid]), List.filter_nil, List.append_nil]
      · rw [List.filter_append, List.filter_cons_of_pos (by simp [hvalid]), List.filter_nil,
          List.map_append, List.map_cons, List.map_nil]
        exact hperm.trans (hreported.append_right _)

end Check

/-! ## One supersession lifts an event -/

private theorem nodup_eraseDups (l : List JsString) : l.eraseDups.Nodup := by
  induction hn : l.length using Nat.strong_induction_on generalizing l with
  | h n ih =>
    cases l with
    | nil => exact List.nodup_nil
    | cons a rest =>
      rw [List.eraseDups_cons]
      apply List.nodup_cons.2
      constructor
      · rw [List.mem_eraseDups, List.mem_filter]
        simp
      · apply ih _ _ _ rfl
        rw [← hn]
        exact Nat.lt_succ_of_le (List.length_filter_le _ _)

section Race

variable (c : ReplayContext) (db : Database) {valid : List JournalRecord}
variable {record other : JournalRecord} {original : JsString}

theorem mem_sort_rivals :
    record ∈ c.order.sort (rivalsOf valid original) ↔
      record ∈ valid ∧ record.supersedesEventId = some original := by
  rw [(c.order.perm _).mem_iff, rivalsOf, List.mem_filter, decide_eq_true_eq]

theorem sort_rivals_nodup (h : DistinctIds valid) :
    (c.order.sort (rivalsOf valid original)).Nodup :=
  (c.order.perm _).nodup_iff.2 (h.filter _).of_map

/-- The losers of the race for an event: those who supersede it and do not win. -/
theorem mem_losersOf (h : DistinctIds valid) :
    record ∈ losersOf c db valid original ↔
      record ∈ valid ∧ record.supersedesEventId = some original ∧
        winsRace c db valid record = false := by
  have hnodup : (c.order.sort (rivalsOf valid original)).Nodup := sort_rivals_nodup c h
  have hmem : ∀ r, r ∈ c.order.sort (rivalsOf valid original) ↔
      r ∈ valid ∧ r.supersedesEventId = some original := fun r => mem_sort_rivals c
  unfold losersOf
  rw [← and_assoc, ← hmem record]
  generalize hsort : c.order.sort (rivalsOf valid original) = ordered at *
  have hwins : record.supersedesEventId = some original →
      winsRace c db valid record = (!db.superseded original && ordered.head? = some record) := by
    intro hsuper
    rw [winsRace, hsuper, Option.all_some, hsort]
  by_cases hlifted : db.superseded original = true
  · rw [if_pos hlifted]
    constructor
    · intro hin
      refine ⟨hin, ?_⟩
      rw [hwins ((hmem record).1 hin).2, hlifted, Bool.not_true, Bool.false_and]
    · exact And.left
  · rw [Bool.not_eq_true] at hlifted
    rw [hlifted, if_neg Bool.false_ne_true]
    cases ordered with
    | nil => simp only [List.drop_nil, List.not_mem_nil, false_and]
    | cons first later =>
      rw [List.drop_one, List.tail_cons]
      constructor
      · intro hin
        have hin' : record ∈ first :: later := List.mem_cons_of_mem _ hin
        refine ⟨hin', ?_⟩
        have hne : first ≠ record := by
          rintro rfl
          exact (List.nodup_cons.1 hnodup).1 hin
        rw [hwins ((hmem record).1 hin').2, List.head?_cons]
        simp [hne]
      · rintro ⟨hin, hloses⟩
        rw [hwins ((hmem record).1 hin).2, hlifted, List.head?_cons] at hloses
        rcases List.mem_cons.1 hin with rfl | hlater
        · simp at hloses
        · exact hlater

theorem dropLoser_fold (losers : List JournalRecord) (s : Competition) :
    (losers.foldl dropLoser s).missing
        = s.missing.filter (fun record => record.eventId ∉ losers.map JournalRecord.eventId) ∧
      (losers.foldl dropLoser s).competingSupersessions
        = s.competingSupersessions ++ losers.map JournalRecord.eventId := by
  induction losers generalizing s with
  | nil => simp
  | cons loser losers ih =>
    obtain ⟨hmissing, hcompeting⟩ := ih (dropLoser s loser)
    rw [List.foldl_cons, hmissing, hcompeting]
    constructor
    · show ((deleteRecord s.missing loser.eventId).filter _) = _
      rw [deleteRecord, List.filter_filter]
      apply List.filter_congr
      intro record _
      simp only [List.map_cons, List.mem_cons, not_or, Bool.decide_and, Bool.and_comm]
    · show (s.competingSupersessions ++ [loser.eventId]) ++ _ = _
      rw [List.append_assoc, List.map_cons, List.singleton_append]

theorem mem_supersededIds :
    original ∈ supersededIds valid ↔ ∃ record ∈ valid, record.supersedesEventId = some original := by
  rw [supersededIds, List.mem_eraseDups, List.mem_filterMap]

/-- All losers of all races. -/
def allLosers (valid : List JournalRecord) : List JournalRecord :=
  (supersededIds valid).flatMap (losersOf c db valid)

theorem mem_allLosers (h : DistinctIds valid) :
    record ∈ allLosers c db valid ↔ record ∈ valid ∧ winsRace c db valid record = false := by
  rw [allLosers, List.mem_flatMap]
  constructor
  · rintro ⟨original, -, hin⟩
    obtain ⟨hvalid, -, hloses⟩ := (mem_losersOf c db h).1 hin
    exact ⟨hvalid, hloses⟩
  · rintro ⟨hvalid, hloses⟩
    cases hsuper : record.supersedesEventId with
    | none =>
      rw [winsRace, hsuper] at hloses
      cases hloses
    | some original =>
      exact ⟨original, mem_supersededIds.2 ⟨record, hvalid, hsuper⟩,
        (mem_losersOf c db h).2 ⟨hvalid, hsuper, hloses⟩⟩

theorem allLosers_nodup (h : DistinctIds valid) : (allLosers c db valid).Nodup := by
  apply List.nodup_flatMap.2
  constructor
  · intro original _
    unfold losersOf
    split
    · exact sort_rivals_nodup c h
    · exact (List.drop_sublist _ _).nodup (sort_rivals_nodup c h)
  · have hids : (supersededIds valid).Nodup := nodup_eraseDups _
    apply hids.imp
    intro first second hne record hfirst hsecond
    have hone := ((mem_losersOf c db h).1 hfirst).2.1
    have htwo := ((mem_losersOf c db h).1 hsecond).2.1
    rw [hone] at htwo
    exact hne (Option.some.inj htwo)

end Race

/-! ## Selecting -/

section Select

variable (c : ReplayContext) (db : Database) (records : List JournalRecord)

theorem missingRecords_distinct : DistinctIds (missingRecords c db records) :=
  firstOfEach_distinct _

theorem validRecords_distinct : DistinctIds (validRecords c db records) :=
  (missingRecords_distinct c db records).filter _

theorem keptRecords_distinct : DistinctIds (keptRecords c db records) :=
  (validRecords_distinct c db records).filter _

/-- The events of this workspace that are in the records and not in the database. -/
theorem mem_missingIds (eventId : JsString) :
    eventId ∈ (missingRecords c db records).map JournalRecord.eventId ↔
      db.events.find? eventId = none ∧
        ∃ record ∈ records, record.workspaceId = c.workspaceId ∧ record.eventId = eventId := by
  rw [List.mem_map]
  constructor
  · rintro ⟨record, hmem, rfl⟩
    obtain ⟨hin, hhere⟩ := List.mem_filter.1 (mem_firstOfEach hmem)
    rw [missingHere, Bool.and_eq_true, decide_eq_true_eq, Option.isNone_iff_eq_none] at hhere
    exact ⟨hhere.2, record, hin, hhere.1, rfl⟩
  · rintro ⟨habsent, record, hin, hworkspace, rfl⟩
    have hhere : missingHere c db record = true := by
      rw [missingHere, Bool.and_eq_true, decide_eq_true_eq, Option.isNone_iff_eq_none]
      exact ⟨hworkspace, habsent⟩
    exact firstOfEach_ids (List.mem_filter.2 ⟨hin, hhere⟩)

/-- What the check of the releases leaves and reports. -/
theorem validity_spec :
    let read := records.foldl (readRecord c db) ⟨[], 0, 0⟩
    let valid := read.missing.foldl (checkRelease db) ⟨read.missing, [], []⟩
    valid.missing = validRecords c db records ∧
      (valid.unverifiedLegacyReleases ++ valid.staleCorrections).Perm
        (((missingRecords c db records).filter fun record =>
          !validRecord db (missingRecords c db records) record).map JournalRecord.eventId) := by
  intro read valid
  have hread : read.missing = missingRecords c db records := readRecords_missing c db records
  have hvalid : valid = (missingRecords c db records).foldl (checkRelease db)
      ⟨missingRecords c db records, [], []⟩ := by
    rw [← hread]
  rw [hvalid]
  apply checkRelease_fold (missingRecords_distinct c db records) (List.nil_append _).symm
  · rfl
  · exact List.Perm.refl _

/-- The records that stay. -/
theorem selectRecords_missing :
    (selectRecords c db records).missing = keptRecords c db records := by
  have hvalid := (validity_spec c db records).1
  have hdistinct := validRecords_distinct c db records
  have hchosen : (selectRecords c db records).missing
      = ((allLosers c db (validRecords c db records)).foldl dropLoser
        ⟨validRecords c db records, []⟩).missing := by
    simp only [selectRecords, hvalid, allLosers]
  rw [hchosen, (dropLoser_fold _ _).1, keptRecords]
  apply List.filter_congr
  intro record hin
  have hids : record.eventId ∈ (allLosers c db (validRecords c db records)).map
      JournalRecord.eventId ↔ winsRace c db (validRecords c db records) record = false := by
    rw [List.mem_map]
    constructor
    · rintro ⟨loser, hloser, hid⟩
      obtain ⟨hmem, hloses⟩ := (mem_allLosers c db hdistinct).1 hloser
      rwa [← hdistinct.eq_of_id hmem hin hid]
    · intro hloses
      exact ⟨record, (mem_allLosers c db hdistinct).2 ⟨hin, hloses⟩, rfl⟩
  cases hwins : winsRace c db (validRecords c db records) record with
  | true =>
    rw [hwins] at hids
    exact decide_eq_true fun hmem => Bool.noConfusion (hids.1 hmem)
  | false => exact decide_eq_false (not_not.2 (hids.2 hwins))

/-- Every missing event is kept or reported, once. -/
theorem selectRecords_accounts :
    let selection := selectRecords c db records
    (selection.missing.map JournalRecord.eventId ++ (selection.competingSupersessions ++
        (selection.unverifiedLegacyReleases ++ selection.staleCorrections))).Perm
      ((missingRecords c db records).map JournalRecord.eventId) := by
  intro selection
  obtain ⟨hvalid, hreported⟩ := validity_spec c db records
  have hdistinct := validRecords_distinct c db records
  have hcompeting : selection.competingSupersessions
      = (allLosers c db (validRecords c db records)).map JournalRecord.eventId := by
    have hfold := (dropLoser_fold (allLosers c db (validRecords c db records))
      ⟨validRecords c db records, []⟩).2
    rw [List.nil_append] at hfold
    rw [← hfold]
    simp only [selection, selectRecords, hvalid, allLosers]
  have hlosers : (allLosers c db (validRecords c db records)).Perm
      ((validRecords c db records).filter fun record =>
        !winsRace c db (validRecords c db records) record) := by
    apply (List.perm_ext_iff_of_nodup (allLosers_nodup c db hdistinct)
      (hdistinct.filter _).of_map).2
    intro record
    rw [mem_allLosers c db hdistinct, List.mem_filter, Bool.not_eq_true']
  have hraces : (selection.missing.map JournalRecord.eventId
      ++ selection.competingSupersessions).Perm
      ((validRecords c db records).map JournalRecord.eventId) := by
    rw [hcompeting, selectRecords_missing, ← List.map_append]
    apply List.Perm.map
    exact (List.Perm.append_left _ hlosers).trans
      (List.filter_append_perm (winsRace c db (validRecords c db records)) _)
  rw [← List.append_assoc]
  have hall := hraces.append hreported
  rw [← List.map_append] at hall
  exact hall.trans ((List.filter_append_perm _ _).map _)

/-- No two records kept supersede one event. -/
theorem keptRecords_rivals {record other : JournalRecord} {original : JsString}
    (hr : record ∈ keptRecords c db records) (ho : other ∈ keptRecords c db records)
    (hrecord : record.supersedesEventId = some original)
    (hother : other.supersedesEventId = some original) : record = other := by
  have hfirst : ∀ r ∈ keptRecords c db records, r.supersedesEventId = some original →
      (c.order.sort (rivalsOf (validRecords c db records) original)).head? = some r := by
    intro r hr hsuper
    have hwins := (List.mem_filter.1 hr).2
    rw [winsRace, hsuper, Option.all_some, Bool.and_eq_true, decide_eq_true_eq] at hwins
    exact hwins.2
  have hone := hfirst record hr hrecord
  rw [hfirst other ho hother] at hone
  exact (Option.some.inj hone).symm

end Select

end FoundingSales.Suppression
