import FoundingSales.Crm.Merges
import FoundingSales.Suppression.Lifting

/-!
What a merge does to the suppressions. The source is not merged yet, so none of its events
has a copy; each is copied once, after what it supersedes.

Proved here:
* `preserveFirmSuppressions_spec`: every event of the source is copied, and no `INSERT` fails;
* `mergeFirms_cases` and `mergeFirms_of_allowed`: nothing changed, or `Merged`;
* `Merged.effectiveOn_iff`: the target is suppressed on a channel if it was or the source was.
-/

namespace FoundingSales.Crm

open Tables Suppression Relation

variable {db db' : Database} {c : Context} {source target : FirmId} {commandId : Option JsString}

/-! ## The order of the copies -/

/-- What an event of the firm supersedes. -/
def supersededOn (onSource : List SuppressionEvent) (eventId : JsString) : Option JsString :=
  (onSource.find? fun row => row.eventId = eventId).bind SuppressionEvent.supersedesEventId

namespace Copying

theorem insertCopy_entered (st : Copying) (entered : List JsString) (eventId : JsString) :
    insertCopy c target commandId { st with done := entered } eventId
      = { insertCopy c target commandId st eventId with done := entered } := by
  obtain ⟨run, done, journalled, releases⟩ := st
  cases run with
  | error e => rfl
  | ok db =>
    simp only [insertCopy]
    split
    · rfl
    cases db.events.find? eventId with
    | none => rfl
    | some original =>
      dsimp only
      split <;> rfl

theorem foldl_insertCopy_entered (st : Copying) (entered order : List JsString) :
    order.foldl (insertCopy c target commandId) { st with done := entered }
      = { order.foldl (insertCopy c target commandId) st with done := entered } := by
  induction order generalizing st with
  | nil => rfl
  | cons eventId order ih =>
    simp only [List.foldl_cons, insertCopy_entered]
    exact ih _

/-- The copying inserts in the order of a depth-first visit. -/
theorem copy_eq_visit {onSource : List SuppressionEvent}
    (hpresent : ∀ row ∈ onSource, ∀ id, row.supersedesEventId = some id →
      onSource.any (fun other => other.eventId = id) = true)
    (fuel : Nat) (st : Copying) (eventId : JsString) :
    st.copy c target commandId onSource fuel eventId =
      { (Links.visit (supersededOn onSource) fuel st.done eventId).2.foldl
          (insertCopy c target commandId) st with
        done := (Links.visit (supersededOn onSource) fuel st.done eventId).1 } := by
  induction fuel generalizing st eventId with
  | zero => rfl
  | succ fuel ih =>
    by_cases hdone : eventId ∈ st.done
    · simp only [copy, Links.visit, if_pos hdone]
      rfl
    cases hnext : supersededOn onSource eventId with
    | none =>
      have hbind := hnext
      unfold supersededOn at hbind
      simp only [copy, Links.visit, if_neg hdone, hnext, hbind, List.foldl_cons, List.foldl_nil]
      exact insertCopy_entered st _ eventId
    | some superseded =>
      have hbind := hnext
      unfold supersededOn at hbind
      obtain ⟨row, hfind, hrow⟩ := Option.bind_eq_some_iff.1 hbind
      have hany := hpresent row (List.mem_of_find?_eq_some hfind) superseded hrow
      simp only [copy, Links.visit, if_neg hdone, hnext, hbind, if_pos hany, ih,
        List.foldl_append, List.foldl_cons, List.foldl_nil, foldl_insertCopy_entered,
        insertCopy_entered]

end Copying

/-! ## The copies -/

theorem copyRow_supersedes {event : SuppressionEvent} {id : JsString} :
    (copyRow c target commandId event).supersedesEventId = some id ↔
      ∃ original, event.supersedesEventId = some original ∧
        mergeCopyId original target.text = id := by
  simp only [copyRow, Option.map_eq_some_iff]

theorem mergeCopyId_left {id id' : JsString}
    (h : mergeCopyId id target.text = mergeCopyId id' target.text) : id = id' :=
  (mergeCopyId_injective target.atSign_not_mem target.atSign_not_mem h).1

theorem copyRow_checks (hs : Sound db) {event : SuppressionEvent} (hevent : event ∈ db.events) :
    suppressionChecks (copyRow c target commandId event) = true := by
  have hchecks := hs.checks event hevent
  simp only [suppressionChecks, Bool.and_eq_true] at hchecks
  simp only [suppressionChecks, copyRow, Bool.and_eq_true, Option.isSome_map, Option.isNone_map]
  exact ⟨hchecks.1, rfl⟩

/-- Events of one firm with no copies yet, each after what it supersedes. -/
structure Copyable (db : Database) (target : FirmId) (events : List SuppressionEvent) : Prop where
  logged : ∀ event ∈ events, event ∈ db.events
  scope : ∀ event ∈ events, event.scope = .firm
  fresh : ∀ event ∈ events, ∀ row ∈ db.events,
    row.eventId ≠ mergeCopyId event.eventId target.text
  nodup : events.Nodup
  after : ∀ front event back, events = front ++ event :: back → ∀ id,
    event.supersedesEventId = some id → ∃ original ∈ front, original.eventId = id

theorem Copyable.dropLast {events : List SuppressionEvent} {last : SuppressionEvent}
    (h : Copyable db target (events ++ [last])) : Copyable db target events where
  logged event hevent := h.logged event (List.mem_append_left _ hevent)
  scope event hevent := h.scope event (List.mem_append_left _ hevent)
  fresh event hevent := h.fresh event (List.mem_append_left _ hevent)
  nodup := (List.nodup_append.1 h.nodup).1
  after front event back heq :=
    h.after front event (back ++ [last]) (by rw [heq, List.append_assoc, List.cons_append])

/-- The last copy of some can be written after the others. -/
private theorem insert_last (c : Context) (commandId : Option JsString) (hs : Sound db)
    {events : List SuppressionEvent}
    {last : SuppressionEvent} (h : Copyable db target (events ++ [last])) {mid : Database}
    (hrows : mid.events.rows = db.events.rows ++ events.map (copyRow c target commandId)) :
    mid.events.find? (mergeCopyId last.eventId target.text) = none ∧
      ∃ db', mid.insertEvent (copyRow c target commandId last) = .ok db' := by
  have hlast : last ∈ events ++ [last] := by simp
  have hmem : ∀ r, r ∈ mid.events ↔ r ∈ db.events ∨
      ∃ event ∈ events, copyRow c target commandId event = r := by
    intro r
    rw [← Table.mem_rows, hrows, List.mem_append, List.mem_map]
    exact Iff.rfl
  have hapart : ∀ event ∈ events, event.eventId ≠ last.eventId := by
    intro event hevent heq
    have hin := h.logged event (List.mem_append_left _ hevent)
    obtain rfl := Table.eq_of_key_eq hin (h.logged last hlast) heq
    have hnodup := h.nodup
    rw [List.nodup_append] at hnodup
    exact hnodup.2.2 event hevent event (by simp) rfl
  have hfresh : ∀ r ∈ mid.events, r.eventId ≠ mergeCopyId last.eventId target.text := by
    intro r hr heq
    rcases (hmem r).1 hr with hr | ⟨event, hevent, rfl⟩
    · exact h.fresh last hlast r hr heq
    · exact hapart event hevent (mergeCopyId_left heq)
  refine ⟨Table.find?_eq_none.2 hfresh,
    insertEvent_succeeds hfresh (copyRow_checks hs (h.logged last hlast)) ?_ ?_⟩
  · intro id hid
    obtain ⟨original, horiginal, rfl⟩ := copyRow_supersedes.1 hid
    obtain ⟨logged, hlogged, rfl⟩ := h.after events last [] rfl original horiginal
    by_contra hup
    obtain ⟨r, hr, hrid⟩ := superseded_iff.1 (eq_true_of_ne_false hup)
    rcases (hmem r).1 hr with hr | ⟨event, hevent, rfl⟩
    · obtain ⟨copy, hcopy, hcopyId, -⟩ := hs.original hr hrid
      exact h.fresh logged (List.mem_append_left _ hlogged) copy hcopy hcopyId
    · obtain ⟨original', horiginal', heq⟩ := copyRow_supersedes.1 hrid
      rw [mergeCopyId_left heq] at horiginal'
      have hsame := hs.once event (h.logged event (List.mem_append_left _ hevent)) last
        (h.logged last hlast) _ horiginal' horiginal
      exact hapart event hevent (by rw [hsame])
  · intro id hid
    obtain ⟨original, horiginal, rfl⟩ := copyRow_supersedes.1 hid
    obtain ⟨logged, hlogged, rfl⟩ := h.after events last [] rfl original horiginal
    refine ⟨copyRow c target commandId logged, (hmem _).2 (.inr ⟨logged, hlogged, rfl⟩), rfl, rfl,
      rfl, ?_⟩
    exact (hs.same last (h.logged last hlast) logged
      (h.logged logged (List.mem_append_left _ hlogged)) horiginal).channel

theorem Copyable.backward (hs : Sound db) {events : List SuppressionEvent}
    (h : Copyable db target events) :
    Links.Backward SuppressionEvent.eventId SuppressionEvent.supersedesEventId
      (db.events.rows ++ events.map (copyRow c target commandId)) := by
  induction events using List.reverseRecOn with
  | nil =>
    rw [List.map_nil, List.append_nil]
    exact hs.backward
  | append_singleton events last ih =>
    rw [List.map_append, ← List.append_assoc]
    refine (Links.backward_append _ _).2 ⟨ih h.dropLast, fun id hid => ?_⟩
    obtain ⟨original, horiginal, rfl⟩ := copyRow_supersedes.1 hid
    obtain ⟨logged, hlogged, rfl⟩ := h.after events last [] rfl original horiginal
    exact ⟨_, List.mem_append_right _ (List.mem_map_of_mem hlogged), rfl⟩

theorem foldl_insertCopy_spec (c : Context) (commandId : Option JsString) (hs : Sound db)
    {events : List SuppressionEvent}
    (h : Copyable db target events) (entered : List JsString) :
    ∃ db', (events.map SuppressionEvent.eventId).foldl (Copying.insertCopy c target commandId)
        ⟨.ok db, entered, [], []⟩
        = ⟨.ok db', entered,
            (events.filter fun event => event.supersedesEventId.isNone).map
              fun event => journalRecordOf c (copyRow c target commandId event),
            (events.filter fun event => event.supersedesEventId.isSome).map
              fun event => journalRecordOf c (copyRow c target commandId event)⟩ ∧
      db' = { db with events := db'.events } ∧
      db'.events.rows = db.events.rows ++ events.map (copyRow c target commandId) := by
  induction events using List.reverseRecOn with
  | nil => exact ⟨db, rfl, rfl, (List.append_nil _).symm⟩
  | append_singleton events last ih =>
    obtain ⟨mid, hrun, hrest, hrows⟩ := ih h.dropLast
    obtain ⟨hfree, db', hinsert⟩ := insert_last c commandId hs h hrows
    have hi := insertEvent_inserted hinsert
    have hfind : mid.events.find? last.eventId = some last := by
      refine Table.find?_eq_some.2 ⟨?_, rfl⟩
      rw [← Table.mem_rows, hrows]
      exact List.mem_append_left _ (h.logged last (by simp))
    refine ⟨db', ?_, by rw [hi.rest, hrest], by
      rw [hi.rows, hrows, List.map_append, List.append_assoc]; rfl⟩
    rw [List.map_append, List.foldl_append, hrun]
    simp only [List.map_cons, List.map_nil, List.foldl_cons, List.foldl_nil, Copying.insertCopy,
      hfree, hfind, hinsert, Option.isSome_none, Bool.false_eq_true, if_false, List.filter_append,
      List.map_append]
    cases hsupersedes : last.supersedesEventId <;> simp [hsupersedes]

/-- A firm-scoped event of the firm. -/
def OnFirm (firm : FirmId) (event : SuppressionEvent) : Prop :=
  event.scope = .firm ∧ event.canonicalKey = firm.text

theorem mem_eventsOnFirm {firm : FirmId} {event : SuppressionEvent} :
    event ∈ eventsOnFirm db firm ↔ event ∈ db.events ∧ OnFirm firm event := by
  simp only [eventsOnFirm, List.mem_insertionSort, List.mem_filter, Bool.and_eq_true,
    decide_eq_true_eq]
  exact Iff.rfl

theorem eventsOnFirm_nodup {firm : FirmId} :
    ((eventsOnFirm db firm).map SuppressionEvent.eventId).Nodup := by
  have hperm : (eventsOnFirm db firm).Perm (db.events.rows.filter fun row =>
      row.scope = .firm && row.canonicalKey = firm.text) := List.perm_insertionSort _ _
  refine (hperm.map SuppressionEvent.eventId).nodup_iff.2 ?_
  exact List.Nodup.sublist (List.filter_sublist.map _) db.events.nodup

/-- What an event of a firm supersedes is an event of the firm. -/
theorem onFirm_closed (hs : Sound db) {firm : FirmId} {event : SuppressionEvent}
    (hevent : event ∈ eventsOnFirm db firm) {id : JsString}
    (hid : event.supersedesEventId = some id) :
    ∃ original ∈ eventsOnFirm db firm, original.eventId = id := by
  obtain ⟨hmem, hscope, hkey⟩ := mem_eventsOnFirm.1 hevent
  obtain ⟨original, horiginal, heq, hsubject⟩ := hs.original hmem hid
  refine ⟨original, mem_eventsOnFirm.2 ⟨horiginal, ?_, ?_⟩, heq⟩
  · rw [hsubject.scope, hscope]
  · rw [hsubject.key, hkey]

/-- The copying of many events inserts in the order of the visit of them. -/
private theorem foldl_copy_eq (c : Context) (target : FirmId) (commandId : Option JsString)
    {onSource : List SuppressionEvent}
    (hpresent : ∀ row ∈ onSource, ∀ id, row.supersedesEventId = some id →
      onSource.any (fun other => other.eventId = id) = true)
    (fuel : Nat) (rows : List SuppressionEvent) (st base : Copying) (order : List JsString)
    (hst : st = { order.foldl (Copying.insertCopy c target commandId) base with done := st.done }) :
    rows.foldl (fun st row => st.copy c target commandId onSource fuel row.eventId) st
      = let visited := (rows.map SuppressionEvent.eventId).foldl (fun (entered, order) k =>
          let (entered, more) := Links.visit (supersededOn onSource) fuel entered k
          (entered, order ++ more)) (st.done, order)
        { visited.2.foldl (Copying.insertCopy c target commandId) base with done := visited.1 } := by
  induction rows generalizing st order with
  | nil => exact hst
  | cons row rows ih =>
    simp only [List.foldl_cons, List.map_cons]
    rw [Copying.copy_eq_visit hpresent]
    apply ih
    rw [List.foldl_append]
    conv_lhs => rw [hst, Copying.foldl_insertCopy_entered]

/-- Every event of the source is copied, after what it supersedes, and no `INSERT` fails. -/
theorem preserveFirmSuppressions_spec (c : Context) (target : FirmId)
    (commandId : Option JsString) (hs : Sound db) {firm : FirmRow} (hfirm : firm ∈ db.firms)
    (hlive : firm.mergedInto = none) :
    ∃ (copied : List SuppressionEvent) (db' : Database), copied.Perm (eventsOnFirm db firm.id) ∧
      Copyable db target copied ∧ db' = { db with events := db'.events } ∧
      db'.events.rows = db.events.rows ++ copied.map (copyRow c target commandId) ∧
      (preserveFirmSuppressions c firm.id target commandId db).db = .ok db' ∧
      (preserveFirmSuppressions c firm.id target commandId db).journalled
        = (copied.filter fun event => event.supersedesEventId.isNone).map
            (fun event => journalRecordOf c (copyRow c target commandId event)) ∧
      (preserveFirmSuppressions c firm.id target commandId db).releases
        = (copied.filter fun event => event.supersedesEventId.isSome).map
            fun event => journalRecordOf c (copyRow c target commandId event) := by
  have hnodup : ((eventsOnFirm db firm.id).map SuppressionEvent.eventId).Nodup :=
    eventsOnFirm_nodup
  have hmem := fun event => @mem_eventsOnFirm db firm.id event
  have hclosed := fun event => @onFirm_closed db hs firm.id event
  unfold preserveFirmSuppressions
  generalize eventsOnFirm db firm.id = onSource at hnodup hmem hclosed
  have hnext : ∀ row ∈ onSource, supersededOn onSource row.eventId = row.supersedesEventId := by
    intro row hrow
    have hfind := (Table.find?_eq_some (t := ⟨onSource, hnodup⟩)).2 ⟨hrow, rfl⟩
    unfold Table.find? at hfind
    simp only [supersededOn, hfind, Option.bind_some]
  have hpresent : ∀ row ∈ onSource, ∀ id, row.supersedesEventId = some id →
      onSource.any (fun other => other.eventId = id) = true := by
    intro row hrow id hid
    obtain ⟨original, horiginal, rfl⟩ := hclosed row hrow hid
    exact List.any_eq_true.2 ⟨original, horiginal, by simp⟩
  obtain ⟨rank, hrank⟩ := hs.backward.exists_rank db.events.nodup
  have hdepth : ∀ k original, supersededOn onSource k = some original →
      Links.depth SuppressionEvent.eventId rank onSource original
        < Links.depth SuppressionEvent.eventId rank onSource k := by
    intro k original hk
    obtain ⟨row, hfind, hrow⟩ := Option.bind_eq_some_iff.1 hk
    have hin := List.mem_of_find?_eq_some hfind
    obtain rfl : row.eventId = k := by simpa using List.find?_some hfind
    obtain ⟨first, hfirst, rfl⟩ := hclosed row hin hrow
    exact Links.depth_lt hfirst (hrank row ((hmem row).1 hin).1 _ hrow)
  obtain ⟨hplaced, hperm⟩ := Links.visitAll_spec hdepth (onSource.length + 1)
    (onSource.map SuppressionEvent.eventId)
    (fun k hk => by
      obtain ⟨row, hrow, rfl⟩ := List.mem_map.1 hk
      have := Links.depth_lt_length SuppressionEvent.eventId rank hrow
      omega)
    hnodup
    (fun k hk original hlink => by
      obtain ⟨row, hrow, rfl⟩ := List.mem_map.1 hk
      rw [hnext row hrow] at hlink
      obtain ⟨first, hfirst, rfl⟩ := hclosed row hrow hlink
      exact List.mem_map_of_mem hfirst)
  obtain ⟨copied, hids, hcopied⟩ : ∃ copied : List SuppressionEvent,
      (Links.visitAll (supersededOn onSource) (onSource.length + 1)
        (onSource.map SuppressionEvent.eventId)).2 = copied.map SuppressionEvent.eventId ∧
      copied.Perm onSource := by
    have hcomp := congrFun (congrFun (List.eq_map_comp_perm SuppressionEvent.eventId)
      (Links.visitAll (supersededOn onSource) (onSource.length + 1)
        (onSource.map SuppressionEvent.eventId)).2) onSource
    exact hcomp.symm.mp hperm
  have hloop := foldl_copy_eq c target commandId hpresent
    (onSource.length + 1) onSource ⟨.ok db, [], [], []⟩ ⟨.ok db, [], [], []⟩ [] rfl
  rw [hloop]
  change (Links.visitAll _ _ _).2 = _ at hids
  rw [hids] at hplaced
  have hcopyable : Copyable db target copied := by
    refine ⟨fun event hevent => ((hmem event).1 (hcopied.subset hevent)).1,
      fun event hevent => ((hmem event).1 (hcopied.subset hevent)).2.1, ?_, ?_, ?_⟩
    · intro event hevent row hrow heq
      obtain ⟨hin, -, hkey⟩ := (hmem event).1 (hcopied.subset hevent)
      exact hs.not_copied hfirm hlive hkey hin hrow (heq ▸ .merge target)
    · exact (hcopied.nodup_iff).2 (List.Nodup.of_map _ hnodup)
    · intro front event back heq id hid
      have hsplit : copied.map SuppressionEvent.eventId
          = front.map SuppressionEvent.eventId
            ++ event.eventId :: back.map SuppressionEvent.eventId := by
        rw [heq, List.map_append, List.map_cons]
      have hin : event ∈ onSource := hcopied.subset (by rw [heq]; simp)
      have hfront := hplaced.after _ _ _ hsplit id (by rw [hnext event hin, hid])
      simpa using hfront
  obtain ⟨db', hrun, hrest, hrows⟩ :=
    foldl_insertCopy_spec c commandId hs hcopyable []
  unfold Links.visitAll at hids
  simp only [hids, hrun]
  exact ⟨copied, db', hcopied, hcopyable, hrest, hrows, rfl, rfl, rfl⟩

/-! ## The merge -/

/-- What an accepted merge leaves. -/
structure Merged (c : Context) (source target : FirmId) (commandId : Option JsString)
    (db db' : Database) (copied : List SuppressionEvent) : Prop where
  distinct : source ≠ target
  sourceLive : ∃ firm ∈ db.firms, firm.id = source ∧ firm.mergedInto = none
  targetLive : ∃ firm ∈ db.firms, firm.id = target ∧ firm.mergedInto = none
  events : copied.Perm (eventsOnFirm db source)
  copyable : Copyable db target copied
  rows : db'.events.rows = db.events.rows ++ copied.map (copyRow c target commandId)
  finalizations : db'.finalizations = db.finalizations
  finalizeJobs : db'.finalizeJobs = db.finalizeJobs
  mergedInto : ∀ id, (db'.firms.find? id).bind FirmRow.mergedInto
    = if id = source then some target else (db.firms.find? id).bind FirmRow.mergedInto
  firmIds : ∀ id, (db'.firms.find? id).isSome = (db.firms.find? id).isSome

theorem find?_mergedRows {firms : Firms} {source target : FirmRow} (hsource : source ∈ firms)
    (htarget : ∃ firm ∈ firms, firm.id = target.id) (hne : source.id ≠ target.id) (id : FirmId) :
    (mergedRows firms source target).find? id
      = if id = source.id then some { source with mergedInto := some target.id }
        else if id = target.id then some target
        else firms.find? id := by
  have hkept : ∃ firm ∈ firms.put target, firm.id = source.id :=
    ⟨source, (Table.mem_put htarget).2 (.inr ⟨hsource, hne⟩), rfl⟩
  have hother : ∀ merged : FirmRow, merged.id = source.id → ∀ k, k ≠ source.id →
      ((firms.put target).put merged).find? k = (firms.put target).find? k := by
    intro merged hid k hk
    apply Table.find?_put_ne
    rwa [hid]
  unfold mergedRows
  split_ifs with hs ht
  · subst hs
    exact Table.find?_put_self (r := { source with mergedInto := some target.id }) hkept
  · subst ht
    apply (hother _ _ _ hs).trans (Table.find?_put_self htarget)
    rfl
  · apply (hother _ _ _ hs).trans (Table.find?_put_ne ht)
    rfl

/-- What a merge asks of the firms. -/
structure MergeAllowed (actor : Actor) (reads : MergeReads) (input : MergeFirmsInput)
    (firms : Firms) (source target : FirmRow) : Prop where
  unprepared : (reads.preparedCallingFirm input.sourceFirmId ||
    reads.preparedCallingFirm input.targetFirmId) = false
  distinct : input.sourceFirmId ≠ input.targetFirmId
  findSource : firms.find? input.sourceFirmId = some source
  findTarget : firms.find? input.targetFirmId = some target
  allowed : mergeRefusal actor reads input source target = none

theorem mergeRefusal_live {actor : Actor} {reads : MergeReads} {input : MergeFirmsInput}
    {source target : FirmRow} (h : mergeRefusal actor reads input source target = none) :
    source.mergedInto = none ∧ target.mergedInto = none := by
  unfold mergeRefusal at h
  split at h
  · cases h
  split at h
  · cases h
  next hsource =>
  split at h
  · cases h
  next htarget =>
  simp only [Option.isSome_iff_ne_none, not_not] at hsource htarget
  exact ⟨hsource, htarget⟩

/-- A merge that is allowed is made. -/
theorem mergeFirms_of_allowed {reads : MergeReads} {input : MergeFirmsInput}
    {sourceRow targetRow : FirmRow} (hs : Sound db)
    (h : MergeAllowed c.actor reads input db.firms sourceRow targetRow) :
    ∃ (copied : List SuppressionEvent) (db' : Database), mergeFirms c reads input db
        = ⟨(copied.filter fun event => event.supersedesEventId.isNone).map
            (fun event => journalRecordOf c (copyRow c input.targetFirmId input.commandId event)),
          .ok (.accepted ⟨input.sourceFirmId, input.targetFirmId,
            (copied.filter fun event => event.supersedesEventId.isSome).map
              fun event => journalRecordOf c (copyRow c input.targetFirmId input.commandId event)⟩,
            db')⟩ ∧
      Merged c input.sourceFirmId input.targetFirmId input.commandId db db' copied ∧
      db'.firms = mergedRows db.firms sourceRow
        (applyFirmResolutions sourceRow targetRow input.resolutions) := by
  obtain ⟨hsourceIn, hsourceId⟩ := Table.find?_eq_some.1 h.findSource
  obtain ⟨htargetIn, htargetId⟩ := Table.find?_eq_some.1 h.findTarget
  have hlive := mergeRefusal_live h.allowed
  have hne : sourceRow.id ≠ targetRow.id := by
    rw [hsourceId, htargetId]
    exact h.distinct
  obtain ⟨copied, mid, hcopied, hcopyable, hrest, hrows, hdb, hjournalled, hreleases⟩ :=
    preserveFirmSuppressions_spec c targetRow.id input.commandId hs hsourceIn hlive.1
  have hfirms : mid.firms = db.firms := by rw [hrest]
  have hresolved : ∃ firm ∈ db.firms,
      firm.id = (applyFirmResolutions sourceRow targetRow input.resolutions).id :=
    ⟨targetRow, htargetIn, rfl⟩
  have hsourceFind : db.firms.find? sourceRow.id = some sourceRow :=
    Table.find?_eq_some.2 ⟨hsourceIn, rfl⟩
  have htargetFind : db.firms.find? targetRow.id = some targetRow :=
    Table.find?_eq_some.2 ⟨htargetIn, rfl⟩
  have hid : (applyFirmResolutions sourceRow targetRow input.resolutions).id = targetRow.id := rfl
  have hmerge : mergeFirms c reads input db
      = ⟨(copied.filter fun event => event.supersedesEventId.isNone).map
          (fun event => journalRecordOf c (copyRow c targetRow.id input.commandId event)),
        .ok (.accepted ⟨sourceRow.id, targetRow.id,
          (copied.filter fun event => event.supersedesEventId.isSome).map
            fun event => journalRecordOf c (copyRow c targetRow.id input.commandId event)⟩,
          { mid with
            firms := mergedRows mid.firms sourceRow
              (applyFirmResolutions sourceRow targetRow input.resolutions) })⟩ := by
    unfold mergeFirms
    rw [if_neg (by rw [h.unprepared]; exact Bool.false_ne_true), if_neg h.distinct]
    simp only [h.findSource, h.findTarget, h.allowed, hdb, hjournalled, hreleases]
    rfl
  rw [hsourceId, htargetId] at hmerge
  refine ⟨copied, _, hmerge, ?_, by rw [hfirms]⟩
  rw [← hsourceId, ← htargetId]
  refine ⟨hne, ⟨sourceRow, hsourceIn, rfl, hlive.1⟩, ⟨targetRow, htargetIn, rfl, hlive.2⟩, hcopied,
    hcopyable, hrows, by rw [hrest], by rw [hrest], fun id => ?_, fun id => ?_⟩
  · simp only [hfirms, find?_mergedRows hsourceIn hresolved hne]
    split_ifs with hs ht
    · rfl
    · rw [ht, hid, htargetFind]
      rfl
    · rfl
  · simp only [hfirms, find?_mergedRows hsourceIn hresolved hne]
    split_ifs with hs ht
    · rw [hs, hsourceFind]
      rfl
    · rw [ht, hid, htargetFind]
      rfl
    · rfl

/-- A merge is refused and changes nothing, or it is allowed. -/
theorem mergeFirms_cases (c : Context) (reads : MergeReads) (input : MergeFirmsInput)
    (db : Database) :
    (∃ reason, mergeFirms c reads input db = ⟨[], .ok (.refused reason, db)⟩) ∨
    ∃ sourceRow targetRow, MergeAllowed c.actor reads input db.firms sourceRow targetRow := by
  unfold mergeFirms
  split
  · exact .inl ⟨_, rfl⟩
  next hunprepared =>
  split
  · exact .inl ⟨_, rfl⟩
  next hne =>
  split
  next source target hsource htarget =>
    split
    · exact .inl ⟨_, rfl⟩
    next hallowed =>
    exact .inr ⟨source, target, eq_false_of_ne_true hunprepared, hne, hsource, htarget, hallowed⟩
  next => exact .inl ⟨_, rfl⟩

namespace Merged

variable {copied : List SuppressionEvent} {event row : SuppressionEvent}

theorem mem_copied (h : Merged c source target commandId db db' copied) :
    event ∈ copied ↔ event ∈ db.events ∧ OnFirm source event :=
  h.events.mem_iff.trans mem_eventsOnFirm

theorem mem (h : Merged c source target commandId db db' copied) : row ∈ db'.events ↔
    row ∈ db.events ∨ ∃ event ∈ copied, copyRow c target commandId event = row := by
  rw [← Table.mem_rows, h.rows, List.mem_append, List.mem_map]
  exact Iff.rfl

theorem superseded (h : Merged c source target commandId db db' copied) (hs : Sound db)
    {id : JsString} : db'.superseded id = true ↔ db.superseded id = true ∨
      ∃ event ∈ copied, db.superseded event.eventId = true ∧
        mergeCopyId event.eventId target.text = id := by
  simp only [superseded_iff, h.mem]
  constructor
  · rintro ⟨row, hrow | ⟨lift, hlift, rfl⟩, hid⟩
    · exact .inl ⟨row, hrow, hid⟩
    · obtain ⟨original, horiginal, rfl⟩ := copyRow_supersedes.1 hid
      obtain ⟨hin, honFirm⟩ := h.mem_copied.1 hlift
      obtain ⟨stop, hstop, rfl⟩ := onFirm_closed hs (mem_eventsOnFirm.2 ⟨hin, honFirm⟩) horiginal
      exact .inr ⟨stop, h.mem_copied.2 (mem_eventsOnFirm.1 hstop), ⟨lift, hin, horiginal⟩, rfl⟩
  · rintro (⟨row, hrow, hid⟩ | ⟨stop, hstop, ⟨lift, hlift, hid⟩, rfl⟩)
    · exact ⟨row, .inl hrow, hid⟩
    · obtain ⟨hin, hscope, hkey⟩ := h.mem_copied.1 hstop
      have hsubject := hs.same lift hlift stop hin hid
      have hcopied : lift ∈ copied := by
        refine h.mem_copied.2 ⟨hlift, ?_, ?_⟩
        · rw [← hsubject.scope, hscope]
        · rw [← hsubject.key, hkey]
      exact ⟨_, .inr ⟨lift, hcopied, rfl⟩, copyRow_supersedes.2 ⟨_, hid, rfl⟩⟩

/-- A copy is superseded as its original is. -/
theorem superseded_copy (h : Merged c source target commandId db db' copied) (hs : Sound db)
    (hevent : event ∈ copied) :
    db'.superseded (mergeCopyId event.eventId target.text) = db.superseded event.eventId := by
  rw [Bool.eq_iff_iff, h.superseded hs]
  constructor
  · rintro (hold | ⟨stop, hstop, hup, heq⟩)
    · obtain ⟨row, hrow, hid⟩ := superseded_iff.1 hold
      obtain ⟨original, horiginal, heq, -⟩ := hs.original hrow hid
      exact absurd heq (h.copyable.fresh _ hevent _ horiginal)
    · rwa [← mergeCopyId_left heq]
  · exact fun hup => .inr ⟨event, hevent, hup, rfl⟩

/-- What was there before is superseded as it was. -/
theorem superseded_old (h : Merged c source target commandId db db' copied) (hs : Sound db)
    (hrow : row ∈ db.events) : db'.superseded row.eventId = db.superseded row.eventId := by
  rw [Bool.eq_iff_iff, h.superseded hs]
  constructor
  · rintro (hold | ⟨stop, hstop, -, heq⟩)
    · exact hold
    · exact absurd heq.symm (h.copyable.fresh _ hstop _ hrow)
  · exact .inl

theorem isCopy (h : Merged c source target commandId db db' copied) (hevent : event ∈ copied) :
    IsCopy db'.firms event (copyRow c target commandId event) := by
  obtain ⟨firm, hfirm, hid, -⟩ := h.sourceLive
  obtain ⟨-, hscope, hkey⟩ := h.mem_copied.1 hevent
  have hinto := h.mergedInto source
  rw [if_pos rfl] at hinto
  obtain ⟨firm', hfind, hmerged⟩ := Option.bind_eq_some_iff.1 hinto
  obtain ⟨hfirm', hid'⟩ := Table.find?_eq_some.1 hfind
  exact ⟨⟨firm', hfirm', target, by rw [hid', hkey], hmerged, rfl⟩, rfl, hscope, rfl, rfl, rfl, rfl,
    rfl, rfl⟩

theorem firm_kept (h : Merged c source target commandId db db' copied) {firm : FirmRow}
    (hfirm : firm ∈ db.firms) : ∃ firm' ∈ db'.firms, firm'.id = firm.id ∧
      (firm.mergedInto.isSome → firm'.mergedInto = firm.mergedInto) := by
  have hfind : db.firms.find? firm.id = some firm := Table.find?_eq_some.2 ⟨hfirm, rfl⟩
  have hsome := h.firmIds firm.id
  rw [hfind, Option.isSome_some, Option.isSome_iff_exists] at hsome
  obtain ⟨firm', hfind'⟩ := hsome
  obtain ⟨hin, hid⟩ := Table.find?_eq_some.1 hfind'
  refine ⟨firm', hin, hid, fun hmerged => ?_⟩
  have hinto := h.mergedInto firm.id
  rw [hfind, hfind', Option.bind_some, Option.bind_some, if_neg] at hinto
  · exact hinto
  · intro heq
    obtain ⟨live, hlive, hliveId, hnone⟩ := h.sourceLive
    rw [Table.eq_of_key_eq hfirm hlive (heq.trans hliveId.symm), hnone] at hmerged
    cases hmerged

theorem sound (h : Merged c source target commandId db db' copied) (hs : Sound db) :
    Sound db' := by
  have hnot : ∀ event ∈ copied, ∀ row ∈ db.events,
      row.supersedesEventId ≠ some (mergeCopyId event.eventId target.text) := by
    intro event hevent row hrow hid
    obtain ⟨original, horiginal, heq, -⟩ := hs.original hrow hid
    exact h.copyable.fresh event hevent original horiginal heq
  refine ⟨?_, ?_, ?_, ?_, ?_, ?_⟩
  · rw [h.rows]
    exact h.copyable.backward hs
  · intro row hrow original horiginal hid
    rcases h.mem.1 hrow with hrow | ⟨lift, hlift, rfl⟩
    · rcases h.mem.1 horiginal with horiginal | ⟨stop, hstop, rfl⟩
      · exact hs.same row hrow original horiginal hid
      · exact absurd hid (hnot stop hstop row hrow)
    · obtain ⟨id, hlinked, heq⟩ := copyRow_supersedes.1 hid
      obtain ⟨hin, honFirm⟩ := h.mem_copied.1 hlift
      obtain ⟨stop, hstop, rfl⟩ := onFirm_closed hs (mem_eventsOnFirm.2 ⟨hin, honFirm⟩) hlinked
      have hcopied := h.mem_copied.2 (mem_eventsOnFirm.1 hstop)
      rcases h.mem.1 horiginal with horiginal | ⟨other, hother, rfl⟩
      · exact absurd heq.symm (h.copyable.fresh stop hcopied original horiginal)
      · have hids : stop.eventId = other.eventId := mergeCopyId_left heq
        obtain rfl := Table.eq_of_key_eq (mem_eventsOnFirm.1 hstop).1 (h.mem_copied.1 hother).1 hids
        exact ⟨rfl, rfl, (hs.same lift hin stop (mem_eventsOnFirm.1 hstop).1 hlinked).channel⟩
  · intro row hrow other hother id hid hid'
    rcases h.mem.1 hrow with hrow | ⟨lift, hlift, rfl⟩
    · rcases h.mem.1 hother with hother | ⟨lift', hlift', rfl⟩
      · exact hs.once row hrow other hother id hid hid'
      · obtain ⟨id', hlinked, rfl⟩ := copyRow_supersedes.1 hid'
        obtain ⟨hin, honFirm⟩ := h.mem_copied.1 hlift'
        obtain ⟨stop, hstop, rfl⟩ := onFirm_closed hs (mem_eventsOnFirm.2 ⟨hin, honFirm⟩) hlinked
        exact absurd hid (hnot stop (h.mem_copied.2 (mem_eventsOnFirm.1 hstop)) row hrow)
    · obtain ⟨id', hlinked, rfl⟩ := copyRow_supersedes.1 hid
      obtain ⟨hin, honFirm⟩ := h.mem_copied.1 hlift
      rcases h.mem.1 hother with hother | ⟨lift', hlift', rfl⟩
      · obtain ⟨stop, hstop, rfl⟩ := onFirm_closed hs (mem_eventsOnFirm.2 ⟨hin, honFirm⟩) hlinked
        exact absurd hid' (hnot stop (h.mem_copied.2 (mem_eventsOnFirm.1 hstop)) other hother)
      · obtain ⟨id'', hlinked', heq⟩ := copyRow_supersedes.1 hid'
        rw [mergeCopyId_left heq] at hlinked'
        rw [hs.once lift hin lift' (h.mem_copied.1 hlift').1 id' hlinked hlinked']
  · intro row hrow
    rcases h.mem.1 hrow with hrow | ⟨event, hevent, rfl⟩
    · exact hs.checks row hrow
    · exact copyRow_checks hs (h.mem_copied.1 hevent).1
  · intro row hrow hcopy
    rcases h.mem.1 hrow with hrow | ⟨event, hevent, rfl⟩
    · obtain ⟨original, horiginal, his⟩ := hs.copies row hrow hcopy
      refine ⟨original, h.mem.2 (.inl horiginal), his.mono fun firm hfirm hmerged => ?_⟩
      obtain ⟨firm', hfirm', hid, hinto⟩ := h.firm_kept hfirm
      exact ⟨firm', hfirm', hid, hinto hmerged⟩
    · exact ⟨event, h.mem.2 (.inl (h.mem_copied.1 hevent).1), h.isCopy hevent⟩
  · intro row hrow hscope
    have hkept : ∀ firm ∈ db.firms, ∃ firm' ∈ db'.firms, firm'.id.text = firm.id.text := by
      intro firm hfirm
      obtain ⟨firm', hfirm', hid, -⟩ := h.firm_kept hfirm
      exact ⟨firm', hfirm', by rw [hid]⟩
    rcases h.mem.1 hrow with hrow | ⟨event, hevent, rfl⟩
    · obtain ⟨firm, hfirm, hkey⟩ := hs.keys row hrow hscope
      obtain ⟨firm', hfirm', hid⟩ := hkept firm hfirm
      exact ⟨firm', hfirm', hid.trans hkey⟩
    · obtain ⟨firm, hfirm, rfl, -⟩ := h.targetLive
      exact hkept firm hfirm

theorem carried (h : Merged c source target commandId db db' copied) (hs : Sound db)
    (hc : Carried db none) : Carried db' none := by
  intro original horiginal copy hcopy hof _ hup
  rcases h.mem.1 hcopy with hcopy | ⟨event, hevent, rfl⟩
  · obtain ⟨parent, hparent, hid, -⟩ := hs.copied hcopy hof
    rw [← hid] at hof hup
    rw [h.superseded_old hs hparent] at hup
    rw [h.superseded_old hs hcopy]
    exact hc parent hparent copy hcopy hof (by simp) hup
  · have hids := (show CopyOf event.eventId _ from .merge target).original_unique hof
    rw [← hids, h.superseded_old hs (h.mem_copied.1 hevent).1] at hup
    exact (h.superseded_copy hs hevent).trans hup

/-- The target is suppressed on a channel if it was or the source was; no other key changes. -/
theorem effectiveOn_iff (h : Merged c source target commandId db db' copied) (hs : Sound db)
    (scope : SuppressionScope) (key : JsString) (channel : SuppressionChannel) :
    db'.effectiveOn scope key channel = true ↔ db.effectiveOn scope key channel = true ∨
      scope = .firm ∧ key = target.text ∧ db.effectiveOn .firm source.text channel = true := by
  simp only [Suppression.effectiveOn_iff, effective_iff, h.mem]
  constructor
  · rintro ⟨row, hrow | ⟨event, hevent, rfl⟩, ⟨hstop, hstands⟩, rfl, rfl, rfl⟩
    · rw [h.superseded_old hs hrow] at hstands
      exact .inl ⟨row, hrow, ⟨hstop, hstands⟩, rfl, rfl, rfl⟩
    · rw [copyRow, h.superseded_copy hs hevent] at hstands
      obtain ⟨hin, hscope, hkey⟩ := h.mem_copied.1 hevent
      refine .inr ⟨rfl, rfl, event, hin, ⟨?_, hstands⟩, hscope, hkey, rfl⟩
      simpa [copyRow] using hstop
  · rintro (⟨row, hrow, ⟨hstop, hstands⟩, rfl, rfl, rfl⟩ |
      ⟨rfl, rfl, event, hevent, ⟨hstop, hstands⟩, hscope, hkey, rfl⟩)
    · rw [← h.superseded_old hs hrow] at hstands
      exact ⟨row, .inl hrow, ⟨hstop, hstands⟩, rfl, rfl, rfl⟩
    · have hcopied := h.mem_copied.2 ⟨hevent, hscope, hkey⟩
      rw [← h.superseded_copy hs hcopied] at hstands
      refine ⟨_, .inr ⟨event, hcopied, rfl⟩, ⟨?_, hstands⟩, rfl, rfl, rfl⟩
      simp [copyRow, hstop]

end Merged

end FoundingSales.Crm
