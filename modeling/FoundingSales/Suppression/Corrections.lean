import FoundingSales.Suppression.History

/-!
Who may lift a stop. The ten minutes and the finalization are kept for each event id, and a
merge writes new ids: a copy has the source and the actor of its original, a new instant and
no decision.

Proved here:
* `Sound.lift_descends` and `Sound.exists_root`: lifts and stops followed through copies;
* `takenBackInTime`: corrections lift within the window of the stop first recorded, in every
  history in which none names a copy after it.
-/

namespace FoundingSales.Suppression

open Tables Rules Crm Relation

/-! ## Following copies back -/

namespace Sound

variable {db : Database} {event copy : SuppressionEvent}

/-- The copy of a lift lifts a copy of what it lifts. -/
theorem lift_descends (h : Sound db) (hevent : event ∈ db.events) {id : JsString}
    (hlifts : event.supersedesEventId = some id) {copyId : JsString}
    (hdescends : Descends event.eventId copyId) (hcopy : copy ∈ db.events)
    (hid : copy.eventId = copyId) :
    ∃ stopped, copy.supersedesEventId = some stopped ∧ Descends id stopped := by
  induction hdescends generalizing copy with
  | refl =>
    obtain rfl := Table.eq_of_key_eq hcopy hevent hid
    exact ⟨id, hlifts, .refl⟩
  | tail _ hlast ih =>
    obtain ⟨parent, hparent, hparentId, his⟩ := h.copied hcopy (hid ▸ hlast)
    obtain ⟨stopped, hstopped, hbelow⟩ := ih hparent hparentId
    obtain ⟨_, _, survivor, -, -, hkey⟩ := his.merged
    refine ⟨mergeCopyId stopped copy.canonicalKey, ?_, ?_⟩
    · rw [his.supersedes, hstopped, Option.map_some]
    · rw [hkey]
      exact hbelow.tail (.merge survivor)

/-- A copy keeps the source and the actor of its original. -/
theorem inherited (h : Sound db) (hevent : event ∈ db.events) {copyId : JsString}
    (hdescends : Descends event.eventId copyId) (hcopy : copy ∈ db.events)
    (hid : copy.eventId = copyId) :
    event.source = copy.source ∧ event.actorUserId = copy.actorUserId := by
  induction hdescends generalizing copy with
  | refl =>
    obtain rfl := Table.eq_of_key_eq hcopy hevent hid
    exact ⟨rfl, rfl⟩
  | tail _ hlast ih =>
    obtain ⟨parent, hparent, hparentId, his⟩ := h.copied hcopy (hid ▸ hlast)
    obtain ⟨hsource, hactor⟩ := ih hparent hparentId
    exact ⟨hsource.trans his.source.symm, hactor.trans his.actor.symm⟩

/-- Every event was first recorded under an id that is no copy's. -/
theorem exists_root (h : Sound db) (hcopy : copy ∈ db.events) :
    ∃ root ∈ db.events, isMergeCopyId root.eventId = false ∧ Descends root.eventId copy.eventId := by
  induction hlength : copy.eventId.length using Nat.strong_induction_on generalizing copy with
  | _ length ih =>
    cases hplain : isMergeCopyId copy.eventId with
    | false => exact ⟨copy, hcopy, hplain, .refl⟩
    | true =>
      obtain ⟨original, horiginal, his⟩ := h.copies copy hcopy hplain
      have hof := his.copyOf
      obtain ⟨root, hroot, hrootPlain, hdescends⟩ :=
        ih original.eventId.length (hlength ▸ hof.length_lt) horiginal rfl
      exact ⟨root, hroot, hrootPlain, hdescends.tail hof⟩

end Sound

/-! ## The law -/

/-- A manual stop of this actor, younger than the window and not finalized. -/
structure InWindow (db : Database) (root : SuppressionEvent) (actorUserId : Option Uuid)
    (now : Instant) : Prop where
  source : root.source = .salespersonManual
  actor : root.actorUserId = actorUserId
  recent : now - root.recordedAt < manualSuppressionCorrectionMilliseconds
  undecided : ∀ claim ∈ db.finalizations, claim.eventId = root.eventId →
    claim.outcome ≠ .finalized

/-- `lift` lifts `stopped` as an admin's, or because a correction lifted it or an event it
was copied down from, while the stop first recorded was in its window. -/
def LiftedByRight (w : Workspace) (firms : Firms) (history : List Transaction)
    (lift : SuppressionEvent) (stopped : JsString) : Prop :=
  lift.source = .adminSupersession ∨
    lift.source = .mistakenEntryCorrection ∧
    ∃ before t after corrected commandId root, history = before ++ t :: after ∧
      t.operation = .recordCorrection corrected commandId ∧
      (World.after w firms before).db.superseded corrected = false ∧
      (World.after w firms (before ++ [t])).db.superseded corrected = true ∧
      Descends corrected stopped ∧ lift.actorUserId = t.actor.userId ∧
      root ∈ (World.after w firms before).db.events ∧ isMergeCopyId root.eventId = false ∧
      Descends root.eventId stopped ∧
      InWindow (World.after w firms before).db root t.actor.userId t.now

/-- Every lift in the log, and every copy of what it lifts. -/
def TakenBackInTime (w : Workspace) (firms : Firms) (history : List Transaction) : Prop :=
  ∀ lift ∈ (World.after w firms history).db.events, ∀ lifted,
    lift.supersedesEventId = some lifted →
    ∀ event ∈ (World.after w firms history).db.events, Descends lifted event.eventId →
      LiftedByRight w firms history lift event.eventId

/-- A correction that its guards let through, of a merge copy, is in the window of the stop
the copy goes back to. -/
def CopyInWindow (db : Database) (t : Transaction) : Prop :=
  ∀ eventId commandId lost, t.operation = .recordCorrection eventId commandId →
    t.ending = .commits lost → isMergeCopyId eventId = true →
    ∀ event ∈ db.events, event.eventId = eventId →
    (∃ userId, t.actor.userId = some userId ∧
      mayCorrectSuppression event userId t.now = none) →
    isSupportedCanonicalizerVersion event.canonicalizerVersion = true →
    db.superseded eventId = false → db.finalizations.find? eventId = none →
    ∀ root ∈ db.events, isMergeCopyId root.eventId = false → Descends root.eventId eventId →
      t.now - root.recordedAt < manualSuppressionCorrectionMilliseconds ∧
      ∀ claim ∈ db.finalizations, claim.eventId = root.eventId → claim.outcome ≠ .finalized

/-! ## Every history -/

variable {w : Workspace} {firms : Firms} {history : List Transaction}

theorem World.after_append (w : Workspace) (firms : Firms) (before : List Transaction)
    (t : Transaction) :
    World.after w firms (before ++ [t]) = (World.after w firms before).step w t := by
  unfold World.after
  rw [Runs.run_append]
  rfl

theorem LiftedByRight.append {lift : SuppressionEvent} {stopped : JsString}
    (h : LiftedByRight w firms history lift stopped) (t : Transaction) :
    LiftedByRight w firms (history ++ [t]) lift stopped := by
  rcases h with hadmin | ⟨hsource, before, t', after, corrected, commandId, root, rfl, hrest⟩
  · exact .inl hadmin
  · refine .inr ⟨hsource, before, t', after ++ [t], corrected, commandId, root, ?_, hrest⟩
    rw [List.append_assoc, List.cons_append]

/-- The law follows a lift and what it lifts onto their copies. -/
theorem LiftedByRight.copied {lift copy : SuppressionEvent} {stopped id : JsString}
    (h : LiftedByRight w firms history lift stopped) (hdescends : Descends stopped id)
    (hsource : copy.source = lift.source) (hactor : copy.actorUserId = lift.actorUserId) :
    LiftedByRight w firms history copy id := by
  rcases h with hadmin | ⟨hcorrection, before, t, after, corrected, commandId, root, heq, hop, hfree,
    htaken, hbelow, hsame, hroot, hplain, hrootBelow, hin⟩
  · exact .inl (hsource.trans hadmin)
  · exact .inr ⟨hsource.trans hcorrection, before, t, after, corrected, commandId, root, heq, hop,
      hfree, htaken, hbelow.trans hdescends, hactor.trans hsame, hroot, hplain,
      hrootBelow.trans hdescends, hin⟩

/-- The lift a correction writes is within the window of the stop first recorded. -/
private theorem corrected_inWindow {db : Database} {t : Transaction} {lost : JsString → Bool}
    {commandId : Option JsString} {original : SuppressionEvent} {db' : Database}
    {written : List SuppressionEvent} (hs : Sound db)
    (hop : t.operation = .recordCorrection original.eventId commandId)
    (hending : t.ending = .commits lost) (hin : CopyInWindow db t)
    (h : Corrected (w.context t) commandId db db' original written) :
    ∃ root ∈ db.events, isMergeCopyId root.eventId = false ∧
      Descends root.eventId original.eventId ∧ InWindow db root t.actor.userId t.now := by
  obtain ⟨userId, huser, hmay⟩ := h.user
  have hactor : t.actor.userId = some userId := huser
  obtain ⟨hmanual, hown, hrecent⟩ := mayCorrect_eq_none.1 hmay
  obtain ⟨root, hroot, hplain, hdescends⟩ := hs.exists_root h.superseding.logged
  obtain ⟨hsource, hsame⟩ := hs.inherited hroot hdescends h.superseding.logged rfl
  have hcurrent : t.now - root.recordedAt < manualSuppressionCorrectionMilliseconds ∧
      ∀ claim ∈ db.finalizations, claim.eventId = root.eventId → claim.outcome ≠ .finalized := by
    cases hcopy : isMergeCopyId original.eventId with
    | false =>
      have hsameId := hdescends.eq_of_not_copy hcopy
      obtain rfl := Table.eq_of_key_eq hroot h.superseding.logged hsameId
      refine ⟨hrecent, fun claim hclaim hid _ => ?_⟩
      exact Table.find?_eq_none.1 h.unclaimed claim hclaim hid
    | true =>
      exact hin original.eventId commandId lost hop hending hcopy original h.superseding.logged rfl
        ⟨userId, hactor, hmay⟩ h.supported h.superseding.standing h.unclaimed root hroot hplain
        hdescends
  refine ⟨root, hroot, hplain, hdescends, hsource.trans hmanual, ?_, hcurrent.1, hcurrent.2⟩
  rw [hsame, hown, hactor]

/-- What one transaction lifts, it lifts by right, and what was lifted stays so. -/
private theorem takenBackInTime_step (t : Transaction)
    (hlaw : TakenBackInTime w firms history)
    (hin : CopyInWindow (World.after w firms history).db t) :
    TakenBackInTime w firms (history ++ [t]) := by
  have hc := World.consistent w firms history
  have hc' := World.consistent w firms (history ++ [t])
  have hold : ∀ lift ∈ (World.after w firms history).db.events, ∀ lifted,
      lift.supersedesEventId = some lifted →
      LiftedByRight w firms (history ++ [t]) lift lifted := by
    intro lift hlift lifted hid
    obtain ⟨original, horiginal, rfl, -⟩ := hc.sound.original hlift hid
    exact (hlaw lift hlift _ hid original horiginal .refl).append t
  -- what is left to show: each lift this transaction wrote was written by right
  suffices hnew : ∀ lift ∈ (World.after w firms (history ++ [t])).db.events,
      lift ∉ (World.after w firms history).db.events → ∀ lifted,
      lift.supersedesEventId = some lifted →
      LiftedByRight w firms (history ++ [t]) lift lifted by
    intro lift hlift lifted hid event _ hdescends
    refine LiftedByRight.copied ?_ hdescends rfl rfl
    by_cases hbefore : lift ∈ (World.after w firms history).db.events
    · exact hold lift hbefore lifted hid
    · exact hnew lift hlift hbefore lifted hid
  intro lift hlift hfresh lifted hid
  rw [World.after_append] at hlift hc'
  rcases World.step_cases (w := w) hc t with hsame | ⟨_, _, lost, hending, hchange⟩
  · rw [hsame] at hlift
    exact absurd hlift hfresh
  have hdb : (World.after w firms (history ++ [t])).db
      = ((World.after w firms history).step w t).db := by rw [World.after_append]
  generalize hafter : ((World.after w firms history).step w t).db = db' at *
  generalize hop : t.operation = operation at hchange
  cases hchange with
  | none => exact absurd hlift hfresh
  | recorded h =>
    rcases h.mem.1 hlift with hbefore | rfl
    · exact absurd hbefore hfresh
    · rw [h.supersedes] at hid
      cases hid
  | corrected h =>
    rename_i commandId original written
    obtain ⟨root, hroot, hplain, hdescends, hwindow⟩ :=
      corrected_inWindow hc.sound hop hending hin h
    have htaken : db'.superseded original.eventId = true :=
      (h.superseding.superseded _).2 (.inr ⟨original, h.superseding.logged, rfl, .refl⟩)
    have hright : LiftedByRight w firms (history ++ [t])
        (supersessionRow (w.context t) original .mistakenEntryCorrection .mistakenEntry commandId)
        original.eventId :=
      .inr ⟨rfl, history, t, [], original.eventId, commandId, root, rfl, hop,
        h.superseding.standing, by rw [hdb]; exact htaken, .refl, rfl, hroot, hplain, hdescends,
        hwindow⟩
    rcases h.superseding.mem.1 hlift with hbefore | rfl | hwritten
    · exact absurd hbefore hfresh
    · cases hid
      exact hright
    · have hfrom := h.superseding.lifts lift hwritten
      obtain ⟨stopped, hstopped, hbelow⟩ := hc'.sound.lift_descends
        (h.superseding.mem.2 (.inr (.inl rfl))) rfl hfrom.descends hlift rfl
      rw [hstopped] at hid
      cases hid
      exact hright.copied hbelow hfrom.source hfrom.actor
  | superseded h =>
    rcases h.superseding.mem.1 hlift with hbefore | rfl | hwritten
    · exact absurd hbefore hfresh
    · exact .inl rfl
    · exact .inl (h.superseding.lifts lift hwritten).source
  | finalized h =>
    rw [h.events] at hlift
    exact absurd hlift hfresh
  | merged h =>
    rcases h.mem.1 hlift with hbefore | ⟨event, hevent, rfl⟩
    · exact absurd hbefore hfresh
    · obtain ⟨original, hlinked, rfl⟩ := copyRow_supersedes.1 hid
      have hright := hold event (h.mem_copied.1 hevent).1 original hlinked
      exact hright.copied (.single (.merge _)) rfl rfl

/-- Every lift that is not an admin's goes back to a correction of the same actor's manual
stop inside its window, in every history in which each correction of a copy is inside the
window of the stop first recorded. -/
theorem takenBackInTime (w : Workspace) (firms : Firms) (history : List Transaction)
    (hin : ∀ before t after, history = before ++ t :: after →
      CopyInWindow (World.after w firms before).db t) :
    TakenBackInTime w firms history := by
  induction history using List.reverseRecOn with
  | nil => exact fun _ h => (nomatch h)
  | append_singleton history t ih =>
    apply takenBackInTime_step t
    · apply ih
      intro before t' after heq
      exact hin before t' (after ++ [t]) (by rw [heq, List.append_assoc, List.cons_append])
    · exact hin history t [] rfl

/-! ## A stop taken back after ten minutes -/

def mergedFirm : FirmId := ⟨js "9d0f1c34-6a2b-4e5d-8c11-2b7a4d5e6f01", by decide⟩
def survivingFirm : FirmId := ⟨js "9d0f1c34-6a2b-4e5d-8c11-2b7a4d5e6f02", by decide⟩

def owningUserId : Uuid := js "3c1e8a57-2d4f-4b69-8e70-5a9b1c2d3e4f"

/-- Two firms of one salesperson. -/
def twoFirms : Firms :=
  ⟨[⟨mergedFirm, some owningUserId, none, fun _ => none⟩,
    ⟨survivingFirm, some owningUserId, none, fun _ => none⟩], by decide⟩

def manualStopId : JsString :=
  js "sup_17915b024b7a15143786cd7df56af1fc8aaa2b2159726ed97de612cc194e38c1"

def manualStopCopyId : JsString := mergeCopyId manualStopId survivingFirm.text

/-- The digests of a stop, of the correction of its copy, and of its own correction. -/
def hashedWorkspace : Workspace where
  id := js "5b1f6a52-0c1e-4d7a-9a10-0f4c2f6f7a01"
  platform := asciiPlatform
    [(List.intercalate [0] [js "5b1f6a52-0c1e-4d7a-9a10-0f4c2f6f7a01", js "firm", mergedFirm.text,
        js "salesperson_manual", js "record-1", []],
      js "17915b024b7a15143786cd7df56af1fc8aaa2b2159726ed97de612cc194e38c1"),
     (List.intercalate [0] [js "5b1f6a52-0c1e-4d7a-9a10-0f4c2f6f7a01", js "firm",
        survivingFirm.text, js "mistaken_entry_correction", js "correct-1", manualStopCopyId],
      js "0d93dac9bb975ee9b82a6d0c8d40d92d626caf8352e913ce997e2808d20bd38e"),
     (List.intercalate [0] [js "5b1f6a52-0c1e-4d7a-9a10-0f4c2f6f7a01", js "firm", mergedFirm.text,
        js "mistaken_entry_correction", js "correct-1", manualStopId],
      js "9e0ccee7a758529f9e4dc674584948f55140c3924e2dbc91cf157120269c3dc3")]

def manualStop : RecordSuppressionInput where
  scope := .firm
  firmId := some mergedFirm
  value := none
  source := .salespersonManual
  notSupersession := rfl
  channel := .all
  commandId := some (js "record-1")
  fallbackKey := none

def committed (now : Instant) (operation : Operation) : Transaction :=
  ⟨.user owningUserId .salesperson, now, js "0e7d6c5b-4a39-4281-9f01-8c7b6a5d4e3f", operation,
    .commits fun _ => false⟩

def mergeOfTwo : Operation :=
  .mergeFirms ⟨fun _ => false, fun _ => false⟩
    ⟨mergedFirm, survivingFirm, fun _ => none, some (js "merge-1")⟩

/-- A stop is recorded, its finalizer runs, and the firm is merged. -/
def untilMerged (finalize merge : Instant) : List Transaction :=
  [committed 0 (.recordSuppression manualStop),
   committed finalize (.finalizeManualSuppression manualStopId),
   committed merge mergeOfTwo]

/-- Then the copy is corrected. -/
def correctionOfCopy (finalize merge correct : Instant) : List Transaction :=
  untilMerged finalize merge ++
    [committed correct (.recordCorrection manualStopCopyId (some (js "correct-1")))]

theorem correctionOfCopy_split {finalize merge correct : Instant} {before after : List Transaction}
    {t : Transaction} (h : correctionOfCopy finalize merge correct = before ++ t :: after)
    {eventId : JsString} {commandId : Option JsString}
    (hop : t.operation = .recordCorrection eventId commandId) :
    before = untilMerged finalize merge ∧ t.now = correct := by
  unfold correctionOfCopy at h
  rcases List.append_eq_append_iff.1 h with ⟨rest, rfl, htail⟩ | ⟨rest, hfront, htail⟩
  · cases rest with
    | nil =>
      cases htail
      exact ⟨List.append_nil _, rfl⟩
    | cons first rest =>
      simp at htail
  · cases rest with
    | nil =>
      cases htail
      exact ⟨by rw [hfront, List.append_nil], rfl⟩
    | cons first rest =>
      cases htail
      have hmem : t ∈ untilMerged finalize merge := by rw [hfront]; simp
      simp only [untilMerged, List.mem_cons, List.not_mem_nil, or_false] at hmem
      rcases hmem with rfl | rfl | rfl <;> cases hop

/-- Ten minutes after it was recorded, and finalized, the stop is taken back: its copy is
a moment old. -/
theorem takenBackInTime_fails :
    ¬ ∀ (w : Workspace) (firms : Firms) (history : List Transaction), Chronological history →
      TakenBackInTime w firms history := by
  intro hall
  have hlaw := hall hashedWorkspace twoFirms (correctionOfCopy 600000 600001 600002)
    (by simp [Chronological, correctionOfCopy, untilMerged, committed])
  obtain ⟨hsuperseded, hplain, hfirst⟩ :
      (World.after hashedWorkspace twoFirms (correctionOfCopy 600000 600001 600002)).db.superseded
        manualStopCopyId = true ∧
      ((World.after hashedWorkspace twoFirms
        (correctionOfCopy 600000 600001 600002)).db.events.rows.all
          fun row => row.source ≠ .adminSupersession) = true ∧
      ((World.after hashedWorkspace twoFirms (untilMerged 600000 600001)).db.events.rows.all
          fun row => isMergeCopyId row.eventId || row.recordedAt = 0) = true := by
    decide +kernel
  obtain ⟨lift, hlift, hid⟩ := superseded_iff.1 hsuperseded
  obtain ⟨event, hevent, heventId, -⟩ := (World.consistent _ _ _).sound.original hlift hid
  rcases hlaw lift hlift _ hid event hevent (heventId ▸ .refl) with
    hadmin | ⟨-, before, t, after, _, _, root, heq, hop, -, -, -, -, hroot, hcopy, -, hwindow⟩
  · have := List.all_eq_true.1 hplain lift hlift
    simp [hadmin] at this
  · obtain ⟨rfl, hnow⟩ := correctionOfCopy_split heq hop
    have hzero := List.all_eq_true.1 hfirst root hroot
    simp only [hcopy, Bool.false_or, decide_eq_true_eq] at hzero
    have hrecent := hwindow.recent
    rw [hnow, hzero] at hrecent
    exact absurd hrecent (by decide)

/-- The copy is taken back in the window of the stop, two minutes after it was recorded. -/
theorem takenBackInTime_early :
    (World.after hashedWorkspace twoFirms (correctionOfCopy 60000 60001 120000)).db.superseded
      manualStopCopyId = true ∧
    TakenBackInTime hashedWorkspace twoFirms (correctionOfCopy 60000 60001 120000) := by
  obtain ⟨hsuperseded, hfirst, hundecided⟩ :
      (World.after hashedWorkspace twoFirms (correctionOfCopy 60000 60001 120000)).db.superseded
        manualStopCopyId = true ∧
      ((World.after hashedWorkspace twoFirms (untilMerged 60000 60001)).db.events.rows.all
          fun row => isMergeCopyId row.eventId || row.recordedAt = 0) = true ∧
      (World.after hashedWorkspace twoFirms (untilMerged 60000 60001)).db.finalizations.rows
        = [] := by
    decide +kernel
  refine ⟨hsuperseded, takenBackInTime _ _ _ fun before t after heq => ?_⟩
  intro eventId commandId lost hop _ _ event _ _ _ _ _ _ root hroot hcopy _
  obtain ⟨rfl, hnow⟩ := correctionOfCopy_split heq hop
  have hzero := List.all_eq_true.1 hfirst root hroot
  simp only [hcopy, Bool.false_or, decide_eq_true_eq] at hzero
  refine ⟨by rw [hnow, hzero]; decide, fun claim hclaim => ?_⟩
  rw [← Table.mem_rows, hundecided] at hclaim
  cases hclaim

end FoundingSales.Suppression
