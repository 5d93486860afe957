import FoundingSales.Suppression.Corrections
import Mathlib.Data.Option.Basic

/-!
Lifting a stop and merging firms, in either order. Merges before the lift leave copies for it
to follow; merges after it copy the lift itself.

Proved here:
* `Lifted.merge`: a merge keeps two databases alike but for one stop and its copies;
* `mergesCommute`: what is suppressed does not depend on the order.
-/

namespace FoundingSales.Suppression

open Tables Rules Crm Relation

/-! ## The two operations -/

structure MergeCommand where
  context : Context
  reads : MergeReads
  input : MergeFirmsInput

/-- The tables after the merge, when it is accepted. -/
def MergeCommand.perform (m : MergeCommand) (db : Database) : Option Database :=
  match (mergeFirms m.context m.reads m.input db).result with
  | .ok (.accepted _, db) => some db
  | _ => none

def mergeAll : List MergeCommand → Database → Option Database
  | [], db => some db
  | m :: ms, db => (m.perform db).bind (mergeAll ms)

/-- A supersession of either kind. -/
inductive Supersession
  | correction (commandId : Option JsString)
  | admin (reason : AdminSupersessionReason) (commandId : Option JsString)

namespace Supersession

/-- The tables after the supersession, when it is accepted. -/
def perform (c : Context) (eventId : JsString) (db : Database) : Supersession → Option Database
  | correction commandId =>
    match recordCorrection c eventId commandId db with
    | .ok (.accepted _, db) => some db
    | _ => none
  | admin reason commandId =>
    match recordAdminSupersession c eventId reason commandId db with
    | .ok (.accepted _, db) => some db
    | _ => none

def row (c : Context) (original : SuppressionEvent) : Supersession → SuppressionEvent
  | correction commandId =>
    supersessionRow c original .mistakenEntryCorrection .mistakenEntry commandId
  | admin reason commandId =>
    supersessionRow c original .adminSupersession reason.reason commandId

/-- Who may supersede the event, as the code asks. -/
def Permitted (c : Context) (original : SuppressionEvent) (db : Database) : Supersession → Prop
  | correction _ => (∃ userId, c.actor.userId = some userId ∧
      mayCorrectSuppression original userId c.now = none) ∧
      db.finalizations.find? original.eventId = none
  | admin _ _ => c.actor.isAdmin = true

/-- What an accepted supersession asks of the tables. -/
structure Accepts (s : Supersession) (c : Context) (original : SuppressionEvent)
    (db : Database) : Prop where
  supported : isSupportedCanonicalizerVersion original.canonicalizerVersion = true
  standing : db.superseded original.eventId = false
  fresh : ∀ event ∈ db.events, event.eventId ≠ (s.row c original).eventId
  permitted : s.Permitted c original db

variable {s : Supersession} {c : Context} {original : SuppressionEvent} {db db' : Database}

theorem row_plain : isMergeCopyId (s.row c original).eventId = false := by
  cases s <;> exact deterministicEventId_not_copy

theorem row_supersedes : (s.row c original).supersedesEventId = some original.eventId := by
  cases s <;> rfl

theorem perform_spec (hc : Consistent db) (horiginal : original ∈ db.events)
    (h : s.perform c original.eventId db = some db') :
    s.Accepts c original db ∧ ∃ written, Superseding db db' original (s.row c original) written := by
  cases s with
  | correction commandId =>
    simp only [perform] at h
    split at h
    next outcome db'' hrun =>
      cases h
      rcases recordCorrection_spec hc.sound hc.carried hrun with
        ⟨_, hrefused, -⟩ | ⟨event, written, _, -, hid, -, hcorrected⟩
      · cases hrefused
      · have hlogged := hcorrected.superseding.logged
        obtain rfl := Table.eq_of_key_eq hlogged horiginal hid
        exact ⟨⟨hcorrected.supported, hcorrected.superseding.standing,
          fun _ hevent => hcorrected.superseding.fresh hevent,
          hcorrected.user, hcorrected.unclaimed⟩, written, hcorrected.superseding⟩
    next => cases h
  | admin reason commandId =>
    simp only [perform] at h
    split at h
    next outcome db'' hrun =>
      cases h
      rcases recordAdminSupersession_spec hc.sound hc.carried hrun with
        ⟨_, hrefused, -⟩ | ⟨event, written, _, -, hid, -, hsuperseded⟩
      · cases hrefused
      · have hlogged := hsuperseded.superseding.logged
        obtain rfl := Table.eq_of_key_eq hlogged horiginal hid
        exact ⟨⟨hsuperseded.supported, hsuperseded.superseding.standing,
          fun _ hevent => hsuperseded.superseding.fresh hevent, hsuperseded.admin⟩, written,
          hsuperseded.superseding⟩
    next => cases h

theorem perform_isSome (hc : Consistent db) (horiginal : original ∈ db.events) :
    (s.perform c original.eventId db).isSome = true ↔ s.Accepts c original db := by
  constructor
  · intro h
    obtain ⟨db', hrun⟩ := Option.isSome_iff_exists.1 h
    exact (perform_spec hc horiginal hrun).1
  · rintro ⟨hsupported, hfree, hfresh, hpermitted⟩
    cases s with
    | correction commandId =>
      obtain ⟨outcome, db', hrun⟩ := recordCorrection_accepts hc.sound hc.carried horiginal
        hpermitted.1 hsupported hfree hpermitted.2 hfresh
      simp only [perform, hrun, Option.isSome_some]
    | admin reason commandId =>
      obtain ⟨outcome, db', hrun⟩ := recordAdminSupersession_accepts hc.sound hc.carried horiginal
        hpermitted hsupported hfree hfresh
      simp only [perform, hrun, Option.isSome_some]

end Supersession

/-- A merge command is refused, or the firms allow it and it is made. -/
theorem MergeCommand.perform_cases (m : MergeCommand) {db : Database} (hs : Sound db) :
    (m.perform db = none ∧ ∀ sourceRow targetRow,
      ¬ MergeAllowed m.context.actor m.reads m.input db.firms sourceRow targetRow) ∨
    ∃ sourceRow targetRow copied db',
      MergeAllowed m.context.actor m.reads m.input db.firms sourceRow targetRow ∧
      m.perform db = some db' ∧
      Merged m.context m.input.sourceFirmId m.input.targetFirmId m.input.commandId db db' copied ∧
      db'.firms = mergedRows db.firms sourceRow
        (applyFirmResolutions sourceRow targetRow m.input.resolutions) := by
  have hmade : ∀ sourceRow targetRow,
      MergeAllowed m.context.actor m.reads m.input db.firms sourceRow targetRow →
      ∃ copied db', m.perform db = some db' ∧ Merged m.context m.input.sourceFirmId
        m.input.targetFirmId m.input.commandId db db' copied ∧ db'.firms = mergedRows db.firms
          sourceRow (applyFirmResolutions sourceRow targetRow m.input.resolutions) := by
    intro sourceRow targetRow hallowed
    obtain ⟨copied, db', hrun, hmerged, hfirms⟩ := mergeFirms_of_allowed hs hallowed
    exact ⟨copied, db', by simp only [perform, hrun], hmerged, hfirms⟩
  rcases mergeFirms_cases m.context m.reads m.input db with
    ⟨reason, hrun⟩ | ⟨sourceRow, targetRow, hallowed⟩
  · have hnone : m.perform db = none := by simp only [perform, hrun]
    refine .inl ⟨hnone, fun sourceRow targetRow hallowed => ?_⟩
    obtain ⟨copied, db', hsome, -⟩ := hmade sourceRow targetRow hallowed
    rw [hnone] at hsome
    cases hsome
  · obtain ⟨copied, db', hsome, hmerged, hfirms⟩ := hmade sourceRow targetRow hallowed
    exact .inr ⟨sourceRow, targetRow, copied, db', hallowed, hsome, hmerged, hfirms⟩

/-! ## Alike but for one stop -/

/-- `lifted` is `db` with `original` and its copies lifted. -/
structure Lifted (original : SuppressionEvent) (db lifted : Database) : Prop where
  consistent : Sound db ∧ Carried db none
  sound : Sound lifted
  firms : lifted.firms = db.firms
  logged : original ∈ db.events
  kept : ∀ event ∈ db.events, event ∈ lifted.events
  stops : ∀ event ∈ lifted.events, event.supersedesEventId = none → event ∈ db.events
  superseded : ∀ event ∈ db.events, lifted.superseded event.eventId = true ↔
    db.superseded event.eventId = true ∨ Descends original.eventId event.eventId

namespace Lifted

variable {original row : SuppressionEvent} {db db' lifted lifted' : Database}
  {written : List SuppressionEvent}

theorem of_superseding (hs : Sound db) (hc : Carried db none)
    (h : Superseding db lifted original row written)
    (hrow : row.supersedesEventId.isSome = true) : Lifted original db lifted where
  consistent := ⟨hs, hc⟩
  sound := h.sound
  firms := h.firms
  logged := h.logged
  kept event hevent := h.mem.2 (.inl hevent)
  stops event hevent hstop := by
    rcases h.mem.1 hevent with hevent | rfl | hwritten
    · exact hevent
    · rw [hstop] at hrow
      cases hrow
    · have hlift := (h.lifts event hwritten).supersedes
      rw [hstop] at hlift
      cases hlift
  superseded event hevent := by
    rw [h.superseded]
    constructor
    · rintro (hold | ⟨_, -, -, hdescends⟩)
      · exact .inl hold
      · exact .inr hdescends
    · rintro (hold | hdescends)
      · exact .inl hold
      · exact .inr ⟨event, hevent, rfl, hdescends⟩

/-- A merge of both copies the same stops, and lifts the same of them. -/
theorem merged {c : Context} {source target : FirmId} {commandId : Option JsString}
    {copied copied' : List SuppressionEvent} (h : Lifted original db lifted)
    (hm : Merged c source target commandId db db' copied)
    (hm' : Merged c source target commandId lifted lifted' copied')
    (hfirms : lifted'.firms = db'.firms) : Lifted original db' lifted' where
  consistent := ⟨hm.sound h.consistent.1, hm.carried h.consistent.1 h.consistent.2⟩
  sound := hm'.sound h.sound
  firms := hfirms
  logged := hm.mem.2 (.inl h.logged)
  kept event hevent := by
    rcases hm.mem.1 hevent with hevent | ⟨first, hfirst, rfl⟩
    · exact hm'.mem.2 (.inl (h.kept event hevent))
    · obtain ⟨hin, honFirm⟩ := hm.mem_copied.1 hfirst
      exact hm'.mem.2 (.inr ⟨first, hm'.mem_copied.2 ⟨h.kept first hin, honFirm⟩, rfl⟩)
  stops event hevent hstop := by
    rcases hm'.mem.1 hevent with hevent | ⟨first, hfirst, rfl⟩
    · exact hm.mem.2 (.inl (h.stops event hevent hstop))
    · obtain ⟨hin, honFirm⟩ := hm'.mem_copied.1 hfirst
      have hplain : first.supersedesEventId = none := by simpa [copyRow] using hstop
      exact hm.mem.2 (.inr ⟨first, hm.mem_copied.2 ⟨h.stops first hin hplain, honFirm⟩, rfl⟩)
  superseded event hevent := by
    rcases hm.mem.1 hevent with hevent | ⟨first, hfirst, rfl⟩
    · rw [hm'.superseded_old h.sound (h.kept event hevent),
        hm.superseded_old h.consistent.1 hevent]
      exact h.superseded event hevent
    · obtain ⟨hin, honFirm⟩ := hm.mem_copied.1 hfirst
      have hfirst' := hm'.mem_copied.2 ⟨h.kept first hin, honFirm⟩
      rw [copyRow, hm'.superseded_copy h.sound hfirst', hm.superseded_copy h.consistent.1 hfirst,
        h.superseded first hin]
      refine or_congr_right ⟨fun hdescends => hdescends.tail (.merge target), fun hdescends => ?_⟩
      rcases hdescends.step_back (.merge target) with heq | hup
      · exact absurd heq (hm.copyable.fresh first hfirst original h.logged)
      · exact hup

theorem mergeAll (h : Lifted original db lifted) (ms : List MergeCommand) :
    Option.Rel (Lifted original) (mergeAll ms db) (mergeAll ms lifted) := by
  induction ms generalizing db lifted with
  | nil => exact .some h
  | cons m ms ih =>
    simp only [Suppression.mergeAll]
    rcases m.perform_cases h.consistent.1 with
      ⟨hnone, hnot⟩ | ⟨sourceRow, targetRow, copied, db', hallowed, hrun, hmerged, hfirms⟩
    · rcases m.perform_cases h.sound with ⟨hnone', -⟩ | ⟨sourceRow, targetRow, _, _, hallowed, -⟩
      · rw [hnone, hnone']
        exact .none
      · rw [h.firms] at hallowed
        exact absurd hallowed (hnot sourceRow targetRow)
    · rcases m.perform_cases h.sound with
        ⟨-, hnot⟩ | ⟨sourceRow', targetRow', copied', lifted', hallowed', hrun', hmerged', hfirms'⟩
      · rw [h.firms] at hnot
        exact absurd hallowed (hnot sourceRow targetRow)
      · rw [h.firms] at hallowed' hfirms'
        have hsource := hallowed.findSource.symm.trans hallowed'.findSource
        have htarget := hallowed.findTarget.symm.trans hallowed'.findTarget
        cases hsource
        cases htarget
        rw [hrun, hrun']
        exact ih (h.merged hmerged hmerged' (hfirms'.trans hfirms.symm))

/-- Alike but for the same stop, two databases suppress the same. -/
theorem effectiveOn_eq {other : Database} (h : Lifted original db lifted)
    (h' : Lifted original db other) (scope : SuppressionScope) (key : JsString)
    (channel : SuppressionChannel) :
    lifted.effectiveOn scope key channel = other.effectiveOn scope key channel := by
  have hone : ∀ {one two : Database}, Lifted original db one → Lifted original db two →
      one.effectiveOn scope key channel = true → two.effectiveOn scope key channel = true := by
    intro one two h h' heffective
    rw [effectiveOn_iff] at heffective ⊢
    obtain ⟨row, hrow, hstands, hrest⟩ := heffective
    rw [effective_iff] at hstands
    have hin := h.stops row hrow hstands.1
    refine ⟨row, h'.kept row hin, effective_iff.2 ⟨hstands.1, ?_⟩, hrest⟩
    have hfree := hstands.2
    rw [← Bool.not_eq_true, h.superseded row hin, ← h'.superseded row hin] at hfree
    exact eq_false_of_ne_true hfree
  rw [Bool.eq_iff_iff]
  exact ⟨hone h h', hone h' h⟩

end Lifted

/-! ## Either order -/

theorem Supersession.accepts_merged {s : Supersession} {c : Context} {original : SuppressionEvent}
    {m : Context} {source target : FirmId} {commandId : Option JsString} {db db' : Database}
    {copied : List SuppressionEvent} (hs : Sound db) (horiginal : original ∈ db.events)
    (h : Merged m source target commandId db db' copied) :
    s.Accepts c original db ↔ s.Accepts c original db' := by
  have hpermitted : s.Permitted c original db ↔ s.Permitted c original db' := by
    cases s with
    | correction commandId => simp only [Permitted, h.finalizations]
    | admin reason commandId => exact Iff.rfl
  constructor
  · rintro ⟨hsupported, hfree, hfresh, hallowed⟩
    refine ⟨hsupported, by rwa [h.superseded_old hs horiginal], ?_, hpermitted.1 hallowed⟩
    intro event hevent
    rcases h.mem.1 hevent with hevent | ⟨first, hfirst, rfl⟩
    · exact hfresh event hevent
    · intro heq
      have hof : CopyOf first.eventId (s.row c original).eventId := heq ▸ .merge target
      have hcopy := hof.isMergeCopyId
      rw [row_plain] at hcopy
      cases hcopy
  · rintro ⟨hsupported, hfree, hfresh, hallowed⟩
    refine ⟨hsupported, by rwa [h.superseded_old hs horiginal] at hfree, ?_,
      hpermitted.2 hallowed⟩
    exact fun event hevent => hfresh event (h.mem.2 (.inl hevent))

/-- Merges that are made keep the tables consistent, and whether a supersession is accepted. -/
theorem mergeAll_kept {ms : List MergeCommand} {db merged : Database} (hc : Consistent db)
    (h : mergeAll ms db = some merged) {original : SuppressionEvent}
    (horiginal : original ∈ db.events) :
    Consistent merged ∧ original ∈ merged.events ∧ ∀ (s : Supersession) (c : Context),
      s.Accepts c original db ↔ s.Accepts c original merged := by
  induction ms generalizing db with
  | nil =>
    cases h
    exact ⟨hc, horiginal, fun _ _ => Iff.rfl⟩
  | cons m ms ih =>
    simp only [mergeAll] at h
    obtain ⟨db', hrun, hrest⟩ := Option.bind_eq_some_iff.1 h
    rcases m.perform_cases hc.sound with ⟨hnone, -⟩ | ⟨_, _, copied, db'', -, hrun', hmerged, -⟩
    · rw [hnone] at hrun
      cases hrun
    · rw [hrun'] at hrun
      cases hrun
      obtain ⟨hconsistent, hin, haccepts⟩ :=
        ih (Merged.consistent hmerged hc) hrest (hmerged.mem.2 (.inl horiginal))
      refine ⟨hconsistent, hin, fun s c => ?_⟩
      exact (Supersession.accepts_merged hc.sound horiginal hmerged).trans (haccepts s c)

/-- One order is accepted when the other is. -/
private theorem either_accepted {db : Database} (hc : Consistent db) (s : Supersession)
    (c : Context) (ms : List MergeCommand) {original : SuppressionEvent}
    (horiginal : original ∈ db.events) :
    ((s.perform c original.eventId db).bind (mergeAll ms)).isSome
      = ((mergeAll ms db).bind fun merged => s.perform c original.eventId merged).isSome := by
  have hmerges : ∀ merged, mergeAll ms db = some merged →
      ((s.perform c original.eventId merged).isSome = true ↔
        (s.perform c original.eventId db).isSome = true) := by
    intro merged hmerged
    obtain ⟨hconsistent, hin, haccepts⟩ := mergeAll_kept hc hmerged horiginal
    rw [Supersession.perform_isSome hconsistent hin, Supersession.perform_isSome hc horiginal]
    exact (haccepts s c).symm
  cases hfirst : s.perform c original.eventId db with
  | none =>
    cases hmerged : mergeAll ms db with
    | none => rfl
    | some merged =>
      have hiff := hmerges merged hmerged
      rw [hfirst] at hiff
      simp only [Option.bind_none, Option.bind_some, Option.isSome_none]
      rw [Bool.eq_iff_iff, hiff, Option.isSome_none]
  | some lifted =>
    obtain ⟨-, written, hsuperseding⟩ := Supersession.perform_spec hc horiginal hfirst
    have halike := (Lifted.of_superseding hc.sound hc.carried hsuperseding
      (by rw [Supersession.row_supersedes]; rfl)).mergeAll ms
    cases hmerged : mergeAll ms db with
    | none =>
      rw [hmerged] at halike
      generalize hlifted : mergeAll ms lifted = result at halike
      cases halike
      simp only [Option.bind_none, Option.bind_some, hlifted]
    | some merged =>
      have hiff := hmerges merged hmerged
      rw [hmerged] at halike
      generalize hlifted : mergeAll ms lifted = result at halike
      cases halike
      simp only [Option.bind_some, hlifted]
      rw [Bool.eq_iff_iff, hiff, hfirst]
      exact Iff.rfl

/-- The order of a supersession and of the merges does not show in what is suppressed. -/
private theorem either_order {db : Database} (hc : Consistent db) (s : Supersession)
    (c c' : Context) (ms : List MergeCommand) {original : SuppressionEvent}
    (horiginal : original ∈ db.events) {before after : Database}
    (hbefore : (s.perform c original.eventId db).bind (mergeAll ms) = some before)
    (hafter : ((mergeAll ms db).bind fun merged => s.perform c' original.eventId merged)
      = some after)
    (scope : SuppressionScope) (key : JsString) (channel : SuppressionChannel) :
    before.effectiveOn scope key channel = after.effectiveOn scope key channel := by
  obtain ⟨lifted, hlift, hmerge⟩ := Option.bind_eq_some_iff.1 hbefore
  obtain ⟨merged, hmerge', hlift'⟩ := Option.bind_eq_some_iff.1 hafter
  have hsome : ∀ c, (s.row c original).supersedesEventId.isSome = true := by
    intro c
    rw [Supersession.row_supersedes]
    rfl
  obtain ⟨-, written, hsuperseding⟩ := Supersession.perform_spec hc horiginal hlift
  have halike :=
    (Lifted.of_superseding hc.sound hc.carried hsuperseding (hsome c)).mergeAll ms
  rw [hmerge, hmerge'] at halike
  obtain ⟨hconsistent, hin, -⟩ := mergeAll_kept hc hmerge' horiginal
  obtain ⟨-, written', hsuperseding'⟩ := Supersession.perform_spec hconsistent hin hlift'
  cases halike with
  | some halike =>
    exact halike.effectiveOn_eq (Lifted.of_superseding hconsistent.sound hconsistent.carried
      hsuperseding' (hsome c')) scope key channel

/-- A lift in the log lifts a descendant of what its first writing superseded. -/
private theorem lift_of_ancestor {db : Database} (hs : Sound db) {lift : SuppressionEvent}
    (hlift : lift ∈ db.events) {lifted : JsString} (hid : lift.supersedesEventId = some lifted) :
    ∃ first ∈ db.events, isMergeCopyId first.eventId = false ∧
      Descends first.eventId lift.eventId ∧
      ∃ stop, first.supersedesEventId = some stop ∧ Descends stop lifted := by
  obtain ⟨first, hfirst, hplain, hdescends⟩ := hs.exists_root hlift
  refine ⟨first, hfirst, hplain, hdescends, ?_⟩
  have hsource := (hs.inherited hfirst hdescends hlift rfl).1
  have hchecks := hs.checks lift hlift
  have hchecks' := hs.checks first hfirst
  simp only [suppressionChecks, Bool.and_eq_true, beq_iff_eq] at hchecks hchecks'
  have hsome : first.supersedesEventId.isSome = true := by
    rw [← hchecks'.1.1, hsource, hchecks.1.1, hid]
    rfl
  obtain ⟨stop, hstop⟩ := Option.isSome_iff_exists.1 hsome
  obtain ⟨stopped, hstopped, hbelow⟩ := hs.lift_descends hfirst hstop hdescends hlift rfl
  rw [hid] at hstopped
  cases hstopped
  exact ⟨stop, hstop, hbelow⟩

/-- Merging commutes with lifting, and only descendants of what is superseded are lifted. -/
theorem mergesCommute (w : Workspace) (firms : Firms) (history : List Transaction) :
    (∀ (m : MergeCommand) (merged : Database),
      m.perform (World.after w firms history).db = some merged → ∀ channel,
      merged.effectiveOn .firm m.input.targetFirmId.text channel
        = ((World.after w firms history).db.effectiveOn .firm m.input.targetFirmId.text channel ||
          (World.after w firms history).db.effectiveOn .firm m.input.sourceFirmId.text channel)) ∧
    (∀ (s : Supersession) (ms : List MergeCommand),
      ∀ original ∈ (World.after w firms history).db.events,
      (∀ c, ((s.perform c original.eventId (World.after w firms history).db).bind
          (mergeAll ms)).isSome
        = ((mergeAll ms (World.after w firms history).db).bind fun merged =>
          s.perform c original.eventId merged).isSome) ∧
      ∀ c c' before after,
        (s.perform c original.eventId (World.after w firms history).db).bind (mergeAll ms)
          = some before →
        ((mergeAll ms (World.after w firms history).db).bind fun merged =>
          s.perform c' original.eventId merged) = some after →
        ∀ scope key channel,
          before.effectiveOn scope key channel = after.effectiveOn scope key channel) ∧
    (∀ (s : Supersession) (c : Context) (lifted : Database),
      ∀ original ∈ (World.after w firms history).db.events,
      s.perform c original.eventId (World.after w firms history).db = some lifted →
      ∀ event ∈ (World.after w firms history).db.events,
        (lifted.superseded event.eventId = true ↔
          (World.after w firms history).db.superseded event.eventId = true ∨
          Descends original.eventId event.eventId)) ∧
    ∀ lift ∈ (World.after w firms history).db.events, ∀ lifted,
      lift.supersedesEventId = some lifted →
      ∃ first ∈ (World.after w firms history).db.events, isMergeCopyId first.eventId = false ∧
        Descends first.eventId lift.eventId ∧
        ∃ stop, first.supersedesEventId = some stop ∧ Descends stop lifted := by
  have hc := World.consistent w firms history
  generalize (World.after w firms history).db = db at hc
  refine ⟨fun m merged hrun channel => ?_, fun s ms original horiginal => ⟨fun c => ?_, ?_⟩,
    fun s c lifted original horiginal hrun event hevent => ?_, fun lift hlift lifted hid => ?_⟩
  · rcases m.perform_cases hc.sound with ⟨hnone, -⟩ | ⟨_, _, copied, db', -, hsome, hmerged, -⟩
    · rw [hnone] at hrun
      cases hrun
    · rw [hsome] at hrun
      cases hrun
      rw [Bool.eq_iff_iff, hmerged.effectiveOn_iff hc.sound, Bool.or_eq_true]
      simp only [true_and]
  · exact either_accepted hc s c ms horiginal
  · intro c c' before after hbefore hafter
    exact either_order hc s c c' ms horiginal hbefore hafter
  · obtain ⟨-, written, hsuperseding⟩ := Supersession.perform_spec hc horiginal hrun
    exact (Lifted.of_superseding hc.sound hc.carried hsuperseding
      (by rw [Supersession.row_supersedes]; rfl)).superseded event hevent
  · exact lift_of_ancestor hc.sound hlift hid

def mergeOfTwoFirms : MergeCommand where
  context := ⟨hashedWorkspace.platform, hashedWorkspace.id, .user owningUserId .salesperson, 60000,
    js "0e7d6c5b-4a39-4281-9f01-8c7b6a5d4e3f"⟩
  reads := ⟨fun _ => false, fun _ => false⟩
  input := ⟨mergedFirm, survivingFirm, fun _ => none, some (js "merge-1")⟩

def correctionOfStop : Supersession := .correction (some (js "correct-1"))

/-- The correction of a stop, before and after the firm is merged. -/
theorem mergesCommute_twoFirms :
    ∃ before after,
      (correctionOfStop.perform mergeOfTwoFirms.context manualStopId (World.after hashedWorkspace
        twoFirms [committed 0 (.recordSuppression manualStop)]).db).bind
          (mergeAll [mergeOfTwoFirms]) = some before ∧
      ((mergeAll [mergeOfTwoFirms] (World.after hashedWorkspace twoFirms
        [committed 0 (.recordSuppression manualStop)]).db).bind fun merged =>
          correctionOfStop.perform mergeOfTwoFirms.context manualStopId merged) = some after ∧
      before.effectiveOn .firm survivingFirm.text .all
        = after.effectiveOn .firm survivingFirm.text .all := by
  obtain ⟨hlogged, hfirst⟩ :
      ((World.after hashedWorkspace twoFirms
        [committed 0 (.recordSuppression manualStop)]).db.events.find? manualStopId).isSome = true ∧
      ((correctionOfStop.perform mergeOfTwoFirms.context manualStopId (World.after hashedWorkspace
        twoFirms [committed 0 (.recordSuppression manualStop)]).db).bind
          (mergeAll [mergeOfTwoFirms])).isSome = true := by
    decide +kernel
  obtain ⟨original, hfind⟩ := Option.isSome_iff_exists.1 hlogged
  obtain ⟨horiginal, hid⟩ := Table.find?_eq_some.1 hfind
  obtain ⟨before, hbefore⟩ := Option.isSome_iff_exists.1 hfirst
  have horders := (mergesCommute hashedWorkspace twoFirms
    [committed 0 (.recordSuppression manualStop)]).2.1 correctionOfStop [mergeOfTwoFirms] original
      horiginal
  rw [hid] at horders
  have hsecond := horders.1 mergeOfTwoFirms.context
  rw [hfirst] at hsecond
  obtain ⟨after, hafter⟩ := Option.isSome_iff_exists.1 hsecond.symm
  exact ⟨before, after, hbefore, hafter, horders.2 _ _ before after hbefore hafter _ _ _⟩

end FoundingSales.Suppression
