import FoundingSales.Mail.Ambiguity
import FoundingSales.Mail.EffectWrites

/-!
What a processing leaves with nothing to do, and that a processing with nothing to do writes
nothing.

Proved here:

* `recordMatchesForImport_again`: an import of stored candidates;
* `replyCandidate_settles`, `bounceCandidate_settles`, `promoteCandidate_settles`,
  `suppressOnce_settles`: each stage settles its candidate, and keeps the others settled;
* `applyClass_settles`, `applyClass_unchanged`: the consequences of a class.
-/

namespace FoundingSales.Mail.Effects

open Tables Crm Matches Sequences

/-! ## The import -/

section Imports

variable {known : MatchCandidate → Bool} {messageId : Uuid} {ambiguous : Bool}
  {candidates : List MatchCandidate} {m m' : MatchStore}

/-- A candidate that is stored is left as it is. -/
theorem recordCandidate_found {candidate : MatchCandidate} {row : Match}
    (h : m.matches_.find? (matchAuthorityKey candidate) = some row) :
    recordCandidate known messageId ambiguous candidate m = some (row.holdId, m) := by
  unfold recordCandidate
  rw [h]

variable (known messageId ambiguous) in
theorem recordCandidates_found (h : ∀ candidate ∈ candidates,
    (m.matches_.find? (matchAuthorityKey candidate)).isSome = true) :
    ∃ holdIds, recordCandidates known messageId ambiguous candidates m = some (holdIds, m) := by
  induction candidates with
  | nil => exact ⟨[], rfl⟩
  | cons candidate rest ih =>
    obtain ⟨row, hrow⟩ := Option.isSome_iff_exists.1 (h candidate List.mem_cons_self)
    obtain ⟨holdIds, hrest⟩ := ih fun other hother => h other (List.mem_cons_of_mem _ hother)
    refine ⟨row.holdId.toList ++ holdIds, ?_⟩
    simp only [recordCandidates, recordCandidate_found hrow, hrest, Option.bind_eq_bind,
      Option.bind_some]

theorem recordCandidate_finds {candidate : MatchCandidate} {holdId : Option HoldId}
    (h : recordCandidate known messageId ambiguous candidate m = some (holdId, m')) :
    (m'.matches_.find? (matchAuthorityKey candidate)).isSome = true := by
  unfold recordCandidate at h
  split at h
  · next found hfound =>
    cases h
    rw [hfound]
    rfl
  · split at h
    · split at h
      all_goals
        obtain ⟨rows, hinsert, heq⟩ := Option.map_eq_some_iff.1 h
        cases heq
        exact Option.isSome_iff_exists.2 ⟨_, Table.find?_insert?_self hinsert⟩
    · cases h

/-- Every candidate of an import is stored. -/
theorem recordCandidates_finds {holdIds : List HoldId}
    (h : recordCandidates known messageId ambiguous candidates m = some (holdIds, m')) :
    ∀ candidate ∈ candidates,
      (m'.matches_.find? (matchAuthorityKey candidate)).isSome = true := by
  induction candidates generalizing m holdIds with
  | nil =>
    intro candidate hmem
    cases hmem
  | cons first rest ih =>
    simp only [recordCandidates, Option.bind_eq_bind, Option.bind_eq_some_iff] at h
    obtain ⟨⟨holdId, middle⟩, hfirst, ⟨restIds, last⟩, hrest, heq⟩ := h
    obtain ⟨-, rfl⟩ := Prod.mk.inj (Option.some.inj heq)
    intro candidate hmem
    rcases List.mem_cons.1 hmem with rfl | hmem
    · obtain ⟨row, hrow⟩ := Option.isSome_iff_exists.1 (recordCandidate_finds hfirst)
      obtain ⟨rows, holds, hrows, -⟩ := recordCandidates_spec hrest
      obtain ⟨hin, hkey⟩ := Table.find?_eq_some.1 hrow
      refine Option.isSome_iff_exists.2 ⟨row, Table.find?_eq_some.2 ⟨?_, hkey⟩⟩
      rw [← Table.mem_rows, hrows]
      exact List.mem_append_left _ hin
    · exact ih hrest candidate hmem

variable {s : Matches.Store} {s' : Matches.Store}

/-- An import that is not a direct send records its candidates. -/
theorem recordMatchesForImport_spec {recorded : Option RecordedMatches}
    (h : recordMatchesForImport candidates [] false s = .accept recorded s') :
    ∃ holdIds stored ambiguous, recordCandidates s.known s.message.id ambiguous candidates s.stored
        = some (holdIds, stored) ∧ s' = { s with stored := stored } := by
  unfold recordMatchesForImport at h
  simp only [Bool.false_and, Bool.false_eq_true, if_false] at h
  split at h
  · cases h
  · next recorded stored hrecord =>
    cases h
    obtain ⟨⟨holdIds, stored'⟩, hcandidates, heq⟩ := Option.map_eq_some_iff.1 hrecord
    obtain ⟨-, rfl⟩ := Prod.mk.inj heq
    exact ⟨holdIds, stored', _, hcandidates, rfl⟩

/-- An import of stored candidates writes nothing. -/
theorem recordMatchesForImport_again (h : ∀ candidate ∈ candidates,
    (s.stored.matches_.find? (matchAuthorityKey candidate)).isSome = true) :
    ∃ recorded, recordMatchesForImport candidates [] false s = .accept recorded s := by
  obtain ⟨holdIds, hcandidates⟩ := recordCandidates_found s.known s.message.id
    (isAmbiguous s.stored.matches_ candidates) h
  refine ⟨some ⟨candidates, isAmbiguous s.stored.matches_ candidates, holdIds⟩, ?_⟩
  unfold recordMatchesForImport
  simp only [Bool.false_and, Bool.false_eq_true, if_false, importedCandidates, recordMatches,
    hcandidates, Option.map_some]

end Imports

/-! ## Settled replies -/

section Replies

variable {r : Reply} {s s' : Store} {firmId : FirmId}

/-- The interrupted plans of a firm wait for a review, and none of their fences is prepared. -/
def MeetingsSettled (r : Reply) (firmId : FirmId) (s : Store) : Prop :=
  stoppable firmId s = true → ∀ plan ∈ s.meetingPlans, plan.reached firmId r.internalDate = true →
    (js "reply_received" ∈ plan.blockers ∧ plan.status = .needsReview) ∧
      ∀ fence ∈ s.fences, plan.outboundMessageId = some fence.id → fence.state ≠ .prepared

theorem interrupt_settles (reason : JsString) (plan : MeetingPlan) :
    reason ∈ (plan.interrupt reason).blockers ∧ (plan.interrupt reason).status = .needsReview ∧
      (plan.interrupt reason).outboundMessageId = plan.outboundMessageId := by
  unfold MeetingPlan.interrupt
  split
  · next hsettled =>
    simp only [Bool.and_eq_true, decide_eq_true_eq] at hsettled
    exact ⟨hsettled.1, hsettled.2, rfl⟩
  · exact ⟨List.mem_eraseDups.2 (List.mem_append_right _ List.mem_cons_self), rfl, rfl⟩

/-- The rows an interruption leaves, from those it found. -/
theorem interruptMeetingPlansForFirm_rows (h : stoppable firmId s = true) (reason : JsString)
    (time : Instant) :
    (interruptMeetingPlansForFirm firmId reason time s).meetingPlans
        = s.meetingPlans.map (fun plan =>
          if plan.reached firmId time then plan.interrupt reason else plan) ∧
      ∀ fence ∈ (interruptMeetingPlansForFirm firmId reason time s).fences,
        fence.state = .prepared → fence ∈ s.fences ∧
          ∀ plan ∈ s.meetingPlans, plan.reached firmId time = true →
            plan.outboundMessageId ≠ some fence.id := by
  unfold interruptMeetingPlansForFirm
  rw [if_pos h]
  refine ⟨rfl, fun fence hmem hprepared => ?_⟩
  change fence ∈ holdPreparedMeetingFence _ _ at hmem
  unfold holdPreparedMeetingFence at hmem
  obtain ⟨before, hbefore, rfl⟩ := Table.mem_update.1 hmem
  split at hprepared
  · cases hprepared
  · next hguard =>
    rw [if_neg hguard]
    refine ⟨hbefore, fun plan hplan hreached hpoints => hguard ?_⟩
    simp only [Bool.and_eq_true, decide_eq_true_eq, List.any_eq_true, List.mem_filter]
    exact ⟨hprepared, plan, ⟨hplan, hreached⟩, hpoints⟩

theorem interrupt_done (r : Reply) (firmId : FirmId) (s : Store) : MeetingsSettled r firmId
    (interruptMeetingPlansForFirm firmId (js "reply_received") r.internalDate s) := by
  intro hstoppable plan hplan hreached
  have hcan : stoppable firmId s = true := by
    obtain ⟨hwrites, -⟩ := interrupt_writes r [] [] firmId (js "reply_received") r.internalDate s
    unfold stoppable at hstoppable ⊢
    rwa [hwrites.frame.crm] at hstoppable
  obtain ⟨hplans, hfences⟩ :=
    interruptMeetingPlansForFirm_rows hcan (js "reply_received") r.internalDate
  rw [hplans] at hplan
  obtain ⟨before, hbefore, rfl⟩ := List.mem_map.1 hplan
  split at hreached
  · next hwas =>
    rw [if_pos hwas]
    obtain ⟨hblocked, hstatus, hsame⟩ := interrupt_settles (js "reply_received") before
    refine ⟨⟨hblocked, hstatus⟩, fun fence hfence hpoints hprepared => ?_⟩
    exact (hfences fence hfence hprepared).2 before hbefore hwas (hsame.symm.trans hpoints)
  · next hwas => exact absurd hreached hwas

theorem MeetingsSettled.kept {other : FirmId} (h : MeetingsSettled r firmId s) :
    MeetingsSettled r firmId
      (interruptMeetingPlansForFirm other (js "reply_received") r.internalDate s) := by
  cases hcan : stoppable other s with
  | false =>
    have hsame : interruptMeetingPlansForFirm other (js "reply_received") r.internalDate s = s := by
      unfold interruptMeetingPlansForFirm
      exact if_neg (Bool.eq_false_iff.1 hcan)
    rw [hsame]
    exact h
  | true =>
    intro hstoppable plan hplan hreached
    have hwas : stoppable firmId s = true := by
      obtain ⟨hwrites, -⟩ := interrupt_writes r [] [] other (js "reply_received") r.internalDate s
      unfold stoppable at hstoppable ⊢
      rwa [hwrites.frame.crm] at hstoppable
    obtain ⟨hplans, hfences⟩ :=
      interruptMeetingPlansForFirm_rows hcan (js "reply_received") r.internalDate
    rw [hplans] at hplan
    obtain ⟨before, hbefore, rfl⟩ := List.mem_map.1 hplan
    split at hreached
    · next hinterrupted =>
      rw [if_pos hinterrupted]
      obtain ⟨hblocked, hstatus, hsame⟩ := interrupt_settles (js "reply_received") before
      refine ⟨⟨hblocked, hstatus⟩, fun fence hfence hpoints hprepared => ?_⟩
      exact (hfences fence hfence hprepared).2 before hbefore hinterrupted (hsame.symm.trans hpoints)
    · next huntouched =>
      rw [if_neg huntouched]
      obtain ⟨hsettled, hfence⟩ := h hwas before hbefore hreached
      refine ⟨hsettled, fun fence hmem hpoints hprepared => ?_⟩
      exact hfence fence (hfences fence hmem hprepared).1 hpoints hprepared

theorem MeetingsSettled.unchanged (h : MeetingsSettled r firmId s) :
    interruptMeetingPlansForFirm firmId (js "reply_received") r.internalDate s = s := by
  cases hcan : stoppable firmId s with
  | false =>
    unfold interruptMeetingPlansForFirm
    exact if_neg (Bool.eq_false_iff.1 hcan)
  | true =>
    unfold interruptMeetingPlansForFirm
    rw [if_pos hcan]
    have hfences : holdPreparedMeetingFence
        (s.meetingPlans.filter (MeetingPlan.reached firmId r.internalDate)) s.fences
          = s.fences := by
      apply Table.update_eq_self
      intro fence hfence
      apply Bool.eq_false_iff.2
      simp only [ne_eq, Bool.and_eq_true, decide_eq_true_eq, List.any_eq_true, List.mem_filter]
      rintro ⟨hprepared, plan, ⟨hplan, hreached⟩, hpoints⟩
      exact (h hcan plan hplan hreached).2 fence hfence hpoints hprepared
    have hplans : (s.meetingPlans.map fun plan =>
        if plan.reached firmId r.internalDate then plan.interrupt (js "reply_received") else plan)
          = s.meetingPlans := by
      calc (s.meetingPlans.map fun plan => if plan.reached firmId r.internalDate
            then plan.interrupt (js "reply_received") else plan)
          = s.meetingPlans.map id := by
            refine List.map_congr_left fun plan hplan => ?_
            split
            · next hreached =>
              obtain ⟨⟨hblocked, hstatus⟩, -⟩ := h hcan plan hplan hreached
              simp [MeetingPlan.interrupt, hblocked, hstatus]
            · rfl
        _ = s.meetingPlans := List.map_id _
    simp only [hfences, hplans]

theorem mem_coldEnrollments {t : SequenceTables} {id : Uuid} : id ∈ coldEnrollments firmId t ↔
    ∃ row ∈ t.enrollments, row.firmId = firmId.text ∧
      (row.originKind = .prospecting ∨ row.originKind = .coldLegacy) ∧ row.endedAt = none ∧
      row.id = id := by
  simp only [coldEnrollments, List.mem_map, List.mem_filter, Bool.and_eq_true, Bool.or_eq_true,
    decide_eq_true_eq, Option.isNone_iff_eq_none, Table.mem_rows, and_assoc]

/-- Where a stop of the cold outreach leaves an enrollment live, it was live before, and it is none
of those it stopped. -/
theorem stopColdEnrollments_live {now : Micros} (h : stopColdEnrollments firmId now s = some s') :
    ∀ row ∈ s'.sequences.enrollments, row.endedAt = none →
      row ∈ s.sequences.enrollments ∧ row.id ∉ coldEnrollments firmId s.sequences := by
  unfold stopColdEnrollments at h
  split at h
  · next hnone =>
    cases h
    intro row hrow _
    rw [hnone]
    exact ⟨hrow, List.not_mem_nil⟩
  · next ids hids =>
    obtain ⟨⟨sequences, stopped⟩, hstop, rfl⟩ := Option.map_eq_some_iff.1 h
    unfold stopEnrollments at hstop
    simp only [StopEnrollmentsInput.names, Option.isSome_some, Bool.or_true, if_true,
      Option.some.injEq, Prod.mk.injEq] at hstop
    obtain ⟨rfl, -⟩ := hstop
    intro row hrow hlive
    have hfind := Table.find?_eq_some.2 ⟨hrow, rfl⟩
    rw [TerminalStop.find?_write] at hfind
    obtain ⟨before, hbefore, heq⟩ := Option.map_eq_some_iff.1 hfind
    replace hbefore := (Table.find?_eq_some.1 hbefore).1
    split at heq
    · rw [← heq] at hlive
      cases hlive
    · next hguard =>
      subst heq
      refine ⟨hbefore, fun hcold => hguard ?_⟩
      simp only [Bool.and_eq_true, decide_eq_true_eq, Option.isNone_iff_eq_none]
      refine ⟨?_, hlive⟩
      show before.id ∈ (s.sequences.enrollments.rows.filter (StopEnrollmentsInput.covers
        ⟨none, none, none, some (coldEnrollments firmId s.sequences), .humanReply, none⟩)).map
          EnrollmentRow.id
      refine List.mem_map_of_mem (List.mem_filter.2 ⟨hbefore, ?_⟩)
      simp [StopEnrollmentsInput.covers, hlive, hcold]

theorem stopColdEnrollments_done {now : Micros} (h : stopColdEnrollments firmId now s = some s') :
    coldEnrollments firmId s'.sequences = [] := by
  apply List.eq_nil_iff_forall_not_mem.2
  intro id hid
  obtain ⟨row, hrow, hfirm, horigin, hlive, rfl⟩ := mem_coldEnrollments.1 hid
  obtain ⟨hbefore, hnot⟩ := stopColdEnrollments_live h row hrow hlive
  exact hnot (mem_coldEnrollments.2 ⟨row, hbefore, hfirm, horigin, hlive, rfl⟩)

theorem stopColdEnrollments_kept {now : Micros} {other : FirmId}
    (h : stopColdEnrollments other now s = some s')
    (hcold : coldEnrollments firmId s.sequences = []) : coldEnrollments firmId s'.sequences = [] := by
  apply List.eq_nil_iff_forall_not_mem.2
  intro id hid
  obtain ⟨row, hrow, hfirm, horigin, hlive, rfl⟩ := mem_coldEnrollments.1 hid
  obtain ⟨hbefore, -⟩ := stopColdEnrollments_live h row hrow hlive
  have hin : row.id ∈ coldEnrollments firmId s.sequences :=
    mem_coldEnrollments.2 ⟨row, hbefore, hfirm, horigin, hlive, rfl⟩
  rw [hcold] at hin
  cases hin

/-- No active plan goes under the id. -/
def PlanPended (id : Uuid) (s : Store) : Prop :=
  ∀ plan ∈ s.matching.plans, plan.id = id → plan.state ≠ .active

theorem pendPlan_kept {id other : Uuid} (h : PlanPended id s) : PlanPended id (pendPlan other s) := by
  intro plan hplan hid
  change plan ∈ pendActive other s.matching.plans at hplan
  unfold pendActive at hplan
  obtain ⟨before, hbefore, rfl⟩ := Table.mem_update.1 hplan
  split
  · nofun
  · next hguard =>
    rw [if_neg hguard] at hid
    exact h before hbefore hid

theorem pendPlan_done (id : Uuid) (s : Store) : PlanPended id (pendPlan id s) := by
  intro plan hplan hid
  change plan ∈ pendActive id s.matching.plans at hplan
  unfold pendActive at hplan
  obtain ⟨before, hbefore, rfl⟩ := Table.mem_update.1 hplan
  split
  · nofun
  · next hguard =>
    rw [if_neg hguard] at hid
    intro hactive
    exact hguard (by simp [hid, hactive])

theorem pendPlan_unchanged {id : Uuid} (h : PlanPended id s) : pendPlan id s = s := by
  unfold pendPlan
  have hsame : pendActive id s.matching.plans = s.matching.plans := by
    apply Table.update_eq_self
    intro plan hplan
    apply Bool.eq_false_iff.2
    simp only [ne_eq, Bool.and_eq_true, decide_eq_true_eq]
    rintro ⟨hid, hactive⟩
    exact h plan hplan hid hactive
  simp only [hsame]

/-- A reply's candidate with nothing left to do. -/
structure ReplySettled (r : Reply) (candidate : MatchCandidate) (s : Store) : Prop where
  plan : ∀ id, candidate.authority = .outreachPlan id →
    PlanPended id s ∧ coldEnrollments candidate.firmId s.sequences = []
  meetings : MeetingsSettled r candidate.firmId s
  held : effectRecorded .holdOpened (holdTarget .uncertainReply candidate) s = true

/-- A write that leaves what a reply's candidate settles alone, and only adds effects. -/
structure SameWork (s s' : Store) : Prop where
  plans : s'.matching.plans = s.matching.plans
  crm : s'.matching.crm = s.matching.crm
  sequences : s'.sequences = s.sequences
  meetingPlans : s'.meetingPlans = s.meetingPlans
  fences : s'.fences = s.fences
  effects : ∀ effect ∈ s.effects, effect ∈ s'.effects

theorem SameWork.trans {t : Store} (h : SameWork s t) (h' : SameWork t s') : SameWork s s' :=
  ⟨h'.plans.trans h.plans, h'.crm.trans h.crm, h'.sequences.trans h.sequences,
    h'.meetingPlans.trans h.meetingPlans, h'.fences.trans h.fences,
    fun effect hmem => h'.effects effect (h.effects effect hmem)⟩

theorem SameWork.recorded (h : SameWork s s') {kind : MailEffectKind} {targetKey : JsString}
    (hrecorded : effectRecorded kind targetKey s = true) :
    effectRecorded kind targetKey s' = true := by
  obtain ⟨effect, hmem, hwhat⟩ := effectRecorded_iff.1 hrecorded
  exact effectRecorded_iff.2 ⟨effect, h.effects effect hmem, hwhat⟩

theorem MeetingsSettled.same (h : MeetingsSettled r firmId s) (hsame : SameWork s s') :
    MeetingsSettled r firmId s' := by
  unfold MeetingsSettled stoppable at h ⊢
  rw [hsame.crm, hsame.meetingPlans, hsame.fences]
  exact h

theorem ReplySettled.same {candidate : MatchCandidate} (h : ReplySettled r candidate s)
    (hsame : SameWork s s') : ReplySettled r candidate s' := by
  refine ⟨fun id hauthority => ?_, h.meetings.same hsame, hsame.recorded h.held⟩
  obtain ⟨hpended, hcold⟩ := h.plan id hauthority
  unfold PlanPended at hpended ⊢
  rw [hsame.plans, hsame.sequences]
  exact ⟨hpended, hcold⟩

theorem holdCandidate_same {input : HoldInput} {candidate : MatchCandidate} {x x' : Session}
    (h : holdCandidate input candidate x = some x') : SameWork x.store x'.store := by
  simp only [holdCandidate] at h
  split at h
  · cases h
    exact ⟨rfl, rfl, rfl, rfl, rfl, fun _ hmem => hmem⟩
  · obtain ⟨⟨inserted, store⟩, heffect, rfl⟩ := Option.map_eq_some_iff.1 h
    rcases recordEffect_spec heffect with ⟨-, t, hinsert, rfl⟩ | ⟨-, rfl, -⟩
    · exact ⟨rfl, rfl, rfl, rfl, rfl, fun _ hmem => (Table.mem_insert? hinsert).2 (.inl hmem)⟩
    · exact ⟨rfl, rfl, rfl, rfl, rfl, fun _ hmem => hmem⟩

/-- A hold that is recorded changes no row. -/
theorem holdCandidate_unchanged (input : HoldInput) {candidate : MatchCandidate} {x : Session}
    (h : effectRecorded .holdOpened (holdTarget input.reasonCode candidate) x.store = true) :
    ∃ x', holdCandidate input candidate x = some x' ∧ x'.store = x.store := by
  simp only [holdCandidate, h, if_true]
  exact ⟨_, rfl, rfl⟩

/-- What the plan of a candidate loses stays lost. -/
theorem plan_kept {now : Micros} {candidate : MatchCandidate} {id : Uuid}
    (h : pendCandidate now candidate s = some s')
    (hplan : PlanPended id s ∧ coldEnrollments firmId s.sequences = []) :
    PlanPended id s' ∧ coldEnrollments firmId s'.sequences = [] := by
  unfold pendCandidate at h
  split at h
  · next planId _ =>
    refine ⟨?_, stopColdEnrollments_kept (s := pendPlan planId s) h hplan.2⟩
    obtain ⟨sequences, rfl⟩ := stopColdEnrollments_spec h
    exact pendPlan_kept hplan.1
  · cases h
    exact hplan

theorem plan_meetings {now : Micros} {candidate : MatchCandidate}
    (h : pendCandidate now candidate s = some s')
    (hmeetings : MeetingsSettled r firmId s) : MeetingsSettled r firmId s' := by
  unfold pendCandidate at h
  split at h
  · obtain ⟨sequences, rfl⟩ := stopColdEnrollments_spec h
    exact hmeetings
  · cases h
    exact hmeetings

theorem interrupt_rest (firmId : FirmId) (reason : JsString) (time : Instant) (s : Store) :
    (interruptMeetingPlansForFirm firmId reason time s).matching = s.matching ∧
      (interruptMeetingPlansForFirm firmId reason time s).sequences = s.sequences ∧
      (interruptMeetingPlansForFirm firmId reason time s).effects = s.effects := by
  unfold interruptMeetingPlansForFirm
  split
  · exact ⟨rfl, rfl, rfl⟩
  · exact ⟨rfl, rfl, rfl⟩

/-- A plan's state after an interruption and what changes nothing of it. -/
theorem PlanPended.same {t : Store} {id : Uuid} {other : FirmId} {reason : JsString} {time : Instant}
    (h : PlanPended id s ∧ coldEnrollments firmId s.sequences = [])
    (hsame : SameWork (interruptMeetingPlansForFirm other reason time s) t) :
    PlanPended id t ∧ coldEnrollments firmId t.sequences = [] := by
  obtain ⟨hmatching, hsequences, -⟩ := interrupt_rest other reason time s
  unfold PlanPended
  rw [hsame.plans, hsame.sequences, hmatching, hsequences]
  exact h

theorem replyCandidate_settles (r : Reply) (now : Micros) :
    Replays.Settles Session.store (replyCandidate r now) (ReplySettled r) := by
  constructor
  · intro x x' candidate h
    obtain ⟨stopped, hstopped, -, -, hhold⟩ := replyCandidate_spec [] [] h
    have hsame := holdCandidate_same hhold
    obtain ⟨-, -, -, hheld⟩ := holdCandidate_spec [] (r := r) (.inl rfl) (List.mem_singleton_self candidate) hhold
    refine ⟨fun id hauthority => ?_, (interrupt_done r candidate.firmId stopped).same hsame, hheld⟩
    unfold pendCandidate at hstopped
    rw [hauthority] at hstopped
    have hcold : coldEnrollments candidate.firmId stopped.sequences = [] :=
      stopColdEnrollments_done hstopped
    have hpended : PlanPended id stopped := by
      obtain ⟨sequences, rfl⟩ := stopColdEnrollments_spec hstopped
      exact pendPlan_done id x.store
    exact PlanPended.same ⟨hpended, hcold⟩ hsame
  · intro x x' candidate other hsettled h
    obtain ⟨stopped, hstopped, hwrites, -, hhold⟩ := replyCandidate_spec [] [] h
    have hsame := holdCandidate_same hhold
    obtain ⟨-, -, heffects⟩ :=
      interrupt_rest other.firmId (js "reply_received") r.internalDate stopped
    refine ⟨fun id hauthority => ?_, ?_, ?_⟩
    · exact PlanPended.same (plan_kept hstopped (hsettled.plan id hauthority)) hsame
    · exact (plan_meetings hstopped hsettled.meetings).kept.same hsame
    · apply hsame.recorded
      have hrecorded := hwrites.frame.recorded hsettled.held
      unfold effectRecorded at hrecorded ⊢
      rwa [heffects]
  · intro x candidate hsettled
    obtain ⟨x', hhold, hstore⟩ := holdCandidate_unchanged replyHold hsettled.held
    refine ⟨x', ?_, hstore⟩
    have hstopped : pendCandidate now candidate x.store = some x.store := by
      unfold pendCandidate
      split
      · next id hauthority =>
        obtain ⟨hpended, hcold⟩ := hsettled.plan id hauthority
        rw [pendPlan_unchanged hpended]
        unfold stopColdEnrollments
        rw [hcold]
      · rfl
    unfold replyCandidate
    rw [hstopped]
    dsimp only
    rw [hsettled.meetings.unchanged]
    exact hhold

end Replies

/-! ## Settled bounces and promotions -/

section Bounces

variable {r : Reply} {s s' : Store}

/-- A bounce's candidate with nothing left to do. -/
structure BounceSettled (candidate : MatchCandidate) (s : Store) : Prop where
  route : effectRecorded .routeInvalidated (routeTarget candidate) s = true
  held : effectRecorded .holdOpened (holdTarget .routeInvalid candidate) s = true

theorem bounceCandidate_settles (r : Reply) (reads : RampReads) :
    Replays.Settles Session.store (bounceCandidate r reads) BounceSettled := by
  constructor
  · intro x x' candidate h
    obtain ⟨-, hroute, hheld, -⟩ := bounceCandidate_spec [] (List.mem_singleton_self candidate) h
    exact ⟨hroute, hheld⟩
  · intro x x' candidate other hsettled h
    obtain ⟨hsteps, -⟩ := bounceCandidate_spec [] (List.mem_singleton_self other) h
    exact ⟨hsteps.writes.frame.recorded hsettled.route, hsteps.writes.frame.recorded hsettled.held⟩
  · intro x candidate hsettled
    obtain ⟨x', hhold, hstore⟩ := holdCandidate_unchanged routeHold hsettled.held
    refine ⟨x', ?_, hstore⟩
    unfold bounceCandidate invalidateCandidate
    rw [if_pos hsettled.route, Option.bind_some]
    exact hhold

/-- The message is in the reply lane. -/
def Promoted (s : Store) : Prop :=
  effectRecorded .replyLaneEntry (replyItemKey s.messageId) s = true

theorem promoteCandidate_spec {x x' : Session} {candidate : MatchCandidate}
    (h : promoteCandidate r x candidate = some x') :
    (Promoted x.store ∧ x' = x) ∨ ∃ promotions t,
      x.store.effects.insert? (promotionEffect r x.store.messageId candidate) = some t ∧
      x'.store = { x.store with promotions := promotions, effects := t } := by
  simp only [promoteCandidate] at h
  split at h
  · next hrecorded =>
    cases h
    exact .inl ⟨hrecorded, rfl⟩
  · next hfresh =>
    right
    obtain ⟨⟨inserted, store⟩, heffect, rfl⟩ := Option.map_eq_some_iff.1 h
    rcases recordEffect_spec heffect with ⟨-, t, hinsert, rfl⟩ | ⟨-, -, found, hfound, hkey⟩
    · exact ⟨_, t, hinsert, rfl⟩
    · obtain ⟨hkind, htarget⟩ := Prod.mk.inj hkey
      exact absurd (effectRecorded_iff.2 ⟨found, hfound, hkind, htarget⟩) hfresh

theorem promoteCandidate_settles (r : Reply) :
    Replays.Settles Session.store (promoteCandidate r) fun _ s => Promoted s := by
  have hdone : ∀ {x x' : Session} {candidate : MatchCandidate},
      promoteCandidate r x candidate = some x' → Promoted x'.store := by
    intro x x' candidate h
    rcases promoteCandidate_spec h with ⟨hpromoted, rfl⟩ | ⟨promotions, t, hinsert, heq⟩
    · exact hpromoted
    · rw [heq]
      exact effectRecorded_iff.2 ⟨_, (Table.mem_insert? hinsert).2 (.inr rfl), rfl, rfl⟩
  constructor
  · exact hdone
  · exact fun _ h => hdone h
  · intro x candidate hpromoted
    refine ⟨x, ?_, rfl⟩
    unfold Promoted at hpromoted
    simp only [promoteCandidate]
    rw [if_pos hpromoted]

/-! ## Settled stops -/

/-- A stop with nothing left to do: recorded, or refused whenever it is asked. -/
def StopSettled (r : Reply) (input : Suppression.RecordSuppressionInput) (kind : MailEffectKind)
    (targetKey : JsString) (s : Store) : Prop :=
  effectRecorded kind targetKey s = true ∨ ∀ now, suppress r now input s = some (none, s)

theorem suppress_refused_iff {now : Instant} {input : Suppression.RecordSuppressionInput} :
    suppress r now input s = some (none, s) ↔
      Suppression.stopRefused (suppressionContext r now) input s.database = true := by
  constructor
  · intro h
    unfold suppress at h
    split at h
    · cases h
    · next hresult => exact Suppression.stopRefused_of_recordSuppression hresult
    · cases h
  · intro h
    obtain ⟨reason, hresult⟩ := Suppression.recordSuppression_of_refused h
    unfold suppress
    rw [hresult]

/-- A refusal depends on the firms alone. -/
theorem suppress_refused {now : Instant} {input : Suppression.RecordSuppressionInput}
    (hrefused : suppress r now input s = some (none, s)) (hcrm : s'.matching.crm = s.matching.crm)
    (later : Instant) : suppress r later input s' = some (none, s') := by
  rw [suppress_refused_iff] at hrefused ⊢
  have hfirms : s'.database.firms = s.database.firms := congrArg Pipeline.Store.firms hcrm
  have hrefusal : Suppression.firmRefusal (suppressionContext r later) s'.database
      = Suppression.firmRefusal (suppressionContext r now) s.database := by
    funext firmId
    unfold Suppression.firmRefusal
    rw [hfirms]
    rfl
  unfold Suppression.stopRefused Suppression.suppressionKey at hrefused ⊢
  rw [hrefusal]
  exact hrefused

theorem StopSettled.kept {input : Suppression.RecordSuppressionInput} {kind : MailEffectKind}
    {targetKey : JsString} (h : StopSettled r input kind targetKey s) (hframe : Frame s s') :
    StopSettled r input kind targetKey s' :=
  h.imp hframe.recorded fun hrefused now => suppress_refused (hrefused now) hframe.crm now

theorem suppressOnce_settles {now : Instant} {input : Suppression.RecordSuppressionInput}
    {kind : MailEffectKind} {targetKey : JsString} {after : Store → Option Store} {x x' : Session}
    (hkeeps : ∀ s s', after s = some s' → s'.effects = s.effects)
    (h : suppressOnce r now input kind targetKey after x = some x') :
    StopSettled r input kind targetKey x'.store := by
  rcases suppressOnce_spec hkeeps h with ⟨hrecorded, rfl⟩ | ⟨-, ⟨hrefused, heq⟩ |
    ⟨eventId, stopped, counted, t, -, -, hinsert, heq⟩⟩
  · exact .inl hrecorded
  · rw [heq]
    exact .inr fun later => suppress_refused hrefused rfl later
  · rw [heq]
    exact .inl (effectRecorded_iff.2 ⟨_, (Table.mem_insert? hinsert).2 (.inr rfl), rfl, rfl⟩)

theorem suppressOnce_unchanged (now : Instant) {input : Suppression.RecordSuppressionInput}
    {kind : MailEffectKind} {targetKey : JsString} (after : Store → Option Store) {x : Session}
    (h : StopSettled r input kind targetKey x.store) :
    ∃ x', suppressOnce r now input kind targetKey after x = some x' ∧ x'.store = x.store := by
  unfold suppressOnce
  split
  · exact ⟨x, rfl, rfl⟩
  · next hfresh =>
    rw [h.resolve_left hfresh now]
    exact ⟨_, rfl, rfl⟩

end Bounces

/-! ## Settled classes -/

section Classes

variable {r : Reply} {found candidates : List MatchCandidate} {s s' : Store} {x x' : Session}

/-- The row of an automated message is there, and passes its check. -/
def AutomatedSettled (r : Reply) (s : Store) : Prop :=
  effectRecorded .noEffect (automatedEffect r s.messageId).targetKey s = true ∧
    (automatedEffect r s.messageId).checks = true

variable (found candidates) in
theorem recordAutomated_spec (h : recordAutomated r x = some x') :
    Writes r found candidates x.store x'.store ∧ x'.store.ramp = x.store.ramp ∧
      AutomatedSettled r x'.store := by
  simp only [recordAutomated] at h
  obtain ⟨⟨inserted, store⟩, heffect, rfl⟩ := Option.map_eq_some_iff.1 h
  have hchecks : (automatedEffect r x.store.messageId).checks = true := by
    unfold recordEffect at heffect
    split at heffect
    · assumption
    · cases heffect
  rcases recordEffect_spec heffect with ⟨-, t, hinsert, rfl⟩ | ⟨-, rfl, found, hfound, hkey⟩
  · refine ⟨.effect _ (.inr (.inr rfl)) hinsert, rfl, ?_, hchecks⟩
    exact effectRecorded_iff.2 ⟨_, (Table.mem_insert? hinsert).2 (.inr rfl), rfl, rfl⟩
  · obtain ⟨hkind, htarget⟩ := Prod.mk.inj hkey
    exact ⟨.refl _, rfl, effectRecorded_iff.2 ⟨found, hfound, hkind, htarget⟩, hchecks⟩

theorem recordAutomated_unchanged (h : AutomatedSettled r x.store) :
    ∃ x', recordAutomated r x = some x' ∧ x'.store = x.store := by
  obtain ⟨hrecorded, hchecks⟩ := h
  have htaken : x.store.effects.insert? (automatedEffect r x.store.messageId) = none := by
    obtain ⟨found, hfind⟩ := Option.isSome_iff_exists.1 hrecorded
    exact Table.insert?_of_taken hfind
  simp only [recordAutomated, recordEffect]
  rw [if_pos hchecks, htaken]
  exact ⟨_, rfl, rfl⟩

/-- The consequences of the class with nothing left to do. -/
def ClassSettled (r : Reply) (candidates : List MatchCandidate) (s : Store) : Prop :=
  match r.classification.class_ with
  | .human | .uncertain => ∀ candidate ∈ candidates, ReplySettled r candidate s
  | .bounce => ∀ candidate ∈ candidates, BounceSettled candidate s
  | .optOut =>
    (∀ address, r.headerFrom = some address →
      StopSettled r (handleStop r address) .handleSuppressed (handleTarget address) s) ∧
    ∀ only, candidates = [only] →
      StopSettled r (firmStop r only.firmId) .firmSuppressed (firmTarget only.firmId) s
  | .automated => AutomatedSettled r s

theorem ClassSettled.same (h : ClassSettled r candidates s) (hsame : SameWork s s')
    (hframe : Frame s s') : ClassSettled r candidates s' := by
  unfold ClassSettled at h ⊢
  split
  · next hclass =>
    rw [hclass] at h
    exact fun candidate hmem => (h candidate hmem).same hsame
  · next hclass =>
    rw [hclass] at h
    exact fun candidate hmem => (h candidate hmem).same hsame
  · next hclass =>
    rw [hclass] at h
    intro candidate hmem
    exact ⟨hsame.recorded (h candidate hmem).route, hsame.recorded (h candidate hmem).held⟩
  · next hclass =>
    rw [hclass] at h
    obtain ⟨hhandle, hfirm⟩ := h
    exact ⟨fun address hfrom => (hhandle address hfrom).kept hframe,
      fun only hsingle => (hfirm only hsingle).kept hframe⟩
  · next hclass =>
    rw [hclass] at h
    have hid : s'.messageId = s.messageId := congrArg Message.id hframe.message
    unfold AutomatedSettled at h ⊢
    rw [hid]
    exact ⟨hsame.recorded h.1, h.2⟩

theorem optOut_settles {now : Instant} {reads : RampReads}
    (h : optOut r now reads candidates x = some x') :
    (∀ address, r.headerFrom = some address →
      StopSettled r (handleStop r address) .handleSuppressed (handleTarget address) x'.store) ∧
    ∀ only, candidates = [only] →
      StopSettled r (firmStop r only.firmId) .firmSuppressed (firmTarget only.firmId) x'.store := by
  unfold optOut at h
  obtain ⟨middle, hhandle, hfirm⟩ := Option.bind_eq_some_iff.1 h
  constructor
  · intro address hfrom
    unfold suppressSender at hhandle
    rw [hfrom] at hhandle
    have hsettled : StopSettled r (handleStop r address) .handleSuppressed (handleTarget address)
        middle.store := by
      apply suppressOnce_settles _ hhandle
      intro s s' hcount
      obtain ⟨ramp, rfl, -⟩ := countOptOut_spec hcount
      rfl
    unfold suppressOnlyFirm at hfirm
    split at hfirm
    · exact hsettled.kept (suppressFirm_spec r [] hfirm).1.frame
    · cases hfirm
      exact hsettled
  · rintro only rfl
    apply suppressOnce_settles _ hfirm
    intro s s' heq
    rw [Option.some.inj heq]

theorem optOut_unchanged {now : Instant} {reads : RampReads}
    (hhandle : ∀ address, r.headerFrom = some address →
      StopSettled r (handleStop r address) .handleSuppressed (handleTarget address) x.store)
    (hfirm : ∀ only, candidates = [only] →
      StopSettled r (firmStop r only.firmId) .firmSuppressed (firmTarget only.firmId) x.store) :
    ∃ x', optOut r now reads candidates x = some x' ∧ x'.store = x.store := by
  have hsender : ∃ middle, suppressSender r now reads x = some middle ∧
      middle.store = x.store := by
    unfold suppressSender
    split
    · exact ⟨x, rfl, rfl⟩
    · next address hfrom => exact suppressOnce_unchanged now _ (hhandle address hfrom)
  obtain ⟨middle, hmiddle, hstore⟩ := hsender
  unfold optOut suppressOnlyFirm
  rw [hmiddle, Option.bind_some]
  split
  · next only =>
    have hsettled : StopSettled r (firmStop r only.firmId) .firmSuppressed
        (firmTarget only.firmId) middle.store := by
      rw [hstore]
      exact hfirm only rfl
    obtain ⟨x', hstop, hsame⟩ := suppressOnce_unchanged now some hsettled
    exact ⟨x', hstop, hsame.trans hstore⟩
  · exact ⟨middle, rfl, hstore⟩

theorem applyClass_settles {reads : Reads} (h : applyClass r reads candidates x = some x') :
    ClassSettled r candidates x'.store := by
  unfold applyClass at h
  unfold ClassSettled
  split
  · next hclass =>
    rw [hclass] at h
    exact (replyCandidate_settles r reads.nowMicros).settled h
  · next hclass =>
    rw [hclass] at h
    exact (replyCandidate_settles r reads.nowMicros).settled h
  · next hclass =>
    rw [hclass] at h
    exact (bounceCandidate_settles r reads.ramp).settled h
  · next hclass =>
    rw [hclass] at h
    exact optOut_settles h
  · next hclass =>
    rw [hclass] at h
    exact (recordAutomated_spec [] [] h).2.2

theorem applyClass_unchanged (reads : Reads) (h : ClassSettled r candidates x.store) :
    ∃ x', applyClass r reads candidates x = some x' ∧ x'.store = x.store := by
  unfold ClassSettled at h
  unfold applyClass
  split
  · next hclass =>
    rw [hclass] at h
    exact (replyCandidate_settles r reads.nowMicros).still h
  · next hclass =>
    rw [hclass] at h
    exact (replyCandidate_settles r reads.nowMicros).still h
  · next hclass =>
    rw [hclass] at h
    exact (bounceCandidate_settles r reads.ramp).still h
  · next hclass =>
    rw [hclass] at h
    exact optOut_unchanged h.1 h.2
  · next hclass =>
    rw [hclass] at h
    exact recordAutomated_unchanged h

end Classes

end FoundingSales.Mail.Effects
