import FoundingSales.Library.Firsts
import FoundingSales.Library.Runs
import FoundingSales.Mail.SettledEffects

/-!
Processing a message again repeats no effect, while what it finds does not go beyond what an
earlier processing counted and what the import has stored.

Proved here:

* `processMessage_again`: a second processing of the same candidates writes nothing;
* `processMessage_processed`: how far a processing moves the ramp, and what it leaves settled;
* `Writes.firm_effect`, `Writes.firm_event`: which processing stops a firm;
* `Named.run`: a reply's hold is of a candidate that the run has found;
* `replays_repeat_no_effect`: every run that meets the condition;
* `bounce_counted_twice`: a replay of a bounce that finds a second candidate.
-/

namespace FoundingSales.Mail.Effects

open Tables Crm Matches Sequences

/-! ## What a processing settles -/

section Processing

variable {r : Reply} {reads : Reads} {found candidates : List MatchCandidate} {s s' : Store}
  {x x' : Session}

/-- A promotion, or nothing. -/
structure Promotes (r : Reply) (found candidates : List MatchCandidate) (s s' : Store) : Prop where
  writes : Writes r found candidates s s'
  same : SameWork s s'
  ramp : s'.ramp = s.ramp
  body : s'.body = s.body
  metadataOnly : s'.metadataOnly = s.metadataOnly

theorem Promotes.refl (s : Store) : Promotes r found candidates s s :=
  ⟨.refl s, ⟨rfl, rfl, rfl, rfl, rfl, fun _ h => h⟩, rfl, rfl, rfl⟩

theorem Promotes.trans {t : Store} (h : Promotes r found candidates s t)
    (h' : Promotes r found candidates t s') : Promotes r found candidates s s' :=
  ⟨h.writes.trans h'.writes, h.same.trans h'.same, h'.ramp.trans h.ramp, h'.body.trans h.body,
    h'.metadataOnly.trans h.metadataOnly⟩

/-- The candidates whose firm the class may stop. -/
def Reply.stops (r : Reply) (candidates : List MatchCandidate) : List MatchCandidate :=
  if r.classification.class_ = .optOut then candidates else []

variable (found candidates) in
theorem promoteCandidate_promotes {candidate : MatchCandidate}
    (h : promoteCandidate r x candidate = some x') : Promotes r found candidates x.store x'.store := by
  rcases promoteCandidate_spec h with ⟨-, rfl⟩ | ⟨promotions, t, hinsert, heq⟩
  · exact Promotes.refl _
  · rw [heq]
    have hlane : Writes r found candidates x.store { x.store with promotions := promotions } :=
      .elsewhere rfl rfl rfl rfl rfl rfl
    refine ⟨hlane.trans (.effect _ (.inr (.inl rfl)) hinsert), ?_, rfl, rfl, rfl⟩
    exact ⟨rfl, rfl, rfl, rfl, rfl, fun _ hmem => (Table.mem_insert? hinsert).2 (.inl hmem)⟩

theorem applyPromotion_spec (h : applyPromotion r candidates x = some x') :
    Promotes r candidates (r.stops candidates) x.store x'.store ∧
      (r.classification.class_ ≠ .automated → ∀ candidate ∈ candidates, Promoted x'.store) := by
  unfold applyPromotion at h
  split at h
  · next hclass =>
    cases h
    exact ⟨Promotes.refl _, fun hnot => absurd hclass hnot⟩
  · refine ⟨?_, fun _ => (promoteCandidate_settles r).settled h⟩
    exact Replays.foldlM_related (R := fun x x' => Promotes r candidates (r.stops candidates) x.store x'.store)
      (fun _ => Promotes.refl _) (fun _ _ _ => Promotes.trans)
      (fun _ _ _ _ => promoteCandidate_promotes _ _) h

theorem applyPromotion_unchanged (h : r.classification.class_ ≠ .automated →
    ∀ candidate ∈ candidates, Promoted x.store) :
    ∃ x', applyPromotion r candidates x = some x' ∧ x'.store = x.store := by
  unfold applyPromotion
  split
  · exact ⟨x, rfl, rfl⟩
  · next hnot => exact (promoteCandidate_settles r).still (h hnot)

/-- Nothing left to do for the candidates of a processing. -/
structure Settled (r : Reply) (candidates : List MatchCandidate) (s : Store) : Prop where
  stored : ∀ candidate ∈ candidates,
    (s.matching.stored.matches_.find? (matchAuthorityKey candidate)).isSome = true
  matched : s.matched = true
  classified : ClassSettled r candidates s
  discarded : r.vacation = true → s.body = none ∧ s.metadataOnly = true
  promoted : r.classification.class_ ≠ .automated → ∀ candidate ∈ candidates, Promoted s

/-- A processing finds nothing, or records what it finds and applies the class. -/
theorem processMessage_spec {effects : Option ClassificationEffects}
    (h : processMessage r reads found s = some (effects, s')) :
    (distinct found = [] ∧ s' = s) ∨ ∃ recorded matching x x',
      recordMatchesForImport (distinct found) [] false s.matching = .accept recorded matching ∧
      applyClass r reads (distinct found)
        (.begin { s with matching := matching, matched := true }) = some x ∧
      applyPromotion r (distinct found) (applyVacation r x) = some x' ∧ s' = x'.store := by
  unfold processMessage at h
  split at h
  · next hnone =>
    cases h
    exact .inl ⟨hnone, rfl⟩
  · split at h
    · cases h
    · next recorded matching himport =>
      obtain ⟨⟨applied, store⟩, happly, heq⟩ := Option.map_eq_some_iff.1 h
      cases heq
      unfold applyClassificationEffects at happly
      obtain ⟨x, hclass, hmap⟩ := Option.bind_eq_some_iff.1 happly
      obtain ⟨x', hpromotion, heq⟩ := Option.map_eq_some_iff.1 hmap
      cases heq
      exact .inr ⟨recorded, matching, x, x', himport, hclass, hpromotion, rfl⟩

/-- What a class writes. -/
theorem applyClass_writes (h : applyClass r reads candidates x = some x') :
    Writes r candidates (r.stops candidates) x.store x'.store := by
  unfold applyClass at h
  have hreply : candidates.foldlM (replyCandidate r reads.nowMicros) x = some x' →
      Writes r candidates (r.stops candidates) x.store x'.store :=
    Replays.foldlM_related (R := fun x x' => Writes r candidates (r.stops candidates) x.store x'.store)
      (fun _ => .refl _) (fun _ _ _ => .trans)
      fun _ _ _ hmem hone => (replyCandidate_writes _ hmem hone).1
  split at h
  · exact hreply h
  · exact hreply h
  · exact (Replays.foldlM_related (R := BounceSteps r candidates (r.stops candidates))
      (fun _ => .refl _) (fun _ _ _ => .trans)
      (fun _ _ _ hmem hone => (bounceCandidate_spec _ hmem hone).1) h).writes
  · next hclass =>
    have hstops : r.stops candidates = candidates := if_pos hclass
    rw [hstops]
    exact (optOut_spec _ h).1
  · exact (recordAutomated_spec _ _ h).1

variable (found candidates) in
theorem applyVacation_writes : Writes r found candidates x.store (applyVacation r x).store := by
  unfold applyVacation
  split
  · exact .elsewhere rfl rfl rfl rfl rfl rfl
  · exact .refl _

theorem applyVacation_same : SameWork x.store (applyVacation r x).store ∧
    (applyVacation r x).store.ramp = x.store.ramp := by
  unfold applyVacation
  split
  · exact ⟨⟨rfl, rfl, rfl, rfl, rfl, fun _ h => h⟩, rfl⟩
  · exact ⟨⟨rfl, rfl, rfl, rfl, rfl, fun _ h => h⟩, rfl⟩

theorem applyVacation_unchanged
    (h : r.vacation = true → x.store.body = none ∧ x.store.metadataOnly = true) :
    (applyVacation r x).store = x.store := by
  unfold applyVacation
  split
  · next hvacation =>
    obtain ⟨hbody, hmetadata⟩ := h hvacation
    unfold discardMessageBody
    dsimp only
    rw [← hbody, ← hmetadata]
  · rfl

theorem processMessage_settles {effects : Option ClassificationEffects}
    (h : processMessage r reads found s = some (effects, s')) :
    distinct found = [] ∨ Settled r (distinct found) s' := by
  rcases processMessage_spec h with ⟨hnone, -⟩ | ⟨recorded, matching, x, y, himport, hclass,
    hpromotion, rfl⟩
  · exact .inl hnone
  · right
    obtain ⟨hpromotes, hpromoted⟩ := applyPromotion_spec hpromotion
    have hvacation := applyVacation_same (r := r) (x := x)
    have hlast : Frame x.store y.store :=
      (applyVacation_writes (distinct found) (r.stops (distinct found))).frame.trans hpromotes.writes.frame
    have hframe := (applyClass_writes hclass).frame.trans hlast
    refine ⟨fun candidate hmem => ?_, hframe.matched, ?_, fun hdiscards => ?_, hpromoted⟩
    · obtain ⟨holdIds, stored, ambiguous, hcandidates, rfl⟩ := recordMatchesForImport_spec himport
      rw [hframe.matches_]
      exact recordCandidates_finds hcandidates candidate hmem
    · exact (applyClass_settles hclass).same (hvacation.1.trans hpromotes.same) hlast
    · rw [hpromotes.body, hpromotes.metadataOnly]
      unfold applyVacation
      rw [if_pos hdiscards]
      exact ⟨rfl, rfl⟩

variable (reads) in
theorem processMessage_unchanged (h : distinct found = [] ∨ Settled r (distinct found) s) :
    ∃ effects, processMessage r reads found s = some (effects, s) := by
  unfold processMessage
  split
  · exact ⟨none, rfl⟩
  · next hsome =>
    obtain ⟨hstored, hmatched, hclassified, hdiscarded, hpromoted⟩ := h.resolve_left hsome
    obtain ⟨recorded, himport⟩ := recordMatchesForImport_again (s := s.matching) hstored
    have hmarked : { s with matching := s.matching, matched := true } = s := by
      rw [← hmatched]
    rw [himport]
    dsimp only
    rw [hmarked]
    obtain ⟨x, hclass, hx⟩ := applyClass_unchanged (x := .begin s) reads hclassified
    have hvacation : (applyVacation r x).store = s := by
      rw [applyVacation_unchanged, hx]
      · rfl
      · rw [hx]
        exact hdiscarded
    rw [← hvacation] at hpromoted
    obtain ⟨y, hpromotion, hy⟩ := applyPromotion_unchanged hpromoted
    unfold applyClassificationEffects
    rw [hclass, Option.bind_some, hpromotion, Option.map_some, Option.map_some, hy, hvacation]
    exact ⟨_, rfl⟩

/-- Processing a message again with the same candidates writes nothing. -/
theorem processMessage_again {effects : Option ClassificationEffects} {again : List MatchCandidate}
    (h : processMessage r reads found s = some (effects, s')) (later : Reads)
    (hsame : distinct again = distinct found) :
    ∃ effects', processMessage r later again s' = some (effects', s') := by
  apply processMessage_unchanged
  rw [hsame]
  exact processMessage_settles h

end Processing

/-! ## What a processing counts -/

section Counting

variable {r : Reply} {reads : Reads} {found candidates : List MatchCandidate} {s s' : Store}
  {x x' : Session}

/-- The effect a counted signal is behind. -/
def countedKind (r : Reply) : MailEffectKind :=
  if r.classification.class_ = .bounce then .routeInvalidated else .handleSuppressed

/-- The message has an effect that counts. -/
def counted (r : Reply) (s : Store) : Bool :=
  s.effects.rows.any fun effect => effect.kind = countedKind r

theorem counted_iff : counted r s = true ↔ ∃ effect ∈ s.effects, effect.kind = countedKind r := by
  unfold counted
  simp only [List.any_eq_true, decide_eq_true_eq, Table.mem_rows]

theorem counted_of_recorded {kind : MailEffectKind} {targetKey : JsString}
    (hkind : kind = countedKind r) (h : effectRecorded kind targetKey s = true) :
    counted r s = true := by
  obtain ⟨effect, hmem, heq, -⟩ := effectRecorded_iff.1 h
  exact counted_iff.2 ⟨effect, hmem, heq.trans hkind⟩

theorem Frame.counted (h : Frame s s') (hcounted : counted r s = true) : counted r s' = true := by
  obtain ⟨effect, hmem, hkind⟩ := counted_iff.1 hcounted
  exact counted_iff.2 ⟨effect, h.effects effect hmem, hkind⟩

/-- A bounce already counted that finds a candidate whose route it has not invalidated. -/
def beyondCounted (r : Reply) (found : List MatchCandidate) (s : Store) : Bool :=
  r.classification.class_ = .bounce && counted r s &&
    (distinct found).any fun candidate =>
      !effectRecorded .routeInvalidated (routeTarget candidate) s

/-- Nothing is counted, or the first signal is. -/
def Counts (r : Reply) (s s' : Store) : Prop :=
  signalTotal s'.ramp = signalTotal s.ramp ∨
    counted r s = false ∧ counted r s' = true ∧ signalTotal s'.ramp = signalTotal s.ramp + 1

theorem Counts.of_ramp (h : s'.ramp = s.ramp) : Counts r s s' := .inl (by rw [h])

theorem Counts.then (h : Counts r s s') {t : Store} (hramp : t.ramp = s'.ramp)
    (hframe : Frame s' t) : Counts r s t := by
  unfold Counts
  rw [hramp]
  exact h.imp id fun ⟨hbefore, hafter, hone⟩ => ⟨hbefore, hframe.counted hafter, hone⟩

theorem bounce_counts (hbounce : r.classification.class_ = .bounce)
    (hwithin : counted r s = true → ∀ candidate ∈ candidates,
      effectRecorded .routeInvalidated (routeTarget candidate) s = true)
    (h : candidates.foldlM (bounceCandidate r reads.ramp) (.begin s) = some x') :
    Counts r s x'.store := by
  have hkind : countedKind r = .routeInvalidated := if_pos hbounce
  cases hcounted : counted r s with
  | true => exact Counts.of_ramp (bounce_recorded (hwithin hcounted) h)
  | false =>
    have hsteps : BounceSteps r candidates candidates (.begin s) x' :=
      Replays.foldlM_related (R := BounceSteps r candidates candidates) (fun _ => .refl _)
        (fun _ _ _ => .trans)
        (fun _ _ _ hmem hone => (bounceCandidate_spec candidates hmem hone).1) h
    rcases hsteps.signals with hsame | ⟨-, htrue, hone⟩
    · exact .inl hsame
    · right
      refine ⟨hcounted, ?_, hone⟩
      rcases hsteps.route htrue with hfalse | ⟨effect, hmem, heffect⟩
      · cases hfalse
      · exact counted_iff.2 ⟨effect, hmem, heffect.trans hkind.symm⟩

theorem optOut_counts (hsound : Sound r s) (hoptOut : r.classification.class_ = .optOut)
    (h : optOut r reads.now reads.ramp candidates (.begin s) = some x') : Counts r s x'.store := by
  have hkind : countedKind r = .handleSuppressed := by
    unfold countedKind
    rw [hoptOut]
    rfl
  rcases (optOut_spec [] h).2 with hsame | ⟨address, hfrom, hfresh, hrecorded, hone⟩
  · exact .inl hsame
  · right
    refine ⟨Bool.eq_false_iff.2 fun hcounted => ?_, counted_of_recorded hkind.symm hrecorded, hone⟩
    obtain ⟨effect, hmem, heffect⟩ := counted_iff.1 hcounted
    obtain ⟨sender, hsender, htarget⟩ := hsound.handles effect hmem (heffect.trans hkind)
    obtain rfl := Option.some.inj (hsender.symm.trans hfrom)
    have hthere : effectRecorded .handleSuppressed (handleTarget sender) s = true :=
      effectRecorded_iff.2 ⟨effect, hmem, heffect.trans hkind, htarget⟩
    rw [show (Session.begin s).store = s from rfl, hthere] at hfresh
    cases hfresh

theorem applyClass_counts (hsound : Sound r s)
    (hwithin : r.classification.class_ = .bounce → counted r s = true →
      ∀ candidate ∈ candidates,
        effectRecorded .routeInvalidated (routeTarget candidate) s = true)
    (h : applyClass r reads candidates (.begin s) = some x') : Counts r s x'.store := by
  have hreply : candidates.foldlM (replyCandidate r reads.nowMicros) (.begin s) = some x' →
      Counts r s x'.store := by
    intro hrun
    apply Counts.of_ramp
    have hramp : ∀ x x' : Session, ∀ candidate ∈ candidates,
        replyCandidate r reads.nowMicros x candidate = some x' → x.store.ramp = x'.store.ramp :=
      fun x x' candidate hmem hone => (replyCandidate_writes [] hmem hone).2.1.symm
    exact (Replays.foldlM_related (R := fun x x' : Session => x.store.ramp = x'.store.ramp)
      (fun _ => rfl) (fun _ _ _ => Eq.trans) hramp hrun).symm
  unfold applyClass at h
  split at h
  · exact hreply h
  · exact hreply h
  · next hclass => exact bounce_counts hclass (hwithin hclass) h
  · next hclass => exact optOut_counts hsound hclass h
  · exact Counts.of_ramp (recordAutomated_spec [] [] h).2.1

/-- An import leaves the effects, the firms, the stops and the replies' holds alone. -/
structure Imports (r : Reply) (candidates : List MatchCandidate) (s t : Store) : Prop where
  message : t.matching.message = s.matching.message
  crm : t.matching.crm = s.matching.crm
  effects : t.effects = s.effects
  suppression : t.suppression = s.suppression
  ramp : t.ramp = s.ramp
  holds : ∃ opened, t.holds = s.holds ++ opened ∧
    ∀ hold ∈ opened, isReplyHold s.messageId hold = false
  rows : ∀ row ∈ t.matching.stored.matches_, row ∈ s.matching.stored.matches_ ∨
    ∃ candidate ∈ candidates, matchAuthorityKey candidate = row.key
  stored : ∀ candidate ∈ candidates,
    (t.matching.stored.matches_.find? (matchAuthorityKey candidate)).isSome = true

theorem recordMatchesForImport_imports {recorded : Option RecordedMatches}
    {matching : Matches.Store}
    (h : recordMatchesForImport candidates [] false s.matching = .accept recorded matching) :
    Imports r candidates s { s with matching := matching, matched := true } := by
  obtain ⟨holdIds, stored, ambiguous, hcandidates, rfl⟩ := recordMatchesForImport_spec h
  obtain ⟨rows, holds, hrows, hholds, hadded, hopened⟩ := recordCandidates_spec hcandidates
  refine ⟨rfl, rfl, rfl, rfl, rfl, ⟨holds, hholds, fun hold hmem => ?_⟩, fun row hrow => ?_,
    recordCandidates_finds hcandidates⟩
  · unfold isReplyHold
    rw [(hopened hold hmem).2]
    rfl
  · change row ∈ stored.matches_ at hrow
    rw [← Table.mem_rows, hrows, List.mem_append] at hrow
    refine hrow.imp id fun hnew => ?_
    obtain ⟨candidate, hcandidate, hauthority, -⟩ := (hadded row hnew).candidate
    exact ⟨candidate, hcandidate, congrArg MatchAuthority.id hauthority⟩

theorem replyHoldIds_other (messageId : Uuid) {holds more : List Hold}
    (h : ∀ hold ∈ more, isReplyHold messageId hold = false) :
    replyHoldIds messageId (holds ++ more) = replyHoldIds messageId holds := by
  induction more generalizing holds with
  | nil => rw [List.append_nil]
  | cons hold rest ih =>
    rw [List.append_cons, ih fun other hother => h other (List.mem_cons_of_mem _ hother), replyHoldIds_append, h hold List.mem_cons_self]
    exact List.append_nil _

theorem Imports.sound {t : Store} (h : Imports r candidates s t) (hsound : Sound r s) :
    Sound r t := by
  obtain ⟨opened, hholds, hother⟩ := h.holds
  have hid : t.messageId = s.messageId := congrArg Message.id h.message
  refine ⟨?_, ?_, ?_, ?_⟩
  · rw [h.effects, hid, hholds, replyHoldIds_other s.messageId hother]
    exact hsound.ledger
  · rw [h.effects]
    exact hsound.handles
  · rw [h.suppression]
    exact hsound.handleEvents
  · rw [h.suppression]
    exact hsound.firmEvents

end Counting

/-! ## What stops a firm -/

section Firms

variable {r : Reply} {found candidates : List MatchCandidate} {s s' : Store}

/-- A stop of a firm is new only where one candidate was found. -/
structure StopsOnly (candidates : List MatchCandidate) (s : Store) (firm : JsString) : Prop where
  only : ∃ only, candidates = [only] ∧ firm = only.firmId.text ∧ stoppable only.firmId s = true ∧
    effectRecorded .firmSuppressed (firmTarget only.firmId) s = false

theorem StopsOnly.before {t : Store} {firm : JsString} (h : StopsOnly candidates t firm)
    (hframe : Frame s t) : StopsOnly candidates s firm := by
  obtain ⟨only, hsingle, hfirm, hstoppable, hfresh⟩ := h.only
  refine ⟨only, hsingle, hfirm, ?_, Bool.eq_false_iff.2 fun hrecorded => ?_⟩
  · unfold stoppable at hstoppable ⊢
    rwa [hframe.crm] at hstoppable
  · rw [hframe.recorded hrecorded] at hfresh
    cases hfresh

theorem fresh_of_insert {effect : MailEffect} {t : Table MailEffect.key}
    (h : s.effects.insert? effect = some t) :
    effectRecorded effect.kind effect.targetKey s = false := by
  apply Bool.eq_false_iff.2
  intro hrecorded
  obtain ⟨found, hmem, hkind, htarget⟩ := effectRecorded_iff.1 hrecorded
  have hfree := (Table.insert?_eq_some h).1
  rw [Table.find?_eq_none] at hfree
  exact hfree found hmem (Prod.ext hkind htarget)

/-- Which processing adds the effect of a stop of a firm. -/
theorem Writes.firm_effect (h : Writes r found candidates s s') :
    ∀ effect ∈ s'.effects, effect.kind = .firmSuppressed → effect ∉ s.effects →
      ∃ firm, effect.targetKey = js "firm:" ++ firm ∧ StopsOnly candidates s firm := by
  induction h with
  | refl s => exact fun effect hmem _ hnew => absurd hmem hnew
  | @trans s t u hfirst hsecond ih ih' =>
    intro effect hmem hkind hnew
    by_cases hmiddle : effect ∈ t.effects
    · exact ih effect hmiddle hkind hnew
    · obtain ⟨firm, htarget, honly⟩ := ih' effect hmem hkind hmiddle
      exact ⟨firm, htarget, honly.before hfirst.frame⟩
  | elsewhere _ _ _ heffects _ _ =>
    intro effect hmem _ hnew
    rw [heffects] at hmem
    exact absurd hmem hnew
  | hold input candidate _ _ hinsert =>
    intro effect hmem hkind hnew
    rcases (Table.mem_insert? hinsert).1 hmem with hmem | rfl
    · exact absurd hmem hnew
    · cases hkind
  | effect added hother hinsert =>
    intro effect hmem hkind hnew
    rcases (Table.mem_insert? hinsert).1 hmem with hmem | rfl
    · exact absurd hmem hnew
    · rw [hkind] at hother
      rcases hother with hother | hother | hother <;> cases hother
  | handle address _ hstop =>
    intro effect hmem _ hnew
    rcases suppress_spec hstop with ⟨-, rfl⟩ | ⟨key, suppression, -, rfl, -⟩
    · exact absurd hmem hnew
    · exact absurd hmem hnew
  | handleEffect address eventId _ hinsert =>
    intro effect hmem hkind hnew
    rcases (Table.mem_insert? hinsert).1 hmem with hmem | rfl
    · exact absurd hmem hnew
    · cases hkind
  | firm only _ _ hstop =>
    intro effect hmem _ hnew
    rcases suppress_spec hstop with ⟨-, rfl⟩ | ⟨key, suppression, -, rfl, -⟩
    · exact absurd hmem hnew
    · exact absurd hmem hnew
  | firmEffect only eventId hsingle hpermitted hinsert =>
    intro effect hmem _ hnew
    rcases (Table.mem_insert? hinsert).1 hmem with hmem | rfl
    · exact absurd hmem hnew
    · exact ⟨only.firmId.text, rfl, ⟨only, hsingle, rfl, hpermitted, fresh_of_insert hinsert⟩⟩

/-- And which adds its event. -/
theorem Writes.firm_event (h : Writes r found candidates s s') :
    ∀ event ∈ s'.suppression.events, event.commandId = some (r.optOutCommand ++ js ":firm") →
      event ∉ s.suppression.events → StopsOnly candidates s event.canonicalKey := by
  induction h with
  | refl s => exact fun event hmem _ hnew => absurd hmem hnew
  | @trans s t u hfirst hsecond ih ih' =>
    intro event hmem hcommand hnew
    by_cases hmiddle : event ∈ t.suppression.events
    · exact ih event hmiddle hcommand hnew
    · exact (ih' event hmem hcommand hmiddle).before hfirst.frame
  | elsewhere _ _ _ _ hsuppression _ =>
    intro event hmem _ hnew
    rw [hsuppression] at hmem
    exact absurd hmem hnew
  | hold | effect | handleEffect | firmEffect => exact fun event hmem _ hnew => absurd hmem hnew
  | handle address hfrom hstop =>
    intro event hmem hcommand hnew
    rcases suppress_spec hstop with ⟨-, rfl⟩ | ⟨key, suppression, -, rfl, hkey, hevents⟩
    · exact absurd hmem hnew
    · rcases hevents with hsame | hinsert
      · exact absurd (hsame ▸ hmem) hnew
      · rcases (Table.mem_insert? hinsert).1 hmem with hmem | rfl
        · exact absurd hmem hnew
        · exact absurd (Option.some.inj hcommand) (command_ne_firm r)
  | firm only hsingle hfresh hstop =>
    intro event hmem hcommand hnew
    rcases suppress_spec hstop with ⟨-, rfl⟩ | ⟨key, suppression, -, rfl, hkey, hevents⟩
    · exact absurd hmem hnew
    · rcases hevents with hsame | hinsert
      · exact absurd (hsame ▸ hmem) hnew
      · rcases (Table.mem_insert? hinsert).1 hmem with hmem | rfl
        · exact absurd hmem hnew
        · obtain ⟨rfl, hpermitted⟩ := firmStop_key hkey
          exact ⟨only, hsingle, rfl, hpermitted, hfresh⟩

/-- An opt-out that found one candidate where the import has stored another too, and whose firm it
would stop. -/
def beyondStored (r : Reply) (found : List MatchCandidate) (s : Store) : Bool :=
  r.classification.class_ = .optOut &&
    match distinct found with
    | [only] =>
      stoppable only.firmId s && !effectRecorded .firmSuppressed (firmTarget only.firmId) s &&
        s.matching.stored.matches_.rows.any fun row => row.key ≠ matchAuthorityKey only
    | _ => false

/-- The stored matches name one candidate, the one found. -/
def NamesOnly (found : List MatchCandidate) (firm : JsString) (s : Store) : Prop :=
  ∃ only row, distinct found = [only] ∧ firm = only.firmId.text ∧
    s.matching.stored.matches_.rows = [row] ∧ row.key = matchAuthorityKey only

theorem Imports.namesOnly {t : Store} {found : List MatchCandidate} {firm : JsString}
    (h : Imports r (distinct found) s t) (hstops : StopsOnly (r.stops (distinct found)) t firm)
    (hwithin : beyondStored r found s = false) : NamesOnly found firm t := by
  obtain ⟨only, hstopped, hfirm, hstoppable, hfresh⟩ := hstops.only
  have hclass : r.classification.class_ = .optOut := by
    by_contra hother
    rw [Reply.stops, if_neg hother] at hstopped
    cases hstopped
  have hsingle : distinct found = [only] := by
    rwa [Reply.stops, if_pos hclass] at hstopped
  have hkeys : ∀ row ∈ t.matching.stored.matches_, row.key = matchAuthorityKey only := by
    intro row hrow
    rcases h.rows row hrow with hbefore | ⟨candidate, hcandidate, hkey⟩
    · by_contra hother
      have hstoppable' : stoppable only.firmId s = true := by
        unfold stoppable at hstoppable ⊢
        rwa [h.crm] at hstoppable
      have hfresh' : effectRecorded .firmSuppressed (firmTarget only.firmId) s = false := by
        unfold effectRecorded at hfresh ⊢
        rwa [h.effects] at hfresh
      simp only [beyondStored, hclass, hsingle, hstoppable', hfresh', decide_true, Bool.not_false,
        Bool.true_and, List.any_eq_false, decide_eq_true_eq] at hwithin
      exact hwithin row hbefore hother
    · rw [hsingle, List.mem_singleton] at hcandidate
      rw [← hkey, hcandidate]
  obtain ⟨row, hfind⟩ := Option.isSome_iff_exists.1 (h.stored only (by simp [hsingle]))
  obtain ⟨hmem, hkey⟩ := Table.find?_eq_some.1 hfind
  refine ⟨only, row, hsingle, hfirm, ?_, hkey⟩
  have hone : (t.matching.stored.matches_.rows.filter fun _ => true).length ≤ 1 :=
    Table.filter_length_le_one fun a ha b hb _ _ => (hkeys a ha).trans (hkeys b hb).symm
  rw [List.filter_true] at hone
  change row ∈ t.matching.stored.matches_.rows at hmem
  rcases hrows : t.matching.stored.matches_.rows with _ | ⟨first, _ | ⟨second, rest⟩⟩
  · rw [hrows] at hmem
    cases hmem
  · rw [hrows, List.mem_singleton] at hmem
    rw [hmem]
  · rw [hrows] at hone
    simp at hone

end Firms

/-! ## A step -/

section Steps

variable {r : Reply} {reads : Reads} {found : List MatchCandidate} {s s' : Store}

/-- What the condition of a run leaves out. -/
def goesBeyond (r : Reply) (s : Store) : Input → Bool
  | .process _ found => beyondCounted r found s || beyondStored r found s
  | _ => false

/-- What an accepted processing did. -/
theorem processMessage_processed (hsound : Sound r s) (hwithin : beyondCounted r found s = false)
    {effects : Option ClassificationEffects}
    (h : processMessage r reads found s = some (effects, s')) :
    (distinct found = [] ∧ s' = s) ∨ ∃ t, Imports r (distinct found) s t ∧
      Writes r (distinct found) (r.stops (distinct found)) t s' ∧ Counts r s s' ∧
      Settled r (distinct found) s' := by
  rcases processMessage_spec h with hnone | ⟨recorded, matching, x, y, himport, hclass, hpromotion,
    rfl⟩
  · exact .inl hnone
  · have himports := recordMatchesForImport_imports (r := r) himport
    obtain ⟨hpromotes, -⟩ := applyPromotion_spec hpromotion
    have hlast := (applyVacation_writes (r := r) (x := x) (distinct found) (r.stops (distinct found))).trans
      hpromotes.writes
    have hramp : y.store.ramp = x.store.ramp := hpromotes.ramp.trans applyVacation_same.2
    by_cases hnone : distinct found = []
    · rcases processMessage_settles h with h' | h'
      · unfold processMessage at h
        rw [hnone] at h
        cases h
        exact .inl ⟨hnone, rfl⟩
      · unfold processMessage at h
        rw [hnone] at h
        cases h
        exact .inl ⟨hnone, rfl⟩
    · refine .inr ⟨_, himports, (applyClass_writes hclass).trans hlast, ?_,
        (processMessage_settles h).resolve_left hnone⟩
      have hcounts : Counts r { s with matching := matching, matched := true } x.store := by
        apply applyClass_counts (himports.sound hsound) _ hclass
        intro hbounce hcounted candidate hmem
        change effectRecorded .routeInvalidated (routeTarget candidate) s = true
        change counted r s = true at hcounted
        simp only [beyondCounted, hbounce, decide_true, hcounted, Bool.true_and, List.any_eq_false,
          Bool.not_eq_true, Bool.not_eq_false'] at hwithin
        exact hwithin candidate hmem
      exact Counts.then hcounts hramp hlast.frame

/-- A write of the world outside the message. -/
theorem Sound.of_same (h : Sound r s) (hid : s'.messageId = s.messageId)
    (heffects : s'.effects = s.effects) (hevents : s'.suppression.events = s.suppression.events)
    (hholds : replyHoldIds s.messageId s'.holds = replyHoldIds s.messageId s.holds) :
    Sound r s' := by
  refine ⟨?_, ?_, ?_, ?_⟩
  · rw [heffects, hid, hholds]
    exact h.ledger
  · rw [heffects]
    exact h.handles
  · rw [hevents]
    exact h.handleEvents
  · rw [hevents]
    exact h.firmEvents

theorem replyHoldIds_release (messageId : Uuid) (holds : List Hold) (id : HoldId)
    (releasedAt : Option Instant) :
    replyHoldIds messageId (holds.modify id fun hold => { hold with releasedAt := releasedAt })
      = replyHoldIds messageId holds := by
  unfold replyHoldIds
  have hsame : (holds.modify id fun hold => { hold with releasedAt := releasedAt }).map
      (isReplyHold messageId) = holds.map (isReplyHold messageId) := by
    apply List.ext_getElem?
    intro i
    rw [List.getElem?_map, List.getElem?_map, List.getElem?_modify]
    cases holds[i]? with
    | none => rfl
    | some hold =>
      simp only [Option.map_eq_map, Option.map_some]
      split
      · rfl
      · rfl
  rw [hsame]

theorem suppress_events (h : Sound r s) {c : Suppression.Context}
    {input : Suppression.RecordSuppressionInput} {suppression : Suppression.Database}
    {result : Suppression.SuppressionResult Suppression.RecordedSuppression}
    (howns : r.owns input.commandId = false)
    (hresult : (Suppression.recordSuppression c input s.database).result
      = .ok (result, suppression)) : Sound r { s with suppression := suppression } := by
  have hnot : input.commandId ≠ some r.optOutCommand ∧
      input.commandId ≠ some (r.optOutCommand ++ js ":firm") := by
    simpa [Reply.owns] using howns
  have hnew : ∀ event ∈ suppression.events, event ∈ s.suppression.events ∨
      event.commandId = input.commandId := by
    intro event hmem
    rcases Suppression.recordSuppression_events hresult with ⟨-, rfl⟩ | ⟨key, -, -, hevents⟩
    · exact .inl hmem
    · rcases hevents with rfl | hinsert
      · exact .inl hmem
      · exact ((Table.mem_insert? hinsert).1 hmem).imp id fun heq => by rw [heq]; rfl
  refine ⟨h.ledger, h.handles, fun event hmem hcommand => ?_, fun event hmem hcommand => ?_⟩
  · rcases hnew event hmem with hbefore | hinput
    · exact h.handleEvents event hbefore hcommand
    · exact absurd (hinput.symm.trans hcommand) hnot.1
  · rcases hnew event hmem with hbefore | hinput
    · exact h.firmEvents event hbefore hcommand
    · exact absurd (hinput.symm.trans hcommand) hnot.2

theorem step_process : step r s (.process reads found)
    = ((processMessage r reads found s).map Prod.snd).getD s := rfl

/-- Every step keeps the invariant and the effects. -/
theorem Sound.step (h : Sound r s) {input : Input} (hwithin : goesBeyond r s input = false) :
    Sound r (Effects.step r s input) ∧ ∀ effect ∈ s.effects, effect ∈ (Effects.step r s input).effects := by
  cases input with
  | process reads found =>
    rw [step_process]
    cases hprocess : processMessage r reads found s with
    | none => exact ⟨h, fun _ hmem => hmem⟩
    | some result =>
      obtain ⟨effects, s'⟩ := result
      simp only [goesBeyond, Bool.or_eq_false_iff] at hwithin
      rcases processMessage_processed h hwithin.1 hprocess with ⟨-, rfl⟩ | ⟨t, himports, hwrites, -⟩
      · exact ⟨h, fun _ hmem => hmem⟩
      · refine ⟨hwrites.sound (himports.sound h), fun effect hmem => ?_⟩
        rw [← himports.effects] at hmem
        exact hwrites.frame.effects effect hmem
  | world => exact ⟨h.of_same rfl rfl rfl rfl, fun _ hmem => hmem⟩
  | selectMatch => exact ⟨h.of_same rfl rfl rfl rfl, fun _ hmem => hmem⟩
  | openHold hold =>
    unfold Effects.step
    dsimp only
    split
    · exact ⟨h, fun _ hmem => hmem⟩
    · next hother =>
      refine ⟨h.of_same rfl rfl rfl (replyHoldIds_other s.messageId ?_), fun _ hmem => hmem⟩
      intro opened hopened
      rw [List.mem_singleton.1 hopened]
      exact Bool.eq_false_iff.2 hother
  | releaseHold id now =>
    exact ⟨h.of_same rfl rfl rfl (replyHoldIds_release s.messageId s.holds id (some now)),
      fun _ hmem => hmem⟩
  | storeBody => exact ⟨h.of_same rfl rfl rfl rfl, fun _ hmem => hmem⟩
  | suppress c input =>
    unfold Effects.step
    dsimp only
    split
    · exact ⟨h, fun _ hmem => hmem⟩
    · next howns =>
      split
      · exact ⟨h, fun _ hmem => hmem⟩
      · next hresult =>
        exact ⟨suppress_events h (Bool.eq_false_iff.2 howns) hresult, fun _ hmem => hmem⟩

theorem distinct_eq (found : List MatchCandidate) :
    distinct found = Firsts.keepFirst matchAuthorityKey found := rfl

theorem distinct_covers {candidate : MatchCandidate} (h : candidate ∈ found) :
    ∃ kept ∈ distinct found, matchAuthorityKey kept = matchAuthorityKey candidate :=
  Firsts.exists_mem_keepFirst matchAuthorityKey h

theorem distinct_subset (found : List MatchCandidate) : distinct found ⊆ found := by
  intro candidate hmem
  rw [distinct_eq] at hmem
  exact Firsts.mem_of_mem_keepFirst hmem

theorem Imports.named {candidates : List MatchCandidate} {t : Store} (h : Imports r candidates s t)
    (hnamed : Named found s) : Named found t := by
  obtain ⟨opened, hholds, -⟩ := h.holds
  refine hnamed.kept (.append (congrArg Message.id h.message) hholds) fun effect hmem => ?_
  rw [h.effects] at hmem
  exact .inl hmem

theorem KeepsHolds.release (s : Store) (id : HoldId) (now : Instant) :
    KeepsHolds s (step r s (.releaseHold id now)) := by
  refine ⟨rfl, fun other hold hhold => ?_⟩
  show ∃ hold', (s.holds.modify id fun hold => { hold with releasedAt := some now })[other]?
    = some hold' ∧ _
  rw [List.getElem?_modify, hhold]
  refine ⟨_, rfl, ?_⟩
  split
  · rfl
  · rfl

/-- Every step keeps the replies' effects named. -/
theorem Named.step (hnamed : Named found s) (h : Sound r s) {input : Input}
    (hwithin : goesBeyond r s input = false)
    (hfound : ∀ reads batch, input = .process reads batch → batch ⊆ found) :
    Named found (Effects.step r s input) := by
  have same : ∀ {s' : Store}, s'.messageId = s.messageId → s'.holds = s.holds →
      s'.effects = s.effects → Named found s' := fun hid hholds heffects =>
    hnamed.kept (.of_eq hid hholds) fun effect hmem => .inl (heffects ▸ hmem)
  cases input with
  | process reads batch =>
    rw [step_process]
    cases hprocess : processMessage r reads batch s with
    | none => exact hnamed
    | some result =>
      obtain ⟨effects, s'⟩ := result
      simp only [goesBeyond, Bool.or_eq_false_iff] at hwithin
      rcases processMessage_processed h hwithin.1 hprocess with ⟨-, rfl⟩ | ⟨t, himports, hwrites, -⟩
      · exact hnamed
      · have hbatch : distinct batch ⊆ found :=
          List.Subset.trans (distinct_subset batch) (hfound reads batch rfl)
        exact hwrites.named hbatch (himports.named hnamed)
  | world => exact same rfl rfl rfl
  | selectMatch => exact same rfl rfl rfl
  | openHold hold =>
    unfold Effects.step
    dsimp only
    split
    · exact hnamed
    · exact hnamed.kept (.append rfl rfl) fun _ hmem => .inl hmem
  | releaseHold id now => exact hnamed.kept (.release s id now) fun _ hmem => .inl hmem
  | storeBody => exact same rfl rfl rfl
  | suppress c input =>
    unfold Effects.step
    dsimp only
    split
    · exact hnamed
    · split
      · exact hnamed
      · exact same rfl rfl rfl

end Steps

/-! ## Runs -/

section Runs

variable {r : Reply} {found : List MatchCandidate} {s s' : Store}

/-- How many signals a step counts. -/
def signalsCounted (r : Reply) (s : Store) : Input → Nat
  | .process reads found =>
    (signalTotal (step r s (.process reads found)).ramp - signalTotal s.ramp).toNat
  | _ => 0

/-- The sender's stop once, and each firm's. -/
structure StopsOnce (r : Reply) (s : Store) : Prop where
  handle : (s.effects.rows.filter fun effect => effect.kind = .handleSuppressed).length ≤ 1
  handleEvent : (s.suppression.events.rows.filter fun event =>
    event.commandId = some r.optOutCommand).length ≤ 1
  firm : ∀ firm : JsString, (s.effects.rows.filter fun effect =>
    effect.kind = .firmSuppressed && effect.targetKey = js "firm:" ++ firm).length ≤ 1
  firmEvent : ∀ firm : JsString, (s.suppression.events.rows.filter fun event =>
    event.commandId = some (r.optOutCommand ++ js ":firm") && event.canonicalKey = firm).length ≤ 1

theorem Sound.stopsOnce (h : Sound r s) : StopsOnce r s := by
  constructor
  · apply Table.filter_length_le_one
    intro a ha b hb hkind hkind'
    obtain ⟨address, hfrom, htarget⟩ := h.handles a ha (of_decide_eq_true hkind)
    obtain ⟨address', hfrom', htarget'⟩ := h.handles b hb (of_decide_eq_true hkind')
    obtain rfl := Option.some.inj (hfrom.symm.trans hfrom')
    exact Prod.ext ((of_decide_eq_true hkind).trans (of_decide_eq_true hkind').symm)
      (htarget.trans htarget'.symm)
  · apply Table.filter_length_le_one
    intro a ha b hb hcommand hcommand'
    obtain ⟨address, handle, hfrom, hhandle, hid⟩ :=
      h.handleEvents a ha (of_decide_eq_true hcommand)
    obtain ⟨address', handle', hfrom', hhandle', hid'⟩ :=
      h.handleEvents b hb (of_decide_eq_true hcommand')
    obtain rfl := Option.some.inj (hfrom.symm.trans hfrom')
    obtain rfl := Except.ok.inj (hhandle.symm.trans hhandle')
    exact hid.trans hid'.symm
  · intro firm
    apply Table.filter_length_le_one
    intro a _ b _ hfirm hfirm'
    simp only [Bool.and_eq_true, decide_eq_true_eq] at hfirm hfirm'
    exact Prod.ext (hfirm.1.trans hfirm'.1.symm) (hfirm.2.trans hfirm'.2.symm)
  · intro firm
    apply Table.filter_length_le_one
    intro a ha b hb hfirm hfirm'
    simp only [Bool.and_eq_true, decide_eq_true_eq] at hfirm hfirm'
    rw [h.firmEvents a ha hfirm.1, h.firmEvents b hb hfirm'.1, hfirm.2, hfirm'.2]

/-- What one processing may do. -/
structure ReplaysOnce (r : Reply) (s s' : Store) (reads : Reads) (found : List MatchCandidate) :
    Prop where
  firm_effect : ∀ effect ∈ s'.effects, effect.kind = .firmSuppressed → effect ∉ s.effects →
    ∃ firm, effect.targetKey = js "firm:" ++ firm ∧ NamesOnly found firm s'
  firm_event : ∀ event ∈ s'.suppression.events,
    event.commandId = some (r.optOutCommand ++ js ":firm") → event ∉ s.suppression.events →
    NamesOnly found event.canonicalKey s'
  again : ∀ effects, processMessage r reads found s = some (effects, s') → ∀ later again,
    distinct again = distinct found →
    ∃ effects', processMessage r later again s' = some (effects', s')

/-- A reply's candidate has one hold, named by one effect: the hold that was opened for a candidate
of its authority, in the scope of that one. -/
def HeldOnce (found : List MatchCandidate) (candidate : MatchCandidate) (s : Store) : Prop :=
  ∃ named ∈ found, matchAuthorityKey named = matchAuthorityKey candidate ∧
    ∃ id ∈ replyHoldIds s.messageId s.holds, OpenedFor named id s ∧
      (s.effects.rows.filter fun effect => effect.kind = .holdOpened &&
        effect.targetKey = holdTarget .uncertainReply candidate) = [holdEffect replyHold named id]

theorem isReplyEffect_of_target {effect : MailEffect} {candidate : MatchCandidate}
    (hkind : effect.kind = .holdOpened)
    (htarget : effect.targetKey = holdTarget .uncertainReply candidate) :
    isReplyEffect effect = true := by
  have hbegins : holdTarget .uncertainReply candidate
      = js "uncertain_reply:" ++ matchAuthorityKey candidate := rfl
  simp only [isReplyEffect, hkind, htarget, hbegins, decide_true, Bool.true_and,
    List.isPrefixOf_iff_prefix]
  exact List.prefix_append _ _

theorem Sound.heldOnce (h : Sound r s) (hnamed : Named found s) {candidate : MatchCandidate}
    (hrecorded : effectRecorded .holdOpened (holdTarget .uncertainReply candidate) s = true) :
    HeldOnce found candidate s := by
  obtain ⟨effect, hmem, hkind, htarget⟩ := effectRecorded_iff.1 hrecorded
  have hreply := isReplyEffect_of_target hkind htarget
  obtain ⟨named, hfound, id, rfl, hopened⟩ := hnamed effect hmem hreply
  have hledger : some id ∈ (replyHoldIds s.messageId s.holds).map some := by
    rw [← h.ledger]
    exact List.mem_map.2 ⟨_, List.mem_filter.2 ⟨hmem, hreply⟩, rfl⟩
  obtain ⟨id', hid, heq⟩ := List.mem_map.1 hledger
  obtain rfl := Option.some.inj heq
  refine ⟨named, hfound, List.append_cancel_left htarget, id', hid, hopened, ?_⟩
  have hone : (s.effects.rows.filter fun effect => effect.kind = .holdOpened &&
      effect.targetKey = holdTarget .uncertainReply candidate).length ≤ 1 := by
    apply Table.filter_length_le_one
    intro a _ b _ ha hb
    simp only [Bool.and_eq_true, decide_eq_true_eq] at ha hb
    exact Prod.ext (ha.1.trans hb.1.symm) (ha.2.trans hb.2.symm)
  have hin : holdEffect replyHold named id' ∈ s.effects.rows.filter fun effect =>
      effect.kind = .holdOpened && effect.targetKey = holdTarget .uncertainReply candidate :=
    List.mem_filter.2 ⟨hmem, by rw [htarget]; simp [hkind]⟩
  generalize s.effects.rows.filter (fun effect => effect.kind = .holdOpened &&
      effect.targetKey = holdTarget .uncertainReply candidate) = rows at hone hin ⊢
  rcases rows with _ | ⟨first, _ | ⟨second, rest⟩⟩
  · cases hin
  · rw [List.mem_singleton] at hin
    rw [hin]
  · simp at hone

/-- The candidates a run of inputs finds. -/
def foundBy (inputs : List Input) : List MatchCandidate :=
  inputs.flatMap fun input =>
    match input with
    | .process _ found => found
    | _ => []

variable (r) in
/-- The message has not been processed. -/
structure Start where
  store : Store
  effects : store.effects.rows = []
  holds : ∀ hold ∈ store.holds, isReplyHold store.messageId hold = false
  events : ∀ event ∈ store.suppression.events, r.owns event.commandId = false

theorem Start.sound (start : Start r) : Sound r start.store := by
  have hnone : ∀ effect : MailEffect, effect ∉ start.store.effects := by
    intro effect hmem
    rw [← Table.mem_rows, start.effects] at hmem
    cases hmem
  have hevents : ∀ event ∈ start.store.suppression.events,
      event.commandId ≠ some r.optOutCommand ∧
        event.commandId ≠ some (r.optOutCommand ++ js ":firm") := by
    intro event hmem
    simpa [Reply.owns] using start.events event hmem
  refine ⟨?_, fun effect hmem => absurd hmem (hnone effect), ?_, ?_⟩
  · have hholds : replyHoldIds start.store.messageId start.store.holds = [] := by
      have h : replyHoldIds start.store.messageId ([] ++ start.store.holds)
          = replyHoldIds start.store.messageId [] := replyHoldIds_other _ start.holds
      rwa [List.nil_append] at h
    rw [start.effects, hholds]
    rfl
  · exact fun event hmem hcommand => absurd hcommand (hevents event hmem).1
  · exact fun event hmem hcommand => absurd hcommand (hevents event hmem).2

def messageRun (start : Start r) (inputs : List Input) : Store :=
  Runs.run (step r) start.store inputs

/-- A run that finds no more keeps the replies' effects named. -/
theorem Named.run {inputs : List Input} (hnamed : Named found s) (h : Sound r s)
    (hmeets : Runs.Meets (Effects.step r) (fun s input => goesBeyond r s input = false) s inputs)
    (hfound : foundBy inputs ⊆ found) : Named found (Runs.run (Effects.step r) s inputs) := by
  induction inputs generalizing s with
  | nil => exact hnamed
  | cons input inputs ih =>
    obtain ⟨hinput, hrest⟩ := hmeets
    rw [foundBy, List.flatMap_cons] at hfound
    refine ih (hnamed.step h hinput ?_) (h.step hinput).1 hrest
      (List.Subset.trans (List.subset_append_right _ _) hfound)
    rintro reads batch rfl
    exact List.Subset.trans (List.subset_append_left _ _) hfound

/-- No effect of the message is repeated. -/
structure Replayed (start : Start r) (inputs : List Input) : Prop where
  counted : Runs.total (step r) (signalsCounted r) start.store inputs ≤ 1
  stops : StopsOnce r (messageRun start inputs)
  processings : ∀ front reads found back, inputs = front ++ .process reads found :: back →
    ReplaysOnce r (messageRun start front) (messageRun start (front ++ [.process reads found]))
      reads found
  held : r.classification.class_ = .human ∨ r.classification.class_ = .uncertain →
    ∀ front reads found back, inputs = front ++ .process reads found :: back →
    (processMessage r reads found (messageRun start front)).isSome = true →
    ∀ candidate ∈ found, HeldOnce (foundBy inputs) candidate (messageRun start inputs)
  /-- And no other hold is a reply's. -/
  ledger : ((messageRun start inputs).effects.rows.filter isReplyEffect).map MailEffect.holdId
    = (replyHoldIds (messageRun start inputs).messageId (messageRun start inputs).holds).map some

theorem Sound.replaysOnce (h : Sound r s) {reads : Reads} {found : List MatchCandidate}
    (hwithin : goesBeyond r s (.process reads found) = false) :
    ReplaysOnce r s (Effects.step r s (.process reads found)) reads found := by
  rw [step_process]
  simp only [goesBeyond, Bool.or_eq_false_iff] at hwithin
  cases hprocess : processMessage r reads found s with
  | none =>
    refine ⟨fun effect hmem _ hnew => absurd hmem hnew, fun event hmem _ hnew => absurd hmem hnew,
      fun effects heq => ?_⟩
    rw [hprocess] at heq
    cases heq
  | some result =>
    obtain ⟨effects, s'⟩ := result
    simp only [Option.map_some, Option.getD_some]
    have hagain : ∀ effects, processMessage r reads found s = some (effects, s') →
        ∀ later again, distinct again = distinct found →
        ∃ effects', processMessage r later again s' = some (effects', s') :=
      fun effects heq later again hsame => processMessage_again heq later hsame
    rcases processMessage_processed h hwithin.1 hprocess with ⟨-, rfl⟩ |
      ⟨t, himports, hwrites, -, -⟩
    · exact ⟨fun effect hmem _ hnew => absurd hmem hnew,
        fun event hmem _ hnew => absurd hmem hnew, hagain⟩
    · have hnames : ∀ firm, StopsOnly (r.stops (distinct found)) t firm → NamesOnly found firm s' := by
        intro firm hstops
        obtain ⟨only, row, hsingle, hfirm, hrows, hkey⟩ := himports.namesOnly hstops hwithin.2
        exact ⟨only, row, hsingle, hfirm, by rw [hwrites.frame.matches_, hrows], hkey⟩
      refine ⟨fun effect hmem hkind hnew => ?_, fun event hmem hcommand hnew => ?_, hagain⟩
      · rw [← himports.effects] at hnew
        obtain ⟨firm, htarget, hstops⟩ := hwrites.firm_effect effect hmem hkind hnew
        exact ⟨firm, htarget, hnames firm hstops⟩
      · rw [← himports.suppression] at hnew
        exact hnames _ (hwrites.firm_event event hmem hcommand hnew)

/-- Whether the one signal has been counted. -/
def spent (r : Reply) (s : Store) : Nat := if counted r s then 1 else 0

theorem Sound.counts (h : Sound r s) {input : Input} (hwithin : goesBeyond r s input = false) :
    spent r s + signalsCounted r s input ≤ spent r (Effects.step r s input) := by
  have hmono : spent r s ≤ spent r (Effects.step r s input) := by
    unfold spent
    by_cases hcounted : counted r s = true
    · obtain ⟨effect, hmem, hkind⟩ := counted_iff.1 hcounted
      rw [if_pos hcounted, if_pos (counted_iff.2 ⟨effect, (h.step hwithin).2 effect hmem, hkind⟩)]
    · rw [if_neg hcounted]
      exact Nat.zero_le _
  cases input with
  | process reads found =>
    have hcounts : Counts r s (Effects.step r s (.process reads found)) := by
      simp only [goesBeyond, Bool.or_eq_false_iff] at hwithin
      rw [step_process]
      cases hprocess : processMessage r reads found s with
      | none => exact Counts.of_ramp rfl
      | some result =>
        obtain ⟨effects, s'⟩ := result
        rcases processMessage_processed h hwithin.1 hprocess with ⟨-, rfl⟩ | ⟨t, -, -, hcounts, -⟩
        · exact Counts.of_ramp rfl
        · exact hcounts
    simp only [signalsCounted]
    rcases hcounts with hsame | ⟨hbefore, hafter, hone⟩
    · rw [hsame, Int.sub_self]
      exact hmono
    · unfold spent
      rw [hbefore, hafter, hone]
      simp
  | _ => exact hmono

/-- Every run in which no processing goes beyond what was counted and stored. -/
theorem replays_repeat_no_effect (r : Reply) (start : Start r) (inputs : List Input)
    (h : Runs.Meets (step r) (fun s input => goesBeyond r s input = false) start.store inputs) :
    Replayed start inputs := by
  have hsound : ∀ {is : List Input},
      Runs.Meets (step r) (fun s input => goesBeyond r s input = false) start.store is →
      Sound r (messageRun start is) := fun his =>
    his.invariant (fun _ _ hinput hs => (hs.step hinput).1) start.sound
  have hone : ∀ front input, messageRun start (front ++ [input])
      = step r (messageRun start front) input := fun front input =>
    Runs.run_append (step r) start.store front [input]
  refine ⟨?_, (hsound h).stopsOnce, ?_, ?_, (hsound h).ledger⟩
  · have hspent : ∀ s, Sound r s → spent r s ≤ 1 := by
      intro s _
      unfold spent
      split <;> omega
    have htotal : spent r start.store
        + Runs.total (step r) (signalsCounted r) start.store inputs ≤ 1 :=
      Runs.total_le_of_potential (fun _ _ hinput hs => (hs.step hinput).1)
        (fun _ _ hinput hs => hs.counts hinput) hspent h start.sound
    omega
  · rintro front reads found back rfl
    rw [hone]
    exact (hsound h.append.1).replaysOnce h.append.2.1
  · rintro hclass front reads found back rfl hsome candidate hmem
    obtain ⟨hfront, hprocess, hback⟩ := h.append
    have hnone : Named (foundBy (front ++ .process reads found :: back)) start.store := by
      intro effect hthere
      rw [← Table.mem_rows, start.effects] at hthere
      cases hthere
    apply (hsound h).heldOnce (hnone.run start.sound h (List.Subset.refl _))
    have hrecorded : effectRecorded .holdOpened (holdTarget .uncertainReply candidate)
        (step r (messageRun start front) (.process reads found)) = true := by
      obtain ⟨⟨effects, s'⟩, hresult⟩ := Option.isSome_iff_exists.1 hsome
      obtain ⟨kept, hkept, hkey⟩ := distinct_covers hmem
      have hsettled : Settled r (distinct found) s' :=
        (processMessage_settles hresult).resolve_left fun hnone => by
          rw [hnone] at hkept
          cases hkept
      have hheld : effectRecorded .holdOpened (holdTarget .uncertainReply kept) s' = true := by
        have hclassified := hsettled.classified
        unfold ClassSettled at hclassified
        rcases hclass with hclass | hclass
        · rw [hclass] at hclassified
          exact (hclassified kept hkept).held
        · rw [hclass] at hclassified
          exact (hclassified kept hkept).held
      rw [step_process, hresult]
      unfold holdTarget at hheld ⊢
      rwa [← hkey]
    obtain ⟨effect, hthere, hwhat⟩ := effectRecorded_iff.1 hrecorded
    have hrun : messageRun start (front ++ .process reads found :: back)
        = Runs.run (step r) (step r (messageRun start front) (.process reads found)) back :=
      Runs.run_append (step r) start.store front _
    rw [hrun]
    refine effectRecorded_iff.2 ⟨effect, ?_, hwhat⟩
    exact Runs.Meets.related (I := Sound r)
      (R := fun s s' => ∀ effect ∈ s.effects, effect ∈ s'.effects) (fun _ _ hm => hm)
      (fun _ _ _ hfirst hsecond effect hm => hsecond effect (hfirst effect hm))
      (fun _ _ hinput hs => (hs.step hinput).1) (fun _ _ hinput hs => (hs.step hinput).2)
      hback ((hsound hfront).step hprocess).1 effect hthere

/-- A message of one class, and the two plans it may belong to. -/
def replyOf (class_ : ReplyClass) : Reply where
  platform := asciiPlatform []
  workspaceId := js "w"
  mailboxId := js "b"
  providerMessageId := js "g"
  headerFrom := some (js "ann@firm.test")
  internalDate := 5
  classification := ⟨class_, []⟩

def twoPlans (first second : FirmId) : Matches.Store where
  message := ⟨js "m", .incoming, some (js "u")⟩
  stored := ⟨.empty, []⟩
  crm := (Start.reply first second).crm
  plans := (Start.reply first second).plans
  directSendApplied := []

/-- A send day that is open. -/
def openDay : Outbound.SendDay where
  mailboxId := js "b"
  businessDate := 3
  automatedSent := 4
  bounces := 0
  optOuts := 0
  providerErrors := 0
  capGranted := 5
  healthy := none
  closedAt := none
  recoveryCredited := false
  recoveryEpochId := none
  recoveryStage := none
  recoveryCap := none

def unprocessed (r : Reply) (first second : FirmId) : Start r where
  store :=
    { matching := twoPlans first second
      matched := false
      effects := .empty
      routes := []
      sequences := ⟨.empty, .empty⟩
      meetingPlans := []
      fences := .empty
      ramp := { Outbound.RampTables.empty with days := Table.empty.upsert openDay }
      suppression := .withFirms (Start.reply first second).crm.firms
      promotions := []
      body := none
      metadataOnly := false }
  effects := rfl
  holds := List.forall_mem_nil _
  events := List.forall_mem_nil _

def readsAt (now : Instant) : Reads := ⟨now, now, ⟨⟨now, js "e", none, false⟩, none, 3⟩⟩

/-- A bounce that keeps finding both plans. -/
theorem replays_repeat_no_effect_bounce :
    let first : FirmId := ⟨js "6f1c1f7e-0000-4000-8000-000000000001", by decide⟩
    let second : FirmId := ⟨js "6f1c1f7e-0000-4000-8000-000000000002", by decide⟩
    let both : List MatchCandidate := [⟨first, .outreachPlan (js "p"), none, .thread, false⟩,
      ⟨second, .outreachPlan (js "q"), none, .participant, false⟩]
    Replayed (unprocessed (replyOf .bounce) first second)
      [.process (readsAt 7) both, .process (readsAt 8) both] := by
  intro first second both
  exact replays_repeat_no_effect _ _ _ (by decide +kernel)

/-- One plan, and a second found by a replay: the bounce is counted twice. -/
theorem bounce_counted_twice :
    let first : FirmId := ⟨js "6f1c1f7e-0000-4000-8000-000000000001", by decide⟩
    let second : FirmId := ⟨js "6f1c1f7e-0000-4000-8000-000000000002", by decide⟩
    let one : MatchCandidate := ⟨first, .outreachPlan (js "p"), none, .thread, false⟩
    ¬ Replayed (unprocessed (replyOf .bounce) first second)
      [.process (readsAt 7) [one], .process (readsAt 8)
        [one, ⟨second, .outreachPlan (js "q"), none, .participant, false⟩]] := by
  intro first second one h
  have htwo : Runs.total (step (replyOf .bounce)) (signalsCounted (replyOf .bounce))
      (unprocessed (replyOf .bounce) first second).store
      [.process (readsAt 7) [one], .process (readsAt 8)
        [one, ⟨second, .outreachPlan (js "q"), none, .participant, false⟩]] = 2 := by
    decide +kernel
  have hcounted := h.counted
  rw [htwo] at hcounted
  omega

end Runs

end FoundingSales.Mail.Effects
