import FoundingSales.Library.Replays
import FoundingSales.Mail.Effects
import FoundingSales.Suppression.EventLog

/-!
What a processing of a message may write, and what every such write keeps.

Proved here:

* `Writes.frame`: the matches, the firms and the recorded effects stay;
* `Writes.sound`: the effect rows of replies name the holds of replies, one each, and the stops
  of the message are recorded under one id each;
* `Writes.named`: and each such row and its hold are of a candidate that was found;
* `bounceCandidate_spec`, `optOut_spec`: how far a processing moves the ramp.
-/

namespace FoundingSales.Mail.Effects

open Tables Crm Matches Sequences

/-! ## Recording one effect -/

section Recording

variable {s s' : Store} {effect : MailEffect} {x x' : Session} {candidate : MatchCandidate}

theorem recordEffect_spec {inserted : Bool} (h : recordEffect effect s = some (inserted, s')) :
    (inserted = true ∧ ∃ t, s.effects.insert? effect = some t ∧ s' = { s with effects := t }) ∨
      (inserted = false ∧ s' = s ∧ ∃ found ∈ s.effects, found.key = effect.key) := by
  unfold recordEffect at h
  split at h
  · split at h
    · next t hinsert =>
      cases h
      exact .inl ⟨rfl, t, hinsert, rfl⟩
    · next htaken =>
      cases h
      exact .inr ⟨rfl, rfl, Table.insert?_eq_none htaken⟩
  · cases h

theorem effectRecorded_iff {kind : MailEffectKind} {targetKey : JsString} :
    effectRecorded kind targetKey s = true ↔
      ∃ effect ∈ s.effects, effect.kind = kind ∧ effect.targetKey = targetKey := by
  unfold effectRecorded
  rw [Option.isSome_iff_exists]
  constructor
  · rintro ⟨effect, hfind⟩
    obtain ⟨hmem, hkey⟩ := Table.find?_eq_some.1 hfind
    obtain ⟨hkind, htarget⟩ := Prod.mk.inj hkey
    exact ⟨effect, hmem, hkind, htarget⟩
  · rintro ⟨effect, hmem, rfl, rfl⟩
    exact ⟨effect, Table.find?_eq_some.2 ⟨hmem, rfl⟩⟩

/-- An effect that is not recorded yet is inserted. -/
theorem recordEffect_fresh {inserted : Bool}
    (hfresh : effectRecorded effect.kind effect.targetKey s = false)
    (h : recordEffect effect s = some (inserted, s')) :
    ∃ t, s.effects.insert? effect = some t ∧ s' = { s with effects := t } := by
  rcases recordEffect_spec h with ⟨-, hinserted⟩ | ⟨-, -, found, hfound, hkey⟩
  · exact hinserted
  · obtain ⟨hkind, htarget⟩ := Prod.mk.inj hkey
    rw [effectRecorded_iff.2 ⟨found, hfound, hkind, htarget⟩] at hfresh
    cases hfresh

end Recording

/-! ## What a processing may write -/

/-- One write of a processing's effects, and their closure: `found` may be held, and the firm of
`candidates` stopped. -/
inductive Writes (r : Reply) (found candidates : List MatchCandidate) : Store → Store → Prop
  | refl (s : Store) : Writes r found candidates s s
  | trans {s t u : Store} : Writes r found candidates s t → Writes r found candidates t u →
      Writes r found candidates s u
  /-- Plans, enrollments, meeting plans, fences, routes, the ramp, promotions or the body. -/
  | elsewhere {s s' : Store} (stored : s'.matching.stored = s.matching.stored)
      (message : s'.matching.message = s.matching.message) (crm : s'.matching.crm = s.matching.crm)
      (effects : s'.effects = s.effects) (suppression : s'.suppression = s.suppression)
      (matched : s'.matched = s.matched) : Writes r found candidates s s'
  | hold {s : Store} {t : Table MailEffect.key} (input : HoldInput) (candidate : MatchCandidate)
      (known : input = replyHold ∨ input = routeHold) (among : candidate ∈ found)
      (insert : s.effects.insert? (holdEffect input candidate s.holds.length) = some t) :
      Writes r found candidates s { s.withHolds
        (s.holds ++ [candidateHold s.messageId input candidate]) with effects := t }
  | effect {s : Store} {t : Table MailEffect.key} (effect : MailEffect)
      (kind : effect.kind = .routeInvalidated ∨ effect.kind = .replyLaneEntry ∨
        effect.kind = .noEffect)
      (insert : s.effects.insert? effect = some t) :
      Writes r found candidates s { s with effects := t }
  | handle {s s' : Store} {now : Instant} {eventId : Option JsString} (address : JsString)
      (sender : r.headerFrom = some address)
      (stop : suppress r now (handleStop r address) s = some (eventId, s')) :
      Writes r found candidates s s'
  | handleEffect {s : Store} {t : Table MailEffect.key} (address eventId : JsString)
      (sender : r.headerFrom = some address)
      (insert : s.effects.insert? (suppressionEffect .handleSuppressed (handleTarget address) eventId)
        = some t) :
      Writes r found candidates s { s with effects := t }
  | firm {s s' : Store} {now : Instant} {eventId : Option JsString} (only : MatchCandidate)
      (single : candidates = [only])
      (fresh : effectRecorded .firmSuppressed (firmTarget only.firmId) s = false)
      (stop : suppress r now (firmStop r only.firmId) s = some (eventId, s')) :
      Writes r found candidates s s'
  | firmEffect {s : Store} {t : Table MailEffect.key} (only : MatchCandidate) (eventId : JsString)
      (single : candidates = [only])
      (permitted : stoppable only.firmId s = true)
      (insert : s.effects.insert? (suppressionEffect .firmSuppressed (firmTarget only.firmId) eventId)
        = some t) :
      Writes r found candidates s { s with effects := t }

/-! ## Stops -/

section Stops

variable {r : Reply} {now : Instant} {input : Suppression.RecordSuppressionInput} {s s' : Store}

/-- A stop is refused, or recorded under its key once. -/
theorem suppress_spec {eventId : Option JsString} (h : suppress r now input s = some (eventId, s')) :
    (eventId = none ∧ s' = s) ∨
      ∃ key suppression, eventId.isSome = true ∧ s' = { s with suppression := suppression } ∧
        Suppression.suppressionKey (suppressionContext r now) input s.database = .ok key ∧
        (suppression.events = s.suppression.events ∨
          s.suppression.events.insert? (Suppression.stopRow (suppressionContext r now) input key)
            = some suppression.events) := by
  unfold suppress at h
  split at h
  · cases h
  · cases h
    exact .inl ⟨rfl, rfl⟩
  · next recorded suppression hresult =>
    cases h
    rcases Suppression.recordSuppression_events hresult with ⟨⟨reason, hrefused⟩, -⟩ | hkey
    · cases hrefused
    · obtain ⟨key, hkey, -, hevents⟩ := hkey
      refine .inr ⟨key, suppression, rfl, rfl, hkey, hevents.imp (fun heq => ?_) id⟩
      rw [heq]
      rfl

theorem firmStop_key {firmId : FirmId} {key : JsString}
    (h : Suppression.suppressionKey (suppressionContext r now) (firmStop r firmId) s.database
      = .ok key) : key = firmId.text ∧ stoppable firmId s = true := by
  simp only [Suppression.suppressionKey, firmStop] at h
  split at h
  · cases h
  · next hallowed =>
    cases h
    refine ⟨rfl, ?_⟩
    unfold Suppression.firmRefusal at hallowed
    unfold stoppable
    have hfirms : s.database.firms = s.matching.crm.firms := rfl
    rw [hfirms] at hallowed
    cases hfind : s.matching.crm.firms.find? firmId with
    | none => simp [hfind] at hallowed
    | some firm =>
      simp only [hfind] at hallowed
      have hnone : decideFirmMutation Actor.system firm = none := by
        cases hdecide : decideFirmMutation Actor.system firm with
        | none => rfl
        | some reason =>
          rw [show (suppressionContext r now).actor = Actor.system from rfl, hdecide] at hallowed
          cases reason <;> simp at hallowed
      simp [hnone]

theorem handleStop_key {address key : JsString}
    (h : Suppression.suppressionKey (suppressionContext r now) (handleStop r address) s.database
      = .ok key) :
    ∃ handle, Rules.canonicalizeHandle r.platform address = .ok handle ∧ key = handle.value := by
  simp only [Suppression.suppressionKey, handleStop] at h
  split at h
  · cases h
  · next handle hcanonical =>
    cases h
    exact ⟨handle, hcanonical, rfl⟩

end Stops

/-! ## What writes keep -/

section Kept

variable {r : Reply} {found candidates : List MatchCandidate} {s s' : Store}

/-- What every write leaves alone, and what it only adds to. -/
structure Frame (s s' : Store) : Prop where
  message : s'.matching.message = s.matching.message
  matches_ : s'.matching.stored.matches_ = s.matching.stored.matches_
  crm : s'.matching.crm = s.matching.crm
  matched : s'.matched = s.matched
  effects : ∀ effect ∈ s.effects, effect ∈ s'.effects

theorem Frame.refl (s : Store) : Frame s s := ⟨rfl, rfl, rfl, rfl, fun _ h => h⟩

theorem Frame.trans {t : Store} (h : Frame s t) (h' : Frame t s') : Frame s s' :=
  ⟨h'.message.trans h.message, h'.matches_.trans h.matches_, h'.crm.trans h.crm,
    h'.matched.trans h.matched, fun effect hmem => h'.effects effect (h.effects effect hmem)⟩

theorem Frame.recorded (h : Frame s s') {kind : MailEffectKind} {targetKey : JsString}
    (hrecorded : effectRecorded kind targetKey s = true) :
    effectRecorded kind targetKey s' = true := by
  obtain ⟨effect, hmem, hwhat⟩ := effectRecorded_iff.1 hrecorded
  exact effectRecorded_iff.2 ⟨effect, h.effects effect hmem, hwhat⟩

theorem Frame.inserted {effect : MailEffect} {t : Table MailEffect.key}
    (h : s.effects.insert? effect = some t) : Frame s { s with effects := t } :=
  ⟨rfl, rfl, rfl, rfl, fun _ hmem => (Table.mem_insert? h).2 (.inl hmem)⟩

theorem Frame.suppressed {now : Instant} {input : Suppression.RecordSuppressionInput}
    {eventId : Option JsString} (h : suppress r now input s = some (eventId, s')) : Frame s s' := by
  rcases suppress_spec h with ⟨-, rfl⟩ | ⟨key, suppression, -, rfl, -⟩
  · exact Frame.refl _
  · exact ⟨rfl, rfl, rfl, rfl, fun _ hmem => hmem⟩

theorem Writes.frame (h : Writes r found candidates s s') : Frame s s' := by
  induction h with
  | refl s => exact Frame.refl s
  | trans _ _ ih ih' => exact ih.trans ih'
  | elsewhere hstored hmessage hcrm heffects _ hmatched =>
    exact ⟨hmessage, by rw [hstored], hcrm, hmatched, fun _ hmem => by rwa [heffects]⟩
  | hold input candidate _ _ hinsert =>
    exact ⟨rfl, rfl, rfl, rfl, fun _ hmem => (Table.mem_insert? hinsert).2 (.inl hmem)⟩
  | effect effect _ hinsert => exact Frame.inserted hinsert
  | handle address _ hstop => exact Frame.suppressed hstop
  | handleEffect address eventId _ hinsert => exact Frame.inserted hinsert
  | firm only _ _ hstop => exact Frame.suppressed hstop
  | firmEffect only eventId _ _ hinsert => exact Frame.inserted hinsert

end Kept

/-! ## The invariant -/

def isReplyEffect (effect : MailEffect) : Bool :=
  effect.kind = .holdOpened && (js "uncertain_reply:").isPrefixOf effect.targetKey

/-- The holds a reply's processings opened. -/
def replyHoldIds (messageId : Uuid) (holds : List Hold) : List HoldId :=
  ((holds.map (isReplyHold messageId)).zipIdx.filter Prod.fst).map Prod.snd

/-- The event an opt-out is recorded as, for its sender. -/
def handleEventId (r : Reply) (key : JsString) : JsString :=
  Suppression.deterministicEventId r.platform
    ⟨r.workspaceId, .handle, key, .prospectOptOut, some r.optOutCommand, none, .email⟩

/-- And for a firm. -/
def firmEventId (r : Reply) (key : JsString) : JsString :=
  Suppression.deterministicEventId r.platform
    ⟨r.workspaceId, .firm, key, .prospectOptOut, some (r.optOutCommand ++ js ":firm"), none, .email⟩

structure Sound (r : Reply) (s : Store) : Prop where
  /-- The effect rows of replies name the holds of replies, one each and in order. -/
  ledger : (s.effects.rows.filter isReplyEffect).map MailEffect.holdId
    = (replyHoldIds s.messageId s.holds).map some
  handles : ∀ effect ∈ s.effects, effect.kind = .handleSuppressed →
    ∃ address, r.headerFrom = some address ∧ effect.targetKey = handleTarget address
  handleEvents : ∀ event ∈ s.suppression.events, event.commandId = some r.optOutCommand →
    ∃ address handle, r.headerFrom = some address ∧
      Rules.canonicalizeHandle r.platform address = .ok handle ∧
      event.eventId = handleEventId r handle.value
  firmEvents : ∀ event ∈ s.suppression.events,
    event.commandId = some (r.optOutCommand ++ js ":firm") →
      event.eventId = firmEventId r event.canonicalKey

section Invariant

variable {r : Reply} {found candidates : List MatchCandidate} {s s' : Store}

theorem replyHoldIds_append (messageId : Uuid) (holds : List Hold) (hold : Hold) :
    replyHoldIds messageId (holds ++ [hold]) = replyHoldIds messageId holds ++
      if isReplyHold messageId hold then [holds.length] else [] := by
  unfold replyHoldIds
  rw [List.map_append, List.zipIdx_append, List.filter_append, List.map_append]
  congr 1
  rw [List.length_map, Nat.zero_add, List.map_singleton, List.zipIdx_singleton]
  cases hreply : isReplyHold messageId hold <;> simp

/-- An effect of another kind, or of another reason, is not in the ledger. -/
theorem ledger_other {effect : MailEffect} {t : Table MailEffect.key}
    (hinsert : s.effects.insert? effect = some t) (hother : isReplyEffect effect = false) :
    (t.rows.filter isReplyEffect).map MailEffect.holdId
      = (s.effects.rows.filter isReplyEffect).map MailEffect.holdId := by
  rw [(Table.insert?_eq_some hinsert).2, List.filter_append]
  simp [hother]

/-- A write of an effect row that is neither a reply's hold nor a handle's stop. -/
theorem Sound.inserted (h : Sound r s) {effect : MailEffect} {t : Table MailEffect.key}
    (hinsert : s.effects.insert? effect = some t) (hother : isReplyEffect effect = false)
    (hhandle : effect.kind = .handleSuppressed →
      ∃ address, r.headerFrom = some address ∧ effect.targetKey = handleTarget address) :
    Sound r { s with effects := t } := by
  refine ⟨(ledger_other hinsert hother).trans h.ledger, ?_, h.handleEvents, h.firmEvents⟩
  intro e he hkind
  rcases (Table.mem_insert? hinsert).1 he with he | rfl
  · exact h.handles e he hkind
  · exact hhandle hkind

theorem command_ne_firm (r : Reply) : r.optOutCommand ≠ r.optOutCommand ++ js ":firm" := by
  intro heq
  have := congrArg List.length heq
  rw [List.length_append] at this
  have hlength : (js ":firm").length = 5 := by decide
  omega

theorem Sound.suppressed (h : Sound r s) {now : Instant}
    {input : Suppression.RecordSuppressionInput} {eventId : Option JsString}
    (hstop : suppress r now input s = some (eventId, s'))
    (hinput : (∃ address, r.headerFrom = some address ∧ input = handleStop r address) ∨
      ∃ firmId, input = firmStop r firmId) : Sound r s' := by
  rcases suppress_spec hstop with ⟨-, rfl⟩ | ⟨key, suppression, -, rfl, hkey, hevents⟩
  · exact h
  · rcases hevents with hsame | hinsert
    · exact ⟨h.ledger, h.handles, fun event he => h.handleEvents event (hsame ▸ he),
        fun event he => h.firmEvents event (hsame ▸ he)⟩
    · refine ⟨h.ledger, h.handles, fun event he hcommand => ?_, fun event he hcommand => ?_⟩
      · rcases (Table.mem_insert? hinsert).1 he with he | rfl
        · exact h.handleEvents event he hcommand
        · rcases hinput with ⟨address, hfrom, rfl⟩ | ⟨firmId, rfl⟩
          · obtain ⟨handle, hcanonical, rfl⟩ := handleStop_key hkey
            exact ⟨address, handle, hfrom, hcanonical, rfl⟩
          · exact absurd (Option.some.inj hcommand).symm (command_ne_firm r)
      · rcases (Table.mem_insert? hinsert).1 he with he | rfl
        · exact h.firmEvents event he hcommand
        · rcases hinput with ⟨address, hfrom, rfl⟩ | ⟨firmId, rfl⟩
          · exact absurd (Option.some.inj hcommand) (command_ne_firm r)
          · rfl

theorem Writes.sound (hwrites : Writes r found candidates s s') (h : Sound r s) : Sound r s' := by
  induction hwrites with
  | refl s => exact h
  | trans _ _ ih ih' => exact ih' (ih h)
  | @elsewhere s s' hstored hmessage hcrm heffects hsuppression hmatched =>
    have hid : s'.messageId = s.messageId := congrArg Message.id hmessage
    have hholds : s'.holds = s.holds := congrArg MatchStore.holds hstored
    refine ⟨?_, ?_, ?_, ?_⟩
    · rw [heffects, hid, hholds]
      exact h.ledger
    · rw [heffects]
      exact h.handles
    · rw [hsuppression]
      exact h.handleEvents
    · rw [hsuppression]
      exact h.firmEvents
  | @hold s t input candidate hknown _ hinsert =>
    refine ⟨?_, ?_, h.handleEvents, h.firmEvents⟩
    · show (t.rows.filter isReplyEffect).map MailEffect.holdId = (replyHoldIds s.messageId
        (s.holds ++ [candidateHold s.messageId input candidate])).map some
      rw [(Table.insert?_eq_some hinsert).2, List.filter_append, List.map_append, h.ledger,
        replyHoldIds_append, List.map_append]
      congr 1
      rcases hknown with rfl | rfl
      · have hreply : isReplyEffect (holdEffect replyHold candidate s.holds.length) = true := by
          have hbegins : holdTarget .uncertainReply candidate
              = js "uncertain_reply:" ++ matchAuthorityKey candidate := rfl
          simp only [isReplyEffect, holdEffect, replyHold, hbegins, decide_true, Bool.true_and,
            List.isPrefixOf_iff_prefix]
          exact List.prefix_append _ _
        have hhold : isReplyHold s.messageId (candidateHold s.messageId replyHold candidate) = true := by
          simp [isReplyHold, candidateHold, replyHold]
        simp only [List.filter_cons, hreply, List.filter_nil, if_true, hhold]
        rfl
      · have hreply : isReplyEffect (holdEffect routeHold candidate s.holds.length) = false := rfl
        have hhold : isReplyHold s.messageId (candidateHold s.messageId routeHold candidate) = false := by
          simp [isReplyHold, candidateHold, routeHold]
        simp only [List.filter_cons, hreply, List.filter_nil, hhold, Bool.false_eq_true, if_false]
        rfl
    · intro effect he hkind
      rcases (Table.mem_insert? hinsert).1 he with he | rfl
      · exact h.handles effect he hkind
      · cases hkind
  | effect effect hkind hinsert =>
    apply h.inserted hinsert
    · rcases hkind with hkind | hkind | hkind <;> simp [isReplyEffect, hkind]
    · intro hhandle
      rw [hhandle] at hkind
      rcases hkind with hkind | hkind | hkind <;> cases hkind
  | handle address hfrom hstop => exact h.suppressed hstop (.inl ⟨address, hfrom, rfl⟩)
  | handleEffect address eventId hfrom hinsert =>
    exact h.inserted hinsert rfl fun _ => ⟨address, hfrom, rfl⟩
  | firm only _ _ hstop => exact h.suppressed hstop (.inr ⟨only.firmId, rfl⟩)
  | firmEffect only eventId _ _ hinsert =>
    apply h.inserted hinsert rfl
    intro hkind
    cases hkind

/-- A hold as it was before any release. -/
def asOpened (hold : Hold) : Hold := { hold with releasedAt := none }

/-- The hold at a place of the table is the one opened for a reply's candidate. -/
def OpenedFor (named : MatchCandidate) (id : HoldId) (s : Store) : Prop :=
  ∃ hold, s.holds[id]? = some hold ∧ asOpened hold = candidateHold s.messageId replyHold named

/-- Every reply's effect is of a candidate that was found, and names the hold opened for it. -/
def Named (found : List MatchCandidate) (s : Store) : Prop :=
  ∀ effect ∈ s.effects, isReplyEffect effect = true →
    ∃ named ∈ found, ∃ id, effect = holdEffect replyHold named id ∧ OpenedFor named id s

/-- No hold is taken away or changed but for its release. -/
structure KeepsHolds (s s' : Store) : Prop where
  message : s'.messageId = s.messageId
  holds : ∀ (id : HoldId) (hold : Hold), s.holds[id]? = some hold →
    ∃ hold', s'.holds[id]? = some hold' ∧ asOpened hold' = asOpened hold

theorem KeepsHolds.append (hid : s'.messageId = s.messageId) {opened : List Hold}
    (hholds : s'.holds = s.holds ++ opened) : KeepsHolds s s' := by
  refine ⟨hid, fun id hold hhold => ⟨hold, ?_, rfl⟩⟩
  obtain ⟨hlt, -⟩ := List.getElem?_eq_some_iff.1 hhold
  rw [hholds, List.getElem?_append_left hlt]
  exact hhold

theorem KeepsHolds.of_eq (hid : s'.messageId = s.messageId) (hholds : s'.holds = s.holds) :
    KeepsHolds s s' :=
  .append hid (hholds.trans (List.append_nil _).symm)

theorem KeepsHolds.openedFor (h : KeepsHolds s s') {named : MatchCandidate} {id : HoldId}
    (hopened : OpenedFor named id s) : OpenedFor named id s' := by
  obtain ⟨hold, hhold, heq⟩ := hopened
  obtain ⟨hold', hhold', hsame⟩ := h.holds id hold hhold
  exact ⟨hold', hhold', by rw [hsame, heq, h.message]⟩

/-- What adds no reply's effect keeps them named. -/
theorem Named.kept (h : Named found s) (hholds : KeepsHolds s s')
    (heffects : ∀ effect ∈ s'.effects, effect ∈ s.effects ∨ isReplyEffect effect = false) :
    Named found s' := by
  intro effect hmem hreply
  rcases heffects effect hmem with hbefore | hother
  · obtain ⟨named, hnamed, id, heq, hopened⟩ := h effect hbefore hreply
    exact ⟨named, hnamed, id, heq, hholds.openedFor hopened⟩
  · rw [hother] at hreply
    cases hreply

theorem Named.inserted (h : Named found s) {effect : MailEffect} {t : Table MailEffect.key}
    (hinsert : s.effects.insert? effect = some t) (hother : isReplyEffect effect = false) :
    Named found { s with effects := t } := by
  refine h.kept (.of_eq rfl rfl) fun e he => ?_
  rcases (Table.mem_insert? hinsert).1 he with he | rfl
  · exact .inl he
  · exact .inr hother

theorem Named.suppressed (h : Named found s) {now : Instant}
    {input : Suppression.RecordSuppressionInput} {eventId : Option JsString}
    (hstop : suppress r now input s = some (eventId, s')) : Named found s' := by
  rcases suppress_spec hstop with ⟨-, rfl⟩ | ⟨key, suppression, -, rfl, -⟩
  · exact h
  · exact h.kept (.of_eq rfl rfl) fun _ hmem => .inl hmem

theorem Writes.named {batch : List MatchCandidate} (hwrites : Writes r batch candidates s s')
    (hbatch : batch ⊆ found) (h : Named found s) : Named found s' := by
  induction hwrites with
  | refl s => exact h
  | trans _ _ ih ih' => exact ih' (ih h)
  | elsewhere hstored hmessage _ heffects _ _ =>
    refine h.kept (.of_eq (congrArg Message.id hmessage) (congrArg MatchStore.holds hstored)) ?_
    rw [heffects]
    exact fun _ hmem => .inl hmem
  | @hold s t input candidate hknown hfound hinsert =>
    have hkeeps : KeepsHolds s { s.withHolds
        (s.holds ++ [candidateHold s.messageId input candidate]) with effects := t } :=
      .append rfl rfl
    intro effect hmem hreply
    rcases (Table.mem_insert? hinsert).1 hmem with hmem | rfl
    · obtain ⟨named, hnamed, id, heq, hopened⟩ := h effect hmem hreply
      exact ⟨named, hnamed, id, heq, hkeeps.openedFor hopened⟩
    · rcases hknown with rfl | rfl
      · exact ⟨candidate, hbatch hfound, s.holds.length, rfl, _, List.getElem?_concat_length, rfl⟩
      · cases hreply
  | effect effect hkind hinsert =>
    apply h.inserted hinsert
    rcases hkind with hkind | hkind | hkind <;> simp [isReplyEffect, hkind]
  | handle address _ hstop => exact h.suppressed hstop
  | handleEffect address eventId _ hinsert => exact h.inserted hinsert rfl
  | firm only _ _ hstop => exact h.suppressed hstop
  | firmEffect only eventId _ _ hinsert => exact h.inserted hinsert rfl

end Invariant

/-! ## Signals -/

section Signals

open Outbound

/-- The bounces and opt-outs counted over every send day. -/
def signalTotal (t : RampTables) : Int := t.days.total fun day => day.bounces + day.optOuts

variable {t t' : RampTables} {mailboxId : Uuid} {businessDate : BusinessDate}

/-- An update of a day that adds `n` to what is counted, or misses. -/
theorem signalTotal_updateDay {guard : SendDay → Bool} {set : SendDay → SendDay}
    {returned : Option SendDay} {n : Int}
    (h : t.updateDay mailboxId businessDate guard set = some (returned, t'))
    (hkey : ∀ day, (set day).key = day.key)
    (hset : ∀ day, (set day).bounces + (set day).optOuts = day.bounces + day.optOuts + n) :
    (signalTotal t' = signalTotal t ∨ signalTotal t' = signalTotal t + n) := by
  unfold RampTables.updateDay at h
  rw [Option.bind_eq_bind, Option.bind_eq_some_iff] at h
  obtain ⟨⟨row, days⟩, hrow, heq⟩ := h
  cases heq
  rcases Table.updateRow_eq_some hrow with ⟨-, rfl, -⟩ | ⟨day, hfind, -, -, -, rfl⟩
  · exact .inl rfl
  · right
    have htotal := Table.total_upsert (t := t.days) (r := set day)
      fun day => day.bounces + day.optOuts
    have hfound : t.days.find? (set day).key = some day := by
      rw [hkey, Table.find?_key hfind, hfind]
    rw [hfound, Option.map_some, Option.getD_some, hset] at htotal
    show (t.days.upsert (set day)).total _ = t.days.total _ + n
    omega

theorem updateRamp_days {guard : RampDbRow → Bool} {set : RampDbRow → RampDbRow}
    {returned : Option RampDbRow} (h : t.updateRamp mailboxId guard set = some (returned, t')) :
    t'.days = t.days := by
  unfold RampTables.updateRamp at h
  rw [Option.bind_eq_bind, Option.bind_eq_some_iff] at h
  obtain ⟨⟨row, ramps⟩, -, heq⟩ := h
  cases heq
  rfl

theorem disqualifyEpoch_days {bound : Int → Int} {credited : Bool} {id : Option Uuid}
    (h : t.disqualifyEpoch bound credited id = some t') : t'.days = t.days := by
  unfold RampTables.disqualifyEpoch at h
  split at h
  · unfold RampTables.updateEpoch at h
    split at h
    · cases h
      rfl
    · rw [Option.bind_eq_bind, Option.bind_eq_some_iff] at h
      obtain ⟨⟨row, epochs⟩, -, heq⟩ := h
      cases heq
      rfl
  · cases h
    rfl

theorem ensureRamp_days {e : RampEnv} {row : RampRow}
    (h : ensureRamp e t mailboxId = some (row, t')) : t'.days = t.days := by
  unfold ensureRamp at h
  simp only [Option.bind_eq_bind, Option.bind_eq_some_iff] at h
  obtain ⟨t'', hassess, heq⟩ := h
  cases heq
  unfold assessInactivity at hassess
  split at hassess
  · split at hassess
    · cases hassess
      rfl
    · split at hassess
      · cases hassess
        rfl
      · split at hassess
        · cases hassess
          rfl
        · simp only [Option.ite_none_right_eq_some, Option.bind_eq_bind,
            Option.bind_eq_some_iff] at hassess
          obtain ⟨-, epochs, -, heq⟩ := hassess
          cases heq
          rfl
  · cases hassess
    rfl

theorem signalTotal_congr (h : t'.days = t.days) : signalTotal t' = signalTotal t := by
  unfold signalTotal
  rw [h]

theorem revokeDayAdvancement_signals {bound : Int → Int} {failure : RampHealthFailure}
    {revoked : Bool}
    (h : revokeDayAdvancement bound t mailboxId businessDate failure = some (revoked, t')) :
    signalTotal t' = signalTotal t := by
  unfold revokeDayAdvancement at h
  rw [Option.bind_eq_bind, Option.bind_eq_some_iff] at h
  obtain ⟨⟨returned, middle⟩, hday, hrest⟩ := h
  have hmiddle : signalTotal middle = signalTotal t := by
    have := signalTotal_updateDay (n := 0) hday (fun _ => rfl) fun _ => (Int.add_zero _).symm
    omega
  dsimp only at hrest
  split at hrest
  · cases hrest
    exact hmiddle
  · simp only [Option.bind_eq_bind, Option.bind_eq_some_iff] at hrest
    obtain ⟨epochs, hepoch, ⟨ramp, last⟩, hramp, heq⟩ := hrest
    cases heq
    rw [signalTotal_congr (updateRamp_days hramp), signalTotal_congr (disqualifyEpoch_days hepoch),
      hmiddle]

/-- A bounce is counted once, against a day that is there. -/
theorem recordBounceAgainstDay_signals {bound : Int → Int} {e : RampEnv}
    {outcome : Option BounceAgainstDay}
    (h : recordBounceAgainstDay bound e t mailboxId businessDate = some (outcome, t')) :
    signalTotal t' = signalTotal t ∨ signalTotal t' = signalTotal t + 1 := by
  unfold recordBounceAgainstDay at h
  simp only [Option.bind_eq_bind, Option.bind_eq_some_iff] at h
  obtain ⟨⟨row, ensured⟩, hensure, ⟨returned, counted⟩, hday, hrest⟩ := h
  have hcounted : signalTotal counted = signalTotal t ∨ signalTotal counted = signalTotal t + 1 := by
    rw [← signalTotal_congr (ensureRamp_days hensure)]
    apply signalTotal_updateDay hday fun _ => rfl
    intro day
    show day.bounces + 1 + day.optOuts = day.bounces + day.optOuts + 1
    omega
  split at hrest
  · cases hrest
    exact hcounted
  · split at hrest
    · cases hrest
      exact hcounted
    · split at hrest
      · cases hrest
        exact hcounted
      · simp only [Option.bind_eq_some_iff] at hrest
        obtain ⟨⟨revoked, last⟩, hrevoke, heq⟩ := hrest
        cases heq
        rw [revokeDayAdvancement_signals hrevoke]
        exact hcounted

theorem recordDaySignal_signals {bound : Int → Int}
    (h : recordDaySignal bound t mailboxId businessDate .optOut = some t') :
    signalTotal t' = signalTotal t ∨ signalTotal t' = signalTotal t + 1 := by
  unfold recordDaySignal at h
  split at h
  · cases h
    exact .inl rfl
  · simp only [Option.bind_eq_bind, Option.bind_eq_some_iff] at h
    obtain ⟨⟨returned, counted⟩, hday, epochs, hepoch, ⟨ramp, last⟩, hramp, heq⟩ := h
    cases heq
    rw [signalTotal_congr (updateRamp_days hramp), signalTotal_congr (disqualifyEpoch_days hepoch)]
    apply signalTotal_updateDay hday fun _ => rfl
    intro day
    show day.bounces + (day.optOuts + 1) = day.bounces + day.optOuts + 1
    omega

end Signals

/-! ## Stages -/

section Stages

variable {r : Reply} {found candidates : List MatchCandidate} {candidate : MatchCandidate}
  {x x' : Session}

variable (candidates) in
/-- The hold of a candidate is recorded, and is opened unless it was. -/
theorem holdCandidate_spec {input : HoldInput} (hknown : input = replyHold ∨ input = routeHold)
    (hfound : candidate ∈ found) (h : holdCandidate input candidate x = some x') :
    Writes r found candidates x.store x'.store ∧ x'.counted = x.counted ∧ x'.store.ramp = x.store.ramp ∧
      effectRecorded .holdOpened (holdTarget input.reasonCode candidate) x'.store = true := by
  simp only [holdCandidate] at h
  split at h
  · next hrecorded =>
    cases h
    exact ⟨.refl _, rfl, rfl, hrecorded⟩
  · next hfresh =>
    obtain ⟨⟨inserted, store⟩, heffect, rfl⟩ := Option.map_eq_some_iff.1 h
    have hfree : effectRecorded (holdEffect input candidate x.store.holds.length).kind
        (holdEffect input candidate x.store.holds.length).targetKey (x.store.withHolds
          (x.store.holds ++ [candidateHold x.store.messageId input candidate])) = false :=
      Bool.eq_false_iff.2 hfresh
    obtain ⟨t, hinsert, rfl⟩ := recordEffect_fresh hfree heffect
    refine ⟨.hold input candidate hknown hfound hinsert, rfl, rfl, ?_⟩
    exact effectRecorded_iff.2 ⟨_, (Table.mem_insert? hinsert).2 (.inr rfl), rfl, rfl⟩

theorem stopColdEnrollments_spec {firmId : FirmId} {now : Micros} {s s' : Store}
    (h : stopColdEnrollments firmId now s = some s') :
    ∃ sequences, s' = { s with sequences := sequences } := by
  unfold stopColdEnrollments at h
  split at h
  · cases h
    exact ⟨s.sequences, rfl⟩
  · obtain ⟨⟨sequences, stopped⟩, -, rfl⟩ := Option.map_eq_some_iff.1 h
    exact ⟨sequences, rfl⟩

variable (r found candidates) in
theorem interrupt_writes (firmId : FirmId) (reason : JsString) (time : Instant) (s : Store) :
    Writes r found candidates s (interruptMeetingPlansForFirm firmId reason time s) ∧
      (interruptMeetingPlansForFirm firmId reason time s).ramp = s.ramp := by
  unfold interruptMeetingPlansForFirm
  split
  · exact ⟨.elsewhere rfl rfl rfl rfl rfl rfl, rfl⟩
  · exact ⟨.refl s, rfl⟩

variable (found candidates) in
/-- The store a reply's hold is opened in: plans, enrollments, meeting plans and fences aside. -/
theorem replyCandidate_spec {now : Micros} (h : replyCandidate r now x candidate = some x') :
    ∃ stopped, pendCandidate now candidate x.store = some stopped ∧
      Writes r found candidates x.store stopped ∧ stopped.ramp = x.store.ramp ∧
      holdCandidate replyHold candidate { x with
        store := interruptMeetingPlansForFirm candidate.firmId (js "reply_received")
          r.internalDate stopped } = some x' := by
  unfold replyCandidate at h
  split at h
  · cases h
  · next stopped hstopped =>
    refine ⟨stopped, hstopped, ?_⟩
    have hwrites : Writes r found candidates x.store stopped ∧ stopped.ramp = x.store.ramp := by
      unfold pendCandidate at hstopped
      split at hstopped
      · obtain ⟨sequences, rfl⟩ := stopColdEnrollments_spec hstopped
        exact ⟨.elsewhere rfl rfl rfl rfl rfl rfl, rfl⟩
      · cases hstopped
        exact ⟨.refl _, rfl⟩
    exact ⟨hwrites.1, hwrites.2, h⟩

variable (candidates) in
theorem replyCandidate_writes {now : Micros} (hfound : candidate ∈ found)
    (h : replyCandidate r now x candidate = some x') :
    Writes r found candidates x.store x'.store ∧ x'.store.ramp = x.store.ramp ∧
      effectRecorded .holdOpened (holdTarget .uncertainReply candidate) x'.store = true := by
  obtain ⟨stopped, -, hwrites, hramp, hhold⟩ := replyCandidate_spec found candidates h
  obtain ⟨hinterrupt, hinterruptRamp⟩ := interrupt_writes r found candidates
    candidate.firmId (js "reply_received") r.internalDate stopped
  obtain ⟨hheld, -, hheldRamp, hrecorded⟩ := holdCandidate_spec candidates (r := r) (.inl rfl) hfound hhold
  exact ⟨(hwrites.trans hinterrupt).trans hheld,
    hheldRamp.trans (hinterruptRamp.trans hramp), hrecorded⟩

variable (candidates) in
theorem invalidateCandidate_spec {reads : RampReads}
    (h : invalidateCandidate r reads candidate x = some x') :
    (effectRecorded .routeInvalidated (routeTarget candidate) x.store = true ∧ x' = x) ∨
      Writes r found candidates x.store x'.store ∧ x'.counted = true ∧
        effectRecorded .routeInvalidated (routeTarget candidate) x'.store = true ∧
        (x.counted = true ∧ signalTotal x'.store.ramp = signalTotal x.store.ramp ∨
          x.counted = false ∧ (signalTotal x'.store.ramp = signalTotal x.store.ramp ∨
            signalTotal x'.store.ramp = signalTotal x.store.ramp + 1)) := by
  unfold invalidateCandidate at h
  split at h
  · next hrecorded =>
    cases h
    exact .inl ⟨hrecorded, rfl⟩
  · next hfresh =>
    right
    split at h
    · cases h
    · next counted hcounted =>
      obtain ⟨⟨inserted, store⟩, heffect, rfl⟩ := Option.map_eq_some_iff.1 h
      have hramp : ∃ ramp, counted = { x.store with ramp := ramp } ∧
          (x.counted = true ∧ signalTotal ramp = signalTotal x.store.ramp ∨
            x.counted = false ∧ (signalTotal ramp = signalTotal x.store.ramp ∨
              signalTotal ramp = signalTotal x.store.ramp + 1)) := by
        split at hcounted
        · next htrue =>
          cases hcounted
          exact ⟨x.store.ramp, rfl, .inl ⟨htrue, rfl⟩⟩
        · next hfalse =>
          unfold countBounce at hcounted
          obtain ⟨⟨outcome, ramp⟩, hrecord, rfl⟩ := Option.map_eq_some_iff.1 hcounted
          exact ⟨ramp, rfl, .inr ⟨Bool.eq_false_iff.2 hfalse, recordBounceAgainstDay_signals hrecord⟩⟩
      obtain ⟨ramp, rfl, hsignals⟩ := hramp
      obtain ⟨t, hinsert, rfl⟩ := recordEffect_fresh (Bool.eq_false_iff.2 hfresh) heffect
      have hmoved : ∀ routes : List EmailRoute, Writes r found candidates x.store
          { x.store with ramp := ramp, routes := routes } := fun routes =>
        .elsewhere rfl rfl rfl rfl rfl rfl
      refine ⟨(hmoved _).trans (.effect _ (.inl rfl) hinsert), rfl, ?_, hsignals⟩
      exact effectRecorded_iff.2 ⟨_, (Table.mem_insert? hinsert).2 (.inr rfl), rfl, rfl⟩

/-- What handling a bounce did: its writes, and what it counted. -/
structure BounceSteps (r : Reply) (found candidates : List MatchCandidate) (x x' : Session) : Prop where
  writes : Writes r found candidates x.store x'.store
  signals : signalTotal x'.store.ramp = signalTotal x.store.ramp ∨
    x.counted = false ∧ x'.counted = true ∧
      signalTotal x'.store.ramp = signalTotal x.store.ramp + 1
  stays : x.counted = true → x'.counted = true
  route : x'.counted = true → x.counted = true ∨
    ∃ effect ∈ x'.store.effects, effect.kind = .routeInvalidated

theorem BounceSteps.refl (x : Session) : BounceSteps r found candidates x x :=
  ⟨.refl _, .inl rfl, id, .inl⟩

theorem BounceSteps.trans {x'' : Session} (h : BounceSteps r found candidates x x')
    (h' : BounceSteps r found candidates x' x'') : BounceSteps r found candidates x x'' := by
  refine ⟨h.writes.trans h'.writes, ?_, fun hcounted => h'.stays (h.stays hcounted), ?_⟩
  · rcases h.signals with hsame | ⟨hfalse, htrue, hone⟩
    · rcases h'.signals with hsame' | ⟨hfalse', htrue', hone'⟩
      · exact .inl (hsame'.trans hsame)
      · refine .inr ⟨?_, htrue', by omega⟩
        cases hcounted : x.counted with
        | false => rfl
        | true =>
          rw [h.stays hcounted] at hfalse'
          cases hfalse'
    · rcases h'.signals with hsame' | ⟨hfalse', -, -⟩
      · exact .inr ⟨hfalse, h'.stays htrue, by omega⟩
      · rw [htrue] at hfalse'
        cases hfalse'
  · intro hcounted
    rcases h'.route hcounted with hmiddle | hroute
    · rcases h.route hmiddle with hfirst | ⟨effect, hmem, hkind⟩
      · exact .inl hfirst
      · exact .inr ⟨effect, h'.writes.frame.effects effect hmem, hkind⟩
    · exact .inr hroute

variable (candidates) in
theorem bounceCandidate_spec {reads : RampReads} (hfound : candidate ∈ found)
    (h : bounceCandidate r reads x candidate = some x') :
    BounceSteps r found candidates x x' ∧
      effectRecorded .routeInvalidated (routeTarget candidate) x'.store = true ∧
      effectRecorded .holdOpened (holdTarget .routeInvalid candidate) x'.store = true ∧
      (effectRecorded .routeInvalidated (routeTarget candidate) x.store = true →
        x'.counted = x.counted ∧ x'.store.ramp = x.store.ramp) := by
  unfold bounceCandidate at h
  obtain ⟨middle, hinvalidate, hhold⟩ := Option.bind_eq_some_iff.1 h
  obtain ⟨hwrites, hcounted, hramp, hheld⟩ := holdCandidate_spec candidates (r := r) (.inr rfl) hfound hhold
  have hsame : signalTotal x'.store.ramp = signalTotal middle.store.ramp := by rw [hramp]
  rcases invalidateCandidate_spec candidates hinvalidate with
    ⟨hrecorded, rfl⟩ | ⟨hfirst, htrue, hrecorded, hsignals⟩
  · refine ⟨⟨hwrites, .inl hsame, fun hx => hcounted.trans hx, fun hx => .inl (hcounted ▸ hx)⟩,
      hwrites.frame.recorded hrecorded, hheld, fun _ => ⟨hcounted, hramp⟩⟩
  · have hroute : effectRecorded .routeInvalidated (routeTarget candidate) x'.store = true :=
      hwrites.frame.recorded hrecorded
    have hcount : x'.counted = true := hcounted.trans htrue
    refine ⟨⟨hfirst.trans hwrites, ?_, fun _ => hcount, fun _ => .inr ?_⟩, hroute, hheld, ?_⟩
    · rcases hsignals with ⟨-, hsame'⟩ | ⟨hfalse, hsame' | hone⟩
      · exact .inl (hsame.trans hsame')
      · exact .inl (hsame.trans hsame')
      · exact .inr ⟨hfalse, hcount, hsame.trans hone⟩
    · obtain ⟨effect, hmem, hkind, -⟩ := effectRecorded_iff.1 hroute
      exact ⟨effect, hmem, hkind⟩
    · intro halready
      simp only [invalidateCandidate, halready, if_true] at hinvalidate
      cases hinvalidate
      exact ⟨hcounted, hramp⟩

/-- A bounce whose candidates all have their route effect counts nothing. -/
theorem bounce_recorded {reads : RampReads} {xs : List MatchCandidate}
    (hall : ∀ candidate ∈ xs,
      effectRecorded .routeInvalidated (routeTarget candidate) x.store = true)
    (h : xs.foldlM (bounceCandidate r reads) x = some x') :
    x'.store.ramp = x.store.ramp := by
  induction xs generalizing x with
  | nil =>
    obtain rfl := Option.some.inj h
    rfl
  | cons candidate rest ih =>
    rw [List.foldlM_cons, Option.bind_eq_bind, Option.bind_eq_some_iff] at h
    obtain ⟨middle, hfirst, hrest⟩ := h
    obtain ⟨hsteps, -, -, hsame⟩ := bounceCandidate_spec [] (List.mem_singleton_self candidate) hfirst
    have hmiddle := ih (fun other hother => hsteps.writes.frame.recorded
      (hall other (List.mem_cons_of_mem _ hother))) hrest
    exact hmiddle.trans (hsame (hall candidate List.mem_cons_self)).2

/-- A stop behind its effect. -/
theorem suppressOnce_spec {now : Instant} {input : Suppression.RecordSuppressionInput}
    {kind : MailEffectKind} {targetKey : JsString} {after : Store → Option Store}
    (hkeeps : ∀ s s', after s = some s' → s'.effects = s.effects)
    (h : suppressOnce r now input kind targetKey after x = some x') :
    (effectRecorded kind targetKey x.store = true ∧ x' = x) ∨
      effectRecorded kind targetKey x.store = false ∧
        ((suppress r now input x.store = some (none, x.store) ∧ x'.store = x.store) ∨
          ∃ eventId stopped counted t, suppress r now input x.store = some (some eventId, stopped) ∧
            after stopped = some counted ∧
            counted.effects.insert? (suppressionEffect kind targetKey eventId) = some t ∧
            x'.store = { counted with effects := t }) := by
  unfold suppressOnce at h
  split at h
  · next hrecorded =>
    cases h
    exact .inl ⟨hrecorded, rfl⟩
  · next hfresh =>
    refine .inr ⟨Bool.eq_false_iff.2 hfresh, ?_⟩
    split at h
    · cases h
    · next store hrefused =>
      cases h
      rcases suppress_spec hrefused with ⟨-, rfl⟩ | ⟨key, suppression, hsome, -⟩
      · exact .inl ⟨hrefused, rfl⟩
      · cases hsome
    · next eventId stopped hstop =>
      obtain ⟨counted, hafter, hmap⟩ := Option.bind_eq_some_iff.1 h
      obtain ⟨⟨inserted, store⟩, heffect, rfl⟩ := Option.map_eq_some_iff.1 hmap
      have hsame : counted.effects = x.store.effects := by
        rw [hkeeps _ _ hafter]
        rcases suppress_spec hstop with ⟨hnone, -⟩ | ⟨key, suppression, -, rfl, -⟩
        · cases hnone
        · rfl
      have hfree : effectRecorded (suppressionEffect kind targetKey eventId).kind
          (suppressionEffect kind targetKey eventId).targetKey counted = false := by
        unfold effectRecorded
        rw [hsame]
        exact Bool.eq_false_iff.2 hfresh
      obtain ⟨t, hinsert, rfl⟩ := recordEffect_fresh hfree heffect
      exact .inr ⟨eventId, stopped, counted, t, hstop, hafter, hinsert, rfl⟩

theorem countOptOut_spec {reads : RampReads} {s s' : Store} (h : countOptOut r reads s = some s') :
    ∃ ramp, s' = { s with ramp := ramp } ∧
      (signalTotal ramp = signalTotal s.ramp ∨ signalTotal ramp = signalTotal s.ramp + 1) := by
  unfold countOptOut at h
  obtain ⟨ramp, hrecord, rfl⟩ := Option.map_eq_some_iff.1 h
  exact ⟨ramp, rfl, recordDaySignal_signals hrecord⟩

variable (candidates) in
/-- The stop of the sender, and what it counts. -/
theorem suppressHandle_spec {now : Instant} {reads : RampReads} {address : JsString}
    (hfrom : r.headerFrom = some address)
    (h : suppressOnce r now (handleStop r address) .handleSuppressed (handleTarget address)
      (countOptOut r reads) x = some x') :
    Writes r found candidates x.store x'.store ∧
      (signalTotal x'.store.ramp = signalTotal x.store.ramp ∨
        effectRecorded .handleSuppressed (handleTarget address) x.store = false ∧
          effectRecorded .handleSuppressed (handleTarget address) x'.store = true ∧
          signalTotal x'.store.ramp = signalTotal x.store.ramp + 1) := by
  have hkeeps : ∀ s s', countOptOut r reads s = some s' → s'.effects = s.effects := by
    intro s s' hcount
    obtain ⟨ramp, rfl, -⟩ := countOptOut_spec hcount
    rfl
  rcases suppressOnce_spec hkeeps h with ⟨-, rfl⟩ | ⟨hfresh, ⟨-, heq⟩ |
    ⟨eventId, stopped, counted, t, hstop, hcount, hinsert, heq⟩⟩
  · exact ⟨.refl _, .inl rfl⟩
  · rw [heq]
    exact ⟨.refl _, .inl rfl⟩
  · obtain ⟨ramp, rfl, hsignals⟩ := countOptOut_spec hcount
    have hstoppedRamp : stopped.ramp = x.store.ramp := by
      rcases suppress_spec hstop with ⟨hnone, -⟩ | ⟨key, suppression, -, rfl, -⟩
      · cases hnone
      · rfl
    have hcounted : Writes r found candidates stopped { stopped with ramp := ramp } :=
      .elsewhere rfl rfl rfl rfl rfl rfl
    rw [heq]
    refine ⟨((Writes.handle address hfrom hstop).trans hcounted).trans
      (.handleEffect address eventId hfrom hinsert), ?_⟩
    show signalTotal ramp = _ ∨ _
    rw [← hstoppedRamp]
    refine hsignals.imp id fun hone => ⟨hfresh, ?_, hone⟩
    exact effectRecorded_iff.2 ⟨_, (Table.mem_insert? hinsert).2 (.inr rfl), rfl, rfl⟩

variable (r found) in
/-- The stop of the one firm. -/
theorem suppressFirm_spec {now : Instant} {only : MatchCandidate}
    (h : suppressOnce r now (firmStop r only.firmId) .firmSuppressed (firmTarget only.firmId)
      some x = some x') :
    Writes r found [only] x.store x'.store ∧ x'.store.ramp = x.store.ramp := by
  rcases suppressOnce_spec (fun s s' heq => by rw [Option.some.inj heq]) h with
    ⟨-, rfl⟩ | ⟨hfresh, ⟨-, heq⟩ | ⟨eventId, stopped, counted, t, hstop, hafter, hinsert, heq⟩⟩
  · exact ⟨.refl _, rfl⟩
  · rw [heq]
    exact ⟨.refl _, rfl⟩
  · obtain rfl := Option.some.inj hafter
    rw [heq]
    rcases suppress_spec hstop with ⟨hnone, -⟩ | ⟨key, suppression, -, rfl, hkey, -⟩
    · cases hnone
    · obtain ⟨-, hpermitted⟩ := firmStop_key hkey
      exact ⟨(Writes.firm only rfl hfresh hstop).trans
        (.firmEffect only eventId rfl hpermitted hinsert), rfl⟩

variable (found) in
theorem optOut_spec {now : Instant} {reads : RampReads} (h : optOut r now reads candidates x = some x') :
    Writes r found candidates x.store x'.store ∧
      (signalTotal x'.store.ramp = signalTotal x.store.ramp ∨
        ∃ address, r.headerFrom = some address ∧
          effectRecorded .handleSuppressed (handleTarget address) x.store = false ∧
          effectRecorded .handleSuppressed (handleTarget address) x'.store = true ∧
          signalTotal x'.store.ramp = signalTotal x.store.ramp + 1) := by
  unfold optOut at h
  obtain ⟨middle, hhandle, hfirm⟩ := Option.bind_eq_some_iff.1 h
  have hlast : Writes r found candidates middle.store x'.store ∧ x'.store.ramp = middle.store.ramp := by
    unfold suppressOnlyFirm at hfirm
    split at hfirm
    · exact suppressFirm_spec r found hfirm
    · cases hfirm
      exact ⟨.refl _, rfl⟩
  rw [hlast.2]
  unfold suppressSender at hhandle
  split at hhandle
  · cases hhandle
    exact ⟨hlast.1, .inl rfl⟩
  · next address hfrom =>
    obtain ⟨hwrites, hsignals⟩ := suppressHandle_spec candidates hfrom hhandle
    refine ⟨hwrites.trans hlast.1, hsignals.imp id fun ⟨hfresh, hrecorded, hone⟩ => ?_⟩
    exact ⟨address, hfrom, hfresh, hlast.1.frame.recorded hrecorded, hone⟩

end Stages

end FoundingSales.Mail.Effects
