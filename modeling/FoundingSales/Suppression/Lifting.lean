import FoundingSales.Suppression.EventLog

/-!
Carrying a lift onto merge copies. A firm is merged once, so an event has one copy at most
and the copies of copies form one chain; the lift runs down it until a copy that is lifted
already.

Proved here:
* `liftMergeCopies_spec`: the fuel is enough, no `INSERT` fails, the log stays sound, and
  what becomes lifted is what descends from the original;
* `Superseding`: what a supersession of either kind leaves.
-/

namespace FoundingSales.Suppression

open Tables Rules Crm Relation

variable {db db' mid : Database} {original lift copy row : SuppressionEvent}

/-! ## The one copy of an event -/

theorem copy_unique {copy' : SuppressionEvent}
    (hcopy : copy ∈ db.events) (hcopy' : copy' ∈ db.events) (his : IsCopy db.firms original copy)
    (his' : IsCopy db.firms original copy') : copy = copy' := by
  obtain ⟨firm, hfirm, survivor, hkey, hmerged, hsurvivor⟩ := his.merged
  obtain ⟨firm', hfirm', survivor', hkey', hmerged', hsurvivor'⟩ := his'.merged
  have hids : firm.id = firm'.id := by
    have htext := hkey.trans hkey'.symm
    cases hf : firm.id
    cases hg : firm'.id
    simp only [hf, hg] at htext
    subst htext
    rfl
  obtain rfl := Table.eq_of_key_eq hfirm hfirm' hids
  rw [hmerged] at hmerged'
  cases hmerged'
  refine Table.eq_of_key_eq hcopy hcopy' ?_
  rw [his.eventId, his'.eventId, hsurvivor, hsurvivor']

namespace Sound

/-- An ancestor of an event in the log is in the log. -/
theorem ancestor (h : Sound db) {id id' : JsString} (hdescends : Descends id id')
    (hrow : row ∈ db.events) (hid : row.eventId = id') :
    ∃ ancestor ∈ db.events, ancestor.eventId = id := by
  induction hdescends generalizing row with
  | refl => exact ⟨row, hrow, hid⟩
  | tail _ hlast ih =>
    obtain ⟨parent, hparent, hparentId, -⟩ := h.copied hrow (hid ▸ hlast)
    exact ih hparent hparentId

theorem mergeCopy_iff (h : Sound db) (horiginal : original ∈ db.events) :
    copy ∈ db.mergeCopies original.eventId ↔ copy ∈ db.events ∧
      IsCopy db.firms original copy ∧ db.superseded copy.eventId = false := by
  simp only [Database.mergeCopies, List.mem_filter, Bool.and_eq_true, Bool.or_eq_true,
    decide_eq_true_eq, Bool.not_eq_true']
  constructor
  · rintro ⟨hcopy, ⟨hscope, hid⟩, hfree⟩
    refine ⟨hcopy, ?_, hfree⟩
    have hof : CopyOf original.eventId copy.eventId := by
      rcases hid with hid | hid
      · exact hid ▸ .legacy
      · obtain ⟨firm, -, hkey⟩ := h.keys copy hcopy hscope
        rw [hid, ← hkey]
        exact .merge firm.id
    obtain ⟨original', hmem, hid', his⟩ := h.copied hcopy hof
    rwa [← Table.eq_of_key_eq hmem horiginal hid']
  · rintro ⟨hcopy, his, hfree⟩
    exact ⟨hcopy, ⟨his.scope, .inr his.eventId⟩, hfree⟩

/-- No copy is left to lift, or exactly one is. -/
theorem mergeCopies_cases (h : Sound db) (horiginal : original ∈ db.events) :
    db.mergeCopies original.eventId = [] ∨
      ∃ copy ∈ db.events, db.mergeCopies original.eventId = [copy] ∧
        IsCopy db.firms original copy ∧ db.superseded copy.eventId = false := by
  have hnodup : (db.mergeCopies original.eventId).Nodup :=
    (List.Nodup.of_map _ db.events.nodup).filter _
  cases hcopies : db.mergeCopies original.eventId with
  | nil => exact .inl rfl
  | cons copy rest =>
    have hall : ∀ other ∈ copy :: rest, other ∈ db.events ∧ IsCopy db.firms original other ∧
        db.superseded other.eventId = false := by
      intro other hother
      rw [← hcopies] at hother
      exact (h.mergeCopy_iff horiginal).1 hother
    obtain ⟨hcopy, his, hfree⟩ := hall copy (List.mem_cons_self ..)
    cases rest with
    | nil => exact .inr ⟨copy, hcopy, rfl, his, hfree⟩
    | cons other rest =>
      obtain ⟨hother, his', -⟩ := hall other (by simp)
      rw [hcopies, copy_unique hother hcopy his' his] at hnodup
      simp at hnodup

end Sound

theorem Carried.descends {hole : Option JsString} (hc : Carried db hole) (hs : Sound db)
    {id id' : JsString} (hdescends : Descends id id') (hrow : row ∈ db.events)
    (hid : row.eventId = id') (hlifted : db.superseded id = true)
    (hhole : ∀ h ∈ hole, h.length < id.length) : db.superseded id' = true := by
  induction hdescends generalizing row with
  | refl => exact hlifted
  | tail hfront hlast ih =>
    obtain ⟨parent, hparent, hparentId, -⟩ := hs.copied hrow (hid ▸ hlast)
    have hup := ih hparent hparentId
    subst hid hparentId
    refine hc parent hparent row hrow hlast ?_ hup
    intro heq
    have hlt := hhole _ heq
    have hle := Descends.length_le hfront
    omega

/-! ## The lift of a copy -/

theorem copiedLift_eventId (his : IsCopy db.firms original copy) :
    (copiedLift original.eventId lift copy).eventId
      = mergeCopyId lift.eventId copy.canonicalKey := by
  have hne : copy.eventId ≠ legacyMergeCopyId original.eventId := by
    rw [his.eventId]
    exact fun h => legacyMergeCopyId_ne h.symm
  simp only [copiedLift, copiedLiftId, if_neg hne]

theorem copiedLift_copyOf (his : IsCopy db.firms original copy) :
    CopyOf lift.eventId (copiedLift original.eventId lift copy).eventId := by
  obtain ⟨_, _, survivor, -, -, hkey⟩ := his.merged
  rw [copiedLift_eventId his, hkey]
  exact .merge survivor

/-- The lift of a copy is the copy of the lift. -/
theorem copiedLift_isCopy (hs : Sound db) (horiginal : original ∈ db.events)
    (hlift : lift ∈ db.events) (hlifts : lift.supersedesEventId = some original.eventId)
    (his : IsCopy db.firms original copy) :
    IsCopy db.firms lift (copiedLift original.eventId lift copy) := by
  obtain ⟨hscope, hkey, hchannel⟩ := hs.same lift hlift original horiginal hlifts
  obtain ⟨firm, hfirm, survivor, hfirmKey, hmerged, hsurvivor⟩ := his.merged
  refine ⟨⟨firm, hfirm, survivor, by rw [hfirmKey, hkey], hmerged, hsurvivor⟩,
    copiedLift_eventId his, by rw [← hscope, his.originalScope], his.scope, rfl, rfl, ?_, rfl, ?_⟩
  · rw [hlifts, Option.map_some]
    exact congrArg some his.eventId
  · exact his.channel.trans hchannel

theorem copiedLift_checks (hs : Sound db) (hlift : lift ∈ db.events)
    (hlifts : lift.supersedesEventId = some original.eventId) (his : IsCopy db.firms original copy) :
    suppressionChecks (copiedLift original.eventId lift copy) = true := by
  have hchecks := hs.checks lift hlift
  simp only [suppressionChecks, hlifts, Option.isSome_some, Option.isNone_some, Bool.and_eq_true,
    beq_true] at hchecks
  simp only [suppressionChecks, copiedLift, Option.isSome_some, Option.isNone_some,
    Bool.and_eq_true, beq_true]
  exact ⟨⟨hchecks.1.1, hchecks.1.2⟩, by rw [his.scope]; rfl⟩

/-- Whose lift a carried one is: the source, the actor and the instant are the lift's own. -/
structure CarriedFrom (lift row : SuppressionEvent) : Prop where
  descends : Descends lift.eventId row.eventId
  source : row.source = lift.source
  actor : row.actorUserId = lift.actorUserId
  recordedAt : row.recordedAt = lift.recordedAt
  supersedes : row.supersedesEventId.isSome = true

/-- What carrying `lift` down from `original` leaves. -/
structure CarriedDown (db db' : Database) (original lift : SuppressionEvent)
    (written : List SuppressionEvent) : Prop where
  rest : db' = { db with events := db'.events }
  rows : db'.events.rows = db.events.rows ++ written
  sound : Sound db'
  carried : Carried db' none
  lifts : ∀ row ∈ written, CarriedFrom lift row
  superseded : ∀ id, db'.superseded id = true ↔ db.superseded id = true ∨
    ∃ row ∈ db.events, row.eventId = id ∧ id ≠ original.eventId ∧ Descends original.eventId id

/-- The lift of the one copy left can be written. -/
private theorem copiedLift_inserts (hs : Sound db)
    (hlift : lift ∈ db.events) (hlifts : lift.supersedesEventId = some original.eventId)
    (hnew : ∀ r ∈ db.events, ¬ CopyOf lift.eventId r.eventId) (hcopy : copy ∈ db.events)
    (his : IsCopy db.firms original copy) (hfree : db.superseded copy.eventId = false) :
    ∃ db', db.insertEvent (copiedLift original.eventId lift copy) = .ok db' := by
  refine insertEvent_succeeds (fun r hr heq => ?_) (copiedLift_checks hs hlift hlifts his) ?_ ?_
  · exact hnew r hr (heq ▸ copiedLift_copyOf his)
  · rintro id ⟨⟩
    exact hfree
  · rintro id ⟨⟩
    exact ⟨copy, hcopy, rfl, rfl, rfl, rfl⟩

/-- One level down: after the lift of its copy, the original is done and the copy is not. -/
private theorem carried_insert (hs : Sound db) (hc : Carried db (some original.eventId))
    (horiginal : original ∈ db.events) (hcopy : copy ∈ db.events)
    (his : IsCopy db.firms original copy) (hi : Inserted db db' row)
    (hlifts : row.supersedesEventId = some copy.eventId)
    (hapart : ∀ r ∈ db.events, ¬ CopyOf row.eventId r.eventId)
    (hfrom : ∀ parent ∈ db.events, CopyOf parent.eventId row.eventId →
      db.superseded parent.eventId = false ∧ parent.eventId ≠ copy.eventId) :
    Carried db' (some copy.eventId) := by
  intro parent hparent child hchild hof hhole hup
  rw [hi.superseded] at hup ⊢
  rcases hi.mem.1 hparent with hparent | rfl
  · rcases hi.mem.1 hchild with hchild | rfl
    · rcases hup with hup | hup
      · by_cases heq : parent.eventId = original.eventId
        · obtain rfl := Table.eq_of_key_eq hparent horiginal heq
          obtain ⟨parent', hmem, hid, his'⟩ := hs.copied hchild hof
          obtain rfl := Table.eq_of_key_eq hmem hparent hid
          rw [copy_unique hchild hcopy his' his]
          exact .inr hlifts
        · exact .inl (hc parent hparent child hchild hof (fun h => heq (Option.some.inj h).symm) hup)
      · rw [hlifts] at hup
        exact absurd hup hhole
    · obtain ⟨hdown, hne⟩ := hfrom parent hparent hof
      rcases hup with hup | hup
      · rw [hdown] at hup
        cases hup
      · rw [hlifts] at hup
        exact absurd (Option.some.inj hup).symm hne
  · rcases hi.mem.1 hchild with hchild | rfl
    · exact absurd hof (hapart child hchild)
    · exact absurd hof.length_lt (Nat.lt_irrefl _)

theorem liftMergeCopies_spec (c : Context) {fuel : Nat} (hs : Sound db)
    (hc : Carried db (some original.eventId)) (horiginal : original ∈ db.events)
    (hlift : lift ∈ db.events) (hlifts : lift.supersedesEventId = some original.eventId)
    (hnew : ∀ r ∈ db.events, ¬ CopyOf lift.eventId r.eventId)
    (hdown : db.superseded lift.eventId = false)
    (hapart : ¬ Descends original.eventId lift.eventId)
    (hfuel : ∀ r ∈ db.events, Descends original.eventId r.eventId →
      r.eventId.length < original.eventId.length + fuel) :
    ∃ db' rows, liftMergeCopies c fuel original.eventId lift.eventId db
        = .ok (rows.map (journalRecordOf c), db') ∧ CarriedDown db db' original lift rows := by
  induction fuel generalizing db original lift with
  | zero => exact absurd (hfuel original horiginal .refl) (Nat.lt_irrefl _)
  | succ fuel ih =>
    rcases hs.mergeCopies_cases horiginal with hnone | ⟨copy, hcopy, hcopies, his, hfree⟩
    · have hall : ∀ child ∈ db.events, CopyOf original.eventId child.eventId →
          db.superseded child.eventId = true := by
        intro child hchild hof
        obtain ⟨original', hmem, hid, his⟩ := hs.copied hchild hof
        obtain rfl := Table.eq_of_key_eq hmem horiginal hid
        by_contra hfree
        have hin := (hs.mergeCopy_iff horiginal).2 ⟨hchild, his, eq_false_of_ne_true hfree⟩
        rw [hnone] at hin
        cases hin
      refine ⟨db, [], by simp only [liftMergeCopies, hnone]; rfl, rfl,
        (List.append_nil _).symm, hs, ?_, fun _ h => (nomatch h), fun id => ⟨.inl, ?_⟩⟩
      · intro parent hparent child hchild hof _ hup
        by_cases heq : parent.eventId = original.eventId
        · exact hall child hchild (heq ▸ hof)
        · exact hc parent hparent child hchild hof (fun h => heq (Option.some.inj h).symm) hup
      · rintro (hid | ⟨r, hr, rfl, hne, hdescends⟩)
        · exact hid
        · rcases hdescends.cases_head with heq | ⟨child, hof, hbelow⟩
          · exact absurd heq.symm hne
          · obtain ⟨child', hmem, rfl⟩ := hs.ancestor hbelow hr rfl
            refine hc.descends hs hbelow hr rfl (hall child' hmem hof) fun h hh => ?_
            cases hh
            exact hof.length_lt
    · obtain ⟨mid, hinsert⟩ :=
        copiedLift_inserts hs hlift hlifts hnew hcopy his hfree
      have hi := insertEvent_inserted hinsert
      have hof : CopyOf lift.eventId (copiedLift original.eventId lift copy).eventId :=
        copiedLift_copyOf his
      have hmid : Sound mid := by
        refine hs.insert hi (fun h => ?_) (fun _ => ⟨lift, hlift, ?_⟩)
          fun _ => hs.keys copy hcopy his.scope
        · exact hi.fresh hcopy (Option.some.inj h)
        · exact copiedLift_isCopy hs horiginal hlift hlifts his
      have hapart' : ∀ r ∈ db.events,
          ¬ CopyOf (copiedLift original.eventId lift copy).eventId r.eventId := by
        intro r hr hof'
        obtain ⟨parent, hparent, hid, -⟩ := hs.copied hr hof'
        exact hi.fresh hparent hid
      have hbelow : ¬ Descends copy.eventId (copiedLift original.eventId lift copy).eventId := by
        intro hdescends
        rcases hdescends.step_back hof with heq | hup
        · exact hi.fresh hcopy heq
        · exact hapart (ReflTransGen.head his.copyOf hup)
      have hcarried : Carried mid (some copy.eventId) := by
        refine carried_insert hs hc horiginal hcopy his hi rfl hapart' fun parent hparent hof' => ?_
        rw [hof'.original_unique hof]
        refine ⟨hdown, fun heq => ?_⟩
        exact hapart (heq ▸ ReflTransGen.single his.copyOf)
      have hmidDown : mid.superseded (copiedLift original.eventId lift copy).eventId = false := by
        by_contra hup
        rcases hi.superseded.1 (eq_true_of_ne_false hup) with hold | hself
        · obtain ⟨r, hr, hid⟩ := superseded_iff.1 hold
          obtain ⟨r', hr', heq, -⟩ := hs.original hr hid
          exact hi.fresh hr' heq
        · exact hi.fresh hcopy (Option.some.inj hself)
      obtain ⟨db', rows, hrec, hdone⟩ := ih hmid hcarried (hi.mem.2 (.inl hcopy))
        (hi.mem.2 (.inr rfl)) rfl
        (fun r hr hof' => by
          rcases hi.mem.1 hr with hr | rfl
          · exact hapart' r hr hof'
          · exact absurd hof'.length_lt (Nat.lt_irrefl _))
        hmidDown hbelow
        (fun r hr hdescends => by
          rcases hi.mem.1 hr with hr | rfl
          · have hlt := hfuel r hr (ReflTransGen.head his.copyOf hdescends)
            have hlonger := his.copyOf.length_lt
            omega
          · exact absurd hdescends hbelow)
      refine ⟨db', copiedLift original.eventId lift copy :: rows, ?_, ?_, ?_, hdone.sound,
        hdone.carried, ?_, ?_⟩
      · have hfind : db.events.find? lift.eventId = some lift := Table.find?_eq_some.2 ⟨hlift, rfl⟩
        have hid : copiedLiftId original.eventId lift.eventId copy
            = (copiedLift original.eventId lift copy).eventId := rfl
        simp only [liftMergeCopies, hcopies, List.foldlM_cons, List.foldlM_nil, hfind, hinsert, hid,
          bind, Except.bind, pure, Except.pure, hrec, List.map_cons]
        rfl
      · rw [hdone.rest, hi.rest]
      · rw [hdone.rows, hi.rows, List.append_assoc]
        rfl
      · intro r hr
        rcases List.mem_cons.1 hr with rfl | hr
        · exact ⟨.single hof, rfl, rfl, rfl, rfl⟩
        · obtain ⟨hdescends, hsource, hactor, hat, hsome⟩ := hdone.lifts r hr
          exact ⟨ReflTransGen.head hof hdescends, hsource, hactor, hat, hsome⟩
      · intro id
        rw [hdone.superseded, hi.superseded]
        constructor
        · rintro ((hid | hid) | ⟨r, hr, rfl, hne, hdescends⟩)
          · exact .inl hid
          · refine .inr ⟨copy, hcopy, Option.some.inj hid, ?_, ?_⟩
            · rw [← Option.some.inj hid]
              exact (Descends.ne_of_copy .refl his.copyOf).symm
            · rw [← Option.some.inj hid]
              exact .single his.copyOf
          · rcases hi.mem.1 hr with hr | rfl
            · refine .inr ⟨r, hr, rfl, ?_, ReflTransGen.head his.copyOf hdescends⟩
              exact (Descends.ne_of_copy hdescends his.copyOf).symm
            · exact absurd hdescends hbelow
        · rintro (hid | ⟨r, hr, rfl, hne, hdescends⟩)
          · exact .inl (.inl hid)
          · rcases hdescends.cases_head with heq | ⟨child, hof', hunder⟩
            · exact absurd heq.symm hne
            · obtain ⟨child', hmem, rfl⟩ := hs.ancestor hunder hr rfl
              obtain ⟨parent, hparent, hid, his'⟩ := hs.copied hmem hof'
              obtain rfl := Table.eq_of_key_eq hparent horiginal hid
              obtain rfl := copy_unique hmem hcopy his' his
              by_cases heq : r.eventId = child'.eventId
              · exact .inl (.inr (by rw [heq]; rfl))
              · exact .inr ⟨r, hi.mem.2 (.inl hr), rfl, heq, hunder⟩

/-! ## A supersession -/

/-- What a supersession of either kind leaves: its row, and the lifts of the copies. -/
structure Superseding (db db' : Database) (original row : SuppressionEvent)
    (written : List SuppressionEvent) : Prop where
  logged : original ∈ db.events
  standing : db.superseded original.eventId = false
  firms : db'.firms = db.firms
  finalizeJobs : db'.finalizeJobs = db.finalizeJobs
  rows : db'.events.rows = db.events.rows ++ row :: written
  sound : Sound db'
  carried : Carried db' none
  lifts : ∀ lift ∈ written, CarriedFrom row lift
  superseded : ∀ id, db'.superseded id = true ↔ db.superseded id = true ∨
    ∃ event ∈ db.events, event.eventId = id ∧ Descends original.eventId id

theorem Sound.of_eq (h : Sound db) (hevents : db'.events = db.events)
    (hfirms : db'.firms = db.firms) : Sound db' := by
  obtain ⟨hbackward, hsame, honce, hchecks, hcopies, hkeys⟩ := h
  rw [← hevents] at hbackward hsame honce hchecks hcopies hkeys
  rw [← hfirms] at hcopies hkeys
  exact ⟨hbackward, hsame, honce, hchecks, hcopies, hkeys⟩

theorem superseded_of_eq (hevents : db'.events = db.events) (id : JsString) :
    db'.superseded id = db.superseded id := by
  simp only [Database.superseded, hevents]

theorem Carried.of_eq {hole : Option JsString} (h : Carried db hole)
    (hevents : db'.events = db.events) : Carried db' hole := by
  intro original horiginal copy hcopy
  simp only [superseded_of_eq hevents]
  rw [hevents] at horiginal hcopy
  exact h original horiginal copy hcopy

theorem length_lt_liftFuel (hrow : row ∈ db.events) : row.eventId.length < db.liftFuel := by
  have hle : ∀ (lengths : List Nat) n, n ∈ lengths → n ≤ lengths.foldr max 0 := by
    intro lengths n hn
    induction lengths with
    | nil => cases hn
    | cons head tail ih =>
      simp only [List.foldr_cons]
      rcases List.mem_cons.1 hn with rfl | hn
      · omega
      · have := ih hn
        omega
  have := hle _ _ (List.mem_map_of_mem (f := fun row => row.eventId.length) hrow)
  unfold Database.liftFuel
  omega

theorem supersede_spec (c : Context) {source : SuppressionSource} {reason : SupersessionReason}
    {commandId : Option JsString} (hs : Sound db) (hc : Carried db none)
    (horiginal : original ∈ db.events)
    (hinsert : db.insertEvent (supersessionRow c original source reason commandId) = .ok mid) :
    ∃ db' written,
      liftMergeCopies c mid.liftFuel original.eventId
          (supersessionRow c original source reason commandId).eventId mid
        = .ok (written.map (journalRecordOf c), db') ∧
      db' = { mid with events := db'.events } ∧
      Superseding db db' original (supersessionRow c original source reason commandId) written := by
  have hi := insertEvent_inserted hinsert
  have hplain : isMergeCopyId (supersessionRow c original source reason commandId).eventId = false :=
    deterministicEventId_not_copy
  have hlifts : (supersessionRow c original source reason commandId).supersedesEventId
      = some original.eventId := rfl
  have hscope : (supersessionRow c original source reason commandId).scope = original.scope := rfl
  have hkey : (supersessionRow c original source reason commandId).canonicalKey
      = original.canonicalKey := rfl
  generalize supersessionRow c original source reason commandId = row at *
  have hself : row.supersedesEventId ≠ some row.eventId := by
    rw [hlifts]
    intro heq
    exact hi.fresh horiginal (Option.some.inj heq)
  have hmid : Sound mid := by
    refine hs.insert hi hself (fun h => ?_) fun h => ?_
    · rw [hplain] at h
      cases h
    · rw [hkey]
      exact hs.keys original horiginal (hscope ▸ h)
  have hnew : ∀ r ∈ mid.events, ¬ CopyOf row.eventId r.eventId := by
    intro r hr hof
    rcases hi.mem.1 hr with hr | rfl
    · obtain ⟨parent, hparent, hid, -⟩ := hs.copied hr hof
      exact hi.fresh hparent hid
    · exact absurd hof.length_lt (Nat.lt_irrefl _)
  have hcarried : Carried mid (some original.eventId) := by
    intro parent hparent child hchild hof hhole hup
    rw [hi.superseded] at hup ⊢
    rcases hi.mem.1 hparent with hparent | rfl
    · rcases hi.mem.1 hchild with hchild | rfl
      · rcases hup with hup | hup
        · exact .inl (hc parent hparent child hchild hof (by simp) hup)
        · rw [hlifts] at hup
          exact absurd hup hhole
      · rw [hof.isMergeCopyId] at hplain
        cases hplain
    · exact absurd hof (hnew child hchild)
  have hdown : mid.superseded row.eventId = false := by
    by_contra hup
    rcases hi.superseded.1 (eq_true_of_ne_false hup) with hold | hlast
    · obtain ⟨r, hr, hid⟩ := superseded_iff.1 hold
      obtain ⟨r', hr', heq, -⟩ := hs.original hr hid
      exact hi.fresh hr' heq
    · exact hself hlast
  have hapart : ¬ Descends original.eventId row.eventId := fun hdescends =>
    hi.fresh horiginal (hdescends.eq_of_not_copy hplain)
  obtain ⟨db', written, hrun, hdone⟩ := liftMergeCopies_spec c hmid hcarried
    (hi.mem.2 (.inl horiginal)) (hi.mem.2 (.inr rfl)) hlifts hnew hdown hapart
    fun r hr _ => Nat.lt_of_lt_of_le (length_lt_liftFuel hr) (Nat.le_add_left _ _)
  refine ⟨db', written, hrun, hdone.rest, horiginal, hi.unsuperseded _ hlifts, ?_, ?_, ?_,
    hdone.sound, hdone.carried, hdone.lifts, fun id => ?_⟩
  · rw [hdone.rest, hi.rest]
  · rw [hdone.rest, hi.rest]
  · rw [hdone.rows, hi.rows, List.append_assoc]
    rfl
  · rw [hdone.superseded, hi.superseded, hlifts]
    constructor
    · rintro ((hold | hid) | ⟨r, hr, rfl, -, hdescends⟩)
      · exact .inl hold
      · exact .inr ⟨original, horiginal, Option.some.inj hid, Option.some.inj hid ▸ .refl⟩
      · rcases hi.mem.1 hr with hr | rfl
        · exact .inr ⟨r, hr, rfl, hdescends⟩
        · exact absurd hdescends hapart
    · rintro (hold | ⟨r, hr, rfl, hdescends⟩)
      · exact .inl (.inl hold)
      · by_cases heq : r.eventId = original.eventId
        · exact .inl (.inr (by rw [heq]))
        · exact .inr ⟨r, hi.mem.2 (.inl hr), rfl, heq, hdescends⟩

/-- What a correction leaves: the guards held, the claim was free, and both are taken. -/
structure Corrected (c : Context) (commandId : Option JsString) (db db' : Database)
    (original : SuppressionEvent) (written : List SuppressionEvent) : Prop where
  user : ∃ userId, c.actor.userId = some userId ∧
    mayCorrectSuppression original userId c.now = none
  supported : isSupportedCanonicalizerVersion original.canonicalizerVersion = true
  unclaimed : db.finalizations.find? original.eventId = none
  finalizations : db'.finalizations = db.finalizations.upsert
    ⟨original.eventId, .corrected, c.now, c.actor.userId,
      some (supersessionRow c original .mistakenEntryCorrection .mistakenEntry commandId).eventId⟩
  superseding : Superseding db db' original
    (supersessionRow c original .mistakenEntryCorrection .mistakenEntry commandId) written

/-- The salesperson's correction is refused and changes nothing, or corrects. -/
theorem recordCorrection_spec {c : Context} {eventId : JsString} {commandId : Option JsString}
    {result : SuppressionResult CorrectionOutcome} (hs : Sound db) (hc : Carried db none)
    (h : recordCorrection c eventId commandId db = .ok (result, db')) :
    (∃ reason, result = .refused reason ∧ db' = db) ∨
    ∃ original written outcome, result = .accepted outcome ∧ original.eventId = eventId ∧
      outcome.journalRecords = (supersessionRow c original .mistakenEntryCorrection .mistakenEntry
        commandId :: written).map (journalRecordOf c) ∧
      Corrected c commandId db db' original written := by
  unfold recordCorrection at h
  split at h
  · cases h
    exact .inl ⟨_, rfl, rfl⟩
  · cases h
    exact .inl ⟨_, rfl, rfl⟩
  next userId original huser hfind =>
  obtain ⟨horiginal, rfl⟩ := Table.find?_eq_some.1 hfind
  split at h
  · cases h
    exact .inl ⟨_, rfl, rfl⟩
  next hsupported =>
  split at h
  · cases h
    exact .inl ⟨_, rfl, rfl⟩
  next hmay =>
  dsimp only at h
  split at h
  · cases h
    exact .inl ⟨_, rfl, rfl⟩
  cases hclaim : db.finalizations.find? original.eventId with
  | some existing =>
    simp only [claimAndCorrect, Database.claimFinalization, hclaim, bind, Except.bind, pure,
      Except.pure, Bool.not_false, if_true, underSupersessionSavepoint] at h
    cases h
    exact .inl ⟨_, rfl, rfl⟩
  | none =>
    simp only [claimAndCorrect, Database.claimFinalization, hclaim, hfind, Option.isSome_some,
      if_true, bind, Except.bind, pure, Except.pure, Bool.not_true, Bool.false_eq_true,
      if_false] at h
    generalize hclaimed : ({ db with finalizations := db.finalizations.upsert ⟨original.eventId,
      .corrected, c.now, c.actor.userId, some (supersessionRow c original .mistakenEntryCorrection
        .mistakenEntry commandId).eventId⟩ } : Database) = claimed at h
    have hevents : claimed.events = db.events := by rw [← hclaimed]
    have hfirms : claimed.firms = db.firms := by rw [← hclaimed]
    have hjobs : claimed.finalizeJobs = db.finalizeJobs := by rw [← hclaimed]
    have hfinalizations : claimed.finalizations = db.finalizations.upsert ⟨original.eventId,
        .corrected, c.now, c.actor.userId, some (supersessionRow c original
          .mistakenEntryCorrection .mistakenEntry commandId).eventId⟩ := by rw [← hclaimed]
    cases hinsert : claimed.insertEvent
        (supersessionRow c original .mistakenEntryCorrection .mistakenEntry commandId) with
    | error e =>
      simp only [hinsert] at h
      cases e with
      | uniqueViolation =>
        simp only [underSupersessionSavepoint] at h
        cases h
        exact .inl ⟨_, rfl, rfl⟩
      | integrityViolation =>
        simp only [underSupersessionSavepoint] at h
        cases h
    | ok mid =>
      have horiginal' : original ∈ claimed.events := by rwa [hevents]
      obtain ⟨lifted, written, hrun, hrest, hsuperseding⟩ := supersede_spec c
        (hs.of_eq hevents hfirms) (hc.of_eq hevents) horiginal' hinsert
      simp only [hinsert, underSupersessionSavepoint, hrun] at h
      cases h
      have hmid : mid.finalizations = claimed.finalizations := by
        rw [(insertEvent_inserted hinsert).rest]
      refine .inr ⟨original, written, _, rfl, rfl, rfl, ⟨userId, huser, hmay⟩,
        by simpa using hsupported, hclaim, ?_, ?_⟩
      · have hlast : lifted.finalizations = mid.finalizations := by rw [hrest]
        rw [← hfinalizations, ← hmid, ← hlast]
        rfl
      · have hsound := hsuperseding.sound
        exact { hsuperseding with
          logged := horiginal
          standing := by rw [← superseded_of_eq hevents]; exact hsuperseding.standing
          firms := hsuperseding.firms.trans hfirms
          finalizeJobs := hsuperseding.finalizeJobs.trans hjobs
          rows := hsuperseding.rows.trans (by rw [hevents])
          sound := hsound.of_eq rfl rfl
          carried := hsuperseding.carried.of_eq rfl
          superseded := fun id => by
            rw [← superseded_of_eq hevents, ← hevents]
            exact hsuperseding.superseded id }

/-- What the admin's supersession leaves. No claim is read or taken. -/
structure AdminSuperseded (c : Context) (reason : AdminSupersessionReason)
    (commandId : Option JsString) (db db' : Database) (original : SuppressionEvent)
    (written : List SuppressionEvent) : Prop where
  admin : c.actor.isAdmin = true
  supported : isSupportedCanonicalizerVersion original.canonicalizerVersion = true
  finalizations : db'.finalizations = db.finalizations
  superseding : Superseding db db' original
    (supersessionRow c original .adminSupersession reason.reason commandId) written

theorem recordAdminSupersession_spec {c : Context} {eventId : JsString}
    {reason : AdminSupersessionReason} {commandId : Option JsString}
    {result : SuppressionResult AdminSupersession} (hs : Sound db) (hc : Carried db none)
    (h : recordAdminSupersession c eventId reason commandId db = .ok (result, db')) :
    (∃ refusal, result = .refused refusal ∧ db' = db) ∨
    ∃ original written outcome, result = .accepted outcome ∧ original.eventId = eventId ∧
      outcome.journalRecords = (supersessionRow c original .adminSupersession reason.reason
        commandId :: written).map (journalRecordOf c) ∧
      AdminSuperseded c reason commandId db db' original written := by
  unfold recordAdminSupersession at h
  split at h
  · cases h
    exact .inl ⟨_, rfl, rfl⟩
  next hadmin =>
  split at h
  · cases h
    exact .inl ⟨_, rfl, rfl⟩
  next original hfind =>
  obtain ⟨horiginal, rfl⟩ := Table.find?_eq_some.1 hfind
  split at h
  · cases h
    exact .inl ⟨_, rfl, rfl⟩
  next hsupported =>
  dsimp only at h
  split at h
  · cases h
    exact .inl ⟨_, rfl, rfl⟩
  cases hinsert : db.insertEvent
      (supersessionRow c original .adminSupersession reason.reason commandId) with
  | error e =>
    simp only [hinsert, Except.map] at h
    cases e with
    | uniqueViolation =>
      simp only [underSupersessionSavepoint] at h
      cases h
      exact .inl ⟨_, rfl, rfl⟩
    | integrityViolation =>
      simp only [underSupersessionSavepoint] at h
      cases h
  | ok mid =>
    obtain ⟨lifted, written, hrun, hrest, hsuperseding⟩ :=
      supersede_spec c hs hc horiginal hinsert
    simp only [hinsert, Except.map, underSupersessionSavepoint, bind, Except.bind, pure,
      Except.pure, hrun] at h
    cases h
    have hmid : mid.finalizations = db.finalizations := by
      rw [(insertEvent_inserted hinsert).rest]
    refine .inr ⟨original, written, _, rfl, rfl, rfl, by simpa using hadmin,
      by simpa using hsupported, ?_, ?_⟩
    · have hlast : lifted.finalizations = mid.finalizations := by rw [hrest]
      rw [← hmid, ← hlast]
      rfl
    · exact { hsuperseding with
        sound := hsuperseding.sound.of_eq rfl rfl
        carried := hsuperseding.carried.of_eq rfl }

/-! ## When a supersession is accepted -/

theorem Superseding.fresh {written : List SuppressionEvent}
    (h : Superseding db db' original row written) {event : SuppressionEvent}
    (hevent : event ∈ db.events) : event.eventId ≠ row.eventId := by
  intro heq
  have hnodup := db'.events.nodup
  rw [h.rows, List.map_append, List.map_cons, List.nodup_append] at hnodup
  exact hnodup.2.2 _ (List.mem_map_of_mem hevent) _ (List.mem_cons_self ..) heq

theorem supersessionRow_inserts (c : Context) (source : SuppressionSource)
    (reason : SupersessionReason) (commandId : Option JsString) (hs : Sound db)
    (horiginal : original ∈ db.events) (hsource : source.supersession = true)
    (hfree : db.superseded original.eventId = false)
    (hfresh : ∀ event ∈ db.events,
      event.eventId ≠ (supersessionRow c original source reason commandId).eventId) :
    ∃ mid, db.insertEvent (supersessionRow c original source reason commandId) = .ok mid := by
  refine insertEvent_succeeds hfresh ?_ ?_ ?_
  · have hchecks := hs.checks original horiginal
    simp only [suppressionChecks, Bool.and_eq_true] at hchecks
    simp only [suppressionChecks, supersessionRow, hsource, Bool.and_eq_true]
    exact ⟨⟨rfl, rfl⟩, hchecks.2⟩
  · rintro id ⟨⟩
    exact hfree
  · rintro id ⟨⟩
    exact ⟨original, horiginal, rfl, rfl, rfl, rfl⟩

theorem recordAdminSupersession_accepts {c : Context} {reason : AdminSupersessionReason}
    {commandId : Option JsString} (hs : Sound db) (hc : Carried db none)
    (horiginal : original ∈ db.events) (hadmin : c.actor.isAdmin = true)
    (hsupported : isSupportedCanonicalizerVersion original.canonicalizerVersion = true)
    (hfree : db.superseded original.eventId = false)
    (hfresh : ∀ event ∈ db.events, event.eventId
      ≠ (supersessionRow c original .adminSupersession reason.reason commandId).eventId) :
    ∃ outcome db', recordAdminSupersession c original.eventId reason commandId db
      = .ok (.accepted outcome, db') := by
  have hfind : db.events.find? original.eventId = some original :=
    Table.find?_eq_some.2 ⟨horiginal, rfl⟩
  obtain ⟨mid, hinsert⟩ := supersessionRow_inserts c .adminSupersession reason.reason commandId hs
    horiginal rfl hfree hfresh
  obtain ⟨lifted, written, hrun, -⟩ := supersede_spec c hs hc horiginal hinsert
  unfold recordAdminSupersession
  simp only [hadmin, hfind, hsupported, hfree, hinsert, Bool.not_true, Bool.false_eq_true, if_false,
    Except.map, underSupersessionSavepoint, bind, Except.bind, hrun, pure, Except.pure]
  exact ⟨_, _, rfl⟩

theorem recordCorrection_accepts {c : Context} {commandId : Option JsString} (hs : Sound db)
    (hc : Carried db none) (horiginal : original ∈ db.events)
    (huser : ∃ userId, c.actor.userId = some userId ∧
      mayCorrectSuppression original userId c.now = none)
    (hsupported : isSupportedCanonicalizerVersion original.canonicalizerVersion = true)
    (hfree : db.superseded original.eventId = false)
    (hclaim : db.finalizations.find? original.eventId = none)
    (hfresh : ∀ event ∈ db.events, event.eventId
      ≠ (supersessionRow c original .mistakenEntryCorrection .mistakenEntry commandId).eventId) :
    ∃ outcome db', recordCorrection c original.eventId commandId db
      = .ok (.accepted outcome, db') := by
  obtain ⟨userId, huserId, hmay⟩ := huser
  have hfind : db.events.find? original.eventId = some original :=
    Table.find?_eq_some.2 ⟨horiginal, rfl⟩
  let claim : Finalization := ⟨original.eventId, .corrected, c.now, some userId,
    some (supersessionRow c original .mistakenEntryCorrection .mistakenEntry commandId).eventId⟩
  let claimed : Database := { db with finalizations := db.finalizations.upsert claim }
  have hclaimed : Sound claimed := hs.of_eq rfl rfl
  have hcarried : Carried claimed none := hc.of_eq rfl
  obtain ⟨mid, hinsert⟩ := supersessionRow_inserts c .mistakenEntryCorrection .mistakenEntry
    commandId hclaimed horiginal rfl hfree hfresh
  obtain ⟨lifted, written, hrun, -⟩ := supersede_spec c hclaimed hcarried horiginal hinsert
  unfold recordCorrection
  simp only [huserId, hfind, hsupported, hmay, hfree, Bool.not_true, Bool.false_eq_true, if_false,
    claimAndCorrect, Database.claimFinalization, hclaim, Option.isSome_some, if_true, bind,
    Except.bind, pure, Except.pure]
  simp only [claimed, claim] at hinsert
  simp only [hinsert, underSupersessionSavepoint, hrun]
  exact ⟨_, _, rfl⟩

end FoundingSales.Suppression
