import FoundingSales.Sequences.PlanChanges

/-!
A published plan is frozen. The commands on one sequence all lock its row before they
write, so in every interleaving their transactions commit one after the other, each a
change of the sequence as the one before it left it.

Proved here:
* `program_keeps`: what each command commits is such a change, and a refusal changes nothing;
* `published_plan_frozen`: what holds of every reachable state, and of every two.
-/

namespace FoundingSales.Sequences

open Locking Runs

variable {sequenceId id : Uuid} {v : SequenceVersion}

/-! ## What the commands commit -/

section Rules

variable {α : Type} {Q : Phase Plan → List TemplateRead → α → Prop}
  {notes : List TemplateRead} {base now : Plan} {steps : List DraftStepInput}

/-- A program keeps `Q` of one sequence, whose row it locks first. -/
abbrev KeepsPlan (sequenceId : Uuid) (Q : Phase Plan → List TemplateRead → α → Prop)
    (prog : DefinitionTx α) : Phase Plan → List TemplateRead → Prop :=
  Tx.Keeps (.sequence sequenceId) (Kept sequenceId) Q prog

theorem keeps_readSequenceVersion {f : Option SequenceVersionRow → DefinitionTx α}
    (h : KeepsPlan sequenceId Q (f (now.readVersion id)) (.held base now) notes) :
    KeepsPlan sequenceId Q (readSequenceVersion id >>= f) (.held base now) notes := by
  rw [readSequenceVersion, bind_assoc]
  apply Tx.keeps_select_held
  intro e
  rw [Plan.readVersion] at h
  cases hversion : now.version? id with
  | none =>
    rw [hversion] at h
    exact h
  | some row =>
    rw [hversion] at h
    exact fun e => h

theorem keeps_insertSteps {f : Unit → DefinitionTx α}
    (h : ∀ rows, Written id steps rows →
      KeepsPlan sequenceId Q (f ()) (.held base { now with steps := now.steps ++ rows }) notes) :
    KeepsPlan sequenceId Q (insertSteps id steps >>= f) (.held base now) notes := by
  induction steps generalizing now with
  | nil =>
    have hnil := h [] ⟨rfl, List.forall_mem_nil _, List.forall_mem_nil _⟩
    rw [List.append_nil] at hnil
    exact hnil
  | cons step steps ih =>
    rw [insertSteps, bind_assoc]
    apply Tx.keeps_change
    intro e b patch hact
    unfold insertStep at hact
    split at hact
    · cases hact
    · split at hact
      · cases hact
      · next hchecks =>
        split at hact
        · cases hact
        · split at hact
          · cases hact
          · obtain ⟨-, rfl⟩ := Prod.mk.inj (Except.ok.inj hact)
            apply ih
            intro rows hrows
            rw [List.append_assoc]
            apply h
            refine ⟨?_, ?_, ?_⟩
            · rw [List.singleton_append, List.map_cons, hrows.steps]
              rfl
            · intro row hrow
              rcases List.mem_cons.1 hrow with rfl | hmem
              · rfl
              · exact hrows.owner row hmem
            · intro row hrow
              rcases List.mem_cons.1 hrow with rfl | hmem
              · simpa using hchecks
              · exact hrows.checks row hmem

theorem keeps_replaceDraftSteps {f : SequenceResult Nat → DefinitionTx α}
    (hrefused : ∀ shape, validateSteps steps = some shape →
      KeepsPlan sequenceId Q (f (refuseSequence shape)) (.held base now) notes)
    (h : ∀ sorted rows, Written id sorted rows →
      KeepsPlan sequenceId Q (f (.ok steps.length)) (.held base (now.withSteps id rows)) notes) :
    KeepsPlan sequenceId Q (replaceDraftSteps id steps >>= f) (.held base now) notes := by
  unfold replaceDraftSteps
  cases hshape : validateSteps steps with
  | some shape => exact hrefused shape hshape
  | none =>
    simp only [bind_assoc]
    apply Tx.keeps_change
    intro e b patch hact
    unfold deleteSteps at hact
    split at hact
    · cases hact
    · obtain ⟨-, rfl⟩ := Prod.mk.inj (Except.ok.inj hact)
      apply keeps_insertSteps
      intro rows hrows
      exact h _ rows hrows

/-- A new draft, if there is none. -/
theorem keeps_writeDraft {clock : Micros} {version : Nat}
    {f : SequenceResult CreatedDraft → DefinitionTx α}
    (hrefused : ∀ shape, KeepsPlan sequenceId Q (f (refuseSequence shape)) (.held base now) notes)
    (h : ∀ row sorted rows, row.state = .draft → (∀ v ∈ now.versions, v.id ≠ row.id) →
      (∀ v ∈ now.versions, v.version ≠ row.version) → Written row.id sorted rows →
      KeepsPlan sequenceId Q (f (.ok ⟨row.id, version⟩))
        (.held base ((now.withVersion row).withSteps row.id rows)) notes) :
    KeepsPlan sequenceId Q (writeDraft clock version steps >>= f) (.held base now) notes := by
  unfold writeDraft
  cases hshape : validateSteps steps with
  | some shape => exact hrefused shape
  | none =>
    simp only [bind_assoc]
    apply Tx.keeps_change
    intro e b patch hact
    simp only [insertVersion] at hact
    split at hact
    · cases hact
    · split at hact
      · cases hact
      · next hunique =>
        obtain ⟨rfl, rfl⟩ := Prod.mk.inj (Except.ok.inj hact)
        have hnew : ∀ v ∈ now.versions, v.id ≠ e.newId ∧ v.version ≠ version := by
          intro v hv
          have hnot : ¬ (v.id = e.newId ∨ v.version = version ∨ v.state = .draft) := by
            intro hclash
            apply hunique
            exact List.any_eq_true.2 ⟨v, hv, by simpa [or_assoc] using hclash⟩
          exact ⟨fun hid => hnot (.inl hid), fun hnumber => hnot (.inr (.inl hnumber))⟩
        apply keeps_replaceDraftSteps
        · intro shape hshape'
          rw [hshape] at hshape'
          cases hshape'
        · intro sorted rows hrows
          exact h ⟨e.newId, version, .draft, none, none, clock, clock⟩ sorted rows rfl
            (fun v hv => (hnew v hv).1) (fun v hv => (hnew v hv).2) hrows

/-- A draft already there is answered or refused, and else one is written. -/
theorem keeps_createLocked {clock : Micros} {input : Option (List DraftStepInput)}
    {f : SequenceResult CreatedDraft → DefinitionTx α}
    (hsame : ∀ result, KeepsPlan sequenceId Q (f result) (.held base now) notes)
    (h : ∀ row sorted rows, now.draft? = none → row.state = .draft →
      (∀ v ∈ now.versions, v.id ≠ row.id) → (∀ v ∈ now.versions, v.version ≠ row.version) →
      Written row.id sorted rows → ∀ version, KeepsPlan sequenceId Q (f (.ok ⟨row.id, version⟩))
        (.held base ((now.withVersion row).withSteps row.id rows)) notes) :
    KeepsPlan sequenceId Q (createLocked clock input >>= f) (.held base now) notes := by
  have hwrite : ∀ {version : Nat} {steps : List DraftStepInput}, now.draft? = none →
      KeepsPlan sequenceId Q (writeDraft clock version steps >>= f) (.held base now) notes := by
    intro version steps hnone
    apply keeps_writeDraft (fun shape => hsame _)
    exact fun row sorted rows hdraft hid hnumber hrows =>
      h row sorted rows hnone hdraft hid hnumber hrows version
  rw [createLocked, bind_assoc]
  apply Tx.keeps_select_held
  intro e
  cases hdraft : now.draft? with
  | some draft =>
    by_cases hsteps : input.isSome
    · simp only [hsteps, if_true]
      exact hsame _
    · simp only [hsteps, Bool.false_eq_true, if_false]
      exact hsame _
  | none =>
    simp only [bind_assoc]
    apply Tx.keeps_select_held
    intro e
    cases input with
    | some steps => exact hwrite hdraft
    | none =>
      cases hcopy : now.newestPublished with
      | none => exact hwrite hdraft
      | some copyFrom =>
        simp only [bind_assoc]
        exact Tx.keeps_select_held fun e => hwrite hdraft

/-- After `lockVersion` the sequence is the command's own. -/
theorem keeps_lockVersion {f : Option (Uuid × SequenceVersion) → DefinitionTx α}
    (hnone : KeepsPlan sequenceId Q (f none) .free notes)
    (h : ∀ plan, Kept sequenceId plan → KeepsPlan sequenceId Q
      (f ((plan.version? id).map fun row => (sequenceId, row))) (.held plan plan) notes) :
    KeepsPlan sequenceId Q (lockVersion id >>= f) .free notes := by
  rw [lockVersion, bind_assoc]
  apply Tx.keeps_select_free
  intro e plan hplan
  cases hversion : plan.version? id with
  | none => exact hnone
  | some row =>
    simp only [Option.map_some, bind_assoc, hplan.own]
    apply Tx.keeps_lock_main
    intro e locked hlocked
    apply Tx.keeps_lock_held
    intro e
    rw [hlocked.own]
    exact h locked hlocked

/-- Every template the steps name was read, approved and not retired, or the steps are refused. -/
theorem keeps_refuseUnpublishableTemplates {rows : List SequenceStepRow}
    {f : Option SequenceRefusalCode → DefinitionTx α}
    (hrefused : ∀ refusal notes, KeepsPlan sequenceId Q (f (some refusal)) (.held base now) notes)
    (h : ∀ reads, (∀ step ∈ rows, ∀ templateVersionId,
        step.templateVersionId = some templateVersionId → ReadApproved reads templateVersionId) →
      KeepsPlan sequenceId Q (f none) (.held base now) (notes ++ reads)) :
    KeepsPlan sequenceId Q (refuseUnpublishableTemplates rows >>= f) (.held base now) notes := by
  induction rows generalizing notes with
  | nil =>
    have hnil := h [] (List.forall_mem_nil _)
    rw [List.append_nil] at hnil
    exact hnil
  | cons step rows ih =>
    unfold refuseUnpublishableTemplates
    cases htemplate : step.templateVersionId with
    | none =>
      apply ih
      intro reads hreads
      apply h
      intro x hx templateVersionId hx'
      rcases List.mem_cons.1 hx with rfl | hmem
      · rw [htemplate] at hx'
        cases hx'
      · exact hreads x hmem templateVersionId hx'
    | some templateVersionId =>
      simp only [bind_assoc]
      apply Tx.keeps_select_held
      intro e
      show KeepsPlan sequenceId Q _ (.held base now) (notes ++ [_])
      cases hrefusal : templateRefusal (e.templates templateVersionId) with
      | some refusal => exact hrefused refusal _
      | none =>
        apply ih
        intro reads hreads
        rw [List.append_assoc]
        apply h
        have hread : ReadApproved
            ([⟨templateVersionId, e.templates templateVersionId⟩] ++ reads) templateVersionId := by
          cases hfound : e.templates templateVersionId with
          | none =>
            rw [hfound] at hrefusal
            cases hrefusal
          | some template =>
            rw [hfound] at hrefusal
            simp only [templateRefusal] at hrefusal
            split at hrefusal
            · cases hrefusal
            · next hretired =>
              split at hrefusal
              · cases hrefusal
              · next happroved =>
                refine ⟨template, List.mem_append_left _ (List.mem_singleton_self _), ?_, ?_⟩
                · exact Option.isSome_iff_ne_none.2 (by simpa using happroved)
                · simpa using hretired
        intro x hx other hx'
        rcases List.mem_cons.1 hx with rfl | hmem
        · rw [htemplate] at hx'
          cases hx'
          exact hread
        · obtain ⟨template, hnoted, happroved⟩ := hreads x hmem other hx'
          exact ⟨template, List.mem_append_right _ hnoted, happroved⟩

/-- An update of versions that the table accepts. -/
theorem keeps_modifyVersions {which : SequenceVersion → Bool}
    {set : SequenceVersion → SequenceVersion} {f : Unit → DefinitionTx α}
    (h : KeepsPlan sequenceId Q (f ()) (.held base (now.setVersions which set)) notes) :
    KeepsPlan sequenceId Q (modifyVersions which set >>= f) (.held base now) notes := by
  apply Tx.keeps_change
  intro e b patch hact
  simp only [updateVersions] at hact
  split at hact
  · cases hact
  · split at hact
    · cases hact
    · obtain ⟨-, rfl⟩ := Prod.mk.inj (Except.ok.inj hact)
      exact h

theorem keeps_answerVersion {f : SequenceResult SequenceVersionRow → DefinitionTx α}
    (hversion : now.version? id = some v)
    (h : ∀ version, KeepsPlan sequenceId Q (f (.ok version)) (.held base now) notes) :
    KeepsPlan sequenceId Q (answerVersion id >>= f) (.held base now) notes := by
  rw [answerVersion, bind_assoc]
  apply keeps_readSequenceVersion
  rw [Plan.readVersion, hversion]
  exact h _

end Rules

/-! ## Every command -/

abbrev DefinitionEntry := Entry Plan TemplateRead Command Answer

/-- A committed transaction is a change of the sequence, and none if it was refused. -/
structure Settles (sequenceId : Uuid) (entry : DefinitionEntry) : Prop where
  kept : Kept sequenceId entry.before
  change : Change entry.command.request entry.notes entry.before entry.after
  refused : entry.answer.refused = true → entry.after = entry.before

abbrev Owes (sequenceId : Uuid) (command : Command) :
    Phase Plan → List TemplateRead → Answer → Prop :=
  Commits (Kept sequenceId) (Settles sequenceId) command

section Owes

variable {command : Command} {notes : List TemplateRead} {answer : Answer} {base now : Plan}

theorem owes_free : Owes sequenceId command .free notes answer :=
  fun _ hs => ⟨hs, .same, fun _ => rfl⟩

theorem owes_same (hbase : Kept sequenceId base) :
    Owes sequenceId command (.held base base) notes answer :=
  ⟨hbase, hbase, .same, fun _ => rfl⟩

theorem owes_change (hbase : Kept sequenceId base)
    (hchange : Change command.request notes base now) (haccepted : answer.refused = false) :
    Owes sequenceId command (.held base now) notes answer := by
  refine ⟨hchange.kept hbase, hbase, hchange, fun hrefused => ?_⟩
  rw [haccepted] at hrefused
  cases hrefused

end Owes

theorem createDraftVersion_keeps {command : Command} {named : Uuid}
    {steps : Option (List DraftStepInput)}
    (hrequest : command.request = .createDraftVersion named steps) :
    KeepsPlan sequenceId (Owes sequenceId command)
      (Answer.draft <$> createDraftVersion command.now command.actor named steps) .free [] := by
  rw [map_eq_pure_bind]
  unfold createDraftVersion
  split
  · exact owes_free
  · rw [bind_assoc]
    -- a sequence this one is not locks a row of its own and is refused
    intro e plan hplan
    have hheld : ∀ input, KeepsPlan sequenceId (Owes sequenceId command)
        (createLocked command.now input >>= fun result => pure (.draft result))
        (.held plan plan) [] := by
      intro input
      apply keeps_createLocked
      · exact fun result => owes_same hplan
      · intro row sorted rows hnone hdraft hid hnumber hrows version
        apply owes_change hplan _ rfl
        rw [hrequest]
        exact .drafted row sorted rows trivial hdraft hnone hid hnumber hrows
    by_cases hnamed : plan.sequenceId = named
    · simp only [hnamed, decide_true]
      refine ⟨fun _ => hheld steps, fun hne => ?_⟩
      exact absurd (congrArg Lock.sequence (hnamed.symm.trans hplan.own)) hne
    · simp only [hnamed, decide_false]
      exact ⟨fun _ => owes_same hplan, fun _ => owes_free⟩

theorem saveLocked_keeps {command : Command} {steps : List DraftStepInput}
    (hrequest : command.request = .saveSteps id steps) :
    KeepsPlan sequenceId
      (fun phase notes result => Owes sequenceId command phase notes (.saved result))
      (saveLocked command.now command.actor id steps) .free [] := by
  unfold saveLocked
  apply keeps_lockVersion
  · exact owes_free
  · intro plan hplan
    cases hversion : plan.version? id with
    | none => exact owes_same hplan
    | some version =>
      simp only [Option.map_some]
      cases hstate : version.state with
      | retired => exact owes_same hplan
      | draft =>
        apply keeps_replaceDraftSteps
        · exact fun shape _ => owes_same hplan
        · intro sorted rows hrows
          apply owes_change hplan _ rfl
          exact .saved id steps sorted version rows hrequest hversion hstate hrows
      | published =>
        apply Tx.keeps_select_held
        intro e
        cases hdraft : plan.draft? with
        | some existing => exact owes_same hplan
        | none =>
          simp only [createDraftVersion]
          split
          · exact owes_same hplan
          · simp only [bind_assoc]
            apply Tx.keeps_lock_held
            intro e
            split
            · exact owes_same hplan
            · apply keeps_createLocked
              · intro result
                cases result with
                | error refusal => exact owes_same hplan
                | ok draft => exact owes_same hplan
              · intro row sorted rows hnone hrow hid hnumber hrows version'
                apply owes_change hplan _ rfl
                rw [hrequest]
                exact .drafted row sorted rows ⟨version, hversion, hstate⟩ hrow hnone hid
                  hnumber hrows

theorem saveSteps_keeps {command : Command} {steps : List DraftStepInput}
    (hrequest : command.request = .saveSteps id steps) :
    KeepsPlan sequenceId (Owes sequenceId command)
      (Answer.saved <$> saveSteps command.now command.actor id steps) .free [] := by
  rw [map_eq_pure_bind]
  have hsave : KeepsPlan sequenceId
      (fun phase notes result => Owes sequenceId command phase notes (.saved result))
      (saveSteps command.now command.actor id steps) .free [] := by
    unfold saveSteps
    split
    · exact owes_free
    · cases validateSteps steps with
      | some shape => exact owes_free
      | none =>
        apply Tx.keeps_guarded (saveLocked_keeps hrequest)
        exact fun err result notes _ => owes_free
  exact Tx.keeps_bind hsave fun phase notes result h => h

theorem publishVersion_keeps {command : Command} (hrequest : command.request = .publishVersion id) :
    KeepsPlan sequenceId (Owes sequenceId command)
      (Answer.version <$> publishVersion command.now command.actor id) .free [] := by
  rw [map_eq_pure_bind]
  unfold publishVersion
  split
  · exact owes_free
  · rw [bind_assoc]
    apply keeps_lockVersion
    · exact owes_free
    · intro plan hplan
      cases hversion : plan.version? id with
      | none => exact owes_same hplan
      | some version =>
        simp only [Option.map_some, bind_assoc]
        apply keeps_readSequenceVersion
        simp only [Plan.readVersion, hversion, Option.map_some]
        cases hpublishable : unpublishable ⟨version, plan.readSteps id⟩ with
        | some refusal => exact owes_same hplan
        | none =>
          simp only [bind_assoc]
          apply keeps_refuseUnpublishableTemplates
          · exact fun refusal notes => owes_same hplan
          · intro reads hreads
            have hkept : Kept sequenceId (plan.published command.now id) :=
              hplan.published hversion hpublishable
            have hchange : Change command.request reads plan (plan.published command.now id) := by
              rw [hrequest]
              exact .published id version command.now rfl hversion hpublishable hreads
            simp only [bind_assoc]
            apply keeps_modifyVersions
            apply keeps_modifyVersions
            obtain ⟨hmem, hid⟩ := version?_eq_some hversion
            obtain ⟨v', hv', hid', -⟩ := hchange.evolves hplan version hmem
            have hfound := hkept.version?_of_mem hv'
            rw [hid', hid] at hfound
            apply keeps_answerVersion hfound
            exact fun row => owes_change hplan hchange rfl

theorem retireVersion_keeps {command : Command} (hrequest : command.request = .retireVersion id) :
    KeepsPlan sequenceId (Owes sequenceId command)
      (Answer.version <$> retireVersion command.now command.actor id) .free [] := by
  rw [map_eq_pure_bind]
  unfold retireVersion
  split
  · exact owes_free
  · rw [bind_assoc]
    apply keeps_lockVersion
    · exact owes_free
    · intro plan hplan
      cases hversion : plan.version? id with
      | none => exact owes_same hplan
      | some version =>
        simp only [Option.map_some, bind_assoc]
        apply keeps_readSequenceVersion
        simp only [Plan.readVersion, hversion, Option.map_some]
        cases hstate : version.state with
        | retired => exact owes_same hplan
        | draft => exact owes_same hplan
        | published =>
          have hchange : Change command.request [] plan
              (plan.setVersions (·.id = id) (retire command.now)) := by
            rw [hrequest]
            exact .retired id version command.now rfl hversion hstate
          simp only [bind_assoc]
          apply keeps_modifyVersions
          obtain ⟨hmem, hid⟩ := version?_eq_some hversion
          obtain ⟨v', hv', hid', -⟩ := hchange.evolves hplan version hmem
          have hfound := (hchange.kept hplan).version?_of_mem hv'
          rw [hid', hid] at hfound
          apply keeps_answerVersion hfound
          exact fun row => owes_change hplan hchange rfl

/-- What each command commits is a change of the sequence it locked. -/
theorem program_keeps (sequenceId : Uuid) (command : Command) :
    KeepsPlan sequenceId (Owes sequenceId command) command.program .free [] := by
  unfold Command.program
  cases hrequest : command.request with
  | createDraftVersion named steps => exact createDraftVersion_keeps hrequest
  | saveSteps id steps => exact saveSteps_keeps hrequest
  | publishVersion id => exact publishVersion_keeps hrequest
  | retireVersion id => exact retireVersion_keeps hrequest

/-! ## Runs -/

/-- Every version that has left `draft` was published by one of the transactions. -/
def AllPublished (history : List DefinitionEntry) (plan : Plan) : Prop :=
  ∀ v ∈ plan.versions, v.state ≠ .draft → ∃ entry ∈ history,
    Publishes entry.command.request entry.notes plan v.id

theorem allPublished_of_serial {history : List DefinitionEntry} {plan : Plan}
    (h : Serial (Settles sequenceId) (.created sequenceId) history plan) :
    AllPublished history plan := by
  induction h with
  | nil => exact List.forall_mem_nil _
  | snoc e _ hsettles ih =>
    intro v hv hstate
    rcases hsettles.change.origin hsettles.kept hv hstate with ⟨w, hw, hid, hwstate, hsteps⟩ | hnew
    · obtain ⟨entry, hentry, hrequest, htemplates⟩ := ih w hw hwstate
      rw [hid] at hrequest htemplates
      refine ⟨entry, List.mem_append_left _ hentry, hrequest, ?_⟩
      rw [hsteps]
      exact htemplates
    · exact ⟨e, List.mem_append_right _ (List.mem_singleton_self e), hnew⟩

/-- What a committed transaction did: every version moved by at most one step of
`draft -> published -> retired` and kept its steps once out of `draft`; a refusal changed
nothing; and a save of a published version added a draft, if anything. -/
structure EntryFrozen (entry : DefinitionEntry) : Prop where
  moves : Evolves (Relation.ReflGen SequenceVersionState.Moves) entry.before entry.after
  refused : entry.answer.refused = true → entry.after = entry.before
  edits : ∀ id steps v, entry.command.request = .saveSteps id steps →
    entry.before.version? id = some v → v.state = .published →
    entry.after = entry.before ∨ ∃ row rows, row.state = .draft ∧
      (∀ w ∈ entry.before.versions, w.id ≠ row.id) ∧
      (∀ step ∈ rows, step.sequenceVersionId = row.id) ∧
      entry.after.versions = entry.before.versions ++ [row] ∧
      entry.after.steps = entry.before.steps ++ rows

theorem Settles.frozen {entry : DefinitionEntry} (h : Settles sequenceId entry) :
    EntryFrozen entry where
  moves := h.change.evolves h.kept
  refused := h.refused
  edits := by
    intro id steps v hrequest hversion hpublished
    have hchange := h.change
    rw [hrequest] at hchange
    exact hchange.edits h.kept hversion hpublished

/-- In every interleaving of commands on a sequence, `front` and whatever follows it: there is
at most one draft and one published version; numbers are distinct; versions persist, move
forward only, and read the same steps once out of `draft`; the steps of each such version are
numbered 1..n, and the transaction that published it found its templates approved; and every
committed transaction did what `EntryFrozen` tells. -/
theorem published_plan_frozen {π : Type} [DecidableEq π] (sequenceId : Uuid)
    (front back : List (Input π Outside Command)) :
    let w : Definitions π := run (World.step Command.program) (World.idle (.created sequenceId)) front
    let w' : Definitions π := run (World.step Command.program) w back
    w.committed.OneIn .draft ∧ w.committed.OneIn .published ∧
      (w.committed.versions.map (·.version)).Nodup ∧
      Evolves (Relation.ReflTransGen SequenceVersionState.Moves) w.committed w'.committed ∧
      (∀ v ∈ w.committed.versions, v.state ≠ .draft → Numbered (w.committed.readSteps v.id) ∧
        ∃ entry ∈ w.history, Publishes entry.command.request entry.notes w.committed v.id) ∧
      (∃ entries, w'.history = w.history ++ entries ∧
        Serial EntryFrozen w.committed entries w'.committed) ∧
      Serial EntryFrozen (.created sequenceId) w.history w.committed := by
  intro w w'
  have hidle : Sound (.sequence sequenceId) (Kept sequenceId) (Settles sequenceId)
      (World.idle (.created sequenceId) : Definitions π) := sound_idle (kept_created sequenceId)
  obtain ⟨hfront, entries, hhistory, hserial⟩ := hidle.run (program_keeps sequenceId) front
  obtain ⟨hback, later, hlater, hserial'⟩ := hfront.run (program_keeps sequenceId) back
  have hkept : Kept sequenceId w.committed := hfront.good
  have hall : w.history = entries := hhistory
  rw [← hall] at hserial
  refine ⟨hkept.oneDraft, hkept.onePublished, hkept.numbers, ?_, ?_, ?_, ?_⟩
  · apply hserial'.related
    · exact fun plan => .refl plan fun _ => .refl
    · exact fun _ _ _ => Evolves.trans
    · intro e he
      exact (he.change.evolves he.kept).mono fun a b hab => hab.to_reflTransGen
  · intro v hv hstate
    exact ⟨hkept.numbered v hv hstate, allPublished_of_serial hserial v hv hstate⟩
  · exact ⟨later, hlater, hserial'.mono fun _ he => he.frozen⟩
  · exact hserial.mono fun _ he => he.frozen

end FoundingSales.Sequences
