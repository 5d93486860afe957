import Mathlib.Logic.Relation
import FoundingSales.Sequences.Definitions

/-!
What one transaction makes of a sequence: nothing, a new draft, other steps of the draft, a
publication or a retirement.

Proved here:
* `Change.kept`: one draft, one published version, distinct numbers, and steps in place
  under every version that has left `draft`;
* `Change.evolves`, `Change.origin`: versions move forward, and only drafts change their steps;
* `Change.edits`: a save of a published version adds a draft and changes nothing else.
-/

namespace FoundingSales.Sequences

open Locking Runs

/-! ## What a sequence keeps -/

/-- The ordinals are exactly 1..n, and there is a step. -/
def Numbered (steps : List SequenceStepRow) : Prop :=
  ∃ n, 1 ≤ n ∧ steps.map (·.ordinal) = (List.range n).map fun i : Nat => (i : Int) + 1

def Plan.OneIn (state : SequenceVersionState) (plan : Plan) : Prop :=
  ∀ v ∈ plan.versions, ∀ w ∈ plan.versions, v.state = state → w.state = state → v = w

structure Kept (sequenceId : Uuid) (plan : Plan) : Prop where
  own : plan.sequenceId = sequenceId
  ids : (plan.versions.map (·.id)).Nodup
  numbers : (plan.versions.map (·.version)).Nodup
  oneDraft : plan.OneIn .draft
  onePublished : plan.OneIn .published
  shaped : ∀ step ∈ plan.steps, step.channel = .email → step.templateVersionId.isSome = true
  placed : ∀ step ∈ plan.steps, ∃ v ∈ plan.versions, v.id = step.sequenceVersionId
  numbered : ∀ v ∈ plan.versions, v.state ≠ .draft → Numbered (plan.readSteps v.id)

theorem kept_created (sequenceId : Uuid) : Kept sequenceId (.created sequenceId) where
  own := rfl
  ids := List.nodup_nil
  numbers := List.nodup_nil
  oneDraft := List.forall_mem_nil _
  onePublished := List.forall_mem_nil _
  shaped := List.forall_mem_nil _
  placed := List.forall_mem_nil _
  numbered := List.forall_mem_nil _

variable {sequenceId id : Uuid} {plan : Plan} {v w : SequenceVersion}

theorem Kept.eq_of_id (h : Kept sequenceId plan) (hv : v ∈ plan.versions)
    (hw : w ∈ plan.versions) (hid : v.id = w.id) : v = w :=
  List.inj_on_of_nodup_map h.ids hv hw hid

theorem version?_eq_some (h : plan.version? id = some v) : v ∈ plan.versions ∧ v.id = id := by
  refine ⟨List.mem_of_find?_eq_some h, ?_⟩
  simpa using List.find?_some h

theorem Kept.version?_of_mem (h : Kept sequenceId plan) (hv : v ∈ plan.versions) :
    plan.version? v.id = some v := by
  cases hfind : plan.version? v.id with
  | none =>
    have hnot := List.find?_eq_none.1 hfind v hv
    simp at hnot
  | some w =>
    obtain ⟨hw, hid⟩ := version?_eq_some hfind
    rw [h.eq_of_id hw hv hid]

theorem draft?_eq_none (h : plan.draft? = none) : ∀ v ∈ plan.versions, v.state ≠ .draft := by
  intro v hv
  rw [Plan.draft?, Option.map_eq_none_iff] at h
  simpa using List.find?_eq_none.1 h v hv

/-! ## Changes -/

/-- The steps of version `id` replaced by `rows`. -/
def Plan.withSteps (plan : Plan) (id : Uuid) (rows : List SequenceStepRow) : Plan :=
  { plan with steps := plan.steps.filter (·.sequenceVersionId ≠ id) ++ rows }

def Plan.withVersion (plan : Plan) (row : SequenceVersion) : Plan :=
  { plan with versions := plan.versions ++ [row] }

def Plan.setVersions (plan : Plan) (which : SequenceVersion → Bool)
    (set : SequenceVersion → SequenceVersion) : Plan :=
  { plan with versions := plan.versions.map fun row => if which row then set row else row }

def Plan.published (plan : Plan) (now : Micros) (id : Uuid) : Plan :=
  (plan.setVersions (supersedes id) (retire now)).setVersions (·.id = id) (publish now)

def SequenceStepRow.input (row : SequenceStepRow) : DraftStepInput :=
  ⟨row.ordinal, row.channel, row.delay, row.onNoAnswer, row.templateVersionId⟩

/-- The rows a list of steps was written as, for version `id`. -/
structure Written (id : Uuid) (steps : List DraftStepInput) (rows : List SequenceStepRow) :
    Prop where
  steps : rows.map (·.input) = steps
  owner : ∀ row ∈ rows, row.sequenceVersionId = id
  checks : ∀ row ∈ rows, stepChecks row = true

/-- A template a publication found approved and not retired. -/
def ReadApproved (notes : List TemplateRead) (templateVersionId : Uuid) : Prop :=
  ∃ template : TemplateVersion, ⟨templateVersionId, some template⟩ ∈ notes ∧
    template.approvedAt.isSome = true ∧ template.retiredAt = none

/-- The request writes a new draft, and edits no draft there is. -/
def Request.Drafts (plan : Plan) : Request → Prop
  | .createDraftVersion _ _ => True
  | .saveSteps id _ => ∃ v, plan.version? id = some v ∧ v.state = .published
  | _ => False

/-- What one transaction makes of the sequence. -/
inductive Change (request : Request) (notes : List TemplateRead) (plan : Plan) : Plan → Prop
  | same : Change request notes plan plan
  | drafted (row : SequenceVersion) (steps : List DraftStepInput) (rows : List SequenceStepRow)
      (hrequest : request.Drafts plan) (hdraft : row.state = .draft)
      (hnone : plan.draft? = none) (hid : ∀ v ∈ plan.versions, v.id ≠ row.id)
      (hnumber : ∀ v ∈ plan.versions, v.version ≠ row.version) (hrows : Written row.id steps rows) :
      Change request notes plan ((plan.withVersion row).withSteps row.id rows)
  | saved (id : Uuid) (steps sorted : List DraftStepInput) (v : SequenceVersion)
      (rows : List SequenceStepRow) (hrequest : request = .saveSteps id steps)
      (hversion : plan.version? id = some v) (hdraft : v.state = .draft)
      (hrows : Written id sorted rows) : Change request notes plan (plan.withSteps id rows)
  | published (id : Uuid) (v : SequenceVersion) (now : Micros)
      (hrequest : request = .publishVersion id) (hversion : plan.version? id = some v)
      (hpublishable : unpublishable ⟨v, plan.readSteps id⟩ = none)
      (htemplates : ∀ step ∈ plan.readSteps id, ∀ templateVersionId,
        step.templateVersionId = some templateVersionId → ReadApproved notes templateVersionId) :
      Change request notes plan (plan.published now id)
  | retired (id : Uuid) (v : SequenceVersion) (now : Micros)
      (hrequest : request = .retireVersion id) (hversion : plan.version? id = some v)
      (hpublished : v.state = .published) :
      Change request notes plan (plan.setVersions (·.id = id) (retire now))

/-! ## Reading steps -/

theorem stepsOf_withSteps_ne {id' : Uuid} {rows : List SequenceStepRow}
    (howner : ∀ row ∈ rows, row.sequenceVersionId = id) (hne : id' ≠ id) :
    (plan.withSteps id rows).stepsOf id' = plan.stepsOf id' := by
  have hrows : rows.filter (fun row => decide (row.sequenceVersionId = id')) = [] := by
    apply List.filter_eq_nil_iff.2
    intro row hrow
    simpa [howner row hrow] using Ne.symm hne
  simp only [Plan.stepsOf, Plan.withSteps, List.filter_append, hrows, List.append_nil,
    List.filter_filter]
  apply List.filter_congr
  intro row _
  by_cases hid : row.sequenceVersionId = id'
  · simp [hid, hne]
  · simp [hid]

theorem readSteps_withSteps_ne {id' : Uuid} {rows : List SequenceStepRow}
    (howner : ∀ row ∈ rows, row.sequenceVersionId = id) (hne : id' ≠ id) :
    (plan.withSteps id rows).readSteps id' = plan.readSteps id' := by
  rw [Plan.readSteps, stepsOf_withSteps_ne howner hne, Plan.readSteps]

theorem contiguous_numbered {steps : List SequenceStepRow} (hsteps : steps ≠ [])
    (h : contiguous (steps.map (·.ordinal)) = true) : Numbered steps := by
  refine ⟨steps.length, List.length_pos_of_ne_nil hsteps, ?_⟩
  apply List.ext_getElem
  · simp
  · intro i hi hi'
    have hall := List.all_eq_true.1 h ((steps.map (·.ordinal))[i], i)
      (List.mem_zipIdx_iff_getElem?.2 (List.getElem?_eq_getElem hi))
    simpa using hall

theorem unpublishable_eq_none {version : SequenceVersionRow} (h : unpublishable version = none) :
    version.row.state = .draft ∧ Numbered version.steps := by
  simp only [unpublishable] at h
  split at h
  · cases h
  · next hstate =>
    split at h
    · cases h
    · next hsteps =>
      split at h
      · cases h
      · next hcontiguous =>
        exact ⟨not_not.1 hstate, contiguous_numbered hsteps (by simpa using hcontiguous)⟩

/-! ## What a change keeps -/

/-- A version once out of `draft` has its steps in place. -/
theorem Kept.withSteps (h : Kept sequenceId plan) {steps : List DraftStepInput}
    {rows : List SequenceStepRow} (hversion : plan.version? id = some v)
    (hdraft : v.state = .draft) (hrows : Written id steps rows) :
    Kept sequenceId (plan.withSteps id rows) := by
  obtain ⟨hv, hid⟩ := version?_eq_some hversion
  have hstep : ∀ step ∈ (plan.withSteps id rows).steps, step ∈ plan.steps ∨ step ∈ rows := by
    intro step hstep
    rcases List.mem_append.1 hstep with hmem | hmem
    · exact .inl (List.mem_of_mem_filter hmem)
    · exact .inr hmem
  refine ⟨h.own, h.ids, h.numbers, h.oneDraft, h.onePublished, ?_, ?_, ?_⟩
  · intro step hmem hemail
    rcases hstep step hmem with hold | hnew
    · exact h.shaped step hold hemail
    · have hchecks := hrows.checks step hnew
      simp only [stepChecks, Bool.and_eq_true] at hchecks
      simpa [hemail] using hchecks.2
  · intro step hmem
    rcases hstep step hmem with hold | hnew
    · exact h.placed step hold
    · exact ⟨v, hv, by rw [hid, hrows.owner step hnew]⟩
  · intro w hw hstate
    have hne : w.id ≠ id := by
      intro hwid
      rw [h.eq_of_id hw hv (hwid.trans hid.symm)] at hstate
      exact hstate hdraft
    rw [readSteps_withSteps_ne hrows.owner hne]
    exact h.numbered w hw hstate

theorem Kept.withVersion (h : Kept sequenceId plan) {row : SequenceVersion}
    (hdraft : row.state = .draft) (hnone : plan.draft? = none)
    (hid : ∀ v ∈ plan.versions, v.id ≠ row.id)
    (hnumber : ∀ v ∈ plan.versions, v.version ≠ row.version) :
    Kept sequenceId (plan.withVersion row) := by
  have hversion : ∀ v ∈ (plan.withVersion row).versions, v ∈ plan.versions ∨ v = row := by
    intro v hv
    rcases List.mem_append.1 hv with hmem | hmem
    · exact .inl hmem
    · exact .inr (List.mem_singleton.1 hmem)
  refine ⟨h.own, ?_, ?_, ?_, ?_, h.shaped, ?_, ?_⟩
  · rw [Plan.withVersion, List.map_append, List.nodup_append]
    refine ⟨h.ids, List.nodup_singleton _, ?_⟩
    intro a ha b hb
    obtain ⟨v, hv, rfl⟩ := List.mem_map.1 ha
    rw [List.mem_singleton.1 hb]
    exact hid v hv
  · rw [Plan.withVersion, List.map_append, List.nodup_append]
    refine ⟨h.numbers, List.nodup_singleton _, ?_⟩
    intro a ha b hb
    obtain ⟨v, hv, rfl⟩ := List.mem_map.1 ha
    rw [List.mem_singleton.1 hb]
    exact hnumber v hv
  · intro v hv w hw hvdraft hwdraft
    rcases hversion v hv with hvold | rfl
    · exact absurd hvdraft (draft?_eq_none hnone v hvold)
    · rcases hversion w hw with hwold | rfl
      · exact absurd hwdraft (draft?_eq_none hnone w hwold)
      · rfl
  · intro v hv w hw hvpublished hwpublished
    rcases hversion v hv with hvold | rfl
    · rcases hversion w hw with hwold | rfl
      · exact h.onePublished v hvold w hwold hvpublished hwpublished
      · rw [hdraft] at hwpublished
        cases hwpublished
    · rw [hdraft] at hvpublished
      cases hvpublished
  · intro step hstep
    obtain ⟨v, hv, hvid⟩ := h.placed step hstep
    exact ⟨v, List.mem_append_left _ hv, hvid⟩
  · intro v hv hstate
    rcases hversion v hv with hvold | rfl
    · exact h.numbered v hvold hstate
    · exact absurd hdraft hstate

/-- A change of some versions' states, without their ids and numbers. -/
theorem Kept.setVersions (h : Kept sequenceId plan) {which : SequenceVersion → Bool}
    {set : SequenceVersion → SequenceVersion} (hid : ∀ row, (set row).id = row.id)
    (hnumber : ∀ row, (set row).version = row.version)
    (hdraft : ∀ row, (set row).state ≠ .draft)
    (hone : (plan.setVersions which set).OneIn .published)
    (hnumbered : ∀ v ∈ plan.versions, which v = true → Numbered (plan.readSteps v.id)) :
    Kept sequenceId (plan.setVersions which set) := by
  have hversion : ∀ w ∈ (plan.setVersions which set).versions,
      ∃ v ∈ plan.versions, w = if which v then set v else v := by
    intro w hw
    obtain ⟨v, hv, rfl⟩ := List.mem_map.1 hw
    exact ⟨v, hv, rfl⟩
  have hids : (plan.setVersions which set).versions.map (·.id) = plan.versions.map (·.id) := by
    rw [Plan.setVersions, List.map_map]
    apply List.map_congr_left
    intro v _
    simp only [Function.comp_apply]
    split
    · exact hid v
    · rfl
  have hnumbers : (plan.setVersions which set).versions.map (·.version)
      = plan.versions.map (·.version) := by
    rw [Plan.setVersions, List.map_map]
    apply List.map_congr_left
    intro v _
    simp only [Function.comp_apply]
    split
    · exact hnumber v
    · rfl
  refine ⟨h.own, hids ▸ h.ids, hnumbers ▸ h.numbers, ?_, hone, h.shaped, ?_, ?_⟩
  · intro v hv w hw hvdraft hwdraft
    obtain ⟨v, hvold, rfl⟩ := hversion v hv
    obtain ⟨w, hwold, rfl⟩ := hversion w hw
    split at hvdraft
    · exact absurd hvdraft (hdraft v)
    · split at hwdraft
      · exact absurd hwdraft (hdraft w)
      · rw [h.oneDraft v hvold w hwold hvdraft hwdraft]
  · intro step hstep
    obtain ⟨v, hv, hvid⟩ := h.placed step hstep
    refine ⟨if which v then set v else v, List.mem_map_of_mem hv, ?_⟩
    split
    · rw [hid, hvid]
    · exact hvid
  · intro w hw hstate
    obtain ⟨v, hv, rfl⟩ := hversion w hw
    show Numbered (plan.readSteps _)
    split at hstate
    · next hwhich =>
      rw [if_pos hwhich, hid]
      exact hnumbered v hv hwhich
    · next hwhich =>
      rw [if_neg hwhich]
      exact h.numbered v hv hstate

/-- Retiring leaves no new published version. -/
theorem oneIn_published_retire (h : plan.OneIn .published) (which : SequenceVersion → Bool)
    (now : Micros) : (plan.setVersions which (retire now)).OneIn .published := by
  intro v hv w hw hvpublished hwpublished
  obtain ⟨v, hvold, rfl⟩ := List.mem_map.1 hv
  obtain ⟨w, hwold, rfl⟩ := List.mem_map.1 hw
  split at hvpublished
  · cases hvpublished
  · split at hwpublished
    · cases hwpublished
    · rw [h v hvold w hwold hvpublished hwpublished]

theorem Kept.retired (h : Kept sequenceId plan) {now : Micros} {which : SequenceVersion → Bool}
    (hwhich : ∀ v ∈ plan.versions, which v = true → v.state = .published) :
    Kept sequenceId (plan.setVersions which (retire now)) := by
  apply h.setVersions
  · exact fun _ => rfl
  · exact fun _ => rfl
  · exact fun _ => nofun
  · exact oneIn_published_retire h.onePublished which now
  · intro v hv hset
    apply h.numbered v hv
    rw [hwhich v hv hset]
    nofun

theorem Kept.published (h : Kept sequenceId plan) {now : Micros}
    (hversion : plan.version? id = some v)
    (hpublishable : unpublishable ⟨v, plan.readSteps id⟩ = none) :
    Kept sequenceId (plan.published now id) := by
  obtain ⟨hv, hid⟩ := version?_eq_some hversion
  obtain ⟨hdraft, hnumbered⟩ := unpublishable_eq_none hpublishable
  have hretired : Kept sequenceId (plan.setVersions (supersedes id) (retire now)) := by
    apply h.retired
    intro w _ hw
    simp only [supersedes, Bool.and_eq_true, decide_eq_true_eq] at hw
    exact hw.1
  -- after the first update nothing but the version itself can be published
  have hothers : ∀ w ∈ (plan.setVersions (supersedes id) (retire now)).versions,
      w.id ≠ id → w.state ≠ .published := by
    intro w hw hwid hstate
    obtain ⟨w, hwold, rfl⟩ := List.mem_map.1 hw
    split at hstate
    · cases hstate
    · next hwhich =>
      rw [if_neg hwhich] at hwid
      exact hwhich (by simp [supersedes, hstate, hwid])
  apply hretired.setVersions
  · exact fun _ => rfl
  · exact fun _ => rfl
  · exact fun _ => nofun
  · intro x hx y hy hxpublished hypublished
    obtain ⟨x, hxold, rfl⟩ := List.mem_map.1 hx
    obtain ⟨y, hyold, rfl⟩ := List.mem_map.1 hy
    by_cases hxid : x.id = id
    · by_cases hyid : y.id = id
      · rw [hretired.eq_of_id hxold hyold (hxid.trans hyid.symm)]
      · simp only [hyid, decide_false, Bool.false_eq_true, if_false] at hypublished
        exact absurd hypublished (hothers y hyold hyid)
    · simp only [hxid, decide_false, Bool.false_eq_true, if_false] at hxpublished
      exact absurd hxpublished (hothers x hxold hxid)
  · intro w _ hwid
    rw [of_decide_eq_true hwid]
    exact hnumbered

theorem Change.kept {request : Request} {notes : List TemplateRead} {after : Plan}
    (h : Kept sequenceId plan) (hchange : Change request notes plan after) :
    Kept sequenceId after := by
  cases hchange with
  | same => exact h
  | drafted row steps rows hrequest hdraft hnone hid hnumber hrows =>
    have hnew := h.withVersion hdraft hnone hid hnumber
    have hmem : row ∈ (plan.withVersion row).versions :=
      List.mem_append_right _ (List.mem_singleton_self row)
    exact hnew.withSteps (hnew.version?_of_mem hmem) hdraft hrows
  | saved id steps sorted v rows hrequest hversion hdraft hrows =>
    exact h.withSteps hversion hdraft hrows
  | published id v now hrequest hversion hpublishable htemplates =>
    exact h.published hversion hpublishable
  | retired id v now hrequest hversion hpublished =>
    obtain ⟨hv, hid⟩ := version?_eq_some hversion
    apply h.retired
    intro w hw hwid
    rw [h.eq_of_id hw hv ((of_decide_eq_true hwid).trans hid.symm)]
    exact hpublished

/-! ## How versions move -/

/-- `draft -> published -> retired` -/
inductive SequenceVersionState.Moves : SequenceVersionState → SequenceVersionState → Prop
  | publish : Moves .draft .published
  | retire : Moves .published .retired

/-- Every version is still there, under its number, moved as `R` allows; and once out of
`draft` its steps read the same. -/
def Evolves (R : SequenceVersionState → SequenceVersionState → Prop) (plan after : Plan) : Prop :=
  ∀ v ∈ plan.versions, ∃ v' ∈ after.versions, v'.id = v.id ∧ v'.version = v.version ∧
    R v.state v'.state ∧ (v.state ≠ .draft → after.readSteps v.id = plan.readSteps v.id)

theorem Evolves.mono {R S : SequenceVersionState → SequenceVersionState → Prop} {after : Plan}
    (hRS : ∀ a b, R a b → S a b) (h : Evolves R plan after) : Evolves S plan after := by
  intro v hv
  obtain ⟨v', hv', hid, hnumber, hstate, hsteps⟩ := h v hv
  exact ⟨v', hv', hid, hnumber, hRS _ _ hstate, hsteps⟩

open Relation in
theorem Evolves.trans {middle after : Plan}
    (h : Evolves (ReflTransGen SequenceVersionState.Moves) plan middle)
    (h' : Evolves (ReflTransGen SequenceVersionState.Moves) middle after) :
    Evolves (ReflTransGen SequenceVersionState.Moves) plan after := by
  have hleaves : ∀ {a b}, ReflTransGen SequenceVersionState.Moves a b → a ≠ .draft → b ≠ .draft := by
    intro a b hab ha
    induction hab with
    | refl => exact ha
    | tail _ hmove _ => cases hmove <;> nofun
  intro v hv
  obtain ⟨v', hv', hid, hnumber, hstate, hsteps⟩ := h v hv
  obtain ⟨v'', hv'', hid', hnumber', hstate', hsteps'⟩ := h' v' hv'
  refine ⟨v'', hv'', hid'.trans hid, hnumber'.trans hnumber, hstate.trans hstate', ?_⟩
  intro hdraft
  rw [← hsteps hdraft, ← hid]
  exact hsteps' (hleaves hstate hdraft)

theorem Evolves.refl (plan : Plan) {R : SequenceVersionState → SequenceVersionState → Prop}
    (hR : ∀ a, R a a) : Evolves R plan plan :=
  fun v hv => ⟨v, hv, rfl, rfl, hR _, fun _ => rfl⟩

private theorem evolves_setVersions {which : SequenceVersion → Bool}
    {set : SequenceVersion → SequenceVersion} (hid : ∀ row, (set row).id = row.id)
    (hnumber : ∀ row, (set row).version = row.version)
    (hstate : ∀ v ∈ plan.versions, which v = true → v.state.Moves (set v).state) :
    Evolves (Relation.ReflGen SequenceVersionState.Moves) plan (plan.setVersions which set) := by
  intro v hv
  refine ⟨if which v then set v else v, List.mem_map_of_mem hv, ?_⟩
  by_cases hwhich : which v = true
  · rw [if_pos hwhich]
    exact ⟨hid v, hnumber v, .single (hstate v hv hwhich), fun _ => rfl⟩
  · rw [if_neg hwhich]
    exact ⟨rfl, rfl, .refl, fun _ => rfl⟩

theorem Change.evolves {request : Request} {notes : List TemplateRead} {after : Plan}
    (h : Kept sequenceId plan) (hchange : Change request notes plan after) :
    Evolves (Relation.ReflGen SequenceVersionState.Moves) plan after := by
  cases hchange with
  | same => exact .refl plan fun _ => .refl
  | drafted row steps rows hrequest hdraft hnone hid hnumber hrows =>
    intro v hv
    refine ⟨v, List.mem_append_left _ hv, rfl, rfl, .refl, fun _ => ?_⟩
    exact readSteps_withSteps_ne hrows.owner (hid v hv)
  | saved id steps sorted w rows hrequest hversion hdraft hrows =>
    obtain ⟨hw, hwid⟩ := version?_eq_some hversion
    intro v hv
    refine ⟨v, hv, rfl, rfl, .refl, fun hstate => readSteps_withSteps_ne hrows.owner ?_⟩
    intro hvid
    rw [h.eq_of_id hv hw (hvid.trans hwid.symm)] at hstate
    exact hstate hdraft
  | published id w now hrequest hversion hpublishable htemplates =>
    obtain ⟨hw, hwid⟩ := version?_eq_some hversion
    have hdraft := (unpublishable_eq_none hpublishable).1
    intro v hv
    have hmem : (if decide (v.id = id) then publish now v
        else if supersedes id v then retire now v else v) ∈ (plan.published now id).versions := by
      refine List.mem_map.2 ⟨if supersedes id v then retire now v else v,
        List.mem_map_of_mem hv, ?_⟩
      by_cases hvid : v.id = id
      · simp [supersedes, hvid]
      · by_cases hwhich : supersedes id v = true
        · simp [hwhich, hvid, retire]
        · simp [hwhich, hvid]
    refine ⟨_, hmem, ?_⟩
    by_cases hvid : v.id = id
    · rw [if_pos (decide_eq_true hvid)]
      refine ⟨rfl, rfl, .single ?_, fun _ => rfl⟩
      rw [h.eq_of_id hv hw (hvid.trans hwid.symm), hdraft]
      exact .publish
    · rw [if_neg (by simpa using hvid)]
      by_cases hwhich : supersedes id v = true
      · rw [if_pos hwhich]
        refine ⟨rfl, rfl, .single ?_, fun _ => rfl⟩
        simp only [supersedes, Bool.and_eq_true, decide_eq_true_eq] at hwhich
        rw [hwhich.1]
        exact .retire
      · rw [if_neg hwhich]
        exact ⟨rfl, rfl, .refl, fun _ => rfl⟩
  | retired id w now hrequest hversion hpublished =>
    obtain ⟨hw, hwid⟩ := version?_eq_some hversion
    apply evolves_setVersions
    · exact fun _ => rfl
    · exact fun _ => rfl
    · intro v hv hvid
      rw [h.eq_of_id hv hw ((of_decide_eq_true hvid).trans hwid.symm), hpublished]
      exact .retire

/-- The transaction published the version, and found its templates approved. -/
def Publishes (request : Request) (notes : List TemplateRead) (after : Plan) (id : Uuid) : Prop :=
  request = .publishVersion id ∧ ∀ step ∈ after.readSteps id, step.channel = .email →
    ∃ templateVersionId, step.templateVersionId = some templateVersionId ∧
      ReadApproved notes templateVersionId

/-- A version out of `draft` was so before, with the same steps, or this transaction
published it. -/
theorem Change.origin {request : Request} {notes : List TemplateRead} {after : Plan}
    (h : Kept sequenceId plan) (hchange : Change request notes plan after)
    (hv : v ∈ after.versions) (hstate : v.state ≠ .draft) :
    (∃ w ∈ plan.versions, w.id = v.id ∧ w.state ≠ .draft ∧
      after.readSteps v.id = plan.readSteps v.id) ∨ Publishes request notes after v.id := by
  cases hchange with
  | same => exact .inl ⟨v, hv, rfl, hstate, rfl⟩
  | drafted row steps rows hrequest hdraft hnone hid hnumber hrows =>
    rcases List.mem_append.1 hv with hold | hnew
    · exact .inl ⟨v, hold, rfl, hstate, readSteps_withSteps_ne hrows.owner (hid v hold)⟩
    · rw [List.mem_singleton.1 hnew] at hstate
      exact absurd hdraft hstate
  | saved id steps sorted w rows hrequest hversion hdraft hrows =>
    obtain ⟨hw, hwid⟩ := version?_eq_some hversion
    refine .inl ⟨v, hv, rfl, hstate, readSteps_withSteps_ne hrows.owner ?_⟩
    intro hvid
    rw [h.eq_of_id hv hw (hvid.trans hwid.symm)] at hstate
    exact hstate hdraft
  | published id w now hrequest hversion hpublishable htemplates =>
    obtain ⟨u, hu, rfl⟩ := List.mem_map.1 hv
    obtain ⟨x, hx, rfl⟩ := List.mem_map.1 hu
    by_cases hxid : (if supersedes id x then retire now x else x).id = id
    · rw [if_pos (decide_eq_true hxid)]
      refine .inr ⟨by rw [hrequest]; exact congrArg _ hxid.symm, ?_⟩
      intro step hstep hemail
      have hread : step ∈ plan.readSteps id := by
        have hsame : (publish now (if supersedes id x then retire now x else x)).id = id := hxid
        rwa [hsame] at hstep
      have hmem : step ∈ plan.steps := List.mem_of_mem_filter ((List.mem_insertionSort _).1 hread)
      obtain ⟨templateVersionId, htemplate⟩ :=
        Option.isSome_iff_exists.1 (h.shaped step hmem hemail)
      exact ⟨templateVersionId, htemplate, htemplates step hread _ htemplate⟩
    · rw [if_neg (by simpa using hxid)] at hstate ⊢
      by_cases hwhich : supersedes id x = true
      · rw [if_pos hwhich]
        refine .inl ⟨x, hx, rfl, ?_, rfl⟩
        simp only [supersedes, Bool.and_eq_true, decide_eq_true_eq] at hwhich
        rw [hwhich.1]
        nofun
      · rw [if_neg hwhich] at hstate ⊢
        exact .inl ⟨x, hx, rfl, hstate, rfl⟩
  | retired id w now hrequest hversion hpublished =>
    obtain ⟨hw, hwid⟩ := version?_eq_some hversion
    obtain ⟨x, hx, rfl⟩ := List.mem_map.1 hv
    by_cases hxid : x.id = id
    · rw [if_pos (decide_eq_true hxid)]
      refine .inl ⟨x, hx, rfl, ?_, rfl⟩
      rw [h.eq_of_id hx hw (hxid.trans hwid.symm), hpublished]
      nofun
    · rw [if_neg (by simpa using hxid)] at hstate ⊢
      exact .inl ⟨x, hx, rfl, hstate, rfl⟩

/-- An edit of a published version changes nothing but to add a draft. -/
theorem Change.edits {notes : List TemplateRead} {after : Plan} {steps : List DraftStepInput}
    (h : Kept sequenceId plan) (hversion : plan.version? id = some v) (hpublished : v.state = .published)
    (hchange : Change (.saveSteps id steps) notes plan after) :
    after = plan ∨ ∃ row rows, row.state = .draft ∧ (∀ w ∈ plan.versions, w.id ≠ row.id) ∧
      (∀ step ∈ rows, step.sequenceVersionId = row.id) ∧
      after.versions = plan.versions ++ [row] ∧ after.steps = plan.steps ++ rows := by
  cases hchange with
  | same => exact .inl rfl
  | drafted row steps rows hrequest hdraft hnone hid hnumber hrows =>
    refine .inr ⟨row, rows, hdraft, hid, hrows.owner, rfl, ?_⟩
    have hall : plan.steps.filter (fun step => decide (step.sequenceVersionId ≠ row.id))
        = plan.steps := by
      apply List.filter_eq_self.2
      intro step hstep
      obtain ⟨v, hv, hvid⟩ := h.placed step hstep
      simpa [← hvid] using hid v hv
    exact congrArg (· ++ rows) hall
  | saved id' steps' sorted w rows hrequest hversion' hdraft hrows =>
    cases hrequest
    rw [hversion] at hversion'
    cases hversion'
    rw [hpublished] at hdraft
    cases hdraft
  | published id w now hrequest => cases hrequest
  | retired id w now hrequest => cases hrequest

end FoundingSales.Sequences
