import FoundingSales.Mail.Matches
import Mathlib.Data.List.Dedup

/-!
An ambiguous message holds every candidate until a person chooses.

A candidate recorded while the match was still certain has no hold, and no later import comes
back to it.

Proved here:

* `recordCandidates_spec`: the rows and the holds an import adds;
* `resolveAmbiguity_spec`: what a resolution writes, and that a refused one writes nothing;
* `Sound.step`: the invariant, for every step that leaves no unresolved match unheld;
* `ambiguity_holds_every_candidate`: every run of such steps;
* `ambiguity_unheld`: the replay that finds a second candidate.
-/

namespace FoundingSales.Mail.Matches

open Tables Crm

/-! ## What holds of a message -/

/-- The row's opportunity, or its firm, is under an open hold of the message's ambiguity. -/
def Match.Held (messageId : Uuid) (holds : List Hold) (row : Match) : Prop :=
  ∃ id hold, row.holdId = some id ∧ holds[id]? = some hold ∧ hold.scope = row.scope ∧
    hold.isOpenFor messageId .ambiguousMatch = true

structure AmbiguityHeld (s : Store) : Prop where
  held : 2 ≤ (unresolved s.stored.matches_).length → ∀ row ∈ unresolved s.stored.matches_,
    row.ambiguous = true ∧ row.Held s.message.id s.stored.holds
  selected : (s.stored.matches_.rows.filter fun row => row.selected = some true).length ≤ 1
  released : resolvedAlready s.stored.matches_ = true → ∀ hold ∈ s.stored.holds,
    hold.isOpenFor s.message.id .ambiguousMatch = false
  directSend : s.directSendApplied.length ≤ 1 ∧ ∀ firmId ∈ s.directSendApplied,
    ∀ row ∈ s.stored.matches_, row.selected = some true → row.firmId = firmId

/-- What an accepted resolution did. -/
structure Resolves (s : Store) (resolution : AmbiguityResolution) (releasing : List Store)
    (s' : Store) : Prop where
  chosen : ∃ row ∈ s'.stored.matches_, row.authority = resolution.selected ∧
    row.selected = some true
  closed : ∀ hold ∈ s'.stored.holds, hold.isOpenFor s.message.id .ambiguousMatch = false
  others : ∀ (id : HoldId) (hold : Hold), s.stored.holds[id]? = some hold →
    hold.isOther s.message.id = true →
    s'.stored.holds[id]? = some hold
  kept : s.message.direction = .incoming →
    (∃ before rest, releasing = before :: rest ∧ s.stored.holds <+: before.stored.holds) ∧
    s' ∈ releasing ∧
    ∃ selected ∈ s.stored.matches_, selected.authority = resolution.selected ∧
      ∀ t ∈ releasing, ∃ hold ∈ t.stored.holds, hold.scope = selected.scope ∧
        hold.reasonCode = .uncertainReply ∧ hold.releasedAt = none

/-- What a step may do. -/
structure StepHeld (input : Input) (s s' : Store) : Prop where
  never_repointed : ∀ row ∈ s.stored.matches_, ∀ chosen, row.selected = some chosen →
    ∃ row' ∈ s'.stored.matches_, row'.key = row.key ∧ row'.selected = some chosen ∧
      row'.resolvedAt = row.resolvedAt ∧ row'.resolvedByUserId = row.resolvedByUserId
  refused : ∀ c request reason s'', input = .resolve c request →
    resolveAmbiguity c request s = .refuse reason s'' → s'' = s
  accepted : ∀ c request resolution releasing s'', input = .resolve c request →
    resolveAmbiguity c request s = .accept resolution releasing s'' →
    Resolves s resolution releasing s''
  applied : s'.directSendApplied ≠ s.directSendApplied → s.directSendApplied = [] ∧
    ∃ row ∈ s'.stored.matches_, s'.directSendApplied = [row.firmId] ∧
      (row.selected = some true ∨ s'.stored.matches_.rows = [row] ∧ row.ambiguous = false)

/-! ## The invariant -/

/-- The row's foreign keys. -/
def Store.refers (s : Store) (row : Match) : Bool :=
  match row.authority with
  | .opportunity id =>
    (s.crm.opportunities.find? id).any fun opportunity => opportunity.firmId = row.firmId
  | .outreachPlan id => (s.plans.find? id).any fun plan => plan.firmId = row.firmId

structure Sound (s : Store) : Prop where
  held : AmbiguityHeld s
  incoming : s.message.direction = .incoming → s.directSendApplied = []
  marked : ∀ row ∈ unresolved s.stored.matches_, row.ambiguous = true →
    row.Held s.message.id s.stored.holds
  refers : ∀ row ∈ s.stored.matches_, s.refers row = true

/-! ## Recording -/

section Recording

variable {known : MatchCandidate → Bool} {messageId : Uuid} {ambiguous : Bool}
  {candidates : List MatchCandidate} {s s' : MatchStore}

theorem Match.Held.append {holds more : List Hold} {row : Match} (h : row.Held messageId holds) :
    row.Held messageId (holds ++ more) := by
  obtain ⟨id, hold, hid, hfind, hscope, hopen⟩ := h
  refine ⟨id, hold, hid, ?_, hscope, hopen⟩
  obtain ⟨hlt, -⟩ := List.getElem?_eq_some_iff.1 hfind
  rw [List.getElem?_append_left hlt, hfind]

/-- A row an import added, and why. -/
structure Added (known : MatchCandidate → Bool) (messageId : Uuid) (ambiguous : Bool)
    (candidates : List MatchCandidate) (before : MatchTable) (holds : List Hold) (row : Match) :
    Prop where
  fresh : before.find? row.key = none
  selected : row.selected = none
  marked : row.ambiguous = ambiguous
  candidate : ∃ candidate ∈ candidates, candidate.authority = row.authority ∧
    candidate.firmId = row.firmId ∧ known candidate = true
  held : ambiguous = true → row.Held messageId holds

/-- The rows and the holds an import adds. -/
theorem recordCandidates_spec {holdIds : List HoldId}
    (h : recordCandidates known messageId ambiguous candidates s = some (holdIds, s')) :
    ∃ rows holds, s'.matches_.rows = s.matches_.rows ++ rows ∧ s'.holds = s.holds ++ holds ∧
      (∀ row ∈ rows, Added known messageId ambiguous candidates s.matches_ s'.holds row) ∧
      (∀ hold ∈ holds, ambiguous = true ∧ hold.reasonCode = .ambiguousMatch) := by
  induction candidates generalizing s holdIds with
  | nil =>
    cases h
    exact ⟨[], [], (List.append_nil _).symm, (List.append_nil _).symm, List.forall_mem_nil _,
      List.forall_mem_nil _⟩
  | cons candidate candidates ih =>
    simp only [recordCandidates, Option.bind_eq_bind, Option.bind_eq_some_iff] at h
    obtain ⟨⟨holdId, middle⟩, hfirst, ⟨restIds, last⟩, hrest, heq⟩ := h
    obtain ⟨-, rfl⟩ := Prod.mk.inj (Option.some.inj heq)
    obtain ⟨rows, holds, hrows, hholds, hadded, hopened⟩ := ih hrest
    unfold recordCandidate at hfirst
    split at hfirst
    · obtain ⟨-, rfl⟩ := Prod.mk.inj (Option.some.inj hfirst)
      refine ⟨rows, holds, hrows, hholds, ?_, hopened⟩
      intro row hrow
      obtain ⟨hfresh, hsel, hamb, ⟨other, hother, hwhy⟩, hheld⟩ := hadded row hrow
      exact ⟨hfresh, hsel, hamb, ⟨other, List.mem_cons_of_mem _ hother, hwhy⟩, hheld⟩
    · next hnone =>
      split at hfirst
      · next hknown =>
        have hlater : ∀ row ∈ rows, (∃ new, s.matches_.insert? new = some middle.matches_) →
            Added known messageId ambiguous (candidate :: candidates) s.matches_ last.holds row := by
          rintro row hrow ⟨new, hinsert⟩
          obtain ⟨hfresh, hsel, hamb, ⟨other, hother, hwhy⟩, hheld⟩ := hadded row hrow
          refine ⟨?_, hsel, hamb, ⟨other, List.mem_cons_of_mem _ hother, hwhy⟩, hheld⟩
          rw [Table.find?_eq_none] at hfresh ⊢
          intro x hx
          exact hfresh x ((Table.mem_insert? hinsert).2 (.inl hx))
        split at hfirst
        · next hambiguous =>
          obtain ⟨table, hinsert, heq⟩ := Option.map_eq_some_iff.1 hfirst
          obtain ⟨-, rfl⟩ := Prod.mk.inj heq
          refine ⟨matchRow candidate true (some s.holds.length) :: rows,
            ambiguityHold messageId candidate :: holds, ?_, ?_, ?_, ?_⟩
          · rw [hrows, (Table.insert?_eq_some hinsert).2, List.append_assoc]
            rfl
          · rw [hholds]
            exact List.append_assoc _ _ _
          · intro row hrow
            rcases List.mem_cons.1 hrow with rfl | hrow
            · refine ⟨hnone, rfl, hambiguous.symm, ⟨candidate, List.mem_cons_self, rfl, rfl, hknown⟩,
                fun _ => ?_⟩
              rw [hholds]
              refine Match.Held.append ⟨s.holds.length, ambiguityHold messageId candidate, rfl, ?_, rfl, ?_⟩
              · exact List.getElem?_concat_length
              · simp [Hold.isOpenFor, ambiguityHold]
            · exact hlater row hrow ⟨_, hinsert⟩
          · intro hold hhold
            rcases List.mem_cons.1 hhold with rfl | hhold
            · exact ⟨hambiguous, rfl⟩
            · exact hopened hold hhold
        · next hcertain =>
          obtain ⟨table, hinsert, heq⟩ := Option.map_eq_some_iff.1 hfirst
          obtain ⟨-, rfl⟩ := Prod.mk.inj heq
          have hfalse : ambiguous = false := Bool.eq_false_iff.2 hcertain
          refine ⟨matchRow candidate false none :: rows, holds, ?_, hholds, ?_, hopened⟩
          · rw [hrows, (Table.insert?_eq_some hinsert).2, List.append_assoc]
            rfl
          · intro row hrow
            rcases List.mem_cons.1 hrow with rfl | hrow
            · exact ⟨hnone, rfl, hfalse.symm, ⟨candidate, List.mem_cons_self, rfl, rfl, hknown⟩,
                fun htrue => absurd htrue hcertain⟩
            · exact hlater row hrow ⟨_, hinsert⟩
      · cases hfirst

/-- The foreign keys of the rows these candidates would add. -/
def allKnown (known : MatchCandidate → Bool) : List Uuid → List MatchCandidate → Bool
  | _, [] => true
  | seen, candidate :: candidates =>
    (matchAuthorityKey candidate ∈ seen || known candidate) &&
      allKnown known (matchAuthorityKey candidate :: seen) candidates

/-- An import that is not rolled back met every foreign key. -/
theorem allKnown_of_recordCandidates {seen : List Uuid} {holdIds : List HoldId}
    (hseen : ∀ row ∈ s.matches_, row.key ∈ seen)
    (h : recordCandidates known messageId ambiguous candidates s = some (holdIds, s')) :
    allKnown known seen candidates = true := by
  induction candidates generalizing s holdIds seen with
  | nil => rfl
  | cons candidate candidates ih =>
    simp only [recordCandidates, Option.bind_eq_bind, Option.bind_eq_some_iff] at h
    obtain ⟨⟨holdId, middle⟩, hfirst, ⟨restIds, last⟩, hrest, heq⟩ := h
    obtain ⟨-, rfl⟩ := Prod.mk.inj (Option.some.inj heq)
    simp only [allKnown, Bool.and_eq_true, Bool.or_eq_true, decide_eq_true_eq]
    have hmiddle : ∀ row ∈ middle.matches_, row ∈ s.matches_ ∨ row.key = matchAuthorityKey candidate := by
      unfold recordCandidate at hfirst
      split at hfirst
      · obtain ⟨-, rfl⟩ := Prod.mk.inj (Option.some.inj hfirst)
        exact fun row hrow => .inl hrow
      · split at hfirst
        · split at hfirst
          all_goals
            obtain ⟨table, hinsert, heq⟩ := Option.map_eq_some_iff.1 hfirst
            obtain ⟨-, rfl⟩ := Prod.mk.inj heq
            intro row hrow
            rcases (Table.mem_insert? hinsert).1 hrow with hrow | rfl
            · exact .inl hrow
            · exact .inr rfl
        · cases hfirst
    constructor
    · unfold recordCandidate at hfirst
      split at hfirst
      · next found hfound =>
        obtain ⟨hmem, hkey⟩ := Table.find?_eq_some.1 hfound
        exact .inl (hkey ▸ hseen found hmem)
      · split at hfirst
        · next hknown => exact .inr hknown
        · cases hfirst
    · apply ih _ hrest
      intro row hrow
      rcases hmiddle row hrow with hrow | hkey
      · exact List.mem_cons_of_mem _ (hseen row hrow)
      · rw [hkey]
        exact List.mem_cons_self

end Recording

/-! ## Imports -/

def newKeys (rows : MatchTable) (candidates : List MatchCandidate) : List Uuid :=
  (candidates.map matchAuthorityKey).filter fun key => (rows.find? key).isNone

/-- The import adds a match beside an unresolved one that no hold of the ambiguity covers: one
recorded while it was the only candidate, or any once a person has chosen. -/
def leavesUnheld (s : Store) : Input → Bool
  | .importMatches candidates named fenced =>
    let directSend := isDirectSend s.message fenced
    let found := importedCandidates directSend candidates named
    let rows := s.stored.matches_
    !(directSend && s.directSendApplied ≠ []) &&
      allKnown s.known (rows.rows.map Match.key) found &&
      newKeys rows found ≠ [] &&
      1 < ((unresolved rows).map Match.key ++ newKeys rows found).dedup.length &&
      (resolvedAlready rows || (unresolved rows).any fun row => !row.ambiguous)
  | _ => false

section Imports

variable {s : Store} {recorded : RecordedMatches} {stored : MatchStore}
  {found : List MatchCandidate}

theorem resolvedAlready_eq_true {rows : MatchTable} :
    resolvedAlready rows = true ↔ ∃ row ∈ rows, row.selected.isSome = true := by
  simp only [resolvedAlready, List.any_eq_true]
  exact Iff.rfl

theorem selected_none {rows : MatchTable} (hopen : resolvedAlready rows = false) {row : Match}
    (hrow : row ∈ rows) : row.selected = none := by
  cases hselected : row.selected with
  | none => rfl
  | some chosen =>
    rw [resolvedAlready_eq_true.2 ⟨row, hrow, by simp [hselected]⟩] at hopen
    cases hopen

theorem Sound.imported (h : Sound s)
    (hrecord : recordMatches s.known s.message.id found s.stored = some (recorded, stored))
    (hheld : newKeys s.stored.matches_ found ≠ [] →
      1 < ((unresolved s.stored.matches_).map Match.key
        ++ newKeys s.stored.matches_ found).dedup.length →
      resolvedAlready s.stored.matches_ = false ∧
        ∀ row ∈ unresolved s.stored.matches_, row.ambiguous = true) :
    Sound { s with stored := stored } := by
  obtain ⟨⟨holdIds, stored'⟩, hcandidates, heq⟩ := Option.map_eq_some_iff.1 hrecord
  obtain ⟨-, rfl⟩ := Prod.mk.inj heq
  obtain ⟨rows, holds, hrows, hholds, hadded, hopened⟩ := recordCandidates_spec hcandidates
  have hmem : ∀ row, row ∈ stored'.matches_ ↔ row ∈ s.stored.matches_ ∨ row ∈ rows := by
    intro row
    rw [← Table.mem_rows, hrows, List.mem_append]
    exact Iff.rfl
  have hkey : ∀ row ∈ rows, row.key ∈ newKeys s.stored.matches_ found := by
    intro row hrow
    have hwhy := hadded row hrow
    obtain ⟨candidate, hcandidate, hauthority, -⟩ := hwhy.candidate
    refine List.mem_filter.2 ⟨?_, by simp [hwhy.fresh]⟩
    rw [Match.key, ← hauthority]
    exact List.mem_map_of_mem hcandidate
  have hunresolved : unresolved stored'.matches_ = unresolved s.stored.matches_ ++ rows := by
    unfold unresolved
    rw [hrows, List.filter_append]
    congr 1
    exact List.filter_eq_self.2 fun row hrow => by simp [(hadded row hrow).selected]
  have hresolved : resolvedAlready stored'.matches_ = resolvedAlready s.stored.matches_ := by
    unfold resolvedAlready
    rw [hrows, List.any_append]
    have hnone : (rows.any fun row => row.selected.isSome) = false := by
      rw [List.any_eq_false]
      intro row hrow
      simp [(hadded row hrow).selected]
    rw [hnone, Bool.or_false]
  have hold : ∀ row ∈ unresolved s.stored.matches_, row.ambiguous = true →
      row.Held s.message.id stored'.holds := by
    intro row hrow hmarked
    rw [hholds]
    exact (h.marked row hrow hmarked).append
  refine ⟨⟨?_, ?_, ?_, ?_⟩, h.incoming, ?_, ?_⟩
  · -- Two unresolved rows, one of them new: the call itself found the message ambiguous.
    show 2 ≤ (unresolved stored'.matches_).length → ∀ row ∈ unresolved stored'.matches_, _
    rw [hunresolved]
    intro htwo row hrow
    cases hnew : rows with
    | nil =>
      rw [hnew, List.append_nil] at htwo hrow
      exact ⟨(h.held.held htwo row hrow).1, hold row hrow (h.held.held htwo row hrow).1⟩
    | cons first rest =>
      have hfirst : first ∈ rows := by rw [hnew]; exact List.mem_cons_self
      have hne : newKeys s.stored.matches_ found ≠ [] := List.ne_nil_of_mem (hkey first hfirst)
      have hnodup : ((unresolved s.stored.matches_ ++ rows).map Match.key).Nodup := by
        rw [← hunresolved]
        exact stored'.matches_.nodup_filter _
      have hsubset : (unresolved s.stored.matches_ ++ rows).map Match.key
          ⊆ ((unresolved s.stored.matches_).map Match.key
            ++ newKeys s.stored.matches_ found).dedup := by
        intro key hmem
        rw [List.map_append, List.mem_append] at hmem
        rw [List.mem_dedup, List.mem_append]
        refine hmem.imp id fun hmem => ?_
        obtain ⟨row, hrow, rfl⟩ := List.mem_map.1 hmem
        exact hkey row hrow
      have hlength := (List.subperm_of_subset hnodup hsubset).length_le
      rw [List.length_map] at hlength
      obtain ⟨hopen, hmarked⟩ := hheld hne (by omega)
      have hambiguous : isAmbiguous s.stored.matches_ found = true := by
        have hwider : ((unresolved s.stored.matches_).map Match.key
            ++ newKeys s.stored.matches_ found).dedup
            ⊆ ((unresolved s.stored.matches_).map Match.key
              ++ found.map matchAuthorityKey).dedup := by
          intro key hmem
          rw [List.mem_dedup, List.mem_append] at hmem ⊢
          exact hmem.imp id fun hmem => (List.mem_filter.1 hmem).1
        have := (List.subperm_of_subset (List.nodup_dedup _) hwider).length_le
        simp only [isAmbiguous, hopen, Bool.not_false, Bool.true_and, decide_eq_true_eq]
        omega
      rcases List.mem_append.1 hrow with hrow | hrow
      · exact ⟨hmarked row hrow, hold row hrow (hmarked row hrow)⟩
      · have hwhy := hadded row hrow
        exact ⟨hwhy.marked.trans hambiguous, hwhy.held hambiguous⟩
  · show (stored'.matches_.rows.filter fun row => row.selected = some true).length ≤ 1
    have hnone : rows.filter (fun row => row.selected = some true) = [] := by
      rw [List.filter_eq_nil_iff]
      intro row hrow
      simp [(hadded row hrow).selected]
    rw [hrows, List.filter_append, hnone, List.append_nil]
    exact h.held.selected
  · show resolvedAlready stored'.matches_ = true → ∀ hold ∈ stored'.holds, _
    rw [hresolved, hholds]
    intro htrue hold hmem
    rcases List.mem_append.1 hmem with hmem | hmem
    · exact h.held.released htrue hold hmem
    · have := (hopened hold hmem).1
      simp [isAmbiguous, htrue] at this
  · refine ⟨h.held.directSend.1, fun firmId hfirm row hrow hselected => ?_⟩
    rcases (hmem row).1 hrow with hrow | hrow
    · exact h.held.directSend.2 firmId hfirm row hrow hselected
    · rw [(hadded row hrow).selected] at hselected
      cases hselected
  · show ∀ row ∈ unresolved stored'.matches_, _
    rw [hunresolved]
    intro row hrow hmarked
    rcases List.mem_append.1 hrow with hrow | hrow
    · exact hold row hrow hmarked
    · have hwhy := hadded row hrow
      exact hwhy.held (hwhy.marked.symm.trans hmarked)
  · intro row hrow
    rcases (hmem row).1 hrow with hrow | hrow
    · exact h.refers row hrow
    · obtain ⟨candidate, -, hauthority, hfirm, hknown⟩ := (hadded row hrow).candidate
      simp only [Store.known, hauthority, hfirm] at hknown
      exact hknown

end Imports

/-! ## Holds and releases -/

section Holds

variable {messageId : Uuid} {reason : HoldReasonCode} {now : Instant} {holds : List Hold}

theorem closed_of_release {hold : Hold}
    (h : hold ∈ releaseHoldsOfEvent messageId reason now holds) :
    hold.isOpenFor messageId reason = false := by
  obtain ⟨before, -, rfl⟩ := List.mem_map.1 h
  split
  · simp [Hold.isOpenFor]
  · next hclosed => exact Bool.eq_false_iff.2 hclosed

theorem Hold.not_open_of_isOther {hold : Hold} (h : hold.isOther messageId = true) :
    hold.isOpenFor messageId .ambiguousMatch = false := by
  simp only [Hold.isOther, Bool.or_eq_true, decide_eq_true_eq] at h
  simp only [Hold.isOpenFor, Bool.and_eq_false_iff, decide_eq_false_iff_not]
  tauto

/-- A release of the message's ambiguity leaves every other hold as it was. -/
theorem release_other {id : HoldId} {hold : Hold} (hfind : holds[id]? = some hold)
    (h : hold.isOther messageId = true) :
    (releaseHoldsOfEvent messageId .ambiguousMatch now holds)[id]? = some hold := by
  unfold releaseHoldsOfEvent
  rw [List.getElem?_map, hfind, Option.map_some, if_neg]
  rw [Hold.not_open_of_isOther h]
  nofun

/-- A hold with another reason outlives the release. -/
theorem mem_release {hold : Hold} (h : hold ∈ holds) (hreason : hold.reasonCode ≠ reason) :
    hold ∈ releaseHoldsOfEvent messageId reason now holds := by
  refine List.mem_map.2 ⟨hold, h, if_neg ?_⟩
  simp [Hold.isOpenFor, hreason]

/-- A release of another hold leaves a candidate held. -/
theorem Match.Held.releaseOther {row : Match} (h : row.Held messageId holds) (id : HoldId) :
    row.Held messageId (Matches.releaseOther messageId id now holds) := by
  obtain ⟨own, hold, hid, hfind, hscope, hopen⟩ := h
  refine ⟨own, hold, hid, ?_, hscope, hopen⟩
  have hown : hold.isOther messageId = false := by
    cases hother : hold.isOther messageId with
    | false => rfl
    | true =>
      rw [Hold.not_open_of_isOther hother] at hopen
      cases hopen
  unfold Matches.releaseOther
  rw [List.getElem?_modify, hfind]
  by_cases heq : id = own
  · simp [heq, hown]
  · simp [heq]

/-- What a release of another hold opens: nothing. -/
theorem releaseOther_closed {id : HoldId}
    (h : ∀ hold ∈ holds, hold.isOpenFor messageId .ambiguousMatch = false) :
    ∀ hold ∈ releaseOther messageId id now holds,
      hold.isOpenFor messageId .ambiguousMatch = false := by
  intro hold hmem
  obtain ⟨index, hindex⟩ := List.mem_iff_getElem?.1 hmem
  unfold releaseOther at hindex
  rw [List.getElem?_modify] at hindex
  obtain ⟨before, hbefore, heq⟩ := Option.map_eq_some_iff.1 hindex
  have hwas := h before (List.mem_of_getElem? hbefore)
  split at heq
  · split at heq
    · rw [← heq]
      simp [Hold.isOpenFor]
    · rwa [← heq]
  · rwa [← show before = hold from heq]

end Holds

/-! ## The other steps -/

section Frames

variable {s s' : Store}

/-- A step that leaves the matches, the marker and every foreign key alone. -/
theorem Sound.frame (h : Sound s) (hmessage : s'.message = s.message)
    (hmatches : s'.stored.matches_ = s.stored.matches_)
    (happlied : s'.directSendApplied = s.directSendApplied)
    (hheld : ∀ row : Match, row.Held s.message.id s.stored.holds →
      row.Held s.message.id s'.stored.holds)
    (hclosed : (∀ hold ∈ s.stored.holds, hold.isOpenFor s.message.id .ambiguousMatch = false) →
      ∀ hold ∈ s'.stored.holds, hold.isOpenFor s.message.id .ambiguousMatch = false)
    (hrefers : ∀ row, s.refers row = true → s'.refers row = true) : Sound s' := by
  constructor
  · constructor
    · rw [hmatches, hmessage]
      intro htwo row hrow
      obtain ⟨hmarked, hrowHeld⟩ := h.held.held htwo row hrow
      exact ⟨hmarked, hheld row hrowHeld⟩
    · rw [hmatches]
      exact h.held.selected
    · rw [hmatches, hmessage]
      intro htrue
      exact hclosed (h.held.released htrue)
    · rw [hmatches, happlied]
      exact h.held.directSend
  · rw [hmessage, happlied]
    exact h.incoming
  · rw [hmatches, hmessage]
    intro row hrow hmarked
    exact hheld row (h.marked row hrow hmarked)
  · rw [hmatches]
    intro row hrow
    exact hrefers row (h.refers row hrow)

/-- The one match a direct send may be applied to: the selected one, or the only one. -/
theorem directSendTargetOf_eq_some {rows : MatchTable} {row : Match}
    (h : directSendTargetOf rows = some row) :
    row ∈ rows ∧ (row.selected = some true ∨
      rows.rows = [row] ∧ row.ambiguous = false ∧ row.selected = none) := by
  unfold directSendTargetOf at h
  split at h
  · next chosen hchosen =>
    obtain rfl := Option.some.inj h
    exact ⟨List.mem_of_find?_eq_some hchosen,
      .inl (by simpa using List.find?_some hchosen)⟩
  · split at h
    · cases h
    · next hopen =>
      split at h
      · next only hrows =>
        split at h
        · cases h
        · next hcertain =>
          obtain rfl := Option.some.inj h
          have hmem : only ∈ rows := by
            rw [← Table.mem_rows, hrows]
            exact List.mem_cons_self
          refine ⟨hmem, .inr ⟨hrows, Bool.eq_false_iff.2 hcertain, ?_⟩⟩
          exact selected_none (Bool.eq_false_iff.2 hopen) hmem
      · cases h

/-- At most one match is selected. -/
theorem AmbiguityHeld.selected_eq (h : AmbiguityHeld s) {row other : Match}
    (hrow : row ∈ s.stored.matches_) (hother : other ∈ s.stored.matches_)
    (hsel : row.selected = some true) (hsel' : other.selected = some true) : row = other := by
  have hone := h.selected
  have hin : row ∈ s.stored.matches_.rows.filter fun row => row.selected = some true :=
    List.mem_filter.2 ⟨hrow, by simp [hsel]⟩
  have hin' : other ∈ s.stored.matches_.rows.filter fun row => row.selected = some true :=
    List.mem_filter.2 ⟨hother, by simp [hsel']⟩
  generalize (s.stored.matches_.rows.filter fun row => row.selected = some true) = chosen
    at hone hin hin'
  rcases chosen with _ | ⟨only, _ | ⟨second, rest⟩⟩
  · cases hin
  · rw [List.mem_singleton.1 hin, List.mem_singleton.1 hin']
  · simp only [List.length_cons] at hone
    omega

/-- The effect of a direct send, and where it is applied. -/
theorem applyDirectSendEffects_spec (firmId : FirmId) (beforeAccount : Bool) (s : Store) :
    (applyDirectSendEffects firmId beforeAccount s = s) ∨
      s.directSendApplied = [] ∧
        applyDirectSendEffects firmId beforeAccount s = { s with directSendApplied := [firmId] } := by
  unfold applyDirectSendEffects
  split
  · exact .inl rfl
  · next hnot =>
    simp only [Bool.or_eq_true, decide_eq_true_eq, not_or, not_not] at hnot
    exact .inr ⟨hnot.1, rfl⟩

theorem Sound.importDirectSend (h : Sound s) (hdirection : s.message.direction = .outgoing)
    (beforeAccount : Bool) : Sound (importDirectSend beforeAccount s) := by
  unfold Matches.importDirectSend
  split
  · exact h
  · next only htarget =>
    obtain ⟨hmem, hwhy⟩ := directSendTargetOf_eq_some htarget
    rcases applyDirectSendEffects_spec only.firmId beforeAccount s with heq | ⟨hnone, heq⟩
    · rw [heq]
      exact h
    · rw [heq]
      refine ⟨⟨h.held.held, h.held.selected, h.held.released, by simp, ?_⟩, ?_, h.marked, h.refers⟩
      · intro firmId hfirm row hrow hselected
        rw [List.mem_singleton.1 hfirm]
        rcases hwhy with hchosen | ⟨hrows, -, hunresolved⟩
        · rw [h.held.selected_eq hrow hmem hselected hchosen]
        · have hrow : row ∈ s.stored.matches_.rows := hrow
          rw [hrows, List.mem_singleton] at hrow
          rw [hrow, hunresolved] at hselected
          cases hselected
      · intro hincoming
        rw [show s.message.direction = .incoming from hincoming] at hdirection
        cases hdirection

end Frames

/-! ## Resolution -/

section Resolution

variable {s s' : Store} {c : ResolveContext} {input : ResolveInput} {selected : Match}
  {resolution : AmbiguityResolution} {releasing : List Store}

/-- An opportunity stays at its firm. -/
theorem setManualControlMode_firm {context : Pipeline.Context} {manual : Pipeline.ManualInput}
    {crm crm' : Pipeline.Store} {written : Pipeline.Opportunity}
    (h : Pipeline.setManualControlMode context manual crm = .accept written crm') {id : Uuid}
    {o : Pipeline.Opportunity} (hfind : crm.opportunities.find? id = some o) :
    ∃ o', crm'.opportunities.find? id = some o' ∧ o'.firmId = o.firmId := by
  have hput : ∀ before after : Pipeline.Opportunity,
      crm.opportunities.find? manual.opportunityId = some before → after.id = before.id →
      after.firmId = before.firmId →
      ∃ o', (crm.opportunities.put after).find? id = some o' ∧ o'.firmId = o.firmId := by
    intro before after hbefore hid hfirm
    by_cases heq : id = after.id
    · have hkey : before.id = manual.opportunityId := Table.find?_key hbefore
      rw [heq, Table.find?_put_self ⟨before, (Table.find?_eq_some.1 hbefore).1, hid.symm⟩]
      rw [heq, hid, hkey, hbefore] at hfind
      exact ⟨after, rfl, hfirm.trans (congrArg _ (Option.some.inj hfind))⟩
    · rw [Table.find?_put_ne heq, hfind]
      exact ⟨o, rfl, rfl⟩
  unfold Pipeline.setManualControlMode at h
  split at h
  · cases h
  · split at h
    · cases h
    · next before hbefore =>
      split at h
      · cases h
      · split at h
        · cases h
        · split at h
          · cases h
          · split at h
            · split at h
              · split at h
                · cases h
                · next crm'' hwrite =>
                  obtain rfl := Pipeline.writeOpportunity_spec hwrite
                  cases h
                  exact hput before _ hbefore rfl rfl
              · cases h
                exact ⟨o, hfind, rfl⟩
            · split at h
              · cases h
              · next crm'' hwrite =>
                obtain rfl := Pipeline.writeOpportunity_spec hwrite
                cases h
                exact hput before _ hbefore rfl rfl

/-- The rule a resolution has asked of the firm is not refused when it is asked again. -/
theorem setManualControlMode_not_refused {context : Pipeline.Context}
    {manual : Pipeline.ManualInput} {crm : Pipeline.Store} {o : Pipeline.Opportunity}
    {firm : FirmRow} (horigin : Pipeline.isWritableManualModeOrigin manual.origin = true)
    (hfind : crm.opportunities.find? manual.opportunityId = some o)
    (hfirm : crm.firms.find? o.firmId = some firm)
    (hpermitted : decideFirmMutation context.actor firm = none)
    (hreason : trim manual.reason ≠ []) (reason : Pipeline.PipelineRefusal) :
    Pipeline.setManualControlMode context manual crm ≠ .refuse reason := by
  unfold Pipeline.setManualControlMode
  simp only [horigin, hfind, hfirm, hpermitted, hreason, Bool.not_true, Bool.false_eq_true, if_false]
  split
  · split
    · split
      all_goals
        intro h
        cases h
    · intro h
      cases h
  · split
    all_goals
      intro h
      cases h

theorem mem_selectMatch {rows : MatchTable} {key : Uuid} (hopen : resolvedAlready rows = false)
    {row' : Match} : row' ∈ selectMatch key c rows ↔ ∃ row ∈ rows, row' = { row with
      selected := some (decide (row.key = key))
      resolvedAt := some c.now
      resolvedByUserId := c.actor.userId } := by
  unfold selectMatch
  refine Table.mem_update.trans ?_
  apply exists_congr
  intro row
  apply and_congr_right
  intro hrow
  rw [if_pos (by simp [selected_none hopen hrow])]

/-- What the rest of a resolution leaves of the rows, the holds, the marker and the references. -/
structure Settled (s s' : Store) (selected : Match) : Prop where
  message : s'.message = s.message
  rows : ∀ row' ∈ s'.stored.matches_, ∃ row ∈ s.stored.matches_, row'.authority = row.authority ∧
    row'.firmId = row.firmId ∧ row'.selected = some (decide (row.key = selected.key))
  holds : ∃ more now, s'.stored.holds
    = releaseHoldsOfEvent s.message.id .ambiguousMatch now (s.stored.holds ++ more)
  refers : ∀ row, s.refers row = true → s'.refers row = true

theorem Settled.closed (h : Settled s s' selected) {hold : Hold} (hmem : hold ∈ s'.stored.holds) :
    hold.isOpenFor s.message.id .ambiguousMatch = false := by
  obtain ⟨more, now, hholds⟩ := h.holds
  rw [hholds] at hmem
  exact closed_of_release hmem

theorem Settled.others (h : Settled s s' selected) {id : HoldId} {hold : Hold}
    (hfind : s.stored.holds[id]? = some hold) (hother : hold.isOther s.message.id = true) :
    s'.stored.holds[id]? = some hold := by
  obtain ⟨more, now, hholds⟩ := h.holds
  obtain ⟨hlt, -⟩ := List.getElem?_eq_some_iff.1 hfind
  rw [hholds]
  apply release_other _ hother
  rw [List.getElem?_append_left hlt, hfind]

theorem Settled.selected_iff (h : Settled s s' selected) (hselected : selected ∈ s.stored.matches_)
    {row' : Match} (hrow' : row' ∈ s'.stored.matches_) :
    (row'.selected = some true ∧ row'.authority = selected.authority ∧
        row'.firmId = selected.firmId) ∨
      row'.selected = some false := by
  obtain ⟨row, hrow, hauthority, hfirm, hsel⟩ := h.rows row' hrow'
  by_cases hkey : row.key = selected.key
  · obtain rfl := Table.eq_of_key_eq hrow hselected hkey
    exact .inl ⟨by rw [hsel, decide_eq_true hkey], hauthority, hfirm⟩
  · exact .inr (by rw [hsel, decide_eq_false hkey])

theorem Sound.settled (h : Sound s) (hsettled : Settled s s' selected)
    (hselected : selected ∈ s.stored.matches_)
    (happlied : s'.directSendApplied.length ≤ 1 ∧
      ∀ firmId ∈ s'.directSendApplied, firmId = selected.firmId)
    (hincoming : s.message.direction = .incoming → s'.directSendApplied = []) : Sound s' := by
  have hnone : unresolved s'.stored.matches_ = [] := by
    apply List.filter_eq_nil_iff.2
    intro row hrow
    rcases hsettled.selected_iff hselected hrow with ⟨hsel, -⟩ | hsel
    · simp [hsel]
    · simp [hsel]
  refine ⟨⟨?_, ?_, ?_, happlied.1, ?_⟩, ?_, ?_, ?_⟩
  · rw [hnone]
    intro htwo
    cases htwo
  · -- Every selected row has the key of the one named.
    have hkey : ∀ row ∈ s'.stored.matches_, row.selected = some true → row.key = selected.key := by
      intro row hrow hsel
      rcases hsettled.selected_iff hselected hrow with ⟨-, hauthority, -⟩ | hfalse
      · exact congrArg MatchAuthority.id hauthority
      · rw [hfalse] at hsel
        cases hsel
    apply Table.filter_length_le_one
    intro row hrow other hother hsel hsel'
    exact (hkey row hrow (by simpa using hsel)).trans (hkey other hother (by simpa using hsel')).symm
  · rw [hsettled.message]
    exact fun _ hold hmem => hsettled.closed hmem
  · intro firmId hfirm row hrow hsel
    rcases hsettled.selected_iff hselected hrow with ⟨-, -, heq⟩ | hfalse
    · rw [heq, happlied.2 firmId hfirm]
    · rw [hfalse] at hsel
      cases hsel
  · rw [hsettled.message]
    exact hincoming
  · rw [hnone]
    intro row hrow
    cases hrow
  · intro row hrow
    obtain ⟨before, hbefore, hauthority, hfirm, -⟩ := hsettled.rows row hrow
    have hrefers := hsettled.refers before (h.refers before hbefore)
    unfold Store.refers at hrefers ⊢
    rw [hauthority, hfirm]
    exact hrefers

theorem mem_pointAt {keeper : HoldId} {row' : Match} :
    row' ∈ (pointAt selected keeper s).stored.matches_ ↔ ∃ row ∈ s.stored.matches_,
      row' = if row.key = selected.key then { row with holdId := some keeper } else row := by
  change row' ∈ s.stored.matches_.update (fun row => row.key = selected.key)
    (fun row => { row with holdId := some keeper }) (fun _ => rfl) ↔ _
  refine Table.mem_update.trans ?_
  simp only [decide_eq_true_eq]

theorem takeOverPlan_refers {id : Uuid} {row : Match} (h : s.refers row = true) :
    (takeOverPlan id s).refers row = true := by
  unfold Store.refers at h ⊢
  split at h
  · exact h
  · next planId hauthority =>
    obtain ⟨plan, hplan, hfirm⟩ := Option.any_eq_true _ _ |>.1 h
    have hupdate : (takeOverPlan id s).plans.find? planId = (s.plans.find? planId).map
        fun plan => if decide (plan.id = id) then { plan with state := .manual } else plan := by
      show (s.plans.update (fun plan => plan.id = id)
        (fun plan => { plan with state := .manual }) fun _ => rfl).find? planId = _
      rw [Table.find?_update]
    rw [hupdate, hplan, Option.map_some, Option.any_some]
    split
    · exact hfirm
    · exact hfirm

variable (c input) in
/-- How the rest of a resolution of a reply ends. -/
theorem resolveIncoming_spec (hrefers : s.refers selected = true) {firm : FirmRow}
    (hfirm : s.crm.firms.find? selected.firmId = some firm)
    (hpermitted : decideFirmMutation c.actor firm = none) :
    resolveIncoming c input selected s = .raise ∨
      ∃ resolution rest s', resolveIncoming c input selected s
          = .accept resolution (keepSelected selected s :: rest) s' ∧
        resolution.selected = selected.authority ∧ s' ∈ keepSelected selected s :: rest ∧
        (∀ t ∈ keepSelected selected s :: rest, keeperHold s.message.id selected ∈ t.stored.holds) ∧
        s'.message = s.message ∧ s'.directSendApplied = s.directSendApplied ∧
        s'.stored.holds = releaseHoldsOfEvent s.message.id .ambiguousMatch c.now
          (s.stored.holds ++ [keeperHold s.message.id selected]) ∧
        (∃ keeper, s'.stored.matches_ = (pointAt selected keeper s).stored.matches_) ∧
        ∀ row, s.refers row = true → s'.refers row = true := by
  have hheld : keeperHold s.message.id selected ∈ (keepSelected selected s).stored.holds :=
    List.mem_append_right _ List.mem_cons_self
  have hreleased : keeperHold s.message.id selected
      ∈ ((keepSelected selected s).release c.now).stored.holds := mem_release hheld nofun
  have hlast : ∀ keeper last, ∀ t ∈ [keepSelected selected s,
      (keepSelected selected s).release c.now,
      pointAt selected keeper ((keepSelected selected s).release c.now), last],
      last.stored.holds = ((keepSelected selected s).release c.now).stored.holds →
      keeperHold s.message.id selected ∈ t.stored.holds := by
    intro keeper last t ht heq
    simp only [List.mem_cons, List.not_mem_nil, or_false] at ht
    rcases ht with rfl | rfl | rfl | rfl
    · exact hheld
    · exact hreleased
    · exact hreleased
    · rwa [heq]
  have hthree : ∀ keeper, ∀ t ∈ [keepSelected selected s, (keepSelected selected s).release c.now,
      pointAt selected keeper ((keepSelected selected s).release c.now)],
      keeperHold s.message.id selected ∈ t.stored.holds := by
    intro keeper t ht
    exact hlast keeper ((keepSelected selected s).release c.now) t
      (List.mem_append_left [(keepSelected selected s).release c.now] ht) rfl
  unfold resolveIncoming
  simp only []
  split
  · next id hauthority =>
    have hreason : trim (js "confirmed human reply") ≠ [] := by decide
    have hnever : ∀ reason, Pipeline.setManualControlMode ⟨c.actor, c.now, c.newId⟩
        ⟨id, js "confirmed human reply", .humanReply, none⟩ s.crm ≠ .refuse reason := by
      unfold Store.refers at hrefers
      rw [hauthority] at hrefers
      obtain ⟨o, ho, hat⟩ := Option.any_eq_true _ _ |>.1 hrefers
      rw [decide_eq_true_eq] at hat
      exact setManualControlMode_not_refused rfl ho (hat ▸ hfirm) hpermitted hreason
    split
    · split
      · next crm hmanual =>
        refine .inr ⟨_, _, _, rfl, rfl, by simp, fun t ht => hlast _ _ t ht rfl, rfl, rfl, rfl,
          ⟨_, rfl⟩, ?_⟩
        intro row hrow
        unfold Store.refers at hrow ⊢
        split at hrow
        · next other _ =>
          obtain ⟨o, ho, hat⟩ := Option.any_eq_true _ _ |>.1 hrow
          obtain ⟨o', ho', hsame⟩ := setManualControlMode_firm hmanual ho
          show (crm.opportunities.find? other).any _ = true
          rw [ho', Option.any_some, hsame]
          exact hat
        · exact hrow
      · next hrefused => exact absurd hrefused (hnever _)
      · next hrefused => exact absurd hrefused (hnever _)
      · exact .inl rfl
    · exact .inr ⟨_, _, _, rfl, rfl, by simp, hthree _, rfl, rfl, rfl, ⟨_, rfl⟩,
        fun _ hrow => hrow⟩
  · split
    · exact .inr ⟨_, _, _, rfl, rfl, by simp, fun t ht => hlast _ _ t ht rfl, rfl, rfl, rfl, ⟨_, rfl⟩,
        fun _ hrow => takeOverPlan_refers hrow⟩
    · exact .inr ⟨_, _, _, rfl, rfl, by simp, hthree _, rfl, rfl, rfl, ⟨_, rfl⟩,
        fun _ hrow => hrow⟩

/-- What settling the rows after a selection did, for the message, its holds and its rows. -/
theorem Settled.resolves (h : Settled s s' selected) (hselected : selected ∈ s.stored.matches_)
    (hresolution : resolution.selected = selected.authority)
    (hrow : ∃ row ∈ s'.stored.matches_, row.key = selected.key)
    (hkept : s.message.direction = .incoming →
      (∃ before rest, releasing = before :: rest ∧ s.stored.holds <+: before.stored.holds) ∧
      s' ∈ releasing ∧ ∀ t ∈ releasing, keeperHold s.message.id selected ∈ t.stored.holds) :
    Resolves s resolution releasing s' := by
  refine ⟨?_, fun hold hmem => h.closed hmem, fun id hold hfind hother => h.others hfind hother, ?_⟩
  · obtain ⟨row', hrow', hkey⟩ := hrow
    obtain ⟨row, hrow, hauthority, -, hsel⟩ := h.rows row' hrow'
    have hkey : row.key = selected.key := by
      rw [← hkey, Match.key, Match.key, hauthority]
    obtain rfl := Table.eq_of_key_eq hrow hselected hkey
    exact ⟨row', hrow', hauthority.trans hresolution.symm, by simpa using hsel⟩
  · intro hincoming
    obtain ⟨hfirst, hlast, hall⟩ := hkept hincoming
    refine ⟨hfirst, hlast, selected, hselected, hresolution.symm, fun t ht => ?_⟩
    exact ⟨_, hall t ht, rfl, rfl, rfl⟩

/-- A resolution that is accepted, and all that is true of it. -/
def Completes (s : Store) (resolved : Resolved) : Prop :=
  ∃ resolution releasing s', resolved = .accept resolution releasing s' ∧ Sound s' ∧
    s'.message = s.message ∧ Resolves s resolution releasing s' ∧
    (s'.directSendApplied = s.directSendApplied ∨ s.directSendApplied = [] ∧
      ∃ row ∈ s'.stored.matches_, s'.directSendApplied = [row.firmId] ∧ row.selected = some true)

section Selected

variable (hopen : resolvedAlready s.stored.matches_ = false)
  (hselected : selected ∈ s.stored.matches_)
include hopen

theorem selectMatch_rows {row' : Match}
    (hrow' : row' ∈ selectMatch selected.key c s.stored.matches_) :
    ∃ row ∈ s.stored.matches_, row'.authority = row.authority ∧ row'.firmId = row.firmId ∧
      row'.selected = some (decide (row.key = selected.key)) := by
  obtain ⟨row, hrow, rfl⟩ := (mem_selectMatch hopen).1 hrow'
  exact ⟨row, hrow, rfl, rfl, rfl⟩

include hselected

theorem selectMatch_selected : ∃ row ∈ selectMatch selected.key c s.stored.matches_,
    row.key = selected.key ∧ row.firmId = selected.firmId ∧ row.selected = some true :=
  ⟨_, (mem_selectMatch hopen).2 ⟨selected, hselected, rfl⟩, rfl, rfl, by simp⟩

theorem resolveOutgoing_completes (h : Sound s) (houtgoing : s.message.direction = .outgoing)
    (happlicable : s.directSendApplied = [] ∨ selected.firmId ∈ s.directSendApplied) :
    Completes s (resolveOutgoing c selected
      (s.withMatches (selectMatch selected.key c s.stored.matches_))) := by
  obtain ⟨picked, hpicked, hkey, hpickedFirm, hpickedSel⟩ :=
    selectMatch_selected (c := c) hopen hselected
  let chosen := s.withMatches (selectMatch selected.key c s.stored.matches_)
  have hsettled : ∀ s' : Store, s'.message = s.message → s'.stored = (chosen.release c.now).stored →
      s'.crm = s.crm → s'.plans = s.plans → Settled s s' selected := by
    intro s' hmessage hstored hcrm hplans
    refine ⟨hmessage, ?_, ⟨[], c.now, ?_⟩, ?_⟩
    · rw [hstored]
      exact fun row' hrow' => selectMatch_rows hopen hrow'
    · rw [hstored, List.append_nil]
      rfl
    · intro row hrow
      unfold Store.refers at hrow ⊢
      rw [hcrm, hplans]
      exact hrow
  have hnever : s.message.direction = .incoming → False := by
    rw [houtgoing]
    nofun
  have hresolves : ∀ releasing s', Settled s s' selected →
      s'.stored = (chosen.release c.now).stored →
      Resolves s ⟨selected.authority, chosen.releasable, none⟩ releasing s' := by
    intro releasing s' hset hstored
    refine hset.resolves hselected rfl ⟨picked, ?_, hkey⟩ fun hin => (hnever hin).elim
    rw [hstored]
    exact hpicked
  have hone : ∀ firmId ∈ s.directSendApplied, firmId = selected.firmId := by
    intro firmId hfirm
    have hlength := h.held.directSend.1
    generalize s.directSendApplied = applied at happlicable hlength hfirm
    rcases applied with _ | ⟨only, _ | ⟨second, rest⟩⟩
    · cases hfirm
    · have hsame : selected.firmId = only := by simpa using happlicable
      rw [hsame, List.mem_singleton.1 hfirm]
    · simp only [List.length_cons] at hlength
      omega
  refine ⟨_, _, _, rfl, ?_⟩
  have heffect : (if c.fenced then chosen.release c.now
      else applyDirectSendEffects selected.firmId c.beforeAccount (chosen.release c.now))
        = chosen.release c.now ∨ s.directSendApplied = [] ∧
      (if c.fenced then chosen.release c.now
        else applyDirectSendEffects selected.firmId c.beforeAccount (chosen.release c.now))
        = { chosen.release c.now with directSendApplied := [selected.firmId] } := by
    split
    · exact .inl rfl
    · exact applyDirectSendEffects_spec selected.firmId c.beforeAccount (chosen.release c.now)
  rcases heffect with heq | ⟨hnone, heq⟩
  · rw [heq]
    have hset := hsettled (chosen.release c.now) rfl rfl rfl rfl
    exact ⟨h.settled hset hselected ⟨h.held.directSend.1, hone⟩ fun hin => (hnever hin).elim, rfl,
      hresolves _ _ hset rfl, .inl rfl⟩
  · rw [heq]
    have hset := hsettled { chosen.release c.now with directSendApplied := [selected.firmId] }
      rfl rfl rfl rfl
    refine ⟨h.settled hset hselected ⟨Nat.le_refl _, by simp⟩ fun hin => (hnever hin).elim, rfl,
      hresolves _ _ hset rfl, .inr ⟨hnone, picked, hpicked, ?_, hpickedSel⟩⟩
    rw [hpickedFirm]

theorem resolveIncoming_completes (h : Sound s) (hincoming : s.message.direction = .incoming)
    {firm : FirmRow} (hfirm : s.crm.firms.find? selected.firmId = some firm)
    (hpermitted : decideFirmMutation c.actor firm = none) :
    resolveIncoming c input selected
        (s.withMatches (selectMatch selected.key c s.stored.matches_)) = .raise ∨
      Completes s (resolveIncoming c input selected
        (s.withMatches (selectMatch selected.key c s.stored.matches_))) := by
  let chosen := s.withMatches (selectMatch selected.key c s.stored.matches_)
  have hrefers : chosen.refers selected = true := h.refers selected hselected
  rcases resolveIncoming_spec c input hrefers hfirm hpermitted with hraise | hspec
  · exact .inl hraise
  · obtain ⟨resolution, rest, s', haccept, hresolution, hlast, hall, hmessage, happlied, hholds,
      ⟨keeper, hmatches⟩, hkept⟩ := hspec
    right
    have hset : Settled s s' selected := by
      refine ⟨hmessage, ?_, ⟨_, _, hholds⟩, hkept⟩
      intro row' hrow'
      rw [hmatches] at hrow'
      obtain ⟨row, hrow, rfl⟩ := mem_pointAt.1 hrow'
      obtain ⟨before, hbefore, hauthority, hat, hsel⟩ := selectMatch_rows hopen hrow
      refine ⟨before, hbefore, ?_⟩
      split
      · exact ⟨hauthority, hat, hsel⟩
      · exact ⟨hauthority, hat, hsel⟩
    have hnone : s'.directSendApplied = [] := happlied.trans (h.incoming hincoming)
    refine ⟨resolution, _, s', haccept, h.settled hset hselected ?_ fun _ => hnone, hmessage, ?_,
      .inl happlied⟩
    · rw [hnone]
      exact ⟨Nat.zero_le _, nofun⟩
    · apply hset.resolves hselected hresolution
      · obtain ⟨picked, hpicked, hkey, -⟩ := selectMatch_selected (c := c) hopen hselected
        rw [hmatches]
        refine ⟨_, mem_pointAt.2 ⟨picked, hpicked, rfl⟩, ?_⟩
        rw [if_pos hkey]
        exact hkey
      · exact fun _ => ⟨⟨_, _, rfl, List.prefix_append _ _⟩, hlast, hall⟩

end Selected

variable (c input) in
/-- A resolution writes nothing, or settles every row on the one it names. -/
theorem resolveAmbiguity_spec (h : Sound s) :
    resolveAmbiguity c input s = .raise ∨ (∃ reason, resolveAmbiguity c input s = .refuse reason s) ∨
      resolvedAlready s.stored.matches_ = false ∧ Completes s (resolveAmbiguity c input s) := by
  unfold resolveAmbiguity
  split
  · exact .inr (.inl ⟨_, rfl⟩)
  split
  · exact .inr (.inl ⟨_, rfl⟩)
  split
  · exact .inr (.inl ⟨_, rfl⟩)
  next hresolved =>
  have hopen : resolvedAlready s.stored.matches_ = false := Bool.eq_false_iff.2 hresolved
  split
  · exact .inr (.inl ⟨_, rfl⟩)
  next selected hfind =>
  have hselected : selected ∈ s.stored.matches_ := List.mem_of_find?_eq_some hfind
  split
  · exact .inr (.inl ⟨_, rfl⟩)
  split
  · exact .inr (.inl ⟨_, rfl⟩)
  next firm hfirm =>
  split
  · exact .inr (.inl ⟨_, rfl⟩)
  · exact .inr (.inl ⟨_, rfl⟩)
  next hpermitted =>
  split
  · exact .inr (.inl ⟨_, rfl⟩)
  next happlicable =>
  have hall : (unresolved s.stored.matches_).length = s.stored.matches_.rows.length := by
    refine congrArg List.length (List.filter_eq_self.2 fun row hrow => ?_)
    rw [selected_none hopen hrow]
    rfl
  simp only [hall, ne_eq, not_true_eq_false, if_false]
  split
  · next houtgoing =>
    refine .inr (.inr ⟨hopen, resolveOutgoing_completes hopen hselected h houtgoing ?_⟩)
    by_contra hnot
    rw [not_or] at hnot
    exact happlicable (by simp [houtgoing, hnot.1, hnot.2])
  · next hincoming =>
    rcases resolveIncoming_completes hopen hselected h hincoming hfirm hpermitted
      with hraise | hcompletes
    · exact .inl hraise
    · exact .inr (.inr ⟨hopen, hcompletes⟩)

end Resolution

/-! ## Steps -/

section Steps

variable {s s' : Store}

/-- An import that leaves nothing unheld adds to a certain match only what it holds. -/
theorem imported_held {found : List MatchCandidate} {candidates named : List MatchCandidate}
    {fenced : Bool} {recorded : RecordedMatches} {stored : MatchStore}
    (hrecord : recordMatches s.known s.message.id found s.stored = some (recorded, stored))
    (hfound : found = importedCandidates (isDirectSend s.message fenced) candidates named)
    (hopen : ¬(isDirectSend s.message fenced && s.directSendApplied ≠ []) = true)
    (hleaves : leavesUnheld s (.importMatches candidates named fenced) = false)
    (hnew : newKeys s.stored.matches_ found ≠ [])
    (htwo : 1 < ((unresolved s.stored.matches_).map Match.key
      ++ newKeys s.stored.matches_ found).dedup.length) :
    resolvedAlready s.stored.matches_ = false ∧
      ∀ row ∈ unresolved s.stored.matches_, row.ambiguous = true := by
  obtain ⟨⟨holdIds, stored'⟩, hcandidates, -⟩ := Option.map_eq_some_iff.1 hrecord
  have hknown : allKnown s.known (s.stored.matches_.rows.map Match.key) found = true :=
    allKnown_of_recordCandidates (fun row hrow => List.mem_map_of_mem hrow) hcandidates
  subst hfound
  simp only [Bool.not_eq_true] at hopen
  simp only [leavesUnheld, hopen, Bool.not_false, Bool.true_and, hknown, hnew, htwo, ne_eq,
    not_false_eq_true, decide_true, Bool.or_eq_false_iff] at hleaves
  refine ⟨hleaves.1, fun row hrow => ?_⟩
  have := List.any_eq_false.1 hleaves.2 row hrow
  simpa using this

theorem Sound.step (h : Sound s) {input : Input} (hleaves : leavesUnheld s input = false) :
    Sound (step s input) := by
  cases input with
  | importMatches candidates named fenced =>
    simp only [Matches.step, recordMatchesForImport]
    split
    · exact h
    · next hopen =>
      split
      · exact h
      · next recorded stored hrecord =>
        exact h.imported hrecord fun hnew htwo =>
          imported_held hrecord rfl hopen hleaves hnew htwo
  | importDirectSend beforeAccount =>
    simp only [Matches.step]
    split
    · next houtgoing => exact h.importDirectSend houtgoing beforeAccount
    · exact h
  | resolve c request =>
    simp only [Matches.step]
    rcases resolveAmbiguity_spec c request h with
      hraise | ⟨reason, hrefuse⟩ | ⟨-, resolution, releasing, s', haccept, hsound, -⟩
    · rw [hraise]
      exact h
    · rw [hrefuse]
      exact h
    · rw [haccept]
      exact hsound
  | openHold hold =>
    simp only [Matches.step]
    split
    · next hother =>
      refine h.frame rfl rfl rfl (fun row hrow => hrow.append) ?_ fun _ hrow => hrow
      intro hclosed hold' hmem
      rcases List.mem_append.1 hmem with hmem | hmem
      · exact hclosed hold' hmem
      · rw [List.mem_singleton.1 hmem]
        exact Hold.not_open_of_isOther hother
    · exact h
  | releaseHold id now =>
    exact h.frame rfl rfl rfl (fun row hrow => hrow.releaseOther id) releaseOther_closed
      fun _ hrow => hrow
  | writeFirm row => exact h.frame rfl rfl rfl (fun _ hrow => hrow) id fun _ hrow => hrow

/-- Any step but a resolution, by the rows it keeps and the marker it writes. -/
theorem StepHeld.of_rows {input : Input} (hinput : ∀ c request, input ≠ .resolve c request)
    (hrows : ∀ row ∈ s.stored.matches_, row ∈ s'.stored.matches_)
    (happlied : s'.directSendApplied = s.directSendApplied ∨ s.directSendApplied = [] ∧
      ∃ row ∈ s'.stored.matches_, s'.directSendApplied = [row.firmId] ∧
        (row.selected = some true ∨ s'.stored.matches_.rows = [row] ∧ row.ambiguous = false)) :
    StepHeld input s s' := by
  refine ⟨?_, fun c request _ _ heq => absurd heq (hinput c request),
    fun c request _ _ _ heq => absurd heq (hinput c request), ?_⟩
  · intro row hrow chosen hchosen
    exact ⟨row, hrows row hrow, rfl, hchosen, rfl, rfl⟩
  · intro hne
    exact happlied.resolve_left hne

/-- A resolution is accepted on an open match, or writes nothing. -/
theorem Sound.resolved (h : Sound s) (c : ResolveContext) (request : ResolveInput) :
    StepHeld (.resolve c request) s (Matches.step s (.resolve c request)) := by
  have hstill : ∀ row ∈ s.stored.matches_, ∀ chosen, row.selected = some chosen →
      ∃ row' ∈ s.stored.matches_, row'.key = row.key ∧ row'.selected = some chosen ∧
        row'.resolvedAt = row.resolvedAt ∧ row'.resolvedByUserId = row.resolvedByUserId := by
    intro row hrow chosen hchosen
    exact ⟨row, hrow, rfl, hchosen, rfl, rfl⟩
  simp only [Matches.step]
  rcases resolveAmbiguity_spec c request h with
    hraise | ⟨reason, hrefuse⟩ |
      ⟨hopen, resolution, releasing, s', haccept, -, -, hresolves, happlied⟩
  · rw [hraise]
    refine ⟨hstill, ?_, ?_, fun hne => absurd rfl hne⟩
    · intro _ _ _ _ heq hrefused
      cases heq
      rw [hraise] at hrefused
      cases hrefused
    · intro _ _ _ _ _ heq haccepted
      cases heq
      rw [hraise] at haccepted
      cases haccepted
  · rw [hrefuse]
    refine ⟨hstill, ?_, ?_, fun hne => absurd rfl hne⟩
    · intro _ _ _ _ heq hrefused
      cases heq
      rw [hrefuse] at hrefused
      cases hrefused
      rfl
    · intro _ _ _ _ _ heq haccepted
      cases heq
      rw [hrefuse] at haccepted
      cases haccepted
  · rw [haccept]
    refine ⟨?_, ?_, ?_, ?_⟩
    · intro row hrow chosen hchosen
      rw [selected_none hopen hrow] at hchosen
      cases hchosen
    · intro _ _ _ _ heq hrefused
      cases heq
      rw [haccept] at hrefused
      cases hrefused
    · intro _ _ _ _ _ heq haccepted
      cases heq
      rw [haccept] at haccepted
      cases haccepted
      exact hresolves
    · intro hne
      obtain ⟨hnone, row, hrow, heq, hsel⟩ := happlied.resolve_left hne
      exact ⟨hnone, row, hrow, heq, .inl hsel⟩

theorem Sound.stepHeld (h : Sound s) (input : Input) : StepHeld input s (Matches.step s input) := by
  cases input with
  | importMatches candidates named fenced =>
    simp only [Matches.step, recordMatchesForImport]
    split
    · exact .of_rows nofun (fun _ hrow => hrow) (.inl rfl)
    · split
      · exact .of_rows nofun (fun _ hrow => hrow) (.inl rfl)
      · next recorded stored hrecord =>
        obtain ⟨⟨holdIds, stored'⟩, hcandidates, heq⟩ := Option.map_eq_some_iff.1 hrecord
        obtain ⟨-, rfl⟩ := Prod.mk.inj heq
        obtain ⟨rows, -, hrows, -⟩ := recordCandidates_spec hcandidates
        refine .of_rows nofun (fun row hrow => ?_) (.inl rfl)
        show row ∈ stored'.matches_.rows
        rw [hrows]
        exact List.mem_append_left _ hrow
  | importDirectSend beforeAccount =>
    simp only [Matches.step]
    split
    · unfold Matches.importDirectSend
      split
      · exact .of_rows nofun (fun _ hrow => hrow) (.inl rfl)
      · next only htarget =>
        obtain ⟨hmem, hwhy⟩ := directSendTargetOf_eq_some htarget
        rcases applyDirectSendEffects_spec only.firmId beforeAccount s with heq | ⟨hnone, heq⟩
        · rw [heq]
          exact .of_rows nofun (fun _ hrow => hrow) (.inl rfl)
        · rw [heq]
          refine .of_rows nofun (fun _ hrow => hrow) (.inr ⟨hnone, only, hmem, rfl, ?_⟩)
          exact hwhy.imp id fun hwhy => ⟨hwhy.1, hwhy.2.1⟩
    · exact .of_rows nofun (fun _ hrow => hrow) (.inl rfl)
  | resolve c request => exact h.resolved c request
  | openHold hold =>
    simp only [Matches.step]
    split
    · exact .of_rows nofun (fun _ hrow => hrow) (.inl rfl)
    · exact .of_rows nofun (fun _ hrow => hrow) (.inl rfl)
  | releaseHold id now => exact .of_rows nofun (fun _ hrow => hrow) (.inl rfl)
  | writeFirm row => exact .of_rows nofun (fun _ hrow => hrow) (.inl rfl)

end Steps

/-! ## Runs -/

/-- A message nobody has matched, in any workspace. -/
structure Start where
  message : Message
  crm : Pipeline.Store
  plans : Table OutreachPlan.id
  holds : List Hold

def Start.store (start : Start) : Store where
  message := start.message
  stored := ⟨.empty, start.holds⟩
  crm := start.crm
  plans := start.plans
  directSendApplied := []

theorem Start.sound (start : Start) : Sound start.store := by
  have hnone : ∀ row : Match, row ∉ start.store.stored.matches_ := fun _ => Table.not_mem_empty
  have hunresolved : unresolved start.store.stored.matches_ = [] := rfl
  have hresolved : resolvedAlready start.store.stored.matches_ = false := rfl
  constructor
  · constructor
    · rw [hunresolved]
      intro htwo
      cases htwo
    · exact Nat.zero_le _
    · rw [hresolved]
      intro htrue
      cases htrue
    · exact ⟨Nat.zero_le _, List.forall_mem_nil _⟩
  · exact fun _ => rfl
  · rw [hunresolved]
    exact List.forall_mem_nil _
  · intro row hrow
    exact absurd hrow (hnone row)

def matchRun (start : Start) (inputs : List Input) : Store := Runs.run step start.store inputs

/-- The message's matches are held in the state reached, and each step did what it may. -/
def AmbiguityHolds (start : Start) (inputs : List Input) : Prop :=
  AmbiguityHeld (matchRun start inputs) ∧
  ∀ front input back, inputs = front ++ input :: back →
    StepHeld input (matchRun start front) (matchRun start (front ++ [input]))

/-- Every run in which no import leaves an unresolved match unheld. -/
theorem ambiguity_holds_every_candidate (start : Start) (inputs : List Input)
    (h : Runs.Meets step (fun s input => leavesUnheld s input = false) start.store inputs) :
    AmbiguityHolds start inputs := by
  have hsound : ∀ {is : List Input},
      Runs.Meets step (fun s input => leavesUnheld s input = false) start.store is →
      Sound (matchRun start is) := fun his =>
    his.invariant (fun _ _ hinput hs => hs.step hinput) start.sound
  refine ⟨(hsound h).held, ?_⟩
  rintro front input back rfl
  have hrun : matchRun start (front ++ [input]) = step (matchRun start front) input :=
    Runs.run_append step start.store front [input]
  rw [hrun]
  exact (hsound h.append.1).stepHeld input

/-- A reply, and two plans it may belong to. -/
def Start.reply (first second : FirmId) : Start where
  message := ⟨js "m", .incoming, some (js "u")⟩
  crm := ⟨(Table.empty.upsert ⟨first, none, none, fun _ => none⟩).upsert
    ⟨second, none, none, fun _ => none⟩, .empty, .empty, [], .empty, .empty, []⟩
  plans := (Table.empty.upsert ⟨js "p", first, .active⟩).upsert ⟨js "q", second, .active⟩
  holds := []

/-- Two candidates at once, held, and one of them chosen. -/
theorem ambiguity_holds_two_candidates :
    let first : FirmId := ⟨js "6f1c1f7e-0000-4000-8000-000000000001", by decide⟩
    let second : FirmId := ⟨js "6f1c1f7e-0000-4000-8000-000000000002", by decide⟩
    AmbiguityHolds (.reply first second)
      [.importMatches [⟨first, .outreachPlan (js "p"), none, .thread, false⟩,
          ⟨second, .outreachPlan (js "q"), none, .participant, false⟩] [] false,
        .resolve ⟨.user (js "a") .admin, 7, js "e", false, false⟩ ⟨none, some (js "q"), true⟩] := by
  intro first second
  exact ambiguity_holds_every_candidate _ _ (by decide +kernel)

/-- One candidate, and a second found by a replay: the first is neither marked nor held. -/
theorem ambiguity_unheld :
    let first : FirmId := ⟨js "6f1c1f7e-0000-4000-8000-000000000001", by decide⟩
    let second : FirmId := ⟨js "6f1c1f7e-0000-4000-8000-000000000002", by decide⟩
    let one : MatchCandidate := ⟨first, .outreachPlan (js "p"), none, .thread, false⟩
    ¬ AmbiguityHolds (.reply first second)
      [.importMatches [one] [] false,
        .importMatches [one, ⟨second, .outreachPlan (js "q"), none, .participant, false⟩] []
          false] := by
  intro first second one h
  have htwo : 2 ≤ (unresolved (matchRun (.reply first second)
      [.importMatches [one] [] false,
        .importMatches [one, ⟨second, .outreachPlan (js "q"), none, .participant, false⟩] []
          false]).stored.matches_).length := by decide +kernel
  have hrow : ∃ row ∈ unresolved (matchRun (.reply first second)
      [.importMatches [one] [] false,
        .importMatches [one, ⟨second, .outreachPlan (js "q"), none, .participant, false⟩] []
          false]).stored.matches_, row.ambiguous = false := by decide +kernel
  obtain ⟨row, hmem, hmarked⟩ := hrow
  rw [(h.1.held htwo row hmem).1] at hmarked
  cases hmarked

end FoundingSales.Mail.Matches
