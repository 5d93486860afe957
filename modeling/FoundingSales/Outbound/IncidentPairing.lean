import FoundingSales.Outbound.ProviderIncidents

/-!
Incidents and their holds. A command either merges a report, opens an incident with its
hold, resolves incidents and releases theirs, or moves bindings; each keeps one unresolved
incident a source, and one open hold an unresolved incident.

Proved here:
* `resolveIncidents_ok`, `recordProviderIncident_ok`: what the two writing commands leave;
* `Paired.rewrite`, `Paired.opened`, `Paired.resolve`, `Paired.refresh`: each kind of write keeps
  incidents and holds paired.
-/

namespace FoundingSales.Outbound.Incidents

open Tables Mail Sequences

/-! ## Releases -/

theorem releaseHoldsOfEvent_ok {clock : Instant} {id : Uuid} {world world' : World}
    (h : releaseHoldsOfEvent clock id world = .ok world') :
    world' = { world with holds := releaseRefusals clock id world } := by
  simp only [releaseHoldsOfEvent] at h
  split at h
  · exact (Except.ok.inj h).symm
  · cases h

/-- Releasing one incident's holds leaves it none, and every other incident its own. -/
theorem count_releaseRefusals {clock : Instant} {id other : Uuid} {world : World} :
    (releaseRefusals clock id world).count (refusalOf world.config.workspaceId other)
      = if other = id then 0 else world.holds.count (refusalOf world.config.workspaceId other) := by
  simp only [Table.count, releaseRefusals, Table.update, List.countP_map]
  split
  · next heq =>
    subst heq
    apply List.countP_eq_zero.2
    intro hold _ hrefusal
    simp only [Function.comp_apply] at hrefusal
    split at hrefusal
    · simp [refusalOf, released] at hrefusal
    · next hnot => exact hnot hrefusal
  · next hne =>
    apply List.countP_congr
    intro hold _
    simp only [Function.comp_apply]
    split
    · next hother =>
      have hsource : hold.sourceEventId = some id := by
        simp only [refusalOf, Bool.and_eq_true, decide_eq_true_eq] at hother
        exact hother.1.1.2
      simp [refusalOf, released, hsource, Ne.symm hne]
    · exact Iff.rfl

theorem source_of_releaseRefusals {clock : Instant} {id : Uuid} {world : World}
    {hold : ActiveHold} (h : hold ∈ releaseRefusals clock id world) :
    ∃ old ∈ world.holds, old.sourceEventId = hold.sourceEventId := by
  obtain ⟨old, hold', rfl⟩ := Table.mem_update.1 h
  refine ⟨old, hold', ?_⟩
  split
  · rfl
  · rfl

/-- What releasing the holds of some incidents leaves. -/
structure Released (ids : List Uuid) (world world' : World) : Prop where
  config : world'.config = world.config
  incidents : world'.incidents = world.incidents
  count : ∀ id, world'.holds.count (refusalOf world.config.workspaceId id)
    = if id ∈ ids then 0 else world.holds.count (refusalOf world.config.workspaceId id)
  source : ∀ hold ∈ world'.holds, ∃ old ∈ world.holds, old.sourceEventId = hold.sourceEventId

theorem releaseAll_ok {clock : Instant} {ids : List Uuid} {world world' : World}
    (h : releaseAll clock ids world = .ok world') : Released ids world world' := by
  induction ids generalizing world with
  | nil =>
    obtain rfl := Except.ok.inj h
    exact ⟨rfl, rfl, fun id => by simp, fun hold hmem => ⟨hold, hmem, rfl⟩⟩
  | cons id ids ih =>
    simp only [releaseAll, bind, Except.bind] at h
    cases hfirst : releaseHoldsOfEvent clock id world with
    | error failure =>
      rw [hfirst] at h
      cases h
    | ok middle =>
      rw [hfirst] at h
      obtain rfl := releaseHoldsOfEvent_ok hfirst
      obtain ⟨hconfig, hincidents, hcount, hsource⟩ := ih h
      refine ⟨hconfig, hincidents, ?_, ?_⟩
      · intro other
        rw [hcount other, count_releaseRefusals]
        by_cases hid : other = id
        · simp [hid]
        · simp [hid]
      · intro hold hmem
        obtain ⟨middle, hmiddle, hsame⟩ := hsource hold hmem
        obtain ⟨old, hold', hsame'⟩ := source_of_releaseRefusals hmiddle
        exact ⟨old, hold', hsame'.trans hsame⟩

/-! ## What the commands leave -/

variable {incidents : Table IncidentRow.id} {row : IncidentRow}

theorem mem_mergeInto {input : RecordInput} {incidentId : Uuid} :
    row ∈ mergeInto (input.row incidentId) incidents ↔ ∃ old ∈ incidents,
      row = if ofSource input.sourceKind input.sourceId old then
        merged (input.row incidentId) old else old := Table.mem_update

theorem mem_setHold {id holdId : Uuid} : row ∈ setHold id holdId incidents ↔
    ∃ old ∈ incidents, row = if old.id = id then { old with holdId := some holdId } else old := by
  rw [setHold, Table.mem_update]
  simp only [decide_eq_true_eq]

theorem mem_resolveRows {which : IncidentRow → Bool} {instant : Instant}
    {resolution : Resolution} : row ∈ resolveRows which instant resolution incidents ↔
      ∃ old ∈ incidents, row = if which old then resolved instant resolution old else old :=
  Table.mem_update

theorem mem_rebind {hash : JsString} : row ∈ rebind hash incidents ↔
    ∃ old ∈ incidents, row = if waiting old then rebound hash old else old := Table.mem_update

theorem resolveIncidents_ok {which : IncidentRow → Bool} {instant clock : Instant}
    {resolution : Resolution} {world world' : World}
    (h : resolveIncidents which instant resolution clock world = .ok world') :
    world'.config = world.config ∧
      world'.incidents = resolveRows which instant resolution world.incidents ∧
      Released ((world.incidents.rows.filter which).map (·.id))
        { world with incidents := resolveRows which instant resolution world.incidents } world' := by
  simp only [resolveIncidents] at h
  split at h
  · have hreleased := releaseAll_ok h
    exact ⟨hreleased.config, hreleased.incidents, hreleased⟩
  · cases h

theorem refreshBinding_ok {digest : BindingMetadata → JsString} {world world' : World}
    (h : refreshBinding digest world = .ok world') :
    (readProviderBinding digest world.config).hash = none ∧ world' = world ∨
      ∃ hash, (readProviderBinding digest world.config).hash = some hash ∧
        world' = { world with incidents := rebind hash world.incidents } := by
  simp only [refreshBinding] at h
  split at h
  · next hnone => exact .inl ⟨hnone, (Except.ok.inj h).symm⟩
  · next hash hhash =>
    split at h
    · exact .inr ⟨hash, hhash, (Except.ok.inj h).symm⟩
    · cases h

theorem openOf_eq_some {world : World} {kind : ProviderIncidentSource} {sourceId : JsString}
    {row : IncidentRow} (h : world.openOf kind sourceId = some row) :
    row ∈ world.incidents ∧ ofSource kind sourceId row = true :=
  ⟨List.mem_of_find?_eq_some h, List.find?_some h⟩

theorem openOf_eq_none {world : World} {kind : ProviderIncidentSource} {sourceId : JsString}
    (h : world.openOf kind sourceId = none) :
    ∀ row ∈ world.incidents, ofSource kind sourceId row = false := by
  intro row hrow
  simpa using List.find?_eq_none.1 h row hrow

theorem ofSource_eq_true {kind : ProviderIncidentSource} {sourceId : JsString}
    {row : IncidentRow} : ofSource kind sourceId row = true ↔
      row.unresolved = true ∧ row.sourceKind = kind ∧ row.sourceId = sourceId := by
  simp [ofSource, and_assoc]

/-- The hold a new incident is opened with. -/
def firstHold (world : World) (clock : Instant) (holdId id : Uuid) : ActiveHold :=
  ⟨world.config.workspaceId, holdId, .mailbox, some world.config.mailboxId, providerRefusal,
    [.emailSend], js "provider_incident", some id, clock, none⟩

/-- Every incident carries the hold it was opened with. -/
def AllHeld (world : World) : Prop := ∀ row ∈ world.incidents, row.holdId.isSome = true

/-- A report merges into the unresolved incident of its source, or opens one with a hold. -/
theorem recordProviderIncident_ok {input : RecordInput} {clock : Instant}
    {incidentId holdId : Uuid} {world world' : World} (hheld : AllHeld world)
    (h : recordProviderIncident input clock incidentId holdId world = .ok world') :
    (∃ row, world.openOf input.sourceKind input.sourceId = some row ∧
      world' = { world with incidents := mergeInto (input.row incidentId) world.incidents }) ∨
    world.openOf input.sourceKind input.sourceId = none ∧
      ∃ incidents holds, world.incidents.insert? (input.row incidentId) = some incidents ∧
        world.holds.insert? (firstHold world clock holdId incidentId) = some holds ∧
        world' = ⟨world.config, setHold incidentId holdId incidents, holds⟩ := by
  simp only [recordProviderIncident, bind, Except.bind] at h
  split at h
  · cases h
  · simp only [upsertIncident] at h
    by_cases hchecks : incidentChecks (input.row incidentId) = true
    swap
    · simp [hchecks] at h
    simp only [hchecks, Bool.not_true, Bool.false_eq_true, if_false] at h
    have hkind : (input.row incidentId).sourceKind = input.sourceKind := rfl
    have hsource : (input.row incidentId).sourceId = input.sourceId := rfl
    rw [hkind, hsource] at h
    cases hopen : world.openOf input.sourceKind input.sourceId with
    | some row =>
      left
      refine ⟨row, rfl, ?_⟩
      rw [hopen] at h
      by_cases hmerged : incidentChecks (merged (input.row incidentId) row) = true
      · simp only [hmerged, Bool.not_true, Bool.false_eq_true, if_false] at h
        have hhold : (merged (input.row incidentId) row).holdId.isSome = true :=
          hheld row (openOf_eq_some hopen).1
        rw [if_pos hhold] at h
        exact (Except.ok.inj h).symm
      · simp [hmerged] at h
    | none =>
      right
      refine ⟨rfl, ?_⟩
      rw [hopen] at h
      cases hinsert : world.incidents.insert? (input.row incidentId) with
      | none => simp [hinsert] at h
      | some incidents =>
        simp only [hinsert] at h
        have hnone : (input.row incidentId).holdId.isSome = false := rfl
        rw [hnone, if_neg Bool.false_ne_true] at h
        simp only [openHold] at h
        cases hholds : world.holds.insert? (firstHold world clock holdId incidentId) with
        | none =>
          have hraises : world.holds.insert? ⟨world.config.workspaceId, holdId, .mailbox,
              some world.config.mailboxId, providerRefusal, [.emailSend],
              js "provider_incident", some (input.row incidentId).id, clock, none⟩ = none := hholds
          rw [hraises] at h
          cases h
        | some holds =>
          have htaken : world.holds.insert? ⟨world.config.workspaceId, holdId, .mailbox,
              some world.config.mailboxId, providerRefusal, [.emailSend],
              js "provider_incident", some (input.row incidentId).id, clock, none⟩
                = some holds := hholds
          rw [htaken] at h
          exact ⟨incidents, holds, rfl, rfl, (Except.ok.inj h).symm⟩

/-! ## The pairing -/

structure Paired (world : World) : Prop where
  oneOpen : ∀ row ∈ world.incidents, ∀ other ∈ world.incidents, row.unresolved = true →
    other.unresolved = true → row.sourceKind = other.sourceKind →
    row.sourceId = other.sourceId → row = other
  held : AllHeld world
  paired : ∀ row ∈ world.incidents,
    world.holds.count (refusalOf world.config.workspaceId row.id)
      = if row.unresolved then 1 else 0
  known : ∀ hold ∈ world.holds, ∀ id, hold.sourceEventId = some id →
    ∃ row ∈ world.incidents, row.id = id

theorem paired_fresh (config : Configuration) : Paired (.fresh config) where
  oneOpen := List.forall_mem_nil _
  held := List.forall_mem_nil _
  paired := List.forall_mem_nil _
  known := List.forall_mem_nil _

theorem Paired.configured {world : World} (h : Paired world) (config : Configuration) :
    Paired (world.configured config) := ⟨h.oneOpen, h.held, h.paired, h.known⟩

/-- An update of incidents that keeps what the pairing reads. -/
theorem Paired.rewrite {world : World} (h : Paired world) {which : IncidentRow → Bool}
    {set : IncidentRow → IncidentRow} {incidents : Table IncidentRow.id}
    (hrows : ∀ row, row ∈ incidents ↔
      ∃ old ∈ world.incidents, row = if which old then set old else old)
    (hid : ∀ row, (set row).id = row.id)
    (hopen : ∀ row, (set row).unresolved = row.unresolved)
    (hkind : ∀ row, (set row).sourceKind = row.sourceKind)
    (hsource : ∀ row, (set row).sourceId = row.sourceId)
    (hhold : ∀ row, (set row).holdId = row.holdId) : Paired { world with incidents } := by
  have hsame : ∀ row, (if which row then set row else row).unresolved = row.unresolved ∧
      (if which row then set row else row).sourceKind = row.sourceKind ∧
      (if which row then set row else row).sourceId = row.sourceId ∧
      (if which row then set row else row).holdId = row.holdId ∧
      (if which row then set row else row).id = row.id := by
    intro row
    split
    · exact ⟨hopen row, hkind row, hsource row, hhold row, hid row⟩
    · exact ⟨rfl, rfl, rfl, rfl, rfl⟩
  refine ⟨?_, ?_, ?_, ?_⟩
  · intro row hrow other hother hrowOpen hotherOpen hkinds hsources
    obtain ⟨row, hrow', rfl⟩ := (hrows row).1 hrow
    obtain ⟨other, hother', rfl⟩ := (hrows other).1 hother
    obtain ⟨ho, hk, hs, -, -⟩ := hsame row
    obtain ⟨ho', hk', hs', -, -⟩ := hsame other
    rw [h.oneOpen row hrow' other hother' (ho ▸ hrowOpen) (ho' ▸ hotherOpen)
      (hk.symm.trans (hkinds.trans hk')) (hs.symm.trans (hsources.trans hs'))]
  · intro row hrow
    obtain ⟨row, hrow', rfl⟩ := (hrows row).1 hrow
    rw [(hsame row).2.2.2.1]
    exact h.held row hrow'
  · intro row hrow
    obtain ⟨row, hrow', rfl⟩ := (hrows row).1 hrow
    obtain ⟨ho, -, -, -, hids⟩ := hsame row
    rw [ho, hids]
    exact h.paired row hrow'
  · intro hold hmem id hsourceEvent
    obtain ⟨row, hrow, hids⟩ := h.known hold hmem id hsourceEvent
    exact ⟨_, (hrows _).2 ⟨row, hrow, rfl⟩, (hsame row).2.2.2.2.trans hids⟩

theorem Paired.resolve {world world' : World} (h : Paired world) {which : IncidentRow → Bool}
    {instant clock : Instant} {resolution : Resolution}
    (hresolve : resolveIncidents which instant resolution clock world = .ok world') :
    Paired world' := by
  obtain ⟨hconfig, hincidents, hreleased⟩ := resolveIncidents_ok hresolve
  have hid : ∀ row, (if which row then resolved instant resolution row else row).id = row.id := by
    intro row
    split
    · rfl
    · rfl
  have hstill : ∀ row, (if which row then resolved instant resolution row else row).unresolved
      = true → which row = false ∧ row.unresolved = true := by
    intro row hrow
    split at hrow
    · simp [resolved, IncidentRow.unresolved] at hrow
    · next hwhich => exact ⟨by simpa using hwhich, hrow⟩
  refine ⟨?_, ?_, ?_, ?_⟩
  · rw [hincidents]
    intro row hrow other hother hrowOpen hotherOpen hkinds hsources
    obtain ⟨row, hrow', rfl⟩ := mem_resolveRows.1 hrow
    obtain ⟨other, hother', rfl⟩ := mem_resolveRows.1 hother
    obtain ⟨hrowWhich, hrowOpen⟩ := hstill row hrowOpen
    obtain ⟨hotherWhich, hotherOpen⟩ := hstill other hotherOpen
    simp only [hrowWhich, hotherWhich, Bool.false_eq_true, if_false] at hkinds hsources ⊢
    exact h.oneOpen row hrow' other hother' hrowOpen hotherOpen hkinds hsources
  · unfold AllHeld
    rw [hincidents]
    intro row hrow
    obtain ⟨row, hrow', rfl⟩ := mem_resolveRows.1 hrow
    split
    · exact h.held row hrow'
    · exact h.held row hrow'
  · rw [hincidents, hconfig]
    intro row hrow
    obtain ⟨row, hrow', rfl⟩ := mem_resolveRows.1 hrow
    rw [hreleased.count, hid]
    by_cases hwhich : which row = true
    · have hmem : row.id ∈ (world.incidents.rows.filter which).map (·.id) :=
        List.mem_map_of_mem (List.mem_filter.2 ⟨hrow', hwhich⟩)
      rw [if_pos hmem, if_pos hwhich]
      rfl
    · have hnot : row.id ∉ (world.incidents.rows.filter which).map (·.id) := by
        intro hmem
        obtain ⟨other, hother, hids⟩ := List.mem_map.1 hmem
        obtain ⟨hother, hotherWhich⟩ := List.mem_filter.1 hother
        rw [Table.eq_of_key_eq hother hrow' hids] at hotherWhich
        exact hwhich hotherWhich
      rw [if_neg hnot, if_neg hwhich]
      exact h.paired row hrow'
  · rw [hincidents]
    intro hold hmem id hsource
    obtain ⟨old, hold', hsame⟩ := hreleased.source hold hmem
    obtain ⟨row, hrow, hrowId⟩ := h.known old hold' id (hsame.trans hsource)
    exact ⟨_, mem_resolveRows.2 ⟨row, hrow, rfl⟩, (hid row).trans hrowId⟩

/-- A new incident of a source that has none unresolved. -/
theorem Paired.opened {world : World} (h : Paired world) {input : RecordInput}
    {clock : Instant} {incidentId holdId : Uuid} {incidents : Table IncidentRow.id}
    {holds : HoldTable} (hnone : world.openOf input.sourceKind input.sourceId = none)
    (hinsert : world.incidents.insert? (input.row incidentId) = some incidents)
    (hholds : world.holds.insert? (firstHold world clock holdId incidentId) = some holds) :
    Paired ⟨world.config, setHold incidentId holdId incidents, holds⟩ := by
  have hfresh : ∀ row ∈ world.incidents, row.id ≠ incidentId :=
    Table.find?_eq_none.1 (Table.insert?_eq_some hinsert).1
  have hrows : ∀ row, row ∈ setHold incidentId holdId incidents ↔
      row ∈ world.incidents ∨ row = { input.row incidentId with holdId := some holdId } := by
    intro row
    rw [mem_setHold]
    constructor
    · rintro ⟨old, hold, rfl⟩
      rcases (Table.mem_insert? hinsert).1 hold with hmem | rfl
      · left
        rwa [if_neg (hfresh old hmem)]
      · right
        exact if_pos rfl
    · rintro (hmem | rfl)
      · exact ⟨row, (Table.mem_insert? hinsert).2 (.inl hmem), (if_neg (hfresh row hmem)).symm⟩
      · exact ⟨input.row incidentId, (Table.mem_insert? hinsert).2 (.inr rfl), (if_pos rfl).symm⟩
  have hcount : ∀ id, holds.count (refusalOf world.config.workspaceId id)
      = world.holds.count (refusalOf world.config.workspaceId id)
        + if id = incidentId then 1 else 0 := by
    intro id
    simp only [Table.count, (Table.insert?_eq_some hholds).2, List.countP_append,
      List.countP_singleton]
    congr 1
    by_cases hid : id = incidentId
    · simp [refusalOf, firstHold, hid]
    · simp [refusalOf, firstHold, hid, Ne.symm hid]
  refine ⟨?_, ?_, ?_, ?_⟩
  · intro row hrow other hother hrowOpen hotherOpen hkinds hsources
    have hclash : ∀ x ∈ world.incidents, x.unresolved = true → x.sourceKind = input.sourceKind →
        x.sourceId = input.sourceId → False := by
      intro x hx hxOpen hxKind hxSource
      have hnot := openOf_eq_none hnone x hx
      rw [ofSource_eq_true.2 ⟨hxOpen, hxKind, hxSource⟩] at hnot
      cases hnot
    rcases (hrows row).1 hrow with hrow | rfl
    · rcases (hrows other).1 hother with hother | rfl
      · exact h.oneOpen row hrow other hother hrowOpen hotherOpen hkinds hsources
      · exact (hclash row hrow hrowOpen hkinds hsources).elim
    · rcases (hrows other).1 hother with hother | rfl
      · exact (hclash other hother hotherOpen hkinds.symm hsources.symm).elim
      · rfl
  · intro row hrow
    rcases (hrows row).1 hrow with hrow | rfl
    · exact h.held row hrow
    · rfl
  · intro row hrow
    show holds.count _ = _
    rcases (hrows row).1 hrow with hrow | rfl
    · rw [hcount, if_neg (hfresh row hrow), Nat.add_zero]
      exact h.paired row hrow
    · have hzero : world.holds.count (refusalOf world.config.workspaceId incidentId) = 0 := by
        apply List.countP_eq_zero.2
        intro hold hmem hrefusal
        simp only [refusalOf, Bool.and_eq_true, decide_eq_true_eq] at hrefusal
        obtain ⟨row, hrow, hid⟩ := h.known hold hmem incidentId hrefusal.1.1.2
        exact hfresh row hrow hid
      have hid : (input.row incidentId).id = incidentId := rfl
      rw [hcount, hid, hzero, if_pos rfl]
      rfl
  · intro hold hmem id hsource
    rcases (Table.mem_insert? hholds).1 hmem with hmem | rfl
    · obtain ⟨row, hrow, hid⟩ := h.known hold hmem id hsource
      exact ⟨row, (hrows row).2 (.inl hrow), hid⟩
    · cases hsource
      exact ⟨_, (hrows _).2 (.inr rfl), rfl⟩

theorem Paired.refresh {digest : BindingMetadata → JsString} {world world' : World}
    (h : Paired world) (hrefresh : refreshBinding digest world = .ok world') : Paired world' := by
  rcases refreshBinding_ok hrefresh with ⟨-, rfl⟩ | ⟨hash, -, rfl⟩
  · exact h
  · exact h.rewrite (fun _ => Table.mem_update) (fun _ => rfl) (fun _ => rfl) (fun _ => rfl)
      (fun _ => rfl) fun _ => rfl

end FoundingSales.Outbound.Incidents
