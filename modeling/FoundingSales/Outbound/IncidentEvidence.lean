import FoundingSales.Library.Runs
import FoundingSales.Outbound.IncidentPairing

/-!
Which reports an incident is cleared on. Beside the table every report is kept, with the
binding it was made under and the one it stands under since the last revalidation; an
incident carries the instant and the binding of the report that opened it.

Proved here:
* `Told.step`: an incident's columns are told by its reports;
* `apply_moved`: what a step makes of an incident, and what it is resolved on;
* `incidents_clear_on_opening_report`: the same for every run, in terms of the reports;
* `revalidated_report_cleared`: a read clears a report that was not made under its binding.
-/

namespace FoundingSales.Outbound.Incidents

open Tables Mail Sequences Runs

/-! ## Reports -/

/-- A report that was taken in. It is `aligned` if it was made under the binding its incident
had at the time. -/
structure Report where
  incidentId : Uuid
  classification : ProviderIncidentClass
  madeUnder : Option JsString
  standsUnder : Option JsString
  observedAt : Instant
  aligned : Bool
  deriving DecidableEq

structure Traced where
  world : World
  reports : List Report

def Traced.fresh (config : Configuration) : Traced := ⟨.fresh config, []⟩

def reportsOf (reports : List Report) (id : Uuid) : List Report :=
  reports.filter (·.incidentId = id)

/-- A report's place among the incidents as they are. -/
def reportOf (input : RecordInput) (incidentId : Uuid) (world : World) : Report :=
  match world.openOf input.sourceKind input.sourceId with
  | some row => ⟨row.id, input.classification, input.binding.hash, input.binding.hash, input.now,
      row.bindingSha256 = input.binding.hash⟩
  | none => ⟨incidentId, input.classification, input.binding.hash, input.binding.hash, input.now,
      true⟩

def reboundReport (world : World) (hash : JsString) (report : Report) : Report :=
  if (world.incidents.find? report.incidentId).any waiting then
    { report with standsUnder := some hash }
  else report

/-- The reports of waiting incidents stand under the binding a revalidation finds. -/
def reboundReports (world : World) : Option JsString → List Report → List Report
  | none, reports => reports
  | some hash, reports => reports.map (reboundReport world hash)

def notes (digest : BindingMetadata → JsString) (world : World) (reports : List Report) :
    Input → List Report
  | .record input _ incidentId _ => reports ++ [reportOf input incidentId world]
  | .revalidate actor basis _ _ =>
    if mayRevalidate actor basis then
      reboundReports world (readProviderBinding digest world.config).hash reports
    else reports
  | .reconnect config actor _ _ =>
    if mayRevalidate actor .oauthReconnected then
      reboundReports world (readProviderBinding digest (world.configured config).config).hash
        reports
    else reports
  | _ => reports

def tracedStep (digest : BindingMetadata → JsString) (t : Traced) (input : Input) : Traced :=
  match apply digest t.world input with
  | .ok world => ⟨world, notes digest t.world t.reports input⟩
  | .error _ => t

theorem tracedStep_world (digest : BindingMetadata → JsString) (t : Traced) (input : Input) :
    (tracedStep digest t input).world = step digest t.world input := by
  unfold tracedStep step
  cases apply digest t.world input <;> rfl

/-- The class that lasts: the first one that is not `transient`. -/
def lasting (reports : List Report) : ProviderIncidentClass :=
  ((reports.map (·.classification)).find? (· ≠ .transient)).getD .transient

theorem lasting_append (reports : List Report) (report : Report) :
    lasting (reports ++ [report])
      = if lasting reports = .transient then report.classification else lasting reports := by
  unfold lasting
  rw [List.map_append, List.find?_append]
  cases hfind : (reports.map (·.classification)).find? (· ≠ .transient) with
  | none =>
    simp only [Option.none_or, Option.getD_none, if_true, List.map_cons, List.map_nil]
    cases hclass : report.classification <;> rfl
  | some found =>
    have hne : found ≠ .transient := by simpa using List.find?_some hfind
    simp [hne]

theorem all_transient_of_lasting {reports : List Report} (h : lasting reports = .transient) :
    ∀ report ∈ reports, report.classification = .transient := by
  intro report hmem
  unfold lasting at h
  cases hfind : (reports.map (·.classification)).find? (· ≠ .transient) with
  | none =>
    have hall := List.find?_eq_none.1 hfind report.classification (List.mem_map_of_mem hmem)
    simpa using hall
  | some found =>
    have hne : found ≠ .transient := by simpa using List.find?_some hfind
    rw [hfind] at h
    exact absurd h hne

/-! ## What the reports tell -/

/-- An incident's columns, from its reports: the opening one's instant, the class that lasts,
and the binding every aligned report stands under. -/
structure Tells (row : IncidentRow) (reports : List Report) : Prop where
  opening : ∃ first rest, reports = first :: rest ∧ first.observedAt = row.observedAt ∧
    first.aligned = true
  classification : row.classification = lasting reports
  binding : ∀ report ∈ reports, report.aligned = true → report.standsUnder = row.bindingSha256

structure Told (world : World) (reports : List Report) : Prop where
  paired : Paired world
  tells : ∀ row ∈ world.incidents, Tells row (reportsOf reports row.id)
  known : ∀ report ∈ reports, ∃ row ∈ world.incidents, row.id = report.incidentId

theorem told_fresh (config : Configuration) : Told (.fresh config) [] where
  paired := paired_fresh config
  tells := List.forall_mem_nil _
  known := List.forall_mem_nil _

theorem Told.configured {world : World} {reports : List Report} (h : Told world reports)
    (config : Configuration) : Told (world.configured config) reports :=
  ⟨h.paired.configured config, h.tells, h.known⟩

theorem Tells.resolved {row : IncidentRow} {reports : List Report} (h : Tells row reports)
    (instant : Instant) (resolution : Resolution) :
    Tells (resolved instant resolution row) reports :=
  ⟨h.opening, h.classification, h.binding⟩

theorem Told.resolve {world world' : World} {reports : List Report} (h : Told world reports)
    {which : IncidentRow → Bool} {instant clock : Instant} {resolution : Resolution}
    (hresolve : resolveIncidents which instant resolution clock world = .ok world') :
    Told world' reports := by
  obtain ⟨-, hincidents, -⟩ := resolveIncidents_ok hresolve
  refine ⟨h.paired.resolve hresolve, ?_, ?_⟩
  · intro row hrow
    have hrow' : row ∈ resolveRows which instant resolution world.incidents := hincidents ▸ hrow
    obtain ⟨old, hold, rfl⟩ := mem_resolveRows.1 hrow'
    split
    · exact (h.tells old hold).resolved instant resolution
    · exact h.tells old hold
  · intro report hreport
    obtain ⟨row, hrow, hid⟩ := h.known report hreport
    have hmem : (if which row then Incidents.resolved instant resolution row else row)
        ∈ resolveRows which instant resolution world.incidents :=
      mem_resolveRows.2 ⟨row, hrow, rfl⟩
    refine ⟨_, hincidents ▸ hmem, ?_⟩
    split
    · exact hid
    · exact hid

/-- A revalidation moves the bindings of waiting incidents and of their reports together. -/
theorem Told.refresh {digest : BindingMetadata → JsString} {world world' : World}
    {reports : List Report} (h : Told world reports)
    (hrefresh : refreshBinding digest world = .ok world') :
    Told world' (reboundReports world (readProviderBinding digest world.config).hash reports) := by
  have hpaired := h.paired.refresh hrefresh
  rcases refreshBinding_ok hrefresh with ⟨hnone, rfl⟩ | ⟨hash, hhash, rfl⟩
  · rw [hnone]
    exact h
  · rw [hhash]
    have hincident : ∀ report, (reboundReport world hash report).incidentId = report.incidentId := by
      intro report
      unfold reboundReport
      split
      · rfl
      · rfl
    have hof : ∀ id, (reports.map (reboundReport world hash)).filter (·.incidentId = id)
        = (reports.filter (·.incidentId = id)).map (reboundReport world hash) := by
      intro id
      rw [List.filter_map]
      congr 1
      apply List.filter_congr
      intro report _
      simp [hincident]
    refine ⟨hpaired, ?_, ?_⟩
    · intro row hrow
      obtain ⟨old, hold, rfl⟩ := mem_rebind.1 hrow
      obtain ⟨⟨first, rest, hreports, hobserved, haligned⟩, hclass, hbinding⟩ := h.tells old hold
      have hid : (if waiting old then rebound hash old else old).id = old.id := by
        split
        · rfl
        · rfl
      have hfind : world.incidents.find? old.id = some old := Table.find?_eq_some.2 ⟨hold, rfl⟩
      have hreport : ∀ report ∈ reportsOf reports old.id,
          reboundReport world hash report
            = if waiting old then { report with standsUnder := some hash } else report := by
        intro report hmem
        have hreportId : report.incidentId = old.id :=
          of_decide_eq_true (List.mem_filter.1 hmem).2
        rw [reboundReport, hreportId, hfind, Option.any_some]
      rw [hid]
      show Tells _ ((reports.map (reboundReport world hash)).filter (·.incidentId = old.id))
      rw [hof]
      refine ⟨⟨reboundReport world hash first, rest.map (reboundReport world hash), ?_, ?_, ?_⟩,
        ?_, ?_⟩
      · exact congrArg (List.map (reboundReport world hash)) hreports
      · rw [hreport first (by rw [hreports]; exact List.mem_cons_self)]
        split
        · exact hobserved
        · exact hobserved
      · rw [hreport first (by rw [hreports]; exact List.mem_cons_self)]
        split
        · exact haligned
        · exact haligned
      · have hsame : lasting ((reports.filter (·.incidentId = old.id)).map
            (reboundReport world hash)) = lasting (reports.filter (·.incidentId = old.id)) := by
          unfold lasting
          rw [List.map_map]
          congr 2
          apply List.map_congr_left
          intro report _
          simp only [Function.comp_apply, reboundReport]
          split
          · rfl
          · rfl
        rw [hsame]
        split
        · exact hclass
        · exact hclass
      · intro report hmem hreportAligned
        obtain ⟨report, hold', rfl⟩ := List.mem_map.1 hmem
        rw [hreport report hold'] at hreportAligned ⊢
        by_cases hwaiting : waiting old = true
        · simp only [if_pos hwaiting]
          rfl
        · simp only [if_neg hwaiting] at hreportAligned ⊢
          exact hbinding report hold' hreportAligned
    · intro report hmem
      obtain ⟨report, hold, rfl⟩ := List.mem_map.1 hmem
      obtain ⟨row, hrow, hid⟩ := h.known report hold
      refine ⟨if waiting row then rebound hash row else row,
        mem_rebind.2 ⟨row, hrow, rfl⟩, ?_⟩
      rw [hincident, ← hid]
      split
      · rfl
      · rfl

private theorem reportsOf_append (reports : List Report) (report : Report) (id : Uuid) :
    reportsOf (reports ++ [report]) id
      = reportsOf reports id ++ if report.incidentId = id then [report] else [] := by
  simp only [reportsOf, List.filter_append, List.filter_singleton]
  by_cases hid : report.incidentId = id
  · simp [hid]
  · simp [hid]

/-- A report merged into its source's incident is told with the others. -/
theorem Told.merge {world : World} {reports : List Report} {input : RecordInput}
    {incidentId : Uuid} {row : IncidentRow} (h : Told world reports)
    (hopen : world.openOf input.sourceKind input.sourceId = some row) :
    Told { world with incidents := mergeInto (input.row incidentId) world.incidents }
      (reports ++ [reportOf input incidentId world]) := by
  obtain ⟨hrow, hsource⟩ := openOf_eq_some hopen
  have hreport : reportOf input incidentId world = ⟨row.id, input.classification,
      input.binding.hash, input.binding.hash, input.now, row.bindingSha256 = input.binding.hash⟩ := by
    rw [reportOf, hopen]
  have honly : ∀ other ∈ world.incidents,
      ofSource input.sourceKind input.sourceId other = true → other = row := by
    intro other hother hofSource
    obtain ⟨ho, hk, hs⟩ := ofSource_eq_true.1 hofSource
    obtain ⟨ho', hk', hs'⟩ := ofSource_eq_true.1 hsource
    exact h.paired.oneOpen other hother row hrow ho ho' (hk.trans hk'.symm) (hs.trans hs'.symm)
  refine ⟨?_, ?_, ?_⟩
  · exact h.paired.rewrite (fun _ => Table.mem_update) (fun _ => rfl) (fun _ => rfl)
      (fun _ => rfl) (fun _ => rfl) fun _ => rfl
  · intro x hx
    obtain ⟨old, hold, rfl⟩ := mem_mergeInto.1 hx
    have hid : (if ofSource input.sourceKind input.sourceId old
        then merged (input.row incidentId) old else old).id = old.id := by
      split
      · rfl
      · rfl
    rw [hid, reportsOf_append, hreport]
    by_cases hofSource : ofSource input.sourceKind input.sourceId old = true
    · obtain rfl := honly old hold hofSource
      obtain ⟨⟨first, rest, hreports, hobserved, haligned⟩, hclass, hbinding⟩ := h.tells old hold
      rw [if_pos hofSource, if_pos rfl]
      refine ⟨⟨first, rest ++ [_], by rw [hreports]; rfl, hobserved, haligned⟩, ?_, ?_⟩
      · rw [lasting_append]
        have hsame : lasting (reportsOf reports old.id) = old.classification :=
          hclass.symm
        simp only [merged, RecordInput.row]
        rw [← hsame]
      · intro report hmem hreportAligned
        rcases List.mem_append.1 hmem with hmem | hmem
        · exact hbinding report hmem hreportAligned
        · rw [List.mem_singleton.1 hmem] at hreportAligned ⊢
          exact (of_decide_eq_true hreportAligned).symm
    · have hne : row.id ≠ old.id := by
        intro hids
        rw [← Table.eq_of_key_eq hrow hold hids] at hofSource
        exact hofSource hsource
      rw [if_neg hofSource, if_neg hne, List.append_nil]
      exact h.tells old hold
  · intro report hmem
    have hkeeps : ∀ old ∈ world.incidents, ∃ x ∈ mergeInto (input.row incidentId) world.incidents,
        x.id = old.id := by
      intro old hold
      refine ⟨_, mem_mergeInto.2 ⟨old, hold, rfl⟩, ?_⟩
      split
      · rfl
      · rfl
    rcases List.mem_append.1 hmem with hmem | hmem
    · obtain ⟨old, hold, hid⟩ := h.known report hmem
      obtain ⟨x, hx, hxid⟩ := hkeeps old hold
      exact ⟨x, hx, hxid.trans hid⟩
    · rw [List.mem_singleton.1 hmem, hreport]
      exact hkeeps row hrow

/-- A report that opens an incident is all there is to tell of it. -/
theorem Told.opened {world : World} {reports : List Report} {input : RecordInput}
    {clock : Instant} {incidentId holdId : Uuid} {incidents : Table IncidentRow.id}
    {holds : HoldTable} (h : Told world reports)
    (hnone : world.openOf input.sourceKind input.sourceId = none)
    (hinsert : world.incidents.insert? (input.row incidentId) = some incidents)
    (hholds : world.holds.insert? (firstHold world clock holdId incidentId) = some holds) :
    Told ⟨world.config, setHold incidentId holdId incidents, holds⟩
      (reports ++ [reportOf input incidentId world]) := by
  have hreport : reportOf input incidentId world = ⟨incidentId, input.classification,
      input.binding.hash, input.binding.hash, input.now, true⟩ := by
    rw [reportOf, hnone]
  have hfresh : ∀ row ∈ world.incidents, row.id ≠ incidentId :=
    Table.find?_eq_none.1 (Table.insert?_eq_some hinsert).1
  have hkeeps : ∀ old ∈ incidents, ∃ x ∈ setHold incidentId holdId incidents, x.id = old.id := by
    intro old hold
    refine ⟨_, mem_setHold.2 ⟨old, hold, rfl⟩, ?_⟩
    split
    · rfl
    · rfl
  refine ⟨h.paired.opened hnone hinsert hholds, ?_, ?_⟩
  · intro x hx
    obtain ⟨old, hold, rfl⟩ := mem_setHold.1 hx
    rcases (Table.mem_insert? hinsert).1 hold with hmem | rfl
    · have hne : old.id ≠ incidentId := hfresh old hmem
      rw [if_neg hne, reportsOf_append, hreport, if_neg (Ne.symm hne),
        List.append_nil]
      exact h.tells old hmem
    · have hempty : reportsOf reports incidentId = [] := by
        apply List.filter_eq_nil_iff.2
        intro report hmem hid
        obtain ⟨row, hrow, hrowId⟩ := h.known report hmem
        exact hfresh row hrow (hrowId.trans (of_decide_eq_true hid))
      have hid : (input.row incidentId).id = incidentId := rfl
      rw [if_pos hid]
      show Tells _ (reportsOf (reports ++ [_]) incidentId)
      rw [reportsOf_append, hreport, hempty, if_pos rfl]
      refine ⟨⟨_, [], rfl, rfl, rfl⟩, ?_, ?_⟩
      · simp only [List.nil_append, lasting, RecordInput.row]
        cases hclass : input.classification <;> rfl
      · intro report hmem _
        rw [List.mem_singleton.1 hmem]
        rfl
  · intro report hmem
    rcases List.mem_append.1 hmem with hmem | hmem
    · obtain ⟨old, hold, hid⟩ := h.known report hmem
      obtain ⟨x, hx, hxid⟩ := hkeeps old ((Table.mem_insert? hinsert).2 (.inl hold))
      exact ⟨x, hx, hxid.trans hid⟩
    · rw [List.mem_singleton.1 hmem, hreport]
      exact hkeeps _ ((Table.mem_insert? hinsert).2 (.inr rfl))

theorem Told.revalidate {digest : BindingMetadata → JsString} {actor : Actor} {basis : Basis}
    {now clock : Instant} {world world' : World} {reports : List Report}
    (h : Told world reports)
    (hok : revalidateProviderIncidentConfiguration digest actor basis now clock world
      = .ok world') :
    Told world' (if mayRevalidate actor basis then
      reboundReports world (readProviderBinding digest world.config).hash reports else reports) := by
  simp only [revalidateProviderIncidentConfiguration, bind, Except.bind] at hok
  split at hok
  · next hmay =>
    obtain rfl := Except.ok.inj hok
    rw [if_neg (by simpa using hmay)]
    exact h
  · next hmay =>
    rw [if_pos (by simpa using hmay)]
    split at hok
    · cases hok
    · next bound hbound =>
      have hbound := h.refresh hbound
      split at hok
      · obtain rfl := Except.ok.inj hok
        exact hbound
      · split at hok
        · cases hok
        · next hreconnected => exact (hbound.resolve hreconnected).resolve hok

theorem Told.step {digest : BindingMetadata → JsString} {t : Traced} (h : Told t.world t.reports)
    (input : Input) :
    Told (tracedStep digest t input).world (tracedStep digest t input).reports := by
  obtain ⟨world, reports⟩ := t
  unfold tracedStep
  cases hok : apply digest world input with
  | error failure => exact h
  | ok world' =>
    cases input with
    | configure config =>
      obtain rfl := Except.ok.inj hok
      exact h.configured config
    | record input clock incidentId holdId =>
      rcases recordProviderIncident_ok h.paired.held hok with
        ⟨row, hopen, rfl⟩ | ⟨hnone, incidents, holds, hinsert, hholds, rfl⟩
      · exact h.merge hopen
      · exact h.opened hnone hinsert hholds
    | read before now sources clock =>
      simp only [apply, resolveProviderIncidentsAfterRead] at hok
      split at hok
      · obtain rfl := Except.ok.inj hok
        exact h
      · split at hok
        · obtain rfl := Except.ok.inj hok
          exact h
        · simp only [bind, Except.bind] at hok
          split at hok
          · cases hok
          · split at hok
            · obtain rfl := Except.ok.inj hok
              exact h
            · exact h.resolve hok
    | supersede now clock =>
      simp only [apply, supersedeStaleTokenRefreshIncidents] at hok
      split at hok
      · obtain rfl := Except.ok.inj hok
        exact h
      · exact h.resolve hok
    | revalidate actor basis now clock => exact h.revalidate hok
    | reconnect config actor now clock => exact (h.configured config).revalidate hok

/-! ## What a step does to an incident -/

/-- `connected_at` as the step meets it. -/
def Input.grant (world : World) : Input → Instant
  | .reconnect config _ _ _ => config.connectedAt
  | _ => world.config.connectedAt

/-- A reconnection, or the revalidation it ends in. -/
def Input.Reconnects : Input → Prop
  | .revalidate _ basis _ _ => basis = .oauthReconnected
  | .reconnect _ _ _ _ => True
  | _ => False

def Input.Supersedes : Input → Prop
  | .supersede _ _ => True
  | input => input.Reconnects

/-- What a step resolves an incident on, by its columns. -/
inductive Resolves (world : World) (row : IncidentRow) : Input → Prop
  | read (before : ProviderBinding) (now : Instant) (sources : List ProviderIncidentSource)
      (clock : Instant) (hash : JsString) (deadline : Instant) (hbefore : before.hash = some hash)
      (hbinding : row.bindingSha256 = some hash) (hclass : row.classification = .transient)
      (hretry : row.retryAt = some deadline) (hdeadline : deadline ≤ now) :
      Resolves world row (.read before now sources clock)
  | superseded (input : Input) (hinput : input.Supersedes) (hkind : row.sourceKind = .tokenRefresh)
      (hobserved : row.observedAt < input.grant world) : Resolves world row input
  | reconnected (input : Input) (hinput : input.Reconnects)
      (hclass : row.classification = .authentication)
      (hobserved : row.observedAt ≤ input.grant world) : Resolves world row input

/-- What a step makes of an incident; a resolution is on `P`. -/
structure Moved (P : IncidentRow → Prop) (row row' : IncidentRow) : Prop where
  id : row'.id = row.id
  settled : row.unresolved = false → row' = row
  retry : ∀ deadline deadline', row.classification = .transient →
    row.retryAt = some deadline → row'.retryAt = some deadline' → deadline ≤ deadline'
  lasting : row.classification ≠ .transient → row'.classification = row.classification
  resolves : row.unresolved = true → row'.unresolved = false → P row

/-- A move that leaves the deadline, the class and the source. -/
structure Cleared (P : IncidentRow → Prop) (row row' : IncidentRow) : Prop where
  id : row'.id = row.id
  retry : row'.retryAt = row.retryAt
  classification : row'.classification = row.classification
  sourceKind : row'.sourceKind = row.sourceKind
  observedAt : row'.observedAt = row.observedAt
  settled : row.unresolved = false → row' = row
  resolves : row.unresolved = true → row'.unresolved = false → P row

variable {P : IncidentRow → Prop} {row row' row'' : IncidentRow}

theorem Cleared.refl (row : IncidentRow) : Cleared P row row := by
  refine ⟨rfl, rfl, rfl, rfl, rfl, fun _ => rfl, fun h h' => ?_⟩
  rw [h] at h'
  cases h'

theorem Cleared.trans (hP : ∀ row row' : IncidentRow, row'.classification = row.classification →
      row'.sourceKind = row.sourceKind → row'.observedAt = row.observedAt → P row' → P row)
    (h : Cleared P row row') (h' : Cleared P row' row'') : Cleared P row row'' := by
  refine ⟨h'.id.trans h.id, h'.retry.trans h.retry, h'.classification.trans h.classification,
    h'.sourceKind.trans h.sourceKind, h'.observedAt.trans h.observedAt, ?_, ?_⟩
  · intro hresolved
    have hsame := h.settled hresolved
    subst hsame
    exact h'.settled hresolved
  · intro hopen hresolved
    by_cases hmiddle : row'.unresolved = true
    · exact hP row row' h.classification h.sourceKind h.observedAt (h'.resolves hmiddle hresolved)
    · exact h.resolves hopen (by simpa using hmiddle)

theorem Cleared.moved (h : Cleared P row row') : Moved P row row' := by
  refine ⟨h.id, h.settled, ?_, fun _ => h.classification, h.resolves⟩
  intro deadline deadline' _ hretry hretry'
  rw [h.retry, hretry] at hretry'
  obtain rfl := Option.some.inj hretry'
  exact Int.le_refl deadline

theorem cleared_resolved {which : IncidentRow → Bool} {instant : Instant} {resolution : Resolution}
    (hwhich : which row = true → row.unresolved = true ∧ P row) :
    Cleared P row (if which row then resolved instant resolution row else row) := by
  split
  · next h =>
    refine ⟨rfl, rfl, rfl, rfl, rfl, fun hresolved => ?_, fun _ _ => (hwhich h).2⟩
    rw [(hwhich h).1] at hresolved
    cases hresolved
  · exact .refl row

theorem cleared_rebound {hash : JsString} :
    Cleared P row (if waiting row then rebound hash row else row) := by
  split
  · next h =>
    have hopen : row.unresolved = true := by
      simp only [waiting, Bool.and_eq_true] at h
      exact h.2
    refine ⟨rfl, rfl, rfl, rfl, rfl, fun hresolved => ?_, fun _ hresolved => ?_⟩
    · rw [hopen] at hresolved
      cases hresolved
    · have hsame : (rebound hash row).unresolved = row.unresolved := rfl
      rw [hsame, hopen] at hresolved
      cases hresolved
  · exact .refl row

/-- A merge never brings a deadline forward, nor a lasting class back. -/
theorem moved_merged {input : RecordInput} {incidentId : Uuid} :
    Moved P row (if ofSource input.sourceKind input.sourceId row then
      merged (input.row incidentId) row else row) := by
  split
  · next h =>
    have hopen := (ofSource_eq_true.1 h).1
    refine ⟨rfl, fun hresolved => ?_, ?_, ?_, fun _ hresolved => ?_⟩
    · rw [hopen] at hresolved
      cases hresolved
    · intro deadline deadline' _ hretry hretry'
      simp only [merged] at hretry'
      split at hretry'
      · rw [hretry] at hretry'
        cases hother : (input.row incidentId).retryAt with
        | none =>
          rw [hother] at hretry'
          cases hretry'
        | some other =>
          rw [hother] at hretry'
          obtain rfl := Option.some.inj hretry'
          exact Int.le_max_left deadline other
      · cases hretry'
    · intro hclass
      exact if_neg hclass
    · have hsame : (merged (input.row incidentId) row).unresolved = row.unresolved := rfl
      rw [hsame, hopen] at hresolved
      cases hresolved
  · exact (Cleared.refl row).moved

theorem cleared_of_resolve {world world' : World} {which : IncidentRow → Bool}
    {instant clock : Instant} {resolution : Resolution}
    (h : resolveIncidents which instant resolution clock world = .ok world')
    (hrow : row ∈ world.incidents) (hwhich : which row = true → row.unresolved = true ∧ P row) :
    ∃ row' ∈ world'.incidents, Cleared P row row' := by
  obtain ⟨-, hincidents, -⟩ := resolveIncidents_ok h
  refine ⟨if which row then resolved instant resolution row else row, ?_,
    cleared_resolved hwhich⟩
  rw [hincidents]
  exact mem_resolveRows.2 ⟨row, hrow, rfl⟩

/-- What a reconnection resolves incidents on. -/
def OnGrant (config : Configuration) (row : IncidentRow) : Prop :=
  row.sourceKind = .tokenRefresh ∧ row.observedAt < config.connectedAt ∨
    row.classification = .authentication ∧ row.observedAt ≤ config.connectedAt

theorem onGrant_superseded {config : Configuration} (h : superseded config row = true) :
    row.unresolved = true ∧ row.sourceKind = .tokenRefresh ∧
      row.observedAt < config.connectedAt := by
  simp only [superseded, Bool.and_eq_true, decide_eq_true_eq] at h
  exact ⟨h.1.1.2, h.1.1.1, h.1.2⟩

theorem cleared_revalidate {digest : BindingMetadata → JsString} {actor : Actor} {basis : Basis}
    {now clock : Instant} {world world' : World} (hrow : row ∈ world.incidents)
    (hok : revalidateProviderIncidentConfiguration digest actor basis now clock world
      = .ok world') : ∃ row' ∈ world'.incidents,
        Cleared (fun row => basis = .oauthReconnected ∧ OnGrant world.config row) row row' := by
  have hstable : ∀ a b : IncidentRow, b.classification = a.classification →
      b.sourceKind = a.sourceKind → b.observedAt = a.observedAt →
      basis = .oauthReconnected ∧ OnGrant world.config b →
      basis = .oauthReconnected ∧ OnGrant world.config a := by
    intro a b hclass hkind hobserved h
    rwa [OnGrant, hclass, hkind, hobserved] at h
  simp only [revalidateProviderIncidentConfiguration, bind, Except.bind] at hok
  split at hok
  · obtain rfl := Except.ok.inj hok
    exact ⟨row, hrow, .refl row⟩
  · split at hok
    · cases hok
    · next bound hbound =>
      have hfirst : bound.config = world.config ∧ ∃ x ∈ bound.incidents,
          Cleared (fun row => basis = .oauthReconnected ∧ OnGrant world.config row) row x := by
        rcases refreshBinding_ok hbound with ⟨-, rfl⟩ | ⟨hash, -, rfl⟩
        · exact ⟨rfl, row, hrow, .refl row⟩
        · exact ⟨rfl, _, mem_rebind.2 ⟨row, hrow, rfl⟩, cleared_rebound⟩
      obtain ⟨hconfig, x, hx, hrowx⟩ := hfirst
      split at hok
      · obtain rfl := Except.ok.inj hok
        exact ⟨x, hx, hrowx⟩
      · next hbasis =>
        have hbasis : basis = .oauthReconnected := not_not.1 hbasis
        split at hok
        · cases hok
        · next reconnected hreconnected =>
          obtain ⟨y, hy, hxy⟩ := cleared_of_resolve
            (P := fun row => basis = .oauthReconnected ∧ OnGrant world.config row)
            hreconnected hx (by
              intro h
              simp only [reconnectedRow, Bool.and_eq_true, decide_eq_true_eq, hconfig] at h
              exact ⟨h.1.1.2, hbasis, .inr ⟨h.1.1.1, h.1.2⟩⟩)
          have hconfig' : reconnected.config = world.config :=
            (resolveIncidents_ok hreconnected).1.trans hconfig
          obtain ⟨z, hz, hyz⟩ := cleared_of_resolve
            (P := fun row => basis = .oauthReconnected ∧ OnGrant world.config row)
            hok hy (by
              intro h
              rw [hconfig'] at h
              obtain ⟨hopen, hkind, hobserved⟩ := onGrant_superseded h
              exact ⟨hopen, hbasis, .inl ⟨hkind, hobserved⟩⟩)
          exact ⟨z, hz, (hrowx.trans hstable hxy).trans hstable hyz⟩

theorem apply_moved {digest : BindingMetadata → JsString} {world world' : World} {input : Input}
    (h : Paired world) (hok : apply digest world input = .ok world')
    (hrow : row ∈ world.incidents) :
    ∃ row' ∈ world'.incidents, Moved (Resolves world · input) row row' := by
  have hsame : Moved (Resolves world · input) row row := (Cleared.refl row).moved
  cases input with
  | configure config =>
    obtain rfl := Except.ok.inj hok
    exact ⟨row, hrow, hsame⟩
  | record input clock incidentId holdId =>
    rcases recordProviderIncident_ok h.held hok with
      ⟨_, -, rfl⟩ | ⟨-, incidents, holds, hinsert, -, rfl⟩
    · exact ⟨_, mem_mergeInto.2 ⟨row, hrow, rfl⟩, moved_merged⟩
    · have hne : row.id ≠ incidentId :=
        Table.find?_eq_none.1 (Table.insert?_eq_some hinsert).1 row hrow
      refine ⟨row, mem_setHold.2 ⟨row, (Table.mem_insert? hinsert).2 (.inl hrow), ?_⟩, hsame⟩
      exact (if_neg hne).symm
  | read before now sources clock =>
    simp only [apply, resolveProviderIncidentsAfterRead] at hok
    split at hok
    · obtain rfl := Except.ok.inj hok
      exact ⟨row, hrow, hsame⟩
    · next hash hhash =>
      split at hok
      · obtain rfl := Except.ok.inj hok
        exact ⟨row, hrow, hsame⟩
      · simp only [bind, Except.bind] at hok
        split at hok
        · cases hok
        · split at hok
          · obtain rfl := Except.ok.inj hok
            exact ⟨row, hrow, hsame⟩
          · obtain ⟨row', hrow', hcleared⟩ := cleared_of_resolve
              (P := (Resolves world · (.read before now sources clock))) hok hrow (by
                intro hclears
                simp only [clearedByRead, Bool.and_eq_true, decide_eq_true_eq] at hclears
                obtain ⟨⟨⟨⟨hbinding, hclass⟩, -⟩, hdeadline⟩, hopen⟩ := hclears
                obtain ⟨deadline, hretry, hle⟩ := (Option.any_eq_true _ _).1 hdeadline
                exact ⟨hopen, .read before now sources clock hash deadline hhash hbinding hclass
                  hretry (of_decide_eq_true hle)⟩)
            exact ⟨row', hrow', hcleared.moved⟩
  | supersede now clock =>
    simp only [apply, supersedeStaleTokenRefreshIncidents] at hok
    split at hok
    · obtain rfl := Except.ok.inj hok
      exact ⟨row, hrow, hsame⟩
    · obtain ⟨row', hrow', hcleared⟩ := cleared_of_resolve
        (P := (Resolves world · (.supersede now clock))) hok hrow (by
          intro hsuperseded
          obtain ⟨hopen, hkind, hobserved⟩ := onGrant_superseded hsuperseded
          exact ⟨hopen, .superseded _ trivial hkind hobserved⟩)
      exact ⟨row', hrow', hcleared.moved⟩
  | revalidate actor basis now clock =>
    obtain ⟨row', hrow', hcleared⟩ := cleared_revalidate hrow hok
    have hmoved := hcleared.moved
    refine ⟨row', hrow', hmoved.id, hmoved.settled, hmoved.retry, hmoved.lasting, ?_⟩
    intro hopen hresolved
    rcases hmoved.resolves hopen hresolved with ⟨hbasis, ⟨hkind, hobserved⟩ | ⟨hclass, hobserved⟩⟩
    · exact .superseded _ hbasis hkind hobserved
    · exact .reconnected _ hbasis hclass hobserved
  | reconnect config actor now clock =>
    have hconfigured : row ∈ (world.configured config).incidents := hrow
    obtain ⟨row', hrow', hcleared⟩ := cleared_revalidate hconfigured hok
    have hmoved := hcleared.moved
    refine ⟨row', hrow', hmoved.id, hmoved.settled, hmoved.retry, hmoved.lasting, ?_⟩
    intro hopen hresolved
    rcases hmoved.resolves hopen hresolved with ⟨-, ⟨hkind, hobserved⟩ | ⟨hclass, hobserved⟩⟩
    · exact .superseded _ trivial hkind hobserved
    · exact .reconnected _ trivial hclass hobserved

/-! ## Runs -/

/-- What a step resolves an incident on, by its reports. -/
inductive ClearedOn (world : World) (row : IncidentRow) (reports : List Report) : Input → Prop
  | read (before : ProviderBinding) (now : Instant) (sources : List ProviderIncidentSource)
      (clock : Instant) (hash : JsString) (deadline : Instant) (hbefore : before.hash = some hash)
      (hclass : ∀ report ∈ reports, report.classification = .transient)
      (hretry : row.retryAt = some deadline) (hdeadline : deadline ≤ now)
      (hopening : ∃ first, reports.head? = some first ∧ first.standsUnder = some hash)
      (hbinding : ∀ report ∈ reports, report.aligned = true → report.standsUnder = some hash) :
      ClearedOn world row reports (.read before now sources clock)
  | superseded (input : Input) (hinput : input.Supersedes) (hkind : row.sourceKind = .tokenRefresh)
      (hopening : ∃ first, reports.head? = some first ∧ first.observedAt < input.grant world) :
      ClearedOn world row reports input
  | reconnected (input : Input) (hinput : input.Reconnects)
      (hlasting : lasting reports = .authentication)
      (hopening : ∃ first, reports.head? = some first ∧ first.observedAt ≤ input.grant world) :
      ClearedOn world row reports input

theorem Tells.clearedOn {world : World} {reports : List Report} {input : Input}
    (h : Tells row reports) (hresolves : Resolves world row input) :
    ClearedOn world row reports input := by
  obtain ⟨⟨first, rest, rfl, hobserved, haligned⟩, hclass, hbinding⟩ := h
  cases hresolves with
  | read before now sources clock hash deadline hbefore hrow htransient hretry hdeadline =>
    rw [hrow] at hbinding
    refine .read before now sources clock hash deadline hbefore ?_ hretry hdeadline ?_ hbinding
    · exact all_transient_of_lasting (hclass.symm.trans htransient)
    · exact ⟨first, rfl, hbinding first List.mem_cons_self haligned⟩
  | superseded _ hinput hkind hbefore =>
    exact .superseded _ hinput hkind ⟨first, rfl, hobserved ▸ hbefore⟩
  | reconnected _ hinput hauthentication hbefore =>
    exact .reconnected _ hinput (hclass.symm.trans hauthentication)
      ⟨first, rfl, hobserved ▸ hbefore⟩

def OneOpenASource (world : World) : Prop :=
  ∀ row ∈ world.incidents, ∀ other ∈ world.incidents, row.unresolved = true →
    other.unresolved = true → row.sourceKind = other.sourceKind →
    row.sourceId = other.sourceId → row = other

/-- One open hold an unresolved incident, none a resolved one. -/
def HoldsPaired (world : World) : Prop :=
  ∀ row ∈ world.incidents, world.holds.count (refusalOf world.config.workspaceId row.id)
    = if row.unresolved then 1 else 0

/-- After every history of a mailbox, at every further step: one unresolved incident a source
and one open hold for it; deadlines never come forward and lasting classes stay; a read clears
an incident all of whose reports are transient, after its deadline, under the binding its
opening report stands under; a reconnection clears one whose opening report was made before
the grant; and one whose lasting class is reputation or unknown is cleared only so, on a
token refresh. -/
theorem incidents_clear_on_opening_report (digest : BindingMetadata → JsString)
    (config : Configuration) (front : List Input) (input : Input) :
    let t := run (tracedStep digest) (.fresh config) front
    OneOpenASource t.world ∧ HoldsPaired t.world ∧
      ∀ row ∈ t.world.incidents, ∃ row' ∈ (step digest t.world input).incidents,
        Moved (fun row => ClearedOn t.world row (reportsOf t.reports row.id) input) row row' ∧
        (lasting (reportsOf t.reports row.id) = .reputation ∨
            lasting (reportsOf t.reports row.id) = .unknown →
          row.unresolved = true → row'.unresolved = false →
          row.sourceKind = .tokenRefresh ∧ input.Supersedes ∧
            ∃ first, (reportsOf t.reports row.id).head? = some first ∧
              first.observedAt < input.grant t.world) := by
  intro t
  have htold : Told t.world t.reports :=
    run_invariant (I := fun t : Traced => Told t.world t.reports)
      (fun _ input h => h.step input) (told_fresh config) front
  refine ⟨htold.paired.oneOpen, htold.paired.paired, fun row hrow => ?_⟩
  have htells := htold.tells row hrow
  have hmoved : ∃ row' ∈ (step digest t.world input).incidents,
      Moved (Resolves t.world · input) row row' := by
    unfold step
    split
    · next hok => exact apply_moved htold.paired hok hrow
    · exact ⟨row, hrow, (Cleared.refl row).moved⟩
  obtain ⟨row', hrow', hid, hsettled, hretry, hlasting, hresolves⟩ := hmoved
  refine ⟨row', hrow', ⟨hid, hsettled, hretry, hlasting, ?_⟩, ?_⟩
  · exact fun hopen hresolved => htells.clearedOn (hresolves hopen hresolved)
  · intro hclass hopen hresolved
    cases htells.clearedOn (hresolves hopen hresolved) with
    | read before now sources clock hash deadline hbefore htransient =>
      obtain ⟨first, rest, hreports, -⟩ := htells.opening
      have hnone : lasting (reportsOf t.reports row.id) = .transient := by
        unfold lasting
        have hfind : ((reportsOf t.reports row.id).map (·.classification)).find?
            (· ≠ .transient) = none := by
          apply List.find?_eq_none.2
          intro class' hmem
          obtain ⟨report, hreport, rfl⟩ := List.mem_map.1 hmem
          simp [htransient report hreport]
        rw [hfind]
        rfl
      rw [hnone] at hclass
      rcases hclass with h | h <;> cases h
    | superseded _ hinput hkind hopening => exact ⟨hkind, hinput, hopening⟩
    | reconnected _ hinput hauthentication =>
      rw [hauthentication] at hclass
      rcases hclass with h | h <;> cases h

/-! ## A report of another binding -/

/-- A read resolves an incident only if all its reports were made under the read's binding. -/
def ReadsOwnReports (digest : BindingMetadata → JsString) (t : Traced)
    (before : ProviderBinding) (now : Instant) (sources : List ProviderIncidentSource)
    (clock : Instant) : Prop :=
  ∀ row ∈ t.world.incidents, row.unresolved = true →
    ∀ row' ∈ (step digest t.world (.read before now sources clock)).incidents,
      row'.id = row.id → row'.unresolved = false →
      ∀ report ∈ reportsOf t.reports row.id, report.madeUnder = before.hash

/-- A digest that tells revisions apart. -/
def revisionDigest (metadata : BindingMetadata) : JsString :=
  List.replicate 64 (if metadata.revision = some 1 then 97 else 98)

def reviewedMailbox (revision : Nat) : Configuration where
  workspaceId := js "w"
  mailboxId := js "m"
  generation := 1
  emailAddress := js "a@b.c"
  ownerUserId := js "u"
  providerAccountId := some (js "a@b.c")
  status := .connected
  connectedAt := 0
  ownerActive := true
  token := some ⟨0, none⟩
  domain := some ⟨js "d", true, true, true, some 0, some 0, true, some 0⟩
  authorization := some ⟨revision, true, js "u", js "a@b.c", js "a@b.c"⟩

/-- A rate limit is reported; the permission is granted anew, and an admin revalidates. -/
def cooldownThenPermission : List Input :=
  [.record ⟨.mailRead, js "m", .transient, js "rate_limited", some 20,
      readProviderBinding revisionDigest (reviewedMailbox 1), 10⟩ 10 (js "i") (js "h"),
    .configure (reviewedMailbox 2),
    .revalidate .admin .permissionRevalidated 15 15]

/-- The incident as the revalidation and then the read leave it. -/
def cooldownRow (resolvedAt : Option Instant) (resolution : Option Resolution) : IncidentRow :=
  ⟨js "i", .mailRead, js "m", .transient, js "rate_limited", some (List.replicate 64 98), 10,
    some 20, some (js "h"), resolvedAt, resolution⟩

/-- The revalidation moves the incident to the new binding, and a read under that one clears
it, though its report was made under the one before. -/
theorem revalidated_report_cleared :
    ¬ ReadsOwnReports revisionDigest
      (run (tracedStep revisionDigest) (.fresh (reviewedMailbox 1)) cooldownThenPermission)
      (readProviderBinding revisionDigest (reviewedMailbox 2)) 30 [.mailRead] 30 := by
  intro h
  let t := run (tracedStep revisionDigest) (.fresh (reviewedMailbox 1)) cooldownThenPermission
  let w' := step revisionDigest t.world
    (.read (readProviderBinding revisionDigest (reviewedMailbox 2)) 30 [.mailRead] 30)
  have hrows : t.world.incidents.rows = [cooldownRow none none] := by decide +kernel
  have hrows' : w'.incidents.rows = [cooldownRow (some 30) (some .verifiedRead)] := by
    decide +kernel
  have hreports : t.reports = [⟨js "i", .transient, some (List.replicate 64 97),
      some (List.replicate 64 98), 10, true⟩] := by
    decide +kernel
  have hrow : cooldownRow none none ∈ t.world.incidents := by
    rw [← Table.mem_rows, hrows]
    exact List.mem_singleton_self _
  have hrow' : cooldownRow (some 30) (some .verifiedRead) ∈ w'.incidents := by
    rw [← Table.mem_rows, hrows']
    exact List.mem_singleton_self _
  have hall := h _ hrow rfl _ hrow' rfl rfl
  have hmade : some (List.replicate 64 97)
      = (readProviderBinding revisionDigest (reviewedMailbox 2)).hash := by
    apply hall ⟨js "i", .transient, some (List.replicate 64 97), some (List.replicate 64 98), 10,
      true⟩
    apply List.mem_filter.2
    show _ ∈ t.reports ∧ _
    rw [hreports]
    exact ⟨List.mem_singleton_self _, by decide⟩
  revert hmade
  decide

end FoundingSales.Outbound.Incidents
