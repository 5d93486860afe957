import FoundingSales.Crm.Pipeline

/-!
What the history of a pipeline says of its opportunities.

Opening is the one command that does not look at the terminal kind of its stage: an
opportunity opened at Won or Lost is open there, and no later move closes it.

Proved here:

* `Good.step`: the invariant, for every step that opens no opportunity at a terminal stage;
* `StepSound`: what one step may change of a control mode and of a closed opportunity;
* `pipeline_history`: both, for every run of such steps;
* `pipeline_history_opened_closed`: an opening at Won.
-/

namespace FoundingSales.Crm.Pipeline

open Tables

/-! ## What holds of an opportunity -/

/-- Stage events, newest first, that lead from nothing to a stage. -/
inductive Chain : List StageEvent → Uuid → Prop
  | opened {event : StageEvent} (h : event.fromStageId = none) : Chain [event] event.toStageId
  | moved {events : List StageEvent} {stageId : Uuid} {event : StageEvent}
      (h : Chain events stageId) (hfrom : event.fromStageId = some stageId) :
      Chain (event :: events) event.toStageId

def Store.eventsOf (s : Store) (id : Uuid) : List StageEvent :=
  s.stageEvents.filter fun event => event.opportunityId = id

def Store.countOf (s : Store) (kind : DomainEventKind) (id : Uuid) : Nat :=
  s.domainEvents.count fun event => event.kind = kind && event.opportunityId = id

/-- The terminal kind of a stage. -/
def Store.terminalKindAt (s : Store) (stageId : Uuid) : Option TerminalKind :=
  (s.stages.find? stageId).bind PipelineStage.terminalKind

structure Opportunity.Sound (s : Store) (o : Opportunity) : Prop where
  chain : Chain (s.eventsOf o.id) o.stageId
  closed : o.status ≠ .open_ ↔ (s.terminalKindAt o.stageId).isSome = true
  closedAt : o.closedAt.isSome = true ↔ o.status ≠ .open_
  lost : o.status = .lost → ∃ reason, o.closeReason = some reason ∧ presentWithin 500 reason = true
  pin : o.status ≠ .open_ → s.pins.find? o.id = none
  stop : s.countOf .terminalStop o.id = if o.status = .open_ then 0 else 1

/-- The one command that may reverse a manual mode. -/
def ReleasedBy (input : Input) (s : Store) (o : Opportunity) : Prop :=
  ∃ actor elapsed newId reason,
    input = .command actor elapsed newId (.classifyControlModeOrigin ⟨o.id, .directSend, reason⟩) ∧
    decideAdminOnly actor = none ∧ o.controlModeOrigin = none ∧ o.reopenedFrom = none ∧
    liveWork s.enrollments o.id = []

/-- What a step may make of an opportunity. -/
structure Kept (input : Input) (s s' : Store) (o o' : Opportunity) : Prop where
  closed : o.status ≠ .open_ → o'.stageId = o.stageId ∧ o'.status = o.status
  released : o.controlMode = .manual → o'.controlMode = .automated → ReleasedBy input s o
  takeover : o.controlModeOrigin = some .salespersonCommand →
    o'.controlModeOrigin = some .salespersonCommand
  manual : o.controlMode = .automated → o'.controlMode = .manual →
    s'.countOf .manualMode o.id = s.countOf .manualMode o.id + 1

def StepSound (input : Input) (s s' : Store) : Prop :=
  ∀ id o, s.opportunities.find? id = some o →
    ∃ o', s'.opportunities.find? id = some o' ∧ Kept input s s' o o'

/-! ## The invariant -/

def DedupeKey.opportunityId : DedupeKey → Uuid
  | .stage id _ | .instant id _ | .opportunity id => id

/-- A manual mode with an origin, which nothing takes back. -/
def Opportunity.Settled (o : Opportunity) : Prop :=
  o.controlMode = .manual ∧ o.controlModeOrigin.isSome = true

/-- Since `start`: what predates it may have left its manual modes without an origin. -/
structure Good (start : Instant) (s : Store) : Prop where
  sound : ∀ o ∈ s.opportunities, o.Sound s
  staged : ∀ o ∈ s.opportunities, (s.stages.find? o.stageId).isSome = true
  automated : ∀ o ∈ s.opportunities, o.controlMode = .automated → o.controlModeOrigin = none
  fresh : ∀ id, s.opportunities.find? id = none →
    s.eventsOf id = [] ∧ s.pins.find? id = none ∧
      ∀ event ∈ s.domainEvents, event.opportunityId ≠ id
  keyed : ∀ event ∈ s.domainEvents, event.dedupeKey.opportunityId = event.opportunityId
  settled : ∀ event ∈ s.domainEvents, ∀ id instant, event.kind = .manualMode →
    event.dedupeKey = .instant id instant →
    instant < start ∨ ∃ o, s.opportunities.find? id = some o ∧ o.Settled

/-! ## Domain events -/

section Events

variable {s : Store} {event : DomainEvent} {kind : DomainEventKind} {id : Uuid}

theorem mem_emit {other : DomainEvent}
    (h : other ∈ (emitCrmDomainEvent event s).domainEvents) :
    other ∈ s.domainEvents ∨ other = event := by
  unfold emitCrmDomainEvent at h
  cases hinsert : s.domainEvents.insert? event with
  | none =>
    simp only [hinsert, Option.getD_none] at h
    exact .inl h
  | some t =>
    simp only [hinsert, Option.getD_some] at h
    exact (Table.mem_insert? hinsert).1 h

theorem countOf_emit_of_ne (h : event.kind ≠ kind ∨ event.opportunityId ≠ id) :
    (emitCrmDomainEvent event s).countOf kind id = s.countOf kind id := by
  unfold emitCrmDomainEvent Store.countOf
  cases hinsert : s.domainEvents.insert? event with
  | none => rfl
  | some t =>
    have hcount : (decide (event.kind = kind) && decide (event.opportunityId = id)) = false := by
      rcases h with h | h <;> simp [h]
    simp [Table.count, (Table.insert?_eq_some hinsert).2, List.countP_append, hcount]

/-- An event under a key nothing has taken is emitted once. -/
theorem countOf_emit_self (hfresh : ∀ other ∈ s.domainEvents, other.dedupe ≠ event.dedupe) :
    (emitCrmDomainEvent event s).countOf event.kind event.opportunityId
      = s.countOf event.kind event.opportunityId + 1 := by
  unfold emitCrmDomainEvent Store.countOf
  cases hinsert : s.domainEvents.insert? event with
  | none =>
    obtain ⟨other, hother, hkey⟩ := Table.insert?_eq_none hinsert
    exact absurd hkey (hfresh other hother)
  | some t =>
    simp [Table.count, (Table.insert?_eq_some hinsert).2, List.countP_append]

end Events

/-! ## What a change keeps -/

section Changes

variable {start : Instant} {s : Store} {o o' : Opportunity}

theorem eventsOf_cons {s' : Store} {event : StageEvent}
    (h : s'.stageEvents = event :: s.stageEvents) (id : Uuid) :
    s'.eventsOf id = if event.opportunityId = id then event :: s.eventsOf id else s.eventsOf id := by
  simp only [Store.eventsOf, h, List.filter_cons, decide_eq_true_eq]

theorem Opportunity.Sound.frame {s' : Store} (h : o.Sound s)
    (hevents : s'.eventsOf o.id = s.eventsOf o.id)
    (hstage : s'.terminalKindAt o.stageId = s.terminalKindAt o.stageId)
    (hpin : s'.pins.find? o.id = s.pins.find? o.id)
    (hstop : s'.countOf .terminalStop o.id = s.countOf .terminalStop o.id) : o.Sound s' := by
  refine ⟨?_, ?_, h.closedAt, h.lost, ?_, ?_⟩
  · rw [hevents]
    exact h.chain
  · rw [hstage]
    exact h.closed
  · rw [hpin]
    exact h.pin
  · rw [hstop]
    exact h.stop

/-- A row is opened at a stage that is not terminal. -/
theorem Good.opened (h : Good start s) {t : Opportunities} {stage : PipelineStage}
    {event : StageEvent} (hinsert : s.opportunities.insert? o = some t)
    (hstatus : o.status = .open_) (hclosedAt : o.closedAt = none)
    (hmode : o.controlMode = .automated → o.controlModeOrigin = none)
    (hstage : s.stages.find? o.stageId = some stage) (hopen : stage.terminalKind = none)
    (hevent : event.opportunityId = o.id) (hfrom : event.fromStageId = none)
    (hto : event.toStageId = o.stageId) :
    Good start { s with opportunities := t, stageEvents := event :: s.stageEvents } := by
  obtain ⟨hnone, -⟩ := Table.insert?_eq_some hinsert
  obtain ⟨hevents, hpins, hdomain⟩ := h.fresh o.id hnone
  have hother : ∀ x ∈ s.opportunities, event.opportunityId ≠ x.id := by
    intro x hx heq
    exact Table.find?_eq_none.1 hnone x hx (heq.symm.trans hevent)
  have hcount : s.countOf .terminalStop o.id = 0 := by
    unfold Store.countOf Table.count
    rw [List.countP_eq_zero]
    intro other hmem
    simp [hdomain other hmem]
  refine ⟨?_, ?_, ?_, ?_, h.keyed, ?_⟩
  · intro x hx
    rcases (Table.mem_insert? hinsert).1 hx with hx | rfl
    · refine (h.sound x hx).frame ?_ rfl rfl rfl
      rw [eventsOf_cons rfl, if_neg (hother x hx)]
    · refine ⟨?_, ?_, ?_, ?_, ?_, ?_⟩
      · rw [eventsOf_cons rfl, if_pos hevent, hevents, ← hto]
        exact .opened hfrom
      · simp [hstatus, Store.terminalKindAt, hstage, hopen]
      · simp [hstatus, hclosedAt]
      · simp [hstatus]
      · simp [hstatus]
      · rw [if_pos hstatus]
        exact hcount
  · intro x hx
    rcases (Table.mem_insert? hinsert).1 hx with hx | rfl
    · exact h.staged x hx
    · simp [hstage]
  · intro x hx
    rcases (Table.mem_insert? hinsert).1 hx with hx | rfl
    · exact h.automated x hx
    · exact hmode
  · intro id hid
    have hne : id ≠ o.id := by
      rintro rfl
      rw [Table.find?_insert?_self hinsert] at hid
      cases hid
    rw [Table.find?_insert?_ne hinsert hne] at hid
    obtain ⟨hevents', hrest⟩ := h.fresh id hid
    refine ⟨?_, hrest⟩
    rw [eventsOf_cons rfl, if_neg (by rw [hevent]; exact hne.symm), hevents']
  · intro other hmem id instant hkind hkey
    rcases h.settled other hmem id instant hkind hkey with hold | ⟨x, hx, hsettled⟩
    · exact .inl hold
    · refine .inr ⟨x, ?_, hsettled⟩
      show t.find? id = some x
      have hne : id ≠ o.id := by
        rintro rfl
        rw [hnone] at hx
        cases hx
      rw [Table.find?_insert?_ne hinsert hne]
      exact hx

/-- An event that is no terminal stop is emitted of an opportunity. -/
theorem Good.emitted (h : Good start s) {event : DomainEvent}
    (hkind : event.kind ≠ .terminalStop)
    (hkey : event.dedupeKey.opportunityId = event.opportunityId)
    (hfind : s.opportunities.find? event.opportunityId = some o)
    (hsettled : event.kind = .manualMode → o.Settled) :
    Good start (emitCrmDomainEvent event s) := by
  refine ⟨?_, h.staged, h.automated, ?_, ?_, ?_⟩
  · intro x hx
    exact (h.sound x hx).frame rfl rfl rfl (countOf_emit_of_ne (.inl hkind))
  · intro id hid
    obtain ⟨hevents, hpin, hdomain⟩ := h.fresh id hid
    refine ⟨hevents, hpin, ?_⟩
    intro other hmem
    rcases mem_emit hmem with hmem | rfl
    · exact hdomain other hmem
    · rintro rfl
      rw [show s.opportunities.find? _ = none from hid] at hfind
      cases hfind
  · intro other hmem
    rcases mem_emit hmem with hmem | rfl
    · exact h.keyed other hmem
    · exact hkey
  · intro other hmem id instant hmanual hother
    rcases mem_emit hmem with hmem | rfl
    · exact h.settled other hmem id instant hmanual hother
    · right
      rw [hother] at hkey
      exact ⟨o, by rw [← hfind, ← hkey]; rfl, hsettled hmanual⟩

/-- A row is written: its own history and signals may grow, no other's. -/
theorem Good.put (h : Good start s) {s' : Store}
    (hfind : s.opportunities.find? o.id = some o) (hid : o'.id = o.id)
    (hrows : s'.opportunities = s.opportunities.put o') (hstages : s'.stages = s.stages)
    (hsound : o'.Sound s') (hstaged : (s.stages.find? o'.stageId).isSome = true)
    (hmode : o'.controlMode = .automated → o'.controlModeOrigin = none)
    (hsettled : o.Settled → o'.Settled)
    (hothers : ∀ id, id ≠ o.id → s'.eventsOf id = s.eventsOf id ∧
      s'.pins.find? id = s.pins.find? id ∧
      s'.countOf .terminalStop id = s.countOf .terminalStop id)
    (hdomain : ∀ event ∈ s'.domainEvents, event ∈ s.domainEvents ∨
      event.kind = .terminalStop ∧ event.opportunityId = o.id ∧
        event.dedupeKey.opportunityId = o.id) : Good start s' := by
  have hmem : o ∈ s.opportunities := (Table.find?_eq_some.1 hfind).1
  have htaken : ∃ y ∈ s.opportunities, y.id = o'.id := ⟨o, hmem, hid.symm⟩
  have hrow : ∀ x ∈ s'.opportunities, x = o' ∨ x ∈ s.opportunities ∧ x.id ≠ o.id := by
    intro x hx
    rw [hrows, Table.mem_put htaken, hid] at hx
    exact hx
  have hself : s'.opportunities.find? o.id = some o' := by
    rw [hrows, ← hid]
    exact Table.find?_put_self htaken
  have hkeep : ∀ id, id ≠ o.id → s'.opportunities.find? id = s.opportunities.find? id := by
    intro id hne
    rw [hrows]
    exact Table.find?_put_ne (by rwa [hid])
  refine ⟨?_, ?_, ?_, ?_, ?_, ?_⟩
  · intro x hx
    rcases hrow x hx with rfl | ⟨hx, hne⟩
    · exact hsound
    · obtain ⟨hevents, hpin, hstop⟩ := hothers x.id hne
      refine (h.sound x hx).frame hevents ?_ hpin hstop
      unfold Store.terminalKindAt
      rw [hstages]
  · intro x hx
    rw [hstages]
    rcases hrow x hx with rfl | ⟨hx, -⟩
    · exact hstaged
    · exact h.staged x hx
  · intro x hx
    rcases hrow x hx with rfl | ⟨hx, -⟩
    · exact hmode
    · exact h.automated x hx
  · intro id hnone
    have hne : id ≠ o.id := by
      rintro rfl
      rw [hself] at hnone
      cases hnone
    rw [hkeep id hne] at hnone
    obtain ⟨hevents, hpin, hevent⟩ := h.fresh id hnone
    obtain ⟨hevents', hpin', -⟩ := hothers id hne
    refine ⟨hevents'.trans hevents, hpin'.trans hpin, ?_⟩
    intro event hmem
    rcases hdomain event hmem with hold | ⟨-, hown, -⟩
    · exact hevent event hold
    · rw [hown]
      exact hne.symm
  · intro event hmem
    rcases hdomain event hmem with hold | ⟨-, hown, hkey⟩
    · exact h.keyed event hold
    · rw [hown, hkey]
  · intro event hmem id instant hkind hkey
    rcases hdomain event hmem with hold | ⟨hstop, -⟩
    · rcases h.settled event hold id instant hkind hkey with hearly | ⟨x, hx, hx'⟩
      · exact .inl hearly
      · right
        by_cases heq : id = o.id
        · rw [heq, hfind] at hx
          obtain rfl := Option.some.inj hx
          exact ⟨o', by rw [heq, hself], hsettled hx'⟩
        · exact ⟨x, by rw [hkeep id heq, hx], hx'⟩
    · rw [hstop] at hkind
      cases hkind

/-- A row whose control mode alone is written. -/
theorem Good.controlled (h : Good start s)
    (hfind : s.opportunities.find? o.id = some o) (hid : o'.id = o.id)
    (hsame : o'.stageId = o.stageId ∧ o'.status = o.status ∧ o'.closedAt = o.closedAt ∧
      o'.closeReason = o.closeReason)
    (hmode : o'.controlMode = .automated → o'.controlModeOrigin = none)
    (hsettled : o.Settled → o'.Settled) :
    Good start { s with opportunities := s.opportunities.put o' } := by
  obtain ⟨hstage, hstatus, hclosedAt, hreason⟩ := hsame
  have hmem : o ∈ s.opportunities := (Table.find?_eq_some.1 hfind).1
  refine h.put hfind hid rfl rfl ?_ ?_ hmode hsettled (fun _ _ => ⟨rfl, rfl, rfl⟩)
    fun _ => .inl
  · obtain ⟨hchain, hclosed, hat, hlost, hpin, hstop⟩ := h.sound o hmem
    refine ⟨?_, ?_, ?_, ?_, ?_, ?_⟩
    · rw [hid, hstage]
      exact hchain
    · rw [hstatus, hstage]
      exact hclosed
    · rw [hclosedAt, hstatus]
      exact hat
    · rw [hstatus, hreason]
      exact hlost
    · rw [hstatus, hid]
      exact hpin
    · rw [hstatus, hid]
      exact hstop
  · rw [hstage]
    exact h.staged o hmem

/-- A stop of an open opportunity has a key nothing has taken. -/
theorem Good.stop_fresh (h : Good start s) (hmem : o ∈ s.opportunities)
    (hopen : o.status = .open_) (key : JsString) :
    ∀ event ∈ s.domainEvents, event.dedupe ≠ (.terminalStop, .stage o.id key) := by
  intro event hevent heq
  obtain ⟨hkind, hkey⟩ := Prod.mk.inj heq
  have hown : event.opportunityId = o.id := by
    rw [← h.keyed event hevent]
    exact congrArg DedupeKey.opportunityId hkey
  have hcount := (h.sound o hmem).stop
  rw [if_pos hopen] at hcount
  have hpos : 0 < s.countOf .terminalStop o.id :=
    Table.count_pos hevent (by simp [hown, show event.kind = .terminalStop from hkind])
  omega

end Changes

/-! ## What a step leaves alone -/

section Steps

variable {input : Input} {s s' : Store}

theorem Kept.refl (o : Opportunity) : Kept input s s' o o := by
  refine ⟨fun _ => ⟨rfl, rfl⟩, ?_, id, ?_⟩
  · intro hmanual hautomated
    rw [hmanual] at hautomated
    cases hautomated
  · intro hautomated hmanual
    rw [hmanual] at hautomated
    cases hautomated

theorem StepSound.of_opportunities (h : s'.opportunities = s.opportunities) :
    StepSound input s s' := by
  intro id o hfind
  exact ⟨o, by rw [h, hfind], .refl o⟩

theorem StepSound.of_insert {o : Opportunity}
    (h : s.opportunities.insert? o = some s'.opportunities) : StepSound input s s' := by
  intro id x hfind
  refine ⟨x, ?_, .refl x⟩
  rw [Table.find?_insert?_ne h, hfind]
  rintro rfl
  rw [(Table.insert?_eq_some h).1] at hfind
  cases hfind

theorem StepSound.of_put {o o' : Opportunity} (hfind : s.opportunities.find? o.id = some o)
    (hid : o'.id = o.id) (hrows : s'.opportunities = s.opportunities.put o')
    (hkept : Kept input s s' o o') : StepSound input s s' := by
  intro id x hx
  by_cases heq : id = o.id
  · rw [heq, hfind] at hx
    obtain rfl := Option.some.inj hx
    refine ⟨o', ?_, hkept⟩
    rw [hrows, heq, ← hid]
    exact Table.find?_put_self ⟨o, (Table.find?_eq_some.1 hfind).1, hid.symm⟩
  · refine ⟨x, ?_, .refl x⟩
    rw [hrows, Table.find?_put_ne (by rwa [hid])]
    exact hx

end Steps

/-! ## The commands -/

section Commands

variable {start : Instant} {s : Store} {c : Context} {input : Input}

theorem insert_spec {o : Opportunity} {reason : Option JsString} {s' : Store}
    (h : insertOpportunity c o reason s = some s') :
    s.opportunities.find? o.id = none ∧ ∃ t event, s.opportunities.insert? o = some t ∧
      event.opportunityId = o.id ∧ event.fromStageId = none ∧ event.toStageId = o.stageId ∧
      s' = { s with opportunities := t, stageEvents := event :: s.stageEvents } := by
  simp only [insertOpportunity, writeStageEvent, Option.ite_none_right_eq_some,
    Option.bind_eq_bind, Option.bind_eq_some_iff, Option.some.injEq] at h
  obtain ⟨-, t, hinsert, -, rfl⟩ := h
  exact ⟨(Table.insert?_eq_some hinsert).1, t, _, hinsert, rfl, rfl, rfl, rfl⟩

variable (input) in
theorem insertOpportunity_good (h : Good start s) {o : Opportunity} {reason : Option JsString}
    {stage : PipelineStage} {s' : Store} (hwrite : insertOpportunity c o reason s = some s')
    (hstatus : o.status = .open_) (hclosedAt : o.closedAt = none)
    (hmode : o.controlMode = .automated → o.controlModeOrigin = none)
    (hstage : s.stages.find? o.stageId = some stage) (hopen : stage.terminalKind = none) :
    Good start s' ∧ StepSound input s s' := by
  obtain ⟨-, t, event, hinsert, hevent, hfrom, hto, rfl⟩ := insert_spec hwrite
  exact ⟨h.opened hinsert hstatus hclosedAt hmode hstage hopen hevent hfrom hto,
    .of_insert hinsert⟩

/-- An opening that reaches a stage which is terminal. -/
def opensTerminalStage (actor : Actor) (newId : Uuid) (input : OpenInput) (explicit : Bool)
    (s : Store) : Bool :=
  (s.firms.find? input.firmId).any (fun firm => decideFirmMutation actor firm = none) &&
    input.name.all (fun name => 1 ≤ (trim name).length && (trim name).length ≤ 160) &&
    (explicit || openOpportunities s.opportunities input.firmId = []) &&
    (s.opportunities.find? newId).isNone &&
    (readStageByKey s.stages (input.stageKey.getD (js "new"))).any
      fun stage => !stage.retired && stage.terminalKind.isSome

theorem find?_of_readStageByKey {stages : PipelineStages} {key : JsString} {stage : PipelineStage}
    (h : readStageByKey stages key = some stage) : stages.find? stage.id = some stage :=
  Table.find?_eq_some.2 ⟨List.mem_of_find?_eq_some h, rfl⟩

theorem createOpportunity_good (h : Good start s) {open_ : OpenInput} {explicit : Bool}
    (hterminal : opensTerminalStage c.actor c.newId open_ explicit s = false) :
    Good start ((createOpportunity c open_ explicit s).committed s) ∧
      StepSound input s ((createOpportunity c open_ explicit s).committed s) := by
  have hstill : Good start s ∧ StepSound input s s := ⟨h, .of_opportunities rfl⟩
  unfold createOpportunity
  split
  · exact hstill
  · next firm hfirm =>
    split
    · exact hstill
    · next hdecision =>
      split
      · exact hstill
      · next hname =>
        split
        · exact hstill
        · next hexisting =>
          split
          · exact hstill
          · next stage hstage =>
            split
            · exact hstill
            · next hretired =>
              split
              · exact hstill
              · next s' hwrite =>
                have hopen : stage.terminalKind = none := by
                  by_contra hterminal'
                  rw [← Bool.not_eq_true] at hterminal
                  apply hterminal
                  unfold opensTerminalStage
                  simp only [Bool.and_eq_true]
                  refine ⟨⟨⟨⟨?_, ?_⟩, ?_⟩, ?_⟩, ?_⟩
                  · simp [hfirm, hdecision]
                  · cases hinput : open_.name with
                    | none => rfl
                    | some name =>
                      simp only [hinput, Option.any_some, Bool.not_eq_true, Bool.or_eq_false_iff,
                        decide_eq_false_iff_not] at hname
                      simp only [Option.all_some, Bool.and_eq_true, decide_eq_true_eq]
                      omega
                  · cases explicit <;> simp_all
                  · exact Option.isNone_iff_eq_none.2 (insert_spec hwrite).1
                  · simp [hstage, hretired, Option.isSome_iff_ne_none, hterminal']
                exact insertOpportunity_good input h hwrite rfl rfl (fun hmode => by
                  cases explicit <;> simp_all [openedRow]) (find?_of_readStageByKey hstage) hopen

theorem reopenSelectedOpportunity_good (h : Good start s) (reopen : ReopenInput) :
    Good start ((reopenSelectedOpportunity c reopen s).committed s) ∧
      StepSound input s ((reopenSelectedOpportunity c reopen s).committed s) := by
  have hstill : Good start s ∧ StepSound input s s := ⟨h, .of_opportunities rfl⟩
  unfold reopenSelectedOpportunity
  split
  · exact hstill
  · split
    · exact hstill
    · split
      · exact hstill
      · split
        · exact hstill
        · split
          · exact hstill
          · exact hstill
          · next closed _ =>
            split
            · exact hstill
            · next first hfirst =>
              dsimp only
              split
              · exact hstill
              · next s' hwrite =>
                have hmem : first ∈ s.stages := by
                  have := List.mem_of_find?_eq_some hfirst
                  rwa [listPipelineStages, List.mem_insertionSort] at this
                have hopen : first.terminalKind = none := by
                  have := List.find?_some hfirst
                  simp only [Bool.and_eq_true, decide_eq_true_eq] at this
                  exact this.1
                obtain ⟨hgood, hsound⟩ := insertOpportunity_good input h hwrite rfl rfl
                  nofun (Table.find?_eq_some.2 ⟨hmem, rfl⟩) hopen
                obtain ⟨-, t, event, hinsert, -, -, -, rfl⟩ := insert_spec hwrite
                refine ⟨hgood.emitted nofun rfl (Table.find?_insert?_self hinsert) nofun, ?_⟩
                exact .of_insert hinsert

/-- A manual mode is given an origin, which is no signal over a takeover. -/
theorem withOrigin_good (h : Good start s) {o : Opportunity}
    (hfind : s.opportunities.find? o.id = some o) (hmanual : o.controlMode = .manual)
    (origin : ManualModeOrigin)
    (htakeover : o.controlModeOrigin = some .salespersonCommand → origin = .salespersonCommand) :
    Good start { s with opportunities := s.opportunities.put (o.withOrigin origin) } ∧
      StepSound input s
        { s with opportunities := s.opportunities.put (o.withOrigin origin) } := by
  have hnot : o.controlMode ≠ .automated := by simp [hmanual]
  constructor
  · exact h.controlled hfind rfl ⟨rfl, rfl, rfl, rfl⟩ (fun hmode => absurd hmode hnot)
      fun _ => ⟨hmanual, rfl⟩
  · apply StepSound.of_put hfind (show (o.withOrigin origin).id = o.id from rfl) rfl
    refine ⟨fun _ => ⟨rfl, rfl⟩, fun _ hmode => absurd hmode hnot, ?_,
      fun hmode => absurd hmode hnot⟩
    intro horigin
    exact congrArg some (htakeover horigin)

/-- A signal or a takeover, under the clock of a run. -/
theorem setManualControlMode_good (h : Good start s) (hclock : start ≤ c.now)
    (manual : ManualInput) :
    Good start ((setManualControlMode c manual s).committed s) ∧
      StepSound input s ((setManualControlMode c manual s).committed s) := by
  have hstill : Good start s ∧ StepSound input s s := ⟨h, .of_opportunities rfl⟩
  unfold setManualControlMode
  split
  · exact hstill
  · split
    · exact hstill
    · next o hfind =>
      have hid : o.id = manual.opportunityId := Table.find?_key hfind
      have hself : s.opportunities.find? o.id = some o := by rw [hid, hfind]
      have hmem : o ∈ s.opportunities := (Table.find?_eq_some.1 hfind).1
      split
      · exact hstill
      · split
        · exact hstill
        · split
          · exact hstill
          · split
            · next hmanual =>
              split
              · split
                · exact hstill
                · next s' hwrite =>
                  obtain rfl := writeOpportunity_spec hwrite
                  exact withOrigin_good h hself hmanual .salespersonCommand fun _ => rfl
              · exact hstill
            · next hautomated =>
              have hmode : o.controlMode = .automated := by
                cases hmode : o.controlMode with
                | automated => rfl
                | manual => exact absurd hmode hautomated
              split
              · exact hstill
              · next s' hwrite =>
                obtain rfl := writeOpportunity_spec hwrite
                have hgood : Good start { s with
                    opportunities := s.opportunities.put (o.toManual c manual) } :=
                  h.controlled hself rfl ⟨rfl, rfl, rfl, rfl⟩ (fun hmode => by cases hmode) fun _ => ⟨rfl, rfl⟩
                have hput : (s.opportunities.put (o.toManual c manual)).find? o.id
                    = some (o.toManual c manual) := Table.find?_put_self ⟨o, hmem, rfl⟩
                refine ⟨hgood.emitted (fun hkind => by cases hkind) rfl hput fun _ => ⟨rfl, rfl⟩, ?_⟩
                apply StepSound.of_put hself (show (o.toManual c manual).id = o.id from rfl) rfl
                refine ⟨fun _ => ⟨rfl, rfl⟩, fun hmanual => absurd hmanual hautomated, ?_, ?_⟩
                · rw [h.automated o hmem hmode]
                  intro horigin
                  cases horigin
                · intro _ _
                  apply countOf_emit_self
                  -- An automated opportunity has no signal dated since the start.
                  intro event hevent heq
                  obtain ⟨hkind, hkey⟩ := Prod.mk.inj heq
                  rcases h.settled event hevent o.id c.now hkind hkey with hearly | ⟨x, hx, hx'⟩
                  · exact absurd hearly (not_lt.2 hclock)
                  · rw [hself] at hx
                    obtain rfl := Option.some.inj hx
                    exact hautomated hx'.1

/-- What an administrator's classification releases or records. -/
theorem classifyControlModeOrigin_good (h : Good start s) {actor : Actor} {now : Instant}
    {elapsed : Nat} {newId : Uuid} (classify : ClassifyInput)
    (hinput : input = .command actor elapsed newId (.classifyControlModeOrigin classify)) :
    Good start ((classifyControlModeOrigin ⟨actor, now, newId⟩ classify s).committed s) ∧
      StepSound input s
        ((classifyControlModeOrigin ⟨actor, now, newId⟩ classify s).committed s) := by
  have hstill : Good start s ∧ StepSound input s s := ⟨h, .of_opportunities rfl⟩
  unfold classifyControlModeOrigin
  split
  · exact hstill
  · next hadmin =>
    split
    · exact hstill
    · split
      · exact hstill
      · next o hfind =>
        have hid : o.id = classify.opportunityId := Table.find?_key hfind
        have hself : s.opportunities.find? o.id = some o := by rw [hid, hfind]
        split
        · exact hstill
        · split
          · exact hstill
          · dsimp only
            split
            · next hdirect =>
              split
              · exact hstill
              · next hreopened =>
                split
                · exact hstill
                · next hlive =>
                  split
                  · next hunrecorded =>
                    simp only [Bool.and_eq_true, decide_eq_true_eq] at hunrecorded
                    split
                    · exact hstill
                    · next s' hwrite =>
                      obtain rfl := writeOpportunity_spec hwrite
                      constructor
                      · refine h.controlled hself rfl ⟨rfl, rfl, rfl, rfl⟩ (fun _ => rfl) ?_
                        intro hsettled
                        simp [Opportunity.Settled, hunrecorded.2] at hsettled
                      · apply StepSound.of_put hself
                          (show (o.toAutomated ⟨actor, now, newId⟩).id = o.id from rfl) rfl
                        refine ⟨fun _ => ⟨rfl, rfl⟩, ?_, ?_, fun _ hmode => by cases hmode⟩
                        · intro _ _
                          refine ⟨actor, elapsed, newId, classify.reason, ?_, hadmin,
                            hunrecorded.2, by simpa using hreopened, by simpa using hlive⟩
                          rw [hinput, hid, ← hdirect]
                        · rw [hunrecorded.2]
                          intro hmode
                          cases hmode
                  · exact hstill
            · split
              · next hunrecorded =>
                simp only [Bool.and_eq_true, decide_eq_true_eq] at hunrecorded
                split
                · exact hstill
                · next s' hwrite =>
                  obtain rfl := writeOpportunity_spec hwrite
                  apply withOrigin_good h hself hunrecorded.1
                  rw [hunrecorded.2]
                  intro hmode
                  cases hmode
              · exact hstill

theorem moveOpportunityStage_spec {o moved : Opportunity} {stage : PipelineStage}
    {reason : Option JsString} {s' : Store}
    (h : moveOpportunityStage c o stage reason s = some (moved, s')) :
    moved = o.movedTo c stage reason ∧ moved.checks = true ∧
      ∃ event s₁, event.opportunityId = o.id ∧ event.fromStageId = some o.stageId ∧
        event.toStageId = stage.id ∧
        s₁ = { s with
          opportunities := s.opportunities.put moved
          stageEvents := event :: s.stageEvents } ∧
        ((stage.terminalKind = none ∧ s' = s₁) ∨
          (stage.terminalKind.isSome = true ∧ ∃ stop, stop.kind = .terminalStop ∧
            stop.opportunityId = o.id ∧ stop.dedupeKey = .stage o.id stage.key ∧
            s' = emitCrmDomainEvent stop s₁)) := by
  simp only [moveOpportunityStage, writeStageEvent, Option.ite_none_right_eq_some,
    Option.bind_eq_bind, Option.bind_eq_some_iff, Option.some.injEq] at h
  obtain ⟨hchecks, s₁, ⟨-, hs₁⟩, hrest⟩ := h
  split at hrest
  · next hterminal =>
    obtain ⟨rfl, rfl⟩ := Prod.mk.inj (Option.some.inj hrest)
    exact ⟨rfl, hchecks, _, s₁, rfl, rfl, rfl, hs₁.symm, .inr ⟨hterminal, _, rfl, rfl, rfl, rfl⟩⟩
  · next hopen =>
    obtain ⟨rfl, rfl⟩ := Prod.mk.inj (Option.some.inj hrest)
    exact ⟨rfl, hchecks, _, s₁, rfl, rfl, rfl, hs₁.symm, .inl ⟨by simpa using hopen, rfl⟩⟩

/-- What pinning touches. -/
theorem pinStage_spec (o : Opportunity) (stage : PipelineStage) (s : Store) :
    ∃ pins, pinStage c o stage s = { s with pins := pins } ∧
      (∀ id, id ≠ o.id → pins.find? id = s.pins.find? id) ∧
      (stage.terminalKind.isSome = true → pins.find? o.id = none) := by
  unfold pinStage
  split
  · next hopen hactor =>
    refine ⟨_, rfl, fun id hne => Table.find?_upsert_ne hne, ?_⟩
    rw [hopen]
    intro hterminal
    cases hterminal
  · next hopen _ =>
    refine ⟨_, rfl, fun id _ => rfl, ?_⟩
    rw [hopen]
    intro hterminal
    cases hterminal
  · refine ⟨_, rfl, fun id hne => ?_, fun _ => ?_⟩
    · rw [Table.find?_delete, if_neg hne]
    · rw [Table.find?_delete, if_pos rfl]

/-- A move of an open opportunity extends its chain, and a close stops it once. -/
theorem moved_good (h : Good start s) {o moved : Opportunity} {stage : PipelineStage}
    {reason : Option JsString} {s' : Store}
    (hself : s.opportunities.find? o.id = some o) (hopen : o.status = .open_)
    (hstage : s.stages.find? stage.id = some stage)
    (hmove : moveOpportunityStage c o stage reason s = some (moved, s')) :
    Good start (pinStage c moved stage s') ∧ StepSound input s (pinStage c moved stage s') := by
  have hmem : o ∈ s.opportunities := (Table.find?_eq_some.1 hself).1
  obtain ⟨hmoved, hchecks, event, s₁, hevent, hfrom, hto, hs₁, hend⟩ :=
    moveOpportunityStage_spec hmove
  obtain ⟨pins, hpinned, hothers, hcleared⟩ := pinStage_spec (c := c) moved stage s'
  have hid : moved.id = o.id := by rw [hmoved]; rfl
  rw [hid] at hothers hcleared
  have hkind : s₁.terminalKindAt moved.stageId = stage.terminalKind := by
    rw [hs₁, hmoved]
    simp [Store.terminalKindAt, Opportunity.movedTo, hstage]
  have hstatus : moved.status ≠ .open_ ↔ stage.terminalKind.isSome = true := by
    rw [hmoved]
    cases hterminal : stage.terminalKind with
    | none => simp [Opportunity.movedTo, hterminal, hopen]
    | some kind => cases kind <;> simp [Opportunity.movedTo, hterminal, TerminalKind.status]
  -- Only the last statement of a close touches the domain events.
  have hframe : s'.opportunities = s.opportunities.put moved ∧ s'.stages = s.stages ∧
      s'.stageEvents = event :: s.stageEvents ∧ s'.pins = s.pins ∧
      (∀ id, id ≠ o.id → s'.countOf .terminalStop id = s.countOf .terminalStop id) ∧
      s'.countOf .terminalStop o.id = (if moved.status = .open_ then 0 else 1) ∧
      ∀ other ∈ s'.domainEvents, other ∈ s.domainEvents ∨
        other.kind = .terminalStop ∧ other.opportunityId = o.id ∧
          other.dedupeKey.opportunityId = o.id := by
    have hcount := (h.sound o hmem).stop
    rw [if_pos hopen] at hcount
    rcases hend with ⟨hterminal, rfl⟩ | ⟨hterminal, stop, hstop, hown, hkey, rfl⟩
    · have hstill : moved.status = .open_ := by
        by_contra hne
        simp [hterminal] at hstatus
        exact hne hstatus
      rw [if_pos hstill]
      subst hs₁
      exact ⟨rfl, rfl, rfl, rfl, fun _ _ => rfl, hcount, fun _ => .inl⟩
    · have hfresh : ∀ other ∈ s₁.domainEvents, other.dedupe ≠ stop.dedupe := by
        intro other hother
        rw [show stop.dedupe = (.terminalStop, .stage o.id stage.key) from
          Prod.ext hstop hkey]
        rw [hs₁] at hother
        exact h.stop_fresh hmem hopen stage.key other hother
      have hone := countOf_emit_self hfresh
      rw [hstop, hown] at hone
      rw [if_neg (hstatus.2 hterminal), hone]
      subst hs₁
      refine ⟨rfl, rfl, rfl, rfl, ?_, ?_, ?_⟩
      · intro id hne
        exact countOf_emit_of_ne (.inr (by rw [hown]; exact hne.symm))
      · show s.countOf .terminalStop o.id + 1 = 1
        rw [hcount]
      · intro other hother
        rcases mem_emit hother with hother | rfl
        · exact .inl hother
        · exact .inr ⟨hstop, hown, by rw [hkey]; rfl⟩
  obtain ⟨hrows, hstages, hevents, hpins, hcounts, hcount, hdomain⟩ := hframe
  rw [hpinned]
  have heventsOf : ∀ id, ({ s' with pins := pins } : Store).eventsOf id
      = if event.opportunityId = id then event :: s.eventsOf id else s.eventsOf id :=
    fun id => eventsOf_cons hevents id
  constructor
  · refine h.put hself hid hrows hstages ?_ ?_ ?_ ?_ ?_ hdomain
    · refine ⟨?_, ?_, ?_, ?_, ?_, ?_⟩
      · rw [heventsOf, hid, if_pos hevent]
        have hstageId : moved.stageId = event.toStageId := by rw [hto, hmoved]; rfl
        rw [hstageId]
        exact .moved (h.sound o hmem).chain hfrom
      · rw [hstatus, ← hkind]
        have hat : ({ s' with pins := pins } : Store).terminalKindAt moved.stageId
            = s₁.terminalKindAt moved.stageId := by
          simp [Store.terminalKindAt, hstages, hs₁]
        rw [hat]
      · rw [hstatus, hmoved]
        have hclosedAt : o.closedAt = none := by
          have := (h.sound o hmem).closedAt
          rw [hopen] at this
          simpa using this
        cases hterminal : stage.terminalKind with
        | none => simp [Opportunity.movedTo, hterminal, hclosedAt]
        | some kind => simp [Opportunity.movedTo, hterminal]
      · intro hlost
        simp only [Opportunity.checks, Bool.and_eq_true, Bool.or_eq_true,
          decide_eq_true_eq] at hchecks
        obtain ⟨⟨⟨⟨-, hreason⟩, -⟩, -⟩, -⟩ := hchecks
        exact (Option.any_eq_true _ _).1 (hreason.resolve_left fun hne => hne hlost)
      · intro hclosed
        rw [hid]
        exact hcleared (hstatus.1 hclosed)
      · rw [hid]
        exact hcount
    · rw [hmoved]
      simp [Opportunity.movedTo, hstage]
    · rw [hmoved]
      exact h.automated o hmem
    · rw [hmoved]
      exact id
    · intro id hne
      refine ⟨?_, ?_, hcounts id hne⟩
      · rw [heventsOf, if_neg (by rw [hevent]; exact hne.symm)]
      · rw [hothers id hne, hpins]
  · refine .of_put hself hid hrows ⟨fun hclosed => absurd hopen hclosed, ?_, ?_, ?_⟩
    · intro hmanual hautomated
      rw [hmoved] at hautomated
      rw [show o.controlMode = .automated from hautomated] at hmanual
      cases hmanual
    · rw [hmoved]
      exact id
    · intro hautomated hmanual
      rw [hmoved] at hmanual
      rw [show o.controlMode = .manual from hmanual] at hautomated
      cases hautomated

theorem changeStage_good (h : Good start s) (change : ChangeStageInput) :
    Good start ((changeStage c change s).committed s) ∧
      StepSound input s ((changeStage c change s).committed s) := by
  have hstill : Good start s ∧ StepSound input s s := ⟨h, .of_opportunities rfl⟩
  unfold changeStage
  split
  · exact hstill
  · next o hfind =>
    have hid : o.id = change.opportunityId := Table.find?_key hfind
    split
    · exact hstill
    · split
      · exact hstill
      · split
        · exact hstill
        · next hopen =>
          split
          · exact hstill
          · next stage hstage =>
            split
            · exact hstill
            · split
              · exact hstill
              · split
                · exact hstill
                · split
                  · exact hstill
                  · split
                    · exact hstill
                    · next moved s' hmove =>
                      exact moved_good h (by rw [hid, hfind]) (not_not.1 hopen)
                        (find?_of_readStageByKey hstage) hmove

end Commands

/-! ## Every run -/

/-- This input opens an opportunity at a terminal stage. -/
def opensTerminal (w : World) : Input → Bool
  | .command actor _ newId (.openOpportunity input) =>
    opensTerminalStage actor newId { input with name := none } false w.store
  | .command actor _ newId (.openExplicitOpportunity input) =>
    opensTerminalStage actor newId input true w.store
  | _ => false

section Runs

variable {start : Instant} {w : World}

theorem editStage_terminalKind (row : PipelineStage) {stages : PipelineStages} {id : Uuid}
    {stage : PipelineStage} (h : stages.find? id = some stage) :
    ∃ stage', (editStage row stages).find? id = some stage' ∧
      stage'.terminalKind = stage.terminalKind := by
  unfold editStage
  split
  · next hguard =>
    simp only [Bool.and_eq_true] at hguard
    by_cases hid : id = row.id
    · subst hid
      have hsame := hguard.1.2
      simp only [h, Option.all_some, decide_eq_true_eq] at hsame
      exact ⟨row, Table.find?_upsert_self, hsame.symm⟩
    · exact ⟨stage, by rw [Table.find?_upsert_ne hid, h], rfl⟩
  · exact ⟨stage, h, rfl⟩

theorem Good.editStage {s : Store} (h : Good start s) (row : PipelineStage) :
    Good start { s with stages := editStage row s.stages } := by
  refine ⟨?_, ?_, h.automated, h.fresh, h.keyed, h.settled⟩
  · intro o hmem
    refine (h.sound o hmem).frame rfl ?_ rfl rfl
    obtain ⟨stage, hstage⟩ := Option.isSome_iff_exists.1 (h.staged o hmem)
    obtain ⟨stage', hstage', hkind⟩ := editStage_terminalKind row hstage
    simp [Store.terminalKindAt, hstage, hstage', hkind]
  · intro o hmem
    obtain ⟨stage, hstage⟩ := Option.isSome_iff_exists.1 (h.staged o hmem)
    obtain ⟨stage', hstage', -⟩ := editStage_terminalKind row hstage
    simp [hstage']

/-- Every step that opens nothing at a terminal stage keeps the invariant. -/
theorem Good.step (h : Good start w.store) (hclock : start ≤ w.clock) (input : Input)
    (hinput : opensTerminal w input = false) :
    (Good start (step w input).store ∧ start ≤ (step w input).clock) ∧
      StepSound input w.store (step w input).store := by
  cases input with
  | command actor elapsed newId command =>
    have hnow : start ≤ w.clock + elapsed :=
      hclock.trans (Int.le_add_of_nonneg_right (Int.natCast_nonneg elapsed))
    rw [and_right_comm]
    refine ⟨?_, hnow⟩
    cases command with
    | openOpportunity input => exact createOpportunity_good h hinput
    | openExplicitOpportunity input => exact createOpportunity_good h hinput
    | changeStage input => exact changeStage_good h input
    | setManualControlMode input => exact setManualControlMode_good h hnow input
    | classifyControlModeOrigin input => exact classifyControlModeOrigin_good h input rfl
    | reopenOpportunity firmId reason => exact reopenSelectedOpportunity_good h _
    | reopenExplicitOpportunity firmId id reason => exact reopenSelectedOpportunity_good h _
  | editStage row => exact ⟨⟨h.editStage row, hclock⟩, .of_opportunities rfl⟩
  | writeFirm row =>
    refine ⟨⟨⟨?_, h.staged, h.automated, h.fresh, h.keyed, h.settled⟩, hclock⟩,
      .of_opportunities rfl⟩
    exact fun o hmem => (h.sound o hmem).frame rfl rfl rfl rfl
  | writeEnrollments rows =>
    refine ⟨⟨⟨?_, h.staged, h.automated, h.fresh, h.keyed, h.settled⟩, hclock⟩,
      .of_opportunities rfl⟩
    exact fun o hmem => (h.sound o hmem).frame rfl rfl rfl rfl

end Runs

/-- A pipeline in order, at the instant its run starts. -/
structure Start where
  world : World
  good : Good world.clock world.store

/-- Stages and firms, and no opportunity yet. -/
def Start.fresh (firms : Firms) (stages : PipelineStages) (clock : Instant) : Start where
  world := ⟨⟨firms, stages, .empty, [], .empty, .empty, []⟩, clock⟩
  good := by
    have hnone : ∀ event : DomainEvent, event ∉ (.empty : Table DomainEvent.dedupe) :=
      fun _ => Table.not_mem_empty
    refine ⟨fun _ h => absurd h Table.not_mem_empty, fun _ h => absurd h Table.not_mem_empty,
      fun _ h => absurd h Table.not_mem_empty, ?_, fun _ h => absurd h (hnone _),
      fun _ h => absurd h (hnone _)⟩
    exact fun _ _ => ⟨rfl, rfl, fun _ h => absurd h (hnone _)⟩

def pipelineRun (start : Start) (inputs : List Input) : World :=
  Runs.run step start.world inputs

/-- Every opportunity is sound, and no step made of one what it may not. -/
def PipelineHistory (start : Start) (inputs : List Input) : Prop :=
  (∀ o ∈ (pipelineRun start inputs).store.opportunities,
    o.Sound (pipelineRun start inputs).store) ∧
  ∀ front input back, inputs = front ++ input :: back →
    StepSound input (pipelineRun start front).store
      (pipelineRun start (front ++ [input])).store

/-- A run in which nothing is opened at a terminal stage. -/
theorem pipeline_history (start : Start) (inputs : List Input)
    (h : Runs.Meets step (fun w input => opensTerminal w input = false) start.world inputs) :
    PipelineHistory start inputs := by
  have hgood : ∀ {is : List Input},
      Runs.Meets step (fun w input => opensTerminal w input = false) start.world is →
      Good start.world.clock (pipelineRun start is).store ∧
        start.world.clock ≤ (pipelineRun start is).clock := by
    intro is his
    exact his.invariant (I := fun w => Good start.world.clock w.store ∧
      start.world.clock ≤ w.clock)
      (fun w input hinput hw => (hw.1.step hw.2 input hinput).1) ⟨start.good, le_rfl⟩
  refine ⟨fun o hmem => (hgood h).1.sound o hmem, ?_⟩
  rintro front input back rfl
  obtain ⟨hfront, hinput, -⟩ := h.append
  obtain ⟨hw, hclock⟩ := hgood hfront
  have hrun : pipelineRun start (front ++ [input]) = step (pipelineRun start front) input :=
    Runs.run_append step start.world front [input]
  rw [hrun]
  exact (hw.step hclock input hinput).2

/-- One firm, under the pipeline of a new workspace. -/
def Start.seeded (firm : FirmRow) : Start :=
  .fresh (Table.empty.upsert firm) (((Table.empty.upsert
    ⟨js "s1", js "new", 1, none, false⟩).upsert
    ⟨js "s6", js "won", 6, some .won, false⟩).upsert
    ⟨js "s7", js "lost", 7, some .lost, false⟩) 0

/-- Opened, taken over, and lost. -/
theorem pipeline_history_lost :
    let firm : FirmRow :=
      ⟨⟨js "6f1c1f7e-0000-4000-8000-000000000001", by decide⟩, some (js "u"), none, fun _ => none⟩
    PipelineHistory (.seeded firm)
      [.command (.user (js "u") .salesperson) 1 (js "o") (.openOpportunity ⟨firm.id, none, none⟩),
        .command (.user (js "u") .salesperson) 1 (js "")
          (.setManualControlMode ⟨js "o", js "mine", .salespersonCommand, none⟩),
        .command (.user (js "u") .salesperson) 1 (js "")
          (.changeStage ⟨js "o", js "lost", some (js "no budget"), none⟩)] := by
  intro firm
  exact pipeline_history _ _ (by decide +kernel)

/-- Opened at Won by an administrator: open, at a terminal stage. -/
theorem pipeline_history_opened_closed :
    let firm : FirmRow :=
      ⟨⟨js "6f1c1f7e-0000-4000-8000-000000000001", by decide⟩, none, none, fun _ => none⟩
    ¬ PipelineHistory (.seeded firm)
      [.command (.user (js "a") .admin) 1 (js "o")
        (.openOpportunity ⟨firm.id, some (js "won"), none⟩)] := by
  intro firm h
  have hrow : ∃ o ∈ (pipelineRun (.seeded firm)
      [.command (.user (js "a") .admin) 1 (js "o")
        (.openOpportunity ⟨firm.id, some (js "won"), none⟩)]).store.opportunities.rows,
      o.status = .open_ ∧ o.stageId = js "s6" := by decide +kernel
  obtain ⟨o, hmem, hopen, hstage⟩ := hrow
  refine (h.1 o hmem).closed.2 ?_ hopen
  rw [hstage]
  decide +kernel

end FoundingSales.Crm.Pipeline
