import FoundingSales.Library.Backlogs
import FoundingSales.Sequences.Wakes

/-!
Which due steps the scheduler's passes ever reach.

Proved here:
* `enqueueAll_spec`: a source's enqueues insert the jobs that were missing, and no others;
* `schedulerPass_passed`: a pass leaves the steps that are owed a look as `Backlogs.pass` does;
* `wakes_reached_iff`: every owed step gets a job exactly when fewer than the limit of those
  before it have had theirs;
* `sequenceActionSource_starves`: 500 calls that wait for a person hide an email.
-/

namespace FoundingSales.Sequences

open Tables Jobs Outreach Backlogs

/-! ## Keys -/

def colon : UInt16 := 58

/-- Up to the first colon a text is read one way. -/
theorem append_colon_inj {a b s s' : JsString} (ha : colon ∉ a) (hb : colon ∉ b)
    (h : a ++ colon :: s = b ++ colon :: s') : a = b ∧ s = s' := by
  induction a generalizing b with
  | nil =>
    cases b with
    | nil => exact ⟨rfl, (List.cons_eq_cons.1 h).2⟩
    | cons c b =>
      obtain ⟨rfl, -⟩ := List.cons_eq_cons.1 h
      exact absurd List.mem_cons_self hb
  | cons c a ih =>
    cases b with
    | nil =>
      obtain ⟨rfl, -⟩ := List.cons_eq_cons.1 h
      exact absurd List.mem_cons_self ha
    | cons c' b =>
      obtain ⟨rfl, hrest⟩ := List.cons_eq_cons.1 h
      obtain ⟨rfl, hs⟩ := ih (fun hm => ha (List.mem_cons_of_mem _ hm))
        (fun hm => hb (List.mem_cons_of_mem _ hm)) hrest
      exact ⟨rfl, hs⟩

theorem sequenceActionKey_inj {id id' wake wake' : JsString} (hid : colon ∉ id)
    (hid' : colon ∉ id') (h : sequenceActionKey id wake = sequenceActionKey id' wake') :
    id = id' ∧ wake = wake' := by
  have hcolon : js ":" = [colon] := by decide
  simp only [sequenceActionKey, List.append_assoc, hcolon, List.append_cancel_left_eq] at h
  exact append_colon_inj hid hid' h

/-! ## The enqueues of a source -/

/-- A job of the look is there. -/
def hasJob (wake : StepWake) (jobs : JobTable) : Bool :=
  jobs.rows.any (sameIdempotencyKey (wakeSpecification wake))

/-- The looks have the same key. -/
def sameLook (wake wake' : StepWake) : Prop :=
  wake.workspaceId = wake'.workspaceId ∧
    sequenceActionKey wake.stepExecutionId wake.wake
      = sequenceActionKey wake'.stepExecutionId wake'.wake

/-- The uuids generated for looks that have no job are nobody's yet. -/
structure Generates (database : Database) (jobs : JobTable) : Prop where
  apart : ∀ wake wake' : StepWake, wake.workspaceId = wake'.workspaceId →
    database.newId (wakeSpecification wake) = database.newId (wakeSpecification wake') →
    sameLook wake wake'
  fresh : ∀ wake, hasJob wake jobs = false →
    jobs.find? (wake.workspaceId, database.newId (wakeSpecification wake)) = none

section Enqueue

variable {database : Database} {jobs jobs' : JobTable} {wake wake' : StepWake}

theorem hasJob_iff : hasJob wake jobs = true ↔
    ∃ job ∈ jobs.rows, sameIdempotencyKey (wakeSpecification wake) job = true := by
  rw [hasJob, List.any_eq_true]

theorem sameIdempotencyKey_newJob {now : Instant} {id : Uuid} :
    sameIdempotencyKey (wakeSpecification wake) (newJob now id (wakeSpecification wake')) = true ↔
      sameLook wake wake' := by
  unfold sameIdempotencyKey
  rw [Bool.and_eq_true_iff, Bool.and_eq_true_iff]
  constructor
  · rintro ⟨⟨hworkspace, -⟩, hkey⟩
    exact ⟨(of_decide_eq_true hworkspace).symm, (of_decide_eq_true hkey).symm⟩
  · rintro ⟨hworkspace, hkey⟩
    exact ⟨⟨decide_eq_true hworkspace.symm, decide_eq_true rfl⟩, decide_eq_true hkey.symm⟩

/-- A look's job is inserted unless it is there. -/
theorem enqueueJob_wake (wake : StepWake) (h : Generates database jobs) :
    (hasJob wake jobs = true ∧ ∃ outcome, outcome.inserted = false ∧
      enqueueJob database.clock (database.newId (wakeSpecification wake)) (wakeSpecification wake)
        jobs = some (outcome, jobs)) ∨
    (hasJob wake jobs = false ∧ ∃ outcome jobs', outcome.inserted = true ∧
      enqueueJob database.clock (database.newId (wakeSpecification wake)) (wakeSpecification wake)
        jobs = some (outcome, jobs') ∧
      jobs'.rows = jobs.rows ++ [newJob database.clock (database.newId (wakeSpecification wake))
        (wakeSpecification wake)]) := by
  unfold enqueueJob
  cases hfind : jobs.rows.find? (sameIdempotencyKey (wakeSpecification wake)) with
  | some existing =>
    left
    refine ⟨hasJob_iff.2 ⟨existing, List.mem_of_find?_eq_some hfind, List.find?_some hfind⟩, ?_⟩
    exact ⟨_, rfl, rfl⟩
  | none =>
    right
    have hnone : hasJob wake jobs = false := by
      rw [hasJob, List.any_eq_false]
      intro job hjob
      exact List.find?_eq_none.1 hfind job hjob
    have hfresh := h.fresh wake hnone
    cases hinsert : jobs.insert? (newJob database.clock (database.newId (wakeSpecification wake))
      (wakeSpecification wake)) with
    | none =>
      obtain ⟨row, hrow, hkey⟩ := Table.insert?_eq_none hinsert
      exact absurd hkey (Table.find?_eq_none.1 hfresh row hrow)
    | some after =>
      refine ⟨hnone, ⟨true, database.newId (wakeSpecification wake)⟩, after, rfl, ?_,
        (Table.insert?_eq_some hinsert).2⟩
      have hattempts : (newJob database.clock (database.newId (wakeSpecification wake))
          (wakeSpecification wake)).maxAttempts ≥ 1 := by
        show (4 : Int) ≥ 1
        omega
      simp only [if_pos hattempts, Option.map_some]

theorem hasJob_append {added : List Job} (hrows : jobs'.rows = jobs.rows ++ added) :
    hasJob wake jobs'
      = (hasJob wake jobs || added.any (sameIdempotencyKey (wakeSpecification wake))) := by
  rw [hasJob, hrows, List.any_append, hasJob]

/-- What the enqueues of some looks insert. -/
theorem enqueueAll_spec (wakes : List StepWake) (h : Generates database jobs) :
    ∃ inserted jobs' added,
      enqueueAll database (wakes.map wakeSpecification) jobs = some (inserted, jobs') ∧
      jobs'.rows = jobs.rows ++ added ∧ added.length = inserted ∧ Generates database jobs' ∧
      (∀ job ∈ added, ∃ wake ∈ wakes, hasJob wake jobs = false ∧
        job = newJob database.clock (database.newId (wakeSpecification wake))
          (wakeSpecification wake)) ∧
      ∀ wake ∈ wakes, hasJob wake jobs' = true := by
  induction wakes generalizing jobs with
  | nil =>
    exact ⟨0, jobs, [], rfl, (List.append_nil _).symm, rfl, h, by simp, by simp⟩
  | cons wake wakes ih =>
    rcases enqueueJob_wake wake h with
      ⟨hthere, outcome, hinserted, henqueue⟩ | ⟨hnone, outcome, after, hinserted, henqueue, hafter⟩
    · obtain ⟨inserted, jobs', added, hall, hrows, hlength, hgen, hadded, hdone⟩ := ih h
      refine ⟨inserted, jobs', added, ?_, hrows, hlength, hgen, fun job hjob => ?_, ?_⟩
      · simp only [List.map_cons, enqueueAll, Option.bind_eq_bind, henqueue, Option.bind_some, hall,
          hinserted, Bool.false_eq_true, if_false, Nat.add_zero]
      · obtain ⟨w, hw, hjob⟩ := hadded job hjob
        exact ⟨w, List.mem_cons_of_mem _ hw, hjob⟩
      · intro w hw
        rcases List.mem_cons.1 hw with rfl | hw
        · rw [hasJob_append hrows, hthere, Bool.true_or]
        · exact hdone w hw
    · have hgen : Generates database after := by
        refine ⟨h.apart, fun w hw => ?_⟩
        rw [hasJob_append hafter, Bool.or_eq_false_iff] at hw
        rw [Table.find?_eq_none]
        intro job hjob hkey
        rw [← Table.mem_rows, hafter, List.mem_append, List.mem_singleton] at hjob
        rcases hjob with hjob | rfl
        · exact Table.find?_eq_none.1 (h.fresh w hw.1) job hjob hkey
        · obtain ⟨hworkspace, hid⟩ := Prod.mk.inj hkey
          have hsame : sameLook w wake := h.apart w wake hworkspace.symm hid.symm
          rw [List.any_cons, sameIdempotencyKey_newJob.2 hsame] at hw
          cases hw.2
      obtain ⟨inserted, jobs', added, hall, hrows, hlength, hgen', hadded, hdone⟩ := ih hgen
      refine ⟨inserted + 1, jobs', newJob database.clock (database.newId (wakeSpecification wake))
        (wakeSpecification wake) :: added, ?_, ?_, by rw [List.length_cons, hlength], hgen',
        fun job hjob => ?_, ?_⟩
      · simp only [List.map_cons, enqueueAll, Option.bind_eq_bind, henqueue, Option.bind_some, hall,
          hinserted, if_true]
      · rw [hrows, hafter, List.append_assoc]
        rfl
      · rcases List.mem_cons.1 hjob with rfl | hjob
        · exact ⟨wake, List.mem_cons_self, hnone, rfl⟩
        · obtain ⟨w, hw, hnew, hjob⟩ := hadded job hjob
          rw [hasJob_append hafter, Bool.or_eq_false_iff] at hnew
          exact ⟨w, List.mem_cons_of_mem _ hw, hnew.1, hjob⟩
      · intro w hw
        rcases List.mem_cons.1 hw with rfl | hw
        · have hself : sameIdempotencyKey (wakeSpecification w) (newJob database.clock
              (database.newId (wakeSpecification w)) (wakeSpecification w)) = true :=
            sameIdempotencyKey_newJob.2 ⟨rfl, rfl⟩
          rw [hasJob_append hrows, hasJob_append hafter]
          simp [hself]
        · exact hdone w hw

end Enqueue

/-! ## What a pass leaves -/

/-- A job of the step's current look is there. -/
def WakeTables.served (clock : ZoneClock) (now : Micros) (t : WakeTables) (step : StepRow) : Bool :=
  hasJob (t.wakeOf clock now step) t.jobs

section Pass

variable {clock : ZoneClock} {database : Database} {now : Micros} {grace : Int} {t : WakeTables}

theorem mem_stepRows {step : StepRow} : step ∈ t.stepRows ↔
    ∃ e ∈ t.executions.rows, ∃ n, t.enrollments.find? (e.workspaceId, e.row.enrollmentId) = some n ∧
      step = ⟨e.workspaceId, e.row, n.row⟩ := by
  simp only [WakeTables.stepRows, List.mem_filterMap, Option.map_eq_some_iff]
  constructor
  · rintro ⟨e, he, n, hn, rfl⟩
    exact ⟨e, he, n, hn, rfl⟩
  · rintro ⟨e, he, n, hn, rfl⟩
    exact ⟨e, he, n, hn, rfl⟩

theorem stepRows_nodup (t : WakeTables) : t.stepRows.Nodup := by
  apply List.Nodup.filterMap _ (List.Nodup.of_map _ t.executions.nodup)
  intro e e' step hstep hstep'
  obtain ⟨n, -, rfl⟩ := Option.map_eq_some_iff.1 hstep
  obtain ⟨n', -, hsame⟩ := Option.map_eq_some_iff.1 hstep'
  simp only [StepRow.mk.injEq] at hsame
  cases e
  cases e'
  simp only [Scoped.mk.injEq]
  exact ⟨hsame.1.symm, hsame.2.1.symm⟩

/-- A step is known by its workspace and its execution's id. -/
theorem stepRow_eq {step step' : StepRow} (h : step ∈ t.stepRows) (h' : step' ∈ t.stepRows)
    (hworkspace : step.workspaceId = step'.workspaceId)
    (hid : step.execution.id = step'.execution.id) : step = step' := by
  obtain ⟨e, he, n, hn, rfl⟩ := mem_stepRows.1 h
  obtain ⟨e', he', n', hn', rfl⟩ := mem_stepRows.1 h'
  have hsame : e = e' := Table.eq_of_key_eq he he' (Prod.ext hworkspace hid)
  subst hsame
  rw [hn] at hn'
  cases hn'
  rfl

theorem mem_owed {step : StepRow} :
    step ∈ t.owed now grace ↔ step ∈ t.stepRows ∧ t.selects now grace step = true := by
  rw [WakeTables.owed, List.mem_insertionSort, List.mem_filter]

theorem owed_nodup (t : WakeTables) (now : Micros) (grace : Int) : (t.owed now grace).Nodup :=
  (List.perm_insertionSort _ _).nodup_iff.2 ((stepRows_nodup t).filter _)

instance : Std.Total WakesBefore where
  total left right := by
    unfold WakesBefore
    rcases lt_trichotomy left.originRank right.originRank with h | h | h
    · exact .inl (.inl h)
    · rcases lt_trichotomy left.execution.dueAt right.execution.dueAt with hdue | hdue | hdue
      · exact .inl (.inr ⟨h, .inl hdue⟩)
      · have htotal := textLe_total left.execution.id right.execution.id
        rw [Bool.or_eq_true] at htotal
        rcases htotal with hid | hid
        · exact .inl (.inr ⟨h, .inr ⟨hdue, hid⟩⟩)
        · exact .inr (.inr ⟨h.symm, .inr ⟨hdue.symm, hid⟩⟩)
      · exact .inr (.inr ⟨h.symm, .inl hdue⟩)
    · exact .inr (.inl h)

instance : IsTrans StepRow WakesBefore where
  trans a b c hab hbc := by
    unfold WakesBefore at *
    rcases hab with hab | ⟨hab, hab'⟩ <;> rcases hbc with hbc | ⟨hbc, hbc'⟩
    · exact .inl (hab.trans hbc)
    · exact .inl (hbc ▸ hab)
    · exact .inl (hab ▸ hbc)
    · right
      refine ⟨hab.trans hbc, ?_⟩
      rcases hab' with hab' | ⟨hab', hid⟩ <;> rcases hbc' with hbc' | ⟨hbc', hid'⟩
      · exact .inl (hab'.trans hbc')
      · exact .inl (hbc' ▸ hab')
      · exact .inl (hab' ▸ hbc')
      · exact .inr ⟨hab'.trans hbc', textLe_trans hid hid'⟩

/-- The steps one pass gives a job. -/
def WakeTables.woken (clock : ZoneClock) (now : Micros) (t : WakeTables) : List StepRow :=
  ((t.owed now dispatchRecoveryGraceSeconds).take stepWakeLimit).filter fun step =>
    !t.served clock now step

theorem mem_woken {step : StepRow} : step ∈ t.woken clock now ↔
    step ∈ (t.owed now dispatchRecoveryGraceSeconds).take stepWakeLimit ∧
      t.served clock now step = false := by
  rw [WakeTables.woken, List.mem_filter, Bool.not_eq_true']

theorem stepRow_of_taken {step : StepRow}
    (h : step ∈ (t.owed now grace).take stepWakeLimit) : step ∈ t.stepRows :=
  (mem_owed.1 (List.mem_of_mem_take h)).1

theorem id_no_colon (hids : ∀ e ∈ t.executions.rows, colon ∉ e.row.id) {step : StepRow}
    (h : step ∈ t.stepRows) : colon ∉ step.execution.id := by
  obtain ⟨e, he, n, -, rfl⟩ := mem_stepRows.1 h
  exact hids e he

theorem sameLook_wakeOf (hids : ∀ e ∈ t.executions.rows, colon ∉ e.row.id) {step step' : StepRow}
    (h : step ∈ t.stepRows) (h' : step' ∈ t.stepRows)
    (hsame : sameLook (t.wakeOf clock now step) (t.wakeOf clock now step')) : step = step' :=
  stepRow_eq h h' hsame.1
    (sequenceActionKey_inj (id_no_colon hids h) (id_no_colon hids h') hsame.2).1

/-- One pass: the jobs it inserts are those of the steps it wakes. -/
theorem schedulerPass_spec (clock : ZoneClock) (now : Micros)
    (hids : ∀ e ∈ t.executions.rows, colon ∉ e.row.id)
    (hgen : Generates database t.jobs) :
    ∃ inserted jobs' added, schedulerPass clock database now t = (inserted, { t with jobs := jobs' }) ∧
      jobs'.rows = t.jobs.rows ++ added ∧ added.length = inserted ∧ Generates database jobs' ∧
      (∀ job ∈ added, ∃ step ∈ t.woken clock now, job = newJob database.clock
        (database.newId (wakeSpecification (t.wakeOf clock now step)))
        (wakeSpecification (t.wakeOf clock now step))) ∧
      ∀ step ∈ t.woken clock now, ∃ job ∈ added, job = newJob database.clock
        (database.newId (wakeSpecification (t.wakeOf clock now step)))
        (wakeSpecification (t.wakeOf clock now step)) := by
  obtain ⟨inserted, jobs', added, hall, hrows, hlength, hgen', hadded, hdone⟩ := enqueueAll_spec
    (((t.owed now dispatchRecoveryGraceSeconds).take stepWakeLimit).map (t.wakeOf clock now)) hgen
  have hfrom : ∀ job ∈ added, ∃ step ∈ t.woken clock now, job = newJob database.clock
      (database.newId (wakeSpecification (t.wakeOf clock now step)))
      (wakeSpecification (t.wakeOf clock now step)) := by
    intro job hjob
    obtain ⟨wake, hwake, hnone, hjob⟩ := hadded job hjob
    obtain ⟨step, hstep, rfl⟩ := List.mem_map.1 hwake
    exact ⟨step, mem_woken.2 ⟨hstep, hnone⟩, hjob⟩
  refine ⟨inserted, jobs', added, ?_, hrows, hlength, hgen', hfrom, fun step hstep => ?_⟩
  · have hsource : sequenceActionSource clock now t
        = (((t.owed now dispatchRecoveryGraceSeconds).take stepWakeLimit).map
          (t.wakeOf clock now)).map wakeSpecification := rfl
    rw [schedulerPass, hsource, hall]
  · obtain ⟨htaken, hnone⟩ := mem_woken.1 hstep
    have hhas := hdone _ (List.mem_map_of_mem htaken)
    rw [hasJob_append hrows, show hasJob _ t.jobs = false from hnone, Bool.false_or,
      List.any_eq_true] at hhas
    obtain ⟨job, hjob, hkey⟩ := hhas
    obtain ⟨step', hstep', hsame⟩ := hfrom job hjob
    rw [hsame, sameIdempotencyKey_newJob] at hkey
    have heq := sameLook_wakeOf hids (stepRow_of_taken htaken)
      (stepRow_of_taken (mem_woken.1 hstep').1) hkey
    exact ⟨job, hjob, heq ▸ hsame⟩

/-- What a pass makes of the tables. -/
structure Passed (clock : ZoneClock) (now : Micros) (t t' : WakeTables) : Prop where
  owed : t'.owed now dispatchRecoveryGraceSeconds
    = pass (t.served clock now) stepWakeLimit (t.owed now dispatchRecoveryGraceSeconds)
  served : ∀ step ∈ t.stepRows, t'.served clock now step
    = (t.served clock now step || decide (step ∈ t.woken clock now))
  stepRows : t'.stepRows = t.stepRows
  executions : t'.executions = t.executions

/-- The queue without the steps that were woken is the queue after a pass. -/
theorem filter_owed_eq_pass :
    (t.owed now dispatchRecoveryGraceSeconds).filter
        (fun step => !decide (step ∈ t.woken clock now))
      = pass (t.served clock now) stepWakeLimit (t.owed now dispatchRecoveryGraceSeconds) := by
  have hnodup := owed_nodup t now dispatchRecoveryGraceSeconds
  rw [← List.take_append_drop stepWakeLimit (t.owed now dispatchRecoveryGraceSeconds),
    List.nodup_append] at hnodup
  conv_lhs => rw [← List.take_append_drop stepWakeLimit (t.owed now dispatchRecoveryGraceSeconds)]
  rw [List.filter_append, Backlogs.pass]
  congr 1
  · apply List.filter_congr
    intro step hstep
    cases hserved : t.served clock now step with
    | true =>
      have hnot : step ∉ t.woken clock now := fun hmem => by
        rw [(mem_woken.1 hmem).2] at hserved
        cases hserved
      simp [hnot]
    | false => simp [mem_woken.2 ⟨hstep, hserved⟩]
  · apply List.filter_eq_self.2
    intro step hstep
    have hnot : step ∉ t.woken clock now := fun hmem =>
      hnodup.2.2 step (mem_woken.1 hmem).1 step hstep rfl
    simp [hnot]

theorem schedulerPass_passed (clock : ZoneClock) (now : Micros)
    (hids : ∀ e ∈ t.executions.rows, colon ∉ e.row.id)
    (hgen : Generates database t.jobs) :
    Passed clock now t (schedulerPass clock database now t).2 ∧
      Generates database (schedulerPass clock database now t).2.jobs ∧
      ((∃ step, step ∈ t.woken clock now) → 1 ≤ (schedulerPass clock database now t).1) := by
  obtain ⟨inserted, jobs', added, hpass, hrows, hlength, hgen', hfrom, hinto⟩ :=
    schedulerPass_spec clock now hids hgen
  rw [hpass]
  have hlive : ∀ step ∈ t.stepRows, WakeTables.liveJob { t with jobs := jobs' } step
      = (t.liveJob step || decide (step ∈ t.woken clock now)) := by
    intro step hstep
    unfold WakeTables.liveJob
    rw [hrows, List.any_append]
    congr 1
    rw [Bool.eq_iff_iff, List.any_eq_true, decide_eq_true_iff]
    constructor
    · rintro ⟨job, hjob, hmatch⟩
      obtain ⟨step', hwoken, rfl⟩ := hfrom job hjob
      simp only [Bool.and_eq_true, decide_eq_true_eq] at hmatch
      have hid : step'.execution.id = step.execution.id := by
        have hlookup := hmatch.2
        simpa [newJob, wakeSpecification, WakeTables.wakeOf] using hlookup
      have heq := stepRow_eq (stepRow_of_taken (mem_woken.1 hwoken).1) hstep hmatch.1.1.1 hid
      exact heq ▸ hwoken
    · intro hwoken
      obtain ⟨job, hjob, rfl⟩ := hinto step hwoken
      refine ⟨_, hjob, ?_⟩
      simp [newJob, wakeSpecification, WakeTables.wakeOf]
  have hselects : ∀ step ∈ t.stepRows, WakeTables.selects { t with jobs := jobs' } now
      dispatchRecoveryGraceSeconds step
      = (t.selects now dispatchRecoveryGraceSeconds step
        && !decide (step ∈ t.woken clock now)) := by
    intro step hstep
    unfold WakeTables.selects
    rw [hlive step hstep, Bool.not_or, ← Bool.and_assoc]
    rfl
  refine ⟨⟨?_, fun step hstep => ?_, rfl, rfl⟩, hgen', ?_⟩
  · rw [← filter_owed_eq_pass]
    show (t.stepRows.filter _).insertionSort WakesBefore = _
    rw [List.filter_congr hselects, WakeTables.owed, filter_insertionSort, List.filter_filter]
    simp only [Bool.and_comm]
  · show hasJob (t.wakeOf clock now step) jobs' = _
    rw [hasJob_append hrows]
    congr 1
    rw [Bool.eq_iff_iff, List.any_eq_true, decide_eq_true_iff]
    constructor
    · rintro ⟨job, hjob, hkey⟩
      obtain ⟨step', hwoken, rfl⟩ := hfrom job hjob
      have heq := sameLook_wakeOf hids hstep (stepRow_of_taken (mem_woken.1 hwoken).1)
        (sameIdempotencyKey_newJob.1 hkey)
      exact heq ▸ hwoken
    · intro hwoken
      obtain ⟨job, hjob, rfl⟩ := hinto step hwoken
      exact ⟨_, hjob, sameIdempotencyKey_newJob.2 ⟨rfl, rfl⟩⟩
  · rintro ⟨step, hwoken⟩
    obtain ⟨job, hjob, -⟩ := hinto step hwoken
    rw [← hlength]
    exact List.length_pos_of_mem hjob

/-! ## Passes on end -/

/-- The tables after some passes at one instant, with no other writes. -/
def afterPasses (clock : ZoneClock) (database : Database) (now : Micros) (n : Nat)
    (t : WakeTables) : WakeTables :=
  (fun t => (schedulerPass clock database now t).2)^[n] t

/-- What any number of passes leaves. -/
theorem afterPasses_spec (clock : ZoneClock) (now : Micros)
    (hids : ∀ e ∈ t.executions.rows, colon ∉ e.row.id)
    (hgen : Generates database t.jobs) (n : Nat) :
    (afterPasses clock database now n t).owed now dispatchRecoveryGraceSeconds
        = (pass (t.served clock now) stepWakeLimit)^[n] (t.owed now dispatchRecoveryGraceSeconds) ∧
      (∀ step ∈ (afterPasses clock database now n t).owed now dispatchRecoveryGraceSeconds,
        (afterPasses clock database now n t).served clock now step = t.served clock now step) ∧
      (∀ step ∈ t.owed now dispatchRecoveryGraceSeconds,
        (afterPasses clock database now n t).served clock now step = true ∨
          step ∈ (afterPasses clock database now n t).owed now dispatchRecoveryGraceSeconds) ∧
      (afterPasses clock database now n t).stepRows = t.stepRows ∧
      (afterPasses clock database now n t).executions = t.executions ∧
      Generates database (afterPasses clock database now n t).jobs := by
  induction n with
  | zero => exact ⟨rfl, fun _ _ => rfl, fun step hstep => .inr hstep, rfl, rfl, hgen⟩
  | succ n ih =>
    obtain ⟨howed, hserved, hall, hsteps, hexecutions, hgen'⟩ := ih
    have hnext : afterPasses clock database now (n + 1) t
        = (schedulerPass clock database now (afterPasses clock database now n t)).2 :=
      Function.iterate_succ_apply' ..
    obtain ⟨hpassed, hgen'', -⟩ := schedulerPass_passed clock now
      (hexecutions ▸ hids) hgen'
    rw [← hnext] at hpassed hgen''
    -- who is owed a look after the pass was before it, and was not woken
    have hleft : ∀ step, step ∈ (afterPasses clock database now (n + 1) t).owed now
        dispatchRecoveryGraceSeconds ↔
        step ∈ (afterPasses clock database now n t).owed now dispatchRecoveryGraceSeconds ∧
          step ∉ (afterPasses clock database now n t).woken clock now := by
      intro step
      rw [hpassed.owed, ← filter_owed_eq_pass, List.mem_filter]
      simp
    have hin : ∀ step ∈ (afterPasses clock database now n t).owed now
        dispatchRecoveryGraceSeconds,
        step ∈ (afterPasses clock database now n t).stepRows := fun step h => (mem_owed.1 h).1
    refine ⟨?_, fun step hstep => ?_, fun step hstep => ?_, hpassed.stepRows.trans hsteps,
      hpassed.executions.trans hexecutions, hgen''⟩
    · rw [hpassed.owed, pass_congr hserved, howed, Function.iterate_succ_apply']
    · obtain ⟨hbefore, hnot⟩ := (hleft step).1 hstep
      rw [hpassed.served step (hin step hbefore), hserved step hbefore]
      simp [hnot]
    · rcases hall step hstep with hdone | hwaits
      · left
        have hrow : step ∈ (afterPasses clock database now n t).stepRows :=
          hsteps.symm ▸ (mem_owed.1 hstep).1
        rw [hpassed.served step hrow, hdone, Bool.true_or]
      · by_cases hwoken : step ∈ (afterPasses clock database now n t).woken clock now
        · left
          rw [hpassed.served step (hin step hwaits)]
          simp [hwoken]
        · exact .inr ((hleft step).2 ⟨hwaits, hwoken⟩)

end Pass

/-- A pass inserts a job whenever a step that is owed a look has none, and passes go on to give
every such step one, exactly when fewer than the limit of the steps before each have theirs. -/
theorem wakes_reached_iff (clock : ZoneClock) (database : Database) (now : Micros) (t : WakeTables)
    (hids : ∀ e ∈ t.executions.rows, colon ∉ e.row.id) (hgen : Generates database t.jobs) :
    (((∃ step ∈ t.owed now dispatchRecoveryGraceSeconds, t.served clock now step = false) →
        1 ≤ (schedulerPass clock database now t).1) ∧
      ∃ n, ∀ step ∈ t.owed now dispatchRecoveryGraceSeconds,
        (afterPasses clock database now n t).served clock now step = true) ↔
    InReach (t.served clock now) stepWakeLimit (t.owed now dispatchRecoveryGraceSeconds) := by
  constructor
  · rintro ⟨-, n, hn⟩ front step back howed hwaits
    by_contra hfar
    obtain ⟨hqueue, hserved, -⟩ := afterPasses_spec clock now hids hgen n
    have hstuck := stuck (not_lt.1 hfar) howed n
    rw [← hqueue] at hstuck
    have hdone := hn step (by rw [howed]; simp)
    rw [hserved step hstuck, hwaits] at hdone
    cases hdone
  · intro hreach
    constructor
    · intro hwaits
      obtain ⟨step, hstep, hnone⟩ := pass_progress hreach hwaits
      exact (schedulerPass_passed clock now hids hgen).2.2
        ⟨step, mem_woken.2 ⟨hstep, hnone⟩⟩
    · obtain ⟨n, hn⟩ := drains hreach
      obtain ⟨hqueue, hserved, hall, -⟩ :=
        afterPasses_spec clock now hids hgen n
      refine ⟨n, fun step hstep => ?_⟩
      rcases hall step hstep with hdone | hleft
      · exact hdone
      · rw [hserved step hleft]
        exact hn step (hqueue ▸ hleft)

/-! ## Calls that wait for a person -/

def waitingId (k : Nat) : Uuid := [(k + 256).toUInt16]

/-- A follow-up's step: calls due at 0, and after 500 of them an email due later. -/
def waitingStep (k : Nat) : StepExecutionRow where
  id := waitingId k
  enrollmentId := waitingId k
  stepId := js "s"
  firmId := js "f"
  contactId := js "c"
  channel := if k < stepWakeLimit then .callTask else .email
  ordinal := 1
  state := .pending
  dueAt := if k < stepWakeLimit then 0 else 1
  notBefore := 0
  originalDueAt := 0
  holdReasonCode := none
  completionSource := none
  result := none
  completedAt := none
  cancelledAt := none
  cancelReason := none
  createdAt := 0
  updatedAt := 0

def followedUp (k : Nat) : EnrollmentRow where
  id := waitingId k
  sequenceVersionId := js "v"
  opportunityId := none
  firmId := js "f"
  contactId := js "c"
  assignedUserId := js "u"
  originKind := .followUp
  outreachPlanId := none
  state := .active
  startedAt := 0
  endedAt := none
  endReason := none

def waitingWake (k : Nat) : StepWake := ⟨js "w", waitingId k, js "0"⟩

/-- The call was looked at, and waits. -/
def lookedAt (k : Nat) : Job :=
  { newJob 0 (waitingId k) (wakeSpecification (waitingWake k)) with state := .done }

theorem waitingId_inj {k k' : Nat} (hk : k < 501) (hk' : k' < 501)
    (h : waitingId k = waitingId k') : k = k' := by
  have hsame : ((k + 256).toUInt16).toNat = ((k' + 256).toUInt16).toNat := by
    rw [(List.cons_eq_cons.1 h).1]
  have hleft : ((k + 256).toUInt16).toNat = (k + 256) % 65536 := rfl
  have hright : ((k' + 256).toUInt16).toNat = (k' + 256) % 65536 := rfl
  omega

theorem nodup_waiting {β : Type} (key : Nat → β)
    (hkey : ∀ k k', key k = key k' → waitingId k = waitingId k') {n : Nat} (hn : n ≤ 501) :
    ((List.range n).map key).Nodup := by
  apply List.Nodup.map_on _ List.nodup_range
  intro k hk k' hk' h
  rw [List.mem_range] at hk hk'
  exact waitingId_inj (by omega) (by omega) (hkey k k' h)

/-- Steps that are due, of which the first `looks` have been looked at. -/
def crowdedBy (steps looks : Nat) (hsteps : steps ≤ 501) (hlooks : looks ≤ 501) : WakeTables where
  executions := ⟨(List.range steps).map fun k => ⟨js "w", waitingStep k⟩, by
    rw [List.map_map]
    exact nodup_waiting _ (fun _ _ h => (Prod.mk.inj h).2) hsteps⟩
  enrollments := ⟨(List.range steps).map fun k => ⟨js "w", followedUp k⟩, by
    rw [List.map_map]
    exact nodup_waiting _ (fun _ _ h => (Prod.mk.inj h).2) hsteps⟩
  holds := .empty
  fences := .empty
  mailboxes := .empty
  plans := .empty
  touches := .empty
  jobs := ⟨(List.range looks).map lookedAt, by
    rw [List.map_map]
    exact nodup_waiting _ (fun _ _ h => (Prod.mk.inj h).2) hlooks⟩

/-- Every zone keeps the same hour. -/
def stoppedClock : ZoneClock := ⟨fun _ _ => ⟨0, 4, 0, 0⟩, fun _ _ _ _ => 0⟩

/-- A database whose uuids spell the key. -/
def spelling : Database := ⟨0, JobSpecification.idempotencyKey⟩

def crowdedStep (k : Nat) : StepRow := ⟨js "w", waitingStep k, followedUp k⟩

section Crowded

variable {steps looks : Nat} {hsteps : steps ≤ 501} {hlooks : looks ≤ 501}

theorem crowded_stepRows :
    (crowdedBy steps looks hsteps hlooks).stepRows = (List.range steps).map crowdedStep := by
  unfold WakeTables.stepRows
  show ((List.range steps).map _).filterMap _ = _
  rw [List.filterMap_map]
  apply List.filterMap_eq_map_iff_forall_eq_some.2
  intro k hk
  have hrow : (crowdedBy steps looks hsteps hlooks).enrollments.find? (js "w", waitingId k)
      = some ⟨js "w", followedUp k⟩ :=
    Table.find?_eq_some.2 ⟨List.mem_map.2 ⟨k, hk, rfl⟩, rfl⟩
  show ((crowdedBy steps looks hsteps hlooks).enrollments.find? (js "w", waitingId k)).map _ = _
  rw [hrow]
  rfl

theorem crowded_owed : (crowdedBy steps looks hsteps hlooks).owed 1 dispatchRecoveryGraceSeconds
    = (List.range steps).map crowdedStep := by
  have hlive : ∀ step, (crowdedBy steps looks hsteps hlooks).liveJob step = false := by
    intro step
    apply List.any_eq_false.2
    intro job hjob
    obtain ⟨k, -, rfl⟩ := List.mem_map.1 hjob
    simp [lookedAt]
  have hselects : ∀ step ∈ (List.range steps).map crowdedStep,
      (crowdedBy steps looks hsteps hlooks).selects 1 dispatchRecoveryGraceSeconds step = true := by
    intro step hstep
    obtain ⟨k, -, rfl⟩ := List.mem_map.1 hstep
    have hdue : (waitingStep k).dueAt ≤ 1 := by
      simp only [waitingStep]
      split <;> decide
    have howed : (crowdedBy steps looks hsteps hlooks).owedLook 1 dispatchRecoveryGraceSeconds
        (crowdedStep k) = true := by
      show (decide ((waitingStep k).dueAt ≤ 1) && decide ((0 : Int) ≤ 1)) = true
      simp [hdue]
    unfold WakeTables.selects
    rw [hlive, howed]
    rfl
  rw [WakeTables.owed, crowded_stepRows, List.filter_eq_self.2 hselects]
  apply List.Pairwise.insertionSort_eq
  rw [List.pairwise_map]
  apply List.Pairwise.imp_of_mem _ List.pairwise_lt_range
  intro k k' hk hk' hlt
  rw [List.mem_range] at hk hk'
  right
  refine ⟨rfl, ?_⟩
  by_cases hemail : k' < stepWakeLimit
  · right
    have hcall : k < stepWakeLimit := by omega
    refine ⟨by simp [crowdedStep, waitingStep, hcall, hemail], ?_⟩
    show (decide ((k + 256).toUInt16 < (k' + 256).toUInt16) || _) = true
    have hless : (k + 256).toUInt16 < (k' + 256).toUInt16 := by
      rw [UInt16.lt_iff_toNat_lt]
      show (k + 256) % 65536 < (k' + 256) % 65536
      omega
    rw [decide_eq_true hless, Bool.true_or]
  · left
    have hcall : k < stepWakeLimit := by
      unfold stepWakeLimit at *
      omega
    simp [crowdedStep, waitingStep, hcall, hemail]

theorem spelling_generates : Generates spelling (crowdedBy steps looks hsteps hlooks).jobs where
  apart wake wake' hworkspace hkey := ⟨hworkspace, hkey⟩
  fresh wake _ := by
    apply Table.find?_eq_none.2
    intro job hjob hkey
    obtain ⟨k, -, rfl⟩ := List.mem_map.1 hjob
    have hid : waitingId k = sequenceActionKey wake.stepExecutionId wake.wake :=
      (Prod.mk.inj hkey).2
    have hlength := congrArg List.length hid
    have hbegins : (js "step-execution:").length = 15 := by decide
    have hone : (waitingId k).length = 1 := rfl
    rw [hone, sequenceActionKey, List.length_append, List.length_append, List.length_append,
      hbegins] at hlength
    omega

theorem waitingStep_wake (k : Nat) :
    (crowdedBy steps looks hsteps hlooks).wakeOf stoppedClock 1 (crowdedStep k) = waitingWake k := by
  have hcadence : (crowdedBy steps looks hsteps hlooks).callCadence (crowdedStep k) = none := by
    simp [WakeTables.callCadence, crowdedStep, followedUp]
  have htext : (waitingStep k).wakeText = js "0" := by
    show integerText 0 = js "0"
    decide
  rw [WakeTables.wakeOf, hcadence]
  show StepWake.mk _ _ (waitingStep k).wakeText = _
  rw [htext]
  rfl

theorem waitingId_no_colon {k : Nat} (hk : k < 501) : colon ∉ waitingId k := by
  unfold waitingId
  rw [List.mem_singleton]
  intro h
  have hnat := congrArg UInt16.toNat h
  have hright : ((k + 256).toUInt16).toNat = (k + 256) % 65536 := rfl
  have hleft : colon.toNat = 58 := rfl
  omega

theorem crowded_ids :
    ∀ e ∈ (crowdedBy steps looks hsteps hlooks).executions.rows, colon ∉ e.row.id := by
  intro e he
  obtain ⟨k, hk, rfl⟩ := List.mem_map.1 he
  exact waitingId_no_colon (lt_of_lt_of_le (List.mem_range.1 hk) hsteps)

theorem crowded_served (k : Nat) (hk : k < 501) :
    (crowdedBy steps looks hsteps hlooks).served stoppedClock 1 (crowdedStep k) = true ↔
      k < looks := by
  rw [WakeTables.served, waitingStep_wake, hasJob_iff]
  constructor
  · rintro ⟨job, hjob, hkey⟩
    obtain ⟨k', hk', rfl⟩ := List.mem_map.1 hjob
    rw [List.mem_range] at hk'
    have hkey' : sameIdempotencyKey (wakeSpecification (waitingWake k))
        (newJob 0 (waitingId k') (wakeSpecification (waitingWake k'))) = true := hkey
    have hsame := sameIdempotencyKey_newJob.1 hkey'
    have hid : waitingId k ++ (js ":" ++ js "0") = waitingId k' ++ (js ":" ++ js "0") := by
      have hkeys := hsame.2
      simp only [sequenceActionKey, List.append_assoc] at hkeys
      exact List.append_cancel_left hkeys
    rw [waitingId_inj hk (by omega) (List.append_cancel_right hid)]
    exact hk'
  · intro hlooked
    have hown : sameIdempotencyKey (wakeSpecification (waitingWake k))
        (newJob 0 (waitingId k) (wakeSpecification (waitingWake k))) = true :=
      sameIdempotencyKey_newJob.2 ⟨rfl, rfl⟩
    exact ⟨lookedAt k, List.mem_map.2 ⟨k, List.mem_range.2 hlooked, rfl⟩, hown⟩

end Crowded

/-- Every pass looks at the same 500 calls, and never at the email behind them. -/
theorem sequenceActionSource_starves :
    ¬ ((∃ step ∈ (crowdedBy 501 500 (by omega) (by omega)).owed 1 dispatchRecoveryGraceSeconds,
        (crowdedBy 501 500 (by omega) (by omega)).served stoppedClock 1 step = false) →
      1 ≤ (schedulerPass stoppedClock spelling 1 (crowdedBy 501 500 (by omega) (by omega))).1) := by
  intro hclaim
  have hwoken : ∀ step, step ∉ (crowdedBy 501 500 (by omega) (by omega)).woken stoppedClock 1 := by
    intro step hstep
    obtain ⟨htaken, hwaits⟩ := mem_woken.1 hstep
    rw [crowded_owed, ← List.map_take, List.take_range] at htaken
    obtain ⟨k, hk, rfl⟩ := List.mem_map.1 htaken
    have hlooked : k < 500 := lt_of_lt_of_le (List.mem_range.1 hk) (Nat.min_le_left _ _)
    rw [(crowded_served k (by omega)).2 hlooked] at hwaits
    cases hwaits
  obtain ⟨inserted, jobs', added, hpass, -, hlength, -, hfrom, -⟩ :=
    schedulerPass_spec stoppedClock 1 crowded_ids spelling_generates
  have hnone : added = [] := by
    apply List.eq_nil_iff_forall_not_mem.2
    intro job hjob
    obtain ⟨step, hstep, -⟩ := hfrom job hjob
    exact hwoken step hstep
  have hone := hclaim ⟨crowdedStep 500, ?_, ?_⟩
  · rw [hpass, ← hlength, hnone] at hone
    exact absurd hone (Nat.not_succ_le_zero 0)
  · rw [crowded_owed]
    exact List.mem_map.2 ⟨500, List.mem_range.2 (by omega), rfl⟩
  · rw [← Bool.not_eq_true, crowded_served 500 (by omega)]
    omega

/-- With one call fewer looked at, a pass gives the last call its job and the email too. -/
theorem wakes_reached_iff_crowded :
    1 ≤ (schedulerPass stoppedClock spelling 1 (crowdedBy 501 499 (by omega) (by omega))).1 ∧
      ∃ n, ∀ step ∈ (crowdedBy 501 499 (by omega) (by omega)).owed 1 dispatchRecoveryGraceSeconds,
        (afterPasses stoppedClock spelling 1 n (crowdedBy 501 499 (by omega) (by omega))).served
          stoppedClock 1 step = true := by
  have hreach : InReach ((crowdedBy 501 499 (by omega) (by omega)).served stoppedClock 1)
      stepWakeLimit
      ((crowdedBy 501 499 (by omega) (by omega)).owed 1 dispatchRecoveryGraceSeconds) := by
    apply inReach_of_countP
    rw [crowded_owed, List.countP_map]
    have hlooked : ∀ k ∈ List.range 501,
        (((crowdedBy 501 499 (by omega) (by omega)).served stoppedClock 1 ∘ crowdedStep) k = true ↔
          decide (k < 499) = true) := by
      intro k hk
      rw [Function.comp_apply, crowded_served k (List.mem_range.1 hk), decide_eq_true_iff]
    rw [List.countP_congr hlooked]
    decide +kernel
  obtain ⟨hinserts, hall⟩ :=
    (wakes_reached_iff stoppedClock spelling 1 _ crowded_ids spelling_generates).2 hreach
  refine ⟨hinserts ⟨crowdedStep 500, ?_, ?_⟩, hall⟩
  · rw [crowded_owed]
    exact List.mem_map.2 ⟨500, List.mem_range.2 (by omega), rfl⟩
  · rw [← Bool.not_eq_true, crowded_served 500 (by omega)]
    omega

end FoundingSales.Sequences
