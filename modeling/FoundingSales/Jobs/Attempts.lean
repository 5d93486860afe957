import FoundingSales.Jobs.Fencing

/-!
The attempts of a job. `failJob` decides from the claim's attempt and the reclaim from the
row's; `QueueInvariant` ties the two, and with it no job is stranded and no job fails more
often than it may: `attempts_bounded`.
-/

namespace FoundingSales.Jobs

open Tables

structure JobInvariant (job : Job) : Prop where
  max_pos : 1 ≤ job.maxAttempts
  attempt_nonneg : 0 ≤ job.attemptCount
  attempt_le : job.attemptCount ≤ job.maxAttempts
  runnable : job.state = .queued ∨ job.state = .retryable → job.attemptCount < job.maxAttempts
  running_iff : job.state = .running ↔ job.leaseOwner.isSome ∧ job.leaseExpiresAt.isSome
  running_attempt : job.state = .running → 1 ≤ job.attemptCount

/-- A claim in a worker's memory against the row it was read from. -/
structure ClaimAgrees (claim : ClaimedJob) (job : Job) : Prop where
  maxAttempts : claim.maxAttempts = job.maxAttempts
  token_le : claim.fencingToken ≤ job.fencingToken
  attempt : job.state = .running → job.fencingToken = claim.fencingToken →
    claim.attempt = job.attemptCount

structure QueueInvariant (q : Queue) : Prop where
  jobs : ∀ k job, q.jobs.find? k = some job → JobInvariant job
  claims : ∀ claim ∈ q.issued, ∃ job, q.jobs.find? claim.key = some job ∧ ClaimAgrees claim job

variable {q : Queue} {a : Action} {k : JobKey} {job job' : Job}

/-! ## One step -/

/-- A job nobody holds. -/
theorem JobInvariant.of_idle (hstate : job.state ≠ .running) (howner : job.leaseOwner = none)
    (hmax : 1 ≤ job.maxAttempts) (hnonneg : 0 ≤ job.attemptCount)
    (hle : job.attemptCount ≤ job.maxAttempts)
    (hrunnable : job.state = .queued ∨ job.state = .retryable →
      job.attemptCount < job.maxAttempts) : JobInvariant job where
  max_pos := hmax
  attempt_nonneg := hnonneg
  attempt_le := hle
  runnable := hrunnable
  running_iff := by simp [hstate, howner]
  running_attempt := fun h => absurd h hstate

theorem newJob_invariant {now : Instant} {id : Uuid} {specification : JobSpecification}
    (h : 1 ≤ (newJob now id specification).maxAttempts) :
    JobInvariant (newJob now id specification) := by
  have hattempt : (newJob now id specification).attemptCount = 0 := rfl
  exact .of_idle (by simp [newJob]) rfl h (by omega) (by omega) (by omega)

theorem JobMove.maxAttempts (h : JobMove q job a job') : job'.maxAttempts = job.maxAttempts := by
  cases h with
  | @wrote now claim w => cases w <;> rfl
  | _ => rfl

theorem Write.set_invariant {now : Instant} {claim : ClaimedJob} {w : Write}
    (h : JobInvariant job) (hrunning : job.state = .running)
    (hattempt : claim.attempt = job.attemptCount) (hmax : claim.maxAttempts = job.maxAttempts) :
    JobInvariant (w.set now claim job) := by
  have hpos := h.running_attempt hrunning
  have hnonneg := h.attempt_nonneg
  have hle := h.attempt_le
  cases w with
  | renewLease leaseMillis =>
    have howner := (h.running_iff.1 hrunning).1
    exact ⟨h.max_pos, hnonneg, hle, h.runnable,
      ⟨fun _ => ⟨howner, rfl⟩, fun _ => hrunning⟩, fun _ => hpos⟩
  | writeProgress progress =>
    exact ⟨h.max_pos, hnonneg, hle, h.runnable, h.running_iff, h.running_attempt⟩
  | completeJob =>
    exact .of_idle (by simp [Write.set, completeSet]) rfl h.max_pos hnonneg hle
      (by simp [Write.set, completeSet])
  | killJob code detail =>
    exact .of_idle (by simp [Write.set, killSet]) rfl h.max_pos hnonneg hle
      (by simp [Write.set, killSet])
  | requeueForNextChunk =>
    have hdown : max (job.attemptCount - 1) 0 < job.maxAttempts := by omega
    exact .of_idle (by simp [Write.set, requeueSet]) rfl h.max_pos (le_max_right _ _)
      (le_of_lt hdown) fun _ => hdown
  | failJob failure =>
    -- exhausted by the claim's count is exhausted by the row's
    have hexhausted : isExhausted claim.attempt claim.maxAttempts
        = decide (job.attemptCount ≥ job.maxAttempts) := by rw [isExhausted, hattempt, hmax]
    refine .of_idle ?_ rfl h.max_pos hnonneg hle ?_ <;>
      by_cases hex : job.attemptCount ≥ job.maxAttempts
    · simp [Write.set, failSet, hexhausted, hex]
    · simp [Write.set, failSet, hexhausted, hex]
    · simp [Write.set, failSet, hexhausted, hex]
    · intro _
      exact not_le.1 hex

theorem JobMove.invariant (hq : QueueInvariant q) (hfind : q.jobs.find? k = some job)
    (h : JobMove q job a job') : JobInvariant job' := by
  have hjob := hq.jobs k job hfind
  have hnonneg := hjob.attempt_nonneg
  cases h with
  | kept => exact hjob
  | @claimed now locked options hclaimable =>
    have hlt := hjob.runnable (not_running_of_claimable hclaimable)
    have hnext : job.attemptCount + 1 ≤ job.maxAttempts := hlt
    exact ⟨hjob.max_pos, by simp only [claimSet]; omega, hnext, fun h => by simp [claimSet] at h,
      by simp [claimSet], fun _ => by simp only [claimSet]; omega⟩
  | @wrote now claim w hissued hraises hguard =>
    obtain ⟨row, hrow, hagrees⟩ := hq.claims claim hissued
    rw [← Write.guard_key hguard, Table.find?_key hfind, hfind] at hrow
    cases hrow
    have hrunning := Write.guard_running hguard
    exact Write.set_invariant hjob hrunning
      (hagrees.attempt hrunning (Write.guard_token hguard)) hagrees.maxAttempts
  | expired hexpired =>
    refine .of_idle ?_ rfl hjob.max_pos hnonneg hjob.attempt_le ?_ <;>
      by_cases hex : job.attemptCount ≥ job.maxAttempts
    · simp [reclaimSet, hex]
    · simp [reclaimSet, hex]
    · simp [reclaimSet, hex]
    · intro _
      exact not_le.1 hex
  | archived =>
    exact ⟨hjob.max_pos, hnonneg, hjob.attempt_le, hjob.runnable, hjob.running_iff,
      hjob.running_attempt⟩
  | @requeued now scope jobId =>
    have hattempt : (requeueDeadSet now job).attemptCount = 0 := rfl
    have hmax : 1 ≤ (requeueDeadSet now job).maxAttempts := hjob.max_pos
    exact .of_idle (by simp [requeueDeadSet]) rfl hmax (by omega) (by omega) (by omega)

theorem JobMove.agrees {claim : ClaimedJob} (hagrees : ClaimAgrees claim job)
    (h : JobMove q job a job') : ClaimAgrees claim job' := by
  obtain ⟨hmax, htoken, hattempt⟩ := hagrees
  refine ⟨hmax.trans h.maxAttempts.symm, ?_, fun hrunning hsame => ?_⟩
  · exact le_trans htoken h.lease.token_le
  · cases h with
    | kept => exact hattempt hrunning hsame
    | archived => exact hattempt hrunning hsame
    | claimed =>
      simp only [claimSet] at hsame
      omega
    | @wrote now other w _ _ hguard =>
      have hbefore := Write.guard_running hguard
      have hterminal : ((w.set now other job).state == .running) = !w.terminal :=
        Write.set_running hbefore
      rw [hrunning] at hterminal
      rw [Write.set_token] at hsame
      cases w <;> first | exact hattempt hbefore hsame | cases hterminal
    | @expired now locked limit hexpired =>
      by_cases hex : job.attemptCount ≥ job.maxAttempts <;> simp [reclaimSet, hex] at hrunning
    | requeued => cases hrunning

theorem QueueInvariant.step (h : QueueInvariant q) (a : Action) : QueueInvariant (q.step a) := by
  constructor
  · intro k job' hfind'
    cases hfind : q.jobs.find? k with
    | some job =>
      obtain ⟨job'', hfind'', hmove⟩ := step_job (a := a) hfind
      rw [hfind'] at hfind''
      cases hfind''
      exact hmove.invariant h hfind
    | none =>
      rcases step_absent (a := a) hfind with hnone | ⟨now, id, specification, -, hmax, hnew⟩
      · rw [hfind'] at hnone
        cases hnone
      · rw [hfind'] at hnew
        cases hnew
        exact newJob_invariant hmax
  · intro claim hclaim
    rcases List.mem_append.1 hclaim with hnew | hold
    · obtain ⟨now, locked, options, job, -, -, -, heq, hfind⟩ := issues_job hnew
      refine ⟨_, hfind, ?_⟩
      rw [heq]
      exact ⟨rfl, le_refl _, fun _ _ => rfl⟩
    · obtain ⟨job, hfind, hagrees⟩ := h.claims claim hold
      obtain ⟨job', hfind', hmove⟩ := step_job (a := a) hfind
      exact ⟨job', hfind', hmove.agrees hagrees⟩

theorem queueInvariant_empty : QueueInvariant Queue.empty := by
  constructor
  · intro k job h
    cases h
  · intro claim h
    cases h

theorem queueRun_invariant (actions : List Action) : QueueInvariant (queueRun actions) :=
  Runs.run_invariant (fun _ a h => h.step a) queueInvariant_empty actions

/-! ## How often a job fails -/

/-- The attempts that have ended. -/
def spent (job : Job) : Nat := (job.attemptCount - if job.state = .running then 1 else 0).toNat

def Queue.spent (q : Queue) (k : JobKey) : Nat := (q.jobs.find? k).elim 0 Jobs.spent

/-- Whether an action ends a claim of job `k` in a failure or finds its lease expired. -/
def Queue.endsInFailure (q : Queue) (k : JobKey) (a : Action) : Bool :=
  match a with
  | .write now claim (.failJob failure) =>
    claim.key = k && q.takesEffect now claim (.failJob failure)
  | .reclaimExpiredLeases _ _ _ => (q.lease k).held && !((q.step a).lease k).held
  | _ => false

def failures (k : JobKey) (q : Queue) (a : Action) : Nat := if q.endsInFailure k a then 1 else 0

theorem requeues_of_dead {now : Instant} {scope : AdminScope} {jobId : Uuid}
    (hfind : q.jobs.find? k = some job) (hadmin : scope.isAdmin = true)
    (hdead : isDead scope.workspaceId jobId job = true) :
    q.requeues k (.requeueDeadJob now scope jobId) = true := by
  have hkey : (scope.workspaceId, jobId) = k := by
    simp only [isDead, Bool.and_eq_true, decide_eq_true_eq] at hdead
    rw [← Table.find?_key hfind, Job.key, hdead.1.1, hdead.1.2]
  have hmem : job ∈ q.jobs.rows.filter (isDead scope.workspaceId jobId) :=
    List.mem_filter.2 ⟨(Table.find?_eq_some.1 hfind).1, hdead⟩
  simp only [Queue.requeues, hkey, decide_true, Bool.true_and, requeueDeadJob, hadmin,
    Bool.not_true, Bool.false_eq_true, ↓reduceIte, updateJobs]
  cases hrows : q.jobs.rows.filter (isDead scope.workspaceId jobId) with
  | nil =>
    rw [hrows] at hmem
    cases hmem
  | cons row rest => rfl

/-- A claim that ends in a failure leaves running. -/
theorem lease_of_endsInFailure (h : q.endsInFailure k a = true) :
    (q.lease k).held = true ∧ ((q.step a).lease k).held = false := by
  unfold Queue.endsInFailure at h
  split at h
  · next now claim failure =>
    rw [Bool.and_eq_true, decide_eq_true_eq] at h
    obtain ⟨rfl, heffect⟩ := h
    obtain ⟨job, hfind, hguard, hafter⟩ := step_of_takesEffect heffect
    have hrunning := Write.guard_running hguard
    rw [Queue.lease_of_find? hfind, Queue.lease_of_find? hafter]
    exact ⟨by simp [Job.lease, hrunning], Write.set_running hrunning⟩
  · simpa using h
  · cases h

theorem failures_le_one (k : JobKey) (q : Queue) (a : Action) : failures k q a ≤ 1 := by
  unfold failures
  split <;> omega

theorem failures_eq_zero {lease : Bool} (hbefore : (q.lease k).held = lease)
    (hafter : ((q.step a).lease k).held = lease) : failures k q a = 0 := by
  unfold failures
  split
  · next h =>
    obtain ⟨htrue, hfalse⟩ := lease_of_endsInFailure h
    rw [hbefore] at htrue
    rw [hafter, htrue] at hfalse
    cases hfalse
  · rfl

theorem spent_of_running (h : job.state = .running) :
    Jobs.spent job = (job.attemptCount - 1).toNat := by
  simp [Jobs.spent, h]

theorem spent_of_idle (h : job.state ≠ .running) : Jobs.spent job = job.attemptCount.toNat := by
  simp [Jobs.spent, h]

/-- Every failure is an attempt spent, and nothing but an admin's requeue gives one back. -/
theorem JobMove.spent_add_failures (hq : QueueInvariant q) (hfind : q.jobs.find? k = some job)
    (hfind' : (q.step a).jobs.find? k = some job') (hnot : q.requeues k a = false)
    (h : JobMove q job a job') : Jobs.spent job + failures k q a ≤ Jobs.spent job' := by
  have hjob := hq.jobs k job hfind
  cases h with
  | kept =>
    rw [failures_eq_zero (congrArg _ (Queue.lease_of_find? hfind))
      (congrArg _ (Queue.lease_of_find? hfind'))]
    exact le_refl _
  | @claimed now locked options hclaimable =>
    have hidle : job.state ≠ .running := by
      rcases not_running_of_claimable hclaimable with h | h <;> simp [h]
    have hzero : failures k q (.claimJobs now locked options) = 0 := rfl
    rw [hzero, spent_of_idle hidle, spent_of_running (by rfl)]
    simp [claimSet]
  | @wrote now claim w _ _ hguard =>
    have hrunning := Write.guard_running hguard
    have hpos := hjob.running_attempt hrunning
    have hidle : w.terminal = true → (w.set now claim job).state ≠ .running :=
      fun h => Write.set_idle h hrunning
    have hone := failures_le_one k q (.write now claim w)
    rw [spent_of_running hrunning]
    cases w with
    | renewLease leaseMillis => exact ge_of_eq (spent_of_running hrunning)
    | writeProgress progress => exact ge_of_eq (spent_of_running hrunning)
    | requeueForNextChunk =>
      rw [spent_of_idle (hidle rfl)]
      have hzero : failures k q (.write now claim .requeueForNextChunk) = 0 := rfl
      simp only [hzero, Write.set, requeueSet]
      omega
    | completeJob =>
      rw [spent_of_idle (hidle rfl)]
      simp only [Write.set, completeSet]
      omega
    | killJob code detail =>
      rw [spent_of_idle (hidle rfl)]
      simp only [Write.set, killSet]
      omega
    | failJob failure =>
      rw [spent_of_idle (hidle rfl)]
      simp only [Write.set, failSet]
      omega
  | @expired now locked limit hexpired =>
    have hrunning : job.state = .running := by
      simp only [Jobs.expired, Bool.and_eq_true, beq_iff_eq] at hexpired
      exact hexpired.1
    have hidle : (reclaimSet now job).state ≠ .running := by
      by_cases hex : job.attemptCount ≥ job.maxAttempts <;> simp [reclaimSet, hex]
    have hpos := hjob.running_attempt hrunning
    have hone := failures_le_one k q (.reclaimExpiredLeases now locked limit)
    rw [spent_of_running hrunning, spent_of_idle hidle]
    simp only [reclaimSet]
    omega
  | archived => exact le_refl _
  | requeued hadmin hdead =>
    rw [requeues_of_dead hfind hadmin hdead] at hnot
    cases hnot

theorem failures_le_maxAttempts {later : List Action} (hq : QueueInvariant q)
    (hfind : q.jobs.find? k = some job)
    (hnot : Runs.Meets Queue.step (fun q a => q.requeues k a = false) q later) :
    (Runs.total Queue.step (failures k) q later : Int) ≤ job.maxAttempts := by
  let Known : Queue → Prop := fun q => QueueInvariant q ∧
    ∃ row, q.jobs.find? k = some row ∧ row.maxAttempts = job.maxAttempts
  have hkeep : ∀ q a, q.requeues k a = false → Known q → Known (q.step a) := by
    rintro q a - ⟨hinv, row, hrow, hmax⟩
    obtain ⟨row', hrow', hmove⟩ := step_job (a := a) hrow
    exact ⟨hinv.step a, row', hrow', hmove.maxAttempts.trans hmax⟩
  have hpays : ∀ q a, q.requeues k a = false → Known q →
      q.spent k + failures k q a ≤ (q.step a).spent k := by
    rintro q a hnot ⟨hinv, row, hrow, -⟩
    obtain ⟨row', hrow', hmove⟩ := step_job (a := a) hrow
    simp only [Queue.spent, hrow, hrow', Option.elim_some]
    exact hmove.spent_add_failures hinv hrow hrow' hnot
  have hbounded : ∀ q, Known q → q.spent k ≤ job.maxAttempts.toNat := by
    rintro q ⟨hinv, row, hrow, hmax⟩
    have hle := (hinv.jobs k row hrow).attempt_le
    simp only [Queue.spent, hrow, Option.elim_some, Jobs.spent]
    split <;> omega
  have htotal := Runs.total_le_of_potential hkeep hpays hbounded hnot ⟨hq, job, hfind, rfl⟩
  have hmax := (hq.jobs k job hfind).max_pos
  omega

/-! ## Every run -/

/-- What holds of every job after a run, and of its failures from there on. -/
structure BoundedAttempts (before : List Action) : Prop where
  attempts : ∀ k job, (queueRun before).jobs.find? k = some job →
    0 ≤ job.attemptCount ∧ job.attemptCount ≤ job.maxAttempts
  /-- claimable as soon as its instants pass -/
  not_stranded : ∀ k job, (queueRun before).jobs.find? k = some job →
    job.state = .queued ∨ job.state = .retryable →
      job.attemptCount < job.maxAttempts ∧ ∀ now options, job.kind ∈ options.kinds →
        job.runAt ≤ now → job.notBefore ≤ now → claimable now options job = true
  running_iff_leased : ∀ k job, (queueRun before).jobs.find? k = some job →
    (job.state = .running ↔ job.leaseOwner.isSome ∧ job.leaseExpiresAt.isSome)
  failures_bounded : ∀ k job later, (queueRun before).jobs.find? k = some job →
    Runs.Meets Queue.step (fun q a => q.requeues k a = false) (queueRun before) later →
      (Runs.total Queue.step (failures k) (queueRun before) later : Int) ≤ job.maxAttempts

theorem attempts_bounded (before : List Action) : BoundedAttempts before := by
  have hinv := queueRun_invariant before
  refine ⟨fun k job hfind => ?_, fun k job hfind hstate => ?_, fun k job hfind => ?_,
    fun k job later hfind => failures_le_maxAttempts hinv hfind⟩
  · exact ⟨(hinv.jobs k job hfind).attempt_nonneg, (hinv.jobs k job hfind).attempt_le⟩
  · have hlt := (hinv.jobs k job hfind).runnable hstate
    refine ⟨hlt, fun now options hkind hrun hnotBefore => ?_⟩
    simp [claimable, hstate, hkind, hrun, hnotBefore, hlt]
  · exact (hinv.jobs k job hfind).running_iff

end FoundingSales.Jobs
