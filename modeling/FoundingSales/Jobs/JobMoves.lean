import FoundingSales.Jobs.JobStore

/-!
What one action can do to one job: `JobMove`, proved once of `Queue.step`. Everything the
queue promises of a job over a run is derived from it.
-/

namespace FoundingSales.Jobs

open Tables

/-! ## A worker's write, row by row -/

def Write.guard (claim : ClaimedJob) : Write → Job → Bool
  | .writeProgress _ => holdsToken claim
  | _ => holdsLease claim

def Write.set (now : Instant) (claim : ClaimedJob) : Write → Job → Job
  | .renewLease leaseMillis => renewSet now leaseMillis
  | .writeProgress progress => progressSet now progress
  | .completeJob => completeSet now
  | .failJob failure =>
    failSet now (isExhausted claim.attempt claim.maxAttempts) ((failDelay claim failure).getD 0)
      failure
  | .killJob code detail => killSet now code detail
  | .requeueForNextChunk => requeueSet now

/-- A `RangeError` before the statement. -/
def Write.raises (claim : ClaimedJob) : Write → Bool
  | .failJob failure => (failDelay claim failure).isNone
  | _ => false

variable {now : Instant} {claim : ClaimedJob} {w : Write} {jobs : JobTable} {job : Job}

@[simp] theorem Write.set_key : (w.set now claim job).key = job.key := by
  cases w <;> rfl

theorem Write.guard_holdsToken (h : w.guard claim job = true) : holdsToken claim job = true := by
  cases w with
  | writeProgress progress => exact h
  | _ => exact (Bool.and_eq_true_iff.1 h).1

theorem holdsToken_iff : holdsToken claim job = true ↔
    job.key = claim.key ∧ job.state = .running ∧ job.fencingToken = claim.fencingToken := by
  simp [holdsToken, Job.key, ClaimedJob.key, and_assoc]

theorem Write.guard_key (h : w.guard claim job = true) : job.key = claim.key :=
  (holdsToken_iff.1 (guard_holdsToken h)).1

theorem Write.perform_table :
    ((w.perform now claim jobs).map Prod.snd).getD jobs
      = if w.raises claim then jobs
        else jobs.update (w.guard claim) (w.set now claim) (fun _ => set_key) := by
  cases w with
  | failJob failure =>
    rcases Option.eq_none_or_eq_some (failDelay claim failure) with hdelay | ⟨delay, hdelay⟩
    · simp only [perform, Jobs.failJob, raises, hdelay]
      rfl
    · have hset : (Write.failJob failure).set now claim = failSet now
          (isExhausted claim.attempt claim.maxAttempts) delay failure := by
        rw [set, hdelay, Option.getD_some]
      simp only [perform, Jobs.failJob, raises, hdelay, Option.map_some, Option.getD_some,
        Option.isNone_some, Bool.false_eq_true, ↓reduceIte, hset]
      split <;> rfl
  | writeProgress progress =>
    simp only [perform, Jobs.writeProgress, Option.map_some, Option.getD_some]
    split <;> rfl
  | _ => rfl

/-- The rows a write returns: the claim's row, if the write finds it. -/
theorem Write.matched_rows (w : Write) (claim : ClaimedJob) (jobs : JobTable) :
    jobs.rows.filter (w.guard claim) = ((jobs.find? claim.key).filter (w.guard claim)).toList :=
  Table.filter_rows fun _ h => guard_key h

theorem Write.perform_outcome :
    ((w.perform now claim jobs).map Prod.fst).any (· ≠ .leaseLost)
      = (!w.raises claim && ((jobs.find? claim.key).filter (w.guard claim)).isSome) := by
  have hrows := matched_rows w claim jobs
  generalize (jobs.find? claim.key).filter (w.guard claim) = found at hrows ⊢
  cases w with
  | failJob failure =>
    have hguard : (Write.failJob failure).guard claim = holdsLease claim := rfl
    simp only [perform, Jobs.failJob, raises, updateJobs, hguard ▸ hrows]
    cases failDelay claim failure with
    | none => rfl
    | some delay =>
      cases found with
      | none => rfl
      | some row => cases hex : isExhausted claim.attempt claim.maxAttempts <;> rfl
  | writeProgress progress =>
    have hguard : (Write.writeProgress progress).guard claim = holdsToken claim := rfl
    simp only [perform, Jobs.writeProgress, raises, updateJobs, hguard ▸ hrows]
    cases found <;> rfl
  | _ =>
    simp only [guard] at hrows
    simp only [perform, Jobs.renewLease, Jobs.completeJob, Jobs.killJob, Jobs.requeueForNextChunk,
      raises, updateJobs, hrows]
    cases found <;> rfl

/-- A write takes effect when its claim was handed out and its statement finds the row. -/
theorem Queue.takesEffect_iff {q : Queue} :
    q.takesEffect now claim w = true ↔ claim ∈ q.issued ∧ w.raises claim = false ∧
      ∃ job, q.jobs.find? claim.key = some job ∧ w.guard claim job = true := by
  rw [Queue.takesEffect, Write.perform_outcome]
  simp only [Bool.and_eq_true, decide_eq_true_eq, Bool.not_eq_true', Option.isSome_iff_exists,
    Option.filter_eq_some_iff]

/-! ## The rows a sweep takes -/

/-- A row whose key was taken from the sorted matches of a condition satisfies it. -/
private theorem guard_of_candidate {guard : Job → Bool} {r : Job → Job → Prop} [DecidableRel r]
    {limit : Nat} (hjob : job ∈ jobs)
    (h : job.key ∈ (((jobs.rows.filter guard).insertionSort r).take limit).map Job.key) :
    guard job = true := by
  obtain ⟨row, hrow, hkey⟩ := List.mem_map.1 h
  have hmem := List.mem_filter.1 ((List.mem_insertionSort _).1 (List.mem_of_mem_take hrow))
  exact Table.eq_of_key_eq hmem.1 hjob hkey ▸ hmem.2

theorem claimable_of_candidate {locked : List JobKey} {options : ClaimOptions} (hjob : job ∈ jobs)
    (h : job.key ∈ claimCandidates now locked options jobs) :
    claimable now options job = true :=
  (Bool.and_eq_true_iff.1 (guard_of_candidate hjob h)).1

theorem expired_of_candidate {locked : List JobKey} {limit : Nat} (hjob : job ∈ jobs)
    (h : job.key ∈ expiredCandidates now locked limit jobs) : expired now job = true :=
  (Bool.and_eq_true_iff.1 (guard_of_candidate hjob h)).1

theorem archivable_of_candidate {olderThanMillis : Int} {limit : Nat} (hjob : job ∈ jobs)
    (h : job.key ∈ archivableCandidates now olderThanMillis limit jobs) :
    archivable now olderThanMillis job = true :=
  guard_of_candidate hjob h

/-! ## One action and one job -/

inductive JobMove (q : Queue) (job : Job) : Action → Job → Prop
  | kept (a : Action) : JobMove q job a job
  | claimed {now : Instant} {locked : List JobKey} {options : ClaimOptions}
      (hclaimable : claimable now options job = true) :
      JobMove q job (.claimJobs now locked options) (claimSet now options job)
  | wrote {now : Instant} {claim : ClaimedJob} {w : Write} (hissued : claim ∈ q.issued)
      (hraises : w.raises claim = false) (hguard : w.guard claim job = true) :
      JobMove q job (.write now claim w) (w.set now claim job)
  | expired {now : Instant} {locked : List JobKey} {limit : Nat} (hexpired : expired now job = true) :
      JobMove q job (.reclaimExpiredLeases now locked limit) (reclaimSet now job)
  | archived {now : Instant} {olderThanMillis : Int} {limit : Nat}
      (harchivable : archivable now olderThanMillis job = true) :
      JobMove q job (.archiveCompletedPayloads now olderThanMillis limit) (archiveSet now job)
  | requeued {now : Instant} {scope : AdminScope} {jobId : Uuid} (hadmin : scope.isAdmin = true)
      (hdead : isDead scope.workspaceId jobId job = true) :
      JobMove q job (.requeueDeadJob now scope jobId) (requeueDeadSet now job)

section Step

variable {q : Queue} {a : Action} {k : JobKey}

private theorem find?_update_of_some (guard : Job → Bool) (set : Job → Job)
    (hkey : ∀ job, (set job).key = job.key) (h : jobs.find? k = some job) :
    (jobs.update guard set hkey).find? k = some (if guard job then set job else job) := by
  rw [Table.find?_update, h, Option.map_some]

/-- Every action leaves a job where it was or makes one of its moves. -/
theorem step_job (h : q.jobs.find? k = some job) :
    ∃ job', (q.step a).jobs.find? k = some job' ∧ JobMove q job a job' := by
  have hjob := (Table.find?_eq_some.1 h).1
  cases a with
  | enqueueJob now id specification =>
    refine ⟨job, ?_, .kept _⟩
    simp only [Queue.step, Queue.afterAction, enqueueJob]
    split
    · exact h
    split
    · cases hinsert : q.jobs.insert? (newJob now id specification) with
      | none => exact h
      | some jobs =>
        have hne : k ≠ (newJob now id specification).key := by
          rintro rfl
          rw [(Table.insert?_eq_some hinsert).1] at h
          cases h
        exact (Table.find?_insert?_ne hinsert hne).trans h
    · exact h
  | claimJobs now locked options =>
    simp only [Queue.step, Queue.afterAction, claimJobs]
    split
    · exact ⟨job, h, .kept _⟩
    split
    · exact ⟨job, h, .kept _⟩
    refine ⟨_, find?_update_of_some _ (claimSet now options) (fun _ => rfl) h, ?_⟩
    split
    next hcandidate => exact .claimed (claimable_of_candidate hjob (of_decide_eq_true hcandidate))
    next => exact .kept _
  | write now claim w =>
    simp only [Queue.step, Queue.afterAction]
    split
    next hissued =>
      rw [Write.perform_table]
      split
      · exact ⟨job, h, .kept _⟩
      next hraises =>
        refine ⟨_, find?_update_of_some _ _ (fun _ => Write.set_key) h, ?_⟩
        split
        next hguard => exact .wrote hissued (by simpa using hraises) hguard
        next => exact .kept _
    · exact ⟨job, h, .kept _⟩
  | reclaimExpiredLeases now locked limit =>
    refine ⟨_, find?_update_of_some _ (reclaimSet now) (fun _ => rfl) h, ?_⟩
    split
    next hcandidate => exact .expired (expired_of_candidate hjob (of_decide_eq_true hcandidate))
    next => exact .kept _
  | archiveCompletedPayloads now olderThanMillis limit =>
    refine ⟨_, find?_update_of_some _ (archiveSet now) (fun _ => rfl) h, ?_⟩
    split
    next hcandidate => exact .archived (archivable_of_candidate hjob (of_decide_eq_true hcandidate))
    next => exact .kept _
  | requeueDeadJob now scope jobId =>
    simp only [Queue.step, Queue.afterAction, requeueDeadJob]
    split
    · exact ⟨job, h, .kept _⟩
    next hadmin =>
      have htable := find?_update_of_some (isDead scope.workspaceId jobId) (requeueDeadSet now)
        (fun _ => rfl) h
      refine ⟨_, Eq.trans (by split <;> rfl) htable, ?_⟩
      split
      next hdead => exact .requeued (by simpa using hadmin) hdead
      next => exact .kept _

/-- A job appears only by being enqueued. -/
theorem step_absent (h : q.jobs.find? k = none) :
    (q.step a).jobs.find? k = none ∨ ∃ now id specification,
      a = .enqueueJob now id specification ∧ 1 ≤ (newJob now id specification).maxAttempts ∧
        (q.step a).jobs.find? k = some (newJob now id specification) := by
  have hupdate : ∀ (guard : Job → Bool) (set : Job → Job) (hkey),
      (q.jobs.update guard set hkey).find? k = none := by
    intro guard set hkey
    rw [Table.find?_update, h, Option.map_none]
  cases a with
  | enqueueJob now id specification =>
    simp only [Queue.step, Queue.afterAction, enqueueJob]
    split
    · exact .inl h
    split
    next hmax =>
      cases hinsert : q.jobs.insert? (newJob now id specification) with
      | none => exact .inl h
      | some jobs =>
        by_cases hk : k = (newJob now id specification).key
        · refine .inr ⟨now, id, specification, rfl, hmax, ?_⟩
          rw [hk]
          exact Table.find?_insert?_self hinsert
        · exact .inl ((Table.find?_insert?_ne hinsert hk).trans h)
    · exact .inl h
  | claimJobs now locked options =>
    simp only [Queue.step, Queue.afterAction, claimJobs]
    split
    · exact .inl h
    split
    · exact .inl h
    · exact .inl (hupdate _ (claimSet now options) fun _ => rfl)
  | write now claim w =>
    simp only [Queue.step, Queue.afterAction]
    split
    · rw [Write.perform_table]
      split
      · exact .inl h
      · exact .inl (hupdate _ _ fun _ => Write.set_key)
    · exact .inl h
  | reclaimExpiredLeases now locked limit => exact .inl (hupdate _ (reclaimSet now) fun _ => rfl)
  | archiveCompletedPayloads now olderThanMillis limit => exact .inl (hupdate _ (archiveSet now) fun _ => rfl)
  | requeueDeadJob now scope jobId =>
    simp only [Queue.step, Queue.afterAction, requeueDeadJob]
    split
    · exact .inl h
    · have htable := hupdate (isDead scope.workspaceId jobId) (requeueDeadSet now) fun _ => rfl
      exact .inl (Eq.trans (by split <;> rfl) htable)

/-- A write that takes effect is its job's move. -/
theorem step_of_takesEffect (h : q.takesEffect now claim w = true) :
    ∃ job, q.jobs.find? claim.key = some job ∧ w.guard claim job = true ∧
      (q.step (.write now claim w)).jobs.find? claim.key = some (w.set now claim job) := by
  obtain ⟨hissued, hraises, job, hfind, hguard⟩ := Queue.takesEffect_iff.1 h
  refine ⟨job, hfind, hguard, ?_⟩
  simp only [Queue.step, Queue.afterAction, hissued, ↓reduceIte, Write.perform_table, hraises,
    Bool.false_eq_true]
  rw [find?_update_of_some _ _ (fun _ => Write.set_key) hfind, if_pos hguard]

/-- A claim handed out is the row as the claim left it. -/
theorem issues_job (h : claim ∈ q.issues a) :
    ∃ now locked options job, a = .claimJobs now locked options ∧
      q.jobs.find? claim.key = some job ∧ claimable now options job = true ∧
      claim = toClaim (claimSet now options job) ∧
      (q.step a).jobs.find? claim.key = some (claimSet now options job) := by
  cases a with
  | claimJobs now locked options =>
    simp only [Queue.issues, claimJobs, updateJobs] at h
    split at h
    · cases h
    split at h
    · cases h
    next hlease hkinds =>
    simp only [Option.map_some, Option.getD_some, List.mem_map, List.mem_filter,
      decide_eq_true_eq] at h
    obtain ⟨_, ⟨job, ⟨hjob, hcandidate⟩, rfl⟩, rfl⟩ := h
    have hfind : q.jobs.find? job.key = some job := Table.find?_eq_some.2 ⟨hjob, rfl⟩
    refine ⟨now, locked, options, job, rfl, hfind, claimable_of_candidate hjob hcandidate, rfl, ?_⟩
    simp only [Queue.step, Queue.afterAction, claimJobs, hlease, hkinds, ↓reduceIte, updateJobs,
      Option.map_some, Option.getD_some]
    exact (find?_update_of_some _ (claimSet now options) (fun _ => rfl) hfind).trans (by simp [hcandidate])
  | _ => cases h

end Step

end FoundingSales.Jobs
