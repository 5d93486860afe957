import FoundingSales.Library.Leases
import FoundingSales.Jobs.JobMoves

/-!
The lease of a job is a fenced lease (`Queue.lease_moves`), so a worker that wakes after
its claim ended writes nothing: `job_fencing`.
-/

namespace FoundingSales.Jobs

open Tables Leases

def Job.lease (job : Job) : Lease Int := ⟨job.fencingToken, job.state == .running⟩

/-- The lease of a job, before it is enqueued too. -/
def Queue.lease (q : Queue) (k : JobKey) : Lease Int := (q.jobs.find? k).elim ⟨0, false⟩ Job.lease

def Queue.token (q : Queue) (k : JobKey) : Int := (q.jobs.find? k).elim 0 Job.fencingToken

variable {q : Queue} {a : Action} {k : JobKey} {job job' : Job} {now : Instant}
  {claim : ClaimedJob} {w : Write}

theorem Queue.lease_of_find? (h : q.jobs.find? k = some job) : q.lease k = job.lease := by
  rw [Queue.lease, h, Option.elim_some]

theorem Queue.lease_token : (q.lease k).token = q.token k := by
  unfold Queue.lease Queue.token
  cases q.jobs.find? k <;> rfl

theorem Queue.running_of_heldUnder {token : Int} (h : HeldUnder token (q.lease k)) :
    ∃ job, q.jobs.find? k = some job ∧ job.state = .running ∧ job.fencingToken = token := by
  cases hfind : q.jobs.find? k with
  | none =>
    rw [Queue.lease, hfind] at h
    exact absurd h.2 Bool.false_ne_true
  | some job =>
    rw [Queue.lease_of_find? hfind] at h
    exact ⟨job, rfl, by simpa [Job.lease] using h.2, h.1⟩

/-! ## A job's lease moves as a fenced lease does -/

theorem not_running_of_claimable {options : ClaimOptions} (h : claimable now options job = true) :
    job.state = .queued ∨ job.state = .retryable := by
  simp only [claimable, Bool.and_eq_true, Bool.or_eq_true, beq_iff_eq] at h
  exact h.1.1.1.1

theorem Write.guard_running (h : w.guard claim job = true) : job.state = .running :=
  (holdsToken_iff.1 (guard_holdsToken h)).2.1

theorem Write.guard_token (h : w.guard claim job = true) :
    job.fencingToken = claim.fencingToken :=
  (holdsToken_iff.1 (guard_holdsToken h)).2.2

theorem Write.set_token : (w.set now claim job).fencingToken = job.fencingToken := by
  cases w <;> rfl

/-- A terminal write leaves running, and no other does. -/
theorem Write.set_running (h : job.state = .running) :
    ((w.set now claim job).state == .running) = !w.terminal := by
  cases w with
  | failJob failure => cases hex : isExhausted claim.attempt claim.maxAttempts <;>
      simp [Write.set, failSet, hex, Write.terminal]
  | renewLease leaseMillis => simp [Write.set, renewSet, h, Write.terminal]
  | writeProgress progress => simp [Write.set, progressSet, h, Write.terminal]
  | _ => rfl

theorem Write.set_idle (hw : w.terminal = true) (h : job.state = .running) :
    (w.set now claim job).state ≠ .running := by
  have hset : ((w.set now claim job).state == .running) = !w.terminal := set_running h
  rw [hw] at hset
  simpa using hset

theorem JobMove.lease (h : JobMove q job a job') : Moves job.lease job'.lease := by
  cases h with
  | kept => exact .stay _
  | claimed hclaimable =>
    refine .grant ?_ (by simp [Job.lease, claimSet])
    rcases not_running_of_claimable hclaimable with h | h <;> simp [Job.lease, h]
  | @wrote now claim w hissued hraises hguard =>
    have hrunning := Write.guard_running hguard
    have hlease : (w.set now claim job).lease = ⟨job.fencingToken, !w.terminal⟩ := by
      rw [Job.lease, Write.set_token, Write.set_running hrunning]
    have hheld : job.lease = ⟨job.fencingToken, true⟩ := by simp [Job.lease, hrunning]
    rw [hlease, hheld]
    cases w.terminal with
    | true => exact .release rfl
    | false => exact .stay _
  | @expired now locked limit hexpired =>
    have hrunning : job.state = .running := by
      simp only [Jobs.expired, Bool.and_eq_true, beq_iff_eq] at hexpired
      exact hexpired.1
    have hlease : (reclaimSet now job).lease = ⟨job.lease.token, false⟩ := by
      by_cases hex : job.attemptCount ≥ job.maxAttempts <;> simp [Job.lease, reclaimSet, hex]
    rw [hlease]
    exact .release (by simp [Job.lease, hrunning])
  | archived => exact .stay _
  | @requeued now scope jobId hadmin hdead =>
    have hstate : job.state = .dead := by
      simp only [isDead, Bool.and_eq_true, beq_iff_eq] at hdead
      exact hdead.2
    have hlease : (requeueDeadSet now job).lease = job.lease := by
      simp [Job.lease, requeueDeadSet, hstate]
    rw [hlease]
    exact .stay _

/-- Enqueued under the token an absent job has. -/
theorem Queue.lease_moves (k : JobKey) (q : Queue) (a : Action) :
    Moves (q.lease k) ((q.step a).lease k) := by
  cases h : q.jobs.find? k with
  | some job =>
    obtain ⟨job', hfind, hmove⟩ := step_job (a := a) h
    rw [Queue.lease_of_find? h, Queue.lease_of_find? hfind]
    exact hmove.lease
  | none =>
    rcases step_absent (a := a) h with hnone | ⟨now, id, specification, -, -, hfind⟩
    · simp only [Queue.lease, h, hnone]
      exact .stay _
    · have hlease : (q.step a).lease k = q.lease k := by
        simp [Queue.lease, h, hfind, Job.lease, newJob]
      rw [hlease]
      exact .stay _

/-! ## Claims and writes, by what they answer -/

/-- A claim raises its job's token to its own. -/
theorem issues_increases (h : claim ∈ q.issues a) :
    q.token claim.key < claim.fencingToken ∧
      HeldUnder claim.fencingToken ((q.step a).lease claim.key) := by
  obtain ⟨now, locked, options, job, -, hfind, -, hclaim, hafter⟩ := issues_job h
  have htoken : claim.fencingToken = job.fencingToken + 1 := by
    rw [hclaim]
    rfl
  rw [Queue.lease_of_find? hafter]
  refine ⟨?_, htoken.symm, rfl⟩
  rw [Queue.token, hfind, Option.elim_some]
  omega

theorem heldUnder_of_takesEffect (h : q.takesEffect now claim w = true) :
    HeldUnder claim.fencingToken (q.lease claim.key) := by
  obtain ⟨job, hfind, hguard, -⟩ := step_of_takesEffect h
  rw [Queue.lease_of_find? hfind]
  exact ⟨Write.guard_token hguard, by simp [Job.lease, Write.guard_running hguard]⟩

theorem lost_of_terminal (h : q.takesEffect now claim w = true) (hw : w.terminal = true) :
    Lost claim.fencingToken ((q.step (.write now claim w)).lease claim.key) := by
  obtain ⟨job, hfind, hguard, hafter⟩ := step_of_takesEffect h
  rw [Queue.lease_of_find? hafter]
  refine .inr ⟨(Write.set_token).trans (Write.guard_token hguard), ?_⟩
  simp [Job.lease, Write.set_running (Write.guard_running hguard), hw]

/-- One when the action is an effective terminal write with `claim`. -/
def endsClaim (claim : ClaimedJob) (q : Queue) : Action → Nat
  | .write now other w =>
    if other = claim ∧ w.terminal = true ∧ q.takesEffect now other w = true then 1 else 0
  | _ => 0

theorem endsClaim_le_one (claim : ClaimedJob) (q : Queue) (a : Action) :
    endsClaim claim q a ≤ 1 := by
  unfold endsClaim
  split
  · split <;> omega
  · omega

theorem endsClaim_pos (h : 0 < endsClaim claim q a) :
    HeldUnder claim.fencingToken (q.lease claim.key) ∧
      Lost claim.fencingToken ((q.step a).lease claim.key) := by
  unfold endsClaim at h
  split at h
  · split at h
    next hends =>
      obtain ⟨rfl, hterminal, heffect⟩ := hends
      exact ⟨heldUnder_of_takesEffect heffect, lost_of_terminal heffect hterminal⟩
    next => omega
  · omega

/-! ## A job that is done -/

def RequeueOutcome.isRequeued : RequeueOutcome → Bool
  | .requeued _ _ => true
  | _ => false

/-- Whether an admin's command requeues job `k`. -/
def Queue.requeues (q : Queue) (k : JobKey) : Action → Bool
  | .requeueDeadJob now scope jobId =>
    (scope.workspaceId, jobId) = k && (requeueDeadJob now scope jobId q.jobs).1.isRequeued
  | _ => false

theorem Queue.dead_of_requeues (h : q.requeues k a = true) :
    ∃ job, q.jobs.find? k = some job ∧ job.state = .dead := by
  cases a with
  | requeueDeadJob now scope jobId =>
    simp only [Queue.requeues, Bool.and_eq_true, decide_eq_true_eq] at h
    obtain ⟨rfl, houtcome⟩ := h
    unfold requeueDeadJob at houtcome
    split at houtcome
    · cases houtcome
    simp only [updateJobs] at houtcome
    cases hrows : q.jobs.rows.filter (isDead scope.workspaceId jobId) with
    | nil =>
      rw [hrows] at houtcome
      cases houtcome
    | cons job rest =>
      have hmem : job ∈ q.jobs.rows.filter (isDead scope.workspaceId jobId) := by simp [hrows]
      obtain ⟨hjob, hdead⟩ := List.mem_filter.1 hmem
      simp only [isDead, Bool.and_eq_true, decide_eq_true_eq, beq_iff_eq] at hdead
      exact ⟨job, Table.find?_eq_some.2 ⟨hjob, Prod.ext hdead.1.1 hdead.1.2⟩, hdead.2⟩
  | _ => cases h

/-- Whether an action claims job `k`, writes to it, reclaims its lease or requeues it. -/
def Queue.acts (q : Queue) (k : JobKey) (a : Action) : Bool :=
  (q.issues a).any (fun claim => claim.key = k) || q.requeues k a ||
    ((q.lease k).held && !((q.step a).lease k).held) ||
    match a with
    | .write now claim w => claim.key = k && q.takesEffect now claim w
    | _ => false

def Queue.isDone (q : Queue) (k : JobKey) : Prop :=
  ∃ job, q.jobs.find? k = some job ∧ job.state = .done

theorem JobMove.done (h : JobMove q job a job') (hdone : job.state = .done) :
    job'.state = .done := by
  cases h with
  | kept => exact hdone
  | archived => exact hdone
  | claimed hclaimable =>
    rcases not_running_of_claimable hclaimable with h | h <;> rw [hdone] at h <;> cases h
  | wrote _ _ hguard =>
    have := Write.guard_running hguard
    rw [hdone] at this
    cases this
  | expired hexpired => simp [Jobs.expired, hdone] at hexpired
  | requeued _ hdead => simp [isDead, hdone] at hdead

theorem Queue.isDone_step (h : q.isDone k) : (q.step a).isDone k := by
  obtain ⟨job, hfind, hdone⟩ := h
  obtain ⟨job', hfind', hmove⟩ := step_job (a := a) hfind
  exact ⟨job', hfind', hmove.done hdone⟩

theorem Queue.acts_of_isDone (h : q.isDone k) : q.acts k a = false := by
  obtain ⟨job, hfind, hdone⟩ := h
  have hissues : (q.issues a).any (fun claim => claim.key = k) = false := by
    refine List.any_eq_false.2 fun claim hclaim hkey => ?_
    obtain ⟨now, locked, options, row, -, hrow, hclaimable, -⟩ := issues_job hclaim
    rw [of_decide_eq_true hkey, hfind] at hrow
    cases hrow
    rcases not_running_of_claimable hclaimable with h | h <;> rw [hdone] at h <;> cases h
  have hrequeues : q.requeues k a = false := by
    by_contra hne
    obtain ⟨row, hrow, hdead⟩ := Queue.dead_of_requeues (by simpa using hne)
    rw [hfind] at hrow
    cases hrow
    rw [hdone] at hdead
    cases hdead
  have hlease : (q.lease k).held = false := by
    rw [Queue.lease_of_find? hfind]
    simp [Job.lease, hdone]
  have hwrite : ∀ now claim w, claim.key = k → q.takesEffect now claim w = false := by
    intro now claim w hkey
    by_contra heffect
    have hheld := heldUnder_of_takesEffect (by simpa using heffect)
    rw [hkey] at hheld
    exact Bool.false_ne_true (hlease.symm.trans hheld.2)
  simp only [Queue.acts, hissues, hrequeues, hlease, Bool.false_and, Bool.or_self, Bool.false_or]
  cases a with
  | write now claim w =>
    by_cases hkey : claim.key = k
    · simp [hwrite now claim w hkey]
    · simp [hkey]
  | _ => rfl

/-! ## Every run -/

/-- What fencing promises of the action `a` after a run, and of the actions `later`. -/
structure JobFencing (before : List Action) (a : Action) (later : List Action) : Prop where
  token_le : ∀ k, (queueRun before).token k ≤ (queueRun (before ++ a :: later)).token k
  claim_increases : ∀ claim ∈ (queueRun before).issues a,
    (queueRun before).token claim.key < claim.fencingToken ∧
      (queueRun (before ++ [a])).token claim.key = claim.fencingToken
  /-- the job has been running under the claim's token since, and was not claimed again -/
  write_within_claim : ∀ claim ∈ (queueRun before).issues a, ∀ now w,
    (queueRun (before ++ a :: later)).takesEffect now claim w = true →
      (∀ front back, later = front ++ back →
        ∃ job, (queueRun (before ++ a :: front)).jobs.find? claim.key = some job ∧
          job.state = .running ∧ job.fencingToken = claim.fencingToken) ∧
      Runs.Meets Queue.step (fun q action => ∀ other ∈ q.issues action, other.key ≠ claim.key)
        (queueRun (before ++ [a])) later
  ends_once : ∀ claim,
    Runs.total Queue.step (endsClaim claim) Queue.empty (before ++ a :: later) ≤ 1
  done_forever : ∀ k, (queueRun before).isDone k →
    (queueRun (before ++ a :: later)).isDone k ∧
      Runs.Meets Queue.step (fun q action => q.acts k action = false) (queueRun before) (a :: later)

theorem queueRun_append (before later : List Action) :
    queueRun (before ++ later) = Runs.run Queue.step (queueRun before) later :=
  Runs.run_append _ _ _ _

theorem job_fencing (before : List Action) (a : Action) (later : List Action) :
    JobFencing before a later := by
  have hthroughout : ∀ claim ∈ (queueRun before).issues a, ∀ now w,
      (queueRun (before ++ a :: later)).takesEffect now claim w = true →
      ∀ front back, later = front ++ back →
        HeldUnder claim.fencingToken ((queueRun (before ++ a :: front)).lease claim.key) := by
    intro claim hclaim now w heffect front back hlater
    have hstart := (issues_increases hclaim).2
    have hend := heldUnder_of_takesEffect heffect
    rw [hlater, queueRun_append, Runs.run_cons] at hend
    rw [queueRun_append, Runs.run_cons]
    exact heldUnder_throughout (Queue.lease_moves claim.key) hend (le_of_eq hstart.1.symm)
  constructor
  · intro k
    rw [queueRun_append, ← Queue.lease_token, ← Queue.lease_token]
    exact token_le_run (Queue.lease_moves k) _ _
  · intro claim hclaim
    obtain ⟨hlt, hheld⟩ := issues_increases hclaim
    refine ⟨hlt, ?_⟩
    rw [queueRun_append, ← Queue.lease_token]
    exact hheld.1
  · intro claim hclaim now w heffect
    have hheld := hthroughout claim hclaim now w heffect
    refine ⟨fun front back hlater => Queue.running_of_heldUnder (hheld front back hlater), ?_⟩
    refine Runs.meets_of_prefixes _ fun front action back hlater other hother hkey => ?_
    -- A second claim would leave the job under a larger token.
    have hnow := hheld front (action :: back) hlater
    have hnext := hheld (front ++ [action]) back (by simp [hlater])
    have hincreases := issues_increases hother
    rw [hkey, ← Queue.lease_token] at hincreases
    simp only [queueRun_append, Runs.run_cons, Runs.run_append, Runs.run_nil] at hnow hnext hincreases
    rw [hnow.1, ← hincreases.2.1, hnext.1] at hincreases
    exact lt_irrefl _ hincreases.1
  · intro claim
    exact total_releases_le_one (Queue.lease_moves claim.key) (endsClaim_le_one claim)
      (fun _ _ => endsClaim_pos) _ _
  · intro k hdone
    have hkeep : ∀ q a, Queue.isDone q k → (q.step a).isDone k := fun _ _ => Queue.isDone_step
    refine ⟨?_, Runs.meets_of_invariant hkeep (fun _ _ => Queue.acts_of_isDone) hdone _⟩
    rw [queueRun_append]
    exact Runs.run_invariant hkeep hdone _

end FoundingSales.Jobs
