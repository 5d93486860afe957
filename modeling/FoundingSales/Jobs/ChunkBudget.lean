import FoundingSales.Jobs.Runner
import FoundingSales.Jobs.Attempts

/-!
A chunked job cannot run for ever. Every committed chunk is counted in the job's row, which
no progress payload reaches, and a yield gives an attempt back only after a chunk.

Proved here:
* `RunnersAgree`: the runner that holds a job's lease has the row's bookkeeping;
* `yields_le_limit`: at most `chunkCountLimit` chunks between two admin requeues;
* `chunked_job_ends`: the claims are bounded by the attempts and the chunks.
-/

namespace FoundingSales.Jobs

open Tables Runs Leases

/-- The chunks a payload's bookkeeping counts. -/
def Payload.chunkCount (payload : Payload) : Int :=
  (payload.chunking.map ChunkBookkeeping.chunks).getD 0

/-- The claim is the one its job is running under. -/
def Queue.runsUnder (q : Queue) (claim : ClaimedJob) (job : Job) : Prop :=
  q.jobs.find? claim.key = some job ∧ job.state = .running ∧
    job.fencingToken = claim.fencingToken

variable {q : Queue} {a : Action} {k : JobKey} {job job' : Job} {now : Instant}
  {claim : ClaimedJob} {w : RunnerWorld} {registry : HandlerRegistry}

/-! ## Claims and their rows -/

/-- Claims under one token of one job are one claim. -/
def Queue.ClaimsDiffer (q : Queue) : Prop :=
  ∀ c ∈ q.issued, ∀ c' ∈ q.issued, c.key = c'.key → c.fencingToken = c'.fencingToken → c = c'

theorem token_lt_of_issues (hq : QueueInvariant q) {old : ClaimedJob} (hnew : claim ∈ q.issues a)
    (hold : old ∈ q.issued) (hkey : old.key = claim.key) :
    old.fencingToken < claim.fencingToken := by
  have hlt := (issues_increases hnew).1
  obtain ⟨row, hrow, hagrees⟩ := hq.claims old hold
  rw [hkey] at hrow
  rw [Queue.token, hrow, Option.elim_some] at hlt
  have := hagrees.token_le
  omega

theorem Queue.ClaimsDiffer.step (hq : QueueInvariant q) (h : q.ClaimsDiffer) (a : Action) :
    (q.step a).ClaimsDiffer := by
  intro c hc c' hc' hkey htoken
  rcases List.mem_append.1 hc with hnew | hold <;> rcases List.mem_append.1 hc' with hnew' | hold'
  · obtain ⟨now, locked, options, row, ha, hfind, -, hclaim, -⟩ := issues_job hnew
    obtain ⟨now', locked', options', row', ha', hfind', -, hclaim', -⟩ := issues_job hnew'
    rw [ha] at ha'
    cases ha'
    rw [hkey, hfind'] at hfind
    cases hfind
    rw [hclaim, hclaim']
  · have := token_lt_of_issues hq hnew hold' hkey.symm
    omega
  · have := token_lt_of_issues hq hnew' hold hkey
    omega
  · exact h c hold c' hold' hkey htoken

/-- A job that runs under a claim of before ran under it before, and its payload is what it
was unless the claim's own runner wrote its progress. -/
theorem runsUnder_step (hq : QueueInvariant q) (hdiffer : q.ClaimsDiffer)
    (hissued : claim ∈ q.issued) (h : (q.step a).runsUnder claim job') :
    ∃ job, q.runsUnder claim job ∧ (job'.payload = job.payload ∨
      ∃ now progress, a = .write now claim (.writeProgress progress) ∧
        job'.payload = (progressSet now progress job).payload) := by
  obtain ⟨hfind', hrunning', htoken'⟩ := h
  obtain ⟨job, hfind, hagrees⟩ := hq.claims claim hissued
  obtain ⟨next, hnext, hmove⟩ := step_job (a := a) hfind
  rw [hfind'] at hnext
  cases hnext
  refine ⟨job, ?_⟩
  cases hmove with
  | kept => exact ⟨⟨hfind, hrunning', htoken'⟩, .inl rfl⟩
  | claimed =>
    have := hagrees.token_le
    simp only [claimSet] at htoken'
    omega
  | archived harchivable =>
    have hrunning : job.state = .running := hrunning'
    simp [archivable, hrunning] at harchivable
  | expired =>
    simp only [reclaimSet] at hrunning'
    split at hrunning' <;> cases hrunning'
  | requeued => simp [requeueDeadSet] at hrunning'
  | @wrote now other write hother hraises hguard =>
    have hbefore := Write.guard_running hguard
    have htoken : job.fencingToken = claim.fencingToken := Write.set_token ▸ htoken'
    have hsame : other = claim := by
      apply hdiffer other hother claim hissued
      · rw [← Write.guard_key hguard, Table.find?_key hfind]
      · rw [← Write.guard_token hguard, htoken]
    subst hsame
    have hopen : ((write.set now other job).state == .running) = !write.terminal :=
      Write.set_running hbefore
    rw [hrunning'] at hopen
    refine ⟨⟨hfind, hbefore, htoken⟩, ?_⟩
    cases write with
    | renewLease => exact .inl rfl
    | writeProgress progress => exact .inr ⟨now, progress, rfl, rfl⟩
    | completeJob | failJob | killJob | requeueForNextChunk => cases hopen

/-! ## What a runner does -/

theorem writeProgress_outcome (now : Instant) (claim : ClaimedJob) (progress : JsString)
    (jobs : JobTable) :
    (writeProgress now claim progress jobs).1
      = ((jobs.find? claim.key).filter (holdsToken claim)).elim .leaseLost
        fun job => .written (progressSet now progress job).payload.chunking := by
  have hrows := Write.matched_rows (.writeProgress progress) claim jobs
  have hguard : (Write.writeProgress progress).guard claim = holdsToken claim := rfl
  rw [hguard] at hrows
  simp only [writeProgress, updateJobs, hrows]
  cases (jobs.find? claim.key).filter (holdsToken claim) <;> rfl

/-- Progress is written by the handler's chunk, once the budget has been looked at. -/
theorem Runner.plan_writeProgress {r : Runner} {holds : Bool} {event : RunnerEvent}
    {progress : JsString} {next : WriteOutcome → Runner}
    (h : r.plan registry claim holds event = .write (.writeProgress progress) next) :
    ∃ startedAt, r.phase = .invoked startedAt ∧ next = r.afterChunk startedAt progress := by
  cases event with
  | look nowMs random =>
    simp only [plan, look] at h
    split at h
    · split at h
      · cases h
      · split at h
        · cases h
        · split at h <;> cases h
    · cases h
  | handled result random =>
    simp only [plan, handled, thrown, refused] at h
    split at h
    · next startedAt hphase =>
      refine ⟨startedAt, hphase, ?_⟩
      split at h
      · cases h
      · split at h <;> cases h
      · split at h
        · cases h
        · split at h <;> cases h
          rfl
    · cases h
  | decide hostMs =>
    simp only [plan, Runner.decide] at h
    split at h
    · split at h <;> cases h
    · cases h

/-- A job goes back to the queue after a chunk. -/
theorem Runner.plan_requeue {r : Runner} {holds : Bool} {event : RunnerEvent}
    {next : WriteOutcome → Runner}
    (h : r.plan registry claim holds event = .write .requeueForNextChunk next) :
    ∃ startedAt lastChunkMs, r.phase = .yielded startedAt lastChunkMs := by
  cases event with
  | look nowMs random =>
    simp only [plan, look] at h
    split at h
    · split at h
      · cases h
      · split at h
        · cases h
        · split at h <;> cases h
    · cases h
  | handled result random =>
    simp only [plan, handled, thrown, refused] at h
    split at h
    · split at h
      · cases h
      · split at h <;> cases h
      · split at h
        · cases h
        · split at h <;> cases h
    · cases h
  | decide hostMs =>
    simp only [plan, Runner.decide] at h
    split at h
    · next startedAt lastChunkMs hphase => exact ⟨startedAt, lastChunkMs, hphase⟩
    · cases h

theorem room_of_budgetOverrun {chunking : ChunkBookkeeping} {nowMs : Int}
    (h : budgetOverrun chunking nowMs = none) : chunking.chunks < chunkCountLimit := by
  unfold budgetOverrun at h
  split at h
  · cases h
  · next hchunks => exact not_le.1 hchunks

/-- A runner that has committed nothing: it calls the handler inside the budget only. -/
structure Runner.Keeps (r r' : Runner) : Prop where
  payload : r'.payload = r.payload
  invoked : ∀ startedAt, r'.phase = .invoked startedAt →
    r.phase = .invoked startedAt ∨ r.payload.chunkCount < chunkCountLimit
  yielded : ∀ startedAt lastChunkMs, r'.phase = .yielded startedAt lastChunkMs →
    r.phase = .yielded startedAt lastChunkMs

theorem Runner.Keeps.refl (r : Runner) : r.Keeps r := ⟨rfl, fun _ h => .inl h, fun _ _ h => h⟩

/-- A runner that calls nothing and owes no decision. -/
theorem Runner.Keeps.of_idle {r r' : Runner} (hpayload : r'.payload = r.payload)
    (hphase : r'.phase = .looking ∨ r'.phase = .returned) : r.Keeps r' := by
  constructor
  · exact hpayload
  · intro startedAt h
    rcases hphase with hphase | hphase <;> cases hphase.symm.trans h
  · intro startedAt lastChunkMs h
    rcases hphase with hphase | hphase <;> cases hphase.symm.trans h

theorem Runner.Keeps.stop (r : Runner) : r.Keeps r.stop := .of_idle rfl (.inr rfl)

theorem Runner.plan_go {r r' : Runner} {holds : Bool} {event : RunnerEvent}
    (h : r.plan registry claim holds event = .go r') : r.Keeps r' := by
  cases event with
  | look nowMs random =>
    simp only [plan, look] at h
    split at h
    · split at h
      · cases h
      · split at h
        · next hnone =>
          cases h
          refine ⟨rfl, fun startedAt _ => .inr ?_, fun _ _ h => by cases h⟩
          simp [Payload.chunkCount, hnone, chunkCountLimit]
        · next carried hsome =>
          split at h
          · cases h
          · next hroom =>
            cases h
            refine ⟨rfl, fun startedAt _ => .inr ?_, fun _ _ h => by cases h⟩
            simpa [Payload.chunkCount, hsome] using room_of_budgetOverrun hroom
    · cases h
      exact Keeps.refl _
  | handled result random =>
    simp only [plan, handled, thrown, refused] at h
    split at h
    · split at h
      · cases h
        exact Keeps.stop _
      · split at h <;> cases h
      · split at h
        · cases h
          exact Keeps.stop _
        · split at h <;> cases h
    · cases h
      exact Keeps.refl _
  | decide hostMs =>
    simp only [plan, Runner.decide] at h
    split at h
    · split at h
      · cases h
      · cases h
        exact Keeps.of_idle rfl (.inl rfl)
    · cases h
      exact Keeps.refl _

/-- After any other write the runner is done with its claim. -/
theorem Runner.plan_stop {r : Runner} {holds : Bool} {event : RunnerEvent} {statement : Write}
    {next : WriteOutcome → Runner}
    (h : r.plan registry claim holds event = .write statement next)
    (hother : ∀ progress, statement ≠ .writeProgress progress) (outcome : WriteOutcome) :
    r.Keeps (next outcome) := by
  cases event with
  | look nowMs random =>
    simp only [plan, look] at h
    split at h
    · split at h
      · cases h
        exact Keeps.stop _
      · split at h
        · cases h
        · split at h <;> cases h
          exact Keeps.stop _
    · cases h
  | handled result random =>
    simp only [plan, handled, thrown, refused] at h
    split at h
    · split at h
      · cases h
      · split at h <;> cases h <;> exact Keeps.stop _
      · split at h
        · cases h
        · split at h <;> cases h <;> first | exact Keeps.stop _ | exact absurd rfl (hother _)
    · cases h
  | decide hostMs =>
    simp only [plan, Runner.decide] at h
    split at h
    · split at h <;> cases h
      exact Keeps.of_idle rfl (.inr rfl)
    · cases h

/-- The runner of `claim` commits a chunk with `progress`, at the row `job`. -/
structure RunnerWorld.Commits (registry : HandlerRegistry) (w : RunnerWorld) (now : Instant)
    (claim : ClaimedJob) (event : RunnerEvent) (progress : JsString) (job : Job) : Prop where
  statement : w.statement registry (.runner now claim event)
    = some (.write now claim (.writeProgress progress))
  issued : claim ∈ w.queue.issued
  invoked : ∃ startedAt, (w.runners claim).phase = .invoked startedAt
  row : w.queue.jobs.find? claim.key = some job
  holds : holdsToken claim job = true
  copy : (w.advanced registry now claim event).payload.chunking
    = (progressSet now progress job).payload.chunking
  idle : ∀ startedAt, (w.advanced registry now claim event).phase ≠ .invoked startedAt

theorem advanced_cases (registry : HandlerRegistry) (w : RunnerWorld) (now : Instant)
    {claim : ClaimedJob} (hissued : claim ∈ w.queue.issued) (event : RunnerEvent) :
    (w.runners claim).Keeps (w.advanced registry now claim event) ∧
      (∀ progress, w.statement registry (.runner now claim event)
          = some (.write now claim (.writeProgress progress)) →
        ∀ job, w.queue.jobs.find? claim.key = some job → holdsToken claim job = false) ∨
    ∃ progress job, w.Commits registry now claim event progress job := by
  unfold RunnerWorld.advanced
  simp only [RunnerWorld.statement]
  cases hplan : w.plan registry claim event with
  | go r =>
    refine .inl ⟨Runner.plan_go hplan, fun progress h => ?_⟩
    simp [Plan.write?] at h
  | write statement next =>
    by_cases hprogress : ∃ progress, statement = .writeProgress progress
    · obtain ⟨progress, rfl⟩ := hprogress
      obtain ⟨startedAt, hphase, rfl⟩ := Runner.plan_writeProgress hplan
      have houtcome := writeProgress_outcome now claim progress w.queue.jobs
      simp only [Write.perform, Option.map_some, Option.getD_some, houtcome]
      cases hrow : (w.queue.jobs.find? claim.key).filter (holdsToken claim) with
      | none =>
        refine .inl ⟨Runner.Keeps.stop _, fun _ _ job hfind => ?_⟩
        simpa [hfind, Option.filter] using hrow
      | some job =>
        obtain ⟨hfind, hholds⟩ := Option.filter_eq_some_iff.1 hrow
        have hadvanced : w.advanced registry now claim event
            = (w.runners claim).afterChunk startedAt progress
              (.written (progressSet now progress job).payload.chunking) := by
          simp only [RunnerWorld.advanced, hplan, Write.perform, Option.map_some, Option.getD_some,
            houtcome, hrow, Option.elim_some]
        refine .inr ⟨progress, job, ?_, hissued, ⟨startedAt, hphase⟩, hfind, hholds, ?_, ?_⟩
        · simp [RunnerWorld.statement, hplan, Plan.write?]
        · rw [hadvanced]
          rfl
        · intro s h
          rw [hadvanced] at h
          cases h
    · have hnext := Runner.plan_stop hplan fun progress h => hprogress ⟨progress, h⟩
      refine .inl ⟨?_, fun progress h => ?_⟩
      · cases hperform : statement.perform now claim w.queue.jobs with
        | none => simpa [hperform] using Runner.Keeps.stop _
        | some answer => simpa [hperform] using hnext answer.1
      · simp only [Plan.write?, Option.map_some, Option.some.injEq] at h
        exact absurd ⟨progress, by injection h⟩ hprogress

/-! ## One action -/

/-- An action leaves the runner of a claim where it was, as far as the budget goes, or commits
a chunk of it. -/
theorem runner_cases (registry : HandlerRegistry) (w : RunnerWorld) (a : WorkerAction)
    (claim : ClaimedJob) :
    (w.runners claim).Keeps ((w.step registry a).runners claim) ∧
      (∀ now progress, w.statement registry a = some (.write now claim (.writeProgress progress)) →
        claim ∈ w.queue.issued → ∀ job, w.queue.jobs.find? claim.key = some job →
          holdsToken claim job = false) ∨
    ∃ now event progress job, a = .runner now claim event ∧
      w.Commits registry now claim event progress job ∧
      (w.step registry a).runners claim = w.advanced registry now claim event := by
  cases a with
  | runner now other event =>
    by_cases hissued : other ∈ w.queue.issued
    · have hrunners : (w.step registry (.runner now other event)).runners
          = Function.update w.runners other (w.advanced registry now other event) := by
        simp [RunnerWorld.step, hissued]
      rw [hrunners]
      by_cases hsame : claim = other
      · subst hsame
        rw [Function.update_self]
        rcases advanced_cases registry w now hissued event with ⟨hkeeps, hidle⟩ | ⟨progress, job, h⟩
        · refine .inl ⟨hkeeps, fun now' progress h _ => ?_⟩
          have hnow : now' = now := by
            simp only [RunnerWorld.statement, Option.map_eq_some_iff, Action.write.injEq] at h
            obtain ⟨_, -, rfl, -⟩ := h
            rfl
          subst hnow
          exact hidle progress h
        · exact .inr ⟨now, event, progress, job, rfl, h, rfl⟩
      · rw [Function.update_of_ne hsame]
        refine .inl ⟨Runner.Keeps.refl _, fun now' progress h _ => ?_⟩
        simp only [RunnerWorld.statement, Option.map_eq_some_iff, Action.write.injEq] at h
        obtain ⟨_, -, -, hclaim, -⟩ := h
        exact absurd hclaim.symm hsame
    · have hrunners : (w.step registry (.runner now other event)).runners = w.runners := by
        simp [RunnerWorld.step, hissued]
      rw [hrunners]
      refine .inl ⟨Runner.Keeps.refl _, fun now' progress h hclaim => ?_⟩
      simp only [RunnerWorld.statement, Option.map_eq_some_iff, Action.write.injEq] at h
      obtain ⟨_, -, -, rfl, -⟩ := h
      exact absurd hclaim hissued
  | renewLease now other leaseMillis =>
    refine .inl ⟨Runner.Keeps.refl _, fun now' progress h => ?_⟩
    simp only [RunnerWorld.statement, Option.some.injEq, Action.write.injEq] at h
    cases h.2.2
  | _ =>
    refine .inl ⟨Runner.Keeps.refl _, fun now' progress h => ?_⟩
    simp only [RunnerWorld.statement, Option.some.injEq] at h
    cases h

theorem step_queue (registry : HandlerRegistry) (w : RunnerWorld) (a : WorkerAction) :
    (w.statement registry a = none ∧ (w.step registry a).queue = w.queue) ∨
    ∃ act, w.statement registry a = some act ∧ (w.step registry a).queue = w.queue.step act := by
  cases hstatement : w.statement registry a with
  | none => exact .inl ⟨rfl, by simp [RunnerWorld.step, hstatement]⟩
  | some act => exact .inr ⟨act, rfl, by simp [RunnerWorld.step, hstatement]⟩

theorem statement_enqueueJob {a : WorkerAction} {id : Uuid} {specification : JobSpecification}
    (h : w.statement registry a = some (.enqueueJob now id specification)) :
    specification.payload.chunking = none := by
  cases a with
  | enqueueJob =>
    simp only [RunnerWorld.statement, Option.some.injEq, Action.enqueueJob.injEq] at h
    rw [← h.2.2]
  | runner =>
    simp only [RunnerWorld.statement, Option.map_eq_some_iff] at h
    obtain ⟨_, -, h⟩ := h
    cases h
  | _ =>
    simp only [RunnerWorld.statement, Option.some.injEq] at h
    cases h

theorem statement_claimJobs {a : WorkerAction} {locked : List JobKey} {options : ClaimOptions}
    (h : w.statement registry a = some (.claimJobs now locked options)) :
    (w.step registry a).runners = w.runners := by
  cases a with
  | runner =>
    simp only [RunnerWorld.statement, Option.map_eq_some_iff] at h
    obtain ⟨_, -, h⟩ := h
    cases h
  | _ => rfl

theorem chunkCount_progressSet (now : Instant) (progress : JsString) (job : Job) :
    (progressSet now progress job).payload.chunkCount = job.payload.chunkCount + 1 := by
  simp [Payload.chunkCount, progressSet]

theorem chunkCount_congr {p p' : Payload} (h : p.chunking = p'.chunking) :
    p.chunkCount = p'.chunkCount := by
  rw [Payload.chunkCount, h, Payload.chunkCount]

/-! ## The runner that holds the lease knows the row's bookkeeping -/

structure RunnersAgree (w : RunnerWorld) : Prop where
  queue : QueueInvariant w.queue
  differ : w.queue.ClaimsDiffer
  fresh : ∀ claim, claim ∉ w.queue.issued → w.runners claim = startRunner claim
  copy : ∀ claim ∈ w.queue.issued, ∀ job, w.queue.runsUnder claim job →
    (w.runners claim).payload.chunking = job.payload.chunking
  within : ∀ k job, w.queue.jobs.find? k = some job →
    0 ≤ job.payload.chunkCount ∧ job.payload.chunkCount ≤ chunkCountLimit
  checked : ∀ claim startedAt, (w.runners claim).phase = .invoked startedAt →
    (w.runners claim).payload.chunkCount < chunkCountLimit
  started : ∀ claim, claim.payload.chunkCount ≤ (w.runners claim).payload.chunkCount
  yielded : ∀ claim startedAt lastChunkMs,
    (w.runners claim).phase = .yielded startedAt lastChunkMs →
      claim.payload.chunkCount < (w.runners claim).payload.chunkCount

namespace RunnersAgree

theorem empty : RunnersAgree RunnerWorld.empty where
  queue := queueInvariant_empty
  differ _ hc := by cases hc
  fresh _ _ := rfl
  copy _ hc := by cases hc
  within _ _ h := by cases h
  checked _ _ h := by cases h
  started _ := le_refl _
  yielded _ _ _ h := by cases h

/-- A committed chunk is one more than the runner's copy says. -/
theorem commits_count (h : RunnersAgree w) {event : RunnerEvent} {progress : JsString}
    (hcommits : w.Commits registry now claim event progress job) :
    (w.advanced registry now claim event).payload.chunkCount
      = (w.runners claim).payload.chunkCount + 1 := by
  have hholds := holdsToken_iff.1 hcommits.holds
  have hcopy := h.copy claim hcommits.issued job ⟨hcommits.row, hholds.2⟩
  rw [chunkCount_congr hcommits.copy, chunkCount_progressSet, chunkCount_congr hcopy]

/-- The row a chunk is committed to has room for it. -/
theorem commits_room (h : RunnersAgree w) {event : RunnerEvent} {progress : JsString}
    (hcommits : w.Commits registry now claim event progress job) :
    job.payload.chunkCount < chunkCountLimit := by
  have hholds := holdsToken_iff.1 hcommits.holds
  have hcopy := h.copy claim hcommits.issued job ⟨hcommits.row, hholds.2⟩
  obtain ⟨startedAt, hphase⟩ := hcommits.invoked
  rw [← chunkCount_congr hcopy]
  exact h.checked claim startedAt hphase

theorem step_copy (h : RunnersAgree w) (a : WorkerAction) {claim : ClaimedJob} {job : Job}
    (hissued : claim ∈ (w.step registry a).queue.issued)
    (hruns : (w.step registry a).queue.runsUnder claim job) :
    ((w.step registry a).runners claim).payload.chunking = job.payload.chunking := by
  rcases step_queue registry w a with ⟨hnone, hqueue⟩ | ⟨act, hact, hqueue⟩
  · rw [hqueue] at hissued hruns
    rcases runner_cases registry w a claim with
      ⟨hkeeps, -⟩ | ⟨now, event, progress, row, rfl, hcommits, -⟩
    · rw [hkeeps.payload]
      exact h.copy claim hissued job hruns
    · rw [hcommits.statement] at hnone
      cases hnone
  · rw [hqueue] at hissued hruns
    rcases List.mem_append.1 hissued with hnew | hold
    · obtain ⟨now, locked, options, row, rfl, -, -, hclaim, hafter⟩ := issues_job hnew
      have hnot : claim ∉ w.queue.issued := by
        intro hold
        have := token_lt_of_issues h.queue hnew hold rfl
        omega
      have hjob : job = claimSet now options row := Option.some.inj (hruns.1.symm.trans hafter)
      rw [statement_claimJobs hact, h.fresh claim hnot, hjob, hclaim]
      rfl
    · rcases runner_cases registry w a claim with
        ⟨hkeeps, hidle⟩ | ⟨now, event, progress, row, rfl, hcommits, hrunner⟩
      · obtain ⟨before, hbefore, hsame | ⟨now, progress, rfl, -⟩⟩ :=
          runsUnder_step h.queue h.differ hold hruns
        · rw [hkeeps.payload, hsame]
          exact h.copy claim hold before hbefore
        · have hholds : holdsToken claim before = true :=
            holdsToken_iff.2 ⟨Table.find?_key hbefore.1, hbefore.2⟩
          rw [hidle now progress hact hold before hbefore.1] at hholds
          cases hholds
      · rw [hcommits.statement] at hact
        cases hact
        have heffect : w.queue.takesEffect now claim (.writeProgress progress) = true :=
          Queue.takesEffect_iff.2 ⟨hold, rfl, row, hcommits.row, hcommits.holds⟩
        obtain ⟨row', hrow', -, hafter⟩ := step_of_takesEffect heffect
        rw [hcommits.row] at hrow'
        cases hrow'
        have hjob : job = progressSet now progress row :=
          Option.some.inj (hruns.1.symm.trans hafter)
        rw [hrunner, hcommits.copy, hjob]

theorem step_within (h : RunnersAgree w) (a : WorkerAction) {k : JobKey} {job' : Job}
    (hfind' : (w.step registry a).queue.jobs.find? k = some job') :
    0 ≤ job'.payload.chunkCount ∧ job'.payload.chunkCount ≤ chunkCountLimit := by
  have hzero : ∀ payload : Payload, payload.chunking = none →
      0 ≤ payload.chunkCount ∧ payload.chunkCount ≤ chunkCountLimit := by
    intro payload hnone
    simp [Payload.chunkCount, hnone, chunkCountLimit]
  rcases step_queue registry w a with ⟨-, hqueue⟩ | ⟨act, hact, hqueue⟩
  · rw [hqueue] at hfind'
    exact h.within k job' hfind'
  rw [hqueue] at hfind'
  cases hfind : w.queue.jobs.find? k with
  | none =>
    rcases step_absent (a := act) hfind with hnone | ⟨now, id, specification, rfl, -, hnew⟩
    · rw [hnone] at hfind'
      cases hfind'
    · rw [hnew] at hfind'
      cases hfind'
      exact hzero _ (statement_enqueueJob hact)
  | some job =>
    have hjob := h.within k job hfind
    obtain ⟨next, hnext, hmove⟩ := step_job (a := act) hfind
    rw [hfind'] at hnext
    cases hnext
    cases hmove with
    | kept => exact hjob
    | claimed => exact hjob
    | expired => exact hjob
    | archived => exact hzero _ rfl
    | requeued => exact hzero _ rfl
    | @wrote now claim write hissued hraises hguard =>
      cases write with
      | writeProgress progress =>
        have hkey : claim.key = k := (Write.guard_key hguard).symm.trans (Table.find?_key hfind)
        rw [← hkey] at hfind
        rcases runner_cases registry w a claim with
          ⟨-, hidle⟩ | ⟨now', event, progress', row, rfl, hcommits, -⟩
        · have hfalse := hidle now progress hact hissued job hfind
          rw [show holdsToken claim job = true from hguard] at hfalse
          cases hfalse
        · have hrow : row = job := by simpa using hcommits.row.symm.trans hfind
          subst hrow
          have hroom := h.commits_room hcommits
          show 0 ≤ (progressSet now progress row).payload.chunkCount ∧ _
          rw [show (Write.set now claim (.writeProgress progress) row) = progressSet now progress row
            from rfl, chunkCount_progressSet]
          omega
      | _ => exact hjob

theorem step (h : RunnersAgree w) (a : WorkerAction) : RunnersAgree (w.step registry a) where
  queue := by
    rcases step_queue registry w a with ⟨-, hqueue⟩ | ⟨act, -, hqueue⟩
    · rw [hqueue]
      exact h.queue
    · rw [hqueue]
      exact h.queue.step act
  differ := by
    rcases step_queue registry w a with ⟨-, hqueue⟩ | ⟨act, -, hqueue⟩
    · rw [hqueue]
      exact h.differ
    · rw [hqueue]
      exact h.differ.step h.queue act
  fresh claim hnot := by
    have hbefore : claim ∉ w.queue.issued := by
      intro hold
      rcases step_queue registry w a with ⟨-, hqueue⟩ | ⟨act, -, hqueue⟩
      · rw [hqueue] at hnot
        exact hnot hold
      · rw [hqueue] at hnot
        exact hnot (List.mem_append_right _ hold)
    rw [← h.fresh claim hbefore]
    cases a with
    | runner now other event =>
      by_cases hissued : other ∈ w.queue.issued
      · have hne : claim ≠ other := by
          rintro rfl
          exact hbefore hissued
        simp [RunnerWorld.step, hissued, Function.update_of_ne hne]
      · simp [RunnerWorld.step, hissued]
    | _ => rfl
  copy _ hissued _ hruns := h.step_copy a hissued hruns
  within _ _ hfind := h.step_within a hfind
  checked claim startedAt hphase := by
    rcases runner_cases registry w a claim with
      ⟨hkeeps, -⟩ | ⟨now, event, progress, job, rfl, hcommits, hrunner⟩
    · rw [hkeeps.payload]
      rcases hkeeps.invoked startedAt hphase with hbefore | hroom
      · exact h.checked claim startedAt hbefore
      · exact hroom
    · rw [hrunner] at hphase
      exact absurd hphase (hcommits.idle startedAt)
  started claim := by
    have hstarted := h.started claim
    rcases runner_cases registry w a claim with
      ⟨hkeeps, -⟩ | ⟨now, event, progress, job, rfl, hcommits, hrunner⟩
    · rw [hkeeps.payload]
      exact hstarted
    · rw [hrunner, h.commits_count hcommits]
      omega
  yielded claim startedAt lastChunkMs hphase := by
    have hstarted := h.started claim
    rcases runner_cases registry w a claim with
      ⟨hkeeps, -⟩ | ⟨now, event, progress, job, rfl, hcommits, hrunner⟩
    · rw [hkeeps.payload]
      exact h.yielded claim startedAt lastChunkMs (hkeeps.yielded _ _ hphase)
    · rw [hrunner, h.commits_count hcommits]
      omega

end RunnersAgree

/-! ## Counting -/

/-- Whether a statement is an effective write of one kind to job `k`. -/
def Queue.performs (q : Queue) (k : JobKey) (kind : Write → Bool) : Action → Bool
  | .write now claim write => claim.key = k && kind write && q.takesEffect now claim write
  | _ => false

def Write.isProgress : Write → Bool
  | .writeProgress _ => true
  | _ => false

def Write.isRequeue : Write → Bool
  | .requeueForNextChunk => true
  | _ => false

section Counts

variable (registry : HandlerRegistry) (k : JobKey)

/-- The chunks of job `k` an action commits. -/
def yields (w : RunnerWorld) (a : WorkerAction) : Nat :=
  if (w.statement registry a).any (w.queue.performs k Write.isProgress) then 1 else 0

/-- The times an action hands job `k` back to the queue with its attempt. -/
def handedBack (w : RunnerWorld) (a : WorkerAction) : Nat :=
  if (w.statement registry a).any (w.queue.performs k Write.isRequeue) then 1 else 0

/-- Whether an action is an admin's requeue of job `k`. -/
def RunnerWorld.adminRequeues (w : RunnerWorld) (a : WorkerAction) : Bool :=
  (w.statement registry a).any (w.queue.requeues k)

/-- The claims of job `k` handed out so far. -/
def RunnerWorld.claims (w : RunnerWorld) : Nat := w.queue.issued.countP fun claim => claim.key = k

/-- The attempts the row counts. -/
def Queue.attempts (q : Queue) : Int := (q.jobs.find? k).elim 0 Job.attemptCount

/-- The chunks the row counts; of a finished job, all there may be. -/
def Queue.chunksSpent (q : Queue) : Nat :=
  (q.jobs.find? k).elim 0 fun job =>
    if job.state = .done then chunkCountLimit.toNat else job.payload.chunkCount.toNat

/-- One while the job runs under a claim that has committed a chunk. -/
def RunnerWorld.owing (w : RunnerWorld) : Nat :=
  if w.queue.issued.any (fun claim => claim.key = k &&
      (w.queue.jobs.find? k).any (fun job =>
        job.state == .running && job.fencingToken = claim.fencingToken &&
          claim.payload.chunkCount < job.payload.chunkCount)) then 1 else 0

end Counts

theorem performs_iff {kind : Write → Bool} : q.performs k kind a = true ↔
    ∃ now claim write job, a = .write now claim write ∧ claim.key = k ∧ kind write = true ∧
      claim ∈ q.issued ∧ write.raises claim = false ∧ q.jobs.find? k = some job ∧
      write.guard claim job = true := by
  constructor
  · intro h
    cases a with
    | write now claim write =>
      simp only [Queue.performs, Bool.and_eq_true, decide_eq_true_eq] at h
      obtain ⟨⟨hkey, hkind⟩, heffect⟩ := h
      obtain ⟨hissued, hraises, job, hfind, hguard⟩ := Queue.takesEffect_iff.1 heffect
      exact ⟨now, claim, write, job, rfl, hkey, hkind, hissued, hraises, hkey ▸ hfind, hguard⟩
    | _ => cases h
  · rintro ⟨now, claim, write, job, rfl, rfl, hkind, hissued, hraises, hfind, hguard⟩
    simp only [Queue.performs, decide_true, hkind, Bool.true_and]
    exact Queue.takesEffect_iff.2 ⟨hissued, hraises, job, hfind, hguard⟩

/-- A write that is performed leaves its row as it says. -/
theorem step_of_performs (now : Instant) {write : Write} (hissued : claim ∈ q.issued)
    (hraises : write.raises claim = false) (hkey : claim.key = k)
    (hfind : q.jobs.find? k = some job) (hguard : write.guard claim job = true) :
    (q.step (.write now claim write)).jobs.find? k = some (write.set now claim job) := by
  subst hkey
  have heffect : q.takesEffect now claim write = true :=
    Queue.takesEffect_iff.2 ⟨hissued, hraises, job, hfind, hguard⟩
  obtain ⟨row, hrow, -, hafter⟩ := step_of_takesEffect heffect
  rw [hfind] at hrow
  cases hrow
  exact hafter

/-- What is not an admin's requeue loses no chunk from the count. -/
theorem JobMove.chunksSpent_le (hwithin : 0 ≤ job.payload.chunkCount ∧
      job.payload.chunkCount ≤ chunkCountLimit) (hfind : q.jobs.find? k = some job)
    (hadmin : q.requeues k a = false) (h : JobMove q job a job') :
    (if job.state = .done then chunkCountLimit.toNat else job.payload.chunkCount.toNat)
      ≤ if job'.state = .done then chunkCountLimit.toNat else job'.payload.chunkCount.toNat := by
  have hlimit : job.payload.chunkCount.toNat ≤ chunkCountLimit.toNat := by omega
  cases h with
  | kept => exact le_refl _
  | claimed hclaimable =>
    have hstate := not_running_of_claimable hclaimable
    have hdone : job.state ≠ .done := by rcases hstate with h | h <;> simp [h]
    simp [hdone, claimSet]
  | archived harchivable =>
    have hdone : job.state = .done := by
      simp only [archivable, Bool.and_eq_true, beq_iff_eq] at harchivable
      exact harchivable.1.1
    simp [hdone, archiveSet]
  | expired hexpired =>
    have hrunning : job.state = .running := by
      simp only [Jobs.expired, Bool.and_eq_true, beq_iff_eq] at hexpired
      exact hexpired.1
    rw [if_neg (by simp [hrunning])]
    simp only [reclaimSet]
    split <;> simp
  | requeued hisAdmin hdead =>
    rw [requeues_of_dead hfind hisAdmin hdead] at hadmin
    cases hadmin
  | @wrote now claim write hissued hraises hguard =>
    have hrunning := Write.guard_running hguard
    rw [if_neg (by simp [hrunning])]
    cases write with
    | renewLease => simp [Write.set, renewSet, hrunning]
    | writeProgress progress =>
      rw [show (Write.set now claim (.writeProgress progress) job) = progressSet now progress job
        from rfl, chunkCount_progressSet]
      simp [progressSet, hrunning]
    | completeJob => simpa [Write.set, completeSet] using hlimit
    | failJob failure =>
      simp only [Write.set, failSet]
      split <;> split <;> simp_all
    | killJob => simp [Write.set, killSet]
    | requeueForNextChunk => simp [Write.set, requeueSet]

namespace RunnersAgree

theorem chunksSpent_add_yields (h : RunnersAgree w) {a : WorkerAction}
    (hadmin : w.adminRequeues registry k a = false) :
    w.queue.chunksSpent k + yields registry k w a
      ≤ (w.step registry a).queue.chunksSpent k := by
  rcases step_queue registry w a with ⟨hnone, hqueue⟩ | ⟨act, hact, hqueue⟩
  · simp [yields, hnone, hqueue]
  rw [hqueue]
  simp only [RunnerWorld.adminRequeues, hact, Option.any_some] at hadmin
  by_cases hperforms : w.queue.performs k Write.isProgress act = true
  · obtain ⟨now, claim, write, job, rfl, hkey, hkind, hissued, hraises, hfind, hguard⟩ :=
      performs_iff.1 hperforms
    cases write with
    | writeProgress progress =>
      have hafter := step_of_performs now hissued hraises hkey hfind hguard
      have hrunning := Write.guard_running hguard
      have hwithin := h.within k job hfind
      have hset : (Write.set now claim (.writeProgress progress) job)
          = progressSet now progress job := rfl
      rw [hset] at hafter
      have hstate : (progressSet now progress job).state = .running := hrunning
      simp only [yields, hact, Option.any_some, hperforms, ↓reduceIte, Queue.chunksSpent, hfind,
        hafter, Option.elim_some, hrunning, hstate, reduceCtorEq, chunkCount_progressSet]
      omega
    | _ => cases hkind
  · have hzero : yields registry k w a = 0 := by simp [yields, hact, hperforms]
    rw [hzero, Nat.add_zero]
    unfold Queue.chunksSpent
    cases hfind : w.queue.jobs.find? k with
    | none => exact Nat.zero_le _
    | some job =>
      obtain ⟨job', hfind', hmove⟩ := step_job (a := act) hfind
      rw [hfind', Option.elim_some, Option.elim_some]
      exact hmove.chunksSpent_le (h.within k job hfind) hfind hadmin

theorem chunksSpent_le (h : RunnersAgree w) (k : JobKey) :
    w.queue.chunksSpent k ≤ chunkCountLimit.toNat := by
  unfold Queue.chunksSpent
  cases hfind : w.queue.jobs.find? k with
  | none => exact Nat.zero_le _
  | some job =>
    have := h.within k job hfind
    rw [Option.elim_some]
    split <;> omega

end RunnersAgree

/-! ## Claims and attempts -/

/-- How often a claim hands out job `k`, and what it adds to the row's attempts. -/
theorem claims_of_claimJobs (q : Queue) (k : JobKey) (now : Instant) (locked : List JobKey)
    (options : ClaimOptions) :
    (((q.issues (.claimJobs now locked options)).countP fun claim => claim.key = k : Nat) : Int)
      = (q.step (.claimJobs now locked options)).attempts k - q.attempts k := by
  simp only [Queue.issues, Queue.attempts, Queue.step, Queue.afterAction, claimJobs]
  split
  · simp
  split
  · simp
  simp only [updateJobs, Option.map_some, Option.getD_some, List.map_map]
  let candidate := claimCandidates now locked options q.jobs
  have hcount : ((q.jobs.rows.filter fun row => row.key ∈ candidate).map
        (toClaim ∘ claimSet now options)).countP (fun claim => claim.key = k)
      = if (q.jobs.find? k).any (fun row => row.key ∈ candidate) then 1 else 0 := by
    rw [List.countP_map, List.countP_filter, List.countP_eq_length_filter,
      Table.filter_rows (k := k) fun row h =>
        show row.key = k from of_decide_eq_true (Bool.and_eq_true_iff.1 h).1]
    cases hfind : q.jobs.find? k with
    | none => rfl
    | some row =>
      have hkey : (toClaim (claimSet now options row)).key = k :=
        show row.key = k from Table.find?_key hfind
      by_cases hcandidate : row.key ∈ candidate <;> simp [Option.filter, hkey, hcandidate]
  have hfind' : (q.jobs.update (fun row => row.key ∈ candidate) (claimSet now options)
      (fun _ => rfl)).find? k
      = (q.jobs.find? k).map fun row =>
        if row.key ∈ candidate then claimSet now options row else row := by
    have hkey : ∀ row, (claimSet now options row).key = row.key := fun _ => rfl
    show (q.jobs.update _ _ hkey).find? k = _
    rw [Table.find?_update]
    simp only [decide_eq_true_eq]
  rw [hcount, hfind']
  cases hfind : q.jobs.find? k with
  | none => rfl
  | some row =>
    by_cases hcandidate : row.key ∈ candidate
    · simp [hcandidate, claimSet]
    · simp [hcandidate]

theorem issues_of_ne_claim (h : ∀ now locked options, a ≠ .claimJobs now locked options) :
    q.issues a = [] := by
  cases a with
  | claimJobs now locked options => exact absurd rfl (h now locked options)
  | _ => rfl

/-- Every claim spends an attempt, and only handing a chunk back returns one. -/
theorem attempts_of_step (hq : QueueInvariant q) (hadmin : q.requeues k a = false)
    (hclaim : ∀ now locked options, a ≠ .claimJobs now locked options) :
    (q.step a).attempts k
      = q.attempts k - if q.performs k Write.isRequeue a = true then 1 else 0 := by
  unfold Queue.attempts
  cases hfind : q.jobs.find? k with
  | none =>
    have hidle : q.performs k Write.isRequeue a ≠ true := by
      intro h
      obtain ⟨_, _, _, job, -, -, -, -, -, hjob, -⟩ := performs_iff.1 h
      rw [hfind] at hjob
      cases hjob
    rw [if_neg hidle]
    rcases step_absent (a := a) hfind with hnone | ⟨now, id, specification, -, -, hnew⟩
    · rw [hnone]
      rfl
    · rw [hnew]
      rfl
  | some job =>
    by_cases hperforms : q.performs k Write.isRequeue a = true
    · obtain ⟨now, claim, write, row, rfl, hkey, hkind, hissued, hraises, hrow, hguard⟩ :=
        performs_iff.1 hperforms
      rw [hfind] at hrow
      cases hrow
      cases write with
      | requeueForNextChunk =>
        have hpos := (hq.jobs k job hfind).running_attempt (Write.guard_running hguard)
        rw [step_of_performs now hissued hraises hkey hfind hguard, if_pos hperforms]
        show max (job.attemptCount - 1) 0 = job.attemptCount - 1
        omega
      | _ => cases hkind
    · rw [if_neg hperforms]
      obtain ⟨job', hfind', hmove⟩ := step_job (a := a) hfind
      rw [hfind']
      show job'.attemptCount = job.attemptCount - 0
      cases hmove with
      | kept => omega
      | claimed => exact absurd rfl (hclaim _ _ _)
      | archived => exact (Int.sub_zero _).symm
      | expired => exact (Int.sub_zero _).symm
      | requeued hisAdmin hdead =>
        rw [requeues_of_dead hfind hisAdmin hdead] at hadmin
        cases hadmin
      | @wrote now claim write hissued hraises hguard =>
        cases write with
        | requeueForNextChunk =>
          have hkey : claim.key = k := (Write.guard_key hguard).symm.trans (Table.find?_key hfind)
          exact absurd (performs_iff.2
            ⟨now, claim, _, job, rfl, hkey, rfl, hissued, hraises, hfind, hguard⟩) hperforms
        | _ => exact (Int.sub_zero _).symm

namespace RunnersAgree

theorem claims_sub_attempts (h : RunnersAgree w) {a : WorkerAction}
    (hadmin : w.adminRequeues registry k a = false) :
    ((w.step registry a).claims k : Int) - (w.step registry a).queue.attempts k
      = (w.claims k : Int) - w.queue.attempts k + handedBack registry k w a := by
  unfold RunnerWorld.claims handedBack
  rcases step_queue registry w a with ⟨hnone, hqueue⟩ | ⟨act, hact, hqueue⟩
  · simp [hnone, hqueue]
  rw [hqueue]
  simp only [RunnerWorld.adminRequeues, hact, Option.any_some] at hadmin
  have hissued : (w.queue.step act).issued = w.queue.issues act ++ w.queue.issued := rfl
  simp only [hact, Option.any_some, hissued, List.countP_append, Nat.cast_add]
  by_cases hclaim : ∃ now locked options, act = .claimJobs now locked options
  · obtain ⟨now, locked, options, rfl⟩ := hclaim
    have hcount := claims_of_claimJobs w.queue k now locked options
    have hidle : w.queue.performs k Write.isRequeue (.claimJobs now locked options) = false := rfl
    simp only [hidle, Bool.false_eq_true, ↓reduceIte]
    omega
  · have hnone : ∀ now locked options, act ≠ .claimJobs now locked options :=
      fun now locked options heq => hclaim ⟨now, locked, options, heq⟩
    have hattempts := attempts_of_step h.queue hadmin hnone
    rw [issues_of_ne_claim hnone, hattempts]
    rw [List.countP_nil]
    split
    · omega
    · omega

/-- A chunk is committed before its claim is handed back. -/
theorem owing_add_handedBack (h : RunnersAgree w) (a : WorkerAction) :
    (w.step registry a).owing k + handedBack registry k w a
      ≤ w.owing k + yields registry k w a := by
  rcases step_queue registry w a with ⟨hnone, hqueue⟩ | ⟨act, hact, hqueue⟩
  · simp [handedBack, yields, RunnerWorld.owing, hnone, hqueue]
  have howing : ∀ {w' : RunnerWorld}, w'.owing k = 1 ↔ ∃ claim ∈ w'.queue.issued, claim.key = k ∧
      ∃ job, w'.queue.runsUnder claim job ∧
        claim.payload.chunkCount < job.payload.chunkCount := by
    intro w'
    simp only [RunnerWorld.owing, Queue.runsUnder]
    constructor
    · intro hone
      split at hone
      · next hany =>
        obtain ⟨claim, hclaim, hrest⟩ := List.any_eq_true.1 hany
        simp only [Bool.and_eq_true, decide_eq_true_eq, Option.any_eq_true, beq_iff_eq] at hrest
        obtain ⟨rfl, job, hfind, ⟨hrunning, htoken⟩, hlt⟩ := hrest
        exact ⟨claim, hclaim, rfl, job, ⟨hfind, hrunning, htoken⟩, hlt⟩
      · cases hone
    · rintro ⟨claim, hclaim, rfl, job, ⟨hfind, hrunning, htoken⟩, hlt⟩
      rw [if_pos]
      exact List.any_eq_true.2 ⟨claim, hclaim, by simp [hfind, hrunning, htoken, hlt]⟩
  have hle : ∀ w' : RunnerWorld, w'.owing k ≤ 1 := by
    intro w'
    unfold RunnerWorld.owing
    split <;> omega
  by_cases hperforms : w.queue.performs k Write.isRequeue act = true
  · obtain ⟨now, claim, write, job, rfl, hkey, hkind, hissued, hraises, hfind, hguard⟩ :=
      performs_iff.1 hperforms
    cases write with
    | requeueForNextChunk =>
      have hafter := step_of_performs now hissued hraises hkey hfind hguard
      have hruns : w.queue.runsUnder claim job :=
        ⟨hkey ▸ hfind, Write.guard_running hguard, Write.guard_token hguard⟩
      have hidle : (w.step registry a).owing k ≠ 1 := by
        intro hone
        obtain ⟨other, -, hother, row, ⟨hrow, hrunning, -⟩, -⟩ := howing.1 hone
        rw [hqueue, hother, hafter] at hrow
        cases hrow
        cases hrunning
      have hyielded : claim.payload.chunkCount < job.payload.chunkCount := by
        cases a with
        | runner now' other event =>
          simp only [RunnerWorld.statement, Option.map_eq_some_iff, Action.write.injEq] at hact
          obtain ⟨write, hwrite, -, rfl, rfl⟩ := hact
          cases hplan : w.plan registry other event with
          | go r => simp [hplan, Plan.write?] at hwrite
          | write statement next =>
            rw [hplan] at hwrite
            cases hwrite
            obtain ⟨startedAt, lastChunkMs, hphase⟩ := Runner.plan_requeue hplan
            have := h.yielded other startedAt lastChunkMs hphase
            rw [chunkCount_congr (h.copy other hissued job hruns)] at this
            exact this
        | renewLease =>
          simp only [RunnerWorld.statement, Option.some.injEq, Action.write.injEq] at hact
          cases hact.2.2
        | _ =>
          simp only [RunnerWorld.statement, Option.some.injEq] at hact
          cases hact
      have hone : w.owing k = 1 := howing.2 ⟨claim, hissued, hkey, job, hruns, hyielded⟩
      have hend := hle (w.step registry a)
      simp only [handedBack, hact, Option.any_some, hperforms, ↓reduceIte]
      omega
    | _ => cases hkind
  · have hzero : handedBack registry k w a = 0 := by simp [handedBack, hact, hperforms]
    rw [hzero]
    by_cases hone : (w.step registry a).owing k = 1
    · obtain ⟨claim, hclaim, hkey, job', hruns', hlt⟩ := howing.1 hone
      rw [hqueue] at hclaim hruns'
      rcases List.mem_append.1 hclaim with hnew | hold
      · obtain ⟨now, locked, options, row, -, -, -, hissue, hafter⟩ := issues_job hnew
        have hjob : job' = claimSet now options row :=
          Option.some.inj (hruns'.1.symm.trans hafter)
        rw [hissue, hjob] at hlt
        exact absurd hlt (lt_irrefl _)
      · obtain ⟨job, hruns, hsame | ⟨now, progress, rfl, -⟩⟩ :=
          runsUnder_step h.queue h.differ hold hruns'
        · have hbefore : w.owing k = 1 :=
            howing.2 ⟨claim, hold, hkey, job, hruns, by rw [← hsame]; exact hlt⟩
          omega
        · have hguard : holdsToken claim job = true :=
            holdsToken_iff.2 ⟨Table.find?_key hruns.1, hruns.2⟩
          have hyields : yields registry k w a = 1 := by
            simp only [yields, hact, Option.any_some]
            rw [if_pos]
            exact performs_iff.2
              ⟨now, claim, _, job, rfl, hkey, rfl, hold, rfl, hkey ▸ hruns.1, hguard⟩
          omega
    · have := hle (w.step registry a)
      omega

/-- A job that owes has an attempt under way. -/
theorem owing_le_attempts (h : RunnersAgree w) (k : JobKey) :
    (w.owing k : Int) ≤ w.queue.attempts k := by
  unfold RunnerWorld.owing Queue.attempts
  cases hfind : w.queue.jobs.find? k with
  | none => simp
  | some job =>
    have hjob := h.queue.jobs k job hfind
    split
    · next hany =>
      obtain ⟨claim, -, hrest⟩ := List.any_eq_true.1 hany
      simp only [Bool.and_eq_true, Option.any_some, beq_iff_eq] at hrest
      exact hjob.running_attempt hrest.2.1.1
    · exact hjob.attempt_nonneg

end RunnersAgree

/-! ## Every run -/

section Runs

variable (registry : HandlerRegistry) (k : JobKey)

/-- The world after some actions, from the empty queue. -/
def workerRun (actions : List WorkerAction) : RunnerWorld :=
  run (RunnerWorld.step registry) RunnerWorld.empty actions

theorem workerRun_agree (actions : List WorkerAction) : RunnersAgree (workerRun registry actions) :=
  run_invariant (fun _ a h => h.step a) RunnersAgree.empty actions

variable {registry k}

/-- No action of a run from `w` is an admin's requeue of job `k`. -/
abbrev NoRequeue (registry : HandlerRegistry) (k : JobKey) (w : RunnerWorld)
    (later : List WorkerAction) : Prop :=
  Meets (RunnerWorld.step registry) (fun w a => w.adminRequeues registry k a = false) w later

theorem yields_le_limit (h : RunnersAgree w) {later : List WorkerAction}
    (hrequeue : NoRequeue registry k w later) :
    total (RunnerWorld.step registry) (yields registry k) w later ≤ chunkCountLimit.toNat :=
  Nat.le_of_add_left_le (total_le_of_potential (fun _ a _ h => h.step a)
    (fun _ _ hadmin h => h.chunksSpent_add_yields hadmin) (fun _ h => h.chunksSpent_le k)
    hrequeue h)

theorem claims_le (h : RunnersAgree w) {later : List WorkerAction}
    (hrequeue : NoRequeue registry k w later) :
    ((run (RunnerWorld.step registry) w later).claims k : Int) - w.claims k
      ≤ (run (RunnerWorld.step registry) w later).queue.attempts k + chunkCountLimit := by
  have hclaims := Meets.adds (handedBack registry k)
    (fun w => (w.claims k : Int) - w.queue.attempts k) (fun _ a _ h => h.step a)
    (fun _ _ hadmin h => h.claims_sub_attempts hadmin) hrequeue h
  have hback := Meets.losses_le (fun w => w.owing k) (fun _ a _ h => h.step a)
    (fun _ a _ h => h.owing_add_handedBack a) hrequeue h
  have hyields := yields_le_limit h hrequeue
  have howing := h.owing_le_attempts k
  beta_reduce at hclaims hback
  have hlimit : (chunkCountLimit.toNat : Int) = chunkCountLimit := rfl
  omega

/-- The bookkeeping of job `k`, in its row and in the runner of each claim. -/
def RunnerWorld.bookkeeping (w : RunnerWorld) (k : JobKey) :
    Option (Option ChunkBookkeeping) × (ClaimedJob → Option ChunkBookkeeping) :=
  ((w.queue.jobs.find? k).map fun job => job.payload.chunking,
    fun claim => (w.runners claim).payload.chunking)

/-- Whatever progress a handler yields, the budget is the same. -/
theorem bookkeeping_of_chunk (w : RunnerWorld) (now : Instant) (claim : ClaimedJob)
    (progress progress' : JsString) (random : Option ℚ) :
    (w.step registry (.runner now claim (.handled (.chunk progress) random))).bookkeeping k
      = (w.step registry (.runner now claim (.handled (.chunk progress') random))).bookkeeping k := by
  have hplan : w.plan registry claim (.handled (.chunk progress) random)
        = w.plan registry claim (.handled (.chunk progress') random) ∨
      ∃ startedAt, w.plan registry claim (.handled (.chunk progress) random)
          = .write (.writeProgress progress) ((w.runners claim).afterChunk startedAt progress) ∧
        w.plan registry claim (.handled (.chunk progress') random)
          = .write (.writeProgress progress') ((w.runners claim).afterChunk startedAt progress') := by
    simp only [RunnerWorld.plan, Runner.plan]
    cases (w.runners claim).phase with
    | invoked startedAt =>
      simp only [Runner.handled]
      cases registry claim.kind with
      | none => exact .inl rfl
      | some protection =>
        cases protection with
        | outboundFence => exact .inl rfl
        | businessUniqueness => exact .inr ⟨startedAt, rfl, rfl⟩
        | fencingToken =>
          by_cases hholds : (w.queue.jobs.find? claim.key).any (holdsLease claim)
          · simp only [hholds]
            exact .inr ⟨startedAt, rfl, rfl⟩
          · simp only [hholds]
            exact .inl rfl
    | _ => exact .inl rfl
  rcases hplan with hsame | ⟨startedAt, hfirst, hsecond⟩
  · unfold RunnerWorld.step RunnerWorld.statement RunnerWorld.advanced
    simp only [hsame]
  · have htable : ∀ progress : JsString,
        ((w.queue.step (.write now claim (.writeProgress progress))).jobs.find? k).map
            (fun job => job.payload.chunking)
          = (w.queue.jobs.find? k).map fun job =>
            if claim ∈ w.queue.issued ∧ holdsToken claim job = true then
              (progressSet now [] job).payload.chunking else job.payload.chunking := by
      intro progress
      simp only [Queue.step, Queue.afterAction]
      by_cases hissued : claim ∈ w.queue.issued
      · simp only [hissued, ↓reduceIte, true_and, Write.perform_table, Write.raises,
          Bool.false_eq_true]
        rw [Table.find?_update, Option.map_map]
        congr 1
        funext job
        show (if holdsToken claim job = true then progressSet now progress job else job).payload.chunking = _
        by_cases hholds : holdsToken claim job = true <;> simp [hholds, progressSet]
      · simp [hissued]
    have hadvanced : ∀ progress : JsString, ∀ outcome : WriteOutcome,
        ((w.runners claim).afterChunk startedAt progress outcome).payload.chunking
          = ((w.runners claim).afterChunk startedAt [] outcome).payload.chunking := by
      intro progress outcome
      cases outcome <;> rfl
    have houtcome : ∀ progress : JsString, (writeProgress now claim progress w.queue.jobs).1
        = (writeProgress now claim [] w.queue.jobs).1 := by
      intro progress
      rw [writeProgress_outcome, writeProgress_outcome]
      cases (w.queue.jobs.find? claim.key).filter (holdsToken claim) <;> rfl
    refine Prod.ext ?_ (funext fun other => ?_)
    · simp only [RunnerWorld.bookkeeping, RunnerWorld.step, RunnerWorld.statement, hfirst, hsecond,
        Plan.write?, Option.map_some, Option.elim_some, htable]
    · simp only [RunnerWorld.bookkeeping, RunnerWorld.step]
      split
      · by_cases hother : other = claim
        · subst hother
          simp only [Function.update_self, RunnerWorld.advanced, hfirst, hsecond, Write.perform,
            Option.map_some, Option.getD_some]
          rw [hadvanced progress, hadvanced progress', houtcome progress, houtcome progress']
        · simp only [Function.update_of_ne hother]
      · rfl

end Runs

/-- What holds of job `k` after the actions `before`, and over actions `later` in which no admin
requeues it. -/
structure ChunkedJobEnds (registry : HandlerRegistry) (k : JobKey)
    (before later : List WorkerAction) : Prop where
  yields : total (RunnerWorld.step registry) (yields registry k) (workerRun registry before) later
    ≤ chunkCountLimit.toNat
  /-- The progress a handler yields changes nothing of the runner's budget. -/
  progress : ∀ now claim progress progress' random,
    ((workerRun registry before).step registry
        (.runner now claim (.handled (.chunk progress) random))).bookkeeping k
      = ((workerRun registry before).step registry
        (.runner now claim (.handled (.chunk progress') random))).bookkeeping k
  claims : ∀ job, (workerRun registry (before ++ later)).queue.jobs.find? k = some job →
    ((workerRun registry (before ++ later)).claims k : Int) - (workerRun registry before).claims k
      ≤ job.maxAttempts + chunkCountLimit
  /-- Once it has been claimed so often, and is not running, it is done or dead. -/
  ends : ∀ job, (workerRun registry (before ++ later)).queue.jobs.find? k = some job →
    job.maxAttempts + chunkCountLimit
      ≤ ((workerRun registry (before ++ later)).claims k : Int)
        - (workerRun registry before).claims k →
    job.state ≠ .running → job.state = .done ∨ job.state = .dead

theorem chunked_job_ends (registry : HandlerRegistry) (k : JobKey)
    (before later : List WorkerAction)
    (hrequeue : NoRequeue registry k (workerRun registry before) later) :
    ChunkedJobEnds registry k before later := by
  have hstart := workerRun_agree registry before
  have hend : workerRun registry (before ++ later)
      = run (RunnerWorld.step registry) (workerRun registry before) later := run_append _ _ _ _
  have hjobs := (workerRun_agree registry (before ++ later)).queue.jobs k
  have hclaims := claims_le hstart hrequeue
  rw [← hend] at hclaims
  refine ⟨yields_le_limit hstart hrequeue, fun _ _ _ _ _ => bookkeeping_of_chunk _ _ _ _ _ _,
    fun job hfind => ?_, fun job hfind hmany hidle => ?_⟩
  · have hle := (hjobs job hfind).attempt_le
    rw [Queue.attempts, hfind, Option.elim_some] at hclaims
    omega
  · rw [Queue.attempts, hfind, Option.elim_some] at hclaims
    cases hstate : job.state with
    | queued =>
      have := (hjobs job hfind).runnable (.inl hstate)
      omega
    | retryable =>
      have := (hjobs job hfind).runnable (.inr hstate)
      omega
    | running => exact absurd hstate hidle
    | done => exact .inl rfl
    | dead => exact .inr rfl

/-- A sweep that is claimed, commits a chunk, is handed back, claimed again and finishes. -/
def chunkedRun : List WorkerAction :=
  let specification : JobSpecification :=
    ⟨js "w", js "retention.sweep", js "key", emptyPayload, none, none, none⟩
  let options : ClaimOptions := ⟨js "worker", [js "retention.sweep"], 1, 60000⟩
  let first : ClaimedJob := ⟨js "j", js "w", js "retention.sweep", js "key", emptyPayload, 1, 4, 1,
    js "worker", 60000⟩
  let second : ClaimedJob := { first with
    payload := ⟨[], some (js "cursor"), some ⟨1, 59000, 59000⟩⟩, fencingToken := 2,
    leaseExpiresAt := 119000 }
  [.enqueueJob 0 (js "j") specification [], .claimJobs 0 [] options,
    .runner 0 first (.look 0 none), .runner 59000 first (.handled (.chunk (js "cursor")) none),
    .runner 59000 first (.decide 0), .claimJobs 59000 [] options,
    .runner 59000 second (.look 59000 none), .runner 60000 second (.handled .finished none)]

theorem chunked_job_ends_twice :
    let registry : HandlerRegistry := fun _ => some .businessUniqueness
    let k : JobKey := (js "w", js "j")
    ((workerRun registry chunkedRun).claims k = 2 ∧ (workerRun registry chunkedRun).queue.jobs.rows.map Job.state = [.done]) ∧
      ChunkedJobEnds registry k [] chunkedRun :=
  ⟨by decide +kernel, chunked_job_ends _ _ _ _ (by decide +kernel)⟩

end FoundingSales.Jobs
