import FoundingSales.Outbound.DailyCap
import FoundingSales.Outbound.SpendOrder

/-!
One permission buys one message. The spend is an UPDATE of the row its transaction locked,
and repeats the whole of the permission's liveness; zero rows end the transaction with
nothing committed.

The clock is read by the UPDATE, not by the COMMIT: a permission can expire between the two
(`claim_commits_after_expiry`).

Proved here:
* `step_continues`, `claims_at_most_one`: a binding, a spend and a revocation stand, and one
  claim at most commits on a permission;
* `claimed_spent_live`: what a claim commits on, an UPDATE of the same transaction spent, and
  found it live as it was committed;
* `unaffected_commits_nothing`: a claim whose spend affects no row leaves every table as it is;
* `permission_buys_one_message`: the four, over every run.
-/

namespace FoundingSales.Outbound.Capacity

open Transactions Tables Runs Sequences

variable {P : Platform} {w : CapacityWorld} {i : CapacityInput}

/-! ## What stands -/

/-- A binding, a spend and a revocation stand, whatever is written later. -/
theorem step_continues (hw : Sound w) (i : CapacityInput) {id : Uuid} {old : FollowUpPermission}
    (hold : w.committed.find? (.permission id) = some (.permission old)) :
    ∃ new, (step P w i).committed.find? (.permission id) = some (.permission new) ∧
      old.Continues new := by
  rcases step_cases (P := P) hw i with ⟨-, hsame⟩ | ⟨note, fp, -, hfair, -, hmatches, hview⟩
  · exact ⟨old, hsame ▸ hold, .refl old⟩
  · rw [hview, find?_view, sees]
    cases hfind : fp.find? (.permission id) with
    | none => exact ⟨old, hold, .refl old⟩
    | some entry =>
      obtain ⟨hmem, hkey⟩ := Table.find?_eq_some.1 hfind
      have hbase := hmatches entry hmem
      rw [hkey, hold] at hbase
      obtain ⟨new, hnew, hcontinues⟩ := hfair.permissions entry hmem old (by rw [← hbase]; rfl)
      obtain ⟨row, hrow⟩ := Row.eq_permission hkey
      rw [hrow] at hnew
      obtain rfl : row = new := Option.some.inj hnew
      exact ⟨row, congrArg some hrow, hcontinues⟩

/-- The step commits a claim on that permission, and the permission buys one message. -/
def claimsOn (id : Uuid) (w : CapacityWorld) (i : CapacityInput) : Bool :=
  match w.committing i with
  | some (.claimed _ (some permission)) => permission.id = id && permission.scope.oneMessage
  | _ => false

theorem claimsOn_eq_true {id : Uuid} (h : claimsOn id w i = true) :
    ∃ plan permission, w.committing i = some (.claimed plan (some permission)) ∧
      permission.id = id ∧ permission.scope.oneMessage = true := by
  unfold claimsOn at h
  split at h
  · next plan permission hnote =>
    rw [Bool.and_eq_true, decide_eq_true_eq] at h
    exact ⟨plan, permission, hnote, h⟩
  · cases h

/-- A claim commits on a permission that is committed unspent and unrevoked, and spends it. -/
theorem step_spends (hw : Sound w) {plan : CapacityPlan} {permission : FollowUpPermission}
    (hnote : w.committing i = some (.claimed plan (some permission)))
    (hone : permission.scope.oneMessage = true) :
    permission.consumedAt = none ∧ permission.revokedAt = none ∧
    w.committed.find? (.permission permission.id) = some (.permission permission) ∧
    ∃ e, (step P w i).committed.find? (.permission permission.id)
      = some (.permission (permission.spend .sent e)) := by
  rcases step_cases (P := P) hw i with ⟨hnone, -⟩ | ⟨note, fp, hsome, hfair, -, hmatches, hview⟩
  · rw [hnone] at hnote
    cases hnote
  · obtain rfl := Option.some.inj (hsome.symm.trans hnote)
    obtain ⟨hunspent, hunrevoked, e, hfind⟩ := hfair.spent plan permission rfl hone
    obtain ⟨hmem, hkey⟩ := Table.find?_eq_some.1 hfind
    refine ⟨hunspent, hunrevoked, hkey ▸ hmatches _ hmem, e, ?_⟩
    rw [hview, find?_view, sees, hfind]

def isSpent (t : CapacityTable) (id : Uuid) : Bool :=
  ((t.find? (.permission id)).bind Row.permission?).any fun row => row.consumedAt.isSome

theorem isSpent_step (hw : Sound w) (i : CapacityInput) {id : Uuid}
    (h : isSpent w.committed id = true) : isSpent (step P w i).committed id = true := by
  obtain ⟨row, hrow, hspent⟩ := (Option.any_eq_true _ _).1 h
  obtain ⟨r, hr, hrrow⟩ := Option.bind_eq_some_iff.1 hrow
  obtain ⟨row', rfl⟩ := Row.eq_permission (Table.find?_key hr)
  obtain rfl : row' = row := Option.some.inj hrrow
  obtain ⟨new, hnew, hcontinues⟩ := step_continues (P := P) hw i hr
  simp only [isSpent, hnew, Option.bind_some, Row.permission?, Option.any_some]
  rw [(hcontinues.consumed hspent).1]
  exact hspent

/-- At most one claim commits on a permission in any run. -/
theorem claims_at_most_one (P : Platform) (inputs : List CapacityInput) (id : Uuid) :
    Runs.total (step P) (fun w i => if claimsOn id w i then 1 else 0) start inputs ≤ 1 := by
  have hpays : ∀ w i, True → Sound w →
      (if isSpent w.committed id then 1 else 0) + (if claimsOn id w i then 1 else 0)
        ≤ if isSpent (step P w i).committed id then 1 else 0 := by
    intro w i _ hw
    cases hclaims : claimsOn id w i with
    | false =>
      cases hspent : isSpent w.committed id with
      | false => simp
      | true => simp [isSpent_step hw i hspent]
    | true =>
      obtain ⟨plan, permission, hnote, rfl, hone⟩ := claimsOn_eq_true hclaims
      obtain ⟨hunspent, -, hbefore, e, hafter⟩ := step_spends (P := P) hw hnote hone
      have hbefore' : isSpent w.committed permission.id = false := by
        simp [isSpent, hbefore, Row.permission?, hunspent]
      have hafter' : isSpent (step P w i).committed permission.id = true := by
        simp [isSpent, hafter, Row.permission?, FollowUpPermission.spend]
      simp [hbefore', hafter']
  have hbounded : ∀ w, Sound w → (if isSpent w.committed id then 1 else 0) ≤ 1 := by
    intro w _
    split <;> omega
  have hrun := total_le_of_potential (fun w i _ hw => step_sound hw i) hpays hbounded
    (meets_of_forall (step P) (fun _ _ => trivial) start inputs) start_sound
  exact Nat.le_trans (Nat.le_add_left _ _) hrun

/-! ## What is spent was live -/

/-- The input at which the UPDATE of a claim spent its permission. After `front` the process
stood at that statement of the claim, the row was committed, and it was live at the clock the
statement read. Through all of `back` the process has been in that same transaction, which
holds the row as the statement wrote it; no start of the process took effect. -/
structure SpentAt (P : Platform) (front : List CapacityInput) (p : ProcessId) (e : CapacityEnv)
    (back : List CapacityInput) (plan : CapacityPlan) (permission : FollowUpPermission) :
    Prop where
  statement : ∃ held fence claim, (run (step P) start front).sessions p
    = some ⟨held, spending fence permission plan claim >>= fun _ => pure ()⟩
  committed : (run (step P) start front).committed.find? (.permission permission.id)
    = some (.permission permission)
  live : permission.live e.env = true
  since : ∀ mid, mid <+: back → ∃ s,
    (run (step P) start (front ++ .run p e :: mid)).sessions p = some s ∧
    s.held.find? (.permission permission.id)
      = some ⟨some (.permission permission), .permission (permission.spend .sent e.env)⟩
  unstarted : ∀ mid job, mid ++ [.start p job] <+: back →
    run (step P) start (front ++ .run p e :: mid ++ [.start p job])
      = run (step P) start (front ++ .run p e :: mid)

/-- A process in a transaction starts no other program. -/
theorem step_start_of_session {p : ProcessId} {s : Session Row.key CapacityEnv CapacityNote}
    (hs : w.sessions p = some s) (job : CapacityJob) : step P w (.start p job) = w := by
  simp only [step, World.step, hs]

/-- Two unspent rows that one spend makes the same are the same row. -/
theorem eq_of_spend {row row' : FollowUpPermission} {reason : ConsumedReason} {e e' : Env}
    (h : row.spend reason e = row'.spend reason e') (hchecks : permissionChecks row = true)
    (hchecks' : permissionChecks row' = true) (hrow : row.consumedAt = none)
    (hrow' : row'.consumedAt = none) : row = row' := by
  have hreason : ∀ r : FollowUpPermission, permissionChecks r = true → r.consumedAt = none →
      r.consumedReason = none := by
    intro r hr hnone
    simp only [permissionChecks, Bool.and_eq_true, hnone] at hr
    simpa using hr.2
  have hnone := hreason row hchecks hrow
  have hnone' := hreason row' hchecks' hrow'
  cases row
  cases row'
  simp_all [FollowUpPermission.spend]

/-- A claim that commits on a permission of one message spent it in the same transaction, at an
UPDATE that found it live, and commits what that UPDATE wrote. -/
theorem claimed_spent_live (P : Platform) (inputs : List CapacityInput) {i : CapacityInput}
    {plan : CapacityPlan} {permission : FollowUpPermission}
    (hnote : (run (step P) start inputs).committing i = some (.claimed plan (some permission)))
    (hone : permission.scope.oneMessage = true) :
    ∃ p front e back e', inputs = front ++ .run p e :: back ∧ i = .run p e' ∧
      SpentAt P front p e back plan permission ∧
      (step P (run (step P) start inputs) i).committed.find? (.permission permission.id)
        = some (.permission (permission.spend .sent e.env)) := by
  have hw := reachable_sound P inputs
  obtain ⟨p, e', held, next, rfl, hs⟩ := World.committing_eq_some hnote
  have hrows := (hw.holds p _ hs).goodRows hw.good
  obtain ⟨hunspent, -, e'', hfind⟩ := ((hw.holds p _ hs).obeys.1 hrows).spent plan permission rfl hone
  have hchecks : permissionChecks permission = true :=
    ((hrows _ (Table.find?_eq_some.1 hfind).1).2 _ rfl).1
  -- the COMMIT is not behind the spend any more, so this transaction took it
  rcases World.behind_or_passed (program_behind P hone) (fun _ _ _ _ hat hnext =>
    (AtSpendOf.next hat hnext).imp_right And.left) hs with hbehind | ⟨-, hpassed⟩
  · exact (hbehind.1 rfl).elim
  obtain ⟨front, e, back, s₀, rfl, hpassed⟩ := hpassed
  obtain ⟨prog, hthrough, hnext⟩ := hpassed.next
  obtain ⟨-, row, hkey, hsees, hspendable, rfl⟩ :=
    (AtSpendOf.next hpassed.took hnext).resolve_left hthrough
  -- the row the UPDATE wrote is the one the COMMIT spends, and it was committed
  have hw₀ := reachable_sound P front
  have hholds := hw₀.holds p _ hpassed.session
  obtain ⟨hbase, hspends⟩ :=
    Touched.mk.inj (Option.some.inj ((find?_touch_write hkey).symm.trans hfind))
  have hcommitted := (hholds.baseOf_eq _).symm.trans hbase
  simp only [FollowUpPermission.spendable, Bool.and_eq_true, Option.isNone_iff_eq_none]
    at hspendable
  obtain rfl := eq_of_spend (Row.permission.inj hspends) (hholds.sees_good hw₀.good hsees) hchecks
    hspendable.1.2 hunspent
  rw [← hspends] at hfind
  refine ⟨p, front, e, back, e', rfl, rfl, ⟨?_, hcommitted, hspendable.2, ?_, ?_⟩, ?_⟩
  · obtain ⟨fence, claim, hprog⟩ := hpassed.took
    exact ⟨s₀.held, fence, claim, hprog ▸ hpassed.session⟩
  · intro mid hmid
    obtain ⟨prog', hs'⟩ := hpassed.since mid hmid
    exact ⟨_, hs', hfind⟩
  · intro mid job hmid
    obtain ⟨prog', hs'⟩ := hpassed.since mid ((List.prefix_append mid _).trans hmid)
    rw [run_append (step P) start (front ++ .run p e :: mid)]
    exact step_start_of_session hs' job
  · have hstep : (step P _ (.run p e')).committed = _ := World.step_commit hs
    rw [hstep, find?_view, sees, hfind]

/-! ## Zero rows -/

theorem afterConsumption_none (fence claim : Fence) (permission : FollowUpPermission)
    (plan : CapacityPlan) :
    (afterConsumption fence permission plan claim none >>= fun _ => pure () :
      CapacityTx Unit).NeverCommits := trivial

/-- The UPDATE finds no row to spend. -/
def Unaffected (w : CapacityWorld) (held : Footprint Row.key) (id : Uuid) (e : CapacityEnv) :
    Prop :=
  ∀ row, sees held (.permission id) (w.committed.find? (.permission id)) = some (.permission row) →
    row.spendable e.env = false

theorem unaffected_step {p : ProcessId} {held : Footprint Row.key} {fence claim : Fence}
    {permission : FollowUpPermission} {plan : CapacityPlan} {e : CapacityEnv}
    (hs : w.sessions p = some ⟨held, spending fence permission plan claim >>= fun _ => pure ()⟩)
    (h : Unaffected w held permission.id e) :
    (step P w (.run p e)).committed = w.committed ∧ (step P w (.run p e)).Barren p := by
  have hpass : (step P w (.run p e)).committed = w.committed ∧
      (step P w (.run p e)).sessions p
        = some ⟨held, afterConsumption fence permission plan claim none >>= fun _ => pure ()⟩ := by
    unfold step
    refine World.step_pass (b := none) hs ?_
    simp only [rowAt_bind]
    split
    · rfl
    · next row hrow =>
      obtain ⟨r, hr, hrpermission⟩ := Option.bind_eq_some_iff.1 hrow
      obtain ⟨row', rfl⟩ := Row.eq_permission (sees_key hr)
      obtain rfl : row' = row := Option.some.inj hrpermission
      exact if_neg fun htrue => Bool.false_ne_true ((h row' hr).symm.trans htrue)
  refine ⟨hpass.1, fun s hs' => ?_⟩
  obtain rfl := Option.some.inj (hs'.symm.trans hpass.2)
  exact afterConsumption_none fence claim permission plan

/-- A claim whose spend affects no row leaves every table as it is: neither that step nor a
later one of its process commits anything, until the process starts another program. -/
theorem unaffected_commits_nothing {p : ProcessId} {held : Footprint Row.key}
    {fence claim : Fence} {permission : FollowUpPermission} {plan : CapacityPlan}
    {e e' : CapacityEnv}
    (hs : w.sessions p = some ⟨held, spending fence permission plan claim >>= fun _ => pure ()⟩)
    (h : Unaffected w held permission.id e) {later : List CapacityInput}
    (hstarts : ∀ i ∈ later, i.process = p → i.starts = false) :
    (step P w (.run p e)).committed = w.committed ∧
      (step P (run (step P) (step P w (.run p e)) later) (.run p e')).committed
        = (run (step P) (step P w (.run p e)) later).committed := by
  obtain ⟨hsame, hbarren⟩ := unaffected_step (P := P) hs h
  have hlater : (run (step P) (step P w (.run p e)) later).Barren p := hbarren.run hstarts
  exact ⟨hsame, World.step_committed hlater.commits_nothing⟩

/-! ## One permission, one message -/

/-- Of the permissions that buy one message; `i` is the next input of a run over `inputs`. -/
theorem permission_buys_one_message (P : Platform) (inputs : List CapacityInput)
    (i : CapacityInput) (id : Uuid) :
    let w := run (step P) start inputs
    let w' := step P w i
    (∀ old, w.committed.find? (.permission id) = some (.permission old) →
      ∃ new, w'.committed.find? (.permission id) = some (.permission new) ∧ old.Continues new) ∧
    Runs.total (step P) (fun w i => if claimsOn id w i then 1 else 0) start inputs ≤ 1 ∧
    (∀ plan permission, w.committing i = some (.claimed plan (some permission)) →
      permission.scope.oneMessage = true →
      w.committed.find? (.permission permission.id) = some (.permission permission) ∧
      permission.consumedAt = none ∧ permission.revokedAt = none ∧
      ∃ p front e back e', inputs = front ++ .run p e :: back ∧ i = .run p e' ∧
        SpentAt P front p e back plan permission ∧
        w'.committed.find? (.permission permission.id)
          = some (.permission (permission.spend .sent e.env))) ∧
    ∀ p held fence permission plan claim e,
      w.sessions p = some ⟨held, spending fence permission plan claim >>= fun _ => pure ()⟩ →
      Unaffected w held permission.id e →
      ∀ later : List CapacityInput, (∀ i ∈ later, i.process = p → i.starts = false) →
      let w₁ := run (step P) (step P w (.run p e)) later
      (step P w (.run p e)).committed = w.committed ∧
        ∀ e', (step P w₁ (.run p e')).committed = w₁.committed := by
  intro w w'
  have hw : Sound w := reachable_sound P inputs
  refine ⟨fun old hold => step_continues hw i hold, claims_at_most_one P inputs id, ?_, ?_⟩
  · intro plan permission hnote hone
    obtain ⟨hunspent, hunrevoked, hbefore, -⟩ := step_spends (P := P) hw hnote hone
    exact ⟨hbefore, hunspent, hunrevoked, claimed_spent_live P inputs hnote hone⟩
  · intro p held fence permission plan claim e hs hunaffected later hstarts w₁
    exact ⟨(unaffected_step hs hunaffected).1,
      fun e' => (unaffected_commits_nothing hs hunaffected hstarts).2⟩

/-! ## The clock after the spend -/

def sampleMailbox : PlannedMailbox where
  id := js "11111111-1111-4111-8111-111111111111"
  generation := 1
  providerAccountId := js "a1"
  ownerUserId := js "99999999-9999-4999-8999-999999999999"
  address := js "rep@callie.example"

def sampleSend : PreparedSend :=
  .step
    { enrollmentId := some (js "n1")
      stepExecutionId := js "33333333-3333-4333-8333-333333333333"
      opportunityId := none
      firmId := js "55555555-5555-4555-8555-555555555555"
      contactId := none
      ownerUserId := sampleMailbox.ownerUserId
      templateVersionId := js "v1"
      templateContentHash := js "h1"
      emailAddressId := none
      toAddress := js "ada@firm.example"
      subject := js "Visit"
      body := js "As promised."
      sendAt := 0
      sourceZone := js "UTC"
      ruleVersion := none
      businessDate := 20662 }
    ⟨sampleMailbox.id, true, sampleMailbox.address⟩ none

def samplePermissionId : Uuid := js "aaaaaaaa-aaaa-4aaa-8aaa-aaaaaaaaaaaa"

def sampleStepFenceId : Uuid := js "66666666-6666-4666-8666-666666666666"

/-- Nothing refuses, and the database's clock is at `clock`. -/
def sampleClaimEnv (uuid : Uuid) (clock : Instant) : CapacityEnv where
  env := { (default : Env) with uuid := uuid, clock := clock, markMeetingDraftSubmitted := true }
  mailbox := some sampleMailbox
  gateRefusal := none
  epochBound := none
  recovery := none
  unready := none
  incident := none
  businessDate := 20662
  waiting := none
  footer := .kept
  permissionId := some samplePermissionId
  permitted := true
  mailboxExists := true
  healthyStreak := 0
  humanReplyUnresolved := false
  verifiedBytes := none
  tombstone := none

def samplePlan : CapacityPlan where
  mailbox := sampleMailbox
  ramp := { newRamp sampleMailbox.id with recovery := none }
  cap := 5
  businessDate := 20662

/-- A permission until 100, bound to an enrollment whose fence is prepared; a claim spends it
at 0. -/
def spentRun : List CapacityInput :=
  .start 0 (.grantFollowUpPermission ⟨js "f1", js "c1", .singleEmail, 100⟩)
    :: List.replicate 5 (.run 0 (sampleClaimEnv samplePermissionId 0))
    ++ .start 1 (.enrollOnPermission samplePermissionId (js "n1") none)
    :: List.replicate 3 (.run 1 (sampleClaimEnv (js "n1") 0))
    ++ .start 1 (.prepare sampleSend)
    :: List.replicate 4 (.run 1 (sampleClaimEnv sampleStepFenceId 0))
    ++ .start 2 (.recheckAndClaim sampleStepFenceId samplePlan)
    :: List.replicate 27 (.run 2 (sampleClaimEnv (js "t1") 0))

def lateCommit : CapacityInput := .run 2 (sampleClaimEnv (js "t1") 200)

/-- The claim commits at 200, and its permission had expired at 100. -/
theorem claim_commits_after_expiry :
    claimsOn samplePermissionId (run (step (asciiPlatform [])) start spentRun) lateCommit = true ∧
    (((run (step (asciiPlatform [])) start spentRun).committed.find?
      (.permission samplePermissionId)).bind Row.permission?).any
        (fun row => row.expiresAt ≤ 200) = true := by
  decide +kernel

end FoundingSales.Outbound.Capacity
