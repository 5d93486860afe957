import FoundingSales.Outbound.CapacityCommits

/-!
The order of a claim's statements. A COMMIT that claims on a permission of one message comes
behind the UPDATE that spends this permission, in the same transaction and with the plan the
COMMIT notes; after the UPDATE the transaction reads, and ends.

Proved here:
* `spendAuthority_behind`: the one place where a claim on a permission is let through;
* `program_behind`: every program keeps that order;
* `AtSpendOf.next`: what the UPDATE leaves, whether or not it finds a row to spend.
-/

namespace FoundingSales.Outbound.Capacity

open Transactions Tables Sequences

variable {α β : Type} {plan : CapacityPlan} {permission : FollowUpPermission}

/-- A claim's program at the spend of its permission. -/
def spending (fence : Fence) (permission : FollowUpPermission) (plan : CapacityPlan)
    (claim : Fence) : CapacityTx ClaimOutcome := do
  let consumed ← consumeFollowUpPermission permission.id
  afterConsumption fence permission plan claim consumed

theorem spendAuthority_eq_spending {fence claim : Fence}
    (hone : permission.scope.oneMessage = true) :
    spendAuthority fence (some permission) plan claim = spending fence permission plan claim := by
  simp only [spendAuthority, hone, ↓reduceIte, spending]

/-- A claim with that plan stands at the spend of that permission. -/
def AtSpend (plan : CapacityPlan) (permission : FollowUpPermission)
    (prog : CapacityTx ClaimOutcome) : Prop :=
  ∃ fence claim, prog = spending fence permission plan claim

/-- The same, of the program a process runs. -/
def AtSpendOf (plan : CapacityPlan) (permission : FollowUpPermission) (prog : CapacityTx Unit) :
    Prop :=
  ∃ fence claim, prog = spending fence permission plan claim >>= fun _ => pure ()

/-- No commit of the program claims with that plan on that permission, but behind the gate. -/
abbrev ClaimsBehind (gate : CapacityTx α → Prop) (plan : CapacityPlan)
    (permission : FollowUpPermission) (prog : CapacityTx α) : Prop :=
  prog.Behind gate (· = .claimed plan (some permission))

/-- No commit of the program claims with that plan on that permission. -/
abbrev Unclaiming (plan : CapacityPlan) (permission : FollowUpPermission) (prog : CapacityTx α) :
    Prop :=
  ClaimsBehind (fun _ => False) plan permission prog

section Rules

variable {gate : CapacityTx β → Prop} {f : α → CapacityTx β}

theorem Unclaiming.then {prog : CapacityTx α} (h : Unclaiming plan permission prog)
    (hf : ∀ a, ClaimsBehind gate plan permission (f a)) :
    ClaimsBehind gate plan permission (prog >>= f) :=
  h.bind (fun _ hfalse => hfalse.elim) hf

theorem Unclaiming.behind {gate : CapacityTx α → Prop} {prog : CapacityTx α}
    (h : Unclaiming plan permission prog) : ClaimsBehind gate plan permission prog :=
  h.mono fun _ hfalse => hfalse.elim

theorem unclaiming_stmt {k : RowKey} {act : CapacityEnv → CapacityTable →
    Option { r : Row // r.key = k } → Option (α × Effect Row.key k)} :
    Unclaiming plan permission (.stmt k act .ret : CapacityTx α) :=
  .inr fun _ => trivial

theorem unclaiming_read {read : CapacityEnv → CapacityTable → α} :
    Unclaiming plan permission (.read read .ret : CapacityTx α) := fun _ => trivial

theorem unclaiming_quiet : Unclaiming plan permission (Tx.commits .quiet) :=
  ⟨nofun, trivial⟩

end Rules

/-! ## Programs that claim nothing -/

theorem settle_unclaiming {inTransaction : Bool} :
    Unclaiming plan permission (settle inTransaction) := by
  cases inTransaction with
  | true => trivial
  | false => exact unclaiming_quiet

theorem ensureRamp_unclaiming {inTransaction : Bool} {mailboxId : Uuid} :
    Unclaiming plan permission (ensureRamp inTransaction mailboxId) :=
  Unclaiming.then unclaiming_stmt fun _ => settle_unclaiming.then fun _ =>
    Unclaiming.then unclaiming_stmt fun _ => settle_unclaiming.then fun _ =>
      Unclaiming.then unclaiming_read fun _ => trivial

theorem openSendDay_unclaiming {inTransaction : Bool} {mailboxId : Uuid}
    {businessDate : BusinessDate} {cap : Int} :
    Unclaiming plan permission (openSendDay inTransaction mailboxId businessDate cap) :=
  Unclaiming.then unclaiming_read fun _ => Unclaiming.then unclaiming_stmt fun _ =>
    settle_unclaiming.then fun _ => trivial

theorem decideCapacity_unclaiming {inTransaction : Bool} {mailbox : PlannedMailbox} :
    Unclaiming plan permission (decideCapacity inTransaction mailbox) := by
  refine ensureRamp_unclaiming.then fun ramp => Unclaiming.then unclaiming_read fun unready => ?_
  split
  · trivial
  refine Unclaiming.then unclaiming_read fun incident => ?_
  split
  · trivial
  refine Unclaiming.then unclaiming_read fun businessDate => openSendDay_unclaiming.then fun day => ?_
  split
  · trivial
  refine Unclaiming.then unclaiming_read fun waiting => ?_
  split
  · split <;> trivial
  · trivial

theorem decideSend_unclaiming {inTransaction : Bool} {fence : Fence} :
    Unclaiming plan permission (decideSend inTransaction fence) := by
  unfold decideSend
  split
  · trivial
  refine Unclaiming.then unclaiming_read fun mailbox => ?_
  split
  · trivial
  refine Unclaiming.then unclaiming_read fun refusal => ?_
  split
  · trivial
  · exact decideCapacity_unclaiming

theorem setAdminCap_unclaiming {mailboxId : Uuid} {lowerTo raiseTo : Option (Option Int)} :
    Unclaiming plan permission (setAdminCap mailboxId lowerTo raiseTo) := by
  have hrefuse : ∀ reason : AdminCapRefusal, Unclaiming plan permission
      (do Tx.commits .quiet; return some reason : CapacityTx (Option AdminCapRefusal)) :=
    fun _ => unclaiming_quiet.then fun _ => trivial
  unfold setAdminCap
  split
  · exact hrefuse _
  split
  · exact hrefuse _
  split
  · exact hrefuse _
  refine Unclaiming.then unclaiming_read fun known => ?_
  split
  · exact hrefuse _
  refine ensureRamp_unclaiming.then fun _ => Unclaiming.then unclaiming_stmt fun current => ?_
  cases current with
  | none => exact hrefuse _
  | some current =>
    refine Unclaiming.then unclaiming_read fun streak => ?_
    split
    · exact hrefuse _
    · exact Unclaiming.then unclaiming_stmt fun _ => unclaiming_quiet.then fun _ => trivial

theorem overrideRaise_unclaiming {mailboxId : Uuid} {raiseTo : Option Int} :
    Unclaiming plan permission (overrideRaise mailboxId raiseTo) := by
  unfold overrideRaise
  split
  · exact unclaiming_quiet.then fun _ => trivial
  refine Unclaiming.then unclaiming_read fun known => ?_
  split
  · exact unclaiming_quiet.then fun _ => trivial
  · exact ensureRamp_unclaiming.then fun _ => Unclaiming.then unclaiming_stmt fun _ =>
      unclaiming_quiet.then fun _ => trivial

theorem markPreDispatchFenceSent_unclaiming {P : Platform} {input : PreDispatchSentInput} :
    Unclaiming plan permission (markPreDispatchFenceSent P input) := by
  have hmark : ∀ next : Option Fence → CapacityTx (Option Fence),
      (∀ claimed, Unclaiming plan permission (next claimed)) →
      Unclaiming plan permission (updateFence input.outboundMessageId
        (fun row => row.state == .prepared) (preDispatchClaimSet P input) >>= next) :=
    fun _ hnext => Unclaiming.then unclaiming_stmt hnext
  refine Unclaiming.then unclaiming_read fun current => ?_
  split
  · refine Unclaiming.then unclaiming_stmt fun _ => hmark _ fun claimed => ?_
    cases claimed with
    | none => trivial
    | some claimed => exact unclaiming_stmt
  · refine hmark _ fun claimed => ?_
    cases claimed with
    | none => trivial
    | some claimed => exact unclaiming_stmt

theorem restored_unclaiming {result : Option Fence} :
    Unclaiming plan permission (Tx.commits (restoredNote result)) := by
  cases result with
  | none => exact unclaiming_quiet
  | some row => exact ⟨nofun, trivial⟩

theorem recoverSentFolderMessage_unclaiming {P : Platform} {message : SentFolderMessage} :
    Unclaiming plan permission (recoverSentFolderMessage P message) := by
  refine Unclaiming.then unclaiming_read fun found => ?_
  cases found with
  | some fence =>
    refine Unclaiming.then unclaiming_read fun unresolved => ?_
    split
    · exact unclaiming_quiet
    split
    · exact unclaiming_quiet
    · exact Unclaiming.then unclaiming_read fun _ =>
        markPreDispatchFenceSent_unclaiming.then fun _ => restored_unclaiming
  | none =>
    refine Unclaiming.then unclaiming_read fun facts => ?_
    cases facts with
    | none => exact unclaiming_quiet
    | some facts =>
      refine Unclaiming.then (Unclaiming.then unclaiming_read fun _ => unclaiming_stmt) fun _ => ?_
      exact restored_unclaiming

theorem consumeEachFulfilled_unclaiming {firmId : Uuid} {contactIds : List Uuid}
    {sentAt : Instant} {ids : List Uuid} :
    Unclaiming plan permission (consumeEachFulfilled firmId contactIds sentAt ids) := by
  induction ids with
  | nil => trivial
  | cons id ids ih => exact Unclaiming.then unclaiming_stmt fun _ => ih.then fun _ => trivial

/-! ## The claim -/

section Claim

variable {fence claim : Fence} {locked : Option FollowUpPermission} {decided : CapacityPlan}
  {gate : CapacityTx ClaimOutcome → Prop}

theorem notReady_behind {refusal : SendRefusalCode} {detail : Option JsString} :
    ClaimsBehind gate plan permission (notReady refusal detail) := trivial

theorem holds_behind {id : Uuid} {reason : SendRefusalCode} :
    ClaimsBehind gate plan permission (holds id reason) :=
  Unclaiming.then unclaiming_stmt fun _ => unclaiming_quiet.then fun _ => trivial

/-- The COMMIT of a claim with another plan or on another permission. -/
theorem commitClaim_behind
    (hother : CapacityNote.claimed decided locked ≠ .claimed plan (some permission)) :
    ClaimsBehind gate plan permission (commitClaim fence locked decided claim) := by
  refine Unclaiming.then unclaiming_read fun marked => ?_
  split
  · exact notReady_behind
  refine Unclaiming.then unclaiming_read fun consumed => ?_
  split
  · exact notReady_behind
  · exact ⟨hother, trivial⟩

/-- A claim on a permission of one message goes through the spend of that permission. -/
theorem spendAuthority_behind (hone : permission.scope.oneMessage = true) :
    ClaimsBehind (AtSpend plan permission) plan permission
      (spendAuthority fence locked decided claim) := by
  cases locked with
  | none => exact commitClaim_behind nofun
  | some row =>
    by_cases hscope : row.scope.oneMessage = true
    · rw [spendAuthority_eq_spending hscope]
      by_cases hsame : decided = plan ∧ row = permission
      · obtain ⟨rfl, rfl⟩ := hsame
        exact .inl ⟨fence, claim, rfl⟩
      · refine .inr fun consumed => ?_
        cases consumed with
        | none => exact notReady_behind
        | some _ =>
          refine commitClaim_behind fun heq => hsame ?_
          cases heq
          exact ⟨rfl, rfl⟩
    · simp only [spendAuthority, hscope]
      refine Unclaiming.then unclaiming_read fun live => ?_
      split
      · refine commitClaim_behind fun heq => hscope ?_
        cases heq
        exact hone
      · exact notReady_behind

theorem reserveAndClaim_behind (hone : permission.scope.oneMessage = true) :
    ClaimsBehind (AtSpend plan permission) plan permission
      (reserveAndClaim fence locked decided) := by
  refine Unclaiming.then unclaiming_stmt fun reserved => ?_
  split
  · refine Unclaiming.then unclaiming_stmt fun claimed => ?_
    cases claimed with
    | none => exact notReady_behind
    | some claimed => exact spendAuthority_behind hone
  · exact holds_behind

private theorem afterFooter_behind (hone : permission.scope.oneMessage = true) :
    ClaimsBehind (AtSpend plan permission) plan permission (do
      if (← answer fun e => e.env.meetingRefusal).isSome then
        let _ ← holdFence fence.id (js "follow_up_not_permitted")
        Tx.commits .quiet
        return .held .stepIneligible
      else if (← answer fun e => e.env.pacingRetryAt).isSome then
        notReady .stepIneligible (some (js "mailbox_pacing"))
      else
        match ← answer fun e => e.env.threadingRefusal with
        | some reason => notReady .stepIneligible (some reason)
        | none => reserveAndClaim fence locked decided) := by
  refine Unclaiming.then unclaiming_read fun meeting => ?_
  split
  · exact Unclaiming.then unclaiming_stmt fun _ => unclaiming_quiet.then fun _ => trivial
  refine Unclaiming.then unclaiming_read fun pacing => ?_
  split
  · exact notReady_behind
  refine Unclaiming.then unclaiming_read fun threading => ?_
  split
  · exact notReady_behind
  · exact reserveAndClaim_behind hone

theorem prepareClaim_behind {P : Platform} {precheck : CapacityPlan}
    (hone : permission.scope.oneMessage = true) :
    ClaimsBehind (AtSpend plan permission) plan permission
      (prepareClaim P fence locked precheck decided) := by
  refine Unclaiming.then unclaiming_read fun quietWindow => ?_
  split
  · exact notReady_behind
  refine Unclaiming.then unclaiming_read fun early => ?_
  split
  · exact notReady_behind
  split
  · exact notReady_behind
  refine Unclaiming.then unclaiming_read fun touch => ?_
  split
  · exact notReady_behind
  refine Unclaiming.then unclaiming_read fun footer => ?_
  split
  · exact holds_behind
  split
  · exact Unclaiming.then unclaiming_stmt fun _ => afterFooter_behind hone
  · exact afterFooter_behind hone

theorem recheckAndClaim_behind {P : Platform} {id : Uuid} {precheck : CapacityPlan}
    (hone : permission.scope.oneMessage = true) :
    ClaimsBehind (AtSpend plan permission) plan permission (recheckAndClaim P id precheck) := by
  refine Unclaiming.then unclaiming_stmt fun found => ?_
  cases found with
  | none => exact notReady_behind
  | some fence =>
    simp only
    split
    · exact notReady_behind
    refine Unclaiming.then unclaiming_read fun approved => ?_
    split
    · exact notReady_behind
    have hlock : Unclaiming plan permission lockPermissionForClaim := by
      refine Unclaiming.then unclaiming_read fun permissionId => ?_
      cases permissionId with
      | none => trivial
      | some permissionId => exact unclaiming_stmt
    refine hlock.then fun locked => decideSend_unclaiming.then fun result => ?_
    cases result with
    | refused reason detail => exact holds_behind
    | ok decided => exact prepareClaim_behind hone

end Claim

/-- Every program claims on a permission of one message behind its spend. -/
theorem program_behind (P : Platform) (hone : permission.scope.oneMessage = true)
    (job : CapacityJob) :
    ClaimsBehind (AtSpendOf plan permission) plan permission (program P job) := by
  cases job with
  | prepare send =>
    exact Unclaiming.then unclaiming_read fun _ => Unclaiming.then unclaiming_stmt fun _ =>
      unclaiming_quiet.then fun _ => trivial
  | hold id reason => exact Unclaiming.then unclaiming_stmt fun _ => ⟨nofun, trivial⟩
  | release id => exact Unclaiming.then unclaiming_stmt fun _ => ⟨nofun, trivial⟩
  | precheck id =>
    refine Unclaiming.then unclaiming_read fun fence => ?_
    cases fence with
    | none => trivial
    | some fence => exact decideSend_unclaiming.then fun _ => trivial
  | recheckAndClaim id precheck =>
    refine (recheckAndClaim_behind hone).bind (fun prog hat => ?_) fun _ => trivial
    obtain ⟨fence, claim, rfl⟩ := hat
    exact ⟨fence, claim, rfl⟩
  | setAdminCap mailboxId lowerTo raiseTo => exact setAdminCap_unclaiming.then fun _ => trivial
  | overrideRaise mailboxId raiseTo => exact overrideRaise_unclaiming.then fun _ => trivial
  | recoverSentFolderMessage message => exact recoverSentFolderMessage_unclaiming.behind
  | grantFollowUpPermission input =>
    refine Unclaiming.then unclaiming_read fun _ => Unclaiming.then unclaiming_stmt fun _ =>
      Unclaiming.then unclaiming_read fun permitted => ?_
    split
    · exact unclaiming_quiet.behind
    · trivial
  | enrollOnPermission permissionId enrollmentId expiresAt =>
    have hbind : Unclaiming plan permission
        (bindFollowUpPermission permissionId enrollmentId expiresAt) :=
      Unclaiming.then unclaiming_stmt fun _ => trivial
    refine hbind.then fun bound => ?_
    split
    · exact unclaiming_quiet.behind
    · trivial
  | revokeFollowUpPermission permissionId =>
    refine Unclaiming.then unclaiming_read fun permitted => ?_
    split
    · exact Unclaiming.then unclaiming_stmt fun _ => unclaiming_quiet.behind
    · exact unclaiming_quiet.behind
  | consumeFulfilledByDirectSend firmId contactIds sentAt =>
    refine Unclaiming.then (Unclaiming.then unclaiming_read fun _ =>
      consumeEachFulfilled_unclaiming) fun _ => unclaiming_quiet.behind

/-! ## What the UPDATE leaves -/

theorem commitClaim_closing {fence claim : Fence} {locked : Option FollowUpPermission} :
    (commitClaim fence locked plan claim).Closing := by
  intro marked
  change Tx.Closing (ite _ _ _)
  split
  · trivial
  intro consumed
  change Tx.Closing (ite _ _ _)
  split
  · trivial
  · trivial

/-- The statement waits, or finds no row and the claim is given up, or it writes the spend of
the row it finds. -/
theorem AtSpendOf.next {t : CapacityTable} {e : CapacityEnv}
    {s s' : Session Row.key CapacityEnv CapacityNote} (hat : AtSpendOf plan permission s.prog)
    (h : Session.Next t e s s') :
    ClaimsBehind (AtSpendOf plan permission) plan permission s'.prog ∨
    s'.prog.Closing ∧ ∃ row hkey,
      sees s.held (.permission permission.id) (t.find? (.permission permission.id))
        = some (.permission row) ∧ row.spendable e.env = true ∧
      s'.held = touch s.held (.permission permission.id) (t.find? (.permission permission.id))
        (.write (.permission (row.spend .sent e.env)) hkey) := by
  obtain ⟨held, prog⟩ := s
  obtain ⟨fence, claim, rfl⟩ : AtSpendOf plan permission prog := hat
  cases h with
  | waits => exact .inl (.inl ⟨fence, claim, rfl⟩)
  | stmt held k act next b effect hact =>
    simp only [rowAt_bind] at hact
    split at hact
    · obtain ⟨rfl, rfl⟩ := Prod.mk.inj (Option.some.inj hact)
      exact .inl trivial
    · next row hrow =>
      split at hact
      · next hguard =>
        split at hact
        · cases hact
        · obtain ⟨rfl, hkey, rfl⟩ := writes_eq_some hact
          obtain ⟨r, hr, hrpermission⟩ := Option.bind_eq_some_iff.1 hrow
          obtain ⟨row', rfl⟩ := Row.eq_permission (sees_key hr)
          obtain rfl : row' = row := Option.some.inj hrpermission
          exact .inr ⟨commitClaim_closing.bind fun _ => ⟨trivial, trivial⟩, row', hkey, hr, hguard, rfl⟩
      · obtain ⟨rfl, rfl⟩ := Prod.mk.inj (Option.some.inj hact)
        exact .inl trivial

end FoundingSales.Outbound.Capacity
