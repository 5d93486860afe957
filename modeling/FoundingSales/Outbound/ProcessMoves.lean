import FoundingSales.Outbound.FenceMoves

/-!
The programs of several operations: the restore's walk to `sent`, the claiming
transaction, the dispatch and the reconciliation. Between its claim and its call a
dispatch holds the permit for the fence it claimed, and no other program holds one.
-/

namespace FoundingSales.Outbound

open Processes Tables Rules Contracts Relation

variable {P : Platform} {p : ProcessId} {m : Mode} {context : RepositoryContext}
  {deps : OutboundSendDeps}

/-! ## Inside a transaction -/

theorem recordPreDispatchFenceSent_settles {input : PreDispatchSentInput}
    {current : Option Fence} (hm : m.owed = none) :
    Settles P p (recordPreDispatchFenceSent P context input current) m := by
  refine obeys_after ?_ fun _ => ?_
  · unfold releaseIfHeld
    split
    · exact obeys_after (releaseFence_settles hm) fun _ => settles_pure _
    · exact settles_pure _
  refine transition_settles hm (fun e row h => preDispatchClaimSet_moved (by simpa using h))
    (settles_pure _) fun e old hid hguard => ?_
  have hprepared : old.state = .prepared := by simpa using hguard
  refine Prog.obeys_bind
    (appendEvent_obeys (by simp [hid, hprepared, preDispatchClaimSet])) fun m' _ hm' => ?_
  rw [hm', show (⟨none, m.permit⟩ : Mode) = m from Mode.settled hm]
  refine transition_settles hm
    (fun e row h => preDispatchSentSet_moved (by simp at h; exact h.2))
    (settles_pure _) fun e claimed hid hguard => ?_
  have hdispatching : claimed.state = .dispatching := by
    simp at hguard
    exact hguard.2
  exact obeys_read fun _ =>
    record_obeys (by simp [hid, hdispatching, preDispatchSentSet]) (Mode.settled hm)

theorem reconcileFenceFooter_settles {fence : Fence} (hm : m.owed = none) :
    Settles P p (reconcileFenceFooter P context deps fence) m := by
  refine obeys_read fun verified => ?_
  split
  · exact settles_pure _
  refine obeys_read fun source => ?_
  cases source with
  | none =>
    dsimp only
    split <;> exact settles_pure _
  | some source =>
    dsimp only
    split
    · exact settles_pure _
    split
    · split <;> exact settles_pure _
    refine obeys_after (rewritePreparedBody_settles hm) fun rewritten => ?_
    cases rewritten <;> exact settles_pure _

/-- How a claiming transaction may end: only a committed claim leaves a permit. -/
def ClaimCommitted (m m' : Mode) : ClaimOutcome → Prop
  | .claimed _ claim => m' = { m with permit := some claim.fence.id }
  | _ => m' = m

def ClaimEnds (m m' : Mode) : Prog.End ClaimOutcome → Prop
  | .commit outcome => ClaimCommitted m m' outcome
  | .rollback outcome => ClaimCommitted m m outcome

theorem spendAuthority_obeys {fence : Fence} {permission : Option PermissionScope}
    {plan : SendPlan} {claim : DispatchClaim} :
    (spendAuthority fence permission plan claim).Obeys (Move P) p (ClaimEnds m)
      { m with permit := some claim.fence.id } := by
  refine obeys_read fun spent => ?_
  split
  · exact rfl
  refine obeys_read fun marked => ?_
  split
  · exact rfl
  refine obeys_read fun consumed => ?_
  split
  · exact rfl
  · exact rfl

theorem reserveAndClaim_obeys {fence : Fence} {permission : Option PermissionScope}
    {plan : SendPlan} (hm : m.owed = none) :
    (reserveAndClaim context deps fence permission plan).Obeys (Move P) p (ClaimEnds m) m := by
  refine obeys_read fun reserved => ?_
  split
  · exact obeys_after (holdFence_settles hm) fun held => rfl
  refine Prog.obeys_bind (claimForDispatch_obeys hm) fun m' claim hclaim => ?_
  cases claim with
  | refused reason detail => exact rfl
  | ok claim =>
    rw [show m' = { m with permit := some claim.fence.id } from hclaim]
    exact spendAuthority_obeys

theorem prepareClaim_obeys {fence : Fence} {permission : Option PermissionScope}
    {precheck plan : SendPlan} (hm : m.owed = none) :
    (prepareClaim P context deps fence permission precheck plan).Obeys (Move P) p
      (ClaimEnds m) m := by
  refine obeys_read fun quiet => ?_
  split
  · exact rfl
  refine obeys_read fun early => ?_
  split
  · exact rfl
  split
  · exact rfl
  refine obeys_read fun touch => ?_
  cases touch with
  | some reason => exact rfl
  | none =>
    refine obeys_after (reconcileFenceFooter_settles hm) fun footer => ?_
    cases footer with
    | refused reason detail => exact obeys_after (holdFence_settles hm) fun held => rfl
    | reconciled rewrittenFence rewritten =>
      refine obeys_read fun meeting => ?_
      cases meeting with
      | some reason => exact obeys_after (holdFence_settles hm) fun held => rfl
      | none =>
        refine obeys_read fun pacing => ?_
        cases pacing with
        | some retryAt => exact rfl
        | none =>
          refine obeys_read fun threading => ?_
          cases threading with
          | some reason => exact rfl
          | none => exact reserveAndClaim_obeys hm

theorem recheckAndClaimBody_obeys {id : Uuid} {precheck : SendPlan} (hm : m.owed = none) :
    (recheckAndClaimBody P context deps id precheck).Obeys (Move P) p (ClaimEnds m) m := by
  refine obeys_read fun fence => ?_
  cases fence with
  | none => exact rfl
  | some fence =>
    dsimp only
    split
    · exact rfl
    refine obeys_read fun approved => ?_
    split
    · exact rfl
    refine obeys_read fun permission => obeys_read fun gate => ?_
    cases gate with
    | refused reason detail =>
      exact obeys_after (holdFence_settles hm) fun held => obeys_read fun retryAt => rfl
    | ok plan => exact prepareClaim_obeys hm

/-! ## Committing one by one -/

/-- A single operation's statements commit one by one. -/
theorem committed_of_settles {α β : Type} {Q : Mode → β → Prop} {prog : FenceProg α}
    {f : α → FenceProg β} (hprog : Settles P p prog m)
    (h : ∀ a, (f a).Obeys (Committed P) p Q m) :
    (prog >>= f).Obeys (Committed P) p Q m :=
  Prog.obeys_bind (Prog.obeys_weaken (fun _ _ _ => .statement) hprog) fun _ a hm => hm ▸ h a

theorem committed_read {α β : Type} {Q : Mode → β → Prop} {read : Env → Store → α}
    {f : α → FenceProg β} (h : ∀ a, (f a).Obeys (Committed P) p Q m) :
    (Prog.ask read >>= f).Obeys (Committed P) p Q m :=
  Prog.obeys_ask_bind (fun s => .statement (.still m s)) h

/-- A process may return when it owes the ledger nothing. -/
abbrev Mode.Done (m : Mode) : Prop := m.owed = none

/-- A program that leaves no ledger row owing. -/
abbrev Finishes {α : Type} (P : Platform) (p : ProcessId) (prog : FenceProg α) (m : Mode) :
    Prop :=
  prog.Obeys (Committed P) p (fun m' _ => m'.Done) m

theorem markPreDispatchFenceSent_finishes {input : PreDispatchSentInput} (hm : m.owed = none) :
    Finishes P p (markPreDispatchFenceSent P context input) m := by
  refine committed_read fun current => Prog.obeys_atomically
    (R := fun m' _ => m' = m)
    (obeys_after (recordPreDispatchFenceSent_settles hm) fun _ => rfl)
    (fun s => .statement (.still m s)) (fun s m' s' h => .transaction hm h) ?_ ?_
  · intro m' _ h
    rw [h]
    exact hm
  · intro _ _ _
    exact hm

theorem recheckAndClaim_obeys {id : Uuid} {precheck : SendPlan} (hm : m.owed = none) :
    (recheckAndClaim P context deps id precheck).Obeys (Committed P) p (ClaimCommitted m) m :=
  Prog.obeys_atomically (recheckAndClaimBody_obeys hm) (fun s => .statement (.still m s))
    (fun _ _ _ h => .transaction hm h) (fun _ _ h => h) (fun _ _ h => h)

theorem hold_finishes {fence : Fence} {reason : SendRefusalCode} {detail : Option JsString}
    (hm : m.owed = none) : Finishes P p (hold context deps fence reason detail) m :=
  committed_of_settles (holdFence_settles hm) fun _ =>
    committed_read fun _ => committed_read fun _ => hm

theorem enterReconciling_finishes {id : Uuid} {refusal : Option SendRefusalCode}
    {detail : JsString} (hm : m.owed = none) :
    Finishes P p (enterReconciling context deps id refusal detail) m :=
  committed_read fun _ => committed_read fun _ =>
    committed_of_settles (beginReconciling_settles hm) fun _ => committed_read fun _ => hm

/-- The call spends the permit of the claim. -/
theorem sendClaimed_finishes {claim : DispatchClaim} (hm : m.owed = none)
    (hpermit : m.permit = some claim.fence.id) :
    Finishes P p (sendClaimed context deps claim) m := by
  refine committed_read fun _ => Prog.obeys_bind
    (Q := fun m' _ => m' = { m with permit := none }) ?_ fun m' sent hm' => ?_
  · exact Prog.obeys_effect fun e s => ⟨_, .statement (.call hpermit), rfl⟩
  · have hdone : m'.owed = none := by rw [hm', hm]
    cases sent with
    | sent messageId threadId =>
      refine committed_of_settles (recordSent_settles hdone) fun recorded => ?_
      cases recorded with
      | refused reason detail => exact hdone
      | ok row => exact committed_read fun _ => hdone
    | refused reason => exact enterReconciling_finishes hdone
    | indeterminate detail => exact enterReconciling_finishes hdone

theorem dispatchPrepared_finishes {fence : Fence} (hm : m.owed = none) :
    Finishes P p (dispatchPrepared P context deps fence) m := by
  refine committed_read fun gate => ?_
  cases gate with
  | refused reason detail => exact hold_finishes hm
  | ok precheck =>
    refine committed_read fun access => ?_
    cases access with
    | providerIncident => exact committed_read fun _ => hm
    | refused reason => exact hold_finishes hm
    | granted =>
      refine Prog.obeys_bind (recheckAndClaim_obeys hm) fun m' outcome houtcome => ?_
      cases outcome with
      | notReady refusal detail retryAt =>
        rw [show m' = m from houtcome]
        exact hm
      | held row reason detail retryAt =>
        rw [show m' = m from houtcome]
        exact committed_read fun _ => hm
      | claimed plan claim =>
        rw [show m' = { m with permit := some claim.fence.id } from houtcome]
        exact sendClaimed_finishes hm rfl

theorem dispatchOutboundMessage_finishes {id : Uuid} (hm : m.owed = none) :
    Finishes P p (dispatchOutboundMessage P context deps id) m := by
  refine committed_read fun initial => ?_
  cases initial with
  | none => exact hm
  | some initial =>
    dsimp only
    split
    · exact committed_read fun _ => hm
    · exact committed_read fun _ => hm
    · exact hm
    · exact hm
    · refine committed_read fun live => ?_
      split
      · exact hm
      · exact dispatchPrepared_finishes hm
    · refine committed_read fun live => ?_
      split
      · exact hm
      refine committed_read fun _ => ?_
      refine committed_of_settles (releaseFence_settles hm) fun released => ?_
      cases released with
      | refused reason detail => exact hm
      | ok row => exact dispatchPrepared_finishes hm

theorem observeMiss_finishes {deps : ReconcileDeps} {now : Instant} {fence : Fence}
    (hm : m.owed = none) : Finishes P p (observeMiss context deps now fence) m := by
  refine committed_of_settles recordReconcileMiss_settles fun attempts => ?_
  split
  · exact hm
  refine committed_of_settles (markUnknownTerminal_settles hm) fun terminal => ?_
  cases terminal with
  | refused reason detail => exact hm
  | ok row => exact committed_read fun _ => committed_read fun _ => hm

theorem searchSentFolder_finishes {deps : ReconcileDeps} {now : Instant} {fence : Fence}
    (hm : m.owed = none) : Finishes P p (searchSentFolder context deps now fence) m := by
  refine committed_read fun search => ?_
  cases search with
  | threw => exact committed_read fun _ => hm
  | failed reason =>
    exact committed_read fun _ => committed_of_settles recordReconcileMiss_settles fun _ =>
      committed_read fun _ => hm
  | found messageId threadId =>
    refine committed_read fun _ => committed_of_settles (recordReconciledSent_settles hm)
      fun recorded => ?_
    cases recorded with
    | refused reason detail => exact hm
    | ok row => exact committed_read fun _ => hm
  | absent => exact committed_read fun _ => observeMiss_finishes hm

theorem reconcileOutboundMessage_finishes {deps : ReconcileDeps} {id : Uuid}
    (hm : m.owed = none) : Finishes P p (reconcileOutboundMessage context deps id) m := by
  refine committed_read fun now => committed_read fun fence => ?_
  cases fence with
  | none => exact hm
  | some fence =>
    dsimp only
    split
    · split
      · exact hm
      refine committed_of_settles (beginReconciling_settles hm) fun adopted => ?_
      cases adopted <;> exact hm
    split
    · exact hm
    refine committed_read fun actionRequired => ?_
    split
    · exact hm
    refine committed_read fun wait => ?_
    cases wait with
    | some wait => exact hm
    | none =>
      refine committed_read fun access => ?_
      cases access with
      | providerIncident => exact hm
      | refused reason => exact hm
      | granted => exact searchSentFolder_finishes hm

/-- Every program a process may run obeys `Committed` and returns owing nothing. -/
theorem code_finishes (call : Call) (p : ProcessId) :
    (call.code P).Obeys (Committed P) p (fun m _ => m.Done) Mode.rest := by
  have hrest : Mode.rest.owed = none := rfl
  have settled : ∀ {α : Type} {prog : FenceProg α}, Settles P p prog Mode.rest →
      Finishes P p (discard prog) Mode.rest := fun h => committed_of_settles h fun _ => hrest
  have finished : ∀ {α : Type} {prog : FenceProg α}, Finishes P p prog Mode.rest →
      Finishes P p (discard prog) Mode.rest := fun h => Prog.obeys_bind h fun _ _ hm => hm
  cases call with
  | prepareOutboundMessage context request => exact settled (prepareOutboundMessage_settles hrest)
  | prepareHumanReplyFence context input => exact settled (prepareHumanReplyFence_settles hrest)
  | claimForDispatch context id actor businessDate detail =>
    refine finished (Prog.obeys_weaken (fun _ _ _ => .statement)
      (Prog.obeys_mono ?_ (claimForDispatch_obeys hrest)))
    intro m' claim hclaim
    cases claim <;> rw [hclaim] <;> rfl
  | recordSent context id token messageId threadId actor =>
    exact settled (recordSent_settles hrest)
  | beginReconciling context id detail windowHours actor =>
    exact settled (beginReconciling_settles hrest)
  | recordReconciledSent context id messageId threadId actor =>
    exact settled (recordReconciledSent_settles hrest)
  | recordReconcileMiss id => exact settled recordReconcileMiss_settles
  | markUnknownTerminal context id actor => exact settled (markUnknownTerminal_settles hrest)
  | holdFence context id reason actor => exact settled (holdFence_settles hrest)
  | releaseFence context id actor => exact settled (releaseFence_settles hrest)
  | rewritePreparedBody context input => exact settled (rewritePreparedBody_settles hrest)
  | resolveUnknownTerminal id resolution adminUserId =>
    exact settled (resolveUnknownTerminal_settles hrest)
  | markPreDispatchFenceSent context input =>
    exact finished (markPreDispatchFenceSent_finishes hrest)
  | insertSentTombstone context input => exact settled (insertSentTombstone_settles hrest)
  | dispatchOutboundMessage context deps id =>
    exact finished (dispatchOutboundMessage_finishes hrest)
  | reconcileOutboundMessage context deps id =>
    exact finished (reconcileOutboundMessage_finishes hrest)

end FoundingSales.Outbound
