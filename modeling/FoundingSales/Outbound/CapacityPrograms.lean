import FoundingSales.Outbound.CapacityCommits

/-!
Every program of the capacity model, commit by commit. A claiming transaction is followed
from the fence it locks to its COMMIT; the rest write one row, or quiet rows only.

Proved here:
* `updateFence_fair`, `updatePermission_fair`: one lemma for the statements of one shape;
* `recheckAndClaim_fair`, `recoverSentFolderMessage_fair` and their like;
* `program_obeys`: every commit of every program is fair, and no row it writes is past the
  backstop.
-/

namespace FoundingSales.Outbound.Capacity

open Transactions Tables Sequences

variable {fp fp' : Footprint Row.key} {keys : List RowKey} {P : Platform}

/-! ## The statements on a fence and on a permission -/

/-- What `UPDATE outbound_messages` returned and left. -/
inductive FenceUpdated (id : Uuid) (guard : Fence → Bool) (set : Env → Fence → Fence)
    (fp : Footprint Row.key) : Option Fence → Footprint Row.key → Prop
  | missed (base : Option Row)
      (hmissed : ∀ row, sees fp (.fence id) base = some (.fence row) → guard row = false) :
      FenceUpdated id guard set fp none fp
  | written (e : Env) (base : Option Row) (row : Fence) (fp' : Footprint Row.key)
      (hrow : sees fp (.fence id) base = some (.fence row)) (hgood : rowChecks row = true)
      (hguard : guard row = true) (helse : Elsewhere (.fence id) fp fp')
      (hfind : fp'.find? (.fence id)
        = some ⟨baseOf fp (.fence id) base, .fence (set e row)⟩) :
      FenceUpdated id guard set fp (some (set e row)) fp'

theorem updateFence_fair {id : Uuid} {guard : Fence → Bool} {set : Env → Fence → Fence}
    {Q : Option Fence → Footprint Row.key → Prop} (hq : QuietBut keys fp)
    (hset : .fence id ∉ keys → ∀ e row, guard row = true →
      Row.claim (.fence (set e row)) = Row.claim (.fence row))
    (hQ : ∀ result fp', QuietBut keys fp' → FenceUpdated id guard set fp result fp' →
      Q result fp') :
    Fair Q (updateFence id guard set) fp := by
  refine fair_stmt fun e t base found b effect hsees hact hchecks => ?_
  have hfound := hsees.bind Row.fence?
  split at hact
  · next hnone =>
    obtain ⟨rfl, rfl⟩ := Prod.mk.inj (Option.some.inj hact)
    refine ⟨fun _ _ h => (by cases h), hQ _ _ hq (.missed base fun row hrow => ?_)⟩
    rw [hfound, hrow] at hnone
    cases hnone
  · next row hrow =>
    rw [hfound] at hrow
    obtain ⟨r, hr, hrfence⟩ := Option.bind_eq_some_iff.1 hrow
    obtain ⟨row', rfl⟩ := Row.eq_fence (hsees.key r hr)
    obtain rfl : row' = row := Option.some.inj hrfence
    split at hact
    · next hguard =>
      split at hact
      · obtain ⟨rfl, hkey, rfl⟩ := writes_eq_some hact
        refine ⟨?_, hQ _ _ (hq.touch hsees.key ?_)
          (.written e.env base row' _ hr (hsees.good _ hr) hguard (hsees.elsewhere _)
            (find?_touch_write hkey))⟩
        · intro row hk h
          cases h
          exact hchecks _ hkey rfl
        · intro hk row hk' h
          cases h
          refine preserves_fence hsees.key ?_
          rw [hr]
          exact hset hk e.env row' hguard
      · cases hact
    · next hguard =>
      obtain ⟨rfl, rfl⟩ := Prod.mk.inj (Option.some.inj hact)
      refine ⟨fun _ _ h => (by cases h), hQ _ _ hq (.missed base fun row hrow' => ?_)⟩
      rw [hr] at hrow'
      cases hrow'
      exact Bool.not_eq_true _ ▸ hguard

/-- What `UPDATE follow_up_permissions` returned and left. -/
inductive PermissionUpdated (id : Uuid) (guard : Env → FollowUpPermission → Bool)
    (set : Env → FollowUpPermission → FollowUpPermission) (fp : Footprint Row.key) :
    Option FollowUpPermission → Footprint Row.key → Prop
  | missed : PermissionUpdated id guard set fp none fp
  | written (e : Env) (base : Option Row) (row : FollowUpPermission) (fp' : Footprint Row.key)
      (hrow : sees fp (.permission id) base = some (.permission row))
      (hguard : guard e row = true) (helse : Elsewhere (.permission id) fp fp')
      (hfind : fp'.find? (.permission id)
        = some ⟨baseOf fp (.permission id) base, .permission (set e row)⟩) :
      PermissionUpdated id guard set fp (some (set e row)) fp'

theorem updatePermission_fair {id : Uuid} {guard : Env → FollowUpPermission → Bool}
    {set : Env → FollowUpPermission → FollowUpPermission}
    {Q : Option FollowUpPermission → Footprint Row.key → Prop} (hq : QuietBut keys fp)
    (hset : ∀ e row, guard e row = true → row.Continues (set e row))
    (hQ : ∀ result fp', QuietBut keys fp' → PermissionUpdated id guard set fp result fp' →
      Q result fp') :
    Fair Q (updatePermission id guard set) fp := by
  refine fair_stmt fun e t base found b effect hsees hact hchecks => ?_
  have hfound := hsees.bind Row.permission?
  split at hact
  · obtain ⟨rfl, rfl⟩ := Prod.mk.inj (Option.some.inj hact)
    exact ⟨fun _ _ h => (by cases h), hQ _ _ hq .missed⟩
  · next row hrow =>
    rw [hfound] at hrow
    obtain ⟨r, hr, hrpermission⟩ := Option.bind_eq_some_iff.1 hrow
    obtain ⟨row', rfl⟩ := Row.eq_permission (hsees.key r hr)
    obtain rfl : row' = row := Option.some.inj hrpermission
    split at hact
    · next hguard =>
      simp only at hact
      split at hact
      · cases hact
      · obtain ⟨rfl, hkey, rfl⟩ := writes_eq_some hact
        refine ⟨?_, hQ _ _ (hq.touch hsees.key ?_)
          (.written e.env base row' _ hr hguard (hsees.elsewhere _) (find?_touch_write hkey))⟩
        · intro row hk h
          cases h
          exact hchecks _ hkey rfl
        · intro _ row hk' h
          cases h
          refine preserves_permission hsees.key fun old hold => ?_
          rw [hr] at hold
          cases hold
          exact hset e.env row' hguard
    · obtain ⟨rfl, rfl⟩ := Prod.mk.inj (Option.some.inj hact)
      exact ⟨fun _ _ h => (by cases h), hQ _ _ hq .missed⟩

/-- A quiet transaction commits. -/
theorem commits_quiet_fair {Q : Unit → Footprint Row.key → Prop} (hq : Quiet fp)
    (hQ : Q () .empty) : Fair Q (Tx.commits .quiet) fp :=
  ⟨hq.fair, hQ⟩

theorem holdFence_fair {id : Uuid} {reason : JsString}
    {Q : Option Fence → Footprint Row.key → Prop} (hq : Quiet fp)
    (hQ : ∀ result fp', Quiet fp' → Q result fp') : Fair Q (holdFence id reason) fp :=
  updateFence_fair hq (fun _ _ _ _ => rfl) fun result fp' hq' _ => hQ result fp' hq'

theorem releaseFence_fair {id : Uuid} {Q : Option Fence → Footprint Row.key → Prop}
    (hq : Quiet fp) (hQ : ∀ result fp', Quiet fp' → Q result fp') :
    Fair Q (releaseFence id) fp :=
  updateFence_fair hq (fun _ _ _ _ => rfl) fun result fp' hq' _ => hQ result fp' hq'

theorem notReady_fair {refusal : SendRefusalCode} {detail : Option JsString} :
    Fair (fun _ _ => True) (notReady refusal detail) fp := trivial

theorem holds_fair {id : Uuid} {reason : SendRefusalCode} (hq : Quiet fp) :
    Fair (fun _ _ => True) (holds id reason) fp :=
  fair_bind (holdFence_fair hq fun _ _ hq' => fair_bind (commits_quiet_fair hq' trivial))

/-! ## The claim -/

/-- A claiming transaction: it holds the fence it locked prepared, and the permission. -/
structure Claiming (fence : Fence) (permission : Option FollowUpPermission)
    (fp : Footprint Row.key) : Prop where
  state : fence.state = .prepared
  fence : ∃ row, fp.find? (.fence fence.id) = some ⟨some (.fence fence), .fence row⟩ ∧
    row.mailboxId = fence.mailboxId
  permission : ∀ row, permission = some row →
    fp.find? (.permission row.id) = some ⟨some (.permission row), .permission row⟩

variable {fence : Fence} {permission : Option FollowUpPermission} {plan : CapacityPlan}

theorem Claiming.apart (h : Claiming fence permission fp) (happart : Apart fp fp') :
    Claiming fence permission fp' where
  state := h.state
  fence := by
    obtain ⟨row, hfind, hmailbox⟩ := h.fence
    exact ⟨row, (happart _ (fun _ => by simp) fun _ => by simp).trans hfind, hmailbox⟩
  permission row hrow :=
    (happart _ (fun _ => by simp) fun _ => by simp).trans (h.permission row hrow)

/-- The fence rewritten in place. -/
theorem Claiming.rewritten (h : Claiming fence permission fp)
    (helse : Elsewhere (.fence fence.id) fp fp')
    (hfence : ∃ row, fp'.find? (.fence fence.id) = some ⟨some (.fence fence), .fence row⟩ ∧
      row.mailboxId = fence.mailboxId) : Claiming fence permission fp' where
  state := h.state
  fence := hfence
  permission row hrow := (helse _ (by simp)).trans (h.permission row hrow)

theorem Planned.elsewhere {k : RowKey} (h : Planned plan fp) (helse : Elsewhere k fp fp')
    (hramp : ∀ m, k ≠ .ramp m) (hday : ∀ d, k ≠ .day d) : Planned plan fp' where
  cap := h.cap
  ramp := by
    obtain ⟨base, row, hfind, hcap⟩ := h.ramp
    exact ⟨base, row, (helse _ (hramp _).symm).trans hfind, hcap⟩
  day := by
    obtain ⟨base, day, hfind, hcap⟩ := h.day
    exact ⟨base, day, (helse _ (hday _).symm).trans hfind, hcap⟩

/-- The day is counted within the cap, and everything else is as before. -/
structure Reserved (plan : CapacityPlan) (fp : Footprint Row.key) : Prop where
  cap : plan.cap = effectiveDailyCap plan.ramp
  ramp : RampHeld plan.mailbox.id plan.ramp fp
  day : ∃ base day, fp.find? (.day (plan.mailbox.id, plan.businessDate))
      = some ⟨base, .day (countOne day)⟩ ∧ Preserves base (.day day) ∧ day.automatedSent < plan.cap

theorem Reserved.elsewhere {k : RowKey} (h : Reserved plan fp) (helse : Elsewhere k fp fp')
    (hramp : ∀ m, k ≠ .ramp m) (hday : ∀ d, k ≠ .day d) : Reserved plan fp' where
  cap := h.cap
  ramp := by
    obtain ⟨base, row, hfind, hcap⟩ := h.ramp
    exact ⟨base, row, (helse _ (hramp _).symm).trans hfind, hcap⟩
  day := by
    obtain ⟨base, day, hfind, hrest⟩ := h.day
    exact ⟨base, day, (helse _ (hday _).symm).trans hfind, hrest⟩

/-- The fence is claimed on the plan's mailbox and date. -/
structure Claimed (fence : Fence) (plan : CapacityPlan) (fp : Footprint Row.key) : Prop where
  quiet : QuietBut [.day (plan.mailbox.id, plan.businessDate), .fence fence.id] fp
  reserved : Reserved plan fp
  state : fence.state = .prepared
  fence : ∃ row, fp.find? (.fence fence.id) = some ⟨some (.fence fence), .fence row⟩ ∧
    row.state = .dispatching ∧ row.attemptToken.isSome ∧ row.mailboxId = plan.mailbox.id ∧
    row.businessDate = some plan.businessDate

/-- What the claim's COMMIT adds to a total that only the day and the fence weigh in. -/
theorem Claimed.total {weight : Touched Row → Int} (h : Claimed fence plan fp)
    (hneutral : ∀ entry ∈ fp, Neutral entry → weight entry = 0) :
    ∃ base day row, fp.find? (.day (plan.mailbox.id, plan.businessDate))
        = some ⟨base, .day (countOne day)⟩ ∧
      fp.find? (.fence fence.id) = some ⟨some (.fence fence), .fence row⟩ ∧
      fp.total weight = weight ⟨base, .day (countOne day)⟩
        + weight ⟨some (.fence fence), .fence row⟩ := by
  obtain ⟨base, day, hday, -⟩ := h.reserved.day
  obtain ⟨row, hrow, -⟩ := h.fence
  refine ⟨base, day, row, hday, hrow, ?_⟩
  rw [Table.total_of_keys (k := .day (plan.mailbox.id, plan.businessDate))
    (l := .fence fence.id) (by simp), hday, hrow]
  · rfl
  · intro entry hentry hk hk'
    refine hneutral entry hentry (h.quiet entry hentry ?_)
    simp only [List.mem_cons, List.not_mem_nil, or_false, not_or]
    exact ⟨hk, hk'⟩

/-- The rows a claim's COMMIT writes: the counted day, the started fence, and neutral ones. -/
theorem Claimed.entry_cases (h : Claimed fence plan fp) {entry : Touched Row} (hentry : entry ∈ fp) :
    Neutral entry ∨
      (∃ base day, entry = ⟨base, .day (countOne day)⟩ ∧ Preserves base (.day day)) ∨
      ∃ row, entry = ⟨some (.fence fence), .fence row⟩ := by
  by_cases hday : entry.current.key = .day (plan.mailbox.id, plan.businessDate)
  · obtain ⟨base, day, hfind, hpreserves, -⟩ := h.reserved.day
    rw [Table.find?_eq_some.2 ⟨hentry, hday⟩] at hfind
    exact .inr (.inl ⟨base, day, Option.some.inj hfind, hpreserves⟩)
  · by_cases hfence : entry.current.key = .fence fence.id
    · obtain ⟨row, hfind, -⟩ := h.fence
      rw [Table.find?_eq_some.2 ⟨hentry, hfence⟩] at hfind
      exact .inr (.inr ⟨row, Option.some.inj hfind⟩)
    · refine .inl (h.quiet entry hentry ?_)
      simp only [List.mem_cons, List.not_mem_nil, or_false, not_or]
      exact ⟨hday, hfence⟩

theorem Claimed.sent (h : Claimed fence plan fp) (hgood : GoodRows good fp) (m : Uuid)
    (d : BusinessDate) :
    fp.total (Touched.delta (sentOn m d)) = one ((CapacityNote.claimed plan permission).claims m d) := by
  obtain ⟨base, day, row, hday, hfence, htotal⟩ := h.total fun entry hentry hneutral =>
    hneutral.delta_sent (fun r hr => ((hgood entry hentry).2 r hr).2) m d
  obtain ⟨base', day', hday', hpreserves, -⟩ := h.reserved.day
  rw [hday] at hday'
  obtain ⟨rfl, hcount⟩ := Touched.mk.inj (Option.some.inj hday')
  have hsame : countOne day = countOne day' := Row.day.inj hcount
  obtain ⟨hmem, hkey⟩ := Table.find?_eq_some.1 hday
  have hbaseKey := fun r hr => ((hgood _ hmem).2 r hr).2
  have hsent : day.automatedSent = (base.map Row.sent).getD 0 := by
    have hcounts := congrArg SendDay.automatedSent hsame
    have hold := hpreserves.sent
    simp only [countOne, Row.sent] at hcounts hold
    omega
  rw [htotal]
  have hfenceZero : Touched.delta (sentOn m d) ⟨some (.fence fence), .fence row⟩ = 0 := by
    simp [Touched.delta, sentOn, Row.key]
  rw [hfenceZero, Int.add_zero, Touched.delta, sentOn, hkey]
  simp only [Row.sent, countOne, CapacityNote.claims, one, RowKey.day.injEq, Prod.mk.injEq,
    Bool.and_eq_true, decide_eq_true_eq]
  cases base with
  | none =>
    simp only [Option.map_none, Option.getD_none] at hsent ⊢
    rw [hsent]
    split_ifs <;> rfl
  | some r =>
    have hr := (hbaseKey r rfl).trans hkey
    simp only [Option.map_some, Option.getD_some, sentOn, hr, RowKey.day.injEq, Prod.mk.injEq]
      at hsent ⊢
    rw [hsent]
    split_ifs <;> omega

theorem Claimed.claimed {p : Option FollowUpPermission} (h : Claimed fence plan fp)
    (hgood : GoodRows good fp) (m : Uuid) (d : BusinessDate) :
    fp.total (Touched.delta (claimWeight m d))
      = one ((CapacityNote.claimed plan p).claims m d) := by
  obtain ⟨base, day, row, hday, hfence, htotal⟩ := h.total fun entry hentry hneutral =>
    hneutral.delta_claim m d
  obtain ⟨row', hfence', -, htoken, hmailbox, hdate⟩ := h.fence
  rw [hfence] at hfence'
  obtain ⟨-, hrow⟩ := Touched.mk.inj (Option.some.inj hfence')
  obtain rfl := Row.fence.inj hrow
  obtain ⟨hmem, -⟩ := Table.find?_eq_some.1 hfence
  have hunclaimed : fence.attemptToken.isSome = false := by
    have hold := started_of_checks ((hgood _ hmem).2 _ rfl).1
    rw [h.state] at hold
    exact hold.symm
  obtain ⟨hdayMem, hdayKey⟩ := Table.find?_eq_some.1 hday
  have hbase : base.bind Row.claim = none := by
    cases base with
    | none => rfl
    | some r =>
      obtain ⟨r', rfl⟩ := Row.eq_day (((hgood _ hdayMem).2 r rfl).2.trans hdayKey)
      rfl
  have hdayZero : Touched.delta (claimWeight m d) ⟨base, .day (countOne day)⟩ = 0 := by
    unfold Touched.delta claimWeight
    simp only [Row.claimedOn_iff]
    cases base with
    | none => rfl
    | some r =>
      have hday : (Row.day (countOne day)).claim = none := rfl
      simp only [Option.bind_some] at hbase
      simp [hday, hbase]
  rw [htotal, hdayZero, Touched.delta, Option.map_some, Option.getD_some]
  simp only [claimWeight, Row.claimedOn_iff, Row.claim, htoken, hunclaimed, hmailbox, hdate,
    CapacityNote.claims, one, ↓reduceIte, Option.some.injEq, Prod.mk.injEq, Bool.and_eq_true,
    decide_eq_true_eq, Bool.false_eq_true, reduceCtorEq]
  omega

theorem Claimed.starts (h : Claimed fence plan fp) (hgood : GoodRows good fp) (m : Uuid)
    (d : BusinessDate) :
    fp.total (startWeight m d) = one ((CapacityNote.claimed plan permission).claims m d) := by
  obtain ⟨base, day, row, hday, hfence, htotal⟩ := h.total fun entry hentry hneutral =>
    hneutral.starts (fun r hr => ((hgood entry hentry).2 r hr).1) (hgood entry hentry).1 m d
  obtain ⟨row', hfence', hstate, -, hmailbox, hdate⟩ := h.fence
  rw [hfence] at hfence'
  obtain ⟨-, hrow⟩ := Touched.mk.inj (Option.some.inj hfence')
  obtain rfl := Row.fence.inj hrow
  have hdayZero : startWeight m d ⟨base, .day (countOne day)⟩ = 0 := by
    simp [startWeight, Row.startsOn, Row.fence?]
  rw [htotal, hdayZero]
  simp [startWeight, Row.startsOn, Row.isPrepared, Row.fence?, h.state, hstate, hmailbox, hdate,
    CapacityNote.claims, one]

theorem Claimed.fair (h : Claimed fence plan fp) (hgood : GoodRows good fp)
    (hspends : ∀ row, permission = some row → row.scope.oneMessage = true → Spends row fp) :
    FairCommit (.claimed plan permission) fp where
  caps entry hentry := by
    rcases h.entry_cases hentry with hneutral | ⟨base, day, rfl, hpreserves⟩ | ⟨row, rfl⟩
    · exact hneutral.cap
    · exact hpreserves.cap
    · rintro _ ⟨⟩
      exact Int.le_refl _
  permissions entry hentry := by
    rcases h.entry_cases hentry with hneutral | ⟨base, day, rfl, hpreserves⟩ | ⟨row, rfl⟩
    · exact hneutral.permission
    · exact hpreserves.permission
    · rintro _ ⟨⟩
  sent m d := h.sent hgood m d
  claimed m d := by
    rw [h.claimed (p := permission) hgood m d]
    exact (Int.add_zero _).symm
  starts m d := h.starts hgood m d
  decided plan' permission' heq := by
    cases heq
    obtain ⟨base, day, hday, -, hlt⟩ := h.reserved.day
    exact ⟨h.reserved.cap, h.reserved.ramp, base, countOne day, hday, by simp only [countOne]; omega⟩
  spent plan' row heq hone := by
    cases heq
    exact hspends row rfl hone

theorem commitClaim_fair {claim : Fence} (h : Claimed fence plan fp)
    (hspends : ∀ row, permission = some row → row.scope.oneMessage = true → Spends row fp) :
    Fair (fun _ _ => True) (commitClaim fence permission plan claim) fp := by
  refine fair_answer fun marked => ?_
  split
  · exact notReady_fair
  · refine fair_answer fun consumed => ?_
    split
    · exact notReady_fair
    · exact fair_bind ⟨fun hgood => h.fair hgood hspends, trivial⟩

/-- The consumption is of the row the transaction locked, and leaves the rest. -/
theorem consume_fair {claim : Fence} {row : FollowUpPermission} (h : Claimed fence plan fp)
    (hlocked : fp.find? (.permission row.id) = some ⟨some (.permission row), .permission row⟩) :
    Fair (fun _ _ => True) (do
      let consumed ← consumeFollowUpPermission row.id
      afterConsumption fence row plan claim consumed) fp := by
  have hbaseOf : ∀ base, baseOf fp (.permission row.id) base = some (.permission row) := by
    intro base
    rw [baseOf, hlocked]
  have hsees : ∀ base old, sees fp (.permission row.id) base = some (.permission old) →
      old = row := by
    intro base old hold
    rw [sees, hlocked] at hold
    exact (Row.permission.inj (Option.some.inj hold)).symm
  have hspendable : ∀ e (old : FollowUpPermission), old.spendable e = true →
      old.scope.oneMessage = true ∧ old.consumedAt = none ∧ old.live e = true := by
    intro e old hold
    simpa [FollowUpPermission.spendable, and_assoc] using hold
  refine fair_bind (updatePermission_fair h.quiet (fun e old hold => ?_) fun result fp' hq'
    hupdated => ?_)
  · exact spend_continues (by simp [(hspendable e old hold).2.1])
  · cases hupdated with
    | missed => exact notReady_fair
    | written e base old fp' hold hguard helse hfind =>
      obtain rfl := hsees base old hold
      obtain ⟨-, hunspent, hlive⟩ := hspendable e _ hguard
      have hunrevoked : old.revokedAt = none := by
        simp only [FollowUpPermission.live, Bool.and_eq_true, Option.isNone_iff_eq_none] at hlive
        exact hlive.1
      refine commitClaim_fair ⟨hq', ?_, h.state, ?_⟩ fun row hrow _ => ?_
      · exact h.reserved.elsewhere helse (by simp) (by simp)
      · obtain ⟨claimed, hclaimed, hrest⟩ := h.fence
        exact ⟨claimed, (helse _ (by simp)).trans hclaimed, hrest⟩
      · cases hrow
        refine ⟨hunspent, hunrevoked, e, ?_⟩
        rw [hfind, hbaseOf]

theorem spendAuthority_fair {claim : Fence} (h : Claimed fence plan fp)
    (hlocked : ∀ row, permission = some row →
      fp.find? (.permission row.id) = some ⟨some (.permission row), .permission row⟩) :
    Fair (fun _ _ => True) (spendAuthority fence permission plan claim) fp := by
  cases permission with
  | none => exact commitClaim_fair h fun _ hrow => by cases hrow
  | some row =>
    by_cases hscope : row.scope.oneMessage = true
    · simp only [spendAuthority, hscope, ↓reduceIte]
      exact consume_fair h (hlocked row rfl)
    · simp only [spendAuthority, hscope]
      refine fair_read fun live => ?_
      split
      · refine commitClaim_fair h fun row' hrow hone => ?_
        cases hrow
        exact absurd hone hscope
      · exact notReady_fair

/-- The reservation counts the day once, and the claim starts the fence on it. -/
theorem reserveAndClaim_fair (hq : Quiet fp) (h : Claiming fence permission fp)
    (hplan : Planned plan fp) (hmailbox : plan.mailbox.id = fence.mailboxId) :
    Fair (fun _ _ => True) (reserveAndClaim fence permission plan) fp := by
  refine fair_bind (fair_stmt fun e t base found b effect hsees hact hchecks => ?_)
  obtain ⟨baseDay, day, hday, hcap⟩ := hplan.day
  have hrow : sees fp (.day (plan.mailbox.id, plan.businessDate)) base = some (.day day) := by
    rw [sees, hday]
  have hbase : baseOf fp (.day (plan.mailbox.id, plan.businessDate)) base = baseDay := by
    rw [baseOf, hday]
  have hfound := hsees.bind Row.day?
  rw [hrow] at hfound
  change (found.bind fun r => r.1.day?) = some day at hfound
  rw [hfound] at hact
  simp only at hact
  split at hact
  · next hlt =>
    obtain ⟨rfl, hkey, rfl⟩ := writes_eq_some hact
    have hquiet : QuietBut [.day (plan.mailbox.id, plan.businessDate)]
        (touch fp (.day (plan.mailbox.id, plan.businessDate)) base (.write _ hkey)) :=
      (hq.mono (by simp)).touch hsees.key fun hk => absurd List.mem_cons_self hk
    have helse := hsees.elsewhere (.write _ hkey)
    have happart := helse.apart_day
    have hreserved : Reserved plan
        (touch fp (.day (plan.mailbox.id, plan.businessDate)) base (.write _ hkey)) := by
      refine ⟨hplan.cap, ?_, baseDay, day, hbase ▸ find?_touch_write hkey, ?_, hlt⟩
      · obtain ⟨baseRamp, ramp, hfind, heq⟩ := hplan.ramp
        exact ⟨baseRamp, ramp, (helse _ (by simp)).trans hfind, heq⟩
      · exact hq _ (Table.find?_eq_some.1 hday).1 List.not_mem_nil
    have hclaiming := h.apart happart
    generalize touch fp (.day (plan.mailbox.id, plan.businessDate)) base (.write _ hkey) = fp₁
      at hquiet hreserved hclaiming ⊢
    refine ⟨fun row' hk h => ?_, ?_⟩
    · cases h
      refine Bool.and_eq_true_iff.2 ⟨hchecks _ hkey rfl, decide_eq_true ?_⟩
      simp only [countOne]
      omega
    · have hquiet' : QuietBut [.day (plan.mailbox.id, plan.businessDate), .fence fence.id] fp₁ :=
        hquiet.mono (by simp)
      refine fair_bind (updateFence_fair hquiet' (fun hk => absurd (by simp) hk) ?_)
      intro result fp₂ hquiet₂ hupdated
      cases hupdated with
      | missed => exact notReady_fair
      | written e base row fp₂ hsees₂ hgood hguard helse₂ hfind =>
        obtain ⟨cur, hcur, hcurMailbox⟩ := hclaiming.fence
        rw [sees, hcur] at hsees₂
        obtain rfl := Row.fence.inj (Option.some.inj hsees₂)
        rw [baseOf, hcur] at hfind
        refine spendAuthority_fair ⟨hquiet₂, hreserved.elsewhere helse₂ (by simp) (by simp),
          h.state, _, hfind, rfl, rfl, ?_, rfl⟩ fun row' hrow' => ?_
        · exact hcurMailbox.trans hmailbox.symm
        · exact (helse₂ _ (by simp)).trans (hclaiming.permission row' hrow')
  · obtain ⟨rfl, rfl⟩ := Prod.mk.inj (Option.some.inj hact)
    exact ⟨fun _ _ h => (by cases h), holds_fair hq⟩

/-- The rest of a claim after the footer. -/
private theorem afterFooter_fair (hq : Quiet fp) (h : Claiming fence permission fp)
    (hplan : Planned plan fp) (hmailbox : plan.mailbox.id = fence.mailboxId) :
    Fair (fun _ _ => True) (do
      if (← answer fun e => e.env.meetingRefusal).isSome then
        let _ ← holdFence fence.id (js "follow_up_not_permitted")
        Tx.commits .quiet
        return .held .stepIneligible
      else if (← answer fun e => e.env.pacingRetryAt).isSome then
        notReady .stepIneligible (some (js "mailbox_pacing"))
      else
        match ← answer fun e => e.env.threadingRefusal with
        | some reason => notReady .stepIneligible (some reason)
        | none => reserveAndClaim fence permission plan) fp := by
  refine fair_answer fun meeting => ?_
  split
  · exact fair_bind (holdFence_fair hq fun _ _ hq' => fair_bind (commits_quiet_fair hq' trivial))
  · refine fair_answer fun pacing => ?_
    split
    · exact notReady_fair
    · refine fair_answer fun threading => ?_
      split
      · exact notReady_fair
      · exact reserveAndClaim_fair hq h hplan hmailbox

theorem prepareClaim_fair {precheck : CapacityPlan} (hq : Quiet fp)
    (h : Claiming fence permission fp) (hplan : Planned plan fp)
    (hmailbox : plan.mailbox.id = fence.mailboxId) :
    Fair (fun _ _ => True) (prepareClaim P fence permission precheck plan) fp := by
  refine fair_answer fun quietWindow => ?_
  split
  · exact notReady_fair
  refine fair_answer fun early => ?_
  split
  · exact notReady_fair
  split
  · exact notReady_fair
  refine fair_answer fun touch => ?_
  split
  · exact notReady_fair
  refine fair_answer fun footer => ?_
  split
  · exact holds_fair hq
  split
  · refine fair_bind (updateFence_fair hq (fun _ _ _ _ => rfl) fun result fp' hq' hupdated => ?_)
    cases hupdated with
    | missed => exact afterFooter_fair hq' h hplan hmailbox
    | written e base row fp' hrow hgood hguard helse hfind =>
      refine afterFooter_fair hq' (h.rewritten helse ?_) ?_ hmailbox
      · obtain ⟨cur, hcur, hcurMailbox⟩ := h.fence
        rw [sees, hcur] at hrow
        obtain rfl := Row.fence.inj (Option.some.inj hrow)
        rw [baseOf, hcur] at hfind
        exact ⟨_, hfind, hcurMailbox⟩
      · exact hplan.elsewhere helse (by simp) (by simp)
  · exact afterFooter_fair hq h hplan hmailbox

theorem lockFenceForClaim_fair {id : Uuid} {Q : Option Fence → Footprint Row.key → Prop}
    (hQ : ∀ fence fp', Quiet fp' → Elsewhere (.fence id) .empty fp' →
      (∀ row, fence = some row →
        fp'.find? (.fence row.id) = some ⟨some (.fence row), .fence row⟩) → Q fence fp') :
    Fair Q (lockFenceForClaim id) .empty := by
  refine fair_stmt fun e t base found fence effect hsees hact hchecks => ?_
  obtain ⟨rfl, rfl⟩ := Prod.mk.inj (Option.some.inj hact)
  refine ⟨fun _ _ h => (by cases h), hQ _ _ (quiet_empty.touch hsees.key fun _ _ _ h => by cases h)
    (hsees.elsewhere _) fun row hrow => ?_⟩
  rw [hsees.bind Row.fence?] at hrow
  obtain ⟨r, hr, hrfence⟩ := Option.bind_eq_some_iff.1 hrow
  have hkey := hsees.key r hr
  obtain ⟨row', rfl⟩ := Row.eq_fence hkey
  obtain rfl : row' = row := Option.some.inj hrfence
  obtain rfl : row'.id = id := RowKey.fence.inj hkey
  rw [find?_touch_lock hkey hr]
  exact congrArg some (congrArg (Touched.mk · _) hr)

theorem lockPermissionForClaim_fair {Q : Option FollowUpPermission → Footprint Row.key → Prop}
    (hq : Quiet fp) (hnone : ∀ id, fp.find? (.permission id) = none)
    (hQ : ∀ permission fp', Quiet fp' → (∀ id, fp'.find? (.fence id) = fp.find? (.fence id)) →
      (∀ row, permission = some row →
        fp'.find? (.permission row.id) = some ⟨some (.permission row), .permission row⟩) →
      Q permission fp') :
    Fair Q lockPermissionForClaim fp := by
  refine fair_answer fun permissionId => ?_
  cases permissionId with
  | none => exact hQ none fp hq (fun _ => rfl) fun _ h => by cases h
  | some permissionId =>
    refine fair_stmt fun e t base found permission effect hsees hact hchecks => ?_
    obtain ⟨rfl, rfl⟩ := Prod.mk.inj (Option.some.inj hact)
    refine ⟨fun _ _ h => (by cases h), hQ _ _ (hq.touch hsees.key fun _ _ _ h => by cases h)
      (fun id => hsees.elsewhere _ _ (by simp)) fun row hrow => ?_⟩
    rw [hsees.bind Row.permission?] at hrow
    obtain ⟨r, hr, hrpermission⟩ := Option.bind_eq_some_iff.1 hrow
    have hkey := hsees.key r hr
    obtain ⟨row', rfl⟩ := Row.eq_permission hkey
    obtain rfl : row' = row := Option.some.inj hrpermission
    obtain rfl : row'.id = permissionId := RowKey.permission.inj hkey
    have hbase : baseOf fp (.permission row'.id) base = some (.permission row') := by
      rw [sees, hnone] at hr
      rw [baseOf, hnone]
      exact hr
    rw [find?_touch_lock hkey hr, hbase]

/-- The transaction of a claim, from BEGIN. -/
theorem recheckAndClaim_fair {id : Uuid} {precheck : CapacityPlan} :
    Fair (fun _ _ => True) (recheckAndClaim P id precheck) .empty := by
  refine fair_bind (lockFenceForClaim_fair fun found fp hq helse hlocked => ?_)
  cases found with
  | none => exact notReady_fair
  | some fence =>
    simp only
    split
    · exact notReady_fair
    next hstate =>
    refine fair_answer fun approved => ?_
    split
    · exact notReady_fair
    have hnone : ∀ id, fp.find? (.permission id) = none := fun id => helse _ (by simp)
    refine fair_bind (lockPermissionForClaim_fair hq hnone fun permission fp₁ hq₁ hfences hheld => ?_)
    have hclaiming : Claiming fence permission fp₁ :=
      ⟨by simpa using hstate, ⟨fence, (hfences _).trans (hlocked fence rfl), rfl⟩, hheld⟩
    refine fair_bind (decideSend_fair hq₁ fun result fp₂ hq₂ hplanned => ?_)
    obtain ⟨happart, hplanned⟩ := hplanned rfl
    cases result with
    | refused reason detail => exact holds_fair hq₂
    | ok plan =>
      obtain ⟨hplan, hmailbox⟩ := hplanned plan rfl
      exact prepareClaim_fair hq₂ (hclaiming.apart happart) hplan hmailbox

/-! ## The admin's caps -/

theorem lockRamp_fair {mailboxId : Uuid} {Q : Option RampDbRow → Footprint Row.key → Prop}
    (hq : Quiet fp) (hQ : ∀ result fp', Quiet fp' → Q result fp') :
    Fair Q (lockRamp mailboxId) fp := by
  refine fair_stmt fun e t base found result effect hsees hact hchecks => ?_
  obtain ⟨rfl, rfl⟩ := Prod.mk.inj (Option.some.inj hact)
  exact ⟨fun _ _ h => (by cases h), hQ _ _ (hq.touch hsees.key fun _ _ _ h => by cases h)⟩

theorem updateRampRow_fair {mailboxId : Uuid} {set : RampDbRow → RampDbRow}
    {Q : Option RampDbRow → Footprint Row.key → Prop} (hq : Quiet fp)
    (hQ : ∀ result fp', Quiet fp' → Q result fp') :
    Fair Q (updateRampRow mailboxId set) fp := by
  refine fair_stmt fun e t base found result effect hsees hact hchecks => ?_
  split at hact
  · obtain ⟨rfl, rfl⟩ := Prod.mk.inj (Option.some.inj hact)
    exact ⟨fun _ _ h => (by cases h), hQ _ _ hq⟩
  · obtain ⟨rfl, hkey, rfl⟩ := writes_eq_some hact
    refine ⟨fun row hk h => ?_, hQ _ _ (hq.touch hsees.key fun _ row hk h => ?_)⟩
    · cases h
      exact hchecks _ hkey rfl
    · cases h
      exact preserves_ramp hsees.key _

theorem setAdminCap_fair {mailboxId : Uuid} {lowerTo raiseTo : Option (Option Int)} :
    Fair (fun _ _ => True) (setAdminCap mailboxId lowerTo raiseTo) .empty := by
  have hrefuse : ∀ (reason : AdminCapRefusal) fp', Quiet fp' → Fair (fun _ _ => True)
      (do Tx.commits .quiet; return some reason : CapacityTx (Option AdminCapRefusal)) fp' :=
    fun _ _ hq => fair_bind (commits_quiet_fair hq trivial)
  unfold setAdminCap
  split
  · exact hrefuse _ _ quiet_empty
  split
  · exact hrefuse _ _ quiet_empty
  split
  · exact hrefuse _ _ quiet_empty
  refine fair_read fun known => ?_
  split
  · exact hrefuse _ _ quiet_empty
  refine fair_bind (ensureRamp_fair quiet_empty fun _ fp₁ hq₁ _ => ?_)
  refine fair_bind (lockRamp_fair hq₁ fun current fp₂ hq₂ => ?_)
  cases current with
  | none => exact hrefuse _ _ hq₂
  | some current =>
    refine fair_answer fun streak => ?_
    split
    · exact hrefuse _ _ hq₂
    · exact fair_bind (updateRampRow_fair hq₂ fun _ _ hq₃ =>
        fair_bind (commits_quiet_fair hq₃ trivial))

theorem overrideRaise_fair {mailboxId : Uuid} {raiseTo : Option Int} :
    Fair (fun _ _ => True) (overrideRaise mailboxId raiseTo) .empty := by
  unfold overrideRaise
  split
  · exact fair_bind (commits_quiet_fair quiet_empty trivial)
  refine fair_answer fun known => ?_
  split
  · exact fair_bind (commits_quiet_fair quiet_empty trivial)
  refine fair_bind (ensureRamp_fair quiet_empty fun _ fp₁ hq₁ _ => ?_)
  exact fair_bind (updateRampRow_fair hq₁ fun _ _ hq₂ => fair_bind (commits_quiet_fair hq₂ trivial))

/-! ## The restore -/

/-- The transaction gave one fence its token, and marked it sent. -/
structure Restored (row : Fence) (fp : Footprint Row.key) : Prop where
  quiet : QuietBut [.fence row.id] fp
  state : row.state = .sent
  token : row.attemptToken.isSome
  fence : ∃ base, fp.find? (.fence row.id) = some ⟨base, .fence row⟩ ∧ base.bind Row.claim = none

theorem Restored.total {row : Fence} {weight : Touched Row → Int} (h : Restored row fp)
    (hneutral : ∀ entry ∈ fp, Neutral entry → weight entry = 0) :
    ∃ base, ⟨base, .fence row⟩ ∈ fp ∧ base.bind Row.claim = none ∧
      fp.total weight = weight ⟨base, .fence row⟩ := by
  obtain ⟨base, hfind, hclaim⟩ := h.fence
  refine ⟨base, (Table.find?_eq_some.1 hfind).1, hclaim, ?_⟩
  rw [Table.total_of_key (k := .fence row.id), hfind]
  · rfl
  · intro entry hentry hk
    exact hneutral entry hentry (h.quiet entry hentry (by simpa using hk))

theorem Restored.entry_cases {row : Fence} (h : Restored row fp) {entry : Touched Row}
    (hentry : entry ∈ fp) : Neutral entry ∨ entry.current = .fence row := by
  by_cases hk : entry.current.key = .fence row.id
  · obtain ⟨base, hfind, -⟩ := h.fence
    rw [Table.find?_eq_some.2 ⟨hentry, hk⟩] at hfind
    exact .inr (congrArg Touched.current (Option.some.inj hfind))
  · exact .inl (h.quiet entry hentry (by simpa using hk))

theorem sentOn_of_fence {row : Row} {id m : Uuid} {d : BusinessDate} (h : row.key = .fence id) :
    sentOn m d row = 0 :=
  if_neg (by rw [h]; simp)

theorem Restored.fair {row : Fence} (h : Restored row fp) (hgood : GoodRows good fp) :
    FairCommit (.restored row.mailboxId row.businessDate) fp where
  caps entry hentry := by
    rcases h.entry_cases hentry with hneutral | hcurrent
    · exact hneutral.cap
    · intro r hr
      have hkey := ((hgood entry hentry).2 r hr).2
      rw [hcurrent] at hkey ⊢
      obtain ⟨r', rfl⟩ := Row.eq_fence hkey
      exact Int.le_refl _
  permissions entry hentry := by
    rcases h.entry_cases hentry with hneutral | hcurrent
    · exact hneutral.permission
    · intro p hp
      obtain ⟨r, hr, hrp⟩ := Option.bind_eq_some_iff.1 hp
      have hkey := ((hgood entry hentry).2 r hr).2
      rw [hcurrent] at hkey
      obtain ⟨r', rfl⟩ := Row.eq_fence hkey
      cases hrp
  sent m d := by
    obtain ⟨base, hmem, -, htotal⟩ := h.total fun entry hentry hneutral =>
      hneutral.delta_sent (fun r hr => ((hgood entry hentry).2 r hr).2) m d
    rw [htotal, Touched.delta, sentOn_of_fence rfl]
    cases base with
    | none => rfl
    | some r =>
      have hkey : r.key = .fence row.id := ((hgood _ hmem).2 r rfl).2
      rw [Option.map_some, Option.getD_some, sentOn_of_fence hkey]
      rfl
  claimed m d := by
    obtain ⟨base, hmem, hclaim, htotal⟩ := h.total fun entry hentry hneutral =>
      hneutral.delta_claim m d
    have hbase : (base.map (claimWeight m d)).getD 0 = 0 := by
      cases base with
      | none => rfl
      | some r =>
        have hr : r.claim = none := hclaim
        simp [claimWeight, Row.claimedOn_iff, hr]
    rw [htotal, Touched.delta, hbase]
    simp only [claimWeight, Row.claimedOn_iff, Row.claim, h.token, ↓reduceIte, Option.some.injEq,
      Prod.mk.injEq, one, CapacityNote.claims, CapacityNote.restores, Bool.and_eq_true,
      decide_eq_true_eq]
    simp
  starts m d := by
    obtain ⟨base, -, -, htotal⟩ := h.total fun entry hentry hneutral =>
      hneutral.starts (fun r hr => ((hgood entry hentry).2 r hr).1) (hgood entry hentry).1 m d
    rw [htotal]
    simp [startWeight, Row.startsOn, Row.fence?, h.state, one, CapacityNote.claims]
  decided _ _ h := by cases h
  spent _ _ h := by cases h

/-- A restore's commit, whether or not it gave a token. -/
theorem commits_restored_fair {result : Option Fence} (hnone : result = none → Quiet fp)
    (hsome : ∀ row, result = some row → Restored row fp) :
    Fair (fun _ _ => True) (Tx.commits (restoredNote result)) fp := by
  cases result with
  | none => exact commits_quiet_fair (hnone rfl) trivial
  | some row => exact ⟨fun hgood => (hsome row rfl).fair hgood, trivial⟩

theorem claim_none_of_prepared {row : Fence} (hgood : rowChecks row = true)
    (hstate : row.state = .prepared) : Row.claim (.fence row) = none := by
  have htoken := started_of_checks hgood
  rw [hstate] at htoken
  simp [Row.claim, ← htoken, OutboundState.started]

/-- The mark gives the fence a token and calls it sent, or finds no prepared fence. -/
theorem markPreDispatchFenceSent_fair {input : PreDispatchSentInput}
    {Q : Option Fence → Footprint Row.key → Prop} (hq : Quiet fp)
    (hQ : ∀ result fp', (result = none → Quiet fp') →
      (∀ row, result = some row → Restored row fp') → Q result fp') :
    Fair Q (markPreDispatchFenceSent P input) fp := by
  refine fair_read fun current => ?_
  have hmark : ∀ next : Option Fence → CapacityTx (Option Fence), next none = pure none →
      (∀ claimed, next (some claimed) = updateFence input.outboundMessageId
        (fun row => row.attemptToken == claimed.attemptToken && row.state == .dispatching)
        (preDispatchSentSet input)) → ∀ fp₁, Quiet fp₁ →
      Fair Q (updateFence input.outboundMessageId (fun row => row.state == .prepared)
        (preDispatchClaimSet P input) >>= next) fp₁ := by
    intro next hnone hsome fp₁ hq₁
    have hq₁' : QuietBut [.fence input.outboundMessageId] fp₁ := hq₁.mono (by simp)
    refine fair_bind (updateFence_fair hq₁' (fun hk => absurd (by simp) hk) ?_)
    intro result fp₂ hq₂ hupdated
    cases hupdated with
    | missed =>
      rw [hnone]
      exact hQ none _ (fun _ => hq₁) fun _ h => by cases h
    | written e base row fp₂ hrow hgood hguard helse hfind =>
      rw [hsome]
      refine updateFence_fair hq₂ (fun hk => absurd (by simp) hk) fun result fp₃ hq₃ hupdated => ?_
      have hsees : ∀ base', sees fp₂ (.fence input.outboundMessageId) base'
          = some (.fence (preDispatchClaimSet P input e row)) := by
        intro base'
        rw [sees, hfind]
      cases hupdated with
      | missed base' hmissed =>
        have := hmissed _ (hsees base')
        simp [preDispatchClaimSet] at this
      | written e' base' row' fp₃ hrow' hgood' hguard' helse' hfind' =>
        rw [hsees] at hrow'
        obtain rfl := Row.fence.inj (Option.some.inj hrow')
        rw [baseOf, hfind] at hfind'
        refine hQ _ _ (fun h => by cases h) fun sentRow hsent => ?_
        cases hsent
        have hid : (preDispatchSentSet input e' (preDispatchClaimSet P input e row)).id
            = input.outboundMessageId :=
          RowKey.fence.inj (Table.find?_eq_some.1 hfind').2
        refine ⟨hid ▸ hq₃, rfl, rfl, _, by rw [hid]; exact hfind', ?_⟩
        rw [← (hq₁.sees List.not_mem_nil hrow).claim]
        exact claim_none_of_prepared hgood (by simpa using hguard)
  split
  · refine fair_bind (releaseFence_fair hq fun _ fp₁ hq₁ => ?_)
    refine hmark _ ?_ ?_ fp₁ hq₁
    · rfl
    · exact fun _ => rfl
  · refine hmark _ ?_ ?_ fp hq
    · rfl
    · exact fun _ => rfl

theorem insertFence_fair {conflict : OnConflict} {row : Fence}
    {Q : Option Fence → Footprint Row.key → Prop} (hq : QuietBut keys fp)
    (hclaim : .fence row.id ∉ keys → Row.claim (.fence row) = none)
    (hmissed : Q none fp)
    (hQ : ∀ fp', QuietBut keys fp' → fp'.find? (.fence row.id) = some ⟨none, .fence row⟩ →
      Q (some row) fp') :
    Fair Q (insertFence P conflict row) fp := by
  refine fair_stmt fun e t base found result effect hsees hact hchecks => ?_
  simp only at hact
  split at hact
  · cases hact
  split at hact
  · obtain ⟨rfl, rfl⟩ := Prod.mk.inj (Option.some.inj hact)
    exact ⟨fun _ _ h => (by cases h), hmissed⟩
  split at hact
  · split at hact
    · obtain ⟨rfl, rfl⟩ := Prod.mk.inj (Option.some.inj hact)
      exact ⟨fun _ _ h => (by cases h), hmissed⟩
    · cases hact
  · next hfree =>
    obtain ⟨rfl, hkey, rfl⟩ := writes_eq_some hact
    have hnone : sees fp (.fence row.id) base = none := by
      have hfound := hsees.found
      cases found with
      | none => exact hfound.symm
      | some r => simp at hfree
    refine ⟨fun row' hk h => ?_, hQ _ (hq.touch hsees.key fun hk row' hk' h => ?_) ?_⟩
    · cases h
      exact hchecks _ hkey rfl
    · cases h
      rw [hnone]
      exact .new rfl (hclaim hk)
    · rw [find?_touch_write hkey, baseOf_of_sees_none hnone]

theorem recoverSentFolderMessage_fair {message : SentFolderMessage} :
    Fair (fun _ _ => True) (recoverSentFolderMessage P message) .empty := by
  refine fair_read fun found => ?_
  cases found with
  | some fence =>
    refine fair_answer fun unresolved => ?_
    split
    · exact commits_quiet_fair quiet_empty trivial
    split
    · exact commits_quiet_fair quiet_empty trivial
    refine fair_answer fun verifiedBytes => fair_bind (markPreDispatchFenceSent_fair quiet_empty ?_)
    exact fun result fp' hnone hsome => commits_restored_fair hnone hsome
  | none =>
    refine fair_answer fun facts => ?_
    cases facts with
    | none => exact commits_quiet_fair quiet_empty trivial
    | some facts =>
      refine fair_bind (fair_answer fun token => ?_)
      have hq : QuietBut [.fence (tombstoneFence P (tombstoneInput message facts) token).id] .empty :=
        quiet_empty.mono (by simp)
      refine insertFence_fair hq (fun hk => absurd (by simp) hk) ?_ fun fp' hq' hfind => ?_
      · exact commits_quiet_fair quiet_empty trivial
      · refine commits_restored_fair (fun h => by cases h) fun row hrow => ?_
        cases hrow
        exact ⟨hq', tombstoneFence_state, by rw [tombstoneFence_token]; rfl, none, hfind, rfl⟩

/-! ## The permission's writers -/

theorem grantFollowUpPermission_fair {input : GrantInput} :
    Fair (fun _ _ => True) (grantFollowUpPermission input) .empty := by
  refine fair_reads fun e => fair_bind (fair_stmt fun e' t base found b effect hsees hact hchecks =>
    ?_)
  split at hact
  · cases hact
  · next hfree =>
    obtain ⟨-, hkey, rfl⟩ := writes_eq_some hact
    refine ⟨fun row hk h => ?_, ?_⟩
    · cases h
      exact hchecks _ hkey rfl
    · refine fair_answer fun permitted => ?_
      split
      · refine commits_quiet_fair (quiet_empty.touch hsees.key fun _ row hk h => ?_) trivial
        cases h
        refine preserves_permission hsees.key fun old hold => ?_
        rw [← hsees.bind] at hold
        cases found with
        | none => cases hold
        | some r => simp at hfree
      · exact trivial

theorem updatePermission_quiet {id : Uuid} {guard : Env → FollowUpPermission → Bool}
    {set : Env → FollowUpPermission → FollowUpPermission}
    {Q : Option FollowUpPermission → Footprint Row.key → Prop} (hq : Quiet fp)
    (hset : ∀ e row, guard e row = true → row.Continues (set e row))
    (hQ : ∀ result fp', Quiet fp' → Q result fp') :
    Fair Q (updatePermission id guard set) fp :=
  updatePermission_fair hq hset fun result fp' hq' _ => hQ result fp' hq'

theorem enrollOnPermission_fair {permissionId enrollmentId : Uuid} {expiresAt : Option Instant} :
    Fair (fun _ _ => True) (enrollOnPermission permissionId enrollmentId expiresAt) .empty := by
  refine fair_bind (fair_bind (updatePermission_quiet quiet_empty (fun e row hguard => ?_)
    fun result fp' hq' => ?_))
  · exact bind_continues (Bool.and_eq_true_iff.1 hguard).1
  · change Fair _ (if result.isSome then Tx.commits .quiet else Tx.rollsBack) fp'
    split
    · exact commits_quiet_fair hq' trivial
    · exact trivial

theorem revokeFollowUpPermission_fair {permissionId : Uuid} :
    Fair (fun _ _ => True) (revokeFollowUpPermission permissionId) .empty := by
  refine fair_answer fun permitted => ?_
  split
  · exact fair_bind (updatePermission_quiet quiet_empty (fun e row _ => revoke_continues row e)
      fun _ fp' hq' => commits_quiet_fair hq' trivial)
  · exact commits_quiet_fair quiet_empty trivial

theorem consumeEachFulfilled_fair {firmId : Uuid} {contactIds ids : List Uuid} {sentAt : Instant}
    {Q : List (Uuid × Option Uuid) → Footprint Row.key → Prop} (hq : Quiet fp)
    (hQ : ∀ result fp', Quiet fp' → Q result fp') :
    Fair Q (consumeEachFulfilled firmId contactIds sentAt ids) fp := by
  induction ids generalizing fp Q with
  | nil => exact hQ [] fp hq
  | cons id ids ih =>
    refine fair_bind (updatePermission_quiet hq (fun e row hguard => ?_)
      fun spent fp' hq' => fair_bind (ih hq' fun rest fp'' hq'' => hQ _ _ hq''))
    have hspendable := (Bool.and_eq_true_iff.1 hguard).1
    simp only [FollowUpPermission.spendable, Bool.and_eq_true] at hspendable
    exact spend_continues hspendable.1.2

/-! ## The system -/

/-- Whatever the rows it meets, every commit of a program is fair. -/
theorem program_obeys (P : Platform) (job : CapacityJob) :
    Fair (fun _ _ => True) (program P job) .empty := by
  cases job with
  | prepare send =>
    refine fair_reads fun e => fair_bind (insertFence_fair quiet_empty (fun _ => ?_) ?_
      fun fp' hq' _ => commits_quiet_fair hq' trivial)
    · cases send <;> rfl
    · exact commits_quiet_fair quiet_empty trivial
  | hold id reason =>
    exact fair_bind (holdFence_fair quiet_empty fun _ _ hq => commits_quiet_fair hq trivial)
  | release id =>
    exact fair_bind (releaseFence_fair quiet_empty fun _ _ hq => commits_quiet_fair hq trivial)
  | precheck id =>
    refine fair_read fun fence => ?_
    cases fence with
    | none => exact trivial
    | some fence => exact fair_bind (decideSend_fair quiet_empty fun _ _ _ _ => trivial)
  | recheckAndClaim id precheck =>
    exact Tx.obeys_bind recheckAndClaim_fair fun _ _ _ => trivial
  | setAdminCap mailboxId lowerTo raiseTo =>
    exact Tx.obeys_bind setAdminCap_fair fun _ _ _ => trivial
  | overrideRaise mailboxId raiseTo => exact Tx.obeys_bind overrideRaise_fair fun _ _ _ => trivial
  | recoverSentFolderMessage message => exact recoverSentFolderMessage_fair
  | grantFollowUpPermission input => exact grantFollowUpPermission_fair
  | enrollOnPermission permissionId enrollmentId expiresAt => exact enrollOnPermission_fair
  | revokeFollowUpPermission permissionId => exact revokeFollowUpPermission_fair
  | consumeFulfilledByDirectSend firmId contactIds sentAt =>
    refine fair_bind (fair_read fun ids => consumeEachFulfilled_fair quiet_empty fun _ fp' hq' => ?_)
    exact commits_quiet_fair hq' trivial

end FoundingSales.Outbound.Capacity
