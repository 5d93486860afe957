import FoundingSales.Outbound.Capacity

/-!
What each commit of the capacity programs leaves. Most are quiet: no day is counted and no
fence is claimed. A claim counts its day once, within the cap it decided with, and starts
one fence on that date. A restore gives one fence a token and counts no day.

Proved here:
* one lemma for each statement, saying what it keeps of a quiet footprint;
* `program_obeys`: every commit of every program is fair, and no row it writes is past the
  backstop.
-/

namespace FoundingSales.Outbound.Capacity

open Transactions Tables Sequences

/-! ## What a row counts for -/

def Row.sent : Row → Int
  | day row => row.automatedSent
  | _ => 0

def Row.cap : Row → Int
  | day row => row.capGranted
  | _ => 0

/-- The mailbox and the date a fence with a token is charged to. -/
def Row.claim : Row → Option (Uuid × Option BusinessDate)
  | fence row => if row.attemptToken.isSome then some (row.mailboxId, row.businessDate) else none
  | _ => none

def Row.isPrepared (row : Row) : Bool := row.fence?.any fun fence => fence.state == .prepared

def Row.startsOn (mailboxId : Uuid) (businessDate : BusinessDate) (row : Row) : Bool :=
  row.fence?.any fun fence => fence.state == .dispatching && fence.mailboxId = mailboxId &&
    fence.businessDate = some businessDate

def sentOn (mailboxId : Uuid) (businessDate : BusinessDate) (row : Row) : Int :=
  if row.key = .day (mailboxId, businessDate) then row.sent else 0

def claimWeight (mailboxId : Uuid) (businessDate : BusinessDate) (row : Row) : Int :=
  if row.claimedOn mailboxId businessDate then 1 else 0

/-- One for a fence that was prepared and is dispatching. -/
def startWeight (mailboxId : Uuid) (businessDate : BusinessDate) (entry : Touched Row) : Int :=
  if entry.base.any Row.isPrepared && entry.current.startsOn mailboxId businessDate then 1 else 0

theorem Row.claimedOn_iff {row : Row} {mailboxId : Uuid} {businessDate : BusinessDate} :
    row.claimedOn mailboxId businessDate = true ↔
      row.claim = some (mailboxId, some businessDate) := by
  cases row with
  | ramp row => simp [Row.claimedOn, Row.claim, Row.fence?]
  | day row => simp [Row.claimedOn, Row.claim, Row.fence?]
  | fence row =>
    cases htoken : row.attemptToken <;>
      simp [Row.claimedOn, Row.claim, Row.fence?, htoken]
  | permission row => simp [Row.claimedOn, Row.claim, Row.fence?]

/-- The table's conditions tie the state of a fence to its token. -/
theorem started_of_checks {row : Fence} (h : rowChecks row = true) :
    row.state.started = row.attemptToken.isSome := by
  unfold rowChecks at h
  simp only [Bool.and_eq_true, beq_iff_eq] at h
  exact h.1.1.1.1.1.1.1.1.1.1.2

/-! ## Quiet rows -/

/-- A row that counts for what the one it replaces counted for. -/
structure Preserves (old : Option Row) (new : Row) : Prop where
  sent : new.sent = (old.map Row.sent).getD 0
  claim : new.claim = old.bind Row.claim
  cap : ∀ row, old = some row → row.cap ≤ new.cap
  permission : ∀ row, old.bind Row.permission? = some row →
    ∃ row', new.permission? = some row' ∧ row.Continues row'

theorem Preserves.refl (row : Row) : Preserves (some row) row where
  sent := rfl
  claim := rfl
  cap _ h := Int.le_of_eq (congrArg Row.cap (Option.some.inj h).symm)
  permission row h := ⟨row, h, .refl row⟩

theorem Preserves.new {row : Row} (hsent : row.sent = 0) (hclaim : row.claim = none) :
    Preserves none row where
  sent := hsent
  claim := hclaim
  cap _ h := by cases h
  permission _ h := by cases h

theorem Preserves.trans {old : Option Row} {row new : Row} (h : Preserves old row)
    (h' : Preserves (some row) new) : Preserves old new where
  sent := h'.sent.trans h.sent
  claim := h'.claim.trans h.claim
  cap r hr := Int.le_trans (h.cap r hr) (h'.cap row rfl)
  permission r hr := by
    obtain ⟨r', hr', hcontinues⟩ := h.permission r hr
    obtain ⟨r'', hr'', hcontinues'⟩ := h'.permission r' hr'
    exact ⟨r'', hr'', hcontinues.trans hcontinues'⟩

/-- A held row that counts for what the committed one counts for. -/
def Neutral (entry : Touched Row) : Prop := Preserves entry.base entry.current

/-- Outside these keys every held row counts for what the committed one counts for. -/
def QuietBut (keys : List RowKey) (fp : Footprint Row.key) : Prop :=
  ∀ entry ∈ fp, entry.current.key ∉ keys → Neutral entry

abbrev Quiet (fp : Footprint Row.key) : Prop := QuietBut [] fp

theorem quiet_empty : Quiet .empty := fun _ h => absurd h Table.not_mem_empty

variable {fp fp' : Footprint Row.key} {k : RowKey} {base : Option Row} {keys keys' : List RowKey}

theorem QuietBut.mono (h : QuietBut keys fp) (hsub : ∀ k ∈ keys, k ∈ keys') : QuietBut keys' fp :=
  fun entry hentry hkey => h entry hentry fun hmem => hkey (hsub _ hmem)

theorem QuietBut.sees (h : QuietBut keys fp) (hk : k ∉ keys) {row : Row}
    (hrow : sees fp k base = some row) : Preserves (baseOf fp k base) row := by
  unfold Transactions.sees at hrow
  unfold baseOf
  cases hfind : fp.find? k with
  | none =>
    rw [hfind] at hrow
    rw [hrow]
    exact .refl row
  | some entry =>
    obtain ⟨hmem, hkey⟩ := Table.find?_eq_some.1 hfind
    rw [hfind] at hrow
    exact Option.some.inj hrow ▸ h entry hmem (by rw [hkey]; exact hk)

theorem baseOf_of_sees_none (h : sees fp k base = none) : baseOf fp k base = none := by
  unfold sees at h
  unfold baseOf
  cases hfind : fp.find? k with
  | none => rwa [hfind] at h
  | some entry => simp [hfind] at h

/-- A statement whose row counts for what it counted for leaves the footprint as quiet. -/
theorem QuietBut.touch {effect : Effect Row.key k} (h : QuietBut keys fp)
    (hsees : ∀ row, Transactions.sees fp k base = some row → row.key = k)
    (hwrite : k ∉ keys → ∀ row hkey, effect = .write row hkey →
      Preserves (Transactions.sees fp k base) row) :
    QuietBut keys (touch fp k base effect) := by
  intro entry hentry hkeys
  cases effect with
  | pass => exact h entry hentry hkeys
  | lock =>
    simp only [Transactions.touch] at hentry
    split at hentry
    · next row hrow =>
      rcases Table.mem_upsert.1 hentry with rfl | ⟨hmem, -⟩
      · exact h.sees (hsees row hrow ▸ hkeys) hrow
      · exact h entry hmem hkeys
    · exact h entry hentry hkeys
  | write row hkey =>
    rcases Table.mem_upsert.1 hentry with rfl | ⟨hmem, -⟩
    · have hk : k ∉ keys := hkey ▸ hkeys
      have hpreserves := hwrite hk row hkey rfl
      change Preserves (baseOf fp k base) row
      cases hrow : Transactions.sees fp k base with
      | some old => exact (h.sees hk hrow).trans (hrow ▸ hpreserves)
      | none =>
        rw [baseOf_of_sees_none hrow]
        exact hrow ▸ hpreserves
    · exact h entry hmem hkeys

/-- Nothing but the row of `k` changes. -/
def Elsewhere (k : RowKey) (fp fp' : Footprint Row.key) : Prop :=
  ∀ k', k' ≠ k → fp'.find? k' = fp.find? k'

theorem Elsewhere.refl (k : RowKey) (fp : Footprint Row.key) : Elsewhere k fp fp := fun _ _ => rfl

theorem Elsewhere.trans {fp'' : Footprint Row.key} (h : Elsewhere k fp fp')
    (h' : Elsewhere k fp' fp'') : Elsewhere k fp fp'' := fun k' hk =>
  (h' k' hk).trans (h k' hk)

/-! ## Fair commits -/

def CapacityNote.claims (mailboxId : Uuid) (businessDate : BusinessDate) : CapacityNote → Bool
  | claimed plan _ => plan.mailbox.id = mailboxId && plan.businessDate = businessDate
  | _ => false

def CapacityNote.restores (mailboxId : Uuid) (businessDate : BusinessDate) : CapacityNote → Bool
  | restored mailboxId' businessDate' =>
    mailboxId' = mailboxId && businessDate' = some businessDate
  | _ => false

/-- The transaction holds the ramp row that the cap was read from. -/
def RampHeld (mailboxId : Uuid) (ramp : RampRow) (fp : Footprint Row.key) : Prop :=
  ∃ base row, fp.find? (.ramp mailboxId) = some ⟨base, .ramp row⟩ ∧
    effectiveDailyCap { row with recovery := ramp.recovery } = effectiveDailyCap ramp

structure DecidedWithin (plan : CapacityPlan) (fp : Footprint Row.key) : Prop where
  cap : plan.cap = effectiveDailyCap plan.ramp
  ramp : RampHeld plan.mailbox.id plan.ramp fp
  day : ∃ base day, fp.find? (.day (plan.mailbox.id, plan.businessDate)) = some ⟨base, .day day⟩ ∧
    day.automatedSent ≤ plan.cap

def one (b : Bool) : Int := if b then 1 else 0

/-- The transaction spends the permission it locked: as it was committed, it is live. -/
def Spends (permission : FollowUpPermission) (fp : Footprint Row.key) : Prop :=
  permission.consumedAt = none ∧ permission.revokedAt = none ∧
    ∃ e, fp.find? (.permission permission.id)
      = some ⟨some (.permission permission), .permission (permission.spend .sent e)⟩

structure FairCommit (note : CapacityNote) (fp : Footprint Row.key) : Prop where
  caps : ∀ entry ∈ fp, ∀ row, entry.base = some row → row.cap ≤ entry.current.cap
  permissions : ∀ entry ∈ fp, ∀ row, entry.base.bind Row.permission? = some row →
    ∃ row', entry.current.permission? = some row' ∧ row.Continues row'
  sent : ∀ m d, fp.total (Touched.delta (sentOn m d)) = one (note.claims m d)
  claimed : ∀ m d, fp.total (Touched.delta (claimWeight m d))
    = one (note.claims m d) + one (note.restores m d)
  starts : ∀ m d, fp.total (startWeight m d) = one (note.claims m d)
  decided : ∀ plan permission, note = .claimed plan permission → DecidedWithin plan fp
  spent : ∀ plan permission, note = .claimed plan (some permission) →
    permission.scope.oneMessage = true → Spends permission fp

abbrev good (row : Row) : Prop := row.checks = true

abbrev Fair {α : Type} (Q : α → Footprint Row.key → Prop) (prog : CapacityTx α)
    (fp : Footprint Row.key) : Prop :=
  Tx.Obeys Row.checksButBackstop good FairCommit Q prog fp

section Weights

variable {entry : Touched Row}

theorem Neutral.delta_sent (h : Neutral entry) (hkey : ∀ r, entry.base = some r → r.key = entry.current.key)
    (m : Uuid) (d : BusinessDate) : entry.delta (sentOn m d) = 0 := by
  have hsent := h.sent
  unfold Touched.delta sentOn
  cases hbase : entry.base with
  | none =>
    rw [hbase] at hsent
    simp only [Option.map_none, Option.getD_none] at hsent ⊢
    split_ifs <;> simp [hsent]
  | some row =>
    rw [hbase] at hsent
    simp only [Option.map_some, Option.getD_some] at hsent ⊢
    rw [hkey row hbase, hsent]
    omega

theorem Neutral.delta_claim (h : Neutral entry) (m : Uuid) (d : BusinessDate) :
    entry.delta (claimWeight m d) = 0 := by
  have hclaim := h.claim
  unfold Touched.delta claimWeight
  simp only [Row.claimedOn_iff]
  cases hbase : entry.base with
  | none =>
    rw [hbase] at hclaim
    simp [hclaim]
  | some row =>
    rw [hbase] at hclaim
    simp only [Option.bind_some] at hclaim
    simp [hclaim]

theorem Neutral.starts (h : Neutral entry) (hbase : ∀ r, entry.base = some r → good r)
    (hgood : good entry.current) (m : Uuid) (d : BusinessDate) : startWeight m d entry = 0 := by
  unfold startWeight
  refine if_neg fun hstarts => ?_
  rw [Bool.and_eq_true, Option.any_eq_true] at hstarts
  obtain ⟨⟨old, hold, hprepared⟩, hstarts⟩ := hstarts
  have hclaim := h.claim
  have hgoodOld := hbase old hold
  rw [hold, Option.bind_some] at hclaim
  cases old with
  | ramp row => simp [Row.isPrepared, Row.fence?] at hprepared
  | day row => simp [Row.isPrepared, Row.fence?] at hprepared
  | permission row => simp [Row.isPrepared, Row.fence?] at hprepared
  | fence old =>
    cases hcurrent : entry.current with
    | ramp row => simp [hcurrent, Row.startsOn, Row.fence?] at hstarts
    | day row => simp [hcurrent, Row.startsOn, Row.fence?] at hstarts
    | permission row => simp [hcurrent, Row.startsOn, Row.fence?] at hstarts
    | fence new =>
      rw [hcurrent] at hclaim hgood
      have holdToken := started_of_checks hgoodOld
      have hnewToken := started_of_checks hgood
      simp [Row.isPrepared, Row.fence?] at hprepared
      simp [hcurrent, Row.startsOn, Row.fence?] at hstarts
      rw [hprepared] at holdToken
      rw [hstarts.1.1] at hnewToken
      simp [Row.claim, ← holdToken, ← hnewToken, OutboundState.started] at hclaim

end Weights

/-- A quiet footprint commits fairly. -/
theorem QuietBut.fair (h : Quiet fp) (hgood : GoodRows good fp) : FairCommit .quiet fp where
  caps entry hentry := (h entry hentry List.not_mem_nil).cap
  permissions entry hentry := (h entry hentry List.not_mem_nil).permission
  sent m d := Table.total_eq_zero fun entry hentry =>
    (h entry hentry List.not_mem_nil).delta_sent (fun r hr => ((hgood entry hentry).2 r hr).2) m d
  claimed m d := Table.total_eq_zero fun entry hentry =>
    (h entry hentry List.not_mem_nil).delta_claim m d
  starts m d := Table.total_eq_zero fun entry hentry =>
    (h entry hentry List.not_mem_nil).starts (fun r hr => ((hgood entry hentry).2 r hr).1)
      (hgood entry hentry).1 m d
  decided _ _ h := by cases h
  spent _ _ h := by cases h

/-! ## Statements -/

theorem Row.eq_ramp {row : Row} {mailboxId : Uuid} (h : row.key = .ramp mailboxId) :
    ∃ r, row = .ramp r := by
  cases row with
  | ramp row => exact ⟨row, rfl⟩
  | day row => cases h
  | fence row => cases h
  | permission row => cases h

theorem Row.eq_day {row : Row} {kday : Uuid × BusinessDate} (h : row.key = .day kday) :
    ∃ r, row = .day r := by
  cases row with
  | ramp row => cases h
  | day row => exact ⟨row, rfl⟩
  | fence row => cases h
  | permission row => cases h

theorem Row.eq_fence {row : Row} {id : Uuid} (h : row.key = .fence id) : ∃ r, row = .fence r := by
  cases row with
  | ramp row => cases h
  | day row => cases h
  | fence row => exact ⟨row, rfl⟩
  | permission row => cases h

theorem Row.eq_permission {row : Row} {id : Uuid} (h : row.key = .permission id) :
    ∃ r, row = .permission r := by
  cases row with
  | ramp row => cases h
  | day row => cases h
  | fence row => cases h
  | permission row => exact ⟨row, rfl⟩

theorem preserves_ramp {old : Option Row} {mailboxId : Uuid}
    (hkey : ∀ r, old = some r → r.key = .ramp mailboxId) (row : RampDbRow) :
    Preserves old (.ramp row) := by
  cases old with
  | none => exact .new rfl rfl
  | some r =>
    obtain ⟨r, rfl⟩ := Row.eq_ramp (hkey r rfl)
    refine ⟨rfl, rfl, fun x hx => ?_, fun _ h => by cases h⟩
    cases hx
    exact Int.le_refl _

theorem preserves_day {old : Option Row} {kday : Uuid × BusinessDate} {day : SendDay}
    (hkey : ∀ r, old = some r → r.key = .day kday)
    (hsent : day.automatedSent = ((old.bind Row.day?).map SendDay.automatedSent).getD 0)
    (hcap : ∀ d, old.bind Row.day? = some d → d.capGranted ≤ day.capGranted) :
    Preserves old (.day day) := by
  cases old with
  | none => exact .new hsent rfl
  | some r =>
    obtain ⟨r, rfl⟩ := Row.eq_day (hkey r rfl)
    refine ⟨hsent, rfl, fun x hx => ?_, fun _ h => by cases h⟩
    cases hx
    exact hcap r rfl

theorem preserves_fence {old : Option Row} {id : Uuid} {row : Fence}
    (hkey : ∀ r, old = some r → r.key = .fence id)
    (hclaim : Row.claim (.fence row)
      = (old.bind Row.fence?).bind fun fence => Row.claim (.fence fence)) :
    Preserves old (.fence row) := by
  cases old with
  | none => exact .new rfl hclaim
  | some r =>
    obtain ⟨r, rfl⟩ := Row.eq_fence (hkey r rfl)
    refine ⟨rfl, hclaim, fun x hx => ?_, fun _ h => by cases h⟩
    cases hx
    exact Int.le_refl _

theorem preserves_permission {old : Option Row} {id : Uuid} {row : FollowUpPermission}
    (hkey : ∀ r, old = some r → r.key = .permission id)
    (hcontinues : ∀ r, old.bind Row.permission? = some r → r.Continues row) :
    Preserves old (.permission row) := by
  cases old with
  | none => exact .new rfl rfl
  | some r =>
    obtain ⟨r, rfl⟩ := Row.eq_permission (hkey r rfl)
    refine ⟨rfl, rfl, fun x hx => ?_, fun x hx => ⟨row, rfl, hcontinues x hx⟩⟩
    cases hx
    exact Int.le_refl _

/-- What a statement is verified from. -/
structure Sees (fp : Footprint Row.key) (k : RowKey) (base : Option Row)
    (found : Option { r : Row // r.key = k }) : Prop where
  good : ∀ r, sees fp k base = some r → r.checks = true
  found : found.map Subtype.val = sees fp k base

theorem Sees.key {found : Option { r : Row // r.key = k }} (h : Sees fp k base found) :
    ∀ r, sees fp k base = some r → r.key = k := by
  intro r hr
  rw [← h.found] at hr
  cases found with
  | none => cases hr
  | some r' =>
    cases hr
    exact r'.2

theorem Sees.bind {α : Type} {found : Option { r : Row // r.key = k }} (h : Sees fp k base found)
    (f : Row → Option α) : (found.bind fun r => f r.1) = (sees fp k base).bind f := by
  rw [← h.found]
  cases found <;> rfl

theorem Sees.elsewhere {found : Option { r : Row // r.key = k }} (h : Sees fp k base found)
    (effect : Effect Row.key k) : Elsewhere k fp (touch fp k base effect) :=
  fun _ hk => find?_touch_ne h.key hk

theorem fair_stmt {β : Type} {Q : β → Footprint Row.key → Prop}
    {act : CapacityEnv → CapacityTable → Option { r : Row // r.key = k } →
      Option (β × Effect Row.key k)}
    (h : ∀ e t base found b effect, Sees fp k base found → act e t found = some (b, effect) →
      (∀ row hk, effect = .write row hk → row.checksButBackstop = true) →
      (∀ row hk, effect = .write row hk → good row) ∧ Q b (touch fp k base effect)) :
    Fair Q (.stmt k act .ret : CapacityTx β) fp :=
  fun e t base found b effect hgood hfound hact hchecks =>
    h e t base found b effect ⟨hgood, hfound⟩ hact hchecks

theorem writes_eq_some {β : Type} {row : Row} {b b' : β} {effect : Effect Row.key k}
    (h : writes row b = some (b', effect)) :
    b' = b ∧ ∃ hkey : row.key = k, effect = .write row hkey := by
  unfold writes at h
  split at h
  · next hkey =>
    obtain ⟨rfl, rfl⟩ := Prod.mk.inj (Option.some.inj h)
    exact ⟨rfl, hkey, rfl⟩
  · cases h

/-- The rest of a program after a statement. -/
theorem fair_bind {α β : Type} {R : β → Footprint Row.key → Prop} {prog : CapacityTx α}
    {f : α → CapacityTx β} (h : Fair (fun a fp' => Fair R (f a) fp') prog fp) :
    Fair R (prog >>= f) fp :=
  Tx.obeys_bind h fun _ _ h => h

theorem fair_answer {α β : Type} {R : β → Footprint Row.key → Prop} {read : CapacityEnv → α}
    {f : α → CapacityTx β} (h : ∀ a, Fair R (f a) fp) : Fair R (answer read >>= f) fp :=
  Tx.obeys_answer_bind h

theorem fair_read {α β : Type} {R : β → Footprint Row.key → Prop}
    {read : CapacityEnv → CapacityTable → α} {f : α → CapacityTx β} (h : ∀ a, Fair R (f a) fp) :
    Fair R ((Tx.read read .ret : CapacityTx α) >>= f) fp := fun e t => h (read e t)

theorem fair_reads {α β : Type} {R : β → Footprint Row.key → Prop} {read : CapacityEnv → α}
    {f : α → CapacityTx β} (h : ∀ e, Fair R (f (read e)) fp) : Fair R (answer read >>= f) fp :=
  fun e _ => h e

/-! ## The ramp's and the day's statements -/

theorem upsertRamp_fair {mailboxId : Uuid} {Q : RampDbRow → Footprint Row.key → Prop}
    (hq : Quiet fp)
    (hQ : ∀ row fp', Quiet fp' → Elsewhere (.ramp mailboxId) fp fp' →
      (∃ base, fp'.find? (.ramp mailboxId) = some ⟨base, .ramp row⟩) → Q row fp') :
    Fair Q (upsertRamp mailboxId) fp := by
  refine fair_stmt fun e t base found b effect hsees hact hchecks => ?_
  obtain ⟨rfl, hkey, rfl⟩ := writes_eq_some hact
  refine ⟨?_, hQ _ _ (hq.touch hsees.key ?_) (hsees.elsewhere _) ⟨_, find?_touch_write hkey⟩⟩
  · rintro row hk ⟨⟩
    exact hchecks _ hkey rfl
  · rintro - row hk ⟨⟩
    exact preserves_ramp hsees.key _

/-- A locked or rewritten ramp row keeps the cap that was read from it. -/
theorem assessInactivity_fair {mailboxId : Uuid} {Q : Unit → Footprint Row.key → Prop}
    (hq : Quiet fp)
    (hQ : ∀ fp', Quiet fp' → Elsewhere (.ramp mailboxId) fp fp' →
      (∀ ramp, RampHeld mailboxId ramp fp → RampHeld mailboxId ramp fp') → Q () fp') :
    Fair Q (assessInactivity mailboxId) fp := by
  refine fair_stmt fun e t base found b effect hsees hact hchecks => ?_
  have hheld : ∀ ramp, RampHeld mailboxId ramp fp → ∃ base' row,
      fp.find? (.ramp mailboxId) = some ⟨base', .ramp row⟩ ∧
      (found.bind fun r => r.1.ramp?) = some row ∧ baseOf fp (.ramp mailboxId) base = base' ∧
      effectiveDailyCap { row with recovery := ramp.recovery } = effectiveDailyCap ramp := by
    rintro ramp ⟨base', row, hfind, hcap⟩
    refine ⟨base', row, hfind, ?_, by rw [baseOf, hfind], hcap⟩
    rw [hsees.bind, sees, hfind]
    rfl
  split at hact
  · obtain ⟨-, rfl⟩ := Prod.mk.inj (Option.some.inj hact)
    exact ⟨fun _ _ h => (by cases h), hQ _ hq (.refl _ _) fun _ h => h⟩
  · obtain ⟨-, rfl⟩ := Prod.mk.inj (Option.some.inj hact)
    refine ⟨fun _ _ h => (by cases h), hQ _ (hq.touch hsees.key fun _ _ _ h => (by cases h))
      (hsees.elsewhere _) fun ramp hramp => ?_⟩
    obtain ⟨base', row, hfind, -, hbase, hcap⟩ := hheld ramp hramp
    have hrow : sees fp (.ramp mailboxId) base = some (.ramp row) := by rw [sees, hfind]
    exact ⟨base', row, hbase ▸ find?_touch_lock (hsees.key _ hrow) hrow, hcap⟩
  · next row epochId hfound _ =>
    obtain ⟨-, hkey, rfl⟩ := writes_eq_some hact
    refine ⟨?_, hQ _ (hq.touch hsees.key ?_) (hsees.elsewhere _) fun ramp hramp => ?_⟩
    · rintro row hk ⟨⟩
      exact hchecks _ hkey rfl
    · rintro - row hk ⟨⟩
      exact preserves_ramp hsees.key _
    · obtain ⟨base', row', -, hfound', hbase, hcap⟩ := hheld ramp hramp
      rw [hfound] at hfound'
      cases hfound'
      exact ⟨base', { row with recoveryEpochId := some epochId },
        hbase ▸ find?_touch_write hkey, hcap⟩

theorem settle_fair {inTransaction : Bool} {Q : Unit → Footprint Row.key → Prop} (hq : Quiet fp)
    (hinside : inTransaction = true → Q () fp) (houtside : inTransaction = false → Q () .empty) :
    Fair Q (settle inTransaction) fp := by
  cases inTransaction with
  | true => exact hinside rfl
  | false => exact ⟨hq.fair, houtside rfl⟩

theorem ensureRamp_fair {inTransaction : Bool} {mailboxId : Uuid}
    {Q : RampRow → Footprint Row.key → Prop} (hq : Quiet fp)
    (hQ : ∀ ramp fp', Quiet fp' →
      (inTransaction = true → Elsewhere (.ramp mailboxId) fp fp' ∧ RampHeld mailboxId ramp fp') →
      Q ramp fp') :
    Fair Q (ensureRamp inTransaction mailboxId) fp := by
  refine fair_bind (upsertRamp_fair hq fun row fp₁ hq₁ helse₁ hrow => ?_)
  have hrest : ∀ fp₂, Quiet fp₂ → (inTransaction = true → fp₂ = fp₁) →
      Fair Q (do
        assessInactivity mailboxId
        settle inTransaction
        let recovery ← answer CapacityEnv.recovery
        return { row with recovery := recovery }) fp₂ := by
    intro fp₂ hq₂ hinside
    refine fair_bind (assessInactivity_fair hq₂ fun fp₃ hq₃ helse₃ hheld => ?_)
    have hdone : ∀ recovery fp₄, Quiet fp₄ → (inTransaction = true → fp₄ = fp₃) →
        Q { row with recovery := recovery } fp₄ := by
      intro recovery fp₄ hq₄ hinside'
      refine hQ _ _ hq₄ fun htrue => ?_
      rw [hinside' htrue]
      rw [hinside htrue] at helse₃ hheld
      obtain ⟨base, hfind⟩ := hrow
      exact ⟨helse₁.trans helse₃, hheld _ ⟨base, row, hfind, rfl⟩⟩
    refine fair_bind (settle_fair hq₃ (fun _ => ?_) fun hfalse => ?_)
    · exact fair_answer fun recovery => hdone recovery fp₃ hq₃ fun _ => rfl
    · exact fair_answer fun recovery => hdone recovery _ quiet_empty fun h => by
        rw [hfalse] at h; cases h
  refine fair_bind (settle_fair hq₁ (fun _ => hrest fp₁ hq₁ fun _ => rfl) fun hfalse => ?_)
  exact hrest _ quiet_empty fun h => by rw [hfalse] at h; cases h

theorem capGranted_le_grantCap (existing : Option SendDay) (row : SendDay) :
    row.capGranted ≤ (grantCap existing row).capGranted := by
  cases existing with
  | none => exact Int.le_refl _
  | some day => exact le_max_right _ _

theorem withinCap_grantCap {existing : Option SendDay} {row : SendDay} (hrow : withinCap row = true)
    (hexisting : ∀ day, existing = some day → withinCap day = true) :
    withinCap (grantCap existing row) = true := by
  cases existing with
  | none => exact hrow
  | some day =>
    have hday := of_decide_eq_true (hexisting day rfl)
    exact decide_eq_true (le_trans hday (le_max_left _ _))

/-- The day as the upsert leaves it: its count stands, and its cap is at least the one granted. -/
theorem openSendDay_fair {inTransaction : Bool} {mailboxId : Uuid} {businessDate : BusinessDate}
    {cap : Int} {Q : SendDay → Footprint Row.key → Prop} (hq : Quiet fp)
    (hQ : ∀ day fp', Quiet fp' →
      (inTransaction = true → Elsewhere (.day (mailboxId, businessDate)) fp fp' ∧
        cap ≤ day.capGranted ∧
        ∃ base, fp'.find? (.day (mailboxId, businessDate)) = some ⟨base, .day day⟩) →
      Q day fp') :
    Fair Q (openSendDay inTransaction mailboxId businessDate cap) fp := by
  refine fair_answer fun recovery => fair_bind (fair_stmt fun e t base found day effect hsees hact
    hchecks => ?_)
  have hexisting := hsees.bind Row.day?
  simp only at hact
  generalize (found.bind fun r => r.1.day?) = existing at hact hexisting
  split at hact
  · next hrow =>
    obtain ⟨rfl, hkey, rfl⟩ := writes_eq_some hact
    have hgood : good (.day (grantCap existing (newSendDay mailboxId businessDate cap recovery))) := by
      refine Bool.and_eq_true_iff.2 ⟨hchecks _ hkey rfl, ?_⟩
      refine withinCap_grantCap (Bool.and_eq_true_iff.1 hrow).2 fun day hday => ?_
      obtain ⟨r, hr, hrday⟩ := Option.bind_eq_some_iff.1 (hexisting.symm.trans hday)
      obtain ⟨day', rfl⟩ := Row.eq_day (hsees.key r hr)
      cases hrday
      exact (Bool.and_eq_true_iff.1 (hsees.good _ hr)).2
    have hq' : Quiet (touch fp (.day (mailboxId, businessDate)) base (.write _ hkey)) := by
      refine hq.touch hsees.key fun _ row' hk h => ?_
      cases h
      refine preserves_day hsees.key ?_ fun day hday => ?_
      · rw [← hexisting]
        cases existing <;> rfl
      · rw [← hexisting] at hday
        rw [hday]
        exact le_max_left _ _
    refine ⟨fun row' hk h => ?_, fair_bind (settle_fair hq' (fun _ => ?_) fun hfalse => ?_)⟩
    · cases h
      exact hgood
    · refine hQ _ _ hq' fun _ => ⟨hsees.elsewhere _, ?_, ⟨_, find?_touch_write hkey⟩⟩
      exact capGranted_le_grantCap existing (newSendDay mailboxId businessDate cap recovery)
    · exact hQ _ _ quiet_empty fun htrue => by rw [hfalse] at htrue; cases htrue
  · cases hact

/-- The rows of the fences and of the permissions stay as they are. -/
def Apart (fp fp' : Footprint Row.key) : Prop :=
  ∀ k, (∀ m, k ≠ .ramp m) → (∀ d, k ≠ .day d) → fp'.find? k = fp.find? k

theorem Elsewhere.apart_ramp {mailboxId : Uuid} (h : Elsewhere (.ramp mailboxId) fp fp') :
    Apart fp fp' := fun k hramp _ => h k (hramp mailboxId)

theorem Elsewhere.apart_day {kday : Uuid × BusinessDate} (h : Elsewhere (.day kday) fp fp') :
    Apart fp fp' := fun k _ hday => h k (hday kday)

theorem Apart.refl (fp : Footprint Row.key) : Apart fp fp := fun _ _ _ => rfl

theorem Apart.trans {fp'' : Footprint Row.key} (h : Apart fp fp') (h' : Apart fp' fp'') :
    Apart fp fp'' := fun k hramp hday => (h' k hramp hday).trans (h k hramp hday)

/-- What an accepted decision leaves: the ramp row and the day are the transaction's. -/
structure Planned (plan : CapacityPlan) (fp : Footprint Row.key) : Prop where
  cap : plan.cap = effectiveDailyCap plan.ramp
  ramp : RampHeld plan.mailbox.id plan.ramp fp
  day : ∃ base day, fp.find? (.day (plan.mailbox.id, plan.businessDate)) = some ⟨base, .day day⟩ ∧
    plan.cap ≤ day.capGranted

theorem decideCapacity_fair {inTransaction : Bool} {mailbox : PlannedMailbox}
    {Q : SendResult CapacityPlan → Footprint Row.key → Prop} (hq : Quiet fp)
    (hQ : ∀ result fp', Quiet fp' → (inTransaction = true → Apart fp fp' ∧
      ∀ plan, result = .ok plan → Planned plan fp' ∧ plan.mailbox.id = mailbox.id) →
      Q result fp') :
    Fair Q (decideCapacity inTransaction mailbox) fp := by
  refine fair_bind (ensureRamp_fair hq fun ramp fp₁ hq₁ hramp => ?_)
  have hrefused : ∀ reason detail fp', Quiet fp' → (inTransaction = true → Apart fp fp') →
      Q (.refused reason detail) fp' := fun reason detail fp' hq' happart =>
    hQ _ _ hq' fun htrue => ⟨happart htrue, fun plan h => by cases h⟩
  refine fair_answer fun unready => ?_
  cases unready with
  | some reasons => exact hrefused _ _ _ hq₁ fun htrue => (hramp htrue).1.apart_ramp
  | none =>
    refine fair_answer fun incident => ?_
    cases incident with
    | some refusal => exact hrefused _ _ _ hq₁ fun htrue => (hramp htrue).1.apart_ramp
    | none =>
      refine fair_answer fun businessDate => fair_bind (openSendDay_fair hq₁ ?_)
      intro day fp₂ hq₂ hday
      have happart : inTransaction = true → Apart fp fp₂ := fun htrue =>
        (hramp htrue).1.apart_ramp.trans (hday htrue).1.apart_day
      have hok : Q (.ok ⟨mailbox, ramp, effectiveDailyCap ramp, businessDate⟩) fp₂ := by
        refine hQ _ _ hq₂ fun htrue => ⟨happart htrue, fun plan h => ?_⟩
        cases h
        obtain ⟨helse, hcap, base, hfind⟩ := hday htrue
        obtain ⟨base', row, hrow, heq⟩ := (hramp htrue).2
        exact ⟨⟨rfl, ⟨base', row, (helse _ (by simp)).trans hrow, heq⟩, ⟨base, day, hfind, hcap⟩⟩, rfl⟩
      split
      · exact hrefused _ _ _ hq₂ happart
      · refine fair_answer fun waiting => ?_
        split
        · split
          · exact hrefused _ _ _ hq₂ happart
          · exact hok
        · exact hok

theorem decideSend_fair {inTransaction : Bool} {fence : Fence}
    {Q : SendResult CapacityPlan → Footprint Row.key → Prop} (hq : Quiet fp)
    (hQ : ∀ result fp', Quiet fp' → (inTransaction = true → Apart fp fp' ∧
      ∀ plan, result = .ok plan → Planned plan fp' ∧ plan.mailbox.id = fence.mailboxId) →
      Q result fp') :
    Fair Q (decideSend inTransaction fence) fp := by
  have hrefused : ∀ reason detail, Q (.refused reason detail) fp := fun reason detail =>
    hQ _ _ hq fun _ => ⟨.refl fp, fun plan h => by cases h⟩
  unfold decideSend
  split
  · exact hrefused _ _
  · refine fair_reads fun e => ?_
    cases e.mailbox with
    | none => exact hrefused _ _
    | some mailbox =>
      refine fair_answer fun refusal => ?_
      cases refusal with
      | some refusal => exact hrefused _ _
      | none => exact decideCapacity_fair hq hQ

end FoundingSales.Outbound.Capacity
