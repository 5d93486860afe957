import FoundingSales.Library.Runs
import FoundingSales.Outbound.Ramp

/-!
The ramp's two counters count days: `healthy_sending_days` the mailbox's closed, healthy
days that no recovery was credited with, an epoch's `qualifying_days` those credited to it.
A late signal takes back a day it still finds healthy, so neither counter meets zero on the
way down, and a verdict of unhealthy is final.

Proved here:
* `Balanced.keepsCounts` and `Balanced.changesDay`: what keeps the two counts;
* one lemma for each function: it keeps the counts and every unhealthy verdict;
* `ramp_bookkeeping`: the counts, their signs, the idle clamp and the final verdicts, over
  every sequence of calls.
-/

namespace FoundingSales.Outbound

open Tables Runs

/-! ## What the counters count -/

def SendDay.graduated (mailboxId : Uuid) (day : SendDay) : Bool :=
  day.mailboxId = mailboxId && day.closedAt.isSome && day.healthy == some true &&
    !day.recoveryCredited

def SendDay.qualified (epochId : Uuid) (day : SendDay) : Bool :=
  day.recoveryEpochId = some epochId && day.closedAt.isSome && day.healthy == some true &&
    day.recoveryCredited

/-- `healthy_sending_days`, zero for a mailbox without a row. -/
def RampTables.healthySendingDays (t : RampTables) (mailboxId : Uuid) : Int :=
  ((t.ramps.find? mailboxId).map RampDbRow.healthySendingDays).getD 0

/-- `qualifying_days`, zero for an epoch that does not exist. -/
def RampTables.qualifyingDays (t : RampTables) (epochId : Uuid) : Int :=
  ((t.epochs.find? epochId).map RecoveryEpoch.qualifyingDays).getD 0

structure Balanced (t : RampTables) : Prop where
  growth : ∀ mailboxId, t.healthySendingDays mailboxId = t.days.count (SendDay.graduated mailboxId)
  recovery : ∀ epochId, t.qualifyingDays epochId = t.days.count (SendDay.qualified epochId)
  verdict : ∀ day ∈ t.days, day.healthy.isSome = day.closedAt.isSome
  credited : ∀ day ∈ t.days, day.recoveryCredited = true → day.closedAt.isSome = true

/-- A day found unhealthy stays so. -/
def Condemned (t t' : RampTables) : Prop :=
  ∀ k day, t.days.find? k = some day → day.healthy = some false →
    ∃ day', t'.days.find? k = some day' ∧ day'.healthy = some false

/-- What every function does to balanced tables. -/
structure Advances (t t' : RampTables) : Prop where
  balanced : Balanced t'
  condemned : Condemned t t'

theorem Condemned.refl (t : RampTables) : Condemned t t := fun _ day h hday => ⟨day, h, hday⟩

theorem Condemned.trans {t t' t'' : RampTables} (h : Condemned t t') (h' : Condemned t' t'') :
    Condemned t t'' := fun k day hday hunhealthy => by
  obtain ⟨day', hday', hunhealthy'⟩ := h k day hday hunhealthy
  exact h' k day' hday' hunhealthy'

theorem Advances.refl {t : RampTables} (h : Balanced t) : Advances t t := ⟨h, .refl t⟩

theorem Advances.trans {t t' t'' : RampTables} (h : Advances t t') (h' : Advances t' t'') :
    Advances t t'' := ⟨h'.balanced, h.condemned.trans h'.condemned⟩

theorem balanced_empty : Balanced .empty where
  growth _ := rfl
  recovery _ := rfl
  verdict _ h := absurd h Table.not_mem_empty
  credited _ h := absurd h Table.not_mem_empty

/-! ## Changes that keep the counts -/

/-- Rows of the ramp and of epochs come and change; no day does, and no counter. -/
structure KeepsCounts (t t' : RampTables) : Prop where
  days : t'.days = t.days
  growth : ∀ mailboxId, t'.healthySendingDays mailboxId = t.healthySendingDays mailboxId
  recovery : ∀ epochId, t'.qualifyingDays epochId = t.qualifyingDays epochId

theorem KeepsCounts.refl (t : RampTables) : KeepsCounts t t := ⟨rfl, fun _ => rfl, fun _ => rfl⟩

theorem KeepsCounts.trans {t u v : RampTables} (h : KeepsCounts t u)
    (h' : KeepsCounts u v) : KeepsCounts t v where
  days := h'.days.trans h.days
  growth m := (h'.growth m).trans (h.growth m)
  recovery id := (h'.recovery id).trans (h.recovery id)

theorem Balanced.keepsCounts {t t' : RampTables} (h : Balanced t) (hs : KeepsCounts t t') :
    Advances t t' where
  balanced := by
    refine ⟨fun m => ?_, fun id => ?_, ?_, ?_⟩
    · rw [hs.growth, hs.days, h.growth]
    · rw [hs.recovery, hs.days, h.recovery]
    · rw [hs.days]
      exact h.verdict
    · rw [hs.days]
      exact h.credited
  condemned k day hday hunhealthy := ⟨day, hs.days ▸ hday, hunhealthy⟩

/-- One day is written, and each counter moves by what the day's verdict moves. -/
structure ChangesDay (t t' : RampTables) (day : SendDay) : Prop where
  days : t'.days = t.days.upsert day
  growth : ∀ mailboxId, t'.healthySendingDays mailboxId
      + (if (t.days.find? day.key).any (SendDay.graduated mailboxId) then 1 else 0)
    = t.healthySendingDays mailboxId + if day.graduated mailboxId then 1 else 0
  recovery : ∀ epochId, t'.qualifyingDays epochId
      + (if (t.days.find? day.key).any (SendDay.qualified epochId) then 1 else 0)
    = t.qualifyingDays epochId + if day.qualified epochId then 1 else 0
  verdict : day.healthy.isSome = day.closedAt.isSome
  credited : day.recoveryCredited = true → day.closedAt.isSome = true
  condemned : ∀ old, t.days.find? day.key = some old → old.healthy = some false →
    day.healthy = some false

theorem Balanced.changesDay {t t' : RampTables} {d : SendDay} (h : Balanced t)
    (hc : ChangesDay t t' d) : Advances t t' where
  balanced := by
    refine ⟨fun m => ?_, fun id => ?_, fun row hrow => ?_, fun row hrow => ?_⟩
    · have hcount := Table.count_upsert (t := t.days) (r := d) (SendDay.graduated m)
      have hgrowth := hc.growth m
      rw [hc.days]
      have := h.growth m
      split_ifs at hcount hgrowth <;> omega
    · have hcount := Table.count_upsert (t := t.days) (r := d) (SendDay.qualified id)
      have hrecovery := hc.recovery id
      rw [hc.days]
      have := h.recovery id
      split_ifs at hcount hrecovery <;> omega
    · rw [hc.days, Table.mem_upsert] at hrow
      rcases hrow with rfl | ⟨hrow, -⟩
      exacts [hc.verdict, h.verdict row hrow]
    · rw [hc.days, Table.mem_upsert] at hrow
      rcases hrow with rfl | ⟨hrow, -⟩
      exacts [hc.credited, h.credited row hrow]
  condemned k old hold hunhealthy := by
    rw [hc.days]
    by_cases hk : k = d.key
    · subst hk
      exact ⟨d, Table.find?_upsert_self, hc.condemned old hold hunhealthy⟩
    · exact ⟨old, by rw [Table.find?_upsert_ne hk, hold], hunhealthy⟩

/-! ## Writes of one row -/

theorem healthySendingDays_upsert (t : RampTables) (row : RampDbRow) (mailboxId : Uuid) :
    ({ t with ramps := t.ramps.upsert row } : RampTables).healthySendingDays mailboxId
      = if mailboxId = row.mailboxId then row.healthySendingDays
        else t.healthySendingDays mailboxId := by
  unfold RampTables.healthySendingDays
  by_cases h : mailboxId = row.mailboxId
  · simp only [h, ↓reduceIte, Table.find?_upsert_self, Option.map_some, Option.getD_some]
  · simp only [h, ↓reduceIte, Table.find?_upsert_ne h]

theorem qualifyingDays_upsert (t : RampTables) (row : RecoveryEpoch) (epochId : Uuid) :
    ({ t with epochs := t.epochs.upsert row } : RampTables).qualifyingDays epochId
      = if epochId = row.id then row.qualifyingDays else t.qualifyingDays epochId := by
  unfold RampTables.qualifyingDays
  by_cases h : epochId = row.id
  · simp only [h, ↓reduceIte, Table.find?_upsert_self, Option.map_some, Option.getD_some]
  · simp only [h, ↓reduceIte, Table.find?_upsert_ne h]

theorem healthySendingDays_of_find {t : RampTables} {mailboxId : Uuid} {row : RampDbRow}
    (h : t.ramps.find? mailboxId = some row) :
    t.healthySendingDays mailboxId = row.healthySendingDays := by
  simp [RampTables.healthySendingDays, h]

theorem qualifyingDays_of_find {t : RampTables} {epochId : Uuid} {row : RecoveryEpoch}
    (h : t.epochs.find? epochId = some row) :
    t.qualifyingDays epochId = row.qualifyingDays := by
  simp [RampTables.qualifyingDays, h]

/-- A counter above zero has a row. -/
theorem ramp_of_healthySendingDays {t : RampTables} {mailboxId : Uuid}
    (h : 0 < t.healthySendingDays mailboxId) : ∃ row, t.ramps.find? mailboxId = some row := by
  unfold RampTables.healthySendingDays at h
  cases hfind : t.ramps.find? mailboxId with
  | none => simp [hfind] at h
  | some row => exact ⟨row, rfl⟩

theorem epoch_of_qualifyingDays {t : RampTables} {epochId : Uuid}
    (h : 0 < t.qualifyingDays epochId) : ∃ row, t.epochs.find? epochId = some row := by
  unfold RampTables.qualifyingDays at h
  cases hfind : t.epochs.find? epochId with
  | none => simp [hfind] at h
  | some row => exact ⟨row, rfl⟩

theorem updateDay_eq_some {t t' : RampTables} {mailboxId : Uuid} {businessDate : BusinessDate}
    {guard : SendDay → Bool} {set : SendDay → SendDay} {returned : Option SendDay}
    (h : t.updateDay mailboxId businessDate guard set = some (returned, t')) :
    (returned = none ∧ t' = t ∧
      ∀ day, t.days.find? (mailboxId, businessDate) = some day → guard day = false) ∨
    ∃ day, t.days.find? (mailboxId, businessDate) = some day ∧ guard day = true ∧
      sendDayChecks (set day) = true ∧ returned = some (set day) ∧
      t' = { t with days := t.days.upsert (set day) } := by
  simp only [RampTables.updateDay, Option.bind_eq_bind, Option.bind_eq_some_iff, Option.some.injEq,
    Prod.exists, Prod.mk.injEq] at h
  obtain ⟨returned', days, hupdate, rfl, rfl⟩ := h
  rcases Table.updateRow_eq_some hupdate with ⟨hret, rfl, hnone⟩ | ⟨day, hday, hguard, hchecks, hret, rfl⟩
  · exact .inl ⟨hret, rfl, hnone⟩
  · exact .inr ⟨day, hday, hguard, hchecks, hret, rfl⟩

theorem updateRamp_eq_some {t t' : RampTables} {mailboxId : Uuid} {guard : RampDbRow → Bool}
    {set : RampDbRow → RampDbRow} {returned : Option RampDbRow}
    (h : t.updateRamp mailboxId guard set = some (returned, t')) :
    (returned = none ∧ t' = t ∧ ∀ row, t.ramps.find? mailboxId = some row → guard row = false) ∨
    ∃ row, t.ramps.find? mailboxId = some row ∧ guard row = true ∧
      returned = some (set row) ∧ t' = { t with ramps := t.ramps.upsert (set row) } := by
  simp only [RampTables.updateRamp, Option.bind_eq_bind, Option.bind_eq_some_iff,
    Option.some.injEq, Prod.exists, Prod.mk.injEq] at h
  obtain ⟨returned', ramps, hupdate, rfl, rfl⟩ := h
  rcases Table.updateRow_eq_some hupdate with ⟨hret, rfl, hnone⟩ | ⟨row, hrow, hguard, -, hret, rfl⟩
  · exact .inl ⟨hret, rfl, hnone⟩
  · exact .inr ⟨row, hrow, hguard, hret, rfl⟩

theorem updateEpoch_eq_some {t t' : RampTables} {epochId : Uuid}
    {set : RecoveryEpoch → RecoveryEpoch} (h : t.updateEpoch (some epochId) set = some t') :
    (t' = t ∧ t.epochs.find? epochId = none) ∨
    ∃ row, t.epochs.find? epochId = some row ∧
      t' = { t with epochs := t.epochs.upsert (set row) } := by
  simp only [RampTables.updateEpoch, Option.bind_eq_bind, Option.bind_eq_some_iff,
    Option.some.injEq, Prod.exists] at h
  obtain ⟨returned, epochs, hupdate, rfl⟩ := h
  rcases Table.updateRow_eq_some hupdate with ⟨-, rfl, hnone⟩ | ⟨row, hrow, -, -, -, rfl⟩
  · refine .inl ⟨rfl, ?_⟩
    cases hfind : t.epochs.find? epochId with
    | none => rfl
    | some row => cases hnone row hfind
  · exact .inr ⟨row, hrow, rfl⟩

/-- A ramp row whose count stands is written. -/
theorem keepsCounts_upsert {t : RampTables} {row : RampDbRow}
    (h : row.healthySendingDays = t.healthySendingDays row.mailboxId) :
    KeepsCounts t { t with ramps := t.ramps.upsert row } where
  days := rfl
  growth m := by
    rw [healthySendingDays_upsert]
    split_ifs with hm
    · rw [h, hm]
    · rfl
  recovery _ := rfl

/-! ## The ramp row -/

theorem assessInactivity_keeps {t t' : RampTables} {mailboxId uuid : Uuid} {earnedCap : Int}
    {activity : Option SenderActivity} {locked : RampDbRow}
    (h : assessInactivity t mailboxId earnedCap activity uuid = some t')
    (hlocked : t.ramps.find? mailboxId = some locked) :
    KeepsCounts t t' ∧
      ∃ epochId, t'.ramps.find? mailboxId = some { locked with recoveryEpochId := epochId } := by
  have hid : locked.mailboxId = mailboxId := Table.find?_key hlocked
  have hcount := healthySendingDays_of_find hlocked
  have hwrite : ∀ (s : RampTables) epochId, s.ramps = t.ramps →
      KeepsCounts s { s with ramps := t.ramps.upsert { locked with recoveryEpochId := epochId } } := by
    intro s epochId hs
    rw [← hs]
    refine keepsCounts_upsert ?_
    rw [hid, ← hcount]
    unfold RampTables.healthySendingDays
    rw [hs]
  have hfind : ∀ epochId, (t.ramps.upsert { locked with recoveryEpochId := epochId }).find? mailboxId
      = some { locked with recoveryEpochId := epochId } :=
    fun epochId => Table.find?_upsert_of_key hid
  unfold assessInactivity at h
  rw [hlocked] at h
  cases activity with
  | none =>
    cases h
    exact ⟨.refl t, locked.recoveryEpochId, hlocked⟩
  | some a =>
    simp only at h
    split at h
    · cases h
      exact ⟨.refl t, locked.recoveryEpochId, hlocked⟩
    · split at h
      · cases h
        exact ⟨.refl t, locked.recoveryEpochId, hlocked⟩
      · split at h
        · next epoch _ =>
          cases h
          exact ⟨hwrite t _ rfl, _, hfind _⟩
        · split at h
          · simp only [Option.bind_eq_bind, Option.bind_eq_some_iff, Option.some.injEq] at h
            obtain ⟨epochs, hinsert, rfl⟩ := h
            refine ⟨KeepsCounts.trans (u := { t with epochs := epochs }) ?_ (hwrite _ _ rfl), _,
              hfind _⟩
            refine ⟨rfl, fun _ => rfl, fun id => ?_⟩
            -- the new epoch counts nothing, as the epoch that was not there did
            unfold RampTables.qualifyingDays
            by_cases hk : id = uuid
            · subst hk
              rw [Table.find?_insert?_self hinsert, (Table.insert?_eq_some hinsert).1]
              rfl
            · rw [Table.find?_insert?_ne hinsert hk]
          · cases h

theorem ensureRamp_keeps {e : RampEnv} {t t' : RampTables} {mailboxId : Uuid} {ramp : RampRow}
    (h : ensureRamp e t mailboxId = some (ramp, t')) :
    KeepsCounts t t' ∧ ramp.recovery = readRecovery t' mailboxId ∧
      ∃ row, t'.ramps.find? mailboxId = some row ∧ row.lastAdvancedOn = ramp.lastAdvancedOn := by
  simp only [ensureRamp, Option.bind_eq_bind, Option.bind_eq_some_iff, Option.some.injEq,
    Prod.mk.injEq] at h
  obtain ⟨t'', hassess, rfl, rfl⟩ := h
  generalize hrow : (t.ramps.find? mailboxId).getD (newRamp mailboxId) = row at hassess
  have hid : row.mailboxId = mailboxId ∧
      row.healthySendingDays = t.healthySendingDays mailboxId := by
    unfold RampTables.healthySendingDays
    subst hrow
    cases hfind : t.ramps.find? mailboxId with
    | none => exact ⟨rfl, rfl⟩
    | some found => exact ⟨Table.find?_key hfind, rfl⟩
  have hfind : (t.ramps.upsert row).find? mailboxId = some row :=
    Table.find?_upsert_of_key hid.1
  obtain ⟨hkeeps, epochId, hepoch⟩ := assessInactivity_keeps hassess hfind
  refine ⟨(keepsCounts_upsert ?_).trans hkeeps, rfl, _, hepoch, rfl⟩
  rw [hid.1, hid.2]

theorem ensureRamp_advances {e : RampEnv} {t t' : RampTables} {mailboxId : Uuid} {ramp : RampRow}
    (hb : Balanced t) (h : ensureRamp e t mailboxId = some (ramp, t')) : Advances t t' :=
  hb.keepsCounts (ensureRamp_keeps h).1

/-! ## The send day -/

theorem SendDay.graduated_of_open {day : SendDay} (h : day.closedAt = none) (mailboxId : Uuid) :
    day.graduated mailboxId = false := by
  simp [SendDay.graduated, h]

theorem SendDay.qualified_of_open {day : SendDay} (h : day.closedAt = none) (epochId : Uuid) :
    day.qualified epochId = false := by
  simp [SendDay.qualified, h]

theorem SendDay.graduated_of_unhealthy {day : SendDay} (h : day.healthy = some false)
    (mailboxId : Uuid) : day.graduated mailboxId = false := by
  simp [SendDay.graduated, h]

theorem SendDay.qualified_of_unhealthy {day : SendDay} (h : day.healthy = some false)
    (epochId : Uuid) : day.qualified epochId = false := by
  simp [SendDay.qualified, h]

/-- The columns a verdict consists of. -/
structure SameVerdict (old new : SendDay) : Prop where
  mailboxId : new.mailboxId = old.mailboxId
  businessDate : new.businessDate = old.businessDate
  healthy : new.healthy = old.healthy
  closedAt : new.closedAt = old.closedAt
  recoveryCredited : new.recoveryCredited = old.recoveryCredited
  recoveryEpochId : new.recoveryEpochId = old.recoveryEpochId

theorem SameVerdict.key {old new : SendDay} (h : SameVerdict old new) : new.key = old.key := by
  simp only [SendDay.key, h.mailboxId, h.businessDate]

theorem Balanced.sameVerdict {t : RampTables} {k : Uuid × BusinessDate} {old new : SendDay}
    (hb : Balanced t) (hfind : t.days.find? k = some old) (hsame : SameVerdict old new) :
    Advances t { t with days := t.days.upsert new } := by
  have hkey : new.key = k := hsame.key.trans (Table.find?_key hfind)
  have hmem : old ∈ t.days := (Table.find?_eq_some.1 hfind).1
  refine hb.changesDay (d := new) ⟨rfl, fun m => ?_, fun id => ?_, ?_, ?_, ?_⟩
  · simp only [hkey, hfind, Option.any_some, SendDay.graduated, hsame.mailboxId, hsame.closedAt,
      hsame.healthy, hsame.recoveryCredited, RampTables.healthySendingDays]
  · simp only [hkey, hfind, Option.any_some, SendDay.qualified, hsame.recoveryEpochId,
      hsame.closedAt, hsame.healthy, hsame.recoveryCredited, RampTables.qualifyingDays]
  · rw [hsame.healthy, hsame.closedAt]
    exact hb.verdict old hmem
  · rw [hsame.recoveryCredited, hsame.closedAt]
    exact hb.credited old hmem
  · intro old' hold' hunhealthy
    rw [hkey, hfind] at hold'
    cases hold'
    rw [hsame.healthy, hunhealthy]

theorem openSendDay_advances {t t' : RampTables} {mailboxId : Uuid} {businessDate : BusinessDate}
    {cap : Int} {day : SendDay} (hb : Balanced t)
    (h : openSendDay t mailboxId businessDate cap = some (day, t')) : Advances t t' := by
  unfold openSendDay at h
  generalize hrow : newSendDay mailboxId businessDate cap (readRecovery t mailboxId) = row at h
  have hopen : row.closedAt = none := by rw [← hrow]; rfl
  simp only at h
  split at h
  · obtain ⟨rfl, rfl⟩ := Prod.mk.inj (Option.some.inj h)
    cases hfind : t.days.find? row.key with
    | none =>
      refine hb.changesDay (d := row) ⟨rfl, fun m => ?_, fun id => ?_, ?_, ?_, ?_⟩
      · simp only [hfind, Option.any_none, row.graduated_of_open hopen,
          RampTables.healthySendingDays]
      · simp only [hfind, Option.any_none, row.qualified_of_open hopen,
          RampTables.qualifyingDays]
      · rw [← hrow]
        rfl
      · rw [← hrow]
        intro hcredited
        cases hcredited
      · intro old hold
        rw [hfind] at hold
        cases hold
    | some old => exact hb.sameVerdict hfind ⟨rfl, rfl, rfl, rfl, rfl, rfl⟩
  · cases h

theorem updateDay_advances {t t' : RampTables} {mailboxId : Uuid} {businessDate : BusinessDate}
    {guard : SendDay → Bool} {set : SendDay → SendDay} {returned : Option SendDay}
    (hb : Balanced t) (hset : ∀ day, SameVerdict day (set day))
    (h : t.updateDay mailboxId businessDate guard set = some (returned, t')) : Advances t t' := by
  rcases updateDay_eq_some h with ⟨-, rfl, -⟩ | ⟨day, hday, -, -, -, rfl⟩
  · exact .refl hb
  · exact hb.sameVerdict hday (hset day)

theorem countAutomatedSend_advances {t t' : RampTables} {mailboxId : Uuid}
    {businessDate : BusinessDate} {cap : Int} {counted : Bool} (hb : Balanced t)
    (h : countAutomatedSend t mailboxId businessDate cap = some (counted, t')) :
    Advances t t' := by
  simp only [countAutomatedSend, Option.bind_eq_bind, Option.bind_eq_some_iff, Option.some.injEq,
    Prod.exists, Prod.mk.injEq] at h
  obtain ⟨returned, t'', hupdate, -, rfl⟩ := h
  refine updateDay_advances hb ?_ hupdate
  exact fun _ => ⟨rfl, rfl, rfl, rfl, rfl, rfl⟩

/-! ## Closing a day -/

theorem readRecovery_epoch {t : RampTables} {mailboxId : Uuid} {recovery : SenderRecovery}
    (h : readRecovery t mailboxId = some recovery) :
    ∃ row, t.epochs.find? recovery.epochId = some row := by
  simp only [readRecovery, Option.bind_eq_bind, Option.bind_eq_some_iff, Option.some.injEq] at h
  obtain ⟨ramp, -, epochId, -, row, hrow, rfl⟩ := h
  exact ⟨row, by rw [Table.find?_key hrow, hrow]⟩

theorem closeFailure_eq_none {e : RampEnv} {ramp : RampRow} {day : SendDay}
    {conditions : DayConditions} (h : closeFailure e ramp day conditions = none) :
    recoveryOrderFailure ramp.recovery day = none ∧
      (ramp.recovery.any SenderRecovery.active = false →
        ramp.lastAdvancedOn.all (· < day.businessDate) = true) := by
  simp only [closeFailure, Option.orElse_eq_orElse, Option.orElse_eq_or, Option.or_eq_none_iff] at h
  refine ⟨h.1, fun hgrowing => ?_⟩
  have horder := h.2.2.2
  simp only [hgrowing, Bool.not_false, Bool.true_and] at horder
  cases hlast : ramp.lastAdvancedOn with
  | none => rfl
  | some last =>
    simp only [hlast, Option.any_some, decide_eq_true_eq] at horder
    simp only [Option.all_some, decide_eq_true_eq]
    by_contra hlate
    rw [if_pos (Int.not_lt.1 hlate)] at horder
    cases horder

/-- A day that passes carries the epoch in force. -/
theorem recoveryEpochId_of_order {recovery : SenderRecovery} {day : SendDay}
    (h : recoveryOrderFailure (some recovery) day = none) :
    day.recoveryEpochId = some recovery.epochId := by
  simp only [recoveryOrderFailure] at h
  split at h
  · cases h
  · next hpass =>
    by_contra hepoch
    exact hpass (.inl hepoch)

theorem updateRamp_keeps {t t' : RampTables} {mailboxId : Uuid} {guard : RampDbRow → Bool}
    {set : RampDbRow → RampDbRow} {returned : Option RampDbRow}
    (hid : ∀ row, (set row).mailboxId = row.mailboxId)
    (hset : ∀ row, (set row).healthySendingDays = row.healthySendingDays)
    (h : t.updateRamp mailboxId guard set = some (returned, t')) : KeepsCounts t t' := by
  rcases updateRamp_eq_some h with ⟨-, rfl, -⟩ | ⟨row, hrow, -, -, rfl⟩
  · exact .refl t'
  · refine keepsCounts_upsert ?_
    rw [hset, hid, Table.find?_key hrow, healthySendingDays_of_find hrow]

/-- A day closed unhealthy moves no counter. -/
theorem Balanced.closeUnhealthy {t : RampTables} {k : Uuid × BusinessDate} {day : SendDay}
    (e : RampEnv) (hb : Balanced t) (hday : t.days.find? k = some day)
    (hopen : day.closedAt = none) :
    Advances t { t with days := t.days.upsert (closeSet e false day) } := by
  have hfound : day.key = k := Table.find?_key hday
  have hkey : (closeSet e false day).key = k := hfound
  refine hb.changesDay (d := closeSet e false day) ⟨rfl, fun m => ?_, fun id => ?_, rfl, ?_, ?_⟩
  · rw [hkey, hday, Option.any_some, day.graduated_of_open hopen,
      (closeSet e false day).graduated_of_unhealthy rfl]
    rfl
  · rw [hkey, hday, Option.any_some, day.qualified_of_open hopen,
      (closeSet e false day).qualified_of_unhealthy rfl]
    rfl
  · exact fun _ => rfl
  · exact fun _ _ _ => rfl

/-- A day closed healthy in the mailbox's own growth adds one to the ramp. -/
theorem Balanced.closeGrowth {t : RampTables} {day : SendDay} {row : RampDbRow} (e : RampEnv)
    (hb : Balanced t) (hday : t.days.find? day.key = some day) (hopen : day.closedAt = none)
    (hrow : t.ramps.find? day.mailboxId = some row) :
    Advances t { t with
      days := t.days.upsert (closeSet e true day)
      ramps := t.ramps.upsert (advanceSet day.businessDate row) } := by
  have hmem : day ∈ t.days := (Table.find?_eq_some.1 hday).1
  have hkey : (closeSet e true day).key = day.key := rfl
  have hid : row.mailboxId = day.mailboxId := Table.find?_key hrow
  have hcredited : day.recoveryCredited = false := by
    by_contra hc
    simpa [hopen] using hb.credited day hmem (by simpa using hc)
  have hhealthy : day.healthy = none := by
    simpa [hopen] using hb.verdict day hmem
  refine hb.changesDay (d := closeSet e true day) ⟨rfl, fun m => ?_, fun id => ?_, rfl, ?_, ?_⟩
  · rw [hkey, hday, Option.any_some, day.graduated_of_open hopen]
    have hgrowth := healthySendingDays_upsert t (advanceSet day.businessDate row) m
    have hcount := healthySendingDays_of_find hrow
    simp only [RampTables.healthySendingDays] at hgrowth hcount ⊢
    rw [hgrowth]
    by_cases hm : day.mailboxId = m
    · subst hm
      simp [SendDay.graduated, closeSet, advanceSet, hid, hcredited, hcount]
    · have hm' : m ≠ day.mailboxId := fun h => hm h.symm
      simp [SendDay.graduated, closeSet, advanceSet, hid, hm, hm']
  · rw [hkey, hday, Option.any_some, day.qualified_of_open hopen]
    simp [SendDay.qualified, closeSet, hcredited, RampTables.qualifyingDays]
  · exact fun _ => rfl
  · intro old hold hunhealthy
    rw [hkey, hday] at hold
    cases hold
    rw [hhealthy] at hunhealthy
    cases hunhealthy

/-- A day closed healthy in recovery adds one to the epoch it carries. -/
theorem Balanced.closeRecovery {t : RampTables} {day : SendDay} {r : RecoveryEpoch}
    (e : RampEnv) (hb : Balanced t) (hday : t.days.find? day.key = some day)
    (hopen : day.closedAt = none) (hrow : t.epochs.find? r.id = some r)
    (hepoch : day.recoveryEpochId = some r.id) :
    Advances t { t with
      days := t.days.upsert (creditSet (closeSet e true day))
      epochs := t.epochs.upsert (qualifySet day.businessDate r) } := by
  have hmem : day ∈ t.days := (Table.find?_eq_some.1 hday).1
  have hkey : (creditSet (closeSet e true day)).key = day.key := rfl
  have hhealthy : day.healthy = none := by
    simpa [hopen] using hb.verdict day hmem
  refine hb.changesDay (d := creditSet (closeSet e true day))
    ⟨rfl, fun m => ?_, fun id => ?_, rfl, ?_, ?_⟩
  · rw [hkey, hday, Option.any_some, day.graduated_of_open hopen]
    simp [SendDay.graduated, creditSet, RampTables.healthySendingDays]
  · rw [hkey, hday, Option.any_some, day.qualified_of_open hopen]
    have hrecovery := qualifyingDays_upsert t (qualifySet day.businessDate r) id
    have hcount := qualifyingDays_of_find hrow
    simp only [RampTables.qualifyingDays] at hrecovery hcount ⊢
    rw [hrecovery]
    by_cases hm : r.id = id
    · subst hm
      simp [SendDay.qualified, closeSet, creditSet, qualifySet, hepoch, hcount]
    · have hm' : id ≠ r.id := fun h => hm h.symm
      simp [SendDay.qualified, closeSet, creditSet, qualifySet, hepoch, hm, hm']
  · exact fun _ => rfl
  · intro old hold hunhealthy
    rw [hkey, hday] at hold
    cases hold
    rw [hhealthy] at hunhealthy
    cases hunhealthy

/-- An update without a condition writes the r that is there. -/
theorem updateDay_of_find {t t' : RampTables} {mailboxId : Uuid} {businessDate : BusinessDate}
    {set : SendDay → SendDay} {returned : Option SendDay} {d : SendDay}
    (hday : t.days.find? (mailboxId, businessDate) = some d)
    (h : t.updateDay mailboxId businessDate (fun _ => true) set = some (returned, t')) :
    returned = some (set d) ∧ t' = { t with days := t.days.upsert (set d) } := by
  rcases updateDay_eq_some h with ⟨-, -, hnone⟩ | ⟨found, hfound, -, -, hret, rfl⟩
  · cases hnone d hday
  · rw [hday] at hfound
    cases hfound
    exact ⟨hret, rfl⟩

theorem closeSendDay_advances {e : RampEnv} {t t' : RampTables} {mailboxId : Uuid}
    {businessDate : BusinessDate} {conditions : DayConditions} {outcome : Option CloseDayOutcome}
    (hb : Balanced t)
    (h : closeSendDay e t mailboxId businessDate conditions = some (outcome, t')) :
    Advances t t' := by
  simp only [closeSendDay, Option.bind_eq_bind, Option.bind_eq_some_iff, Prod.exists] at h
  obtain ⟨ramp, t₁, hramp, h⟩ := h
  have hfirst := ensureRamp_advances hb hramp
  have hb₁ := hfirst.balanced
  obtain ⟨-, hrecovery, row, hrow, hlast⟩ := ensureRamp_keeps hramp
  refine hfirst.trans ?_
  cases hday : t₁.days.find? (mailboxId, businessDate) with
  | none =>
    simp only [hday, Option.some.injEq, Prod.mk.injEq] at h
    obtain ⟨-, rfl⟩ := h
    exact .refl hb₁
  | some day =>
    have hkey : day.key = (mailboxId, businessDate) := Table.find?_key hday
    obtain ⟨hmailbox, hdate⟩ := Prod.mk.inj hkey
    subst hmailbox hdate
    simp only [hday] at h
    split at h
    · obtain ⟨-, rfl⟩ := Prod.mk.inj (Option.some.inj h)
      exact .refl hb₁
    · next hclosed =>
      have hopen : day.closedAt = none := by simpa using hclosed
      cases hfailure : closeFailure e ramp day conditions with
      | some failure =>
        simp only [hfailure, Option.bind_eq_some_iff, Prod.exists, Option.some.injEq,
          Prod.mk.injEq] at h
        obtain ⟨_, t₂, hclose, _, t₃, hwrite, -, rfl⟩ := h
        obtain ⟨-, rfl⟩ := updateDay_of_find hday hclose
        have hsecond := hb₁.closeUnhealthy e hday hopen
        refine hsecond.trans (hsecond.balanced.keepsCounts (updateRamp_keeps ?_ ?_ hwrite))
        · exact fun _ => rfl
        · exact fun _ => rfl
      | none =>
        obtain ⟨horder, hadvance⟩ := closeFailure_eq_none hfailure
        simp only [hfailure, Option.bind_eq_some_iff, Prod.exists] at h
        obtain ⟨_, t₂, hclose, h⟩ := h
        obtain ⟨-, rfl⟩ := updateDay_of_find hday hclose
        cases hactive : ramp.recovery.filter SenderRecovery.active with
        | some recovery =>
          obtain ⟨hsome, -⟩ := Option.filter_eq_some_iff.1 hactive
          rw [hsome] at horder
          have hepoch := recoveryEpochId_of_order horder
          obtain ⟨epoch, hfind⟩ := readRecovery_epoch (hrecovery ▸ hsome)
          have hid : epoch.id = recovery.epochId := Table.find?_key hfind
          simp only [hactive, Option.bind_eq_some_iff, Prod.exists, Option.some.injEq,
            Prod.mk.injEq] at h
          obtain ⟨t₃, hqualify, _, t₄, hcredit, -, rfl⟩ := h
          rcases updateEpoch_eq_some hqualify with ⟨-, hnone⟩ | ⟨epoch', hepoch', rfl⟩
          · rw [hfind] at hnone
            cases hnone
          · have hsame : epoch' = epoch := Option.some.inj (hepoch'.symm.trans hfind)
            subst hsame
            obtain ⟨-, rfl⟩ := updateDay_of_find (d := closeSet e true day)
              (Table.find?_upsert_of_key rfl) hcredit
            have hmerge : (t₁.days.upsert (closeSet e true day)).upsert
                (creditSet (closeSet e true day)) = t₁.days.upsert (creditSet (closeSet e true day)) :=
              Table.upsert_upsert rfl
            have := hb₁.closeRecovery (r := epoch') e hday hopen (hid ▸ hfind) (hid ▸ hepoch)
            rw [← hmerge] at this
            exact this
        | none =>
          have hgrowing : ramp.recovery.any SenderRecovery.active = false := by
            cases hr : ramp.recovery with
            | none => rfl
            | some r => simpa [hr, Option.filter] using hactive
          simp only [hactive, Option.bind_eq_some_iff, Prod.exists, Option.some.injEq,
            Prod.mk.injEq] at h
          obtain ⟨_, t₃, hwrite, -, rfl⟩ := h
          rcases updateRamp_eq_some hwrite with ⟨-, -, hnone⟩ | ⟨row', hrow', -, -, rfl⟩
          · have hlate := hnone row hrow
            rw [hlast, hadvance hgrowing] at hlate
            cases hlate
          · exact hb₁.closeGrowth e hday hopen hrow'

/-! ## Late signals -/

theorem Balanced.healthySendingDays_pos {t : RampTables} {day : SendDay} {mailboxId : Uuid}
    (hb : Balanced t) (hday : day ∈ t.days) (h : day.graduated mailboxId = true) :
    0 < t.healthySendingDays mailboxId := by
  rw [hb.growth]
  exact_mod_cast Table.count_pos hday h

theorem Balanced.qualifyingDays_pos {t : RampTables} {day : SendDay} {epochId : Uuid}
    (hb : Balanced t) (hday : day ∈ t.days) (h : day.qualified epochId = true) :
    0 < t.qualifyingDays epochId := by
  rw [hb.recovery]
  exact_mod_cast Table.count_pos hday h

/-- A healthy day is written unhealthy: what it counted for is taken back. -/
structure Revokes (old new : SendDay) : Prop where
  key : new.key = old.key
  wasHealthy : old.healthy = some true
  healthy : new.healthy = some false
  closedAt : new.closedAt = old.closedAt

theorem Balanced.closedAt_of_healthy {t : RampTables} {day : SendDay} {healthy : Bool}
    (hb : Balanced t) (hday : day ∈ t.days) (h : day.healthy = some healthy) :
    day.closedAt.isSome = true := by
  rw [← hb.verdict day hday, h]
  rfl

/-- The day and one counter written together, with the counter one lower. -/
theorem Balanced.revokes {t t' : RampTables} {old new : SendDay} (hb : Balanced t)
    (hold : t.days.find? old.key = some old) (hr : Revokes old new)
    (hdays : t'.days = t.days.upsert new)
    (hgrowth : ∀ m, t'.healthySendingDays m
      = t.healthySendingDays m - if old.graduated m then 1 else 0)
    (hrecovery : ∀ id, t'.qualifyingDays id
      = t.qualifyingDays id - if old.qualified id then 1 else 0) : Advances t t' := by
  have hmem : old ∈ t.days := (Table.find?_eq_some.1 hold).1
  have hclosed := hb.closedAt_of_healthy hmem hr.wasHealthy
  refine hb.changesDay (d := new) ⟨hdays, fun m => ?_, fun id => ?_, ?_, ?_, ?_⟩
  · rw [hr.key, hold, Option.any_some, hgrowth, new.graduated_of_unhealthy hr.healthy]
    simp
  · rw [hr.key, hold, Option.any_some, hrecovery, new.qualified_of_unhealthy hr.healthy]
    simp
  · rw [hr.healthy, hr.closedAt, hclosed]
    rfl
  · rw [hr.closedAt, hclosed]
    exact fun _ => rfl
  · exact fun _ _ _ => hr.healthy

/-- The two corrections of a revoked day, without a clamp. -/
theorem Balanced.takeBack {t t₂ t₃ : RampTables} {old new : SendDay}
    {failure : RampHealthFailure} {returned : Option RampDbRow} (hb : Balanced t)
    (hold : t.days.find? old.key = some old) (hr : Revokes old new)
    (hepoch : RampTables.disqualifyEpoch unclamped { t with days := t.days.upsert new }
      old.recoveryCredited old.recoveryEpochId = some t₂)
    (hramp : t₂.updateRamp old.mailboxId (fun _ => true)
      (takeBackSet unclamped (if old.recoveryCredited then 0 else 1) failure) = some (returned, t₃)) :
    Advances t t₃ := by
  have hmem : old ∈ t.days := (Table.find?_eq_some.1 hold).1
  have hclosed := hb.closedAt_of_healthy hmem hr.wasHealthy
  unfold RampTables.disqualifyEpoch at hepoch
  by_cases hcredited : old.recoveryCredited = true
  · have hgraduated : ∀ m, old.graduated m = false := fun m => by
      simp [SendDay.graduated, hcredited]
    have hqualified : ∀ id, old.qualified id = true ↔ old.recoveryEpochId = some id := fun id => by
      simp [SendDay.qualified, hclosed, hr.wasHealthy, hcredited]
    simp only [hcredited, ↓reduceIte] at hepoch hramp
    have hsecond : Advances t t₂ := by
      cases hid : old.recoveryEpochId with
      | none =>
        simp only [hid, RampTables.updateEpoch, Option.some.injEq] at hepoch
        subst hepoch
        refine hb.revokes hold hr rfl (fun m => ?_) fun id => ?_
        · simp [hgraduated, RampTables.healthySendingDays]
        · have hno : old.qualified id = false := by simp [SendDay.qualified, hid]
          simp [hno, RampTables.qualifyingDays]
      | some epochId =>
        have hpos := hb.qualifyingDays_pos hmem ((hqualified epochId).2 hid)
        obtain ⟨row, hrow⟩ := epoch_of_qualifyingDays hpos
        rw [hid] at hepoch
        rcases updateEpoch_eq_some hepoch with ⟨-, hnone⟩ | ⟨row', hrow', rfl⟩
        · rw [hrow] at hnone
          cases hnone
        · have hkey : row'.id = epochId := Table.find?_key hrow'
          have hcount := qualifyingDays_of_find (t := t) hrow'
          refine hb.revokes hold hr rfl (fun m => ?_) fun id => ?_
          · simp [hgraduated, RampTables.healthySendingDays]
          · have hwrite := qualifyingDays_upsert t (disqualifySet unclamped row') id
            simp only [RampTables.qualifyingDays] at hwrite hcount ⊢
            rw [hwrite]
            by_cases hsame : epochId = id
            · subst hsame
              have hyes : old.qualified epochId = true := (hqualified epochId).2 hid
              simp [hyes, hkey, hcount, disqualifySet, unclamped]
            · have hno : old.qualified id = false := by
                by_contra hyes
                have := (hqualified id).1 (by simpa using hyes)
                exact hsame (Option.some.inj (hid.symm.trans this))
              simp [hno, disqualifySet, hkey, Ne.symm hsame]
    refine hsecond.trans (hsecond.balanced.keepsCounts (updateRamp_keeps ?_ ?_ hramp))
    · exact fun _ => rfl
    · exact fun row => by simp [takeBackSet, unclamped]
  · have hgraduated : ∀ m, old.graduated m = true ↔ old.mailboxId = m := fun m => by
      simp [SendDay.graduated, hclosed, hr.wasHealthy, hcredited]
    have hpos := hb.healthySendingDays_pos hmem ((hgraduated old.mailboxId).2 rfl)
    obtain ⟨row, hrow⟩ := ramp_of_healthySendingDays hpos
    simp only [hcredited, Bool.false_eq_true, ↓reduceIte, Option.some.injEq] at hepoch hramp
    subst hepoch
    rcases updateRamp_eq_some hramp with ⟨-, -, hnone⟩ | ⟨row', hrow', -, -, rfl⟩
    · cases hnone row hrow
    · have hkey : row'.mailboxId = old.mailboxId := Table.find?_key hrow'
      have hcount := healthySendingDays_of_find (t := t) hrow'
      refine hb.revokes hold hr rfl (fun m => ?_) fun id => ?_
      · have hwrite := healthySendingDays_upsert t (takeBackSet unclamped 1 failure row') m
        simp only [RampTables.healthySendingDays] at hwrite hcount ⊢
        rw [hwrite]
        by_cases hsame : old.mailboxId = m
        · subst hsame
          have hyes : old.graduated old.mailboxId = true := (hgraduated old.mailboxId).2 rfl
          simp [hyes, hkey, hcount, takeBackSet, unclamped]
        · have hno : old.graduated m = false := by
            by_contra hyes
            exact hsame ((hgraduated m).1 (by simpa using hyes))
          simp [hno, takeBackSet, hkey, Ne.symm hsame]
      · have hno : old.qualified id = false := by simp [SendDay.qualified, hcredited]
        simp [hno, RampTables.qualifyingDays]

theorem signalSet_revokes {signal : DaySignal} {day : SendDay} (h : day.healthy = some true)
    (hclosed : day.closedAt.isSome = true) : Revokes day (signalSet signal day) := by
  cases signal <;> exact ⟨rfl, h, by simp [signalSet, h, hclosed], rfl⟩

theorem signalSet_sameVerdict {signal : DaySignal} {day : SendDay}
    (h : day.healthy ≠ some true) : SameVerdict day (signalSet signal day) := by
  cases signal <;> exact ⟨rfl, rfl, by simp [signalSet, h], rfl, rfl, rfl⟩

theorem recordDaySignal_advances {t t' : RampTables} {mailboxId : Uuid}
    {businessDate : BusinessDate} {signal : DaySignal} (hb : Balanced t)
    (h : recordDaySignal unclamped t mailboxId businessDate signal = some t') :
    Advances t t' := by
  unfold recordDaySignal at h
  cases hday : t.days.find? (mailboxId, businessDate) with
  | none =>
    simp only [hday, Option.some.injEq] at h
    exact h ▸ .refl hb
  | some before =>
    have hmem : before ∈ t.days := (Table.find?_eq_some.1 hday).1
    have hkey : before.key = (mailboxId, businessDate) := Table.find?_key hday
    obtain ⟨hmailbox, hdate⟩ := Prod.mk.inj hkey
    subst hmailbox hdate
    simp only [hday, Option.bind_eq_bind, Option.bind_eq_some_iff, Prod.exists,
      Option.some.injEq] at h
    obtain ⟨_, t₁, hwrite, t₂, hepoch, _, t₃, hramp, rfl⟩ := h
    obtain ⟨-, rfl⟩ := updateDay_of_find hday hwrite
    by_cases hhealthy : before.healthy = some true
    · have hclosed := hb.closedAt_of_healthy hmem hhealthy
      simp only [hhealthy, hclosed, BEq.rfl, Bool.and_self, Bool.true_and] at hepoch hramp
      exact hb.takeBack hday (signalSet_revokes hhealthy hclosed) hepoch hramp
    · have hfalse : (before.healthy == some true) = false := by simpa using hhealthy
      simp only [hfalse, Bool.false_and, RampTables.disqualifyEpoch, Bool.false_eq_true,
        ↓reduceIte, Option.some.injEq] at hepoch hramp
      subst hepoch
      rcases updateRamp_eq_some hramp with ⟨-, rfl, -⟩ | ⟨_, -, hguard, -⟩
      · exact hb.sameVerdict hday (signalSet_sameVerdict hhealthy)
      · cases hguard

theorem revokeDayAdvancement_advances {t t' : RampTables} {mailboxId : Uuid}
    {businessDate : BusinessDate} {failure : RampHealthFailure} {revoked : Bool}
    (hb : Balanced t)
    (h : revokeDayAdvancement unclamped t mailboxId businessDate failure = some (revoked, t')) :
    Advances t t' := by
  simp only [revokeDayAdvancement, Option.bind_eq_bind, Option.bind_eq_some_iff, Prod.exists] at h
  obtain ⟨returned, t₁, hwrite, h⟩ := h
  rcases updateDay_eq_some hwrite with ⟨rfl, rfl, -⟩ | ⟨day, hday, hhealthy, -, rfl, rfl⟩
  · obtain ⟨-, rfl⟩ := Prod.mk.inj (Option.some.inj h)
    exact .refl hb
  · have hkey : day.key = (mailboxId, businessDate) := Table.find?_key hday
    obtain ⟨hmailbox, hdate⟩ := Prod.mk.inj hkey
    subst hmailbox hdate
    simp only [Option.bind_eq_some_iff, Prod.exists, Option.some.injEq, Prod.mk.injEq] at h
    obtain ⟨t₂, hepoch, _, t₃, hramp, -, rfl⟩ := h
    have hr : Revokes day { day with healthy := some false } :=
      ⟨rfl, by simpa using hhealthy, rfl, rfl⟩
    exact hb.takeBack hday hr hepoch hramp

theorem recordBounceAgainstDay_advances {e : RampEnv} {t t' : RampTables} {mailboxId : Uuid}
    {businessDate : BusinessDate} {outcome : Option BounceAgainstDay} (hb : Balanced t)
    (h : recordBounceAgainstDay unclamped e t mailboxId businessDate = some (outcome, t')) :
    Advances t t' := by
  simp only [recordBounceAgainstDay, Option.bind_eq_bind, Option.bind_eq_some_iff,
    Prod.exists] at h
  obtain ⟨ramp, t₁, hramp, returned, t₂, hbounce, h⟩ := h
  have hfirst := ensureRamp_advances hb hramp
  have hsecond : Advances t₁ t₂ := by
    refine updateDay_advances hfirst.balanced ?_ hbounce
    exact fun _ => ⟨rfl, rfl, rfl, rfl, rfl, rfl⟩
  refine hfirst.trans (hsecond.trans ?_)
  cases returned with
  | none =>
    obtain ⟨-, rfl⟩ := Prod.mk.inj (Option.some.inj h)
    exact .refl hsecond.balanced
  | some day =>
    simp only at h
    split at h
    · obtain ⟨-, rfl⟩ := Prod.mk.inj (Option.some.inj h)
      exact .refl hsecond.balanced
    · split at h
      · obtain ⟨-, rfl⟩ := Prod.mk.inj (Option.some.inj h)
        exact .refl hsecond.balanced
      · simp only [Option.bind_eq_some_iff, Prod.exists, Option.some.injEq, Prod.mk.injEq] at h
        obtain ⟨revoked, t₃, hrevoke, -, rfl⟩ := h
        exact revokeDayAdvancement_advances hsecond.balanced hrevoke

/-! ## The idle clamp -/

/-- A clamp at zero, or none. -/
def ClampsBelowZero (clamp : Int → Int) : Prop := ∀ n, 0 ≤ n → clamp n = n

theorem greatest_clampsBelowZero : ClampsBelowZero greatest := fun n hn => by
  simp only [greatest]
  omega

theorem updateEpoch_unclamped {clamp : Int → Int} (hc : ClampsBelowZero clamp) {t : RampTables}
    {epochId : Option Uuid} (h : ∀ id, epochId = some id → 0 < t.qualifyingDays id) :
    t.updateEpoch epochId (disqualifySet clamp) = t.updateEpoch epochId (disqualifySet unclamped) := by
  cases epochId with
  | none => rfl
  | some epochId =>
    unfold RampTables.updateEpoch
    refine congrArg (Option.bind · _) (Table.updateRow_congr fun row hrow _ => ?_)
    have hpos := h epochId rfl
    rw [qualifyingDays_of_find hrow] at hpos
    simp only [disqualifySet, unclamped, hc (row.qualifyingDays - 1) (by omega)]

theorem updateRamp_unclamped {clamp : Int → Int} (hc : ClampsBelowZero clamp) {t : RampTables}
    {mailboxId : Uuid} {guard : RampDbRow → Bool} {days : Int} {failure : RampHealthFailure}
    (h : days ≤ t.healthySendingDays mailboxId) :
    t.updateRamp mailboxId guard (takeBackSet clamp days failure)
      = t.updateRamp mailboxId guard (takeBackSet unclamped days failure) := by
  unfold RampTables.updateRamp
  refine congrArg (Option.bind · _) (Table.updateRow_congr fun row hrow _ => ?_)
  rw [healthySendingDays_of_find hrow] at h
  simp only [takeBackSet, unclamped, hc (row.healthySendingDays - days) (by omega)]

theorem updateEpoch_ramps {t t' : RampTables} {epochId : Option Uuid}
    {set : RecoveryEpoch → RecoveryEpoch} (h : t.updateEpoch epochId set = some t') :
    t'.ramps = t.ramps := by
  cases epochId with
  | none =>
    cases h
    rfl
  | some epochId =>
    rcases updateEpoch_eq_some h with ⟨rfl, -⟩ | ⟨_, -, rfl⟩ <;> rfl

/-- Revoking a healthy day takes from counters that hold it. -/
theorem Balanced.takeBack_unclamped {clamp : Int → Int} (hc : ClampsBelowZero clamp)
    {α : Type} {t : RampTables} {day : SendDay} {guard : RampDbRow → Bool}
    {failure : RampHealthFailure} (hb : Balanced t) (hday : day ∈ t.days)
    (hhealthy : day.healthy = some true) (new : SendDay)
    (next : Option RampDbRow × RampTables → Option α) :
    ((RampTables.disqualifyEpoch clamp { t with days := t.days.upsert new }
        day.recoveryCredited day.recoveryEpochId).bind fun t₂ =>
      (t₂.updateRamp day.mailboxId guard
        (takeBackSet clamp (if day.recoveryCredited then 0 else 1) failure)).bind next)
    = ((RampTables.disqualifyEpoch unclamped { t with days := t.days.upsert new }
        day.recoveryCredited day.recoveryEpochId).bind fun t₂ =>
      (t₂.updateRamp day.mailboxId guard
        (takeBackSet unclamped (if day.recoveryCredited then 0 else 1) failure)).bind next) := by
  have hclosed := hb.closedAt_of_healthy hday hhealthy
  unfold RampTables.disqualifyEpoch
  by_cases hcredited : day.recoveryCredited = true
  · simp only [hcredited, ↓reduceIte]
    have hpos : ∀ id, day.recoveryEpochId = some id →
        0 < RampTables.qualifyingDays { t with days := t.days.upsert new } id := fun id hid =>
      hb.qualifyingDays_pos hday (by simp [SendDay.qualified, hid, hclosed, hhealthy, hcredited])
    rw [updateEpoch_unclamped hc hpos]
    refine Option.bind_congr fun t₂ ht₂ => congrArg (Option.bind · next) ?_
    refine updateRamp_unclamped hc ?_
    have hnonneg : 0 ≤ t.healthySendingDays day.mailboxId := by
      rw [hb.growth]
      exact Int.natCast_nonneg _
    rw [RampTables.healthySendingDays, updateEpoch_ramps ht₂]
    exact hnonneg
  · simp only [hcredited, Bool.false_eq_true, ↓reduceIte, Option.bind_some]
    have hpos : 0 < t.healthySendingDays day.mailboxId :=
      hb.healthySendingDays_pos hday (by simp [SendDay.graduated, hclosed, hhealthy, hcredited])
    exact congrArg (Option.bind · next) (updateRamp_unclamped hc hpos)

theorem recordDaySignal_unclamped {clamp : Int → Int} (hc : ClampsBelowZero clamp)
    {t : RampTables} (hb : Balanced t) (mailboxId : Uuid) (businessDate : BusinessDate)
    (signal : DaySignal) :
    recordDaySignal clamp t mailboxId businessDate signal
      = recordDaySignal unclamped t mailboxId businessDate signal := by
  unfold recordDaySignal
  cases hday : t.days.find? (mailboxId, businessDate) with
  | none => rfl
  | some before =>
    have hmem : before ∈ t.days := (Table.find?_eq_some.1 hday).1
    have hkey : before.key = (mailboxId, businessDate) := Table.find?_key hday
    obtain ⟨hmailbox, hdate⟩ := Prod.mk.inj hkey
    subst hmailbox hdate
    refine Option.bind_congr fun (returned, t₁) hwrite => ?_
    obtain ⟨-, rfl⟩ := updateDay_of_find hday hwrite
    by_cases hhealthy : before.healthy = some true
    · have hclosed := hb.closedAt_of_healthy hmem hhealthy
      simp only [hhealthy, hclosed, BEq.rfl, Bool.and_self, Bool.true_and]
      exact hb.takeBack_unclamped hc hmem hhealthy _ fun p => some p.2
    · have hfalse : (before.healthy == some true) = false := by simpa using hhealthy
      simp only [hfalse, Bool.false_and]
      refine Option.bind_congr fun t₂ _ => congrArg (Option.bind · _) ?_
      unfold RampTables.updateRamp
      exact congrArg (Option.bind · _) (Table.updateRow_congr fun _ _ hguard => by cases hguard)

theorem revokeDayAdvancement_unclamped {clamp : Int → Int} (hc : ClampsBelowZero clamp)
    {t : RampTables} (hb : Balanced t) (mailboxId : Uuid) (businessDate : BusinessDate)
    (failure : RampHealthFailure) :
    revokeDayAdvancement clamp t mailboxId businessDate failure
      = revokeDayAdvancement unclamped t mailboxId businessDate failure := by
  refine Option.bind_congr fun (returned, t₁) hwrite => ?_
  rcases updateDay_eq_some hwrite with ⟨rfl, rfl, -⟩ | ⟨day, hday, hhealthy, -, rfl, rfl⟩
  · rfl
  · have hmem : day ∈ t.days := (Table.find?_eq_some.1 hday).1
    have hkey : day.key = (mailboxId, businessDate) := Table.find?_key hday
    obtain ⟨hmailbox, hdate⟩ := Prod.mk.inj hkey
    subst hmailbox hdate
    exact hb.takeBack_unclamped hc hmem (by simpa using hhealthy) _ fun p => some (true, p.2)

theorem recordBounceAgainstDay_unclamped {clamp : Int → Int} (hc : ClampsBelowZero clamp)
    {e : RampEnv} {t : RampTables} (hb : Balanced t) (mailboxId : Uuid)
    (businessDate : BusinessDate) :
    recordBounceAgainstDay clamp e t mailboxId businessDate
      = recordBounceAgainstDay unclamped e t mailboxId businessDate := by
  refine Option.bind_congr fun (ramp, t₁) hramp => ?_
  have hfirst := ensureRamp_advances hb hramp
  refine Option.bind_congr fun (returned, t₂) hbounce => ?_
  have hsecond : Advances t₁ t₂ := by
    refine updateDay_advances hfirst.balanced ?_ hbounce
    exact fun _ => ⟨rfl, rfl, rfl, rfl, rfl, rfl⟩
  cases returned with
  | none => rfl
  | some day => simp only [revokeDayAdvancement_unclamped hc hsecond.balanced]

/-! ## Runs -/

/-- A call; its transaction is one step. -/
inductive RampAction
  | ensureRamp (e : RampEnv) (mailboxId : Uuid)
  | openSendDay (mailboxId : Uuid) (businessDate : BusinessDate) (cap : Int)
  | countAutomatedSend (mailboxId : Uuid) (businessDate : BusinessDate) (cap : Int)
  | closeSendDay (e : RampEnv) (mailboxId : Uuid) (businessDate : BusinessDate)
      (conditions : DayConditions)
  | recordDaySignal (mailboxId : Uuid) (businessDate : BusinessDate) (signal : DaySignal)
  | recordBounceAgainstDay (e : RampEnv) (mailboxId : Uuid) (businessDate : BusinessDate)

/-- The tables a call commits, or `none` when it raises. -/
def RampAction.commits (clamp : Int → Int) (t : RampTables) : RampAction → Option RampTables
  | ensureRamp e m => (Outbound.ensureRamp e t m).map Prod.snd
  | openSendDay m d cap => (Outbound.openSendDay t m d cap).map Prod.snd
  | countAutomatedSend m d cap => (Outbound.countAutomatedSend t m d cap).map Prod.snd
  | closeSendDay e m d conditions => (Outbound.closeSendDay e t m d conditions).map Prod.snd
  | recordDaySignal m d signal => Outbound.recordDaySignal clamp t m d signal
  | recordBounceAgainstDay e m d => (Outbound.recordBounceAgainstDay clamp e t m d).map Prod.snd

/-- A call that raises leaves the tables. -/
def rampStep (clamp : Int → Int) (t : RampTables) (action : RampAction) : RampTables :=
  (action.commits clamp t).getD t

theorem commits_advances {t t' : RampTables} (hb : Balanced t) (action : RampAction)
    (h : action.commits unclamped t = some t') : Advances t t' := by
  cases action with
  | recordDaySignal m d signal => exact recordDaySignal_advances hb h
  | ensureRamp e m =>
    obtain ⟨⟨_, _⟩, hcall, rfl⟩ := Option.map_eq_some_iff.1 h
    exact ensureRamp_advances hb hcall
  | openSendDay m d cap =>
    obtain ⟨⟨_, _⟩, hcall, rfl⟩ := Option.map_eq_some_iff.1 h
    exact openSendDay_advances hb hcall
  | countAutomatedSend m d cap =>
    obtain ⟨⟨_, _⟩, hcall, rfl⟩ := Option.map_eq_some_iff.1 h
    exact countAutomatedSend_advances hb hcall
  | closeSendDay e m d conditions =>
    obtain ⟨⟨_, _⟩, hcall, rfl⟩ := Option.map_eq_some_iff.1 h
    exact closeSendDay_advances hb hcall
  | recordBounceAgainstDay e m d =>
    obtain ⟨⟨_, _⟩, hcall, rfl⟩ := Option.map_eq_some_iff.1 h
    exact recordBounceAgainstDay_advances hb hcall

theorem rampStep_unclamped {clamp : Int → Int} (hc : ClampsBelowZero clamp) {t : RampTables}
    (hb : Balanced t) (action : RampAction) :
    rampStep clamp t action = rampStep unclamped t action := by
  cases action with
  | recordDaySignal m d signal =>
    simp only [rampStep, RampAction.commits, recordDaySignal_unclamped hc hb]
  | recordBounceAgainstDay e m d =>
    simp only [rampStep, RampAction.commits, recordBounceAgainstDay_unclamped hc hb]
  | _ => rfl

theorem rampStep_advances {clamp : Int → Int} (hc : ClampsBelowZero clamp) {t : RampTables}
    (hb : Balanced t) (action : RampAction) : Advances t (rampStep clamp t action) := by
  rw [rampStep_unclamped hc hb]
  unfold rampStep
  cases h : action.commits unclamped t with
  | none => exact .refl hb
  | some t' => exact commits_advances hb action h

theorem run_balanced {clamp : Int → Int} (hc : ClampsBelowZero clamp)
    (actions : List RampAction) : Balanced (run (rampStep clamp) .empty actions) := by
  refine run_invariant (I := Balanced) (fun t action hb => ?_) balanced_empty actions
  exact (rampStep_advances hc hb action).balanced

/-- The run with the clamp is the run without it. -/
theorem run_unclamped {clamp : Int → Int} (hc : ClampsBelowZero clamp) {t : RampTables}
    (hb : Balanced t) (actions : List RampAction) :
    run (rampStep clamp) t actions = run (rampStep unclamped) t actions := by
  induction actions generalizing t with
  | nil => rfl
  | cons action actions ih =>
    rw [run_cons, run_cons, ih (rampStep_advances hc hb action).balanced,
      rampStep_unclamped hc hb]

/-- What holds after the calls `before`, and still after the calls `later`. -/
structure RampBookkeeping (before later : List RampAction) : Prop where
  /-- `healthy_sending_days` is the number of closed, healthy, uncredited days -/
  growth : ∀ mailboxId,
    (run (rampStep greatest) .empty before).healthySendingDays mailboxId
      = (run (rampStep greatest) .empty before).days.count (SendDay.graduated mailboxId)
  /-- `qualifying_days` is the number of the epoch's closed, healthy, credited days -/
  recovery : ∀ epoch ∈ (run (rampStep greatest) .empty before).epochs,
    epoch.qualifyingDays
      = (run (rampStep greatest) .empty before).days.count (SendDay.qualified epoch.id)
  growth_nonneg : ∀ row ∈ (run (rampStep greatest) .empty before).ramps,
    0 ≤ row.healthySendingDays
  recovery_nonneg : ∀ epoch ∈ (run (rampStep greatest) .empty before).epochs,
    0 ≤ epoch.qualifyingDays
  /-- no statement's clamp changes what it writes -/
  unclamped : run (rampStep greatest) .empty before = run (rampStep unclamped) .empty before
  /-- a verdict of unhealthy is final -/
  condemned : ∀ day ∈ (run (rampStep greatest) .empty before).days, day.healthy = some false →
    ∃ day' ∈ (run (rampStep greatest) .empty (before ++ later)).days,
      day'.key = day.key ∧ day'.healthy = some false

theorem ramp_bookkeeping (before later : List RampAction) : RampBookkeeping before later := by
  have hc := greatest_clampsBelowZero
  have hb := run_balanced hc before
  have hrecovery : ∀ epoch ∈ (run (rampStep greatest) .empty before).epochs,
      epoch.qualifyingDays
        = (run (rampStep greatest) .empty before).days.count (SendDay.qualified epoch.id) := by
    intro epoch hepoch
    have hcount := hb.recovery epoch.id
    rwa [qualifyingDays_of_find (Table.find?_eq_some.2 ⟨hepoch, rfl⟩)] at hcount
  refine ⟨hb.growth, hrecovery, ?_, ?_, run_unclamped hc balanced_empty before, ?_⟩
  · intro row hrow
    have hcount := hb.growth row.mailboxId
    rw [healthySendingDays_of_find (Table.find?_eq_some.2 ⟨hrow, rfl⟩)] at hcount
    omega
  · intro epoch hepoch
    have := hrecovery epoch hepoch
    omega
  · intro day hday hunhealthy
    have hlater : Condemned (run (rampStep greatest) .empty before)
        (run (rampStep greatest) .empty (before ++ later)) := by
      rw [run_append]
      exact run_related Condemned.refl (fun _ _ _ => Condemned.trans)
        (fun _ action h => (rampStep_advances hc h action).balanced)
        (fun _ action h => (rampStep_advances hc h action).condemned) hb later
    obtain ⟨day', hday', hunhealthy'⟩ :=
      hlater day.key day (Table.find?_eq_some.2 ⟨hday, rfl⟩) hunhealthy
    obtain ⟨hmem, hkey⟩ := Table.find?_eq_some.1 hday'
    exact ⟨day', hmem, hkey, hunhealthy'⟩

end FoundingSales.Outbound
