import FoundingSales.Outbound.CapacityPrograms

/-!
The daily cap under concurrency. The counts of the committed tables are totals over their
rows, a commit changes a total by what its own rows add, and every commit is fair.

Proved here:
* `step_automatedSent`, `step_startedOn`, `step_claimedAutomatedSends`: what one step of
  one process changes;
* `daily_cap`: over every run, no claim passes the cap its transaction decided with, the
  backstop decides nothing, the cap granted never falls, and a day's count rises by one
  exactly where one prepared fence starts on that day.
-/

namespace FoundingSales.Outbound.Capacity

open Transactions Tables Runs

variable {P : Platform} {w : CapacityWorld} {i : CapacityInput} {m : Uuid} {d : BusinessDate}

def start : CapacityWorld := World.idle .empty

abbrev Sound (w : CapacityWorld) : Prop :=
  World.Sound Row.checksButBackstop good FairCommit w

/-! ## Every reachable world is sound -/

theorem checksButBackstop_of_checks (row : Row) (h : row.checks = true) :
    row.checksButBackstop = true := by
  cases row with
  | day row => exact (Bool.and_eq_true_iff.1 h).1
  | ramp row => exact h
  | fence row => exact h
  | permission row => exact h

/-- In a sound world the backstop decides nothing. -/
theorem step_eq (hw : Sound w) (i : CapacityInput) : step P w i = stepWithoutBackstop P w i :=
  World.step_checks (fun _ h => h) checksButBackstop_of_checks hw i

theorem step_sound (hw : Sound w) (i : CapacityInput) : Sound (step P w i) :=
  step_eq hw i ▸ World.step_sound (program_obeys P) hw i

theorem start_sound : Sound start := World.sound_idle fun _ h => absurd h Table.not_mem_empty

theorem reachable_sound (P : Platform) (inputs : List CapacityInput) :
    Sound (run (step P) start inputs) :=
  run_invariant (I := Sound) (fun _ i h => step_sound h i) start_sound inputs

/-- The tables a step leaves: those there were, or those of one fair commit. -/
theorem step_cases (hw : Sound w) (i : CapacityInput) :
    (w.committing i = none ∧ (step P w i).committed = w.committed) ∨
    ∃ note fp, w.committing i = some note ∧ FairCommit note fp ∧ GoodRows good fp ∧
      Matches w.committed fp ∧ (step P w i).committed = view w.committed fp := by
  rw [step_eq hw i]
  cases hnote : w.committing i with
  | none => exact .inl ⟨rfl, World.step_committed hnote⟩
  | some note =>
    obtain ⟨fp, hfair, hgood, hmatches, hview⟩ := World.step_commits (f := program P) hw hnote
    exact .inr ⟨note, fp, rfl, hfair, hgood, hmatches, hview⟩

/-! ## Counts as totals -/

theorem automatedSent_eq_total (t : CapacityTable) (m : Uuid) (d : BusinessDate) :
    automatedSent t m d = t.total (sentOn m d) := by
  have htotal : t.total (sentOn m d) = ((t.find? (.day (m, d))).map (sentOn m d)).getD 0 :=
    Table.total_of_key fun r _ hr => if_neg hr
  rw [htotal, automatedSent]
  cases hfind : t.find? (.day (m, d)) with
  | none => rfl
  | some r =>
    have hkey := Table.find?_key hfind
    obtain ⟨day, rfl⟩ := Row.eq_day hkey
    simp [Row.day?, sentOn, hkey, Row.sent]

theorem claimedAutomatedSends_eq_total (t : CapacityTable) (m : Uuid) (d : BusinessDate) :
    (claimedAutomatedSends t m d : Int) = t.total (claimWeight m d) :=
  Table.count_eq_total

/-- The fences that were prepared in the one table and are dispatching, charged to that
mailbox and date, in the other. -/
def startedOn (t t' : CapacityTable) (m : Uuid) (d : BusinessDate) : Nat :=
  t'.count fun row => (t.find? row.key).any Row.isPrepared && row.startsOn m d

theorem not_started_of_prepared {row : Row} (h : row.isPrepared = true) :
    row.startsOn m d = false := by
  cases row with
  | fence row =>
    simp only [Row.isPrepared, Row.fence?, Option.any_some, beq_iff_eq] at h
    simp [Row.startsOn, Row.fence?, h]
  | ramp row => rfl
  | day row => rfl
  | permission row => rfl

theorem startedOn_self (t : CapacityTable) (m : Uuid) (d : BusinessDate) : startedOn t t m d = 0 := by
  refine List.countP_eq_zero.2 fun row hrow hstarted => ?_
  rw [Table.find?_eq_some.2 ⟨hrow, rfl⟩, Option.any_some, Bool.and_eq_true] at hstarted
  rw [not_started_of_prepared hstarted.1] at hstarted
  cases hstarted.2

/-- The fences a commit starts are those of its own rows. -/
theorem startedOn_view {t : CapacityTable} {fp : Footprint Row.key} (hmatches : Matches t fp)
    (m : Uuid) (d : BusinessDate) :
    (startedOn t (view t fp) m d : Int) = fp.total (startWeight m d) := by
  have hold : ∀ row, t.find? row.key = some row →
      ((t.find? row.key).any Row.isPrepared && row.startsOn m d) = false := by
    intro row hrow
    rw [hrow, Option.any_some]
    cases hprepared : row.isPrepared with
    | false => rfl
    | true => rw [not_started_of_prepared hprepared]; rfl
  rw [startedOn, Table.count_eq_total, total_view hmatches, Table.total_eq_zero, Int.zero_add]
  · refine Table.total_congr fun entry hentry => ?_
    have hbase := hmatches entry hentry
    rw [Touched.delta, startWeight, hbase]
    cases hb : entry.base with
    | none => simp
    | some row =>
      rw [hb] at hbase
      have hkey := Table.find?_key hbase
      have hzero := hold row (by rw [hkey]; exact hbase)
      simp only [Option.map_some, Option.getD_some, hzero, Bool.false_eq_true, ↓reduceIte,
        Int.sub_zero]
  · intro row hrow
    rw [hold row (Table.find?_eq_some.2 ⟨hrow, rfl⟩)]
    rfl

/-! ## What one step changes -/

theorem step_automatedSent (hw : Sound w) (i : CapacityInput) (m : Uuid) (d : BusinessDate) :
    automatedSent (step P w i).committed m d
      = automatedSent w.committed m d + one ((w.committing i).any (CapacityNote.claims m d)) := by
  rcases step_cases (P := P) hw i with ⟨hnote, hsame⟩ | ⟨note, fp, hnote, hfair, -, hmatches, hview⟩
  · rw [hnote, hsame]
    exact (Int.add_zero _).symm
  · rw [hnote, hview, automatedSent_eq_total, automatedSent_eq_total, total_view hmatches,
      hfair.sent m d, Option.any_some]

theorem step_claimedAutomatedSends (hw : Sound w) (i : CapacityInput) (m : Uuid)
    (d : BusinessDate) :
    (claimedAutomatedSends (step P w i).committed m d : Int)
      = claimedAutomatedSends w.committed m d + one ((w.committing i).any (CapacityNote.claims m d))
        + one ((w.committing i).any (CapacityNote.restores m d)) := by
  rcases step_cases (P := P) hw i with ⟨hnote, hsame⟩ | ⟨note, fp, hnote, hfair, -, hmatches, hview⟩
  · rw [hnote, hsame]
    simp [one]
  · rw [hnote, hview, claimedAutomatedSends_eq_total, claimedAutomatedSends_eq_total,
      total_view hmatches, hfair.claimed m d, Option.any_some, Option.any_some, Int.add_assoc]

theorem step_startedOn (hw : Sound w) (i : CapacityInput) (m : Uuid) (d : BusinessDate) :
    (startedOn w.committed (step P w i).committed m d : Int)
      = one ((w.committing i).any (CapacityNote.claims m d)) := by
  rcases step_cases (P := P) hw i with ⟨hnote, hsame⟩ | ⟨note, fp, hnote, hfair, -, hmatches, hview⟩
  · rw [hnote, hsame, startedOn_self]
    rfl
  · rw [hnote, hview, startedOn_view hmatches, hfair.starts m d, Option.any_some]

theorem step_capGranted (hw : Sound w) (i : CapacityInput) {day : SendDay}
    (hday : w.committed.find? (.day (m, d)) = some (.day day)) :
    ∃ day', (step P w i).committed.find? (.day (m, d)) = some (.day day') ∧
      day.capGranted ≤ day'.capGranted := by
  rcases step_cases (P := P) hw i with ⟨-, hsame⟩ | ⟨note, fp, -, hfair, -, hmatches, hview⟩
  · exact ⟨day, hsame ▸ hday, Int.le_refl _⟩
  · rw [hview, find?_view, sees]
    cases hfind : fp.find? (.day (m, d)) with
    | none => exact ⟨day, hday, Int.le_refl _⟩
    | some entry =>
      obtain ⟨hmem, hkey⟩ := Table.find?_eq_some.1 hfind
      have hbase := hmatches entry hmem
      rw [hkey, hday] at hbase
      have hcap := hfair.caps entry hmem _ hbase.symm
      obtain ⟨day', hday'⟩ := Row.eq_day hkey
      rw [hday'] at hcap
      exact ⟨day', congrArg some hday', hcap⟩

/-- A claim's COMMIT leaves the day within the cap it decided with, under the ramp row it
locked. -/
theorem step_claimed (hw : Sound w) {plan : CapacityPlan}
    {permission : Option Sequences.FollowUpPermission}
    (hnote : w.committing i = some (.claimed plan permission)) :
    automatedSent (step P w i).committed plan.mailbox.id plan.businessDate ≤ plan.cap ∧
    plan.cap = effectiveDailyCap plan.ramp ∧
    ∃ row, (step P w i).committed.find? (.ramp plan.mailbox.id) = some (.ramp row) ∧
      effectiveDailyCap { row with recovery := plan.ramp.recovery } = plan.cap := by
  rcases step_cases (P := P) hw i with ⟨hnone, -⟩ | ⟨note, fp, hsome, hfair, -, -, hview⟩
  · rw [hnone] at hnote
    cases hnote
  · obtain rfl : note = .claimed plan permission := Option.some.inj (hsome.symm.trans hnote)
    obtain ⟨hcap, ⟨base, row, hramp, heq⟩, ⟨base', day, hday, hle⟩⟩ :=
      hfair.decided plan permission rfl
    refine ⟨?_, hcap, row, ?_, heq.trans hcap.symm⟩
    · rw [hview, automatedSent, find?_view, sees, hday]
      exact hle
    · rw [hview, find?_view, sees, hramp]

/-! ## The daily cap -/

theorem withinCap_of_sound (hw : Sound w) {day : SendDay}
    (hday : w.committed.find? (.day (m, d)) = some (.day day)) :
    day.automatedSent ≤ day.capGranted := by
  have hgood := hw.good _ (Table.find?_eq_some.1 hday).1
  exact of_decide_eq_true (Bool.and_eq_true_iff.1 hgood).2

theorem daily_cap (P : Platform) (inputs : List CapacityInput) (i : CapacityInput) (m : Uuid)
    (d : BusinessDate) :
    let w := run (step P) start inputs
    let w' := step P w i
    (∀ plan permission, w.committing i = some (.claimed plan permission) →
      automatedSent w'.committed plan.mailbox.id plan.businessDate ≤ plan.cap ∧
      plan.cap = effectiveDailyCap plan.ramp ∧
      ∃ row, w'.committed.find? (.ramp plan.mailbox.id) = some (.ramp row) ∧
        effectiveDailyCap { row with recovery := plan.ramp.recovery } = plan.cap) ∧
    (∀ day, w.committed.find? (.day (m, d)) = some (.day day) →
      day.automatedSent ≤ day.capGranted ∧
      ∃ day', w'.committed.find? (.day (m, d)) = some (.day day') ∧
        day.capGranted ≤ day'.capGranted) ∧
    w = run (stepWithoutBackstop P) start inputs ∧
    automatedSent w'.committed m d
      = automatedSent w.committed m d + startedOn w.committed w'.committed m d ∧
    startedOn w.committed w'.committed m d ≤ 1 ∧
    (0 < startedOn w.committed w'.committed m d → ∃ plan permission,
      w.committing i = some (.claimed plan permission) ∧ plan.mailbox.id = m ∧
      plan.businessDate = d) := by
  intro w w'
  have hw : Sound w := reachable_sound P inputs
  have hstarted : (startedOn w.committed w'.committed m d : Int)
      = one ((w.committing i).any (CapacityNote.claims m d)) := step_startedOn hw i m d
  refine ⟨fun plan permission hnote => step_claimed hw hnote,
    fun day hday => ⟨withinCap_of_sound hw hday, step_capGranted hw i hday⟩, ?_, ?_, ?_, ?_⟩
  · exact World.run_checks (fun _ h => h) checksButBackstop_of_checks (program_obeys P)
      start_sound inputs
  · rw [hstarted]
    exact step_automatedSent hw i m d
  · have hone : ∀ b, one b ≤ 1 := by decide
    have := hone ((w.committing i).any (CapacityNote.claims m d))
    omega
  · intro hpos
    cases hclaims : (w.committing i).any (CapacityNote.claims m d) with
    | false =>
      rw [hclaims] at hstarted
      simp only [one, Bool.false_eq_true, ↓reduceIte] at hstarted
      omega
    | true =>
      obtain ⟨note, hnote, hclaims⟩ := (Option.any_eq_true _ _).1 hclaims
      cases note with
      | claimed plan permission =>
        simp only [CapacityNote.claims, Bool.and_eq_true, decide_eq_true_eq] at hclaims
        exact ⟨plan, permission, hnote, hclaims⟩
      | quiet => cases hclaims
      | restored mailboxId businessDate => cases hclaims

end FoundingSales.Outbound.Capacity
