import FoundingSales.Outbound.FenceRow
import Mathlib.Algebra.Group.Nat.Defs
import Mathlib.Data.List.Sort

/-!
When the sweep looks again at a fence in doubt. Its query doubles a half minute; the report of
an observation reads a table of seconds.

Proved here:

* `owedObservation_iff`: which fences in doubt the query selects;
* `sweep_follows_backoff`: exactly when a page of the sweep and the table agree on a fence;
* `sweep_misses_first_retry`: forty-five seconds after a first miss.
-/

namespace FoundingSales.Outbound

/-- Seconds; longer than any send takes. -/
def adoptAfterSeconds (option : Option Nat) : Nat := option.getD 300

/-- `least(30 * power(2, least(reconcile_attempts, 7))::integer, 3600)` -/
def sweepBackoffSeconds (attempts : Nat) : Nat := min (30 * 2 ^ min attempts 7) 3600

structure SweepOptions where
  adoptAfterSeconds : Option Nat
  limit : Option Nat
  deriving DecidableEq

/-- The rows the query selects, at `now()`. -/
def owedObservation (now : Instant) (options : SweepOptions) (fence : Fence) : Bool :=
  (fence.state = .reconciling && fence.reconcileLastAttemptAt.all fun lastAttemptAt =>
    lastAttemptAt < now - (sweepBackoffSeconds fence.reconcileAttempts : Nat) * 1000) ||
  (fence.state = .dispatching && fence.dispatchStartedAt.any fun startedAt =>
    startedAt < now - (adoptAfterSeconds options.adoptAfterSeconds : Nat) * 1000)

/-- `coalesce(reconcile_last_attempt_at, dispatch_started_at)` -/
def Fence.sweepInstant (fence : Fence) : Option Instant :=
  fence.reconcileLastAttemptAt <|> fence.dispatchStartedAt

/-- `ORDER BY`, nulls last. -/
def sweptBefore (a b : Fence) : Prop :=
  match a.sweepInstant, b.sweepInstant with
  | _, none => True
  | none, some _ => False
  | some x, some y => x ≤ y

instance (a b : Fence) : Decidable (sweptBefore a b) := by
  unfold sweptBefore
  split <;> infer_instance

def sweepOrder (now : Instant) (options : SweepOptions) (rows : List Fence) : List Fence :=
  (rows.filter (owedObservation now options)).insertionSort sweptBefore

def listFencesToReconcile (now : Instant) (options : SweepOptions) (rows : List Fence) :
    List Fence :=
  (sweepOrder now options rows).take (options.limit.getD 200)

/-! ## The two schedules -/

/-- The seconds at which the schedules differ on an attempt: past one, not past the other. -/
def backoffGap : Nat → Option (Nat × Nat)
  | 1 => some (30, 60)
  | 2 => some (60, 120)
  | 3 => some (240, 300)
  | 4 => some (480, 900)
  | 5 => some (960, 1800)
  | 6 => some (1920, 3600)
  | _ => none

/-- More than the first bound of the gap has passed, and no more than the second. -/
def inBackoffGap (attempts : Nat) (elapsed : Int) : Bool :=
  (backoffGap attempts).any fun gap => gap.1 * 1000 < elapsed && elapsed ≤ gap.2 * 1000

/-- Past one schedule and not past the other. -/
theorem inBackoffGap_iff {attempts : Nat} (hattempts : 1 ≤ attempts) (elapsed : Int) :
    inBackoffGap attempts elapsed = true ↔
      ¬ ((sweepBackoffSeconds attempts : Nat) * 1000 < elapsed ↔
        (reconcileBackoffSeconds attempts : Nat) * 1000 < elapsed) := by
  unfold inBackoffGap backoffGap
  split
  · simp only [Option.any_some, Bool.and_eq_true, decide_eq_true_eq,
      show sweepBackoffSeconds 1 = 60 by rfl, show reconcileBackoffSeconds 1 = 30 by rfl]
    omega
  · simp only [Option.any_some, Bool.and_eq_true, decide_eq_true_eq,
      show sweepBackoffSeconds 2 = 120 by rfl, show reconcileBackoffSeconds 2 = 60 by rfl]
    omega
  · simp only [Option.any_some, Bool.and_eq_true, decide_eq_true_eq,
      show sweepBackoffSeconds 3 = 240 by rfl, show reconcileBackoffSeconds 3 = 300 by rfl]
    omega
  · simp only [Option.any_some, Bool.and_eq_true, decide_eq_true_eq,
      show sweepBackoffSeconds 4 = 480 by rfl, show reconcileBackoffSeconds 4 = 900 by rfl]
    omega
  · simp only [Option.any_some, Bool.and_eq_true, decide_eq_true_eq,
      show sweepBackoffSeconds 5 = 960 by rfl, show reconcileBackoffSeconds 5 = 1800 by rfl]
    omega
  · simp only [Option.any_some, Bool.and_eq_true, decide_eq_true_eq,
      show sweepBackoffSeconds 6 = 1920 by rfl, show reconcileBackoffSeconds 6 = 3600 by rfl]
    omega
  · next h1 h2 h3 h4 h5 h6 =>
    have hlate : 7 ≤ attempts := by
      by_contra hearly
      have hsmall : attempts = 1 ∨ attempts = 2 ∨ attempts = 3 ∨ attempts = 4 ∨ attempts = 5 ∨
          attempts = 6 := by omega
      rcases hsmall with h | h | h | h | h | h
      · exact h1 h
      · exact h2 h
      · exact h3 h
      · exact h4 h
      · exact h5 h
      · exact h6 h
    have hsweep : sweepBackoffSeconds attempts = 3600 := by
      unfold sweepBackoffSeconds
      rw [Nat.min_eq_right hlate]
      rfl
    have htable : reconcileBackoffSeconds attempts = 3600 := by
      unfold reconcileBackoffSeconds
      have hlength : reconcileBackoffSchedule.length = 6 := rfl
      rw [hlength, show min (max attempts 1) 6 = 6 by omega]
      rfl
    rw [hsweep, htable]
    simp

/-! ## A page of the sweep -/

section Pages

variable {now lastAttemptAt : Instant} {options : SweepOptions} {rows : List Fence} {fence : Fence}

private theorem before_iff_elapsed (a b c : Int) : a < b - c ↔ c < b - a := by
  omega

/-- A fence in doubt is selected by its own schedule. -/
theorem owedObservation_iff (hstate : fence.state = .reconciling)
    (hlast : fence.reconcileLastAttemptAt = some lastAttemptAt) :
    owedObservation now options fence = true ↔
      (sweepBackoffSeconds fence.reconcileAttempts : Nat) * 1000 < now - lastAttemptAt := by
  simp only [owedObservation, hstate, hlast, Option.all_some, decide_true, Bool.true_and,
    reduceCtorEq, decide_false, Bool.false_and, Bool.or_false, decide_eq_true_eq]
  exact before_iff_elapsed _ _ _

theorem mem_sweepOrder (hmem : fence ∈ rows) :
    fence ∈ sweepOrder now options rows ↔ owedObservation now options fence = true := by
  unfold sweepOrder
  rw [List.mem_insertionSort, List.mem_filter]
  exact and_iff_right hmem

/-- As many rows as a page holds come before the fence. -/
def behindFullPage (now : Instant) (options : SweepOptions) (rows : List Fence) (fence : Fence) :
    Bool :=
  options.limit.getD 200 ≤ (sweepOrder now options rows).idxOf fence

theorem mem_listFencesToReconcile (hmem : fence ∈ rows) :
    fence ∈ listFencesToReconcile now options rows ↔
      owedObservation now options fence = true ∧ behindFullPage now options rows fence = false := by
  unfold listFencesToReconcile behindFullPage
  rw [decide_eq_false_iff_not, Nat.not_le]
  constructor
  · intro htake
    have hin := List.mem_of_mem_take htake
    exact ⟨(mem_sweepOrder hmem).1 hin, (List.mem_take_iff_idxOf_lt hin).1 htake⟩
  · rintro ⟨howed, hbefore⟩
    exact (List.mem_take_iff_idxOf_lt ((mem_sweepOrder hmem).2 howed)).2 hbefore

/-- When the sweep and the table agree on a fence: behind a full page while it is not due, and
elsewhere outside the gap of its attempt. -/
def sweepAgrees (now lastAttemptAt : Instant) (options : SweepOptions) (rows : List Fence)
    (fence : Fence) : Bool :=
  if behindFullPage now options rows fence then
    now - lastAttemptAt ≤ (reconcileBackoffSeconds fence.reconcileAttempts : Nat) * 1000
  else !inBackoffGap fence.reconcileAttempts (now - lastAttemptAt)

/-- The sweep returns a fence in doubt exactly when the reported backoff has passed, exactly under
`sweepAgrees`. -/
theorem sweep_follows_backoff (now lastAttemptAt : Instant) (options : SweepOptions)
    (rows : List Fence) (fence : Fence) (hmem : fence ∈ rows)
    (hstate : fence.state = .reconciling) (hattempts : 1 ≤ fence.reconcileAttempts)
    (hlast : fence.reconcileLastAttemptAt = some lastAttemptAt) :
    (fence ∈ listFencesToReconcile now options rows ↔
        (reconcileBackoffSeconds fence.reconcileAttempts : Nat) * 1000 < now - lastAttemptAt) ↔
      sweepAgrees now lastAttemptAt options rows fence = true := by
  rw [mem_listFencesToReconcile hmem, owedObservation_iff hstate hlast]
  unfold sweepAgrees
  split
  · next hfull =>
    rw [hfull, decide_eq_true_eq]
    constructor
    · intro h
      apply Int.not_lt.1
      intro hdue
      exact absurd (h.2 hdue).2 (by decide)
    · intro hearly
      exact ⟨fun h => absurd h.2 (by decide), fun hdue => absurd hdue (Int.not_lt.2 hearly)⟩
  · next hroom =>
    have hgap := not_congr (inBackoffGap_iff hattempts (now - lastAttemptAt))
    rw [not_not, Bool.not_eq_true] at hgap
    rw [Bool.eq_false_iff.2 hroom, Bool.not_eq_true', hgap]
    constructor
    · intro h
      exact ⟨fun hsweep => h.1 ⟨hsweep, rfl⟩, fun htable => (h.2 htable).1⟩
    · intro h
      exact ⟨fun hsweep => h.1 hsweep.1, fun htable => ⟨h.2 htable, rfl⟩⟩

end Pages

/-- A fence in doubt, observed `attempts` times and last at the epoch. -/
def fenceInDoubt (attempts : Nat) : Fence :=
  { newFence (js "o") (js "b") (js "f") (js "ann@firm.test") (js "s") (js "t") (js "<o@x>")
      (js "UTC") placementRuleVersion (js "h") .stepExecution 0 with
    state := .reconciling
    reconcileAttempts := attempts
    reconcileLastAttemptAt := some 0 }

theorem sweep_follows_backoff_late :
    (fenceInDoubt 9 ∈ listFencesToReconcile 3600001 ⟨none, none⟩ [fenceInDoubt 9] ↔
        (reconcileBackoffSeconds 9 : Nat) * 1000 < (3600001 : Int) - 0) ↔
      sweepAgrees 3600001 0 ⟨none, none⟩ [fenceInDoubt 9] (fenceInDoubt 9) = true :=
  sweep_follows_backoff 3600001 0 ⟨none, none⟩ [fenceInDoubt 9] (fenceInDoubt 9)
    (List.mem_singleton.2 rfl) rfl (by decide) rfl

/-- Forty-five seconds after a first miss the table says thirty, and the sweep passes it by. -/
theorem sweep_misses_first_retry :
    ¬ (fenceInDoubt 1 ∈ listFencesToReconcile 45000 ⟨none, none⟩ [fenceInDoubt 1] ↔
      (reconcileBackoffSeconds 1 : Nat) * 1000 < (45000 : Int) - 0) := by
  decide +kernel

end FoundingSales.Outbound
