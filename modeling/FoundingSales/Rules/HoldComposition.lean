import FoundingSales.Library.Spans
import FoundingSales.Rules.Holds
import Mathlib.Data.Set.Card

/-!
The holds on a piece of work composed into one answer. The time they blocked is the union of
their intervals, never the sum.

Proved here:

* `absorb_spec`, `mergeIntervals_spec`: the merged intervals stand apart and cover the same
  instants;
* `unionDuration_eq_card`: the length is the number of milliseconds covered;
* `union_of_holds`: what that says of a composition.
-/

namespace FoundingSales.Rules.Compositions

/-! ## The composition -/

inductive HoldReasonCode
  | scopedPause | mailboxDisconnected | coverageIncomplete | templateUnapproved | optoutLink
  | missingVariables | dailyCap | routeMissing | routeCandidate | routeInvalid | routeRetired
  | outsideEmailWindow | outsideCallingWindow | postureMissing | postureOverlapping
  | postureOverdue | firmSuppressed | handleSuppressed | manualSuppressionReview | uncertainReply
  | ambiguousMatch | reassignment | opportunityManual | providerRefusal | sendUnknownReconciling
  | sendUnknownTerminal | longHoldReview | restoreInProgress | coldLegacy | followUpNotPermitted
  | followUpExpired | followUpScopeExhausted | firmAlreadyEnrolled | coldOutreachMailboxRequired
  deriving DecidableEq

def HoldReasonCode.text : HoldReasonCode → JsString
  | scopedPause => js "scoped_pause"
  | mailboxDisconnected => js "mailbox_disconnected"
  | coverageIncomplete => js "coverage_incomplete"
  | templateUnapproved => js "template_unapproved"
  | optoutLink => js "optout_link"
  | missingVariables => js "missing_variables"
  | dailyCap => js "daily_cap"
  | routeMissing => js "route_missing"
  | routeCandidate => js "route_candidate"
  | routeInvalid => js "route_invalid"
  | routeRetired => js "route_retired"
  | outsideEmailWindow => js "outside_email_window"
  | outsideCallingWindow => js "outside_calling_window"
  | postureMissing => js "posture_missing"
  | postureOverlapping => js "posture_overlapping"
  | postureOverdue => js "posture_overdue"
  | firmSuppressed => js "firm_suppressed"
  | handleSuppressed => js "handle_suppressed"
  | manualSuppressionReview => js "manual_suppression_review"
  | uncertainReply => js "uncertain_reply"
  | ambiguousMatch => js "ambiguous_match"
  | reassignment => js "reassignment"
  | opportunityManual => js "opportunity_manual"
  | providerRefusal => js "provider_refusal"
  | sendUnknownReconciling => js "send_unknown_reconciling"
  | sendUnknownTerminal => js "send_unknown_terminal"
  | longHoldReview => js "long_hold_review"
  | restoreInProgress => js "restore_in_progress"
  | coldLegacy => js "cold_legacy"
  | followUpNotPermitted => js "follow_up_not_permitted"
  | followUpExpired => js "follow_up_expired"
  | followUpScopeExhausted => js "follow_up_scope_exhausted"
  | firmAlreadyEnrolled => js "firm_already_enrolled"
  | coldOutreachMailboxRequired => js "cold_outreach_mailbox_required"

/-- Which codes a control may clear. -/
def isRecoverableHoldReason : HoldReasonCode → Bool
  | .scopedPause | .mailboxDisconnected | .coverageIncomplete | .templateUnapproved | .optoutLink
  | .missingVariables | .dailyCap | .routeMissing | .routeCandidate | .routeInvalid | .routeRetired
  | .outsideEmailWindow | .outsideCallingWindow | .uncertainReply | .ambiguousMatch | .reassignment
  | .providerRefusal | .sendUnknownTerminal | .longHoldReview | .followUpNotPermitted
  | .followUpExpired | .firmAlreadyEnrolled | .coldOutreachMailboxRequired => true
  | _ => false

def actionKindText : BlockedActionKind → JsString
  | .emailSend => js "email_send"
  | .callTask => js "call_task"
  | .dialAuthorization => js "dial_authorization"
  | .enrollmentAdvance => js "enrollment_advance"
  | .research => js "research"

/-- A hold, its instants parsed. -/
structure HoldRecord where
  id : JsString
  reasonCode : HoldReasonCode
  blockedActionKinds : List BlockedActionKind
  startedAt : Instant
  releasedAt : Option Instant
  deriving DecidableEq

def toInterval (hold : HoldRecord) (now : Instant) : Interval :=
  ⟨hold.startedAt, max (hold.releasedAt.getD now) hold.startedAt⟩

structure HoldComposition where
  blocked : Bool
  blockedActionKinds : List BlockedActionKind
  openReasonCodes : List HoldReasonCode
  openHoldIds : List JsString
  unionMilliseconds : Int
  recoverableReasonCodes : List HoldReasonCode
  deriving DecidableEq

structure ComposeHoldsInput where
  holds : List HoldRecord
  /-- Database time: an open hold blocks up to this instant. -/
  now : Instant
  actionKinds : Option (List BlockedActionKind)
  deriving DecidableEq

/-- No kind asked about applies every hold. -/
def ComposeHoldsInput.applicable (input : ComposeHoldsInput) : List HoldRecord :=
  match input.actionKinds with
  | none | some [] => input.holds
  | some wanted => input.holds.filter fun hold => hold.blockedActionKinds.any (· ∈ wanted)

/-- `[...new Set(values)].sort()`, by the texts. -/
def sortedUnique {α : Type} [DecidableEq α] (text : α → JsString) (values : List α) : List α :=
  values.eraseDups.insertionSort fun a b => textLe (text a) (text b)

def composeHolds (input : ComposeHoldsInput) : HoldComposition :=
  let applicable := input.applicable
  let openHolds := applicable.filter fun hold => hold.releasedAt = none
  let openReasonCodes := sortedUnique HoldReasonCode.text (openHolds.map HoldRecord.reasonCode)
  { blocked := !openHolds.isEmpty
    blockedActionKinds :=
      sortedUnique actionKindText (openHolds.flatMap HoldRecord.blockedActionKinds)
    openReasonCodes := openReasonCodes
    openHoldIds := (openHolds.map HoldRecord.id).insertionSort fun a b => textLe a b
    unionMilliseconds := unionDuration (applicable.map fun hold => toInterval hold input.now)
    recoverableReasonCodes := openReasonCodes.filter isRecoverableHoldReason }

/-! ## Merging -/

open Spans

/-- The instants some interval covers. -/
noncomputable def instants (intervals : List Interval) : Finset Int :=
  covered Interval.start Interval.stop intervals

/-- Intervals that stand apart, each with an instant of its own. -/
structure Apart (merged : List Interval) : Prop where
  separated : Separated Interval.start Interval.stop merged
  nonempty : ∀ i ∈ merged, i.start < i.stop

theorem Apart.front {front : List Interval} {last : Interval} (h : Apart (front ++ [last])) :
    Apart front ∧ ∀ i ∈ front, i.stop < last.start := by
  obtain ⟨hfront, -, hcross⟩ := List.pairwise_append.1 h.separated
  exact ⟨⟨hfront, fun i hi => h.nonempty i (List.mem_append_left _ hi)⟩,
    fun i hi => hcross i hi last List.mem_cons_self⟩

theorem Apart.concat {front : List Interval} {last : Interval} (h : Apart front)
    (hlast : last.start < last.stop) (hbefore : ∀ i ∈ front, i.stop < last.start) :
    Apart (front ++ [last]) := by
  constructor
  · refine List.pairwise_append.2 ⟨h.separated, List.pairwise_singleton _ _, fun i hi j hj => ?_⟩
    rw [List.mem_singleton.1 hj]
    exact hbefore i hi
  · intro i hi
    rcases List.mem_append.1 hi with hi | hi
    · exact h.nonempty i hi
    · rw [List.mem_singleton.1 hi]
      exact hlast

/-- One more interval, no earlier than those before it. -/
theorem absorb_spec {merged : List Interval} {interval : Interval} (h : Apart merged)
    (hinterval : interval.start < interval.stop) (hlater : ∀ i ∈ merged, i.start ≤ interval.start) :
    Apart (absorb merged interval) ∧
      instants (absorb merged interval) = instants merged ∪ instants [interval] ∧
      ∀ i ∈ absorb merged interval, i.start ≤ interval.start := by
  rcases List.eq_nil_or_concat merged with rfl | ⟨front, last, rfl⟩
  · refine ⟨h.concat hinterval (List.forall_mem_nil _), covered_append [] [interval], ?_⟩
    intro i hi
    rw [List.mem_singleton.1 hi]
  · rw [List.concat_eq_append] at h hlater ⊢
    obtain ⟨hfront, hbefore⟩ := h.front
    have hstart : last.start ≤ interval.start := hlater last (by simp)
    unfold absorb
    simp only [List.getLast?_concat, List.dropLast_concat]
    split
    · next htouches =>
      split
      · next hlonger =>
        have hlast : last.start < last.stop := h.nonempty last (by simp)
        refine ⟨hfront.concat (hlast.trans hlonger) hbefore, ?_, ?_⟩
        · -- the last interval, lengthened, covers both
          unfold instants
          rw [covered_append, covered_append, Finset.union_assoc]
          congr 1
          exact covered_lengthened rfl rfl hstart htouches hlonger
        · intro i hi
          rcases List.mem_append.1 hi with hi | hi
          · exact hlater i (List.mem_append_left _ hi)
          · rw [List.mem_singleton.1 hi]
            exact hstart
      · next hinside =>
        refine ⟨h, ?_, hlater⟩
        -- the last interval covers it already
        unfold instants
        rw [covered_append, Finset.union_assoc]
        congr 1
        exact covered_inside hstart (Int.not_lt.1 hinside)
    · next hapart =>
      refine ⟨h.concat hinterval fun i hi => ?_, covered_append _ _, fun i hi => ?_⟩
      · have hafter : last.stop < interval.start := Int.not_le.1 hapart
        rcases List.mem_append.1 hi with hi | hi
        · exact (hbefore i hi).trans ((h.nonempty last (by simp)).trans hafter)
        · rw [List.mem_singleton.1 hi]
          exact hafter
      · rcases List.mem_append.1 hi with hi | hi
        · exact hlater i hi
        · rw [List.mem_singleton.1 hi]

theorem foldl_absorb_spec {merged intervals : List Interval} (h : Apart merged)
    (hnonempty : ∀ i ∈ intervals, i.start < i.stop)
    (hsorted : intervals.Pairwise fun a b => a.start ≤ b.start)
    (hlater : ∀ i ∈ merged, ∀ j ∈ intervals, i.start ≤ j.start) :
    Apart (intervals.foldl absorb merged) ∧
      instants (intervals.foldl absorb merged) = instants merged ∪ instants intervals := by
  induction intervals generalizing merged with
  | nil => exact ⟨h, (Finset.union_empty _).symm⟩
  | cons interval rest ih =>
    obtain ⟨hfirst, hrest⟩ := List.pairwise_cons.1 hsorted
    obtain ⟨hapart, hcovers, hstarts⟩ := absorb_spec h (hnonempty interval List.mem_cons_self)
      fun i hi => hlater i hi interval List.mem_cons_self
    obtain ⟨hdone, hall⟩ := ih hapart (fun i hi => hnonempty i (List.mem_cons_of_mem _ hi)) hrest
      fun i hi j hj => (hstarts i hi).trans (hfirst j hj)
    refine ⟨hdone, ?_⟩
    rw [List.foldl_cons, hall, hcovers, Finset.union_assoc]
    congr 1
    exact (covered_append [interval] rest).symm

/-- The merged intervals stand apart and cover what the intervals cover. -/
theorem mergeIntervals_spec (intervals : List Interval) :
    Apart (mergeIntervals intervals) ∧ instants (mergeIntervals intervals) = instants intervals := by
  have hnonempty : ∀ i ∈ (intervals.filter fun i => i.start < i.stop).insertionSort
      (fun a b => a.start ≤ b.start), i.start < i.stop := by
    intro i hi
    rw [List.mem_insertionSort, List.mem_filter, decide_eq_true_eq] at hi
    exact hi.2
  have hnone : Apart [] := ⟨List.Pairwise.nil, List.forall_mem_nil _⟩
  obtain ⟨hapart, hcovers⟩ := foldl_absorb_spec hnone hnonempty
    (List.pairwise_insertionSort _ _) (List.forall_mem_nil _)
  refine ⟨hapart, hcovers.trans ?_⟩
  unfold instants
  rw [covered_congr fun i => List.mem_insertionSort _, covered_filter]
  exact Finset.empty_union _

/-- The length of the union is the number of milliseconds the intervals cover. -/
theorem unionDuration_eq_card (intervals : List Interval) :
    unionDuration intervals = (instants intervals).card := by
  obtain ⟨hapart, hcovers⟩ := mergeIntervals_spec intervals
  rw [← hcovers]
  exact (card_covered_of_separated hapart.separated fun i hi => (hapart.nonempty i hi).le).symm

/-! ## The union of holds -/

section Unions

variable {input input' : ComposeHoldsInput}

/-- The instants at which some applicable hold blocks. -/
def blockedInstants (input : ComposeHoldsInput) : Set Int :=
  {t | ∃ hold ∈ input.applicable, hold.startedAt ≤ t ∧ t < hold.releasedAt.getD input.now}

/-- How long a hold blocks, open ones until now. -/
def HoldRecord.length (now : Instant) (hold : HoldRecord) : Int :=
  max 0 (hold.releasedAt.getD now - hold.startedAt)

/-- The applicable holds as spans. -/
noncomputable def blockedSpans (input : ComposeHoldsInput) : Finset Int :=
  covered HoldRecord.startedAt (fun hold => hold.releasedAt.getD input.now) input.applicable

theorem coe_blockedSpans (input : ComposeHoldsInput) :
    (blockedSpans input : Set Int) = blockedInstants input := by
  ext t
  exact mem_covered

theorem unionMilliseconds_eq_card (input : ComposeHoldsInput) :
    (composeHolds input).unionMilliseconds = (blockedSpans input).card := by
  show unionDuration (input.applicable.map fun hold => toInterval hold input.now) = _
  rw [unionDuration_eq_card]
  congr 2
  ext t
  simp only [instants, blockedSpans, mem_covered, List.mem_map, toInterval,
    exists_exists_and_eq_and]
  constructor
  · rintro ⟨hold, hmem, hstart, hstop⟩
    exact ⟨hold, hmem, hstart, (lt_max_iff.1 hstop).resolve_right (Int.not_lt.2 hstart)⟩
  · rintro ⟨hold, hmem, hstart, hstop⟩
    exact ⟨hold, hmem, hstart, lt_max_of_lt_left hstop⟩

theorem applicable_mono (hholds : ∀ hold ∈ input.holds, hold ∈ input'.holds)
    (hkinds : input'.actionKinds = input.actionKinds) :
    ∀ hold ∈ input.applicable, hold ∈ input'.applicable := by
  unfold ComposeHoldsInput.applicable
  rw [hkinds]
  intro hold hmem
  split at hmem
  · exact hholds hold hmem
  · exact hholds hold hmem
  · obtain ⟨hin, hwanted⟩ := List.mem_filter.1 hmem
    exact List.mem_filter.2 ⟨hholds hold hin, hwanted⟩

/-- More holds, or a later now, block no less. -/
theorem unionMilliseconds_mono (hholds : ∀ hold ∈ input.holds, hold ∈ input'.holds)
    (hkinds : input'.actionKinds = input.actionKinds) (hnow : input.now ≤ input'.now) :
    (composeHolds input).unionMilliseconds ≤ (composeHolds input').unionMilliseconds := by
  rw [unionMilliseconds_eq_card, unionMilliseconds_eq_card]
  apply Int.ofNat_le.2
  apply Finset.card_le_card
  apply covered_subset
  intro hold hmem
  refine ⟨hold, applicable_mono hholds hkinds hold hmem, le_refl _, ?_⟩
  cases hold.releasedAt with
  | none => exact hnow
  | some releasedAt => exact le_refl _

/-- What the length of the union is, and what follows from it. -/
structure UnionOfHolds (input : ComposeHoldsInput) : Prop where
  finite : (blockedInstants input).Finite
  counts : (composeHolds input).unionMilliseconds = (blockedInstants input).ncard
  unordered : ∀ holds, (∀ hold, hold ∈ holds ↔ hold ∈ input.holds) →
    (composeHolds { input with holds := holds }).unionMilliseconds
      = (composeHolds input).unionMilliseconds
  at_most_sum : (composeHolds input).unionMilliseconds
    ≤ (input.applicable.map (HoldRecord.length input.now)).sum
  at_least_longest : ∀ hold ∈ input.applicable,
    hold.length input.now ≤ (composeHolds input).unionMilliseconds
  more_holds : ∀ holds, (∀ hold ∈ input.holds, hold ∈ holds) →
    (composeHolds input).unionMilliseconds
      ≤ (composeHolds { input with holds := holds }).unionMilliseconds
  later : ∀ now, input.now ≤ now →
    (composeHolds input).unionMilliseconds
      ≤ (composeHolds { input with now := now }).unionMilliseconds

theorem union_of_holds (input : ComposeHoldsInput) : UnionOfHolds input := by
  constructor
  · rw [← coe_blockedSpans]
    exact Finset.finite_toSet _
  · rw [← coe_blockedSpans, Set.ncard_coe_finset]
    exact unionMilliseconds_eq_card input
  · intro holds hsame
    apply le_antisymm
    · exact unionMilliseconds_mono (fun hold => (hsame hold).1) rfl (le_refl _)
    · exact unionMilliseconds_mono (fun hold => (hsame hold).2) rfl (le_refl _)
  · rw [unionMilliseconds_eq_card]
    exact card_covered_le _
  · intro hold hmem
    rw [unionMilliseconds_eq_card]
    exact length_le_card_covered hmem
  · exact fun holds hmore => unionMilliseconds_mono hmore rfl (le_refl _)
  · exact fun now hlater => unionMilliseconds_mono (fun _ hmem => hmem) rfl hlater

end Unions

/-- Nested, touching and empty holds, one of them open. -/
example : (composeHolds ⟨[⟨js "a", .dailyCap, [.emailSend], 0, some 10⟩,
    ⟨js "b", .reassignment, [.emailSend], 10, some 12⟩,
    ⟨js "c", .dailyCap, [.callTask, .emailSend], 2, some 5⟩,
    ⟨js "d", .scopedPause, [.emailSend], 20, none⟩,
    ⟨js "e", .scopedPause, [.emailSend], 7, some 7⟩], 25, some [.emailSend]⟩).unionMilliseconds
      = 17 := by decide +kernel

end FoundingSales.Rules.Compositions
