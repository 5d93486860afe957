import FoundingSales.Sequences.Successor

/-!
The bound of an agreed sequence: a day past the latest step's planned dispatch. The run that it has to
cover spaces each step from the completion of the one before.

Proved here:

* `lt_agreedSequenceExpiry`: what the bound is;
* `carried_of_run`: a completion is some step's planned dispatch, carried on by the gaps after it;
* `Within.carried_le`: where clocks are regular, no step completes before what is carried to it;
* `agreed_run_covered`: which runs the bound covers;
* `weekend_refused`: one it does not.
-/

namespace FoundingSales.Successor

open Calendar Contracts.LocalClock Rules.LocalDates Rules.BusinessDays Rules.SendingWindow

/-- When a due step is dispatched: an e-mail in the sending window. -/
def dispatchedAt (step : SequenceStep) (dueAt : Int) (zone : Zone)
    (calendar : WorkspaceHolidayCalendar) : Except LocalClockError Int :=
  match step.channel with
  | .email => do
    let placement ← placeEmailSend dueAt zone calendar false
    return placement.sendAt
  | .callTask => .ok dueAt

/-- When a step would be dispatched if it went by its plan. -/
def plannedDispatch (step : SequenceStep) (startedAt : Int) (zone : Zone)
    (calendar : WorkspaceHolidayCalendar) : Except LocalClockError Int := do
  let due ← resolveStepDue step startedAt zone calendar
  dispatchedAt step due.dueAt zone calendar

/-- The loop of `agreedSequenceExpiry`, at `instant`. -/
def latestFrom (startedAt : Int) (zone : Zone) (calendar : WorkspaceHolidayCalendar) :
    List SequenceStep → Int → Except LocalClockError Int
  | [], instant => .ok instant
  | step :: steps, instant => do
    let sendAt ← plannedDispatch step startedAt zone calendar
    latestFrom startedAt zone calendar steps (if instant < sendAt then sendAt else instant)

/-- When the last of the steps would be due if the sequence started at `startedAt`, plus a day. -/
def agreedSequenceExpiry (steps : List SequenceStep) (startedAt : Int) (zone : Zone)
    (calendar : WorkspaceHolidayCalendar) : Except LocalClockError Int := do
  let instant ← latestFrom startedAt zone calendar steps startedAt
  return instant + 24 * 60 * 60 * 1000

/-- `verifyFollowUpPermission`: a permission that ends by now has expired. -/
def expired (expiresAt now : Int) : Bool := expiresAt ≤ now

structure Completion where
  step : SequenceStep
  dueAt : Int
  completedAt : Int
  deriving DecidableEq

section Run

variable (startedAt : Int) (zone : Zone) (calendar : WorkspaceHolidayCalendar)

/-- A step after `previous`, without holds: completed at its dispatch. -/
def completeStep (previous : Option SequenceStep) (completedAt : Int) (step : SequenceStep) :
    Except LocalClockError Completion := do
  let due ← successorDue ⟨previous, step, startedAt, zone, calendar, completedAt⟩
  let sendAt ← dispatchedAt step due.dueAt zone calendar
  return ⟨step, due.dueAt, sendAt⟩

/-- The steps after `previous`; one that is refused ends them. -/
def runFrom (previous : Option SequenceStep) (completedAt : Int) :
    List SequenceStep → List Completion
  | [] => []
  | step :: steps =>
    match completeStep startedAt zone calendar previous completedAt step with
    | .ok completion =>
      completion :: runFrom (some step) completion.completedAt steps
    | .error _ => []

/-- The run of a sequence. -/
def run (steps : List SequenceStep) : List Completion :=
  runFrom startedAt zone calendar none startedAt steps

/-- No e-mail of the run is refused as expired. -/
def Covered (steps : List SequenceStep) (expiry : Int) : Prop :=
  ∀ completion ∈ run startedAt zone calendar steps, completion.step.channel = .email →
    expired expiry completion.completedAt = false

/-- The dispatch of a step whose floor is past its plan. -/
def dispatchedLate (previous : SequenceStep) (completedAt : Int) (step : SequenceStep) : Option Int :=
  match resolveStepDue step startedAt zone calendar,
    spacingFloor previous ⟨some previous, step, startedAt, zone, calendar, completedAt⟩ with
  | .ok plan, .ok floor =>
    if floor.dueAt ≤ plan.dueAt then none else (dispatchedAt step floor.dueAt zone calendar).toOption
  | _, _ => none

/-- A completion carried on by the gaps after it, as long as each leads past the step's plan. -/
def carryOn (previous : SequenceStep) (completedAt : Int) :
    List SequenceStep → Option (SequenceStep × Int)
  | [] => some (previous, completedAt)
  | step :: steps => do
    let sendAt ← dispatchedLate startedAt zone calendar previous completedAt step
    carryOn step sendAt steps

/-- Less than 24 hours after the start, or after a step's planned dispatch. -/
def WithinADay (steps : List SequenceStep) (t : Int) : Prop :=
  t < startedAt + dayMs ∨ ∃ step ∈ steps, ∃ planned,
    plannedDispatch step startedAt zone calendar = .ok planned ∧ t < planned + dayMs

/-- No planned dispatch is carried on to an e-mail 24 hours past all the planned ones. -/
def NoneCarriedPast (steps : List SequenceStep) : Prop :=
  ∀ earlier step between later, steps = earlier ++ step :: (between ++ later) →
    ∀ planned last sendAt, plannedDispatch step startedAt zone calendar = .ok planned →
      carryOn startedAt zone calendar step planned between = some (last, sendAt) →
      last.channel = .email → WithinADay startedAt zone calendar steps sendAt

variable {startedAt zone calendar}

/-! ## The bound -/

theorem latestFrom_spec {steps : List SequenceStep} {instant result : Int}
    (h : latestFrom startedAt zone calendar steps instant = .ok result) (t : Int) :
    t < result + dayMs ↔ t < instant + dayMs ∨ ∃ step ∈ steps, ∃ planned,
      plannedDispatch step startedAt zone calendar = .ok planned ∧ t < planned + dayMs := by
  induction steps generalizing instant with
  | nil =>
    obtain rfl := Except.ok.inj h
    simp
  | cons step steps ih =>
    unfold latestFrom at h
    cases hplanned : plannedDispatch step startedAt zone calendar with
    | error e =>
      rw [hplanned] at h
      cases h
    | ok planned =>
      rw [hplanned] at h
      have hrest := ih (show latestFrom startedAt zone calendar steps
        (if instant < planned then planned else instant) = .ok result from h)
      have hmax : t < (if instant < planned then planned else instant) + dayMs ↔
          t < instant + dayMs ∨ t < planned + dayMs := by
        split <;> omega
      rw [hrest, hmax, List.exists_mem_cons_iff, hplanned, or_assoc]
      simp

/-- The bound is a day past the start and the planned dispatches. -/
theorem lt_agreedSequenceExpiry {steps : List SequenceStep} {expiry : Int}
    (h : agreedSequenceExpiry steps startedAt zone calendar = .ok expiry) (t : Int) :
    t < expiry ↔ WithinADay startedAt zone calendar steps t := by
  unfold agreedSequenceExpiry at h
  cases hlatest : latestFrom startedAt zone calendar steps startedAt with
  | error e =>
    rw [hlatest] at h
    cases h
  | ok latest =>
    rw [hlatest] at h
    obtain rfl := Except.ok.inj h
    exact latestFrom_spec hlatest t

theorem expired_eq_false_iff {steps : List SequenceStep} {expiry : Int}
    (h : agreedSequenceExpiry steps startedAt zone calendar = .ok expiry) (t : Int) :
    expired expiry t = false ↔ WithinADay startedAt zone calendar steps t := by
  rw [← lt_agreedSequenceExpiry h]
  unfold expired
  rw [decide_eq_false_iff_not, Int.not_le]

/-! ## Where nothing is carried past it -/

theorem carryOn_cons (previous step : SequenceStep) (completedAt : Int)
    (steps : List SequenceStep) :
    carryOn startedAt zone calendar previous completedAt (step :: steps) =
      (dispatchedLate startedAt zone calendar previous completedAt step).bind fun sendAt =>
        carryOn startedAt zone calendar step sendAt steps := rfl

theorem carryOn_append (previous : SequenceStep) (completedAt : Int)
    (between later : List SequenceStep) :
    carryOn startedAt zone calendar previous completedAt (between ++ later) =
      (carryOn startedAt zone calendar previous completedAt between).bind fun reached =>
        carryOn startedAt zone calendar reached.1 reached.2 later := by
  induction between generalizing previous completedAt with
  | nil => rfl
  | cons step between ih =>
    rw [List.cons_append, carryOn_cons, carryOn_cons]
    cases dispatchedLate startedAt zone calendar previous completedAt step with
    | none => rfl
    | some sendAt => exact ih step sendAt

/-- A step's due instant is its plan, or its floor past the plan. -/
theorem successorDue_cases {previous step : SequenceStep} {completedAt : Int} {due : SuccessorDue}
    (h : successorDue ⟨some previous, step, startedAt, zone, calendar, completedAt⟩ = .ok due) :
    ∃ plan floor, resolveStepDue step startedAt zone calendar = .ok plan ∧
      spacingFloor previous ⟨some previous, step, startedAt, zone, calendar, completedAt⟩
        = .ok floor ∧
      (floor.dueAt ≤ plan.dueAt ∧ due.dueAt = plan.dueAt ∨
        ¬ floor.dueAt ≤ plan.dueAt ∧ due.dueAt = floor.dueAt) := by
  unfold successorDue at h
  cases hplan : resolveStepDue step startedAt zone calendar with
  | error e =>
    rw [hplan] at h
    cases h
  | ok plan =>
    rw [hplan] at h
    change spacingFloor previous _ >>= _ = _ at h
    cases hfloor : spacingFloor previous
        ⟨some previous, step, startedAt, zone, calendar, completedAt⟩ with
    | error e =>
      rw [hfloor] at h
      cases h
    | ok floor =>
      rw [hfloor] at h
      change (if floor.dueAt ≤ plan.dueAt then _ else _) = _ at h
      refine ⟨plan, floor, rfl, rfl, ?_⟩
      split at h
      · next hle =>
        obtain rfl := Except.ok.inj h
        exact .inl ⟨hle, rfl⟩
      · next hnot =>
        obtain rfl := Except.ok.inj h
        exact .inr ⟨hnot, rfl⟩

/-- Some step's planned dispatch has been carried on to a completion. -/
def Carried (startedAt : Int) (zone : Zone) (calendar : WorkspaceHolidayCalendar)
    (done : List SequenceStep) (last : SequenceStep) (completedAt : Int) : Prop :=
  ∃ earlier step between planned, done = earlier ++ step :: between ∧
    plannedDispatch step startedAt zone calendar = .ok planned ∧
    carryOn startedAt zone calendar step planned between = some (last, completedAt)

/-- What completing a step goes through. -/
theorem completeStep_ok {previous : Option SequenceStep} {completedAt : Int} {step : SequenceStep}
    {completion : Completion}
    (h : completeStep startedAt zone calendar previous completedAt step = .ok completion) :
    completion.step = step ∧ ∃ due : SuccessorDue,
      successorDue ⟨previous, step, startedAt, zone, calendar, completedAt⟩ = .ok due ∧
      completion.dueAt = due.dueAt ∧
      dispatchedAt step due.dueAt zone calendar = .ok completion.completedAt := by
  unfold completeStep at h
  cases hdue : successorDue ⟨previous, step, startedAt, zone, calendar, completedAt⟩ with
  | error e =>
    rw [hdue] at h
    cases h
  | ok due =>
    rw [hdue] at h
    change dispatchedAt step due.dueAt zone calendar >>= _ = _ at h
    cases hsend : dispatchedAt step due.dueAt zone calendar with
    | error e =>
      rw [hsend] at h
      cases h
    | ok sendAt =>
      rw [hsend] at h
      obtain rfl := Except.ok.inj h
      exact ⟨rfl, due, rfl, rfl, hsend⟩

theorem Carried.next {done : List SequenceStep} {previous step : SequenceStep}
    {completedAt : Int} {completion : Completion}
    (h : Carried startedAt zone calendar done previous completedAt)
    (hstep : completeStep startedAt zone calendar (some previous) completedAt step
      = .ok completion) :
    Carried startedAt zone calendar (done ++ [step]) step completion.completedAt := by
  obtain ⟨-, due, hdue, -, hsend⟩ := completeStep_ok hstep
  obtain ⟨plan, floor, hplan, hfloor, ⟨hle, heq⟩ | ⟨hnot, heq⟩⟩ := successorDue_cases hdue
  · refine ⟨done, step, [], completion.completedAt, rfl, ?_, rfl⟩
    unfold plannedDispatch
    rw [hplan]
    rwa [heq] at hsend
  · obtain ⟨earlier, first, between, planned, rfl, hplanned, hcarry⟩ := h
    refine ⟨earlier, first, between ++ [step], planned, by simp, hplanned, ?_⟩
    rw [heq] at hsend
    have hlate : dispatchedLate startedAt zone calendar previous completedAt step
        = some completion.completedAt := by
      unfold dispatchedLate
      rw [hplan, hfloor]
      dsimp only
      rw [if_neg hnot, hsend]
      rfl
    rw [carryOn_append, hcarry, Option.bind_some, carryOn_cons, hlate]
    rfl

theorem carried_of_runFrom {done steps : List SequenceStep} {previous : SequenceStep}
    {completedAt : Int} (h : Carried startedAt zone calendar done previous completedAt)
    {completion : Completion}
    (hmem : completion ∈ runFrom startedAt zone calendar (some previous) completedAt steps) :
    ∃ front back, steps = front ++ back ∧
      Carried startedAt zone calendar (done ++ front) completion.step completion.completedAt := by
  induction steps generalizing done previous completedAt with
  | nil => cases hmem
  | cons next steps ih =>
    unfold runFrom at hmem
    split at hmem
    · next first hfirst =>
      have hnext := h.next hfirst
      rcases List.mem_cons.1 hmem with rfl | hlater
      · refine ⟨[next], steps, rfl, ?_⟩
        rwa [(completeStep_ok hfirst).1]
      · obtain ⟨front, back, rfl, hcarried⟩ := ih hnext hlater
        refine ⟨next :: front, back, rfl, ?_⟩
        rwa [List.append_assoc] at hcarried
    · cases hmem

/-- A completion of a run is a planned dispatch carried on. -/
theorem carried_of_run {steps : List SequenceStep} {completion : Completion}
    (hmem : completion ∈ run startedAt zone calendar steps) :
    ∃ front back, steps = front ++ back ∧
      Carried startedAt zone calendar front completion.step completion.completedAt := by
  unfold run at hmem
  cases steps with
  | nil => cases hmem
  | cons step steps =>
    unfold runFrom at hmem
    split at hmem
    · next first hfirst =>
      obtain ⟨hstep, due, hdue, -, hsend⟩ := completeStep_ok hfirst
      have hcarried : Carried startedAt zone calendar [step] step first.completedAt := by
        refine ⟨[], step, [], first.completedAt, rfl, ?_, rfl⟩
        unfold successorDue at hdue
        unfold plannedDispatch
        cases hplan : resolveStepDue step startedAt zone calendar with
        | error e =>
          rw [hplan] at hdue
          cases hdue
        | ok plan =>
          rw [hplan] at hdue
          obtain rfl := Except.ok.inj hdue
          exact hsend
      rcases List.mem_cons.1 hmem with rfl | hlater
      · refine ⟨[step], steps, rfl, ?_⟩
        rwa [hstep]
      · obtain ⟨front, back, rfl, hlast⟩ := carried_of_runFrom hcarried hlater
        exact ⟨step :: front, back, rfl, hlast⟩
    · cases hmem

theorem covered_of_noneCarriedPast {steps : List SequenceStep} {expiry : Int}
    (hexpiry : agreedSequenceExpiry steps startedAt zone calendar = .ok expiry)
    (h : NoneCarriedPast startedAt zone calendar steps) :
    Covered startedAt zone calendar steps expiry := by
  intro completion hmem hemail
  obtain ⟨front, back, rfl, earlier, first, between, planned, rfl, hplanned, hcarry⟩ :=
    carried_of_run hmem
  rw [expired_eq_false_iff hexpiry]
  exact h earlier first between back (by simp) planned _ _ hplanned hcarry hemail

/-! ## Regular clocks -/

/-- Clocks and a calendar that keep instants between two in order, however they are placed. -/
structure Ordered (zone : Zone) (calendar : WorkspaceHolidayCalendar) (early late : Int) : Prop where
  shown : HoursShown zone
  closing : HourShown zone 17
  forward : ∀ s t, s ≤ t → localDay zone s ≤ localDay zone t
  runs : RunsShort calendar
  first : firstDay < localDay zone early
  last : localDay zone late + 401 ≤ endDay

variable {early late : Int}

theorem Ordered.readable (h : Ordered zone calendar early late) {t : Int} (hfrom : early ≤ t)
    (hto : t ≤ late) : Readable zone t ∧ Reachable false zone calendar t := by
  have hstart := h.forward _ _ hfrom
  have hend := h.forward _ _ hto
  have hfirst := h.first
  have hlast := h.last
  obtain ⟨day, hday, hlt, hbusiness⟩ :=
    h.runs (localDay zone t + 1) (by omega) (by omega)
  exact ⟨⟨⟨by omega, by omega⟩, by omega⟩,
    .inr (.inr ⟨day, by omega, by omega, hbusiness⟩)⟩

theorem dispatchedAt_email {step : SequenceStep} {dueAt sendAt : Int}
    (hemail : step.channel = .email) (h : dispatchedAt step dueAt zone calendar = .ok sendAt) :
    ∃ placement, placeEmailSend dueAt zone calendar false = .ok placement ∧
      placement.sendAt = sendAt := by
  unfold dispatchedAt at h
  rw [hemail] at h
  cases hplace : placeEmailSend dueAt zone calendar false with
  | error e =>
    rw [hplace] at h
    cases h
  | ok placement =>
    rw [hplace] at h
    exact ⟨placement, rfl, Except.ok.inj h⟩

theorem dispatchedAt_call {step : SequenceStep} {dueAt sendAt : Int}
    (hcall : step.channel = .callTask) (h : dispatchedAt step dueAt zone calendar = .ok sendAt) :
    sendAt = dueAt := by
  unfold dispatchedAt at h
  rw [hcall] at h
  exact (Except.ok.inj h).symm

theorem Ordered.dispatched_ge (h : Ordered zone calendar early late) {step : SequenceStep}
    {dueAt sendAt : Int} (hfrom : early ≤ dueAt) (hto : dueAt ≤ late)
    (hsend : dispatchedAt step dueAt zone calendar = .ok sendAt) : dueAt ≤ sendAt := by
  cases hchannel : step.channel with
  | email =>
    obtain ⟨placement, hplace, rfl⟩ := dispatchedAt_email hchannel hsend
    obtain ⟨hreadable, hreach⟩ := h.readable hfrom hto
    obtain ⟨other, hother, hplaced⟩ := exists_placed h.shown hreadable hreach
    rw [hplace, Except.ok.injEq] at hother
    rw [hother]
    exact hplaced.not_before
  | callTask => exact Int.le_of_eq (dispatchedAt_call hchannel hsend).symm

theorem Ordered.dispatched_mono (h : Ordered zone calendar early late) {step : SequenceStep}
    {dueAt dueAt' sendAt sendAt' : Int} (hfrom : early ≤ dueAt) (hle : dueAt ≤ dueAt')
    (hto : dueAt' ≤ late) (hsend : dispatchedAt step dueAt zone calendar = .ok sendAt)
    (hsend' : dispatchedAt step dueAt' zone calendar = .ok sendAt') : sendAt ≤ sendAt' := by
  cases hchannel : step.channel with
  | email =>
    obtain ⟨placement, hplace, rfl⟩ := dispatchedAt_email hchannel hsend
    obtain ⟨placement', hplace', rfl⟩ := dispatchedAt_email hchannel hsend'
    obtain ⟨hreadable, hreach⟩ := h.readable hfrom (hle.trans hto)
    obtain ⟨hreadable', hreach'⟩ := h.readable (hfrom.trans hle) hto
    exact placeEmailSend_mono h.shown h.closing hreadable hreach hreadable' hreach' hle hplace
      hplace'
  | callTask =>
    rw [dispatchedAt_call hchannel hsend, dispatchedAt_call hchannel hsend']
    exact hle

/-- A due instant is not before the plan. -/
theorem plan_le_due {previous : Option SequenceStep} {step : SequenceStep} {completedAt : Int}
    {due : SuccessorDue} {plan : ResolvedDueInstant}
    (h : successorDue ⟨previous, step, startedAt, zone, calendar, completedAt⟩ = .ok due)
    (hplan : resolveStepDue step startedAt zone calendar = .ok plan) : plan.dueAt ≤ due.dueAt := by
  cases previous with
  | none =>
    unfold successorDue at h
    rw [hplan] at h
    obtain rfl := Except.ok.inj h
    exact Int.le_refl _
  | some previous =>
    obtain ⟨plan', floor, hplan', -, hcases⟩ := successorDue_cases h
    rw [hplan, Except.ok.injEq] at hplan'
    subst hplan'
    omega

/-! ## Runs to the end -/

/-- Every step is completed. -/
def Completes (startedAt : Int) (zone : Zone) (calendar : WorkspaceHolidayCalendar)
    (previous : Option SequenceStep) (completedAt : Int) (steps : List SequenceStep) : Prop :=
  (runFrom startedAt zone calendar previous completedAt steps).map Completion.step = steps

theorem Completes.cons {previous : Option SequenceStep} {completedAt : Int} {step : SequenceStep}
    {steps : List SequenceStep}
    (h : Completes startedAt zone calendar previous completedAt (step :: steps)) :
    ∃ completion, completeStep startedAt zone calendar previous completedAt step = .ok completion ∧
      runFrom startedAt zone calendar previous completedAt (step :: steps) =
        completion :: runFrom startedAt zone calendar (some step) completion.completedAt steps ∧
      Completes startedAt zone calendar (some step) completion.completedAt steps := by
  unfold Completes at h
  cases hstep : completeStep startedAt zone calendar previous completedAt step with
  | error e =>
    unfold runFrom at h
    rw [hstep] at h
    cases h
  | ok completion =>
    have hrun : runFrom startedAt zone calendar previous completedAt (step :: steps) =
        completion :: runFrom startedAt zone calendar (some step) completion.completedAt steps := by
      rw [runFrom, hstep]
    rw [hrun, List.map_cons, List.cons.injEq] at h
    exact ⟨completion, rfl, hrun, h.2⟩

/-- A run to the end completes each of its steps, and goes on from there. -/
theorem Completes.reach {previous : Option SequenceStep} {completedAt : Int}
    {earlier later : List SequenceStep} {step : SequenceStep}
    (h : Completes startedAt zone calendar previous completedAt (earlier ++ step :: later)) :
    ∃ before completed completion,
      completeStep startedAt zone calendar before completed step = .ok completion ∧
      Completes startedAt zone calendar (some step) completion.completedAt later ∧
      ∀ other ∈ completion :: runFrom startedAt zone calendar (some step) completion.completedAt later,
        other ∈ runFrom startedAt zone calendar previous completedAt (earlier ++ step :: later) := by
  induction earlier generalizing previous completedAt with
  | nil =>
    obtain ⟨completion, hstep, hrun, hrest⟩ := h.cons
    refine ⟨previous, completedAt, completion, hstep, hrest, fun other hother => ?_⟩
    rwa [List.nil_append, hrun]
  | cons first earlier ih =>
    rw [List.cons_append] at h
    obtain ⟨completion, -, hrun, hrest⟩ := h.cons
    obtain ⟨before, completed, found, hstep, hlater, hmem⟩ := ih hrest
    refine ⟨before, completed, found, hstep, hlater, fun other hother => ?_⟩
    rw [List.cons_append, hrun]
    exact List.mem_cons_of_mem _ (hmem other hother)

/-- A run whose instants lie between two. -/
structure Within (startedAt : Int) (zone : Zone) (calendar : WorkspaceHolidayCalendar)
    (steps : List SequenceStep) (early late : Int) : Prop where
  ordered : Ordered zone calendar early late
  started : early ≤ startedAt ∧ startedAt ≤ late
  planned : ∀ step ∈ steps, ∀ plan, resolveStepDue step startedAt zone calendar = .ok plan →
    early ≤ plan.dueAt
  completes : Completes startedAt zone calendar none startedAt steps
  bounded : ∀ completion ∈ run startedAt zone calendar steps,
    completion.dueAt ≤ late ∧ completion.completedAt ≤ late

/-- The floor from an earlier completion is earlier. -/
theorem Within.floor_le {steps : List SequenceStep} (h : Within startedAt zone calendar steps early late)
    {previous step : SequenceStep} (hprevious : previous ∈ steps) {plan floor floor' : ResolvedDueInstant}
    {carried completedAt : Int} (hfrom : early ≤ carried) (hle : carried ≤ completedAt)
    (hto : completedAt ≤ late)
    (hplan : ∀ plan, resolveStepDue previous startedAt zone calendar = .ok plan → plan.dueAt ≤ late)
    (hnext : resolveStepDue step startedAt zone calendar = .ok plan)
    (hfloor : spacingFloor previous ⟨some previous, step, startedAt, zone, calendar, carried⟩
      = .ok floor)
    (hfloor' : spacingFloor previous ⟨some previous, step, startedAt, zone, calendar, completedAt⟩
      = .ok floor') : floor.dueAt ≤ floor'.dueAt := by
  cases hprevious' : resolveStepDue previous startedAt zone calendar with
  | error e =>
    unfold spacingFloor at hfloor
    rw [hprevious'] at hfloor
    cases hfloor
  | ok previousPlan =>
    have hplanned : Planned zone calendar startedAt previous step previousPlan plan :=
      ⟨h.ordered.shown.eight, (h.ordered.readable h.started.1 h.started.2).1, hprevious', hnext,
        (h.ordered.readable (h.planned previous hprevious previousPlan hprevious')
          (hplan previousPlan hprevious')).1⟩
    exact hplanned.floor_mono hle (fun _ _ => ⟨(h.ordered.readable hfrom (hle.trans hto)).1,
      (h.ordered.readable (hfrom.trans hle) hto).1, h.ordered.forward _ _ hle⟩) hfloor hfloor'

/-- What is carried to a step is not past its completion. -/
theorem Within.carried_le {steps : List SequenceStep}
    (h : Within startedAt zone calendar steps early late) {previous last : SequenceStep}
    {between later : List SequenceStep} {carried completedAt sendAt : Int}
    (hprevious : previous ∈ steps) (hbetween : ∀ step ∈ between, step ∈ steps)
    (hplan : ∀ plan, resolveStepDue previous startedAt zone calendar = .ok plan → plan.dueAt ≤ late)
    (hfrom : early ≤ carried) (hle : carried ≤ completedAt) (hto : completedAt ≤ late)
    (hcompletes : Completes startedAt zone calendar (some previous) completedAt (between ++ later))
    (hbounded : ∀ completion ∈
      runFrom startedAt zone calendar (some previous) completedAt (between ++ later),
      completion.dueAt ≤ late ∧ completion.completedAt ≤ late)
    (hcarry : carryOn startedAt zone calendar previous carried between = some (last, sendAt)) :
    last = previous ∧ sendAt = carried ∨
      ∃ completion ∈ runFrom startedAt zone calendar (some previous) completedAt (between ++ later),
        completion.step = last ∧ sendAt ≤ completion.completedAt := by
  induction between generalizing previous carried completedAt with
  | nil =>
    obtain ⟨rfl, rfl⟩ := Prod.mk.inj (Option.some.inj hcarry)
    exact .inl ⟨rfl, rfl⟩
  | cons step between ih =>
    right
    rw [carryOn_cons] at hcarry
    obtain ⟨carried', hlate, hcarry⟩ := Option.bind_eq_some_iff.1 hcarry
    rw [List.cons_append] at hcompletes
    obtain ⟨completion, hstep, hrun, hrest⟩ := hcompletes.cons
    obtain ⟨hcompleted, due, hdue, hdueAt, hsend⟩ := completeStep_ok hstep
    rw [List.cons_append, hrun] at hbounded ⊢
    obtain ⟨hdueLate, hcompletedLate⟩ := hbounded completion List.mem_cons_self
    unfold dispatchedLate at hlate
    obtain ⟨plan, floor', hplan', hfloor', hcases⟩ := successorDue_cases hdue
    rw [hplan'] at hlate
    cases hfloor : spacingFloor previous ⟨some previous, step, startedAt, zone, calendar, carried⟩ with
    | error e =>
      rw [hfloor] at hlate
      cases hlate
    | ok floor =>
      rw [hfloor] at hlate
      dsimp only at hlate
      split at hlate
      · cases hlate
      · next hnot =>
        -- the completion's own floor is later still, and so past the plan
        have hfloors := h.floor_le hprevious hfrom hle hto hplan hplan' hfloor hfloor'
        have hdueFloor : due.dueAt = floor'.dueAt := by omega
        have hearly := h.planned step (hbetween step List.mem_cons_self) plan hplan'
        cases hsend' : dispatchedAt step floor.dueAt zone calendar with
        | error e =>
          rw [hsend'] at hlate
          cases hlate
        | ok sendAt' =>
          rw [hsend'] at hlate
          obtain rfl := Option.some.inj hlate
          have hge := h.ordered.dispatched_ge (by omega) (by omega) hsend'
          have hmono := h.ordered.dispatched_mono (by omega) (by omega) (by omega) hsend' hsend
          rcases ih (hbetween step List.mem_cons_self)
              (fun other hother => hbetween other (List.mem_cons_of_mem _ hother))
              (fun plan'' hplan'' => by
                rw [hplan', Except.ok.injEq] at hplan''
                subst hplan''
                omega)
              (by omega) hmono hcompletedLate hrest
              (fun other hother => hbounded other (List.mem_cons_of_mem _ hother)) hcarry
            with ⟨rfl, rfl⟩ | ⟨other, hother, hlast, hsendAt⟩
          · exact ⟨completion, List.mem_cons_self, hcompleted, hmono⟩
          · exact ⟨other, List.mem_cons_of_mem _ hother, hlast, hsendAt⟩

/-- Of a covered run, nothing is carried to an e-mail past the bound. -/
theorem Within.noneCarriedPast {steps : List SequenceStep}
    (h : Within startedAt zone calendar steps early late) {expiry : Int}
    (hexpiry : agreedSequenceExpiry steps startedAt zone calendar = .ok expiry)
    (hcovered : Covered startedAt zone calendar steps expiry) :
    NoneCarriedPast startedAt zone calendar steps := by
  intro earlier step between later hsteps planned last sendAt hplanned hcarry hemail
  have hcompletes := h.completes
  have hbounded := h.bounded
  unfold run at hbounded
  unfold Covered run at hcovered
  rw [hsteps] at hcompletes hbounded hcovered
  obtain ⟨before, completed, completion, hstep, hrest, hmem⟩ := hcompletes.reach
  obtain ⟨hcompleted, due, hdue, hdueAt, hsend⟩ := completeStep_ok hstep
  obtain ⟨hdueLate, hcompletedLate⟩ := hbounded completion (hmem completion List.mem_cons_self)
  have hin : step ∈ steps := by simp [hsteps]
  unfold plannedDispatch at hplanned
  cases hplan : resolveStepDue step startedAt zone calendar with
  | error e =>
    rw [hplan] at hplanned
    cases hplanned
  | ok plan =>
    rw [hplan] at hplanned
    have hle := plan_le_due hdue hplan
    have hearly := h.planned step hin plan hplan
    have hge := h.ordered.dispatched_ge hearly (by omega) hplanned
    have hmono := h.ordered.dispatched_mono hearly hle (by omega) hplanned hsend
    have hlast : ∃ other ∈
        runFrom startedAt zone calendar none startedAt (earlier ++ step :: (between ++ later)),
        other.step = last ∧ sendAt ≤ other.completedAt := by
      rcases h.carried_le hin (fun other hother => by simp [hsteps, hother])
          (fun plan' hplan' => by
            rw [hplan, Except.ok.injEq] at hplan'
            subst hplan'
            omega)
          (by omega) hmono hcompletedLate hrest
          (fun other hother => hbounded other (hmem other (List.mem_cons_of_mem _ hother))) hcarry
        with ⟨rfl, rfl⟩ | ⟨other, hother, hreached, hsendAt⟩
      · exact ⟨completion, hmem completion List.mem_cons_self, hcompleted, hmono⟩
      · exact ⟨other, hmem other (List.mem_cons_of_mem _ hother), hreached, hsendAt⟩
    obtain ⟨other, hother, hreached, hsendAt⟩ := hlast
    have hnot := hcovered other hother (by rwa [hreached])
    unfold expired at hnot
    have hlt := of_decide_eq_false hnot
    rw [← lt_agreedSequenceExpiry hexpiry]
    omega

end Run

/-- The bound covers a run from which no planned dispatch is carried, by the gaps after it, to an
e-mail a day past all the planned ones; and, where clocks are regular, no other. -/
theorem agreed_run_covered (steps : List SequenceStep) (startedAt : Int) (zone : Zone)
    (calendar : WorkspaceHolidayCalendar) (expiry : Int)
    (hexpiry : agreedSequenceExpiry steps startedAt zone calendar = .ok expiry) :
    (NoneCarriedPast startedAt zone calendar steps →
      Covered startedAt zone calendar steps expiry) ∧
    (∀ early late, Within startedAt zone calendar steps early late →
      (Covered startedAt zone calendar steps expiry ↔
        NoneCarriedPast startedAt zone calendar steps)) :=
  ⟨covered_of_noneCarriedPast hexpiry, fun _ _ h =>
    ⟨h.noneCarriedPast hexpiry, covered_of_noneCarriedPast hexpiry⟩⟩

/-- Two e-mails a day apart, from a Saturday at ten on. -/
def weekendSteps : List SequenceStep := [⟨1, .email, .elapsed 0⟩, ⟨2, .email, .elapsed 24⟩]

theorem within_weekend : Within 1790416800000 greenwich emptyHolidayCalendar weekendSteps
    1790416800000 1790668800000 where
  ordered :=
    { shown := ⟨hourShown_greenwich 8, hourShown_greenwich 10, hourShown_greenwich 12⟩
      closing := hourShown_greenwich 17
      forward := fun s t hle => by
        have hclock : ∀ u, greenwich.wallClock u = u := fun u => by
          show u + (if u < 0 then 0 else 0) * minuteMs = u
          simp
        unfold localDay
        rw [hclock, hclock]
        unfold dayMs
        omega
      runs := runsShort_empty
      first := by decide +kernel
      last := by decide +kernel }
  started := by decide
  planned := by
    intro step hstep plan hplan
    rcases List.mem_cons.1 hstep with rfl | hstep
    · rw [show resolveStepDue _ _ _ _ = .ok ⟨1790416800000, js "elapsed.1", js "2026-09-26"⟩ from
        by decide +kernel] at hplan
      rw [← Except.ok.inj hplan]
    · rw [List.mem_singleton.1 hstep, show resolveStepDue _ _ _ _ =
        .ok ⟨1790503200000, js "elapsed.1", js "2026-09-27"⟩ from by decide +kernel] at hplan
      rw [← Except.ok.inj hplan]
      decide
  completes := by
    unfold Completes
    decide +kernel
  bounded := by decide +kernel

/-- Carried on from the first, the second e-mail is a day past both plans. -/
theorem agreed_run_covered_weekend :
    ¬ NoneCarriedPast 1790416800000 greenwich emptyHolidayCalendar weekendSteps := by
  rw [← (agreed_run_covered weekendSteps 1790416800000 greenwich emptyHolidayCalendar 1790668800000
    (by decide +kernel)).2 1790416800000 1790668800000 within_weekend]
  intro hcovered
  have hlast := hcovered ⟨⟨2, .email, .elapsed 24⟩, 1790668800000, 1790668800000⟩
    (by decide +kernel) rfl
  revert hlast
  decide

/-- The second e-mail goes out on Tuesday at eight, when the permission ends. -/
theorem weekend_refused :
    agreedSequenceExpiry weekendSteps 1790416800000 greenwich emptyHolidayCalendar
      = .ok 1790668800000 ∧
    run 1790416800000 greenwich emptyHolidayCalendar weekendSteps =
      [⟨⟨1, .email, .elapsed 0⟩, 1790416800000, 1790582400000⟩,
        ⟨⟨2, .email, .elapsed 24⟩, 1790668800000, 1790668800000⟩] ∧
    expired 1790668800000 1790668800000 = true := by
  refine ⟨by decide +kernel, by decide +kernel, by decide⟩

end FoundingSales.Successor
