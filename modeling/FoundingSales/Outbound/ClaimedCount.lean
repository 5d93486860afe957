import FoundingSales.Outbound.DailyCap

/-!
The day's counter against the fences that left on that day. Every claim moves both; a
restore that finds a message in the Sent folder gives its fence a token on the message's
date and counts nothing, and from then on the two differ (`tombstone_uncounted`).

Proved here:
* `claimed_eq_sent_add_restored`: over every run, the fences claimed on a day are the ones
  counted and the ones restored;
* `sent_eq_claimed_iff`: the two agree along a run exactly if no step of it commits a
  restored token on that day.
-/

namespace FoundingSales.Outbound.Capacity

open Transactions Tables Runs

variable {P : Platform} {m : Uuid} {d : BusinessDate}

/-- The step commits a restore that gave a fence of that mailbox and date its token. -/
def restoresOn (m : Uuid) (d : BusinessDate) (w : CapacityWorld) (i : CapacityInput) : Bool :=
  (w.committing i).any (CapacityNote.restores m d)

/-- The restored tokens of a run. -/
def restoredOn (P : Platform) (m : Uuid) (d : BusinessDate) (w : CapacityWorld)
    (inputs : List CapacityInput) : Nat :=
  Runs.total (step P) (fun w i => if restoresOn m d w i then 1 else 0) w inputs

theorem restoredOn_cons {w : CapacityWorld} {i : CapacityInput} {inputs : List CapacityInput} :
    restoredOn P m d w (i :: inputs)
      = (if restoresOn m d w i then 1 else 0) + restoredOn P m d (step P w i) inputs := rfl

theorem claimed_eq_sent_add_restored {w : CapacityWorld} (hw : Sound w) (m : Uuid)
    (d : BusinessDate) (inputs : List CapacityInput) :
    (claimedAutomatedSends (run (step P) w inputs).committed m d : Int)
        - automatedSent (run (step P) w inputs).committed m d
      = claimedAutomatedSends w.committed m d - automatedSent w.committed m d
        + restoredOn P m d w inputs := by
  induction inputs generalizing w with
  | nil => simp [restoredOn, Runs.total]
  | cons i inputs ih =>
    have hrest := ih (step_sound (P := P) hw i)
    have hsent := step_automatedSent (P := P) hw i m d
    have hclaimed := step_claimedAutomatedSends (P := P) hw i m d
    have hweight : ((if restoresOn m d w i then 1 else 0 : Nat) : Int)
        = one ((w.committing i).any (CapacityNote.restores m d)) := by
      unfold restoresOn one
      split <;> rfl
    rw [run_cons, hrest, restoredOn_cons, Int.natCast_add, hweight]
    omega

theorem restoredOn_eq_zero {w : CapacityWorld} {inputs : List CapacityInput}
    (h : restoredOn P m d w inputs = 0) :
    Meets (step P) (fun w i => restoresOn m d w i = false) w inputs := by
  induction inputs generalizing w with
  | nil => trivial
  | cons i inputs ih =>
    rw [restoredOn_cons, Nat.add_eq_zero_iff] at h
    refine ⟨?_, ih h.2⟩
    cases hrestores : restoresOn m d w i with
    | false => exact hrestores
    | true => simp [hrestores] at h

theorem restoredOn_of_meets {w : CapacityWorld} {inputs : List CapacityInput}
    (h : Meets (step P) (fun w i => restoresOn m d w i = false) w inputs) :
    restoredOn P m d w inputs = 0 := by
  induction inputs generalizing w with
  | nil => rfl
  | cons i inputs ih =>
    have hi : restoresOn m d w i = false := h.1
    rw [restoredOn_cons, ih h.2, hi]
    rfl

/-- The counter is the number of fences that began to leave on the day, in every state of a
run, exactly if no step of the run commits a restored token on that day. -/
theorem sent_eq_claimed_iff (P : Platform) (inputs : List CapacityInput) (m : Uuid)
    (d : BusinessDate) :
    (∀ front back, inputs = front ++ back →
      automatedSent (run (step P) start front).committed m d
        = claimedAutomatedSends (run (step P) start front).committed m d) ↔
    Meets (step P) (fun w i => restoresOn m d w i = false) start inputs := by
  have hcount : ∀ front, (claimedAutomatedSends (run (step P) start front).committed m d : Int)
      - automatedSent (run (step P) start front).committed m d = restoredOn P m d start front :=
    fun front => (claimed_eq_sent_add_restored start_sound m d front).trans (Int.zero_add _)
  constructor
  · intro hequal
    refine restoredOn_eq_zero ?_
    have hall := hcount inputs
    rw [hequal inputs [] (List.append_nil _).symm] at hall
    omega
  · rintro hmeets front back rfl
    have hfront := hcount front
    rw [restoredOn_of_meets hmeets.append.1] at hfront
    omega

/-! ## A message the counter misses -/

/-- A message of 28 July found in the Sent folder, of a step whose fence the restored
database does not have. -/
def sampleMessage : SentFolderMessage where
  fenceId := js "66666666-6666-4666-8666-666666666666"
  mailboxId := js "11111111-1111-4111-8111-111111111111"
  rfcMessageId := js "<fss.66666666-6666-4666-8666-666666666666@callie.example>"
  providerMessageId := js "m1"
  providerThreadId := js "t1"
  subject := some (js "Visit")
  sentAt := 1785240000000

def sampleFacts : TombstoneFacts where
  origin := .step (js "22222222-2222-4222-8222-222222222222")
    (js "33333333-3333-4333-8333-333333333333") (js "44444444-4444-4444-8444-444444444444")
  firmId := js "55555555-5555-4555-8555-555555555555"
  contactId := js "88888888-8888-4888-8888-888888888888"
  recipientAddress := js "ada@firm.example"
  recipientRouteId := none
  recipientRouteVersion := none
  businessDate := 20662

def sampleRestoreEnv : CapacityEnv where
  env := { (default : Env) with uuid := js "77777777-7777-4777-8777-777777777777" }
  mailbox := none
  gateRefusal := none
  epochBound := none
  recovery := none
  unready := none
  incident := none
  businessDate := 20662
  waiting := none
  footer := .kept
  permissionId := none
  permitted := false
  mailboxExists := true
  healthyStreak := 0
  humanReplyUnresolved := false
  verifiedBytes := none
  tombstone := some sampleFacts

/-- One restore, statement by statement. -/
def restoreRun : List CapacityInput :=
  .start 0 (.recoverSentFolderMessage sampleMessage) :: List.replicate 5 (.run 0 sampleRestoreEnv)

/-- The restored message left on the date, and the count of the date is zero. -/
theorem tombstone_uncounted :
    automatedSent (run (step (asciiPlatform [])) start restoreRun).committed
      sampleMessage.mailboxId sampleFacts.businessDate = 0 ∧
    claimedAutomatedSends (run (step (asciiPlatform [])) start restoreRun).committed
      sampleMessage.mailboxId sampleFacts.businessDate = 1 := by
  decide +kernel

end FoundingSales.Outbound.Capacity
