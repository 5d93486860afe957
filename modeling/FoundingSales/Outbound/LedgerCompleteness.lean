import FoundingSales.Library.Ledgers
import FoundingSales.Outbound.FenceInvariant

/-!
The ledger against the transitions that committed.

Outside the claiming transaction a transition and its ledger row are two commits, so a
process that stops between them leaves a transition the ledger never shows
(`ledger_incomplete_after_crash`). When no process stops there, and the rows of a fence
are written in the order its transitions committed, the ledger is complete whenever no
process is in the middle of an operation (`ledger_complete_of_orderly`).
-/

namespace FoundingSales.Outbound

open Processes Tables Rules Ledgers Relation

/-! ## Transitions and ledger rows -/

/-- The transitions of a fence, oldest first. -/
def transitionsOf (id : Uuid) : List Note → List (Option OutboundState × OutboundState)
  | [] => []
  | .moved _ i source target :: older =>
    if i = id then transitionsOf id older ++ [(source, target)] else transitionsOf id older
  | _ :: older => transitionsOf id older

/-- A transition its process has not written to the ledger yet. -/
structure Debt where
  process : ProcessId
  source : Option OutboundState
  target : OutboundState
  deriving DecidableEq

/-- The debts of a fence, in the order their transitions committed. -/
def unlogged (id : Uuid) : List Note → List Debt
  | [] => []
  | .moved p i source target :: older =>
    if i = id then unlogged id older ++ [⟨p, source, target⟩] else unlogged id older
  | .logged p i :: older =>
    if i = id then (unlogged id older).eraseP fun debt => debt.process = p
    else unlogged id older
  | .called _ _ :: older => unlogged id older

def FenceEvent.edge (event : FenceEvent) : Option OutboundState × OutboundState :=
  (event.fromState, event.toState)

def Debt.edge (debt : Debt) : Option OutboundState × OutboundState := (debt.source, debt.target)

/-- The ledger of a fence is numbered `1 … n`, its rows follow one another, and the last
one shows the fence's state. -/
structure LedgerComplete (s : Store) (row : Fence) : Prop where
  numbered : (s.eventsOf row.id).map FenceEvent.sequenceNumber
    = List.range' 1 (s.eventsOf row.id).length
  linked : (s.eventsOf row.id).IsChain fun event next => next.fromState = some event.toState
  current : (s.eventsOf row.id).getLast?.map FenceEvent.toState = some row.state

/-! ## The condition -/

/-- A process may stop when it owes no ledger row. -/
def OwesNothing (p : ProcessId) (s : Store) : Prop :=
  ∀ id, ∀ debt ∈ unlogged id s.history, debt.process ≠ p

/-- A commit of process `p` that writes to the ledger of a fence finds there no older
unlogged transition of another process. -/
def InOrder (p : ProcessId) (s s' : Store) : Prop :=
  ∀ id, (s.eventsOf id).length < (s'.eventsOf id).length →
    ∀ debt, (unlogged id s.history).head? = some debt → debt.process = p

/-- No process stops between a transition and its ledger row, and the rows are written in
the order of the transitions. -/
abbrev KeepsLedgerOrder : FenceWorld → FenceInput → Prop := World.Orderly OwesNothing InOrder

def Note.fence : Note → Uuid
  | .moved _ id _ _ | .logged _ id | .called _ id => id

theorem unlogged_eq_nil {id : Uuid} {history : List Note}
    (h : id ∉ history.map Note.fence) : unlogged id history = [] := by
  induction history with
  | nil => rfl
  | cons note older ih =>
    simp only [List.map_cons, List.mem_cons, not_or] at h
    have hne := Ne.symm h.1
    cases note <;> simp_all [unlogged, Note.fence]

instance OwesNothing.instDecidable (p : ProcessId) (s : Store) : Decidable (OwesNothing p s) :=
  decidable_of_iff
    (∀ id ∈ s.history.map Note.fence, ∀ debt ∈ unlogged id s.history, debt.process ≠ p) <| by
    refine ⟨fun h id debt hdebt => ?_, fun h id _ => h id⟩
    by_cases hid : id ∈ s.history.map Note.fence
    · exact h id hid debt hdebt
    · rw [unlogged_eq_nil hid] at hdebt
      exact absurd hdebt List.not_mem_nil

instance InOrder.instDecidable (p : ProcessId) (s s' : Store) : Decidable (InOrder p s s') :=
  decidable_of_iff
    (∀ id ∈ s.history.map Note.fence, (s.eventsOf id).length < (s'.eventsOf id).length →
      ∀ debt ∈ (unlogged id s.history).head?, debt.process = p) <| by
    refine ⟨fun h id hgrew debt hdebt => ?_, fun h id _ => h id⟩
    by_cases hid : id ∈ s.history.map Note.fence
    · exact h id hid hgrew debt hdebt
    · simp [unlogged_eq_nil hid] at hdebt

/-! ## The invariant -/

/-- What a mode owes for one fence. -/
def Mode.debts (m : Mode) (p : ProcessId) (id : Uuid) : List Debt :=
  match m.owed with
  | some (i, source, target) => if i = id then [⟨p, source, target⟩] else []
  | none => []

structure LedgerInvariant (modes : ProcessId → Mode) (s : Store) : Prop where
  /-- the transitions lead to the state each fence is in -/
  transitions : ∀ id, Chained none (transitionsOf id s.history)
    ((s.messages.find? id).map Fence.state)
  numbered : ∀ id, (s.eventsOf id).map FenceEvent.sequenceNumber
    = List.range' 1 (s.eventsOf id).length
  /-- each process owes what its mode says -/
  debts : ∀ p id, (unlogged id s.history).filter (fun debt => debt.process = p)
    = (modes p).debts p id
  /-- the ledger and the debts are the transitions -/
  covered : ∀ id, (s.eventsOf id).map FenceEvent.edge ++ (unlogged id s.history).map Debt.edge
    = transitionsOf id s.history

theorem ledgerInvariant_empty : LedgerInvariant (fun _ => Mode.rest) Store.empty := by
  constructor <;> intros <;> rfl

theorem LedgerInvariant.complete {modes : ProcessId → Mode} {s : Store} {row : Fence}
    (h : LedgerInvariant modes s) (hrow : s.messages.find? row.id = some row)
    (hquiet : unlogged row.id s.history = []) : LedgerComplete s row := by
  have hchained := h.transitions row.id
  have hcovered := h.covered row.id
  rw [hquiet, List.map_nil, List.append_nil] at hcovered
  rw [← hcovered, hrow] at hchained
  refine ⟨h.numbered row.id, ?_, ?_⟩
  · have hlinked := hchained.isChain
    rw [List.isChain_map] at hlinked
    exact hlinked
  · have hlast := hchained.getLast?
    rw [List.getLast?_map, Option.map_map] at hlast
    exact hlast

theorem eventsOf_withEvent (s : Store) (input : AppendEvent) (id : Uuid) :
    (s.withEvent input).eventsOf id = s.eventsOf id ++
      if input.outboundMessageId = id then
        [{ outboundMessageId := input.outboundMessageId
           sequenceNumber := s.nextSequenceNumber input.outboundMessageId
           fromState := input.fromState
           toState := input.toState
           attemptToken := input.attemptToken
           actor := input.actor
           detail := input.detail }]
      else [] := by
  by_cases hid : input.outboundMessageId = id <;>
    simp [Store.withEvent, Store.eventsOf, List.filter_append, hid]

theorem nextSequenceNumber_eq {s : Store} {id : Uuid}
    (h : (s.eventsOf id).map FenceEvent.sequenceNumber = List.range' 1 (s.eventsOf id).length) :
    s.nextSequenceNumber id = (s.eventsOf id).length + 1 := by
  rw [Store.nextSequenceNumber, h, foldr_max_range']

/-! ## One statement -/

section Statement

variable {P : Platform} {modes : ProcessId → Mode} {s : Store} {p : ProcessId}

private theorem debts_of_settled {m : Mode} (hm : m.owed = none) (q : ProcessId) (id : Uuid) :
    m.debts q id = [] := by
  simp [Mode.debts, hm]

/-- The modes of the other processes, and what they owe, are as they were. -/
private theorem LedgerInvariant.debts_of_ne (h : LedgerInvariant modes s) {m : Mode}
    {q : ProcessId} (hq : q ≠ p) {id : Uuid} {debts : List Debt}
    (hsame : debts.filter (fun debt => debt.process = q)
      = (unlogged id s.history).filter fun debt => debt.process = q) :
    debts.filter (fun debt => debt.process = q) = (Function.update modes p m q).debts q id := by
  rw [hsame, h.debts q id, Function.update_of_ne hq]

/-- A transition adds itself to the transitions and to the debts. -/
private theorem LedgerInvariant.moved {m : Mode} {after : FenceTable} {id : Uuid}
    {source : Option OutboundState} {target : OutboundState} (h : LedgerInvariant modes s)
    (howed : (modes p).owed = none) (hm : m.owed = some (id, source, target))
    (hbefore : (s.messages.find? id).map Fence.state = source)
    (hafter : (after.find? id).map Fence.state = some target)
    (hothers : ∀ i, i ≠ id → after.find? i = s.messages.find? i) :
    LedgerInvariant (Function.update modes p m)
      { s with messages := after, history := .moved p id source target :: s.history } := by
  constructor
  · intro i
    by_cases hi : i = id
    · subst hi
      simp only [transitionsOf, ↓reduceIte, hafter]
      exact (hbefore ▸ h.transitions i).concat
    · simp only [transitionsOf, if_neg (Ne.symm hi), hothers i hi]
      exact h.transitions i
  · exact h.numbered
  · intro q i
    by_cases hi : id = i
    · subst hi
      by_cases hq : q = p
      · subst hq
        have hnone := h.debts q id
        rw [debts_of_settled howed] at hnone
        simp [unlogged, List.filter_append, hnone, Mode.debts, hm]
      · refine h.debts_of_ne hq ?_
        simp [unlogged, List.filter_append, Ne.symm hq]
    · by_cases hq : q = p
      · subst hq
        have hdebts := h.debts q i
        rw [debts_of_settled howed] at hdebts
        simpa [unlogged, hi, Mode.debts, hm] using hdebts
      · refine h.debts_of_ne hq ?_
        simp [unlogged, hi]
  · intro i
    have hcovered := h.covered i
    by_cases hi : id = i
    · simp only [unlogged, transitionsOf, if_pos hi, List.map_append, ← List.append_assoc]
      exact congrArg (· ++ [(source, target)]) hcovered
    · simp only [unlogged, transitionsOf, if_neg hi]
      exact hcovered

/-- The ledger row that was owed, where no older debt of another process is left. -/
private theorem LedgerInvariant.logged {m : Mode} {input : AppendEvent}
    (h : LedgerInvariant modes s)
    (howed : (modes p).owed = some (input.outboundMessageId, input.fromState, input.toState))
    (hm : m.owed = none)
    (hfirst : ∀ debt, (unlogged input.outboundMessageId s.history).head? = some debt →
      debt.process = p) :
    LedgerInvariant (Function.update modes p m)
      { s.withEvent input with history := .logged p input.outboundMessageId :: s.history } := by
  have hown := h.debts p input.outboundMessageId
  simp only [Mode.debts, howed, ↓reduceIte] at hown
  obtain ⟨rest, hdebts⟩ : ∃ rest, unlogged input.outboundMessageId s.history
      = ⟨p, input.fromState, input.toState⟩ :: rest := by
    cases hlist : unlogged input.outboundMessageId s.history with
    | nil => simp [hlist] at hown
    | cons debt rest =>
      have hprocess := hfirst debt (by rw [hlist]; rfl)
      rw [hlist, List.filter_cons_of_pos (by simpa using hprocess)] at hown
      rw [(List.cons.inj hown).1]
      exact ⟨rest, rfl⟩
  have hrest : unlogged input.outboundMessageId (.logged p input.outboundMessageId :: s.history)
      = rest := by
    simp [unlogged, hdebts]
  have hothers : ∀ i, input.outboundMessageId ≠ i →
      unlogged i (.logged p input.outboundMessageId :: s.history) = unlogged i s.history := by
    intro i hi
    simp [unlogged, hi]
  have hevents := eventsOf_withEvent s input
  constructor
  · exact h.transitions
  · intro i
    change ((s.withEvent input).eventsOf i).map _ = List.range' 1 ((s.withEvent input).eventsOf i).length
    by_cases hi : input.outboundMessageId = i
    · subst hi
      rw [hevents, if_pos rfl, List.map_append, h.numbered, List.length_append,
        List.length_singleton, List.range'_concat]
      simp [nextSequenceNumber_eq (h.numbered input.outboundMessageId), Nat.add_comm]
    · rw [hevents, if_neg hi, List.append_nil]
      exact h.numbered i
  · intro q i
    by_cases hi : input.outboundMessageId = i
    · subst hi
      rw [hrest]
      by_cases hq : q = p
      · subst hq
        rw [hdebts, List.filter_cons_of_pos (by simp)] at hown
        rw [(List.cons.inj hown).2, Function.update_self, debts_of_settled hm]
      · refine h.debts_of_ne hq ?_
        rw [hdebts, List.filter_cons_of_neg (by simpa using Ne.symm hq)]
    · rw [hothers i hi]
      by_cases hq : q = p
      · subst hq
        rw [h.debts, Function.update_self, debts_of_settled hm]
        simp [Mode.debts, howed, hi]
      · exact h.debts_of_ne hq rfl
  · intro i
    change ((s.withEvent input).eventsOf i).map _ ++ _ = transitionsOf i s.history
    rw [← h.covered i, hevents, List.map_append]
    by_cases hi : input.outboundMessageId = i
    · subst hi
      rw [hrest, hdebts]
      simp [FenceEvent.edge, Debt.edge]
    · rw [hothers i hi, if_neg hi]
      simp

/-- Every statement keeps the invariant, if the ledger rows it writes are in order. -/
theorem LedgerInvariant.move {m' : Mode} {s' : Store} (h : LedgerInvariant modes s)
    (hmove : Move P p (modes p, s) (m', s')) (horder : InOrder p s s') :
    LedgerInvariant (Function.update modes p m') s' := by
  generalize hm : modes p = m at hmove
  cases hmove with
  | still m s =>
    rw [← hm, Function.update_eq_self]
    exact h
  | insert howed hrow hunique hinsert =>
    refine h.moved (by rw [hm, howed]) rfl ?_ ?_ fun i hi => Table.find?_insert?_ne hinsert hi
    · rw [(Table.insert?_eq_some hinsert).1]
      rfl
    · rw [Table.find?_insert?_self hinsert]
      rfl
  | move howed hold hmoved hpermit =>
    have hid := hmoved.keys.id
    have hfound := Table.find?_put_self ⟨_, (Table.find?_eq_some.1 hold).1, hid.symm⟩
    rw [hid] at hfound
    refine h.moved (by rw [hm, howed]) rfl (by rw [hold]; rfl) (by rw [hfound]; rfl)
      fun i hi => Table.find?_put_ne (by rw [hid]; exact hi)
  | touch hold hmoved hstate =>
    rename_i old new
    rw [← hm, Function.update_eq_self]
    have hid := hmoved.keys.id
    have hfound := Table.find?_put_self ⟨_, (Table.find?_eq_some.1 hold).1, hid.symm⟩
    rw [hid] at hfound
    refine ⟨fun i => ?_, h.numbered, h.debts, h.covered⟩
    have htransitions := h.transitions i
    by_cases hi : i = old.id
    · subst hi
      rw [hold] at htransitions
      simpa [hfound, hstate] using htransitions
    · simpa [Table.find?_put_ne (hid.symm ▸ hi)] using htransitions
  | log howed =>
    rename_i input
    refine h.logged (by rw [hm, howed]) rfl (horder _ ?_)
    change _ < ((s.withEvent input).eventsOf _).length
    rw [eventsOf_withEvent, if_pos rfl, List.length_append]
    exact Nat.lt_succ_self _
  | call hpermit =>
    refine ⟨h.transitions, h.numbered, fun q i => ?_, h.covered⟩
    by_cases hq : q = p
    · subst hq
      have hdebts := h.debts q i
      rw [hm] at hdebts
      simpa [unlogged, Mode.debts] using hdebts
    · exact h.debts_of_ne hq rfl

/-- A ledger only grows. -/
theorem Move.events_le {a b : Mode × Store} (h : Move P p a b) (id : Uuid) :
    (a.2.eventsOf id).length ≤ (b.2.eventsOf id).length := by
  cases h with
  | log howed =>
    rename_i input
    change _ ≤ ((Store.withEvent _ input).eventsOf id).length
    rw [eventsOf_withEvent, List.length_append]
    exact Nat.le_add_right _ _
  | _ => exact Nat.le_refl _

private theorem events_le_of_moves {a b : Mode × Store} (h : ReflTransGen (Move P p) a b)
    (id : Uuid) : (a.2.eventsOf id).length ≤ (b.2.eventsOf id).length := by
  induction h with
  | refl => exact Nat.le_refl _
  | tail _ hstep ih => exact ih.trans (hstep.events_le id)

/-- What one process adds to the debts, or takes away, is its own. -/
private theorem Move.unlogged {a b : Mode × Store} (h : Move P p a b) {id : Uuid}
    {others own : List Debt} (hothers : ∀ debt ∈ others, debt.process ≠ p)
    (hown : ∀ debt ∈ own, debt.process = p)
    (ha : Outbound.unlogged id a.2.history = others ++ own) :
    ∃ own', Outbound.unlogged id b.2.history = others ++ own' ∧
      ∀ debt ∈ own', debt.process = p := by
  have hmoved : ∀ i source target, ∃ own',
      Outbound.unlogged id (.moved p i source target :: a.2.history) = others ++ own' ∧
        ∀ debt ∈ own', debt.process = p := by
    intro i source target
    by_cases hi : i = id
    · refine ⟨own ++ [⟨p, source, target⟩], ?_, ?_⟩
      · simp [Outbound.unlogged, hi, ha]
      · intro debt hdebt
        rcases List.mem_append.1 hdebt with hdebt | hdebt
        · exact hown debt hdebt
        · rw [List.mem_singleton.1 hdebt]
    · exact ⟨own, by simp [Outbound.unlogged, hi, ha], hown⟩
  cases h with
  | still m s => exact ⟨own, ha, hown⟩
  | insert howed hrow hunique hinsert => exact hmoved _ _ _
  | move howed hold hmove hpermit => exact hmoved _ _ _
  | touch hold hmove hstate => exact ⟨own, ha, hown⟩
  | call hpermit => exact ⟨own, ha, hown⟩
  | log howed =>
    rename_i m s input
    by_cases hi : input.outboundMessageId = id
    · refine ⟨own.eraseP fun debt => debt.process = p, ?_, ?_⟩
      · simp only [Outbound.unlogged, if_pos hi]
        rw [ha, List.eraseP_append_right _ fun debt hdebt => by simpa using hothers debt hdebt]
      · exact fun debt hdebt => hown debt (List.mem_of_mem_eraseP hdebt)
    · exact ⟨own, by simp [Outbound.unlogged, hi, ha], hown⟩

end Statement

/-! ## Every run -/

section Run

variable {P : Platform} {modes : ProcessId → Mode} {s : Store} {p : ProcessId}

private theorem LedgerInvariant.owesNothing (h : LedgerInvariant modes s)
    (hm : (modes p).owed = none) : OwesNothing p s := by
  intro id debt hdebt hprocess
  have hmem : debt ∈ (unlogged id s.history).filter fun debt => debt.process = p :=
    List.mem_filter.2 ⟨hdebt, decide_eq_true hprocess⟩
  rw [h.debts p id, debts_of_settled hm] at hmem
  exact absurd hmem List.not_mem_nil

/-- A transaction that writes to a ledger in order found no debt there. -/
theorem LedgerInvariant.transaction {b : Mode × Store} (h : LedgerInvariant modes s)
    (hm : (modes p).owed = none) (hmoves : ReflTransGen (Move P p) (modes p, s) b)
    (horder : InOrder p s b.2) : LedgerInvariant (Function.update modes p b.1) b.2 := by
  have hnone := h.owesNothing hm
  suffices hkeep : (∀ id, (s.eventsOf id).length < (b.2.eventsOf id).length →
      unlogged id s.history = []) →
      LedgerInvariant (Function.update modes p b.1) b.2 ∧
      ∀ id, ∃ own, unlogged id b.2.history = unlogged id s.history ++ own ∧
        ∀ debt ∈ own, debt.process = p by
    refine (hkeep fun id hgrew => ?_).1
    cases hlist : unlogged id s.history with
    | nil => rfl
    | cons debt rest =>
      exact absurd (horder id hgrew debt (by rw [hlist]; rfl)) (hnone id debt (by simp [hlist]))
  clear horder
  induction hmoves with
  | refl =>
    intro _
    refine ⟨by simpa using h, fun id => ⟨[], by simp, by simp⟩⟩
  | tail hmoves hstep ih =>
    rename_i b c
    intro hempty
    obtain ⟨hinv, hdebts⟩ := ih fun id hgrew =>
      hempty id (Nat.lt_of_lt_of_le hgrew (hstep.events_le id))
    have horder : InOrder p b.2 c.2 := by
      intro id hgrew debt hdebt
      obtain ⟨own, hown, hprocess⟩ := hdebts id
      have hgrewAll := Nat.lt_of_le_of_lt (events_le_of_moves hmoves id) hgrew
      rw [hown, hempty id hgrewAll, List.nil_append] at hdebt
      exact hprocess debt (List.mem_of_head? hdebt)
    constructor
    · have hnext := hinv.move (P := P) (by simpa using hstep) horder
      simpa using hnext
    · intro id
      obtain ⟨own, hown, hprocess⟩ := hdebts id
      exact hstep.unlogged (hnone id) hprocess hown

theorem LedgerInvariant.committed {m' : Mode} {s' : Store} (h : LedgerInvariant modes s)
    (hcommit : Committed P p (modes p, s) (m', s')) (horder : InOrder p s s') :
    LedgerInvariant (Function.update modes p m') s' := by
  cases hcommit with
  | statement hmove => exact h.move hmove horder
  | transaction hm hmoves => exact h.transaction hm hmoves horder

/-- A process may leave the scene when it owes nothing. -/
theorem LedgerInvariant.rest (h : LedgerInvariant modes s)
    (hnone : ∀ id, (modes p).debts p id = []) :
    LedgerInvariant (Function.update modes p Mode.rest) s := by
  refine ⟨h.transitions, h.numbered, fun q id => ?_, h.covered⟩
  by_cases hq : q = p
  · subst hq
    rw [h.debts, hnone id, Function.update_self, debts_of_settled rfl]
  · exact h.debts_of_ne hq rfl

/-- When every step of a run keeps the ledger order, the ledger of every fence is complete
whenever no process is in the middle of an operation. -/
theorem ledger_complete_of_orderly (P : Platform) (inputs : List FenceInput)
    (h : Runs.Meets (fenceStep P) KeepsLedgerOrder (World.idle Store.empty) inputs)
    (hquiet : (fenceRun P inputs).Quiet) :
    ∀ row ∈ (fenceRun P inputs).store.messages,
      LedgerComplete (fenceRun P inputs).store row := by
  obtain ⟨modes, hfollows, hinv⟩ := World.run_invariant OwesNothing InOrder code_finishes
    (J := LedgerInvariant)
    (fun modes s p m' s' h hcommit horder => h.committed hcommit horder)
    (fun modes s p h hdone => h.rest fun id => debts_of_settled hdone p id)
    (fun modes s p h howes => h.rest fun id => by
      rw [← h.debts p id, List.filter_eq_nil_iff]
      exact fun debt hdebt => by simpa using howes id debt hdebt)
    (World.follows_idle _) ledgerInvariant_empty h
  intro row hrow
  refine hinv.complete (Table.find?_eq_some.2 ⟨hrow, rfl⟩) ?_
  rw [List.eq_nil_iff_forall_not_mem]
  intro debt hdebt
  have hmodes := hfollows.modes_of_quiet hquiet
  exact hinv.owesNothing (p := debt.process) (by rw [hmodes]; rfl) row.id debt hdebt rfl

end Run

/-! ## A reply that is sent, and one whose process stops -/

def sampleReply : HumanReplyInput where
  draftId := js "11111111-1111-4111-8111-111111111111"
  mailboxId := js "22222222-2222-4222-8222-222222222222"
  firmId := js "33333333-3333-4333-8333-333333333333"
  contactId := js "44444444-4444-4444-8444-444444444444"
  opportunityId := none
  address := js "pat@firm.example"
  routeId := js "55555555-5555-4555-8555-555555555555"
  routeVersion := 1
  subject := js "Re: Visit"
  body := js "Thursday works."
  sourceZone := js "UTC"

def samplePlatform : Platform := asciiPlatform
  [(js "Re: Visit\n\nThursday works.",
    js "a049621c5851e61bee4058a6fb740c917085aad7370f918232e6aef8346478d7")]

def sampleFenceId : Uuid := js "66666666-6666-4666-8666-666666666666"

def sampleToken : Uuid := js "77777777-7777-4777-8777-777777777777"

/-- Nothing refuses the send, and Gmail accepts it. -/
def sampleEnv (uuid : Uuid) : Env :=
  { (default : Env) with
    uuid := uuid
    primarySendingDomain := some (js "callie.example")
    gate := .ok default
    humanReplyApprovalIsLive := true
    campaignOpeningVerified := true
    reserved := true
    markMeetingDraftSubmitted := true
    consumeHumanReplyApproval := true
    sendAnswer := .sent (js "m1") (js "t1") }

/-- Process 0 prepares the reply; process 1 dispatches it, and takes `steps` statements. -/
def sampleRun (steps : Nat) : List FenceInput :=
  .start 0 (.prepareHumanReplyFence ⟨js "system:api"⟩ sampleReply)
    :: List.replicate 5 (.advance 0 (sampleEnv sampleFenceId))
    ++ .start 1 (.dispatchOutboundMessage ⟨js "system:worker"⟩ ⟨none, none, none⟩ sampleFenceId)
    :: List.replicate steps (.advance 1 (sampleEnv sampleToken))

/-- The process dies once Gmail answered and the fence is `sent`, before the ledger row. -/
def crashedRun : List FenceInput := sampleRun 8 ++ [.die 1]

theorem crashedRun_quiet : (fenceRun samplePlatform crashedRun).Quiet :=
  World.quiet_of_started (fun _ => rfl) _ [0, 1] (by decide +kernel) (by decide +kernel)

/-- The ledger of a sent fence can end at `dispatching` for good. -/
theorem ledger_incomplete_after_crash :
    ¬ ∀ (P : Platform) (inputs : List FenceInput), (fenceRun P inputs).Quiet →
      ∀ row ∈ (fenceRun P inputs).store.messages,
        LedgerComplete (fenceRun P inputs).store row := by
  intro h
  have hcomplete := h samplePlatform crashedRun crashedRun_quiet
  have hrows : (fenceRun samplePlatform crashedRun).store.messages.rows.map
      (fun row => (row.state, ((fenceRun samplePlatform crashedRun).store.eventsOf row.id).getLast?.map
        FenceEvent.toState)) = [(.sent, some .dispatching)] := by
    decide +kernel
  obtain ⟨row, hrow, heq⟩ := List.mem_map.1 (hrows ▸ List.mem_singleton_self _)
  have hcurrent := (hcomplete row hrow).current
  simp only [Prod.mk.injEq] at heq
  rw [heq.1, heq.2] at hcurrent
  exact absurd hcurrent (by decide)

/-- A sent reply, with its whole ledger. -/
theorem ledger_complete_of_sampleRun :
    (fenceRun samplePlatform (sampleRun 11)).store.messages.rows.map Fence.state = [.sent] ∧
      ∀ row ∈ (fenceRun samplePlatform (sampleRun 11)).store.messages,
        LedgerComplete (fenceRun samplePlatform (sampleRun 11)).store row :=
  ⟨by decide +kernel,
    ledger_complete_of_orderly samplePlatform (sampleRun 11) (by decide +kernel)
      (World.quiet_of_started (fun _ => rfl) _ [0, 1] (by decide +kernel) (by decide +kernel))⟩

end FoundingSales.Outbound
