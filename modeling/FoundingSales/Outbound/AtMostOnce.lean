import FoundingSales.Outbound.FenceInvariant

/-!
At-most-once dispatch. A fence passes from `prepared` to `dispatching` once in its life,
because from then on its row is started and stays so; the process that took it there
holds the only permit for the fence, and the call spends it.
-/

namespace FoundingSales.Outbound

open Processes Tables Rules

/-! ## Counting in the history -/

/-- The note is the transition `prepared → dispatching` of the fence. -/
def Note.dispatches (id : Uuid) : Note → Bool
  | .moved _ i source target => i = id && source = some .prepared && target = .dispatching
  | _ => false

/-- The note is a `gmail.sendMessage` for the fence. -/
def Note.calls (id : Uuid) : Note → Bool
  | .called _ i => i = id
  | _ => false

def dispatchCount (id : Uuid) (history : List Note) : Nat := history.countP (Note.dispatches id)

def callCount (id : Uuid) (history : List Note) : Nat := history.countP (Note.calls id)

/-- Every call follows the transition that its own process made. -/
def CallsBacked : List Note → Prop
  | [] => True
  | .called p id :: older => .moved p id (some .prepared) .dispatching ∈ older ∧ CallsBacked older
  | _ :: older => CallsBacked older

theorem CallsBacked.claim {p : ProcessId} {id : Uuid} {newer older : List Note}
    (h : CallsBacked (newer ++ .called p id :: older)) :
    .moved p id (some .prepared) .dispatching ∈ older := by
  induction newer with
  | nil => exact h.1
  | cons note newer ih =>
    cases note with
    | called q i => exact ih h.2
    | moved q i source target => exact ih h
    | logged q i => exact ih h

theorem dispatchCount_pos {p : ProcessId} {id : Uuid} {history : List Note}
    (h : .moved p id (some .prepared) .dispatching ∈ history) : 0 < dispatchCount id history :=
  List.countP_pos_iff.2 ⟨_, h, by simp [Note.dispatches]⟩

/-- One transition has one author. -/
theorem dispatch_author {p q : ProcessId} {id : Uuid} {history : List Note}
    (hone : dispatchCount id history ≤ 1)
    (hp : .moved p id (some .prepared) .dispatching ∈ history)
    (hq : .moved q id (some .prepared) .dispatching ∈ history) : p = q := by
  rw [dispatchCount, List.countP_eq_length_filter] at hone
  have hmem : ∀ r, Note.moved r id (some .prepared) .dispatching ∈ history →
      Note.moved r id (some .prepared) .dispatching ∈ history.filter (Note.dispatches id) :=
    fun r hr => List.mem_filter.2 ⟨hr, by simp [Note.dispatches]⟩
  cases hfilter : history.filter (Note.dispatches id) with
  | nil =>
    have := hmem p hp
    simp [hfilter] at this
  | cons note rest =>
    rw [hfilter] at hone
    have hrest : rest = [] := by
      cases rest with
      | nil => rfl
      | cons a l => simp at hone
    have hpnote := hmem p hp
    have hqnote := hmem q hq
    rw [hfilter, hrest, List.mem_singleton] at hpnote hqnote
    have := hpnote.trans hqnote.symm
    injection this

/-! ## The invariant -/

structure AtMostOnce (P : Platform) (modes : ProcessId → Mode) (s : Store) : Prop where
  table : TableInvariant P s.messages
  /-- a dispatched fence is started -/
  started : ∀ id, 0 < dispatchCount id s.history →
    ∃ row ∈ s.messages, row.id = id ∧ row.state.started = true
  once : ∀ id, dispatchCount id s.history ≤ 1
  called : ∀ id, callCount id s.history ≤ dispatchCount id s.history
  permit : ∀ p id, (modes p).permit = some id →
    .moved p id (some .prepared) .dispatching ∈ s.history ∧ callCount id s.history = 0
  backed : CallsBacked s.history

theorem atMostOnce_empty (P : Platform) : AtMostOnce P (fun _ => Mode.rest) Store.empty := by
  constructor
  · exact tableInvariant_empty P
  · simp [dispatchCount, Store.empty]
  · simp [dispatchCount, Store.empty]
  · simp [callCount, Store.empty]
  · simp [Mode.rest]
  · trivial

/-- A started row stays started. -/
theorem Moved.started {P : Platform} {old new : Fence} (hmoved : Moved P old new)
    (hinv : FenceInvariant P old) (h : old.state.started = true) : new.state.started = true := by
  have hallowed := hmoved.allowed hinv
  simp only [assertOutboundTransition, Bool.and_eq_true, Bool.or_eq_true, decide_eq_true_eq]
    at hallowed
  rcases hallowed.1.1.1 with hsame | hedge
  · rw [hsame, h]
  · revert hedge h
    cases old.state <;> cases new.state <;> simp [allowedEdge, OutboundState.started]

/-- Every started row of `before` is started in `after`. -/
def StaysStarted (before after : FenceTable) : Prop :=
  ∀ row ∈ before, row.state.started = true →
    ∃ later ∈ after, later.id = row.id ∧ later.state.started = true

theorem StaysStarted.change {P : Platform} {start before after : FenceTable}
    (hinv : TableInvariant P before) (h : StaysStarted start before)
    (hc : RowChange P before after) : StaysStarted start after := by
  intro row hrow hstarted
  obtain ⟨mid, hmid, hid, hmidStarted⟩ := h row hrow hstarted
  cases hc with
  | same => exact ⟨mid, hmid, hid, hmidStarted⟩
  | insert _ _ hinsert => exact ⟨mid, (Table.mem_insert? hinsert).2 (.inl hmid), hid, hmidStarted⟩
  | update hold hmoved =>
    rename_i old new
    by_cases hk : mid.id = old.id
    · obtain rfl : mid = old := Table.eq_of_key_eq hmid (Table.find?_eq_some.1 hold).1 hk
      exact ⟨new, (mem_put_update hold hmoved).2 (.inl rfl), hmoved.keys.id.trans hid,
        hmoved.started (hinv.rows mid hmid) hmidStarted⟩
    · exact ⟨mid, (mem_put_update hold hmoved).2 (.inr ⟨hmid, hk⟩), hid, hmidStarted⟩

section Step

variable {P : Platform} {modes : ProcessId → Mode} {s : Store} {p : ProcessId}

/-- The clauses about the table alone. -/
private theorem AtMostOnce.started_change {after : FenceTable} (h : AtMostOnce P modes s)
    (hc : RowChange P s.messages after) (id : Uuid) (hid : 0 < dispatchCount id s.history) :
    ∃ row ∈ after, row.id = id ∧ row.state.started = true := by
  obtain ⟨row, hrow, hrowId, hstarted⟩ := h.started id hid
  have hstay : StaysStarted s.messages after :=
    StaysStarted.change h.table (fun r hr hs => ⟨r, hr, rfl, hs⟩) hc
  obtain ⟨later, hlater, hlaterId, hlaterStarted⟩ := hstay row hrow hstarted
  exact ⟨later, hlater, hlaterId.trans hrowId, hlaterStarted⟩

/-- A row still `prepared` was never dispatched. -/
theorem AtMostOnce.undispatched {row : Fence} (h : AtMostOnce P modes s) (hrow : row ∈ s.messages)
    (hs : row.state.started = false) : dispatchCount row.id s.history = 0 := by
  by_contra hne
  obtain ⟨other, hother, hid, hstarted⟩ := h.started row.id (Nat.pos_of_ne_zero hne)
  rw [Table.eq_of_key_eq hother hrow hid, hs] at hstarted
  exact Bool.false_ne_true hstarted

private theorem permit_of_same {m : Mode} (hm : m.permit = (modes p).permit) (q : ProcessId) :
    (Function.update modes p m q).permit = (modes q).permit := by
  by_cases hq : q = p
  · subst hq
    simpa using hm
  · simp [Function.update_of_ne hq]

/-- A note that is neither a call nor a dispatch changes no count. -/
private theorem AtMostOnce.note {m : Mode} {after : FenceTable} {note : Note}
    {events : List FenceEvent} (h : AtMostOnce P modes s)
    (hc : RowChange P s.messages after) (hpermit : m.permit = (modes p).permit)
    (hdispatch : ∀ id, note.dispatches id = false) (hcall : ∀ q id, note ≠ .called q id) :
    AtMostOnce P (Function.update modes p m)
      { messages := after, events := events, history := note :: s.history } := by
  have hcalls : ∀ id, note.calls id = false := by
    intro id
    cases note with
    | called q i => exact absurd rfl (hcall q i)
    | moved q i source target => rfl
    | logged q i => rfl
  have hcount : ∀ id, dispatchCount id (note :: s.history) = dispatchCount id s.history := by
    intro id
    simp [dispatchCount, hdispatch id]
  have hcallCount : ∀ id, callCount id (note :: s.history) = callCount id s.history := by
    intro id
    simp [callCount, hcalls id]
  constructor
  · exact h.table.change hc
  · intro id hid
    exact h.started_change hc id (hcount id ▸ hid)
  · intro id
    rw [hcount]
    exact h.once id
  · intro id
    rw [hcount, hcallCount]
    exact h.called id
  · intro q id hq
    rw [permit_of_same hpermit] at hq
    obtain ⟨hclaim, hnone⟩ := h.permit q id hq
    exact ⟨List.mem_cons_of_mem _ hclaim, (hcallCount id).trans hnone⟩
  · cases note with
    | called q i => exact absurd rfl (hcall q i)
    | moved q i source target => exact h.backed
    | logged q i => exact h.backed

/-- The dispatch of a prepared row, whether or not it gives its process the permit. -/
private theorem AtMostOnce.dispatch {m : Mode} {old new : Fence} (h : AtMostOnce P modes s)
    (hold : s.messages.find? old.id = some old) (hmoved : Moved P old new)
    (hprepared : old.state = .prepared) (hdispatching : new.state = .dispatching)
    (hpermit : m.permit = (modes p).permit ∨ m.permit = some old.id) :
    AtMostOnce P (Function.update modes p m) { s with
      messages := s.messages.put new
      history := .moved p old.id (some .prepared) .dispatching :: s.history } := by
  have hrow := (Table.find?_eq_some.1 hold).1
  have hnone := h.undispatched hrow (by simp [hprepared, OutboundState.started])
  have huncalled : callCount old.id s.history = 0 := by
    have := h.called old.id
    omega
  have hcount : ∀ id, dispatchCount id (.moved p old.id (some .prepared) .dispatching :: s.history)
      = dispatchCount id s.history + if old.id = id then 1 else 0 := by
    intro id
    simp [dispatchCount, List.countP_cons, Note.dispatches]
  have hcallCount : ∀ id, callCount id (.moved p old.id (some .prepared) .dispatching :: s.history)
      = callCount id s.history := by
    intro id
    simp [callCount, Note.calls]
  constructor
  · exact h.table.change (.update hold hmoved)
  · intro id hid
    by_cases hk : old.id = id
    · subst hk
      exact ⟨new, (mem_put_update hold hmoved).2 (.inl rfl), hmoved.keys.id,
        by simp [hdispatching, OutboundState.started]⟩
    · rw [hcount, if_neg hk] at hid
      exact h.started_change (.update hold hmoved) id hid
  · intro id
    rw [hcount]
    have := h.once id
    split
    · next hk =>
      subst hk
      omega
    · omega
  · intro id
    rw [hcount, hcallCount]
    exact Nat.le_add_right_of_le (h.called id)
  · intro q id hq
    have hkept : (modes q).permit = some id →
        Note.moved q id (some .prepared) .dispatching
          ∈ .moved p old.id (some .prepared) .dispatching :: s.history ∧
        callCount id (.moved p old.id (some .prepared) .dispatching :: s.history) = 0 := by
      intro hq
      obtain ⟨hclaim, hzero⟩ := h.permit q id hq
      exact ⟨List.mem_cons_of_mem _ hclaim, (hcallCount id).trans hzero⟩
    rcases hpermit with hsame | hgiven
    · rw [permit_of_same hsame] at hq
      exact hkept hq
    · by_cases hqp : q = p
      · subst hqp
        rw [Function.update_self, hgiven] at hq
        obtain rfl := Option.some.inj hq
        exact ⟨List.mem_cons_self, (hcallCount old.id).trans huncalled⟩
      · rw [Function.update_of_ne hqp] at hq
        exact hkept hq
  · exact h.backed

/-- The call spends the only permit there is for the fence. -/
private theorem AtMostOnce.call {m : Mode} {id : Uuid} (h : AtMostOnce P modes s)
    (hid : (modes p).permit = some id) (hspent : m.permit = none) :
    AtMostOnce P (Function.update modes p m)
      { s with history := .called p id :: s.history } := by
  obtain ⟨hclaim, hzero⟩ := h.permit p id hid
  have hpos := dispatchCount_pos hclaim
  have hcount : ∀ i, dispatchCount i (.called p id :: s.history) = dispatchCount i s.history := by
    intro i
    simp [dispatchCount, Note.dispatches]
  have hcallCount : ∀ i, callCount i (.called p id :: s.history)
      = callCount i s.history + if id = i then 1 else 0 := by
    intro i
    simp [callCount, List.countP_cons, Note.calls]
  constructor
  · exact h.table
  · intro i hi
    exact h.started i (hcount i ▸ hi)
  · intro i
    rw [hcount]
    exact h.once i
  · intro i
    rw [hcount, hcallCount]
    have := h.called i
    split
    · next hk =>
      subst hk
      omega
    · omega
  · intro q i hq
    by_cases hqp : q = p
    · subst hqp
      rw [Function.update_self, hspent] at hq
      cases hq
    · rw [Function.update_of_ne hqp] at hq
      obtain ⟨hother, hotherZero⟩ := h.permit q i hq
      refine ⟨List.mem_cons_of_mem _ hother, ?_⟩
      rw [hcallCount, if_neg, hotherZero]
      rintro rfl
      exact hqp (dispatch_author (h.once id) hother hclaim)
  · exact ⟨hclaim, h.backed⟩

/-- Every statement keeps the invariant. -/
theorem AtMostOnce.move {m' : Mode} {s' : Store} (h : AtMostOnce P modes s)
    (hmove : Move P p (modes p, s) (m', s')) :
    AtMostOnce P (Function.update modes p m') s' := by
  have hmessages := hmove.rowChange
  generalize hm : modes p = m at hmove
  cases hmove with
  | still m s =>
    rw [← hm, Function.update_eq_self]
    exact h
  | insert howed hrow hunique hinsert =>
    exact h.note hmessages (by simp [hm]) (fun id => by simp [Note.dispatches])
      (fun _ _ => Note.noConfusion)
  | touch hold hmoved hstate =>
    rw [← hm, Function.update_eq_self]
    exact ⟨h.table.change hmessages, fun id hid => h.started_change hmessages id hid, h.once,
      h.called, h.permit, h.backed⟩
  | log howed =>
    exact h.note hmessages (by simp [hm]) (fun id => rfl) (fun _ _ => Note.noConfusion)
  | call hpermit => exact h.call (by rw [hm]; exact hpermit) rfl
  | move howed hold hmoved hpermit =>
    rename_i old new permit
    by_cases hedge : old.state = .prepared ∧ new.state = .dispatching
    · rw [hedge.1, hedge.2]
      refine h.dispatch hold hmoved hedge.1 hedge.2 ?_
      rcases hpermit with hsame | hgiven
      · exact .inl (by simp [hm, hsame])
      · exact .inr hgiven.1
    · have hsame : permit = m.permit := by
        rcases hpermit with hsame | hgiven
        · exact hsame
        · exact absurd hgiven.2 hedge
      refine h.note hmessages (by simp [hm, hsame]) (fun id => ?_) (fun _ _ => Note.noConfusion)
      simp only [Note.dispatches, Option.some.injEq, Bool.and_eq_false_iff, decide_eq_false_iff_not]
      by_contra hne
      simp only [not_or, not_not] at hne
      exact hedge ⟨hne.1.2, hne.2⟩

theorem AtMostOnce.rest (h : AtMostOnce P modes s) (p : ProcessId) :
    AtMostOnce P (Function.update modes p Mode.rest) s := by
  refine ⟨h.table, h.started, h.once, h.called, fun q id hq => ?_, h.backed⟩
  by_cases hqp : q = p
  · subst hqp
    rw [Function.update_self] at hq
    cases hq
  · rw [Function.update_of_ne hqp] at hq
    exact h.permit q id hq

end Step

/-! ## Every run -/

theorem run_atMostOnce (P : Platform) (inputs : List FenceInput) :
    ∃ modes, World.Follows (Committed P) Mode.rest Mode.Done (fenceRun P inputs) modes ∧
      AtMostOnce P modes (fenceRun P inputs).store :=
  run_keeps (fun _ _ _ _ _ h hmove => h.move hmove) (fun _ _ p h => h.rest p)
    (World.follows_idle _) (atMostOnce_empty P) inputs

/-- A started fence is started after every further run. -/
theorem run_staysStarted (P : Platform) (inputs later : List FenceInput) :
    StaysStarted (fenceRun P inputs).store.messages
      (fenceRun P (inputs ++ later)).store.messages := by
  obtain ⟨modes, hfollows, hinv⟩ := run_tableInvariant P inputs
  have hrun : fenceRun P (inputs ++ later) = Runs.run (fenceStep P) (fenceRun P inputs) later :=
    Runs.run_append _ _ _ _
  rw [hrun]
  obtain ⟨-, -, -, hstarted⟩ := run_keeps
    (J := fun _ s => TableInvariant P s.messages ∧
      StaysStarted (fenceRun P inputs).store.messages s.messages)
    (fun _ _ _ _ _ h hmove => ⟨h.1.change hmove.rowChange, h.2.change h.1 hmove.rowChange⟩)
    (fun _ _ _ h => h) hfollows ⟨hinv, fun row hrow hs => ⟨row, hrow, rfl, hs⟩⟩ later
  exact hstarted

/-- For every fence and every interleaving of processes that may die anywhere: it is
dispatched at most once, Gmail is called for it at most once and only by the process that
dispatched it, and a fence once started is never prepared or held again. -/
theorem dispatch_at_most_once (P : Platform) (inputs later : List FenceInput) (id : Uuid) :
    dispatchCount id (fenceRun P inputs).store.history ≤ 1 ∧
    callCount id (fenceRun P inputs).store.history ≤ 1 ∧
    (∀ p newer older, (fenceRun P inputs).store.history = newer ++ .called p id :: older →
      .moved p id (some .prepared) .dispatching ∈ older) ∧
    (∀ row ∈ (fenceRun P inputs).store.messages, row.id = id → row.state.started = true →
      ∃ row' ∈ (fenceRun P (inputs ++ later)).store.messages,
        row'.id = id ∧ row'.state.started = true) := by
  obtain ⟨modes, -, h⟩ := run_atMostOnce P inputs
  refine ⟨h.once id, (h.called id).trans (h.once id), ?_, ?_⟩
  · intro p newer older hhistory
    have hbacked := h.backed
    rw [hhistory] at hbacked
    exact hbacked.claim
  · rintro row hrow rfl hstarted
    exact run_staysStarted P inputs later row hrow hstarted

end FoundingSales.Outbound
