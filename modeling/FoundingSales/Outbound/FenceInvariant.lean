import FoundingSales.Outbound.ProcessMoves

/-!
The row invariant over every run: `fences_consistent`. A statement changes the table in
one of three ways (`RowChange`); each keeps the invariant of every row and the uniqueness
of its keys, and leaves a dispatched row its token and its bytes.
-/

namespace FoundingSales.Outbound

open Processes Tables Rules Relation

/-! ## What a statement does to the table -/

inductive RowChange (P : Platform) (before : FenceTable) : FenceTable → Prop
  | same : RowChange P before before
  | insert {row : Fence} {after : FenceTable} (hrow : FenceInvariant P row)
      (hunique : ∀ other ∈ before, sharesUniqueKey row other = false)
      (hinsert : before.insert? row = some after) : RowChange P before after
  | update {old new : Fence} (hold : before.find? old.id = some old) (hmoved : Moved P old new) :
      RowChange P before (before.put new)

theorem Move.rowChange {P : Platform} {p : ProcessId} {a b : Mode × Store} (h : Move P p a b) :
    RowChange P a.2.messages b.2.messages := by
  cases h with
  | still m s => exact .same
  | insert hm hrow hunique hinsert => exact .insert hrow hunique hinsert
  | move hm hold hmoved hpermit => exact .update hold hmoved
  | touch hold hmoved hstate => exact .update hold hmoved
  | log hm => exact .same
  | call hm => exact .same

/-- What every statement keeps, a commit keeps. -/
theorem Committed.invariant {P : Platform} {p : ProcessId} {I : Mode × Store → Prop}
    (keep : ∀ a b, I a → Move P p a b → I b) {a b : Mode × Store} (ha : I a)
    (h : Committed P p a b) : I b := by
  cases h with
  | statement h => exact keep a b ha h
  | transaction hm h =>
    induction h with
    | refl => exact ha
    | tail _ hstep ih => exact keep _ _ ih hstep

/-- What a commit of any process and its end keep, a run keeps. -/
theorem run_keeps {P : Platform} {J : (ProcessId → Mode) → Store → Prop}
    (move : ∀ modes s p m' s', J modes s → Move P p (modes p, s) (m', s') →
      J (Function.update modes p m') s')
    (rest : ∀ modes s p, J modes s → J (Function.update modes p Mode.rest) s)
    {w : FenceWorld} {modes : ProcessId → Mode}
    (hw : World.Follows (Committed P) Mode.rest Mode.Done w modes) (hJ : J modes w.store)
    (inputs : List FenceInput) :
    ∃ modes', World.Follows (Committed P) Mode.rest Mode.Done
        (Runs.run (fenceStep P) w inputs) modes' ∧
      J modes' (Runs.run (fenceStep P) w inputs).store := by
  refine World.run_invariant (fun _ _ => True) (fun _ _ _ => True) code_finishes ?_
    (fun modes s p h _ => rest modes s p h) (fun modes s p h _ => rest modes s p h) hw hJ
    (Runs.meets_of_forall _ World.orderly_of_true w inputs)
  intro modes s p m' s' h hcommit _
  refine hcommit.invariant (I := fun a => J (Function.update modes p a.1) a.2) ?_ (by simpa using h)
  intro a b ha hmove
  have hstep := move _ a.2 p b.1 b.2 ha (by simpa using hmove)
  simpa using hstep

/-! ## The invariant of the table -/

structure TableInvariant (P : Platform) (messages : FenceTable) : Prop where
  rows : ∀ row ∈ messages, FenceInvariant P row
  unique : ∀ row ∈ messages, ∀ other ∈ messages, row.id ≠ other.id →
    sharesUniqueKey row other = false

theorem tableInvariant_empty (P : Platform) : TableInvariant P Store.empty.messages := by
  constructor <;> exact fun row h => absurd h Table.not_mem_empty

private theorem sharesUniqueKey_symm {row other : Fence} (h : sharesUniqueKey row other = true) :
    sharesUniqueKey other row = true := by
  simp only [sharesUniqueKey, Bool.or_eq_true, Bool.and_eq_true, decide_eq_true_eq] at h ⊢
  rcases h with (⟨hsome, heq⟩ | ⟨hsome, heq⟩) | ⟨hmailbox, hheader⟩
  · exact .inl (.inl ⟨heq ▸ hsome, heq.symm⟩)
  · exact .inl (.inr ⟨heq ▸ hsome, heq.symm⟩)
  · exact .inr ⟨hmailbox.symm, hheader.symm⟩

theorem sharesUniqueKey_comm (row other : Fence) :
    sharesUniqueKey row other = sharesUniqueKey other row :=
  Bool.eq_iff_iff.2 ⟨sharesUniqueKey_symm, sharesUniqueKey_symm⟩

theorem SameKeys.sharesUniqueKey_eq {old new : Fence} (h : SameKeys old new) (other : Fence) :
    sharesUniqueKey new other = sharesUniqueKey old other := by
  simp only [sharesUniqueKey, h.mailbox, h.stepExecution, h.draft, h.header]

variable {P : Platform} {before after : FenceTable}

theorem mem_put_update {old new row : Fence} (hold : before.find? old.id = some old)
    (hmoved : Moved P old new) :
    row ∈ before.put new ↔ row = new ∨ (row ∈ before ∧ row.id ≠ old.id) := by
  rw [Table.mem_put ⟨old, (Table.find?_eq_some.1 hold).1, hmoved.keys.id.symm⟩, hmoved.keys.id]

theorem TableInvariant.change (h : TableInvariant P before) (hc : RowChange P before after) :
    TableInvariant P after := by
  cases hc with
  | same => exact h
  | insert hrow hunique hinsert =>
    constructor
    · intro row hmem
      rcases (Table.mem_insert? hinsert).1 hmem with hmem | rfl
      · exact h.rows row hmem
      · exact hrow
    · intro row hmem other hother hne
      rcases (Table.mem_insert? hinsert).1 hmem with hmem | rfl <;>
        rcases (Table.mem_insert? hinsert).1 hother with hother | rfl
      · exact h.unique row hmem other hother hne
      · rw [sharesUniqueKey_comm]
        exact hunique row hmem
      · exact hunique other hother
      · exact absurd rfl hne
  | update hold hmoved =>
    rename_i old new
    have hmem := (Table.find?_eq_some.1 hold).1
    constructor
    · intro row hrow
      rcases (mem_put_update hold hmoved).1 hrow with rfl | ⟨hrow, -⟩
      · exact hmoved.keeps (h.rows old hmem)
      · exact h.rows row hrow
    · intro row hrow other hother hne
      rcases (mem_put_update hold hmoved).1 hrow with rfl | ⟨hbefore, hid⟩ <;>
        rcases (mem_put_update hold hmoved).1 hother with rfl | ⟨hbefore', hid'⟩
      · exact absurd rfl hne
      · rw [hmoved.keys.sharesUniqueKey_eq]
        exact h.unique old hmem other hbefore' (Ne.symm hid')
      · rw [sharesUniqueKey_comm, hmoved.keys.sharesUniqueKey_eq, sharesUniqueKey_comm]
        exact h.unique row hbefore old hmem hid
      · exact h.unique row hbefore other hbefore' hne

/-! ## What a dispatched fence keeps -/

/-- Token, dispatch instant, recipient, bytes and header are those of the earlier row. -/
structure SameDispatch (row later : Fence) : Prop where
  token : later.attemptToken = row.attemptToken
  dispatchStartedAt : later.dispatchStartedAt = row.dispatchStartedAt
  recipient : later.recipientAddress = row.recipientAddress
  subject : later.subject = row.subject
  body : later.body = row.body
  hash : later.renderedHash = row.renderedHash
  header : later.providerMessageIdHeader = row.providerMessageIdHeader

theorem SameDispatch.refl (row : Fence) : SameDispatch row row := by constructor <;> rfl

theorem SameDispatch.trans {a b c : Fence} (h : SameDispatch a b) (h' : SameDispatch b c) :
    SameDispatch a c :=
  ⟨h'.token.trans h.token, h'.dispatchStartedAt.trans h.dispatchStartedAt,
    h'.recipient.trans h.recipient, h'.subject.trans h.subject, h'.body.trans h.body,
    h'.hash.trans h.hash, h'.header.trans h.header⟩

/-- What the trigger lets through leaves a dispatched row its dispatch. -/
theorem sameDispatch_of_allowed {old new : Fence} (hinv : FenceInvariant P old)
    (h : assertOutboundTransition old new = true) (ht : old.attemptToken.isSome = true) :
    SameDispatch old new := by
  have hd := hinv.dispatchStarted.2 ht
  have hno : old.attemptToken.isNone = false := Option.isNone_eq_false_iff.2 ht
  have hno' : old.dispatchStartedAt.isNone = false := Option.isNone_eq_false_iff.2 hd
  simp only [assertOutboundTransition, hno, hno', Bool.false_or, Bool.and_eq_true,
    decide_eq_true_eq, sameEnvelope] at h
  constructor <;> simp [h]

/-- Every row of `before` is still there, and a dispatched one keeps its dispatch. -/
def Keeps (before after : FenceTable) : Prop :=
  ∀ row ∈ before, ∃ later ∈ after, later.id = row.id ∧
    (row.attemptToken.isSome = true → SameDispatch row later)

theorem Keeps.refl (messages : FenceTable) : Keeps messages messages :=
  fun row h => ⟨row, h, rfl, fun _ => .refl row⟩

theorem Keeps.change {start : FenceTable} (hinv : TableInvariant P before)
    (h : Keeps start before) (hc : RowChange P before after) : Keeps start after := by
  intro row hrow
  obtain ⟨mid, hmid, hid, hsame⟩ := h row hrow
  cases hc with
  | same => exact ⟨mid, hmid, hid, hsame⟩
  | insert _ _ hinsert => exact ⟨mid, (Table.mem_insert? hinsert).2 (.inl hmid), hid, hsame⟩
  | update hold hmoved =>
    rename_i old new
    by_cases hk : mid.id = old.id
    · obtain rfl : mid = old := Table.eq_of_key_eq hmid (Table.find?_eq_some.1 hold).1 hk
      refine ⟨new, (mem_put_update hold hmoved).2 (.inl rfl), hmoved.keys.id.trans hid,
        fun ht => ?_⟩
      have hmidSame := hsame ht
      have htoken : mid.attemptToken.isSome = true := by rw [hmidSame.token, ht]
      have hrowInv := hinv.rows mid hmid
      exact hmidSame.trans (sameDispatch_of_allowed hrowInv (hmoved.allowed hrowInv) htoken)
    · exact ⟨mid, (mem_put_update hold hmoved).2 (.inr ⟨hmid, hk⟩), hid, hsame⟩

/-! ## Every run -/

/-- A run of processes reaches tables that satisfy the invariant, with its processes still
obeying the discipline. -/
theorem run_tableInvariant (P : Platform) (inputs : List FenceInput) :
    ∃ modes, World.Follows (Committed P) Mode.rest Mode.Done (fenceRun P inputs) modes ∧
      TableInvariant P (fenceRun P inputs).store.messages :=
  run_keeps (J := fun _ s => TableInvariant P s.messages)
    (fun _ _ _ _ _ h hmove => h.change hmove.rowChange) (fun _ _ _ h => h)
    (World.follows_idle _) (tableInvariant_empty P) inputs

theorem run_keeps_dispatch (P : Platform) (inputs later : List FenceInput) :
    Keeps (fenceRun P inputs).store.messages (fenceRun P (inputs ++ later)).store.messages := by
  obtain ⟨modes, hfollows, hinv⟩ := run_tableInvariant P inputs
  have hrun : fenceRun P (inputs ++ later) = Runs.run (fenceStep P) (fenceRun P inputs) later :=
    Runs.run_append _ _ _ _
  rw [hrun]
  obtain ⟨-, -, -, hkeeps⟩ := run_keeps
    (J := fun _ s => TableInvariant P s.messages ∧
      Keeps (fenceRun P inputs).store.messages s.messages)
    (fun _ _ _ _ _ h hmove => ⟨h.1.change hmove.rowChange, h.2.change h.1 hmove.rowChange⟩)
    (fun _ _ _ h => h) hfollows ⟨hinv, .refl _⟩ later
  exact hkeeps

/-- Whatever operations run and however they interleave or die: every fence satisfies its
invariant, an origin has one fence, and a fence with a token keeps its dispatch for good. -/
theorem fences_consistent (P : Platform) (inputs later : List FenceInput) :
    (∀ row ∈ (fenceRun P inputs).store.messages, FenceInvariant P row) ∧
    (∀ row ∈ (fenceRun P inputs).store.messages,
      ∀ other ∈ (fenceRun P inputs).store.messages,
      (row.stepExecutionId.isSome → row.stepExecutionId = other.stepExecutionId → row = other) ∧
      (row.draftId.isSome → row.draftId = other.draftId → row = other)) ∧
    (∀ row ∈ (fenceRun P inputs).store.messages, row.attemptToken.isSome →
      ∃ row' ∈ (fenceRun P (inputs ++ later)).store.messages,
        row'.id = row.id ∧ SameDispatch row row') := by
  obtain ⟨-, -, hinv⟩ := run_tableInvariant P inputs
  refine ⟨hinv.rows, ?_, ?_⟩
  · intro row hrow other hother
    have hone : sharesUniqueKey row other = true → row = other := by
      intro hshared
      refine Table.eq_of_key_eq hrow hother ?_
      by_contra hne
      rw [hinv.unique row hrow other hother hne] at hshared
      exact Bool.false_ne_true hshared
    refine ⟨fun hsome heq => hone ?_, fun hsome heq => hone ?_⟩
    · simp [sharesUniqueKey, ← heq, hsome]
    · simp [sharesUniqueKey, ← heq, hsome]
  · intro row hrow ht
    obtain ⟨row', hrow', hid, hsame⟩ := run_keeps_dispatch P inputs later row hrow
    exact ⟨row', hrow', hid, hsame ht⟩

end FoundingSales.Outbound
