import FoundingSales.Outbound.Reconcile

/-!
What a statement can do to the fences, said once. `Moved` is one update of a row; `Move`
is one statement of a process, with the ledger row the process owes and its permit to call
Gmail as the mode it is in. Every operation obeys `Move`, and the dispatch, whose claim is
one transaction, obeys `Committed`.
-/

namespace FoundingSales.Outbound

open Processes Tables Rules Contracts Relation

/-! ## One row -/

/-- What every stored fence satisfies. -/
structure FenceInvariant (P : Platform) (row : Fence) : Prop where
  token : row.attemptToken.isSome ↔ row.state.started
  dispatchStarted : row.dispatchStartedAt.isSome ↔ row.attemptToken.isSome
  sentAt : row.sentAt.isSome ↔ row.state = .sent
  heldAt : row.heldAt.isSome ↔ row.state = .held
  heldReason : row.heldReason.isSome ↔ row.state = .held
  hash : row.renderedHash = renderedHash P row.subject row.body

structure SameKeys (old new : Fence) : Prop where
  id : new.id = old.id
  mailbox : new.mailboxId = old.mailboxId
  stepExecution : new.stepExecutionId = old.stepExecutionId
  draft : new.draftId = old.draftId
  header : new.providerMessageIdHeader = old.providerMessageIdHeader

/-- One update of a row: its keys stay, the invariant is kept, and the transition trigger
has nothing to refuse. -/
structure Moved (P : Platform) (old new : Fence) : Prop where
  keys : SameKeys old new
  keeps : FenceInvariant P old → FenceInvariant P new
  allowed : FenceInvariant P old → assertOutboundTransition old new = true

section Updates

variable {P : Platform} {e : Env} {row : Fence}

theorem FenceInvariant.no_token (h : FenceInvariant P row) (hs : row.state.started = false) :
    row.attemptToken = none ∧ row.dispatchStartedAt = none := by
  have ht : row.attemptToken = none := by
    rw [← Option.not_isSome_iff_eq_none, h.token, hs]
    exact Bool.false_ne_true
  refine ⟨ht, ?_⟩
  rw [← Option.not_isSome_iff_eq_none, h.dispatchStarted, ht]
  simp

theorem FenceInvariant.none_of_ne (h : FenceInvariant P row) :
    (row.state ≠ .sent → row.sentAt = none) ∧
      (row.state ≠ .held → row.heldAt = none ∧ row.heldReason = none) := by
  refine ⟨fun hs => ?_, fun hh => ⟨?_, ?_⟩⟩
  · exact Option.not_isSome_iff_eq_none.1 fun hsome => hs (h.sentAt.1 hsome)
  · exact Option.not_isSome_iff_eq_none.1 fun hsome => hh (h.heldAt.1 hsome)
  · exact Option.not_isSome_iff_eq_none.1 fun hsome => hh (h.heldReason.1 hsome)

/-- The trigger asks about the edge, the token, its instant and the frozen columns. -/
private theorem allowed_started {new : Fence} (hedge : allowedEdge row.state new.state = true)
    (htoken : new.attemptToken = row.attemptToken)
    (hinstant : new.dispatchStartedAt = row.dispatchStartedAt)
    (hsame : sameEnvelope row new = true) : assertOutboundTransition row new = true := by
  simp only [assertOutboundTransition, hedge, htoken, hinstant, hsame, Bool.or_true,
    decide_true, Bool.and_self]

/-- An update of a fence without a token: the trigger asks about the edge only. -/
private theorem allowed_unstarted {new : Fence} (h : FenceInvariant P row)
    (hs : row.state.started = false)
    (hedge : new.state = row.state ∨ allowedEdge row.state new.state = true) :
    assertOutboundTransition row new = true := by
  obtain ⟨ht, hd⟩ := h.no_token hs
  simpa [assertOutboundTransition, ht, hd] using hedge

theorem claimSet_moved {businessDate : Option BusinessDate} (hs : row.state = .prepared) :
    Moved P row (claimSet businessDate e row) where
  keys := ⟨rfl, rfl, rfl, rfl, rfl⟩
  keeps h := by
    obtain ⟨hsent, hheld⟩ := h.none_of_ne
    constructor <;>
      simp [claimSet, OutboundState.started, hsent (by simp [hs]), hheld (by simp [hs]), h.hash]
  allowed h := allowed_unstarted h (by simp [hs, OutboundState.started])
    (.inr (by rw [hs]; rfl))

theorem sentSet_moved {messageId threadId : JsString} (hs : row.state = .dispatching) :
    Moved P row (sentSet messageId threadId e row) where
  keys := ⟨rfl, rfl, rfl, rfl, rfl⟩
  keeps h := by
    have htoken := h.token
    obtain ⟨-, hheld⟩ := h.none_of_ne
    rw [hs] at htoken
    constructor <;>
      simp [sentSet, OutboundState.started, htoken, h.dispatchStarted, hheld (by simp [hs]),
        h.hash]
  allowed _ := allowed_started (by rw [hs]; rfl) rfl rfl (by simp [sentSet, sameEnvelope])

theorem reconcilingSet_moved {windowHours : Nat} (hs : row.state = .dispatching) :
    Moved P row (reconcilingSet windowHours e row) where
  keys := ⟨rfl, rfl, rfl, rfl, rfl⟩
  keeps h := by
    have htoken := h.token
    obtain ⟨hsent, hheld⟩ := h.none_of_ne
    rw [hs] at htoken
    constructor <;>
      simp [reconcilingSet, OutboundState.started, htoken, h.dispatchStarted,
        hsent (by simp [hs]), hheld (by simp [hs]), h.hash]
  allowed _ := allowed_started (by rw [hs]; rfl) rfl rfl (by simp [reconcilingSet, sameEnvelope])

theorem reconciledSentSet_moved {messageId threadId : JsString} (hs : row.state = .reconciling) :
    Moved P row (reconciledSentSet messageId threadId e row) where
  keys := ⟨rfl, rfl, rfl, rfl, rfl⟩
  keeps h := by
    have htoken := h.token
    obtain ⟨-, hheld⟩ := h.none_of_ne
    rw [hs] at htoken
    constructor <;>
      simp [reconciledSentSet, OutboundState.started, htoken, h.dispatchStarted,
        hheld (by simp [hs]), h.hash]
  allowed _ := allowed_started (by rw [hs]; rfl) rfl rfl (by simp [reconciledSentSet, sameEnvelope])

theorem reconcileMissSet_moved : Moved P row (reconcileMissSet e row) where
  keys := ⟨rfl, rfl, rfl, rfl, rfl⟩
  keeps h := ⟨h.token, h.dispatchStarted, h.sentAt, h.heldAt, h.heldReason, h.hash⟩
  allowed _ := by simp [assertOutboundTransition, reconcileMissSet, sameEnvelope]

theorem unknownTerminalSet_moved (hs : row.state = .reconciling) :
    Moved P row (unknownTerminalSet e row) where
  keys := ⟨rfl, rfl, rfl, rfl, rfl⟩
  keeps h := by
    have htoken := h.token
    obtain ⟨hsent, hheld⟩ := h.none_of_ne
    rw [hs] at htoken
    constructor <;>
      simp [unknownTerminalSet, OutboundState.started, htoken, h.dispatchStarted,
        hsent (by simp [hs]), hheld (by simp [hs]), h.hash]
  allowed _ := allowed_started (by rw [hs]; rfl) rfl rfl (by simp [unknownTerminalSet, sameEnvelope])

theorem holdSet_moved {reason : JsString} (hs : row.state = .prepared) :
    Moved P row (holdSet reason e row) where
  keys := ⟨rfl, rfl, rfl, rfl, rfl⟩
  keeps h := by
    obtain ⟨ht, hd⟩ := h.no_token (by simp [hs, OutboundState.started])
    obtain ⟨hsent, -⟩ := h.none_of_ne
    constructor <;> simp [holdSet, OutboundState.started, ht, hd, hsent (by simp [hs]), h.hash]
  allowed h := allowed_unstarted h (by simp [hs, OutboundState.started])
    (.inr (by rw [hs]; rfl))

theorem releaseSet_moved (hs : row.state = .held) : Moved P row (releaseSet e row) where
  keys := ⟨rfl, rfl, rfl, rfl, rfl⟩
  keeps h := by
    obtain ⟨ht, hd⟩ := h.no_token (by simp [hs, OutboundState.started])
    obtain ⟨hsent, -⟩ := h.none_of_ne
    constructor <;> simp [releaseSet, OutboundState.started, ht, hd, hsent (by simp [hs]), h.hash]
  allowed h := allowed_unstarted h (by simp [hs, OutboundState.started])
    (.inr (by rw [hs]; rfl))

theorem rewriteSet_moved {input : RewriteInput} {subject : JsString}
    (hs : row.state.started = false) : Moved P row (rewriteSet P input subject e row) where
  keys := ⟨rfl, rfl, rfl, rfl, rfl⟩
  keeps h := ⟨h.token, h.dispatchStarted, h.sentAt, h.heldAt, h.heldReason, rfl⟩
  allowed h := allowed_unstarted h hs (.inl rfl)

theorem resolveSet_moved {resolution : AdminResolution} {adminUserId : Uuid} :
    Moved P row (resolveSet resolution adminUserId e row) where
  keys := ⟨rfl, rfl, rfl, rfl, rfl⟩
  keeps h := ⟨h.token, h.dispatchStarted, h.sentAt, h.heldAt, h.heldReason, h.hash⟩
  allowed _ := by simp [assertOutboundTransition, resolveSet, sameEnvelope]

/-- The hash is replaced exactly when subject and body are. -/
theorem preDispatchClaimSet_moved {input : PreDispatchSentInput} (hs : row.state = .prepared) :
    Moved P row (preDispatchClaimSet P input e row) where
  keys := ⟨rfl, rfl, rfl, rfl, rfl⟩
  keeps h := by
    obtain ⟨hsent, hheld⟩ := h.none_of_ne
    cases hv : input.verified P <;> constructor <;>
      simp [preDispatchClaimSet, hv, OutboundState.started, hsent (by simp [hs]),
        hheld (by simp [hs]), h.hash]
  allowed h := allowed_unstarted h (by simp [hs, OutboundState.started])
    (.inr (by rw [hs]; rfl))

theorem preDispatchSentSet_moved {input : PreDispatchSentInput} (hs : row.state = .dispatching) :
    Moved P row (preDispatchSentSet input e row) where
  keys := ⟨rfl, rfl, rfl, rfl, rfl⟩
  keeps h := by
    have htoken := h.token
    obtain ⟨-, hheld⟩ := h.none_of_ne
    rw [hs] at htoken
    constructor <;>
      simp [preDispatchSentSet, OutboundState.started, htoken, h.dispatchStarted,
        hheld (by simp [hs]), h.hash]
  allowed _ := allowed_started (by rw [hs]; rfl) rfl rfl
    (by simp [preDispatchSentSet, sameEnvelope])

/-! ### Inserted rows -/

theorem humanReplyFence_invariant {input : HumanReplyInput} {id domain : JsString}
    {now : Instant} : FenceInvariant P (humanReplyFence P input id domain now) := by
  constructor <;> simp [humanReplyFence, newFence, OutboundState.started]

theorem stepFence_invariant {request : OutboundEmailRequest} {mailbox : MailboxRow}
    {routeVersion : Option Nat} {id : Uuid} :
    FenceInvariant P (stepFence P request mailbox routeVersion id) := by
  constructor <;> simp [stepFence, newFence, OutboundState.started]

theorem tombstoneFence_invariant {input : SentTombstoneInput} {token : Uuid} :
    FenceInvariant P (tombstoneFence P input token) := by
  unfold tombstoneFence
  cases input.origin <;> constructor <;> simp [newFence, OutboundState.started]

end Updates

/-! ## One statement -/

/-- The ledger row a process owes, and the fence it may still call Gmail for. -/
structure Mode where
  owed : Option (Uuid × Option OutboundState × OutboundState)
  permit : Option Uuid

def Mode.rest : Mode := ⟨none, none⟩

/-- What a statement of process `p` does to its mode and the store. -/
inductive Move (P : Platform) (p : ProcessId) : Mode × Store → Mode × Store → Prop
  | still (m : Mode) (s : Store) : Move P p (m, s) (m, s)
  | insert {m : Mode} {s : Store} {row : Fence} {messages : FenceTable}
      (hm : m.owed = none) (hrow : FenceInvariant P row)
      (hunique : ∀ other ∈ s.messages, sharesUniqueKey row other = false)
      (hinsert : s.messages.insert? row = some messages) :
      Move P p (m, s) ({ m with owed := some (row.id, none, row.state) },
        { s with
          messages := messages
          history := .moved p row.id none row.state :: s.history })
  /-- a transition; from `prepared` to `dispatching` it may give the permit -/
  | move {m : Mode} {s : Store} {old new : Fence} {permit : Option Uuid}
      (hm : m.owed = none) (hold : s.messages.find? old.id = some old) (hmoved : Moved P old new)
      (hpermit : permit = m.permit ∨
        (permit = some old.id ∧ old.state = .prepared ∧ new.state = .dispatching)) :
      Move P p (m, s) (⟨some (old.id, some old.state, new.state), permit⟩,
        { s with
          messages := s.messages.put new
          history := .moved p old.id (some old.state) new.state :: s.history })
  /-- an update that is no transition -/
  | touch {m : Mode} {s : Store} {old new : Fence} (hold : s.messages.find? old.id = some old)
      (hmoved : Moved P old new) (hstate : new.state = old.state) :
      Move P p (m, s) (m, { s with messages := s.messages.put new })
  | log {m : Mode} {s : Store} {input : AppendEvent}
      (hm : m.owed = some (input.outboundMessageId, input.fromState, input.toState)) :
      Move P p (m, s) ({ m with owed := none },
        { s.withEvent input with history := .logged p input.outboundMessageId :: s.history })
  | call {m : Mode} {s : Store} {id : Uuid} (hm : m.permit = some id) :
      Move P p (m, s) ({ m with permit := none },
        { s with history := .called p id :: s.history })

/-- What commits at once: one statement, or a transaction of a process that owes nothing. -/
inductive Committed (P : Platform) (p : ProcessId) : Mode × Store → Mode × Store → Prop
  | statement {a b : Mode × Store} (h : Move P p a b) : Committed P p a b
  | transaction {a b : Mode × Store} (hm : a.1.owed = none) (h : ReflTransGen (Move P p) a b) :
      Committed P p a b

/-! ## The operations -/

section Operations

variable {P : Platform} {p : ProcessId} {m : Mode} {context : RepositoryContext}
  {actor : Option JsString} {id : Uuid}

/-- The operation leaves the mode it started in. -/
abbrev Settles {α : Type} (P : Platform) (p : ProcessId) (prog : FenceProg α) (m : Mode) : Prop :=
  prog.Obeys (Move P) p (fun m' _ => m' = m) m

theorem settles_pure {α : Type} (a : α) : Settles P p (pure a) m := rfl

/-- A read in front of an operation. -/
theorem obeys_read {α β : Type} {Q : Mode → β → Prop} {read : Env → Store → α}
    {f : α → FenceProg β} (h : ∀ a, (f a).Obeys (Move P) p Q m) :
    (Prog.ask read >>= f).Obeys (Move P) p Q m :=
  Prog.obeys_ask_bind (fun s => .still m s) h

theorem obeys_after {α β : Type} {Q : Mode → β → Prop} {prog : FenceProg α}
    {f : α → FenceProg β} (hprog : Settles P p prog m) (h : ∀ a, (f a).Obeys (Move P) p Q m) :
    (prog >>= f).Obeys (Move P) p Q m :=
  Prog.obeys_bind hprog fun _ a hm => hm ▸ h a

/-- What a transition leaves: the row it owes the ledger. -/
def Owes (m : Mode) (permit : Option Uuid) (id : Uuid) (guard : Env → Fence → Bool)
    (set : Env → Fence → Fence) : Mode → Option Fence → Prop
  | m', none => m' = m
  | m', some new => ∃ e old, old.id = id ∧ guard e old = true ∧ new = set e old ∧
      m' = ⟨some (id, some old.state, new.state), permit⟩

/-- The one UPDATE statement: it touches no row, or the row it found. -/
theorem updateFence_obeys {Q : Mode → Option Fence → Prop} {guard : Env → Fence → Bool}
    {set : Env → Fence → Fence} {note : ProcessId → Fence → Fence → List Note}
    (hnone : Q m none)
    (hsome : ∀ e s row, row.id = id → s.messages.find? row.id = some row → guard e row = true →
      ∃ m', Move P p (m, s) (m', { s with
        messages := s.messages.put (set e row)
        history := note p row (set e row) ++ s.history }) ∧ Q m' (some (set e row))) :
    (updateFence id guard set note).Obeys (Move P) p Q m := by
  refine Prog.obeys_single fun e s r s' hact => ?_
  cases hfind : s.messages.find? id with
  | none =>
    simp only [hfind, Option.some.injEq, Prod.mk.injEq] at hact
    obtain ⟨rfl, rfl⟩ := hact
    exact ⟨m, .still m _, hnone⟩
  | some row =>
    have hid := Table.find?_key hfind
    simp only [hfind] at hact
    split at hact
    · next hguard =>
      split at hact
      · simp only [Option.some.injEq, Prod.mk.injEq] at hact
        obtain ⟨rfl, rfl⟩ := hact
        exact hsome e s row hid (hid ▸ hfind) hguard
      · cases hact
    · simp only [Option.some.injEq, Prod.mk.injEq] at hact
      obtain ⟨rfl, rfl⟩ := hact
      exact ⟨m, .still m _, hnone⟩

theorem transition_obeys (permit : Option Uuid) (hm : m.owed = none)
    {guard : Env → Fence → Bool} {set : Env → Fence → Fence}
    (hset : ∀ e row, guard e row = true → Moved P row (set e row))
    (hpermit : ∀ e row, row.id = id → guard e row = true → permit = m.permit ∨
      (permit = some row.id ∧ row.state = .prepared ∧ (set e row).state = .dispatching)) :
    (transition id guard set).Obeys (Move P) p (Owes m permit id guard set) m := by
  refine updateFence_obeys rfl fun e s row hid hfind hguard => ?_
  subst hid
  exact ⟨_, .move hm hfind (hset e row hguard) (hpermit e row rfl hguard),
    e, row, rfl, hguard, rfl, rfl⟩

/-- The ledger row that was owed. -/
theorem appendEvent_obeys {input : AppendEvent}
    (hm : m.owed = some (input.outboundMessageId, input.fromState, input.toState)) :
    (appendEvent input).Obeys (Move P) p (fun m' _ => m' = { m with owed := none }) m :=
  Prog.obeys_effect fun _ _ => ⟨_, .log hm, rfl⟩

/-- The ledger row, then the answer. -/
theorem record_obeys {α : Type} {Q : Mode → α → Prop} {input : AppendEvent} {a : α}
    (hm : m.owed = some (input.outboundMessageId, input.fromState, input.toState))
    (hQ : Q { m with owed := none } a) :
    (appendEvent input >>= fun _ => pure a : FenceProg α).Obeys (Move P) p Q m :=
  Prog.obeys_bind (appendEvent_obeys hm) fun _ _ hm' => hm' ▸ hQ

theorem Mode.settled (hm : m.owed = none) : (⟨none, m.permit⟩ : Mode) = m := by
  cases m
  cases hm
  rfl

/-- A transition, and what the operation does on either answer. -/
theorem transition_settles {α : Type} {guard : Env → Fence → Bool} {set : Env → Fence → Fence}
    {f : Option Fence → FenceProg α} (hm : m.owed = none)
    (hset : ∀ e row, guard e row = true → Moved P row (set e row))
    (hnone : Settles P p (f none) m)
    (hsome : ∀ e old, old.id = id → guard e old = true →
      (f (some (set e old))).Obeys (Move P) p (fun m' _ => m' = m)
        ⟨some (old.id, some old.state, (set e old).state), m.permit⟩) :
    Settles P p (transition id guard set >>= f) m := by
  refine Prog.obeys_bind (transition_obeys m.permit hm hset fun _ _ _ _ => .inl rfl) fun m' r hr => ?_
  cases r with
  | none =>
    rw [show m' = m from hr]
    exact hnone
  | some new =>
    obtain ⟨e, old, rfl, hguard, rfl, rfl⟩ := hr
    exact hsome e old rfl hguard

theorem holdFence_settles {reason : JsString} (hm : m.owed = none) :
    Settles P p (holdFence context id reason actor) m := by
  refine transition_settles hm (fun e row h => holdSet_moved (by simpa using h))
    (settles_pure _) fun e old hid hguard => ?_
  have hstate : old.state = .prepared := by simpa using hguard
  exact obeys_read fun _ => record_obeys (by simp [hid, hstate, holdSet]) (Mode.settled hm)

theorem releaseFence_settles (hm : m.owed = none) :
    Settles P p (releaseFence context id actor) m := by
  refine transition_settles hm (fun e row h => releaseSet_moved (by simpa using h))
    (settles_pure _) fun e old hid hguard => ?_
  have hstate : old.state = .held := by simpa using hguard
  exact record_obeys (by simp [hid, hstate, releaseSet]) (Mode.settled hm)

theorem recordSent_settles {token : Uuid} {messageId threadId : JsString} (hm : m.owed = none) :
    Settles P p (recordSent context id token messageId threadId actor) m := by
  refine transition_settles hm (fun e row h => sentSet_moved (by simp at h; exact h.2))
    (settles_pure _) fun e old hid hguard => ?_
  have hstate : old.state = .dispatching := by
    simp at hguard
    exact hguard.2
  exact obeys_read fun _ => record_obeys (by simp [hid, hstate, sentSet]) (Mode.settled hm)

theorem beginReconciling_settles {detail : JsString} {windowHours : Nat} (hm : m.owed = none) :
    Settles P p (beginReconciling context id detail windowHours actor) m := by
  refine transition_settles hm (fun e row h => reconcilingSet_moved (by simpa using h))
    (settles_pure _) fun e old hid hguard => ?_
  have hstate : old.state = .dispatching := by simpa using hguard
  exact record_obeys (by simp [hid, hstate, reconcilingSet]) (Mode.settled hm)

theorem recordReconciledSent_settles {messageId threadId : JsString} (hm : m.owed = none) :
    Settles P p (recordReconciledSent context id messageId threadId actor) m := by
  refine transition_settles hm (fun e row h => reconciledSentSet_moved (by simpa using h))
    (settles_pure _) fun e old hid hguard => ?_
  have hstate : old.state = .reconciling := by simpa using hguard
  exact obeys_read fun _ =>
    record_obeys (by simp [hid, hstate, reconciledSentSet]) (Mode.settled hm)

theorem markUnknownTerminal_settles (hm : m.owed = none) :
    Settles P p (markUnknownTerminal context id actor) m := by
  refine transition_settles hm (fun e row h => unknownTerminalSet_moved (by simp at h; exact h.1))
    (settles_pure _) fun e old hid hguard => ?_
  have hstate : old.state = .reconciling := by
    simp at hguard
    exact hguard.1
  exact record_obeys (by simp [hid, hstate, unknownTerminalSet]) (Mode.settled hm)

theorem resolveUnknownTerminal_settles {resolution : AdminResolution} {adminUserId : Uuid}
    (hm : m.owed = none) :
    Settles P p (resolveUnknownTerminal id resolution adminUserId) m := by
  refine transition_settles hm (fun e row _ => resolveSet_moved) (settles_pure _)
    fun e old hid hguard => ?_
  have hstate : old.state = .unknownTerminal := by
    simp at hguard
    exact hguard.1
  exact record_obeys (by simp [hid, hstate, resolveSet]) (Mode.settled hm)

theorem rewritePreparedBody_settles {input : RewriteInput} (hm : m.owed = none) :
    Settles P p (rewritePreparedBody P context input) m := by
  unfold rewritePreparedBody
  split
  · exact settles_pure _
  split
  · exact settles_pure _
  refine obeys_read fun current => ?_
  cases current with
  | none => exact settles_pure _
  | some current =>
    dsimp only
    split
    · exact settles_pure _
    have hstarted : ∀ row : Fence, (row.attemptToken.isNone &&
        (row.state == .prepared || row.state == .held)) = true → row.state.started = false := by
      intro row h
      simp only [Bool.and_eq_true, Bool.or_eq_true, beq_iff_eq] at h
      rcases h.2 with h | h <;> simp [h, OutboundState.started]
    refine transition_settles hm (fun e row h => rewriteSet_moved (hstarted row h))
      (settles_pure _) fun e old hid hguard => ?_
    exact record_obeys (by simp [rewriteSet]) (Mode.settled hm)

theorem recordReconcileMiss_settles : Settles P p (recordReconcileMiss id) m := by
  refine obeys_after (updateFence_obeys rfl fun e s row _ hfind _ => ?_) fun r => ?_
  · exact ⟨m, .touch hfind reconcileMissSet_moved rfl, rfl⟩
  · cases r <;> exact settles_pure _

/-! ### Inserts -/

theorem insertFence_obeys {conflict : OnConflict} {values : Env → Fence} (hm : m.owed = none)
    (hvalues : ∀ e, FenceInvariant P (values e)) :
    (insertFence P conflict values).Obeys (Move P) p (fun m' r => match r with
      | none => m' = m
      | some row => (∃ e, row = values e) ∧
        m' = { m with owed := some (row.id, none, row.state) }) m := by
  refine Prog.obeys_single fun e s r s' hact => ?_
  simp only at hact
  split at hact
  case isFalse => cases hact
  split at hact
  · simp only [Option.some.injEq, Prod.mk.injEq] at hact
    obtain ⟨rfl, rfl⟩ := hact
    exact ⟨m, .still m _, rfl⟩
  split at hact
  · split at hact
    · simp only [Option.some.injEq, Prod.mk.injEq] at hact
      obtain ⟨rfl, rfl⟩ := hact
      exact ⟨m, .still m _, rfl⟩
    · cases hact
  next hfree =>
    have hunique : ∀ other ∈ s.messages, sharesUniqueKey (values e) other = false := by
      intro other hother
      by_contra hshared
      exact hfree (List.any_eq_true.2 ⟨other, hother, by simpa using hshared⟩)
    cases hinsert : s.messages.insert? (values e) with
    | none =>
      simp only [hinsert] at hact
      split at hact
      · simp only [Option.some.injEq, Prod.mk.injEq] at hact
        obtain ⟨rfl, rfl⟩ := hact
        exact ⟨m, .still m _, rfl⟩
      · cases hact
    | some messages =>
      simp only [hinsert, Option.some.injEq, Prod.mk.injEq] at hact
      obtain ⟨rfl, rfl⟩ := hact
      exact ⟨_, .insert hm (hvalues e) hunique hinsert, ⟨e, rfl⟩, rfl⟩

/-- An insert, and what the operation does on either answer. -/
theorem insertFence_settles {α : Type} {conflict : OnConflict} {values : Env → Fence}
    {f : Option Fence → FenceProg α} (hm : m.owed = none)
    (hvalues : ∀ e, FenceInvariant P (values e)) (hnone : Settles P p (f none) m)
    (hsome : ∀ e, (f (some (values e))).Obeys (Move P) p (fun m' _ => m' = m)
      { m with owed := some ((values e).id, none, (values e).state) }) :
    Settles P p (insertFence P conflict values >>= f) m := by
  refine Prog.obeys_bind (insertFence_obeys hm hvalues) fun m' r hr => ?_
  cases r with
  | none =>
    rw [show m' = m from hr]
    exact hnone
  | some row =>
    obtain ⟨⟨e, rfl⟩, rfl⟩ := hr
    exact hsome e

theorem prepareHumanReplyFence_settles {input : HumanReplyInput} (hm : m.owed = none) :
    Settles P p (prepareHumanReplyFence P context input) m := by
  refine obeys_read fun existing => ?_
  cases existing with
  | some existing => exact settles_pure _
  | none =>
    dsimp only
    split
    · exact settles_pure _
    split
    · exact settles_pure _
    refine obeys_read fun id => obeys_read fun domain => ?_
    cases domain with
    | none => exact settles_pure _
    | some domain =>
      dsimp only
      split
      · exact settles_pure _
      refine insertFence_settles hm (fun e => humanReplyFence_invariant) (settles_pure _)
        fun e => ?_
      exact record_obeys (by simp [humanReplyFence, newFence]) (Mode.settled hm)

theorem prepareOutboundMessage_settles {request : OutboundEmailRequest} (hm : m.owed = none) :
    Settles P p (prepareOutboundMessage P context request) m := by
  refine obeys_read fun existing => ?_
  cases existing with
  | some existing => exact settles_pure _
  | none =>
    dsimp only
    split
    · exact settles_pure _
    split
    · exact settles_pure _
    refine obeys_read fun template => ?_
    cases template with
    | none => exact settles_pure _
    | some template =>
      dsimp only
      split
      · exact settles_pure _
      split
      · exact settles_pure _
      refine obeys_read fun mailbox => ?_
      cases mailbox with
      | none => exact settles_pure _
      | some mailbox =>
        dsimp only
        split
        · exact settles_pure _
        refine obeys_read fun routeVersion => obeys_read fun id => obeys_read fun refusal => ?_
        cases refusal with
        | some reason => exact settles_pure _
        | none =>
          refine insertFence_settles hm (fun _ => stepFence_invariant) ?_ fun e => ?_
          · refine obeys_read fun raced => ?_
            cases raced <;> exact settles_pure _
          · exact obeys_read fun _ =>
              record_obeys (by simp [stepFence, newFence]) (Mode.settled hm)

theorem insertSentTombstone_settles {input : SentTombstoneInput} (hm : m.owed = none) :
    Settles P p (insertSentTombstone P context input) m := by
  refine insertFence_settles hm (fun e => tombstoneFence_invariant) (settles_pure _) fun e => ?_
  exact record_obeys (by simp [tombstoneFence_state]) (Mode.settled hm)

/-! ### The claim -/

/-- A claim that answers `ok` leaves the permit for the fence it claimed. -/
def ClaimAnswered (m : Mode) (m' : Mode) : SendResult DispatchClaim → Prop
  | .ok claim => m' = { m with permit := some claim.fence.id }
  | .refused _ _ => m' = m

theorem claimForDispatch_obeys {businessDate : Option BusinessDate} {detail : Detail}
    (hm : m.owed = none) :
    (claimForDispatch context id actor businessDate detail).Obeys (Move P) p
      (ClaimAnswered m) m := by
  refine Prog.obeys_bind (transition_obeys (some id) hm
    (fun e row h => claimSet_moved (by simpa using h)) fun e row hid hguard => ?_)
    fun m' r hr => ?_
  · exact .inr ⟨by rw [hid], by simpa using hguard, rfl⟩
  · cases r with
    | none =>
      rw [show m' = m from hr]
      refine obeys_read fun current => ?_
      cases current <;> exact rfl
    | some new =>
      obtain ⟨e, old, rfl, hguard, rfl, rfl⟩ := hr
      have hstate : old.state = .prepared := by simpa using hguard
      refine obeys_read fun _ => record_obeys (by simp [claimSet, hstate]) ?_
      simp [ClaimAnswered, claimSet, hm]

end Operations

end FoundingSales.Outbound
