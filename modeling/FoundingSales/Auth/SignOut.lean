import FoundingSales.Auth.Sessions

/-!
Signing out is final.

A device once revoked stays revoked, and only a transaction that holds an active device row
issues a session. What an opening read under its lock is still true when it commits, because
every other statement that could change it supersedes the row's version.

Proved here:

* `authCode_obeys`: every statement is a move;
* `SignedOut.move`: every move keeps the invariant;
* `sign_out_is_final`: the invariant for every interleaving.
-/

namespace FoundingSales.Auth

open Tables Processes Outbound

/-! ## Moves -/

/-- What an opening read under its lock. -/
structure Lock where
  version : Nat
  boundary : Option Instant
  active : Option (List JsString)

abbrev Mode := Option Lock

def Note.succeeds : Note → Bool
  | .authenticated _ | .opened _ => true
  | .revoked | .sessionsEnded => false

/-- The session issued by a claim or an opening. -/
structure Issued (boundary : Instant) (session : Session) (before after : SessionTable) : Prop where
  active : session.status = .active
  boundary : session.reauthenticateAfter = boundary
  checks : session.checks = true
  mem : ∀ other, other ∈ after ↔ other = session ∨ other ∈ before
  rows : after.rows = before.rows ++ [session]

inductive Move (p : ProcessId) : Mode × Store → Mode × Store → Prop
  | still {m : Mode} {s : Store} : Move p (m, s) (m, s)
  | claim {m : Mode} {s : Store} {device : Device} {session : Session} {sessions : SessionTable}
      {boundary : Instant} (hnone : s.device = none)
      (h : Issued boundary session s.sessions sessions) :
      Move p (m, s) (m, { s with
        device := some device, sessions := sessions, claimed := some boundary })
  | lock {m : Mode} {s : Store} {device : Device} (h : s.device = some device)
      (hactive : device.status = .active) : Move p (m, s) (some ⟨device.version, none, none⟩, s)
  | boundary {s : Store} {lock : Lock} {session : Session} (h : session ∈ s.sessions) :
      Move p (some lock, s)
        (some { lock with boundary := some session.reauthenticateAfter }, s)
  | collect {s : Store} {lock : Lock} {active : List JsString}
      (h : ∀ session ∈ s.sessions, session.status = .active → session.accessTokenHash ∈ active) :
      Move p (some lock, s) (some { lock with active := some active }, s)
  | answer {m : Mode} {s : Store} {device : Device} {note : Note} (h : s.device = some device)
      (hactive : device.status = .active) (hnote : ∃ hash, note = .authenticated hash) :
      Move p (m, s) (m, { s with notes := note :: s.notes })
  | revoke {m : Mode} {s : Store} (now : Instant) : Move p (m, s) (m, revokeRow now s)
  | endSessions {m : Mode} {s : Store} (now : Instant) (reason : EndReason) :
      Move p (m, s) (m, endSessions now reason s)
  | revokeBoth {m : Mode} {s : Store} (now : Instant) (reason : EndReason) :
      Move p (m, s) (m, Auth.endSessions now reason (revokeRow now s))
  | renew {m : Mode} {s s' : Store} {lock : Lock} {device : Device} {boundary now : Instant}
      {active : List JsString} {session : Session} {hash clientVersion : JsString}
      {lastSeenAt : Instant} {sessions : SessionTable}
      (hm : m = some lock) (hlock : lock = ⟨device.version, some boundary, some active⟩)
      (h : s.device = some device)
      (hissued : Issued boundary session
        (s.sessions.update (fun session => session.accessTokenHash ∈ active)
          (Session.endNow now .renewed) fun _ => rfl) sessions)
      (hs' : s' = { s with
        device := some { device with
          lastSeenAt := lastSeenAt
          clientVersion := clientVersion
          version := device.version + 1 }
        sessions := sessions
        notes := .opened hash :: s.notes }) :
      Move p (m, s) (m, s')

/-- A session is issued within its boundary and joins the others. -/
theorem issueSession_spec {deps : AuthDeps} {e : Env} {input : IssueSessionInput}
    {sessions sessions' : SessionTable} {opened : OpenedSession}
    (h : issueSession deps e input sessions = some (opened, sessions')) :
    ∃ session, Issued input.reauthenticateAfter session sessions sessions' := by
  simp only [issueSession, Option.ite_none_right_eq_some] at h
  obtain ⟨hchecks, h⟩ := h
  obtain ⟨table, hinsert, heq⟩ := Option.map_eq_some_iff.1 h
  obtain ⟨-, rfl⟩ := Prod.mk.inj heq
  refine ⟨_, rfl, rfl, hchecks, ?_, (Table.insert?_eq_some hinsert).2⟩
  intro other
  rw [Table.mem_insert? hinsert, or_comm]

/-! ## The invariant -/

/-- What is still true of a lock's reading while the row keeps its version. -/
structure Lock.Holds (lock : Lock) (device : Device) (s : Store) : Prop where
  active : device.status = .active
  boundary : ∀ boundary, lock.boundary = some boundary → s.claimed = some boundary
  collected : ∀ hashes, lock.active = some hashes → ∀ session ∈ s.sessions,
    session.status = .active → session.accessTokenHash ∈ hashes

/-- After a revocation has committed nothing succeeds, and after the sessions have been
ended since then none is active. -/
structure Final (sessions : SessionTable) (notes : List Note) : Prop where
  refused : ∀ newer older, notes = newer ++ .revoked :: older →
    ∀ note ∈ newer, note.succeeds = false
  ended : ∀ newer older, notes = newer ++ .sessionsEnded :: older → .revoked ∈ older →
    ∀ session ∈ sessions, session.status = .ended

structure SignedOut (modes : ProcessId → Mode) (s : Store) : Prop where
  unclaimed : s.device = none → s.sessions.rows = []
  single : (s.sessions.rows.filter fun session => session.status = .active).length ≤ 1
  bounded : ∀ session ∈ s.sessions, s.claimed = some session.reauthenticateAfter ∧
    session.expiresAt ≤ session.reauthenticateAfter
  locks : ∀ p lock, modes p = some lock → ∃ device, s.device = some device ∧
    lock.version ≤ device.version ∧ (lock.version = device.version → lock.Holds device s)
  revoked : .revoked ∈ s.notes → ∃ device, s.device = some device ∧ device.status = .revoked
  final : Final s.sessions s.notes

/-! ## The notes -/

section Notes

variable {sessions sessions' : SessionTable} {notes : List Note} {note : Note}

/-- Before any revocation the notes promise nothing. -/
theorem Final.of_not_revoked (h : .revoked ∉ notes) : Final sessions notes := by
  constructor
  · intro newer older heq
    exact absurd (heq ▸ List.mem_append_right _ List.mem_cons_self) h
  · intro newer older heq hrevoked
    refine absurd (heq ▸ List.mem_append_right _ ?_) h
    exact List.mem_cons_of_mem _ hrevoked

theorem Final.revoked (h : Final sessions notes) : Final sessions (.revoked :: notes) := by
  constructor
  · intro newer older heq
    rcases List.cons_eq_append_iff.1 heq with ⟨rfl, -⟩ | ⟨rest, rfl, hrest⟩
    · exact nofun
    · intro note hnote
      rcases List.mem_cons.1 hnote with rfl | hnote
      · rfl
      · exact h.refused rest older hrest note hnote
  · intro newer older heq
    rcases List.cons_eq_append_iff.1 heq with ⟨rfl, hcons⟩ | ⟨rest, rfl, hrest⟩
    · cases hcons
    · exact h.ended rest older hrest

theorem Final.sessionsEnded (h : Final sessions notes)
    (hended : ∀ session ∈ sessions', session.status = .ended) :
    Final sessions' (.sessionsEnded :: notes) := by
  refine ⟨?_, fun _ _ _ _ => hended⟩
  intro newer older heq
  rcases List.cons_eq_append_iff.1 heq with ⟨rfl, hcons⟩ | ⟨rest, rfl, hrest⟩
  · cases hcons
  · intro note hnote
    rcases List.mem_cons.1 hnote with rfl | hnote
    · rfl
    · exact h.refused rest older hrest note hnote

end Notes

/-! ## What each move keeps -/

section Step

variable {modes : ProcessId → Mode} {s : Store} {p : ProcessId}

/-- With an active device nothing has been revoked. -/
theorem SignedOut.not_revoked (h : SignedOut modes s) {device : Device}
    (hdevice : s.device = some device) (hactive : device.status = .active) :
    .revoked ∉ s.notes := by
  intro hmem
  obtain ⟨other, hother, hrevoked⟩ := h.revoked hmem
  obtain rfl := Option.some.inj (hdevice.symm.trans hother)
  rw [hactive] at hrevoked
  cases hrevoked

/-- A process takes note of what it read. -/
theorem SignedOut.turn (h : SignedOut modes s) {m : Mode}
    (hm : ∀ lock, m = some lock → ∃ device, s.device = some device ∧
      lock.version ≤ device.version ∧ (lock.version = device.version → lock.Holds device s)) :
    SignedOut (Function.update modes p m) s := by
  refine ⟨h.unclaimed, h.single, h.bounded, ?_, h.revoked, h.final⟩
  intro q lock hlock
  by_cases hq : q = p
  · subst hq
    rw [Function.update_self] at hlock
    exact hm lock hlock
  · rw [Function.update_of_ne hq] at hlock
    exact h.locks q lock hlock

/-- Ending sessions leaves no other session active. -/
private theorem active_of_update {sessions : SessionTable} {guard : Session → Bool} {now : Instant}
    {reason : EndReason} {session : Session}
    (hmem : session ∈ sessions.update guard (Session.endNow now reason) fun _ => rfl)
    (hactive : session.status = .active) : session ∈ sessions ∧ guard session = false := by
  obtain ⟨old, hold, rfl⟩ := Table.mem_update.1 hmem
  cases hguard : guard old with
  | false => simpa [hguard] using hold
  | true => simp [hguard, Session.endNow] at hactive

private theorem bounded_of_update {sessions : SessionTable} {guard : Session → Bool}
    {now : Instant} {reason : EndReason} {claimed : Option Instant}
    (h : ∀ session ∈ sessions, claimed = some session.reauthenticateAfter ∧
      session.expiresAt ≤ session.reauthenticateAfter) :
    ∀ session ∈ sessions.update guard (Session.endNow now reason) fun _ => rfl,
      claimed = some session.reauthenticateAfter ∧
        session.expiresAt ≤ session.reauthenticateAfter := by
  intro session hmem
  obtain ⟨old, hold, rfl⟩ := Table.mem_update.1 hmem
  cases hguard : guard old with
  | false => simpa [hguard] using h old hold
  | true => simpa [hguard, Session.endNow] using h old hold

theorem SignedOut.revokeRow (h : SignedOut modes s) (now : Instant) :
    SignedOut modes (revokeRow now s) := by
  unfold Auth.revokeRow
  cases hdevice : s.device with
  | none => exact h
  | some device =>
    refine ⟨nofun, h.single, h.bounded, ?_, fun _ => ⟨_, rfl, rfl⟩, h.final.revoked⟩
    intro q lock hlock
    obtain ⟨old, hold, hversion, -⟩ := h.locks q lock hlock
    obtain rfl := Option.some.inj (hdevice.symm.trans hold)
    refine ⟨_, rfl, Nat.le_succ_of_le hversion, ?_⟩
    intro heq
    change lock.version = device.version + 1 at heq
    omega

theorem SignedOut.endSessions (h : SignedOut modes s) (now : Instant) (reason : EndReason) :
    SignedOut modes (endSessions now reason s) := by
  have hnone : ∀ session ∈ (Auth.endSessions now reason s).sessions,
      session.status = .ended := by
    intro session hmem
    cases hstatus : session.status with
    | ended => rfl
    | active => simpa [hstatus] using (active_of_update hmem hstatus).2
  refine ⟨?_, ?_, bounded_of_update h.bounded, ?_, ?_, h.final.sessionsEnded hnone⟩
  · intro hdevice
    simp [Auth.endSessions, Table.update, h.unclaimed hdevice]
  · have hnil : (Auth.endSessions now reason s).sessions.rows.filter
        (fun session => session.status = .active) = [] := by
      rw [List.filter_eq_nil_iff]
      intro session hmem
      simp [hnone session hmem]
    rw [hnil]
    exact Nat.zero_le 1
  · intro q lock hlock
    obtain ⟨device, hdevice, hversion, hholds⟩ := h.locks q lock hlock
    refine ⟨device, hdevice, hversion, fun heq => ?_⟩
    obtain ⟨hactive, hboundary, hcollected⟩ := hholds heq
    refine ⟨hactive, hboundary, ?_⟩
    intro hashes hhashes session hmem hstatus
    exact hcollected hashes hhashes session (active_of_update hmem hstatus).1 hstatus
  · intro hmem
    rcases List.mem_cons.1 hmem with hnote | hmem
    · cases hnote
    · exact h.revoked hmem

/-- The session issued is active, carries the boundary, and is the only one when none of the
others is active. -/
theorem Issued.alone {boundary : Instant} {session : Session} {before after : SessionTable}
    (h : Issued boundary session before after)
    (hnone : ∀ other ∈ before, other.status ≠ .active) :
    (after.rows.filter fun session => session.status = .active).length ≤ 1 := by
  rw [h.rows, List.filter_append]
  have hnil : before.rows.filter (fun session => session.status = .active) = [] := by
    rw [List.filter_eq_nil_iff]
    intro other hother
    simpa using hnone other hother
  rw [hnil, List.nil_append]
  exact List.length_filter_le _ _

theorem Issued.bounded {boundary : Instant} {session : Session} {before after : SessionTable}
    (h : Issued boundary session before after)
    (hbefore : ∀ other ∈ before, some boundary = some other.reauthenticateAfter ∧
      other.expiresAt ≤ other.reauthenticateAfter) :
    ∀ other ∈ after, some boundary = some other.reauthenticateAfter ∧
      other.expiresAt ≤ other.reauthenticateAfter := by
  intro other hother
  rcases (h.mem other).1 hother with rfl | hother
  · have hchecks := h.checks
    simp only [Session.checks, Bool.and_eq_true, decide_eq_true_eq] at hchecks
    exact ⟨by rw [h.boundary], hchecks.2⟩
  · exact hbefore other hother

/-- Every statement keeps the invariant. -/
theorem SignedOut.move {m' : Mode} {s' : Store} (h : SignedOut modes s)
    (hmove : Move p (modes p, s) (m', s')) : SignedOut (Function.update modes p m') s' := by
  have hlock := h.locks p
  generalize hm : modes p = m at hmove hlock
  cases hmove with
  | still =>
    rw [← hm, Function.update_eq_self]
    exact h
  | claim hnone hissued =>
    rw [← hm, Function.update_eq_self]
    have hempty : ∀ other, other ∉ s.sessions := by
      intro other hother
      rw [← Table.mem_rows, h.unclaimed hnone] at hother
      cases hother
    have hrevoked : .revoked ∉ s.notes := by
      intro hmem
      obtain ⟨device, hdevice, -⟩ := h.revoked hmem
      rw [hnone] at hdevice
      cases hdevice
    refine ⟨nofun, hissued.alone fun other hother => absurd hother (hempty other), ?_, ?_,
      fun hmem => absurd hmem hrevoked, .of_not_revoked hrevoked⟩
    · exact hissued.bounded fun other hother => absurd hother (hempty other)
    · intro q lock hq
      obtain ⟨device, hdevice, -⟩ := h.locks q lock hq
      rw [hnone] at hdevice
      cases hdevice
  | lock hdevice hactive =>
    apply h.turn
    intro lock heq
    obtain rfl := Option.some.inj heq
    exact ⟨_, hdevice, le_rfl, fun _ => ⟨hactive, nofun, nofun⟩⟩
  | @boundary _ lock session hmem =>
    apply h.turn
    intro lock' heq
    obtain rfl := Option.some.inj heq
    obtain ⟨device, hdevice, hversion, hholds⟩ := hlock lock rfl
    refine ⟨device, hdevice, hversion, fun hsame => ⟨(hholds hsame).active, ?_,
      (hholds hsame).collected⟩⟩
    intro boundary hboundary
    rw [← hboundary]
    exact (h.bounded session hmem).1
  | @collect _ lock hashes hcollect =>
    apply h.turn
    intro lock' heq
    obtain rfl := Option.some.inj heq
    obtain ⟨device, hdevice, hversion, hholds⟩ := hlock lock rfl
    refine ⟨device, hdevice, hversion, fun hsame => ⟨(hholds hsame).active,
      (hholds hsame).boundary, ?_⟩⟩
    intro found hfound
    obtain rfl := Option.some.inj hfound
    exact hcollect
  | answer hdevice hactive hnote =>
    rw [← hm, Function.update_eq_self]
    obtain ⟨hash, rfl⟩ := hnote
    have hrevoked : .revoked ∉ Note.authenticated hash :: s.notes := by
      simpa using h.not_revoked hdevice hactive
    exact ⟨h.unclaimed, h.single, h.bounded, fun q lock hq => by
      obtain ⟨device, hdevice, hversion, hholds⟩ := h.locks q lock hq
      exact ⟨device, hdevice, hversion, fun hsame => ⟨(hholds hsame).active,
        (hholds hsame).boundary, (hholds hsame).collected⟩⟩,
      fun hmem => absurd hmem hrevoked, .of_not_revoked hrevoked⟩
  | revoke now =>
    rw [← hm, Function.update_eq_self]
    exact h.revokeRow now
  | endSessions now reason =>
    rw [← hm, Function.update_eq_self]
    exact h.endSessions now reason
  | revokeBoth now reason =>
    rw [← hm, Function.update_eq_self]
    exact (h.revokeRow now).endSessions now reason
  | @renew _ _ _ lock device boundary now active session hash clientVersion lastSeenAt sessions
      hheld hread hdevice hissued hs' =>
    rw [← hm, Function.update_eq_self]
    subst hs' hread
    obtain ⟨device', hdevice', -, hholds⟩ := hlock _ hheld
    obtain rfl := Option.some.inj (hdevice.symm.trans hdevice')
    obtain ⟨hactive, hboundary, hcollected⟩ := hholds rfl
    have hclaimed : s.claimed = some boundary := hboundary boundary rfl
    have hrevoked : .revoked ∉ Note.opened hash :: s.notes := by
      simpa using h.not_revoked hdevice hactive
    refine ⟨nofun, ?_, ?_, ?_, fun hmem => absurd hmem hrevoked, .of_not_revoked hrevoked⟩
    · -- Every active session was collected under the lock, so each of them has ended.
      apply hissued.alone
      intro other hother hstatus
      obtain ⟨hold, hguard⟩ := active_of_update hother hstatus
      have := hcollected active rfl other hold hstatus
      simp [this] at hguard
    · intro other hother
      show s.claimed = _ ∧ _
      rw [hclaimed]
      refine hissued.bounded ?_ other hother
      rw [← hclaimed]
      exact bounded_of_update h.bounded
    · intro q lock' hq
      obtain ⟨old, hold, hversion, -⟩ := h.locks q lock' hq
      obtain rfl := Option.some.inj (hdevice.symm.trans hold)
      refine ⟨_, rfl, Nat.le_succ_of_le hversion, ?_⟩
      intro heq
      change lock'.version = device.version + 1 at heq
      omega

theorem SignedOut.rest (h : SignedOut modes s) (p : ProcessId) :
    SignedOut (Function.update modes p none) s :=
  h.turn nofun

end Step

/-! ## The statements -/

section Programs

variable {p : ProcessId} {α β : Type}

theorem obeys_query_bind {Q : Mode → β → Prop} {m : Mode} {read : Env → Store → α}
    {f : α → AuthProg β} (h : ∀ a, (f a).Obeys Move p Q m) :
    (query read >>= f).Obeys Move p Q m :=
  Prog.obeys_ask_bind (fun _ => .still) h

/-- A read that is noted in the mode. -/
theorem obeys_query_noting {Q : Mode → β → Prop} {m : Mode} {read : Env → Store → α}
    {f : α → AuthProg β}
    (h : ∀ e s, ∃ m', Move p (m, s) (m', s) ∧ (f (read e s)).Obeys Move p Q m') :
    (query read >>= f).Obeys Move p Q m := by
  intro e s a s' hact
  cases hact
  exact h e s

theorem claimSignIn_obeys (deps : AuthDeps) (userId : Uuid) (clientVersion : JsString) (m : Mode) :
    (claimSignIn deps userId clientVersion).Obeys Move p (fun _ _ => True) m := by
  unfold claimSignIn
  split
  · exact Prog.obeys_pure trivial
  · apply obeys_query_bind
    intro now
    apply obeys_query_bind
    intro deviceSecret e s b s' hact
    simp only at hact
    split at hact
    · cases hact
    · next hnone =>
      obtain ⟨⟨opened, sessions⟩, hissue, heq⟩ := Option.map_eq_some_iff.1 hact
      obtain ⟨-, rfl⟩ := Prod.mk.inj heq
      obtain ⟨session, hissued⟩ := issueSession_spec hissue
      exact ⟨m, .claim hnone hissued, trivial⟩

theorem authenticate_obeys (deps : AuthDeps) (header : Option JsString) (m : Mode) :
    (authenticate deps header).Obeys Move p (fun _ _ => True) m := by
  unfold authenticate
  split
  · exact Prog.obeys_pure trivial
  · split
    · exact Prog.obeys_pure trivial
    · split
      · exact Prog.obeys_pure trivial
      · intro e s b s' hact
        simp only at hact
        split at hact
        · next session device hsession hdevice =>
          obtain ⟨-, rfl⟩ := Prod.mk.inj (Option.some.inj hact)
          refine ⟨m, ?_, trivial⟩
          cases houtcome : authenticateSession session device e.membership e.now with
          | refused refusal => exact .still
          | authenticated found membership =>
            refine .answer hdevice ?_ ⟨_, rfl⟩
            by_contra hstatus
            simp [authenticateSession, hstatus] at houtcome
        · cases hact
          exact ⟨m, .still, trivial⟩

theorem revokeDevice_obeys (reason : EndReason) (m : Mode) :
    (revokeDevice reason).Obeys Move p (fun _ _ => True) m := by
  apply obeys_query_bind
  intro now e s b s' hact
  cases hact
  refine ⟨m, .revoke now, ?_⟩
  intro e s b s' hact
  cases hact
  exact ⟨m, .endSessions now reason, trivial⟩

/-- What the renewal writes under its lock. -/
theorem renew_spec {deps : AuthDeps} {input : OpenSessionInput} {boundary now : Instant}
    {active : List JsString} {device : Device} {e : Env} {s s' : Store} {outcome : OpenOutcome}
    (h : renew deps input boundary now active device e s = some (outcome, s'))
    (hdevice : s.device = some device) :
    Move p (some ⟨device.version, some boundary, some active⟩, s)
      (some ⟨device.version, some boundary, some active⟩, s') := by
  simp only [renew, Option.bind_eq_bind, Option.bind_eq_some_iff, Option.some.injEq] at h
  obtain ⟨⟨opened, sessions⟩, hissue, heq⟩ := h
  obtain ⟨session, hissued⟩ := issueSession_spec hissue
  exact .renew rfl rfl hdevice hissued (Prod.mk.inj heq).2.symm

/-- A write under a lock happens to the row that still has its version. -/
theorem underLock_obeys {version : Nat} {act : Device → Env → Store → Option (α × Store)}
    {m : Mode} (h : ∀ device e s a s', s.device = some device → device.version = version →
      act device e s = some (a, s') → Move p (m, s) (m, s')) :
    (underLock version act).Obeys Move p (fun _ _ => True) m := by
  intro e s a s' hact
  simp only [Option.bind_eq_bind, Option.bind_eq_some_iff, Option.ite_none_right_eq_some] at hact
  obtain ⟨device, hdevice, hversion, hwrite⟩ := hact
  exact ⟨m, h device e s a s' hdevice hversion hwrite, trivial⟩

theorem mem_of_newestSession {sessions : SessionTable} {session : Session}
    (h : newestSession sessions = some session) : session ∈ sessions := by
  have hmem := List.mem_of_mem_head? h
  rwa [List.mem_insertionSort] at hmem

/-- What an opening does once it holds an active row. -/
private theorem openSession_locked (deps : AuthDeps) (input : OpenSessionInput) (now : Instant)
    (device : Device) :
    Prog.Obeys Move p (fun _ _ => True) (openLocked deps input now device)
      (some ⟨device.version, none, none⟩) := by
  unfold openLocked
  apply obeys_query_noting
  intro e s
  cases hlatest : newestSession s.sessions with
  | none => exact ⟨_, .still, Prog.obeys_pure trivial⟩
  | some latest =>
    refine ⟨_, .boundary (mem_of_newestSession hlatest), ?_⟩
    apply obeys_query_bind
    intro signedOut
    split
    · apply obeys_query_bind
      intro revokedAt
      apply underLock_obeys
      intro held e s a s' _ _ hwrite
      obtain ⟨-, rfl⟩ := Prod.mk.inj (Option.some.inj hwrite)
      exact .revokeBoth revokedAt .signedOut
    · split
      · exact Prog.obeys_pure trivial
      · apply obeys_query_noting
        intro e s
        refine ⟨some ⟨device.version, some latest.reauthenticateAfter,
          some (activeHashes s.sessions)⟩, .collect ?_, ?_⟩
        · intro session hsession hstatus
          apply List.mem_map_of_mem
          exact List.mem_filter.2 ⟨hsession, by simpa using hstatus⟩
        · apply underLock_obeys
          intro held e s a s' hdevice hversion hwrite
          rw [← hversion]
          exact renew_spec hwrite hdevice

theorem openSession_obeys (deps : AuthDeps) (input : OpenSessionInput) :
    (openSession deps input).Obeys Move p (fun _ _ => True) none := by
  unfold openSession
  split
  · exact Prog.obeys_pure trivial
  · apply obeys_query_bind
    intro now
    apply obeys_query_noting
    intro e s
    cases hdevice : s.device with
    | none => exact ⟨none, .still, Prog.obeys_pure trivial⟩
    | some device =>
      cases hstatus : device.status with
      | active =>
        refine ⟨_, .lock hdevice hstatus, ?_⟩
        apply obeys_query_bind
        intro membership
        split
        · exact Prog.obeys_pure trivial
        · split
          · exact Prog.obeys_pure trivial
          · split
            · exact Prog.obeys_pure trivial
            · exact openSession_locked deps input now device
      | revoked =>
        refine ⟨none, .still, ?_⟩
        apply obeys_query_bind
        intro membership
        split
        · exact Prog.obeys_pure trivial
        · simp only [hstatus, ne_eq, reduceCtorEq, not_false_eq_true, ↓reduceIte]
          exact Prog.obeys_pure trivial

/-- Every statement is a move. -/
theorem authCode_obeys (deps : AuthDeps) (call : AuthCall) (p : ProcessId) :
    Prog.Obeys Move p (fun _ _ => True) (authCode deps call) none := by
  have hdone : ∀ {α : Type} {prog : AuthProg α},
      prog.Obeys Move p (fun _ _ => True) none →
      Prog.Obeys Move p (fun _ _ => True) (prog >>= fun _ => pure ()) none := by
    intro α prog h
    exact Prog.obeys_bind h fun _ _ _ => Prog.obeys_pure trivial
  cases call with
  | claim userId clientVersion => exact claimSignIn_obeys deps userId clientVersion none
  | authenticate header => exact hdone (authenticate_obeys deps header none)
  | openSession input => exact hdone (openSession_obeys deps input)
  | revokeDevice reason => exact revokeDevice_obeys reason none

end Programs

/-! ## Every interleaving -/

theorem signedOut_unclaimed : SignedOut (fun _ => none) Store.unclaimed := by
  refine ⟨fun _ => rfl, Nat.zero_le 1, nofun, nofun, nofun, .of_not_revoked nofun⟩

theorem authRun_signedOut (deps : AuthDeps) (inputs : List AuthInput) :
    ∃ modes, SignedOut modes (authRun deps inputs).store := by
  obtain ⟨modes, -, h⟩ := World.run_invariant (T := Move) (J := SignedOut)
    (fun _ _ => True) (fun _ _ _ => True) (authCode_obeys deps)
    (fun _ _ _ _ _ h hmove _ => h.move hmove) (fun _ _ p h _ => h.rest p)
    (fun _ _ p h _ => h.rest p) (World.follows_idle Store.unclaimed) signedOut_unclaimed
    (Runs.meets_of_forall _ World.orderly_of_true _ inputs)
  exact ⟨modes, h⟩

/-- For every interleaving of claims, openings, authentications and revocations, any of which
may die between two statements: at most one session is active, every session carries the
boundary of the claim and expires no later than it, nothing succeeds after the first
statement of a revocation, and no session is active after a second statement that follows. -/
theorem sign_out_is_final (deps : AuthDeps) (inputs : List AuthInput) :
    ((authRun deps inputs).store.sessions.rows.filter
      fun session => session.status = .active).length ≤ 1 ∧
    (∀ session ∈ (authRun deps inputs).store.sessions,
      (authRun deps inputs).store.claimed = some session.reauthenticateAfter ∧
        session.expiresAt ≤ session.reauthenticateAfter) ∧
    (∀ newer older, (authRun deps inputs).store.notes = newer ++ .revoked :: older →
      ∀ note ∈ newer, note.succeeds = false) ∧
    ∀ newer older, (authRun deps inputs).store.notes = newer ++ .sessionsEnded :: older →
      .revoked ∈ older →
      ∀ session ∈ (authRun deps inputs).store.sessions, session.status = .ended := by
  obtain ⟨modes, h⟩ := authRun_signedOut deps inputs
  exact ⟨h.single, h.bounded, h.final.refused, h.final.ended⟩

/-- The process that signs out dies after its first statement; the Mac then opens in vain. -/
example :
    let deps : AuthDeps := ⟨id, fun _ => true, 3600, 2592000, js "w"⟩
    let env : Env := ⟨5, js "secret", ⟨.active, .salesperson⟩⟩
    let opening : AuthInput := .start 2 (.openSession ⟨js "secret", js "1.0.0"⟩)
    let s := (authRun deps ([.start 0 (.claim (js "u") (js "1.0.0"))]
      ++ List.replicate 3 (.advance 0 env)
      ++ [.start 1 (.revokeDevice .signedOut), .advance 1 env, .advance 1 env, .die 1, opening]
      ++ List.replicate 7 (.advance 2 env))).store
    s.notes = [.revoked] ∧ s.sessions.rows.map Session.status = [.active] := by
  decide +kernel

end FoundingSales.Auth
