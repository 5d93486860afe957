import FoundingSales.Outbound.FenceStore

/-!
A follow-up permission: who may be written to, for how much and until when, and what
binding, spending and revoking it write.
-/

namespace FoundingSales.Sequences

open Outbound

inductive ConsumedReason
  | sent | fulfilledByDirectSend
  deriving DecidableEq

/-- A row of `follow_up_permissions`, as far as spending it goes. -/
structure FollowUpPermission where
  id : Uuid
  firmId : Uuid
  contactId : Uuid
  scope : PermissionScope
  enrollmentId : Option Uuid
  grantedAt : Instant
  expiresAt : Instant
  consumedAt : Option Instant
  consumedReason : Option ConsumedReason
  revokedAt : Option Instant
  createdAt : Instant
  deriving DecidableEq

/-- The conditions of the table. -/
def permissionChecks (row : FollowUpPermission) : Bool :=
  row.grantedAt < row.expiresAt &&
  (row.consumedAt.isNone || row.scope.oneMessage) &&
  row.consumedReason.isNone == row.consumedAt.isNone

/-- Unrevoked, and unexpired by the database's own clock. -/
def FollowUpPermission.live (row : FollowUpPermission) (e : Env) : Bool :=
  row.revokedAt.isNone && e.clock < row.expiresAt

/-- Live, and its one message unspent. -/
def FollowUpPermission.spendable (row : FollowUpPermission) (e : Env) : Bool :=
  row.scope.oneMessage && row.consumedAt.isNone && row.live e

def FollowUpPermission.spend (row : FollowUpPermission) (reason : ConsumedReason) (e : Env) :
    FollowUpPermission :=
  { row with consumedAt := some e.now, consumedReason := some reason }

def FollowUpPermission.revoke (row : FollowUpPermission) (e : Env) : FollowUpPermission :=
  { row with revokedAt := row.revokedAt <|> some e.now }

def FollowUpPermission.bind (row : FollowUpPermission) (enrollmentId : Uuid)
    (expiresAt : Option Instant) : FollowUpPermission :=
  { row with enrollmentId := some enrollmentId, expiresAt := expiresAt.getD row.expiresAt }

/-- Whether a message the salesperson sent by hand fulfils the permission. -/
def FollowUpPermission.fulfilledBy (row : FollowUpPermission) (firmId : Uuid)
    (contactIds : List Uuid) (sentAt : Instant) : Bool :=
  row.firmId = firmId && row.contactId ∈ contactIds && row.createdAt ≤ sentAt

structure GrantInput where
  firmId : Uuid
  contactId : Uuid
  scope : PermissionScope
  expiresAt : Instant
  deriving DecidableEq

def grantedPermission (input : GrantInput) (e : Env) : FollowUpPermission where
  id := e.uuid
  firmId := input.firmId
  contactId := input.contactId
  scope := input.scope
  enrollmentId := none
  grantedAt := e.now
  expiresAt := input.expiresAt
  consumedAt := none
  consumedReason := none
  revokedAt := none
  createdAt := e.now

/-! ## What never goes back -/

/-- One version of a permission after another: a spend, a revocation and a binding stand. -/
structure FollowUpPermission.Continues (old new : FollowUpPermission) : Prop where
  id : new.id = old.id
  scope : new.scope = old.scope
  consumed : old.consumedAt.isSome →
    new.consumedAt = old.consumedAt ∧ new.consumedReason = old.consumedReason
  revoked : old.revokedAt.isSome → new.revokedAt = old.revokedAt
  bound : old.enrollmentId.isSome → new.enrollmentId = old.enrollmentId

namespace FollowUpPermission.Continues

variable {old row new : FollowUpPermission}

theorem refl (row : FollowUpPermission) : Continues row row :=
  ⟨rfl, rfl, fun _ => ⟨rfl, rfl⟩, fun _ => rfl, fun _ => rfl⟩

theorem trans (h : Continues old row) (h' : Continues row new) : Continues old new where
  id := h'.id.trans h.id
  scope := h'.scope.trans h.scope
  consumed hold := by
    obtain ⟨hat, hreason⟩ := h.consumed hold
    obtain ⟨hat', hreason'⟩ := h'.consumed (by rw [hat]; exact hold)
    exact ⟨hat'.trans hat, hreason'.trans hreason⟩
  revoked hold := (h'.revoked (by rw [h.revoked hold]; exact hold)).trans (h.revoked hold)
  bound hold := (h'.bound (by rw [h.bound hold]; exact hold)).trans (h.bound hold)

end FollowUpPermission.Continues

theorem spend_continues {row : FollowUpPermission} {reason : ConsumedReason} {e : Env}
    (h : row.consumedAt.isNone) : row.Continues (row.spend reason e) where
  id := rfl
  scope := rfl
  consumed hold := by rw [Option.isNone_iff_eq_none.1 h] at hold; cases hold
  revoked _ := rfl
  bound _ := rfl

theorem revoke_continues (row : FollowUpPermission) (e : Env) : row.Continues (row.revoke e) where
  id := rfl
  scope := rfl
  consumed _ := ⟨rfl, rfl⟩
  revoked hold := by
    obtain ⟨at', hat⟩ := Option.isSome_iff_exists.1 hold
    simp [FollowUpPermission.revoke, hat]
  bound _ := rfl

theorem bind_continues {row : FollowUpPermission} {enrollmentId : Uuid}
    {expiresAt : Option Instant} (h : row.enrollmentId.isNone) :
    row.Continues (row.bind enrollmentId expiresAt) where
  id := rfl
  scope := rfl
  consumed _ := ⟨rfl, rfl⟩
  revoked _ := rfl
  bound hold := by rw [Option.isNone_iff_eq_none.1 h] at hold; cases hold

end FoundingSales.Sequences
