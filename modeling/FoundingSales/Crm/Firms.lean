import FoundingSales.Outbound.MessageId
import FoundingSales.Library.Tables

/-!
Firms, as far as suppressions and merges read them, and who may change one.
-/

namespace FoundingSales.Crm

open Tables

/-- The id of a firm as the database spells it, lower case. -/
structure FirmId where
  text : Uuid
  canonical : Outbound.canonicalUuid text = true
  deriving DecidableEq

theorem FirmId.atSign_not_mem (id : FirmId) : atSign ∉ id.text :=
  Outbound.atSign_not_mem_of_uuidShape (Outbound.uuidShape_of_canonical id.canonical)

inductive Role
  | admin | salesperson
  deriving DecidableEq

inductive Actor
  | user (userId : Uuid) (role : Role)
  | system
  deriving DecidableEq

def Actor.userId : Actor → Option Uuid
  | .user userId _ => some userId
  | .system => none

def Actor.isAdmin : Actor → Bool
  | .user _ role => role = .admin
  | .system => false

/-- Canonical fields a firm merge refuses to choose between. -/
inductive FirmConflictField
  | website | addressLine | locality | regionCode | postalCode
  deriving DecidableEq

def firmConflictFields : List FirmConflictField :=
  [.website, .addressLine, .locality, .regionCode, .postalCode]

structure FirmRow where
  id : FirmId
  assignedUserId : Option Uuid
  /-- The firm it was merged into, when its status is `merged`. -/
  mergedInto : Option FirmId
  field : FirmConflictField → Option JsString

inductive CrmRefusalCode
  | firmUnknown | firmMerged | notAssigned | mergeSameRecord | mergeAlreadyPerformed
  | mergeConflict | invalidInput
  deriving DecidableEq

/-- Why this actor may not change this firm. -/
def decideFirmMutation (actor : Actor) (firm : FirmRow) : Option CrmRefusalCode :=
  if firm.mergedInto.isSome then some .firmMerged
  else match actor with
    | .system => none
    | .user userId role =>
      if role = .admin then none
      else if firm.assignedUserId ≠ some userId then some .notAssigned
      else none

abbrev Firms := Table FirmRow.id

end FoundingSales.Crm
