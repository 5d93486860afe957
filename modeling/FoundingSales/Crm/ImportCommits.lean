import FoundingSales.Crm.Firms
import FoundingSales.Crm.ImportClassification

/-!
The commit of a file's rows: the workspace that the file was classified against, and the commands
that write each row.

Proved here:

* `mem_contacts_iff`, `index_firms`: the index says who is already at a firm, as the commit does, and
  finds active firms;
* `addRoutes_active`, `addRoutes_prepared`: what the commands of a row write.
-/

namespace FoundingSales.Crm.Import

open Rules Tables

/-! ## The workspace -/

/-- A row of `firms`. -/
structure WorkspaceFirm where
  id : Uuid
  name : JsString
  website : Option JsString
  assignedUserId : Option Uuid
  merged : Bool
  deriving DecidableEq

/-- A row of `record_aliases`, of a kind that a row is matched by. -/
structure FirmAlias where
  kind : MatchedOn
  value : JsString
  firmId : Uuid
  deriving DecidableEq

structure WorkspaceContact where
  id : Uuid
  firmId : Uuid
  fullName : JsString
  merged : Bool
  deriving DecidableEq

structure WorkspaceAddress where
  firmId : Uuid
  contactId : Option Uuid
  address : JsString
  deriving DecidableEq

structure Workspace where
  firms : Table WorkspaceFirm.id
  aliases : List FirmAlias
  contacts : List WorkspaceContact
  addresses : List WorkspaceAddress
  /-- The members, and whether each is active. -/
  members : List (Uuid × Bool)
  /-- The firms of `calling_preparations`. -/
  prepared : List Uuid

/-- `knownOwners`: the active members. -/
def Workspace.owners (ws : Workspace) (id : Uuid) : Bool := (id, true) ∈ ws.members

section Index

variable (r : ImportRuntime) (ws : Workspace)

def indexedFirm (firm : WorkspaceFirm) : IndexedFirm :=
  ⟨firm.id, firm.name, websiteDomain r firm.website⟩

/-- The active firm of an id. -/
def Workspace.activeFirm (id : Uuid) : Option WorkspaceFirm :=
  (ws.firms.find? id).filter fun firm => !firm.merged

/-- The firms pushed under a key, each once. -/
def pushed (pairs : List (JsString × IndexedFirm)) (key : JsString) : List IndexedFirm :=
  Firsts.keepFirst IndexedFirm.id ((pairs.filter fun pair => pair.1 = key).map Prod.snd)

/-- The active firms, under a key of their own. -/
def ownKeys (keyOf : IndexedFirm → Option JsString) : List (JsString × IndexedFirm) :=
  ((ws.firms.rows.filter fun firm => !firm.merged).map (indexedFirm r)).filterMap fun firm =>
    (keyOf firm).map fun key => (key, firm)

/-- The active firms, under the keys of their aliases. -/
def aliasKeys (kind : MatchedOn) (keyOf : JsString → Option JsString) :
    List (JsString × IndexedFirm) :=
  (ws.aliases.filter fun row => row.kind = kind).filterMap fun row => do
    let firm ← ws.activeFirm row.firmId
    let key ← keyOf row.value
    some (key, indexedFirm r firm)

/-- The people who are not merged. -/
def Workspace.people (firmId : Uuid) : List WorkspaceContact :=
  ws.contacts.filter fun contact => contact.firmId = firmId && !contact.merged

/-- The addresses of contacts who are not merged. -/
def Workspace.addressesAt (firmId : Uuid) : List WorkspaceAddress :=
  ws.addresses.filter fun address => address.firmId = firmId &&
    ws.contacts.any fun contact => some contact.id = address.contactId && !contact.merged

def workspaceIndex : WorkspaceIndex where
  byExternalId := pushed (aliasKeys r ws .externalId some)
  byDomain := pushed (ownKeys r ws IndexedFirm.domain ++
    aliasKeys r ws .domain fun value => websiteDomain r (some value))
  byName := pushed ((ownKeys r ws fun firm => some (firmNameKey r firm.name)) ++
    aliasKeys r ws .name fun value => some (firmNameKey r value))
  contacts firmId :=
    (ws.people firmId).map (fun contact => .name (firmNameKey r contact.fullName)) ++
      (ws.addressesAt firmId).map fun address => .email address.address

/-- Whether a contact of this key is already at the firm. -/
def contactAlreadyAt (firmId : Uuid) (key : ContactKey) : Bool :=
  match key with
  | .email address => (ws.addressesAt firmId).any fun row => row.address = address
  | .name key => (ws.people firmId).any fun contact => firmNameKey r contact.fullName = key

end Index

/-! ## The commands -/

inductive ImportRefusal
  | issue (code : ImportIssueCode)
  | adminOnly | invalidInput | notAssigned | firmUnknown | firmMerged | assigneeUnknown
  /-- An error of the database that is no refusal. -/
  | raised
  deriving DecidableEq

/-- A refusal, and where it is. -/
structure Refused where
  reason : ImportRefusal
  column : Option ImportColumn
  rowNumber : Nat
  issues : List ImportIssue
  firmId : Option Uuid
  deriving DecidableEq

structure ImportRowCommitted where
  rowNumber : Nat
  firmId : Uuid
  contactId : Option Uuid
  created : Bool
  deriving DecidableEq

/-- The ids that are generated for the firm and the contact of each row. -/
structure NewIds where
  firm : Nat → Uuid
  contact : Nat → Uuid

/-- Import is an administrator's command. -/
def decideAdminOnly (actor : Actor) : Option ImportRefusal :=
  match actor with
  | .system => none
  | .user _ role => if role = .admin then none else some .adminOnly

def decideMutation (actor : Actor) (firm : WorkspaceFirm) : Option ImportRefusal :=
  if firm.merged then some .firmMerged
  else match actor with
    | .system => none
    | .user userId role =>
      if role = .admin then none
      else if firm.assignedUserId ≠ some userId then some .notAssigned
      else none

/-- The firm that a command changes. -/
def loadFirmForUpdate (actor : Actor) (ws : Workspace) (firmId : Uuid) :
    Except ImportRefusal WorkspaceFirm :=
  match ws.firms.find? firmId with
  | none => .error .firmUnknown
  | some firm =>
    match decideMutation actor firm with
    | some reason => .error reason
    | none => .ok firm

def createFirm (actor : Actor) (ws : Workspace) (id : Uuid) (name : JsString)
    (website externalId assigned : Option JsString) : Except ImportRefusal Workspace :=
  let mayAssign := match actor with
    | .user userId .salesperson => assigned.isNone || assigned = some userId
    | _ => true
  if !mayAssign then .error .notAssigned
  else if (trim name).length = 0 then .error .invalidInput
  else if assigned.any fun assignee => ws.members.all fun member => member.1 ≠ assignee then
    .error .assigneeUnknown
  else
    match ws.firms.insert? ⟨id, trim name, website, assigned, false⟩ with
    | none => .error .raised
    | some firms =>
      let aliases := match externalId with
        | some value =>
          if (trim value).length = 0 || ws.aliases.any fun row =>
              row.kind = .externalId && row.value = trim value then ws.aliases
          else ws.aliases ++ [⟨.externalId, trim value, id⟩]
        | none => ws.aliases
      .ok { ws with
        firms := firms
        aliases := aliases }

/-- The zone itself is not kept; a firm whose zone is not established is still a firm. -/
def resolveZoneForFirm (actor : Actor) (ws : Workspace) (firmId : Uuid) :
    Except ImportRefusal Workspace :=
  if firmId ∈ ws.prepared then .error .invalidInput
  else (loadFirmForUpdate actor ws firmId).map fun _ => ws

def createContact (actor : Actor) (ws : Workspace) (id firmId : Uuid) (fullName : JsString) :
    Except ImportRefusal Workspace := do
  let _ ← loadFirmForUpdate actor ws firmId
  if (trim fullName).length = 0 then .error .invalidInput
  else .ok { ws with contacts := ws.contacts ++ [⟨id, firmId, trim fullName, false⟩] }

def addEmailRoute (r : ImportRuntime) (actor : Actor) (ws : Workspace) (firmId : Uuid)
    (contactId : Option Uuid) (address : JsString) : Except ImportRefusal Workspace := do
  let _ ← loadFirmForUpdate actor ws firmId
  let row : WorkspaceAddress := ⟨firmId, contactId, r.toLowerCase (trim address)⟩
  if row ∈ ws.addresses then .ok ws else .ok { ws with addresses := ws.addresses ++ [row] }

/-- The number's own row is not kept. -/
def addPhoneRoute (actor : Actor) (ws : Workspace) (firmId : Uuid) : Except ImportRefusal Workspace :=
  if firmId ∈ ws.prepared then .error .invalidInput
  else (loadFirmForUpdate actor ws firmId).map fun _ => ws

/-! ## One row -/

section Capture

variable (r : ImportRuntime) (actor : Actor) (ids : NewIds)

def routeShape (route : ImportRouteDraft) : Bool :=
  match route.kind with
  | .email => emailShape route.value
  | .phone => e164Shape route.value

def addRoutes (firmId : Uuid) (contactId : Option Uuid) :
    List ImportRouteDraft → Workspace → Except ImportRefusal Workspace
  | [], ws => .ok ws
  | route :: routes, ws => do
    let ws ← match route.kind with
      | .email => addEmailRoute r actor ws firmId contactId route.value
      | .phone => addPhoneRoute actor ws firmId
    addRoutes firmId contactId routes ws

/-- The row's contact. -/
def addContact (row : ImportPreviewRow) (firmId : Uuid) (ws : Workspace) :
    Except ImportRefusal (Option Uuid × Workspace) :=
  match row.contact with
  | none => .ok (none, ws)
  | some contact =>
    let id := ids.contact row.rowNumber
    match createContact actor ws id firmId contact.fullName with
    | .error reason => .error reason
    | .ok ws => .ok (some id, ws)

/-- The row's contact at a firm, and the routes. -/
def captureContact (row : ImportPreviewRow) (firmId : Uuid) (creating : Bool) (ws : Workspace) :
    Except ImportRefusal (ImportRowCommitted × Workspace) :=
  match addContact actor ids row firmId ws with
  | .error reason => .error reason
  | .ok (contactId, ws) =>
    match addRoutes r actor firmId contactId row.routes ws with
    | .error reason => .error reason
    | .ok ws => .ok (⟨row.rowNumber, firmId, contactId, creating⟩, ws)

/-- A new firm of the row's own columns, and its contact. -/
def captureNew (row : ImportPreviewRow) (ws : Workspace) :
    Except Refused (ImportRowCommitted × Workspace) :=
  let refuse (column : Option ImportColumn) (reason : ImportRefusal) : Refused :=
    ⟨reason, column, row.rowNumber, [], none⟩
  let id := ids.firm row.rowNumber
  let owner := row.firm.ownerUserId <|> actor.userId
  match createFirm actor ws id row.firm.name row.firm.website row.firm.externalId owner with
  | .error reason =>
    .error (refuse (if reason = .assigneeUnknown then some .ownerUserId else none) reason)
  | .ok ws =>
    match resolveZoneForFirm actor ws id with
    | .error reason => .error (refuse none reason)
    | .ok ws => (captureContact r actor ids row id true ws).mapError (refuse none)

/-- The row's contact at a firm that is there. -/
def captureAt (row : ImportPreviewRow) (firmId : Uuid) (ws : Workspace) :
    Except Refused (ImportRowCommitted × Workspace) :=
  let duplicate (column : ImportColumn) : Refused :=
    ⟨.issue .duplicateInWorkspace, some column, row.rowNumber, [], some firmId⟩
  match row.key r with
  | none => .error (duplicate ((row.match_.map matchColumn).getD .firmName))
  | some key =>
    if contactAlreadyAt r ws firmId key then .error (duplicate (contactColumn key))
    else (captureContact r actor ids row firmId false ws).mapError fun reason =>
      ⟨reason, none, row.rowNumber, [], none⟩

/-- One classified row. A refusal takes back what the row has written. -/
def captureRow (committed : Nat → Option Uuid) (row : ImportPreviewRow) (ws : Workspace) :
    Except Refused (ImportRowCommitted × Workspace) :=
  match row.issues with
  | issue :: _ => .error ⟨.issue issue.code, some issue.column, row.rowNumber, row.issues, none⟩
  | [] =>
    if !row.placed then .error ⟨.invalidInput, none, row.rowNumber, [], none⟩
    else if (trim row.firm.name).length = 0 then
      .error ⟨.issue .firmNameMissing, some .firmName, row.rowNumber, [], none⟩
    else
      match row.routes.find? fun route => !routeShape route with
      | some route =>
        match route.kind with
        | .email => .error ⟨.issue .emailInvalid, some .contactEmail, row.rowNumber, [], none⟩
        | .phone => .error ⟨.issue .phoneInvalid, some .contactPhone, row.rowNumber, [], none⟩
      | none =>
        let firmId := match row.match_ with
          | none => none
          | some (.existing firmId _ _) => some firmId
          | some (.inFile n _) => committed n
        match firmId with
        | none => captureNew r actor ids row ws
        | some firmId => captureAt r actor ids row firmId ws

/-- One row of a file, in a transaction of its own. -/
def commitImportRow (committed : Nat → Option Uuid) (row : ImportPreviewRow) (ws : Workspace) :
    Except Refused (ImportRowCommitted × Workspace) :=
  match decideAdminOnly actor with
  | some reason => .error ⟨reason, none, row.rowNumber, [], none⟩
  | none => captureRow r actor ids committed row ws

/-- The workspace, the firms of the rows so far, and the refusals. -/
structure Progress where
  ws : Workspace
  committed : Nat → Option Uuid
  refusals : List Refused

/-- A row that is created or attached is committed. -/
def Progress.commit (progress : Progress) (row : ImportPreviewRow) : Progress :=
  if row.placed then
    match commitImportRow r actor ids progress.committed row progress.ws with
    | .error refusal => { progress with refusals := progress.refusals ++ [refusal] }
    | .ok (done, ws) =>
      { progress with
        ws := ws
        committed := Function.update progress.committed row.rowNumber (some done.firmId) }
  else progress

def commitRows (ws : Workspace) (rows : List ImportPreviewRow) : Progress :=
  rows.foldl (Progress.commit r actor ids) ⟨ws, fun _ => none, []⟩

end Capture

/-! ## What the index says -/

section Index

variable {r : ImportRuntime} {ws : Workspace}

/-- The index says who is already at a firm, as the commit does. -/
theorem mem_contacts_iff (firmId : Uuid) (key : ContactKey) :
    key ∈ (workspaceIndex r ws).contacts firmId ↔ contactAlreadyAt r ws firmId key = true := by
  show key ∈ (ws.people firmId).map (fun contact => .name (firmNameKey r contact.fullName)) ++
    (ws.addressesAt firmId).map (fun address => .email address.address) ↔ _
  rw [List.mem_append, List.mem_map, List.mem_map]
  unfold contactAlreadyAt
  cases key with
  | email address => simp
  | name key => simp

theorem mem_pushed {pairs : List (JsString × IndexedFirm)} {key : JsString} {firm : IndexedFirm}
    (h : firm ∈ pushed pairs key) : (key, firm) ∈ pairs := by
  obtain ⟨pair, hpair, rfl⟩ := List.mem_map.1 (Firsts.mem_of_mem_keepFirst h)
  obtain ⟨hmem, hkey⟩ := List.mem_filter.1 hpair
  rw [← of_decide_eq_true hkey]
  exact hmem

theorem activeFirm_eq_some {id : Uuid} {firm : WorkspaceFirm} :
    ws.activeFirm id = some firm ↔ firm ∈ ws.firms ∧ firm.id = id ∧ firm.merged = false := by
  unfold Workspace.activeFirm
  rw [Option.filter_eq_some_iff, Table.find?_eq_some]
  simp [and_assoc]

theorem mem_ownKeys {keyOf : IndexedFirm → Option JsString} {key : JsString} {firm : IndexedFirm}
    (h : (key, firm) ∈ ownKeys r ws keyOf) : ∃ row, ws.activeFirm firm.id = some row := by
  obtain ⟨firm', hfirm', hkey⟩ := List.mem_filterMap.1 h
  obtain ⟨key', -, hpair⟩ := Option.map_eq_some_iff.1 hkey
  cases hpair
  obtain ⟨row, hrow, rfl⟩ := List.mem_map.1 hfirm'
  obtain ⟨hmem, hmerged⟩ := List.mem_filter.1 hrow
  exact ⟨row, activeFirm_eq_some.2 ⟨hmem, rfl, by simpa using hmerged⟩⟩

theorem mem_aliasKeys {kind : MatchedOn} {keyOf : JsString → Option JsString} {key : JsString}
    {firm : IndexedFirm} (h : (key, firm) ∈ aliasKeys r ws kind keyOf) :
    ∃ row, ws.activeFirm firm.id = some row := by
  obtain ⟨row', -, hkey⟩ := List.mem_filterMap.1 h
  obtain ⟨row, hrow, hkey⟩ := Option.bind_eq_some_iff.1 hkey
  obtain ⟨key', -, hpair⟩ := Option.bind_eq_some_iff.1 hkey
  cases hpair
  have hid : row.id = row'.firmId := (activeFirm_eq_some.1 hrow).2.1
  refine ⟨row, ?_⟩
  show ws.activeFirm row.id = some row
  rw [hid]
  exact hrow

/-- The firms an index finds are active ones. -/
theorem index_firms {firm : IndexedFirm} (h : firm ∈ (workspaceIndex r ws).firms) :
    ∃ row, ws.activeFirm firm.id = some row := by
  obtain ⟨key, h | h | h⟩ := h
  · exact mem_aliasKeys (mem_pushed h)
  · rcases List.mem_append.1 (mem_pushed h) with h | h
    · exact mem_ownKeys h
    · exact mem_aliasKeys h
  · rcases List.mem_append.1 (mem_pushed h) with h | h
    · exact mem_ownKeys h
    · exact mem_aliasKeys h

end Index

/-! ## What a command writes -/

section Commands

variable {r : ImportRuntime} {actor : Actor} {ids : NewIds} {ws ws' : Workspace} {firmId : Uuid}
  {contactId : Option Uuid} {routes : List ImportRouteDraft} {row : ImportPreviewRow}
  {firm : WorkspaceFirm}

/-- An administrator may change every active firm. -/
theorem loadFirmForUpdate_active (hactor : decideAdminOnly actor = none)
    (h : ws.activeFirm firmId = some firm) : loadFirmForUpdate actor ws firmId = .ok firm := by
  obtain ⟨hmem, hid, hmerged⟩ := activeFirm_eq_some.1 h
  have hfind : ws.firms.find? firmId = some firm := Table.find?_eq_some.2 ⟨hmem, hid⟩
  unfold loadFirmForUpdate decideMutation
  rw [hfind]
  cases actor with
  | system => simp [hmerged]
  | user userId role =>
    have hrole : role = .admin := by
      by_contra hrole
      simp [decideAdminOnly, hrole] at hactor
    simp [hmerged, hrole]

theorem createContact_active {id fullName : JsString} (hactor : decideAdminOnly actor = none)
    (h : ws.activeFirm firmId = some firm) (hname : (trim fullName).length ≠ 0) :
    createContact actor ws id firmId fullName =
      .ok { ws with contacts := ws.contacts ++ [⟨id, firmId, trim fullName, false⟩] } := by
  unfold createContact
  rw [loadFirmForUpdate_active hactor h]
  exact if_neg hname

/-- A route of the row, as an address of the firm. -/
def addressOf (r : ImportRuntime) (firmId : Uuid) (contactId : Option Uuid)
    (route : ImportRouteDraft) : WorkspaceAddress :=
  ⟨firmId, contactId, r.toLowerCase (trim route.value)⟩

/-- Only addresses have been added. -/
structure Addressed (r : ImportRuntime) (firmId : Uuid) (contactId : Option Uuid)
    (routes : List ImportRouteDraft) (ws ws' : Workspace) : Prop where
  firms : ws'.firms = ws.firms
  contacts : ws'.contacts = ws.contacts
  members : ws'.members = ws.members
  prepared : ws'.prepared = ws.prepared
  addresses : ∀ address, address ∈ ws'.addresses ↔ address ∈ ws.addresses ∨
    ∃ route ∈ routes, route.kind = .email ∧ address = addressOf r firmId contactId route

theorem addEmailRoute_active {address : JsString} (hactor : decideAdminOnly actor = none)
    (h : ws.activeFirm firmId = some firm) :
    ∃ ws', addEmailRoute r actor ws firmId contactId address = .ok ws' ∧
      Addressed r firmId contactId [⟨.email, address⟩] ws ws' := by
  unfold addEmailRoute
  rw [loadFirmForUpdate_active hactor h]
  by_cases hrow : (⟨firmId, contactId, r.toLowerCase (trim address)⟩ : WorkspaceAddress) ∈ ws.addresses
  · refine ⟨ws, if_pos hrow, rfl, rfl, rfl, rfl, fun other => ?_⟩
    constructor
    · exact .inl
    · rintro (hmem | ⟨route, hroute, -, rfl⟩)
      · exact hmem
      · rw [List.mem_singleton.1 hroute]
        exact hrow
  · refine ⟨_, if_neg hrow, rfl, rfl, rfl, rfl, fun other => ?_⟩
    simp [addressOf]

/-- Every route is added, if the firm's calls are not being prepared. -/
theorem addRoutes_active (hactor : decideAdminOnly actor = none)
    (h : ws.activeFirm firmId = some firm)
    (hphone : firmId ∈ ws.prepared → ∀ route ∈ routes, route.kind ≠ .phone) :
    ∃ ws', addRoutes r actor firmId contactId routes ws = .ok ws' ∧
      Addressed r firmId contactId routes ws ws' := by
  induction routes generalizing ws with
  | nil => exact ⟨ws, rfl, rfl, rfl, rfl, rfl, fun address => by simp⟩
  | cons route routes ih =>
    have hrest : firmId ∈ ws.prepared → ∀ other ∈ routes, other.kind ≠ .phone :=
      fun hprepared other hother => hphone hprepared other (List.mem_cons_of_mem _ hother)
    unfold addRoutes
    cases hkind : route.kind with
    | email =>
      obtain ⟨ws₁, hadd, hfirst⟩ := @addEmailRoute_active r actor ws firmId contactId firm route.value hactor h
      have hactive : ws₁.activeFirm firmId = some firm := by
        rw [activeFirm_eq_some, hfirst.firms]
        exact activeFirm_eq_some.1 h
      obtain ⟨ws₂, hroutes, hlast⟩ := ih hactive (hfirst.prepared ▸ hrest)
      refine ⟨ws₂, ?_, hlast.firms.trans hfirst.firms, hlast.contacts.trans hfirst.contacts,
        hlast.members.trans hfirst.members, hlast.prepared.trans hfirst.prepared, fun address => ?_⟩
      · simp only [hadd]
        exact hroutes
      · rw [hlast.addresses, hfirst.addresses]
        simp [hkind, addressOf, or_assoc]
    | phone =>
      have hnot : firmId ∉ ws.prepared := fun hprepared =>
        hphone hprepared route List.mem_cons_self hkind
      obtain ⟨ws₂, hroutes, hlast⟩ := ih h hrest
      refine ⟨ws₂, ?_, hlast.firms, hlast.contacts, hlast.members, hlast.prepared, fun address => ?_⟩
      · have hadd : addPhoneRoute actor ws firmId = .ok ws := by
          unfold addPhoneRoute
          rw [if_neg hnot, loadFirmForUpdate_active hactor h]
          rfl
        simp only [hadd]
        exact hroutes
      · rw [hlast.addresses]
        simp [hkind]

/-- A number is not added to a firm whose calls are being prepared. -/
theorem addRoutes_prepared (hactor : decideAdminOnly actor = none)
    (h : ws.activeFirm firmId = some firm) (hprepared : firmId ∈ ws.prepared)
    (hphone : ∃ route ∈ routes, route.kind = .phone) :
    addRoutes r actor firmId contactId routes ws = .error .invalidInput := by
  induction routes generalizing ws with
  | nil =>
    obtain ⟨route, hroute, -⟩ := hphone
    cases hroute
  | cons route routes ih =>
    unfold addRoutes
    cases hkind : route.kind with
    | email =>
      obtain ⟨ws₁, hadd, hfirst⟩ := @addEmailRoute_active r actor ws firmId contactId firm route.value hactor h
      have hactive : ws₁.activeFirm firmId = some firm := by
        rw [activeFirm_eq_some, hfirst.firms]
        exact activeFirm_eq_some.1 h
      have hrest : ∃ other ∈ routes, other.kind = .phone := by
        obtain ⟨other, hother, hotherKind⟩ := hphone
        rcases List.mem_cons.1 hother with rfl | hother
        · rw [hkind] at hotherKind
          cases hotherKind
        · exact ⟨other, hother, hotherKind⟩
      simp only [hadd]
      exact ih hactive (hfirst.prepared ▸ hprepared) hrest
    | phone =>
      have hadd : addPhoneRoute actor ws firmId = .error .invalidInput := if_pos hprepared
      simp only [hadd]
      rfl

end Commands

end FoundingSales.Crm.Import
