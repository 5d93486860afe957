import FoundingSales.Crm.ImportCommits
import FoundingSales.Crm.ImportedRoutes

/-!
A file that is classified and then committed, row by row.

Proved here:

* `contactAlreadyAt_captured`: whom a row's commit adds to its firm;
* `Committed.step`: what the rows so far have written, and when none was refused as a duplicate;
* `import_adds_once`: no firm is created twice and nobody is placed twice; and exactly when the
  commit refuses no placed row as a duplicate.
-/

namespace FoundingSales.Crm.Import

open Rules Tables

/-! ## What a row's commit writes -/

section Capture

variable {r : ImportRuntime} {actor : Actor} {ids : NewIds} {ws ws' : Workspace} {firmId : Uuid}
  {row : ImportPreviewRow} {firm : WorkspaceFirm}

/-- The row's contact, as it is written. -/
def newContact (ids : NewIds) (row : ImportPreviewRow) (firmId : Uuid) : Option WorkspaceContact :=
  row.contact.map fun contact => ⟨ids.contact row.rowNumber, firmId, trim contact.fullName, false⟩

/-- What the row's contact is known by once it is written. -/
def writes (r : ImportRuntime) (row : ImportPreviewRow) : List ContactKey :=
  match row.contact with
  | none => []
  | some contact =>
    .name (firmNameKey r contact.fullName) ::
      (row.routes.filter fun route => route.kind = .email).map fun route =>
        .email (r.toLowerCase (trim route.value))

/-- The row's contact and its routes have been added. -/
structure Captured (r : ImportRuntime) (ids : NewIds) (row : ImportPreviewRow) (firmId : Uuid)
    (ws ws' : Workspace) : Prop where
  firms : ws'.firms = ws.firms
  members : ws'.members = ws.members
  prepared : ws'.prepared = ws.prepared
  contacts : ws'.contacts = ws.contacts ++ (newContact ids row firmId).toList
  addresses : ∀ address, address ∈ ws'.addresses ↔ address ∈ ws.addresses ∨
    ∃ route ∈ row.routes, route.kind = .email ∧
      address = addressOf r firmId ((newContact ids row firmId).map WorkspaceContact.id) route

/-- A contact that can be written. -/
def Nameable (row : ImportPreviewRow) : Prop :=
  ∀ contact, row.contact = some contact → (trim contact.fullName).length ≠ 0

/-- The row's contact is written first. -/
theorem addContact_active (hactor : decideAdminOnly actor = none)
    (h : ws.activeFirm firmId = some firm) (hcontact : Nameable row) :
    addContact actor ids row firmId ws =
      .ok ((newContact ids row firmId).map WorkspaceContact.id,
        { ws with contacts := ws.contacts ++ (newContact ids row firmId).toList }) := by
  unfold addContact newContact
  cases hrow : row.contact with
  | none => simp
  | some contact =>
    simp only [createContact_active hactor h (hcontact contact hrow)]
    rfl

theorem activeFirm_congr (h : ws'.firms = ws.firms) : ws'.activeFirm firmId = ws.activeFirm firmId := by
  unfold Workspace.activeFirm
  rw [h]

theorem captureContact_captured (hactor : decideAdminOnly actor = none)
    (h : ws.activeFirm firmId = some firm) (hcontact : Nameable row)
    (hphone : firmId ∈ ws.prepared → ∀ route ∈ row.routes, route.kind ≠ .phone) (creating : Bool) :
    ∃ done ws', captureContact r actor ids row firmId creating ws = .ok (done, ws') ∧
      done.firmId = firmId ∧ Captured r ids row firmId ws ws' := by
  unfold captureContact
  simp only [addContact_active hactor h hcontact]
  have hactive : ({ ws with contacts := ws.contacts ++ (newContact ids row firmId).toList } :
      Workspace).activeFirm firmId = some firm := (activeFirm_congr rfl).trans h
  obtain ⟨ws', hroutes, hadded⟩ := @addRoutes_active r actor _ firmId
    ((newContact ids row firmId).map WorkspaceContact.id) row.routes firm hactor hactive hphone
  rw [hroutes]
  exact ⟨_, ws', rfl, rfl, hadded.firms, hadded.members, hadded.prepared, hadded.contacts,
    hadded.addresses⟩

theorem captureContact_prepared (hactor : decideAdminOnly actor = none)
    (h : ws.activeFirm firmId = some firm) (hcontact : Nameable row)
    (hprepared : firmId ∈ ws.prepared) (hphone : ∃ route ∈ row.routes, route.kind = .phone)
    (creating : Bool) :
    captureContact r actor ids row firmId creating ws = .error .invalidInput := by
  unfold captureContact
  simp only [addContact_active hactor h hcontact]
  have hactive : ({ ws with contacts := ws.contacts ++ (newContact ids row firmId).toList } :
      Workspace).activeFirm firmId = some firm := (activeFirm_congr rfl).trans h
  rw [@addRoutes_prepared r actor _ firmId ((newContact ids row firmId).map WorkspaceContact.id)
    row.routes firm hactor hactive hprepared hphone]

theorem firmNameKey_trim (name : JsString) : firmNameKey r (trim name) = firmNameKey r name := by
  unfold firmNameKey
  rw [trim_trim]

/-- Whom a row's commit adds: its contact, under the name and under the address. -/
theorem contactAlreadyAt_captured (h : Captured r ids row firmId ws ws')
    (hfresh : ∀ address ∈ ws.addresses, address.contactId ≠ some (ids.contact row.rowNumber))
    (at_ : Uuid) (key : ContactKey) : contactAlreadyAt r ws' at_ key = true ↔
      contactAlreadyAt r ws at_ key = true ∨ at_ = firmId ∧ key ∈ writes r row := by
  cases key with
  | name key =>
    have hnew : (∃ contact ∈ newContact ids row firmId, contact.firmId = at_ ∧ contact.merged = false ∧
        firmNameKey r contact.fullName = key) ↔ at_ = firmId ∧ ContactKey.name key ∈ writes r row := by
      unfold newContact writes
      cases row.contact with
      | none => simp
      | some contact =>
        constructor
        · rintro ⟨new, hnew, rfl, -, rfl⟩
          cases hnew
          exact ⟨rfl, by simp [firmNameKey_trim]⟩
        · rintro ⟨rfl, hkey⟩
          rcases List.mem_cons.1 hkey with hname | hkey
          · cases hname
            exact ⟨_, rfl, rfl, rfl, firmNameKey_trim contact.fullName⟩
          · obtain ⟨route, -, heq⟩ := List.mem_map.1 hkey
            cases heq
    rw [← hnew]
    simp only [contactAlreadyAt, Workspace.people, List.any_eq_true, List.mem_filter, h.contacts,
      List.mem_append, Option.mem_toList, Bool.and_eq_true, decide_eq_true_eq, Bool.not_eq_true']
    constructor
    · rintro ⟨contact, ⟨hcontact | hcontact, hfirm, hmerged⟩, hkey⟩
      · exact .inl ⟨contact, ⟨hcontact, hfirm, hmerged⟩, hkey⟩
      · exact .inr ⟨contact, hcontact, hfirm, hmerged, hkey⟩
    · rintro (⟨contact, ⟨hcontact, hfirm, hmerged⟩, hkey⟩ | ⟨contact, hcontact, hfirm, hmerged, hkey⟩)
      · exact ⟨contact, ⟨.inl hcontact, hfirm, hmerged⟩, hkey⟩
      · exact ⟨contact, ⟨.inr hcontact, hfirm, hmerged⟩, hkey⟩
  | email key =>
    simp only [contactAlreadyAt, Workspace.addressesAt, List.any_eq_true, List.mem_filter, h.contacts,
      h.addresses, List.mem_append, Option.mem_toList, Bool.and_eq_true, decide_eq_true_eq,
      Bool.not_eq_true']
    constructor
    · rintro ⟨address, ⟨haddress, hfirm, contact, hcontact, hid, hmerged⟩, hkey⟩
      rcases haddress with haddress | ⟨route, hroute, hkind, rfl⟩
      · rcases hcontact with hcontact | hcontact
        · exact .inl ⟨address, ⟨haddress, hfirm, contact, hcontact, hid, hmerged⟩, hkey⟩
        · -- Nobody has had the new contact's id.
          obtain ⟨draft, -, rfl⟩ := Option.map_eq_some_iff.1 hcontact
          exact absurd hid.symm (hfresh address haddress)
      · refine .inr ⟨hfirm.symm, ?_⟩
        unfold newContact at hid
        unfold writes
        cases hrow : row.contact with
        | none =>
          rw [hrow] at hid
          cases hid
        | some draft =>
          refine List.mem_cons_of_mem _ (List.mem_map.2 ⟨route, List.mem_filter.2 ⟨hroute, by simpa using hkind⟩, ?_⟩)
          exact congrArg ContactKey.email hkey
    · rintro (⟨address, ⟨haddress, hfirm, contact, hcontact, hid, hmerged⟩, hkey⟩ | ⟨rfl, hkey⟩)
      · exact ⟨address, ⟨.inl haddress, hfirm, contact, .inl hcontact, hid, hmerged⟩, hkey⟩
      · unfold writes at hkey
        cases hrow : row.contact with
        | none =>
          rw [hrow] at hkey
          cases hkey
        | some draft =>
          rw [hrow] at hkey
          rcases List.mem_cons.1 hkey with hname | hkey
          · cases hname
          · obtain ⟨route, hroute, heq⟩ := List.mem_map.1 hkey
            obtain ⟨hmem, hkind⟩ := List.mem_filter.1 hroute
            cases heq
            refine ⟨_, ⟨.inr ⟨route, hmem, by simpa using hkind, rfl⟩, rfl,
              ⟨ids.contact row.rowNumber, at_, trim draft.fullName, false⟩, .inr ?_, ?_, rfl⟩, rfl⟩
            · unfold newContact
              rw [hrow]
              rfl
            · simp [addressOf, newContact, hrow]

end Capture

/-! ## A row as it is read -/

section Read

variable {r : ImportRuntime} {rowNumber : Nat} {at_ : ImportColumn → JsString}

/-- What a read row keeps, whether or not something is wrong with it. -/
structure Read (r : ImportRuntime) (draft : RowDraft) : Prop where
  named : Named draft
  name : draft.issues = [] → (trim draft.firm.name).length ≠ 0
  shape : ∀ route ∈ draft.routes, routeShape route = true
  contact : ∀ contact, draft.contact = some contact → (trim contact.fullName).length ≠ 0
  email : ∀ route ∈ draft.routes, route.kind = .email →
    (draft.routes.find? fun route => route.kind = .email) = some route ∧
      r.toLowerCase (trim route.value) = route.value

theorem collapseSpaces_mem {text : JsString} {c : UInt16} (h : c ∈ text) (hc : isSpace c = false) :
    c ∈ collapseSpaces text := by
  induction text with
  | nil => cases h
  | cons first text ih =>
    unfold collapseSpaces
    rcases List.mem_cons.1 h with rfl | h
    · rw [if_neg (by simp [hc])]
      exact List.mem_cons_self
    · split
      · split
        · exact ih h
        · exact List.mem_cons_of_mem _ (ih h)
      · exact List.mem_cons_of_mem _ (ih h)

theorem trim_length_ne_zero {text : JsString} {c : UInt16} (h : c ∈ text) (hc : isSpace c = false) :
    (trim text).length ≠ 0 := by
  intro hzero
  have hnil : text.rdropWhile isSpace = [] := trim_eq_nil_iff.1 (List.length_eq_zero_iff.1 hzero)
  have hspace := List.rdropWhile_eq_nil_iff.1 hnil c h
  rw [hc] at hspace
  cases hspace

/-- A trimmed text that is not empty starts with a character. -/
theorem exists_mem_trim {text : JsString} (h : (trim text).length ≠ 0) :
    ∃ c ∈ trim text, isSpace c = false := by
  by_contra hnone
  have hall : ∀ c ∈ trim text, isSpace c = true := fun c hc => by
    by_contra hspace
    exact hnone ⟨c, hc, by simpa using hspace⟩
  have hnil : trim (trim text) = [] := trim_eq_nil_iff.2 (List.rdropWhile_eq_nil_iff.2 hall)
  rw [trim_trim] at hnil
  exact h (List.length_eq_zero_iff.2 hnil)

theorem collapseSpaces_nil_of {text : JsString} (h : text.length = 0) : collapseSpaces text = [] := by
  rw [List.length_eq_zero_iff.1 h]
  rfl

theorem draftOf_issues_nameless (h : (draftOf r rowNumber at_).firm.name.length = 0) :
    ⟨.firmName, .firmNameMissing⟩ ∈ (draftOf r rowNumber at_).issues := by
  change (collapseSpaces (trim (at_ .firmName))).length = 0 at h
  unfold draftOf
  simp [h]

theorem emailShape_not_isSpace {text : JsString} (h : emailShape text = true) :
    ∀ c ∈ text, isSpace c = false := by
  unfold emailShape at h
  simp only [Bool.and_eq_true, List.all_eq_true, Bool.not_eq_true'] at h
  exact h.2

/-- What every row keeps that is read from cells. -/
theorem draftOf_read (hlower : ∀ text, r.toLowerCase (r.toLowerCase text) = r.toLowerCase text) :
    Read r (draftOf r rowNumber at_) := by
  have hmissing := @draftOf_issues_nameless r rowNumber at_
  have hnamed : Named (draftOf r rowNumber at_) := by
    intro hzero hissues
    have hmem := hmissing hzero
    rw [hissues] at hmem
    cases hmem
  constructor
  · exact hnamed
  · intro hissues
    have hname : (collapseSpaces (trim (at_ .firmName))).length ≠ 0 := fun hzero => hnamed hzero hissues
    have hcell : (trim (at_ .firmName)).length ≠ 0 := fun hzero => hname (by
      rw [collapseSpaces_nil_of hzero]
      rfl)
    obtain ⟨c, hc, hspace⟩ := exists_mem_trim hcell
    exact trim_length_ne_zero (collapseSpaces_mem hc hspace) hspace
  · intro route hroute
    change route ∈ (emailRoutes _).1 ++ (phoneRoutes _).1 at hroute
    rcases List.mem_append.1 hroute with hroute | hroute
    · obtain ⟨hshape, rfl⟩ := mem_emailRoutes.1 hroute
      exact (Bool.and_eq_true_iff.1 hshape).1
    · obtain ⟨canonical, hcanonical, rfl⟩ := mem_phoneRoutes.1 hroute
      show e164Shape canonical = true
      unfold canonicalE164 at hcanonical
      dsimp only at hcanonical
      split at hcanonical
      · cases hcanonical
      · exact (Option.filter_eq_some_iff.1 hcanonical).2
  · intro contact hcontact
    change (if (trim (at_ .contactName)).length = 0 then none else some _) = some contact at hcontact
    split at hcontact
    · cases hcontact
    · next hlength =>
      cases hcontact
      show (trim (trim (at_ .contactName))).length ≠ 0
      rw [trim_trim]
      exact hlength
  · intro route hroute hkind
    change route ∈ (emailRoutes _).1 ++ (phoneRoutes _).1 at hroute
    rcases List.mem_append.1 hroute with hroute | hroute
    · obtain ⟨hshape, rfl⟩ := mem_emailRoutes.1 hroute
      constructor
      · show ((emailRoutes _).1 ++ (phoneRoutes _).1).find? _ = _
        have hemail : (emailRoutes (r.toLowerCase (trim (at_ .contactEmail)))).1 =
            [⟨.email, r.toLowerCase (trim (at_ .contactEmail))⟩] := by
          unfold emailRoutes
          rw [if_neg (emailShape_ne_nil (Bool.and_eq_true_iff.1 hshape).1), if_pos hshape]
        rw [hemail]
        rfl
      · show r.toLowerCase (trim (r.toLowerCase _)) = r.toLowerCase _
        have htrim : trim (r.toLowerCase (trim (at_ .contactEmail))) =
            r.toLowerCase (trim (at_ .contactEmail)) :=
          Texts.strip_of_forall (emailShape_not_isSpace (Bool.and_eq_true_iff.1 hshape).1)
        rw [htrim, hlower]
    · obtain ⟨canonical, -, rfl⟩ := mem_phoneRoutes.1 hroute
      cases hkind

end Read

/-! ## A placed row -/

section Placed

variable {r : ImportRuntime} {owners : Uuid → Bool} {index : WorkspaceIndex} {state : FileState}
  {draft : RowDraft} {drafts : List RowDraft} {row : ImportPreviewRow}

/-- What the commit of a placed row can rely on. -/
structure Placed (r : ImportRuntime) (owners : Uuid → Bool) (index : WorkspaceIndex)
    (row : ImportPreviewRow) : Prop where
  issues : row.issues = []
  name : (trim row.firm.name).length ≠ 0
  shape : ∀ route ∈ row.routes, routeShape route = true
  contact : Nameable row
  owner : ∀ owner, row.firm.ownerUserId = some owner → owners owner = true
  email : ∀ route ∈ row.routes, route.kind = .email →
    (row.routes.find? fun route => route.kind = .email) = some route ∧
      r.toLowerCase (trim route.value) = route.value
  found : row.outcome = .create ∧ row.match_ = none ∨
    row.outcome = .attach ∧ ∃ found key, row.match_ = some found ∧ row.key r = some key ∧
      ∀ firmId name matchedOn, found = .existing firmId name matchedOn →
        ∃ candidate ∈ index.firms, candidate.id = firmId

theorem classifyRow_owner (h : (classifyRow r owners index state draft).issues = []) {owner : Uuid}
    (howner : draft.firm.ownerUserId = some owner) : owners owner = true := by
  by_contra hnot
  have hissue : ⟨.ownerUserId, .ownerUnknown⟩ ∈ (classifyRow r owners index state draft).issues := by
    show _ ∈ draft.issues ++ (if draft.firm.ownerUserId.any fun owner => !owners owner then
      [⟨.ownerUserId, .ownerUnknown⟩] else []) ++ _ ++ _
    rw [howner, if_pos (by simpa using hnot)]
    simp
  rw [h] at hissue
  cases hissue

theorem classifyRow_Placed (hread : Read r draft)
    (h : (classifyRow r owners index state draft).placed = true) :
    Placed r owners index (classifyRow r owners index state draft) := by
  have hissues : (classifyRow r owners index state draft).issues = [] := rowOf_placed.1 h
  have hdraft : draft.issues = [] := by
    have happend := hissues
    change draft.issues ++ _ ++ _ ++ _ = [] at happend
    simp only [List.append_eq_nil_iff] at happend
    exact happend.1.1.1
  refine ⟨hissues, hread.name hdraft, hread.shape, hread.contact, fun owner howner =>
    classifyRow_owner hissues howner, hread.email, ?_⟩
  rcases placed_cases hread.named h with ⟨hcreate, hmatch, -⟩ | ⟨hattach, found, hmatch, hfound, key, hkey, -⟩
  · exact .inl ⟨hcreate, hmatch⟩
  · refine .inr ⟨hattach, found, key, hmatch, hkey, ?_⟩
    rintro firmId name matchedOn rfl
    rcases firmMatch_some hfound with ⟨candidate, hcandidate, on, heq⟩ | ⟨file, on, heq, -⟩
    · cases heq
      exact ⟨candidate, hcandidate, rfl⟩
    · cases heq

/-- What a row's contact is known by: the row's own key, and the name of someone with an address. -/
theorem Placed.writes (h : Placed r owners index row) {key : ContactKey} (hkey : key ∈ writes r row) :
    row.key r = some key ∨ (∃ address, row.key r = some (.email address)) ∧
      ∃ contact, row.contact = some contact ∧ key = .name (firmNameKey r contact.fullName) := by
  unfold Import.writes at hkey
  unfold ImportPreviewRow.key contactKey
  cases hcontact : row.contact with
  | none =>
    rw [hcontact] at hkey
    cases hkey
  | some contact =>
    rw [hcontact] at hkey
    rcases List.mem_cons.1 hkey with rfl | hkey
    · cases hemail : row.routes.find? fun route => route.kind = .email with
      | none => exact .inl rfl
      | some email => exact .inr ⟨⟨email.value, rfl⟩, contact, rfl, rfl⟩
    · obtain ⟨route, hroute, rfl⟩ := List.mem_map.1 hkey
      obtain ⟨hmem, hkind⟩ := List.mem_filter.1 hroute
      obtain ⟨hfind, hvalue⟩ := h.email route hmem (by simpa using hkind)
      left
      rw [hfind, hvalue]
      rfl

/-- The name is always written. -/
theorem name_mem_writes {contact : ImportContactDraft} (h : row.contact = some contact) :
    .name (firmNameKey r contact.fullName) ∈ writes r row := by
  unfold writes
  rw [h]
  exact List.mem_cons_self

end Placed

/-! ## The commit of a placed row -/

/-- A firm whose calls are being prepared takes no number. -/
def ImportPreviewRow.blocked (ws : Workspace) (row : ImportPreviewRow) : Bool :=
  match row.match_ with
  | some (.existing firmId _ _) => firmId ∈ ws.prepared && row.routes.any fun route => route.kind = .phone
  | _ => false

/-- The firm that a target is. -/
def Target.firmId (ids : NewIds) : Target → Uuid
  | .firm firmId => firmId
  | .row rowNumber => ids.firm rowNumber

section Commit

variable {r : ImportRuntime} {actor : Actor} {ids : NewIds} {ws ws' : Workspace} {firmId : Uuid}
  {index : WorkspaceIndex} {owners : Uuid → Bool} {row : ImportPreviewRow} {firm : WorkspaceFirm}
  {committed : Nat → Option Uuid}

/-- A placed row passes the checks before the first write. -/
theorem commitImportRow_placed (hactor : decideAdminOnly actor = none)
    (h : Placed r owners index row) (hplaced : row.placed = true) :
    commitImportRow r actor ids committed row ws =
      match row.match_ with
      | none => captureNew r actor ids row ws
      | some (.existing firmId _ _) => captureAt r actor ids row firmId ws
      | some (.inFile n _) =>
        match committed n with
        | none => captureNew r actor ids row ws
        | some firmId => captureAt r actor ids row firmId ws := by
  have hshape : (row.routes.find? fun route => !routeShape route) = none := by
    rw [List.find?_eq_none]
    intro route hroute
    simp [h.shape route hroute]
  unfold commitImportRow captureRow
  rw [hactor, h.issues]
  simp only [hplaced, Bool.not_true, Bool.false_eq_true, if_false, if_neg h.name, hshape]
  cases row.match_ with
  | none => rfl
  | some found =>
    cases found with
    | existing firmId name matchedOn => rfl
    | inFile n matchedOn => rfl

/-- A row's firm has been added, and nothing else but its alias. -/
structure Created (ids : NewIds) (row : ImportPreviewRow) (ws ws' : Workspace) : Prop where
  firms : ∃ firm : WorkspaceFirm, firm.id = ids.firm row.rowNumber ∧ firm.merged = false ∧
    ws'.firms.rows = ws.firms.rows ++ [firm]
  contacts : ws'.contacts = ws.contacts
  addresses : ws'.addresses = ws.addresses
  members : ws'.members = ws.members
  prepared : ws'.prepared = ws.prepared

theorem createFirm_created {name : JsString} {website externalId assigned : Option JsString}
    (hactor : decideAdminOnly actor = none) (hname : (trim name).length ≠ 0)
    (hassigned : ∀ owner, assigned = some owner → ∃ active, (owner, active) ∈ ws.members)
    (hfresh : ∀ firm ∈ ws.firms, firm.id ≠ ids.firm row.rowNumber) :
    ∃ ws', createFirm actor ws (ids.firm row.rowNumber) name website externalId assigned = .ok ws' ∧
      Created ids row ws ws' := by
  have hmember : (assigned.any fun assignee => ws.members.all fun member => member.1 ≠ assignee) = false := by
    cases assigned with
    | none => rfl
    | some owner =>
      obtain ⟨active, hmem⟩ := hassigned owner rfl
      by_contra hall
      simp only [Option.any_some, Bool.not_eq_false, List.all_eq_true, decide_eq_true_eq] at hall
      exact hall _ hmem rfl
  unfold createFirm
  cases hinsert : ws.firms.insert? ⟨ids.firm row.rowNumber, trim name, website, assigned, false⟩ with
  | none =>
    obtain ⟨firm, hfirm, hid⟩ := Table.insert?_eq_none hinsert
    exact absurd hid (hfresh firm hfirm)
  | some firms =>
    have hrows := (Table.insert?_eq_some hinsert).2
    cases actor with
    | system =>
      simp only [Bool.not_true, Bool.false_eq_true, if_false, if_neg hname, hmember]
      exact ⟨_, rfl, ⟨⟨_, rfl, rfl, hrows⟩, rfl, rfl, rfl, rfl⟩⟩
    | user userId role =>
      cases role with
      | admin =>
        simp only [Bool.not_true, Bool.false_eq_true, if_false, if_neg hname, hmember]
        exact ⟨_, rfl, ⟨⟨_, rfl, rfl, hrows⟩, rfl, rfl, rfl, rfl⟩⟩
      | salesperson => cases hactor

/-- A created row is committed. -/
theorem captureNew_created (hactor : decideAdminOnly actor = none)
    (hmember : ∀ id, actor.userId = some id → ∃ active, (id, active) ∈ ws.members)
    (hplaced : Placed r ws.owners index row)
    (hfresh : ∀ firm ∈ ws.firms, firm.id ≠ ids.firm row.rowNumber)
    (hprepared : ids.firm row.rowNumber ∉ ws.prepared) :
    ∃ done ws₁ ws₂, captureNew r actor ids row ws = .ok (done, ws₂) ∧
      done.firmId = ids.firm row.rowNumber ∧ Created ids row ws ws₁ ∧
      Captured r ids row (ids.firm row.rowNumber) ws₁ ws₂ := by
  have howner : ∀ owner, (row.firm.ownerUserId <|> actor.userId) = some owner →
      ∃ active, (owner, active) ∈ ws.members := by
    intro owner howner
    cases hrow : row.firm.ownerUserId with
    | none =>
      rw [hrow] at howner
      exact hmember owner howner
    | some id =>
      rw [hrow] at howner
      cases howner
      exact ⟨true, by simpa [Workspace.owners] using hplaced.owner _ hrow⟩
  obtain ⟨ws₁, hcreate, hcreated⟩ := @createFirm_created actor ids ws row row.firm.name
    row.firm.website row.firm.externalId _ hactor hplaced.name howner hfresh
  obtain ⟨firm, hid, hmerged, hfirms⟩ := hcreated.firms
  have hactive : ws₁.activeFirm (ids.firm row.rowNumber) = some firm := by
    refine activeFirm_eq_some.2 ⟨?_, hid, hmerged⟩
    rw [← Table.mem_rows, hfirms]
    simp
  have hnot : ids.firm row.rowNumber ∉ ws₁.prepared := by
    rw [hcreated.prepared]
    exact hprepared
  have hzone : resolveZoneForFirm actor ws₁ (ids.firm row.rowNumber) = .ok ws₁ := by
    unfold resolveZoneForFirm
    rw [if_neg hnot, loadFirmForUpdate_active hactor hactive]
    rfl
  obtain ⟨done, ws₂, hcapture, hdone, hcaptured⟩ := captureContact_captured hactor hactive
    hplaced.contact (fun hmem => absurd hmem hnot) true
  refine ⟨done, ws₁, ws₂, ?_, hdone, hcreated, hcaptured⟩
  unfold captureNew
  simp only [hcreate, hzone, hcapture]
  rfl

/-- What becomes of an attached row: a duplicate, a number that is not taken, or a contact. -/
theorem captureAt_cases (hactor : decideAdminOnly actor = none) (hplaced : Placed r owners index row)
    (hactive : ws.activeFirm firmId = some firm) {key : ContactKey} (hkey : row.key r = some key) :
    (contactAlreadyAt r ws firmId key = true ∧ ∃ refusal, captureAt r actor ids row firmId ws = .error refusal ∧
      refusal.reason = .issue .duplicateInWorkspace) ∨
    contactAlreadyAt r ws firmId key = false ∧
      ((firmId ∈ ws.prepared ∧ (∃ route ∈ row.routes, route.kind = .phone) ∧
        ∃ refusal, captureAt r actor ids row firmId ws = .error refusal ∧
          refusal.reason = .invalidInput) ∨
      ¬ (firmId ∈ ws.prepared ∧ ∃ route ∈ row.routes, route.kind = .phone) ∧
        ∃ done ws', captureAt r actor ids row firmId ws = .ok (done, ws') ∧ done.firmId = firmId ∧
          Captured r ids row firmId ws ws') := by
  unfold captureAt
  rw [hkey]
  dsimp only
  cases hthere : contactAlreadyAt r ws firmId key with
  | true => exact .inl ⟨rfl, _, rfl, rfl⟩
  | false =>
    refine .inr ⟨rfl, ?_⟩
    simp only [Bool.false_eq_true, if_false]
    by_cases hblocked : firmId ∈ ws.prepared ∧ ∃ route ∈ row.routes, route.kind = .phone
    · left
      rw [captureContact_prepared hactor hactive hplaced.contact hblocked.1 hblocked.2]
      exact ⟨hblocked.1, hblocked.2, _, rfl, rfl⟩
    · right
      obtain ⟨done, ws', hcapture, hdone, hcaptured⟩ := captureContact_captured (r := r) hactor hactive
        hplaced.contact (fun hmem route hroute hkind => hblocked ⟨hmem, route, hroute, hkind⟩) false
      rw [hcapture]
      exact ⟨hblocked, done, ws', rfl, hdone, hcaptured⟩

end Commit

/-! ## The rows so far -/

/-- Ids that nothing in the workspace has had. -/
structure Fresh (ids : NewIds) (ws : Workspace) : Prop where
  firm : Function.Injective ids.firm
  contact : Function.Injective ids.contact
  firms : ∀ n, ∀ firm ∈ ws.firms, firm.id ≠ ids.firm n
  people : ∀ n, ∀ contact ∈ ws.contacts, contact.firmId ≠ ids.firm n
  addresses : ∀ n, ∀ address ∈ ws.addresses, address.firmId ≠ ids.firm n ∧
    address.contactId ≠ some (ids.contact n)
  prepared : ∀ n, ids.firm n ∉ ws.prepared

/-- Of two placed rows for one firm, the first writes someone with an address, and the second names
that person without one. -/
structure Repeats (r : ImportRuntime) (ws : Workspace) (a b : ImportPreviewRow) : Prop where
  placed : a.placed = true ∧ b.placed = true
  target : a.target = b.target
  writes : a.blocked ws = false
  address : ∃ address, a.key r = some (.email address)
  name : ∃ contact, a.contact = some contact ∧ b.key r = some (.name (firmNameKey r contact.fullName))

def NoDuplicate (progress : Progress) : Prop :=
  ∀ refusal ∈ progress.refusals, refusal.reason ≠ .issue .duplicateInWorkspace

/-- What the commit of the rows so far has written to the workspace. -/
structure Written (r : ImportRuntime) (ids : NewIds) (ws : Workspace) (rows : List ImportPreviewRow)
    (progress : Progress) : Prop where
  kept : ∀ firm ∈ ws.firms, firm ∈ progress.ws.firms
  made : ∀ row ∈ rows, row.outcome = .create →
    progress.committed row.rowNumber = some (ids.firm row.rowNumber) ∧
      ∃ firm, progress.ws.activeFirm (ids.firm row.rowNumber) = some firm
  firms : ∀ firm ∈ progress.ws.firms, firm ∈ ws.firms ∨ ∃ row ∈ rows, firm.id = ids.firm row.rowNumber
  count : progress.ws.firms.rows.length =
    ws.firms.rows.length + (rows.filter fun row => row.outcome = .create).length
  members : progress.ws.members = ws.members
  prepared : progress.ws.prepared = ws.prepared
  addresses : ∀ address ∈ progress.ws.addresses, ∀ n, address.contactId = some (ids.contact n) →
    ∃ row ∈ rows, row.rowNumber = n
  upper : ∀ at_ key, contactAlreadyAt r progress.ws at_ key = true →
    contactAlreadyAt r ws at_ key = true ∨ ∃ a ∈ rows, a.placed = true ∧ a.blocked ws = false ∧
      at_ = a.target.firmId ids ∧ key ∈ writes r a

/-- And when none of them was refused as a duplicate. -/
structure Committed (r : ImportRuntime) (ids : NewIds) (ws : Workspace) (rows : List ImportPreviewRow)
    (progress : Progress) : Prop extends Written r ids ws rows progress where
  lower : NoDuplicate progress → ∀ a ∈ rows, a.placed = true → a.blocked ws = false →
    ∀ key ∈ writes r a, contactAlreadyAt r progress.ws (a.target.firmId ids) key = true
  refused : NoDuplicate progress ↔ rows.Pairwise fun a b => ¬ Repeats r ws a b

section Committed

variable {r : ImportRuntime} {actor : Actor} {ids : NewIds} {ws ws₁ ws₂ : Workspace}
  {rows : List ImportPreviewRow} {row : ImportPreviewRow} {progress progress' : Progress}
  {state state' : FileState}

theorem contactAlreadyAt_congr (hcontacts : ws₁.contacts = ws.contacts)
    (haddresses : ws₁.addresses = ws.addresses) (at_ : Uuid) (key : ContactKey) :
    contactAlreadyAt r ws₁ at_ key = contactAlreadyAt r ws at_ key := by
  unfold contactAlreadyAt Workspace.people Workspace.addressesAt
  rw [hcontacts, haddresses]

/-- Nobody is at a firm that is not there yet. -/
theorem Fresh.nobody (h : Fresh ids ws) (n : Nat) (key : ContactKey) :
    contactAlreadyAt r ws (ids.firm n) key = false := by
  by_contra hthere
  rw [Bool.not_eq_false] at hthere
  cases key with
  | name key =>
    obtain ⟨contact, hcontact, -⟩ := List.any_eq_true.1 hthere
    obtain ⟨hmem, hfirm⟩ := List.mem_filter.1 hcontact
    rw [Bool.and_eq_true, decide_eq_true_eq] at hfirm
    exact h.people n contact hmem hfirm.1
  | email address =>
    obtain ⟨address, haddress, -⟩ := List.any_eq_true.1 hthere
    obtain ⟨hmem, hfirm⟩ := List.mem_filter.1 haddress
    rw [Bool.and_eq_true, decide_eq_true_eq] at hfirm
    exact (h.addresses n address hmem).1 hfirm.1

/-- The firm of a target in the workspace is none that the file adds. -/
theorem Fresh.target_inj (h : Fresh ids ws) {a b : Target}
    (ha : ∀ firmId, a = .firm firmId → ∃ firm ∈ ws.firms, firm.id = firmId)
    (hb : ∀ firmId, b = .firm firmId → ∃ firm ∈ ws.firms, firm.id = firmId)
    (heq : a.firmId ids = b.firmId ids) : a = b := by
  cases a with
  | firm firmId =>
    cases b with
    | firm firmId' => exact congrArg Target.firm heq
    | row n =>
      obtain ⟨firm, hfirm, hid⟩ := ha firmId rfl
      exact absurd (hid.trans heq) (h.firms n firm hfirm)
  | row n =>
    cases b with
    | firm firmId =>
      obtain ⟨firm, hfirm, hid⟩ := hb firmId rfl
      exact absurd (hid.trans heq.symm) (h.firms n firm hfirm)
    | row n' => exact congrArg Target.row (h.firm heq)

theorem Placed.target (h : Placed r ws.owners (workspaceIndex r ws) row) {firmId : Uuid}
    (htarget : row.target = .firm firmId) : ∃ firm, ws.activeFirm firmId = some firm := by
  unfold ImportPreviewRow.target at htarget
  rcases h.found with ⟨-, hmatch⟩ | ⟨-, found, key, hmatch, -, hexisting⟩
  · rw [hmatch] at htarget
    cases htarget
  · rw [hmatch] at htarget
    cases found with
    | inFile n matchedOn => cases htarget
    | existing id name matchedOn =>
      cases htarget
      obtain ⟨candidate, hcandidate, hid⟩ := hexisting _ name matchedOn rfl
      rw [← hid]
      exact index_firms hcandidate

theorem Placed.target_mem (h : Placed r ws.owners (workspaceIndex r ws) row) {firmId : Uuid}
    (htarget : row.target = .firm firmId) : ∃ firm ∈ ws.firms, firm.id = firmId := by
  obtain ⟨firm, hfirm⟩ := h.target htarget
  obtain ⟨hmem, hid, -⟩ := activeFirm_eq_some.1 hfirm
  exact ⟨firm, hmem, hid⟩

/-- Whoever is there when a row is attached was written by a row that it repeats. -/
theorem Committed.repeats (h : Committed r ids ws rows progress) (hfresh : Fresh ids ws)
    (hclassified : Classified r (workspaceIndex r ws) (rows ++ [row]) state)
    (hrows : ∀ a ∈ rows ++ [row], a.placed = true → Placed r ws.owners (workspaceIndex r ws) a)
    (hplaced : row.placed = true) {key : ContactKey} (hkey : row.key r = some key)
    (hthere : contactAlreadyAt r progress.ws (row.target.firmId ids) key = true) :
    ∃ a ∈ rows, Repeats r ws a row := by
  rcases h.upper _ _ hthere with hold | ⟨a, ha, haPlaced, hblocked, htarget, hwrites⟩
  · exfalso
    cases hrow : row.target with
    | row n =>
      rw [hrow] at hold
      have hnobody := @Fresh.nobody r ids ws hfresh n key
      change contactAlreadyAt r ws (ids.firm n) key = true at hold
      rw [hold] at hnobody
      cases hnobody
    | firm firmId =>
      rw [hrow] at hold
      exact hclassified.workspace row (by simp) hplaced firmId hrow key hkey
        ((mem_contacts_iff firmId key).2 hold)
  · have haMem : a ∈ rows ++ [row] := List.mem_append_left _ ha
    have htargets : a.target = row.target := hfresh.target_inj
      (fun firmId h => (hrows a haMem haPlaced).target_mem h)
      (fun firmId h => (hrows row (by simp) hplaced).target_mem h) htarget.symm
    rcases (hrows a haMem haPlaced).writes hwrites with hsame | ⟨haddress, contact, hcontact, rfl⟩
    · have honce := (List.pairwise_append.1 hclassified.once).2.2 a ha row (by simp)
      exact absurd hkey (honce haPlaced hplaced htargets key hsame)
    · exact ⟨a, ha, ⟨haPlaced, hplaced⟩, htargets, hblocked, haddress, contact, hcontact, hkey⟩

/-- A row that is repeated has written its contact. -/
theorem Committed.there (h : Committed r ids ws rows progress) (hnone : NoDuplicate progress)
    {a : ImportPreviewRow} (ha : a ∈ rows) (hrepeats : Repeats r ws a row) :
    ∃ key, row.key r = some key ∧
      contactAlreadyAt r progress.ws (row.target.firmId ids) key = true := by
  obtain ⟨contact, hcontact, hkey⟩ := hrepeats.name
  refine ⟨_, hkey, ?_⟩
  rw [← hrepeats.target]
  exact h.lower hnone a ha hrepeats.placed.1 hrepeats.writes _ (name_mem_writes hcontact)

theorem pairwise_concat_iff {α : Type} {R : α → α → Prop} {list : List α} {x : α} :
    (list ++ [x]).Pairwise R ↔ list.Pairwise R ∧ ∀ a ∈ list, R a x := by
  rw [List.pairwise_append]
  simp

theorem noDuplicate_append {refusals : List Refused} (h : ∀ refusal ∈ refusals,
    refusal.reason ≠ .issue .duplicateInWorkspace)
    (hrefusals : progress'.refusals = progress.refusals ++ refusals) :
    NoDuplicate progress' ↔ NoDuplicate progress := by
  unfold NoDuplicate
  rw [hrefusals]
  constructor
  · intro hnone refusal hmem
    exact hnone refusal (List.mem_append_left _ hmem)
  · intro hnone refusal hmem
    rcases List.mem_append.1 hmem with hmem | hmem
    · exact hnone refusal hmem
    · exact h refusal hmem

/-- A row that writes nothing. -/
theorem Written.same (h : Written r ids ws rows progress) (hws : progress'.ws = progress.ws)
    (hcommitted : progress'.committed = progress.committed) (hcreate : row.outcome ≠ .create) :
    Written r ids ws (rows ++ [row]) progress' := by
  constructor
  · rw [hws]
    exact h.kept
  · intro a ha haCreate
    rw [hws, hcommitted]
    rcases List.mem_append.1 ha with ha | ha
    · exact h.made a ha haCreate
    · rw [List.mem_singleton.1 ha] at haCreate
      exact absurd haCreate hcreate
  · intro firm hfirm
    rw [hws] at hfirm
    exact (h.firms firm hfirm).imp id fun ⟨a, ha, hid⟩ => ⟨a, List.mem_append_left _ ha, hid⟩
  · rw [hws, h.count]
    simp [hcreate]
  · rw [hws, h.members]
  · rw [hws, h.prepared]
  · intro address haddress n hid
    rw [hws] at haddress
    obtain ⟨a, ha, hnumber⟩ := h.addresses address haddress n hid
    exact ⟨a, List.mem_append_left _ ha, hnumber⟩
  · intro at_ key hthere
    rw [hws] at hthere
    exact (h.upper at_ key hthere).imp id fun ⟨a, ha, hfacts⟩ => ⟨a, List.mem_append_left _ ha, hfacts⟩

/-- A row that writes nothing, and is no duplicate. -/
theorem Committed.skip (h : Committed r ids ws rows progress) {refusals : List Refused}
    (hws : progress'.ws = progress.ws) (hcommitted : progress'.committed = progress.committed)
    (hrefusals : progress'.refusals = progress.refusals ++ refusals)
    (hother : ∀ refusal ∈ refusals, refusal.reason ≠ .issue .duplicateInWorkspace)
    (hcreate : row.outcome ≠ .create) (hblocked : row.placed = true → row.blocked ws = true)
    (hrepeats : NoDuplicate progress → ∀ a ∈ rows, ¬ Repeats r ws a row) :
    Committed r ids ws (rows ++ [row]) progress' := by
  have hnone := noDuplicate_append hother hrefusals
  refine { h.toWritten.same hws hcommitted hcreate with
    lower := ?_
    refused := ?_ }
  · intro hnone' a ha haPlaced haBlocked key hkey
    rw [hws]
    rcases List.mem_append.1 ha with ha | ha
    · exact h.lower (hnone.1 hnone') a ha haPlaced haBlocked key hkey
    · rw [List.mem_singleton.1 ha] at haPlaced haBlocked
      rw [hblocked haPlaced] at haBlocked
      cases haBlocked
  · rw [hnone, h.refused, pairwise_concat_iff]
    exact ⟨fun hpairs => ⟨hpairs, hrepeats (h.refused.2 hpairs)⟩, fun hpairs => hpairs.1⟩

/-- A row that is refused as a duplicate repeats one before it. -/
theorem Committed.duplicate (h : Committed r ids ws rows progress) {refusal : Refused}
    (hws : progress'.ws = progress.ws) (hcommitted : progress'.committed = progress.committed)
    (hrefusals : progress'.refusals = progress.refusals ++ [refusal])
    (hduplicate : refusal.reason = .issue .duplicateInWorkspace) (hcreate : row.outcome ≠ .create)
    (hrepeats : ∃ a ∈ rows, Repeats r ws a row) :
    Committed r ids ws (rows ++ [row]) progress' := by
  have hsome : ¬ NoDuplicate progress' := by
    intro hnone
    refine hnone refusal ?_ hduplicate
    rw [hrefusals]
    simp
  refine { h.toWritten.same hws hcommitted hcreate with
    lower := fun hnone => absurd hnone hsome
    refused := ?_ }
  obtain ⟨a, ha, hrow⟩ := hrepeats
  refine iff_of_false hsome fun hpairs => ?_
  exact (pairwise_concat_iff.1 hpairs).2 a ha hrow

/-- The workspace in which a row's contact is written: with the row's firm, if it creates one. -/
structure Grown (ids : NewIds) (row : ImportPreviewRow) (ws ws₁ : Workspace) : Prop where
  kept : ∀ firm ∈ ws.firms, firm ∈ ws₁.firms
  firms : ∀ firm ∈ ws₁.firms, firm ∈ ws.firms ∨ firm.id = ids.firm row.rowNumber
  count : ws₁.firms.rows.length = ws.firms.rows.length + if row.outcome = .create then 1 else 0
  made : row.outcome = .create → ∃ firm, ws₁.activeFirm (ids.firm row.rowNumber) = some firm
  contacts : ws₁.contacts = ws.contacts
  addresses : ws₁.addresses = ws.addresses
  members : ws₁.members = ws.members
  prepared : ws₁.prepared = ws.prepared

theorem Grown.refl (hcreate : row.outcome ≠ .create) : Grown ids row ws ws where
  kept _ h := h
  firms _ h := .inl h
  count := by simp [hcreate]
  made h := absurd h hcreate
  contacts := rfl
  addresses := rfl
  members := rfl
  prepared := rfl

theorem Created.grown (h : Created ids row ws ws₁) (hcreate : row.outcome = .create) :
    Grown ids row ws ws₁ := by
  obtain ⟨firm, hid, hmerged, hfirms⟩ := h.firms
  refine ⟨?_, ?_, ?_, ?_, h.contacts, h.addresses, h.members, h.prepared⟩
  · intro other hother
    rw [← Table.mem_rows, hfirms]
    exact List.mem_append_left _ hother
  · intro other hother
    rw [← Table.mem_rows, hfirms] at hother
    rcases List.mem_append.1 hother with hother | hother
    · exact .inl hother
    · rw [List.mem_singleton.1 hother]
      exact .inr hid
  · rw [hfirms, if_pos hcreate]
    simp
  · intro _
    refine ⟨firm, activeFirm_eq_some.2 ⟨?_, hid, hmerged⟩⟩
    rw [← Table.mem_rows, hfirms]
    simp

/-- A row whose contact is written. -/
theorem Committed.capture (h : Committed r ids ws rows progress) (hfresh : Fresh ids ws)
    (hnumber : ∀ a ∈ rows, a.rowNumber ≠ row.rowNumber) (hgrown : Grown ids row progress.ws ws₁)
    (hcaptured : Captured r ids row (row.target.firmId ids) ws₁ ws₂) (hws : progress'.ws = ws₂)
    (hcommitted : progress'.committed =
      Function.update progress.committed row.rowNumber (some (row.target.firmId ids)))
    (hrefusals : progress'.refusals = progress.refusals)
    (htarget : row.outcome = .create → row.target = .row row.rowNumber) (hplaced : row.placed = true)
    (hblocked : row.blocked ws = false)
    (hrepeats : NoDuplicate progress → ∀ a ∈ rows, ¬ Repeats r ws a row) :
    Committed r ids ws (rows ++ [row]) progress' := by
  have hnone : NoDuplicate progress' ↔ NoDuplicate progress := by
    unfold NoDuplicate
    rw [hrefusals]
  have hnew : ∀ address ∈ ws₁.addresses, address.contactId ≠ some (ids.contact row.rowNumber) := by
    intro address haddress hid
    rw [hgrown.addresses] at haddress
    obtain ⟨a, ha, hsame⟩ := h.addresses address haddress row.rowNumber hid
    exact hnumber a ha hsame
  have hthere : ∀ at_ key, contactAlreadyAt r progress'.ws at_ key = true ↔
      contactAlreadyAt r progress.ws at_ key = true ∨ at_ = row.target.firmId ids ∧ key ∈ writes r row := by
    intro at_ key
    rw [hws, contactAlreadyAt_captured hcaptured hnew,
      contactAlreadyAt_congr hgrown.contacts hgrown.addresses]
  have hfirms : progress'.ws.firms = ws₁.firms := by rw [hws, hcaptured.firms]
  have hkept : ∀ firm ∈ progress.ws.firms, firm ∈ progress'.ws.firms := by
    rw [hfirms]
    exact hgrown.kept
  constructor
  · constructor
    · exact fun firm hfirm => hkept firm (h.kept firm hfirm)
    · intro a ha haCreate
      rw [hcommitted]
      rcases List.mem_append.1 ha with ha | ha
      · obtain ⟨hmade, firm, hfirm⟩ := h.made a ha haCreate
        rw [Function.update_of_ne (hnumber a ha)]
        obtain ⟨hmem, hid, hmerged⟩ := activeFirm_eq_some.1 hfirm
        exact ⟨hmade, firm, activeFirm_eq_some.2 ⟨hkept firm hmem, hid, hmerged⟩⟩
      · rw [List.mem_singleton.1 ha] at haCreate ⊢
        rw [Function.update_self, htarget haCreate]
        refine ⟨rfl, ?_⟩
        rw [activeFirm_congr hfirms]
        exact hgrown.made haCreate
    · intro firm hfirm
      rw [hfirms] at hfirm
      rcases hgrown.firms firm hfirm with hold | hid
      · exact (h.firms firm hold).imp id fun ⟨a, ha, hid⟩ => ⟨a, List.mem_append_left _ ha, hid⟩
      · exact .inr ⟨row, by simp, hid⟩
    · rw [hfirms, hgrown.count, h.count, List.filter_append, List.length_append]
      by_cases hcreate : row.outcome = .create
      · simp [hcreate]
        omega
      · simp [hcreate]
    · rw [hws, hcaptured.members, hgrown.members, h.members]
    · rw [hws, hcaptured.prepared, hgrown.prepared, h.prepared]
    · intro address haddress n hid
      rw [hws, hcaptured.addresses, hgrown.addresses] at haddress
      rcases haddress with hold | ⟨route, -, -, rfl⟩
      · obtain ⟨a, ha, hnumbers⟩ := h.addresses address hold n hid
        exact ⟨a, List.mem_append_left _ ha, hnumbers⟩
      · change (newContact ids row _).map WorkspaceContact.id = _ at hid
        unfold newContact at hid
        cases hcontact : row.contact with
        | none =>
          rw [hcontact] at hid
          cases hid
        | some contact =>
          rw [hcontact] at hid
          exact ⟨row, by simp, hfresh.contact (Option.some.inj hid)⟩
    · intro at_ key hat
      rcases (hthere at_ key).1 hat with hold | ⟨rfl, hkey⟩
      · exact (h.upper at_ key hold).imp id fun ⟨a, ha, hfacts⟩ => ⟨a, List.mem_append_left _ ha, hfacts⟩
      · exact .inr ⟨row, by simp, hplaced, hblocked, rfl, hkey⟩
  · intro hnone' a ha haPlaced haBlocked key hkey
    rw [hthere]
    rcases List.mem_append.1 ha with ha | ha
    · exact .inl (h.lower (hnone.1 hnone') a ha haPlaced haBlocked key hkey)
    · rw [List.mem_singleton.1 ha] at hkey ⊢
      exact .inr ⟨rfl, hkey⟩
  · rw [hnone, h.refused, pairwise_concat_iff]
    exact ⟨fun hpairs => ⟨hpairs, hrepeats (h.refused.2 hpairs)⟩, fun hpairs => hpairs.1⟩

theorem Committed.empty (hfresh : Fresh ids ws) :
    Committed r ids ws [] (commitRows r actor ids ws []) where
  kept _ hfirm := hfirm
  made _ hrow := absurd hrow List.not_mem_nil
  firms _ hfirm := .inl hfirm
  count := rfl
  members := rfl
  prepared := rfl
  addresses address haddress n hid := absurd hid (hfresh.addresses n address haddress).2
  upper _ _ hthere := .inl hthere
  lower _ _ hrow := absurd hrow List.not_mem_nil
  refused := iff_of_true (fun _ hmem => absurd hmem List.not_mem_nil) List.Pairwise.nil

theorem commitRows_concat (rows : List ImportPreviewRow) (row : ImportPreviewRow) :
    commitRows r actor ids ws (rows ++ [row]) =
      (commitRows r actor ids ws rows).commit r actor ids row := by
  unfold commitRows
  rw [List.foldl_append]
  rfl

/-- No row goes to a firm that a later one creates. -/
theorem Classified.not_target (h : Classified r index rows state)
    (hnumber : ∀ a ∈ rows, a.rowNumber ≠ row.rowNumber) (htarget : row.target = .row row.rowNumber)
    (ws : Workspace) : ∀ a ∈ rows, ¬ Repeats r ws a row := by
  intro a ha hrepeats
  obtain ⟨created, hcreated, -, hsame⟩ :=
    h.targets a ha hrepeats.placed.1 row.rowNumber (hrepeats.target.trans htarget)
  exact hnumber created hcreated hsame

/-- An attached row's firm is there. -/
theorem Committed.attached (h : Committed r ids ws rows progress) (hfresh : Fresh ids ws)
    (hactor : decideAdminOnly actor = none)
    (hclassified : Classified r (workspaceIndex r ws) (rows ++ [row]) state)
    (hrow : Placed r ws.owners (workspaceIndex r ws) row) (hplaced : row.placed = true)
    {found : ImportFirmMatch} (hmatch : row.match_ = some found) :
    commitImportRow r actor ids progress.committed row progress.ws =
        captureAt r actor ids row (row.target.firmId ids) progress.ws ∧
      (∃ firm, progress.ws.activeFirm (row.target.firmId ids) = some firm) ∧
      (row.blocked ws = true ↔ row.target.firmId ids ∈ progress.ws.prepared ∧
        ∃ route ∈ row.routes, route.kind = .phone) := by
  have hcommit := @commitImportRow_placed r actor ids progress.ws _ _ row progress.committed hactor hrow
    hplaced
  rw [hmatch] at hcommit
  have htarget : row.target = found.target := by
    unfold ImportPreviewRow.target
    rw [hmatch]
  cases found with
  | existing firmId name matchedOn =>
    rw [htarget, hcommit, h.prepared]
    refine ⟨rfl, ?_, ?_⟩
    · obtain ⟨firm, hfirm⟩ := hrow.target htarget
      obtain ⟨hmem, hid, hmerged⟩ := activeFirm_eq_some.1 hfirm
      exact ⟨firm, activeFirm_eq_some.2 ⟨h.kept firm hmem, hid, hmerged⟩⟩
    · unfold ImportPreviewRow.blocked
      rw [hmatch]
      simp [ImportFirmMatch.target, Target.firmId]
  | inFile n matchedOn =>
    obtain ⟨created, hcreated, hcreate, rfl⟩ := hclassified.earlier rows row [] rfl n matchedOn hmatch
    obtain ⟨hmade, hactive⟩ := h.made created hcreated hcreate
    rw [htarget, hcommit, h.prepared]
    refine ⟨?_, hactive, ?_⟩
    · simp only [hmade]
      rfl
    · unfold ImportPreviewRow.blocked
      rw [hmatch]
      exact iff_of_false (by simp) fun hblocked => hfresh.prepared _ hblocked.1

/-- What the commit of one row keeps. -/
theorem Committed.step (h : Committed r ids ws rows progress) (hfresh : Fresh ids ws)
    (hactor : decideAdminOnly actor = none)
    (hmember : ∀ id, actor.userId = some id → ∃ active, (id, active) ∈ ws.members)
    (hfront : Classified r (workspaceIndex r ws) rows state)
    (hclassified : Classified r (workspaceIndex r ws) (rows ++ [row]) state')
    (hrows : ∀ a ∈ rows ++ [row], a.placed = true → Placed r ws.owners (workspaceIndex r ws) a)
    (hnumber : ∀ a ∈ rows, a.rowNumber ≠ row.rowNumber) :
    Committed r ids ws (rows ++ [row]) (progress.commit r actor ids row) := by
  unfold Progress.commit
  by_cases hplaced : row.placed = true
  · rw [if_pos hplaced]
    have hrow := hrows row (by simp) hplaced
    rcases hrow.found with ⟨hcreate, hmatch⟩ | ⟨hattach, found, key, hmatch, hkey, -⟩
    · have htarget : row.target = .row row.rowNumber := by
        unfold ImportPreviewRow.target
        rw [hmatch]
      have howners : progress.ws.owners = ws.owners := by
        unfold Workspace.owners
        rw [h.members]
      have hnew : ∀ firm ∈ progress.ws.firms, firm.id ≠ ids.firm row.rowNumber := by
        intro firm hfirm hid
        rcases h.firms firm hfirm with hold | ⟨a, ha, hsame⟩
        · exact hfresh.firms _ firm hold hid
        · exact hnumber a ha (hfresh.firm (hsame.symm.trans hid))
      obtain ⟨done, ws₁, ws₂, hcapture, hdone, hcreated, hcaptured⟩ := @captureNew_created r actor ids
        progress.ws (workspaceIndex r ws) row hactor (h.members ▸ hmember) (howners ▸ hrow) hnew
        (h.prepared ▸ hfresh.prepared _)
      have hcommit := @commitImportRow_placed r actor ids progress.ws _ _ row progress.committed hactor
        hrow hplaced
      rw [hmatch] at hcommit
      rw [hcommit, hcapture]
      refine h.capture hfresh hnumber (hcreated.grown hcreate) (htarget ▸ hcaptured) rfl ?_ rfl
        (fun _ => htarget) hplaced ?_ fun _ => hfront.not_target hnumber htarget ws
      · show Function.update progress.committed row.rowNumber (some done.firmId) = _
        rw [htarget, hdone]
        rfl
      · unfold ImportPreviewRow.blocked
        rw [hmatch]
    · have hcreate : row.outcome ≠ .create := by
        rw [hattach]
        exact nofun
      obtain ⟨hcommit, ⟨firm, hactive⟩, hblocked⟩ :=
        h.attached hfresh hactor hclassified hrow hplaced hmatch
      -- Nobody repeats a row that finds nobody there.
      have hnone : contactAlreadyAt r progress.ws (row.target.firmId ids) key = false →
          NoDuplicate progress → ∀ a ∈ rows, ¬ Repeats r ws a row := by
        intro hnobody hnone a ha hrepeats
        obtain ⟨key', hkey', hthere⟩ := h.there hnone ha hrepeats
        rw [hkey, Option.some.injEq] at hkey'
        rw [← hkey', hnobody] at hthere
        cases hthere
      rw [hcommit]
      rcases @captureAt_cases r actor ids progress.ws _ _ _ row firm hactor hrow hactive key hkey with
        ⟨hthere, refusal, hcapture, hreason⟩ | ⟨hnobody, ⟨hprepared, hphone, refusal, hcapture, hreason⟩ |
          ⟨hfree, done, ws', hcapture, hdone, hcaptured⟩⟩
      · rw [hcapture]
        exact h.duplicate rfl rfl rfl hreason hcreate
          (h.repeats hfresh hclassified hrows hplaced hkey hthere)
      · rw [hcapture]
        refine h.skip rfl rfl rfl ?_ hcreate (fun _ => hblocked.2 ⟨hprepared, hphone⟩) (hnone hnobody)
        intro other hother
        rw [List.mem_singleton.1 hother, hreason]
        exact nofun
      · rw [hcapture]
        refine h.capture hfresh hnumber (Grown.refl hcreate) hcaptured rfl ?_ rfl
          (fun hrowCreate => absurd hrowCreate hcreate) hplaced ?_ (hnone hnobody)
        · show Function.update progress.committed row.rowNumber (some done.firmId) = _
          rw [hdone]
        · rw [← Bool.not_eq_true, hblocked]
          exact hfree
  · rw [if_neg hplaced]
    refine h.skip rfl rfl (List.append_nil _).symm nofun ?_ (fun hrow => absurd hrow hplaced) ?_
    · exact fun hcreate => hplaced (placed_of_create hcreate)
    · exact fun _ a _ hrepeats => hplaced hrepeats.placed.2

end Committed

/-! ## Every file -/

section Files

variable {r : ImportRuntime} {owners : Uuid → Bool} {index : WorkspaceIndex} {actor : Actor}
  {ids : NewIds} {ws : Workspace}

/-- The numbered lines of a file. -/
abbrev Lines.Source := List (Nat × (ImportColumn → JsString))

def draftsOf (r : ImportRuntime) (lines : Lines.Source) : List RowDraft :=
  lines.map fun line => draftOf r line.1 line.2

/-- The rows of a file's preview. -/
def previewOf (r : ImportRuntime) (owners : Uuid → Bool) (index : WorkspaceIndex)
    (lines : Lines.Source) : List ImportPreviewRow :=
  classify r owners index (draftsOf r lines)

theorem draftsOf_rowNumbers (lines : Lines.Source) :
    (draftsOf r lines).map RowDraft.rowNumber = lines.map Prod.fst := by
  unfold draftsOf
  rw [List.map_map]
  rfl

theorem draftsOf_lines (hlower : ∀ text, r.toLowerCase (r.toLowerCase text) = r.toLowerCase text)
    {lines : Lines.Source} (h : (lines.map Prod.fst).Nodup) : Lines (draftsOf r lines) := by
  constructor
  · intro draft hdraft
    obtain ⟨line, -, rfl⟩ := List.mem_map.1 hdraft
    exact (draftOf_read hlower).named
  · rw [draftsOf_rowNumbers]
    exact h

theorem previewOf_nil : previewOf r owners index [] = [] := rfl

theorem previewOf_concat (lines : Lines.Source) (line : Nat × (ImportColumn → JsString)) :
    previewOf r owners index (lines ++ [line]) = previewOf r owners index lines ++
      [classifyRow r owners index (classifyFrom r owners index (draftsOf r lines)).2
        (draftOf r line.1 line.2)] := by
  unfold previewOf classify draftsOf
  rw [List.map_append, List.map_singleton, classifyFrom_concat]

theorem previewOf_Placed (hlower : ∀ text, r.toLowerCase (r.toLowerCase text) = r.toLowerCase text)
    (lines : Lines.Source) : ∀ row ∈ previewOf r owners index lines, row.placed = true →
      Placed r owners index row := by
  induction lines using List.reverseRecOn with
  | nil =>
    intro row hrow
    rw [previewOf_nil] at hrow
    cases hrow
  | append_singleton lines line ih =>
    intro row hrow hplaced
    rw [previewOf_concat] at hrow
    rcases List.mem_append.1 hrow with hrow | hrow
    · exact ih row hrow hplaced
    · rw [List.mem_singleton.1 hrow] at hplaced ⊢
      exact classifyRow_Placed (draftOf_read hlower) hplaced

theorem previewOf_rowNumbers (lines : Lines.Source) :
    (previewOf r owners index lines).map ImportPreviewRow.rowNumber = lines.map Prod.fst := by
  rw [← @draftsOf_rowNumbers r lines]
  exact classifyFrom_rowNumbers r owners index (draftsOf r lines)

/-- What the commit of a file writes and refuses. -/
theorem committed (hlower : ∀ text, r.toLowerCase (r.toLowerCase text) = r.toLowerCase text)
    (hfresh : Fresh ids ws) (hactor : decideAdminOnly actor = none)
    (hmember : ∀ id, actor.userId = some id → ∃ active, (id, active) ∈ ws.members)
    {lines : Lines.Source} (h : (lines.map Prod.fst).Nodup) :
    Committed r ids ws (previewOf r ws.owners (workspaceIndex r ws) lines)
      (commitRows r actor ids ws (previewOf r ws.owners (workspaceIndex r ws) lines)) := by
  induction lines using List.reverseRecOn with
  | nil =>
    rw [previewOf_nil]
    exact Committed.empty hfresh
  | append_singleton lines line ih =>
    have hboth := h
    rw [List.map_append, List.nodup_append] at hboth
    have hfront := @classified r ws.owners (workspaceIndex r ws) _ (draftsOf_lines hlower hboth.1)
    have hall := @classified r ws.owners (workspaceIndex r ws) _ (draftsOf_lines hlower h)
    have hplaced := @previewOf_Placed r ws.owners (workspaceIndex r ws) hlower (lines ++ [line])
    have hbefore := ih hboth.1
    have hnumbers := @previewOf_rowNumbers r ws.owners (workspaceIndex r ws) lines
    have hnumber : (classifyRow r ws.owners (workspaceIndex r ws)
        (classifyFrom r ws.owners (workspaceIndex r ws) (draftsOf r lines)).2
        (draftOf r line.1 line.2)).rowNumber = line.1 := rfl
    change Classified r _ (previewOf r ws.owners (workspaceIndex r ws) (lines ++ [line])) _ at hall
    change Classified r _ (previewOf r ws.owners (workspaceIndex r ws) lines) _ at hfront
    rw [previewOf_concat] at hall hplaced ⊢
    generalize classifyRow r ws.owners (workspaceIndex r ws) _ (draftOf r line.1 line.2) = row
      at hall hplaced hnumber ⊢
    generalize previewOf r ws.owners (workspaceIndex r ws) lines = rows
      at hall hfront hplaced hbefore hnumbers ⊢
    rw [commitRows_concat]
    refine hbefore.step hfresh hactor hmember hfront hall hplaced ?_
    intro a ha hsame
    have hmem : a.rowNumber ∈ lines.map Prod.fst := by
      rw [← hnumbers]
      exact List.mem_map_of_mem ha
    exact hboth.2.2 a.rowNumber hmem line.1 (by simp) (hsame.trans hnumber)

/-- For every file: no firm is created twice, nobody is placed who is at the firm already or twice,
and a match in the file is a row before; and the commit of its placed rows refuses none as a duplicate
and adds a firm for each created row, exactly when no row repeats one that has an address. -/
theorem import_adds_once (r : ImportRuntime)
    (hlower : ∀ text, r.toLowerCase (r.toLowerCase text) = r.toLowerCase text) :
    (∀ owners index (lines : Lines.Source), (lines.map Prod.fst).Nodup →
      ((previewOf r owners index lines).Pairwise fun a b =>
        a.outcome = .create → b.outcome = .create → ¬ SameFirm r a b) ∧
      ((previewOf r owners index lines).Pairwise fun a b => a.placed = true → b.placed = true →
        a.target = b.target → ∀ key, a.key r = some key → b.key r ≠ some key) ∧
      (∀ row ∈ previewOf r owners index lines, row.placed = true → ∀ firmId, row.target = .firm firmId →
        ∀ key, row.key r = some key → key ∉ index.contacts firmId) ∧
      (∀ front row back, previewOf r owners index lines = front ++ row :: back → ∀ n matchedOn,
        row.match_ = some (.inFile n matchedOn) →
        ∃ created ∈ front, created.outcome = .create ∧ created.rowNumber = n) ∧
      ∀ row ∈ previewOf r owners index lines,
        row.outcome = .invalid ↔ ∃ issue ∈ row.issues, issue.code ∉ duplicateCodes) ∧
    ∀ actor ids ws (lines : Lines.Source), (lines.map Prod.fst).Nodup → decideAdminOnly actor = none →
      (∀ id, actor.userId = some id → ∃ active, (id, active) ∈ ws.members) → Fresh ids ws →
      (NoDuplicate (commitRows r actor ids ws (previewOf r ws.owners (workspaceIndex r ws) lines)) ∧
        (commitRows r actor ids ws (previewOf r ws.owners (workspaceIndex r ws) lines)).ws.firms.rows.length =
          ws.firms.rows.length + ((previewOf r ws.owners (workspaceIndex r ws) lines).filter fun row =>
            row.outcome = .create).length ↔
      (previewOf r ws.owners (workspaceIndex r ws) lines).Pairwise fun a b => ¬ Repeats r ws a b) := by
  constructor
  · intro owners index lines hlines
    have h := @classified r owners index _ (draftsOf_lines hlower hlines)
    exact ⟨h.apart, h.once, h.workspace, h.earlier, h.invalid⟩
  · intro actor ids ws lines hlines hactor hmember hfresh
    have h := committed hlower hfresh hactor hmember hlines
    rw [h.refused]
    exact ⟨fun hnone => hnone.1, fun hpairs => ⟨hpairs, h.count⟩⟩

end Files

/-! ## Files of basic characters -/

theorem basicLower_idem (text : JsString) :
    basicRuntime.toLowerCase (basicRuntime.toLowerCase text) = basicRuntime.toLowerCase text := by
  show (text.map basicLower).map basicLower = text.map basicLower
  rw [List.map_map]
  refine List.map_congr_left fun c _ => ?_
  show basicLower (basicLower c) = basicLower c
  by_cases hupper : 65 ≤ c ∧ c ≤ 90
  · have hlower : basicLower c = c + 32 := if_pos hupper
    rw [hlower]
    unfold basicLower
    rw [if_neg, if_neg]
    · simp only [UInt16.le_iff_toNat_le, ← UInt16.toNat_inj] at hupper ⊢
      simp [kelvinSign, UInt16.toNat_add] at hupper ⊢
      omega
    · simp only [UInt16.le_iff_toNat_le] at hupper ⊢
      simp [UInt16.toNat_add] at hupper ⊢
      omega
  · by_cases hkelvin : c = kelvinSign
    · rw [hkelvin]
      decide
    · have hsame : basicLower c = c := by
        unfold basicLower
        rw [if_neg hupper, if_neg hkelvin]
      rw [hsame, hsame]

/-- A line of a firm, a person and an address. -/
def acmeLine (name email : String) : ImportColumn → JsString
  | .firmName => js "Acme"
  | .contactName => js name
  | .contactEmail => js email
  | _ => []

def emptyWorkspace : Workspace := ⟨Table.empty, [], [], [], [], []⟩

def basicIds : NewIds := ⟨fun n => 102 :: List.replicate n 48, fun n => 99 :: List.replicate n 48⟩

theorem basicIds_fresh : Fresh basicIds emptyWorkspace where
  firm a b h := by simpa [basicIds] using congrArg List.length h
  contact a b h := by simpa [basicIds] using congrArg List.length h
  firms _ _ h := absurd h Table.not_mem_empty
  people _ _ h := absurd h List.not_mem_nil
  addresses _ _ h := absurd h List.not_mem_nil
  prepared _ h := absurd h List.not_mem_nil

/-- Two people at one new firm. -/
theorem import_adds_once_acme :
    NoDuplicate (commitRows basicRuntime .system basicIds emptyWorkspace
      (previewOf basicRuntime emptyWorkspace.owners (workspaceIndex basicRuntime emptyWorkspace)
        [(2, acmeLine "Bob" ""), (3, acmeLine "Ann" "ann@acme.example")])) := by
  refine (((import_adds_once basicRuntime basicLower_idem).2 .system basicIds emptyWorkspace
    [(2, acmeLine "Bob" ""), (3, acmeLine "Ann" "ann@acme.example")] (by decide) rfl nofun
    basicIds_fresh).2 ?_).1
  have hkeys : (previewOf basicRuntime emptyWorkspace.owners (workspaceIndex basicRuntime emptyWorkspace)
      [(2, acmeLine "Bob" ""), (3, acmeLine "Ann" "ann@acme.example")]).Pairwise fun a b =>
        a.key basicRuntime = some (.name (js "bob")) := by
    decide +kernel
  refine hkeys.imp fun hkey hrepeats => ?_
  obtain ⟨address, haddress⟩ := hrepeats.address
  rw [hkey] at haddress
  cases haddress

/-- Bob with an address, and then Bob without one: previewed to attach, and refused as a duplicate. -/
theorem repeated_name_refused :
    (previewOf basicRuntime emptyWorkspace.owners (workspaceIndex basicRuntime emptyWorkspace)
        [(2, acmeLine "Bob" "bob@acme.example"), (3, acmeLine "Bob" "")]).map ImportPreviewRow.outcome =
      [.create, .attach] ∧
    ((commitRows basicRuntime .system basicIds emptyWorkspace
      (previewOf basicRuntime emptyWorkspace.owners (workspaceIndex basicRuntime emptyWorkspace)
        [(2, acmeLine "Bob" "bob@acme.example"), (3, acmeLine "Bob" "")])).refusals.map
          fun refusal => (refusal.rowNumber, refusal.reason)) = [(3, .issue .duplicateInWorkspace)] := by
  decide +kernel

end FoundingSales.Crm.Import
