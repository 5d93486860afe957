import FoundingSales.Crm.Import
import Mathlib.Logic.Function.Basic

/-!
The classification of a file's rows: against the workspace by three keys, and against the firms that
earlier rows create.

Proved here:

* `classifyFrom_concat`: a row is classified after those before it;
* `Classified.step`: what one row keeps of the first firms of each key, and of the people placed;
* `classified`: so of every file.
-/

namespace FoundingSales.Crm.Import

open Rules

/-- How two contacts of one firm are the same person. -/
inductive ContactKey
  | email (address : JsString)
  | name (key : JsString)
  deriving DecidableEq

structure IndexedFirm where
  id : Uuid
  name : JsString
  domain : Option JsString
  deriving DecidableEq

/-- The workspace's active firms and their people, by the keys that a row is matched by. -/
structure WorkspaceIndex where
  byExternalId : JsString → List IndexedFirm
  byDomain : JsString → List IndexedFirm
  byName : JsString → List IndexedFirm
  contacts : Uuid → List ContactKey

inductive MatchedOn
  | externalId | domain | name
  deriving DecidableEq

inductive ImportFirmMatch
  | existing (firmId firmName : JsString) (matchedOn : MatchedOn)
  | inFile (rowNumber : Nat) (matchedOn : MatchedOn)
  deriving DecidableEq

inductive ImportRowOutcome
  | create | attach | duplicate | invalid
  deriving DecidableEq

structure ImportPreviewRow where
  rowNumber : Nat
  outcome : ImportRowOutcome
  issues : List ImportIssue
  firm : ImportFirmDraft
  contact : Option ImportContactDraft
  routes : List ImportRouteDraft
  match_ : Option ImportFirmMatch
  deriving DecidableEq

/-- A firm this file creates. -/
structure FileFirm where
  rowNumber : Nat
  domain : Option JsString
  deriving DecidableEq

inductive Matched
  | none
  | ambiguous (column : ImportColumn)
  | matched (match_ : ImportFirmMatch)
  deriving DecidableEq

/-- Where a row's contact goes: to a firm, or to the one a row creates. -/
inductive Target
  | firm (firmId : Uuid)
  | row (rowNumber : Nat)
  deriving DecidableEq

/-- The firms that the rows before create, the first of each key, and the people they place. -/
structure FileState where
  byDomain : JsString → Option FileFirm
  byName : JsString → Option FileFirm
  contacts : Target → List ContactKey

def emptyFile : FileState := ⟨fun _ => none, fun _ => none, fun _ => []⟩

section Classify

variable (r : ImportRuntime)

/-- A name matches where the websites do not contradict it. -/
def nameCompatible (rowDomain candidateDomain : Option JsString) : Bool :=
  rowDomain.isNone || candidateDomain.isNone || rowDomain = candidateDomain

def contactKey (contact : Option ImportContactDraft) (routes : List ImportRouteDraft) :
    Option ContactKey :=
  contact.map fun contact =>
    match routes.find? fun route => route.kind = .email with
    | some email => .email email.value
    | none => .name (firmNameKey r contact.fullName)

def contactColumn : ContactKey → ImportColumn
  | .email _ => .contactEmail
  | .name _ => .contactName

/-- What the firms found under one key say. -/
def oneOf (found : List IndexedFirm) (matchedOn : MatchedOn) (column : ImportColumn) :
    Option Matched :=
  match found with
  | [] => none
  | [only] => some (.matched (.existing only.id only.name matchedOn))
  | _ => some (.ambiguous column)

def matchExisting (index : WorkspaceIndex) (firm : ImportFirmDraft) : Matched :=
  let domain := websiteDomain r firm.website
  (firm.externalId.bind fun id => oneOf (index.byExternalId id) .externalId .externalId) <|>
    (domain.bind fun domain => oneOf (index.byDomain domain) .domain .website) <|>
    oneOf ((index.byName (firmNameKey r firm.name)).filter fun candidate =>
      nameCompatible domain candidate.domain) .name .firmName |>.getD .none

def matchInFile (state : FileState) (firm : ImportFirmDraft) : Option ImportFirmMatch :=
  let domain := websiteDomain r firm.website
  match domain.bind state.byDomain with
  | some sameDomain => some (.inFile sameDomain.rowNumber .domain)
  | none =>
    match state.byName (firmNameKey r firm.name) with
    | some sameName =>
      if nameCompatible domain sameName.domain then some (.inFile sameName.rowNumber .name) else none
    | none => none

def ImportFirmMatch.matchedOn : ImportFirmMatch → MatchedOn
  | .existing _ _ matchedOn => matchedOn
  | .inFile _ matchedOn => matchedOn

def matchColumn (found : ImportFirmMatch) : ImportColumn :=
  match found.matchedOn with
  | .domain => .website
  | .externalId => .externalId
  | .name => .firmName

def duplicateCodes : List ImportIssueCode := [.duplicateInFile, .duplicateInWorkspace]

def ImportFirmMatch.target : ImportFirmMatch → Target
  | .existing firmId _ _ => .firm firmId
  | .inFile rowNumber _ => .row rowNumber

/-- The firm that a draft is matched to, or that it cannot be told. -/
def firmMatch (index : WorkspaceIndex) (state : FileState) (firm : ImportFirmDraft) :
    List ImportIssue × Option ImportFirmMatch :=
  if 0 < firm.name.length then
    match matchExisting r index firm with
    | .ambiguous column => ([⟨column, .firmAmbiguous⟩], none)
    | .matched found => ([], some found)
    | .none => ([], matchInFile r state firm)
  else ([], none)

/-- What a matched row adds nothing by. -/
def duplicateIssues (index : WorkspaceIndex) (state : FileState) (found : ImportFirmMatch)
    (key : Option ContactKey) : List ImportIssue :=
  match key with
  | none =>
    match found with
    | .inFile .. => [⟨matchColumn found, .duplicateInFile⟩]
    | .existing .. => [⟨matchColumn found, .duplicateInWorkspace⟩]
  | some key =>
    if key ∈ state.contacts found.target then [⟨contactColumn key, .duplicateInFile⟩]
    else
      match found with
      | .existing firmId .. =>
        if key ∈ index.contacts firmId then [⟨contactColumn key, .duplicateInWorkspace⟩] else []
      | .inFile .. => []

/-- A draft's row, by what has been found. -/
def rowOf (draft : RowDraft) (issues : List ImportIssue) (found : Option ImportFirmMatch) :
    ImportPreviewRow :=
  let invalid := issues.any fun issue => issue.code ∉ duplicateCodes
  let duplicate := issues.any fun issue => issue.code ∈ duplicateCodes
  let outcome : ImportRowOutcome :=
    if invalid then .invalid
    else if duplicate then .duplicate
    else if found.isSome then .attach else .create
  { rowNumber := draft.rowNumber
    outcome := outcome
    issues := issues
    firm := draft.firm
    contact := draft.contact
    routes := draft.routes
    match_ := if invalid then none else found }

def ImportPreviewRow.target (row : ImportPreviewRow) : Target :=
  match row.match_ with
  | some found => found.target
  | none => .row row.rowNumber

def ImportPreviewRow.placed (row : ImportPreviewRow) : Bool :=
  row.outcome = .create || row.outcome = .attach

def ImportPreviewRow.key (row : ImportPreviewRow) : Option ContactKey :=
  contactKey r row.contact row.routes

def ImportPreviewRow.domain (row : ImportPreviewRow) : Option JsString :=
  websiteDomain r row.firm.website

def ImportPreviewRow.nameKey (row : ImportPreviewRow) : JsString := firmNameKey r row.firm.name

/-- A map keeps the first firm of a key. -/
def addFirst (map : JsString → Option FileFirm) (key : JsString) (firm : FileFirm) :
    JsString → Option FileFirm :=
  if (map key).isSome then map else Function.update map key (some firm)

/-- A created firm is the first of its keys, if none was before. -/
def FileState.addFirm (state : FileState) (row : ImportPreviewRow) : FileState :=
  let created : FileFirm := ⟨row.rowNumber, row.domain r⟩
  if row.outcome = .create then
    { state with
      byDomain := match created.domain with
        | some domain => addFirst state.byDomain domain created
        | none => state.byDomain
      byName := addFirst state.byName (row.nameKey r) created }
  else state

def FileState.addContact (state : FileState) (row : ImportPreviewRow) : FileState :=
  if row.placed then
    match row.key r with
    | some key =>
      { state with
        contacts := Function.update state.contacts row.target (key :: state.contacts row.target) }
    | none => state
  else state

/-- The file after a row. -/
def FileState.add (state : FileState) (row : ImportPreviewRow) : FileState :=
  (state.addFirm r row).addContact r row

/-- One round of the loop. -/
def classifyRow (owners : Uuid → Bool) (index : WorkspaceIndex) (state : FileState)
    (draft : RowDraft) : ImportPreviewRow :=
  let ownerIssues := if draft.firm.ownerUserId.any fun owner => !owners owner then
    [⟨.ownerUserId, .ownerUnknown⟩] else []
  let (matchIssues, found) := firmMatch r index state draft.firm
  let duplicates := match found with
    | some found => duplicateIssues index state found (contactKey r draft.contact draft.routes)
    | none => []
  rowOf draft (draft.issues ++ ownerIssues ++ matchIssues ++ duplicates) found

/-- The drafts in file order, against the workspace and against each other. -/
def classifyFrom (owners : Uuid → Bool) (index : WorkspaceIndex) (drafts : List RowDraft) :
    List ImportPreviewRow × FileState :=
  drafts.foldl (fun (rows, state) draft =>
    let row := classifyRow r owners index state draft
    (rows ++ [row], state.add r row)) ([], emptyFile)

def classify (owners : Uuid → Bool) (index : WorkspaceIndex) (drafts : List RowDraft) :
    List ImportPreviewRow :=
  (classifyFrom r owners index drafts).1

end Classify

/-! ## One row -/

section Row

variable {r : ImportRuntime} {owners : Uuid → Bool} {index : WorkspaceIndex} {state : FileState}
  {draft : RowDraft} {issues : List ImportIssue} {found : Option ImportFirmMatch}

/-- A row is placed when nothing is wrong with it. -/
theorem rowOf_placed : (rowOf draft issues found).placed = true ↔ issues = [] := by
  unfold rowOf ImportPreviewRow.placed
  dsimp only
  constructor
  · intro h
    by_contra hne
    obtain ⟨issue, hissue⟩ := List.exists_mem_of_ne_nil _ hne
    by_cases hcode : issue.code ∈ duplicateCodes
    · have hduplicate : (issues.any fun issue => issue.code ∈ duplicateCodes) = true :=
        List.any_eq_true.2 ⟨issue, hissue, by simpa using hcode⟩
      rw [hduplicate] at h
      split at h <;> simp_all
    · have hinvalid : (issues.any fun issue => issue.code ∉ duplicateCodes) = true :=
        List.any_eq_true.2 ⟨issue, hissue, by simpa using hcode⟩
      rw [hinvalid] at h
      simp at h
  · rintro rfl
    cases found <;> rfl

theorem rowOf_nil : rowOf draft [] found =
    ⟨draft.rowNumber, if found.isSome then .attach else .create, [], draft.firm, draft.contact,
      draft.routes, found⟩ := rfl

/-- An invalid row has an issue that is not that it is a duplicate, and no other row has one. -/
theorem rowOf_invalid : (rowOf draft issues found).outcome = .invalid ↔
    ∃ issue ∈ (rowOf draft issues found).issues, issue.code ∉ duplicateCodes := by
  have hany : (issues.any fun issue => issue.code ∉ duplicateCodes) = true ↔
      ∃ issue ∈ issues, issue.code ∉ duplicateCodes := by
    simp
  show _ ↔ ∃ issue ∈ issues, issue.code ∉ duplicateCodes
  rw [← hany]
  unfold rowOf
  dsimp only
  split
  · next hinvalid => exact iff_of_true rfl hinvalid
  · next hvalid =>
    refine iff_of_false ?_ hvalid
    split
    · simp
    · split <;> simp

theorem rowOf_match {found' : ImportFirmMatch}
    (h : (rowOf draft issues found).match_ = some found') : found = some found' := by
  unfold rowOf at h
  dsimp only at h
  split at h
  · cases h
  · exact h

/-- Where a contact adds to the firm that is matched. -/
theorem duplicateIssues_eq_nil_iff {found : ImportFirmMatch} {key : Option ContactKey} :
    duplicateIssues index state found key = [] ↔
      ∃ key', key = some key' ∧ key' ∉ state.contacts found.target ∧
        ∀ firmId, found.target = .firm firmId → key' ∉ index.contacts firmId := by
  unfold duplicateIssues
  cases key with
  | none => cases found <;> simp
  | some key =>
    by_cases hfile : key ∈ state.contacts found.target
    · simp [hfile]
    · cases found with
      | inFile rowNumber matchedOn =>
        change key ∉ state.contacts (.row rowNumber) at hfile
        simp [hfile, ImportFirmMatch.target]
      | existing firmId name matchedOn =>
        change key ∉ state.contacts (.firm firmId) at hfile
        by_cases hfirm : key ∈ index.contacts firmId
        · simp [hfile, hfirm, ImportFirmMatch.target]
        · simp [hfile, hfirm, ImportFirmMatch.target]

/-- A draft without a name is at fault. -/
def Named (draft : RowDraft) : Prop :=
  draft.firm.name.length = 0 → draft.issues ≠ []

/-- A placed row: a firm that nothing matches, or a contact that is new to the firm matched. -/
theorem classifyRow_placed (hnamed : Named draft)
    (h : (classifyRow r owners index state draft).placed = true) :
    classifyRow r owners index state draft = rowOf draft [] (firmMatch r index state draft.firm).2 ∧
      0 < draft.firm.name.length ∧ (firmMatch r index state draft.firm).1 = [] ∧
      ∀ found, (firmMatch r index state draft.firm).2 = some found →
        duplicateIssues index state found (contactKey r draft.contact draft.routes) = [] := by
  unfold classifyRow at h ⊢
  dsimp only at h ⊢
  have hissues := rowOf_placed.1 h
  rw [hissues]
  simp only [List.append_eq_nil_iff] at hissues
  obtain ⟨⟨⟨hdraft, -⟩, hmatch⟩, hduplicates⟩ := hissues
  refine ⟨rfl, Nat.pos_of_ne_zero fun hzero => hnamed hzero hdraft, hmatch, fun found hfound => ?_⟩
  rw [hfound] at hduplicates
  exact hduplicates

/-- A created firm is matched by nothing. -/
theorem firmMatch_none {firm : ImportFirmDraft} (hname : 0 < firm.name.length)
    (hissues : (firmMatch r index state firm).1 = []) (h : (firmMatch r index state firm).2 = none) :
    matchInFile r state firm = none := by
  unfold firmMatch at hissues h
  rw [if_pos hname] at hissues h
  cases hexisting : matchExisting r index firm with
  | none =>
    rw [hexisting] at h
    exact h
  | ambiguous column =>
    rw [hexisting] at hissues
    cases hissues
  | matched found =>
    rw [hexisting] at h
    cases h

/-- The firms an index finds. -/
def WorkspaceIndex.firms (index : WorkspaceIndex) : Set IndexedFirm :=
  fun firm => ∃ key, firm ∈ index.byExternalId key ∨ firm ∈ index.byDomain key ∨ firm ∈ index.byName key

theorem oneOf_matched {firms : List IndexedFirm} {matchedOn : MatchedOn} {column : ImportColumn}
    {found : ImportFirmMatch} (h : oneOf firms matchedOn column = some (.matched found)) :
    ∃ firm ∈ firms, found = .existing firm.id firm.name matchedOn := by
  unfold oneOf at h
  split at h
  · cases h
  · next only =>
    cases h
    exact ⟨only, List.mem_singleton_self only, rfl⟩
  · cases h

/-- A match in the workspace is one of its index's firms. -/
theorem matchExisting_matched {firm : ImportFirmDraft} {found : ImportFirmMatch}
    (h : matchExisting r index firm = .matched found) :
    ∃ candidate ∈ index.firms, ∃ matchedOn,
      found = .existing candidate.id candidate.name matchedOn := by
  unfold matchExisting at h
  dsimp only at h
  cases hid : firm.externalId.bind fun id => oneOf (index.byExternalId id) .externalId .externalId with
  | some matched =>
    rw [hid] at h
    obtain ⟨id, -, hone⟩ := Option.bind_eq_some_iff.1 hid
    change matched = _ at h
    rw [h] at hone
    obtain ⟨candidate, hcandidate, hfound⟩ := oneOf_matched hone
    exact ⟨candidate, ⟨id, .inl hcandidate⟩, _, hfound⟩
  | none =>
    rw [hid] at h
    cases hdomain : (websiteDomain r firm.website).bind fun domain =>
        oneOf (index.byDomain domain) .domain .website with
    | some matched =>
      rw [hdomain] at h
      obtain ⟨domain, -, hone⟩ := Option.bind_eq_some_iff.1 hdomain
      change matched = _ at h
      rw [h] at hone
      obtain ⟨candidate, hcandidate, hfound⟩ := oneOf_matched hone
      exact ⟨candidate, ⟨domain, .inr (.inl hcandidate)⟩, _, hfound⟩
    | none =>
      rw [hdomain] at h
      cases hname : oneOf ((index.byName (firmNameKey r firm.name)).filter fun candidate =>
          nameCompatible (websiteDomain r firm.website) candidate.domain) .name .firmName with
      | none =>
        rw [hname] at h
        cases h
      | some matched =>
        rw [hname] at h
        change matched = _ at h
        rw [h] at hname
        obtain ⟨candidate, hcandidate, hfound⟩ := oneOf_matched hname
        exact ⟨candidate, ⟨_, .inr (.inr (List.mem_filter.1 hcandidate).1)⟩, _, hfound⟩

/-- A match is a firm of the index, or a first firm of the file. -/
theorem firmMatch_some {firm : ImportFirmDraft} {found : ImportFirmMatch}
    (h : (firmMatch r index state firm).2 = some found) :
    (∃ candidate ∈ index.firms, ∃ matchedOn,
      found = .existing candidate.id candidate.name matchedOn) ∨
    ∃ file matchedOn, found = .inFile file.rowNumber matchedOn ∧
      ((∃ domain, state.byDomain domain = some file) ∨ ∃ name, state.byName name = some file) := by
  unfold firmMatch at h
  split at h
  · cases hexisting : matchExisting r index firm with
    | ambiguous column =>
      rw [hexisting] at h
      cases h
    | matched existing =>
      rw [hexisting] at h
      cases h
      exact .inl (matchExisting_matched hexisting)
    | none =>
      rw [hexisting] at h
      change matchInFile r state firm = some found at h
      refine .inr ?_
      unfold matchInFile at h
      dsimp only at h
      split at h
      · next file hfile =>
        cases h
        obtain ⟨domain, -, hdomain⟩ := Option.bind_eq_some_iff.1 hfile
        exact ⟨file, _, rfl, .inl ⟨domain, hdomain⟩⟩
      · split at h
        · next file hfile =>
          split at h
          · cases h
            exact ⟨file, _, rfl, .inr ⟨_, hfile⟩⟩
          · cases h
        · cases h
  · cases h

/-- No first firm has the domain, and none of the name is compatible. -/
theorem matchInFile_none {firm : ImportFirmDraft} (h : matchInFile r state firm = none) :
    (∀ domain, websiteDomain r firm.website = some domain → state.byDomain domain = none) ∧
      ∀ file, state.byName (firmNameKey r firm.name) = some file →
        nameCompatible (websiteDomain r firm.website) file.domain = false := by
  unfold matchInFile at h
  dsimp only at h
  cases hdomain : (websiteDomain r firm.website).bind state.byDomain with
  | some file =>
    rw [hdomain] at h
    cases h
  | none =>
    rw [hdomain] at h
    refine ⟨fun domain hsome => ?_, fun file hfile => ?_⟩
    · rwa [hsome] at hdomain
    · rw [hfile] at h
      by_contra hcompatible
      rw [Bool.not_eq_false] at hcompatible
      simp only [hcompatible, if_true] at h
      cases h

end Row

/-! ## The file so far -/

section File

variable {r : ImportRuntime} {owners : Uuid → Bool} {index : WorkspaceIndex} {state : FileState}
  {rows : List ImportPreviewRow} {draft : RowDraft}

/-- Two created rows that name one firm. -/
def SameFirm (r : ImportRuntime) (a b : ImportPreviewRow) : Prop :=
  (∃ domain, a.domain r = some domain ∧ b.domain r = some domain) ∨
    a.nameKey r = b.nameKey r ∧ nameCompatible (a.domain r) (b.domain r) = true

/-- What the rows so far and the state of the file say of each other. -/
structure Classified (r : ImportRuntime) (index : WorkspaceIndex) (rows : List ImportPreviewRow)
    (state : FileState) : Prop where
  domains : ∀ row ∈ rows, row.outcome = .create → ∀ domain, row.domain r = some domain →
    ∃ file, state.byDomain domain = some file
  names : ∀ row ∈ rows, row.outcome = .create → ∃ file, state.byName (row.nameKey r) = some file ∧
    (file.domain = row.domain r ∨ nameCompatible (row.domain r) file.domain = false)
  files : ∀ key file, state.byDomain key = some file ∨ state.byName key = some file →
    ∃ row ∈ rows, row.outcome = .create ∧ row.rowNumber = file.rowNumber
  people : ∀ target key, key ∈ state.contacts target ↔
    ∃ row ∈ rows, row.placed = true ∧ row.target = target ∧ row.key r = some key
  targets : ∀ row ∈ rows, row.placed = true → ∀ n, row.target = .row n →
    ∃ created ∈ rows, created.outcome = .create ∧ created.rowNumber = n
  apart : rows.Pairwise fun a b => a.outcome = .create → b.outcome = .create → ¬ SameFirm r a b
  once : rows.Pairwise fun a b => a.placed = true → b.placed = true → a.target = b.target →
    ∀ key, a.key r = some key → b.key r ≠ some key
  workspace : ∀ row ∈ rows, row.placed = true → ∀ firmId, row.target = .firm firmId →
    ∀ key, row.key r = some key → key ∉ index.contacts firmId
  earlier : ∀ front row back, rows = front ++ row :: back → ∀ n matchedOn,
    row.match_ = some (.inFile n matchedOn) →
    ∃ created ∈ front, created.outcome = .create ∧ created.rowNumber = n
  invalid : ∀ row ∈ rows, row.outcome = .invalid ↔ ∃ issue ∈ row.issues, issue.code ∉ duplicateCodes

theorem addFirst_isSome {map : JsString → Option FileFirm} {key key' : JsString} {firm file : FileFirm}
    (h : map key' = some file) : addFirst map key firm key' = some file := by
  unfold addFirst
  split
  · exact h
  · next hnone =>
    have hne : key' ≠ key := by
      rintro rfl
      rw [h] at hnone
      exact hnone rfl
    rwa [Function.update_of_ne hne]

theorem addFirst_self (map : JsString → Option FileFirm) (key : JsString) (firm : FileFirm) :
    addFirst map key firm key = some firm ∨
      ∃ file, map key = some file ∧ addFirst map key firm key = some file := by
  unfold addFirst
  split
  · next hsome =>
    obtain ⟨file, hfile⟩ := Option.isSome_iff_exists.1 hsome
    exact .inr ⟨file, hfile, hfile⟩
  · exact .inl (Function.update_self ..)

theorem addFirst_some {map : JsString → Option FileFirm} {key key' : JsString} {firm file : FileFirm}
    (h : addFirst map key firm key' = some file) : map key' = some file ∨ file = firm := by
  unfold addFirst at h
  split at h
  · exact .inl h
  · by_cases hkey : key' = key
    · rw [hkey, Function.update_self] at h
      exact .inr (Option.some.inj h).symm
    · rw [Function.update_of_ne hkey] at h
      exact .inl h

/-! ## The state after a row -/

variable {row : ImportPreviewRow}

theorem addFirm_contacts : (state.addFirm r row).contacts = state.contacts := by
  unfold FileState.addFirm
  dsimp only
  split <;> rfl

theorem mem_add_contacts {target : Target} {key : ContactKey} :
    key ∈ (state.add r row).contacts target ↔
      key ∈ state.contacts target ∨
        row.placed = true ∧ row.target = target ∧ row.key r = some key := by
  unfold FileState.add FileState.addContact
  by_cases hplaced : row.placed = true
  · rw [if_pos hplaced]
    cases hkey : row.key r with
    | none => simp [addFirm_contacts]
    | some key' =>
      dsimp only
      rw [addFirm_contacts]
      by_cases htarget : target = row.target
      · subst htarget
        rw [Function.update_self, List.mem_cons]
        constructor
        · rintro (rfl | h)
          · exact .inr ⟨hplaced, rfl, rfl⟩
          · exact .inl h
        · rintro (h | ⟨-, -, h⟩)
          · exact .inr h
          · exact .inl (Option.some.inj h).symm
      · rw [Function.update_of_ne htarget]
        simp [Ne.symm htarget]
  · rw [if_neg hplaced, addFirm_contacts]
    simp [hplaced]

theorem add_byDomain : (state.add r row).byDomain =
    if row.outcome = .create then
      match row.domain r with
      | some domain => addFirst state.byDomain domain ⟨row.rowNumber, row.domain r⟩
      | none => state.byDomain
    else state.byDomain := by
  have hcontact : (state.add r row).byDomain = (state.addFirm r row).byDomain := by
    unfold FileState.add FileState.addContact
    split
    · split <;> rfl
    · rfl
  rw [hcontact]
  unfold FileState.addFirm
  dsimp only
  split <;> rfl

theorem add_byName : (state.add r row).byName =
    if row.outcome = .create then
      addFirst state.byName (row.nameKey r) ⟨row.rowNumber, row.domain r⟩
    else state.byName := by
  have hcontact : (state.add r row).byName = (state.addFirm r row).byName := by
    unfold FileState.add FileState.addContact
    split
    · split <;> rfl
    · rfl
  rw [hcontact]
  unfold FileState.addFirm
  dsimp only
  split <;> rfl

/-- A first firm stays the first of its key. -/
theorem add_byDomain_some {domain : JsString} {file : FileFirm} (h : state.byDomain domain = some file) :
    (state.add r row).byDomain domain = some file := by
  rw [add_byDomain]
  split
  · split
    · exact addFirst_isSome h
    · exact h
  · exact h

theorem add_byName_some {name : JsString} {file : FileFirm} (h : state.byName name = some file) :
    (state.add r row).byName name = some file := by
  rw [add_byName]
  split
  · exact addFirst_isSome h
  · exact h

theorem of_add_byDomain {domain : JsString} {file : FileFirm}
    (h : (state.add r row).byDomain domain = some file) :
    state.byDomain domain = some file ∨ row.outcome = .create ∧ file.rowNumber = row.rowNumber := by
  rw [add_byDomain] at h
  by_cases hcreate : row.outcome = .create
  · rw [if_pos hcreate] at h
    cases hdomain : row.domain r with
    | none =>
      rw [hdomain] at h
      exact .inl h
    | some domain' =>
      rw [hdomain] at h
      rcases addFirst_some h with h | rfl
      · exact .inl h
      · exact .inr ⟨hcreate, rfl⟩
  · rw [if_neg hcreate] at h
    exact .inl h

theorem of_add_byName {name : JsString} {file : FileFirm}
    (h : (state.add r row).byName name = some file) :
    state.byName name = some file ∨ row.outcome = .create ∧ file.rowNumber = row.rowNumber := by
  rw [add_byName] at h
  split at h
  · next hcreate =>
    rcases addFirst_some h with h | rfl
    · exact .inl h
    · exact .inr ⟨hcreate, rfl⟩
  · exact .inl h

/-- How a row comes to be placed. -/
theorem placed_cases (hnamed : Named draft)
    (h : (classifyRow r owners index state draft).placed = true) :
    ((classifyRow r owners index state draft).outcome = .create ∧
      (classifyRow r owners index state draft).match_ = none ∧
      matchInFile r state draft.firm = none) ∨
    ((classifyRow r owners index state draft).outcome = .attach ∧
      ∃ found, (classifyRow r owners index state draft).match_ = some found ∧
        (firmMatch r index state draft.firm).2 = some found ∧
        ∃ key, (classifyRow r owners index state draft).key r = some key ∧
          key ∉ state.contacts found.target ∧
          ∀ firmId, found.target = .firm firmId → key ∉ index.contacts firmId) := by
  obtain ⟨hrow, hname, hissues, hduplicates⟩ := classifyRow_placed hnamed h
  rw [hrow, rowOf_nil]
  cases hfound : (firmMatch r index state draft.firm).2 with
  | none => exact .inl ⟨rfl, rfl, firmMatch_none hname hissues hfound⟩
  | some found =>
    obtain ⟨key, hkey, hnew⟩ := duplicateIssues_eq_nil_iff.1 (hduplicates found hfound)
    exact .inr ⟨rfl, found, rfl, rfl, key, hkey, hnew⟩

/-- A row's match is what its firm is matched to. -/
theorem classifyRow_match {found : ImportFirmMatch}
    (h : (classifyRow r owners index state draft).match_ = some found) :
    (firmMatch r index state draft.firm).2 = some found :=
  rowOf_match h

/-- A match in the file is a row that creates its firm. -/
theorem Classified.inFile (h : Classified r index rows state) {firm : ImportFirmDraft} {n : Nat}
    {matchedOn : MatchedOn} (hfound : (firmMatch r index state firm).2 = some (.inFile n matchedOn)) :
    ∃ created ∈ rows, created.outcome = .create ∧ created.rowNumber = n := by
  rcases firmMatch_some hfound with ⟨candidate, -, matchedOn', heq⟩ | ⟨file, matchedOn', heq, hfile⟩
  · cases heq
  · cases heq
    rcases hfile with ⟨key, hkey⟩ | ⟨key, hkey⟩
    · exact h.files key file (.inl hkey)
    · exact h.files key file (.inr hkey)

theorem placed_of_create (h : row.outcome = .create) : row.placed = true := by
  unfold ImportPreviewRow.placed
  rw [h]
  rfl

/-- Apart from its number, nothing of a created row is in the file yet. -/
theorem Classified.not_sameFirm (h : Classified r index rows state) {created : ImportPreviewRow}
    (hmem : created ∈ rows) (hcreate : created.outcome = .create)
    (hnone : matchInFile r state row.firm = none) : ¬ SameFirm r created row := by
  obtain ⟨hdomains, hnames⟩ := matchInFile_none hnone
  rintro (⟨domain, hdomain, hdomain'⟩ | ⟨hname, hcompatible⟩)
  · obtain ⟨file, hfile⟩ := h.domains created hmem hcreate domain hdomain
    rw [hdomains domain hdomain'] at hfile
    cases hfile
  · obtain ⟨file, hfile, hfirst⟩ := h.names created hmem hcreate
    rw [hname] at hfile
    have hnot := hnames file hfile
    change nameCompatible (row.domain r) file.domain = false at hnot
    cases hrow : row.domain r with
    | none =>
      rw [hrow] at hnot
      cases hnot
    | some domain =>
      -- The created row has no domain, or the same; and so has the first of the name.
      cases hdomain : created.domain r with
      | none =>
        rw [hdomain] at hfirst
        rcases hfirst with hfirst | hfirst
        · rw [hrow, hfirst] at hnot
          cases hnot
        · cases hfirst
      | some domain' =>
        have heq : domain' = domain := by
          rw [hdomain, hrow] at hcompatible
          simpa [nameCompatible] using hcompatible
        obtain ⟨file', hfile'⟩ := h.domains created hmem hcreate domain' hdomain
        rw [heq, hdomains domain hrow] at hfile'
        cases hfile'

/-- What a row keeps. -/
theorem Classified.step (h : Classified r index rows state) (owners : Uuid → Bool)
    (hnamed : Named draft) (hfresh : ∀ row ∈ rows, row.rowNumber ≠ draft.rowNumber) :
    Classified r index (rows ++ [classifyRow r owners index state draft])
      (state.add r (classifyRow r owners index state draft)) := by
  have hplaced := @placed_cases r owners index state draft hnamed
  have hnumber : (classifyRow r owners index state draft).rowNumber = draft.rowNumber := rfl
  have hfirm : (classifyRow r owners index state draft).firm = draft.firm := rfl
  have hinFile : ∀ n matchedOn, (classifyRow r owners index state draft).match_
      = some (.inFile n matchedOn) → ∃ created ∈ rows, created.outcome = .create ∧
        created.rowNumber = n := fun n matchedOn hmatch => h.inFile (classifyRow_match hmatch)
  have hinvalid : (classifyRow r owners index state draft).outcome = .invalid ↔
      ∃ issue ∈ (classifyRow r owners index state draft).issues, issue.code ∉ duplicateCodes :=
    rowOf_invalid
  generalize classifyRow r owners index state draft = row at hplaced hnumber hfirm hinFile hinvalid ⊢
  have hcreated : row.outcome = .create → row.match_ = none ∧ matchInFile r state row.firm = none := by
    intro hcreate
    rw [hfirm]
    rcases hplaced (placed_of_create hcreate) with ⟨-, hmatch⟩ | ⟨hattach, -⟩
    · exact hmatch
    · rw [hcreate] at hattach
      cases hattach
  have hmem : ∀ {other}, other ∈ rows ++ [row] → other ∈ rows ∨ other = row := fun hother =>
    (List.mem_append.1 hother).imp id List.mem_singleton.1
  constructor
  · intro other hother hcreate domain hdomain
    rcases hmem hother with hrow | rfl
    · obtain ⟨file, hfile⟩ := h.domains other hrow hcreate domain hdomain
      exact ⟨file, add_byDomain_some hfile⟩
    · rw [add_byDomain, if_pos hcreate, hdomain]
      rcases addFirst_self state.byDomain domain ⟨other.rowNumber, some domain⟩ with hself | ⟨file, -, hself⟩
      · exact ⟨_, hself⟩
      · exact ⟨file, hself⟩
  · intro other hother hcreate
    rcases hmem hother with hrow | rfl
    · obtain ⟨file, hfile, hfirst⟩ := h.names other hrow hcreate
      exact ⟨file, add_byName_some hfile, hfirst⟩
    · rw [add_byName, if_pos hcreate]
      rcases addFirst_self state.byName (other.nameKey r) ⟨other.rowNumber, other.domain r⟩
        with hself | ⟨file, hfile, hself⟩
      · exact ⟨_, hself, .inl rfl⟩
      · exact ⟨file, hself, .inr ((matchInFile_none (hcreated hcreate).2).2 file hfile)⟩
  · intro key file hfile
    have hold : (state.byDomain key = some file ∨ state.byName key = some file) ∨
        row.outcome = .create ∧ file.rowNumber = row.rowNumber := by
      rcases hfile with hfile | hfile
      · exact (of_add_byDomain hfile).imp .inl id
      · exact (of_add_byName hfile).imp .inr id
    rcases hold with hold | ⟨hcreate, hrow⟩
    · obtain ⟨created, hcreated, hfacts⟩ := h.files key file hold
      exact ⟨created, List.mem_append_left _ hcreated, hfacts⟩
    · exact ⟨row, by simp, hcreate, hrow.symm⟩
  · intro target key
    rw [mem_add_contacts, h.people]
    constructor
    · rintro (⟨other, hother, hfacts⟩ | hfacts)
      · exact ⟨other, List.mem_append_left _ hother, hfacts⟩
      · exact ⟨row, by simp, hfacts⟩
    · rintro ⟨other, hother, hfacts⟩
      rcases hmem hother with hrow | rfl
      · exact .inl ⟨other, hrow, hfacts⟩
      · exact .inr hfacts
  · intro other hother hplacedOther n htarget
    rcases hmem hother with hrow | rfl
    · obtain ⟨created, hcreated, hfacts⟩ := h.targets other hrow hplacedOther n htarget
      exact ⟨created, List.mem_append_left _ hcreated, hfacts⟩
    · unfold ImportPreviewRow.target at htarget
      rcases hplaced hplacedOther with ⟨hcreate, hmatch, -⟩ | ⟨-, found, hmatch, hfound, -⟩
      · rw [hmatch] at htarget
        cases htarget
        exact ⟨other, by simp, hcreate, rfl⟩
      · rw [hmatch] at htarget
        cases found with
        | existing firmId name matchedOn => cases htarget
        | inFile rowNumber matchedOn =>
          cases htarget
          obtain ⟨created, hcreated, hfacts⟩ := hinFile _ _ hmatch
          exact ⟨created, List.mem_append_left _ hcreated, hfacts⟩
  · refine List.pairwise_append.2 ⟨h.apart, List.pairwise_singleton _ _, ?_⟩
    intro created hmemCreated other hother hcreate hcreateOther
    rw [List.mem_singleton.1 hother] at hcreateOther ⊢
    exact h.not_sameFirm hmemCreated hcreate (hcreated hcreateOther).2
  · refine List.pairwise_append.2 ⟨h.once, List.pairwise_singleton _ _, ?_⟩
    intro earlier hearlier other hother hplacedEarlier hplacedOther htarget key hkey
    rw [List.mem_singleton.1 hother] at hplacedOther htarget ⊢
    rcases hplaced hplacedOther with ⟨-, hmatch, -⟩ | ⟨-, found, hmatch, -, key', hkey', hnew, -⟩
    · have hrow : row.target = .row draft.rowNumber := by
        unfold ImportPreviewRow.target
        rw [hmatch, hnumber]
      obtain ⟨created, hmemCreated, -, hsame⟩ :=
        h.targets earlier hearlier hplacedEarlier _ (htarget.trans hrow)
      exact absurd hsame (hfresh created hmemCreated)
    · have hrow : row.target = found.target := by
        unfold ImportPreviewRow.target
        rw [hmatch]
      intro hsame
      rw [hkey', Option.some.injEq] at hsame
      subst hsame
      exact hnew ((h.people found.target key').2
        ⟨earlier, hearlier, hplacedEarlier, htarget.trans hrow, hkey⟩)
  · intro other hother hplacedOther firmId htarget key hkey
    rcases hmem hother with hrow | rfl
    · exact h.workspace other hrow hplacedOther firmId htarget key hkey
    · unfold ImportPreviewRow.target at htarget
      rcases hplaced hplacedOther with ⟨-, hmatch, -⟩ | ⟨-, found, hmatch, -, key', hkey', -, hnew⟩
      · rw [hmatch] at htarget
        cases htarget
      · rw [hmatch] at htarget
        rw [hkey', Option.some.injEq] at hkey
        rw [← hkey]
        exact hnew firmId htarget
  · intro front other back hsplit n matchedOn hmatch
    rcases List.eq_nil_or_concat back with rfl | ⟨back, last, rfl⟩
    · obtain ⟨rfl, hlast⟩ := List.append_inj' hsplit rfl
      rw [← List.singleton_inj.1 hlast] at hmatch
      exact hinFile n matchedOn hmatch
    · have hsplit' : rows ++ [row] = (front ++ other :: back) ++ [last] := by
        rw [hsplit]
        simp
      exact h.earlier front other back (List.append_inj' hsplit' rfl).1 n matchedOn hmatch
  · intro other hother
    rcases hmem hother with hrow | rfl
    · exact h.invalid other hrow
    · exact hinvalid

end File

/-! ## Every file -/

section Files

variable {r : ImportRuntime} {owners : Uuid → Bool} {index : WorkspaceIndex} {drafts : List RowDraft}

theorem classifyFrom_concat (drafts : List RowDraft) (draft : RowDraft) :
    classifyFrom r owners index (drafts ++ [draft]) =
      ((classifyFrom r owners index drafts).1 ++
        [classifyRow r owners index (classifyFrom r owners index drafts).2 draft],
        (classifyFrom r owners index drafts).2.add r
          (classifyRow r owners index (classifyFrom r owners index drafts).2 draft)) := by
  unfold classifyFrom
  rw [List.foldl_append]
  rfl

variable (r owners index) in
/-- The rows keep the drafts' numbers. -/
theorem classifyFrom_rowNumbers (drafts : List RowDraft) :
    (classifyFrom r owners index drafts).1.map ImportPreviewRow.rowNumber =
      drafts.map RowDraft.rowNumber := by
  induction drafts using List.reverseRecOn with
  | nil => rfl
  | append_singleton drafts draft ih =>
    rw [classifyFrom_concat, List.map_append, List.map_append, ih]
    rfl

/-- Drafts that are named or at fault, on lines of their own. -/
structure Lines (drafts : List RowDraft) : Prop where
  named : ∀ draft ∈ drafts, Named draft
  apart : (drafts.map RowDraft.rowNumber).Nodup

theorem Lines.front {draft : RowDraft} (h : Lines (drafts ++ [draft])) : Lines drafts ∧ Named draft ∧
    draft.rowNumber ∉ drafts.map RowDraft.rowNumber := by
  have hapart := h.apart
  rw [List.map_append, List.nodup_append] at hapart
  refine ⟨⟨fun other hother => h.named other (List.mem_append_left _ hother), hapart.1⟩,
    h.named draft (by simp), fun hmem => ?_⟩
  exact hapart.2.2 _ hmem draft.rowNumber (by simp) rfl

/-- What holds of every classified file. -/
theorem classified (h : Lines drafts) : Classified r index (classifyFrom r owners index drafts).1
    (classifyFrom r owners index drafts).2 := by
  induction drafts using List.reverseRecOn with
  | nil =>
    constructor <;> simp [classifyFrom, emptyFile]
  | append_singleton drafts draft ih =>
    obtain ⟨hfront, hnamed, hnew⟩ := h.front
    rw [classifyFrom_concat]
    refine (ih hfront).step owners hnamed fun row hrow heq => hnew ?_
    rw [← heq, ← classifyFrom_rowNumbers r owners index drafts]
    exact List.mem_map_of_mem hrow

end Files

end FoundingSales.Crm.Import
