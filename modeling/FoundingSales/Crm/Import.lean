import FoundingSales.Rules.CanonicalHandles

/-!
A row of a spreadsheet, or of the form a firm is added with: its cells as a firm, a contact and the
contact's routes, and what is wrong with them.
-/

namespace FoundingSales.Crm.Import

open Rules

inductive ImportColumn
  | firmName | website | addressLine | locality | regionCode | postalCode | externalId | ownerUserId
  | contactName | contactTitle | contactEmail | contactPhone | timeZone
  deriving DecidableEq

inductive ImportIssueCode
  | firmNameMissing | websiteInvalid | regionCodeInvalid | postalCodeInvalid | emailInvalid
  | phoneInvalid | contactNameMissing | ownerUnknown | duplicateInFile | duplicateInWorkspace
  | timeZoneInvalid | firmAmbiguous | tooLong
  deriving DecidableEq

structure ImportIssue where
  column : ImportColumn
  code : ImportIssueCode
  deriving DecidableEq

structure ImportFirmDraft where
  name : JsString
  website : Option JsString
  addressLine : Option JsString
  locality : Option JsString
  regionCode : Option JsString
  postalCode : Option JsString
  externalId : Option JsString
  ownerUserId : Option JsString
  /-- None for what the state and the postal code establish. -/
  timeZone : Option JsString
  deriving DecidableEq

structure ImportContactDraft where
  fullName : JsString
  title : Option JsString
  deriving DecidableEq

structure ImportRouteDraft where
  kind : CanonicalChannel
  value : JsString
  deriving DecidableEq

structure RowDraft where
  rowNumber : Nat
  firm : ImportFirmDraft
  contact : Option ImportContactDraft
  routes : List ImportRouteDraft
  issues : List ImportIssue
  deriving DecidableEq

/-- The runtime's locale, its URL parser and its zones. -/
structure ImportRuntime extends Platform where
  /-- `text.toUpperCase()` -/
  toUpperCase : JsString → JsString
  /-- `new URL(url).hostname`, where it does not throw -/
  hostname : JsString → Option JsString
  isKnownTimeZone : JsString → Bool

/-! ## Shapes -/

def isUpper (c : UInt16) : Bool := 65 ≤ c && c ≤ 90

def isAlnum (c : UInt16) : Bool := isUpper c || isLowerAlnum c

/-- `/^[A-Z]{2}$/` -/
def regionCodeShape (text : JsString) : Bool := text.length = 2 && text.all isUpper

/-- `/^[A-Za-z0-9][A-Za-z0-9 -]{1,11}$/` -/
def postalCodeShape (text : JsString) : Bool :=
  text.head?.any isAlnum && 2 ≤ text.length && text.length ≤ 12 &&
    text.all fun c => isAlnum c || c = 32 || c = 45

/-- `/^[^@\s]+@[^@\s]+\.[^@\s]+$/` -/
def emailShape (text : JsString) : Bool :=
  let localPart := text.takeWhile (· != atSign)
  let domain := text.drop (localPart.length + 1)
  !localPart.isEmpty && localPart.length < text.length && atSign ∉ domain &&
    (46 : UInt16) ∈ domain.tail.dropLast && text.all fun c => !isSpace c

/-- `/^\+[1-9][0-9]{7,14}$/` -/
def e164Shape (text : JsString) : Bool := text.head? = some 43 && internationalDigits text.tail

def isZoneCharacter (c : UInt16) : Bool := isAlnum c || c ∈ js "_+-"

/-- `/^[A-Za-z][A-Za-z0-9_+-]*(\/[A-Za-z0-9_+-]+){1,2}$/` -/
def ianaZoneShape (text : JsString) : Bool :=
  match text.splitOn 47 with
  | area :: places =>
    area.head?.any (fun c => isAlnum c && !isDigit c) && area.all isZoneCharacter &&
      1 ≤ places.length && places.length ≤ 2 &&
      places.all fun place => !place.isEmpty && place.all isZoneCharacter
  | [] => false

/-- `text.replaceAll(/\s+/gu, ' ')` -/
def collapseSpaces : JsString → JsString
  | [] => []
  | c :: text =>
    if isSpace c then
      if text.head?.any isSpace then collapseSpaces text else 32 :: collapseSpaces text
    else c :: collapseSpaces text

/-- The database's own bounds. -/
def maxLength : List (ImportColumn × Nat) :=
  [(.firmName, 300), (.addressLine, 300), (.locality, 120), (.externalId, 320), (.contactName, 200),
    (.contactTitle, 200)]

/-! ## Cells -/

/-- A number as a spreadsheet holds it, as E.164. -/
def canonicalE164 (raw : JsString) : Option JsString :=
  let trimmed := trim raw
  if trimmed.length = 0 then none
  else
    let digits := trimmed.filter isDigit
    let candidate :=
      if trimmed.head? = some 43 then some (43 :: digits)
      else if digits.length = 10 then some (js "+1" ++ digits)
      else if digits.length = 11 && digits.head? = some 49 then some (43 :: digits)
      else none
    candidate.filter e164Shape

/-- The route of an e-mail cell, or what is wrong with it. -/
def emailRoutes (rawEmail : JsString) : List ImportRouteDraft × List ImportIssue :=
  if rawEmail.length = 0 then ([], [])
  else if emailShape rawEmail && rawEmail.length ≤ 320 then ([⟨.email, rawEmail⟩], [])
  else ([], [⟨.contactEmail, .emailInvalid⟩])

def phoneRoutes (rawPhone : JsString) : List ImportRouteDraft × List ImportIssue :=
  if rawPhone.length = 0 then ([], [])
  else
    match canonicalE164 rawPhone with
    | some canonical => ([⟨.phone, canonical⟩], [])
    | none => ([], [⟨.contactPhone, .phoneInvalid⟩])

/-- A letter as the pattern `i` compares it; the long s is an s. -/
def foldCase (c : UInt16) : UInt16 :=
  if isUpper c then c + 32 else if c = 0x17F then 115 else c

/-- `/^(https?):\/\//iu` -/
def schemeOf (text : JsString) : Option JsString :=
  if (text.map foldCase).take 8 = js "https://" then some (text.take 5)
  else if (text.map foldCase).take 7 = js "http://" then some (text.take 4)
  else none

inductive Website
  | blank | invalid
  | url (url : JsString)
  deriving DecidableEq

section Cells

variable (r : ImportRuntime)

/-- A website as a person types it, as the address the firm's row stores. -/
def canonicalWebsite (raw : JsString) : Website :=
  let trimmed := trim raw
  if trimmed.length = 0 then .blank
  else if trimmed.any isSpace then .invalid
  else
    let url := match schemeOf trimmed with
      | none => js "https://" ++ trimmed
      | some scheme => r.toLowerCase scheme ++ js "://" ++ trimmed.drop (scheme.length + 3)
    if 500 < url.length then .invalid
    else
      match r.hostname url with
      | none => .invalid
      | some host =>
        if !includes host (js ".") || (js ".").isPrefixOf host || endsWith host (js ".") then .invalid
        else .url url

/-- The domain by which two firms are the same one. -/
def websiteDomain (website : Option JsString) : Option JsString := do
  let website ← website
  match canonicalWebsite r website with
  | .url url =>
    let host ← r.hostname url
    let lower := r.toLowerCase host
    some (if (js "www.").isPrefixOf lower then lower.drop 4 else lower)
  | _ => none

/-- The key by which two firms, or two people, are the same one. -/
def firmNameKey (name : JsString) : JsString := collapseSpaces (r.toLowerCase (trim name))

def orNull (value : JsString) : Option JsString := if value.length = 0 then none else some value

/-- The values of one row, checked. -/
def draftOf (rowNumber : Nat) (at_ : ImportColumn → JsString) : RowDraft :=
  let cell column := trim (at_ column)
  let tooLong := (maxLength.filter fun bound => bound.2 < (cell bound.1).length).map fun bound =>
    ImportIssue.mk bound.1 .tooLong
  let name := collapseSpaces (cell .firmName)
  let nameIssues := if name.length = 0 then [⟨.firmName, .firmNameMissing⟩] else []
  let website := canonicalWebsite r (cell .website)
  let websiteIssues := if website = .invalid then [⟨.website, .websiteInvalid⟩] else []
  let regionCode := orNull (r.toUpperCase (cell .regionCode))
  let regionIssues :=
    if regionCode.any fun code => !regionCodeShape code then [⟨.regionCode, .regionCodeInvalid⟩] else []
  let postalCode := orNull (cell .postalCode)
  let postalIssues :=
    if postalCode.any fun code => !postalCodeShape code then [⟨.postalCode, .postalCodeInvalid⟩] else []
  let timeZone := orNull (cell .timeZone)
  let zoneIssues :=
    if timeZone.any fun zone => !(ianaZoneShape zone && r.isKnownTimeZone zone) then
      [⟨.timeZone, .timeZoneInvalid⟩]
    else []
  let contactName := cell .contactName
  let contactTitle := orNull (cell .contactTitle)
  let rawEmail := r.toLowerCase (cell .contactEmail)
  let rawPhone := cell .contactPhone
  let email := emailRoutes rawEmail
  let phone := phoneRoutes rawPhone
  let contactIssues :=
    if contactName.length = 0 &&
        (contactTitle.isSome || 0 < rawEmail.length || 0 < rawPhone.length) then
      [⟨.contactName, .contactNameMissing⟩]
    else []
  { rowNumber := rowNumber
    firm :=
      { name := name
        website := match website with
          | .url url => some url
          | _ => none
        addressLine := orNull (cell .addressLine)
        locality := orNull (cell .locality)
        regionCode := regionCode
        postalCode := postalCode
        externalId := orNull (cell .externalId)
        ownerUserId := orNull (cell .ownerUserId)
        timeZone := timeZone }
    contact := if contactName.length = 0 then none else some ⟨contactName, contactTitle⟩
    routes := email.1 ++ phone.1
    issues := tooLong ++ nameIssues ++ websiteIssues ++ regionIssues ++ postalIssues ++ zoneIssues ++
      email.2 ++ phone.2 ++ contactIssues }

end Cells

end FoundingSales.Crm.Import
