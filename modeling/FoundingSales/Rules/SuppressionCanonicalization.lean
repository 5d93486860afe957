import FoundingSales.Library.Firsts
import FoundingSales.Text

/-!
Suppression canonicalisation: one spelling of a handle, and who may take a manual entry
back.
-/

namespace FoundingSales.Rules

/-- Stored on every suppression event. -/
def canonicalizerVersion : JsString := js "e164-lower.1"

inductive CanonicalChannel
  | phone | email
  deriving DecidableEq

structure CanonicalHandle where
  channel : CanonicalChannel
  value : JsString
  deriving DecidableEq

inductive CanonicalizationRefusal
  | empty | phoneNotCanonicalInternational | phoneInvalid | phoneAmbiguous | emailInvalid
  deriving DecidableEq

def isDigit (c : UInt16) : Bool := 48 ≤ c && c ≤ 57

def isLowerAlnum (c : UInt16) : Bool := (97 ≤ c && c ≤ 122) || isDigit c

/-- `[\d\s().-]` -/
def isPhoneCharacter (c : UInt16) : Bool := isDigit c || isSpace c || c ∈ js "().-"

/-- `^[1-9]\d{7,14}$` -/
def internationalDigits (digits : JsString) : Bool :=
  digits.head? != some 48 && 8 ≤ digits.length && digits.length ≤ 15 && digits.all isDigit

/-- A phone number as E.164, or the reason it is not one. -/
def canonicalizePhone (P : Platform) (value : JsString) :
    Except CanonicalizationRefusal CanonicalHandle :=
  let normalized := trim (P.normalizeNFKC value)
  if normalized.length = 0 then .error .empty
  else if normalized.head? = some 43 then
    let digits := normalized.tail.filter isDigit
    if !normalized.tail.isEmpty && normalized.tail.all isPhoneCharacter
        && internationalDigits digits then .ok ⟨.phone, 43 :: digits⟩
    else .error .phoneNotCanonicalInternational
  else if !normalized.all isPhoneCharacter then .error .phoneInvalid
  else
    let digits := normalized.filter isDigit
    if digits.length = 10 then .ok ⟨.phone, js "+1" ++ digits⟩
    else if digits.length = 11 && digits.head? = some 49 then .ok ⟨.phone, 43 :: digits⟩
    else .error .phoneAmbiguous

/-- `[a-z0-9.!#$%&'*+/=?^_...~-]`, before the at-sign. -/
def isLocalCharacter (c : UInt16) : Bool :=
  isLowerAlnum c || c ∈ js ".!#$%&'*+/=?^_`\x7b|\x7d~-"

/-- `[a-z0-9](?:[a-z0-9-]{0,61}[a-z0-9])?` -/
def domainLabel (label : JsString) : Bool :=
  label.head?.any isLowerAlnum && label.getLast?.any isLowerAlnum && label.length ≤ 63 &&
    label.all fun c => isLowerAlnum c || c = 45

/-- The address pattern: a local part, an at-sign, two labels or more. -/
def emailPattern (text : JsString) : Bool :=
  let localPart := text.takeWhile (· != atSign)
  let labels := (text.drop (localPart.length + 1)).splitOn 46
  !localPart.isEmpty && localPart.all isLocalCharacter && localPart.length < text.length &&
    2 ≤ labels.length && labels.all domainLabel

/-- `text.slice(0, text.indexOf('@'))` -/
def beforeAt (text : JsString) : JsString :=
  if atSign ∈ text then text.takeWhile (· != atSign) else text.dropLast

/-- An email address lower-cased and validated, or the reason it is not one. -/
def canonicalizeEmail (P : Platform) (value : JsString) :
    Except CanonicalizationRefusal CanonicalHandle :=
  let normalized := P.toLowerCase (trim (P.normalizeNFKC value))
  if normalized.length = 0 then .error .empty
  else
    let localPart := beforeAt normalized
    if normalized.length ≤ 254 && emailPattern normalized && !includes normalized (js "..") &&
        localPart.head? != some 46 && localPart.getLast? != some 46 then
      .ok ⟨.email, normalized⟩
    else .error .emailInvalid

/-- One handle in the only spelling the suppression set stores. -/
def canonicalizeHandle (P : Platform) (value : JsString) :
    Except CanonicalizationRefusal CanonicalHandle :=
  let raw := trim (P.normalizeNFKC value)
  if raw.length = 0 then .error .empty
  else if atSign ∈ raw then canonicalizeEmail P raw
  else canonicalizePhone P raw

def CanonicalChannel.text : CanonicalChannel → JsString
  | .phone => js "phone"
  | .email => js "email"

/-- A route as a caller names it, whatever its channel. -/
structure NamedRoute where
  channel : JsString
  value : JsString
  deriving DecidableEq

/-- The handle of a route, if it is one of the route's channel. -/
def handleOfRoute (P : Platform) (route : NamedRoute) : Option CanonicalHandle :=
  if route.channel ≠ CanonicalChannel.phone.text ∧ route.channel ≠ CanonicalChannel.email.text then
    none
  else
    match canonicalizeHandle P route.value with
    | .error _ => none
    | .ok handle => if handle.channel.text ≠ route.channel then none else some handle

/-- Every route as a canonical handle, each once, in the order of the values. -/
def canonicalizeRoutes (P : Platform) (routes : List NamedRoute) : List CanonicalHandle :=
  (Firsts.keepFirst CanonicalHandle.value (routes.filterMap (handleOfRoute P))).insertionSort
    fun a b => textLe a.value b.value

def isSupportedCanonicalizerVersion (version : JsString) : Bool :=
  version ∈ [canonicalizerVersion]

/-- The ten minutes in which a salesperson may correct their own manual suppression. -/
def manualSuppressionCorrectionMilliseconds : Int := 10 * 60 * 1000

end FoundingSales.Rules
