import FoundingSales.Contracts.Templates

/-!
Footer composition: the body a send carries is the rendered body with one final footer
block. A block of an earlier footer is replaced, and only when the workspace's records can
rebuild it byte for byte.
-/

namespace FoundingSales.Rules

open Contracts

def sentBodyMaxLength : Nat := 4000

structure SendFooterConfiguration where
  signOff : JsString
  postalAddress : Option JsString
  recordedAddresses : List JsString
  deriving DecidableEq

def footerCompanyName : JsString := js "Callie, AI maintenance coordination"

/-- `address?.trim() ?? ''` -/
def addressOf (postalAddress : Option JsString) : JsString := trim (postalAddress.getD [])

def companyLine (address : JsString) : JsString :=
  if address.length = 0 then footerCompanyName
  else footerCompanyName ++ js " \u00B7 " ++ address

/-- `parts.join('\n')` -/
def joinLines (parts : List JsString) : JsString := [newline].intercalate parts

def sendFooterBlock (signOff : JsString) (postalAddress : Option JsString) : JsString :=
  joinLines ([trim signOff, companyLine (addressOf postalAddress), sendingStopLine].filter
    fun part => part.length > 0)

structure SendFooterPolicy where
  postalAddressRequired : Bool
  deriving DecidableEq

def sendFooterPolicy : SendFooterPolicy := ⟨true⟩
def approvalFooterPolicy : SendFooterPolicy := ⟨false⟩

inductive ComposeSendBodyRefusal
  | postalAddressRequired | footerAmbiguous | composedBodyTooLong | optoutLink
  deriving DecidableEq

inductive ComposeSendBodyDecision
  | composed (body : JsString) (changed deduped : Bool)
  | refused (reason : ComposeSendBodyRefusal) (detail : Option Nat)
  deriving DecidableEq

def hasStopLine (text : JsString) : Bool :=
  includes text sendingStopLine || includes text legacySendingStopLine

/-- The recorded addresses, today's first, as the candidate blocks use them. -/
def candidateAddresses (configuration : SendFooterConfiguration) : List JsString :=
  ((configuration.postalAddress.getD [] :: configuration.recordedAddresses).map trim).filter
    fun address => address.length > 0

def candidateHeads (configuration : SendFooterConfiguration) : List JsString :=
  let signOff := trim configuration.signOff
  let addresses := candidateAddresses configuration
  if signOff.length = 0 then addresses
  else signOff :: addresses.map fun address => joinLines [signOff, address]

/-- Every footer block the workspace's records can account for, longest first. -/
def candidateFooterBlocks (configuration : SendFooterConfiguration) : List JsString :=
  let signOff := trim configuration.signOff
  let blocks :=
    (candidateHeads configuration).flatMap (fun head =>
        [head, joinLines [head, legacySendingStopLine]])
      ++ ([] :: candidateAddresses configuration).map fun address =>
        sendFooterBlock signOff (some address)
  blocks.eraseDups.insertionSort fun left right => right.length ≤ left.length

/-- `/\n[ \t]*\n$/u.test(text)` -/
def endsInBlankLine (text : JsString) : Bool :=
  match text.reverse with
  | [] => false
  | last :: front =>
    last = newline && (front.dropWhile fun c => c = 0x20 || c = 9).head? = some newline

/-- A complete separate block at the end of `stripped`. -/
def standsAtEnd (stripped block : JsString) : Bool :=
  endsWith stripped block &&
    let start := stripped.length - block.length
    start = 0 || endsInBlankLine (stripped.take start)

def footerBlockStart (body : JsString) (configuration : SendFooterConfiguration) : Option Nat :=
  let stripped := trimEnd body
  ((candidateFooterBlocks configuration).find? (standsAtEnd stripped)).map fun block =>
    stripped.length - block.length

/-- `line.replace(/[ \t]+$/u, '')` -/
def trimLineEnd (line : JsString) : JsString := line.rdropWhile fun c => c = 0x20 || c = 9

def splitLines (text : JsString) : List JsString := (text.splitOn newline).map trimLineEnd

def signOffStandsAlone (body rawSignOff : JsString) : Bool :=
  let signOff := trim rawSignOff
  if signOff.length = 0 then false
  else splitLines signOff <:+: splitLines body

/-- `true` for `'body_too_long'`, `false` for `null`. -/
def sendBodyIssue (body : JsString) : Bool := body.length > sentBodyMaxLength

/-- The bytes that leave when `head` is what stays of the body. -/
def composeBody (head footer : JsString) : JsString :=
  if (trim head).length = 0 then footer
  else trimEnd head ++ [newline, newline] ++ footer

/-- What a composed body is checked for before it is returned. -/
def composedBodyRefusal (P : Platform) (composedBody : JsString) :
    Option (ComposeSendBodyRefusal × Option Nat) :=
  if hasStopLine (composedBody.take (composedBody.length - sendingStopLine.length)) then
    some (.footerAmbiguous, none)
  else if sendBodyIssue composedBody then
    some (.composedBodyTooLong, some composedBody.length)
  else if hasOptOutLink P composedBody then some (.optoutLink, none)
  else none

def composeSendBody (P : Platform) (body : JsString) (configuration : SendFooterConfiguration)
    (policy : SendFooterPolicy) : ComposeSendBodyDecision :=
  let address := addressOf configuration.postalAddress
  if policy.postalAddressRequired && address.length = 0 then
    .refused .postalAddressRequired none
  else
    let blockStart := footerBlockStart body configuration
    let stripped := trimEnd body
    if blockStart.isNone && (hasStopLine stripped
        || signOffStandsAlone stripped configuration.signOff) then
      .refused .footerAmbiguous none
    else
      let head := body.take (blockStart.getD stripped.length)
      let footer := sendFooterBlock configuration.signOff configuration.postalAddress
      let composedBody := composeBody head footer
      match composedBodyRefusal P composedBody with
      | some (reason, detail) => .refused reason detail
      | none => .composed composedBody (composedBody != body) blockStart.isSome

end FoundingSales.Rules
