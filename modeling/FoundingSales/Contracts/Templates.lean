import FoundingSales.Text

/-!
The sentences every sent body may end with, and the one rule left about opting out: a
URL on the line of an opt-out phrase, or on a line next to it.
-/

namespace FoundingSales.Contracts

def sendingStopLine : JsString :=
  js "If this isn't relevant, just reply and I won't email again."

def legacySendingStopLine : JsString :=
  js "Reply \"stop\" and I will not email you again."

/-- The alternatives of `optOutPhrases`, each written out. -/
def optOutPhrases : List JsString :=
  [js "unsubscribe", js "optout", js "opt out", js "opt-out", js "remove me",
   js "stop receiving", js "stop these emails", js "stop these messages",
   js "no longer receive", js "list-manage", js "manage preferences",
   js "manage your preferences"]

def urlToken : List JsString := [js "http://", js "https://", js "www.", js "mailto:"]

def optOutDashCodePoints : List UInt16 :=
  [0x002D, 0x058A, 0x05BE, 0x1806, 0x2010, 0x2011, 0x2012, 0x2013, 0x2014, 0x2015, 0x2212,
   0x2E3A, 0x2E3B, 0x301C, 0x3030, 0xFE58, 0xFE63, 0xFF0D]

def optOutSpaceCodePoints : List UInt16 :=
  [0x0009, 0x0020, 0x00A0, 0x1680, 0x2000, 0x2001, 0x2002, 0x2003, 0x2004, 0x2005, 0x2006,
   0x2007, 0x2008, 0x2009, 0x200A, 0x200B, 0x202F, 0x205F, 0x3000]

def optOutUppercase : JsString := js "ABCDEFGHIJKLMNOPQRSTUVWXYZ"
def optOutLowercase : JsString := js "abcdefghijklmnopqrstuvwxyz"

/-- `translate()`: every table is within one code unit, so a character outside the basic
plane is in none of them. -/
def translate (text source target : JsString) : JsString :=
  text.map fun c => if c ∈ source then target.getD (source.idxOf c) c else c

/-- NFKC, dashes, spaces, ASCII case, in that order. -/
def normalizeForOptOutRule (P : Platform) (text : JsString) : JsString :=
  let dashed := translate (P.normalizeNFKC text) optOutDashCodePoints
    (List.replicate optOutDashCodePoints.length 0x2D)
  let spaced := translate dashed optOutSpaceCodePoints
    (List.replicate optOutSpaceCodePoints.length 0x20)
  translate spaced optOutUppercase optOutLowercase

/-- One of `words` starts in `text` before its `newlines + 1`-st newline. -/
def startsWithin (words : List JsString) : Nat → JsString → Bool
  | _, [] => words.any (·.isPrefixOf [])
  | newlines, c :: rest =>
    words.any (·.isPrefixOf (c :: rest)) ||
      if c = newline then
        match newlines with
        | 0 => false
        | n + 1 => startsWithin words n rest
      else startsWithin words newlines rest

/-- Some `first` is followed by some `second` on its own line or the next:
`(?:first)[^\n]*(?:\n[^\n]*)?(?:second)`. -/
def followedNearby (first second : List JsString) (text : JsString) : Bool :=
  text.tails.any fun rest =>
    first.any fun word => word.isPrefixOf rest && startsWithin second 1 (rest.drop word.length)

/-- `the link pattern` over normalised text. -/
def optOutLinkPattern (text : JsString) : Bool :=
  followedNearby optOutPhrases urlToken text || followedNearby urlToken optOutPhrases text

def hasOptOutLink (P : Platform) (text : JsString) : Bool :=
  optOutLinkPattern (normalizeForOptOutRule P text)

end FoundingSales.Contracts
