import Mathlib.Algebra.Order.BigOperators.Group.List
import FoundingSales.Library.Utf8
import FoundingSales.Library.Decimals
import FoundingSales.Library.Regexes
import FoundingSales.Crm.Import
import FoundingSales.Research.Clearances
import FoundingSales.Rules.ReplyClassification

/-!
Fetched page bytes as bounded blocks of published text. A page of HTML is scanned once, tag by
tag; what is in a dropped container, or in an element whose tag hides it, is left out.

Proved here:
* `step_shorter`, `scan_done`: the scan ends, whatever the page.
* `htmlLines_length`: the lines are no longer than the page.
* `assembled`: the blocks are whole lines within the bounds.
-/

namespace FoundingSales.Research

open Regexes Decimals

/-! ## Names -/

def maxPageBytes : Nat := 1000000

/-- `BLOCK_BOUNDARIES` -/
def blockBoundaries : List JsString :=
  [js "address", js "article", js "aside", js "br", js "div", js "dd", js "dl", js "dt",
    js "fieldset", js "figcaption", js "figure", js "footer", js "form", js "h1", js "h2", js "h3",
    js "h4", js "h5", js "h6", js "header", js "hr", js "li", js "main", js "nav", js "ol", js "p",
    js "pre", js "section", js "table", js "td", js "th", js "tr", js "ul"]

/-- `DROPPED_CONTAINERS` -/
def droppedContainers : List JsString :=
  [js "article", js "blockquote", js "iframe", js "noembed", js "noframes", js "noscript",
    js "plaintext", js "script", js "style", js "svg", js "template", js "textarea", js "title",
    js "xmp"]

/-- The dropped containers whose contents are raw text. -/
def rawContainers : List JsString :=
  [js "script", js "style", js "title", js "textarea", js "xmp", js "iframe", js "noembed",
    js "noframes"]

/-- The media type of a `content-type` value; no other letters lower to those of the media types
read here. -/
def mediaTypeOf (contentType : JsString) : JsString :=
  (trim ((contentType.splitOn 59).headD [])).map Rules.Replies.foldAscii

/-! ## Entities -/

def codePoint (value : Nat) : JsString :=
  if value = 0 ∨ 0x10FFFF < value ∨ 0xD800 ≤ value ∧ value ≤ 0xDFFF then [Utf8.replacement]
  else Utf8.units value

def isHexDigit (c : UInt16) : Bool := isDigit c || (65 ≤ c && c ≤ 70) || (97 ≤ c && c ≤ 102)

def hexValue (c : UInt16) : Nat :=
  if isDigit c then c.toNat - 48 else if 97 ≤ c then c.toNat - 87 else c.toNat - 55

/-- What the `iu` flags fold to one letter. -/
def foldLetter (c : UInt16) : UInt16 :=
  if 65 ≤ c && c ≤ 90 then c + 32
  else if c = 0x17F then 115
  else if c = 0x212A then 107
  else c

def namedEntities : List (JsString × JsString) :=
  [(js "quot", js "\""), (js "apos", js "'"), (js "lt", js "<"), (js "gt", js ">"),
    (js "amp", js "&"), (js "nbsp", js " ")]

/-- Digits of a number that a semicolon follows. -/
def numericEntity (digit : UInt16 → Bool) (most base : Nat) (value : UInt16 → Nat)
    (text : JsString) : Option (JsString × JsString) :=
  let digits := text.takeWhile digit
  let rest := text.dropWhile digit
  if 1 ≤ digits.length ∧ digits.length ≤ most ∧ rest.head? = some 59 then
    some (codePoint (digits.foldl (fun n c => n * base + value c) 0), rest.tail)
  else none

/-- A name that a semicolon follows; a spelling of it that does not lower to it stands for
nothing. -/
def namedEntity (text : JsString) (named : JsString × JsString) : Option (JsString × JsString) :=
  let token := text.take named.1.length
  let rest := text.drop named.1.length
  if token.map foldLetter = named.1 ∧ rest.head? = some 59 then
    some (if token.map Rules.Replies.foldAscii = named.1 then named.2 else [], rest.tail)
  else none

/-- What stands after an ampersand: its value, and what is left. -/
def entityAt (text : JsString) : Option (JsString × JsString) :=
  match text with
  | 35 :: 120 :: rest | 35 :: 88 :: rest => numericEntity isHexDigit 6 16 hexValue rest
  | 35 :: rest => numericEntity isDigit 7 10 valueOf rest
  | text => namedEntities.findSome? (namedEntity text)

/-- `decodeMarkupEntities`, in as many steps as the text is long. -/
def decodeEntities : Nat → JsString → JsString
  | 0, _ => []
  | _ + 1, [] => []
  | fuel + 1, c :: rest =>
    match if c = 38 then entityAt rest else none with
    | some (value, after) => value ++ decodeEntities fuel after
    | none => c :: decodeEntities fuel rest

def decodeMarkupEntities (value : JsString) : JsString := decodeEntities value.length value

/-! ## Hiding attributes -/

/-- A text under the `iu` flags. -/
def letterText (text : String) : Regex UInt16 :=
  literal (fun c d => foldLetter c = foldLetter d) (js text)

def spaces : Regex UInt16 := .star (.one isSpace)

def exactly (c : UInt16) : Regex UInt16 := .one fun d => d = c

/-- `/\saria-hidden\s*=\s*(["'])\s*true\s*\1/iu`, for one of the quotes. -/
def ariaHidden (quote : UInt16) : Regex UInt16 :=
  inOrder [.one isSpace, letterText "aria-hidden", spaces, exactly 61, spaces, exactly quote,
    spaces, letterText "true", spaces, exactly quote]

/-- `/\shidden(?=[\s/>=])/iu` -/
def hiddenAttribute : Regex UInt16 :=
  inOrder [.one isSpace, letterText "hidden", .one fun c => isSpace c || c ∈ js "/>="]

/-- `HIDING_DECLARATION` -/
def hidingDeclaration : Regex UInt16 :=
  inOrder [.alt .atStart (exactly 59), spaces,
    oneOf [inOrder [letterText "display", spaces, exactly 58, spaces, letterText "none"],
      inOrder [letterText "visibility", spaces, exactly 58, spaces,
        oneOf [letterText "hidden", letterText "collapse"]],
      inOrder [letterText "content-visibility", spaces, exactly 58, spaces, letterText "hidden"]],
    spaces, Regexes.optional (inOrder [letterText "!important", spaces]), .alt (exactly 59) .atEnd]

def isQuote (c : UInt16) : Bool := c = 34 || c = 39

/-- The value of `/\sstyle\s*=\s*(["'])([^"']*)\1/iu` at a place. -/
def styleAt (text : JsString) : Option JsString :=
  if text.head?.any isSpace && (text.tail.take 5).map foldLetter = js "style" then
    match (text.drop 6).dropWhile isSpace with
    | 61 :: rest =>
      match rest.dropWhile isSpace with
      | quote :: rest =>
        if isQuote quote && (rest.dropWhile fun c => !isQuote c).head? = some quote then
          some (rest.takeWhile fun c => !isQuote c)
        else none
      | [] => none
    | _ => none
  else none

/-- The first such value. -/
def styleValue : JsString → Option JsString
  | [] => none
  | c :: rest => styleAt (c :: rest) <|> styleValue rest

/-- What follows a text where it first stands. -/
def afterText (part : JsString) : JsString → Option JsString
  | [] => if part = [] then some [] else none
  | c :: rest =>
    if part.isPrefixOf (c :: rest) then some ((c :: rest).drop part.length) else afterText part rest

/-- `style.replace(/\/\*[\s\S]*?\*\//gu, '')`, in as many steps as the text is long. -/
def removeComments : Nat → JsString → JsString
  | 0, _ => []
  | _ + 1, [] => []
  | fuel + 1, c :: rest =>
    match if (js "/*").isPrefixOf (c :: rest) then afterText (js "*/") rest.tail else none with
    | some after => removeComments fuel after
    | none => c :: removeComments fuel rest

def hiddenByInlineStyle (markup : JsString) : Bool :=
  test (ariaHidden 34) markup || test (ariaHidden 39) markup || test hiddenAttribute markup ||
    (styleValue markup).any fun style =>
      test hidingDeclaration (removeComments style.length style)

/-! ## Tags -/

def isLetter (c : UInt16) : Bool :=
  (65 ≤ c && c ≤ 90) || (97 ≤ c && c ≤ 122) || c = 0x17F || c = 0x212A

def isNameCharacter (c : UInt16) : Bool := isLetter c || isDigit c || c = 58 || c = 45

/-- `toLowerCase` of a letter of a name. -/
def lowerLetter (c : UInt16) : UInt16 :=
  if 65 ≤ c && c ≤ 90 then c + 32 else if c = 0x212A then 107 else c

structure Tag where
  name : JsString
  closing : Bool
  deriving DecidableEq

/-- `/^<\s*(\/?)\s*([a-z][a-z0-9:-]*)/iu` -/
def parseTag (markup : JsString) : Option Tag :=
  let text := markup.tail.dropWhile isSpace
  let closing : Bool := text.head? = some 47
  let text := (if closing then text.tail else text).dropWhile isSpace
  if text.head?.any isLetter then some ⟨(text.takeWhile isNameCharacter).map lowerLetter, closing⟩
  else none

/-- Up to the end of the tag, and what is left; a `>` in a quoted value does not end it. -/
def splitTag : Option UInt16 → JsString → Option (JsString × JsString)
  | _, [] => none
  | some quote, c :: rest =>
    (splitTag (if c = quote then none else some quote) rest).map fun (inside, rest) =>
      (c :: inside, rest)
  | none, c :: rest =>
    if c = 62 then some ([c], rest)
    else (splitTag (if isQuote c then some c else none) rest).map fun (inside, rest) =>
      (c :: inside, rest)

/-- `</\s*name\s*>` at a place, and what is left. -/
def closesAt (name text : JsString) : Option JsString :=
  if (js "</").isPrefixOf text then
    let text := (text.drop 2).dropWhile isSpace
    if (text.take name.length).map foldLetter = name then
      match (text.drop name.length).dropWhile isSpace with
      | 62 :: rest => some rest
      | _ => none
    else none
  else none

/-- What is left after the first such place. -/
def afterClose (name : JsString) : JsString → Option JsString
  | [] => none
  | c :: rest => closesAt name (c :: rest) <|> afterClose name rest

/-! ## The scan -/

structure PageOptions where
  omitNavigation : Bool
  includeArticles : Bool
  phoneDiscovery : Bool
  deriving DecidableEq

/-- `dropped(name)` -/
def PageOptions.drops (options : PageOptions) (name : JsString) : Bool :=
  (name ∈ droppedContainers && !(options.includeArticles && name = js "article")) ||
    (options.omitNavigation && name ∈ [js "nav", js "form"])

structure Scan where
  rest : JsString
  lines : List JsString
  pending : JsString
  /-- The element whose contents are discarded, and its depth inside itself. -/
  dropped : Option (JsString × Nat)
  deriving DecidableEq

def Scan.flush (scan : Scan) : Scan :=
  { scan with lines := if scan.pending = [] then scan.lines else scan.lines ++ [scan.pending]
              pending := [] }

/-- A tag inside a region whose contents are not published text. -/
def insideTag (name : JsString) (depth : Nat) (markup : JsString) : Option (JsString × Nat) :=
  match parseTag markup with
  | none => some (name, depth)
  | some tag =>
    if tag.name ≠ name then some (name, depth)
    else if tag.closing then if depth - 1 ≤ 0 then none else some (name, depth - 1)
    else if endsWith markup (js "/>") then some (name, depth)
    else some (name, depth + 1)

/-- A tag of published text. -/
def outsideTag (options : PageOptions) (markup : JsString) (scan : Scan) : Scan :=
  match parseTag markup with
  | none => scan.flush
  | some tag =>
    if !tag.closing && !endsWith markup (js "/>") &&
        (options.drops tag.name || hiddenByInlineStyle markup) then
      { scan.flush with dropped := some (tag.name, 1) }
    else if options.drops tag.name then scan
    else if tag.name ∈ blockBoundaries then scan.flush
    else scan

/-- One turn of the loop; `none` where it ends. -/
def step (options : PageOptions) (scan : Scan) : Option Scan :=
  match scan.rest with
  | [] => none
  | c :: rest =>
    match scan.dropped.filter fun region => region.1 ∈ rawContainers with
    | some (name, _) =>
      (afterClose name (c :: rest)).map fun rest => { scan with rest, dropped := none }
    | none =>
      if c ≠ 60 then
        some { scan with
          rest, pending := if scan.dropped.isNone then scan.pending ++ [c] else scan.pending }
      else if (js "<!--").isPrefixOf (c :: rest) then
        (afterText (js "-->") (rest.drop 3)).map fun rest => { scan with rest }
      else
        (splitTag none rest).map fun (inside, rest) =>
          match scan.dropped with
          | some (name, depth) =>
            { scan with rest, dropped := insideTag name depth (c :: inside) }
          | none => outsideTag options (c :: inside) { scan with rest }

/-- The loop, in as many turns as it is given. -/
def scanFrom (options : PageOptions) : Nat → Scan → Scan
  | 0, scan => scan
  | fuel + 1, scan =>
    match step options scan with
    | none => scan
    | some next => scanFrom options fuel next

def Scan.start (source : JsString) : Scan := ⟨source, [], [], none⟩

def htmlLines (options : PageOptions) (source : JsString) : List JsString :=
  (scanFrom options source.length (.start source)).flush.lines

/-! ## Blocks -/

structure PageBlock where
  id : JsString
  text : JsString
  deriving DecidableEq

structure PageText where
  blocks : List PageBlock
  text : JsString
  truncated : Bool
  deriving DecidableEq

structure PageLimits where
  maxBlocks : Nat
  maxCharacters : Nat
  maxBlockCharacters : Option Nat
  deriving DecidableEq

/-- `PROSPECT_PHONE_CAPTURE_LIMITS`, or the module's own. -/
def PageOptions.limits (options : PageOptions) : PageLimits :=
  if options.phoneDiscovery then ⟨256, 50000, some 16000⟩ else ⟨maxBlocks, maxTextCharacters, none⟩

def normalized (candidate : JsString) : JsString := trim (Crm.Import.collapseSpaces candidate)

def addCandidate (limits : PageLimits) (page : PageText) (candidate : JsString) : PageText :=
  let text := normalized candidate
  if text = [] then page
  else
    let separator := if page.blocks.length = 0 then [] else js "\n\n"
    if limits.maxBlocks ≤ page.blocks.length ||
        limits.maxCharacters < page.text.length + separator.length + text.length ||
        limits.maxBlockCharacters.any fun most => most < text.length then
      { page with truncated := true }
    else
      { page with
        blocks := page.blocks ++ [⟨js "b" ++ print (page.blocks.length + 1), text⟩]
        text := page.text ++ separator ++ text }

def assemble (limits : PageLimits) (candidates : List JsString) : PageText :=
  candidates.foldl (addCandidate limits) ⟨[], [], false⟩

/-- The body as text; a NUL is no character of a page. -/
def decoded (body : List UInt8) : JsString :=
  (Utf8.decode body).map fun c => if c = 0 then Utf8.replacement else c

def parsePageText (body : List UInt8) (contentType : JsString) (options : PageOptions) :
    PageText :=
  if maxPageBytes < body.length then ⟨[], [], true⟩
  else if mediaTypeOf contentType = js "text/plain" then
    assemble options.limits (Rules.Replies.replyLines (decoded body))
  else if mediaTypeOf contentType = js "text/html" then
    assemble options.limits ((htmlLines options (decoded body)).map decodeMarkupEntities)
  else ⟨[], [], false⟩

/-! ## What is left of a text -/

/-- A tag and what follows it are the text. -/
theorem splitTag_append {quote : Option UInt16} {text inside rest : JsString}
    (h : splitTag quote text = some (inside, rest)) : text = inside ++ rest ∧ inside ≠ [] := by
  induction text generalizing quote inside with
  | nil => cases quote <;> cases h
  | cons c text ih =>
    cases quote with
    | some quote =>
      obtain ⟨⟨inside', rest'⟩, hsplit, heq⟩ := Option.map_eq_some_iff.1 h
      cases heq
      exact ⟨by rw [List.cons_append, ← (ih hsplit).1], by simp⟩
    | none =>
      unfold splitTag at h
      split at h
      · cases h
        exact ⟨rfl, by simp⟩
      · obtain ⟨⟨inside', rest'⟩, hsplit, heq⟩ := Option.map_eq_some_iff.1 h
        cases heq
        exact ⟨by rw [List.cons_append, ← (ih hsplit).1], by simp⟩

theorem afterText_length {part text rest : JsString} (h : afterText part text = some rest) :
    rest.length ≤ text.length := by
  induction text with
  | nil =>
    unfold afterText at h
    split at h
    · cases h
      exact Nat.le_refl _
    · cases h
  | cons c text ih =>
    unfold afterText at h
    split at h
    · cases h
      rw [List.length_drop]
      exact Nat.sub_le _ _
    · exact (ih h).trans (Nat.le_succ _)

theorem closesAt_length {name text rest : JsString} (h : closesAt name text = some rest) :
    rest.length < text.length := by
  unfold closesAt at h
  split at h
  · dsimp only at h
    split at h
    · split at h
      next rest' hrest =>
        cases h
        have hspaces := congrArg List.length hrest
        have hdropped := (List.dropWhile_suffix isSpace
          (l := ((text.drop 2).dropWhile isSpace).drop name.length)).length_le
        have hdropped' := (List.dropWhile_suffix isSpace (l := text.drop 2)).length_le
        rw [List.length_cons] at hspaces
        rw [List.length_drop] at hdropped hdropped'
        omega
      next => cases h
    · cases h
  · cases h

theorem afterClose_length {name text rest : JsString} (h : afterClose name text = some rest) :
    rest.length < text.length := by
  induction text with
  | nil => cases h
  | cons c text ih =>
    unfold afterClose at h
    simp only [Option.orElse_eq_orElse, Option.orElse_eq_or, Option.or_eq_some_iff] at h
    rcases h with hhere | ⟨-, hlater⟩
    · exact closesAt_length hhere
    · exact (ih hlater).trans (Nat.lt_succ_self _)

/-! ## The scan ends -/

section Scan

variable {options : PageOptions} {scan next : Scan}

/-- The text a scan holds: its lines, the pending text, and what is left to read. -/
def Scan.held (scan : Scan) : Nat :=
  (scan.lines.map List.length).sum + scan.pending.length + scan.rest.length

theorem flush_held (scan : Scan) : scan.flush.held = scan.held := by
  unfold Scan.flush Scan.held
  dsimp only
  split
  next hnil => simp [hnil]
  next => simp

theorem outsideTag_held (options : PageOptions) (markup : JsString) (scan : Scan) :
    (outsideTag options markup scan).held = scan.held ∧
      (outsideTag options markup scan).rest = scan.rest := by
  unfold outsideTag
  split
  · exact ⟨flush_held scan, rfl⟩
  · split
    · exact ⟨flush_held scan, rfl⟩
    · split
      · exact ⟨rfl, rfl⟩
      · split
        · exact ⟨flush_held scan, rfl⟩
        · exact ⟨rfl, rfl⟩

/-- A turn reads on, and holds no more than there was. -/
theorem step_shorter (h : step options scan = some next) :
    next.rest.length < scan.rest.length ∧ next.held ≤ scan.held := by
  unfold step at h
  unfold Scan.held
  split at h
  · cases h
  next c rest hrest =>
    rw [hrest]
    split at h
    · obtain ⟨after, hafter, rfl⟩ := Option.map_eq_some_iff.1 h
      have hshorter := afterClose_length hafter
      exact ⟨hshorter, by dsimp only; omega⟩
    · split at h
      · cases h
        refine ⟨Nat.lt_succ_self _, ?_⟩
        dsimp only
        split
        · rw [List.length_append, List.length_cons, List.length_cons, List.length_nil]
          omega
        · rw [List.length_cons]
          omega
      · split at h
        · obtain ⟨after, hafter, rfl⟩ := Option.map_eq_some_iff.1 h
          have hle := afterText_length hafter
          rw [List.length_drop] at hle
          dsimp only
          rw [List.length_cons]
          omega
        · obtain ⟨⟨inside, after⟩, hsplit, heq⟩ := Option.map_eq_some_iff.1 h
          obtain ⟨htext, -⟩ := splitTag_append hsplit
          have hlength : after.length ≤ rest.length := by
            rw [htext, List.length_append]
            exact Nat.le_add_left _ _
          dsimp only at heq
          split at heq
          · subst heq
            dsimp only
            rw [List.length_cons]
            omega
          · obtain ⟨hheld, hsame⟩ :=
              outsideTag_held options (c :: inside) { scan with rest := after }
            rw [heq] at hheld hsame
            unfold Scan.held at hheld
            dsimp only at hheld hsame
            rw [hsame, List.length_cons]
            rw [hsame] at hheld
            omega

/-- With as many turns as the text is long the loop has ended. -/
theorem scan_done (fuel : Nat) (hfuel : scan.rest.length ≤ fuel) :
    step options (scanFrom options fuel scan) = none := by
  induction fuel generalizing scan with
  | zero =>
    have hnil : scan.rest = [] := List.length_eq_zero_iff.1 (Nat.le_zero.1 hfuel)
    simp [scanFrom, step, hnil]
  | succ fuel ih =>
    unfold scanFrom
    split
    next hnone => exact hnone
    next next hnext =>
      obtain ⟨hshorter, -⟩ := step_shorter hnext
      exact ih (by omega)

theorem scanFrom_held (options : PageOptions) (fuel : Nat) (scan : Scan) :
    (scanFrom options fuel scan).held ≤ scan.held := by
  induction fuel generalizing scan with
  | zero => exact Nat.le_refl _
  | succ fuel ih =>
    unfold scanFrom
    split
    · exact Nat.le_refl _
    next next hnext => exact (ih next).trans (step_shorter hnext).2

theorem htmlLines_length (options : PageOptions) (source : JsString) :
    ((htmlLines options source).map List.length).sum ≤ source.length := by
  have hheld := scanFrom_held options source.length (.start source)
  have hflush := flush_held (scanFrom options source.length (.start source))
  unfold htmlLines
  unfold Scan.held at hheld hflush
  simp only [Scan.start, List.map_nil, List.sum_nil, List.length_nil] at hheld
  simp only [Scan.start] at hflush ⊢
  omega

end Scan

/-! ## Shorter texts -/

theorem codePoint_length (value : Nat) : (codePoint value).length ≤ 2 := by
  unfold codePoint
  split
  · exact Nat.le_succ 1
  · exact Utf8.length_units_le value

theorem numericEntity_length {digit : UInt16 → Bool} {most base : Nat} {digitValue : UInt16 → Nat}
    {text value after : JsString}
    (h : numericEntity digit most base digitValue text = some (value, after)) :
    value.length + after.length ≤ text.length := by
  unfold numericEntity at h
  dsimp only at h
  split at h
  next hdigits =>
    obtain ⟨hone, -, hhead⟩ := hdigits
    cases h
    have hvalue := codePoint_length
      ((text.takeWhile digit).foldl (fun n c => n * base + digitValue c) 0)
    have htext := congrArg List.length (List.takeWhile_append_dropWhile (p := digit) (l := text))
    rw [List.length_append] at htext
    cases hrest : text.dropWhile digit with
    | nil =>
      rw [hrest] at hhead
      cases hhead
    | cons c rest =>
      rw [hrest, List.length_cons] at htext
      rw [List.tail_cons]
      omega
  next => cases h

theorem namedEntity_length {text value after : JsString} {named : JsString × JsString}
    (hnamed : named ∈ namedEntities) (h : namedEntity text named = some (value, after)) :
    value.length + after.length ≤ text.length := by
  have hone : ∀ named ∈ namedEntities, named.2.length ≤ 1 := by decide +kernel
  unfold namedEntity at h
  dsimp only at h
  split at h
  next hhere =>
    obtain ⟨-, hhead⟩ := hhere
    have hvalue : value.length ≤ 1 := by
      cases h
      split
      · exact hone named hnamed
      · exact Nat.zero_le _
    have hafter : (text.drop named.1.length).tail = after := (Prod.mk.inj (Option.some.inj h)).2
    have hdrop : (text.drop named.1.length).length ≤ text.length := by
      rw [List.length_drop]
      exact Nat.sub_le _ _
    cases hrest : text.drop named.1.length with
    | nil =>
      rw [hrest] at hhead
      cases hhead
    | cons c rest =>
      rw [hrest, List.tail_cons] at hafter
      rw [hrest, List.length_cons, hafter] at hdrop
      omega
  next => cases h

/-- An entity's value is no longer than the entity. -/
theorem entityAt_length {text value after : JsString} (h : entityAt text = some (value, after)) :
    value.length + after.length ≤ text.length := by
  unfold entityAt at h
  split at h
  · have hle := numericEntity_length h
    simp only [List.length_cons]
    omega
  · have hle := numericEntity_length h
    simp only [List.length_cons]
    omega
  · have hle := numericEntity_length h
    simp only [List.length_cons]
    omega
  · obtain ⟨named, hnamed, hvalue⟩ := List.exists_of_findSome?_eq_some h
    exact namedEntity_length hnamed hvalue

theorem decodeEntities_length (fuel : Nat) (text : JsString) :
    (decodeEntities fuel text).length ≤ text.length := by
  induction fuel generalizing text with
  | zero => exact Nat.zero_le _
  | succ fuel ih =>
    cases text with
    | nil => exact Nat.le_refl _
    | cons c rest =>
      unfold decodeEntities
      split
      next value after hentity =>
        have hle : value.length + after.length ≤ rest.length := by
          split at hentity
          · exact entityAt_length hentity
          · cases hentity
        have hafter := ih after
        rw [List.length_append, List.length_cons]
        omega
      next =>
        rw [List.length_cons, List.length_cons]
        exact Nat.succ_le_succ (ih rest)

theorem collapseSpaces_length (text : JsString) :
    (Crm.Import.collapseSpaces text).length ≤ text.length := by
  induction text with
  | nil => exact Nat.le_refl _
  | cons c text ih =>
    unfold Crm.Import.collapseSpaces
    split
    · split
      · exact ih.trans (Nat.le_succ _)
      · exact Nat.succ_le_succ ih
    · exact Nat.succ_le_succ ih

theorem normalized_length (candidate : JsString) :
    (normalized candidate).length ≤ candidate.length :=
  Texts.strip_infix.length_le.trans (collapseSpaces_length candidate)

/-! ## Whole blocks -/

/-- What a page of blocks is made of, and within which bounds. -/
structure Assembled (limits : PageLimits) (candidates : List JsString) (page : PageText) :
    Prop where
  whole : List.Sublist (page.blocks.map PageBlock.text)
    ((candidates.map normalized).filter fun text => text ≠ [])
  ids : page.blocks.map PageBlock.id
    = (List.range page.blocks.length).map fun index => js "b" ++ print (index + 1)
  blocks : page.blocks.length ≤ limits.maxBlocks
  characters : page.text.length ≤ limits.maxCharacters
  joined : page.text = (js "\n\n").intercalate (page.blocks.map PageBlock.text)

theorem intercalate_append_singleton {α : Type*} (separator : List α) {xss : List (List α)}
    (h : xss ≠ []) (xs : List α) :
    separator.intercalate (xss ++ [xs]) = separator.intercalate xss ++ separator ++ xs := by
  induction xss with
  | nil => exact absurd rfl h
  | cons ys xss ih =>
    cases xss with
    | nil => simp [List.intercalate, List.intersperse]
    | cons zs xss =>
      have hrest := ih (by simp)
      simp only [List.intercalate, List.intersperse, List.cons_append, List.flatten_cons] at hrest ⊢
      rw [hrest]
      simp

theorem assembled_add {limits : PageLimits} {candidates : List JsString} {page : PageText}
    (h : Assembled limits candidates page) (candidate : JsString) :
    Assembled limits (candidates ++ [candidate]) (addCandidate limits page candidate) := by
  have hcandidates : ((candidates ++ [candidate]).map normalized).filter (fun text => text ≠ [])
      = (candidates.map normalized).filter (fun text => text ≠ [])
        ++ [normalized candidate].filter fun text => text ≠ [] := by
    rw [List.map_append, List.filter_append]
    rfl
  have hkept : List.Sublist (page.blocks.map PageBlock.text)
      (((candidates ++ [candidate]).map normalized).filter fun text => text ≠ []) := by
    rw [hcandidates]
    exact h.whole.trans (List.sublist_append_left _ _)
  unfold addCandidate
  dsimp only
  split
  · exact ⟨hkept, h.ids, h.blocks, h.characters, h.joined⟩
  next htext =>
    generalize hseparator : (if page.blocks.length = 0 then [] else js "\n\n") = separator
    split
    · exact ⟨hkept, h.ids, h.blocks, h.characters, h.joined⟩
    next hfits =>
      simp only [Bool.or_eq_true, decide_eq_true_eq, not_or, not_le, not_lt] at hfits
      obtain ⟨⟨hblocks, hcharacters⟩, -⟩ := hfits
      constructor
      · rw [hcandidates, List.map_append]
        apply h.whole.append
        rw [List.filter_cons_of_pos (by simpa using htext)]
        exact List.Sublist.refl _
      · rw [List.map_append, h.ids, List.length_append, List.length_singleton, List.range_succ,
          List.map_append]
        rfl
      · rw [List.length_append, List.length_singleton]
        exact hblocks
      · dsimp only
        rw [List.length_append, List.length_append]
        exact hcharacters
      · rw [List.map_append]
        have hjoined := h.joined
        by_cases hnone : page.blocks = []
        · rw [hnone] at hjoined ⊢
          rw [hnone, List.length_nil, if_pos rfl] at hseparator
          simp only [List.map_nil] at hjoined ⊢
          rw [hjoined, ← hseparator]
          simp [List.intercalate, List.intersperse]
        · have hlength : page.blocks.length ≠ 0 := fun hzero =>
            hnone (List.length_eq_zero_iff.1 hzero)
          rw [if_neg hlength] at hseparator
          simp only [← hseparator, List.map_cons, List.map_nil]
          rw [intercalate_append_singleton _ (by simpa using hnone), hjoined]

/-- The blocks are whole lines in their order, within the bounds. -/
theorem assembled (limits : PageLimits) (candidates : List JsString) :
    Assembled limits candidates (assemble limits candidates) := by
  unfold assemble
  induction candidates using List.reverseRecOn with
  | nil => exact ⟨List.Sublist.refl _, rfl, Nat.zero_le _, Nat.zero_le _, rfl⟩
  | append_singleton candidates candidate ih =>
    rw [List.foldl_append]
    exact assembled_add ih candidate

theorem sum_length_le_intercalate (separator : JsString) (xss : List JsString) :
    (xss.map List.length).sum ≤ (separator.intercalate xss).length := by
  induction xss with
  | nil => exact Nat.zero_le _
  | cons xs xss ih =>
    cases xss with
    | nil => simp [List.intercalate, List.intersperse]
    | cons ys xss =>
      simp only [List.intercalate, List.intersperse, List.flatten_cons, List.length_append,
        List.map_cons, List.sum_cons] at ih ⊢
      omega

/-- The blocks of a page hold no more than its candidates. -/
theorem Assembled.length_le {limits : PageLimits} {candidates : List JsString} {page : PageText}
    (h : Assembled limits candidates page) :
    ((page.blocks.map PageBlock.text).map List.length).sum ≤ limits.maxCharacters ∧
      ((page.blocks.map PageBlock.text).map List.length).sum
        ≤ (candidates.map List.length).sum := by
  constructor
  · have hle := sum_length_le_intercalate (js "\n\n") (page.blocks.map PageBlock.text)
    rw [← h.joined] at hle
    exact hle.trans h.characters
  · have hsub := ((h.whole.trans List.filter_sublist).map List.length).sum_le_sum
      (fun _ _ => Nat.zero_le _)
    apply hsub.trans
    rw [List.map_map]
    exact List.sum_le_sum fun candidate _ => normalized_length candidate

end FoundingSales.Research
