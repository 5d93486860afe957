import FoundingSales.Research.PageText

/-!
The one message an extraction run sends, and the worst case that is reserved for it. The model
is taken to need a token for every two and a half characters.

Proved here:
* `parsePageText_assembled`: the blocks of a page hold no more characters than it has bytes.
* `sourceText_length`: what a page adds to the message.
* `worst_case_covers`: the reserved worst case covers every message.
-/

namespace FoundingSales.Research

open Decimals Rules

/-! ## The message -/

/-- The prompt's own texts. -/
structure Prompt where
  /-- `EXTRACTION_SYSTEM_TEXT` -/
  systemText : JsString
  /-- `FACT_KEYS` with `FACT_KEY_DEFINITIONS` -/
  factKeys : List (JsString × JsString)
  /-- `JSON.stringify(EXTRACTION_OUTPUT_SCHEMA)` -/
  outputSchema : JsString

structure ExtractionSource where
  sourceReference : JsString
  blocks : List PageBlock
  deriving DecidableEq

structure ExtractionRequest where
  firmName : JsString
  sources : List ExtractionSource
  deriving DecidableEq

/-- `FACT_KEYS.map(key => ...).join('\n')` -/
def Prompt.dictionary (prompt : Prompt) : JsString :=
  joinLines
    (prompt.factKeys.map fun (key, definition) => js "- " ++ key ++ js ": " ++ definition)

def blockText (block : PageBlock) : JsString := js "[" ++ block.id ++ js "] " ++ block.text

def sourceText (source : ExtractionSource) : JsString :=
  joinLines ((js "SOURCE " ++ source.sourceReference) :: source.blocks.map blockText)

def extractionUserText (prompt : Prompt) (request : ExtractionRequest) : JsString :=
  joinLines
    [js "Firm: " ++ request.firmName, [], js "Fact keys:", prompt.dictionary, [], js "Pages:",
      (js "\n\n").intercalate (request.sources.map sourceText)]

/-- `FIXED_PROMPT_TOKENS` -/
def fixedPromptTokens (prompt : Prompt) : Nat :=
  tokensFor (prompt.systemText.length + prompt.dictionary.length + prompt.outputSchema.length)

/-- A page that a run has fetched; pages for the phone profile are not put to the model. -/
structure FetchedPage where
  reference : JsString
  body : List UInt8
  contentType : JsString
  omitNavigation : Bool
  includeArticles : Bool

def FetchedPage.source (page : FetchedPage) : ExtractionSource :=
  ⟨page.reference, (parsePageText page.body page.contentType
    ⟨page.omitNavigation, page.includeArticles, false⟩).blocks⟩

/-! ## The length of a page -/

theorem length_intercalate_le (separator : JsString) (xss : List JsString) :
    (separator.intercalate xss).length
      ≤ (xss.map List.length).sum + separator.length * xss.length := by
  induction xss with
  | nil => simp [List.intercalate, List.intersperse]
  | cons xs xss ih =>
    cases xss with
    | nil => simp [List.intercalate, List.intersperse]
    | cons ys xss =>
      simp only [List.intercalate, List.intersperse, List.flatten_cons, List.length_append,
        List.map_cons, List.sum_cons, List.length_cons, Nat.mul_add] at ih ⊢
      omega

theorem replyLines_length (text : JsString) :
    ((Rules.Replies.replyLines text).map List.length).sum ≤ text.length := by
  have hjoin := sum_length_le_intercalate [newline] (text.splitOn newline)
  rw [List.intercalate_splitOn] at hjoin
  apply le_trans _ hjoin
  unfold Rules.Replies.replyLines
  generalize text.splitOn newline = lines
  have hreturn : ∀ line : JsString, (Rules.Replies.dropReturn line).length ≤ line.length := by
    intro line
    unfold Rules.Replies.dropReturn
    split
    · rw [List.length_dropLast]
      exact Nat.sub_le _ _
    · exact Nat.le_refl _
  have hlast : ((lines.dropLast ++ lines.getLast?.toList).map List.length).sum
      = (lines.map List.length).sum := by
    rcases List.eq_nil_or_concat lines with rfl | ⟨front, last, rfl⟩
    · rfl
    · rw [List.concat_eq_append, List.dropLast_concat, List.getLast?_concat]
      rfl
  rw [← hlast]
  simp only [List.map_append, List.sum_append, List.map_map]
  apply Nat.add_le_add_right
  exact List.sum_le_sum fun line _ => hreturn line

theorem decoded_length (body : List UInt8) : (decoded body).length ≤ body.length := by
  unfold decoded
  rw [List.length_map]
  exact Utf8.length_decode_le body

/-- The candidates of a page hold no more characters than it has bytes. -/
theorem parsePageText_assembled (body : List UInt8) (contentType : JsString)
    (options : PageOptions) : ∃ candidates,
      Assembled options.limits candidates (parsePageText body contentType options) ∧
        (candidates.map List.length).sum ≤ body.length := by
  have hempty : ∀ truncated, Assembled options.limits [] ⟨[], [], truncated⟩ := fun truncated =>
    ⟨List.Sublist.refl _, rfl, Nat.zero_le _, Nat.zero_le _, rfl⟩
  unfold parsePageText
  split
  · exact ⟨[], hempty true, Nat.zero_le _⟩
  · split
    · exact ⟨_, assembled _ _, (replyLines_length _).trans (decoded_length body)⟩
    · split
      · refine ⟨_, assembled _ _, ?_⟩
        apply le_trans _ ((htmlLines_length options (decoded body)).trans (decoded_length body))
        rw [List.map_map]
        exact List.sum_le_sum fun line _ => decodeEntities_length _ line
      · exact ⟨[], hempty false, Nat.zero_le _⟩

/-- The blocks' texts of a page, and their number. -/
theorem FetchedPage.source_bounds (page : FetchedPage) :
    ((page.source.blocks.map PageBlock.text).map List.length).sum
        ≤ min page.body.length maxTextCharacters ∧
      page.source.blocks.length ≤ maxBlocks ∧
      ∀ block ∈ page.source.blocks, block.id.length ≤ 4 := by
  obtain ⟨candidates, hassembled, hsum⟩ := parsePageText_assembled page.body page.contentType
    ⟨page.omitNavigation, page.includeArticles, false⟩
  obtain ⟨hcharacters, hcandidates⟩ := hassembled.length_le
  refine ⟨le_min (hcandidates.trans hsum) hcharacters, hassembled.blocks, fun block hblock => ?_⟩
  have hid : block.id ∈ page.source.blocks.map PageBlock.id := List.mem_map_of_mem hblock
  have hids : page.source.blocks.map PageBlock.id
      = (List.range page.source.blocks.length).map fun index => js "b" ++ print (index + 1) :=
    hassembled.ids
  rw [hids] at hid
  obtain ⟨index, hindex, hprinted⟩ := List.mem_map.1 hid
  have hlt : index < 100 := (List.mem_range.1 hindex).trans_le hassembled.blocks
  have hprint : ∀ index < 100, (js "b" ++ print (index + 1)).length ≤ 4 := by decide +kernel
  rw [← hprinted]
  exact hprint index hlt

theorem blockText_length {block : PageBlock} (h : block.id.length ≤ 4) :
    (blockText block).length ≤ 7 + block.text.length := by
  have hopen : (js "[").length = 1 := by decide
  have hclose : (js "] ").length = 2 := by decide
  unfold blockText
  simp only [List.length_append]
  omega

/-- What a page adds to the message. -/
theorem sourceText_length (page : FetchedPage) :
    (sourceText page.source).length
      ≤ 808 + page.reference.length + min page.body.length maxTextCharacters := by
  obtain ⟨htexts, hcount, hids⟩ := page.source_bounds
  have hsource : (js "SOURCE ").length = 7 := by decide
  have hblocks : ((page.source.blocks.map blockText).map List.length).sum
      ≤ 7 * page.source.blocks.length
        + ((page.source.blocks.map PageBlock.text).map List.length).sum := by
    generalize page.source.blocks = blocks at hids
    induction blocks with
    | nil => exact Nat.le_refl _
    | cons block blocks ih =>
      have hfirst := blockText_length (hids block List.mem_cons_self)
      have hrest := ih fun other hother => hids other (List.mem_cons_of_mem _ hother)
      simp only [List.map_cons, List.sum_cons, List.length_cons]
      omega
  have hjoin := length_intercalate_le [newline]
    ((js "SOURCE " ++ page.source.sourceReference) :: page.source.blocks.map blockText)
  have hreference : page.source.sourceReference = page.reference := rfl
  have hmost : maxBlocks = 100 := rfl
  simp only [List.map_cons, List.sum_cons, List.length_cons, List.length_nil, List.length_map,
    List.length_append, hreference, hsource] at hjoin
  unfold sourceText joinLines
  rw [hreference]
  omega

/-! ## The whole message -/

theorem extractionUserText_length (prompt : Prompt) (firmName : JsString)
    (pages : List FetchedPage) (reference bytes : Nat)
    (hpages : ∀ page ∈ pages, page.reference.length ≤ reference ∧ page.body.length ≤ bytes) :
    (extractionUserText prompt ⟨firmName, pages.map FetchedPage.source⟩).length
      ≤ 29 + firmName.length + prompt.dictionary.length
        + pages.length * (810 + reference + min bytes maxTextCharacters) := by
  have hsources : ((pages.map fun page => sourceText page.source).map List.length).sum
      ≤ pages.length * (808 + reference + min bytes maxTextCharacters) := by
    induction pages with
    | nil => exact Nat.zero_le _
    | cons page pages ih =>
      have hfirst := sourceText_length page
      obtain ⟨hreference, hbytes⟩ := hpages page List.mem_cons_self
      have hrest := ih fun other hother => hpages other (List.mem_cons_of_mem _ hother)
      simp only [List.map_cons, List.sum_cons, List.length_cons, Nat.succ_mul]
      omega
  have hjoinPages := length_intercalate_le (js "\n\n")
    (pages.map fun page => sourceText page.source)
  have hseparator : (js "\n\n").length = 2 := by decide
  have hfirm : (js "Firm: ").length = 6 := by decide
  have hkeys : (js "Fact keys:").length = 10 := by decide
  have hheading : (js "Pages:").length = 6 := by decide
  rw [hseparator, List.length_map] at hjoinPages
  have hjoin := length_intercalate_le [newline]
    [js "Firm: " ++ firmName, [], js "Fact keys:", prompt.dictionary, [], js "Pages:",
      (js "\n\n").intercalate (pages.map fun page => sourceText page.source)]
  simp only [List.map_cons, List.map_nil, List.sum_cons, List.sum_nil, List.length_cons,
    List.length_nil, List.length_append, hfirm, hkeys, hheading] at hjoin
  unfold extractionUserText joinLines
  rw [List.map_map]
  simp only [Nat.mul_add] at hsources ⊢
  show (List.intercalate [newline] [js "Firm: " ++ firmName, [], js "Fact keys:", prompt.dictionary,
    [], js "Pages:", (js "\n\n").intercalate (pages.map fun page => sourceText page.source)]).length
    ≤ _
  omega

/-- The reserved worst case covers the message of every run: a name of 200 characters and a
reference of 500 have at most twice as many code units. -/
theorem worst_case_covers (prompt : Prompt) (settings : ResearchSettings) (firmName : JsString)
    (pages : List FetchedPage) (hsome : 1 ≤ settings.maxPagesPerFirm)
    (hbytes : 1024 ≤ settings.maxPageBytes) (hname : firmName.length ≤ 400)
    (hcount : (pages.length : Int) ≤ settings.maxPagesPerFirm)
    (hpages : ∀ page ∈ pages,
      page.reference.length ≤ 1000 ∧ (page.body.length : Int) ≤ settings.maxPageBytes) :
    tokensFor (prompt.systemText.length + prompt.outputSchema.length
        + (extractionUserText prompt ⟨firmName, pages.map FetchedPage.source⟩).length)
      ≤ worstCaseInputTokens (fixedPromptTokens prompt) settings := by
  have huser := extractionUserText_length prompt firmName pages 1000
    settings.maxPageBytes.toNat
    fun page hpage => ⟨(hpages page hpage).1, by have := (hpages page hpage).2; omega⟩
  have hcharacters : (min (max 1024 settings.maxPageBytes) (maxTextCharacters : Int)).toNat
      = min settings.maxPageBytes.toNat maxTextCharacters := by
    omega
  have hcount' : (max 1 settings.maxPagesPerFirm).toNat = settings.maxPagesPerFirm.toNat := by omega
  have hle : pages.length ≤ settings.maxPagesPerFirm.toNat := by omega
  have hone : 1 ≤ settings.maxPagesPerFirm.toNat := by omega
  unfold worstCaseInputTokens fixedPromptTokens
  simp only [hcharacters, hcount', tokensFor, ceilDiv]
  have hmost : maxBlocks = 100 := rfl
  rw [hmost]
  generalize settings.maxPagesPerFirm.toNat = most at hle hone
  generalize min settings.maxPageBytes.toNat maxTextCharacters = characters at huser
  generalize (extractionUserText prompt ⟨firmName, pages.map FetchedPage.source⟩).length = user
    at huser
  generalize hper : (2 * characters + 5 - 1) / 5 + 100 * 8 + 300 = per
  -- a page's tokens leave room for its reference and its markers, and for the firm's name
  have hpage : 2 * (810 + 1000 + characters) + 1880 ≤ 5 * per := by omega
  have hall : pages.length * (2 * (810 + 1000 + characters)) ≤ most * (5 * per - 1880) :=
    Nat.mul_le_mul hle (by omega)
  have hroom : most * (5 * per - 1880) + 1880 ≤ 5 * (most * per) := by
    have hsplit : most * (5 * per - 1880) + most * 1880 = 5 * (most * per) := by
      rw [← Nat.mul_add, Nat.sub_add_cancel (by omega)]
      ring
    omega
  have htwice : pages.length * (2 * (810 + 1000 + characters))
      = 2 * (pages.length * (810 + 1000 + characters)) := by ring
  omega

def shortPrompt : Prompt :=
  ⟨js "Read the pages.", [(js "team", js "who works there")], js "\x7b\x7d"⟩

def bytesOf (text : String) : List UInt8 := (js text).map fun c => c.toNat.toUInt8

/-- A front page, a page of text and one that came empty. -/
def shortPages : List FetchedPage :=
  [⟨js "https://ada.example", bytesOf "<nav>Team</nav><h1>Ada</h1><p>We are two.</p>",
      js "text/html", true, true⟩,
    ⟨js "https://ada.example/team", bytesOf "Ann. Bob.", js "text/plain", false, false⟩,
    ⟨js "https://ada.example/jobs", [], js "text/html", false, true⟩]

theorem worst_case_covers_pages :
    tokensFor (shortPrompt.systemText.length + shortPrompt.outputSchema.length
        + (extractionUserText shortPrompt ⟨js "Ada", shortPages.map FetchedPage.source⟩).length)
      ≤ worstCaseInputTokens (fixedPromptTokens shortPrompt)
        ⟨true, 1, 1, 1, 4, 1024, js "claude-haiku-4-5"⟩ :=
  worst_case_covers shortPrompt ⟨true, 1, 1, 1, 4, 1024, js "claude-haiku-4-5"⟩ (js "Ada")
    shortPages (by decide) (by decide) (by decide) (by decide) (by decide +kernel)

end FoundingSales.Research
