import FoundingSales.Library.Regexes
import FoundingSales.Rules.TemplateFooter
import FoundingSales.Crm.Import
import Mathlib.Data.List.GetD
import Mathlib.Logic.Relation

/-!
Deterministic reply classification. An opt-out is read from the authored part of a reply
only: above the quote boundary, without the quoted lines and above the closing. A model's
suggestion labels an uncertain reply and changes nothing else.

Proved here:
* `authoredText_edit`: an edit of the quoted regions leaves the authored text as it is.
* `classifyReply_optOut_iff`, `classifyReply_human`: what an opt-out and a human reply need.
* `quoted_text_never_decides`: quoted text, truncated parts and models decide no reply.
-/

namespace FoundingSales.Rules.Replies

open Regexes

/-! ## Messages and classifications -/

structure ReplyHeaders where
  autoSubmitted : Option JsString
  listId : Option JsString
  contentType : Option JsString
  deriving DecidableEq

structure ReplyBodyPart where
  text : JsString
  truncated : Bool
  deriving DecidableEq

structure ReplyMessage where
  id : Uuid
  headers : ReplyHeaders
  bodyParts : List ReplyBodyPart
  deriving DecidableEq

inductive ReplyClass
  | human | uncertain | automated | bounce | optOut
  deriving DecidableEq

inductive ReplyDisposition
  | interested | referralOrWrongPerson | followUpLater | notInterested | optOut | other
  deriving DecidableEq

def ReplyClass.name : ReplyClass → JsString
  | human => js "human"
  | uncertain => js "uncertain"
  | automated => js "automated"
  | bounce => js "bounce"
  | optOut => js "opt_out"

def ReplyDisposition.name : ReplyDisposition → JsString
  | interested => js "interested"
  | referralOrWrongPerson => js "referral_or_wrong_person"
  | followUpLater => js "follow_up_later"
  | notInterested => js "not_interested"
  | optOut => js "opt_out"
  | other => js "other"

def replyClasses : List ReplyClass := [.human, .uncertain, .automated, .bounce, .optOut]

def replyDispositions : List ReplyDisposition :=
  [.interested, .referralOrWrongPerson, .followUpLater, .notInterested, .optOut, .other]

inductive SignalRule
  | salespersonConfirmation | explicitOptOut | deliveryStatusNotification | autoSubmittedHeader
  | listIdHeader | vacationPattern | ticketAcknowledgement | rejectionLanguage
  | schedulingLanguage | substantiveLanguage | modelSuggestion
  deriving DecidableEq

structure ReplySignal where
  rule : SignalRule
  evidence : JsString
  deriving DecidableEq

structure ReplyClassification where
  class_ : ReplyClass
  suggestedDisposition : Option ReplyDisposition
  signals : List ReplySignal
  requiresConfirmation : Bool
  messageId : Uuid
  deriving DecidableEq

/-! ## Expressions over code units -/

/-- The `i` flag folds ASCII letters among themselves only. -/
def foldAscii (c : UInt16) : UInt16 := if 65 ≤ c && c ≤ 90 then c + 32 else c

def word (text : String) : Regex UInt16 :=
  literal (fun c d => foldAscii c = foldAscii d) (js text)

def anyOf (texts : List String) : Regex UInt16 := oneOf (texts.map word)

def charIn (chars : String) : Regex UInt16 := .one fun c => c ∈ js chars

def space : Regex UInt16 := .one isSpace

/-- `.` stops at a line terminator. -/
def dot : Regex UInt16 := .one fun c => c ∉ [10, 13, 0x2028, 0x2029]

def isWord (c : UInt16) : Bool :=
  (48 ≤ c && c ≤ 57) || (65 ≤ c && c ≤ 90) || (97 ≤ c && c ≤ 122) || c = 95

/-- `\b(…)\b` -/
def wholeWord (r : Regex UInt16) : Regex UInt16 :=
  inOrder [.boundary isWord, r, .boundary isWord]

def vacationPattern : Regex UInt16 :=
  wholeWord (oneOf [inOrder [word "out of ", optional (word "the "), word "office"],
    word "automatic reply", word "autoreply", word "on vacation", word "annual leave"])

def ticketAcknowledgementPattern : Regex UInt16 :=
  wholeWord (oneOf [inOrder [word "ticket ", anyOf ["#", "number", "id"]],
    inOrder [word "case ", anyOf ["#", "number"]], word "your request has been received",
    inOrder [word "we have received your ", anyOf ["request", "message"]]])

def deliveryFailurePattern : Regex UInt16 :=
  wholeWord (oneOf [inOrder [word "delivery ", optional (word "has "), word "failed"],
    word "delivery status notification", word "undeliverable", word "address not found",
    inOrder [word "mailbox ", optional (word "is "), word "full"],
    word "recipient address rejected"])

def deliveryReportContentTypes : Regex UInt16 :=
  anyOf ["multipart/report", "message/delivery-status", "report-type=delivery-status"]

def quoteBoundaryPattern : Regex UInt16 :=
  .seq .atStart (.seq (.star space)
    (.alt (inOrder [word "On ", plus dot, word "wrote:"])
      (inOrder [charIn "-_", charIn "-_", .star (charIn "-_"), .star space,
        anyOf ["Original", "Forwarded"], word " Message"])))

def quotedLinePattern : Regex UInt16 :=
  .seq .atStart (.seq (.star space) (charIn ">"))

def closingPattern : Regex UInt16 :=
  .seq .atStart (.seq (.star (charIn " \t"))
    (.seq (oneOf [word "thanks", word "thank you",
        inOrder [word "best", optional (word " regards")], word "kind regards", word "regards",
        word "sincerely"])
      (inOrder [optional (charIn ",.!"), .star (charIn " \t"), .atEnd])))

def stopReplyPattern : Regex UInt16 :=
  inOrder [.atStart,
    optional (inOrder [anyOf ["no", "sorry", "hi", "hello"], plus (charIn " ,")]),
    oneOf [
      inOrder [optional (inOrder [word "please", plus space]), word "stop",
        optional (inOrder [plus space, anyOf ["please", "now"]])],
      inOrder [optional (inOrder [anyOf ["this", "that", "it"],
          .alt (inOrder [plus space, word "is"]) (word "'s"), plus space]),
        word "not", plus space, word "relevant",
        optional (inOrder [plus space, anyOf ["to", "for"], plus space,
          oneOf [word "us", word "me",
            inOrder [word "our", plus space, anyOf ["business", "company", "team"]]]])],
      inOrder [word "no", plus space, word "thank", optional (word "s")],
      inOrder [word "no", plus space, word "thank", plus space, word "you"],
      inOrder [optional (inOrder [anyOf ["we", "i"],
          oneOf [inOrder [plus space, word "are"], inOrder [plus space, word "am"],
            word "'re", word "'m"], plus space]),
        word "not", plus space, word "interested"]],
    optional (inOrder [.star space, optional (charIn ","), .star space,
      .alt (word "thanks") (inOrder [word "thank", plus space, word "you"])]),
    .star space, .atEnd]

def optOutSentencePattern : Regex UInt16 :=
  inOrder [.atStart, optional (inOrder [word "please", plus space]),
    oneOf [inOrder [word "unsubscribe", optional (word " me")],
      inOrder [word "stop ", anyOf ["emailing", "contacting", "messaging"], word " me"],
      inOrder [word "remove me", optional (inOrder [word " from ", anyOf ["your", "the"], word " ",
        anyOf ["list", "mailing list"]])],
      inOrder [anyOf ["do not", "don't"], word " contact me"]],
    .star space, .atEnd]

def trailingStopPattern : Regex UInt16 :=
  inOrder [word ",", .star space, word "but", plus space,
    optional (inOrder [word "please", plus space]), word "stop ",
    anyOf ["emailing", "contacting", "messaging"], word " me", .star space, .atEnd]

def rejectionPattern : Regex UInt16 :=
  wholeWord (anyOf ["not interested", "no thanks", "no thank you"])

def schedulingPattern : Regex UInt16 :=
  wholeWord (anyOf ["monday", "tuesday", "wednesday", "thursday", "friday", "schedule",
    "available", "calendar"])

def substantivePattern : Regex UInt16 :=
  .alt (charIn "?")
    (wholeWord (anyOf ["cost", "integration", "process", "product", "how", "why", "pricing"]))

/-! ## The authored part -/

def dropReturn (line : JsString) : JsString :=
  if line.getLast? = some 13 then line.dropLast else line

/-- `raw.split(/\r?\n/)`: a return belongs to the newline after it. -/
def replyLines (raw : JsString) : List JsString :=
  let lines := raw.splitOn newline
  lines.dropLast.map dropReturn ++ lines.getLast?.toList

def isQuoteBoundary (line : JsString) : Bool := test quoteBoundaryPattern line
def isQuotedLine (line : JsString) : Bool := test quotedLinePattern line
def isClosing (line : JsString) : Bool := test closingPattern line
def hasText (line : JsString) : Bool := (trim line).length > 0

/-- The lines above the quote boundary, without the quoted ones. -/
def unquotedLines : List JsString → List JsString
  | [] => []
  | line :: rest =>
    if isQuoteBoundary line then []
    else if !isQuotedLine line then line :: unquotedLines rest
    else unquotedLines rest

/-- A closing line that follows authored text. -/
def cutsAt (lines : List JsString) (index : Nat) : Bool :=
  0 < index && (lines.take index).any hasText && isClosing (lines.getD index [])

/-- `lines.findIndex(cutsAt)` -/
def closingIndex (lines : List JsString) : Option Nat :=
  (List.range lines.length).find? (cutsAt lines)

def authoredLines (lines : List JsString) : List JsString :=
  match closingIndex lines with
  | some closing => lines.take closing
  | none => lines

def authoredText (raw : JsString) : JsString :=
  trim (joinLines (authoredLines (unquotedLines (replyLines raw))))

def hasExplicitOptOut (authored : JsString) : Bool :=
  let straight := authored.map fun c => if c = 0x2019 then 39 else c
  let sentences := (Crm.Import.collapseSpaces straight).splitOnP fun c => c = 46 || c = 33
  sentences.any fun sentence =>
    let trimmed := trim sentence
    test optOutSentencePattern trimmed || test trailingStopPattern trimmed
      || test stopReplyPattern trimmed

/-! ## Classification -/

structure UserConfirmation where
  userId : Uuid
  disposition : ReplyDisposition
  deriving DecidableEq

def rawText (message : ReplyMessage) : JsString :=
  joinLines (message.bodyParts.map (·.text))

def isTruncated (message : ReplyMessage) : Bool := message.bodyParts.any (·.truncated)

def classifyReply (P : Platform) (message : ReplyMessage)
    (confirmedByUser : Option UserConfirmation) : ReplyClassification :=
  let raw := rawText message
  let authored := authoredText raw
  let truncated := isTruncated message
  let contentType := message.headers.contentType.getD []
  let automated (rule : SignalRule) (evidence : JsString) : ReplyClassification :=
    ⟨.automated, none, [⟨rule, evidence⟩], true, message.id⟩
  match confirmedByUser with
  | some confirmation =>
    ⟨if confirmation.disposition = .optOut then .optOut else .human,
      some confirmation.disposition, [⟨.salespersonConfirmation, confirmation.userId⟩], false,
      message.id⟩
  | none =>
    if !truncated && hasExplicitOptOut authored then
      ⟨.optOut, some .optOut, [⟨.explicitOptOut, authored.take 200⟩], false, message.id⟩
    else if test deliveryReportContentTypes contentType || test deliveryFailurePattern raw then
      ⟨.bounce, none,
        [⟨.deliveryStatusNotification, if contentType = [] then js "body" else contentType⟩], true,
        message.id⟩
    else
      match message.headers.autoSubmitted.filter fun value =>
        P.toLowerCase (trim value) ≠ js "no" with
      | some value => automated .autoSubmittedHeader value
      | none =>
        match message.headers.listId.filter hasText with
        | some value => automated .listIdHeader value
        | none =>
          if test vacationPattern raw then automated .vacationPattern (js "matched")
          else if test ticketAcknowledgementPattern raw then
            automated .ticketAcknowledgement (js "matched")
          else if test rejectionPattern authored then
            ⟨.uncertain, some .notInterested, [⟨.rejectionLanguage, js "matched"⟩], true,
              message.id⟩
          else
            let scheduling := test schedulingPattern authored
            let substantive := test substantivePattern authored
            ⟨.uncertain, if scheduling || substantive then some .interested else none,
              (if scheduling then [⟨.schedulingLanguage, js "matched"⟩] else []) ++
                (if substantive then [⟨.substantiveLanguage, js "matched"⟩] else []),
              true, message.id⟩

/-! ## A model's suggestion -/

structure ModelSuggestion (Number : Type*) where
  class_ : Option JsString
  disposition : Option JsString
  confidence : Option Number

/-- `toFixed2` is `value.toFixed(2)`. -/
def applyModelSuggestion {Number : Type*} (zero : Number) (toFixed2 : Number → JsString)
    (deterministic : ReplyClassification)
    (suggestion : Option (ModelSuggestion Number)) : ReplyClassification :=
  if deterministic.class_ ≠ .uncertain then deterministic
  else
    match suggestion with
    | none => deterministic
    | some suggestion =>
      let disposition := replyDispositions.find? fun value =>
        some value.name = suggestion.disposition
      let suggested := replyClasses.find? fun value => some value.name = suggestion.class_
      let confidence := suggestion.confidence.getD zero
      { deterministic with
        class_ := .uncertain
        suggestedDisposition := disposition <|> deterministic.suggestedDisposition
        signals := deterministic.signals ++ [⟨.modelSuggestion,
          (suggested.map ReplyClass.name).getD (js "unreadable") ++ js "@" ++ toFixed2 confidence⟩]
        requiresConfirmation := true }

example : authoredText (js "Please stop emailing me.\nOn Tue someone wrote:\n> anything at all")
    = js "Please stop emailing me." := by decide +kernel

example : hasExplicitOptOut (js "No thanks, please unsubscribe me. It’s not relevant to our team!")
    = true := by decide +kernel

/-! ## Lines of one kind -/

theorem foldAscii_eq {c d : UInt16} (h : foldAscii c = foldAscii d) :
    d = foldAscii c ∨ d = foldAscii c - 32 := by
  rw [h]
  unfold foldAscii
  split
  · exact .inr (by simp)
  · exact .inl rfl

/-- Neither blank nor the quote mark. -/
def IsInk (c : UInt16) : Prop := isSpace c = false ∧ c ≠ 62

instance (c : UInt16) : Decidable (IsInk c) := inferInstanceAs (Decidable (_ ∧ _))

theorem opens_word {text : String} {c : UInt16} {rest : JsString} (htext : js text = c :: rest)
    (hlower : IsInk (foldAscii c)) (hupper : IsInk (foldAscii c - 32)) :
    Opens IsInk (word text) := by
  unfold word
  rw [htext]
  apply Opens.literal
  intro d hd
  rcases foldAscii_eq (of_decide_eq_true hd) with rfl | rfl
  · exact hlower
  · exact hupper

theorem isQuoteBoundary_opens {line : JsString} (h : isQuoteBoundary line = true) :
    ∃ skipped c rest, line = skipped ++ c :: rest ∧ (∀ x ∈ skipped, isSpace x = true) ∧
      IsInk c := by
  refine Opens.after_skipped (Opens.alt (Opens.seq ?_) (Opens.seq ?_)) h
  · exact opens_word (c := 79) rfl (by decide) (by decide)
  · apply Opens.one
    intro c hc
    have hmem : c ∈ js "-_" := of_decide_eq_true hc
    have hall : ∀ d ∈ js "-_", IsInk d := Texts.forall_of_all (by decide)
    exact hall c hmem

theorem isClosing_opens {line : JsString} (h : isClosing line = true) :
    ∃ skipped c rest, line = skipped ++ c :: rest ∧
      (∀ x ∈ skipped, (decide (x ∈ js " \t")) = true) ∧ IsInk c := by
  refine Opens.after_skipped (Opens.seq (Opens.oneOf ?_)) h
  intro r hr
  simp only [List.mem_cons, List.not_mem_nil, or_false] at hr
  rcases hr with rfl | rfl | rfl | rfl | rfl | rfl
  · exact opens_word (c := 116) rfl (by decide) (by decide)
  · exact opens_word (c := 116) rfl (by decide) (by decide)
  · exact (opens_word (c := 98) rfl (by decide) (by decide)).seq
  · exact opens_word (c := 107) rfl (by decide) (by decide)
  · exact opens_word (c := 114) rfl (by decide) (by decide)
  · exact opens_word (c := 115) rfl (by decide) (by decide)

theorem isQuotedLine_opens {line : JsString} (h : isQuotedLine line = true) :
    ∃ skipped c rest, line = skipped ++ c :: rest ∧ (∀ x ∈ skipped, isSpace x = true) ∧
      c = 62 := by
  refine Opens.after_skipped (Opens.one ?_) h
  intro c hc
  have hmem : c ∈ js ">" := of_decide_eq_true hc
  have hjs : js ">" = [62] := rfl
  rwa [hjs, List.mem_singleton] at hmem

/-- A line that opens with ink after blanks is no quoted line. -/
theorem not_quoted_of_opens {line : JsString} {blank : UInt16 → Bool}
    (h : ∃ skipped c rest, line = skipped ++ c :: rest ∧ (∀ x ∈ skipped, blank x = true) ∧
      IsInk c) (hblank : blank 62 = false) : isQuotedLine line = false := by
  rw [Bool.eq_false_iff]
  intro hquoted
  obtain ⟨skipped, c, rest, hline, hskipped, hspace, hc⟩ := h
  obtain ⟨others, d, rest', hline', hothers, rfl⟩ := isQuotedLine_opens hquoted
  exact hc (head_of_skipped (hline.symm.trans hline') hskipped hothers hspace hblank)

theorem isQuoteBoundary_not_quoted {line : JsString} (h : isQuoteBoundary line = true) :
    isQuotedLine line = false :=
  not_quoted_of_opens (isQuoteBoundary_opens h) (by decide)

theorem isClosing_not_quoted {line : JsString} (h : isClosing line = true) :
    isQuotedLine line = false :=
  not_quoted_of_opens (isClosing_opens h) (by decide)

/-! ## The cuts are made line by line -/

theorem unquotedLines_append (above rest : List JsString) :
    unquotedLines (above ++ rest)
      = unquotedLines above ++ if above.any isQuoteBoundary then [] else unquotedLines rest := by
  induction above with
  | nil => rfl
  | cons line above ih =>
    rw [List.cons_append, unquotedLines, unquotedLines, List.any_cons]
    cases hboundary : isQuoteBoundary line with
    | true => rfl
    | false =>
      simp only [Bool.false_or, ih]
      cases isQuotedLine line with
      | true => rfl
      | false => rfl

/-- Quoted lines are not seen: the boundary is never one of them. -/
theorem unquotedLines_filter (lines : List JsString) :
    unquotedLines (lines.filter fun line => !isQuotedLine line) = unquotedLines lines := by
  induction lines with
  | nil => rfl
  | cons line lines ih =>
    rw [unquotedLines]
    cases hboundary : isQuoteBoundary line with
    | true =>
      rw [List.filter_cons_of_pos (by simp [isQuoteBoundary_not_quoted hboundary]), unquotedLines,
        hboundary]
      rfl
    | false =>
      cases hquoted : isQuotedLine line with
      | true =>
        rw [List.filter_cons_of_neg (by simp [hquoted])]
        exact ih
      | false =>
        rw [List.filter_cons_of_pos (by simp [hquoted]), unquotedLines, hboundary, hquoted, ih]

theorem mem_unquotedLines {lines : List JsString} {line : JsString} (hmem : line ∈ lines)
    (hquoted : isQuotedLine line = false) (hboundary : lines.any isQuoteBoundary = false) :
    line ∈ unquotedLines lines := by
  induction lines with
  | nil => cases hmem
  | cons first lines ih =>
    rw [List.any_cons, Bool.or_eq_false_iff] at hboundary
    rw [unquotedLines, hboundary.1]
    rcases List.mem_cons.1 hmem with rfl | hmem
    · rw [hquoted]
      exact List.mem_cons_self
    · have hrest := ih hmem hboundary.2
      cases isQuotedLine first with
      | true => exact hrest
      | false => exact List.mem_cons_of_mem _ hrest

theorem cutsAt_append {lines rest : List JsString} {index : Nat} (h : index < lines.length) :
    cutsAt (lines ++ rest) index = cutsAt lines index := by
  unfold cutsAt
  rw [List.take_append_of_le_length (Nat.le_of_lt h), List.getD_append _ _ _ _ h]

/-- Once there is a closing, more lines below it are not read. -/
theorem authoredLines_append {lines rest : List JsString} {index : Nat}
    (h : closingIndex lines = some index) :
    authoredLines (lines ++ rest) = authoredLines lines := by
  obtain ⟨hcuts, hmem, hbefore⟩ := List.find?_range_eq_some.1 h
  have hlt : index < lines.length := List.mem_range.1 hmem
  have happend : closingIndex (lines ++ rest) = some index := by
    apply List.find?_range_eq_some.2
    refine ⟨by rwa [cutsAt_append hlt], List.mem_range.2 ?_, ?_⟩
    · rw [List.length_append]
      omega
    · intro earlier hearlier
      rw [cutsAt_append (hearlier.trans hlt)]
      exact hbefore earlier hearlier
  unfold authoredLines
  rw [h, happend]
  exact List.take_append_of_le_length (Nat.le_of_lt hlt)

theorem closingIndex_closing {above : List JsString} {closing : JsString}
    (hauthored : above.any hasText = true) (hclosing : isClosing closing = true) :
    ∃ index, closingIndex (above ++ [closing]) = some index := by
  rw [← Option.isSome_iff_exists]
  unfold closingIndex
  rw [List.find?_isSome]
  refine ⟨above.length, List.mem_range.2 (by simp), ?_⟩
  have hpos : 0 < above.length := by
    cases above with
    | nil => cases hauthored
    | cons line above => exact Nat.succ_pos _
  unfold cutsAt
  rw [List.take_left, hauthored, List.getD_append_right _ _ _ _ (Nat.le_refl _), Nat.sub_self]
  simpa [hpos] using hclosing

/-! ## Edits of the quoted regions -/

/-- One edit of a text by its lines: below a quote boundary, of the quoted lines, or below
a closing that follows authored text. -/
inductive QuotedEdit : List JsString → List JsString → Prop
  | belowBoundary (above below below' : List JsString) {boundary : JsString}
      (h : isQuoteBoundary boundary = true) :
      QuotedEdit (above ++ boundary :: below) (above ++ boundary :: below')
  | quotedLines {lines lines' : List JsString}
      (h : lines.filter (fun line => !isQuotedLine line)
        = lines'.filter fun line => !isQuotedLine line) : QuotedEdit lines lines'
  | belowClosing (above below below' : List JsString) {closing line : JsString}
      (hclosing : isClosing closing = true) (hline : line ∈ above)
      (hquoted : isQuotedLine line = false) (htext : hasText line = true) :
      QuotedEdit (above ++ closing :: below) (above ++ closing :: below')

theorem authoredLines_edit {lines lines' : List JsString} (h : QuotedEdit lines lines') :
    authoredLines (unquotedLines lines) = authoredLines (unquotedLines lines') := by
  cases h with
  | belowBoundary above below below' h =>
    rw [unquotedLines_append, unquotedLines_append, unquotedLines, unquotedLines, if_pos h,
      if_pos h]
  | quotedLines h => rw [← unquotedLines_filter lines, ← unquotedLines_filter lines', h]
  | @belowClosing above below below' closing line hclosing hline hquoted htext =>
    rw [unquotedLines_append, unquotedLines_append]
    cases hboundary : above.any isQuoteBoundary with
    | true => rfl
    | false =>
      have hauthored : (unquotedLines above).any hasText = true :=
        List.any_eq_true.2 ⟨line, mem_unquotedLines hline hquoted hboundary, htext⟩
      have hread : ∀ rest, unquotedLines (closing :: rest)
          = if isQuoteBoundary closing then [] else closing :: unquotedLines rest := by
        intro rest
        rw [unquotedLines, isClosing_not_quoted hclosing]
        rfl
      simp only [hread, Bool.false_eq_true, if_false]
      cases isQuoteBoundary closing with
      | true => rfl
      | false =>
        obtain ⟨index, hindex⟩ := closingIndex_closing hauthored hclosing
        have hcut : ∀ rest, authoredLines (unquotedLines above ++ closing :: rest)
            = authoredLines (unquotedLines above ++ [closing]) := by
          intro rest
          rw [← authoredLines_append hindex, List.append_assoc]
          rfl
        exact (hcut _).trans (hcut _).symm

/-- Texts whose lines differ by edits of the quoted regions have one authored part. -/
theorem authoredText_edit {raw raw' : JsString}
    (h : Relation.ReflTransGen QuotedEdit (replyLines raw) (replyLines raw')) :
    authoredText raw = authoredText raw' := by
  have hlines : authoredLines (unquotedLines (replyLines raw))
      = authoredLines (unquotedLines (replyLines raw')) := by
    generalize replyLines raw' = lines' at h
    induction h with
    | refl => rfl
    | tail _ hedit ih => exact ih.trans (authoredLines_edit hedit)
  unfold authoredText
  rw [hlines]

/-- The same message but for the quoted regions of its joined parts. -/
structure Requoted (message message' : ReplyMessage) : Prop where
  lines : Relation.ReflTransGen QuotedEdit (replyLines (rawText message))
    (replyLines (rawText message'))
  truncated : isTruncated message = isTruncated message'

/-! ## What a classification needs -/

theorem classifyReply_optOut_iff (P : Platform) (message : ReplyMessage) :
    (classifyReply P message none).class_ = .optOut
      ↔ isTruncated message = false ∧
        hasExplicitOptOut (authoredText (rawText message)) = true := by
  simp only [classifyReply]
  split
  · rename_i h
    rw [Bool.and_eq_true, Bool.not_eq_true'] at h
    simp [h]
  · rename_i h
    rw [Bool.and_eq_true, Bool.not_eq_true'] at h
    simp only [h, iff_false]
    repeat' split
    all_goals simp

theorem classifyReply_human {P : Platform} {message : ReplyMessage}
    {confirmedByUser : Option UserConfirmation}
    (h : (classifyReply P message confirmedByUser).class_ = .human) :
    ∃ confirmation, confirmedByUser = some confirmation := by
  cases confirmedByUser with
  | some confirmation => exact ⟨confirmation, rfl⟩
  | none =>
    exfalso
    simp only [classifyReply] at h
    repeat' split at h
    all_goals simp at h

theorem applyModelSuggestion_spec {Number : Type*} (zero : Number) (toFixed2 : Number → JsString)
    (deterministic : ReplyClassification) (suggestion : Option (ModelSuggestion Number)) :
    (applyModelSuggestion zero toFixed2 deterministic suggestion).class_ = deterministic.class_ ∧
      deterministic.signals
        <+: (applyModelSuggestion zero toFixed2 deterministic suggestion).signals ∧
      (deterministic.requiresConfirmation = true →
        (applyModelSuggestion zero toFixed2 deterministic suggestion).requiresConfirmation
          = true) := by
  unfold applyModelSuggestion
  split
  · exact ⟨rfl, List.prefix_rfl, id⟩
  · rename_i hclass
    cases suggestion with
    | none => exact ⟨rfl, List.prefix_rfl, id⟩
    | some suggestion =>
      exact ⟨(not_not.1 hclass).symm, List.prefix_append _ _, fun _ => rfl⟩

/-- Quoted text, a truncated part and a model decide no reply: an opt-out does not depend
on the quoted regions and is never read from a truncated message, only a confirmation
makes a reply human, and a suggestion keeps the class, the signals and the confirmation
that is due. -/
theorem quoted_text_never_decides (P : Platform) :
    (∀ message message', Requoted message message' →
      ((classifyReply P message none).class_ = .optOut
        ↔ (classifyReply P message' none).class_ = .optOut)) ∧
    (∀ message, isTruncated message = true → (classifyReply P message none).class_ ≠ .optOut) ∧
    (∀ message, (classifyReply P message none).class_ ≠ .human) ∧
    ∀ (Number : Type) (zero : Number) (toFixed2 : Number → JsString) deterministic suggestion,
      let applied := applyModelSuggestion zero toFixed2 deterministic suggestion
      applied.class_ = deterministic.class_ ∧ deterministic.signals <+: applied.signals ∧
        (deterministic.requiresConfirmation = true → applied.requiresConfirmation = true) := by
  refine ⟨?_, ?_, ?_, ?_⟩
  · intro message message' h
    rw [classifyReply_optOut_iff, classifyReply_optOut_iff, h.truncated, authoredText_edit h.lines]
  · intro message htruncated hclass
    rw [((classifyReply_optOut_iff P message).1 hclass).1] at htruncated
    cases htruncated
  · intro message hclass
    obtain ⟨confirmation, hconfirmation⟩ := classifyReply_human hclass
    cases hconfirmation
  · intro Number zero toFixed2 deterministic suggestion
    exact applyModelSuggestion_spec zero toFixed2 deterministic suggestion

/-- A reply above a quoted message that asks to unsubscribe, and above another one. -/
theorem quoted_text_never_decides_unsubscribe :
    (classifyReply (asciiPlatform []) ⟨js "m", ⟨none, none, none⟩,
        [⟨js "Tell me more.\nOn Tue Ann wrote:\nUnsubscribe.", false⟩]⟩ none).class_ = .optOut
      ↔ (classifyReply (asciiPlatform []) ⟨js "m", ⟨none, none, none⟩,
        [⟨js "Tell me more.\nOn Tue Ann wrote:\nHi.", false⟩]⟩ none).class_ = .optOut := by
  have hraw : ∀ text, rawText ⟨js "m", ⟨none, none, none⟩, [⟨text, false⟩]⟩ = text := by
    intro text
    simp [rawText, joinLines]
  have hboundary : isQuoteBoundary (js "On Tue Ann wrote:") = true := by decide +kernel
  have hedit := QuotedEdit.belowBoundary [js "Tell me more."] [js "Unsubscribe."] [js "Hi."]
    hboundary
  have hlines : replyLines (js "Tell me more.\nOn Tue Ann wrote:\nUnsubscribe.")
      = [js "Tell me more."] ++ js "On Tue Ann wrote:" :: [js "Unsubscribe."] := by decide +kernel
  have hlines' : replyLines (js "Tell me more.\nOn Tue Ann wrote:\nHi.")
      = [js "Tell me more."] ++ js "On Tue Ann wrote:" :: [js "Hi."] := by decide +kernel
  rw [← hlines, ← hlines'] at hedit
  refine (quoted_text_never_decides (asciiPlatform [])).1 _ _ ⟨?_, by decide⟩
  rw [hraw, hraw]
  exact .single hedit

end FoundingSales.Rules.Replies
