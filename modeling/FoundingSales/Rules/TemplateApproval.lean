import FoundingSales.Rules.ComposedBodies

/-!
What an approval checks of a template's text, and what it is worth at the send.

The approval composes with no address and none recorded. The send knows more blocks, so it may
recognise a longer one, or one where the approval saw none; what stays of the body is then less
of it (`keptAtSend_begins`), and what stays carries no stop sentence.

Proved here:

* `approved_composes`: an approved text composes at the approval;
* `kept_no_stopLine`: what a send keeps of an approved body carries no stop sentence;
* `approved_template_unambiguous`: every approved text, at every send.
-/

namespace FoundingSales.Rules

open Contracts

def templateSubjectMaxLength : Nat := 160
def templateBodyMaxLength : Nat := 4000

structure TemplateText where
  subject : JsString
  body : JsString
  deriving DecidableEq

structure TemplateRules where
  footer : SendFooterConfiguration
  allowedVariables : List JsString
  requiredSentence : Option JsString
  deriving DecidableEq

inductive TemplateTextIssue
  | templateSubjectEmpty | templateSubjectTooLong | templateSubjectNotOneLine
  | templateBodyTooLongInCharacters | templateBodyNotPlainText | templateBodyMarkup
  | templateOptoutLink | templateSignOffRepeatsStopLine | templateFooterMissing
  | templateRequiredSentenceMissing | templateUnknownVariable
  deriving DecidableEq

/-- `/[\x00-\x1f\x7f]/` -/
def isControl (c : UInt16) : Bool := c ≤ 0x1F || c = 0x7F

/-- `/[\x00-\x08\x0b-\x1f\x7f]|\r/` -/
def isBodyControl (c : UInt16) : Bool := c ≤ 0x08 || (0x0B ≤ c && c ≤ 0x1F) || c = 0x7F

def isTagStart (c : UInt16) : Bool :=
  (65 ≤ c && c ≤ 90) || (97 ≤ c && c ≤ 122) || c = 0x2F || c = 0x21

/-- `/<[a-z/!][^>]*>/i.test(text)` -/
def hasMarkup (text : JsString) : Bool :=
  text.tails.any fun rest =>
    match rest with
    | bracket :: first :: inside => bracket = 0x3C && isTagStart first && inside.contains 0x3E
    | _ => false

/-- What stands between a `{` at the start of the text and the `}` that is its next brace. -/
def placeholderAt : JsString → Option JsString
  | [] => none
  | c :: inside =>
    let name := inside.takeWhile fun d => d != 0x7B && d != 0x7D
    if c = 0x7B && (inside.drop name.length).head? = some 0x7D then some name else none

/-- `value.match(/\{[^{}]*\}/g)`, without the braces. -/
def placeholders (value : JsString) : List JsString := value.tails.filterMap placeholderAt

/-- `if (condition) issues.push(issue)` -/
def pushIssue (condition : Bool) (issue : TemplateTextIssue) (issues : List TemplateTextIssue) :
    List TemplateTextIssue :=
  if condition then issues ++ [issue] else issues

/-- The footer an approval composes under: no address and none recorded. -/
def approvalFooter (footer : SendFooterConfiguration) : SendFooterConfiguration :=
  { footer with postalAddress := none, recordedAddresses := [] }

/-- What a refused composition is reported as. -/
def refusalIssue : ComposeSendBodyRefusal → TemplateTextIssue
  | .composedBodyTooLong => .templateBodyTooLongInCharacters
  | .optoutLink => .templateOptoutLink
  | .postalAddressRequired | .footerAmbiguous => .templateFooterMissing

def pushComposition (composed : ComposeSendBodyDecision) (signOffRepeatsStopLine : Bool)
    (issues : List TemplateTextIssue) : List TemplateTextIssue :=
  match composed with
  | .composed _ _ _ => issues
  | .refused reason _ =>
    pushIssue (!signOffRepeatsStopLine && !issues.contains (refusalIssue reason))
      (refusalIssue reason) issues

def templateTextIssues (P : Platform) (text : TemplateText) (rules : TemplateRules) :
    List TemplateTextIssue :=
  let issues := pushIssue ((trim text.subject).length = 0) .templateSubjectEmpty []
  let issues := pushIssue (text.subject.length > templateSubjectMaxLength)
    .templateSubjectTooLong issues
  let issues := pushIssue (text.subject.any isControl) .templateSubjectNotOneLine issues
  let issues := pushIssue (text.body.length > templateBodyMaxLength)
    .templateBodyTooLongInCharacters issues
  let issues := pushIssue (text.body.any isBodyControl) .templateBodyNotPlainText issues
  let issues := pushIssue (hasMarkup text.body) .templateBodyMarkup issues
  let issues := pushIssue (hasOptOutLink P text.subject || hasOptOutLink P text.body
    || hasOptOutLink P rules.footer.signOff) .templateOptoutLink issues
  let signOffRepeatsStopLine := hasStopLine rules.footer.signOff
  let issues := pushIssue signOffRepeatsStopLine .templateSignOffRepeatsStopLine issues
  let composed := composeSendBody P text.body (approvalFooter rules.footer) approvalFooterPolicy
  let issues := pushComposition composed signOffRepeatsStopLine issues
  let issues := pushIssue (rules.requiredSentence.any fun sentence => !includes text.body sentence)
    .templateRequiredSentenceMissing issues
  pushIssue ((placeholders text.subject ++ placeholders text.body).any
    fun name => !rules.allowedVariables.contains name) .templateUnknownVariable issues

/-! ## An approved text -/

theorem pushIssue_eq_nil {condition : Bool} {issue : TemplateTextIssue}
    {issues : List TemplateTextIssue} :
    pushIssue condition issue issues = [] ↔ condition = false ∧ issues = [] := by
  cases condition <;> simp [pushIssue]

theorem pushComposition_eq_nil {composed : ComposeSendBodyDecision}
    {issues : List TemplateTextIssue} (h : pushComposition composed false issues = []) :
    issues = [] ∧ ∃ b changed deduped, composed = .composed b changed deduped := by
  cases composed with
  | composed b changed deduped => exact ⟨h, b, changed, deduped, rfl⟩
  | refused reason detail =>
    obtain ⟨hcontains, rfl⟩ := pushIssue_eq_nil.1 h
    cases hcontains

/-- An approved text composes at the approval, and its sign-off carries no stop sentence. -/
theorem approved_composes {P : Platform} {text : TemplateText} {rules : TemplateRules}
    (h : templateTextIssues P text rules = []) :
    hasStopLine rules.footer.signOff = false ∧
      ∃ b changed deduped, composeSendBody P text.body (approvalFooter rules.footer)
        approvalFooterPolicy = .composed b changed deduped := by
  simp only [templateTextIssues] at h
  have hcomposed := (pushIssue_eq_nil.1 (pushIssue_eq_nil.1 h).2).2
  by_cases hrepeats : hasStopLine rules.footer.signOff = true
  · rw [hrepeats] at hcomposed
    have hissues : ∀ composed issues, pushComposition composed true issues = [] → issues = [] := by
      intro composed issues hpush
      cases composed with
      | composed b changed deduped => exact hpush
      | refused reason detail => exact (pushIssue_eq_nil.1 hpush).2
    have hcondition := (pushIssue_eq_nil.1 (hissues _ _ hcomposed)).1
    cases hcondition
  · rw [Bool.not_eq_true] at hrepeats
    rw [hrepeats] at hcomposed
    exact ⟨hrepeats, (pushComposition_eq_nil hcomposed).2⟩

/-! ## What a composition keeps of the body -/

/-- `body.slice(0, blockStart ?? stripped.length)` -/
def keptOf (body : JsString) (configuration : SendFooterConfiguration) : JsString :=
  body.take ((footerBlockStart body configuration).getD (trimEnd body).length)

theorem candidateAddresses_approval (footer : SendFooterConfiguration) :
    candidateAddresses (approvalFooter footer) = [] := rfl

/-- The send knows every block the approval knew. -/
theorem candidates_of_approval {footer configuration : SendFooterConfiguration}
    (hsignOff : configuration.signOff = footer.signOff) {block : JsString}
    (h : block ∈ candidateFooterBlocks (approvalFooter footer)) :
    block ∈ candidateFooterBlocks configuration := by
  apply mem_candidateFooterBlocks.2
  rcases mem_candidateFooterBlocks.1 h with ⟨head, hhead, heq⟩ | ⟨address, haddress, heq⟩
  · left
    refine ⟨head, ?_, heq⟩
    rcases head_cases hhead with ⟨-, hnone⟩ | ⟨hsign, rfl | ⟨address, hnone, -⟩⟩
    · rw [candidateAddresses_approval] at hnone
      cases hnone
    · have hlength : (trim configuration.signOff).length ≠ 0 := by
        rw [hsignOff]
        exact fun hzero => hsign (List.length_eq_zero_iff.1 hzero)
      simp only [candidateHeads, hlength, ↓reduceIte]
      rw [hsignOff]
      exact List.mem_cons_self
    · rw [candidateAddresses_approval] at hnone
      cases hnone
  · right
    rw [candidateAddresses_approval, List.mem_singleton] at haddress
    refine ⟨[], List.mem_cons_self, ?_⟩
    rw [heq, haddress, hsignOff]
    rfl

/-- A send recognises a block where the approval did, and one that starts no later. -/
theorem footerBlockStart_of_approval {footer configuration : SendFooterConfiguration}
    (hsignOff : configuration.signOff = footer.signOff) {body : JsString} {start : Nat}
    (h : footerBlockStart body (approvalFooter footer) = some start) :
    ∃ earlier ≤ start, footerBlockStart body configuration = some earlier := by
  obtain ⟨block, hfind, hstart⟩ := Option.map_eq_some_iff.1 h
  have hmem := candidates_of_approval hsignOff (List.mem_of_find?_eq_some hfind)
  have hstands := List.find?_some hfind
  cases hsend : (candidateFooterBlocks configuration).find? (standsAtEnd (trimEnd body)) with
  | none =>
    have hnone := List.find?_eq_none.1 hsend block hmem
    exact absurd hstands hnone
  | some longer =>
    have hlonger : block.length ≤ longer.length := by
      rcases Texts.find?_sorted candidates_longest_first hsend hmem hstands with rfl | hle
      · exact Nat.le_refl _
      · exact hle
    refine ⟨(trimEnd body).length - longer.length, ?_, ?_⟩
    · rw [← hstart]
      exact Nat.sub_le_sub_left hlonger _
    · simp only [footerBlockStart, hsend, Option.map_some]

/-- Whatever a send recognises, it keeps no more than the body without white space at its end. -/
theorem keptOf_prefix (body : JsString) (configuration : SendFooterConfiguration) :
    keptOf body configuration <+: trimEnd body := by
  have hstripped : trimEnd body <+: body := List.rdropWhile_prefix _ _
  have hle : (footerBlockStart body configuration).getD (trimEnd body).length
      ≤ (trimEnd body).length := by
    cases hstart : footerBlockStart body configuration with
    | none => exact Nat.le_refl _
    | some start =>
      obtain ⟨block, -, rfl⟩ := Option.map_eq_some_iff.1 hstart
      exact Nat.sub_le _ _
  apply List.prefix_of_prefix_length_le (List.take_prefix _ _) hstripped
  rw [List.length_take]
  exact (Nat.min_le_left _ _).trans hle

/-- A send keeps no more of the body than the approval did. -/
theorem keptAtSend_begins {footer configuration : SendFooterConfiguration}
    (hsignOff : configuration.signOff = footer.signOff) (body : JsString) :
    keptOf body configuration <+: keptOf body (approvalFooter footer) := by
  cases hstart : footerBlockStart body (approvalFooter footer) with
  | none =>
    have hkept : keptOf body (approvalFooter footer) = trimEnd body := by
      rw [keptOf, hstart]
      exact (List.prefix_iff_eq_take.1 (List.rdropWhile_prefix _ _)).symm
    rw [hkept]
    exact keptOf_prefix body configuration
  | some start =>
    obtain ⟨earlier, hle, hsend⟩ := footerBlockStart_of_approval hsignOff hstart
    rw [keptOf, keptOf, hstart, hsend]
    exact List.take_prefix_take_left hle

/-! ## Stop sentences -/

theorem hasStopLine_eq_false {text : JsString} :
    hasStopLine text = false ↔
      ∀ line ∈ [sendingStopLine, legacySendingStopLine], ¬ line <:+: text := by
  simp [hasStopLine, includes]

/-- What the stop sentences have in common. -/
structure StopSentence (line : JsString) : Prop where
  single : newline ∉ line
  no_dot : (0xB7 : UInt16) ∉ line
  first : line.head? ≠ some 0x20
  not_blank : line ≠ []
  not_company : ¬ line <:+: footerCompanyName ++ [0x20]

theorem stopSentence {line : JsString}
    (h : line ∈ [sendingStopLine, legacySendingStopLine]) : StopSentence line := by
  have hlines : ∀ line ∈ [sendingStopLine, legacySendingStopLine],
      newline ∉ line ∧ (0xB7 : UInt16) ∉ line ∧ line.head? ≠ some 0x20 ∧ line ≠ [] ∧
        ¬ line <:+: footerCompanyName ++ [0x20] := by
    decide +kernel
  obtain ⟨hsingle, hdot, hfirst, hblank, hcompany⟩ := hlines line h
  exact ⟨hsingle, hdot, hfirst, hblank, hcompany⟩

variable {line : JsString}

/-- A stop sentence in the company line is one in the address. -/
theorem StopSentence.not_companyLine (h : StopSentence line) {address : JsString}
    (haddress : ¬ line <:+: address) : ¬ line <:+: companyLine address := by
  have hname : ¬ line <:+: footerCompanyName :=
    fun hin => h.not_company (hin.trans (List.prefix_append _ _).isInfix)
  unfold companyLine
  split
  · exact hname
  · have hdot : footerCompanyName ++ js " \u00B7 " ++ address
        = (footerCompanyName ++ [0x20]) ++ 0xB7 :: 0x20 :: address := by
      have hjs : js " \u00B7 " = [0x20, 0xB7, 0x20] := by decide
      rw [hjs]
      simp
    rw [hdot]
    intro hin
    rcases Texts.infix_append_cons h.no_dot hin with hin | hin
    · exact h.not_company hin
    · rcases List.infix_cons_iff.1 hin with hbegins | hin
      · cases line with
        | nil => exact h.not_blank rfl
        | cons c rest =>
          rw [(List.cons_prefix_cons.1 hbegins).1] at h
          exact h.first rfl
      · exact haddress hin

/-- Above the stop sentence of a composed body stand what was kept, the sign-off and the company
line; a stop sentence there stands in one of them. -/
theorem StopSentence.not_above (h : StopSentence line) {kept signOff address : JsString}
    (hkept : ¬ line <:+: trimEnd kept) (hsignOff : ¬ line <:+: signOff)
    (haddress : ¬ line <:+: address) :
    ¬ line <:+: aboveFooter kept ++ (signOffPart signOff ++ companyLine address ++ [newline]) := by
  have hnil : ¬ line <:+: [] := fun hin => h.not_blank (List.infix_nil.1 hin)
  have hcompany : ¬ line <:+: companyLine address ++ [newline] := by
    intro hin
    rcases Texts.infix_append_cons h.single hin with hin | hin
    · exact h.not_companyLine haddress hin
    · exact hnil hin
  have hfooter : ¬ line <:+: signOffPart signOff ++ companyLine address ++ [newline] := by
    unfold signOffPart
    split
    · exact hcompany
    · rw [List.append_assoc, List.append_assoc, List.singleton_append]
      intro hin
      rcases Texts.infix_append_cons h.single hin with hin | hin
      · exact hsignOff hin
      · exact hcompany hin
  unfold aboveFooter
  split
  · exact hfooter
  · rw [List.append_assoc, List.cons_append, List.singleton_append]
    intro hin
    rcases Texts.infix_append_cons h.single hin with hin | hin
    · exact hkept hin
    · rw [← List.nil_append (newline :: _)] at hin
      rcases Texts.infix_append_cons h.single hin with hin | hin
      · exact hnil hin
      · exact hfooter hin

/-- A composed body without its last line. -/
theorem composeBody_above (kept : JsString) (configuration : SendFooterConfiguration) :
    let b := composeBody kept (footerOf configuration)
    b.take (b.length - sendingStopLine.length)
      = aboveFooter kept ++ (signOffPart (trim configuration.signOff)
        ++ companyLine (addressOf configuration.postalAddress) ++ [newline]) := by
  have hsplit : composeBody kept (footerOf configuration)
      = (aboveFooter kept ++ (signOffPart (trim configuration.signOff)
        ++ companyLine (addressOf configuration.postalAddress) ++ [newline]))
        ++ sendingStopLine := by
    rw [composeBody_eq, footerOf, sendFooterBlock_eq]
    simp only [List.append_assoc, List.singleton_append]
  intro b
  have hb : b = _ ++ sendingStopLine := hsplit
  rw [hb, List.length_append, Nat.add_sub_cancel, List.take_left]

/-! ## The send -/

section Send

variable {P : Platform} {text : TemplateText} {rules : TemplateRules}
variable {configuration : SendFooterConfiguration}

/-- What the approval kept of the body carries no stop sentence. -/
theorem approval_kept_no_stopLine (h : templateTextIssues P text rules = [])
    (hline : line ∈ [sendingStopLine, legacySendingStopLine]) :
    ¬ line <:+: trimEnd (keptOf text.body (approvalFooter rules.footer)) := by
  obtain ⟨-, b, changed, deduped, hcomposed⟩ := approved_composes h
  obtain ⟨hchecks, hbody⟩ := composeSendBody_spec hcomposed
  have habove : hasStopLine (b.take (b.length - sendingStopLine.length)) = false := by
    unfold composedBodyRefusal at hchecks
    split at hchecks
    · cases hchecks
    · next hstop => exact Bool.eq_false_iff.2 hstop
  rw [hbody, composeBody_above] at habove
  intro hin
  apply hasStopLine_eq_false.1 habove line hline
  apply List.infix_append_of_infix_left
  unfold aboveFooter
  split
  · next hblank =>
    have hnil : trimEnd (keptOf text.body (approvalFooter rules.footer)) = [] :=
      trim_eq_nil_iff.1 (List.length_eq_zero_iff.1 hblank)
    rwa [hnil] at hin
  · exact List.infix_append_of_infix_left hin

/-- What a send keeps of an approved body carries no stop sentence. -/
theorem kept_no_stopLine (h : templateTextIssues P text rules = [])
    (hsignOff : configuration.signOff = rules.footer.signOff)
    (hline : line ∈ [sendingStopLine, legacySendingStopLine]) :
    ¬ line <:+: trimEnd (keptOf text.body configuration) := by
  intro hin
  apply approval_kept_no_stopLine h hline
  apply hin.trans
  exact (Texts.rdropWhile_prefix_of_prefix (keptAtSend_begins hsignOff text.body)).isInfix

/-- Where the approval recognised no block, the body is not signed. -/
theorem approval_unsigned (h : templateTextIssues P text rules = [])
    (hnone : footerBlockStart text.body (approvalFooter rules.footer) = none) :
    hasStopLine (trimEnd text.body) = false ∧
      signOffStandsAlone (trimEnd text.body) rules.footer.signOff = false := by
  obtain ⟨-, b, changed, deduped, hcomposed⟩ := approved_composes h
  unfold composeSendBody at hcomposed
  simp only [approvalFooterPolicy, hnone, Option.isNone_none, Bool.true_and, Bool.false_and,
    Bool.false_eq_true, ↓reduceIte] at hcomposed
  split at hcomposed
  · cases hcomposed
  · next hunsigned =>
    rw [Bool.not_eq_true, Bool.or_eq_false_iff] at hunsigned
    exact hunsigned

/-- A send of an approved body gets as far as the checks on the composed bytes. -/
theorem send_reaches_checks (h : templateTextIssues P text rules = [])
    (hsignOff : configuration.signOff = rules.footer.signOff)
    (haddress : addressOf configuration.postalAddress ≠ []) :
    let refusal := composedBodyRefusal P
      (composeBody (keptOf text.body configuration) (footerOf configuration))
    let answer := composeSendBody P text.body configuration sendFooterPolicy
    (refusal = none ∧ ∃ b changed deduped, answer = .composed b changed deduped) ∨
      ∃ reason detail, refusal = some (reason, detail) ∧ answer = .refused reason detail := by
  have hpostal : (addressOf configuration.postalAddress).length ≠ 0 :=
    fun hzero => haddress (List.length_eq_zero_iff.1 hzero)
  have hunsigned : ((footerBlockStart text.body configuration).isNone &&
      (hasStopLine (trimEnd text.body)
        || signOffStandsAlone (trimEnd text.body) configuration.signOff)) = false := by
    cases hstart : footerBlockStart text.body (approvalFooter rules.footer) with
    | none =>
      obtain ⟨hstop, halone⟩ := approval_unsigned h hstart
      rw [hsignOff, hstop, halone, Bool.or_false, Bool.and_false]
    | some start =>
      obtain ⟨earlier, -, hsend⟩ := footerBlockStart_of_approval hsignOff hstart
      rw [hsend, Option.isNone_some, Bool.false_and]
  have hdemanded : (sendFooterPolicy.postalAddressRequired
      && decide ((addressOf configuration.postalAddress).length = 0)) = false := by
    rw [decide_eq_false hpostal, Bool.and_false]
  intro refusal answer
  have hanswer : answer = composeSendBody P text.body configuration sendFooterPolicy := rfl
  simp only [composeSendBody, hdemanded, hunsigned, Bool.false_eq_true, ↓reduceIte] at hanswer
  cases hrefusal : refusal with
  | none =>
    have hnone : composedBodyRefusal P (composeBody (text.body.take
        ((footerBlockStart text.body configuration).getD (trimEnd text.body).length))
        (sendFooterBlock configuration.signOff configuration.postalAddress)) = none := hrefusal
    rw [hnone] at hanswer
    exact .inl ⟨rfl, _, _, _, hanswer⟩
  | some refused =>
    have hsome : composedBodyRefusal P (composeBody (text.body.take
        ((footerBlockStart text.body configuration).getD (trimEnd text.body).length))
        (sendFooterBlock configuration.signOff configuration.postalAddress))
        = some refused := hrefusal
    rw [hsome] at hanswer
    exact .inr ⟨refused.1, refused.2, rfl, hanswer⟩

end Send

/-- Every send of an approved text is composed, or refused for its length or for a link. -/
theorem approved_template_unambiguous (P : Platform) (text : TemplateText) (rules : TemplateRules)
    (h : templateTextIssues P text rules = [])
    (configuration : SendFooterConfiguration)
    (hsignOff : configuration.signOff = rules.footer.signOff)
    (haddress : addressOf configuration.postalAddress ≠ [])
    (hstop : hasStopLine (configuration.postalAddress.getD []) = false) :
    (∃ b changed deduped, composeSendBody P text.body configuration sendFooterPolicy
        = .composed b changed deduped) ∨
      ∃ reason ∈ [ComposeSendBodyRefusal.composedBodyTooLong, .optoutLink], ∃ detail,
        composeSendBody P text.body configuration sendFooterPolicy = .refused reason detail := by
  have hsignOffStop := (approved_composes h).1
  have habove : hasStopLine (aboveFooter (keptOf text.body configuration)
      ++ (signOffPart (trim configuration.signOff)
        ++ companyLine (addressOf configuration.postalAddress) ++ [newline])) = false := by
    apply hasStopLine_eq_false.2
    intro line hline
    apply (stopSentence hline).not_above
    · exact kept_no_stopLine h hsignOff hline
    · rw [hsignOff]
      exact fun hin => hasStopLine_eq_false.1 hsignOffStop line hline (hin.trans Texts.strip_infix)
    · exact fun hin => hasStopLine_eq_false.1 hstop line hline (hin.trans Texts.strip_infix)
  rcases send_reaches_checks (P := P) h hsignOff haddress with
    ⟨-, hcomposed⟩ | ⟨reason, detail, hrefusal, hrefused⟩
  · exact .inl hcomposed
  · right
    simp only [composedBodyRefusal, composeBody_above, habove, Bool.false_eq_true,
      ↓reduceIte] at hrefusal
    split at hrefusal
    · obtain ⟨rfl, rfl⟩ := Prod.mk.inj (Option.some.inj hrefusal)
      exact ⟨.composedBodyTooLong, List.mem_cons_self, _, hrefused⟩
    · split at hrefusal
      · obtain ⟨rfl, rfl⟩ := Prod.mk.inj (Option.some.inj hrefusal)
        exact ⟨.optoutLink, List.mem_cons_of_mem _ List.mem_cons_self, _, hrefused⟩
      · cases hrefusal

def plainRules : TemplateRules where
  footer := { plainConfiguration with postalAddress := none }
  allowedVariables := [js "first_name"]
  requiredSentence := none

def plainTemplate : TemplateText where
  subject := js "Repairs"
  body := js "Hi\n\nAnn"

theorem approved_template_unambiguous_plain :
    (∃ b changed deduped, composeSendBody (asciiPlatform []) plainTemplate.body plainConfiguration
        sendFooterPolicy = .composed b changed deduped) ∨
      ∃ reason ∈ [ComposeSendBodyRefusal.composedBodyTooLong, .optoutLink], ∃ detail,
        composeSendBody (asciiPlatform []) plainTemplate.body plainConfiguration
          sendFooterPolicy = .refused reason detail :=
  approved_template_unambiguous (asciiPlatform []) plainTemplate plainRules (by decide +kernel)
    plainConfiguration rfl (by decide +kernel) (by decide +kernel)

end FoundingSales.Rules
