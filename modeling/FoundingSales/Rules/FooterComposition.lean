import FoundingSales.Rules.TemplateFooter

/-!
Composing a composed body changes nothing.

The second run looks for the longest recorded block that stands at the end of the composed
body. Today's footer is one (`footer_mem_candidates`), and no longer candidate can be
(`footer_is_longest`): the stop sentence, the company line and the recorded addresses are
single lines, and a text determines its last line.
-/

namespace FoundingSales.Rules

open Contracts

/-- The postal address and the recorded addresses are single lines. -/
structure SingleLineAddresses (configuration : SendFooterConfiguration) : Prop where
  postal : ∀ address ∈ configuration.postalAddress, newline ∉ address
  recorded : ∀ address ∈ configuration.recordedAddresses, newline ∉ address

variable {configuration : SendFooterConfiguration}

/-! ## The shape of a footer -/

theorem stopLine_single : newline ∉ sendingStopLine := by decide

theorem legacyStopLine_single : newline ∉ legacySendingStopLine := by decide

theorem stopLine_ne_legacy : sendingStopLine ≠ legacySendingStopLine := by decide

theorem stopLine_ne_nil : sendingStopLine ≠ [] := by decide

theorem stopLine_last : isSpace (sendingStopLine.getLast stopLine_ne_nil) = false := by decide

theorem companyLine_single {address : JsString} (h : newline ∉ address) :
    newline ∉ companyLine address := by
  have hname : newline ∉ footerCompanyName := by decide
  have hdot : newline ∉ js " \u00B7 " := by decide
  unfold companyLine
  split
  · exact hname
  · simp only [List.mem_append, not_or]
    exact ⟨⟨hname, hdot⟩, h⟩

theorem companyLine_ne_nil (address : JsString) : companyLine address ≠ [] := by
  have hname : footerCompanyName ≠ [] := by decide
  unfold companyLine
  split <;> simp [hname]

/-- What stands above the company line. -/
def signOffPart (signOff : JsString) : JsString :=
  if signOff.length = 0 then [] else signOff ++ [newline]

theorem joinLines_pair (first second : JsString) :
    joinLines [first, second] = first ++ newline :: second := by
  simp [joinLines, List.intercalate_cons_cons]

theorem sendFooterBlock_eq (signOff : JsString) (postalAddress : Option JsString) :
    sendFooterBlock signOff postalAddress
      = signOffPart (trim signOff) ++ companyLine (addressOf postalAddress)
        ++ newline :: sendingStopLine := by
  have hcompany : 0 < (companyLine (addressOf postalAddress)).length :=
    List.length_pos_iff.2 (companyLine_ne_nil _)
  have hstop : 0 < sendingStopLine.length := by decide
  unfold sendFooterBlock signOffPart
  by_cases hsign : (trim signOff).length = 0
  · simp [joinLines, hsign, hcompany, hstop, List.intercalate_cons_cons]
  · have hpos : 0 < (trim signOff).length := Nat.pos_of_ne_zero hsign
    simp [joinLines, hsign, hpos, hcompany, hstop, List.intercalate_cons_cons]

/-- A body that ends in a footer has no white space to strip. -/
theorem trimEnd_append_footer (above signOff : JsString) (postalAddress : Option JsString) :
    trimEnd (above ++ sendFooterBlock signOff postalAddress)
      = above ++ sendFooterBlock signOff postalAddress := by
  rw [sendFooterBlock_eq, ← List.singleton_append, ← List.append_assoc, ← List.append_assoc]
  exact Texts.rdropWhile_append_of_last stopLine_ne_nil stopLine_last

/-! ## The candidate blocks -/

theorem mem_candidateFooterBlocks {block : JsString} :
    block ∈ candidateFooterBlocks configuration ↔
      (∃ head ∈ candidateHeads configuration,
        block = head ∨ block = head ++ newline :: legacySendingStopLine) ∨
      ∃ address ∈ [] :: candidateAddresses configuration,
        block = sendFooterBlock (trim configuration.signOff) (some address) := by
  simp only [candidateFooterBlocks, List.mem_insertionSort, List.mem_eraseDups, List.mem_append,
    List.mem_flatMap, List.mem_map, List.mem_pair, joinLines_pair, @eq_comm _ _ block]

theorem candidates_longest_first :
    (candidateFooterBlocks configuration).Pairwise fun left right =>
      right.length ≤ left.length := by
  have : Std.Total fun left right : JsString => right.length ≤ left.length :=
    ⟨fun left right => Nat.le_total right.length left.length⟩
  have : IsTrans JsString fun left right => right.length ≤ left.length :=
    ⟨fun _ _ _ hab hbc => Nat.le_trans hbc hab⟩
  exact List.pairwise_insertionSort _ _

theorem mem_candidateAddresses {address : JsString} :
    address ∈ candidateAddresses configuration ↔
      (∃ raw ∈ configuration.postalAddress.getD [] :: configuration.recordedAddresses,
        trim raw = address) ∧ 0 < address.length := by
  simp only [candidateAddresses, List.mem_filter, List.mem_map, decide_eq_true_eq, gt_iff_lt]

theorem candidateAddress_single (h : SingleLineAddresses configuration) {address : JsString}
    (ha : address ∈ [] :: candidateAddresses configuration) :
    newline ∉ address ∧ trim address = address := by
  rcases List.mem_cons.1 ha with rfl | ha
  · exact ⟨List.not_mem_nil, rfl⟩
  · obtain ⟨⟨raw, hraw, rfl⟩, -⟩ := mem_candidateAddresses.1 ha
    refine ⟨not_mem_trim ?_, trim_trim raw⟩
    rcases List.mem_cons.1 hraw with rfl | hraw
    · cases hp : configuration.postalAddress with
      | none => exact List.not_mem_nil
      | some address => exact h.postal address hp
    · exact h.recorded raw hraw

theorem addressOf_mem_candidates :
    addressOf configuration.postalAddress ∈ [] :: candidateAddresses configuration := by
  by_cases h : (addressOf configuration.postalAddress).length = 0
  · rw [List.length_eq_zero_iff.1 h]
    exact List.mem_cons_self
  · exact List.mem_cons_of_mem _
      (mem_candidateAddresses.2 ⟨⟨_, List.mem_cons_self, rfl⟩, Nat.pos_of_ne_zero h⟩)

/-- Today's footer of a configuration. -/
def footerOf (configuration : SendFooterConfiguration) : JsString :=
  sendFooterBlock configuration.signOff configuration.postalAddress

theorem footer_mem_candidates : footerOf configuration ∈ candidateFooterBlocks configuration := by
  refine mem_candidateFooterBlocks.2 (.inr ⟨_, addressOf_mem_candidates, ?_⟩)
  rw [footerOf, sendFooterBlock_eq, sendFooterBlock_eq, trim_trim]
  simp [addressOf]

theorem head_cases {head : JsString} (hhead : head ∈ candidateHeads configuration) :
    (trim configuration.signOff = [] ∧ head ∈ candidateAddresses configuration) ∨
    (trim configuration.signOff ≠ [] ∧ (head = trim configuration.signOff ∨
      ∃ address ∈ candidateAddresses configuration,
        head = trim configuration.signOff ++ newline :: address)) := by
  unfold candidateHeads at hhead
  by_cases hsign : (trim configuration.signOff).length = 0
  · simp only [hsign, ↓reduceIte] at hhead
    exact .inl ⟨List.length_eq_zero_iff.1 hsign, hhead⟩
  · simp only [hsign, ↓reduceIte, List.mem_cons, List.mem_map] at hhead
    refine .inr ⟨fun h => hsign (by rw [h]; rfl), ?_⟩
    rcases hhead with rfl | ⟨address, ha, rfl⟩
    · exact .inl rfl
    · exact .inr ⟨address, ha, joinLines_pair _ _⟩

/-! ## No longer candidate ends a composed body -/

section Longest

variable {above : JsString}

/-- A sign-off or an address, alone or under a sign-off, never ends in the footer. -/
private theorem head_ne_append_footer (h : SingleLineAddresses configuration)
    {head : JsString} (hhead : head ∈ candidateHeads configuration) :
    head ≠ above ++ footerOf configuration := by
  intro heq
  rw [footerOf, sendFooterBlock_eq] at heq
  rcases head_cases hhead with ⟨-, ha⟩ | ⟨hsign, rfl | ⟨address, ha, rfl⟩⟩
  · have hsingle := (candidateAddress_single h (List.mem_cons_of_mem _ ha)).1
    refine hsingle ?_
    rw [heq]
    simp
  · have hlength := congrArg List.length heq
    simp only [signOffPart, List.length_append, List.length_cons, List.length_eq_zero_iff, hsign,
      ↓reduceIte] at hlength
    omega
  · have hsingle := (candidateAddress_single h (List.mem_cons_of_mem _ ha)).1
    have hlast : address = sendingStopLine := by
      refine Texts.lastLine_unique hsingle stopLine_single
        (List.suffix_append (trim configuration.signOff) _) ?_
      rw [heq, ← List.append_assoc]
      exact List.suffix_append _ _
    have hlength := congrArg List.length heq
    simp only [hlast, signOffPart, List.length_append, List.length_cons,
      List.length_eq_zero_iff, hsign, ↓reduceIte] at hlength
    omega

/-- A block that ends in the legacy stop sentence does not end in today's. -/
private theorem legacy_ne_append_footer {head : JsString} :
    head ++ newline :: legacySendingStopLine ≠ above ++ footerOf configuration := by
  intro heq
  refine stopLine_ne_legacy (Texts.lastLine_unique stopLine_single legacyStopLine_single ?_
    (List.suffix_append head _))
  rw [heq, footerOf, sendFooterBlock_eq, ← List.append_assoc]
  exact List.suffix_append _ _

/-- Two of today's blocks under one sign-off differ in their company line only. -/
private theorem block_eq_append_footer (h : SingleLineAddresses configuration)
    (habove : above = [] ∨ above.getLast? = some newline) {address : JsString}
    (ha : address ∈ [] :: candidateAddresses configuration)
    (heq : sendFooterBlock (trim configuration.signOff) (some address)
      = above ++ footerOf configuration) : above = [] := by
  obtain ⟨hsingle, htrim⟩ := candidateAddress_single h ha
  have hfooter := (candidateAddress_single h addressOf_mem_candidates).1
  rw [footerOf, sendFooterBlock_eq, sendFooterBlock_eq, trim_trim, ← List.append_assoc,
    List.append_cancel_right_eq] at heq
  have haddress : addressOf (some address) = address := htrim
  rw [haddress] at heq
  by_cases hsign : (trim configuration.signOff).length = 0
  · simp only [signOffPart, hsign, ↓reduceIte, List.nil_append] at heq
    rcases habove with habove | hlast
    · exact habove
    · have hmem : newline ∈ companyLine address := by
        rw [heq]
        exact List.mem_append_left _ (List.mem_of_getLast? hlast)
      exact absurd hmem (companyLine_single hsingle)
  · simp only [signOffPart, hsign, ↓reduceIte, List.append_assoc, List.singleton_append] at heq
    have hcompany : companyLine address
        = companyLine (addressOf configuration.postalAddress) := by
      refine Texts.lastLine_unique (companyLine_single hsingle) (companyLine_single hfooter)
        (List.suffix_append (trim configuration.signOff) _) ?_
      rw [heq, ← List.append_assoc]
      exact List.suffix_append _ _
    have hlength := congrArg List.length heq
    simp only [hcompany, List.length_append, List.length_cons] at hlength
    exact List.length_eq_zero_iff.1 (by omega)

/-- No candidate is a footer with more above it. -/
theorem footer_is_longest (h : SingleLineAddresses configuration)
    (habove : above = [] ∨ above.getLast? = some newline)
    (hblock : above ++ footerOf configuration ∈ candidateFooterBlocks configuration) :
    above = [] := by
  rcases mem_candidateFooterBlocks.1 hblock with ⟨head, hhead, heq | heq⟩ | ⟨address, ha, heq⟩
  · exact absurd heq.symm (head_ne_append_footer h hhead)
  · exact absurd heq.symm legacy_ne_append_footer
  · exact block_eq_append_footer h habove ha heq.symm

end Longest

/-! ## The second run -/

/-- What a composed body has above its footer: nothing, or text and a blank line. -/
def aboveFooter (head : JsString) : JsString :=
  if (trim head).length = 0 then [] else trimEnd head ++ [newline, newline]

theorem composeBody_eq (head footer : JsString) :
    composeBody head footer = aboveFooter head ++ footer := by
  unfold composeBody aboveFooter
  split <;> simp

theorem aboveFooter_ends (head : JsString) :
    aboveFooter head = [] ∨ (aboveFooter head).getLast? = some newline := by
  unfold aboveFooter
  split
  · exact .inl rfl
  · exact .inr (by simp)

/-- What stands above the footer composes to itself. -/
theorem aboveFooter_aboveFooter (head : JsString) : aboveFooter (aboveFooter head)
    = aboveFooter head := by
  by_cases hblank : (trim head).length = 0
  · have hnil : aboveFooter head = [] := by simp only [aboveFooter, hblank, ↓reduceIte]
    rw [hnil]
    rfl
  · have hspaces : ∀ c ∈ [newline, newline], isSpace c = true := by
      intro c hc
      simp only [List.mem_cons, List.not_mem_nil, or_false, or_self] at hc
      subst hc
      rfl
    have hstripped : trimEnd (trimEnd head ++ [newline, newline]) = trimEnd head := by
      rw [trimEnd, Texts.rdropWhile_append_of_all hspaces]
      exact trimEnd_trimEnd head
    have hkept : (trim (trimEnd head ++ [newline, newline])).length ≠ 0 := by
      intro hzero
      have hnil := trim_eq_nil_iff.1 (List.length_eq_zero_iff.1 hzero)
      rw [hstripped] at hnil
      exact hblank (by rw [trim_eq_nil_iff.2 hnil]; rfl)
    simp only [aboveFooter, hblank, ↓reduceIte, hkept, hstripped]

theorem standsAtEnd_footer (configuration : SendFooterConfiguration) (head : JsString) :
    standsAtEnd (aboveFooter head ++ footerOf configuration) (footerOf configuration) = true := by
  have hstart : (aboveFooter head ++ footerOf configuration).length
      - (footerOf configuration).length = (aboveFooter head).length := by
    simp
  simp only [standsAtEnd, hstart, List.take_left, Bool.and_eq_true, Bool.or_eq_true,
    decide_eq_true_eq]
  refine ⟨by simp [endsWith], ?_⟩
  unfold aboveFooter
  split
  · exact .inl rfl
  · exact .inr (by simp [endsInBlankLine, newline])

/-- The second run finds exactly the footer the first one appended. -/
theorem footerBlockStart_composed (h : SingleLineAddresses configuration) (head : JsString) :
    footerBlockStart (aboveFooter head ++ footerOf configuration) configuration
      = some (aboveFooter head).length := by
  have hstripped : trimEnd (aboveFooter head ++ footerOf configuration)
      = aboveFooter head ++ footerOf configuration := trimEnd_append_footer _ _ _
  have hfooter := standsAtEnd_footer configuration head
  simp only [footerBlockStart, hstripped]
  cases hfind : (candidateFooterBlocks configuration).find?
      (standsAtEnd (aboveFooter head ++ footerOf configuration)) with
  | none =>
    have := List.find?_eq_none.1 hfind _ footer_mem_candidates
    simp [hfooter] at this
  | some block =>
    have hends : block <:+ aboveFooter head ++ footerOf configuration := by
      have := List.find?_some hfind
      simp only [standsAtEnd, endsWith, Bool.and_eq_true, decide_eq_true_eq] at this
      exact this.1
    have hlonger : (footerOf configuration).length ≤ block.length := by
      rcases Texts.find?_sorted candidates_longest_first hfind footer_mem_candidates hfooter with
        rfl | hle
      · exact Nat.le_refl _
      · exact hle
    -- The block found is the footer with `extra` above it, and `extra` ends a line.
    obtain ⟨extra, rfl⟩ := List.suffix_of_suffix_length_le
      (List.suffix_append (aboveFooter head) _) hends hlonger
    obtain ⟨rest, hrest⟩ := hends
    rw [← List.append_assoc, List.append_cancel_right_eq] at hrest
    have hextra : extra = [] ∨ extra.getLast? = some newline := by
      by_cases hnil : extra = []
      · exact .inl hnil
      · rcases aboveFooter_ends head with habove | hlast
        · rw [habove] at hrest
          exact .inl (List.append_eq_nil_iff.1 hrest).2
        · rw [← hrest, List.getLast?_append_of_ne_nil _ hnil] at hlast
          exact .inr hlast
    rw [footer_is_longest h hextra (List.mem_of_find?_eq_some hfind)]
    simp

/-- What a composed answer says about the body. -/
theorem composeSendBody_composed {P : Platform} {body b : JsString}
    {policy : SendFooterPolicy} {changed deduped : Bool}
    (hc : composeSendBody P body configuration policy = .composed b changed deduped) :
    (policy.postalAddressRequired
        && decide ((addressOf configuration.postalAddress).length = 0)) = false ∧
      composedBodyRefusal P b = none ∧
      ∃ head, b = aboveFooter head ++ footerOf configuration := by
  unfold composeSendBody at hc
  simp only at hc
  split at hc
  · cases hc
  · next haddress =>
    split at hc
    · cases hc
    · split at hc
      · cases hc
      · next hchecks =>
        obtain ⟨rfl, -, -⟩ := ComposeSendBodyDecision.composed.inj hc
        exact ⟨Bool.not_eq_true _ ▸ haddress, hchecks, _, composeBody_eq _ _⟩

/-- Composing what was composed gives the same bytes and reports no change. -/
theorem composeSendBody_idempotent (P : Platform) (body : JsString)
    (configuration : SendFooterConfiguration) (policy : SendFooterPolicy)
    (h : SingleLineAddresses configuration) (b : JsString) (changed deduped : Bool)
    (hc : composeSendBody P body configuration policy = .composed b changed deduped) :
    composeSendBody P b configuration policy = .composed b false true := by
  obtain ⟨haddress, hchecks, head, rfl⟩ := composeSendBody_composed hc
  have hstart := footerBlockStart_composed h head
  have hagain : composeBody ((aboveFooter head ++ footerOf configuration).take
      (aboveFooter head).length) (footerOf configuration)
      = aboveFooter head ++ footerOf configuration := by
    rw [List.take_left, composeBody_eq, aboveFooter_aboveFooter]
  have hfooter : sendFooterBlock configuration.signOff configuration.postalAddress
      = footerOf configuration := rfl
  simp only [composeSendBody, haddress, hstart, hfooter, Option.isNone_some, Bool.false_and,
    Option.getD_some, hagain, hchecks, Option.isSome_some, bne_self_eq_false,
    Bool.false_eq_true, ↓reduceIte]

def plainConfiguration : SendFooterConfiguration where
  signOff := js "Ann"
  postalAddress := some (js "1 Elm St")
  recordedAddresses := []

def plainBody : JsString :=
  js "Hi\n\n" ++ sendFooterBlock plainConfiguration.signOff plainConfiguration.postalAddress

theorem plainConfiguration_singleLine : SingleLineAddresses plainConfiguration := by
  constructor
  · decide +kernel
  · exact fun _ h => absurd h (List.not_mem_nil)

theorem composeSendBody_idempotent_plain :
    composeSendBody (asciiPlatform []) plainBody plainConfiguration sendFooterPolicy
      = .composed plainBody false true :=
  composeSendBody_idempotent (asciiPlatform []) (js "Hi") plainConfiguration sendFooterPolicy
    plainConfiguration_singleLine plainBody true false (by decide +kernel)

end FoundingSales.Rules
