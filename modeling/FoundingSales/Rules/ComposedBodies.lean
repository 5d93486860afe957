import FoundingSales.Rules.FooterComposition

/-!
What a composed body is, and what it was composed from: the authored text loses white space at its
end and one recorded block, and nothing else.

Proved here:

* `footerBlockStart_spec`: a recognised block ends the body, and stands apart;
* `composeSendBody_spec`: what a composed answer was computed from;
* `composed_body_keeps_authored`: every composed body;
* `footer_alone_composed`: a body that is its block, with no blank line before it.
-/

namespace FoundingSales.Rules

open Contracts

/-- A blank line ends the text, or there is none. -/
def standsApart (text : JsString) : Bool := text = [] || endsInBlankLine text

/-- The output `b` of a body: `kept` and the footer, or the footer alone; and the body again:
`kept`, white space, a recorded block or none, white space. `separated`: what may stand before a
block. -/
structure KeepsAuthored (separated : JsString → Bool) (configuration : SendFooterConfiguration)
    (body b kept space block tail : JsString) : Prop where
  output : b = kept ++ [newline, newline] ++ footerOf configuration ∨
    kept = [] ∧ b = footerOf configuration
  input : body = kept ++ space ++ block ++ tail
  white : (∀ c ∈ space, isSpace c = true) ∧ ∀ c ∈ tail, isSpace c = true
  recorded : block = [] ∨
    block ∈ candidateFooterBlocks configuration ∧ separated (kept ++ space) = true

structure ComposedBody (P : Platform) (separated : JsString → Bool)
    (configuration : SendFooterConfiguration) (body b : JsString) : Prop where
  bounded : b.length ≤ 4000
  no_link : hasOptOutLink P b = false
  stop_line : endsWith b sendingStopLine = true
  only_stop_line : hasStopLine (b.take (b.length - sendingStopLine.length)) = false
  authored : ∃ kept space block tail,
    KeepsAuthored separated configuration body b kept space block tail

section Recognition

variable {configuration : SendFooterConfiguration} {body : JsString}

/-- A text without the white space at its end, and that white space. -/
theorem trimEnd_append (text : JsString) :
    ∃ space, text = trimEnd text ++ space ∧ ∀ c ∈ space, isSpace c = true := by
  refine ⟨text.rtakeWhile isSpace, List.rdropWhile_append_rtakeWhile.symm, ?_⟩
  exact fun c hc => List.mem_rtakeWhile_imp hc

/-- A recognised block ends the body but for white space, and stands apart. -/
theorem footerBlockStart_spec {start : Nat}
    (h : footerBlockStart body configuration = some start) :
    ∃ front block tail, body = front ++ block ++ tail ∧ start = front.length ∧
      block ∈ candidateFooterBlocks configuration ∧ standsApart front = true ∧
      ∀ c ∈ tail, isSpace c = true := by
  obtain ⟨block, hfind, hstart⟩ := Option.map_eq_some_iff.1 h
  have hstands := List.find?_some hfind
  simp only [standsAtEnd, endsWith, Bool.and_eq_true, decide_eq_true_eq, Bool.or_eq_true] at hstands
  obtain ⟨⟨front, hfront⟩, hapart⟩ := hstands
  obtain ⟨tail, htail, hwhite⟩ := trimEnd_append body
  have hlength : (trimEnd body).length - block.length = front.length := by
    rw [← hfront, List.length_append, Nat.add_sub_cancel]
  refine ⟨front, block, tail, by rw [hfront, ← htail], by rw [← hstart, hlength],
    List.mem_of_find?_eq_some hfind, ?_, hwhite⟩
  rw [hlength] at hapart
  rw [standsApart, Bool.or_eq_true, decide_eq_true_eq]
  rcases hapart with hnone | hblank
  · exact .inl (List.length_eq_zero_iff.1 hnone)
  · right
    rwa [← hfront, List.take_left] at hblank

variable {P : Platform} {policy : SendFooterPolicy} {b : JsString} {changed deduped : Bool}

/-- What a composed answer was computed from. -/
theorem composeSendBody_spec
    (hc : composeSendBody P body configuration policy = .composed b changed deduped) :
    composedBodyRefusal P b = none ∧
      b = composeBody (body.take ((footerBlockStart body configuration).getD
        (trimEnd body).length)) (footerOf configuration) := by
  unfold composeSendBody at hc
  simp only at hc
  split at hc
  · cases hc
  · split at hc
    · cases hc
    · split at hc
      · cases hc
      · next hchecks =>
        obtain ⟨rfl, -, -⟩ := ComposeSendBodyDecision.composed.inj hc
        exact ⟨hchecks, rfl⟩

/-- What is composed from a head: the head without the white space at its end. -/
theorem composeBody_cases (head footer : JsString) :
    composeBody head footer = trimEnd head ++ [newline, newline] ++ footer ∨
      trimEnd head = [] ∧ composeBody head footer = footer := by
  unfold composeBody
  split
  · next hblank => exact .inr ⟨trim_eq_nil_iff.1 (List.length_eq_zero_iff.1 hblank), rfl⟩
  · exact .inl rfl

end Recognition

/-- Every composed body keeps what was authored. -/
theorem composed_body_keeps_authored (P : Platform) (body : JsString)
    (configuration : SendFooterConfiguration) (policy : SendFooterPolicy) (b : JsString)
    (changed deduped : Bool)
    (hc : composeSendBody P body configuration policy = .composed b changed deduped) :
    ComposedBody P standsApart configuration body b := by
  obtain ⟨hchecks, hbody⟩ := composeSendBody_spec hc
  unfold composedBodyRefusal at hchecks
  split at hchecks
  · cases hchecks
  · next hstop =>
    split at hchecks
    · cases hchecks
    · next hlength =>
      split at hchecks
      · cases hchecks
      · next hlink =>
        refine ⟨?_, Bool.eq_false_iff.2 hlink, ?_, Bool.eq_false_iff.2 hstop, ?_⟩
        · simpa [sendBodyIssue, sentBodyMaxLength] using hlength
        · have hends : sendingStopLine <:+ footerOf configuration := by
            rw [footerOf, sendFooterBlock_eq, ← List.singleton_append, ← List.append_assoc]
            exact List.suffix_append _ _
          rw [hbody, composeBody_eq, endsWith, decide_eq_true_eq]
          exact hends.trans (List.suffix_append _ _)
        · cases hstart : footerBlockStart body configuration with
          | none =>
            -- no block: the head is the body without the white space at its end
            rw [hstart, Option.getD_none] at hbody
            obtain ⟨tail, htail, hwhite⟩ := trimEnd_append body
            have hhead : body.take (trimEnd body).length = trimEnd body :=
              List.prefix_iff_eq_take.1 (List.rdropWhile_prefix _ _) |>.symm
            rw [hhead] at hbody
            refine ⟨trimEnd body, [], [], tail, ?_, ?_, ⟨List.forall_mem_nil _, hwhite⟩, .inl rfl⟩
            · rw [hbody]
              have hcases := composeBody_cases (trimEnd body) (footerOf configuration)
              rwa [trimEnd_trimEnd] at hcases
            · rw [List.append_nil, List.append_nil]
              exact htail
          | some start =>
            obtain ⟨front, block, tail, hsplit, hlen, hcandidate, hapart, hwhite⟩ :=
              footerBlockStart_spec hstart
            have hhead : body.take start = front := by
              rw [hsplit, hlen, List.append_assoc, List.take_left]
            rw [hstart, Option.getD_some, hhead] at hbody
            obtain ⟨space, hspace, hblank⟩ := trimEnd_append front
            refine ⟨trimEnd front, space, block, tail, ?_, ?_, ⟨hblank, hwhite⟩,
              .inr ⟨hcandidate, ?_⟩⟩
            · rw [hbody]
              exact composeBody_cases front (footerOf configuration)
            · rw [← hspace]
              exact hsplit
            · rw [← hspace]
              exact hapart

theorem composed_body_keeps_authored_plain :
    ComposedBody (asciiPlatform []) standsApart plainConfiguration (js "Hi\n\nAnn")
      (js "Hi\n\n" ++ footerOf plainConfiguration) :=
  composed_body_keeps_authored (asciiPlatform []) (js "Hi\n\nAnn") plainConfiguration
    sendFooterPolicy _ true true (by decide +kernel)

/-- A body that is its block and nothing before it is composed, and no blank line stands there. -/
theorem footer_alone_composed :
    composeSendBody (asciiPlatform []) (footerOf plainConfiguration) plainConfiguration
        sendFooterPolicy = .composed (footerOf plainConfiguration) false true ∧
      ¬ ComposedBody (asciiPlatform []) endsInBlankLine plainConfiguration
        (footerOf plainConfiguration) (footerOf plainConfiguration) := by
  refine ⟨by decide +kernel, fun h => ?_⟩
  obtain ⟨kept, space, block, tail, houtput, hinput, ⟨hspace, htail⟩, hrecorded⟩ := h.authored
  have hkept : kept = [] := by
    rcases houtput with heq | ⟨hnil, -⟩
    · have hlength := congrArg List.length heq
      simp only [List.length_append, List.length_cons, List.length_nil] at hlength
      omega
    · exact hnil
  have hfirst : (footerOf plainConfiguration).head? = some 65 := by decide +kernel
  rw [hinput, hkept, List.nil_append] at hfirst
  have hletter : isSpace 65 = false := by decide
  cases space with
  | cons c rest =>
    obtain rfl : c = 65 := by simpa using hfirst
    rw [hspace 65 List.mem_cons_self] at hletter
    cases hletter
  | nil =>
    rcases hrecorded with hblock | ⟨-, hblank⟩
    · rw [hblock, List.nil_append, List.nil_append] at hfirst
      have hmem := List.mem_of_head? hfirst
      rw [htail 65 hmem] at hletter
      cases hletter
    · rw [hkept] at hblank
      cases hblank

end FoundingSales.Rules
