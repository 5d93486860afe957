import FoundingSales.Contracts.Templates
import FoundingSales.Library.Regexes
import Mathlib.Data.List.Count
import Mathlib.Data.List.GetD

/-!
The rule about opting out a second time: the expression the application tests over code
points, and the function of the database over the characters it stores. Both find a phrase
and a URL with at most one newline between them.

Proved here:
* `followedNearby_iff`, `nearbyRegex_iff`: the search and the expression find `Nearby` words.
* `stored_normalize`: the two normalisations give the same characters.
* `detectors_agree`: the two detectors give one answer, and so does the constraint.
-/

namespace FoundingSales.Contracts

open Regexes

/-! ## Words near each other -/

section Nearby

variable {α β : Type} [DecidableEq α] [DecidableEq β]

/-- A word of `first` and after it a word of `second`, on the same line or the next. -/
def Nearby (nl : α) (first second : List (List α)) (text : List α) : Prop :=
  ∃ before gap after, ∃ v ∈ first, ∃ w ∈ second,
    text = before ++ (v ++ (gap ++ (w ++ after))) ∧ gap.count nl ≤ 1

/-- A map that keeps the letters of the words and the newline apart from all others keeps
nearness. -/
theorem nearby_map {f : α → β} {nl : α} {first second : List (List α)} {text : List α}
    (hnl : ∀ c, f c = f nl → c = nl)
    (hwords : ∀ v ∈ first ++ second, ∀ d ∈ v, ∀ c, f c = f d → c = d) :
    Nearby (f nl) (first.map (List.map f)) (second.map (List.map f)) (text.map f)
      ↔ Nearby nl first second text := by
  have hcount : ∀ gap : List α, (gap.map f).count (f nl) = gap.count nl := by
    intro gap
    induction gap with
    | nil => rfl
    | cons c gap ih =>
      rw [List.map_cons, List.count_cons, List.count_cons, ih]
      by_cases hc : c = nl
      · simp [hc]
      · have hne : f c ≠ f nl := fun h => hc (hnl c h)
        simp [hc, hne]
  have hinj : ∀ v ∈ first ++ second, ∀ u : List α, u.map f = v.map f → u = v := by
    intro v hv u hu
    have hletters := hwords v hv
    clear hv
    induction v generalizing u with
    | nil => exact List.map_eq_nil_iff.1 hu
    | cons d v ih =>
      cases u with
      | nil => cases hu
      | cons c u =>
        obtain ⟨hc, hu⟩ := List.cons.inj hu
        rw [hletters d List.mem_cons_self c hc,
          ih u hu fun e he => hletters e (List.mem_cons_of_mem _ he)]
  constructor
  · rintro ⟨before, gap, after, _, hv, _, hw, htext, hgap⟩
    obtain ⟨v, hfirst, rfl⟩ := List.mem_map.1 hv
    obtain ⟨w, hsecond, rfl⟩ := List.mem_map.1 hw
    obtain ⟨before', fromV, rfl, rfl, hfromV⟩ := List.map_eq_append_iff.1 htext
    obtain ⟨v', fromGap, rfl, hv', hfromGap⟩ := List.map_eq_append_iff.1 hfromV
    obtain ⟨gap', fromW, rfl, rfl, hfromW⟩ := List.map_eq_append_iff.1 hfromGap
    obtain ⟨w', after', rfl, hw', rfl⟩ := List.map_eq_append_iff.1 hfromW
    rw [hinj v (List.mem_append_left _ hfirst) v' hv',
      hinj w (List.mem_append_right _ hsecond) w' hw']
    exact ⟨before', gap', after', v, hfirst, w, hsecond, rfl, hcount gap' ▸ hgap⟩
  · rintro ⟨before, gap, after, v, hv, w, hw, rfl, hgap⟩
    refine ⟨before.map f, gap.map f, after.map f, v.map f, List.mem_map_of_mem hv, w.map f,
      List.mem_map_of_mem hw, ?_, (hcount gap).symm ▸ hgap⟩
    simp only [List.map_append]

/-- `(?:first)[^\n]*(?:\n[^\n]*)?(?:second)` -/
def nearbyRegex (nl : α) (first second : Regex α) : Regex α :=
  .seq first (.seq (.star (.one fun c => c ≠ nl))
    (.seq (optional (.seq (.one fun c => c = nl) (.star (.one fun c => c ≠ nl)))) second))

/-- What may stand between the words: at most one newline. -/
theorem mem_gap_iff (nl : α) (gap : List α) :
    gap ∈ wordsOver (fun c => c ≠ nl)
        * (letters (fun c => c = nl) * wordsOver (fun c => c ≠ nl) + 1)
      ↔ gap.count nl ≤ 1 := by
  have hover : ∀ u : List α, u ∈ wordsOver (fun c => c ≠ nl) ↔ u.count nl = 0 := by
    intro u
    rw [List.count_eq_zero]
    constructor
    · intro h hmem
      exact of_decide_eq_true (h nl hmem) rfl
    · intro h c hc
      exact decide_eq_true fun heq => h (heq ▸ hc)
  constructor
  · intro h
    obtain ⟨u, hu, v, hv, rfl⟩ := Language.mem_mul.1 h
    rw [List.count_append, (hover u).1 hu]
    rcases (Language.mem_add _ _ v).1 hv with hv | hv
    · obtain ⟨_, ⟨c, rfl, hc⟩, t, ht, rfl⟩ := Language.mem_mul.1 hv
      obtain rfl : c = nl := of_decide_eq_true hc
      rw [List.count_append, (hover t).1 ht]
      simp
    · rw [(Language.mem_one v).1 hv]
      simp
  · intro h
    by_cases hmem : nl ∈ gap
    · obtain ⟨u, t, rfl⟩ := List.append_of_mem hmem
      rw [List.count_append, List.count_cons_self] at h
      have hu := (hover u).2 (by omega)
      have ht := (hover t).2 (by omega)
      refine Language.append_mem_mul hu ((Language.mem_add _ _ _).2 (.inl ?_))
      exact Language.mem_mul.2 ⟨[nl], ⟨nl, rfl, by simp⟩, t, ht, rfl⟩
    · have hu := (hover gap).2 (List.count_eq_zero.2 hmem)
      exact Language.mem_mul.2 ⟨gap, hu, [], (Language.mem_add _ _ _).2 (.inr rfl),
        List.append_nil gap⟩

/-- The expression finds words near each other. -/
theorem nearbyRegex_iff {nl : α} {first second : List (List α)} {r s : Regex α}
    (hr : Spells (among first) r) (hs : Spells (among second) s) (text : List α) :
    test (nearbyRegex nl r s) text = true ↔ Nearby nl first second text := by
  have hspells := (Spells.star_one fun c => decide (c ≠ nl)).seq
    (((Spells.one fun c => decide (c = nl)).seq
      (Spells.star_one fun c => decide (c ≠ nl))).optional.seq hs)
  rw [nearbyRegex, (hr.seq hspells).test_iff]
  constructor
  · rintro ⟨before, _, hmem, after, rfl⟩
    obtain ⟨v, hv, _, hrest, rfl⟩ := Language.mem_mul.1 hmem
    rw [← mul_assoc] at hrest
    obtain ⟨gap, hgap, w, hw, rfl⟩ := Language.mem_mul.1 hrest
    refine ⟨before, gap, after, v, hv, w, hw, ?_, (mem_gap_iff nl gap).1 hgap⟩
    simp only [List.append_assoc]
  · rintro ⟨before, gap, after, v, hv, w, hw, rfl, hcount⟩
    refine ⟨before, v ++ (gap ++ w), ?_, after, by simp only [List.append_assoc]⟩
    refine Language.append_mem_mul (show v ∈ among first from hv) ?_
    rw [← mul_assoc]
    exact Language.append_mem_mul ((mem_gap_iff nl gap).2 hcount) hw

end Nearby

/-! ## The search over code units -/

theorem isPrefixOf_any_iff {words : List JsString} {text : JsString} :
    words.any (·.isPrefixOf text) = true ↔ ∃ w ∈ words, ∃ after, text = w ++ after := by
  rw [List.any_eq_true]
  constructor
  · rintro ⟨w, hw, hbegins⟩
    obtain ⟨after, rfl⟩ := List.isPrefixOf_iff_prefix.1 hbegins
    exact ⟨w, hw, after, rfl⟩
  · rintro ⟨w, hw, after, rfl⟩
    exact ⟨w, hw, List.isPrefixOf_iff_prefix.2 (List.prefix_append w after)⟩

theorem startsWithin_iff {words : List JsString} {newlines : Nat} {text : JsString} :
    startsWithin words newlines text = true
      ↔ ∃ gap, ∃ w ∈ words, ∃ after, text = gap ++ (w ++ after) ∧ gap.count newline ≤ newlines := by
  induction text generalizing newlines with
  | nil =>
    unfold startsWithin
    rw [isPrefixOf_any_iff]
    constructor
    · rintro ⟨w, hw, after, h⟩
      exact ⟨[], w, hw, after, h, Nat.zero_le _⟩
    · rintro ⟨gap, w, hw, after, h, -⟩
      exact ⟨w, hw, after, (List.append_eq_nil_iff.1 h.symm).2.symm⟩
  | cons c text ih =>
    unfold startsWithin
    rw [Bool.or_eq_true, isPrefixOf_any_iff]
    constructor
    · rintro (⟨w, hw, after, h⟩ | h)
      · exact ⟨[], w, hw, after, h, Nat.zero_le _⟩
      · split at h
        · rename_i hc
          cases newlines with
          | zero => cases h
          | succ newlines =>
            obtain ⟨gap, w, hw, after, rfl, hcount⟩ := ih.1 h
            refine ⟨c :: gap, w, hw, after, rfl, ?_⟩
            rw [hc, List.count_cons_self]
            omega
        · rename_i hc
          obtain ⟨gap, w, hw, after, rfl, hcount⟩ := ih.1 h
          exact ⟨c :: gap, w, hw, after, rfl, by rwa [List.count_cons_of_ne hc]⟩
    · rintro ⟨gap, w, hw, after, h, hcount⟩
      cases gap with
      | nil => exact .inl ⟨w, hw, after, h⟩
      | cons d gap =>
        obtain ⟨rfl, rfl⟩ := List.cons.inj h
        right
        split
        · rename_i hc
          rw [hc, List.count_cons_self] at hcount
          cases newlines with
          | zero => omega
          | succ newlines => exact ih.2 ⟨gap, w, hw, after, rfl, by omega⟩
        · rename_i hc
          rw [List.count_cons_of_ne hc] at hcount
          exact ih.2 ⟨gap, w, hw, after, rfl, hcount⟩

theorem followedNearby_iff {first second : List JsString} {text : JsString} :
    followedNearby first second text = true ↔ Nearby newline first second text := by
  unfold followedNearby
  simp only [List.any_eq_true, List.mem_tails, Bool.and_eq_true, startsWithin_iff]
  constructor
  · rintro ⟨rest, ⟨before, rfl⟩, v, hv, hbegins, gap, w, hw, after, hrest, hcount⟩
    obtain ⟨rest, rfl⟩ := List.isPrefixOf_iff_prefix.1 hbegins
    rw [List.drop_left] at hrest
    exact ⟨before, gap, after, v, hv, w, hw, by rw [hrest], hcount⟩
  · rintro ⟨before, gap, after, v, hv, w, hw, rfl, hcount⟩
    refine ⟨_, ⟨before, rfl⟩, v, hv, List.isPrefixOf_iff_prefix.2 (List.prefix_append v _), gap, w,
      hw, after, ?_, hcount⟩
    rw [List.drop_left]

/-! ## Code points and characters -/

def isHighSurrogate (c : UInt16) : Bool := 0xD800 ≤ c && c < 0xDC00
def isLowSurrogate (c : UInt16) : Bool := 0xDC00 ≤ c && c < 0xE000

/-- `[...text]`: a surrogate that stands alone is a code point of its own. -/
def codePoints : JsString → List Nat
  | [] => []
  | [c] => [c.toNat]
  | c :: d :: text =>
    if isHighSurrogate c && isLowSurrogate d then
      (0x10000 + (c.toNat - 0xD800) * 0x400 + (d.toNat - 0xDC00)) :: codePoints text
    else c.toNat :: codePoints (d :: text)

def utf16 (n : Nat) : JsString :=
  if n < 0x10000 then [n.toUInt16]
  else [(0xD800 + (n - 0x10000) / 0x400).toUInt16, (0xDC00 + (n - 0x10000) % 0x400).toUInt16]

/-- A text column holds characters: the driver writes U+FFFD for a lone surrogate. -/
def storedCharacter (n : Nat) : Nat := if 0xD800 ≤ n && n < 0xE000 then 0xFFFD else n

def stored (text : JsString) : List Nat := (codePoints text).map storedCharacter

/-- A code unit that is a code point by itself. -/
def IsPlain (c : UInt16) : Prop := c < 0xD800 ∨ 0xE000 ≤ c

instance (c : UInt16) : Decidable (IsPlain c) := inferInstanceAs (Decidable (_ ∨ _))

theorem codePoints_cons_of_not_high {c : UInt16} {text : JsString}
    (h : isHighSurrogate c = false) : codePoints (c :: text) = c.toNat :: codePoints text := by
  cases text with
  | nil => rfl
  | cons d text => rw [codePoints, h]; rfl

theorem utf16_unit (c : UInt16) : utf16 c.toNat = [c] := by
  unfold utf16
  rw [if_pos c.toNat_lt]
  simp

theorem utf16_codePoints (text : JsString) : (codePoints text).flatMap utf16 = text := by
  fun_induction codePoints text with
  | case1 => rfl
  | case2 c => simp [utf16_unit]
  | case3 c d text hpair ih =>
    simp only [isHighSurrogate, isLowSurrogate, Bool.and_eq_true, decide_eq_true_eq,
      UInt16.le_iff_toNat_le, UInt16.lt_iff_toNat_lt] at hpair
    have hc : 0xD800 ≤ c.toNat ∧ c.toNat < 0xDC00 := hpair.1
    have hd : 0xDC00 ≤ d.toNat ∧ d.toNat < 0xE000 := hpair.2
    have hhigh : 0xD800 + (0x10000 + (c.toNat - 0xD800) * 0x400 + (d.toNat - 0xDC00) - 0x10000)
        / 0x400 = c.toNat := by omega
    have hlow : 0xDC00 + (0x10000 + (c.toNat - 0xD800) * 0x400 + (d.toNat - 0xDC00) - 0x10000)
        % 0x400 = d.toNat := by omega
    have hpoint : utf16 (0x10000 + (c.toNat - 0xD800) * 0x400 + (d.toNat - 0xDC00)) = [c, d] := by
      unfold utf16
      rw [if_neg (by omega), hhigh, hlow]
      simp
    rw [List.flatMap_cons, hpoint, ih]
    rfl
  | case4 c d text hpair ih =>
    rw [List.flatMap_cons, utf16_unit, ih]
    rfl

theorem codePoints_append_plain {c : UInt16} (hc : IsPlain c) (before after : JsString) :
    codePoints (before ++ c :: after) = codePoints before ++ c.toNat :: codePoints after := by
  have hhigh : isHighSurrogate c = false := by
    unfold isHighSurrogate
    rw [Bool.and_eq_false_iff, decide_eq_false_iff_not, decide_eq_false_iff_not]
    simp only [IsPlain, UInt16.le_iff_toNat_le, UInt16.lt_iff_toNat_lt] at hc ⊢
    have h1 : (0xD800 : UInt16).toNat = 0xD800 := rfl
    have h2 : (0xDC00 : UInt16).toNat = 0xDC00 := rfl
    have h3 : (0xE000 : UInt16).toNat = 0xE000 := rfl
    omega
  have hlow : isLowSurrogate c = false := by
    unfold isLowSurrogate
    rw [Bool.and_eq_false_iff, decide_eq_false_iff_not, decide_eq_false_iff_not]
    simp only [IsPlain, UInt16.le_iff_toNat_le, UInt16.lt_iff_toNat_lt] at hc ⊢
    have h1 : (0xD800 : UInt16).toNat = 0xD800 := rfl
    have h2 : (0xDC00 : UInt16).toNat = 0xDC00 := rfl
    have h3 : (0xE000 : UInt16).toNat = 0xE000 := rfl
    omega
  fun_induction codePoints before with
  | case1 => exact codePoints_cons_of_not_high hhigh
  | case2 d =>
    change codePoints (d :: c :: after) = _
    rw [codePoints, hlow, Bool.and_false, if_neg Bool.false_ne_true,
      codePoints_cons_of_not_high hhigh]
    rfl
  | case3 d e before hpair ih =>
    change codePoints (d :: e :: (before ++ c :: after)) = _
    rw [codePoints, if_pos hpair, ih]
    rfl
  | case4 d e before hpair ih =>
    change codePoints (d :: e :: (before ++ c :: after)) = _
    rw [codePoints, if_neg hpair]
    exact congrArg _ ih

theorem codePoints_append_word {word : JsString} (hword : ∀ c ∈ word, IsPlain c)
    (hne : word ≠ []) (before after : JsString) :
    codePoints (before ++ (word ++ after))
      = codePoints before ++ (word.map UInt16.toNat ++ codePoints after) := by
  induction word generalizing before with
  | nil => exact absurd rfl hne
  | cons c word ih =>
    have hc := hword c List.mem_cons_self
    rw [List.cons_append, codePoints_append_plain hc]
    cases word with
    | nil => rfl
    | cons d word =>
      have hrest := ih (fun e he => hword e (List.mem_cons_of_mem _ he)) (List.cons_ne_nil _ _) []
      rw [List.nil_append] at hrest
      rw [hrest]
      rfl

theorem codePoints_lt {text : JsString} {n : Nat} (h : n ∈ codePoints text) : n < 0x110000 := by
  fun_induction codePoints text with
  | case1 => cases h
  | case2 c =>
    rw [List.mem_singleton] at h
    have := c.toNat_lt
    omega
  | case3 c d text hpair ih =>
    rcases List.mem_cons.1 h with hn | h
    · simp only [isHighSurrogate, isLowSurrogate, Bool.and_eq_true, decide_eq_true_eq,
        UInt16.le_iff_toNat_le, UInt16.lt_iff_toNat_lt] at hpair
      have hc : 0xD800 ≤ c.toNat ∧ c.toNat < 0xDC00 := hpair.1
      have hd : 0xDC00 ≤ d.toNat ∧ d.toNat < 0xE000 := hpair.2
      omega
    · exact ih h
  | case4 c d text hpair ih =>
    rcases List.mem_cons.1 h with rfl | h
    · have := c.toNat_lt
      omega
    · exact ih h

theorem count_newline_utf16 {points : List Nat} (h : ∀ n ∈ points, n < 0x110000) :
    (points.flatMap utf16).count newline = points.count 10 := by
  induction points with
  | nil => rfl
  | cons n points ih =>
    rw [List.flatMap_cons, List.count_append, List.count_cons,
      ih fun m hm => h m (List.mem_cons_of_mem _ hm)]
    have hn := h n List.mem_cons_self
    have hone : (utf16 n).count newline = if n == 10 then 1 else 0 := by
      unfold utf16
      split
      · rename_i hsmall
        rw [List.count_singleton]
        have hiff : (n.toUInt16 == newline) = (n == 10) := by
          rw [Bool.eq_iff_iff, beq_iff_eq, beq_iff_eq, ← UInt16.toNat_inj, Nat.toUInt16_eq,
            UInt16.toNat_ofNat_of_lt' hsmall]
          exact Iff.rfl
        rw [hiff]
      · rename_i hlarge
        have hhigh : (0xD800 + (n - 0x10000) / 0x400).toUInt16 ≠ newline := by
          rw [← UInt16.toNat_inj.ne, Nat.toUInt16_eq,
            UInt16.toNat_ofNat_of_lt' (show _ < 2 ^ 16 by omega)]
          show _ ≠ 10
          omega
        have hlow : (0xDC00 + (n - 0x10000) % 0x400).toUInt16 ≠ newline := by
          rw [← UInt16.toNat_inj.ne, Nat.toUInt16_eq,
            UInt16.toNat_ofNat_of_lt' (show _ < 2 ^ 16 by omega)]
          show _ ≠ 10
          omega
        have hten : (n == 10) = false := by
          rw [beq_eq_false_iff_ne]
          omega
        rw [List.count_cons_of_ne hhigh, List.count_cons_of_ne hlow, hten]
        rfl
    rw [hone, Nat.add_comm]

theorem utf16_word (word : JsString) : (word.map UInt16.toNat).flatMap utf16 = word := by
  induction word with
  | nil => rfl
  | cons c word ih => rw [List.map_cons, List.flatMap_cons, utf16_unit, ih]; rfl

/-- Words of plain code units are near each other in the code units and in the code
points alike. -/
theorem nearby_codePoints {first second : List JsString} {text : JsString}
    (hplain : ∀ word ∈ first ++ second, word ≠ [] ∧ ∀ c ∈ word, IsPlain c) :
    Nearby newline first second text
      ↔ Nearby 10 (first.map (List.map UInt16.toNat)) (second.map (List.map UInt16.toNat))
          (codePoints text) := by
  constructor
  · rintro ⟨before, gap, after, v, hv, w, hw, rfl, hcount⟩
    obtain ⟨hvne, hvplain⟩ := hplain v (List.mem_append_left _ hv)
    obtain ⟨hwne, hwplain⟩ := hplain w (List.mem_append_right _ hw)
    refine ⟨codePoints before, codePoints gap, codePoints after, _, List.mem_map_of_mem hv, _,
      List.mem_map_of_mem hw, ?_, ?_⟩
    · rw [codePoints_append_word hvplain hvne, codePoints_append_word hwplain hwne]
    · rw [← count_newline_utf16 fun n hn => codePoints_lt hn, utf16_codePoints]
      exact hcount
  · rintro ⟨before, gap, after, _, hv, _, hw, htext, hcount⟩
    obtain ⟨v, hfirst, rfl⟩ := List.mem_map.1 hv
    obtain ⟨w, hsecond, rfl⟩ := List.mem_map.1 hw
    have hgap : ∀ n ∈ gap, n < 0x110000 := by
      intro n hn
      have hmem : n ∈ codePoints text := by
        rw [htext]
        simp [hn]
      exact codePoints_lt hmem
    have hunits := congrArg (List.flatMap utf16) htext
    rw [utf16_codePoints, List.flatMap_append, List.flatMap_append, List.flatMap_append,
      List.flatMap_append, utf16_word, utf16_word] at hunits
    exact ⟨_, _, _, v, hfirst, w, hsecond, hunits, (count_newline_utf16 hgap).symm ▸ hcount⟩

/-! ## The expression of the application -/

def codes (s : String) : List Nat := (js s).map UInt16.toNat

def phrase (s : String) : Regex Nat := literal (fun c d => c = d) (codes s)

/-- `unsubscribe|opt[ -]?out|remove me|stop receiving|stop these (?:emails|messages)|` and
the rest of the phrases. -/
def optOutPhrasesRegex : Regex Nat :=
  oneOf [phrase "unsubscribe",
    .seq (phrase "opt") (.seq (optional (.one fun c => c ∈ codes " -")) (phrase "out")),
    phrase "remove me", phrase "stop receiving",
    .seq (phrase "stop these ") (oneOf [phrase "emails", phrase "messages"]),
    phrase "no longer receive", phrase "list-manage",
    .seq (phrase "manage ") (.seq (optional (phrase "your ")) (phrase "preferences"))]

def urlTokenRegex : Regex Nat :=
  oneOf [.seq (phrase "http") (.seq (optional (phrase "s")) (phrase "://")), phrase "www.",
    phrase "mailto:"]

def optOutLinkRegex : Regex Nat :=
  .alt (nearbyRegex 10 optOutPhrasesRegex urlTokenRegex)
    (nearbyRegex 10 urlTokenRegex optOutPhrasesRegex)

def phraseWords (words : List JsString) : List (List Nat) := words.map (List.map UInt16.toNat)

theorem spells_phrase (s : String) : Spells (among [codes s]) (phrase s) :=
  Spells.among_literal (codes s)

theorem spells_optOutPhrases :
    Spells (among (phraseWords optOutPhrases)) optOutPhrasesRegex := by
  have hopt := (spells_phrase "opt").among_seq
    ((Spells.among_class (codes " -")).among_optional.among_seq (spells_phrase "out"))
  have hthese := (spells_phrase "stop these ").among_seq
    ((spells_phrase "emails").among_alt ((spells_phrase "messages").among_alt Spells.among_never))
  have hmanage := (spells_phrase "manage ").among_seq
    ((spells_phrase "your ").among_optional.among_seq (spells_phrase "preferences"))
  have hall := (spells_phrase "unsubscribe").among_alt (hopt.among_alt
    ((spells_phrase "remove me").among_alt ((spells_phrase "stop receiving").among_alt
      (hthese.among_alt ((spells_phrase "no longer receive").among_alt
        ((spells_phrase "list-manage").among_alt (hmanage.among_alt Spells.among_never)))))))
  refine hall.congr fun w => ?_
  apply List.Perm.mem_iff
  decide +kernel

theorem spells_urlToken : Spells (among (phraseWords urlToken)) urlTokenRegex := by
  have hhttp := (spells_phrase "http").among_seq
    ((spells_phrase "s").among_optional.among_seq (spells_phrase "://"))
  have hall := hhttp.among_alt ((spells_phrase "www.").among_alt
    ((spells_phrase "mailto:").among_alt Spells.among_never))
  refine hall.congr fun w => ?_
  apply List.Perm.mem_iff
  decide +kernel

/-- The expression finds a phrase near a URL, in either order. -/
theorem optOutLinkRegex_iff (text : List Nat) :
    test optOutLinkRegex text = true
      ↔ Nearby 10 (phraseWords optOutPhrases) (phraseWords urlToken) text ∨
        Nearby 10 (phraseWords urlToken) (phraseWords optOutPhrases) text := by
  rw [optOutLinkRegex, test_alt, Bool.or_eq_true,
    nearbyRegex_iff spells_optOutPhrases spells_urlToken,
    nearbyRegex_iff spells_urlToken spells_optOutPhrases]

example : test optOutLinkRegex (codes "To stop receiving these:\nhttps://a.example") = true := by
  decide +kernel

theorem words_plain :
    ∀ word ∈ optOutPhrases ++ urlToken, word ≠ [] ∧ ∀ c ∈ word, IsPlain c := by
  have hne : ∀ word ∈ optOutPhrases ++ urlToken, word ≠ [] :=
    Texts.forall_of_all (by decide +kernel)
  have hplain : ∀ word ∈ optOutPhrases ++ urlToken, ∀ c ∈ word, IsPlain c :=
    Texts.forall_letters_of_all (by decide +kernel)
  intro word hword
  exact ⟨hne word hword, hplain word hword⟩

/-- The search over code units is the expression over code points. -/
theorem optOutLinkPattern_eq (text : JsString) :
    optOutLinkPattern text = test optOutLinkRegex (codePoints text) := by
  have hswapped : ∀ word ∈ urlToken ++ optOutPhrases, word ≠ [] ∧ ∀ c ∈ word, IsPlain c := by
    intro word hword
    apply words_plain
    rw [List.mem_append] at hword ⊢
    exact hword.symm
  rw [Bool.eq_iff_iff, optOutLinkRegex_iff, optOutLinkPattern, Bool.or_eq_true, followedNearby_iff,
    followedNearby_iff, nearby_codePoints words_plain, nearby_codePoints hswapped]
  exact Iff.rfl

/-! ## The function of the database -/

/-- `translate(text, from, to)`: a character of `from` without a counterpart is dropped. -/
def sqlTranslate (text source target : List Nat) : List Nat :=
  text.flatMap fun c => if c ∈ source then target[source.idxOf c]?.toList else [c]

def sqlDashes : List Nat :=
  [0x002D, 0x058A, 0x05BE, 0x1806, 0x2010, 0x2011, 0x2012, 0x2013, 0x2014, 0x2015, 0x2212,
   0x2E3A, 0x2E3B, 0x301C, 0x3030, 0xFE58, 0xFE63, 0xFF0D]

def sqlSpaces : List Nat :=
  [0x0009, 0x0020, 0x00A0, 0x1680, 0x2000, 0x2001, 0x2002, 0x2003, 0x2004, 0x2005, 0x2006,
   0x2007, 0x2008, 0x2009, 0x200A, 0x200B, 0x202F, 0x205F, 0x3000]

/-- The expression as migration 0024 writes it. -/
def emailOptoutRegex : Regex Nat :=
  let phrases := oneOf [phrase "unsubscribe",
    .seq (phrase "opt") (.seq (optional (.one fun c => c ∈ codes " -")) (phrase "out")),
    phrase "remove me", phrase "stop receiving",
    .seq (phrase "stop these ") (oneOf [phrase "emails", phrase "messages"]),
    phrase "no longer receive", phrase "list-manage",
    .seq (phrase "manage ") (.seq (optional (phrase "your ")) (phrase "preferences"))]
  let urls := oneOf [.seq (phrase "http") (.seq (optional (phrase "s")) (phrase "://")),
    phrase "www.", phrase "mailto:"]
  .alt (nearbyRegex 10 phrases urls) (nearbyRegex 10 urls phrases)

/-- `email_has_optout_link(candidate)`, where `normalizeNFKC` is `normalize(…, NFKC)`. -/
def emailHasOptoutLink (normalizeNFKC : List Nat → List Nat) (candidate : List Nat) : Bool :=
  let dashed := sqlTranslate (normalizeNFKC candidate) sqlDashes (codes "------------------")
  let spaced := sqlTranslate dashed sqlSpaces (codes "                   ")
  test emailOptoutRegex
    (sqlTranslate spaced (codes "ABCDEFGHIJKLMNOPQRSTUVWXYZ") (codes "abcdefghijklmnopqrstuvwxyz"))

/-- `NOT email_has_optout_link(body) AND NOT email_has_optout_link(subject)` -/
def noOptoutLink (normalizeNFKC : List Nat → List Nat) (body subject : List Nat) : Bool :=
  !emailHasOptoutLink normalizeNFKC body && !emailHasOptoutLink normalizeNFKC subject

example : noOptoutLink id (codes "Opt out here:\nhttps://a.example") (codes "Hello") = false := by
  decide +kernel

/-! ## The two normalisations -/

/-- A map of code units as a map of code points. -/
def pointMap (f : UInt16 → UInt16) (n : Nat) : Nat :=
  if n < 0x10000 then (f n.toUInt16).toNat else n

theorem pointMap_unit (f : UInt16 → UInt16) (c : UInt16) : pointMap f c.toNat = (f c).toNat := by
  unfold pointMap
  rw [if_pos c.toNat_lt]
  simp

theorem not_plain_of_pair {c d : UInt16} (h : (isHighSurrogate c && isLowSurrogate d) = true) :
    ¬ IsPlain c ∧ ¬ IsPlain d := by
  simp only [isHighSurrogate, isLowSurrogate, Bool.and_eq_true, decide_eq_true_eq,
    UInt16.le_iff_toNat_le, UInt16.lt_iff_toNat_lt] at h
  simp only [IsPlain, UInt16.le_iff_toNat_le, UInt16.lt_iff_toNat_lt]
  have h1 : (0xD800 : UInt16).toNat = 0xD800 := rfl
  have h2 : (0xDC00 : UInt16).toNat = 0xDC00 := rfl
  have h3 : (0xE000 : UInt16).toNat = 0xE000 := rfl
  omega

theorem not_surrogate_of_plain {c : UInt16} (h : IsPlain c) :
    isHighSurrogate c = false ∧ isLowSurrogate c = false := by
  simp only [isHighSurrogate, isLowSurrogate, Bool.and_eq_false_iff, decide_eq_false_iff_not]
  simp only [IsPlain, UInt16.le_iff_toNat_le, UInt16.lt_iff_toNat_lt] at h ⊢
  have h1 : (0xD800 : UInt16).toNat = 0xD800 := rfl
  have h2 : (0xDC00 : UInt16).toNat = 0xDC00 := rfl
  have h3 : (0xE000 : UInt16).toNat = 0xE000 := rfl
  omega

/-- A map that moves plain code units among themselves moves code points one by one. -/
theorem codePoints_map {f : UInt16 → UInt16} (hplain : ∀ c, IsPlain c → IsPlain (f c))
    (hfixed : ∀ c, ¬ IsPlain c → f c = c) (text : JsString) :
    codePoints (text.map f) = (codePoints text).map (pointMap f) := by
  have hkind : ∀ c, isHighSurrogate (f c) = isHighSurrogate c ∧
      isLowSurrogate (f c) = isLowSurrogate c := by
    intro c
    by_cases hc : IsPlain c
    · have hfrom := not_surrogate_of_plain hc
      have hto := not_surrogate_of_plain (hplain c hc)
      rw [hfrom.1, hfrom.2, hto.1, hto.2]
      exact ⟨rfl, rfl⟩
    · rw [hfixed c hc]
      exact ⟨rfl, rfl⟩
  fun_induction codePoints text with
  | case1 => rfl
  | case2 c =>
    change [(f c).toNat] = [pointMap f c.toNat]
    rw [pointMap_unit]
  | case3 c d text hpair ih =>
    obtain ⟨hc, hd⟩ := not_plain_of_pair hpair
    have hpoint : pointMap f (0x10000 + (c.toNat - 0xD800) * 0x400 + (d.toNat - 0xDC00))
        = 0x10000 + (c.toNat - 0xD800) * 0x400 + (d.toNat - 0xDC00) := by
      unfold pointMap
      rw [if_neg (by omega)]
    rw [List.map_cons, List.map_cons, hfixed c hc, hfixed d hd, codePoints, if_pos hpair, ih,
      List.map_cons, hpoint]
  | case4 c d text hpair ih =>
    rw [List.map_cons] at ih
    rw [List.map_cons, List.map_cons, codePoints, (hkind c).1, (hkind d).2, if_neg hpair, ih,
      List.map_cons, pointMap_unit]

/-- What stands in `target` where `c` stands in `source`. -/
def lookUp {α : Type} [DecidableEq α] (source target : List α) (c : α) : α :=
  if c ∈ source then target.getD (source.idxOf c) c else c

theorem lookUp_of_not_mem {α : Type} [DecidableEq α] {source : List α} {c : α}
    (h : c ∉ source) (target : List α) : lookUp source target c = c :=
  if_neg h

theorem lookUp_mem {α : Type} [DecidableEq α] {source target : List α} {c : α} (h : c ∈ source)
    (hlength : source.length = target.length) : lookUp source target c ∈ target := by
  have hlt : source.idxOf c < target.length := hlength ▸ List.idxOf_lt_length_iff.2 h
  unfold lookUp
  rw [if_pos h, List.getD_eq_getElem _ _ hlt]
  exact List.getElem_mem hlt

theorem idxOf_units (source : JsString) (c : UInt16) :
    (source.map UInt16.toNat).idxOf c.toNat = source.idxOf c := by
  induction source with
  | nil => rfl
  | cons d source ih =>
    rw [List.map_cons, List.idxOf_cons, List.idxOf_cons, ih]
    have hbeq : (d.toNat == c.toNat) = (d == c) := by
      rw [Bool.eq_iff_iff, beq_iff_eq, beq_iff_eq, UInt16.toNat_inj]
    rw [hbeq]

theorem lookUp_units (source target : JsString) (c : UInt16) :
    lookUp (source.map UInt16.toNat) (target.map UInt16.toNat) c.toNat
      = (lookUp source target c).toNat := by
  unfold lookUp
  by_cases hc : c ∈ source
  · rw [if_pos hc, if_pos (List.mem_map_of_mem hc), idxOf_units, List.getD_map]
  · have hout : c.toNat ∉ source.map UInt16.toNat := by
      intro hin
      obtain ⟨d, hd, heq⟩ := List.mem_map.1 hin
      exact hc (UInt16.toNat_inj.1 heq ▸ hd)
    rw [if_neg hc, if_neg hout]

/-- No character is dropped when every one has a counterpart. -/
theorem sqlTranslate_eq_map {text source target : List Nat}
    (h : source.length = target.length) :
    sqlTranslate text source target = text.map (lookUp source target) := by
  unfold sqlTranslate
  rw [List.map_eq_flatMap]
  congr 1
  funext c
  unfold lookUp
  split
  · rename_i hc
    have hlt : source.idxOf c < target.length := h ▸ List.idxOf_lt_length_iff.2 hc
    rw [List.getElem?_eq_getElem hlt, List.getD_eq_getElem _ _ hlt]
    rfl
  · rfl

theorem storedCharacter_plain {c : UInt16} (h : IsPlain c) :
    storedCharacter c.toNat = c.toNat := by
  simp only [IsPlain, UInt16.le_iff_toNat_le, UInt16.lt_iff_toNat_lt] at h
  have h1 : (0xD800 : UInt16).toNat = 0xD800 := rfl
  have h3 : (0xE000 : UInt16).toNat = 0xE000 := rfl
  unfold storedCharacter
  rw [if_neg]
  simp only [Bool.and_eq_true, decide_eq_true_eq]
  omega

theorem storedCharacter_surrogate {c : UInt16} (h : ¬ IsPlain c) :
    storedCharacter c.toNat = 0xFFFD := by
  simp only [IsPlain, UInt16.le_iff_toNat_le, UInt16.lt_iff_toNat_lt] at h
  have h1 : (0xD800 : UInt16).toNat = 0xD800 := rfl
  have h3 : (0xE000 : UInt16).toNat = 0xE000 := rfl
  unfold storedCharacter
  rw [if_pos]
  simp only [Bool.and_eq_true, decide_eq_true_eq]
  omega

theorem storedCharacter_large {n : Nat} (h : ¬ n < 0x10000) : storedCharacter n = n := by
  unfold storedCharacter
  rw [if_neg]
  simp only [Bool.and_eq_true, decide_eq_true_eq]
  omega

/-- Translating and storing may be exchanged: the tables name plain code units only, and
the replacement character is in none of them. -/
theorem stored_translate {source target : JsString}
    (hsource : ∀ c ∈ source, IsPlain c ∧ c ≠ 0xFFFD) (htarget : ∀ c ∈ target, IsPlain c)
    (hlength : source.length = target.length) (text : JsString) :
    stored (translate text source target)
      = sqlTranslate (stored text) (source.map UInt16.toNat) (target.map UInt16.toNat) := by
  have hplain : ∀ c, IsPlain c → IsPlain (lookUp source target c) := by
    intro c hc
    by_cases hin : c ∈ source
    · exact htarget _ (lookUp_mem hin hlength)
    · rwa [lookUp_of_not_mem hin]
  have hfixed : ∀ c, ¬ IsPlain c → lookUp source target c = c :=
    fun c hc => lookUp_of_not_mem (fun hin => hc (hsource c hin).1) target
  have htranslate : translate text source target = text.map (lookUp source target) := rfl
  have hout : ∀ n, (∀ c ∈ source, c.toNat ≠ n) →
      lookUp (source.map UInt16.toNat) (target.map UInt16.toNat) n = n := by
    intro n hn
    apply lookUp_of_not_mem
    intro hin
    obtain ⟨c, hc, heq⟩ := List.mem_map.1 hin
    exact hn c hc heq
  unfold stored
  rw [htranslate, codePoints_map hplain hfixed, sqlTranslate_eq_map (by simp [hlength]),
    List.map_map, List.map_map]
  apply List.map_congr_left
  intro n hn
  show storedCharacter (pointMap _ n) = lookUp _ _ (storedCharacter n)
  by_cases hsmall : n < 0x10000
  · obtain ⟨c, rfl⟩ : ∃ c : UInt16, c.toNat = n := ⟨n.toUInt16, UInt16.toNat_ofNat_of_lt' hsmall⟩
    rw [pointMap_unit]
    by_cases hc : IsPlain c
    · rw [storedCharacter_plain (hplain c hc), storedCharacter_plain hc, lookUp_units]
    · rw [hfixed c hc, storedCharacter_surrogate hc]
      exact (hout _ fun d hd heq => (hsource d hd).2 (UInt16.toNat_inj.1 heq)).symm
  · have hpoint : pointMap (lookUp source target) n = n := if_neg hsmall
    rw [hpoint, storedCharacter_large hsmall]
    exact (hout n fun d _ heq => hsmall (heq ▸ d.toNat_lt)).symm

/-! ## Agreement -/

section Agreement

variable {P : Platform} {normalizeNFKC : List Nat → List Nat}

/-- The two normalisations leave the same characters. -/
theorem stored_normalize
    (hNFKC : ∀ text, stored (P.normalizeNFKC text) = normalizeNFKC (stored text))
    (text : JsString) :
    stored (normalizeForOptOutRule P text)
      = sqlTranslate (sqlTranslate (sqlTranslate (normalizeNFKC (stored text)) sqlDashes
          (codes "------------------")) sqlSpaces (codes "                   "))
          (codes "ABCDEFGHIJKLMNOPQRSTUVWXYZ") (codes "abcdefghijklmnopqrstuvwxyz") := by
  unfold normalizeForOptOutRule
  rw [stored_translate (Texts.forall_of_all (by decide +kernel))
      (Texts.forall_of_all (by decide +kernel)) (by decide +kernel),
    stored_translate (Texts.forall_of_all (by decide +kernel))
      (Texts.forall_of_all (by decide +kernel)) (by decide +kernel),
    stored_translate (Texts.forall_of_all (by decide +kernel))
      (Texts.forall_of_all (by decide +kernel)) (by decide +kernel), hNFKC]
  rfl

/-- Storing keeps words near each other: no letter of them and no newline is a surrogate. -/
theorem nearby_stored {first second : List JsString} {text : JsString}
    (hletters : ∀ word ∈ first ++ second, ∀ c ∈ word, IsPlain c ∧ c ≠ 0xFFFD) :
    Nearby 10 (phraseWords first) (phraseWords second) (stored text)
      ↔ Nearby 10 (phraseWords first) (phraseWords second) (codePoints text) := by
  have hinj : ∀ d : UInt16, IsPlain d → d ≠ 0xFFFD → ∀ n,
      storedCharacter n = storedCharacter d.toNat → n = d.toNat := by
    intro d hd hne n hn
    rw [storedCharacter_plain hd] at hn
    by_cases hsmall : n < 0x10000
    · obtain ⟨c, rfl⟩ : ∃ c : UInt16, c.toNat = n :=
        ⟨n.toUInt16, UInt16.toNat_ofNat_of_lt' hsmall⟩
      by_cases hc : IsPlain c
      · rwa [storedCharacter_plain hc] at hn
      · rw [storedCharacter_surrogate hc] at hn
        have heq : (0xFFFD : UInt16) = d := UInt16.toNat_inj.1 hn
        exact absurd heq.symm hne
    · rwa [storedCharacter_large hsmall] at hn
  have hself : ∀ words : List JsString, (∀ word ∈ words, ∀ c ∈ word, IsPlain c ∧ c ≠ 0xFFFD) →
      (phraseWords words).map (List.map storedCharacter) = phraseWords words := by
    intro words hwords
    unfold phraseWords
    rw [List.map_map]
    apply List.map_congr_left
    intro word hword
    show (word.map UInt16.toNat).map storedCharacter = _
    rw [List.map_map]
    apply List.map_congr_left
    intro c hc
    exact storedCharacter_plain (hwords word hword c hc).1
  have hnl : ∀ c, storedCharacter c = storedCharacter 10 → c = 10 :=
    hinj 10 (by decide) (by decide)
  have hwords : ∀ v ∈ phraseWords first ++ phraseWords second, ∀ d ∈ v, ∀ c,
      storedCharacter c = storedCharacter d → c = d := by
    intro v hv d hd c hc
    unfold phraseWords at hv
    rw [← List.map_append] at hv
    obtain ⟨word, hword, rfl⟩ := List.mem_map.1 hv
    obtain ⟨e, he, rfl⟩ := List.mem_map.1 hd
    obtain ⟨hplain, hne⟩ := hletters word hword e he
    exact hinj e hplain hne c hc
  have hmap : Nearby (storedCharacter 10) ((phraseWords first).map (List.map storedCharacter))
      ((phraseWords second).map (List.map storedCharacter)) (stored text)
      ↔ Nearby 10 (phraseWords first) (phraseWords second) (codePoints text) :=
    nearby_map hnl hwords
  rw [hself first fun word hword => hletters word (List.mem_append_left _ hword),
    hself second fun word hword => hletters word (List.mem_append_right _ hword)] at hmap
  exact hmap

/-- The database finds a link in what is stored of a text where the application finds one
in the text. -/
theorem emailHasOptoutLink_stored
    (hNFKC : ∀ text, stored (P.normalizeNFKC text) = normalizeNFKC (stored text))
    (text : JsString) :
    emailHasOptoutLink normalizeNFKC (stored text) = hasOptOutLink P text := by
  have hletters : ∀ word ∈ optOutPhrases ++ urlToken, ∀ c ∈ word, IsPlain c ∧ c ≠ 0xFFFD :=
    Texts.forall_letters_of_all (by decide +kernel)
  have hswapped : ∀ word ∈ urlToken ++ optOutPhrases, ∀ c ∈ word, IsPlain c ∧ c ≠ 0xFFFD := by
    intro word hword
    apply hletters
    rw [List.mem_append] at hword ⊢
    exact hword.symm
  have hsql : emailHasOptoutLink normalizeNFKC (stored text)
      = test optOutLinkRegex (stored (normalizeForOptOutRule P text)) := by
    rw [stored_normalize hNFKC]
    rfl
  rw [hsql, hasOptOutLink, optOutLinkPattern_eq, Bool.eq_iff_iff,
    optOutLinkRegex_iff, optOutLinkRegex_iff, nearby_stored hletters, nearby_stored hswapped]

/-- The two detectors agree: the application tests its expression over the code points of
the normalised text, the function of the database answers the same of every text as it is
stored, and so a row passes the constraint exactly when the application finds no link in
its body and its subject. -/
theorem detectors_agree
    (hNFKC : ∀ text, stored (P.normalizeNFKC text) = normalizeNFKC (stored text)) :
    (∀ text, hasOptOutLink P text
        = test optOutLinkRegex (codePoints (normalizeForOptOutRule P text))) ∧
      (∀ text, emailHasOptoutLink normalizeNFKC (stored text) = hasOptOutLink P text) ∧
      ∀ body subject, noOptoutLink normalizeNFKC (stored body) (stored subject) = true
        ↔ hasOptOutLink P body = false ∧ hasOptOutLink P subject = false := by
  refine ⟨fun text => optOutLinkPattern_eq _, emailHasOptoutLink_stored hNFKC, ?_⟩
  intro body subject
  unfold noOptoutLink
  rw [emailHasOptoutLink_stored hNFKC, emailHasOptoutLink_stored hNFKC, Bool.and_eq_true,
    Bool.not_eq_true', Bool.not_eq_true']

end Agreement

/-- A label above its link, with a dash and a capital that are folded: both find it. -/
theorem detectors_agree_label :
    emailHasOptoutLink id (stored (js "Opt\u2010out here:\nhttps://a.example")) = true ∧
      hasOptOutLink (asciiPlatform []) (js "Opt\u2010out here:\nhttps://a.example") = true := by
  have hNFKC : ∀ text, stored ((asciiPlatform []).normalizeNFKC text) = id (stored text) :=
    fun _ => rfl
  have hagree := (detectors_agree hNFKC).2.1 (js "Opt\u2010out here:\nhttps://a.example")
  have hfound : hasOptOutLink (asciiPlatform []) (js "Opt\u2010out here:\nhttps://a.example")
      = true := by decide +kernel
  exact ⟨hagree.trans hfound, hfound⟩

end FoundingSales.Contracts
