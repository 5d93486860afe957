import Mathlib.Data.List.DropRight
import Mathlib.Data.List.Sort
import Mathlib.Data.List.Infix

/-!
Text as a list over any alphabet: stripping at the ends, and the last line, which is
determined by the text.
-/

namespace Texts

variable {α : Type*}

section Strip

variable (p : α → Bool)

/-- Without the `p`-elements at either end. -/
def strip (xs : List α) : List α := (xs.dropWhile p).rdropWhile p

variable {p} {xs ys : List α}

theorem rdropWhile_append_of_all (h : ∀ y ∈ ys, p y = true) :
    (xs ++ ys).rdropWhile p = xs.rdropWhile p := by
  induction ys using List.reverseRecOn with
  | nil => rw [List.append_nil]
  | append_singleton ys y ih =>
    have hy : p y = true := h y (by simp)
    rw [← List.append_assoc, List.rdropWhile_concat_pos _ _ _ hy]
    exact ih fun z hz => h z (by simp [hz])

theorem rdropWhile_append_of_last (hne : ys ≠ []) (h : p (ys.getLast hne) = false) :
    (xs ++ ys).rdropWhile p = xs ++ ys := by
  rw [List.rdropWhile_eq_self_iff]
  intro hl
  rw [List.getLast_append_of_ne_nil _ hne, h]
  exact Bool.false_ne_true

theorem rdropWhile_eq_nil_iff_strip : xs.rdropWhile p = [] ↔ strip p xs = [] := by
  rw [strip, List.rdropWhile_eq_nil_iff, List.rdropWhile_eq_nil_iff]
  constructor
  · intro h x hx
    exact h x ((List.dropWhile_suffix p).mem hx)
  · intro h x hx
    rcases List.mem_append.1 (List.takeWhile_append_dropWhile (p := p) (l := xs) ▸ hx) with hx | hx
    · exact List.mem_takeWhile_imp hx
    · exact h x hx

theorem strip_infix : strip p xs <:+: xs :=
  (List.rdropWhile_prefix p _).isInfix.trans (List.dropWhile_suffix p).isInfix

theorem strip_of_forall (h : ∀ x ∈ xs, p x = false) : strip p xs = xs := by
  have hfront : xs.dropWhile p = xs := by
    cases xs with
    | nil => rfl
    | cons a xs => exact List.dropWhile_cons_of_neg (by simp [h a (by simp)])
  rw [strip, hfront, List.rdropWhile_eq_self_iff]
  intro hne
  simp [h _ (List.getLast_mem hne)]

theorem mem_of_mem_strip {x : α} (h : x ∈ strip p xs) : x ∈ xs := strip_infix.mem h

/-- The first element of a stripped text is kept by a further strip. -/
theorem strip_strip : strip p (strip p xs) = strip p xs := by
  have hfront : ((xs.dropWhile p).rdropWhile p).dropWhile p = (xs.dropWhile p).rdropWhile p := by
    cases h : (xs.dropWhile p).rdropWhile p with
    | nil => rfl
    | cons a l =>
      have hbegins := List.rdropWhile_prefix p (xs.dropWhile p)
      rw [h] at hbegins
      obtain ⟨rest, hrest⟩ := hbegins
      have hne : xs.dropWhile p ≠ [] := by
        rw [← hrest]
        simp
      have hhead := List.head_dropWhile_not p hne
      have ha : (xs.dropWhile p).head hne = a := by simp [← hrest]
      rw [ha] at hhead
      simp [hhead]
  rw [strip, strip, hfront, List.rdropWhile_idempotent]

/-- Stripping the end keeps the order of prefixes. -/
theorem rdropWhile_prefix_of_prefix (h : xs <+: ys) : xs.rdropWhile p <+: ys.rdropWhile p := by
  have hxs : xs.rdropWhile p <+: ys := (List.rdropWhile_prefix p xs).trans h
  rcases List.prefix_or_prefix_of_prefix hxs (List.rdropWhile_prefix p ys) with hle | ⟨rest, hrest⟩
  · exact hle
  · -- what is left over stands in the stripped end of `ys`, and the last of it is no `p`-element
    by_cases hnil : rest = []
    · rw [← hrest, hnil, List.append_nil]
    · exfalso
      have hne : xs.rdropWhile p ≠ [] := by
        rw [← hrest]
        exact List.append_ne_nil_of_right_ne_nil _ hnil
      have hlast := List.rdropWhile_last_not p xs hne
      have hrtake : rest <+: ys.rtakeWhile p := by
        have hall : ys.rdropWhile p ++ rest <+: ys.rdropWhile p ++ ys.rtakeWhile p := by
          rw [hrest, List.rdropWhile_append_rtakeWhile]
          exact hxs
        exact (List.prefix_append_right_inj _).1 hall
      apply hlast
      have hmem : (xs.rdropWhile p).getLast hne ∈ rest := by
        have hget : (xs.rdropWhile p).getLast hne = rest.getLast hnil := by
          simp only [← hrest, List.getLast_append_of_ne_nil _ hnil]
        rw [hget]
        exact List.getLast_mem hnil
      exact List.mem_rtakeWhile_imp (hrtake.mem hmem)

/-- A text with a fixed element at either end has nothing to strip. -/
theorem strip_eq_self {a b : α} (ha : p a = false) (hb : p b = false) :
    strip p (a :: xs ++ [b]) = a :: xs ++ [b] := by
  have hfront : (a :: xs ++ [b]).dropWhile p = a :: xs ++ [b] := by simp [ha]
  rw [strip, hfront]
  exact rdropWhile_append_of_last (by simp) (by simpa using hb)

/-- The longest end of a text without a separator starts after the last one. -/
theorem rtakeWhile_append_cons {a : α} (ha : p a = false) (h : ∀ y ∈ ys, p y = true) :
    (xs ++ a :: ys).rtakeWhile p = ys := by
  induction ys using List.reverseRecOn with
  | nil => exact List.rtakeWhile_concat_neg _ _ _ (by simp [ha])
  | append_singleton ys y ih =>
    have hy : p y = true := h y (by simp)
    rw [← List.cons_append, ← List.append_assoc, List.rtakeWhile_concat_pos _ _ _ hy,
      ih fun z hz => h z (by simp [hz])]

end Strip

/-! ## Lines -/

section Lines

variable {sep : α} {u v s : List α}

/-- The last line of a text of several lines is determined by the text. -/
theorem lastLine_unique (hu : sep ∉ u) (hv : sep ∉ v) (h : sep :: u <:+ s)
    (h' : sep :: v <:+ s) : u = v := by
  have hstep : ∀ {a b : List α}, sep ∉ b → sep :: a <:+ sep :: b → a = b := by
    intro a b hb hab
    rcases List.suffix_cons_iff.1 hab with heq | hsuffix
    · exact (List.cons.inj heq).2
    · exact absurd (hsuffix.mem (by simp)) hb
  rcases List.suffix_or_suffix_of_suffix h h' with hs | hs
  · exact hstep hv hs
  · exact (hstep hu hs).symm

/-- A word that does not carry the separator stands on one side of it. -/
theorem infix_append_cons {w xs ys : List α} (hw : sep ∉ w) (h : w <:+: xs ++ sep :: ys) :
    w <:+: xs ∨ w <:+: ys := by
  rcases List.infix_append_iff.1 h with hleft | hright | ⟨front, back, rfl, hfront, hback⟩
  · exact .inl hleft
  · rcases List.infix_cons_iff.1 hright with hbegins | hright
    · cases w with
      | nil => exact .inr ⟨[], ys, rfl⟩
      | cons c rest =>
        rw [(List.cons_prefix_cons.1 hbegins).1] at hw
        exact absurd List.mem_cons_self hw
    · exact .inr hright
  · cases back with
    | nil =>
      rw [List.append_nil]
      exact .inl hfront.isInfix
    | cons c rest =>
      rw [(List.cons_prefix_cons.1 hback).1] at hw
      exact absurd (List.mem_append_right _ List.mem_cons_self) hw

end Lines

/-- The first match of a sorted list comes before every other match. -/
theorem find?_sorted {l : List α} {r : α → α → Prop} {q : α → Bool} {x y : α}
    (hsorted : l.Pairwise r) (hx : l.find? q = some x) (hy : y ∈ l) (hq : q y = true) :
    y = x ∨ r x y := by
  obtain ⟨-, front, back, rfl, hfront⟩ := List.find?_eq_some_iff_append.1 hx
  rcases List.mem_append.1 hy with hmem | hmem
  · have := hfront y hmem
    simp [hq] at this
  · rcases List.mem_cons.1 hmem with rfl | hmem
    · exact .inl rfl
    · exact .inr ((List.pairwise_cons.1 (List.pairwise_append.1 hsorted).2.1).1 y hmem)

/-! ## Parts between separators -/

/-- An element is a separator, or in one of the parts. -/
theorem mem_splitOn [DecidableEq α] (sep : α) {x : α} {xs : List α} (h : x ∈ xs) :
    x = sep ∨ ∃ part ∈ xs.splitOn sep, x ∈ part := by
  induction xs with
  | nil => cases h
  | cons y ys ih =>
    obtain ⟨first, rest, hparts⟩ := List.exists_cons_of_ne_nil (List.splitOn_ne_nil sep ys)
    rw [List.splitOn_cons_eq_if_modifyHead, hparts]
    rw [hparts] at ih
    by_cases hy : y = sep
    · rw [if_pos (by simpa using hy)]
      rcases List.mem_cons.1 h with rfl | hmem
      · exact .inl hy
      · refine (ih hmem).imp id ?_
        rintro ⟨part, hpart, hx⟩
        exact ⟨part, List.mem_cons_of_mem _ hpart, hx⟩
    · rw [if_neg (by simpa using hy), List.modifyHead_cons]
      rcases List.mem_cons.1 h with rfl | hmem
      · exact .inr ⟨_, List.mem_cons_self .., List.mem_cons_self ..⟩
      · refine (ih hmem).imp id ?_
        rintro ⟨part, hpart, hx⟩
        rcases List.mem_cons.1 hpart with rfl | hpart
        · exact ⟨_, List.mem_cons_self .., List.mem_cons_of_mem _ hx⟩
        · exact ⟨part, List.mem_cons_of_mem _ hpart, hx⟩

/-- A fact of the members of a list, checked one by one. -/
theorem forall_of_all {p : α → Prop} [DecidablePred p] {xs : List α}
    (h : (xs.all fun x => decide (p x)) = true) : ∀ x ∈ xs, p x :=
  fun x hx => of_decide_eq_true (List.all_eq_true.1 h x hx)

/-- A fact of the letters of the words of a list, checked one by one. -/
theorem forall_letters_of_all {p : α → Prop} [DecidablePred p] {words : List (List α)}
    (h : (words.all fun word => word.all fun x => decide (p x)) = true) :
    ∀ word ∈ words, ∀ x ∈ word, p x := by
  intro word hword
  exact forall_of_all (List.all_eq_true.1 h word hword)

end Texts
