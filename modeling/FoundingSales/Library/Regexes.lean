import Mathlib.Computability.Language

/-!
Regular expressions over any alphabet, matched by backtracking: every way to match is
listed, the preferred one first. A place in a text is what stands before it and what is
left, so that anchors and word boundaries can look both ways.

Proved here:
* `mem_ends_star_one`: a repeated class skips letters of the class.
* `test_seq_atStart`: an anchored expression matches at the start or not at all.
* `Opens.after_skipped`: the first letter an anchored expression finds.
* `Spells.seq`, `Spells.alt`, `Spells.star`: the language of an expression without anchors.
* `Spells.test_iff`: such an expression is found where a word of its language stands.
-/

namespace Regexes

universe u v

variable {α : Type u} {β : Type v}

inductive Regex (α : Type u) : Type u
  | empty
  | one (p : α → Bool)
  | seq (first second : Regex α)
  | alt (left right : Regex α)
  | star (body : Regex α)
  | atStart
  | atEnd
  | boundary (word : α → Bool)

structure Place (α : Type u) where
  before : Option α
  rest : List α

/-! ## Matching -/

/-- Greedy repetition; an iteration that consumes nothing is not taken. -/
def iterate (step : Place α → List (Place α)) : Nat → Place α → List (Place α)
  | 0, place => [place]
  | fuel + 1, place =>
    ((step place).filter fun next => next.rest.length < place.rest.length).flatMap
      (iterate step fuel) ++ [place]

/-- Where a match that starts at `place` may end, the preferred end first. -/
def ends : Regex α → Place α → List (Place α)
  | .empty, place => [place]
  | .one p, place =>
    match place.rest with
    | [] => []
    | c :: rest => if p c then [⟨some c, rest⟩] else []
  | .seq first second, place => (ends first place).flatMap (ends second)
  | .alt left right, place => ends left place ++ ends right place
  | .star body, place => iterate (ends body) place.rest.length place
  | .atStart, place => if place.before.isNone then [place] else []
  | .atEnd, place => if place.rest.isEmpty then [place] else []
  | .boundary word, place =>
    if place.before.any word = place.rest.head?.any word then [] else [place]

def matchesAt (r : Regex α) (place : Place α) : Bool := !(ends r place).isEmpty

/-- The places of a text, from the first. -/
def places : Option α → List α → List (Place α)
  | before, [] => [⟨before, []⟩]
  | before, c :: rest => ⟨before, c :: rest⟩ :: places (some c) rest

/-- Some match starts somewhere. -/
def test (r : Regex α) (text : List α) : Bool := (places none text).any (matchesAt r)

example : test (.seq (.one (· = 3)) (.alt (.seq (.one (· = 4)) .atEnd) (.star (.one (· = 5)))))
    [1, 3, 5] = true := by
  simp [test, places, matchesAt, ends, iterate]

/-! ## Compound expressions -/

def never : Regex α := .one fun _ => false

def optional (r : Regex α) : Regex α := .alt r .empty

def plus (r : Regex α) : Regex α := .seq r (.star r)

def inOrder (rs : List (Regex α)) : Regex α := rs.foldr .seq .empty

def oneOf (rs : List (Regex α)) : Regex α := rs.foldr .alt never

/-- The letters of `word` one after another, up to `same`. -/
def literal (same : α → α → Bool) (word : List α) : Regex α :=
  inOrder (word.map fun c => .one (same c))

/-! ## Repeated classes and anchors -/

theorem mem_iterate_one {p : α → Bool} {fuel : Nat} {place last : Place α}
    (h : last ∈ iterate (ends (.one p)) fuel place) :
    ∃ skipped, place.rest = skipped ++ last.rest ∧ ∀ c ∈ skipped, p c = true := by
  induction fuel generalizing place with
  | zero =>
    rw [iterate, List.mem_singleton] at h
    exact ⟨[], by rw [h]; rfl, by simp⟩
  | succ fuel ih =>
    rw [iterate, List.mem_append, List.mem_flatMap, List.mem_singleton] at h
    rcases h with ⟨next, hnext, hlast⟩ | rfl
    · have hone := (List.mem_filter.1 hnext).1
      obtain ⟨skipped, hrest, hall⟩ := ih hlast
      cases hplace : place.rest with
      | nil => simp [ends, hplace] at hone
      | cons c rest =>
        simp only [ends, hplace] at hone
        split at hone
        · rename_i hc
          rw [List.mem_singleton] at hone
          subst hone
          refine ⟨c :: skipped, by rw [List.cons_append, ← hrest], ?_⟩
          intro d hd
          rcases List.mem_cons.1 hd with rfl | hd
          · exact hc
          · exact hall d hd
        · cases hone
    · exact ⟨[], rfl, by simp⟩

theorem mem_ends_star_one {p : α → Bool} {place last : Place α}
    (h : last ∈ ends (.star (.one p)) place) :
    ∃ skipped, place.rest = skipped ++ last.rest ∧ ∀ c ∈ skipped, p c = true :=
  mem_iterate_one h

theorem matchesAt_iff {r : Regex α} {place : Place α} :
    matchesAt r place = true ↔ ∃ last, last ∈ ends r place := by
  unfold matchesAt
  cases ends r place with
  | nil => simp
  | cons last others => simp

theorem mem_ends_seq {first second : Regex α} {place last : Place α} :
    last ∈ ends (.seq first second) place
      ↔ ∃ middle ∈ ends first place, last ∈ ends second middle :=
  List.mem_flatMap

/-- Past the first place there is always a letter before. -/
theorem before_ne_none {a : α} {text : List α} {place : Place α}
    (h : place ∈ places (some a) text) : place.before ≠ none := by
  induction text generalizing a with
  | nil =>
    rw [places, List.mem_singleton] at h
    rw [h]
    exact Option.some_ne_none a
  | cons b text ih =>
    rcases List.mem_cons.1 h with rfl | h
    · exact Option.some_ne_none a
    · exact ih h

theorem place_eq_start {text : List α} {place : Place α} (h : place ∈ places none text)
    (hnone : place.before = none) : place = ⟨none, text⟩ := by
  cases text with
  | nil => exact List.mem_singleton.1 h
  | cons a text =>
    rcases List.mem_cons.1 h with rfl | h
    · rfl
    · exact absurd hnone (before_ne_none h)

/-- An anchored expression matches at the start or not at all. -/
theorem test_seq_atStart {r : Regex α} {text : List α} :
    test (.seq .atStart r) text = matchesAt r ⟨none, text⟩ := by
  rw [Bool.eq_iff_iff]
  unfold test
  rw [List.any_eq_true]
  constructor
  · rintro ⟨place, hplace, hmatch⟩
    obtain ⟨last, hlast⟩ := matchesAt_iff.1 hmatch
    obtain ⟨middle, hmiddle, hlast⟩ := mem_ends_seq.1 hlast
    unfold ends at hmiddle
    split at hmiddle
    · rename_i hnone
      rw [List.mem_singleton] at hmiddle
      have hstart := place_eq_start hplace (Option.isNone_iff_eq_none.1 hnone)
      rw [← hstart, ← hmiddle]
      exact matchesAt_iff.2 ⟨last, hlast⟩
    · cases hmiddle
  · intro hmatch
    obtain ⟨last, hlast⟩ := matchesAt_iff.1 hmatch
    refine ⟨⟨none, text⟩, ?_, matchesAt_iff.2 ⟨last, mem_ends_seq.2 ⟨⟨none, text⟩, ?_, hlast⟩⟩⟩
    · cases text with
      | nil => exact List.mem_singleton_self _
      | cons a text => exact List.mem_cons_self
    · simp [ends]

theorem test_alt (r s : Regex α) (text : List α) :
    test (.alt r s) text = (test r text || test s text) := by
  rw [Bool.eq_iff_iff, Bool.or_eq_true]
  simp only [test, List.any_eq_true, matchesAt_iff, ends, List.mem_append, exists_or, and_or_left]

/-! ## First letters -/

/-- Every match of `r` consumes a first letter with `p`. -/
def Opens (p : α → Prop) (r : Regex α) : Prop :=
  ∀ place, ∀ last ∈ ends r place, ∃ c rest, place.rest = c :: rest ∧ p c

theorem Opens.one {p : α → Prop} {q : α → Bool} (h : ∀ c, q c = true → p c) :
    Opens p (.one q) := by
  intro place last hlast
  unfold ends at hlast
  cases hrest : place.rest with
  | nil => simp [hrest] at hlast
  | cons c rest =>
    simp only [hrest] at hlast
    split at hlast
    · exact ⟨c, rest, rfl, h c ‹_›⟩
    · cases hlast

theorem Opens.seq {p : α → Prop} {r s : Regex α} (h : Opens p r) : Opens p (.seq r s) := by
  intro place last hlast
  obtain ⟨middle, hmiddle, -⟩ := mem_ends_seq.1 hlast
  exact h place middle hmiddle

theorem Opens.alt {p : α → Prop} {r s : Regex α} (hr : Opens p r) (hs : Opens p s) :
    Opens p (.alt r s) := by
  intro place last hlast
  rcases List.mem_append.1 hlast with hlast | hlast
  · exact hr place last hlast
  · exact hs place last hlast

theorem Opens.oneOf {p : α → Prop} {rs : List (Regex α)} (h : ∀ r ∈ rs, Opens p r) :
    Opens p (oneOf rs) := by
  induction rs with
  | nil => exact Opens.one fun c hc => nomatch hc
  | cons r rs ih =>
    exact (h r List.mem_cons_self).alt (ih fun s hs => h s (List.mem_cons_of_mem _ hs))

theorem Opens.literal {p : α → Prop} {same : α → α → Bool} {c : α} {word : List α}
    (h : ∀ d, same c d = true → p d) : Opens p (literal same (c :: word)) :=
  (Opens.one h).seq

/-- After letters that may be skipped an anchored expression finds its first letter. -/
theorem Opens.after_skipped {p : α → Prop} {blank : α → Bool} {r : Regex α} {text : List α}
    (hr : Opens p r) (h : test (.seq .atStart (.seq (.star (.one blank)) r)) text = true) :
    ∃ skipped c rest, text = skipped ++ c :: rest ∧ (∀ x ∈ skipped, blank x = true) ∧ p c := by
  rw [test_seq_atStart] at h
  obtain ⟨last, hlast⟩ := matchesAt_iff.1 h
  obtain ⟨middle, hmiddle, hlast⟩ := mem_ends_seq.1 hlast
  obtain ⟨skipped, htext, hskipped⟩ := mem_ends_star_one hmiddle
  obtain ⟨c, rest, hrest, hc⟩ := hr middle last hlast
  exact ⟨skipped, c, rest, by rw [← hrest, ← htext], hskipped, hc⟩

/-- What stands first after letters that are skipped is the first letter that is not. -/
theorem head_of_skipped {p q : α → Bool} {skipped others rest rest' : List α} {c d : α}
    (h : skipped ++ c :: rest = others ++ d :: rest') (hskipped : ∀ x ∈ skipped, p x = true)
    (hothers : ∀ x ∈ others, q x = true) (hc : q c = false) (hd : p d = false) : c = d := by
  induction skipped generalizing others with
  | nil =>
    cases others with
    | nil => exact (List.cons.inj h).1
    | cons a others =>
      obtain rfl := (List.cons.inj h).1
      rw [hothers c List.mem_cons_self] at hc
      cases hc
  | cons a skipped ih =>
    cases others with
    | nil =>
      obtain rfl := (List.cons.inj h).1
      rw [hskipped a List.mem_cons_self] at hd
      cases hd
    | cons b others =>
      exact ih (List.cons.inj h).2 (fun x hx => hskipped x (List.mem_cons_of_mem _ hx))
        (fun x hx => hothers x (List.mem_cons_of_mem _ hx))

/-! ## Languages -/

/-- The matches of `r` are the words of `l`, whatever stands before them. -/
def Spells (l : Language α) (r : Regex α) : Prop :=
  ∀ place rest, (∃ last ∈ ends r place, last.rest = rest) ↔ ∃ w ∈ l, place.rest = w ++ rest

/-- The one-letter words of a class. -/
def letters (p : α → Bool) : Language α := {w | ∃ c, w = [c] ∧ p c = true}

/-- The words over a class. -/
def wordsOver (p : α → Bool) : Language α := {w | ∀ c ∈ w, p c = true}

theorem Spells.empty : Spells (1 : Language α) .empty := by
  intro place rest
  simp [ends, Language.mem_one]

theorem Spells.one (p : α → Bool) : Spells (letters p) (.one p) := by
  intro place rest
  unfold ends
  cases place.rest with
  | nil =>
    constructor
    · rintro ⟨last, hlast, -⟩
      cases hlast
    · rintro ⟨w, ⟨c, rfl, -⟩, h⟩
      cases h
  | cons c text =>
    constructor
    · rintro ⟨last, hlast, rfl⟩
      simp only at hlast
      split at hlast
      · rw [List.mem_singleton] at hlast
        subst hlast
        exact ⟨[c], ⟨c, rfl, ‹_›⟩, rfl⟩
      · cases hlast
    · rintro ⟨w, ⟨d, rfl, hd⟩, h⟩
      obtain ⟨rfl, rfl⟩ := List.cons.inj h
      exact ⟨⟨some c, text⟩, by simp [hd], rfl⟩

theorem Spells.seq {l m : Language α} {r s : Regex α} (hr : Spells l r) (hs : Spells m s) :
    Spells (l * m) (.seq r s) := by
  intro place rest
  constructor
  · rintro ⟨last, hlast, rfl⟩
    obtain ⟨middle, hmiddle, hlast⟩ := mem_ends_seq.1 hlast
    obtain ⟨w, hw, hplace⟩ := (hr place middle.rest).1 ⟨middle, hmiddle, rfl⟩
    obtain ⟨v, hv, hrest⟩ := (hs middle last.rest).1 ⟨last, hlast, rfl⟩
    exact ⟨w ++ v, Language.append_mem_mul hw hv, by rw [hplace, hrest, List.append_assoc]⟩
  · rintro ⟨_, hmem, h⟩
    obtain ⟨w, hw, v, hv, rfl⟩ := Language.mem_mul.1 hmem
    rw [List.append_assoc] at h
    obtain ⟨middle, hmiddle, hrest⟩ := (hr place (v ++ rest)).2 ⟨w, hw, h⟩
    obtain ⟨last, hlast, hend⟩ := (hs middle rest).2 ⟨v, hv, hrest⟩
    exact ⟨last, mem_ends_seq.2 ⟨middle, hmiddle, hlast⟩, hend⟩

theorem Spells.alt {l m : Language α} {r s : Regex α} (hr : Spells l r) (hs : Spells m s) :
    Spells (l + m) (.alt r s) := by
  intro place rest
  have hends : ends (.alt r s) place = ends r place ++ ends s place := rfl
  simp only [hends, List.mem_append, or_and_right, exists_or, hr place rest, hs place rest,
    Language.mem_add]

theorem Spells.optional {l : Language α} {r : Regex α} (h : Spells l r) :
    Spells (l + 1) (optional r) :=
  h.alt Spells.empty

/-- Repetition takes any number of words: an iteration it leaves out is the empty word. -/
theorem Spells.star {l : Language α} {r : Regex α} (h : Spells l r) :
    Spells (KStar.kstar l) (.star r) := by
  have hiterate : ∀ fuel place rest, place.rest.length ≤ fuel →
      ((∃ last ∈ iterate (ends r) fuel place, last.rest = rest)
        ↔ ∃ w ∈ KStar.kstar l, place.rest = w ++ rest) := by
    intro fuel
    induction fuel with
    | zero =>
      intro place rest hfuel
      have hnil : place.rest = [] := List.length_eq_zero_iff.1 (Nat.le_zero.1 hfuel)
      constructor
      · rintro ⟨last, hlast, rfl⟩
        rw [iterate, List.mem_singleton] at hlast
        exact ⟨[], Language.nil_mem_kstar l, by rw [hlast]; rfl⟩
      · rintro ⟨w, -, hw⟩
        refine ⟨place, List.mem_singleton_self _, ?_⟩
        rw [hnil] at hw ⊢
        exact (List.append_eq_nil_iff.1 hw.symm).2.symm
    | succ fuel ih =>
      intro place rest hfuel
      constructor
      · rintro ⟨last, hlast, rfl⟩
        rw [iterate, List.mem_append, List.mem_flatMap, List.mem_singleton] at hlast
        rcases hlast with ⟨next, hnext, hlast⟩ | rfl
        · obtain ⟨hnext, hshorter⟩ := List.mem_filter.1 hnext
          have hle : next.rest.length ≤ fuel := by
            have := of_decide_eq_true hshorter
            omega
          obtain ⟨w, hw, hplace⟩ := (h place next.rest).1 ⟨next, hnext, rfl⟩
          obtain ⟨v, hv, hrest⟩ := (ih next last.rest hle).1 ⟨last, hlast, rfl⟩
          obtain ⟨words, rfl, hwords⟩ := Language.mem_kstar.1 hv
          refine ⟨w ++ words.flatten, Language.mem_kstar.2 ⟨w :: words, rfl, ?_⟩, ?_⟩
          · intro y hy
            rcases List.mem_cons.1 hy with rfl | hy
            · exact hw
            · exact hwords y hy
          · rw [hplace, hrest, List.append_assoc]
        · exact ⟨[], Language.nil_mem_kstar l, rfl⟩
      · rintro ⟨w, hw, hplace⟩
        rw [Language.kstar_def_nonempty] at hw
        obtain ⟨words, rfl, hwords⟩ := hw
        cases words with
        | nil => exact ⟨place, by simp [iterate], hplace⟩
        | cons w words =>
          have hw := hwords w List.mem_cons_self
          have hpos : 0 < w.length := List.length_pos_iff.2 hw.2
          rw [List.flatten_cons, List.append_assoc] at hplace
          obtain ⟨next, hnext, hrest⟩ := (h place (words.flatten ++ rest)).2 ⟨w, hw.1, hplace⟩
          have hlength := congrArg List.length hplace
          rw [List.length_append, ← hrest] at hlength
          obtain ⟨last, hlast, hend⟩ := (ih next rest (by omega)).2
            ⟨words.flatten, Language.join_mem_kstar fun y hy =>
              (hwords y (List.mem_cons_of_mem _ hy)).1, hrest⟩
          refine ⟨last, ?_, hend⟩
          rw [iterate, List.mem_append, List.mem_flatMap]
          refine .inl ⟨next, List.mem_filter.2 ⟨hnext, decide_eq_true ?_⟩, hlast⟩
          omega
  intro place rest
  exact hiterate place.rest.length place rest (Nat.le_refl _)

/-- A repeated class spells the words over the class. -/
theorem kstar_letters (p : α → Bool) : KStar.kstar (letters p) = wordsOver p := by
  apply Language.ext
  intro w
  constructor
  · intro hw c hc
    obtain ⟨words, rfl, hwords⟩ := Language.mem_kstar.1 hw
    obtain ⟨word, hword, hc⟩ := List.mem_flatten.1 hc
    obtain ⟨d, rfl, hd⟩ := hwords word hword
    rwa [List.mem_singleton.1 hc]
  · intro hw
    refine Language.mem_kstar.2 ⟨w.map fun c => [c], ?_, ?_⟩
    · induction w with
      | nil => rfl
      | cons c w ih =>
        rw [List.map_cons, List.flatten_cons, ← ih fun d hd => hw d (List.mem_cons_of_mem _ hd)]
        rfl
    · intro word hword
      obtain ⟨c, hc, rfl⟩ := List.mem_map.1 hword
      exact ⟨c, rfl, hw c hc⟩

theorem Spells.star_one (p : α → Bool) : Spells (wordsOver p) (.star (.one p)) :=
  kstar_letters p ▸ (Spells.one p).star

theorem Spells.congr {l m : Language α} {r : Regex α} (h : Spells l r)
    (hlm : ∀ w, w ∈ l ↔ w ∈ m) : Spells m r :=
  Language.ext hlm ▸ h

/-! ## Finite languages -/

/-- The words of a list. -/
def among (words : List (List α)) : Language α := {w | w ∈ words}

theorem Spells.among_never : Spells (among ([] : List (List α))) never := by
  refine (Spells.one _).congr fun w => ?_
  constructor
  · rintro ⟨c, -, hc⟩
    cases hc
  · intro hw
    cases hw

theorem Spells.among_empty : Spells (among [([] : List α)]) .empty :=
  Spells.empty.congr fun u => (Language.mem_one u).trans List.mem_singleton.symm

theorem Spells.among_class [DecidableEq α] (cs : List α) :
    Spells (among (cs.map fun c => [c])) (.one fun c => c ∈ cs) := by
  refine (Spells.one _).congr fun w => ?_
  constructor
  · rintro ⟨c, rfl, hc⟩
    exact List.mem_map.2 ⟨c, of_decide_eq_true hc, rfl⟩
  · intro hw
    obtain ⟨c, hc, rfl⟩ := List.mem_map.1 hw
    exact ⟨c, rfl, decide_eq_true hc⟩

theorem Spells.among_seq {vs ws : List (List α)} {r s : Regex α} (hr : Spells (among vs) r)
    (hs : Spells (among ws) s) :
    Spells (among (vs.flatMap fun v => ws.map (v ++ ·))) (.seq r s) := by
  refine (hr.seq hs).congr fun u => ?_
  constructor
  · intro hu
    obtain ⟨v, hv, w, hw, rfl⟩ := Language.mem_mul.1 hu
    exact List.mem_flatMap.2 ⟨v, hv, List.mem_map_of_mem hw⟩
  · intro hu
    obtain ⟨v, hv, hu⟩ := List.mem_flatMap.1 hu
    obtain ⟨w, hw, rfl⟩ := List.mem_map.1 hu
    exact Language.append_mem_mul hv hw

theorem Spells.among_alt {vs ws : List (List α)} {r s : Regex α} (hr : Spells (among vs) r)
    (hs : Spells (among ws) s) : Spells (among (vs ++ ws)) (.alt r s) :=
  (hr.alt hs).congr fun u => (Language.mem_add _ _ u).trans List.mem_append.symm

theorem Spells.among_optional {vs : List (List α)} {r : Regex α} (h : Spells (among vs) r) :
    Spells (among (vs ++ [[]])) (Regexes.optional r) :=
  h.among_alt Spells.among_empty

theorem Spells.among_literal [DecidableEq α] (word : List α) :
    Spells (among [word]) (literal (fun c d => c = d) word) := by
  induction word with
  | nil => exact Spells.among_empty
  | cons c word ih =>
    have hone : Spells (among [[c]]) (.one fun d => c = d) := by
      refine (Spells.one _).congr fun w => ?_
      constructor
      · rintro ⟨d, rfl, hd⟩
        rw [of_decide_eq_true hd]
        exact List.mem_singleton_self _
      · intro hw
        exact ⟨c, List.mem_singleton.1 hw, decide_eq_true rfl⟩
    exact hone.among_seq ih

/-- Found where a word of the language stands. -/
theorem Spells.test_iff {l : Language α} {r : Regex α} (h : Spells l r) (text : List α) :
    test r text = true ↔ ∃ before, ∃ w ∈ l, ∃ after, text = before ++ (w ++ after) := by
  have hany : ∀ first, (places first text).any (matchesAt r) = true
      ↔ ∃ before, ∃ w ∈ l, ∃ after, text = before ++ (w ++ after) := by
    induction text with
    | nil =>
      intro first
      have hmatch : (places first []).any (matchesAt r) = matchesAt r ⟨first, []⟩ := by
        simp [places]
      rw [hmatch, matchesAt_iff]
      constructor
      · rintro ⟨last, hlast⟩
        obtain ⟨w, hw, hplace⟩ := (h _ last.rest).1 ⟨last, hlast, rfl⟩
        exact ⟨[], w, hw, last.rest, hplace⟩
      · rintro ⟨before, w, hw, after, heq⟩
        obtain ⟨-, heq⟩ := List.append_eq_nil_iff.1 heq.symm
        obtain ⟨last, hlast, -⟩ := (h ⟨first, []⟩ after).2 ⟨w, hw, heq.symm⟩
        exact ⟨last, hlast⟩
    | cons c text ih =>
      intro first
      rw [places, List.any_cons, Bool.or_eq_true, ih, matchesAt_iff]
      constructor
      · rintro (⟨last, hlast⟩ | ⟨before, w, hw, after, rfl⟩)
        · obtain ⟨w, hw, hplace⟩ := (h _ last.rest).1 ⟨last, hlast, rfl⟩
          exact ⟨[], w, hw, last.rest, hplace⟩
        · exact ⟨c :: before, w, hw, after, rfl⟩
      · rintro ⟨before, w, hw, after, heq⟩
        cases before with
        | nil =>
          obtain ⟨last, hlast, -⟩ := (h ⟨first, c :: text⟩ after).2 ⟨w, hw, heq⟩
          exact .inl ⟨last, hlast⟩
        | cons d before => exact .inr ⟨before, w, hw, after, (List.cons.inj heq).2⟩
  exact hany none

end Regexes
