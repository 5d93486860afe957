import Mathlib

/-!
Counting by working days: days are numbered, and some of them are worked.

Proved here:

* `count_add`, `count_lt`: the working days after one day and up to another;
* `IsNth.unique`, `IsNth.mono`, `IsNth.lt`: the nth working day from a day on;
* `isNth_of_advance`, `advance_of_dense`: going from working day to working day by a bounded
  search finds it.
-/

namespace Workdays

variable (w : Int → Bool)

/-- The first working day from `day` on, of the next `steps` days. -/
def nextWithin : Nat → Int → Option Int
  | 0, _ => none
  | steps + 1, day => if w day then some day else nextWithin steps (day + 1)

/-- `n` working days after the first from `day` on. -/
def advance (steps : Nat) : Nat → Int → Option Int
  | 0, day => nextWithin w steps day
  | n + 1, day => (advance steps n day).bind fun found => nextWithin w steps (found + 1)

/-- The working days after `first` and up to `last`. -/
noncomputable def count (first last : Int) : Nat := ((Finset.Ioc first last).filter fun day => w day).card

/-- The working day that `n` others precede, from `day` on. -/
structure IsNth (day : Int) (n : Nat) (found : Int) : Prop where
  worked : w found = true
  counted : count w (day - 1) found = n + 1

variable {w}

/-! ## Counting -/

section Count

variable {a b c day found : Int}

theorem count_of_le (h : b ≤ a) : count w a b = 0 := by
  unfold count
  rw [Finset.Ioc_eq_empty (Int.not_lt.2 h)]
  rfl

theorem count_add (hab : a ≤ b) (hbc : b ≤ c) :
    count w a c = count w a b + count w b c := by
  unfold count
  rw [← Finset.card_union_of_disjoint, ← Finset.filter_union, Finset.Ioc_union_Ioc_eq_Ioc hab hbc]
  apply Finset.disjoint_filter_filter
  rw [Finset.disjoint_left]
  intro day hday hday'
  rw [Finset.mem_Ioc] at hday hday'
  omega

theorem count_succ (h : a ≤ b) :
    count w a (b + 1) = count w a b + if w (b + 1) then 1 else 0 := by
  rw [count_add h (Int.le_add_one (Int.le_refl b)), Nat.add_left_cancel_iff]
  unfold count
  have hone : Finset.Ioc b (b + 1) = {b + 1} := by
    ext day
    rw [Finset.mem_Ioc, Finset.mem_singleton]
    omega
  rw [hone, Finset.filter_singleton]
  split <;> rfl

theorem count_mono (h : b ≤ c) : count w a b ≤ count w a c := by
  apply Finset.card_le_card
  apply Finset.filter_subset_filter
  exact Finset.Ioc_subset_Ioc_right h

theorem count_anti (h : a ≤ b) : count w b c ≤ count w a c := by
  apply Finset.card_le_card
  apply Finset.filter_subset_filter
  exact Finset.Ioc_subset_Ioc_left h

/-- A working day counts. -/
theorem count_lt (hab : a ≤ b) (hbc : b < c) (hc : w c = true) :
    count w a b < count w a c := by
  have hlast := count_succ (w := w) (show a ≤ c - 1 by omega)
  rw [Int.sub_add_cancel, if_pos hc] at hlast
  have hmono := count_mono (w := w) (a := a) (show b ≤ c - 1 by omega)
  omega

theorem count_eq_zero_iff : count w a b = 0 ↔ ∀ day, a < day → day ≤ b → w day = false := by
  unfold count
  rw [Finset.card_eq_zero, Finset.filter_eq_empty_iff]
  simp only [Finset.mem_Ioc, and_imp, Bool.not_eq_true]

end Count

/-! ## The nth working day -/

namespace IsNth

variable {day day' found found' : Int} {n m : Nat}

theorem le (h : IsNth w day n found) : day ≤ found := by
  by_contra hnot
  have hcount := h.counted
  rw [count_of_le (by omega)] at hcount
  omega

/-- A later day has its nth working day no earlier. -/
theorem mono (hle : day ≤ day') (h : IsNth w day n found)
    (h' : IsNth w day' n found') : found ≤ found' := by
  by_contra hnot
  have hlt := count_lt (show day - 1 ≤ found' by have := h'.le; omega) (Int.not_le.1 hnot) h.worked
  have hanti := count_anti (w := w) (c := found')
    (show day - 1 ≤ day' - 1 by omega)
  rw [h.counted] at hlt
  rw [h'.counted] at hanti
  omega

theorem unique (h : IsNth w day n found) (h' : IsNth w day n found') :
    found = found' :=
  Int.le_antisymm (mono (Int.le_refl day) h h') (mono (Int.le_refl day) h' h)

/-- More working days are later. -/
theorem lt (hlt : n < m) (h : IsNth w day n found) (h' : IsNth w day m found') :
    found < found' := by
  by_contra hnot
  have hmono := count_mono (w := w) (a := day - 1) (Int.not_lt.1 hnot)
  rw [h.counted, h'.counted] at hmono
  omega

/-- The working days after the first. -/
theorem count_first (hfirst : IsNth w day 0 found) (h : IsNth w day n found') :
    count w found found' = n := by
  have hle : found ≤ found' := by
    rcases Nat.eq_zero_or_pos n with rfl | hpos
    · exact Int.le_of_eq (hfirst.unique h)
    · exact Int.le_of_lt (hfirst.lt hpos h)
  have hadd := count_add (w := w) (show day - 1 ≤ found by have := hfirst.le; omega) hle
  rw [h.counted, hfirst.counted] at hadd
  omega

/-- A working day is the first from itself on. -/
theorem self (h : w day = true) : IsNth w day 0 day where
  worked := h
  counted := by
    have hone := count_succ (w := w) (Int.le_refl (day - 1))
    rw [Int.sub_add_cancel, if_pos h, count_of_le (Int.le_refl _)] at hone
    omega

/-- No working day precedes the first. -/
theorem none_before (h : IsNth w day 0 found) {other : Int} (hle : day ≤ other)
    (hlt : other < found) : w other = false := by
  rw [← Bool.not_eq_true]
  intro hother
  have hlast := count_lt (w := w) (show day - 1 ≤ other by omega) hlt h.worked
  have hpos := count_lt (w := w) (Int.le_refl (day - 1)) (show day - 1 < other by omega) hother
  rw [h.counted] at hlast
  omega

/-- The first of later days follows the nth. -/
theorem succ (h : IsNth w day n found) (h' : IsNth w (found + 1) 0 found') :
    IsNth w day (n + 1) found' where
  worked := h'.worked
  counted := by
    have hcount := h'.counted
    rw [Int.add_sub_cancel] at hcount
    rw [count_add (show day - 1 ≤ found by have := h.le; omega)
      (show found ≤ found' by have := h'.le; omega), h.counted, hcount]

/-- Where more than `n` working days are counted, the nth is one of them. -/
theorem of_count {last : Int} (h : n < count w (day - 1) last) :
    ∃ found, IsNth w day n found ∧ found ≤ last := by
  have hle : day - 1 ≤ last := by
    by_contra hnot
    rw [count_of_le (by omega)] at h
    omega
  induction last, hle using Int.leInduction with
  | base =>
    rw [count_of_le (Int.le_refl _)] at h
    omega
  | succ last hle ih =>
    by_cases hn : n < count w (day - 1) last
    · obtain ⟨found, hfound, hlast⟩ := ih hn
      exact ⟨found, hfound, by omega⟩
    · have hcount := count_succ (w := w) hle
      by_cases hworked : w (last + 1) = true
      · rw [if_pos hworked] at hcount
        exact ⟨last + 1, ⟨hworked, by omega⟩, Int.le_refl _⟩
      · rw [if_neg hworked] at hcount
        omega

/-- The working days up to the nth one lie before it. -/
theorem exists_le (h : IsNth w day n found) (hle : m ≤ n) :
    ∃ earlier, IsNth w day m earlier ∧ earlier ≤ found := by
  apply of_count
  rw [h.counted]
  omega

end IsNth

/-! ## Searching -/

section Search

variable {steps n : Nat} {day found : Int}

/-- The search finds the first working day of those it looks at. -/
theorem nextWithin_eq_some_iff :
    nextWithin w steps day = some found ↔
      IsNth w day 0 found ∧ found < day + steps := by
  induction steps generalizing day with
  | zero =>
    constructor
    · intro h
      cases h
    · rintro ⟨h, hlt⟩
      have hle := h.le
      simp only [Int.natCast_zero, Int.add_zero] at hlt
      omega
  | succ steps ih =>
    unfold nextWithin
    split
    · next hday =>
      rw [Option.some.injEq]
      constructor
      · rintro rfl
        exact ⟨.self hday, by omega⟩
      · rintro ⟨h, -⟩
        exact (IsNth.self hday).unique h
    · next hday =>
      rw [ih]
      have hcount : ∀ last, day ≤ last →
          count w (day - 1) last = count w (day + 1 - 1) last := by
        intro last hle
        have hfirst := count_succ (w := w) (Int.le_refl (day - 1))
        rw [Int.sub_add_cancel, if_neg hday, count_of_le (Int.le_refl _)] at hfirst
        rw [count_add (show day - 1 ≤ day by omega) hle, hfirst, Int.add_sub_cancel, Nat.add_zero,
          Nat.zero_add]
      constructor
      · rintro ⟨h, hlt⟩
        refine ⟨⟨h.worked, ?_⟩, by omega⟩
        rw [hcount found (by have := h.le; omega)]
        exact h.counted
      · rintro ⟨h, hlt⟩
        refine ⟨⟨h.worked, ?_⟩, by omega⟩
        rw [← hcount found h.le]
        exact h.counted

theorem nextWithin_eq_none_iff :
    nextWithin w steps day = none ↔
      ∀ other, day ≤ other → other < day + steps → w other = false := by
  induction steps generalizing day with
  | zero => exact ⟨fun _ other hle hlt => by omega, fun _ => rfl⟩
  | succ steps ih =>
    unfold nextWithin
    split
    · next hday =>
      constructor
      · intro h
        cases h
      · intro h
        rw [h day (Int.le_refl _) (by omega)] at hday
        cases hday
    · next hday =>
      rw [ih]
      constructor
      · intro h other hle hlt
        rcases Int.lt_or_eq_of_le hle with hgt | rfl
        · exact h other (by omega) (by omega)
        · exact Bool.not_eq_true _ ▸ hday
      · exact fun h other hle hlt => h other (by omega) (by omega)

/-- Once nothing is found, nothing is. -/
theorem advance_eq_none {m : Nat} (h : advance w steps n day = none) :
    advance w steps (n + m) day = none := by
  induction m with
  | zero => exact h
  | succ m ih =>
    show (advance w steps (n + m) day).bind _ = none
    rw [ih]
    rfl

/-- The bounded search gets from `day` to `last`: no `steps` days in a row are off. -/
def Dense (w : Int → Bool) (steps : Nat) (day last : Int) : Prop :=
  ∀ start, day ≤ start → start + steps ≤ last →
    ∃ other, start ≤ other ∧ other < start + steps ∧ w other = true

/-- What is found is the nth working day. -/
theorem isNth_of_advance (h : advance w steps n day = some found) :
    IsNth w day n found := by
  induction n generalizing found with
  | zero => exact (nextWithin_eq_some_iff.1 h).1
  | succ n ih =>
    obtain ⟨prior, hprior, hnext⟩ := Option.bind_eq_some_iff.1 h
    exact (ih hprior).succ (nextWithin_eq_some_iff.1 hnext).1

/-- A working day that is there is found. -/
theorem nextWithin_of_dense {last : Int} (hdense : Dense w steps day last)
    (h : IsNth w day 0 found) (hlast : found ≤ last) :
    nextWithin w steps day = some found := by
  rw [nextWithin_eq_some_iff]
  refine ⟨h, Int.not_le.1 fun hle => ?_⟩
  obtain ⟨other, hfrom, hto, hother⟩ := hdense day (Int.le_refl _) (hle.trans hlast)
  have hzero : count w (day - 1) other < count w (day - 1) found :=
    count_lt (by omega) (by omega) h.worked
  rw [h.counted] at hzero
  have hnone := count_eq_zero_iff.1 (Nat.lt_one_iff.1 hzero) other (by omega) (Int.le_refl _)
  rw [hnone] at hother
  cases hother

theorem Dense.from {later last : Int} (h : Dense w steps day last) (hle : day ≤ later) :
    Dense w steps later last := fun start hfrom hto => h start (hle.trans hfrom) hto

/-- Over dense days the nth working day is found. -/
theorem advance_of_dense {last : Int} (hdense : Dense w steps day last)
    (h : IsNth w day n found) (hlast : found ≤ last) :
    advance w steps n day = some found := by
  induction n generalizing found with
  | zero => exact nextWithin_of_dense hdense h hlast
  | succ n ih =>
    obtain ⟨prior, hprior, hle⟩ := h.exists_le (Nat.le_succ n)
    have hlt := hprior.lt (Nat.lt_succ_self n) h
    have hafter : IsNth w (prior + 1) 0 found := by
      refine ⟨h.worked, ?_⟩
      have hadd := count_add (w := w)
        (show day - 1 ≤ prior by have := hprior.le; omega) hle
      rw [h.counted, hprior.counted] at hadd
      rw [Int.add_sub_cancel]
      omega
    unfold advance
    rw [ih hprior (hle.trans hlast), Option.bind_some]
    exact nextWithin_of_dense (hdense.from (by have := hprior.le; omega)) hafter hlast

end Search

end Workdays
