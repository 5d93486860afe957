import Mathlib.Order.Bounds.Basic
import Mathlib.Data.Int.Order.Basic
import Mathlib.Algebra.Order.Group.Int
import Mathlib.Data.Int.LeastGreatest

/-!
A clock that runs, and is now and then set forward or back.

Proved here:
* `offset_const`: between two changes the clock only runs;
* `stays_past`: a reading it has skipped is not shown later, unless it is set back by more than
  it runs between two changes;
* `first_lt_first`: so the readings are first shown in their order.
-/

namespace Clocks

/-- The clock is set at an instant. -/
def Changes {α : Type*} (offset : ℤ → α) (t : ℤ) : Prop := offset (t - 1) ≠ offset t

/-- What the clock shows. -/
def shown (offset : ℤ → ℤ) (t : ℤ) : ℤ := t + offset t

theorem offset_const {α : Type*} {offset : ℤ → α} {s t : ℤ} (hle : s ≤ t)
    (hnone : ∀ u, s < u → u ≤ t → ¬ Changes offset u) : offset t = offset s := by
  induction t, hle using Int.leInduction with
  | base => rfl
  | succ t hst ih =>
    have hstep : offset (t + 1 - 1) = offset (t + 1) :=
      not_not.1 (hnone (t + 1) (by omega) le_rfl)
    rw [Int.add_sub_cancel] at hstep
    rw [← hstep]
    exact ih fun u hu hut => hnone u hu (by omega)

/-- The clock is set at least `gap` apart, and back by no more. -/
structure Steady (offset : ℤ → ℤ) (gap : ℤ) : Prop where
  pos : 0 < gap
  apart : ∀ s t, s < t → Changes offset s → Changes offset t → s + gap ≤ t
  back : ∀ t, offset (t - 1) - offset t ≤ gap
  bounded : ∃ bound, ∀ t, offset t ≤ bound

section Steady

variable {offset : ℤ → ℤ} {gap w w' s t t' : ℤ}

/-- The clock jumps over a reading that it has never shown. -/
theorem exists_skip (h : Steady offset gap) (hpast : w < shown offset s)
    (hnever : ∀ u ≤ s, shown offset u ≠ w) :
    ∃ c ≤ s, Changes offset c ∧ ∀ u, c ≤ u → u ≤ s → w < shown offset u := by
  obtain ⟨bound, hbound⟩ := h.bounded
  have hbefore : ∃ u, u ≤ s ∧ shown offset u < w := by
    refine ⟨min s (w - bound - 1), min_le_left _ _, ?_⟩
    have hle := hbound (min s (w - bound - 1))
    have hmin := min_le_right s (w - bound - 1)
    unfold shown
    omega
  obtain ⟨last, ⟨hlast, hbelow⟩, hgreatest⟩ := Int.exists_greatest_of_bdd
    (P := fun u => u ≤ s ∧ shown offset u < w) ⟨s, fun u hu => hu.1⟩ hbefore
  have habove : ∀ u, last < u → u ≤ s → w < shown offset u := by
    intro u hu hus
    have hnot : ¬ shown offset u < w := fun hlt => by
      have hle := hgreatest u ⟨hus, hlt⟩
      omega
    have hne := hnever u hus
    omega
  have hlt : last < s := by
    rcases hlast.lt_or_eq with hlt | rfl
    · exact hlt
    · omega
  refine ⟨last + 1, by omega, ?_, fun u hu hus => habove u (by omega) hus⟩
  intro hsame
  have hnext := habove (last + 1) (by omega) (by omega)
  rw [Int.add_sub_cancel] at hsame
  unfold shown at hbelow hnext
  omega

/-- A reading skipped once is past for good. -/
theorem stays_past (h : Steady offset gap) (hpast : w < shown offset s)
    (hnever : ∀ u ≤ s, shown offset u ≠ w) (hst : s ≤ t) : w < shown offset t := by
  obtain ⟨c, hcs, hc, hfrom⟩ := exists_skip h hpast hnever
  have hgap := h.pos
  by_contra hnot
  obtain ⟨first, ⟨hsf, hle⟩, hleast⟩ := Int.exists_least_of_bdd
    (P := fun u => s ≤ u ∧ shown offset u ≤ w) ⟨s, fun u hu => hu.1⟩ ⟨t, hst, not_lt.1 hnot⟩
  have habove : ∀ u, c ≤ u → u < first → w < shown offset u := by
    intro u hcu huf
    by_cases hus : u ≤ s
    · exact hfrom u hcu hus
    · by_contra hnotu
      have hmin := hleast u ⟨by omega, not_lt.1 hnotu⟩
      omega
  have hne : s ≠ first := by
    rintro rfl
    omega
  have hbefore := habove (first - 1) (by omega) (by omega)
  have hchange : Changes offset first := by
    intro hsame
    unfold shown at hbefore hle
    omega
  have hapart := h.apart c first (by omega) hc hchange
  -- the clock has run for the whole gap before it was set back
  have hrun : offset (first - 1) = offset (first - gap) := by
    apply offset_const (by omega)
    intro u hu huf hchanged
    have hagain := h.apart u first (by omega) hchanged hchange
    omega
  have hstart := habove (first - gap) (by omega) (by omega)
  have hback := h.back first
  unfold shown at hstart hle
  omega

/-- The readings are first shown in their order. -/
theorem first_lt_first (h : Steady offset gap) (hw : w < w')
    (hfirst : IsLeast {t | shown offset t = w} t) (hfirst' : IsLeast {t | shown offset t = w'} t') :
    t < t' := by
  have ht : shown offset t = w := hfirst.1
  have ht' : shown offset t' = w' := hfirst'.1
  by_contra hnot
  have hpast : w < shown offset t' := by omega
  have hnever : ∀ u ≤ t', shown offset u ≠ w := by
    intro u hu hshown
    have hle : t ≤ u := hfirst.2 hshown
    have hsame : u = t' := by omega
    rw [hsame] at hshown
    omega
  have hlater := stays_past h hpast hnever (not_lt.1 hnot)
  omega

end Steady

end Clocks
