import Mathlib

/-!
The integer points that half-open spans cover together.

Proved here:

* `mem_covered`, `covered_congr`: the points depend on which spans there are, not on their order;
* `card_covered_le`, `length_le_card_covered`: between the longest span and the sum of all;
* `card_covered_of_separated`: spans that follow one another are counted by their lengths.
-/

namespace Spans

variable {ι : Type*} (start stop : ι → Int)

noncomputable def covered : List ι → Finset Int
  | [] => ∅
  | x :: xs => Finset.Ico (start x) (stop x) ∪ covered xs

variable {start stop}

theorem mem_covered {xs : List ι} {t : Int} :
    t ∈ covered start stop xs ↔ ∃ x ∈ xs, start x ≤ t ∧ t < stop x := by
  induction xs with
  | nil => simp [covered]
  | cons x xs ih => simp [covered, ih]

theorem covered_append (xs ys : List ι) :
    covered start stop (xs ++ ys) = covered start stop xs ∪ covered start stop ys := by
  ext t
  simp only [Finset.mem_union, mem_covered, List.mem_append, or_and_right, exists_or]

/-- Where each span of one list lies in a span of the other, so do the points. -/
theorem covered_subset {κ : Type*} {start' stop' : κ → Int} {xs : List ι} {ys : List κ}
    (h : ∀ x ∈ xs, ∃ y ∈ ys, start' y ≤ start x ∧ stop x ≤ stop' y) :
    covered start stop xs ⊆ covered start' stop' ys := by
  intro t ht
  obtain ⟨x, hx, hstart, hstop⟩ := mem_covered.1 ht
  obtain ⟨y, hy, hbefore, hafter⟩ := h x hx
  exact mem_covered.2 ⟨y, hy, hbefore.trans hstart, hstop.trans_le hafter⟩

theorem covered_congr {xs ys : List ι} (h : ∀ x, x ∈ xs ↔ x ∈ ys) :
    covered start stop xs = covered start stop ys := by
  ext t
  simp only [mem_covered, h]

/-- A span lengthened to the end of one that starts within it. -/
theorem covered_lengthened {x y z : ι} (hfirst : start z = start x) (hlast : stop z = stop y)
    (hlater : start x ≤ start y) (htouches : start y ≤ stop x) (hlonger : stop x < stop y) :
    covered start stop [z] = covered start stop [x] ∪ covered start stop [y] := by
  ext t
  simp only [Finset.mem_union, mem_covered, List.mem_singleton, exists_eq_left]
  omega

/-- A span within another adds nothing. -/
theorem covered_inside {x y : ι} (hlater : start x ≤ start y) (hinside : stop y ≤ stop x) :
    covered start stop [x] = covered start stop [x] ∪ covered start stop [y] := by
  ext t
  simp only [Finset.mem_union, mem_covered, List.mem_singleton, exists_eq_left]
  omega

/-- Empty spans cover nothing. -/
theorem covered_filter (xs : List ι) :
    covered start stop (xs.filter fun x => start x < stop x) = covered start stop xs := by
  ext t
  simp only [mem_covered, List.mem_filter, decide_eq_true_eq]
  constructor
  · rintro ⟨x, ⟨hx, -⟩, ht⟩
    exact ⟨x, hx, ht⟩
  · rintro ⟨x, hx, hstart, hstop⟩
    exact ⟨x, ⟨hx, hstart.trans_lt hstop⟩, hstart, hstop⟩

theorem card_covered_le (xs : List ι) :
    ((covered start stop xs).card : Int) ≤ (xs.map fun x => max 0 (stop x - start x)).sum := by
  induction xs with
  | nil => rfl
  | cons x xs ih =>
    have hunion := Finset.card_union_le (Finset.Ico (start x) (stop x)) (covered start stop xs)
    rw [Int.card_Ico] at hunion
    rw [List.map_cons, List.sum_cons]
    show ((Finset.Ico (start x) (stop x) ∪ covered start stop xs).card : Int) ≤ _
    omega

theorem length_le_card_covered {xs : List ι} {x : ι} (hx : x ∈ xs) :
    max 0 (stop x - start x) ≤ (covered start stop xs).card := by
  have hsubset : Finset.Ico (start x) (stop x) ⊆ covered start stop xs := by
    intro t ht
    obtain ⟨hstart, hstop⟩ := Finset.mem_Ico.1 ht
    exact mem_covered.2 ⟨x, hx, hstart, hstop⟩
  have hcard := Finset.card_le_card hsubset
  rw [Int.card_Ico] at hcard
  omega

/-- Each span ends before the next one starts. -/
def Separated (start stop : ι → Int) (xs : List ι) : Prop :=
  xs.Pairwise fun a b => stop a < start b

theorem card_covered_of_separated {xs : List ι} (hsep : Separated start stop xs)
    (hordered : ∀ x ∈ xs, start x ≤ stop x) :
    ((covered start stop xs).card : Int) = (xs.map fun x => stop x - start x).sum := by
  induction xs with
  | nil => rfl
  | cons x xs ih =>
    obtain ⟨hfirst, hrest⟩ := List.pairwise_cons.1 hsep
    have hdisjoint : Disjoint (Finset.Ico (start x) (stop x)) (covered start stop xs) := by
      rw [Finset.disjoint_left]
      intro t ht hcovered
      obtain ⟨y, hy, hstart, -⟩ := mem_covered.1 hcovered
      have hbefore := hfirst y hy
      have hstop := (Finset.mem_Ico.1 ht).2
      omega
    have hlength := hordered x List.mem_cons_self
    have htail := ih hrest fun y hy => hordered y (List.mem_cons_of_mem _ hy)
    rw [List.map_cons, List.sum_cons, ← htail]
    show ((Finset.Ico (start x) (stop x) ∪ covered start stop xs).card : Int) = _
    rw [Finset.card_union_of_disjoint hdisjoint, Int.card_Ico]
    omega

end Spans
