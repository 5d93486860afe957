import Mathlib.Order.Lattice
import FoundingSales.Library.Runs

/-!
Fenced leases. A lease is granted under a token larger than every token before, and
released; nothing else happens to it. Whoever acts only while the lease is held under its
own token therefore acts within one uninterrupted grant, and releases it at most once.
-/

namespace Leases

open Runs

structure Lease (τ : Type*) where
  token : τ
  held : Bool
  deriving DecidableEq

variable {τ : Type*} [LinearOrder τ]

inductive Moves : Lease τ → Lease τ → Prop
  | stay (l : Lease τ) : Moves l l
  | grant {l : Lease τ} {t : τ} (hfree : l.held = false) (hlt : l.token < t) : Moves l ⟨t, true⟩
  | release {l : Lease τ} (hheld : l.held = true) : Moves l ⟨l.token, false⟩

def HeldUnder (t : τ) (l : Lease τ) : Prop := l.token = t ∧ l.held = true

/-- The grant under `t` is over. -/
def Lost (t : τ) (l : Lease τ) : Prop := t < l.token ∨ l.token = t ∧ l.held = false

instance (t : τ) (l : Lease τ) : Decidable (Lost t l) := inferInstanceAs (Decidable (_ ∨ _))

theorem Lost.not_heldUnder {t : τ} {l : Lease τ} (h : Lost t l) : ¬ HeldUnder t l := by
  rintro ⟨htoken, hheld⟩
  rcases h with hlt | ⟨-, hfree⟩
  · exact absurd htoken.symm (ne_of_lt hlt)
  · rw [hheld] at hfree
    exact Bool.noConfusion hfree

theorem heldUnder_or_lost {t : τ} {l : Lease τ} (h : t ≤ l.token) : HeldUnder t l ∨ Lost t l := by
  rcases lt_or_eq_of_le h with hlt | heq
  · exact .inr (.inl hlt)
  · cases hheld : l.held with
    | true => exact .inl ⟨heq.symm, hheld⟩
    | false => exact .inr (.inr ⟨heq.symm, hheld⟩)

theorem Moves.token_le {l l' : Lease τ} (h : Moves l l') : l.token ≤ l'.token := by
  cases h with
  | stay => exact le_refl _
  | grant _ hlt => exact le_of_lt hlt
  | release => exact le_refl _

theorem Lost.moves {t : τ} {l l' : Lease τ} (hlost : Lost t l) (h : Moves l l') : Lost t l' := by
  cases h with
  | stay => exact hlost
  | grant hfree hlt =>
    rcases hlost with hgone | ⟨rfl, -⟩
    · exact .inl (lt_trans hgone hlt)
    · exact .inl hlt
  | release hheld =>
    rcases hlost with hgone | ⟨-, hfree⟩
    · exact .inl hgone
    · rw [hheld] at hfree
      exact Bool.noConfusion hfree

/-! ## Runs -/

section Runs

variable {σ ι : Type*} {step : σ → ι → σ} {lease : σ → Lease τ}
  (hmoves : ∀ s i, Moves (lease s) (lease (step s i)))

include hmoves

theorem token_le_run (s : σ) (is : List ι) : (lease s).token ≤ (lease (run step s is)).token :=
  run_invariant (I := fun s' => (lease s).token ≤ (lease s').token)
    (fun s' i h => le_trans h (hmoves s' i).token_le) (le_refl _) is

theorem lost_run {t : τ} {s : σ} (h : Lost t (lease s)) (is : List ι) :
    Lost t (lease (run step s is)) :=
  run_invariant (I := fun s' => Lost t (lease s')) (fun s' i h => h.moves (hmoves s' i)) h is

/-- A lease held under a token at the end was held under it all along. -/
theorem heldUnder_throughout {t : τ} {s : σ} {front back : List ι}
    (h : HeldUnder t (lease (run step s (front ++ back)))) (hs : t ≤ (lease s).token) :
    HeldUnder t (lease (run step s front)) := by
  rcases heldUnder_or_lost (le_trans hs (token_le_run hmoves s front)) with hheld | hlost
  · exact hheld
  · rw [run_append] at h
    exact absurd h (lost_run hmoves hlost back).not_heldUnder

/-- The steps that end the grant under `t`, counted over a run, are at most one. -/
theorem total_releases_le_one {t : τ} {weight : σ → ι → Nat} (hone : ∀ s i, weight s i ≤ 1)
    (hweight : ∀ s i, 0 < weight s i → HeldUnder t (lease s) ∧ Lost t (lease (step s i)))
    (s : σ) (is : List ι) : total step weight s is ≤ 1 := by
  let spent : σ → Nat := fun s => if Lost t (lease s) then 1 else 0
  have hpays : ∀ s i, True → True → spent s + weight s i ≤ spent (step s i) := by
    intro s i _ _
    rcases Nat.eq_zero_or_pos (weight s i) with hzero | hpos
    · by_cases hlost : Lost t (lease s)
      · simp [spent, hlost, hzero, hlost.moves (hmoves s i)]
      · simp [spent, hlost, hzero]
    · obtain ⟨hheld, hlost⟩ := hweight s i hpos
      have hnot : ¬ Lost t (lease s) := fun h => h.not_heldUnder hheld
      simpa [spent, hnot, hlost] using hone s i
  have hbounded : ∀ s, True → spent s ≤ 1 := by
    intro s _
    by_cases hlost : Lost t (lease s) <;> simp [spent, hlost]
  exact Nat.le_of_add_left_le (total_le_of_potential (I := fun _ => True) (c := fun _ _ => True)
    (fun _ _ _ h => h) hpays hbounded (meets_of_forall step (fun _ _ => trivial) s is) trivial)

end Runs

end Leases
