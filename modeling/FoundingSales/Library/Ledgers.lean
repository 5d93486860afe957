import Mathlib.Data.List.Basic
import Mathlib.Data.List.Chain

/-!
A ledger of state changes: entries that lead from one state to the next, beginning where
there is none, and sequence numbers handed out as one more than the greatest so far.
-/

namespace Ledgers

variable {σ : Type*}

/-- The entries lead from `a` to `b`, each starting where the one before it ended. -/
def Chained : Option σ → List (Option σ × σ) → Option σ → Prop
  | a, [], b => a = b
  | a, (source, target) :: rest, b => source = a ∧ Chained (some target) rest b

theorem Chained.concat {a m : Option σ} {target : σ} {entries : List (Option σ × σ)}
    (h : Chained a entries m) : Chained a (entries ++ [(m, target)]) (some target) := by
  induction entries generalizing a with
  | nil =>
    cases h
    exact ⟨rfl, rfl⟩
  | cons entry rest ih => exact ⟨h.1, ih h.2⟩

/-- Neighbouring entries meet. -/
theorem Chained.isChain {a b : Option σ} {entries : List (Option σ × σ)}
    (h : Chained a entries b) :
    entries.IsChain fun entry next => next.1 = some entry.2 := by
  induction entries generalizing a with
  | nil => exact .nil
  | cons entry rest ih =>
    refine List.isChain_cons.2 ⟨?_, ih h.2⟩
    intro next hnext
    cases rest with
    | nil => cases hnext
    | cons first rest =>
      obtain rfl := Option.some.inj hnext
      exact h.2.1

/-- The last entry leads to the end. -/
theorem Chained.getLast? {b : Option σ} {entries : List (Option σ × σ)}
    (h : Chained none entries b) : entries.getLast?.map Prod.snd = b := by
  cases entries with
  | nil => exact h
  | cons entry rest =>
    have hlast : ∀ (rest : List (Option σ × σ)) (entry : Option σ × σ),
        Chained (some entry.2) rest b → ((entry :: rest).getLast?).map Prod.snd = b := by
      intro rest
      induction rest with
      | nil => exact fun entry h => h
      | cons first rest ih =>
        intro entry h
        rw [List.getLast?_cons_cons]
        exact ih first h.2
    exact hlast rest entry h.2

/-- One more than the greatest of `1 … n`. -/
theorem foldr_max_range' (n : Nat) : (List.range' 1 n).foldr max 0 = n := by
  have hshift : ∀ n s, 0 < n → (List.range' s n).foldr max 0 = s + n - 1 := by
    intro n
    induction n with
    | zero => exact fun s h => absurd h (Nat.lt_irrefl 0)
    | succ n ih =>
      intro s _
      rw [List.range'_succ, List.foldr_cons]
      cases n with
      | zero => simp
      | succ n =>
        rw [ih (s + 1) (Nat.succ_pos n)]
        omega
  cases n with
  | zero => rfl
  | succ n =>
    rw [hshift (n + 1) 1 (Nat.succ_pos n)]
    omega

end Ledgers
