import Mathlib.Data.List.Basic

/-!
Runs of a deterministic machine `step : σ → ι → σ` over a list of inputs. The choices of
a scheduler, of the clock and of the outside world are inputs, so a statement about every
list of inputs is a statement about every order of steps.

Proved here:
* `run_invariant` and `Meets.invariant`: what one step keeps, a run keeps;
* `Meets.related`, `run_related`: a preorder kept by one step relates the ends of a run;
* `total_le_of_potential`: a quantity paid for by a bounded potential is bounded.
-/

namespace Runs

variable {σ ι : Type*} (step : σ → ι → σ)

/-- The state after the inputs `is`, taken in order from `s`. -/
def run (s : σ) (is : List ι) : σ := is.foldl step s

@[simp] theorem run_nil (s : σ) : run step s [] = s := rfl

@[simp] theorem run_cons (s : σ) (i : ι) (is : List ι) :
    run step s (i :: is) = run step (step s i) is := rfl

theorem run_append (s : σ) (is js : List ι) :
    run step s (is ++ js) = run step (run step s is) js := List.foldl_append

/-- Every input satisfies `c` in the state it is taken from. -/
def Meets (c : σ → ι → Prop) : σ → List ι → Prop
  | _, [] => True
  | s, i :: is => c s i ∧ Meets c (step s i) is

instance Meets.instDecidable (c : σ → ι → Prop) [∀ s i, Decidable (c s i)] :
    ∀ s is, Decidable (Meets step c s is)
  | _, [] => instDecidableTrue
  | s, i :: is => @instDecidableAnd _ _ _ (Meets.instDecidable c (step s i) is)

theorem meets_of_forall {c : σ → ι → Prop} (hc : ∀ s i, c s i) (s : σ) (is : List ι) :
    Meets step c s is := by
  induction is generalizing s with
  | nil => trivial
  | cons i is ih => exact ⟨hc s i, ih (step s i)⟩

/-- A condition that holds wherever a prefix of the inputs leads holds along the run. -/
theorem meets_of_prefixes {c : σ → ι → Prop} {s : σ} {is : List ι}
    (hc : ∀ front i back, is = front ++ i :: back → c (run step s front) i) :
    Meets step c s is := by
  induction is generalizing s with
  | nil => trivial
  | cons i is ih =>
    refine ⟨hc [] i is rfl, ih fun front j back h => ?_⟩
    exact hc (i :: front) j back (by rw [h, List.cons_append])

theorem Meets.append {c : σ → ι → Prop} {s : σ} {is js : List ι}
    (h : Meets step c s (is ++ js)) :
    Meets step c s is ∧ Meets step c (run step s is) js := by
  induction is generalizing s with
  | nil => exact ⟨trivial, h⟩
  | cons i is ih =>
    obtain ⟨hi, hrest⟩ := h
    obtain ⟨his, hjs⟩ := ih hrest
    exact ⟨⟨hi, his⟩, hjs⟩

variable {step}

/-- An invariant kept by every admissible step holds after every admissible run. -/
theorem Meets.invariant {c : σ → ι → Prop} {I : σ → Prop}
    (keep : ∀ s i, c s i → I s → I (step s i)) {s : σ} {is : List ι}
    (hm : Meets step c s is) (hs : I s) : I (run step s is) := by
  induction is generalizing s with
  | nil => exact hs
  | cons i is ih => exact ih hm.2 (keep s i hm.1 hs)

/-- An invariant kept by every step holds after every run. -/
theorem run_invariant {I : σ → Prop} (keep : ∀ s i, I s → I (step s i)) {s : σ}
    (hs : I s) (is : List ι) : I (run step s is) :=
  Meets.invariant (fun s i _ => keep s i) (meets_of_forall step (fun _ _ => trivial) s is) hs

/-- What an invariant implies of every step holds along the run. -/
theorem meets_of_invariant {c : σ → ι → Prop} {I : σ → Prop}
    (keep : ∀ s i, I s → I (step s i)) (hc : ∀ s i, I s → c s i) {s : σ} (hs : I s)
    (is : List ι) : Meets step c s is := by
  induction is generalizing s with
  | nil => trivial
  | cons i is ih => exact ⟨hc s i hs, ih (keep s i hs)⟩

/-- What an invariant makes of a condition of every step holds along the run. -/
theorem Meets.imp {c d : σ → ι → Prop} {I : σ → Prop} (keep : ∀ s i, I s → I (step s i))
    (imp : ∀ s i, I s → c s i → d s i) {s : σ} {is : List ι} (hm : Meets step c s is)
    (hs : I s) : Meets step d s is := by
  induction is generalizing s with
  | nil => trivial
  | cons i is ih => exact ⟨imp s i hs hm.1, ih hm.2 (keep s i hs)⟩

/-- A preorder kept by every admissible step from an invariant state relates the ends of a
run. -/
theorem Meets.related {c : σ → ι → Prop} {I : σ → Prop} {R : σ → σ → Prop}
    (refl : ∀ s, R s s) (trans : ∀ a b c, R a b → R b c → R a c)
    (keep : ∀ s i, c s i → I s → I (step s i)) (rel : ∀ s i, c s i → I s → R s (step s i))
    {s : σ} {is : List ι} (hm : Meets step c s is) (hs : I s) : R s (run step s is) := by
  induction is generalizing s with
  | nil => exact refl s
  | cons i is ih => exact trans _ _ _ (rel s i hm.1 hs) (ih hm.2 (keep s i hm.1 hs))

/-- A preorder kept by every step from an invariant state relates the ends of a run. -/
theorem run_related {I : σ → Prop} {R : σ → σ → Prop}
    (refl : ∀ s, R s s) (trans : ∀ a b c, R a b → R b c → R a c)
    (keep : ∀ s i, I s → I (step s i)) (rel : ∀ s i, I s → R s (step s i)) {s : σ}
    (hs : I s) (is : List ι) : R s (run step s is) :=
  Meets.related refl trans (fun s i _ => keep s i) (fun s i _ => rel s i)
    (meets_of_forall step (fun _ _ => trivial) s is) hs

variable (step) in
/-- The sum of `weight s i` over the steps of a run. -/
def total (weight : σ → ι → Nat) : σ → List ι → Nat
  | _, [] => 0
  | s, i :: is => weight s i + total weight (step s i) is

/-- A quantity that each step moves by its weight is moved by a run's total weight. -/
theorem Meets.adds {c : σ → ι → Prop} {I : σ → Prop} (weight : σ → ι → Nat) (quantity : σ → Int)
    (keep : ∀ s i, c s i → I s → I (step s i))
    (adds : ∀ s i, c s i → I s → quantity (step s i) = quantity s + weight s i) {s : σ}
    {is : List ι} (hm : Meets step c s is) (hs : I s) :
    quantity (run step s is) = quantity s + total step weight s is := by
  induction is generalizing s with
  | nil => exact (Int.add_zero _).symm
  | cons i is ih =>
    have hstep := adds s i hm.1 hs
    have hrest := ih hm.2 (keep s i hm.1 hs)
    simp only [run_cons, total]
    omega

theorem run_adds {I : σ → Prop} (weight : σ → ι → Nat) (quantity : σ → Int)
    (keep : ∀ s i, I s → I (step s i))
    (adds : ∀ s i, I s → quantity (step s i) = quantity s + weight s i) {s : σ} (hs : I s)
    (is : List ι) : quantity (run step s is) = quantity s + total step weight s is :=
  Meets.adds weight quantity (fun s i _ => keep s i) (fun s i _ => adds s i)
    (meets_of_forall step (fun _ _ => trivial) s is) hs

/-- When each step pays its loss from its gain and a balance, so does a run. -/
theorem Meets.losses_le {c : σ → ι → Prop} {I : σ → Prop} {gain loss : σ → ι → Nat}
    (balance : σ → Nat) (keep : ∀ s i, c s i → I s → I (step s i))
    (pays : ∀ s i, c s i → I s → balance (step s i) + loss s i ≤ balance s + gain s i) {s : σ}
    {is : List ι} (hm : Meets step c s is) (hs : I s) :
    balance (run step s is) + total step loss s is ≤ balance s + total step gain s is := by
  induction is generalizing s with
  | nil => exact Nat.le_refl _
  | cons i is ih =>
    have hstep := pays s i hm.1 hs
    have hrest := ih hm.2 (keep s i hm.1 hs)
    simp only [run_cons, total]
    omega

/-- When each step's weight is covered by what it adds to a potential that an invariant
bounds, the total weight of a run is covered by the room the potential has left. -/
theorem total_le_of_potential {c : σ → ι → Prop} {I : σ → Prop} {weight : σ → ι → Nat}
    {potential : σ → Nat} {bound : Nat}
    (keep : ∀ s i, c s i → I s → I (step s i))
    (pays : ∀ s i, c s i → I s → potential s + weight s i ≤ potential (step s i))
    (bounded : ∀ s, I s → potential s ≤ bound) {s : σ} {is : List ι}
    (hm : Meets step c s is) (hs : I s) :
    potential s + total step weight s is ≤ bound := by
  induction is generalizing s with
  | nil => exact bounded s hs
  | cons i is ih =>
    have hstep := pays s i hm.1 hs
    have hrest := ih hm.2 (keep s i hm.1 hs)
    simp only [total]
    omega

end Runs
