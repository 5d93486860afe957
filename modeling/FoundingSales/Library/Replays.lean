import Mathlib.Data.List.Basic

/-!
Actions that settle: an accepted action leaves its target settled, every other action keeps it
so, and on a settled target the action changes nothing a view shows.

Proved here:

* `Settles.settled`: after an accepted list of actions every target of the list is settled;
* `Settles.still`: over settled targets a list of actions is accepted and the view stays.
-/

namespace Replays

variable {σ τ ι : Type*} {view : σ → τ} {act : σ → ι → Option σ} {Settled : ι → τ → Prop}

structure Settles (view : σ → τ) (act : σ → ι → Option σ) (Settled : ι → τ → Prop) : Prop where
  done : ∀ {s s' : σ} {x : ι}, act s x = some s' → Settled x (view s')
  kept : ∀ {s s' : σ} {x y : ι}, Settled x (view s) → act s y = some s' → Settled x (view s')
  unchanged : ∀ {s : σ} {x : ι}, Settled x (view s) → ∃ s', act s x = some s' ∧ view s' = view s

namespace Settles

theorem kept_all (h : Settles view act Settled) {x : ι} {xs : List ι} {s s' : σ}
    (hs : Settled x (view s)) (hrun : xs.foldlM act s = some s') : Settled x (view s') := by
  induction xs generalizing s with
  | nil =>
    obtain rfl := Option.some.inj hrun
    exact hs
  | cons y ys ih =>
    rw [List.foldlM_cons, Option.bind_eq_bind, Option.bind_eq_some_iff] at hrun
    obtain ⟨middle, hfirst, hrest⟩ := hrun
    exact ih (h.kept hs hfirst) hrest

theorem settled (h : Settles view act Settled) {xs : List ι} {s s' : σ}
    (hrun : xs.foldlM act s = some s') : ∀ x ∈ xs, Settled x (view s') := by
  induction xs generalizing s with
  | nil =>
    intro x hx
    cases hx
  | cons y ys ih =>
    rw [List.foldlM_cons, Option.bind_eq_bind, Option.bind_eq_some_iff] at hrun
    obtain ⟨middle, hfirst, hrest⟩ := hrun
    intro x hx
    rcases List.mem_cons.1 hx with rfl | hx
    · exact h.kept_all (h.done hfirst) hrest
    · exact ih hrest x hx

theorem still (h : Settles view act Settled) {xs : List ι} {s : σ}
    (hs : ∀ x ∈ xs, Settled x (view s)) : ∃ s', xs.foldlM act s = some s' ∧ view s' = view s := by
  induction xs generalizing s with
  | nil => exact ⟨s, rfl, rfl⟩
  | cons y ys ih =>
    obtain ⟨middle, hfirst, hview⟩ := h.unchanged (hs y List.mem_cons_self)
    obtain ⟨s', hrest, hview'⟩ := ih (s := middle) fun x hx => by
      rw [hview]
      exact hs x (List.mem_cons_of_mem _ hx)
    refine ⟨s', ?_, hview'.trans hview⟩
    rw [List.foldlM_cons, hfirst]
    exact hrest

end Settles

/-- What each action of a list keeps, the list keeps. -/
theorem foldlM_related {R : σ → σ → Prop} (refl : ∀ s, R s s)
    (trans : ∀ a b c, R a b → R b c → R a c) {xs : List ι}
    (rel : ∀ s s', ∀ x ∈ xs, act s x = some s' → R s s') {s s' : σ}
    (hrun : xs.foldlM act s = some s') : R s s' := by
  induction xs generalizing s with
  | nil =>
    obtain rfl := Option.some.inj hrun
    exact refl s
  | cons y ys ih =>
    rw [List.foldlM_cons, Option.bind_eq_bind, Option.bind_eq_some_iff] at hrun
    obtain ⟨middle, hfirst, hrest⟩ := hrun
    exact trans _ _ _ (rel _ _ y List.mem_cons_self hfirst)
      (ih (fun t t' x hx => rel t t' x (List.mem_cons_of_mem y hx)) hrest)

end Replays
