import Mathlib.Data.List.Induction
import Mathlib.Data.List.Sort

/-!
The first element of each key, in the order of a list or in that of the keys.

Proved here:

* `keys_keepFirst_nodup`, `exists_mem_keepFirst`: each key is kept once;
* `sorted_keepFirst`, `sorted_keepFirst_congr`: in the order of the keys, lists of the same elements
  come out as one list.
-/

namespace Firsts

variable {α κ : Type*} [DecidableEq κ] (key : α → κ)

/-- An element is kept if its key is new. -/
def keep (seen : List α) (a : α) : List α :=
  if seen.any fun b => key b = key a then seen else seen ++ [a]

/-- The first of each key. -/
def keepFirst (list : List α) : List α := list.foldl (keep key) []

variable {key} {a : α} {list list' : List α}

theorem keepFirst_concat (list : List α) (a : α) :
    keepFirst key (list ++ [a]) = keep key (keepFirst key list) a := by
  unfold keepFirst
  rw [List.foldl_append]
  rfl

theorem any_key_iff {seen : List α} :
    (seen.any fun b => key b = key a) = true ↔ ∃ b ∈ seen, key b = key a := by
  simp

theorem mem_of_mem_keepFirst (h : a ∈ keepFirst key list) : a ∈ list := by
  induction list using List.reverseRecOn with
  | nil => exact h
  | append_singleton list b ih =>
    rw [keepFirst_concat] at h
    unfold keep at h
    split at h
    · exact List.mem_append_left _ (ih h)
    · rcases List.mem_append.1 h with h | h
      · exact List.mem_append_left _ (ih h)
      · exact List.mem_append_right _ h

variable (key) in
theorem exists_mem_keepFirst (h : a ∈ list) : ∃ b ∈ keepFirst key list, key b = key a := by
  induction list using List.reverseRecOn with
  | nil => cases h
  | append_singleton list b ih =>
    rw [keepFirst_concat]
    unfold keep
    rcases List.mem_append.1 h with h | h
    · obtain ⟨c, hc, heq⟩ := ih h
      split
      · exact ⟨c, hc, heq⟩
      · exact ⟨c, List.mem_append_left _ hc, heq⟩
    · rw [List.mem_singleton.1 h]
      split
      · next hany => exact any_key_iff.1 hany
      · exact ⟨b, by simp, rfl⟩

theorem keys_keepFirst_nodup (list : List α) : ((keepFirst key list).map key).Nodup := by
  induction list using List.reverseRecOn with
  | nil => exact List.nodup_nil
  | append_singleton list b ih =>
    rw [keepFirst_concat]
    unfold keep
    split
    · exact ih
    · next hnew =>
      rw [List.map_append, List.nodup_append]
      refine ⟨ih, List.nodup_singleton _, fun x hx y hy heq => hnew (any_key_iff.2 ?_)⟩
      obtain ⟨c, hc, rfl⟩ := List.mem_map.1 hx
      rw [List.map_singleton, List.mem_singleton] at hy
      exact ⟨c, hc, heq.trans hy⟩

/-- Where a key determines the element, every element is kept. -/
theorem mem_keepFirst_iff (hkey : ∀ a ∈ list, ∀ b ∈ list, key a = key b → a = b) :
    a ∈ keepFirst key list ↔ a ∈ list := by
  refine ⟨mem_of_mem_keepFirst, fun ha => ?_⟩
  obtain ⟨b, hb, heq⟩ := exists_mem_keepFirst key ha
  rwa [← hkey b (mem_of_mem_keepFirst hb) a ha heq]

section Sorted

variable (le : κ → κ → Prop) [DecidableRel le] [Std.Total le] [IsTrans κ le]

/-- Kept and sorted, each key comes before the keys after it. -/
theorem sorted_keepFirst (list : List α) :
    ((keepFirst key list).insertionSort fun a b => le (key a) (key b)).Pairwise fun a b =>
      le (key a) (key b) ∧ key a ≠ key b := by
  have : Std.Total fun a b : α => le (key a) (key b) := ⟨fun a b => Std.Total.total (key a) (key b)⟩
  have : IsTrans α fun a b => le (key a) (key b) := ⟨fun _ _ _ hab hbc => IsTrans.trans _ _ _ hab hbc⟩
  have hperm := List.perm_insertionSort (fun a b => le (key a) (key b)) (keepFirst key list)
  refine List.Pairwise.and (List.pairwise_insertionSort _ _) ?_
  have hnodup := (hperm.map key).nodup_iff.2 (keys_keepFirst_nodup list)
  exact List.pairwise_map.1 hnodup

/-- Lists of the same elements, sorted, are one list. -/
theorem sorted_keepFirst_congr [Std.Antisymm le]
    (hkey : ∀ a ∈ list, ∀ b ∈ list, key a = key b → a = b)
    (hsame : ∀ a, a ∈ list ↔ a ∈ list') :
    (keepFirst key list).insertionSort (fun a b => le (key a) (key b)) =
      (keepFirst key list').insertionSort fun a b => le (key a) (key b) := by
  have hkey' : ∀ a ∈ list', ∀ b ∈ list', key a = key b → a = b := fun a ha b hb =>
    hkey a ((hsame a).2 ha) b ((hsame b).2 hb)
  have hnodup : ∀ l : List α, (keepFirst key l).Nodup := fun l =>
    List.Nodup.of_map key (keys_keepFirst_nodup l)
  have hperm : (keepFirst key list).Perm (keepFirst key list') := by
    rw [List.perm_ext_iff_of_nodup (hnodup list) (hnodup list')]
    intro a
    rw [mem_keepFirst_iff hkey, mem_keepFirst_iff hkey', hsame]
  refine List.Perm.eq_of_pairwise ?_ (sorted_keepFirst le list) (sorted_keepFirst le list') ?_
  · intro a b ha hb hab hba
    exact absurd (antisymm hab.1 hba.1) hab.2
  · exact (List.perm_insertionSort _ _).trans (hperm.trans (List.perm_insertionSort _ _).symm)

end Sorted

end Firsts
