import FoundingSales.Suppression.Events
import Mathlib.Logic.Relation

/-!
Lineages of merge copies, read off the ids: an id of either copied form names one original,
so the events copied from one another form chains.

Proved here:
* `CopyOf.original_unique`: a copy's id determines its original's;
* `Descends.step_back`: what descends to a copy descends to its original, or is the copy.
-/

namespace FoundingSales.Suppression

open Crm Relation

theorem mergeCopyId_injective {id id' key key' : JsString} (hkey : atSign ∉ key)
    (hkey' : atSign ∉ key') (h : mergeCopyId id key = mergeCopyId id' key') :
    id = id' ∧ key = key' := by
  have hsplit : id ++ atSign :: key = id' ++ atSign :: key' := by
    unfold mergeCopyId at h
    exact List.append_cancel_left h
  have hreverse := congrArg (fun text => (List.reverse text).takeWhile (· != atSign)) hsplit
  have hlast : ∀ front back : JsString, atSign ∉ back →
      ((front ++ atSign :: back).reverse).takeWhile (· != atSign) = back.reverse := by
    intro front back hback
    have hall : ∀ c ∈ back.reverse, (c != atSign) = true := by
      intro c hc
      simpa using ne_of_mem_of_not_mem (List.mem_reverse.1 hc) hback
    rw [List.reverse_append, List.reverse_cons, List.append_assoc,
      List.takeWhile_append_of_pos hall]
    simp
  simp only [hlast _ _ hkey, hlast _ _ hkey', List.reverse_inj] at hreverse
  subst hreverse
  exact ⟨List.append_cancel_right hsplit, rfl⟩

theorem legacyMergeCopyId_injective {id id' : JsString}
    (h : legacyMergeCopyId id = legacyMergeCopyId id') : id = id' := by
  unfold legacyMergeCopyId at h
  exact List.append_cancel_left h

theorem legacyMergeCopyId_ne {id id' key : JsString} :
    legacyMergeCopyId id ≠ mergeCopyId id' key := by
  simp [legacyMergeCopyId, mergeCopyId, js, codeUnits]

/-- An id a merge gives its copy of an event, in either form. -/
inductive CopyOf (id : JsString) : JsString → Prop
  | merge (survivor : FirmId) : CopyOf id (mergeCopyId id survivor.text)
  | legacy : CopyOf id (legacyMergeCopyId id)

namespace CopyOf

variable {id id' copy : JsString}

theorem original_unique (h : CopyOf id copy) (h' : CopyOf id' copy) : id = id' := by
  generalize hcopy : copy = target at h'
  cases h with
  | merge survivor =>
    cases h' with
    | merge survivor' =>
      exact (mergeCopyId_injective survivor.atSign_not_mem survivor'.atSign_not_mem hcopy).1
    | legacy => exact absurd hcopy.symm legacyMergeCopyId_ne
  | legacy =>
    cases h' with
    | merge survivor' => exact absurd hcopy legacyMergeCopyId_ne
    | legacy => exact legacyMergeCopyId_injective hcopy

theorem length_lt (h : CopyOf id copy) : id.length < copy.length := by
  cases h with
  | merge survivor =>
    simp only [mergeCopyId, List.length_append, List.length_cons]
    omega
  | legacy =>
    simp only [legacyMergeCopyId, List.length_append]
    have : (js "merge:").length = 6 := by decide
    omega

theorem isMergeCopyId (h : CopyOf id copy) : isMergeCopyId copy = true := by
  cases h with
  | merge survivor => simp [Suppression.isMergeCopyId, mergeCopyId]
  | legacy => simp [Suppression.isMergeCopyId, legacyMergeCopyId]

end CopyOf

theorem deterministicEventId_not_copy {P : Platform} {input : DeterministicEventIdInput} :
    isMergeCopyId (deterministicEventId P input) = false := by
  simp [isMergeCopyId, deterministicEventId, js, codeUnits, List.isPrefixOf]

/-- The event itself, its copies, and the copies of those. -/
abbrev Descends : JsString → JsString → Prop := ReflTransGen CopyOf

namespace Descends

variable {id copy original : JsString}

/-- What leads to a copy leads to its original first. -/
theorem step_back (h : Descends id copy) (hcopy : CopyOf original copy) :
    id = copy ∨ Descends id original := by
  cases h with
  | refl => exact .inl rfl
  | tail hfront hlast =>
    obtain rfl := hlast.original_unique hcopy
    exact .inr hfront

theorem length_le (h : Descends id copy) : id.length ≤ copy.length := by
  induction h with
  | refl => exact Nat.le_refl _
  | tail _ hlast ih => exact Nat.le_of_lt (Nat.lt_of_le_of_lt ih hlast.length_lt)

theorem ne_of_copy (h : Descends copy original) (hcopy : CopyOf id copy) : id ≠ original := by
  rintro rfl
  have hle := h.length_le
  have hlt := hcopy.length_lt
  omega

/-- Nothing but the event itself leads to an id of the first form. -/
theorem eq_of_not_copy (h : Descends id original) (hnot : isMergeCopyId original = false) :
    id = original := by
  cases h with
  | refl => rfl
  | tail _ hlast =>
    rw [hlast.isMergeCopyId] at hnot
    cases hnot

end Descends

end FoundingSales.Suppression
