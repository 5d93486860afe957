import Mathlib.Data.List.Infix
import Mathlib.Order.Basic

/-!
A feed of records in ascending order of a number, read from a cursor. A reader takes a
prefix of what lies beyond its cursor, so the cursor may move to a place only when every
record up to there is done. Appending records beyond every cursor changes nothing of that.
-/

namespace Feeds

variable {ρ : Type} (key : ρ → Nat)

/-- What lies beyond a cursor. -/
def after (records : List ρ) (cursor : Nat) : List ρ := records.filter fun r => cursor < key r

/-- How far the records taken reach, from where the reading began. -/
def reach (cursor : Nat) (taken : List ρ) : Nat := (taken.map key).foldl max cursor

/-- Every record beyond `start` and not beyond `stop` is done. -/
def Covered (records : List ρ) (done : ρ → Prop) (start stop : Nat) : Prop :=
  ∀ r ∈ records, start < key r → key r ≤ stop → done r

variable {key} {records taken : List ρ} {done done' : ρ → Prop} {start middle stop cursor : Nat}

theorem mem_after {r : ρ} : r ∈ after key records cursor ↔ r ∈ records ∧ cursor < key r := by
  simp [after]

theorem after_append (more : List ρ) :
    after key (records ++ more) cursor = after key records cursor ++ after key more cursor :=
  List.filter_append _ _

theorem after_ascending (h : records.Pairwise fun a b => key a < key b) :
    (after key records cursor).Pairwise fun a b => key a < key b :=
  h.sublist List.filter_sublist

/-! ## Reach -/

@[simp] theorem reach_nil : reach key cursor [] = cursor := rfl

@[simp] theorem reach_cons {r : ρ} :
    reach key cursor (r :: taken) = reach key (max cursor (key r)) taken := rfl

theorem le_reach : cursor ≤ reach key cursor taken := by
  induction taken generalizing cursor with
  | nil => exact le_rfl
  | cons r taken ih => exact (le_max_left _ _).trans ih

theorem reach_lt {bound : Nat} (hcursor : cursor < bound) (h : ∀ r ∈ taken, key r < bound) :
    reach key cursor taken < bound := by
  induction taken generalizing cursor with
  | nil => exact hcursor
  | cons r taken ih =>
    apply ih
    · exact max_lt hcursor (h r List.mem_cons_self)
    · intro x hx
      exact h x (List.mem_cons_of_mem _ hx)

theorem reach_mono {more : List ρ} (h : taken <+: more) :
    reach key cursor taken ≤ reach key cursor more := by
  obtain ⟨rest, rfl⟩ := h
  rw [reach, reach, List.map_append, List.foldl_append]
  exact le_reach

/-- In an ascending feed, what a prefix reaches is in the prefix. -/
theorem mem_of_le_reach {r : ρ} (hascending : records.Pairwise fun a b => key a < key b)
    (htaken : taken <+: after key records cursor) (hr : r ∈ records) (hbeyond : cursor < key r)
    (hle : key r ≤ reach key cursor taken) : r ∈ taken := by
  obtain ⟨rest, hrest⟩ := htaken
  have hmem : r ∈ taken ++ rest := by
    rw [hrest]
    exact mem_after.2 ⟨hr, hbeyond⟩
  rcases List.mem_append.1 hmem with h | h
  · exact h
  · have hsorted : (after key records cursor).Pairwise fun a b => key a < key b :=
      after_ascending hascending
    rw [← hrest] at hsorted
    have hlt : reach key cursor taken < key r :=
      reach_lt hbeyond fun x hx => (List.pairwise_append.1 hsorted).2.2 x hx r h
    omega

/-! ## Cover -/

theorem Covered.mono (h : Covered key records done start stop)
    (hdone : ∀ r, done r → done' r) : Covered key records done' start stop :=
  fun r hr hstart hstop => hdone r (h r hr hstart hstop)

theorem covered_self : Covered key records done start start := by
  intro r _ hstart hstop
  omega

theorem Covered.trans (h : Covered key records done start middle)
    (h' : Covered key records done middle stop) : Covered key records done start stop := by
  intro r hr hstart hstop
  by_cases hm : key r ≤ middle
  · exact h r hr hstart hm
  · exact h' r hr (by omega) hstop

/-- What is beyond `stop` does not matter. -/
theorem Covered.append {more : List ρ} (h : Covered key records done start stop)
    (hmore : ∀ r ∈ more, stop < key r) : Covered key (records ++ more) done start stop := by
  intro r hr hstart hstop
  rcases List.mem_append.1 hr with hr | hr
  · exact h r hr hstart hstop
  · have := hmore r hr
    omega

/-- A cursor within the reach of a prefix whose records up to it are done. -/
theorem covered_of_prefix (hascending : records.Pairwise fun a b => key a < key b)
    (htaken : taken <+: after key records cursor) (hreach : stop ≤ reach key cursor taken)
    (hdone : ∀ r ∈ taken, key r ≤ stop → done r) : Covered key records done cursor stop := by
  intro r hr hstart hstop
  exact hdone r (mem_of_le_reach hascending htaken hr hstart (hstop.trans hreach)) hstop

end Feeds
