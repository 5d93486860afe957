import Mathlib.Data.List.Basic
import Mathlib.Algebra.BigOperators.Group.List.Basic
import Mathlib.Algebra.Ring.Int.Defs
import Mathlib.Data.List.Count
import Mathlib.Data.List.Nodup

/-!
A table: rows with a key no two of them share. `put` replaces the row of a key, `insert?`
adds a row under a fresh key and refuses a taken one.
-/

namespace Tables

/-- Rows with distinct keys, in insertion order. -/
structure Table {ρ κ : Type} (key : ρ → κ) where
  rows : List ρ
  nodup : (rows.map key).Nodup

namespace Table

variable {ρ κ : Type} {key : ρ → κ}

def empty : Table key := ⟨[], List.nodup_nil⟩

instance : Inhabited (Table key) := ⟨empty⟩

instance : Membership ρ (Table key) := ⟨fun t r => r ∈ t.rows⟩

theorem mem_rows {t : Table key} {r : ρ} : r ∈ t.rows ↔ r ∈ t := Iff.rfl

@[simp] theorem not_mem_empty {r : ρ} : ¬ r ∈ (empty : Table key) := List.not_mem_nil

/-- A row is determined by its key. -/
theorem eq_of_key_eq {t : Table key} {r r' : ρ} (h : r ∈ t) (h' : r' ∈ t)
    (hk : key r = key r') : r = r' :=
  List.inj_on_of_nodup_map t.nodup h h' hk

theorem ext_rows {t t' : Table key} (h : t.rows = t'.rows) : t = t' := by
  cases t
  cases t'
  cases h
  rfl

variable [DecidableEq κ]

def find? (t : Table key) (k : κ) : Option ρ := t.rows.find? fun r => key r = k

theorem find?_eq_some {t : Table key} {k : κ} {r : ρ} :
    t.find? k = some r ↔ r ∈ t ∧ key r = k := by
  constructor
  · intro h
    exact ⟨List.mem_of_find?_eq_some h, by simpa using List.find?_some h⟩
  · rintro ⟨hr, hk⟩
    cases hf : t.find? k with
    | none =>
      have := List.find?_eq_none.1 hf r hr
      simp [hk] at this
    | some r' =>
      have hmem : r' ∈ t := List.mem_of_find?_eq_some hf
      have hkey : key r' = k := by simpa using List.find?_some hf
      rw [eq_of_key_eq hmem hr (hkey.trans hk.symm)]

theorem find?_eq_none {t : Table key} {k : κ} : t.find? k = none ↔ ∀ r ∈ t, key r ≠ k := by
  simp only [find?, List.find?_eq_none, decide_eq_true_eq]
  exact Iff.rfl

@[simp] theorem find?_empty (k : κ) : (empty : Table key).find? k = none := rfl

theorem find?_key {t : Table key} {k : κ} {r : ρ} (h : t.find? k = some r) : key r = k :=
  (find?_eq_some.1 h).2

/-- The row of `r`'s key becomes `r`; without one, nothing changes. -/
def put (t : Table key) (r : ρ) : Table key where
  rows := t.rows.map fun x => if key x = key r then r else x
  nodup := by
    have hsame : (t.rows.map fun x => if key x = key r then r else x).map key
        = t.rows.map key := by
      rw [List.map_map]
      refine List.map_congr_left fun x _ => ?_
      by_cases hx : key x = key r <;> simp [hx]
    rw [hsame]
    exact t.nodup

theorem mem_put {t : Table key} {r x : ρ} (hr : ∃ y ∈ t, key y = key r) :
    x ∈ t.put r ↔ x = r ∨ (x ∈ t ∧ key x ≠ key r) := by
  change x ∈ t.rows.map _ ↔ _
  rw [List.mem_map]
  constructor
  · rintro ⟨y, hy, rfl⟩
    by_cases hk : key y = key r
    · simp [hk]
    · simp only [hk, ↓reduceIte]
      exact .inr ⟨hy, hk⟩
  · rintro (rfl | ⟨hx, hk⟩)
    · obtain ⟨y, hy, hky⟩ := hr
      exact ⟨y, hy, by simp [hky]⟩
    · exact ⟨x, hx, by simp [hk]⟩

theorem find?_put_self {t : Table key} {r : ρ} (hr : ∃ y ∈ t, key y = key r) :
    (t.put r).find? (key r) = some r :=
  find?_eq_some.2 ⟨(mem_put hr).2 (.inl rfl), rfl⟩

theorem find?_put_ne {t : Table key} {r : ρ} {k : κ} (hk : k ≠ key r) :
    (t.put r).find? k = t.find? k := by
  simp only [find?, put, List.find?_map]
  have hcomp : ((fun x => decide (key x = k)) ∘ fun x => if key x = key r then r else x)
      = fun x => decide (key x = k) := by
    funext x
    by_cases hx : key x = key r
    · simp [hx]
    · simp [hx]
  rw [hcomp]
  cases hf : t.rows.find? fun x => decide (key x = k) with
  | none => rfl
  | some y =>
    have hy : key y = k := by simpa using List.find?_some hf
    simp [hy, hk]

/-- The rows a condition selects are changed, their keys aside. -/
def update (t : Table key) (guard : ρ → Bool) (set : ρ → ρ) (hkey : ∀ r, key (set r) = key r) :
    Table key where
  rows := t.rows.map fun r => if guard r then set r else r
  nodup := by
    have hsame : (t.rows.map fun r => if guard r then set r else r).map key = t.rows.map key := by
      rw [List.map_map]
      refine List.map_congr_left fun r _ => ?_
      by_cases hr : guard r <;> simp [hr, hkey]
    rw [hsame]
    exact t.nodup

omit [DecidableEq κ] in
theorem mem_update {t : Table key} {guard : ρ → Bool} {set : ρ → ρ}
    {hkey : ∀ r, key (set r) = key r} {x : ρ} :
    x ∈ t.update guard set hkey ↔ ∃ r ∈ t, x = if guard r then set r else r := by
  change x ∈ t.rows.map _ ↔ _
  rw [List.mem_map]
  constructor
  · rintro ⟨r, hr, rfl⟩
    exact ⟨r, hr, rfl⟩
  · rintro ⟨r, hr, rfl⟩
    exact ⟨r, hr, rfl⟩

omit [DecidableEq κ] in
/-- An update that selects no row changes nothing. -/
theorem update_eq_self {t : Table key} {guard : ρ → Bool} {set : ρ → ρ}
    {hkey : ∀ r, key (set r) = key r} (h : ∀ r ∈ t, guard r = false) :
    t.update guard set hkey = t := by
  apply ext_rows
  show t.rows.map (fun r => if guard r then set r else r) = t.rows
  calc t.rows.map (fun r => if guard r then set r else r)
      = t.rows.map id := List.map_congr_left fun r hr => by simp [h r hr]
    _ = t.rows := List.map_id _

theorem find?_update {t : Table key} {guard : ρ → Bool} {set : ρ → ρ}
    {hkey : ∀ r, key (set r) = key r} {k : κ} :
    (t.update guard set hkey).find? k
      = (t.find? k).map fun r => if guard r then set r else r := by
  simp only [find?, update, List.find?_map]
  congr 2
  funext r
  by_cases hr : guard r <;> simp [hr, hkey]

private theorem filter_of_nodup {guard : ρ → Bool} {k : κ}
    (hguard : ∀ r, guard r = true → key r = k) :
    ∀ {rows : List ρ}, (rows.map key).Nodup →
      rows.filter guard = ((rows.find? fun r => key r = k).filter guard).toList
  | [], _ => rfl
  | r :: rows, hnodup => by
    rw [List.map_cons, List.nodup_cons] at hnodup
    have ih := filter_of_nodup hguard hnodup.2
    by_cases hk : key r = k
    · have hrest : rows.filter guard = [] := by
        refine List.filter_eq_nil_iff.2 fun x hx hgx => hnodup.1 ?_
        rw [hk, ← hguard x hgx]
        exact List.mem_map_of_mem hx
      by_cases hr : guard r <;> simp [hk, hr, hrest, Option.filter]
    · have hr : guard r = false := by
        by_contra hr
        exact hk (hguard r (by simpa using hr))
      simp only [List.filter_cons, hr, Bool.false_eq_true, ↓reduceIte, List.find?_cons, hk,
        decide_false]
      exact ih

/-- A condition that fixes the key selects the row of that key, or none. -/
theorem filter_rows {t : Table key} {guard : ρ → Bool} {k : κ}
    (hguard : ∀ r, guard r = true → key r = k) :
    t.rows.filter guard = ((t.find? k).filter guard).toList :=
  filter_of_nodup hguard t.nodup

/-- Add a row under a fresh key. -/
def insert? (t : Table key) (r : ρ) : Option (Table key) :=
  if h : key r ∈ t.rows.map key then none
  else some ⟨t.rows ++ [r], by
    rw [List.map_append, List.nodup_append]
    refine ⟨t.nodup, List.nodup_singleton _, ?_⟩
    intro a ha b hb hab
    rw [List.map_singleton, List.mem_singleton] at hb
    exact h (hb ▸ hab ▸ ha)⟩

theorem insert?_eq_some {t t' : Table key} {r : ρ} (h : t.insert? r = some t') :
    t.find? (key r) = none ∧ t'.rows = t.rows ++ [r] := by
  unfold insert? at h
  split at h
  · cases h
  · next hfresh =>
    refine ⟨find?_eq_none.2 fun x hx hk => hfresh ?_, by cases h; rfl⟩
    exact hk ▸ List.mem_map_of_mem hx

theorem mem_insert? {t t' : Table key} {r x : ρ} (h : t.insert? r = some t') :
    x ∈ t' ↔ x ∈ t ∨ x = r := by
  rw [← mem_rows, (insert?_eq_some h).2, List.mem_append, List.mem_singleton, mem_rows]

theorem find?_insert?_self {t t' : Table key} {r : ρ} (h : t.insert? r = some t') :
    t'.find? (key r) = some r :=
  find?_eq_some.2 ⟨(mem_insert? h).2 (.inr rfl), rfl⟩

theorem find?_insert?_ne {t t' : Table key} {r : ρ} {k : κ} (h : t.insert? r = some t')
    (hk : k ≠ key r) : t'.find? k = t.find? k := by
  unfold find?
  rw [(insert?_eq_some h).2, List.find?_append]
  simp [Ne.symm hk]

/-! ## Upsert -/

/-- The row of `r`'s key becomes `r`, and is added when there is none. -/
def upsert (t : Table key) (r : ρ) : Table key := (t.insert? r).getD (t.put r)

theorem insert?_eq_none {t : Table key} {r : ρ} (h : t.insert? r = none) :
    ∃ y ∈ t, key y = key r := by
  unfold insert? at h
  split at h
  · next htaken => exact List.mem_map.1 htaken
  · cases h

theorem insert?_of_taken {t : Table key} {r y : ρ} (h : t.find? (key r) = some y) :
    t.insert? r = none := by
  cases hinsert : t.insert? r with
  | none => rfl
  | some t' =>
    rw [(insert?_eq_some hinsert).1] at h
    cases h

theorem upsert_of_taken {t : Table key} {r y : ρ} (h : t.find? (key r) = some y) :
    t.upsert r = t.put r := by
  rw [upsert, insert?_of_taken h, Option.getD_none]

theorem mem_upsert {t : Table key} {r x : ρ} :
    x ∈ t.upsert r ↔ x = r ∨ (x ∈ t ∧ key x ≠ key r) := by
  unfold upsert
  cases hinsert : t.insert? r with
  | none => exact mem_put (insert?_eq_none hinsert)
  | some t' =>
    rw [Option.getD_some, mem_insert? hinsert, or_comm]
    refine or_congr_right ⟨fun hx => ⟨hx, ?_⟩, And.left⟩
    exact find?_eq_none.1 (insert?_eq_some hinsert).1 x hx

theorem find?_upsert_self {t : Table key} {r : ρ} : (t.upsert r).find? (key r) = some r :=
  find?_eq_some.2 ⟨mem_upsert.2 (.inl rfl), rfl⟩

theorem find?_upsert_of_key {t : Table key} {r : ρ} {k : κ} (hk : key r = k) :
    (t.upsert r).find? k = some r :=
  hk ▸ find?_upsert_self

theorem find?_upsert_ne {t : Table key} {r : ρ} {k : κ} (hk : k ≠ key r) :
    (t.upsert r).find? k = t.find? k := by
  unfold upsert
  cases hinsert : t.insert? r with
  | none => exact find?_put_ne hk
  | some t' => exact find?_insert?_ne hinsert hk

/-- Of two writes under one key the second stands. -/
theorem upsert_upsert {t : Table key} {a b : ρ} (hk : key a = key b) :
    (t.upsert a).upsert b = t.upsert b := by
  have htaken : (t.upsert a).find? (key b) = some a := by rw [← hk, find?_upsert_self]
  rw [upsert_of_taken htaken]
  unfold upsert
  cases ha : t.insert? a with
  | none =>
    have hb : t.insert? b = none := by
      obtain ⟨y, hy, hya⟩ := insert?_eq_none ha
      exact insert?_of_taken (find?_eq_some.2 ⟨hy, hya.trans hk⟩)
    rw [hb]
    refine ext_rows ?_
    simp only [Option.getD_none, put, List.map_map]
    refine List.map_congr_left fun x _ => ?_
    by_cases hx : key x = key b <;> simp [hk, hx]
  | some t' =>
    have hfresh : t.find? (key b) = none := hk ▸ (insert?_eq_some ha).1
    cases hb : t.insert? b with
    | none =>
      obtain ⟨y, hy, hyb⟩ := insert?_eq_none hb
      exact absurd hyb (find?_eq_none.1 hfresh y hy)
    | some t'' =>
      refine ext_rows ?_
      simp only [Option.getD_some, put, (insert?_eq_some ha).2, (insert?_eq_some hb).2,
        List.map_append, List.map_singleton, hk, ↓reduceIte]
      refine congrArg (· ++ [b]) ((List.map_congr_left fun x hx => ?_).trans (List.map_id' _))
      simp [find?_eq_none.1 hfresh x hx]

/-- `UPDATE … SET … WHERE key = k AND guard RETURNING …`: the row as written, if one was.
With a row the table's conditions reject, the statement raises. -/
def updateRow (checks : ρ → Bool) (t : Table key) (k : κ) (guard : ρ → Bool) (set : ρ → ρ) :
    Option (Option ρ × Table key) :=
  match t.find? k with
  | none => some (none, t)
  | some r =>
    if guard r then
      if checks (set r) then some (some (set r), t.upsert (set r)) else none
    else some (none, t)

theorem updateRow_eq_some {checks guard : ρ → Bool} {set : ρ → ρ} {t t' : Table key} {k : κ}
    {returned : Option ρ} (h : t.updateRow checks k guard set = some (returned, t')) :
    (returned = none ∧ t' = t ∧ ∀ r, t.find? k = some r → guard r = false) ∨
    ∃ r, t.find? k = some r ∧ guard r = true ∧ checks (set r) = true ∧
      returned = some (set r) ∧ t' = t.upsert (set r) := by
  unfold updateRow at h
  cases hfind : t.find? k with
  | none =>
    rw [hfind] at h
    cases h
    exact .inl ⟨rfl, rfl, fun r hr => by cases hr⟩
  | some r =>
    simp only [hfind] at h
    split at h
    · next hguard =>
      split at h
      · next hchecks =>
        cases h
        exact .inr ⟨r, rfl, hguard, hchecks, rfl, rfl⟩
      · cases h
    · next hguard =>
      cases h
      refine .inl ⟨rfl, rfl, fun r' hr' => ?_⟩
      cases hr'
      simpa using hguard

/-- An update depends on what it writes only at the row it selects. -/
theorem updateRow_congr {checks guard : ρ → Bool} {set set' : ρ → ρ} {t : Table key} {k : κ}
    (h : ∀ r, t.find? k = some r → guard r = true → set r = set' r) :
    t.updateRow checks k guard set = t.updateRow checks k guard set' := by
  unfold updateRow
  cases hfind : t.find? k with
  | none => rfl
  | some r =>
    by_cases hguard : guard r
    · simp only [hguard, ↓reduceIte, h r hfind hguard]
    · simp only [hguard, Bool.false_eq_true, ↓reduceIte]

/-! ## Filter and delete -/

omit [DecidableEq κ] in
theorem nodup_filter (t : Table key) (p : ρ → Bool) : ((t.rows.filter p).map key).Nodup :=
  t.nodup.sublist (List.filter_sublist.map key)

/-- The rows a condition keeps. -/
def filter (t : Table key) (p : ρ → Bool) : Table key := ⟨t.rows.filter p, t.nodup_filter p⟩

omit [DecidableEq κ] in
theorem mem_filter {t : Table key} {p : ρ → Bool} {r : ρ} :
    r ∈ t.filter p ↔ r ∈ t ∧ p r = true := List.mem_filter

omit [DecidableEq κ] in
/-- A condition that fixes the key selects at most one row. -/
theorem filter_length_le_one {t : Table key} {p : ρ → Bool}
    (h : ∀ r ∈ t, ∀ r' ∈ t, p r = true → p r' = true → key r = key r') :
    (t.rows.filter p).length ≤ 1 := by
  have hnodup := t.nodup_filter p
  have hsame : ∀ r ∈ t.rows.filter p, ∀ r' ∈ t.rows.filter p, key r = key r' := by
    intro r hr r' hr'
    obtain ⟨hr, hp⟩ := List.mem_filter.1 hr
    obtain ⟨hr', hp'⟩ := List.mem_filter.1 hr'
    exact h r hr r' hr' hp hp'
  generalize t.rows.filter p = selected at hnodup hsame
  rcases selected with _ | ⟨first, _ | ⟨second, rest⟩⟩
  · exact Nat.zero_le _
  · exact Nat.le_refl _
  · have hkey := hsame first List.mem_cons_self second (List.mem_cons_of_mem _ List.mem_cons_self)
    simp [hkey] at hnodup

theorem find?_filter {t : Table key} {p : ρ → Bool} {k : κ} :
    (t.filter p).find? k = (t.find? k).filter p := by
  apply Option.ext
  intro r
  rw [Option.filter_eq_some_iff, find?_eq_some, find?_eq_some, mem_filter]
  constructor
  · rintro ⟨⟨hr, hp⟩, hk⟩
    exact ⟨⟨hr, hk⟩, hp⟩
  · rintro ⟨⟨hr, hk⟩, hp⟩
    exact ⟨⟨hr, hp⟩, hk⟩

/-- The row of a key goes. -/
def delete (t : Table key) (k : κ) : Table key := t.filter fun r => key r ≠ k

theorem find?_delete {t : Table key} {k l : κ} :
    (t.delete k).find? l = if l = k then none else t.find? l := by
  rw [delete, find?_filter]
  cases hfind : t.find? l with
  | none => simp
  | some r =>
    have hr : key r = l := find?_key hfind
    by_cases hl : l = k
    · simp [Option.filter, hr, hl]
    · simp [Option.filter, hr, hl]

/-! ## Totals and counts -/

omit [DecidableEq κ] in
/-- The sum of a weight over the rows. -/
def total (t : Table key) (weight : ρ → Int) : Int := (t.rows.map weight).sum

omit [DecidableEq κ] in
@[simp] theorem total_empty (weight : ρ → Int) : (empty : Table key).total weight = 0 := rfl

omit [DecidableEq κ] in
theorem total_eq_zero {t : Table key} {weight : ρ → Int} (h : ∀ r ∈ t, weight r = 0) :
    t.total weight = 0 := by
  refine List.sum_eq_zero fun x hx => ?_
  obtain ⟨r, hr, rfl⟩ := List.mem_map.1 hx
  exact h r hr

omit [DecidableEq κ] in
theorem total_congr {t : Table key} {weight weight' : ρ → Int}
    (h : ∀ r ∈ t, weight r = weight' r) : t.total weight = t.total weight' :=
  congrArg List.sum (List.map_congr_left h)

omit [DecidableEq κ] in
theorem total_add {t : Table key} {weight weight' : ρ → Int} :
    t.total (fun r => weight r + weight' r) = t.total weight + t.total weight' :=
  List.sum_map_add

/-- How replacing one row changes a total. -/
theorem total_put {t : Table key} {r y : ρ} (hy : y ∈ t) (hk : key y = key r)
    (weight : ρ → Int) : (t.put r).total weight + weight y = t.total weight + weight r := by
  obtain ⟨front, back, hrows⟩ := List.append_of_mem (mem_rows.2 hy)
  have hnodup := t.nodup
  rw [hrows, List.map_append, List.map_cons, List.nodup_append] at hnodup
  obtain ⟨-, hback, hfront⟩ := hnodup
  have hother : ∀ x ∈ front ++ back, key x ≠ key r := by
    intro x hx hxr
    rcases List.mem_append.1 hx with hx | hx
    · exact hfront (key x) (List.mem_map_of_mem hx) (key y) (by simp) (hxr.trans hk.symm)
    · exact (List.nodup_cons.1 hback).1 (hk.trans hxr.symm ▸ List.mem_map_of_mem hx)
  have hkeep : ∀ l : List ρ, (∀ x ∈ l, key x ≠ key r) →
      (l.map fun x => if key x = key r then r else x) = l := by
    intro l hl
    exact (List.map_congr_left fun x hx => by simp [hl x hx]).trans (List.map_id' l)
  have hput : (t.put r).rows = front ++ r :: back := by
    simp only [put, hrows, List.map_append, List.map_cons, hk, ↓reduceIte]
    rw [hkeep front fun x hx => hother x (List.mem_append_left _ hx),
      hkeep back fun x hx => hother x (List.mem_append_right _ hx)]
  simp only [total, hput, hrows, List.map_append, List.map_cons, List.sum_append, List.sum_cons]
  omega

/-- How writing one row changes a total. -/
theorem total_upsert {t : Table key} {r : ρ} (weight : ρ → Int) :
    (t.upsert r).total weight + ((t.find? (key r)).map weight).getD 0
      = t.total weight + weight r := by
  cases hfind : t.find? (key r) with
  | some y =>
    rw [upsert_of_taken hfind]
    exact total_put (find?_eq_some.1 hfind).1 (find?_key hfind) weight
  | none =>
    unfold upsert
    cases hinsert : t.insert? r with
    | none =>
      obtain ⟨y, hy, hk⟩ := insert?_eq_none hinsert
      exact absurd hk (find?_eq_none.1 hfind y hy)
    | some t' =>
      simp only [total, Option.getD_some, (insert?_eq_some hinsert).2, List.map_append,
        List.map_singleton, List.sum_append, List.sum_singleton, Option.map_none, Option.getD_none,
        Int.add_zero]

/-- How many rows satisfy a condition. -/
def count (t : Table key) (p : ρ → Bool) : Nat := t.rows.countP p

omit [DecidableEq κ] in
@[simp] theorem count_empty (p : ρ → Bool) : (empty : Table key).count p = 0 := rfl

omit [DecidableEq κ] in
theorem count_pos {t : Table key} {p : ρ → Bool} {r : ρ} (hr : r ∈ t) (hp : p r = true) :
    0 < t.count p :=
  List.countP_pos_iff.2 ⟨r, hr, hp⟩

omit [DecidableEq κ] in
/-- A count is the total of a weight of one. -/
theorem count_eq_total {t : Table key} {p : ρ → Bool} :
    (t.count p : Int) = t.total fun r => if p r then 1 else 0 := by
  unfold count total
  induction t.rows with
  | nil => rfl
  | cons r rows ih =>
    by_cases hr : p r
    · simp [hr, ih]
      omega
    · simp [hr, ih]

/-- How writing one row changes a count. -/
theorem count_upsert {t : Table key} {r : ρ} (p : ρ → Bool) :
    (t.upsert r).count p + (if (t.find? (key r)).any p then 1 else 0)
      = t.count p + (if p r then 1 else 0) := by
  have htotal := total_upsert (t := t) (r := r) fun x => if p x then 1 else 0
  rw [← count_eq_total, ← count_eq_total] at htotal
  cases hfind : t.find? (key r) with
  | none =>
    simp only [hfind, Option.map_none, Option.getD_none] at htotal
    simp only [Option.any_none, Bool.false_eq_true, ↓reduceIte]
    split_ifs at htotal ⊢ <;> omega
  | some y =>
    simp only [hfind, Option.map_some, Option.getD_some] at htotal
    simp only [Option.any_some]
    split_ifs at htotal ⊢ <;> omega

/-- A weight that only the row of one key has is that row's. -/
theorem total_of_key {t : Table key} {weight : ρ → Int} {k : κ}
    (h : ∀ r ∈ t, key r ≠ k → weight r = 0) :
    t.total weight = ((t.find? k).map weight).getD 0 := by
  have hrows : ∀ {rows : List ρ}, (rows.map key).Nodup →
      (∀ r ∈ rows, key r ≠ k → weight r = 0) →
      (rows.map weight).sum = ((rows.find? fun r => key r = k).map weight).getD 0 := by
    intro rows hnodup hzero
    induction rows with
    | nil => rfl
    | cons r rows ih =>
      rw [List.map_cons, List.nodup_cons] at hnodup
      have hrest := ih hnodup.2 fun x hx => hzero x (List.mem_cons_of_mem _ hx)
      by_cases hk : key r = k
      · have hnone : rows.find? (fun x => decide (key x = k)) = none := by
          refine List.find?_eq_none.2 fun x hx hxk => hnodup.1 ?_
          rw [hk, ← of_decide_eq_true hxk]
          exact List.mem_map_of_mem hx
        rw [hnone] at hrest
        simp [hk, hrest]
      · simp [hk, hzero r List.mem_cons_self hk, hrest]
  exact hrows t.nodup h

/-- A weight that only the rows of two keys have is theirs together. -/
theorem total_of_keys {t : Table key} {weight : ρ → Int} {k l : κ} (hne : k ≠ l)
    (h : ∀ r ∈ t, key r ≠ k → key r ≠ l → weight r = 0) :
    t.total weight = ((t.find? k).map weight).getD 0 + ((t.find? l).map weight).getD 0 := by
  have hsplit : t.total weight = t.total fun r =>
      (if key r = k then weight r else 0) + if key r = l then weight r else 0 := by
    refine total_congr fun r hr => ?_
    by_cases hk : key r = k
    · simp [hk, hne]
    · by_cases hl : key r = l
      · simp [hl, Ne.symm hne]
      · simp [hk, hl, h r hr hk hl]
  have hat : ∀ k, t.total (fun r => if key r = k then weight r else 0)
      = ((t.find? k).map weight).getD 0 := by
    intro k
    rw [total_of_key (k := k) fun r _ hr => if_neg hr]
    cases hfind : t.find? k with
    | none => rfl
    | some r => simp [find?_key hfind]
  rw [hsplit, total_add, hat, hat]

end Table

end Tables
