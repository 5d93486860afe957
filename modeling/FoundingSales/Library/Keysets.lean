import Mathlib.Data.List.Nodup
import Mathlib.Order.Defs.LinearOrder
import Mathlib.Data.List.Sort

/-!
Keyset reads: rows in the order of a key, read page by page past a stored position. Rows
may be added in any order, as long as they are added past the position.

Proved here:
* `read_append_unread`: what has been read and what has not are the whole stream;
* `read_advance`: after a page, what has been read is what had been read and the page;
* `read_grown`: rows added past the position leave what has been read alone.
-/

namespace Keysets

variable {ρ κ : Type*} [LinearOrder κ]

/-- Past a position; everything is past none. -/
def Past (position : Option κ) (k : κ) : Prop := ∀ p ∈ position, p < k

instance (position : Option κ) (k : κ) : Decidable (Past position k) :=
  inferInstanceAs (Decidable (∀ p ∈ position, p < k))

@[simp] theorem past_none (k : κ) : Past none k := fun _ h => by cases h

@[simp] theorem past_some {p k : κ} : Past (some p) k ↔ p < k := by simp [Past]

theorem Past.trans_le {position : Option κ} {k l : κ} (hk : Past position k) (hle : k ≤ l) :
    Past position l :=
  fun p hp => lt_of_lt_of_le (hk p hp) hle

/-- The later of two positions is no earlier. -/
def NotAfter (position position' : Option κ) : Prop := ∀ k, Past position' k → Past position k

theorem NotAfter.refl (position : Option κ) : NotAfter position position := fun _ hk => hk

theorem NotAfter.trans {a b c : Option κ} (hab : NotAfter a b) (hbc : NotAfter b c) :
    NotAfter a c :=
  fun k hk => hab k (hbc k hk)

/-- A position that something is past of is not after it. -/
theorem Past.notAfter {position : Option κ} {k : κ} (h : Past position k) :
    NotAfter position (some k) :=
  fun _ hl => h.trans_le (le_of_lt (past_some.1 hl))

variable (key : ρ → κ)

/-- The rows in the order of their keys. -/
def ordered (rows : List ρ) : List ρ := rows.insertionSort fun a b => key a ≤ key b

def unread (position : Option κ) (rows : List ρ) : List ρ :=
  (ordered key rows).filter fun r => Past position (key r)

def read (position : Option κ) (rows : List ρ) : List ρ :=
  (ordered key rows).filter fun r => ¬ Past position (key r)

/-- The position after a page. -/
def advance (position : Option κ) (page : List ρ) : Option κ :=
  (page.getLast?.map key).or position

variable {key}

theorem mem_ordered {rows : List ρ} {r : ρ} : r ∈ ordered key rows ↔ r ∈ rows :=
  List.mem_insertionSort _

theorem mem_unread {position : Option κ} {rows : List ρ} {r : ρ} :
    r ∈ unread key position rows ↔ r ∈ rows ∧ Past position (key r) := by
  simp [unread, mem_ordered]

theorem mem_read {position : Option κ} {rows : List ρ} {r : ρ} :
    r ∈ read key position rows ↔ r ∈ rows ∧ ¬ Past position (key r) := by
  simp [read, mem_ordered]

theorem read_none (rows : List ρ) : read key none rows = [] := by
  simp [read]

theorem ordered_le (rows : List ρ) : (ordered key rows).Pairwise fun a b => key a ≤ key b := by
  have : Std.Total fun a b : ρ => key a ≤ key b := ⟨fun a b => le_total (key a) (key b)⟩
  have : IsTrans ρ fun a b => key a ≤ key b := ⟨fun _ _ _ hab hbc => le_trans hab hbc⟩
  exact List.pairwise_insertionSort _ rows

/-- With distinct keys the order is strict. -/
theorem ordered_lt {rows : List ρ} (hnodup : (rows.map key).Nodup) :
    (ordered key rows).Pairwise fun a b => key a < key b := by
  have hkeys : ((ordered key rows).map key).Nodup :=
    (((List.perm_insertionSort _ rows).map key).nodup_iff).2 hnodup
  have hne : (ordered key rows).Pairwise fun a b => key a ≠ key b := List.pairwise_map.1 hkeys
  exact (ordered_le rows).imp₂ (fun _ _ hle hne => lt_of_le_of_ne hle hne) hne

/-- Strictly ordered lists of the same rows are equal. -/
theorem eq_of_ordered {rows rows' : List ρ} (h : rows.Pairwise fun a b => key a < key b)
    (h' : rows'.Pairwise fun a b => key a < key b) (hmem : ∀ r, r ∈ rows ↔ r ∈ rows') :
    rows = rows' := by
  have : Std.Irrefl fun a b : ρ => key a < key b := ⟨fun a => lt_irrefl (key a)⟩
  have : Std.Antisymm fun a b : ρ => key a < key b :=
    ⟨fun a b hab hba => absurd hba (lt_asymm hab)⟩
  exact List.Pairwise.eq_of_mem_iff h h' hmem

/-- In order, what a position has passed comes before what is past it. -/
private theorem filter_append_filter {position : Option κ} {rows : List ρ}
    (h : rows.Pairwise fun a b => key a ≤ key b) :
    (rows.filter fun r => ¬ Past position (key r)) ++ (rows.filter fun r => Past position (key r))
      = rows := by
  induction rows with
  | nil => rfl
  | cons r rows ih =>
    rw [List.pairwise_cons] at h
    by_cases hr : Past position (key r)
    · have hall : ∀ r' ∈ rows, Past position (key r') := fun r' hr' => hr.trans_le (h.1 r' hr')
      have hnone : (rows.filter fun r => ¬ Past position (key r)) = [] := by
        rw [List.filter_eq_nil_iff]
        intro r' hr'
        simpa using hall r' hr'
      have hevery : (rows.filter fun r => Past position (key r)) = rows := by
        rw [List.filter_eq_self]
        intro r' hr'
        simpa using hall r' hr'
      rw [List.filter_cons_of_neg (by simpa using hr), List.filter_cons_of_pos (by simpa using hr),
        hnone, hevery, List.nil_append]
    · rw [List.filter_cons_of_pos (by simpa using hr), List.filter_cons_of_neg (by simpa using hr),
        List.cons_append, ih h.2]

/-- What has been read and what has not are the stream, in order. -/
theorem read_append_unread (position : Option κ) (rows : List ρ) :
    read key position rows ++ unread key position rows = ordered key rows :=
  filter_append_filter (ordered_le rows)

section Distinct

variable {rows : List ρ} (hnodup : (rows.map key).Nodup)

include hnodup

theorem read_lt (position : Option κ) :
    (read key position rows).Pairwise fun a b => key a < key b :=
  (ordered_lt hnodup).filter _

/-- A page read past the position joins what has been read. -/
theorem read_advance (position : Option κ) (n : Nat) :
    read key (advance key position ((unread key position rows).take n)) rows
      = read key position rows ++ (unread key position rows).take n := by
  have hwhole := ordered_lt hnodup
  rw [← read_append_unread position rows] at hwhole
  have hsplit : read key position rows ++ (unread key position rows).take n
      ++ (unread key position rows).drop n = ordered key rows := by
    rw [List.append_assoc, List.take_append_drop, read_append_unread]
  cases hlast : ((unread key position rows).take n).getLast? with
  | none =>
    rw [List.getLast?_eq_none_iff] at hlast
    rw [hlast, List.append_nil]
    rfl
  | some last =>
    rw [advance, hlast, Option.map_some, Option.some_or]
    obtain ⟨front, hfront⟩ := List.getLast?_eq_some_iff.1 hlast
    rw [hfront] at hsplit ⊢
    have horder := ordered_lt hnodup
    rw [← hsplit] at horder
    obtain ⟨hpage, -, hbetween⟩ := List.pairwise_append.1 horder
    rw [read, ← hsplit, List.filter_append]
    have hkept : ((read key position rows ++ (front ++ [last])).filter
        fun r => ¬ Past (some (key last)) (key r)) = read key position rows ++ (front ++ [last]) := by
      rw [List.filter_eq_self]
      intro r hr
      rw [← List.append_assoc] at hr hpage
      have hle : key r ≤ key last := by
        rcases List.mem_append.1 hr with hr | hr
        · exact le_of_lt ((List.pairwise_append.1 hpage).2.2 r hr last (List.mem_singleton_self _))
        · rw [List.mem_singleton.1 hr]
      simpa using hle
    have hdropped : (((unread key position rows).drop n).filter
        fun r => ¬ Past (some (key last)) (key r)) = [] := by
      rw [List.filter_eq_nil_iff]
      intro r hr
      have hlt := hbetween last (by simp) r hr
      simpa using hlt
    rw [hkept, hdropped, List.append_nil]

end Distinct

/-- Rows added past the position leave what has been read alone. -/
theorem read_grown {rows rows' : List ρ} {position : Option κ} (hnodup : (rows.map key).Nodup)
    (hnodup' : (rows'.map key).Nodup) (hkept : ∀ r ∈ rows, r ∈ rows')
    (hadded : ∀ r ∈ rows', r ∈ rows ∨ Past position (key r)) :
    read key position rows' = read key position rows := by
  apply eq_of_ordered (read_lt hnodup' position) (read_lt hnodup position)
  intro r
  simp only [mem_read]
  constructor
  · rintro ⟨hr, hread⟩
    rcases hadded r hr with hr | hpast
    · exact ⟨hr, hread⟩
    · exact absurd hpast hread
  · rintro ⟨hr, hread⟩
    exact ⟨hkept r hr, hread⟩

end Keysets
