import Mathlib.Data.List.Nodup
import Mathlib.Data.List.Count

/-!
Rows that may each link to one other row by its key. In an append-only log links point
backwards, so they never form a cycle.

Proved here:
* `backward_append`: what appending a row asks for;
* `Backward.exists_rank`: the rows before a row bound a rank that links decrease;
* `depth_lt_length` and `depth_lt`: any such rank is bounded by the number of rows;
* `visitAll_spec`: visiting keys depth first places each once, after what it links to.
-/

namespace Links

variable {ρ κ : Type} (key : ρ → κ) (link : ρ → Option κ)

/-- Every row links to an earlier row, if to any. -/
def Backward (rows : List ρ) : Prop :=
  ∀ front row back, rows = front ++ row :: back → ∀ k, link row = some k →
    ∃ original ∈ front, key original = k

theorem backward_nil : Backward key link [] := by
  intro front row back h
  cases front <;> cases h

theorem backward_append {rows : List ρ} {r : ρ} : Backward key link (rows ++ [r]) ↔
    Backward key link rows ∧ ∀ k, link r = some k → ∃ original ∈ rows, key original = k := by
  constructor
  · intro h
    refine ⟨fun front row back heq => ?_, h rows r [] rfl⟩
    exact h front row (back ++ [r]) (by rw [heq, List.append_assoc, List.cons_append])
  · rintro ⟨h, hr⟩ front row back heq
    rcases List.eq_nil_or_concat back with rfl | ⟨back', last, rfl⟩
    · obtain ⟨rfl, hlast⟩ := List.append_inj' heq rfl
      cases hlast
      exact hr
    · rw [List.concat_eq_append, ← List.cons_append, ← List.append_assoc] at heq
      exact h front row back' (List.append_inj' heq rfl).1

variable {key link}

theorem Backward.original {rows : List ρ} (h : Backward key link rows) {row : ρ} {k : κ}
    (hrow : row ∈ rows) (hk : link row = some k) : ∃ original ∈ rows, key original = k := by
  obtain ⟨front, back, rfl⟩ := List.append_of_mem hrow
  obtain ⟨original, hmem, hkey⟩ := h front row back rfl k hk
  exact ⟨original, List.mem_append_left _ hmem, hkey⟩

theorem Backward.exists_rank [DecidableEq κ] {rows : List ρ} (h : Backward key link rows)
    (hnodup : (rows.map key).Nodup) : ∃ rank : κ → Nat, ∀ row ∈ rows, ∀ k, link row = some k →
      rank k < rank (key row) := by
  refine ⟨fun k => (rows.map key).idxOf k, fun row hrow k hk => ?_⟩
  obtain ⟨front, back, rfl⟩ := List.append_of_mem hrow
  obtain ⟨original, hmem, rfl⟩ := h front row back rfl k hk
  rw [List.map_append, List.map_cons] at hnodup
  simp only [List.map_append, List.map_cons]
  have hself : key row ∉ front.map key := fun hin =>
    List.disjoint_of_nodup_append hnodup hin (List.mem_cons_self ..)
  rw [List.idxOf_append_of_mem (List.mem_map_of_mem hmem), List.idxOf_append_of_notMem hself,
    List.idxOf_cons_self, Nat.add_zero]
  exact List.idxOf_lt_length_of_mem (List.mem_map_of_mem hmem)

/-- How many of the rows rank below a key. -/
def depth (key : ρ → κ) (rank : κ → Nat) (rows : List ρ) (k : κ) : Nat :=
  rows.countP fun row => rank (key row) < rank k

theorem depth_lt_length (key : ρ → κ) (rank : κ → Nat) {rows : List ρ} {row : ρ} (hrow : row ∈ rows) :
    depth key rank rows (key row) < rows.length := by
  refine Nat.lt_of_le_of_ne List.countP_le_length fun heq => ?_
  have hall := List.countP_eq_length.1 heq row hrow
  simp at hall

theorem depth_lt {rank : κ → Nat} {rows : List ρ} {row : ρ} {k : κ} (hrow : row ∈ rows)
    (hk : rank (key row) < rank k) :
    depth key rank rows (key row) < depth key rank rows k := by
  unfold depth
  induction rows with
  | nil => cases hrow
  | cons head tail ih =>
    have hmono : tail.countP (fun r => rank (key r) < rank (key row))
        ≤ tail.countP fun r => rank (key r) < rank k := by
      apply List.countP_mono_left
      intro r _ hr
      simp only [decide_eq_true_eq] at hr ⊢
      omega
    simp only [List.countP_cons, decide_eq_true_eq]
    rcases List.mem_cons.1 hrow with rfl | htail
    · rw [if_neg (Nat.lt_irrefl _), if_pos hk]
      omega
    · have := ih htail
      split_ifs <;> omega

/-! ## Depth first -/

variable [DecidableEq κ]

/-- `k` after what it links to. The keys entered so far are passed over. -/
def visit (next : κ → Option κ) : Nat → List κ → κ → List κ × List κ
  | 0, entered, _ => (entered, [])
  | fuel + 1, entered, k =>
    if k ∈ entered then (entered, [])
    else match next k with
      | none => (k :: entered, [k])
      | some original =>
        let (entered, order) := visit next fuel (k :: entered) original
        (entered, order ++ [k])

def visitAll (next : κ → Option κ) (fuel : Nat) (keys : List κ) : List κ × List κ :=
  keys.foldl (fun (entered, order) k =>
    let (entered, more) := visit next fuel entered k
    (entered, order ++ more)) ([], [])

/-- `order` goes on from `placed`: no key twice, and each after what it links to. -/
structure Placed (next : κ → Option κ) (placed order : List κ) : Prop where
  nodup : (placed ++ order).Nodup
  after : ∀ front k back, order = front ++ k :: back → ∀ original, next k = some original →
    original ∈ placed ++ front

variable {next : κ → Option κ} {placed order order' : List κ}

omit [DecidableEq κ] in
theorem Placed.nil (h : placed.Nodup) : Placed next placed [] := by
  refine ⟨by rwa [List.append_nil], fun front k back heq => ?_⟩
  cases front <;> cases heq

omit [DecidableEq κ] in
theorem Placed.append (h : Placed next placed order) (h' : Placed next (placed ++ order) order') :
    Placed next placed (order ++ order') := by
  refine ⟨by rw [← List.append_assoc]; exact h'.nodup, fun front k back heq original hnext => ?_⟩
  rcases List.append_eq_append_iff.1 heq with ⟨front', rfl, htail⟩ | ⟨back', rfl, htail⟩
  · rw [← List.append_assoc]
    exact h'.after front' k back htail original hnext
  · cases back' with
    | nil =>
      have hin := h'.after [] k back (by simpa using htail.symm) original hnext
      simpa using hin
    | cons head tail =>
      rw [List.cons_append] at htail
      cases htail
      exact h.after front k tail rfl original hnext

omit [DecidableEq κ] in
theorem Placed.singleton {k : κ} (hnodup : placed.Nodup) (hk : k ∉ placed)
    (hnext : ∀ original, next k = some original → original ∈ placed) : Placed next placed [k] := by
  refine ⟨?_, fun front k' back heq original h => ?_⟩
  · rw [← List.concat_eq_append]
    exact List.Nodup.concat hk hnodup
  · cases front with
    | nil =>
      cases heq
      simpa using hnext original h
    | cons head tail =>
      have hlength := congrArg List.length heq
      simp only [List.length_cons, List.length_append, List.length_nil] at hlength
      omega

/-- What visiting one key leaves. -/
structure Visited (next : κ → Option κ) (rank : κ → Nat) (entered placed : List κ) (k : κ)
    (result : List κ × List κ) : Prop where
  goesOn : Placed next placed result.2
  enters : ∀ d, d ∈ result.1 ↔ d ∈ entered ∨ d ∈ result.2
  reached : k ∈ placed ++ result.2
  below : ∀ d ∈ result.2, rank d ≤ rank k
  closed : ∀ set : Set κ, (∀ d ∈ set, ∀ original, next d = some original → original ∈ set) →
    k ∈ set → ∀ d ∈ result.2, d ∈ set

theorem visit_spec {rank : κ → Nat} (hrank : ∀ k original, next k = some original →
    rank original < rank k) {fuel : Nat} {entered : List κ} {k : κ} (hfuel : rank k < fuel)
    (hplaced : ∀ d ∈ entered, rank d ≤ rank k → d ∈ placed) (hsub : ∀ d ∈ placed, d ∈ entered)
    (hnodup : placed.Nodup) :
    Visited next rank entered placed k (visit next fuel entered k) := by
  induction fuel generalizing entered k with
  | zero => exact absurd hfuel (Nat.not_lt_zero _)
  | succ fuel ih =>
    by_cases hk : k ∈ entered
    · simp only [visit, if_pos hk]
      exact ⟨.nil hnodup, by simp, by simpa using hplaced k hk (Nat.le_refl _), by simp, by simp⟩
    have hnot : k ∉ placed := fun h => hk (hsub k h)
    cases hnext : next k with
    | none =>
      simp only [visit, if_neg hk, hnext]
      refine ⟨.singleton hnodup hnot (by simp [hnext]), fun d => ?_, by simp, by simp, ?_⟩
      · simp only [List.mem_cons, List.not_mem_nil, or_false]
        exact Or.comm
      · intro set _ hmem d hd
        rwa [List.mem_singleton.1 hd]
    | some original =>
      have hlt := hrank k original hnext
      have hin : Visited next rank (k :: entered) placed original
          (visit next fuel (k :: entered) original) := ih (by omega)
        (fun d hd hle => by
          rcases List.mem_cons.1 hd with rfl | hd
          · omega
          · exact hplaced d hd (by omega))
        (fun d hd => List.mem_cons_of_mem _ (hsub d hd))
      simp only [visit, if_neg hk, hnext]
      generalize visit next fuel (k :: entered) original = result at hin
      have hafter : k ∉ placed ++ result.2 := by
        intro hmem
        rcases List.mem_append.1 hmem with hmem | hmem
        · exact hnot hmem
        · have := hin.below k hmem
          omega
      refine ⟨hin.goesOn.append (.singleton hin.goesOn.nodup hafter ?_), fun d => ?_, by simp,
        fun d hd => ?_, fun set hclosed hmem d hd => ?_⟩
      · intro original' heq
        rw [hnext] at heq
        cases heq
        exact hin.reached
      · rw [hin.enters]
        simp only [List.mem_cons, List.mem_append, List.not_mem_nil, or_false]
        tauto
      · rcases List.mem_append.1 hd with hd | hd
        · have := hin.below d hd
          omega
        · exact Nat.le_of_eq (congrArg rank (List.mem_singleton.1 hd))
      · rcases List.mem_append.1 hd with hd | hd
        · exact hin.closed set hclosed (hclosed k hmem original hnext) d hd
        · rwa [List.mem_singleton.1 hd]

/-- Visiting a set of keys that is closed under links lists it, each key after its link. -/
theorem visitAll_spec {rank : κ → Nat} (hrank : ∀ k original, next k = some original →
    rank original < rank k) (fuel : Nat) (keys : List κ) (hfuel : ∀ k ∈ keys, rank k < fuel)
    (hkeys : keys.Nodup)
    (hclosed : ∀ k ∈ keys, ∀ original, next k = some original → original ∈ keys) :
    Placed next [] (visitAll next fuel keys).2 ∧ (visitAll next fuel keys).2.Perm keys := by
  have hall : ∀ (rest entered order : List κ), Placed next [] order → (∀ d, d ∈ entered ↔ d ∈ order) →
      (∀ k ∈ rest, k ∈ keys) → (∀ d ∈ order, d ∈ keys) →
      let result := rest.foldl (fun (entered, order) k =>
        let (entered, more) := visit next fuel entered k
        (entered, order ++ more)) (entered, order)
      Placed next [] result.2 ∧ (∀ d ∈ result.2, d ∈ keys) ∧ (∀ d ∈ order, d ∈ result.2) ∧
        ∀ k ∈ rest, k ∈ result.2 := by
    intro rest
    induction rest with
    | nil =>
      intro entered order hplaced hentered _ hsub
      exact ⟨hplaced, hsub, fun d hd => hd, by simp⟩
    | cons k rest ih =>
      intro entered order hplaced hentered hrest hsub
      have hvisited : Visited next rank entered order k (visit next fuel entered k) :=
        visit_spec hrank (hfuel k (hrest k (by simp))) (fun d hd _ => (hentered d).1 hd)
          (fun d hd => (hentered d).2 hd) (by simpa using hplaced.nodup)
      simp only [List.foldl_cons]
      generalize visit next fuel entered k = result at hvisited
      obtain ⟨hdone, hin, hkept, hmem⟩ := ih result.1 (order ++ result.2)
        (hplaced.append (by simpa using hvisited.goesOn))
        (fun d => by rw [hvisited.enters, hentered, List.mem_append])
        (fun k' hk' => hrest k' (List.mem_cons_of_mem _ hk'))
        (fun d hd => by
          rcases List.mem_append.1 hd with hd | hd
          · exact hsub d hd
          · exact hvisited.closed {d | d ∈ keys} hclosed (hrest k (by simp)) d hd)
      refine ⟨hdone, hin, fun d hd => hkept d (List.mem_append_left _ hd), fun k' hk' => ?_⟩
      rcases List.mem_cons.1 hk' with rfl | hk'
      · exact hkept _ hvisited.reached
      · exact hmem k' hk'
  obtain ⟨hplaced, hin, -, hmem⟩ := hall keys [] [] (.nil List.nodup_nil) (by simp)
    (fun _ h => h) (by simp)
  have hnodup := hplaced.nodup
  rw [List.nil_append] at hnodup
  exact ⟨hplaced, (List.perm_ext_iff_of_nodup hnodup hkeys).2 fun d => ⟨hin d, hmem d⟩⟩

end Links
