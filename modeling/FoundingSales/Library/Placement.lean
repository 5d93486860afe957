import Mathlib.Data.List.Nodup
import Mathlib.Data.List.Perm.Subperm
import Mathlib.Data.Set.Finite.Basic
import Mathlib.Data.Fintype.Card
import Mathlib.Logic.Relation

/-!
Placing items along links: an item goes behind the one it is linked to, and an item whose links
end at nothing is refused, with everything on the way to it.

The recursion follows the links and marks an item only when it returns. It returns when the links
of the items have no cycle, and an item is refused once for each visit that meets it.
-/

namespace Placement

/-- What has to be placed before an item. -/
inductive Link (α : Type*)
  | free | absent | on (below : α)

structure State (α κ : Type*) where
  placed : List κ
  ordered : List α
  refused : List κ

variable {α κ : Type*}

def State.empty : State α κ := ⟨[], [], []⟩

section Run

variable [DecidableEq κ] (key : α → κ) (link : α → Link α)

def State.put (s : State α κ) (a : α) : State α κ :=
  { s with placed := s.placed ++ [key a], ordered := s.ordered ++ [a] }

def State.refuse (s : State α κ) (a : α) : State α κ :=
  { s with refused := s.refused ++ [key a] }

/-- `none`: the calls nest deeper than `depth`. -/
def place : Nat → α → State α κ → Option (Bool × State α κ)
  | 0, _, _ => none
  | depth + 1, a, s =>
    if key a ∈ s.placed then some (true, s)
    else match link a with
      | .free => some (true, s.put key a)
      | .absent => some (false, s.refuse key a)
      | .on below => (place depth below s).map fun (behind, s') =>
          if behind then (true, s'.put key a) else (false, s'.refuse key a)

def placeAll (depth : Nat) : List α → State α κ → Option (State α κ)
  | [], s => some s
  | a :: rest, s =>
    if key a ∈ s.placed ∨ key a ∈ s.refused then placeAll depth rest s
    else (place key link depth a s).bind fun (_, s') => placeAll depth rest s'

end Run

/-- An item goes behind the one it is linked to, and an item without its link is refused. -/
example : (placeAll id (fun n => if n = 0 then .on 1 else if n = 1 then .free else .absent) 3
    [0, 1, 2] State.empty).map (fun s => (s.ordered, s.refused)) = some ([1, 0], [2]) := by
  simp [placeAll, place, State.empty, State.put, State.refuse]

/-! ## Chains of links -/

/-- The items an item's links lead to, the last of them first, and whether the last is free. -/
inductive Descent (link : α → Link α) : α → Bool → List α → Prop
  | free {a : α} (h : link a = .free) : Descent link a true [a]
  | absent {a : α} (h : link a = .absent) : Descent link a false [a]
  | on {a b : α} {ends : Bool} {chain : List α} (h : link a = .on b)
      (below : Descent link b ends chain) : Descent link a ends (chain ++ [a])

section Chains

variable {link : α → Link α} {a b x : α} {ends ends' : Bool} {chain chain' : List α}

theorem Descent.unique (h : Descent link a ends chain) (h' : Descent link a ends' chain') :
    ends = ends' ∧ chain = chain' := by
  induction h generalizing ends' chain' with
  | free hlink =>
    cases h' with
    | free _ => exact ⟨rfl, rfl⟩
    | absent hlink' => rw [hlink] at hlink'; cases hlink'
    | on hlink' _ => rw [hlink] at hlink'; cases hlink'
  | absent hlink =>
    cases h' with
    | free hlink' => rw [hlink] at hlink'; cases hlink'
    | absent _ => exact ⟨rfl, rfl⟩
    | on hlink' _ => rw [hlink] at hlink'; cases hlink'
  | on hlink _ ih =>
    cases h' with
    | free hlink' => rw [hlink] at hlink'; cases hlink'
    | absent hlink' => rw [hlink] at hlink'; cases hlink'
    | on hlink' hbelow' =>
      rw [hlink] at hlink'
      obtain rfl := Link.on.inj hlink'
      obtain ⟨rfl, rfl⟩ := ih hbelow'
      exact ⟨rfl, rfl⟩

theorem Descent.self_mem (h : Descent link a ends chain) : a ∈ chain := by
  cases h with
  | free _ => exact List.mem_singleton_self a
  | absent _ => exact List.mem_singleton_self a
  | on _ _ => exact List.mem_append_right _ (List.mem_singleton_self a)

/-- The chain of an item on a chain is where that chain starts. -/
theorem Descent.of_mem (h : Descent link a ends chain) (hx : x ∈ chain) :
    ∃ below, Descent link x ends below ∧ below <+: chain := by
  induction h with
  | free hlink =>
    obtain rfl := List.mem_singleton.1 hx
    exact ⟨_, .free hlink, List.prefix_rfl⟩
  | absent hlink =>
    obtain rfl := List.mem_singleton.1 hx
    exact ⟨_, .absent hlink, List.prefix_rfl⟩
  | on hlink hbelow ih =>
    rcases List.mem_append.1 hx with hx | hx
    · obtain ⟨below, hdescent, hbegins⟩ := ih hx
      exact ⟨below, hdescent, hbegins.trans (List.prefix_append _ _)⟩
    · obtain rfl := List.mem_singleton.1 hx
      exact ⟨_, .on hlink hbelow, List.prefix_rfl⟩

theorem Descent.nodup (h : Descent link a ends chain) : chain.Nodup := by
  induction h with
  | free _ => exact List.nodup_singleton _
  | absent _ => exact List.nodup_singleton _
  | on hlink hbelow ih =>
    apply List.nodup_append'.2
    refine ⟨ih, List.nodup_singleton _, ?_⟩
    intro x hx hlast
    obtain rfl := List.mem_singleton.1 hlast
    obtain ⟨below, hdescent, hbegins⟩ := hbelow.of_mem hx
    obtain ⟨-, rfl⟩ := hdescent.unique (.on hlink hbelow)
    have hlength := hbegins.length_le
    simp only [List.length_append, List.length_cons, List.length_nil] at hlength
    omega

end Chains

/-! ## Closed lists of items -/

/-- Items known by their keys, with everything they are linked to, and at most one linked to
each. -/
structure Closed (key : α → κ) (link : α → Link α) (items : List α) : Prop where
  keys : (items.map key).Nodup
  below : ∀ a ∈ items, ∀ b, link a = .on b → b ∈ items
  rivals : ∀ a ∈ items, ∀ c ∈ items, ∀ b, link a = .on b → link c = .on b → a = c

/-- `a` is an item, linked to `b`. -/
def Linked (link : α → Link α) (items : List α) (a b : α) : Prop := a ∈ items ∧ link a = .on b

/-- No item is linked back to itself. -/
def Acyclic (link : α → Link α) (items : List α) : Prop :=
  ∀ a, ¬ Relation.TransGen (Linked link items) a a

section Items

variable {key : α → κ} {link : α → Link α} {items : List α}
variable {a b c x : α} {ends : Bool} {chain chain' : List α}

theorem Closed.eq_of_key (h : Closed key link items) (ha : a ∈ items) (hb : b ∈ items)
    (hkey : key a = key b) : a = b := List.inj_on_of_nodup_map h.keys ha hb hkey

theorem Closed.chain_subset (h : Closed key link items) (hd : Descent link a ends chain)
    (ha : a ∈ items) : chain ⊆ items := by
  induction hd with
  | free _ => exact List.forall_mem_singleton.2 ha
  | absent _ => exact List.forall_mem_singleton.2 ha
  | on hlink _ ih =>
    apply List.append_subset.2
    exact ⟨ih (h.below _ ha _ hlink), List.forall_mem_singleton.2 ha⟩

theorem Closed.chain_length (h : Closed key link items) (hd : Descent link a ends chain)
    (ha : a ∈ items) : chain.length ≤ items.length :=
  (List.subperm_of_subset hd.nodup (h.chain_subset hd ha)).length_le

theorem Closed.chain_keys (h : Closed key link items) (hd : Descent link a ends chain)
    (ha : a ∈ items) : (chain.map key).Nodup := by
  apply List.Nodup.map_on _ hd.nodup
  intro x hx y hy hkey
  exact h.eq_of_key (h.chain_subset hd ha hx) (h.chain_subset hd ha hy) hkey

theorem Closed.chain_linked (h : Closed key link items) (hd : Descent link a ends chain)
    (ha : a ∈ items) : x ∈ chain ↔ Relation.ReflTransGen (Linked link items) a x := by
  induction hd with
  | @free a hlink =>
    constructor
    · intro hx
      rw [List.mem_singleton.1 hx]
    · intro hx
      rcases Relation.ReflTransGen.cases_head hx with rfl | ⟨b, ⟨-, hb⟩, -⟩
      · exact List.mem_singleton_self _
      · rw [hlink] at hb
        cases hb
  | @absent a hlink =>
    constructor
    · intro hx
      rw [List.mem_singleton.1 hx]
    · intro hx
      rcases Relation.ReflTransGen.cases_head hx with rfl | ⟨b, ⟨-, hb⟩, -⟩
      · exact List.mem_singleton_self _
      · rw [hlink] at hb
        cases hb
  | @on a b ends chain hlink _ ih =>
    have hbelow := ih (h.below _ ha _ hlink)
    rw [List.mem_append, List.mem_singleton, hbelow]
    constructor
    · rintro (hx | rfl)
      · exact .head ⟨ha, hlink⟩ hx
      · exact .refl
    · intro hx
      rcases Relation.ReflTransGen.cases_head hx with rfl | ⟨b', ⟨-, hb⟩, hrest⟩
      · exact .inr rfl
      · rw [hlink] at hb
        obtain rfl := Link.on.inj hb
        exact .inl hrest

/-- Two chains that share an item are parts of one. -/
theorem Closed.chains_compare (h : Closed key link items) (ha : a ∈ items) (hb : b ∈ items)
    (hda : Descent link a ends chain) (hdb : Descent link b ends chain') (hxa : x ∈ chain)
    (hxb : x ∈ chain') : a ∈ chain' ∨ b ∈ chain := by
  have hunique : Relator.RightUnique (Function.swap (Linked link items)) := by
    rintro y c c' ⟨hc, hlink⟩ ⟨hc', hlink'⟩
    exact h.rivals c hc c' hc' y hlink hlink'
  have hax := Relation.reflTransGen_swap.2 ((h.chain_linked hda ha).1 hxa)
  have hbx := Relation.reflTransGen_swap.2 ((h.chain_linked hdb hb).1 hxb)
  rcases Relation.ReflTransGen.total_of_right_unique hunique hax hbx with hab | hba
  · exact .inl ((h.chain_linked hdb hb).2 (Relation.reflTransGen_swap.1 hab))
  · exact .inr ((h.chain_linked hda ha).2 (Relation.reflTransGen_swap.1 hba))

/-- Links without a cycle come to an end. -/
theorem Acyclic.descent (hacyclic : Acyclic link items)
    (hbelow : ∀ a ∈ items, ∀ b, link a = .on b → b ∈ items) (ha : a ∈ items) :
    ∃ ends chain, Descent link a ends chain := by
  let further (b a : { a // a ∈ items }) : Prop :=
    Relation.TransGen (Linked link items) a.1 b.1
  have htrans : IsTrans _ further := ⟨fun _ _ _ hab hbc => hbc.trans hab⟩
  have hirrefl : Std.Irrefl further := ⟨fun a => hacyclic a.1⟩
  have hfinite : Finite { a // a ∈ items } := (List.finite_toSet items).to_subtype
  have hwf : WellFounded further := Finite.wellFounded_of_trans_of_irrefl further
  have hall : ∀ a : { a // a ∈ items }, ∃ ends chain, Descent link a.1 ends chain := by
    intro a
    induction a using hwf.induction with
    | h a ih =>
      cases hlink : link a.1 with
      | free => exact ⟨_, _, .free hlink⟩
      | absent => exact ⟨_, _, .absent hlink⟩
      | on b =>
        obtain ⟨ends, chain, hdescent⟩ := ih ⟨b, hbelow _ a.2 _ hlink⟩ (.single ⟨a.2, hlink⟩)
        exact ⟨ends, _, .on hlink hdescent⟩
  exact hall ⟨a, ha⟩

/-- Items whose links all come to an end have no cycle. -/
theorem acyclic_of_descent (hall : ∀ a ∈ items, ∃ ends chain, Descent link a ends chain) :
    Acyclic link items := by
  intro a hcycle
  have hshorter : ∀ {b}, Relation.TransGen (Linked link items) a b →
      ∀ {ends chain}, Descent link a ends chain →
        ∃ below, Descent link b ends below ∧ below.length < chain.length := by
    intro b hab
    have hone : ∀ {c d ends chain}, Linked link items c d → Descent link c ends chain →
        ∃ below, Descent link d ends below ∧ below.length < chain.length := by
      rintro c d ends chain ⟨-, hlink⟩ hc
      cases hc with
      | free hfree => rw [hlink] at hfree; cases hfree
      | absent habsent => rw [hlink] at habsent; cases habsent
      | on hon hbelow =>
        rw [hlink] at hon
        obtain rfl := Link.on.inj hon
        refine ⟨_, hbelow, ?_⟩
        rw [List.length_append, List.length_singleton]
        exact Nat.lt_succ_self _
    induction hab with
    | single hlinked => exact hone hlinked
    | tail _ hlinked ih =>
      intro ends chain hdescent
      obtain ⟨middle, hmiddle, hle⟩ := ih hdescent
      obtain ⟨below, hbelow, hlt⟩ := hone hlinked hmiddle
      exact ⟨below, hbelow, hlt.trans hle⟩
  obtain ⟨c, ⟨ha, -⟩, -⟩ := Relation.TransGen.head'_iff.1 hcycle
  obtain ⟨ends, chain, hdescent⟩ := hall a ha
  obtain ⟨below, hbelow, hlt⟩ := hshorter hcycle hdescent
  obtain ⟨-, rfl⟩ := hbelow.unique hdescent
  exact absurd hlt (Nat.lt_irrefl _)

end Items

/-! ## One visit -/

section Visit

variable {key : α → κ} {link : α → Link α} {items : List α}
variable {a b c x : α} {ends : Bool} {chain : List α} {s s' : State α κ} {depth : Nat}

/-- Every item stands behind the one it is linked to. -/
def Behind (link : α → Link α) (l : List α) : Prop :=
  ∀ front a back, l = front ++ a :: back → ∀ b, link a = .on b → b ∈ front

theorem Behind.snoc {l : List α} (h : Behind link l) (ha : ∀ b, link a = .on b → b ∈ l) :
    Behind link (l ++ [a]) := by
  intro front c back hsplit b hb
  rcases List.eq_nil_or_concat back with rfl | ⟨rest, last, rfl⟩
  · obtain ⟨rfl, hlast⟩ := List.append_inj' hsplit rfl
    obtain rfl : a = c := by simpa using hlast
    exact ha b hb
  · have hsplit' : l ++ [a] = (front ++ c :: rest) ++ [last] := by simpa using hsplit
    obtain ⟨hl, -⟩ := List.append_inj' hsplit' rfl
    exact h front c rest hl b hb

/-- What every state of a run keeps. -/
structure Good (key : α → κ) (link : α → Link α) (items : List α) (s : State α κ) : Prop where
  placed : s.placed = s.ordered.map key
  within : s.ordered ⊆ items
  once : s.ordered.Nodup
  behind : Behind link s.ordered
  free : ∀ a ∈ s.ordered, ∃ chain, Descent link a true chain
  refused : ∀ k ∈ s.refused, ∃ a ∈ items, key a = k ∧ ∃ chain, Descent link a false chain

theorem Good.empty : Good key link items State.empty where
  placed := rfl
  within := List.nil_subset _
  once := List.nodup_nil
  behind := by
    intro front a back h
    exact absurd h.symm (by simp [State.empty])
  free := List.forall_mem_nil _
  refused := List.forall_mem_nil _

theorem Good.placed_iff (h : Good key link items s) (hclosed : Closed key link items)
    (ha : a ∈ items) : key a ∈ s.placed ↔ a ∈ s.ordered := by
  rw [h.placed, List.mem_map]
  constructor
  · rintro ⟨b, hb, hkey⟩
    rwa [← hclosed.eq_of_key (h.within hb) ha hkey]
  · intro hin
    exact ⟨a, hin, rfl⟩

/-- A placed item's links end at a free one. -/
theorem Good.not_placed (h : Good key link items s) (hclosed : Closed key link items)
    (ha : a ∈ items) (hd : Descent link a false chain) : key a ∉ s.placed := by
  rw [h.placed_iff hclosed ha]
  intro hin
  obtain ⟨chain', hd'⟩ := h.free a hin
  cases (hd.unique hd').1

/-- A refused item's links end at nothing. -/
theorem Good.not_refused (h : Good key link items s) (hclosed : Closed key link items)
    (ha : a ∈ items) (hd : Descent link a true chain) : key a ∉ s.refused := by
  intro hin
  obtain ⟨b, hb, hkey, chain', hd'⟩ := h.refused _ hin
  rw [hclosed.eq_of_key hb ha hkey] at hd'
  cases (hd.unique hd').1

theorem Good.put (h : Good key link items s) (ha : a ∈ items) (hfresh : a ∉ s.ordered)
    (hd : Descent link a true chain) (hbelow : ∀ b, link a = .on b → b ∈ s.ordered) :
    Good key link items (s.put key a) where
  placed := by
    simp only [State.put, h.placed, List.map_append, List.map_cons, List.map_nil]
  within := List.append_subset.2 ⟨h.within, List.forall_mem_singleton.2 ha⟩
  once := by
    apply List.nodup_append'.2
    refine ⟨h.once, List.nodup_singleton a, ?_⟩
    intro x hx hlast
    obtain rfl := List.mem_singleton.1 hlast
    exact hfresh hx
  behind := h.behind.snoc hbelow
  free := by
    intro x hx
    rcases List.mem_append.1 hx with hx | hx
    · exact h.free x hx
    · rw [List.mem_singleton.1 hx]
      exact ⟨chain, hd⟩
  refused := h.refused

theorem Good.refuse (h : Good key link items s) (hclosed : Closed key link items)
    (hd : Descent link a false chain) (ha : a ∈ items) :
    Good key link items { s with refused := s.refused ++ chain.map key } where
  placed := h.placed
  within := h.within
  once := h.once
  behind := h.behind
  free := h.free
  refused := by
    intro k hk
    rcases List.mem_append.1 hk with hk | hk
    · exact h.refused k hk
    · obtain ⟨x, hx, rfl⟩ := List.mem_map.1 hk
      obtain ⟨below, hbelow, -⟩ := hd.of_mem hx
      exact ⟨x, hclosed.chain_subset hd ha hx, rfl, below, hbelow⟩

variable [DecidableEq κ]

/-- An item whose links end at a free one is placed, with what its chain still lacks. -/
theorem place_free (hclosed : Closed key link items) (hd : Descent link a true chain)
    (h : Good key link items s) (ha : a ∈ items) (hdepth : chain.length ≤ depth) :
    ∃ s', place key link depth a s = some (true, s') ∧ Good key link items s' ∧
      a ∈ s'.ordered ∧ s.ordered ⊆ s'.ordered ∧ s'.ordered ⊆ s.ordered ++ chain ∧
      s'.refused = s.refused := by
  induction depth generalizing a chain s with
  | zero =>
    have hempty := List.length_eq_zero_iff.1 (Nat.le_zero.1 hdepth)
    rw [hempty] at hd
    exact absurd hd.self_mem List.not_mem_nil
  | succ depth ih =>
    by_cases hplaced : key a ∈ s.placed
    · exact ⟨s, if_pos hplaced, h, (h.placed_iff hclosed ha).1 hplaced, List.Subset.refl _,
        List.subset_append_left _ _, rfl⟩
    · have hfresh : a ∉ s.ordered := fun hin => hplaced ((h.placed_iff hclosed ha).2 hin)
      have hnodup := hd.nodup
      cases hd with
      | free hlink =>
        refine ⟨s.put key a, by simp only [place, if_neg hplaced, hlink], ?_,
          List.mem_append_right _ (List.mem_singleton_self a), List.subset_append_left _ _,
          List.Subset.refl _, rfl⟩
        apply h.put ha hfresh (.free hlink)
        intro b hb
        rw [hlink] at hb
        cases hb
      | @on _ b _ below hlink hbelow =>
        rw [List.length_append, List.length_singleton] at hdepth
        obtain ⟨s', hplace, hgood, hb, hgrows, hnew, hrefused⟩ :=
          ih hbelow h (hclosed.below a ha b hlink) (by omega)
        have hfresh' : a ∉ s'.ordered := by
          intro hin
          rcases List.mem_append.1 (hnew hin) with hin | hin
          · exact hfresh hin
          · exact (List.nodup_append'.1 hnodup).2.2 hin (List.mem_singleton_self a)
        refine ⟨s'.put key a, by simp [place, if_neg hplaced, hlink, hplace], ?_,
          List.mem_append_right _ (List.mem_singleton_self a),
          fun x hx => List.mem_append_left _ (hgrows hx), ?_, hrefused⟩
        · apply hgood.put ha hfresh' (.on hlink hbelow)
          intro b' hb'
          rw [hlink] at hb'
          obtain rfl := Link.on.inj hb'
          exact hb
        · rw [← List.append_assoc]
          exact List.append_subset.2 ⟨fun x hx => List.mem_append_left _ (hnew hx),
            List.subset_append_right _ _⟩

/-- An item whose links end at nothing is refused, and its chain with it. -/
theorem place_absent (hclosed : Closed key link items) (hd : Descent link a false chain)
    (h : Good key link items s) (ha : a ∈ items) (hdepth : chain.length ≤ depth) :
    place key link depth a s
      = some (false, { s with refused := s.refused ++ chain.map key }) := by
  induction depth generalizing a chain s with
  | zero =>
    have hempty := List.length_eq_zero_iff.1 (Nat.le_zero.1 hdepth)
    rw [hempty] at hd
    exact absurd hd.self_mem List.not_mem_nil
  | succ depth ih =>
    have hplaced := h.not_placed hclosed ha hd
    cases hd with
    | absent hlink =>
      simp only [place, if_neg hplaced, hlink, State.refuse, List.map_cons, List.map_nil]
    | @on _ b _ below hlink hbelow =>
      rw [List.length_append, List.length_singleton] at hdepth
      have hplace := ih hbelow h (hclosed.below a ha b hlink) (by omega)
      simp only [place, if_neg hplaced, hlink, hplace, Option.map_some, Bool.false_eq_true,
        ↓reduceIte, State.refuse, List.map_append, List.map_cons, List.map_nil, List.append_assoc]

/-- What returns has links that end. -/
theorem descent_of_place (hclosed : Closed key link items) (h : Good key link items s)
    (ha : a ∈ items) (hplace : place key link depth a s = some (ends, s')) :
    ∃ ends chain, Descent link a ends chain := by
  induction depth generalizing a ends s' with
  | zero => cases hplace
  | succ depth ih =>
    rw [place] at hplace
    split at hplace
    · next hplaced =>
      obtain ⟨chain, hd⟩ := h.free a ((h.placed_iff hclosed ha).1 hplaced)
      exact ⟨true, chain, hd⟩
    · split at hplace
      · next hlink => exact ⟨_, _, .free hlink⟩
      · next hlink => exact ⟨_, _, .absent hlink⟩
      · next b hlink =>
        obtain ⟨⟨behind, below⟩, hbelow, -⟩ := Option.map_eq_some_iff.1 hplace
        obtain ⟨ends, chain, hd⟩ := ih (hclosed.below a ha b hlink) hbelow
        exact ⟨ends, _, .on hlink hd⟩

/-- A visit that returns at some depth returns the same at every greater one. -/
theorem place_mono {more : Nat} {result : Bool × State α κ} (hle : depth ≤ more)
    (hplace : place key link depth a s = some result) :
    place key link more a s = some result := by
  induction depth generalizing a more result with
  | zero => cases hplace
  | succ depth ih =>
    obtain ⟨more, rfl⟩ : ∃ n, more = n + 1 := ⟨more - 1, by omega⟩
    rw [place] at hplace ⊢
    split at hplace
    · next hplaced => rwa [if_pos hplaced]
    · next hplaced =>
      rw [if_neg hplaced]
      split at hplace
      · exact hplace
      · exact hplace
      · next b hlink =>
        obtain ⟨below, hbelow, hresult⟩ := Option.map_eq_some_iff.1 hplace
        rw [ih (by omega) hbelow, Option.map_some, hresult]

end Visit

/-! ## All visits -/

section Visits

variable [DecidableEq κ] {key : α → κ} {link : α → Link α} {items : List α}
variable {a b c x : α} {chain : List α} {s s' : State α κ} {depth : Nat} {visits rest : List α}

/-- Every item's links come to an end. -/
def Ending (link : α → Link α) (items : List α) : Prop :=
  ∀ a ∈ items, ∃ ends chain, Descent link a ends chain

variable (rest) in
/-- The next visit of a free item refuses nothing, and leaves it placed. -/
theorem placeAll_free (hclosed : Closed key link items) (hd : Descent link a true chain)
    (h : Good key link items s) (ha : a ∈ items) (hdepth : items.length ≤ depth) :
    ∃ s', placeAll key link depth (a :: rest) s = placeAll key link depth rest s' ∧
      Good key link items s' ∧ a ∈ s'.ordered ∧ s.ordered ⊆ s'.ordered ∧
      s'.refused = s.refused := by
  by_cases hskip : key a ∈ s.placed ∨ key a ∈ s.refused
  · refine ⟨s, by rw [placeAll, if_pos hskip], h, ?_, List.Subset.refl _, rfl⟩
    rcases hskip with hplaced | hrefused
    · exact (h.placed_iff hclosed ha).1 hplaced
    · exact absurd hrefused (h.not_refused hclosed ha hd)
  · obtain ⟨s', hplace, hgood, hmem, hgrows, -, hrefused⟩ :=
      place_free hclosed hd h ha ((hclosed.chain_length hd ha).trans hdepth)
    exact ⟨s', by rw [placeAll, if_neg hskip, hplace]; rfl, hgood, hmem, hgrows, hrefused⟩

variable (rest) in
/-- The next visit of an item whose links end at nothing refuses its chain, unless the item was
refused before. -/
theorem placeAll_absent (hclosed : Closed key link items) (hd : Descent link a false chain)
    (h : Good key link items s) (ha : a ∈ items) (hdepth : items.length ≤ depth) :
    placeAll key link depth (a :: rest) s = placeAll key link depth rest
      (if key a ∈ s.refused then s else { s with refused := s.refused ++ chain.map key }) := by
  have hplaced := h.not_placed hclosed ha hd
  rw [placeAll]
  by_cases hrefused : key a ∈ s.refused
  · rw [if_pos (.inr hrefused), if_pos hrefused]
  · have hskip : ¬ (key a ∈ s.placed ∨ key a ∈ s.refused) := not_or.2 ⟨hplaced, hrefused⟩
    rw [if_neg hskip, if_neg hrefused,
      place_absent hclosed hd h ha ((hclosed.chain_length hd ha).trans hdepth), Option.bind_some]

/-- A run over items whose links end returns; what it visits is placed or refused. -/
theorem placeAll_ending (hclosed : Closed key link items) (hending : Ending link items)
    (hdepth : items.length ≤ depth) (hvisits : visits ⊆ items) (h : Good key link items s) :
    ∃ s', placeAll key link depth visits s = some s' ∧ Good key link items s' ∧
      s.ordered ⊆ s'.ordered ∧ s.refused <+: s'.refused ∧
      ∀ a ∈ visits, a ∈ s'.ordered ∨ key a ∈ s'.refused := by
  induction visits generalizing s with
  | nil => exact ⟨s, rfl, h, List.Subset.refl _, List.prefix_rfl, List.forall_mem_nil _⟩
  | cons a rest ih =>
    have ha : a ∈ items := hvisits List.mem_cons_self
    have hrest : rest ⊆ items := fun x hx => hvisits (List.mem_cons_of_mem _ hx)
    obtain ⟨ends, chain, hd⟩ := hending a ha
    cases ends with
    | true =>
      obtain ⟨mid, hstep, hgood, hmem, hgrows, hsame⟩ :=
        placeAll_free rest hclosed hd h ha hdepth
      obtain ⟨s', hrun, hgood', hgrows', hrefused', hall⟩ := ih hrest hgood
      refine ⟨s', hstep.trans hrun, hgood', List.Subset.trans hgrows hgrows', hsame ▸ hrefused', ?_⟩
      intro x hx
      rcases List.mem_cons.1 hx with rfl | hx
      · exact .inl (hgrows' hmem)
      · exact hall x hx
    | false =>
      have hstep := placeAll_absent rest hclosed hd h ha hdepth
      by_cases hrefused : key a ∈ s.refused
      · rw [if_pos hrefused] at hstep
        obtain ⟨s', hrun, hgood', hgrows', hrefused', hall⟩ := ih hrest h
        refine ⟨s', hstep.trans hrun, hgood', hgrows', hrefused', ?_⟩
        intro x hx
        rcases List.mem_cons.1 hx with rfl | hx
        · exact .inr (hrefused'.mem hrefused)
        · exact hall x hx
      · rw [if_neg hrefused] at hstep
        obtain ⟨s', hrun, hgood', hgrows', hrefused', hall⟩ := ih hrest (h.refuse hclosed hd ha)
        refine ⟨s', hstep.trans hrun, hgood', hgrows', (List.prefix_append _ _).trans hrefused', ?_⟩
        intro x hx
        rcases List.mem_cons.1 hx with rfl | hx
        · exact .inr (hrefused'.mem (List.mem_append_right _
            (List.mem_map_of_mem hd.self_mem)))
        · exact hall x hx

theorem placeAll_mono {more : Nat} {result : State α κ} (hle : depth ≤ more)
    (hrun : placeAll key link depth visits s = some result) :
    placeAll key link more visits s = some result := by
  induction visits generalizing s with
  | nil => exact hrun
  | cons a rest ih =>
    rw [placeAll] at hrun ⊢
    split at hrun
    · next hskip => rw [if_pos hskip]; exact ih hrun
    · next hskip =>
      obtain ⟨⟨behind, mid⟩, hplace, hrest⟩ := Option.bind_eq_some_iff.1 hrun
      rw [if_neg hskip, place_mono hle hplace, Option.bind_some]
      exact ih hrest

/-- A run that returns has only visited items whose links end. -/
theorem ending_of_placeAll (hclosed : Closed key link items) (hvisits : visits ⊆ items)
    (h : Good key link items s) (hdepth : items.length ≤ depth)
    (hrun : placeAll key link depth visits s = some s') : Ending link visits := by
  induction visits generalizing s with
  | nil => exact List.forall_mem_nil _
  | cons a rest ih =>
    have ha : a ∈ items := hvisits List.mem_cons_self
    have hrest : rest ⊆ items := fun x hx => hvisits (List.mem_cons_of_mem _ hx)
    have hending : ∃ ends chain, Descent link a ends chain := by
      have hvisit := hrun
      rw [placeAll] at hvisit
      split at hvisit
      · next hskip =>
        rcases hskip with hplaced | hrefused
        · obtain ⟨chain, hd⟩ := h.free a ((h.placed_iff hclosed ha).1 hplaced)
          exact ⟨true, chain, hd⟩
        · obtain ⟨b, hb, hkey, chain, hd⟩ := h.refused _ hrefused
          rw [hclosed.eq_of_key hb ha hkey] at hd
          exact ⟨false, chain, hd⟩
      · obtain ⟨⟨behind, mid⟩, hplace, -⟩ := Option.bind_eq_some_iff.1 hvisit
        exact descent_of_place hclosed h ha hplace
    obtain ⟨ends, chain, hd⟩ := hending
    intro x hx
    rcases List.mem_cons.1 hx with rfl | hx
    · exact ⟨ends, chain, hd⟩
    · cases ends with
      | true =>
        obtain ⟨mid, hstep, hgood, -⟩ := placeAll_free rest hclosed hd h ha hdepth
        exact ih hrest hgood (hstep.symm.trans hrun) x hx
      | false =>
        have hstep := placeAll_absent rest hclosed hd h ha hdepth
        rw [hrun] at hstep
        split at hstep
        · exact ih hrest h hstep.symm x hx
        · exact ih hrest (h.refuse hclosed hd ha) hstep.symm x hx

/-- A run over a list of all items returns exactly when no item is linked back to itself. -/
theorem placeAll_returns (hclosed : Closed key link items) (hvisits : visits.Perm items) :
    (∃ depth s', placeAll key link depth visits State.empty = some s') ↔ Acyclic link items := by
  constructor
  · rintro ⟨depth, s', hrun⟩
    apply acyclic_of_descent
    have hdeep := placeAll_mono (Nat.le_max_left depth items.length) hrun
    have hending := ending_of_placeAll hclosed hvisits.subset Good.empty
      (Nat.le_max_right depth items.length) hdeep
    intro a ha
    exact hending a (hvisits.symm.subset ha)
  · intro hacyclic
    have hending : Ending link items := fun a ha => hacyclic.descent hclosed.below ha
    obtain ⟨s', hrun, -⟩ :=
      placeAll_ending hclosed hending (Nat.le_refl _) hvisits.subset Good.empty
    exact ⟨_, s', hrun⟩

/-! ## What is refused twice -/

/-- A refused item to which something is linked is never visited before everything above it. -/
def TopFirst (link : α → Link α) (items visits : List α) : Prop :=
  ∀ front a back, visits = front ++ a :: back → ∀ chain, Descent link a false chain →
    (∃ c ∈ items, link c = .on a) →
      ∃ c ∈ front, ∃ above, Descent link c false above ∧ a ∈ above

/-- The refused items are those on the refused chains of the items visited. -/
def Covers (key : α → κ) (link : α → Link α) (front : List α) (s : State α κ) : Prop :=
  ∀ k, k ∈ s.refused ↔ ∃ v ∈ front, ∃ chain, Descent link v false chain ∧ k ∈ chain.map key

omit [DecidableEq κ] in
theorem Covers.empty : Covers key link [] State.empty := by
  intro k
  constructor
  · intro h
    exact absurd h List.not_mem_nil
  · rintro ⟨v, hv, -⟩
    exact absurd hv List.not_mem_nil

omit [DecidableEq κ] in
theorem Covers.free {front : List α} (h : Covers key link front s)
    (hd : Descent link a true chain) (hsame : s'.refused = s.refused) :
    Covers key link (front ++ [a]) s' := by
  intro k
  rw [hsame, h k]
  constructor
  · rintro ⟨v, hv, hrest⟩
    exact ⟨v, List.mem_append_left _ hv, hrest⟩
  · rintro ⟨v, hv, below, hbelow, hk⟩
    rcases List.mem_append.1 hv with hv | hv
    · exact ⟨v, hv, below, hbelow, hk⟩
    · rw [List.mem_singleton.1 hv] at hbelow
      cases (hd.unique hbelow).1

omit [DecidableEq κ] in
/-- A refused item stands on the chain of a visited one. -/
theorem Covers.above {front : List α} (h : Covers key link front s)
    (hclosed : Closed key link items) (hfront : front ⊆ items) (ha : a ∈ items)
    (hrefused : key a ∈ s.refused) :
    ∃ v ∈ front, ∃ above, Descent link v false above ∧ a ∈ above := by
  obtain ⟨v, hv, above, habove, hk⟩ := (h _).1 hrefused
  obtain ⟨x, hx, hkey⟩ := List.mem_map.1 hk
  have hxa := hclosed.eq_of_key (hclosed.chain_subset habove (hfront hv) hx) ha hkey
  exact ⟨v, hv, above, habove, hxa ▸ hx⟩

theorem Covers.absent {front : List α} (h : Covers key link front s)
    (hclosed : Closed key link items) (hfront : front ⊆ items) (ha : a ∈ items)
    (hd : Descent link a false chain) :
    Covers key link (front ++ [a])
      (if key a ∈ s.refused then s else { s with refused := s.refused ++ chain.map key }) := by
  intro k
  have hsplit : (∃ v ∈ front ++ [a], ∃ chain, Descent link v false chain ∧ k ∈ chain.map key) ↔
      k ∈ s.refused ∨ k ∈ chain.map key := by
    rw [h k]
    constructor
    · rintro ⟨v, hv, below, hbelow, hk⟩
      rcases List.mem_append.1 hv with hv | hv
      · exact .inl ⟨v, hv, below, hbelow, hk⟩
      · rw [List.mem_singleton.1 hv] at hbelow
        rw [(hd.unique hbelow).2]
        exact .inr hk
    · rintro (⟨v, hv, hrest⟩ | hk)
      · exact ⟨v, List.mem_append_left _ hv, hrest⟩
      · exact ⟨a, List.mem_append_right _ (List.mem_singleton_self a), chain, hd, hk⟩
  rw [hsplit]
  split
  · next hrefused =>
    obtain ⟨v, hv, above, habove, hin⟩ := h.above hclosed hfront ha hrefused
    constructor
    · exact .inl
    · rintro (hk | hk)
      · exact hk
      · obtain ⟨below, hbelow, hbegins⟩ := habove.of_mem hin
        obtain ⟨-, rfl⟩ := hd.unique hbelow
        exact (h k).2 ⟨v, hv, above, habove, (hbegins.map key).subset hk⟩
  · exact List.mem_append

omit [DecidableEq κ] in
/-- Of the elements of a list with a property, one comes first. -/
theorem exists_first {l : List α} {p : α → Prop} (h : ∃ v ∈ l, p v) :
    ∃ front v back, l = front ++ v :: back ∧ p v ∧ ∀ u ∈ front, ¬ p u := by
  induction l with
  | nil =>
    obtain ⟨v, hv, -⟩ := h
    exact absurd hv List.not_mem_nil
  | cons x rest ih =>
    by_cases hx : p x
    · exact ⟨[], x, rest, rfl, hx, List.forall_mem_nil _⟩
    · obtain ⟨v, hv, hp⟩ := h
      have htail : ∃ v ∈ rest, p v := by
        rcases List.mem_cons.1 hv with rfl | hv
        · exact absurd hp hx
        · exact ⟨v, hv, hp⟩
      obtain ⟨front, w, back, rfl, hw, hnone⟩ := ih htail
      exact ⟨x :: front, w, back, rfl, hw, List.forall_mem_cons.2 ⟨hx, hnone⟩⟩

omit [DecidableEq κ] in
/-- What stands on a chain below its item has its successor on the chain. -/
theorem Descent.successor {ends : Bool} (hd : Descent link a ends chain) (hx : x ∈ chain)
    (hne : x ≠ a) : ∃ c ∈ chain, link c = .on x := by
  induction hd with
  | free _ => exact absurd (List.mem_singleton.1 hx) hne
  | absent _ => exact absurd (List.mem_singleton.1 hx) hne
  | @on a b ends below hlink hbelow ih =>
    rcases List.mem_append.1 hx with hx | hx
    · by_cases hxb : x = b
      · exact ⟨a, List.mem_append_right _ (List.mem_singleton_self a), hxb ▸ hlink⟩
      · obtain ⟨c, hc, hlink'⟩ := ih hx hxb
        exact ⟨c, List.mem_append_left _ hc, hlink'⟩
    · exact absurd (List.mem_singleton.1 hx) hne

omit [DecidableEq κ] in
/-- With the top visited first, the chain of a fresh visit is fresh: of the items on it visited
before, the first would have been preceded by one above it. -/
theorem TopFirst.fresh {front back : List α} (htop : TopFirst link items visits)
    (hclosed : Closed key link items) (hvisits : visits ⊆ items)
    (hsplit : visits = front ++ a :: back) (hcovers : Covers key link front s)
    (hd : Descent link a false chain) (hnew : key a ∉ s.refused) :
    ∀ x ∈ chain, key x ∉ s.refused := by
  have hfront : front ⊆ items := fun v hv => hvisits (by rw [hsplit]; exact List.mem_append_left _ hv)
  have ha : a ∈ items := hvisits (by rw [hsplit]; exact List.mem_append_right _ List.mem_cons_self)
  have hbelow : ∀ v ∈ front, ∀ above, Descent link v false above → a ∉ above := by
    intro v hv above habove hin
    exact hnew ((hcovers _).2 ⟨v, hv, above, habove, List.mem_map_of_mem hin⟩)
  intro x hx hrefused
  have hxi : x ∈ items := hclosed.chain_subset hd ha hx
  obtain ⟨v, hv, above, habove, hxv⟩ := hcovers.above hclosed hfront hxi hrefused
  have hvchain : v ∈ chain := by
    rcases hclosed.chains_compare ha (hfront hv) hd habove hx hxv with hin | hin
    · exact absurd hin (hbelow v hv above habove)
    · exact hin
  obtain ⟨early, first, late, hearly, hfirst, hnone⟩ := exists_first ⟨v, hv, hvchain⟩
  have hfirstFront : first ∈ front := by
    rw [hearly]
    exact List.mem_append_right _ List.mem_cons_self
  obtain ⟨under, hunder, -⟩ := hd.of_mem hfirst
  have hne : first ≠ a := by
    rintro rfl
    exact hbelow first hfirstFront under hunder hunder.self_mem
  obtain ⟨c, hc, hlink⟩ := hd.successor hfirst hne
  obtain ⟨c', hc', above', habove', hin⟩ := htop early first (late ++ a :: back)
    (by rw [hsplit, hearly, List.append_assoc, List.cons_append]) under hunder
    ⟨c, hclosed.chain_subset hd ha hc, hlink⟩
  have hc'Front : c' ∈ front := by
    rw [hearly]
    exact List.mem_append_left _ hc'
  rcases hclosed.chains_compare ha (hfront hc'Front) hd habove' hfirst hin with hin' | hin'
  · exact hbelow c' hc'Front above' habove' hin'
  · exact hnone c' hc' hin'

/-- With the top visited first, a run refuses nothing twice. -/
theorem TopFirst.refused_nodup {front : List α} (htop : TopFirst link items visits)
    (hclosed : Closed key link items) (hending : Ending link items) (hvisits : visits ⊆ items)
    (hdepth : items.length ≤ depth) (hsplit : visits = front ++ rest)
    (hgood : Good key link items s) (hcovers : Covers key link front s) (honce : s.refused.Nodup)
    (hrun : placeAll key link depth rest s = some s') : s'.refused.Nodup := by
  induction rest generalizing front s with
  | nil =>
    obtain rfl := Option.some.inj hrun
    exact honce
  | cons a rest ih =>
    have hfront : front ⊆ items :=
      fun v hv => hvisits (by rw [hsplit]; exact List.mem_append_left _ hv)
    have ha : a ∈ items :=
      hvisits (by rw [hsplit]; exact List.mem_append_right _ List.mem_cons_self)
    have hsplit' : visits = (front ++ [a]) ++ rest := by rw [hsplit, List.append_assoc]; rfl
    obtain ⟨ends, chain, hd⟩ := hending a ha
    cases ends with
    | true =>
      obtain ⟨mid, hstep, hgood', -, -, hsame⟩ :=
        placeAll_free rest hclosed hd hgood ha hdepth
      rw [hrun] at hstep
      exact ih hsplit' hgood' (hcovers.free hd hsame) (hsame ▸ honce) hstep.symm
    | false =>
      have hstep := placeAll_absent rest hclosed hd hgood ha hdepth
      have hcovers' := hcovers.absent hclosed hfront ha hd
      rw [hrun] at hstep
      by_cases hrefused : key a ∈ s.refused
      · rw [if_pos hrefused] at hstep hcovers'
        exact ih hsplit' hgood hcovers' honce hstep.symm
      · rw [if_neg hrefused] at hstep hcovers'
        apply ih hsplit' (hgood.refuse hclosed hd ha) hcovers' ?_ hstep.symm
        have hfresh := htop.fresh hclosed hvisits hsplit hcovers hd hrefused
        apply List.nodup_append'.2
        refine ⟨honce, hclosed.chain_keys hd ha, ?_⟩
        intro k hk hchain
        obtain ⟨x, hx, rfl⟩ := List.mem_map.1 hchain
        exact hfresh x hx hk

/-- While nothing is refused twice, what stands above a refused item is not refused. -/
theorem not_refused_above {ends : Bool} (hclosed : Closed key link items)
    (hending : Ending link items) (hdepth : items.length ≤ depth) (hrest : rest ⊆ items)
    (hgood : Good key link items s) (hc : c ∈ items) (hlink : link c = .on a)
    (hda : Descent link a ends chain) (hrefused : key a ∈ s.refused) (hnew : key c ∉ s.refused)
    (hrun : placeAll key link depth rest s = some s') (honce : s'.refused.Nodup) :
    key c ∉ s'.refused := by
  induction rest generalizing s with
  | nil =>
    obtain rfl := Option.some.inj hrun
    exact hnew
  | cons v rest ih =>
    have hv : v ∈ items := hrest List.mem_cons_self
    have htail : rest ⊆ items := fun x hx => hrest (List.mem_cons_of_mem _ hx)
    obtain ⟨ends', above, hd⟩ := hending v hv
    cases ends' with
    | true =>
      obtain ⟨mid, hstep, hgood', -, -, hsame⟩ :=
        placeAll_free rest hclosed hd hgood hv hdepth
      rw [hrun] at hstep
      exact ih htail hgood' (hsame ▸ hrefused) (hsame ▸ hnew) hstep.symm
    | false =>
      have hstep := placeAll_absent rest hclosed hd hgood hv hdepth
      rw [hrun] at hstep
      by_cases hskip : key v ∈ s.refused
      · rw [if_pos hskip] at hstep
        exact ih htail hgood hrefused hnew hstep.symm
      · rw [if_neg hskip] at hstep
        have hgood' := hgood.refuse hclosed hd hv
        apply ih htail hgood' (List.mem_append_left _ hrefused) ?_ hstep.symm
        intro hin
        rcases List.mem_append.1 hin with hin | hin
        · exact hnew hin
        · -- the chain refused holds `c`, so `a` below it, which was refused before
          obtain ⟨x, hx, hkey⟩ := List.mem_map.1 hin
          rw [hclosed.eq_of_key (hclosed.chain_subset hd hv hx) hc hkey] at hx
          obtain ⟨under, hunder, hbegins⟩ := hd.of_mem hx
          obtain ⟨-, rfl⟩ := hunder.unique (.on hlink hda)
          have hain : a ∈ above := hbegins.subset (List.mem_append_left _ hda.self_mem)
          obtain ⟨s'', hrun', -, -, hgrows, -⟩ :=
            placeAll_ending hclosed hending hdepth htail hgood'
          rw [← hstep] at hrun'
          obtain rfl := Option.some.inj hrun'
          have honce' := honce.sublist hgrows.sublist
          exact (List.nodup_append'.1 honce').2.2 hrefused (List.mem_map_of_mem hain)

theorem placeAll_append {front back : List α} :
    placeAll key link depth (front ++ back) s
      = (placeAll key link depth front s).bind (placeAll key link depth back) := by
  induction front generalizing s with
  | nil => rfl
  | cons a front ih =>
    rw [List.cons_append, placeAll, placeAll]
    split
    · exact ih
    · cases place key link depth a s with
      | none => rfl
      | some result => simp only [Option.bind_some, ih]

theorem covers_placeAll {front : List α} (hclosed : Closed key link items)
    (hending : Ending link items) (hdepth : items.length ≤ depth) (hfront : front ⊆ items)
    (hrest : rest ⊆ items) (hgood : Good key link items s) (hcovers : Covers key link front s)
    (hrun : placeAll key link depth rest s = some s') :
    Good key link items s' ∧ Covers key link (front ++ rest) s' := by
  induction rest generalizing front s with
  | nil =>
    obtain rfl := Option.some.inj hrun
    rw [List.append_nil]
    exact ⟨hgood, hcovers⟩
  | cons a rest ih =>
    have ha : a ∈ items := hrest List.mem_cons_self
    have htail : rest ⊆ items := fun x hx => hrest (List.mem_cons_of_mem _ hx)
    have hfront' : front ++ [a] ⊆ items :=
      List.append_subset.2 ⟨hfront, List.forall_mem_singleton.2 ha⟩
    rw [← List.singleton_append, ← List.append_assoc]
    obtain ⟨ends, chain, hd⟩ := hending a ha
    cases ends with
    | true =>
      obtain ⟨mid, hstep, hgood', -, -, hsame⟩ :=
        placeAll_free rest hclosed hd hgood ha hdepth
      rw [hrun] at hstep
      exact ih hfront' htail hgood' (hcovers.free hd hsame) hstep.symm
    | false =>
      have hstep := placeAll_absent rest hclosed hd hgood ha hdepth
      have hcovers' := hcovers.absent hclosed hfront ha hd
      rw [hrun] at hstep
      split at hstep
      · next hrefused =>
        rw [if_pos hrefused] at hcovers'
        exact ih hfront' htail hgood hcovers' hstep.symm
      · next hrefused =>
        rw [if_neg hrefused] at hcovers'
        exact ih hfront' htail (hgood.refuse hclosed hd ha) hcovers' hstep.symm

/-- A run that refuses nothing twice visits the top first. -/
theorem topFirst_of_nodup (hclosed : Closed key link items) (hending : Ending link items)
    (hdepth : items.length ≤ depth) (hvisits : visits.Perm items)
    (hrun : placeAll key link depth visits State.empty = some s') (honce : s'.refused.Nodup) :
    TopFirst link items visits := by
  intro front a back hsplit chain hd ⟨c, hc, hlink⟩
  by_contra hnone
  have hvisitsSub := hvisits.subset
  have hfront : front ⊆ items :=
    fun v hv => hvisitsSub (by rw [hsplit]; exact List.mem_append_left _ hv)
  have ha : a ∈ items :=
    hvisitsSub (by rw [hsplit]; exact List.mem_append_right _ List.mem_cons_self)
  have hback : back ⊆ items := fun v hv => hvisitsSub
    (by rw [hsplit]; exact List.mem_append_right _ (List.mem_cons_of_mem _ hv))
  have hdc : Descent link c false (chain ++ [c]) := .on hlink hd
  have hrun' := hrun
  rw [hsplit, placeAll_append] at hrun'
  obtain ⟨mid, hmid, hlast⟩ := Option.bind_eq_some_iff.1 hrun'
  obtain ⟨hgood, hcovers⟩ := covers_placeAll hclosed hending hdepth (List.nil_subset _) hfront
    Good.empty Covers.empty hmid
  rw [List.nil_append] at hcovers
  have hfresh : key a ∉ mid.refused := by
    intro hin
    obtain ⟨v, hv, above, habove, hmem⟩ := hcovers.above hclosed hfront ha hin
    exact hnone ⟨v, hv, above, habove, hmem⟩
  have hcfresh : key c ∉ mid.refused := by
    intro hin
    obtain ⟨v, hv, above, habove, hmem⟩ := hcovers.above hclosed hfront hc hin
    obtain ⟨under, hunder, hbegins⟩ := habove.of_mem hmem
    obtain ⟨-, rfl⟩ := hunder.unique hdc
    exact hnone ⟨v, hv, above, habove, hbegins.subset (List.mem_append_left _ hd.self_mem)⟩
  have hstep := placeAll_absent back hclosed hd hgood ha hdepth
  rw [hlast, if_neg hfresh] at hstep
  have hcChain : c ∉ chain := by
    intro hin
    exact (List.nodup_append'.1 hdc.nodup).2.2 hin (List.mem_singleton_self c)
  have hkept := not_refused_above hclosed hending hdepth hback (hgood.refuse hclosed hd ha) hc
    hlink hd (List.mem_append_right _ (List.mem_map_of_mem hd.self_mem)) (by
      intro hin
      rcases List.mem_append.1 hin with hin | hin
      · exact hcfresh hin
      · obtain ⟨x, hx, hkey⟩ := List.mem_map.1 hin
        rw [hclosed.eq_of_key (hclosed.chain_subset hd ha hx) hc hkey] at hx
        exact hcChain hx) hstep.symm honce
  obtain ⟨s'', hrun'', hgood'', -, -, hall⟩ :=
    placeAll_ending hclosed hending hdepth hvisitsSub Good.empty
  rw [hrun] at hrun''
  obtain rfl := Option.some.inj hrun''
  rcases hall c (hvisits.symm.subset hc) with hplaced | hrefused
  · exact hgood''.not_placed hclosed hc hdc ((hgood''.placed_iff hclosed hc).2 hplaced)
  · exact hkept hrefused

/-- A run over all items refuses each at most once exactly when it visits the top first. -/
theorem refused_once (hclosed : Closed key link items) (hending : Ending link items)
    (hdepth : items.length ≤ depth) (hvisits : visits.Perm items)
    (hrun : placeAll key link depth visits State.empty = some s') :
    s'.refused.Nodup ↔ TopFirst link items visits := by
  constructor
  · exact topFirst_of_nodup hclosed hending hdepth hvisits hrun
  · intro htop
    exact htop.refused_nodup hclosed hending hvisits.subset hdepth (List.nil_append _).symm
      Good.empty Covers.empty List.nodup_nil hrun

end Visits

end Placement
