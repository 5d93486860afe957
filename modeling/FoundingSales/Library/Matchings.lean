import Mathlib.Data.List.Chain
import Mathlib.Data.List.Nodup
import Mathlib.Logic.Function.Basic

/-!
Links of which an element has at most one in each direction, and walks along them.

Proved here:

* `Walk.nodup`: a walk that does not come back to its start has no repetition;
* `forward_spec`, `backward_spec`: a bounded walk forward, and one back that stops at what is covered;
* `forward_retrace`, `backward_retrace`: both follow a walk that is there;
* `Walk.exists_group`: a walk whose extensions are bounded is part of a closed one.
-/

namespace Matchings

variable {α : Type*}

/-- At most one successor and one predecessor. -/
structure Matching (α : Type*) where
  next : α → Option α
  prev : α → Option α
  inverse : ∀ a b, next a = some b ↔ prev b = some a
  irreflexive : ∀ a, next a ≠ some a

namespace Matching

def empty : Matching α where
  next _ := none
  prev _ := none
  inverse _ _ := iff_of_false nofun nofun
  irreflexive _ := nofun

section Add

variable [DecidableEq α] (m : Matching α) (a b : α)

/-- A link is added where neither end has one. -/
def add : Matching α :=
  if h : a = b ∨ (m.next a).isSome ∨ (m.prev b).isSome then m
  else
    { next := Function.update m.next a (some b)
      prev := Function.update m.prev b (some a)
      inverse := by
        simp only [not_or, Bool.not_eq_true, Option.isSome_eq_false_iff, Option.isNone_iff_eq_none] at h
        obtain ⟨-, hnext, hprev⟩ := h
        intro c d
        by_cases hc : c = a
        · subst hc
          rw [Function.update_self]
          by_cases hd : d = b
          · subst hd
            simp
          · rw [Function.update_of_ne hd, ← m.inverse, hnext]
            simp [Ne.symm hd]
        · rw [Function.update_of_ne hc, m.inverse]
          by_cases hd : d = b
          · subst hd
            rw [Function.update_self, hprev]
            simp [Ne.symm hc]
          · rw [Function.update_of_ne hd]
      irreflexive := by
        rw [not_or] at h
        intro c hc
        by_cases hca : c = a
        · subst hca
          rw [Function.update_self, Option.some.injEq] at hc
          exact h.1 hc.symm
        · rw [Function.update_of_ne hca] at hc
          exact m.irreflexive c hc }

variable {m a b} {c d : α}

/-- A link that is there was there, or is the one added. -/
theorem of_add (h : (m.add a b).next c = some d) : m.next c = some d ∨ c = a ∧ d = b := by
  unfold add at h
  split at h
  · exact .inl h
  · change Function.update m.next a (some b) c = some d at h
    by_cases hc : c = a
    · subst hc
      rw [Function.update_self, Option.some.injEq] at h
      exact .inr ⟨rfl, h.symm⟩
    · rw [Function.update_of_ne hc] at h
      exact .inl h

end Add

variable (m : Matching α) {a b c : α}

theorem next_inj (ha : m.next a = some c) (hb : m.next b = some c) : a = b := by
  rw [m.inverse] at ha hb
  exact Option.some.inj (ha.symm.trans hb)

/-- Each element is followed by the next. -/
def Walk (path : List α) : Prop := path.IsChain fun a b => m.next a = some b

variable {m} {path front back : List α}

theorem Walk.of_infix (h : m.Walk path) (hstands : front <:+: path) : m.Walk front := h.infix hstands

/-- What stands between two parts is linked. -/
theorem Walk.between (front : List α) (b : α) (back : List α) (h : m.Walk (front ++ b :: back))
    (hne : front ≠ []) : m.next (front.getLast hne) = some b := by
  refine (List.isChain_append.1 h).2.2 _ ?_ b ?_
  · rw [Option.mem_def, List.getLast?_eq_some_getLast hne]
  · rfl

theorem Walk.concat (h : m.Walk path) (hne : path ≠ []) (hnext : m.next (path.getLast hne) = some b) :
    m.Walk (path ++ [b]) := by
  refine List.isChain_append.2 ⟨h, List.isChain_singleton b, ?_⟩
  intro x hx y hy
  rw [List.getLast?_eq_some_getLast hne, Option.mem_def, Option.some.injEq] at hx
  rw [List.head?_cons, Option.mem_def, Option.some.injEq] at hy
  rw [← hx, ← hy]
  exact hnext

theorem Walk.cons (h : m.Walk path) (hne : path ≠ []) (hprev : m.prev (path.head hne) = some a) :
    m.Walk (a :: path) := by
  cases path with
  | nil => exact absurd rfl hne
  | cons b path => exact List.isChain_cons_cons.2 ⟨(m.inverse a b).2 hprev, h⟩

/-- A walk that does not come back to its start has no repetition. -/
theorem Walk.nodup (h : m.Walk (a :: path)) (hstart : a ∉ path) : (a :: path).Nodup := by
  induction path using List.reverseRecOn with
  | nil => exact List.nodup_singleton a
  | append_singleton path b ih =>
    rw [List.mem_append, not_or] at hstart
    have hfront : m.Walk (a :: path) := h.of_infix (List.prefix_append (a :: path) [b]).isInfix
    have hnodup := ih hfront hstart.1
    rw [← List.cons_append]
    refine List.nodup_append.2 ⟨hnodup, List.nodup_singleton b, ?_⟩
    rintro c hc d hd rfl
    rw [List.mem_singleton] at hd
    subst hd
    rcases List.mem_cons.1 hc with rfl | hc
    · exact hstart.2 List.mem_cons_self
    · -- The element has two predecessors, on either side of itself.
      obtain ⟨u, v, rfl⟩ := List.append_of_mem hc
      have hfirst := Walk.between (a :: u) c v hfront (by simp)
      have hlast := Walk.between (a :: (u ++ c :: v)) c [] h (by simp)
      have heq := m.next_inj hfirst hlast
      have hmem : (a :: u).getLast (by simp) ∈ c :: v := by
        rw [heq]
        have hsuffix : (a :: (u ++ c :: v)).getLast (by simp) = (c :: v).getLast (by simp) :=
          List.getLast_append_of_ne_nil (l := a :: u) (by simp) (by simp)
        rw [hsuffix]
        exact List.getLast_mem _
      rw [← List.cons_append, List.nodup_append] at hnodup
      exact hnodup.2.2 _ (List.getLast_mem _) _ hmem rfl

/-! ## Bounded walks -/

/-- Forward along the links, for a number of steps, until what stops it. -/
def forward (m : Matching α) (stop : α → Bool) : Nat → α → α
  | 0, tail => tail
  | steps + 1, tail =>
    match m.next tail with
    | none => tail
    | some after => if stop after then tail else forward m stop steps after

section Forward

variable {stop : α → Bool}

/-- Where a bounded walk ends. -/
theorem forward_spec (m : Matching α) (stop : α → Bool) (steps : Nat) (a : α) :
    ∃ path, m.Walk (a :: path) ∧ (a :: path).getLast (by simp) = m.forward stop steps a ∧
      (∀ b ∈ path, stop b = false) ∧ path.length ≤ steps := by
  induction steps generalizing a with
  | zero => exact ⟨[], List.isChain_singleton a, rfl, nofun, Nat.le_refl 0⟩
  | succ steps ih =>
    unfold forward
    cases hnext : m.next a with
    | none => exact ⟨[], List.isChain_singleton a, rfl, nofun, Nat.zero_le _⟩
    | some b =>
      dsimp only
      cases hstop : stop b with
      | true =>
        rw [if_pos rfl]
        exact ⟨[], List.isChain_singleton a, rfl, nofun, Nat.zero_le _⟩
      | false =>
        rw [if_neg Bool.false_ne_true]
        obtain ⟨path, hwalk, hlast, hpath, hlength⟩ := ih b
        refine ⟨b :: path, List.isChain_cons_cons.2 ⟨hnext, hwalk⟩, ?_, ?_, ?_⟩
        · rw [List.getLast_cons (by simp)]
          exact hlast
        · intro c hc
          rcases List.mem_cons.1 hc with rfl | hc
          · exact hstop
          · exact hpath c hc
        · rw [List.length_cons]
          omega

/-- A walk that is there is followed to its end. -/
theorem forward_retrace {steps : Nat} (h : m.Walk (a :: path)) (hpath : ∀ b ∈ path, stop b = false)
    (hlength : path.length ≤ steps)
    (hend : ∀ b, m.next ((a :: path).getLast (by simp)) = some b → stop b = true) :
    m.forward stop steps a = (a :: path).getLast (by simp) := by
  induction path generalizing a steps with
  | nil =>
    cases steps with
    | zero => rfl
    | succ steps =>
      unfold forward
      cases hnext : m.next a with
      | none => rfl
      | some b => simp [hend b hnext]
  | cons b path ih =>
    cases steps with
    | zero =>
      rw [List.length_cons] at hlength
      omega
    | succ steps =>
      obtain ⟨hnext, hwalk⟩ := List.isChain_cons_cons.1 h
      unfold forward
      rw [hnext]
      simp only [hpath b List.mem_cons_self, Bool.false_eq_true, if_false]
      rw [List.getLast_cons (by simp)] at hend ⊢
      refine ih hwalk (fun c hc => hpath c (List.mem_cons_of_mem _ hc)) ?_ hend
      rw [List.length_cons] at hlength
      omega

end Forward

section Backward

variable [DecidableEq α] (m : Matching α) (covered listed : α → Bool)

/-- Back from the first of a path, for a number of steps, until what is covered or on the path; what
is not listed is the last taken. -/
def backward : Nat → List α → List α
  | 0, path => path
  | steps + 1, path =>
    match path.head?.bind m.prev with
    | none => path
    | some before =>
      if before ∈ path || covered before then path
      else if !listed before then before :: path
      else backward steps (before :: path)

variable {m covered listed}

/-- What a bounded walk back adds. -/
theorem backward_spec {steps : Nat} (hne : path ≠ []) (h : m.Walk path) (hnodup : path.Nodup)
    (hlisted : ∀ a ∈ path, listed a = true) :
    ∃ front, m.backward covered listed steps path = front ++ path ∧ m.Walk (front ++ path) ∧
      (front ++ path).Nodup ∧ (∀ a ∈ front, covered a = false) ∧
      ∀ a ∈ (front ++ path).tail, listed a = true := by
  have hstay : ∀ {path : List α}, (∀ a ∈ path, listed a = true) → m.Walk path → path.Nodup →
      ∃ front, path = front ++ path ∧ m.Walk (front ++ path) ∧ (front ++ path).Nodup ∧
        (∀ a ∈ front, covered a = false) ∧ ∀ a ∈ (front ++ path).tail, listed a = true :=
    fun hlisted h hnodup =>
      ⟨[], rfl, h, hnodup, nofun, fun a ha => hlisted a (List.mem_of_mem_tail ha)⟩
  induction steps generalizing path with
  | zero => exact hstay hlisted h hnodup
  | succ steps ih =>
    obtain ⟨b, rest, rfl⟩ := List.exists_cons_of_ne_nil hne
    unfold backward
    rw [List.head?_cons, Option.bind_some]
    cases hprev : m.prev b with
    | none => exact hstay hlisted h hnodup
    | some before =>
      dsimp only
      split
      · exact hstay hlisted h hnodup
      · next hfree =>
        simp only [Bool.or_eq_true, decide_eq_true_eq, not_or, Bool.not_eq_true] at hfree
        have hwalk : m.Walk (before :: b :: rest) := h.cons (by simp) hprev
        have hnew : (before :: b :: rest).Nodup := List.nodup_cons.2 ⟨hfree.1, hnodup⟩
        split
        · exact ⟨[before], rfl, hwalk, hnew, fun a ha => by
            rw [List.mem_singleton.1 ha]
            exact hfree.2, hlisted⟩
        · next hbefore =>
          have hall : ∀ a ∈ before :: b :: rest, listed a = true := by
            intro a ha
            rcases List.mem_cons.1 ha with rfl | ha
            · simpa using hbefore
            · exact hlisted a ha
          obtain ⟨front, hback, hrest⟩ := ih (by simp) hwalk hnew hall
          refine ⟨front ++ [before], ?_, ?_⟩
          · rw [hback, List.append_assoc, List.singleton_append]
          · rw [List.append_assoc, List.singleton_append]
            refine ⟨hrest.1, hrest.2.1, ?_, hrest.2.2.2⟩
            intro a ha
            rcases List.mem_append.1 ha with ha | ha
            · exact hrest.2.2.1 a ha
            · rw [List.mem_singleton.1 ha]
              exact hfree.2

/-- A walk that is there is followed back. -/
theorem backward_retrace {steps : Nat} (hne : path ≠ []) (h : m.Walk (front ++ path))
    (hnodup : (front ++ path).Nodup) (hfree : ∀ a ∈ front, covered a = false)
    (hlisted : ∀ a ∈ front, listed a = true) :
    m.backward covered listed (front.length + steps) path =
      m.backward covered listed steps (front ++ path) := by
  induction front using List.reverseRecOn generalizing path with
  | nil => rw [List.length_nil, Nat.zero_add, List.nil_append]
  | append_singleton front a ih =>
    obtain ⟨b, rest, rfl⟩ := List.exists_cons_of_ne_nil hne
    rw [List.append_assoc, List.singleton_append] at h hnodup ⊢
    have hlink : m.prev b = some a := by
      have hwalk : m.Walk (a :: b :: rest) := h.of_infix (List.suffix_append front _).isInfix
      exact (m.inverse a b).1 (List.isChain_cons_cons.1 hwalk).1
    have hnot : a ∉ b :: rest := (List.nodup_cons.1 (List.nodup_append.1 hnodup).2.1).1
    have hsteps : (front ++ [a]).length + steps = (front.length + steps) + 1 := by
      rw [List.length_append, List.length_singleton]
      omega
    have hone : m.backward covered listed (front.length + steps + 1) (b :: rest) =
        m.backward covered listed (front.length + steps) (a :: b :: rest) := by
      conv_lhs => unfold backward
      rw [List.head?_cons, Option.bind_some, hlink]
      simp [hnot, hfree a (by simp), hlisted a (by simp)]
    rw [hsteps, hone]
    exact ih (by simp) h hnodup (fun c hc => hfree c (List.mem_append_left _ hc))
      fun c hc => hlisted c (List.mem_append_left _ hc)

end Backward

/-! ## Groups -/

section Groups

variable {listed : α → Prop} {group : List α}

/-- What is linked to a group and listed is in the group, and its links do not go round. -/
structure Group (m : Matching α) (listed : α → Prop) (group : List α) : Prop where
  walk : m.Walk group
  nodup : group.Nodup
  all : ∀ a ∈ group, listed a
  next : ∀ a ∈ group, ∀ b, m.next a = some b → listed b → b ∈ group
  prev : ∀ a ∈ group, ∀ b, m.prev a = some b → listed b → b ∈ group
  last : ∀ hne : group ≠ [], ∀ b, m.next (group.getLast hne) = some b → ¬ listed b

/-- What is listed of a walk is in every group that the walk meets. -/
theorem Group.mem_of_walk (h : m.Group listed group) (hwalk : m.Walk path)
    (hlisted : ∀ b ∈ path.tail, listed b) (ha : a ∈ group) (hmem : a ∈ path) :
    ∀ b ∈ path, listed b → b ∈ group := by
  induction path generalizing a with
  | nil => cases hmem
  | cons c path ih =>
    cases path with
    | nil =>
      intro b hb _
      rw [List.mem_singleton.1 hb]
      rwa [List.mem_singleton.1 hmem] at ha
    | cons d path =>
      obtain ⟨hlink, hrest⟩ := List.isChain_cons_cons.1 hwalk
      have hd : listed d := hlisted d List.mem_cons_self
      have htail : ∀ b ∈ (d :: path).tail, listed b := fun b hb => hlisted b (List.mem_of_mem_tail hb)
      have hdMem : d ∈ group := by
        rcases List.mem_cons.1 hmem with rfl | hmem
        · exact h.next a ha d hlink hd
        · exact ih hrest htail ha hmem d List.mem_cons_self hd
      intro b hb hbListed
      rcases List.mem_cons.1 hb with rfl | hb
      · exact h.prev d hdMem b ((m.inverse b d).1 hlink) hbListed
      · exact ih hrest htail hdMem List.mem_cons_self b hb hbListed

/-- A walk with nothing listed before or after it is a group. -/
theorem Walk.toGroup (h : m.Walk path) (hne : path ≠ []) (hlisted : ∀ a ∈ path, listed a)
    (hlast : ∀ b, m.next (path.getLast hne) = some b → ¬ listed b)
    (hhead : ∀ b, m.prev (path.head hne) = some b → ¬ listed b) : m.Group listed path := by
  refine ⟨h, ?_, hlisted, ?_, ?_, fun _ => hlast⟩
  · obtain ⟨a, rest, rfl⟩ := List.exists_cons_of_ne_nil hne
    refine h.nodup fun hmem => ?_
    obtain ⟨u, v, rfl⟩ := List.append_of_mem hmem
    have hlink := Walk.between (a :: u) a v h (by simp)
    refine hhead ((a :: u).getLast (by simp)) ((m.inverse _ _).1 hlink) (hlisted _ ?_)
    rw [← List.cons_append]
    exact List.mem_append_left _ (List.getLast_mem _)
  · intro a ha b hnext hb
    obtain ⟨u, v, rfl⟩ := List.append_of_mem ha
    cases v with
    | nil =>
      refine absurd hb (hlast b ?_)
      rw [List.getLast_append_of_ne_nil _ (by simp)]
      exact hnext
    | cons c v =>
      have hlink := Walk.between (u ++ [a]) c v (by simpa using h) (by simp)
      rw [List.getLast_append_of_ne_nil _ (by simp), List.getLast_singleton, hnext,
        Option.some.injEq] at hlink
      rw [hlink]
      simp
  · intro a ha b hprev hb
    obtain ⟨u, v, rfl⟩ := List.append_of_mem ha
    rcases List.eq_nil_or_concat u with rfl | ⟨u, c, rfl⟩
    · exact absurd hb (hhead b hprev)
    · have hlink := Walk.between (u ++ [c]) a v (by simpa using h) (by simp)
      rw [List.getLast_append_of_ne_nil _ (by simp), List.getLast_singleton, m.inverse, hprev,
        Option.some.injEq] at hlink
      rw [hlink]
      simp

/-- A walk whose extensions are bounded is part of a group. -/
theorem Walk.exists_group {bound : Nat} (h : m.Walk path) (hne : path ≠ [])
    (hlisted : ∀ a ∈ path, listed a)
    (hbound : ∀ walk, path <:+: walk → m.Walk walk → (∀ a ∈ walk, listed a) → walk.length ≤ bound) :
    ∃ group, path <:+: group ∧ m.Group listed group ∧ group.length ≤ bound := by
  induction hroom : bound - path.length using Nat.strong_induction_on generalizing path with
  | _ room ih =>
    have hlength := hbound path List.infix_rfl h hlisted
    have hextend : ∀ longer, path <:+: longer → m.Walk longer → (∀ a ∈ longer, listed a) →
        path.length < longer.length →
        ∃ group, path <:+: group ∧ m.Group listed group ∧ group.length ≤ bound := by
      intro longer hstands hwalk hall hlonger
      have hfits := hbound longer hstands hwalk hall
      obtain ⟨group, hpart, hgroup⟩ := ih (bound - longer.length) (by omega) hwalk
        (fun hnil => by simp [hnil] at hlonger) hall
        (fun walk hwalk => hbound walk (hstands.trans hwalk)) rfl
      exact ⟨group, hstands.trans hpart, hgroup⟩
    by_cases hafter : ∃ b, m.next (path.getLast hne) = some b ∧ listed b
    · obtain ⟨b, hnext, hb⟩ := hafter
      refine hextend (path ++ [b]) (List.prefix_append path [b]).isInfix (h.concat hne hnext) ?_ (by simp)
      intro a ha
      rcases List.mem_append.1 ha with ha | ha
      · exact hlisted a ha
      · rw [List.mem_singleton.1 ha]
        exact hb
    · by_cases hbefore : ∃ b, m.prev (path.head hne) = some b ∧ listed b
      · obtain ⟨b, hprev, hb⟩ := hbefore
        refine hextend (b :: path) (List.suffix_cons b path).isInfix (h.cons hne hprev) ?_ (by simp)
        intro a ha
        rcases List.mem_cons.1 ha with rfl | ha
        · exact hb
        · exact hlisted a ha
      · exact ⟨path, List.infix_rfl, h.toGroup hne hlisted (fun b hnext hb => hafter ⟨b, hnext, hb⟩)
          fun b hprev hb => hbefore ⟨b, hprev, hb⟩, hlength⟩

end Groups

end Matching

end Matchings
