import Mathlib.Data.List.Sort
import Mathlib.Logic.Function.Iterate

/-!
A queue that is read from its front, a bounded number of entries at a time. An entry that was
served before keeps its place; one that is served now leaves.

Proved here:
* `filter_insertionSort`: a queue kept in order is the same queue with entries left out;
* `pass_progress`, `drains`: when everything unserved is in reach, a pass serves something, and
  passes serve everything;
* `stuck`: an entry that is out of reach stays for ever.
-/

namespace Backlogs

variable {α : Type*}

/-! ## Order -/

section Order

variable {r : α → α → Prop} [DecidableRel r] [Std.Total r] [IsTrans α r]

omit [Std.Total r] in
theorem filter_orderedInsert (p : α → Bool) (a : α) {queue : List α} (hsorted : queue.Pairwise r) :
    (queue.orderedInsert r a).filter p
      = if p a then (queue.filter p).orderedInsert r a else queue.filter p := by
  induction queue with
  | nil => cases hp : p a <;> simp [hp]
  | cons b queue ih =>
    obtain ⟨hb, hrest⟩ := List.pairwise_cons.1 hsorted
    by_cases hab : r a b
    · rw [List.orderedInsert_cons_of_le r queue hab]
      cases hp : p a with
      | false => simp [hp]
      | true =>
        rw [List.filter_cons_of_pos hp, if_pos rfl]
        have hfirst : ∀ x ∈ (b :: queue).filter p, r a x := by
          intro x hx
          rcases List.mem_cons.1 (List.mem_filter.1 hx).1 with rfl | hx
          · exact hab
          · exact IsTrans.trans _ _ _ hab (hb x hx)
        cases hqueue : (b :: queue).filter p with
        | nil => rfl
        | cons x rest =>
          rw [List.orderedInsert_cons_of_le r rest (hfirst x (hqueue ▸ List.mem_cons_self))]
    · rw [List.orderedInsert_of_not_le r queue hab]
      cases hpb : p b with
      | false =>
        rw [List.filter_cons_of_neg (by simp [hpb]), List.filter_cons_of_neg (by simp [hpb]),
          ih hrest]
      | true =>
        rw [List.filter_cons_of_pos hpb, List.filter_cons_of_pos hpb, ih hrest]
        split
        · rw [List.orderedInsert_of_not_le r _ hab]
        · rfl

/-- Leaving entries out and putting them in order commute. -/
theorem filter_insertionSort (p : α → Bool) (queue : List α) :
    (queue.insertionSort r).filter p = (queue.filter p).insertionSort r := by
  induction queue with
  | nil => rfl
  | cons a queue ih =>
    rw [List.insertionSort_cons, filter_orderedInsert p a (List.pairwise_insertionSort r queue), ih]
    cases hp : p a with
    | false => rw [List.filter_cons_of_neg (by simp [hp])]; rfl
    | true => rw [List.filter_cons_of_pos hp]; rfl

end Order

/-! ## Passes -/

section Passes

variable (served : α → Bool) (limit : Nat)

/-- What is left of a queue after a pass. -/
def pass (queue : List α) : List α := (queue.take limit).filter served ++ queue.drop limit

theorem pass_congr {served served' : α → Bool} {limit : Nat} {queue : List α}
    (h : ∀ a ∈ queue, served a = served' a) : pass served limit queue = pass served' limit queue := by
  unfold pass
  rw [List.filter_congr fun a ha => h a (List.mem_of_mem_take ha)]

/-- No entry that waits has `limit` served ones before it. -/
def InReach (queue : List α) : Prop :=
  ∀ front a back, queue = front ++ a :: back → served a = false → front.countP served < limit

variable {served limit} {queue : List α}

/-- Where fewer than the limit were served, everything is in reach. -/
theorem inReach_of_countP (h : queue.countP served < limit) : InReach served limit queue := by
  rintro front a back rfl -
  rw [List.countP_append] at h
  omega

/-- The first entry that waits is among those a pass looks at. -/
theorem pass_progress (h : InReach served limit queue) (hwaits : ∃ a ∈ queue, served a = false) :
    ∃ a ∈ queue.take limit, served a = false := by
  obtain ⟨b, hb, hwait⟩ := hwaits
  cases hfind : queue.find? (fun a => !served a) with
  | none =>
    have hall := List.find?_eq_none.1 hfind b hb
    simp [hwait] at hall
  | some a =>
    obtain ⟨ha, front, back, hqueue, hfront⟩ := List.find?_eq_some_iff_append.1 hfind
    have ha' : served a = false := by simpa using ha
    have hcount := h front a back hqueue ha'
    have hall : front.countP served = front.length := by
      rw [List.countP_eq_length]
      intro x hx
      simpa using hfront x hx
    refine ⟨a, ?_, ha'⟩
    rw [hqueue, List.take_append, List.mem_append]
    right
    cases hroom : limit - front.length with
    | zero => omega
    | succ n => simp

/-- Where an entry that waits stands after a pass. -/
theorem pass_split {front back : List α} {a : α} (ha : served a = false)
    (h : pass served limit queue = front ++ a :: back) :
    ∃ front', queue = front' ++ a :: back ∧ front'.countP served = front.countP served := by
  rcases List.append_eq_append_iff.1 h with ⟨middle, hfront, hdrop⟩ | ⟨middle, htake, hback⟩
  · refine ⟨queue.take limit ++ middle, ?_, ?_⟩
    · rw [List.append_assoc, ← hdrop, List.take_append_drop]
    · rw [hfront, List.countP_append, List.countP_append, List.countP_filter]
      simp
  · cases middle with
    | nil =>
      refine ⟨queue.take limit, ?_, ?_⟩
      · rw [List.nil_append] at hback
        rw [hback, List.take_append_drop]
      · rw [List.append_nil] at htake
        rw [← htake, List.countP_filter]
        simp
    | cons x middle =>
      obtain ⟨rfl, -⟩ := List.cons_eq_cons.1 hback
      have hmem : a ∈ (queue.take limit).filter served := by
        rw [htake]
        simp
      rw [(List.mem_filter.1 hmem).2] at ha
      cases ha

theorem inReach_pass (h : InReach served limit queue) : InReach served limit (pass served limit queue) := by
  intro front a back hpass ha
  obtain ⟨front', hqueue, hcount⟩ := pass_split ha hpass
  rw [← hcount]
  exact h front' a back hqueue ha

/-- A pass that finds an entry waiting leaves fewer of them. -/
theorem pass_fewer (h : ∃ a ∈ queue.take limit, served a = false) :
    (pass served limit queue).countP (fun a => !served a) < queue.countP fun a => !served a := by
  obtain ⟨a, ha, hwait⟩ := h
  have hpos : 0 < (queue.take limit).countP fun a => !served a :=
    List.countP_pos_iff.2 ⟨a, ha, by simp [hwait]⟩
  have hnone : ((queue.take limit).filter served).countP (fun a => !served a) = 0 := by
    rw [List.countP_eq_zero]
    intro x hx
    simp [(List.mem_filter.1 hx).2]
  have hsplit : queue.countP (fun a => !served a)
      = (queue.take limit).countP (fun a => !served a)
        + (queue.drop limit).countP fun a => !served a := by
    rw [← List.countP_append, List.take_append_drop]
  rw [pass, List.countP_append, hnone, hsplit]
  omega

theorem drains (h : InReach served limit queue) :
    ∃ n, ∀ a ∈ (pass served limit)^[n] queue, served a = true := by
  induction hn : queue.countP (fun a => !served a) using Nat.strong_induction_on generalizing queue with
  | _ n ih =>
    by_cases hwaits : ∃ a ∈ queue, served a = false
    · have hless := pass_fewer (pass_progress h hwaits)
      obtain ⟨m, hm⟩ := ih _ (hn ▸ hless) (inReach_pass h) rfl
      exact ⟨m + 1, hm⟩
    · refine ⟨0, fun a ha => ?_⟩
      cases hserved : served a with
      | true => rfl
      | false => exact absurd ⟨a, ha, hserved⟩ hwaits

/-- An entry with `limit` served ones before it stays for ever. -/
theorem stuck {front back : List α} {a : α} (hfront : limit ≤ front.countP served)
    (hqueue : queue = front ++ a :: back) (n : Nat) :
    a ∈ (pass served limit)^[n] queue := by
  induction n generalizing queue front with
  | zero =>
    rw [Function.iterate_zero, id, hqueue]
    simp
  | succ n ih =>
    have hlength : limit ≤ front.length := le_trans hfront List.countP_le_length
    have hpass : pass served limit queue
        = ((front.take limit).filter served ++ front.drop limit) ++ a :: back := by
      rw [pass, hqueue, List.take_append_of_le_length hlength,
        List.drop_append_of_le_length hlength, List.append_assoc]
    rw [Function.iterate_succ_apply]
    refine ih ?_ hpass
    have hboth : (fun b => served b && served b) = served := funext fun b => Bool.and_self _
    rw [List.countP_append, List.countP_filter, hboth, ← List.countP_append,
      List.take_append_drop]
    exact hfront

end Passes

end Backlogs
