import Mathlib.Data.List.Induction
import Mathlib.Logic.Function.Basic
import FoundingSales.Library.Runs
import FoundingSales.Library.Tables

/-!
Transactions that run against one table, a statement at a time and in any order. A
statement names one row. If it writes or locks the row, the row is the transaction's until
it ends; what it wrote others see when it commits. A statement whose row another
transaction holds waits, unless it turns out to need nothing of the row.

A program is verified by itself: `Tx.Obeys` says what each of its commits leaves, whatever
committed rows it meets. `World.step_sound` lifts this to every interleaving, and
`World.step_commits` says that a step changes the committed table by one such commit, whose
rows are still the ones the transaction started from. `Tx.Behind` says which statement a
commit has to come after, and `World.behind_or_passed` finds that statement in the run.
-/

namespace Transactions

open Tables Runs

variable {ρ κ π ε ν ι α γ : Type} {key : ρ → κ}

/-! ## Programs -/

/-- What a statement does to the row it names. -/
inductive Effect (key : ρ → κ) (k : κ)
  | pass
  | lock
  | write (row : ρ) (hkey : key row = k)

/-- A program. A statement sees the answers of the outside world, the table as its
transaction sees it, and the row it names; with `none` it raises, which ends the program. -/
inductive Tx (key : ρ → κ) (ε ν α : Type) : Type 1
  | ret (a : α)
  | read {β : Type} (answer : ε → Table key → β) (next : β → Tx key ε ν α)
  | stmt {β : Type} (k : κ)
      (act : ε → Table key → Option { r : ρ // key r = k } → Option (β × Effect key k))
      (next : β → Tx key ε ν α)
  | commit (note : ν) (next : Tx key ε ν α)
  | rollback (next : Tx key ε ν α)

namespace Tx

def bind : Tx key ε ν α → (α → Tx key ε ν γ) → Tx key ε ν γ
  | .ret a, f => f a
  | .read answer next, f => .read answer fun b => (next b).bind f
  | .stmt k act next, f => .stmt k act fun b => (next b).bind f
  | .commit note next, f => .commit note (next.bind f)
  | .rollback next, f => .rollback (next.bind f)

instance : Monad (Tx key ε ν) where
  pure := .ret
  bind := bind

/-- What a read of the outside world answers. -/
def answer (read : ε → α) : Tx key ε ν α := .read (fun e _ => read e) .ret

def commits (note : ν) : Tx key ε ν Unit := .commit note (.ret ())

/-- Whatever it is answered, the program commits nothing. -/
def NeverCommits : Tx key ε ν α → Prop
  | .ret _ => True
  | .read _ next => ∀ b, (next b).NeverCommits
  | .stmt _ _ next => ∀ b, (next b).NeverCommits
  | .commit _ _ => False
  | .rollback next => next.NeverCommits

theorem NeverCommits.bind {prog : Tx key ε ν α} {f : α → Tx key ε ν γ}
    (h : prog.NeverCommits) (hf : ∀ a, (f a).NeverCommits) : (prog >>= f).NeverCommits := by
  induction prog with
  | ret a => exact hf a
  | read answer next ih => exact fun b => ih b (h b)
  | stmt k act next ih => exact fun b => ih b (h b)
  | commit note next => exact h.elim
  | rollback next ih => exact ih h

/-- Every commit of a guarded note comes behind a gate, a statement the program takes first. -/
def Behind (gate : Tx key ε ν α → Prop) (guarded : ν → Prop) : Tx key ε ν α → Prop
  | .ret _ => True
  | .read _ next => ∀ b, (next b).Behind gate guarded
  | .stmt k act next => gate (.stmt k act next) ∨ ∀ b, (next b).Behind gate guarded
  | .commit note next => ¬ guarded note ∧ next.Behind gate guarded
  | .rollback next => next.Behind gate guarded

/-- Nothing more is asked of the table until the transaction ends, and nothing is committed
after that. -/
def Closing : Tx key ε ν α → Prop
  | .ret _ => True
  | .read _ next => ∀ b, (next b).Closing
  | .stmt _ _ _ => False
  | .commit _ next => next.NeverCommits
  | .rollback next => next.NeverCommits

section Behind

variable {gate : Tx key ε ν α → Prop} {guarded : ν → Prop} {prog : Tx key ε ν α}

theorem NeverCommits.behind (h : prog.NeverCommits) : prog.Behind gate guarded := by
  induction prog with
  | ret a => trivial
  | read answer next ih => exact fun b => ih b (h b)
  | stmt k act next ih => exact .inr fun b => ih b (h b)
  | commit note next => exact h.elim
  | rollback next ih => exact ih h

theorem Behind.bind {gate' : Tx key ε ν γ → Prop} {f : α → Tx key ε ν γ}
    (h : prog.Behind gate guarded) (hgate : ∀ prog, gate prog → gate' (prog >>= f))
    (hf : ∀ a, (f a).Behind gate' guarded) : (prog >>= f).Behind gate' guarded := by
  induction prog with
  | ret a => exact hf a
  | read answer next ih => exact fun b => ih b (h b)
  | stmt k act next ih => exact h.imp (hgate _) fun hrest b => ih b (hrest b)
  | commit note next ih => exact ⟨h.1, ih h.2⟩
  | rollback next ih => exact ih h

theorem Behind.mono {gate' : Tx key ε ν α → Prop} (h : prog.Behind gate guarded)
    (hgate : ∀ prog, gate prog → gate' prog) : prog.Behind gate' guarded := by
  induction prog with
  | ret a => trivial
  | read answer next ih => exact fun b => ih b (h b)
  | stmt k act next ih => exact h.imp (hgate _) fun hrest b => ih b (hrest b)
  | commit note next ih => exact ⟨h.1, ih h.2⟩
  | rollback next ih => exact ih h

theorem Closing.bind {f : α → Tx key ε ν γ} (h : prog.Closing)
    (hf : ∀ a, (f a).Closing ∧ (f a).NeverCommits) : (prog >>= f).Closing := by
  induction prog with
  | ret a => exact (hf a).1
  | read answer next ih => exact fun b => ih b (h b)
  | stmt k act next => exact h.elim
  | commit note next => exact NeverCommits.bind h fun a => (hf a).2
  | rollback next => exact NeverCommits.bind h fun a => (hf a).2

end Behind

def rollsBack : Tx key ε ν Unit := .rollback (.ret ())

end Tx

/-! ## Footprints -/

/-- A row a transaction holds: as it was committed, and as the transaction has it. -/
structure Touched (ρ : Type) where
  base : Option ρ
  current : ρ

/-- The rows a transaction holds. -/
abbrev Footprint (key : ρ → κ) := Table fun t : Touched ρ => key t.current

variable [DecidableEq κ]

/-- The committed table under the rows a transaction holds. -/
def view (t : Table key) (fp : Footprint key) : Table key :=
  fp.rows.foldl (fun t entry => t.upsert entry.current) t

/-- The row a statement sees, over the committed one. -/
def sees (fp : Footprint key) (k : κ) (base : Option ρ) : Option ρ :=
  match fp.find? k with
  | some entry => some entry.current
  | none => base

/-- The committed row behind the one a statement sees. -/
def baseOf (fp : Footprint key) (k : κ) (base : Option ρ) : Option ρ :=
  match fp.find? k with
  | some entry => entry.base
  | none => base

/-- The footprint after a statement. -/
def touch (fp : Footprint key) (k : κ) (base : Option ρ) : Effect key k → Footprint key
  | .pass => fp
  | .lock =>
    match sees fp k base with
    | some row => fp.upsert ⟨baseOf fp k base, row⟩
    | none => fp
  | .write row _ => fp.upsert ⟨baseOf fp k base, row⟩

/-- The committed rows are those the footprint was taken from. -/
def Matches (t : Table key) (fp : Footprint key) : Prop :=
  ∀ entry ∈ fp, t.find? (key entry.current) = entry.base

/-- What one held row adds to a total. -/
def Touched.delta (weight : ρ → Int) (entry : Touched ρ) : Int :=
  weight entry.current - (entry.base.map weight).getD 0

private theorem find?_foldl {k : κ} {entries : List (Touched ρ)}
    (hnodup : (entries.map fun entry => key entry.current).Nodup) (t : Table key) :
    (entries.foldl (fun t entry => t.upsert entry.current) t).find? k
      = ((entries.find? fun entry => key entry.current = k).map Touched.current).or (t.find? k) := by
  induction entries generalizing t with
  | nil => rfl
  | cons entry entries ih =>
    rw [List.map_cons, List.nodup_cons] at hnodup
    rw [List.foldl_cons, ih hnodup.2]
    by_cases hk : key entry.current = k
    · have hnone : entries.find? (fun e => decide (key e.current = k)) = none := by
        refine List.find?_eq_none.2 fun x hx hxk => hnodup.1 ?_
        rw [hk, ← of_decide_eq_true hxk]
        exact List.mem_map_of_mem (f := fun e => key e.current) hx
      rw [hnone, Table.find?_upsert_of_key hk]
      simp [hk]
    · rw [Table.find?_upsert_ne (Ne.symm hk)]
      simp [hk]

theorem find?_view (t : Table key) (fp : Footprint key) (k : κ) :
    (view t fp).find? k = sees fp k (t.find? k) := by
  rw [view, find?_foldl fp.nodup, sees]
  change ((fp.find? k).map Touched.current).or (t.find? k) = _
  cases fp.find? k <;> rfl

private theorem total_foldl {weight : ρ → Int} {entries : List (Touched ρ)}
    (hnodup : (entries.map fun entry => key entry.current).Nodup) {t : Table key}
    (hbase : ∀ entry ∈ entries, t.find? (key entry.current) = entry.base) :
    (entries.foldl (fun t entry => t.upsert entry.current) t).total weight
      = t.total weight + (entries.map (Touched.delta weight)).sum := by
  induction entries generalizing t with
  | nil => simp
  | cons entry entries ih =>
    rw [List.map_cons, List.nodup_cons] at hnodup
    have hrest : ∀ e ∈ entries,
        (t.upsert entry.current).find? (key e.current) = e.base := by
      intro e he
      have hne : key e.current ≠ key entry.current := fun h =>
        hnodup.1 (h ▸ List.mem_map_of_mem (f := fun e => key e.current) he)
      rw [Table.find?_upsert_ne hne, hbase e (List.mem_cons_of_mem _ he)]
    have htotal := Table.total_upsert (t := t) (r := entry.current) weight
    rw [hbase entry List.mem_cons_self] at htotal
    rw [List.foldl_cons, ih hnodup.2 hrest, List.map_cons, List.sum_cons, Touched.delta]
    omega

/-- A commit adds to a total what its rows add. -/
theorem total_view {weight : ρ → Int} {t : Table key} {fp : Footprint key} (h : Matches t fp) :
    (view t fp).total weight = t.total weight + fp.total (Touched.delta weight) :=
  total_foldl fp.nodup h

theorem mem_view {t : Table key} {fp : Footprint key} {r : ρ} (h : r ∈ view t fp) :
    r ∈ t ∨ ∃ entry ∈ fp, entry.current = r := by
  have hfind : (view t fp).find? (key r) = some r := Table.find?_eq_some.2 ⟨h, rfl⟩
  rw [find?_view, sees] at hfind
  cases hfp : fp.find? (key r) with
  | none =>
    rw [hfp] at hfind
    exact .inl (Table.find?_eq_some.1 hfind).1
  | some entry =>
    rw [hfp] at hfind
    exact .inr ⟨entry, (Table.find?_eq_some.1 hfp).1, Option.some.inj hfind⟩

/-- A row's place in the footprint, and the row found there. -/
def rowAt (k : κ) (row : Option ρ) (h : ∀ r, row = some r → key r = k) :
    Option { r : ρ // key r = k } :=
  match row, h with
  | some r, h => some ⟨r, h r rfl⟩
  | none, _ => none

omit [DecidableEq κ] in
theorem rowAt_val {k : κ} {row : Option ρ} {h : ∀ r, row = some r → key r = k} :
    (rowAt k row h).map Subtype.val = row := by
  cases row <;> rfl

omit [DecidableEq κ] in
theorem rowAt_bind {k : κ} {row : Option ρ} {h : ∀ r, row = some r → key r = k}
    (f : ρ → Option α) : ((rowAt k row h).bind fun r => f r.1) = row.bind f := by
  cases row <;> rfl

theorem sees_key {t : Table key} {fp : Footprint key} {k : κ} {r : ρ}
    (h : sees fp k (t.find? k) = some r) : key r = k :=
  Table.find?_key ((find?_view t fp k).trans h)

theorem find?_touch_ne {fp : Footprint key} {k k' : κ} {base : Option ρ} {effect : Effect key k}
    (hkey : ∀ r, sees fp k base = some r → key r = k) (hk : k' ≠ k) :
    (touch fp k base effect).find? k' = fp.find? k' := by
  cases effect with
  | pass => rfl
  | lock =>
    simp only [touch]
    split
    · next row hsees => exact Table.find?_upsert_ne (by simpa [hkey row hsees] using hk)
    · rfl
  | write row hrow => exact Table.find?_upsert_ne (by simpa [hrow] using hk)

theorem find?_touch_write {fp : Footprint key} {k : κ} {base : Option ρ} {row : ρ}
    (hrow : key row = k) :
    (touch fp k base (.write row hrow)).find? k = some ⟨baseOf fp k base, row⟩ :=
  Table.find?_upsert_of_key hrow

theorem find?_touch_lock {fp : Footprint key} {k : κ} {base : Option ρ} {row : ρ}
    (hrow : key row = k) (hsees : sees fp k base = some row) :
    (touch fp k base .lock).find? k = some ⟨baseOf fp k base, row⟩ := by
  simp only [touch, hsees]
  exact Table.find?_upsert_of_key hrow

/-! ## What a program owes -/

section Obeys

variable (checks : ρ → Bool) (Good : ρ → Prop) (G : ν → Footprint key → Prop)

/-- The rows of a footprint are good, the committed ones behind them too. -/
def GoodRows (Good : ρ → Prop) (fp : Footprint key) : Prop :=
  ∀ entry ∈ fp, Good entry.current ∧
    ∀ r, entry.base = some r → Good r ∧ key r = key entry.current

/-- From the footprint `fp` every row the program writes is good if the table accepts it, every
commit satisfies `G`, and on returning `a` with footprint `fp'` the program satisfies `Q a fp'`.
Of a row it sees only its goodness is known. -/
def Tx.Obeys (Q : α → Footprint key → Prop) : Tx key ε ν α → Footprint key → Prop
  | .ret a, fp => Q a fp
  | .read answer next, fp => ∀ e t, Obeys Q (next (answer e t)) fp
  | .stmt k act next, fp => ∀ e t base (row : Option { r : ρ // key r = k }) b effect,
      (∀ r, sees fp k base = some r → Good r) → row.map Subtype.val = sees fp k base →
      act e t row = some (b, effect) →
      (∀ r h, effect = .write r h → checks r = true) →
      (∀ r h, effect = .write r h → Good r) ∧ Obeys Q (next b) (touch fp k base effect)
  | .commit note next, fp => (GoodRows Good fp → G note fp) ∧ Obeys Q next .empty
  | .rollback next, _ => Obeys Q next .empty

variable {checks Good G} {fp : Footprint key}

theorem Tx.obeys_bind {Q : α → Footprint key → Prop} {R : γ → Footprint key → Prop}
    {prog : Tx key ε ν α} {f : α → Tx key ε ν γ} (h : Tx.Obeys checks Good G Q prog fp)
    (hf : ∀ a fp', Q a fp' → Tx.Obeys checks Good G R (f a) fp') :
    Tx.Obeys checks Good G R (prog >>= f) fp := by
  induction prog generalizing fp with
  | ret a => exact hf a fp h
  | read answer next ih => exact fun e t => ih _ (h e t)
  | stmt k act next ih =>
    intro e t base row b effect hbase hrow hact hchecks
    obtain ⟨hgood, hrest⟩ := h e t base row b effect hbase hrow hact hchecks
    exact ⟨hgood, ih b hrest⟩
  | commit note next ih => exact ⟨h.1, ih h.2⟩
  | rollback next ih => exact ih h

/-- Whatever the outside world answers. -/
theorem Tx.obeys_answer_bind {R : γ → Footprint key → Prop} {read : ε → α}
    {f : α → Tx key ε ν γ} (h : ∀ a, Tx.Obeys checks Good G R (f a) fp) :
    Tx.Obeys checks Good G R (Tx.answer read >>= f) fp :=
  fun e _ => h (read e)

end Obeys

/-! ## Worlds -/

structure Session (key : ρ → κ) (ε ν : Type) : Type 1 where
  held : Footprint key
  prog : Tx key ε ν Unit

/-- The committed table, the programs in progress, and who holds which row. -/
structure World (key : ρ → κ) (π ε ν : Type) : Type 1 where
  committed : Table key
  sessions : π → Option (Session key ε ν)
  holder : κ → Option π

inductive Input (π ε ι : Type)
  | start (p : π) (job : ι)
  | run (p : π) (e : ε)
  | abort (p : π)

def Input.process : Input π ε ι → π
  | .start p _ => p
  | .run p _ => p
  | .abort p => p

def Input.starts : Input π ε ι → Bool
  | .start _ _ => true
  | _ => false

/-- Whether the table's conditions let the effect through. -/
def Effect.accepted {k : κ} (checks : ρ → Bool) : Effect key k → Bool
  | .write row _ => checks row
  | _ => true

def Effect.passes {k : κ} : Effect key k → Bool
  | .pass => true
  | _ => false

/-- What a step leaves of a session that goes on. -/
inductive Session.Next (t : Table key) (e : ε) : Session key ε ν → Session key ε ν → Prop
  | waits (s : Session key ε ν) : Next t e s s
  | read {β : Type} (held : Footprint key) (answer : ε → Table key → β)
      (next : β → Tx key ε ν Unit) :
      Next t e ⟨held, .read answer next⟩ ⟨held, next (answer e (view t held))⟩
  | stmt {β : Type} (held : Footprint key) (k : κ)
      (act : ε → Table key → Option { r : ρ // key r = k } → Option (β × Effect key k))
      (next : β → Tx key ε ν Unit) (b : β) (effect : Effect key k)
      (hact : act e (view t held) (rowAt k (sees held k (t.find? k)) fun _ => sees_key)
        = some (b, effect)) :
      Next t e ⟨held, .stmt k act next⟩ ⟨touch held k (t.find? k) effect, next b⟩
  | commit (held : Footprint key) (note : ν) (next : Tx key ε ν Unit) :
      Next t e ⟨held, .commit note next⟩ ⟨.empty, next⟩
  | rollback (held : Footprint key) (next : Tx key ε ν Unit) :
      Next t e ⟨held, .rollback next⟩ ⟨.empty, next⟩

section Next

variable {t : Table key} {e : ε} {s s' : Session key ε ν}

/-- A step that is not behind the gate any more took it. -/
theorem Session.Next.behind {gate : Tx key ε ν Unit → Prop} {guarded : ν → Prop}
    (h : Session.Next t e s s') (hbehind : s.prog.Behind gate guarded) :
    gate s.prog ∨ s'.prog.Behind gate guarded := by
  cases h with
  | waits => exact .inr hbehind
  | read held answer next => exact .inr (hbehind _)
  | stmt held k act next b effect hact => exact hbehind.imp_right fun hrest => hrest b
  | commit held note next => exact .inr hbehind.2
  | rollback held next => exact .inr hbehind

/-- A closing transaction keeps its rows to the end, and then commits nothing. -/
theorem Session.Next.closing (h : Session.Next t e s s') (hclosing : s.prog.Closing) :
    s'.held = s.held ∧ s'.prog.Closing ∨ s'.prog.NeverCommits := by
  cases h with
  | waits => exact .inl ⟨rfl, hclosing⟩
  | read held answer next => exact .inl ⟨rfl, hclosing _⟩
  | stmt held k act next b effect hact => exact hclosing.elim
  | commit held note next => exact .inr hclosing
  | rollback held next => exact .inr hclosing

end Next

namespace World

variable [DecidableEq π]

def idle (t : Table key) : World key π ε ν := ⟨t, fun _ => none, fun _ => none⟩

/-- No other transaction holds the row. -/
def free (w : World key π ε ν) (p : π) (k : κ) : Bool :=
  w.holder k = none || w.holder k = some p

def released (w : World key π ε ν) (p : π) (k : κ) : Option π :=
  if w.holder k = some p then none else w.holder k

/-- The program ends; what it has not committed is gone. -/
def finish (w : World key π ε ν) (p : π) : World key π ε ν :=
  { w with sessions := Function.update w.sessions p none, holder := w.released p }

def resume (w : World key π ε ν) (p : π) (s : Session key ε ν) : World key π ε ν :=
  { w with sessions := Function.update w.sessions p (some s) }

/-- The transaction ends, and the program goes on without a row. -/
def settle (w : World key π ε ν) (p : π) (t : Table key) (next : Tx key ε ν Unit) :
    World key π ε ν where
  committed := t
  sessions := Function.update w.sessions p (some ⟨.empty, next⟩)
  holder := w.released p

/-- A statement's effect takes place. -/
def takes (w : World key π ε ν) (p : π) (held : Footprint key) (k : κ) (effect : Effect key k)
    (next : Tx key ε ν Unit) : World key π ε ν :=
  let held' := touch held k (w.committed.find? k) effect
  { w with
    sessions := Function.update w.sessions p (some ⟨held', next⟩)
    holder := if (held'.find? k).isSome then Function.update w.holder k (some p) else w.holder }

def step (checks : ρ → Bool) (program : ι → Tx key ε ν Unit) (w : World key π ε ν) :
    Input π ε ι → World key π ε ν
  | .start p job =>
    match w.sessions p with
    | some _ => w
    | none => w.resume p ⟨.empty, program job⟩
  | .abort p => w.finish p
  | .run p e =>
    match w.sessions p with
    | none => w
    | some ⟨_, .ret _⟩ => w.finish p
    | some ⟨held, .read answer next⟩ => w.resume p ⟨held, next (answer e (view w.committed held))⟩
    | some ⟨held, .stmt k act next⟩ =>
      match act e (view w.committed held)
          (rowAt k (sees held k (w.committed.find? k)) fun _ => sees_key) with
      | none => if w.free p k then w.finish p else w
      | some (b, effect) =>
        if w.free p k then
          if effect.accepted checks then w.takes p held k effect (next b) else w.finish p
        else if effect.passes then w.resume p ⟨held, next b⟩
        else w
    | some ⟨held, .commit _ next⟩ => w.settle p (view w.committed held) next
    | some ⟨_, .rollback next⟩ => w.settle p w.committed next

/-- The note of the commit an input performs. -/
def committing (w : World key π ε ν) : Input π ε ι → Option ν
  | .run p _ =>
    match w.sessions p with
    | some ⟨_, .commit note _⟩ => some note
    | _ => none
  | _ => none

omit [DecidableEq κ] [DecidableEq π] in
theorem committing_eq_some {w : World key π ε ν} {i : Input π ε ι} {note : ν}
    (h : w.committing i = some note) :
    ∃ p e held next, i = .run p e ∧ w.sessions p = some ⟨held, .commit note next⟩ := by
  cases i with
  | start p job => cases h
  | abort p => cases h
  | run p e =>
    simp only [committing] at h
    split at h
    · next held note' next hs =>
      cases h
      exact ⟨p, e, held, next, rfl, hs⟩
    · cases h

/-- A step leaves the other processes' programs as they are. -/
theorem step_sessions_ne {checks : ρ → Bool} {program : ι → Tx key ε ν Unit}
    {w : World key π ε ν} {i : Input π ε ι} {q : π} (hq : q ≠ i.process) :
    (w.step checks program i).sessions q = w.sessions q := by
  cases i with
  | start p job =>
    simp only [step]
    split
    · rfl
    · exact Function.update_of_ne hq _ _
  | abort p => exact Function.update_of_ne hq _ _
  | run p e =>
    simp only [step]
    split
    · rfl
    · exact Function.update_of_ne hq _ _
    · exact Function.update_of_ne hq _ _
    · split
      · split
        · exact Function.update_of_ne hq _ _
        · rfl
      · split
        · split <;> exact Function.update_of_ne hq _ _
        · split
          · exact Function.update_of_ne hq _ _
          · rfl
    · exact Function.update_of_ne hq _ _
    · exact Function.update_of_ne hq _ _

/-- The session a process has after a step: the one it had, a program just started, or the one
its own step leaves. -/
theorem step_session {checks : ρ → Bool} {program : ι → Tx key ε ν Unit}
    {w : World key π ε ν} {i : Input π ε ι} {p : π} {s' : Session key ε ν}
    (hs' : (w.step checks program i).sessions p = some s') :
    w.sessions p = some s' ∨ (∃ job, i = .start p job ∧ s' = ⟨.empty, program job⟩) ∨
      ∃ e s, i = .run p e ∧ w.sessions p = some s ∧ Session.Next w.committed e s s' := by
  by_cases hp : p = i.process
  · cases i with
    | start q job =>
      obtain rfl : p = q := hp
      simp only [step] at hs'
      split at hs'
      · exact .inl hs'
      · simp only [resume, Function.update_self, Option.some.injEq] at hs'
        exact .inr (.inl ⟨job, rfl, hs'.symm⟩)
    | abort q =>
      obtain rfl : p = q := hp
      simp [step, finish] at hs'
    | run q e =>
      obtain rfl : p = q := hp
      cases hs : w.sessions p with
      | none =>
        simp only [step, hs] at hs'
        cases hs'
      | some s =>
        refine .inr (.inr ⟨e, s, rfl, rfl, ?_⟩)
        obtain ⟨held, prog⟩ := s
        cases prog with
        | ret a => simp [step, hs, finish] at hs'
        | read answer next =>
          simp only [step, hs, resume, Function.update_self, Option.some.injEq] at hs'
          exact hs' ▸ .read held answer next
        | commit note next =>
          simp only [step, hs, settle, Function.update_self, Option.some.injEq] at hs'
          exact hs' ▸ .commit held note next
        | rollback next =>
          simp only [step, hs, settle, Function.update_self, Option.some.injEq] at hs'
          exact hs' ▸ .rollback held next
        | stmt k act next =>
          simp only [step, hs] at hs'
          split at hs'
          · split at hs'
            · simp [finish] at hs'
            · exact Option.some.inj (hs.symm.trans hs') ▸ .waits _
          · next b effect hact =>
            split at hs'
            · split at hs'
              · simp only [takes, Function.update_self, Option.some.injEq] at hs'
                exact hs' ▸ .stmt held k act next b effect hact
              · simp [finish] at hs'
            · split at hs'
              · next hpasses =>
                simp only [resume, Function.update_self, Option.some.injEq] at hs'
                cases effect with
                | pass => exact hs' ▸ .stmt held k act next b .pass hact
                | lock => cases hpasses
                | write r h => cases hpasses
              · exact Option.some.inj (hs.symm.trans hs') ▸ .waits _
  · rw [step_sessions_ne hp] at hs'
    exact .inl hs'

/-- A statement that needs nothing of its row is not made to wait. -/
theorem step_pass {checks : ρ → Bool} {program : ι → Tx key ε ν Unit} {w : World key π ε ν}
    {p : π} {e : ε} {held : Footprint key} {β : Type} {k : κ}
    {act : ε → Table key → Option { r : ρ // key r = k } → Option (β × Effect key k)}
    {next : β → Tx key ε ν Unit} {b : β} (hs : w.sessions p = some ⟨held, .stmt k act next⟩)
    (hact : act e (view w.committed held)
      (rowAt k (sees held k (w.committed.find? k)) fun _ => sees_key) = some (b, .pass)) :
    (w.step checks program (.run p e)).committed = w.committed ∧
      (w.step checks program (.run p e)).sessions p = some ⟨held, next b⟩ := by
  simp only [step, hs, hact]
  split
  · simp [Effect.accepted, World.takes, touch]
  · simp [Effect.passes, World.resume]

/-- What is left of the process's program commits nothing. -/
def Barren (w : World key π ε ν) (p : π) : Prop :=
  ∀ s, w.sessions p = some s → s.prog.NeverCommits

omit [DecidableEq κ] [DecidableEq π] in
theorem Barren.commits_nothing {w : World key π ε ν} {p : π} {e : ε} (h : w.Barren p) :
    w.committing (.run p e : Input π ε ι) = none := by
  simp only [committing]
  split
  · next hs => exact (h _ hs).elim
  · rfl

/-- Until the process starts another program. -/
theorem Barren.step {checks : ρ → Bool} {program : ι → Tx key ε ν Unit} {w : World key π ε ν}
    {p : π} (h : w.Barren p) {i : Input π ε ι} (hi : i.process = p → i.starts = false) :
    (w.step checks program i).Barren p := by
  intro s' hs'
  rcases step_session hs' with hs | ⟨job, rfl, -⟩ | ⟨e, s, rfl, hs, hnext⟩
  · exact h s' hs
  · cases hi rfl
  · have hold := h s hs
    cases hnext with
    | waits => exact hold
    | read held answer next => exact hold _
    | stmt held k act next b effect hact => exact hold b
    | commit held note next => exact hold.elim
    | rollback held next => exact hold

theorem Barren.run {checks : ρ → Bool} {program : ι → Tx key ε ν Unit} {w : World key π ε ν}
    {p : π} (h : w.Barren p) {inputs : List (Input π ε ι)}
    (hstarts : ∀ i ∈ inputs, i.process = p → i.starts = false) :
    (Runs.run (World.step checks program) w inputs).Barren p := by
  induction inputs generalizing w with
  | nil => exact h
  | cons i inputs ih =>
    exact ih (h.step (hstarts i List.mem_cons_self))
      fun j hj => hstarts j (List.mem_cons_of_mem i hj)

/-! ## What a commit comes behind -/

section Behind

variable (checks : ρ → Bool) (program : ι → Tx key ε ν Unit) (gate : Tx key ε ν Unit → Prop)
  (guarded : ν → Prop) (t : Table key)

/-- The input `e` of process `p`, after `front`, took the gate from the session `s`, and from
there through all of `back` the process has been in one transaction that holds these rows. -/
structure Passed (p : π) (held : Footprint key) (front : List (Input π ε ι)) (e : ε)
    (back : List (Input π ε ι)) (s : Session key ε ν) : Prop where
  session : (run (step checks program) (idle t) front).sessions p = some s
  took : gate s.prog
  next : ∃ prog, ¬ prog.Behind gate guarded ∧
    Session.Next (run (step checks program) (idle t) front).committed e s ⟨held, prog⟩
  since : ∀ mid, mid <+: back → ∃ prog,
    (run (step checks program) (idle t) (front ++ .run p e :: mid)).sessions p = some ⟨held, prog⟩

def HasPassed (p : π) (held : Footprint key) (inputs : List (Input π ε ι)) : Prop :=
  ∃ front e back s, inputs = front ++ .run p e :: back ∧
    Passed checks program gate guarded t p held front e back s

variable {checks program gate guarded t} {p : π}

theorem HasPassed.concat {held : Footprint key} {inputs : List (Input π ε ι)} {i : Input π ε ι}
    {prog : Tx key ε ν Unit} (h : HasPassed checks program gate guarded t p held inputs)
    (hs : (run (step checks program) (idle t) (inputs ++ [i])).sessions p = some ⟨held, prog⟩) :
    HasPassed checks program gate guarded t p held (inputs ++ [i]) := by
  obtain ⟨front, e, back, s, rfl, hpassed⟩ := h
  rw [List.append_assoc, List.cons_append] at hs ⊢
  refine ⟨front, e, back ++ [i], s, rfl, hpassed.session, hpassed.took, hpassed.next, ?_⟩
  intro mid hmid
  rcases List.prefix_concat_iff.1 hmid with rfl | hmid
  · exact ⟨prog, hs⟩
  · exact hpassed.since mid hmid

/-- Where every program is behind a gate, and a gate once taken leaves nothing but the end of
the transaction, a process that is not behind the gate has taken it in this transaction. -/
theorem behind_or_passed (hprogram : ∀ job, (program job).Behind gate guarded)
    (hgate : ∀ (t : Table key) (e : ε) (s s' : Session key ε ν), gate s.prog →
      Session.Next t e s s' → s'.prog.Behind gate guarded ∨ s'.prog.Closing)
    {inputs : List (Input π ε ι)} {s : Session key ε ν}
    (hs : (run (step checks program) (idle t) inputs).sessions p = some s) :
    s.prog.Behind gate guarded ∨
      s.prog.Closing ∧ HasPassed checks program gate guarded t p s.held inputs := by
  induction inputs using List.reverseRecOn generalizing s with
  | nil => cases hs
  | append_singleton inputs i ih =>
    have hlast := hs
    rw [run_append, run_cons, run_nil] at hs
    rcases step_session hs with hsame | ⟨job, rfl, rfl⟩ | ⟨e, s₀, rfl, hs₀, hnext⟩
    · exact (ih hsame).imp_right fun ⟨hclosing, hpassed⟩ => ⟨hclosing, hpassed.concat hlast⟩
    · exact .inl (hprogram job)
    · rcases ih hs₀ with hbehind | ⟨hclosing, hpassed⟩
      · by_cases hthrough : s.prog.Behind gate guarded
        · exact .inl hthrough
        have htook := (hnext.behind hbehind).resolve_right hthrough
        refine .inr ⟨(hgate _ _ _ _ htook hnext).resolve_left hthrough, inputs, e, [], s₀, rfl,
          hs₀, htook, ⟨s.prog, hthrough, hnext⟩, fun mid hmid => ?_⟩
        obtain rfl := List.prefix_nil.1 hmid
        exact ⟨s.prog, hlast⟩
      · rcases hnext.closing hclosing with ⟨hheld, hrest⟩ | hnever
        · rw [← hheld] at hpassed
          exact .inr ⟨hrest, hpassed.concat hlast⟩
        · exact .inl hnever.behind

end Behind

section Sound

variable (checks : ρ → Bool) (Good : ρ → Prop) (G : ν → Footprint key → Prop)

/-- A transaction in progress: its rows are as they were committed, and its own. -/
structure Holds (t : Table key) (holder : κ → Option π) (p : π) (s : Session key ε ν) : Prop where
  base : Matches t s.held
  holder : ∀ entry ∈ s.held, holder (key entry.current) = some p
  good : ∀ entry ∈ s.held, Good entry.current
  obeys : Tx.Obeys checks Good G (fun _ _ => True) s.prog s.held

structure Sound (w : World key π ε ν) : Prop where
  good : ∀ r ∈ w.committed, Good r
  holds : ∀ p s, w.sessions p = some s → Holds checks Good G w.committed w.holder p s

variable {checks Good G}

omit [DecidableEq π] in
theorem Holds.goodRows {t : Table key} {holder : κ → Option π} {p : π} {s : Session key ε ν}
    (h : Holds checks Good G t holder p s) (hgood : ∀ r ∈ t, Good r) : GoodRows Good s.held :=
  fun entry hentry => ⟨h.good entry hentry, fun r hr => by
    obtain ⟨hmem, hkey⟩ := Table.find?_eq_some.1 ((h.base entry hentry).trans hr)
    exact ⟨hgood r hmem, hkey⟩⟩

omit [DecidableEq π] in
theorem Holds.baseOf_eq {t : Table key} {holder : κ → Option π} {p : π} {s : Session key ε ν}
    (h : Holds checks Good G t holder p s) (k : κ) :
    baseOf s.held k (t.find? k) = t.find? k := by
  unfold baseOf
  cases hfind : s.held.find? k with
  | none => rfl
  | some entry =>
    obtain ⟨hmem, hkey⟩ := Table.find?_eq_some.1 hfind
    exact hkey ▸ (h.base entry hmem).symm

omit [DecidableEq π] in
/-- The rows a transaction sees are good. -/
theorem Holds.sees_good {t : Table key} {holder : κ → Option π} {p : π} {s : Session key ε ν}
    (h : Holds checks Good G t holder p s) (hgood : ∀ r ∈ t, Good r) {k : κ} {r : ρ}
    (hr : sees s.held k (t.find? k) = some r) : Good r := by
  unfold sees at hr
  cases hfind : s.held.find? k with
  | none =>
    rw [hfind] at hr
    exact hgood r (Table.find?_eq_some.1 hr).1
  | some entry =>
    rw [hfind] at hr
    exact Option.some.inj hr ▸ h.good entry (Table.find?_eq_some.1 hfind).1

omit [DecidableEq π] in
theorem sound_idle {t : Table key} (h : ∀ r ∈ t, Good r) :
    Sound checks Good G (idle t : World key π ε ν) :=
  ⟨h, nofun⟩

omit [DecidableEq π] in
/-- Another process's transaction is untouched by a change of one's own rows. -/
theorem Holds.other {t t' : Table key} {holder holder' : κ → Option π} {q : π}
    {s : Session key ε ν} (h : Holds checks Good G t holder q s)
    (hkeep : ∀ k, holder k = some q → t'.find? k = t.find? k ∧ holder' k = some q) :
    Holds checks Good G t' holder' q s where
  base entry hentry := by
    rw [(hkeep _ (h.holder entry hentry)).1]
    exact h.base entry hentry
  holder entry hentry := (hkeep _ (h.holder entry hentry)).2
  good := h.good
  obeys := h.obeys

omit [DecidableEq κ] in
theorem released_of_ne {w : World key π ε ν} {p q : π} {k : κ} (hne : q ≠ p)
    (h : w.holder k = some q) : w.released p k = some q := by
  simp [released, h, hne]

/-- A step that gives process `p` the session `s'`, or none, and keeps the others'. -/
theorem Sound.update {w : World key π ε ν} {t' : Table key} {holder' : κ → Option π} {p : π}
    {s' : Option (Session key ε ν)} (hw : Sound checks Good G w) (hgood : ∀ r ∈ t', Good r)
    (hother : ∀ q k, q ≠ p → w.holder k = some q → t'.find? k = w.committed.find? k ∧
      holder' k = some q)
    (hown : ∀ s, s' = some s → Holds checks Good G t' holder' p s) :
    Sound checks Good G ⟨t', Function.update w.sessions p s', holder'⟩ := by
  refine ⟨hgood, fun q s hs => ?_⟩
  by_cases hq : q = p
  · subst hq
    exact hown s (by simpa using hs)
  · simp only [Function.update_of_ne hq] at hs
    exact (hw.holds q s hs).other fun k hk => hother q k hq hk

theorem Sound.finish {w : World key π ε ν} (hw : Sound checks Good G w) (p : π) :
    Sound checks Good G (w.finish p) :=
  hw.update hw.good (fun _ _ hq hk => ⟨rfl, released_of_ne hq hk⟩) nofun

/-- A process goes on with the rows it has. -/
theorem Sound.resume {w : World key π ε ν} {p : π} {s s' : Session key ε ν}
    (hw : Sound checks Good G w) (hs : w.sessions p = some s) (hheld : s'.held = s.held)
    (hobeys : Tx.Obeys checks Good G (fun _ _ => True) s'.prog s.held) :
    Sound checks Good G (w.resume p s') := by
  refine hw.update hw.good (fun _ _ _ hk => ⟨rfl, hk⟩) fun s'' hs'' => ?_
  cases hs''
  have hold := hw.holds p s hs
  exact ⟨hheld ▸ hold.base, hheld ▸ hold.holder, hheld ▸ hold.good, hheld ▸ hobeys⟩

omit [DecidableEq π] in
theorem holds_empty {t : Table key} {holder : κ → Option π} {p : π} {prog : Tx key ε ν Unit}
    (h : Tx.Obeys checks Good G (fun _ _ => True) prog .empty) :
    Holds checks Good G t holder p ⟨.empty, prog⟩ :=
  ⟨fun _ h => absurd h Table.not_mem_empty, fun _ h => absurd h Table.not_mem_empty,
    fun _ h => absurd h Table.not_mem_empty, h⟩

omit [DecidableEq π] in
theorem not_held {w : World key π ε ν} {p q : π} {s : Session key ε ν} {k : κ}
    (hw : Sound checks Good G w) (hs : w.sessions p = some s) (hne : q ≠ p)
    (hk : w.holder k = some q) : s.held.find? k = none := by
  cases hfind : s.held.find? k with
  | none => rfl
  | some entry =>
    obtain ⟨hmem, hkey⟩ := Table.find?_eq_some.1 hfind
    have hp := (hw.holds p s hs).holder entry hmem
    rw [hkey, hk] at hp
    exact absurd (Option.some.inj hp) hne

/-- A transaction commits. -/
theorem Sound.commit {w : World key π ε ν} {p : π} {s : Session key ε ν}
    {next : Tx key ε ν Unit} (hw : Sound checks Good G w) (hs : w.sessions p = some s)
    (hobeys : Tx.Obeys checks Good G (fun _ _ => True) next .empty) :
    Sound checks Good G (w.settle p (view w.committed s.held) next) := by
  refine hw.update (fun r hr => ?_) (fun q k hq hk => ⟨?_, released_of_ne hq hk⟩) ?_
  · rcases mem_view hr with hr | ⟨entry, hentry, rfl⟩
    · exact hw.good r hr
    · exact (hw.holds p s hs).good entry hentry
  · rw [find?_view, sees, not_held hw hs hq hk]
  · rintro _ ⟨⟩
    exact holds_empty hobeys

/-- The rows a statement leaves the transaction with. -/
theorem mem_touch {fp : Footprint key} {k : κ} {base : Option ρ} {effect : Effect key k}
    {entry : Touched ρ} (h : entry ∈ touch fp k base effect) :
    (entry ∈ fp ∧ (fp.find? k = none → key entry.current ≠ k)) ∨
    (entry.base = baseOf fp k base ∧
      (sees fp k base = some entry.current ∨ ∃ hkey, effect = .write entry.current hkey)) := by
  have hold : ∀ x ∈ fp, fp.find? k = none → key x.current ≠ k := fun x hx hnone =>
    Table.find?_eq_none.1 hnone x hx
  cases effect with
  | pass => exact .inl ⟨h, hold entry h⟩
  | lock =>
    simp only [touch] at h
    split at h
    · next row hsees =>
      rcases Table.mem_upsert.1 h with rfl | ⟨hmem, -⟩
      · exact .inr ⟨rfl, .inl hsees⟩
      · exact .inl ⟨hmem, hold entry hmem⟩
    · exact .inl ⟨h, hold entry h⟩
  | write row hkey =>
    rcases Table.mem_upsert.1 h with rfl | ⟨hmem, -⟩
    · exact .inr ⟨rfl, .inr ⟨hkey, rfl⟩⟩
    · exact .inl ⟨hmem, hold entry hmem⟩

/-- A statement takes effect on a row no other transaction holds. -/
theorem Sound.takes {w : World key π ε ν} {p : π} {s : Session key ε ν} {k : κ}
    {effect : Effect key k} {next : Tx key ε ν Unit} (hw : Sound checks Good G w)
    (hs : w.sessions p = some s) (hfree : w.free p k = true)
    (hgood : ∀ r h, effect = .write r h → Good r)
    (hobeys : Tx.Obeys checks Good G (fun _ _ => True) next
      (touch s.held k (w.committed.find? k) effect)) :
    Sound checks Good G (w.takes p s.held k effect next) := by
  have hold := hw.holds p s hs
  have hkeys : ∀ entry ∈ touch s.held k (w.committed.find? k) effect,
      entry ∈ s.held ∨ key entry.current = k := by
    intro entry hentry
    rcases mem_touch hentry with ⟨hmem, -⟩ | ⟨-, hsees | ⟨hkey, -⟩⟩
    exacts [.inl hmem, .inr (sees_key hsees), .inr hkey]
  refine hw.update hw.good (fun q k' hq hk' => ⟨rfl, ?_⟩) ?_
  · split
    · by_cases hkk : k' = k
      · subst hkk
        simp [free, hk', hq] at hfree
      · rw [Function.update_of_ne hkk, hk']
    · exact hk'
  · rintro _ ⟨⟩
    refine ⟨fun entry hentry => ?_, fun entry hentry => ?_, fun entry hentry => ?_, hobeys⟩
    · rcases mem_touch hentry with ⟨hmem, -⟩ | ⟨hbase, hcurrent⟩
      · exact hold.base entry hmem
      · have hkey : key entry.current = k := by
          rcases hcurrent with hsees | ⟨hkey, -⟩
          exacts [sees_key hsees, hkey]
        rw [hkey, hbase, baseOf]
        cases hfind : s.held.find? k with
        | none => rfl
        | some old =>
          obtain ⟨hmem, hkold⟩ := Table.find?_eq_some.1 hfind
          rw [← hkold]
          exact hold.base old hmem
    · rcases hkeys entry hentry with hmem | hkey
      · have hp := hold.holder entry hmem
        split
        · by_cases hk : key entry.current = k
          · rw [hk, Function.update_self]
          · rw [Function.update_of_ne hk, hp]
        · exact hp
      · have hsome : ((touch s.held k (w.committed.find? k) effect).find? k).isSome = true := by
          rw [Table.find?_eq_some.2 ⟨hentry, hkey⟩]
          rfl
        rw [if_pos hsome, hkey, Function.update_self]
    · rcases mem_touch hentry with ⟨hmem, -⟩ | ⟨-, hsees | ⟨hkey, heffect⟩⟩
      · exact hold.good entry hmem
      · exact hold.sees_good hw.good hsees
      · exact hgood _ hkey heffect

variable {program : ι → Tx key ε ν Unit}

/-- The step of one process: every program keeps what it owes. -/
theorem step_sound (hprogram : ∀ job, Tx.Obeys checks Good G (fun _ _ => True) (program job) .empty)
    {w : World key π ε ν} (hw : Sound checks Good G w) (i : Input π ε ι) :
    Sound checks Good G (w.step checks program i) := by
  cases i with
  | start p job =>
    simp only [step]
    split
    · exact hw
    · refine hw.update hw.good (fun _ _ _ hk => ⟨rfl, hk⟩) ?_
      rintro _ ⟨⟩
      exact holds_empty (hprogram job)
  | abort p => exact hw.finish p
  | run p e =>
    cases hs : w.sessions p with
    | none => simpa only [step, hs] using hw
    | some s =>
      obtain ⟨held, prog⟩ := s
      have hobeys := (hw.holds p _ hs).obeys
      cases prog with
      | ret a => simpa only [step, hs] using hw.finish p
      | read answer next =>
        simp only [step, hs]
        exact hw.resume hs rfl (hobeys e _)
      | commit note next =>
        simp only [step, hs]
        exact hw.commit hs hobeys.2
      | rollback next =>
        simp only [step, hs]
        refine hw.update hw.good (fun _ _ hq hk => ⟨rfl, released_of_ne hq hk⟩) ?_
        rintro _ ⟨⟩
        exact holds_empty hobeys
      | stmt k act next =>
        simp only [step, hs]
        split
        · split
          · exact hw.finish p
          · exact hw
        · next b effect hact =>
          have howes := hobeys e _ (w.committed.find? k) _ b effect
            (fun _ hr => (hw.holds p _ hs).sees_good hw.good hr) rowAt_val hact
          split
          · next hfree =>
            split
            · next haccepted =>
              have hchecks : ∀ r h, effect = .write r h → checks r = true := by
                rintro r h rfl
                exact haccepted
              exact hw.takes hs hfree (howes hchecks).1 (howes hchecks).2
            · exact hw.finish p
          · split
            · next hpasses =>
              cases effect with
              | pass => exact hw.resume hs rfl (howes fun _ _ heffect => by cases heffect).2
              | lock => cases hpasses
              | write r h => cases hpasses
            · exact hw

/-- A step that commits nothing leaves the committed table. -/
theorem step_committed {w : World key π ε ν} {i : Input π ε ι} (h : w.committing i = none) :
    (w.step checks program i).committed = w.committed := by
  cases i with
  | start p job =>
    simp only [step]
    split <;> rfl
  | abort p => rfl
  | run p e =>
    cases hs : w.sessions p with
    | none => simp only [step, hs]
    | some s =>
      obtain ⟨held, prog⟩ := s
      cases prog with
      | commit note next => simp [committing, hs] at h
      | stmt k act next =>
        simp only [step, hs]
        split
        · split <;> rfl
        · split
          · split <;> rfl
          · split <;> rfl
      | ret a => simp only [step, hs, World.finish]
      | read answer next => simp only [step, hs, World.resume]
      | rollback next => simp only [step, hs, World.settle]

theorem step_commit {w : World key π ε ν} {p : π} {e : ε} {held : Footprint key}
    {note : ν} {next : Tx key ε ν Unit} (hs : w.sessions p = some ⟨held, .commit note next⟩) :
    (w.step checks program (.run p e)).committed = view w.committed held := by
  simp only [step, hs, settle]

/-- A commit writes the rows of one transaction, over the rows it took them from. -/
theorem step_commits {f : ι → Tx key ε ν Unit} {w : World key π ε ν} {i : Input π ε ι}
    {note : ν} (hw : Sound checks Good G w) (h : w.committing i = some note) :
    ∃ fp : Footprint key, G note fp ∧ GoodRows Good fp ∧ Matches w.committed fp ∧
      (w.step checks f i).committed = view w.committed fp := by
  obtain ⟨p, e, held, next, rfl, hs⟩ := committing_eq_some h
  have hholds := hw.holds p _ hs
  have hgood := hholds.goodRows hw.good
  exact ⟨held, hholds.obeys.1 hgood, hgood, hholds.base, step_commit hs⟩

/-- Conditions that hold of every good row decide nothing: a table that checks them as well
runs as one that does not. -/
theorem step_checks {stronger : ρ → Bool} (hgood : ∀ r, Good r → stronger r = true)
    (hweaker : ∀ r, stronger r = true → checks r = true) {w : World key π ε ν}
    (hw : Sound checks Good G w) (i : Input π ε ι) :
    w.step stronger program i = w.step checks program i := by
  cases i with
  | start p job => rfl
  | abort p => rfl
  | run p e =>
    cases hs : w.sessions p with
    | none => simp only [step, hs]
    | some s =>
      obtain ⟨held, prog⟩ := s
      cases prog with
      | stmt k act next =>
        have hobeys := (hw.holds p _ hs).obeys
        simp only [step, hs]
        split
        · rfl
        · next b effect hact =>
          have howes := hobeys e _ (w.committed.find? k) _ b effect
            (fun _ hr => (hw.holds p _ hs).sees_good hw.good hr) rowAt_val hact
          have haccepted : effect.accepted stronger = effect.accepted checks := by
            cases effect with
            | pass => rfl
            | lock => rfl
            | write r hkey =>
              by_cases hchecks : checks r = true
              · have hrow : Good r := by
                  refine (howes ?_).1 r hkey rfl
                  rintro r' h' ⟨⟩
                  exact hchecks
                simp only [Effect.accepted, hchecks, hgood r hrow]
              · have hstronger : ¬ stronger r = true := fun h => hchecks (hweaker r h)
                simp only [Effect.accepted]
                rw [Bool.not_eq_true] at hchecks hstronger
                rw [hchecks, hstronger]
          rw [haccepted]
      | ret a => simp only [step, hs]
      | read answer next => simp only [step, hs]
      | commit note next => simp only [step, hs]
      | rollback next => simp only [step, hs]

theorem run_checks {stronger : ρ → Bool} (hgood : ∀ r, Good r → stronger r = true)
    (hweaker : ∀ r, stronger r = true → checks r = true)
    (hprogram : ∀ job, Tx.Obeys checks Good G (fun _ _ => True) (program job) .empty)
    {w : World key π ε ν} (hw : Sound checks Good G w) (inputs : List (Input π ε ι)) :
    run (step stronger program) w inputs = run (step checks program) w inputs := by
  induction inputs generalizing w with
  | nil => rfl
  | cons i inputs ih =>
    rw [run_cons, run_cons, step_checks hgood hweaker hw i, ih (step_sound hprogram hw i)]

end Sound

end World

end Transactions
