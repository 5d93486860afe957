import Mathlib.Logic.Function.Basic
import FoundingSales.Library.Runs

/-!
Transactions over a shared store, a statement at a time and in any order, that lock one
main row before they write. A statement sees what is committed when it runs, under its own
transaction's writes; a lock another transaction holds makes it wait.

A program is verified by itself: `Tx.Keeps` follows it from a state nobody else changes
once the main row is locked.

Proved here:
* `Tx.keeps_bind`, `Tx.keeps_guarded`: how what a program keeps composes;
* `Sound.run`: every interleaving of such programs commits one after the other, each from
  the state the one before it left.
-/

namespace Locking

open Runs

variable {κ ε δ σ ν ι α β γ π : Type}

/-! ## Programs -/

/-- A program over the store `δ`. A read and a lock are answered from the store as the
statement sees it; a write names the rows it touches, and either raises or changes them. A
`note` records something read, and `revert` goes back to where the transaction began. -/
inductive Tx (κ ε δ σ ν α : Type) : Type 1
  | ret (a : α)
  | raise (err : σ)
  | read {β : Type} (answer : ε → δ → β) (next : β → Tx κ ε δ σ ν α)
  | lock {β : Type} (k : κ) (answer : ε → δ → β) (next : β → Tx κ ε δ σ ν α)
  | write {β : Type} (rows : ε → δ → List κ) (act : ε → δ → Except σ (β × (δ → δ)))
      (next : Except σ β → Tx κ ε δ σ ν α)
  | note (n : ν) (next : Tx κ ε δ σ ν α)
  | revert (next : Tx κ ε δ σ ν α)

namespace Tx

def bind : Tx κ ε δ σ ν α → (α → Tx κ ε δ σ ν γ) → Tx κ ε δ σ ν γ
  | .ret a, f => f a
  | .raise err, _ => .raise err
  | .read answer next, f => .read answer fun b => (next b).bind f
  | .lock k answer next, f => .lock k answer fun b => (next b).bind f
  | .write rows act next, f => .write rows act fun b => (next b).bind f
  | .note n next, f => .note n (next.bind f)
  | .revert next, f => .revert (next.bind f)

instance : Monad (Tx κ ε δ σ ν) where
  pure := .ret
  bind := bind

private theorem id_map (prog : Tx κ ε δ σ ν α) : id <$> prog = prog := by
  induction prog with
  | ret a => rfl
  | raise err => rfl
  | read answer next ih => exact congrArg (Tx.read answer) (funext ih)
  | lock k answer next ih => exact congrArg (Tx.lock k answer) (funext ih)
  | write rows act next ih => exact congrArg (Tx.write rows act) (funext ih)
  | note n next ih => exact congrArg (Tx.note n) ih
  | revert next ih => exact congrArg Tx.revert ih

private theorem bind_assoc (prog : Tx κ ε δ σ ν α) (f : α → Tx κ ε δ σ ν β)
    (g : β → Tx κ ε δ σ ν γ) : prog >>= f >>= g = prog >>= fun a => f a >>= g := by
  induction prog with
  | ret a => rfl
  | raise err => rfl
  | read answer next ih => exact congrArg (Tx.read answer) (funext ih)
  | lock k answer next ih => exact congrArg (Tx.lock k answer) (funext ih)
  | write rows act next ih => exact congrArg (Tx.write rows act) (funext ih)
  | note n next ih => exact congrArg (Tx.note n) ih
  | revert next ih => exact congrArg Tx.revert ih

instance : LawfulMonad (Tx κ ε δ σ ν) :=
  LawfulMonad.mk' _ id_map (fun _ _ => rfl) bind_assoc

def select (answer : ε → δ → β) : Tx κ ε δ σ ν β := .read answer .ret

def selectForUpdate (k : κ) (answer : ε → δ → β) : Tx κ ε δ σ ν β := .lock k answer .ret

/-- A write whose error nobody catches. -/
def change (rows : ε → δ → List κ) (act : ε → δ → Except σ (β × (δ → δ))) :
    Tx κ ε δ σ ν β :=
  .write rows act fun
    | .ok b => .ret b
    | .error err => .raise err

def noted (n : ν) : Tx κ ε δ σ ν Unit := .note n (.ret ())

/-- The program under a savepoint: an error the handler knows undoes what was written and is
answered, any other one passes through. -/
def guarded (handler : σ → Option α) : Tx κ ε δ σ ν α → Tx κ ε δ σ ν α
  | .ret a => .ret a
  | .raise err =>
    match handler err with
    | some a => .revert (.ret a)
    | none => .raise err
  | .read answer next => .read answer fun b => (next b).guarded handler
  | .lock k answer next => .lock k answer fun b => (next b).guarded handler
  | .write rows act next => .write rows act fun b => (next b).guarded handler
  | .note n next => .note n (next.guarded handler)
  | .revert next => .revert (next.guarded handler)

end Tx

/-! ## What a program keeps -/

/-- Before the main row is locked, and after: the committed store then, and what the
transaction has made of it. -/
inductive Phase (δ : Type)
  | free
  | held (base now : δ)

section Keeps

variable (main : κ) (I : δ → Prop)

/-- The program writes only under the main lock, and ends in a phase, with the notes it took
and an answer, that satisfy `Q`. Before the lock each statement may meet another store. -/
def Tx.Keeps (Q : Phase δ → List ν → α → Prop) : Tx κ ε δ σ ν α → Phase δ → List ν → Prop
  | .ret a, phase, notes => Q phase notes a
  | .raise _, _, _ => True
  | .read answer next, .free, notes => ∀ e s, I s → (next (answer e s)).Keeps Q .free notes
  | .read answer next, .held base now, notes =>
    ∀ e, (next (answer e now)).Keeps Q (.held base now) notes
  | .lock k answer next, .free, notes => ∀ e s, I s →
    (k = main → (next (answer e s)).Keeps Q (.held s s) notes) ∧
      (k ≠ main → (next (answer e s)).Keeps Q .free notes)
  | .lock _ answer next, .held base now, notes =>
    ∀ e, (next (answer e now)).Keeps Q (.held base now) notes
  | .write _ _ _, .free, _ => False
  | .write _ act next, .held base now, notes => ∀ e,
    (∀ b patch, act e now = .ok (b, patch) →
      (next (.ok b)).Keeps Q (.held base (patch now)) notes) ∧
    ∀ err, act e now = .error err → (next (.error err)).Keeps Q (.held base now) notes
  | .note n next, phase, notes => next.Keeps Q phase (notes ++ [n])
  | .revert next, _, notes => next.Keeps Q .free notes

variable {main I} {Q : Phase δ → List ν → α → Prop} {phase : Phase δ} {notes : List ν}

theorem Tx.keeps_bind {R : Phase δ → List ν → γ → Prop} {prog : Tx κ ε δ σ ν α}
    {f : α → Tx κ ε δ σ ν γ} (h : prog.Keeps main I Q phase notes)
    (hf : ∀ phase notes a, Q phase notes a → (f a).Keeps main I R phase notes) :
    (prog >>= f).Keeps main I R phase notes := by
  induction prog generalizing phase notes with
  | ret a => exact hf phase notes a h
  | raise err => trivial
  | read answer next ih =>
    cases phase with
    | free => exact fun e s hs => ih _ (h e s hs)
    | held base now => exact fun e => ih _ (h e)
  | lock k answer next ih =>
    cases phase with
    | free =>
      intro e s hs
      obtain ⟨hmain, hother⟩ := h e s hs
      exact ⟨fun hk => ih _ (hmain hk), fun hk => ih _ (hother hk)⟩
    | held base now => exact fun e => ih _ (h e)
  | write rows act next ih =>
    cases phase with
    | free => exact h.elim
    | held base now =>
      intro e
      obtain ⟨hok, herr⟩ := h e
      exact ⟨fun b patch hact => ih _ (hok b patch hact), fun err hact => ih _ (herr err hact)⟩
  | note n next ih => exact ih h
  | revert next ih => exact ih h

/-- A guarded program keeps what the program does, if the answer to a caught error fits a
transaction that has written nothing. -/
theorem Tx.keeps_guarded {handler : σ → Option α} {prog : Tx κ ε δ σ ν α}
    (h : prog.Keeps main I Q phase notes)
    (hcaught : ∀ err a notes, handler err = some a → Q .free notes a) :
    (prog.guarded handler).Keeps main I Q phase notes := by
  induction prog generalizing phase notes with
  | ret a => exact h
  | raise err =>
    rw [Tx.guarded]
    split
    · next a ha => exact hcaught err a notes ha
    · trivial
  | read answer next ih =>
    cases phase with
    | free => exact fun e s hs => ih _ (h e s hs)
    | held base now => exact fun e => ih _ (h e)
  | lock k answer next ih =>
    cases phase with
    | free =>
      intro e s hs
      obtain ⟨hmain, hother⟩ := h e s hs
      exact ⟨fun hk => ih _ (hmain hk), fun hk => ih _ (hother hk)⟩
    | held base now => exact fun e => ih _ (h e)
  | write rows act next ih =>
    cases phase with
    | free => exact h.elim
    | held base now =>
      intro e
      obtain ⟨hok, herr⟩ := h e
      exact ⟨fun b patch hact => ih _ (hok b patch hact), fun err hact => ih _ (herr err hact)⟩
  | note n next ih => exact ih h
  | revert next ih => exact ih h

/-- A read under the main lock. -/
theorem Tx.keeps_select_held {answer : ε → δ → β} {f : β → Tx κ ε δ σ ν α} {base now : δ}
    (h : ∀ e, (f (answer e now)).Keeps main I Q (.held base now) notes) :
    (Tx.select answer >>= f).Keeps main I Q (.held base now) notes := h

/-- A read before the main lock tells only what holds of every good store. -/
theorem Tx.keeps_select_free {answer : ε → δ → β} {f : β → Tx κ ε δ σ ν α}
    (h : ∀ e s, I s → (f (answer e s)).Keeps main I Q .free notes) :
    (Tx.select answer >>= f).Keeps main I Q .free notes := h

theorem Tx.keeps_lock_main {answer : ε → δ → β} {f : β → Tx κ ε δ σ ν α}
    (h : ∀ e s, I s → (f (answer e s)).Keeps main I Q (.held s s) notes) :
    (Tx.selectForUpdate main answer >>= f).Keeps main I Q .free notes :=
  fun e s hs => ⟨fun _ => h e s hs, fun hne => absurd rfl hne⟩

theorem Tx.keeps_lock_held {k : κ} {answer : ε → δ → β} {f : β → Tx κ ε δ σ ν α} {base now : δ}
    (h : ∀ e, (f (answer e now)).Keeps main I Q (.held base now) notes) :
    (Tx.selectForUpdate k answer >>= f).Keeps main I Q (.held base now) notes := h

/-- A write under the main lock, whose error ends the program. -/
theorem Tx.keeps_change {rows : ε → δ → List κ} {act : ε → δ → Except σ (β × (δ → δ))}
    {f : β → Tx κ ε δ σ ν α} {base now : δ}
    (h : ∀ e b patch, act e now = .ok (b, patch) →
      (f b).Keeps main I Q (.held base (patch now)) notes) :
    (Tx.change rows act >>= f).Keeps main I Q (.held base now) notes :=
  fun e => ⟨h e, fun _ _ => trivial⟩

end Keeps

/-! ## Worlds -/

structure Session (κ ε δ σ ν ι α : Type) : Type 1 where
  command : ι
  program : Tx κ ε δ σ ν α
  pending : δ → δ
  notes : List ν

/-- A committed transaction. -/
structure Entry (δ ν ι α : Type) where
  command : ι
  notes : List ν
  answer : α
  before : δ
  after : δ

structure World (π κ ε δ σ ν ι α : Type) : Type 1 where
  committed : δ
  owner : κ → Option π
  sessions : π → Option (Session κ ε δ σ ν ι α)
  history : List (Entry δ ν ι α)

inductive Input (π ε ι : Type)
  | start (p : π) (command : ι)
  | step (p : π) (e : ε)
  | stop (p : π)

namespace World

variable [DecidableEq κ] [DecidableEq π]

def idle (s : δ) : World π κ ε δ σ ν ι α := ⟨s, fun _ => none, fun _ => none, []⟩

def free (w : World π κ ε δ σ ν ι α) (p : π) (k : κ) : Bool :=
  w.owner k = none || w.owner k = some p

def released (w : World π κ ε δ σ ν ι α) (p : π) (k : κ) : Option π :=
  if w.owner k = some p then none else w.owner k

def acquired (w : World π κ ε δ σ ν ι α) (p : π) (ks : List κ) (k : κ) : Option π :=
  if k ∈ ks then some p else w.owner k

/-- The transaction ends without a trace. -/
def rollback (w : World π κ ε δ σ ν ι α) (p : π) : World π κ ε δ σ ν ι α :=
  { w with sessions := Function.update w.sessions p none, owner := w.released p }

def resume (w : World π κ ε δ σ ν ι α) (p : π) (s : Session κ ε δ σ ν ι α) :
    World π κ ε δ σ ν ι α :=
  { w with sessions := Function.update w.sessions p (some s) }

def commit (w : World π κ ε δ σ ν ι α) (p : π) (s : Session κ ε δ σ ν ι α) (a : α) :
    World π κ ε δ σ ν ι α where
  committed := s.pending w.committed
  owner := w.released p
  sessions := Function.update w.sessions p none
  history := w.history ++ [⟨s.command, s.notes, a, w.committed, s.pending w.committed⟩]

/-- The session takes its next statement. -/
def advance (w : World π κ ε δ σ ν ι α) (p : π) (e : ε) (s : Session κ ε δ σ ν ι α) :
    World π κ ε δ σ ν ι α :=
  match s.program with
  | .ret a => w.commit p s a
  | .raise _ => w.rollback p
  | .read answer next =>
    w.resume p { s with program := next (answer e (s.pending w.committed)) }
  | .lock k answer next =>
    if w.free p k then
      { w.resume p { s with program := next (answer e (s.pending w.committed)) } with
        owner := w.acquired p [k] }
    else w
  | .write rows act next =>
    let ks := rows e (s.pending w.committed)
    if ks.all (w.free p) then
      match act e (s.pending w.committed) with
      | .ok (b, patch) =>
        { w.resume p { s with program := next (.ok b), pending := patch ∘ s.pending } with
          owner := w.acquired p ks }
      | .error err =>
        { w.resume p { s with program := next (.error err) } with owner := w.acquired p ks }
    else w
  | .note n next => w.resume p { s with program := next, notes := s.notes ++ [n] }
  | .revert next =>
    { w.resume p { s with program := next, pending := id } with owner := w.released p }

def step (program : ι → Tx κ ε δ σ ν α) (w : World π κ ε δ σ ν ι α) :
    Input π ε ι → World π κ ε δ σ ν ι α
  | .start p command =>
    match w.sessions p with
    | some _ => w
    | none => w.resume p ⟨command, program command, id, []⟩
  | .step p e =>
    match w.sessions p with
    | some s => w.advance p e s
    | none => w
  | .stop p => w.rollback p

end World

/-! ## Every interleaving is serial -/

/-- The committed transactions, each begun where the one before it ended. -/
inductive Serial (Meets : Entry δ ν ι α → Prop) : δ → List (Entry δ ν ι α) → δ → Prop
  | nil (s : δ) : Serial Meets s [] s
  | snoc {s : δ} {entries : List (Entry δ ν ι α)} (e : Entry δ ν ι α) :
      Serial Meets s entries e.before → Meets e → Serial Meets s (entries ++ [e]) e.after

theorem Serial.append {Meets : Entry δ ν ι α → Prop} {s t u : δ}
    {first second : List (Entry δ ν ι α)} (h : Serial Meets s first t)
    (h' : Serial Meets t second u) : Serial Meets s (first ++ second) u := by
  induction h' with
  | nil => rwa [List.append_nil]
  | snoc e _ hmeets ih =>
    rw [← List.append_assoc]
    exact .snoc e ih hmeets

theorem Serial.mono {Meets Tells : Entry δ ν ι α → Prop} {s t : δ}
    {entries : List (Entry δ ν ι α)} (h : Serial Meets s entries t)
    (htells : ∀ e, Meets e → Tells e) : Serial Tells s entries t := by
  induction h with
  | nil => exact .nil _
  | snoc e _ hmeets ih => exact .snoc e ih (htells e hmeets)

/-- A preorder every transaction keeps relates the ends. -/
theorem Serial.related {Meets : Entry δ ν ι α → Prop} {R : δ → δ → Prop} {s t : δ}
    {entries : List (Entry δ ν ι α)} (hrefl : ∀ s, R s s)
    (htrans : ∀ s t u, R s t → R t u → R s u) (hkeep : ∀ e, Meets e → R e.before e.after)
    (h : Serial Meets s entries t) : R s t := by
  induction h with
  | nil => exact hrefl _
  | snoc e _ hmeets ih => exact htrans _ _ _ ih (hkeep e hmeets)

/-- What a transaction leaves: a good store, reached as `Meets` allows. Without the main
lock it has written nothing. -/
def Commits (I : δ → Prop) (Meets : Entry δ ν ι α → Prop) (command : ι) :
    Phase δ → List ν → α → Prop
  | .free, notes, a => ∀ s, I s → Meets ⟨command, notes, a, s, s⟩
  | .held base now, notes, a => I now ∧ Meets ⟨command, notes, a, base, now⟩

section Sound

variable [DecidableEq κ] [DecidableEq π] (main : κ) (I : δ → Prop)
  (Meets : Entry δ ν ι α → Prop)

def phase (w : World π κ ε δ σ ν ι α) (p : π) (s : Session κ ε δ σ ν ι α) : Phase δ :=
  if w.owner main = some p then .held w.committed (s.pending w.committed) else .free

/-- The committed store is good; every session goes on as its program owes, and has written
nothing unless it holds the main lock. -/
structure Sound (w : World π κ ε δ σ ν ι α) : Prop where
  good : I w.committed
  owned : ∀ p, w.owner main = some p → w.sessions p ≠ none
  keeps : ∀ p s, w.sessions p = some s →
    s.program.Keeps main I (Commits I Meets s.command) (phase main w p s) s.notes
  clean : ∀ p s, w.sessions p = some s → w.owner main ≠ some p → s.pending = id

variable {main I Meets} {w : World π κ ε δ σ ν ι α} {p : π} {s : Session κ ε δ σ ν ι α}

omit [DecidableEq κ] in
theorem phase_held (h : w.owner main = some p) :
    phase main w p s = .held w.committed (s.pending w.committed) := if_pos h

omit [DecidableEq κ] in
theorem phase_free (h : w.owner main ≠ some p) : phase main w p s = .free := if_neg h

omit [DecidableEq κ] in
theorem sound_idle {s : δ} (hs : I s) :
    Sound main I Meets (World.idle s : World π κ ε δ σ ν ι α) where
  good := hs
  owned := by
    intro p h
    cases h
  keeps := by
    intro p s h
    cases h
  clean := by
    intro p s h
    cases h

namespace Sound

omit [DecidableEq κ] in
/-- A change to one session, its locks, and the store if it holds the main lock. -/
private theorem update (hw : Sound main I Meets w) {s' : Option (Session κ ε δ σ ν ι α)}
    {t : δ} {owner : κ → Option π} {history : List (Entry δ ν ι α)} (ht : I t)
    (howner : ∀ q, q ≠ p → (owner main = some q ↔ w.owner main = some q))
    (hstore : ∀ q, q ≠ p → w.owner main = some q → t = w.committed)
    (hself : owner main = some p → s' ≠ none)
    (hkeeps : ∀ s, s' = some s → s.program.Keeps main I (Commits I Meets s.command)
      (if owner main = some p then .held t (s.pending t) else .free) s.notes)
    (hclean : ∀ s, s' = some s → owner main ≠ some p → s.pending = id) :
    Sound main I Meets ⟨t, owner, Function.update w.sessions p s', history⟩ where
  good := ht
  owned := by
    intro q hq
    by_cases hqp : q = p
    · subst hqp
      simpa only [Function.update_self] using hself hq
    · simp only [Function.update_of_ne hqp]
      exact hw.owned q ((howner q hqp).1 hq)
  keeps := by
    intro q s hs
    by_cases hqp : q = p
    · subst hqp
      simp only [Function.update_self] at hs
      exact hkeeps s hs
    · simp only [Function.update_of_ne hqp] at hs
      have hold := hw.keeps q s hs
      by_cases hq : w.owner main = some q
      · rw [phase_held hq] at hold
        have ht := hstore q hqp hq
        subst ht
        rwa [phase_held ((howner q hqp).2 hq)]
      · rw [phase_free hq] at hold
        rwa [phase_free fun h => hq ((howner q hqp).1 h)]
  clean := by
    intro q s hs hq
    by_cases hqp : q = p
    · subst hqp
      simp only [Function.update_self] at hs
      exact hclean s hs hq
    · simp only [Function.update_of_ne hqp] at hs
      exact hw.clean q s hs fun h => hq ((howner q hqp).2 h)

omit [DecidableEq κ] in
private theorem released_other {q : π} (hq : q ≠ p) :
    w.released p main = some q ↔ w.owner main = some q := by
  unfold World.released
  split
  · next h =>
    rw [h]
    constructor
    · intro h'
      cases h'
    · intro h'
      exact absurd (Option.some.inj h').symm hq
  · exact Iff.rfl

omit [DecidableEq κ] in
private theorem released_self : w.released p main ≠ some p := by
  unfold World.released
  split
  · nofun
  · assumption

omit [DecidableEq κ] in
theorem rollback (hw : Sound main I Meets w) (p : π) : Sound main I Meets (w.rollback p) := by
  apply hw.update hw.good
  · exact fun q hq => released_other hq
  · exact fun q _ _ => rfl
  · exact fun h => absurd h released_self
  · intro s h
    cases h
  · intro s h
    cases h

omit [DecidableEq κ] in
/-- A session that goes on without new locks. -/
theorem resume (hw : Sound main I Meets w)
    (hkeeps : s.program.Keeps main I (Commits I Meets s.command) (phase main w p s) s.notes)
    (hclean : w.owner main ≠ some p → s.pending = id) : Sound main I Meets (w.resume p s) := by
  apply hw.update hw.good
  · exact fun q _ => Iff.rfl
  · exact fun q _ _ => rfl
  · exact fun _ h => by cases h
  · rintro _ ⟨⟩
    exact hkeeps
  · rintro _ ⟨⟩
    exact hclean

omit [DecidableEq κ] in
/-- A session that has written nothing is where a rollback leaves it. -/
theorem revert (hw : Sound main I Meets w)
    (hkeeps : s.program.Keeps main I (Commits I Meets s.command) .free s.notes)
    (hclean : s.pending = id) :
    Sound main I Meets { w.resume p s with owner := w.released p } := by
  apply hw.update hw.good
  · exact fun q hq => released_other hq
  · exact fun q _ _ => rfl
  · exact fun h => absurd h released_self
  · rintro _ ⟨⟩
    rwa [if_neg released_self]
  · rintro _ ⟨⟩ _
    exact hclean

private theorem acquired_other {ks : List κ} {q : π} (hfree : ks.all (w.free p) = true)
    (hq : q ≠ p) : w.acquired p ks main = some q ↔ w.owner main = some q := by
  unfold World.acquired
  split
  · next hmem =>
    have hmain := List.all_eq_true.1 hfree main hmem
    simp only [World.free, Bool.or_eq_true, decide_eq_true_eq] at hmain
    constructor
    · intro h
      exact absurd (Option.some.inj h).symm hq
    · intro h
      rcases hmain with hnone | hself
      · rw [hnone] at h
        cases h
      · rw [hself] at h
        exact absurd (Option.some.inj h).symm hq
  · exact Iff.rfl

/-- A session that takes locks and goes on. -/
theorem acquire (hw : Sound main I Meets w) {ks : List κ} (hfree : ks.all (w.free p) = true)
    (hkeeps : s.program.Keeps main I (Commits I Meets s.command)
      (if w.acquired p ks main = some p then .held w.committed (s.pending w.committed) else .free)
      s.notes)
    (hclean : w.acquired p ks main ≠ some p → s.pending = id) :
    Sound main I Meets { w.resume p s with owner := w.acquired p ks } := by
  apply hw.update hw.good
  · exact fun q hq => acquired_other hfree hq
  · exact fun q _ _ => rfl
  · exact fun _ h => by cases h
  · rintro _ ⟨⟩
    exact hkeeps
  · rintro _ ⟨⟩
    exact hclean

omit [DecidableEq κ] in
/-- A commit, and the transaction it adds to the history. -/
theorem commit (hw : Sound main I Meets w) (hs : w.sessions p = some s) {a : α}
    (hkeeps : Commits I Meets s.command (phase main w p s) s.notes a) :
    Sound main I Meets (w.commit p s a) ∧
      Meets ⟨s.command, s.notes, a, w.committed, s.pending w.committed⟩ := by
  have hboth : I (s.pending w.committed) ∧
      Meets ⟨s.command, s.notes, a, w.committed, s.pending w.committed⟩ := by
    by_cases hp : w.owner main = some p
    · rw [phase_held hp] at hkeeps
      exact hkeeps
    · rw [phase_free hp] at hkeeps
      rw [hw.clean p s hs hp]
      exact ⟨hw.good, hkeeps _ hw.good⟩
  refine ⟨?_, hboth.2⟩
  apply hw.update hboth.1
  · exact fun q hq => released_other hq
  · intro q hq howner
    rw [hw.clean p s hs fun h => hq (Option.some.inj (howner.symm.trans h))]
    rfl
  · exact fun h => absurd h released_self
  · intro s h
    cases h
  · intro s h
    cases h

end Sound

variable {program : ι → Tx κ ε δ σ ν α}

/-- The history grows by what a step commits. -/
def Grows (Meets : Entry δ ν ι α → Prop) (w w' : World π κ ε δ σ ν ι α) : Prop :=
  ∃ entries, w'.history = w.history ++ entries ∧ Serial Meets w.committed entries w'.committed

omit [DecidableEq κ] [DecidableEq π] in
theorem grows_same {w' : World π κ ε δ σ ν ι α} (hhistory : w'.history = w.history)
    (hcommitted : w'.committed = w.committed) : Grows Meets w w' :=
  ⟨[], by rw [hhistory, List.append_nil], by rw [hcommitted]; exact .nil _⟩

/-- One statement of a session keeps the world sound. -/
theorem Sound.advance (hw : Sound main I Meets w) (hs : w.sessions p = some s) (e : ε) :
    Sound main I Meets (w.advance p e s) ∧ Grows Meets w (w.advance p e s) := by
  have hkeeps := hw.keeps p s hs
  have hclean := hw.clean p s hs
  obtain ⟨command, prog, pending, notes⟩ := s
  cases prog with
  | ret a =>
    obtain ⟨hsound, hmeets⟩ := hw.commit hs hkeeps
    exact ⟨hsound, _, rfl, .snoc _ (.nil _) hmeets⟩
  | raise err => exact ⟨hw.rollback p, grows_same rfl rfl⟩
  | read answer next =>
    refine ⟨hw.resume ?_ hclean, grows_same rfl rfl⟩
    by_cases hp : w.owner main = some p
    · rw [phase_held hp] at hkeeps ⊢
      exact hkeeps e
    · rw [phase_free hp] at hkeeps ⊢
      have hpending : pending = id := hclean hp
      subst hpending
      exact hkeeps e w.committed hw.good
  | lock k answer next =>
    simp only [World.advance]
    split
    · next hfree =>
      have hall : [k].all (w.free p) = true := by simpa using hfree
      refine ⟨hw.acquire hall ?_ ?_, grows_same rfl rfl⟩
      · by_cases hp : w.owner main = some p
        · have hacquired : w.acquired p [k] main = some p := by
            unfold World.acquired
            split
            · rfl
            · exact hp
          rw [phase_held hp] at hkeeps
          rw [if_pos hacquired]
          exact hkeeps e
        · rw [phase_free hp] at hkeeps
          have hpending : pending = id := hclean hp
          subst hpending
          obtain ⟨hmain, hother⟩ := hkeeps e w.committed hw.good
          by_cases hk : k = main
          · rw [if_pos (by simp [World.acquired, hk])]
            exact hmain hk
          · rw [if_neg (by simpa [World.acquired, Ne.symm hk] using hp)]
            exact hother hk
      · intro hacquired
        apply hclean
        intro hp
        apply hacquired
        unfold World.acquired
        split
        · rfl
        · exact hp
    · exact ⟨hw, grows_same rfl rfl⟩
  | write rows act next =>
    by_cases hp : w.owner main = some p
    swap
    · rw [phase_free hp] at hkeeps
      exact hkeeps.elim
    · rw [phase_held hp] at hkeeps
      obtain ⟨hok, herr⟩ := hkeeps e
      simp only [World.advance]
      split
      · next hfree =>
        have hacquired : w.acquired p (rows e (pending w.committed)) main = some p := by
          unfold World.acquired
          split
          · rfl
          · exact hp
        cases hact : act e (pending w.committed) with
        | ok done =>
          obtain ⟨b, patch⟩ := done
          refine ⟨hw.acquire hfree ?_ fun h => absurd hacquired h, grows_same rfl rfl⟩
          rw [if_pos hacquired]
          exact hok b patch hact
        | error err =>
          refine ⟨hw.acquire hfree ?_ fun h => absurd hacquired h, grows_same rfl rfl⟩
          rw [if_pos hacquired]
          exact herr err hact
      · exact ⟨hw, grows_same rfl rfl⟩
  | note n next =>
    refine ⟨hw.resume ?_ hclean, grows_same rfl rfl⟩
    exact hkeeps
  | revert next =>
    exact ⟨hw.revert hkeeps rfl, grows_same rfl rfl⟩

theorem Sound.step
    (hprogram : ∀ c, (program c).Keeps main I (Commits I Meets c) .free [])
    (hw : Sound main I Meets w) (i : Input π ε ι) :
    Sound main I Meets (w.step program i) ∧ Grows Meets w (w.step program i) := by
  cases i with
  | start p command =>
    simp only [World.step]
    cases hs : w.sessions p with
    | some s => exact ⟨hw, grows_same rfl rfl⟩
    | none =>
      have hfree : w.owner main ≠ some p := fun h => hw.owned p h hs
      refine ⟨hw.resume ?_ fun _ => rfl, grows_same rfl rfl⟩
      rw [phase_free hfree]
      exact hprogram command
  | step p e =>
    simp only [World.step]
    cases hs : w.sessions p with
    | some s => exact hw.advance hs e
    | none => exact ⟨hw, grows_same rfl rfl⟩
  | stop p => exact ⟨hw.rollback p, grows_same rfl rfl⟩

/-- Whatever the order of steps, what is committed is a chain of the programs' transactions. -/
theorem Sound.run
    (hprogram : ∀ c, (program c).Keeps main I (Commits I Meets c) .free [])
    (hw : Sound main I Meets w) (inputs : List (Input π ε ι)) :
    Sound main I Meets (run (World.step program) w inputs) ∧
      Grows Meets w (run (World.step program) w inputs) := by
  induction inputs generalizing w with
  | nil => exact ⟨hw, grows_same rfl rfl⟩
  | cons i inputs ih =>
    obtain ⟨hstep, first, hfirst, hserial⟩ := hw.step hprogram i
    obtain ⟨hrun, rest, hrest, hserial'⟩ := ih hstep
    refine ⟨hrun, first ++ rest, ?_, hserial.append hserial'⟩
    rw [run_cons, hrest, hfirst, List.append_assoc]

end Sound

end Locking
