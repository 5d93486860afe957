import Mathlib.Logic.Relation
import Mathlib.Logic.Function.Basic
import FoundingSales.Library.Runs

/-!
Programs whose statements commit one at a time against a shared store, and any number of
processes running them. A scheduler starts a program, lets a process take its next
statement, or kills a process between two statements; a transaction is a single statement.

A program is verified against a typestate discipline: `Prog.Obeys T` says that from a mode
each statement makes a move `T` allows and leaves the rest of the program in the mode the
move ends in. `World.run_invariant` lifts an invariant of modes and store from the allowed
moves to every interleaving.
-/

namespace Processes

open Relation

/-- A program. A statement sees the process that runs it, the answers the outside world
gives at that moment, and the store; with `none` it raises, and the program ends. -/
inductive Prog (π ε σ α : Type) : Type 1
  | ret (a : α)
  | stmt {β : Type} (act : π → ε → σ → Option (β × σ)) (next : β → Prog π ε σ α)

variable {π ε σ μ α β γ : Type}

namespace Prog

def bind : Prog π ε σ α → (α → Prog π ε σ γ) → Prog π ε σ γ
  | .ret a, f => f a
  | .stmt act next, f => .stmt act fun b => (next b).bind f

instance : Monad (Prog π ε σ) where
  pure := .ret
  bind := bind

/-- One statement that cannot raise. -/
def effect (act : π → ε → σ → α × σ) : Prog π ε σ α :=
  .stmt (fun p e s => some (act p e s)) .ret

/-- A statement that only reads. -/
def ask (read : ε → σ → α) : Prog π ε σ α := effect fun _ e s => (read e s, s)

/-- Every statement of a program, taken at once with the same outside answers. -/
def exec (p : π) (e : ε) : Prog π ε σ α → σ → Option (α × σ)
  | .ret a, s => some (a, s)
  | .stmt act next, s =>
    match act p e s with
    | none => none
    | some (b, s') => exec p e (next b) s'

/-- How a transaction ends. -/
inductive End (α : Type)
  | commit (a : α)
  | rollback (a : α)

/-- A transaction: its writes commit together or not at all. -/
def atomically (body : Prog π ε σ (End α)) : Prog π ε σ α :=
  .stmt (fun p e s =>
    match exec p e body s with
    | none => none
    | some (.commit a, s') => some (a, s')
    | some (.rollback a, _) => some (a, s)) .ret

/-- From mode `m`, each statement of the program makes a move `T` allows, and on returning
`a` in mode `m'` the program satisfies `Q m' a`. -/
def Obeys (T : π → μ × σ → μ × σ → Prop) (p : π) (Q : μ → α → Prop) :
    Prog π ε σ α → μ → Prop
  | .ret a, m => Q m a
  | .stmt act next, m => ∀ e s b s', act p e s = some (b, s') →
      ∃ m', T p (m, s) (m', s') ∧ Obeys T p Q (next b) m'

variable {T U : π → μ × σ → μ × σ → Prop} {p : π} {m : μ}

theorem obeys_pure {Q : μ → α → Prop} {a : α} (h : Q m a) :
    Obeys T p Q (pure a : Prog π ε σ α) m := h

theorem obeys_bind {Q : μ → α → Prop} {R : μ → γ → Prop} {prog : Prog π ε σ α}
    {f : α → Prog π ε σ γ} (h : Obeys T p Q prog m)
    (hf : ∀ m' a, Q m' a → Obeys T p R (f a) m') : Obeys T p R (prog >>= f) m := by
  induction prog generalizing m with
  | ret a => exact hf m a h
  | stmt act next ih =>
    intro e s b s' hact
    obtain ⟨m', hmove, hrest⟩ := h e s b s' hact
    exact ⟨m', hmove, ih b hrest⟩

theorem obeys_mono {Q R : μ → α → Prop} {prog : Prog π ε σ α}
    (hQ : ∀ m a, Q m a → R m a) (h : Obeys T p Q prog m) : Obeys T p R prog m := by
  induction prog generalizing m with
  | ret a => exact hQ m a h
  | stmt act next ih =>
    intro e s b s' hact
    obtain ⟨m', hmove, hrest⟩ := h e s b s' hact
    exact ⟨m', hmove, ih b hrest⟩

theorem obeys_weaken {Q : μ → α → Prop} {prog : Prog π ε σ α}
    (hT : ∀ p a b, T p a b → U p a b) (h : Obeys T p Q prog m) : Obeys U p Q prog m := by
  induction prog generalizing m with
  | ret a => exact h
  | stmt act next ih =>
    intro e s b s' hact
    obtain ⟨m', hmove, hrest⟩ := h e s b s' hact
    exact ⟨m', hT _ _ _ hmove, ih b hrest⟩

/-- One statement, then nothing. -/
theorem obeys_single {Q : μ → α → Prop} {act : π → ε → σ → Option (α × σ)}
    (h : ∀ e s a s', act p e s = some (a, s') → ∃ m', T p (m, s) (m', s') ∧ Q m' a) :
    Obeys T p Q (.stmt act .ret) m := h

theorem obeys_effect {Q : μ → α → Prop} {act : π → ε → σ → α × σ}
    (h : ∀ e s, ∃ m', T p (m, s) (m', (act p e s).2) ∧ Q m' (act p e s).1) :
    Obeys T p Q (effect act) m := by
  intro e s a s' hact
  obtain ⟨m', hmove, hQ⟩ := h e s
  rw [Option.some.inj hact] at hmove hQ
  exact ⟨m', hmove, hQ⟩

/-- A read needs nothing of the discipline but that it lets the store stand. -/
theorem obeys_ask {Q : μ → α → Prop} {read : ε → σ → α}
    (still : ∀ s, T p (m, s) (m, s)) (hQ : ∀ e s, Q m (read e s)) :
    Obeys T p Q (ask read : Prog π ε σ α) m :=
  obeys_effect fun e s => ⟨m, still s, hQ e s⟩

/-- A read at the head of a program, whatever it answers. -/
theorem obeys_ask_bind {R : μ → γ → Prop} {read : ε → σ → α} {f : α → Prog π ε σ γ}
    (still : ∀ s, T p (m, s) (m, s)) (hf : ∀ a, Obeys T p R (f a) m) :
    Obeys T p R (ask read >>= f) m :=
  obeys_bind (obeys_ask (Q := fun m' _ => m' = m) still fun _ _ => rfl)
    fun _ a hm => hm ▸ hf a

/-- The moves a program makes when all its statements run together. -/
theorem exec_moves {Q : μ → α → Prop} {prog : Prog π ε σ α} {e : ε} {s s' : σ} {a : α}
    (h : Obeys T p Q prog m) (hexec : exec p e prog s = some (a, s')) :
    ∃ m', ReflTransGen (T p) (m, s) (m', s') ∧ Q m' a := by
  induction prog generalizing m s with
  | ret b =>
    cases hexec
    exact ⟨m, .refl, h⟩
  | stmt act next ih =>
    simp only [exec] at hexec
    split at hexec
    · cases hexec
    · next b t hact =>
      obtain ⟨n, hmove, hrest⟩ := h e s b t hact
      obtain ⟨m', hmoves, hQ⟩ := ih b hrest hexec
      exact ⟨m', .head hmove hmoves, hQ⟩

/-- A transaction whose body obeys `T` obeys any `U` that lets the store stand and allows
the body's moves taken together. -/
theorem obeys_atomically {Q : μ → α → Prop} {R : μ → End α → Prop}
    {body : Prog π ε σ (End α)} (hbody : Obeys T p R body m)
    (still : ∀ s, U p (m, s) (m, s))
    (together : ∀ s m' s', ReflTransGen (T p) (m, s) (m', s') → U p (m, s) (m', s'))
    (hcommit : ∀ m' a, R m' (.commit a) → Q m' a)
    (hrollback : ∀ m' a, R m' (.rollback a) → Q m a) :
    Obeys U p Q (atomically body) m := by
  intro e s a s' hact
  cases hexec : exec p e body s with
  | none => simp [hexec] at hact
  | some out =>
    obtain ⟨ending, t⟩ := out
    obtain ⟨m', hmoves, hR⟩ := exec_moves hbody hexec
    cases ending with
    | commit b =>
      simp only [hexec, Option.some.injEq, Prod.mk.injEq] at hact
      obtain ⟨rfl, rfl⟩ := hact
      exact ⟨m', together s m' t hmoves, hcommit m' b hR⟩
    | rollback b =>
      simp only [hexec, Option.some.injEq, Prod.mk.injEq] at hact
      obtain ⟨rfl, rfl⟩ := hact
      exact ⟨m, still s, hrollback m' b hR⟩

end Prog

/-! ## Processes -/

/-- A store and the programs still running against it. -/
structure World (π ε σ : Type) where
  store : σ
  procs : π → Option (Prog π ε σ Unit)

/-- What the scheduler does next. -/
inductive Input (π ε κ : Type)
  | start (p : π) (call : κ)
  | advance (p : π) (e : ε)
  | die (p : π)

/-- The process this input starts, if it starts one. -/
def Input.starts {κ : Type} : Input π ε κ → List π
  | .start p _ => [p]
  | _ => []

namespace World

variable {κ : Type} [DecidableEq π]

/-- A program that has returned is no longer running. -/
def live : Prog π ε σ Unit → Option (Prog π ε σ Unit)
  | .ret _ => none
  | prog => some prog

def step (code : κ → Prog π ε σ Unit) (w : World π ε σ) : Input π ε κ → World π ε σ
  | .start p call =>
    match w.procs p with
    | some _ => w
    | none => { w with procs := Function.update w.procs p (live (code call)) }
  | .die p => { w with procs := Function.update w.procs p none }
  | .advance p e =>
    match w.procs p with
    | some (.stmt act next) =>
      match act p e w.store with
      | none => { w with procs := Function.update w.procs p none }
      | some (b, s') => ⟨s', Function.update w.procs p (live (next b))⟩
    | _ => w

/-- No process is in the middle of a program. -/
def Quiet (w : World π ε σ) : Prop := ∀ p, w.procs p = none

/-- The store with nothing running. -/
def idle (s : σ) : World π ε σ := ⟨s, fun _ => none⟩

/-- A process that was never started is not running. -/
theorem quiet_of_started {code : κ → Prog π ε σ Unit} {w : World π ε σ} (hw : w.Quiet)
    (inputs : List (Input π ε κ)) (ps : List π)
    (hstart : ∀ a ∈ inputs, ∀ p ∈ a.starts, p ∈ ps)
    (hdone : ∀ p ∈ ps, ((Runs.run (step code) w inputs).procs p).isNone = true) :
    (Runs.run (step code) w inputs).Quiet := by
  have hothers : ∀ p, p ∉ ps → (Runs.run (step code) w inputs).procs p = none := by
    clear hdone
    intro p hp
    have hinit := hw p
    clear hw
    induction inputs generalizing w with
    | nil => exact hinit
    | cons a inputs ih =>
      refine ih (fun b hb => hstart b (List.mem_cons_of_mem _ hb)) ?_
      have hupdate : ∀ q prog, (q = p → prog = none) →
          Function.update w.procs q prog p = none := by
        intro q prog hq
        by_cases hqp : p = q
        · subst hqp
          simpa using hq rfl
        · rw [Function.update_of_ne hqp, hinit]
      cases a with
      | start q call =>
        have hne : q ≠ p := fun h =>
          hp (h ▸ hstart _ List.mem_cons_self q (List.mem_singleton.2 rfl))
        simp only [step]
        split
        · exact hinit
        · exact hupdate q _ fun h => absurd h hne
      | die q => exact hupdate q none fun _ => rfl
      | advance q e =>
        by_cases hqp : q = p
        · subst hqp
          simp only [step, hinit]
        · simp only [step]
          split
          · split
            · exact hupdate q none fun _ => rfl
            · exact hupdate q _ fun h => absurd h hqp
          · exact hinit
  intro p
  by_cases hp : p ∈ ps
  · exact Option.isNone_iff_eq_none.1 (hdone p hp)
  · exact hothers p hp

/-- Where this input stops a running process, `mayStop` holds of it; where it commits a
statement, `mayMove` holds of the stores before and after. -/
def Orderly (mayStop : π → σ → Prop) (mayMove : π → σ → σ → Prop) (w : World π ε σ) :
    Input π ε κ → Prop
  | .start _ _ => True
  | .die p => w.procs p ≠ none → mayStop p w.store
  | .advance p e =>
    match w.procs p with
    | some (.stmt act _) =>
      match act p e w.store with
      | none => mayStop p w.store
      | some (_, s') => mayMove p w.store s'
    | _ => True

instance Orderly.instDecidable (mayStop : π → σ → Prop) (mayMove : π → σ → σ → Prop)
    [∀ p s, Decidable (mayStop p s)] [∀ p s s', Decidable (mayMove p s s')]
    (w : World π ε σ) : ∀ a : Input π ε κ, Decidable (Orderly mayStop mayMove w a)
  | .start _ _ => instDecidableTrue
  | .die p =>
    match h : w.procs p with
    | none => .isTrue fun hne => absurd h hne
    | some _ => decidable_of_iff (mayStop p w.store) ⟨fun hs _ => hs, fun hs => hs (by simp [h])⟩
  | .advance p e =>
    match h : w.procs p with
    | none => .isTrue (by simp [Orderly, h])
    | some (.ret _) => .isTrue (by simp [Orderly, h])
    | some (.stmt act _) =>
      match hact : act p e w.store with
      | none => decidable_of_iff (mayStop p w.store) (by simp [Orderly, h, hact])
      | some (_, s') => decidable_of_iff (mayMove p w.store s') (by simp [Orderly, h, hact])

omit [DecidableEq π] in
/-- Where nothing is asked of stops and commits, every input is orderly. -/
theorem orderly_of_true (w : World π ε σ) (a : Input π ε κ) :
    w.Orderly (fun _ _ => True) (fun _ _ _ => True) a := by
  cases a with
  | start p call => trivial
  | die p => exact fun _ => trivial
  | advance p e =>
    simp only [Orderly]
    split
    · split <;> trivial
    · trivial

section Discipline

variable (code : κ → Prog π ε σ Unit) (T : π → μ × σ → μ × σ → Prop)
  (rest : μ) (Done : μ → Prop)

/-- Each running program obeys the discipline from the mode its process is in. -/
def Follows (w : World π ε σ) (modes : π → μ) : Prop :=
  ∀ p, match w.procs p with
    | none => modes p = rest
    | some prog => prog.Obeys T p (fun m _ => Done m) (modes p)

variable {code T rest Done} {J : (π → μ) → σ → Prop} {w : World π ε σ} {modes : π → μ}

omit [DecidableEq π] in
theorem follows_idle (s : σ) : Follows T rest Done (idle s : World π ε σ) fun _ => rest := by
  intro p
  rfl

omit [DecidableEq π] in
theorem Follows.modes_of_quiet (h : Follows T rest Done w modes) (hq : w.Quiet) :
    modes = fun _ => rest := by
  funext p
  have hp := h p
  rw [hq p] at hp
  exact hp

/-- Replacing one process's program and mode by a pair that fits keeps the others. -/
private theorem Follows.update (h : Follows T rest Done w modes) (p : π) (s : σ) (m : μ)
    (prog : Option (Prog π ε σ Unit))
    (hp : match prog with
      | none => m = rest
      | some q => q.Obeys T p (fun m _ => Done m) m) :
    Follows T rest Done ⟨s, Function.update w.procs p prog⟩ (Function.update modes p m) := by
  intro q
  by_cases hq : q = p
  · subst hq
    simpa using hp
  · simpa [Function.update_of_ne hq] using h q

/-- A statement moved process `p` to mode `m`: when the program goes on it does so from
`m`, and when it has returned, `m` was a mode it may return in. -/
private theorem Follows.settle {p : π} {s : σ} {m : μ} {prog : Prog π ε σ Unit}
    (h : Follows T rest Done w modes) (hprog : prog.Obeys T p (fun m _ => Done m) m)
    (finish : Done m → J (Function.update (Function.update modes p m) p rest) s)
    (hJ : J (Function.update modes p m) s) :
    ∃ modes', Follows T rest Done ⟨s, Function.update w.procs p (live prog)⟩ modes' ∧
      J modes' s := by
  cases prog with
  | ret u =>
    refine ⟨Function.update modes p rest, h.update p s rest none rfl, ?_⟩
    simpa using finish hprog
  | stmt act next => exact ⟨_, h.update p s m _ hprog, hJ⟩

/-- What every allowed move, every return and every permitted stop keeps, a step keeps. -/
theorem step_invariant {mayStop : π → σ → Prop} {mayMove : π → σ → σ → Prop}
    (hcode : ∀ k p, (code k).Obeys T p (fun m _ => Done m) rest)
    (move : ∀ modes s p m' s', J modes s → T p (modes p, s) (m', s') → mayMove p s s' →
      J (Function.update modes p m') s')
    (finish : ∀ modes s p, J modes s → Done (modes p) → J (Function.update modes p rest) s)
    (stop : ∀ modes s p, J modes s → mayStop p s → J (Function.update modes p rest) s)
    (a : Input π ε κ) (hw : Follows T rest Done w modes) (hJ : J modes w.store)
    (ha : w.Orderly mayStop mayMove a) :
    ∃ modes', Follows T rest Done (w.step code a) modes' ∧ J modes' (w.step code a).store := by
  have settled : ∀ p s m, J (Function.update modes p m) s → Done m →
      J (Function.update (Function.update modes p m) p rest) s := by
    intro p s m hm hd
    exact finish _ s p hm (by simpa using hd)
  cases a with
  | start p call =>
    cases hp : w.procs p with
    | some prog =>
      simp only [step, hp]
      exact ⟨modes, hw, hJ⟩
    | none =>
      have hmode : modes p = rest := by
        have := hw p
        rwa [hp] at this
      have hJ' : J (Function.update modes p rest) w.store := by
        rwa [← hmode, Function.update_eq_self]
      simp only [step, hp]
      exact hw.settle (hcode call p) (settled p w.store rest hJ') hJ'
  | die p =>
    simp only [step]
    refine ⟨_, hw.update p w.store rest none rfl, ?_⟩
    by_cases hp : w.procs p = none
    · have hmode : modes p = rest := by
        have := hw p
        rwa [hp] at this
      rwa [← hmode, Function.update_eq_self]
    · exact stop modes w.store p hJ (ha hp)
  | advance p e =>
    cases hp : w.procs p with
    | none =>
      simp only [step, hp]
      exact ⟨modes, hw, hJ⟩
    | some prog =>
      have hobeys := hw p
      rw [hp] at hobeys
      cases prog with
      | ret u =>
        simp only [step, hp]
        exact ⟨modes, hw, hJ⟩
      | stmt act next =>
        simp only [Orderly, hp] at ha
        simp only [step, hp]
        cases hact : act p e w.store with
        | none =>
          simp only [hact] at ha
          exact ⟨_, hw.update p w.store rest none rfl, stop modes w.store p hJ ha⟩
        | some out =>
          obtain ⟨b, s'⟩ := out
          simp only [hact] at ha
          obtain ⟨m', hmove, hrest⟩ := hobeys e w.store b s' hact
          have hJ' := move modes w.store p m' s' hJ hmove ha
          exact hw.settle hrest (settled p s' m' hJ') hJ'

/-- The invariant of every run whose steps are orderly. -/
theorem run_invariant (mayStop : π → σ → Prop) (mayMove : π → σ → σ → Prop)
    (hcode : ∀ k p, (code k).Obeys T p (fun m _ => Done m) rest)
    (move : ∀ modes s p m' s', J modes s → T p (modes p, s) (m', s') → mayMove p s s' →
      J (Function.update modes p m') s')
    (finish : ∀ modes s p, J modes s → Done (modes p) → J (Function.update modes p rest) s)
    (stop : ∀ modes s p, J modes s → mayStop p s → J (Function.update modes p rest) s)
    {inputs : List (Input π ε κ)} (hw : Follows T rest Done w modes) (hJ : J modes w.store)
    (hm : Runs.Meets (step code) (Orderly mayStop mayMove) w inputs) :
    ∃ modes', Follows T rest Done (Runs.run (step code) w inputs) modes' ∧
      J modes' (Runs.run (step code) w inputs).store := by
  refine Runs.Meets.invariant
    (I := fun w => ∃ modes, Follows T rest Done w modes ∧ J modes w.store) ?_ hm ⟨modes, hw, hJ⟩
  rintro w a ha ⟨modes, hw, hJ⟩
  exact step_invariant hcode move finish stop a hw hJ ha

end Discipline

end World

end Processes
