/-
Programs that run at the same time on one state.

A system has a program for every thread and says in which process the thread runs. A
pool is a moment of its run: the shared state and what is left of every thread that is
still there. One move is one step of one thread, or the end of a process, at any point of
its threads. So a run of the pool is any interleaving with any crashes.

`Guarded A R G Q p s` is about one thread: `p`, started in `s`, with moves in `R` by the
others before each of its steps, takes only steps in `G`, and ends with `Q`. When every
thread is guarded and what one guarantees the others can rely on, the guarantees hold of
every run.
-/
import LeanBun.Lib.Reaching

set_option autoImplicit false

namespace LeanBun.Lib

/-- Threads `ι` in processes `π`, and what the end of a process does to the state. -/
structure System (ι π σ ℓ ε α : Type) where
  program : ι → Prog σ ℓ ε α
  home : ι → π
  gone : π → σ → σ

/-- A moment of a run: a thread that is not there has ended with its process. -/
structure Pool (ι σ ℓ ε α : Type) where
  shared : σ
  threads : ι → Option (Prog σ ℓ ε α)

namespace System

variable {ι π σ ℓ ε α : Type} [DecidableEq ι] [DecidableEq π]

/-- One move, among the steps that are allowed where they are taken. -/
inductive Move (system : System ι π σ ℓ ε α) (allowed : ℓ → σ → Prop) :
    Pool ι σ ℓ ε α → Pool ι σ ℓ ε α → Prop
  | step {pool : Pool ι σ ℓ ε α} (i : ι) {act : σ → ℓ × σ} {next : σ → Prog σ ℓ ε α}
      (hthread : pool.threads i = some (.step act next))
      (hallowed : allowed (act pool.shared).1 pool.shared) :
      Move system allowed pool ⟨(act pool.shared).2,
        Function.update pool.threads i (some (next pool.shared))⟩
  | stop {pool : Pool ι σ ℓ ε α} (p : π) :
      Move system allowed pool ⟨system.gone p pool.shared,
        fun i => if system.home i = p then none else pool.threads i⟩

/-- The pool before anything has happened. -/
def start (system : System ι π σ ℓ ε α) (s : σ) : Pool ι σ ℓ ε α :=
  ⟨s, fun i => some (system.program i)⟩

/-- A run from a state. -/
def Run (system : System ι π σ ℓ ε α) (allowed : ℓ → σ → Prop) (s : σ) :
    Pool ι σ ℓ ε α → Prop :=
  Relation.ReflTransGen (system.Move allowed) (system.start s)

/-- Every step. -/
def AnyStep (_ : ℓ) (_ : σ) : Prop := True

/-- What a thread gets to by itself, a run of the pool gets to. -/
theorem run_thread {system : System ι π σ ℓ ε α} {s : σ} {pool : Pool ι σ ℓ ε α}
    (hrun : system.Run AnyStep s pool) {i : ι} {p q : Prog σ ℓ ε α} {t : σ}
    (hthread : pool.threads i = some p) (h : p.Reaches pool.shared q t) :
    system.Run AnyStep s ⟨t, Function.update pool.threads i (some q)⟩ := by
  obtain ⟨shared, threads⟩ := pool
  dsimp only at hthread h ⊢
  induction h generalizing threads with
  | refl p t =>
    rw [← hthread, Function.update_eq_self]
    exact hrun
  | @step act next t t' q _ ih =>
    have hmove : system.Run AnyStep s _ := hrun.tail (.step i hthread trivial)
    have hrest := ih _ hmove (Function.update_self _ _ _)
    rw [Function.update_idem] at hrest
    exact hrest

/-- What happens in a run, told by who goes how far. -/
inductive Turn (ι π : Type) where
  | steps (i : ι) (n : ℕ)
  | stop (p : π)

/-- The pool after a turn: a thread that is not there takes no step. -/
def turn (system : System ι π σ ℓ ε α) (pool : Pool ι σ ℓ ε α) : Turn ι π → Pool ι σ ℓ ε α
  | .steps i n =>
    match pool.threads i with
    | some p => ⟨p.crash n pool.shared, Function.update pool.threads i (some (p.rest n pool.shared))⟩
    | none => pool
  | .stop p => ⟨system.gone p pool.shared,
      fun i => if system.home i = p then none else pool.threads i⟩

/-- The turns of a schedule make a run. -/
theorem run_turns {system : System ι π σ ℓ ε α} {s : σ} (turns : List (Turn ι π))
    {pool : Pool ι σ ℓ ε α} (hrun : system.Run AnyStep s pool) :
    system.Run AnyStep s (turns.foldl system.turn pool) := by
  induction turns generalizing pool with
  | nil => exact hrun
  | cons first rest ih =>
    refine ih ?_
    unfold turn
    cases first with
    | stop p => exact hrun.tail (.stop p)
    | steps i n =>
      dsimp only
      cases hthread : pool.threads i with
      | none => exact hrun
      | some p => exact run_thread hrun hthread (Prog.reaches_rest p n pool.shared)

/-- One thread after another, each to its end. -/
theorem run_two {system : System ι π σ ℓ ε α} {i j : ι} (hij : i ≠ j) {a b : α} {s t u : σ}
    (hi : (system.program i).run s = (.ok a, t)) (hj : (system.program j).run t = (.ok b, u)) :
    ∃ pool, system.Run AnyStep s pool ∧ pool.shared = u ∧ pool.threads i = some (.done a) ∧
      pool.threads j = some (.done b) := by
  have hfirst : system.Run AnyStep s _ := run_thread (i := i) .refl rfl (Prog.reaches_run hi)
  have hthread : Function.update (system.start s).threads i (some (Prog.lift (.ok a))) j =
      some (system.program j) := Function.update_of_ne hij.symm _ _
  have hsecond := run_thread (i := j) hfirst hthread (Prog.reaches_run hj)
  refine ⟨_, hsecond, rfl, ?_, Function.update_self _ _ _⟩
  dsimp only
  rw [Function.update_of_ne hij, Function.update_self]
  rfl

end System

namespace Prog

variable {σ ℓ ε ε' α β : Type}

/-- The thread's steps are in `G` where `A` holds of them, whatever moves in `R` come
before each of them, and its result satisfies `Q`. -/
def Guarded (A : ℓ → σ → Prop) (R : σ → σ → Prop) (G : ℓ → σ → σ → Prop)
    (Q : Except ε α → σ → Prop) : Prog σ ℓ ε α → σ → Prop
  | .done a, s => ∀ s', Relation.ReflTransGen R s s' → Q (.ok a) s'
  | .fail e, s => ∀ s', Relation.ReflTransGen R s s' → Q (.error e) s'
  | .step act next, s => ∀ s', Relation.ReflTransGen R s s' → A (act s').1 s' →
      G (act s').1 s' (act s').2 ∧ Guarded A R G Q (next s') (act s').2

/-- An assertion that the others leave true. -/
def Stable (R : σ → σ → Prop) (P : σ → Prop) : Prop := ∀ s s', R s s' → P s → P s'

section Guarded

variable {A : ℓ → σ → Prop} {R : σ → σ → Prop} {G : ℓ → σ → σ → Prop}
  {Q Q' : Except ε α → σ → Prop} {P : σ → Prop}

theorem Stable.star (h : Stable R P) {s s' : σ} (hstar : Relation.ReflTransGen R s s') (hs : P s) :
    P s' := by
  induction hstar with
  | refl => exact hs
  | tail _ hstep ih => exact h _ _ hstep ih

theorem Stable.and {P' : σ → Prop} (h : Stable R P) (h' : Stable R P') :
    Stable R fun s => P s ∧ P' s := fun s s' hstep hs => ⟨h s s' hstep hs.1, h' s s' hstep hs.2⟩

/-- Moves of the others leave a thread guarded. -/
theorem Guarded.others {p : Prog σ ℓ ε α} {s s' : σ} (h : Guarded A R G Q p s) (hmove : R s s') :
    Guarded A R G Q p s' := by
  cases p with
  | done a => exact fun t ht => h t (.head hmove ht)
  | fail e => exact fun t ht => h t (.head hmove ht)
  | step act next => exact fun t ht hallowed => h t (.head hmove ht) hallowed

/-- A step of the thread itself. -/
theorem Guarded.step {act : σ → ℓ × σ} {next : σ → Prog σ ℓ ε α} {s : σ}
    (h : Guarded A R G Q (.step act next) s) (hallowed : A (act s).1 s) :
    G (act s).1 s (act s).2 ∧ Guarded A R G Q (next s) (act s).2 := h s .refl hallowed

/-- The result of a thread that has ended. -/
theorem Guarded.result {x : Except ε α} {s : σ} (h : Guarded A R G Q (lift x) s) : Q x s := by
  cases x with
  | ok a => exact h s .refl
  | error e => exact h s .refl

/-! ## The rules -/

theorem guarded_lift {x : Except ε α} {s : σ} (hs : P s) (hstable : Stable R P)
    (h : ∀ s, P s → Q x s) : Guarded A R G Q (lift x) s := by
  cases x with
  | ok a => exact fun s' hstar => h s' (hstable.star hstar hs)
  | error e => exact fun s' hstar => h s' (hstable.star hstar hs)

theorem guarded_pure {a : α} {s : σ} (hs : P s) (hstable : Stable R P)
    (h : ∀ s, P s → Q (.ok a) s) : Guarded A R G Q (pure a) s :=
  guarded_lift (x := .ok a) hs hstable h

theorem guarded_fail {e : ε} {s : σ} (hs : P s) (hstable : Stable R P)
    (h : ∀ s, P s → Q (.error e) s) : Guarded A R G Q (.fail e) s :=
  guarded_lift (x := .error e) hs hstable h

/-- **Sequencing.** -/
theorem Guarded.bind {p : Prog σ ℓ ε β} {f : β → Prog σ ℓ ε α} {J : Except ε β → σ → Prop} {s : σ}
    (h : Guarded A R G J p s) (hok : ∀ b s, J (.ok b) s → Guarded A R G Q (f b) s)
    (herror : ∀ e s, J (.error e) s → Q (.error e) s) : Guarded A R G Q (p >>= f) s := by
  show Guarded A R G Q (p.bind f) s
  induction p generalizing s with
  | done b => exact hok b s (h s .refl)
  | fail e => exact fun s' hstar => herror e s' (h s' hstar)
  | step act next ih =>
    intro s' hstar hallowed
    obtain ⟨hstep, hrest⟩ := h s' hstar hallowed
    exact ⟨hstep, ih s' hrest⟩

theorem guarded_attempt {p : Prog σ ℓ ε α} {Q : Except ε' (Except ε α) → σ → Prop} {s : σ}
    (h : Guarded A R G (fun r => Q (.ok r)) p s) :
    Guarded A R G Q (p.attempt : Prog σ ℓ ε' (Except ε α)) s := by
  induction p generalizing s with
  | done a => exact h
  | fail e => exact h
  | step act next ih =>
    intro s' hstar hallowed
    obtain ⟨hstep, hrest⟩ := h s' hstar hallowed
    exact ⟨hstep, ih s' hrest⟩

theorem guarded_map_error {p : Prog σ ℓ ε α} {f : ε → ε'} {Q : Except ε' α → σ → Prop} {s : σ}
    (h : Guarded A R G (fun r => Q (r.mapError f)) p s) : Guarded A R G Q (p.map_error f) s := by
  induction p generalizing s with
  | done a => exact h
  | fail e => exact h
  | step act next ih =>
    intro s' hstar hallowed
    obtain ⟨hstep, hrest⟩ := h s' hstar hallowed
    exact ⟨hstep, ih s' hrest⟩

/-- A weaker statement. -/
theorem Guarded.mono {A' : ℓ → σ → Prop} {G' : ℓ → σ → σ → Prop} {p : Prog σ ℓ ε α} {s : σ}
    (h : Guarded A R G Q p s) (hA : ∀ l s, A' l s → A l s) (hG : ∀ l s s', G l s s' → G' l s s')
    (hQ : ∀ r s, Q r s → Q' r s) : Guarded A' R G' Q' p s := by
  induction p generalizing s with
  | done a => exact fun s' hstar => hQ _ _ (h s' hstar)
  | fail e => exact fun s' hstar => hQ _ _ (h s' hstar)
  | step act next ih =>
    intro s' hstar hallowed
    obtain ⟨hstep, hrest⟩ := h s' hstar (hA _ _ hallowed)
    exact ⟨hG _ _ _ hstep, ih s' hrest⟩

/-- **A crash of one thread.** What its steps establish holds wherever it is stopped. -/
theorem Guarded.crash {I : σ → Prop} (hA : ∀ l s, I s → A l s) (hG : ∀ l s s', G l s s' → I s')
    {p : Prog σ ℓ ε α} {s : σ} (h : Guarded A R G Q p s) (hs : I s) (n : ℕ) : I (p.crash n s) := by
  induction n generalizing p s with
  | zero => exact hs
  | succ n ih =>
    cases p with
    | done a => exact hs
    | fail e => exact hs
    | step act next =>
      obtain ⟨hstep, hrest⟩ := h.step (hA _ s hs)
      exact ih hrest (hG _ _ _ hstep)

end Guarded

/-! ## Assertions before and after -/

/-- What holds after a program, by how it ends. -/
def ends (on_ok : α → σ → Prop) (on_error : ε → σ → Prop) : Except ε α → σ → Prop
  | .ok a => on_ok a
  | .error e => on_error e

/-- Started where `P` holds, the thread is guarded and ends with `Q` or `E`. -/
structure Does (A : ℓ → σ → Prop) (R : σ → σ → Prop) (G : ℓ → σ → σ → Prop) (P : σ → Prop)
    (p : Prog σ ℓ ε α) (Q : α → σ → Prop) (E : ε → σ → Prop) : Prop where
  guarded : ∀ s, P s → Guarded A R G (ends Q E) p s

section Does

variable {A : ℓ → σ → Prop} {R : σ → σ → Prop} {G : ℓ → σ → σ → Prop} {P P' : σ → Prop}
  {Q Q' : α → σ → Prop} {E E' : ε → σ → Prop}

theorem Does.weaken {p : Prog σ ℓ ε α} (h : Does A R G P p Q E) (hP : ∀ s, P' s → P s)
    (hQ : ∀ a s, Q a s → Q' a s) (hE : ∀ e s, E e s → E' e s) : Does A R G P' p Q' E' where
  guarded := by
    intro s hs
    refine (h.guarded s (hP s hs)).mono (fun _ _ hA => hA) (fun _ _ _ hG => hG) ?_
    intro r t hr
    cases r with
    | ok a => exact hQ a t hr
    | error e => exact hE e t hr

theorem does_pure {a : α} (hstable : Stable R P) (h : ∀ s, P s → Q a s) :
    Does A R G P (pure a) Q E := ⟨fun _ hs => guarded_pure hs hstable h⟩

theorem does_fail {e : ε} (hstable : Stable R P) (h : ∀ s, P s → E e s) :
    Does A R G P (.fail e : Prog σ ℓ ε α) Q E := ⟨fun _ hs => guarded_fail hs hstable h⟩

theorem does_lift {x : Except ε α} (hstable : Stable R P) (h : ∀ s, P s → ends Q E x s) :
    Does A R G P (lift x) Q E := ⟨fun _ hs => guarded_lift hs hstable h⟩

/-- A fact that does not depend on the state. -/
theorem does_of_fact {p : Prog σ ℓ ε α} {fact : Prop} (h : fact → Does A R G P p Q E) :
    Does A R G (fun s => P s ∧ fact) p Q E := ⟨fun s hs => (h hs.2).guarded s hs.1⟩

theorem Does.bind {p : Prog σ ℓ ε β} {f : β → Prog σ ℓ ε α} {M : β → σ → Prop}
    (hp : Does A R G P p M E) (hf : ∀ b, Does A R G (M b) (f b) Q E) :
    Does A R G P (p >>= f) Q E :=
  ⟨fun s hs => (hp.guarded s hs).bind (fun b t ht => (hf b).guarded t ht) fun _ _ ht => ht⟩

/-- A failure becomes a value. -/
theorem does_attempt {p : Prog σ ℓ ε α} {E'' : ε' → σ → Prop} (h : Does A R G P p Q E) :
    Does A R G P (p.attempt : Prog σ ℓ ε' (Except ε α)) (ends Q E) E'' :=
  ⟨fun s hs => guarded_attempt (h.guarded s hs)⟩

theorem does_map_error {p : Prog σ ℓ ε α} {f : ε → ε'} {E'' : ε' → σ → Prop}
    (h : Does A R G P p Q fun e => E'' (f e)) : Does A R G P (p.map_error f) Q E'' where
  guarded := by
    intro s hs
    refine guarded_map_error ((h.guarded s hs).mono (fun _ _ hA => hA) (fun _ _ _ hG => hG) ?_)
    intro r t hr
    cases r with
    | ok a => exact hr
    | error e => exact hr

/-- A program whose steps are fine wherever they are taken. -/
theorem does_of_steps {S : ℓ → σ → σ → Prop} {p : Prog σ ℓ ε α} (h : p.Steps S)
    (hG : ∀ l s s', A l s → S l s s' → G l s s') :
    Does A R G (fun _ => True) p (fun _ _ => True) fun _ _ => True := by
  refine ⟨fun s _ => ?_⟩
  induction p generalizing s with
  | done a => exact fun _ _ => trivial
  | fail e => exact fun _ _ => trivial
  | step act next ih =>
    intro s' _ hallowed
    exact ⟨hG _ _ _ hallowed (h s').1, ih s' (h s').2 _⟩

/-- What a program does by itself, at every point where it can stop. -/
theorem Guarded.holds {I : σ → Prop} (hA : ∀ l s, I s → A l s) (hG : ∀ l s s', G l s s' → I s')
    {p : Prog σ ℓ ε α} {s : σ} (h : Guarded A R G (ends Q E) p s) (hs : I s) : Holds I Q E p s := by
  induction p generalizing s with
  | done a => exact ⟨hs, h s .refl⟩
  | fail e => exact ⟨hs, h s .refl⟩
  | step act next ih =>
    obtain ⟨hstep, hrest⟩ := h.step (hA _ s hs)
    exact ⟨hs, ih s hrest (hG _ _ _ hstep)⟩

/-- **One step.** It is taken where the assertion holds, is in `G`, and leaves an assertion
for each of its results that the others leave true. -/
theorem does_atomic {label : σ → ℓ} {f : σ → Except ε α × σ} (hstable : Stable R P)
    (hQ : ∀ a, Stable R (Q a)) (hE : ∀ e, Stable R (E e))
    (h : ∀ s, P s → A (label s) s → G (label s) s (f s).2 ∧ ends Q E (f s).1 (f s).2) :
    Does A R G P (atomic label f) Q E where
  guarded := by
    intro s hs s' hstar hallowed
    obtain ⟨hstep, hend⟩ := h s' (hstable.star hstar hs) hallowed
    refine ⟨hstep, guarded_lift hend ?_ fun _ ht => ht⟩
    cases (f s').1 with
    | ok a => exact hQ a
    | error e => exact hE e

end Does

end Prog

namespace System

variable {ι π σ ℓ ε α : Type} [DecidableEq ι] [DecidableEq π] {system : System ι π σ ℓ ε α}
  {allowed : ℓ → σ → Prop}

/-- **All threads together.** Every thread is guarded at the start, and what a thread
guarantees under the invariant, as well as the end of a process, keeps the invariant and
is what the threads of the others rely on. Then the invariant holds in every pool of a
run, and every thread that is left is guarded there. -/
theorem Run.guarded {I : σ → Prop} {R : ι → σ → σ → Prop} {G : ι → ℓ → σ → σ → Prop}
    {Q : ι → Except ε α → σ → Prop} {s : σ} (hI : I s)
    (hstart : ∀ i, (system.program i).Guarded (fun l s => allowed l s ∧ I s) (R i) (G i) (Q i) s)
    (hstep : ∀ i l s s', allowed l s → I s → G i l s s' → I s' ∧ ∀ j, j ≠ i → R j s s')
    (hstop : ∀ p s, I s → I (system.gone p s) ∧ ∀ j, system.home j ≠ p → R j s (system.gone p s))
    {pool : Pool ι σ ℓ ε α} (h : system.Run allowed s pool) :
    I pool.shared ∧ ∀ i p, pool.threads i = some p →
      p.Guarded (fun l s => allowed l s ∧ I s) (R i) (G i) (Q i) pool.shared := by
  induction h with
  | refl =>
    refine ⟨hI, fun i p hp => ?_⟩
    rw [← Option.some.inj hp]
    exact hstart i
  | tail _ hmove ih =>
    obtain ⟨hinv, hthreads⟩ := ih
    cases hmove with
    | @step i act next hthread hallowed =>
      obtain ⟨hguarantee, hrest⟩ := (hthreads i _ hthread).step ⟨hallowed, hinv⟩
      obtain ⟨hinv', hothers⟩ := hstep i _ _ _ hallowed hinv hguarantee
      refine ⟨hinv', fun j p hp => ?_⟩
      dsimp only at hp
      by_cases hj : j = i
      · subst hj
        rw [Function.update_self, Option.some.injEq] at hp
        rw [← hp]
        exact hrest
      · rw [Function.update_of_ne hj] at hp
        exact (hthreads j p hp).others (hothers j hj)
    | @stop p =>
      obtain ⟨hinv', hothers⟩ := hstop p _ hinv
      refine ⟨hinv', fun j q hq => ?_⟩
      dsimp only at hq
      by_cases hj : system.home j = p
      · rw [if_pos hj] at hq
        cases hq
      · rw [if_neg hj] at hq
        exact (hthreads j q hq).others (hothers j hj)

/-- **From one moment to another.** What every guarantee is, the change between two moments
of a run is, if it is reflexive and transitive. -/
theorem Run.keeps {I : σ → Prop} {R : ι → σ → σ → Prop} {G : ι → ℓ → σ → σ → Prop}
    {Q : ι → Except ε α → σ → Prop} {K : σ → σ → Prop} {s : σ} (hI : I s)
    (hstart : ∀ i, (system.program i).Guarded (fun l s => allowed l s ∧ I s) (R i) (G i) (Q i) s)
    (hstep : ∀ i l s s', allowed l s → I s → G i l s s' → I s' ∧ ∀ j, j ≠ i → R j s s')
    (hstop : ∀ p s, I s → I (system.gone p s) ∧ ∀ j, system.home j ≠ p → R j s (system.gone p s))
    (hrefl : ∀ s, K s s) (htrans : ∀ s s' s'', K s s' → K s' s'' → K s s'')
    (hG : ∀ i l s s', G i l s s' → K s s') (hgone : ∀ p s, K s (system.gone p s))
    {pool pool' : Pool ι σ ℓ ε α} (h : system.Run allowed s pool)
    (hmore : Relation.ReflTransGen (system.Move allowed) pool pool') :
    K pool.shared pool'.shared := by
  induction hmore with
  | refl => exact hrefl _
  | tail hmore hmove ih =>
    obtain ⟨hinv, hthreads⟩ := Run.guarded hI hstart hstep hstop (h.trans hmore)
    refine htrans _ _ _ ih ?_
    cases hmove with
    | @step i act next hthread hallowed =>
      exact hG i _ _ _ ((hthreads i _ hthread).step ⟨hallowed, hinv⟩).1
    | @stop p => exact hgone p _

end System

end LeanBun.Lib
