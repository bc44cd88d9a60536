/-
Programs over durable state, and what holds of them at every crash point.

A program takes atomic steps on a shared state. Each step carries a label, sees
the state as it is and leaves a state behind; the rest of the program depends on
what the step saw. A crash comes between two steps and leaves the state of that
moment.

`Holds I Q E p s` says that `p`, started in `s`, keeps the invariant `I` at every
point where it can be interrupted, ends with `Q` when it returns and with `E`
when it fails. The rules follow the program: one for a step, one for sequencing,
one for each of the other ways to build a program.
-/
import LeanBun.Lib.Deciding

set_option autoImplicit false

namespace LeanBun.Lib

/-- A program over states `σ` with labels `ℓ`, errors `ε` and results `α`. -/
inductive Prog (σ ℓ ε α : Type) : Type
  | done (value : α)
  | fail (error : ε)
  | step (act : σ → ℓ × σ) (next : σ → Prog σ ℓ ε α)

namespace Prog

variable {σ τ ℓ ℓ' ε ε' α β : Type}

/-! ## Building programs -/

/-- Sequencing: an error ends the program. -/
def bind : Prog σ ℓ ε α → (α → Prog σ ℓ ε β) → Prog σ ℓ ε β
  | .done a, f => f a
  | .fail e, _ => .fail e
  | .step act next, f => .step act fun s => (next s).bind f

instance : Monad (Prog σ ℓ ε) where
  pure := .done
  bind := bind

/-- A result without a step. -/
def lift : Except ε α → Prog σ ℓ ε α
  | .ok a => .done a
  | .error e => .fail e

/-- One atomic step with a result. -/
def atomic (label : σ → ℓ) (f : σ → Except ε α × σ) : Prog σ ℓ ε α :=
  .step (fun s => (label s, (f s).2)) fun s => lift (f s).1

/-- A step that leaves the state as it is. -/
def read (label : ℓ) (f : σ → Except ε α) : Prog σ ℓ ε α :=
  atomic (fun _ => label) fun s => (f s, s)

/-- A step that always succeeds. -/
def write (label : ℓ) (f : σ → σ) : Prog σ ℓ ε Unit :=
  atomic (fun _ => label) fun s => (.ok (), f s)

/-- The result of a program, errors included, as a value. -/
def attempt : Prog σ ℓ ε α → Prog σ ℓ ε' (Except ε α)
  | .done a => .done (.ok a)
  | .fail e => .done (.error e)
  | .step act next => .step act fun s => (next s).attempt

/-- Another error type. -/
def map_error (f : ε → ε') : Prog σ ℓ ε α → Prog σ ℓ ε' α
  | .done a => .done a
  | .fail e => .fail (f e)
  | .step act next => .step act fun s => (next s).map_error f

/-- A program for every item of a list. -/
def for_each (f : β → Prog σ ℓ ε Unit) : List β → Prog σ ℓ ε Unit
  | [] => .done ()
  | b :: bs => (f b).bind fun _ => for_each f bs

/-- A program on a part of a larger state. -/
def zoom (get : τ → σ) (put : σ → τ → τ) (relabel : ℓ → ℓ') : Prog σ ℓ ε α → Prog τ ℓ' ε α
  | .done a => .done a
  | .fail e => .fail e
  | .step act next => .step
      (fun t => (relabel (act (get t)).1, put (act (get t)).2 t))
      fun t => (next (get t)).zoom get put relabel

/-! ## Running programs -/

/-- The result and the last state of an undisturbed run. -/
def run : Prog σ ℓ ε α → σ → Except ε α × σ
  | .done a, s => (.ok a, s)
  | .fail e, s => (.error e, s)
  | .step act next, s => (next s).run (act s).2

/-- The state after `n` steps, or the last one when there are fewer: what a crash
leaves behind. -/
def crash : ℕ → Prog σ ℓ ε α → σ → σ
  | 0, _, s => s
  | _ + 1, .done _, s => s
  | _ + 1, .fail _, s => s
  | n + 1, .step act next, s => crash n (next s) (act s).2

/-- A run that succeeds, with its last state. -/
theorem run_eq_of_ok {p : Prog σ ℓ ε α} {s : σ} {a : α} (h : (p.run s).1 = .ok a) :
    p.run s = (.ok a, (p.run s).2) := Prod.ext h rfl

/-- An undisturbed run ends where a late crash does. -/
theorem crash_run (p : Prog σ ℓ ε α) (s : σ) : ∃ n, p.crash n s = (p.run s).2 := by
  induction p generalizing s with
  | done a => exact ⟨0, rfl⟩
  | fail e => exact ⟨0, rfl⟩
  | step act next ih =>
    obtain ⟨n, hn⟩ := ih s (act s).2
    exact ⟨n + 1, hn⟩

/-- A finished program in front delays the crash points of the rest. -/
theorem crash_bind {p : Prog σ ℓ ε α} {f : α → Prog σ ℓ ε β} {s s' : σ} {a : α}
    (h : p.run s = (.ok a, s')) : ∃ k, ∀ n, (p >>= f).crash (k + n) s = (f a).crash n s' := by
  induction p generalizing s with
  | done b =>
    obtain ⟨hb, hs⟩ := Prod.mk.inj h
    cases Except.ok.inj hb
    refine ⟨0, fun n => ?_⟩
    rw [Nat.zero_add, ← hs]
    rfl
  | fail e => exact absurd (Prod.mk.inj h).1 (by simp)
  | step act next ih =>
    obtain ⟨k, hk⟩ := ih s h
    refine ⟨k + 1, fun n => ?_⟩
    rw [Nat.add_right_comm]
    exact hk n

/-- Dropping the result of a program leaves its crash points. -/
@[simp] theorem crash_bind_pure (p : Prog σ ℓ ε α) (b : β) (n : ℕ) (s : σ) :
    (p >>= fun _ => (pure b : Prog σ ℓ ε β)).crash n s = p.crash n s := by
  induction n generalizing p s with
  | zero => rfl
  | succ n ih =>
    cases p with
    | done a => rfl
    | fail e => rfl
    | step act next => exact ih (next s) (act s).2

/-- What the rest can reach, the whole can. -/
theorem exists_crash_bind {p : Prog σ ℓ ε α} {f : α → Prog σ ℓ ε β} {s s' t : σ} {a : α}
    (h : p.run s = (.ok a, s')) (hrest : ∃ n, (f a).crash n s' = t) :
    ∃ n, (p >>= f).crash n s = t := by
  obtain ⟨k, hk⟩ := crash_bind (f := f) h
  obtain ⟨n, hn⟩ := hrest
  exact ⟨k + n, (hk n).trans hn⟩

theorem run_atomic (label : σ → ℓ) (f : σ → Except ε α × σ) (s : σ) :
    (atomic label f).run s = f s := by
  show (lift (f s).1 : Prog σ ℓ ε α).run (f s).2 = f s
  obtain ⟨result, s'⟩ := f s
  cases result <;> rfl

theorem run_attempt (p : Prog σ ℓ ε α) (s : σ) :
    (p.attempt : Prog σ ℓ ε' (Except ε α)).run s = (.ok (p.run s).1, (p.run s).2) := by
  induction p generalizing s with
  | done a => rfl
  | fail e => rfl
  | step act next ih => exact ih s (act s).2

theorem run_map_error (p : Prog σ ℓ ε α) (f : ε → ε') (s : σ) :
    (p.map_error f).run s = ((p.run s).1.mapError f, (p.run s).2) := by
  induction p generalizing s with
  | done a => rfl
  | fail e => rfl
  | step act next ih => exact ih s (act s).2

/-- The run goes on after a part that returns. -/
theorem run_bind_ok {p : Prog σ ℓ ε β} {f : β → Prog σ ℓ ε α} {s t : σ} {b : β}
    (h : p.run s = (.ok b, t)) : (p >>= f).run s = (f b).run t := by
  show (p.bind f).run s = (f b).run t
  induction p generalizing s with
  | done a =>
    obtain ⟨ha, hs⟩ := Prod.mk.inj h
    rw [Except.ok.inj ha] at *
    rw [← hs]
    rfl
  | fail e => exact absurd (Prod.mk.inj h).1 (by simp)
  | step act next ih => exact ih s h

/-- What comes after an attempt sees its result. -/
theorem run_attempt_bind (p : Prog σ ℓ ε' β) (f : Except ε' β → Prog σ ℓ ε α) (s : σ) :
    (p.attempt >>= f).run s = (f (p.run s).1).run (p.run s).2 := run_bind_ok (run_attempt p s)

/-- The run ends with a part that fails. -/
theorem run_bind_error {p : Prog σ ℓ ε β} {f : β → Prog σ ℓ ε α} {s t : σ} {e : ε}
    (h : p.run s = (.error e, t)) : (p >>= f).run s = (.error e, t) := by
  show (p.bind f).run s = (.error e, t)
  induction p generalizing s with
  | done a => exact absurd (Prod.mk.inj h).1 (by simp)
  | fail e' =>
    obtain ⟨he, hs⟩ := Prod.mk.inj h
    rw [Except.error.inj he] at *
    rw [← hs]
    rfl
  | step act next ih => exact ih s h

/-- The labels of the steps that a crash after `n` of them has let through. -/
def trace : ℕ → Prog σ ℓ ε α → σ → List ℓ
  | 0, _, _ => []
  | _ + 1, .done _, _ => []
  | _ + 1, .fail _, _ => []
  | n + 1, .step act next, s => (act s).1 :: trace n (next s) (act s).2

/-! ## What the steps of a program can do -/

/-- Every step that `p` can take is in `R`, whatever the state it is taken in. -/
def Steps (R : ℓ → σ → σ → Prop) : Prog σ ℓ ε α → Prop
  | .done _ => True
  | .fail _ => True
  | .step act next => ∀ s, R (act s).1 s (act s).2 ∧ Steps R (next s)

section Steps

variable {R : ℓ → σ → σ → Prop}

/-- **A run by its steps.** What every step keeps of the labels so far and the
state holds at every crash. -/
theorem Steps.crash {p : Prog σ ℓ ε α} (h : p.Steps R) {M : List ℓ → σ → Prop}
    (hM : ∀ l ls s s', R l s s' → M ls s → M (ls ++ [l]) s') {ls : List ℓ} {s : σ} (hs : M ls s)
    (n : ℕ) : M (ls ++ p.trace n s) (p.crash n s) := by
  induction n generalizing p ls s with
  | zero => exact (List.append_nil ls).symm ▸ hs
  | succ n ih =>
    cases p with
    | done a => exact (List.append_nil ls).symm ▸ hs
    | fail e => exact (List.append_nil ls).symm ▸ hs
    | step act next =>
      have hrest := ih (h s).2 (hM _ _ _ _ (h s).1 hs)
      rw [List.append_assoc] at hrest
      exact hrest

theorem Steps.mono {R' : ℓ → σ → σ → Prop} {p : Prog σ ℓ ε α} (h : p.Steps R)
    (hR : ∀ l s s', R l s s' → R' l s s') : p.Steps R' := by
  induction p with
  | done a => exact trivial
  | fail e => exact trivial
  | step act next ih => exact fun s => ⟨hR _ _ _ (h s).1, ih s (h s).2⟩

theorem steps_pure {a : α} : (pure a : Prog σ ℓ ε α).Steps R := trivial

theorem steps_lift {x : Except ε α} : (lift x : Prog σ ℓ ε α).Steps R := by
  cases x <;> exact trivial

theorem Steps.bind {p : Prog σ ℓ ε β} {f : β → Prog σ ℓ ε α} (hp : p.Steps R)
    (hf : ∀ b, (f b).Steps R) : (p >>= f).Steps R := by
  induction p with
  | done b => exact hf b
  | fail e => exact trivial
  | step act next ih => exact fun s => ⟨(hp s).1, ih s (hp s).2⟩

theorem steps_atomic {label : σ → ℓ} {f : σ → Except ε α × σ} (h : ∀ s, R (label s) s (f s).2) :
    (atomic label f).Steps R := fun s => ⟨h s, steps_lift⟩

theorem steps_read {label : ℓ} {f : σ → Except ε α} (h : ∀ s, R label s s) :
    (read label f).Steps R := steps_atomic h

theorem steps_write {label : ℓ} {f : σ → σ} (h : ∀ s, R label s (f s)) :
    (write label f : Prog σ ℓ ε Unit).Steps R := steps_atomic h

theorem Steps.attempt {p : Prog σ ℓ ε α} (h : p.Steps R) :
    (p.attempt : Prog σ ℓ ε' (Except ε α)).Steps R := by
  induction p with
  | done a => exact trivial
  | fail e => exact trivial
  | step act next ih => exact fun s => ⟨(h s).1, ih s (h s).2⟩

theorem Steps.map_error {p : Prog σ ℓ ε α} {f : ε → ε'} (h : p.Steps R) : (p.map_error f).Steps R := by
  induction p with
  | done a => exact trivial
  | fail e => exact trivial
  | step act next ih => exact fun s => ⟨(h s).1, ih s (h s).2⟩

theorem Steps.for_each {f : β → Prog σ ℓ ε Unit} {bs : List β} (h : ∀ b ∈ bs, (f b).Steps R) :
    (for_each f bs).Steps R := by
  induction bs with
  | nil => exact trivial
  | cons b bs ih =>
    refine Steps.bind (h b List.mem_cons_self) fun _ => ?_
    exact ih fun b' hb' => h b' (List.mem_cons_of_mem _ hb')

end Steps

/-! ## What one run does, step by step -/

/-- Every step of the undisturbed run from `s` is in `R`. -/
def Along (R : σ → σ → Prop) : Prog σ ℓ ε α → σ → Prop
  | .done _, _ => True
  | .fail _, _ => True
  | .step act next, s => R s (act s).2 ∧ Along R (next s) (act s).2

section Along

variable {R : σ → σ → Prop}

/-- **Meaning.** One more step before the crash is a step in `R`. -/
theorem Along.crash {p : Prog σ ℓ ε α} {s : σ} (h : Along R p s) (hR : ∀ s, R s s) (n : ℕ) :
    R (p.crash n s) (p.crash (n + 1) s) := by
  induction n generalizing p s with
  | zero =>
    cases p with
    | done a => exact hR s
    | fail e => exact hR s
    | step act next => exact h.1
  | succ n ih =>
    cases p with
    | done a => exact hR s
    | fail e => exact hR s
    | step act next => exact ih h.2

theorem along_pure {a : α} {s : σ} : Along R (pure a : Prog σ ℓ ε α) s := trivial

theorem along_lift {x : Except ε α} {s : σ} : Along R (lift x : Prog σ ℓ ε α) s := by
  cases x <;> exact trivial

/-- Steps that are in `R` whatever the state. -/
theorem Steps.along {R' : ℓ → σ → σ → Prop} {p : Prog σ ℓ ε α} (h : p.Steps R')
    (hR : ∀ l s s', R' l s s' → R s s') (s : σ) : Along R p s := by
  induction p generalizing s with
  | done a => exact trivial
  | fail e => exact trivial
  | step act next ih => exact ⟨hR _ _ _ (h s).1, ih s (h s).2 _⟩

theorem Along.bind {p : Prog σ ℓ ε β} {f : β → Prog σ ℓ ε α} {s : σ} (hp : Along R p s)
    (hf : ∀ b s', p.run s = (.ok b, s') → Along R (f b) s') : Along R (p >>= f) s := by
  induction p generalizing s with
  | done b => exact hf b s rfl
  | fail e => exact trivial
  | step act next ih => exact ⟨hp.1, ih s hp.2 fun b s' h => hf b s' h⟩

theorem along_read {label : ℓ} {g : σ → Except ε α} {s : σ} (hs : R s s) :
    Along R (read label g) s := ⟨hs, along_lift⟩

theorem Along.read_bind {label : ℓ} {g : σ → Except ε β} {f : β → Prog σ ℓ ε α} {s : σ} (hs : R s s)
    (hf : ∀ b, g s = .ok b → Along R (f b) s) : Along R (read label g >>= f) s := by
  apply (along_read hs).bind
  intro b s' hrun
  have hrun : (g s, s) = (.ok b, s') :=
    (run_atomic (fun _ => label) (fun s => (g s, s)) s).symm.trans hrun
  obtain ⟨hb, rfl⟩ := Prod.mk.inj hrun
  exact hf b hb

theorem Along.write_bind {label : ℓ} {g : σ → σ} {f : Unit → Prog σ ℓ ε α} {s : σ} (hs : R s (g s))
    (hf : Along R (f ()) (g s)) : Along R (write label g >>= f) s := ⟨hs, hf⟩

end Along

/-! ## What a program sees of the state -/

/-- The program sees nothing of the state but `get` of it. -/
def Local (get : σ → τ) : Prog σ ℓ ε α → Prop
  | .done _ => True
  | .fail _ => True
  | .step act next => (∀ s s', get s = get s' → get (act s).2 = get (act s').2 ∧ next s = next s') ∧
      ∀ s, Local get (next s)

section Local

variable {get : σ → τ}

/-- **Meaning.** States that look the same give the same result and look the same
afterwards. -/
theorem Local.run {p : Prog σ ℓ ε α} (h : p.Local get) {s s' : σ} (hsame : get s = get s') :
    (p.run s).1 = (p.run s').1 ∧ get (p.run s).2 = get (p.run s').2 := by
  induction p generalizing s s' with
  | done a => exact ⟨rfl, hsame⟩
  | fail e => exact ⟨rfl, hsame⟩
  | step act next ih =>
    obtain ⟨hact, hnext⟩ := h.1 s s' hsame
    have hrest := ih s (h.2 s) hact
    rw [hnext] at hrest
    show ((next s).run (act s).2).1 = ((next s').run (act s').2).1 ∧
      get ((next s).run (act s).2).2 = get ((next s').run (act s').2).2
    rw [hnext]
    exact hrest

theorem local_lift {x : Except ε α} : (lift x : Prog σ ℓ ε α).Local get := by
  cases x <;> exact trivial

theorem local_atomic {label : σ → ℓ} {f : σ → Except ε α × σ}
    (h : ∀ s s', get s = get s' → (f s).1 = (f s').1 ∧ get (f s).2 = get (f s').2) :
    (atomic label f).Local get := by
  refine ⟨fun s s' hsame => ⟨(h s s' hsame).2, ?_⟩, fun s => local_lift⟩
  show lift (f s).1 = lift (f s').1
  rw [(h s s' hsame).1]

theorem Local.bind {p : Prog σ ℓ ε β} {f : β → Prog σ ℓ ε α} (hp : p.Local get)
    (hf : ∀ b, (f b).Local get) : (p >>= f).Local get := by
  induction p with
  | done b => exact hf b
  | fail e => exact trivial
  | step act next ih =>
    refine ⟨fun s s' hsame => ⟨(hp.1 s s' hsame).1, ?_⟩, fun s => ih s (hp.2 s)⟩
    show (next s).bind f = (next s').bind f
    rw [(hp.1 s s' hsame).2]

theorem Local.for_each {f : β → Prog σ ℓ ε Unit} {bs : List β} (h : ∀ b ∈ bs, (f b).Local get) :
    (for_each f bs).Local get := by
  induction bs with
  | nil => exact trivial
  | cons b bs ih =>
    refine Local.bind (h b List.mem_cons_self) fun _ => ?_
    exact ih fun b' hb' => h b' (List.mem_cons_of_mem _ hb')

end Local

/-! ## Crash invariants -/

/-- `I` holds at every point of the run from `s`, and `Q` or `E` at its end. -/
def Holds (I : σ → Prop) (Q : α → σ → Prop) (E : ε → σ → Prop) : Prog σ ℓ ε α → σ → Prop
  | .done a, s => I s ∧ Q a s
  | .fail e, s => I s ∧ E e s
  | .step act next, s => I s ∧ Holds I Q E (next s) (act s).2

variable {I I' : σ → Prop} {Q Q' : α → σ → Prop} {E E' : ε → σ → Prop}

/-- The invariant holds at the start. -/
theorem Holds.start {p : Prog σ ℓ ε α} {s : σ} (h : Holds I Q E p s) : I s := by
  cases p <;> exact h.1

/-- **Meaning.** The invariant holds wherever the program can crash. -/
theorem Holds.crash {p : Prog σ ℓ ε α} {s : σ} (h : Holds I Q E p s) (n : ℕ) :
    I (p.crash n s) := by
  induction n generalizing p s with
  | zero => exact h.start
  | succ n ih =>
    cases p with
    | done a => exact h.1
    | fail e => exact h.1
    | step act next => exact ih h.2

/-- **Meaning.** What holds at the end, by the result. -/
theorem Holds.run {p : Prog σ ℓ ε α} {s : σ} (h : Holds I Q E p s) :
    (∃ a, (p.run s).1 = .ok a ∧ Q a (p.run s).2) ∨ ∃ e, (p.run s).1 = .error e ∧ E e (p.run s).2 := by
  induction p generalizing s with
  | done a => exact Or.inl ⟨a, rfl, h.2⟩
  | fail e => exact Or.inr ⟨e, rfl, h.2⟩
  | step act next ih => exact ih s h.2

theorem Holds.run_ok {p : Prog σ ℓ ε α} {s : σ} (h : Holds I Q E p s) {a : α}
    (ha : (p.run s).1 = .ok a) : Q a (p.run s).2 := by
  rcases h.run with ⟨b, hb, hQ⟩ | ⟨e, he, -⟩
  · rw [ha] at hb
    cases hb
    exact hQ
  · rw [ha] at he
    cases he

/-- A program that cannot fail returns. -/
theorem Holds.returns {p : Prog σ ℓ ε α} {s : σ} (h : Holds I Q (fun _ _ => False) p s) :
    ∃ a, (p.run s).1 = .ok a ∧ Q a (p.run s).2 := h.run.resolve_right fun ⟨_, _, hE⟩ => hE

/-- A program that cannot fail and whose end is known. -/
theorem Holds.run_eq {p : Prog σ ℓ ε α} {s s' : σ} {a : α}
    (h : Holds I (fun b t => b = a ∧ t = s') (fun _ _ => False) p s) : p.run s = (.ok a, s') := by
  obtain ⟨b, hb, rfl, hstate⟩ := h.returns
  exact Prod.ext hb hstate

theorem Holds.mono {p : Prog σ ℓ ε α} {s : σ} (h : Holds I Q E p s) (hI : ∀ s, I s → I' s)
    (hQ : ∀ a s, I s → Q a s → Q' a s) (hE : ∀ e s, I s → E e s → E' e s) : Holds I' Q' E' p s := by
  induction p generalizing s with
  | done a => exact ⟨hI s h.1, hQ a s h.1 h.2⟩
  | fail e => exact ⟨hI s h.1, hE e s h.1 h.2⟩
  | step act next ih => exact ⟨hI s h.1, ih s h.2⟩

/-- Two facts about one program. -/
theorem Holds.and {p : Prog σ ℓ ε α} {s : σ} (h : Holds I Q E p s) (h' : Holds I' Q' E' p s) :
    Holds (fun s => I s ∧ I' s) (fun a s => Q a s ∧ Q' a s) (fun e s => E e s ∧ E' e s) p s := by
  induction p generalizing s with
  | done a => exact ⟨⟨h.1, h'.1⟩, h.2, h'.2⟩
  | fail e => exact ⟨⟨h.1, h'.1⟩, h.2, h'.2⟩
  | step act next ih => exact ⟨⟨h.1, h'.1⟩, ih s h.2 h'.2⟩

/-! ## The rules -/

@[simp] theorem holds_pure {a : α} {s : σ} :
    Holds I Q E (pure a : Prog σ ℓ ε α) s ↔ I s ∧ Q a s := Iff.rfl

/-- **Sequencing.** The second program runs from wherever the first one ends. -/
theorem holds_bind {p : Prog σ ℓ ε β} {f : β → Prog σ ℓ ε α} {s : σ} :
    Holds I Q E (p >>= f) s ↔ Holds I (fun b s' => Holds I Q E (f b) s') E p s := by
  show Holds I Q E (p.bind f) s ↔ _
  induction p generalizing s with
  | done b => exact ⟨fun h => ⟨h.start, h⟩, fun h => h.2⟩
  | fail e => exact Iff.rfl
  | step act next ih => exact and_congr_right fun _ => ih s

theorem Holds.bind {J : β → σ → Prop} {p : Prog σ ℓ ε β} {f : β → Prog σ ℓ ε α} {s : σ}
    (h : Holds I J E p s) (hf : ∀ b s', I s' → J b s' → Holds I Q E (f b) s') :
    Holds I Q E (p >>= f) s :=
  holds_bind.mpr (h.mono (fun _ hI => hI) hf fun _ _ _ hE => hE)

theorem holds_lift {x : Except ε α} {s : σ} :
    Holds I Q E (lift x : Prog σ ℓ ε α) s ↔
      I s ∧ (∀ a, x = .ok a → Q a s) ∧ ∀ e, x = .error e → E e s := by
  cases x with
  | ok a =>
    refine and_congr_right fun _ => ⟨fun h => ⟨?_, ?_⟩, fun h => h.1 a rfl⟩
    · rintro b ⟨⟩
      exact h
    · rintro e ⟨⟩
  | error e =>
    refine and_congr_right fun _ => ⟨fun h => ⟨?_, ?_⟩, fun h => h.2 e rfl⟩
    · rintro b ⟨⟩
    · rintro e' ⟨⟩
      exact h

/-- **One step.** -/
theorem holds_atomic {label : σ → ℓ} {f : σ → Except ε α × σ} {s : σ} :
    Holds I Q E (atomic label f) s ↔ I s ∧ I (f s).2 ∧
      (∀ a, (f s).1 = .ok a → Q a (f s).2) ∧ ∀ e, (f s).1 = .error e → E e (f s).2 :=
  and_congr_right fun _ => holds_lift

/-- A step that succeeds. -/
theorem Holds.atomic_ok {label : σ → ℓ} {f : σ → Except ε α × σ} {s s' : σ} {a : α}
    (hf : f s = (.ok a, s')) (hs : I s) (hs' : I s') (hQ : Q a s') :
    Holds I Q E (atomic label f) s := by
  refine holds_atomic.mpr ⟨hs, ?_, ?_, ?_⟩
  · rw [hf]
    exact hs'
  · intro b hb
    rw [hf] at hb ⊢
    cases hb
    exact hQ
  · intro e he
    rw [hf] at he
    cases he

/-- A step that fails. -/
theorem Holds.atomic_error {label : σ → ℓ} {f : σ → Except ε α × σ} {s s' : σ} {e : ε}
    (hf : f s = (.error e, s')) (hs : I s) (hs' : I s') (hE : E e s') :
    Holds I Q E (atomic label f) s := by
  refine holds_atomic.mpr ⟨hs, ?_, ?_, ?_⟩
  · rw [hf]
    exact hs'
  · intro b hb
    rw [hf] at hb
    cases hb
  · intro e' he
    rw [hf] at he ⊢
    cases he
    exact hE

theorem holds_read {label : ℓ} {f : σ → Except ε α} {s : σ} :
    Holds I Q E (read label f) s ↔
      I s ∧ (∀ a, f s = .ok a → Q a s) ∧ ∀ e, f s = .error e → E e s := by
  refine holds_atomic.trans ⟨fun h => ⟨h.1, h.2.2⟩, fun h => ⟨h.1, h.1, h.2⟩⟩

theorem holds_write {label : ℓ} {f : σ → σ} {s : σ} {Q : Unit → σ → Prop} :
    Holds I Q E (write label f) s ↔ I s ∧ I (f s) ∧ Q () (f s) := by
  refine holds_atomic.trans (and_congr_right fun _ => and_congr_right fun _ => ?_)
  refine ⟨fun h => h.1 () rfl, fun h => ⟨?_, ?_⟩⟩
  · rintro ⟨⟩ -
    exact h
  · rintro e ⟨⟩

theorem holds_attempt {p : Prog σ ℓ ε α} {Q : Except ε α → σ → Prop} {E : ε' → σ → Prop} {s : σ} :
    Holds I Q E (p.attempt : Prog σ ℓ ε' (Except ε α)) s ↔
      Holds I (fun a => Q (.ok a)) (fun e => Q (.error e)) p s := by
  induction p generalizing s with
  | done a => exact Iff.rfl
  | fail e => exact Iff.rfl
  | step act next ih => exact and_congr_right fun _ => ih s

theorem holds_map_error {p : Prog σ ℓ ε α} {f : ε → ε'} {E : ε' → σ → Prop} {s : σ} :
    Holds I Q E (p.map_error f) s ↔ Holds I Q (fun e => E (f e)) p s := by
  induction p generalizing s with
  | done a => exact Iff.rfl
  | fail e => exact Iff.rfl
  | step act next ih => exact and_congr_right fun _ => ih s

/-! ## Executing a program step by step

The rules for a step with a program behind it. -/

theorem Holds.lift_bind {x : Except ε β} {f : β → Prog σ ℓ ε α} {s : σ} (hs : I s)
    (herror : ∀ e, x = .error e → E e s) (hok : ∀ b, x = .ok b → Holds I Q E (f b) s) :
    Holds I Q E (lift x >>= f) s :=
  holds_bind.mpr (holds_lift.mpr ⟨hs, hok, herror⟩)

theorem Holds.read_bind {label : ℓ} {g : σ → Except ε β} {f : β → Prog σ ℓ ε α} {s : σ} (hs : I s)
    (herror : ∀ e, g s = .error e → E e s) (hok : ∀ b, g s = .ok b → Holds I Q E (f b) s) :
    Holds I Q E (read label g >>= f) s :=
  holds_bind.mpr (holds_read.mpr ⟨hs, hok, herror⟩)

theorem Holds.write_bind {label : ℓ} {g : σ → σ} {f : Unit → Prog σ ℓ ε α} {s : σ} (hs : I s)
    (hrest : Holds I Q E (f ()) (g s)) : Holds I Q E (write label g >>= f) s :=
  holds_bind.mpr (holds_write.mpr ⟨hs, hrest.start, hrest⟩)

theorem Holds.attempt_bind {p : Prog σ ℓ ε' β} {f : Except ε' β → Prog σ ℓ ε α} {s : σ}
    (h : Holds I (fun b s' => Holds I Q E (f (.ok b)) s')
      (fun e s' => Holds I Q E (f (.error e)) s') p s) :
    Holds I Q E (p.attempt >>= f) s := holds_bind.mpr (holds_attempt.mpr h)

/-- The run itself, as what holds at the end. -/
theorem holds_of_run (p : Prog σ ℓ ε α) (s : σ) : Holds (fun _ => True)
    (fun a s' => p.run s = (.ok a, s')) (fun e s' => p.run s = (.error e, s')) p s := by
  induction p generalizing s with
  | done a => exact ⟨trivial, rfl⟩
  | fail e => exact ⟨trivial, rfl⟩
  | step act next ih => exact ⟨trivial, ih s (act s).2⟩

/-- A program whose steps keep a fact keeps it throughout. -/
theorem Steps.holds {R : ℓ → σ → σ → Prop} {p : Prog σ ℓ ε α} (h : p.Steps R) {J : σ → Prop}
    (hJ : ∀ l s s', R l s s' → J s → J s') {s : σ} (hs : J s) :
    Holds J (fun _ => J) (fun _ => J) p s := by
  induction p generalizing s with
  | done a => exact ⟨hs, hs⟩
  | fail e => exact ⟨hs, hs⟩
  | step act next ih => exact ⟨hs, ih s (h s).2 (hJ _ _ _ (h s).1 hs)⟩

/-- **A loop.** What every round keeps holds after the loop. -/
theorem Holds.for_each {J : σ → Prop} {f : β → Prog σ ℓ ε Unit} {bs : List β} {s : σ} (hs : J s)
    (hI : ∀ s, J s → I s)
    (hf : ∀ b ∈ bs, ∀ s, J s → Holds I (fun _ s' => J s') E (f b) s) :
    Holds I (fun _ s' => J s') E (for_each f bs) s := by
  induction bs generalizing s with
  | nil => exact ⟨hI s hs, hs⟩
  | cons b bs ih =>
    refine Holds.bind (hf b List.mem_cons_self s hs) fun _ s' _ hs' => ?_
    exact ih hs' fun b' hb' => hf b' (List.mem_cons_of_mem _ hb')

/-- **A part of the state.** -/
theorem holds_zoom {get : τ → σ} {put : σ → τ → τ} {relabel : ℓ → ℓ'}
    (hget : ∀ s t, get (put s t) = s) (hput : ∀ s s' t, put s' (put s t) = put s' t)
    {I : τ → Prop} {Q : α → τ → Prop} {E : ε → τ → Prop} {p : Prog σ ℓ ε α} {s : σ} {t : τ} :
    Holds I Q E (p.zoom get put relabel) (put s t) ↔
      Holds (fun s => I (put s t)) (fun a s => Q a (put s t)) (fun e s => E e (put s t)) p s := by
  induction p generalizing s with
  | done a => exact Iff.rfl
  | fail e => exact Iff.rfl
  | step act next ih =>
    refine and_congr_right fun _ => ?_
    show Holds I Q E ((next (get (put s t))).zoom get put relabel)
      (put (act (get (put s t))).2 (put s t)) ↔ _
    rw [hget, hput]
    exact ih s

end Prog

end LeanBun.Lib
