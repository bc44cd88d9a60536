/-
Where a program gets to.

`Reaches p s q s'` says that `p`, started in `s`, comes after some steps to the
state `s'` with `q` still to be done. The rules follow a straight path through a
program: each of them does one of its parts. What is reached is then read off for
an undisturbed run, for a crash on the way, and for the steps that other
processes may come between.
-/
import LeanBun.Lib.Durable

set_option autoImplicit false

namespace LeanBun.Lib

namespace Prog

variable {σ τ ℓ ℓ' ε ε' α β : Type}

/-- What is left of a program after some of its steps. -/
inductive Reaches : Prog σ ℓ ε α → σ → Prog σ ℓ ε α → σ → Prop
  | refl (p : Prog σ ℓ ε α) (s : σ) : Reaches p s p s
  | step {act : σ → ℓ × σ} {next : σ → Prog σ ℓ ε α} {s s' : σ} {q : Prog σ ℓ ε α}
      (h : Reaches (next s) (act s).2 q s') : Reaches (.step act next) s q s'

theorem Reaches.trans {p q r : Prog σ ℓ ε α} {s s' s'' : σ} (h : Reaches p s q s')
    (hrest : Reaches q s' r s'') : Reaches p s r s'' := by
  induction h with
  | refl => exact hrest
  | step _ ih => exact .step (ih hrest)

/-! ## What is reached -/

/-- The rest decides how a run ends. -/
theorem Reaches.run_eq {p q : Prog σ ℓ ε α} {s s' : σ} (h : Reaches p s q s') :
    p.run s = q.run s' := by
  induction h with
  | refl => rfl
  | step _ ih => exact ih

/-- A crash of the rest is a crash of the whole. -/
theorem Reaches.crash {p q : Prog σ ℓ ε α} {s s' : σ} (h : Reaches p s q s') (n : ℕ) :
    ∃ k, p.crash k s = q.crash n s' := by
  induction h with
  | refl => exact ⟨n, rfl⟩
  | step _ ih =>
    obtain ⟨k, hk⟩ := ih
    exact ⟨k + 1, hk⟩

/-- A program can crash where it has just got to. -/
theorem Reaches.crash_here {p q : Prog σ ℓ ε α} {s s' : σ} (h : Reaches p s q s') :
    ∃ k, p.crash k s = s' := h.crash 0

/-- What a crash after `n` steps leaves of a program. -/
def rest : ℕ → Prog σ ℓ ε α → σ → Prog σ ℓ ε α
  | 0, p, _ => p
  | _ + 1, .done a, _ => .done a
  | _ + 1, .fail e, _ => .fail e
  | n + 1, .step act next, s => rest n (next s) (act s).2

theorem reaches_rest (p : Prog σ ℓ ε α) (n : ℕ) (s : σ) :
    Reaches p s (p.rest n s) (p.crash n s) := by
  induction n generalizing p s with
  | zero => exact .refl p s
  | succ n ih =>
    cases p with
    | done a => exact .refl _ _
    | fail e => exact .refl _ _
    | step act next => exact .step (ih (next s) (act s).2)

/-- Every crash leaves something of the program. -/
theorem reaches_crash (p : Prog σ ℓ ε α) (n : ℕ) (s : σ) : ∃ q, Reaches p s q (p.crash n s) :=
  ⟨_, reaches_rest p n s⟩

/-- A run leaves its result. -/
theorem reaches_run {p : Prog σ ℓ ε α} {x : Except ε α} {s s' : σ} (h : p.run s = (x, s')) :
    Reaches p s (lift x) s' := by
  induction p generalizing s with
  | done a =>
    obtain ⟨rfl, rfl⟩ := Prod.mk.inj h
    exact .refl _ _
  | fail e =>
    obtain ⟨rfl, rfl⟩ := Prod.mk.inj h
    exact .refl _ _
  | step act next ih => exact .step (ih s h)

/-! ## The rules -/

theorem Reaches.bind {p q : Prog σ ℓ ε β} {s s' : σ} (h : Reaches p s q s')
    (f : β → Prog σ ℓ ε α) : Reaches (p >>= f) s (q >>= f) s' := by
  induction h with
  | refl => exact .refl _ _
  | step _ ih => exact .step ih

theorem Reaches.attempt {p q : Prog σ ℓ ε α} {s s' : σ} (h : Reaches p s q s') :
    Reaches (p.attempt : Prog σ ℓ ε' (Except ε α)) s q.attempt s' := by
  induction h with
  | refl => exact .refl _ _
  | step _ ih => exact .step ih

theorem Reaches.map_error {p q : Prog σ ℓ ε α} {s s' : σ} (h : Reaches p s q s') (f : ε → ε') :
    Reaches (p.map_error f) s (q.map_error f) s' := by
  induction h with
  | refl => exact .refl _ _
  | step _ ih => exact .step ih

/-- A program on a part of the state leaves the rest of it alone. -/
theorem Reaches.zoom {get : τ → σ} {put : σ → τ → τ} (hget : ∀ a t, get (put a t) = a)
    (hput : ∀ a b t, put a (put b t) = put a t) {p q : Prog σ ℓ ε α} {s s' : σ}
    (h : Reaches p s q s') (relabel : ℓ → ℓ') {t : τ} (hs : get t = s) (hself : put s t = t) :
    Reaches (p.zoom get put relabel) t (q.zoom get put relabel) (put s' t) := by
  induction h generalizing t with
  | refl =>
    rw [hself]
    exact .refl _ _
  | @step act next s s' q _ ih =>
    subst hs
    refine .step ?_
    have hstep := ih (t := put (act (get t)).2 t) (hget _ _) (hput _ _ _)
    rw [hput] at hstep
    exact hstep

/-- A part that returns is done. -/
theorem reaches_bind {p : Prog σ ℓ ε β} {b : β} {s s' : σ} (h : p.run s = (.ok b, s'))
    (f : β → Prog σ ℓ ε α) : Reaches (p >>= f) s (f b) s' := (reaches_run h).bind f

theorem reaches_lift {x : Except ε β} {b : β} {s : σ} (h : x = .ok b) (f : β → Prog σ ℓ ε α) :
    Reaches (lift x >>= f) s (f b) s := by
  subst h
  exact .refl _ _

theorem reaches_atomic {label : σ → ℓ} {g : σ → Except ε β × σ} {b : β} {s t : σ}
    (h : g s = (.ok b, t)) (f : β → Prog σ ℓ ε α) : Reaches (atomic label g >>= f) s (f b) t :=
  reaches_bind ((run_atomic label g s).trans h) f

theorem reaches_read {label : ℓ} {g : σ → Except ε β} {b : β} {s : σ} (h : g s = .ok b)
    (f : β → Prog σ ℓ ε α) : Reaches (read label g >>= f) s (f b) s := by
  unfold read
  apply reaches_atomic
  rw [h]

theorem reaches_write {label : ℓ} {g : σ → σ} {s : σ} (f : Unit → Prog σ ℓ ε α) :
    Reaches (write label g >>= f) s (f ()) (g s) := by
  unfold write
  apply reaches_atomic
  rfl

end Prog

end LeanBun.Lib
