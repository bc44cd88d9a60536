/-
What every crash of a program leaves, told by the steps before it.

`Cuts M p ls s` says that `M` holds of the labels and the state at every crash of `p` in
`s`, after labels `ls`. The rules go through the program one step at a time, so that the
crash points of a straight program become a list of states to look at.
-/
import LeanBun.Lib.Durable

set_option autoImplicit false

namespace LeanBun.Lib.Prog

variable {σ ℓ ε α β : Type}

/-- `M` holds at every crash, of the labels up to it and the state it leaves. -/
def Cuts (M : List ℓ → σ → Prop) (p : Prog σ ℓ ε α) (ls : List ℓ) (s : σ) : Prop :=
  ∀ n, M (ls ++ p.trace n s) (p.crash n s)

variable {M : List ℓ → σ → Prop} {ls : List ℓ} {s t : σ}

/-- Nothing comes after the end. -/
theorem cuts_lift {x : Except ε α} (h : M ls s) : Cuts M (lift x) ls s := by
  intro n
  have htrace : (lift x : Prog σ ℓ ε α).trace n s = [] ∧ (lift x : Prog σ ℓ ε α).crash n s = s := by
    cases x <;> cases n <;> exact ⟨rfl, rfl⟩
  rw [htrace.1, htrace.2, List.append_nil]
  exact h

theorem Cuts.step {act : σ → ℓ × σ} {next : σ → Prog σ ℓ ε α} (h : M ls s)
    (hrest : Cuts M (next s) (ls ++ [(act s).1]) (act s).2) : Cuts M (.step act next) ls s := by
  intro n
  cases n with
  | zero => exact (List.append_nil ls).symm ▸ h
  | succ n =>
    have hn := hrest n
    rw [List.append_assoc] at hn
    exact hn

/-- A step that goes through, and the rest after it. -/
theorem Cuts.atomic_bind {label : σ → ℓ} {g : σ → Except ε β × σ} {f : β → Prog σ ℓ ε α} {b : β}
    (h : M ls s) (hg : g s = (.ok b, t)) (hrest : Cuts M (f b) (ls ++ [label s]) t) :
    Cuts M (atomic label g >>= f) ls s := by
  refine Cuts.step h ?_
  show Cuts M ((lift (g s).1).bind f) (ls ++ [label s]) (g s).2
  rw [hg]
  exact hrest

/-- A step that fails is the last. -/
theorem Cuts.atomic_error {label : σ → ℓ} {g : σ → Except ε β × σ} {f : β → Prog σ ℓ ε α} {e : ε}
    (h : M ls s) (hg : g s = (.error e, t)) (hend : M (ls ++ [label s]) t) :
    Cuts M (atomic label g >>= f) ls s := by
  refine Cuts.step h ?_
  show Cuts M ((lift (g s).1).bind f) (ls ++ [label s]) (g s).2
  rw [hg]
  exact cuts_lift (x := .error e) hend

/-- A result without a step in front. -/
theorem cuts_lift_bind {x : Except ε β} {f : β → Prog σ ℓ ε α} (h : M ls s)
    (hrest : ∀ b, x = .ok b → Cuts M (f b) ls s) : Cuts M (lift x >>= f) ls s := by
  cases x with
  | ok b => exact hrest b rfl
  | error e => exact cuts_lift (x := .error e) h

end LeanBun.Lib.Prog
