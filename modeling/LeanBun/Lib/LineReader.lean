/-
Readers that consume a list of lines.

A reader takes lines off the front or fails. `Reads p ls x` says what `p` does
in front of the lines `ls`, whatever follows them: it takes exactly these lines
and gives the result `x`, or fails with the error of `x`. The rules below
compose this along a reader's `do` block, so the reader of a written record is
followed line by line next to its writer.
-/
import LeanBun.Lib.Check

set_option autoImplicit false

namespace LeanBun.Lib

section LineReader

variable {ε τ α β γ : Type}

/-- A reader over the items that are left. -/
abbrev LineReader (ε τ α : Type) := StateT (List τ) (Except ε) α

/-- In front of `ls`, the reader takes exactly `ls` and gives `x`. -/
def Reads (p : LineReader ε τ α) (ls : List τ) (x : Except ε α) : Prop :=
  ∀ rest, p.run (ls ++ rest) = x.map (·, rest)

/-- A pure step takes nothing. -/
theorem Reads.lift (x : Except ε α) : Reads (liftM x : LineReader ε τ α) [] x := by
  intro rest
  cases x <;> rfl

theorem Reads.pure (a : α) : Reads (Pure.pure a : LineReader ε τ α) [] (.ok a) := fun _ => rfl

/-- **Sequencing.** A step that succeeds, then the rest of the block. -/
theorem Reads.bind {p : LineReader ε τ α} {f : α → LineReader ε τ β} {ls ls' : List τ} {a : α}
    {x : Except ε β} (hp : Reads p ls (.ok a)) (hf : Reads (f a) ls' x) :
    Reads (p >>= f) (ls ++ ls') x := by
  intro rest
  have hrun := hp (ls' ++ rest)
  rw [List.append_assoc, StateT.run_bind, hrun]
  exact hf rest

/-- One line, then the rest of the block. -/
theorem Reads.cons {p : LineReader ε τ α} {f : α → LineReader ε τ β} {l : τ} {ls : List τ} {a : α}
    {x : Except ε β} (hp : Reads p [l] (.ok a)) (hf : Reads (f a) ls x) :
    Reads (p >>= f) (l :: ls) x := hp.bind hf

/-- **A check between two lines.** It takes nothing; if it fails, so does the
block. -/
theorem Reads.check {y : Except ε α} {f : α → LineReader ε τ β} {g : α → Except ε β} {ls : List τ}
    (hf : ∀ a, y = .ok a → Reads (f a) ls (g a)) :
    Reads ((liftM y : LineReader ε τ α) >>= f) ls (y >>= g) := by
  intro rest
  cases y with
  | error e => rfl
  | ok a => exact hf a rfl rest

/-- Sequencing with a step that may fail after it has taken its lines. -/
theorem Reads.seq {p : LineReader ε τ α} {f : α → LineReader ε τ β} {g : α → Except ε β}
    {ls ls' : List τ} {x : Except ε α} (hp : Reads p ls x)
    (hf : ∀ a, x = .ok a → Reads (f a) ls' (g a)) : Reads (p >>= f) (ls ++ ls') (x >>= g) := by
  intro rest
  have hrun := hp (ls' ++ rest)
  rw [List.append_assoc, StateT.run_bind, hrun]
  cases x with
  | error e => rfl
  | ok a => exact hf a rfl rest

/-- A check that succeeds. -/
theorem Reads.check_ok {y : Except ε α} {f : α → LineReader ε τ β} {ls : List τ} {a : α}
    {x : Except ε β} (hy : y = .ok a) (hf : Reads (f a) ls x) :
    Reads ((liftM y : LineReader ε τ α) >>= f) ls x := by
  subst hy
  exact hf

/-- A reader that stops after a check. -/
theorem Reads.map_lift {p : LineReader ε τ α} {ls : List τ} {a : α} {y : α → Except ε β}
    (hp : Reads p ls (.ok a)) : Reads (p >>= fun v => (liftM (y v) : LineReader ε τ β)) ls (y a) := by
  have h := Reads.bind (f := fun v => (liftM (y v) : LineReader ε τ β)) hp (Reads.lift (y a))
  rwa [List.append_nil] at h

/-- `for _ in 0..count { items.push(item()?) }`. -/
def parse_items (item : LineReader ε τ α) : ℕ → LineReader ε τ (List α)
  | 0 => return []
  | count + 1 => do
    let first ← item
    let rest ← parse_items item count
    return first :: rest

/-- **Counted items.** As many items as were written are read one after the
other, each with its own result. -/
theorem Reads.items {item : LineReader ε τ α} (enc : γ → List τ) (f : γ → Except ε α) (xs : List γ)
    (h : ∀ x ∈ xs, Reads item (enc x) (f x)) :
    Reads (parse_items item xs.length) (xs.flatMap enc) (xs.mapM f) := by
  induction xs with
  | nil => exact Reads.pure []
  | cons x xs ih =>
    have hhead : Reads item (enc x) (f x) := h x List.mem_cons_self
    have htail := ih fun y hy => h y (List.mem_cons_of_mem _ hy)
    intro rest
    rw [List.flatMap_cons, List.append_assoc, List.mapM_cons]
    have hrun := hhead (xs.flatMap enc ++ rest)
    simp only [List.length_cons, parse_items, StateT.run_bind, hrun]
    cases f x with
    | error e => rfl
    | ok a =>
      have hrest := htail rest
      show ((parse_items item xs.length).run (xs.flatMap enc ++ rest) >>= _) = _
      rw [hrest]
      show _ = Except.map _ (Except.ok a >>= _)
      cases xs.mapM f <;> rfl

/-- Counted items of one line each that are all read back. -/
theorem Reads.items_ok {item : LineReader ε τ α} {enc : α → τ} (xs : List α)
    (h : ∀ x ∈ xs, Reads item [enc x] (.ok x)) :
    Reads (parse_items item xs.length) (xs.map enc) (.ok xs) := by
  have hitems := Reads.items (fun x => [enc x]) Except.ok xs h
  have hall : xs.mapM (fun x => (Except.ok x : Except ε α)) = .ok xs :=
    mapM_eq_ok_iff.mpr (List.forall₂_same.mpr fun _ _ => rfl)
  have hmap : xs.flatMap (fun x => [enc x]) = xs.map enc :=
    List.map_eq_flatMap.symm
  rwa [hall, hmap] at hitems

/-- Running a reader that takes everything. -/
theorem Reads.run_all {p : LineReader ε τ α} {ls : List τ} {x : Except ε α} (h : Reads p ls x) :
    (p.run ls).map Prod.fst = x := by
  have hrun := h []
  rw [List.append_nil] at hrun
  rw [hrun]
  cases x <;> rfl

end LineReader

end LeanBun.Lib
