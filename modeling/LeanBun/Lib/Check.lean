/-
Checks that return their evidence, and how a block of checks succeeds.

A constructor that validates its arguments is a `do` block of checks. `ensure`
is one check: it fails with the given error or returns the proof of what it
checked, so that the value at the end of the block can carry it.
-/
import LeanBun.Lib.Deciding

set_option autoImplicit false

namespace LeanBun.Lib

section Check

variable {ε α β : Type}

/-- Fails with the error unless the condition holds, and returns the evidence. -/
def ensure (p : Prop) [Decidable p] (e : ε) : Except ε (PLift p) :=
  if h : p then .ok ⟨h⟩ else .error e

theorem ensure_ok {p : Prop} [Decidable p] (h : p) (e : ε) : ensure p e = .ok ⟨h⟩ := dif_pos h

theorem ensure_error {p : Prop} [Decidable p] (h : ¬p) (e : ε) : ensure p e = .error e := dif_neg h

theorem ensure_eq_ok {p : Prop} [Decidable p] {e : ε} {x : PLift p} (_ : ensure p e = .ok x) : p :=
  x.down

/-- A value that is missing passes every check. -/
theorem none_passes {P : α → Bool} : ∀ v ∈ (none : Option α), P v = true := fun _ h => by cases h

theorem some_passes {P : α → Bool} {v : α} (h : P v = true) : ∀ w ∈ some v, P w = true := by
  simpa using h

/-- A block succeeds when its first step does and the rest does. -/
theorem bind_eq_ok {x : Except ε α} {f : α → Except ε β} {b : β} :
    x >>= f = .ok b ↔ ∃ a, x = .ok a ∧ f a = .ok b := by
  constructor
  · intro h
    cases x with
    | error e => cases h
    | ok a => exact ⟨a, rfl, h⟩
  · rintro ⟨a, rfl, h⟩
    exact h

/-- A block fails when its first step does, or with the rest. -/
theorem bind_eq_error {x : Except ε α} {f : α → Except ε β} {e : ε} :
    x >>= f = .error e ↔ x = .error e ∨ ∃ a, x = .ok a ∧ f a = .error e := by
  cases x with
  | error e' => simp [bind, Except.bind]
  | ok a => simp [bind, Except.bind]

theorem ensure_eq_error {p : Prop} [Decidable p] {e e' : ε} :
    ensure p e = .error e' ↔ ¬p ∧ e = e' := by
  by_cases h : p
  · simp [ensure_ok h, h]
  · simp [ensure_error h, h]

/-- Two blocks that check the same, and go on alike where it holds. -/
theorem ensure_bind_congr {p q : Prop} [Decidable p] [Decidable q] {e : ε}
    {f : PLift p → Except ε β} {g : PLift q → Except ε β} (hpq : p ↔ q)
    (hfg : ∀ (hp : p) (hq : q), f ⟨hp⟩ = g ⟨hq⟩) : ensure p e >>= f = ensure q e >>= g := by
  by_cases hp : p
  · rw [ensure_ok hp, ensure_ok (hpq.mp hp)]
    exact hfg hp (hpq.mp hp)
  · rw [ensure_error hp, ensure_error fun hq => hp (hpq.mpr hq)]
    rfl

/-- Renaming the errors does not change when a step succeeds. -/
theorem mapError_eq_ok {ε' : Type} {x : Except ε α} {f : ε → ε'} {a : α} :
    x.mapError f = .ok a ↔ x = .ok a := by
  cases x with
  | error e => exact ⟨fun h => (by cases h), fun h => (by cases h)⟩
  | ok b => rw [Except.mapError, Except.ok.injEq, Except.ok.injEq]

/-- A result that is known to succeed has a value. -/
theorem exists_of_isOk {x : Except ε α} (h : x.isOk = true) : ∃ a, x = .ok a := by
  cases x with
  | error e => cases h
  | ok a => exact ⟨a, rfl⟩

theorem map_eq_ok {x : Except ε α} {f : α → β} {b : β} (h : x.map f = .ok b) :
    ∃ a, x = .ok a ∧ f a = b := by
  rcases x with e | a
  · cases h
  · exact ⟨a, rfl, Except.ok.inj h⟩

/-- A result that can be looked at. -/
theorem ok_of_toOption {x : Except ε α} {a : α} (h : x.toOption = some a) : x = .ok a := by
  rcases x with e | b
  · cases h
  · exact congrArg _ (Option.some.inj h)

/-- Every entry on the left of a pairing has a partner. -/
theorem forall₂_partner {R : α → β → Prop} {xs : List α} {ys : List β} (h : List.Forall₂ R xs ys)
    {x : α} (hx : x ∈ xs) : ∃ y ∈ ys, R x y := by
  induction h with
  | nil => cases hx
  | cons hone _ ih =>
    rcases List.mem_cons.mp hx with rfl | hx
    · exact ⟨_, List.mem_cons_self, hone⟩
    · obtain ⟨y, hy, hxy⟩ := ih hx
      exact ⟨y, List.mem_cons_of_mem _ hy, hxy⟩

/-- Two pairings, one after the other. -/
theorem forall₂_chain {γ : Type} {R : α → β → Prop} {S : β → γ → Prop} {T : α → γ → Prop}
    (hone : ∀ a b c, R a b → S b c → T a c) {xs : List α} {ys : List β} {zs : List γ}
    (hxy : List.Forall₂ R xs ys) (hyz : List.Forall₂ S ys zs) : List.Forall₂ T xs zs := by
  induction hxy generalizing zs with
  | nil =>
    cases hyz
    exact List.Forall₂.nil
  | cons hx _ ih =>
    cases hyz with
    | cons hy hrest => exact List.Forall₂.cons (hone _ _ _ hx hy) (ih hrest)

/-- When every entry has a partner, there is a pairing. -/
theorem forall₂_of_partners {R : α → β → Prop} {xs : List α} (h : ∀ x ∈ xs, ∃ y, R x y) :
    ∃ ys, List.Forall₂ R xs ys := by
  induction xs with
  | nil => exact ⟨[], List.Forall₂.nil⟩
  | cons x xs ih =>
    obtain ⟨y, hy⟩ := h x List.mem_cons_self
    obtain ⟨ys, hys⟩ := ih fun x hx => h x (List.mem_cons_of_mem _ hx)
    exact ⟨y :: ys, List.Forall₂.cons hy hys⟩

/-- A list of results that all succeed, one by one. -/
theorem mapM_eq_ok_iff {f : α → Except ε β} {xs : List α} {ys : List β} :
    xs.mapM f = .ok ys ↔ List.Forall₂ (fun x y => f x = .ok y) xs ys := by
  induction xs generalizing ys with
  | nil =>
    rw [List.mapM_nil]
    constructor
    · intro h
      cases h
      exact List.Forall₂.nil
    · intro h
      cases h
      rfl
  | cons x xs ih =>
    rw [List.mapM_cons]
    constructor
    · intro h
      obtain ⟨y, hy, h⟩ := bind_eq_ok.mp h
      obtain ⟨ys', hys, h⟩ := bind_eq_ok.mp h
      cases h
      exact List.Forall₂.cons hy (ih.mp hys)
    · intro h
      cases h with
      | cons hx hxs =>
        rw [hx, ih.mpr hxs]
        rfl

/-- A list of checks passes when each of them does. -/
theorem mapM_checks {f : α → Except ε Unit} {xs : List α} :
    (∃ ys, xs.mapM f = .ok ys) ↔ ∀ x ∈ xs, f x = .ok () := by
  induction xs with
  | nil => exact iff_of_true ⟨[], rfl⟩ fun _ h => absurd h List.not_mem_nil
  | cons x xs ih =>
    rw [List.forall_mem_cons, ← ih, List.mapM_cons]
    constructor
    · rintro ⟨ys, h⟩
      obtain ⟨_, hx, h⟩ := bind_eq_ok.mp h
      obtain ⟨ys', hys, -⟩ := bind_eq_ok.mp h
      exact ⟨hx, ys', hys⟩
    · rintro ⟨hx, ys, hys⟩
      refine ⟨() :: ys, ?_⟩
      rw [hx, hys]
      rfl

/-- **Folding a step that may fail.** An invariant of the accumulator that every
step keeps, together with the items it has consumed, holds at the end. -/
theorem foldlM_invariant {step : β → α → Except ε β} (I : List α → β → Prop) {xs : List α}
    {b b' : β} (hstep : ∀ pre x c c', pre ++ [x] <+: xs → I pre c → step c x = .ok c' →
      I (pre ++ [x]) c') (h0 : I [] b) (h : xs.foldlM step b = .ok b') : I xs b' := by
  suffices hgen : ∀ (rest pre : List α) (c : β), pre ++ rest = xs → I pre c →
      rest.foldlM step c = .ok b' → I xs b' from hgen xs [] b rfl h0 h
  intro rest
  induction rest with
  | nil =>
    intro pre c hpre hI hfold
    rw [List.append_nil] at hpre
    rw [List.foldlM_nil] at hfold
    cases hfold
    rw [← hpre]
    exact hI
  | cons x rest ih =>
    intro pre c hpre hI hfold
    rw [List.foldlM_cons] at hfold
    obtain ⟨c', hc', hfold⟩ := bind_eq_ok.mp hfold
    refine ih (pre ++ [x]) c' (by rw [← hpre, List.append_assoc]; rfl) ?_ hfold
    exact hstep pre x c c' ⟨rest, by rw [← hpre, List.append_assoc]; rfl⟩ hI hc'

/-- What holds of a result, in either case. -/
def Outcome (Q : β → Prop) (E : ε → Prop) : Except ε β → Prop
  | .ok b => Q b
  | .error e => E e

theorem Outcome.bind {M : α → Prop} {Q : β → Prop} {E : ε → Prop} {x : Except ε α}
    {f : α → Except ε β} (hx : Outcome M E x) (hf : ∀ a, M a → Outcome Q E (f a)) :
    Outcome Q E (x >>= f) := by
  cases x with
  | error e => exact hx
  | ok a => exact hf a hx

theorem Outcome.imp {Q Q' : β → Prop} {E E' : ε → Prop} {x : Except ε β} (h : Outcome Q E x)
    (hQ : ∀ b, Q b → Q' b) (hE : ∀ e, E e → E' e) : Outcome Q' E' x := by
  cases x with
  | error e => exact hE e h
  | ok b => exact hQ b h

/-- Folding a step whose outcome is known in either case. -/
theorem foldlM_outcome {step : β → α → Except ε β} (I : List α → β → Prop) {E : ε → Prop}
    {xs : List α} {b : β} (hstep : ∀ pre x c, pre ++ [x] <+: xs → I pre c →
      Outcome (I (pre ++ [x])) E (step c x)) (h0 : I [] b) :
    Outcome (I xs) E (xs.foldlM step b) := by
  suffices hgen : ∀ (rest pre : List α) (c : β), pre ++ rest = xs → I pre c →
      Outcome (I xs) E (rest.foldlM step c) from hgen xs [] b rfl h0
  intro rest
  induction rest with
  | nil =>
    intro pre c hpre hI
    rw [List.append_nil] at hpre
    rw [List.foldlM_nil, ← hpre]
    exact hI
  | cons x rest ih =>
    intro pre c hpre hI
    rw [List.foldlM_cons]
    refine (hstep pre x c ⟨rest, by rw [← hpre, List.append_assoc]; rfl⟩ hI).bind fun c' hc' => ?_
    exact ih (pre ++ [x]) c' (by rw [← hpre, List.append_assoc]; rfl) hc'

end Check

end LeanBun.Lib
