/-
Reading a system that others change.

A reader looks at the system or acts on it, one access after the other, and before every
access the others make any number of changes. A timeline keeps every state the system has
passed through, so an instant is a position in it, and a call runs from one position to a
later one.

The last section is the argument for reading twice: what is found in a first pass and again
in a second one was there between the two, as long as nothing returns to what it was.
-/
import LeanBun.Lib.Check

set_option autoImplicit false

namespace LeanBun.Lib

/-- The states a system has passed through, the newest first, and how many accesses the reader
has made. -/
structure Timeline (σ : Type) where
  accesses : ℕ
  past : List σ
  now : σ

variable {σ χ ε α β κ : Type}

namespace Timeline

/-- All states, in their order. -/
def history (t : Timeline σ) : List σ := (t.now :: t.past).reverse

/-- The position of the newest state. -/
def last (t : Timeline σ) : ℕ := t.past.length

/-- One more state. -/
def push (t : Timeline σ) (s : σ) : Timeline σ := ⟨t.accesses, t.now :: t.past, s⟩

/-- The changes of others, one state for each. -/
def pass (apply : χ → σ → σ) (changes : List χ) (t : Timeline σ) : Timeline σ :=
  changes.foldl (fun t change => t.push (apply change t.now)) t

/-- `later` goes on from where `t` is. -/
def Before (t later : Timeline σ) : Prop := t.history <+: later.history

theorem history_push (t : Timeline σ) (s : σ) : (t.push s).history = t.history ++ [s] := by
  simp [history, push]

@[simp] theorem last_push (t : Timeline σ) (s : σ) : (t.push s).last = t.last + 1 := by
  simp [last, push]

@[simp] theorem length_history (t : Timeline σ) : t.history.length = t.last + 1 := by
  simp [history, last]

theorem history_last (t : Timeline σ) : t.history[t.last]? = some t.now := by
  simp [history, last]

namespace Before

theorem refl (t : Timeline σ) : t.Before t := List.prefix_refl _

theorem trans {t later latest : Timeline σ} (h : t.Before later) (h' : later.Before latest) :
    t.Before latest := List.IsPrefix.trans h h'

theorem push (t : Timeline σ) (s : σ) : t.Before (t.push s) := by
  unfold Before
  rw [history_push]
  exact List.prefix_append _ _

theorem last_le {t later : Timeline σ} (h : t.Before later) : t.last ≤ later.last := by
  have hlength := h.length_le
  rw [length_history, length_history] at hlength
  omega

/-- An instant stays where it is. -/
theorem at_instant {t later : Timeline σ} (h : t.Before later) {i : ℕ} {s : σ}
    (hs : t.history[i]? = some s) : later.history[i]? = some s := by
  obtain ⟨rest, hrest⟩ := h
  rw [← hrest, List.getElem?_append_left (List.getElem?_eq_some_iff.mp hs).1]
  exact hs

end Before

theorem before_pass (apply : χ → σ → σ) (changes : List χ) (t : Timeline σ) :
    t.Before (t.pass apply changes) := by
  induction changes generalizing t with
  | nil => exact Before.refl t
  | cons change changes ih => exact (Before.push t _).trans (ih _)

/-- A preorder that every change respects is respected by all of them. -/
theorem pass_now {R : σ → σ → Prop} (hrefl : ∀ s, R s s)
    (htrans : ∀ {s s' s''}, R s s' → R s' s'' → R s s'') {apply : χ → σ → σ}
    (hstep : ∀ change s, R s (apply change s)) (changes : List χ) (t : Timeline σ) :
    R t.now (t.pass apply changes).now := by
  induction changes generalizing t with
  | nil => exact hrefl _
  | cons change changes ih => exact htrans (hstep change t.now) (ih (t.push _))

end Timeline

/-! ## Programs of a reader -/

/-- A program of a reader that may fail. -/
abbrev Reading (σ ε α : Type) := StateT (Timeline σ) (Except ε) α

/-- What the others do before each access of the reader, and what a change does. -/
structure Surroundings (σ χ : Type) where
  apply : χ → σ → σ
  changes : ℕ → List χ

/-- The system when the reader gets to its next access. -/
def Surroundings.upto (world : Surroundings σ χ) (t : Timeline σ) : Timeline σ :=
  { t.pass world.apply (world.changes t.accesses) with accesses := t.accesses + 1 }

/-- The reader looks at the system. -/
def look (world : Surroundings σ χ) (f : σ → Except ε α) : Reading σ ε α := fun t => do
  let a ← f (world.upto t).now
  return (a, world.upto t)

/-- The reader changes the system. -/
def act (world : Surroundings σ χ) (f : σ → Except ε σ) : Reading σ ε Unit := fun t => do
  let s ← f (world.upto t).now
  return ((), (world.upto t).push s)

/-- A check that needs no access. -/
def decideOn (result : Except ε α) : Reading σ ε α := fun t => do
  let a ← result
  return (a, t)

theorem reading_bind_eq_ok {x : Reading σ ε α} {f : α → Reading σ ε β} {t t'' : Timeline σ} {b : β} :
    (x >>= f) t = .ok (b, t'') ↔ ∃ a t', x t = .ok (a, t') ∧ f a t' = .ok (b, t'') := by
  constructor
  · intro h
    obtain ⟨⟨a, t'⟩, hx, hf⟩ := bind_eq_ok.mp (show (x t >>= fun p => f p.1 p.2) = _ from h)
    exact ⟨a, t', hx, hf⟩
  · rintro ⟨a, t', hx, hf⟩
    exact bind_eq_ok.mpr ⟨(a, t'), hx, hf⟩

theorem reading_pure_eq_ok {a b : α} {t t' : Timeline σ} :
    (pure a : Reading σ ε α) t = .ok (b, t') ↔ a = b ∧ t = t' := by
  constructor
  · intro h
    have h := Prod.mk.inj (Except.ok.inj h)
    exact h
  · rintro ⟨rfl, rfl⟩
    rfl

theorem decideOn_eq_ok {result : Except ε α} {a : α} {t t' : Timeline σ} :
    decideOn result t = .ok (a, t') ↔ result = .ok a ∧ t = t' := by
  constructor
  · intro h
    obtain ⟨b, hb, h⟩ := bind_eq_ok.mp h
    obtain ⟨rfl, rfl⟩ := Prod.mk.inj (Except.ok.inj h)
    exact ⟨hb, rfl⟩
  · rintro ⟨rfl, rfl⟩
    rfl

theorem before_upto (world : Surroundings σ χ) (t : Timeline σ) : t.Before (world.upto t) :=
  Timeline.before_pass world.apply (world.changes t.accesses) t

/-- What a look has found is true of the system when the look is done. -/
theorem look_eq_ok {world : Surroundings σ χ} {f : σ → Except ε α} {a : α} {t t' : Timeline σ}
    (h : look world f t = .ok (a, t')) : f t'.now = .ok a ∧ t' = world.upto t := by
  obtain ⟨b, hb, h⟩ := bind_eq_ok.mp h
  obtain ⟨rfl, rfl⟩ := Prod.mk.inj (Except.ok.inj h)
  exact ⟨hb, rfl⟩

theorem act_eq_ok {world : Surroundings σ χ} {f : σ → Except ε σ} {u : Unit} {t t' : Timeline σ}
    (h : act world f t = .ok (u, t')) :
    f (world.upto t).now = .ok t'.now ∧ t' = (world.upto t).push t'.now := by
  obtain ⟨b, hb, h⟩ := bind_eq_ok.mp h
  obtain ⟨-, rfl⟩ := Prod.mk.inj (Except.ok.inj h)
  exact ⟨hb, rfl⟩

/-! ## Going forward -/

/-- A program that goes on from where it starts. -/
def Forward (program : Reading σ ε α) : Prop :=
  ∀ t a t', program t = .ok (a, t') → t.Before t'

theorem forward_pure (a : α) : Forward (pure a : Reading σ ε α) := by
  intro t b t' h
  rw [(reading_pure_eq_ok.mp h).2]
  exact Timeline.Before.refl t'

theorem forward_decideOn (result : Except ε α) : Forward (decideOn result : Reading σ ε α) := by
  intro t a t' h
  rw [(decideOn_eq_ok.mp h).2]
  exact Timeline.Before.refl t'

theorem forward_look (world : Surroundings σ χ) (f : σ → Except ε α) : Forward (look world f) := by
  intro t a t' h
  rw [(look_eq_ok h).2]
  exact before_upto world t

theorem forward_act (world : Surroundings σ χ) (f : σ → Except ε σ) : Forward (act world f) := by
  intro t a t' h
  rw [(act_eq_ok h).2]
  exact (before_upto world t).trans (Timeline.Before.push _ _)

theorem Forward.bind {x : Reading σ ε α} {f : α → Reading σ ε β} (hx : Forward x)
    (hf : ∀ a, Forward (f a)) : Forward (x >>= f) := by
  intro t b t'' h
  obtain ⟨a, t', hxt, hft⟩ := reading_bind_eq_ok.mp h
  exact (hx t a t' hxt).trans (hf a t' b t'' hft)

/-! ## What was so at an instant of a call -/

/-- `P` holds of the system at some instant of the call from `t` to `t'`. -/
def Sometime (t t' : Timeline σ) (P : σ → Prop) : Prop :=
  ∃ i s, t.last ≤ i ∧ i ≤ t'.last ∧ t'.history[i]? = some s ∧ P s

theorem Sometime.now {t t' : Timeline σ} (h : t.Before t') {P : σ → Prop} (hP : P t'.now) :
    Sometime t t' P := ⟨t'.last, t'.now, h.last_le, le_refl _, t'.history_last, hP⟩

theorem Sometime.mono {t t' : Timeline σ} {P Q : σ → Prop} (h : Sometime t t' P)
    (hPQ : ∀ s, P s → Q s) : Sometime t t' Q := by
  obtain ⟨i, s, hi, hi', hs, hP⟩ := h
  exact ⟨i, s, hi, hi', hs, hPQ s hP⟩

/-- A call that is part of a longer one. -/
theorem Sometime.within {t u u' t' : Timeline σ} {P : σ → Prop} (h : Sometime u u' P)
    (htu : t.Before u) (hut : u'.Before t') : Sometime t t' P := by
  obtain ⟨i, s, hi, hi', hs, hP⟩ := h
  exact ⟨i, s, htu.last_le.trans hi, hi'.trans hut.last_le, hut.at_instant hs, hP⟩

/-! ## Reading twice -/

/-- What `view` shows never comes back once it has changed. -/
def NeverReturns (view : σ → κ) (t : Timeline σ) : Prop :=
  ∀ (i j k : ℕ) (s s' s'' : σ), i ≤ j → j ≤ k → t.history[i]? = some s → t.history[j]? = some s' →
    t.history[k]? = some s'' → view s = view s'' → view s' = view s

/-- **Reading twice.** What was seen at an instant up to `u` and again at one from `u` on was
there at `u`. -/
theorem seen_between {view : σ → κ} {t u t' : Timeline σ} (hut : u.Before t')
    (hreturns : NeverReturns view t') {value : κ} (hbefore : Sometime t u fun s => view s = value)
    (hafter : Sometime u t' fun s => view s = value) : view u.now = value := by
  obtain ⟨i, s, -, hi, hs, hview⟩ := hbefore
  obtain ⟨k, s'', hk, -, hs'', hview''⟩ := hafter
  have hmiddle : t'.history[u.last]? = some u.now := hut.at_instant u.history_last
  rw [hreturns i u.last k s u.now s'' hi hk (hut.at_instant hs) hmiddle hs''
    (hview.trans hview''.symm)]
  exact hview

end LeanBun.Lib
