/-
Unique decoding of concatenated encodings.

A preimage is a concatenation of encodings of fields. It determines the fields
when each encoding is *delimited*: an encoded value followed by anything can be
cut off in only one way. Fixed-width injective encodings are delimited, so are
length-prefixed ones, and a list of delimited items is delimited once its length
is known. What is not delimited is a list whose length is not written down: its
end can be read as the start of whatever follows.
-/
import Mathlib

set_option autoImplicit false

namespace LeanBun.Lib

section Delimited

variable {α β : Type*} {P : α → Prop} {enc : α → List β}

/-- On the values satisfying `P`, the encoding can be cut off the front of a
stream in only one way. -/
def Delimited (P : α → Prop) (enc : α → List β) : Prop :=
  ∀ a b r s, P a → P b → enc a ++ r = enc b ++ s → a = b ∧ r = s

/-- **Fixed width.** An injective encoding of constant length is delimited. -/
theorem Delimited.of_length {n : ℕ} (hlen : ∀ a, P a → (enc a).length = n)
    (hinj : ∀ a b, P a → P b → enc a = enc b → a = b) : Delimited P enc := by
  intro a b r s ha hb h
  have hl : (enc a).length = (enc b).length := by rw [hlen a ha, hlen b hb]
  obtain ⟨henc, hrest⟩ := List.append_inj h hl
  exact ⟨hinj a b ha hb henc, hrest⟩

/-- Delimited encodings are injective on their domain. -/
theorem Delimited.injective (h : Delimited P enc) {a b : α} (ha : P a) (hb : P b)
    (hab : enc a = enc b) : a = b :=
  (h a b [] [] ha hb (by rw [hab])).1

/-- **Header and body.** A delimited header that fixes the length of the body
delimits both. -/
theorem Delimited.prefixed {γ : Type*} {Q : γ → Prop} {header : γ → List β} (size : α → γ)
    (body : α → List β) (hheader : Delimited Q header) (hsize : ∀ a, P a → Q (size a))
    (hlen : ∀ a b, size a = size b → (body a).length = (body b).length)
    (hinj : ∀ a b, P a → P b → body a = body b → a = b) :
    Delimited P fun a => header (size a) ++ body a := by
  intro a b r s ha hb h
  rw [List.append_assoc, List.append_assoc] at h
  obtain ⟨hsz, h⟩ := hheader _ _ _ _ (hsize a ha) (hsize b hb) h
  obtain ⟨hbody, hrest⟩ := List.append_inj h (hlen a b hsz)
  exact ⟨hinj a b ha hb hbody, hrest⟩

/-- **Counted lists.** Two lists of delimited items with the same length, each
followed by anything, are cut at the same place. -/
theorem Delimited.flatMap (h : Delimited P enc) {l l' : List α} {r s : List β}
    (hlen : l.length = l'.length) (hl : ∀ a ∈ l, P a) (hl' : ∀ a ∈ l', P a)
    (heq : l.flatMap enc ++ r = l'.flatMap enc ++ s) : l = l' ∧ r = s := by
  induction l generalizing l' with
  | nil =>
    cases l' with
    | nil => exact ⟨rfl, by simpa using heq⟩
    | cons b l' => simp at hlen
  | cons a l ih =>
    cases l' with
    | nil => simp at hlen
    | cons b l' =>
      rw [List.flatMap_cons, List.flatMap_cons, List.append_assoc, List.append_assoc] at heq
      obtain ⟨hab, heq⟩ :=
        h a b _ _ (hl a List.mem_cons_self) (hl' b List.mem_cons_self) heq
      obtain ⟨htail, hrest⟩ := ih (by simpa using hlen)
        (fun c hc => hl c (List.mem_cons_of_mem _ hc))
        (fun c hc => hl' c (List.mem_cons_of_mem _ hc)) heq
      exact ⟨by rw [hab, htail], hrest⟩

/-- **Lists at the end of a stream.** Nothing needs to count items that take up room. -/
theorem Delimited.flatMap_end (h : Delimited P enc) (hne : ∀ a, P a → enc a ≠ []) {l l' : List α}
    (hl : ∀ a ∈ l, P a) (hl' : ∀ a ∈ l', P a) (heq : l.flatMap enc = l'.flatMap enc) : l = l' := by
  -- a list with an item in front is not encoded by nothing
  have hempty (a : α) (l : List α) (ha : P a) : (a :: l).flatMap enc ≠ [] := by
    rw [List.flatMap_cons]
    exact List.append_ne_nil_of_left_ne_nil (hne a ha) _
  induction l generalizing l' with
  | nil =>
    cases l' with
    | nil => rfl
    | cons b l' => exact absurd heq.symm (hempty b l' (hl' b List.mem_cons_self))
  | cons a l ih =>
    cases l' with
    | nil => exact absurd heq (hempty a l (hl a List.mem_cons_self))
    | cons b l' =>
      rw [List.flatMap_cons, List.flatMap_cons] at heq
      obtain ⟨hab, heq⟩ := h a b _ _ (hl a List.mem_cons_self) (hl' b List.mem_cons_self) heq
      have htail := ih (fun c hc => hl c (List.mem_cons_of_mem _ hc))
        (fun c hc => hl' c (List.mem_cons_of_mem _ hc)) heq
      rw [hab, htail]

/-- **Optional values.** A tag byte before a delimited value, another tag alone. -/
theorem Delimited.option (h : Delimited P enc) (yes no : β) (hne : yes ≠ no) :
    Delimited (fun o : Option α => ∀ a ∈ o, P a)
      (fun o => match o with | some a => yes :: enc a | none => [no]) := by
  intro a b r s ha hb heq
  cases a with
  | none =>
    cases b with
    | none => exact ⟨rfl, by simpa using heq⟩
    | some b =>
      simp only [List.cons_append, List.cons.injEq] at heq
      exact absurd heq.1.symm hne
  | some a =>
    cases b with
    | none =>
      simp only [List.cons_append, List.cons.injEq] at heq
      exact absurd heq.1 hne
    | some b =>
      simp only [List.cons_append, List.cons.injEq, true_and] at heq
      obtain ⟨hab, hrest⟩ := h a b r s (ha a rfl) (hb b rfl) heq
      exact ⟨by rw [hab], hrest⟩

end Delimited

end LeanBun.Lib
