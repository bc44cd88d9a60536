/-
Instances that are found first.

A quantifier over the members of a list is decided along the list, also where the type has
finitely many values, as characters do; and a member is looked for by the equality of the type.
-/
import Mathlib

set_option autoImplicit false

namespace LeanBun.Lib

section Deciding

variable {α : Type*} {p : α → Prop}

instance (priority := high) decidable_forall_mem [DecidablePred p] (l : List α) :
    Decidable (∀ a, a ∈ l → p a) :=
  List.decidableBAll p l

instance (priority := high) decidable_exists_mem [DecidablePred p] (l : List α) :
    Decidable (∃ a, a ∈ l ∧ p a) :=
  List.decidableBEx p l

instance (priority := high) decidable_mem [DecidableEq α] (a : α) (l : List α) :
    Decidable (a ∈ l) := List.instDecidableMemOfLawfulBEq a l

end Deciding

end LeanBun.Lib
