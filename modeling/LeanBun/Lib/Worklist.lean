/-
Reachability by a worklist.

A queue of items and a list of the items already seen: an item that is seen is
dropped, another is marked and its successors join the queue. The search runs on
fuel; `pending` bounds the fuel it needs, and with that much it returns exactly
the items that the queue reaches.
-/
import LeanBun.Lib.Deciding

set_option autoImplicit false

namespace LeanBun.Lib

section Worklist

variable {α : Type*} [DecidableEq α] (succ : α → List α)

/-- The worklist search: fuel, queue, seen items. -/
def worklist : ℕ → List α → List α → List α
  | 0, _, seen => seen
  | _ + 1, [], seen => seen
  | fuel + 1, x :: queue, seen =>
    if x ∈ seen then worklist fuel queue seen
    else worklist fuel (queue ++ succ x) (seen ++ [x])

/-- One step along `succ`. -/
def Succ (x y : α) : Prop := y ∈ succ x

/-- What marking the unseen nodes can still add to the queue. -/
def unseen_cost (nodes seen : List α) : ℕ :=
  (nodes.map fun x => if x ∈ seen then 0 else (succ x).length).sum

/-- What the queue can still cost: one step for each queued item, and one for
each successor of a node that is not seen. -/
def pending (nodes queue seen : List α) : ℕ := queue.length + unseen_cost succ nodes seen

/-- Seeing more costs less. -/
theorem unseen_cost_mono (nodes seen : List α) (x : α) :
    unseen_cost succ nodes (seen ++ [x]) ≤ unseen_cost succ nodes seen := by
  induction nodes with
  | nil => exact Nat.le_refl _
  | cons y nodes ih =>
    unfold unseen_cost at ih ⊢
    simp only [List.map_cons, List.sum_cons]
    by_cases hy : y ∈ seen
    · rw [if_pos (List.mem_append_left _ hy), if_pos hy]
      omega
    · rw [if_neg hy]
      split <;> omega

/-- Marking a node takes its successors off the cost. -/
theorem unseen_cost_mark {nodes seen : List α} {x : α} (hx : x ∈ nodes) (hnew : x ∉ seen) :
    unseen_cost succ nodes (seen ++ [x]) + (succ x).length ≤ unseen_cost succ nodes seen := by
  induction nodes with
  | nil => exact absurd hx List.not_mem_nil
  | cons y nodes ih =>
    by_cases hyx : y = x
    · have hrest := unseen_cost_mono succ nodes seen x
      unfold unseen_cost at hrest ⊢
      simp only [List.map_cons, List.sum_cons]
      rw [hyx, if_pos (List.mem_append_right _ (List.mem_singleton_self x)), if_neg hnew]
      omega
    · have hxn : x ∈ nodes := by
        rcases List.mem_cons.mp hx with h | h
        · exact absurd h.symm hyx
        · exact h
      have hrest := ih hxn
      unfold unseen_cost at hrest ⊢
      simp only [List.map_cons, List.sum_cons]
      by_cases hy : y ∈ seen
      · rw [if_pos (List.mem_append_left _ hy), if_pos hy]
        omega
      · have hy' : y ∉ seen ++ [x] := by simp [hy, hyx]
        rw [if_neg hy', if_neg hy]
        omega

/-- Seen items stay. -/
theorem subset_worklist (fuel : ℕ) (queue seen : List α) :
    ∀ x ∈ seen, x ∈ worklist succ fuel queue seen := by
  fun_induction worklist succ fuel queue seen with
  | case1 queue seen => exact fun x hx => hx
  | case2 fuel seen => exact fun x hx => hx
  | case3 fuel x queue seen hx ih => exact ih
  | case4 fuel x queue seen hx ih => exact fun y hy => ih y (List.mem_append_left _ hy)

/-- **Soundness.** What the search returns was seen, or is reached from the
queue. -/
theorem worklist_sound (fuel : ℕ) (queue seen : List α) :
    ∀ y ∈ worklist succ fuel queue seen,
      y ∈ seen ∨ ∃ x ∈ queue, Relation.ReflTransGen (Succ succ) x y := by
  fun_induction worklist succ fuel queue seen with
  | case1 queue seen => exact fun y hy => Or.inl hy
  | case2 fuel seen => exact fun y hy => Or.inl hy
  | case3 fuel x queue seen hx ih =>
    intro y hy
    rcases ih y hy with h | ⟨z, hz, hreach⟩
    · exact Or.inl h
    · exact Or.inr ⟨z, List.mem_cons_of_mem _ hz, hreach⟩
  | case4 fuel x queue seen hx ih =>
    intro y hy
    rcases ih y hy with h | ⟨z, hz, hreach⟩
    · rcases List.mem_append.mp h with h | h
      · exact Or.inl h
      · rw [List.mem_singleton] at h
        exact Or.inr ⟨x, List.mem_cons_self, by rw [h]⟩
    · rcases List.mem_append.mp hz with hz | hz
      · exact Or.inr ⟨z, List.mem_cons_of_mem _ hz, hreach⟩
      · exact Or.inr ⟨x, List.mem_cons_self, Relation.ReflTransGen.head hz hreach⟩

/-- **Completeness.** With the fuel that is pending, everything queued is
returned, and the result is closed under successors. -/
theorem worklist_closed (nodes : List α) (hclosed : ∀ x ∈ nodes, ∀ y ∈ succ x, y ∈ nodes)
    (fuel : ℕ) (queue seen : List α) (hfuel : pending succ nodes queue seen ≤ fuel)
    (hqueue : ∀ x ∈ queue, x ∈ nodes)
    (hseen : ∀ x ∈ seen, ∀ y ∈ succ x, y ∈ seen ∨ y ∈ queue) :
    (∀ x ∈ queue, x ∈ worklist succ fuel queue seen) ∧
      ∀ x ∈ worklist succ fuel queue seen, ∀ y ∈ succ x, y ∈ worklist succ fuel queue seen := by
  fun_induction worklist succ fuel queue seen with
  | case1 queue seen =>
    have hnil : queue = [] := by
      rw [pending] at hfuel
      exact List.length_eq_zero_iff.mp (by omega)
    subst hnil
    refine ⟨fun x hx => absurd hx List.not_mem_nil, fun x hx y hy => ?_⟩
    rcases hseen x hx y hy with h | h
    · exact h
    · exact absurd h List.not_mem_nil
  | case2 fuel seen =>
    refine ⟨fun x hx => absurd hx List.not_mem_nil, fun x hx y hy => ?_⟩
    rcases hseen x hx y hy with h | h
    · exact h
    · exact absurd h List.not_mem_nil
  | case3 fuel x queue seen hx ih =>
    have hless : pending succ nodes queue seen ≤ fuel := by
      simp only [pending, List.length_cons] at hfuel ⊢
      omega
    obtain ⟨hq, hc⟩ := ih hless (fun y hy => hqueue y (List.mem_cons_of_mem _ hy)) (by
      intro y hy z hz
      rcases hseen y hy z hz with h | h
      · exact Or.inl h
      · rcases List.mem_cons.mp h with h | h
        · exact Or.inl (by rw [h]; exact hx)
        · exact Or.inr h)
    refine ⟨fun y hy => ?_, hc⟩
    rcases List.mem_cons.mp hy with h | h
    · rw [h]
      exact subset_worklist succ fuel queue seen x hx
    · exact hq y h
  | case4 fuel x queue seen hx ih =>
    have hxu : x ∈ nodes := hqueue x List.mem_cons_self
    have hless : pending succ nodes (queue ++ succ x) (seen ++ [x]) ≤ fuel := by
      have h := unseen_cost_mark succ hxu hx
      simp only [pending, List.length_cons, List.length_append] at hfuel ⊢
      omega
    obtain ⟨hq, hc⟩ := ih hless (by
      intro y hy
      rcases List.mem_append.mp hy with h | h
      · exact hqueue y (List.mem_cons_of_mem _ h)
      · exact hclosed x hxu y h) (by
      intro y hy z hz
      rcases List.mem_append.mp hy with h | h
      · rcases hseen y h z hz with h' | h'
        · exact Or.inl (List.mem_append_left _ h')
        · rcases List.mem_cons.mp h' with h'' | h''
          · exact Or.inl (List.mem_append_right _ (by rw [h'']; exact List.mem_singleton_self _))
          · exact Or.inr (List.mem_append_left _ h'')
      · rw [List.mem_singleton] at h
        subst h
        exact Or.inr (List.mem_append_right _ hz))
    refine ⟨fun y hy => ?_, hc⟩
    rcases List.mem_cons.mp hy with h | h
    · rw [h]
      exact subset_worklist succ fuel _ _ x (List.mem_append_right _ (List.mem_singleton_self x))
    · exact hq y (List.mem_append_left _ h)

/-- **The search is reachability.** With the fuel that is pending at the start,
the result is exactly what the queue reaches. -/
theorem mem_worklist_iff (nodes : List α)
    (hclosed : ∀ x ∈ nodes, ∀ y ∈ succ x, y ∈ nodes) (fuel : ℕ) (queue : List α)
    (hfuel : pending succ nodes queue [] ≤ fuel) (hqueue : ∀ x ∈ queue, x ∈ nodes) (y : α) :
    y ∈ worklist succ fuel queue [] ↔ ∃ x ∈ queue, Relation.ReflTransGen (Succ succ) x y := by
  obtain ⟨hq, hc⟩ := worklist_closed succ nodes hclosed fuel queue [] hfuel hqueue
    (fun x hx => absurd hx List.not_mem_nil)
  constructor
  · intro hy
    rcases worklist_sound succ fuel queue [] y hy with h | h
    · exact absurd h List.not_mem_nil
    · exact h
  · rintro ⟨x, hx, hreach⟩
    induction hreach with
    | refl => exact hq x hx
    | tail _ hstep ih => exact hc _ ih _ hstep

/-- The search marks nothing twice. -/
theorem worklist_nodup (fuel : ℕ) (queue seen : List α) (h : seen.Nodup) :
    (worklist succ fuel queue seen).Nodup := by
  fun_induction worklist succ fuel queue seen with
  | case1 queue seen => exact h
  | case2 fuel seen => exact h
  | case3 fuel x queue seen hx ih => exact ih h
  | case4 fuel x queue seen hx ih =>
    refine ih (List.nodup_append.mpr ⟨h, List.nodup_singleton x, ?_⟩)
    intro a ha b hb hab
    rw [List.mem_singleton] at hb
    exact hx (by rw [← hb, ← hab]; exact ha)

end Worklist

end LeanBun.Lib
