/-
Trails of a depth-first traversal.

A trail is a path of a traversal, innermost node first: it starts at a root and goes on to
successors. Roots and successors are tried in the order of the nodes, so the traversal
comes to the trails in an order of their own, and enters a node on the trail to it that no
other one passes on the left. This file has the trails and that order for any roots and
successors, and what it means for them that no node can be reached from itself.
-/
import LeanBun.Lib.Deciding

set_option autoImplicit false

namespace LeanBun.Lib

variable {α : Type}

section Trails

variable (roots : List α) (succ : α → List α)

/-- Where a trail can go on. -/
def next_nodes : List α → List α
  | [] => roots
  | a :: _ => succ a

/-- A trail, innermost node first. -/
def Trail : List α → Prop
  | [] => True
  | a :: t => a ∈ next_nodes roots succ t ∧ Trail t

/-- One step. -/
def Arc (a b : α) : Prop := b ∈ succ a

/-- No node can be reached from itself. -/
def Acyclic : Prop := ∀ a, ¬Relation.TransGen (Arc succ) a a

/-- Roots and successors are roots. -/
def ClosedRoots : Prop := ∀ a ∈ roots, ∀ b ∈ succ a, b ∈ roots

/-- A graph with its nodes as roots, without a cycle and without a trail of more than
`bound` nodes. -/
structure BoundedGraph (bound : ℕ) : Prop where
  closed : ClosedRoots roots succ
  acyclic : Acyclic succ
  bounded : ∀ t, Trail roots succ t → t.length ≤ bound

end Trails

section Facts

variable {roots : List α} {succ : α → List α}

theorem Trail.tail {a : α} {t : List α} (h : Trail roots succ (a :: t)) : Trail roots succ t := h.2

/-- A trail without its innermost nodes. -/
theorem Trail.suffix {s t : List α} (h : Trail roots succ t) (hs : s <:+ t) : Trail roots succ s := by
  obtain ⟨front, rfl⟩ := hs
  induction front with
  | nil => exact h
  | cons a front ih => exact ih h.tail

/-- The trail below another is replaced by one that ends in the same node. -/
theorem Trail.replace {front s s' : List α} (h : Trail roots succ (front ++ s))
    (hs' : Trail roots succ s') (hend : s'.head? = s.head?) : Trail roots succ (front ++ s') := by
  induction front with
  | nil => exact hs'
  | cons a front ih =>
    refine ⟨?_, ih h.tail⟩
    have hnext : next_nodes roots succ (front ++ s') = next_nodes roots succ (front ++ s) := by
      cases front with
      | cons b front => rfl
      | nil =>
        show next_nodes roots succ s' = next_nodes roots succ s
        cases s with
        | nil => rw [List.head?_eq_none_iff.mp hend]
        | cons b s =>
          cases s' with
          | nil => cases hend
          | cons b' s' =>
            rw [List.head?_cons, List.head?_cons, Option.some.injEq] at hend
            rw [hend]
            rfl
    show a ∈ next_nodes roots succ (front ++ s')
    rw [hnext]
    exact h.1

/-- The innermost node is reached from every other one. -/
theorem Trail.reaches {a b : α} {t : List α} (h : Trail roots succ (a :: t)) (hb : b ∈ t) :
    Relation.TransGen (Arc succ) b a := by
  induction t generalizing a with
  | nil => cases hb
  | cons c t ih =>
    have hstep : Arc succ c a := h.1
    rcases List.mem_cons.mp hb with rfl | hb
    · exact .single hstep
    · exact (ih h.tail hb).tail hstep

/-- Without a cycle no trail comes to a node twice. -/
theorem Trail.nodup (hacyclic : Acyclic succ) {t : List α} (h : Trail roots succ t) : t.Nodup := by
  induction t with
  | nil => exact List.nodup_nil
  | cons a t ih => exact List.nodup_cons.mpr ⟨fun ha => hacyclic a (h.reaches ha), ih h.tail⟩

/-- All nodes of a trail are roots. -/
theorem Trail.mem_roots (hclosed : ClosedRoots roots succ) {t : List α} (h : Trail roots succ t) :
    ∀ a ∈ t, a ∈ roots := by
  induction t with
  | nil => exact fun a ha => absurd ha List.not_mem_nil
  | cons a t ih =>
    intro b hb
    rcases List.mem_cons.mp hb with rfl | hb
    · cases t with
      | nil => exact h.1
      | cons c t => exact hclosed c (ih h.tail c List.mem_cons_self) _ h.1
    · exact ih h.tail b hb

/-- From a node that can be reached from itself a trail can go on for ever. -/
theorem trail_of_cycle {a : α} (ha : a ∈ roots) (hcycle : Relation.TransGen (Arc succ) a a) (n : ℕ) :
    ∃ t, Trail roots succ (a :: t) ∧ n ≤ t.length := by
  have hround : ∀ {b : α}, Relation.TransGen (Arc succ) a b → ∀ {t : List α},
      Trail roots succ (a :: t) → ∃ t', Trail roots succ (b :: t') ∧ t.length < t'.length := by
    intro b hpath
    induction hpath with
    | single hstep => exact fun {t} ht => ⟨a :: t, ⟨hstep, ht⟩, Nat.lt_succ_self _⟩
    | tail _ hstep ih =>
      intro t ht
      obtain ⟨t', ht', hlt⟩ := ih ht
      exact ⟨_ :: t', ⟨hstep, ht'⟩, Nat.lt_succ_of_lt hlt⟩
  induction n with
  | zero => exact ⟨[], ⟨ha, trivial⟩, Nat.zero_le _⟩
  | succ n ih =>
    obtain ⟨t, ht, hn⟩ := ih
    obtain ⟨t', ht', hlt⟩ := hround hcycle ht
    exact ⟨t', ht', by omega⟩

/-- Where every way ends there is no cycle. -/
theorem not_cycle_of_acc {a : α} (h : Acc (fun b a => Arc succ a b) a) :
    ¬Relation.TransGen (Arc succ) a a := by
  intro hcycle
  have hback : Relation.TransGen (fun b a => Arc succ a b) a a := Relation.transGen_swap.mpr hcycle
  have hacc := h.transGen
  clear h hcycle
  induction hacc with
  | intro a _ ih => exact ih a hback hback

/-- **Ranks.** Where every step goes down from a rank that is at most `bound` to one that
is not zero, no trail has more than `bound` nodes. -/
theorem Trail.length_le {rank : α → ℕ} {bound : ℕ} (hroots : ∀ a ∈ roots, rank a ≤ bound)
    (hdown : ∀ a ∈ roots, ∀ b ∈ succ a, b ∈ roots ∧ rank b < rank a) {a : α} {t : List α}
    (h : Trail roots succ (a :: t)) : a ∈ roots ∧ t.length + rank a ≤ bound := by
  induction t generalizing a with
  | nil =>
    have ha : a ∈ roots := h.1
    exact ⟨ha, by rw [List.length_nil, Nat.zero_add]; exact hroots a ha⟩
  | cons b t ih =>
    obtain ⟨hb, hlen⟩ := ih h.tail
    obtain ⟨ha, hlt⟩ := hdown b hb a h.1
    refine ⟨ha, ?_⟩
    rw [List.length_cons]
    omega

/-- Ranks leave no cycle among the roots. -/
theorem not_cycle_of_rank {rank : α → ℕ}
    (hdown : ∀ a ∈ roots, ∀ b ∈ succ a, b ∈ roots ∧ rank b < rank a) {a b : α} (ha : a ∈ roots)
    (h : Relation.TransGen (Arc succ) a b) : b ∈ roots ∧ rank b < rank a := by
  induction h with
  | single hstep => exact hdown a ha _ hstep
  | tail _ hstep ih =>
    obtain ⟨hc, hlt⟩ := hdown _ ih.1 _ hstep
    exact ⟨hc, Nat.lt_trans hlt ih.2⟩

end Facts

/-! ## Left and right -/

section Left

variable [LinearOrder α] {roots : List α} {succ : α → List α}

/-- Where the two trails part, the first one goes to the smaller node. -/
def LeftOf (s t : List α) : Prop :=
  ∃ below a b front front', s = front ++ a :: below ∧ t = front' ++ b :: below ∧ a < b

/-- The trail is not passed on the left by another one to the same node. -/
structure Leftmost (roots : List α) (succ : α → List α) (t : List α) : Prop where
  trail : Trail roots succ t
  first : ∀ s, Trail roots succ s → s.head? = t.head? → ¬LeftOf s t

/-- Nodes to which a trail leads on the left. -/
def Passed (roots : List α) (succ : α → List α) (t : List α) (a : α) : Prop :=
  ∃ s, Trail roots succ s ∧ s.head? = some a ∧ LeftOf s t

/-- Nodes to which a trail leads that goes on from another one. -/
def Within (roots : List α) (succ : α → List α) (t : List α) (a : α) : Prop :=
  ∃ s, Trail roots succ s ∧ s.head? = some a ∧ t <:+ s

theorem leftmost_nil : Leftmost roots succ [] := by
  refine ⟨trivial, fun s _ _ hleft => ?_⟩
  obtain ⟨below, a, b, front, front', -, hnil, -⟩ := hleft
  cases front' <;> cases hnil

theorem leftmost_cons_iff {a : α} {t : List α} (h : Trail roots succ (a :: t)) :
    Leftmost roots succ (a :: t) ↔ ¬Passed roots succ (a :: t) a := by
  constructor
  · rintro hleftmost ⟨s, hs, hhead, hleft⟩
    exact hleftmost.first s hs hhead hleft
  · exact fun hnot => ⟨h, fun s hs hhead hleft => hnot ⟨s, hs, hhead, hleft⟩⟩

/-- What is left of a trail is left of what goes on from it. -/
theorem LeftOf.extend {s t : List α} (h : LeftOf s t) (front : List α) : LeftOf s (front ++ t) := by
  obtain ⟨below, a, b, front₁, front₂, hs, ht, hlt⟩ := h
  exact ⟨below, a, b, front₁, front ++ front₂, hs, by rw [ht, List.append_assoc], hlt⟩

theorem LeftOf.extend_left {s t : List α} (h : LeftOf s t) (front : List α) : LeftOf (front ++ s) t := by
  obtain ⟨below, a, b, front₁, front₂, hs, ht, hlt⟩ := h
  exact ⟨below, a, b, front ++ front₁, front₂, by rw [hs, List.append_assoc], ht, hlt⟩

/-- A leftmost trail without its innermost nodes is leftmost. -/
theorem Leftmost.suffix {s t : List α} (h : Leftmost roots succ t) (hs : s <:+ t) :
    Leftmost roots succ s := by
  obtain ⟨front, rfl⟩ := hs
  refine ⟨h.trail.suffix (List.suffix_append front s), fun s' hs' hend hleft => ?_⟩
  refine h.first (front ++ s') (h.trail.replace hs' hend) ?_ ((hleft.extend front).extend_left front)
  cases front with
  | nil => exact hend
  | cons a front => rfl

/-- **Where a trail goes on.** On the left of `a :: t` is what is left of `t`, and what goes
on from `t` to a smaller node. -/
theorem passed_cons_iff {a c : α} {t : List α} :
    Passed roots succ (a :: t) c ↔
      Passed roots succ t c ∨ ∃ b ∈ next_nodes roots succ t, b < a ∧ Within roots succ (b :: t) c := by
  constructor
  · rintro ⟨s, hs, hhead, below, b, b', front, front', hsplit, hsplit', hlt⟩
    cases front' with
    | nil =>
      -- the trails part at the innermost node
      rw [List.nil_append, List.cons.injEq] at hsplit'
      obtain ⟨rfl, rfl⟩ := hsplit'
      have hsuffix : b :: t <:+ s := ⟨front, hsplit.symm⟩
      exact Or.inr ⟨b, (hs.suffix hsuffix).1, hlt, s, hs, hhead, hsuffix⟩
    | cons x front' =>
      rw [List.cons_append, List.cons.injEq] at hsplit'
      exact Or.inl ⟨s, hs, hhead, below, b, b', front, front', hsplit, hsplit'.2, hlt⟩
  · rintro (⟨s, hs, hhead, hleft⟩ | ⟨b, -, hlt, s, hs, hhead, front, rfl⟩)
    · exact ⟨s, hs, hhead, hleft.extend [a]⟩
    · exact ⟨_, hs, hhead, t, b, a, front, [], rfl, rfl, hlt⟩

/-- What goes on from a node that is passed is passed. -/
theorem Passed.within {a c : α} {t : List α} (h : Passed roots succ (a :: t) a)
    (hc : Within roots succ (a :: t) c) : Passed roots succ (a :: t) c := by
  obtain ⟨s, hs, hhead, hleft⟩ := h
  obtain ⟨_, hlonger, hend, front, rfl⟩ := hc
  refine ⟨front ++ s, hlonger.replace hs hhead, ?_, hleft.extend_left front⟩
  cases front with
  | nil => exact hhead.trans hend
  | cons b front => exact hend

theorem passed_nil {c : α} : ¬Passed roots succ [] c := by
  rintro ⟨s, -, -, below, a, b, front, front', -, hnil, -⟩
  cases front' <;> cases hnil

omit [LinearOrder α] in
/-- What a trail leads to: its own innermost node, or what its next nodes lead to. -/
theorem within_cons_iff {a c : α} {t : List α} (h : Trail roots succ (a :: t)) :
    Within roots succ (a :: t) c ↔
      c = a ∨ ∃ b ∈ succ a, Within roots succ (b :: a :: t) c := by
  constructor
  · rintro ⟨s, hs, hhead, front, rfl⟩
    rcases List.eq_nil_or_concat front with rfl | ⟨front, b, rfl⟩
    · exact Or.inl (Option.some.inj hhead).symm
    · rw [List.concat_append] at hs hhead
      have hsuffix : b :: a :: t <:+ front ++ b :: a :: t := List.suffix_append _ _
      exact Or.inr ⟨b, (hs.suffix hsuffix).1, _, hs, hhead, hsuffix⟩
  · rintro (rfl | ⟨b, -, s, hs, hhead, hsuffix⟩)
    · exact ⟨_, h, rfl, List.suffix_refl _⟩
    · exact ⟨s, hs, hhead, (List.suffix_cons b _).trans hsuffix⟩

end Left

end LeanBun.Lib
