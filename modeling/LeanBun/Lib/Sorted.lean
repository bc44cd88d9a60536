/-
Sorting by a key and looking for equal neighbours.

`sort_by_key` followed by a scan of `windows(2)` is how a vector becomes a list
of distinct entries in a canonical order. This file has the two operations for
an arbitrary key in a linear order, and the three facts their callers need: a
list that passes is strictly sorted, a strictly sorted list passes, and sorting
it again changes nothing.
-/
import LeanBun.Lib.Deciding

set_option autoImplicit false

namespace LeanBun.Lib

section SortByKey

variable {α κ : Type*} [LinearOrder κ] (key : α → κ)

/-- `sort_by` on a key: stable and ascending. -/
def sort_by_key (l : List α) : List α := l.insertionSort fun a b => key a ≤ key b

/-- `windows(2).any(|pair| key(pair[0]) == key(pair[1]))`. -/
def adjacent_equal : List α → Bool
  | a :: b :: l => decide (key a = key b) || adjacent_equal (b :: l)
  | _ => false

/-- Strictly ascending keys: the form every accepted list has. -/
def StrictlySorted (l : List α) : Prop := l.Pairwise fun a b => key a < key b

instance (l : List α) : Decidable (StrictlySorted key l) :=
  inferInstanceAs (Decidable (l.Pairwise fun a b => key a < key b))

theorem sort_by_key_perm (l : List α) : (sort_by_key key l).Perm l :=
  List.perm_insertionSort _ l

@[simp] theorem sort_by_key_length (l : List α) : (sort_by_key key l).length = l.length :=
  (sort_by_key_perm key l).length_eq

@[simp] theorem mem_sort_by_key {l : List α} {a : α} : a ∈ sort_by_key key l ↔ a ∈ l :=
  (sort_by_key_perm key l).mem_iff

theorem sort_by_key_sorted (l : List α) :
    (sort_by_key key l).Pairwise fun a b => key a ≤ key b := by
  have : Std.Total fun a b : α => key a ≤ key b := ⟨fun a b => le_total (key a) (key b)⟩
  have : IsTrans α fun a b : α => key a ≤ key b := ⟨fun _ _ _ => le_trans⟩
  exact List.pairwise_insertionSort _ l

/-- A list that is already in order is left as it is. -/
theorem sort_by_key_eq_self {l : List α} (h : l.Pairwise fun a b => key a ≤ key b) :
    sort_by_key key l = l := by
  unfold sort_by_key
  exact h.insertionSort_eq

theorem StrictlySorted.sort_eq {l : List α} (h : StrictlySorted key l) : sort_by_key key l = l :=
  sort_by_key_eq_self key (List.Pairwise.imp (fun hlt => le_of_lt hlt) h)

/-- **Acceptance.** Sorted with no equal neighbours is strictly sorted. -/
theorem strictly_sorted_of_adjacent {l : List α} (hs : l.Pairwise fun a b => key a ≤ key b)
    (h : adjacent_equal key l = false) : StrictlySorted key l := by
  induction l with
  | nil => exact List.Pairwise.nil
  | cons a l ih =>
    cases l with
    | nil => exact List.pairwise_singleton _ _
    | cons b l =>
      simp only [adjacent_equal, Bool.or_eq_false_iff, decide_eq_false_iff_not] at h
      obtain ⟨hne, hrest⟩ := h
      rw [List.pairwise_cons] at hs
      obtain ⟨hle, hs⟩ := hs
      have htail := ih hs hrest
      have hab : key a < key b := lt_of_le_of_ne (hle b List.mem_cons_self) hne
      refine List.pairwise_cons.mpr ⟨fun c hc => ?_, htail⟩
      rcases List.mem_cons.mp hc with rfl | hc
      · exact hab
      · exact lt_trans hab ((List.pairwise_cons.mp htail).1 c hc)

theorem StrictlySorted.adjacent {l : List α} (h : StrictlySorted key l) :
    adjacent_equal key l = false := by
  induction l with
  | nil => rfl
  | cons a l ih =>
    obtain ⟨hhead, htail⟩ := List.pairwise_cons.mp h
    cases l with
    | nil => rfl
    | cons b l =>
      simp only [adjacent_equal, Bool.or_eq_false_iff, decide_eq_false_iff_not]
      exact ⟨ne_of_lt (hhead b List.mem_cons_self), ih htail⟩

theorem StrictlySorted.nodup {l : List α} (h : StrictlySorted key l) : (l.map key).Nodup := by
  rw [List.Nodup, List.pairwise_map]
  exact List.Pairwise.imp (fun hlt => ne_of_lt hlt) h

/-- Neighbours that differ in a coarser key differ in a finer one. -/
theorem adjacent_equal_mono {κ' : Type*} [LinearOrder κ'] {key : α → κ} {fine : α → κ'}
    (hfine : ∀ a b, fine a = fine b → key a = key b) {l : List α}
    (h : adjacent_equal key l = false) : adjacent_equal fine l = false := by
  fun_induction adjacent_equal key l with
  | case1 a b l ih =>
    rw [Bool.or_eq_false_iff] at h
    have hne : fine a ≠ fine b := fun heq => of_decide_eq_false h.1 (hfine a b heq)
    rw [adjacent_equal, decide_eq_false hne, ih h.2]
    rfl
  | case2 l hshort =>
    match l, hshort with
    | [], _ => rfl
    | [_], _ => rfl
    | a :: b :: l, hshort => exact absurd rfl (hshort a b l)

/-- Distinct keys are never equal neighbours. -/
theorem adjacent_equal_of_nodup {l : List α} (h : (l.map key).Nodup) :
    adjacent_equal key l = false := by
  fun_induction adjacent_equal key l with
  | case1 a b l ih =>
    rw [List.map_cons, List.nodup_cons] at h
    have hne : key a ≠ key b := fun heq => h.1 (heq ▸ List.mem_cons_self)
    rw [decide_eq_false hne, ih h.2]
    rfl
  | case2 l hshort => rfl

/-- After sorting, equal keys are neighbours. -/
theorem adjacent_equal_sort_iff {l : List α} :
    adjacent_equal key (sort_by_key key l) = false ↔ (l.map key).Nodup := by
  have hperm : ((sort_by_key key l).map key).Perm (l.map key) := (sort_by_key_perm key l).map key
  rw [← hperm.nodup_iff]
  constructor
  · intro h
    exact (strictly_sorted_of_adjacent key (sort_by_key_sorted key l) h).nodup
  · exact adjacent_equal_of_nodup key

/-- **Sorting forgets the order** of a list whose keys are distinct. -/
theorem sort_by_key_perm_eq {l l' : List α} (h : l.Perm l') (hkeys : (l.map key).Nodup) :
    sort_by_key key l = sort_by_key key l' := by
  have hsorted : (sort_by_key key l).Perm (sort_by_key key l') :=
    (sort_by_key_perm key l).trans (h.trans (sort_by_key_perm key l').symm)
  refine hsorted.eq_of_pairwise ?_ (sort_by_key_sorted key l) (sort_by_key_sorted key l')
  intro a b ha hb hab hba
  have hmem : b ∈ l := by
    rw [mem_sort_by_key] at hb
    exact h.mem_iff.mpr hb
  exact List.inj_on_of_nodup_map hkeys ((mem_sort_by_key key).mp ha) hmem (le_antisymm hab hba)

/-- An injective key needs no distinct entries. -/
theorem sort_by_key_perm_eq_of_injective {l l' : List α} (h : l.Perm l')
    (hkey : Function.Injective key) : sort_by_key key l = sort_by_key key l' := by
  have hsorted : (sort_by_key key l).Perm (sort_by_key key l') :=
    (sort_by_key_perm key l).trans (h.trans (sort_by_key_perm key l').symm)
  exact hsorted.eq_of_pairwise (fun a b _ _ hab hba => hkey (le_antisymm hab hba))
    (sort_by_key_sorted key l) (sort_by_key_sorted key l')

/-- In a strictly sorted list the key finds the entry. -/
theorem StrictlySorted.eq_of_key {l : List α} (h : StrictlySorted key l) {a b : α} (ha : a ∈ l)
    (hb : b ∈ l) (hab : key a = key b) : a = b :=
  List.inj_on_of_nodup_map h.nodup ha hb hab

end SortByKey

/-! ## A list as a map -/

section FindKey

variable {α κ : Type*} [DecidableEq κ] {key : α → κ} {l : List α} {k : κ} {a : α}

/-- An entry that is found is in the list, under the key. -/
theorem find_key_some (h : l.find? (fun a => decide (key a = k)) = some a) : a ∈ l ∧ key a = k := by
  refine ⟨List.mem_of_find?_eq_some h, ?_⟩
  have hkey := List.find?_some h
  exact of_decide_eq_true hkey

theorem find_key_none :
    l.find? (fun a => decide (key a = k)) = none ↔ ∀ a ∈ l, key a ≠ k := by
  rw [List.find?_eq_none]
  constructor
  · intro h a ha heq
    exact h a ha (decide_eq_true heq)
  · intro h a ha hdec
    exact h a ha (of_decide_eq_true hdec)

/-- With distinct keys, every entry is found. -/
theorem find_key_of_mem (hnodup : (l.map key).Nodup) (ha : a ∈ l) :
    l.find? (fun b => decide (key b = key a)) = some a := by
  cases hfind : l.find? (fun b => decide (key b = key a)) with
  | none => exact absurd rfl (find_key_none.mp hfind a ha)
  | some other =>
    obtain ⟨hother, hkey⟩ := find_key_some hfind
    exact congrArg some (List.inj_on_of_nodup_map hnodup hother ha hkey)

end FindKey

/-- `Vec::dedup`: one of each run of equal neighbours. -/
def dedup_adjacent {α : Type*} [DecidableEq α] : List α → List α
  | a :: b :: l => if a = b then dedup_adjacent (b :: l) else a :: dedup_adjacent (b :: l)
  | l => l

@[simp] theorem mem_dedup_adjacent {α : Type*} [DecidableEq α] {l : List α} {x : α} :
    x ∈ dedup_adjacent l ↔ x ∈ l := by
  fun_induction dedup_adjacent l with
  | case1 b l ih => rw [ih]; simp
  | case2 a b l hne ih => simp only [List.mem_cons, ih]
  | case3 l _ => rfl

/-- Sorted entries with one of each run kept are strictly ascending. -/
theorem dedup_adjacent_sorted {κ : Type*} [LinearOrder κ] (inst : DecidableEq κ) {l : List κ}
    (h : l.Pairwise fun a b => a ≤ b) : StrictlySorted id (@dedup_adjacent κ inst l) := by
  fun_induction @dedup_adjacent κ inst l with
  | case1 b l ih => exact ih h.of_cons
  | case2 a b l hne ih =>
    refine List.pairwise_cons.mpr ⟨fun c hc => ?_, ih h.of_cons⟩
    have hab : a < b := lt_of_le_of_ne ((List.pairwise_cons.mp h).1 b List.mem_cons_self) hne
    rcases List.mem_cons.mp (mem_dedup_adjacent.mp hc) with rfl | hc
    · exact hab
    · exact lt_of_lt_of_le hab ((List.pairwise_cons.mp h.of_cons).1 c hc)
  | case3 l hshort =>
    match l, hshort with
    | [], _ => exact List.Pairwise.nil
    | [a], _ => exact List.pairwise_singleton _ _
    | a :: b :: l, hshort => exact absurd rfl (hshort a b l)

/-- In ascending entries, what comes before an entry is what is smaller. -/
theorem StrictlySorted.mem_before_iff {κ : Type*} [LinearOrder κ] {l pre : List κ} {x y : κ}
    (h : StrictlySorted id l) (hpre : pre ++ [x] <+: l) : y ∈ pre ↔ y ∈ l ∧ y < x := by
  obtain ⟨rest, rfl⟩ := hpre
  unfold StrictlySorted at h
  rw [List.append_assoc, List.pairwise_append] at h
  obtain ⟨-, htail, hcross⟩ := h
  constructor
  · intro hy
    exact ⟨by rw [List.append_assoc]; exact List.mem_append_left _ hy,
      hcross y hy x (List.mem_append_left _ (List.mem_singleton_self x))⟩
  · rintro ⟨hy, hlt⟩
    rw [List.append_assoc, List.mem_append] at hy
    rcases hy with hy | hy
    · exact hy
    · rcases List.mem_cons.mp hy with rfl | hy
      · exact absurd hlt (lt_irrefl _)
      · have hgt : x < y := (List.pairwise_cons.mp htail).1 y hy
        exact absurd (lt_trans hlt hgt) (lt_irrefl _)

end LeanBun.Lib
