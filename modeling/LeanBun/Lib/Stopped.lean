/-
Texts that are cut in front of a stop.

A delimited encoding can be cut off in front of anything. Some texts, such as numbers, can be
cut off only in front of a character that they do not have. In a list with separators every
item stands in front of a separator or the closing bracket, so this is enough there, and the
list in its brackets is delimited again.
-/
import LeanBun.Lib.Delimited

set_option autoImplicit false

namespace LeanBun.Lib

/-- **Prefix-free** encodings are delimited. -/
theorem Delimited.of_prefixes {α β : Type*} {P : α → Prop} {enc : α → List β}
    (h : ∀ a b, P a → P b → enc a <+: enc b → a = b) : Delimited P enc := by
  intro a b r s ha hb heq
  have hab : a = b := by
    have hleft : enc a <+: enc a ++ r := List.prefix_append _ _
    have hright : enc b <+: enc a ++ r := heq ▸ List.prefix_append _ _
    rcases List.prefix_or_prefix_of_prefix hleft hright with hpre | hpre
    · exact h a b ha hb hpre
    · exact (h b a hb ha hpre).symm
  subst hab
  exact ⟨rfl, List.append_cancel_left heq⟩

/-- Two texts with different fronts. -/
theorem fronts_differ {β : Type*} {a b : List β} (ha : ¬a <+: b) (hb : ¬b <+: a) (r s : List β) :
    a ++ r ≠ b ++ s := by
  intro h
  have hleft : a <+: a ++ r := List.prefix_append _ _
  have hright : b <+: a ++ r := h ▸ List.prefix_append _ _
  exact (List.prefix_or_prefix_of_prefix hleft hright).elim ha hb

section Stopped

variable {α β : Type*} {stop : β → Prop}

/-- A text that begins with a stop. -/
def Stops (stop : β → Prop) (r : List β) : Prop := ∃ c rest, r = c :: rest ∧ stop c

/-- Two texts that end at the same place when a stop follows them. -/
def Apart (stop : β → Prop) (t u : List β) : Prop :=
  ∀ r s, Stops stop r → Stops stop s → t ++ r = u ++ s → t = u ∧ r = s

/-- On the values satisfying `P`, the encoding can be cut off in front of a stop. -/
def Stopped (stop : β → Prop) (P : α → Prop) (enc : α → List β) : Prop :=
  ∀ a b r s, P a → P b → Stops stop r → Stops stop s → enc a ++ r = enc b ++ s → a = b ∧ r = s

theorem Stops.cons {c : β} (hc : stop c) (rest : List β) : Stops stop (c :: rest) :=
  ⟨c, rest, rfl, hc⟩

theorem Delimited.stopped {P : α → Prop} {enc : α → List β} (h : Delimited P enc) :
    Stopped stop P enc :=
  fun a b r s ha hb _ _ heq => h a b r s ha hb heq

theorem Stopped.apart {P : α → Prop} {enc : α → List β} (h : Stopped stop P enc) {a b : α}
    (ha : P a) (hb : P b) : Apart stop (enc a) (enc b) := by
  intro r s hr hs heq
  obtain ⟨rfl, hrest⟩ := h a b r s ha hb hr hs heq
  exact ⟨rfl, hrest⟩

theorem Stopped.injective {P : α → Prop} {enc : α → List β} (h : Stopped stop P enc) {c : β}
    (hc : stop c) {a b : α} (ha : P a) (hb : P b) (heq : enc a = enc b) : a = b :=
  (h a b [c] [c] ha hb (Stops.cons hc []) (Stops.cons hc []) (by rw [heq])).1

/-- A common front changes nothing. -/
theorem Apart.append_left {t u : List β} (h : Apart stop t u) (front : List β) :
    Apart stop (front ++ t) (front ++ u) := by
  intro r s hr hs heq
  rw [List.append_assoc, List.append_assoc] at heq
  obtain ⟨rfl, hrest⟩ := h r s hr hs (List.append_cancel_left heq)
  exact ⟨rfl, hrest⟩

/-- **Texts without stops** end where the stop is. -/
theorem apart_of_plain {t u : List β} (ht : ∀ c ∈ t, ¬stop c) (hu : ∀ c ∈ u, ¬stop c) :
    Apart stop t u := by
  intro r s hr hs heq
  induction t generalizing u with
  | nil =>
    cases u with
    | nil => exact ⟨rfl, heq⟩
    | cons d u =>
      obtain ⟨c, rest, rfl, hc⟩ := hr
      rw [List.nil_append, List.cons_append, List.cons.injEq] at heq
      exact absurd (heq.1 ▸ hc) (hu d List.mem_cons_self)
  | cons c t ih =>
    cases u with
    | nil =>
      obtain ⟨d, rest, rfl, hd⟩ := hs
      rw [List.nil_append, List.cons_append, List.cons.injEq] at heq
      exact absurd (heq.1 ▸ hd) (ht c List.mem_cons_self)
    | cons d u =>
      rw [List.cons_append, List.cons_append, List.cons.injEq] at heq
      obtain ⟨htu, hrest⟩ := ih (fun c hc => ht c (List.mem_cons_of_mem _ hc))
        (fun c hc => hu c (List.mem_cons_of_mem _ hc)) heq.2
      exact ⟨by rw [heq.1, htu], hrest⟩

/-! ## Lists with separators -/

/-- What follows the first item of a list. -/
def after_item (sep close : β) (items : List (List β)) (r : List β) : List β :=
  if items = [] then close :: r else sep :: (List.intercalate [sep] items ++ close :: r)

theorem intercalate_item (sep close : β) (item : List β) (items : List (List β)) (r : List β) :
    List.intercalate [sep] (item :: items) ++ close :: r =
      item ++ after_item sep close items r := by
  unfold after_item
  split
  · rename_i hnil
    rw [hnil, List.intercalate_singleton]
  · rename_i hne
    rw [List.intercalate_cons_of_ne_nil hne]
    simp only [List.append_assoc, List.cons_append, List.nil_append]

theorem after_item_stops {sep close : β} (hsep : stop sep) (hclose : stop close)
    (items : List (List β)) (r : List β) : Stops stop (after_item sep close items r) := by
  unfold after_item
  split
  · exact Stops.cons hclose r
  · exact Stops.cons hsep _

theorem after_item_eq {sep close : β} (hne : sep ≠ close) {items items' : List (List β)}
    {r s : List β} (h : after_item sep close items r = after_item sep close items' s) :
    (items = [] ∧ items' = [] ∧ r = s) ∨ (items ≠ [] ∧ items' ≠ [] ∧
      List.intercalate [sep] items ++ close :: r = List.intercalate [sep] items' ++ close :: s) := by
  unfold after_item at h
  split at h
  · rename_i hnil
    split at h
    · rename_i hnil'
      exact .inl ⟨hnil, hnil', (List.cons.inj h).2⟩
    · exact absurd (List.cons.inj h).1.symm hne
  · rename_i hcons
    split at h
    · exact absurd (List.cons.inj h).1 hne
    · rename_i hcons'
      exact .inr ⟨hcons, hcons', (List.cons.inj h).2⟩

/-- **Lists of items** with separators, up to the closing bracket. -/
theorem items_apart {sep close : β} (hsep : stop sep) (hclose : stop close) (hne : sep ≠ close)
    {items items' : List (List β)} (hapart : ∀ t ∈ items, ∀ u ∈ items', Apart stop t u)
    (hitems : ∀ t ∈ items, t ≠ [] ∧ t.head? ≠ some close)
    (hitems' : ∀ t ∈ items', t ≠ [] ∧ t.head? ≠ some close) {r s : List β}
    (h : List.intercalate [sep] items ++ close :: r =
      List.intercalate [sep] items' ++ close :: s) : items = items' ∧ r = s := by
  -- an item is not the closing bracket
  have hempty {item : List β} {items : List (List β)} {r s : List β}
      (hitem : item ≠ [] ∧ item.head? ≠ some close) :
      close :: r ≠ List.intercalate [sep] (item :: items) ++ close :: s := by
    rw [intercalate_item]
    obtain ⟨c, rest, rfl⟩ := List.exists_cons_of_ne_nil hitem.1
    intro heq
    exact hitem.2 (by rw [(List.cons.inj heq).1]; rfl)
  induction items generalizing items' with
  | nil =>
    cases items' with
    | nil => exact ⟨rfl, (List.cons.inj h).2⟩
    | cons u items' => exact absurd h (hempty (hitems' u List.mem_cons_self))
  | cons t items ih =>
    cases items' with
    | nil => exact absurd h.symm (hempty (hitems t List.mem_cons_self))
    | cons u items' =>
      rw [intercalate_item, intercalate_item] at h
      obtain ⟨rfl, hafter⟩ := hapart t List.mem_cons_self u List.mem_cons_self _ _
        (after_item_stops hsep hclose items r) (after_item_stops hsep hclose items' s) h
      rcases after_item_eq hne hafter with ⟨rfl, rfl, hrest⟩ | ⟨-, -, htail⟩
      · exact ⟨rfl, hrest⟩
      · obtain ⟨hitems_eq, hrest⟩ := ih
          (fun a ha b hb => hapart a (List.mem_cons_of_mem _ ha) b (List.mem_cons_of_mem _ hb))
          (fun a ha => hitems a (List.mem_cons_of_mem _ ha))
          (fun a ha => hitems' a (List.mem_cons_of_mem _ ha)) htail
        exact ⟨by rw [hitems_eq], hrest⟩

/-- **Fields** with separators, up to the closing bracket: as many on either side. -/
theorem fields_apart {sep close : β} (hsep : stop sep) (hclose : stop close) (hne : sep ≠ close)
    {items items' : List (List β)} (hapart : List.Forall₂ (Apart stop) items items')
    {r s : List β} (h : List.intercalate [sep] items ++ close :: r =
      List.intercalate [sep] items' ++ close :: s) : items = items' ∧ r = s := by
  induction hapart with
  | nil => exact ⟨rfl, (List.cons.inj h).2⟩
  | @cons t u items items' htu _ ih =>
    rw [intercalate_item, intercalate_item] at h
    obtain ⟨rfl, hafter⟩ := htu _ _ (after_item_stops hsep hclose items r)
      (after_item_stops hsep hclose items' s) h
    rcases after_item_eq hne hafter with ⟨rfl, rfl, hrest⟩ | ⟨-, -, htail⟩
    · exact ⟨rfl, hrest⟩
    · obtain ⟨hitems, hrest⟩ := ih htail
      exact ⟨by rw [hitems], hrest⟩

end Stopped

end LeanBun.Lib
