/-
JSON texts that are pushed together by hand.

A string ends at its first bare quote, so strings are delimited. Numbers and booleans end where
a comma or a closing bracket stands, which is what follows every value of an object or an
array. So the text of an object determines the texts of its fields, and that of an array its
items.
-/
import LeanBun.Lib.Stopped
import LeanBun.Plan.Report

set_option autoImplicit false

namespace LeanBun.Plan

open LeanBun.Lib LeanBun.Core
open LeanBun.Bridge (json_string optional_json_string json_char)

/-! ## Strings -/

/-- The characters that are escaped. -/
def escaped_chars : List Char := '"' :: '\\' :: (List.range 32).map Char.ofNat

theorem json_char_escaped {c d : Char} (hc : c ∈ escaped_chars) (hd : d ∈ escaped_chars)
    (h : json_char c <+: json_char d) : c = d := by
  have hall : ∀ c ∈ escaped_chars, ∀ d ∈ escaped_chars, json_char c <+: json_char d → c = d := by
    decide +kernel
  exact hall c hc d hd h

/-- An escape begins with a backslash. -/
theorem json_char_head {c : Char} (hc : c ∈ escaped_chars) : ∃ rest, json_char c = '\\' :: rest := by
  have hall : ∀ c ∈ escaped_chars, (json_char c).head? = some '\\' := by decide +kernel
  exact ⟨_, List.eq_cons_of_mem_head? (hall c hc)⟩

/-- Any other character stands for itself. -/
theorem json_char_plain {c : Char} (hc : c ∉ escaped_chars) : json_char c = [c] := by
  have hsmall : ¬c.toNat < 0x20 := by
    intro hlt
    refine hc (List.mem_cons_of_mem _ (List.mem_cons_of_mem _ (List.mem_map.mpr ⟨c.toNat, ?_, ?_⟩)))
    · exact List.mem_range.mpr hlt
    · exact Char.ofNat_toNat c
  have hne {d : Char} (hd : d ∈ escaped_chars) : c ≠ d := fun h => hc (h ▸ hd)
  have h8 : c ≠ '\x08' := hne (by decide +kernel)
  have hc' : c ≠ '\x0c' := hne (by decide +kernel)
  have hn : c ≠ '\n' := hne (by decide +kernel)
  have hr : c ≠ '\r' := hne (by decide +kernel)
  have ht : c ≠ '\t' := hne (by decide +kernel)
  have hq : c ≠ '"' := hne (by decide +kernel)
  have hb : c ≠ '\\' := hne (by decide +kernel)
  simp only [json_char, hq, hb, h8, hc', hn, hr, ht, hsmall, if_false]

theorem json_char_delimited : Delimited (fun _ => True) json_char := by
  refine Delimited.of_prefixes fun c d _ _ h => ?_
  by_cases hc : c ∈ escaped_chars
  · by_cases hd : d ∈ escaped_chars
    · exact json_char_escaped hc hd h
    · obtain ⟨rest, hrest⟩ := json_char_head hc
      rw [hrest, json_char_plain hd, List.cons_prefix_cons] at h
      exact absurd (h.1 ▸ List.mem_cons_of_mem _ List.mem_cons_self) hd
  · by_cases hd : d ∈ escaped_chars
    · obtain ⟨rest, hrest⟩ := json_char_head hd
      rw [hrest, json_char_plain hc, List.cons_prefix_cons] at h
      exact absurd (h.1 ▸ List.mem_cons_of_mem _ List.mem_cons_self) hc
    · rw [json_char_plain hc, json_char_plain hd, List.cons_prefix_cons] at h
      exact h.1

/-- No character of a string is written with a bare quote in front. -/
theorem json_char_ne_quote (c : Char) (r s : Str) : '"' :: r ≠ json_char c ++ s := by
  intro h
  by_cases hc : c ∈ escaped_chars
  · obtain ⟨rest, hrest⟩ := json_char_head hc
    rw [hrest, List.cons_append] at h
    exact absurd (List.cons.inj h).1 (by decide)
  · rw [json_char_plain hc] at h
    exact hc ((List.cons.inj h).1 ▸ List.mem_cons_self)

/-- The characters between the quotes, up to the first bare quote. -/
theorem json_chars_quote {a b r s : Str}
    (h : a.flatMap json_char ++ '"' :: r = b.flatMap json_char ++ '"' :: s) : a = b ∧ r = s := by
  induction a generalizing b with
  | nil =>
    cases b with
    | nil => exact ⟨rfl, (List.cons.inj h).2⟩
    | cons d b =>
      rw [List.flatMap_cons, List.append_assoc] at h
      exact absurd h (json_char_ne_quote d _ _)
  | cons c a ih =>
    cases b with
    | nil =>
      rw [List.flatMap_cons, List.append_assoc] at h
      exact absurd h.symm (json_char_ne_quote c _ _)
    | cons d b =>
      rw [List.flatMap_cons, List.flatMap_cons, List.append_assoc, List.append_assoc] at h
      obtain ⟨hchar, htail⟩ := json_char_delimited _ _ _ _ trivial trivial h
      obtain ⟨hchars, hrest⟩ := ih htail
      exact ⟨by rw [hchar, hchars], hrest⟩

/-- **A string ends at its first bare quote.** -/
theorem json_string_delimited : Delimited (fun _ => True) json_string := by
  intro a b r s _ _ h
  simp only [json_string, List.cons_append, List.append_assoc, List.cons.injEq, true_and,
    List.nil_append] at h
  exact json_chars_quote h

theorem optional_json_string_delimited : Delimited (fun _ => True) optional_json_string := by
  intro a b r s _ _ h
  cases a with
  | none =>
    cases b with
    | none => exact ⟨rfl, List.append_cancel_left h⟩
    | some b => exact absurd (List.cons.inj h).1 (by decide)
  | some a =>
    cases b with
    | none => exact absurd (List.cons.inj h).1 (by decide)
    | some b =>
      obtain ⟨rfl, hrest⟩ := json_string_delimited _ _ _ _ trivial trivial h
      exact ⟨rfl, hrest⟩

/-! ## What follows a value -/

/-- What stands after a value in an object or an array. -/
def Ends (c : Char) : Prop := c = ',' ∨ c = '\x7d' ∨ c = ']'

theorem string_apart (a b : Str) : Apart Ends (json_string a) (json_string b) :=
  json_string_delimited.stopped.apart trivial trivial

theorem digit_not_ends {c : Char} (hc : is_digit c = true) : ¬Ends c := by
  rintro (rfl | rfl | rfl) <;> exact absurd hc (by decide)

/-- Numbers end in front of a comma or a bracket. -/
theorem decimal_apart (m n : ℕ) : Apart Ends (decimal m) (decimal n) :=
  apart_of_plain (fun _ hc => digit_not_ends (List.all_eq_true.mp (decimal_digits m) _ hc))
    (fun _ hc => digit_not_ends (List.all_eq_true.mp (decimal_digits n) _ hc))

theorem decimal_injective {m n : ℕ} (h : decimal m = decimal n) : m = n := by
  have hvalue (k : ℕ) : decimal_value (decimal k) = k := Nat.ofDigitChars_ten_toDigits
  rw [← hvalue m, h, hvalue n]

theorem bool_apart (a b : Bool) : Apart Ends (bool_text a) (bool_text b) := by
  have hplain (a : Bool) : ∀ c ∈ bool_text a, ¬Ends c := by
    unfold Ends
    cases a <;> decide
  exact apart_of_plain (hplain a) (hplain b)

theorem bool_text_injective {a b : Bool} (h : bool_text a = bool_text b) : a = b := by
  cases a <;> cases b <;> first | rfl | exact absurd h (by decide)

/-! ## Arrays and objects -/

/-- The text of an item of an array. -/
def ItemText (t : Str) : Prop := t ≠ [] ∧ t.head? ≠ some ']'

/-- **An array determines its items.** -/
theorem array_text_items {items items' : List Str}
    (hapart : ∀ t ∈ items, ∀ u ∈ items', Apart Ends t u) (hitems : ∀ t ∈ items, ItemText t)
    (hitems' : ∀ t ∈ items', ItemText t) {r s : Str}
    (h : array_text items ++ r = array_text items' ++ s) : items = items' ∧ r = s := by
  simp only [array_text, List.cons_append, List.append_assoc, List.nil_append] at h
  exact items_apart (.inl rfl) (.inr (.inr rfl)) (by decide) hapart hitems hitems'
    (List.cons.inj h).2

theorem array_text_apart {items items' : List Str}
    (hapart : ∀ t ∈ items, ∀ u ∈ items', Apart Ends t u) (hitems : ∀ t ∈ items, ItemText t)
    (hitems' : ∀ t ∈ items', ItemText t) : Apart Ends (array_text items) (array_text items') := by
  intro r s _ _ h
  obtain ⟨hequal, hrest⟩ := array_text_items hapart hitems hitems' h
  exact ⟨by rw [hequal], hrest⟩

theorem string_item (value : Str) : ItemText (json_string value) := by
  unfold ItemText json_string
  simp

theorem json_array_apart (a b : List Str) : Apart Ends (json_array a) (json_array b) := by
  refine array_text_apart ?_ ?_ ?_
  · intro t ht u hu
    obtain ⟨x, -, rfl⟩ := List.mem_map.mp ht
    obtain ⟨y, -, rfl⟩ := List.mem_map.mp hu
    exact string_apart x y
  · exact List.forall_mem_map.mpr fun x _ => string_item x
  · exact List.forall_mem_map.mpr fun x _ => string_item x

theorem json_string_injective : Function.Injective json_string := fun _ _ h =>
  json_string_delimited.injective trivial trivial h

/-- An array of texts determines them. -/
theorem array_text_injective {items items' : List Str}
    (hapart : ∀ t ∈ items, ∀ u ∈ items', Apart Ends t u) (hitems : ∀ t ∈ items, ItemText t)
    (hitems' : ∀ t ∈ items', ItemText t) (h : array_text items = array_text items') :
    items = items' :=
  (array_text_items (r := []) (s := []) hapart hitems hitems' (by rw [h])).1

theorem json_array_injective {a b : List Str} (h : json_array a = json_array b) : a = b := by
  refine List.map_injective_iff.mpr json_string_injective (array_text_injective ?_ ?_ ?_ h)
  · intro t ht u hu
    obtain ⟨x, -, rfl⟩ := List.mem_map.mp ht
    obtain ⟨y, -, rfl⟩ := List.mem_map.mp hu
    exact string_apart x y
  · exact List.forall_mem_map.mpr fun x _ => string_item x
  · exact List.forall_mem_map.mpr fun x _ => string_item x

/-- A field of either of two objects: one name, and texts that end where a value ends. -/
def SameField (field field' : String × Str) : Prop :=
  field.1 = field'.1 ∧ Apart Ends field.2 field'.2

/-- Two lists of fields. -/
abbrev SameFields (fields fields' : List (String × Str)) : Prop :=
  List.Forall₂ SameField fields fields'

theorem SameFields.cons {name : String} {t u : Str} {fields fields' : List (String × Str)}
    (h : Apart Ends t u) (hrest : SameFields fields fields') :
    SameFields ((name, t) :: fields) ((name, u) :: fields') := List.Forall₂.cons ⟨rfl, h⟩ hrest

theorem SameFields.nil : SameFields [] [] := List.Forall₂.nil

/-- **An object determines the texts of its fields.** -/
theorem object_text_fields {fields fields' : List (String × Str)}
    (hfields : SameFields fields fields') {r s : Str}
    (h : object_text fields ++ r = object_text fields' ++ s) : fields = fields' ∧ r = s := by
  have hapart : List.Forall₂ (Apart Ends) (fields.map fun field => key_text field.1 ++ field.2)
      (fields'.map fun field => key_text field.1 ++ field.2) := by
    rw [List.forall₂_map_left_iff, List.forall₂_map_right_iff]
    refine hfields.imp fun field field' hfield => ?_
    rw [hfield.1]
    exact hfield.2.append_left _
  simp only [object_text, List.cons_append, List.append_assoc, List.nil_append] at h
  obtain ⟨hequal, hrest⟩ := fields_apart (.inl rfl) (.inr (.inl rfl)) (by decide) hapart
    (List.cons.inj h).2
  refine ⟨?_, hrest⟩
  clear h hapart
  induction hfields with
  | nil => rfl
  | @cons field field' fields fields' hfield _ ih =>
    rw [List.map_cons, List.map_cons, List.cons.injEq] at hequal
    have hvalue : field.2 = field'.2 := by
      rw [hfield.1] at hequal
      exact List.append_cancel_left hequal.1
    rw [ih hequal.2, Prod.ext hfield.1 hvalue]

theorem object_text_apart {fields fields' : List (String × Str)}
    (hfields : SameFields fields fields') :
    Apart Ends (object_text fields) (object_text fields') := by
  intro r s _ _ h
  obtain ⟨hequal, hrest⟩ := object_text_fields hfields h
  exact ⟨by rw [hequal], hrest⟩

theorem object_text_injective {fields fields' : List (String × Str)}
    (h : object_text fields = object_text fields')
    (hfields : SameFields fields fields') : fields = fields' :=
  (object_text_fields (r := []) (s := []) hfields (by rw [h])).1

end LeanBun.Plan
