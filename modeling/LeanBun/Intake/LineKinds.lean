/-
What the reader takes the lines of a TOML document for.

A line is trimmed before it is looked at. The first line of a key with its value is read as an
assignment, whatever the key; its key is one of the reader's only when it is written bare. A
header is read as a header when nothing follows its brackets; the name of what else is read as
a header has a number sign in it, and the key of what is read as an assignment a bracket.
-/
import LeanBun.Intake.Lakefile
import LeanBun.Toml.Grammar

set_option autoImplicit false

namespace LeanBun.Intake

open LeanBun.Lib LeanBun.Toml LeanBun.Managed
open LeanBun.Evidence (trim is_white_space)

/-! ## Trimmed texts -/

/-- `str::trim_end`. -/
def trim_end (s : Str) : Str := s.rdropWhile is_white_space

/-- A text of white space. -/
def White (s : Str) : Prop := ∀ c ∈ s, is_white_space c = true

theorem blank_white {s : Str} (h : Blank s) : White s := by
  intro c hc
  have hblank := h c hc
  simp only [is_blank, Bool.or_eq_true, decide_eq_true_eq] at hblank
  rcases hblank with rfl | rfl <;> rfl

theorem trim_end_append_white (s : Str) {t : Str} (ht : White t) :
    trim_end (s ++ t) = trim_end s := by
  unfold trim_end List.rdropWhile
  rw [List.reverse_append, List.dropWhile_append_of_pos]
  intro c hc
  exact ht c (List.mem_reverse.mp hc)

/-- Nothing is trimmed in front of a character that is not white. -/
theorem trim_end_append_cons {c : Char} (hc : is_white_space c = false) (s t : Str) :
    trim_end (s ++ c :: t) = s ++ c :: trim_end t := by
  have hdrop : (t.reverse ++ c :: s.reverse).dropWhile is_white_space =
      t.reverse.dropWhile is_white_space ++ c :: s.reverse := by
    rw [List.dropWhile_append]
    split
    · rename_i hempty
      rw [List.isEmpty_iff.mp hempty, List.dropWhile_cons_of_neg (by simp [hc]), List.nil_append]
    · rfl
  unfold trim_end List.rdropWhile
  rw [List.reverse_append, List.reverse_cons, List.append_assoc, List.singleton_append, hdrop]
  simp

theorem trim_end_white {s : Str} (hs : White s) : trim_end s = [] :=
  List.rdropWhile_eq_nil_iff.mpr hs

theorem trim_white_append {s : Str} (hs : White s) (t : Str) : trim (s ++ t) = trim t := by
  unfold trim
  rw [List.dropWhile_append_of_pos hs]

theorem trim_cons {c : Char} (hc : is_white_space c = false) (s : Str) :
    trim (c :: s) = trim_end (c :: s) := by
  unfold trim trim_end
  rw [List.dropWhile_cons_of_neg (by simp [hc])]

theorem trim_white {s : Str} (hs : White s) : trim s = [] := by
  have h := trim_white_append hs []
  rwa [List.append_nil] at h

theorem trim_append_white (s : Str) {t : Str} (ht : White t) : trim (s ++ t) = trim s := by
  by_cases hs : White s
  · have hall : White (s ++ t) := by
      intro c hc
      rcases List.mem_append.mp hc with hc | hc
      · exact hs c hc
      · exact ht c hc
    rw [trim_white hall, trim_white hs]
  · have hempty : (s.dropWhile is_white_space).isEmpty = false := by
      simpa [White, List.dropWhile_eq_nil_iff] using hs
    unfold trim
    rw [List.dropWhile_append, hempty]
    exact trim_end_append_white _ ht

theorem trim_end_decomposed (s : Str) : ∃ t, White t ∧ s = trim_end s ++ t :=
  ⟨s.rtakeWhile is_white_space, fun _ hc => List.mem_rtakeWhile_imp hc,
    List.rdropWhile_append_rtakeWhile.symm⟩

theorem trim_trim_end (s : Str) : trim (trim_end s) = trim s := by
  obtain ⟨t, ht, hs⟩ := trim_end_decomposed s
  have htrim := trim_append_white (trim_end s) ht
  rw [← hs] at htrim
  exact htrim.symm

/-- What is not white stays. -/
theorem mem_trim {c : Char} (hc : is_white_space c = false) {s : Str} (h : c ∈ s) :
    c ∈ trim s := by
  obtain ⟨a, b, rfl⟩ := List.append_of_mem h
  have hdrop : ∃ front, (a ++ c :: b).dropWhile is_white_space = front ++ c :: b := by
    rw [List.dropWhile_append]
    split
    · exact ⟨[], List.dropWhile_cons_of_neg (by simp [hc])⟩
    · exact ⟨_, rfl⟩
  obtain ⟨front, hfront⟩ := hdrop
  show c ∈ trim_end ((a ++ c :: b).dropWhile is_white_space)
  rw [hfront, trim_end_append_cons hc]
  simp

/-- A text whose ends are not white. -/
theorem trim_eq_self {s : Str} (hfirst : ∀ c ∈ s.head?, is_white_space c = false)
    (hlast : ∀ c ∈ s.getLast?, is_white_space c = false) : trim s = s := by
  rcases List.eq_nil_or_concat s with rfl | ⟨front, last, rfl⟩
  · rfl
  · rw [List.concat_eq_append] at hfirst hlast ⊢
    have hdrop : (front ++ [last]).dropWhile is_white_space = front ++ [last] := by
      obtain ⟨first, rest, hcons⟩ : ∃ first rest, front ++ [last] = first :: rest :=
        List.exists_cons_of_ne_nil (by simp)
      rw [hcons] at hfirst ⊢
      exact List.dropWhile_cons_of_neg (by simp [hfirst first rfl])
    have hlast' := hlast last (by simp)
    show trim_end ((front ++ [last]).dropWhile is_white_space) = _
    rw [hdrop, trim_end_append_cons hlast']
    rfl

/-! ## Keys -/

/-- A character that a key begins or ends with. -/
def is_key_edge (c : Char) : Bool := is_bare c || decide (c = '"') || decide (c = '\'')

/-- The edges of keys are visible characters, and none that a line is told by. -/
theorem key_edge_plain {c : Char} (h : is_key_edge c = true) :
    is_white_space c = false ∧ c ≠ '[' ∧ c ≠ ']' ∧ c ≠ '#' ∧ c ≠ '=' := by
  have hall : ∀ n < 128, is_key_edge (Char.ofNat n) = true →
      is_white_space (Char.ofNat n) = false ∧ Char.ofNat n ≠ '[' ∧ Char.ofNat n ≠ ']' ∧
        Char.ofNat n ≠ '#' ∧ Char.ofNat n ≠ '=' := by decide +kernel
  have hsmall : c.toNat < 128 := by
    simp only [is_key_edge, is_bare, Bool.or_eq_true, decide_eq_true_eq] at h
    have hz : 'z'.toNat = 122 := rfl
    have hZ : 'Z'.toNat = 90 := rfl
    have h9 : '9'.toNat = 57 := rfl
    rcases h with ((h | h | h | rfl | rfl) | rfl) | rfl
    · exact lt_of_le_of_lt (Char.le_def.mp h.2) (by decide)
    · exact lt_of_le_of_lt (Char.le_def.mp h.2) (by decide)
    · exact lt_of_le_of_lt (Char.le_def.mp h.2) (by decide)
    all_goals decide
  have hresult := hall c.toNat hsmall
  rw [Char.ofNat_toNat] at hresult
  exact hresult h

theorem bare_key_edge {c : Char} (h : is_bare c = true) : is_key_edge c = true := by
  simp [is_key_edge, h]

/-- Digits in a number are digits. -/
theorem hex_number_digits {digits : Str} {n : ℕ} (h : hex_number digits = some n) {c : Char}
    (hc : c ∈ digits) : hex_value c ≠ none := by
  unfold hex_number at h
  generalize 0 = start at h
  induction digits generalizing start with
  | nil => cases hc
  | cons d digits ih =>
    rw [List.foldlM_cons] at h
    obtain ⟨next, hnext, h⟩ := Option.bind_eq_some_iff.mp h
    obtain ⟨value, hvalue, -⟩ := Option.map_eq_some_iff.mp hnext
    rcases List.mem_cons.mp hc with rfl | hc
    · simp [hvalue]
    · exact ih hc next h

/-- An escape begins with a backslash and stays in its line. -/
theorem escape_text {e : Str} {c : Char} (h : Escape e c) : '\\' ∈ e ∧ '\n' ∉ e := by
  cases h with
  | short hmem =>
    refine ⟨by simp, ?_⟩
    simp only [escapes, List.mem_cons, Prod.mk.injEq, List.not_mem_nil, or_false] at hmem
    rcases hmem with h | h | h | h | h | h | h <;> simp [h.1]
  | unicode hn _ hmark =>
    refine ⟨by simp, fun hmem => ?_⟩
    rcases List.mem_cons.mp hmem with h | hmem
    · exact absurd h (by decide)
    rcases List.mem_cons.mp hmem with h | hmem
    · rcases hmark with hm | hm
      · rw [hm.1] at h
        exact absurd h (by decide)
      · rw [hm.1] at h
        exact absurd h (by decide)
    · exact hex_number_digits hn hmem (by decide)

theorem in_line_ne {c : Char} (h : InLine c) : c ≠ '\n' := by
  rintro rfl
  rcases h with h | h
  · exact absurd h (by decide)
  · exact absurd h (by decide)

theorem basic_chars_newline {body t : Str} (h : BasicChars body t) : '\n' ∉ body := by
  induction h with
  | nil => exact List.not_mem_nil
  | plain hline _ _ _ ih =>
    rw [List.mem_cons, not_or]
    exact ⟨(in_line_ne hline).symm, ih⟩
  | escape hescape _ ih =>
    rw [List.mem_append, not_or]
    exact ⟨(escape_text hescape).2, ih⟩

/-- A string without backslashes denotes its characters. -/
theorem basic_chars_plain {body t : Str} (h : BasicChars body t) (hplain : '\\' ∉ body) :
    t = body := by
  induction h with
  | nil => rfl
  | plain _ _ _ _ ih =>
    rw [List.mem_cons, not_or] at hplain
    rw [ih hplain.2]
  | escape hescape _ _ =>
    exact absurd (List.mem_append_left _ (escape_text hescape).1) hplain

theorem literal_chars_newline {body : Str} (h : LiteralChars body) : '\n' ∉ body :=
  fun hmem => in_line_ne (h _ hmem).1 rfl

end LeanBun.Intake
