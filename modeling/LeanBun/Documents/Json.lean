/-
JSON values and what `JSON.stringify` makes of them.

Two documents are compared by their compact texts. The compact text of a value can be cut
off from whatever comes behind it in only one way, as long as a number is not followed by
more of a number: a string ends at the first quote that is not escaped, and everything else
begins with a character of its own kind. So equal texts are texts of equal values.
-/
import LeanBun.Execution.Document
import LeanBun.Lib.Delimited

set_option autoImplicit false

namespace LeanBun.Documents

open LeanBun.Lib LeanBun.Core LeanBun.Execution

/-! ## Values -/

/-- The characters of numbers. -/
def number_char (c : Char) : Bool := is_digit c || decide (c ∈ ['-', '+', '.', 'e'])

/-- A number, by the text that `JSON.stringify` writes for it. -/
structure JsonNumber where
  text : Str
  nonempty : text ≠ []
  plain : ∀ c ∈ text, number_char c = true
deriving DecidableEq

/-- A value; the members of an object stand in their order. -/
inductive Json where
  | null
  | boolean (value : Bool)
  | number (value : JsonNumber)
  | string (value : JsString)
  | array (values : List Json)
  | object (entries : List (JsString × Json))

/-- A new line at an indentation, where there is a gap. -/
def line (gap indent : ℕ) : Str := if gap = 0 then [] else '\n' :: List.replicate indent ' '

/-- What stands between a key and its value. -/
def colon (gap : ℕ) : Str := if gap = 0 then [':'] else [':', ' ']

mutual

/-- `JSON.stringify(value, null, gap)` at an indentation. -/
def Json.stringify (gap indent : ℕ) : Json → Str
  | .null => "null".toList
  | .boolean true => "true".toList
  | .boolean false => "false".toList
  | .number value => value.text
  | .string value => quoted value
  | .array [] => ['[', ']']
  | .array (value :: values) =>
    '[' :: (line gap (indent + gap) ++ (value.stringify gap (indent + gap) ++
      (items_text gap indent values ++ (line gap indent ++ [']']))))
  | .object [] => ['\x7b', '\x7d']
  | .object (entry :: entries) =>
    '\x7b' :: (line gap (indent + gap) ++ (member_text gap indent entry ++
      (members_text gap indent entries ++ (line gap indent ++ ['\x7d']))))

/-- The elements after the first. -/
def items_text (gap indent : ℕ) : List Json → Str
  | [] => []
  | value :: values =>
    ',' :: (line gap (indent + gap) ++ (value.stringify gap (indent + gap) ++
      items_text gap indent values))

/-- A member of an object. -/
def member_text (gap indent : ℕ) : JsString × Json → Str
  | (key, value) => quoted key ++ (colon gap ++ value.stringify gap (indent + gap))

/-- The members after the first. -/
def members_text (gap indent : ℕ) : List (JsString × Json) → Str
  | [] => []
  | entry :: entries =>
    ',' :: (line gap (indent + gap) ++ (member_text gap indent entry ++
      members_text gap indent entries))

end

/-- `JSON.stringify(value)`. -/
def compact (value : Json) : Str := value.stringify 0 0

/-! ## Quoted strings -/

/-- The code units of a code point. -/
def point_units : Char ⊕ UInt16 → JsString
  | .inl c => code_units c
  | .inr unit => [unit]

/-- A surrogate stands alone only as a surrogate. -/
def Proper : Char ⊕ UInt16 → Prop
  | .inl _ => True
  | .inr unit => 0xd800 ≤ unit.toNat ∧ unit.toNat ≤ 0xdfff

/-- The character behind a backslash. -/
def unescaped (c : Char) : Char :=
  if c = 'b' then Char.ofNat 0x08
  else if c = 'f' then Char.ofNat 0x0c
  else if c = 'n' then '\n'
  else if c = 'r' then '\r'
  else if c = 't' then '\t'
  else c

/-- The code point behind `\u`. -/
def read_unit (digits rest : Str) : Option ((Char ⊕ UInt16) × Str) :=
  match unhex_bytes digits with
  | some [high, low] =>
    if high.toNat * 256 + low.toNat < 0x20 then some (.inl (Char.ofNat low.toNat), rest)
    else some (.inr (UInt16.ofNat (high.toNat * 256 + low.toNat)), rest)
  | _ => none

/-- The first code point of a quoted text, and the rest of the text. -/
def read_point : Str → Option ((Char ⊕ UInt16) × Str)
  | '\\' :: 'u' :: a :: b :: c :: d :: rest => read_unit [a, b, c, d] rest
  | '\\' :: c :: rest => some (.inl (unescaped c), rest)
  | c :: rest => some (.inl c, rest)
  | [] => none

theorem read_unicode_escape (n : ℕ) (hn : n < 0x10000) (rest : Str) :
    read_point (unicode_escape n ++ rest) =
      some (if n < 0x20 then .inl (Char.ofNat n) else .inr (UInt16.ofNat n), rest) := by
  have hhigh : (UInt8.ofNat (n / 256)).toNat = n / 256 := by
    rw [UInt8.toNat_ofNat', Nat.mod_eq_of_lt (by omega)]
  have hlow : (UInt8.ofNat n).toNat = n % 256 := UInt8.toNat_ofNat'
  show read_unit (hex [UInt8.ofNat (n / 256), UInt8.ofNat n]) rest = _
  unfold read_unit
  rw [unhex_bytes_hex]
  dsimp only
  rw [hhigh, hlow]
  have hsum : n / 256 * 256 + n % 256 = n := by omega
  rw [hsum]
  by_cases hsmall : n < 0x20
  · rw [if_pos hsmall, if_pos hsmall, Nat.mod_eq_of_lt (by omega)]
  · rw [if_neg hsmall, if_neg hsmall]

theorem char_of_toNat {c : Char} {n : ℕ} (h : c.toNat = n) : c = Char.ofNat n := by
  rw [← h, Char.ofNat_toNat]

/-- A character that is not a backslash stands for itself. -/
theorem read_plain {c : Char} (h : c ≠ '\\') (rest : Str) :
    read_point (c :: rest) = some (.inl c, rest) := by
  unfold read_point
  split
  · rename_i heq
    exact absurd (List.cons.inj heq).1 h
  · rename_i heq
    exact absurd (List.cons.inj heq).1 h
  · rename_i heq
    obtain ⟨rfl, rfl⟩ := List.cons.inj heq
    rfl
  · rename_i heq
    exact absurd heq (by simp)

/-- A code point is read back from its quoted form. -/
theorem read_quoted_point {point : Char ⊕ UInt16} (h : Proper point) (rest : Str) :
    read_point (quoted_point point ++ rest) = some (point, rest) := by
  cases point with
  | inr unit =>
    obtain ⟨hlow, -⟩ := h
    show read_point (unicode_escape unit.toNat ++ rest) = _
    rw [read_unicode_escape _ unit.toNat_lt, if_neg (by omega), UInt16.ofNat_toNat]
  | inl c =>
    show read_point (quoted_char c ++ rest) = _
    unfold quoted_char
    by_cases hquote : c = '"'
    · rw [if_pos hquote, hquote]
      rfl
    rw [if_neg hquote]
    by_cases hback : c = '\\'
    · rw [if_pos hback, hback]
      rfl
    rw [if_neg hback]
    by_cases hb : c.toNat = 0x08
    · rw [if_pos hb, char_of_toNat hb]
      rfl
    rw [if_neg hb]
    by_cases hf : c.toNat = 0x0c
    · rw [if_pos hf, char_of_toNat hf]
      rfl
    rw [if_neg hf]
    by_cases hn : c = '\n'
    · rw [if_pos hn, hn]
      rfl
    rw [if_neg hn]
    by_cases hr : c = '\r'
    · rw [if_pos hr, hr]
      rfl
    rw [if_neg hr]
    by_cases ht : c = '\t'
    · rw [if_pos ht, ht]
      rfl
    rw [if_neg ht]
    by_cases hcontrol : c.toNat < 0x20
    · rw [if_pos hcontrol, read_unicode_escape _ (by omega), if_pos hcontrol, Char.ofNat_toNat]
    · rw [if_neg hcontrol]
      exact read_plain hback rest

/-- The quoted form of a code point does not begin with a quote. -/
theorem quoted_point_head (point : Char ⊕ UInt16) (rest rest' : Str) :
    quoted_point point ++ rest ≠ '"' :: rest' := by
  cases point with
  | inr unit => exact fun h => absurd (List.cons.inj h).1 (by decide)
  | inl c =>
    show quoted_char c ++ rest ≠ _
    unfold quoted_char unicode_escape
    split_ifs with hquote
    all_goals intro h; have hhead := (List.cons.inj h).1
    all_goals first | exact absurd hhead (by decide) | exact hquote hhead

/-- **Code points.** Two texts of code points end at the same quote. -/
theorem points_delimited {points points' : List (Char ⊕ UInt16)} {rest rest' : Str}
    (h : ∀ point ∈ points, Proper point) (h' : ∀ point ∈ points', Proper point)
    (heq : points.flatMap quoted_point ++ '"' :: rest = points'.flatMap quoted_point ++ '"' :: rest') :
    points = points' ∧ rest = rest' := by
  induction points generalizing points' with
  | nil =>
    cases points' with
    | nil => exact ⟨rfl, (List.cons.inj heq).2⟩
    | cons point' points' =>
      rw [List.flatMap_cons, List.append_assoc] at heq
      exact absurd heq.symm (quoted_point_head _ _ _)
  | cons point points ih =>
    rw [List.flatMap_cons, List.append_assoc] at heq
    cases points' with
    | nil => exact absurd heq (quoted_point_head _ _ _)
    | cons point' points' =>
      rw [List.flatMap_cons, List.append_assoc] at heq
      have hread := read_quoted_point (h point List.mem_cons_self)
        (points.flatMap quoted_point ++ '"' :: rest)
      rw [heq, read_quoted_point (h' point' List.mem_cons_self), Option.some.injEq,
        Prod.mk.injEq] at hread
      obtain ⟨hpoint, hrest⟩ := hread
      obtain ⟨hpoints, hend⟩ := ih (fun q hq => h q (List.mem_cons_of_mem _ hq))
        (fun q hq => h' q (List.mem_cons_of_mem _ hq)) hrest.symm
      exact ⟨by rw [hpoint, hpoints], hend⟩

/-! ## Strings and their code points -/

theorem toNat_ofNat_char {n : ℕ} (h : n.isValidChar) : (Char.ofNat n).toNat = n := by
  unfold Char.ofNat
  rw [dif_pos h]
  rfl

/-- A unit that is not a surrogate is a character. -/
theorem code_units_single {unit : UInt16} (hhigh : is_high_surrogate unit = false)
    (hlow : is_low_surrogate unit = false) : code_units (Char.ofNat unit.toNat) = [unit] := by
  have hlt := unit.toNat_lt
  have hvalid : unit.toNat.isValidChar := by
    unfold is_high_surrogate at hhigh
    unfold is_low_surrogate at hlow
    rw [decide_eq_false_iff_not] at hhigh hlow
    unfold Nat.isValidChar
    omega
  unfold code_units
  rw [toNat_ofNat_char hvalid, if_pos (by omega), UInt16.ofNat_toNat]

/-- A pair of surrogates is a character. -/
theorem code_units_paired {high low : UInt16} (hhigh : is_high_surrogate high = true)
    (hlow : is_low_surrogate low = true) : code_units (paired high low) = [high, low] := by
  unfold is_high_surrogate at hhigh
  unfold is_low_surrogate at hlow
  rw [decide_eq_true_iff] at hhigh hlow
  have hvalid : (0x10000 + (high.toNat - 0xd800) * 0x400 + (low.toNat - 0xdc00)).isValidChar := by
    unfold Nat.isValidChar
    omega
  unfold code_units paired
  rw [toNat_ofNat_char hvalid, if_neg (by omega)]
  have h₁ : 0xd800 + (0x10000 + (high.toNat - 0xd800) * 0x400 + (low.toNat - 0xdc00) - 0x10000) /
      0x400 = high.toNat := by omega
  have h₂ : 0xdc00 + (0x10000 + (high.toNat - 0xd800) * 0x400 + (low.toNat - 0xdc00) - 0x10000) %
      0x400 = low.toNat := by omega
  rw [h₁, h₂, UInt16.ofNat_toNat, UInt16.ofNat_toNat]

theorem proper_surrogate {unit : UInt16}
    (h : is_high_surrogate unit = true ∨ is_low_surrogate unit = true) : Proper (.inr unit) := by
  unfold is_high_surrogate is_low_surrogate at h
  rw [decide_eq_true_iff, decide_eq_true_iff] at h
  show 0xd800 ≤ unit.toNat ∧ unit.toNat ≤ 0xdfff
  omega

/-- **The code points of a string** give its units back, and what is left over are surrogates. -/
theorem code_points_spec (value : JsString) :
    (code_points value).flatMap point_units = value ∧ ∀ point ∈ code_points value, Proper point := by
  fun_induction code_points value with
  | case1 => exact ⟨rfl, by simp⟩
  | case2 unit h =>
    rw [Bool.or_eq_true] at h
    exact ⟨rfl, by simpa using proper_surrogate h⟩
  | case3 unit h =>
    simp only [Bool.or_eq_true, not_or, Bool.not_eq_true] at h
    refine ⟨?_, by simp [Proper]⟩
    rw [List.flatMap_singleton]
    exact code_units_single h.1 h.2
  | case4 unit next rest hhigh hlow ih =>
    refine ⟨?_, ?_⟩
    · rw [List.flatMap_cons, ih.1]
      show code_units (paired unit next) ++ rest = _
      rw [code_units_paired hhigh hlow]
      rfl
    · simpa [Proper] using ih.2
  | case5 unit next rest hhigh _ ih =>
    refine ⟨?_, ?_⟩
    · rw [List.flatMap_cons, ih.1]
      rfl
    · simpa only [List.forall_mem_cons] using ⟨proper_surrogate (.inl hhigh), ih.2⟩
  | case6 unit next rest _ hlow ih =>
    refine ⟨?_, ?_⟩
    · rw [List.flatMap_cons, ih.1]
      rfl
    · simpa only [List.forall_mem_cons] using ⟨proper_surrogate (.inr hlow), ih.2⟩
  | case7 unit next rest hhigh hlow ih =>
    rw [Bool.not_eq_true] at hhigh hlow
    refine ⟨?_, ?_⟩
    · rw [List.flatMap_cons, ih.1]
      show code_units (Char.ofNat unit.toNat) ++ _ = _
      rw [code_units_single hhigh hlow]
      rfl
    · simpa [Proper] using ih.2

/-- **Quoted strings** end at their last quote. -/
theorem quoted_delimited : Delimited (fun _ : JsString => True) quoted := by
  intro value value' rest rest' _ _ h
  unfold quoted at h
  simp only [List.cons_append, List.append_assoc, List.nil_append, List.cons.injEq, true_and] at h
  obtain ⟨hpoints, hrest⟩ := points_delimited (code_points_spec value).2 (code_points_spec value').2 h
  refine ⟨?_, hrest⟩
  rw [← (code_points_spec value).1, hpoints, (code_points_spec value').1]

/-! ## Compact texts -/

/-- A text that does not continue a number. -/
def EndsNumber (rest : Str) : Prop := ∀ c rest', rest = c :: rest' → number_char c = false

theorem ends_cons {c : Char} {rest : Str} (h : number_char c = false) : EndsNumber (c :: rest) := by
  intro c' rest' heq
  rw [← (List.cons.inj heq).1]
  exact h

/-- The kind of a value, and the kind that its first character announces. -/
def Json.kind : Json → ℕ
  | .null => 0
  | .boolean _ => 1
  | .number _ => 2
  | .string _ => 3
  | .array _ => 4
  | .object _ => 5

def kind_of_char (c : Char) : ℕ :=
  if c = 'n' then 0
  else if c = 't' ∨ c = 'f' then 1
  else if c = '"' then 3
  else if c = '[' then 4
  else if c = '\x7b' then 5
  else 2

theorem kind_of_number_char {c : Char} (h : number_char c = true) : kind_of_char c = 2 := by
  have hother : ∀ d ∈ ['n', 't', 'f', '"', '[', '\x7b'], number_char d = false := by decide
  have hne : ∀ d ∈ ['n', 't', 'f', '"', '[', '\x7b'], c ≠ d := by
    intro d hd heq
    rw [heq, hother d hd] at h
    exact absurd h (by decide)
  unfold kind_of_char
  rw [if_neg (hne _ (by simp)), if_neg, if_neg (hne _ (by simp)), if_neg (hne _ (by simp)),
    if_neg (hne _ (by simp))]
  rintro (hc | hc)
  · exact hne _ (by simp) hc
  · exact hne _ (by simp) hc

/-- A text tells the kind of its value, and is not the end of a list. -/
theorem compact_kind (value : Json) (gap indent : ℕ) :
    ∃ c rest, value.stringify gap indent = c :: rest ∧ kind_of_char c = value.kind ∧ c ≠ ']' := by
  cases value with
  | null => exact ⟨'n', _, rfl, rfl, by decide⟩
  | boolean value =>
    cases value with
    | true => exact ⟨'t', _, rfl, rfl, by decide⟩
    | false => exact ⟨'f', _, rfl, rfl, by decide⟩
  | number value =>
    obtain ⟨text, hnonempty, hplain⟩ := value
    cases text with
    | nil => exact absurd rfl hnonempty
    | cons c text =>
      have hc := hplain c List.mem_cons_self
      refine ⟨c, text, rfl, kind_of_number_char hc, ?_⟩
      intro heq
      rw [heq] at hc
      exact absurd hc (by decide)
  | string value => exact ⟨'"', _, rfl, rfl, by decide⟩
  | array values => cases values <;> exact ⟨'[', _, rfl, rfl, by decide⟩
  | object entries => cases entries <;> exact ⟨'\x7b', _, rfl, rfl, by decide⟩

theorem kind_eq_of_texts {value value' : Json} {gap indent : ℕ} {rest rest' : Str}
    (h : value.stringify gap indent ++ rest = value'.stringify gap indent ++ rest') :
    value.kind = value'.kind := by
  obtain ⟨c, text, htext, hc, -⟩ := compact_kind value gap indent
  obtain ⟨c', text', htext', hc', -⟩ := compact_kind value' gap indent
  rw [htext, htext'] at h
  rw [← hc, ← hc', (List.cons.inj h).1]

/-- A number ends where its characters do. -/
theorem number_delimited {n n' : JsonNumber} {rest rest' : Str} (hrest : EndsNumber rest)
    (hrest' : EndsNumber rest') (h : n.text ++ rest = n'.text ++ rest') : n = n' ∧ rest = rest' := by
  have hspan (m : JsonNumber) {tail : Str} (htail : EndsNumber tail) :
      (m.text ++ tail).takeWhile number_char = m.text := by
    rw [List.takeWhile_append_of_pos m.plain]
    cases tail with
    | nil => simp
    | cons c tail => rw [List.takeWhile_cons_of_neg (by simp [htail c tail rfl]), List.append_nil]
  have htext : n.text = n'.text := by rw [← hspan n hrest, h, hspan n' hrest']
  refine ⟨?_, ?_⟩
  · obtain ⟨text, _, _⟩ := n
    obtain ⟨text', _, _⟩ := n'
    have : text = text' := htext
    subst this
    rfl
  · rw [htext] at h
    exact List.append_cancel_left h

/-! The texts of lists without a gap, in front of anything. -/

theorem compact_array (value : Json) (values : List Json) (rest : Str) :
    (Json.array (value :: values)).stringify 0 0 ++ rest =
      '[' :: (value.stringify 0 0 ++ (items_text 0 0 values ++ ']' :: rest)) := by
  simp [Json.stringify, line]

theorem compact_items (value : Json) (values : List Json) (rest : Str) :
    items_text 0 0 (value :: values) ++ rest =
      ',' :: (value.stringify 0 0 ++ (items_text 0 0 values ++ rest)) := by
  simp [items_text, line]

theorem compact_member (key : JsString) (value : Json) (rest : Str) :
    member_text 0 0 (key, value) ++ rest = quoted key ++ (':' :: (value.stringify 0 0 ++ rest)) := by
  simp [member_text, colon]

theorem compact_object (entry : JsString × Json) (entries : List (JsString × Json)) (rest : Str) :
    (Json.object (entry :: entries)).stringify 0 0 ++ rest =
      '\x7b' :: (member_text 0 0 entry ++ (members_text 0 0 entries ++ '\x7d' :: rest)) := by
  simp [Json.stringify, line]

theorem compact_members (entry : JsString × Json) (entries : List (JsString × Json)) (rest : Str) :
    members_text 0 0 (entry :: entries) ++ rest =
      ',' :: (member_text 0 0 entry ++ (members_text 0 0 entries ++ rest)) := by
  simp [members_text, line]

theorem ends_items (values : List Json) (rest : Str) :
    EndsNumber (items_text 0 0 values ++ ']' :: rest) := by
  cases values with
  | nil => exact ends_cons (by decide)
  | cons value values => exact compact_items value values _ ▸ ends_cons (by decide)

theorem ends_members (entries : List (JsString × Json)) (rest : Str) :
    EndsNumber (members_text 0 0 entries ++ '\x7d' :: rest) := by
  cases entries with
  | nil => exact ends_cons (by decide)
  | cons entry entries => exact compact_members entry entries _ ▸ ends_cons (by decide)

theorem stringify_ne_bracket (value : Json) (rest rest' : Str) :
    value.stringify 0 0 ++ rest ≠ ']' :: rest' := by
  obtain ⟨c, text, htext, -, hne⟩ := compact_kind value 0 0
  rw [htext]
  exact fun h => hne (List.cons.inj h).1

theorem member_ne_brace (entry : JsString × Json) (rest rest' : Str) :
    member_text 0 0 entry ++ rest ≠ '\x7d' :: rest' := by
  rw [compact_member entry.1 entry.2]
  exact fun h => absurd (List.cons.inj h).1 (by decide)

mutual

/-- **Compact texts** are cut off in one way. -/
theorem stringify_delimited (value value' : Json) {rest rest' : Str} (hrest : EndsNumber rest)
    (hrest' : EndsNumber rest') (h : value.stringify 0 0 ++ rest = value'.stringify 0 0 ++ rest') :
    value = value' ∧ rest = rest' := by
  have hkind := kind_eq_of_texts h
  match value, value' with
  | .null, .null => exact ⟨rfl, List.append_cancel_left h⟩
  | .boolean b, .boolean b' =>
    cases b <;> cases b'
    · exact ⟨rfl, List.append_cancel_left h⟩
    · exact absurd (List.cons.inj h).1 (by decide)
    · exact absurd (List.cons.inj h).1 (by decide)
    · exact ⟨rfl, List.append_cancel_left h⟩
  | .number n, .number n' =>
    obtain ⟨hn, hend⟩ := number_delimited hrest hrest' h
    exact ⟨by rw [hn], hend⟩
  | .string s, .string s' =>
    obtain ⟨hs, hend⟩ := quoted_delimited s s' rest rest' trivial trivial h
    exact ⟨by rw [hs], hend⟩
  | .array [], .array [] => exact ⟨rfl, List.append_cancel_left h⟩
  | .array [], .array (value' :: values') =>
    rw [compact_array] at h
    exact absurd (List.cons.inj h).2.symm (stringify_ne_bracket _ _ _)
  | .array (value :: values), .array [] =>
    rw [compact_array] at h
    exact absurd (List.cons.inj h).2 (stringify_ne_bracket _ _ _)
  | .array (value :: values), .array (value' :: values') =>
    rw [compact_array, compact_array] at h
    obtain ⟨hvalue, htail⟩ := stringify_delimited value value' (ends_items _ _) (ends_items _ _)
      (List.cons.inj h).2
    obtain ⟨hvalues, hend⟩ := items_delimited values values' htail
    exact ⟨by rw [hvalue, hvalues], hend⟩
  | .object [], .object [] => exact ⟨rfl, List.append_cancel_left h⟩
  | .object [], .object (entry' :: entries') =>
    rw [compact_object] at h
    exact absurd (List.cons.inj h).2.symm (member_ne_brace _ _ _)
  | .object (entry :: entries), .object [] =>
    rw [compact_object] at h
    exact absurd (List.cons.inj h).2 (member_ne_brace _ _ _)
  | .object ((key, value) :: entries), .object ((key', value') :: entries') =>
    rw [compact_object, compact_object, compact_member, compact_member] at h
    obtain ⟨hkey, htail⟩ := quoted_delimited key key' _ _ trivial trivial (List.cons.inj h).2
    obtain ⟨hvalue, htail⟩ := stringify_delimited value value' (ends_members _ _) (ends_members _ _)
      (List.cons.inj htail).2
    obtain ⟨hentries, hend⟩ := members_delimited entries entries' htail
    exact ⟨by rw [hkey, hvalue, hentries], hend⟩

/-- The elements after the first. -/
theorem items_delimited (values values' : List Json) {rest rest' : Str}
    (h : items_text 0 0 values ++ ']' :: rest = items_text 0 0 values' ++ ']' :: rest') :
    values = values' ∧ rest = rest' := by
  match values, values' with
  | [], [] => exact ⟨rfl, (List.cons.inj h).2⟩
  | [], value' :: values' =>
    rw [compact_items] at h
    exact absurd (List.cons.inj h).1 (by decide)
  | value :: values, [] =>
    rw [compact_items] at h
    exact absurd (List.cons.inj h).1 (by decide)
  | value :: values, value' :: values' =>
    rw [compact_items, compact_items] at h
    obtain ⟨hvalue, htail⟩ := stringify_delimited value value' (ends_items _ _) (ends_items _ _)
      (List.cons.inj h).2
    obtain ⟨hvalues, hend⟩ := items_delimited values values' htail
    exact ⟨by rw [hvalue, hvalues], hend⟩

/-- The members after the first. -/
theorem members_delimited (entries entries' : List (JsString × Json)) {rest rest' : Str}
    (h : members_text 0 0 entries ++ '\x7d' :: rest = members_text 0 0 entries' ++ '\x7d' :: rest') :
    entries = entries' ∧ rest = rest' := by
  match entries, entries' with
  | [], [] => exact ⟨rfl, (List.cons.inj h).2⟩
  | [], entry' :: entries' =>
    rw [compact_members] at h
    exact absurd (List.cons.inj h).1 (by decide)
  | entry :: entries, [] =>
    rw [compact_members] at h
    exact absurd (List.cons.inj h).1 (by decide)
  | (key, value) :: entries, (key', value') :: entries' =>
    rw [compact_members, compact_members, compact_member, compact_member] at h
    obtain ⟨hkey, htail⟩ := quoted_delimited key key' _ _ trivial trivial (List.cons.inj h).2
    obtain ⟨hvalue, htail⟩ := stringify_delimited value value' (ends_members _ _) (ends_members _ _)
      (List.cons.inj htail).2
    obtain ⟨hentries, hend⟩ := members_delimited entries entries' htail
    exact ⟨by rw [hkey, hvalue, hentries], hend⟩

end

/-- **`JSON.stringify`** tells values apart. -/
theorem compact_injective : Function.Injective compact := by
  intro value value' h
  have hends : EndsNumber [] := fun _ _ hnil => absurd hnil (by simp)
  exact (stringify_delimited value value' hends hends (congrArg (· ++ []) h)).1

end LeanBun.Documents
