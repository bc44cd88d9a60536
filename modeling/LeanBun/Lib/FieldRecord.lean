/-
Records of named fields, one to a line.

A header line, a line `name<TAB>value` for every field, and an end line. A
reader refuses a value that is empty or holds a control character, so what a
writer may put into a field is exactly a text without these: such a record is
read back, and another record with the same text has the same fields.
-/
import LeanBun.Lib.Text

set_option autoImplicit false

namespace LeanBun.Lib

/-- A value that `field_value` returns. -/
def clean_value (value : Str) : Bool := !value.isEmpty && !value.any is_control

/-- One line of the record. -/
def field_line (name value : Str) : Str := name ++ '\t' :: value

/-- `field_value`: the value of the line, if the line has that name. -/
def field_value (name line : Str) : Option Str :=
  (( strip_prefix name line).bind ( strip_prefix ['\t'])).filter clean_value

/-- The lines of a record. -/
def field_record_lines (header footer : Str) (fields : List (Str × Str)) : List Str :=
  header :: fields.map (fun field => field_line field.1 field.2) ++ [footer]

/-- The text of a record. -/
def field_record (header footer : Str) (fields : List (Str × Str)) : Str :=
  unlines (field_record_lines header footer fields)

theorem field_value_field_line (name value : Str) :
    field_value name (field_line name value) = if clean_value value = true then some value else none := by
  unfold field_value field_line
  rw [ strip_prefix_append, Option.bind_some, show '\t' :: value = ['\t'] ++ value from rfl,
    strip_prefix_append, Option.filter_some]

theorem clean_value_not_control {value : Str} (h : clean_value value = true) :
    ∀ c ∈ value, is_control c = false := by
  unfold clean_value at h
  rw [Bool.and_eq_true] at h
  intro c hc
  have hnone := h.2
  rw [Bool.not_eq_true', List.any_eq_false] at hnone
  exact Bool.eq_false_iff.mpr (hnone c hc)

theorem clean_value_token {value : Str} (h : clean_value value = true) : IsToken value :=
  IsToken.not_control (clean_value_not_control h)

theorem clean_value_of {value : Str} (hne : value ≠ []) (h : ∀ c ∈ value, is_control c = false) :
    clean_value value = true := by
  unfold clean_value
  rw [Bool.and_eq_true, Bool.not_eq_true', Bool.not_eq_true']
  refine ⟨List.isEmpty_eq_false_iff.mpr hne, List.any_eq_false.mpr fun c hc => ?_⟩
  rw [h c hc]
  exact Bool.false_ne_true

/-- A line that a value was read from is the line of that value. -/
theorem field_value_eq_some {name line value : Str} (h : field_value name line = some value) :
    line = field_line name value ∧ clean_value value = true := by
  unfold field_value at h
  rw [Option.filter_eq_some_iff] at h
  obtain ⟨hstrip, hclean⟩ := h
  rw [Option.bind_eq_some_iff] at hstrip
  obtain ⟨rest, hname, htab⟩ := hstrip
  refine ⟨?_, hclean⟩
  rw [ strip_prefix_eq_some hname, strip_prefix_eq_some htab]
  rfl

/-! ## Reading back -/

section FieldRecord

variable {header footer : Str} {fields : List (Str × Str)}

/-- Nothing in front of the values ends a line. -/
structure PlainFrame (header footer : Str) (names : List Str) : Prop where
  header_plain : '\n' ∉ header ∧ '\r' ∉ header
  footer_plain : '\n' ∉ footer ∧ '\r' ∉ footer
  names_plain : ∀ name ∈ names, '\n' ∉ name ∧ '\r' ∉ name

theorem field_line_plain {name value : Str} (hname : '\n' ∉ name ∧ '\r' ∉ name)
    (hvalue : IsToken value) : '\n' ∉ field_line name value ∧ '\r' ∉ field_line name value := by
  unfold field_line
  simp only [List.mem_append, List.mem_cons, not_or]
  exact ⟨⟨hname.1, by decide, hvalue.not_mem (by decide)⟩,
    hname.2, by decide, hvalue.not_mem (by decide)⟩

/-- **A clean record is read back line by line.** -/
theorem lines_field_record (hframe : PlainFrame header footer (fields.map Prod.fst))
    (hclean : ∀ field ∈ fields, IsToken field.2) :
    lines (field_record header footer fields) = field_record_lines header footer fields := by
  refine lines_unlines _ fun l hl => ?_
  rcases List.mem_append.mp hl with hl | hl
  · rcases List.mem_cons.mp hl with rfl | hl
    · exact hframe.header_plain
    · obtain ⟨field, hfield, rfl⟩ := List.mem_map.mp hl
      exact field_line_plain (hframe.names_plain _ (List.mem_map_of_mem hfield))
        (hclean field hfield)
  · rw [List.mem_singleton.mp hl]
    exact hframe.footer_plain

theorem count_unlines (ls : List Str) :
    (unlines ls).count '\n' = ls.length + (ls.map (List.count '\n')).sum := by
  induction ls with
  | nil => rfl
  | cons l ls ih =>
    have hsplit : unlines (l :: ls) = l ++ '\n' :: unlines ls := by
      unfold unlines
      rw [List.flatMap_cons, List.append_assoc]
      rfl
    rw [hsplit, List.count_append, List.count_cons_self, ih, List.map_cons, List.sum_cons,
      List.length_cons]
    omega

/-- **The text determines the values.** Even when only one of two records with the
same names has plain values: the number of line ends tells that the other one
has, too. -/
theorem field_record_injective {fields' : List (Str × Str)}
    (hnames : fields.map Prod.fst = fields'.map Prod.fst)
    (hframe : PlainFrame header footer (fields.map Prod.fst))
    (hplain : ∀ field ∈ fields, '\n' ∉ field.2)
    (h : field_record header footer fields = field_record header footer fields') :
    fields = fields' := by
  have hlines : ∀ l ∈ field_record_lines header footer fields, '\n' ∉ l := by
    intro l hl
    rcases List.mem_append.mp hl with hl | hl
    · rcases List.mem_cons.mp hl with rfl | hl
      · exact hframe.header_plain.1
      · obtain ⟨field, hfield, rfl⟩ := List.mem_map.mp hl
        unfold field_line
        simp only [List.mem_append, List.mem_cons, not_or]
        exact ⟨(hframe.names_plain _ (List.mem_map_of_mem hfield)).1, by decide,
          hplain field hfield⟩
    · rw [List.mem_singleton.mp hl]
      exact hframe.footer_plain.1
  have hlength : (field_record_lines header footer fields).length =
      (field_record_lines header footer fields').length := by
    have hlen := congrArg List.length hnames
    rw [List.length_map, List.length_map] at hlen
    simp only [field_record_lines, List.length_append, List.length_cons, List.length_map,
      List.length_nil, hlen]
  -- Neither text has a line end inside a line.
  have hzero : ((field_record_lines header footer fields).map (List.count '\n')).sum = 0 := by
    rw [List.sum_eq_zero_iff_forall_eq_nat]
    intro n hn
    obtain ⟨l, hl, rfl⟩ := List.mem_map.mp hn
    exact List.count_eq_zero.mpr (hlines l hl)
  have hcount := congrArg (List.count '\n') h
  unfold field_record at hcount
  rw [count_unlines, count_unlines, hzero, hlength] at hcount
  have hzero' : ((field_record_lines header footer fields').map (List.count '\n')).sum = 0 := by
    omega
  have hlines' : ∀ l ∈ field_record_lines header footer fields', '\n' ∉ l := by
    intro l hl
    rw [List.sum_eq_zero_iff_forall_eq_nat] at hzero'
    exact List.count_eq_zero.mp (hzero' _ (List.mem_map_of_mem hl))
  have hsplit := congrArg (split '\n') h
  unfold field_record at hsplit
  rw [split_unlines _ hlines, split_unlines _ hlines'] at hsplit
  have heq := List.append_cancel_right hsplit
  unfold field_record_lines at heq
  have hfields := List.append_cancel_right heq
  rw [List.cons.injEq] at hfields
  clear hlength hlines hlines' hzero hzero' hcount hsplit heq h hframe hplain
  obtain ⟨-, hfields⟩ := hfields
  induction fields generalizing fields' with
  | nil =>
    cases fields' with
    | nil => rfl
    | cons field fields' => cases hnames
  | cons field fields ih =>
    cases fields' with
    | nil => cases hnames
    | cons field' fields' =>
      rw [List.map_cons, List.map_cons, List.cons.injEq] at hnames hfields
      obtain ⟨hname, hnames⟩ := hnames
      obtain ⟨hline, hfields⟩ := hfields
      unfold field_line at hline
      rw [hname] at hline
      have hvalue := (List.cons.inj (List.append_cancel_left hline)).2
      rw [ih hnames hfields, Prod.ext hname hvalue]

end FieldRecord

/-! ## The size of a record -/

theorem byte_len_field_line (name value : Str) :
    byte_len (field_line name value) = byte_len name + byte_len value + 1 := by
  have htab : byte_len ('\t' :: value) = 1 + byte_len value := byte_len_append ['\t'] value
  unfold field_line
  rw [byte_len_append, htab]
  omega

theorem byte_len_unlines (ls : List Str) :
    byte_len (unlines ls) = (ls.map fun l => byte_len l + 1).sum := by
  induction ls with
  | nil => rfl
  | cons l ls ih =>
    have hline : byte_len (l ++ ['\n']) = byte_len l + 1 := byte_len_append l ['\n']
    show byte_len ((l ++ ['\n']) ++ unlines ls) = _
    rw [byte_len_append, hline, ih, List.map_cons, List.sum_cons]

theorem byte_len_unlines_le {ls : List Str} {b : ℕ} (h : ∀ l ∈ ls, byte_len l < b) :
    byte_len (unlines ls) ≤ ls.length * b := by
  induction ls with
  | nil => exact Nat.zero_le _
  | cons l ls ih =>
    have hone := h l List.mem_cons_self
    have hrest := ih fun l' hl' => h l' (List.mem_cons_of_mem _ hl')
    rw [byte_len_unlines] at hrest ⊢
    rw [List.map_cons, List.sum_cons, List.length_cons, Nat.succ_mul]
    omega

/-- A record takes the bytes of its names and values, and two more for each line. -/
theorem byte_len_field_record (header footer : Str) (fields : List (Str × Str)) :
    byte_len (field_record header footer fields) = byte_len header + byte_len footer + 2 +
      (fields.map fun field => byte_len field.1 + byte_len field.2 + 2).sum := by
  have hbody : fields.map ((fun l => byte_len l + 1) ∘ fun field => field_line field.1 field.2) =
      fields.map fun field => byte_len field.1 + byte_len field.2 + 2 := by
    refine List.map_congr_left fun field _ => ?_
    show byte_len (field_line field.1 field.2) + 1 = _
    rw [byte_len_field_line]
  unfold field_record field_record_lines
  rw [byte_len_unlines, List.map_append, List.sum_append, List.map_cons, List.sum_cons,
    List.map_map, hbody]
  simp only [List.map_cons, List.map_nil, List.sum_cons, List.sum_nil]
  omega

end LeanBun.Lib
