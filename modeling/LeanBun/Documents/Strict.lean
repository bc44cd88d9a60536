/-
Documents that are read on the other side.

What `JSON.stringify` writes is read by the strict reader of the crates. Its strings are
texts of Unicode scalar values, so a value has a counterpart there only if its surrogates
come in pairs, its numbers are JSON numbers and no object names a member twice, and then
the counterpart is what is read, whatever the indentation.
-/
import LeanBun.Bridge.ProjectionText
import LeanBun.Documents.Json

set_option autoImplicit false

namespace LeanBun.Documents

open LeanBun.Lib LeanBun.Core LeanBun.Execution LeanBun.Codec
open LeanBun.Bridge (json_char json_string json_char_piece)

/-! ## Strings -/

/-- A unit that is no surrogate is a code point of its own, whatever follows. -/
theorem code_points_unit {unit : UInt16} (hhigh : is_high_surrogate unit = false)
    (hlow : is_low_surrogate unit = false) (rest : JsString) :
    code_points (unit :: rest) = .inl (Char.ofNat unit.toNat) :: code_points rest := by
  cases rest with
  | nil => simp [code_points, hhigh, hlow]
  | cons next rest => simp [code_points, hhigh, hlow]

theorem code_points_pair {high low : UInt16} (hhigh : is_high_surrogate high = true)
    (hlow : is_low_surrogate low = true) (rest : JsString) :
    code_points (high :: low :: rest) = .inl (paired high low) :: code_points rest := by
  simp [code_points, hhigh, hlow]

/-- The units of a character are its code point. -/
theorem code_points_char (c : Char) (rest : JsString) :
    code_points (code_units c ++ rest) = .inl c :: code_points rest := by
  have hvalid : c.toNat < 0xd800 ∨ 0xdfff < c.toNat ∧ c.toNat < 0x110000 := c.valid
  unfold code_units
  by_cases hsmall : c.toNat < 0x10000
  · have hunit : (UInt16.ofNat c.toNat).toNat = c.toNat := by
      rw [UInt16.toNat_ofNat', Nat.mod_eq_of_lt hsmall]
    rw [if_pos hsmall, List.singleton_append, code_points_unit, hunit, Char.ofNat_toNat]
    · unfold is_high_surrogate
      rw [hunit, decide_eq_false_iff_not]
      omega
    · unfold is_low_surrogate
      rw [hunit, decide_eq_false_iff_not]
      omega
  · have hhigh : (UInt16.ofNat (0xd800 + (c.toNat - 0x10000) / 0x400)).toNat =
        0xd800 + (c.toNat - 0x10000) / 0x400 := by
      rw [UInt16.toNat_ofNat', Nat.mod_eq_of_lt (by omega)]
    have hlow : (UInt16.ofNat (0xdc00 + (c.toNat - 0x10000) % 0x400)).toNat =
        0xdc00 + (c.toNat - 0x10000) % 0x400 := by
      rw [UInt16.toNat_ofNat', Nat.mod_eq_of_lt (by omega)]
    have hpaired : paired (UInt16.ofNat (0xd800 + (c.toNat - 0x10000) / 0x400))
        (UInt16.ofNat (0xdc00 + (c.toNat - 0x10000) % 0x400)) = c := by
      unfold paired
      rw [hhigh, hlow]
      have hsum : 0x10000 + (0xd800 + (c.toNat - 0x10000) / 0x400 - 0xd800) * 0x400 +
          (0xdc00 + (c.toNat - 0x10000) % 0x400 - 0xdc00) = c.toNat := by omega
      rw [hsum, Char.ofNat_toNat]
    rw [if_neg hsmall, List.cons_append, List.singleton_append, code_points_pair, hpaired]
    · unfold is_high_surrogate
      rw [hhigh, decide_eq_true_iff]
      omega
    · unfold is_low_surrogate
      rw [hlow, decide_eq_true_iff]
      omega

/-- **A text** has its characters for code points. -/
theorem code_points_js_text (text : Str) : code_points (js_text text) = text.map Sum.inl := by
  induction text with
  | nil => rfl
  | cons c text ih =>
    show code_points (code_units c ++ js_text text) = _
    rw [code_points_char, ih]
    rfl

theorem js_text_injective : Function.Injective js_text := by
  intro a b h
  have hpoints := congrArg code_points h
  rw [code_points_js_text, code_points_js_text] at hpoints
  exact List.map_injective_iff.mpr Sum.inl_injective hpoints

/-- The escapes of `JSON.stringify` are those of the bridge. -/
theorem quoted_char_eq (c : Char) : quoted_char c = json_char c := by
  have hb : c.toNat = 0x08 ↔ c = '\x08' := ⟨fun h => char_of_toNat h, fun h => by rw [h]; rfl⟩
  have hf : c.toNat = 0x0c ↔ c = '\x0c' := ⟨fun h => char_of_toNat h, fun h => by rw [h]; rfl⟩
  unfold quoted_char json_char
  simp only [hb, hf]
  by_cases hcontrol : c.toNat < 0x20
  · have hescape : unicode_escape c.toNat = "\\u00".toList ++ hex [UInt8.ofNat c.toNat] := by
      unfold unicode_escape
      have hzero : UInt8.ofNat (c.toNat / 256) = 0 := by rw [Nat.div_eq_of_lt (by omega)]; rfl
      rw [hzero]
      rfl
    rw [if_pos hcontrol, if_pos hcontrol, hescape]
    rfl
  · rw [if_neg hcontrol, if_neg hcontrol]
    rfl

/-- The quoted form of a text. -/
theorem quoted_js_text (text : Str) : quoted (js_text text) = json_string text := by
  unfold quoted json_string
  rw [code_points_js_text, List.flatMap_map]
  have hpoint : ∀ c : Char, quoted_point (.inl c) = json_char c := quoted_char_eq
  simp only [hpoint]

theorem quoted_text (text : Str) : StringText Nothing (quoted (js_text text)) text := by
  rw [quoted_js_text]
  exact string_text_of_pieces json_char_piece text

/-! ## Values -/

mutual

/-- The counterpart of a value. -/
def Json.Denotes : Json → StrictJson → Prop
  | .null, v => v = .Null
  | .boolean value, v => v = .Bool value
  | .number value, v => NumberText value.text ∧ v = .Number ⟨value.text⟩
  | .string value, v => ∃ text, value = js_text text ∧ v = .String text
  | .array values, v => ∃ elements, ItemsDenote values elements ∧ v = .Array elements
  | .object entries, v => ∃ members, MembersDenote entries members ∧
      (members.map Prod.fst).Nodup ∧ v = .Object (btree_map members)

def ItemsDenote : List Json → List StrictJson → Prop
  | [], elements => elements = []
  | value :: values, elements =>
    ∃ v rest, value.Denotes v ∧ ItemsDenote values rest ∧ elements = v :: rest

def MembersDenote : List (JsString × Json) → List (Str × StrictJson) → Prop
  | [], members => members = []
  | (key, value) :: entries, members => ∃ name v rest, key = js_text name ∧ value.Denotes v ∧
      MembersDenote entries rest ∧ members = (name, v) :: rest

end

theorem items_denote_iff {values : List Json} {elements : List StrictJson} :
    ItemsDenote values elements ↔ List.Forall₂ Json.Denotes values elements := by
  induction values generalizing elements with
  | nil => simp [ItemsDenote]
  | cons value values ih => simp only [ItemsDenote, ih, List.forall₂_cons_left_iff]

theorem members_denote_iff {entries : List (JsString × Json)} {members : List (Str × StrictJson)} :
    MembersDenote entries members ↔ List.Forall₂
      (fun entry member => entry.1 = js_text member.1 ∧ entry.2.Denotes member.2) entries members := by
  induction entries generalizing members with
  | nil => simp [MembersDenote]
  | cons entry entries ih =>
    simp only [MembersDenote, ih, List.forall₂_cons_left_iff]
    grind

mutual

/-- **A value has one counterpart**, since a text is known by its units. -/
theorem denotes_unique (value : Json) {v w : StrictJson} (hv : value.Denotes v)
    (hw : value.Denotes w) : v = w := by
  match value, hv, hw with
  | .null, hv, hw =>
    unfold Json.Denotes at hv hw
    rw [hv, hw]
  | .boolean value, hv, hw =>
    unfold Json.Denotes at hv hw
    rw [hv, hw]
  | .number value, hv, hw =>
    unfold Json.Denotes at hv hw
    rw [hv.2, hw.2]
  | .string value, hv, hw =>
    unfold Json.Denotes at hv hw
    obtain ⟨text, rfl, rfl⟩ := hv
    obtain ⟨text', htext, rfl⟩ := hw
    rw [js_text_injective htext]
  | .array values, hv, hw =>
    unfold Json.Denotes at hv hw
    obtain ⟨elements, helements, rfl⟩ := hv
    obtain ⟨elements', helements', rfl⟩ := hw
    rw [items_denote_unique values helements helements']
  | .object entries, hv, hw =>
    unfold Json.Denotes at hv hw
    obtain ⟨members, hmembers, -, rfl⟩ := hv
    obtain ⟨members', hmembers', -, rfl⟩ := hw
    rw [members_denote_unique entries hmembers hmembers']

theorem items_denote_unique (values : List Json) {elements elements' : List StrictJson}
    (h : ItemsDenote values elements) (h' : ItemsDenote values elements') : elements = elements' := by
  match values, h, h' with
  | [], h, h' =>
    unfold ItemsDenote at h h'
    rw [h, h']
  | value :: values, h, h' =>
    unfold ItemsDenote at h h'
    obtain ⟨v, rest, hv, hrest, rfl⟩ := h
    obtain ⟨v', rest', hv', hrest', rfl⟩ := h'
    rw [denotes_unique value hv hv', items_denote_unique values hrest hrest']

theorem members_denote_unique (entries : List (JsString × Json))
    {members members' : List (Str × StrictJson)} (h : MembersDenote entries members)
    (h' : MembersDenote entries members') : members = members' := by
  match entries, h, h' with
  | [], h, h' =>
    unfold MembersDenote at h h'
    rw [h, h']
  | (key, value) :: entries, h, h' =>
    unfold MembersDenote at h h'
    obtain ⟨name, v, rest, rfl, hv, hrest, rfl⟩ := h
    obtain ⟨name', v', rest', hname, hv', hrest', rfl⟩ := h'
    rw [js_text_injective hname, denotes_unique value hv hv',
      members_denote_unique entries hrest hrest']

end

/-! ## Texts -/

theorem blank_line (gap indent : ℕ) : Blank (line gap indent) := by
  unfold line
  split
  · exact blank_nil
  · intro c hc
    rcases List.mem_cons.mp hc with rfl | hc
    · rfl
    · rw [List.eq_of_mem_replicate hc]
      rfl

theorem blank_append {s t : Str} (hs : Blank s) (ht : Blank t) : Blank (s ++ t) := by
  intro c hc
  rcases List.mem_append.mp hc with hc | hc
  · exact hs c hc
  · exact ht c hc

theorem colon_text (gap : ℕ) : ∃ blank, colon gap = ':' :: blank ∧ Blank blank := by
  unfold colon
  split
  · exact ⟨[], rfl, blank_nil⟩
  · exact ⟨[' '], rfl, fun c hc => by rw [List.mem_singleton.mp hc]; rfl⟩

mutual

/-- **What `JSON.stringify` writes** is a text of the counterpart. The new lines in front of an
element or a member are white space of its own, and the last one has the one in front of the
bracket behind it. -/
theorem derives_stringify (gap indent : ℕ) (value : Json) {v : StrictJson} (h : value.Denotes v) :
    Derives Nothing (.value v) (value.stringify gap indent) := by
  match value, h with
  | .null, h =>
    unfold Json.Denotes at h
    subst h
    exact .null
  | .boolean true, h =>
    unfold Json.Denotes at h
    subst h
    exact .true_text
  | .boolean false, h =>
    unfold Json.Denotes at h
    subst h
    exact .false_text
  | .number value, h =>
    unfold Json.Denotes at h
    obtain ⟨hnumber, rfl⟩ := h
    exact .number hnumber
  | .string value, h =>
    unfold Json.Denotes at h
    obtain ⟨text, rfl, rfl⟩ := h
    exact .string (quoted_text text)
  | .array [], h =>
    unfold Json.Denotes ItemsDenote at h
    obtain ⟨elements, rfl, rfl⟩ := h
    exact .array_empty blank_nil
  | .array (value :: values), h =>
    unfold Json.Denotes ItemsDenote at h
    obtain ⟨elements, ⟨v, rest, hv, hrest, rfl⟩, rfl⟩ := h
    have hall := derives_items gap indent values hrest (blank_line gap (indent + gap))
      (derives_stringify gap (indent + gap) value hv)
    simpa only [Json.stringify, List.append_assoc] using Derives.array hall
  | .object [], h =>
    unfold Json.Denotes MembersDenote at h
    obtain ⟨members, rfl, -, rfl⟩ := h
    exact .object_empty blank_nil
  | .object ((key, value) :: entries), h =>
    unfold Json.Denotes MembersDenote at h
    obtain ⟨members, ⟨name, v, rest, rfl, hv, hrest, rfl⟩, hkeys, rfl⟩ := h
    have hall := derives_members gap indent entries hrest (blank_line gap (indent + gap)) name
      (derives_stringify gap (indent + gap) value hv)
    simpa only [Json.stringify, member_text, List.append_assoc] using Derives.object hall hkeys

/-- The elements, the first of which is at hand. -/
theorem derives_items (gap indent : ℕ) (values : List Json) {elements : List StrictJson}
    (h : ItemsDenote values elements) {v : StrictJson} {before s : Str} (hbefore : Blank before)
    (hs : Derives Nothing (.value v) s) : Derives Nothing (.elements (v :: elements))
      (before ++ (s ++ (items_text gap indent values ++ line gap indent))) := by
  match values, h with
  | [], h =>
    unfold ItemsDenote at h
    subst h
    exact .element hbefore hs (blank_line gap indent)
  | value :: values, h =>
    unfold ItemsDenote at h
    obtain ⟨v', rest, hv', hrest, rfl⟩ := h
    have hall := derives_items gap indent values hrest (blank_line gap (indent + gap))
      (derives_stringify gap (indent + gap) value hv')
    simpa only [items_text, List.nil_append, List.cons_append, List.append_assoc] using
      Derives.more_elements hbefore hs blank_nil hall

/-- The members, the first of which is at hand. -/
theorem derives_members (gap indent : ℕ) (entries : List (JsString × Json))
    {members : List (Str × StrictJson)} (h : MembersDenote entries members) {v : StrictJson}
    {before s : Str} (hbefore : Blank before) (name : Str) (hs : Derives Nothing (.value v) s) :
    Derives Nothing (.members ((name, v) :: members)) (before ++ (quoted (js_text name) ++
      (colon gap ++ (s ++ (members_text gap indent entries ++ line gap indent))))) := by
  obtain ⟨blank, hcolon, hblank⟩ := colon_text gap
  match entries, h with
  | [], h =>
    unfold MembersDenote at h
    subst h
    simpa only [hcolon, members_text, List.nil_append, List.cons_append, List.append_assoc] using
      Derives.member hbefore (quoted_text name) blank_nil hblank hs (blank_line gap indent)
  | (key, value) :: entries, h =>
    unfold MembersDenote at h
    obtain ⟨name', v', rest, rfl, hv', hrest, rfl⟩ := h
    have hall := derives_members gap indent entries hrest (blank_line gap (indent + gap)) name'
      (derives_stringify gap (indent + gap) value hv')
    simpa only [hcolon, members_text, member_text, List.nil_append, List.cons_append,
      List.append_assoc] using Derives.more_members hbefore (quoted_text name) blank_nil hblank hs
        blank_nil hall

end

/-- **A document is read back** by the strict reader. -/
theorem stringify_parses {value : Json} {v : StrictJson} (h : value.Denotes v)
    (hlimits : WithinLimits v) :
    parse_strict_json (value.stringify 2 0 ++ ['\n']) = .ok v := by
  have hline : Blank ['\n'] := fun c hc => by rw [List.mem_singleton.mp hc]; rfl
  have hread := parse_written blank_nil (derives_stringify 2 0 value h) hline hlimits
  rwa [List.nil_append] at hread

end LeanBun.Documents
