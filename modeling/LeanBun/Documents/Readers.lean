/-
One document, two validators.

A binding and an attestation are validated by the side that writes them and again by the
readers of the crates. A member of a document and the field of its counterpart say the same,
so the two validators can be compared on one document: what the readers accept is what the
writers accept, with further conditions on lengths, control characters, timestamps and
unknown members, and what they return is the content of the document.
-/
import LeanBun.Documents.Stores
import LeanBun.Documents.Strict
import LeanBun.Evidence.StoredReading

set_option autoImplicit false

namespace LeanBun.Documents

open LeanBun.Lib LeanBun.Core LeanBun.Execution LeanBun.Codec LeanBun.Evidence.Stored
open LeanBun.Evidence (get Entries)

/-! ## Members and fields -/

section Members

variable {entries : List (JsString × Json)} {root : Entries}

/-- An object denotes the map of the counterparts of its members. -/
theorem object_denotes (h : (Json.object entries).Denotes (.Object root)) : ∃ members,
    List.Forall₂ (fun entry member => entry.1 = js_text member.1 ∧ entry.2.Denotes member.2)
      entries members ∧ (members.map Prod.fst).Nodup ∧ root.Perm members := by
  unfold Json.Denotes at h
  obtain ⟨members, hmembers, hkeys, hroot⟩ := h
  rw [StrictJson.Object.injEq] at hroot
  exact ⟨members, members_denote_iff.mp hmembers, hkeys, hroot ▸ btree_map_perm members⟩

/-- Looking a name up in a list of members, on either side. -/
theorem member_of_members {members : List (Str × StrictJson)}
    (h : List.Forall₂ (fun entry member => entry.1 = js_text member.1 ∧ entry.2.Denotes member.2)
      entries members) (name : Str) {v : StrictJson} :
    (members.find? fun member => decide (member.1 = name)).map Prod.snd = some v ↔
      ∃ value, (Json.object entries).member (js_text name) = some value ∧ value.Denotes v := by
  unfold Json.member
  dsimp only
  induction h with
  | nil => simp
  | @cons entry member _ _ hfirst _ ih =>
    obtain ⟨hname, hvalue⟩ := hfirst
    by_cases hsame : member.1 = name
    · have hentry : entry.1 = js_text name := by rw [hname, hsame]
      rw [List.find?_cons_of_pos (by simpa using hsame), List.find?_cons_of_pos (by simpa using hentry)]
      simp only [Option.map_some, Option.some.injEq]
      constructor
      · rintro rfl
        exact ⟨_, rfl, hvalue⟩
      · rintro ⟨_, rfl, hv⟩
        exact denotes_unique _ hvalue hv
    · have hentry : entry.1 ≠ js_text name := fun h => hsame (js_text_injective (hname ▸ h))
      rw [List.find?_cons_of_neg (by simpa using hsame), List.find?_cons_of_neg (by simpa using hentry)]
      exact ih

/-- **A field** is the counterpart of the member of its name. -/
theorem get_eq_some_iff (h : (Json.object entries).Denotes (.Object root)) (field : String)
    {v : StrictJson} : get root field = some v ↔
      ∃ value, (Json.object entries).member (js field) = some value ∧ value.Denotes v := by
  obtain ⟨members, hmembers, hkeys, hperm⟩ := object_denotes h
  have hsame : get root field =
      (members.find? fun member => decide (member.1 = field.toList)).map Prod.snd := by
    unfold Evidence.get
    congr 1
    have hroot : (root.map Prod.fst).Nodup := ((hperm.map Prod.fst).nodup_iff).mpr hkeys
    cases hfind : root.find? (fun entry => decide (entry.1 = field.toList)) with
    | none =>
      refine (find_key_none.mpr fun member hmember => ?_).symm
      exact find_key_none.mp hfind member (hperm.mem_iff.mpr hmember)
    | some entry =>
      obtain ⟨hmem, hkey⟩ := find_key_some hfind
      rw [← hkey]
      exact (find_key_of_mem hkeys (hperm.mem_iff.mp hmem)).symm
  rw [hsame]
  exact member_of_members hmembers field.toList

theorem denotes_string {value : Json} {text : Str} :
    value.Denotes (.String text) ↔ value = .string (js_text text) := by
  cases value with
  | string units =>
    simp only [Json.Denotes, StrictJson.String.injEq, Json.string.injEq]
    constructor
    · rintro ⟨_, rfl, rfl⟩
      rfl
    · exact fun h => ⟨text, h, rfl⟩
  | _ => simp [Json.Denotes]

theorem denotes_one {value : Json} : value.Denotes (.Number ⟨['1']⟩) ↔
    ∃ number : JsonNumber, value = .number number ∧ number.text = ['1'] := by
  cases value with
  | number number =>
    simp only [Json.Denotes, StrictJson.Number.injEq, Codec.JsonNumber.mk.injEq, Json.number.injEq,
      exists_eq_left']
    constructor
    · exact fun h => h.2.symm
    · intro h
      refine ⟨?_, h.symm⟩
      rw [h]
      exact ⟨[], ['1'], [], [], rfl, .inl rfl, .inr ⟨⟨by simp, by decide⟩, by decide⟩, .inl rfl, .inl rfl⟩
  | _ => simp [Json.Denotes]

/-- A list of texts as an array. -/
def texts_json (texts : List Str) : Json := .array (texts.map fun text => .string (js_text text))

theorem denotes_texts {value : Json} {texts : List Str} :
    value.Denotes (.Array (texts.map .String)) ↔ value = texts_json texts := by
  cases value with
  | array values =>
    simp only [Json.Denotes, StrictJson.Array.injEq, items_denote_iff, texts_json, Json.array.injEq]
    constructor
    · rintro ⟨_, hvalues, rfl⟩
      rw [List.forall₂_map_right_iff] at hvalues
      induction hvalues with
      | nil => rfl
      | cons hfirst _ ih => rw [List.map_cons, denotes_string.mp hfirst, ih]
    · rintro rfl
      refine ⟨_, ?_, rfl⟩
      rw [List.forall₂_map_left_iff, List.forall₂_map_right_iff]
      exact List.forall₂_same.mpr fun text _ => denotes_string.mpr rfl
  | _ => simp [Json.Denotes, texts_json]

/-- A field that is a text. -/
theorem get_text_iff (h : (Json.object entries).Denotes (.Object root)) (field : String) {text : Str} :
    get root field = some (.String text) ↔
      string_member field (.object entries) = some (js_text text) := by
  rw [get_eq_some_iff h]
  simp only [denotes_string, exists_eq_right]
  unfold string_member
  constructor
  · intro hmember
    rw [hmember]
  · intro hmember
    split at hmember
    · rename_i units hunits
      rw [hunits, Option.some.inj hmember]
    · cases hmember

/-- A field that is the number one. -/
theorem get_one_iff (h : (Json.object entries).Denotes (.Object root)) (field : String) :
    get root field = some (.Number ⟨['1']⟩) ↔ is_one field (.object entries) = true := by
  rw [get_eq_some_iff h]
  simp only [denotes_one]
  unfold is_one has_number
  constructor
  · rintro ⟨_, hmember, number, rfl, hnumber⟩
    rw [hmember]
    simpa using hnumber
  · intro hmember
    split at hmember
    · rename_i number hnumber
      exact ⟨_, hnumber, number, rfl, of_decide_eq_true hmember⟩
    · cases hmember

/-- A field that is a list of texts. -/
theorem get_texts_iff (h : (Json.object entries).Denotes (.Object root)) (field : String)
    {texts : List Str} : get root field = some (.Array (texts.map .String)) ↔
      (Json.object entries).member (js field) = some (texts_json texts) := by
  rw [get_eq_some_iff h]
  simp only [denotes_texts, exists_eq_right]

/-- An object without unknown members. -/
def KnownMembers (document : Json) (fields : List String) : Prop :=
  ∀ entries, document = .object entries → ∀ entry ∈ entries, ∃ field ∈ fields, js field = entry.1

theorem known_iff (h : (Json.object entries).Denotes (.Object root)) {fields : List String} :
    Known root fields ↔ KnownMembers (.object entries) fields := by
  obtain ⟨members, hmembers, -, hperm⟩ := object_denotes h
  have hone : Known root fields ↔ ∀ member ∈ members, ∃ field ∈ fields, field.toList = member.1 := by
    unfold Known
    exact ⟨fun h m hm => h m (hperm.mem_iff.mpr hm), fun h m hm => h m (hperm.mem_iff.mp hm)⟩
  have htwo : KnownMembers (.object entries) fields ↔
      ∀ entry ∈ entries, ∃ field ∈ fields, js field = entry.1 := by
    unfold KnownMembers
    exact ⟨fun h => h entries rfl, fun h entries' heq => Json.object.inj heq ▸ h⟩
  rw [hone, htwo]
  clear hone htwo hperm h
  induction hmembers with
  | nil => simp
  | cons hfirst _ ih =>
    have hnames : ∀ field : String, ∀ name : Str, js field = js_text name ↔ field.toList = name :=
      fun field name => js_text_injective.eq_iff
    rw [List.forall_mem_cons, List.forall_mem_cons, hfirst.1]
    simp only [hnames]
    exact and_congr Iff.rfl ih

end Members

/-! ## Texts on either side -/

/-- The units of a character: itself, or two surrogates. -/
theorem code_units_cases (c : Char) : (∃ unit : UInt16, code_units c = [unit] ∧ unit.toNat = c.toNat) ∨
    ∃ high low : UInt16, code_units c = [high, low] ∧ 0xd800 ≤ high.toNat ∧ 0xd800 ≤ low.toNat ∧
      0x10000 ≤ c.toNat := by
  have hvalid : c.toNat < 0xd800 ∨ 0xdfff < c.toNat ∧ c.toNat < 0x110000 := c.valid
  unfold code_units
  by_cases hsmall : c.toNat < 0x10000
  · rw [if_pos hsmall]
    exact .inl ⟨_, rfl, by rw [UInt16.toNat_ofNat', Nat.mod_eq_of_lt hsmall]⟩
  · rw [if_neg hsmall]
    refine .inr ⟨_, _, rfl, ?_, ?_, by omega⟩
    · rw [UInt16.toNat_ofNat', Nat.mod_eq_of_lt (by omega)]
      omega
    · rw [UInt16.toNat_ofNat', Nat.mod_eq_of_lt (by omega)]
      omega

theorem js_text_cons (c : Char) (text : Str) : js_text (c :: text) = code_units c ++ js_text text :=
  rfl

/-- A text has as many units as `encode_utf16` counts. -/
theorem js_text_length (text : Str) : (js_text text).length = (text.map Managed.len_utf16).sum := by
  induction text with
  | nil => rfl
  | cons c text ih =>
    rw [js_text_cons, List.length_append, ih, List.map_cons, List.sum_cons]
    congr 1
    unfold code_units Managed.len_utf16
    split_ifs <;> rfl

/-- The first unit of a text, where it is no surrogate, is its first character. -/
theorem js_text_head {text : Str} {unit : UInt16} {c : Char} (hunit : unit.toNat = c.toNat)
    (hc : c.toNat < 0xd800) : [unit] <+: js_text text ↔ text.head? = some c := by
  cases text with
  | nil => simp [js_text]
  | cons d text =>
    rw [js_text_cons, List.head?_cons, Option.some.injEq]
    obtain ⟨found, hunits, hfound⟩ | ⟨high, low, hunits, hhigh, hlow, hlarge⟩ := code_units_cases d
    · rw [hunits, List.singleton_append, List.cons_prefix_cons]
      constructor
      · rintro ⟨rfl, -⟩
        exact Char.toNat_inj.mp (hfound.symm.trans hunit)
      · rintro rfl
        exact ⟨UInt16.toNat.inj (hunit.trans hfound.symm), List.nil_prefix⟩
    · rw [hunits, List.cons_append, List.cons_prefix_cons]
      constructor
      · rintro ⟨rfl, -⟩
        omega
      · rintro rfl
        omega

theorem js_text_dot (text : Str) : [0x2e] <+: js_text text ↔ text.head? = some '.' :=
  js_text_head (by decide) (by decide)

/-- Two dots in a row. -/
theorem js_text_double_dot (text : Str) :
    [0x2e, 0x2e] <:+: js_text text ↔ Managed.has_double_dot text = true := by
  induction text with
  | nil => simp [js_text, Managed.has_double_dot]
  | cons c text ih =>
    have hstep : Managed.has_double_dot (c :: text) = true ↔
        c = '.' ∧ text.head? = some '.' ∨ Managed.has_double_dot text = true := by
      unfold Managed.has_double_dot
      cases text with
      | nil => simp
      | cons d text =>
        simp only [List.tail_cons, List.zip_cons_cons, List.contains_cons, Bool.or_eq_true,
          beq_iff_eq, Prod.mk.injEq, List.head?_cons, Option.some.injEq]
        exact or_congr (and_congr eq_comm eq_comm) Iff.rfl
    rw [hstep, js_text_cons, ← ih]
    obtain ⟨unit, hunits, hunit⟩ | ⟨high, low, hunits, hhigh, hlow, hlarge⟩ := code_units_cases c
    · rw [hunits, List.singleton_append, List.infix_cons_iff, List.cons_prefix_cons, js_text_dot]
      have hdot : (0x2e : UInt16) = unit ↔ c = '.' := by
        constructor
        · rintro rfl
          exact Char.toNat_inj.mp hunit.symm
        · rintro rfl
          exact (UInt16.toNat.inj (hunit.trans (by decide))).symm
      rw [hdot]
    · have hne : ∀ unit : UInt16, 0xd800 ≤ unit.toNat → (0x2e : UInt16) ≠ unit := by
        rintro unit hle rfl
        exact absurd hle (by decide)
      have hdot : c ≠ '.' := by
        rintro rfl
        exact absurd hlarge (by decide)
      rw [hunits, List.cons_append, List.singleton_append, List.infix_cons_iff, List.infix_cons_iff]
      simp only [List.cons_prefix_cons, hne high hhigh, hne low hlow, hdot, false_and, false_or]

/-- Units and characters that are allowed in a target. -/
theorem js_text_plain (text : Str) :
    (js_text text).all (fun unit => decide (0x20 ≤ unit.toNat ∧ unit.toNat ≠ 0x7f)) =
      !text.any fun c => decide (c.toNat ≤ 0x1f) || decide (c.toNat = 0x7f) := by
  induction text with
  | nil => rfl
  | cons c text ih =>
    rw [js_text_cons, List.all_append, ih, List.any_cons, Bool.not_or]
    congr 1
    obtain ⟨unit, hunits, hunit⟩ | ⟨high, low, hunits, hhigh, hlow, hlarge⟩ := code_units_cases c
    · rw [hunits, List.all_cons, List.all_nil, Bool.and_true, hunit, Bool.eq_iff_iff]
      simp only [decide_eq_true_eq, Bool.not_eq_true', Bool.or_eq_false_iff, decide_eq_false_iff_not]
      omega
    · rw [hunits, List.all_cons, List.all_cons, List.all_nil, Bool.and_true, Bool.eq_iff_iff]
      simp only [Bool.and_eq_true, decide_eq_true_eq, Bool.not_eq_true', Bool.or_eq_false_iff,
        decide_eq_false_iff_not]
      omega

/-- **A target** is valid on both sides or on neither. -/
theorem valid_build_target_js (text : Str) :
    valid_build_target (js_text text) = Managed.valid_build_target text := by
  have hdash : js "-" <+: js_text text ↔ text.head? = some '-' :=
    @js_text_head text 0x2d '-' (by decide) (by decide)
  have hdots : js ".." <:+: js_text text ↔ Managed.has_double_dot text = true :=
    js_text_double_dot text
  unfold valid_build_target Managed.valid_build_target
  rw [js_text_length, js_text_plain, Bool.eq_iff_iff]
  simp only [Bool.and_eq_true, decide_eq_true_eq, Bool.not_eq_true', decide_eq_false_iff_not, hdash,
    hdots, ne_eq, Bool.not_eq_true]

theorem eraseDups_nodup {α : Type} [BEq α] [LawfulBEq α] (l : List α) : l.eraseDups.Nodup := by
  induction hlen : l.length using Nat.strong_induction_on generalizing l with
  | _ n ih =>
    cases l with
    | nil => exact List.nodup_nil
    | cons a l =>
      rw [List.eraseDups_cons, List.nodup_cons]
      refine ⟨fun hmem => ?_, ih _ ?_ _ rfl⟩
      · have hfilter := List.mem_eraseDups.mp hmem
        simp at hfilter
      · have hle := List.length_filter_le (fun b => !b == a) l
        rw [← hlen, List.length_cons]
        omega

theorem eraseDups_of_nodup {α : Type} [BEq α] [LawfulBEq α] {l : List α} (h : l.Nodup) :
    l.eraseDups = l := by
  induction l with
  | nil => rfl
  | cons a l ih =>
    rw [List.nodup_cons] at h
    have hfilter : l.filter (fun b => !b == a) = l := by
      rw [List.filter_eq_self]
      intro b hb
      simp only [Bool.not_eq_true', beq_eq_false_iff_ne]
      rintro rfl
      exact h.1 hb
    rw [List.eraseDups_cons, hfilter, ih h.2]

theorem buffer_key_js (text : Str) : buffer_key (js_text text) = byte_key text := by
  unfold buffer_key buffer_from byte_key
  rw [code_points_js_text, List.map_map]
  congr 2
  exact List.map_id text

/-- **Canonical lists** are the ones in strict order. -/
theorem is_canonical_list_js (texts : List Str) :
    is_canonical_list (texts.map js_text) = true ↔ StrictlySorted byte_key texts := by
  have hkeys : ∀ part : List Str, StrictlySorted buffer_key (part.map js_text) ↔
      StrictlySorted byte_key part := by
    intro part
    unfold StrictlySorted
    rw [List.pairwise_map]
    simp only [buffer_key_js]
  unfold is_canonical_list
  rw [decide_eq_true_eq, ← hkeys]
  constructor
  · intro h
    have hnodup : (texts.map js_text).Nodup := by
      rw [h]
      exact (sort_by_key_perm buffer_key _).nodup_iff.mpr (eraseDups_nodup _)
    have hsorted := sort_by_key_sorted buffer_key (texts.map js_text).eraseDups
    rw [← h] at hsorted
    unfold StrictlySorted
    rw [List.pairwise_map] at hsorted ⊢
    have htexts : texts.Pairwise (fun a b => a ≠ b) := (List.nodup_map_iff js_text_injective).mp hnodup
    refine (hsorted.and htexts).imp fun {a b} hab => lt_of_le_of_ne hab.1 fun heq => hab.2 ?_
    rw [buffer_key_js, buffer_key_js] at heq
    exact byte_key_strictMono.injective heq
  · intro h
    have hnodup : (texts.map js_text).Nodup := by
      have hmap := h.nodup
      exact List.Nodup.of_map _ hmap
    rw [eraseDups_of_nodup hnodup, h.sort_eq]

end LeanBun.Documents
