/-
Texts that are written as JSON.

A writer puts a value together from pieces: the characters of a string one at a
time through its own escapes, the elements of an array and the members of an
object with commas between them and white space where it likes. Each rule here
says that pieces of the grammar make a text of the grammar, so a writer is
followed along its own text and what it writes is read back by the rules of the
reader. No writer is named here; the ones of the crates are instances.
-/
import LeanBun.Codec.Strict

set_option autoImplicit false

namespace LeanBun.Codec

open LeanBun.Lib

variable {gap : Str → Prop}

/-! ## Strings -/

/-- A text that stands for one character wherever a string goes on behind it. -/
def Piece (gap : Str → Prop) (text : Str) (c : Char) : Prop :=
  ∀ ⦃s value : Str⦄, Chars gap s value → Chars gap (text ++ s) (c :: value)

theorem piece_plain {c : Char} (h : Unescaped c) : Piece gap [c] c := fun _ _ hs => .plain h hs

theorem piece_short {e c : Char} (h : (e, c) ∈ short_escapes) : Piece gap ['\\', e] c :=
  fun _ _ hs => .short h hs

/-- A character by its code unit. -/
theorem piece_scalar {unit : ℕ} {quad : Str} (h : Quad quad unit) (hhigh : ¬HighSurrogate unit)
    (hlow : ¬LowSurrogate unit) : Piece gap ('\\' :: 'u' :: quad) (Char.ofNat unit) :=
  fun _ _ hs => .scalar h hhigh hlow hs

/-- **Strings.** An escaper that is right on every character is right on every
string. -/
theorem string_text_of_pieces {escape : Char → Str} (h : ∀ c, Piece gap (escape c) c)
    (value : Str) : StringText gap ('"' :: (value.flatMap escape ++ ['"'])) value := by
  refine ⟨value.flatMap escape, rfl, ?_⟩
  induction value with
  | nil => exact .nil
  | cons c value ih =>
    rw [List.flatMap_cons]
    exact h c ih

/-- The values of the digits of a byte. -/
theorem hex_char_values (b : UInt8) : hex_char_value (hex_digit (b >>> 4)) = some (b.toNat / 16) ∧
    hex_char_value (hex_digit (b &&& 15)) = some (b.toNat % 16) := by
  revert b
  exact uint8_all (by decide +kernel)

/-- The digits of a byte denote the byte. -/
theorem quad_of_byte {n : ℕ} (h : n < 256) : Quad ('0' :: '0' :: hex [UInt8.ofNat n]) n := by
  obtain ⟨hhigh, hlow⟩ := hex_char_values (UInt8.ofNat n)
  have hbyte : (UInt8.ofNat n).toNat = n := by rw [UInt8.toNat_ofNat', Nat.mod_eq_of_lt h]
  rw [hbyte] at hhigh hlow
  exact ⟨'0', '0', _, _, 0, 0, n / 16, n % 16, rfl, rfl, rfl, hhigh, hlow, by omega⟩

/-! ## Arrays and objects -/

/-- An element with white space around it. -/
def ElementText (gap : Str → Prop) (v : StrictJson) (text : Str) : Prop :=
  ∃ before s after, text = before ++ (s ++ after) ∧ Blank before ∧ Derives gap (.value v) s ∧
    Blank after

/-- A member with white space around its name and its value. -/
def MemberText (gap : Str → Prop) (entry : Str × StrictJson) (text : Str) : Prop :=
  ∃ before name between blank s after,
    text = before ++ (name ++ (between ++ ':' :: (blank ++ (s ++ after)))) ∧ Blank before ∧
      StringText gap name entry.1 ∧ Blank between ∧ Blank blank ∧ Derives gap (.value entry.2) s ∧
        Blank after

theorem blank_nil : Blank [] := fun _ h => absurd h List.not_mem_nil

theorem Derives.element_text {v : StrictJson} {s : Str} (h : Derives gap (.value v) s) :
    ElementText gap v s := ⟨[], s, [], by simp, blank_nil, h, blank_nil⟩

/-- A member without white space. -/
theorem Derives.member_text {key name s : Str} {v : StrictJson} (h : Derives gap (.value v) s)
    (hname : StringText gap name key) : MemberText gap (key, v) (name ++ ':' :: s) :=
  ⟨[], name, [], [], s, [], by simp, blank_nil, hname, blank_nil, blank_nil, h, blank_nil⟩

/-- Texts with commas between them. -/
theorem intercalate_comma (text : Str) (texts : List Str) :
    List.intercalate [','] (text :: texts) = text ++ texts.flatMap fun text => ',' :: text := by
  induction texts generalizing text with
  | nil => simp [List.intercalate]
  | cons next texts ih =>
    have hnext := ih next
    rw [List.flatMap_cons, List.cons_append, ← hnext]
    simp [List.intercalate, List.intersperse]

theorem elements_of_texts {v : StrictJson} {values : List StrictJson} {text : Str}
    {texts : List Str} (h : ElementText gap v text)
    (hrest : List.Forall₂ (ElementText gap) values texts) :
    Derives gap (.elements (v :: values)) (List.intercalate [','] (text :: texts)) := by
  induction hrest generalizing v text with
  | nil =>
    obtain ⟨before, s, after, rfl, hbefore, hs, hafter⟩ := h
    simpa [List.intercalate] using Derives.element hbefore hs hafter
  | cons hnext _ ih =>
    obtain ⟨before, s, after, rfl, hbefore, hs, hafter⟩ := h
    have hall := Derives.more_elements hbefore hs hafter (ih hnext)
    simpa [List.intercalate, List.intersperse, List.append_assoc] using hall

/-- **Arrays.** Texts of elements with commas between them. -/
theorem derives_array {values : List StrictJson} {texts : List Str}
    (h : List.Forall₂ (ElementText gap) values texts) :
    Derives gap (.value (.Array values)) ('[' :: (List.intercalate [','] texts ++ [']'])) := by
  cases h with
  | nil => exact .array_empty blank_nil
  | cons hfirst hrest => exact .array (elements_of_texts hfirst hrest)

theorem members_of_texts {entry : Str × StrictJson} {entries : List (Str × StrictJson)} {text : Str}
    {texts : List Str} (h : MemberText gap entry text)
    (hrest : List.Forall₂ (MemberText gap) entries texts) :
    Derives gap (.members (entry :: entries)) (List.intercalate [','] (text :: texts)) := by
  induction hrest generalizing entry text with
  | nil =>
    obtain ⟨before, name, between, blank, s, after, rfl, hbefore, hname, hbetween, hblank, hs,
      hafter⟩ := h
    simpa [List.intercalate] using Derives.member hbefore hname hbetween hblank hs hafter
  | cons hnext _ ih =>
    obtain ⟨before, name, between, blank, s, after, rfl, hbefore, hname, hbetween, hblank, hs,
      hafter⟩ := h
    have hall := Derives.more_members hbefore hname hbetween hblank hs hafter (ih hnext)
    simpa [List.intercalate, List.intersperse, List.append_assoc] using hall

/-- **Objects.** Texts of members with distinct names and commas between them. -/
theorem derives_object {entries : List (Str × StrictJson)} {texts : List Str}
    (h : List.Forall₂ (MemberText gap) entries texts) (hkeys : (entries.map Prod.fst).Nodup) :
    Derives gap (.value (.Object (btree_map entries)))
      ('\x7b' :: (List.intercalate [','] texts ++ ['\x7d'])) := by
  cases h with
  | nil => exact .object_empty blank_nil
  | cons hfirst hrest => exact .object (members_of_texts hfirst hrest) hkeys

/-! ## Reading what was written -/

/-- **A written text is read back**, within the limits of the reader. -/
theorem parse_written {v : StrictJson} {before s after : Str} (hbefore : Blank before)
    (h : Derives Nothing (.value v) s) (hafter : Blank after) (hlimits : WithinLimits v) :
    parse_strict_json (before ++ (s ++ after)) = .ok v := by
  apply parse_strict_json_ok_iff.mpr
  exact ⟨Document.tolerate ⟨before, s, after, rfl, hbefore, h, hafter⟩, hlimits⟩

end LeanBun.Codec
