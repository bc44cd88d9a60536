/-
The JSON grammar, as a relation between texts and values.

`Derives gap phrase text`: the text is a phrase of the grammar. A phrase is a
value, the elements of an array or the members of an object, with what it
denotes. White space, strings and numbers are the ones of RFC 8259; a `\u`
escape denotes a Unicode scalar value or is half of a surrogate pair, and the
members of an object have distinct keys.

`gap` says which texts may stand inside a surrogate pair, in front of the
backslash and in front of the `u` of its second half. The grammar of RFC 8259
has nothing there; the reader of this crate skips white space.
-/
import LeanBun.Codec.Json

set_option autoImplicit false

namespace LeanBun.Codec

open LeanBun.Lib

/-! ## White space, numbers, strings -/

/-- `ws`. -/
def is_ws (c : Char) : Bool := c == ' ' || c == '\n' || c == '\r' || c == '\t'

/-- A text of white space. -/
def Blank (s : Str) : Prop := ∀ c ∈ s, is_ws c = true

/-- The empty text. -/
def Nothing (s : Str) : Prop := s = []

/-- `1*DIGIT`. -/
def Digits (s : Str) : Prop := s ≠ [] ∧ ∀ c ∈ s, is_digit c = true

/-- `int = zero / ( digit1-9 *DIGIT )`. -/
def IntegerText (s : Str) : Prop := s = ['0'] ∨ Digits s ∧ s.head? ≠ some '0'

/-- `[ frac ]`, where `frac = decimal-point 1*DIGIT`. -/
def FractionText (s : Str) : Prop := s = [] ∨ ∃ digits, s = '.' :: digits ∧ Digits digits

/-- `[ exp ]`, where `exp = e [ minus / plus ] 1*DIGIT`. -/
def ExponentText (s : Str) : Prop :=
  s = [] ∨ ∃ e sign digits, s = e :: (sign ++ digits) ∧ (e = 'e' ∨ e = 'E') ∧
    (sign = [] ∨ sign = ['+'] ∨ sign = ['-']) ∧ Digits digits

/-- `number = [ minus ] int [ frac ] [ exp ]`. -/
def NumberText (s : Str) : Prop :=
  ∃ sign integer fraction exponent, s = sign ++ (integer ++ (fraction ++ exponent)) ∧
    (sign = [] ∨ sign = ['-']) ∧ IntegerText integer ∧ FractionText fraction ∧ ExponentText exponent

/-- `HEXDIG`, with its value. -/
def hex_char_value (c : Char) : Option ℕ :=
  if '0' ≤ c ∧ c ≤ '9' then some (c.toNat - '0'.toNat)
  else if 'a' ≤ c ∧ c ≤ 'f' then some (c.toNat - 'a'.toNat + 10)
  else if 'A' ≤ c ∧ c ≤ 'F' then some (c.toNat - 'A'.toNat + 10)
  else none

/-- `4HEXDIG`, with the code unit it denotes. -/
def Quad (s : Str) (unit : ℕ) : Prop :=
  ∃ a b c d va vb vc vd, s = [a, b, c, d] ∧ hex_char_value a = some va ∧
    hex_char_value b = some vb ∧ hex_char_value c = some vc ∧ hex_char_value d = some vd ∧
    unit = ((va * 16 + vb) * 16 + vc) * 16 + vd

def HighSurrogate (unit : ℕ) : Prop := 0xd800 ≤ unit ∧ unit ≤ 0xdbff

def LowSurrogate (unit : ℕ) : Prop := 0xdc00 ≤ unit ∧ unit ≤ 0xdfff

/-- `unescaped = %x20-21 / %x23-5B / %x5D-10FFFF`. -/
def Unescaped (c : Char) : Prop := 0x20 ≤ c.toNat ∧ c ≠ '"' ∧ c ≠ '\\'

/-- The escapes of one letter, with the character each stands for. -/
def short_escapes : List (Char × Char) :=
  [('"', '"'), ('\\', '\\'), ('/', '/'), ('b', '\x08'), ('f', '\x0c'), ('n', '\n'), ('r', '\r'),
    ('t', '\t')]

/-- `*char`: what stands between the quotes of a string, with the text it denotes. -/
inductive Chars (gap : Str → Prop) : Str → Str → Prop
  | nil : Chars gap [] []
  | plain {c : Char} {s t : Str} : Unescaped c → Chars gap s t → Chars gap (c :: s) (c :: t)
  | short {e c : Char} {s t : Str} : (e, c) ∈ short_escapes → Chars gap s t →
      Chars gap ('\\' :: e :: s) (c :: t)
  | scalar {unit : ℕ} {quad s t : Str} : Quad quad unit → ¬HighSurrogate unit →
      ¬LowSurrogate unit → Chars gap s t →
      Chars gap ('\\' :: 'u' :: (quad ++ s)) (Char.ofNat unit :: t)
  | pair {high low : ℕ} {quad quad' before inside s t : Str} : Quad quad high → HighSurrogate high →
      gap before → gap inside → Quad quad' low → LowSurrogate low → Chars gap s t →
      Chars gap ('\\' :: 'u' :: (quad ++ (before ++ '\\' :: (inside ++ 'u' :: (quad' ++ s)))))
        (Char.ofNat (0x10000 + (high - 0xd800) * 0x400 + (low - 0xdc00)) :: t)

/-- `string = quotation-mark *char quotation-mark`. -/
def StringText (gap : Str → Prop) (s value : Str) : Prop :=
  ∃ chars, s = '"' :: (chars ++ ['"']) ∧ Chars gap chars value

/-! ## Values -/

/-- The map of the members of an object, inserted in their order. -/
def btree_map (members : List (Str × StrictJson)) : List (Str × StrictJson) :=
  members.foldl insert_entry []

/-- A phrase of the grammar and what it denotes. -/
inductive Phrase
  | value (v : StrictJson)
  | elements (values : List StrictJson)
  | members (entries : List (Str × StrictJson))

/-- **The grammar.** White space around the structural characters belongs to
the elements and members. -/
inductive Derives (gap : Str → Prop) : Phrase → Str → Prop
  | null : Derives gap (.value .Null) "null".toList
  | true_text : Derives gap (.value (.Bool true)) "true".toList
  | false_text : Derives gap (.value (.Bool false)) "false".toList
  | number {s : Str} : NumberText s → Derives gap (.value (.Number ⟨s⟩)) s
  | string {s value : Str} : StringText gap s value → Derives gap (.value (.String value)) s
  | array_empty {ws : Str} : Blank ws → Derives gap (.value (.Array [])) ('[' :: (ws ++ [']']))
  | array {values : List StrictJson} {s : Str} : Derives gap (.elements values) s →
      Derives gap (.value (.Array values)) ('[' :: (s ++ [']']))
  | object_empty {ws : Str} : Blank ws → Derives gap (.value (.Object [])) ('{' :: (ws ++ ['}']))
  | object {entries : List (Str × StrictJson)} {s : Str} : Derives gap (.members entries) s →
      (entries.map Prod.fst).Nodup →
      Derives gap (.value (.Object (btree_map entries))) ('{' :: (s ++ ['}']))
  | element {v : StrictJson} {before s after : Str} : Blank before → Derives gap (.value v) s →
      Blank after → Derives gap (.elements [v]) (before ++ (s ++ after))
  | more_elements {v : StrictJson} {values : List StrictJson} {before s after tail : Str} :
      Blank before → Derives gap (.value v) s → Blank after → Derives gap (.elements values) tail →
      Derives gap (.elements (v :: values)) (before ++ (s ++ (after ++ ',' :: tail)))
  | member {v : StrictJson} {key before name between colon s after : Str} : Blank before →
      StringText gap name key → Blank between → Blank colon → Derives gap (.value v) s →
      Blank after →
      Derives gap (.members [(key, v)])
        (before ++ (name ++ (between ++ ':' :: (colon ++ (s ++ after)))))
  | more_members {v : StrictJson} {entries : List (Str × StrictJson)}
      {key before name between colon s after tail : Str} : Blank before →
      StringText gap name key → Blank between → Blank colon → Derives gap (.value v) s →
      Blank after → Derives gap (.members entries) tail →
      Derives gap (.members ((key, v) :: entries))
        (before ++ (name ++ (between ++ ':' :: (colon ++ (s ++ (after ++ ',' :: tail))))))

/-- `JSON-text = ws value ws`. -/
def Document (gap : Str → Prop) (text : Str) (v : StrictJson) : Prop :=
  ∃ before s after, text = before ++ (s ++ after) ∧ Blank before ∧ Derives gap (.value v) s ∧
    Blank after

/-! ## Limits -/

mutual

/-- The number of values in a value, itself included. -/
def StrictJson.nodes : StrictJson → ℕ
  | .Array values => 1 + nodes_of_list values
  | .Object entries => 1 + nodes_of_entries entries
  | _ => 1

def nodes_of_list : List StrictJson → ℕ
  | [] => 0
  | v :: values => v.nodes + nodes_of_list values

def nodes_of_entries : List (Str × StrictJson) → ℕ
  | [] => 0
  | (_, v) :: entries => v.nodes + nodes_of_entries entries

end

mutual

/-- The nesting depth: how many arrays and objects enclose the innermost value. -/
def StrictJson.depth : StrictJson → ℕ
  | .Array values => depth_of_list values
  | .Object entries => depth_of_entries entries
  | _ => 0

def depth_of_list : List StrictJson → ℕ
  | [] => 0
  | v :: values => max (v.depth + 1) (depth_of_list values)

def depth_of_entries : List (Str × StrictJson) → ℕ
  | [] => 0
  | (_, v) :: entries => max (v.depth + 1) (depth_of_entries entries)

end

/-- The limits of the reader. -/
def WithinLimits (v : StrictJson) : Prop := v.depth ≤ MAX_JSON_DEPTH ∧ v.nodes ≤ MAX_JSON_NODES

end LeanBun.Codec
