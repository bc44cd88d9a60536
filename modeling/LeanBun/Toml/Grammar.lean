/-
The grammar of TOML 1.0, as relations between texts and what they denote.

A document is a list of lines, each blank, a key with its value, or a header; a value may go
over more than one line of the text. Keys, values and line ends carry the derivation of their
text.

Booleans, numbers and dates are texts of the characters that one of them can have. The `\u`
escapes denote Unicode scalar values.
-/
import LeanBun.Toml.Tables

set_option autoImplicit false

namespace LeanBun.Toml

open LeanBun.Lib

/-! ## White space and comments -/

/-- `wschar`. -/
def is_blank (c : Char) : Bool := decide (c = ' ') || decide (c = '\t')

/-- `ws`. -/
def Blank (s : Str) : Prop := ∀ c ∈ s, is_blank c = true

/-- A character that may stand in a line: no control character but the tab. -/
def InLine (c : Char) : Prop := c = '\t' ∨ 0x20 ≤ c.toNat

/-- `comment`. -/
def Comment (s : Str) : Prop := ∃ rest, s = '#' :: rest ∧ ∀ c ∈ rest, InLine c

/-- `newline`. -/
def Newline (s : Str) : Prop := s = ['\n'] ∨ s = ['\r', '\n']

/-- `ws-comment-newline`. -/
inductive Gap : Str → Prop
  | nil : Gap []
  | blank {c : Char} {s : Str} : is_blank c = true → Gap s → Gap (c :: s)
  | newline {n s : Str} : Newline n → Gap s → Gap (n ++ s)
  | comment {comment n s : Str} : Comment comment → Newline n → Gap s → Gap (comment ++ (n ++ s))

/-! ## Strings -/

/-- The value of a hexadecimal digit. -/
def hex_value (c : Char) : Option ℕ :=
  if '0' ≤ c ∧ c ≤ '9' then some (c.toNat - '0'.toNat)
  else if 'a' ≤ c ∧ c ≤ 'f' then some (c.toNat - 'a'.toNat + 10)
  else if 'A' ≤ c ∧ c ≤ 'F' then some (c.toNat - 'A'.toNat + 10)
  else none

/-- The value of hexadecimal digits. -/
def hex_number (digits : Str) : Option ℕ :=
  digits.foldlM (fun n c => (hex_value c).map fun value => n * 16 + value) 0

/-- The escapes of one letter, with the character each stands for. -/
def escapes : List (Char × Char) :=
  [('"', '"'), ('\\', '\\'), ('b', '\x08'), ('f', '\x0c'), ('n', '\n'), ('r', '\r'), ('t', '\t')]

/-- `escaped`: an escape, with the character it stands for. -/
inductive Escape : Str → Char → Prop
  | short {e c : Char} : (e, c) ∈ escapes → Escape ['\\', e] c
  | unicode {mark : Char} {digits : Str} {n : ℕ} : hex_number digits = some n → n.isValidChar →
      (mark = 'u' ∧ digits.length = 4 ∨ mark = 'U' ∧ digits.length = 8) →
      Escape ('\\' :: mark :: digits) (Char.ofNat n)

/-- `*basic-char`, with the text it denotes. -/
inductive BasicChars : Str → Str → Prop
  | nil : BasicChars [] []
  | plain {c : Char} {s t : Str} : InLine c → c ≠ '"' → c ≠ '\\' → BasicChars s t →
      BasicChars (c :: s) (c :: t)
  | escape {e s t : Str} {c : Char} : Escape e c → BasicChars s t → BasicChars (e ++ s) (c :: t)

/-- The white space that a backslash at the end of a line takes away. -/
inductive LineJoin : Str → Prop
  | mk {before n after : Str} : Blank before → Newline n →
      (∀ c ∈ after, is_blank c = true ∨ c = '\n' ∨ c = '\r') → LineJoin (before ++ (n ++ after))

/-- `ml-basic-body`, with the text it denotes. -/
inductive BasicLines : Str → Str → Prop
  | nil : BasicLines [] []
  | plain {c : Char} {s t : Str} : InLine c → c ≠ '"' → c ≠ '\\' → BasicLines s t →
      BasicLines (c :: s) (c :: t)
  | quote {s t : Str} : ¬['"', '"'] <+: s → BasicLines s t → BasicLines ('"' :: s) ('"' :: t)
  | newline {n s t : Str} : Newline n → BasicLines s t → BasicLines (n ++ s) ('\n' :: t)
  | escape {e s t : Str} {c : Char} : Escape e c → BasicLines s t → BasicLines (e ++ s) (c :: t)
  | join {j s t : Str} : LineJoin j → BasicLines s t → BasicLines ('\\' :: (j ++ s)) t

/-- `*literal-char`. -/
def LiteralChars (s : Str) : Prop := ∀ c ∈ s, InLine c ∧ c ≠ '\''

/-- `ml-literal-body`, with the text it denotes. -/
inductive LiteralLines : Str → Str → Prop
  | nil : LiteralLines [] []
  | plain {c : Char} {s t : Str} : InLine c → c ≠ '\'' → LiteralLines s t →
      LiteralLines (c :: s) (c :: t)
  | quote {s t : Str} : ¬['\'', '\''] <+: s → LiteralLines s t → LiteralLines ('\'' :: s) ('\'' :: t)
  | newline {n s t : Str} : Newline n → LiteralLines s t → LiteralLines (n ++ s) ('\n' :: t)

/-- The line end that a multi-line string drops after its first quotes. -/
def FirstNewline (s : Str) : Prop := s = [] ∨ Newline s

/-- `string`, with the text it denotes. -/
inductive StringText : Str → Str → Prop
  | basic {body t : Str} : BasicChars body t → StringText ('"' :: (body ++ ['"'])) t
  | literal {body : Str} : LiteralChars body → StringText ('\'' :: (body ++ ['\''])) body
  | basic_lines {n body t : Str} : FirstNewline n → BasicLines body t →
      StringText ('"' :: '"' :: '"' :: (n ++ (body ++ ['"', '"', '"']))) t
  | literal_lines {n body t : Str} : FirstNewline n → LiteralLines body t →
      StringText ('\'' :: '\'' :: '\'' :: (n ++ (body ++ ['\'', '\'', '\'']))) t

/-! ## Keys -/

/-- A character of an `unquoted-key`. -/
def is_bare (c : Char) : Bool :=
  decide (('a' ≤ c ∧ c ≤ 'z') ∨ ('A' ≤ c ∧ c ≤ 'Z') ∨ ('0' ≤ c ∧ c ≤ '9') ∨ c = '-' ∨ c = '_')

/-- `simple-key`, with the key it denotes. -/
inductive SimpleKey : Str → Str → Prop
  | bare {s : Str} : s ≠ [] → (∀ c ∈ s, is_bare c = true) → SimpleKey s s
  | basic {body t : Str} : BasicChars body t → SimpleKey ('"' :: (body ++ ['"'])) t
  | literal {body : Str} : LiteralChars body → SimpleKey ('\'' :: (body ++ ['\''])) body

/-- `key`, with the path it denotes. -/
inductive KeyText : Str → List Str → Prop
  | simple {s key : Str} : SimpleKey s key → KeyText s [key]
  | dotted {s key before after rest : Str} {path : List Str} : SimpleKey s key → Blank before →
      Blank after → KeyText rest path →
      KeyText (s ++ (before ++ '.' :: (after ++ rest))) (key :: path)

/-! ## Values -/

/-- A character of a boolean, a number or a date. -/
def is_scalar (c : Char) : Bool :=
  is_bare c || decide (c = '+') || decide (c = '.') || decide (c = ':')

/-- `boolean`, `integer`, `float` or `date-time`. A date may have a space before its time. -/
def ScalarText (s : Str) : Prop :=
  ∃ c rest, s = c :: rest ∧ is_scalar c = true ∧ ∀ c ∈ rest, is_scalar c = true ∨ c = ' '

/-- A phrase of the grammar and what it denotes. -/
inductive Phrase
  | value (value : Value)
  | elements (values : List Value)
  | members (members : List (List Str × Value))

/-- **The grammar** of values. The gaps around the elements of an array belong to the elements. -/
inductive Derives : Phrase → Str → Prop
  | string {s t : Str} : StringText s t → Derives (.value (.text t)) s
  | scalar {s : Str} : ScalarText s → Derives (.value (.scalar s)) s
  | array {values : List Value} {s gap : Str} : Derives (.elements values) s → Gap gap →
      Derives (.value (.array values)) ('[' :: (s ++ (gap ++ [']'])))
  | table {members : List (List Str × Value)} {entries : Entries} {before s after : Str} :
      Blank before → Derives (.members members) s → Blank after →
      inline_table members = some entries →
      Derives (.value (.table entries)) ('\x7b' :: (before ++ (s ++ (after ++ ['\x7d']))))
  | no_elements : Derives (.elements []) []
  | last_element {value : Value} {before s after comma : Str} : Gap before →
      Derives (.value value) s → Gap after → comma = [] ∨ comma = [','] →
      Derives (.elements [value]) (before ++ (s ++ (after ++ comma)))
  | element {value : Value} {values : List Value} {before s after rest : Str} : Gap before →
      Derives (.value value) s → Gap after → Derives (.elements values) rest → values ≠ [] →
      Derives (.elements (value :: values)) (before ++ (s ++ (after ++ ',' :: rest)))
  | no_members : Derives (.members []) []
  | last_member {path : List Str} {value : Value} {key before after s : Str} : KeyText key path →
      Blank before → Blank after → Derives (.value value) s →
      Derives (.members [(path, value)]) (key ++ (before ++ '=' :: (after ++ s)))
  | member {path : List Str} {value : Value} {members : List (List Str × Value)}
      {key before after s left right rest : Str} : KeyText key path → Blank before → Blank after →
      Derives (.value value) s → Blank left → Blank right → Derives (.members members) rest →
      members ≠ [] →
      Derives (.members ((path, value) :: members))
        (key ++ (before ++ '=' :: (after ++ (s ++ (left ++ ',' :: (right ++ rest))))))

/-! ## Lines and documents -/

/-- White space. -/
structure BlankText where
  text : Str
  blank : Blank text

/-- The end of a line: white space, then perhaps a comment. -/
structure Ending where
  before : BlankText
  comment : Option Str
  spelled : ∀ s ∈ comment, Comment s

def Ending.text (ending : Ending) : Str := ending.before.text ++ ending.comment.getD []

/-- A key. -/
structure Key where
  text : Str
  path : List Str
  spelled : KeyText text path

/-- A value. -/
structure ValueText where
  text : Str
  value : Value
  spelled : Derives (.value value) text

/-- `expression`: a line of a document, or the lines of a value. -/
inductive Line
  | blank (ending : Ending)
  | assign (lead : BlankText) (key : Key) (before after : BlankText) (value : ValueText)
      (ending : Ending)
  | header (double : Bool) (lead before : BlankText) (key : Key) (after : BlankText)
      (ending : Ending)

/-- The brackets of a header. -/
def brackets (double : Bool) (bracket : Char) : Str :=
  if double then [bracket, bracket] else [bracket]

def Line.text : Line → Str
  | .blank ending => ending.text
  | .assign lead key before after value ending =>
    lead.text ++ (key.text ++ (before.text ++ '=' :: (after.text ++ (value.text ++ ending.text))))
  | .header double lead before key after ending =>
    lead.text ++ (brackets double '[' ++ (before.text ++ (key.text ++ (after.text ++
      (brackets double ']' ++ ending.text)))))

/-- What a line states. -/
def Line.statement : Line → Option Statement
  | .blank _ => none
  | .assign _ key _ _ value _ => some (.assign key.path value.value)
  | .header double _ _ key _ _ => some (if double then .array key.path else .table key.path)

/-- The meaning of a line. -/
def Line.run (state : State) (line : Line) : Option State :=
  match line.statement with
  | some statement => statement.run state
  | none => some state

/-- `toml`: lines, and how each but the last one ends. -/
structure Document where
  ended : List (Line × Bool)
  last : Line

/-- `newline`: whether a carriage return stands before it. -/
def newline_text (carriage : Bool) : Str := if carriage then ['\r', '\n'] else ['\n']

def Document.text (document : Document) : Str :=
  document.ended.flatMap (fun line => line.1.text ++ newline_text line.2) ++ document.last.text

def Document.lines (document : Document) : List Line :=
  document.ended.map Prod.fst ++ [document.last]

/-- **What a document denotes**: the table at its root. -/
def Document.root (document : Document) : Option Entries :=
  (document.lines.foldlM Line.run ⟨[], []⟩).map State.root

end LeanBun.Toml
