/-
The strict JSON reader of `leanbun-codec`.

A recursive descent over the bytes of a text. It keeps a number as it is
written, refuses an object that names a key twice, and stops at a nesting depth
of 128 and at 100 000 values.

A `Parser` is what is left of the input, the position of its first byte and
the values counted so far. The loops of the source run on `fuel`, the number of
bytes that are left: every round of theirs takes a byte. `parse_value` recurses
on the number of levels that the depth limit still allows, so that a depth of
`MAX_JSON_DEPTH - n` in the source is the argument `n + 1` here.
-/
import LeanBun.Lib.Sorted
import LeanBun.Lib.Text

set_option autoImplicit false

namespace LeanBun.Codec

open LeanBun.Lib

def MAX_JSON_DEPTH : ℕ := 128

def MAX_JSON_NODES : ℕ := 100000

/-! ## Values -/

/-- `JsonNumber`: the number as it is written. -/
structure JsonNumber where
  lexical : Str
  deriving DecidableEq

/-- A `BTreeMap` is the list of its entries, in the order of their keys. -/
inductive StrictJson
  | Null
  | Bool (value : Bool)
  | Number (number : JsonNumber)
  | String (value : Str)
  | Array (values : List StrictJson)
  | Object (values : List (Str × StrictJson))

/-- `BTreeMap::insert` of a key that the map does not have. -/
def insert_entry {α : Type} (values : List (Str × α)) (entry : Str × α) : List (Str × α) :=
  values.orderedInsert (fun a b => a.1 ≤ b.1) entry

/-- `BTreeMap::contains_key`. -/
def contains_key {α : Type} (values : List (Str × α)) (key : Str) : Bool :=
  values.any fun entry => decide (entry.1 = key)

/-- `DiagnosticCode`, as far as this reader uses it. -/
inductive DiagnosticCode
  | JSON_MALFORMED
  deriving DecidableEq

structure StrictJsonError where
  code : DiagnosticCode
  message : Str
  deriving DecidableEq

/-! ## The parser -/

structure Parser where
  rest : List UInt8
  position : ℕ
  nodes : ℕ

/-- A method of the parser: `&mut self` with a `Result`. -/
abbrev ParserM (α : Type) := StateT Parser (Except StrictJsonError) α

/-- The byte literal of an ASCII character. -/
def byte (c : Char) : UInt8 := c.toNat.toUInt8

def is_whitespace (b : UInt8) : Bool :=
  b == byte ' ' || b == byte '\n' || b == byte '\r' || b == byte '\t'

/-- `b'0'..=b'9'`. -/
def is_digit_byte (b : UInt8) : Bool := decide (byte '0' ≤ b ∧ b ≤ byte '9')

def Parser.error (p : Parser) (detail : Str) : StrictJsonError where
  code := .JSON_MALFORMED
  message := "strict JSON parse failed at byte ".toList ++ decimal p.position ++ ": ".toList ++ detail

/-- `Err(self.error(detail))`. -/
def fail {α : Type} (detail : Str) : ParserM α := fun p => .error (p.error detail)

def peek : ParserM (Option UInt8) := fun p => .ok (p.rest.head?, p)

/-- `self.position += count`. -/
def advance (count : ℕ) : ParserM Unit := fun p =>
  .ok ((), { p with rest := p.rest.drop count, position := p.position + count })

/-- The loop that moves on while the next byte is of one kind. -/
def skip_while (kind : UInt8 → Bool) : ParserM Unit := fun p =>
  advance (p.rest.takeWhile kind).length p

def skip_whitespace : ParserM Unit := skip_while is_whitespace

def consume_digits : ParserM Unit := skip_while is_digit_byte

def next : ParserM (Option UInt8) := do
  match ← peek with
  | none => return none
  | some value =>
    advance 1
    return some value

def take_if (expected : UInt8) : ParserM Bool := do
  if (← peek) = some expected then
    advance 1
    return true
  else
    return false

/-- The text `0x\x7bexpected:02x\x7d` of a byte. -/
def hex_text (expected : UInt8) : Str := "0x".toList ++ hex_byte expected

/-- White space before the byte is skipped, wherever `consume` is called. -/
def consume (expected : UInt8) : ParserM Unit := do
  skip_whitespace
  if ← take_if expected then
    return ()
  else
    fail ("expected byte ".toList ++ hex_text expected)

def literal (expected : Str) : ParserM Unit := do
  if (← get).rest.take (byte_len expected) = as_bytes expected then
    advance (byte_len expected)
  else
    fail "invalid JSON literal".toList

/-! ## Strings -/

/-- The value of a hexadecimal digit, in either case. -/
def hex_value (b : UInt8) : Option ℕ :=
  if byte '0' ≤ b ∧ b ≤ byte '9' then some (b.toNat - 0x30)
  else if byte 'a' ≤ b ∧ b ≤ byte 'f' then some (b.toNat - 0x61 + 10)
  else if byte 'A' ≤ b ∧ b ≤ byte 'F' then some (b.toNat - 0x41 + 10)
  else none

/-- One round of the loop of `hex_quad`. -/
def hex_step (value : ℕ) : ParserM ℕ := do
  match (← next).bind hex_value with
  | some digit => return value * 16 + digit
  | none => fail "invalid JSON Unicode escape".toList

/-- Four digits stay below `2^16`, so that the shifts of the source lose nothing. -/
def hex_quad : ParserM ℕ := do
  let value ← hex_step 0
  let value ← hex_step value
  let value ← hex_step value
  hex_step value

/-- `char::from_u32`. -/
def from_u32 (scalar : ℕ) : Option Char :=
  if scalar.isValidChar then some (Char.ofNat scalar) else none

/-- The scalar value of a `\u` escape, its `u` taken: one unit, or the two
of a surrogate pair. -/
def parse_scalar : ParserM ℕ := do
  let first ← hex_quad
  if 0xd800 ≤ first ∧ first ≤ 0xdbff then
    consume (byte '\\')
    consume (byte 'u')
    let second ← hex_quad
    if 0xdc00 ≤ second ∧ second ≤ 0xdfff then
      return 0x10000 + (first - 0xd800) * 0x400 + (second - 0xdc00)
    else
      fail "invalid low surrogate in JSON string".toList
  else if 0xdc00 ≤ first ∧ first ≤ 0xdfff then
    fail "lone low surrogate in JSON string".toList
  else
    return first

/-- The escapes of one letter, with the byte each stands for. -/
def short_escape (escaped : UInt8) : Option UInt8 :=
  if escaped = byte '"' ∨ escaped = byte '\\' ∨ escaped = byte '/' then some escaped
  else if escaped = byte 'b' then some 0x08
  else if escaped = byte 'f' then some 0x0c
  else if escaped = byte 'n' then some (byte '\n')
  else if escaped = byte 'r' then some (byte '\r')
  else if escaped = byte 't' then some (byte '\t')
  else none

/-- The bytes that an escape adds to the output, its backslash taken. -/
def parse_escape : ParserM (List UInt8) := do
  match ← next with
  | none => fail "unterminated JSON escape".toList
  | some escaped =>
    match short_escape escaped with
    | some value => return [value]
    | none =>
      if escaped = byte 'u' then
        let scalar ← parse_scalar
        match from_u32 scalar with
        | some character => return String.utf8EncodeChar character
        | none => fail "invalid Unicode scalar in JSON string".toList
      else
        fail "invalid JSON string escape".toList

/-- The loop of `parse_string`, behind the opening quote. -/
def string_loop : ℕ → List UInt8 → ParserM Str
  | 0, _ => fail "unterminated JSON string".toList
  | fuel + 1, output => do
    match ← next with
    | none => fail "unterminated JSON string".toList
    | some b =>
      if b = byte '"' then
        match from_utf8 output with
        | some value => return value
        | none => fail "JSON string is not valid UTF-8".toList
      else if b = byte '\\' then
        let added ← parse_escape
        string_loop fuel (output ++ added)
      else if b ≤ 0x1f then
        fail "unescaped control byte in JSON string".toList
      else
        string_loop fuel (output ++ [b])

def parse_string : ParserM Str := do
  consume (byte '"')
  string_loop ((← get).rest.length + 1) []

/-! ## Numbers -/

/-- The integer part of `parse_number`, behind the sign. -/
def parse_integer : ParserM Unit := do
  match ← peek with
  | none => fail "invalid JSON number integer part".toList
  | some b =>
    if b = byte '0' then
      advance 1
      if (← peek).any is_digit_byte then
        fail "leading zero in JSON number".toList
      else
        return ()
    else if byte '1' ≤ b ∧ b ≤ byte '9' then
      consume_digits
    else
      fail "invalid JSON number integer part".toList

/-- The digits that a fraction and an exponent need. -/
def parse_digits (missing : Str) : ParserM Unit := do
  if (← peek).any is_digit_byte then
    consume_digits
  else
    fail missing

def parse_fraction : ParserM Unit := do
  if ← take_if (byte '.') then
    parse_digits "missing JSON fraction digits".toList
  else
    return ()

def parse_exponent : ParserM Unit := do
  if (← peek).any fun b => b == byte 'e' || b == byte 'E' then
    advance 1
    if (← peek).any fun b => b == byte '+' || b == byte '-' then
      advance 1
      parse_digits "missing JSON exponent digits".toList
    else
      parse_digits "missing JSON exponent digits".toList
  else
    return ()

def parse_number : ParserM JsonNumber := do
  let start ← get
  let _ ← take_if (byte '-')
  parse_integer
  parse_fraction
  parse_exponent
  let stop ← get
  match from_utf8 (start.rest.take (stop.position - start.position)) with
  | some lexical => return ⟨lexical⟩
  | none => fail "JSON number is not UTF-8".toList

/-! ## Values and documents -/

/-- The loop of `parse_array`, with the reader of its values. -/
def array_loop (element : ParserM StrictJson) : ℕ → List StrictJson → ParserM StrictJson
  | 0, _ => fail "expected JSON value".toList
  | fuel + 1, values => do
    let value ← element
    skip_whitespace
    if ← take_if (byte ']') then
      return .Array (values ++ [value])
    else
      consume (byte ',')
      array_loop element fuel (values ++ [value])

def parse_array (element : ParserM StrictJson) : ParserM StrictJson := do
  consume (byte '[')
  skip_whitespace
  if ← take_if (byte ']') then
    return .Array []
  else
    array_loop element ((← get).rest.length + 1) []

/-- The loop of `parse_object`, with the reader of its values. -/
def object_loop (element : ParserM StrictJson) :
    ℕ → List (Str × StrictJson) → ParserM StrictJson
  | 0, _ => fail "expected JSON value".toList
  | fuel + 1, values => do
    skip_whitespace
    let key ← parse_string
    if contains_key values key then
      fail ("duplicate JSON object key: ".toList ++ key)
    else
      skip_whitespace
      consume (byte ':')
      let value ← element
      skip_whitespace
      if ← take_if (byte '}') then
        return .Object (insert_entry values (key, value))
      else
        consume (byte ',')
        object_loop element fuel (insert_entry values (key, value))

def parse_object (element : ParserM StrictJson) : ParserM StrictJson := do
  consume (byte '{')
  skip_whitespace
  if ← take_if (byte '}') then
    return .Object []
  else
    object_loop element ((← get).rest.length + 1) []

/-- `self.nodes += 1`, with its limit. -/
def count_node : ParserM Unit := do
  modify fun p => { p with nodes := p.nodes + 1 }
  if (← get).nodes > MAX_JSON_NODES then
    fail "JSON node count exceeds limit".toList
  else
    return ()

/-- The value that a first byte announces. -/
def parse_kind (element : ParserM StrictJson) (b : UInt8) : ParserM StrictJson :=
  if b = byte 'n' then do
    literal "null".toList
    return .Null
  else if b = byte 't' then do
    literal "true".toList
    return .Bool true
  else if b = byte 'f' then do
    literal "false".toList
    return .Bool false
  else if b = byte '"' then do
    return .String (← parse_string)
  else if b = byte '[' then
    parse_array element
  else if b = byte '{' then
    parse_object element
  else if b = byte '-' ∨ is_digit_byte b then do
    return .Number (← parse_number)
  else
    fail "expected JSON value".toList

/-- `parse_value`, with the levels that the depth limit still allows. -/
def parse_value : ℕ → ParserM StrictJson
  | 0 => fail "JSON nesting exceeds limit".toList
  | levels + 1 => do
    count_node
    skip_whitespace
    match ← peek with
    | none => fail "expected JSON value".toList
    | some b => parse_kind (parse_value levels) b

/-- The parser at the start of a text. -/
def Parser.start (text : Str) : Parser := ⟨as_bytes text, 0, 0⟩

def parse_document : ParserM StrictJson := do
  skip_whitespace
  let value ← parse_value (MAX_JSON_DEPTH + 1)
  skip_whitespace
  if (← get).rest = [] then
    return value
  else
    fail "trailing content after JSON value".toList

def parse_strict_json (text : Str) : Except StrictJsonError StrictJson :=
  (parse_document.run (.start text)).map Prod.fst

end LeanBun.Codec
