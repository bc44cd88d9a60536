/-
Byte strings that need not be text, shown as text.

A path of the system is a string of bytes. `to_str` gives its text where it is UTF-8;
`to_string_lossy` always gives one, with a replacement character for each maximal piece
that begins no character.
-/
import LeanBun.Lib.Text

set_option autoImplicit false

namespace LeanBun.Lib

def is_continuation (b : UInt8) : Bool := decide (0x80 ≤ b ∧ b ≤ 0xbf)

/-- The number of bytes that a character with this first byte takes, or zero. -/
def utf8_width (first : UInt8) : ℕ :=
  if first < 0x80 then 1
  else if 0xc2 ≤ first ∧ first ≤ 0xdf then 2
  else if 0xe0 ≤ first ∧ first ≤ 0xef then 3
  else if 0xf0 ≤ first ∧ first ≤ 0xf4 then 4
  else 0

/-- The second bytes that can follow a first one: no overlong form, no surrogate, nothing
above the last code point. -/
def second_byte_ok (first second : UInt8) : Bool :=
  if first = 0xe0 then decide (0xa0 ≤ second ∧ second ≤ 0xbf)
  else if first = 0xed then decide (0x80 ≤ second ∧ second ≤ 0x9f)
  else if first = 0xf0 then decide (0x90 ≤ second ∧ second ≤ 0xbf)
  else if first = 0xf4 then decide (0x80 ≤ second ∧ second ≤ 0x8f)
  else is_continuation second

/-- The length of the first piece, and whether it is a character. -/
def first_piece : List UInt8 → ℕ × Bool
  | [] => (0, false)
  | first :: rest =>
    let width := utf8_width first
    if width = 0 then (1, false)
    else if width = 1 then (1, true)
    else if !(rest.head?.any (second_byte_ok first)) then (1, false)
    else if width = 2 then (2, true)
    else if !(rest[1]?.any is_continuation) then (2, false)
    else if width = 3 then (3, true)
    else if !(rest[2]?.any is_continuation) then (3, false)
    else (4, true)

/-- The pieces one after another. A piece takes a byte or more, so that there are no more of
them than bytes. -/
def lossy_pieces : ℕ → List UInt8 → Str
  | 0, _ => []
  | _ + 1, [] => []
  | n + 1, bytes =>
    let (length, good) := first_piece bytes
    (if good then (from_utf8 (bytes.take length)).getD [] else ['\ufffd']) ++
      lossy_pieces n (bytes.drop length)

/-- `String::from_utf8_lossy`. -/
def from_utf8_lossy (bytes : List UInt8) : Str := lossy_pieces bytes.length bytes

example : from_utf8_lossy [0x61, 0xff, 0xe2, 0x82, 0x62] = "a\ufffd\ufffdb".toList := by
  decide +kernel

end LeanBun.Lib
