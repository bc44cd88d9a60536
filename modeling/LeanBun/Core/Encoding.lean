/-
The field encodings that the crates feed to their hashers.

Every crate has its own private `hash_string`, `hash_optional_string`,
`hash_optional_sha` and `hash_usize`, and they are the same functions: a text is
its byte length and its bytes, an optional value a tag byte and perhaps the
value, a count eight bytes. Each of them is delimited, which is what the
statements about preimages rest on.
-/
import LeanBun.Core.Sha256
import LeanBun.Lib.Delimited

set_option autoImplicit false

namespace LeanBun.Core

open LeanBun.Lib

/-- `hash_string`: the byte length, then the bytes. -/
def string_bytes (value : Str) : List UInt8 := be64 (byte_len value) ++ as_bytes value

/-- `hash_optional_string`. -/
def optional_string_bytes : Option Str → List UInt8
  | some value => 1 :: string_bytes value
  | none => [0]

/-- `hash_optional_sha`. -/
def optional_sha_bytes : Option Sha256 → List UInt8
  | some value => 1 :: value.bytes
  | none => [0]

/-- A length that fits the `u64` in front of the text. -/
def ShortText (s : Str) : Prop := byte_len s < 2 ^ 64

/-- Counts below `2^64` are delimited. -/
theorem be64_delimited : Delimited (fun n => n < 2 ^ 64) be64 :=
  Delimited.of_length (n := 8) (fun _ _ => rfl) fun _ _ hn hm h => be64_injective hn hm h

theorem string_bytes_delimited : Delimited ShortText string_bytes :=
  Delimited.prefixed byte_len as_bytes be64_delimited (fun _ h => h) (fun _ _ h => h)
    (fun _ _ _ _ h => as_bytes_injective h)

theorem sha_bytes_delimited : Delimited (fun _ => True) Sha256.bytes :=
  Delimited.of_length (n := 32) (fun d _ => d.length_eq) fun _ _ _ _ h => Sha256.ext h

theorem optional_string_delimited :
    Delimited (fun o => ∀ s ∈ o, ShortText s) optional_string_bytes := by
  have h := string_bytes_delimited.option (1 : UInt8) 0 (by decide)
  intro a b r s ha hb heq
  refine h a b r s ha hb ?_
  cases a <;> cases b <;> exact heq

theorem optional_sha_delimited : Delimited (fun _ => True) optional_sha_bytes := by
  have h := sha_bytes_delimited.option (1 : UInt8) 0 (by decide)
  intro a b r s _ _ heq
  refine h a b r s (fun _ _ => trivial) (fun _ _ => trivial) ?_
  cases a <;> cases b <;> exact heq

end LeanBun.Core
