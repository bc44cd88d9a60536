/-
The digest type of the core crate and the hasher behind it.

`Sha256` is thirty-two bytes with its length as a field, printed and parsed as
sixty-four lowercase hex characters. `Sha256Hasher` is the streaming hasher:
`update` completes a pending block, compresses whole blocks and keeps the rest,
and `finalize` pads. The block buffer is kept as the bytes that are valid in it;
the source zeroes the others before it compresses them.

No proof of this development looks inside `compress`: a statement about a digest
is a statement about the bytes that were fed to the hasher, up to a collision.
-/
import LeanBun.Lib.Text

set_option autoImplicit false

namespace LeanBun.Core

open LeanBun.Lib

/-! ## Digests -/

/-- `Sha256([u8; 32])`. -/
structure Sha256 where
  bytes : List UInt8
  length_eq : bytes.length = 32
deriving DecidableEq

/-- The digest of one repeated byte. -/
def Sha256.repeated (byte : UInt8) : Sha256 := ⟨List.replicate 32 byte, List.length_replicate⟩

/-- Two digests with the same bytes are one digest. -/
theorem Sha256.ext {a b : Sha256} (h : a.bytes = b.bytes) : a = b := by
  cases a
  cases b
  simp only [Sha256.mk.injEq]
  exact h

/-- `impl Display for Sha256`. -/
def Sha256.to_string (d : Sha256) : Str := hex d.bytes

/-- `Sha256::parse`: sixty-four lowercase hex characters. -/
def Sha256.parse (value : Str) : Option Sha256 :=
  if h : value.length = 64 ∧ value.all is_lower_hex = true then
    some ⟨pair_bytes value, by rw [pair_bytes_length, h.1]⟩
  else none

/-- **Digest round trip.** -/
@[simp] theorem Sha256.parse_to_string (d : Sha256) : Sha256.parse d.to_string = some d := by
  have hlen : d.to_string.length = 64 := by
    rw [Sha256.to_string, hex_length, d.length_eq]
  have hall : d.to_string.all is_lower_hex = true := hex_all_lower d.bytes
  rw [Sha256.parse, dif_pos ⟨hlen, hall⟩]
  exact congrArg some (Sha256.ext (pair_bytes_hex d.bytes))

theorem Sha256.to_string_injective : Function.Injective Sha256.to_string := fun _ _ h =>
  Sha256.ext (hex_injective h)

theorem Sha256.to_string_token (d : Sha256) : IsToken d.to_string := hex_token d.bytes

theorem Sha256.to_string_ne_dash (d : Sha256) : d.to_string ≠ ['-'] := hex_ne_dash d.bytes

theorem Sha256.to_string_length (d : Sha256) : d.to_string.length = 64 := by
  rw [Sha256.to_string, hex_length, d.length_eq]

/-- The order key of `Ord for [u8; 32]`: the bytes, compared lexicographically. -/
def Sha256.key (d : Sha256) : List ℕ := d.bytes.map UInt8.toNat

theorem Sha256.key_injective : Function.Injective Sha256.key := fun _ _ h =>
  Sha256.ext (List.map_injective_iff.mpr (fun _ _ hb => UInt8.toNat_inj.mp hb) h)

/-! ## The hasher -/

/-- `u64::to_be_bytes`. -/
def be64 (n : ℕ) : List UInt8 :=
  [56, 48, 40, 32, 24, 16, 8, 0].map fun shift => UInt8.ofNat (n >>> shift)

/-- Eight bytes hold every `u64`. -/
theorem be64_injective {n m : ℕ} (hn : n < 2 ^ 64) (hm : m < 2 ^ 64) (h : be64 n = be64 m) :
    n = m := by
  simp only [be64, List.map_cons, List.map_nil, List.cons.injEq, and_true,
    Nat.shiftRight_eq_div_pow] at h
  simp only [← UInt8.toNat_inj, UInt8.toNat_ofNat'] at h
  omega

/-- `u32::to_be_bytes`. -/
def be32 (w : UInt32) : List UInt8 :=
  [24, 16, 8, 0].map fun shift => UInt8.ofNat (w.toNat >>> shift)

/-- `[u32; 8]`. -/
structure State where
  a : UInt32
  b : UInt32
  c : UInt32
  d : UInt32
  e : UInt32
  f : UInt32
  g : UInt32
  h : UInt32
deriving DecidableEq

def INITIAL_STATE : State :=
  ⟨0x6a09e667, 0xbb67ae85, 0x3c6ef372, 0xa54ff53a, 0x510e527f, 0x9b05688c, 0x1f83d9ab,
    0x5be0cd19⟩

def ROUND_CONSTANTS : List UInt32 :=
  [0x428a2f98, 0x71374491, 0xb5c0fbcf, 0xe9b5dba5, 0x3956c25b, 0x59f111f1, 0x923f82a4, 0xab1c5ed5,
   0xd807aa98, 0x12835b01, 0x243185be, 0x550c7dc3, 0x72be5d74, 0x80deb1fe, 0x9bdc06a7, 0xc19bf174,
   0xe49b69c1, 0xefbe4786, 0x0fc19dc6, 0x240ca1cc, 0x2de92c6f, 0x4a7484aa, 0x5cb0a9dc, 0x76f988da,
   0x983e5152, 0xa831c66d, 0xb00327c8, 0xbf597fc7, 0xc6e00bf3, 0xd5a79147, 0x06ca6351, 0x14292967,
   0x27b70a85, 0x2e1b2138, 0x4d2c6dfc, 0x53380d13, 0x650a7354, 0x766a0abb, 0x81c2c92e, 0x92722c85,
   0xa2bfe8a1, 0xa81a664b, 0xc24b8b70, 0xc76c51a3, 0xd192e819, 0xd6990624, 0xf40e3585, 0x106aa070,
   0x19a4c116, 0x1e376c08, 0x2748774c, 0x34b0bcb5, 0x391c0cb3, 0x4ed8aa4a, 0x5b9cca4f, 0x682e6ff3,
   0x748f82ee, 0x78a5636f, 0x84c87814, 0x8cc70208, 0x90befffa, 0xa4506ceb, 0xbef9a3f7, 0xc67178f2]

/-- `u32::rotate_right`. -/
def rotate_right (w n : UInt32) : UInt32 := (w >>> n) ||| (w <<< (32 - n))

/-- `u32::from_be_bytes` over `chunks_exact(4)`. -/
def block_words : List UInt8 → List UInt32
  | b0 :: b1 :: b2 :: b3 :: rest =>
    ((b0.toUInt32 <<< 24) ||| (b1.toUInt32 <<< 16) ||| (b2.toUInt32 <<< 8) ||| b3.toUInt32) ::
      block_words rest
  | _ => []

/-- One more word of the schedule from the words before it. -/
def schedule_word (schedule : List UInt32) (index : ℕ) : UInt32 :=
  let w15 := schedule.getD (index - 15) 0
  let w2 := schedule.getD (index - 2) 0
  let s0 := rotate_right w15 7 ^^^ rotate_right w15 18 ^^^ (w15 >>> 3)
  let s1 := rotate_right w2 17 ^^^ rotate_right w2 19 ^^^ (w2 >>> 10)
  schedule.getD (index - 16) 0 + s0 + schedule.getD (index - 7) 0 + s1

/-- The message schedule: sixteen words of the block, then `16..64`. -/
def message_schedule (block : List UInt8) : List UInt32 :=
  (List.range 48).foldl (fun schedule i => schedule ++ [schedule_word schedule (16 + i)])
    (block_words block)

/-- One round with its constant and schedule word. -/
def compress_round (s : State) (constant word : UInt32) : State :=
  let sum1 := rotate_right s.e 6 ^^^ rotate_right s.e 11 ^^^ rotate_right s.e 25
  let choice := (s.e &&& s.f) ^^^ (~~~s.e &&& s.g)
  let temporary1 := s.h + sum1 + choice + constant + word
  let sum0 := rotate_right s.a 2 ^^^ rotate_right s.a 13 ^^^ rotate_right s.a 22
  let majority := (s.a &&& s.b) ^^^ (s.a &&& s.c) ^^^ (s.b &&& s.c)
  let temporary2 := sum0 + majority
  ⟨temporary1 + temporary2, s.a, s.b, s.c, s.d + temporary1, s.e, s.f, s.g⟩

/-- `compress`: the rounds over one block, added to the state word by word. -/
def compress (s : State) (block : List UInt8) : State :=
  let t := (ROUND_CONSTANTS.zip (message_schedule block)).foldl
    (fun t cw => compress_round t cw.1 cw.2) s
  ⟨s.a + t.a, s.b + t.b, s.c + t.c, s.d + t.d, s.e + t.e, s.f + t.f, s.g + t.g, s.h + t.h⟩

/-- `Sha256Hasher`. -/
structure Sha256Hasher where
  state : State
  buffer : List UInt8
  length_bytes : ℕ

/-- `Sha256Hasher::new`. -/
def Sha256Hasher.new : Sha256Hasher := ⟨INITIAL_STATE, [], 0⟩

/-- The largest `u64`. -/
def U64_MAX : ℕ := 2 ^ 64 - 1

/-- The `while input.len() >= 64` loop, run for the given number of blocks, and
the bytes it leaves. -/
def compress_blocks : ℕ → State → List UInt8 → State × List UInt8
  | 0, s, input => (s, input)
  | n + 1, s, input => compress_blocks n (compress s (input.take 64)) (input.drop 64)

/-- `Sha256Hasher::update`. -/
def Sha256Hasher.update (hasher : Sha256Hasher) (input : List UInt8) : Sha256Hasher :=
  let length_bytes := min (hasher.length_bytes + input.length) U64_MAX
  if hasher.buffer.length = 0 then
    let (state, rest) := compress_blocks (input.length / 64) hasher.state input
    ⟨state, rest, length_bytes⟩
  else
    let count := min (64 - hasher.buffer.length) input.length
    let buffer := hasher.buffer ++ input.take count
    let input := input.drop count
    if buffer.length < 64 then ⟨hasher.state, buffer, length_bytes⟩
    else
      let (state, rest) := compress_blocks (input.length / 64) (compress hasher.state buffer) input
      ⟨state, rest, length_bytes⟩

/-- The last one or two blocks: the `0x80` byte, zeros, and the bit length. -/
def pad_blocks (state : State) (buffer : List UInt8) (bit_length : ℕ) : State :=
  let buffer := buffer ++ [0x80]
  if 56 < buffer.length then
    compress (compress state (buffer ++ List.replicate (64 - buffer.length) 0))
      (List.replicate 56 0 ++ be64 bit_length)
  else
    compress state (buffer ++ List.replicate (56 - buffer.length) 0 ++ be64 bit_length)

/-- `Sha256Hasher::finalize`. -/
def Sha256Hasher.finalize (hasher : Sha256Hasher) : Sha256 :=
  let bit_length := min (hasher.length_bytes * 8) U64_MAX
  let s := pad_blocks hasher.state hasher.buffer bit_length
  ⟨be32 s.a ++ be32 s.b ++ be32 s.c ++ be32 s.d ++ be32 s.e ++ be32 s.f ++ be32 s.g ++ be32 s.h, rfl⟩

/-- The digest of one byte string. Every hash of the sources is a hasher that is
fed pieces in order; the pieces enter here as their concatenation. -/
def digest (bytes : List UInt8) : Sha256 := (Sha256Hasher.new.update bytes).finalize

/-- Two byte strings with one digest are one. -/
def NoCollision (a b : List UInt8) : Prop := digest a = digest b → a = b

end LeanBun.Core
