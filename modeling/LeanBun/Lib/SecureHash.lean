/-
SHA-256 of the Secure Hash Standard, as the standard states it.

Messages are strings of bits and words are bit vectors. The constants are the first
thirty-two bits of the fractional parts of roots of primes, taken here of the real
roots, so that no table of this module has to be trusted. A program that computes the
hash over bytes is compared with `hash_bits` by the lemmas on bits at the end of each
section.
-/
import LeanBun.Lib.BigEndian

set_option autoImplicit false

namespace LeanBun.Lib.SecureHash

/-! ## Bits -/

/-- The `width` bits of a number, the highest first. -/
def number_bits (width n : ℕ) : List Bool :=
  (List.range width).map fun i => n.testBit (width - 1 - i)

/-- The number of a string of bits. -/
def bits_value (bits : List Bool) : ℕ :=
  bits.foldl (fun n b => 2 * n + b.toNat) 0

/-- The bits of a string of bytes. -/
def byte_bits (bytes : List UInt8) : List Bool :=
  bytes.flatMap fun b => number_bits 8 b.toNat

@[simp] theorem number_bits_length (width n : ℕ) : (number_bits width n).length = width := by
  rw [number_bits, List.length_map, List.length_range]

theorem number_bits_add (high low n : ℕ) :
    number_bits (high + low) n = number_bits high (n / 2 ^ low) ++ number_bits low n := by
  apply List.ext_getElem
  · simp
  intro i hi hi'
  rw [number_bits_length] at hi
  by_cases hhigh : i < high
  · rw [List.getElem_append_left (by simpa using hhigh)]
    simp only [number_bits, List.getElem_map, List.getElem_range, Nat.testBit_div_two_pow]
    congr 1
    omega
  · rw [List.getElem_append_right (by simpa using hhigh)]
    simp only [number_bits, List.getElem_map, List.getElem_range, List.length_map,
      List.length_range]
    congr 1
    omega

/-- Bits above the width do not count. -/
theorem number_bits_mod (width n : ℕ) : number_bits width (n % 2 ^ width) = number_bits width n := by
  unfold number_bits
  apply List.map_congr_left
  intro i hi
  rw [List.mem_range] at hi
  rw [Nat.testBit_mod_two_pow, decide_eq_true (by omega : width - 1 - i < width), Bool.true_and]

theorem foldl_bits (bits : List Bool) (n : ℕ) :
    bits.foldl (fun n b => 2 * n + b.toNat) n = n * 2 ^ bits.length + bits_value bits := by
  unfold bits_value
  induction bits generalizing n with
  | nil => simp
  | cons b bits ih =>
    rw [List.foldl_cons, List.foldl_cons, ih, ih (2 * 0 + b.toNat), List.length_cons, Nat.pow_succ]
    ring

theorem bits_value_append (front back : List Bool) :
    bits_value (front ++ back) = bits_value front * 2 ^ back.length + bits_value back := by
  rw [bits_value, List.foldl_append, foldl_bits back]
  rfl

theorem bits_value_lt (bits : List Bool) : bits_value bits < 2 ^ bits.length := by
  induction bits using List.reverseRecOn with
  | nil => exact Nat.one_pos
  | append_singleton bits b ih =>
    have hb : bits_value [b] ≤ 1 := by cases b <;> decide
    rw [bits_value_append, List.length_append, List.length_singleton, Nat.pow_succ _ bits.length]
    omega

/-- **Numbers and their bits.** -/
theorem bits_value_number_bits (width n : ℕ) : bits_value (number_bits width n) = n % 2 ^ width := by
  induction width generalizing n with
  | zero => rw [Nat.pow_zero, Nat.mod_one]; rfl
  | succ width ih =>
    -- the lowest bit stands last
    have hlow : bits_value (number_bits 1 n) = n % 2 := by
      have hbit : number_bits 1 n = [n.testBit 0] := rfl
      rw [hbit, Nat.testBit_zero]
      obtain hn | hn := Nat.mod_two_eq_zero_or_one n <;> rw [hn] <;> rfl
    rw [number_bits_add, bits_value_append, ih, hlow, number_bits_length, Nat.pow_one, Nat.pow_succ,
      Nat.mul_comm (2 ^ width) 2, Nat.mod_mul]
    omega

@[simp] theorem byte_bits_length (bytes : List UInt8) :
    (byte_bits bytes).length = 8 * bytes.length := by
  induction bytes with
  | nil => rfl
  | cons b bytes ih =>
    rw [byte_bits, List.flatMap_cons, List.length_append, number_bits_length, List.length_cons]
    unfold byte_bits at ih
    omega

theorem byte_bits_cons (b : UInt8) (bytes : List UInt8) :
    byte_bits (b :: bytes) = number_bits 8 b.toNat ++ byte_bits bytes := rfl

theorem byte_bits_append (front back : List UInt8) :
    byte_bits (front ++ back) = byte_bits front ++ byte_bits back := List.flatMap_append

theorem byte_bits_drop (n : ℕ) (bytes : List UInt8) :
    (byte_bits bytes).drop (8 * n) = byte_bits (bytes.drop n) := by
  induction n generalizing bytes with
  | zero => rfl
  | succ n ih =>
    cases bytes with
    | nil => simp [byte_bits]
    | cons b bytes =>
      rw [byte_bits_cons, List.drop_append, number_bits_length, List.drop_succ_cons, ← ih,
        List.drop_eq_nil_of_le (by simp), List.nil_append]
      congr 1

theorem byte_bits_take (n : ℕ) (bytes : List UInt8) :
    (byte_bits bytes).take (8 * n) = byte_bits (bytes.take n) := by
  induction n generalizing bytes with
  | zero => rfl
  | succ n ih =>
    cases bytes with
    | nil => simp [byte_bits]
    | cons b bytes =>
      rw [byte_bits_cons, List.take_append, number_bits_length, List.take_succ_cons, byte_bits_cons,
        ← ih, List.take_of_length_le (by simp)]
      congr 2

/-- Both read bytes as a number with the highest first. -/
theorem bits_value_byte_bits (bytes : List UInt8) : bits_value (byte_bits bytes) = be_value bytes := by
  induction bytes with
  | nil => rfl
  | cons b bytes ih =>
    have hb : b.toNat < 2 ^ 8 := b.toNat_lt
    rw [byte_bits_cons, bits_value_append, ih, bits_value_number_bits, Nat.mod_eq_of_lt hb,
      byte_bits_length, be_value, Nat.pow_mul]

theorem byte_bits_be_bytes (width n : ℕ) :
    byte_bits (be_bytes width n) = number_bits (8 * width) n := by
  induction width with
  | zero => rfl
  | succ width ih =>
    have hsplit : 8 * (width + 1) = 8 + 8 * width := by omega
    have hpow : (256 : ℕ) ^ width = 2 ^ (8 * width) := by rw [Nat.pow_mul]
    rw [be_bytes, byte_bits_cons, ih, hsplit, number_bits_add, UInt8.toNat_ofNat', number_bits_mod,
      hpow]

/-! ## Functions and constants -/

/-- A word of thirty-two bits. -/
abbrev Word := BitVec 32

def ch (x y z : Word) : Word := (x &&& y) ^^^ (~~~x &&& z)

def maj (x y z : Word) : Word := (x &&& y) ^^^ (x &&& z) ^^^ (y &&& z)

def big_sigma0 (x : Word) : Word := x.rotateRight 2 ^^^ x.rotateRight 13 ^^^ x.rotateRight 22

def big_sigma1 (x : Word) : Word := x.rotateRight 6 ^^^ x.rotateRight 11 ^^^ x.rotateRight 25

def small_sigma0 (x : Word) : Word := x.rotateRight 7 ^^^ x.rotateRight 18 ^^^ (x >>> 3)

def small_sigma1 (x : Word) : Word := x.rotateRight 17 ^^^ x.rotateRight 19 ^^^ (x >>> 10)

/-- The first sixty-four primes. -/
def primes : List ℕ := (List.range 312).filter Nat.Prime

/-- The first thirty-two bits of the fractional part of a root of a number. -/
noncomputable def root_fraction (degree p : ℕ) : Word :=
  BitVec.ofNat 32 ⌊Int.fract ((p : ℝ) ^ ((degree : ℝ)⁻¹)) * 2 ^ 32⌋₊

/-- The constant of a round, from the cube root of a prime. -/
noncomputable def round_constant (t : ℕ) : Word := root_fraction 3 (primes.getD t 0)

/-- One of the eight words of the initial hash value, from the square root of a prime. -/
noncomputable def initial_word (i : ℕ) : Word := root_fraction 2 (primes.getD i 0)

theorem primes_eq : primes =
    [2, 3, 5, 7, 11, 13, 17, 19, 23, 29, 31, 37, 41, 43, 47, 53, 59, 61, 67, 71, 73, 79, 83, 89, 97,
      101, 103, 107, 109, 113, 127, 131, 137, 139, 149, 151, 157, 163, 167, 173, 179, 181, 191, 193,
      197, 199, 211, 223, 227, 229, 233, 239, 241, 251, 257, 263, 269, 271, 277, 281, 283, 293, 307,
      311] := by
  decide +kernel

/-- **The bits of a root from whole numbers.** The whole root of the number with
thirty-two more bits for each degree is the root and the first bits of its fraction. -/
theorem root_fraction_eq {degree p n : ℕ} (hdegree : degree ≠ 0)
    (hle : n ^ degree ≤ p * 2 ^ (32 * degree)) (hlt : p * 2 ^ (32 * degree) < (n + 1) ^ degree) :
    root_fraction degree p = BitVec.ofNat 32 n := by
  set x : ℝ := (p : ℝ) ^ ((degree : ℝ)⁻¹) with hx
  have hx0 : 0 ≤ x := Real.rpow_nonneg (Nat.cast_nonneg p) _
  have hpow : x ^ degree = p := Real.rpow_inv_natCast_pow (Nat.cast_nonneg p) hdegree
  have hscaled : (x * 2 ^ 32) ^ degree = ((p * 2 ^ (32 * degree) : ℕ) : ℝ) := by
    rw [mul_pow, hpow, ← pow_mul]
    push_cast
    rfl
  have hscaled0 : 0 ≤ x * 2 ^ 32 := by positivity
  have hfloor : ⌊x * 2 ^ 32⌋₊ = n := by
    rw [Nat.floor_eq_iff hscaled0]
    constructor
    · refine le_of_pow_le_pow_left₀ hdegree hscaled0 ?_
      rw [hscaled]
      exact_mod_cast hle
    · refine lt_of_pow_lt_pow_left₀ degree (by positivity) ?_
      rw [hscaled]
      exact_mod_cast hlt
  have hfract : Int.fract x * 2 ^ 32 = x * 2 ^ 32 - ((⌊x⌋₊ * 2 ^ 32 : ℕ) : ℝ) := by
    rw [Int.fract, ← natCast_floor_eq_intCast_floor hx0]
    push_cast
    ring
  have hwhole : ⌊x⌋₊ * 2 ^ 32 ≤ n := by
    rw [← hfloor]
    refine Nat.le_floor ?_
    rw [Nat.cast_mul, Nat.cast_pow, Nat.cast_ofNat]
    exact mul_le_mul_of_nonneg_right (Nat.floor_le hx0) (pow_nonneg zero_le_two 32)
  unfold root_fraction
  rw [← hx, hfract, Nat.floor_sub_natCast, hfloor]
  apply BitVec.eq_of_toNat_eq
  rw [BitVec.toNat_ofNat, BitVec.toNat_ofNat]
  omega

/-! ## The hash of a message -/

/-- Eight working variables, or the hash value between blocks. -/
structure Working where
  a : Word
  b : Word
  c : Word
  d : Word
  e : Word
  f : Word
  g : Word
  h : Word

/-- The message schedule of a block. -/
def schedule (message : ℕ → Word) (t : ℕ) : Word :=
  if t < 16 then message t
  else small_sigma1 (schedule message (t - 2)) + schedule message (t - 7) +
    small_sigma0 (schedule message (t - 15)) + schedule message (t - 16)
termination_by t

/-- One round. -/
def hash_round (s : Working) (constant word : Word) : Working :=
  let t1 := s.h + big_sigma1 s.e + ch s.e s.f s.g + constant + word
  let t2 := big_sigma0 s.a + maj s.a s.b s.c
  ⟨t1 + t2, s.a, s.b, s.c, s.d + t1, s.e, s.f, s.g⟩

/-- The hash value after one more block. -/
noncomputable def next_value (value : Working) (message : ℕ → Word) : Working :=
  let s := (List.range 64).foldl (fun s t => hash_round s (round_constant t) (schedule message t)) value
  ⟨value.a + s.a, value.b + s.b, value.c + s.c, value.d + s.d, value.e + s.e, value.f + s.f,
    value.g + s.g, value.h + s.h⟩

/-- The word of a block at a position. -/
def block_word (block : List Bool) (t : ℕ) : Word :=
  BitVec.ofNat 32 (bits_value ((block.drop (32 * t)).take 32))

/-- How many zeros pad a message of so many bits. -/
def padding_zeros (length : ℕ) : ℕ := (959 - length % 512) % 512

/-- **The padding is the least one.** -/
theorem padding_zeros_least (length : ℕ) :
    (length + 1 + padding_zeros length) % 512 = 448 ∧
      ∀ zeros, (length + 1 + zeros) % 512 = 448 → padding_zeros length ≤ zeros := by
  unfold padding_zeros
  refine ⟨by omega, fun zeros h => by omega⟩

/-- The padded message. -/
def pad (message : List Bool) : List Bool :=
  message ++ true :: List.replicate (padding_zeros message.length) false ++
    number_bits 64 message.length

/-- The hash value after so many blocks of a padded message. -/
noncomputable def hash_blocks : ℕ → Working → List Bool → Working
  | 0, value, _ => value
  | n + 1, value, message =>
    hash_blocks n (next_value value (block_word (message.take 512))) (message.drop 512)

noncomputable def initial_value : Working :=
  ⟨initial_word 0, initial_word 1, initial_word 2, initial_word 3, initial_word 4, initial_word 5,
    initial_word 6, initial_word 7⟩

/-- The bits of a word. -/
def word_bits (w : Word) : List Bool := number_bits 32 w.toNat

def Working.bits (s : Working) : List Bool :=
  word_bits s.a ++ word_bits s.b ++ word_bits s.c ++ word_bits s.d ++ word_bits s.e ++
    word_bits s.f ++ word_bits s.g ++ word_bits s.h

/-- **SHA-256** of a message of fewer than 2^64 bits. -/
noncomputable def hash_bits (message : List Bool) : List Bool :=
  (hash_blocks ((pad message).length / 512) initial_value (pad message)).bits

end LeanBun.Lib.SecureHash
