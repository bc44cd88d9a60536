/-
Rust text as the records of this repository use it.

A `str` is the sequence of its code points and `as_bytes` is its UTF-8
encoding, so a length limit counts encoded bytes and not characters. On top of
that this file has the four things every canonical record is written and read
with: lowercase hex tokens, decimal counts, tab-separated fields and
LF-terminated lines.

Each printer is paired with its reader and the round trip of the pair. The
readers return an `Option`: which error a caller makes of a refusal is the
caller's business.
-/
import LeanBun.Lib.Deciding

set_option autoImplicit false

namespace LeanBun.Lib

/-! ## Strings and their bytes -/

/-- A Rust `str`: its code points in order. -/
abbrev Str := List Char

/-- `str::as_bytes`: the UTF-8 encoding. -/
def as_bytes (s : Str) : List UInt8 := s.flatMap String.utf8EncodeChar

/-- `str::len`: the number of encoded bytes. -/
def byte_len (s : Str) : ℕ := (as_bytes s).length

/-- `String::from_utf8`. -/
def from_utf8 (bytes : List UInt8) : Option Str :=
  bytes.toByteArray.utf8Decode?.map Array.toList

/-- **UTF-8 round trip.** The bytes of a text decode to that text. -/
@[simp] theorem from_utf8_as_bytes (s : Str) : from_utf8 (as_bytes s) = some s := by
  have henc : (as_bytes s).toByteArray = s.utf8Encode := rfl
  simp [from_utf8, henc]

/-- **Decoding is exact.** A byte string decodes to a text only if it is that text's bytes. -/
theorem from_utf8_eq_some {bytes : List UInt8} {s : Str} :
    from_utf8 bytes = some s ↔ bytes = as_bytes s := by
  constructor
  · intro h
    unfold from_utf8 at h
    obtain ⟨chars, hchars, rfl⟩ := Option.map_eq_some_iff.mp h
    have hsome : bytes.toByteArray.utf8Decode?.isSome = true := by rw [hchars]; rfl
    have hget : bytes.toByteArray.utf8Decode?.get hsome = chars := by simp only [hchars, Option.get_some]
    have hback := ByteArray.utf8Encode_get_utf8Decode? (b := bytes.toByteArray) (h := hsome)
    rw [hget] at hback
    have hbytes := congrArg (fun array : ByteArray => array.data.toList) hback
    simpa [as_bytes, List.utf8Encode] using hbytes.symm
  · rintro rfl
    exact from_utf8_as_bytes s

/-- The bytes determine the text. -/
theorem as_bytes_injective : Function.Injective as_bytes := by
  intro s t h
  have hs := from_utf8_as_bytes s
  rw [h, from_utf8_as_bytes] at hs
  exact (Option.some.inj hs).symm

@[simp] theorem as_bytes_nil : as_bytes [] = [] := rfl

@[simp] theorem as_bytes_append (s t : Str) :
    as_bytes (s ++ t) = as_bytes s ++ as_bytes t := by simp [as_bytes]

@[simp] theorem byte_len_nil : byte_len [] = 0 := rfl

@[simp] theorem byte_len_append (s t : Str) :
    byte_len (s ++ t) = byte_len s + byte_len t := by simp [byte_len]

/-- Every code point takes at least one byte. -/
theorem length_le_byte_len (s : Str) : s.length ≤ byte_len s := by
  induction s with
  | nil => simp
  | cons c s ih =>
    have hc : 0 < (String.utf8EncodeChar c).length :=
      List.length_pos_iff.mpr String.utf8EncodeChar_ne_nil
    have hsplit : byte_len (c :: s) = (String.utf8EncodeChar c).length + byte_len s := by
      simp [byte_len, as_bytes]
    rw [hsplit, List.length_cons]
    omega

/-- `char::is_control`: the general category Cc. -/
def is_control (c : Char) : Bool :=
  decide (c.toNat < 0x20) || decide (0x7f ≤ c.toNat ∧ c.toNat ≤ 0x9f)

/-- A code point takes at most four bytes. -/
theorem byte_len_le (s : Str) : byte_len s ≤ 4 * s.length := by
  induction s with
  | nil => simp
  | cons c s ih =>
    have hc : (String.utf8EncodeChar c).length ≤ 4 := by
      rw [String.length_utf8EncodeChar]
      exact Char.utf8Size_le_four c
    have hsplit : byte_len (c :: s) = (String.utf8EncodeChar c).length + byte_len s := by
      simp [byte_len, as_bytes]
    rw [hsplit, List.length_cons]
    omega

/-- An ASCII code point takes one byte. -/
theorem byte_len_ascii {s : Str} (h : ∀ c ∈ s, c.toNat ≤ 127) : byte_len s = s.length := by
  induction s with
  | nil => rfl
  | cons c s ih =>
    have hc : (String.utf8EncodeChar c).length = 1 := by
      rw [String.length_utf8EncodeChar, Char.utf8Size_eq_one_iff]
      exact h c List.mem_cons_self
    have hsplit : byte_len (c :: s) = (String.utf8EncodeChar c).length + byte_len s := by
      simp [byte_len, as_bytes]
    rw [hsplit, hc, ih fun d hd => h d (List.mem_cons_of_mem _ hd), List.length_cons, Nat.add_comm]

/-- `str::strip_prefix`. -/
def strip_prefix (pre s : Str) : Option Str := s.dropPrefix? pre

/-- `str::split_once` at a character: the text before the first occurrence and
the text after it. -/
def split_once (sep : Char) : Str → Option (Str × Str)
  | [] => none
  | c :: s => if c = sep then some ([], s) else
      (split_once sep s).map fun parts => (c :: parts.1, parts.2)

/-! ## Lowercase hex -/

/-- The table `b"0123456789abcdef"`. -/
def hex_digit (nibble : UInt8) : Char :=
  "0123456789abcdef".toList.getD nibble.toNat '0'

/-- The two hex digits of a byte, high nibble first. -/
def hex_byte (byte : UInt8) : Str := [hex_digit (byte >>> 4), hex_digit (byte &&& 15)]

/-- `hex`: two digits for each byte. -/
def hex (bytes : List UInt8) : Str := bytes.flatMap hex_byte

/-- `is_ascii_digit() || (b'a'..=b'f').contains(&b)`. -/
def is_lower_hex (c : Char) : Bool :=
  decide (('0' ≤ c ∧ c ≤ '9') ∨ ('a' ≤ c ∧ c ≤ 'f'))

/-- The value of a hex digit. -/
def hex_nibble (c : Char) : UInt8 :=
  if c ≤ '9' then UInt8.ofNat (c.toNat - '0'.toNat) else UInt8.ofNat (c.toNat - 'a'.toNat + 10)

/-- `chunks_exact(2)` folded into bytes. -/
def pair_bytes : Str → List UInt8
  | high :: low :: s => ((hex_nibble high <<< 4) ||| hex_nibble low) :: pair_bytes s
  | _ => []

/-- Reads an even number of lowercase hex digits. -/
def unhex_bytes (s : Str) : Option (List UInt8) :=
  if s.length % 2 = 0 ∧ s.all is_lower_hex then some (pair_bytes s) else none

/-- A property of bytes is decided by its 256 instances. -/
theorem uint8_all {P : UInt8 → Prop} (h : ∀ n : ℕ, n < 256 → P (UInt8.ofNat n)) (b : UInt8) :
    P b := by
  have hb := h b.toNat b.toNat_lt
  rwa [UInt8.ofNat_toNat] at hb

/-- The two digits of a byte are lowercase hex and give the byte back. -/
theorem hex_byte_spec (b : UInt8) :
    is_lower_hex (hex_digit (b >>> 4)) = true ∧ is_lower_hex (hex_digit (b &&& 15)) = true ∧
      (hex_nibble (hex_digit (b >>> 4)) <<< 4) ||| hex_nibble (hex_digit (b &&& 15)) = b := by
  revert b
  exact uint8_all (by decide +kernel)

@[simp] theorem hex_nil : hex [] = [] := rfl

@[simp] theorem hex_cons (b : UInt8) (bytes : List UInt8) :
    hex (b :: bytes) = hex_digit (b >>> 4) :: hex_digit (b &&& 15) :: hex bytes := rfl

@[simp] theorem hex_length (bytes : List UInt8) : (hex bytes).length = 2 * bytes.length := by
  induction bytes with
  | nil => rfl
  | cons b bytes ih => simp only [hex_cons, List.length_cons, ih]; omega

theorem hex_all_lower (bytes : List UInt8) : (hex bytes).all is_lower_hex = true := by
  induction bytes with
  | nil => rfl
  | cons b bytes ih =>
    obtain ⟨h1, h2, -⟩ := hex_byte_spec b
    simp only [hex_cons, List.all_cons, h1, h2, ih, Bool.and_self]

theorem pair_bytes_hex (bytes : List UInt8) : pair_bytes (hex bytes) = bytes := by
  induction bytes with
  | nil => rfl
  | cons b bytes ih => rw [hex_cons, pair_bytes, ih, (hex_byte_spec b).2.2]

/-- **Hex round trip.** -/
@[simp] theorem unhex_bytes_hex (bytes : List UInt8) : unhex_bytes (hex bytes) = some bytes := by
  rw [unhex_bytes, if_pos ⟨by rw [hex_length]; omega, hex_all_lower bytes⟩, pair_bytes_hex]

theorem pair_bytes_length (s : Str) : (pair_bytes s).length = s.length / 2 := by
  fun_induction pair_bytes s with
  | case1 high low s ih => simp only [List.length_cons, ih]; omega
  | case2 s hs =>
    match s, hs with
    | [], _ => rfl
    | [_], _ => simp
    | a :: b :: s, hs => exact absurd rfl (hs a b s)

theorem hex_injective : Function.Injective hex := by
  intro a b h
  rw [← pair_bytes_hex a, h, pair_bytes_hex]

theorem lower_hex_mem {c : Char} (h : is_lower_hex c = true) : c ∈ "0123456789abcdef".toList := by
  have hall : ∀ n < 128, is_lower_hex (Char.ofNat n) = true →
      Char.ofNat n ∈ "0123456789abcdef".toList := by decide +kernel
  have hsmall : c.toNat < 128 := by
    unfold is_lower_hex at h
    have hor := of_decide_eq_true h
    simp only [Char.le_def, UInt32.le_iff_toNat_le] at hor
    have h9 : '9'.val.toNat = 57 := rfl
    have hf : 'f'.val.toNat = 102 := rfl
    have hc : c.toNat = c.val.toNat := rfl
    omega
  rw [← Char.ofNat_toNat c] at h ⊢
  exact hall c.toNat hsmall h

/-- **Digits are read as the bytes that they are written for.** -/
theorem hex_pair_bytes {s : Str} (heven : s.length % 2 = 0) (h : s.all is_lower_hex = true) :
    hex (pair_bytes s) = s := by
  have hpair : ∀ high ∈ "0123456789abcdef".toList, ∀ low ∈ "0123456789abcdef".toList,
      hex_byte ((hex_nibble high <<< 4) ||| hex_nibble low) = [high, low] := by decide +kernel
  induction s using pair_bytes.induct with
  | case1 high low s ih =>
    rw [List.all_cons, List.all_cons, Bool.and_eq_true, Bool.and_eq_true] at h
    rw [pair_bytes, hex, List.flatMap_cons, hpair high (lower_hex_mem h.1) low (lower_hex_mem h.2.1)]
    have hrest := ih (by simp only [List.length_cons] at heven; omega) h.2.2
    rw [hex] at hrest
    rw [hrest]
    rfl
  | case2 s hs =>
    match s, hs with
    | [], _ => rfl
    | [_], _ => cases heven
    | a :: b :: s, hs => exact absurd rfl (hs a b s)

/-! ## Plain tokens

A token that is neither a separator nor the placeholder `-` survives being put
between separators. Hex digits and decimal digits are such characters. -/

/-- Characters that the canonical records use for nothing but themselves. -/
def is_token_char (c : Char) : Bool :=
  decide (c ≠ '\t') && decide (c ≠ '\n') && decide (c ≠ '\r')

/-- A text that can stand as one tab-separated field. -/
def IsToken (s : Str) : Prop := ∀ c ∈ s, is_token_char c = true

theorem IsToken.nil : IsToken [] := by simp [IsToken]

theorem IsToken.append {s t : Str} (hs : IsToken s) (ht : IsToken t) : IsToken (s ++ t) := by
  intro c hc
  rcases List.mem_append.mp hc with h | h
  · exact hs c h
  · exact ht c h

theorem IsToken.not_mem {s : Str} (hs : IsToken s) {c : Char} (hc : is_token_char c = false) :
    c ∉ s := by
  intro hmem
  rw [hs c hmem] at hc
  exact Bool.noConfusion hc

theorem IsToken.not_control {s : Str} (hs : ∀ c ∈ s, is_control c = false) : IsToken s := by
  intro c hc
  have h := hs c hc
  simp only [is_token_char, Bool.and_eq_true, decide_eq_true_eq]
  refine ⟨⟨?_, ?_⟩, ?_⟩ <;> rintro rfl <;> exact absurd h (by decide)

/-- A hex digit is a token character and not the placeholder. -/
theorem is_lower_hex_token {c : Char} (h : is_lower_hex c = true) :
    is_token_char c = true ∧ c ≠ '-' := by
  simp only [is_lower_hex, decide_eq_true_eq] at h
  refine ⟨?_, ?_⟩
  · simp only [is_token_char, Bool.and_eq_true, decide_eq_true_eq]
    refine ⟨⟨?_, ?_⟩, ?_⟩ <;> rintro rfl <;> revert h <;> decide
  · rintro rfl
    revert h
    decide

theorem hex_token (bytes : List UInt8) : IsToken (hex bytes) := fun c hc =>
  (is_lower_hex_token (List.all_eq_true.mp (hex_all_lower bytes) c hc)).1

/-- A hex text is never the placeholder `-`. -/
theorem hex_ne_dash (bytes : List UInt8) : hex bytes ≠ ['-'] := by
  intro h
  have hmem : '-' ∈ hex bytes := by rw [h]; exact List.mem_singleton_self _
  exact (is_lower_hex_token (List.all_eq_true.mp (hex_all_lower bytes) _ hmem)).2 rfl

/-! ## Decimal counts -/

/-- `usize::to_string`. -/
def decimal (n : ℕ) : Str := Nat.toDigits 10 n

/-- `u8::is_ascii_digit`. -/
def is_digit (c : Char) : Bool := decide ('0' ≤ c ∧ c ≤ '9')

/-- A nonempty digit string without a leading zero. -/
def is_canonical_decimal (s : Str) : Bool :=
  !s.isEmpty && !(decide (1 < s.length) && decide (s.head? = some '0')) && s.all is_digit

/-- The value of a digit string. -/
def decimal_value (s : Str) : ℕ := Nat.ofDigitChars 10 s 0

theorem decimal_digits (n : ℕ) : (decimal n).all is_digit = true := by
  rw [List.all_eq_true]
  intro c hc
  have h := Nat.isDigit_of_mem_toDigits (by decide) (by decide) hc
  simp only [Char.isDigit, Bool.and_eq_true, decide_eq_true_eq] at h
  simp only [is_digit, decide_eq_true_eq]
  exact ⟨h.1, h.2⟩

/-- The decimal text of a number below ten has one digit. -/
theorem decimal_of_lt {n : ℕ} (h : n < 10) : decimal n = [n.digitChar] :=
  Nat.toDigits_of_lt_base h

theorem decimal_of_le {n : ℕ} (h : 10 ≤ n) : decimal n = decimal (n / 10) ++ decimal (n % 10) := by
  have hdiv : 0 < n / 10 := by omega
  have hmod : n % 10 < 10 := Nat.mod_lt _ (by decide)
  have happ := Nat.toDigits_append_toDigits (b := 10) (by decide) hdiv hmod
  rw [decimal, decimal, decimal, happ, Nat.div_add_mod]

theorem decimal_ne_nil (n : ℕ) : decimal n ≠ [] := Nat.toDigits_ne_nil

/-- Only zero is written with a leading zero. -/
theorem decimal_head (n : ℕ) (hn : 0 < n) : (decimal n).head? ≠ some '0' := by
  induction n using Nat.strong_induction_on with
  | _ n ih =>
    by_cases hlt : n < 10
    · rw [decimal_of_lt hlt]
      have : ∀ m : ℕ, m < 10 → 0 < m → [m.digitChar].head? ≠ some '0' := by decide
      exact this n hlt hn
    · rw [decimal_of_le (by omega), List.head?_append_of_ne_nil _ (decimal_ne_nil _)]
      exact ih (n / 10) (by omega) (by omega)

theorem decimal_canonical (n : ℕ) : is_canonical_decimal (decimal n) = true := by
  have hne : (decimal n).isEmpty = false := by
    simpa [List.isEmpty_iff] using decimal_ne_nil n
  have hlead : (decide (1 < (decimal n).length) && decide ((decimal n).head? = some '0')) = false := by
    rcases Nat.eq_zero_or_pos n with rfl | hpos
    · decide
    · simp [decimal_head n hpos]
  simp [is_canonical_decimal, hne, hlead, decimal_digits]

/-- **Decimal round trip.** -/
@[simp] theorem decimal_value_decimal (n : ℕ) : decimal_value (decimal n) = n :=
  Nat.ofDigitChars_ten_toDigits

theorem decimal_token (n : ℕ) : IsToken (decimal n) := by
  intro c hc
  have h := List.all_eq_true.mp (decimal_digits n) c hc
  exact (is_lower_hex_token (by simp only [is_digit, is_lower_hex, decide_eq_true_eq] at h ⊢
                                exact Or.inl h)).1

theorem is_digit_char {c : Char} (h : is_digit c = true) : c.toNat - '0'.toNat < 10 ∧
    (c.toNat - '0'.toNat).digitChar = c := by
  have hall : ∀ n < 128, is_digit (Char.ofNat n) = true →
      n - '0'.toNat < 10 ∧ (n - '0'.toNat).digitChar = Char.ofNat n := by decide +kernel
  have hsmall : c.toNat < 128 := by
    unfold is_digit at h
    have hor := of_decide_eq_true h
    simp only [Char.le_def, UInt32.le_iff_toNat_le] at hor
    have h9 : '9'.val.toNat = 57 := rfl
    have hc : c.toNat = c.val.toNat := rfl
    omega
  rw [← Char.ofNat_toNat c] at h
  have hresult := hall c.toNat hsmall h
  rw [Char.ofNat_toNat] at hresult
  exact hresult

/-- **Canonical digits are those that a number is written with.** -/
theorem decimal_decimal_value {s : Str} (h : is_canonical_decimal s = true) :
    decimal (decimal_value s) = s := by
  induction s using List.reverseRecOn with
  | nil => cases h
  | append_singleton front c ih =>
    unfold is_canonical_decimal at h
    rw [Bool.and_eq_true, Bool.and_eq_true, List.all_append, Bool.and_eq_true, List.all_cons,
      Bool.and_eq_true] at h
    obtain ⟨⟨-, hlead⟩, hfront, hc, -⟩ := h
    obtain ⟨hlt, hchar⟩ := is_digit_char hc
    have hvalue : decimal_value (front ++ [c]) = 10 * decimal_value front + (c.toNat - '0'.toNat) := by
      unfold decimal_value
      rw [Nat.ofDigitChars_append, Nat.ofDigitChars_cons, Nat.ofDigitChars_nil]
    by_cases hnil : front = []
    · rw [hvalue, hnil]
      show decimal (10 * 0 + _) = [c]
      rw [Nat.mul_zero, Nat.zero_add, decimal_of_lt hlt, hchar]
    · -- the digits in front are canonical, and their number is not zero
      have hlength : 1 < (front ++ [c]).length := by
        have := List.length_pos_iff.mpr hnil
        rw [List.length_append, List.length_singleton]
        omega
      have hhead : front.head? ≠ some '0' := by
        rw [decide_eq_true hlength, Bool.true_and, Bool.not_eq_true', decide_eq_false_iff_not,
          List.head?_append_of_ne_nil _ hnil] at hlead
        exact hlead
      have hcanonical : is_canonical_decimal front = true := by
        unfold is_canonical_decimal
        rw [hfront, decide_eq_false hhead, Bool.and_false, List.isEmpty_eq_false_iff.mpr hnil]
        rfl
      have hpos : decimal_value front ≠ 0 := by
        intro hzero
        have hdigits := ih hcanonical
        rw [hzero] at hdigits
        exact hhead (by rw [← hdigits]; rfl)
      rw [hvalue, decimal_of_le (by omega), Nat.mul_add_div (by omega), Nat.mul_add_mod,
        Nat.div_eq_of_lt hlt, Nat.add_zero, ih hcanonical, Nat.mod_eq_of_lt hlt, decimal_of_lt hlt,
        hchar]

/-- `str::parse::<usize>` on a 64-bit platform: an optional plus sign and digits. -/
def usize_from_str (s : Str) : Option ℕ :=
  let digits := if s.head? = some '+' then s.tail else s
  if digits ≠ [] ∧ digits.all is_digit = true ∧ decimal_value digits < 2 ^ 64 then
    some (decimal_value digits)
  else none

theorem usize_from_str_decimal {n : ℕ} (h : n < 2 ^ 64) : usize_from_str (decimal n) = some n := by
  have hplus : (decimal n).head? ≠ some '+' := by
    intro hhead
    have hmem := List.mem_of_mem_head? (by rw [hhead]; rfl : '+' ∈ (decimal n).head?)
    have hdigit := List.all_eq_true.mp (decimal_digits n) _ hmem
    revert hdigit
    decide
  unfold usize_from_str
  rw [if_neg hplus]
  dsimp only
  rw [decimal_value_decimal, if_pos ⟨decimal_ne_nil n, decimal_digits n, h⟩]

/-- A count that is spelled canonically is spelled as its number. -/
theorem usize_from_str_canonical {s : Str} {n : ℕ} (h : usize_from_str s = some n)
    (hcanonical : is_canonical_decimal s = true) : s = decimal n := by
  have hplus : s.head? ≠ some '+' := by
    intro hhead
    have hmem : '+' ∈ s := List.mem_of_mem_head? hhead
    unfold is_canonical_decimal at hcanonical
    rw [Bool.and_eq_true] at hcanonical
    exact absurd (List.all_eq_true.mp hcanonical.2 '+' hmem) (by decide)
  unfold usize_from_str at h
  rw [if_neg hplus] at h
  dsimp only at h
  split at h
  · rw [← Option.some.inj h, decimal_decimal_value hcanonical]
  · cases h

theorem usize_from_str_lt {s : Str} {n : ℕ} (h : usize_from_str s = some n) : n < 2 ^ 64 := by
  unfold usize_from_str at h
  dsimp only at h
  generalize (if s.head? = some '+' then s.tail else s) = digits at h
  split at h
  · next hdigits => exact Option.some.inj h ▸ hdigits.2.2
  · cases h

/-! ## Splitting at a separator -/

/-- `str::split` at a character. -/
def split (sep : Char) (s : Str) : List Str := s.splitOn sep

/-- No piece of a split holds the separator. -/
theorem not_mem_of_mem_split {sep : Char} {s piece : Str} (h : piece ∈ split sep s) :
    sep ∉ piece := by
  induction s generalizing piece with
  | nil =>
    have hnil : piece = [] := by simpa [split, List.splitOn_nil] using h
    rw [hnil]
    exact List.not_mem_nil
  | cons c s ih =>
    rw [split, List.splitOn_cons_eq_if_modifyHead] at h
    obtain ⟨first, rest, hsplit⟩ := List.exists_cons_of_ne_nil (List.splitOn_ne_nil sep s)
    rw [hsplit] at h
    have hpieces : ∀ q ∈ first :: rest, sep ∉ q := fun q hq => ih (by rw [split, hsplit]; exact hq)
    by_cases hc : c = sep
    · rw [if_pos (by simp [hc])] at h
      rcases List.mem_cons.mp h with rfl | h
      · exact List.not_mem_nil
      · exact hpieces piece h
    · rw [if_neg (by simp [hc]), List.modifyHead_cons] at h
      rcases List.mem_cons.mp h with rfl | h
      · intro hmem
        rcases List.mem_cons.mp hmem with heq | hmem
        · exact hc heq.symm
        · exact hpieces first List.mem_cons_self hmem
      · exact hpieces piece (List.mem_cons_of_mem _ h)

/-- A split has a last piece, and the text with a separator in front ends with
the separator and that piece. -/
theorem split_last (sep : Char) (s : Str) :
    ∃ init last front, split sep s = init ++ [last] ∧ sep :: s = front ++ sep :: last ∧
      sep ∉ last := by
  have hne : split sep s ≠ [] := List.splitOn_ne_nil sep s
  obtain ⟨init, last, hsplit⟩ : ∃ init last, split sep s = init ++ [last] :=
    ⟨_, _, (List.dropLast_append_getLast hne).symm⟩
  have hjoin : ∀ init : List Str,
      sep :: List.intercalate [sep] (init ++ [last]) = init.flatMap (sep :: ·) ++ sep :: last := by
    intro init
    induction init with
    | nil => simp [List.intercalate_singleton]
    | cons p init ih =>
      have hrest : init ++ [last] ≠ [] := by simp
      rw [List.cons_append, List.intercalate_cons_of_ne_nil hrest, List.flatMap_cons]
      simp only [List.append_assoc, List.cons_append, List.nil_append, ih]
  refine ⟨init, last, init.flatMap (sep :: ·), hsplit, ?_, ?_⟩
  · rw [← hjoin, ← hsplit]
    exact congrArg _ (List.intercalate_splitOn sep).symm
  · exact not_mem_of_mem_split (s := s) (by rw [hsplit]; simp)

/-- Text without separators at the end belongs to the last piece. -/
theorem split_append {sep : Char} {s t : Str} {init : List Str} {last : Str}
    (hs : split sep s = init ++ [last]) (ht : sep ∉ t) :
    split sep (s ++ t) = init ++ [last ++ t] := by
  have hjoin : List.intercalate [sep] (init ++ [last ++ t]) = s ++ t := by
    have hback : List.intercalate [sep] (init ++ [last]) = s := by
      rw [← hs]
      exact List.intercalate_splitOn sep
    rw [← hback]
    clear hs hback
    induction init with
    | nil => simp [List.intercalate_singleton]
    | cons p init ih =>
      have hr1 : init ++ [last ++ t] ≠ [] := by simp
      have hr2 : init ++ [last] ≠ [] := by simp
      rw [List.cons_append, List.cons_append, List.intercalate_cons_of_ne_nil hr1,
        List.intercalate_cons_of_ne_nil hr2, ih]
      simp only [List.append_assoc]
  rw [← hjoin]
  refine List.splitOn_intercalate sep ?_ (by simp)
  intro piece hpiece
  rcases List.mem_append.mp hpiece with h | h
  · exact not_mem_of_mem_split (s := s) (by rw [hs]; exact List.mem_append_left _ h)
  · rw [List.mem_singleton] at h
    subst h
    simp only [List.mem_append, not_or]
    exact ⟨not_mem_of_mem_split (s := s) (by rw [hs]; simp), ht⟩

/-- **The last piece.** A text that ends with a separator and a piece `last` ends
with a separator and another piece only if the two are the same. -/
theorem separator_suffix_iff {sep : Char} {front last piece : Str} (hl : sep ∉ last)
    (hp : sep ∉ piece) : (sep :: piece) <:+ (front ++ sep :: last) ↔ piece = last := by
  constructor
  · intro h
    have hself : (sep :: last) <:+ (front ++ sep :: last) := List.suffix_append _ _
    rcases le_total piece.length last.length with hle | hle
    · have hsuf := List.suffix_of_suffix_length_le h hself (by simpa using hle)
      rcases List.suffix_cons_iff.mp hsuf with heq | hsuf
      · exact (List.cons.inj heq).2
      · exact absurd (hsuf.subset List.mem_cons_self) hl
    · have hsuf := List.suffix_of_suffix_length_le hself h (by simpa using hle)
      rcases List.suffix_cons_iff.mp hsuf with heq | hsuf
      · exact (List.cons.inj heq).2.symm
      · exact absurd (hsuf.subset List.mem_cons_self) hp
  · rintro rfl
    exact List.suffix_append _ _

theorem split_once_append {sep : Char} {a b : Str} (ha : sep ∉ a) :
    split_once sep (a ++ sep :: b) = some (a, b) := by
  induction a with
  | nil => simp [split_once]
  | cons c a ih =>
    have hc : c ≠ sep := fun h => ha (by rw [h]; exact List.mem_cons_self)
    have ha' : sep ∉ a := fun h => ha (List.mem_cons_of_mem _ h)
    rw [List.cons_append, split_once, if_neg hc, ih ha', Option.map_some]

theorem split_once_eq_some {sep : Char} {s a b : Str} (h : split_once sep s = some (a, b)) :
    s = a ++ sep :: b ∧ sep ∉ a := by
  induction s generalizing a with
  | nil => simp [split_once] at h
  | cons c s ih =>
    by_cases hc : c = sep
    · rw [split_once, if_pos hc, Option.some.injEq, Prod.mk.injEq] at h
      obtain ⟨rfl, rfl⟩ := h
      exact ⟨by rw [hc, List.nil_append], List.not_mem_nil⟩
    · rw [split_once, if_neg hc, Option.map_eq_some_iff] at h
      obtain ⟨⟨a', b'⟩, hparts, heq⟩ := h
      rw [Prod.mk.injEq] at heq
      obtain ⟨rfl, rfl⟩ := heq
      obtain ⟨rfl, hnot⟩ := ih hparts
      refine ⟨by rw [List.cons_append], ?_⟩
      intro hmem
      rcases List.mem_cons.mp hmem with heq | hmem
      · exact hc heq.symm
      · exact hnot hmem

theorem strip_prefix_append (pre s : Str) : strip_prefix pre (pre ++ s) = some s := by
  rw [ strip_prefix, List.dropPrefix?_eq_some_iff]
  exact ⟨pre, rfl, by simp⟩

theorem strip_prefix_eq_some {pre s rest : Str} (h : strip_prefix pre s = some rest) :
    s = pre ++ rest := by
  rw [ strip_prefix, List.dropPrefix?_eq_some_iff] at h
  obtain ⟨front, rfl, hfront⟩ := h
  rw [eq_of_beq hfront]

/-! ## Lines and fields -/

/-- One carriage return before a line end belongs to the line end. -/
def strip_cr (line : Str) : Str := if line.getLast? = some '\r' then line.dropLast else line

/-- `str::lines`: every LF ends a line, and an unterminated last line counts
when it is not empty. -/
def lines (s : Str) : List Str :=
  let parts := split '\n' s
  parts.dropLast.map strip_cr ++ (parts.getLast?.toList.filter (· ≠ []))

/-- Every line with its LF. -/
def unlines (ls : List Str) : Str := ls.flatMap (· ++ ['\n'])

/-- Fields joined by tabs. -/
def tab_line (fields : List Str) : Str := List.intercalate ['\t'] fields

theorem unlines_getLast {ls : List Str} (h : ls ≠ []) : (unlines ls).getLast? = some '\n' := by
  rw [← List.dropLast_append_getLast h, unlines, List.flatMap_append]
  simp

/-- Splitting terminated lines gives the lines and one empty rest. -/
theorem split_unlines (ls : List Str) (h : ∀ l ∈ ls, '\n' ∉ l) :
    split '\n' (unlines ls) = ls ++ [[]] := by
  induction ls with
  | nil => rfl
  | cons l ls ih =>
    have hl : '\n' ∉ l := h l List.mem_cons_self
    have hls : ∀ l' ∈ ls, '\n' ∉ l' := fun l' hl' => h l' (List.mem_cons_of_mem _ hl')
    rw [unlines, List.flatMap_cons, split, List.append_assoc, List.singleton_append,
      List.splitOn_append_cons_self_of_not_mem hl, ← split, ← unlines, ih hls, List.cons_append]

/-- **Lines round trip.** Terminated lines without separators of their own are
read back as they were written. -/
theorem lines_unlines (ls : List Str) (h : ∀ l ∈ ls, '\n' ∉ l ∧ '\r' ∉ l) :
    lines (unlines ls) = ls := by
  have hsplit := split_unlines ls (fun l hl => (h l hl).1)
  have hmap : ls.map strip_cr = ls := by
    refine (List.map_congr_left fun l hl => ?_).trans (List.map_id ls)
    rw [strip_cr, if_neg]
    · rfl
    · intro hlast
      exact (h l hl).2 (List.mem_of_getLast? hlast)
  simp [lines, hsplit, hmap]

/-- **Fields round trip.** -/
theorem split_tab_line (fields : List Str) (hne : fields ≠ []) (h : ∀ f ∈ fields, IsToken f) :
    split '\t' (tab_line fields) = fields :=
  List.splitOn_intercalate '\t' (fun f hf => (h f hf).not_mem (by decide)) hne

/-- Joined fields hold nothing but their characters and tabs. -/
theorem tab_line_not_mem {c : Char} (hc : c ≠ '\t') (fields : List Str)
    (h : ∀ f ∈ fields, c ∉ f) : c ∉ tab_line fields := by
  induction fields with
  | nil => simp [tab_line, List.intercalate]
  | cons f fields ih =>
    have hf : c ∉ f := h f List.mem_cons_self
    have hfs := ih (fun g hg => h g (List.mem_cons_of_mem _ hg))
    by_cases hne : fields = []
    · subst hne
      simpa [tab_line, List.intercalate_singleton] using hf
    · rw [tab_line, List.intercalate_cons_of_ne_nil hne]
      simp only [List.mem_append, List.mem_singleton, not_or]
      exact ⟨⟨hf, hc⟩, hfs⟩

end LeanBun.Lib
