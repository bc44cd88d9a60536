/-
The order of texts.

Rust compares strings by their bytes, and so does `Buffer.compare`. UTF-8 keeps the order of
the code points: of two different characters the larger one has the larger byte at the first
place where their encodings differ, whatever comes behind. So byte order is the
lexicographic order of the characters.
-/
import LeanBun.Lib.Text

set_option autoImplicit false

namespace LeanBun.Lib

/-- What bytes are compared by. -/
def byte_key (s : Str) : List ℕ := (as_bytes s).map UInt8.toNat

/-- The bytes of a code point as numbers: the digits to the base 64, marked. -/
def char_key (c : Char) : List ℕ := (String.utf8EncodeChar c).map UInt8.toNat

theorem char_key_eq (c : Char) : char_key c =
    if c.toNat ≤ 0x7f then [c.toNat]
    else if c.toNat ≤ 0x7ff then [c.toNat / 64 + 0xc0, c.toNat % 64 + 0x80]
    else if c.toNat ≤ 0xffff then
      [c.toNat / 4096 + 0xe0, c.toNat / 64 % 64 + 0x80, c.toNat % 64 + 0x80]
    else [c.toNat / 262144 + 0xf0, c.toNat / 4096 % 64 + 0x80, c.toNat / 64 % 64 + 0x80,
      c.toNat % 64 + 0x80] := by
  have hvalid : c.toNat < 0x110000 := by
    have h : c.toNat < 0xd800 ∨ 0xdfff < c.toNat ∧ c.toNat < 0x110000 := c.valid
    omega
  have hval : c.val.toNat = c.toNat := rfl
  unfold char_key String.utf8EncodeChar
  simp only [hval]
  split_ifs <;>
    simp only [List.map_cons, List.map_nil, UInt8.toNat_ofNat', List.cons.injEq, and_true] <;> omega

theorem cons_lt {a b : ℕ} {s t : List ℕ} (h : a < b ∨ a = b ∧ s < t) : a :: s < b :: t :=
  List.cons_lt_cons_iff.mpr h

/-- **A larger character** has larger bytes, whatever is behind them. -/
theorem char_key_lt {c d : Char} (h : c < d) (s t : List ℕ) : char_key c ++ s < char_key d ++ t := by
  have hlt : c.toNat < d.toNat := h
  rw [char_key_eq, char_key_eq]
  by_cases h1 : d.toNat ≤ 0x7f
  · rw [if_pos h1, if_pos (by omega)]
    exact cons_lt (.inl hlt)
  rw [if_neg h1]
  by_cases h2 : d.toNat ≤ 0x7ff
  · rw [if_pos h2]
    by_cases hc : c.toNat ≤ 0x7f
    · rw [if_pos hc]
      exact cons_lt (.inl (by omega))
    rw [if_neg hc, if_pos (by omega)]
    have hdigits : c.toNat / 64 < d.toNat / 64 ∨
        c.toNat / 64 = d.toNat / 64 ∧ c.toNat % 64 < d.toNat % 64 := by omega
    obtain hfirst | ⟨hfirst, hsecond⟩ := hdigits
    · exact cons_lt (.inl (by omega))
    · exact cons_lt (.inr ⟨by omega, cons_lt (.inl (by omega))⟩)
  rw [if_neg h2]
  by_cases h3 : d.toNat ≤ 0xffff
  · rw [if_pos h3]
    by_cases hc : c.toNat ≤ 0x7f
    · rw [if_pos hc]
      exact cons_lt (.inl (by omega))
    rw [if_neg hc]
    by_cases hc' : c.toNat ≤ 0x7ff
    · rw [if_pos hc']
      exact cons_lt (.inl (by omega))
    rw [if_neg hc', if_pos (by omega)]
    have hdigits : c.toNat / 4096 < d.toNat / 4096 ∨ c.toNat / 4096 = d.toNat / 4096 ∧
        (c.toNat / 64 % 64 < d.toNat / 64 % 64 ∨
          c.toNat / 64 % 64 = d.toNat / 64 % 64 ∧ c.toNat % 64 < d.toNat % 64) := by omega
    obtain hfirst | ⟨hfirst, hsecond | ⟨hsecond, hthird⟩⟩ := hdigits
    · exact cons_lt (.inl (by omega))
    · exact cons_lt (.inr ⟨by omega, cons_lt (.inl (by omega))⟩)
    · exact cons_lt (.inr ⟨by omega, cons_lt (.inr ⟨by omega, cons_lt (.inl (by omega))⟩)⟩)
  rw [if_neg h3]
  have hvalid : d.toNat < 0x110000 := by
    have h : d.toNat < 0xd800 ∨ 0xdfff < d.toNat ∧ d.toNat < 0x110000 := d.valid
    omega
  by_cases hc : c.toNat ≤ 0x7f
  · rw [if_pos hc]
    exact cons_lt (.inl (by omega))
  rw [if_neg hc]
  by_cases hc' : c.toNat ≤ 0x7ff
  · rw [if_pos hc']
    exact cons_lt (.inl (by omega))
  rw [if_neg hc']
  by_cases hc'' : c.toNat ≤ 0xffff
  · rw [if_pos hc'']
    exact cons_lt (.inl (by omega))
  rw [if_neg hc'']
  have hdigits : c.toNat / 262144 < d.toNat / 262144 ∨ c.toNat / 262144 = d.toNat / 262144 ∧
      (c.toNat / 4096 % 64 < d.toNat / 4096 % 64 ∨ c.toNat / 4096 % 64 = d.toNat / 4096 % 64 ∧
        (c.toNat / 64 % 64 < d.toNat / 64 % 64 ∨
          c.toNat / 64 % 64 = d.toNat / 64 % 64 ∧ c.toNat % 64 < d.toNat % 64)) := by omega
  obtain hfirst | ⟨hfirst, hsecond | ⟨hsecond, hthird | ⟨hthird, hfourth⟩⟩⟩ := hdigits
  · exact cons_lt (.inl (by omega))
  · exact cons_lt (.inr ⟨by omega, cons_lt (.inl (by omega))⟩)
  · exact cons_lt (.inr ⟨by omega, cons_lt (.inr ⟨by omega, cons_lt (.inl (by omega))⟩)⟩)
  · exact cons_lt (.inr ⟨by omega, cons_lt (.inr ⟨by omega, cons_lt (.inr ⟨by omega,
      cons_lt (.inl (by omega))⟩)⟩)⟩)

theorem byte_key_cons (c : Char) (s : Str) : byte_key (c :: s) = char_key c ++ byte_key s := by
  unfold byte_key char_key as_bytes
  rw [List.flatMap_cons, List.map_append]

/-- **Byte order** is the order of the characters. -/
theorem byte_key_strictMono : StrictMono byte_key := by
  intro s t h
  induction s generalizing t with
  | nil =>
    cases t with
    | nil => exact absurd h (lt_irrefl _)
    | cons d t =>
      rw [byte_key_cons, char_key_eq]
      split_ifs <;> exact List.nil_lt_cons _ _
  | cons c s ih =>
    cases t with
    | nil => exact absurd h (List.not_lt_nil _)
    | cons d t =>
      rw [byte_key_cons, byte_key_cons]
      obtain hlt | ⟨rfl, hlt⟩ := List.cons_lt_cons_iff.mp h
      · exact char_key_lt hlt _ _
      · exact List.append_left_lt (ih hlt)

theorem byte_key_lt_iff {s t : Str} : byte_key s < byte_key t ↔ s < t :=
  byte_key_strictMono.lt_iff_lt

theorem byte_key_le_iff {s t : Str} : byte_key s ≤ byte_key t ↔ s ≤ t :=
  byte_key_strictMono.le_iff_le

end LeanBun.Lib
