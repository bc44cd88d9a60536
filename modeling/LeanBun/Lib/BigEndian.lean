/-
Big-endian numbers of a fixed width, and reading a byte string from the front.

A binary message is read by cutting fixed and declared lengths off its front. The
two facts every reader of such a message rests on are here: the `width` bytes of
a number and the number of `width` bytes are inverse to each other, and a cut
takes exactly the bytes that stand in front.
-/
import Mathlib

set_option autoImplicit false

namespace LeanBun.Lib

/-! ## Numbers -/

/-- `to_be_bytes` of a number kept in `width` bytes. -/
def be_bytes : ℕ → ℕ → List UInt8
  | 0, _ => []
  | width + 1, n => UInt8.ofNat (n / 256 ^ width) :: be_bytes width n

/-- `from_be_bytes`. -/
def be_value : List UInt8 → ℕ
  | [] => 0
  | b :: bytes => b.toNat * 256 ^ bytes.length + be_value bytes

@[simp] theorem be_bytes_length (width n : ℕ) : (be_bytes width n).length = width := by
  induction width with
  | zero => rfl
  | succ width ih => rw [be_bytes, List.length_cons, ih]

/-- Bytes hold less than a full turn of their width. -/
theorem be_value_lt (bytes : List UInt8) : be_value bytes < 256 ^ bytes.length := by
  induction bytes with
  | nil => exact Nat.one_pos
  | cons b bytes ih =>
    have hb : b.toNat < 256 := b.toNat_lt
    have hle : b.toNat * 256 ^ bytes.length + 256 ^ bytes.length ≤ 256 * 256 ^ bytes.length := by
      rw [← Nat.succ_mul]
      exact Nat.mul_le_mul_right _ hb
    rw [be_value, List.length_cons, Nat.pow_succ, Nat.mul_comm (256 ^ bytes.length) 256]
    omega

/-- The number of the bytes is what the width leaves of it. -/
theorem be_value_be_bytes_mod (width n : ℕ) : be_value (be_bytes width n) = n % 256 ^ width := by
  induction width with
  | zero => rw [Nat.pow_zero, Nat.mod_one]; rfl
  | succ width ih =>
    have hmod : n % 256 ^ (width + 1) = n % 256 ^ width + 256 ^ width * (n / 256 ^ width % 256) := by
      rw [Nat.pow_succ, Nat.mod_mul]
    rw [be_bytes, be_value, ih, be_bytes_length, UInt8.toNat_ofNat', hmod]
    exact (Nat.add_comm _ _).trans (congrArg _ (Nat.mul_comm _ _))

/-- **Numbers round trip.** -/
theorem be_value_be_bytes {width n : ℕ} (h : n < 256 ^ width) :
    be_value (be_bytes width n) = n := by
  rw [be_value_be_bytes_mod, Nat.mod_eq_of_lt h]

/-- A multiple of a full turn in front is not seen. -/
theorem be_bytes_add (width n k : ℕ) : be_bytes width (k * 256 ^ width + n) = be_bytes width n := by
  induction width generalizing k with
  | zero => rfl
  | succ width ih =>
    have hpos : 0 < 256 ^ width := Nat.pow_pos (by decide)
    have hsplit : k * 256 ^ (width + 1) + n = k * 256 * 256 ^ width + n := by rw [Nat.pow_succ]; ring
    have hdiv : (k * 256 * 256 ^ width + n) / 256 ^ width = k * 256 + n / 256 ^ width := by
      rw [Nat.add_comm, Nat.add_mul_div_right _ _ hpos, Nat.add_comm]
    have hbyte : UInt8.ofNat (k * 256 + n / 256 ^ width) = UInt8.ofNat (n / 256 ^ width) := by
      rw [← UInt8.toNat_inj, UInt8.toNat_ofNat', UInt8.toNat_ofNat']
      omega
    rw [be_bytes, be_bytes, hsplit, ih, hdiv, hbyte]

/-- **Bytes round trip.** -/
theorem be_bytes_be_value (bytes : List UInt8) : be_bytes bytes.length (be_value bytes) = bytes := by
  induction bytes with
  | nil => rfl
  | cons b bytes ih =>
    have hpos : 0 < 256 ^ bytes.length := Nat.pow_pos (by decide)
    have hdiv : (b.toNat * 256 ^ bytes.length + be_value bytes) / 256 ^ bytes.length = b.toNat := by
      rw [Nat.add_comm, Nat.add_mul_div_right _ _ hpos, Nat.div_eq_of_lt (be_value_lt bytes),
        Nat.zero_add]
    rw [List.length_cons, be_bytes, be_value, be_bytes_add, ih, hdiv, UInt8.ofNat_toNat]

/-- A number is read from `width` bytes exactly when they are its bytes. -/
theorem be_value_eq_iff {width n : ℕ} {bytes : List UInt8} (hn : n < 256 ^ width)
    (hlen : bytes.length = width) : be_value bytes = n ↔ bytes = be_bytes width n := by
  constructor
  · rintro rfl
    rw [← hlen, be_bytes_be_value]
  · rintro rfl
    exact be_value_be_bytes hn

/-! ## Cutting from the front -/

/-- The first `count` bytes and the rest, when there are that many. -/
def cut (count : ℕ) (bytes : List UInt8) : Option (List UInt8 × List UInt8) :=
  if count ≤ bytes.length then some (bytes.take count, bytes.drop count) else none

/-- **Cutting is exact.** What is cut off and what is left are the bytes. -/
theorem cut_eq_some {count : ℕ} {bytes front rest : List UInt8} :
    cut count bytes = some (front, rest) ↔ front.length = count ∧ bytes = front ++ rest := by
  unfold cut
  constructor
  · intro h
    by_cases hle : count ≤ bytes.length
    · rw [if_pos hle] at h
      cases h
      exact ⟨List.length_take_of_le hle, (List.take_append_drop count bytes).symm⟩
    · rw [if_neg hle] at h
      cases h
  · rintro ⟨rfl, rfl⟩
    rw [if_pos (by rw [List.length_append]; omega), List.take_left, List.drop_left]

end LeanBun.Lib
