/-
The hasher with its block buffer as it is, and digests of pieces.

`Sha256Hasher` keeps the bytes that are valid in the buffer. Here the buffer has its
sixty-four bytes, with what earlier blocks left in it, and the two are shown to step
alike. Cutting the input into pieces then changes nothing: after any sequence of
updates the hasher is where one update with all the bytes leaves it.
-/
import LeanBun.Core.Sha256

set_option autoImplicit false

namespace LeanBun.Core

open LeanBun.Lib

/-! ## The loop over blocks -/

theorem compress_blocks_rest (n : ℕ) (s : State) (input : List UInt8) :
    (compress_blocks n s input).2 = input.drop (64 * n) := by
  induction n generalizing s input with
  | zero => rfl
  | succ n ih =>
    rw [compress_blocks, ih, List.drop_drop, Nat.mul_succ, Nat.add_comm]

/-- Blocks and then more blocks. -/
theorem compress_blocks_add (k n : ℕ) (s : State) (input : List UInt8) :
    compress_blocks (k + n) s input =
      compress_blocks n (compress_blocks k s input).1 (input.drop (64 * k)) := by
  induction k generalizing s input with
  | zero => rw [Nat.zero_add]; rfl
  | succ k ih =>
    rw [Nat.succ_add, compress_blocks, ih, compress_blocks, List.drop_drop, Nat.mul_succ,
      Nat.add_comm 64]

/-- The loop reads whole blocks only. -/
theorem compress_blocks_append {k : ℕ} (s : State) {front : List UInt8} (back : List UInt8)
    (h : 64 * k ≤ front.length) :
    (compress_blocks k s (front ++ back)).1 = (compress_blocks k s front).1 := by
  induction k generalizing s front with
  | zero => rfl
  | succ k ih =>
    have hblock : 64 ≤ front.length := by omega
    rw [compress_blocks, compress_blocks, List.take_append_of_le_length hblock,
      List.drop_append_of_le_length hblock]
    apply ih
    rw [List.length_drop]
    omega

/-! ## The block buffer -/

/-- `buffer[start..start + bytes.len()].copy_from_slice(bytes)`. -/
def copy_at (buffer : List UInt8) (start : ℕ) (bytes : List UInt8) : List UInt8 :=
  buffer.take start ++ bytes ++ buffer.drop (start + bytes.length)

theorem copy_at_length {buffer bytes : List UInt8} {start : ℕ}
    (h : start + bytes.length ≤ buffer.length) :
    (copy_at buffer start bytes).length = buffer.length := by
  unfold copy_at
  rw [List.length_append, List.length_append, List.length_take, List.length_drop]
  omega

/-- What is in front of the end of the copied bytes. -/
theorem copy_at_take {buffer : List UInt8} {start : ℕ} (bytes : List UInt8)
    (h : start ≤ buffer.length) :
    (copy_at buffer start bytes).take (start + bytes.length) = buffer.take start ++ bytes := by
  unfold copy_at
  apply List.take_left'
  rw [List.length_append, List.length_take, Nat.min_eq_left h]

/-- A copy to the end leaves nothing behind it. -/
theorem copy_at_end {buffer bytes : List UInt8} {start : ℕ}
    (h : buffer.length ≤ start + bytes.length) :
    copy_at buffer start bytes = buffer.take start ++ bytes := by
  unfold copy_at
  rw [List.drop_eq_nil_of_le h, List.append_nil]

/-- `Sha256Hasher`, with its `[u8; 64]` and how many of its bytes are valid. -/
structure BlockHasher where
  state : State
  buffer : List UInt8
  buffer_len : ℕ
  length_bytes : ℕ
  size : buffer.length = 64
  room : buffer_len < 64

namespace BlockHasher

/-- `Sha256Hasher::new`. -/
def new : BlockHasher :=
  ⟨INITIAL_STATE, List.replicate 64 0, 0, 0, List.length_replicate, by omega⟩

theorem rest_lt (s : State) (input : List UInt8) :
    (compress_blocks (input.length / 64) s input).2.length < 64 := by
  rw [compress_blocks_rest, List.length_drop]
  omega

/-- The `while` loop, and the copy of what it leaves to the front of the buffer. -/
def absorb (state : State) (buffer : List UInt8) (length_bytes : ℕ) (size : buffer.length = 64)
    (input : List UInt8) : BlockHasher :=
  let blocks := compress_blocks (input.length / 64) state input
  have hrest : blocks.2.length < 64 := rest_lt state input
  ⟨blocks.1, copy_at buffer 0 blocks.2, blocks.2.length, length_bytes,
    (copy_at_length (by omega)).trans size, hrest⟩

/-- `Sha256Hasher::update`. -/
def update (hasher : BlockHasher) (input : List UInt8) : BlockHasher :=
  let length_bytes := min (hasher.length_bytes + input.length) U64_MAX
  if 0 < hasher.buffer_len then
    let count := min (64 - hasher.buffer_len) input.length
    let buffer := copy_at hasher.buffer hasher.buffer_len (input.take count)
    have size : buffer.length = 64 := by
      refine (copy_at_length ?_).trans hasher.size
      rw [List.length_take, hasher.size]
      have := hasher.room
      omega
    if hfull : hasher.buffer_len + count < 64 then
      ⟨hasher.state, buffer, hasher.buffer_len + count, length_bytes, size, hfull⟩
    else absorb (compress hasher.state buffer) buffer length_bytes size (input.drop count)
  else absorb hasher.state hasher.buffer length_bytes hasher.size input

/-- `Sha256Hasher::finalize`. -/
def finalize (hasher : BlockHasher) : Sha256 :=
  let bit_length := min (hasher.length_bytes * 8) U64_MAX
  let buffer := copy_at hasher.buffer hasher.buffer_len [0x80]
  let buffer_len := hasher.buffer_len + 1
  let padded : State × List UInt8 :=
    if 56 < buffer_len then
      (compress hasher.state (copy_at buffer buffer_len (List.replicate (64 - buffer_len) 0)),
        List.replicate 64 0)
    else (hasher.state, copy_at buffer buffer_len (List.replicate (56 - buffer_len) 0))
  let s := compress padded.1 (copy_at padded.2 56 (be64 bit_length))
  ⟨be32 s.a ++ be32 s.b ++ be32 s.c ++ be32 s.d ++ be32 s.e ++ be32 s.f ++ be32 s.g ++ be32 s.h, rfl⟩

/-- The bytes that count. -/
def valid (hasher : BlockHasher) : Sha256Hasher :=
  ⟨hasher.state, hasher.buffer.take hasher.buffer_len, hasher.length_bytes⟩

theorem valid_length (hasher : BlockHasher) :
    (hasher.buffer.take hasher.buffer_len).length = hasher.buffer_len := by
  rw [List.length_take, hasher.size]
  exact Nat.min_eq_left hasher.room.le

theorem absorb_valid (state : State) (buffer : List UInt8) (length_bytes : ℕ)
    (size : buffer.length = 64) (input : List UInt8) :
    (absorb state buffer length_bytes size input).valid =
      ⟨(compress_blocks (input.length / 64) state input).1,
        (compress_blocks (input.length / 64) state input).2, length_bytes⟩ := by
  have htake := copy_at_take (compress_blocks (input.length / 64) state input).2
    (Nat.zero_le buffer.length)
  rw [Nat.zero_add, List.take_zero, List.nil_append] at htake
  unfold absorb valid
  dsimp only
  rw [htake]

/-- **Updates agree.** -/
theorem update_valid (hasher : BlockHasher) (input : List UInt8) :
    (hasher.update input).valid = hasher.valid.update input := by
  have hroom := hasher.room
  have hlen : hasher.valid.buffer.length = hasher.buffer_len := hasher.valid_length
  unfold update Sha256Hasher.update
  dsimp only
  by_cases hpending : 0 < hasher.buffer_len
  · have hcount : (input.take (min (64 - hasher.buffer_len) input.length)).length =
        min (64 - hasher.buffer_len) input.length := by
      rw [List.length_take]
      omega
    rw [if_pos hpending, if_neg (by omega), List.length_append, hlen, hcount]
    by_cases hfull : hasher.buffer_len + min (64 - hasher.buffer_len) input.length < 64
    · have htake := copy_at_take (input.take (min (64 - hasher.buffer_len) input.length))
        (by rw [hasher.size]; exact hroom.le : hasher.buffer_len ≤ hasher.buffer.length)
      rw [hcount] at htake
      rw [dif_pos hfull, if_pos hfull, valid]
      dsimp only
      rw [htake]
      rfl
    · -- the buffer is full, so nothing of an earlier block is left in it
      have hend : copy_at hasher.buffer hasher.buffer_len
          (input.take (min (64 - hasher.buffer_len) input.length)) =
            hasher.buffer.take hasher.buffer_len ++
              input.take (min (64 - hasher.buffer_len) input.length) := by
        apply copy_at_end
        rw [hasher.size, hcount]
        omega
      rw [dif_neg hfull, if_neg hfull]
      exact (absorb_valid _ _ _ _ _).trans (by rw [hend]; rfl)
  · rw [if_neg hpending, if_pos (by omega)]
    exact absorb_valid _ _ _ _ _

/-- **Digests agree.** -/
theorem finalize_valid (hasher : BlockHasher) : hasher.finalize = hasher.valid.finalize := by
  have hroom := hasher.room
  have hlen := hasher.valid_length
  have hmark := copy_at_take [(0x80 : UInt8)]
    (by rw [hasher.size]; exact hroom.le : hasher.buffer_len ≤ hasher.buffer.length)
  have hsize : (copy_at hasher.buffer hasher.buffer_len [0x80]).length = 64 := by
    refine (copy_at_length ?_).trans hasher.size
    rw [hasher.size, List.length_singleton]
    omega
  have hbe (n : ℕ) : (be64 n).length = 8 := rfl
  have hzeros (buffer : List UInt8) (n : ℕ) (h : buffer.length = 64) :
      copy_at buffer 56 (be64 n) = buffer.take 56 ++ be64 n := copy_at_end (by rw [h, hbe])
  rw [List.length_singleton] at hmark
  have hstate : (let buffer := copy_at hasher.buffer hasher.buffer_len [0x80]
      let buffer_len := hasher.buffer_len + 1
      let padded : State × List UInt8 :=
        if 56 < buffer_len then
          (compress hasher.state (copy_at buffer buffer_len (List.replicate (64 - buffer_len) 0)),
            List.replicate 64 0)
        else (hasher.state, copy_at buffer buffer_len (List.replicate (56 - buffer_len) 0))
      compress padded.1 (copy_at padded.2 56 (be64 (min (hasher.length_bytes * 8) U64_MAX)))) =
      pad_blocks hasher.state (hasher.buffer.take hasher.buffer_len)
        (min (hasher.length_bytes * 8) U64_MAX) := by
    unfold pad_blocks
    dsimp only
    rw [List.length_append, hlen, List.length_singleton]
    by_cases hlong : 56 < hasher.buffer_len + 1
    · rw [if_pos hlong, if_pos hlong]
      dsimp only
      rw [copy_at_end (by rw [hsize, List.length_replicate]; omega), hmark,
        hzeros _ _ List.length_replicate, List.take_replicate]
      rfl
    · have hfill := copy_at_take (List.replicate (56 - (hasher.buffer_len + 1)) (0 : UInt8))
        (by omega : hasher.buffer_len + 1 ≤
          (copy_at hasher.buffer hasher.buffer_len [0x80]).length)
      rw [List.length_replicate, Nat.add_sub_cancel' (by omega : hasher.buffer_len + 1 ≤ 56),
        hmark] at hfill
      rw [if_neg hlong, if_neg hlong]
      dsimp only
      rw [hzeros, hfill]
      refine (copy_at_length ?_).trans hsize
      rw [hsize, List.length_replicate]
      omega
  unfold finalize Sha256Hasher.finalize valid
  dsimp only at hstate ⊢
  apply Sha256.ext
  dsimp only
  rw [hstate]

end BlockHasher

/-! ## Pieces -/

theorem update_new (input : List UInt8) :
    Sha256Hasher.new.update input = ⟨(compress_blocks (input.length / 64) INITIAL_STATE input).1,
      input.drop (64 * (input.length / 64)), min input.length U64_MAX⟩ := by
  rw [← compress_blocks_rest (input.length / 64) INITIAL_STATE input]
  unfold Sha256Hasher.update Sha256Hasher.new
  dsimp only
  rw [if_pos List.length_nil, Nat.zero_add]

/-- **Two updates are one.** -/
theorem update_update (front back : List UInt8) :
    (Sha256Hasher.new.update front).update back = Sha256Hasher.new.update (front ++ back) := by
  have hfits : 64 * (front.length / 64) ≤ front.length := Nat.mul_div_le _ _
  have hrest : (front.drop (64 * (front.length / 64))).length = front.length % 64 := by
    rw [List.length_drop]
    omega
  have hlength : min (min front.length U64_MAX + back.length) U64_MAX =
      min (front ++ back).length U64_MAX := by
    rw [List.length_append]
    omega
  have hdrop : (front ++ back).drop (64 * (front.length / 64)) =
      front.drop (64 * (front.length / 64)) ++ back := List.drop_append_of_le_length hfits
  have hstate := compress_blocks_append INITIAL_STATE back hfits
  rw [update_new front, update_new (front ++ back)]
  unfold Sha256Hasher.update
  dsimp only
  rw [hlength]
  by_cases hempty : (front.drop (64 * (front.length / 64))).length = 0
  · -- the front ends with a block
    have hcount : (front ++ back).length / 64 = front.length / 64 + back.length / 64 := by
      rw [List.length_append]
      omega
    have hnil : front.drop (64 * (front.length / 64)) = [] := List.length_eq_zero_iff.mp hempty
    rw [if_pos hempty, hcount, compress_blocks_add, hstate, hdrop, hnil, List.nil_append,
      Nat.mul_add, ← List.drop_drop, hdrop, hnil, List.nil_append, compress_blocks_rest]
  · rw [if_neg hempty, List.length_append, List.length_take]
    by_cases hfull : (front.drop (64 * (front.length / 64))).length + min (min (64 -
        (front.drop (64 * (front.length / 64))).length) back.length) back.length < 64
    · -- the block is still open
      have hcount : (front ++ back).length / 64 = front.length / 64 := by
        rw [List.length_append]
        omega
      rw [if_pos hfull, hcount, hstate, hdrop, List.take_of_length_le (by omega)]
    · -- the block is completed, and then come those of the rest
      have hcount : (front ++ back).length / 64 = front.length / 64 +
          ((back.drop (min (64 - (front.drop (64 * (front.length / 64))).length)
            back.length)).length / 64 + 1) := by
        rw [List.length_append, List.length_drop]
        omega
      have hmin : min (64 - (front.drop (64 * (front.length / 64))).length) back.length =
          64 - (front.drop (64 * (front.length / 64))).length := by omega
      have htake : (front.drop (64 * (front.length / 64)) ++ back).take 64 =
          front.drop (64 * (front.length / 64)) ++
            back.take (64 - (front.drop (64 * (front.length / 64))).length) := by
        rw [List.take_append, List.take_of_length_le (by omega)]
      have hblock : (front.drop (64 * (front.length / 64)) ++ back).drop 64 =
          back.drop (64 - (front.drop (64 * (front.length / 64))).length) := by
        rw [List.drop_append, List.drop_eq_nil_of_le (by omega), List.nil_append]
      rw [if_neg hfull, hcount, compress_blocks_add, hstate, hdrop, Nat.mul_add, ← List.drop_drop,
        hdrop, compress_blocks, htake, hblock, hmin, Nat.mul_succ, Nat.add_comm (64 * _) 64,
        ← List.drop_drop, hblock, compress_blocks_rest]

/-- **Streaming.** However the bytes are cut into pieces, the hasher ends where one
update with all of them leaves it. -/
theorem updates_eq (chunks : List (List UInt8)) :
    chunks.foldl Sha256Hasher.update Sha256Hasher.new =
      Sha256Hasher.new.update chunks.flatten := by
  induction chunks using List.reverseRecOn with
  | nil => rfl
  | append_singleton chunks chunk ih =>
    rw [List.foldl_append, ih, List.foldl_cons, List.foldl_nil, update_update, List.flatten_append,
      List.flatten_singleton]

/-- The same of the hasher with its block buffer. -/
theorem block_updates_eq (chunks : List (List UInt8)) :
    (chunks.foldl BlockHasher.update BlockHasher.new).finalize = digest chunks.flatten := by
  have hvalid : (chunks.foldl BlockHasher.update BlockHasher.new).valid =
      chunks.foldl Sha256Hasher.update Sha256Hasher.new := by
    refine (List.foldl_hom BlockHasher.valid ?_).symm.trans rfl
    exact fun hasher input => (hasher.update_valid input).symm
  rw [BlockHasher.finalize_valid, hvalid, updates_eq]
  rfl

end LeanBun.Core
