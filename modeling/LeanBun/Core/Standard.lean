/-
The hasher against the standard.

The bits of a digest are those that the Secure Hash Standard assigns to the bits of the
message, for every message the standard gives a hash to. The constants of the source are
checked against the roots of primes, the schedule and the rounds step by step, and the
padding of the hasher, one block or two, against the padding of the standard.
-/
import LeanBun.Core.Streaming
import LeanBun.Core.Evaluate
import LeanBun.Lib.SecureHash
import LeanBun.Approval.Wire

set_option autoImplicit false

namespace LeanBun.Core

open LeanBun.Lib LeanBun.Lib.SecureHash

/-! ## Constants -/

/-- A word of the source is the root of its prime, cut to thirty-two bits. -/
def is_root (degree p : ℕ) (w : UInt32) : Bool :=
  (List.range 18).any fun whole =>
    decide ((whole * 2 ^ 32 + w.toNat) ^ degree ≤ p * 2 ^ (32 * degree)) &&
      decide (p * 2 ^ (32 * degree) < (whole * 2 ^ 32 + w.toNat + 1) ^ degree)

theorem is_root_fraction {degree p : ℕ} {w : UInt32} (hdegree : degree ≠ 0)
    (h : is_root degree p w = true) : root_fraction degree p = w.toBitVec := by
  obtain ⟨whole, -, hwhole⟩ := List.any_eq_true.mp h
  rw [Bool.and_eq_true, decide_eq_true_eq, decide_eq_true_eq] at hwhole
  rw [root_fraction_eq hdegree hwhole.1 hwhole.2]
  apply BitVec.eq_of_toNat_eq
  have hw : w.toNat < 2 ^ 32 := w.toNat_lt
  rw [BitVec.toNat_ofNat, UInt32.toNat_toBitVec]
  omega

theorem constants_checked : (List.range 64).all (fun t =>
    is_root 3 (primes.getD t 0) (ROUND_CONSTANTS.getD t 0)) = true := by
  rw [primes_eq]
  decide +kernel

/-- **The constants are those of the standard.** -/
theorem round_constant_eq {t : ℕ} (ht : t < 64) :
    round_constant t = (ROUND_CONSTANTS.getD t 0).toBitVec :=
  is_root_fraction (by decide)
    (List.all_eq_true.mp constants_checked t (List.mem_range.mpr ht))

/-- The state of the hasher as the working variables. -/
def State.working (s : State) : Working :=
  ⟨s.a.toBitVec, s.b.toBitVec, s.c.toBitVec, s.d.toBitVec, s.e.toBitVec, s.f.toBitVec, s.g.toBitVec,
    s.h.toBitVec⟩

theorem initial_checked : ([(2, INITIAL_STATE.a), (3, INITIAL_STATE.b), (5, INITIAL_STATE.c),
    (7, INITIAL_STATE.d), (11, INITIAL_STATE.e), (13, INITIAL_STATE.f), (17, INITIAL_STATE.g),
    (19, INITIAL_STATE.h)] : List (ℕ × UInt32)).all (fun pw => is_root 2 pw.1 pw.2) = true := by
  decide +kernel

theorem initial_value_eq : initial_value = INITIAL_STATE.working := by
  have hroot (p : ℕ) (w : UInt32) (h : (p, w) ∈ [(2, INITIAL_STATE.a), (3, INITIAL_STATE.b),
      (5, INITIAL_STATE.c), (7, INITIAL_STATE.d), (11, INITIAL_STATE.e), (13, INITIAL_STATE.f),
      (17, INITIAL_STATE.g), (19, INITIAL_STATE.h)]) : root_fraction 2 p = w.toBitVec :=
    is_root_fraction (by decide) (List.all_eq_true.mp initial_checked (p, w) h)
  unfold initial_value initial_word
  rw [primes_eq]
  simp only [List.getD_cons_zero, List.getD_cons_succ]
  rw [hroot 2 INITIAL_STATE.a (by simp), hroot 3 INITIAL_STATE.b (by simp),
    hroot 5 INITIAL_STATE.c (by simp), hroot 7 INITIAL_STATE.d (by simp),
    hroot 11 INITIAL_STATE.e (by simp), hroot 13 INITIAL_STATE.f (by simp),
    hroot 17 INITIAL_STATE.g (by simp), hroot 19 INITIAL_STATE.h (by simp)]
  rfl

/-! ## One block -/

theorem exists_four {α : Type*} {l : List α} (h : 4 ≤ l.length) :
    ∃ a b c d rest, l = a :: b :: c :: d :: rest := by
  rcases l with _ | ⟨a, _ | ⟨b, _ | ⟨c, _ | ⟨d, rest⟩⟩⟩⟩
  · simp at h
  · simp at h
  · simp at h
  · simp at h
  · exact ⟨a, b, c, d, rest, rfl⟩

/-- The words of a block are its bits. -/
theorem block_words_getD {block : List UInt8} {t : ℕ} (h : 4 * t + 4 ≤ block.length) :
    ((block_words block).getD t 0).toBitVec = block_word (byte_bits block) t := by
  have hbits : block_word (byte_bits block) t =
      BitVec.ofNat 32 (be_value ((block.drop (4 * t)).take 4)) := by
    have hword : (byte_bits (block.drop (4 * t))).take 32 =
        byte_bits ((block.drop (4 * t)).take 4) := byte_bits_take 4 _
    unfold block_word
    rw [show 32 * t = 8 * (4 * t) by omega, byte_bits_drop, hword, bits_value_byte_bits]
  rw [hbits]
  clear hbits
  induction t generalizing block with
  | zero =>
    obtain ⟨b0, b1, b2, b3, rest, rfl⟩ := exists_four (show 4 ≤ block.length by omega)
    have hword : ((block_words (b0 :: b1 :: b2 :: b3 :: rest)).getD 0 0).toNat =
        (words (b0 :: b1 :: b2 :: b3 :: rest)).getD 0 0 := by
      rw [← words_eq]
      rfl
    have h0 := b0.toNat_lt
    have h1 := b1.toNat_lt
    have h2 := b2.toNat_lt
    have h3 := b3.toNat_lt
    apply BitVec.eq_of_toNat_eq
    rw [UInt32.toNat_toBitVec, hword, BitVec.toNat_ofNat]
    -- the bytes do not overlap, so the word is their sum
    show ((b0.toNat <<< 24 ||| b1.toNat <<< 16) ||| b2.toNat <<< 8) ||| b3.toNat =
      be_value [b0, b1, b2, b3] % 2 ^ 32
    have hsum : be_value [b0, b1, b2, b3] =
        ((b0.toNat * 256 + b1.toNat) * 256 + b2.toNat) * 256 + b3.toNat := by
      simp only [be_value, List.length_cons, List.length_nil]
      ring
    have hor1 : b0.toNat <<< 24 ||| b1.toNat <<< 16 = (b0.toNat * 256 + b1.toNat) <<< 16 := by
      rw [show 24 = 8 + 16 from rfl, Nat.shiftLeft_add, ← Nat.shiftLeft_or_distrib,
        ← Nat.shiftLeft_add_eq_or_of_lt h1, Nat.shiftLeft_eq b0.toNat]
    have hor2 : (b0.toNat * 256 + b1.toNat) <<< 16 ||| b2.toNat <<< 8 =
        ((b0.toNat * 256 + b1.toNat) * 256 + b2.toNat) <<< 8 := by
      rw [show 16 = 8 + 8 from rfl, Nat.shiftLeft_add, ← Nat.shiftLeft_or_distrib,
        ← Nat.shiftLeft_add_eq_or_of_lt h2, Nat.shiftLeft_eq (b0.toNat * 256 + b1.toNat)]
    rw [hor1, hor2, ← Nat.shiftLeft_add_eq_or_of_lt h3, Nat.shiftLeft_eq, hsum]
    omega
  | succ t ih =>
    obtain ⟨b0, b1, b2, b3, rest, rfl⟩ := exists_four (show 4 ≤ block.length by omega)
    rw [block_words, List.getD_cons_succ, ih (by simp only [List.length_cons] at h; omega)]
    rfl

theorem block_words_length (n : ℕ) {block : List UInt8} (h : block.length = 4 * n) :
    (block_words block).length = n := by
  induction n generalizing block with
  | zero =>
    rw [Nat.mul_zero, List.length_eq_zero_iff] at h
    rw [h]
    rfl
  | succ n ih =>
    match block, h with
    | b0 :: b1 :: b2 :: b3 :: rest, h =>
      rw [block_words, List.length_cons, ih (by simp only [List.length_cons] at h; omega)]

theorem rotate_right_bits {n : UInt32} (w : UInt32) (hn : 0 < n.toNat) (hlt : n.toNat < 32) :
    (rotate_right w n).toBitVec = w.toBitVec.rotateRight n.toNat := by
  apply BitVec.eq_of_toNat_eq
  rw [UInt32.toNat_toBitVec, rotate_eq w hn hlt, BitVec.toNat_rotateRight, Nat.mod_eq_of_lt hlt,
    UInt32.toNat_toBitVec]
  rfl

/-- A word of the schedule, with the sums in the order of the standard. -/
theorem small_sigma_word (w0 w1 w9 w14 : UInt32) :
    (w0 + (rotate_right w1 7 ^^^ rotate_right w1 18 ^^^ (w1 >>> 3)) + w9 +
      (rotate_right w14 17 ^^^ rotate_right w14 19 ^^^ (w14 >>> 10))).toBitVec =
    small_sigma1 w14.toBitVec + w9.toBitVec + small_sigma0 w1.toBitVec + w0.toBitVec := by
  unfold small_sigma0 small_sigma1
  rw [UInt32.toBitVec_add, UInt32.toBitVec_add, UInt32.toBitVec_add, UInt32.toBitVec_xor,
    UInt32.toBitVec_xor, UInt32.toBitVec_xor, UInt32.toBitVec_xor,
    rotate_right_bits w1 (by decide) (by decide), rotate_right_bits w1 (by decide) (by decide),
    rotate_right_bits w14 (by decide) (by decide), rotate_right_bits w14 (by decide) (by decide),
    UInt32.toBitVec_shiftRight, UInt32.toBitVec_shiftRight, BitVec.add_comm _ w9.toBitVec,
    BitVec.add_comm w0.toBitVec, ← BitVec.add_assoc, BitVec.add_comm, ← BitVec.add_assoc,
    ← BitVec.add_assoc]
  rfl

/-- **The schedule.** -/
theorem message_schedule_getD {block : List UInt8} (h : block.length = 64) (n : ℕ) :
    let schedule_list := (List.range n).foldl
      (fun schedule i => schedule ++ [schedule_word schedule (16 + i)]) (block_words block)
    schedule_list.length = 16 + n ∧ ∀ t < 16 + n,
      (schedule_list.getD t 0).toBitVec = schedule (block_word (byte_bits block)) t := by
  induction n with
  | zero =>
    have hlength : (block_words block).length = 16 := block_words_length 16 h
    refine ⟨hlength, fun t ht => ?_⟩
    rw [schedule, if_pos (by omega)]
    exact block_words_getD (by omega)
  | succ n ih =>
    dsimp only at ih ⊢
    rw [List.range_succ, List.foldl_append, List.foldl_cons, List.foldl_nil]
    generalize (List.range n).foldl
      (fun schedule i => schedule ++ [schedule_word schedule (16 + i)]) (block_words block) = so_far
      at ih ⊢
    obtain ⟨hlength, hwords⟩ := ih
    refine ⟨by rw [List.length_append, hlength, List.length_singleton]; omega, fun t ht => ?_⟩
    by_cases hold : t < 16 + n
    · rw [List.getD_append _ _ _ _ (by omega)]
      exact hwords t hold
    · have hlast : t = 16 + n := by omega
      rw [hlast, List.getD_append_right _ _ _ _ (by omega), hlength, Nat.sub_self,
        List.getD_cons_zero, schedule, if_neg (by omega), ← hwords _ (by omega),
        ← hwords _ (by omega), ← hwords _ (by omega), ← hwords _ (by omega)]
      exact small_sigma_word _ _ _ _

/-- One round. -/
theorem compress_round_working (s : State) (constant word : UInt32) :
    (compress_round s constant word).working =
      hash_round s.working constant.toBitVec word.toBitVec := by
  have hsum1 : (rotate_right s.e 6 ^^^ rotate_right s.e 11 ^^^ rotate_right s.e 25).toBitVec =
      big_sigma1 s.e.toBitVec := by
    rw [UInt32.toBitVec_xor, UInt32.toBitVec_xor, rotate_right_bits s.e (by decide) (by decide),
      rotate_right_bits s.e (by decide) (by decide), rotate_right_bits s.e (by decide) (by decide)]
    rfl
  have hsum0 : (rotate_right s.a 2 ^^^ rotate_right s.a 13 ^^^ rotate_right s.a 22).toBitVec =
      big_sigma0 s.a.toBitVec := by
    rw [UInt32.toBitVec_xor, UInt32.toBitVec_xor, rotate_right_bits s.a (by decide) (by decide),
      rotate_right_bits s.a (by decide) (by decide), rotate_right_bits s.a (by decide) (by decide)]
    rfl
  unfold compress_round hash_round State.working
  dsimp only
  simp only [UInt32.toBitVec_add, hsum1, hsum0]
  rfl

/-- The two walk through the same rounds. -/
theorem rounds_working (constants words : List UInt32) (constant word : ℕ → Word) (rounds : List ℕ)
    (s : State) (h : ∀ i ∈ rounds, (constants.getD i 0).toBitVec = constant i ∧
      (words.getD i 0).toBitVec = word i) :
    (rounds.foldl (fun s i => compress_round s (constants.getD i 0) (words.getD i 0)) s).working =
      rounds.foldl (fun s i => hash_round s (constant i) (word i)) s.working := by
  induction rounds generalizing s with
  | nil => rfl
  | cons i rounds ih =>
    rw [List.foldl_cons, List.foldl_cons, ih _ fun j hj => h j (List.mem_cons_of_mem i hj),
      compress_round_working, (h i List.mem_cons_self).1, (h i List.mem_cons_self).2]

/-- Two lists of one length, position by position. -/
theorem zip_range {n : ℕ} {constants words : List UInt32} (hconstants : constants.length = n)
    (hwords : words.length = n) : constants.zip words =
      (List.range n).map fun t => (constants.getD t 0, words.getD t 0) := by
  apply List.ext_getElem
  · rw [List.length_zip, hwords, hconstants, List.length_map, List.length_range, Nat.min_self]
  intro t ht ht'
  rw [List.length_map, List.length_range] at ht'
  rw [List.getElem_zip, List.getElem_map, List.getElem_range,
    List.getD_eq_getElem constants 0 (by omega), List.getD_eq_getElem words 0 (by omega)]

/-- **One block.** -/
theorem compress_working (s : State) {block : List UInt8} (h : block.length = 64) :
    (compress s block).working = next_value s.working (block_word (byte_bits block)) := by
  have hschedule : (message_schedule block).length = 64 ∧ ∀ t < 64,
      ((message_schedule block).getD t 0).toBitVec = schedule (block_word (byte_bits block)) t :=
    message_schedule_getD h 48
  unfold next_value compress
  dsimp only
  generalize message_schedule block = words at hschedule
  have hrounds : ((ROUND_CONSTANTS.zip words).foldl (fun t cw => compress_round t cw.1 cw.2)
      s).working = (List.range 64).foldl (fun t i =>
        hash_round t (round_constant i) (schedule (block_word (byte_bits block)) i)) s.working := by
    rw [zip_range rfl hschedule.1, List.foldl_map]
    refine rounds_working _ _ _ _ _ _ fun i hi => ?_
    have hlt : i < 64 := List.mem_range.mp hi
    exact ⟨(round_constant_eq hlt).symm, hschedule.2 i hlt⟩
  rw [← hrounds]
  generalize (ROUND_CONSTANTS.zip words).foldl (fun t cw => compress_round t cw.1 cw.2) s = t
  unfold State.working
  dsimp only
  simp only [UInt32.toBitVec_add]

/-! ## A message -/

theorem compress_blocks_working (n : ℕ) (s : State) {bytes : List UInt8}
    (h : 64 * n ≤ bytes.length) :
    (compress_blocks n s bytes).1.working = hash_blocks n s.working (byte_bits bytes) := by
  induction n generalizing s bytes with
  | zero => rfl
  | succ n ih =>
    rw [compress_blocks, ih _ (by rw [List.length_drop]; omega), hash_blocks,
      compress_working s (by rw [List.length_take]; omega), show 512 = 8 * 64 from rfl,
      byte_bits_take, byte_bits_drop]

/-- How many zero bytes the hasher puts behind the mark. -/
def pad_zeros (length : ℕ) : ℕ := (119 - length % 64) % 64

/-- The message with its padding, in bytes. -/
def padded_bytes (bytes : List UInt8) (bit_length : ℕ) : List UInt8 :=
  bytes ++ 0x80 :: List.replicate (pad_zeros bytes.length) 0 ++ be64 bit_length

/-- **The padding is that of the standard.** -/
theorem padded_bytes_bits (bytes : List UInt8) :
    byte_bits (padded_bytes bytes (bytes.length * 8)) = pad (byte_bits bytes) := by
  have hmark (n : ℕ) : byte_bits (0x80 :: List.replicate n 0) =
      true :: List.replicate (7 + 8 * n) false := by
    rw [byte_bits_cons]
    have hzeros : byte_bits (List.replicate n 0) = List.replicate (8 * n) false := by
      induction n with
      | zero => rfl
      | succ n ih =>
        rw [List.replicate_succ, byte_bits_cons, ih, Nat.mul_succ, Nat.add_comm,
          List.replicate_add]
        rfl
    rw [hzeros, List.replicate_add]
    rfl
  have hcount : padding_zeros (8 * bytes.length) = 7 + 8 * pad_zeros bytes.length := by
    unfold padding_zeros pad_zeros
    omega
  unfold padded_bytes pad
  rw [byte_bits_append, byte_bits_append, hmark, Approval.be64_eq, byte_bits_be_bytes,
    byte_bits_length, hcount, Nat.mul_comm bytes.length 8]

/-- The last blocks of the hasher are the blocks of what it keeps, padded. -/
theorem pad_blocks_eq (s : State) {buffer : List UInt8} (h : buffer.length < 64) (bit_length : ℕ) :
    pad_blocks s buffer bit_length = (compress_blocks
      ((padded_bytes buffer bit_length).length / 64) s (padded_bytes buffer bit_length)).1 := by
  have hbe : (be64 bit_length).length = 8 := rfl
  unfold pad_blocks padded_bytes
  dsimp only
  rw [List.length_append, List.length_singleton]
  by_cases hlong : 56 < buffer.length + 1
  · have hzeros : pad_zeros buffer.length = (64 - (buffer.length + 1)) + 56 := by
      unfold pad_zeros
      omega
    have hcount : (buffer ++ 0x80 :: List.replicate (pad_zeros buffer.length) 0 ++
        be64 bit_length).length / 64 = 1 + 1 := by
      rw [List.length_append, List.length_append, List.length_cons, List.length_replicate, hbe]
      omega
    have hsplit : buffer ++ 0x80 :: List.replicate (pad_zeros buffer.length) 0 ++ be64 bit_length =
        (buffer ++ [0x80] ++ List.replicate (64 - (buffer.length + 1)) 0) ++
          (List.replicate 56 0 ++ be64 bit_length) := by
      rw [hzeros, List.replicate_add]
      simp only [List.append_assoc, List.cons_append, List.nil_append]
    have hfirst : (buffer ++ [0x80] ++ List.replicate (64 - (buffer.length + 1)) (0 : UInt8)).length =
        64 := by
      rw [List.length_append, List.length_append, List.length_singleton, List.length_replicate]
      omega
    have hlast : (List.replicate 56 (0 : UInt8) ++ be64 bit_length).length = 64 := rfl
    rw [if_pos hlong, hcount, hsplit, compress_blocks, compress_blocks, compress_blocks,
      List.take_left' hfirst, List.drop_left' hfirst, List.take_of_length_le hlast.le]
  · have hzeros : pad_zeros buffer.length = 56 - (buffer.length + 1) := by
      unfold pad_zeros
      omega
    have hlength : (buffer ++ 0x80 :: List.replicate (pad_zeros buffer.length) 0 ++
        be64 bit_length).length = 64 := by
      rw [List.length_append, List.length_append, List.length_cons, List.length_replicate, hbe]
      omega
    rw [if_neg hlong, hlength, compress_blocks, compress_blocks, List.take_of_length_le hlength.le,
      hzeros]
    simp only [List.append_assoc, List.cons_append, List.nil_append]

/-- All the blocks of a digest, those of the message and those of the padding. -/
theorem digest_state {bytes : List UInt8} (bit_length : ℕ) :
    pad_blocks (compress_blocks (bytes.length / 64) INITIAL_STATE bytes).1
        (bytes.drop (64 * (bytes.length / 64))) bit_length =
      (compress_blocks ((padded_bytes bytes bit_length).length / 64) INITIAL_STATE
        (padded_bytes bytes bit_length)).1 := by
  have hfits : 64 * (bytes.length / 64) ≤ bytes.length := Nat.mul_div_le _ _
  have hrest : (bytes.drop (64 * (bytes.length / 64))).length = bytes.length % 64 := by
    rw [List.length_drop]
    omega
  have hzeros : pad_zeros (bytes.length % 64) = pad_zeros bytes.length := by
    unfold pad_zeros
    omega
  have htail : padded_bytes (bytes.drop (64 * (bytes.length / 64))) bit_length =
      (padded_bytes bytes bit_length).drop (64 * (bytes.length / 64)) := by
    unfold padded_bytes
    rw [hrest, hzeros, List.append_assoc, List.append_assoc, List.drop_append_of_le_length hfits]
  have hcount : (padded_bytes bytes bit_length).length / 64 = bytes.length / 64 +
      ((padded_bytes bytes bit_length).drop (64 * (bytes.length / 64))).length / 64 := by
    have hlonger : bytes.length ≤ (padded_bytes bytes bit_length).length := by
      unfold padded_bytes
      rw [List.length_append, List.length_append]
      omega
    rw [List.length_drop]
    omega
  have hfront : (compress_blocks (bytes.length / 64) INITIAL_STATE
      (padded_bytes bytes bit_length)).1 =
        (compress_blocks (bytes.length / 64) INITIAL_STATE bytes).1 := by
    unfold padded_bytes
    rw [List.append_assoc]
    exact compress_blocks_append _ _ hfits
  rw [pad_blocks_eq _ (by omega), htail, hcount, compress_blocks_add, hfront]

/-- The bytes of a state are its words. -/
theorem state_bits (s : State) :
    byte_bits (be32 s.a ++ be32 s.b ++ be32 s.c ++ be32 s.d ++ be32 s.e ++ be32 s.f ++ be32 s.g ++
      be32 s.h) = s.working.bits := by
  have hword (w : UInt32) : byte_bits (be32 w) = word_bits w.toBitVec := by
    have hbe : be32 w = be_bytes 4 w.toNat := by
      simp only [be32, be_bytes, List.map_cons, List.map_nil, Nat.shiftRight_eq_div_pow]
      norm_num
    rw [hbe, byte_bits_be_bytes]
    rfl
  simp only [byte_bits_append, hword]
  rfl

/-- **The digest of a byte string is its SHA-256.** -/
theorem digest_standard {bytes : List UInt8} (h : bytes.length < 2 ^ 61) :
    byte_bits (digest bytes).bytes = hash_bits (byte_bits bytes) := by
  have hbits : min (min bytes.length U64_MAX * 8) U64_MAX = bytes.length * 8 := by
    have hmax : U64_MAX = 2 ^ 64 - 1 := rfl
    omega
  have hlength : (pad (byte_bits bytes)).length / 512 =
      (padded_bytes bytes (bytes.length * 8)).length / 64 := by
    rw [← padded_bytes_bits, byte_bits_length]
    omega
  unfold digest Sha256Hasher.finalize
  rw [update_new]
  dsimp only
  rw [hbits, digest_state, state_bits, compress_blocks_working _ _ (Nat.mul_div_le _ _),
    padded_bytes_bits, ← initial_value_eq, ← hlength]
  rfl

/-- **The streaming hasher computes SHA-256**, for every way of cutting a message into
pieces. -/
theorem streaming_standard (chunks : List (List UInt8)) (h : chunks.flatten.length < 2 ^ 61) :
    byte_bits (chunks.foldl BlockHasher.update BlockHasher.new).finalize.bytes =
      hash_bits (byte_bits chunks.flatten) := by
  rw [block_updates_eq]
  exact digest_standard h

/-- A message in pieces of different lengths, one of them empty. -/
theorem streaming_standard_abc :
    byte_bits (([[97], [], [98, 99]] : List (List UInt8)).foldl BlockHasher.update
      BlockHasher.new).finalize.bytes = hash_bits (byte_bits [97, 98, 99]) :=
  streaming_standard [[97], [], [98, 99]] (by decide)

end LeanBun.Core
