/-
Digests that the kernel computes.

`digest` follows the hasher: its words are machine integers, its schedule is a list
that grows at the end. `evaluate` computes the same on natural numbers, each of them
reduced to a literal before it is used, with the last sixteen words of the schedule
at hand. It is here for the samples of this development, whose identities are digests.
-/
import LeanBun.Core.Sha256

set_option autoImplicit false

namespace LeanBun.Core

open LeanBun.Lib

/-- Reduces a number before it is used. -/
def forced {α : Type} (n : ℕ) (k : ℕ → α) : α :=
  match n with
  | 0 => k 0
  | m + 1 => k (Nat.succ m)

@[simp] theorem forced_eq {α : Type} (n : ℕ) (k : ℕ → α) : forced n k = k n := by
  cases n <;> rfl

/-! ## Words -/

def WORD : ℕ := 4294967296

/-- `rotate_right`. -/
def rotate (w n : ℕ) : ℕ :=
  Nat.lor (Nat.shiftRight w n) (Nat.mod (Nat.shiftLeft w (Nat.sub 32 n)) WORD)

theorem rotate_eq {n : UInt32} (w : UInt32) (hn : 0 < n.toNat) (hlt : n.toNat < 32) :
    (rotate_right w n).toNat = rotate w.toNat n.toNat := by
  have hsub : (32 - n).toNat = 32 - n.toNat := by
    refine UInt32.toNat_sub_of_le _ _ ?_
    exact UInt32.le_iff_toNat_le.mpr (le_of_lt hlt)
  unfold rotate_right rotate
  rw [UInt32.toNat_or, UInt32.toNat_shiftRight, UInt32.toNat_shiftLeft, hsub,
    Nat.mod_eq_of_lt hlt, Nat.mod_eq_of_lt (by omega : 32 - n.toNat < 32)]
  rfl

/-- Three words mixed. -/
def mixed (x y z : ℕ) : ℕ := Nat.xor (Nat.xor x y) z

/-- One more word of the schedule from four before it. -/
def next_word (w0 w1 w9 w14 : ℕ) : ℕ :=
  Nat.mod (Nat.add (Nat.add (Nat.add w0 (mixed (rotate w1 7) (rotate w1 18) (Nat.shiftRight w1 3))) w9)
    (mixed (rotate w14 17) (rotate w14 19) (Nat.shiftRight w14 10))) WORD

theorem next_word_eq (schedule : List UInt32) (i : ℕ) :
    (schedule_word schedule (16 + i)).toNat = next_word (schedule.getD i 0).toNat
      (schedule.getD (i + 1) 0).toNat (schedule.getD (i + 9) 0).toNat
      (schedule.getD (i + 14) 0).toNat := by
  have h15 : 16 + i - 15 = i + 1 := by omega
  have h2 : 16 + i - 2 = i + 14 := by omega
  have h16 : 16 + i - 16 = i := by omega
  have h7 : 16 + i - 7 = i + 9 := by omega
  unfold schedule_word
  dsimp only
  rw [h15, h2, h16, h7]
  generalize schedule.getD i 0 = w0
  generalize schedule.getD (i + 1) 0 = w1
  generalize schedule.getD (i + 9) 0 = w9
  generalize schedule.getD (i + 14) 0 = w14
  rw [UInt32.toNat_add, UInt32.toNat_add, UInt32.toNat_add, UInt32.toNat_xor, UInt32.toNat_xor,
    UInt32.toNat_xor, UInt32.toNat_xor, rotate_eq w1 (by decide) (by decide),
    rotate_eq w1 (by decide) (by decide), rotate_eq w14 (by decide) (by decide),
    rotate_eq w14 (by decide) (by decide), UInt32.toNat_shiftRight, UInt32.toNat_shiftRight,
    Nat.mod_add_mod, Nat.add_assoc (_ % _), Nat.mod_add_mod, ← Nat.add_assoc]
  rfl

/-- The words of a block, by their bytes. -/
def words : List UInt8 → List ℕ
  | b0 :: b1 :: b2 :: b3 :: rest =>
    Nat.lor (Nat.lor (Nat.lor (Nat.shiftLeft b0.toNat 24) (Nat.shiftLeft b1.toNat 16))
      (Nat.shiftLeft b2.toNat 8)) b3.toNat :: words rest
  | _ => []

theorem words_eq (block : List UInt8) : (block_words block).map UInt32.toNat = words block := by
  induction block using words.induct with
  | case1 b0 b1 b2 b3 rest ih =>
    have hshift : ∀ (b : UInt8) (n : UInt32), n.toNat ≤ 24 →
        (b.toUInt32 <<< n).toNat = Nat.shiftLeft b.toNat n.toNat := by
      intro b n hn
      have hb := b.toNat_lt
      have hpow : 2 ^ n.toNat ≤ 2 ^ 24 := Nat.pow_le_pow_right (by decide) hn
      have hlt : b.toNat * 2 ^ n.toNat < 2 ^ 32 := by
        calc b.toNat * 2 ^ n.toNat ≤ b.toNat * 2 ^ 24 := Nat.mul_le_mul_left _ hpow
          _ < 2 ^ 32 := by omega
      rw [UInt32.toNat_shiftLeft, UInt8.toNat_toUInt32, Nat.mod_eq_of_lt (by omega : n.toNat < 32)]
      rw [Nat.shiftLeft_eq, Nat.mod_eq_of_lt hlt, ← Nat.shiftLeft_eq]
      rfl
    unfold block_words words
    rw [List.map_cons, ih, UInt32.toNat_or, UInt32.toNat_or, UInt32.toNat_or,
      hshift b0 24 (by decide), hshift b1 16 (by decide), hshift b2 8 (by decide),
      UInt8.toNat_toUInt32]
    rfl
  | case2 block hshort =>
    have hnil : block_words block = [] := by
      unfold block_words
      split
      · exact absurd rfl (hshort _ _ _ _ _)
      · rfl
    have hwords : words block = [] := by
      unfold words
      split
      · exact absurd rfl (hshort _ _ _ _ _)
      · rfl
    rw [hnil, hwords]
    rfl

/-- The next `n` words of the schedule after sixteen. -/
def schedule_from (n w0 w1 w2 w3 w4 w5 w6 w7 w8 w9 w10 w11 w12 w13 w14 w15 : ℕ) : List ℕ :=
  match n with
  | 0 => [w0, w1, w2, w3, w4, w5, w6, w7, w8, w9, w10, w11, w12, w13, w14, w15]
  | n + 1 => w0 :: forced (next_word w0 w1 w9 w14) fun w16 =>
    schedule_from n w1 w2 w3 w4 w5 w6 w7 w8 w9 w10 w11 w12 w13 w14 w15 w16

/-- The window is at the end of the schedule so far. -/
theorem schedule_from_eq (n : ℕ) (before : List UInt32)
    (w0 w1 w2 w3 w4 w5 w6 w7 w8 w9 w10 w11 w12 w13 w14 w15 : UInt32) :
    ((List.range' before.length n).foldl
        (fun schedule i => schedule ++ [schedule_word schedule (16 + i)])
        (before ++ [w0, w1, w2, w3, w4, w5, w6, w7, w8, w9, w10, w11, w12, w13, w14, w15])).map
          UInt32.toNat =
      before.map UInt32.toNat ++ schedule_from n w0.toNat w1.toNat w2.toNat w3.toNat w4.toNat
        w5.toNat w6.toNat w7.toNat w8.toNat w9.toNat w10.toNat w11.toNat w12.toNat w13.toNat
        w14.toNat w15.toNat := by
  induction n generalizing before w0 w1 w2 w3 w4 w5 w6 w7 w8 w9 w10 w11 w12 w13 w14 w15 with
  | zero => simp [schedule_from]
  | succ n ih =>
    have hwindow : ∀ i, (before ++ [w0, w1, w2, w3, w4, w5, w6, w7, w8, w9, w10, w11, w12, w13, w14,
        w15]).getD (before.length + i) 0 = [w0, w1, w2, w3, w4, w5, w6, w7, w8, w9, w10, w11, w12,
          w13, w14, w15].getD i 0 := by
      intro i
      rw [List.getD_append_right _ _ _ _ (Nat.le_add_right _ _), Nat.add_sub_cancel_left]
    have hnext := next_word_eq (before ++ [w0, w1, w2, w3, w4, w5, w6, w7, w8, w9, w10, w11, w12,
      w13, w14, w15]) before.length
    rw [hwindow 1, hwindow 9, hwindow 14, ← Nat.add_zero before.length, hwindow 0,
      Nat.add_zero] at hnext
    rw [List.range'_succ, List.foldl_cons]
    have hshift := ih (before ++ [w0]) w1 w2 w3 w4 w5 w6 w7 w8 w9 w10 w11 w12 w13 w14 w15
      (schedule_word (before ++ [w0, w1, w2, w3, w4, w5, w6, w7, w8, w9, w10, w11, w12,
        w13, w14, w15]) (16 + before.length))
    rw [List.length_append, List.length_singleton, hnext] at hshift
    unfold schedule_from
    rw [forced_eq]
    simp only [List.append_assoc, List.cons_append, List.nil_append, List.map_append, List.map_cons,
      List.map_nil] at hshift ⊢
    exact hshift

/-! ## Rounds -/

/-- The rounds over the words of a schedule. -/
def rounds : List ℕ → List ℕ → (a b c d e f g h : ℕ) → State
  | constant :: constants, word :: schedule, a, b, c, d, e, f, g, h =>
    forced (Nat.mod (Nat.add (Nat.add (Nat.add (Nat.add h (mixed (rotate e 6) (rotate e 11)
      (rotate e 25))) (Nat.xor (Nat.land e f) (Nat.land (Nat.sub (WORD - 1) e) g))) constant) word)
        WORD) fun temporary1 =>
    forced (Nat.mod (Nat.add temporary1 (Nat.add (mixed (rotate a 2) (rotate a 13) (rotate a 22))
      (mixed (Nat.land a b) (Nat.land a c) (Nat.land b c)))) WORD) fun a' =>
    forced (Nat.mod (Nat.add d temporary1) WORD) fun e' =>
      rounds constants schedule a' a b c e' e f g
  | _, _, a, b, c, d, e, f, g, h => ⟨UInt32.ofNat a, UInt32.ofNat b, UInt32.ofNat c, UInt32.ofNat d,
    UInt32.ofNat e, UInt32.ofNat f, UInt32.ofNat g, UInt32.ofNat h⟩

theorem rounds_eq (constants schedule : List UInt32) (s : State) :
    rounds (constants.map UInt32.toNat) (schedule.map UInt32.toNat) s.a.toNat s.b.toNat s.c.toNat
        s.d.toNat s.e.toNat s.f.toNat s.g.toNat s.h.toNat =
      (constants.zip schedule).foldl (fun t cw => compress_round t cw.1 cw.2) s := by
  induction constants generalizing schedule s with
  | nil => simp [rounds]
  | cons constant constants ih =>
    cases schedule with
    | nil => simp [rounds]
    | cons word schedule =>
      rw [List.zip_cons_cons, List.foldl_cons, ← ih]
      have hsum1 : (rotate_right s.e 6 ^^^ rotate_right s.e 11 ^^^ rotate_right s.e 25).toNat =
          mixed (rotate s.e.toNat 6) (rotate s.e.toNat 11) (rotate s.e.toNat 25) := by
        rw [UInt32.toNat_xor, UInt32.toNat_xor, rotate_eq _ (by decide) (by decide),
          rotate_eq _ (by decide) (by decide), rotate_eq _ (by decide) (by decide)]
        rfl
      have hsum0 : (rotate_right s.a 2 ^^^ rotate_right s.a 13 ^^^ rotate_right s.a 22).toNat =
          mixed (rotate s.a.toNat 2) (rotate s.a.toNat 13) (rotate s.a.toNat 22) := by
        rw [UInt32.toNat_xor, UInt32.toNat_xor, rotate_eq _ (by decide) (by decide),
          rotate_eq _ (by decide) (by decide), rotate_eq _ (by decide) (by decide)]
        rfl
      have hchoice : ((s.e &&& s.f) ^^^ (~~~s.e &&& s.g)).toNat = Nat.xor (Nat.land s.e.toNat s.f.toNat)
          (Nat.land (Nat.sub (WORD - 1) s.e.toNat) s.g.toNat) := by
        rw [UInt32.toNat_xor, UInt32.toNat_and, UInt32.toNat_and, UInt32.toNat_not]
        rfl
      have hmajority : ((s.a &&& s.b) ^^^ (s.a &&& s.c) ^^^ (s.b &&& s.c)).toNat =
          mixed (Nat.land s.a.toNat s.b.toNat) (Nat.land s.a.toNat s.c.toNat)
            (Nat.land s.b.toNat s.c.toNat) := by
        rw [UInt32.toNat_xor, UInt32.toNat_xor, UInt32.toNat_and, UInt32.toNat_and, UInt32.toNat_and]
        rfl
      rw [List.map_cons, List.map_cons]
      conv_lhs => unfold rounds
      simp only [forced_eq]
      have htemporary1 : (s.h + (rotate_right s.e 6 ^^^ rotate_right s.e 11 ^^^ rotate_right s.e 25) +
          ((s.e &&& s.f) ^^^ (~~~s.e &&& s.g)) + constant + word).toNat =
          Nat.mod (Nat.add (Nat.add (Nat.add (Nat.add s.h.toNat (mixed (rotate s.e.toNat 6)
            (rotate s.e.toNat 11) (rotate s.e.toNat 25))) (Nat.xor (Nat.land s.e.toNat s.f.toNat)
              (Nat.land (Nat.sub (WORD - 1) s.e.toNat) s.g.toNat))) constant.toNat) word.toNat)
            WORD := by
        rw [UInt32.toNat_add, UInt32.toNat_add, UInt32.toNat_add, UInt32.toNat_add, hsum1, hchoice]
        generalize mixed (rotate s.e.toNat 6) (rotate s.e.toNat 11) (rotate s.e.toNat 25) = x
        generalize Nat.xor (Nat.land s.e.toNat s.f.toNat)
          (Nat.land (Nat.sub (WORD - 1) s.e.toNat) s.g.toNat) = y
        show (((( s.h.toNat + x) % 2 ^ 32 + y) % 2 ^ 32 + constant.toNat) % 2 ^ 32 + word.toNat) %
          2 ^ 32 = (s.h.toNat + x + y + constant.toNat + word.toNat) % 2 ^ 32
        omega
      rw [← htemporary1]
      unfold compress_round
      dsimp only
      generalize s.h + (rotate_right s.e 6 ^^^ rotate_right s.e 11 ^^^ rotate_right s.e 25) +
          ((s.e &&& s.f) ^^^ (~~~s.e &&& s.g)) + constant + word = temporary1
      rw [UInt32.toNat_add, UInt32.toNat_add, UInt32.toNat_add, hsum0, hmajority, Nat.add_mod_mod]
      rfl

/-! ## Blocks -/

/-- `compress`. -/
def evaluate_block (s : State) (block : List UInt8) : State :=
  match words block with
  | [w0, w1, w2, w3, w4, w5, w6, w7, w8, w9, w10, w11, w12, w13, w14, w15] =>
    forced s.a.toNat fun a => forced s.b.toNat fun b => forced s.c.toNat fun c =>
    forced s.d.toNat fun d => forced s.e.toNat fun e => forced s.f.toNat fun f =>
    forced s.g.toNat fun g => forced s.h.toNat fun h =>
    forced w0 fun w0 => forced w1 fun w1 => forced w2 fun w2 => forced w3 fun w3 =>
    forced w4 fun w4 => forced w5 fun w5 => forced w6 fun w6 => forced w7 fun w7 =>
    forced w8 fun w8 => forced w9 fun w9 => forced w10 fun w10 => forced w11 fun w11 =>
    forced w12 fun w12 => forced w13 fun w13 => forced w14 fun w14 => forced w15 fun w15 =>
      let t := rounds (ROUND_CONSTANTS.map UInt32.toNat)
        (schedule_from 48 w0 w1 w2 w3 w4 w5 w6 w7 w8 w9 w10 w11 w12 w13 w14 w15) a b c d e f g h
      ⟨s.a + t.a, s.b + t.b, s.c + t.c, s.d + t.d, s.e + t.e, s.f + t.f, s.g + t.g, s.h + t.h⟩
  | _ => compress s block

theorem evaluate_block_eq (s : State) (block : List UInt8) :
    evaluate_block s block = compress s block := by
  unfold evaluate_block
  split
  · next w0 w1 w2 w3 w4 w5 w6 w7 w8 w9 w10 w11 w12 w13 w14 w15 hwords =>
    rw [← words_eq] at hwords
    simp only [forced_eq]
    unfold compress message_schedule
    generalize block_words block = schedule at hwords
    have hlength : schedule.length = 16 := by simpa using congrArg List.length hwords
    match schedule, hlength, hwords with
    | [v0, v1, v2, v3, v4, v5, v6, v7, v8, v9, v10, v11, v12, v13, v14, v15], _, hwords =>
      simp only [List.map_cons, List.map_nil, List.cons.injEq, and_true] at hwords
      obtain ⟨rfl, rfl, rfl, rfl, rfl, rfl, rfl, rfl, rfl, rfl, rfl, rfl, rfl, rfl, rfl, rfl⟩ := hwords
      have hschedule := schedule_from_eq 48 [] v0 v1 v2 v3 v4 v5 v6 v7 v8 v9 v10 v11 v12 v13 v14 v15
      rw [List.nil_append, List.map_nil, List.nil_append] at hschedule
      rw [← hschedule, rounds_eq, List.range_eq_range']
      rfl
  · rfl

/-- `compress_blocks`. -/
def evaluate_blocks : ℕ → State → List UInt8 → State × List UInt8
  | 0, s, input => (s, input)
  | n + 1, s, input => evaluate_blocks n (evaluate_block s (input.take 64)) (input.drop 64)

theorem evaluate_blocks_eq (n : ℕ) (s : State) (input : List UInt8) :
    evaluate_blocks n s input = compress_blocks n s input := by
  induction n generalizing s input with
  | zero => rfl
  | succ n ih =>
    unfold evaluate_blocks compress_blocks
    rw [evaluate_block_eq, ih]

/-- `digest`: the padded bytes block by block. -/
def evaluate (bytes : List UInt8) : Sha256 :=
  let bit_length := min (min bytes.length U64_MAX * 8) U64_MAX
  let (state, rest) := evaluate_blocks (bytes.length / 64) INITIAL_STATE bytes
  let buffer := rest ++ [0x80]
  let s :=
    if 56 < buffer.length then
      evaluate_block (evaluate_block state (buffer ++ List.replicate (64 - buffer.length) 0))
        (List.replicate 56 0 ++ be64 bit_length)
    else
      evaluate_block state (buffer ++ List.replicate (56 - buffer.length) 0 ++ be64 bit_length)
  ⟨be32 s.a ++ be32 s.b ++ be32 s.c ++ be32 s.d ++ be32 s.e ++ be32 s.f ++ be32 s.g ++ be32 s.h, rfl⟩

/-- **The two agree.** -/
theorem digest_eq_evaluate (bytes : List UInt8) : digest bytes = evaluate bytes := by
  unfold digest evaluate Sha256Hasher.update Sha256Hasher.finalize Sha256Hasher.new pad_blocks
  simp only [evaluate_blocks_eq, evaluate_block_eq, List.length_nil, Nat.zero_add, if_true]

end LeanBun.Core
