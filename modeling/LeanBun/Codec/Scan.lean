/-
What the steps of the JSON parser take from a text.

The parser looks at bytes and every byte it tests for is an ASCII one, so in
front of the bytes of a text it sees the characters of the text. A step that
has read `s` in front of `t` leaves the parser `p.past k s t`, with `k` values
counted.

Each step has two lemmas: what it read if it succeeds, and that it succeeds in
front of what it is for. The strings and numbers of the grammar follow from
them, character by character and part by part.
-/
import LeanBun.Codec.Grammar
import LeanBun.Lib.Check

set_option autoImplicit false

namespace LeanBun.Codec

open LeanBun.Lib

/-! ## ASCII bytes -/

/-- An ASCII character is encoded as its own byte. -/
theorem utf8_of_le {c : Char} (h : c.toNat ≤ 127) : String.utf8EncodeChar c = [byte c] := by
  unfold String.utf8EncodeChar byte
  have h' : c.val.toNat ≤ 127 := h
  simp only [h', if_true]
  rfl

theorem high_byte {n : ℕ} (h : 128 ≤ n) (h' : n < 256) : 0x80 ≤ UInt8.ofNat n := by
  rw [UInt8.le_iff_toNat_le, UInt8.toNat_ofNat', Nat.mod_eq_of_lt h']
  exact h

/-- Every byte of another character has its high bit set. -/
theorem utf8_of_gt {c : Char} (h : 127 < c.toNat) : ∀ b ∈ String.utf8EncodeChar c, 0x80 ≤ b := by
  have h' : ¬c.val.toNat ≤ 127 := Nat.not_le.mpr h
  unfold String.utf8EncodeChar
  intro b hb
  simp only [h', if_false] at hb
  split_ifs at hb
  all_goals
    simp only [List.mem_cons, List.not_mem_nil, or_false] at hb
    rcases hb with rfl | rfl | rfl | rfl
  all_goals exact high_byte (by omega) (by omega)

theorem byte_toNat {c : Char} (h : c.toNat ≤ 127) : (byte c).toNat = c.toNat := by
  unfold byte
  rw [Nat.toUInt8_eq, UInt8.toNat_ofNat', Nat.mod_eq_of_lt (by omega)]

theorem byte_lt {c : Char} (h : c.toNat ≤ 127) : ¬0x80 ≤ byte c := by
  rw [UInt8.le_iff_toNat_le, byte_toNat h]
  show ¬128 ≤ c.toNat
  omega

theorem byte_injective {c d : Char} (hc : c.toNat ≤ 127) (hd : d.toNat ≤ 127)
    (h : byte c = byte d) : c = d := by
  have hn := congrArg UInt8.toNat h
  rw [byte_toNat hc, byte_toNat hd] at hn
  exact Char.toNat_inj.mp hn

theorem as_bytes_cons (c : Char) (t : Str) :
    as_bytes (c :: t) = String.utf8EncodeChar c ++ as_bytes t := List.flatMap_cons

theorem as_bytes_ascii {c : Char} (h : c.toNat ≤ 127) (t : Str) :
    as_bytes (c :: t) = byte c :: as_bytes t := by
  rw [as_bytes_cons, utf8_of_le h]
  rfl

/-- The first byte of another character is not an ASCII one. -/
theorem as_bytes_high {c : Char} (h : 127 < c.toNat) (t : Str) :
    ∃ b bytes, as_bytes (c :: t) = b :: bytes ∧ 0x80 ≤ b := by
  have hall := utf8_of_gt h
  rw [as_bytes_cons]
  cases hc : String.utf8EncodeChar c with
  | nil => exact absurd hc String.utf8EncodeChar_ne_nil
  | cons b bytes => exact ⟨b, _, rfl, hall b (by rw [hc]; exact List.mem_cons_self)⟩

/-- What begins with an ASCII byte begins with its character. -/
theorem as_bytes_eq_cons {c : Char} (hc : c.toNat ≤ 127) {t : Str} {bytes : List UInt8}
    (h : as_bytes t = byte c :: bytes) : ∃ t', t = c :: t' ∧ bytes = as_bytes t' := by
  cases t with
  | nil => cases h
  | cons d t =>
    by_cases hd : d.toNat ≤ 127
    · rw [as_bytes_ascii hd] at h
      injection h with hbyte hrest
      rw [byte_injective hd hc hbyte]
      exact ⟨t, rfl, hrest.symm⟩
    · obtain ⟨b, bytes', heq, hb⟩ := as_bytes_high (Nat.not_le.mp hd) t
      rw [heq] at h
      injection h with hbyte _
      rw [hbyte] at hb
      exact absurd hb (byte_lt hc)

/-- A kind of byte that is a kind of ASCII character. -/
structure AsciiKind (kind : UInt8 → Bool) (chars : Char → Bool) : Prop where
  low : ∀ c : Char, c.toNat ≤ 127 → kind (byte c) = chars c
  high_bytes : ∀ b, 0x80 ≤ b → kind b = false
  high_chars : ∀ c : Char, 127 < c.toNat → chars c = false

namespace AsciiKind

variable {kind kind' : UInt8 → Bool} {chars chars' : Char → Bool}

theorem equal {c : Char} (hc : c.toNat ≤ 127) : AsciiKind (· == byte c) (· == c) where
  low d hd := by
    by_cases h : d = c
    · simp [h]
    · have hne : byte d ≠ byte c := fun heq => h (byte_injective hd hc heq)
      simp [h, hne]
  high_bytes b hb := by
    have hne : b ≠ byte c := fun heq => byte_lt hc (heq ▸ hb)
    simp [hne]
  high_chars d hd := by
    have hne : d ≠ c := fun heq => by
      rw [heq] at hd
      omega
    simp [hne]

theorem or (h : AsciiKind kind chars) (h' : AsciiKind kind' chars') :
    AsciiKind (fun b => kind b || kind' b) (fun c => chars c || chars' c) where
  low c hc := by rw [h.low c hc, h'.low c hc]
  high_bytes b hb := by rw [h.high_bytes b hb, h'.high_bytes b hb, Bool.or_false]
  high_chars c hc := by rw [h.high_chars c hc, h'.high_chars c hc, Bool.or_false]

/-- The first byte of a text is of a kind if its first character is. -/
theorem head (h : AsciiKind kind chars) (t : Str) :
    (as_bytes t).head?.any kind = t.head?.any chars := by
  cases t with
  | nil => rfl
  | cons c t =>
    by_cases hc : c.toNat ≤ 127
    · rw [as_bytes_ascii hc]
      simp [h.low c hc]
    · obtain ⟨b, bytes, heq, hb⟩ := as_bytes_high (Nat.not_le.mp hc) t
      rw [heq]
      simp [h.high_bytes b hb, h.high_chars c (Nat.not_le.mp hc)]

/-- The bytes of a kind in front are the characters of the kind. -/
theorem takeWhile (h : AsciiKind kind chars) (t : Str) :
    (as_bytes t).takeWhile kind = as_bytes (t.takeWhile chars) := by
  induction t with
  | nil => rfl
  | cons c t ih =>
    by_cases hc : c.toNat ≤ 127
    · rw [as_bytes_ascii hc, List.takeWhile_cons, List.takeWhile_cons, h.low c hc, ih]
      by_cases hk : chars c = true
      · rw [if_pos hk, if_pos hk, as_bytes_ascii hc]
      · rw [if_neg hk, if_neg hk]
        rfl
    · obtain ⟨b, bytes, heq, hb⟩ := as_bytes_high (Nat.not_le.mp hc) t
      have hcf := h.high_chars c (Nat.not_le.mp hc)
      rw [heq, List.takeWhile_cons_of_neg (by simp [h.high_bytes b hb]),
        List.takeWhile_cons_of_neg (by simp [hcf])]
      rfl

end AsciiKind

theorem whitespace_kind : AsciiKind is_whitespace is_ws :=
  (((AsciiKind.equal (by decide)).or (AsciiKind.equal (by decide))).or
    (AsciiKind.equal (by decide))).or (AsciiKind.equal (by decide))

theorem digit_kind : AsciiKind is_digit_byte is_digit where
  low c hc := by
    unfold is_digit_byte is_digit
    simp only [UInt8.le_iff_toNat_le, byte_toNat hc, Char.le_def, UInt32.le_iff_toNat_le]
    rfl
  high_bytes b hb := by
    unfold is_digit_byte
    rw [decide_eq_false_iff_not, UInt8.le_iff_toNat_le, UInt8.le_iff_toNat_le]
    have hb' : 128 ≤ b.toNat := UInt8.le_iff_toNat_le.mp hb
    have h9 : (byte '9').toNat = 57 := rfl
    omega
  high_chars c hc := by
    unfold is_digit
    rw [decide_eq_false_iff_not, Char.le_def, Char.le_def, UInt32.le_iff_toNat_le,
      UInt32.le_iff_toNat_le]
    have hc' : 127 < c.val.toNat := hc
    have h9 : '9'.val.toNat = 57 := rfl
    omega

/-! ## Steps of the parser -/

/-- The parser behind `s`, in front of `t`, with `count` more values. -/
def Parser.past (p : Parser) (count : ℕ) (s t : Str) : Parser :=
  ⟨as_bytes t, p.position + byte_len s, p.nodes + count⟩

@[simp] theorem past_rest (p : Parser) (count : ℕ) (s t : Str) :
    (p.past count s t).rest = as_bytes t := rfl

@[simp] theorem past_nodes (p : Parser) (count : ℕ) (s t : Str) :
    (p.past count s t).nodes = p.nodes + count := rfl

@[simp] theorem past_past (p : Parser) (count count' : ℕ) (s s' t t' : Str) :
    (p.past count s t).past count' s' t' = p.past (count + count') (s ++ s') t' := by
  simp [Parser.past, Nat.add_assoc]

theorem past_nil {p : Parser} {t : Str} (hp : p.rest = as_bytes t) : p.past 0 [] t = p := by
  cases p
  subst hp
  rfl

section Bind

variable {α β : Type} {x : ParserM α} {f : α → ParserM β} {p q : Parser} {b : β}

/-- A block succeeds if its first step and the rest behind it do. -/
theorem bind_ok : (x >>= f) p = .ok (b, q) ↔ ∃ a r, x p = .ok (a, r) ∧ f a r = .ok (b, q) := by
  show (x p >>= fun s => f s.1 s.2) = .ok (b, q) ↔ _
  rw [bind_eq_ok]
  exact ⟨fun ⟨⟨a, r⟩, h, h'⟩ => ⟨a, r, h, h'⟩, fun ⟨a, r, h, h'⟩ => ⟨⟨a, r⟩, h, h'⟩⟩

/-- The block behind a step that succeeds. -/
theorem bind_of {a : α} {r : Parser} (h : x p = .ok (a, r)) : (x >>= f) p = f a r := by
  show (x p >>= fun s => f s.1 s.2) = _
  rw [h]
  rfl

end Bind

variable {p q : Parser} {s t : Str} {c : Char} {kind : UInt8 → Bool} {chars : Char → Bool}

theorem advance_of (hp : p.rest = as_bytes (s ++ t)) :
    advance (byte_len s) p = .ok ((), p.past 0 s t) := by
  unfold advance Parser.past
  rw [hp, as_bytes_append, byte_len, List.drop_left]
  rfl

/-- One ASCII character. -/
theorem advance_one (hc : c.toNat ≤ 127) (hp : p.rest = as_bytes (c :: t)) :
    advance 1 p = .ok ((), p.past 0 [c] t) := by
  have hlen : byte_len [c] = 1 := by simp [byte_len, as_bytes, utf8_of_le hc]
  rw [← hlen]
  exact advance_of hp

theorem next_of (hc : c.toNat ≤ 127) (hp : p.rest = as_bytes (c :: t)) :
    next p = .ok (some (byte c), p.past 0 [c] t) := by
  have hpeek : peek p = .ok (some (byte c), p) := by
    unfold peek
    rw [hp, as_bytes_ascii hc]
    rfl
  unfold next
  rw [bind_of hpeek]
  exact bind_of (advance_one hc hp)

theorem take_if_hit (hc : c.toNat ≤ 127) (hp : p.rest = as_bytes (c :: t)) :
    take_if (byte c) p = .ok (true, p.past 0 [c] t) := by
  have hpeek : peek p = .ok (some (byte c), p) := by
    unfold peek
    rw [hp, as_bytes_ascii hc]
    rfl
  unfold take_if
  rw [bind_of hpeek, if_pos rfl]
  exact bind_of (advance_one hc hp)

theorem take_if_miss (hc : c.toNat ≤ 127) (hp : p.rest = as_bytes t) (h : t.head? ≠ some c) :
    take_if (byte c) p = .ok (false, p) := by
  have hpeek : peek p = .ok (p.rest.head?, p) := rfl
  unfold take_if
  rw [bind_of hpeek, if_neg]
  · rfl
  · intro hhead
    rw [hp] at hhead
    obtain ⟨bytes, hbytes⟩ := List.head?_eq_some_iff.mp hhead
    obtain ⟨t', rfl, -⟩ := as_bytes_eq_cons hc hbytes
    exact h rfl

/-- What `take_if` took. -/
theorem take_if_cases (hc : c.toNat ≤ 127) (hp : p.rest = as_bytes t) {taken : Bool}
    (h : take_if (byte c) p = .ok (taken, q)) :
    (taken = true ∧ ∃ t', t = c :: t' ∧ q = p.past 0 [c] t') ∨
      taken = false ∧ q = p ∧ t.head? ≠ some c := by
  by_cases hhead : t.head? = some c
  · obtain ⟨t', rfl⟩ := List.head?_eq_some_iff.mp hhead
    rw [take_if_hit hc hp] at h
    cases h
    exact Or.inl ⟨rfl, t', rfl, rfl⟩
  · rw [take_if_miss hc hp hhead] at h
    cases h
    exact Or.inr ⟨rfl, rfl, hhead⟩

/-- **Skipping.** The characters of the kind in front are skipped. -/
theorem skip_while_spec (h : AsciiKind kind chars) (hp : p.rest = as_bytes t) :
    skip_while kind p = .ok ((), p.past 0 (t.takeWhile chars) (t.dropWhile chars)) := by
  unfold skip_while
  rw [hp, h.takeWhile]
  refine advance_of ?_
  rw [hp, List.takeWhile_append_dropWhile]

/-- Skipping takes exactly the characters of the kind. -/
theorem skip_while_of (h : AsciiKind kind chars) (hs : ∀ c ∈ s, chars c = true)
    (ht : t.head?.any chars = false) (hp : p.rest = as_bytes (s ++ t)) :
    skip_while kind p = .ok ((), p.past 0 s t) := by
  have hnone : t.takeWhile chars = [] ∧ t.dropWhile chars = t := by
    cases t with
    | nil => exact ⟨rfl, rfl⟩
    | cons c t =>
      have hc : ¬chars c = true := by simpa using ht
      exact ⟨List.takeWhile_cons_of_neg hc, List.dropWhile_cons_of_neg hc⟩
  rw [skip_while_spec h hp, List.takeWhile_append_of_pos hs, List.dropWhile_append_of_pos hs,
    hnone.1, hnone.2, List.append_nil]

theorem blank_takeWhile (t : Str) : Blank (t.takeWhile is_ws) := fun _ hc =>
  List.mem_takeWhile_imp hc

theorem Blank.append {w w' : Str} (h : Blank w) (h' : Blank w') : Blank (w ++ w') := fun c hc =>
  (List.mem_append.mp hc).elim (h c) (h' c)

theorem Blank.nil : Blank [] := fun _ hc => absurd hc (List.not_mem_nil)

/-- What `skip_whitespace` skips. -/
theorem skip_whitespace_spec (hp : p.rest = as_bytes t) : ∃ w t', t = w ++ t' ∧ Blank w ∧
    t'.head?.any is_ws = false ∧ skip_whitespace p = .ok ((), p.past 0 w t') := by
  refine ⟨_, _, List.takeWhile_append_dropWhile.symm, blank_takeWhile t, ?_,
    skip_while_spec whitespace_kind hp⟩
  have hhead := List.head?_dropWhile_not is_ws t
  cases ht : (t.dropWhile is_ws).head? with
  | none => rfl
  | some c =>
    rw [ht] at hhead
    simpa using hhead

/-- `skip_whitespace`, behind what was read. -/
theorem skip_whitespace_past (p : Parser) (count : ℕ) (s t : Str) : ∃ w t', t = w ++ t' ∧ Blank w ∧
    t'.head?.any is_ws = false ∧
    skip_whitespace (p.past count s t) = .ok ((), p.past count (s ++ w) t') := by
  obtain ⟨w, t', rfl, hw, ht', hskip⟩ := skip_whitespace_spec (past_rest p count s t)
  exact ⟨w, t', rfl, hw, ht', hskip.trans (by rw [past_past]; rfl)⟩

theorem skip_whitespace_of (hs : Blank s) (ht : t.head?.any is_ws = false)
    (hp : p.rest = as_bytes (s ++ t)) : skip_whitespace p = .ok ((), p.past 0 s t) :=
  skip_while_of whitespace_kind hs ht hp

/-- **What `consume` takes.** The byte, and the white space in front of it. -/
theorem consume_ok (hc : c.toNat ≤ 127) (hp : p.rest = as_bytes t)
    (h : consume (byte c) p = .ok ((), q)) :
    ∃ w t', t = w ++ c :: t' ∧ Blank w ∧ q = p.past 0 (w ++ [c]) t' := by
  unfold consume at h
  obtain ⟨w, t₁, rfl, hw, -, hskip⟩ := skip_whitespace_spec hp
  rw [bind_of hskip] at h
  obtain ⟨taken, r, htake, h⟩ := bind_ok.mp h
  rcases take_if_cases hc (past_rest ..) htake with ⟨rfl, t', rfl, rfl⟩ | ⟨rfl, rfl, -⟩
  · cases h
    exact ⟨w, t', rfl, hw, past_past ..⟩
  · cases h

/-- `consume` in front of its byte. -/
theorem consume_of (hc : c.toNat ≤ 127) (hnot : is_ws c = false) (hs : Blank s)
    (hp : p.rest = as_bytes (s ++ c :: t)) :
    consume (byte c) p = .ok ((), p.past 0 (s ++ [c]) t) := by
  unfold consume
  rw [bind_of (skip_whitespace_of hs (by simp [hnot]) hp), bind_of (take_if_hit hc (past_rest ..)),
    past_past]
  rfl

/-- `consume` right in front of its byte, behind what was read. -/
theorem consume_past (hc : c.toNat ≤ 127) (hnot : is_ws c = false) (p : Parser) (count : ℕ)
    (s t : Str) : consume (byte c) (p.past count s (c :: t)) = .ok ((), p.past count (s ++ [c]) t) := by
  refine (consume_of hc hnot Blank.nil (past_rest p count s ([] ++ c :: t))).trans ?_
  rw [past_past]
  rfl

end LeanBun.Codec
