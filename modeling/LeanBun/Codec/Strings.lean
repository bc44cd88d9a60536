/-
The strings of the JSON parser.

Behind its opening quote a string is read character by character: `string_loop`
takes exactly the `Chars` of the grammar in which white space may stand inside
a surrogate pair. That is what `consume` does in `parse_scalar`: it skips white
space in front of both bytes that announce the second half.

A character that is not ASCII is copied byte by byte, in as many rounds of the
loop as it has bytes.
-/
import LeanBun.Codec.Scan

set_option autoImplicit false

namespace LeanBun.Codec

open LeanBun.Lib

variable {p q : Parser} {s t : Str} {c : Char}

/-- The first byte of a text: none, an ASCII character, or part of another one. -/
theorem first_byte (hp : p.rest = as_bytes t) :
    (t = [] ∧ p.rest.head? = none) ∨
    (∃ c t', t = c :: t' ∧ c.toNat ≤ 127 ∧ p.rest.head? = some (byte c)) ∨
    ∃ b, p.rest.head? = some b ∧ 0x80 ≤ b := by
  cases t with
  | nil => exact Or.inl ⟨rfl, by rw [hp]; rfl⟩
  | cons c t =>
    by_cases hc : c.toNat ≤ 127
    · refine Or.inr (Or.inl ⟨c, t, rfl, hc, ?_⟩)
      rw [hp, as_bytes_ascii hc]
      rfl
    · obtain ⟨b, bytes, heq, hb⟩ := as_bytes_high (Nat.not_le.mp hc) t
      exact Or.inr (Or.inr ⟨b, by rw [hp, heq]; rfl, hb⟩)

/-- `next` returns the first byte. -/
theorem next_eq (p : Parser) : next p = .ok (p.rest.head?, (match p.rest with
    | [] => p
    | _ :: bytes => { p with rest := bytes, position := p.position + 1 })) := by
  cases hrest : p.rest with
  | nil =>
    have hpeek : peek p = .ok (none, p) := by simp [peek, hrest]
    unfold next
    rw [bind_of hpeek]
    rfl
  | cons b bytes =>
    have hpeek : peek p = .ok (some b, p) := by simp [peek, hrest]
    have hadvance : advance 1 p =
        .ok ((), { p with rest := bytes, position := p.position + 1 }) := by
      simp [advance, hrest]
    unfold next
    rw [bind_of hpeek]
    exact bind_of hadvance

/-- What `next` took, when it is an ASCII byte. -/
theorem next_cases (hp : p.rest = as_bytes t) {first : Option UInt8} (h : next p = .ok (first, q)) :
    (∃ c t', t = c :: t' ∧ c.toNat ≤ 127 ∧ first = some (byte c) ∧ q = p.past 0 [c] t') ∨
      first = none ∨ ∃ b, first = some b ∧ 0x80 ≤ b := by
  have hfirst : first = p.rest.head? := by
    rw [next_eq] at h
    cases h
    rfl
  rcases first_byte hp with ⟨-, hhead⟩ | ⟨c, t', rfl, hc, hhead⟩ | ⟨b, hhead, hb⟩
  · exact Or.inr (Or.inl (hfirst.trans hhead))
  · rw [next_of hc hp] at h
    cases h
    exact Or.inl ⟨c, t', rfl, hc, rfl, rfl⟩
  · exact Or.inr (Or.inr ⟨b, hfirst.trans hhead, hb⟩)

/-! ## Code units -/

/-- Something that holds of the 128 ASCII characters holds of each. -/
theorem ascii_all {P : Char → Prop} (h : ∀ n : ℕ, n < 128 → P (Char.ofNat n)) (hc : c.toNat ≤ 127) :
    P c := by
  have hof := h c.toNat (by omega)
  rwa [Char.ofNat_toNat] at hof

theorem hex_value_byte (hc : c.toNat ≤ 127) : hex_value (byte c) = hex_char_value c :=
  ascii_all (P := fun c => hex_value (byte c) = hex_char_value c) (by decide) hc

/-- A hexadecimal digit is an ASCII character, and below sixteen. -/
theorem hex_char_bound {digit : ℕ} (h : hex_char_value c = some digit) :
    c.toNat ≤ 127 ∧ digit < 16 := by
  unfold hex_char_value at h
  have hnat : c.toNat = c.val.toNat := rfl
  have h9 : '9'.val.toNat = 57 := rfl
  have hf : 'f'.val.toNat = 102 := rfl
  have hF : 'F'.val.toNat = 70 := rfl
  have h0 : '0'.toNat = 48 := rfl
  have ha : 'a'.toNat = 97 := rfl
  have hA : 'A'.toNat = 65 := rfl
  simp only [Char.le_def, UInt32.le_iff_toNat_le] at h
  split_ifs at h with h₁ h₂ h₃
  all_goals
    cases h
    omega

theorem hex_value_high {b : UInt8} (hb : 0x80 ≤ b) : hex_value b = none := by
  have hb' : 128 ≤ b.toNat := UInt8.le_iff_toNat_le.mp hb
  have h9 : (byte '9').toNat = 57 := rfl
  have hf : (byte 'f').toNat = 102 := rfl
  have hF : (byte 'F').toNat = 70 := rfl
  unfold hex_value
  simp only [UInt8.le_iff_toNat_le]
  rw [if_neg (by omega), if_neg (by omega), if_neg (by omega)]

/-- One hexadecimal digit. -/
theorem hex_step_ok (hp : p.rest = as_bytes t) {value result : ℕ}
    (h : hex_step value p = .ok (result, q)) : ∃ c digit t', t = c :: t' ∧
      hex_char_value c = some digit ∧ result = value * 16 + digit ∧ q = p.past 0 [c] t' := by
  unfold hex_step at h
  obtain ⟨first, r, hnext, h⟩ := bind_ok.mp h
  rcases next_cases hp hnext with ⟨c, t', rfl, hc, rfl, rfl⟩ | rfl | ⟨b, rfl, hb⟩
  · rw [Option.bind_some, hex_value_byte hc] at h
    cases hdigit : hex_char_value c with
    | none =>
      rw [hdigit] at h
      cases h
    | some digit =>
      rw [hdigit] at h
      cases h
      exact ⟨c, digit, t', rfl, hdigit, rfl, rfl⟩
  · cases h
  · rw [Option.bind_some, hex_value_high hb] at h
    cases h

theorem hex_step_of {value digit : ℕ} (hdigit : hex_char_value c = some digit)
    (hp : p.rest = as_bytes (c :: t)) :
    hex_step value p = .ok (value * 16 + digit, p.past 0 [c] t) := by
  have hc := (hex_char_bound hdigit).1
  unfold hex_step
  rw [bind_of (next_of hc hp), Option.bind_some, hex_value_byte hc, hdigit]
  rfl

/-- **A code unit.** `hex_quad` reads the four digits of a code unit. -/
theorem hex_quad_ok (hp : p.rest = as_bytes t) {unit : ℕ} (h : hex_quad p = .ok (unit, q)) :
    ∃ s t', t = s ++ t' ∧ Quad s unit ∧ q = p.past 0 s t' := by
  unfold hex_quad at h
  obtain ⟨_, _, h₁, h⟩ := bind_ok.mp h
  obtain ⟨a, va, t₁, rfl, ha, rfl, rfl⟩ := hex_step_ok hp h₁
  obtain ⟨_, _, h₂, h⟩ := bind_ok.mp h
  obtain ⟨b, vb, t₂, rfl, hb, rfl, rfl⟩ := hex_step_ok (past_rest ..) h₂
  obtain ⟨_, _, h₃, h₄⟩ := bind_ok.mp h
  obtain ⟨c, vc, t₃, rfl, hc, rfl, rfl⟩ := hex_step_ok (past_rest ..) h₃
  obtain ⟨d, vd, t₄, rfl, hd, rfl, rfl⟩ := hex_step_ok (past_rest ..) h₄
  refine ⟨[a, b, c, d], t₄, rfl, ⟨a, b, c, d, va, vb, vc, vd, rfl, ha, hb, hc, hd, by omega⟩, ?_⟩
  simp

theorem hex_quad_of {unit : ℕ} (h : Quad s unit) (hp : p.rest = as_bytes (s ++ t)) :
    hex_quad p = .ok (unit, p.past 0 s t) := by
  obtain ⟨a, b, c, d, va, vb, vc, vd, rfl, ha, hb, hc, hd, rfl⟩ := h
  unfold hex_quad
  have hp' : p.rest = as_bytes (a :: b :: c :: d :: t) := hp
  rw [bind_of (hex_step_of ha hp'), bind_of (hex_step_of hb (past_rest ..)),
    bind_of (hex_step_of hc (past_rest ..)), hex_step_of hd (past_rest ..)]
  simp

/-- A code unit has sixteen bits. -/
theorem Quad.lt {unit : ℕ} (h : Quad s unit) : unit < 65536 := by
  obtain ⟨a, b, c, d, va, vb, vc, vd, -, ha, hb, hc, hd, rfl⟩ := h
  have ha' := (hex_char_bound ha).2
  have hb' := (hex_char_bound hb).2
  have hc' := (hex_char_bound hc).2
  have hd' := (hex_char_bound hd).2
  omega

/-! ## Escapes -/

/-- What follows a `\u`, with the scalar value it denotes. -/
def ScalarText (gap : Str → Prop) (s : Str) (scalar : ℕ) : Prop :=
  (Quad s scalar ∧ ¬HighSurrogate scalar ∧ ¬LowSurrogate scalar) ∨
  ∃ high low quad quad' before inside, s = quad ++ (before ++ '\\' :: (inside ++ 'u' :: quad')) ∧
    Quad quad high ∧ HighSurrogate high ∧ gap before ∧ gap inside ∧ Quad quad' low ∧
    LowSurrogate low ∧ scalar = 0x10000 + (high - 0xd800) * 0x400 + (low - 0xdc00)

/-- What follows a backslash, with the character it denotes. -/
def EscapeText (gap : Str → Prop) (s : Str) (c : Char) : Prop :=
  (∃ e, s = [e] ∧ (e, c) ∈ short_escapes) ∨
  ∃ u scalar, s = 'u' :: u ∧ ScalarText gap u scalar ∧ c = Char.ofNat scalar

/-- An escape in front of the characters that follow it. -/
theorem EscapeText.chars {gap : Str → Prop} {e : Str} {value : Str} (h : EscapeText gap e c)
    (hs : Chars gap s value) : Chars gap ('\\' :: (e ++ s)) (c :: value) := by
  rcases h with ⟨e, rfl, he⟩ | ⟨u, scalar, rfl, hu, rfl⟩
  · exact Chars.short he hs
  · rcases hu with ⟨hquad, hhigh, hlow⟩ | ⟨high, low, quad, quad', before, inside, rfl, hquad, hhigh,
      hbefore, hinside, hquad', hlow, hscalar⟩
    · exact Chars.scalar hquad hhigh hlow hs
    · have hpair := Chars.pair hquad hhigh hbefore hinside hquad' hlow hs
      rw [hscalar]
      simpa only [List.append_assoc, List.cons_append] using hpair

/-- A scalar value is one. -/
theorem ScalarText.valid {gap : Str → Prop} {scalar : ℕ} (h : ScalarText gap s scalar) :
    scalar.isValidChar := by
  unfold Nat.isValidChar
  rcases h with ⟨hquad, hhigh, hlow⟩ | ⟨high, low, _, _, _, _, -, -, hhigh, -, -, -, hlow, hscalar⟩
  · have hlt := hquad.lt
    unfold HighSurrogate at hhigh
    unfold LowSurrogate at hlow
    omega
  · obtain ⟨h₁, h₂⟩ := hhigh
    obtain ⟨h₃, h₄⟩ := hlow
    omega

/-- **A scalar value.** White space may stand in front of the two bytes that
announce the second half of a surrogate pair. -/
theorem parse_scalar_ok (hp : p.rest = as_bytes t) {scalar : ℕ}
    (h : parse_scalar p = .ok (scalar, q)) :
    ∃ s t', t = s ++ t' ∧ ScalarText Blank s scalar ∧ q = p.past 0 s t' := by
  unfold parse_scalar at h
  obtain ⟨first, _, hfirst, h⟩ := bind_ok.mp h
  obtain ⟨quad, t₁, rfl, hquad, rfl⟩ := hex_quad_ok hp hfirst
  by_cases hhigh : 0xd800 ≤ first ∧ first ≤ 0xdbff
  · rw [if_pos hhigh] at h
    obtain ⟨_, _, hslash, h⟩ := bind_ok.mp h
    obtain ⟨before, t₂, rfl, hbefore, rfl⟩ := consume_ok (by decide) (past_rest ..) hslash
    obtain ⟨_, _, hletter, h⟩ := bind_ok.mp h
    obtain ⟨inside, t₃, rfl, hinside, rfl⟩ := consume_ok (by decide) (past_rest ..) hletter
    obtain ⟨second, _, hsecond, h⟩ := bind_ok.mp h
    obtain ⟨quad', t₄, rfl, hquad', rfl⟩ := hex_quad_ok (past_rest ..) hsecond
    by_cases hlow : 0xdc00 ≤ second ∧ second ≤ 0xdfff
    · rw [if_pos hlow] at h
      obtain ⟨hscalar, rfl⟩ := Prod.mk.inj (Except.ok.inj h)
      refine ⟨quad ++ (before ++ '\\' :: (inside ++ 'u' :: quad')), t₄, by simp, ?_, by simp⟩
      exact Or.inr ⟨first, second, quad, quad', before, inside, rfl, hquad, hhigh, hbefore, hinside,
        hquad', hlow, hscalar.symm⟩
    · rw [if_neg hlow] at h
      cases h
  · rw [if_neg hhigh] at h
    by_cases hlow : 0xdc00 ≤ first ∧ first ≤ 0xdfff
    · rw [if_pos hlow] at h
      cases h
    · rw [if_neg hlow] at h
      cases h
      exact ⟨quad, t₁, rfl, Or.inl ⟨hquad, hhigh, hlow⟩, rfl⟩

theorem parse_scalar_of {scalar : ℕ} (h : ScalarText Blank s scalar)
    (hp : p.rest = as_bytes (s ++ t)) : parse_scalar p = .ok (scalar, p.past 0 s t) := by
  unfold parse_scalar
  rcases h with ⟨hquad, hhigh, hlow⟩ | ⟨high, low, quad, quad', before, inside, rfl, hquad, hhigh,
    hbefore, hinside, hquad', hlow, hscalar⟩
  · unfold HighSurrogate at hhigh
    unfold LowSurrogate at hlow
    rw [bind_of (hex_quad_of hquad hp), if_neg hhigh, if_neg hlow]
    rfl
  · have hp' : p.rest = as_bytes (quad ++ (before ++ '\\' :: (inside ++ 'u' :: (quad' ++ t)))) := by
      rw [hp]
      simp
    unfold HighSurrogate at hhigh
    unfold LowSurrogate at hlow
    rw [bind_of (hex_quad_of hquad hp'), if_pos hhigh,
      bind_of (consume_of (by decide) (by decide) hbefore (past_rest ..)),
      bind_of (consume_of (by decide) (by decide) hinside (past_rest ..)),
      bind_of (hex_quad_of hquad' (past_rest ..)), if_pos hlow]
    simp only [past_past, List.append_assoc, List.cons_append, List.nil_append, hscalar]
    rfl

/-- The escapes of one letter, on characters. -/
theorem short_escape_byte (hc : c.toNat ≤ 127) :
    short_escape (byte c) = (short_escapes.lookup c).map byte :=
  ascii_all (P := fun c => short_escape (byte c) = (short_escapes.lookup c).map byte) (by decide) hc

theorem short_escapes_ascii : ∀ entry ∈ short_escapes,
    entry.1.toNat ≤ 127 ∧ entry.2.toNat ≤ 127 ∧ short_escapes.lookup entry.1 = some entry.2 := by
  decide

theorem lookup_mem {e d : Char} : ∀ {l : List (Char × Char)}, l.lookup e = some d → (e, d) ∈ l := by
  intro l
  induction l with
  | nil => intro h; cases h
  | cons entry l ih =>
    intro h
    rw [List.lookup_cons] at h
    by_cases heq : e = entry.1
    · rw [beq_iff_eq.mpr heq] at h
      cases h
      rw [heq]
      exact List.mem_cons_self
    · rw [beq_eq_false_iff_ne.mpr heq] at h
      exact List.mem_cons_of_mem _ (ih h)

theorem short_escape_high {b : UInt8} (hb : 0x80 ≤ b) : short_escape b = none ∧ b ≠ byte 'u' := by
  have hne : ∀ c : Char, c.toNat ≤ 127 → b ≠ byte c := fun c hc heq => byte_lt hc (heq ▸ hb)
  unfold short_escape
  refine ⟨?_, hne 'u' (by decide)⟩
  rw [if_neg (by
      rintro (h | h | h)
      · exact hne _ (by decide) h
      · exact hne _ (by decide) h
      · exact hne _ (by decide) h),
    if_neg (hne _ (by decide)), if_neg (hne _ (by decide)), if_neg (hne _ (by decide)),
    if_neg (hne _ (by decide)), if_neg (hne _ (by decide))]

/-- **An escape**, behind its backslash. -/
theorem parse_escape_ok (hp : p.rest = as_bytes t) {added : List UInt8}
    (h : parse_escape p = .ok (added, q)) : ∃ s t' c, t = s ++ t' ∧ EscapeText Blank s c ∧
      added = String.utf8EncodeChar c ∧ q = p.past 0 s t' := by
  unfold parse_escape at h
  obtain ⟨first, _, hnext, h⟩ := bind_ok.mp h
  rcases next_cases hp hnext with ⟨e, t', rfl, he, rfl, rfl⟩ | rfl | ⟨b, rfl, hb⟩
  · simp only [short_escape_byte he] at h
    cases hlookup : short_escapes.lookup e with
    | some c =>
      rw [hlookup] at h
      cases h
      have hmem := lookup_mem hlookup
      refine ⟨[e], t', c, rfl, Or.inl ⟨e, rfl, hmem⟩, ?_, rfl⟩
      exact (utf8_of_le (short_escapes_ascii _ hmem).2.1).symm
    | none =>
      rw [hlookup] at h
      simp only [Option.map_none] at h
      by_cases hu : byte e = byte 'u'
      · rw [if_pos hu] at h
        obtain rfl := byte_injective he (by decide) hu
        obtain ⟨scalar, _, hscalar, h⟩ := bind_ok.mp h
        obtain ⟨s, t₁, rfl, hs, rfl⟩ := parse_scalar_ok (past_rest ..) hscalar
        have hfrom : from_u32 scalar = some (Char.ofNat scalar) := if_pos hs.valid
        rw [hfrom] at h
        cases h
        exact ⟨'u' :: s, t₁, _, rfl, Or.inr ⟨s, scalar, rfl, hs, rfl⟩, rfl, past_past ..⟩
      · rw [if_neg hu] at h
        cases h
  · cases h
  · simp only [(short_escape_high hb).1, if_neg (short_escape_high hb).2] at h
    cases h

theorem parse_escape_of (h : EscapeText Blank s c) (hp : p.rest = as_bytes (s ++ t)) :
    parse_escape p = .ok (String.utf8EncodeChar c, p.past 0 s t) := by
  unfold parse_escape
  rcases h with ⟨e, rfl, he⟩ | ⟨u, scalar, rfl, hu, rfl⟩
  · obtain ⟨hascii, hascii', hlookup⟩ := short_escapes_ascii _ he
    rw [bind_of (next_of hascii hp)]
    simp only [short_escape_byte hascii, hlookup, Option.map_some]
    rw [utf8_of_le hascii']
    rfl
  · have hfrom : from_u32 scalar = some (Char.ofNat scalar) := if_pos hu.valid
    have hnone : short_escape (byte 'u') = none := by decide
    have hp' : p.rest = as_bytes ('u' :: (u ++ t)) := hp
    rw [bind_of (next_of (by decide) hp')]
    simp only [hnone, if_true]
    rw [bind_of (parse_scalar_of hu (past_rest ..)), hfrom, past_past]
    rfl

/-! ## Strings -/

/-- A byte with its high bit set is copied. -/
theorem string_loop_high_byte {b : UInt8} (hb : 0x80 ≤ b) (fuel : ℕ) (output rest : List UInt8)
    (position nodes : ℕ) : string_loop (fuel + 1) output ⟨b :: rest, position, nodes⟩ =
      string_loop fuel (output ++ [b]) ⟨rest, position + 1, nodes⟩ := by
  have hne : ∀ c : Char, c.toNat ≤ 127 → b ≠ byte c := fun c hc heq => byte_lt hc (heq ▸ hb)
  have hcontrol : ¬b ≤ 0x1f := by
    rw [UInt8.le_iff_toNat_le] at hb ⊢
    have hb' : 128 ≤ b.toNat := hb
    show ¬b.toNat ≤ 31
    omega
  rw [string_loop, bind_of (next_eq _)]
  simp only [List.head?_cons]
  rw [if_neg (hne _ (by decide)), if_neg (hne _ (by decide)), if_neg hcontrol]

/-- The bytes of a character that is not ASCII are copied, a round for each. -/
theorem string_loop_high {bytes : List UInt8} (hhigh : ∀ b ∈ bytes, 0x80 ≤ b) (fuel : ℕ)
    (output rest : List UInt8) (position nodes : ℕ) :
    string_loop (fuel + bytes.length) output ⟨bytes ++ rest, position, nodes⟩ =
      string_loop fuel (output ++ bytes) ⟨rest, position + bytes.length, nodes⟩ := by
  induction bytes generalizing output position with
  | nil =>
    rw [List.append_nil]
    rfl
  | cons b bytes ih =>
    rw [List.length_cons, ← Nat.add_assoc, List.cons_append,
      string_loop_high_byte (hhigh b List.mem_cons_self),
      ih fun b hb => hhigh b (List.mem_cons_of_mem _ hb), List.append_assoc, Nat.add_assoc position,
      Nat.add_comm 1]
    rfl

/-- A loop that succeeds behind such bytes had the rounds for them. -/
theorem string_loop_high_ok {bytes : List UInt8} (hhigh : ∀ b ∈ bytes, 0x80 ≤ b) {fuel : ℕ}
    {output rest : List UInt8} {position nodes : ℕ} {result : Str × Parser}
    (h : string_loop fuel output ⟨bytes ++ rest, position, nodes⟩ = .ok result) :
    bytes.length ≤ fuel := by
  induction bytes generalizing fuel output position with
  | nil => exact Nat.zero_le _
  | cons b bytes ih =>
    cases fuel with
    | zero => cases h
    | succ fuel =>
      rw [List.cons_append, string_loop_high_byte (hhigh b List.mem_cons_self)] at h
      exact Nat.succ_le_succ (ih (fun b hb => hhigh b (List.mem_cons_of_mem _ hb)) h)

/-- The round of a character of the text that stands for itself. -/
theorem string_loop_plain (hc : Unescaped c) {fuel : ℕ} {output : Str}
    (hp : p.rest = as_bytes (c :: t)) :
    string_loop (fuel + (String.utf8EncodeChar c).length) (as_bytes output) p =
      string_loop fuel (as_bytes (output ++ [c])) (p.past 0 [c] t) := by
  have hone : as_bytes (output ++ [c]) = as_bytes output ++ String.utf8EncodeChar c := by
    rw [as_bytes_append]
    simp [as_bytes]
  have hlen : byte_len [c] = (String.utf8EncodeChar c).length := by simp [byte_len, as_bytes]
  by_cases hascii : c.toNat ≤ 127
  · have hcontrol : ¬byte c ≤ 0x1f := by
      rw [UInt8.le_iff_toNat_le, byte_toNat hascii]
      have hlow := hc.1
      show ¬c.toNat ≤ 31
      omega
    have hquote : byte c ≠ byte '"' := fun heq => hc.2.1 (byte_injective hascii (by decide) heq)
    have hslash : byte c ≠ byte '\\' := fun heq => hc.2.2 (byte_injective hascii (by decide) heq)
    rw [hone, utf8_of_le hascii, List.length_singleton, string_loop, bind_of (next_of hascii hp)]
    simp only
    rw [if_neg hquote, if_neg hslash, if_neg hcontrol]
  · obtain ⟨rest, position, nodes⟩ := p
    have hrest : rest = String.utf8EncodeChar c ++ as_bytes t := hp.trans (as_bytes_cons c t)
    rw [hrest, string_loop_high (utf8_of_gt (Nat.not_le.mp hascii)), hone, ← hlen]
    rfl

/-- A loop that succeeds in front of a character had the rounds for it. -/
theorem string_loop_rounds {fuel : ℕ} {output : List UInt8} {result : Str × Parser}
    (hp : p.rest = as_bytes (c :: t)) (h : string_loop fuel output p = .ok result) :
    (String.utf8EncodeChar c).length ≤ fuel := by
  by_cases hascii : c.toNat ≤ 127
  · rw [utf8_of_le hascii]
    cases fuel with
    | zero => cases h
    | succ fuel => exact Nat.succ_le_succ (Nat.zero_le _)
  · obtain ⟨rest, position, nodes⟩ := p
    have hrest : rest = String.utf8EncodeChar c ++ as_bytes t := hp.trans (as_bytes_cons c t)
    rw [hrest] at h
    exact string_loop_high_ok (utf8_of_gt (Nat.not_le.mp hascii)) h

/-- The round of the closing quote. -/
theorem string_loop_quote {fuel : ℕ} {output : Str} (hp : p.rest = as_bytes ('"' :: t)) :
    string_loop (fuel + 1) (as_bytes output) p = .ok (output, p.past 0 ['"'] t) := by
  rw [string_loop, bind_of (next_of (by decide) hp)]
  simp only [if_true, from_utf8_as_bytes]
  rfl

/-- The round of a backslash. -/
theorem string_loop_escape {fuel : ℕ} {output : List UInt8} (hp : p.rest = as_bytes ('\\' :: t)) :
    string_loop (fuel + 1) output p =
      (parse_escape >>= fun added => string_loop fuel (output ++ added)) (p.past 0 ['\\'] t) := by
  rw [string_loop, bind_of (next_of (by decide) hp)]
  have hne : byte '\\' ≠ byte '"' := by decide
  simp only [if_neg hne, if_true]

/-- **A string, read.** What the loop reads are the characters of a string, with
white space tolerated inside surrogate pairs, and the closing quote. -/
theorem string_loop_ok {fuel : ℕ} (output : Str) {value : Str} (hp : p.rest = as_bytes t)
    (h : string_loop fuel (as_bytes output) p = .ok (value, q)) : ∃ chars added t',
      t = chars ++ '"' :: t' ∧ Chars Blank chars added ∧ value = output ++ added ∧
      q = p.past 0 (chars ++ ['"']) t' := by
  -- A round takes an item of the string; the rounds left are fewer.
  induction fuel using Nat.strong_induction_on generalizing p t output with
  | _ fuel ih =>
  cases t with
  | nil =>
    cases fuel with
    | zero => cases h
    | succ fuel =>
      rw [string_loop, bind_of (next_eq p), hp] at h
      cases h
  | cons c t =>
    by_cases hplain : Unescaped c
    · have hrounds := string_loop_rounds hp h
      obtain ⟨fuel', rfl⟩ := Nat.exists_eq_add_of_le' hrounds
      rw [string_loop_plain hplain hp] at h
      have hpos : 0 < (String.utf8EncodeChar c).length :=
        List.length_pos_iff.mpr String.utf8EncodeChar_ne_nil
      obtain ⟨chars, added, t', rfl, hchars, rfl, rfl⟩ := ih fuel' (by omega) _ (past_rest ..) h
      exact ⟨c :: chars, c :: added, t', rfl, Chars.plain hplain hchars, by simp, by simp⟩
    · cases fuel with
      | zero => cases h
      | succ fuel =>
      by_cases hquote : c = '"'
      · subst hquote
        rw [string_loop_quote hp] at h
        cases h
        exact ⟨[], [], t, rfl, Chars.nil, (List.append_nil _).symm, rfl⟩
      · by_cases hslash : c = '\\'
        · subst hslash
          rw [string_loop_escape hp] at h
          obtain ⟨bytes, _, hescape, h⟩ := bind_ok.mp h
          obtain ⟨e, t₁, d, rfl, he, rfl, rfl⟩ := parse_escape_ok (past_rest ..) hescape
          have hone : as_bytes output ++ String.utf8EncodeChar d = as_bytes (output ++ [d]) := by
            rw [as_bytes_append]
            simp [as_bytes]
          rw [hone] at h
          obtain ⟨chars, added, t', rfl, hchars, rfl, rfl⟩ :=
            ih fuel (Nat.lt_succ_self _) _ (past_rest ..) h
          exact ⟨'\\' :: (e ++ chars), d :: added, t', by simp, he.chars hchars, by simp, by simp⟩
        · -- A control character is refused.
          have hcontrol : c.toNat < 0x20 := by
            by_contra hge
            exact hplain ⟨Nat.not_lt.mp hge, hquote, hslash⟩
          have hascii : c.toNat ≤ 127 := by omega
          have hbyte : byte c ≤ 0x1f := by
            rw [UInt8.le_iff_toNat_le, byte_toNat hascii]
            show c.toNat ≤ 31
            omega
          have hne : byte c ≠ byte '"' := fun heq => hquote (byte_injective hascii (by decide) heq)
          have hne' : byte c ≠ byte '\\' := fun heq =>
            hslash (byte_injective hascii (by decide) heq)
          rw [string_loop, bind_of (next_of hascii hp)] at h
          simp only [if_neg hne, if_neg hne', if_pos hbyte] at h
          cases h

/-- The loop reads `s` and the closing quote in front of `t`, with a round for each
byte. -/
def LoopReads (s value t : Str) : Prop := ∀ (fuel : ℕ) (output : Str) (p : Parser), byte_len s < fuel →
  p.rest = as_bytes (s ++ '"' :: t) →
  string_loop fuel (as_bytes output) p = .ok (output ++ value, p.past 0 (s ++ ['"']) t)

/-- An escape in front of characters that the loop reads. -/
theorem LoopReads.escape {e s value : Str} (he : EscapeText Blank e c) (h : LoopReads s value t) :
    LoopReads ('\\' :: (e ++ s)) (c :: value) t := by
  intro fuel output p hfuel hp
  have hlen : byte_len ('\\' :: (e ++ s)) = 1 + byte_len e + byte_len s := by
    rw [← List.singleton_append, byte_len_append, byte_len_append, Nat.add_assoc]
    rfl
  obtain ⟨fuel, rfl⟩ := Nat.exists_eq_add_of_lt hfuel
  have hp' : p.rest = as_bytes ('\\' :: (e ++ (s ++ '"' :: t))) := by
    rw [hp]
    simp
  have hone : as_bytes output ++ String.utf8EncodeChar c = as_bytes (output ++ [c]) := by
    rw [as_bytes_append]
    simp [as_bytes]
  rw [string_loop_escape hp', bind_of (parse_escape_of he (past_rest ..)), hone,
    h _ _ _ (by omega) (past_rest ..)]
  simp

/-- **A string, accepted.** The loop reads every such string. -/
theorem string_loop_of {value : Str} (h : Chars Blank s value) : LoopReads s value t := by
  induction h with
  | nil =>
    intro fuel output p hfuel hp
    obtain ⟨fuel, rfl⟩ := Nat.exists_eq_add_of_lt hfuel
    rw [string_loop_quote hp, List.append_nil]
    rfl
  | @plain c s value hplain _ ih =>
    intro fuel output p hfuel hp
    have hlen : byte_len (c :: s) = (String.utf8EncodeChar c).length + byte_len s := by
      simp [byte_len, as_bytes]
    obtain ⟨fuel', rfl⟩ : ∃ fuel', fuel = fuel' + (String.utf8EncodeChar c).length :=
      ⟨fuel - (String.utf8EncodeChar c).length, by omega⟩
    have hp' : p.rest = as_bytes (c :: (s ++ '"' :: t)) := hp
    rw [string_loop_plain hplain hp', ih _ _ _ (by omega) (past_rest ..)]
    simp
  | short he _ ih => exact LoopReads.escape (Or.inl ⟨_, rfl, he⟩) ih
  | scalar hquad hhigh hlow _ ih =>
    exact LoopReads.escape (Or.inr ⟨_, _, rfl, Or.inl ⟨hquad, hhigh, hlow⟩, rfl⟩) ih
  | pair hquad hhigh hbefore hinside hquad' hlow _ ih =>
    have hpair := LoopReads.escape (Or.inr ⟨_, _, rfl, Or.inr ⟨_, _, _, _, _, _, rfl, hquad, hhigh,
      hbefore, hinside, hquad', hlow, rfl⟩, rfl⟩) ih
    simpa using hpair

/-- **Reading a string.** White space in front of the opening quote is skipped. -/
theorem parse_string_ok (hp : p.rest = as_bytes t) {value : Str}
    (h : parse_string p = .ok (value, q)) : ∃ w s t', t = w ++ (s ++ t') ∧ Blank w ∧
      StringText Blank s value ∧ q = p.past 0 (w ++ s) t' := by
  unfold parse_string at h
  obtain ⟨_, _, hquote, h⟩ := bind_ok.mp h
  obtain ⟨w, t₁, rfl, hw, rfl⟩ := consume_ok (by decide) hp hquote
  obtain ⟨r, _, hget, h⟩ := bind_ok.mp h
  cases hget
  obtain ⟨chars, added, t', rfl, hchars, rfl, rfl⟩ := string_loop_ok [] (past_rest ..) h
  exact ⟨w, '"' :: (chars ++ ['"']), t', by simp, hw, ⟨chars, rfl, hchars⟩, by simp⟩

theorem parse_string_of {w value : Str} (hw : Blank w) (h : StringText Blank s value)
    (hp : p.rest = as_bytes (w ++ (s ++ t))) :
    parse_string p = .ok (value, p.past 0 (w ++ s) t) := by
  obtain ⟨chars, rfl, hchars⟩ := h
  have hp' : p.rest = as_bytes (w ++ '"' :: (chars ++ '"' :: t)) := by
    rw [hp]
    simp
  have hfuel : byte_len chars < byte_len (chars ++ '"' :: t) + 1 := by
    rw [byte_len_append]
    omega
  unfold parse_string
  rw [bind_of (consume_of (by decide) (by decide) hw hp')]
  refine (string_loop_of hchars _ [] _ hfuel (past_rest ..)).trans ?_
  simp

end LeanBun.Codec
