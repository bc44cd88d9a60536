/-
The numbers of the JSON parser.

`parse_number` reads an integer part, an optional fraction and an optional
exponent, each as long as it can be, and keeps the text between its two
positions. So what it reads is a number of the grammar, and in front of a text
that does not continue the number it reads the whole of it.
-/
import LeanBun.Codec.Strings

set_option autoImplicit false

namespace LeanBun.Codec

open LeanBun.Lib

variable {p q : Parser} {s t : Str}

/-! ## Digits -/

/-- The test of the first byte is one of the first character. -/
theorem peek_any {kind : UInt8 → Bool} {chars : Char → Bool} (h : AsciiKind kind chars)
    (hp : p.rest = as_bytes t) : p.rest.head?.any kind = t.head?.any chars := by
  rw [hp]
  exact h.head t

theorem consume_digits_ok (hp : p.rest = as_bytes t) (h : consume_digits p = .ok ((), q)) :
    ∃ s t', t = s ++ t' ∧ (∀ c ∈ s, is_digit c = true) ∧ (t.head?.any is_digit = true → s ≠ []) ∧
      q = p.past 0 s t' := by
  have hspec := skip_while_spec digit_kind hp
  unfold consume_digits at h
  rw [hspec] at h
  cases h
  refine ⟨_, _, List.takeWhile_append_dropWhile.symm, fun c hc => List.mem_takeWhile_imp hc, ?_, rfl⟩
  intro hhead hnil
  cases t with
  | nil => cases hhead
  | cons c t =>
    have hc : is_digit c = true := by simpa using hhead
    rw [List.takeWhile_cons_of_pos hc] at hnil
    cases hnil

/-- The digits that must be there. -/
theorem parse_digits_ok {missing : Str} (hp : p.rest = as_bytes t)
    (h : parse_digits missing p = .ok ((), q)) :
    ∃ s t', t = s ++ t' ∧ Digits s ∧ q = p.past 0 s t' := by
  have hpeek : peek p = .ok (p.rest.head?, p) := rfl
  unfold parse_digits at h
  rw [bind_of hpeek, peek_any digit_kind hp] at h
  by_cases hhead : t.head?.any is_digit = true
  · rw [if_pos hhead] at h
    obtain ⟨s, t', rfl, hs, hne, rfl⟩ := consume_digits_ok hp h
    exact ⟨s, t', rfl, ⟨hne hhead, hs⟩, rfl⟩
  · rw [if_neg hhead] at h
    cases h

theorem Digits.head (h : Digits s) (t : Str) : (s ++ t).head?.any is_digit = true := by
  obtain ⟨hne, hs⟩ := h
  cases s with
  | nil => exact absurd rfl hne
  | cons c s => simpa using hs c List.mem_cons_self

theorem parse_digits_of {missing : Str} (h : Digits s) (ht : t.head?.any is_digit = false)
    (hp : p.rest = as_bytes (s ++ t)) : parse_digits missing p = .ok ((), p.past 0 s t) := by
  have hpeek : peek p = .ok (p.rest.head?, p) := rfl
  unfold parse_digits
  rw [bind_of hpeek, peek_any digit_kind hp, if_pos (h.head t)]
  exact skip_while_of digit_kind h.2 ht hp

/-! ## The parts of a number -/

theorem parse_integer_ok (hp : p.rest = as_bytes t) (h : parse_integer p = .ok ((), q)) :
    ∃ s t', t = s ++ t' ∧ IntegerText s ∧ q = p.past 0 s t' := by
  have hpeek : peek p = .ok (p.rest.head?, p) := rfl
  unfold parse_integer at h
  rw [bind_of hpeek] at h
  rcases first_byte hp with ⟨-, hhead⟩ | ⟨c, t', rfl, hc, hhead⟩ | ⟨b, hhead, hb⟩
  · rw [hhead] at h
    cases h
  · rw [hhead] at h
    simp only at h
    by_cases hzero : byte c = byte '0'
    · rw [if_pos hzero] at h
      obtain rfl := byte_injective hc (by decide) hzero
      rw [bind_of (advance_one hc hp)] at h
      obtain ⟨first, r, hfirst, h⟩ := bind_ok.mp h
      cases hfirst
      split_ifs at h
      · cases h
      · cases h
        exact ⟨['0'], t', rfl, Or.inl rfl, rfl⟩
    · rw [if_neg hzero] at h
      split_ifs at h with hrange
      · obtain ⟨s, t₁, heq, hs, hne, rfl⟩ := consume_digits_ok hp h
        have hdigit : is_digit c = true := by
          rw [← digit_kind.low c hc]
          refine decide_eq_true ⟨?_, hrange.2⟩
          exact UInt8.le_trans (show byte '0' ≤ byte '1' by decide) hrange.1
        refine ⟨s, t₁, heq, Or.inr ⟨⟨hne (by simpa using hdigit), hs⟩, ?_⟩, rfl⟩
        intro hhead'
        obtain ⟨s', rfl⟩ := List.head?_eq_some_iff.mp hhead'
        rw [List.cons_append] at heq
        injection heq with heq' _
        exact hzero (by rw [heq'])
      · cases h
  · rw [hhead] at h
    have hb' : 128 ≤ b.toNat := UInt8.le_iff_toNat_le.mp hb
    have hne : b ≠ byte '0' := fun heq => byte_lt (c := '0') (by decide) (heq ▸ hb)
    have hrange : ¬(byte '1' ≤ b ∧ b ≤ byte '9') := by
      rw [UInt8.le_iff_toNat_le, UInt8.le_iff_toNat_le]
      have h9 : (byte '9').toNat = 57 := rfl
      omega
    simp only [if_neg hne, if_neg hrange] at h
    cases h

theorem parse_integer_of (h : IntegerText s) (ht : t.head?.any is_digit = false)
    (hp : p.rest = as_bytes (s ++ t)) : parse_integer p = .ok ((), p.past 0 s t) := by
  have hpeek : peek p = .ok (p.rest.head?, p) := rfl
  unfold parse_integer
  rw [bind_of hpeek]
  rcases h with rfl | ⟨hdigits, hzero⟩
  · have hp' : p.rest = as_bytes ('0' :: t) := hp
    have hhead : p.rest.head? = some (byte '0') := by
      rw [hp', as_bytes_ascii (by decide)]
      rfl
    rw [hhead]
    simp only [if_true]
    have hpeek' : peek (p.past 0 ['0'] t) = .ok ((as_bytes t).head?, p.past 0 ['0'] t) := rfl
    rw [bind_of (advance_one (by decide) hp'), bind_of hpeek', digit_kind.head t, ht]
    rfl
  · cases s with
    | nil => exact absurd rfl hdigits.1
    | cons c s =>
      have hdigit := hdigits.2 c List.mem_cons_self
      have hne : c ≠ '0' := fun heq => hzero (by rw [heq]; rfl)
      have hc : c.toNat ≤ 127 := by
        by_contra hgt
        rw [digit_kind.high_chars c (Nat.not_le.mp hgt)] at hdigit
        cases hdigit
      have hhead : p.rest.head? = some (byte c) := by
        rw [hp, List.cons_append, as_bytes_ascii hc]
        rfl
      have hbyte : byte c ≠ byte '0' := fun heq => hne (byte_injective hc (by decide) heq)
      have hrange : byte '1' ≤ byte c ∧ byte c ≤ byte '9' := by
        have hlow := digit_kind.low c hc
        rw [hdigit] at hlow
        obtain ⟨hge, hle⟩ := of_decide_eq_true hlow
        refine ⟨?_, hle⟩
        rw [UInt8.le_iff_toNat_le] at hge ⊢
        have hn : (byte c).toNat ≠ (byte '0').toNat := fun heq => hbyte (UInt8.toNat_inj.mp heq)
        have h0 : (byte '0').toNat = 48 := rfl
        have h1 : (byte '1').toNat = 49 := rfl
        omega
      rw [hhead]
      simp only [if_neg hbyte, if_pos hrange]
      exact skip_while_of digit_kind hdigits.2 ht hp

theorem parse_fraction_ok (hp : p.rest = as_bytes t) (h : parse_fraction p = .ok ((), q)) :
    ∃ s t', t = s ++ t' ∧ FractionText s ∧ q = p.past 0 s t' := by
  unfold parse_fraction at h
  obtain ⟨taken, r, htake, hrest⟩ := bind_ok.mp h
  rcases take_if_cases (by decide) hp htake with ⟨rfl, t', rfl, rfl⟩ | ⟨rfl, rfl, -⟩
  · obtain ⟨digits, t₁, rfl, hdigits, rfl⟩ := parse_digits_ok (past_rest ..) hrest
    exact ⟨'.' :: digits, t₁, rfl, Or.inr ⟨digits, rfl, hdigits⟩, past_past ..⟩
  · cases hrest
    exact ⟨[], t, rfl, Or.inl rfl, (past_nil hp).symm⟩

theorem parse_fraction_of (h : FractionText s) (hdigit : t.head?.any is_digit = false)
    (hpoint : t.head? ≠ some '.') (hp : p.rest = as_bytes (s ++ t)) :
    parse_fraction p = .ok ((), p.past 0 s t) := by
  unfold parse_fraction
  rcases h with rfl | ⟨digits, rfl, hdigits⟩
  · have hp' : p.rest = as_bytes t := hp
    rw [bind_of (take_if_miss (by decide) hp' hpoint), past_nil hp']
    rfl
  · have hp' : p.rest = as_bytes ('.' :: (digits ++ t)) := hp
    rw [bind_of (take_if_hit (by decide) hp')]
    refine (parse_digits_of hdigits hdigit (past_rest ..)).trans ?_
    rw [past_past]
    rfl

/-- The letter of an exponent. -/
theorem exponent_kind : AsciiKind (fun b => b == byte 'e' || b == byte 'E')
    (fun c => c == 'e' || c == 'E') := (AsciiKind.equal (by decide)).or (AsciiKind.equal (by decide))

/-- The sign of an exponent. -/
theorem sign_kind : AsciiKind (fun b => b == byte '+' || b == byte '-')
    (fun c => c == '+' || c == '-') := (AsciiKind.equal (by decide)).or (AsciiKind.equal (by decide))

/-- The first character of a text, when it is of a kind. -/
theorem head_any {chars : Char → Bool} (h : t.head?.any chars = true) :
    ∃ c t', t = c :: t' ∧ chars c = true := by
  cases t with
  | nil => cases h
  | cons c t => exact ⟨c, t, rfl, by simpa using h⟩

theorem exponent_letter {c : Char} : (c == 'e' || c == 'E') = true ↔ c = 'e' ∨ c = 'E' := by simp

theorem sign_letter {c : Char} : (c == '+' || c == '-') = true ↔ c = '+' ∨ c = '-' := by simp

theorem parse_exponent_ok (hp : p.rest = as_bytes t) (h : parse_exponent p = .ok ((), q)) :
    ∃ s t', t = s ++ t' ∧ ExponentText s ∧ q = p.past 0 s t' := by
  have hpeek : peek p = .ok (p.rest.head?, p) := rfl
  unfold parse_exponent at h
  rw [bind_of hpeek, peek_any exponent_kind hp] at h
  split_ifs at h with hletter
  · obtain ⟨e, t₁, rfl, he⟩ := head_any hletter
    have he' := exponent_letter.mp he
    have hascii : e.toNat ≤ 127 := by
      rcases he' with rfl | rfl
      · decide
      · decide
    rw [bind_of (advance_one hascii hp)] at h
    have hpeek' : peek (p.past 0 [e] t₁) = .ok ((as_bytes t₁).head?, p.past 0 [e] t₁) := rfl
    rw [bind_of hpeek', sign_kind.head] at h
    split_ifs at h with hsign
    · obtain ⟨sign, t₂, rfl, hs⟩ := head_any hsign
      have hs' := sign_letter.mp hs
      have hascii' : sign.toNat ≤ 127 := by
        rcases hs' with rfl | rfl
        · decide
        · decide
      rw [bind_of (advance_one hascii' (past_rest ..)), past_past] at h
      obtain ⟨digits, t₃, rfl, hdigits, rfl⟩ := parse_digits_ok (past_rest ..) h
      refine ⟨e :: ([sign] ++ digits), t₃, rfl, Or.inr ⟨e, [sign], digits, rfl, he', Or.inr ?_,
        hdigits⟩, past_past ..⟩
      exact hs'.imp (fun h => by rw [h]) fun h => by rw [h]
    · obtain ⟨digits, t₂, rfl, hdigits, rfl⟩ := parse_digits_ok (past_rest ..) h
      exact ⟨e :: ([] ++ digits), t₂, rfl, Or.inr ⟨e, [], digits, rfl, he', Or.inl rfl, hdigits⟩,
        past_past ..⟩
  · cases h
    exact ⟨[], t, rfl, Or.inl rfl, (past_nil hp).symm⟩

theorem parse_exponent_of (h : ExponentText s) (hdigit : t.head?.any is_digit = false)
    (hletter : t.head?.any (fun c => c == 'e' || c == 'E') = false)
    (hp : p.rest = as_bytes (s ++ t)) : parse_exponent p = .ok ((), p.past 0 s t) := by
  have hpeek : peek p = .ok (p.rest.head?, p) := rfl
  unfold parse_exponent
  rw [bind_of hpeek, peek_any exponent_kind hp]
  rcases h with rfl | ⟨e, sign, digits, rfl, he, hsign, hdigits⟩
  · have hp' : p.rest = as_bytes t := hp
    rw [List.nil_append, hletter, past_nil hp']
    rfl
  · have hp' : p.rest = as_bytes (e :: (sign ++ (digits ++ t))) := by
      rw [hp]
      simp
    have hascii : e.toNat ≤ 127 := by
      rcases he with rfl | rfl
      · decide
      · decide
    have hany : ((e :: (sign ++ digits)) ++ t).head?.any (fun c => c == 'e' || c == 'E') = true := by
      simpa using he
    have hpeek' : peek (p.past 0 [e] (sign ++ (digits ++ t))) =
      .ok ((as_bytes (sign ++ (digits ++ t))).head?, p.past 0 [e] (sign ++ (digits ++ t))) := rfl
    rw [if_pos hany, bind_of (advance_one hascii hp'), bind_of hpeek', sign_kind.head]
    have hsigned : ∀ c : Char, (c = '+' ∨ c = '-') → sign = [c] →
        (do if (List.head? (sign ++ (digits ++ t))).any (fun c => c == '+' || c == '-') then
              advance 1
              parse_digits "missing JSON exponent digits".toList
            else parse_digits "missing JSON exponent digits".toList : ParserM Unit)
          (p.past 0 [e] (sign ++ (digits ++ t))) =
        .ok ((), p.past 0 ((e :: (sign ++ digits))) t) := by
      intro c hc hone
      subst hone
      have hascii' : c.toNat ≤ 127 := by
        rcases hc with rfl | rfl
        · decide
        · decide
      rw [if_pos (by simpa using hc)]
      have hrest : (p.past 0 [e] ([c] ++ (digits ++ t))).rest = as_bytes (c :: (digits ++ t)) := rfl
      rw [bind_of (advance_one hascii' hrest), parse_digits_of hdigits hdigit (past_rest ..)]
      simp
    rcases hsign with rfl | rfl | rfl
    · have hnot : (digits ++ t).head?.any (fun c => c == '+' || c == '-') = false := by
        obtain ⟨c, rest, heq, hc⟩ := head_any (hdigits.head t)
        rw [heq]
        have hne : c ≠ '+' ∧ c ≠ '-' := by
          constructor
          · rintro rfl
            cases hc
          · rintro rfl
            cases hc
        simp [hne]
      rw [List.nil_append, hnot]
      refine (parse_digits_of hdigits hdigit (past_rest ..)).trans ?_
      simp
    · exact hsigned '+' (Or.inl rfl) rfl
    · exact hsigned '-' (Or.inr rfl) rfl

/-! ## Numbers -/

/-- The text between two positions. -/
theorem between_positions {count : ℕ} (hp : p.rest = as_bytes (s ++ t)) :
    p.rest.take ((p.past count s t).position - p.position) = as_bytes s := by
  have hlen : (p.past count s t).position - p.position = byte_len s := Nat.add_sub_cancel_left ..
  rw [hlen, hp, as_bytes_append, byte_len, List.take_left]

/-- **A number, read.** -/
theorem parse_number_ok (hp : p.rest = as_bytes t) {number : JsonNumber}
    (h : parse_number p = .ok (number, q)) :
    ∃ s t', t = s ++ t' ∧ NumberText s ∧ number = ⟨s⟩ ∧ q = p.past 0 s t' := by
  unfold parse_number at h
  obtain ⟨start, r, hstart, h₁⟩ := bind_ok.mp h
  cases hstart
  obtain ⟨taken, r, htake, h₂⟩ := bind_ok.mp h₁
  obtain ⟨sign, t₁, rfl, hsign, rfl⟩ : ∃ sign t₁, t = sign ++ t₁ ∧ (sign = [] ∨ sign = ['-']) ∧
      r = p.past 0 sign t₁ := by
    rcases take_if_cases (by decide) hp htake with ⟨-, t', rfl, rfl⟩ | ⟨-, rfl, -⟩
    · exact ⟨['-'], t', rfl, Or.inr rfl, rfl⟩
    · exact ⟨[], t, rfl, Or.inl rfl, (past_nil hp).symm⟩
  obtain ⟨_, _, hinteger, h₃⟩ := bind_ok.mp h₂
  obtain ⟨integer, t₂, rfl, hint, rfl⟩ := parse_integer_ok (past_rest ..) hinteger
  obtain ⟨_, _, hfraction, h₄⟩ := bind_ok.mp h₃
  obtain ⟨fraction, t₃, rfl, hfrac, rfl⟩ := parse_fraction_ok (past_rest ..) hfraction
  obtain ⟨_, _, hexponent, h₅⟩ := bind_ok.mp h₄
  obtain ⟨exponent, t₄, rfl, hexp, rfl⟩ := parse_exponent_ok (past_rest ..) hexponent
  obtain ⟨stop, r, hstop, h₆⟩ := bind_ok.mp h₅
  cases hstop
  simp only [past_past, List.append_assoc] at h₆
  have hp' : p.rest = as_bytes ((sign ++ (integer ++ (fraction ++ exponent))) ++ t₄) := by
    rw [hp]
    simp
  rw [between_positions hp', from_utf8_as_bytes] at h₆
  cases h₆
  refine ⟨_, t₄, by simp, ⟨sign, integer, fraction, exponent, rfl, hsign, hint, hfrac, hexp⟩, rfl, ?_⟩
  simp

/-- What does not continue a number. -/
def EndsNumber (t : Str) : Prop := t.head?.any is_digit = false ∧ t.head? ≠ some '.' ∧
  t.head?.any (fun c => c == 'e' || c == 'E') = false

/-- An exponent, or what comes after it, does not continue a fraction. -/
theorem ExponentText.ends (h : ExponentText s) (ht : EndsNumber t) :
    (s ++ t).head?.any is_digit = false ∧ (s ++ t).head? ≠ some '.' := by
  rcases h with rfl | ⟨e, sign, digits, rfl, he, -, -⟩
  · exact ⟨ht.1, ht.2.1⟩
  · rcases he with rfl | rfl
    · exact ⟨rfl, fun h => by cases h⟩
    · exact ⟨rfl, fun h => by cases h⟩

/-- A fraction, or what comes after it, does not continue an integer part. -/
theorem FractionText.ends (h : FractionText s) (ht : t.head?.any is_digit = false) :
    (s ++ t).head?.any is_digit = false := by
  rcases h with rfl | ⟨digits, rfl, -⟩
  · exact ht
  · rfl

/-- An integer part has no minus sign. -/
theorem IntegerText.head (h : IntegerText s) (t : Str) : (s ++ t).head? ≠ some '-' := by
  rcases h with rfl | ⟨hdigits, -⟩
  · exact fun h => by cases h
  · obtain ⟨c, rest, heq, hc⟩ := head_any (hdigits.head t)
    rw [heq]
    intro hminus
    cases hminus
    cases hc

/-- A number begins with a minus sign or a digit. -/
theorem NumberText.first (h : NumberText s) :
    ∃ c s', s = c :: s' ∧ (c = '-' ∨ is_digit c = true) := by
  obtain ⟨sign, integer, fraction, exponent, rfl, hsign, hinteger, -, -⟩ := h
  rcases hsign with rfl | rfl
  · rcases hinteger with rfl | ⟨hdigits, -⟩
    · exact ⟨'0', _, rfl, Or.inr rfl⟩
    · obtain ⟨c, s', heq, hc⟩ := head_any (hdigits.head (fraction ++ exponent))
      exact ⟨c, s', heq, Or.inr hc⟩
  · exact ⟨'-', _, rfl, Or.inl rfl⟩

/-- **A number, accepted.** In front of what does not continue it. -/
theorem parse_number_of (h : NumberText s) (ht : EndsNumber t) (hp : p.rest = as_bytes (s ++ t)) :
    parse_number p = .ok (⟨s⟩, p.past 0 s t) := by
  obtain ⟨sign, integer, fraction, exponent, rfl, hsign, hinteger, hfraction, hexponent⟩ := h
  have hp' : p.rest = as_bytes (sign ++ (integer ++ (fraction ++ (exponent ++ t)))) := by
    rw [hp]
    simp
  obtain ⟨taken, htake⟩ : ∃ taken, take_if (byte '-') p =
      .ok (taken, p.past 0 sign (integer ++ (fraction ++ (exponent ++ t)))) := by
    rcases hsign with rfl | rfl
    · rw [List.nil_append] at hp'
      exact ⟨false, by rw [take_if_miss (by decide) hp' (hinteger.head _), past_nil hp']⟩
    · exact ⟨true, take_if_hit (by decide) hp'⟩
  obtain ⟨hdigit, hpoint⟩ := hexponent.ends ht
  have hget : (get : ParserM Parser) p = .ok (p, p) := rfl
  unfold parse_number
  rw [bind_of hget, bind_of htake,
    bind_of (parse_integer_of hinteger (hfraction.ends hdigit) (past_rest ..)),
    bind_of (parse_fraction_of hfraction hdigit hpoint (past_rest ..)),
    bind_of (parse_exponent_of hexponent ht.1 ht.2.2 (past_rest ..))]
  simp only [past_past, List.append_assoc]
  refine (bind_of (a := _) (r := _) rfl).trans ?_
  rw [between_positions hp, from_utf8_as_bytes]
  rfl

end LeanBun.Codec
