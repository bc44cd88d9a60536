/-
The documents that `parse_strict_json` accepts.

The parser returns `v` exactly when the text is a document with value `v` in the
grammar that tolerates white space inside surrogate pairs, and `v` is within the
limits. Every document of RFC 8259 is one of these. The difference are the texts
with white space in front of one of the two bytes that announce the second half
of an escaped surrogate pair: `parse_scalar` takes these bytes with `consume`,
which skips white space like it does between the tokens.
-/
import LeanBun.Codec.Accept

set_option autoImplicit false

namespace LeanBun.Codec

open LeanBun.Lib

variable {p q : Parser} {s t : Str}

/-- **What is accepted.** A text is read as a value exactly when it is a document of
the tolerant grammar with this value, within the limits. -/
theorem parse_strict_json_ok_iff {text : Str} {v : StrictJson} :
    parse_strict_json text = .ok v ↔ Document Blank text v ∧ WithinLimits v := by
  have hget : ∀ p : Parser, (get : ParserM Parser) p = .ok (p, p) := fun _ => rfl
  have hresult : parse_strict_json text = .ok v ↔
      ∃ q, parse_document (.start text) = .ok (v, q) := by
    unfold parse_strict_json
    cases hdocument : parse_document (.start text) with
    | error e =>
      have hrun : parse_document.run (.start text) = .error e := hdocument
      rw [hrun]
      exact ⟨(fun h => by cases h), fun ⟨_, h⟩ => by cases h⟩
    | ok result =>
      have hrun : parse_document.run (.start text) = .ok result := hdocument
      rw [hrun]
      refine ⟨fun h => ⟨result.2, ?_⟩, fun ⟨q, h⟩ => ?_⟩
      · cases h
        rfl
      · cases h
        rfl
  rw [hresult]
  constructor
  · rintro ⟨q, h⟩
    unfold parse_document at h
    obtain ⟨before, t₁, rfl, hbefore, -, hskip⟩ := skip_whitespace_spec (p := .start text) rfl
    rw [bind_of hskip] at h
    obtain ⟨v', _, hvalue, h₁⟩ := bind_ok.mp h
    obtain ⟨before', s, t₂, rfl, hbefore', hs, hdepth, hnodes, rfl⟩ :=
      parse_value_ok _ (past_rest ..) hvalue
    rw [past_past] at h₁
    obtain ⟨after, t₃, rfl, hafter, -, hskip'⟩ := skip_whitespace_past
      (.start (before ++ (before' ++ (s ++ t₂)))) (0 + v'.nodes) (before ++ (before' ++ s)) t₂
    rw [bind_of hskip', bind_of (hget _)] at h₁
    split_ifs at h₁ with hend
    · cases h₁
      have hnil : t₃ = [] := as_bytes_injective hend
      subst hnil
      refine ⟨⟨before ++ before', s, after, by simp, hbefore.append hbefore', hs, hafter⟩,
        Nat.lt_succ_iff.mp hdepth, ?_⟩
      exact Nat.le_trans (Nat.le_add_left ..) hnodes
    · cases h₁
  · rintro ⟨⟨before, s, after, rfl, hbefore, hs, hafter⟩, hdepth, hnodes⟩
    have hends : EndsNumber after := by
      have hnil : EndsNumber [] := ⟨rfl, (fun h => by cases h), rfl⟩
      have happend := hafter.ends hnil
      rwa [List.append_nil] at happend
    have hskip := skip_whitespace_of (p := .start (before ++ (s ++ after))) hbefore (hs.not_ws after) rfl
    have haccepts : AcceptsValue v s := hs.accepts
    have hvalue := haccepts (MAX_JSON_DEPTH + 1)
      (Parser.past (.start (before ++ (s ++ after))) 0 before (s ++ after)) [] after Blank.nil
      (past_rest ..) hends (Nat.lt_succ_of_le hdepth)
      (by
        have hstart : (Parser.past (.start (before ++ (s ++ after))) 0 before (s ++ after)).nodes = 0 :=
          rfl
        rw [hstart, Nat.zero_add]
        exact hnodes)
    have hskip' := skip_whitespace_of (t := []) hafter (by rfl) (past_rest
      (Parser.past (.start (before ++ (s ++ after))) 0 before (s ++ after)) v.nodes ([] ++ s)
      (after ++ []))
    rw [List.append_nil] at hskip'
    unfold parse_document
    rw [bind_of hskip, bind_of hvalue, bind_of hskip', bind_of (hget _), if_pos (by rfl)]
    exact ⟨_, rfl⟩

/-! ## RFC 8259 -/

theorem Chars.tolerate {value : Str} (h : Chars Nothing s value) : Chars Blank s value := by
  have hgap : ∀ {g : Str}, Nothing g → Blank g := fun h => by
    rw [h]
    exact Blank.nil
  induction h with
  | nil => exact Chars.nil
  | plain hc _ ih => exact Chars.plain hc ih
  | short he _ ih => exact Chars.short he ih
  | scalar hquad hhigh hlow _ ih => exact Chars.scalar hquad hhigh hlow ih
  | pair hquad hhigh hbefore hinside hquad' hlow _ ih =>
    exact Chars.pair hquad hhigh (hgap hbefore) (hgap hinside) hquad' hlow ih

theorem StringText.tolerate {value : Str} (h : StringText Nothing s value) :
    StringText Blank s value := by
  obtain ⟨chars, rfl, hchars⟩ := h
  exact ⟨chars, rfl, hchars.tolerate⟩

/-- The tolerant grammar has the phrases of RFC 8259. -/
theorem Derives.tolerate {phrase : Phrase} (h : Derives Nothing phrase s) :
    Derives Blank phrase s := by
  induction h with
  | null => exact Derives.null
  | true_text => exact Derives.true_text
  | false_text => exact Derives.false_text
  | number hs => exact Derives.number hs
  | string hs => exact Derives.string hs.tolerate
  | array_empty hws => exact Derives.array_empty hws
  | array _ ih => exact Derives.array ih
  | object_empty hws => exact Derives.object_empty hws
  | object _ hnodup ih => exact Derives.object ih hnodup
  | element hbefore _ hafter ih => exact Derives.element hbefore ih hafter
  | more_elements hbefore _ hafter _ ih ihtail => exact Derives.more_elements hbefore ih hafter ihtail
  | member hbefore hname hbetween hcolon _ hafter ih =>
    exact Derives.member hbefore hname.tolerate hbetween hcolon ih hafter
  | more_members hbefore hname hbetween hcolon _ hafter _ ih ihtail =>
    exact Derives.more_members hbefore hname.tolerate hbetween hcolon ih hafter ihtail

/-- The documents of RFC 8259 are documents of the tolerant grammar. -/
theorem Document.tolerate {text : Str} {v : StrictJson} (h : Document Nothing text v) :
    Document Blank text v := by
  obtain ⟨before, s, after, htext, hbefore, hs, hafter⟩ := h
  exact ⟨before, s, after, htext, hbefore, hs.tolerate, hafter⟩

/-- The text is read as exactly the value it denotes in RFC 8259, if it denotes one
within the limits, and is refused otherwise. -/
def ReadsExactly (text : Str) : Prop :=
  ∀ v, parse_strict_json text = .ok v ↔ Document Nothing text v ∧ WithinLimits v

/-- **Where the reader is exact.** It reads exactly the documents of RFC 8259 on the
texts without white space inside an escaped surrogate pair: those that are a
document of RFC 8259 if they are one of the tolerant grammar, within the limits. -/
theorem reads_exactly_iff (text : Str) : ReadsExactly text ↔
    ∀ v, Document Blank text v → WithinLimits v → Document Nothing text v := by
  constructor
  · intro h v hdocument hlimits
    exact ((h v).mp (parse_strict_json_ok_iff.mpr ⟨hdocument, hlimits⟩)).1
  · intro h v
    rw [parse_strict_json_ok_iff]
    constructor
    · rintro ⟨hdocument, hlimits⟩
      exact ⟨h v hdocument hlimits, hlimits⟩
    · rintro ⟨hdocument, hlimits⟩
      exact ⟨hdocument.tolerate, hlimits⟩

/-! ## White space inside a surrogate pair -/

/-- The characters of a string with a space inside a surrogate pair. -/
def spaced_pair : Str := ['\\', 'u', 'D', '8', '3', 'D', ' ', '\\', 'u', 'D', 'E', '0', '0']

theorem high_quad : Quad ['D', '8', '3', 'D'] 0xd83d :=
  ⟨'D', '8', '3', 'D', 13, 8, 3, 13, rfl, by decide, by decide, by decide, by decide, by decide⟩

theorem low_quad : Quad ['D', 'E', '0', '0'] 0xde00 :=
  ⟨'D', 'E', '0', '0', 13, 14, 0, 0, rfl, by decide, by decide, by decide, by decide, by decide⟩

theorem blank_space : Blank [' '] := fun c hc => by
  rw [List.mem_singleton.mp hc]
  rfl

/-- With white space tolerated they denote one character. -/
theorem spaced_pair_chars : Chars Blank spaced_pair [Char.ofNat 0x1f600] :=
  @Chars.pair Blank 0xd83d 0xde00 ['D', '8', '3', 'D'] ['D', 'E', '0', '0'] [' '] [] [] [] high_quad
    ⟨by decide, by decide⟩ blank_space Blank.nil low_quad ⟨by decide, by decide⟩ Chars.nil

/-- In RFC 8259 no string begins with these characters. -/
theorem spaced_pair_refused {chars rest value tail : Str} (h : Chars Nothing chars value)
    (htext : chars ++ '"' :: rest = spaced_pair ++ tail) : False := by
  cases h with
  | nil => cases htext
  | plain hplain _ =>
    injection htext with hc _
    exact hplain.2.2 hc
  | short hshort _ =>
    injection htext with _ hrest
    injection hrest with hc _
    rw [hc] at hshort
    revert hshort
    simp [short_escapes]
  | scalar hquad hhigh hlow _ =>
    obtain ⟨a, b, c, d, va, vb, vc, vd, rfl, ha, hb, hc, hd, hunit⟩ := hquad
    injection htext with _ h
    injection h with _ h
    injection h with h₁ h
    injection h with h₂ h
    injection h with h₃ h
    injection h with h₄ h
    rw [h₁] at ha
    rw [h₂] at hb
    rw [h₃] at hc
    rw [h₄] at hd
    cases ha
    cases hb
    cases hc
    cases hd
    rw [hunit] at hhigh
    exact hhigh ⟨by decide, by decide⟩
  | pair hquad hhigh hbefore hinside hquad' hlow _ =>
    obtain ⟨a, b, c, d, va, vb, vc, vd, rfl, ha, hb, hc, hd, hunit⟩ := hquad
    have hnothing : _ = [] := hbefore
    subst hnothing
    injection htext with _ h
    injection h with _ h
    injection h with h₁ h
    injection h with h₂ h
    injection h with h₃ h
    injection h with h₄ h
    cases h

/-- A text with white space inside an escaped surrogate pair is read, as the string of
the character that the pair denotes; it is no document of RFC 8259. -/
theorem spaced_pair_accepted : ¬ReadsExactly ('"' :: (spaced_pair ++ ['"'])) := by
  intro h
  have hread : parse_strict_json ('"' :: (spaced_pair ++ ['"'])) =
      .ok (.String [Char.ofNat 0x1f600]) := by
    refine parse_strict_json_ok_iff.mpr ⟨⟨[], _, [], by simp, Blank.nil,
      Derives.string ⟨spaced_pair, rfl, spaced_pair_chars⟩, Blank.nil⟩, Nat.zero_le _, ?_⟩
    show 1 ≤ MAX_JSON_NODES
    decide
  obtain ⟨⟨before, s, after, htext, hbefore, hs, -⟩, -⟩ := (h _).mp hread
  have hnil : before = [] := blank_eq_nil (s := s ++ after) hbefore (by rw [← htext]; rfl)
  subst hnil
  cases hs with
  | string hstring =>
    obtain ⟨chars, rfl, hchars⟩ := hstring
    injection htext with _ htail
    have htext' : chars ++ '"' :: after = spaced_pair ++ ['"'] := by
      rw [htail]
      simp
    exact spaced_pair_refused hchars htext'

end LeanBun.Codec
