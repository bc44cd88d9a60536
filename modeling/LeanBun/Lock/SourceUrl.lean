/-
Normal forms of source URLs.

`CanonicalSourceUrlV1::parse` checks the path segments and then removes one `.git`, so
what it has checked of the last segment need not be true of what is left of it. The
canonical text is in normal form, and parses to itself, unless the text ended in a second
`.git` or in a segment that only `.git` kept from being empty, `.` or `..`.
-/
import LeanBun.Lock.RoundTrip

set_option autoImplicit false

namespace LeanBun.Lock

open LeanBun.Lib LeanBun.Core

/-! ## Normal forms -/

/-- A normalized URL: a lowercase host, no query, no trailing `.git`, and direct path
segments only. -/
structure NormalUrl (value : Str) : Prop where
  shape : ∃ host path, value = https ++ (host ++ '/' :: path) ∧ '/' ∉ host ∧
    (∀ c ∈ host, ¬('A' ≤ c ∧ c ≤ 'Z')) ∧ ∀ segment ∈ split '/' path, direct_segment segment = true
  no_query : '?' ∉ value
  no_dot_git : ¬dot_git <:+ value

/-- What a text has to end in to be left without a normal form. -/
def stripped_endings : List Str :=
  [".git.git".toList, "/.git".toList, "/..git".toList, "/...git".toList]

/-- The endings are those that `reads_back` refuses, with `.git` behind them. -/
theorem reads_back_iff_append (value : Str) :
    reads_back value = true ↔ ∀ ending ∈ stripped_endings, ¬ending <:+ value ++ dot_git := by
  have hendings : stripped_endings =
      [dot_git ++ dot_git, "/".toList ++ dot_git, "/.".toList ++ dot_git, "/..".toList ++ dot_git] := by
    decide
  rw [hendings]
  unfold reads_back
  simp only [List.forall_mem_cons, List.not_mem_nil, IsEmpty.forall_iff, implies_true, and_true,
    List.suffix_append_self_iff, Bool.and_eq_true, Bool.not_eq_true', ← Bool.not_eq_true,
    List.isSuffixOf_iff_suffix, and_assoc]

/-- Every ending is one of `.git`. -/
theorem dot_git_suffix_ending {ending : Str} (h : ending ∈ stripped_endings) :
    dot_git <:+ ending := by
  revert ending
  decide

/-- A host that passes has no uppercase letter. -/
theorem valid_host_lowercase {host : Str} (h : valid_host host = true) :
    ∀ c ∈ host, ¬('A' ≤ c ∧ c ≤ 'Z') := by
  intro c hc hupper
  unfold valid_host at h
  simp only [Bool.and_eq_true, List.all_eq_true] at h
  have hchar := h.1.2 c hc
  unfold is_host_char is_digit at hchar
  simp only [Bool.or_eq_true, decide_eq_true_eq, Char.le_def, UInt32.le_iff_toNat_le] at hchar hupper
  rcases hchar with ((⟨hlow, -⟩ | ⟨-, hhigh⟩) | rfl) | rfl
  · have hbound : 'a'.val.toNat ≤ 'Z'.val.toNat := le_trans hlow hupper.2
    exact absurd hbound (by decide)
  · have hbound : 'A'.val.toNat ≤ '9'.val.toNat := le_trans hupper.1 hhigh
    exact absurd hbound (by decide)
  · exact absurd hupper.1 (by decide)
  · exact absurd hupper.1 (by decide)

/-- A URL that parses to itself is in normal form. -/
theorem NormalUrl.of_parse {value : Str} (h : parse_source_url value = .ok value) :
    NormalUrl value := by
  obtain ⟨-, hstrip, remainder, host, path, hstart, hsplit, hnorm⟩ := parse_source_url_cases h
  obtain ⟨hremainder, hslash⟩ := split_once_eq_some hsplit
  rw [normalized_url, Bool.and_eq_true, Bool.and_eq_true] at hnorm
  obtain ⟨⟨hhost, hpath⟩, hchars⟩ := hnorm
  refine ⟨⟨host, path, ?_, hslash, valid_host_lowercase hhost, List.all_eq_true.mp hpath⟩, ?_, ?_⟩
  · rw [strip_prefix_eq_some hstart, hremainder]
  · intro hquery
    have hchar := List.all_eq_true.mp hchars '?' hquery
    exact absurd hchar (by decide)
  · intro hgit
    have hlen := congrArg List.length hstrip
    rw [strip_dot_git, if_pos (List.isSuffixOf_iff_suffix.mpr hgit), List.length_take] at hlen
    have hlong := hgit.length_le
    have hfour : dot_git.length = 4 := by decide
    omega

/-! ## Parsing twice -/

/-- What is left of an accepted text is read back unless the text has one of the endings. -/
theorem reads_back_strip_iff {raw value : Str} (h : parse_source_url raw = .ok value) :
    reads_back value = true ↔ ∀ ending ∈ stripped_endings, ¬ending <:+ raw := by
  obtain ⟨-, hvalue, -⟩ := parse_source_url_cases h
  by_cases hgit : dot_git.isSuffixOf raw = true
  · obtain ⟨front, hfront⟩ := List.isSuffixOf_iff_suffix.mp hgit
    have hstrip : value = front := by
      rw [hvalue, strip_dot_git, if_pos hgit, ← hfront]
      have hlen : (front ++ dot_git).length - 4 = front.length := by
        have hfour : dot_git.length = 4 := by decide
        rw [List.length_append, hfour, Nat.add_sub_cancel]
      rw [hlen, List.take_left]
    rw [hstrip, ← hfront]
    exact reads_back_iff_append front
  · -- without `.git` nothing has been removed
    have hsame : value = raw := by rw [hvalue, strip_dot_git, if_neg hgit]
    rw [hsame] at h ⊢
    have hself : reads_back raw = true := (parse_source_url_self_iff ⟨raw, raw, h⟩).mp h
    refine iff_of_true hself fun ending hending hsuffix => hgit ?_
    exact List.isSuffixOf_iff_suffix.mpr ((dot_git_suffix_ending hending).trans hsuffix)

/-- The text under a parsed URL. -/
theorem CanonicalSourceUrlV1.parse_value {raw : Str} {url : CanonicalSourceUrlV1}
    (h : CanonicalSourceUrlV1.parse raw = .ok url) : parse_source_url raw = .ok url.value := by
  unfold CanonicalSourceUrlV1.parse at h
  split at h
  · next value hvalue =>
    rw [hvalue, ← Except.ok.inj h]
  · cases h

/-- **Idempotence of the URL parser.** The canonical text of an accepted text is in normal
form and parses to the same value, exactly when the text does not end in `.git.git`,
`/.git`, `/..git` or `/...git`. -/
theorem parse_idempotent_iff (raw : Str) (url : CanonicalSourceUrlV1)
    (h : CanonicalSourceUrlV1.parse raw = .ok url) :
    (CanonicalSourceUrlV1.parse url.value = .ok url ∧ NormalUrl url.value) ↔
      ∀ ending ∈ stripped_endings, ¬ending <:+ raw := by
  rw [← reads_back_strip_iff (CanonicalSourceUrlV1.parse_value h),
    ← CanonicalSourceUrlV1.parse_self_iff url]
  constructor
  · rintro ⟨hself, -⟩
    exact hself
  · intro hself
    exact ⟨hself, NormalUrl.of_parse (CanonicalSourceUrlV1.parse_value hself)⟩

/-- `https://github.com/a/b.git` -/
def plain_url : CanonicalSourceUrlV1 :=
  ⟨"https://github.com/a/b".toList, "https://github.com/a/b.git".toList, by decide⟩

theorem plain_url_parsed :
    CanonicalSourceUrlV1.parse "https://github.com/a/b.git".toList = .ok plain_url := by
  decide

theorem parse_idempotent_plain :
    CanonicalSourceUrlV1.parse plain_url.value = .ok plain_url ∧ NormalUrl plain_url.value :=
  (parse_idempotent_iff _ _ plain_url_parsed).mpr (by decide)

/-- **Texts that are not read back.** `https://h/.git` is parsed to a text that the parser
refuses. -/
theorem parse_not_idempotent : ¬∀ raw url, CanonicalSourceUrlV1.parse raw = .ok url →
    CanonicalSourceUrlV1.parse url.value = .ok url ∧ NormalUrl url.value := by
  intro h
  have hurl : CanonicalSourceUrlV1.parse "https://h/.git".toList =
      .ok ⟨"https://h/".toList, "https://h/.git".toList, by decide⟩ := by decide
  have hagain := (h _ _ hurl).1
  exact absurd hagain (by decide)

end LeanBun.Lock
