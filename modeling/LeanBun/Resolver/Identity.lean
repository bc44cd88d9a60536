/-
What the identity of a candidate binds.

Every field under the identity is delimited: texts carry their length, optional
fields a tag, sources a tag of their kind, and the requirements are counted. So
the bytes determine the candidate, and two candidates with one identity are one
candidate unless their bytes collide.
-/
import LeanBun.Lock.Digest
import LeanBun.Resolver.Model

set_option autoImplicit false

namespace LeanBun.Resolver

open LeanBun.Lib LeanBun.Core LeanBun.Lock LeanBun.Bridge

/-! ## Short texts -/

theorem valid_text_short {value : Str} (h : valid_text value = true) : ShortText value := by
  unfold valid_text at h
  simp only [Bool.not_eq_true', Bool.or_eq_false_iff, decide_eq_false_iff_not, not_lt] at h
  have hlen : byte_len value ≤ 4096 := h.1.2
  unfold ShortText
  omega

theorem valid_relative_path_short {value : Str} (h : valid_relative_path value = true) :
    ShortText value := by
  unfold valid_relative_path at h
  simp only [Bool.and_eq_true] at h
  exact valid_text_short h.1.1

theorem valid_git_revision_short {value : Str} (h : valid_git_revision value = true) :
    ShortText value := by
  unfold valid_git_revision at h
  simp only [Bool.and_eq_true, decide_eq_true_eq] at h
  unfold ShortText
  omega

/-! ## Delimited fields -/

/-- The key is written as in the lock. -/
theorem hash_key_delimited : Delimited (fun _ => True) hash_key_bytes := key_bytes_delimited

theorem request_delimited : Delimited (fun _ => True) request_bytes := by
  intro a b r s _ _ h
  cases a with
  | Git url revision subdir hrev hsub =>
    cases b with
    | Git url' revision' subdir' hrev' hsub' =>
      simp only [request_bytes, List.cons_append, List.append_assoc, List.cons.injEq, true_and] at h
      obtain ⟨hurl, h⟩ := string_bytes_delimited _ _ _ _ (url_short url) (url_short url') h
      obtain ⟨hrevision, h⟩ := optional_string_delimited _ _ _ _
        (fun v hv => valid_text_short (hrev v hv)) (fun v hv => valid_text_short (hrev' v hv)) h
      obtain ⟨hsubdir, hrest⟩ := optional_string_delimited _ _ _ _
        (fun v hv => valid_relative_path_short (hsub v hv))
        (fun v hv => valid_relative_path_short (hsub' v hv)) h
      have heq : url = url' := CanonicalSourceUrlV1.ext hurl
      subst heq hrevision hsubdir
      exact ⟨rfl, hrest⟩
    | Reservoir version hversion =>
      simp only [request_bytes, List.cons_append, List.cons.injEq] at h
      exact absurd h.1 (by decide)
    | Path token htoken =>
      simp only [request_bytes, List.cons_append, List.cons.injEq] at h
      exact absurd h.1 (by decide)
  | Reservoir version hversion =>
    cases b with
    | Git url' revision' subdir' hrev' hsub' =>
      simp only [request_bytes, List.cons_append, List.cons.injEq] at h
      exact absurd h.1 (by decide)
    | Reservoir version' hversion' =>
      simp only [request_bytes, List.cons_append, List.cons.injEq, true_and] at h
      obtain ⟨heq, hrest⟩ := optional_string_delimited _ _ _ _
        (fun v hv => valid_text_short (hversion v hv))
        (fun v hv => valid_text_short (hversion' v hv)) h
      subst heq
      exact ⟨rfl, hrest⟩
    | Path token htoken =>
      simp only [request_bytes, List.cons_append, List.cons.injEq] at h
      exact absurd h.1 (by decide)
  | Path token htoken =>
    cases b with
    | Git url' revision' subdir' hrev' hsub' =>
      simp only [request_bytes, List.cons_append, List.cons.injEq] at h
      exact absurd h.1 (by decide)
    | Reservoir version hversion =>
      simp only [request_bytes, List.cons_append, List.cons.injEq] at h
      exact absurd h.1 (by decide)
    | Path token' htoken' =>
      simp only [request_bytes, List.cons_append, List.cons.injEq, true_and] at h
      obtain ⟨heq, hrest⟩ := string_bytes_delimited _ _ _ _ (valid_relative_path_short htoken)
        (valid_relative_path_short htoken') h
      subst heq
      exact ⟨rfl, hrest⟩

theorem exact_source_delimited : Delimited (fun _ => True) exact_source_bytes := by
  intro a b r s _ _ h
  cases a with
  | Git url revision subdir hrev hsub =>
    cases b with
    | Git url' revision' subdir' hrev' hsub' =>
      simp only [exact_source_bytes, List.cons_append, List.append_assoc, List.cons.injEq,
        true_and] at h
      obtain ⟨hurl, h⟩ := string_bytes_delimited _ _ _ _ (url_short url) (url_short url') h
      obtain ⟨hrevision, h⟩ := string_bytes_delimited _ _ _ _ (valid_git_revision_short hrev)
        (valid_git_revision_short hrev') h
      obtain ⟨hsubdir, hrest⟩ := optional_string_delimited _ _ _ _
        (fun v hv => valid_relative_path_short (hsub v hv))
        (fun v hv => valid_relative_path_short (hsub' v hv)) h
      have heq : url = url' := CanonicalSourceUrlV1.ext hurl
      subst heq hrevision hsubdir
      exact ⟨rfl, hrest⟩
    | Path token identity htoken =>
      simp only [exact_source_bytes, List.cons_append, List.cons.injEq] at h
      exact absurd h.1 (by decide)
  | Path token identity htoken =>
    cases b with
    | Git url' revision' subdir' hrev' hsub' =>
      simp only [exact_source_bytes, List.cons_append, List.cons.injEq] at h
      exact absurd h.1 (by decide)
    | Path token' identity' htoken' =>
      simp only [exact_source_bytes, List.cons_append, List.append_assoc, List.cons.injEq,
        true_and] at h
      obtain ⟨heq, h⟩ := string_bytes_delimited _ _ _ _ (valid_relative_path_short htoken)
        (valid_relative_path_short htoken') h
      obtain ⟨hidentity, hrest⟩ := sha_bytes_delimited _ _ _ _ trivial trivial h
      subst heq hidentity
      exact ⟨rfl, hrest⟩

theorem toolchain_delimited : Delimited (fun _ => True) toolchain_bytes := by
  intro a b r s _ _ h
  simp only [toolchain_bytes, List.append_assoc] at h
  obtain ⟨htoolchain, h⟩ := string_bytes_delimited _ _ _ _ (valid_text_short a.toolchain_valid)
    (valid_text_short b.toolchain_valid) h
  obtain ⟨hgithash, h⟩ := string_bytes_delimited _ _ _ _ (valid_git_revision_short a.githash_valid)
    (valid_git_revision_short b.githash_valid) h
  obtain ⟨hlake, h⟩ := string_bytes_delimited _ _ _ _ (valid_text_short a.lake_valid)
    (valid_text_short b.lake_valid) h
  refine ⟨?_, h⟩
  cases a
  cases b
  simp only [LeanToolchainIdentityV1.mk.injEq]
  exact ⟨htoolchain, hgithash, hlake⟩

theorem optional_toolchain_delimited : Delimited (fun _ => True) optional_toolchain_bytes := by
  have h := toolchain_delimited.option (1 : UInt8) 0 (by decide)
  intro a b r s _ _ heq
  refine h a b r s (fun _ _ => trivial) (fun _ _ => trivial) ?_
  cases a <;> cases b <;> exact heq

theorem requirement_delimited : Delimited (fun _ => True)
    fun requirement : LeanDependencyRequirementV1 =>
      hash_key_bytes requirement.key ++ request_bytes requirement.source := by
  intro a b r s _ _ h
  simp only [List.append_assoc] at h
  obtain ⟨hkey, h⟩ := hash_key_delimited _ _ _ _ trivial trivial h
  obtain ⟨hsource, h⟩ := request_delimited _ _ _ _ trivial trivial h
  refine ⟨?_, h⟩
  cases a
  cases b
  simp only [LeanDependencyRequirementV1.mk.injEq]
  exact ⟨hkey, hsource⟩

/-! ## The candidate -/

/-- **What the identity of a candidate binds.** The bytes determine every field. -/
theorem candidate_bytes_injective {a b : LeanPackageCandidateV1}
    (h : candidate_bytes a = candidate_bytes b) : a = b := by
  unfold candidate_bytes at h
  have h := List.append_cancel_left h
  obtain ⟨hkey, h⟩ := hash_key_delimited _ _ _ _ trivial trivial h
  obtain ⟨hrequested, h⟩ := request_delimited _ _ _ _ trivial trivial h
  obtain ⟨hresolved, h⟩ := exact_source_delimited _ _ _ _ trivial trivial h
  obtain ⟨hintegrity, h⟩ := optional_sha_delimited _ _ _ _ trivial trivial h
  obtain ⟨htree, h⟩ := sha_bytes_delimited _ _ _ _ trivial trivial h
  obtain ⟨hconfig, h⟩ := sha_bytes_delimited _ _ _ _ trivial trivial h
  obtain ⟨hmanifest, h⟩ := optional_sha_delimited _ _ _ _ trivial trivial h
  obtain ⟨hselected, h⟩ := sha_bytes_delimited _ _ _ _ trivial trivial h
  obtain ⟨htoolchain, h⟩ := optional_toolchain_delimited _ _ _ _ trivial trivial h
  have hbound : ∀ c : LeanPackageCandidateV1, c.dependencies.length < 2 ^ 64 := by
    intro c
    have hcount : c.dependencies.length ≤ 4096 := c.count_bounded
    omega
  obtain ⟨hlength, h⟩ := be64_delimited _ _ _ _ (hbound a) (hbound b) h
  have hdependencies : a.dependencies = b.dependencies := by
    refine (requirement_delimited.flatMap (r := []) (s := []) hlength (fun _ _ => trivial)
      (fun _ _ => trivial) ?_).1
    rw [List.append_nil, List.append_nil]
    exact h
  cases a
  cases b
  simp only [LeanPackageCandidateV1.mk.injEq]
  exact ⟨hkey, hrequested, hresolved, hdependencies, htoolchain, hintegrity, htree, hconfig,
    hmanifest, hselected⟩

end LeanBun.Resolver
