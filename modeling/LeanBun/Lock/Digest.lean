/-
What the graph digest binds.

`hash_graph` concatenates the packages of a lock. Every field in the head of a
package is delimited: strings carry their length, options a tag byte, digests
have a fixed width. The edge list and the provenance list carry no count, and
that is the one place where two package lists can have the same bytes: an edge
`("", name)` with a sixteen-byte name is thirty-two bytes long, as a provenance
digest is.

So the bytes bind everything once the counts are known. `graph_bytes_bind_iff`
states it exactly.
-/
import LeanBun.Lock.Graph

set_option autoImplicit false

namespace LeanBun.Lock

open LeanBun.Lib LeanBun.Core

/-! ## Delimited fields -/

theorem valid_relative_path_length {value : Str} {maximum : ℕ}
    (h : valid_relative_path value maximum = true) : byte_len value ≤ maximum := by
  unfold valid_relative_path at h
  simp only [Bool.and_eq_true] at h
  exact valid_atom_length h.1.1

theorem valid_portable_path_length {value : Str} (h : valid_portable_path value = true) :
    byte_len value ≤ MAX_TEXT_BYTES := by
  unfold valid_portable_path at h
  simp only [Bool.and_eq_true] at h
  exact valid_relative_path_length h.2

/-- A parsed URL is no longer than the text it was parsed from. -/
theorem strip_dot_git_length (value : Str) : byte_len (strip_dot_git value) ≤ byte_len value := by
  unfold strip_dot_git
  split
  · have hsplit := List.take_append_drop (value.length - 4) value
    have hlen := byte_len_append (value.take (value.length - 4)) (value.drop (value.length - 4))
    rw [hsplit] at hlen
    omega
  · exact le_refl _

theorem url_short (url : CanonicalSourceUrlV1) : ShortText url.value := by
  obtain ⟨raw, hraw⟩ := url.parsed
  obtain ⟨hatom, hvalue, -⟩ := parse_source_url_cases hraw
  have hlen := valid_atom_length hatom
  have hstrip := strip_dot_git_length raw
  rw [← hvalue] at hstrip
  simp only [ShortText, MAX_TEXT_BYTES] at hlen ⊢
  omega

/-! ## Packages -/

theorem key_bytes_delimited : Delimited (fun _ => True) key_bytes := by
  intro a b r s _ _ h
  have hlen : ∀ k : PackageKeyV1, ShortText k.scope ∧ ShortText k.name := by
    intro k
    have h1 := valid_atom_length k.scope_valid
    have h2 := valid_atom_length k.name_valid
    simp only [ShortText, MAX_NAME_BYTES] at h1 h2 ⊢
    exact ⟨by omega, by omega⟩
  simp only [key_bytes, List.append_assoc] at h
  obtain ⟨hscope, h⟩ := string_bytes_delimited _ _ _ _ (hlen a).1 (hlen b).1 h
  obtain ⟨hname, h⟩ := string_bytes_delimited _ _ _ _ (hlen a).2 (hlen b).2 h
  exact ⟨PackageKeyV1.ext hscope hname, h⟩

theorem requested_source_delimited : Delimited (fun _ => True) requested_source_bytes := by
  intro a b r s _ _ h
  cases a with
  | Git url revision hvalid =>
    cases b with
    | Git url' revision' hvalid' =>
      simp only [requested_source_bytes, List.cons_append, List.append_assoc, List.cons.injEq,
        true_and] at h
      obtain ⟨hurl, h⟩ := string_bytes_delimited _ _ _ _ (url_short url) (url_short url') h
      have hshort : ∀ o : Option Str, (∀ v ∈ o, valid_atom v MAX_TEXT_BYTES false = true) →
          ∀ v ∈ o, ShortText v := by
        intro o ho v hv
        have hlen := valid_atom_length (ho v hv)
        simp only [ShortText, MAX_TEXT_BYTES] at hlen ⊢
        omega
      obtain ⟨hrev, hrest⟩ :=
        optional_string_delimited _ _ _ _ (hshort _ hvalid) (hshort _ hvalid') h
      have heq : url = url' := CanonicalSourceUrlV1.ext hurl
      subst heq hrev
      exact ⟨rfl, hrest⟩
    | PathSnapshot token hvalid' =>
      simp only [requested_source_bytes, List.cons_append, List.cons.injEq] at h
      exact absurd h.1 (by decide)
  | PathSnapshot token hvalid =>
    cases b with
    | Git url revision hvalid' =>
      simp only [requested_source_bytes, List.cons_append, List.cons.injEq] at h
      exact absurd h.1 (by decide)
    | PathSnapshot token' hvalid' =>
      simp only [requested_source_bytes, List.cons_append, List.cons.injEq, true_and] at h
      have hlen := valid_portable_path_length hvalid
      have hlen' := valid_portable_path_length hvalid'
      simp only [MAX_TEXT_BYTES] at hlen hlen'
      obtain ⟨htoken, hrest⟩ := string_bytes_delimited token token' r s
        (by unfold ShortText; omega) (by unfold ShortText; omega) h
      subst htoken
      exact ⟨rfl, hrest⟩

theorem resolved_source_delimited : Delimited (fun _ => True) resolved_source_bytes := by
  intro a b r s _ _ h
  cases a with
  | Git url revision subdir hrev hsub =>
    cases b with
    | Git url' revision' subdir' hrev' hsub' =>
      simp only [resolved_source_bytes, List.cons_append, List.append_assoc, List.cons.injEq,
        true_and] at h
      obtain ⟨hurl, h⟩ := string_bytes_delimited _ _ _ _ (url_short url) (url_short url') h
      have hrevision : ∀ v : Str, valid_git_revision v = true → ShortText v := by
        intro v hv
        simp only [valid_git_revision, Bool.and_eq_true, decide_eq_true_eq] at hv
        unfold ShortText
        omega
      obtain ⟨hrevs, h⟩ :=
        string_bytes_delimited _ _ _ _ (hrevision _ hrev) (hrevision _ hrev') h
      have hshort : ∀ o : Option Str,
          (∀ v ∈ o, valid_relative_path v MAX_SUBDIR_BYTES = true) → ∀ v ∈ o, ShortText v := by
        intro o ho v hv
        have hlen := valid_relative_path_length (ho v hv)
        simp only [ShortText, MAX_SUBDIR_BYTES] at hlen ⊢
        omega
      obtain ⟨hsubs, hrest⟩ :=
        optional_string_delimited _ _ _ _ (hshort _ hsub) (hshort _ hsub') h
      have heq : url = url' := CanonicalSourceUrlV1.ext hurl
      subst heq hrevs hsubs
      exact ⟨rfl, hrest⟩
    | PathSnapshot token hvalid' =>
      simp only [resolved_source_bytes, List.cons_append, List.cons.injEq] at h
      exact absurd h.1 (by decide)
  | PathSnapshot token hvalid =>
    cases b with
    | Git url revision subdir hrev hsub =>
      simp only [resolved_source_bytes, List.cons_append, List.cons.injEq] at h
      exact absurd h.1 (by decide)
    | PathSnapshot token' hvalid' =>
      simp only [resolved_source_bytes, List.cons_append, List.cons.injEq, true_and] at h
      have hlen := valid_portable_path_length hvalid
      have hlen' := valid_portable_path_length hvalid'
      simp only [MAX_TEXT_BYTES] at hlen hlen'
      obtain ⟨htoken, hrest⟩ := string_bytes_delimited token token' r s
        (by unfold ShortText; omega) (by unfold ShortText; omega) h
      subst htoken
      exact ⟨rfl, hrest⟩

/-- The number of edges and of provenance digests of each package. -/
def edge_counts (packages : List LockedLeanPackageV1) : List (ℕ × ℕ) :=
  packages.map fun package => (package.dependencies.length, package.provenance_digests.length)

/-- **One package.** Two packages with the same counts, each followed by
anything, are cut at the same place. -/
theorem package_bytes_cut {a b : LockedLeanPackageV1} {r s : List UInt8}
    (hdeps : a.dependencies.length = b.dependencies.length)
    (hprov : a.provenance_digests.length = b.provenance_digests.length)
    (h : package_bytes a ++ r = package_bytes b ++ s) : a = b ∧ r = s := by
  simp only [package_bytes, package_head_bytes, List.append_assoc] at h
  obtain ⟨hkey, h⟩ := key_bytes_delimited _ _ _ _ trivial trivial h
  obtain ⟨hreq, h⟩ := requested_source_delimited _ _ _ _ trivial trivial h
  obtain ⟨hres, h⟩ := resolved_source_delimited _ _ _ _ trivial trivial h
  obtain ⟨hint, h⟩ := optional_sha_delimited _ _ _ _ trivial trivial h
  obtain ⟨htree, h⟩ := sha_bytes_delimited _ _ _ _ trivial trivial h
  obtain ⟨hconfig, h⟩ := sha_bytes_delimited _ _ _ _ trivial trivial h
  obtain ⟨hman, h⟩ := optional_sha_delimited _ _ _ _ trivial trivial h
  obtain ⟨hsel, h⟩ := sha_bytes_delimited _ _ _ _ trivial trivial h
  obtain ⟨hds, h⟩ :=
    key_bytes_delimited.flatMap hdeps (fun _ _ => trivial) (fun _ _ => trivial) h
  obtain ⟨hps, h⟩ :=
    sha_bytes_delimited.flatMap hprov (fun _ _ => trivial) (fun _ _ => trivial) h
  refine ⟨?_, h⟩
  cases a
  cases b
  simp only [LockedLeanPackageV1.mk.injEq]
  exact ⟨hkey, hreq, hres, hint, htree, hconfig, hman, hds, hps, hsel⟩

/-- **Package lists with the same counts.** -/
theorem packages_cut {as bs : List LockedLeanPackageV1} (hcounts : edge_counts as = edge_counts bs)
    (h : as.flatMap package_bytes = bs.flatMap package_bytes) : as = bs := by
  induction as generalizing bs with
  | nil =>
    cases bs with
    | nil => rfl
    | cons b bs => simp [edge_counts] at hcounts
  | cons a as ih =>
    cases bs with
    | nil => simp [edge_counts] at hcounts
    | cons b bs =>
      simp only [edge_counts, List.map_cons, List.cons.injEq, Prod.mk.injEq] at hcounts
      obtain ⟨⟨hdeps, hprov⟩, hcounts⟩ := hcounts
      rw [List.flatMap_cons, List.flatMap_cons] at h
      obtain ⟨hab, h⟩ := package_bytes_cut hdeps hprov h
      rw [hab, ih hcounts h]

/-- **What the graph digest binds.** Two accepted locks that feed the same bytes
to the hasher have the same packages exactly when they have as many packages,
and the packages as many edges and provenance digests. -/
theorem graph_bytes_bind_iff (a b : LeanBunLockV1)
    (h : graph_bytes a.packages = graph_bytes b.packages) :
    a.packages = b.packages ↔ edge_counts a.packages = edge_counts b.packages := by
  constructor
  · intro hpackages
    rw [hpackages]
  · intro hcounts
    unfold graph_bytes at h
    exact packages_cut hcounts (List.append_cancel_left h)

/-! ## Two locks with the same bytes -/

/-- A package from a path snapshot with the given edges and provenance. -/
def snapshot_package (key : PackageKeyV1) (dependencies : List PackageKeyV1)
    (provenance_digests : List Sha256) (hcounts : dependencies.length ≤ MAX_PACKAGE_DEPENDENCIES_V1 ∧
      provenance_digests.length ≤ MAX_PACKAGE_DEPENDENCIES_V1)
    (hdeps : StrictlySorted id dependencies) (hself : key ∉ dependencies)
    (hprov : StrictlySorted Sha256.key provenance_digests) (hne : provenance_digests ≠ []) :
    LockedLeanPackageV1 :=
  ⟨key, .PathSnapshot "vendor".toList (by decide), .PathSnapshot "vendor".toList (by decide), none,
    Sha256.repeated 2, Sha256.repeated 3, none, dependencies, provenance_digests,
    Sha256.repeated 6, hcounts, by decide, by decide, hdeps, hself, hprov, hne⟩

def app_key : PackageKeyV1 := ⟨[], "app".toList, no_scope_valid, by decide⟩

/-- Sixteen bytes, so that the edge to this key is as long as a digest. -/
def base_key : PackageKeyV1 := ⟨[], "base-of-packages".toList, no_scope_valid, by decide⟩

/-- The bytes of the edge to `base_key`, read as a digest. -/
def edge_digest : Sha256 := ⟨key_bytes base_key, by decide⟩

def base_package : LockedLeanPackageV1 :=
  snapshot_package base_key [] [Sha256.repeated 5] five_digest_counted no_keys_sorted (by decide)
    five_digest_sorted five_digest_present

/-- `app` depends on `base-of-packages`. -/
def lock_with_edge : LeanBunLockV1 :=
  ⟨"lean4".toList, List.replicate 40 '1', "5.0.0".toList, Sha256.repeated 8,
    Sha256.repeated 9,
    [snapshot_package app_key [base_key] [Sha256.repeated 5] (by decide) (by decide)
      (by decide) (by decide) (by decide), base_package],
    _, lean4_valid, ones_revision_valid, lake_five_valid, by decide, by decide, by decide, rfl⟩

/-- `app` depends on nothing and has one more provenance digest. -/
def lock_without_edge : LeanBunLockV1 :=
  ⟨"lean4".toList, List.replicate 40 '1', "5.0.0".toList, Sha256.repeated 8,
    Sha256.repeated 9,
    [snapshot_package app_key [] [edge_digest, Sha256.repeated 5] (by decide) no_keys_sorted
      (by decide) (by decide) (by decide), base_package],
    _, lean4_valid, ones_revision_valid, lake_five_valid, by decide, by decide, by decide, rfl⟩

/-- Two accepted locks that differ in a dependency edge and share their digest. -/
theorem graph_bytes_collide :
    graph_bytes lock_with_edge.packages = graph_bytes lock_without_edge.packages ∧
      lock_with_edge.packages ≠ lock_without_edge.packages := by
  constructor
  · decide +kernel
  · decide

/-- The two locks differ because their counts do. -/
theorem graph_bytes_bind_edges : lock_with_edge.packages = lock_without_edge.packages ↔
    edge_counts lock_with_edge.packages = edge_counts lock_without_edge.packages :=
  graph_bytes_bind_iff lock_with_edge lock_without_edge (by decide +kernel)

end LeanBun.Lock
