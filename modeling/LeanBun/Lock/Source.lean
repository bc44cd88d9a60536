/-
The identity of an exact Git source.

`PackageSourceKeyV1` is a digest over the URL, the revision, the subdirectory and
the tree of a Git source. The name of the package is left out on purpose, so two
packages from one source have one key. A path snapshot has none.
-/
import LeanBun.Lock.Digest

set_option autoImplicit false

namespace LeanBun.Lock

open LeanBun.Lib LeanBun.Core

/-- `PackageSourceKeyV1`. -/
structure PackageSourceKeyV1 where
  digest : Sha256
deriving DecidableEq

/-- What `hash_git` feeds to the hasher. -/
def hash_git_bytes (url : CanonicalSourceUrlV1) (exact_revision : Str) (subdir : Option Str)
    (source_tree_sha256 : Sha256) : List UInt8 :=
  as_bytes "leanbun-package-source-v1\x00".toList ++ (string_bytes url.value ++
    (string_bytes exact_revision ++ (optional_string_bytes subdir ++ source_tree_sha256.bytes)))

/-- `hash_git`. -/
def hash_git (url : CanonicalSourceUrlV1) (exact_revision : Str) (subdir : Option Str)
    (source_tree_sha256 : Sha256) : Sha256 :=
  digest (hash_git_bytes url exact_revision subdir source_tree_sha256)

/-- `PackageSourceKeyV1::from_git`. -/
def PackageSourceKeyV1.from_git (url : CanonicalSourceUrlV1) (exact_revision : Str)
    (subdir : Option Str) (source_tree_sha256 : Sha256) : LockResult PackageSourceKeyV1 := do
  let _ ← ResolvedPackageSourceV1.git url exact_revision subdir
  return ⟨hash_git url exact_revision subdir source_tree_sha256⟩

/-- `PackageSourceKeyV1::from_resolved_source`. -/
def PackageSourceKeyV1.from_resolved_source (source : ResolvedPackageSourceV1)
    (source_tree_sha256 : Sha256) : Option PackageSourceKeyV1 :=
  match source with
  | .Git url exact_revision subdir _ _ =>
    some ⟨hash_git url exact_revision subdir source_tree_sha256⟩
  | .PathSnapshot _ _ => none

/-- `PackageSourceKeyV1::from_locked_package`. -/
def PackageSourceKeyV1.from_locked_package (package : LockedLeanPackageV1) :
    Option PackageSourceKeyV1 :=
  from_resolved_source package.resolved package.source_tree_sha256

/-- `from_git` gives the digest. -/
theorem PackageSourceKeyV1.from_git_eq {url : CanonicalSourceUrlV1} {exact_revision : Str}
    {subdir : Option Str} {source_tree_sha256 : Sha256} {key : PackageSourceKeyV1}
    (h : PackageSourceKeyV1.from_git url exact_revision subdir source_tree_sha256 = .ok key) :
    key.digest = hash_git url exact_revision subdir source_tree_sha256 := by
  unfold PackageSourceKeyV1.from_git at h
  obtain ⟨source, -, h⟩ := bind_eq_ok.mp h
  cases h
  rfl

/-- **What a source key binds.** The bytes determine the URL, the revision, the
subdirectory and the tree. -/
theorem hash_git_bytes_bind {url url' : CanonicalSourceUrlV1} {revision revision' : Str}
    {subdir subdir' : Option Str} {tree tree' : Sha256}
    (hrev : ShortText revision) (hrev' : ShortText revision')
    (hsub : ∀ v ∈ subdir, ShortText v) (hsub' : ∀ v ∈ subdir', ShortText v)
    (h : hash_git_bytes url revision subdir tree = hash_git_bytes url' revision' subdir' tree') :
    url = url' ∧ revision = revision' ∧ subdir = subdir' ∧ tree = tree' := by
  unfold hash_git_bytes at h
  have hbytes := List.append_cancel_left h
  obtain ⟨hurl, hbytes⟩ := string_bytes_delimited _ _ _ _ (url_short url) (url_short url') hbytes
  obtain ⟨hrevision, hbytes⟩ := string_bytes_delimited _ _ _ _ hrev hrev' hbytes
  obtain ⟨hsubdir, hbytes⟩ := optional_string_delimited _ _ _ _ hsub hsub' hbytes
  exact ⟨CanonicalSourceUrlV1.ext hurl, hrevision, hsubdir, Sha256.ext hbytes⟩

end LeanBun.Lock
