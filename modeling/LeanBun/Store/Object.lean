/-
Verified objects of the store.

An object is built from the plan of a tree whose digest was compared with the
candidate of the request. Its package, candidate identity, source key and tree
digest are the ones of that request, and its object digest is the digest of the
metadata of its entries.
-/
import LeanBun.Store.Entry
import LeanBun.Store.Request

set_option autoImplicit false

namespace LeanBun.Store

open LeanBun.Lib LeanBun.Core LeanBun.Lock LeanBun.Resolver

/-- The tag of an entry kind. -/
def NormalizedTreeEntryKindV1.tag : NormalizedTreeEntryKindV1 → UInt8
  | .Directory => 1
  | .File => 2

/-- `u32::to_be_bytes`. -/
def be32 (n : ℕ) : List UInt8 := [24, 16, 8, 0].map fun shift => UInt8.ofNat (n >>> shift)

/-- What `tree_digest` feeds for one entry. -/
def tree_entry_bytes (entry : NormalizedTreeEntryV1) : List UInt8 :=
  string_bytes entry.path ++ (entry.kind.tag :: (be64 entry.mode ++ (be64 entry.size ++
    optional_sha_bytes entry.sha256)))

/-- What `tree_digest` feeds to the hasher. -/
def tree_bytes (entries : List NormalizedTreeEntryV1) : List UInt8 :=
  as_bytes "leanbun-normalized-source-tree-v1\x00".toList ++ (be64 entries.length ++
    entries.flatMap tree_entry_bytes)

/-- `tree_digest`. -/
def tree_digest (entries : List NormalizedTreeEntryV1) : Sha256 := digest (tree_bytes entries)

/-- The numbers of an entry fit into a `u64`, and so does the length of its path. -/
def SmallEntry (entry : NormalizedTreeEntryV1) : Prop :=
  ShortText entry.path ∧ entry.mode < 2 ^ 64 ∧ entry.size < 2 ^ 64

theorem tree_entry_delimited : Delimited SmallEntry tree_entry_bytes := by
  rintro ⟨path, kind, mode, size, sha256⟩ ⟨path', kind', mode', size', sha256'⟩ r s
    ⟨hpath, hmode, hsize⟩ ⟨hpath', hmode', hsize'⟩ h
  simp only [tree_entry_bytes, List.append_assoc, List.cons_append] at h
  obtain ⟨hpaths, h⟩ := string_bytes_delimited _ _ _ _ hpath hpath' h
  obtain ⟨htag, h⟩ := List.cons.inj h
  obtain ⟨hmodes, h⟩ := be64_delimited _ _ _ _ hmode hmode' h
  obtain ⟨hsizes, h⟩ := be64_delimited _ _ _ _ hsize hsize' h
  obtain ⟨hdigests, hrest⟩ := optional_sha_delimited _ _ _ _ trivial trivial h
  have hkind : kind = kind' := by
    cases kind <;> cases kind' <;> first | rfl | cases htag
  dsimp only at hpaths hmodes hsizes
  exact ⟨by rw [hpaths, hkind, hmodes, hsizes, hdigests], hrest⟩

/-- The digested bytes determine the entries. -/
theorem tree_bytes_injective {entries entries' : List NormalizedTreeEntryV1}
    (hcount : entries.length < 2 ^ 64) (hcount' : entries'.length < 2 ^ 64)
    (hsmall : ∀ entry ∈ entries, SmallEntry entry) (hsmall' : ∀ entry ∈ entries', SmallEntry entry)
    (h : tree_bytes entries = tree_bytes entries') : entries = entries' := by
  unfold tree_bytes at h
  obtain ⟨hlength, h⟩ := be64_delimited _ _ _ _ hcount hcount' (List.append_cancel_left h)
  have hnil : entries.flatMap tree_entry_bytes ++ [] = entries'.flatMap tree_entry_bytes ++ [] := by
    rw [List.append_nil, List.append_nil, h]
  exact (tree_entry_delimited.flatMap hlength hsmall hsmall' hnil).1

/-- What `encode_public_metadata` writes for one entry. -/
def metadata_entry_bytes (entry : NormalizedTreeEntryV1) : List UInt8 :=
  string_bytes entry.path ++ (entry.kind.tag :: (be32 entry.mode ++ (be64 entry.size ++
    optional_sha_bytes entry.sha256)))

/-- `encode_public_metadata`. -/
def encode_public_metadata (entries : List NormalizedTreeEntryV1) : List UInt8 :=
  as_bytes "leanbun-object-v1\x00".toList ++ (be64 entries.length ++
    entries.flatMap metadata_entry_bytes)

/-- `LeanStorePublicationV1`. -/
inductive LeanStorePublicationV1 where
  | Published
  | Reused
  | Deduplicated
deriving DecidableEq

/-- `VerifiedDownloadBlobV1`. -/
structure VerifiedDownloadBlobV1 where
  sha256 : Sha256
  size : ℕ
deriving DecidableEq

/-- `VerifiedPackageObjectV1`, with the request it was built for. -/
structure VerifiedPackageObjectV1 where
  request : LeanFetchRequestV1
  object_path : Str
  entries : List NormalizedTreeEntryV1
  download : Option VerifiedDownloadBlobV1
  publication : LeanStorePublicationV1
  tree_checked : tree_digest entries = request.candidate.source_tree_sha256

/-- `check_tree`, then `build_verified`: only a tree with the digest of the
candidate becomes an object. -/
def build_verified (request : LeanFetchRequestV1) (object_path : Str)
    (entries : List NormalizedTreeEntryV1) (download : Option VerifiedDownloadBlobV1)
    (publication : LeanStorePublicationV1) : StoreResult VerifiedPackageObjectV1 := do
  let ⟨htree⟩ ← ensure (tree_digest entries = request.candidate.source_tree_sha256)
    ⟨.TreeDigestMismatch, "normalized source tree differs from the M33 candidate"⟩
  return ⟨request, object_path, entries, download, publication, htree⟩

/-- `VerifiedPackageObjectV1::package`. -/
def VerifiedPackageObjectV1.package (object : VerifiedPackageObjectV1) : PackageKeyV1 :=
  object.request.package

/-- `VerifiedPackageObjectV1::candidate_identity`. -/
def VerifiedPackageObjectV1.candidate_identity (object : VerifiedPackageObjectV1) : Sha256 :=
  object.request.candidate.identity

/-- `VerifiedPackageObjectV1::package_source_key`. -/
def VerifiedPackageObjectV1.package_source_key (object : VerifiedPackageObjectV1) :
    Option PackageSourceKeyV1 := object.request.package_source_key

/-- `VerifiedPackageObjectV1::source_tree_sha256`. -/
def VerifiedPackageObjectV1.source_tree_sha256 (object : VerifiedPackageObjectV1) : Sha256 :=
  tree_digest object.entries

/-- `VerifiedPackageObjectV1::store_object_sha256`. -/
def VerifiedPackageObjectV1.store_object_sha256 (object : VerifiedPackageObjectV1) : Sha256 :=
  digest (encode_public_metadata object.entries)

/-- `VerifiedPackageObjectV1::tree_path`. -/
def VerifiedPackageObjectV1.tree_path (object : VerifiedPackageObjectV1) : Str :=
  object.object_path ++ "/tree".toList

/-- `VerifiedPackageObjectV1::with_publication`. -/
def VerifiedPackageObjectV1.with_publication (object : VerifiedPackageObjectV1)
    (publication : LeanStorePublicationV1) : VerifiedPackageObjectV1 := { object with publication }

end LeanBun.Store
