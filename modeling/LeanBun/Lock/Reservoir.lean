/-
Reservoir bindings: the exact content behind a registry version.

A binding names the registry, the package and the version that was asked for,
and the exact Git source with its digests. A binding document belongs to one
lock and is accepted only when every binding agrees with the locked package.
-/
import LeanBun.Lock.Codec

set_option autoImplicit false

namespace LeanBun.Lock

open LeanBun.Lib LeanBun.Core

def MAX_RESERVOIR_BINDINGS_V1 : ℕ := 4096
def MAX_VERSION_BYTES : ℕ := 4096

/-- The kinds this part of the crate reports. -/
inductive ReservoirBindingV1ErrorKind where
  | InvalidField
  | LimitExceeded
  | DuplicatePackage
  | MissingPackage
  | IncompatibleLock
  | NonCanonicalText
  | DigestMismatch
deriving DecidableEq

structure ReservoirBindingV1Error where
  kind : ReservoirBindingV1ErrorKind
  message : String
deriving DecidableEq

abbrev BindingResult (α : Type) := Except ReservoirBindingV1Error α

/-- `ReservoirRegistryIdentityV1`. -/
structure ReservoirRegistryIdentityV1 where
  sha256 : Sha256
deriving DecidableEq

/-- `ReservoirBindingV1` without its identity, which is a function of it. -/
structure ReservoirBindingV1 where
  registry : ReservoirRegistryIdentityV1
  package : PackageKeyV1
  requested_version : Str
  metadata_sha256 : Sha256
  resolved_url : CanonicalSourceUrlV1
  exact_commit : Str
  download_integrity : Sha256
  source_tree_sha256 : Sha256
  selected_source_identity : Sha256
  version_valid : valid_atom requested_version MAX_VERSION_BYTES false = true
  commit_valid : valid_git_revision exact_commit = true

/-- `ReservoirBindingV1::new`. -/
def ReservoirBindingV1.new (registry : ReservoirRegistryIdentityV1) (package : PackageKeyV1)
    (requested_version : Str) (metadata_sha256 : Sha256) (resolved_url : CanonicalSourceUrlV1)
    (exact_commit : Str) (download_integrity source_tree_sha256 selected_source_identity : Sha256) :
    BindingResult ReservoirBindingV1 := do
  let ⟨hversion⟩ ← ensure (valid_atom requested_version MAX_VERSION_BYTES false = true)
    ⟨.InvalidField, "requested Reservoir version is empty, oversized or contains control characters"⟩
  let ⟨hcommit⟩ ← ensure (valid_git_revision exact_commit = true)
    ⟨.InvalidField, "Reservoir exact commit must be lowercase 40-hex Git identity"⟩
  return {
    registry, package, requested_version, metadata_sha256, resolved_url, exact_commit
    download_integrity, source_tree_sha256, selected_source_identity
    version_valid := hversion
    commit_valid := hcommit }

/-- What `binding_identity` feeds to the hasher. -/
def binding_bytes (binding : ReservoirBindingV1) : List UInt8 :=
  as_bytes "leanbun-reservoir-binding-v1\x00".toList ++ (binding.registry.sha256.bytes ++
    (key_bytes binding.package ++ (string_bytes binding.requested_version ++
      (binding.metadata_sha256.bytes ++ (string_bytes binding.resolved_url.value ++
        (string_bytes binding.exact_commit ++ (binding.download_integrity.bytes ++
          (binding.source_tree_sha256.bytes ++ binding.selected_source_identity.bytes))))))))

/-- `ReservoirBindingV1::identity`. -/
def ReservoirBindingV1.identity (binding : ReservoirBindingV1) : Sha256 :=
  digest (binding_bytes binding)

/-- A binding agrees with the locked package: an exact Git source with the same
content. -/
def binding_matches_lock (binding : ReservoirBindingV1) (package : LockedLeanPackageV1) : Bool :=
  match package.resolved with
  | .Git url exact_revision _ _ _ =>
    decide (url = binding.resolved_url) && decide (exact_revision = binding.exact_commit) &&
      decide (package.download_integrity = some binding.download_integrity) &&
      decide (package.source_tree_sha256 = binding.source_tree_sha256) &&
      decide (package.selected_source_identity = binding.selected_source_identity)
  | .PathSnapshot _ _ => false

/-- `ReservoirBindingDocumentV1` without its identity, which is a function of
it. -/
structure ReservoirBindingDocumentV1 where
  lock_v1_identity : Sha256
  bindings : List ReservoirBindingV1
  bindings_present : bindings ≠ []
  count_bounded : bindings.length ≤ MAX_RESERVOIR_BINDINGS_V1
  bindings_sorted : StrictlySorted ReservoirBindingV1.package bindings

/-- The check of one binding against the lock. -/
def check_binding (lock : LeanBunLockV1) (binding : ReservoirBindingV1) : BindingResult Unit :=
  match lock.packages.find? fun package => decide (package.key = binding.package) with
  | none => .error ⟨.MissingPackage,
      "Reservoir binding package is absent from the accompanied V1 lock"⟩
  | some package =>
    if package.resolved.is_git = false then .error ⟨.IncompatibleLock,
      "Reservoir binding requires a locked exact Git source"⟩
    else if binding_matches_lock binding package then .ok ()
    else .error ⟨.IncompatibleLock,
      "Reservoir binding exact content facts differ from the accompanied V1 lock"⟩

/-- `ReservoirBindingDocumentV1::new`. -/
def ReservoirBindingDocumentV1.new (lock : LeanBunLockV1) (bindings : List ReservoirBindingV1) :
    BindingResult ReservoirBindingDocumentV1 := do
  let ⟨hcount⟩ ← ensure (bindings ≠ [] ∧ bindings.length ≤ MAX_RESERVOIR_BINDINGS_V1)
    ⟨.LimitExceeded, "Reservoir binding document must contain a bounded non-empty binding set"⟩
  let sorted := sort_by_key ReservoirBindingV1.package bindings
  let ⟨hduplicate⟩ ← ensure (adjacent_equal ReservoirBindingV1.package sorted = false)
    ⟨.DuplicatePackage, "duplicate Reservoir binding package"⟩
  let _ ← sorted.mapM (check_binding lock)
  return {
    lock_v1_identity := lock.identity
    bindings := sorted
    bindings_present := fun h => hcount.1 (List.length_eq_zero_iff.mp (by
      rw [← sort_by_key_length ReservoirBindingV1.package, show sort_by_key _ bindings = [] from h]
      rfl))
    count_bounded := by simpa [sorted] using hcount.2
    bindings_sorted := strictly_sorted_of_adjacent _ (sort_by_key_sorted _ _) hduplicate }

/-- `ReservoirBindingDocumentV1::identity`. -/
def ReservoirBindingDocumentV1.identity (document : ReservoirBindingDocumentV1) : Sha256 :=
  digest (as_bytes "leanbun-reservoir-binding-document-v1\x00".toList ++
    (document.lock_v1_identity.bytes ++ (be64 document.bindings.length ++
      document.bindings.flatMap fun binding => binding.identity.bytes)))

end LeanBun.Lock
