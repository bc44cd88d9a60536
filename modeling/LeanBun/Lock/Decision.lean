/-
Path decisions: where each locked package of a generation is placed.

A decision names a package, the source identity that was selected for it among
its provenance layers, the final path and the digests of the object that goes
there. A decision set has one decision for every package of a lock, in the order
of the lock.
-/
import LeanBun.Lock.Graph

set_option autoImplicit false

namespace LeanBun.Lock

open LeanBun.Lib LeanBun.Core

def MAX_PATH_PROVENANCE_ENTRIES_V1 : ℕ := MAX_LOCK_PACKAGES_V1 * 3

/-! ## Provenance -/

/-- `PackagePathProvenanceKindV1`. -/
inductive PackagePathProvenanceKindV1 where
  | Manifest
  | WorkspaceOverride
  | RuntimeOverride
deriving DecidableEq

/-- The layer as `derive(Ord)` and the hasher see it. -/
def PackagePathProvenanceKindV1.rank : PackagePathProvenanceKindV1 → ℕ
  | .Manifest => 0
  | .WorkspaceOverride => 1
  | .RuntimeOverride => 2

/-- `PackagePathProvenanceV1`. -/
structure PackagePathProvenanceV1 where
  package : PackageKeyV1
  kind : PackagePathProvenanceKindV1
  source_identity : Sha256
  bun_generated : Bool
deriving DecidableEq

/-- `PackagePathProvenanceV1::manifest`. -/
def PackagePathProvenanceV1.manifest (package : PackageKeyV1) (source_identity : Sha256) :
    PackagePathProvenanceV1 := ⟨package, .Manifest, source_identity, false⟩

/-- `PackagePathProvenanceV1::workspace_override`. -/
def PackagePathProvenanceV1.workspace_override (package : PackageKeyV1) (source_identity : Sha256) :
    PackagePathProvenanceV1 := ⟨package, .WorkspaceOverride, source_identity, false⟩

/-- `PackagePathProvenanceV1::bun_generated_runtime`. -/
def PackagePathProvenanceV1.bun_generated_runtime (package : PackageKeyV1)
    (source_identity : Sha256) : PackagePathProvenanceV1 :=
  ⟨package, .RuntimeOverride, source_identity, true⟩

/-- The order of the entries: package, then layer. -/
def provenance_key (entry : PackagePathProvenanceV1) : Lex (PackageKeyV1 × ℕ) :=
  toLex (entry.package, entry.kind.rank)

/-- What `hash_provenance_entries` feeds to the hasher. -/
def provenance_bytes (entries : List PackagePathProvenanceV1) : List UInt8 :=
  as_bytes "leanbun-path-provenance-set-v1\x00".toList ++ entries.flatMap fun entry =>
    key_bytes entry.package ++ (UInt8.ofNat entry.kind.rank ::
      (entry.source_identity.bytes ++ [if entry.bun_generated then 1 else 0]))

/-- `PackagePathProvenanceSetV1` without its digest, which is a function of it. -/
structure PackagePathProvenanceSetV1 where
  entries : List PackagePathProvenanceV1
  count_bounded : entries.length ≤ MAX_PATH_PROVENANCE_ENTRIES_V1
  entries_sorted : StrictlySorted provenance_key entries
  runtime_generated : ∀ entry ∈ entries, entry.kind = .RuntimeOverride → entry.bun_generated = true
deriving DecidableEq

/-- `PackagePathProvenanceSetV1::digest`. -/
def PackagePathProvenanceSetV1.digest (provenance : PackagePathProvenanceSetV1) : Sha256 :=
  Core.digest (provenance_bytes provenance.entries)

/-- `PackagePathProvenanceSetV1::new`. -/
def PackagePathProvenanceSetV1.new (entries : List PackagePathProvenanceV1) :
    LockResult PackagePathProvenanceSetV1 := do
  let ⟨hcount⟩ ← require (entries.length ≤ MAX_PATH_PROVENANCE_ENTRIES_V1)
    .LimitExceeded "path provenance count exceeds limit"
  let sorted := sort_by_key provenance_key entries
  let ⟨hduplicate⟩ ← require (adjacent_equal provenance_key sorted = false)
    .DuplicateProvenance "a package has duplicate provenance in one layer"
  let ⟨hruntime⟩ ← require
    (∀ entry ∈ sorted, entry.kind = .RuntimeOverride → entry.bun_generated = true)
    .IncompatibleProvenance "runtime provenance must be Bun-generated"
  return {
    entries := sorted
    count_bounded := by simpa [sorted] using hcount
    entries_sorted := strictly_sorted_of_adjacent _ (sort_by_key_sorted _ _) hduplicate
    runtime_generated := hruntime }

/-! ## Paths -/

/-- `valid_normalized_absolute_path`. -/
def valid_normalized_absolute_path (value : Str) : Bool :=
  decide (value.head? = some '/') && decide (value ≠ ['/']) &&
    (split '/' value.tail).all direct_segment

/-- What `validate_contained_absolute_path` accepts. -/
def valid_contained_absolute_path (root candidate : Str) : Bool :=
  valid_normalized_absolute_path root && valid_normalized_absolute_path candidate &&
    decide (candidate ≠ root) && (root ++ ['/']).isPrefixOf candidate

/-- `validate_contained_absolute_path`. -/
def validate_contained_absolute_path (root candidate : Str) :
    LockResult (PLift (valid_contained_absolute_path root candidate = true)) := do
  let ⟨hnormal⟩ ← require
    ((valid_normalized_absolute_path root && valid_normalized_absolute_path candidate) = true)
    .InvalidField "generation root and final path must be normalized absolute paths"
  let ⟨hinside⟩ ← require
    ((decide (candidate ≠ root) && (root ++ ['/']).isPrefixOf candidate) = true)
    .PathOutsideGenerationRoot "final path is outside generation root"
  return ⟨by rw [valid_contained_absolute_path, hnormal, Bool.and_assoc, hinside]; rfl⟩

/-! ## Decisions -/

/-- `PackagePathDecisionV1` without its digest, which is a function of it. -/
structure PackagePathDecisionV1 where
  package : PackageKeyV1
  provenance_set_sha256 : Sha256
  selected_source_identity : Sha256
  final_path : Str
  store_object_sha256 : Sha256
  source_tree_sha256 : Sha256
  generation : Sha256
  path_contained : ∃ generation_root,
    valid_contained_absolute_path generation_root final_path = true

/-- What `hash_decision` feeds to the hasher. -/
def decision_bytes (decision : PackagePathDecisionV1) : List UInt8 :=
  as_bytes "leanbun-path-decision-v1\x00".toList ++ (key_bytes decision.package ++
    (decision.provenance_set_sha256.bytes ++ (decision.selected_source_identity.bytes ++
      (string_bytes decision.final_path ++ (decision.store_object_sha256.bytes ++
        (decision.source_tree_sha256.bytes ++ decision.generation.bytes))))))

/-- `PackagePathDecisionV1::decision_sha256`. -/
def PackagePathDecisionV1.decision_sha256 (decision : PackagePathDecisionV1) : Sha256 :=
  digest (decision_bytes decision)

/-- The layers that offer the selected source of a package. -/
def matching_provenance (provenance : PackagePathProvenanceSetV1) (package : PackageKeyV1)
    (selected_source_identity : Sha256) : ℕ :=
  provenance.entries.countP fun entry =>
    decide (entry.package = package) && decide (entry.source_identity = selected_source_identity)

/-- `PackagePathDecisionV1::new`. -/
def PackagePathDecisionV1.new (package : PackageKeyV1) (provenance : PackagePathProvenanceSetV1)
    (selected_source_identity : Sha256) (generation_root final_path : Str)
    (store_object_sha256 source_tree_sha256 generation : Sha256) :
    LockResult PackagePathDecisionV1 := do
  let _ ← require (matching_provenance provenance package selected_source_identity ≠ 0)
    .IncompatibleProvenance "selected source identity has no matching provenance"
  let _ ← require (¬1 < matching_provenance provenance package selected_source_identity)
    .AmbiguousSelection "selected source identity is ambiguous across provenance layers"
  let ⟨hpath⟩ ← validate_contained_absolute_path generation_root final_path
  return {
    package
    provenance_set_sha256 := provenance.digest
    selected_source_identity, final_path, store_object_sha256, source_tree_sha256, generation
    path_contained := ⟨generation_root, hpath⟩ }

/-! ## Decision sets -/

/-- `PackagePathDecisionSetV1` without its digest, which is a function of it. -/
structure PackagePathDecisionSetV1 where
  decisions : List PackagePathDecisionV1
  decisions_sorted : StrictlySorted PackagePathDecisionV1.package decisions

/-- `PackagePathDecisionSetV1::digest`. -/
def PackagePathDecisionSetV1.digest (set : PackagePathDecisionSetV1) : Sha256 :=
  Core.digest (as_bytes "leanbun-path-decision-set-v1\x00".toList ++
    set.decisions.flatMap fun decision => decision.decision_sha256.bytes)

/-- `{scope}/{name}` in the messages. -/
def key_text (key : PackageKeyV1) : String :=
  String.ofList key.scope ++ "/" ++ String.ofList key.name

/-- `left.difference(&right).next()`, for the keys of two lists. -/
def first_difference (left right : List PackageKeyV1) : Option PackageKeyV1 :=
  (sort_by_key id left).find? fun key => decide (key ∉ right)

/-- `PackagePathDecisionSetV1::new`. -/
def PackagePathDecisionSetV1.new (lock : LeanBunLockV1) (decisions : List PackagePathDecisionV1) :
    LockResult PackagePathDecisionSetV1 := do
  let sorted := sort_by_key PackagePathDecisionV1.package decisions
  let ⟨hduplicate⟩ ← require (adjacent_equal PackagePathDecisionV1.package sorted = false)
    .DuplicateDecision "package has more than one final path decision"
  let locked := lock.packages.map LockedLeanPackageV1.key
  let decided := sorted.map PackagePathDecisionV1.package
  match first_difference locked decided with
  | some package => .error ⟨.MissingDecision, "missing final path decision for " ++ key_text package⟩
  | none =>
    match first_difference decided locked with
    | some package => .error ⟨.ExtraPackage, "decision contains extra package " ++ key_text package⟩
    | none => do
      let _ ← require (∀ pair ∈ lock.packages.zip sorted,
          pair.1.selected_source_identity = pair.2.selected_source_identity ∧
            pair.1.source_tree_sha256 = pair.2.source_tree_sha256)
        .IncompatibleProvenance "decision does not match locked source identity or tree digest"
      return {
        decisions := sorted
        decisions_sorted := strictly_sorted_of_adjacent _ (sort_by_key_sorted _ _) hduplicate }

end LeanBun.Lock
