/-
The values of the resolver: sources, candidates, requests and graphs.

A requirement asks for a package key from a source; a candidate offers a package
key from an exact source, together with its own requirements. A request carries
the root declaration, perhaps an active lock, and a mode. The identities of
candidates and graphs are digests over every field, with counts.
-/
import LeanBun.Bridge.Declaration
import LeanBun.Lock.Graph

set_option autoImplicit false

namespace LeanBun.Resolver

open LeanBun.Lib LeanBun.Core LeanBun.Lock LeanBun.Bridge

def MAX_PACKAGES_V1 : ℕ := 4096
def MAX_DEPENDENCIES_V1 : ℕ := 4096
def MAX_TEXT_BYTES : ℕ := 4096
def MAX_GRAPH_DEPTH_V1 : ℕ := 128

/-! ## Errors -/

inductive LeanResolutionErrorKind where
  | InvalidField
  | LimitExceeded
  | ActiveLockRequired
  | ActiveLockMismatch
  | DuplicateCandidateIdentity
  | DuplicateUpdateTarget
  | UnknownUpdateTarget
  | MissingTransitiveDeclaration
  | AmbiguousCandidate
  | SourceKindConflict
  | SourceValueConflict
  | ToolchainCandidateConflict
  | DependencyCycle
  | GraphTooDeep
  | FrozenGraphDrift
  | UpdateEscapesImpactClosure
deriving DecidableEq

/-- `LeanResolutionOriginV1`: where a requirement was declared. -/
inductive LeanResolutionOriginV1 where
  | Root (declaration_index : ℕ)
  | Package (package : PackageKeyV1) (declaration_index : ℕ)
deriving DecidableEq

/-- `LeanResolutionConflictV1`. -/
structure LeanResolutionConflictV1 where
  package : PackageKeyV1
  winner : LeanResolutionOriginV1
  conflicting : LeanResolutionOriginV1
  selected_candidate : Sha256
deriving DecidableEq

structure LeanResolutionError where
  kind : LeanResolutionErrorKind
  message : String
  conflict : Option LeanResolutionConflictV1
deriving DecidableEq

abbrev ResolveResult (α : Type) := Except LeanResolutionError α

/-- `LeanResolutionError::new`. -/
def LeanResolutionError.new (kind : LeanResolutionErrorKind) (message : String) :
    LeanResolutionError := ⟨kind, message, none⟩

def invalid (message : String) : LeanResolutionError := .new .InvalidField message
def limit (message : String) : LeanResolutionError := .new .LimitExceeded message

/-- `{scope}/{name}` in the messages. -/
def key_label (key : PackageKeyV1) : String :=
  String.ofList key.scope ++ "/" ++ String.ofList key.name

/-! ## Text checks -/

/-- What `validate_text` accepts: ASCII control characters are refused, other
control characters are not. -/
def valid_text (value : Str) : Bool :=
  !(value.isEmpty || decide (MAX_TEXT_BYTES < byte_len value) ||
    value.any fun c => decide (c.toNat < 0x20) || decide (c.toNat = 0x7f))

/-- What `validate_relative_path` accepts. -/
def valid_relative_path (value : Str) : Bool :=
  valid_text value && !(decide (value.head? = some '/') || value.contains '\\' ||
    decide ((as_bytes value)[1]? = some 58)) && (split '/' value).all direct_segment

/-- `validate_text`. -/
def validate_text (label : String) (value : Str) : ResolveResult (PLift (valid_text value = true)) :=
  ensure _ (invalid (label ++ " is invalid"))

/-- `validate_relative_path`. -/
def validate_relative_path (label : String) (value : Str) :
    ResolveResult (PLift (valid_relative_path value = true)) := do
  let _ ← validate_text label value
  ensure _ (invalid (label ++ " must be a normalized relative path"))

/-- A check of a value that may be absent. -/
def validate_optional {P : Str → Bool} (check : (v : Str) → ResolveResult (PLift (P v = true))) :
    (value : Option Str) → ResolveResult (PLift (∀ v ∈ value, P v = true))
  | none => .ok ⟨none_passes⟩
  | some v => do
    let ⟨hv⟩ ← check v
    return ⟨some_passes hv⟩

/-- `LeanToolchainIdentityV1`. -/
structure LeanToolchainIdentityV1 where
  lean_toolchain : Str
  compiler_githash : Str
  lake_version : Str
  toolchain_valid : valid_text lean_toolchain = true
  githash_valid : valid_git_revision compiler_githash = true
  lake_valid : valid_text lake_version = true

instance : DecidableEq LeanToolchainIdentityV1 := fun a b =>
  decidable_of_iff (a.lean_toolchain = b.lean_toolchain ∧
      a.compiler_githash = b.compiler_githash ∧ a.lake_version = b.lake_version)
    (by cases a; cases b; simp)

/-! ## Sources -/

/-- `LeanSourceRequestV1`. -/
inductive LeanSourceRequestV1 where
  | Git (url : CanonicalSourceUrlV1) (revision subdir : Option Str)
      (revision_valid : ∀ v ∈ revision, valid_text v = true)
      (subdir_valid : ∀ v ∈ subdir, valid_relative_path v = true)
  | Reservoir (version : Option Str) (version_valid : ∀ v ∈ version, valid_text v = true)
  | Path (portable_path_token : Str) (token_valid : valid_relative_path portable_path_token = true)
deriving DecidableEq

/-- `LeanSourceRequestV1::kind_tag`. -/
def LeanSourceRequestV1.kind_tag : LeanSourceRequestV1 → ℕ
  | .Git _ _ _ _ _ => 1
  | .Reservoir _ _ => 2
  | .Path _ _ => 3

/-- `LeanSourceRequestV1::git`. -/
def LeanSourceRequestV1.git (url : CanonicalSourceUrlV1) (revision subdir : Option Str) :
    ResolveResult LeanSourceRequestV1 := do
  let ⟨hrevision⟩ ← validate_optional (validate_text "requested Git revision") revision
  let ⟨hsubdir⟩ ← validate_optional (validate_relative_path "requested Git subdirectory") subdir
  return .Git url revision subdir hrevision hsubdir

/-- `LeanSourceRequestV1::reservoir`. -/
def LeanSourceRequestV1.reservoir (version : Option Str) : ResolveResult LeanSourceRequestV1 := do
  let ⟨hversion⟩ ← validate_optional (validate_text "Reservoir version") version
  return .Reservoir version hversion

/-- `LeanSourceRequestV1::path`. -/
def LeanSourceRequestV1.path (token : Str) : ResolveResult LeanSourceRequestV1 := do
  let ⟨htoken⟩ ← validate_relative_path "path source token" token
  return .Path token htoken

/-- `LeanSourceRequestV1::from_root`. -/
def LeanSourceRequestV1.from_root (dependency : LakeRootDependencyV1) :
    ResolveResult LeanSourceRequestV1 :=
  match dependency.source with
  | .Git url revision subdir =>
    match CanonicalSourceUrlV1.parse url with
    | .error error => .error (invalid error.message)
    | .ok url => LeanSourceRequestV1.git url revision subdir
  | .Path directory => LeanSourceRequestV1.path directory
  | .Reservoir => LeanSourceRequestV1.reservoir dependency.version

/-- `LeanExactSourceV1`. -/
inductive LeanExactSourceV1 where
  | Git (url : CanonicalSourceUrlV1) (exact_revision : Str) (subdir : Option Str)
      (revision_valid : valid_git_revision exact_revision = true)
      (subdir_valid : ∀ v ∈ subdir, valid_relative_path v = true)
  | Path (portable_path_token : Str) (source_identity : Sha256)
      (token_valid : valid_relative_path portable_path_token = true)

instance : DecidableEq LeanExactSourceV1
  | .Git url revision subdir _ _, .Git url' revision' subdir' _ _ =>
    decidable_of_iff (url = url' ∧ revision = revision' ∧ subdir = subdir') (by simp)
  | .Path token identity _, .Path token' identity' _ =>
    decidable_of_iff (token = token' ∧ identity = identity') (by simp)
  | .Git .., .Path .. => isFalse (by simp)
  | .Path .., .Git .. => isFalse (by simp)

/-! ## Candidates -/

/-- `LeanDependencyRequirementV1`. -/
structure LeanDependencyRequirementV1 where
  key : PackageKeyV1
  source : LeanSourceRequestV1
deriving DecidableEq

/-- What `validate_source_pair` accepts. -/
def valid_source_pair (requested : LeanSourceRequestV1) (resolved : LeanExactSourceV1)
    (download_integrity : Option Sha256) (selected_source_identity : Sha256) : Bool :=
  match requested, resolved with
  | .Git url _ subdir _ _, .Git resolved_url _ resolved_subdir _ _ =>
    decide (url = resolved_url) && decide (subdir = resolved_subdir) && download_integrity.isSome
  | .Reservoir _ _, .Git _ _ _ _ _ => download_integrity.isSome
  | .Path token _, .Path resolved_token source_identity _ =>
    decide (token = resolved_token) && download_integrity.isNone &&
      decide (source_identity = selected_source_identity)
  | _, _ => false

/-- `LeanPackageCandidateV1` without its identity, which is a function of it. -/
structure LeanPackageCandidateV1 where
  key : PackageKeyV1
  requested : LeanSourceRequestV1
  resolved : LeanExactSourceV1
  dependencies : List LeanDependencyRequirementV1
  toolchain_candidate : Option LeanToolchainIdentityV1
  download_integrity : Option Sha256
  source_tree_sha256 : Sha256
  config_sha256 : Sha256
  manifest_sha256 : Option Sha256
  selected_source_identity : Sha256
  count_bounded : dependencies.length ≤ MAX_DEPENDENCIES_V1
  pair_valid : valid_source_pair requested resolved download_integrity selected_source_identity = true
deriving DecidableEq

/-! ## The bytes under the identities -/

/-- `hash_key`. -/
def hash_key_bytes (key : PackageKeyV1) : List UInt8 := string_bytes key.scope ++ string_bytes key.name

/-- `hash_request`. -/
def request_bytes : LeanSourceRequestV1 → List UInt8
  | .Git url revision subdir _ _ =>
    1 :: (string_bytes url.value ++ (optional_string_bytes revision ++ optional_string_bytes subdir))
  | .Reservoir version _ => 2 :: optional_string_bytes version
  | .Path portable_path_token _ => 3 :: string_bytes portable_path_token

/-- `hash_exact_source`. -/
def exact_source_bytes : LeanExactSourceV1 → List UInt8
  | .Git url exact_revision subdir _ _ =>
    1 :: (string_bytes url.value ++ (string_bytes exact_revision ++ optional_string_bytes subdir))
  | .Path portable_path_token source_identity _ =>
    2 :: (string_bytes portable_path_token ++ source_identity.bytes)

/-- `hash_toolchain`. -/
def toolchain_bytes (toolchain : LeanToolchainIdentityV1) : List UInt8 :=
  string_bytes toolchain.lean_toolchain ++ (string_bytes toolchain.compiler_githash ++
    string_bytes toolchain.lake_version)

/-- `hash_optional_toolchain`. -/
def optional_toolchain_bytes : Option LeanToolchainIdentityV1 → List UInt8
  | some toolchain => 1 :: toolchain_bytes toolchain
  | none => [0]

/-- What `candidate_identity` feeds to the hasher. -/
def candidate_bytes (candidate : LeanPackageCandidateV1) : List UInt8 :=
  as_bytes "leanbun-resolution-candidate-v1\x00".toList ++ (hash_key_bytes candidate.key ++
    (request_bytes candidate.requested ++ (exact_source_bytes candidate.resolved ++
      (optional_sha_bytes candidate.download_integrity ++ (candidate.source_tree_sha256.bytes ++
        (candidate.config_sha256.bytes ++ (optional_sha_bytes candidate.manifest_sha256 ++
          (candidate.selected_source_identity.bytes ++
            (optional_toolchain_bytes candidate.toolchain_candidate ++
              (be64 candidate.dependencies.length ++ candidate.dependencies.flatMap fun dependency =>
                hash_key_bytes dependency.key ++ request_bytes dependency.source))))))))))

/-- `LeanPackageCandidateV1::identity`. -/
def LeanPackageCandidateV1.identity (candidate : LeanPackageCandidateV1) : Sha256 :=
  digest (candidate_bytes candidate)

/-! ## Requests -/

/-- `LeanResolutionModeV1`; the targets are sorted and distinct. -/
inductive LeanResolutionModeV1 where
  | Frozen
  | Update (packages : List PackageKeyV1) (sorted : StrictlySorted id packages)
      (bounded : packages.length ≤ MAX_PACKAGES_V1)

/-- `LeanResolutionModeV1::update_set`. -/
def LeanResolutionModeV1.update_set : LeanResolutionModeV1 → List PackageKeyV1
  | .Frozen => []
  | .Update packages _ _ => packages

/-- The lock was made for this root and this toolchain. -/
def lock_matches_request (lock : LeanBunLockV1) (root : LakeRootDeclarationV1)
    (toolchain : LeanToolchainIdentityV1) : Prop :=
  lock.lean_toolchain = toolchain.lean_toolchain ∧
    lock.lean_compiler_githash = toolchain.compiler_githash ∧
    lock.lake_version = toolchain.lake_version ∧ lock.root_declaration_sha256 = root.identity

/-- `LeanResolutionRequestV1`. -/
structure LeanResolutionRequestV1 where
  root : LakeRootDeclarationV1
  active_lock : Option LeanBunLockV1
  mode : LeanResolutionModeV1
  toolchain : LeanToolchainIdentityV1
  frozen_has_lock : mode = .Frozen → active_lock ≠ none
  lock_matches : ∀ lock ∈ active_lock, lock_matches_request lock root toolchain

/-! ## Graphs -/

/-- `LeanShadowDecisionV1`: a requirement that found its package already
selected. -/
structure LeanShadowDecisionV1 where
  package : PackageKeyV1
  selected_candidate : Sha256
  winner : LeanResolutionOriginV1
  shadowed : LeanResolutionOriginV1
deriving DecidableEq

/-- `LeanResolvedPackageV1`. -/
structure LeanResolvedPackageV1 where
  candidate : LeanPackageCandidateV1
  dependencies : List PackageKeyV1
deriving DecidableEq

/-- `LeanResolvedPackageV1::key`. -/
def LeanResolvedPackageV1.key (package : LeanResolvedPackageV1) : PackageKeyV1 :=
  package.candidate.key

/-- `LeanResolutionGraphV1`. -/
structure LeanResolutionGraphV1 where
  toolchain : LeanToolchainIdentityV1
  root_declaration_identity : Sha256
  packages : List LeanResolvedPackageV1
  root_packages : List PackageKeyV1
  resolution_order : List PackageKeyV1
  shadows : List LeanShadowDecisionV1
  impact_closure : List PackageKeyV1
  identity : Sha256
deriving DecidableEq

/-- `hash_origin`. -/
def origin_bytes : LeanResolutionOriginV1 → List UInt8
  | .Root declaration_index => 1 :: be64 declaration_index
  | .Package package declaration_index => 2 :: (hash_key_bytes package ++ be64 declaration_index)

/-- A counted list of keys. -/
def keys_bytes (keys : List PackageKeyV1) : List UInt8 :=
  be64 keys.length ++ keys.flatMap hash_key_bytes

/-- What `graph_identity` feeds to the hasher. -/
def graph_identity_bytes (toolchain : LeanToolchainIdentityV1) (root_identity : Sha256)
    (packages : List LeanResolvedPackageV1)
    (root_packages resolution_order : List PackageKeyV1) (shadows : List LeanShadowDecisionV1)
    (impact_closure : List PackageKeyV1) : List UInt8 :=
  as_bytes "leanbun-resolution-graph-v1\x00".toList ++ (toolchain_bytes toolchain ++
    (root_identity.bytes ++ (be64 packages.length ++ (packages.flatMap (fun package =>
        hash_key_bytes package.key ++ (package.candidate.identity.bytes ++
          keys_bytes package.dependencies)) ++
      (keys_bytes root_packages ++ (keys_bytes resolution_order ++ (keys_bytes impact_closure ++
        (be64 shadows.length ++ shadows.flatMap fun shadow =>
          hash_key_bytes shadow.package ++ (shadow.selected_candidate.bytes ++
            (origin_bytes shadow.winner ++ origin_bytes shadow.shadowed))))))))))

end LeanBun.Resolver
