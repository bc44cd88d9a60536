/-
The values of the generation crate.

A generation is everything a transaction publishes for one project: the texts of
its lock and projections, its packages with their objects, and the digests over
them. Its identity is a digest over the transaction, the project, the place of
the generation and all of these.
-/
import LeanBun.Core.Encoding
import LeanBun.Core.Identity
import LeanBun.Lib.FieldRecord
import LeanBun.Lock.Model
import LeanBun.Store.Entry

set_option autoImplicit false

namespace LeanBun.Generation

open LeanBun.Lib LeanBun.Core LeanBun.Store

def MAX_GENERATION_PACKAGES_V1 : ℕ := 4096
def MAX_PATH_BYTES : ℕ := 4096

/-! ## Errors, states and faults -/

inductive LeanGenerationErrorKind where
  | InvalidField
  | BoundaryViolation
  | IncompatibleInput
  | DuplicatePackage
  | MissingPackage
  | LockBusy
  | OwnershipMismatch
  | InvalidTransition
  | RecordMalformed
  | RecordDrift
  | GenerationDrift
  | MixedProjection
  | Io
  | SyncFailed
  | RenameFailed
  | FaultInjected
  | IndeterminatePublication
deriving DecidableEq

structure LeanGenerationError where
  kind : LeanGenerationErrorKind
  message : String
deriving DecidableEq

abbrev GenerationResult (α : Type) := Except LeanGenerationError α

def malformed (message : String) : LeanGenerationError := ⟨.RecordMalformed, message⟩
def boundary (message : String) : LeanGenerationError := ⟨.BoundaryViolation, message⟩
def drift (message : String) : LeanGenerationError := ⟨.GenerationDrift, message⟩

/-- `LeanGenerationStateV1`. -/
inductive LeanGenerationStateV1 where
  | Preparing
  | Materialized
  | Verified
  | Published
  | Failed
deriving DecidableEq

/-- `LeanGenerationStateV1::token`. -/
def LeanGenerationStateV1.token : LeanGenerationStateV1 → Str
  | .Preparing => "preparing".toList
  | .Materialized => "materialized".toList
  | .Verified => "verified".toList
  | .Published => "published".toList
  | .Failed => "failed".toList

/-- `LeanGenerationStateV1::parse`. -/
def LeanGenerationStateV1.parse (value : Str) : GenerationResult LeanGenerationStateV1 :=
  if value = "preparing".toList then .ok .Preparing
  else if value = "materialized".toList then .ok .Materialized
  else if value = "verified".toList then .ok .Verified
  else if value = "published".toList then .ok .Published
  else if value = "failed".toList then .ok .Failed
  else .error (malformed "unknown generation transaction state")

@[simp] theorem LeanGenerationStateV1.parse_token (state : LeanGenerationStateV1) :
    LeanGenerationStateV1.parse state.token = .ok state := by
  cases state <;> decide

/-- `LeanGenerationFaultV1`: where a publication is made to fail. -/
inductive LeanGenerationFaultV1 where
  | None
  | AfterLock
  | AfterPreparing
  | AfterLockFile
  | AfterManifestProjection
  | AfterRuntimeProjection
  | AfterPackages
  | AfterGenerationMetadata
  | AfterFileSync
  | AfterDirectorySync
  | AfterMaterialized
  | AfterVerified
  | BeforeActiveRename
  | AfterActiveRename
  | AfterPublishedRecord
  | AfterRetainedRecord
  | BeforeLockRelease
deriving DecidableEq

/-! ## Paths -/

/-- A path as its text; every path of this crate is absolute. -/
abbrev PathBuf := Str

/-- `Path::components` of an absolute path: repeated slashes and single dots do
not count. -/
def path_components (path : PathBuf) : List Str :=
  (split '/' path).filter fun part => decide (part ≠ []) && decide (part ≠ ['.'])

/-- `impl PartialEq for Path`. -/
def path_eq (a b : PathBuf) : Bool := decide (path_components a = path_components b)

@[simp] theorem path_eq_self (path : PathBuf) : path_eq path path = true := decide_eq_true rfl

/-- `Path::join`: an absolute path replaces. -/
def path_join (path child : PathBuf) : PathBuf :=
  if child.head? = some '/' then child
  else if path.getLast? = some '/' then path ++ child
  else path ++ '/' :: child

/-- What `validate_absolute_path` accepts. -/
def valid_absolute_path (path : PathBuf) : Bool :=
  decide (path.head? = some '/') && !(path_components path).contains ['.', '.'] &&
    decide (byte_len path ≤ MAX_PATH_BYTES)

/-- `package_path`. -/
def package_path (root : PathBuf) (scope name : Str) : PathBuf :=
  if scope = [] then path_join (path_join root "packages".toList) name
  else path_join (path_join (path_join root "packages".toList) scope) name

/-! ## Generations -/

/-- `GenerationPackageV1`. -/
structure GenerationPackageV1 where
  key_scope : Str
  key_name : Str
  final_path : PathBuf
  store_object_sha256 : Sha256
  source_tree_sha256 : Sha256
  object_tree_path : PathBuf
  entries : List NormalizedTreeEntryV1
deriving DecidableEq

/-- `LeanBunGenerationV1` without its identity, which is a function of it. -/
structure LeanBunGenerationV1 where
  transaction_id : ExecutionId
  project_root : PathBuf
  generation_root : PathBuf
  lock_sha256 : Sha256
  graph_sha256 : Sha256
  decision_set_sha256 : Sha256
  manifest_projection_sha256 : Sha256
  runtime_projection_sha256 : Sha256
  reservoir_bindings_sha256 : Option Sha256
  lean_toolchain : Str
  compiler_githash : Str
  lake_version : Str
  lock_text : Str
  manifest_text : Str
  runtime_text : Str
  packages : List GenerationPackageV1
  project_root_valid : valid_absolute_path project_root = true
  generation_root_valid : valid_absolute_path generation_root = true
  count_bounded : packages.length ≤ MAX_GENERATION_PACKAGES_V1
  lock_hashed : lock_sha256 =
    digest (as_bytes "leanbun-lock-bytes-v1\x00".toList ++ as_bytes lock_text)
  paths_canonical : ∀ package ∈ packages,
    package.final_path = package_path generation_root package.key_scope package.key_name
  /-- The keys and the compiler are the ones of a lock. -/
  keys_valid : ∀ package ∈ packages, Lock.valid_atom package.key_scope Lock.MAX_NAME_BYTES true = true ∧
    Lock.valid_atom package.key_name Lock.MAX_NAME_BYTES false = true
  compiler_valid : Lock.valid_git_revision compiler_githash = true

/-- `LeanBunGenerationV1::project_id`. -/
def LeanBunGenerationV1.project_id (generation : LeanBunGenerationV1) : ProjectId :=
  Core.project_id generation.project_root

/-- What `generation_identity` feeds to the hasher for one package. -/
def generation_package_bytes (package : GenerationPackageV1) : List UInt8 :=
  string_bytes package.key_scope ++ (string_bytes package.key_name ++
    (string_bytes package.final_path ++ (package.store_object_sha256.bytes ++
      package.source_tree_sha256.bytes)))

/-- What `generation_identity` feeds to the hasher. -/
def generation_identity_bytes (generation : LeanBunGenerationV1) : List UInt8 :=
  (match generation.reservoir_bindings_sha256 with
    | some _ => as_bytes "leanbun-generation-identity-v2\x00".toList
    | none => as_bytes "leanbun-generation-identity-v1\x00".toList) ++
  (as_bytes generation.transaction_id.as_str ++ (generation.project_id.digest.bytes ++
    (string_bytes generation.generation_root ++ (generation.lock_sha256.bytes ++
      (generation.graph_sha256.bytes ++ (generation.decision_set_sha256.bytes ++
        (generation.manifest_projection_sha256.bytes ++
          (generation.runtime_projection_sha256.bytes ++
            ((generation.reservoir_bindings_sha256.elim [] Sha256.bytes) ++
              (be64 generation.packages.length ++
                generation.packages.flatMap generation_package_bytes))))))))))

/-- `LeanBunGenerationV1::identity`. -/
def LeanBunGenerationV1.identity (generation : LeanBunGenerationV1) : Sha256 :=
  digest (generation_identity_bytes generation)

/-- The line of one package in the metadata. -/
def package_metadata_line (package : GenerationPackageV1) : Str :=
  tab_line ["package".toList, hex (as_bytes package.key_scope), hex (as_bytes package.key_name),
    package.final_path, package.store_object_sha256.to_string,
    package.source_tree_sha256.to_string]

/-- `LeanBunGenerationV1::canonical_metadata`. -/
def LeanBunGenerationV1.canonical_metadata (generation : LeanBunGenerationV1) : Str :=
  unlines (
    [(match generation.reservoir_bindings_sha256 with
      | some _ => "leanbun-generation-v2\t2".toList
      | none => "leanbun-generation-v1\t1".toList),
    field_line "transaction".toList generation.transaction_id.as_str,
    field_line "project-id".toList generation.project_id.to_string,
    field_line "project-root".toList generation.project_root,
    field_line "generation-root".toList generation.generation_root,
    field_line "lock-sha256".toList generation.lock_sha256.to_string,
    field_line "graph-sha256".toList generation.graph_sha256.to_string,
    field_line "decision-set-sha256".toList generation.decision_set_sha256.to_string,
    field_line "manifest-projection-sha256".toList generation.manifest_projection_sha256.to_string,
    field_line "runtime-projection-sha256".toList generation.runtime_projection_sha256.to_string] ++
    (generation.reservoir_bindings_sha256.elim []
      fun identity => [field_line "reservoir-bindings-sha256".toList identity.to_string]) ++
    [field_line "lean-toolchain".toList (hex (as_bytes generation.lean_toolchain)),
    field_line "compiler-githash".toList generation.compiler_githash,
    field_line "lake-version".toList (hex (as_bytes generation.lake_version)),
    field_line "package-count".toList (decimal generation.packages.length)] ++
    generation.packages.map package_metadata_line ++
    [field_line "generation-sha256".toList generation.identity.to_string,
    "end-generation".toList])

/-- `LeanGenerationOutcomeV1`. -/
structure LeanGenerationOutcomeV1 where
  transaction_id : ExecutionId
  generation_identity : Sha256
  generation_root : PathBuf
  state : LeanGenerationStateV1
deriving DecidableEq

/-- `LeanGenerationRecoveryV1`. -/
structure LeanGenerationRecoveryV1 where
  state : LeanGenerationStateV1
  active : Bool
  lock_released : Bool
deriving DecidableEq

end LeanBun.Generation
