/-
Fetch requests of the store.

A request is made from a resolution graph for one of its packages: it carries the
exact candidate, a source of the matching kind, the root the source has to lie
under and the limits of the fetch. A package with an exact Git source also has a
package source key. Durations are counted in nanoseconds.
-/
import LeanBun.Lock.Source
import LeanBun.Resolver.Resolve

set_option autoImplicit false

namespace LeanBun.Store

open LeanBun.Lib LeanBun.Core LeanBun.Lock LeanBun.Resolver

def MAX_FETCH_BYTES_V1 : ℕ := 64 * 1024 * 1024
def MAX_EXPANDED_BYTES_V1 : ℕ := 256 * 1024 * 1024
def MAX_FILE_BYTES_V1 : ℕ := 64 * 1024 * 1024
def MAX_TREE_ENTRIES_V1 : ℕ := 4096
def MAX_REGISTERED_TREE_ENTRIES_V1 : ℕ := 262144
def MAX_REGISTERED_FETCH_BYTES_V1 : ℕ := 256 * 1024 * 1024
def MAX_REGISTERED_EXPANDED_BYTES_V1 : ℕ := 512 * 1024 * 1024
def MAX_REGISTERED_GIT_TIMEOUT_V1 : ℕ := 120 * 1000000000

/-! ## Errors -/

inductive LeanStoreErrorKind where
  | InvalidField
  | BoundaryViolation
  | LimitExceeded
  | Cancelled
  | TaskIdentityConflict
  | TerminalTaskFailure
  | DownloadFailed
  | HttpProtocol
  | IntegrityMismatch
  | GitFailed
  | ArchiveMalformed
  | PathTraversal
  | AbsoluteArchivePath
  | UnsafeSymlink
  | SpecialFile
  | DuplicateArchiveEntry
  | ExpansionLimit
  | TreeDigestMismatch
  | TreeDrift
  | SourceRecordDrift
  | StoreObjectConflict
  | LeaseFailed
  | FileSyncFailed
  | DirectorySyncFailed
  | RenameFailed
  | IndeterminatePublication
  | FaultInjected
deriving DecidableEq

structure LeanStoreError where
  kind : LeanStoreErrorKind
  message : String
deriving DecidableEq

abbrev StoreResult (α : Type) := Except LeanStoreError α

/-! ## Limits -/

/-- `LeanStoreLimitsV1`. -/
structure LeanStoreLimitsV1 where
  maximum_download_bytes : ℕ
  maximum_expanded_bytes : ℕ
  maximum_file_bytes : ℕ
  maximum_entries : ℕ
  maximum_retries : ℕ
  connect_timeout : ℕ
  io_timeout : ℕ
  git_timeout : ℕ
deriving DecidableEq

/-- `LeanStoreLimitsV1::default`. -/
def LeanStoreLimitsV1.default : LeanStoreLimitsV1 where
  maximum_download_bytes := MAX_FETCH_BYTES_V1
  maximum_expanded_bytes := MAX_EXPANDED_BYTES_V1
  maximum_file_bytes := MAX_FILE_BYTES_V1
  maximum_entries := MAX_TREE_ENTRIES_V1
  maximum_retries := 2
  connect_timeout := 2 * 1000000000
  io_timeout := 5 * 1000000000
  git_timeout := 10 * 1000000000

/-- `LeanStoreLimitsV1::registered_provider`. -/
def LeanStoreLimitsV1.registered_provider : LeanStoreLimitsV1 where
  maximum_download_bytes := MAX_REGISTERED_FETCH_BYTES_V1
  maximum_expanded_bytes := MAX_REGISTERED_EXPANDED_BYTES_V1
  maximum_file_bytes := MAX_FILE_BYTES_V1
  maximum_entries := MAX_REGISTERED_TREE_ENTRIES_V1
  maximum_retries := 2
  connect_timeout := 2 * 1000000000
  io_timeout := 5 * 1000000000
  git_timeout := MAX_REGISTERED_GIT_TIMEOUT_V1

/-- Positive and no broader than the maximum. -/
def within (value maximum : ℕ) : Prop := 0 < value ∧ value ≤ maximum

instance (value maximum : ℕ) : Decidable (within value maximum) :=
  inferInstanceAs (Decidable (_ ∧ _))

/-- What `LeanStoreLimitsV1::validate` accepts. -/
def valid_limits (limits : LeanStoreLimitsV1) : Prop :=
  within limits.maximum_download_bytes MAX_REGISTERED_FETCH_BYTES_V1 ∧
    within limits.maximum_expanded_bytes MAX_REGISTERED_EXPANDED_BYTES_V1 ∧
    within limits.maximum_file_bytes LeanStoreLimitsV1.default.maximum_file_bytes ∧
    within limits.maximum_entries MAX_REGISTERED_TREE_ENTRIES_V1 ∧
    limits.maximum_retries ≤ 3 ∧
    within limits.connect_timeout LeanStoreLimitsV1.default.connect_timeout ∧
    within limits.io_timeout LeanStoreLimitsV1.default.io_timeout ∧
    within limits.git_timeout MAX_REGISTERED_GIT_TIMEOUT_V1

instance (limits : LeanStoreLimitsV1) : Decidable (valid_limits limits) := by
  unfold valid_limits
  infer_instance

/-- `LeanStoreLimitsV1::validate`. -/
def LeanStoreLimitsV1.validate (limits : LeanStoreLimitsV1) : StoreResult LeanStoreLimitsV1 := do
  let _ ← ensure (valid_limits limits)
    ⟨.LimitExceeded, "store limits must be positive and no broader than v1 maxima"⟩
  return limits

/-- Both presets pass the check. -/
theorem valid_limits_presets :
    valid_limits .default ∧ valid_limits .registered_provider := by
  decide

/-! ## Requests -/

/-- `LeanFetchSourceV1`. -/
inductive LeanFetchSourceV1 where
  | LocalArchive (path : Str)
  | LoopbackHttp (url : Str)
  | LocalGit (repository : Str)
  | LocalDirectory (path : Str)
deriving DecidableEq

/-- The fetch source is of the kind of the exact source. -/
def source_kinds_agree : LeanFetchSourceV1 → LeanExactSourceV1 → Bool
  | .LocalDirectory _, .Path _ _ _ => true
  | .LocalArchive _, .Git _ _ _ _ _ => true
  | .LoopbackHttp _, .Git _ _ _ _ _ => true
  | .LocalGit _, .Git _ _ _ _ _ => true
  | _, _ => false

/-- A location that `hash_path` and the URL check accept. -/
def valid_location (value : Str) : Bool :=
  !(value.isEmpty || decide (4096 < byte_len value) ||
    value.any fun c => decide (c.toNat < 0x20) || decide (c.toNat = 0x7f))

/-- The location of a source, with its tag and the error of a bad one. -/
def LeanFetchSourceV1.location : LeanFetchSourceV1 → UInt8 × Str × String
  | .LocalArchive path => (1, path, "source path is invalid")
  | .LoopbackHttp url => (2, url, "loopback URL is invalid")
  | .LocalGit repository => (3, repository, "source path is invalid")
  | .LocalDirectory path => (4, path, "source path is invalid")

/-- What `request_identity` feeds to the hasher. -/
def request_identity_bytes (graph : Sha256) (package : PackageKeyV1) (candidate : Sha256)
    (source : LeanFetchSourceV1) (allowed_root : Str) (limits : LeanStoreLimitsV1) : List UInt8 :=
  as_bytes "leanbun-fetch-request-v1\x00".toList ++ (graph.bytes ++ (key_bytes package ++
    (candidate.bytes ++ (string_bytes allowed_root ++ (source.location.1 ::
      (string_bytes source.location.2.1 ++ [limits.maximum_download_bytes,
        limits.maximum_expanded_bytes, limits.maximum_file_bytes, limits.maximum_entries,
        limits.maximum_retries].flatMap be64))))))

/-- `request_identity`. -/
def request_identity (graph : Sha256) (package : PackageKeyV1) (candidate : Sha256)
    (source : LeanFetchSourceV1) (allowed_root : Str) (limits : LeanStoreLimitsV1) :
    StoreResult Sha256 := do
  let _ ← ensure (valid_location source.location.2.1 = true)
    ⟨.InvalidField, source.location.2.2⟩
  return digest (request_identity_bytes graph package candidate source allowed_root limits)

theorem request_identity_ok {graph : Sha256} {package : PackageKeyV1} {candidate : Sha256}
    {source : LeanFetchSourceV1} {allowed_root : Str} {limits : LeanStoreLimitsV1}
    (h : valid_location source.location.2.1 = true) :
    request_identity graph package candidate source allowed_root limits =
      .ok (digest (request_identity_bytes graph package candidate source allowed_root limits)) := by
  unfold request_identity
  rw [ensure_ok h]
  rfl

/-- The package source key of an exact source with its tree. -/
def exact_source_key (source : LeanExactSourceV1) (source_tree_sha256 : Sha256) :
    LockResult (Option PackageSourceKeyV1) :=
  match source with
  | .Git url exact_revision subdir _ _ => do
    let key ← PackageSourceKeyV1.from_git url exact_revision subdir source_tree_sha256
    return some key
  | .Path _ _ _ => .ok none

/-- `LeanFetchRequestV1`. -/
structure LeanFetchRequestV1 where
  package : PackageKeyV1
  candidate : LeanPackageCandidateV1
  graph_identity : Sha256
  source : LeanFetchSourceV1
  allowed_source_root : Str
  limits : LeanStoreLimitsV1
  package_source_key : Option PackageSourceKeyV1
  identity : Sha256
  package_candidate : candidate.key = package
  limits_valid : valid_limits limits
  source_key : exact_source_key candidate.resolved candidate.source_tree_sha256 =
    .ok package_source_key
  identity_hashed : request_identity graph_identity package candidate.identity source
    allowed_source_root limits = .ok identity

/-- `LeanFetchRequestV1::from_graph`. -/
def LeanFetchRequestV1.from_graph (graph : LeanResolutionGraphV1) (package : PackageKeyV1)
    (source : LeanFetchSourceV1) (allowed_source_root : Str) (limits : LeanStoreLimitsV1) :
    StoreResult LeanFetchRequestV1 := do
  let ⟨hlimits⟩ ← ensure (valid_limits limits)
    ⟨.LimitExceeded, "store limits must be positive and no broader than v1 maxima"⟩
  match hfind : package_of graph.packages package with
  | none => .error ⟨.InvalidField, "fetch package is absent from the M33 graph"⟩
  | some resolved => do
    let _ ← ensure (source_kinds_agree source resolved.candidate.resolved = true)
      ⟨.InvalidField, "fetch source kind differs from the exact M33 source"⟩
    match hkey : exact_source_key resolved.candidate.resolved
        resolved.candidate.source_tree_sha256 with
    | .error error => .error ⟨.InvalidField, error.message⟩
    | .ok package_source_key =>
      match hidentity : request_identity graph.identity package resolved.candidate.identity source
          allowed_source_root limits with
      | .error error => .error error
      | .ok identity => return {
          package
          candidate := resolved.candidate
          graph_identity := graph.identity
          source, allowed_source_root, limits, package_source_key, identity
          package_candidate := of_decide_eq_true (List.find?_some hfind :)
          limits_valid := hlimits
          source_key := hkey
          identity_hashed := hidentity }

end LeanBun.Store
