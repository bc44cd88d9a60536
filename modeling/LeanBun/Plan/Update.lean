/-
Planning a `lake update`, and the contract that a plan is checked against.

The planner takes explicit, declared packages and writes out one command with its effects
and risks. The contract is read from a fixture of facts about the supported version of
Lake; it states the effects and risks a plan has to name and what its arguments have to
look like.
-/
import LeanBun.Approval.Request
import LeanBun.Plan.Inventory

set_option autoImplicit false

namespace LeanBun.Plan

open LeanBun.Lib LeanBun.Core
open LeanBun.Approval (PlanExecutionAuthorityV1)

def SUPPORTED_LAKE_VERSION : Str := "5.0.0-src+8c9756b".toList

def ENVIRONMENT_ALLOWLIST_V1 : List Str :=
  ["ELAN_HOME".toList, "GIT_CONFIG_NOSYSTEM".toList, "GIT_TERMINAL_PROMPT".toList, "HOME".toList,
    "PATH".toList]

/-! ## Plans -/

/-- `LakeCommandFamilyV1`. -/
inductive LakeCommandFamilyV1 where
  | Update
deriving DecidableEq

/-- `CommandPermissionClassV1`. -/
inductive CommandPermissionClassV1 where
  | ExplicitExternalUpdate
deriving DecidableEq

/-- `CommandNetworkPolicyV1`. -/
inductive CommandNetworkPolicyV1 where
  | Required
deriving DecidableEq

/-- `PlannedEffectV1`. -/
inductive PlannedEffectV1 where
  | LoadAndExecuteProjectConfiguration
  | ReadPackageOverrides
  | RewriteManifest
  | CreateOrModifyLakeDirectory
  | FetchRemotePackageContent
  | CreateOrModifyPackageCheckouts
  | ExecutePostUpdateHooks
deriving DecidableEq

/-- `PlanRiskV1`. -/
inductive PlanRiskV1 where
  | UntrustedProjectConfigurationExecution
  | NetworkAndRemoteContent
  | ManifestRewrite
  | CheckoutMutation
  | LakeInternalStateMutation
  | PostUpdateHookExecution
  | CheckoutEvidenceIncomplete
  | ObservedDependencyDrift
  | ExecutablePropertiesRequireGateRecheck
deriving DecidableEq

/-- `LakeExecutableObservationV1`. -/
structure LakeExecutableObservationV1 where
  schema_version : UInt8
  canonical_path : CanonicalPath
  lake_version : Str
  sha256 : Sha256
  byte_length : UInt64
  unix_mode : UInt32
  regular_file : Bool
  symlink_free : Bool
deriving DecidableEq

/-- `LakeCommandPlanV1`. -/
structure LakeCommandPlanV1 where
  schema_version : UInt8
  family : LakeCommandFamilyV1
  lake_version : Str
  inventory_snapshot_sha256 : Sha256
  executable : CanonicalPath
  executable_sha256 : Sha256
  executable_byte_length : UInt64
  executable_unix_mode : UInt32
  executable_regular_file : Bool
  executable_symlink_free : Bool
  arguments : List Str
  cwd : CanonicalDirectory
  environment_allowlist : List Str
  permission_class : CommandPermissionClassV1
  network_policy : CommandNetworkPolicyV1
  expected_effects : List PlannedEffectV1
  risks : List PlanRiskV1
  execution_authority : PlanExecutionAuthorityV1
deriving DecidableEq

/-- `LakeUpdatePlanRequestV1`. -/
structure LakeUpdatePlanRequestV1 where
  managed_toolchain_root : CanonicalDirectory
  executable_observation : LakeExecutableObservationV1
  project_root : CanonicalDirectory
  inventory : PackageInventoryV1
  drift_report : DependencyDriftReportV1
  packages : List Str

/-- `DiagnosticCode`, as far as the planner uses it. -/
inductive DiagnosticCode where
  | TOOLCHAIN_MISMATCH
  | BUILD_INSPECTION_FAILED
  | PATH_ESCAPES_ALLOWED_ROOT
  | BUILD_NOT_AUTHORIZED
  | MANIFEST_SHAPE_INVALID
  | PROVIDER_PACKAGE_MISSING
deriving DecidableEq

/-- `LakeCommandPlanError`. -/
structure LakeCommandPlanError where
  code : DiagnosticCode
  message : Str
deriving DecidableEq

abbrev PlanResult (α : Type) := Except LakeCommandPlanError α

/-! ## The planner -/

/-- `char::is_whitespace`: the property White_Space. -/
def is_whitespace (c : Char) : Bool :=
  decide (9 ≤ c.toNat ∧ c.toNat ≤ 13) || decide (c.toNat = 0x20) || decide (c.toNat = 0x85) ||
    decide (c.toNat = 0xa0) || decide (c.toNat = 0x1680) ||
    decide (0x2000 ≤ c.toNat ∧ c.toNat ≤ 0x200a) || decide (c.toNat = 0x2028) ||
    decide (c.toNat = 0x2029) || decide (c.toNat = 0x202f) || decide (c.toNat = 0x205f) ||
    decide (c.toNat = 0x3000)

/-- `valid_package_selector`. -/
def valid_package_selector (value : Str) : Bool :=
  !value.isEmpty && decide (byte_len value ≤ 256) && !decide (value.head? = some '-') &&
    !value.any fun c => is_control c || is_whitespace c || decide (c = '/' ∨ c = '\\')

/-- An executable file: regular, not a link, not empty, with a permission to run it. -/
def safe_executable (regular_file symlink_free : Bool) (byte_length : UInt64) (unix_mode : UInt32) :
    Bool :=
  regular_file && symlink_free && decide (byte_length ≠ 0) && decide (unix_mode &&& 0o111 ≠ 0)

def declared_git : Option DeclaredPackageSourceV1 → Bool
  | some (.Git _) => true
  | _ => false

/-- The body of the loop over the requested packages. `selected` is the set so far. -/
def select_package (inventory : PackageInventoryV1) (selected : List Str) (package : Str) :
    PlanResult (List Str) := do
  let _ ← ensure (valid_package_selector package = true)
    ⟨.MANIFEST_SHAPE_INVALID, "invalid Lake update package selector: ".toList ++ package⟩
  let _ ← ensure (package ∉ selected)
    ⟨.MANIFEST_SHAPE_INVALID, "duplicate Lake update package selector: ".toList ++ package⟩
  match inventory.packages.find? fun entry => decide (entry.name = package) with
  | none => .error ⟨.PROVIDER_PACKAGE_MISSING,
      "Lake update package is absent from inventory: ".toList ++ package⟩
  | some entry => do
    let _ ← ensure (declared_git entry.declaration = true)
      ⟨.BUILD_NOT_AUTHORIZED, "M0 update plans only support declared Git packages: ".toList ++ package⟩
    return selected ++ [package]

/-- `derive(Ord)`: the order of the declaration. -/
def PlanRiskV1.rank : PlanRiskV1 → ℕ
  | .UntrustedProjectConfigurationExecution => 0
  | .NetworkAndRemoteContent => 1
  | .ManifestRewrite => 2
  | .CheckoutMutation => 3
  | .LakeInternalStateMutation => 4
  | .PostUpdateHookExecution => 5
  | .CheckoutEvidenceIncomplete => 6
  | .ObservedDependencyDrift => 7
  | .ExecutablePropertiesRequireGateRecheck => 8

/-- The risks of every update, and the one that goes with the summary of the drift report. -/
def plan_risks (summary : DependencyDriftSummaryV1) : List PlanRiskV1 :=
  let risks := [.UntrustedProjectConfigurationExecution, .NetworkAndRemoteContent,
    .ManifestRewrite, .CheckoutMutation, .LakeInternalStateMutation, .PostUpdateHookExecution,
    .ExecutablePropertiesRequireGateRecheck]
  let risks := match summary with
    | .Matched => risks
    | .Drifted => risks ++ [.ObservedDependencyDrift]
    | .Unobserved => risks ++ [.CheckoutEvidenceIncomplete]
  sort_by_key PlanRiskV1.rank risks

def planned_effects : List PlannedEffectV1 :=
  [.LoadAndExecuteProjectConfiguration, .ReadPackageOverrides, .RewriteManifest,
    .CreateOrModifyLakeDirectory, .FetchRemotePackageContent, .CreateOrModifyPackageCheckouts,
    .ExecutePostUpdateHooks]

/-- `plan_lake_update`. The set of the selected packages is a list until it is read in order;
the inventory has each name once, or its digest is refused. -/
def plan_lake_update (request : LakeUpdatePlanRequestV1) : PlanResult LakeCommandPlanV1 := do
  let observation := request.executable_observation
  let _ ← ensure (observation.schema_version = 1 ∧ observation.lake_version = SUPPORTED_LAKE_VERSION)
    ⟨.TOOLCHAIN_MISMATCH,
      "Lake version is not supported by the update plan contract: expected=".toList ++
        SUPPORTED_LAKE_VERSION ++ " observed=".toList ++ observation.lake_version⟩
  let _ ← ensure (request.inventory.project_id = request.drift_report.project_id)
    ⟨.BUILD_INSPECTION_FAILED, "inventory and drift report project identities differ".toList⟩
  let _ ← ensure (request.inventory.project_path = request.project_root.to_string_lossy)
    ⟨.BUILD_INSPECTION_FAILED,
      "inventory project path differs from the canonical project root supplied to plan".toList⟩
  let inventory_snapshot ←
    (package_inventory_snapshot_digest_v1 request.inventory request.drift_report).mapError
      fun error => ⟨.BUILD_INSPECTION_FAILED,
        "package inventory snapshot is invalid: ".toList ++ error.message.toList⟩
  let _ ← ensure (observation.canonical_path.starts_with request.managed_toolchain_root = true ∧
      observation.canonical_path.file_name = some (as_bytes "lake".toList))
    ⟨.PATH_ESCAPES_ALLOWED_ROOT,
      "Lake executable is not the canonical lake path inside the managed toolchain root".toList⟩
  let _ ← ensure (safe_executable observation.regular_file observation.symlink_free
      observation.byte_length observation.unix_mode = true)
    ⟨.BUILD_NOT_AUTHORIZED,
      "Lake executable observation is not a non-empty, regular, symlink-free executable".toList⟩
  let _ ← ensure (request.packages ≠ [])
    ⟨.BUILD_NOT_AUTHORIZED,
      "bare lake update is outside the M0 plan contract; explicit packages are required".toList⟩
  let selected ← request.packages.foldlM (select_package request.inventory) []
  return {
    schema_version := 1
    family := .Update
    lake_version := observation.lake_version
    inventory_snapshot_sha256 := inventory_snapshot.sha256
    executable := observation.canonical_path
    executable_sha256 := observation.sha256
    executable_byte_length := observation.byte_length
    executable_unix_mode := observation.unix_mode
    executable_regular_file := observation.regular_file
    executable_symlink_free := observation.symlink_free
    arguments := "--keep-toolchain".toList :: "update".toList :: sort_by_key id selected
    cwd := request.project_root
    environment_allowlist := ENVIRONMENT_ALLOWLIST_V1
    permission_class := .ExplicitExternalUpdate
    network_policy := .Required
    expected_effects := planned_effects
    risks := plan_risks request.drift_report.summary
    execution_authority := .Withheld }

end LeanBun.Plan
