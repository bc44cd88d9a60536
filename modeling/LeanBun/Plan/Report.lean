/-
From a plan to a preflight: the report, the approval request and the last check.

The report is the canonical text of a plan that meets the contract. An approval request is
sealed over the digest of that text for a nonce and a window of time. The preflight checks
the request again against the plan, and a fresh observation of the executable against both.
-/
import LeanBun.Plan.Contract

set_option autoImplicit false

namespace LeanBun.Plan

open LeanBun.Lib LeanBun.Core
open LeanBun.Bridge (json_string)
open LeanBun.Approval (PlanExecutionAuthorityV1)

/-! ## The report -/

/-- `LakeCommandPlanReportSourceV1`. -/
structure LakeCommandPlanReportSourceV1 where
  id : Str
  sha256 : Str
deriving DecidableEq

/-- `LakeCommandPlanReportV1`. -/
structure LakeCommandPlanReportV1 where
  schema_version : UInt8
  report_type : Str
  contract_schema_version : UInt8
  contract_sources : List LakeCommandPlanReportSourceV1
  family : Str
  lake_version : Str
  inventory_snapshot_sha256 : Str
  executable : Str
  executable_sha256 : Str
  executable_byte_length : UInt64
  executable_unix_mode : UInt32
  executable_regular_file : Bool
  executable_symlink_free : Bool
  arguments : List Str
  cwd : Str
  environment_keys : List Str
  permission_class : Str
  network_policy : Str
  expected_effects : List Str
  risks : List Str
  mitigations : List Str
  execution_authority : Str
deriving DecidableEq

def family_name : LakeCommandFamilyV1 → String
  | .Update => "update"

def permission_class_name : CommandPermissionClassV1 → String
  | .ExplicitExternalUpdate => "explicit-external-update"

def network_policy_name : CommandNetworkPolicyV1 → String
  | .Required => "required"

def execution_authority_name : PlanExecutionAuthorityV1 → String
  | .Withheld => "withheld"

def mitigation_name : LakeUpdateMitigationV1 → String
  | .RequireExplicitPackages => "require-explicit-packages"
  | .RejectBareUpdate => "reject-bare-update"
  | .UseCanonicalUpdateCommand => "use-canonical-update-command"
  | .IncludeKeepToolchain => "include-keep-toolchain"

def effect_name : PlannedEffectV1 → String
  | .LoadAndExecuteProjectConfiguration => "load-and-execute-project-configuration"
  | .ReadPackageOverrides => "read-package-overrides"
  | .RewriteManifest => "rewrite-manifest"
  | .CreateOrModifyLakeDirectory => "create-or-modify-lake-directory"
  | .FetchRemotePackageContent => "fetch-remote-package-content"
  | .CreateOrModifyPackageCheckouts => "create-or-modify-package-checkouts"
  | .ExecutePostUpdateHooks => "execute-post-update-hooks"

def risk_name : PlanRiskV1 → String
  | .UntrustedProjectConfigurationExecution => "untrusted-project-configuration-execution"
  | .NetworkAndRemoteContent => "network-and-remote-content"
  | .ManifestRewrite => "manifest-rewrite"
  | .CheckoutMutation => "checkout-mutation"
  | .LakeInternalStateMutation => "lake-internal-state-mutation"
  | .PostUpdateHookExecution => "post-update-hook-execution"
  | .CheckoutEvidenceIncomplete => "checkout-evidence-incomplete"
  | .ObservedDependencyDrift => "observed-dependency-drift"
  | .ExecutablePropertiesRequireGateRecheck => "executable-properties-require-gate-recheck"

/-- `to_str` with its error. -/
def path_str (message : String) (path : CanonicalPath) : ContractResult Str :=
  match path.to_str with
  | none => .error ⟨message.toList⟩
  | some value => .ok value

/-- `lake_command_plan_report_v1`. -/
def lake_command_plan_report_v1 (plan : LakeCommandPlanV1) :
    ContractResult LakeCommandPlanReportV1 := do
  verify_lake_update_plan_contract_v1 plan
  let executable ← path_str "Lake executable path is not valid UTF-8" plan.executable
  let cwd ← path_str "Lake working directory is not valid UTF-8" plan.cwd
  let contract ← lake_update_contract_v1
  return {
    schema_version := 1
    report_type := "lake-command-plan".toList
    contract_schema_version := contract.schema_version
    contract_sources := contract.sources.map fun source => ⟨source.id, source.sha256⟩
    family := (family_name plan.family).toList
    lake_version := plan.lake_version
    inventory_snapshot_sha256 := plan.inventory_snapshot_sha256.to_string
    executable := executable
    executable_sha256 := plan.executable_sha256.to_string
    executable_byte_length := plan.executable_byte_length
    executable_unix_mode := plan.executable_unix_mode
    executable_regular_file := plan.executable_regular_file
    executable_symlink_free := plan.executable_symlink_free
    arguments := plan.arguments
    cwd := cwd
    environment_keys := sort_by_key id plan.environment_allowlist
    permission_class := (permission_class_name plan.permission_class).toList
    network_policy := (network_policy_name plan.network_policy).toList
    expected_effects := sort_by_key id (plan.expected_effects.map fun effect =>
      (effect_name effect).toList)
    risks := sort_by_key id (plan.risks.map fun risk => (risk_name risk).toList)
    mitigations := contract.mitigations.map fun mitigation => (mitigation_name mitigation).toList
    execution_authority := (execution_authority_name plan.execution_authority).toList }

def bool_text (value : Bool) : Str := (if value then "true" else "false").toList

/-- `push_json_array`. -/
def json_array (values : List Str) : Str := array_text (values.map json_string)

/-- The fields of an object, with their texts. -/
def object_text (fields : List (String × Str)) : Str :=
  '\x7b' :: (List.intercalate [','] (fields.map fun field => key_text field.1 ++ field.2) ++ ['\x7d'])

/-- `LakeCommandPlanReportV1::to_canonical_json`. -/
def LakeCommandPlanReportV1.to_canonical_json (report : LakeCommandPlanReportV1) : Str :=
  object_text [("schemaVersion", decimal report.schema_version.toNat),
    ("reportType", json_string report.report_type),
    ("contract", object_text [("schemaVersion", decimal report.contract_schema_version.toNat),
      ("sources", array_text (report.contract_sources.map fun source =>
        object_text [("id", json_string source.id), ("sha256", json_string source.sha256)]))]),
    ("family", json_string report.family), ("lakeVersion", json_string report.lake_version),
    ("inventorySnapshotSha256", json_string report.inventory_snapshot_sha256),
    ("executable", json_string report.executable),
    ("executableSha256", json_string report.executable_sha256),
    ("executableByteLength", decimal report.executable_byte_length.toNat),
    ("executableUnixMode", decimal report.executable_unix_mode.toNat),
    ("executableRegularFile", bool_text report.executable_regular_file),
    ("executableSymlinkFree", bool_text report.executable_symlink_free),
    ("arguments", json_array report.arguments), ("cwd", json_string report.cwd),
    ("environmentKeys", json_array report.environment_keys),
    ("permissionClass", json_string report.permission_class),
    ("networkPolicy", json_string report.network_policy),
    ("expectedEffects", json_array report.expected_effects), ("risks", json_array report.risks),
    ("mitigations", json_array report.mitigations),
    ("executionAuthority", json_string report.execution_authority)]

/-! ## The approval request -/

def MAX_SAFE_INTEGER : ℕ := 9007199254740991
def MAX_APPROVAL_WINDOW_MS : ℕ := 15 * 60 * 1000

/-- `LakeCommandApprovalStateV1`. -/
inductive LakeCommandApprovalStateV1 where
  | Pending
deriving DecidableEq

/-- `LakeCommandApprovalRequestV1`. -/
structure LakeCommandApprovalRequestV1 where
  schema_version : UInt8
  request_type : Str
  request_id : Sha256
  approval_state : LakeCommandApprovalStateV1
  plan_report_sha256 : Sha256
  inventory_snapshot_sha256 : Sha256
  project_id : Str
  project_path : Str
  packages : List Str
  lake_version : Str
  network_required : Bool
  nonce : Str
  issued_at_unix_ms : UInt64
  expires_at_unix_ms : UInt64
  execution_authority : PlanExecutionAuthorityV1
deriving DecidableEq

/-- `LakeCommandApprovalRequestError`. -/
structure LakeCommandApprovalRequestError where
  message : Str
deriving DecidableEq

abbrev RequestResult (α : Type) := Except LakeCommandApprovalRequestError α

/-- `valid_nonce`: the bytes it looks at are those of a version 4 UUID in lower case. -/
def valid_nonce (value : Str) : Bool := valid_execution_id value

/-- The second check of `validate_approval_window`. -/
def valid_window (issued_at_unix_ms expires_at_unix_ms : UInt64) : Prop :=
  issued_at_unix_ms.toNat ≠ 0 ∧ issued_at_unix_ms.toNat ≤ MAX_SAFE_INTEGER ∧
    expires_at_unix_ms.toNat ≤ MAX_SAFE_INTEGER ∧
    issued_at_unix_ms.toNat < expires_at_unix_ms.toNat ∧
    expires_at_unix_ms.toNat - issued_at_unix_ms.toNat ≤ MAX_APPROVAL_WINDOW_MS

instance (issued_at_unix_ms expires_at_unix_ms : UInt64) :
    Decidable (valid_window issued_at_unix_ms expires_at_unix_ms) :=
  inferInstanceAs (Decidable (_ ∧ _ ∧ _ ∧ _ ∧ _))

/-- `approval_request_id_v1`. -/
def approval_request_id_v1 (plan_report_sha256 : Sha256) (project_id nonce : Str)
    (issued_at_unix_ms expires_at_unix_ms : UInt64) : Sha256 :=
  digest (as_bytes (object_text
    [("schema", json_string "leanbun-lake-command-approval-request-v1".toList),
    ("planReportSha256", json_string plan_report_sha256.to_string),
    ("projectId", json_string project_id), ("nonce", json_string nonce),
    ("issuedAtUnixMs", decimal issued_at_unix_ms.toNat),
    ("expiresAtUnixMs", decimal expires_at_unix_ms.toNat)]))

/-- `lake_command_approval_request_v1`. -/
def lake_command_approval_request_v1 (plan : LakeCommandPlanV1) (nonce : Str)
    (issued_at_unix_ms expires_at_unix_ms : UInt64) : RequestResult LakeCommandApprovalRequestV1 := do
  let _ ← ensure (valid_nonce nonce = true)
    ⟨"approval nonce must be a lowercase RFC 4122 UUID version 4".toList⟩
  let _ ← ensure (valid_window issued_at_unix_ms expires_at_unix_ms)
    ⟨("approval window must be positive, JavaScript-safe, ordered, " ++
      "and at most 15 minutes").toList⟩
  let report ← (lake_command_plan_report_v1 plan).mapError fun error => ⟨error.message⟩
  let plan_report_sha256 := digest (as_bytes report.to_canonical_json)
  let project_id := (Core.project_id report.cwd).to_string
  return {
    schema_version := 1
    request_type := "lake-command-approval-request".toList
    request_id := approval_request_id_v1 plan_report_sha256 project_id nonce issued_at_unix_ms
      expires_at_unix_ms
    approval_state := .Pending
    plan_report_sha256 := plan_report_sha256
    inventory_snapshot_sha256 := plan.inventory_snapshot_sha256
    project_id := project_id
    project_path := report.cwd
    packages := report.arguments.drop 2
    lake_version := report.lake_version
    network_required := decide (report.network_policy = "required".toList)
    nonce := nonce
    issued_at_unix_ms := issued_at_unix_ms
    expires_at_unix_ms := expires_at_unix_ms
    execution_authority := .Withheld }

/-- `verify_lake_command_approval_request_v1`. -/
def verify_lake_command_approval_request_v1 (request : LakeCommandApprovalRequestV1)
    (plan : LakeCommandPlanV1) (observed_now_unix_ms : UInt64) : RequestResult Unit := do
  let _ ← ensure (request.issued_at_unix_ms.toNat ≤ observed_now_unix_ms.toNat ∧
      observed_now_unix_ms.toNat < request.expires_at_unix_ms.toNat)
    ⟨"approval request is not currently valid".toList⟩
  let expected ← lake_command_approval_request_v1 plan request.nonce request.issued_at_unix_ms
    request.expires_at_unix_ms
  let _ ← ensure (request = expected)
    ⟨"approval request does not exactly match the current plan".toList⟩
  return ()

/-! ## The preflight -/

def MAX_OBSERVATION_AGE_MS : ℕ := 5000

/-- `LakeCommandPreflightDecisionV1`. -/
inductive LakeCommandPreflightDecisionV1 where
  | ReadyForExplicitApproval
deriving DecidableEq

/-- `LakeCommandPreflightRejectionV1`. -/
inductive LakeCommandPreflightRejectionV1 where
  | RequestInvalid
  | ObservationTimeInvalid
  | ExecutableInvalid
  | ExecutableMismatch
deriving DecidableEq

/-- `LakeCommandPreflightV1`. -/
structure LakeCommandPreflightV1 where
  schema_version : UInt8
  decision : LakeCommandPreflightDecisionV1
  request_id : Sha256
  plan_report_sha256 : Sha256
  inventory_snapshot_sha256 : Sha256
  executable_sha256 : Sha256
  observed_at_unix_ms : UInt64
  execution_authority : PlanExecutionAuthorityV1
deriving DecidableEq

/-- `LakeCommandPreflightError`. -/
structure LakeCommandPreflightError where
  rejection : LakeCommandPreflightRejectionV1
  message : Str
deriving DecidableEq

abbrev PreflightResult (α : Type) := Except LakeCommandPreflightError α

/-- The observation is of a time in the range of the times, not after now and not older than
five seconds. -/
def current_observation (observed_at_unix_ms observed_now_unix_ms : UInt64) : Prop :=
  observed_at_unix_ms.toNat ≠ 0 ∧ observed_at_unix_ms.toNat ≤ MAX_SAFE_INTEGER ∧
    observed_now_unix_ms.toNat ≤ MAX_SAFE_INTEGER ∧
    observed_at_unix_ms.toNat ≤ observed_now_unix_ms.toNat ∧
    observed_now_unix_ms.toNat - observed_at_unix_ms.toNat ≤ MAX_OBSERVATION_AGE_MS

instance (observed_at_unix_ms observed_now_unix_ms : UInt64) :
    Decidable (current_observation observed_at_unix_ms observed_now_unix_ms) :=
  inferInstanceAs (Decidable (_ ∧ _ ∧ _ ∧ _ ∧ _))

/-- The observation is of the executable of the plan. -/
def same_executable (observation : LakeExecutableObservationV1) (plan : LakeCommandPlanV1) : Prop :=
  observation.canonical_path = plan.executable ∧ observation.lake_version = plan.lake_version ∧
    observation.sha256 = plan.executable_sha256 ∧
    observation.byte_length = plan.executable_byte_length ∧
    observation.unix_mode = plan.executable_unix_mode ∧
    observation.regular_file = plan.executable_regular_file ∧
    observation.symlink_free = plan.executable_symlink_free

instance (observation : LakeExecutableObservationV1) (plan : LakeCommandPlanV1) :
    Decidable (same_executable observation plan) :=
  inferInstanceAs (Decidable (_ ∧ _ ∧ _ ∧ _ ∧ _ ∧ _ ∧ _))

/-- `lake_command_preflight_v1`. -/
def lake_command_preflight_v1 (request : LakeCommandApprovalRequestV1)
    (fresh_plan : LakeCommandPlanV1) (fresh_executable : LakeExecutableObservationV1)
    (observed_at_unix_ms observed_now_unix_ms : UInt64) : PreflightResult LakeCommandPreflightV1 := do
  (verify_lake_command_approval_request_v1 request fresh_plan observed_now_unix_ms).mapError
    fun error => ⟨.RequestInvalid, error.message⟩
  let _ ← ensure (current_observation observed_at_unix_ms observed_now_unix_ms)
    ⟨.ObservationTimeInvalid,
      "executable observation must be current, ordered, and at most five seconds old".toList⟩
  let _ ← ensure (fresh_executable.schema_version = 1 ∧
      safe_executable fresh_executable.regular_file fresh_executable.symlink_free
        fresh_executable.byte_length fresh_executable.unix_mode = true)
    ⟨.ExecutableInvalid, "fresh Lake executable observation is not safe".toList⟩
  let _ ← ensure (same_executable fresh_executable fresh_plan)
    ⟨.ExecutableMismatch,
      "fresh Lake executable observation differs from the reviewed plan".toList⟩
  return ⟨1, .ReadyForExplicitApproval, request.request_id, request.plan_report_sha256,
    request.inventory_snapshot_sha256, fresh_executable.sha256, observed_at_unix_ms, .Withheld⟩

end LeanBun.Plan
