/-
The contract of `lake update`, and the check of a plan against it.

The contract is a fixture of facts about one version of Lake, each with its place in a
source. A fact can require something of the arguments, name an effect or a risk that the
plan must name too, or ask for a mitigation. The check knows nothing of the planner: it
reads the fixture and looks at the plan.
-/
import LeanBun.Plan.Update

set_option autoImplicit false

namespace LeanBun.Plan

open LeanBun.Lib LeanBun.Core
open LeanBun.Approval (PlanExecutionAuthorityV1)

/-! ## The fixtures -/

/-- A file of lines, each with its fields separated by tabs. -/
def tsv (rows : List (List String)) : Str :=
  unlines (rows.map fun row => tab_line (row.map String.toList))

def source_rows : List (List String) := [
  ["help", "lean-source", "Lake/CLI/Help.lean",
    "7f515afd6447ce1f36e01c4908d22f4f9036ddbf5124ba07aa0858b06f34dd11"],
  ["main", "lean-source", "Lake/CLI/Main.lean",
    "4b95ab56b87319c0a1e2b55d0d31e3c077977a376020c326579d0802b9399010"],
  ["workspace", "lean-source", "Lake/Load/Workspace.lean",
    "dd23a173478243833d443dae8ffd28695f9a9b0ca00dd03ee88d039d1f6dd129"],
  ["resolve", "lean-source", "Lake/Load/Resolve.lean",
    "b1cce0ebebbcd620906750760a1c6b5ff50b26e18caba946888f48b391390516"],
  ["materialize", "lean-source", "Lake/Load/Materialize.lean",
    "3b031d66f31afb202a8022cfbae05ac402f39d7f92831e85f7057c360ed9439c"],
  ["reference", "html-reference", "lake.html",
    "953e20b4ad9bde03cf6ec25801a880f09fa9ebddcafbcde96fcad4bdfc8d5acf"]]

/-- `config/lake-update-contract-sources-v1.tsv`. -/
def SOURCES_V1 : Str := tsv source_rows

def fact_rows : List (List String) := [
  ["targeted-usage", "help", "199", "200", "explicit-packages", "none", "none",
    "require-explicit-packages"],
  ["canonical-command", "help", "199", "202", "canonical-update-command", "none", "none",
    "use-canonical-update-command"],
  ["bare-updates-all", "help", "214", "214", "explicit-packages", "none", "CheckoutMutation",
    "reject-bare-update"],
  ["project-config-load", "workspace", "56", "65", "none", "LoadAndExecuteProjectConfiguration",
    "UntrustedProjectConfigurationExecution", "none"],
  ["package-overrides", "main", "330", "334", "none", "ReadPackageOverrides", "none", "none"],
  ["manifest-rewrite", "resolve", "501", "517", "none", "RewriteManifest", "ManifestRewrite",
    "none"],
  ["lake-directory-mutation", "help", "204", "207", "none", "CreateOrModifyLakeDirectory",
    "LakeInternalStateMutation", "none"],
  ["remote-content", "materialize", "84", "94", "none", "FetchRemotePackageContent",
    "NetworkAndRemoteContent", "none"],
  ["checkout-materialization", "materialize", "84", "94", "none",
    "CreateOrModifyPackageCheckouts", "CheckoutMutation", "none"],
  ["post-update-hooks", "resolve", "519", "539", "none", "ExecutePostUpdateHooks",
    "PostUpdateHookExecution", "none"],
  ["keep-toolchain-parser", "main", "275", "276", "keep-toolchain", "none", "none",
    "include-keep-toolchain"],
  ["toolchain-restart-default", "resolve", "419", "425", "keep-toolchain", "none",
    "LakeInternalStateMutation", "include-keep-toolchain"],
  ["toolchain-reference", "reference", "4395", "4427", "keep-toolchain", "none",
    "LakeInternalStateMutation", "include-keep-toolchain"]]

/-- `config/lake-update-contract-v1.tsv`. -/
def FACTS_V1 : Str := tsv fact_rows

/-- `LakeUpdateContractSourceV1`. -/
structure LakeUpdateContractSourceV1 where
  id : Str
  kind : Str
  version_relative_path : Str
  sha256 : Str
deriving DecidableEq

/-- `LakeUpdateRequirementV1`. -/
inductive LakeUpdateRequirementV1 where
  | ExplicitPackages
  | CanonicalUpdateCommand
  | KeepToolchain
deriving DecidableEq

/-- `LakeUpdateMitigationV1`. -/
inductive LakeUpdateMitigationV1 where
  | RequireExplicitPackages
  | RejectBareUpdate
  | UseCanonicalUpdateCommand
  | IncludeKeepToolchain
deriving DecidableEq

/-- `LakeUpdateContractFactV1`. -/
structure LakeUpdateContractFactV1 where
  id : Str
  source_id : Str
  line_start : ℕ
  line_end : ℕ
  requirement : Option LakeUpdateRequirementV1
  effect : Option PlannedEffectV1
  risk : Option PlanRiskV1
  mitigation : Option LakeUpdateMitigationV1
deriving DecidableEq

/-- `LakeUpdateContractV1`. -/
structure LakeUpdateContractV1 where
  schema_version : UInt8
  lake_version : Str
  sources : List LakeUpdateContractSourceV1
  facts : List LakeUpdateContractFactV1
deriving DecidableEq

/-- `LakeUpdateContractError`. -/
structure LakeUpdateContractError where
  message : Str
deriving DecidableEq

abbrev ContractResult (α : Type) := Except LakeUpdateContractError α

/-! ## Reading the fixtures -/

/-- `valid_token`. -/
def valid_token (value : Str) : Bool :=
  !value.isEmpty && value.all fun c =>
    decide ('a' ≤ c ∧ c ≤ 'z') || decide ('0' ≤ c ∧ c ≤ '9') || decide (c = '-')

/-- `valid_sha256`. -/
def valid_sha256 (value : Str) : Bool := decide (byte_len value = 64) && value.all is_lower_hex

/-- A message with the number of the line behind it. -/
def at_line (message : String) (index : ℕ) : LakeUpdateContractError :=
  ⟨message.toList ++ decimal (index + 1)⟩

/-- `parse_line_number`. -/
def parse_line_number (value : Str) (index : ℕ) : ContractResult ℕ :=
  match usize_from_str value with
  | none => .error (at_line "invalid source line at contract line " index)
  | some n =>
    if n < 2 ^ 32 ∧ 0 < n then .ok n
    else .error (at_line "invalid source line at contract line " index)

/-- The value for a name in a table, `none` for the name `none`: `parse_requirement` and its
siblings. -/
def parse_enum {α : Type} (kind : String) (table : List (String × α)) (value : Str) (index : ℕ) :
    ContractResult (Option α) :=
  if value = "none".toList then .ok none
  else match table.find? fun entry => decide (entry.1.toList = value) with
    | none => .error (at_line ("invalid " ++ kind ++ " at contract line ") index)
    | some entry => .ok (some entry.2)

def parse_requirement : Str → ℕ → ContractResult (Option LakeUpdateRequirementV1) :=
  parse_enum "requirement" [("explicit-packages", .ExplicitPackages),
    ("canonical-update-command", .CanonicalUpdateCommand), ("keep-toolchain", .KeepToolchain)]

def parse_effect : Str → ℕ → ContractResult (Option PlannedEffectV1) :=
  parse_enum "effect"
    [("LoadAndExecuteProjectConfiguration", .LoadAndExecuteProjectConfiguration),
    ("ReadPackageOverrides", .ReadPackageOverrides), ("RewriteManifest", .RewriteManifest),
    ("CreateOrModifyLakeDirectory", .CreateOrModifyLakeDirectory),
    ("FetchRemotePackageContent", .FetchRemotePackageContent),
    ("CreateOrModifyPackageCheckouts", .CreateOrModifyPackageCheckouts),
    ("ExecutePostUpdateHooks", .ExecutePostUpdateHooks)]

def parse_risk : Str → ℕ → ContractResult (Option PlanRiskV1) :=
  parse_enum "risk"
    [("UntrustedProjectConfigurationExecution", .UntrustedProjectConfigurationExecution),
    ("NetworkAndRemoteContent", .NetworkAndRemoteContent), ("ManifestRewrite", .ManifestRewrite),
    ("CheckoutMutation", .CheckoutMutation),
    ("LakeInternalStateMutation", .LakeInternalStateMutation),
    ("PostUpdateHookExecution", .PostUpdateHookExecution)]

def parse_mitigation : Str → ℕ → ContractResult (Option LakeUpdateMitigationV1) :=
  parse_enum "mitigation" [("require-explicit-packages", .RequireExplicitPackages),
    ("reject-bare-update", .RejectBareUpdate),
    ("use-canonical-update-command", .UseCanonicalUpdateCommand),
    ("include-keep-toolchain", .IncludeKeepToolchain)]

/-- The fields of a source, behind the sources before it. -/
def parse_source_fields (sources : List LakeUpdateContractSourceV1) (fields : List Str)
    (index : ℕ) : ContractResult (List LakeUpdateContractSourceV1) :=
  match fields with
  | [id, kind, path, sha256] => do
    let _ ← ensure (valid_token id = true ∧ id ∉ sources.map LakeUpdateContractSourceV1.id)
      (at_line "invalid or duplicate source id at line " index)
    let _ ← ensure ((kind = "lean-source".toList ∨ kind = "html-reference".toList) ∧ path ≠ [] ∧
        path.head? ≠ some '/' ∧
        (∀ part ∈ split '/' path, part ≠ [] ∧ part ≠ ['.'] ∧ part ≠ ['.', '.']) ∧
        valid_sha256 sha256 = true)
      (at_line "invalid source metadata at line " index)
    return sources ++ [⟨id, kind, path, sha256⟩]
  | _ => .error ⟨"source fixture line ".toList ++ decimal (index + 1) ++
      " must contain four fields".toList⟩

/-- The fields of a fact, behind the facts before it. -/
def parse_fact_fields (source_ids : List Str) (facts : List LakeUpdateContractFactV1)
    (fields : List Str) (index : ℕ) : ContractResult (List LakeUpdateContractFactV1) :=
  match fields with
  | [id, source_id, line_start, line_end, requirement, effect, risk, mitigation] => do
    let _ ← ensure (valid_token id = true ∧ id ∉ facts.map LakeUpdateContractFactV1.id)
      (at_line "invalid or duplicate fact id at line " index)
    let _ ← ensure (source_id ∈ source_ids) (at_line "unknown source id at contract line " index)
    let line_start ← parse_line_number line_start index
    let line_end ← parse_line_number line_end index
    let _ ← ensure (line_start ≤ line_end) (at_line "reversed source range at contract line " index)
    let requirement ← parse_requirement requirement index
    let effect ← parse_effect effect index
    let risk ← parse_risk risk index
    let mitigation ← parse_mitigation mitigation index
    return facts ++ [⟨id, source_id, line_start, line_end, requirement, effect, risk, mitigation⟩]
  | _ => .error ⟨"contract fixture line ".toList ++ decimal (index + 1) ++
      " must contain eight fields".toList⟩

/-- A loop over the lines of a text, given the fields and the number of each. -/
def parse_rows {β : Type} (parse : β → List Str → ℕ → ContractResult β) (text : Str) (start : β) :
    ContractResult β :=
  (lines text).zipIdx.foldlM (fun read entry => parse read (split '\t' entry.1) entry.2) start

/-- `lake_update_contract_v1`. -/
def lake_update_contract_v1 : ContractResult LakeUpdateContractV1 := do
  let sources ← parse_rows parse_source_fields SOURCES_V1 []
  let facts ← parse_rows (parse_fact_fields (sources.map LakeUpdateContractSourceV1.id)) FACTS_V1 []
  let _ ← ensure (sources ≠ [] ∧ facts ≠ [])
    ⟨"Lake update contract fixtures must not be empty".toList⟩
  return ⟨1, SUPPORTED_LAKE_VERSION, sources, facts⟩

/-! ## Checking a plan -/

/-- The first `update` among the arguments. -/
def update_position (arguments : List Str) : Option ℕ :=
  arguments.findIdx? fun argument => decide (argument = "update".toList)

/-- The arguments behind it. -/
def update_packages (arguments : List Str) : List Str :=
  match update_position arguments with
  | none => []
  | some position => arguments.drop (position + 1)

def satisfies_requirement (arguments : List Str) : LakeUpdateRequirementV1 → Bool
  | .ExplicitPackages => !(update_packages arguments).isEmpty
  | .CanonicalUpdateCommand => decide (update_position arguments = some 1) &&
      !arguments.contains "upgrade".toList
  | .KeepToolchain => decide (arguments.head? = some "--keep-toolchain".toList)

def satisfies_mitigation (arguments : List Str) : LakeUpdateMitigationV1 → Bool
  | .RequireExplicitPackages => !(update_packages arguments).isEmpty
  | .RejectBareUpdate => !(update_packages arguments).isEmpty
  | .UseCanonicalUpdateCommand => (update_position arguments).isSome &&
      !arguments.contains "upgrade".toList
  | .IncludeKeepToolchain => decide (arguments.head? = some "--keep-toolchain".toList) &&
      decide (update_position arguments = some 1)

/-- `derive(Debug)`. -/
def LakeUpdateRequirementV1.debug : LakeUpdateRequirementV1 → String
  | .ExplicitPackages => "ExplicitPackages"
  | .CanonicalUpdateCommand => "CanonicalUpdateCommand"
  | .KeepToolchain => "KeepToolchain"

def LakeUpdateMitigationV1.debug : LakeUpdateMitigationV1 → String
  | .RequireExplicitPackages => "RequireExplicitPackages"
  | .RejectBareUpdate => "RejectBareUpdate"
  | .UseCanonicalUpdateCommand => "UseCanonicalUpdateCommand"
  | .IncludeKeepToolchain => "IncludeKeepToolchain"

/-- The requirements of the facts as a set, in the order of the declaration. -/
def LakeUpdateContractV1.requirements (contract : LakeUpdateContractV1) :
    List LakeUpdateRequirementV1 :=
  [.ExplicitPackages, .CanonicalUpdateCommand, .KeepToolchain].filter fun requirement =>
    decide (requirement ∈ contract.facts.filterMap LakeUpdateContractFactV1.requirement)

/-- The mitigations of the facts as a set, in the order of the declaration. -/
def LakeUpdateContractV1.mitigations (contract : LakeUpdateContractV1) :
    List LakeUpdateMitigationV1 :=
  [.RequireExplicitPackages, .RejectBareUpdate, .UseCanonicalUpdateCommand,
    .IncludeKeepToolchain].filter fun mitigation =>
    decide (mitigation ∈ contract.facts.filterMap LakeUpdateContractFactV1.mitigation)

/-- The first loop over the arguments. -/
def check_requirement (arguments : List Str) (requirement : LakeUpdateRequirementV1) :
    ContractResult Unit := do
  let _ ← ensure (satisfies_requirement arguments requirement = true)
    ⟨"plan does not satisfy requirement ".toList ++ requirement.debug.toList⟩
  return ()

/-- The second loop over the arguments. -/
def check_mitigation (arguments : List Str) (mitigation : LakeUpdateMitigationV1) :
    ContractResult Unit := do
  let _ ← ensure (satisfies_mitigation arguments mitigation = true)
    ⟨"plan does not satisfy mitigation ".toList ++ mitigation.debug.toList⟩
  return ()

/-- `verify_lake_update_plan_contract_v1`. A set has as many elements as its list when the
list has no double. -/
def verify_lake_update_plan_contract_v1 (plan : LakeCommandPlanV1) : ContractResult Unit := do
  let contract ← lake_update_contract_v1
  let _ ← ensure (plan.schema_version = 1 ∧ plan.family = .Update ∧
      plan.lake_version = contract.lake_version)
    ⟨"plan identity does not match Lake update contract v1".toList⟩
  let _ ← ensure (plan.execution_authority = .Withheld)
    ⟨"Lake update execution authority must remain withheld".toList⟩
  let _ ← ensure (safe_executable plan.executable_regular_file plan.executable_symlink_free
      plan.executable_byte_length plan.executable_unix_mode = true)
    ⟨"plan executable identity is not safe".toList⟩
  let required_effects := contract.facts.filterMap LakeUpdateContractFactV1.effect
  let _ ← ensure (plan.expected_effects.Nodup ∧ plan.expected_effects ⊆ required_effects ∧
      required_effects ⊆ plan.expected_effects)
    ⟨"plan effects do not exactly cover the fixed Lake contract".toList⟩
  let required_risks := contract.facts.filterMap LakeUpdateContractFactV1.risk
  let _ ← ensure (plan.risks.Nodup ∧ required_risks ⊆ plan.risks)
    ⟨"plan risks omit a fixed Lake contract risk".toList⟩
  contract.requirements.forM (check_requirement plan.arguments)
  contract.mitigations.forM (check_mitigation plan.arguments)

end LeanBun.Plan
