/-
The readers of project bindings and of image attestations.

Both documents are written by the TypeScript side and read here from strict JSON. The readers
know every field, bound every text, and accept a list of texts only in the strict order of
their bytes. The identity in an attestation has to derive the image it is asked for.
-/
import LeanBun.Core.Identity
import LeanBun.Evidence.Documents
import LeanBun.Evidence.ImageIdentity
import LeanBun.Lib.Utf8Order
import LeanBun.Managed.Record

set_option autoImplicit false

namespace LeanBun.Evidence.Stored

open LeanBun.Lib LeanBun.Core LeanBun.Codec
open LeanBun.Managed (valid_build_target)

def PROJECT_BINDING_MAX_BYTES : ℕ := 1024 * 1024
def MAX_ALLOWED_TARGETS : ℕ := 256
def IMAGE_ATTESTATION_MAX_BYTES : ℕ := 1024 * 1024
def MAX_MISSING_ARTIFACT_ROOTS : ℕ := 4096
def MAX_SAFE_JSON_INTEGER : ℕ := 9007199254740991

/-! ## Errors -/

/-- `DiagnosticCode`, as far as these readers report it. -/
inductive DiagnosticCode where
  | JSON_MALFORMED
  | BINDING_INVALID
  | ATTESTATION_INVALID
deriving DecidableEq

structure EvidenceError where
  code : DiagnosticCode
  message : Str
deriving DecidableEq

abbrev EvidenceResult (α : Type) := Except EvidenceError α

/-- `invalid`, with the parts of its text. -/
def invalid (code : DiagnosticCode) (parts : List Str) : EvidenceError := ⟨code, parts.flatten⟩

/-! ## Fields

The two files have the same readers of fields; they differ in the code of their errors and in
the label of the document. -/

section Fields

variable (code : DiagnosticCode)

/-- `object`. -/
def object (value : StrictJson) (label : String) : EvidenceResult Entries :=
  match value with
  | .Object entries => .ok entries
  | _ => .error (invalid code [label.toList, " must be an object".toList])

/-- `required_object`. -/
def required_object (root : Entries) (field label : String) : EvidenceResult Entries :=
  match get root field with
  | some value => object code value field
  | none => .error (invalid code [label.toList, " is missing ".toList, field.toList])

/-- `reject_unknown_fields`. -/
def reject_unknown_fields (root : Entries) (allowed : List String) (label : String) :
    EvidenceResult Unit :=
  match root.find? fun entry => !allowed.any fun field => decide (field.toList = entry.1) with
  | some entry =>
    .error (invalid code ["unknown ".toList, label.toList, " field: ".toList, entry.1])
  | none => .ok ()

/-- `required_one`. -/
def required_one (root : Entries) (field label : String) : EvidenceResult Unit :=
  match get root field with
  | some (.Number number) =>
    if number.lexical = ['1'] then .ok ()
    else .error (invalid code [label.toList, " ".toList, field.toList, " must be integer 1".toList])
  | some _ =>
    .error (invalid code [label.toList, " ".toList, field.toList, " must be integer 1".toList])
  | none => .error (invalid code [label.toList, " is missing ".toList, field.toList])

/-- `required_string`. -/
def required_string (root : Entries) (field : String) (maximum_bytes : ℕ) (label : String) :
    EvidenceResult Str :=
  match get root field with
  | some (.String value) =>
    if byte_len value ≤ maximum_bytes then .ok value
    else .error (invalid code [label.toList, " ".toList, field.toList, " exceeds byte limit".toList])
  | some _ =>
    .error (invalid code [label.toList, " ".toList, field.toList, " must be a string".toList])
  | none => .error (invalid code [label.toList, " is missing ".toList, field.toList])

/-- `required_nonempty_string`. -/
def required_nonempty_string (root : Entries) (field : String) (maximum_bytes : ℕ)
    (label : String) : EvidenceResult Str := do
  let value ← required_string code root field maximum_bytes label
  let _ ← ensure (value ≠ [])
    (invalid code [label.toList, " ".toList, field.toList, " must not be empty".toList])
  return value

/-- `reject_control_characters`. -/
def reject_control_characters (value : Str) (field label : String) : EvidenceResult Unit := do
  let _ ← ensure (value.any is_control = false)
    (invalid code [label.toList, " ".toList, field.toList, " contains control characters".toList])
  return ()

/-- A text that is a digest. -/
def parse_digest (value : Str) (message : String) : EvidenceResult Sha256 :=
  match Sha256.parse value with
  | some digest => .ok digest
  | none => .error (invalid code [message.toList])

/-- **A list of texts** in the strict order of their bytes, each of which is decoded: the loop
over the targets of a binding and over the missing roots of an attestation. -/
def sorted_texts {α : Type} (not_text : String) (decode : Str → EvidenceResult α)
    (duplicate : String) (unsorted : String) :
    List Str → Option Str → List StrictJson → EvidenceResult (List α)
  | _, _, [] => .ok []
  | names, previous, .String text :: values => do
    let decoded ← decode text
    let _ ← ensure (text ∉ names) (invalid code [duplicate.toList, text])
    let _ ← ensure (previous.any (fun value => decide (byte_key text ≤ byte_key value)) = false)
      (invalid code [unsorted.toList])
    let rest ← sorted_texts not_text decode duplicate unsorted (text :: names) (some text) values
    return decoded :: rest
  | _, _, _ :: _ => .error (invalid code [not_text.toList])

end Fields

/-! ## Timestamps -/

/-- The bytes of a text from one index to another. -/
def slice (value : Str) (start stop : ℕ) : Str := (value.drop start).take (stop - start)

/-- `valid_canonical_timestamp`: `YYYY-MM-DDTHH:mm:ss.sssZ`. The source looks at the bytes; a
character that takes more than one of them is refused either way. -/
def valid_canonical_timestamp (value : Str) : Bool :=
  decide (value.length = 24) &&
  [(4, '-'), (7, '-'), (10, 'T'), (13, ':'), (16, ':'), (19, '.'), (23, 'Z')].all
    (fun entry => decide (value[entry.1]? = some entry.2)) &&
  [(0, 4), (5, 7), (8, 10), (11, 13), (14, 16), (17, 19), (20, 23)].all
    (fun range => (slice value range.1 range.2).all is_digit) &&
  let year := decimal_value (slice value 0 4)
  let month := decimal_value (slice value 5 7)
  let day := decimal_value (slice value 8 10)
  let leap := decide (year % 4 = 0) && (decide (year % 100 ≠ 0) || decide (year % 400 = 0))
  let maximum_day := if month = 2 then if leap then 29 else 28
    else if month = 4 ∨ month = 6 ∨ month = 9 ∨ month = 11 then 30 else 31
  decide (year ≠ 0) && decide (1 ≤ month ∧ month ≤ 12) &&
    decide (decimal_value (slice value 11 13) ≤ 23) &&
    decide (decimal_value (slice value 14 16) ≤ 59) &&
    decide (decimal_value (slice value 17 19) ≤ 59) && decide (1 ≤ day ∧ day ≤ maximum_day)

/-! ## Bindings -/

/-- `BuildTarget`. -/
structure BuildTarget where
  as_str : Str
  valid : valid_build_target as_str = true

theorem BuildTarget.ext_iff {a b : BuildTarget} : a = b ↔ a.as_str = b.as_str := by
  cases a
  cases b
  simp

instance : DecidableEq BuildTarget := fun a b =>
  decidable_of_iff (a.as_str = b.as_str) BuildTarget.ext_iff.symm

/-- `BuildTarget::parse`, with the error of a binding. -/
def BuildTarget.parse (value : Str) : EvidenceResult BuildTarget := do
  let ⟨hvalid⟩ ← ensure (valid_build_target value = true)
    (invalid .BINDING_INVALID ["binding target is invalid: ".toList, value])
  return ⟨value, hvalid⟩

/-- `ProjectBindingV1`; `ImageId` is its digest. -/
structure ProjectBindingV1 where
  project_id : ProjectId
  project_path : Str
  image_id : Sha256
  provider_id : Str
  bound_at : Str
  manifest_sha256 : Sha256
  toolchain : Str
  allowed_targets : List BuildTarget
  last_verified_at : Str
deriving DecidableEq

namespace Binding

def ROOT_FIELDS : List String :=
  ["allowedTargets", "boundAt", "imageId", "lastVerifiedAt", "manifestSha256", "policyVersion",
    "projectId", "projectPath", "providerId", "schemaVersion", "toolchain"]

/-- The targets of a binding. -/
def decode_targets (root : Entries) : EvidenceResult (List BuildTarget) :=
  match get root "allowedTargets" with
  | some (.Array targets) => do
    let _ ← ensure (targets ≠ [] ∧ targets.length ≤ MAX_ALLOWED_TARGETS) (invalid .BINDING_INVALID
      ["binding allowedTargets count must be between 1 and ".toList, decimal MAX_ALLOWED_TARGETS])
    sorted_texts .BINDING_INVALID "binding target must be a string" BuildTarget.parse
      "duplicate binding target: " "binding allowedTargets must be UTF-8 bytewise sorted" [] none
      targets
  | some _ => .error (invalid .BINDING_INVALID ["binding allowedTargets must be an array".toList])
  | none => .error (invalid .BINDING_INVALID ["binding is missing allowedTargets".toList])

/-- The timestamps of a binding. -/
def decode_timestamps (root : Entries) : EvidenceResult (Str × Str) := do
  let bound_at ← required_string .BINDING_INVALID root "boundAt" 24 "binding"
  let last_verified_at ← required_string .BINDING_INVALID root "lastVerifiedAt" 24 "binding"
  let _ ← ensure ((valid_canonical_timestamp bound_at &&
      valid_canonical_timestamp last_verified_at) = true) (invalid .BINDING_INVALID
    ["binding timestamps must use canonical YYYY-MM-DDTHH:mm:ss.sssZ UTC format".toList])
  let _ ← ensure (¬byte_key last_verified_at < byte_key bound_at)
    (invalid .BINDING_INVALID ["binding lastVerifiedAt precedes boundAt".toList])
  return (bound_at, last_verified_at)

end Binding

/-- `decode_project_binding`. -/
def decode_project_binding (value : StrictJson) (canonical_project_path : Str) :
    EvidenceResult ProjectBindingV1 := do
  let _ ← ensure (canonical_project_path ≠ [] ∧ byte_len canonical_project_path ≤ MAX_PATH_BYTES)
    (invalid .BINDING_INVALID ["canonical project path is empty or exceeds limit".toList])
  let root ← object .BINDING_INVALID value "binding root"
  reject_unknown_fields .BINDING_INVALID root Binding.ROOT_FIELDS "binding"
  required_one .BINDING_INVALID root "schemaVersion" "binding"
  required_one .BINDING_INVALID root "policyVersion" "binding"
  let encoded_project_id ←
    required_string .BINDING_INVALID root "projectId" MAX_SHORT_STRING_BYTES "binding"
  let parsed_project_id ← parse_digest .BINDING_INVALID encoded_project_id
    "binding projectId must be a lowercase SHA-256 value"
  let _ ← ensure (ProjectId.mk parsed_project_id = project_id canonical_project_path)
    (invalid .BINDING_INVALID ["binding projectId does not match canonical project path".toList])
  let project_path ← required_string .BINDING_INVALID root "projectPath" MAX_PATH_BYTES "binding"
  let _ ← ensure (project_path = canonical_project_path)
    (invalid .BINDING_INVALID ["binding projectPath does not match canonical project path".toList])
  let encoded_image_id ←
    required_string .BINDING_INVALID root "imageId" MAX_SHORT_STRING_BYTES "binding"
  let image_id ← parse_digest .BINDING_INVALID encoded_image_id
    "binding imageId must be a lowercase SHA-256 value"
  let encoded_manifest ←
    required_string .BINDING_INVALID root "manifestSha256" MAX_SHORT_STRING_BYTES "binding"
  let manifest_sha256 ← parse_digest .BINDING_INVALID encoded_manifest
    "binding manifestSha256 must be a lowercase SHA-256 value"
  let provider_id ←
    required_nonempty_string .BINDING_INVALID root "providerId" MAX_SHORT_STRING_BYTES "binding"
  let toolchain ←
    required_nonempty_string .BINDING_INVALID root "toolchain" MAX_SHORT_STRING_BYTES "binding"
  reject_control_characters .BINDING_INVALID provider_id "providerId" "binding"
  reject_control_characters .BINDING_INVALID toolchain "toolchain" "binding"
  let times ← Binding.decode_timestamps root
  let allowed_targets ← Binding.decode_targets root
  return ⟨⟨parsed_project_id⟩, project_path, image_id, provider_id, times.1, manifest_sha256,
    toolchain, allowed_targets, times.2⟩

/-- `From<StrictJsonError>`. -/
def of_json_result {α : Type} (result : Except StrictJsonError α) : EvidenceResult α :=
  result.mapError fun error => ⟨.JSON_MALFORMED, error.message⟩

/-- `parse_project_binding`. -/
def parse_project_binding (text canonical_project_path : Str) : EvidenceResult ProjectBindingV1 := do
  let value ← of_json_result (parse_strict_json text)
  decode_project_binding value canonical_project_path

/-! ## Attestations -/

/-- `AttestationProviderV1`. -/
structure AttestationProviderV1 where
  registry_sha256 : Sha256
  overrides_sha256 : Sha256
deriving DecidableEq

/-- `ImageAttestationV1`; its artifact policy is the list of its missing roots. -/
structure ImageAttestationV1 where
  image_id : Sha256
  provider_id : Str
  identity : ImageIdentityV1
  provider : AttestationProviderV1
  dependency_tree_hash : Sha256
  artifact_tree_hash : Sha256
  artifact_count : ℕ
  missing_roots : List Str
  sealed_at : Str
deriving DecidableEq

namespace Attestation

def ROOT_FIELDS : List String :=
  ["artifactCount", "artifactPolicy", "artifactTreeHash", "dependencyTreeHash", "identity",
    "imageId", "provider", "providerId", "schemaVersion", "sealedAt", "status"]

def IDENTITY_FIELDS : List String :=
  ["buildRelevantConfigHash", "canonicalManifestHash", "leanCompilerGithash", "leanToolchain",
    "mathlibRevision", "packageSourceTreeHash", "schemaVersion", "targetPlatform"]

def PROVIDER_FIELDS : List String := ["overridesSha256", "registrySha256"]

def ARTIFACT_POLICY_FIELDS : List String := ["missingRoots"]

/-- `required_sha256`. -/
def required_sha256 (root : Entries) (field label : String) : EvidenceResult Sha256 := do
  let value ← required_string .ATTESTATION_INVALID root field 64 label
  parse_digest .ATTESTATION_INVALID value (label ++ " " ++ field ++ " must be a lowercase SHA-256 value")

/-- `required_git_revision`. -/
def required_git_revision (root : Entries) (field : String) : EvidenceResult Str := do
  let revision ← required_string .ATTESTATION_INVALID root field 40 "image identity"
  let _ ← ensure ((decide (byte_len revision = 40) && revision.all is_lower_hex) = true)
    (invalid .ATTESTATION_INVALID ["image identity ".toList, field.toList,
      " must be a lowercase 40-character Git revision".toList])
  return revision

/-- `required_safe_integer`: a number of digits only. Whatever exceeds a 64-bit integer exceeds
the safe range as well. -/
def required_safe_integer (root : Entries) (field label : String) : EvidenceResult ℕ :=
  match get root field with
  | some (.Number number) => do
    let _ ← ensure (number.lexical ≠ [] ∧ number.lexical.all is_digit = true)
      (invalid .ATTESTATION_INVALID
        [label.toList, " ".toList, field.toList, " must be a nonnegative integer".toList])
    let _ ← ensure (decimal_value number.lexical < 2 ^ 64) (invalid .ATTESTATION_INVALID
      [label.toList, " ".toList, field.toList, " exceeds integer range".toList])
    let _ ← ensure (decimal_value number.lexical ≤ MAX_SAFE_JSON_INTEGER)
      (invalid .ATTESTATION_INVALID
        [label.toList, " ".toList, field.toList, " exceeds JSON safe integer range".toList])
    return decimal_value number.lexical
  | _ => .error (invalid .ATTESTATION_INVALID
      [label.toList, " ".toList, field.toList, " must be an integer".toList])

/-- `decode_identity`. -/
def decode_identity (root : Entries) : EvidenceResult ImageIdentityV1 := do
  reject_unknown_fields .ATTESTATION_INVALID root IDENTITY_FIELDS "image identity"
  required_one .ATTESTATION_INVALID root "schemaVersion" "image identity"
  let lean_toolchain ← required_nonempty_string .ATTESTATION_INVALID root "leanToolchain"
    MAX_SHORT_STRING_BYTES "image identity"
  let lean_compiler_githash ← required_git_revision root "leanCompilerGithash"
  let mathlib_revision ← required_git_revision root "mathlibRevision"
  let canonical_manifest_hash ← required_sha256 root "canonicalManifestHash" "image identity"
  let package_source_tree_hash ← required_sha256 root "packageSourceTreeHash" "image identity"
  let build_relevant_config_hash ← required_sha256 root "buildRelevantConfigHash" "image identity"
  let target_platform ← required_nonempty_string .ATTESTATION_INVALID root "targetPlatform"
    MAX_SHORT_STRING_BYTES "image identity"
  reject_control_characters .ATTESTATION_INVALID lean_toolchain "leanToolchain" "attestation"
  reject_control_characters .ATTESTATION_INVALID target_platform "targetPlatform" "attestation"
  return ⟨lean_toolchain, lean_compiler_githash, mathlib_revision, canonical_manifest_hash,
    package_source_tree_hash, build_relevant_config_hash, target_platform⟩

/-- `decode_provider`. -/
def decode_provider (root : Entries) : EvidenceResult AttestationProviderV1 := do
  reject_unknown_fields .ATTESTATION_INVALID root PROVIDER_FIELDS "attestation provider"
  let registry_sha256 ← required_sha256 root "registrySha256" "attestation provider"
  let overrides_sha256 ← required_sha256 root "overridesSha256" "attestation provider"
  return ⟨registry_sha256, overrides_sha256⟩

/-- One missing root. -/
def decode_root (root : Str) : EvidenceResult Str := do
  let _ ← ensure (root ≠ [] ∧ byte_len root ≤ MAX_SHORT_STRING_BYTES) (invalid .ATTESTATION_INVALID
    ["artifact policy missing root is empty or exceeds limit".toList])
  reject_control_characters .ATTESTATION_INVALID root "artifactPolicy.missingRoots" "attestation"
  return root

/-- `decode_artifact_policy`. -/
def decode_artifact_policy (root : Entries) : EvidenceResult (List Str) := do
  reject_unknown_fields .ATTESTATION_INVALID root ARTIFACT_POLICY_FIELDS "artifact policy"
  match get root "missingRoots" with
  | some (.Array roots) => do
    let _ ← ensure (roots.length ≤ MAX_MISSING_ARTIFACT_ROOTS) (invalid .ATTESTATION_INVALID
      ["artifact policy missingRoots exceeds ".toList, decimal MAX_MISSING_ARTIFACT_ROOTS,
        " entries".toList])
    sorted_texts .ATTESTATION_INVALID "artifact policy missing root must be a string" decode_root
      "duplicate artifact missing root: " "artifact missing roots must be UTF-8 bytewise sorted"
      [] none roots
  | some _ => .error (invalid .ATTESTATION_INVALID
      ["artifact policy missingRoots must be an array".toList])
  | none => .error (invalid .ATTESTATION_INVALID ["artifact policy is missing missingRoots".toList])

end Attestation

open Attestation in
/-- `decode_image_attestation`. -/
def decode_image_attestation (value : StrictJson) (requested_image_id : Sha256) :
    EvidenceResult ImageAttestationV1 := do
  let root ← object .ATTESTATION_INVALID value "attestation root"
  reject_unknown_fields .ATTESTATION_INVALID root ROOT_FIELDS "attestation root"
  required_one .ATTESTATION_INVALID root "schemaVersion" "attestation"
  let status ← required_string .ATTESTATION_INVALID root "status" MAX_SHORT_STRING_BYTES "attestation"
  let _ ← ensure (status = "sealed".toList)
    (invalid .ATTESTATION_INVALID ["attestation status must be sealed".toList])
  let encoded_image_id ←
    required_string .ATTESTATION_INVALID root "imageId" MAX_SHORT_STRING_BYTES "attestation"
  let document_image_id ← parse_digest .ATTESTATION_INVALID encoded_image_id
    "attestation imageId must be a lowercase SHA-256 value"
  let _ ← ensure (document_image_id = requested_image_id)
    (invalid .ATTESTATION_INVALID ["attestation imageId does not match requested image".toList])
  let provider_id ← required_nonempty_string .ATTESTATION_INVALID root "providerId"
    MAX_SHORT_STRING_BYTES "attestation"
  reject_control_characters .ATTESTATION_INVALID provider_id "providerId" "attestation"
  let identity_root ← required_object .ATTESTATION_INVALID root "identity" "attestation"
  let identity ← decode_identity identity_root
  let _ ← ensure (image_id identity = requested_image_id) (invalid .ATTESTATION_INVALID
    ["attestation identity does not derive requested imageId".toList])
  let provider_root ← required_object .ATTESTATION_INVALID root "provider" "attestation"
  let provider ← decode_provider provider_root
  let _ ← ensure (provider.registry_sha256 = identity.canonical_manifest_hash)
    (invalid .ATTESTATION_INVALID
      ["attestation provider registry digest differs from canonical manifest digest".toList])
  let dependency_tree_hash ← required_sha256 root "dependencyTreeHash" "attestation"
  let artifact_tree_hash ← required_sha256 root "artifactTreeHash" "attestation"
  let artifact_count ← required_safe_integer root "artifactCount" "attestation"
  let policy_root ← required_object .ATTESTATION_INVALID root "artifactPolicy" "attestation"
  let missing_roots ← decode_artifact_policy policy_root
  let sealed_at ← required_string .ATTESTATION_INVALID root "sealedAt" 24 "attestation"
  let _ ← ensure (valid_canonical_timestamp sealed_at = true) (invalid .ATTESTATION_INVALID
    ["attestation sealedAt must use canonical YYYY-MM-DDTHH:mm:ss.sssZ UTC format".toList])
  return ⟨document_image_id, provider_id, identity, provider, dependency_tree_hash,
    artifact_tree_hash, artifact_count, missing_roots, sealed_at⟩

/-- `parse_image_attestation`. -/
def parse_image_attestation (text : Str) (requested_image_id : Sha256) :
    EvidenceResult ImageAttestationV1 := do
  let value ← of_json_result (parse_strict_json text)
  decode_image_attestation value requested_image_id

end LeanBun.Evidence.Stored
