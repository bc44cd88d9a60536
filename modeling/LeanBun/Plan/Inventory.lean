/-
The package inventory, its drift report and the digest of the two.

The drift report classifies what is known of each package: its declaration in the
manifest, its registration with the provider, the override of the project and the checkout.
The snapshot accepts only the report that the inventory determines, and is a digest of the
canonical text of both.
-/
import LeanBun.Bridge.Projection
import LeanBun.Core.Identity
import LeanBun.Lib.Lossy
import LeanBun.Lib.Sorted

set_option autoImplicit false

namespace LeanBun.Plan

open LeanBun.Lib LeanBun.Core
open LeanBun.Bridge (json_string optional_json_string)

/-! ## Paths -/

/-- `CanonicalPath` and `CanonicalDirectory`: absolute paths, as the bytes the system has. -/
structure CanonicalPath where
  bytes : List UInt8
  absolute : bytes.head? = some 0x2f
deriving DecidableEq

abbrev CanonicalDirectory := CanonicalPath

namespace CanonicalPath

/-- `Path::to_str`. -/
def to_str (path : CanonicalPath) : Option Str := from_utf8 path.bytes

/-- `Path::to_string_lossy`, and what `Display` shows. -/
def to_string_lossy (path : CanonicalPath) : Str := from_utf8_lossy path.bytes

/-- `Path::components`, without the root. -/
def components (path : CanonicalPath) : List (List UInt8) :=
  (path.bytes.splitOn 0x2f).filter fun part => decide (part ≠ []) && decide (part ≠ [0x2e])

/-- `Path::starts_with`. -/
def starts_with (path base : CanonicalPath) : Bool := base.components.isPrefixOf path.components

/-- `Path::file_name`. A canonical path has no `..`. -/
def file_name (path : CanonicalPath) : Option (List UInt8) := path.components.getLast?

end CanonicalPath

/-! ## The inventory -/

/-- What `GitRevision::parse` accepts. -/
def valid_revision (value : Str) : Bool := decide (byte_len value = 40) && value.all is_lower_hex

/-- `GitRevision`. -/
structure GitRevision where
  as_str : Str
  valid : valid_revision as_str = true
deriving DecidableEq

/-- `CheckoutObservationStateV1`. -/
inductive CheckoutObservationStateV1 where
  | Unobserved
  | Missing
  | Present (directory : CanonicalPath) (revision : Option GitRevision) (dirty : Option Bool)
deriving DecidableEq

/-- `DeclaredPackageSourceV1`. -/
inductive DeclaredPackageSourceV1 where
  | Git (revision : GitRevision)
  | Path (declared_directory : Str)
deriving DecidableEq

/-- `ProviderPackageRegistrationV1`. -/
structure ProviderPackageRegistrationV1 where
  revision : GitRevision
  directory : CanonicalPath
deriving DecidableEq

/-- `PackageInventoryEntryV1`. -/
structure PackageInventoryEntryV1 where
  name : Str
  declaration : Option DeclaredPackageSourceV1
  project_override_directory : Option Str
  resolved_path_directory : Option CanonicalPath
  provider : Option ProviderPackageRegistrationV1
  checkout : CheckoutObservationStateV1
deriving DecidableEq

/-- `PackageInventoryV1`. -/
structure PackageInventoryV1 where
  schema_version : UInt8
  project_id : ProjectId
  project_path : Str
  toolchain : Str
  manifest_sha256 : Sha256
  override_sha256 : Option Sha256
  provider_registry_sha256 : Option Sha256
  provider_override_sha256 : Option Sha256
  packages : List PackageInventoryEntryV1
deriving DecidableEq

/-! ## The drift report -/

/-- `DependencyDriftKindV1`. -/
inductive DependencyDriftKindV1 where
  | Missing
  | RevisionMismatch
  | Dirty
  | PathMismatch
  | OverrideMismatch
  | Unobserved
  | Matched
deriving DecidableEq

/-- `derive(Ord)`: the order of the declaration. -/
def DependencyDriftKindV1.rank : DependencyDriftKindV1 → ℕ
  | .Missing => 0
  | .RevisionMismatch => 1
  | .Dirty => 2
  | .PathMismatch => 3
  | .OverrideMismatch => 4
  | .Unobserved => 5
  | .Matched => 6

/-- `DependencyDriftFindingV1`. -/
structure DependencyDriftFindingV1 where
  kind : DependencyDriftKindV1
  field : Str
  expected : Option Str
  observed : Option Str
deriving DecidableEq

/-- `PackageDependencyDriftV1`. -/
structure PackageDependencyDriftV1 where
  name : Str
  findings : List DependencyDriftFindingV1
deriving DecidableEq

/-- `DependencyDriftSummaryV1`. -/
inductive DependencyDriftSummaryV1 where
  | Matched
  | Drifted
  | Unobserved
deriving DecidableEq

/-- `DependencyDriftReportV1`. -/
structure DependencyDriftReportV1 where
  schema_version : UInt8
  project_id : ProjectId
  summary : DependencyDriftSummaryV1
  packages : List PackageDependencyDriftV1
deriving DecidableEq

/-- `finding`. -/
def finding (kind : DependencyDriftKindV1) (field : String) (expected observed : Option Str) :
    DependencyDriftFindingV1 := ⟨kind, field.toList, expected, observed⟩

/-- `expected_revision`. -/
def expected_revision (package : PackageInventoryEntryV1) : Option GitRevision :=
  match package.declaration with
  | some (.Git revision) => some revision
  | _ => package.provider.map fun provider => provider.revision

/-- `expected_directory`. -/
def expected_directory (package : PackageInventoryEntryV1) : Option Str :=
  (package.resolved_path_directory.or (package.provider.map fun provider => provider.directory)).map
    CanonicalPath.to_string_lossy

/-- The declaration against the provider. -/
def declaration_findings (package : PackageInventoryEntryV1) : List DependencyDriftFindingV1 :=
  match package.declaration, package.provider with
  | none, some provider =>
    [finding .Missing "manifest-package" (some provider.revision.as_str) none]
  | some (.Git revision), some provider =>
    if revision ≠ provider.revision then
      [finding .RevisionMismatch "manifest-provider-revision" (some provider.revision.as_str)
        (some revision.as_str)]
    else []
  | some (.Path declared_directory), some provider =>
    [finding .PathMismatch "manifest-provider-source" (some provider.directory.to_string_lossy)
      (some declared_directory)]
  | _, none => []

/-- The override of the project against the provider. -/
def override_findings (package : PackageInventoryEntryV1) : List DependencyDriftFindingV1 :=
  match package.provider with
  | none => []
  | some provider =>
    if package.project_override_directory ≠ some provider.directory.to_string_lossy then
      [finding .OverrideMismatch "project-provider-override"
        (some provider.directory.to_string_lossy) package.project_override_directory]
    else []

/-- The revision of a checkout, and whether it is dirty. -/
def revision_findings (expected : GitRevision) (revision : Option GitRevision)
    (dirty : Option Bool) : List DependencyDriftFindingV1 :=
  (match revision with
    | some actual =>
      if actual ≠ expected then
        [finding .RevisionMismatch "checkout-revision" (some expected.as_str) (some actual.as_str)]
      else []
    | none => [finding .Unobserved "checkout-revision" (some expected.as_str) none]) ++
  match dirty with
    | some true =>
      [finding .Dirty "checkout-dirty" (some "false".toList) (some "true".toList)]
    | none => [finding .Unobserved "checkout-dirty" (some "false".toList) none]
    | some false => []

/-- What is seen of the checkout. -/
def checkout_findings (package : PackageInventoryEntryV1) : List DependencyDriftFindingV1 :=
  match package.checkout with
  | .Unobserved => [finding .Unobserved "checkout" none none]
  | .Missing => [finding .Missing "checkout" (expected_directory package) none]
  | .Present directory revision dirty =>
    (match expected_directory package with
      | some expected =>
        if directory.to_string_lossy ≠ expected then
          [finding .PathMismatch "checkout-directory" (some expected)
            (some directory.to_string_lossy)]
        else []
      | none => []) ++
    match expected_revision package with
      | some expected => revision_findings expected revision dirty
      | none => []

/-- `classify_package`. -/
def classify_package (package : PackageInventoryEntryV1) : List DependencyDriftFindingV1 :=
  let findings := declaration_findings package ++ override_findings package ++
    checkout_findings package
  let findings := if findings = [] then [finding .Matched "package" none none] else findings
  sort_by_key (fun finding => toLex (finding.kind.rank, finding.field)) findings

/-- `report_dependency_drift`. -/
def report_dependency_drift (inventory : PackageInventoryV1) : DependencyDriftReportV1 :=
  let packages := inventory.packages.map fun package =>
    PackageDependencyDriftV1.mk package.name (classify_package package)
  let has_drift := packages.any fun package => package.findings.any fun finding =>
    !decide (finding.kind = .Matched ∨ finding.kind = .Unobserved)
  let has_unobserved := packages.any fun package => package.findings.any fun finding =>
    decide (finding.kind = .Unobserved)
  ⟨1, inventory.project_id,
    if has_drift then .Drifted else if has_unobserved then .Unobserved else .Matched, packages⟩

/-! ## The snapshot -/

/-- `PackageInventorySnapshotDigestV1`. -/
structure PackageInventorySnapshotDigestV1 where
  schema_version : UInt8
  canonical_json : Str
  sha256 : Sha256
deriving DecidableEq

/-- `PackageInventorySnapshotError`. -/
structure PackageInventorySnapshotError where
  message : String
deriving DecidableEq

abbrev SnapshotResult (α : Type) := Except PackageInventorySnapshotError α

/-- `summary_name`. -/
def summary_name : DependencyDriftSummaryV1 → String
  | .Matched => "matched"
  | .Drifted => "drifted"
  | .Unobserved => "unobserved"

/-- `kind_name`. -/
def kind_name : DependencyDriftKindV1 → String
  | .Missing => "missing"
  | .RevisionMismatch => "revision-mismatch"
  | .Dirty => "dirty"
  | .PathMismatch => "path-mismatch"
  | .OverrideMismatch => "override-mismatch"
  | .Unobserved => "unobserved"
  | .Matched => "matched"

/-- `push_path`. -/
def path_text (path : CanonicalPath) : SnapshotResult Str :=
  match path.to_str with
  | none => .error ⟨"inventory canonical path is not valid UTF-8"⟩
  | some value => .ok (json_string value)

/-- `push_optional_path`. -/
def optional_path_text : Option CanonicalPath → SnapshotResult Str
  | none => .ok "null".toList
  | some path => path_text path

/-- A field name with its colon. -/
def key_text (name : String) : Str := json_string name.toList ++ [':']

/-- The values with commas between them, in brackets. -/
def array_text (values : List Str) : Str := '[' :: (List.intercalate [','] values ++ [']'])

def declaration_text : Option DeclaredPackageSourceV1 → Str
  | none => "null".toList
  | some (.Git revision) => "\x7b\"type\":\"git\",\"revision\":".toList ++
      json_string revision.as_str ++ ['\x7d']
  | some (.Path declared_directory) => "\x7b\"type\":\"path\",\"directory\":".toList ++
      json_string declared_directory ++ ['\x7d']

def provider_text : Option ProviderPackageRegistrationV1 → SnapshotResult Str
  | none => .ok "null".toList
  | some provider => do
    let directory ← path_text provider.directory
    return "\x7b\"revision\":".toList ++ json_string provider.revision.as_str ++
      ",\"directory\":".toList ++ directory ++ ['\x7d']

def checkout_text : CheckoutObservationStateV1 → SnapshotResult Str
  | .Unobserved => .ok "\x7b\"state\":\"unobserved\"\x7d".toList
  | .Missing => .ok "\x7b\"state\":\"missing\"\x7d".toList
  | .Present directory revision dirty => do
    let directory ← path_text directory
    return "\x7b\"state\":\"present\",\"directory\":".toList ++ directory ++
      ",\"revision\":".toList ++ optional_json_string (revision.map GitRevision.as_str) ++
      ",\"dirty\":".toList ++ (match dirty with
        | some true => "true".toList
        | some false => "false".toList
        | none => "null".toList) ++ ['\x7d']

def finding_text (finding : DependencyDriftFindingV1) : Str :=
  '\x7b' :: (key_text "kind" ++ json_string (kind_name finding.kind).toList ++
    ',' :: (key_text "field" ++ json_string finding.field ++
    ',' :: (key_text "expected" ++ optional_json_string finding.expected ++
    ',' :: (key_text "observed" ++ optional_json_string finding.observed ++ ['\x7d']))))

/-- `push_package`. -/
def package_text (package : PackageInventoryEntryV1) (findings : List DependencyDriftFindingV1) :
    SnapshotResult Str := do
  let resolved ← optional_path_text package.resolved_path_directory
  let provider ← provider_text package.provider
  let checkout ← checkout_text package.checkout
  return "\x7b\"name\":".toList ++ json_string package.name ++ ",\"declaration\":".toList ++
    declaration_text package.declaration ++ ",\"projectOverrideDirectory\":".toList ++
    optional_json_string package.project_override_directory ++
    ",\"resolvedPathDirectory\":".toList ++ resolved ++ ",\"provider\":".toList ++ provider ++
    ",\"checkout\":".toList ++ checkout ++ ",\"findings\":".toList ++
    array_text (findings.map finding_text) ++ ['\x7d']

/-- What the snapshot asks of a package name. -/
def valid_inventory_name (name : Str) : Bool :=
  !name.isEmpty && decide (byte_len name ≤ 256) && !name.any is_control

/-- One package of the snapshot with its findings. -/
def snapshot_package (drift : DependencyDriftReportV1) (package : PackageInventoryEntryV1) :
    SnapshotResult Str :=
  match drift.packages.find? fun entry => decide (entry.name = package.name) with
  | none => .error ⟨"drift package disappeared during snapshot"⟩
  | some entry => package_text package entry.findings

/-- `package_inventory_snapshot_digest_v1`. A map by name is the list of its values in the
order of the names. -/
def package_inventory_snapshot_digest_v1 (inventory : PackageInventoryV1)
    (drift : DependencyDriftReportV1) : SnapshotResult PackageInventorySnapshotDigestV1 := do
  let _ ← ensure (inventory.schema_version = 1 ∧ drift.schema_version = 1)
    ⟨"inventory snapshot requires schema version 1 inputs"⟩
  let _ ← ensure (inventory.project_id = drift.project_id ∧
      inventory.project_id = Core.project_id inventory.project_path)
    ⟨"inventory snapshot project identities differ"⟩
  let _ ← ensure (report_dependency_drift inventory = drift)
    ⟨"drift report is not the canonical classification of the inventory"⟩
  let _ ← ensure ((inventory.packages.all fun package => valid_inventory_name package.name) = true ∧
      (inventory.packages.map PackageInventoryEntryV1.name).Nodup)
    ⟨"inventory package names must be bounded and unique"⟩
  let _ ← ensure ((drift.packages.map PackageDependencyDriftV1.name).Nodup)
    ⟨"drift package names must be unique"⟩
  let _ ← ensure ((sort_by_key PackageInventoryEntryV1.name inventory.packages).map
        PackageInventoryEntryV1.name =
      (sort_by_key PackageDependencyDriftV1.name drift.packages).map PackageDependencyDriftV1.name)
    ⟨"inventory and drift package names differ"⟩
  let packages ← (sort_by_key PackageInventoryEntryV1.name inventory.packages).mapM
    (snapshot_package drift)
  let output := "\x7b\"schemaVersion\":1,\"snapshotType\":\"package-inventory\",\"projectId\":".toList ++
    json_string inventory.project_id.to_string ++ ",\"projectPath\":".toList ++
    json_string inventory.project_path ++ ",\"toolchain\":".toList ++
    json_string inventory.toolchain ++ ",\"manifestSha256\":".toList ++
    json_string inventory.manifest_sha256.to_string ++ ",\"overrideSha256\":".toList ++
    optional_json_string (inventory.override_sha256.map Sha256.to_string) ++
    ",\"providerRegistrySha256\":".toList ++
    optional_json_string (inventory.provider_registry_sha256.map Sha256.to_string) ++
    ",\"providerOverrideSha256\":".toList ++
    optional_json_string (inventory.provider_override_sha256.map Sha256.to_string) ++
    ",\"driftSummary\":".toList ++ json_string (summary_name drift.summary).toList ++
    ",\"packages\":".toList ++ array_text packages ++ ['\x7d']
  return ⟨1, output, digest (as_bytes output)⟩

end LeanBun.Plan
