/-
The identity of a project input.

The material of an identity is written as a header and named fields, each with the length of
its value; an absent value is an empty one. Whether a value is absent is decided by the state
of the input and the kind of the package, which the validation holds fixed, so the bytes
determine the material up to the order of its packages.
-/
import LeanBun.Core.Encoding
import LeanBun.Evidence.ProjectInput
import LeanBun.Lib.BigEndian

set_option autoImplicit false

namespace LeanBun.Evidence

open LeanBun.Lib LeanBun.Core LeanBun.Codec LeanBun.Plan

def HEADER : List UInt8 := as_bytes "leanbun-project-input-identity-v1\x00".toList

/-- `ProjectInputIdentityPackageKind`. -/
inductive ProjectInputIdentityPackageKind where
  | Git
  | Path
deriving DecidableEq

/-- `ProjectInputIdentityPackage`. -/
structure ProjectInputIdentityPackage where
  name : Str
  kind : ProjectInputIdentityPackageKind
  revision : Option Str
  path : Option Str
deriving DecidableEq

/-- `ProjectInputIdentityMaterial`. -/
structure ProjectInputIdentityMaterial where
  project_path : Str
  state : ProjectInputState
  toolchain : Str
  toolchain_sha256 : Sha256
  manifest_sha256 : Sha256
  override_sha256 : Option Sha256
  provider_registry_sha256 : Option Sha256
  provider_override_sha256 : Option Sha256
  packages : List ProjectInputIdentityPackage
deriving DecidableEq

/-- `ProjectInputIdentityV1`. -/
structure ProjectInputIdentityV1 where
  project_id : ProjectId
  digest : Sha256
  canonical_bytes : List UInt8
deriving DecidableEq

/-- `identity_error`, with the parts of its text. -/
def identity_error (parts : List Str) : EvidenceError := ⟨.PROJECT_INPUT_DRIFTED, parts.flatten⟩

/-! ## The canonical bytes -/

/-- `push_blob`. -/
def push_blob (output value : List UInt8) : EvidenceResult (List UInt8) := do
  let _ ← ensure (value.length < 2 ^ 64)
    (identity_error ["identity field value cannot be encoded".toList])
  return output ++ be64 value.length ++ value

/-- `push_field`. -/
def push_field (output : List UInt8) (key : String) (value : List UInt8) :
    EvidenceResult (List UInt8) := do
  let key := as_bytes key.toList
  let _ ← ensure (key.length < 2 ^ 16)
    (identity_error ["identity field name cannot be encoded".toList])
  push_blob (output ++ be_bytes 2 key.length ++ key) value

/-- `optional_digest`. -/
def optional_digest : Option Sha256 → List UInt8
  | some digest => digest.bytes
  | none => []

/-- `state_name`. -/
def state_name : ProjectInputState → Str
  | .DependencyFree => "dependency-free".toList
  | .Standalone => "standalone".toList
  | .ProviderBound => "provider-bound".toList

/-- The byte of a kind. -/
def kind_byte : ProjectInputIdentityPackageKind → UInt8
  | .Git => 0
  | .Path => 1

/-- The record of a package. -/
def push_package (output : List UInt8) (package : ProjectInputIdentityPackage) :
    EvidenceResult (List UInt8) := do
  let record ← push_blob [] (as_bytes package.name)
  let record ← push_blob (record ++ [kind_byte package.kind])
    (as_bytes (package.revision.getD []))
  let record ← push_blob record (as_bytes (package.path.getD []))
  push_field output "package" record

/-- The order of the packages: the bytes of their names. -/
def name_order (package : ProjectInputIdentityPackage) : List ℕ :=
  (as_bytes package.name).map UInt8.toNat

/-- One package of `validate_material`. -/
def validate_package (state : ProjectInputState) (package : ProjectInputIdentityPackage) :
    EvidenceResult Unit :=
  match package.kind with
  | .Git => do
    let _ ← ensure (package.revision.getD [] ≠ [])
      (identity_error ["Git identity package requires revision".toList])
    let _ ← ensure (¬(state = .ProviderBound ∧ package.path.getD [] = []))
      (identity_error ["provider-bound Git identity package requires canonical path".toList])
    let _ ← ensure (¬(state ≠ .ProviderBound ∧ package.path ≠ none))
      (identity_error
        ["non-provider-bound Git identity package must not contain provider path".toList])
    return ()
  | .Path => do
    let _ ← ensure (¬(state = .ProviderBound ∨ package.revision ≠ none ∨ package.path.getD [] = []))
      (identity_error [("path identity package requires non-provider state, canonical path, " ++
        "and no revision").toList])
    return ()

/-- The packages of `validate_material`, with the names that have been seen. -/
def validate_packages (state : ProjectInputState) :
    List Str → List ProjectInputIdentityPackage → EvidenceResult Unit
  | _, [] => .ok ()
  | names, package :: packages => do
    let _ ← ensure (package.name ≠ [] ∧ package.name ∉ names)
      (identity_error
        ["project input identity package names must be non-empty and unique".toList])
    validate_package state package
    validate_packages state (package.name :: names) packages

/-- The digests and packages that the state of the input allows. -/
def validate_state (material : ProjectInputIdentityMaterial) : EvidenceResult Unit :=
  match material.state with
  | .DependencyFree => do
    let _ ← ensure (material.override_sha256 = none ∧ material.provider_registry_sha256 = none ∧
        material.provider_override_sha256 = none ∧ material.packages = [])
      (identity_error [("dependency-free identity must not contain override, provider, or " ++
        "package fields").toList])
    return ()
  | .Standalone => do
    let _ ← ensure (material.provider_registry_sha256 = none ∧
        material.provider_override_sha256 = none)
      (identity_error ["standalone identity must not contain provider digests".toList])
    return ()
  | .ProviderBound => do
    let _ ← ensure (material.override_sha256 ≠ none ∧ material.provider_registry_sha256 ≠ none ∧
        material.provider_override_sha256 ≠ none ∧
        material.override_sha256 = material.provider_override_sha256)
      (identity_error
        ["provider-bound identity requires matching override and provider digests".toList])
    return ()

/-- `validate_material`. -/
def validate_material (material : ProjectInputIdentityMaterial) : EvidenceResult Unit := do
  let _ ← ensure (material.project_path ≠ [] ∧ material.toolchain ≠ [])
    (identity_error ["project input identity path and toolchain must not be empty".toList])
  validate_state material
  validate_packages material.state [] material.packages

/-- `canonical_project_input_identity`. -/
def canonical_project_input_identity (material : ProjectInputIdentityMaterial) :
    EvidenceResult ProjectInputIdentityV1 := do
  validate_material material
  let canonical := HEADER
  let canonical ← push_field canonical "projectPath" (as_bytes material.project_path)
  let canonical ← push_field canonical "state" (as_bytes (state_name material.state))
  let canonical ← push_field canonical "toolchain" (as_bytes material.toolchain)
  let canonical ← push_field canonical "toolchainSha256" material.toolchain_sha256.bytes
  let canonical ← push_field canonical "manifestSha256" material.manifest_sha256.bytes
  let canonical ← push_field canonical "overrideSha256" (optional_digest material.override_sha256)
  let canonical ← push_field canonical "providerRegistrySha256"
    (optional_digest material.provider_registry_sha256)
  let canonical ← push_field canonical "providerOverrideSha256"
    (optional_digest material.provider_override_sha256)
  let _ ← ensure (material.packages.length < 2 ^ 64)
    (identity_error ["package count cannot be encoded".toList])
  let canonical ← push_field canonical "packageCount" (be64 material.packages.length)
  let canonical ← (sort_by_key name_order material.packages).foldlM push_package canonical
  return ⟨project_id material.project_path, digest canonical, canonical⟩

/-! ## The derivation -/

/-- `utf8_path`. -/
def utf8_path (path : CanonicalPath) (label : String) : EvidenceResult Str :=
  match path.to_str with
  | some text => .ok text
  | none => .error (identity_error [label.toList, " is not valid UTF-8".toList])

/-- The provider digests of an identity. -/
def provider_digests (input : StableProjectInput) (provider : Option StableProviderPair) :
    EvidenceResult (Option Sha256 × Option Sha256) :=
  match input.state with
  | .ProviderBound =>
    match provider with
    | none => .error (identity_error
        ["provider-bound input identity requires provider evidence".toList])
    | some provider =>
      match input.overrides with
      | none => .error (identity_error
          ["provider-bound input identity requires project override evidence".toList])
      | some project_override =>
        if project_override.file.sha256 ≠ provider.overrides.file.sha256 then
          .error (identity_error
            ["provider-bound input override no longer matches provider evidence".toList])
        else .ok (some provider.registry.file.sha256, some provider.overrides.file.sha256)
  | _ =>
    match provider with
    | some _ => .error (identity_error
        ["non-provider-bound input identity must not accept provider evidence".toList])
    | none => .ok (none, none)

/-- The path of a Git package, which a provider has. -/
def git_path (provider : Option StableProviderPair) (name revision : Str) :
    EvidenceResult (Option Str) :=
  match provider with
  | none => .ok none
  | some provider =>
    match provider.packages.find? fun binding => decide (binding.name = name) with
    | none => .error (identity_error ["provider identity lacks package binding: ".toList, name])
    | some binding =>
      if binding.revision ≠ revision then
        .error (identity_error ["provider identity revision differs for package: ".toList, name])
      else (utf8_path binding.directory "provider package directory").map some

/-- The identity of one declared package. -/
def identity_package (input : StableProjectInput) (provider : Option StableProviderPair)
    (package : ProjectManifestPackage) : EvidenceResult ProjectInputIdentityPackage :=
  match package.source with
  | .Git revision => do
    let path ← git_path provider package.name revision
    return ⟨package.name, .Git, some revision, path⟩
  | .Path _ =>
    match input.path_packages.find? fun binding => decide (binding.name = package.name) with
    | none => .error (identity_error
        ["project input lacks path package binding: ".toList, package.name])
    | some binding => do
      let path ← utf8_path binding.directory "project path package directory"
      return ⟨package.name, .Path, none, some path⟩

/-- `derive_project_input_identity`. -/
def derive_project_input_identity (input : StableProjectInput)
    (provider : Option StableProviderPair) : EvidenceResult ProjectInputIdentityV1 := do
  let project_path ← utf8_path input.project_root "project root"
  let digests ← provider_digests input provider
  let packages ← input.manifest.manifest.packages.mapM (identity_package input provider)
  canonical_project_input_identity
    { project_path := project_path
      state := input.state
      toolchain := input.toolchain
      toolchain_sha256 := input.toolchain_file.sha256
      manifest_sha256 := input.manifest.file.sha256
      override_sha256 := optional_sha input.overrides
      provider_registry_sha256 := digests.1
      provider_override_sha256 := digests.2
      packages := packages }

/-! ## What is accepted -/

/-- A package of a valid material: the state and the kind say which values it has. -/
def PackageValid (state : ProjectInputState) (package : ProjectInputIdentityPackage) : Prop :=
  match package.kind with
  | .Git => package.revision.getD [] ≠ [] ∧
      if state = .ProviderBound then package.path.getD [] ≠ [] else package.path = none
  | .Path => state ≠ .ProviderBound ∧ package.revision = none ∧ package.path.getD [] ≠ []

/-- The digests and packages of a valid material. -/
def StateValid (material : ProjectInputIdentityMaterial) : Prop :=
  match material.state with
  | .DependencyFree => material.override_sha256 = none ∧ material.provider_registry_sha256 = none ∧
      material.provider_override_sha256 = none ∧ material.packages = []
  | .Standalone => material.provider_registry_sha256 = none ∧
      material.provider_override_sha256 = none
  | .ProviderBound => material.override_sha256 ≠ none ∧ material.provider_registry_sha256 ≠ none ∧
      material.provider_override_sha256 ≠ none ∧
      material.override_sha256 = material.provider_override_sha256

/-- **A valid material.** -/
structure ProjectInputIdentityMaterial.Valid (material : ProjectInputIdentityMaterial) : Prop where
  project_path : material.project_path ≠ []
  toolchain : material.toolchain ≠ []
  state : StateValid material
  names : (material.packages.map ProjectInputIdentityPackage.name).Nodup
  named : ∀ package ∈ material.packages, package.name ≠ []
  packages : ∀ package ∈ material.packages, PackageValid material.state package

theorem validate_package_eq_ok {state : ProjectInputState} {package : ProjectInputIdentityPackage} :
    validate_package state package = .ok () ↔ PackageValid state package := by
  unfold validate_package PackageValid
  rcases package.kind with _ | _
  · constructor
    · intro h
      obtain ⟨hrevision, -, h⟩ := bind_eq_ok.mp h
      obtain ⟨hbound, -, h⟩ := bind_eq_ok.mp h
      obtain ⟨hfree, -, h⟩ := bind_eq_ok.mp h
      refine ⟨hrevision.down, ?_⟩
      by_cases hstate : state = .ProviderBound
      · rw [if_pos hstate]
        exact fun hpath => hbound.down ⟨hstate, hpath⟩
      · rw [if_neg hstate]
        exact not_not.mp fun hpath => hfree.down ⟨hstate, hpath⟩
    · rintro ⟨hrevision, hpath⟩
      dsimp only
      rw [ensure_ok hrevision, ensure_ok, ensure_ok]
      · rfl
      · rintro ⟨hstate, hsome⟩
        rw [if_neg hstate] at hpath
        exact hsome hpath
      · rintro ⟨hstate, hnone⟩
        rw [if_pos hstate] at hpath
        exact hpath hnone
  · constructor
    · intro h
      obtain ⟨hplain, -, h⟩ := bind_eq_ok.mp h
      have hplain := hplain.down
      rw [not_or, not_or, not_not] at hplain
      exact hplain
    · rintro ⟨hstate, hrevision, hpath⟩
      dsimp only
      rw [ensure_ok]
      · rfl
      · rintro (h | h | h)
        · exact hstate h
        · exact h hrevision
        · exact hpath h

theorem validate_packages_eq_ok {state : ProjectInputState} {names : List Str}
    {packages : List ProjectInputIdentityPackage} :
    validate_packages state names packages = .ok () ↔
      (packages.map ProjectInputIdentityPackage.name).Nodup ∧
        ∀ package ∈ packages, package.name ∉ names ∧ package.name ≠ [] ∧
          PackageValid state package := by
  induction packages generalizing names with
  | nil =>
    exact iff_of_true rfl ⟨List.nodup_nil, fun _ h => absurd h List.not_mem_nil⟩
  | cons package packages ih =>
    constructor
    · intro h
      obtain ⟨hname, -, h⟩ := bind_eq_ok.mp h
      obtain ⟨_, hvalid, h⟩ := bind_eq_ok.mp h
      obtain ⟨hnodup, hall⟩ := ih.mp h
      refine ⟨?_, ?_⟩
      · rw [List.map_cons, List.nodup_cons]
        refine ⟨fun hmem => ?_, hnodup⟩
        obtain ⟨other, hother, heq⟩ := List.mem_map.mp hmem
        exact (hall other hother).1 (by rw [heq]; exact List.mem_cons_self)
      · intro other hother
        rcases List.mem_cons.mp hother with rfl | hother
        · exact ⟨hname.down.2, hname.down.1, validate_package_eq_ok.mp hvalid⟩
        · obtain ⟨hnot, hrest⟩ := hall other hother
          exact ⟨fun hmem => hnot (List.mem_cons_of_mem _ hmem), hrest⟩
    · rintro ⟨hnodup, hall⟩
      rw [List.map_cons, List.nodup_cons] at hnodup
      obtain ⟨hfresh, hnodup⟩ := hnodup
      obtain ⟨hnot, hnamed, hvalid⟩ := hall package List.mem_cons_self
      unfold validate_packages
      rw [ensure_ok ⟨hnamed, hnot⟩, validate_package_eq_ok.mpr hvalid]
      refine ih.mpr ⟨hnodup, fun other hother => ?_⟩
      obtain ⟨hother_not, hrest⟩ := hall other (List.mem_cons_of_mem _ hother)
      refine ⟨fun hmem => ?_, hrest⟩
      rcases List.mem_cons.mp hmem with heq | hmem
      · exact hfresh (heq ▸ List.mem_map_of_mem hother)
      · exact hother_not hmem

theorem validate_state_eq_ok {material : ProjectInputIdentityMaterial} :
    validate_state material = .ok () ↔ StateValid material := by
  unfold validate_state StateValid
  rcases material.state with _ | _ | _ <;>
  · constructor
    · intro h
      obtain ⟨hvalid, -, -⟩ := bind_eq_ok.mp h
      exact hvalid.down
    · intro h
      dsimp only
      rw [ensure_ok h]
      rfl

/-- **Validation** accepts the valid materials. -/
theorem validate_material_eq_ok {material : ProjectInputIdentityMaterial} :
    validate_material material = .ok () ↔ material.Valid := by
  constructor
  · intro h
    obtain ⟨hplain, -, h⟩ := bind_eq_ok.mp h
    obtain ⟨_, hstate, h⟩ := bind_eq_ok.mp h
    obtain ⟨hnodup, hall⟩ := validate_packages_eq_ok.mp h
    exact ⟨hplain.down.1, hplain.down.2, validate_state_eq_ok.mp hstate, hnodup,
      fun package hpackage => (hall package hpackage).2.1,
      fun package hpackage => (hall package hpackage).2.2⟩
  · intro h
    unfold validate_material
    rw [ensure_ok ⟨h.project_path, h.toolchain⟩, validate_state_eq_ok.mpr h.state]
    exact validate_packages_eq_ok.mpr ⟨h.names, fun package hpackage =>
      ⟨List.not_mem_nil, h.named package hpackage, h.packages package hpackage⟩⟩

end LeanBun.Evidence
