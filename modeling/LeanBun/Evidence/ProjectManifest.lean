/-
The manifest of a project, and its comparison with the registry of a provider.

The comparison goes over the registered packages, each of which the project has to declare as
a Git package at the registered revision, and over the declared packages, each of which has to
be registered. A manifest without packages is not compared at all.
-/
import LeanBun.Evidence.ProviderPair

set_option autoImplicit false

namespace LeanBun.Evidence

open LeanBun.Lib LeanBun.Core LeanBun.Codec LeanBun.Plan

/-- `ProjectPackageSource`. -/
inductive ProjectPackageSource where
  | Git (revision : Str)
  | Path (directory : Str)
deriving DecidableEq

/-- `ProjectManifestPackage`. -/
structure ProjectManifestPackage where
  name : Str
  source : ProjectPackageSource
deriving DecidableEq

/-- `ProjectManifest`. -/
structure ProjectManifest where
  version : Str
  packages_dir : Str
  name : Str
  lake_dir : Str
  fixed_toolchain : Bool
  packages : List ProjectManifestPackage
deriving DecidableEq

/-! ## Decoding -/

namespace Manifest

def ROOT_FIELDS : List String :=
  ["fixedToolchain", "lakeDir", "name", "packages", "packagesDir", "version"]

def PACKAGE_FIELDS : List String :=
  ["configFile", "dir", "inherited", "inputRev", "manifestFile", "name", "rev", "scope", "subDir",
    "type", "url"]

/-- `decode_git_source`. -/
def decode_git_source (package : Entries) (label : Str) : EvidenceResult ProjectPackageSource := do
  let _ ← ensure (contains_key package "dir".toList = false)
    (shape .MANIFEST_SHAPE_INVALID [label, " git package must not have dir".toList])
  let revision ← git_revision .MANIFEST_SHAPE_INVALID package label
  git_fields .MANIFEST_SHAPE_INVALID package label
  return .Git revision

/-- A field that a path package may not have. -/
def forbid (package : Entries) (label : Str) (forbidden : String) : EvidenceResult Unit := do
  let _ ← ensure (contains_key package forbidden.toList = false)
    (shape .MANIFEST_SHAPE_INVALID [label, " path package must not have ".toList,
      forbidden.toList])
  return ()

/-- The scope of a path package. -/
def path_scope (package : Entries) (label : Str) : EvidenceResult Unit :=
  match get package "scope" with
  | none => .ok ()
  | some (.String []) => .ok ()
  | some _ => .error (shape .MANIFEST_SHAPE_INVALID
      [label, " path package scope must be an empty string".toList])

/-- `decode_path_source`. -/
def decode_path_source (package : Entries) (label : Str) : EvidenceResult ProjectPackageSource := do
  forbid package label "rev"
  forbid package label "url"
  forbid package label "subDir"
  forbid package label "inputRev"
  path_scope package label
  let directory ← required_nonempty_string .MANIFEST_SHAPE_INVALID package "dir" MAX_PATH_BYTES label
  optional_nullable_string .MANIFEST_SHAPE_INVALID package "manifestFile" MAX_SHORT_STRING_BYTES
    label
  optional_string .MANIFEST_SHAPE_INVALID package "configFile" MAX_SHORT_STRING_BYTES label
  optional_boolean .MANIFEST_SHAPE_INVALID package "inherited" label
  return .Path directory

/-- The source of a package by its type. -/
def decode_source (source_type : Str) (package : Entries) (label : Str) :
    EvidenceResult ProjectPackageSource :=
  if source_type = "git".toList then decode_git_source package label
  else if source_type = "path".toList then decode_path_source package label
  else .error (shape .MANIFEST_SHAPE_INVALID [label, " type must be git or path".toList])

/-- One package of a manifest. -/
def decode_package (label name : Str) (package : Entries) :
    EvidenceResult ProjectManifestPackage := do
  let source_type ←
    required_string .MANIFEST_SHAPE_INVALID package "type" MAX_SHORT_STRING_BYTES label
  let source ← decode_source source_type package label
  return ⟨name, source⟩

/-- The flag of a fixed toolchain. -/
def fixed_toolchain (root : Entries) : EvidenceResult Bool :=
  match get root "fixedToolchain" with
  | some (.Bool value) => .ok value
  | some _ => .error (shape .MANIFEST_SHAPE_INVALID
      ["project manifest fixedToolchain must be a boolean".toList])
  | none => .error (shape .MANIFEST_SHAPE_INVALID
      ["project manifest is missing fixedToolchain".toList])

end Manifest

/-- `decode_project_manifest`. -/
def decode_project_manifest (value : StrictJson) : EvidenceResult ProjectManifest := do
  let document := "project manifest".toList
  let root ← object .MANIFEST_SHAPE_INVALID value "project manifest root".toList
  reject_unknown_fields .MANIFEST_SHAPE_INVALID root Manifest.ROOT_FIELDS
    "project manifest root".toList
  let version ← schema_version .MANIFEST_SHAPE_INVALID root document
  let packages_dir ← required_nonempty_string .MANIFEST_SHAPE_INVALID root "packagesDir"
    MAX_PATH_BYTES document
  let name ← required_nonempty_string .MANIFEST_SHAPE_INVALID root "name" MAX_SHORT_STRING_BYTES
    document
  let lake_dir ← required_nonempty_string .MANIFEST_SHAPE_INVALID root "lakeDir" MAX_PATH_BYTES
    document
  let fixed_toolchain ← Manifest.fixed_toolchain root
  let values ← package_values .MANIFEST_SHAPE_INVALID root document
  let packages ← decode_packages .MANIFEST_SHAPE_INVALID document
    "duplicate project manifest package name: ".toList Manifest.PACKAGE_FIELDS
    Manifest.decode_package 0 [] values
  return ⟨version, packages_dir, name, lake_dir, fixed_toolchain, packages⟩

/-- `StableProjectManifestFile`. -/
structure StableProjectManifestFile where
  file : StableTextFile
  manifest : ProjectManifest
deriving DecidableEq

/-- `read_project_manifest`. -/
def read_project_manifest (files : FileSystem) (root : CanonicalDirectory) (candidate : Str) :
    EvidenceResult StableProjectManifestFile := do
  let file ← read_stable_text files root candidate PROVIDER_REGISTRY_MAX_BYTES
  let manifest ← parse_document decode_project_manifest file.text
  return ⟨file, manifest⟩

/-! ## The comparison -/

/-- `ProjectProviderMatchState`. -/
inductive ProjectProviderMatchState where
  | DependencyFree
  | Matched
  | Mismatched
deriving DecidableEq

/-- `ProjectProviderMismatch`. -/
structure ProjectProviderMismatch where
  package : Str
  field : Str
  project : Option Str
  provider : Option Str
deriving DecidableEq

/-- `ProjectProviderComparison`. -/
structure ProjectProviderComparison where
  state : ProjectProviderMatchState
  mismatches : List ProjectProviderMismatch
deriving DecidableEq

/-- `push_mismatch`. -/
def push_mismatch (package : Str) (field : String) (project provider : Str) :
    List ProjectProviderMismatch :=
  if project ≠ provider then [⟨package, field.toList, some project, some provider⟩] else []

/-- The values of a map that was collected from a list, in the order of the names. -/
def collected {α : Type} (name_of : α → Str) (values : List α) : List α :=
  (name_set (values.map name_of)).filterMap (by_name name_of values)

/-- One registered package against the declarations. -/
def registered_mismatches (manifest : ProjectManifest) (package : ProviderRegistryPackage) :
    List ProjectProviderMismatch :=
  match (by_name ProjectManifestPackage.name manifest.packages package.name).map
      ProjectManifestPackage.source with
  | none => [⟨package.name, "package".toList, none, some "registered".toList⟩]
  | some (.Git revision) => push_mismatch package.name "rev" revision package.revision
  | some (.Path directory) =>
    [⟨package.name, "type".toList, some ("path:".toList ++ directory), some "git".toList⟩]

/-- One declared package against the registry. -/
def declared_mismatches (provider : ProviderRegistry) (name : Str) :
    List ProjectProviderMismatch :=
  match by_name ProviderRegistryPackage.name provider.packages name with
  | none => [⟨name, "package".toList, some "unregistered".toList, none⟩]
  | some _ => []

/-- The mismatches of the packages. -/
def package_mismatches (manifest : ProjectManifest) (provider : ProviderRegistry) :
    List ProjectProviderMismatch :=
  (collected ProviderRegistryPackage.name provider.packages).flatMap
      (registered_mismatches manifest) ++
    (name_set (manifest.packages.map ProjectManifestPackage.name)).flatMap
      (declared_mismatches provider)

/-- The mismatches of the documents themselves. -/
def document_mismatches (manifest : ProjectManifest) (provider : ProviderRegistry) :
    List ProjectProviderMismatch :=
  push_mismatch "<document>".toList "version" manifest.version provider.version ++
    push_mismatch "<document>".toList "packagesDir" manifest.packages_dir provider.packages_dir

/-- `compare_project_manifest_to_provider`. -/
def compare_project_manifest_to_provider (manifest : ProjectManifest)
    (provider : ProviderRegistry) : ProjectProviderComparison :=
  if manifest.packages = [] then ⟨.DependencyFree, []⟩
  else
    let mismatches := sort_by_key (fun mismatch => toLex (mismatch.package, mismatch.field))
      (document_mismatches manifest provider ++ package_mismatches manifest provider)
    ⟨if mismatches = [] then .Matched else .Mismatched, mismatches⟩

/-! ## What a manifest that was read has -/

/-- A Git package has a well formed revision. -/
def ProjectPackageSource.Valid : ProjectPackageSource → Prop
  | .Git revision => valid_revision revision = true
  | .Path directory => directory ≠ []

theorem decode_source_eq_ok {source_type label : Str} {package : Entries}
    {source : ProjectPackageSource}
    (h : Manifest.decode_source source_type package label = .ok source) : source.Valid := by
  unfold Manifest.decode_source at h
  split at h
  · obtain ⟨_, -, h⟩ := bind_eq_ok.mp h
    obtain ⟨revision, hrevision, h⟩ := bind_eq_ok.mp h
    obtain ⟨_, -, h⟩ := bind_eq_ok.mp h
    cases h
    exact git_revision_eq_ok hrevision
  · split at h
    · obtain ⟨_, -, h⟩ := bind_eq_ok.mp h
      obtain ⟨_, -, h⟩ := bind_eq_ok.mp h
      obtain ⟨_, -, h⟩ := bind_eq_ok.mp h
      obtain ⟨_, -, h⟩ := bind_eq_ok.mp h
      obtain ⟨_, -, h⟩ := bind_eq_ok.mp h
      obtain ⟨directory, hdirectory, h⟩ := bind_eq_ok.mp h
      obtain ⟨_, -, h⟩ := bind_eq_ok.mp h
      obtain ⟨_, -, h⟩ := bind_eq_ok.mp h
      obtain ⟨_, -, h⟩ := bind_eq_ok.mp h
      cases h
      exact (required_nonempty_string_eq_ok hdirectory).1
    · cases h

/-- **What every manifest that was read has.** -/
structure ProjectManifest.Read (manifest : ProjectManifest) : Prop where
  names : NamesHold (manifest.packages.map ProjectManifestPackage.name)
  sources : ∀ package ∈ manifest.packages, package.source.Valid

theorem read_project_manifest_eq_ok {files : FileSystem} {root : CanonicalDirectory}
    {candidate : Str} {document : StableProjectManifestFile}
    (h : read_project_manifest files root candidate = .ok document) : document.manifest.Read := by
  obtain ⟨_, -, h⟩ := bind_eq_ok.mp h
  obtain ⟨manifest, hparse, h⟩ := bind_eq_ok.mp h
  cases h
  obtain ⟨value, hvalue⟩ := parse_document_eq_ok hparse
  obtain ⟨_, -, hvalue⟩ := bind_eq_ok.mp hvalue
  obtain ⟨_, -, hvalue⟩ := bind_eq_ok.mp hvalue
  obtain ⟨_, -, hvalue⟩ := bind_eq_ok.mp hvalue
  obtain ⟨_, -, hvalue⟩ := bind_eq_ok.mp hvalue
  obtain ⟨_, -, hvalue⟩ := bind_eq_ok.mp hvalue
  obtain ⟨_, -, hvalue⟩ := bind_eq_ok.mp hvalue
  obtain ⟨_, -, hvalue⟩ := bind_eq_ok.mp hvalue
  obtain ⟨values, hvalues, hvalue⟩ := bind_eq_ok.mp hvalue
  obtain ⟨packages, hpackages, hvalue⟩ := bind_eq_ok.mp hvalue
  cases hvalue
  have hone : ∀ label name package a, Manifest.decode_package label name package = .ok a →
      a.name = name ∧ a.source.Valid := by
    intro label name package a ha
    obtain ⟨_, -, ha⟩ := bind_eq_ok.mp ha
    obtain ⟨source, hsource, ha⟩ := bind_eq_ok.mp ha
    cases ha
    exact ⟨rfl, decode_source_eq_ok hsource⟩
  obtain ⟨hnames, hsources⟩ := decoded_names hone hvalues hpackages
  exact ⟨hnames, hsources⟩

/-! ## What the comparison says -/

theorem mem_collected {α : Type} {name_of : α → Str} {values : List α}
    (hnodup : (values.map name_of).Nodup) {value : α} :
    value ∈ collected name_of values ↔ value ∈ values := by
  unfold collected
  rw [List.mem_filterMap]
  constructor
  · rintro ⟨name, -, hfind⟩
    exact (by_name_eq_some hfind).1
  · intro h
    exact ⟨name_of value, mem_name_set.mpr (List.mem_map_of_mem h), by_name_of_mem hnodup h⟩

theorem push_mismatch_eq_nil {package : Str} {field : String} {project provider : Str} :
    push_mismatch package field project provider = [] ↔ project = provider := by
  unfold push_mismatch
  by_cases h : project = provider
  · rw [if_neg (not_not.mpr h)]
    exact iff_of_true rfl h
  · rw [if_pos h]
    exact iff_of_false (List.cons_ne_nil _ _) h

/-- The project declares the package as a Git package at the registered revision. -/
def DeclaredAsRegistered (manifest : ProjectManifest) (package : ProviderRegistryPackage) : Prop :=
  ∃ project ∈ manifest.packages, project.name = package.name ∧
    project.source = .Git package.revision

theorem registered_mismatches_eq_nil {manifest : ProjectManifest} (hmanifest : manifest.Read)
    {package : ProviderRegistryPackage} :
    registered_mismatches manifest package = [] ↔ DeclaredAsRegistered manifest package := by
  unfold registered_mismatches
  rcases hfind : by_name ProjectManifestPackage.name manifest.packages package.name with _ | project
  · refine iff_of_false (List.cons_ne_nil _ _) ?_
    rintro ⟨project, hproject, hname, -⟩
    exact by_name_eq_none.mp hfind (List.mem_map.mpr ⟨project, hproject, hname⟩)
  · obtain ⟨hproject, hname⟩ := by_name_eq_some hfind
    have hdeclared : DeclaredAsRegistered manifest package ↔
        project.source = .Git package.revision := by
      constructor
      · rintro ⟨other, hother, hother_name, hsource⟩
        have heq : other = project := by
          have hfound := by_name_of_mem hmanifest.names.nodup hother
          rw [hother_name, hfind] at hfound
          exact (Option.some.inj hfound).symm
        rwa [← heq]
      · exact fun hsource => ⟨project, hproject, hname, hsource⟩
    rw [hdeclared]
    rcases hsource : project.source with revision | directory
    · simp only [Option.map_some, hsource]
      rw [push_mismatch_eq_nil]
      exact ⟨fun h => by rw [h], fun h => ProjectPackageSource.Git.inj h⟩
    · simp only [Option.map_some, hsource]
      exact iff_of_false (List.cons_ne_nil _ _) fun h => (by cases h)

theorem declared_mismatches_eq_nil {provider : ProviderRegistry} {name : Str} :
    declared_mismatches provider name = [] ↔
      name ∈ provider.packages.map ProviderRegistryPackage.name := by
  unfold declared_mismatches
  rcases hfind : by_name ProviderRegistryPackage.name provider.packages name with _ | package
  · exact iff_of_false (List.cons_ne_nil _ _) (by_name_eq_none.mp hfind)
  · obtain ⟨hpackage, hname⟩ := by_name_eq_some hfind
    exact iff_of_true rfl (List.mem_map.mpr ⟨package, hpackage, hname⟩)

/-- **No package differs** when every registered package is declared as it is registered and
every declared package is registered. -/
theorem package_mismatches_eq_nil {manifest : ProjectManifest} {provider : ProviderRegistry}
    (hmanifest : manifest.Read)
    (hprovider : (provider.packages.map ProviderRegistryPackage.name).Nodup) :
    package_mismatches manifest provider = [] ↔
      (∀ package ∈ provider.packages, DeclaredAsRegistered manifest package) ∧
        ∀ name ∈ manifest.packages.map ProjectManifestPackage.name,
          name ∈ provider.packages.map ProviderRegistryPackage.name := by
  unfold package_mismatches
  rw [List.append_eq_nil_iff, List.flatMap_eq_nil_iff, List.flatMap_eq_nil_iff]
  simp only [mem_collected hprovider, mem_name_set, registered_mismatches_eq_nil hmanifest,
    declared_mismatches_eq_nil]

/-- A comparison that matches finds every declared package registered as it is declared. -/
theorem compare_matched {manifest : ProjectManifest} {provider : ProviderRegistry}
    (hmanifest : manifest.Read)
    (hprovider : (provider.packages.map ProviderRegistryPackage.name).Nodup)
    (h : (compare_project_manifest_to_provider manifest provider).state = .Matched) :
    ∀ project ∈ manifest.packages, ∃ package ∈ provider.packages,
      package.name = project.name ∧ project.source = .Git package.revision := by
  unfold compare_project_manifest_to_provider at h
  split at h
  · cases h
  · dsimp only at h
    split at h
    · rename_i hnil
      have hperm := sort_by_key_perm
        (fun mismatch : ProjectProviderMismatch => toLex (mismatch.package, mismatch.field))
        (document_mismatches manifest provider ++ package_mismatches manifest provider)
      rw [hnil] at hperm
      have hempty := List.append_eq_nil_iff.mp hperm.symm.eq_nil
      obtain ⟨hregistered, hnames⟩ :=
        (package_mismatches_eq_nil hmanifest hprovider).mp hempty.2
      intro project hproject
      obtain ⟨package, hpackage, hname⟩ :=
        List.mem_map.mp (hnames project.name (List.mem_map_of_mem hproject))
      obtain ⟨other, hother, hother_name, hsource⟩ := hregistered package hpackage
      have heq : other = project :=
        List.inj_on_of_nodup_map hmanifest.names.nodup hother hproject (hother_name.trans hname)
      exact ⟨package, hpackage, hname, by rwa [← heq]⟩
    · cases h

end LeanBun.Evidence
