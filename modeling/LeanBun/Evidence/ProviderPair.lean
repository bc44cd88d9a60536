/-
The registry of a provider, its override document and the pair of the two.

The registry names the Git packages with their revisions, the override document the
directories they are checked out to. A pair is read when both have the same version and the
same names, and every directory resolves to one inside the package root.
-/
import LeanBun.Evidence.Documents

set_option autoImplicit false

namespace LeanBun.Evidence

open LeanBun.Lib LeanBun.Core LeanBun.Codec LeanBun.Plan

def PROVIDER_REGISTRY_MAX_BYTES : ℕ := 4 * 1024 * 1024

/-- `parse_strict_json(text)?` and the decoder of a document. -/
def parse_document {α : Type} (decode : StrictJson → EvidenceResult α) (text : Str) :
    EvidenceResult α := do
  let value ← of_json_result (parse_strict_json text)
  decode value

/-! ## The registry -/

/-- `ProviderRegistryPackage`. -/
structure ProviderRegistryPackage where
  name : Str
  revision : Str
deriving DecidableEq

/-- `ProviderRegistry`. -/
structure ProviderRegistry where
  version : Str
  packages_dir : Str
  packages : List ProviderRegistryPackage
deriving DecidableEq

/-- The revision of a Git package. -/
def git_revision (code : DiagnosticCode) (package : Entries) (label : Str) :
    EvidenceResult Str := do
  let revision ← required_string code package "rev" MAX_SHORT_STRING_BYTES label
  let _ ← ensure (valid_revision revision = true)
    (shape code [label, " rev must be 40 lowercase hexadecimal bytes".toList])
  return revision

/-- The other fields of a Git package, in the order they are looked at. -/
def git_fields (code : DiagnosticCode) (package : Entries) (label : Str) :
    EvidenceResult Unit := do
  optional_string code package "url" MAX_URL_BYTES label
  optional_nullable_string code package "subDir" MAX_SHORT_STRING_BYTES label
  optional_string code package "scope" MAX_SHORT_STRING_BYTES label
  optional_string code package "manifestFile" MAX_SHORT_STRING_BYTES label
  optional_string code package "inputRev" MAX_SHORT_STRING_BYTES label
  optional_string code package "configFile" MAX_SHORT_STRING_BYTES label
  optional_boolean code package "inherited" label

namespace Registry

def ROOT_FIELDS : List String := ["packages", "packagesDir", "version"]

def PACKAGE_FIELDS : List String :=
  ["configFile", "inherited", "inputRev", "manifestFile", "name", "rev", "scope", "subDir",
    "type", "url"]

/-- One package of a registry. -/
def decode_package (label name : Str) (package : Entries) :
    EvidenceResult ProviderRegistryPackage := do
  let package_type ←
    required_string .PROVIDER_SCHEMA_INVALID package "type" MAX_SHORT_STRING_BYTES label
  let _ ← ensure (package_type = "git".toList)
    (shape .PROVIDER_SCHEMA_INVALID [label, " type must be git".toList])
  let revision ← git_revision .PROVIDER_SCHEMA_INVALID package label
  git_fields .PROVIDER_SCHEMA_INVALID package label
  return ⟨name, revision⟩

end Registry

/-- `decode_provider_registry`. -/
def decode_provider_registry (value : StrictJson) : EvidenceResult ProviderRegistry := do
  let document := "provider registry".toList
  let root ← object .PROVIDER_SCHEMA_INVALID value "provider registry root".toList
  reject_unknown_fields .PROVIDER_SCHEMA_INVALID root Registry.ROOT_FIELDS
    "provider registry root".toList
  let version ← schema_version .PROVIDER_SCHEMA_INVALID root document
  let packages_dir ← required_nonempty_string .PROVIDER_SCHEMA_INVALID root "packagesDir"
    MAX_SHORT_STRING_BYTES document
  let values ← package_values .PROVIDER_SCHEMA_INVALID root document
  let packages ← decode_packages .PROVIDER_SCHEMA_INVALID document
    "duplicate provider package name: ".toList Registry.PACKAGE_FIELDS Registry.decode_package 0 []
    values
  return ⟨version, packages_dir, packages⟩

/-- `StableProviderRegistryFile`. -/
structure StableProviderRegistryFile where
  file : StableTextFile
  registry : ProviderRegistry
deriving DecidableEq

/-- `read_provider_registry`. -/
def read_provider_registry (files : FileSystem) (root : CanonicalDirectory) (candidate : Str) :
    EvidenceResult StableProviderRegistryFile := do
  let file ← read_stable_text files root candidate PROVIDER_REGISTRY_MAX_BYTES
  let registry ← parse_document decode_provider_registry file.text
  return ⟨file, registry⟩

/-! ## The override document -/

/-- `ProviderOverridePackage`. -/
structure ProviderOverridePackage where
  name : Str
  directory : Str
deriving DecidableEq

/-- `ProviderOverride`. -/
structure ProviderOverride where
  version : Str
  packages : List ProviderOverridePackage
deriving DecidableEq

namespace Override

def ROOT_FIELDS : List String := ["packages", "version"]

def PACKAGE_FIELDS : List String :=
  ["configFile", "dir", "inherited", "manifestFile", "name", "type"]

/-- One package of an override document. -/
def decode_package (label name : Str) (package : Entries) :
    EvidenceResult ProviderOverridePackage := do
  let package_type ←
    required_string .PROVIDER_SCHEMA_INVALID package "type" MAX_SHORT_STRING_BYTES label
  let _ ← ensure (package_type = "path".toList)
    (shape .PROVIDER_SCHEMA_INVALID [label, " type must be path".toList])
  let directory ← required_string .PROVIDER_SCHEMA_INVALID package "dir" MAX_PATH_BYTES label
  let _ ← ensure (directory.head? = some '/')
    (shape .PROVIDER_SCHEMA_INVALID [label, " dir must be an absolute path".toList])
  optional_string .PROVIDER_SCHEMA_INVALID package "manifestFile" MAX_SHORT_STRING_BYTES label
  optional_string .PROVIDER_SCHEMA_INVALID package "configFile" MAX_SHORT_STRING_BYTES label
  optional_boolean .PROVIDER_SCHEMA_INVALID package "inherited" label
  return ⟨name, directory⟩

end Override

/-- `decode_provider_override`. -/
def decode_provider_override (value : StrictJson) : EvidenceResult ProviderOverride := do
  let document := "provider override".toList
  let root ← object .PROVIDER_SCHEMA_INVALID value "provider override root".toList
  reject_unknown_fields .PROVIDER_SCHEMA_INVALID root Override.ROOT_FIELDS
    "provider override root".toList
  let version ← schema_version .PROVIDER_SCHEMA_INVALID root document
  let values ← package_values .PROVIDER_SCHEMA_INVALID root document
  let packages ← decode_packages .PROVIDER_SCHEMA_INVALID document
    "duplicate provider override package name: ".toList Override.PACKAGE_FIELDS
    Override.decode_package 0 [] values
  return ⟨version, packages⟩

/-- `StableProviderOverrideFile`. -/
structure StableProviderOverrideFile where
  file : StableTextFile
  overrides : ProviderOverride
deriving DecidableEq

/-- `read_provider_override`. -/
def read_provider_override (files : FileSystem) (root : CanonicalDirectory) (candidate : Str) :
    EvidenceResult StableProviderOverrideFile := do
  let file ← read_stable_text files root candidate PROVIDER_REGISTRY_MAX_BYTES
  let overrides ← parse_document decode_provider_override file.text
  return ⟨file, overrides⟩

/-! ## The pair -/

/-- `VerifiedProviderPackage`. -/
structure VerifiedProviderPackage where
  name : Str
  revision : Str
  directory : CanonicalPath
deriving DecidableEq

/-- What the registry says of a verified package. -/
def VerifiedProviderPackage.registered (package : VerifiedProviderPackage) :
    ProviderRegistryPackage := ⟨package.name, package.revision⟩

/-- `StableProviderPair`. -/
structure StableProviderPair where
  registry : StableProviderRegistryFile
  overrides : StableProviderOverrideFile
  package_root : CanonicalDirectory
  packages : List VerifiedProviderPackage
deriving DecidableEq

/-- The lookup of a map that was collected from a list: a later entry replaces an earlier
one. -/
def by_name {α : Type} (name_of : α → Str) (values : List α) (name : Str) : Option α :=
  values.reverse.find? fun value => decide (name_of value = name)

/-- A set of names, in its order. -/
def name_set (names : List Str) : List Str := dedup_adjacent (sort_by_key id names)

/-- `drift`, with the parts of its text. -/
def drift (parts : List Str) : EvidenceError := ⟨.OVERRIDE_DRIFTED, parts.flatten⟩

/-- The names of the first set that are not in the second. -/
def difference_text (names other : List Str) : Str :=
  List.intercalate [','] ((name_set names).filter fun name => !decide (name ∈ other))

/-- The directories of the registered packages. -/
def verify_packages (files : ℕ → FileSystem) (overrides : ProviderOverride)
    (package_root : CanonicalDirectory) :
    ℕ → List ProviderRegistryPackage → EvidenceResult (List VerifiedProviderPackage)
  | _, [] => .ok []
  | index, package :: packages => do
    match by_name ProviderOverridePackage.name overrides.packages package.name with
    | none => .error (drift ["provider override is missing package: ".toList, package.name])
    | some override_package =>
      let directory ← contained_directory "provider package directory cannot be inspected: "
        "provider package path is not a directory: " (files index) package_root
        override_package.directory
      let rest ← verify_packages files overrides package_root (index + 1) packages
      return ⟨package.name, package.revision, directory⟩ :: rest

/-- `match_provider_documents`. -/
def match_provider_documents (files : ℕ → FileSystem) (registry : ProviderRegistry)
    (overrides : ProviderOverride) (package_root : CanonicalDirectory) :
    EvidenceResult (List VerifiedProviderPackage) := do
  let _ ← ensure (registry.version = overrides.version)
    (drift ["provider registry version ".toList, registry.version,
      " differs from override version ".toList, overrides.version])
  let registry_names := registry.packages.map ProviderRegistryPackage.name
  let override_names := overrides.packages.map ProviderOverridePackage.name
  let _ ← ensure (name_set registry_names = name_set override_names)
    (drift ["provider package name sets differ; missing=[".toList,
      difference_text registry_names override_names, "] extra=[".toList,
      difference_text override_names registry_names, "]".toList])
  verify_packages files overrides package_root 0 registry.packages

/-- The accesses of `read_provider_pair`. -/
inductive ProviderMoment where
  | PackageRoot
  | Registry
  | Override
  | Package (index : ℕ)
  | RegistryAfter
  | OverrideAfter

/-- `read_provider_pair`. -/
def read_provider_pair (files : ProviderMoment → FileSystem) (isolation_root : CanonicalDirectory)
    (registry_candidate override_candidate package_root_candidate : Str) :
    EvidenceResult StableProviderPair := do
  let package_root ← canonicalize_contained_directory (files .PackageRoot) isolation_root
    package_root_candidate
  let registry ← read_provider_registry (files .Registry) isolation_root registry_candidate
  let overrides ← read_provider_override (files .Override) isolation_root override_candidate
  let packages ← match_provider_documents (fun index => files (.Package index)) registry.registry
    overrides.overrides package_root
  let registry_after ← read_provider_registry (files .RegistryAfter) isolation_root
    registry_candidate
  let overrides_after ← read_provider_override (files .OverrideAfter) isolation_root
    override_candidate
  let _ ← ensure (registry.file.sha256 = registry_after.file.sha256 ∧
      overrides.file.sha256 = overrides_after.file.sha256)
    ⟨.EVIDENCE_CHANGED_DURING_READ,
      "provider registry or override changed during pair verification".toList⟩
  return ⟨registry, overrides, package_root, packages⟩

/-! ## What a pair that was read has -/

/-- The names of a document are distinct, not empty and bounded. -/
structure NamesHold (names : List Str) : Prop where
  nodup : names.Nodup
  plain : ∀ name ∈ names, name ≠ [] ∧ byte_len name ≤ MAX_SHORT_STRING_BYTES
  bounded : names.length ≤ MAX_PROVIDER_PACKAGES

theorem by_name_eq_some {α : Type} {name_of : α → Str} {values : List α} {name : Str} {value : α}
    (h : by_name name_of values name = some value) : value ∈ values ∧ name_of value = name := by
  obtain ⟨hmem, hname⟩ := find_key_some h
  exact ⟨List.mem_reverse.mp hmem, hname⟩

theorem by_name_of_mem {α : Type} {name_of : α → Str} {values : List α}
    (hnodup : (values.map name_of).Nodup) {value : α} (h : value ∈ values) :
    by_name name_of values (name_of value) = some value := by
  refine find_key_of_mem ?_ (List.mem_reverse.mpr h)
  rw [List.map_reverse]
  exact List.nodup_reverse.mpr hnodup

theorem by_name_eq_none {α : Type} {name_of : α → Str} {values : List α} {name : Str} :
    by_name name_of values name = none ↔ name ∉ values.map name_of := by
  unfold by_name
  rw [List.find?_eq_none]
  constructor
  · intro h hmem
    obtain ⟨value, hvalue, hname⟩ := List.mem_map.mp hmem
    exact h value (List.mem_reverse.mpr hvalue) (decide_eq_true hname)
  · intro h value hvalue hname
    exact h (List.mem_map.mpr ⟨value, List.mem_reverse.mp hvalue, of_decide_eq_true hname⟩)

@[simp] theorem mem_name_set {names : List Str} {name : Str} :
    name ∈ name_set names ↔ name ∈ names := by
  unfold name_set
  rw [mem_dedup_adjacent, mem_sort_by_key]

/-- The packages of a document, whichever decoder reads one of them. -/
theorem decoded_names {α : Type} {code : DiagnosticCode} {document duplicate : Str}
    {fields : List String} {decode_package : Str → Str → Entries → EvidenceResult α}
    {key : α → Str} {P : α → Prop} {root : Entries} {values : List StrictJson} {packages : List α}
    (hone : ∀ label name package a, decode_package label name package = .ok a → key a = name ∧ P a)
    (hvalues : package_values code root document = .ok values)
    (h : decode_packages code document duplicate fields decode_package 0 [] values =
      .ok packages) :
    NamesHold (packages.map key) ∧ ∀ package ∈ packages, P package := by
  obtain ⟨hnodup, hlength, hall⟩ := decode_packages_eq_ok hone h
  refine ⟨⟨hnodup, ?_, ?_⟩, fun package hpackage => (hall package hpackage).2.2.2⟩
  · intro name hname
    obtain ⟨package, hpackage, rfl⟩ := List.mem_map.mp hname
    exact ⟨(hall package hpackage).2.1, (hall package hpackage).2.2.1⟩
  · rw [List.length_map, hlength]
    unfold package_values at hvalues
    split at hvalues
    · split at hvalues
      · cases hvalues
      · rename_i hlimit
        cases hvalues
        exact Nat.not_lt.mp hlimit
    · cases hvalues
    · cases hvalues

theorem git_revision_eq_ok {code : DiagnosticCode} {package : Entries} {label revision : Str}
    (h : git_revision code package label = .ok revision) : valid_revision revision = true := by
  obtain ⟨_, -, h⟩ := bind_eq_ok.mp h
  obtain ⟨hvalid, -, h⟩ := bind_eq_ok.mp h
  cases h
  exact hvalid.down

theorem parse_document_eq_ok {α : Type} {decode : StrictJson → EvidenceResult α} {text : Str}
    {document : α} (h : parse_document decode text = .ok document) :
    ∃ value, decode value = .ok document := by
  obtain ⟨value, -, h⟩ := bind_eq_ok.mp h
  exact ⟨value, h⟩

theorem decode_provider_registry_eq_ok {value : StrictJson} {registry : ProviderRegistry}
    (h : decode_provider_registry value = .ok registry) :
    NamesHold (registry.packages.map ProviderRegistryPackage.name) ∧
      ∀ package ∈ registry.packages, valid_revision package.revision = true := by
  obtain ⟨_, -, h⟩ := bind_eq_ok.mp h
  obtain ⟨_, -, h⟩ := bind_eq_ok.mp h
  obtain ⟨_, -, h⟩ := bind_eq_ok.mp h
  obtain ⟨_, -, h⟩ := bind_eq_ok.mp h
  obtain ⟨values, hvalues, h⟩ := bind_eq_ok.mp h
  obtain ⟨packages, hpackages, h⟩ := bind_eq_ok.mp h
  cases h
  refine @decoded_names _ _ _ _ _ _ _ _ _ _ _ ?_ hvalues hpackages
  intro label name package a ha
  obtain ⟨_, -, ha⟩ := bind_eq_ok.mp ha
  obtain ⟨_, -, ha⟩ := bind_eq_ok.mp ha
  obtain ⟨revision, hrevision, ha⟩ := bind_eq_ok.mp ha
  obtain ⟨_, -, ha⟩ := bind_eq_ok.mp ha
  cases ha
  exact ⟨rfl, git_revision_eq_ok hrevision⟩

theorem decode_provider_override_eq_ok {value : StrictJson} {overrides : ProviderOverride}
    (h : decode_provider_override value = .ok overrides) :
    NamesHold (overrides.packages.map ProviderOverridePackage.name) := by
  obtain ⟨_, -, h⟩ := bind_eq_ok.mp h
  obtain ⟨_, -, h⟩ := bind_eq_ok.mp h
  obtain ⟨_, -, h⟩ := bind_eq_ok.mp h
  obtain ⟨values, hvalues, h⟩ := bind_eq_ok.mp h
  obtain ⟨packages, hpackages, h⟩ := bind_eq_ok.mp h
  cases h
  refine (@decoded_names _ _ _ _ _ _ _ (fun _ => True) _ _ _ ?_ hvalues hpackages).1
  intro label name package a ha
  obtain ⟨_, -, ha⟩ := bind_eq_ok.mp ha
  obtain ⟨_, -, ha⟩ := bind_eq_ok.mp ha
  obtain ⟨_, -, ha⟩ := bind_eq_ok.mp ha
  obtain ⟨_, -, ha⟩ := bind_eq_ok.mp ha
  obtain ⟨_, -, ha⟩ := bind_eq_ok.mp ha
  obtain ⟨_, -, ha⟩ := bind_eq_ok.mp ha
  obtain ⟨_, -, ha⟩ := bind_eq_ok.mp ha
  cases ha
  exact ⟨rfl, trivial⟩

theorem read_provider_override_eq_ok {files : FileSystem} {root : CanonicalDirectory}
    {candidate : Str} {document : StableProviderOverrideFile}
    (h : read_provider_override files root candidate = .ok document) :
    NamesHold (document.overrides.packages.map ProviderOverridePackage.name) := by
  obtain ⟨file, -, h⟩ := bind_eq_ok.mp h
  obtain ⟨overrides, hparse, h⟩ := bind_eq_ok.mp h
  cases h
  obtain ⟨value, hvalue⟩ := parse_document_eq_ok hparse
  exact decode_provider_override_eq_ok hvalue

/-- The verified packages are the registered ones, each with the directory of an entry of the
override document. -/
theorem verify_packages_eq_ok {files : ℕ → FileSystem} {overrides : ProviderOverride}
    {package_root : CanonicalDirectory} {index : ℕ} {registered : List ProviderRegistryPackage}
    {packages : List VerifiedProviderPackage}
    (h : verify_packages files overrides package_root index registered = .ok packages) :
    packages.map VerifiedProviderPackage.registered = registered := by
  induction registered generalizing index packages with
  | nil =>
    cases h
    rfl
  | cons package registered ih =>
    unfold verify_packages at h
    split at h
    · cases h
    · obtain ⟨directory, -, h⟩ := bind_eq_ok.mp h
      obtain ⟨rest, hrest, h⟩ := bind_eq_ok.mp h
      cases h
      rw [List.map_cons, ih hrest]
      rfl

/-- **What every pair that was read has.** -/
structure StableProviderPair.Read (pair : StableProviderPair) : Prop where
  registry_names : NamesHold (pair.registry.registry.packages.map ProviderRegistryPackage.name)
  revisions : ∀ package ∈ pair.registry.registry.packages, valid_revision package.revision = true
  override_names :
    NamesHold (pair.overrides.overrides.packages.map ProviderOverridePackage.name)
  packages : pair.packages.map VerifiedProviderPackage.registered = pair.registry.registry.packages
  same_names : ∀ name, name ∈ pair.registry.registry.packages.map ProviderRegistryPackage.name ↔
    name ∈ pair.overrides.overrides.packages.map ProviderOverridePackage.name

theorem read_provider_pair_eq_ok {files : ProviderMoment → FileSystem}
    {isolation_root : CanonicalDirectory}
    {registry_candidate override_candidate package_root_candidate : Str} {pair : StableProviderPair}
    (h : read_provider_pair files isolation_root registry_candidate override_candidate
      package_root_candidate = .ok pair) : pair.Read := by
  obtain ⟨package_root, -, h⟩ := bind_eq_ok.mp h
  obtain ⟨registry, hregistry, h⟩ := bind_eq_ok.mp h
  obtain ⟨overrides, hoverrides, h⟩ := bind_eq_ok.mp h
  obtain ⟨packages, hpackages, h⟩ := bind_eq_ok.mp h
  obtain ⟨_, -, h⟩ := bind_eq_ok.mp h
  obtain ⟨_, -, h⟩ := bind_eq_ok.mp h
  obtain ⟨_, -, h⟩ := bind_eq_ok.mp h
  cases h
  have hoverride_names := read_provider_override_eq_ok hoverrides
  obtain ⟨_, -, hregistry⟩ := bind_eq_ok.mp hregistry
  obtain ⟨document, hparse, hregistry⟩ := bind_eq_ok.mp hregistry
  cases hregistry
  obtain ⟨value, hvalue⟩ := parse_document_eq_ok hparse
  obtain ⟨hnames, hrevisions⟩ := decode_provider_registry_eq_ok hvalue
  obtain ⟨_, -, hpackages⟩ := bind_eq_ok.mp hpackages
  obtain ⟨hsets, -, hpackages⟩ := bind_eq_ok.mp hpackages
  refine ⟨hnames, hrevisions, hoverride_names, verify_packages_eq_ok hpackages, fun name => ?_⟩
  rw [← mem_name_set, hsets.down, mem_name_set]

namespace StableProviderPair.Read

variable {pair : StableProviderPair}

theorem package_names (h : pair.Read) :
    pair.packages.map VerifiedProviderPackage.name =
      pair.registry.registry.packages.map ProviderRegistryPackage.name := by
  rw [← h.packages, List.map_map]
  rfl

theorem nodup (h : pair.Read) : (pair.packages.map VerifiedProviderPackage.name).Nodup := by
  rw [h.package_names]
  exact h.registry_names.nodup

/-- A registered package has a verified one. -/
theorem verified (h : pair.Read) {package : ProviderRegistryPackage}
    (hpackage : package ∈ pair.registry.registry.packages) :
    ∃ binding ∈ pair.packages, binding.registered = package := by
  rw [← h.packages] at hpackage
  exact List.mem_map.mp hpackage

theorem registered (h : pair.Read) {binding : VerifiedProviderPackage}
    (hbinding : binding ∈ pair.packages) :
    binding.registered ∈ pair.registry.registry.packages := by
  rw [← h.packages]
  exact List.mem_map_of_mem hbinding

end StableProviderPair.Read

/-! ## A provider without packages -/

def sample_isolation_root : CanonicalDirectory := ⟨as_bytes "/v".toList, by decide⟩

def sample_registry_text : Str :=
  "\x7b\"version\":\"1.0.0\",\"packagesDir\":\"p\",\"packages\":[]\x7d".toList

def sample_overrides_text : Str := "\x7b\"version\":\"1.0.0\",\"packages\":[]\x7d".toList

/-- The files of a provider that registers no package. -/
def sample_provider_files : FileSystem where
  present _ := .ok true
  canonicalize _ := .ok sample_isolation_root
  is_dir _ := .ok true
  contents path :=
    if path = as_bytes "/v/r".toList then .ok (as_bytes sample_registry_text)
    else .ok (as_bytes sample_overrides_text)

def sample_provider_pair : StableProviderPair :=
  ⟨⟨⟨sample_registry_text⟩, "1.0.0".toList, "p".toList, []⟩,
    ⟨⟨sample_overrides_text⟩, "1.0.0".toList, []⟩, sample_isolation_root, []⟩

theorem sample_provider_read :
    read_provider_pair (fun _ => sample_provider_files) sample_isolation_root "r".toList "o".toList
      ".".toList = .ok sample_provider_pair := by
  have hroot : canonicalize_contained_directory sample_provider_files sample_isolation_root
      ".".toList = .ok sample_isolation_root := ok_of_toOption (by decide +kernel)
  have hregistry : read_provider_registry sample_provider_files sample_isolation_root
      "r".toList = .ok sample_provider_pair.registry := ok_of_toOption (by decide +kernel)
  have hoverrides : read_provider_override sample_provider_files sample_isolation_root
      "o".toList = .ok sample_provider_pair.overrides := ok_of_toOption (by decide +kernel)
  refine bind_eq_ok.mpr ⟨_, hroot, bind_eq_ok.mpr ⟨_, hregistry, bind_eq_ok.mpr ⟨_, hoverrides,
    bind_eq_ok.mpr ⟨[], rfl, bind_eq_ok.mpr ⟨_, hregistry, bind_eq_ok.mpr ⟨_, hoverrides, ?_⟩⟩⟩⟩⟩⟩
  exact bind_eq_ok.mpr ⟨_, ensure_ok ⟨rfl, rfl⟩ _, rfl⟩

end LeanBun.Evidence
