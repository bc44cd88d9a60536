/-
The input of a project: its toolchain, manifest, override document and path packages.

The files are read twice and the second reading has to agree with the first. A project
without packages is dependency-free; one with packages is standalone, or bound to the
provider it was compared with.
-/
import LeanBun.Evidence.ProjectManifest

set_option autoImplicit false

namespace LeanBun.Evidence

open LeanBun.Lib LeanBun.Core LeanBun.Codec LeanBun.Plan

def TOOLCHAIN_MAX_BYTES : ℕ := 16 * 1024
def TOOLCHAIN_FILE : Str := "lean-toolchain".toList
def MANIFEST_FILE : Str := "lake-manifest.json".toList
def OVERRIDE_FILE : Str := ".lake/package-overrides.json".toList

/-- `ProjectInputState`. -/
inductive ProjectInputState where
  | DependencyFree
  | Standalone
  | ProviderBound
deriving DecidableEq

/-- `ProjectPathPackage`. -/
structure ProjectPathPackage where
  name : Str
  directory : CanonicalPath
deriving DecidableEq

/-- `StableProjectInput`. -/
structure StableProjectInput where
  project_root : CanonicalDirectory
  state : ProjectInputState
  toolchain_file : StableTextFile
  toolchain : Str
  manifest : StableProjectManifestFile
  overrides : Option StableProviderOverrideFile
  path_packages : List ProjectPathPackage
  provider_comparison : Option ProjectProviderComparison
deriving DecidableEq

/-! ## The readers -/

/-- `char::is_whitespace`. -/
def is_white_space (c : Char) : Bool :=
  decide ((0x9 ≤ c.toNat ∧ c.toNat ≤ 0xd) ∨ c.toNat = 0x20 ∨ c.toNat = 0x85 ∨ c.toNat = 0xa0 ∨
    c.toNat = 0x1680 ∨ (0x2000 ≤ c.toNat ∧ c.toNat ≤ 0x200a) ∨ c.toNat = 0x2028 ∨
    c.toNat = 0x2029 ∨ c.toNat = 0x202f ∨ c.toNat = 0x205f ∨ c.toNat = 0x3000)

/-- `str::trim`. -/
def trim (text : Str) : Str := (text.dropWhile is_white_space).rdropWhile is_white_space

/-- A character of a toolchain identifier. -/
def is_toolchain_char (c : Char) : Bool :=
  decide (('0' ≤ c ∧ c ≤ '9') ∨ ('a' ≤ c ∧ c ≤ 'z') ∨ ('A' ≤ c ∧ c ≤ 'Z')) ||
    decide (c ∈ ['.', '_', ':', '/', '+', '-'])

/-- `validate_toolchain`. -/
def validate_toolchain (text : Str) : EvidenceResult Str := do
  let toolchain := trim text
  let _ ← ensure (toolchain ≠ [] ∧ toolchain.all is_toolchain_char = true)
    ⟨.TOOLCHAIN_INVALID,
      "lean-toolchain must be one non-empty ASCII toolchain identifier".toList⟩
  return toolchain

/-- The accesses of one pass over the files of a project. -/
inductive ProjectMoment where
  | Toolchain
  | Manifest
  | OverrideInspected
  | Override
  | Package (index : ℕ)

/-- `read_optional_override`. -/
def read_optional_override (files : ProjectMoment → FileSystem)
    (project_root : CanonicalDirectory) :
    EvidenceResult (Option StableProviderOverrideFile) :=
  match (files .OverrideInspected).present (join_path project_root OVERRIDE_FILE) with
  | .ok true => (read_provider_override (files .Override) project_root OVERRIDE_FILE).map some
  | .ok false => .ok none
  | .error error => .error ⟨.EVIDENCE_READ_FAILED,
      "project override cannot be inspected: ".toList ++ error⟩

/-- The directories of the path packages, in the order of the manifest. -/
def path_packages (files : ℕ → FileSystem) (project_root : CanonicalDirectory) :
    ℕ → List ProjectManifestPackage → EvidenceResult (List ProjectPathPackage)
  | _, [] => .ok []
  | index, package :: packages =>
    match package.source with
    | .Git _ => path_packages files project_root index packages
    | .Path directory => do
      let canonical ← contained_directory "project path package cannot be inspected: "
        "project path package is not a directory: " (files index) project_root directory
      let rest ← path_packages files project_root (index + 1) packages
      return ⟨package.name, canonical⟩ :: rest

/-- `resolve_path_packages`. -/
def resolve_path_packages (files : ℕ → FileSystem) (project_root : CanonicalDirectory)
    (manifest : StableProjectManifestFile) : EvidenceResult (List ProjectPathPackage) :=
  (path_packages files project_root 0 manifest.manifest.packages).map
    (sort_by_key ProjectPathPackage.name)

/-- `classify_input`. -/
def classify_input (manifest : StableProjectManifestFile)
    (overrides : Option StableProviderOverrideFile) (provider : Option StableProviderPair) :
    EvidenceResult (ProjectInputState × Option ProjectProviderComparison) :=
  if manifest.manifest.packages = [] then
    match overrides with
    | some _ => .error ⟨.OVERRIDE_DRIFTED,
        "dependency-free project must not contain package overrides".toList⟩
    | none => .ok (.DependencyFree, none)
  else
    match provider with
    | none => .ok (.Standalone, none)
    | some provider =>
      let comparison :=
        compare_project_manifest_to_provider manifest.manifest provider.registry.registry
      if comparison.state ≠ .Matched then
        .error ⟨.MANIFEST_PROVIDER_MISMATCH,
          "project manifest differs from provider registry in ".toList ++
            decimal comparison.mismatches.length ++ " field(s)".toList⟩
      else
        match overrides with
        | none => .error ⟨.OVERRIDE_MISSING,
            "provider-bound project is missing .lake/package-overrides.json".toList⟩
        | some overrides =>
          if overrides.overrides ≠ provider.overrides.overrides ∨
              overrides.file.sha256 ≠ provider.overrides.file.sha256 then
            .error ⟨.OVERRIDE_DRIFTED,
              "project override differs from provider override typed content or SHA-256".toList⟩
          else .ok (.ProviderBound, some comparison)

/-- `optional_sha`. -/
def optional_sha (value : Option StableProviderOverrideFile) : Option Sha256 :=
  value.map fun value => value.file.sha256

/-- `read_project_input`, with the files at the accesses of its two passes. -/
def read_project_input (before after : ProjectMoment → FileSystem)
    (project_root : CanonicalDirectory) (provider : Option StableProviderPair) :
    EvidenceResult StableProjectInput := do
  let toolchain_file ←
    read_stable_text (before .Toolchain) project_root TOOLCHAIN_FILE TOOLCHAIN_MAX_BYTES
  let toolchain ← validate_toolchain toolchain_file.text
  let manifest ← read_project_manifest (before .Manifest) project_root MANIFEST_FILE
  let overrides ← read_optional_override before project_root
  let packages ← resolve_path_packages (fun index => before (.Package index)) project_root manifest
  let classified ← classify_input manifest overrides provider
  let toolchain_after ←
    read_stable_text (after .Toolchain) project_root TOOLCHAIN_FILE TOOLCHAIN_MAX_BYTES
  let manifest_after ← read_project_manifest (after .Manifest) project_root MANIFEST_FILE
  let overrides_after ← read_optional_override after project_root
  let packages_after ←
    resolve_path_packages (fun index => after (.Package index)) project_root manifest_after
  let _ ← ensure (toolchain_file.sha256 = toolchain_after.sha256 ∧
      manifest.file.sha256 = manifest_after.file.sha256 ∧
      optional_sha overrides = optional_sha overrides_after ∧ packages = packages_after)
    ⟨.EVIDENCE_CHANGED_DURING_READ, ("project toolchain, manifest, override, or path package " ++
      "changed during input verification").toList⟩
  return ⟨project_root, classified.1, toolchain_file, toolchain, manifest, overrides, packages,
    classified.2⟩

/-! ## What an input that was read has -/

/-- The state of an input, with what it was found from. -/
inductive Classified (provider : Option StableProviderPair) (manifest : ProjectManifest)
    (overrides : Option StableProviderOverrideFile) : ProjectInputState → Prop where
  | dependency_free (hpackages : manifest.packages = []) (hoverrides : overrides = none) :
      Classified provider manifest overrides .DependencyFree
  | standalone (hprovider : provider = none) : Classified provider manifest overrides .Standalone
  | provider_bound (pair : StableProviderPair) (document : StableProviderOverrideFile)
      (hprovider : provider = some pair) (hoverrides : overrides = some document)
      (hmatched : (compare_project_manifest_to_provider manifest pair.registry.registry).state =
        .Matched)
      (hsame : document.overrides = pair.overrides.overrides)
      (hsha : document.file.sha256 = pair.overrides.file.sha256) :
      Classified provider manifest overrides .ProviderBound

theorem classify_input_eq_ok {manifest : StableProjectManifestFile}
    {overrides : Option StableProviderOverrideFile} {provider : Option StableProviderPair}
    {classified : ProjectInputState × Option ProjectProviderComparison}
    (h : classify_input manifest overrides provider = .ok classified) :
    Classified provider manifest.manifest overrides classified.1 := by
  unfold classify_input at h
  split at h
  · rename_i hpackages
    split at h
    · cases h
    · cases h
      exact .dependency_free hpackages rfl
  · split at h
    · cases h
      exact .standalone rfl
    · rename_i pair
      dsimp only at h
      split at h
      · cases h
      · rename_i hstate
        split at h
        · cases h
        · rename_i document
          split at h
          · cases h
          · rename_i hsame
            cases h
            rw [not_or, not_not, not_not] at hsame
            exact .provider_bound pair document rfl rfl (not_not.mp hstate) hsame.1 hsame.2

theorem trim_length_le (text : Str) : (trim text).length ≤ text.length := by
  unfold trim List.rdropWhile
  rw [List.length_reverse]
  refine (List.length_dropWhile_le _ _).trans ?_
  rw [List.length_reverse]
  exact List.length_dropWhile_le _ _

/-- The path packages are those the manifest declares, by name. -/
theorem path_packages_names {files : ℕ → FileSystem} {project_root : CanonicalDirectory} {index : ℕ}
    {packages : List ProjectManifestPackage} {resolved : List ProjectPathPackage}
    (h : path_packages files project_root index packages = .ok resolved) :
    resolved.map ProjectPathPackage.name =
      (packages.filter fun package => match package.source with
        | .Git _ => false
        | .Path _ => true).map ProjectManifestPackage.name := by
  induction packages generalizing index resolved with
  | nil =>
    cases h
    rfl
  | cons package packages ih =>
    unfold path_packages at h
    rw [List.filter_cons]
    rcases hsource : package.source with revision | directory
    · rw [hsource] at h
      exact ih h
    · rw [hsource] at h
      obtain ⟨canonical, -, h⟩ := bind_eq_ok.mp h
      obtain ⟨rest, hrest, h⟩ := bind_eq_ok.mp h
      cases h
      rw [List.map_cons, ih hrest]
      rfl

/-- **What every input that was read has.** -/
structure StableProjectInput.Read (provider : Option StableProviderPair)
    (input : StableProjectInput) : Prop where
  toolchain : input.toolchain ≠ []
  toolchain_short : byte_len input.toolchain ≤ 4 * TOOLCHAIN_MAX_BYTES
  manifest : input.manifest.manifest.Read
  overrides : ∀ document, input.overrides = some document →
    NamesHold (document.overrides.packages.map ProviderOverridePackage.name)
  resolved : ∀ package ∈ input.manifest.manifest.packages, ∀ directory,
    package.source = .Path directory →
      package.name ∈ input.path_packages.map ProjectPathPackage.name
  distinct : (input.path_packages.map ProjectPathPackage.name).Nodup
  declared : ∀ name ∈ input.path_packages.map ProjectPathPackage.name,
    ∃ package ∈ input.manifest.manifest.packages, package.name = name ∧
      ∃ directory, package.source = .Path directory
  classified : Classified provider input.manifest.manifest input.overrides input.state

theorem read_optional_override_eq_ok {files : ProjectMoment → FileSystem}
    {project_root : CanonicalDirectory} {document : StableProviderOverrideFile}
    (h : read_optional_override files project_root = .ok (some document)) :
    NamesHold (document.overrides.packages.map ProviderOverridePackage.name) := by
  unfold read_optional_override at h
  split at h
  · rcases hread : read_provider_override (files .Override) project_root OVERRIDE_FILE with
      error | found
    · rw [hread] at h
      cases h
    · rw [hread] at h
      cases h
      exact read_provider_override_eq_ok hread
  · cases h
  · cases h

theorem read_project_input_eq_ok {before after : ProjectMoment → FileSystem}
    {project_root : CanonicalDirectory} {provider : Option StableProviderPair}
    {input : StableProjectInput}
    (h : read_project_input before after project_root provider = .ok input) :
    input.Read provider := by
  obtain ⟨toolchain_file, hfile, h⟩ := bind_eq_ok.mp h
  obtain ⟨toolchain, htoolchain, h⟩ := bind_eq_ok.mp h
  obtain ⟨manifest, hmanifest, h⟩ := bind_eq_ok.mp h
  obtain ⟨overrides, hoverrides, h⟩ := bind_eq_ok.mp h
  obtain ⟨packages, hpackages, h⟩ := bind_eq_ok.mp h
  obtain ⟨classified, hclassified, h⟩ := bind_eq_ok.mp h
  obtain ⟨_, -, h⟩ := bind_eq_ok.mp h
  obtain ⟨_, -, h⟩ := bind_eq_ok.mp h
  obtain ⟨_, -, h⟩ := bind_eq_ok.mp h
  obtain ⟨_, -, h⟩ := bind_eq_ok.mp h
  obtain ⟨_, -, h⟩ := bind_eq_ok.mp h
  cases h
  have hread := read_project_manifest_eq_ok hmanifest
  obtain ⟨hplain, -, htoolchain⟩ := bind_eq_ok.mp htoolchain
  cases htoolchain
  have hshort : byte_len (trim toolchain_file.text) ≤ 4 * TOOLCHAIN_MAX_BYTES := by
    have htrim := trim_length_le toolchain_file.text
    have htext := length_le_byte_len toolchain_file.text
    have hlimit := read_stable_text_eq_ok hfile
    have hbytes := byte_len_le (trim toolchain_file.text)
    omega
  -- The names of the path packages, in whichever order.
  obtain ⟨resolved, hresolved, hsorted⟩ : ∃ resolved,
      path_packages (fun index => before (.Package index)) project_root 0
        manifest.manifest.packages = .ok resolved ∧
      packages = sort_by_key ProjectPathPackage.name resolved := by
    unfold resolve_path_packages at hpackages
    rcases hfound : path_packages (fun index => before (.Package index)) project_root 0
      manifest.manifest.packages with error | resolved
    · rw [hfound] at hpackages
      cases hpackages
    · rw [hfound] at hpackages
      cases hpackages
      exact ⟨resolved, rfl, rfl⟩
  have hnames := path_packages_names hresolved
  have hperm : (packages.map ProjectPathPackage.name).Perm
      (resolved.map ProjectPathPackage.name) := by
    rw [hsorted]
    exact (sort_by_key_perm _ _).map _
  refine ⟨hplain.down.1, hshort, hread, ?_, ?_, ?_, ?_, classify_input_eq_ok hclassified⟩
  · rintro document rfl
    exact read_optional_override_eq_ok hoverrides
  · intro package hpackage directory hsource
    rw [hperm.mem_iff, hnames]
    refine List.mem_map_of_mem (List.mem_filter.mpr ⟨hpackage, ?_⟩)
    rw [hsource]
  · rw [hperm.nodup_iff, hnames]
    exact hread.names.nodup.sublist (List.filter_sublist.map _)
  · intro name hname
    rw [hperm.mem_iff, hnames] at hname
    obtain ⟨package, hpackage, rfl⟩ := List.mem_map.mp hname
    obtain ⟨hmem, hpath⟩ := List.mem_filter.mp hpackage
    refine ⟨package, hmem, rfl, ?_⟩
    rcases hsource : package.source with revision | directory
    · rw [hsource] at hpath
      cases hpath
    · exact ⟨directory, rfl⟩

/-! ## A standalone project -/

def sample_root : CanonicalDirectory := ⟨as_bytes "/p".toList, by decide⟩

def sample_revision : Str := List.replicate 40 'a'

def sample_manifest_text : Str :=
  ("\x7b\"version\":\"1.0.0\",\"packagesDir\":\"p\",\"name\":\"a\",\"lakeDir\":\".lake\"," ++
    "\"fixedToolchain\":true,\"packages\":[\x7b\"name\":\"b\",\"type\":\"git\",\"rev\":\"").toList ++
    sample_revision ++ "\"\x7d]\x7d".toList

/-- A project with a toolchain and a manifest, and no other files. -/
def sample_project_files (_ : ProjectMoment) : FileSystem where
  present _ := .ok false
  canonicalize _ := .error "missing".toList
  is_dir _ := .ok false
  contents path :=
    if path = as_bytes "/p/lean-toolchain".toList then .ok (as_bytes "v4\n".toList)
    else if path = as_bytes "/p/lake-manifest.json".toList then .ok (as_bytes sample_manifest_text)
    else .error ⟨.EVIDENCE_MISSING, "missing".toList⟩

def sample_manifest : StableProjectManifestFile :=
  ⟨⟨sample_manifest_text⟩, "1.0.0".toList, "p".toList, "a".toList, ".lake".toList, true,
    [⟨"b".toList, .Git sample_revision⟩]⟩

def sample_project_input : StableProjectInput :=
  ⟨sample_root, .Standalone, ⟨"v4\n".toList⟩, "v4".toList, sample_manifest, none, [], none⟩

/-- The project is read without a provider. -/
theorem sample_project_read :
    read_project_input sample_project_files sample_project_files sample_root none =
      .ok sample_project_input := by
  have htoolchain : read_stable_text (sample_project_files .Toolchain) sample_root TOOLCHAIN_FILE
      TOOLCHAIN_MAX_BYTES = .ok ⟨"v4\n".toList⟩ := ok_of_toOption (by decide +kernel)
  have hmanifest : read_project_manifest (sample_project_files .Manifest) sample_root
      MANIFEST_FILE = .ok sample_manifest := ok_of_toOption (by decide +kernel)
  have hvalid : validate_toolchain "v4\n".toList = .ok "v4".toList :=
    ok_of_toOption (by decide +kernel)
  refine bind_eq_ok.mpr ⟨_, htoolchain, bind_eq_ok.mpr ⟨_, hvalid, bind_eq_ok.mpr ⟨_, hmanifest,
    bind_eq_ok.mpr ⟨none, rfl, bind_eq_ok.mpr ⟨[], rfl, bind_eq_ok.mpr ⟨_, rfl,
    bind_eq_ok.mpr ⟨_, htoolchain, bind_eq_ok.mpr ⟨_, hmanifest, bind_eq_ok.mpr ⟨none, rfl,
    bind_eq_ok.mpr ⟨[], rfl, ?_⟩⟩⟩⟩⟩⟩⟩⟩⟩⟩
  exact bind_eq_ok.mpr ⟨_, ensure_ok ⟨rfl, rfl, rfl, rfl⟩ _, rfl⟩

end LeanBun.Evidence
