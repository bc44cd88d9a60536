/-
The input of a project and the pair of a provider, read while others change the files.

Both readers read their files in a fixed order, look at what else they need, and read the files
again in the same order. The end of the first pass lies between the two readings of each file,
so all files have their returned contents there. A call is also a call of the readers that are
given the files at each access, so what is known of those holds of it.
-/
import LeanBun.Evidence.Live

set_option autoImplicit false

namespace LeanBun.Evidence

open LeanBun.Lib LeanBun.Core LeanBun.Codec LeanBun.Plan

namespace Live

section Reader

variable (changes : ℕ → List Change)

/-- `read_provider_registry`. -/
def read_provider_registry (root : CanonicalDirectory) (candidate : Str) :
    Evidently StableProviderRegistryFile := do
  let file ← read_stable_text changes root candidate PROVIDER_REGISTRY_MAX_BYTES
  let registry ← decideOn (parse_document decode_provider_registry file.text)
  return ⟨file, registry⟩

/-- `read_provider_override`. -/
def read_provider_override (root : CanonicalDirectory) (candidate : Str) :
    Evidently StableProviderOverrideFile := do
  let file ← read_stable_text changes root candidate PROVIDER_REGISTRY_MAX_BYTES
  let overrides ← decideOn (parse_document decode_provider_override file.text)
  return ⟨file, overrides⟩

/-- `read_project_manifest`. -/
def read_project_manifest (root : CanonicalDirectory) (candidate : Str) :
    Evidently StableProjectManifestFile := do
  let file ← read_stable_text changes root candidate PROVIDER_REGISTRY_MAX_BYTES
  let manifest ← decideOn (parse_document decode_project_manifest file.text)
  return ⟨file, manifest⟩

/-- `canonicalize_contained` and `fs::metadata`, with the texts of the errors. -/
def contained_directory (uninspected foreign : String) (root : CanonicalDirectory)
    (candidate : Str) : Evidently CanonicalPath := do
  let canonical ← canonicalize_contained changes root candidate
  let directory ← look (writers changes) fun files =>
    (files.view.is_dir canonical).mapError fun error =>
      ⟨.EVIDENCE_READ_FAILED, uninspected.toList ++ error⟩
  let _ ← decideOn (ensure (directory = true)
    ⟨.PROJECT_NOT_DIRECTORY, foreign.toList ++ canonical.to_string_lossy⟩)
  return canonical

/-- `read_optional_override`. -/
def read_optional_override (project_root : CanonicalDirectory) :
    Evidently (Option StableProviderOverrideFile) := do
  let present ← look (writers changes) fun files =>
    (files.view.present (join_path project_root OVERRIDE_FILE)).mapError fun error =>
      ⟨.EVIDENCE_READ_FAILED, "project override cannot be inspected: ".toList ++ error⟩
  if present then do
    let overrides ← read_provider_override changes project_root OVERRIDE_FILE
    return some overrides
  else return none

/-- The directories of the path packages, in the order of the manifest. -/
def path_packages (project_root : CanonicalDirectory) :
    List ProjectManifestPackage → Evidently (List ProjectPathPackage)
  | [] => return []
  | package :: packages =>
    match package.source with
    | .Git _ => path_packages project_root packages
    | .Path directory => do
      let canonical ← contained_directory changes "project path package cannot be inspected: "
        "project path package is not a directory: " project_root directory
      let rest ← path_packages project_root packages
      return ⟨package.name, canonical⟩ :: rest

/-- `resolve_path_packages`. -/
def resolve_path_packages (project_root : CanonicalDirectory)
    (manifest : StableProjectManifestFile) : Evidently (List ProjectPathPackage) := do
  let packages ← path_packages changes project_root manifest.manifest.packages
  return sort_by_key ProjectPathPackage.name packages

/-- **`read_project_input`**, access by access. -/
def read_project_input (project_root : CanonicalDirectory)
    (provider : Option StableProviderPair) : Evidently StableProjectInput := do
  let toolchain_file ← read_stable_text changes project_root TOOLCHAIN_FILE TOOLCHAIN_MAX_BYTES
  let toolchain ← decideOn (validate_toolchain toolchain_file.text)
  let manifest ← read_project_manifest changes project_root MANIFEST_FILE
  let overrides ← read_optional_override changes project_root
  let packages ← resolve_path_packages changes project_root manifest
  let classified ← decideOn (classify_input manifest overrides provider)
  let toolchain_after ← read_stable_text changes project_root TOOLCHAIN_FILE TOOLCHAIN_MAX_BYTES
  let manifest_after ← read_project_manifest changes project_root MANIFEST_FILE
  let overrides_after ← read_optional_override changes project_root
  let packages_after ← resolve_path_packages changes project_root manifest_after
  let _ ← decideOn (ensure (toolchain_file.sha256 = toolchain_after.sha256 ∧
      manifest.file.sha256 = manifest_after.file.sha256 ∧
      optional_sha overrides = optional_sha overrides_after ∧ packages = packages_after)
    ⟨.EVIDENCE_CHANGED_DURING_READ, ("project toolchain, manifest, override, or path package " ++
      "changed during input verification").toList⟩)
  return ⟨project_root, classified.1, toolchain_file, toolchain, manifest, overrides, packages,
    classified.2⟩

/-- The directories of the registered packages. -/
def verify_packages (overrides : ProviderOverride) (package_root : CanonicalDirectory) :
    List ProviderRegistryPackage → Evidently (List VerifiedProviderPackage)
  | [] => return []
  | package :: packages => do
    match by_name ProviderOverridePackage.name overrides.packages package.name with
    | none =>
      decideOn (.error (drift ["provider override is missing package: ".toList, package.name]))
    | some override_package =>
      let directory ← contained_directory changes
        "provider package directory cannot be inspected: "
        "provider package path is not a directory: " package_root override_package.directory
      let rest ← verify_packages overrides package_root packages
      return ⟨package.name, package.revision, directory⟩ :: rest

/-- `match_provider_documents`. -/
def match_provider_documents (registry : ProviderRegistry) (overrides : ProviderOverride)
    (package_root : CanonicalDirectory) : Evidently (List VerifiedProviderPackage) := do
  let _ ← decideOn (ensure (registry.version = overrides.version)
    (drift ["provider registry version ".toList, registry.version,
      " differs from override version ".toList, overrides.version]))
  let registry_names := registry.packages.map ProviderRegistryPackage.name
  let override_names := overrides.packages.map ProviderOverridePackage.name
  let _ ← decideOn (ensure (name_set registry_names = name_set override_names)
    (drift ["provider package name sets differ; missing=[".toList,
      difference_text registry_names override_names, "] extra=[".toList,
      difference_text override_names registry_names, "]".toList]))
  verify_packages changes overrides package_root registry.packages

/-- **`read_provider_pair`**, access by access. -/
def read_provider_pair (isolation_root : CanonicalDirectory)
    (registry_candidate override_candidate package_root_candidate : Str) :
    Evidently StableProviderPair := do
  let package_root ← contained_directory changes "contained directory cannot be inspected: "
    "contained path is not a directory: " isolation_root package_root_candidate
  let registry ← read_provider_registry changes isolation_root registry_candidate
  let overrides ← read_provider_override changes isolation_root override_candidate
  let packages ← match_provider_documents changes registry.registry overrides.overrides
    package_root
  let registry_after ← read_provider_registry changes isolation_root registry_candidate
  let overrides_after ← read_provider_override changes isolation_root override_candidate
  let _ ← decideOn (ensure (registry.file.sha256 = registry_after.file.sha256 ∧
      overrides.file.sha256 = overrides_after.file.sha256)
    ⟨.EVIDENCE_CHANGED_DURING_READ,
      "provider registry or override changed during pair verification".toList⟩)
  return ⟨registry, overrides, package_root, packages⟩

end Reader

/-! ## Every program goes forward -/

section Forward

variable {changes : ℕ → List Change}

theorem forward_document {α β : Type} (root : CanonicalDirectory) (candidate : Str)
    (maximum_bytes : ℕ) (parse : Str → EvidenceResult α) (make : StableTextFile → α → β) :
    Forward (do
      let file ← read_stable_text changes root candidate maximum_bytes
      let value ← decideOn (parse file.text)
      return make file value) :=
  .bind (forward_read_stable_text _ _ _) fun _ => .bind (forward_decideOn _) fun _ =>
    forward_pure _

theorem forward_contained_directory (uninspected foreign : String) (root : CanonicalDirectory)
    (candidate : Str) :
    Forward (contained_directory changes uninspected foreign root candidate) :=
  .bind (forward_look _ _) fun _ => .bind (forward_look _ _) fun _ =>
    .bind (forward_decideOn _) fun _ => forward_pure _

theorem forward_read_optional_override (project_root : CanonicalDirectory) :
    Forward (read_optional_override changes project_root) := by
  refine .bind (forward_look _ _) fun present => ?_
  split
  · exact .bind (forward_document _ _ _ _ _) fun _ => forward_pure _
  · exact forward_pure none

theorem forward_path_packages (project_root : CanonicalDirectory)
    (packages : List ProjectManifestPackage) :
    Forward (path_packages changes project_root packages) := by
  induction packages with
  | nil => exact forward_pure []
  | cons package packages ih =>
    unfold path_packages
    split
    · exact ih
    · exact .bind (forward_contained_directory _ _ _ _) fun _ => .bind ih fun _ => forward_pure _

theorem forward_resolve_path_packages (project_root : CanonicalDirectory)
    (manifest : StableProjectManifestFile) :
    Forward (resolve_path_packages changes project_root manifest) :=
  .bind (forward_path_packages _ _) fun _ => forward_pure _

theorem forward_verify_packages (overrides : ProviderOverride) (package_root : CanonicalDirectory)
    (packages : List ProviderRegistryPackage) :
    Forward (verify_packages changes overrides package_root packages) := by
  induction packages with
  | nil => exact forward_pure []
  | cons package packages ih =>
    unfold verify_packages
    split
    · exact forward_decideOn _
    · exact .bind (forward_contained_directory _ _ _ _) fun _ => .bind ih fun _ => forward_pure _

theorem forward_match_provider_documents (registry : ProviderRegistry)
    (overrides : ProviderOverride) (package_root : CanonicalDirectory) :
    Forward (match_provider_documents changes registry overrides package_root) :=
  .bind (forward_decideOn _) fun _ => .bind (forward_decideOn _) fun _ =>
    forward_verify_packages _ _ _

end Forward

/-! ## Snapshots of documents -/

section Snapshots

variable {changes : ℕ → List Change} {t u t' : Timeline Files}

/-- A document is what an undisturbed reader gets at one instant of the call. -/
theorem document_snapshot {α β : Type} {root : CanonicalDirectory} {candidate : Str}
    {maximum_bytes : ℕ} {parse : Str → EvidenceResult α} {make : StableTextFile → α → β} {value : β}
    (h : (do
      let file ← read_stable_text changes root candidate maximum_bytes
      let a ← decideOn (parse file.text)
      return make file a : Evidently β) t = .ok (value, t')) :
    ∃ file a, make file a = value ∧ Sometime t t' fun files =>
      files.content (join_path root candidate) = some (as_bytes file.text) ∧
        (do
          let file ← Evidence.read_stable_text files.view root candidate maximum_bytes
          let a ← parse file.text
          return make file a : EvidenceResult β) = .ok value := by
  obtain ⟨file, t₁, hfile, h⟩ := reading_bind_eq_ok.mp h
  obtain ⟨a, t₂, hparse, h⟩ := reading_bind_eq_ok.mp h
  obtain ⟨hparsed, rfl⟩ := decideOn_eq_ok.mp hparse
  obtain ⟨hvalue, rfl⟩ := reading_pure_eq_ok.mp h
  refine ⟨file, a, hvalue, (read_stable_text_snapshot hfile).mono fun files hfiles => ?_⟩
  refine ⟨hfiles.1, bind_eq_ok.mpr ⟨file, hfiles.2, bind_eq_ok.mpr ⟨a, hparsed, ?_⟩⟩⟩
  rw [hvalue]
  rfl

theorem read_project_manifest_snapshot {root : CanonicalDirectory} {candidate : Str}
    {manifest : StableProjectManifestFile}
    (h : read_project_manifest changes root candidate t = .ok (manifest, t')) :
    Sometime t t' fun files =>
      files.content (join_path root candidate) = some (as_bytes manifest.file.text) ∧
        Evidence.read_project_manifest files.view root candidate = .ok manifest := by
  obtain ⟨_, _, rfl, hsometime⟩ := document_snapshot h
  exact hsometime

theorem read_provider_registry_snapshot {root : CanonicalDirectory} {candidate : Str}
    {registry : StableProviderRegistryFile}
    (h : read_provider_registry changes root candidate t = .ok (registry, t')) :
    Sometime t t' fun files =>
      files.content (join_path root candidate) = some (as_bytes registry.file.text) ∧
        Evidence.read_provider_registry files.view root candidate = .ok registry := by
  obtain ⟨_, _, rfl, hsometime⟩ := document_snapshot h
  exact hsometime

theorem read_provider_override_snapshot {root : CanonicalDirectory} {candidate : Str}
    {overrides : StableProviderOverrideFile}
    (h : read_provider_override changes root candidate t = .ok (overrides, t')) :
    Sometime t t' fun files =>
      files.content (join_path root candidate) = some (as_bytes overrides.file.text) ∧
        Evidence.read_provider_override files.view root candidate = .ok overrides := by
  obtain ⟨_, _, rfl, hsometime⟩ := document_snapshot h
  exact hsometime

/-- What a look at the files says of the path of the override document. -/
theorem present_eq_ok {files : Files} {path : List UInt8} {f : Str → EvidenceError} {present : Bool}
    (h : (files.view.present path).mapError f = .ok present) :
    files.view.present path = .ok present ∧ (present = false → files.content path = none) := by
  unfold Files.view at h ⊢
  dsimp only at h ⊢
  split at h
  · cases h
  · cases h
    refine ⟨rfl, fun hnone => ?_⟩
    simpa [Files.content] using hnone

/-- The contents of the path of the override document. -/
def override_content (overrides : Option StableProviderOverrideFile) : Option (List UInt8) :=
  overrides.map fun overrides => as_bytes overrides.file.text

theorem read_optional_override_snapshot {root : CanonicalDirectory}
    {overrides : Option StableProviderOverrideFile}
    (h : read_optional_override changes root t = .ok (overrides, t')) :
    (Sometime t t' fun files =>
      files.content (join_path root OVERRIDE_FILE) = override_content overrides) ∧
      ∃ inspected read : FileSystem, ∀ files : ProjectMoment → FileSystem,
        files .OverrideInspected = inspected → files .Override = read →
          Evidence.read_optional_override files root = .ok overrides := by
  obtain ⟨present, t₁, hpresent, h⟩ := reading_bind_eq_ok.mp h
  have hstart := forward_look _ _ _ _ _ hpresent
  obtain ⟨hfound, habsent⟩ := present_eq_ok (look_eq_ok hpresent).1
  cases present with
  | true =>
    obtain ⟨document, t₂, hread, h⟩ := reading_bind_eq_ok.mp h
    obtain ⟨rfl, rfl⟩ := reading_pure_eq_ok.mp h
    have hsometime := read_provider_override_snapshot hread
    refine ⟨(hsometime.mono fun _ h => h.1).within hstart (.refl t₂), ?_⟩
    obtain ⟨_, later, -, -, -, -, hlater⟩ := hsometime
    refine ⟨t₁.now.view, later.view, fun files hinspected hoverride => ?_⟩
    unfold Evidence.read_optional_override
    rw [hinspected, hoverride, hfound, hlater]
    rfl
  | false =>
    obtain ⟨rfl, rfl⟩ := reading_pure_eq_ok.mp h
    refine ⟨Sometime.now hstart (habsent rfl), t₁.now.view, t₁.now.view,
      fun files hinspected _ => ?_⟩
    unfold Evidence.read_optional_override
    rw [hinspected, hfound]

end Snapshots

/-! ## All files at one instant -/

/-- The contents of a path never come back once they have changed, and no two contents of it have
one digest. -/
structure Steady (path : List UInt8) (t : Timeline Files) : Prop where
  returns : NeverReturns (fun files => files.content path) t
  apart : ∀ files ∈ t.history, ∀ later ∈ t.history, ∀ bytes bytes',
    files.content path = some bytes → later.content path = some bytes' → NoCollision bytes bytes'

section Instants

variable {changes : ℕ → List Change} {t u t' : Timeline Files}

/-- A file that was read with one digest in both passes has its contents between the two. -/
theorem Steady.between {path bytes bytes' : List UInt8} (hsteady : Steady path t')
    (hut : u.Before t') (hbefore : Sometime t u fun files => files.content path = some bytes)
    (hafter : Sometime u t' fun files => files.content path = some bytes')
    (hdigest : digest bytes = digest bytes') : u.now.content path = some bytes := by
  obtain ⟨_, files, -, -, hfiles, hbytes⟩ := hbefore.within (.refl t) hut
  obtain ⟨_, later, -, -, hlater, hbytes'⟩ := id hafter
  have hsame : bytes = bytes' := hsteady.apart files (List.mem_of_getElem? hfiles) later
    (List.mem_of_getElem? hlater) bytes bytes' hbytes hbytes' hdigest
  exact seen_between hut hsteady.returns hbefore
    (hsame ▸ hafter)

/-- The same for the override document, which may be missing in both passes. -/
theorem Steady.between_optional {path : List UInt8}
    {overrides overrides' : Option StableProviderOverrideFile} (hsteady : Steady path t')
    (hut : u.Before t')
    (hbefore : Sometime t u fun files => files.content path = override_content overrides)
    (hafter : Sometime u t' fun files => files.content path = override_content overrides')
    (hdigest : optional_sha overrides = optional_sha overrides') :
    u.now.content path = override_content overrides := by
  rcases overrides with _ | overrides <;> rcases overrides' with _ | overrides'
  · exact seen_between hut hsteady.returns hbefore hafter
  · cases hdigest
  · cases hdigest
  · exact hsteady.between hut hbefore hafter (Option.some.inj hdigest)

end Instants

/-! ## The readers that are given the files -/

section Refinement

variable {changes : ℕ → List Change} {t t' : Timeline Files}

theorem contained_directory_refines {uninspected foreign : String} {root : CanonicalDirectory}
    {candidate : Str} {canonical : CanonicalPath}
    (h : contained_directory changes uninspected foreign root candidate t = .ok (canonical, t')) :
    ∃ files, Evidence.contained_directory uninspected foreign files root candidate =
      .ok canonical := by
  obtain ⟨found, t₁, hfound, h⟩ := reading_bind_eq_ok.mp h
  obtain ⟨directory, t₂, hdirectory, h⟩ := reading_bind_eq_ok.mp h
  obtain ⟨⟨hdir⟩, _, hchecked, h⟩ := reading_bind_eq_ok.mp h
  obtain ⟨rfl, -⟩ := reading_pure_eq_ok.mp h
  -- The path is resolved at one instant and looked at, at another.
  refine ⟨{ t₁.now.view with is_dir := t₂.now.view.is_dir }, ?_⟩
  exact bind_eq_ok.mpr ⟨found, (look_eq_ok hfound).1, bind_eq_ok.mpr ⟨directory,
    (look_eq_ok hdirectory).1, bind_eq_ok.mpr ⟨_, (decideOn_eq_ok.mp hchecked).1, rfl⟩⟩⟩

/-- The files at the accesses of a suffix of the packages are the only ones that count. -/
theorem path_packages_congr {files files' : ℕ → FileSystem} {project_root : CanonicalDirectory}
    {index : ℕ} {packages : List ProjectManifestPackage}
    (h : ∀ n, index ≤ n → files n = files' n) :
    Evidence.path_packages files project_root index packages =
      Evidence.path_packages files' project_root index packages := by
  induction packages generalizing index with
  | nil => rfl
  | cons package packages ih =>
    unfold Evidence.path_packages
    rw [ih h, ih fun n hn => h n (Nat.le_of_succ_le hn), h index (le_refl index)]

theorem path_packages_refines {project_root : CanonicalDirectory}
    {packages : List ProjectManifestPackage} {resolved : List ProjectPathPackage}
    (h : path_packages changes project_root packages t = .ok (resolved, t')) (index : ℕ) :
    ∃ files, Evidence.path_packages files project_root index packages = .ok resolved := by
  induction packages generalizing t t' resolved index with
  | nil =>
    obtain ⟨rfl, -⟩ := reading_pure_eq_ok.mp h
    exact ⟨fun _ => t.now.view, rfl⟩
  | cons package packages ih =>
    rcases package with ⟨name, revision | directory⟩
    · exact ih h index
    · obtain ⟨canonical, t₁, hdirectory, h⟩ := reading_bind_eq_ok.mp h
      obtain ⟨rest, t₂, hrest, h⟩ := reading_bind_eq_ok.mp h
      obtain ⟨rfl, -⟩ := reading_pure_eq_ok.mp h
      obtain ⟨now, hnow⟩ := contained_directory_refines hdirectory
      obtain ⟨files, hfiles⟩ := ih hrest (index + 1)
      refine ⟨Function.update files index now, bind_eq_ok.mpr ⟨canonical, ?_,
        bind_eq_ok.mpr ⟨rest, ?_, rfl⟩⟩⟩
      · rw [Function.update_self]
        exact hnow
      · rw [path_packages_congr fun n hn => Function.update_of_ne (by omega) now files]
        exact hfiles

theorem resolve_path_packages_refines {project_root : CanonicalDirectory}
    {manifest : StableProjectManifestFile} {resolved : List ProjectPathPackage}
    (h : resolve_path_packages changes project_root manifest t = .ok (resolved, t')) :
    ∃ files, Evidence.resolve_path_packages files project_root manifest = .ok resolved := by
  obtain ⟨packages, t₁, hpackages, h⟩ := reading_bind_eq_ok.mp h
  obtain ⟨rfl, -⟩ := reading_pure_eq_ok.mp h
  obtain ⟨files, hfiles⟩ := path_packages_refines hpackages 0
  refine ⟨files, ?_⟩
  unfold Evidence.resolve_path_packages
  rw [hfiles]
  rfl

/-- One pass over the files of a project. -/
theorem pass_refines {project_root : CanonicalDirectory} {toolchain_file : StableTextFile}
    {manifest : StableProjectManifestFile} {overrides : Option StableProviderOverrideFile}
    {packages : List ProjectPathPackage} {t t₁ t₁' t₂ t₃ t₄ : Timeline Files}
    (htoolchain : read_stable_text changes project_root TOOLCHAIN_FILE TOOLCHAIN_MAX_BYTES t =
      .ok (toolchain_file, t₁))
    (hmanifest : read_project_manifest changes project_root MANIFEST_FILE t₁' = .ok (manifest, t₂))
    (hoverrides : read_optional_override changes project_root t₂ = .ok (overrides, t₃))
    (hpackages : resolve_path_packages changes project_root manifest t₃ = .ok (packages, t₄)) :
    ∃ files : ProjectMoment → FileSystem,
      Evidence.read_stable_text (files .Toolchain) project_root TOOLCHAIN_FILE
        TOOLCHAIN_MAX_BYTES = .ok toolchain_file ∧
      Evidence.read_project_manifest (files .Manifest) project_root MANIFEST_FILE = .ok manifest ∧
      Evidence.read_optional_override files project_root = .ok overrides ∧
      Evidence.resolve_path_packages (fun index => files (.Package index)) project_root manifest =
        .ok packages := by
  obtain ⟨_, at_toolchain, -, -, -, -, htoolchain⟩ := read_stable_text_snapshot htoolchain
  obtain ⟨_, at_manifest, -, -, -, -, hmanifest⟩ := read_project_manifest_snapshot hmanifest
  obtain ⟨-, inspected, at_override, hoverrides⟩ := read_optional_override_snapshot hoverrides
  obtain ⟨at_package, hpackages⟩ := resolve_path_packages_refines hpackages
  let files : ProjectMoment → FileSystem
    | .Toolchain => at_toolchain.view
    | .Manifest => at_manifest.view
    | .OverrideInspected => inspected
    | .Override => at_override
    | .Package index => at_package index
  exact ⟨files, htoolchain, hmanifest, hoverrides files rfl rfl, hpackages⟩

/-- **The input is one that can be read.** What is returned while others change the files is
returned when the files are given at each access, so it has everything that such an input has. -/
theorem read_project_input_refines {project_root : CanonicalDirectory}
    {provider : Option StableProviderPair} {input : StableProjectInput}
    (h : read_project_input changes project_root provider t = .ok (input, t')) :
    ∃ before after, Evidence.read_project_input before after project_root provider = .ok input := by
  obtain ⟨toolchain_file, t₁, htoolchain, h⟩ := reading_bind_eq_ok.mp h
  obtain ⟨toolchain, _, hvalid, h⟩ := reading_bind_eq_ok.mp h
  obtain ⟨manifest, t₂, hmanifest, h⟩ := reading_bind_eq_ok.mp h
  obtain ⟨overrides, t₃, hoverrides, h⟩ := reading_bind_eq_ok.mp h
  obtain ⟨packages, t₄, hpackages, h⟩ := reading_bind_eq_ok.mp h
  obtain ⟨classified, _, hclassified, h⟩ := reading_bind_eq_ok.mp h
  obtain ⟨toolchain_after, t₅, htoolchain', h⟩ := reading_bind_eq_ok.mp h
  obtain ⟨manifest_after, t₆, hmanifest', h⟩ := reading_bind_eq_ok.mp h
  obtain ⟨overrides_after, t₇, hoverrides', h⟩ := reading_bind_eq_ok.mp h
  obtain ⟨packages_after, t₈, hpackages', h⟩ := reading_bind_eq_ok.mp h
  obtain ⟨hsame, _, hchecked, h⟩ := reading_bind_eq_ok.mp h
  obtain ⟨rfl, -⟩ := reading_pure_eq_ok.mp h
  obtain ⟨before, hread₁, hread₂, hread₃, hread₄⟩ :=
    pass_refines htoolchain hmanifest hoverrides hpackages
  obtain ⟨after, hread₅, hread₆, hread₇, hread₈⟩ :=
    pass_refines htoolchain' hmanifest' hoverrides' hpackages'
  exact ⟨before, after, bind_eq_ok.mpr ⟨_, hread₁,
    bind_eq_ok.mpr ⟨_, (decideOn_eq_ok.mp hvalid).1, bind_eq_ok.mpr ⟨_, hread₂,
    bind_eq_ok.mpr ⟨_, hread₃, bind_eq_ok.mpr ⟨_, hread₄,
    bind_eq_ok.mpr ⟨_, (decideOn_eq_ok.mp hclassified).1, bind_eq_ok.mpr ⟨_, hread₅,
    bind_eq_ok.mpr ⟨_, hread₆, bind_eq_ok.mpr ⟨_, hread₇, bind_eq_ok.mpr ⟨_, hread₈,
    bind_eq_ok.mpr ⟨_, (decideOn_eq_ok.mp hchecked).1, rfl⟩⟩⟩⟩⟩⟩⟩⟩⟩⟩⟩⟩

end Refinement

/-! ## A project and a provider that nobody changes -/

/-- Where the paths of the sample lead to. -/
def sample_entry (path : List UInt8) : Option FileId :=
  ([("/p/lean-toolchain", ⟨1, 1⟩), ("/p/lake-manifest.json", ⟨1, 2⟩), ("/v/r", ⟨1, 3⟩),
    ("/v/o", ⟨1, 4⟩), ("/v/d", ⟨1, 5⟩)] : List (String × FileId)).find?
      (fun entry => decide (as_bytes entry.1.toList = path)) |>.map Prod.snd

/-- A directory, and files with the texts of the sample. -/
def sample_node (id : FileId) : Node :=
  if id = ⟨1, 5⟩ then ⟨0o040755, toLex (0, 0), toLex (0, 0), []⟩
  else ⟨0o100644, toLex (0, 0), toLex (0, 0), as_bytes (
    if id = ⟨1, 1⟩ then "v4\n".toList else if id = ⟨1, 2⟩ then sample_manifest_text
    else if id = ⟨1, 3⟩ then sample_registry_text else sample_overrides_text)⟩

/-- A project with a toolchain and a manifest, and a provider of no packages. -/
def sample_files : Files where
  canonicalize path :=
    if h : path.head? = some 0x2f then .ok ⟨path, h⟩ else .error "not absolute".toList
  entry := sample_entry
  target := sample_entry
  node := sample_node
  held := none
  granted := 0
  fault := none

/-- The files of the sample, now and at every instant. -/
structure Settled (t : Timeline Files) : Prop where
  now : t.now = sample_files
  history : ∀ files ∈ t.history, ∀ path, files.content path = sample_files.content path

theorem Settled.steady {t : Timeline Files} (h : Settled t) (path : List UInt8) :
    Steady path t := by
  refine ⟨fun i j k files later latest _ _ hi hj _ _ => ?_,
    fun files hfiles later hlater bytes bytes' hbytes hbytes' _ => ?_⟩
  · change later.content path = files.content path
    rw [h.history _ (List.mem_of_getElem? hi), h.history _ (List.mem_of_getElem? hj)]
  · rw [h.history _ hfiles] at hbytes
    rw [h.history _ hlater, hbytes] at hbytes'
    exact Option.some.inj hbytes'

theorem sample_text_read {t : Timeline Files} (h : Settled t) (root : CanonicalDirectory)
    (candidate : Str) (maximum_bytes : ℕ) (id : FileId) (source : CanonicalPath)
    (file : StableTextFile)
    (hmaximum : maximum_bytes ≤ MAX_STABLE_TEXT_BYTES)
    (hentry : sample_entry (join_path root candidate) = some id)
    (hsource : Evidence.canonicalize_contained sample_files.view root candidate =
      .ok source) (htarget : sample_entry source.bytes = some id)
    (hfile : (sample_files.node id).is_file = true)
    (hlength : (sample_files.node id).bytes.length ≤ maximum_bytes)
    (htext : utf8_text (sample_files.node id).bytes = .ok file) :
    ∃ t', read_stable_text (fun _ => []) root candidate maximum_bytes t = .ok (file, t') ∧
      Settled t' := by
  obtain ⟨accesses, past, now⟩ := t
  obtain ⟨rfl, hhistory⟩ := h
  obtain ⟨t', hread, hnow, hhistory'⟩ := undisturbed_read (t := ⟨accesses, past, sample_files⟩)
    (fun _ => rfl) rfl rfl hmaximum hentry hsource htarget
    hfile hlength htext
  refine ⟨t', hread, hnow, fun files hfiles path => ?_⟩
  rw [hhistory', List.mem_append] at hfiles
  rcases hfiles with hfiles | hfiles
  · exact hhistory files hfiles path
  · simp only [List.mem_cons, List.not_mem_nil, or_false] at hfiles
    rcases hfiles with rfl | rfl <;> rfl

def sample_start : Timeline Files := ⟨0, [], sample_files⟩

theorem sample_start_settled : Settled sample_start := by
  refine ⟨rfl, fun files hfiles path => ?_⟩
  rw [List.mem_singleton.mp (show files ∈ [sample_files] from hfiles)]

theorem sample_look {α : Type} {f : Files → EvidenceResult α} {a : α} {t : Timeline Files}
    (h : Settled t) (hf : f sample_files = .ok a) :
    ∃ t', look (writers fun _ => []) f t = .ok (a, t') ∧ Settled t' := by
  obtain ⟨accesses, past, now⟩ := t
  obtain ⟨rfl, hhistory⟩ := h
  exact ⟨_, look_still (fun _ => rfl) hf, rfl, hhistory⟩

theorem sample_pass {t : Timeline Files} (h : Settled t) :
    ∃ t₁ t₂ t₃, read_stable_text (fun _ => []) sample_root TOOLCHAIN_FILE TOOLCHAIN_MAX_BYTES t =
        .ok (⟨"v4\n".toList⟩, t₁) ∧
      read_project_manifest (fun _ => []) sample_root MANIFEST_FILE t₁ = .ok (sample_manifest, t₂) ∧
      read_optional_override (fun _ => []) sample_root t₂ = .ok (none, t₃) ∧ Settled t₃ := by
  obtain ⟨t₁, htoolchain, h₁⟩ := sample_text_read h sample_root TOOLCHAIN_FILE
    TOOLCHAIN_MAX_BYTES ⟨1, 1⟩
    ⟨as_bytes "/p/lean-toolchain".toList, by decide⟩ ⟨"v4\n".toList⟩ (by decide)
    (by decide) (ok_of_toOption (by decide)) (by decide)
    (by decide) (by decide) (ok_of_toOption (by decide))
  obtain ⟨t₂, hmanifest, h₂⟩ := sample_text_read h₁ sample_root MANIFEST_FILE
    PROVIDER_REGISTRY_MAX_BYTES ⟨1, 2⟩
    ⟨as_bytes "/p/lake-manifest.json".toList, by decide⟩ ⟨sample_manifest_text⟩ (by decide)
    (by decide) (ok_of_toOption (by decide)) (by decide)
    (by decide) (by decide +kernel) (ok_of_toOption (by decide +kernel))
  have hparse : parse_document decode_project_manifest sample_manifest_text =
      .ok sample_manifest.manifest := ok_of_toOption (by decide +kernel)
  obtain ⟨t₃, habsent, h₃⟩ := sample_look h₂ (a := false) (f := fun files =>
    (files.view.present (join_path sample_root OVERRIDE_FILE)).mapError fun error =>
      ⟨.EVIDENCE_READ_FAILED, "project override cannot be inspected: ".toList ++ error⟩)
    (ok_of_toOption (by decide))
  exact ⟨t₁, t₂, t₃, htoolchain, reading_bind_eq_ok.mpr ⟨_, _, hmanifest, reading_bind_eq_ok.mpr
    ⟨_, _, decideOn_eq_ok.mpr ⟨hparse, rfl⟩, rfl⟩⟩,
    reading_bind_eq_ok.mpr ⟨false, _, habsent, rfl⟩, h₃⟩

theorem sample_documents {t : Timeline Files} (h : Settled t) :
    ∃ t₁ t₂, read_provider_registry (fun _ => []) sample_isolation_root "r".toList t =
        .ok (sample_provider_pair.registry, t₁) ∧
      read_provider_override (fun _ => []) sample_isolation_root "o".toList t₁ =
        .ok (sample_provider_pair.overrides, t₂) ∧ Settled t₂ := by
  obtain ⟨t₁, hregistry, h₁⟩ := sample_text_read h sample_isolation_root "r".toList
    PROVIDER_REGISTRY_MAX_BYTES ⟨1, 3⟩ ⟨as_bytes "/v/r".toList, by decide⟩ ⟨sample_registry_text⟩
    (by decide) (by decide) (ok_of_toOption (by decide)) (by decide)
    (by decide) (by decide) (ok_of_toOption (by decide))
  obtain ⟨t₂, hoverrides, h₂⟩ := sample_text_read h₁ sample_isolation_root "o".toList
    PROVIDER_REGISTRY_MAX_BYTES ⟨1, 4⟩ ⟨as_bytes "/v/o".toList, by decide⟩
    ⟨sample_overrides_text⟩ (by decide) (by decide) (ok_of_toOption (by decide))
    (by decide) (by decide) (by decide)
    (ok_of_toOption (by decide))
  have hparse : parse_document decode_provider_registry sample_registry_text =
      .ok sample_provider_pair.registry.registry := ok_of_toOption (by decide +kernel)
  have hparse' : parse_document decode_provider_override sample_overrides_text =
      .ok sample_provider_pair.overrides.overrides := ok_of_toOption (by decide +kernel)
  exact ⟨t₁, t₂,
    reading_bind_eq_ok.mpr ⟨_, _, hregistry, reading_bind_eq_ok.mpr ⟨_, _,
      decideOn_eq_ok.mpr ⟨hparse, rfl⟩, rfl⟩⟩,
    reading_bind_eq_ok.mpr ⟨_, _, hoverrides, reading_bind_eq_ok.mpr ⟨_, _,
      decideOn_eq_ok.mpr ⟨hparse', rfl⟩, rfl⟩⟩, h₂⟩

/-- The directory of the packages of the sample. -/
def sample_directory : CanonicalDirectory := ⟨as_bytes "/v/d".toList, by decide⟩

end Live

end LeanBun.Evidence
