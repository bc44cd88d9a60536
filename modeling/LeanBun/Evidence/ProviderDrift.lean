/-
The drift report of a project against the comparison with its provider.

The inventory joins the manifest, the overrides, the provider and the observed checkouts by
name, and classifies each package on its own. A package the provider does not register has
nothing that it is held against, which the comparison of the documents reports.
-/
import LeanBun.Evidence.ProjectInput

set_option autoImplicit false

namespace LeanBun.Evidence

open LeanBun.Lib LeanBun.Core LeanBun.Codec LeanBun.Plan

def MAX_INVENTORY_PACKAGES : ℕ := 4096

/-! ## The inventory of a project -/

/-- `PackageCheckoutObservationV1`. -/
structure PackageCheckoutObservationV1 where
  name : Str
  state : CheckoutObservationStateV1
deriving DecidableEq

/-- The codes that an inventory reports. -/
inductive InventoryCode where
  | GIT_EVIDENCE_FAILED
  | BUILD_INSPECTION_FAILED
deriving DecidableEq

/-- `PackageInventoryError`. -/
structure PackageInventoryError where
  code : InventoryCode
  message : Str
deriving DecidableEq

abbrev InventoryResult (α : Type) := Except PackageInventoryError α

/-- `GitRevision::parse`. -/
def parse_revision (value : Str) : InventoryResult GitRevision :=
  if h : valid_revision value = true then .ok ⟨value, h⟩
  else .error ⟨.GIT_EVIDENCE_FAILED,
    "Git revision must be 40 lowercase hexadecimal bytes".toList⟩

/-- `declared_source`. -/
def declared_source : ProjectPackageSource → InventoryResult DeclaredPackageSourceV1
  | .Git revision => (parse_revision revision).map .Git
  | .Path directory => .ok (.Path directory)

/-- The loop over the observations, with the names that have been seen. -/
def check_observations (names : List Str) :
    List Str → List PackageCheckoutObservationV1 → InventoryResult Unit
  | _, [] => .ok ()
  | seen, observation :: observations => do
    let _ ← ensure (observation.name ∈ names) ⟨.BUILD_INSPECTION_FAILED,
      "checkout observation is outside declared/provider inventory: ".toList ++ observation.name⟩
    let _ ← ensure (observation.name ∉ seen) ⟨.BUILD_INSPECTION_FAILED,
      "duplicate checkout observation: ".toList ++ observation.name⟩
    check_observations names (observation.name :: seen) observations

/-- The entries of the project's own override document. -/
def project_overrides (project : StableProjectInput) : List ProviderOverridePackage :=
  match project.overrides with
  | some document => document.overrides.packages
  | none => []

/-- The packages of the provider, if there is one. -/
def provider_packages (provider : Option StableProviderPair) : List VerifiedProviderPackage :=
  match provider with
  | some pair => pair.packages
  | none => []

/-- The names of an inventory. -/
def inventory_names (project : StableProjectInput) (provider : Option StableProviderPair) :
    List Str :=
  name_set (project.manifest.manifest.packages.map ProjectManifestPackage.name ++
    (project_overrides project).map ProviderOverridePackage.name ++
    (provider_packages provider).map VerifiedProviderPackage.name)

/-- What the provider registers for a name. -/
def registration (package : VerifiedProviderPackage) :
    InventoryResult ProviderPackageRegistrationV1 := do
  let revision ← parse_revision package.revision
  return ⟨revision, package.directory⟩

/-- `Option::transpose` after `map`. -/
def optional_result {α β : Type} (f : α → InventoryResult β) :
    Option α → InventoryResult (Option β)
  | some a => (f a).map some
  | none => .ok none

/-- The entry of one name. -/
def inventory_entry (project : StableProjectInput) (provider : Option StableProviderPair)
    (observations : List PackageCheckoutObservationV1) (name : Str) :
    InventoryResult PackageInventoryEntryV1 := do
  let declaration ← optional_result (fun package => declared_source package.source)
    (by_name ProjectManifestPackage.name project.manifest.manifest.packages name)
  let registered ← optional_result registration
    (by_name VerifiedProviderPackage.name (provider_packages provider) name)
  return {
    name := name
    declaration := declaration
    project_override_directory :=
      (by_name ProviderOverridePackage.name (project_overrides project) name).map
        ProviderOverridePackage.directory
    resolved_path_directory := (by_name ProjectPathPackage.name project.path_packages name).map
      ProjectPathPackage.directory
    provider := registered
    checkout := ((by_name PackageCheckoutObservationV1.name observations name).map
      PackageCheckoutObservationV1.state).getD .Unobserved }

/-- `build_package_inventory`. -/
def build_package_inventory (project : StableProjectInput) (provider : Option StableProviderPair)
    (checkout_observations : List PackageCheckoutObservationV1) :
    InventoryResult PackageInventoryV1 := do
  let names := inventory_names project provider
  let _ ← ensure (names.length ≤ MAX_INVENTORY_PACKAGES)
    ⟨.BUILD_INSPECTION_FAILED, "package inventory exceeds package limit".toList⟩
  check_observations names [] checkout_observations
  let packages ← names.mapM (inventory_entry project provider checkout_observations)
  let project_path := project.project_root.to_string_lossy
  return {
    schema_version := 1
    project_id := project_id project_path
    project_path := project_path
    toolchain := project.toolchain
    manifest_sha256 := project.manifest.file.sha256
    override_sha256 := optional_sha project.overrides
    provider_registry_sha256 := provider.map fun pair => pair.registry.file.sha256
    provider_override_sha256 := provider.map fun pair => pair.overrides.file.sha256
    packages := packages }

/-! ## The entries -/

/-- What an entry of the inventory of a project and its provider says. -/
structure EntryOf (project : StableProjectInput) (pair : StableProviderPair) (name : Str)
    (entry : PackageInventoryEntryV1) : Prop where
  named : entry.name = name
  declaration : match entry.declaration with
    | some (.Git revision) => ∃ package ∈ project.manifest.manifest.packages,
        package.name = name ∧ package.source = .Git revision.as_str
    | some (.Path directory) => ∃ package ∈ project.manifest.manifest.packages,
        package.name = name ∧ package.source = .Path directory
    | none => name ∉ project.manifest.manifest.packages.map ProjectManifestPackage.name
  override_directory : match entry.project_override_directory with
    | some directory => ⟨name, directory⟩ ∈ project_overrides project
    | none => name ∉ (project_overrides project).map ProviderOverridePackage.name
  provider : match entry.provider with
    | some registered => ⟨name, registered.revision.as_str, registered.directory⟩ ∈ pair.packages
    | none => name ∉ pair.packages.map VerifiedProviderPackage.name

theorem parse_revision_eq_ok {value : Str} {revision : GitRevision}
    (h : parse_revision value = .ok revision) : revision.as_str = value := by
  unfold parse_revision at h
  split at h
  · cases h
    rfl
  · cases h

theorem inventory_entry_eq_ok {project : StableProjectInput} {pair : StableProviderPair}
    {observations : List PackageCheckoutObservationV1} {name : Str}
    {entry : PackageInventoryEntryV1}
    (h : inventory_entry project (some pair) observations name = .ok entry) :
    EntryOf project pair name entry := by
  obtain ⟨declaration, hdeclaration, h⟩ := bind_eq_ok.mp h
  obtain ⟨registered, hregistered, h⟩ := bind_eq_ok.mp h
  cases h
  refine ⟨rfl, ?_, ?_, ?_⟩
  · dsimp only
    rcases hfind : by_name ProjectManifestPackage.name project.manifest.manifest.packages name with
      _ | package
    · rw [hfind] at hdeclaration
      cases hdeclaration
      exact by_name_eq_none.mp hfind
    · rw [hfind] at hdeclaration
      obtain ⟨hmem, hname⟩ := by_name_eq_some hfind
      obtain ⟨declared, hsource, rfl⟩ := map_eq_ok hdeclaration
      dsimp only at hsource
      rcases hcase : package.source with revision | directory
      · rw [hcase] at hsource
        obtain ⟨parsed, hparsed, rfl⟩ := map_eq_ok hsource
        exact ⟨package, hmem, hname, by rw [hcase, parse_revision_eq_ok hparsed]⟩
      · rw [hcase] at hsource
        cases hsource
        exact ⟨package, hmem, hname, hcase⟩
  · dsimp only
    rcases hfind : by_name ProviderOverridePackage.name (project_overrides project) name with
      _ | package
    · exact by_name_eq_none.mp hfind
    · obtain ⟨hmem, rfl⟩ := by_name_eq_some hfind
      exact hmem
  · dsimp only
    rcases hfind : by_name VerifiedProviderPackage.name (provider_packages (some pair)) name with
      _ | package
    · rw [hfind] at hregistered
      cases hregistered
      exact by_name_eq_none.mp hfind
    · rw [hfind] at hregistered
      obtain ⟨hmem, rfl⟩ := by_name_eq_some hfind
      obtain ⟨found, hfound, rfl⟩ := map_eq_ok hregistered
      obtain ⟨revision, hrevision, hfound⟩ := bind_eq_ok.mp hfound
      cases hfound
      dsimp only
      rw [parse_revision_eq_ok hrevision]
      exact hmem

/-- The packages of an inventory are the entries of its names. -/
theorem inventory_packages {project : StableProjectInput} {pair : StableProviderPair}
    {observations : List PackageCheckoutObservationV1} {inventory : PackageInventoryV1}
    (h : build_package_inventory project (some pair) observations = .ok inventory) :
    List.Forall₂ (EntryOf project pair) (inventory_names project (some pair))
      inventory.packages := by
  obtain ⟨_, -, h⟩ := bind_eq_ok.mp h
  obtain ⟨_, -, h⟩ := bind_eq_ok.mp h
  obtain ⟨packages, hpackages, h⟩ := bind_eq_ok.mp h
  cases h
  exact (mapM_eq_ok_iff.mp hpackages).imp fun _ _ => inventory_entry_eq_ok

/-! ## The classification -/

/-- What is found of a package before anything is said to match. -/
def drift_findings (package : PackageInventoryEntryV1) : List DependencyDriftFindingV1 :=
  declaration_findings package ++ override_findings package ++ checkout_findings package

theorem drift_findings_kind {package : PackageInventoryEntryV1} {finding : DependencyDriftFindingV1}
    (h : finding ∈ drift_findings package) : finding.kind ≠ .Matched := by
  unfold drift_findings at h
  rw [List.mem_append, List.mem_append] at h
  rcases h with (h | h) | h
  · unfold declaration_findings at h
    split at h <;> (try split at h) <;> simp_all [Plan.finding]
  · unfold override_findings at h
    split at h <;> (try split at h) <;> simp_all [Plan.finding]
  · unfold checkout_findings at h
    split at h
    · simp_all [Plan.finding]
    · simp_all [Plan.finding]
    · rw [List.mem_append] at h
      rcases h with h | h
      · split at h <;> (try split at h) <;> simp_all [Plan.finding]
      · split at h
        · unfold revision_findings at h
          rw [List.mem_append] at h
          rcases h with h | h <;> (split at h <;> (try split at h) <;> simp_all [Plan.finding])
        · simp_all

/-- A package has the finding that it matches exactly when there is nothing else. -/
theorem classify_package_matched {package : PackageInventoryEntryV1} :
    (∃ finding ∈ classify_package package, finding.kind = .Matched) ↔
      drift_findings package = [] := by
  unfold classify_package
  dsimp only
  rw [← drift_findings]
  by_cases h : drift_findings package = []
  · rw [if_pos h]
    refine iff_of_true ⟨_, (mem_sort_by_key _).mpr List.mem_cons_self, rfl⟩ h
  · rw [if_neg h]
    refine iff_of_false ?_ h
    rintro ⟨finding, hmem, hkind⟩
    exact drift_findings_kind ((mem_sort_by_key _).mp hmem) hkind

theorem classify_package_of_empty {package : PackageInventoryEntryV1}
    (h : drift_findings package = []) {finding : DependencyDriftFindingV1}
    (hfinding : finding ∈ classify_package package) : finding.kind = .Matched := by
  unfold classify_package at hfinding
  dsimp only at hfinding
  rw [← drift_findings, if_pos h, mem_sort_by_key, List.mem_singleton] at hfinding
  rw [hfinding]
  rfl

theorem classify_package_of_nonempty {package : PackageInventoryEntryV1}
    (h : drift_findings package ≠ []) :
    ∃ finding ∈ classify_package package, finding.kind ≠ .Matched := by
  obtain ⟨finding, hfinding⟩ := List.exists_mem_of_ne_nil _ h
  refine ⟨finding, ?_, drift_findings_kind hfinding⟩
  unfold classify_package
  dsimp only
  rw [← drift_findings, if_neg h]
  exact (mem_sort_by_key _).mpr hfinding

/-- **The summary matches** when nothing is found of any package. -/
theorem summary_matched_iff {inventory : PackageInventoryV1} :
    (report_dependency_drift inventory).summary = .Matched ↔
      ∀ package ∈ inventory.packages, drift_findings package = [] := by
  have hempty (package : PackageInventoryEntryV1) : drift_findings package = [] ↔
      ∀ finding ∈ classify_package package, finding.kind = .Matched := by
    refine ⟨fun h finding => classify_package_of_empty h, fun h => ?_⟩
    by_contra hne
    obtain ⟨finding, hfinding, hkind⟩ := classify_package_of_nonempty hne
    exact hkind (h finding hfinding)
  simp only [hempty]
  unfold report_dependency_drift
  simp only [List.any_map, Function.comp_def]
  constructor
  · intro h package hpackage finding hfinding
    by_contra hkind
    split at h
    · cases h
    · rename_i hdrift
      split at h
      · cases h
      · rename_i hunobserved
        rw [Bool.not_eq_true, List.any_eq_false] at hdrift hunobserved
        have hdrift := hdrift package hpackage
        have hunobserved := hunobserved package hpackage
        rw [Bool.not_eq_true, List.any_eq_false] at hdrift hunobserved
        have hdrift := hdrift finding hfinding
        have hunobserved := hunobserved finding hfinding
        simp_all
  · intro h
    rw [if_neg, if_neg]
    · rw [Bool.not_eq_true, List.any_eq_false]
      intro package hpackage
      rw [Bool.not_eq_true, List.any_eq_false]
      intro finding hfinding
      rw [h package hpackage finding hfinding]
      decide
    · rw [Bool.not_eq_true, List.any_eq_false]
      intro package hpackage
      rw [Bool.not_eq_true, List.any_eq_false]
      intro finding hfinding
      rw [h package hpackage finding hfinding]
      decide

/-- **An observation as it is expected**: the package is there, in its expected directory at its
expected revision, and not dirty. -/
def ObservedAsExpected (package : PackageInventoryEntryV1) : Prop :=
  ∃ directory revision, package.checkout = .Present directory revision (some false) ∧
    (∀ expected, expected_directory package = some expected →
      directory.to_string_lossy = expected) ∧
    ∀ expected, expected_revision package = some expected → revision = some expected

theorem checkout_findings_of_observed {package : PackageInventoryEntryV1}
    (h : ObservedAsExpected package) : checkout_findings package = [] := by
  obtain ⟨directory, revision, hcheckout, hdirectory, hrevision⟩ := h
  unfold checkout_findings
  rw [hcheckout]
  dsimp only
  rw [List.append_eq_nil_iff]
  constructor
  · split
    · rename_i expected hexpected
      exact if_neg (not_not.mpr (hdirectory expected hexpected))
    · rfl
  · split
    · rename_i expected hexpected
      rw [hrevision expected hexpected]
      unfold revision_findings
      rw [List.append_nil]
      exact if_neg (not_not.mpr rfl)
    · rfl

/-- A package that is observed as expected drifts only from its declaration and its override. -/
theorem drift_findings_of_observed {package : PackageInventoryEntryV1}
    (h : ObservedAsExpected package) :
    drift_findings package = [] ↔
      declaration_findings package = [] ∧ override_findings package = [] := by
  unfold drift_findings
  rw [checkout_findings_of_observed h, List.append_nil, List.append_eq_nil_iff]

/-! ## The two comparisons -/

section Comparison

variable {project : StableProjectInput} {pair : StableProviderPair}

/-- What the project overrides a registered package with, as its checkout resolves. -/
def resolved_override (package : VerifiedProviderPackage) : ProviderOverridePackage :=
  ⟨package.name, package.directory.to_string_lossy⟩

/-- **The registered packages match**: each is declared as a Git package at its registered
revision and overridden with the directory it was resolved to. -/
def RegisteredMatch (project : StableProjectInput) (pair : StableProviderPair) : Prop :=
  ∀ package ∈ pair.packages,
    DeclaredAsRegistered project.manifest.manifest package.registered ∧
      resolved_override package ∈ project_overrides project

/-- Every package that the project declares or overrides is registered. -/
def EveryNameRegistered (project : StableProjectInput) (pair : StableProviderPair) : Prop :=
  ∀ name, name ∈ project.manifest.manifest.packages.map ProjectManifestPackage.name ∨
      name ∈ (project_overrides project).map ProviderOverridePackage.name →
    name ∈ pair.packages.map VerifiedProviderPackage.name

/-- The override document of the provider names each package by its resolved directory. -/
def ResolvedNamed (pair : StableProviderPair) : Prop :=
  ∀ package ∈ pair.packages, resolved_override package ∈ pair.overrides.overrides.packages

/-- No package differs in the comparison of the documents. -/
def NoPackageMismatch (project : StableProjectInput) (pair : StableProviderPair) : Prop :=
  ∀ mismatch ∈ (compare_project_manifest_to_provider project.manifest.manifest
      pair.registry.registry).mismatches,
    mismatch.field = "version".toList ∨ mismatch.field = "packagesDir".toList

/-- The entries of the project's override document are the provider's. -/
def SameOverrides (project : StableProjectInput) (pair : StableProviderPair) : Prop :=
  ∀ entry, entry ∈ project_overrides project ↔ entry ∈ pair.overrides.overrides.packages

/-- **The report agrees with the documents**: a summary that matches is one of documents that
match, and a package that the provider does not register is never reported as matched. -/
def ReportAgrees (project : StableProjectInput) (pair : StableProviderPair)
    (report : DependencyDriftReportV1) : Prop :=
  (report.summary = .Matched → NoPackageMismatch project pair ∧ SameOverrides project pair) ∧
    ∀ package ∈ report.packages,
      package.name ∈ project.manifest.manifest.packages.map ProjectManifestPackage.name ∨
        package.name ∈ (project_overrides project).map ProviderOverridePackage.name →
      package.name ∉ pair.packages.map VerifiedProviderPackage.name →
      ∀ finding ∈ package.findings, finding.kind ≠ .Matched

theorem same_registered_name {a b : VerifiedProviderPackage} (hpair : pair.Read)
    (ha : a ∈ pair.packages) (hb : b ∈ pair.packages) (h : a.name = b.name) : a = b :=
  List.inj_on_of_nodup_map hpair.nodup ha hb h

/-- What is found of an entry, apart from its checkout. -/
theorem entry_findings_eq_nil (hproject : project.manifest.manifest.Read)
    (hoverrides : ((project_overrides project).map ProviderOverridePackage.name).Nodup)
    (hpair : pair.Read) {name : Str} {entry : PackageInventoryEntryV1}
    (h : EntryOf project pair name entry) :
    declaration_findings entry = [] ∧ override_findings entry = [] ↔
      ∀ package ∈ pair.packages, package.name = name →
        DeclaredAsRegistered project.manifest.manifest package.registered ∧
          resolved_override package ∈ project_overrides project := by
  have hprovider := h.provider
  rcases hcase : entry.provider with _ | registered
  · -- nothing is held against a package that is not registered
    rw [hcase] at hprovider
    refine iff_of_true ⟨?_, ?_⟩ fun package hpackage hname =>
      absurd (List.mem_map.mpr ⟨package, hpackage, hname⟩) hprovider
    · unfold declaration_findings
      rw [hcase]
      rcases entry.declaration with _ | _ | _ <;> rfl
    · unfold override_findings
      rw [hcase]
  · rw [hcase] at hprovider
    dsimp only at hprovider
    have honly : (∀ package ∈ pair.packages, package.name = name →
        DeclaredAsRegistered project.manifest.manifest package.registered ∧
          resolved_override package ∈ project_overrides project) ↔
        DeclaredAsRegistered project.manifest.manifest ⟨name, registered.revision.as_str⟩ ∧
          ⟨name, registered.directory.to_string_lossy⟩ ∈ project_overrides project := by
      constructor
      · exact fun h => h _ hprovider rfl
      · rintro h package hpackage hname
        rw [same_registered_name hpair hpackage hprovider hname]
        exact h
    rw [honly]
    refine and_congr ?_ ?_
    · have hdeclaration := h.declaration
      unfold declaration_findings
      rw [hcase]
      rcases hdeclared : entry.declaration with _ | revision | directory
      · rw [hdeclared] at hdeclaration
        refine iff_of_false (List.cons_ne_nil _ _) ?_
        rintro ⟨package, hpackage, hname, -⟩
        exact hdeclaration (List.mem_map.mpr ⟨package, hpackage, hname⟩)
      · rw [hdeclared] at hdeclaration
        obtain ⟨package, hpackage, hname, hsource⟩ := hdeclaration
        dsimp only
        constructor
        · intro hnil
          have hsame : revision = registered.revision := by
            by_contra hne
            rw [if_pos hne] at hnil
            cases hnil
          exact ⟨package, hpackage, hname, by rw [hsource, hsame]⟩
        · rintro ⟨other, hother, hother_name, hother_source⟩
          have heq : other = package := List.inj_on_of_nodup_map hproject.names.nodup hother hpackage
            (hother_name.trans hname.symm)
          rw [heq, hsource] at hother_source
          have hsame : revision = registered.revision := by
            have hstr := ProjectPackageSource.Git.inj hother_source
            rcases revision with ⟨text, valid⟩
            rcases hregistered : registered.revision with ⟨text', valid'⟩
            rw [hregistered] at hstr
            subst hstr
            rfl
          exact if_neg (not_not.mpr hsame)
      · rw [hdeclared] at hdeclaration
        obtain ⟨package, hpackage, hname, hsource⟩ := hdeclaration
        refine iff_of_false (List.cons_ne_nil _ _) ?_
        rintro ⟨other, hother, hother_name, hother_source⟩
        have heq : other = package := List.inj_on_of_nodup_map hproject.names.nodup hother hpackage
          (hother_name.trans hname.symm)
        rw [heq, hsource] at hother_source
        cases hother_source
    · have hoverride := h.override_directory
      unfold override_findings
      rw [hcase]
      dsimp only
      rcases hdirectory : entry.project_override_directory with _ | directory
      · rw [hdirectory] at hoverride
        rw [if_pos (Option.some_ne_none _).symm]
        refine iff_of_false (List.cons_ne_nil _ _) fun hmem => ?_
        exact hoverride (List.mem_map_of_mem hmem)
      · rw [hdirectory] at hoverride
        dsimp only at hoverride
        by_cases hsame : directory = registered.directory.to_string_lossy
        · rw [if_neg (not_not.mpr (congrArg some hsame)), ← hsame]
          exact iff_of_true rfl hoverride
        · rw [if_pos fun h => hsame (Option.some.inj h)]
          refine iff_of_false (List.cons_ne_nil _ _) fun hmem => hsame ?_
          exact congrArg ProviderOverridePackage.directory
            (List.inj_on_of_nodup_map hoverrides hoverride hmem rfl)

/-- The comparison of the documents is silent about the packages exactly when all of them are
declared and registered alike, or there is nothing to compare. -/
theorem no_package_mismatch_iff :
    NoPackageMismatch project pair ↔ project.manifest.manifest.packages = [] ∨
      package_mismatches project.manifest.manifest pair.registry.registry = [] := by
  unfold NoPackageMismatch compare_project_manifest_to_provider
  by_cases hempty : project.manifest.manifest.packages = []
  · rw [if_pos hempty]
    exact iff_of_true (fun _ h => absurd h List.not_mem_nil) (.inl hempty)
  · rw [if_neg hempty]
    dsimp only
    simp only [mem_sort_by_key, List.mem_append, hempty, false_or]
    have hdocument : ∀ mismatch ∈ document_mismatches project.manifest.manifest
        pair.registry.registry,
        mismatch.field = "version".toList ∨ mismatch.field = "packagesDir".toList := by
      intro mismatch hmismatch
      unfold document_mismatches push_mismatch at hmismatch
      rw [List.mem_append] at hmismatch
      rcases hmismatch with h | h <;> split at h
      · exact .inl (by rw [List.mem_singleton.mp h])
      · cases h
      · exact .inr (by rw [List.mem_singleton.mp h])
      · cases h
    have hpackage : ∀ mismatch ∈ package_mismatches project.manifest.manifest
        pair.registry.registry,
        mismatch.field = "package".toList ∨ mismatch.field = "rev".toList ∨
          mismatch.field = "type".toList := by
      intro mismatch hmismatch
      unfold package_mismatches at hmismatch
      rw [List.mem_append, List.mem_flatMap, List.mem_flatMap] at hmismatch
      rcases hmismatch with ⟨package, -, h⟩ | ⟨name, -, h⟩
      · unfold registered_mismatches push_mismatch at h
        split at h
        · exact .inl (by rw [List.mem_singleton.mp h])
        · split at h
          · exact .inr (.inl (by rw [List.mem_singleton.mp h]))
          · cases h
        · exact .inr (.inr (by rw [List.mem_singleton.mp h]))
      · unfold declared_mismatches at h
        split at h
        · exact .inl (by rw [List.mem_singleton.mp h])
        · cases h
    constructor
    · intro h
      rw [List.eq_nil_iff_forall_not_mem]
      intro mismatch hmem
      have hfield := h mismatch (.inr hmem)
      rcases hpackage mismatch hmem with hkind | hkind | hkind <;> rw [hkind] at hfield <;>
        exact absurd hfield (by decide)
    · rintro h mismatch (hmem | hmem)
      · exact hdocument mismatch hmem
      · rw [h] at hmem
        cases hmem

theorem overrides_nodup {reader : Option StableProviderPair} (hproject : project.Read reader) :
    ((project_overrides project).map ProviderOverridePackage.name).Nodup := by
  unfold project_overrides
  rcases hcase : project.overrides with _ | document
  · exact List.nodup_nil
  · exact (hproject.overrides document hcase).nodup

/-- The names of an inventory are the declared, the overridden and the registered ones. -/
theorem mem_inventory_names {name : Str} :
    name ∈ inventory_names project (some pair) ↔
      (name ∈ project.manifest.manifest.packages.map ProjectManifestPackage.name ∨
        name ∈ (project_overrides project).map ProviderOverridePackage.name) ∨
      name ∈ pair.packages.map VerifiedProviderPackage.name := by
  unfold inventory_names
  rw [mem_name_set, List.mem_append, List.mem_append]
  rfl

variable {inventory : PackageInventoryV1}

/-- The summary of an inventory that is observed as expected matches exactly when the registered
packages do. -/
theorem summary_matched_iff_registered {reader : Option StableProviderPair}
    (hproject : project.Read reader) (hpair : pair.Read)
    (hentries : List.Forall₂ (EntryOf project pair) (inventory_names project (some pair))
      inventory.packages)
    (hobserved : ∀ package ∈ inventory.packages, ObservedAsExpected package) :
    (report_dependency_drift inventory).summary = .Matched ↔ RegisteredMatch project pair := by
  rw [summary_matched_iff]
  have hnil {name : Str} {entry : PackageInventoryEntryV1} (hmem : entry ∈ inventory.packages)
      (hentry : EntryOf project pair name entry) :=
    (drift_findings_of_observed (hobserved entry hmem)).trans
      (entry_findings_eq_nil hproject.manifest (overrides_nodup hproject) hpair hentry)
  constructor
  · intro h package hpackage
    have hname : package.name ∈ inventory_names project (some pair) :=
      mem_inventory_names.mpr (.inr (List.mem_map_of_mem hpackage))
    obtain ⟨entry, hmem, hentry⟩ := forall₂_partner hentries hname
    exact (hnil hmem hentry).mp (h entry hmem) package hpackage rfl
  · intro h entry hmem
    obtain ⟨name, -, hentry⟩ := forall₂_partner hentries.flip hmem
    exact (hnil hmem hentry).mpr fun package hpackage _ => h package hpackage

/-- When the registered packages match and every name is registered, so do the documents, and
the overrides are the provider's exactly when it names the resolved directories. -/
theorem documents_of_registered {reader : Option StableProviderPair}
    (hproject : project.Read reader) (hpair : pair.Read)
    (hmatch : RegisteredMatch project pair) (hnames : EveryNameRegistered project pair) :
    NoPackageMismatch project pair ∧ (SameOverrides project pair ↔ ResolvedNamed pair) := by
  constructor
  · rw [no_package_mismatch_iff]
    refine .inr ((package_mismatches_eq_nil hproject.manifest hpair.registry_names.nodup).mpr
      ⟨fun package hpackage => ?_, fun name hname => ?_⟩)
    · obtain ⟨binding, hbinding, rfl⟩ := hpair.verified hpackage
      exact (hmatch binding hbinding).1
    · rw [← hpair.package_names]
      exact hnames name (.inl hname)
  · constructor
    · exact fun h package hpackage => (h _).mp (hmatch package hpackage).2
    · intro h entry
      constructor
      · intro hentry
        obtain ⟨package, hpackage, hname⟩ :=
          List.mem_map.mp (hnames entry.name (.inr (List.mem_map_of_mem hentry)))
        have heq : resolved_override package = entry := List.inj_on_of_nodup_map
          (overrides_nodup hproject) (hmatch package hpackage).2 hentry hname
        exact heq ▸ h package hpackage
      · intro hentry
        have hregistered := (hpair.same_names entry.name).mpr (List.mem_map_of_mem hentry)
        rw [← hpair.package_names] at hregistered
        obtain ⟨package, hpackage, hname⟩ := List.mem_map.mp hregistered
        have heq : resolved_override package = entry := List.inj_on_of_nodup_map
          hpair.override_names.nodup (h package hpackage) hentry hname
        exact heq ▸ (hmatch package hpackage).2

/-- An unregistered package that is observed as expected is reported as matched. -/
theorem unregistered_matched {reader : Option StableProviderPair} (hproject : project.Read reader)
    (hpair : pair.Read)
    (hentries : List.Forall₂ (EntryOf project pair) (inventory_names project (some pair))
      inventory.packages)
    (hobserved : ∀ package ∈ inventory.packages, ObservedAsExpected package) {name : Str}
    (hname : name ∈ inventory_names project (some pair))
    (hunregistered : name ∉ pair.packages.map VerifiedProviderPackage.name) :
    ∃ package ∈ (report_dependency_drift inventory).packages, package.name = name ∧
      ∃ finding ∈ package.findings, finding.kind = .Matched := by
  obtain ⟨entry, hmem, hentry⟩ := forall₂_partner hentries hname
  refine ⟨⟨entry.name, classify_package entry⟩, List.mem_map_of_mem hmem, hentry.named, ?_⟩
  rw [classify_package_matched, drift_findings_of_observed (hobserved entry hmem),
    entry_findings_eq_nil hproject.manifest (overrides_nodup hproject) hpair hentry]
  exact fun package hpackage heq =>
    absurd (List.mem_map.mpr ⟨package, hpackage, heq⟩) hunregistered

end Comparison

/-- **The report against the documents.** The drift report of checkouts that are observed as
expected agrees with the comparison of the documents exactly when every declared or overridden
package is registered and the provider, if its packages match, names their resolved
directories. -/
theorem drift_report_agrees_iff {before after : ProjectMoment → FileSystem}
    {project_root : CanonicalDirectory} {reader : Option StableProviderPair}
    {project : StableProjectInput} {files : ProviderMoment → FileSystem}
    {isolation_root : CanonicalDirectory}
    {registry_candidate override_candidate package_root_candidate : Str} {pair : StableProviderPair}
    {observations : List PackageCheckoutObservationV1} {inventory : PackageInventoryV1}
    (hread : read_project_input before after project_root reader = .ok project)
    (hpair_read : read_provider_pair files isolation_root registry_candidate override_candidate
      package_root_candidate = .ok pair)
    (hinventory : build_package_inventory project (some pair) observations = .ok inventory)
    (hobserved : ∀ package ∈ inventory.packages, ObservedAsExpected package) :
    ReportAgrees project pair (report_dependency_drift inventory) ↔
      EveryNameRegistered project pair ∧ (RegisteredMatch project pair → ResolvedNamed pair) := by
  have hproject := read_project_input_eq_ok hread
  have hpair := read_provider_pair_eq_ok hpair_read
  have hentries := inventory_packages hinventory
  have hsummary := summary_matched_iff_registered hproject hpair hentries hobserved
  have hregistered : (∀ package ∈ (report_dependency_drift inventory).packages,
      package.name ∈ project.manifest.manifest.packages.map ProjectManifestPackage.name ∨
        package.name ∈ (project_overrides project).map ProviderOverridePackage.name →
      package.name ∉ pair.packages.map VerifiedProviderPackage.name →
      ∀ finding ∈ package.findings, finding.kind ≠ .Matched) ↔
      EveryNameRegistered project pair := by
    constructor
    · intro h name hname
      by_contra hunregistered
      obtain ⟨package, hpackage, rfl, finding, hfinding, hkind⟩ :=
        unregistered_matched hproject hpair hentries hobserved
          (mem_inventory_names.mpr (.inl hname)) hunregistered
      exact h package hpackage hname hunregistered finding hfinding hkind
    · exact fun h package _ hname hunregistered => absurd (h _ hname) hunregistered
  unfold ReportAgrees
  rw [hregistered, and_comm, hsummary]
  refine and_congr_right fun hnames => ?_
  constructor
  · intro h hmatch
    exact (documents_of_registered hproject hpair hmatch hnames).2.mp (h hmatch).2
  · intro h hmatch
    have hdocuments := documents_of_registered hproject hpair hmatch hnames
    exact ⟨hdocuments.1, hdocuments.2.mpr (h hmatch)⟩

/-! ## A package that is not registered -/

/-- The checkout of the sample project, as it is expected. -/
def sample_observations : List PackageCheckoutObservationV1 :=
  [⟨"b".toList, .Present sample_root (some ⟨sample_revision, by decide +kernel⟩) (some false)⟩]

def sample_inventory_entry : PackageInventoryEntryV1 :=
  ⟨"b".toList, some (.Git ⟨sample_revision, by decide +kernel⟩), none, none, none,
    .Present sample_root (some ⟨sample_revision, by decide +kernel⟩) (some false)⟩

theorem sample_inventory_build : ∃ inventory,
    build_package_inventory sample_project_input (some sample_provider_pair) sample_observations =
      .ok inventory ∧
    ∀ package ∈ inventory.packages, ObservedAsExpected package := by
  have hentry : inventory_entry sample_project_input (some sample_provider_pair)
      sample_observations "b".toList = .ok sample_inventory_entry :=
    ok_of_toOption (by decide +kernel)
  have hnames : inventory_names sample_project_input (some sample_provider_pair) =
      ["b".toList] := by decide +kernel
  have hchecked : check_observations ["b".toList] [] sample_observations = .ok () :=
    ok_of_toOption (by decide +kernel)
  have hpackages : ["b".toList].mapM (inventory_entry sample_project_input
      (some sample_provider_pair) sample_observations) = .ok [sample_inventory_entry] :=
    mapM_eq_ok_iff.mpr (List.Forall₂.cons hentry List.Forall₂.nil)
  have hobserved : ObservedAsExpected sample_inventory_entry := by
    refine ⟨_, _, rfl, fun _ h => (by cases h), fun _ h => ?_⟩
    cases h
    rfl
  unfold build_package_inventory
  rw [hnames]
  exact ⟨_, bind_eq_ok.mpr ⟨_, ensure_ok (by decide) _, bind_eq_ok.mpr ⟨(), hchecked,
    bind_eq_ok.mpr ⟨_, hpackages, rfl⟩⟩⟩, List.forall_mem_singleton.mpr hobserved⟩

/-- **An unregistered package is reported as matched.** A project declares a Git package, the
provider registers none: the summary matches, the documents do not. -/
theorem unregistered_package_reported_matched :
    read_project_input sample_project_files sample_project_files sample_root none =
      .ok sample_project_input ∧
    read_provider_pair (fun _ => sample_provider_files) sample_isolation_root "r".toList "o".toList
      ".".toList = .ok sample_provider_pair ∧
    ∃ inventory,
      build_package_inventory sample_project_input (some sample_provider_pair)
        sample_observations = .ok inventory ∧
      (∀ package ∈ inventory.packages, ObservedAsExpected package) ∧
      (report_dependency_drift inventory).summary = .Matched ∧
      ¬NoPackageMismatch sample_project_input sample_provider_pair := by
  refine ⟨sample_project_read, sample_provider_read, ?_⟩
  obtain ⟨inventory, hinventory, hobserved⟩ := sample_inventory_build
  have hproject := read_project_input_eq_ok sample_project_read
  have hpair := read_provider_pair_eq_ok sample_provider_read
  refine ⟨inventory, hinventory, hobserved, ?_, ?_⟩
  · rw [summary_matched_iff_registered hproject hpair (inventory_packages hinventory) hobserved]
    exact fun _ h => absurd h List.not_mem_nil
  · rw [no_package_mismatch_iff, not_or]
    exact ⟨List.cons_ne_nil _ _, by decide +kernel⟩

/-- The report of the sample does not agree, since its package is not registered. -/
theorem drift_report_agrees_iff_sample :
    ∃ inventory, build_package_inventory sample_project_input (some sample_provider_pair)
        sample_observations = .ok inventory ∧
      ¬ReportAgrees sample_project_input sample_provider_pair
        (report_dependency_drift inventory) := by
  obtain ⟨inventory, hinventory, hobserved⟩ := sample_inventory_build
  refine ⟨inventory, hinventory, ?_⟩
  rw [drift_report_agrees_iff sample_project_read sample_provider_read hinventory hobserved]
  rintro ⟨hnames, -⟩
  exact absurd (hnames "b".toList (.inl (by decide))) (by decide)

end LeanBun.Evidence
