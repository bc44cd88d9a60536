/-
Locked packages and the lock.

`LockedLeanPackageV1::new` sorts its dependency edges and provenance digests and
refuses duplicates; `LeanBunLockV1::new` does the same with whole packages,
checks the dependency graph and stores the digest of the package list. The bytes
under that digest are `graph_bytes`.
-/
import LeanBun.Lock.Model

set_option autoImplicit false

namespace LeanBun.Lock

open LeanBun.Lib LeanBun.Core

/-! ## Locked packages -/

/-- The two sources name one place. -/
def sources_compatible : RequestedPackageSourceV1 → ResolvedPackageSourceV1 → Bool
  | .Git requested _ _, .Git resolved _ _ _ _ => decide (requested = resolved)
  | .PathSnapshot requested _, .PathSnapshot resolved _ => decide (requested = resolved)
  | _, _ => false

theorem b_paths_compatible :
    sources_compatible (.PathSnapshot ['b'] b_path_valid) (.PathSnapshot ['b'] b_path_valid) = true := by
  decide

/-- `matches!(resolved, ResolvedPackageSourceV1::Git { .. })`. -/
def ResolvedPackageSourceV1.is_git : ResolvedPackageSourceV1 → Bool
  | .Git _ _ _ _ _ => true
  | .PathSnapshot _ _ => false

/-- `LockedLeanPackageV1`. A dependency edge is the key it names. -/
structure LockedLeanPackageV1 where
  key : PackageKeyV1
  requested : RequestedPackageSourceV1
  resolved : ResolvedPackageSourceV1
  download_integrity : Option Sha256
  source_tree_sha256 : Sha256
  config_sha256 : Sha256
  manifest_sha256 : Option Sha256
  dependencies : List PackageKeyV1
  provenance_digests : List Sha256
  selected_source_identity : Sha256
  counts_bounded : dependencies.length ≤ MAX_PACKAGE_DEPENDENCIES_V1 ∧
    provenance_digests.length ≤ MAX_PACKAGE_DEPENDENCIES_V1
  integrity_present : ¬(resolved.is_git = true ∧ download_integrity = none)
  compatible : sources_compatible requested resolved = true
  dependencies_sorted : StrictlySorted id dependencies
  no_self_dependency : key ∉ dependencies
  provenance_sorted : StrictlySorted Sha256.key provenance_digests
  provenance_present : provenance_digests ≠ []
deriving DecidableEq

/-- `LockedLeanPackageV1::new`. -/
def LockedLeanPackageV1.new (key : PackageKeyV1) (requested : RequestedPackageSourceV1)
    (resolved : ResolvedPackageSourceV1) (download_integrity : Option Sha256)
    (source_tree_sha256 config_sha256 : Sha256) (manifest_sha256 : Option Sha256)
    (dependencies : List PackageKeyV1) (provenance_digests : List Sha256)
    (selected_source_identity : Sha256) : LockResult LockedLeanPackageV1 := do
  let ⟨hcounts⟩ ← require (dependencies.length ≤ MAX_PACKAGE_DEPENDENCIES_V1 ∧
      provenance_digests.length ≤ MAX_PACKAGE_DEPENDENCIES_V1)
    .LimitExceeded "package dependency or provenance count exceeds limit"
  let ⟨hintegrity⟩ ← require (¬(resolved.is_git = true ∧ download_integrity = none))
    .InvalidField "resolved Git source requires download integrity"
  let ⟨hcompatible⟩ ← require (sources_compatible requested resolved = true)
    .IncompatibleProvenance "requested and resolved package sources are incompatible"
  let ⟨hdependencies⟩ ← require (adjacent_equal id (sort_by_key id dependencies) = false)
    .DuplicateDependency "duplicate dependency edge"
  let ⟨hself⟩ ← require (key ∉ sort_by_key id dependencies)
    .DependencyCycle "self dependency is forbidden"
  let ⟨hprovenance⟩ ← require
    (adjacent_equal Sha256.key (sort_by_key Sha256.key provenance_digests) = false)
    .DuplicateProvenance "duplicate package provenance digest"
  let ⟨hpresent⟩ ← require (sort_by_key Sha256.key provenance_digests ≠ [])
    .InvalidField "package requires provenance evidence"
  return {
    key, requested, resolved, download_integrity, source_tree_sha256, config_sha256
    manifest_sha256, selected_source_identity
    dependencies := sort_by_key id dependencies
    provenance_digests := sort_by_key Sha256.key provenance_digests
    counts_bounded := by simpa using hcounts
    integrity_present := hintegrity
    compatible := hcompatible
    dependencies_sorted := strictly_sorted_of_adjacent id (sort_by_key_sorted id _) hdependencies
    no_self_dependency := hself
    provenance_sorted :=
      strictly_sorted_of_adjacent Sha256.key (sort_by_key_sorted Sha256.key _) hprovenance
    provenance_present := hpresent }

/-- **A package passes its own constructor.** -/
theorem LockedLeanPackageV1.new_self (p : LockedLeanPackageV1) :
    LockedLeanPackageV1.new p.key p.requested p.resolved p.download_integrity p.source_tree_sha256
      p.config_sha256 p.manifest_sha256 p.dependencies p.provenance_digests
      p.selected_source_identity = .ok p := by
  have hdeps : sort_by_key id p.dependencies = p.dependencies := p.dependencies_sorted.sort_eq
  have hprov : sort_by_key Sha256.key p.provenance_digests = p.provenance_digests :=
    p.provenance_sorted.sort_eq
  have hadj : adjacent_equal id (sort_by_key id p.dependencies) = false := by
    rw [hdeps]
    exact p.dependencies_sorted.adjacent
  have hself : p.key ∉ sort_by_key id p.dependencies := by
    rw [hdeps]
    exact p.no_self_dependency
  have hpadj : adjacent_equal Sha256.key (sort_by_key Sha256.key p.provenance_digests) = false := by
    rw [hprov]
    exact p.provenance_sorted.adjacent
  have hne : sort_by_key Sha256.key p.provenance_digests ≠ [] := by
    rw [hprov]
    exact p.provenance_present
  simp only [LockedLeanPackageV1.new, require_ok p.counts_bounded, require_ok p.integrity_present,
    require_ok p.compatible, require_ok hadj, require_ok hself, require_ok hpadj, require_ok hne,
    bind, Except.bind, pure, Except.pure, hdeps, hprov]

/-- The constructor keeps the key and both sources. -/
theorem LockedLeanPackageV1.new_sources {key : PackageKeyV1} {requested : RequestedPackageSourceV1}
    {resolved : ResolvedPackageSourceV1} {download_integrity manifest_sha256 : Option Sha256}
    {source_tree_sha256 config_sha256 selected_source_identity : Sha256}
    {dependencies : List PackageKeyV1} {provenance_digests : List Sha256} {p : LockedLeanPackageV1}
    (h : LockedLeanPackageV1.new key requested resolved download_integrity source_tree_sha256
      config_sha256 manifest_sha256 dependencies provenance_digests selected_source_identity = .ok p) :
    p.key = key ∧ p.requested = requested ∧ p.resolved = resolved := by
  unfold LockedLeanPackageV1.new at h
  obtain ⟨_, -, h⟩ := bind_eq_ok.mp h
  obtain ⟨_, -, h⟩ := bind_eq_ok.mp h
  obtain ⟨_, -, h⟩ := bind_eq_ok.mp h
  obtain ⟨_, -, h⟩ := bind_eq_ok.mp h
  obtain ⟨_, -, h⟩ := bind_eq_ok.mp h
  obtain ⟨_, -, h⟩ := bind_eq_ok.mp h
  obtain ⟨_, -, h⟩ := bind_eq_ok.mp h
  cases h
  exact ⟨rfl, rfl, rfl⟩

/-! ## The graph check -/

/-- The `states` and `depths` vectors of the traversal. -/
structure VisitState where
  states : List ℕ
  depths : List ℕ

/-- `indices.get(key)`. -/
def index_of (packages : List LockedLeanPackageV1) (key : PackageKeyV1) : Option ℕ :=
  packages.findIdx? fun package => decide (package.key = key)

/-- `visit_graph`. The fuel counts open visits: a visit opens only an index that
is not in progress, so there are never more open visits than packages, and with
one more than that the fuel is not what stops the traversal. -/
def visit_graph (packages : List LockedLeanPackageV1) :
    ℕ → ℕ → VisitState → LockResult (ℕ × VisitState)
  | 0, _, _ => .error ⟨.DependencyCycle, "dependency graph contains a cycle"⟩
  | fuel + 1, index, visit =>
    if visit.states.getD index 0 = 1 then
      .error ⟨.DependencyCycle, "dependency graph contains a cycle"⟩
    else if visit.states.getD index 0 = 2 then .ok (visit.depths.getD index 0, visit)
    else do
      let entered : VisitState := { visit with states := visit.states.set index 1 }
      let dependencies := (packages[index]?.map (·.dependencies)).getD []
      let (depth, visit) ← dependencies.foldlM (fun (acc : ℕ × VisitState) dependency =>
        match index_of packages dependency with
        | none => .error ⟨.MissingPackage, "dependency missing"⟩
        | some next => do
          let (below, visit) ← visit_graph packages fuel next acc.2
          return (max acc.1 (1 + below), visit)) (1, entered)
      if MAX_GRAPH_DEPTH_V1 < depth then
        .error ⟨.GraphTooDeep, "dependency graph exceeds maximum depth"⟩
      else return (depth, ⟨visit.states.set index 2, visit.depths.set index depth⟩)

/-- `validate_graph`: every edge names a package, and every package is visited. -/
def validate_graph (packages : List LockedLeanPackageV1) : LockResult Unit := do
  let _ ← require (∀ package ∈ packages, ∀ dependency ∈ package.dependencies,
      (index_of packages dependency).isSome = true)
    .MissingPackage "dependency edge references a package absent from the lock"
  let start : VisitState :=
    ⟨List.replicate packages.length 0, List.replicate packages.length 0⟩
  let _ ← (List.range packages.length).foldlM (fun visit index => do
    let (_, visit) ← visit_graph packages (packages.length + 1) index visit
    return visit) start
  return ()

/-! ## The bytes under the graph digest -/

/-- `hash_requested_source`. -/
def requested_source_bytes : RequestedPackageSourceV1 → List UInt8
  | .Git url requested_revision _ =>
    0 :: (string_bytes url.value ++ optional_string_bytes requested_revision)
  | .PathSnapshot portable_path_token _ => 1 :: string_bytes portable_path_token

/-- `hash_resolved_source`. -/
def resolved_source_bytes : ResolvedPackageSourceV1 → List UInt8
  | .Git url exact_revision subdir _ _ =>
    0 :: (string_bytes url.value ++ (string_bytes exact_revision ++ optional_string_bytes subdir))
  | .PathSnapshot portable_path_token _ => 1 :: string_bytes portable_path_token

/-- A key as two strings. -/
def key_bytes (key : PackageKeyV1) : List UInt8 := string_bytes key.scope ++ string_bytes key.name

/-- What the loop of `hash_graph` feeds before the edges of a package. -/
def package_head_bytes (package : LockedLeanPackageV1) : List UInt8 :=
  key_bytes package.key ++ (requested_source_bytes package.requested ++
    (resolved_source_bytes package.resolved ++ (optional_sha_bytes package.download_integrity ++
      (package.source_tree_sha256.bytes ++ (package.config_sha256.bytes ++
        (optional_sha_bytes package.manifest_sha256 ++
          package.selected_source_identity.bytes))))))

/-- One package: its head, its edges, its provenance digests, with no counts. -/
def package_bytes (package : LockedLeanPackageV1) : List UInt8 :=
  package_head_bytes package ++ (package.dependencies.flatMap key_bytes ++
    package.provenance_digests.flatMap Sha256.bytes)

/-- Everything `hash_graph` feeds to the hasher. -/
def graph_bytes (packages : List LockedLeanPackageV1) : List UInt8 :=
  as_bytes "leanbun-package-graph-v1\x00".toList ++ packages.flatMap package_bytes

/-- `hash_graph`. -/
def hash_graph (packages : List LockedLeanPackageV1) : Sha256 := digest (graph_bytes packages)

/-! ## The lock -/

/-- `LeanBunLockV1`. -/
structure LeanBunLockV1 where
  lean_toolchain : Str
  lean_compiler_githash : Str
  lake_version : Str
  root_config_sha256 : Sha256
  root_declaration_sha256 : Sha256
  packages : List LockedLeanPackageV1
  graph_sha256 : Sha256
  toolchain_valid : valid_atom lean_toolchain MAX_TEXT_BYTES false = true
  githash_valid : valid_git_revision lean_compiler_githash = true
  lake_valid : valid_atom lake_version MAX_NAME_BYTES false = true
  count_bounded : packages.length ≤ MAX_LOCK_PACKAGES_V1
  packages_sorted : StrictlySorted LockedLeanPackageV1.key packages
  graph_valid : validate_graph packages = .ok ()
  graph_hashed : graph_sha256 = hash_graph packages

/-- `LeanBunLockV1::new`. -/
def LeanBunLockV1.new (lean_toolchain lean_compiler_githash lake_version : Str)
    (root_config_sha256 root_declaration_sha256 : Sha256) (packages : List LockedLeanPackageV1) :
    LockResult LeanBunLockV1 := do
  let ⟨htoolchain⟩ ← validate_atom lean_toolchain MAX_TEXT_BYTES false "Lean toolchain"
  let ⟨hgithash⟩ ← validate_git_revision lean_compiler_githash
  let ⟨hlake⟩ ← validate_atom lake_version MAX_NAME_BYTES false "Lake version"
  let ⟨hcount⟩ ← require (packages.length ≤ MAX_LOCK_PACKAGES_V1)
    .LimitExceeded "lock package count exceeds limit"
  let sorted := sort_by_key LockedLeanPackageV1.key packages
  let ⟨hduplicate⟩ ← require (adjacent_equal LockedLeanPackageV1.key sorted = false)
    .DuplicatePackage "duplicate package key"
  match hgraph : validate_graph sorted with
  | .error e => .error e
  | .ok () => return {
      lean_toolchain, lean_compiler_githash, lake_version, root_config_sha256
      root_declaration_sha256
      packages := sorted
      graph_sha256 := hash_graph sorted
      toolchain_valid := htoolchain
      githash_valid := hgithash
      lake_valid := hlake
      count_bounded := by simpa [sorted] using hcount
      packages_sorted := strictly_sorted_of_adjacent _ (sort_by_key_sorted _ _) hduplicate
      graph_valid := hgraph
      graph_hashed := rfl }

theorem LeanBunLockV1.ext {a b : LeanBunLockV1} (ht : a.lean_toolchain = b.lean_toolchain)
    (hg : a.lean_compiler_githash = b.lean_compiler_githash) (hl : a.lake_version = b.lake_version)
    (hc : a.root_config_sha256 = b.root_config_sha256)
    (hd : a.root_declaration_sha256 = b.root_declaration_sha256) (hp : a.packages = b.packages) :
    a = b := by
  have hhash : a.graph_sha256 = b.graph_sha256 := by
    rw [a.graph_hashed, b.graph_hashed, hp]
  cases a
  cases b
  simp only [LeanBunLockV1.mk.injEq]
  exact ⟨ht, hg, hl, hc, hd, hp, hhash⟩

instance : DecidableEq LeanBunLockV1 := fun a b =>
  decidable_of_iff (a.lean_toolchain = b.lean_toolchain ∧
      a.lean_compiler_githash = b.lean_compiler_githash ∧ a.lake_version = b.lake_version ∧
      a.root_config_sha256 = b.root_config_sha256 ∧
      a.root_declaration_sha256 = b.root_declaration_sha256 ∧ a.packages = b.packages)
    ⟨fun ⟨ht, hg, hl, hc, hd, hp⟩ => LeanBunLockV1.ext ht hg hl hc hd hp,
      fun h => by subst h; exact ⟨rfl, rfl, rfl, rfl, rfl, rfl⟩⟩

/-- The constructor sorts the packages and keeps them. -/
theorem LeanBunLockV1.new_packages {lean_toolchain lean_compiler_githash lake_version : Str}
    {root_config_sha256 root_declaration_sha256 : Sha256} {packages : List LockedLeanPackageV1}
    {l : LeanBunLockV1} (h : LeanBunLockV1.new lean_toolchain lean_compiler_githash lake_version
      root_config_sha256 root_declaration_sha256 packages = .ok l) :
    l.packages = sort_by_key LockedLeanPackageV1.key packages := by
  unfold LeanBunLockV1.new at h
  obtain ⟨_, -, h⟩ := bind_eq_ok.mp h
  obtain ⟨_, -, h⟩ := bind_eq_ok.mp h
  obtain ⟨_, -, h⟩ := bind_eq_ok.mp h
  obtain ⟨_, -, h⟩ := bind_eq_ok.mp h
  obtain ⟨_, -, h⟩ := bind_eq_ok.mp h
  dsimp only at h
  split at h
  · cases h
  · cases h
    rfl

/-- **A lock passes its own constructor.** -/
theorem LeanBunLockV1.new_self (l : LeanBunLockV1) :
    LeanBunLockV1.new l.lean_toolchain l.lean_compiler_githash l.lake_version l.root_config_sha256
      l.root_declaration_sha256 l.packages = .ok l := by
  have hsort : sort_by_key LockedLeanPackageV1.key l.packages = l.packages :=
    l.packages_sorted.sort_eq
  have hadj : adjacent_equal LockedLeanPackageV1.key
      (sort_by_key LockedLeanPackageV1.key l.packages) = false := by
    rw [hsort]
    exact l.packages_sorted.adjacent
  have hgraph : validate_graph (sort_by_key LockedLeanPackageV1.key l.packages) = .ok () := by
    rw [hsort]
    exact l.graph_valid
  simp only [LeanBunLockV1.new, validate_atom_ok l.toolchain_valid,
    validate_git_revision_ok l.githash_valid, validate_atom_ok l.lake_valid,
    require_ok l.count_bounded, require_ok hadj, bind, Except.bind, pure, Except.pure]
  split
  · next e he => rw [hgraph] at he; exact absurd he (by simp)
  · exact congrArg Except.ok (LeanBunLockV1.ext rfl rfl rfl rfl rfl hsort)

end LeanBun.Lock
