/-
Closures of vendored packages.

The simplest closures have only path packages, all of them empty directories
under one token, required by the root. This file makes the lock, the decisions,
the projections and the objects of such a closure from its keys, and shows that
the constructor of generations accepts it. Nothing here looks inside a digest.
-/
import LeanBun.Generation.Build
import LeanBun.Resolver.Selection

set_option autoImplicit false

namespace LeanBun.Generation

open LeanBun.Lib LeanBun.Core LeanBun.Lock LeanBun.Bridge LeanBun.Resolver LeanBun.Store

/-! ## The values of a closure -/

/-- The digest of an empty tree, which every path package below has. -/
def empty_tree : Sha256 := tree_digest []

def vendor : Str := "vendor".toList

def vendor_candidate (key : PackageKeyV1) : LeanPackageCandidateV1 :=
  ⟨key, .Path vendor (by decide +kernel), .Path vendor empty_tree (by decide +kernel), [], none, none,
    empty_tree, empty_tree, none, empty_tree, Nat.zero_le _, by simp [valid_source_pair]⟩

def vendor_locked (key : PackageKeyV1) : LockedLeanPackageV1 :=
  ⟨key, .PathSnapshot vendor (by decide +kernel), .PathSnapshot vendor (by decide +kernel), none,
    empty_tree, empty_tree, none, [], [empty_tree], empty_tree, by decide, by decide,
    by decide +kernel, no_keys_sorted, List.not_mem_nil, List.pairwise_singleton _ _, by simp⟩

/-- A root declaration of the given keys, all of them path dependencies. -/
def vendor_root (keys : List PackageKeyV1) (hsorted : StrictlySorted id keys)
    (hcount : keys.length ≤ MAX_ROOT_DEPENDENCIES_V1) : LakeRootDeclarationV1 where
  root_name := "root".toList
  config_file := "lakefile.toml".toList
  dependencies := keys.map fun key => ⟨key, none, .Path vendor, no_text_valid _, by decide +kernel⟩
  name_valid := sample_root.name_valid
  config_valid := sample_root.config_valid
  count_bounded := by rwa [List.length_map]
  dependencies_sorted := List.pairwise_map.mpr hsorted

/-- Their resolution, without an active lock. -/
def vendor_resolution (keys : List PackageKeyV1) (hsorted : StrictlySorted id keys)
    (hcount : keys.length ≤ MAX_ROOT_DEPENDENCIES_V1) : LeanResolutionRequestV1 where
  root := vendor_root keys hsorted hcount
  active_lock := none
  mode := .Update [] no_keys_sorted (Nat.zero_le _)
  toolchain := sample_toolchain
  frozen_has_lock := empty_update_unfrozen
  lock_matches := fun _ h => by cases h

/-- The lock of these keys. -/
def vendor_lock (keys : List PackageKeyV1) (hsorted : StrictlySorted id keys)
    (hcount : keys.length ≤ MAX_ROOT_DEPENDENCIES_V1)
    (hgraph : validate_graph (keys.map vendor_locked) = .ok ()) : LeanBunLockV1 where
  lean_toolchain := sample_toolchain.lean_toolchain
  lean_compiler_githash := sample_toolchain.compiler_githash
  lake_version := sample_toolchain.lake_version
  root_config_sha256 := empty_tree
  root_declaration_sha256 := (vendor_root keys hsorted hcount).identity
  packages := keys.map vendor_locked
  graph_sha256 := hash_graph (keys.map vendor_locked)
  toolchain_valid := sample_toolchain_locked
  githash_valid := sample_githash_locked
  lake_valid := sample_lake_locked
  count_bounded := by rwa [List.length_map]
  packages_sorted := List.pairwise_map.mpr hsorted
  graph_valid := hgraph
  graph_hashed := rfl

/-- A fetch of a path package of a graph. -/
def vendor_request (graph : LeanResolutionGraphV1) (key : PackageKeyV1) : LeanFetchRequestV1 where
  package := key
  candidate := vendor_candidate key
  graph_identity := graph.identity
  source := .LocalDirectory "/source".toList
  allowed_source_root := "/source".toList
  limits := .default
  package_source_key := none
  identity := digest (request_identity_bytes graph.identity key (vendor_candidate key).identity
    (.LocalDirectory "/source".toList) "/source".toList .default)
  package_candidate := rfl
  limits_valid := valid_limits_presets.1
  source_key := rfl
  identity_hashed := request_identity_ok (by decide +kernel)

def vendor_object (graph : LeanResolutionGraphV1) (key : PackageKeyV1) : VerifiedPackageObjectV1 :=
  ⟨vendor_request graph key, "/store/objects/empty".toList, [], none, .Published, rfl⟩

/-- The decision for a key whose path is inside the generation root. -/
def vendor_decision (generation_root : PathBuf) (graph : LeanResolutionGraphV1) (key : PackageKeyV1)
    (hpath : valid_contained_absolute_path generation_root
      (package_path generation_root key.scope key.name) = true) : PackagePathDecisionV1 :=
  ⟨key, digest (provenance_bytes [.manifest key empty_tree]), empty_tree,
    package_path generation_root key.scope key.name, digest (encode_public_metadata []), empty_tree,
    graph.identity, generation_root, hpath⟩

def vendor_decisions (generation_root : PathBuf) (graph : LeanResolutionGraphV1)
    (keys : List PackageKeyV1) (hsorted : StrictlySorted id keys)
    (hpaths : ∀ key ∈ keys, valid_contained_absolute_path generation_root
      (package_path generation_root key.scope key.name) = true) : PackagePathDecisionSetV1 where
  decisions := keys.pmap (vendor_decision generation_root graph) hpaths
  decisions_sorted := (List.pairwise_pmap hpaths).mpr
    (hsorted.imp fun hlt _ _ => hlt)

def vendor_transaction : ExecutionId := ⟨"00000000-0000-4000-8000-000000000009".toList, by decide⟩

/-! ## Its projections -/

def vendor_metadata (key : PackageKeyV1) : LakePackageProjectionMetadataV1 :=
  ⟨key, false, "lakefile.toml".toList, none, none, by decide +kernel, none_passes, no_text_valid _⟩

def vendor_entry (dir : Str) (key : PackageKeyV1) : ProjectionEntry :=
  ⟨key.name, key.scope, false, "lakefile.toml".toList, none, .Path dir⟩

def vendor_manifest (keys : List PackageKeyV1) : LakeManifestProjectionV1 :=
  ⟨"root".toList, keys.map (vendor_entry vendor)⟩

def vendor_runtime (generation_root : PathBuf) (keys : List PackageKeyV1) :
    LakeRuntimePackagesProjectionV1 :=
  ⟨keys.map fun key => vendor_entry (package_path generation_root key.scope key.name) key⟩

/-! ## It is accepted -/

section Vendor

variable {generation_root : PathBuf} {keys : List PackageKeyV1} {hsorted : StrictlySorted id keys}
  {hcount : keys.length ≤ MAX_ROOT_DEPENDENCIES_V1} {graph : LeanResolutionGraphV1}

/-- The resolution selects the candidates of the keys it resolves. -/
theorem vendor_graph_packages
    (h : resolve_lean_dependencies_v1 (vendor_resolution keys hsorted hcount)
      (keys.map vendor_candidate) = .ok graph)
    (hkeys : graph.packages.map LeanResolvedPackageV1.key = keys) :
    graph.packages = keys.map fun key => ⟨vendor_candidate key, []⟩ := by
  have hpackage : ∀ package ∈ graph.packages,
      package = ⟨vendor_candidate package.key, []⟩ := by
    intro package hpackage
    obtain ⟨hcandidate, hdependencies⟩ := resolve_candidates h hpackage
    obtain ⟨key, -, hkey⟩ := List.mem_map.mp hcandidate
    obtain ⟨candidate, dependencies⟩ := package
    dsimp only at hkey hdependencies
    subst hkey
    rw [hdependencies]
    rfl
  rw [← hkeys, List.map_map]
  exact (List.map_id _).symm.trans (List.map_congr_left hpackage)

/-- One round on the closure. -/
theorem vendor_placed (hpackages : graph.packages = keys.map fun key => ⟨vendor_candidate key, []⟩)
    (hsorted : StrictlySorted id keys) {key : PackageKeyV1} (hkey : key ∈ keys)
    (hpath : valid_contained_absolute_path generation_root
      (package_path generation_root key.scope key.name) = true) :
    Placed generation_root graph (keys.map (vendor_object graph))
      (vendor_locked key, vendor_decision generation_root graph key hpath)
      (key, vendor_object graph key) where
  key := rfl
  decided := rfl
  supplied := List.mem_map.mpr ⟨key, hkey, rfl⟩
  package := rfl
  facts := by
    have hnodup : (graph.packages.map LeanResolvedPackageV1.key).Nodup := by
      rw [hpackages, List.map_map]
      exact hsorted.nodup
    have hmem : (⟨vendor_candidate key, []⟩ : LeanResolvedPackageV1) ∈ graph.packages := by
      rw [hpackages]
      exact List.mem_map.mpr ⟨key, hkey, rfl⟩
    refine ⟨⟨vendor_candidate key, []⟩, find_key_of_mem hnodup hmem, rfl, rfl, rfl, rfl, rfl,
      ⟨?_, ?_⟩, rfl, rfl⟩
    · exact fun _ h => absurd h List.not_mem_nil
    · exact fun _ h => absurd h List.not_mem_nil
  object := ⟨rfl, rfl, rfl, rfl⟩
  path := path_eq_self _

/-- **The closure is accepted**, whatever the projections say, as long as the
runtime projection has as many packages. -/
theorem vendor_accepted (hgraph : validate_graph (keys.map vendor_locked) = .ok ())
    (h : resolve_lean_dependencies_v1 (vendor_resolution keys hsorted hcount)
      (keys.map vendor_candidate) = .ok graph)
    (hkeys : graph.packages.map LeanResolvedPackageV1.key = keys)
    (hroot : valid_absolute_path generation_root = true)
    (hpaths : ∀ key ∈ keys, valid_contained_absolute_path generation_root
      (package_path generation_root key.scope key.name) = true)
    {runtime : LakeRuntimePackagesProjectionV1} (hruntime : runtime.package_count = keys.length) :
    Accepted generation_root (vendor_lock keys hsorted hcount hgraph) graph
      (vendor_decisions generation_root graph keys hsorted hpaths) runtime
      (keys.map (vendor_object graph)) none (keys.map fun key => (key, vendor_object graph key)) := by
  have hpackages := vendor_graph_packages h hkeys
  obtain ⟨htoolchain, hdeclaration⟩ := resolve_roots h
  have hlocked : (vendor_lock keys hsorted hcount hgraph).packages = keys.map vendor_locked := rfl
  have hreservoir : graph.packages.filter is_reservoir = [] := by
    rw [hpackages]
    refine List.filter_eq_nil_iff.mpr fun package hpackage => ?_
    obtain ⟨key, -, rfl⟩ := List.mem_map.mp hpackage
    exact Bool.false_ne_true
  refine ⟨hroot, ⟨hdeclaration.symm, ?_, ?_, ?_⟩, ⟨?_, ?_, ?_, ?_⟩, ?_, ?_, ?_, ?_⟩
  · rw [htoolchain]
    rfl
  · rw [htoolchain]
    rfl
  · rw [htoolchain]
    rfl
  · rw [hlocked, hpackages, List.length_map, List.length_map]
  · rw [hlocked, List.length_map]
    exact List.length_pmap.symm
  · rw [hlocked, List.length_map, List.length_map]
  · rw [hruntime, List.length_map]
  · rw [List.map_map]
    exact hsorted.nodup
  · have hsame : graph.packages.map LeanResolvedPackageV1.key =
        (vendor_lock keys hsorted hcount hgraph).packages.map LockedLeanPackageV1.key := by
      rw [hkeys, hlocked, List.map_map]
      exact (List.map_id keys).symm
    rw [hsame]
    exact ⟨fun _ hkey => hkey, fun _ hkey => hkey⟩
  · unfold validate_reservoir_bindings
    rw [hreservoir]
    rfl
  · rw [hlocked]
    show List.Forall₂ _ ((keys.map vendor_locked).zip (keys.pmap _ hpaths)) _
    have hall : ∀ part : List PackageKeyV1, (hpart : ∀ key ∈ part, key ∈ keys) →
        List.Forall₂ (Placed generation_root graph (keys.map (vendor_object graph)))
          ((part.map vendor_locked).zip (part.pmap (vendor_decision generation_root graph)
            fun key hkey => hpaths key (hpart key hkey)))
          (part.map fun key => (key, vendor_object graph key)) := by
      intro part
      induction part with
      | nil => exact fun _ => List.Forall₂.nil
      | cons key part ih =>
        intro hpart
        refine List.Forall₂.cons ?_ (ih fun other hother => hpart other (List.mem_cons_of_mem _ hother))
        exact vendor_placed hpackages hsorted (hpart key List.mem_cons_self) _
    exact hall keys fun _ hkey => hkey

/-- The metadata of the keys is complete. -/
theorem vendor_metadata_valid (hgraph : validate_graph (keys.map vendor_locked) = .ok ()) :
    validate_metadata (vendor_lock keys hsorted hcount hgraph) (keys.map vendor_metadata) =
      .ok (keys.map vendor_metadata) := by
  have hmetadata : StrictlySorted LakePackageProjectionMetadataV1.key (keys.map vendor_metadata) :=
    List.pairwise_map.mpr hsorted
  have hadjacent : adjacent_equal LakePackageProjectionMetadataV1.key
      (sort_by_key LakePackageProjectionMetadataV1.key (keys.map vendor_metadata)) = false := by
    rw [hmetadata.sort_eq]
    exact hmetadata.adjacent
  have hsupplied : (keys.map vendor_metadata).map LakePackageProjectionMetadataV1.key = keys := by
    rw [List.map_map]
    exact List.map_id keys
  have hlocked : (vendor_lock keys hsorted hcount hgraph).packages.map LockedLeanPackageV1.key =
      keys := by
    show (keys.map vendor_locked).map LockedLeanPackageV1.key = keys
    rw [List.map_map]
    exact List.map_id keys
  have hsame : first_difference keys keys = none := by
    unfold first_difference
    refine List.find?_eq_none.mpr fun key hkey => ?_
    simpa using (mem_sort_by_key id).mp hkey
  unfold validate_metadata
  simp only [ensure_ok hadjacent, bind, Except.bind]
  rw [hmetadata.sort_eq, hsupplied, hlocked, hsame]

theorem vendor_metadata_found {key : PackageKeyV1} (hsorted : StrictlySorted id keys)
    (hkey : key ∈ keys) :
    (keys.map vendor_metadata).find? (fun item => decide (item.key = key)) =
      some (vendor_metadata key) := by
  have hnodup : ((keys.map vendor_metadata).map LakePackageProjectionMetadataV1.key).Nodup := by
    rw [List.map_map]
    exact hsorted.nodup
  exact find_key_of_mem hnodup (List.mem_map.mpr ⟨key, hkey, rfl⟩)

/-- The manifest projection of the closure. -/
theorem vendor_manifest_ok (hgraph : validate_graph (keys.map vendor_locked) = .ok ()) :
    LakeManifestProjectionV1.new (vendor_root keys hsorted hcount)
      (vendor_lock keys hsorted hcount hgraph) (keys.map vendor_metadata) =
        .ok (vendor_manifest keys) := by
  have hlocked : ∀ key ∈ keys, (vendor_lock keys hsorted hcount hgraph).packages.find?
      (fun package => decide (package.key = key)) = some (vendor_locked key) := by
    intro key hkey
    have hmem : vendor_locked key ∈ (vendor_lock keys hsorted hcount hgraph).packages :=
      List.mem_map.mpr ⟨key, hkey, rfl⟩
    exact find_key_of_mem (vendor_lock keys hsorted hcount hgraph).packages_sorted.nodup hmem
  have hroots : (vendor_root keys hsorted hcount).dependencies.mapM
      (check_root_dependency (vendor_lock keys hsorted hcount hgraph)) =
        .ok (keys.map fun _ => ()) := by
    refine mapM_eq_ok_iff.mpr ?_
    show List.Forall₂ _ (keys.map _) (keys.map _)
    rw [List.forall₂_map_left_iff, List.forall₂_map_right_iff]
    refine List.forall₂_same.mpr fun key hkey => ?_
    unfold check_root_dependency
    rw [hlocked key hkey]
    exact if_neg (by simp)
  have hentries : (vendor_lock keys hsorted hcount hgraph).packages.mapM
      (projection_entry (keys.map vendor_metadata) none false) =
        .ok (keys.map (vendor_entry vendor)) := by
    refine mapM_eq_ok_iff.mpr ?_
    show List.Forall₂ _ (keys.map vendor_locked) (keys.map _)
    rw [List.forall₂_map_left_iff, List.forall₂_map_right_iff]
    refine List.forall₂_same.mpr fun key hkey => ?_
    unfold projection_entry
    rw [show (vendor_locked key).key = key from rfl, vendor_metadata_found hsorted hkey]
    rfl
  unfold LakeManifestProjectionV1.new
  simp only [hroots, vendor_metadata_valid, hentries, bind, Except.bind, pure, Except.pure]
  rfl

/-- The runtime projection of the closure, made for its decisions. -/
theorem vendor_runtime_ok (hgraph : validate_graph (keys.map vendor_locked) = .ok ())
    (hpaths : ∀ key ∈ keys, valid_contained_absolute_path generation_root
      (package_path generation_root key.scope key.name) = true) :
    LakeRuntimePackagesProjectionV1.from_bun_decisions (vendor_lock keys hsorted hcount hgraph)
      (vendor_decisions generation_root graph keys hsorted hpaths) (keys.map vendor_metadata) =
        .ok (vendor_runtime generation_root keys) := by
  have hlength : (vendor_decisions generation_root graph keys hsorted hpaths).decisions.length =
      (vendor_lock keys hsorted hcount hgraph).packages.length := by
    show (keys.pmap _ hpaths).length = (keys.map vendor_locked).length
    rw [List.length_pmap, List.length_map]
  have hentries : (vendor_lock keys hsorted hcount hgraph).packages.mapM
      (projection_entry (keys.map vendor_metadata)
        (some (vendor_decisions generation_root graph keys hsorted hpaths)) true) =
      .ok (keys.map fun key => vendor_entry (package_path generation_root key.scope key.name) key) := by
    refine mapM_eq_ok_iff.mpr ?_
    show List.Forall₂ _ (keys.map vendor_locked) (keys.map _)
    rw [List.forall₂_map_left_iff, List.forall₂_map_right_iff]
    refine List.forall₂_same.mpr fun key hkey => ?_
    have hdecision : (vendor_decisions generation_root graph keys hsorted hpaths).decisions.find?
        (fun decision => decide (decision.package = key)) =
          some (vendor_decision generation_root graph key (hpaths key hkey)) := by
      have hnodup := (vendor_decisions generation_root graph keys hsorted hpaths).decisions_sorted.nodup
      have hmem : vendor_decision generation_root graph key (hpaths key hkey) ∈
          (vendor_decisions generation_root graph keys hsorted hpaths).decisions :=
        List.mem_pmap.mpr ⟨key, hkey, rfl⟩
      exact find_key_of_mem hnodup hmem
    show projection_entry _ _ true (vendor_locked key) = _
    unfold projection_entry projection_source
    rw [show (vendor_locked key).key = key from rfl, vendor_metadata_found hsorted hkey]
    dsimp only
    rw [hdecision]
    rfl
  unfold LakeRuntimePackagesProjectionV1.from_bun_decisions
  rw [vendor_metadata_valid]
  simp only [ensure_ok hlength, hentries, bind, Except.bind, pure, Except.pure]
  rfl

/-- What the resolution of some keys selects can be computed. -/
theorem vendor_resolves (h : (resolve_lean_dependencies_v1 (vendor_resolution keys hsorted hcount)
      (keys.map vendor_candidate)).toOption.map
        (fun graph => graph.packages.map LeanResolvedPackageV1.key) = some keys) :
    ∃ graph, resolve_lean_dependencies_v1 (vendor_resolution keys hsorted hcount)
        (keys.map vendor_candidate) = .ok graph ∧
      graph.packages.map LeanResolvedPackageV1.key = keys := by
  cases hgraph : resolve_lean_dependencies_v1 (vendor_resolution keys hsorted hcount)
      (keys.map vendor_candidate) with
  | error e =>
    rw [hgraph] at h
    cases h
  | ok graph =>
    rw [hgraph] at h
    exact ⟨graph, rfl, Option.some.inj h⟩

end Vendor

/-! ## One package -/

def solo_key : PackageKeyV1 := ⟨[], "solo".toList, no_scope_valid, by decide +kernel⟩

theorem solo_sorted : StrictlySorted id [solo_key] := List.pairwise_singleton _ _

theorem solo_counted : [solo_key].length ≤ MAX_ROOT_DEPENDENCIES_V1 := by decide +kernel

theorem solo_graph_valid : validate_graph ([solo_key].map vendor_locked) = .ok () := by
  decide +kernel

theorem solo_key_resolves : ∃ graph,
    resolve_lean_dependencies_v1 (vendor_resolution [solo_key] solo_sorted
      solo_counted) ([solo_key].map vendor_candidate) = .ok graph ∧
    graph.packages.map LeanResolvedPackageV1.key = [solo_key] :=
  vendor_resolves (by decide +kernel)

end LeanBun.Generation
