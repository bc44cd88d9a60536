/-
`LeanBunGenerationV1::new_with_reservoir_bindings`.

A generation is built from six values that were made apart: a lock, a resolution
graph, a decision set, the two projections, and the verified objects; perhaps
also a Reservoir binding document. The constructor compares them package by
package, in the order of the lock. The maps of the source are lists here, looked
up by package; the objects that no package has taken yet are passed along.
-/
import LeanBun.Bridge.Projection
import LeanBun.Generation.Model
import LeanBun.Lock.Reservoir
import LeanBun.Store.Object

set_option autoImplicit false

namespace LeanBun.Generation

open LeanBun.Lib LeanBun.Core LeanBun.Lock LeanBun.Bridge LeanBun.Resolver LeanBun.Store

def invalid (message : String) : LeanGenerationError := ⟨.InvalidField, message⟩
def incompatible (message : String) : LeanGenerationError := ⟨.IncompatibleInput, message⟩

/-- Two lists of keys are one set. -/
def same_keys (left right : List PackageKeyV1) : Prop :=
  (∀ key ∈ left, key ∈ right) ∧ ∀ key ∈ right, key ∈ left

instance (left right : List PackageKeyV1) : Decidable (same_keys left right) :=
  inferInstanceAs (Decidable (_ ∧ _))

/-! ## Reservoir bindings -/

/-- `matches!(requested, LeanSourceRequestV1::Reservoir { .. })`. -/
def is_reservoir (package : LeanResolvedPackageV1) : Bool :=
  match package.candidate.requested with
  | .Reservoir _ _ => true
  | _ => false

/-- The exact content of a candidate is that of a binding. -/
def content_matches_binding (candidate : LeanPackageCandidateV1) (url : CanonicalSourceUrlV1)
    (exact_revision : Str) (binding : ReservoirBindingV1) : Prop :=
  url = binding.resolved_url ∧ exact_revision = binding.exact_commit ∧
    candidate.download_integrity = some binding.download_integrity ∧
    candidate.source_tree_sha256 = binding.source_tree_sha256 ∧
    candidate.selected_source_identity = binding.selected_source_identity

instance (candidate : LeanPackageCandidateV1) (url : CanonicalSourceUrlV1) (exact_revision : Str)
    (binding : ReservoirBindingV1) :
    Decidable (content_matches_binding candidate url exact_revision binding) :=
  inferInstanceAs (Decidable (_ ∧ _))

/-- The loop body of `validate_reservoir_bindings`. -/
def check_reservoir_package (document : ReservoirBindingDocumentV1)
    (package : LeanResolvedPackageV1) : GenerationResult Unit :=
  match document.bindings.find? fun binding => decide (binding.package = package.key) with
  | none => .error (incompatible "Reservoir graph package lacks a binding")
  | some binding =>
    match package.candidate.requested with
    | .Reservoir version _ =>
      if version ≠ some binding.requested_version then
        .error (incompatible "Reservoir graph requires an explicit version matching the binding")
      else
        match package.candidate.resolved with
        | .Git url exact_revision _ _ _ =>
          if content_matches_binding package.candidate url exact_revision binding then .ok ()
          else .error (incompatible "Reservoir graph facts differ from the binding companion")
        | .Path _ _ _ =>
          .error (incompatible "Reservoir graph package requires an exact Git source")
    | _ => .error (incompatible "Reservoir request classification changed")

/-- `validate_reservoir_bindings`. -/
def validate_reservoir_bindings (lock : LeanBunLockV1) (graph : LeanResolutionGraphV1)
    (document : Option ReservoirBindingDocumentV1) : GenerationResult Unit :=
  let reservoir_packages := graph.packages.filter is_reservoir
  if reservoir_packages = [] then
    if document.isSome then
      .error (incompatible "non-Reservoir generation must not carry Reservoir binding authority")
    else .ok ()
  else
    match document with
    | none =>
      .error (incompatible "Reservoir-backed generation requires a binding companion")
    | some document =>
      if document.lock_v1_identity ≠ lock.identity then
        .error (incompatible "Reservoir binding companion names another V1 lock")
      else if document.bindings.length ≠ reservoir_packages.length then
        .error (incompatible "Reservoir binding set differs from the resolution graph")
      else do
        let _ ← reservoir_packages.mapM (check_reservoir_package document)
        return ()

/-! ## One package -/

/-- The lock, the graph and the object agree on a package. -/
def package_facts_agree (locked : LockedLeanPackageV1) (resolved : LeanResolvedPackageV1)
    (object : VerifiedPackageObjectV1) : Prop :=
  resolved.candidate.source_tree_sha256 = locked.source_tree_sha256 ∧
    resolved.candidate.download_integrity = locked.download_integrity ∧
    resolved.candidate.config_sha256 = locked.config_sha256 ∧
    resolved.candidate.manifest_sha256 = locked.manifest_sha256 ∧
    resolved.candidate.selected_source_identity = locked.selected_source_identity ∧
    same_keys locked.dependencies resolved.dependencies ∧
    object.candidate_identity = resolved.candidate.identity ∧
    object.package_source_key = PackageSourceKeyV1.from_locked_package locked

instance (locked : LockedLeanPackageV1) (resolved : LeanResolvedPackageV1)
    (object : VerifiedPackageObjectV1) : Decidable (package_facts_agree locked resolved object) :=
  inferInstanceAs (Decidable (_ ∧ _))

/-- The object is the one of the lock and of the decision. -/
def object_facts_agree (graph : LeanResolutionGraphV1) (locked : LockedLeanPackageV1)
    (decision : PackagePathDecisionV1) (object : VerifiedPackageObjectV1) : Prop :=
  object.source_tree_sha256 = locked.source_tree_sha256 ∧
    object.source_tree_sha256 = decision.source_tree_sha256 ∧
    object.store_object_sha256 = decision.store_object_sha256 ∧
    decision.generation = graph.identity

instance (graph : LeanResolutionGraphV1) (locked : LockedLeanPackageV1)
    (decision : PackagePathDecisionV1) (object : VerifiedPackageObjectV1) :
    Decidable (object_facts_agree graph locked decision object) :=
  inferInstanceAs (Decidable (_ ∧ _))

/-- The package of a generation for a key and its object. -/
def generation_package (generation_root : PathBuf) (placed : PackageKeyV1 × VerifiedPackageObjectV1) :
    GenerationPackageV1 where
  key_scope := placed.1.scope
  key_name := placed.1.name
  final_path := package_path generation_root placed.1.scope placed.1.name
  store_object_sha256 := placed.2.store_object_sha256
  source_tree_sha256 := placed.2.source_tree_sha256
  object_tree_path := placed.2.tree_path
  entries := placed.2.entries

/-- What the loop carries: the objects not taken yet, and the packages placed so
far. -/
structure PlaceState where
  objects : List VerifiedPackageObjectV1
  placed : List (PackageKeyV1 × VerifiedPackageObjectV1)

/-- The loop body: checks one locked package and takes its object. -/
def place_package (generation_root : PathBuf) (graph : LeanResolutionGraphV1) (state : PlaceState)
    (pair : LockedLeanPackageV1 × PackagePathDecisionV1) : GenerationResult PlaceState := do
  let (locked, decision) := pair
  let _ ← ensure (locked.key = decision.package)
    (incompatible "decision ordering differs from canonical lock ordering")
  match state.objects.find? fun object => decide (object.package = locked.key) with
  | none => .error ⟨.MissingPackage, "verified package object is missing"⟩
  | some object =>
    match package_of graph.packages locked.key with
    | none => .error (incompatible "locked package is absent from the M33 graph")
    | some resolved => do
      let _ ← ensure (package_facts_agree locked resolved object)
        (incompatible "M31 lock, M33 graph and M34 object package facts differ")
      let _ ← ensure (object_facts_agree graph locked decision object)
        (incompatible "verified object differs from lock or path decision")
      let _ ← ensure
        (path_eq decision.final_path (package_path generation_root locked.key.scope locked.key.name)
          = true)
        (incompatible "path decision is not the canonical generation package path")
      return ⟨state.objects.filter fun other => decide (other.package ≠ locked.key),
        state.placed ++ [(locked.key, object)]⟩

/-- The loop over the lock and the decisions. -/
def place_packages (generation_root : PathBuf) (lock : LeanBunLockV1) (graph : LeanResolutionGraphV1)
    (decisions : PackagePathDecisionSetV1) (objects : List VerifiedPackageObjectV1) :
    GenerationResult PlaceState :=
  (lock.packages.zip decisions.decisions).foldlM (place_package generation_root graph) ⟨objects, []⟩

/-- **One round.** What is checked of a package that is placed. -/
structure Placed (generation_root : PathBuf) (graph : LeanResolutionGraphV1)
    (objects : List VerifiedPackageObjectV1)
    (pair : LockedLeanPackageV1 × PackagePathDecisionV1)
    (placed : PackageKeyV1 × VerifiedPackageObjectV1) : Prop where
  key : placed.1 = pair.1.key
  decided : pair.1.key = pair.2.package
  supplied : placed.2 ∈ objects
  package : placed.2.package = pair.1.key
  facts : ∃ resolved, package_of graph.packages pair.1.key = some resolved ∧
    package_facts_agree pair.1 resolved placed.2
  object : object_facts_agree graph pair.1 pair.2 placed.2
  path : path_eq pair.2.final_path
    (package_path generation_root pair.1.key.scope pair.1.key.name) = true

theorem place_package_eq_ok {generation_root : PathBuf} {graph : LeanResolutionGraphV1}
    {state state' : PlaceState} {pair : LockedLeanPackageV1 × PackagePathDecisionV1}
    (h : place_package generation_root graph state pair = .ok state') :
    ∃ placed, Placed generation_root graph state.objects pair placed ∧
      state' = ⟨state.objects.filter fun other => decide (other.package ≠ pair.1.key),
        state.placed ++ [placed]⟩ := by
  obtain ⟨locked, decision⟩ := pair
  unfold place_package at h
  obtain ⟨⟨hkey⟩, -, h⟩ := bind_eq_ok.mp h
  cases hobject : state.objects.find? fun object => decide (object.package = locked.key) with
  | none => rw [hobject] at h; cases h
  | some object =>
    rw [hobject] at h
    cases hresolved : package_of graph.packages locked.key with
    | none => rw [hresolved] at h; cases h
    | some resolved =>
      rw [hresolved] at h
      obtain ⟨⟨hfacts⟩, -, h⟩ := bind_eq_ok.mp h
      obtain ⟨⟨hagree⟩, -, h⟩ := bind_eq_ok.mp h
      obtain ⟨⟨hpath⟩, -, h⟩ := bind_eq_ok.mp h
      cases h
      refine ⟨(locked.key, object), ⟨rfl, hkey, List.mem_of_find?_eq_some hobject,
        of_decide_eq_true (List.find?_some hobject :), ⟨resolved, hresolved, hfacts⟩, hagree,
        hpath⟩, rfl⟩

/-- **All rounds.** The packages are placed in the order of the lock, each from
one of the given objects. -/
theorem place_packages_eq_ok {generation_root : PathBuf} {lock : LeanBunLockV1}
    {graph : LeanResolutionGraphV1} {decisions : PackagePathDecisionSetV1}
    {objects : List VerifiedPackageObjectV1} {state : PlaceState}
    (h : place_packages generation_root lock graph decisions objects = .ok state) :
    List.Forall₂ (Placed generation_root graph objects) (lock.packages.zip decisions.decisions)
      state.placed := by
  let I : List (LockedLeanPackageV1 × PackagePathDecisionV1) → PlaceState → Prop :=
    fun pre state => (∀ object ∈ state.objects, object ∈ objects) ∧
      List.Forall₂ (Placed generation_root graph objects) pre state.placed
  suffices hI : I (lock.packages.zip decisions.decisions) state from hI.2
  refine foldlM_invariant I ?_ ⟨fun _ hobject => hobject, List.Forall₂.nil⟩ h
  intro pre pair state state' _ hinv hstep
  obtain ⟨placed, hplaced, rfl⟩ := place_package_eq_ok hstep
  refine ⟨fun object hobject => hinv.1 object (List.mem_filter.mp hobject).1, ?_⟩
  have hone : Placed generation_root graph objects pair placed :=
    { hplaced with supplied := hinv.1 _ hplaced.supplied }
  exact List.rel_append hinv.2 (List.Forall₂.cons hone List.Forall₂.nil)

/-- The converse for one round: the object of the package is the one that is
found. -/
theorem place_package_ok {generation_root : PathBuf} {graph : LeanResolutionGraphV1}
    {state : PlaceState} {pair : LockedLeanPackageV1 × PackagePathDecisionV1}
    {placed : PackageKeyV1 × VerifiedPackageObjectV1}
    (h : Placed generation_root graph state.objects pair placed)
    (hdistinct : (state.objects.map VerifiedPackageObjectV1.package).Nodup) :
    place_package generation_root graph state pair =
      .ok ⟨state.objects.filter fun other => decide (other.package ≠ pair.1.key),
        state.placed ++ [placed]⟩ := by
  obtain ⟨locked, decision⟩ := pair
  obtain ⟨key, object⟩ := placed
  obtain ⟨hkey, hdecided, hsupplied, hpackage, ⟨resolved, hresolved, hfacts⟩, hobject, hpath⟩ := h
  dsimp only at hkey hdecided hsupplied hpackage hresolved hfacts hobject hpath ⊢
  have hfind : state.objects.find? (fun object => decide (object.package = locked.key)) =
      some object := by
    rw [← hpackage]
    exact find_key_of_mem hdistinct hsupplied
  unfold place_package
  simp only [ensure_ok hdecided, hfind, hresolved, ensure_ok hfacts, ensure_ok hobject,
    ensure_ok hpath, bind, Except.bind, pure, Except.pure, hkey]

/-- **The converse for all rounds.** What is left are the objects of other
packages. -/
theorem place_packages_ok {generation_root : PathBuf} {graph : LeanResolutionGraphV1}
    {pairs : List (LockedLeanPackageV1 × PackagePathDecisionV1)}
    {placed : List (PackageKeyV1 × VerifiedPackageObjectV1)} (state : PlaceState)
    (h : List.Forall₂ (Placed generation_root graph state.objects) pairs placed)
    (hdistinct : (state.objects.map VerifiedPackageObjectV1.package).Nodup)
    (hkeys : (pairs.map fun pair => pair.1.key).Nodup) :
    pairs.foldlM (place_package generation_root graph) state =
      .ok ⟨state.objects.filter fun other =>
        decide (other.package ∉ pairs.map fun pair => pair.1.key), state.placed ++ placed⟩ := by
  induction pairs generalizing state placed with
  | nil =>
    cases h
    simp [pure, Except.pure]
  | cons pair pairs ih =>
    cases h with
    | @cons _ one _ placed hone hrest =>
    obtain ⟨hnew, hkeys⟩ := List.nodup_cons.mp hkeys
    rw [List.foldlM_cons, place_package_ok hone hdistinct]
    simp only [bind, Except.bind]
    -- The later packages find their objects among the ones that are left.
    have hleft : ∀ other ∈ pairs, other.1.key ≠ pair.1.key := fun other hother heq =>
      hnew (List.mem_map.mpr ⟨other, hother, heq⟩)
    have hrest' : List.Forall₂ (Placed generation_root graph
        (state.objects.filter fun other => decide (other.package ≠ pair.1.key))) pairs placed := by
      have hmem := List.forall₂_iff_get.mp hrest
      refine List.forall₂_iff_get.mpr ⟨hmem.1, fun i hi hi' => ?_⟩
      have hplaced := hmem.2 i hi hi'
      refine { hplaced with supplied := List.mem_filter.mpr ⟨hplaced.supplied, ?_⟩ }
      rw [hplaced.package]
      exact decide_eq_true (hleft _ (List.get_mem _ _))
    have hdistinct' : ((state.objects.filter fun other =>
        decide (other.package ≠ pair.1.key)).map VerifiedPackageObjectV1.package).Nodup :=
      hdistinct.sublist (List.filter_sublist.map _)
    rw [ih ⟨_, _⟩ hrest' hdistinct' hkeys, List.filter_filter, List.append_assoc]
    congr 2
    refine List.filter_congr fun other _ => ?_
    simp only [List.map_cons, List.mem_cons, not_or, Bool.decide_and, Bool.and_comm]

/-- The packages are placed under the keys of the lock. -/
theorem placed_keys {generation_root : PathBuf} {graph : LeanResolutionGraphV1}
    {objects : List VerifiedPackageObjectV1}
    {pairs : List (LockedLeanPackageV1 × PackagePathDecisionV1)}
    {placed : List (PackageKeyV1 × VerifiedPackageObjectV1)}
    (h : List.Forall₂ (Placed generation_root graph objects) pairs placed) :
    placed.map Prod.fst = pairs.map fun pair => pair.1.key := by
  induction h with
  | nil => rfl
  | cons hone _ ih => rw [List.map_cons, List.map_cons, ih, hone.key]

theorem place_packages_length {generation_root : PathBuf} {lock : LeanBunLockV1}
    {graph : LeanResolutionGraphV1} {decisions : PackagePathDecisionSetV1}
    {objects : List VerifiedPackageObjectV1} {state : PlaceState}
    (h : place_packages generation_root lock graph decisions objects = .ok state) :
    state.placed.length ≤ MAX_GENERATION_PACKAGES_V1 := by
  have hlength := (place_packages_eq_ok h).length_eq
  have hbound : lock.packages.length ≤ 4096 := lock.count_bounded
  rw [List.length_zip] at hlength
  unfold MAX_GENERATION_PACKAGES_V1
  omega

/-! ## The constructor -/

/-- The lock and the graph were made for one root and one toolchain. -/
def roots_agree (lock : LeanBunLockV1) (graph : LeanResolutionGraphV1) : Prop :=
  lock.root_declaration_sha256 = graph.root_declaration_identity ∧
    lock.lean_toolchain = graph.toolchain.lean_toolchain ∧
    lock.lean_compiler_githash = graph.toolchain.compiler_githash ∧
    lock.lake_version = graph.toolchain.lake_version

instance (lock : LeanBunLockV1) (graph : LeanResolutionGraphV1) : Decidable (roots_agree lock graph) :=
  inferInstanceAs (Decidable (_ ∧ _))

/-- The inputs have as many packages as the lock. -/
def counts_agree (lock : LeanBunLockV1) (graph : LeanResolutionGraphV1)
    (decisions : PackagePathDecisionSetV1) (runtime : LakeRuntimePackagesProjectionV1)
    (objects : List VerifiedPackageObjectV1) : Prop :=
  lock.packages.length = graph.packages.length ∧
    lock.packages.length = decisions.decisions.length ∧
    lock.packages.length = objects.length ∧ runtime.package_count = objects.length

instance (lock : LeanBunLockV1) (graph : LeanResolutionGraphV1)
    (decisions : PackagePathDecisionSetV1) (runtime : LakeRuntimePackagesProjectionV1)
    (objects : List VerifiedPackageObjectV1) :
    Decidable (counts_agree lock graph decisions runtime objects) :=
  inferInstanceAs (Decidable (_ ∧ _))

/-- `LeanBunGenerationV1::new_with_reservoir_bindings`. -/
def LeanBunGenerationV1.new_with_reservoir_bindings (transaction_id : ExecutionId)
    (project_root generation_root : PathBuf) (lock : LeanBunLockV1) (graph : LeanResolutionGraphV1)
    (decisions : PackagePathDecisionSetV1) (manifest : LakeManifestProjectionV1)
    (runtime : LakeRuntimePackagesProjectionV1) (objects : List VerifiedPackageObjectV1)
    (reservoir_bindings : Option ReservoirBindingDocumentV1) :
    GenerationResult LeanBunGenerationV1 := do
  let ⟨hproject⟩ ← ensure (valid_absolute_path project_root = true)
    (invalid "project root must be normalized and absolute")
  let ⟨hroot⟩ ← ensure (valid_absolute_path generation_root = true)
    (invalid "generation root must be normalized and absolute")
  let _ ← ensure (objects.length ≤ MAX_GENERATION_PACKAGES_V1)
    (invalid "generation package count exceeds limit")
  let _ ← ensure (roots_agree lock graph) (incompatible "lock and M33 graph identity differ")
  let _ ← ensure (counts_agree lock graph decisions runtime objects)
    (incompatible "generation inputs do not describe one complete closure")
  let _ ← ensure (objects.map VerifiedPackageObjectV1.package).Nodup
    ⟨.DuplicatePackage, "generation contains duplicate verified package objects"⟩
  let _ ← ensure (same_keys (graph.packages.map LeanResolvedPackageV1.key)
      (lock.packages.map LockedLeanPackageV1.key))
    (incompatible "lock package set differs from the M33 graph")
  let _ ← validate_reservoir_bindings lock graph reservoir_bindings
  match hplace : place_packages generation_root lock graph decisions objects with
  | .error error => .error error
  | .ok state => do
    let _ ← ensure (state.objects = [])
      (incompatible "verified object contains an extra package")
    return {
      transaction_id, project_root, generation_root
      lock_sha256 := digest (as_bytes "leanbun-lock-bytes-v1\x00".toList ++
        as_bytes lock.to_canonical_text)
      graph_sha256 := graph.identity
      decision_set_sha256 := decisions.digest
      manifest_projection_sha256 := manifest.sha256
      runtime_projection_sha256 := runtime.sha256
      reservoir_bindings_sha256 := reservoir_bindings.map ReservoirBindingDocumentV1.identity
      lean_toolchain := lock.lean_toolchain
      compiler_githash := lock.lean_compiler_githash
      lake_version := lock.lake_version
      lock_text := lock.to_canonical_text
      manifest_text := manifest.as_str
      runtime_text := runtime.as_str
      packages := state.placed.map (generation_package generation_root)
      project_root_valid := hproject
      generation_root_valid := hroot
      count_bounded := by
        rw [List.length_map]
        exact place_packages_length hplace
      lock_hashed := rfl
      paths_canonical := by
        intro package hpackage
        obtain ⟨placed, -, rfl⟩ := List.mem_map.mp hpackage
        rfl
      keys_valid := by
        intro package hpackage
        obtain ⟨placed, -, rfl⟩ := List.mem_map.mp hpackage
        exact ⟨placed.1.scope_valid, placed.1.name_valid⟩
      compiler_valid := lock.githash_valid }

/-- The checks of the constructor on inputs whose packages are placed as given. -/
structure Accepted (generation_root : PathBuf) (lock : LeanBunLockV1) (graph : LeanResolutionGraphV1)
    (decisions : PackagePathDecisionSetV1) (runtime : LakeRuntimePackagesProjectionV1)
    (objects : List VerifiedPackageObjectV1) (reservoir : Option ReservoirBindingDocumentV1)
    (placed : List (PackageKeyV1 × VerifiedPackageObjectV1)) : Prop where
  root_valid : valid_absolute_path generation_root = true
  roots : roots_agree lock graph
  counts : counts_agree lock graph decisions runtime objects
  distinct : (objects.map VerifiedPackageObjectV1.package).Nodup
  keys : same_keys (graph.packages.map LeanResolvedPackageV1.key)
    (lock.packages.map LockedLeanPackageV1.key)
  bindings : validate_reservoir_bindings lock graph reservoir = .ok ()
  placed : List.Forall₂ (Placed generation_root graph objects)
    (lock.packages.zip decisions.decisions) placed

section Accepted

variable {transaction_id : ExecutionId} {project_root generation_root : PathBuf}
  {lock : LeanBunLockV1} {graph : LeanResolutionGraphV1} {decisions : PackagePathDecisionSetV1}
  {manifest : LakeManifestProjectionV1} {runtime : LakeRuntimePackagesProjectionV1}
  {objects : List VerifiedPackageObjectV1} {reservoir : Option ReservoirBindingDocumentV1}
  {placed : List (PackageKeyV1 × VerifiedPackageObjectV1)}

/-- The keys of the lock, one for each decision. -/
theorem Accepted.pair_keys
    (h : Accepted generation_root lock graph decisions runtime objects reservoir placed) :
    (lock.packages.zip decisions.decisions).map (fun pair => pair.1.key) =
      lock.packages.map LockedLeanPackageV1.key := by
  have hlength : lock.packages.length ≤ decisions.decisions.length := le_of_eq h.counts.2.1
  have hfst := List.map_fst_zip hlength
  calc (lock.packages.zip decisions.decisions).map (fun pair => pair.1.key)
      = ((lock.packages.zip decisions.decisions).map Prod.fst).map LockedLeanPackageV1.key := by
        rw [List.map_map]
        rfl
    _ = lock.packages.map LockedLeanPackageV1.key := by rw [hfst]

/-- The packages are placed in the order of the lock. -/
theorem Accepted.keys_placed
    (h : Accepted generation_root lock graph decisions runtime objects reservoir placed) :
    placed.map Prod.fst = lock.packages.map LockedLeanPackageV1.key := by
  rw [placed_keys h.placed, h.pair_keys]

/-- Every object is taken. -/
theorem Accepted.objects_taken
    (h : Accepted generation_root lock graph decisions runtime objects reservoir placed) :
    ∀ object ∈ objects, object.package ∈ lock.packages.map LockedLeanPackageV1.key := by
  have hsub : lock.packages.map LockedLeanPackageV1.key ⊆
      objects.map VerifiedPackageObjectV1.package := by
    intro key hkey
    rw [← h.pair_keys] at hkey
    obtain ⟨pair, hpair, rfl⟩ := List.mem_map.mp hkey
    obtain ⟨one, -, hone⟩ := forall₂_partner h.placed hpair
    exact List.mem_map.mpr ⟨one.2, hone.supplied, hone.package⟩
  have hlength : (objects.map VerifiedPackageObjectV1.package).length ≤
      (lock.packages.map LockedLeanPackageV1.key).length := by
    rw [List.length_map, List.length_map]
    exact le_of_eq h.counts.2.2.1.symm
  have hperm := (List.subperm_of_subset lock.packages_sorted.nodup hsub).perm_of_length_le hlength
  intro object hobject
  exact hperm.mem_iff.mpr (List.mem_map.mpr ⟨object, hobject, rfl⟩)

/-- **What the constructor has checked** when it returns a generation. -/
theorem accepted_of_ok {generation : LeanBunGenerationV1}
    (h : LeanBunGenerationV1.new_with_reservoir_bindings transaction_id project_root generation_root
      lock graph decisions manifest runtime objects reservoir = .ok generation) :
    ∃ placed, Accepted generation_root lock graph decisions runtime objects reservoir placed ∧
      generation.packages = placed.map (generation_package generation_root) := by
  unfold LeanBunGenerationV1.new_with_reservoir_bindings at h
  obtain ⟨_, -, h⟩ := bind_eq_ok.mp h
  obtain ⟨⟨hroot⟩, -, h⟩ := bind_eq_ok.mp h
  obtain ⟨_, -, h⟩ := bind_eq_ok.mp h
  obtain ⟨⟨hroots⟩, -, h⟩ := bind_eq_ok.mp h
  obtain ⟨⟨hcounts⟩, -, h⟩ := bind_eq_ok.mp h
  obtain ⟨⟨hdistinct⟩, -, h⟩ := bind_eq_ok.mp h
  obtain ⟨⟨hkeys⟩, -, h⟩ := bind_eq_ok.mp h
  obtain ⟨⟨⟩, hbindings, h⟩ := bind_eq_ok.mp h
  split at h
  · cases h
  · next state hplace =>
    obtain ⟨_, -, h⟩ := bind_eq_ok.mp h
    cases h
    exact ⟨state.placed, ⟨hroot, hroots, hcounts, hdistinct, hkeys, hbindings,
      place_packages_eq_ok hplace⟩, rfl⟩

/-- **The converse.** On inputs that pass the checks it returns a generation. -/
theorem ok_of_accepted (hproject : valid_absolute_path project_root = true)
    (h : Accepted generation_root lock graph decisions runtime objects reservoir placed) :
    ∃ generation, LeanBunGenerationV1.new_with_reservoir_bindings transaction_id project_root
        generation_root lock graph decisions manifest runtime objects reservoir = .ok generation ∧
      generation.packages = placed.map (generation_package generation_root) := by
  have hcount : objects.length ≤ MAX_GENERATION_PACKAGES_V1 := by
    rw [← h.counts.2.2.1]
    exact lock.count_bounded
  have hplace : place_packages generation_root lock graph decisions objects = .ok ⟨[], placed⟩ := by
    have hnodup : ((lock.packages.zip decisions.decisions).map fun pair => pair.1.key).Nodup := by
      rw [h.pair_keys]
      exact lock.packages_sorted.nodup
    have hall := place_packages_ok ⟨objects, []⟩ h.placed h.distinct hnodup
    unfold place_packages
    rw [hall, h.pair_keys, List.nil_append]
    congr 2
    refine List.filter_eq_nil_iff.mpr fun object hobject => ?_
    simpa using List.mem_map.mp (h.objects_taken object hobject)
  unfold LeanBunGenerationV1.new_with_reservoir_bindings
  simp only [ensure_ok hproject, ensure_ok h.root_valid, ensure_ok hcount, ensure_ok h.roots,
    ensure_ok h.counts, ensure_ok h.distinct, ensure_ok h.keys, h.bindings, bind, Except.bind]
  split
  · next error herror => rw [hplace] at herror; cases herror
  · next state hstate =>
    rw [hplace] at hstate
    cases hstate
    simp only [ensure, dif_pos, pure, Except.pure]
    exact ⟨_, rfl, rfl⟩

end Accepted

/-- `LeanBunGenerationV1::new`. -/
def LeanBunGenerationV1.new (transaction_id : ExecutionId) (project_root generation_root : PathBuf)
    (lock : LeanBunLockV1) (graph : LeanResolutionGraphV1) (decisions : PackagePathDecisionSetV1)
    (manifest : LakeManifestProjectionV1) (runtime : LakeRuntimePackagesProjectionV1)
    (objects : List VerifiedPackageObjectV1) : GenerationResult LeanBunGenerationV1 :=
  new_with_reservoir_bindings transaction_id project_root generation_root lock graph decisions
    manifest runtime objects none

end LeanBun.Generation
