/-
`resolve_lean_dependencies_v1`.

A queue of selected packages is worked off breadth first. A requirement for a
package that is selected already has to match the selected candidate and becomes
a shadow; otherwise exactly one candidate of the registry has to match, at the
pin of the active lock unless the package is an update target, and is selected.
Afterwards the graph is checked for cycles and depth and, with an active lock,
for what the mode allows to have changed.

The maps of the source are lists here: `selected` in the order of selection,
looked up by key. The queue loop runs on fuel; `LeanBun.Resolver.Selection` shows
that it never runs out.
-/
import LeanBun.Resolver.Model
import LeanBun.Lib.Worklist

set_option autoImplicit false

namespace LeanBun.Resolver

open LeanBun.Lib LeanBun.Core LeanBun.Lock LeanBun.Bridge

/-! ## Matching -/

/-- `request_matches_candidate`. -/
def request_matches_candidate (requirement : LeanSourceRequestV1)
    (candidate : LeanPackageCandidateV1) : Bool :=
  match requirement, candidate.requested, candidate.resolved with
  | .Git url revision subdir _ _, .Git candidate_url candidate_revision candidate_subdir _ _,
      .Git resolved_url _ resolved_subdir _ _ =>
    decide (url = candidate_url) && decide (url = resolved_url) &&
      decide (revision = candidate_revision) && decide (subdir = candidate_subdir) &&
      decide (subdir = resolved_subdir)
  | .Reservoir version _, .Reservoir candidate_version _, .Git _ _ _ _ _ =>
    decide (version = candidate_version)
  | .Path token _, .Path candidate_token _, .Path resolved_token _ _ =>
    decide (token = candidate_token) && decide (token = resolved_token)
  | _, _, _ => false

/-- The keys of a candidate's dependencies, sorted and without repetitions. -/
def dependency_keys (candidate : LeanPackageCandidateV1) : List PackageKeyV1 :=
  dedup_adjacent (sort_by_key id (candidate.dependencies.map LeanDependencyRequirementV1.key))

/-- The requested sources agree. -/
def requested_matches (requested : LeanSourceRequestV1) (locked : RequestedPackageSourceV1) : Bool :=
  match requested, locked with
  | .Git url revision _ _ _, .Git locked_url requested_revision _ =>
    decide (url = locked_url) && decide (revision = requested_revision)
  | .Path token _, .PathSnapshot locked_token _ => decide (token = locked_token)
  | .Reservoir _ _, .Git _ _ _ => true
  | _, _ => false

/-- The exact sources agree. -/
def resolved_matches (resolved : LeanExactSourceV1) (locked : ResolvedPackageSourceV1)
    (selected_source_identity : Sha256) : Bool :=
  match resolved, locked with
  | .Git url exact_revision subdir _ _, .Git locked_url locked_revision locked_subdir _ _ =>
    decide (url = locked_url) && decide (exact_revision = locked_revision) &&
      decide (subdir = locked_subdir)
  | .Path token source_identity _, .PathSnapshot locked_token _ =>
    decide (token = locked_token) && decide (source_identity = selected_source_identity)
  | _, _ => false

/-- `candidate_matches_lock`: every compared field. -/
def candidate_matches_lock (candidate : LeanPackageCandidateV1) (package : LockedLeanPackageV1) :
    Bool :=
  decide (candidate.key = package.key) &&
    decide (candidate.download_integrity = package.download_integrity) &&
    decide (candidate.source_tree_sha256 = package.source_tree_sha256) &&
    decide (candidate.config_sha256 = package.config_sha256) &&
    decide (candidate.manifest_sha256 = package.manifest_sha256) &&
    decide (candidate.selected_source_identity = package.selected_source_identity) &&
    decide (dependency_keys candidate = package.dependencies) &&
    requested_matches candidate.requested package.requested &&
    resolved_matches candidate.resolved package.resolved package.selected_source_identity

/-! ## Selection -/

/-- `lock_map(lock).get(key)`. -/
def lock_package (lock : LeanBunLockV1) (key : PackageKeyV1) : Option LockedLeanPackageV1 :=
  lock.packages.find? fun package => decide (package.key = key)

theorem lock_package_of_mem {lock : LeanBunLockV1} {package : LockedLeanPackageV1}
    (h : package ∈ lock.packages) : lock_package lock package.key = some package :=
  find_key_of_mem lock.packages_sorted.nodup h

/-- The locked package a requirement is pinned to: none for update targets. -/
def pinned (request : LeanResolutionRequestV1) (key : PackageKeyV1) : Option LockedLeanPackageV1 :=
  if key ∈ request.mode.update_set then none
  else request.active_lock.bind fun lock => lock_package lock key

/-- `pinned.is_none_or(|package| candidate_matches_lock(candidate, package))`. -/
def matches_pin (request : LeanResolutionRequestV1) (key : PackageKeyV1)
    (candidate : LeanPackageCandidateV1) : Bool :=
  (pinned request key).all fun package => candidate_matches_lock candidate package

/-- `SelectedCandidate`. -/
structure SelectedCandidate where
  candidate : LeanPackageCandidateV1
  winner : LeanResolutionOriginV1

/-- The mutable state of the resolution. -/
structure ResolutionState where
  selected : List SelectedCandidate
  queue : List PackageKeyV1
  resolution_order : List PackageKeyV1
  shadows : List LeanShadowDecisionV1

/-- `selected.get(key)`. -/
def ResolutionState.get (state : ResolutionState) (key : PackageKeyV1) : Option SelectedCandidate :=
  state.selected.find? fun entry => decide (entry.candidate.key = key)

/-- `resolution_order.push`, `queue.push_back` and `selected.insert`. -/
def ResolutionState.select (state : ResolutionState) (candidate : LeanPackageCandidateV1)
    (winner : LeanResolutionOriginV1) : ResolutionState where
  selected := state.selected ++ [⟨candidate, winner⟩]
  queue := state.queue ++ [candidate.key]
  resolution_order := state.resolution_order ++ [candidate.key]
  shadows := state.shadows

/-- `shadows.push`. -/
def ResolutionState.push_shadow (state : ResolutionState) (shadow : LeanShadowDecisionV1) :
    ResolutionState := { state with shadows := state.shadows ++ [shadow] }

/-- `registry.get(key)`. -/
def available (registry : List LeanPackageCandidateV1) (key : PackageKeyV1) :
    List LeanPackageCandidateV1 :=
  registry.filter fun candidate => decide (candidate.key = key)

/-- The candidates that satisfy a requirement. -/
def matching (request : LeanResolutionRequestV1) (registry : List LeanPackageCandidateV1)
    (requirement : LeanDependencyRequirementV1) : List LeanPackageCandidateV1 :=
  (available registry requirement.key).filter fun candidate =>
    request_matches_candidate requirement.source candidate &&
      matches_pin request requirement.key candidate

/-- The error of a requirement that nothing matches. -/
def unsatisfied (request : LeanResolutionRequestV1) (registry : List LeanPackageCandidateV1)
    (requirement : LeanDependencyRequirementV1) : LeanResolutionError :=
  .new (if (available registry requirement.key).any
        fun candidate => decide (candidate.requested.kind_tag = requirement.source.kind_tag)
      then .SourceValueConflict else .SourceKindConflict)
    ("supplied metadata cannot satisfy " ++ key_label requirement.key ++
      if (pinned request requirement.key).isSome then " at the active lock pin" else "")

/-- `select_requirement`. -/
def select_requirement (request : LeanResolutionRequestV1) (registry : List LeanPackageCandidateV1)
    (state : ResolutionState) (origin : LeanResolutionOriginV1)
    (requirement : LeanDependencyRequirementV1) : ResolveResult ResolutionState :=
  match state.get requirement.key with
  | some existing =>
    if request_matches_candidate requirement.source existing.candidate then
      .ok (state.push_shadow
        ⟨requirement.key, existing.candidate.identity, existing.winner, origin⟩)
    else .error ⟨.SourceValueConflict,
      "shadowed dependency requirement is incompatible with the selected source",
      some ⟨requirement.key, existing.winner, origin, existing.candidate.identity⟩⟩
  | none =>
    if available registry requirement.key = [] then
      .error (.new .MissingTransitiveDeclaration
        ("no supplied metadata for " ++ key_label requirement.key))
    else match matching request registry requirement with
      | [] => .error (unsatisfied request registry requirement)
      | [candidate] =>
        if candidate.toolchain_candidate.all fun toolchain => decide (toolchain = request.toolchain)
        then .ok (state.select candidate origin)
        else .error (.new .ToolchainCandidateConflict
          ("package " ++ key_label candidate.key ++ " proposes a different toolchain"))
      | _ => .error (.new .AmbiguousCandidate
          ("multiple exact candidates satisfy " ++ key_label requirement.key))

/-- The root requirements with their origins, in declaration order. -/
def root_requirements (root : LakeRootDeclarationV1) :
    ResolveResult (List (LeanResolutionOriginV1 × LeanDependencyRequirementV1)) :=
  root.dependencies.zipIdx.mapM fun (dependency, index) => do
    let source ← LeanSourceRequestV1.from_root dependency
    return (.Root index, ⟨dependency.key, source⟩)

/-- The requirements of a candidate with their origins, in declaration order. -/
def package_requirements (parent_key : PackageKeyV1) (candidate : LeanPackageCandidateV1) :
    List (LeanResolutionOriginV1 × LeanDependencyRequirementV1) :=
  candidate.dependencies.zipIdx.map fun (requirement, index) =>
    (.Package parent_key index, requirement)

/-- Requirements are selected last declared first. -/
def select_all (request : LeanResolutionRequestV1) (registry : List LeanPackageCandidateV1)
    (state : ResolutionState)
    (requirements : List (LeanResolutionOriginV1 × LeanDependencyRequirementV1)) :
    ResolveResult ResolutionState :=
  requirements.reverse.foldlM (fun state entry =>
    select_requirement request registry state entry.1 entry.2) state

/-- The queue loop. -/
def resolve_queue (request : LeanResolutionRequestV1) (registry : List LeanPackageCandidateV1) :
    ℕ → ResolutionState → ResolveResult ResolutionState
  | 0, state =>
    if state.queue = [] then .ok state else .error (limit "resolution queue exceeds fuel")
  | fuel + 1, state =>
    match state.queue with
    | [] => .ok state
    | parent_key :: queue =>
      match state.get parent_key with
      | none => .error (invalid "selected queue entry disappeared")
      | some parent => do
        let state ← select_all request registry { state with queue }
          (package_requirements parent_key parent.candidate)
        resolve_queue request registry fuel state

/-! ## Cycles and depth -/

/-- The package of a key. -/
def package_of (packages : List LeanResolvedPackageV1) (key : PackageKeyV1) :
    Option LeanResolvedPackageV1 :=
  packages.find? fun package => decide (package.key = key)

/-- `visit`, with the depth counted down: at `remaining` the depth of the source
is `MAX_GRAPH_DEPTH_V1 + 1 - remaining`. The newest state of a key is in front. -/
def visit (packages : List LeanResolvedPackageV1) :
    ℕ → PackageKeyV1 → List (PackageKeyV1 × ℕ) → ResolveResult (List (PackageKeyV1 × ℕ))
  | 0, _, _ => .error (.new .GraphTooDeep "resolved graph exceeds depth limit")
  | remaining + 1, key, states =>
    match states.find? fun entry => decide (entry.1 = key) with
    | some (_, 1) => .error (.new .DependencyCycle ("dependency cycle reaches " ++ key_label key))
    | some (_, 2) => .ok states
    | _ =>
      match package_of packages key with
      | none => .error (.new .MissingTransitiveDeclaration
          "selected dependency edge has no package")
      | some package => do
        let states ← package.dependencies.foldlM (fun states dependency =>
          visit packages remaining dependency states) ((key, 1) :: states)
        return (key, 2) :: states

/-- `validate_cycles_and_depth`. -/
def validate_cycles_and_depth (packages : List LeanResolvedPackageV1) : ResolveResult Unit := do
  let _ ← packages.foldlM (fun states package =>
    visit packages MAX_GRAPH_DEPTH_V1 package.key states) []
  return ()

/-! ## Modes -/

/-- The locked dependencies of a locked key. -/
def active_dependencies (lock : LeanBunLockV1) (key : PackageKeyV1) : List PackageKeyV1 :=
  match lock_package lock key with
  | none => []
  | some package =>
    package.dependencies.filter fun dependency => (lock_package lock dependency).isSome

/-- `active_impact_closure`. -/
def active_impact_closure (lock : LeanBunLockV1) (update_set : List PackageKeyV1) :
    List PackageKeyV1 :=
  let queue := update_set.filter fun key => (lock_package lock key).isSome
  let keys := lock.packages.map LockedLeanPackageV1.key
  worklist (active_dependencies lock) (pending (active_dependencies lock) keys queue []) queue []

/-- The selected dependencies of a selected key. -/
def selected_dependencies (packages : List LeanResolvedPackageV1) (key : PackageKeyV1) :
    List PackageKeyV1 :=
  match package_of packages key with
  | none => []
  | some package =>
    package.dependencies.filter fun dependency => (package_of packages dependency).isSome

/-- `selected_impact_closure`. -/
def selected_impact_closure (packages : List LeanResolvedPackageV1)
    (update_set : List PackageKeyV1) : List PackageKeyV1 :=
  let queue := update_set.filter fun key => (package_of packages key).isSome
  let keys := packages.map LeanResolvedPackageV1.key
  worklist (selected_dependencies packages)
    (pending (selected_dependencies packages) keys queue []) queue []

/-- Both closures as one ordered set. -/
def update_impact (lock : LeanBunLockV1) (packages : List LeanResolvedPackageV1)
    (update_set : List PackageKeyV1) : List PackageKeyV1 :=
  let active := active_impact_closure lock update_set
  sort_by_key id (active ++ (selected_impact_closure packages update_set).filter
    fun key => decide (key ∉ active))

/-- A selected package is not the locked one. -/
def changed_from_lock (lock : LeanBunLockV1) (package : LeanResolvedPackageV1) : Bool :=
  match lock_package lock package.key with
  | none => false
  | some old => !candidate_matches_lock package.candidate old

/-- A locked package is selected as it is locked. -/
def selected_as_locked (packages : List LeanResolvedPackageV1) (package : LockedLeanPackageV1) :
    Bool :=
  match package_of packages package.key with
  | none => false
  | some resolved => candidate_matches_lock resolved.candidate package

/-- `validate_mode_result`. -/
def validate_mode_result (request : LeanResolutionRequestV1)
    (packages : List LeanResolvedPackageV1) : ResolveResult (List PackageKeyV1) :=
  match request.active_lock with
  | none =>
    match request.mode.update_set.find? fun target => (package_of packages target).isNone with
    | some target => .error (.new .UnknownUpdateTarget
        ("update target is absent: " ++ key_label target))
    | none => .ok []
  | some lock =>
    match request.mode with
    | .Frozen =>
      if lock.packages.length = packages.length ∧
          lock.packages.all (selected_as_locked packages) = true then .ok []
      else .error (.new .FrozenGraphDrift
        "frozen resolution differs from the complete active lock")
    | .Update update_set _ _ =>
      match update_set.find? fun target =>
          (lock_package lock target).isNone && (package_of packages target).isNone with
      | some target => .error (.new .UnknownUpdateTarget
          ("unknown update target: " ++ key_label target))
      | none =>
        let impact := update_impact lock packages update_set
        match packages.find? fun package =>
            decide (package.key ∉ impact) && changed_from_lock lock package with
        | some package => .error (.new .UpdateEscapesImpactClosure
            ("package changed outside update impact closure: " ++ key_label package.key))
        | none =>
          match lock.packages.find? fun package =>
              (package_of packages package.key).isNone && decide (package.key ∉ impact) with
          | some package => .error (.new .UpdateEscapesImpactClosure
              ("package disappeared outside update impact closure: " ++ key_label package.key))
          | none => .ok impact

/-! ## The resolution -/

/-- `into_values().map(..)`: a selected candidate as a resolved package. -/
def resolved_package (entry : SelectedCandidate) : LeanResolvedPackageV1 :=
  ⟨entry.candidate, dependency_keys entry.candidate⟩

/-- `derive(Ord)` on origins: roots first, then packages by key and index. -/
def origin_key : LeanResolutionOriginV1 → Lex (ℕ ⊕ Lex (PackageKeyV1 × ℕ))
  | .Root declaration_index => toLex (Sum.inl declaration_index)
  | .Package package declaration_index => toLex (Sum.inr (toLex (package, declaration_index)))

/-- The order of the shadows: package, winner, shadowed. -/
def shadow_key (shadow : LeanShadowDecisionV1) :
    Lex (PackageKeyV1 × Lex (Lex (ℕ ⊕ Lex (PackageKeyV1 × ℕ)) × Lex (ℕ ⊕ Lex (PackageKeyV1 × ℕ)))) :=
  toLex (shadow.package, toLex (origin_key shadow.winner, origin_key shadow.shadowed))

/-- The order of the registry: key, then identity. -/
def candidate_key (candidate : LeanPackageCandidateV1) : Lex (PackageKeyV1 × List ℕ) :=
  toLex (candidate.key, candidate.identity.key)

/-- `resolve_lean_dependencies_v1`. -/
def resolve_lean_dependencies_v1 (request : LeanResolutionRequestV1)
    (candidates : List LeanPackageCandidateV1) : ResolveResult LeanResolutionGraphV1 := do
  let _ ← ensure (candidates.length ≤ MAX_PACKAGES_V1 * 4)
    (limit "candidate registry exceeds limit")
  let registry := sort_by_key candidate_key candidates
  let _ ← ensure (adjacent_equal (fun candidate => candidate.identity.key) registry = false)
    (.new .DuplicateCandidateIdentity "candidate registry contains a duplicate identity")
  let roots ← root_requirements request.root
  let state ← select_all request registry ⟨[], [], [], []⟩ roots
  let state ← resolve_queue request registry candidates.length state
  let _ ← ensure (state.selected.length ≤ MAX_PACKAGES_V1)
    (limit "resolved package closure exceeds limit")
  let packages := sort_by_key LeanResolvedPackageV1.key (state.selected.map resolved_package)
  let _ ← validate_cycles_and_depth packages
  let root_packages := dedup_adjacent (sort_by_key id (roots.reverse.map fun entry => entry.2.key))
  let shadows := sort_by_key shadow_key state.shadows
  let impact_closure ← validate_mode_result request packages
  return {
    toolchain := request.toolchain
    root_declaration_identity := request.root.identity
    packages, root_packages
    resolution_order := state.resolution_order
    shadows, impact_closure
    identity := digest (graph_identity_bytes request.toolchain request.root.identity packages
      root_packages state.resolution_order shadows impact_closure) }

end LeanBun.Resolver
